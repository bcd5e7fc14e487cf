/-
Selectors: chains of names that say which nodes a rule is for.

`UL LI` names every `LI` that has a `UL` among its ancestors. The last token is the
target and names the node itself; the tokens before it, outermost first, name
ancestors, with any number of others in between. The root counts neither as a target
nor as an ancestor. Tokens are words in capitals: they are never empty and hold no
white space, so that a key, the tokens joined by single spaces, keeps them apart
(`key_injective`).
-/

import TreeMarkdown.Document.Navigation

namespace TreeMarkdown

/-- A token that can stand in a key: not empty and free of white space. -/
def IsToken (t : Text) : Prop :=
  t ≠ [] ∧ ∀ c ∈ t, Text.isWhite c = false

/-- A chain of at least one token, outermost first. -/
structure Selector where
  tokens : List Text
  tokens_ne_nil : tokens ≠ []
  isToken : ∀ t ∈ tokens, IsToken t

namespace Selector

@[ext] theorem ext {s t : Selector} (h : s.tokens = t.tokens) : s = t := by
  cases s
  cases t
  cases h
  rfl

instance : DecidableEq Selector := fun s t =>
  decidable_of_iff (s.tokens = t.tokens) ⟨ext, fun h => h ▸ rfl⟩

/-! ### Reading -/

/-- The tokens of a key: its words in capitals. -/
def tokensOf (key : Text) : List Text :=
  (Text.words key).map Text.upper

theorem isToken_of_mem_tokensOf {key t : Text} (h : t ∈ tokensOf key) : IsToken t := by
  obtain ⟨w, hw, rfl⟩ := List.mem_map.mp h
  exact ⟨Text.upper_ne_nil (Text.ne_nil_of_mem_words hw),
    Text.isWhite_eq_false_of_mem_upper fun _ hc => Text.isWhite_eq_false_of_mem_words hw hc⟩

/-- Reads one chain. A key without words names nothing. -/
def parse? (key : Text) : Option Selector :=
  if h : tokensOf key = [] then none
  else some ⟨tokensOf key, h, fun _ ht => isToken_of_mem_tokensOf ht⟩

/-- Reads the chains of a list separated by commas; pieces without words go. -/
def parseList (keys : Text) : List Selector :=
  (keys.splitOn ',').filterMap parse?

/-! ### Observation -/

/-- The token that names the node itself. -/
def target (s : Selector) : Text :=
  s.tokens.getLast s.tokens_ne_nil

/-- The tokens that name ancestors, outermost first. -/
def context (s : Selector) : List Text :=
  s.tokens.dropLast

/-- The tokens joined by single spaces. -/
def key (s : Selector) : Text :=
  [' '].intercalate s.tokens

/-- The number of tokens. -/
def specificity (s : Selector) : Nat :=
  s.tokens.length

/-- The words of the key are the tokens. -/
theorem words_key (s : Selector) : Text.words s.key = s.tokens := by
  unfold Text.words key
  rw [Text.splitOnP_intercalate (by decide) s.tokens_ne_nil fun t ht => (s.isToken t ht).2,
    List.filter_eq_self]
  intro t ht
  simpa using (s.isToken t ht).1

/-- Selectors with the same key have the same tokens. -/
theorem key_injective {s t : Selector} (h : s.key = t.key) : s = t :=
  ext (by rw [← words_key s, ← words_key t, h])

/-! ### Matching -/

/-- What is left of the sought tokens, innermost first, after a pass over ancestors,
innermost first: each ancestor may serve the token that is sought next, and is skipped
if it does not. -/
def unserved (d : Document) : List Text → List Nat → List Text
  | sought, [] => sought
  | [], _ :: _ => []
  | token :: sought, a :: ancestors =>
    if d.isNamed a token then unserved d sought ancestors
    else unserved d (token :: sought) ancestors

/-- The target names node `i`, and every token of the context finds an ancestor. -/
def isMatch (s : Selector) (d : Document) (i : Nat) : Bool :=
  d.isNamed i s.target && (unserved d s.context.reverse (d.innerAncestors i)).isEmpty

/-- The specificity, for a node that the selector matches. -/
def score? (s : Selector) (d : Document) (i : Nat) : Option Nat :=
  if s.isMatch d i then some s.specificity else none

end Selector

end TreeMarkdown
