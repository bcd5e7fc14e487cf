/-
HTML text as tokens: tags, comments, and the text between them.

Only what a well-formed fragment needs is read. Tags end at the first `>` outside a
quoted value. A tag name and the names of attributes are read in small letters; of two
attributes of one name the first counts. A `<` that begins no markup is text. Behind the
start tag of an element that holds text alone, all is text up to the end tag of that
element. Each step takes at least one character, so the length of the text bounds the
number of steps.
-/

import TreeMarkdown.Html.Reference

namespace TreeMarkdown.Html

/-- What a fragment is made of. -/
inductive Token where
  | text (content : Text)
  | startTag (name : Text) (attributes : List (Text × Text))
  | endTag (name : Text)
  | comment

/-! ### Characters -/

/-- White space inside a tag. -/
def isTagSpace (c : Char) : Bool :=
  c == ' ' || c == '\t' || c == '\n' || c == '\x0c' || c == '\r'

/-- The character cannot stand in a tag name. -/
def endsTagName (c : Char) : Bool :=
  isTagSpace c || c == '/' || c == '>'

/-- Line ends as single newlines. -/
def unifyLineEnds : Text → Text
  | [] => []
  | '\r' :: '\n' :: t => '\n' :: unifyLineEnds t
  | '\r' :: t => '\n' :: unifyLineEnds t
  | c :: t => c :: unifyLineEnds t

/-- The text without a byte order mark in front and with uniform line ends. -/
def normalize : Text → Text
  | '\ufeff' :: t => unifyLineEnds t
  | t => unifyLineEnds t

/-! ### Attributes -/

/-- Reads an attribute value, quoted or not, from behind the equals sign. Gives the value
and the text behind it. -/
def attributeValue (t : Text) : Text × Text :=
  match t.dropWhile isTagSpace with
  | '"' :: t => (decode (t.takeWhile (· != '"')), (t.dropWhile (· != '"')).drop 1)
  | '\'' :: t => (decode (t.takeWhile (· != '\'')), (t.dropWhile (· != '\'')).drop 1)
  | t =>
    let ends := fun c => isTagSpace c || c == '>'
    (decode (t.takeWhile (!ends ·)), t.dropWhile (!ends ·))

/-- Adds an attribute behind the others, unless there is one of its name. -/
def addAttribute (attributes : List (Text × Text)) (name value : Text) : List (Text × Text) :=
  if attributes.any (·.1 == name) then attributes else attributes ++ [(name, value)]

/-- Reads at most `n` attributes up to the end of the tag. Gives all attributes of the tag
and the text behind it. -/
def readAttributes : Nat → List (Text × Text) → Text → List (Text × Text) × Text
  | 0, attributes, t => (attributes, t)
  | n + 1, attributes, t =>
    match t.dropWhile fun c => isTagSpace c || c == '/' with
    | [] => (attributes, [])
    | '>' :: t => (attributes, t)
    | c :: t =>
      let ends := fun c => endsTagName c || c == '='
      let name := (c :: t.takeWhile (!ends ·)).map Char.toLower
      match (t.dropWhile (!ends ·)).dropWhile isTagSpace with
      | '=' :: t =>
        let (value, t) := attributeValue t
        readAttributes n (addAttribute attributes name value) t
      | t => readAttributes n (addAttribute attributes name []) t

/-! ### Tags and comments -/

/-- What is behind a comment, read from behind its opening. -/
def afterComment : Text → Text
  | '-' :: '-' :: '>' :: t => t
  | '-' :: '-' :: '!' :: '>' :: t => t
  | [] => []
  | _ :: t => afterComment t

/-- What is behind the next `>`. -/
def afterTag (t : Text) : Text :=
  (t.dropWhile (· != '>')).drop 1

/-- Reads markup from behind a `<`. Gives the token and the text behind it. -/
def markup? : Text → Option (Token × Text)
  | '!' :: '-' :: '-' :: '>' :: t => some (.comment, t)
  | '!' :: '-' :: '-' :: '-' :: '>' :: t => some (.comment, t)
  | '!' :: '-' :: '-' :: t => some (.comment, afterComment t)
  | '!' :: t => some (.comment, afterTag t)
  | '?' :: t => some (.comment, afterTag t)
  | '/' :: c :: t =>
    if c.isAlpha then
      some (.endTag ((c :: t.takeWhile (!endsTagName ·)).map Char.toLower), afterTag t)
    else some (.comment, afterTag (c :: t))
  | c :: t =>
    if c.isAlpha then
      let name := (c :: t.takeWhile (!endsTagName ·)).map Char.toLower
      let (attributes, rest) := readAttributes t.length [] (t.dropWhile (!endsTagName ·))
      some (.startTag name attributes, rest)
    else none
  | [] => none

/-! ### Elements that hold text alone -/

/-- The tags of elements that hold text alone, in which references are read. -/
def referenceTextTags : List Text :=
  ["textarea", "title"].map String.toList

/-- The tags of elements that hold text alone, which stands for itself. -/
def plainTextTags : List Text :=
  ["iframe", "noembed", "noframes", "noscript", "script", "style", "xmp"].map String.toList

/-- The tag of the element that holds all the text behind it and has no end tag. -/
def endlessTextTag : Text := "plaintext".toList

/-- The text begins with the end tag of an element, whose name is in small letters. -/
def startsEndTag (name : Text) : Text → Bool
  | '<' :: '/' :: t =>
    (t.take name.length).map Char.toLower == name &&
      (t.drop name.length).head?.any endsTagName
  | _ => false

/-- What is before the first end tag of an element, and the text from there on. Without an
end tag all of the text is before it. -/
def splitAtEndTag (name : Text) : Text → Text × Text
  | [] => ([], [])
  | c :: t =>
    if startsEndTag name (c :: t) then ([], c :: t)
    else
      let (before, rest) := splitAtEndTag name t
      (c :: before, rest)

/-- What an element holds that holds text alone, read from behind its start tag, and the
text behind it. Of any other element nothing is read. -/
def textAlone (name t : Text) : List Token × Text :=
  if referenceTextTags.contains name then
    let (content, rest) := splitAtEndTag name t
    ([.text (decode content)], rest)
  else if plainTextTags.contains name then
    let (content, rest) := splitAtEndTag name t
    ([.text content], rest)
  else if name = endlessTextTag then ([.text t], [])
  else ([], t)

/-! ### Texts -/

/-- Reads on for at most `n` steps. -/
def tokensFrom : Nat → Text → List Token
  | 0, _ => []
  | _, [] => []
  | n + 1, '<' :: t =>
    match markup? t with
    | some (.startTag name attributes, rest) =>
      let (content, rest) := textAlone name rest
      .startTag name attributes :: (content ++ tokensFrom n rest)
    | some (token, rest) => token :: tokensFrom n rest
    | none => .text ['<'] :: tokensFrom n t
  | n + 1, c :: t =>
    .text (decode (c :: t.takeWhile (· != '<'))) :: tokensFrom n (t.dropWhile (· != '<'))

/-- The tokens of a text. -/
def tokens (t : Text) : List Token :=
  tokensFrom t.length (normalize t)

end TreeMarkdown.Html
