/-
What links and images refer to, read back from what is written.

A target and a title are written one behind the other, with nothing escaped in either. So the title
of one reference may be written like the end of the target of another (`Reference.TakesTitle`), and
this is the only way in which two references are written alike (`Reference.written_eq_iff`). The
target that takes in the title then has a space before a quotation mark; targets without
that are read back together with their titles (`Reference.eq_of_written_eq`).
-/

import TreeMarkdown.Proofs.Document.Growth
import TreeMarkdown.Rules.CommonMark

namespace TreeMarkdown

open Markdown

namespace Markdown

/-- What a link or an image refers to. -/
structure Reference where
  target : Text
  title : Option Text
deriving DecidableEq

namespace Reference

variable {r s : Reference} {c : Text}

/-- What stands between the parentheses. -/
def written (r : Reference) : Text :=
  r.target ++ titlePart r.title

/-- The target of `r` is that of `s` followed by the title of `s`, or by as much of it as the title
of `r` does not say. -/
inductive TakesTitle (r s : Reference) : Prop where
  | whole {u : Text} (hs : s.title = some u) (hr : r.title = none)
      (htarget : r.target = s.target ++ titlePart (some u))
  | front {u v : Text} (hs : s.title = some (u ++ ' ' :: '"' :: v)) (hr : r.title = some v)
      (htarget : r.target = s.target ++ ' ' :: '"' :: u)

/-- If the target goes on with `c`, the title behind it is what `c` leaves of the other title. -/
theorem eq_or_takesTitle (htarget : r.target = s.target ++ c)
    (htitle : titlePart s.title = c ++ titlePart r.title) : r = s ∨ r.TakesTitle s := by
  obtain ⟨target, title⟩ := r
  obtain ⟨target', title'⟩ := s
  cases title' with
  | none =>
    obtain ⟨rfl, hnone⟩ := List.append_eq_nil_iff.mp htitle.symm
    cases title with
    | none => exact Or.inl (by simpa using htarget)
    | some v => cases hnone
  | some u =>
    cases title with
    | none =>
      obtain rfl : titlePart (some u) = c := htitle.trans (List.append_nil c)
      exact Or.inr (.whole rfl rfl htarget)
    | some v =>
      -- a title is cut before its mark, or somewhere behind it
      match c, htarget, htitle with
      | [], htarget, htitle =>
        have hsame : u = v := by simpa [titlePart] using htitle
        exact Or.inl (by simpa [hsame] using htarget)
      | [_], _, htitle => simp [titlePart] at htitle
      | a :: b :: c, htarget, htitle =>
        have hcut : u ++ ['"'] = (c ++ ' ' :: '"' :: v) ++ ['"'] := by
          simpa [titlePart] using (List.cons.inj (List.cons.inj htitle).2).2
        obtain ⟨rfl, rfl⟩ : a = ' ' ∧ b = '"' :=
          ⟨(List.cons.inj htitle).1.symm, (List.cons.inj (List.cons.inj htitle).2).1.symm⟩
        exact Or.inr (.front (by rw [List.append_cancel_right hcut]) rfl htarget)

theorem TakesTitle.written_eq (h : r.TakesTitle s) : r.written = s.written := by
  cases h with
  | whole hs hr htarget => rw [written, written, hs, hr, htarget, titlePart, List.append_nil]
  | front hs hr htarget => simp [written, hs, hr, htarget, titlePart]

theorem TakesTitle.quote_infix (h : r.TakesTitle s) : [' ', '"'] <:+: r.target := by
  cases h with
  | @whole u _ _ htarget => exact ⟨s.target, u ++ ['"'], by simp [htarget, titlePart]⟩
  | @front u _ _ _ htarget => exact ⟨s.target, u, by simp [htarget]⟩

/-- Two references are written alike only if they are the same or the target of one takes in the
title of the other. -/
theorem written_eq_iff : r.written = s.written ↔ r = s ∨ r.TakesTitle s ∨ s.TakesTitle r := by
  constructor
  · intro h
    rcases List.append_eq_append_iff.mp h with ⟨c, htarget, htitle⟩ | ⟨c, htarget, htitle⟩
    · rcases eq_or_takesTitle htarget htitle with rfl | htakes
      · exact Or.inl rfl
      · exact Or.inr (Or.inr htakes)
    · rcases eq_or_takesTitle htarget htitle with rfl | htakes
      · exact Or.inl rfl
      · exact Or.inr (Or.inl htakes)
  · rintro (rfl | htakes | htakes)
    · rfl
    · exact htakes.written_eq
    · exact htakes.written_eq.symm

/-- References to targets without a space before a quotation mark are read back. -/
theorem eq_of_written_eq (hr : ¬ [' ', '"'] <:+: r.target) (hs : ¬ [' ', '"'] <:+: s.target)
    (h : r.written = s.written) : r = s := by
  rcases written_eq_iff.mp h with rfl | htakes | htakes
  · rfl
  · exact absurd htakes.quote_infix hr
  · exact absurd htakes.quote_infix hs

theorem reference_eq (label : Text) (r : Reference) :
    reference label r.target r.title = ('[' :: label ++ [']', '(']) ++ r.written ++ [')'] := by
  simp [reference, written]

theorem reference_eq_iff {label : Text} :
    reference label r.target r.title = reference label s.target s.title ↔
      r.written = s.written := by
  rw [reference_eq, reference_eq, List.append_left_inj, List.append_right_inj]

end Reference

end Markdown

namespace Document

/-- What the node refers to as a link. -/
def linkReference (d : Document) (i : Nat) : Reference :=
  ⟨cleanAttribute (d.attribute? i "href".toList), d.attribute? i "title".toList⟩

/-- What the node refers to as an image. -/
def imageReference (d : Document) (i : Nat) : Reference :=
  ⟨cleanAttribute (d.attribute? i "src".toList), d.attribute? i "title".toList⟩

/-- What is shown in place of the image. -/
def imageLabel (d : Document) (i : Nat) : Text :=
  cleanAttribute (d.attribute? i "alt".toList)

end Document

namespace CommonMark

variable {d d' : Document} {i i' : Nat}

theorem link_of_target_ne_nil (h : (d.linkReference i).target ≠ []) (content : Text) :
    link d i content =
      .ok (some (reference content (d.linkReference i).target (d.linkReference i).title)) :=
  congrArg Except.ok (if_neg fun hnil => h (List.isEmpty_iff.mp hnil))

theorem image_of_target_ne_nil (h : (d.imageReference i).target ≠ []) (content : Text) :
    image d i content =
      .ok (some ('!' :: reference (d.imageLabel i) (d.imageReference i).target
        (d.imageReference i).title)) :=
  congrArg Except.ok (if_neg fun hnil => h (List.isEmpty_iff.mp hnil))

theorem link_eq_link_iff (h : (d.linkReference i).target ≠ [])
    (h' : (d'.linkReference i').target ≠ []) (content : Text) :
    link d i content = link d' i' content ↔
      (d.linkReference i).written = (d'.linkReference i').written := by
  rw [link_of_target_ne_nil h, link_of_target_ne_nil h', Except.ok.injEq, Option.some.injEq,
    Reference.reference_eq_iff]

theorem image_eq_image_iff (h : (d.imageReference i).target ≠ [])
    (h' : (d'.imageReference i').target ≠ []) (hlabel : d.imageLabel i = d'.imageLabel i')
    (content content' : Text) :
    image d i content = image d' i' content' ↔
      (d.imageReference i).written = (d'.imageReference i').written := by
  rw [image_of_target_ne_nil h, image_of_target_ne_nil h', Except.ok.injEq, Option.some.injEq,
    List.cons.injEq, eq_self, true_and, hlabel, Reference.reference_eq_iff]

/-- Links with the same content are written alike, and so are images with the same label, only if
they have the same target and the same title, or the target of one is that of the other with its
title behind it. So they are told apart if no target has a space before a quotation mark. -/
theorem references_told_apart (d d' : Document) (i i' : Nat) :
    ((d.linkReference i).target ≠ [] → (d'.linkReference i').target ≠ [] → ∀ content,
      (link d i content = link d' i' content ↔
        d.linkReference i = d'.linkReference i' ∨
          (d.linkReference i).TakesTitle (d'.linkReference i') ∨
          (d'.linkReference i').TakesTitle (d.linkReference i)) ∧
      (¬ [' ', '"'] <:+: (d.linkReference i).target →
        ¬ [' ', '"'] <:+: (d'.linkReference i').target →
          link d i content = link d' i' content → d.linkReference i = d'.linkReference i')) ∧
    ((d.imageReference i).target ≠ [] → (d'.imageReference i').target ≠ [] →
      d.imageLabel i = d'.imageLabel i' → ∀ content content',
      (image d i content = image d' i' content' ↔
        d.imageReference i = d'.imageReference i' ∨
          (d.imageReference i).TakesTitle (d'.imageReference i') ∨
          (d'.imageReference i').TakesTitle (d.imageReference i)) ∧
      (¬ [' ', '"'] <:+: (d.imageReference i).target →
        ¬ [' ', '"'] <:+: (d'.imageReference i').target →
          image d i content = image d' i' content' →
            d.imageReference i = d'.imageReference i')) := by
  refine ⟨fun h h' content => ?_, fun h h' hlabel content content' => ?_⟩
  · rw [link_eq_link_iff h h']
    exact ⟨Reference.written_eq_iff, fun hr hs => Reference.eq_of_written_eq hr hs⟩
  · rw [image_eq_image_iff h h' hlabel]
    exact ⟨Reference.written_eq_iff, fun hr hs => Reference.eq_of_written_eq hr hs⟩

/-- Two links and two images; in each pair one has a title that the other lacks. -/
def titledReferences : Document :=
  Document.grown
    [(0, .element "a".toList [("href".toList, "/x".toList), ("title".toList, "Ex".toList)]),
     (0, .element "a".toList [("href".toList, "/x".toList)]),
     (0, .element "img".toList [("src".toList, "a.png".toList), ("title".toList, [])]),
     (0, .element "img".toList [("src".toList, "a.png".toList)])]

theorem references_told_apart_titled :
    (∀ content,
      link titledReferences 1 content ≠ link titledReferences 2 content) ∧
    ∀ content content',
      image titledReferences 3 content ≠ image titledReferences 4 content' := by
  have hlinks := (references_told_apart titledReferences titledReferences 1 2).1
    (by decide +kernel) (by decide +kernel)
  have himages := (references_told_apart titledReferences titledReferences 3 4).2
    (by decide +kernel) (by decide +kernel) (by decide +kernel)
  refine ⟨fun content heq => ?_, fun content content' heq => ?_⟩
  · have hsame := (hlinks content).2 (by decide +kernel) (by decide +kernel) heq
    exact absurd hsame (by decide +kernel)
  · have hsame := (himages content content').2 (by decide +kernel) (by decide +kernel) heq
    exact absurd hsame (by decide +kernel)

/-- Two links and two images; in each pair the target of the one is written like target and
title of the other. -/
def quotedTargets : Document :=
  Document.grown
    [(0, .element "a".toList [("href".toList, "a".toList), ("title".toList, "b".toList)]),
     (0, .element "a".toList [("href".toList, "a \"b\"".toList)]),
     (0, .element "img".toList [("src".toList, "a".toList), ("title".toList, "b".toList)]),
     (0, .element "img".toList [("src".toList, "a \"b\"".toList)])]

theorem references_written_alike :
    (quotedTargets.linkReference 1).target ≠ [] ∧ (quotedTargets.linkReference 2).target ≠ [] ∧
    link quotedTargets 1 "x".toList = link quotedTargets 2 "x".toList ∧
    quotedTargets.linkReference 1 ≠ quotedTargets.linkReference 2 ∧
    (quotedTargets.imageReference 3).target ≠ [] ∧ (quotedTargets.imageReference 4).target ≠ [] ∧
    quotedTargets.imageLabel 3 = quotedTargets.imageLabel 4 ∧
    image quotedTargets 3 [] = image quotedTargets 4 [] ∧
    quotedTargets.imageReference 3 ≠ quotedTargets.imageReference 4 := by
  have hlinks : (quotedTargets.linkReference 1).target ≠ [] ∧
      (quotedTargets.linkReference 2).target ≠ [] := by decide +kernel
  have himages : (quotedTargets.imageReference 3).target ≠ [] ∧
      (quotedTargets.imageReference 4).target ≠ [] ∧
        quotedTargets.imageLabel 3 = quotedTargets.imageLabel 4 := by decide +kernel
  refine ⟨hlinks.1, hlinks.2, ?_, by decide +kernel, himages.1, himages.2.1, himages.2.2, ?_,
    by decide +kernel⟩
  · exact (link_eq_link_iff hlinks.1 hlinks.2 _).mpr (by decide +kernel)
  · exact (image_eq_image_iff himages.1 himages.2.1 himages.2.2 _ _).mpr (by decide +kernel)

end CommonMark

end TreeMarkdown
