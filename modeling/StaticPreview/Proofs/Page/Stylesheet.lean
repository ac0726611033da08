import StaticPreview.Page.Document
import StaticPreview.Proofs.Text.Characters

/-! # The stylesheet of a document

No end tag of a style element begins in a neutralized stylesheet, not even one that goes on behind
it: the element that holds the stylesheet ends where the document closes it.
-/
namespace StaticPreview.Page

def ClosesNoStyle (s : List Char) : Prop :=
  ∀ rest, rest <:+ s → startsWith styleEnd rest = false

theorem ClosesNoStyle.cons {c : Char} {s : List Char} (hs : ClosesNoStyle s)
    (hc : startsWith styleEnd (c :: s) = false) : ClosesNoStyle (c :: s) := by
  intro rest hrest
  rcases List.suffix_cons_iff.mp hrest with rfl | hrest
  · exact hc
  · exact hs rest hrest

theorem startsWith_styleEnd_cons (c : Char) (s : List Char) :
    startsWith styleEnd (c :: s) = ('<' == c.toLower && startsWith "/style".toList s) := rfl

/-- What is put in front of an end tag cannot be one, and nothing else is put there. -/
theorem startsWith_of_neutralize {lead s : List Char} (hlead : ∀ m ∈ lead, m ≠ '<')
    (h : startsWith lead (neutralize s) = true) : startsWith lead s = true := by
  induction lead generalizing s with
  | nil => rfl
  | cons m lead ih =>
    obtain ⟨hm, hlead⟩ := List.forall_mem_cons.mp hlead
    cases s with
    | nil => simp [neutralize, startsWith] at h
    | cons c r =>
      rw [neutralize] at h
      split at h
      · have hmark : m = '<'.toLower := beq_iff_eq.mp (Bool.and_eq_true_iff.mp h).1
        exact absurd (hmark.trans (by decide)) hm
      · obtain ⟨hfirst, hrest⟩ := Bool.and_eq_true_iff.mp h
        rw [startsWith, hfirst, ih hlead hrest]
        rfl

theorem closesNoStyle_neutralize (s : List Char) : ClosesNoStyle (neutralize s) := by
  fun_induction neutralize s with
  | case1 =>
    intro rest hrest
    obtain rfl := List.suffix_nil.mp hrest
    rfl
  | case2 c r _ ih =>
    have hplain {d : Char} {t : List Char} (hd : ('<' == d.toLower) = false)
        (ht : ClosesNoStyle t) : ClosesNoStyle (d :: t) :=
      ht.cons (by rw [startsWith_styleEnd_cons, hd, Bool.false_and])
    have hname := hplain (d := '/') rfl <| hplain (d := 's') rfl <| hplain (d := 't') rfl <|
      hplain (d := 'y') rfl <| hplain (d := 'l') rfl <| hplain (d := 'e') rfl ih
    exact (hplain (d := '\\') rfl hname).cons rfl
  | case3 c r hstart ih =>
    refine ih.cons ?_
    rw [startsWith_styleEnd_cons, Bool.and_eq_true_iff] at hstart
    rw [startsWith_styleEnd_cons, ← Bool.not_eq_true, Bool.and_eq_true_iff]
    rintro ⟨hc, hrest⟩
    exact hstart ⟨hc, startsWith_of_neutralize (by decide) hrest⟩

/-- An end tag does not begin where another one follows too soon. -/
theorem startsWith_append_mark {lead rest t : List Char} (hlead : ∀ m ∈ lead, m ≠ '<')
    (h : startsWith lead (rest ++ '<' :: t) = true) : startsWith lead rest = true := by
  induction lead generalizing rest with
  | nil => rfl
  | cons m lead ih =>
    obtain ⟨hm, hlead⟩ := List.forall_mem_cons.mp hlead
    cases rest with
    | nil =>
      have hmark : m = '<'.toLower := beq_iff_eq.mp (Bool.and_eq_true_iff.mp h).1
      exact absurd (hmark.trans (by decide)) hm
    | cons c r =>
      obtain ⟨hfirst, hrest⟩ := Bool.and_eq_true_iff.mp h
      rw [startsWith, hfirst, ih hlead hrest]
      rfl

/-- The element that holds a stylesheet ends behind all of it. -/
theorem startsWith_styleEnd_neutralize {sheet lead rest : List Char}
    (h : neutralize sheet = lead ++ rest) (hne : rest ≠ []) (t : List Char) :
    startsWith styleEnd (rest ++ '<' :: t) = false := by
  have hrest := closesNoStyle_neutralize sheet rest ⟨lead, h.symm⟩
  obtain ⟨c, r, rfl⟩ := List.exists_cons_of_ne_nil hne
  rw [List.cons_append, startsWith_styleEnd_cons]
  rw [startsWith_styleEnd_cons] at hrest
  rw [← Bool.not_eq_true, Bool.and_eq_true_iff] at hrest ⊢
  rintro ⟨hc, hmore⟩
  exact hrest ⟨hc, startsWith_append_mark (by decide) hmore⟩

end StaticPreview.Page
