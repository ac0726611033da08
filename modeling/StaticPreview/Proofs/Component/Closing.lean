import StaticPreview.Component.Closing
import StaticPreview.Proofs.Text.Characters

/-! # The grammar of closings

A closing is the brace of a component with a separator on each side, and perhaps a default export.
A separator has one semicolon at most. Since no blank is a word character and no separator begins
with anything else than a blank or a semicolon, each part ends where the next one begins.
-/
namespace StaticPreview.Component
open Text

inductive Separator : List Char → Prop
  | blank {gap : List Char} (h : AllBlank gap) : Separator gap
  | semicolon {gap gap' : List Char} (h : AllBlank gap) (h' : AllBlank gap') :
      Separator (gap ++ ';' :: gap')

inductive DefaultExport : List Char → Prop
  | intro {gap gap' name sep : List Char} {c : Char} (hne : gap ≠ []) (hgap : AllBlank gap)
      (hne' : gap' ≠ []) (hgap' : AllBlank gap') (hc : isIdentifierStart c)
      (hname : ∀ d ∈ name, isIdentifierChar d) (hsep : Separator sep) :
      DefaultExport ("export".toList ++ (gap ++ ("default".toList ++ (gap' ++ c :: (name ++ sep)))))

inductive Closing : List Char → Prop
  | brace {sep sep' : List Char} (h : Separator sep) (h' : Separator sep') :
      Closing (sep ++ '\x7d' :: sep')
  | exported {sep sep' e : List Char} (h : Separator sep) (h' : Separator sep')
      (he : DefaultExport e) : Closing (sep ++ '\x7d' :: (sep' ++ e))

theorem isWord_of_isIdentifierStart {c : Char} (h : isIdentifierStart c) :
    isWord c ∨ c = '$' := by
  simp only [isIdentifierStart, Bool.or_eq_true, beq_iff_eq] at h
  rcases h with (h | rfl) | rfl
  · exact .inl (isWord_of_isAlpha h)
  · exact .inl (by decide)
  · exact .inr rfl

def StopsSeparator (s : List Char) : Prop :=
  ∀ c ∈ s.head?, isBlank c = false ∧ c ≠ ';'

theorem skipSemicolon_append {sep s : List Char} (h : Separator sep) (hs : StopsSeparator s) :
    skipSemicolon (sep ++ s) = s := by
  have hskip : skipBlank s = s := skipBlank_of_head fun c hc => (hs c hc).1
  cases h with
  | blank h =>
    rw [skipSemicolon, skipBlank_append h, hskip]
    split
    next r => exact absurd rfl (hs ';' rfl).2
    next => rfl
  | @semicolon gap gap' h h' =>
    have hmark : skipBlank (';' :: (gap' ++ s)) = ';' :: (gap' ++ s) :=
      skipBlank_of_head (by simp [isBlank])
    rw [List.append_assoc, List.cons_append, skipSemicolon, skipBlank_append h, hmark]
    change skipBlank (gap' ++ s) = s
    rw [skipBlank_append h', hskip]

theorem exists_separator (s : List Char) : ∃ sep, Separator sep ∧ s = sep ++ skipSemicolon s := by
  obtain ⟨gap, hgap, hs⟩ := exists_gap s
  rw [skipSemicolon]
  split
  next r hr =>
    obtain ⟨gap', hgap', hr'⟩ := exists_gap r
    refine ⟨gap ++ ';' :: gap', .semicolon hgap hgap', ?_⟩
    rw [List.append_assoc, List.cons_append, ← hr', ← hr]
    exact hs
  next => exact ⟨gap, .blank hgap, hs⟩

theorem Separator.isBlank_or_eq {sep : List Char} (h : Separator sep) :
    ∀ c ∈ sep, isBlank c ∨ c = ';' := by
  intro c hc
  cases h with
  | blank h => exact .inl (h c hc)
  | semicolon h h' =>
    rcases List.mem_append.mp hc with hc | hc
    · exact .inl (h c hc)
    · rcases List.mem_cons.mp hc with rfl | hc
      · exact .inr rfl
      · exact .inl (h' c hc)

theorem Separator.not_isIdentifierChar {sep : List Char} (h : Separator sep) :
    ∀ c ∈ sep, isIdentifierChar c = false := by
  intro c hc
  rcases h.isBlank_or_eq c hc with hc | rfl
  · have hne : c ≠ '$' := by
      rintro rfl
      exact absurd hc (by decide)
    simp [isIdentifierChar, not_isWord_of_isBlank hc, hne]
  · decide

theorem afterWord?_append (lead : List Char) {gap s : List Char} (hne : gap ≠ [])
    (hgap : AllBlank gap) (hs : ∀ c ∈ s.head?, isBlank c = false) :
    afterWord? lead (lead ++ (gap ++ s)) = some s := by
  obtain ⟨c, r, rfl⟩ := List.exists_cons_of_ne_nil hne
  have hafter : after? lead (lead ++ (c :: r ++ s)) = some (c :: (r ++ s)) :=
    after?_eq_some_iff.mpr rfl
  have hr : AllBlank r := fun d hd => hgap d (List.mem_cons_of_mem c hd)
  have hc : isBlank c := hgap c List.mem_cons_self
  rw [afterWord?, hafter]
  simp [hc, skipBlank_append hr, skipBlank_of_head hs]

theorem exists_gap_of_afterWord? {lead s r : List Char} (h : afterWord? lead s = some r) :
    ∃ gap, gap ≠ [] ∧ AllBlank gap ∧ s = lead ++ (gap ++ r) := by
  rw [afterWord?] at h
  split at h
  next c t hafter =>
    obtain ⟨hc, ht⟩ := Option.ite_none_right_eq_some.mp h
    obtain ⟨gap, hgap, hgap'⟩ := exists_gap t
    rw [Option.some.inj ht] at hgap'
    have hblank : AllBlank (c :: gap) := List.forall_mem_cons.mpr ⟨hc, hgap⟩
    refine ⟨c :: gap, by simp, hblank, ?_⟩
    rw [← after?_eq_some_iff.mp hafter, hgap', List.cons_append]
  next => simp at h

theorem isExport_iff {s : List Char} : isExport s ↔ DefaultExport s := by
  constructor
  · intro h
    rw [isExport] at h
    split at h
    next c r hr =>
      obtain ⟨t, ht, hcr⟩ := Option.bind_eq_some_iff.mp hr
      obtain ⟨gap, hne, hgap, rfl⟩ := exists_gap_of_afterWord? ht
      obtain ⟨gap', hne', hgap', rfl⟩ := exists_gap_of_afterWord? hcr
      obtain ⟨hc, hend⟩ := Bool.and_eq_true_iff.mp h
      obtain ⟨sep, hsep, hsplit⟩ := exists_separator (r.dropWhile isIdentifierChar)
      rw [List.isEmpty_iff.mp hend, List.append_nil] at hsplit
      have hname := List.all_eq_true.mp (List.all_takeWhile (p := isIdentifierChar) (l := r))
      rw [← r.takeWhile_append_dropWhile (p := isIdentifierChar), hsplit]
      exact .intro hne hgap hne' hgap' hc hname hsep
    next => simp at h
  · rintro @⟨gap, gap', name, sep, c, hne, hgap, hne', hgap', hc, hname, hsep⟩
    have hstart : isBlank c = false := by
      rcases isWord_of_isIdentifierStart hc with h | rfl
      · exact not_isBlank_of_isWord h
      · decide
    have hfirst := afterWord?_append "export".toList
      (s := "default".toList ++ (gap' ++ c :: (name ++ sep))) hne hgap (by simp [isBlank])
    have hsecond := afterWord?_append "default".toList (s := c :: (name ++ sep)) hne' hgap'
      (by simpa using hstart)
    have hrest : (name ++ sep).dropWhile isIdentifierChar = sep := by
      rw [List.dropWhile_append_of_pos hname]
      cases sep with
      | nil => rfl
      | cons d t => simp [hsep.not_isIdentifierChar d List.mem_cons_self]
    have hnil := skipSemicolon_append (s := []) hsep (by simp [StopsSeparator])
    rw [List.append_nil] at hnil
    rw [isExport, hfirst, Option.bind_eq_bind, Option.bind_some, hsecond]
    simp [hc, hrest, hnil]

theorem DefaultExport.stopsSeparator {e : List Char} (h : DefaultExport e) : StopsSeparator e := by
  cases h
  simp [StopsSeparator, isBlank]

theorem isClosing_iff {s : List Char} : isClosing s ↔ Closing s := by
  constructor
  · intro h
    rw [isClosing] at h
    split at h
    next r hr =>
      obtain ⟨sep, hsep, hs⟩ := exists_separator s
      obtain ⟨sep', hsep', hr'⟩ := exists_separator r
      rw [hs, hr]
      rcases Bool.or_eq_true_iff.mp h with h | h
      · rw [hr', List.isEmpty_iff.mp h, List.append_nil]
        exact .brace hsep hsep'
      · rw [hr']
        exact .exported hsep hsep' (isExport_iff.mp h)
    next => simp at h
  · have hbrace (r : List Char) : StopsSeparator ('\x7d' :: r) := by simp [StopsSeparator, isBlank]
    intro h
    cases h with
    | @brace sep sep' h h' =>
      have hnil := skipSemicolon_append (s := []) h' (by simp [StopsSeparator])
      rw [List.append_nil] at hnil
      rw [isClosing, skipSemicolon_append h (hbrace sep')]
      simp [hnil]
    | @exported sep sep' e h h' he =>
      rw [isClosing, skipSemicolon_append h (hbrace (sep' ++ e))]
      simp [skipSemicolon_append h' he.stopsSeparator, isExport_iff.mpr he]

def isTailChar (c : Char) : Bool :=
  isBlank c || c == ';' || isIdentifierChar c

theorem Separator.isTailChar {sep : List Char} (h : Separator sep) :
    ∀ c ∈ sep, isTailChar c := by
  intro c hc
  rcases h.isBlank_or_eq c hc with hc | rfl
  · simp [Component.isTailChar, hc]
  · decide

theorem DefaultExport.isTailChar {e : List Char} (h : DefaultExport e) :
    ∀ c ∈ e, isTailChar c := by
  obtain @⟨gap, gap', name, sep, d, -, hgap, -, hgap', hd, hname, hsep⟩ := h
  have hblank {c : Char} (hc : isBlank c) : Component.isTailChar c := by
    simp [Component.isTailChar, hc]
  have hchar {c : Char} (hc : isIdentifierChar c) : Component.isTailChar c := by
    simp [Component.isTailChar, hc]
  have hstart : isIdentifierChar d := by
    rcases isWord_of_isIdentifierStart hd with h | rfl
    · simp [isIdentifierChar, h]
    · decide
  have hexport : ∀ c ∈ "export".toList, isIdentifierChar c := by decide
  have hdefault : ∀ c ∈ "default".toList, isIdentifierChar c := by decide
  intro c hc
  simp only [List.mem_append, List.mem_cons] at hc
  rcases hc with hc | hc | hc | hc | rfl | hc | hc
  · exact hchar (hexport c hc)
  · exact hblank (hgap c hc)
  · exact hchar (hdefault c hc)
  · exact hblank (hgap' c hc)
  · exact hchar hstart
  · exact hchar (hname c hc)
  · exact hsep.isTailChar c hc

theorem Closing.exists_brace {s : List Char} (h : Closing s) :
    ∃ sep tail, Separator sep ∧ s = sep ++ '\x7d' :: tail ∧ ∀ c ∈ tail, isTailChar c := by
  cases h with
  | brace h h' => exact ⟨_, _, h, rfl, h'.isTailChar⟩
  | exported h h' he =>
    refine ⟨_, _, h, rfl, fun c hc => ?_⟩
    rcases List.mem_append.mp hc with hc | hc
    · exact h'.isTailChar c hc
    · exact he.isTailChar c hc

theorem Closing.not_mem {s : List Char} (h : Closing s) {c : Char} (hc : isTailChar c = false)
    (hne : c ≠ '\x7d') : c ∉ s := by
  obtain ⟨sep, tail, hsep, rfl, htail⟩ := h.exists_brace
  intro hmem
  rcases List.mem_append.mp hmem with hmem | hmem
  · simp [hsep.isTailChar c hmem] at hc
  · rcases List.mem_cons.mp hmem with rfl | hmem
    · exact hne rfl
    · simp [htail c hmem] at hc

theorem Closing.separator_of_concat {s : List Char} (h : Closing (s ++ ['\x7d'])) :
    Separator s := by
  obtain ⟨sep, tail, hsep, hs, htail⟩ := h.exists_brace
  have hbrace : '\x7d' ∉ tail := fun hmem => absurd (htail _ hmem) (by decide)
  obtain ⟨rfl, -⟩ := append_cons_inj_of_last (by simp) hbrace hs
  exact hsep

theorem closing_append_iff {s : List Char} : Closing (s ++ "; \x7d".toList) ↔ AllBlank s := by
  constructor
  · intro h
    have hs : Separator (s ++ ';' :: [' ']) := Closing.separator_of_concat (by simpa using h)
    generalize ht : s ++ ';' :: [' '] = t at hs
    cases hs with
    | blank hblank => exact absurd (hblank ';' (by simp [← ht])) (by decide)
    | @semicolon gap gap' hgap hgap' =>
      have hmark : ';' ∉ gap' := fun hmem => absurd (hgap' _ hmem) (by decide)
      obtain ⟨rfl, -⟩ := append_cons_inj_of_last (by simp) hmark ht
      exact hgap
  · intro h
    have hsep : Separator (s ++ ';' :: [' ']) := .semicolon h (by simp [AllBlank, isBlank])
    have hclosing := Closing.brace hsep (.blank (List.forall_mem_nil _))
    simpa using hclosing

end StaticPreview.Component
