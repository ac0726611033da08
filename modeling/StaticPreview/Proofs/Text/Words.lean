import StaticPreview.Text.Blank

/-! # Words of a text

A word is a run of characters none of which is blank, as long as it can be. A text is its words,
with the blanks in front of the first one and the blanks behind each of them.
-/
namespace StaticPreview.Text

structure Spaced where
  lead : List Char
  /-- Each word with the blanks behind it. -/
  words : List (List Char × List Char)
  deriving DecidableEq, Repr

def writtenWords (words : List (List Char × List Char)) : List Char :=
  words.flatMap fun w => w.1 ++ w.2

def Spaced.written (t : Spaced) : List Char :=
  t.lead ++ writtenWords t.words

def IsWord (w : List Char) : Prop :=
  w ≠ [] ∧ ∀ c ∈ w, isBlank c = false

/-- Words with the blanks behind them. Only the last one may have none. -/
inductive WordsApart : List (List Char × List Char) → Prop
  | nil : WordsApart []
  | last {w gap : List Char} (hw : IsWord w) (hgap : AllBlank gap) : WordsApart [(w, gap)]
  | cons {w gap : List Char} {next : List Char × List Char} {more : List (List Char × List Char)}
      (hw : IsWord w) (hgap : AllBlank gap) (hne : gap ≠ []) (hmore : WordsApart (next :: more)) :
      WordsApart ((w, gap) :: next :: more)

structure Spaced.WellFormed (t : Spaced) : Prop where
  lead : AllBlank t.lead
  words : WordsApart t.words

def Spaced.prependChar (c : Char) (t : Spaced) : Spaced :=
  if isBlank c then ⟨c :: t.lead, t.words⟩
  else
    match t.lead, t.words with
    | [], (w, gap) :: more => ⟨[], (c :: w, gap) :: more⟩
    | lead, words => ⟨[], ([c], lead) :: words⟩

def spaced (s : List Char) : Spaced :=
  s.foldr Spaced.prependChar ⟨[], []⟩

@[simp] theorem writtenWords_nil : writtenWords [] = [] := rfl

@[simp] theorem writtenWords_cons (w : List Char × List Char)
    (more : List (List Char × List Char)) :
    writtenWords (w :: more) = w.1 ++ (w.2 ++ writtenWords more) := by
  simp [writtenWords]

theorem spaced_cons (c : Char) (s : List Char) : spaced (c :: s) = (spaced s).prependChar c := rfl

theorem Spaced.written_prependChar (c : Char) (t : Spaced) :
    (t.prependChar c).written = c :: t.written := by
  obtain ⟨lead, words⟩ := t
  unfold Spaced.prependChar
  split
  · rfl
  · split <;> simp_all [Spaced.written]

theorem isWord_singleton {c : Char} (hc : isBlank c = false) : IsWord [c] :=
  ⟨List.cons_ne_nil c [], by simpa using hc⟩

theorem IsWord.cons {c : Char} {w : List Char} (hc : isBlank c = false) (h : IsWord w) :
    IsWord (c :: w) :=
  ⟨List.cons_ne_nil c w, List.forall_mem_cons.mpr ⟨hc, h.2⟩⟩

theorem exists_concat_of_isWord {w : List Char} (hw : IsWord w) :
    ∃ x c, isBlank c = false ∧ w = x ++ [c] := by
  obtain ⟨hne, hw⟩ := hw
  obtain ⟨x, c, rfl⟩ := (List.eq_nil_or_concat w).resolve_left hne
  rw [List.concat_eq_append] at hw ⊢
  exact ⟨x, c, hw c (by simp), rfl⟩

theorem WordsApart.prependChar {c : Char} (hc : isBlank c = false) {w gap : List Char}
    {more : List (List Char × List Char)} (h : WordsApart ((w, gap) :: more)) :
    WordsApart ((c :: w, gap) :: more) := by
  cases h with
  | last hw hgap => exact .last (hw.cons hc) hgap
  | cons hw hgap hne hmore => exact .cons (hw.cons hc) hgap hne hmore

theorem Spaced.WellFormed.prependChar {t : Spaced} (h : t.WellFormed) (c : Char) :
    (t.prependChar c).WellFormed := by
  obtain ⟨lead, words⟩ := t
  obtain ⟨hlead, hwords⟩ := h
  dsimp only at hlead hwords
  by_cases hc : isBlank c
  · rw [Spaced.prependChar, if_pos hc]
    exact ⟨List.forall_mem_cons.mpr ⟨hc, hlead⟩, hwords⟩
  · have hword := Bool.eq_false_iff.mpr hc
    rw [Spaced.prependChar, if_neg hc]
    cases words with
    | nil =>
      have happart := WordsApart.last (isWord_singleton hword) hlead
      cases lead <;> exact ⟨nofun, happart⟩
    | cons next more =>
      cases lead with
      | nil => exact ⟨nofun, hwords.prependChar hword⟩
      | cons d lead =>
        exact ⟨nofun, .cons (isWord_singleton hword) hlead (List.cons_ne_nil d lead) hwords⟩

theorem written_spaced (s : List Char) : (spaced s).written = s := by
  induction s with
  | nil => rfl
  | cons c s ih => rw [spaced_cons, Spaced.written_prependChar, ih]

theorem wellFormed_spaced (s : List Char) : (spaced s).WellFormed := by
  induction s with
  | nil => exact ⟨nofun, .nil⟩
  | cons c s ih => exact ih.prependChar c

theorem spaced_blanks_append {gap : List Char} (hgap : AllBlank gap) (s : List Char) :
    spaced (gap ++ s) = ⟨gap ++ (spaced s).lead, (spaced s).words⟩ := by
  induction gap with
  | nil => rfl
  | cons c gap ih =>
    obtain ⟨hc, hgap⟩ := List.forall_mem_cons.mp hgap
    rw [List.cons_append, spaced_cons, ih hgap, Spaced.prependChar, if_pos hc]
    rfl

theorem spaced_word_append {w : List Char} (hw : IsWord w) {s lead : List Char}
    {words : List (List Char × List Char)} (hs : spaced s = ⟨lead, words⟩)
    (hlead : lead = [] → words = []) : spaced (w ++ s) = ⟨[], (w, lead) :: words⟩ := by
  obtain ⟨hne, hw⟩ := hw
  induction w with
  | nil => exact absurd rfl hne
  | cons c w ih =>
    obtain ⟨hc, hw⟩ := List.forall_mem_cons.mp hw
    have hc : ¬isBlank c = true := Bool.eq_false_iff.mp hc
    rw [List.cons_append, spaced_cons, Spaced.prependChar, if_neg hc]
    cases w with
    | nil =>
      rw [List.nil_append, hs]
      cases lead with
      | nil => rw [hlead rfl]
      | cons d lead => rfl
    | cons d w => rw [ih (List.cons_ne_nil d w) hw]

theorem WordsApart.spaced_written {words : List (List Char × List Char)} (h : WordsApart words) :
    spaced (writtenWords words) = ⟨[], words⟩ := by
  induction h with
  | nil => rfl
  | @last w gap hw hgap =>
    rw [writtenWords_cons]
    apply spaced_word_append hw
    · rw [spaced_blanks_append hgap]
      simp [spaced]
    · intro _
      rfl
  | @cons w gap next more hw hgap hne hmore ih =>
    rw [writtenWords_cons]
    apply spaced_word_append hw
    · rw [spaced_blanks_append hgap, ih, List.append_nil]
    · intro hnil
      exact absurd hnil hne

theorem Spaced.WellFormed.spaced_written {t : Spaced} (h : t.WellFormed) :
    spaced t.written = t := by
  rw [Spaced.written, spaced_blanks_append h.lead, h.words.spaced_written, List.append_nil]

theorem spaced_eq_iff {s : List Char} {t : Spaced} :
    spaced s = t ↔ t.WellFormed ∧ t.written = s := by
  constructor
  · rintro rfl
    exact ⟨wellFormed_spaced s, written_spaced s⟩
  · rintro ⟨ht, rfl⟩
    exact ht.spaced_written

theorem words_spaced_eq_nil_iff {s : List Char} : (spaced s).words = [] ↔ AllBlank s := by
  constructor
  · intro h
    have hwritten := written_spaced s
    rw [Spaced.written, h, writtenWords_nil, List.append_nil] at hwritten
    rw [← hwritten]
    exact (wellFormed_spaced s).lead
  · intro h
    have hspaced := spaced_blanks_append h []
    rw [List.append_nil] at hspaced
    rw [hspaced]
    rfl

end StaticPreview.Text
