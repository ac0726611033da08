import StaticPreview.Proofs.Place.TextRun
import StaticPreview.Proofs.Text.Lines
import StaticPreview.Proofs.Text.Words

/-! # What collapsing leaves of blanks

A text run is taken apart line by line. What stands behind a line break does not depend on what
stands before it, so blanks may be taken away from a run, or put to it, at either end.
-/
namespace StaticPreview.Markup
open Text

def besideLine (a b : List Char) : List Char :=
  if a = [] then b else if b = [] then a else a ++ ' ' :: b

/-- What is left of a text that stands behind a line break. -/
def following (s : List Char) : List Char :=
  [' '].intercalate ((trimFollowing (lines s)).filter (!·.isEmpty))

theorem nil_besideLine (b : List Char) : besideLine [] b = b :=
  if_pos rfl

theorem besideLine_nil (a : List Char) : besideLine a [] = a := by
  unfold besideLine
  split
  · next ha => exact ha.symm
  · exact if_pos rfl

theorem besideLine_of_ne_nil {a b : List Char} (ha : a ≠ []) (hb : b ≠ []) :
    besideLine a b = a ++ ' ' :: b := by
  rw [besideLine, if_neg ha, if_neg hb]

theorem append_besideLine {a : List Char} (ha : a ≠ []) (p b : List Char) :
    besideLine (p ++ a) b = p ++ besideLine a b := by
  have hne : p ++ a ≠ [] := List.append_ne_nil_of_right_ne_nil p ha
  unfold besideLine
  rw [if_neg ha, if_neg hne]
  split
  · rfl
  · exact List.append_assoc p a _

theorem besideLine_append {b : List Char} (hb : b ≠ []) (a t : List Char) :
    besideLine a (b ++ t) = besideLine a b ++ t := by
  have hne : b ++ t ≠ [] := List.append_ne_nil_of_left_ne_nil hb t
  unfold besideLine
  rw [if_neg hb, if_neg hne]
  split
  · rfl
  · simp

theorem exists_besideLine_eq_cons (c : Char) (a b : List Char) :
    ∃ r, besideLine (c :: a) b = c :: r := by
  unfold besideLine
  rw [if_neg (List.cons_ne_nil c a)]
  split
  · exact ⟨a, rfl⟩
  · exact ⟨a ++ ' ' :: b, rfl⟩

theorem intercalate_filter_cons (line : List Char) (more : List (List Char)) :
    [' '].intercalate ((line :: more).filter (!·.isEmpty)) =
      besideLine line ([' '].intercalate (more.filter (!·.isEmpty))) := by
  cases line with
  | nil => rw [nil_besideLine]; rfl
  | cons c line =>
    have hfilter : ((c :: line) :: more).filter (!·.isEmpty) =
        (c :: line) :: more.filter (!·.isEmpty) := rfl
    rw [hfilter]
    cases hmore : more.filter (!·.isEmpty) with
    | nil => simp [besideLine_nil]
    | cons next rest =>
      have hnext : next ∈ more.filter (!·.isEmpty) := by simp [hmore]
      have hne : [' '].intercalate (next :: rest) ≠ [] := by
        have hfull : next ≠ [] := by simpa using (List.mem_filter.mp hnext).2
        cases rest <;> simp [List.intercalate_cons_cons, hfull]
      rw [besideLine_of_ne_nil (List.cons_ne_nil c line) hne, List.intercalate_cons_cons]
      simp

theorem collapse_of_not_mem {s : List Char} (h : '\n' ∉ s) : collapse s = dropReturn s := by
  have hline : collapse s = [' '].intercalate ([dropReturn s].filter (!·.isEmpty)) := by
    rw [collapse, lines_of_not_mem h]
    rfl
  rw [hline, intercalate_filter_cons]
  exact besideLine_nil (dropReturn s)

theorem following_of_not_mem {s : List Char} (h : '\n' ∉ s) :
    following s = trimStart (dropReturn s) := by
  have hline : following s =
      [' '].intercalate ([trimStart (dropReturn s)].filter (!·.isEmpty)) := by
    rw [following, lines_of_not_mem h]
    rfl
  rw [hline, intercalate_filter_cons]
  exact besideLine_nil (trimStart (dropReturn s))

theorem collapse_append_cons {l : List Char} (h : '\n' ∉ l) (z : List Char) :
    collapse (l ++ '\n' :: z) = besideLine (trimEnd l) (following z) := by
  rw [collapse, lines_append_cons h, Place.trimLines_cons (lines_ne_nil z),
    intercalate_filter_cons, trimEnd_dropReturn, following]

theorem following_append_cons {l : List Char} (h : '\n' ∉ l) (z : List Char) :
    following (l ++ '\n' :: z) = besideLine (trim l) (following z) := by
  have hlines : trimFollowing (dropReturn l :: lines z) =
      trim (dropReturn l) :: trimFollowing (lines z) := by
    rw [trimFollowing]
    exact lines_ne_nil z
  rw [following, lines_append_cons h, hlines, intercalate_filter_cons, trim_dropReturn, following]

def keptLead (gap : List Char) : List Char :=
  if '\n' ∈ gap then [] else gap

def keptTail (gap : List Char) : List Char :=
  if '\n' ∈ gap then [] else dropReturn gap

theorem exists_collapse_eq_cons {c : Char} (hc : isBlank c = false) (y : List Char) :
    ∃ y', collapse (c :: y) = c :: y' := by
  rcases newline_cases hc y with hbreak | ⟨l, z, hl, hy⟩
  · rw [collapse_of_not_mem hbreak]
    exact exists_dropReturn_eq_cons hc y
  · rw [hy, collapse_append_cons hl, ← List.nil_append (c :: l), trimEnd_append_cons hc]
    exact exists_besideLine_eq_cons c (trimEnd l) (following z)

theorem newline_not_mem_of_isWord {w : List Char} (hw : IsWord w) : '\n' ∉ w := by
  intro hmem
  exact ne_newline_of_not_isBlank (hw.2 _ hmem) rfl

theorem collapse_append_of_not_mem {p : List Char} (hp : '\n' ∉ p) {c : Char}
    (hc : isBlank c = false) (y : List Char) :
    collapse (p ++ c :: y) = p ++ collapse (c :: y) := by
  rcases newline_cases hc y with hbreak | ⟨l, z, hl, hy⟩
  · have hwhole : '\n' ∉ p ++ c :: y := by simp_all
    rw [collapse_of_not_mem hbreak, collapse_of_not_mem hwhole,
      dropReturn_append (List.cons_ne_nil c y)]
  · have hwhole : '\n' ∉ p ++ c :: l := by simp_all
    have hstart := trimEnd_append_cons hc [] l
    rw [List.nil_append, List.nil_append] at hstart
    rw [hy, ← List.append_assoc, collapse_append_cons hwhole, collapse_append_cons hl,
      trimEnd_append_cons hc, hstart]
    exact append_besideLine (List.cons_ne_nil c (trimEnd l)) p (following z)

/-- Nothing is left of a blank behind a line break. -/
theorem following_cons_of_isBlank {c : Char} (hc : isBlank c) (s : List Char) :
    following (c :: s) = following s := by
  have hblank : AllBlank [c] := List.forall_mem_cons.mpr ⟨hc, nofun⟩
  have hdrop (t : List Char) : trimStart (c :: t) = trimStart t := skipBlank_append hblank t
  by_cases hline : c = '\n'
  · subst hline
    rw [← List.nil_append ('\n' :: s), following_append_cons List.not_mem_nil]
    exact nil_besideLine (following s)
  by_cases hbreak : '\n' ∈ s
  · obtain ⟨l, z, rfl, hl⟩ := List.eq_append_cons_of_mem hbreak
    have hwhole : '\n' ∉ c :: l := List.not_mem_cons_of_ne_of_not_mem (Ne.symm hline) hl
    rw [← List.cons_append, following_append_cons hwhole, following_append_cons hl, trim, hdrop,
      ← trim]
  · have hwhole : '\n' ∉ c :: s := List.not_mem_cons_of_ne_of_not_mem (Ne.symm hline) hbreak
    rw [following_of_not_mem hwhole, following_of_not_mem hbreak]
    cases s with
    | nil =>
      apply trimStart_eq_nil_iff.mpr
      intro d hd
      exact hblank d ((isPrefix_dropReturn [c]).mem hd)
    | cons d s =>
      rw [← hdrop (dropReturn (d :: s))]
      exact congrArg trimStart (dropReturn_append (List.cons_ne_nil d s) [c])

theorem following_blanks_append {gap : List Char} (hgap : AllBlank gap) (s : List Char) :
    following (gap ++ s) = following s := by
  induction gap with
  | nil => rfl
  | cons c gap ih =>
    obtain ⟨hc, hgap⟩ := List.forall_mem_cons.mp hgap
    rw [List.cons_append, following_cons_of_isBlank hc, ih hgap]

theorem following_of_blank {gap : List Char} (hgap : AllBlank gap) : following gap = [] := by
  have hnil := following_blanks_append hgap []
  rwa [List.append_nil] at hnil

/-- What is left of a text behind a line break is what is left of it without the blanks at its
start. -/
theorem following_eq_collapse (s : List Char) : following s = collapse (skipBlank s) := by
  rcases skipBlank_cases s with ⟨hs, hrest⟩ | ⟨gap, c, y, hgap, hc, rfl, hrest⟩
  · rw [following_of_blank hs, hrest]
    rfl
  have hnone : AllBlank [] := nofun
  have hstart (t : List Char) : trimStart (c :: t) = c :: t :=
    skipBlank_append_cons hnone hc t
  rw [following_blanks_append hgap, hrest]
  rcases newline_cases hc y with hbreak | ⟨l, z, hl, hy⟩
  · obtain ⟨y', hy'⟩ := exists_dropReturn_eq_cons hc y
    rw [following_of_not_mem hbreak, collapse_of_not_mem hbreak, hy', hstart]
  · rw [hy, following_append_cons hl, collapse_append_cons hl, trim, hstart]

theorem collapse_blanks_append {gap : List Char} (hgap : AllBlank gap) {c : Char}
    (hc : isBlank c = false) (y : List Char) :
    collapse (gap ++ c :: y) = keptLead gap ++ collapse (c :: y) := by
  unfold keptLead
  split
  next hmem =>
    obtain ⟨first, more, rfl, hfirst⟩ := List.eq_append_cons_of_mem hmem
    obtain ⟨hblank, hmore⟩ := List.forall_mem_append.mp hgap
    rw [List.append_assoc, List.cons_append, collapse_append_cons hfirst,
      trimEnd_eq_nil_iff.mpr hblank, nil_besideLine,
      following_eq_collapse, skipBlank_append_cons (List.forall_mem_cons.mp hmore).2 hc]
    rfl
  next hmem => exact collapse_append_of_not_mem hmem hc y

/-- Behind a word a gap with a line break is a space, and any other gap stays. -/
theorem collapse_word_append {w gap : List Char} (hw : IsWord w) (hgap : AllBlank gap) {c : Char}
    (hc : isBlank c = false) (y : List Char) :
    collapse (w ++ (gap ++ c :: y)) =
      w ++ ((if '\n' ∈ gap then [' '] else gap) ++ collapse (c :: y)) := by
  have hbreak : '\n' ∉ w := newline_not_mem_of_isWord hw
  split
  next hmem =>
    obtain ⟨first, more, rfl, hfirst⟩ := List.eq_append_cons_of_mem hmem
    obtain ⟨hblank, hmore⟩ := List.forall_mem_append.mp hgap
    have hline : '\n' ∉ w ++ first := by simp_all
    have hend : trimEnd w = w := by
      obtain ⟨x, d, hd, rfl⟩ := exists_concat_of_isWord hw
      exact trimEnd_concat hd x
    obtain ⟨y', hy'⟩ := exists_collapse_eq_cons hc y
    have hassoc : w ++ (first ++ '\n' :: more ++ c :: y) =
        w ++ first ++ '\n' :: (more ++ c :: y) := by simp
    rw [hassoc, collapse_append_cons hline, trimEnd_append_of_blank hblank, hend,
      following_eq_collapse, skipBlank_append_cons (List.forall_mem_cons.mp hmore).2 hc,
      besideLine_of_ne_nil hw.1 (by simp [hy'])]
    rfl
  next hmem =>
    have hlead : '\n' ∉ w ++ gap := by simp_all
    rw [← List.append_assoc, collapse_append_of_not_mem hlead hc, List.append_assoc]

/-- Blanks behind a text that ends in none do not change what is left of it. -/
theorem collapse_append_blanks {gap : List Char} (hgap : AllBlank gap) {c : Char}
    (hc : isBlank c = false) (x : List Char) :
    collapse (x ++ c :: gap) = collapse (x ++ [c]) ++ keptTail gap := by
  by_cases hmem : '\n' ∈ x
  · obtain ⟨l, z, rfl, hl⟩ := List.eq_append_cons_of_mem hmem
    have hrest := collapse_append_blanks hgap hc (skipBlank z)
    have hne : collapse (skipBlank z ++ [c]) ≠ [] := by
      rw [← skipBlank_append_of_not_isBlank hc]
      rcases skipBlank_cases (z ++ [c]) with ⟨hblank, -⟩ | ⟨-, d, y, -, hd, -, hrest⟩
      · simp [hblank c (by simp)] at hc
      · obtain ⟨y', hy'⟩ := exists_collapse_eq_cons hd y
        rw [hrest, hy']
        exact List.cons_ne_nil d y'
    rw [List.append_assoc, List.append_assoc, List.cons_append, List.cons_append,
      collapse_append_cons hl, collapse_append_cons hl, following_eq_collapse,
      following_eq_collapse, skipBlank_append_of_not_isBlank hc, skipBlank_append_of_not_isBlank hc,
      hrest, besideLine_append hne]
  · have hend : '\n' ∉ x ++ [c] := by
      simp [hmem, ne_newline_of_not_isBlank hc]
    rw [collapse_of_not_mem hend, dropReturn_concat hc, List.append_cons]
    unfold keptTail
    split
    next hbreak =>
      obtain ⟨first, more, rfl, hfirst⟩ := List.eq_append_cons_of_mem hbreak
      obtain ⟨hblank, hmore⟩ := List.forall_mem_append.mp hgap
      have hline : '\n' ∉ x ++ [c] ++ first := by
        simp [hmem, ne_newline_of_not_isBlank hc, hfirst]
      rw [← List.append_assoc, collapse_append_cons hline,
        following_of_blank (List.forall_mem_cons.mp hmore).2, trimEnd_append_of_blank hblank,
        trimEnd_concat hc, besideLine_nil, List.append_nil]
    next hbreak =>
      have hline : '\n' ∉ x ++ [c] ++ gap := by
        simp [hmem, ne_newline_of_not_isBlank hc, hbreak]
      rw [collapse_of_not_mem hline]
      cases gap with
      | nil =>
        rw [List.append_nil, dropReturn_concat hc]
        exact (List.append_nil (x ++ [c])).symm
      | cons d gap => exact dropReturn_append (List.cons_ne_nil d gap) (x ++ [c])
termination_by x.length
decreasing_by
  subst_vars
  have hle := (isSuffix_skipBlank z).length_le
  simp only [List.length_append, List.length_cons]
  omega

theorem collapse_of_blank {gap : List Char} (hgap : AllBlank gap) :
    collapse gap = keptTail gap := by
  unfold keptTail
  split
  next hmem =>
    obtain ⟨first, more, rfl, hfirst⟩ := List.eq_append_cons_of_mem hmem
    obtain ⟨hblank, hmore⟩ := List.forall_mem_append.mp hgap
    rw [collapse_append_cons hfirst, trimEnd_eq_nil_iff.mpr hblank, nil_besideLine]
    exact following_of_blank (List.forall_mem_cons.mp hmore).2
  next hmem => exact collapse_of_not_mem hmem

/-- Words as collapsing leaves them. -/
def collapsedWords : List (List Char × List Char) → List (List Char × List Char)
  | [] => []
  | [(w, gap)] => [(w, keptTail gap)]
  | (w, gap) :: next :: more =>
    (w, if '\n' ∈ gap then [' '] else gap) :: collapsedWords (next :: more)

def collapsed (t : Spaced) : Spaced :=
  ⟨keptLead t.lead, collapsedWords t.words⟩

theorem map_fst_collapsedWords (words : List (List Char × List Char)) :
    (collapsedWords words).map Prod.fst = words.map Prod.fst := by
  fun_induction collapsedWords words with
  | case1 => rfl
  | case2 w gap => rfl
  | case3 w gap next more ih =>
    rw [List.map_cons, ih]
    rfl

theorem allBlank_keptLead {gap : List Char} (h : AllBlank gap) : AllBlank (keptLead gap) := by
  unfold keptLead
  split
  · nofun
  · exact h

theorem allBlank_keptTail {gap : List Char} (h : AllBlank gap) : AllBlank (keptTail gap) := by
  unfold keptTail
  split
  · nofun
  · intro c hc
    exact h c ((isPrefix_dropReturn gap).mem hc)

theorem wordsApart_collapsedWords {words : List (List Char × List Char)} (h : WordsApart words) :
    WordsApart (collapsedWords words) := by
  induction h with
  | nil => exact .nil
  | last hw hgap => exact .last hw (allBlank_keptTail hgap)
  | @cons w gap next more hw hgap hne hmore ih =>
    obtain ⟨first, rest, hrest⟩ : ∃ first rest, collapsedWords (next :: more) = first :: rest := by
      cases more <;> exact ⟨_, _, rfl⟩
    rw [collapsedWords]
    rw [hrest] at ih ⊢
    apply WordsApart.cons hw _ _ ih
    · split
      · decide
      · exact hgap
    · split
      · exact List.cons_ne_nil ' ' []
      · exact hne

theorem exists_writtenWords_eq_cons {words : List (List Char × List Char)} (h : WordsApart words)
    (hne : words ≠ []) : ∃ c y, isBlank c = false ∧ writtenWords words = c :: y := by
  have hcons {w gap : List Char} (hw : IsWord w) (more : List (List Char × List Char)) :
      ∃ c y, isBlank c = false ∧ writtenWords ((w, gap) :: more) = c :: y := by
    obtain ⟨hne, hw⟩ := hw
    obtain ⟨c, w, rfl⟩ := List.exists_cons_of_ne_nil hne
    rw [writtenWords_cons]
    exact ⟨c, _, hw c List.mem_cons_self, rfl⟩
  cases h with
  | nil => exact absurd rfl hne
  | last hw _ => exact hcons hw []
  | cons hw _ _ _ => exact hcons hw _

theorem collapse_writtenWords {words : List (List Char × List Char)} (h : WordsApart words)
    (hne : words ≠ []) : collapse (writtenWords words) = writtenWords (collapsedWords words) := by
  induction h with
  | nil => exact absurd rfl hne
  | @last w gap hw hgap =>
    obtain ⟨x, c, hc, rfl⟩ := exists_concat_of_isWord hw
    have hline := collapse_of_not_mem (newline_not_mem_of_isWord hw)
    rw [dropReturn_concat hc] at hline
    have hblanks := collapse_append_blanks hgap hc x
    rw [hline] at hblanks
    simpa [collapsedWords] using hblanks
  | @cons w gap next more hw hgap _ hmore ih =>
    have hrest := ih (List.cons_ne_nil next more)
    obtain ⟨c, y, hc, hy⟩ := exists_writtenWords_eq_cons hmore (List.cons_ne_nil next more)
    rw [writtenWords_cons, hy, collapse_word_append hw hgap hc, ← hy, hrest, collapsedWords,
      writtenWords_cons]

theorem spaced_collapse {run : List Char} (h : ¬AllBlank run) :
    spaced (collapse run) = collapsed (spaced run) := by
  have hwell := wellFormed_spaced run
  have hne : (spaced run).words ≠ [] := mt words_spaced_eq_nil_iff.mp h
  refine spaced_eq_iff.mpr ⟨?_, ?_⟩
  · exact ⟨allBlank_keptLead hwell.lead, wordsApart_collapsedWords hwell.words⟩
  · obtain ⟨c, y, hc, hy⟩ := exists_writtenWords_eq_cons hwell.words hne
    have hwords := collapse_writtenWords hwell.words hne
    have hlead := collapse_blanks_append hwell.lead hc y
    rw [← hy, hwords] at hlead
    calc (collapsed (spaced run)).written
      _ = collapse (spaced run).written := hlead.symm
      _ = collapse run := by rw [written_spaced]

/-- Collapsing keeps the words of a run that has any, and what it leaves of the blanks depends on
the blanks alone. A run of blanks is gone with a line break in it. -/
theorem collapseRun_words (run : List Char) :
    (¬AllBlank run →
      Place.collapseRun run = .ok (some (collapse run)) ∧
      spaced (collapse run) = collapsed (spaced run) ∧
      (spaced (collapse run)).words.map Prod.fst = (spaced run).words.map Prod.fst) ∧
    (AllBlank run →
      Place.collapseRun run = .ok (if '\n' ∈ run ∨ dropReturn run = [] then none
        else some (dropReturn run)) ∧
      collapse run = if '\n' ∈ run then [] else dropReturn run) := by
  constructor
  · intro h
    have hspaced := spaced_collapse h
    have hwords : (spaced (collapse run)).words.map Prod.fst =
        (spaced run).words.map Prod.fst := by
      rw [hspaced]
      exact map_fst_collapsedWords (spaced run).words
    have hne : collapse run ≠ [] := by
      intro hnil
      rw [hnil] at hwords
      exact h (words_spaced_eq_nil_iff.mp (List.map_eq_nil_iff.mp hwords.symm))
    refine ⟨?_, hspaced, hwords⟩
    rw [Place.collapseRun_eq, if_neg hne]
  · intro h
    have hcollapse := collapse_of_blank h
    refine ⟨?_, hcollapse⟩
    rw [Place.collapseRun_eq, hcollapse]
    unfold keptTail
    by_cases hbreak : '\n' ∈ run <;> simp [hbreak]

/-- Three words with a gap inside a line, a gap over three lines, and a carriage return at the
end. -/
theorem collapseRun_words_lines :
    let run := ['\t', 'a', '\u00a0', '\r', 'b', ' ', '\r', '\n', '\u3000', '\n', ' ', 'c', ' ',
      '\r']
    spaced run = ⟨['\t'], [(['a'], ['\u00a0', '\r']),
      (['b'], [' ', '\r', '\n', '\u3000', '\n', ' ']), (['c'], [' ', '\r'])]⟩ ∧
    spaced (collapse run) = ⟨['\t'], [(['a'], ['\u00a0', '\r']), (['b'], [' ']), (['c'], [' '])]⟩ ∧
    collapse ['\r', '\n', ' '] = [] ∧ collapse [' ', '\r'] = [' '] := by
  intro run
  have hrun : ¬AllBlank run := by decide
  have hspaced : spaced run = ⟨['\t'], [(['a'], ['\u00a0', '\r']),
      (['b'], [' ', '\r', '\n', '\u3000', '\n', ' ']), (['c'], [' ', '\r'])]⟩ := by decide
  obtain ⟨-, hcollapse, -⟩ := (collapseRun_words run).1 hrun
  have hbreak := ((collapseRun_words ['\r', '\n', ' ']).2 (by decide)).2
  have hline := ((collapseRun_words [' ', '\r']).2 (by decide)).2
  refine ⟨hspaced, ?_, hbreak, hline⟩
  rw [hcollapse, hspaced]
  rfl

end StaticPreview.Markup
