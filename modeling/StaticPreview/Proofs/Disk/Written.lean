import Mathlib.Data.List.Nodup
import Mathlib.Data.List.Pairwise
import StaticPreview.Proofs.Disk.Layout

/-! # What written files leave

A file that is written stands at its names, with folders on the way there. It can be written unless
a folder stands in its place or a file on its way. Files of which none is on the way to another one
can all be written if each of them can be, and in any order.
-/
namespace StaticPreview.Disk

variable {l : Layout} {a b names : List RawText} {content other : Content}

def Layout.opened (l : Layout) (names : List RawText) : Layout := fun q =>
  if q <+: names then .folder else l q

def Layout.written (l : Layout) (names : List RawText) (content : Content) : Layout := fun q =>
  if q = names then .file content else if q <+: names then .folder else l q

structure Layout.Admits (l : Layout) (names : List RawText) : Prop where
  way : ∀ q, q <+: names → q ≠ names → ∀ content, l q ≠ .file content
  place : l names ≠ .folder

def Apart (a b : List RawText) : Prop :=
  (a <+: b → a = b) ∧ (b <+: a → b = a)

instance (a b : List RawText) : Decidable (Apart a b) :=
  inferInstanceAs (Decidable (_ ∧ _))

theorem Apart.refl (a : List RawText) : Apart a a := ⟨fun _ => rfl, fun _ => rfl⟩

theorem Apart.symm (h : Apart a b) : Apart b a := And.symm h

instance : Std.Symm Apart := ⟨fun _ _ => Apart.symm⟩

theorem Apart.append_iff (base : List RawText) : Apart (base ++ a) (base ++ b) ↔ Apart a b := by
  simp only [Apart, List.prefix_append_right_inj, List.append_cancel_left_eq]

theorem Layout.written_self (l : Layout) (names : List RawText) (content : Content) :
    l.written names content names = .file content :=
  if_pos rfl

theorem Layout.written_of_not_prefix (l : Layout) (content : Content) (h : ¬ a <+: names) :
    l.written names content a = l a := by
  have hne : a ≠ names := fun heq => h (heq ▸ List.prefix_rfl)
  rw [written, if_neg hne, if_neg h]

theorem Layout.written_of_isPrefix (hne : a ≠ names) (h : a <+: names) :
    l.written names content a = .folder := by
  rw [written, if_neg hne, if_pos h]

/-- A file on its way to nowhere else leaves what stands apart from it. -/
theorem Layout.written_of_apart (h : Apart a b) (hne : a ≠ b) : l.written b content a = l a :=
  l.written_of_not_prefix content fun hprefix => hne (h.1 hprefix)

theorem Layout.opened_opened_concat (l : Layout) (names : List RawText) (name : RawText) :
    (l.opened names).opened (names ++ [name]) = l.opened (names ++ [name]) := by
  funext q
  rw [opened, opened, opened]
  by_cases hq : q <+: names ++ [name]
  · rw [if_pos hq, if_pos hq]
  · have hway : ¬ q <+: names := fun h => hq (h.trans (List.prefix_append _ _))
    rw [if_neg hq, if_neg hq, if_neg hway]

/-- A file in a folder that is made on the way there. -/
theorem Layout.written_opened (l : Layout) (names : List RawText) (name : RawText)
    (content : Content) :
    (l.opened names).written (names ++ [name]) content = l.written (names ++ [name]) content := by
  funext q
  rw [written, written, opened]
  by_cases hq : q <+: names ++ [name]
  · rw [if_pos hq, if_pos hq]
  · have hway : ¬ q <+: names := fun h => hq (h.trans (List.prefix_append _ _))
    rw [if_neg hq, if_neg hq, if_neg hway]

/-- Behind a file another one can be written if it could be before, and is apart from the first. -/
theorem Layout.admits_written_iff (ha : l.Admits a) :
    (l.written a content).Admits b ↔ l.Admits b ∧ Apart a b := by
  constructor
  · intro h
    have hapart : Apart a b := by
      constructor
      · intro hprefix
        by_contra hne
        exact h.way a hprefix hne content (l.written_self a content)
      · intro hprefix
        by_contra hne
        exact h.place (written_of_isPrefix hne hprefix)
    refine ⟨⟨?_, ?_⟩, hapart⟩
    · intro q hq hne c
      by_cases hqa : q <+: a
      · by_cases heq : q = a
        · subst heq
          exact absurd (hapart.1 hq) hne
        · exact ha.way q hqa heq c
      · rw [← l.written_of_not_prefix content hqa]
        exact h.way q hq hne c
    · by_cases hba : b <+: a
      · rw [hapart.2 hba]
        exact ha.place
      · rw [← l.written_of_not_prefix content hba]
        exact h.place
  · rintro ⟨hb, hapart⟩
    constructor
    · intro q hq hne c
      rw [written]
      split
      next heq => exact absurd (hapart.1 (heq ▸ hq)) (heq ▸ hne)
      next =>
        split
        · simp
        · exact hb.way q hq hne c
    · rw [written]
      split
      · simp
      next hne =>
        rw [if_neg fun hprefix => hne (hapart.2 hprefix)]
        exact hb.place

/-- A file that stands where it is written, with folders on its way, changes nothing. -/
theorem Layout.written_eq_self (hplace : l names = .file content)
    (hway : ∀ q, q <+: names → q ≠ names → l q = .folder) : l.written names content = l := by
  funext q
  rw [written]
  split
  next heq => rw [heq, hplace]
  next hne =>
    split
    next hprefix => exact (hway q hprefix hne).symm
    next => rfl

/-- The layout behind files that are written one after the other. -/
def Layout.writtenAll (l : Layout) (files : List (List RawText × Content)) : Layout :=
  files.foldl (fun l file => l.written file.1 file.2) l

structure Layout.Fits (l : Layout) (places : List (List RawText)) : Prop where
  admits : ∀ names ∈ places, l.Admits names
  apart : places.Pairwise Apart

theorem Layout.fits_cons_iff (content : Content) {places : List (List RawText)} :
    l.Fits (names :: places) ↔ l.Admits names ∧ (l.written names content).Fits places := by
  constructor
  · rintro ⟨hadmits, hapart⟩
    obtain ⟨hfirst, hmore⟩ := List.forall_mem_cons.mp hadmits
    obtain ⟨hnames, hplaces⟩ := List.pairwise_cons.mp hapart
    refine ⟨hfirst, ⟨?_, hplaces⟩⟩
    intro place hplace
    exact (admits_written_iff hfirst).mpr ⟨hmore place hplace, hnames place hplace⟩
  · rintro ⟨hfirst, hadmits, hapart⟩
    have hboth := fun place hplace => (admits_written_iff hfirst).mp (hadmits place hplace)
    refine ⟨?_, List.pairwise_cons.mpr ⟨fun place hplace => (hboth place hplace).2, hapart⟩⟩
    exact List.forall_mem_cons.mpr ⟨hfirst, fun place hplace => (hboth place hplace).1⟩

theorem Layout.fits_append_iff {files : List (List RawText × Content)}
    {places : List (List RawText)} :
    l.Fits (files.map Prod.fst ++ places) ↔
      l.Fits (files.map Prod.fst) ∧ (l.writtenAll files).Fits places := by
  induction files generalizing l with
  | nil =>
    have hnone : l.Fits [] := ⟨by simp, .nil⟩
    exact (and_iff_right hnone).symm
  | cons file more ih =>
    rw [List.map_cons, List.cons_append, fits_cons_iff file.2, fits_cons_iff file.2, ih, and_assoc]
    rfl

/-- Whether files fit does not depend on their order. -/
theorem Layout.Fits.of_perm {places places' : List (List RawText)} (hperm : places.Perm places')
    (h : l.Fits places) : l.Fits places' := by
  refine ⟨fun names hnames => h.admits names (hperm.mem_iff.mpr hnames), ?_⟩
  exact (hperm.pairwise_iff Apart.symm).mp h.apart

theorem Layout.Fits.apart_of_mem {places : List (List RawText)} (h : l.Fits places)
    (ha : a ∈ places) (hb : b ∈ places) : Apart a b :=
  h.apart.forall_of_forall (fun c _ => .refl c) ha hb

/-- Of the files that are written at one place the last one stays. -/
theorem Layout.writtenAll_apply {files : List (List RawText × Content)}
    (hapart : ∀ file ∈ files, Apart names file.1) :
    l.writtenAll files names =
      ((files.filter (·.1 == names)).getLast?.map fun file => .file file.2).getD (l names) := by
  induction files generalizing l with
  | nil => rfl
  | cons file more ih =>
    obtain ⟨hfile, hmore⟩ := List.forall_mem_cons.mp hapart
    have hstep := ih (l := l.written file.1 file.2) hmore
    rw [writtenAll, List.foldl_cons]
    refine hstep.trans ?_
    rw [List.filter_cons]
    by_cases hnames : file.1 = names
    · subst hnames
      rw [if_pos (by simp), List.getLast?_cons, written_self]
      cases (more.filter (·.1 == file.1)).getLast? <;> rfl
    · rw [if_neg (by simpa using hnames), written_of_apart hfile (Ne.symm hnames)]

theorem Layout.writtenAll_of_folder {files : List (List RawText × Content)}
    (hfits : l.Fits (files.map Prod.fst)) {q : List RawText} (hq : l q = .folder) :
    l.writtenAll files q = .folder := by
  induction files generalizing l with
  | nil => exact hq
  | cons file more ih =>
    obtain ⟨hfile, hmore⟩ := (fits_cons_iff file.2).mp hfits
    have hne : q ≠ file.1 := fun h => hfile.place (h ▸ hq)
    have hstep : l.written file.1 file.2 q = .folder := by
      rw [written, if_neg hne]
      split
      · rfl
      · exact hq
    exact ih hmore hstep

/-- On the way to a file that is written stand folders in the end. -/
theorem Layout.writtenAll_of_isPrefix {files : List (List RawText × Content)}
    (hfits : l.Fits (files.map Prod.fst)) (hnames : names ∈ files.map Prod.fst)
    {q : List RawText} (hq : q <+: names) (hne : q ≠ names) : l.writtenAll files q = .folder := by
  induction files generalizing l with
  | nil => cases hnames
  | cons file more ih =>
    obtain ⟨hfile, hmore⟩ := (fits_cons_iff file.2).mp hfits
    rcases List.mem_cons.mp hnames with rfl | hnames
    · exact writtenAll_of_folder hmore (written_of_isPrefix hne hq)
    · exact ih hmore hnames

theorem Layout.exists_writtenAll_eq_file {files : List (List RawText × Content)}
    (hfits : l.Fits (files.map Prod.fst)) (hnames : names ∈ files.map Prod.fst) :
    ∃ content, l.writtenAll files names = .file content := by
  have hapart : ∀ file ∈ files, Apart names file.1 := fun file hfile =>
    hfits.apart_of_mem hnames (List.mem_map_of_mem hfile)
  obtain ⟨file, hfile, hsame⟩ := List.mem_map.mp hnames
  have hkept : file ∈ files.filter (·.1 == names) := List.mem_filter.mpr ⟨hfile, by simp [hsame]⟩
  rw [writtenAll_apply hapart, List.getLast?_eq_some_getLast (List.ne_nil_of_mem hkept)]
  exact ⟨_, rfl⟩

/-- Files can be written where they have been written. -/
theorem Layout.Fits.again {files : List (List RawText × Content)}
    (hfits : l.Fits (files.map Prod.fst)) : (l.writtenAll files).Fits (files.map Prod.fst) := by
  refine ⟨?_, hfits.apart⟩
  intro names hnames
  constructor
  · intro q hq hne content
    rw [writtenAll_of_isPrefix hfits hnames hq hne]
    simp
  · obtain ⟨content, hfile⟩ := exists_writtenAll_eq_file hfits hnames
    rw [hfile]
    simp

/-- Files that stand already, with folders on the way to them, change nothing. -/
theorem Layout.writtenAll_eq_self {files : List (List RawText × Content)}
    (h : ∀ file ∈ files, l file.1 = .file file.2 ∧ ∀ q, q <+: file.1 → q ≠ file.1 → l q = .folder) :
    l.writtenAll files = l := by
  induction files with
  | nil => rfl
  | cons file more ih =>
    obtain ⟨⟨hplace, hway⟩, hmore⟩ := List.forall_mem_cons.mp h
    have hstep : l.writtenAll (file :: more) =
        (l.written file.1 file.2).writtenAll more := rfl
    rw [hstep, written_eq_self hplace hway, ih hmore]

end StaticPreview.Disk
