import Mathlib.Data.List.Basic
import StaticPreview.Proofs.Disk.Entry

/-! # Walks of an entry

A walk comes to everything in a folder, but goes on from no folder that is passed over; the folder
that it begins at may have any name. The files are listed as a walk comes to them that goes depth
first.
-/
namespace StaticPreview.Disk.Entry

/-- Whether a walk of an entry comes to where names lead, if it passes over the folders that `skip`
names. -/
inductive Visits (skip : RawText → Bool) : Entry → List RawText → Prop
  | here (e : Entry) : Visits skip e []
  | inside {e child : Entry} {name : RawText} {rest : List RawText}
      (hchild : e.entries.lookup name = some child)
      (hkept : (child.isFolder && skip name) = false) (h : Visits skip child rest) :
      Visits skip e (name :: rest)

variable {skip : RawText → Bool} {name : RawText} {names rest : List RawText}

theorem visits_cons_iff {e : Entry} :
    e.Visits skip (name :: rest) ↔
      ∃ child, e.entries.lookup name = some child ∧ (child.isFolder && skip name) = false ∧
        child.Visits skip rest := by
  constructor
  · intro h
    cases h with
    | inside hchild hkept hrest => exact ⟨_, hchild, hkept, hrest⟩
  · rintro ⟨child, hchild, hkept, hrest⟩
    exact .inside hchild hkept hrest

theorem Visits.exists_at? {e : Entry} (h : e.Visits skip names) :
    ∃ inner, e.at? names = some inner := by
  induction h with
  | here e => exact ⟨e, rfl⟩
  | inside hchild _ _ ih =>
    obtain ⟨inner, hinner⟩ := ih
    exact ⟨inner, by rw [at?, hchild, Option.bind_some, hinner]⟩

/-- A walk comes to the files that are in no folder that is passed over. -/
theorem visits_file_iff {e : Entry} {content : Content}
    (hat : e.at? names = some (.file content)) :
    e.Visits skip names ↔ ∀ name ∈ names.dropLast, skip name = false := by
  induction names generalizing e with
  | nil => simpa using Visits.here e
  | cons name rest ih =>
    obtain ⟨child, hchild, hbelow⟩ := Option.bind_eq_some_iff.mp hat
    rw [visits_cons_iff, forall_dropLast_cons_iff hbelow, ← ih hbelow]
    simp [hchild]

mutual

/-- The names that a walk comes to if it goes depth first. -/
def visited (skip : RawText → Bool) : Entry → List (List RawText)
  | file _ => [[]]
  | folder es => [] :: visitedIn skip es

def visitedIn (skip : RawText → Bool) : List (RawText × Entry) → List (List RawText)
  | [] => []
  | (name, child) :: more =>
    let inner :=
      if child.isFolder && skip name then [] else (visited skip child).map (name :: ·)
    inner ++ visitedIn skip more

end

mutual

/-- The walk from the first entry to the last comes to all that it should and nothing else. -/
theorem mem_visited {names : List RawText} :
    ∀ {e : Entry}, e.WellNamed → (names ∈ e.visited skip ↔ e.Visits skip names)
  | .file content, _ => by
    cases names with
    | nil => simpa [visited] using Visits.here _
    | cons name rest => simp [visited, visits_cons_iff, entries]
  | .folder es, h => by
    cases names with
    | nil => simpa [visited] using Visits.here _
    | cons name rest => simpa [visited] using mem_visitedIn h

theorem mem_visitedIn {name : RawText} {rest : List RawText} :
    ∀ {es : List (RawText × Entry)}, WellNamedIn es →
      (name :: rest ∈ visitedIn skip es ↔ (folder es).Visits skip (name :: rest))
  | [], _ => by
    simp [visitedIn, visits_cons_iff, entries]
  | (other, child) :: more, h => by
    obtain ⟨-, hfirst, hchild, hmore⟩ := h
    have hinner : name :: rest ∈
        (if child.isFolder && skip other then [] else (visited skip child).map (other :: ·)) ↔
          (child.isFolder && skip other) = false ∧ child.Visits skip rest ∧ other = name := by
      rw [← mem_visited hchild]
      split
      next hskip => simp [hskip]
      next hopen => simp [hopen]
    rw [visitedIn, List.mem_append, mem_visitedIn hmore, hinner, visits_cons_iff, visits_cons_iff]
    simp only [entries, List.lookup_cons]
    by_cases hname : name = other
    · subst hname
      simp [lookup_of_not_mem hfirst]
    · have hne : (name == other) = false := by simpa using hname
      simp [Ne.symm hname, hne]

end

def content? : Entry → Option Content
  | file content => some content
  | folder _ => none

def listed? (e : Entry) (names : List RawText) : Option (List RawText × Content) :=
  ((e.at? names).bind content?).map fun content => (names, content)

theorem listed?_cons_of_lookup {e child : Entry} (hchild : e.entries.lookup name = some child)
    (rest : List RawText) :
    e.listed? (name :: rest) = (child.listed? rest).map fun file => (name :: file.1, file.2) := by
  rw [listed?, at?, hchild, Option.bind_some, listed?, Option.map_map]
  rfl

theorem exists_cons_of_mem_visitedIn {es : List (RawText × Entry)}
    (h : names ∈ visitedIn skip es) : ∃ name ∈ es.map Prod.fst, ∃ rest, names = name :: rest := by
  induction es with
  | nil => cases h
  | cons p more ih =>
    obtain ⟨first, child⟩ := p
    rw [visitedIn] at h
    rcases List.mem_append.mp h with h | h
    · split at h
      · cases h
      · obtain ⟨rest, -, rfl⟩ := List.mem_map.mp h
        exact ⟨first, by simp, rest, rfl⟩
    · obtain ⟨name, hname, rest, rfl⟩ := ih h
      exact ⟨name, List.mem_cons_of_mem first hname, rest, rfl⟩

mutual

/-- The files in an entry are listed in the order in which the walk comes to them. -/
theorem filterMap_visited :
    ∀ {e : Entry}, e.WellNamed → (e.visited skip).filterMap e.listed? = e.files skip
  | .file content, _ => rfl
  | .folder es, h => by
    rw [visited, List.filterMap_cons_none rfl, filterMap_visitedIn h, files]

theorem filterMap_visitedIn :
    ∀ {es : List (RawText × Entry)}, WellNamedIn es →
      (visitedIn skip es).filterMap (folder es).listed? = filesIn skip es
  | [], _ => rfl
  | (name, child) :: more, h => by
    obtain ⟨-, hfirst, hchild, hmore⟩ := h
    rw [visitedIn, List.filterMap_append, filesIn, ← filterMap_visitedIn hmore]
    congr 1
    · split
      · rfl
      · rw [← filterMap_visited hchild, List.filterMap_map, List.map_filterMap]
        refine List.filterMap_congr fun rest _ => ?_
        exact listed?_cons_of_lookup (by simp [entries]) rest
    · refine List.filterMap_congr fun names hnames => ?_
      obtain ⟨other, hother, rest, rfl⟩ := exists_cons_of_mem_visitedIn hnames
      have hne : other ≠ name := fun heq => hfirst (heq ▸ hother)
      rw [listed?, listed?, at?_folder_cons, if_neg hne]

end

end StaticPreview.Disk.Entry
