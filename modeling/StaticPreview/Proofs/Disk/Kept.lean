import StaticPreview.Proofs.Disk.Layout

/-! # Files of another kind

An empty folder that is put where nothing stood, or a file that is put where no folder stood,
changes none of the files whose names are of another kind, nor the order in which they are listed.
-/
namespace StaticPreview.Disk.Entry

variable {skip kind : RawText → Bool} {name : RawText} {names base : List RawText}
  {e new : Entry} {es es' : List (RawText × Entry)}

def filesOfKind (skip kind : RawText → Bool) (e : Entry) : List (List RawText × Content) :=
  (e.files skip).filter fun file => file.1.getLast?.any kind

def partOfKind (skip kind : RawText → Bool) (p : RawText × Entry) :
    List (List RawText × Content) :=
  let inner :=
    if p.2.isFolder && skip p.1 then []
    else (p.2.files skip).map fun file => (p.1 :: file.1, file.2)
  inner.filter fun file => file.1.getLast?.any kind

theorem filesOfKind_folder (es : List (RawText × Entry)) :
    (folder es).filesOfKind skip kind = es.flatMap (partOfKind skip kind) := by
  rw [filesOfKind, files]
  induction es with
  | nil => rfl
  | cons p more ih =>
    obtain ⟨name, child⟩ := p
    rw [filesIn, List.filter_append, ih, List.flatMap_cons, partOfKind]

theorem partOfKind_file (hname : kind name = false) (content : Content) :
    partOfKind skip kind (name, file content) = [] := by
  simp [partOfKind, isFolder, files, hname]

theorem partOfKind_emptyFolder : partOfKind skip kind (name, emptyFolder) = [] := by
  simp [partOfKind, emptyFolder, files, filesIn]

theorem ne_nil_of_mem_filesIn {file : List RawText × Content} (h : file ∈ filesIn skip es) :
    file.1 ≠ [] := by
  induction es with
  | nil => cases h
  | cons p more ih =>
    obtain ⟨name, child⟩ := p
    rw [filesIn] at h
    rcases List.mem_append.mp h with h | h
    · split at h
      · cases h
      · obtain ⟨inner, -, rfl⟩ := List.mem_map.mp h
        exact List.cons_ne_nil _ _
    · exact ih h

theorem partOfKind_folder :
    partOfKind skip kind (name, folder es) =
      if skip name then []
      else ((folder es).filesOfKind skip kind).map fun file => (name :: file.1, file.2) := by
  rw [partOfKind, filesOfKind, isFolder, Bool.true_and]
  split
  · rfl
  · rw [List.filter_map]
    congr 1
    refine List.filter_congr fun file hfile => ?_
    obtain ⟨first, rest, hcons⟩ := List.exists_cons_of_ne_nil (ne_nil_of_mem_filesIn hfile)
    simp [hcons]

theorem flatMap_setNamed {β : Type} {f : RawText × Entry → List β}
    (h : f (name, new) = (es.lookup name).elim [] fun child => f (name, child)) :
    (setNamed name new es).flatMap f = es.flatMap f := by
  induction es with
  | nil => simpa [setNamed] using h
  | cons p more ih =>
    obtain ⟨other, child⟩ := p
    rw [setNamed]
    split
    next hother =>
      subst hother
      simp only [List.lookup_cons_self, Option.elim_some] at h
      rw [List.flatMap_cons, List.flatMap_cons, h]
    next hother =>
      have hne : (name == other) = false := by simpa using Ne.symm hother
      rw [List.lookup_cons, hne] at h
      rw [List.flatMap_cons, List.flatMap_cons, ih h]

theorem exists_folder_of_layout (h : e.layout names = .folder) : ∃ es, e = folder es := by
  cases e with
  | folder es => exact ⟨es, rfl⟩
  | file content =>
    cases names with
    | nil => cases h
    | cons name rest =>
      rw [layout, at?_file (List.cons_ne_nil name rest)] at h
      cases h

theorem filesOfKind_setNamed (h : partOfKind skip kind (name, new) =
      (es.lookup name).elim [] fun child => partOfKind skip kind (name, child)) :
    (folder (setNamed name new es)).filesOfKind skip kind =
      (folder es).filesOfKind skip kind := by
  rw [filesOfKind_folder, filesOfKind_folder]
  exact flatMap_setNamed h

theorem partOfKind_of_lookup (hplace : (folder es).layout [name] ≠ .folder)
    (hnew : ((folder es).layout [name] = .nothing ∧ new = emptyFolder) ∨
      (kind name = false ∧ ∃ content, new = file content)) :
    partOfKind skip kind (name, new) =
      (es.lookup name).elim [] fun child => partOfKind skip kind (name, child) := by
  rw [layout_folder_cons] at hplace hnew
  cases hlookup : es.lookup name with
  | none =>
    rcases hnew with ⟨-, rfl⟩ | ⟨hname, content, rfl⟩
    · exact partOfKind_emptyFolder
    · exact partOfKind_file hname content
  | some child =>
    rw [hlookup, Option.elim_some, layout_nil] at hplace hnew
    cases child with
    | folder inner => exact absurd rfl hplace
    | file old =>
      rcases hnew with ⟨hnothing, -⟩ | ⟨hname, content, rfl⟩
      · cases hnothing
      · rw [Option.elim_some, partOfKind_file hname, partOfKind_file hname]

/-- A folder stays where it is when something is put in place of what is no folder. -/
theorem at?_setNamed_folder {all : List (RawText × Entry)} {b : RawText} {more : List RawText}
    (hplace : (folder all).layout [name] ≠ .folder)
    (hat : (folder all).at? (b :: more) = some (folder es)) :
    (folder (setNamed name new all)).at? (b :: more) = some (folder es) := by
  rw [at?, entries, lookup_setNamed]
  by_cases hb : b = name
  · subst hb
    obtain ⟨child, hlookup, hinner⟩ := Option.bind_eq_some_iff.mp hat
    rw [entries] at hlookup
    rw [layout_folder_cons, hlookup, Option.elim_some, layout_nil] at hplace
    cases child with
    | folder inner => exact absurd rfl hplace
    | file old => cases more <;> cases hinner
  · rw [if_neg hb]
    exact hat

/-- Files of a kind below `base` are listed as before, wherever the new entry is put. -/
theorem filesOfKind_at?_put (hway : e.layout names.dropLast = .folder)
    (hplace : e.layout names ≠ .folder)
    (hnew : (e.layout names = .nothing ∧ new = emptyFolder) ∨
      (names.getLast?.any kind = false ∧ ∃ content, new = file content))
    (hat : e.at? base = some (folder es)) :
    ∃ es', (e.put new names).at? base = some (folder es') ∧
      (folder es').filesOfKind skip kind = (folder es).filesOfKind skip kind := by
  induction names generalizing e base es with
  | nil => exact absurd hway hplace
  | cons name rest ih =>
    obtain ⟨all, rfl⟩ := exists_folder_of_layout hway
    rw [put]
    cases rest with
    | nil =>
      rw [put, entries]
      cases base with
      | nil =>
        obtain rfl := Entry.folder.inj (Option.some.inj hat)
        exact ⟨_, rfl, filesOfKind_setNamed (partOfKind_of_lookup hplace (by simpa using hnew))⟩
      | cons b more => exact ⟨es, at?_setNamed_folder hplace hat, rfl⟩
    | cons next more =>
      rw [List.dropLast_cons_cons, layout_folder_cons] at hway
      rw [layout_folder_cons] at hplace hnew
      cases hlookup : all.lookup name with
      | none => simp [hlookup] at hway
      | some child =>
        rw [hlookup, Option.elim_some] at hway hplace hnew
        rw [List.getLast?_cons_cons] at hnew
        rw [entries, hlookup, Option.getD_some]
        cases base with
        | nil =>
          obtain rfl := Entry.folder.inj (Option.some.inj hat)
          obtain ⟨inner, rfl⟩ := exists_folder_of_layout hway
          have hinner : (Entry.folder inner).at? [] = some (.folder inner) := rfl
          obtain ⟨inner', hput, hsame⟩ := ih hway hplace hnew hinner
          refine ⟨_, rfl, filesOfKind_setNamed ?_⟩
          rw [hlookup, Option.elim_some, Option.some.inj hput, partOfKind_folder,
            partOfKind_folder, hsame]
        | cons b below =>
          rw [at?, entries, lookup_setNamed]
          by_cases hb : b = name
          · subst hb
            rw [at?, entries, hlookup, Option.bind_some] at hat
            rw [if_pos rfl, Option.bind_some]
            exact ih hway hplace hnew hat
          · rw [if_neg hb]
            exact ⟨es, hat, rfl⟩

end StaticPreview.Disk.Entry
