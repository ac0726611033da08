import StaticPreview.Proofs.Disk.Names

/-! # Entries and the names that lead to them

Where no two entries of a folder have the same name, the files that are listed are those that names
lead to, but for the ones in folders that are passed over.
-/
namespace StaticPreview.Disk
open StaticPreview.Path

namespace Entry

mutual

/-- Whether all that an entry holds is named as it can be on a disk, and no two entries of a folder
have the same name. -/
def WellNamed : Entry → Prop
  | file _ => True
  | folder es => WellNamedIn es

def WellNamedIn : List (RawText × Entry) → Prop
  | [] => True
  | (name, child) :: more =>
    (IsName name ∧ name.size ≤ longestName) ∧ name ∉ more.map Prod.fst ∧
      child.WellNamed ∧ WellNamedIn more

end

mutual

def decidableWellNamed : (e : Entry) → Decidable e.WellNamed
  | file _ => isTrue trivial
  | folder es => decidableWellNamedIn es

def decidableWellNamedIn : (es : List (RawText × Entry)) → Decidable (WellNamedIn es)
  | [] => isTrue trivial
  | (_, child) :: more =>
    have := decidableWellNamed child
    have := decidableWellNamedIn more
    inferInstanceAs (Decidable (_ ∧ _ ∧ _ ∧ _))

end

instance : DecidablePred WellNamed := decidableWellNamed

theorem at?_append (e : Entry) (names more : List RawText) :
    e.at? (names ++ more) = (e.at? names).bind fun inner => inner.at? more := by
  induction names generalizing e with
  | nil => rfl
  | cons name rest ih =>
    rw [List.cons_append, at?, at?]
    cases e.entries.lookup name with
    | none => rfl
    | some child => exact ih child

theorem at?_file {content : Content} {names : List RawText} (hne : names ≠ []) :
    (file content).at? names = none := by
  obtain ⟨name, rest, rfl⟩ := List.exists_cons_of_ne_nil hne
  rfl

theorem at?_folder_cons (name other : RawText) (child : Entry) (more : List (RawText × Entry))
    (rest : List RawText) :
    (folder ((other, child) :: more)).at? (name :: rest) =
      if name = other then child.at? rest else (folder more).at? (name :: rest) := by
  simp only [at?, entries, List.lookup_cons]
  split <;> simp_all

theorem lookup_of_not_mem {es : List (RawText × Entry)} {name : RawText}
    (h : name ∉ es.map Prod.fst) : es.lookup name = none := by
  rw [List.lookup_eq_none_iff]
  intro p hp
  have hne : name ≠ p.1 := fun heq => h (heq ▸ List.mem_map_of_mem hp)
  simpa using hne

theorem at?_folder_of_not_mem {es : List (RawText × Entry)} {name : RawText} {rest : List RawText}
    (h : name ∉ es.map Prod.fst) : (folder es).at? (name :: rest) = none := by
  simp [at?, entries, lookup_of_not_mem h]

theorem WellNamedIn.of_mem {es : List (RawText × Entry)} (h : WellNamedIn es) {p : RawText × Entry}
    (hp : p ∈ es) : (IsName p.1 ∧ p.1.size ≤ longestName) ∧ p.2.WellNamed := by
  induction es with
  | nil => cases hp
  | cons first more ih =>
    obtain ⟨name, child⟩ := first
    obtain ⟨hname, -, hchild, hmore⟩ := h
    rcases List.mem_cons.mp hp with rfl | hp
    · exact ⟨hname, hchild⟩
    · exact ih hmore hp

/-- Whatever names lead to, they are names of entries. -/
theorem WellNamed.of_at? {e inner : Entry} (h : e.WellNamed) {names : List RawText}
    (hat : e.at? names = some inner) :
    (∀ name ∈ names, IsName name ∧ name.size ≤ longestName) ∧ inner.WellNamed := by
  induction names generalizing e with
  | nil =>
    obtain rfl := Option.some.inj hat
    exact ⟨by simp, h⟩
  | cons name rest ih =>
    obtain ⟨child, hchild, hbelow⟩ := Option.bind_eq_some_iff.mp hat
    cases e with
    | file content => cases hchild
    | folder es =>
      obtain ⟨before, after, rfl, -⟩ := List.lookup_eq_some_iff.mp hchild
      obtain ⟨hname, hwell⟩ := WellNamedIn.of_mem h (p := (name, child)) (by simp)
      obtain ⟨hrest, hinner⟩ := ih hwell hbelow
      exact ⟨List.forall_mem_cons.mpr ⟨hname, hrest⟩, hinner⟩

theorem WellNamed.isName_of_at? {e inner : Entry} (h : e.WellNamed) {names : List RawText}
    (hat : e.at? names = some inner) : ∀ name ∈ names, IsName name :=
  fun name hname => ((h.of_at? hat).1 name hname).1

theorem mem_map_cons_iff {name other : RawText} {rest : List RawText} {content : Content}
    {files : List (List RawText × Content)} :
    (name :: rest, content) ∈ files.map (fun p => (other :: p.1, p.2)) ↔
      name = other ∧ (rest, content) ∈ files := by
  simp only [List.mem_map, Prod.mk.injEq, List.cons.injEq, Prod.exists]
  constructor
  · rintro ⟨names, c, hmem, ⟨rfl, rfl⟩, rfl⟩
    exact ⟨rfl, hmem⟩
  · rintro ⟨rfl, hmem⟩
    exact ⟨rest, content, hmem, ⟨rfl, rfl⟩, rfl⟩

/-- The way to a file leads through its folder alone, or through more folders. -/
theorem forall_dropLast_cons_iff {skip : RawText → Bool} {child : Entry} {content : Content}
    {name : RawText} {rest : List RawText} (hat : child.at? rest = some (.file content)) :
    (∀ other ∈ (name :: rest).dropLast, skip other = false) ↔
      (child.isFolder && skip name) = false ∧ ∀ other ∈ rest.dropLast, skip other = false := by
  cases rest with
  | nil =>
    obtain rfl := Option.some.inj hat
    simp [isFolder]
  | cons next more =>
    cases child with
    | file other => cases hat
    | folder es => simp [isFolder]

mutual

/-- A file is listed if names lead to it and none of the folders on the way is passed over. -/
theorem mem_files {skip : RawText → Bool} {names : List RawText} {content : Content} :
    ∀ {e : Entry}, e.WellNamed → ((names, content) ∈ e.files skip ↔
      e.at? names = some (.file content) ∧ ∀ name ∈ names.dropLast, skip name = false)
  | .file other, _ => by
    cases names with
    | nil =>
      have hsame : content = other ↔ file other = file content :=
        ⟨fun h => congrArg file h.symm, fun h => (Entry.file.inj h).symm⟩
      simp [files, at?, hsame]
    | cons name rest => simp [files, at?_file]
  | .folder es, h => mem_filesIn h

theorem mem_filesIn {skip : RawText → Bool} {names : List RawText} {content : Content} :
    ∀ {es : List (RawText × Entry)}, WellNamedIn es → ((names, content) ∈ filesIn skip es ↔
      (folder es).at? names = some (.file content) ∧ ∀ name ∈ names.dropLast, skip name = false)
  | [], _ => by
    cases names <;> simp [filesIn, at?, entries]
  | (other, child) :: more, h => by
    obtain ⟨-, hfirst, hchild, hmore⟩ := h
    rw [filesIn, List.mem_append, mem_filesIn hmore]
    cases names with
    | nil =>
      have hnil : ([], content) ∉ (files skip child).map fun p => (other :: p.1, p.2) := by simp
      split <;> simp [at?, hnil]
    | cons name rest =>
      rw [at?_folder_cons]
      by_cases hname : name = other
      · subst hname
        rw [at?_folder_of_not_mem hfirst, if_pos rfl]
        have hinner : (name :: rest, content) ∈
            (if child.isFolder && skip name then []
              else (files skip child).map fun p => (name :: p.1, p.2)) ↔
            (child.isFolder && skip name) = false ∧ (rest, content) ∈ files skip child := by
          split <;> simp_all [mem_map_cons_iff]
        rw [hinner, mem_files hchild]
        constructor
        · rintro (⟨hopen, hat, hrest⟩ | ⟨hat, -⟩)
          · exact ⟨hat, (forall_dropLast_cons_iff hat).mpr ⟨hopen, hrest⟩⟩
          · cases hat
        · rintro ⟨hat, hall⟩
          obtain ⟨hopen, hrest⟩ := (forall_dropLast_cons_iff hat).mp hall
          exact .inl ⟨hopen, hat, hrest⟩
      · rw [if_neg hname]
        split <;> simp [mem_map_cons_iff, hname]

end

end Entry
end StaticPreview.Disk
