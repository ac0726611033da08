import StaticPreview.Proofs.Disk.Entry

/-! # Reading what names lead to

On a disk whose entries are named as they can be, a path of names leads to an entry if and only if
the names do and the path is not too long. A path to something resolves to a path of names.
-/
namespace StaticPreview.Disk
open StaticPreview.Path Text

/-- Whether the top of a disk is a folder and all entries are named as they can be. -/
structure WellFormed (d : Disk) : Prop where
  isFolder_top : d.top.isFolder
  wellNamed_top : d.top.WellNamed

instance (d : Disk) : Decidable d.WellFormed :=
  decidable_of_iff (d.top.isFolder ∧ d.top.WellNamed) ⟨fun h => ⟨h.1, h.2⟩, fun h => ⟨h.1, h.2⟩⟩

def Entry.text? : Entry → Option String
  | file (.text s) => some s
  | _ => none

theorem Entry.text?_eq_some_iff {e : Entry} {text : String} :
    e.text? = some text ↔ e = .file (.text text) := by
  cases e with
  | folder es => simp [text?]
  | file content => cases content <;> simp [text?]

theorem toOption_read (d : Disk) (path : RawText) :
    (d.read path).toOption = (d.find? path).bind Entry.text? := by
  rw [read, find?]
  cases d.find path with
  | error cause => rfl
  | ok e =>
    cases e with
    | folder es => rfl
    | file content => cases content <;> rfl

theorem entryAt?_append (d : Disk) (names more : List RawText) :
    d.entryAt? (names ++ more) = (d.entryAt? names).bind fun inner => inner.at? more :=
  d.top.at?_append names more

variable {d : Disk} {start names : List RawText} {e : Entry}

theorem follow_of_folder {es : List (RawText × Entry)} (h : d.entryAt? start = some (.folder es))
    {name : RawText} (hname : IsName name) (hsize : name.size ≤ longestName) :
    d.follow start name.toList = .ok (start ++ [name]) := by
  rw [follow, h, hname.component?]
  exact if_neg (Nat.not_lt.mpr hsize)

theorem follow_nil_of_folder {es : List (RawText × Entry)}
    (h : d.entryAt? start = some (.folder es)) : d.follow start [] = .ok start := by
  rw [follow, h]
  rfl

theorem foldlM_follow_of_entryAt? (hwell : d.top.WellNamed)
    (h : d.entryAt? (start ++ names) = some e) :
    (names.map RawText.toList).foldlM d.follow start = .ok (start ++ names) := by
  induction names generalizing start with
  | nil => rw [List.append_nil]; rfl
  | cons name rest ih =>
    obtain ⟨hnames, -⟩ := hwell.of_at? h
    obtain ⟨hname, hsize⟩ := hnames name (by simp)
    rw [entryAt?_append] at h
    obtain ⟨outer, houter, hinner⟩ := Option.bind_eq_some_iff.mp h
    cases outer with
    | file content => cases hinner
    | folder es =>
      have hbelow : d.entryAt? ((start ++ [name]) ++ rest) = some e := by
        rw [List.append_assoc, List.singleton_append, entryAt?_append, houter]
        exact hinner
      have hrest := ih hbelow
      rw [List.append_assoc, List.singleton_append] at hrest
      rw [List.map_cons, List.foldlM_cons, follow_of_folder houter hname hsize]
      exact hrest

theorem walk_ofNames_of_entryAt? (hd : d.WellFormed) (h : d.entryAt? names = some e) :
    d.walk (ofNames names) = .ok names := by
  have hnames := hd.wellNamed_top.isName_of_at? h
  obtain ⟨es, htop⟩ : ∃ es, d.top = .folder es := by
    have hfolder := hd.isFolder_top
    cases htop : d.top with
    | file content => simp [htop, Entry.isFolder] at hfolder
    | folder es => exact ⟨es, rfl⟩
  have hfirst : d.follow [] [] = .ok [] := follow_nil_of_folder (congrArg some htop)
  rw [walk, if_pos (isAbsolute_ofNames names)]
  by_cases hnil : names = []
  · subst hnil
    rw [pieces_ofNames_nil]
    simp only [List.foldlM_cons, hfirst, bind, Except.bind]
    rfl
  · rw [pieces_ofNames hnames hnil, List.foldlM_cons, hfirst]
    have hfrom : d.entryAt? ([] ++ names) = some e := h
    exact foldlM_follow_of_entryAt? hd.wellNamed_top hfrom

theorem find?_eq (d : Disk) (path : RawText) :
    d.find? path =
      if (checkPath path).isOk then (d.walk path).toOption.bind d.entryAt? else none := by
  rw [find?, find, locate]
  cases checkPath path with
  | error cause => rfl
  | ok _ =>
    cases d.walk path with
    | error cause => rfl
    | ok names =>
      simp only [bind, Except.bind, Except.toOption]
      cases hat : d.entryAt? names <;> simp [Except.isOk, Except.toBool, hat] <;> rfl

theorem find?_ofNames (hd : d.WellFormed) (hnames : ∀ name ∈ names, IsName name) :
    d.find? (ofNames names) =
      if (checkPath (ofNames names)).isOk then d.entryAt? names else none := by
  rw [find?_eq]
  cases hat : d.entryAt? names with
  | some e => rw [walk_ofNames_of_entryAt? hd hat, Except.toOption, Option.bind_some, hat]
  | none =>
    cases hwalk : d.walk (ofNames names) with
    | error cause => rfl
    | ok r =>
      obtain rfl := eq_of_walk_of_spells (spells_ofNames hnames) hwalk
      rw [Except.toOption, Option.bind_some, hat]

/-- A text is read along names if the path is one that the system takes and the names lead to a file
with that text. -/
theorem toOption_read_ofNames_eq_some_iff (hd : d.WellFormed)
    (hnames : ∀ name ∈ names, IsName name) {text : String} :
    (d.read (ofNames names)).toOption = some text ↔
      (checkPath (ofNames names)).isOk ∧ d.entryAt? names = some (.file (.text text)) := by
  rw [toOption_read, find?_ofNames hd hnames, Option.bind_eq_some_iff]
  simp only [Entry.text?_eq_some_iff, Option.ite_none_right_eq_some, exists_eq_right]

theorem isOk_checkPath_iff {path : RawText} :
    (checkPath path).isOk ↔
      path.toList ≠ [] ∧ 0 ∉ path.toList ∧ path.size ≤ longestPath := by
  rw [checkPath]
  split
  · simp_all [Except.isOk, Except.toBool]
  · split
    · simp_all [Except.isOk, Except.toBool]
    · split
      next hlong => simp [Except.isOk, Except.toBool, Nat.not_le.mpr hlong]
      next hshort => simp_all [Except.isOk, Except.toBool]

/-- A folder can be reached where the path of something in it is not too long. -/
theorem isOk_checkPath_of_append {more : List RawText}
    (h : (checkPath (ofNames (names ++ more))).isOk) : (checkPath (ofNames names)).isOk := by
  by_cases hmore : more = []
  · rwa [hmore, List.append_nil] at h
  obtain ⟨rest, hrest⟩ : ∃ rest, ofNames (names ++ more) = ofNames names ++ rest := by
    by_cases hnil : names = []
    · exact ⟨joinNames more, by rw [hnil, List.nil_append]; rfl⟩
    · refine ⟨"/" ++ joinNames more, ?_⟩
      rw [ofNames, joinNames_append hnil hmore, ofNames]
      simp only [RawText.append_assoc]
  rw [hrest, isOk_checkPath_iff, RawText.toList_append, RawText.size_append] at h
  obtain ⟨-, hnul, hsize⟩ := h
  refine isOk_checkPath_iff.mpr ⟨by simp [toList_ofNames], ?_, by omega⟩
  exact fun hmem => hnul (List.mem_append_left _ hmem)

theorem exists_walk_of_find? {path : RawText} (h : d.find? path = some e) :
    ∃ names, d.walk path = .ok names ∧ d.entryAt? names = some e := by
  rw [find?_eq] at h
  obtain ⟨-, h⟩ := Option.ite_none_right_eq_some.mp h
  obtain ⟨names, hwalk, hat⟩ := Option.bind_eq_some_iff.mp h
  refine ⟨names, ?_, hat⟩
  cases hresult : d.walk path with
  | error cause => simp [hresult, Except.toOption] at hwalk
  | ok result => simpa [hresult, Except.toOption] using hwalk

/-- What exists at a path is resolved to the names that the path leads to. -/
theorem resolve_of_walk {path : RawText} (h : d.find? path = some e)
    (hwalk : d.walk path = .ok names) : d.resolve path = ofNames names := by
  obtain ⟨names', hwalk', hat⟩ := exists_walk_of_find? h
  obtain rfl := Except.ok.inj (hwalk'.symm.trans hwalk)
  have hcheck := (Option.ite_none_right_eq_some.mp ((d.find?_eq path).symm.trans h)).1
  have hnamesOf : d.namesOf? path = some names' := by
    rw [namesOf?, hwalk]
    exact if_pos ⟨(isOk_checkPath_iff.mp hcheck).1, by rw [hat]; rfl⟩
  obtain ⟨piece, more, hpieces⟩ := List.exists_cons_of_ne_nil (pieces_ne_nil slash path.toList)
  rw [resolve, Path.pieces, hpieces, List.length_cons, resolve.go, hnamesOf]

/-- What exists at a path has names. -/
theorem exists_resolve_eq_ofNames (hwell : d.top.WellNamed) {path : RawText}
    (h : d.find? path = some e) :
    ∃ names, (∀ name ∈ names, IsName name) ∧ d.resolve path = ofNames names := by
  obtain ⟨names, hwalk, hat⟩ := exists_walk_of_find? h
  exact ⟨names, hwell.isName_of_at? hat, resolve_of_walk h hwalk⟩

end StaticPreview.Disk
