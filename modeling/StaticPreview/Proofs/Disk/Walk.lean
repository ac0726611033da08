import StaticPreview.Proofs.Disk.Layout
import StaticPreview.Proofs.Path.Under

/-! # Where paths lead

A path leads where it can be walked, which depends on the layout alone: every piece is followed from
a folder that is there. So a path leads to the same place as long as no folder goes.
-/
namespace StaticPreview
open StaticPreview.Path Text

namespace Path

theorem slash_not_mem_pieces (path : RawText) : ∀ piece ∈ pieces path, slash ∉ piece :=
  not_mem_of_mem_pieces

theorem component?_cases {piece : List UInt8} (hslash : slash ∉ piece) :
    component? piece = none ∨ component? piece = some .up ∨
      ∃ name, component? piece = some (.name name) ∧ IsName name := by
  rw [component?]
  split
  · exact .inl rfl
  · split
    · exact .inr (.inl rfl)
    · refine .inr (.inr ⟨_, rfl, ?_⟩)
      simp_all [IsName]

theorem eq_toList_of_component? {piece : List UInt8} {name : RawText}
    (h : component? piece = some (.name name)) : piece = name.toList := by
  rw [component?] at h
  split at h
  · cases h
  · split at h
    · cases h
    · rw [← Component.name.inj (Option.some.inj h), RawText.toList_ofList]

theorem fileName?_of_getLast? {path name : RawText} (hname : IsName name)
    (hlast : (pieces path).getLast? = some name.toList) : fileName? path = some name := by
  obtain ⟨init, hpieces⟩ := List.getLast?_eq_some_iff.mp hlast
  have hcomponent := hname.component?
  have hend : (components path).getLast? = some (.name name) := by
    have hne : name.toList ≠ [] ∧ name.toList ≠ [dot] := by
      rw [← not_or, ← isIdle_iff, hcomponent]
      simp
    rw [components, hpieces]
    cases init with
    | nil => simp only [List.nil_append, hne, if_false, hcomponent]; rfl
    | cons first more =>
      rw [List.cons_append]
      dsimp only
      rw [List.filterMap_append, List.filterMap_cons_some hcomponent, List.filterMap_nil,
        ← List.append_assoc, List.getLast?_concat]
  rw [fileName?, hend]

end Path

namespace Disk

variable {d d' : Disk} {start names r : List RawText}

/-- A step along a path depends on the layout alone. -/
theorem follow_eq (d : Disk) (names : List RawText) (piece : List UInt8) :
    d.follow names piece =
      match d.layout names with
      | .nothing => .error .notFound
      | .file _ => .error .notAFolder
      | .folder =>
        match Path.component? piece with
        | some (.name name) =>
          if longestName < name.size then .error .nameTooLong else .ok (names ++ [name])
        | some .up => .ok names.dropLast
        | _ => .ok names := by
  rw [follow, layout, Entry.layout, entryAt?]
  cases d.top.at? names with
  | none => rfl
  | some e => cases e <;> rfl

theorem follow_congr {piece : List UInt8} (h : d.layout names = d'.layout names) :
    d.follow names piece = d'.follow names piece := by
  rw [follow_eq, follow_eq, h]

/-- A piece is followed from a folder: to where it is, up, or to a name in it. -/
theorem follow_cases {piece : List UInt8} (hslash : slash ∉ piece)
    (h : d.follow names piece = .ok r) :
    d.layout names = .folder ∧
      (component? piece = none ∧ r = names ∨ component? piece = some .up ∧ r = names.dropLast ∨
        ∃ name, component? piece = some (.name name) ∧
          (IsName name ∧ name.size ≤ longestName) ∧ r = names ++ [name]) := by
  rw [follow_eq] at h
  split at h
  · cases h
  · cases h
  next hfolder =>
    refine ⟨hfolder, ?_⟩
    rcases component?_cases hslash with hpiece | hpiece | ⟨name, hpiece, hname⟩ <;>
      rw [hpiece] at h <;> dsimp only at h
    · exact .inl ⟨hpiece, (Except.ok.inj h).symm⟩
    · exact .inr (.inl ⟨hpiece, (Except.ok.inj h).symm⟩)
    · split at h
      · cases h
      next hsize =>
        exact .inr (.inr ⟨name, hpiece, ⟨hname, Nat.le_of_not_lt hsize⟩, (Except.ok.inj h).symm⟩)

theorem foldlM_follow_append {ps more : List (List UInt8)} :
    (ps ++ more).foldlM d.follow start = .ok r ↔
      ∃ mid, ps.foldlM d.follow start = .ok mid ∧ more.foldlM d.follow mid = .ok r := by
  rw [List.foldlM_append]
  cases ps.foldlM d.follow start with
  | error cause => simp [bind, Except.bind]
  | ok mid => simp [bind, Except.bind]

theorem layout_eq_folder_of_append {more : List RawText} (hmore : more ≠ [])
    (h : d.layout (names ++ more) ≠ .nothing) : d.layout names = .folder :=
  Entry.layout_eq_folder_of_append hmore h

theorem layout_dropLast_of_folder (h : d.layout names = .folder) :
    d.layout names.dropLast = .folder := by
  rcases names.eq_nil_or_concat with rfl | ⟨init, last, rfl⟩
  · exact h
  · rw [List.concat_eq_append] at h ⊢
    rw [List.dropLast_concat]
    have hthere : d.layout (init ++ [last]) ≠ .nothing := by simp [h]
    exact layout_eq_folder_of_append (by simp) hthere

/-- A path leads to a folder, or its last piece is a name in a folder. -/
theorem walk_cases {path : RawText} (h : d.walk path = .ok names) :
    d.layout names = .folder ∨
      ∃ init name, names = init ++ [name] ∧ d.layout init = .folder ∧
        (IsName name ∧ name.size ≤ longestName) ∧
        (Path.pieces path).getLast? = some name.toList := by
  obtain ⟨init, last, hpieces⟩ :=
    ((Path.pieces path).eq_nil_or_concat).resolve_left (pieces_ne_nil slash path.toList)
  rw [List.concat_eq_append] at hpieces
  rw [walk, hpieces, foldlM_follow_append] at h
  obtain ⟨mid, -, hlast⟩ := h
  obtain ⟨next, hstep, hend⟩ := foldlM_follow_cons hlast
  obtain rfl := Except.ok.inj hend
  have hslash : slash ∉ last := slash_not_mem_pieces path last (by simp [hpieces])
  obtain ⟨hfolder, ⟨-, rfl⟩ | ⟨-, rfl⟩ | ⟨name, hname, hvalid, rfl⟩⟩ := follow_cases hslash hstep
  · exact .inl hfolder
  · exact .inl (layout_dropLast_of_folder hfolder)
  · refine .inr ⟨mid, name, rfl, hfolder, hvalid, ?_⟩
    rw [hpieces, List.getLast?_concat, eq_toList_of_component? hname]

/-- A piece that is no component keeps to the folder that it is followed from. -/
theorem follow_of_idle {piece : List UInt8} (hpiece : component? piece = none)
    (h : d.layout names = .folder) : d.follow names piece = .ok names := by
  rw [follow_eq, h, hpiece]

theorem eq_of_follow_idle {piece : List UInt8} (hpiece : component? piece = none)
    (h : d.follow names piece = .ok r) : d.layout names = .folder ∧ r = names := by
  rw [follow_eq] at h
  split at h
  · cases h
  · cases h
  next hfolder =>
    rw [hpiece] at h
    exact ⟨hfolder, (Except.ok.inj h).symm⟩

/-- A path to a folder leads there by the pieces that stand before what is put under it. -/
theorem walk_eq_ok_iff_lead (hfolder : d.layout r = .folder) (path : RawText) :
    d.walk path = .ok r ↔ (leadPieces path).foldlM d.follow
      (if isAbsolute path then [] else d.workingFolder) = .ok r := by
  by_cases hempty : path = ""
  · subst hempty
    have hwalk : d.walk "" = d.follow d.workingFolder [] := bind_pure _
    have hlead : leadPieces "" = [] := rfl
    have hstart : (if isAbsolute "" then [] else d.workingFolder) = d.workingFolder := rfl
    rw [hwalk, hlead, hstart]
    constructor
    · intro h
      rw [(eq_of_follow_idle rfl h).2]
      rfl
    · intro h
      obtain rfl := Except.ok.inj h
      exact follow_of_idle rfl hfolder
  · rw [walk]
    obtain ⟨-, hpieces | hpieces⟩ := pieces_eq_lead hempty
    · rw [hpieces]
    · rw [hpieces, foldlM_follow_append]
      constructor
      · rintro ⟨mid, hlead, hlast⟩
        obtain ⟨next, hstep, hend⟩ := foldlM_follow_cons hlast
        obtain rfl := Except.ok.inj hend
        rw [(eq_of_follow_idle rfl hstep).2]
        exact hlead
      · intro hlead
        refine ⟨r, hlead, ?_⟩
        rw [List.foldlM_cons, follow_of_idle rfl hfolder]
        rfl

theorem walk_under_eq_ok_iff {folder : RawText} (hnames : ∀ name ∈ names, IsName name)
    (hne : names ≠ []) :
    d.walk (under folder names) = .ok r ↔
      ∃ base, d.walk folder = .ok base ∧ d.layout base = .folder ∧
        (names.map RawText.toList).foldlM d.follow base = .ok r := by
  rw [walk, pieces_under folder hnames hne, isAbsolute_under folder hnames hne,
    foldlM_follow_append]
  constructor
  · rintro ⟨base, hlead, hbelow⟩
    obtain ⟨name, more, rfl⟩ := List.exists_cons_of_ne_nil hne
    obtain ⟨next, hstep, -⟩ := foldlM_follow_cons hbelow
    have hfolder := (follow_cases (hnames name (by simp)).2 hstep).1
    exact ⟨base, (walk_eq_ok_iff_lead hfolder folder).mpr hlead, hfolder, hbelow⟩
  · rintro ⟨base, hwalk, hfolder, hbelow⟩
    exact ⟨base, (walk_eq_ok_iff_lead hfolder folder).mp hwalk, hbelow⟩

/-- Names lead on from a folder as far as all but the last of them lead to folders. -/
theorem foldlM_follow_names_iff (hd : d.WellFormed) {init : List RawText} {last : RawText}
    (hnames : ∀ name ∈ init ++ [last], IsName name) :
    ((init ++ [last]).map RawText.toList).foldlM d.follow start = .ok r ↔
      r = start ++ (init ++ [last]) ∧ d.layout (start ++ init) = .folder ∧
        last.size ≤ longestName := by
  obtain ⟨hinit, hlast⟩ := List.forall_mem_append.mp hnames
  have hpiece := (hlast last (by simp)).component?
  rw [List.map_append, List.map_singleton, foldlM_follow_append]
  constructor
  · rintro ⟨mid, hfirst, hend⟩
    obtain rfl := eq_of_foldlM_follow (filterMap_component? hinit) hfirst
    obtain ⟨next, hstep, hnil⟩ := foldlM_follow_cons hend
    obtain rfl := Except.ok.inj hnil
    obtain ⟨hfolder, hcases⟩ := follow_cases (hlast last (by simp)).2 hstep
    simp only [hpiece, reduceCtorEq, false_and, false_or, Option.some.injEq,
      Component.name.injEq] at hcases
    obtain ⟨name, rfl, ⟨-, hsize⟩, rfl⟩ := hcases
    exact ⟨List.append_assoc .., hfolder, hsize⟩
  · rintro ⟨rfl, hfolder, hsize⟩
    obtain ⟨es, hat⟩ := Entry.layout_eq_folder_iff.mp hfolder
    refine ⟨start ++ init, foldlM_follow_of_entryAt? hd.wellNamed_top hat, ?_⟩
    rw [List.foldlM_cons, follow_of_folder hat (hlast last (by simp)) hsize, List.append_assoc]
    rfl

/-- On a well-formed disk a path under a folder leads where its names say, if the last folder on the
way is there. -/
theorem walk_under_eq_ok_iff_layout (hd : d.WellFormed) {folder : RawText}
    {base init : List RawText}
    {last : RawText} (hbase : d.walk folder = .ok base) (hfolder : d.layout base = .folder)
    (hnames : ∀ name ∈ init ++ [last], IsName name) :
    d.walk (under folder (init ++ [last])) = .ok r ↔
      r = base ++ (init ++ [last]) ∧ d.layout (base ++ init) = .folder ∧
        last.size ≤ longestName := by
  rw [walk_under_eq_ok_iff hnames (by simp)]
  constructor
  · rintro ⟨base', hbase', -, hbelow⟩
    obtain rfl := Except.ok.inj (hbase.symm.trans hbase')
    exact (foldlM_follow_names_iff hd hnames).mp hbelow
  · intro h
    exact ⟨base, hbase, hfolder, (foldlM_follow_names_iff hd hnames).mpr h⟩

theorem foldlM_follow_replicate {n : Nat} :
    (List.replicate n []).foldlM d.follow start = .ok r ↔
      r = start ∧ (n = 0 ∨ d.layout start = .folder) := by
  induction n with
  | zero =>
    constructor
    · intro h
      exact ⟨(Except.ok.inj h).symm, .inl rfl⟩
    · rintro ⟨rfl, -⟩
      rfl
  | succ n ih =>
    rw [List.replicate_succ]
    constructor
    · intro h
      obtain ⟨next, hstep, hrest⟩ := foldlM_follow_cons h
      obtain ⟨hfolder, rfl⟩ := eq_of_follow_idle rfl hstep
      exact ⟨(ih.mp hrest).1, .inr hfolder⟩
    · rintro ⟨rfl, hfolder⟩
      have hfolder := hfolder.resolve_left (by simp)
      rw [List.foldlM_cons, follow_of_idle rfl hfolder]
      exact ih.mpr ⟨rfl, .inr hfolder⟩

/-- The slashes at the end of a path lead on from a folder only. -/
theorem walk_of_walk_trimSlashes {path : RawText} (hfolder : d.layout r = .folder)
    (h : d.walk (trimSlashes path) = .ok r) : d.walk path = .ok r := by
  obtain ⟨hstart, n, hpieces⟩ := pieces_trimSlashes path
  rw [walk, hstart] at h
  rw [walk, hpieces, foldlM_follow_append]
  exact ⟨r, h, foldlM_follow_replicate.mpr ⟨rfl, .inr hfolder⟩⟩

theorem walk_trimSlashes {path : RawText} (h : d.walk path = .ok r) :
    d.walk (trimSlashes path) = .ok r := by
  obtain ⟨hstart, n, hpieces⟩ := pieces_trimSlashes path
  rw [walk, hpieces, foldlM_follow_append] at h
  obtain ⟨mid, hkept, hend⟩ := h
  obtain ⟨rfl, -⟩ := foldlM_follow_replicate.mp hend
  rw [walk, hstart]
  exact hkept

/-- A path from the working folder leads nowhere if that is no folder. -/
theorem folder_of_walk {path : RawText} (hrelative : isAbsolute path = false)
    (h : d.walk path = .ok r) : d.layout d.workingFolder = .folder := by
  obtain ⟨first, more, hpieces⟩ := List.exists_cons_of_ne_nil (pieces_ne_nil slash path.toList)
  rw [walk, Path.pieces, hpieces, if_neg (by simp [hrelative])] at h
  obtain ⟨next, hstep, -⟩ := foldlM_follow_cons h
  exact (follow_cases (slash_not_mem_pieces path first (by simp [Path.pieces, hpieces])) hstep).1

/-- Whether a disk has the folders of another one, and perhaps more. -/
structure HasFoldersOf (d' d : Disk) : Prop where
  workingFolder : d'.workingFolder = d.workingFolder
  folder : ∀ names, d.layout names = .folder → d'.layout names = .folder

theorem HasFoldersOf.foldlM_follow (h : d'.HasFoldersOf d) {ps : List (List UInt8)}
    (hwalk : ps.foldlM d.follow start = .ok r) (hslash : ∀ piece ∈ ps, slash ∉ piece) :
    ps.foldlM d'.follow start = .ok r := by
  induction ps generalizing start with
  | nil => exact hwalk
  | cons piece more ih =>
    obtain ⟨hpiece, hmore⟩ := List.forall_mem_cons.mp hslash
    obtain ⟨next, hstep, hrest⟩ := foldlM_follow_cons hwalk
    have hfolder := (follow_cases hpiece hstep).1
    have hsame : d'.follow start piece = .ok next := by
      rw [follow_congr ((h.folder start hfolder).trans hfolder.symm), hstep]
    rw [List.foldlM_cons, hsame]
    exact ih hrest hmore

/-- A path that leads somewhere still does when folders are added. -/
theorem HasFoldersOf.walk (h : d'.HasFoldersOf d) {path : RawText}
    (hwalk : d.walk path = .ok names) : d'.walk path = .ok names := by
  rw [Disk.walk] at hwalk ⊢
  rw [h.workingFolder]
  exact h.foldlM_follow hwalk (slash_not_mem_pieces path)

end Disk
end StaticPreview
