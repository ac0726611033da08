import StaticPreview.Proofs.Disk.Below

/-! # Actions that put files

An action puts files below a folder if it succeeds where, and only where, there is room for them,
and leaves them there with their folders and all else as it was. Actions that do so one after the
other put the files of all.
-/
namespace StaticPreview.Disk
open StaticPreview.Path

abbrev Files := List (List RawText × String)

def Layout.withFiles (l : Layout) (base : List RawText) (files : Files) : Layout :=
  l.writtenAll (files.map fun file => (base ++ file.1, .text file.2))

structure HasRoom (d : Disk) (folder : RawText) (base : List RawText)
    (places : List (List RawText)) : Prop where
  placeable : ∀ names ∈ places, Placeable folder names
  fits : d.layout.Fits (places.map (base ++ ·))

/-- Whether an action puts files below a folder and yields a value. -/
structure Puts {ε α : Type} (folder : RawText) (base : List RawText) (a : Action ε α)
    (files : Files) (x : α) : Prop where
  room : ∀ {d d' : Disk} {y : α}, d.Leads folder base → a.on d = (.ok y, d') →
    d.HasRoom folder base (files.map Prod.fst)
  run : ∀ {d : Disk}, d.Leads folder base → d.HasRoom folder base (files.map Prod.fst) →
    ∃ d', a.on d = (.ok x, d') ∧ d'.Leads folder base ∧
      d'.layout = d.layout.withFiles base files

variable {ε ε' α β : Type} {d d' : Disk} {folder : RawText} {base : List RawText}
  {files files' : Files} {places places' : List (List RawText)}

theorem HasRoom.of_perm (hperm : places.Perm places') (h : d.HasRoom folder base places) :
    d.HasRoom folder base places' :=
  ⟨fun names hnames => h.placeable names (hperm.mem_iff.mpr hnames), h.fits.of_perm (hperm.map _)⟩

theorem map_fst_withFiles (base : List RawText) (files : Files) :
    (files.map fun file => (base ++ file.1, Content.text file.2)).map Prod.fst =
      (files.map Prod.fst).map (base ++ ·) := by
  simp [Function.comp_def]

theorem hasRoom_append_iff (hlayout : d'.layout = d.layout.withFiles base files) :
    d.HasRoom folder base (files.map Prod.fst ++ places) ↔
      d.HasRoom folder base (files.map Prod.fst) ∧ d'.HasRoom folder base places := by
  have hfits : d.layout.Fits ((files.map Prod.fst ++ places).map (base ++ ·)) ↔
      d.layout.Fits ((files.map Prod.fst).map (base ++ ·)) ∧
        d'.layout.Fits (places.map (base ++ ·)) := by
    rw [List.map_append, ← map_fst_withFiles, Layout.fits_append_iff, hlayout]
    rfl
  constructor
  · intro h
    obtain ⟨hleft, hright⟩ := List.forall_mem_append.mp h.placeable
    exact ⟨⟨hleft, (hfits.mp h.fits).1⟩, ⟨hright, (hfits.mp h.fits).2⟩⟩
  · rintro ⟨hleft, hright⟩
    exact ⟨List.forall_mem_append.mpr ⟨hleft.placeable, hright.placeable⟩,
      hfits.mpr ⟨hleft.fits, hright.fits⟩⟩

theorem Layout.withFiles_append (l : Layout) (base : List RawText) (files files' : Files) :
    l.withFiles base (files ++ files') = (l.withFiles base files).withFiles base files' := by
  rw [withFiles, List.map_append]
  exact List.foldl_append

theorem hasRoom_nil (d : Disk) (folder : RawText) (base : List RawText) :
    d.HasRoom folder base [] :=
  ⟨by simp, by simp, .nil⟩

/-- Of the files that are written under the same names the last one stays. -/
theorem Layout.withFiles_apply {l : Layout} (hfits : l.Fits ((files.map Prod.fst).map (base ++ ·)))
    {names : List RawText} (hnames : names ∈ files.map Prod.fst) :
    ∃ file, (files.filter (·.1 == names)).getLast? = some file ∧
      l.withFiles base files (base ++ names) = .file (.text file.2) := by
  have hmem : ∃ file ∈ files, file.1 = names := List.mem_map.mp hnames
  have hsome : ∃ file, (files.filter (·.1 == names)).getLast? = some file := by
    obtain ⟨file, hfile, hsame⟩ := hmem
    have hkept : file ∈ files.filter (·.1 == names) := List.mem_filter.mpr ⟨hfile, by simp [hsame]⟩
    exact ⟨_, List.getLast?_eq_some_getLast (List.ne_nil_of_mem hkept)⟩
  obtain ⟨file, hfile⟩ := hsome
  refine ⟨file, hfile, ?_⟩
  have hapart : ∀ written ∈ files.map (fun file => (base ++ file.1, Content.text file.2)),
      Apart (base ++ names) written.1 := by
    intro written hwritten
    obtain ⟨other, hother, rfl⟩ := List.mem_map.mp hwritten
    exact hfits.apart_of_mem (List.mem_map_of_mem hnames)
      (List.mem_map_of_mem (List.mem_map_of_mem hother))
  have hfilter : (files.map fun file => (base ++ file.1, Content.text file.2)).filter
      (·.1 == base ++ names) =
        (files.filter (·.1 == names)).map fun file => (base ++ file.1, Content.text file.2) := by
    rw [List.filter_map]
    congr 2
    funext other
    simp
  rw [withFiles, writtenAll_apply hapart, hfilter, List.getLast?_map, hfile]
  rfl

/-- A file that shares its names with no other one stays. -/
theorem Layout.withFiles_of_mem {l : Layout}
    (hfits : l.Fits ((files.map Prod.fst).map (base ++ ·))) (hdiffer : (files.map Prod.fst).Nodup)
    {names : List RawText} {text : String} (hfile : (names, text) ∈ files) :
    l.withFiles base files (base ++ names) = .file (.text text) := by
  obtain ⟨file, hlast, hstays⟩ := withFiles_apply hfits (List.mem_map_of_mem hfile)
  obtain ⟨hmem, hsame⟩ := List.mem_filter.mp (List.mem_of_getLast? hlast)
  have heq : file = (names, text) :=
    List.inj_on_of_nodup_map hdiffer hmem hfile (by simpa using hsame)
  rw [hstays, heq]

/-- Files that do not share their names may be written again, in any order. -/
theorem Layout.withFiles_again {l : Layout} (hperm : files'.Perm files)
    (hfits : l.Fits ((files.map Prod.fst).map (base ++ ·))) (hdiffer : (files.map Prod.fst).Nodup) :
    (l.withFiles base files).withFiles base files' = l.withFiles base files := by
  refine writtenAll_eq_self ?_
  intro written hwritten
  obtain ⟨⟨names, text⟩, hfile', rfl⟩ := List.mem_map.mp hwritten
  have hfile := hperm.mem_iff.mp hfile'
  refine ⟨withFiles_of_mem hfits hdiffer hfile, ?_⟩
  intro q hq hne
  rw [← map_fst_withFiles] at hfits
  refine writtenAll_of_isPrefix hfits ?_ hq hne
  rw [map_fst_withFiles]
  exact List.mem_map_of_mem (List.mem_map_of_mem (f := Prod.fst) hfile)

/-- There is room for files where they have been written already. -/
theorem HasRoom.again (h : d.HasRoom folder base (files.map Prod.fst))
    (hlayout : d'.layout = d.layout.withFiles base files) :
    d'.HasRoom folder base (files.map Prod.fst) := by
  refine ⟨h.placeable, ?_⟩
  have hfits := h.fits
  rw [← map_fst_withFiles] at hfits ⊢
  rw [hlayout]
  exact hfits.again

theorem Puts.pure (folder : RawText) (base : List RawText) (x : α) :
    Puts folder base (Pure.pure x : Action ε α) [] x := by
  constructor
  · intro d d' y _ _
    exact hasRoom_nil d folder base
  · intro d hd _
    exact ⟨d, rfl, hd, rfl⟩

/-- The room that an action needs is all that it needs. -/
theorem Puts.on_eq_ok {a : Action ε α} {x y : α} (ha : Puts folder base a files x)
    (hd : d.Leads folder base) (hon : a.on d = (.ok y, d')) :
    y = x ∧ d.HasRoom folder base (files.map Prod.fst) ∧ d'.Leads folder base ∧
      d'.layout = d.layout.withFiles base files := by
  have hroom := ha.room hd hon
  obtain ⟨d₁, hrun, hd₁, hlayout⟩ := ha.run hd hroom
  rw [hon] at hrun
  obtain ⟨hvalue, rfl⟩ := Prod.mk.inj hrun
  exact ⟨Except.ok.inj hvalue, hroom, hd₁, hlayout⟩

/-- Two actions one after the other put the files of both. -/
theorem Puts.bind {a : Action ε α} {f : α → Action ε β} {x : α} {y : β}
    (ha : Puts folder base a files x) (hf : Puts folder base (f x) files' y) :
    Puts folder base (a >>= f) (files ++ files') y := by
  constructor
  · intro d d' z hd hon
    obtain ⟨w, d₁, hfirst, hsecond⟩ := Action.on_bind_eq_ok_iff.mp hon
    obtain ⟨rfl, hroom, hd₁, hlayout⟩ := ha.on_eq_ok hd hfirst
    rw [List.map_append]
    exact (hasRoom_append_iff hlayout).mpr ⟨hroom, hf.room hd₁ hsecond⟩
  · intro d hd hroom
    rw [List.map_append] at hroom
    have hleft : d.HasRoom folder base (files.map Prod.fst) := by
      refine ⟨fun names hnames => hroom.placeable names (List.mem_append_left _ hnames), ?_, ?_⟩
      · intro names hnames
        exact hroom.fits.admits names (List.map_subset _ (List.subset_append_left _ _) hnames)
      · exact hroom.fits.apart.sublist ((List.sublist_append_left _ _).map _)
    obtain ⟨d₁, hfirst, hd₁, hlayout⟩ := ha.run hd hleft
    obtain ⟨-, hright⟩ := (hasRoom_append_iff hlayout).mp hroom
    obtain ⟨d₂, hsecond, hd₂, hlayout₂⟩ := hf.run hd₁ hright
    refine ⟨d₂, Action.on_bind_eq_ok_iff.mpr ⟨x, d₁, hfirst, hsecond⟩, hd₂, ?_⟩
    rw [hlayout₂, hlayout, ← Layout.withFiles_append]

variable {names : List RawText} {name : RawText} {text : String}

theorem hasRoom_singleton_iff : d.HasRoom folder base [names] ↔
    Placeable folder names ∧ d.layout.Admits (base ++ names) := by
  constructor
  · intro h
    exact ⟨h.placeable names (by simp), h.fits.admits _ (by simp)⟩
  · rintro ⟨hplace, hadmits⟩
    exact ⟨by simpa using hplace, by simpa using hadmits, by simp⟩

theorem withFiles_singleton (l : Layout) (base names : List RawText) (text : String) :
    l.withFiles base [(names, text)] = l.written (base ++ names) (.text text) :=
  rfl

/-- A file that is written under one name needs no other folder. -/
theorem Puts.write_singleton (hname : IsName name) (folder : RawText) (base : List RawText)
    (text : String) :
    Puts folder base (write (under folder [name]) text) [([name], text)] () := by
  constructor
  · intro d d' y hd hon
    have hnames : ∀ other ∈ [name], IsName other := by simpa using hname
    exact hasRoom_singleton_iff.mpr (hd.of_write_under (.refl _ d) hnames (by simp) hon)
  · intro d hd hroom
    obtain ⟨hplace, hadmits⟩ := hasRoom_singleton_iff.mp hroom
    have hinit : d.layout (base ++ []) = .folder := by
      rw [List.append_nil]
      exact hd.layout
    obtain ⟨d', hon, hlayout⟩ := hd.write_under text hplace hinit hadmits.place
    have hgrown : ((write (under folder [name]) text).on d).2.GrownFrom (fun _ => True) d :=
      .write fun _ _ => trivial
    rw [List.nil_append] at hon
    rw [hon] at hgrown
    exact ⟨d', hon, hd.of_grownFrom hgrown, hlayout⟩

/-- A file that is written with its folders. -/
theorem Puts.write_parents (hnames : ∀ name ∈ names, IsName name) (hne : names ≠ [])
    (folder : RawText) (base : List RawText) (text : String) :
    Puts folder base (do makeParents (under folder names); write (under folder names) text)
      [(names, text)] () := by
  constructor
  · intro d d' y hd hon
    obtain ⟨_, d₁, hparents, hwrite⟩ := Action.on_bind_eq_ok_iff.mp hon
    have hgrown := GrownFrom.makeParents (fun _ => False) (under folder names) d
    rw [hparents] at hgrown
    exact hasRoom_singleton_iff.mpr (hd.of_write_under hgrown hnames hne hwrite)
  · intro d hd hroom
    obtain ⟨hplace, hadmits⟩ := hasRoom_singleton_iff.mp hroom
    obtain ⟨init, last, rfl⟩ := (names.eq_nil_or_concat).resolve_left hne
    rw [List.concat_eq_append] at hplace hadmits ⊢
    have hway : ∀ q, q <+: base ++ init → ∀ content, d.layout q ≠ .file content := by
      intro q hq content
      rw [← List.append_assoc] at hadmits
      refine hadmits.way q (hq.trans (List.prefix_append _ _)) ?_ content
      rintro rfl
      have hlong := hq.length_le
      simp only [List.length_append, List.length_singleton] at hlong
      omega
    obtain ⟨d₁, hparents, hlayout₁⟩ := hd.makeParents_under hplace hway
    have hgrown := GrownFrom.makeParents (fun _ => False) (under folder (init ++ [last])) d
    rw [hparents] at hgrown
    have hd₁ := hd.of_grownFrom hgrown
    have hinit : d₁.layout (base ++ init) = .folder := by
      rw [hlayout₁, Layout.opened, if_pos List.prefix_rfl]
    have hfree : d₁.layout (base ++ (init ++ [last])) ≠ .folder := by
      rw [hlayout₁, Layout.opened, if_neg]
      · exact hadmits.place
      · intro hprefix
        have hlong := hprefix.length_le
        simp only [List.length_append, List.length_singleton] at hlong
        omega
    obtain ⟨d₂, hon, hlayout₂⟩ := hd₁.write_under text hplace hinit hfree
    have hgrown₂ : ((write (under folder (init ++ [last])) text).on d₁).2.GrownFrom
        (fun _ => True) d₁ := .write fun _ _ => trivial
    rw [hon] at hgrown₂
    refine ⟨d₂, Action.on_bind_eq_ok_iff.mpr ⟨(), d₁, hparents, hon⟩,
      hd₁.of_grownFrom hgrown₂, ?_⟩
    rw [hlayout₂, hlayout₁, withFiles_singleton, ← List.append_assoc, Layout.written_opened]

end StaticPreview.Disk
