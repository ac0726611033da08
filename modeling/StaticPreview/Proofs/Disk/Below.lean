import StaticPreview.Proofs.Disk.Action
import StaticPreview.Proofs.Disk.Written

/-! # Files below a folder

A file can be put under names below a folder, with the folders on its way, if the names and the
path can be those of a file and nothing stands in the way. Then it stands there with its folders,
and all else is as it was.
-/
namespace StaticPreview.Disk
open StaticPreview.Path Text

structure Leads (d : Disk) (folder : RawText) (base : List RawText) : Prop where
  wellFormed : d.WellFormed
  walk : d.walk folder = .ok base
  layout : d.layout base = .folder

/-- Whether names below a folder can be those of a file, whatever stands there. -/
structure Placeable (folder : RawText) (names : List RawText) : Prop where
  ne_nil : names ≠ []
  named : ∀ name ∈ names, IsName name ∧ name.size ≤ longestName
  check : (checkPath (under folder names)).isOk

instance (folder : RawText) (names : List RawText) : Decidable (Placeable folder names) :=
  decidable_of_iff (names ≠ [] ∧ (∀ name ∈ names, IsName name ∧ name.size ≤ longestName) ∧
    (checkPath (under folder names)).isOk) ⟨fun h => ⟨h.1, h.2.1, h.2.2⟩, fun h => ⟨h.1, h.2, h.3⟩⟩

variable {d d' d₁ d₂ : Disk} {folder : RawText} {text : String} {base names init : List RawText}
  {name : RawText}

theorem Placeable.isName (h : Placeable folder names) : ∀ name ∈ names, IsName name :=
  fun name hname => (h.named name hname).1

theorem Leads.of_grownFrom {own : RawText → Prop} (h : d.Leads folder base)
    (hgrown : d'.GrownFrom own d) : d'.Leads folder base :=
  ⟨hgrown.wellFormed h.wellFormed, hgrown.hasFoldersOf.walk h.walk,
    hgrown.hasFoldersOf.folder base h.layout⟩

/-- What a folder lies in are folders. -/
theorem layout_of_isPrefix {q : List RawText} (hnames : d.layout names = .folder)
    (hq : q <+: names) :
    d.layout q = .folder := by
  obtain ⟨more, rfl⟩ := hq
  by_cases hmore : more = []
  · rwa [hmore, List.append_nil] at hnames
  · exact layout_eq_folder_of_append hmore (by simp [hnames])

theorem opened_of_folder (hnames : d.layout names = .folder) :
    d.layout.opened names = d.layout := by
  funext q
  rw [Layout.opened]
  split
  next hq => exact (layout_of_isPrefix hnames hq).symm
  next => rfl

theorem Leads.walk_under (h : d.Leads folder base) (hnames : ∀ name ∈ names, IsName name)
    (hne : names ≠ []) :
    d.walk (under folder names) = (names.map RawText.toList).foldlM d.follow base := by
  have hlead := (walk_eq_ok_iff_lead h.layout folder).mp h.walk
  rw [Disk.walk, pieces_under folder hnames hne, isAbsolute_under folder hnames hne,
    List.foldlM_append, hlead]
  rfl

/-- Where no file is on the way, names lead on or nothing is there. -/
theorem foldlM_follow_of_no_file {start : List RawText}
    (hnames : ∀ name ∈ names, IsName name ∧ name.size ≤ longestName)
    (hway : ∀ q, q <+: start ++ names → ∀ content, d.layout q ≠ .file content) :
    (names.map RawText.toList).foldlM d.follow start = .ok (start ++ names) ∨
      (names.map RawText.toList).foldlM d.follow start = .error .notFound := by
  induction names generalizing start with
  | nil => exact .inl (by rw [List.append_nil]; rfl)
  | cons name more ih =>
    obtain ⟨hname, hmore⟩ := List.forall_mem_cons.mp hnames
    rw [List.map_cons, List.foldlM_cons, follow_eq]
    cases hstart : d.layout start with
    | nothing => exact .inr rfl
    | file content => exact absurd hstart (hway start (List.prefix_append start _) content)
    | folder =>
      rw [hname.1.component?]
      dsimp only
      rw [if_neg (Nat.not_lt.mpr hname.2)]
      have hrest : ∀ q, q <+: start ++ [name] ++ more → ∀ content, d.layout q ≠ .file content := by
        simpa using hway
      have hstep := ih hmore hrest
      rw [List.append_assoc, List.singleton_append] at hstep
      exact hstep

theorem under_ne_empty (hnames : ∀ name ∈ names, IsName name) (hne : names ≠ []) :
    under folder names ≠ "" := by
  intro hempty
  obtain ⟨init, last, rfl⟩ := (names.eq_nil_or_concat).resolve_left hne
  rw [List.concat_eq_append] at hnames hempty
  have hpieces := pieces_under folder hnames (by simp)
  rw [hempty, List.map_append, ← List.append_assoc] at hpieces
  have hlast : (Path.pieces ("" : RawText)).getLast? = some last.toList := by simp [hpieces]
  exact (hnames last (by simp)).1 (by simp [← Option.some.inj hlast])

theorem getLast?_under (hnames : ∀ name ∈ names, IsName name) (hne : names ≠ []) :
    (under folder names).toList.getLast? ≠ some slash := by
  obtain ⟨init, last, rfl⟩ := (names.eq_nil_or_concat).resolve_left hne
  rw [List.concat_eq_append] at hnames ⊢
  have hpieces := pieces_under folder hnames (by simp)
  rw [List.map_append, ← List.append_assoc] at hpieces
  refine getLast?_ne_slash_of_pieces hpieces ?_
  intro hempty
  exact (hnames last (by simp)).1 (by simp [hempty])

theorem isOk_checkPath_of_pieces {p q : RawText} {more : List (List UInt8)} (hne : p ≠ "")
    (hpieces : Path.pieces q = Path.pieces p ++ more) (h : (checkPath q).isOk) :
    (checkPath p).isOk := by
  obtain ⟨rest, rfl⟩ := exists_append_of_pieces hpieces
  rw [isOk_checkPath_iff, RawText.toList_append, RawText.size_append] at h
  obtain ⟨-, hnul, hsize⟩ := h
  refine isOk_checkPath_iff.mpr ⟨fun hempty => hne (RawText.toList_eq_nil_iff.mp hempty), ?_, ?_⟩
  · intro hmem
    exact hnul (List.mem_append_left _ hmem)
  · omega

theorem isOk_checkPath_under_of_append {more : List RawText}
    (hnames : ∀ name ∈ names ++ more, IsName name) (hne : names ≠ [])
    (h : (checkPath (under folder (names ++ more))).isOk) :
    (checkPath (under folder names)).isOk := by
  have hleft := (List.forall_mem_append.mp hnames).1
  have hpieces : Path.pieces (under folder (names ++ more)) =
      Path.pieces (under folder names) ++ more.map RawText.toList := by
    rw [pieces_under folder hnames (by simp [hne]), pieces_under folder hleft hne, List.map_append,
      List.append_assoc]
  exact isOk_checkPath_of_pieces (under_ne_empty hleft hne) hpieces h

theorem Placeable.of_append {more : List RawText} (h : Placeable folder (names ++ more))
    (hne : names ≠ []) : Placeable folder names :=
  ⟨hne, (List.forall_mem_append.mp h.named).1, isOk_checkPath_under_of_append h.isName hne h.check⟩

/-- A folder is made in a folder that is there, unless a file stands in its place. -/
theorem Leads.ensureFolder_under (h : d.Leads folder base)
    (hplace : Placeable folder (init ++ [name])) (hinit : d.layout (base ++ init) = .folder)
    (hfile : ∀ content, d.layout (base ++ (init ++ [name])) ≠ .file content) :
    ∃ d', (ensureFolder (under folder (init ++ [name]))).on d = (.ok (), d') ∧
      d'.layout = d.layout.opened (base ++ (init ++ [name])) := by
  have hwalk := (walk_under_eq_ok_iff_layout h.wellFormed h.walk h.layout hplace.isName).mpr
    ⟨rfl, hinit, (hplace.named name (by simp)).2⟩
  cases hthere : d.layout (base ++ (init ++ [name])) with
  | file content => exact absurd hthere (hfile content)
  | folder =>
    have hfolder : d.holdsFolder (under folder (init ++ [name])) :=
      holdsFolder_iff.mpr ⟨hplace.check, _, hwalk, hthere⟩
    exact ⟨d, ensureFolder_on_of_holdsFolder hfolder, (opened_of_folder hthere).symm⟩
  | nothing =>
    refine ⟨d.put (base ++ (init ++ [name])) .emptyFolder, ?_, ?_⟩
    · rw [ensureFolder_on, makeFolder_on, locateTrimmed_eq hplace.check, walk_trimSlashes hwalk]
      dsimp only
      rw [if_pos hthere]
    · rw [← List.append_assoc] at hthere ⊢
      funext q
      rw [layout_put_emptyFolder hinit (by rw [hthere]; simp), Layout.opened]
      by_cases hq : q = base ++ init ++ [name]
      · rw [if_pos hq, if_pos (hq ▸ List.prefix_rfl)]
      · rw [if_neg hq]
        split
        next hway =>
          rw [List.prefix_concat_iff] at hway
          exact layout_of_isPrefix hinit (hway.resolve_left hq)
        next => rfl

/-- A folder is not made where the one that it would be in is missing. -/
theorem Leads.ensureFolder_under_of_not_folder (h : d.Leads folder base)
    (hplace : Placeable folder (init ++ [name])) (hinit : d.layout (base ++ init) ≠ .folder)
    (hway : ∀ q, q <+: base ++ (init ++ [name]) → ∀ content, d.layout q ≠ .file content) :
    (ensureFolder (under folder (init ++ [name]))).on d = (.error .notFound, d) := by
  have hwalk : d.walk (under folder (init ++ [name])) = .error .notFound := by
    rw [h.walk_under hplace.isName (by simp)]
    refine (foldlM_follow_of_no_file hplace.named hway).resolve_left ?_
    intro hok
    rw [← h.walk_under hplace.isName (by simp)] at hok
    exact hinit ((walk_under_eq_ok_iff_layout h.wellFormed h.walk h.layout
      hplace.isName).mp hok).2.1
  have hnone : ¬ d.holdsFolder (under folder (init ++ [name])) := by
    simp [holdsFolder_iff, hwalk]
  rw [ensureFolder_on, makeFolder_on, locateTrimmed_eq hplace.check,
    trimSlashes_of_getLast? (getLast?_under hplace.isName (by simp)), hwalk]
  exact if_neg hnone

theorem go_ancestors_under {n : Nat} (hnames : ∀ other ∈ init ++ [name], IsName other)
    (hinit : init ≠ []) :
    ancestors.go (n + 1) (under folder (init ++ [name])) =
      under folder (init ++ [name]) :: ancestors.go n (under folder init) := by
  have hempty : (under folder (init ++ [name])).toList ≠ [] := fun h =>
    under_ne_empty hnames (by simp) (RawText.toList_eq_nil_iff.mp h)
  rw [ancestors.go, if_neg hempty, parent?_under folder hnames hinit]

theorem exists_go_ancestors_under (n : Nat) (folder : RawText)
    (hnames : ∀ name ∈ names, IsName name) (hne : names ≠ []) :
    ∃ parents, ancestors.go (n + 1) (under folder names) = under folder names :: parents := by
  have hempty : (under folder names).toList ≠ [] := fun h =>
    under_ne_empty hnames hne (RawText.toList_eq_nil_iff.mp h)
  rw [ancestors.go, if_neg hempty]
  split
  · exact ⟨_, rfl⟩
  · exact ⟨[], rfl⟩

/-- Folders are made all the way down, unless a file is on the way. -/
theorem Leads.makeFoldersAlong_under {n : Nat} (h : d.Leads folder base)
    (hplace : Placeable folder names) (hn : names.length ≤ n)
    (hway : ∀ q, q <+: base ++ names → ∀ content, d.layout q ≠ .file content) :
    ∃ d', (makeFoldersAlong (ancestors.go n (under folder names))).on d = (.ok (), d') ∧
      d'.layout = d.layout.opened (base ++ names) := by
  induction hlength : names.length generalizing names n with
  | zero => exact absurd (List.length_eq_zero_iff.mp hlength) hplace.ne_nil
  | succ length ih =>
    obtain ⟨init, name, rfl⟩ := (names.eq_nil_or_concat).resolve_left hplace.ne_nil
    rw [List.concat_eq_append] at hplace hn hway hlength ⊢
    obtain ⟨n, rfl⟩ : ∃ m, n = m + 1 := ⟨n - 1, by omega⟩
    by_cases hinit : d.layout (base ++ init) = .folder
    · obtain ⟨d', hon, hlayout⟩ :=
        h.ensureFolder_under hplace hinit (hway _ List.prefix_rfl)
      obtain ⟨parents, hparents⟩ :=
        exists_go_ancestors_under n folder hplace.isName (by simp)
      refine ⟨d', ?_, hlayout⟩
      rw [hparents, makeFoldersAlong_on, hon]
    · -- The folder above is not there, so it is made first.
      have hne : init ≠ [] := by
        rintro rfl
        rw [List.append_nil] at hinit
        exact hinit h.layout
      have hfail := h.ensureFolder_under_of_not_folder hplace hinit hway
      have hup : init.length = length := by simpa using hlength
      have hwayUp : ∀ q, q <+: base ++ init → ∀ content, d.layout q ≠ .file content := by
        intro q hq
        refine hway q (hq.trans ?_)
        rw [← List.append_assoc]
        exact List.prefix_append _ _
      obtain ⟨d₁, hparents, hlayout₁⟩ :=
        ih (n := n) (hplace.of_append hne) (by simpa using hn) hwayUp hup
      have hgrown := GrownFrom.makeFoldersAlong (fun _ => False)
        (ancestors.go n (under folder init)) d
      rw [hparents] at hgrown
      have hinit₁ : d₁.layout (base ++ init) = .folder := by
        rw [hlayout₁, Layout.opened, if_pos List.prefix_rfl]
      have hfile₁ : ∀ content, d₁.layout (base ++ (init ++ [name])) ≠ .file content := by
        intro content
        rw [hlayout₁, Layout.opened]
        split
        · simp
        · exact hway _ List.prefix_rfl content
      obtain ⟨d₂, hon, hlayout₂⟩ :=
        (h.of_grownFrom hgrown).ensureFolder_under hplace hinit₁ hfile₁
      refine ⟨d₂, ?_, ?_⟩
      · rw [go_ancestors_under hplace.isName hne, makeFoldersAlong_on, hfail]
        dsimp only
        rw [if_neg (by simp), hparents]
        exact hon
      · rw [hlayout₂, hlayout₁, ← List.append_assoc, Layout.opened_opened_concat]

/-- Making the folders that a path lies in. -/
def makeParents (path : RawText) : Action DiskError Unit :=
  match parent? path with
  | some parent => makeFolders parent
  | none => pure ()

theorem GrownFrom.makeParents (own : RawText → Prop) (path : RawText) (d : Disk) :
    ((makeParents path).on d).2.GrownFrom own d := by
  rw [Disk.makeParents]
  split
  · exact .makeFolders own _ d
  · exact .refl own d

theorem eq_of_foldlM_follow_idle {idle : List (List UInt8)} {start r : List RawText}
    (hidle : ∀ piece ∈ idle, component? piece = none) (h : idle.foldlM d.follow start = .ok r) :
    r = start := by
  have hnone : idle.filterMap component? = ([] : List RawText).map .name :=
    List.filterMap_eq_nil_iff.mpr hidle
  simpa using eq_of_foldlM_follow hnone h

/-- Another spelling of a folder leads there, too. -/
theorem Leads.holdsFolder_of_lead (h : d.Leads folder base) (hne : folder ≠ "") {path : RawText}
    {idle : List (List UInt8)} (hidle : ∀ piece ∈ idle, component? piece = none)
    (hpath : (path = "/" ∧ leadPieces folder = [] :: idle) ∨
      (path ≠ "" ∧ leadPieces folder = Path.pieces path ++ idle))
    (hcheck : (checkPath path).isOk) : d.holdsFolder path := by
  have hlead := (walk_eq_ok_iff_lead h.layout folder).mp h.walk
  obtain ⟨-, hpieces⟩ := pieces_eq_lead hne
  have hends : ∃ idle', Path.pieces folder = leadPieces folder ++ idle' := by
    rcases hpieces with hpieces | hpieces
    · exact ⟨[], by rw [hpieces, List.append_nil]⟩
    · exact ⟨[[]], hpieces⟩
  obtain ⟨idle', hends⟩ := hends
  refine holdsFolder_iff.mpr ⟨hcheck, base, ?_, h.layout⟩
  rcases hpath with ⟨rfl, hroot⟩ | ⟨hnonempty, hkept⟩
  · have habsolute : isAbsolute folder := by
      rw [isAbsolute_iff_pieces, hends, hroot]
      cases idle with
      | cons piece more => exact ⟨piece, more ++ idle', rfl⟩
      | nil =>
        cases idle' with
        | cons piece more => exact ⟨piece, more, rfl⟩
        | nil =>
          rw [hroot] at hends
          exact absurd (joinPieces_pieces folder ▸ hends ▸ rfl) hne
    rw [if_pos habsolute, hroot] at hlead
    have hidle' : ∀ piece ∈ [] :: idle, component? piece = none :=
      List.forall_mem_cons.mpr ⟨rfl, hidle⟩
    obtain rfl := eq_of_foldlM_follow_idle hidle' hlead
    have hslash : d.walk "/" = (List.replicate 2 []).foldlM d.follow [] := rfl
    rw [hslash]
    exact foldlM_follow_replicate.mpr ⟨rfl, .inr h.layout⟩
  · rw [hkept, foldlM_follow_append] at hlead
    obtain ⟨mid, hmid, hend⟩ := hlead
    obtain rfl := eq_of_foldlM_follow_idle hidle hend
    have hspelled : Path.pieces folder = Path.pieces path ++ (idle ++ idle') := by
      rw [hends, hkept, List.append_assoc]
    obtain ⟨rest, rfl⟩ := exists_append_of_pieces hspelled
    rw [isAbsolute_append hnonempty] at hmid
    exact hmid

/-- The folder that a name is put in is there already, however it is spelled. -/
theorem Leads.makeParents_under_singleton (h : d.Leads folder base)
    (hplace : Placeable folder [name]) :
    (makeParents (under folder [name])).on d = (.ok (), d) := by
  have hname : IsName name := hplace.isName name (by simp)
  by_cases hempty : folder = ""
  · subst hempty
    rw [makeParents, parent?_under_empty hname]
    exact makeFolders_empty d
  · obtain ⟨path, idle, hparent, hidle, hpath⟩ := parent?_under_singleton hempty hname
    rw [makeParents, hparent]
    refine makeFolders_on_of_holdsFolder (h.holdsFolder_of_lead hempty hidle hpath ?_)
    rcases hpath with ⟨rfl, -⟩ | ⟨hnonempty, hkept⟩
    · rfl
    · have hpieces := pieces_under folder hplace.isName (by simp)
      rw [hkept, List.append_assoc] at hpieces
      exact isOk_checkPath_of_pieces hnonempty hpieces hplace.check

/-- Where no file is in the way, the parents of a place are made and nothing else. -/
theorem Leads.makeParents_under (h : d.Leads folder base)
    (hplace : Placeable folder (init ++ [name]))
    (hway : ∀ q, q <+: base ++ init → ∀ content, d.layout q ≠ .file content) :
    ∃ d', (makeParents (under folder (init ++ [name]))).on d = (.ok (), d') ∧
      d'.layout = d.layout.opened (base ++ init) := by
  by_cases hinit : init = []
  · subst hinit
    refine ⟨d, h.makeParents_under_singleton hplace, ?_⟩
    rw [List.append_nil, opened_of_folder h.layout]
  · rw [makeParents, parent?_under folder hplace.isName hinit]
    dsimp only
    rw [makeFolders, ancestors]
    refine h.makeFoldersAlong_under (hplace.of_append hinit) ?_ hway
    rw [pieces_under folder (hplace.of_append hinit).isName hinit]
    simp

/-- Puts a text under names below a folder. -/
theorem Leads.write_under (h : d.Leads folder base) (text : String)
    (hplace : Placeable folder (init ++ [name])) (hinit : d.layout (base ++ init) = .folder)
    (hfolder : d.layout (base ++ (init ++ [name])) ≠ .folder) :
    ∃ d', (write (under folder (init ++ [name])) text).on d = (.ok (), d') ∧
      d'.layout = d.layout.written (base ++ (init ++ [name])) (.text text) := by
  have hwalk := (walk_under_eq_ok_iff_layout h.wellFormed h.walk h.layout hplace.isName).mpr
    ⟨rfl, hinit, (hplace.named name (by simp)).2⟩
  refine ⟨_,
    write_on_of_walk hplace.check hwalk (getLast?_under hplace.isName (by simp)) hfolder, ?_⟩
  rw [← List.append_assoc] at hfolder ⊢
  funext q
  rw [layout_put_file hinit hfolder, Layout.written]
  split
  · rfl
  next hq =>
    split
    next hway =>
      rw [List.prefix_concat_iff] at hway
      exact layout_of_isPrefix hinit (hway.resolve_left hq)
    next => rfl

/-- Where a text was written below a folder there was room for it. -/
theorem Leads.of_write_under (h : d.Leads folder base) (hd : d₁.GrownFrom (fun _ => False) d)
    (hnames : ∀ name ∈ names, IsName name) (hne : names ≠ [])
    (hon : (write (under folder names) text).on d₁ = (.ok (), d₂)) :
    Placeable folder names ∧ d.layout.Admits (base ++ names) := by
  have h₁ := h.of_grownFrom hd
  obtain ⟨init, name, rfl⟩ := (names.eq_nil_or_concat).resolve_left hne
  rw [List.concat_eq_append] at hnames hon ⊢
  rcases write_cases (under folder (init ++ [name])) text d₁ with ⟨cause, hfail⟩ |
    ⟨way, last, hcheck, hwalk, hway, hfree, -⟩
  · simp [hfail] at hon
  · obtain ⟨hthere, hinit, hsize⟩ := (walk_under_eq_ok_iff_layout h₁.wellFormed h₁.walk h₁.layout
      hnames).mp hwalk
    rw [hthere] at hfree
    have hbelow : d₁.layout (base ++ init) ≠ .nothing := by simp [hinit]
    have hnamed := h₁.wellFormed.forall_name hbelow
    have hlast : IsName name := hnames name (by simp)
    refine ⟨⟨by simp, ?_, hcheck⟩, ?_, ?_⟩
    · have hmore := (List.forall_mem_append.mp hnamed).2
      exact List.forall_mem_append.mpr ⟨hmore, by simp [hlast, hsize]⟩
    · intro q hq hdiffer content hfile
      rw [← List.append_assoc] at hq hdiffer
      rw [List.prefix_concat_iff] at hq
      have hfolder := layout_of_isPrefix hinit (hq.resolve_left hdiffer)
      rcases hd.layout q with hsame | ⟨hnothing, -⟩ | ⟨-, _, _, _, -, hno, -⟩
      · simp [hsame, hfile] at hfolder
      · simp [hfile] at hnothing
      · exact hno
    · intro hfolder
      exact hfree (hd.hasFoldersOf.folder _ hfolder)

/-- A text that stands at names below a folder is read there. -/
theorem Leads.read_under (h : d.Leads folder base) (hplace : Placeable folder names)
    (hfile : d.layout (base ++ names) = .file (.text text)) :
    d.read (under folder names) = .ok text := by
  obtain ⟨init, name, rfl⟩ := (names.eq_nil_or_concat).resolve_left hplace.ne_nil
  rw [List.concat_eq_append] at hplace hfile ⊢
  have hinit : d.layout (base ++ init) = .folder := by
    have hbelow : d.layout (base ++ init ++ [name]) ≠ .nothing := by
      rw [List.append_assoc, hfile]
      simp
    exact layout_eq_folder_of_append (by simp) hbelow
  have hwalk := (walk_under_eq_ok_iff_layout h.wellFormed h.walk h.layout hplace.isName).mpr
    ⟨rfl, hinit, (hplace.named name (by simp)).2⟩
  have hat : d.entryAt? (base ++ (init ++ [name])) = some (.file (.text text)) :=
    Entry.layout_eq_file_iff.mp hfile
  have hfind : d.find (under folder (init ++ [name])) = .ok (.file (.text text)) := by
    have hcheck := hplace.check
    rw [find, locate]
    cases hresult : checkPath (under folder (init ++ [name])) with
    | error cause => simp [hresult, Except.isOk, Except.toBool] at hcheck
    | ok u =>
      simp only [bind, Except.bind, hwalk, hat]
      rfl
  rw [read, hfind]
  rfl

end StaticPreview.Disk
