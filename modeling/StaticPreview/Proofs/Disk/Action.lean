import StaticPreview.Proofs.Disk.Kept
import StaticPreview.Proofs.Disk.Walk

/-! # What actions do to a disk

A single action that fails leaves the disk as it was. One that succeeds puts a file or an empty
folder under a name in a folder that is there, and changes the layout at that place and nowhere
else. Making folders adds folders where nothing stood, whether or not it succeeds in the end.
-/
namespace StaticPreview.Disk
open StaticPreview.Path Text

section
variable {ε α β : Type}

def Action.on (a : Action ε α) (d : Disk) : Except ε α × Disk := a.run.run d

theorem Action.on_bind (a : Action ε α) (f : α → Action ε β) (d : Disk) :
    (a >>= f).on d =
      match a.on d with
      | (.ok x, d') => (f x).on d'
      | (.error e, d') => (.error e, d') := by
  have hbind : (a >>= f).on d = (ExceptT.bindCont f (a.on d).1).run (a.on d).2 := rfl
  rw [hbind]
  obtain ⟨r | x, d'⟩ := a.on d <;> rfl

/-- What two actions yield one after the other the second yields where the first has left off. -/
theorem Action.on_bind_eq_ok_iff {a : Action ε α} {f : α → Action ε β} {y : β} {d d' : Disk} :
    (a >>= f).on d = (.ok y, d') ↔
      ∃ x d₁, a.on d = (.ok x, d₁) ∧ (f x).on d₁ = (.ok y, d') := by
  rw [Action.on_bind]
  obtain ⟨e | x, d₁⟩ := a.on d
  · simp
  · constructor
    · intro h
      exact ⟨x, d₁, rfl, h⟩
    · rintro ⟨x, d₁, hfirst, h⟩
      obtain ⟨hvalue, rfl⟩ := Prod.mk.inj hfirst
      rwa [← Except.ok.inj hvalue] at h

theorem Action.on_get (d : Disk) : (get : Action ε Disk).on d = (.ok d, d) := rfl

theorem Action.on_liftM (found : Except ε α) (d : Disk) :
    (liftM found : Action ε α).on d = (found, d) := by
  cases found <;> rfl

theorem Action.on_tryCatch (a : Action ε α) (handle : ε → Action ε α) (d : Disk) :
    (tryCatch a handle).on d =
      match a.on d with
      | (.ok x, d') => (.ok x, d')
      | (.error e, d') => (handle e).on d' := by
  have htry : (tryCatch a handle).on d =
      (match (a.on d).1 with
        | .ok x => (pure (Except.ok x) : StateM Disk (Except ε α))
        | .error e => (handle e).run).run (a.on d).2 := rfl
  rw [htry]
  obtain ⟨r | x, d'⟩ := a.on d <;> rfl

end

/-- A write fails and changes nothing, or puts the file where the path leads. -/
theorem write_on (path : RawText) (text : String) (d : Disk) :
    (write path text).on d =
      match d.locateTrimmed path with
      | .error e => (.error e, d)
      | .ok names =>
        if path.toList.getLast? = some slash then (.error .isAFolder, d)
        else if d.layout names = .folder then (.error .isAFolder, d)
        else (.ok (), d.put names (.file (.text text))) := by
  rw [write, Action.on_bind, Action.on_get]
  dsimp only
  rw [Action.on_bind, Action.on_liftM]
  cases d.locateTrimmed path with
  | error e => rfl
  | ok names =>
    dsimp only
    split
    · rfl
    · unfold layout Entry.layout entryAt?
      cases d.top.at? names with
      | none => rfl
      | some e => cases e <;> rfl

/-- A folder is only made where nothing is. -/
theorem makeFolder_on (path : RawText) (d : Disk) :
    (makeFolder path).on d =
      match d.locateTrimmed path with
      | .error e => (.error e, d)
      | .ok names =>
        if d.layout names = .nothing then (.ok (), d.put names .emptyFolder)
        else (.error .alreadyExists, d) := by
  rw [makeFolder, Action.on_bind, Action.on_get]
  dsimp only
  rw [Action.on_bind, Action.on_liftM]
  cases d.locateTrimmed path with
  | error e => rfl
  | ok names =>
    dsimp only
    unfold layout Entry.layout entryAt?
    cases d.top.at? names with
    | none => rfl
    | some e => cases e <;> rfl

theorem ensureFolder_on (path : RawText) (d : Disk) :
    (ensureFolder path).on d =
      match (makeFolder path).on d with
      | (.ok _, d') => (.ok (), d')
      | (.error e, d') => if d'.holdsFolder path then (.ok (), d') else (.error e, d') := by
  rw [ensureFolder, Action.on_tryCatch]
  obtain ⟨e | x, d'⟩ := (makeFolder path).on d
  · dsimp only
    rw [Action.on_bind, Action.on_get]
    dsimp only
    split <;> rfl
  · rfl

theorem makeFoldersAlong_on (path : RawText) (parents : List RawText) (d : Disk) :
    (makeFoldersAlong (path :: parents)).on d =
      match (ensureFolder path).on d with
      | (.ok _, d') => (.ok (), d')
      | (.error e, d') =>
        if e ≠ .notFound then (.error e, d')
        else
          match (makeFoldersAlong parents).on d' with
          | (.ok _, d'') => (ensureFolder path).on d''
          | (.error e, d'') => (.error e, d'') := by
  rw [makeFoldersAlong, Action.on_tryCatch]
  obtain ⟨e | x, d'⟩ := (ensureFolder path).on d
  · dsimp only
    split
    · rfl
    · rw [Action.on_bind]
      obtain ⟨e' | x, d''⟩ := (makeFoldersAlong parents).on d' <;> rfl
  · rfl

variable {d d' : Disk} {path : RawText} {text : String} {names init : List RawText} {name : RawText}

/-- An entry that is put in place of what is no folder changes the layout at its own names only. -/
theorem layout_put {new : Entry} (hinit : d.layout init = .folder)
    (hplace : d.layout (init ++ [name]) ≠ .folder)
    (hnew : ∀ more, more ≠ [] → new.at? more = none) (other : List RawText) :
    (d.put (init ++ [name]) new).layout other =
      if other = init ++ [name] then new.standing else d.layout other := by
  refine Entry.layout_put (.inr ?_) hplace hnew other
  rw [List.dropLast_concat]
  exact hinit

theorem layout_put_file {content : Content} (hinit : d.layout init = .folder)
    (hplace : d.layout (init ++ [name]) ≠ .folder) (other : List RawText) :
    (d.put (init ++ [name]) (.file content)).layout other =
      if other = init ++ [name] then .file content else d.layout other :=
  layout_put hinit hplace (fun _ hmore => Entry.at?_file hmore) other

theorem layout_put_emptyFolder (hinit : d.layout init = .folder)
    (hplace : d.layout (init ++ [name]) ≠ .folder) (other : List RawText) :
    (d.put (init ++ [name]) .emptyFolder).layout other =
      if other = init ++ [name] then .folder else d.layout other := by
  refine layout_put hinit hplace ?_ other
  intro more hmore
  obtain ⟨first, rest, rfl⟩ := List.exists_cons_of_ne_nil hmore
  rfl

/-- A disk stays well-formed when an entry with a possible name is put into a folder. -/
theorem WellFormed.put (hd : d.WellFormed) {new : Entry} (hinit : d.layout init = .folder)
    (hname : IsName name ∧ name.size ≤ longestName) (hnew : new.WellNamed) :
    (d.put (init ++ [name]) new).WellFormed := by
  have hnames : ∀ other ∈ init ++ [name], IsName other ∧ other.size ≤ longestName := by
    have hthere : d.layout init ≠ .nothing := by simp [hinit]
    exact List.forall_mem_append.mpr ⟨hd.forall_name hthere, by simpa using hname⟩
  refine ⟨?_, hd.wellNamed_top.put hnew hnames⟩
  obtain ⟨first, rest, hcons⟩ := List.exists_cons_of_ne_nil (l := init ++ [name]) (by simp)
  rw [Disk.put, hcons]
  rfl

/-- Files of a kind are listed as before when a file of another kind or an empty folder is put. -/
theorem filesOfKind_of_put {new : Entry} {skip kind : RawText → Bool} {base : List RawText}
    {es es' : List (RawText × Entry)} (hinit : d.layout init = .folder)
    (hplace : d.layout (init ++ [name]) ≠ .folder)
    (hnew : (d.layout (init ++ [name]) = .nothing ∧ new = .emptyFolder) ∨
      ((init ++ [name]).getLast?.any kind = false ∧ ∃ content, new = .file content))
    (hat : d.entryAt? base = some (.folder es))
    (hat' : (d.put (init ++ [name]) new).entryAt? base = some (.folder es')) :
    (Entry.folder es').filesOfKind skip kind = (Entry.folder es).filesOfKind skip kind := by
  have hway : d.top.layout (init ++ [name]).dropLast = .folder := by
    rw [List.dropLast_concat]
    exact hinit
  obtain ⟨after, hput, hsame⟩ := Entry.filesOfKind_at?_put hway hplace hnew hat
  obtain rfl := Entry.folder.inj (Option.some.inj (hput.symm.trans hat'))
  exact hsame

theorem isOk_locateTrimmed (h : d.locateTrimmed path = .ok names) :
    (checkPath path).isOk ∧ d.walk (trimSlashes path) = .ok names := by
  rw [locateTrimmed] at h
  cases hcheck : checkPath path with
  | error cause => simp [hcheck, bind, Except.bind] at h
  | ok u =>
    simp only [hcheck, bind, Except.bind] at h
    exact ⟨rfl, h⟩

theorem locateTrimmed_eq (hcheck : (checkPath path).isOk) :
    d.locateTrimmed path = d.walk (trimSlashes path) := by
  rw [locateTrimmed]
  cases h : checkPath path with
  | error cause => simp [h, Except.isOk, Except.toBool] at hcheck
  | ok u => simp only [bind, Except.bind]

/-- Writing fails, or puts a file under a name in a folder that is there. -/
theorem write_cases (path : RawText) (text : String) (d : Disk) :
    (∃ cause, (write path text).on d = (.error cause, d)) ∨
      ∃ init name, (checkPath path).isOk ∧ d.walk path = .ok (init ++ [name]) ∧
        d.layout init = .folder ∧ d.layout (init ++ [name]) ≠ .folder ∧
        (IsName name ∧ name.size ≤ longestName) ∧
        (Path.pieces path).getLast? = some name.toList ∧
        (write path text).on d = (.ok (), d.put (init ++ [name]) (.file (.text text))) := by
  rw [write_on]
  cases hlocate : d.locateTrimmed path with
  | error cause => exact .inl ⟨cause, rfl⟩
  | ok names =>
    obtain ⟨hcheck, hwalk⟩ := isOk_locateTrimmed hlocate
    dsimp only
    split
    · exact .inl ⟨_, rfl⟩
    next hslash =>
      split
      · exact .inl ⟨_, rfl⟩
      next hplace =>
        rw [trimSlashes_of_getLast? hslash] at hwalk
        obtain ⟨init, name, rfl, hinit, hname, hlast⟩ := (walk_cases hwalk).resolve_left hplace
        exact .inr ⟨init, name, hcheck, hwalk, hinit, hplace, hname, hlast, rfl⟩

theorem write_on_of_walk (hcheck : (checkPath path).isOk) (hwalk : d.walk path = .ok names)
    (hslash : path.toList.getLast? ≠ some slash) (hplace : d.layout names ≠ .folder) :
    (write path text).on d = (.ok (), d.put names (.file (.text text))) := by
  rw [write_on, locateTrimmed_eq hcheck, walk_trimSlashes hwalk]
  dsimp only
  rw [if_neg hslash, if_neg hplace]

/-- Making a folder fails, or puts it under a name in a folder that is there. -/
theorem makeFolder_cases (path : RawText) (d : Disk) :
    (∃ cause, (makeFolder path).on d = (.error cause, d)) ∨
      ∃ init name, (checkPath path).isOk ∧ d.walk (trimSlashes path) = .ok (init ++ [name]) ∧
        d.layout init = .folder ∧ d.layout (init ++ [name]) = .nothing ∧
        (IsName name ∧ name.size ≤ longestName) ∧
        (makeFolder path).on d = (.ok (), d.put (init ++ [name]) .emptyFolder) := by
  rw [makeFolder_on]
  cases hlocate : d.locateTrimmed path with
  | error cause => exact .inl ⟨cause, rfl⟩
  | ok names =>
    obtain ⟨hcheck, hwalk⟩ := isOk_locateTrimmed hlocate
    dsimp only
    split
    next hplace =>
      obtain ⟨init, name, rfl, hinit, hname, -⟩ :=
        (walk_cases hwalk).resolve_left (by simp [hplace])
      exact .inr ⟨init, name, hcheck, hwalk, hinit, hplace, hname, rfl⟩
    · exact .inl ⟨_, rfl⟩

/-- Whether a disk has come from another one by making folders where nothing stood and writing
files, where no folder stood, under names of its own. The files with other names are listed as they
were. -/
structure GrownFrom (own : RawText → Prop) (d' d : Disk) : Prop where
  workingFolder : d'.workingFolder = d.workingFolder
  wellFormed : d.WellFormed → d'.WellFormed
  files : ∀ {base es es'}, d.entryAt? base = some (.folder es) →
    d'.entryAt? base = some (.folder es') → ∀ skip kind, (∀ name, own name → kind name = false) →
      (Entry.folder es').filesOfKind skip kind = (Entry.folder es).filesOfKind skip kind
  layout : ∀ names, d'.layout names = d.layout names ∨
    (d.layout names = .nothing ∧ d'.layout names = .folder) ∨
    (d.layout names ≠ .folder ∧ ∃ init name content, names = init ++ [name] ∧ own name ∧
      d'.layout names = .file content)

variable {own : RawText → Prop} {d'' : Disk}

theorem GrownFrom.refl (own : RawText → Prop) (d : Disk) : d.GrownFrom own d := by
  refine ⟨rfl, id, ?_, fun _ => .inl rfl⟩
  intro base es es' hat hat' skip kind _
  rw [Option.some.inj (hat.symm.trans hat')]

theorem GrownFrom.hasFoldersOf (h : d'.GrownFrom own d) : d'.HasFoldersOf d := by
  refine ⟨h.workingFolder, ?_⟩
  intro names hfolder
  rcases h.layout names with hsame | ⟨hnothing, -⟩ | ⟨hplace, -⟩
  · rw [hsame, hfolder]
  · simp [hfolder] at hnothing
  · exact absurd hfolder hplace

/-- Growth is transitive, so that a sequence of actions is one growth. -/
theorem GrownFrom.trans (h : d'.GrownFrom own d) (h' : d''.GrownFrom own d') :
    d''.GrownFrom own d := by
  refine ⟨h'.workingFolder.trans h.workingFolder, h'.wellFormed ∘ h.wellFormed, ?_, ?_⟩
  · intro base es es'' hat hat'' skip kind hown
    obtain ⟨es', hat'⟩ := Entry.layout_eq_folder_iff.mp
      (h.hasFoldersOf.folder base (Entry.layout_eq_folder_iff.mpr ⟨es, hat⟩))
    exact (h'.files hat' hat'' skip kind hown).trans (h.files hat hat' skip kind hown)
  intro names
  have hsecond := h'.layout names
  rcases h.layout names with hsame | ⟨hnothing, hfolder⟩ |
    ⟨hplace, init, name, content, hnames, hown, hfile⟩
  · rwa [hsame] at hsecond
  · simp only [hfolder, ne_eq, not_true_eq_false, false_and, reduceCtorEq, or_false] at hsecond
    exact .inr (.inl ⟨hnothing, hsecond⟩)
  · rcases hsecond with hsame' | ⟨hnothing, -⟩ | ⟨-, hfile'⟩
    · exact .inr (.inr ⟨hplace, init, name, content, hnames, hown, hsame'.trans hfile⟩)
    · simp [hfile] at hnothing
    · exact .inr (.inr ⟨hplace, hfile'⟩)

theorem GrownFrom.write (hown : ∀ name, (Path.pieces path).getLast? = some name.toList → own name) :
    ((write path text).on d).2.GrownFrom own d := by
  rcases write_cases path text d with ⟨cause, hon⟩ |
    ⟨init, name, -, -, hinit, hplace, hname, hlast, hon⟩ <;> rw [hon]
  · exact .refl own d
  · refine ⟨rfl, fun hd => hd.put hinit hname trivial, ?_, ?_⟩
    · intro base es es' hat hat' skip kind hother
      refine filesOfKind_of_put hinit hplace (.inr ⟨?_, _, rfl⟩) hat hat'
      simpa using hother name (hown name hlast)
    intro names
    rw [layout_put_file hinit hplace]
    split
    next hnames => exact .inr (.inr ⟨hnames ▸ hplace, init, name, _, hnames, hown name hlast, rfl⟩)
    next => exact .inl rfl

theorem GrownFrom.makeFolder (own : RawText → Prop) (path : RawText) (d : Disk) :
    ((makeFolder path).on d).2.GrownFrom own d := by
  rcases makeFolder_cases path d with ⟨cause, hon⟩ |
    ⟨init, name, -, -, hinit, hplace, hname, hon⟩ <;> rw [hon]
  · exact .refl own d
  · refine ⟨rfl, fun hd => hd.put hinit hname trivial, ?_, ?_⟩
    · intro base es es' hat hat' skip kind hother
      exact filesOfKind_of_put hinit (by simp [hplace]) (.inl ⟨hplace, rfl⟩) hat hat'
    intro names
    rw [layout_put_emptyFolder hinit (by simp [hplace])]
    split
    next hnames => exact .inr (.inl ⟨hnames ▸ hplace, rfl⟩)
    next => exact .inl rfl

theorem ensureFolder_on_snd (path : RawText) (d : Disk) :
    ((ensureFolder path).on d).2 = ((makeFolder path).on d).2 := by
  rw [ensureFolder_on]
  obtain ⟨e | x, d'⟩ := (Disk.makeFolder path).on d
  · dsimp only
    split <;> rfl
  · rfl

theorem GrownFrom.ensureFolder (own : RawText → Prop) (path : RawText) (d : Disk) :
    ((ensureFolder path).on d).2.GrownFrom own d := by
  rw [ensureFolder_on_snd]
  exact .makeFolder own path d

theorem GrownFrom.makeFoldersAlong (own : RawText → Prop) (paths : List RawText) (d : Disk) :
    ((makeFoldersAlong paths).on d).2.GrownFrom own d := by
  induction paths generalizing d with
  | nil => exact .refl own d
  | cons path parents ih =>
    have hfirst := GrownFrom.ensureFolder own path d
    rw [makeFoldersAlong_on]
    rcases hon : (Disk.ensureFolder path).on d with ⟨e | x, d'⟩ <;> rw [hon] at hfirst
    · dsimp only
      split
      · exact hfirst
      · have hparents := hfirst.trans (ih d')
        rcases hon' : (Disk.makeFoldersAlong parents).on d' with ⟨e | x, d''⟩ <;>
          rw [hon'] at hparents
        · exact hparents
        · exact hparents.trans (.ensureFolder own path d'')
    · exact hfirst

/-- Making folders puts no file on the disk, whether or not it succeeds. -/
theorem GrownFrom.makeFolders (own : RawText → Prop) (path : RawText) (d : Disk) :
    ((makeFolders path).on d).2.GrownFrom own d :=
  .makeFoldersAlong own (ancestors path) d

theorem holdsFolder_iff : d.holdsFolder path ↔
    (checkPath path).isOk ∧ ∃ names, d.walk path = .ok names ∧ d.layout names = .folder := by
  rw [holdsFolder, find?_eq]
  by_cases hcheck : (checkPath path).isOk
  · rw [if_pos hcheck]
    cases d.walk path with
    | error cause => simp [Except.toOption]
    | ok names =>
      simp only [Except.toOption, Option.bind_some, hcheck, true_and, Except.ok.injEq,
        exists_eq_left']
      unfold layout Entry.layout entryAt?
      cases d.top.at? names with
      | none => simp
      | some e => cases e <;> simp [Entry.isFolder, Entry.standing]
  · simp [hcheck]

theorem ensureFolder_on_of_holdsFolder (h : d.holdsFolder path) :
    (ensureFolder path).on d = (.ok (), d) := by
  obtain ⟨-, names, hwalk, hfolder⟩ := holdsFolder_iff.mp h
  rw [ensureFolder_on]
  rcases makeFolder_cases path d with ⟨cause, hon⟩ | ⟨init, name, -, hwalk', -, hplace, -, hon⟩
  · rw [hon]
    exact if_pos h
  · obtain rfl := Except.ok.inj ((walk_trimSlashes hwalk).symm.trans hwalk')
    simp [hfolder] at hplace

theorem holdsFolder_of_ensureFolder (h : (ensureFolder path).on d = (.ok (), d')) :
    d'.holdsFolder path := by
  have hgrown := GrownFrom.ensureFolder (fun _ => False) path d
  rw [h] at hgrown
  rw [ensureFolder_on] at h
  rcases makeFolder_cases path d with ⟨cause, hon⟩ |
    ⟨init, name, hcheck, hwalk, hinit, hplace, -, hon⟩ <;> rw [hon] at h <;> dsimp only at h
  · split at h
    next hfolder => rwa [(Prod.mk.inj h).2] at hfolder
    next => simp at h
  · obtain rfl := (Prod.mk.inj h).2
    have hfolder : (d.put (init ++ [name]) .emptyFolder).layout (init ++ [name]) = .folder := by
      rw [layout_put_emptyFolder hinit (by simp [hplace]), if_pos rfl]
    have hwalk' := walk_of_walk_trimSlashes hfolder (hgrown.hasFoldersOf.walk hwalk)
    exact holdsFolder_iff.mpr ⟨hcheck, _, hwalk', hfolder⟩

theorem makeFoldersAlong_on_of_holdsFolder {parents : List RawText} (h : d.holdsFolder path) :
    (makeFoldersAlong (path :: parents)).on d = (.ok (), d) := by
  rw [makeFoldersAlong_on, ensureFolder_on_of_holdsFolder h]

theorem holdsFolder_of_makeFoldersAlong {parents : List RawText}
    (h : (makeFoldersAlong (path :: parents)).on d = (.ok (), d')) : d'.holdsFolder path := by
  rw [makeFoldersAlong_on] at h
  rcases hfirst : (ensureFolder path).on d with ⟨e | x, d₁⟩ <;> rw [hfirst] at h <;>
    dsimp only at h
  · split at h
    · simp at h
    · rcases hparents : (makeFoldersAlong parents).on d₁ with ⟨e | x, d₂⟩ <;>
        rw [hparents] at h <;> dsimp only at h
      · simp at h
      · exact holdsFolder_of_ensureFolder h
  · obtain rfl := (Prod.mk.inj h).2
    exact holdsFolder_of_ensureFolder hfirst

theorem ancestors_eq_cons (hne : path ≠ "") : ∃ parents, ancestors path = path :: parents := by
  have hempty : path.toList ≠ [] := fun h => hne (RawText.toList_eq_nil_iff.mp h)
  obtain ⟨first, more, hpieces⟩ := List.exists_cons_of_ne_nil (pieces_ne_nil slash path.toList)
  rw [ancestors, Path.pieces, hpieces, List.length_cons, ancestors.go, if_neg hempty]
  split
  · exact ⟨_, rfl⟩
  · exact ⟨[], rfl⟩

theorem makeFolders_empty (d : Disk) : (makeFolders "").on d = (.ok (), d) := rfl

/-- Making a folder that is there does nothing. -/
theorem makeFolders_on_of_holdsFolder (h : d.holdsFolder path) :
    (makeFolders path).on d = (.ok (), d) := by
  have hne : path ≠ "" := by
    rintro rfl
    simp [holdsFolder_iff, checkPath, Except.isOk, Except.toBool] at h
  obtain ⟨parents, hpath⟩ := ancestors_eq_cons hne
  rw [makeFolders, hpath]
  exact makeFoldersAlong_on_of_holdsFolder h

theorem holdsFolder_of_makeFolders (hne : path ≠ "")
    (h : (makeFolders path).on d = (.ok (), d')) : d'.holdsFolder path := by
  obtain ⟨parents, hpath⟩ := ancestors_eq_cons hne
  rw [makeFolders, hpath] at h
  exact holdsFolder_of_makeFoldersAlong h

theorem makeFolder_on_of_not_folder (hpath : isAbsolute path = false)
    (hd : d.layout d.workingFolder ≠ .folder) : ((makeFolder path).on d).2 = d := by
  rcases makeFolder_cases path d with ⟨cause, hon⟩ | ⟨init, name, -, hwalk, -⟩
  · rw [hon]
  · exact absurd (folder_of_walk ((pieces_trimSlashes path).1.trans hpath) hwalk) hd

theorem makeFoldersAlong_on_of_not_folder {paths : List RawText}
    (hpaths : ∀ path ∈ paths, isAbsolute path = false)
    (hd : d.layout d.workingFolder ≠ .folder) : ((makeFoldersAlong paths).on d).2 = d := by
  induction paths with
  | nil => rfl
  | cons path parents ih =>
    obtain ⟨hpath, hparents⟩ := List.forall_mem_cons.mp hpaths
    have hfirst : ((ensureFolder path).on d).2 = d := by
      rw [ensureFolder_on_snd, makeFolder_on_of_not_folder hpath hd]
    rw [makeFoldersAlong_on]
    rcases hon : (ensureFolder path).on d with ⟨e | x, d'⟩ <;> rw [hon] at hfirst <;>
      obtain rfl : d' = d := hfirst
    · dsimp only
      split
      · rfl
      · have hmore := ih hparents
        rcases hon' : (makeFoldersAlong parents).on d' with ⟨e | x, d''⟩ <;>
          rw [hon'] at hmore <;> obtain rfl : d'' = d' := hmore
        · rfl
        · exact congrArg Prod.snd hon
    · rfl

/-- Without a working folder no path from there makes any folder. -/
theorem makeFolders_on_of_not_folder (hpath : isAbsolute path = false)
    (hd : d.layout d.workingFolder ≠ .folder) : ((makeFolders path).on d).2 = d :=
  makeFoldersAlong_on_of_not_folder (isAbsolute_of_mem_ancestors hpath) hd

theorem write_on_of_not_folder (text : String) (hpath : isAbsolute path = false)
    (hd : d.layout d.workingFolder ≠ .folder) :
    ∃ cause, (write path text).on d = (.error cause, d) := by
  rcases write_cases path text d with hon | ⟨init, name, -, hwalk, -⟩
  · exact hon
  · exact absurd (folder_of_walk hpath hwalk) hd

end StaticPreview.Disk
