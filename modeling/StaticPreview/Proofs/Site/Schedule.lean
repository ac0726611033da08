import StaticPreview.Proofs.Disk.Puts
import StaticPreview.Proofs.Site.Page

/-! # Building pages in any order

Pages are built at the same time, so one may be done before another in any order; their results
stand in the order of the sources all the same. A build whose pages go in the order of the sources
is the build.
-/
namespace StaticPreview.Site
open StaticPreview.Path Disk

variable {ε α φ : Type}

structure Schedule where
  arrange : List (String × String) → List (String × String)
  perm : ∀ files, (arrange files).Perm files

def Schedule.inOrder : Schedule := ⟨id, fun _ => .rfl⟩

/-- Runs an action for each file in the given order, and gathers the results in the order of the
files. -/
def gatherBy [BEq φ] (order files : List φ) (act : φ → Action ε α) : Action ε (List α) := do
  let results ← ExceptT.lift (runAll (order.map act))
  ExceptT.mk (pure ((files.filterMap fun file => (order.zip results).lookup file).mapM id))

def buildWithBy (schedule : Schedule) (outputFolder : RawText) (stylesheet : String)
    (sources : Sources) : Action BuildError BuildResult := do
  failing .folder (makeFolders outputFolder)
  let entries ← gatherBy (schedule.arrange sources.toList) sources.toList
    (buildPage outputFolder stylesheet)
  failing .listing (write (Path.join outputFolder "manifest.json") (manifestText entries))
  unless entries.any fun e => e.output == "index.html" do
    failing .listing
      (write (Path.join outputFolder "index.html") (indexPage entries stylesheet))
  return ⟨entries, outputFolder⟩

def buildBy (schedule : Schedule) (settings : Settings) (stylesheet : String) :
    Action BuildError BuildResult := do
  let sources ← ExceptT.mk (pure ((Sources.scan (← get) settings.sourceFolder).mapError .sources))
  buildWithBy schedule settings.outputFolder stylesheet sources

theorem runAll_cons (act : Action ε α) (more : List (Action ε α)) (d : Disk) :
    (runAll (act :: more)).run d =
      ((act.on d).1 :: ((runAll more).run (act.on d).2).1, ((runAll more).run (act.on d).2).2) :=
  rfl

theorem length_runAll (actions : List (Action ε α)) (d : Disk) :
    ((runAll actions).run d).1.length = actions.length := by
  induction actions generalizing d with
  | nil => rfl
  | cons act more ih => rw [runAll_cons, List.length_cons, ih, List.length_cons]

theorem gatherBy_on [BEq φ] (order files : List φ) (act : φ → Action ε α) (d : Disk) :
    (gatherBy order files act).on d =
      ((files.filterMap fun file =>
          (order.zip ((runAll (order.map act)).run d).1).lookup file).mapM id,
        ((runAll (order.map act)).run d).2) :=
  rfl

theorem gather_on (actions : List (Action ε α)) (d : Disk) :
    (gather actions).on d =
      (((runAll actions).run d).1.mapM id, ((runAll actions).run d).2) :=
  rfl

section
variable {β : Type} [BEq φ] [LawfulBEq φ]

theorem lookup_zip_of_mem {order : List φ} {results : List β} (hdiffer : order.Nodup) {file : φ}
    {result : β} (h : (file, result) ∈ order.zip results) :
    (order.zip results).lookup file = some result := by
  induction order generalizing results with
  | nil => simp at h
  | cons first more ih =>
    cases results with
    | nil => simp at h
    | cons r rs =>
      obtain ⟨hfirst, hmore⟩ := List.nodup_cons.mp hdiffer
      rw [List.zip_cons_cons] at h ⊢
      rcases List.mem_cons.mp h with heq | h
      · obtain ⟨rfl, rfl⟩ := Prod.mk.inj heq
        simp
      · have hne : file ≠ first := fun heq => hfirst (heq ▸ (List.of_mem_zip h).1)
        rw [List.lookup_cons, beq_false_of_ne hne]
        exact ih hmore h

theorem lookup_zip_map (value : φ → β) {order : List φ} {file : φ} (h : file ∈ order) :
    (order.zip (order.map value)).lookup file = some (value file) := by
  induction order with
  | nil => cases h
  | cons first more ih =>
    rw [List.map_cons, List.zip_cons_cons, List.lookup_cons]
    by_cases hfirst : file = first
    · simp [hfirst]
    · rw [beq_false_of_ne hfirst]
      exact ih ((List.mem_cons.mp h).resolve_left hfirst)

theorem filterMap_lookup_zip {files : List φ} {results : List β} (hdiffer : files.Nodup)
    (hlength : results.length = files.length) :
    (files.filterMap fun file => (files.zip results).lookup file) = results := by
  induction files generalizing results with
  | nil => exact (List.length_eq_zero_iff.mp hlength).symm
  | cons first more ih =>
    obtain ⟨r, rs, rfl⟩ := List.exists_cons_of_length_eq_add_one hlength
    obtain ⟨hfirst, hmore⟩ := List.nodup_cons.mp hdiffer
    have hrest : (more.filterMap fun file => ((first, r) :: more.zip rs).lookup file) =
        more.filterMap fun file => (more.zip rs).lookup file := by
      refine List.filterMap_congr fun file hfile => ?_
      have hne : file ≠ first := fun heq => hfirst (heq ▸ hfile)
      rw [List.lookup_cons, beq_false_of_ne hne]
    rw [List.zip_cons_cons, List.filterMap_cons_some (b := r) (by simp), hrest,
      ih hmore (by simpa using hlength)]

end

theorem gatherBy_self [BEq φ] [LawfulBEq φ] {files : List φ} (hdiffer : files.Nodup)
    (act : φ → Action ε α) : gatherBy files files act = gather (files.map act) := by
  funext d
  have hlength := length_runAll (files.map act) d
  rw [List.length_map] at hlength
  have hon : (gatherBy files files act).on d = (gather (files.map act)).on d := by
    rw [gatherBy_on, gather_on, filterMap_lookup_zip hdiffer hlength]
  exact hon

theorem buildBy_inOrder (settings : Settings) (stylesheet : String) :
    buildBy .inOrder settings stylesheet = build settings stylesheet := by
  have hwith (sources : Sources) : buildWithBy .inOrder settings.outputFolder stylesheet sources =
      buildWith settings.outputFolder stylesheet sources := by
    have hgather :=
      gatherBy_self sources.nodup_toList (buildPage settings.outputFolder stylesheet)
    rw [buildWithBy, Schedule.inOrder]
    dsimp only [id]
    rw [hgather]
    rfl
  rw [buildBy, build]
  simp only [hwith]

variable {folder : RawText} {stylesheet : String} {base : List RawText} {d d' : Disk}

theorem puts_failing {a : Action DiskError α} {files : Files} {x : α} (cause : DiskError → ε)
    (h : Puts folder base a files x) : Puts folder base (failing cause a) files x := by
  constructor
  · intro d d' y hd hon
    exact h.room hd (failing_on_eq_ok_iff.mp hon)
  · intro d hd hroom
    obtain ⟨d', hon, hafter⟩ := h.run hd hroom
    exact ⟨d', failing_on_eq_ok_iff.mpr hon, hafter⟩

section
variable {act : φ → Action ε α} {put : φ → List RawText × String} {value : φ → α} {order : List φ}
  (hact : ∀ file ∈ order, Puts folder base (act file) [put file] (value file))
include hact

/-- Where every action succeeds there was room for the files of all. -/
theorem hasRoom_of_runAll (hd : d.Leads folder base)
    (hok : ∀ result ∈ ((runAll (order.map act)).run d).1, result.isOk) :
    d.HasRoom folder base ((order.map put).map Prod.fst) := by
  induction order generalizing d with
  | nil => exact hasRoom_nil d folder base
  | cons file more ih =>
    obtain ⟨hfile, hmore⟩ := List.forall_mem_cons.mp hact
    rw [List.map_cons, runAll_cons] at hok
    obtain ⟨hfirst, hrest⟩ := List.forall_mem_cons.mp hok
    rcases hon : (act file).on d with ⟨e | x, d₁⟩ <;> rw [hon] at hfirst hrest
    · cases hfirst
    · obtain ⟨-, hroom, hd₁, hlayout⟩ := hfile.on_eq_ok hd hon
      exact (hasRoom_append_iff hlayout).mpr ⟨hroom, ih hmore hd₁ hrest⟩

/-- Actions that each put one file succeed in any order where there is room for all files. -/
theorem runAll_of_hasRoom (hd : d.Leads folder base)
    (hroom : d.HasRoom folder base ((order.map put).map Prod.fst)) :
    ∃ d', (runAll (order.map act)).run d = (order.map fun file => .ok (value file), d') ∧
      d'.Leads folder base ∧ d'.layout = d.layout.withFiles base (order.map put) := by
  induction order generalizing d with
  | nil => exact ⟨d, rfl, hd, rfl⟩
  | cons file more ih =>
    obtain ⟨hfile, hmore⟩ := List.forall_mem_cons.mp hact
    have hroomFirst : d.HasRoom folder base [(put file).1] :=
      hasRoom_singleton_iff.mpr ⟨hroom.placeable _ (by simp), hroom.fits.admits _ (by simp)⟩
    obtain ⟨d₁, hon, hd₁, hlayout⟩ := hfile.run hd hroomFirst
    have hboth : d.HasRoom folder base ([put file].map Prod.fst ++ (more.map put).map Prod.fst) :=
      hroom
    have hrest := ((hasRoom_append_iff hlayout).mp hboth).2
    obtain ⟨d₂, hrun, hd₂, hlayout₂⟩ := ih hmore hd₁ hrest
    refine ⟨d₂, ?_, hd₂, ?_⟩
    · rw [List.map_cons, runAll_cons, hon, hrun]
      rfl
    · rw [hlayout₂, hlayout, ← Layout.withFiles_append]
      rfl

end

theorem mapM_id_map_ok (values : List α) :
    (values.map (.ok : α → Except ε α)).mapM id = .ok values := by
  induction values with
  | nil => rfl
  | cons x more ih =>
    rw [List.map_cons, List.mapM_cons, ih]
    rfl

theorem isOk_of_mapM_id {results : List (Except ε α)} {values : List α}
    (h : results.mapM id = .ok values) : ∀ result ∈ results, result.isOk := by
  induction results generalizing values with
  | nil => simp
  | cons r rs ih =>
    rw [List.mapM_cons] at h
    cases r with
    | error e => cases h
    | ok x =>
      cases hrest : rs.mapM id with
      | error e =>
        rw [hrest] at h
        cases h
      | ok ys => exact List.forall_mem_cons.mpr ⟨rfl, ih hrest⟩

/-- Gathering puts the files of all actions, in the order in which they run. -/
theorem puts_gatherBy [BEq φ] [LawfulBEq φ] {order files : List φ} {act : φ → Action ε α}
    {put : φ → List RawText × String} {value : φ → α} (hperm : order.Perm files)
    (hdiffer : files.Nodup)
    (hact : ∀ file ∈ files, Puts folder base (act file) [put file] (value file)) :
    Puts folder base (gatherBy order files act) (order.map put) (files.map value) := by
  have hacts : ∀ file ∈ order, Puts folder base (act file) [put file] (value file) :=
    fun file hfile => hact file (hperm.mem_iff.mp hfile)
  constructor
  · intro d d' values hd hon
    rw [gatherBy_on] at hon
    refine hasRoom_of_runAll hacts hd ?_
    intro result hresult
    -- The result stands where its file does, and all results there are values.
    obtain ⟨i, hi, rfl⟩ := List.mem_iff_getElem.mp hresult
    have hlength := length_runAll (order.map act) d
    rw [List.length_map] at hlength
    have hzip : (order[i], ((runAll (order.map act)).run d).1[i]) ∈
        order.zip ((runAll (order.map act)).run d).1 := by
      refine List.mem_iff_getElem.mpr ⟨i, by simp; omega, by simp⟩
    refine isOk_of_mapM_id (Prod.mk.inj hon).1 _ (List.mem_filterMap.mpr ?_)
    exact ⟨order[i], hperm.mem_iff.mp (List.getElem_mem _),
      lookup_zip_of_mem (hperm.nodup_iff.mpr hdiffer) hzip⟩
  · intro d hd hroom
    obtain ⟨d', hrun, hd', hlayout⟩ := runAll_of_hasRoom hacts hd hroom
    refine ⟨d', ?_, hd', hlayout⟩
    have hresults : (files.filterMap fun file =>
        (order.zip (order.map fun file => (.ok (value file) : Except ε α))).lookup file) =
          (files.map value).map .ok := by
      have heach := List.filterMap_congr (l := files) fun file hfile =>
        lookup_zip_map (fun file => (.ok (value file) : Except ε α)) (hperm.mem_iff.mpr hfile)
      rw [heach, List.map_map]
      exact congrFun List.filterMap_eq_map files
    rw [gatherBy_on, hrun]
    dsimp only
    rw [hresults, mapM_id_map_ok]

end StaticPreview.Site
