import StaticPreview.Disk.Basic
import StaticPreview.Proofs.Text.Pieces
import StaticPreview.Proofs.Text.Raw

/-! # Paths of names

A path that spells the names of entries and nothing else leads where these names lead, on every
disk and whether or not anything is there.
-/
namespace StaticPreview
open Text

namespace Path

def IsName (name : RawText) : Prop :=
  name.toList ∉ [[], [dot], [dot, dot]] ∧ slash ∉ name.toList

instance (name : RawText) : Decidable (IsName name) :=
  inferInstanceAs (Decidable (_ ∧ _))

theorem IsName.component? {name : RawText} (h : IsName name) :
    Path.component? name.toList = some (.name name) := by
  have hne : name.toList ≠ [] ∧ name.toList ≠ [dot] ∧ name.toList ≠ [dot, dot] := by
    simpa using h.1
  obtain ⟨h0, h1, h2⟩ := hne
  rw [Path.component?, if_neg (by simp [h0, h1]), if_neg h2, RawText.ofList_toList]

variable {names : List RawText} (hnames : ∀ name ∈ names, IsName name)

theorem toList_slash : (RawText.ofText "/").toList = [slash] := rfl

theorem toList_joinNames (names : List RawText) :
    (joinNames names).toList = [slash].intercalate (names.map RawText.toList) := rfl

theorem toList_ofNames (names : List RawText) :
    (ofNames names).toList = slash :: [slash].intercalate (names.map RawText.toList) := by
  rw [ofNames, RawText.toList_append, toList_slash, toList_joinNames, List.singleton_append]

theorem isAbsolute_ofNames (names : List RawText) : isAbsolute (ofNames names) := by
  rw [isAbsolute, toList_ofNames]
  rfl

theorem pieces_ofNames_nil : pieces (ofNames []) = [[], []] := by
  rfl

theorem joinNames_append {names more : List RawText} (hne : names ≠ []) (hmore : more ≠ []) :
    joinNames (names ++ more) = joinNames names ++ "/" ++ joinNames more := by
  refine RawText.ext ?_
  simp only [RawText.toList_append, toList_joinNames, toList_slash]
  induction names with
  | nil => exact absurd rfl hne
  | cons name rest ih =>
    rw [List.cons_append, List.map_cons, List.map_cons]
    by_cases hrest : rest = []
    · subst hrest
      rw [List.nil_append, List.map_nil, List.intercalate_singleton,
        List.intercalate_cons_of_ne_nil (by simpa using hmore)]
    · rw [List.intercalate_cons_of_ne_nil (by simpa using fun h => absurd h hrest), ih hrest,
        List.intercalate_cons_of_ne_nil (by simpa using hrest)]
      simp only [List.append_assoc]

theorem joinNames_singleton (name : RawText) : joinNames [name] = name :=
  RawText.ext (by simp [toList_joinNames])

theorem ofNames_append {names more : List RawText} (hne : names ≠ []) (hmore : more ≠ []) :
    ofNames (names ++ more) = ofNames names ++ "/" ++ joinNames more := by
  rw [ofNames, ofNames, joinNames_append hne hmore]
  simp only [RawText.append_assoc]

theorem ofNames_concat {names : List RawText} (hne : names ≠ []) (name : RawText) :
    ofNames (names ++ [name]) = ofNames names ++ "/" ++ name := by
  rw [ofNames_append hne (by simp), joinNames_singleton]

include hnames

theorem pieces_ofNames (hne : names ≠ []) :
    pieces (ofNames names) = [] :: names.map RawText.toList := by
  have hslash : ∀ piece ∈ names.map RawText.toList, slash ∉ piece := by
    intro piece hpiece
    obtain ⟨name, hname, rfl⟩ := List.mem_map.mp hpiece
    exact (hnames name hname).2
  have hfirst (s : List UInt8) : Text.pieces slash (slash :: s) = [] :: Text.pieces slash s :=
    pieces_append_cons List.not_mem_nil s
  rw [pieces, toList_ofNames, hfirst, pieces_intercalate (by simpa using hne) hslash]

theorem filterMap_component? :
    (names.map RawText.toList).filterMap Path.component? = names.map .name := by
  induction names with
  | nil => rfl
  | cons name more ih =>
    obtain ⟨hname, hmore⟩ := List.forall_mem_cons.mp hnames
    simp [hname.component?, ih hmore]

theorem components_ofNames : components (ofNames names) = .root :: names.map .name := by
  cases names with
  | nil => rfl
  | cons name more =>
    rw [components, pieces_ofNames hnames (by simp)]
    simpa using filterMap_component? hnames

theorem dropIdle_names : dropIdle (names.map RawText.toList) = names.map RawText.toList := by
  rcases names.eq_nil_or_concat with rfl | ⟨init, last, rfl⟩
  · rfl
  · have hlast := (hnames last (by simp)).component?
    simp [dropIdle, hlast]

omit hnames

/-- Whether a path leads from the top folder along names. It may hold dots and doubled slashes. -/
def Spells (path : RawText) (names : List RawText) : Prop :=
  components path = .root :: names.map .name

instance (path : RawText) (names : List RawText) : Decidable (Spells path names) :=
  inferInstanceAs (Decidable (_ = _))

theorem spells_ofNames (hnames : ∀ name ∈ names, IsName name) : Spells (ofNames names) names :=
  components_ofNames hnames

theorem spells_iff {path : RawText} :
    Spells path names ↔
      ∃ piece more, pieces path = [] :: piece :: more ∧
        (piece :: more).filterMap component? = names.map .name := by
  obtain ⟨first, rest, hpieces⟩ := List.exists_cons_of_ne_nil (pieces_ne_nil slash path.toList)
  rw [← pieces] at hpieces
  rw [Spells, components, hpieces]
  cases first with
  | nil =>
    cases rest with
    | nil => simp
    | cons piece more =>
      constructor
      · intro h
        exact ⟨piece, more, rfl, (List.cons.inj h).2⟩
      · rintro ⟨piece', more', hrest, hnames⟩
        obtain ⟨rfl, rfl⟩ := List.cons.inj (List.cons.inj hrest).2
        exact congrArg (Component.root :: ·) hnames
  | cons c r =>
    obtain ⟨start, hroot, hstart⟩ : ∃ start, start ≠ Component.root ∧
        (if c :: r = [dot] then [.here] else (component? (c :: r)).toList) = [start] := by
      rw [component?]
      split
      · exact ⟨.here, by simp, rfl⟩
      next hdot =>
        rw [if_neg (by simp [hdot])]
        split
        · exact ⟨.up, by simp, rfl⟩
        · exact ⟨.name _, by simp, rfl⟩
    constructor
    · intro h
      dsimp only at h
      rw [if_neg (List.cons_ne_nil c r), hstart] at h
      exact absurd (List.cons.inj h).1 hroot
    · rintro ⟨piece, more, hfirst, -⟩
      cases hfirst

theorem Spells.isAbsolute {path : RawText} (h : Spells path names) : isAbsolute path := by
  obtain ⟨piece, more, hpieces, -⟩ := spells_iff.mp h
  have hpath : path.toList = [slash].intercalate (pieces path) := (intercalate_pieces slash _).symm
  rw [Path.isAbsolute, hpath, hpieces]
  simp

theorem Spells.fileName? {path name : RawText} (h : Spells path (names ++ [name])) :
    fileName? path = some name := by
  rw [Path.fileName?, h, List.map_append, ← List.cons_append, List.map_singleton,
    List.getLast?_concat]

variable {name : RawText} (hname : IsName name)
include hname

theorem isAbsolute_of_isName : isAbsolute name = false := by
  rw [isAbsolute, beq_eq_false_iff_ne]
  intro h
  exact hname.2 (List.mem_of_mem_head? h)

theorem getLast?_ofNames_concat (names : List RawText) :
    (ofNames (names ++ [name])).toList.getLast? ≠ some slash := by
  have hend : ∃ lead, (ofNames (names ++ [name])).toList = lead ++ name.toList := by
    by_cases hnil : names = []
    · exact ⟨[slash], by simp [hnil, toList_ofNames]⟩
    · exact ⟨(ofNames names ++ "/").toList, by rw [ofNames_concat hnil, RawText.toList_append]⟩
  obtain ⟨lead, hlead⟩ := hend
  have hne : name.toList ≠ [] := fun h => hname.1 (by simp [h])
  intro hlast
  rw [hlead, List.getLast?_append, List.getLast?_eq_some_getLast hne, Option.some_or] at hlast
  exact hname.2 (Option.some.inj hlast ▸ List.getLast_mem hne)

theorem join_ofNames {names : List RawText} (hnames : ∀ other ∈ names, IsName other) :
    join (ofNames names) name = ofNames (names ++ [name]) := by
  rw [join, if_neg (by simp [isAbsolute_of_isName hname])]
  by_cases hnil : names = []
  · subst hnil
    rw [List.nil_append, ofNames, ofNames, joinNames_singleton, if_pos (.inr rfl)]
    rfl
  · have hend : ¬ ((ofNames names).toList = [] ∨ (ofNames names).toList.getLast? = some slash) := by
      obtain ⟨init, last, rfl⟩ := (names.eq_nil_or_concat).resolve_left hnil
      rw [List.concat_eq_append] at hnames ⊢
      rintro (h | h)
      · simp [toList_ofNames] at h
      · exact getLast?_ofNames_concat (hnames last (by simp)) init h
    rw [if_neg hend, ofNames_concat hnil]

omit hname

theorem fileName?_ofNames (h : ∀ other ∈ names ++ [name], IsName other) :
    fileName? (ofNames (names ++ [name])) = some name :=
  (spells_ofNames h).fileName?

omit hname

theorem map_name_inj {names names' : List RawText}
    (h : names.map Component.name = names'.map .name) : names = names' :=
  List.map_inj_right (fun _ _ => Component.name.inj) |>.mp h

theorem ofNames_inj (hnames : ∀ other ∈ names, IsName other) {names' : List RawText}
    (hnames' : ∀ other ∈ names', IsName other)
    (h : components (ofNames names) = components (ofNames names')) : names = names' := by
  rw [components_ofNames hnames, components_ofNames hnames'] at h
  exact map_name_inj (List.cons.inj h).2

theorem below?_ofNames {folder names : List RawText} (h : ∀ other ∈ folder ++ names, IsName other) :
    below? (ofNames folder) (ofNames (folder ++ names)) = some (names.map .name) := by
  have hfolder := (List.forall_mem_append.mp h).1
  rw [below?, components_ofNames hfolder, components_ofNames h, after?_eq_some_iff]
  simp

/-- The logical path of what names lead to below a folder. -/
theorem logical_ofNames {folder names : List RawText}
    (h : ∀ other ∈ folder ++ names, IsName other) :
    logical (ofNames folder) (ofNames (folder ++ names)) = slashed names := by
  rw [logical, below?_ofNames h, Option.getD_some, List.map_map]
  congr 1
  exact List.map_id'' (fun _ => rfl) names

theorem joinNames_map_ofText (names : List String) :
    joinNames (names.map RawText.ofText) = RawText.ofText ("/".intercalate names) := by
  refine RawText.ext ?_
  rw [toList_joinNames, List.map_map]
  induction names with
  | nil => rfl
  | cons name more ih =>
    cases more with
    | nil => simp
    | cons next others =>
      rw [String.intercalate_cons_cons, RawText.ofText_append, RawText.ofText_append,
        RawText.toList_append, RawText.toList_append, ← ih]
      simp [toList_slash]

@[simp]
theorem slashed_singleton (name : RawText) : slashed [name] = name.shown := by
  rw [slashed, List.map_singleton, String.intercalate_singleton]

theorem IsName.shown_ne_empty {name : RawText} (h : IsName name) : name.shown ≠ "" := by
  intro hempty
  have hname : name = RawText.ofText name.shown := RawText.eq_ofText_shown (by simp [hempty])
  rw [hempty] at hname
  exact h.1 (by rw [hname]; decide)

theorem IsName.slash_not_mem_shown {name : RawText} (h : IsName name) :
    '/' ∉ name.shown.toList :=
  fun hmem => h.2 (RawText.mem_of_mem_shown (by decide) hmem slash (by decide))

theorem IsName.isName_shown {name : RawText} (h : IsName name) : IsName (.ofText name.shown) := by
  constructor
  · intro hmem
    have hdots : ∀ b ∈ (RawText.ofText name.shown).toList, b = dot := by
      simp only [List.mem_cons, List.not_mem_nil, or_false] at hmem
      rcases hmem with hmem | hmem | hmem <;> simp [hmem]
    have hwhole : '\uFFFD' ∉ name.shown.toList := by
      intro hreplaced
      have hbyte := hdots 0xEF (List.mem_flatMap.mpr ⟨'\uFFFD', hreplaced, by decide⟩)
      cases hbyte
    rw [← RawText.eq_ofText_shown hwhole] at hmem
    exact h.1 hmem
  · intro hslash
    exact h.slash_not_mem_shown ((RawText.mem_ofText_iff (by decide)).mp hslash)

/-- Names that are shown without a replaced character are shown as no others. -/
theorem eq_of_map_shown_eq {names names' : List RawText}
    (hwhole : ∀ name ∈ names, '\uFFFD' ∉ name.shown.toList)
    (h : names'.map RawText.shown = names.map RawText.shown) : names' = names := by
  induction names generalizing names' with
  | nil => simpa using h
  | cons name rest ih =>
    obtain ⟨hname, hrest⟩ := List.forall_mem_cons.mp hwhole
    obtain ⟨name', rest', rfl, hfirst, hothers⟩ := List.map_eq_cons_iff.mp h
    have hname' := RawText.eq_ofText_shown (r := name') (by rwa [hfirst])
    rw [ih hrest hothers, hname', hfirst, ← RawText.eq_ofText_shown hname]

theorem pieces_slashed {names : List RawText} (hnames : ∀ other ∈ names, IsName other)
    (hne : names ≠ []) :
    Text.pieces '/' (slashed names).toList = (names.map RawText.shown).map String.toList := by
  rw [slashed, String.toList_intercalate]
  refine pieces_intercalate (by simpa using hne) ?_
  simpa using fun name hname => (hnames name hname).slash_not_mem_shown

theorem slashed_ne_empty {names : List RawText} (hnames : ∀ other ∈ names, IsName other)
    (hne : names ≠ []) : slashed names ≠ "" := by
  intro hempty
  have hpieces := pieces_slashed hnames hne
  obtain ⟨name, more, rfl⟩ := List.exists_cons_of_ne_nil hne
  rw [hempty] at hpieces
  have hname := (List.cons.inj hpieces).1
  exact (hnames name (by simp)).shown_ne_empty (String.toList_eq_nil_iff.mp hname.symm)

/-- Names have the same text with slashes between them exactly when they are shown alike. -/
theorem slashed_eq_iff {names names' : List RawText} (hnames : ∀ other ∈ names, IsName other)
    (hnames' : ∀ other ∈ names', IsName other) :
    slashed names = slashed names' ↔ names.map RawText.shown = names'.map RawText.shown := by
  constructor
  · intro h
    by_cases hnil : names = [] <;> by_cases hnil' : names' = []
    · rw [hnil, hnil']
    · subst hnil
      exact absurd h.symm (slashed_ne_empty hnames' hnil')
    · subst hnil'
      exact absurd h (slashed_ne_empty hnames hnil)
    · have hpieces := pieces_slashed hnames hnil
      rw [h, pieces_slashed hnames' hnil'] at hpieces
      exact (List.map_inj_right fun _ _ => String.toList_inj.mp).mp hpieces.symm
  · intro h
    rw [slashed, slashed, h]

end Path

namespace Disk
open StaticPreview.Path

variable {d : Disk} {start r names : List RawText}

theorem eq_of_follow {piece : List UInt8} {name : RawText}
    (hpiece : component? piece = some (.name name)) (h : d.follow start piece = .ok r) :
    r = start ++ [name] := by
  rw [follow, hpiece] at h
  split at h
  · simp at h
  · simp at h
  · dsimp only at h
    split at h
    · simp at h
    · exact (Except.ok.inj h).symm

theorem eq_of_follow_none {piece : List UInt8} (hpiece : component? piece = none)
    (h : d.follow start piece = .ok r) : r = start := by
  rw [follow, hpiece] at h
  split at h
  · simp at h
  · simp at h
  · exact (Except.ok.inj h).symm

theorem foldlM_follow_cons {piece : List UInt8} {more : List (List UInt8)}
    (h : (piece :: more).foldlM d.follow start = .ok r) :
    ∃ next, d.follow start piece = .ok next ∧ more.foldlM d.follow next = .ok r := by
  rw [List.foldlM_cons] at h
  cases hstep : d.follow start piece with
  | error e => simp [hstep, bind, Except.bind] at h
  | ok next =>
    rw [hstep] at h
    exact ⟨next, rfl, h⟩

/-- Pieces that name nothing but entries lead along the names, if they lead anywhere. -/
theorem eq_of_foldlM_follow {ps : List (List UInt8)}
    (hps : ps.filterMap component? = names.map .name) (h : ps.foldlM d.follow start = .ok r) :
    r = start ++ names := by
  induction ps generalizing start names with
  | nil =>
    obtain rfl : names = [] := by simpa using hps.symm
    simpa using (Except.ok.inj h).symm
  | cons piece more ih =>
    obtain ⟨next, hstep, hrest⟩ := foldlM_follow_cons h
    cases hpiece : component? piece with
    | none =>
      rw [List.filterMap_cons_none hpiece] at hps
      rw [ih hps hrest, eq_of_follow_none hpiece hstep]
    | some c =>
      rw [List.filterMap_cons_some hpiece] at hps
      obtain ⟨name, others, rfl, hname, hothers⟩ := List.map_eq_cons_iff.mp hps.symm
      rw [← hname] at hpiece
      rw [ih hothers.symm hrest, eq_of_follow hpiece hstep, List.append_assoc,
        List.singleton_append]

theorem eq_of_walk_of_spells {path : RawText} (hpath : Spells path names)
    (h : d.walk path = .ok r) : r = names := by
  obtain ⟨piece, more, hpieces, hnames⟩ := spells_iff.mp hpath
  rw [walk, if_pos hpath.isAbsolute, hpieces] at h
  obtain ⟨next, hfirst, hrest⟩ := foldlM_follow_cons h
  rw [eq_of_foldlM_follow hnames hrest, eq_of_follow_none rfl hfirst, List.nil_append]

end Disk
end StaticPreview
