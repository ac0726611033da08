import StaticPreview.Proofs.Disk.Names

/-! # Paths under a folder

Names that are put under a folder are its pieces and the names, however the folder is spelled. The
parent of such a path has one name less; behind the last name the spelling of the folder may lose
what is idle at its end.
-/
namespace StaticPreview.Path
open Text

def under (folder : RawText) (names : List RawText) : RawText :=
  join folder (joinNames names)

theorem under_singleton (folder name : RawText) : under folder [name] = join folder name := by
  rw [under, joinNames_singleton]

/-- The pieces of a folder that stand before what is put under it. -/
def leadPieces (folder : RawText) : List (List UInt8) :=
  if folder.toList = [] then []
  else if folder.toList.getLast? = some slash then (pieces folder).dropLast
  else pieces folder

theorem joinPieces_pieces (path : RawText) : joinPieces (pieces path) = path := by
  rw [joinPieces, pieces, intercalate_pieces, RawText.ofList_toList]

theorem pieces_joinPieces {ps : List (List UInt8)} (hne : ps ≠ [])
    (h : ∀ piece ∈ ps, slash ∉ piece) :
    pieces (joinPieces ps) = ps := by
  rw [pieces, joinPieces, RawText.toList_ofList, pieces_intercalate hne h]

theorem isAbsolute_iff_pieces (path : RawText) :
    isAbsolute path ↔ ∃ piece more, pieces path = [] :: piece :: more := by
  rw [isAbsolute, pieces, beq_iff_eq]
  cases path.toList with
  | nil => simp [Text.pieces]
  | cons c r =>
    obtain ⟨first, more, hr⟩ := List.exists_cons_of_ne_nil (pieces_ne_nil slash r)
    rw [Text.pieces, hr]
    by_cases hc : c = slash <;> simp [hc]

variable {names : List RawText}

theorem pieces_joinNames (hnames : ∀ name ∈ names, IsName name) (hne : names ≠ []) :
    pieces (joinNames names) = names.map RawText.toList := by
  have hslash : ∀ piece ∈ names.map RawText.toList, slash ∉ piece := by
    intro piece hpiece
    obtain ⟨name, hname, rfl⟩ := List.mem_map.mp hpiece
    exact (hnames name hname).2
  rw [pieces, toList_joinNames, pieces_intercalate (by simpa using hne) hslash]

theorem not_isAbsolute_joinNames (hnames : ∀ name ∈ names, IsName name) (hne : names ≠ []) :
    isAbsolute (joinNames names) = false := by
  rw [← Bool.not_eq_true, isAbsolute_iff_pieces, pieces_joinNames hnames hne]
  rintro ⟨piece, more, h⟩
  obtain ⟨name, rest, rfl⟩ := List.exists_cons_of_ne_nil hne
  have hname := hnames name (by simp)
  exact hname.1 (by simp_all)

/-- A slash at the end of a path is an empty piece behind what stands before it. -/
theorem pieces_of_getLast? {path : RawText} (h : path.toList.getLast? = some slash) :
    ∃ lead, path.toList = lead ++ [slash] ∧ pieces path = Text.pieces slash lead ++ [[]] := by
  obtain ⟨lead, hlead⟩ := List.getLast?_eq_some_iff.mp h
  refine ⟨lead, hlead, ?_⟩
  rw [pieces, hlead]
  exact pieces_append slash lead []

/-- A path that is put under a folder has its pieces behind those of the folder. -/
theorem pieces_join (folder : RawText) {path : RawText} (hpath : isAbsolute path = false) :
    pieces (join folder path) = leadPieces folder ++ pieces path := by
  rw [join, if_neg (by simp [hpath]), leadPieces]
  by_cases hempty : folder.toList = []
  · have hfolder : folder = "" := RawText.toList_eq_nil_iff.mp hempty
    simp [hfolder]
  · by_cases hslash : folder.toList.getLast? = some slash
    · obtain ⟨lead, hlead, hfolder⟩ := pieces_of_getLast? hslash
      rw [if_pos (.inr hslash), if_neg hempty, if_pos hslash, hfolder, List.dropLast_concat,
        pieces, RawText.toList_append, hlead, List.append_assoc, List.singleton_append,
        pieces_append]
      rfl
    · rw [if_neg (by simp [hempty, hslash]), if_neg hempty, if_neg hslash, pieces,
        RawText.toList_append, RawText.toList_append]
      rw [toList_slash, List.append_assoc, List.singleton_append, pieces_append]
      rfl

theorem pieces_under (folder : RawText) (hnames : ∀ name ∈ names, IsName name) (hne : names ≠ []) :
    pieces (under folder names) = leadPieces folder ++ names.map RawText.toList := by
  rw [under, pieces_join folder (not_isAbsolute_joinNames hnames hne),
    pieces_joinNames hnames hne]

theorem isAbsolute_under (folder : RawText) (hnames : ∀ name ∈ names, IsName name)
    (hne : names ≠ []) : isAbsolute (under folder names) = isAbsolute folder := by
  rw [under, join, if_neg (by simp [not_isAbsolute_joinNames hnames hne])]
  by_cases hempty : folder.toList = []
  · have hfolder : folder = "" := RawText.toList_eq_nil_iff.mp hempty
    have hright := not_isAbsolute_joinNames hnames hne
    simp only [hfolder, true_or, if_true, RawText.empty_append, hright, RawText.toList_empty]
    rfl
  · obtain ⟨c, r, hfolder⟩ := List.exists_cons_of_ne_nil hempty
    rw [isAbsolute, isAbsolute]
    split <;> simp [hfolder]

theorem isIdle_iff (piece : List UInt8) : component? piece = none ↔ piece = [] ∨ piece = [dot] := by
  rw [component?]
  split
  · simp_all
  · split <;> simp_all

theorem dropIdle_concat {ps : List (List UInt8)} {piece : List UInt8}
    (h : component? piece ≠ none) :
    dropIdle (ps ++ [piece]) = ps ++ [piece] := by
  have hsome : (component? piece).isNone = false := by
    rwa [Option.isNone_eq_false_iff, Option.isSome_iff_ne_none]
  simp [dropIdle, hsome]

theorem exists_append_dropIdle (ps : List (List UInt8)) :
    ∃ idle, ps = dropIdle ps ++ idle ∧ ∀ piece ∈ idle, component? piece = none := by
  refine ⟨(ps.reverse.takeWhile fun piece => (component? piece).isNone).reverse, ?_, ?_⟩
  · rw [dropIdle, ← List.reverse_append, List.takeWhile_append_dropWhile, List.reverse_reverse]
  · intro piece hpiece
    have hall := List.all_takeWhile (p := fun piece => (component? piece).isNone) (l := ps.reverse)
    simpa using List.all_eq_true.mp hall piece (List.mem_reverse.mp hpiece)

theorem dropIdle_append (ps : List (List UInt8)) {idle : List (List UInt8)}
    (hidle : ∀ piece ∈ idle, component? piece = none) : dropIdle (ps ++ idle) = dropIdle ps := by
  rw [dropIdle, dropIdle, List.reverse_append, List.dropWhile_append_of_pos]
  intro piece hpiece
  rw [hidle piece (List.mem_reverse.mp hpiece)]
  rfl

/-- The parent of a path with more than one piece, the last of which that is not idle is no first
one. -/
theorem parent?_of_pieces {path : RawText} {first last : List UInt8}
    {inner idle : List (List UInt8)}
    (hpieces : pieces path = first :: (inner ++ last :: idle)) (hlast : component? last ≠ none)
    (hidle : ∀ piece ∈ idle, component? piece = none) :
    parent? path = some (if dropIdle inner = [] ∧ first = [] then ("/" : RawText)
      else joinPieces (first :: dropIdle inner)) := by
  have hkept : dropIdle (inner ++ last :: idle) = inner ++ [last] := by
    rw [← List.singleton_append, ← List.append_assoc, dropIdle_append _ hidle,
      dropIdle_concat hlast]
  obtain ⟨piece, more, hmore⟩ := List.exists_cons_of_ne_nil (l := inner ++ [last]) (by simp)
  have hinner : (piece :: more).dropLast = inner := by rw [← hmore, List.dropLast_concat]
  rw [parent?, hpieces]
  simp only [hkept, hmore, hinner]
  cases dropIdle inner <;> cases first <;> simp

theorem parent?_under (folder : RawText) {init : List RawText} {last : RawText}
    (hnames : ∀ name ∈ init ++ [last], IsName name) (hne : init ≠ []) :
    parent? (under folder (init ++ [last])) = some (under folder init) := by
  have hinit := (List.forall_mem_append.mp hnames).1
  have hlast := (hnames last (by simp)).component?
  obtain ⟨front, name, rfl⟩ := (init.eq_nil_or_concat).resolve_left hne
  rw [List.concat_eq_append] at hinit hnames ⊢
  have hname := (hinit name (by simp)).component?
  have hshort := pieces_under folder hinit (by simp)
  have hlong := pieces_under folder hnames (by simp)
  rw [List.map_append, List.map_singleton, ← List.append_assoc, ← hshort] at hlong
  obtain ⟨first, inner, hfirst⟩ := List.exists_cons_of_ne_nil
    (pieces_ne_nil slash (under folder (front ++ [name])).toList)
  rw [← pieces] at hfirst
  rw [hfirst, List.cons_append] at hlong
  rw [parent?_of_pieces hlong (by simp [hlast]) (by simp)]
  -- What stands before the last name ends in a name, so nothing of it is idle.
  have hend : (first :: inner).getLast? = some name.toList := by
    rw [← hfirst, hshort, List.map_append, ← List.append_assoc, List.map_singleton,
      List.getLast?_concat]
  have hkept : dropIdle inner = inner ∧ (inner = [] → first ≠ []) := by
    rcases inner.eq_nil_or_concat with rfl | ⟨inner, piece, rfl⟩
    · refine ⟨rfl, fun _ hempty => (hinit name (by simp)).1 ?_⟩
      have hsame : first = name.toList := by simpa using hend
      simp [← hsame, hempty]
    · rw [List.concat_eq_append] at hend ⊢
      rw [← List.cons_append, List.getLast?_concat] at hend
      have hsame : piece = name.toList := Option.some.inj hend
      exact ⟨dropIdle_concat (by simp [hsame, hname]), by simp⟩
  rw [hkept.1, if_neg fun h => hkept.2 h.1 h.2, ← hfirst, joinPieces_pieces]

theorem parent?_under_empty {name : RawText} (hname : IsName name) :
    parent? (under "" [name]) = some "" := by
  have hpieces : pieces (under "" [name]) = [name.toList] :=
    pieces_under "" (by simpa using hname) (by simp)
  have hne : name.toList ≠ [] := fun h => hname.1 (by simp [h])
  obtain ⟨c, r, hcons⟩ := List.exists_cons_of_ne_nil hne
  rw [parent?, hpieces, hcons]
  rfl

/-- What has the pieces of a path and more behind them begins with that path. -/
theorem exists_append_of_pieces {p q : RawText} {more : List (List UInt8)}
    (h : pieces q = pieces p ++ more) : ∃ rest, q = p ++ rest := by
  by_cases hmore : more = []
  · refine ⟨"", ?_⟩
    rw [RawText.append_empty, ← joinPieces_pieces q, h, hmore, List.append_nil, joinPieces_pieces]
  · have hslash : ∀ piece ∈ more, slash ∉ piece := by
      intro piece hpiece
      refine not_mem_of_mem_pieces (s := q.toList) piece ?_
      rw [← pieces, h]
      exact List.mem_append_right _ hpiece
    have hpieces : Text.pieces slash (p.toList ++ slash :: [slash].intercalate more) =
        pieces q := by
      rw [pieces_append, pieces_intercalate hmore hslash, h]
      rfl
    have hq : p.toList ++ slash :: [slash].intercalate more = q.toList := by
      rw [← intercalate_pieces slash (p.toList ++ _), hpieces, pieces, intercalate_pieces]
    exact ⟨.ofList (slash :: [slash].intercalate more), RawText.toList_inj.mp (by simp [← hq])⟩

theorem isAbsolute_append {p : RawText} (hp : p ≠ "") (rest : RawText) :
    isAbsolute (p ++ rest) = isAbsolute p := by
  have hempty : p.toList ≠ [] := fun h => hp (RawText.toList_eq_nil_iff.mp h)
  obtain ⟨c, r, hcons⟩ := List.exists_cons_of_ne_nil hempty
  simp [isAbsolute, hcons]

theorem not_mem_leadPieces (folder : RawText) : ∀ piece ∈ leadPieces folder, slash ∉ piece := by
  rw [leadPieces]
  split
  · simp
  · split
    · exact fun piece hpiece => not_mem_of_mem_pieces piece (List.dropLast_subset _ hpiece)
    · exact not_mem_of_mem_pieces

theorem pieces_eq_lead {folder : RawText} (hne : folder ≠ "") :
    leadPieces folder ≠ [] ∧
      (pieces folder = leadPieces folder ∨ pieces folder = leadPieces folder ++ [[]]) := by
  have hempty : folder.toList ≠ [] := fun h => hne (RawText.toList_eq_nil_iff.mp h)
  rw [leadPieces, if_neg hempty]
  split
  next hslash =>
    obtain ⟨lead, -, hfolder⟩ := pieces_of_getLast? hslash
    rw [hfolder, List.dropLast_concat]
    exact ⟨pieces_ne_nil slash lead, .inr rfl⟩
  next => exact ⟨pieces_ne_nil slash folder.toList, .inl rfl⟩

theorem components_join {folder name : RawText} (hne : folder ≠ "") (hname : IsName name) :
    components (join folder name) = components folder ++ [.name name] := by
  have hnames : ∀ other ∈ [name], IsName other := by simpa using hname
  have hpieces := pieces_under folder hnames (by simp)
  obtain ⟨hlead, hfolder⟩ := pieces_eq_lead hne
  obtain ⟨first, more, hfirst⟩ := List.exists_cons_of_ne_nil hlead
  rw [under_singleton, hfirst, List.map_singleton, List.cons_append] at hpieces
  rw [hfirst] at hfolder
  rw [components, components, hpieces]
  rcases hfolder with hfolder | hfolder
  · have hmore : first = [] → more ≠ [] := by
      rintro rfl rfl
      exact hne (by rw [← joinPieces_pieces folder, hfolder]; rfl)
    rw [hfolder]
    by_cases hempty : first = []
    · simp [hempty, hmore hempty, hname.component?]
    · simp [hempty, hname.component?]
  · have hidle : component? [] = none := rfl
    rw [hfolder]
    by_cases hempty : first = [] <;> simp [hempty, hidle, hname.component?]

/-- The parent of a name under a folder is a spelling of the folder without what is idle at its
end. -/
theorem parent?_under_singleton {folder name : RawText} (hne : folder ≠ "") (hname : IsName name) :
    ∃ path idle, parent? (under folder [name]) = some path ∧
      (∀ piece ∈ idle, component? piece = none) ∧
      ((path = "/" ∧ leadPieces folder = [] :: idle) ∨
        (path ≠ "" ∧ leadPieces folder = pieces path ++ idle)) := by
  have hnames : ∀ other ∈ [name], IsName other := by simpa using hname
  have hpieces := pieces_under folder hnames (by simp)
  have hslash := not_mem_leadPieces folder
  obtain ⟨first, inner, hlead⟩ := List.exists_cons_of_ne_nil (pieces_eq_lead hne).1
  obtain ⟨idle, hinner, hidle⟩ := exists_append_dropIdle inner
  rw [hlead] at hpieces hslash ⊢
  rw [parent?_of_pieces hpieces (by simp [hname.component?]) (by simp)]
  refine ⟨_, idle, rfl, hidle, ?_⟩
  split
  next hroot =>
    obtain ⟨hkept, rfl⟩ := hroot
    rw [hkept, List.nil_append] at hinner
    exact .inl ⟨rfl, by rw [hinner]⟩
  next hroot =>
    have hspelled : pieces (joinPieces (first :: dropIdle inner)) = first :: dropIdle inner := by
      refine pieces_joinPieces (by simp) fun piece hpiece => hslash piece ?_
      rw [hinner, ← List.cons_append]
      exact List.mem_append_left _ hpiece
    refine .inr ⟨fun hempty => hroot ?_, by rw [hspelled, List.cons_append, ← hinner]⟩
    rw [hempty] at hspelled
    have hnil : pieces ("" : RawText) = [[]] := rfl
    rw [hnil] at hspelled
    obtain ⟨rfl, hkept⟩ := List.cons.inj hspelled
    exact ⟨hkept.symm, rfl⟩

theorem head?_joinPieces (c : UInt8) (r : List UInt8) (more : List (List UInt8)) :
    (joinPieces ((c :: r) :: more)).toList.head? = some c := by
  cases more <;> simp [joinPieces]

/-- The parent of a path from the working folder is one, too. -/
theorem isAbsolute_of_parent? {path parent : RawText} (hparent : parent? path = some parent)
    (h : isAbsolute parent) : isAbsolute path := by
  obtain ⟨first, more, hpieces⟩ := List.exists_cons_of_ne_nil (pieces_ne_nil slash path.toList)
  rw [← pieces] at hpieces
  rw [parent?, hpieces] at hparent
  cases first with
  | nil =>
    cases more with
    | nil => cases hparent
    | cons piece others => exact (isAbsolute_iff_pieces path).mpr ⟨piece, others, hpieces⟩
  | cons c r =>
    have hc : c ≠ slash := by
      have hfirst : c :: r ∈ pieces path := by simp [hpieces]
      intro h
      exact not_mem_of_mem_pieces _ hfirst (by simp [h])
    exfalso
    dsimp only at hparent
    split at hparent
    · cases hparent
    · obtain rfl := Option.some.inj hparent
      cases h
    · have hkept : joinPieces ((c :: r) :: dropIdle (dropIdle more).dropLast) = parent := by
        split at hparent
        next heq => cases heq
        next => exact Option.some.inj hparent
      rw [← hkept, isAbsolute, head?_joinPieces, beq_iff_eq, Option.some.injEq] at h
      exact hc h

theorem isAbsolute_of_mem_ancestors {path : RawText} {n : Nat} (hpath : isAbsolute path = false) :
    ∀ ancestor ∈ ancestors.go n path, isAbsolute ancestor = false := by
  induction n generalizing path with
  | zero => simp [ancestors.go]
  | succ n ih =>
    rw [ancestors.go]
    split
    · simp
    · split
      next parent hparent =>
        have hrelative : isAbsolute parent = false := by
          rw [← Bool.not_eq_true] at hpath ⊢
          exact mt (isAbsolute_of_parent? hparent) hpath
        exact List.forall_mem_cons.mpr ⟨hpath, ih hrelative⟩
      · simpa using hpath

theorem trimSlashes_of_getLast? {path : RawText} (h : path.toList.getLast? ≠ some slash) :
    trimSlashes path = path := by
  have hkept : (path.toList.reverse.dropWhile (· == slash)).reverse = path.toList := by
    rcases path.toList.eq_nil_or_concat with hnil | ⟨lead, last, hlast⟩
    · simp [hnil]
    · rw [List.concat_eq_append] at hlast
      have hne : last ≠ slash := by simpa [hlast] using h
      simp [hlast, hne]
  rw [trimSlashes, hkept]
  split
  · rfl
  · exact RawText.ofList_toList path

/-- The slashes at the end of a path are empty pieces behind those that stay. -/
theorem pieces_trimSlashes (path : RawText) :
    isAbsolute (trimSlashes path) = isAbsolute path ∧
      ∃ n, pieces path = pieces (trimSlashes path) ++ List.replicate n [] := by
  have hsplit : path.toList =
      (path.toList.reverse.dropWhile (· == slash)).reverse ++
        (path.toList.reverse.takeWhile (· == slash)).reverse := by
    rw [← List.reverse_append, List.takeWhile_append_dropWhile, List.reverse_reverse]
  obtain ⟨n, hn⟩ : ∃ n, (path.toList.reverse.takeWhile (· == slash)).reverse =
      List.replicate n slash := by
    refine ⟨_, List.eq_replicate_iff.mpr ⟨rfl, fun c hc => ?_⟩⟩
    have hall := List.all_takeWhile (p := (· == slash)) (l := path.toList.reverse)
    simpa using List.all_eq_true.mp hall c (List.mem_reverse.mp hc)
  rw [hn] at hsplit
  rw [trimSlashes]
  generalize (path.toList.reverse.dropWhile (· == slash)).reverse = kept at hsplit
  cases kept with
  | nil => exact ⟨rfl, 0, by simp⟩
  | cons c r =>
    refine ⟨by simp [isAbsolute, hsplit], n, ?_⟩
    rw [pieces, hsplit, pieces, RawText.toList_ofList]
    cases n with
    | zero => simp
    | succ n => rw [List.replicate_succ, pieces_append, pieces_replicate]

theorem getLast?_ne_slash_of_pieces {path : RawText} {init : List (List UInt8)} {last : List UInt8}
    (hpieces : pieces path = init ++ [last]) (hlast : last ≠ []) :
    path.toList.getLast? ≠ some slash := by
  intro hslash
  obtain ⟨lead, -, hends⟩ := pieces_of_getLast? hslash
  have hend := (List.append_inj' (hends.symm.trans hpieces) rfl).2
  exact hlast (List.singleton_inj.mp hend).symm

end StaticPreview.Path
