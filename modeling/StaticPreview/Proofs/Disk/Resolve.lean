import StaticPreview.Proofs.Path.Under

/-! # Resolved paths

A path from the top folder is resolved to the names that it spells, on every disk: what exists is
where they lead, and what does not is looked for through its parent, which spells all but the last
of them.
-/
namespace StaticPreview
open StaticPreview.Path Text

variable {path : RawText} {names : List RawText}

namespace Path

theorem Spells.ne_nil (h : Spells path names) : path.toList ≠ [] := by
  obtain ⟨rest, hrest⟩ := List.head?_eq_some_iff.mp (beq_iff_eq.mp h.isAbsolute)
  simp [hrest]

/-- The parent of a path spells all its names but the last. -/
theorem Spells.exists_parent? {name : RawText} (h : Spells path (names ++ [name])) :
    ∃ parent, parent? path = some parent ∧ Spells parent names := by
  obtain ⟨piece, more, hpieces, hspelled⟩ := spells_iff.mp h
  rw [List.map_append, List.map_singleton, List.filterMap_eq_append_iff] at hspelled
  obtain ⟨lead, rest, hmore, hlead, hrest⟩ := hspelled
  obtain ⟨gap, last, idle, rfl, hgap, hlast, hidle⟩ := List.filterMap_eq_cons_iff.mp hrest
  have hinner : piece :: more = (lead ++ gap) ++ last :: idle := by rw [hmore, List.append_assoc]
  have hnames : (lead ++ gap).filterMap component? = names.map .name := by
    rw [List.filterMap_append, hlead, List.filterMap_eq_nil_iff.mpr hgap, List.append_nil]
  rw [hinner] at hpieces
  refine ⟨_, parent?_of_pieces hpieces (by simp [hlast]) (List.filterMap_eq_nil_iff.mp hidle), ?_⟩
  obtain ⟨idle', hdrop, hidle'⟩ := exists_append_dropIdle (lead ++ gap)
  rw [hdrop, List.filterMap_append, List.filterMap_eq_nil_iff.mpr hidle', List.append_nil]
    at hnames
  cases hkept : dropIdle (lead ++ gap) with
  | nil =>
    rw [hkept] at hnames
    rw [if_pos ⟨rfl, rfl⟩]
    exact congrArg (Component.root :: ·) hnames
  | cons first others =>
    rw [if_neg (by simp)]
    refine spells_iff.mpr ⟨first, others, pieces_joinPieces (by simp) ?_, hkept ▸ hnames⟩
    have hslash : ∀ piece ∈ [] :: (lead ++ gap), slash ∉ piece := fun piece hpiece =>
      not_mem_of_mem_pieces (s := path.toList) piece (by
        rw [← pieces, hpieces, ← List.cons_append]
        exact List.mem_append_left _ hpiece)
    rw [hdrop, hkept, ← List.cons_append] at hslash
    exact fun piece hpiece => hslash piece (List.mem_append_left _ hpiece)

end Path

namespace Disk

theorem absolute_of_spells (d : Disk) (h : Spells path names) :
    d.absolute path = ofNames names := by
  rw [absolute, if_neg h.ne_nil, if_pos h.isAbsolute, h]
  dsimp only
  rw [List.nil_append, List.filterMap_cons_none rfl, List.filterMap_map]
  exact congrArg ofNames List.filterMap_some

theorem resolve_go_of_spells (hnames : ∀ name ∈ names, IsName name) (d : Disk) (n : Nat)
    (h : Spells path names) : resolve.go d n path = ofNames names := by
  induction n generalizing path names with
  | zero => exact absolute_of_spells d h
  | succ n ih =>
    rw [resolve.go]
    split
    next found hfound =>
      rw [namesOf?] at hfound
      split at hfound
      next r hr =>
        obtain ⟨-, hfound⟩ := Option.ite_none_right_eq_some.mp hfound
        rw [← Option.some.inj hfound, eq_of_walk_of_spells h hr]
      next => simp at hfound
    next =>
      rcases names.eq_nil_or_concat with rfl | ⟨init, last, rfl⟩
      · have hnone : fileName? path = none := by
          rw [fileName?, h]
          rfl
        simp only [hnone]
        split <;> simp_all [absolute_of_spells d h]
      · rw [List.concat_eq_append] at hnames h ⊢
        obtain ⟨hinit, hlast⟩ := List.forall_mem_append.mp hnames
        obtain ⟨parent, hparent, hspells⟩ := h.exists_parent?
        simp only [hparent, h.fileName?]
        rw [if_neg hspells.ne_nil, ih hinit hspells, join_ofNames (hlast last (by simp)) hinit]

theorem resolve_of_spells (hnames : ∀ name ∈ names, IsName name) (d : Disk)
    (h : Spells path names) : d.resolve path = ofNames names :=
  resolve_go_of_spells hnames d _ h

/-- A path of names is as short as it can be. -/
theorem resolve_ofNames (hnames : ∀ name ∈ names, IsName name) (d : Disk) :
    d.resolve (ofNames names) = ofNames names :=
  resolve_of_spells hnames d (spells_ofNames hnames)

end Disk
end StaticPreview
