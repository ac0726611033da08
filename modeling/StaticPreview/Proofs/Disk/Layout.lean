import StaticPreview.Proofs.Disk.Reading

/-! # What stands where

The layout of a disk tells for all names whether they lead to a folder, to a file and its content,
or to nothing; it forgets in which order the entries of a folder were made. What is put where
nothing but a file stood, in a folder that is there, changes the layout at its own names and
nowhere else.
-/
namespace StaticPreview.Disk
open StaticPreview.Path Text

inductive Standing where
  | nothing
  | folder
  | file (content : Content)
  deriving DecidableEq

abbrev Layout := List RawText → Standing

namespace Entry

def standing : Entry → Standing
  | folder _ => .folder
  | file content => .file content

def layout (e : Entry) : Layout := fun names =>
  (e.at? names).elim .nothing standing

variable {e new : Entry} {names : List RawText}

theorem layout_nil (e : Entry) : e.layout [] = e.standing := rfl

theorem layout_eq_nothing_iff : e.layout names = .nothing ↔ e.at? names = none := by
  rw [layout]
  cases e.at? names with
  | none => simp
  | some inner => cases inner <;> simp [standing]

theorem layout_eq_folder_iff : e.layout names = .folder ↔ ∃ es, e.at? names = some (folder es) := by
  rw [layout]
  cases e.at? names with
  | none => simp
  | some inner => cases inner <;> simp [standing]

theorem layout_eq_file_iff {content : Content} :
    e.layout names = .file content ↔ e.at? names = some (file content) := by
  rw [layout]
  cases e.at? names with
  | none => simp
  | some inner => cases inner <;> simp [standing]

theorem layout_append_of_at? {inner : Entry} (h : e.at? names = some inner)
    (more : List RawText) : e.layout (names ++ more) = inner.layout more := by
  rw [layout, at?_append, h]
  rfl

/-- Whatever stands anywhere stands in a folder. -/
theorem layout_eq_folder_of_append {more : List RawText} (hmore : more ≠ [])
    (h : e.layout (names ++ more) ≠ .nothing) : e.layout names = .folder := by
  cases hat : e.at? names with
  | none =>
    rw [layout, at?_append, hat] at h
    exact absurd rfl h
  | some inner =>
    rw [layout_append_of_at? hat] at h
    cases inner with
    | folder es => exact layout_eq_folder_iff.mpr ⟨es, hat⟩
    | file content =>
      rw [layout, at?_file hmore] at h
      exact absurd rfl h

theorem layout_folder_cons (es : List (RawText × Entry)) (name : RawText) (rest : List RawText) :
    (folder es).layout (name :: rest) =
      (es.lookup name).elim .nothing fun child => child.layout rest := by
  rw [layout, at?, entries]
  cases es.lookup name <;> rfl

theorem lookup_setNamed (name other : RawText) (new : Entry) (es : List (RawText × Entry)) :
    (setNamed name new es).lookup other = if other = name then some new else es.lookup other := by
  induction es with
  | nil => simp only [setNamed, List.lookup_cons, List.lookup_nil]; split <;> simp_all
  | cons p more ih =>
    obtain ⟨first, child⟩ := p
    rw [setNamed]
    split
    next hfirst =>
      subst hfirst
      simp only [List.lookup_cons]
      split <;> simp_all
    next hfirst =>
      simp only [List.lookup_cons, ih]
      split <;> simp_all

theorem layout_eq_nothing_of_append {more : List RawText} (hmore : more ≠ [])
    (h : e.layout names ≠ .folder) : e.layout (names ++ more) = .nothing :=
  Decidable.byContradiction fun hne => h (layout_eq_folder_of_append hmore hne)

/-- What is put in a folder that is there, in the place of nothing or of a file. -/
theorem layout_put (hparent : names = [] ∨ e.layout names.dropLast = .folder)
    (hplace : e.layout names ≠ .folder) (hnew : ∀ more, more ≠ [] → new.at? more = none)
    (other : List RawText) :
    (e.put new names).layout other = if other = names then new.standing else e.layout other := by
  have hbelow {more : List RawText} (hmore : more ≠ []) : new.layout more = .nothing :=
    layout_eq_nothing_iff.mpr (hnew more hmore)
  induction names generalizing e other with
  | nil =>
    rw [put]
    split
    next hother => rw [hother, layout_nil]
    next hother => rw [hbelow hother, ← List.nil_append other,
      layout_eq_nothing_of_append hother hplace]
  | cons name rest ih =>
    have hway : e.layout (name :: rest).dropLast = .folder := hparent.resolve_left (by simp)
    obtain ⟨es, rfl⟩ : ∃ es, e = folder es := by
      cases e with
      | folder es => exact ⟨es, rfl⟩
      | file content => cases rest <;> simp [layout, at?_file, at?, standing] at hway
    rw [put]
    cases other with
    | nil => simp [layout_nil, standing]
    | cons o r =>
      rw [layout_folder_cons, lookup_setNamed]
      by_cases ho : o = name
      · subst ho
        rw [if_pos rfl, Option.elim_some]
        cases rest with
        | nil =>
          rw [put]
          cases r with
          | nil => simp [layout_nil]
          | cons next more =>
            have habsent : (folder es).layout ([o] ++ next :: more) = .nothing :=
              layout_eq_nothing_of_append (by simp) hplace
            rw [hbelow (by simp), if_neg (by simp)]
            exact habsent.symm
        | cons next more =>
          have hchild : (folder es).layout (o :: (next :: more).dropLast) = .folder := hway
          rw [layout_folder_cons] at hchild hplace
          cases hlookup : es.lookup o with
          | none => simp [hlookup] at hchild
          | some child =>
            rw [hlookup, Option.elim_some] at hchild hplace
            rw [entries, hlookup, Option.getD_some, ih (.inr hchild) hplace, layout_folder_cons,
              hlookup, Option.elim_some]
            simp
      · rw [if_neg ho, ← layout_folder_cons, if_neg (by simp [ho]), entries]

theorem mem_setNamed {name : RawText} {new : Entry} {es : List (RawText × Entry)}
    {p : RawText × Entry} (h : p ∈ setNamed name new es) : p.1 = name ∨ p ∈ es := by
  induction es with
  | nil => exact .inl (by simp_all [setNamed])
  | cons q more ih =>
    obtain ⟨first, child⟩ := q
    rw [setNamed] at h
    split at h <;> rcases List.mem_cons.mp h with rfl | hmore
    · exact .inl rfl
    · exact .inr (List.mem_cons_of_mem _ hmore)
    · exact .inr (by simp)
    · exact (ih hmore).imp_right (List.mem_cons_of_mem _)

theorem WellNamedIn.setNamed {name : RawText} {es : List (RawText × Entry)} (h : WellNamedIn es)
    (hname : IsName name ∧ name.size ≤ longestName) (hnew : new.WellNamed) :
    WellNamedIn (setNamed name new es) := by
  induction es with
  | nil => exact ⟨hname, by simp, hnew, trivial⟩
  | cons p more ih =>
    obtain ⟨first, child⟩ := p
    obtain ⟨hfirst, hdiffer, hchild, hmore⟩ := h
    rw [Entry.setNamed]
    split
    next heq => exact ⟨heq ▸ hfirst, heq ▸ hdiffer, hnew, hmore⟩
    next hne =>
      refine ⟨hfirst, fun hmem => ?_, hchild, ih hmore⟩
      obtain ⟨p, hp, rfl⟩ := List.mem_map.mp hmem
      exact (mem_setNamed hp).elim hne fun hold => hdiffer (List.mem_map_of_mem hold)

/-- An entry stays well-named when a well-named one is put into it. -/
theorem WellNamed.put (h : e.WellNamed) (hnew : new.WellNamed)
    (hnames : ∀ name ∈ names, IsName name ∧ name.size ≤ longestName) :
    (e.put new names).WellNamed := by
  induction names generalizing e with
  | nil => exact hnew
  | cons name rest ih =>
    obtain ⟨hname, hrest⟩ := List.forall_mem_cons.mp hnames
    have hentries : WellNamedIn e.entries := by
      cases e with
      | folder es => exact h
      | file content => trivial
    refine hentries.setNamed hname (ih ?_ hrest)
    cases hlookup : e.entries.lookup name with
    | none => trivial
    | some child =>
      obtain ⟨before, after, hes, -⟩ := List.lookup_eq_some_iff.mp hlookup
      exact (hentries.of_mem (p := (name, child)) (by simp [hes])).2

end Entry

variable {d : Disk} {names : List RawText}

def layout (d : Disk) : Layout := d.top.layout

/-- Whatever stands somewhere on a disk has the name of an entry. -/
theorem WellFormed.forall_name (hd : d.WellFormed) (h : d.layout names ≠ .nothing) :
    ∀ name ∈ names, IsName name ∧ name.size ≤ longestName := by
  cases hat : d.top.at? names with
  | none => exact absurd (Entry.layout_eq_nothing_iff.mpr hat) h
  | some e => exact (hd.wellNamed_top.of_at? hat).1

end StaticPreview.Disk
