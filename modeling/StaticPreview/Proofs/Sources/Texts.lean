import Mathlib.Data.List.Induction
import StaticPreview.Sources

/-! # Sources by their logical paths

Sources are what their look-ups are: two that answer all alike are the same.
-/
namespace StaticPreview.Sources

/-- Sources are the same if they hold the same texts under all logical paths. -/
theorem ext {s t : Sources} (h : ∀ key, s.get? key = t.get? key) : s = t :=
  congrArg Sources.mk (Std.ExtTreeMap.ext_getElem? h)

theorem get?_empty (key : String) : empty.get? key = none := by
  rw [get?, empty, Std.ExtTreeMap.getElem?_empty]

theorem get?_insert (s : Sources) (path text key : String) :
    (s.insert path text).get? key = if path = key then some text else s.get? key := by
  rw [get?, insert, Std.ExtTreeMap.getElem?_insert]
  simp only [Std.LawfulEqCmp.compare_eq_iff_eq]
  rfl

theorem get?_erase (s : Sources) (path key : String) :
    (s.erase path).get? key = if path = key then none else s.get? key := by
  rw [get?, erase, Std.ExtTreeMap.getElem?_erase]
  simp only [Std.LawfulEqCmp.compare_eq_iff_eq]
  rfl

theorem insert_insert_self (s : Sources) (path text : String) :
    (s.insert path text).insert path text = s.insert path text := by
  apply ext
  intro key
  rw [get?_insert, get?_insert]
  split <;> rfl

theorem mem_paths_iff (s : Sources) (path : String) :
    path ∈ s.paths ↔ (s.get? path).isSome := by
  rw [paths, List.mem_map, Option.isSome_iff_exists]
  constructor
  · rintro ⟨⟨key, text⟩, hmem, rfl⟩
    exact ⟨text, Std.ExtTreeMap.mem_toList_iff_getElem?_eq_some.mp hmem⟩
  · rintro ⟨text, hget⟩
    exact ⟨(path, text), Std.ExtTreeMap.mem_toList_iff_getElem?_eq_some.mpr hget, rfl⟩

/-- Sources are listed in the order of their logical paths, each once. -/
theorem pairwise_paths (s : Sources) : s.paths.Pairwise (· < ·) := by
  have hordered : s.toList.Pairwise fun a b => compare a.1 b.1 = .lt :=
    Std.ExtTreeMap.ordered_keys_toList
  refine List.pairwise_map.mpr (hordered.imp ?_)
  intro a b h
  exact compareOfLessAndEq_eq_lt.mp h

theorem nodup_paths (s : Sources) : s.paths.Nodup := by
  refine s.pairwise_paths.imp ?_
  rintro a b h rfl
  exact String.lt_irrefl a h

theorem nodup_toList (s : Sources) : s.toList.Nodup := by
  refine (List.pairwise_map.mp s.nodup_paths).imp ?_
  intro a b hne heq
  exact hne (congrArg Prod.fst heq)

section
variable {α : Type} {p : α → Prop} {l : List α} {a b : α}

/-- Whether an element is the last of a list that has a property. -/
def IsLast (p : α → Prop) (l : List α) (a : α) : Prop :=
  p a ∧ ∃ before after, l = before ++ a :: after ∧ ∀ later ∈ after, ¬ p later

theorem IsLast.mem (h : IsLast p l a) : a ∈ l := by
  obtain ⟨-, before, after, rfl, -⟩ := h
  simp

theorem IsLast.congr {q : α → Prop} (h : ∀ a ∈ l, p a ↔ q a) : IsLast p l a ↔ IsLast q l a := by
  have hboth {p q : α → Prop} (h : ∀ a ∈ l, p a ↔ q a) (hlast : IsLast p l a) : IsLast q l a := by
    obtain ⟨ha, before, after, rfl, hafter⟩ := hlast
    exact ⟨(h a (by simp)).mp ha, before, after, rfl,
      fun later hlater hq => hafter later hlater ((h later (by simp [hlater])).mpr hq)⟩
  exact ⟨hboth h, hboth fun a ha => (h a ha).symm⟩

theorem isLast_concat_iff :
    IsLast p (l ++ [b]) a ↔ (p b ∧ a = b) ∨ (¬ p b ∧ IsLast p l a) := by
  constructor
  · rintro ⟨ha, before, after, hl, hafter⟩
    rcases after.eq_nil_or_concat with rfl | ⟨init, last, rfl⟩
    · obtain ⟨-, hlast⟩ := List.append_inj' hl rfl
      obtain rfl := List.singleton_inj.mp hlast
      exact .inl ⟨ha, rfl⟩
    · rw [List.concat_eq_append, ← List.cons_append, ← List.append_assoc] at hl
      obtain ⟨rfl, hlast⟩ := List.append_inj' hl rfl
      obtain rfl := List.singleton_inj.mp hlast
      exact .inr ⟨hafter b (by simp), ha, before, init, rfl,
        fun later hlater => hafter later (by simp [hlater])⟩
  · rintro (⟨hb, rfl⟩ | ⟨hb, ha, before, after, rfl, hafter⟩)
    · exact ⟨hb, l, [], rfl, by simp⟩
    · refine ⟨ha, before, after ++ [b], by simp, ?_⟩
      simpa [or_imp, forall_and] using ⟨hafter, hb⟩

theorem IsLast.unique (h : IsLast p l a) (h' : IsLast p l b) : a = b := by
  induction l using List.reverseRecOn with
  | nil => exact absurd h.mem List.not_mem_nil
  | append_singleton l last ih =>
    rcases isLast_concat_iff.mp h with ⟨hlast, rfl⟩ | ⟨hlast, h⟩ <;>
      rcases isLast_concat_iff.mp h' with ⟨hlast', rfl⟩ | ⟨hlast', h'⟩
    · rfl
    · exact absurd hlast hlast'
    · exact absurd hlast' hlast
    · exact ih h h'

theorem exists_isLast (hmem : a ∈ l) (ha : p a) : ∃ last, IsLast p l last := by
  induction l using List.reverseRecOn with
  | nil => cases hmem
  | append_singleton l last ih =>
    simp only [isLast_concat_iff]
    by_cases hlast : p last
    · exact ⟨last, .inl ⟨hlast, rfl⟩⟩
    · rcases List.mem_append.mp hmem with hmem | hmem
      · obtain ⟨a', ha'⟩ := ih hmem
        exact ⟨a', .inr ⟨hlast, ha'⟩⟩
      · obtain rfl := List.mem_singleton.mp hmem
        exact absurd ha hlast

theorem ofList_concat (files : List (String × String)) (file : String × String) :
    ofList (files ++ [file]) = (ofList files).insert file.1 file.2 := by
  rw [ofList, List.foldl_append]
  rfl

/-- Of files with one logical path the last one counts. -/
theorem get?_ofList_filterMap_iff {f : α → Option (String × String)} {key text : String} :
    (ofList (l.filterMap f)).get? key = some text ↔
      ∃ file, f file = some (key, text) ∧
        IsLast (fun file => ∃ text, f file = some (key, text)) l file := by
  induction l using List.reverseRecOn with
  | nil =>
    constructor
    · intro h
      simp [ofList, get?_empty] at h
    · rintro ⟨file, -, hlast⟩
      exact absurd hlast.mem List.not_mem_nil
  | append_singleton l file ih =>
    simp only [isLast_concat_iff]
    rw [List.filterMap_append]
    cases hfile : f file with
    | none => simpa [hfile] using ih
    | some found =>
      obtain ⟨path, content⟩ := found
      rw [List.filterMap_cons_some hfile, List.filterMap_nil, ofList_concat, get?_insert]
      by_cases hpath : path = key
      · simp [hpath, hfile]
      · simpa [hpath] using ih

end

end StaticPreview.Sources
