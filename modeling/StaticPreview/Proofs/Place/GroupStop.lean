import StaticPreview.Proofs.Markup.GroupReading
import StaticPreview.Proofs.Place.Group

/-! # Where a group stops

The search from byte to byte for the end of a group stops where the grammar does.
-/
namespace StaticPreview.Place
open Text Markup

theorem groupStop?_eq_some_iff_isGroup {s : List Char} {place : Nat}
    (hopen : byteAt? s place = some '\x7b') (stop : Nat) :
    groupStop? s place = some stop ↔ ∃ g, slice s place stop = .ok g ∧ IsGroup g := by
  obtain ⟨a, r, rfl, rfl⟩ := exists_append_of_byteAt? (by decide) hopen
  rw [groupStop?_append]
  constructor
  · intro h
    obtain ⟨⟨g, after⟩, hgroup, rfl⟩ := Option.map_eq_some_iff.mp h
    obtain ⟨hg, happend⟩ := group?_eq_some_iff.mp hgroup
    exact ⟨g, slice_width_eq_ok_iff.mpr ⟨after, happend, (width_append a g).symm⟩, hg⟩
  · rintro ⟨g, hslice, hg⟩
    obtain ⟨after, happend, rfl⟩ := slice_width_eq_ok_iff.mp hslice
    rw [group?_eq_some_iff.mpr ⟨hg, happend⟩, stopOf_some, width_append]

/-- Where a brace stands, the place that the search stops at is the end of the group that the
grammar derives there. No other group begins there, and without one the search finds none. -/
theorem groupStop?_grammar {s : List Char} {place : Nat}
    (hopen : byteAt? s place = some '\x7b') :
    (∀ stop, groupStop? s place = some stop ↔ ∃ g, slice s place stop = .ok g ∧ IsGroup g) ∧
    (∀ stop stop' g g', slice s place stop = .ok g → slice s place stop' = .ok g' →
      IsGroup g → IsGroup g' → stop = stop') ∧
    (groupStop? s place = none ↔ ∀ stop g, slice s place stop = .ok g → ¬ IsGroup g) ∧
    ∃ a r, s = a ++ '\x7b' :: r ∧ place = width a ∧
      groupStop? s place = stopOf place (group? ('\x7b' :: r)) ∧
      ∀ g after, group? ('\x7b' :: r) = some (g, after) ↔
        IsGroup g ∧ g ++ after = '\x7b' :: r := by
  have hiff := groupStop?_eq_some_iff_isGroup hopen
  refine ⟨hiff, ?_, ?_, ?_⟩
  · intro stop stop' g g' hslice hslice' hg hg'
    have hfirst := (hiff stop).mpr ⟨g, hslice, hg⟩
    have hsecond := (hiff stop').mpr ⟨g', hslice', hg'⟩
    exact Option.some.inj (hfirst.symm.trans hsecond)
  · rw [Option.eq_none_iff_forall_ne_some]
    constructor
    · intro hnone stop g hslice hg
      exact hnone stop ((hiff stop).mpr ⟨g, hslice, hg⟩)
    · intro hnone stop hstop
      obtain ⟨g, hslice, hg⟩ := (hiff stop).mp hstop
      exact hnone stop g hslice hg
  · obtain ⟨a, r, rfl, rfl⟩ := exists_append_of_byteAt? (by decide) hopen
    exact ⟨a, r, rfl, rfl, groupStop?_append a ('\x7b' :: r), fun g after => group?_eq_some_iff⟩

/-- The group in an attribute behind a character of two bytes: a nested group, a literal that
holds a brace and an escaped mark, and an escape that takes a character of three bytes. -/
theorem groupStop?_grammar_nested :
    let s := ['é', '\x7b', 'a', '\x7b', '"', '\x7d', '\\', '"', '\\', '€', '"', '\x7d', '\x7d', '>']
    byteAt? s 2 = some '\x7b' ∧
      (∃ g, slice s 2 16 = .ok g ∧ IsGroup g) ∧
      ∀ stop' g', slice s 2 stop' = .ok g' → IsGroup g' → 16 = stop' := by
  intro s
  have hbyte : byteAt? s 2 = some '\x7b' := by decide +kernel
  have hstop : groupStop? s 2 = some 16 := by decide +kernel
  obtain ⟨hiff, hunique, -⟩ := groupStop?_grammar hbyte
  obtain ⟨g, hslice, hg⟩ := (hiff 16).mp hstop
  refine ⟨hbyte, ⟨g, hslice, hg⟩, ?_⟩
  intro stop' g' hslice' hg'
  exact hunique 16 stop' g g' hslice hslice' hg hg'

end StaticPreview.Place
