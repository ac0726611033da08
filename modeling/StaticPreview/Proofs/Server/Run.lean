import StaticPreview.Server.Session

/-! # Runs of a preview server

While a server runs the disk changes at will, and events come at any time. An event need not tell
what the disk is like by then.
-/
namespace StaticPreview.Server

inductive Happening where
  /-- The disk is another one from now on. -/
  | disk (d : Disk)
  | event (e : Watch.Event)

structure Running where
  disk : Disk
  server : State

namespace Running

def next (r : Running) : Happening → Running
  | .disk d => { r with disk := d }
  | .event e => { r with server := (r.server.handle r.disk e).2 }

def run (r : Running) (happenings : List Happening) : Running :=
  happenings.foldl next r

/-- The source that the preview should show. -/
def shown? (r : Running) : Option (String × String) :=
  r.server.sources.entry? r.server.settings.entry

/-- The sources that have to be shown one after the other in a run. -/
def entries (r : Running) : List Happening → List (String × String)
  | [] => r.shown?.toList
  | h :: more => r.shown?.toList ++ (r.next h).entries more

theorem mem_entries_of_shown? {r : Running} {file : String × String} (h : r.shown? = some file)
    (happenings : List Happening) : file ∈ r.entries happenings := by
  cases happenings <;> simp [entries, h]

theorem mem_entries_cons {r : Running} {h : Happening} {more : List Happening}
    {file : String × String} (hmem : file ∈ (r.next h).entries more) :
    file ∈ r.entries (h :: more) :=
  List.mem_append_right _ hmem

end Running

namespace State

theorem announce_snd (s : State) : s.announce.2 = s.refresh.2 := by
  rw [announce]
  split <;> simp_all

/-- All that hearing of an event can do. -/
theorem handle_cases (d : Disk) (s : State) (e : Watch.Event) :
    (∃ text, e.kind = .changed ∧ d.read e.path = .ok text ∧
      s.handle d e = { s with sources := s.sources.insert (s.logical d e.path) text }.announce) ∨
    (∃ text, e.kind = .removed ∧ s.sources.get? (s.logical d e.path) = some text ∧
      s.handle d e = { s with sources := s.sources.erase (s.logical d e.path) }.announce) ∨
    ((∀ text, e.kind = .changed → d.read e.path ≠ .ok text) ∧
      (e.kind = .removed → s.sources.get? (s.logical d e.path) = none) ∧
      s.handle d e =
        (if e.kind = .other ∧ s.isPublic d e.path then some .reload else none, s)) := by
  rw [handle]
  split
  next hkind =>
    split
    next text htext => exact .inl ⟨text, hkind, htext, rfl⟩
    next e' he => exact .inr (.inr ⟨by simp [he], by simp [hkind], by simp [hkind]⟩)
  next hkind =>
    cases hget : s.sources.get? (s.logical d e.path) with
    | some text => exact .inr (.inl ⟨text, hkind, rfl, by simp only [hget]⟩)
    | none => exact .inr (.inr ⟨by simp [hkind], fun _ => rfl, by simp [hkind, hget]⟩)
  next hkind => exact .inr (.inr ⟨by simp [hkind], by simp [hkind], by simp [hkind]⟩)

theorem settings_handle (d : Disk) (s : State) (e : Watch.Event) :
    (s.handle d e).2.settings = s.settings := by
  rcases s.handle_cases d e with ⟨text, -, -, h⟩ | ⟨text, -, -, h⟩ | ⟨-, -, h⟩
  · rw [h, announce_snd]
    rfl
  · rw [h, announce_snd]
    rfl
  · rw [h]

end State
end StaticPreview.Server
