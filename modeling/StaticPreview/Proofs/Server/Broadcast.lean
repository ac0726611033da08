import StaticPreview.Proofs.Server.Hub
import StaticPreview.Proofs.Server.Run
import StaticPreview.Proofs.Sources.Texts

/-! # What the pages are told

A refresh is sent for the events that change the preview, and it carries the preview that is
current then. So a client that lost nothing holds the current preview when nothing waits for it.
-/
namespace StaticPreview.Server

/-- What a client that held a preview holds after a message. -/
def Message.overwrite (held : Preview) : Message → Preview
  | .refresh p => p
  | _ => held

theorem convertCached_again (s : Settings) (cache : Cache) (file : String × String) :
    convertCached s (convertCached s cache file).2 file = convertCached s cache file := by
  cases hkept : cache[sourceKey file]? with
  | some conversion =>
    have hfirst : convertCached s cache file = (conversion, cache) := by
      simp only [convertCached, hkept]
    rw [hfirst]
    exact hfirst
  | none =>
    let conversion := Conversion.convert s.stylesheet file.2 file.1
    have hfirst : convertCached s cache file =
        (conversion, cache.insert (sourceKey file) conversion) := by
      simp only [convertCached, hkept]
      rfl
    have hnow :
        (cache.insert (sourceKey file) conversion)[sourceKey file]? = some conversion := by
      rw [Cache.insert, Std.ExtTreeMap.getElem?_insert_self]
    rw [hfirst]
    simp only [convertCached, hnow]

theorem preview_again (s : Settings) (cache : Cache) (sources : Sources) :
    preview s (preview s cache sources).2 sources = preview s cache sources := by
  cases hentry : sources.entry? s.entry with
  | none => simp only [preview, hentry]
  | some file => simp only [preview, hentry, convertCached_again]

namespace State

theorem refresh_again (s : State) : s.refresh.2.refresh = (false, s.refresh.2) := by
  have hsame := preview_again s.settings s.cache s.sources
  simp only [refresh, hsame]
  simp

theorem announce_again (s : State) : s.announce.2.announce = (none, s.announce.2) := by
  rw [announce_snd, announce, refresh_again]

/-- A refresh is sent when the preview is another one now, and carries this one. -/
theorem announce_eq_refresh_iff (s : State) (p : Preview) :
    s.announce.1 = some (.refresh p) ↔ p = s.announce.2.current ∧ p ≠ s.current := by
  rw [announce_snd]
  by_cases hsame : (preview s.settings s.cache s.sources).1 = s.current
  · have hnone : s.announce.1 = none := by simp [announce, refresh, hsame]
    rw [hnone]
    constructor
    · intro h
      cases h
    · rintro ⟨rfl, hne⟩
      exact absurd hsame hne
  · have hsome : s.announce.1 = some (.refresh s.refresh.2.current) := by
      simp [announce, refresh, hsame]
    rw [hsome, Option.some.injEq, Message.refresh.injEq]
    constructor
    · rintro rfl
      exact ⟨rfl, hsame⟩
    · rintro ⟨rfl, -⟩
      rfl

theorem handle_eq_refresh_iff (d : Disk) (s : State) (e : Watch.Event) (p : Preview) :
    (s.handle d e).1 = some (.refresh p) ↔ p = (s.handle d e).2.current ∧ p ≠ s.current := by
  rcases s.handle_cases d e with ⟨text, -, -, h⟩ | ⟨text, -, -, h⟩ | ⟨-, -, h⟩
  · rw [h]
    exact announce_eq_refresh_iff _ p
  · rw [h]
    exact announce_eq_refresh_iff _ p
  · rw [h]
    constructor
    · split <;> intro hreload <;> cases hreload
    · rintro ⟨rfl, hne⟩
      exact absurd rfl hne

theorem announce_ne_reload (s : State) : s.announce.1 ≠ some .reload := by
  rw [announce]
  split <;> simp

/-- The pages are told to reload for what happens to public files and is of no other kind. -/
theorem handle_eq_reload_iff (d : Disk) (s : State) (e : Watch.Event) :
    (s.handle d e).1 = some .reload ↔ e.kind = .other ∧ s.isPublic d e.path := by
  rcases s.handle_cases d e with ⟨text, hkind, -, h⟩ | ⟨text, hkind, -, h⟩ | ⟨-, -, h⟩
  · simp [h, hkind, announce_ne_reload]
  · simp [h, hkind, announce_ne_reload]
  · rw [h]
    split <;> simp_all

theorem sources_announce (s : State) : s.announce.2.sources = s.sources := by
  rw [announce_snd]
  rfl

theorem logical_handle (d : Disk) (s : State) (e : Watch.Event) (path : RawText) :
    (s.handle d e).2.logical d path = s.logical d path := by
  rw [logical, settings_handle, logical]

theorem handle_of_read {d : Disk} {s : State} {e : Watch.Event} {text : String}
    (hkind : e.kind = .changed) (htext : d.read e.path = .ok text) :
    s.handle d e =
      ({ s with sources := s.sources.insert (s.logical d e.path) text } : State).announce := by
  rw [handle]
  simp only [hkind, htext]

theorem handle_of_unknown {d : Disk} {s : State} {e : Watch.Event}
    (hkind : e.kind = .removed) (hget : s.sources.get? (s.logical d e.path) = none) :
    s.handle d e = (none, s) := by
  rw [handle]
  simp only [hkind, hget]

/-- Nothing more comes of an event that is heard of again while the disk is the same. -/
theorem handle_again (d : Disk) (s : State) (e : Watch.Event) :
    ((s.handle d e).2.handle d e).2 = (s.handle d e).2 := by
  rcases s.handle_cases d e with ⟨text, hkind, htext, h⟩ | ⟨text, hkind, -, h⟩ | ⟨-, -, h⟩
  · have hheld : (s.handle d e).2.sources = s.sources.insert (s.logical d e.path) text := by
      rw [h, sources_announce]
    have hsame : (s.handle d e).2.sources.insert ((s.handle d e).2.logical d e.path) text =
        (s.handle d e).2.sources := by
      rw [logical_handle, hheld, Sources.insert_insert_self]
    rw [handle_of_read hkind htext, hsame, h, announce_again]
  · have hgone : (s.handle d e).2.sources.get? ((s.handle d e).2.logical d e.path) = none := by
      rw [logical_handle, h, sources_announce, Sources.get?_erase, if_pos rfl]
    rw [handle_of_unknown hkind hgone]
  · rw [h]
    dsimp only
    rw [h]

/-- The messages of an event bring the preview that was current up to date. -/
theorem overwrite_handle (d : Disk) (s : State) (e : Watch.Event) :
    (s.handle d e).1.toList.foldl Message.overwrite s.current = (s.handle d e).2.current := by
  have hiff := handle_eq_refresh_iff d s e
  have hsame (hnot : ∀ p, (s.handle d e).1 ≠ some (.refresh p)) :
      s.current = (s.handle d e).2.current := by
    apply Decidable.byContradiction
    intro hne
    exact hnot _ ((hiff _).mpr ⟨rfl, Ne.symm hne⟩)
  cases hmessage : (s.handle d e).1 with
  | none => exact hsame fun p => by simp [hmessage]
  | some m =>
    cases m with
    | refresh p => exact ((hiff p).mp hmessage).1
    | reload => exact hsame fun p => by simp [hmessage]
    | connected => exact hsame fun p => by simp [hmessage]

end State

namespace Session
open Hub

variable {s : Session} {client : Nat} {waiting : List Message}

theorem hub_handle (d : Disk) (s : Session) (e : Watch.Event) :
    (s.handle d e).hub = (s.state.handle d e).1.elim s.hub s.hub.send := rfl

theorem awaits_handle (hw : s.hub.Awaits client waiting) (hroom : waiting.length < hubCapacity)
    (d : Disk) (e : Watch.Event) :
    (s.handle d e).hub.Awaits client (waiting ++ (s.state.handle d e).1.toList) := by
  rw [hub_handle]
  cases (s.state.handle d e).1 with
  | none => simpa using hw
  | some m => exact hw.send m hroom

theorem lags_handle (hl : s.hub.Lags client) (d : Disk) (e : Watch.Event) :
    (s.handle d e).hub.Lags client := by
  rw [hub_handle]
  cases (s.state.handle d e).1 with
  | none => exact hl
  | some m => exact hl.send m

theorem awaits_or_lags_handle (hw : s.hub.Awaits client waiting) (d : Disk) (e : Watch.Event) :
    (s.handle d e).hub.Awaits client (waiting ++ (s.state.handle d e).1.toList) ∨
      (s.handle d e).hub.Lags client := by
  by_cases hroom : waiting.length < hubCapacity
  · exact .inl (awaits_handle hw hroom d e)
  · rw [hub_handle]
    cases (s.state.handle d e).1 with
    | none => exact .inl (by simpa using hw)
    | some m => exact .inr (hw.lags_send m (Nat.le_of_not_lt hroom))

end Session
end StaticPreview.Server
