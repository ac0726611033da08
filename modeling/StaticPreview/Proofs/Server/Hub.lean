import StaticPreview.Server.Hub

/-! # What waits for a client

A client that has not fallen behind gets the messages that were sent since it last got one, in the
order in which they were sent. It falls behind only when more of them wait than the hub keeps.
-/
namespace StaticPreview.Server.Hub

def Sound (h : Hub) : Prop := h.kept.length ≤ h.sent

/-- Whether a client has lost no message that it has not yet been told of, and gets exactly these
next. They are the last that were sent. -/
structure Awaits (h : Hub) (client : Nat) (waiting : List Message) : Prop where
  sound : h.Sound
  isSuffix : waiting <:+ h.kept
  next : h.clients[client]? = some (some (h.sent - waiting.length))

def Lags (h : Hub) (client : Nat) : Prop :=
  h.Sound ∧ ∃ next, h.clients[client]? = some (some next) ∧ next < h.oldest

variable {h : Hub} {client : Nat} {waiting : List Message}

theorem awaits_subscribe (hsound : h.Sound) : h.subscribe.Awaits h.clients.length [] := by
  refine ⟨hsound, List.nil_suffix, ?_⟩
  simp [subscribe]

theorem subscribers_ne_zero {next : Nat} (hnext : h.clients[client]? = some (some next)) :
    h.subscribers ≠ 0 := by
  intro hzero
  rw [subscribers, List.length_eq_zero_iff, List.filter_eq_nil_iff] at hzero
  exact hzero (some next) (List.mem_of_getElem? hnext) rfl

theorem send_of_client {next : Nat} (hnext : h.clients[client]? = some (some next)) (m : Message) :
    h.send m = { h with
      sent := h.sent + 1, kept := (h.kept ++ [m]).drop (h.kept.length + 1 - hubCapacity) } := by
  rw [send, if_neg (subscribers_ne_zero hnext)]
  simp only [List.length_append, List.length_singleton]

theorem length_kept_send {next : Nat} (hnext : h.clients[client]? = some (some next))
    (m : Message) :
    (h.send m).kept.length = min (h.kept.length + 1) hubCapacity := by
  rw [send_of_client hnext m]
  simp only [List.length_drop, List.length_append, List.length_singleton]
  omega

theorem Sound.send (hsound : h.Sound) (m : Message) : (h.send m).Sound := by
  unfold Sound at hsound ⊢
  rw [Hub.send]
  split
  · exact hsound
  · simp only [List.length_drop, List.length_append, List.length_singleton]
    omega

/-- A client that has lost nothing gets a new message last, as long as the hub keeps all that waits.
-/
theorem Awaits.send (hw : h.Awaits client waiting) (m : Message)
    (hroom : waiting.length < hubCapacity) : (h.send m).Awaits client (waiting ++ [m]) := by
  obtain ⟨hsound, ⟨old, hold⟩, hnext⟩ := hw
  have hkept : h.kept.length ≤ h.sent := hsound
  have hsend := send_of_client hnext m
  have hsizes : old.length + waiting.length = h.kept.length := by rw [← hold, List.length_append]
  refine ⟨hsound.send m, ?_, ?_⟩
  · refine ⟨old.drop (h.kept.length + 1 - hubCapacity), ?_⟩
    rw [hsend, ← hold, List.append_assoc, List.drop_append_of_le_length]
    rw [List.length_append]
    omega
  · rw [hsend]
    simpa using hnext

theorem Awaits.lags_send (hw : h.Awaits client waiting) (m : Message)
    (hfull : hubCapacity ≤ waiting.length) : (h.send m).Lags client := by
  obtain ⟨hsound, hsuffix, hnext⟩ := hw
  have hkept : h.kept.length ≤ h.sent := hsound
  have hlength := length_kept_send hnext m
  have hle := hsuffix.length_le
  have hsent : (h.send m).sent = h.sent + 1 := by rw [send_of_client hnext m]
  refine ⟨hsound.send m, h.sent - waiting.length, ?_, ?_⟩
  · rw [send_of_client hnext m]
    exact hnext
  · rw [oldest]
    omega

/-- A client that lags goes on to lag while messages are sent. -/
theorem Lags.send (hl : h.Lags client) (m : Message) : (h.send m).Lags client := by
  obtain ⟨hsound, next, hnext, hlt⟩ := hl
  have hkept : h.kept.length ≤ h.sent := hsound
  have hlength := length_kept_send hnext m
  have hsent : (h.send m).sent = h.sent + 1 := by rw [send_of_client hnext m]
  refine ⟨hsound.send m, next, ?_, ?_⟩
  · rw [send_of_client hnext m]
    exact hnext
  · rw [oldest] at hlt ⊢
    omega

theorem Awaits.receive_nil (hw : h.Awaits client []) : h.receive client = (.empty, h) := by
  obtain ⟨hsound, -, hnext⟩ := hw
  have hkept : h.kept.length ≤ h.sent := hsound
  have hnot : ¬ h.sent - ([] : List Message).length < h.oldest := by
    rw [oldest, List.length_nil]
    omega
  have hend : h.kept[h.sent - ([] : List Message).length - h.oldest]? = none := by
    rw [List.getElem?_eq_none_iff, oldest, List.length_nil]
    omega
  simp only [receive, hnext, if_neg hnot, hend]

theorem Awaits.receive_cons {m : Message} (hw : h.Awaits client (m :: waiting)) :
    (h.receive client).1 = .message m ∧ (h.receive client).2.Awaits client waiting := by
  obtain ⟨hsound, ⟨old, hold⟩, hnext⟩ := hw
  have hkept : h.kept.length ≤ h.sent := hsound
  have hsizes : old.length + (waiting.length + 1) = h.kept.length := by
    rw [← hold, List.length_append, List.length_cons]
  have hnot : ¬ h.sent - (m :: waiting).length < h.oldest := by
    rw [oldest, List.length_cons]
    omega
  have hfirst : h.kept[h.sent - (m :: waiting).length - h.oldest]? = some m := by
    have hplace : h.sent - (m :: waiting).length - h.oldest = old.length := by
      rw [oldest, List.length_cons]
      omega
    rw [hplace, ← hold, List.getElem?_append_right (Nat.le_refl _), Nat.sub_self]
    rfl
  simp only [receive, hnext, if_neg hnot, hfirst]
  refine ⟨trivial, hsound, ⟨old ++ [m], by rw [← hold]; simp⟩, ?_⟩
  obtain ⟨hlt, -⟩ := List.getElem?_eq_some_iff.mp hnext
  dsimp only
  rw [List.getElem?_set_self hlt, List.length_cons]
  congr 2
  omega

theorem sound_receive (hsound : h.Sound) (client : Nat) : (h.receive client).2.Sound := by
  rw [receive]
  split
  · split
    · exact hsound
    · split <;> exact hsound
  · exact hsound

theorem length_clients_receive (h : Hub) (client : Nat) :
    (h.receive client).2.clients.length = h.clients.length := by
  rw [receive]
  split
  · split
    · exact List.length_set
    · split
      · exact List.length_set
      · rfl
  · rfl

theorem length_clients_send (h : Hub) (m : Message) :
    (h.send m).clients.length = h.clients.length := by
  rw [send]
  split <;> rfl

/-- A client that fell behind learns how many messages it lost. -/
theorem Lags.receive (hl : h.Lags client) :
    (∃ lost, 0 < lost ∧ (h.receive client).1 = .lagged lost) ∧
      (h.receive client).2.Awaits client h.kept := by
  obtain ⟨hsound, next, hnext, hlt⟩ := hl
  simp only [Hub.receive, hnext, if_pos hlt]
  refine ⟨⟨h.oldest - next, by omega, rfl⟩, hsound, List.suffix_rfl, ?_⟩
  obtain ⟨hlt', -⟩ := List.getElem?_eq_some_iff.mp hnext
  dsimp only
  rw [List.getElem?_set_self hlt', oldest]

end StaticPreview.Server.Hub
