import StaticPreview.Proofs.Server.Broadcast
import StaticPreview.Proofs.Server.Memo

/-! # A client that listens from the start

The client holds a preview, at first the one that the server starts with, and every refresh that it
receives takes its place. It receives messages when it likes, and may fall behind.
-/
namespace StaticPreview.Server

/-- A running server with its first client: the preview that the client holds, and the number of
messages that it was told it lost. -/
structure Listener where
  disk : Disk
  session : Session
  held : Preview
  lost : Nat

inductive Turn where
  | happening (h : Happening)
  | receive

namespace Listener

def start (d : Disk) (s : State) : Listener :=
  ⟨d, (Session.mk s .new).subscribe, s.current, 0⟩

def receive (l : Listener) : Listener :=
  let (receipt, hub) := l.session.hub.receive 0
  let l := { l with session := { l.session with hub := hub } }
  match receipt with
  | .message m => { l with held := m.overwrite l.held }
  | .lagged lost => { l with lost := l.lost + lost }
  | _ => l

def next (l : Listener) : Turn → Listener
  | .happening (.disk d) => { l with disk := d }
  | .happening (.event e) => { l with session := l.session.handle l.disk e }
  | .receive => l.receive

def run (l : Listener) (turns : List Turn) : Listener :=
  turns.foldl next l

def current (l : Listener) : Preview := l.session.state.current

def IsIdle (l : Listener) : Prop := (l.session.hub.receive 0).1 = .empty

/-- Whether what waits for the client brings what it holds up to date. -/
def Follows (l : Listener) (waiting : List Message) : Prop :=
  l.session.hub.Awaits 0 waiting ∧ waiting.foldl Message.overwrite l.held = l.current

theorem follows_start (d : Disk) (s : State) : (start d s).Follows [] :=
  ⟨Hub.awaits_subscribe (Nat.le_refl 0), rfl⟩

variable {l : Listener} {waiting : List Message}

theorem receive_of_nil (h : l.Follows []) : l.receive = l := by
  rw [receive, h.1.receive_nil]

theorem follows_receive {m : Message} (h : l.Follows (m :: waiting)) :
    l.receive.Follows waiting := by
  obtain ⟨hw, hheld⟩ := h
  obtain ⟨hmessage, hw'⟩ := hw.receive_cons
  cases hreceive : l.session.hub.receive 0 with
  | mk receipt hub =>
    rw [hreceive] at hmessage hw'
    dsimp only at hmessage
    subst hmessage
    rw [receive, hreceive]
    exact ⟨hw', hheld⟩

theorem follows_event (h : l.Follows waiting) (e : Watch.Event)
    (hw : (l.session.handle l.disk e).hub.Awaits 0
      (waiting ++ (l.session.state.handle l.disk e).1.toList)) :
    (l.next (.happening (.event e))).Follows
      (waiting ++ (l.session.state.handle l.disk e).1.toList) := by
  refine ⟨hw, ?_⟩
  have hstate : (l.session.handle l.disk e).state = (l.session.state.handle l.disk e).2 := rfl
  have hheld : waiting.foldl Message.overwrite l.held = l.session.state.current := h.2
  rw [List.foldl_append]
  change List.foldl Message.overwrite (waiting.foldl Message.overwrite l.held) _ = _
  rw [hheld, State.overwrite_handle]
  exact congrArg State.current hstate.symm

/-- What holds of a client in all of a run: it lost messages, or will learn that it did, or follows
the server. -/
def Keeps (l : Listener) : Prop :=
  0 < l.lost ∨ l.session.hub.Lags 0 ∨ ∃ waiting, l.Follows waiting

theorem lost_le_receive (l : Listener) : l.lost ≤ l.receive.lost := by
  rw [receive]
  cases l.session.hub.receive 0 with
  | mk receipt hub => cases receipt <;> simp

theorem lost_le_next (l : Listener) (t : Turn) : l.lost ≤ (l.next t).lost := by
  cases t with
  | receive => exact l.lost_le_receive
  | happening h => cases h <;> exact Nat.le_refl _

theorem lost_receive_pos (h : l.session.hub.Lags 0) : 0 < l.receive.lost := by
  obtain ⟨⟨lost, hlost, hreceipt⟩, -⟩ := h.receive
  cases hreceive : l.session.hub.receive 0 with
  | mk receipt hub =>
    rw [hreceive] at hreceipt
    dsimp only at hreceipt
    subst hreceipt
    rw [receive, hreceive]
    dsimp only
    omega

/-- One turn keeps what holds of a client, whatever happens in it. -/
theorem Keeps.next (h : l.Keeps) (t : Turn) : (l.next t).Keeps := by
  rcases h with hlost | hlags | ⟨waiting, hw⟩
  · exact .inl (Nat.lt_of_lt_of_le hlost (l.lost_le_next t))
  · cases t with
    | receive => exact .inl (lost_receive_pos hlags)
    | happening h =>
      cases h with
      | disk d => exact .inr (.inl hlags)
      | event e => exact .inr (.inl (Session.lags_handle hlags l.disk e))
  · cases t with
    | receive =>
      cases waiting with
      | nil =>
        refine .inr (.inr ⟨[], ?_⟩)
        rw [Listener.next, receive_of_nil hw]
        exact hw
      | cons m more => exact .inr (.inr ⟨more, follows_receive hw⟩)
    | happening h =>
      cases h with
      | disk d => exact .inr (.inr ⟨waiting, hw⟩)
      | event e =>
        rcases Session.awaits_or_lags_handle hw.1 l.disk e with hw' | hlags
        · exact .inr (.inr ⟨_, follows_event hw e hw'⟩)
        · exact .inr (.inl hlags)

/-- What holds of a client is kept by every run. -/
theorem Keeps.run (h : l.Keeps) (turns : List Turn) : (l.run turns).Keeps := by
  induction turns generalizing l with
  | nil => exact h
  | cons t more ih => exact ih (h.next t)

theorem Keeps.held_eq (h : l.Keeps) (hlost : l.lost = 0) (hidle : l.IsIdle) :
    l.held = l.current := by
  rw [IsIdle] at hidle
  rcases h with hpos | hlags | ⟨waiting, hw, hheld⟩
  · omega
  · obtain ⟨⟨lost, -, hreceipt⟩, -⟩ := hlags.receive
    rw [hreceipt] at hidle
    cases hidle
  · cases waiting with
    | nil => exact hheld
    | cons m more =>
      rw [hw.receive_cons.1] at hidle
      cases hidle

/-- A run in which the client looks for a message after each happening. -/
def prompt (happenings : List Happening) : List Turn :=
  happenings.flatMap fun h => [.happening h, .receive]

theorem follows_receive_event (h : l.Follows []) (e : Watch.Event) :
    (l.next (.happening (.event e))).receive.Follows [] := by
  have hroom : ([] : List Message).length < hubCapacity := by decide
  have hw := follows_event h e (Session.awaits_handle h.1 hroom l.disk e)
  rw [List.nil_append] at hw
  cases hmessage : (l.session.state.handle l.disk e).1 with
  | none =>
    rw [hmessage] at hw
    rw [receive_of_nil hw]
    exact hw
  | some m =>
    rw [hmessage] at hw
    exact follows_receive hw

theorem follows_run_prompt (h : l.Follows []) (happenings : List Happening) :
    (l.run (prompt happenings)).Follows [] := by
  induction happenings generalizing l with
  | nil => exact h
  | cons happening more ih =>
    have hstep : l.run (prompt (happening :: more)) =
        ((l.next (.happening happening)).receive).run (prompt more) := rfl
    rw [hstep]
    cases happening with
    | disk d =>
      have hdisk : (l.next (.happening (.disk d))).Follows [] := h
      rw [receive_of_nil hdisk]
      exact ih hdisk
    | event e => exact ih (follows_receive_event h e)

/-- A client that receives at once holds the current preview after every happening, and one that
takes its time and has lost nothing holds it whenever nothing waits. A refresh is sent for exactly
the events that change the preview, so for none that is heard of again at once. -/
theorem held_run (d : Disk) (s : State) :
    (∀ happenings, ((start d s).run (prompt happenings)).held =
      ((start d s).run (prompt happenings)).current) ∧
    (∀ turns, ((start d s).run turns).lost = 0 → ((start d s).run turns).IsIdle →
      ((start d s).run turns).held = ((start d s).run turns).current) ∧
    ∀ turns e, let l := (start d s).run turns
      let after := l.session.state.handle l.disk e
      (∀ p, after.1 = some (.refresh p) ↔ p = after.2.current ∧ p ≠ l.current) ∧
        ∀ p, (after.2.handle l.disk e).1 ≠ some (.refresh p) := by
  have hstart := follows_start d s
  refine ⟨?prompt, ?slow, ?refresh⟩
  case prompt =>
    intro happenings
    exact (follows_run_prompt hstart happenings).2
  case slow =>
    intro turns hlost hidle
    have hkeeps : (start d s).Keeps := .inr (.inr ⟨[], hstart⟩)
    exact (hkeeps.run turns).held_eq hlost hidle
  case refresh =>
    intro turns e
    refine ⟨State.handle_eq_refresh_iff _ _ e, ?_⟩
    intro p hp
    obtain ⟨hcurrent, hne⟩ := (State.handle_eq_refresh_iff _ _ e p).mp hp
    rw [State.handle_again] at hcurrent
    exact hne hcurrent

/-- The entry goes and comes back before the client looks for a message. -/
theorem held_run_awayAndBack :
    let l := (start twoSources loaded).run (awayAndBack.map .happening ++ [.receive, .receive])
    l.lost = 0 ∧ l.IsIdle ∧ l.held = l.current := by
  have hlost : ((start twoSources loaded).run
      (awayAndBack.map .happening ++ [.receive, .receive])).lost = 0 := by
    decide +kernel
  have hidle : (((start twoSources loaded).run
      (awayAndBack.map .happening ++ [.receive, .receive])).session.hub.receive 0).1 = .empty := by
    decide +kernel
  have hheld := (held_run twoSources loaded).2.1 _ hlost hidle
  exact ⟨hlost, hidle, hheld⟩

end Listener
end StaticPreview.Server
