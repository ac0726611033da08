import StaticPreview.Server.Message

/-! # The message hub

Every client gets the messages that were sent after it subscribed, in order. The hub keeps the last
messages only: a client that fell further behind learns how many it lost, and goes on with the
oldest that is kept. What is sent while nobody listens is lost.
-/
namespace StaticPreview.Server

def hubCapacity : Nat := 128

/-- `sent` counts all messages, and `kept` holds the last of them, the oldest first. A client is
known by the number of the message that it gets next; it is none once it unsubscribed. -/
structure Hub where
  sent : Nat
  kept : List Message
  clients : List (Option Nat)
  deriving Repr

inductive Receipt where
  | message (m : Message)
  | empty
  | lagged (lost : Nat)
  | noClient
  deriving DecidableEq, Repr

namespace Hub

def new : Hub := ⟨0, [], []⟩

def subscribers (h : Hub) : Nat :=
  (h.clients.filter Option.isSome).length

def subscribe (h : Hub) : Hub :=
  { h with clients := h.clients ++ [some h.sent] }

def unsubscribe (h : Hub) (client : Nat) : Hub :=
  { h with clients := h.clients.set client none }

def send (h : Hub) (m : Message) : Hub :=
  if h.subscribers = 0 then h
  else
    let kept := h.kept ++ [m]
    { h with sent := h.sent + 1, kept := kept.drop (kept.length - hubCapacity) }

def oldest (h : Hub) : Nat := h.sent - h.kept.length

def receive (h : Hub) (client : Nat) : Receipt × Hub :=
  match h.clients[client]? with
  | some (some next) =>
    if next < h.oldest then
      (.lagged (h.oldest - next), { h with clients := h.clients.set client (some h.oldest) })
    else
      match h.kept[next - h.oldest]? with
      | some m => (.message m, { h with clients := h.clients.set client (some (next + 1)) })
      | none => (.empty, h)
  | _ => (.noClient, h)

def drain (h : Hub) (client : Nat) : List Message × Hub :=
  go (hubCapacity + 2) h
where
  go : Nat → Hub → List Message × Hub
    | 0, h => ([], h)
    | n + 1, h =>
      match h.receive client with
      | (.message m, h') =>
        let (more, h'') := go n h'
        (m :: more, h'')
      | (.lagged _, h') => go n h'
      | (_, h') => ([], h')

end Hub
end StaticPreview.Server
