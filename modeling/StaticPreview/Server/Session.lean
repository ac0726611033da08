import StaticPreview.Server.Address
import StaticPreview.Server.Hub
import StaticPreview.Server.State
import StaticPreview.Watch.Watcher

/-! # A running preview server

What the server hears of, it tells the pages that have subscribed.
-/
namespace StaticPreview.Server

inductive StartError where
  | invalidAddress (address : String)
  | sources (cause : SourceError)
  | addressInUse (address : String)
  deriving DecidableEq, Repr

def StartError.message : StartError → String
  | invalidAddress address => "Invalid listen address " ++ address
  | sources cause => cause.message
  | addressInUse address =>
    "Failed to bind to " ++ address ++ ": Address already in use (os error 98)"

structure Session where
  state : State
  hub : Hub

namespace Session

def start (d : Disk) (inUse : Bool) (settings : Settings) : Except StartError Session := do
  if !Address.isValid settings.address then throw (.invalidAddress settings.address)
  let state ← (State.load d settings).mapError .sources
  if inUse then throw (.addressInUse settings.address)
  return ⟨state, .new⟩

def subscribe (s : Session) : Session := { s with hub := s.hub.subscribe }

def handle (d : Disk) (s : Session) (e : Watch.Event) : Session :=
  let (message, state) := s.state.handle d e
  ⟨state, message.elim s.hub s.hub.send⟩

/-- Hears of events in their order, with the disk as it is after the last of them. -/
def handleAll (d : Disk) (s : Session) (events : List Watch.Event) : Session :=
  events.foldl (handle d) s

def watcher (d : Disk) (s : Session) : Watch.Watcher :=
  .start d [s.state.settings.sourceFolder, s.state.settings.publicFolder]

/-- Makes a burst of changes and, when all are made, hears of the events. -/
def edit (w : Watch.Watcher) (d : Disk) (s : Session) (changes : List Watch.Change) :
    Disk × Watch.Watcher × Session :=
  let (d', w', events) := w.eventsOf d changes
  (d', w', s.handleAll d' events)

end Session
end StaticPreview.Server
