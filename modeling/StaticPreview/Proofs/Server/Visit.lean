import StaticPreview.Proofs.Server.Broadcast
import StaticPreview.Proofs.Server.Memo
import StaticPreview.Server.Shell

/-! # A page that is opened while the sources change

A browser loads the shell page, which shows the preview of that moment, and its script opens the
socket some time later. What is sent in between reaches nobody, and the socket begins with a message
that changes nothing. So a page may show an old document until the preview changes again.
-/
namespace StaticPreview.Server

structure Screen where
  document : String
  label : String
  badge : String
  succeeded : Bool
  deriving DecidableEq, Repr

namespace Screen

def ofPreview (p : Preview) : Screen :=
  { document := p.conversion.html
    label := .ofList (Shell.orElse p.file "No entry file")
    badge := if p.conversion.success then "Rendered"
      else .ofList (Shell.orElse p.conversion.error "Conversion failed")
    succeeded := p.conversion.success }

/-- What the script makes of a page that stays open. The label stays when there is no file. -/
def after (screen : Screen) : Message → Screen
  | .refresh p => { ofPreview p with label := .ofList (Shell.orElse p.file screen.label) }
  | _ => screen

end Screen

/-- A browser without a page, or whose page is to be loaded again; with a page that has no socket
yet; or with one that listens as a client of the hub. -/
inductive Browser where
  | closed
  | loaded (screen : Screen)
  | listening (screen : Screen) (client : Nat)
  deriving DecidableEq, Repr

structure Visit where
  disk : Disk
  session : Session
  browser : Browser

inductive Move where
  | happening (h : Happening)
  | load
  | connect
  | receive

namespace Browser

def client? : Browser → Option Nat
  | listening _ client => some client
  | _ => none

theorem exists_of_client? {b : Browser} {client : Nat} (h : b.client? = some client) :
    ∃ screen, b = .listening screen client := by
  cases b with
  | closed => cases h
  | loaded screen => cases h
  | listening screen other => exact ⟨screen, by rw [Option.some.inj h]⟩

end Browser

namespace Visit

def start (d : Disk) (s : State) : Visit := ⟨d, ⟨s, .new⟩, .closed⟩

def withHub (v : Visit) (hub : Hub) (browser : Browser) : Visit :=
  { v with session := { v.session with hub := hub }, browser := browser }

def load (v : Visit) : Visit :=
  let hub := v.browser.client?.elim v.session.hub v.session.hub.unsubscribe
  v.withHub hub (.loaded (.ofPreview v.session.state.current))

def connect (v : Visit) : Visit :=
  match v.browser with
  | .loaded screen =>
    v.withHub v.session.hub.subscribe
      (.listening (screen.after .connected) v.session.hub.clients.length)
  | _ => v

/-- Takes the next message. A page that is told to reload, or that lost messages, closes its
socket and is loaded again later. -/
def receive (v : Visit) : Visit :=
  match v.browser with
  | .listening screen client =>
    let answer := v.session.hub.receive client
    match answer.1 with
    | .message .reload | .lagged _ => v.withHub (answer.2.unsubscribe client) .closed
    | .message m => v.withHub answer.2 (.listening (screen.after m) client)
    | .empty | .noClient => v
  | _ => v

def next (v : Visit) : Move → Visit
  | .happening (.disk d) => { v with disk := d }
  | .happening (.event e) => { v with session := v.session.handle v.disk e }
  | .load => v.load
  | .connect => v.connect
  | .receive => v.receive

def run (v : Visit) (moves : List Move) : Visit :=
  moves.foldl next v

def current (v : Visit) : Preview := v.session.state.current

def Changes (v : Visit) : List Move → Prop
  | [] => False
  | move :: more => (v.next move).current ≠ v.current ∨ (v.next move).Changes more

/-- A visit in which the page is loaded and, after some happenings, opens its socket. -/
def opened (v : Visit) (between : List Happening) : Visit :=
  ((v.next .load).run (between.map .happening)).next .connect

/-- What a page makes of the messages of an event shows the document that is current after it, if
the preview is another one then. -/
theorem document_handle (screen : Screen) (d : Disk) (s : State) (e : Watch.Event) :
    ((s.handle d e).1.toList.foldl Screen.after screen).document =
      if (s.handle d e).2.current = s.current then screen.document
      else (s.handle d e).2.current.conversion.html := by
  have hiff := State.handle_eq_refresh_iff d s e
  split
  next hsame =>
    cases hmessage : (s.handle d e).1 with
    | none => rfl
    | some m =>
      cases m with
      | refresh p =>
        obtain ⟨rfl, hne⟩ := (hiff p).mp hmessage
        exact absurd hsame hne
      | reload => rfl
      | connected => rfl
  next hne =>
    rw [(hiff _).mpr ⟨rfl, hne⟩]
    rfl

theorem sound_handle {s : Session} (hsound : s.hub.Sound) (d : Disk) (e : Watch.Event) :
    (s.handle d e).hub.Sound ∧ (s.handle d e).hub.clients.length = s.hub.clients.length := by
  rw [Session.hub_handle]
  cases (s.state.handle d e).1 with
  | none => exact ⟨hsound, rfl⟩
  | some m => exact ⟨hsound.send m, Hub.length_clients_send s.hub m⟩

/-- The hub stays sound, and numbers clients in the order in which they came. -/
theorem sound_next {v : Visit} (hsound : v.session.hub.Sound) (move : Move) :
    (v.next move).session.hub.Sound ∧
      v.session.hub.clients.length ≤ (v.next move).session.hub.clients.length := by
  cases move with
  | happening h =>
    cases h with
    | disk d => exact ⟨hsound, Nat.le_refl _⟩
    | event e =>
      obtain ⟨hsend, hlength⟩ := sound_handle hsound v.disk e
      exact ⟨hsend, Nat.le_of_eq hlength.symm⟩
  | load =>
    rw [next, load, withHub]
    cases v.browser.client? with
    | none => exact ⟨hsound, Nat.le_refl _⟩
    | some client => exact ⟨hsound, by simp [Hub.unsubscribe]⟩
  | connect =>
    rw [next, connect]
    split
    · exact ⟨hsound, by simp [withHub, Hub.subscribe]⟩
    · exact ⟨hsound, Nat.le_refl _⟩
  | receive =>
    rw [next, receive]
    split
    next screen client _ =>
      have hreceive := Hub.sound_receive hsound client
      have hlength := Nat.le_of_eq (Hub.length_clients_receive v.session.hub client).symm
      dsimp only
      split
      · exact ⟨hreceive, by simpa [withHub, Hub.unsubscribe] using hlength⟩
      · exact ⟨hreceive, by simpa [withHub, Hub.unsubscribe] using hlength⟩
      · exact ⟨hreceive, hlength⟩
      · exact ⟨hsound, Nat.le_refl _⟩
      · exact ⟨hsound, Nat.le_refl _⟩
    next => exact ⟨hsound, Nat.le_refl _⟩

theorem sound_run {v : Visit} (hsound : v.session.hub.Sound) (moves : List Move) :
    (v.run moves).session.hub.Sound := by
  induction moves generalizing v with
  | nil => exact hsound
  | cons move more ih => exact ih (sound_next hsound move).1

/-- What holds of a visit in which a page has listened as a client of the hub: as long as it does,
what waits for it makes it show this document. -/
structure Follows (v : Visit) (client : Nat) (document : String) : Prop where
  sound : v.session.hub.Sound
  known : client < v.session.hub.clients.length
  shows : ∀ screen, v.browser = .listening screen client →
    v.session.hub.Lags client ∨ ∃ waiting, v.session.hub.Awaits client waiting ∧
      (waiting.foldl Screen.after screen).document = document

variable {v : Visit} {client : Nat} {document : String}

/-- An event moves what the page is about to show just if the preview changes. -/
theorem Follows.event (h : v.Follows client document) (e : Watch.Event) :
    (v.next (.happening (.event e))).Follows client
      (if (v.next (.happening (.event e))).current = v.current then document
        else (v.next (.happening (.event e))).current.conversion.html) := by
  obtain ⟨hsound, hle⟩ := sound_next h.sound (.happening (.event e))
  refine ⟨hsound, Nat.lt_of_lt_of_le h.known hle, ?_⟩
  intro screen hscreen
  rcases h.shows screen hscreen with hlags | ⟨waiting, hw, hdocument⟩
  · exact .inl (Session.lags_handle hlags v.disk e)
  · rcases Session.awaits_or_lags_handle hw v.disk e with hw' | hlags
    · refine .inr ⟨_, hw', ?_⟩
      rw [List.foldl_append, document_handle, hdocument]
      rfl
    · exact .inl hlags

theorem Follows.connect (h : v.Follows client document) :
    (v.next .connect).Follows client document := by
  obtain ⟨hsound, hle⟩ := sound_next h.sound .connect
  refine ⟨hsound, Nat.lt_of_lt_of_le h.known hle, ?_⟩
  rw [next, Visit.connect]
  split
  next first hloaded =>
    intro screen hscreen
    -- The page listens as a new client, which has another number.
    have hnew : v.session.hub.clients.length = client := (Browser.listening.inj hscreen).2
    exact absurd h.known (by omega)
  next => exact h.shows

theorem client?_receive (v : Visit) {client : Nat} (h : v.receive.browser.client? = some client) :
    v.browser.client? = some client := by
  rw [Visit.receive] at h
  split at h
  next screen other hlistening =>
    dsimp only at h
    split at h
    · cases h
    · cases h
    · rw [hlistening]
      exact h
    · exact h
    · exact h
  next => exact h

theorem Follows.receive (h : v.Follows client document) :
    (v.next .receive).Follows client document := by
  obtain ⟨hsound, hle⟩ := sound_next h.sound .receive
  refine ⟨hsound, Nat.lt_of_lt_of_le h.known hle, ?_⟩
  intro screen' hscreen
  have hlistens : v.receive.browser.client? = some client := by
    rw [← next, hscreen]
    rfl
  have hclient := v.client?_receive hlistens
  rw [next, Visit.receive] at hscreen ⊢
  cases hlistening : v.browser with
  | closed => simp [hlistening, Browser.client?] at hclient
  | loaded screen => simp [hlistening, Browser.client?] at hclient
  | listening screen other =>
    obtain rfl : other = client := by simpa [hlistening, Browser.client?] using hclient
    simp only [hlistening] at hscreen ⊢
    rcases h.shows screen hlistening with hlags | ⟨waiting, hw, hdocument⟩
    · obtain ⟨⟨lost, -, hreceipt⟩, -⟩ := hlags.receive
      simp only [hreceipt] at hscreen
      cases hscreen
    · cases waiting with
      | nil =>
        simp only [hw.receive_nil] at hscreen ⊢
        exact h.shows screen' hscreen
      | cons m more =>
        obtain ⟨hreceipt, hw'⟩ := hw.receive_cons
        cases m with
        | reload =>
          simp only [hreceipt] at hscreen
          cases hscreen
        | refresh p =>
          simp only [hreceipt] at hscreen ⊢
          obtain ⟨rfl, -⟩ := Browser.listening.inj hscreen
          exact .inr ⟨more, hw', hdocument⟩
        | connected =>
          simp only [hreceipt] at hscreen ⊢
          obtain ⟨rfl, -⟩ := Browser.listening.inj hscreen
          exact .inr ⟨more, hw', hdocument⟩

theorem current_next (v : Visit) {move : Move} (hmove : ∀ e, move ≠ .happening (.event e)) :
    (v.next move).current = v.current := by
  cases move with
  | happening h =>
    cases h with
    | disk d => rfl
    | event e => exact absurd rfl (hmove e)
  | load => rfl
  | connect =>
    rw [next, Visit.connect]
    split <;> rfl
  | receive =>
    rw [next, Visit.receive]
    split
    · dsimp only
      split <;> rfl
    · rfl

/-- The document that a page will show changes with the preview. -/
theorem Follows.next (h : v.Follows client document) (move : Move) :
    (v.next move).Follows client
      (if (v.next move).current = v.current then document
        else (v.next move).current.conversion.html) := by
  cases move with
  | happening happening =>
    cases happening with
    | disk d =>
      rw [if_pos (v.current_next (by simp))]
      exact ⟨h.sound, h.known, h.shows⟩
    | event e => exact h.event e
  | load =>
    obtain ⟨hsound, hle⟩ := sound_next h.sound .load
    refine ⟨hsound, Nat.lt_of_lt_of_le h.known hle, ?_⟩
    intro screen hscreen
    cases hscreen
  | connect =>
    rw [if_pos (v.current_next (by simp))]
    exact h.connect
  | receive =>
    rw [if_pos (v.current_next (by simp))]
    exact h.receive

/-- By induction on the moves: a page follows the preview from the first change on, and keeps its
document until then. -/
theorem Follows.run (h : v.Follows client document) (moves : List Move) :
    (v.Changes moves → (v.run moves).Follows client (v.run moves).current.conversion.html) ∧
      (¬ v.Changes moves →
        (v.run moves).Follows client document ∧ (v.run moves).current = v.current) := by
  induction moves generalizing v document with
  | nil => exact ⟨False.elim, fun _ => ⟨h, rfl⟩⟩
  | cons move more ih =>
    have hnext := h.next move
    obtain ⟨hchanges, hsame⟩ := ih hnext
    by_cases hmore : (v.next move).Changes more
    · exact ⟨fun _ => hchanges hmore, fun hnot => absurd (.inr hmore) hnot⟩
    · obtain ⟨hfollows, hcurrent⟩ := hsame hmore
      by_cases hmove : (v.next move).current = v.current
      · rw [if_pos hmove] at hfollows
        refine ⟨fun hor => absurd hor (not_or.mpr ⟨not_not_intro hmove, hmore⟩), fun _ => ?_⟩
        exact ⟨hfollows, hcurrent.trans hmove⟩
      · rw [if_neg hmove, ← hcurrent] at hfollows
        exact ⟨fun _ => hfollows, fun hnot => absurd (.inl hmove) hnot⟩

theorem Follows.document_eq (h : v.Follows client document) {screen : Screen}
    (hscreen : v.browser = .listening screen client)
    (hidle : (v.session.hub.receive client).1 = .empty) : screen.document = document := by
  rcases h.shows screen hscreen with hlags | ⟨waiting, hw, hdocument⟩
  · obtain ⟨⟨lost, -, hreceipt⟩, -⟩ := hlags.receive
    rw [hreceipt] at hidle
    cases hidle
  · cases waiting with
    | nil => exact hdocument
    | cons m more =>
      rw [hw.receive_cons.1] at hidle
      cases hidle

theorem browser_run_happenings (v : Visit) (happenings : List Happening) :
    (v.run (happenings.map .happening)).browser = v.browser := by
  induction happenings generalizing v with
  | nil => rfl
  | cons h more ih =>
    refine (ih (v.next (.happening h))).trans ?_
    cases h <;> rfl

/-- The page shows what it was loaded with when it opens its socket. -/
theorem opened_eq (v : Visit) (between : List Happening) :
    let ready := (v.next .load).run (between.map .happening)
    v.opened between = ready.withHub ready.session.hub.subscribe
      (.listening (.ofPreview v.current) ready.session.hub.clients.length) := by
  have hloaded : ((v.next .load).run (between.map .happening)).browser =
      .loaded (.ofPreview v.current) := browser_run_happenings _ between
  dsimp only
  rw [opened]
  generalize (v.next .load).run (between.map .happening) = ready at hloaded ⊢
  rw [next, Visit.connect, hloaded]
  rfl

theorem follows_opened (hsound : v.session.hub.Sound) (between : List Happening) {client : Nat}
    (hclient : (v.opened between).browser.client? = some client) :
    (v.opened between).Follows client v.current.conversion.html := by
  have hbefore := sound_run (sound_next hsound .load).1 (between.map .happening)
  rw [opened_eq] at hclient ⊢
  generalize (v.next .load).run (between.map .happening) = ready at hclient hbefore ⊢
  obtain rfl : ready.session.hub.clients.length = client := Option.some.inj hclient
  refine ⟨hbefore, by simp [withHub, Hub.subscribe], ?_⟩
  intro screen hscreen
  obtain ⟨rfl, -⟩ := Browser.listening.inj hscreen
  exact .inr ⟨[], Hub.awaits_subscribe hbefore, rfl⟩

/-- A page that is loaded, and opens its socket after some happenings, shows the current document
once nothing waits for it, if and only if the document did not become another one before the socket
was open, or the preview became another one after that. -/
theorem document_eq_iff (d : Disk) (s : State) (before : List Move) (between : List Happening)
    (after : List Move) {screen : Screen} {client : Nat}
    (hclient : (((start d s).run before).opened between).browser.client? = some client)
    (hscreen : ((((start d s).run before).opened between).run after).browser =
      .listening screen client)
    (hidle : (((((start d s).run before).opened between).run after).session.hub.receive client).1 =
      .empty) :
    let loaded := (start d s).run before
    let opened := loaded.opened between
    screen.document = (opened.run after).current.conversion.html ↔
      loaded.current.conversion.html = opened.current.conversion.html ∨ opened.Changes after := by
  have hstart : (start d s).session.hub.Sound := Nat.le_refl 0
  have hsound := sound_run hstart before
  obtain ⟨hchanges, hsame⟩ := (follows_opened hsound between hclient).run after
  dsimp only
  by_cases h : (((start d s).run before).opened between).Changes after
  · have hdocument := (hchanges h).document_eq hscreen hidle
    exact ⟨fun _ => .inr h, fun _ => hdocument⟩
  · obtain ⟨hfollows, hcurrent⟩ := hsame h
    rw [hfollows.document_eq hscreen hidle, hcurrent]
    exact ⟨.inl, fun hor => hor.resolve_right h⟩

end Visit

/-- A document begins with its title. -/
theorem exists_document_eq (title body stylesheet : List Char) :
    ∃ rest, Page.document title body stylesheet = "<!DOCTYPE html>
<html lang=\"en\">
<head>
  <meta charset=\"utf-8\">
  <meta name=\"viewport\" content=\"width=device-width, initial-scale=1\">
  <title>".toList ++ (Html.escape title ++ ("</title>\n  <style>".toList ++ rest)) := by
  unfold Page.document
  -- The literal texts are of no concern, and simp would take them apart.
  generalize "</title>\n  <style>".toList = style
  generalize hhead : "<!DOCTYPE html>
<html lang=\"en\">
<head>
  <meta charset=\"utf-8\">
  <meta name=\"viewport\" content=\"width=device-width, initial-scale=1\">
  <title>".toList = head
  simp only [List.append_assoc]
  exact ⟨_, rfl⟩

theorem preview_ne_failure (body label message stylesheet : List Char) :
    Page.preview body stylesheet ≠ Page.failure label message stylesheet := by
  intro h
  obtain ⟨rest, hrest⟩ := exists_document_eq "Preview".toList body stylesheet
  obtain ⟨rest', hrest'⟩ :=
    exists_document_eq "Preview failed".toList (Page.failureNotice label message) stylesheet
  have hshort : Html.escape "Preview".toList = "Preview".toList := by decide +kernel
  have hlong : Html.escape "Preview failed".toList = "Preview failed".toList := by decide +kernel
  rw [Page.preview, Page.failure, hrest, hrest', List.append_right_inj, hshort, hlong] at h
  have hplace := congrArg (fun text => text[7]?) h
  simp at hplace

/-- A component that could be shown is shown by another document than a missing entry. -/
theorem html_convertFresh_ne {s : Settings} {file : String × String}
    (h : (convertFresh s file).success) :
    (convertFresh s file).html ≠ (noEntry s).html := by
  rw [convertFresh, Conversion.convert] at h ⊢
  cases hbody : Conversion.body file.2.toList file.1.toList with
  | error cause => simp [hbody, Conversion.ofBody] at h
  | ok body =>
    intro heq
    exact preview_ne_failure _ _ _ _ (String.ofList_injective heq)

def entryOnly : Disk := diskWith [("App.jsx", componentFile "a")]

def withoutEntry : Disk := diskWith []

def entryPath : RawText := "/p/src/App.jsx"

def entryState : State :=
  .ofSources (Settings.default.resolve entryOnly)
    ((Sources.scan entryOnly "src").toOption.getD .empty)

def entryGoes : List Happening := [.disk withoutEntry, .event ⟨.removed, entryPath⟩]

def entryComes : List Happening := [.disk entryOnly, .event ⟨.changed, entryPath⟩]

def entryFile : String × String :=
  ("App.jsx", "export default function App() \x7b return <p>a</p>; \x7d")

theorem coherent_entryState : entryState.Coherent [entryFile] := by
  have hentry : entryState.sources.entry? none = some entryFile := by decide +kernel
  refine coherent_ofSources ?_ ?_
  · intro a ha b hb _
    rw [List.mem_singleton.mp ha, List.mem_singleton.mp hb]
  · intro file hfile
    obtain rfl : entryFile = file := Option.some.inj (hentry.symm.trans hfile)
    exact List.mem_singleton_self _

theorem html_entryGoes :
    entryState.current.conversion.html ≠
      (entryState.handle withoutEntry ⟨.removed, entryPath⟩).2.current.conversion.html := by
  have hentry : entryState.sources.entry? entryState.settings.entry = some entryFile := by
    decide +kernel
  have hgone : (entryState.handle withoutEntry ⟨.removed, entryPath⟩).2.sources.entry?
      entryState.settings.entry = none := by
    decide +kernel
  have hsuccess : (convertFresh entryState.settings entryFile).success := by decide +kernel
  have hkeys : KeysDiffer [entryFile] := fun a ha b hb _ => by
    rw [List.mem_singleton.mp ha, List.mem_singleton.mp hb]
  have hafter := coherent_entryState.handle hkeys withoutEntry ⟨.removed, entryPath⟩
    fun file hfile => by simp [hgone] at hfile
  rw [coherent_entryState.current, hafter.current, State.settings_handle]
  simp only [freshPreview, hentry, hgone]
  exact html_convertFresh_ne hsuccess

namespace Visit

/-- The removal of the entry is sent while the page has no socket, and nothing tells it later. -/
theorem opened_entryGoes :
    let v := (start entryOnly entryState).opened entryGoes
    State.load entryOnly .default = .ok entryState ∧
      v.browser = .listening (.ofPreview entryState.current) 0 ∧
      (v.session.hub.receive 0).1 = .empty ∧
      (Screen.ofPreview entryState.current).document ≠ v.current.conversion.html := by
  have hload : State.load entryOnly .default = .ok entryState := rfl
  have hfirst : (((start entryOnly entryState).next .load).run
      (entryGoes.map .happening)).session.hub.clients.length = 0 := by
    decide +kernel
  have hidle : (((start entryOnly entryState).opened entryGoes).session.hub.receive 0).1 =
      .empty := by
    decide +kernel
  have hbrowser : ((start entryOnly entryState).opened entryGoes).browser =
      .listening (.ofPreview entryState.current) 0 := by
    rw [opened_eq, ← hfirst]
    rfl
  have hcurrent : ((start entryOnly entryState).opened entryGoes).current =
      (entryState.handle withoutEntry ⟨.removed, entryPath⟩).2.current := by
    rw [opened_eq]
    rfl
  refine ⟨hload, hbrowser, hidle, ?_⟩
  rw [hcurrent]
  exact html_entryGoes

/-- Another page was open before, and the entry comes back once the page listens. -/
theorem document_entryComesBack :
    let loaded := (start entryOnly entryState).run [.load, .connect]
    let opened := loaded.opened entryGoes
    let last := opened.run (entryComes.map .happening ++ [.receive])
    opened.browser.client? = some 1 ∧ (last.session.hub.receive 1).1 = .empty ∧
      ∃ screen, last.browser = .listening screen 1 ∧
        (screen.document = last.current.conversion.html ↔
          loaded.current.conversion.html = opened.current.conversion.html ∨
            opened.Changes (entryComes.map .happening ++ [.receive])) := by
  have hidle : (((((start entryOnly entryState).run [.load, .connect]).opened entryGoes).run
      (entryComes.map .happening ++ [.receive])).session.hub.receive 1).1 = .empty := by
    decide +kernel
  have hopened : (((start entryOnly entryState).run [.load, .connect]).opened
      entryGoes).browser.client? = some 1 := by
    decide +kernel
  have hclient : ((((start entryOnly entryState).run [.load, .connect]).opened entryGoes).run
      (entryComes.map .happening ++ [.receive])).browser.client? = some 1 := by
    decide +kernel
  obtain ⟨screen, hscreen⟩ := Browser.exists_of_client? hclient
  refine ⟨hopened, hidle, screen, hscreen, ?_⟩
  apply document_eq_iff
  · exact hopened
  · exact hscreen
  · exact hidle

end Visit
end StaticPreview.Server
