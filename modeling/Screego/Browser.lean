import Screego.Frames
import Screego.Lib.System
import Screego.Xid

/-!
# The sessions of a browser

`ui/src/useRoom.ts`: the refs `host` and `client` and the list `clientStreams`, as the frames of the
server and the peer connections change them.

* `Refs.endShare`: the handler of `endshare`;
* `Browser.onMessage`: the handlers of the frames that name a session;
* `browser env`: the machine that takes frames and what happens to peer connections;
* `Browser.Announced`: every session the browser holds goes by the text of its id;
* **`end_share_ends_nothing`**: an `EndShare` goes by another name than its session, and the
  browser ends nothing; `view_once_stays_open` is one such run.
-/

set_option autoImplicit false

namespace Screego

open Lib Outgoing

/-- An `RTCPeerConnection`. -/
structure Peer where
  closed : Bool
deriving DecidableEq

def Peer.close (_ : Peer) : Peer := ⟨true⟩

/-- A `ClientStream`, with a number for its `MediaStream`. -/
structure ClientStream where
  id : Json
  peerID : Json
  stream : ℕ

/-- The refs and the streams. -/
structure Refs where
  host : GoMap String Peer
  client : GoMap String Peer
  clientStreams : List ClientStream

/-- `refs[key]?.close()`. -/
def closePeer (refs : GoMap String Peer) (key : Json) : GoMap String Peer :=
  match refs.lookup key.text with
  | some peer => refs.insert key.text peer.close
  | none => refs

namespace Refs

variable (b : Refs)

/-- `host.current[id] = peer`. -/
def hostReady (id : Json) (peer : Peer) : Refs := { b with host := b.host.insert id.text peer }

/-- `client.current[id] = peer`. -/
def clientReady (id : Json) (peer : Peer) : Refs :=
  { b with client := b.client.insert id.text peer }

/-- `onTrack` of a `clientSession`. -/
def onTrack (sid peer : Json) (stream : ℕ) : Refs :=
  { b with clientStreams := b.clientStreams ++ [⟨sid, peer, stream⟩] }

/-- `done` of a `hostSession`. -/
def hostDone (id : Json) : Refs := { b with host := b.host.erase id.text }

/-- `done` of a `clientSession`. -/
def clientDone (sid : Json) : Refs :=
  { b with
    client := b.client.erase sid.text
    clientStreams := b.clientStreams.filter fun s => !s.id.strictEq sid }

/-- The refs after `stopShare`. -/
def stopShare : Refs := { b with host := ∅ }

/-- **The handler of `endshare`.** -/
def endShare (payload : Json) : Refs where
  client := closePeer b.client payload
  host := closePeer b.host payload
  clientStreams := b.clientStreams.filter fun s => !s.id.strictEq payload

end Refs

/-- The refs, with the ids given to the calls of `hostSession` and of `clientSession` so far. -/
structure Browser where
  refs : Refs
  hostSessions : List Json
  clientSessions : List (Json × Json)

/-- The cases of `ws.onmessage` that name a session; `sharing` says that there is a stream to
host. -/
def Browser.onMessage (b : Browser) (event : Typed) (sharing : Bool) : Browser :=
  if event.type = "hostsession" then
    match event.payload.field "id" with
    | some id => if sharing then { b with hostSessions := b.hostSessions ++ [id] } else b
    | none => b
  else if event.type = "clientsession" then
    match event.payload.field "id", event.payload.field "peer" with
    | some sid, some peer => { b with clientSessions := b.clientSessions ++ [(sid, peer)] }
    | _, _ => b
  else if event.type = "endshare" then { b with refs := b.refs.endShare event.payload }
  else b

/-- What happens to a browser: a frame, or news of the `n`-th call of `hostSession` or
`clientSession`. -/
inductive BrowserInput where
  | frame (m : Message) (sharing : Bool)
  | hostReady (n : ℕ) (peer : Peer)
  | hostDone (n : ℕ)
  | clientReady (n : ℕ) (peer : Peer)
  | track (n stream : ℕ)
  | clientDone (n : ℕ)
  | stopShare

/-- News of the `n`-th of the calls. -/
def Browser.news {α : Type} (b : Browser) (calls : List α) (n : ℕ) (f : α → Refs) : Browser :=
  match calls[n]? with
  | some a => { b with refs := f a }
  | none => b

section Step

variable (env : Env) (raw : String → Json)

def Browser.step (b : Browser) : BrowserInput → Browser
  | .frame m sharing => b.onMessage (toTypedOutgoing env raw m) sharing
  | .hostReady n peer => b.news b.hostSessions n fun id => b.refs.hostReady id peer
  | .hostDone n => b.news b.hostSessions n b.refs.hostDone
  | .clientReady n peer => b.news b.clientSessions n fun call => b.refs.clientReady call.1 peer
  | .track n stream => b.news b.clientSessions n fun call => b.refs.onTrack call.1 call.2 stream
  | .clientDone n => b.news b.clientSessions n fun call => b.refs.clientDone call.1
  | .stopShare => { b with refs := b.refs.stopShare }

/-- **The browser**, with frames of the server. -/
def browser : Machine Browser BrowserInput where
  init := ⟨⟨∅, ∅, []⟩, [], []⟩
  step b i := some (b.step env raw i)

end Step

/-! ## The names of sessions -/

/-- The value is the text of an id. -/
def IsText (env : Env) (id : Json) : Prop := ∃ sid, id = .str (env.xidString sid)

/-- **Every session the browser holds goes by the text of its id.** -/
structure Browser.Announced (env : Env) (b : Browser) : Prop where
  host : ∀ key, key ∈ b.refs.host → ∃ sid, key = env.xidString sid
  client : ∀ key, key ∈ b.refs.client → ∃ sid, key = env.xidString sid
  streams : ∀ s ∈ b.refs.clientStreams, IsText env s.id
  hostSessions : ∀ id ∈ b.hostSessions, IsText env id
  clientSessions : ∀ a ∈ b.clientSessions, IsText env a.1

variable {env : Env} {raw : String → Json} {b : Browser}

theorem IsText.text {id : Json} (h : IsText env id) : ∃ sid, id.text = env.xidString sid := by
  obtain ⟨sid, rfl⟩ := h
  exact ⟨sid, Json.text_str _⟩

/-- New keys of a ref are texts. -/
theorem text_insert {refs : GoMap String Peer} {id : Json}
    (h : ∀ key, key ∈ refs → ∃ sid, key = env.xidString sid) (hid : IsText env id) (peer : Peer) :
    ∀ key, key ∈ refs.insert id.text peer → ∃ sid, key = env.xidString sid := by
  intro key hkey
  rcases Finmap.mem_insert.mp hkey with rfl | hkey
  · exact hid.text
  · exact h key hkey

theorem mem_closePeer {refs : GoMap String Peer} {key : Json} {k : String} :
    k ∈ closePeer refs key ↔ k ∈ refs := by
  unfold closePeer
  cases hl : refs.lookup key.text with
  | none => rfl
  | some peer => exact GoMap.mem_insert_of_mem (Finmap.mem_of_lookup_eq_some hl) _ _

/-- Frames keep the names. -/
theorem Browser.Announced.onMessage (h : b.Announced env) (m : Message) (sharing : Bool) :
    (b.onMessage (toTypedOutgoing env raw m) sharing).Announced env := by
  cases m with
  | hostSession p =>
    simp only [Browser.onMessage, id_hostSession]
    rw [if_pos (by rfl)]
    split_ifs
    · refine { h with hostSessions := fun id hid => ?_ }
      rcases List.mem_append.mp hid with hid | hid
      · exact h.hostSessions id hid
      · exact ⟨p.id, List.mem_singleton.mp hid⟩
    · exact h
  | clientSession p =>
    simp only [Browser.onMessage, id_clientSession, peer_clientSession]
    have hne : (toTypedOutgoing env raw (.clientSession p)).type ≠ "hostsession" := by
      simp [toTypedOutgoing, Message.type]
    rw [if_neg hne, if_pos (by rfl)]
    refine { h with clientSessions := fun a ha => ?_ }
    rcases List.mem_append.mp ha with ha | ha
    · exact h.clientSessions a ha
    · rw [List.mem_singleton.mp ha]
      exact ⟨p.id, rfl⟩
  | endShare sid =>
    refine { h with
      host := fun key hkey => ?_
      client := fun key hkey => ?_
      streams := fun s hs => ?_ }
    · exact h.host key (mem_closePeer.mp hkey)
    · exact h.client key (mem_closePeer.mp hkey)
    · exact h.streams s (List.mem_of_mem_filter hs)
  | _ => exact h

theorem Browser.Announced.news {α : Type} (h : b.Announced env) (calls : List α) (f : α → Refs)
    (hf : ∀ a ∈ calls, ({ b with refs := f a } : Browser).Announced env) (n : ℕ) :
    (b.news calls n f).Announced env := by
  unfold Browser.news
  split
  · rename_i a ha
    exact hf a (List.mem_of_getElem? ha)
  · exact h

/-- Every input keeps the names. -/
theorem Browser.Announced.step (h : b.Announced env) (i : BrowserInput) :
    (b.step env raw i).Announced env := by
  cases i with
  | frame m sharing => exact h.onMessage m sharing
  | hostReady n peer =>
    refine h.news _ (fun id => b.refs.hostReady id peer) (fun id hid => ?_) n
    exact { h with host := text_insert h.host (h.hostSessions id hid) peer }
  | hostDone n =>
    refine h.news _ b.refs.hostDone (fun id _ => { h with host := fun key hkey => ?_ }) n
    exact h.host key (Finmap.mem_erase.mp hkey).2
  | clientReady n peer =>
    refine h.news b.clientSessions (fun call => b.refs.clientReady call.1 peer) (fun a ha => ?_) n
    exact { h with client := text_insert h.client (h.clientSessions a ha) peer }
  | track n stream =>
    refine h.news b.clientSessions (fun call => b.refs.onTrack call.1 call.2 stream)
      (fun a ha => { h with streams := fun s hs => ?_ }) n
    rcases List.mem_append.mp hs with hs | hs
    · exact h.streams s hs
    · rw [List.mem_singleton.mp hs]
      exact h.clientSessions a ha
  | clientDone n =>
    refine h.news b.clientSessions (fun call => b.refs.clientDone call.1) (fun a _ => { h with
      client := fun key hkey => ?_
      streams := fun s hs => ?_ }) n
    · exact h.client key (Finmap.mem_erase.mp hkey).2
    · exact h.streams s (List.mem_of_mem_filter hs)
  | stopShare => exact { h with host := fun key hkey => absurd hkey Finmap.notMem_empty }

/-- **The sessions of a browser go by the texts of their ids**, in every run. -/
theorem browser_announced (env : Env) (raw : String → Json) :
    (browser env raw).Always (Browser.Announced env) := by
  refine Machine.always_of_step ?_ fun b i h => ⟨_, rfl, h.step i⟩
  constructor <;> intro x hx
  · exact absurd hx Finmap.notMem_empty
  · exact absurd hx Finmap.notMem_empty
  · exact absurd hx List.not_mem_nil
  · exact absurd hx List.not_mem_nil
  · exact absurd hx List.not_mem_nil

/-! ## The name of an ended session -/

/-- As a property key, the payload of an `EndShare` is the text of no id. -/
theorem text_endShare_ne (sid sid' : XID) :
    (toTypedOutgoing env raw (.endShare sid)).payload.text ≠ env.xidString sid' := by
  intro he
  have hcomma : ',' ∈ (env.xidString sid').toList := by
    rw [← he, payload_endShare]
    exact Json.comma_mem_text_arr (by simp)
  exact absurd (env.xidString_alphabet sid' _ hcomma) (by decide)

/-- A ref without the key stays as it is. -/
theorem closePeer_of_notMem {refs : GoMap String Peer} {key : Json} (h : key.text ∉ refs) :
    closePeer refs key = refs := by
  rw [closePeer, Finmap.lookup_eq_none.mpr h]

/-- The handler of `endshare` changes nothing. -/
theorem Browser.Announced.endShare (h : b.Announced env) (sid : XID) :
    b.refs.endShare (toTypedOutgoing env raw (.endShare sid)).payload = b.refs := by
  have hkey : ∀ {refs : GoMap String Peer}, (∀ key, key ∈ refs → ∃ sid, key = env.xidString sid) →
      closePeer refs (toTypedOutgoing env raw (.endShare sid)).payload = refs := by
    intro refs href
    refine closePeer_of_notMem fun hmem => ?_
    obtain ⟨sid', he⟩ := href _ hmem
    exact text_endShare_ne sid sid' he
  have hstreams : b.refs.clientStreams.filter (fun s =>
      !s.id.strictEq (toTypedOutgoing env raw (.endShare sid)).payload) = b.refs.clientStreams := by
    refine List.filter_eq_self.mpr fun s hs => ?_
    obtain ⟨sid', he⟩ := h.streams s hs
    rw [he, payload_endShare]
    rfl
  rw [Refs.endShare, hkey h.host, hkey h.client, hstreams]

/-- **An `EndShare` ends nothing.** Its payload is not the id its session was announced with, to the
host or to the client, and no browser closes a peer or drops a stream for it. -/
theorem end_share_ends_nothing (env : Env) (raw : String → Json) :
    (∀ sid peer ice,
      some (toTypedOutgoing env raw (.endShare sid)).payload ≠
          (toTypedOutgoing env raw (.hostSession ⟨sid, peer, ice⟩)).payload.field "id" ∧
        some (toTypedOutgoing env raw (.endShare sid)).payload ≠
          (toTypedOutgoing env raw (.clientSession ⟨sid, peer, ice⟩)).payload.field "id") ∧
    (browser env raw).Always fun b => ∀ sid sharing,
      b.onMessage (toTypedOutgoing env raw (.endShare sid)) sharing = b := by
  refine ⟨fun sid peer ice => ?_, (browser_announced env raw).mono fun b h sid sharing => ?_⟩
  · rw [payload_endShare, id_hostSession, id_clientSession]
    constructor <;> (intro he; cases he)
  · have hstep : b.onMessage (toTypedOutgoing env raw (.endShare sid)) sharing =
        { b with refs := b.refs.endShare (toTypedOutgoing env raw (.endShare sid)).payload } := rfl
    rw [hstep, h.endShare]

/-- A viewer's browser: a session is announced, its peer is made and brings a stream, and the server
ends the session. -/
def viewOnce : List BrowserInput :=
  [.frame (.clientSession ⟨⟨2⟩, ⟨0⟩, []⟩) false, .clientReady 0 ⟨false⟩, .track 0 7,
    .frame (.endShare ⟨2⟩) false]

/-- **The viewer's peer stays open** and its stream stays: the session `2` is announced by its text
and ended by its bytes. -/
theorem view_once_stays_open :
    (toTypedOutgoing openServer (fun _ => .null) (.clientSession ⟨⟨2⟩, ⟨0⟩, []⟩)).payload.field "id" =
      some (.str "00000000000000000010") ∧
    (toTypedOutgoing openServer (fun _ => .null) (.endShare ⟨2⟩)).payload =
      .arr ([0, 0, 0, 0, 0, 0, 0, 0, 0, 0, 0, 2].map .num) ∧
    some (toTypedOutgoing openServer (fun _ => .null) (.endShare ⟨2⟩)).payload ≠
      (toTypedOutgoing openServer (fun _ => .null) (.clientSession ⟨⟨2⟩, ⟨0⟩, []⟩)).payload.field "id" ∧
    ∃ b, (browser openServer fun _ => .null).run viewOnce = some b ∧
      b.refs.client.lookup "00000000000000000010" = some ⟨false⟩ ∧
      b.refs.clientStreams.length = 1 := by
  have htext : xidText ⟨2⟩ = "00000000000000000010" := by decide +kernel
  refine ⟨?_, rfl, ?_, _, rfl, by decide +kernel, by decide +kernel⟩
  · exact congrArg (fun s => some (Json.str s)) htext
  · intro he
    cases he

end Screego
