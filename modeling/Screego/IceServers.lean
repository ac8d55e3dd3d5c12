import Screego.Access
import Screego.IPProvider

/-!
# ICE servers

What the two sides of a session are told about the TURN server, from the configured addresses to the
messages.

* `iceURLs`: the URLs for a list of addresses; `addresses_eq`: those are the ones made of the slots;
* `Change.announced`: where the message about a session comes from;
* **`ice_servers_are_well_formed`**: the lists accepted, the addresses returned, the messages sent.
-/

set_option autoImplicit false

namespace Screego

open Lib Outgoing

variable {env : Env} {ch : Choice} {s t : Rooms} {info : ClientInfo} {e : Event} {sent : List Send}
  {m : Message} {q : P2PSession} {out : Chan} {found : List IP} {v4 v6 : Option IP}

/-! ## URLs -/

/-- The URLs for one address: the text of an IPv6 address, which has colons, stands in brackets. -/
def iceURLsOf (env : Env) (scheme : String) (tcp : Bool) (ip : IP) : List String :=
  let text := env.ipString ip
  let host := if ':' ∈ text.toList then "[" ++ text ++ "]" else text
  let plain := scheme ++ ":" ++ host ++ ":" ++ env.config.turnPort
  if tcp then [plain, plain ++ "?transport=tcp"] else [plain]

/-- The URLs for some addresses. -/
def iceURLs (env : Env) (scheme : String) (tcp : Bool) (ips : List IP) : List String :=
  ips.flatMap (iceURLsOf env scheme tcp)

/-- **The slots hold the right addresses**: only what has colons is bracketed. -/
theorem addresses_eq (hcolon : ColonsTell env.ipString) (h : Families found v4 v6)
    (scheme : String) (tcp : Bool) :
    addresses env scheme v4 v6 tcp = iceURLs env scheme tcp (v4.toList ++ v6.toList) := by
  dsimp only [addresses, iceURLs]
  rw [List.flatMap_append]
  congr 1
  · cases v4 with
    | none => rfl
    | some ip =>
      obtain ⟨haddr, hkind, -⟩ := h.v4 ip rfl
      have hno : ¬ ':' ∈ (env.ipString ip).toList := fun hc => hkind ((hcolon ip haddr).mp hc)
      simp only [Option.toList_some, List.flatMap_singleton, iceURLsOf, if_neg hno]
  · cases v6 with
    | none => rfl
    | some ip =>
      obtain ⟨haddr, hkind, -⟩ := h.v6 ip rfl
      have hc : ':' ∈ (env.ipString ip).toList := (hcolon ip haddr).mpr hkind
      simp only [Option.toList_some, List.flatMap_singleton, iceURLsOf, if_pos hc]

theorem iceURLs_ne_nil (h : Families found v4 v6) (scheme : String) (tcp : Bool) :
    iceURLs env scheme tcp (v4.toList ++ v6.toList) ≠ [] := by
  have hof : ∀ ip, iceURLsOf env scheme tcp ip ≠ [] := fun ip => by
    unfold iceURLsOf
    dsimp only
    split_ifs <;> exact List.cons_ne_nil _ _
  unfold iceURLs
  intro hnil
  rw [List.flatMap_eq_nil_iff] at hnil
  rcases h.any with h4 | h6
  · obtain ⟨ip, rfl⟩ := Option.ne_none_iff_exists'.mp h4
    exact hof ip (hnil ip (by simp))
  · obtain ⟨ip, rfl⟩ := Option.ne_none_iff_exists'.mp h6
    exact hof ip (hnil ip (by simp))

/-! ## The messages -/

/-- The session a message is about, if it is a `HostSession` or a `ClientSession`. -/
def Outgoing.Message.session : Message → Option P2PSession
  | .hostSession m => some m
  | .clientSession m => some m
  | _ => none

/-- The messages are about no session. -/
def NoSession (sent : List Send) : Prop := Every (fun m => m.session = none) sent

theorem noSession_notify (ch : Choice) (r : Screego.Room) : NoSession (r.notifyInfoChanged ch) :=
  every_notify (fun _ => rfl) ch r

theorem noSession_close (d : Disconnected) (c : XID) : NoSession [d.close c] :=
  every_close (fun _ _ => rfl) d c

theorem noSession_endShares (peer : RoomSession → XID) (L : List (XID × RoomSession)) :
    NoSession (endShares peer L) :=
  every_endShares (fun _ => rfl) peer L

theorem Departs.noSession {c : XID} {d : Disconnected} (h : Departs env ch s c d t sent) :
    NoSession sent := by
  cases h with
  | idle => exact noSession_close d c
  | stays hin =>
    exact ((noSession_close d c).append (noSession_endShares _ _)).append (noSession_notify _ _)
  | closes =>
    exact ((noSession_close d c).append (noSession_endShares _ _)).append
      (every_ownerLeft (fun _ _ => rfl) _)

/-- **Where the message comes from**: a session of a room that goes on in its mode, with the
addresses `TurnIPProvider.Get` has returned. -/
structure Announced (env : Env) (ch : Choice) (s t : Rooms) (out : Chan) (m : Message)
    (R : String) (r : Screego.Room) (v4 v6 : Option IP) (a : XID × RoomSession) : Prop where
  get : ch.get = .ok (v4, v6)
  room : t.rooms.lookup R = some r
  session : a.1 ∈ r.sessions
  mem : .write out m ∈ announce env ch v4 v6 r.mode s.turnServer a

theorem announced_opened {s₁ : Rooms} {R : String} {r : Screego.Room} (r' : Screego.Room)
    {A : List (XID × RoomSession)} (hget : ch.get = .ok (v4, v6)) (hmode : r'.mode = r.mode)
    (hm : .write out m ∈ A.flatMap (announce env ch v4 v6 r.mode s.turnServer)) :
    ∃ r₁ a, Announced env ch s (s₁.opened env ch R r' A) out m R r₁ v4 v6 a := by
  obtain ⟨a, ha, hm⟩ := List.mem_flatMap.mp hm
  refine ⟨_, a, hget, Finmap.lookup_insert _, ?_, ?_⟩
  · exact GoMap.mem_insertAll.mpr (Or.inr ⟨a, ha, rfl⟩)
  · show _ ∈ announce env ch v4 v6 r'.mode s.turnServer a
    rwa [hmode]

theorem Change.announced (hch : Change env ch s info e t sent) (hm : .write out m ∈ sent)
    (hq : m.session = some q) : ∃ R r v4 v6 a, Announced env ch s t out m R r v4 v6 a := by
  have hno : ∀ {l : List Send}, NoSession l → Send.write out m ∉ l := fun hl hmem => by
    rw [hl out m hmem] at hq
    cases hq
  cases hch with
  | skip | stale => exact absurd hm List.not_mem_nil
  | name n hin => exact absurd hm (hno (noSession_notify _ _))
  | relay k p => exact absurd hm (hno (every_signal (by cases k <;> rfl) _))
  | create => exact absurd hm (hno (noSession_notify _ _))
  | @join e R v r r' v4 v6 A hc he hr hget hr' hA =>
    rcases List.mem_append.mp hm with hm | hm
    · exact absurd hm (hno (noSession_notify _ _))
    · obtain ⟨r₁, a, h⟩ := announced_opened r' hget (by rw [hr']; rfl) hm
      exact ⟨R, r₁, v4, v6, a, h⟩
  | bounce =>
    exact absurd hm (hno ((noSession_notify _ _).append
      ((noSession_close _ _).append (noSession_notify _ _))))
  | @share R r r' u v4 v6 A hin hu hget hr' hA =>
    rcases List.mem_append.mp hm with hm | hm
    · obtain ⟨r₁, a, h⟩ := announced_opened r' hget (by rw [hr']; rfl) hm
      exact ⟨R, r₁, v4, v6, a, h⟩
    · exact absurd hm (hno (noSession_notify _ _))
  | unshare => exact absurd hm (hno ((noSession_endShares _ _).append (noSession_notify _ _)))
  | depart d hd => exact absurd hm (hno hd.noSession)

/-- The ICE servers of a session, by the mode of its room. -/
theorem Announced.iceServers {R : String} {r : Screego.Room} {a : XID × RoomSession}
    (h : Announced env ch s t out m R r v4 v6 a) (hq : m.session = some q) :
    q.id = a.1 ∧ ∃ username, q.iceServers = iceFor env ch v4 v6 r.mode s.turnServer username := by
  rcases List.mem_cons.mp h.mem with hm | hm
  · cases hm
    cases hq
    exact ⟨rfl, _, rfl⟩
  · cases List.mem_singleton.mp hm
    cases hq
    exact ⟨rfl, _, rfl⟩

/-- **One ICE server** that the browser can use. -/
def HasServer (env : Env) (q : P2PSession) (scheme : String) (tcp : Bool) (ips : List IP) : Prop :=
  ∃ ice, q.iceServers = [ice] ∧ ice.urls ≠ [] ∧ ice.urls = iceURLs env scheme tcp ips

/-- **ICE servers.** A list of external addresses is accepted if and only if it is one DNS entry, one
literal, or one literal of each kind. What a provider made of an accepted list returns without an
error is an address of each slot's kind, from the list or from the resolver, in one slot at least.
And in every state of every run, whatever message comes next: if the addresses come from such a
provider, every `HostSession` and `ClientSession` is about a session of a room, and in a STUN or TURN
room it has one ICE server, with one URL for each address or two. -/
theorem ice_servers_are_well_formed (env : Env) (hcolon : ColonsTell env.ipString) :
    (∀ ips config, ((∃ p, parseIPProvider ips config = some (.ok p)) ↔ Acceptable ips) ∧
      (¬ Acceptable ips → ips ≠ [] → ∃ msg,
        parseIPProvider ips config = some (.error [futureFatal msg]))) ∧
    (∀ ips config p found v4 v6, parseIPProvider ips config = some (.ok p) →
      p.Returns env.ipString ips found v4 v6 → Families found v4 v6) ∧
    (server env).Always fun w => ∀ ips config p ch c info e t sent,
      parseIPProvider ips config = some (.ok p) →
      (∀ v4 v6, ch.get = .ok (v4, v6) → ∃ found, p.Returns env.ipString ips found v4 v6) →
      w.clients.lookup c = some info → e.fromClient = true →
      w.rooms.handle env ch ⟨info, false, e⟩ = some (t, sent) →
      ∀ out m q, .write out m ∈ sent → m.session = some q →
        ∃ R r v4 v6, t.rooms.lookup R = some r ∧ q.id ∈ r.sessions ∧ ch.get = .ok (v4, v6) ∧
          (r.mode = connectionSTUN → HasServer env q "stun" false (v4.toList ++ v6.toList)) ∧
          (r.mode = connectionTURN → HasServer env q "turn" true (v4.toList ++ v6.toList)) := by
  refine ⟨parseIPProvider_iff, fun ips config p found v4 v6 hp hret => hret.families hcolon hp, ?_⟩
  refine (server_ok env).mono ?_
  intro w h ips config p ch c info e t sent hp hget hinfo he hhandle out m q hm hq
  obtain ⟨rfl, hw⟩ := h.info c info hinfo
  obtain ⟨t', sent', hhandle', hch⟩ := handle_change ch h.inv hw he
  rw [hhandle] at hhandle'
  cases hhandle'
  obtain ⟨R, r, v4, v6, a, hann⟩ := hch.announced hm hq
  obtain ⟨hid, username, hice⟩ := hann.iceServers hq
  obtain ⟨found, hret⟩ := hget v4 v6 hann.get
  have hfam := hret.families hcolon hp
  refine ⟨R, r, v4, v6, hann.room, hid ▸ hann.session, hann.get, fun hstun => ?_, fun hturn => ?_⟩
  · rw [hstun] at hice
    refine ⟨_, hice, ?_, addresses_eq hcolon hfam _ _⟩
    rw [addresses_eq hcolon hfam]
    exact iceURLs_ne_nil hfam _ _
  · rw [hturn] at hice
    refine ⟨_, hice, ?_, addresses_eq hcolon hfam _ _⟩
    rw [addresses_eq hcolon hfam]
    exact iceURLs_ne_nil hfam _ _

/-- A server that prints addresses with `ipText`. -/
def writtenServer : Env :=
  { Env.counting ⟨Config.authModeTurn, "3478", false⟩ with ipString := ipText }

theorem ice_servers_are_well_formed_two :
    ∃ p, parseIPProvider ["203.0.113.7", "2001:db8:1:2:3:4:5:6"] "SCREEGO_EXTERNAL_IP" =
        some (.ok p) ∧
      ∀ found v4 v6, p.Returns ipText ["203.0.113.7", "2001:db8:1:2:3:4:5:6"] found v4 v6 →
        Families found v4 v6 := by
  have h4 : IsLiteral "203.0.113.7" (v4InV6Prefix ++ [203, 0, 113, 7]) :=
    ⟨by decide +kernel, by decide⟩
  have h6 : IsLiteral "2001:db8:1:2:3:4:5:6" [0x20, 1, 0xd, 0xb8, 0, 1, 0, 2, 0, 3, 0, 4, 0, 5, 0, 6] :=
    ⟨by decide +kernel, by decide⟩
  have hall := ice_servers_are_well_formed writtenServer fun ip h => colon_mem_ipText h
  obtain ⟨p, hp⟩ := (hall.1 _ "SCREEGO_EXTERNAL_IP").1.mpr (.two h4 h6 (by decide))
  exact ⟨p, hp, fun found v4 v6 hret => hall.2.1 _ _ p found v4 v6 hp hret⟩

end Screego
