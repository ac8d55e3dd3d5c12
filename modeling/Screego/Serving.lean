import Screego.Startup
import Screego.UsersFile

/-!
# Starting the server

`cmd/serve.go` and the beginning of `turn/server.go`: from a configuration to a server that listens.

* `Host.startRelay`: `turn.Start`; `permissions`: the peers of the relay;
* `Host.serve`: the command; a panic is `none`;
* `Available`: what has to work; `Started`: what a server is started with; **`serve_cases`**;
* **`serve_starts_iff`**, **`relay_refuses_denied_peers`**.
-/

set_option autoImplicit false

namespace Screego

open Lib Auth

/-! ## The command -/

/-- `Provider.Get`, the first time. -/
def Provider.get (ipString : IP → String) (call : DnsCall) : Provider → Answer
  | .static v4 v6 => ⟨v4, v6, none⟩
  | .dns d => (d.get ipString call).1

/-- **The TURN server** that is started: the fields of an `ExternalServer`, or the parts of an
`InternalServer` that decide about allocations and peers. -/
inductive Relay where
  | external (secret : String)
  | internal (generator : RelayAddressGenerator) (permissions : IP → Bool)

/-- The `PermissionHandler`. -/
def permissions (turnDenyPeersParsed : List IPNet) (peerIP : IP) : Bool :=
  match turnDenyPeersParsed with
  | [] => true
  | cidr :: rest => if cidr.contains peerIP then false else permissions rest peerIP

namespace Host

variable (h : Host)

/-- **`turn.Start`.** -/
def startRelay (conf : ServerConfig) : Except String Relay :=
  if conf.turnExternal then .ok (.external conf.turnExternalSecret)
  else
    match h.listenUDP conf.turnAddress with
    | some err => .error ("udp: could not listen on " ++ conf.turnAddress ++ ": " ++ err)
    | none =>
      match h.listenTCP conf.turnAddress with
      | some err => .error ("tcp: could not listen on " ++ conf.turnAddress ++ ": " ++ err)
      | none =>
        match h.newServer with
        | some err => .error err
        | none =>
          .ok (.internal (generator h.quote conf.turnPortRange) (permissions conf.turnDenyPeersParsed))

/-- How the command ends, before the main loop runs. -/
inductive Outcome where
  | exits
  | serves (conf : ServerConfig) (users : Users) (relay : Relay)

/-- **`serve`**; a panic is `none`. -/
def serve : Option Outcome := do
  let (conf, errs) ← h.get
  if ¬ NotFatal errs then some .exits
  else
    let provider ← conf.turnIPProvider
    if (provider.get h.ipString h.lookup).err ≠ none then some .exits
    else
      match readPasswordsFile h.file conf.usersFile with
      | (_, some _) => some .exits
      | (users, none) =>
        match h.startRelay conf with
        | .error _ => some .exits
        | .ok relay => some (.serves conf users relay)

end Host

/-! ## The server that is started -/

/-- **What else has to work**: the first lookup of the addresses, the users file and the sockets. -/
structure Available (h : Host) : Prop where
  addresses : ∀ p, parseIPProvider h.settings.addressList h.settings.addressConfig = some (.ok p) →
    (p.get h.ipString h.lookup).err = none
  users : (readPasswordsFile h.file h.settings.usersFile).2 = none
  relay : h.settings.turnExternalIP = [] →
    h.listenUDP h.settings.turnAddress = none ∧ h.listenTCP h.settings.turnAddress = none ∧ h.newServer = none

/-- **What a server is started with.** -/
structure Started (h : Host) (conf : ServerConfig) (users : Users) (relay : Relay) : Prop where
  settings : conf.toSettings = { h.settings with secret := conf.secret }
  secret : conf.secret ≠ []
  tls : conf.serverTLS = true → conf.tlsCertFile ≠ "" ∧ conf.tlsKeyFile ≠ ""
  /-- The check of an origin never panics. -/
  origins : ∀ origin host, ∃ accepted,
    h.lib.upgraderCheckOrigin conf.compiledAllowedOrigins origin host = some accepted
  /-- There is a provider, for the one list of addresses that is set. -/
  provider : ∃ p, conf.turnIPProvider = some p ∧
    parseIPProvider conf.addressList conf.addressConfig = some (.ok p)
  /-- The auth mode is one that `Create` knows: all that it asks for is a login. -/
  logins : ∀ env : Env, env.config = conf.config → ∀ (q : Create) info err,
    q.authError env info = some err → err = "you need to login"
  users : readPasswordsFile h.file conf.usersFile = (users, none)
  /-- No entry is left out. -/
  denied : conf.turnDenyPeersParsed.map some = conf.turnDenyPeers.map parseCIDR
  /-- An external TURN server has a secret, and no allocation of an internal one panics. -/
  relay : match relay with
    | .external secret => conf.turnExternal = true ∧ secret = conf.turnExternalSecret ∧ secret ≠ ""
    | .internal generator perms => conf.turnExternal = false ∧
      (∀ get sys port net, ∃ result, Generator.allocatePacketConn generator get sys port net = some result) ∧
      perms = permissions conf.turnDenyPeersParsed

theorem startRelay_cases {h : Host} (provider : Option Provider) (port : String) {external : Bool}
    (hkind : external = true ↔ h.settings.turnExternalIP ≠ []) :
    (∃ relay, h.startRelay (h.conf provider port external) = .ok relay) ↔
      (h.settings.turnExternalIP = [] → h.listenUDP h.settings.turnAddress = none ∧
        h.listenTCP h.settings.turnAddress = none ∧ h.newServer = none) := by
  have haddress : (h.conf provider port external).turnAddress = h.settings.turnAddress := rfl
  unfold Host.startRelay
  by_cases hext : (h.conf provider port external).turnExternal = true
  · rw [if_pos hext]
    exact iff_of_true ⟨_, rfl⟩ fun hnil => absurd hnil (hkind.mp hext)
  · rw [if_neg hext, haddress]
    have hnil : h.settings.turnExternalIP = [] := by
      by_contra hne
      exact hext (hkind.mpr hne)
    cases hudp : h.listenUDP h.settings.turnAddress with
    | some err => exact iff_of_false (fun ⟨_, h⟩ => by cases h) fun h => by cases (h hnil).1
    | none =>
      cases htcp : h.listenTCP h.settings.turnAddress with
      | some err => exact iff_of_false (fun ⟨_, h⟩ => by cases h) fun h => by cases (h hnil).2.1
      | none =>
        cases hnew : h.newServer with
        | some err => exact iff_of_false (fun ⟨_, h⟩ => by cases h) fun h => by cases (h hnil).2.2
        | none => exact iff_of_true ⟨_, rfl⟩ fun _ => ⟨rfl, rfl, rfl⟩

/-- The logins of a server whose mode is one of the three. -/
theorem authError_eq {env : Env} (hmode : env.config.authMode = Config.authModeTurn ∨
      env.config.authMode = Config.authModeAll ∨ env.config.authMode = Config.authModeNone) {q : Create}
    {info : ClientInfo} {err : String} (herr : q.authError env info = some err) :
    err = "you need to login" := by
  unfold Create.authError at herr
  split_ifs at herr with hnone hall hauth hturn hneed
  · exact (Option.some.inj herr).symm
  · exact (Option.some.inj herr).symm
  · rcases hmode with heq | heq | heq
    · exact absurd heq hturn
    · exact absurd heq hall
    · exact absurd heq hnone

/-- Entries that can be read. -/
theorem map_filterMap_parseCIDR {l : List String} (h : ∀ e ∈ l, ∃ base n, Writes e base n) :
    (l.filterMap parseCIDR).map some = l.map parseCIDR := by
  induction l with
  | nil => rfl
  | cons e l ih =>
    obtain ⟨net, hnet⟩ := parseCIDR_isSome_iff.mpr (h e List.mem_cons_self)
    rw [List.filterMap_cons_some hnet, List.map_cons, List.map_cons, hnet,
      ih fun e' he' => h e' (List.mem_cons_of_mem _ he')]

/-- A server that is started. -/
theorem started {h : Host} (hw : WellConfigured h) {p : Provider} {port : String} {external : Bool}
    {users : Users} {relay : Relay} (hkind : external = true ↔ h.settings.turnExternalIP ≠ [])
    (hp : parseIPProvider h.settings.addressList h.settings.addressConfig = some (.ok p))
    (husers : readPasswordsFile h.file h.settings.usersFile = (users, none))
    (hrelay : h.startRelay (h.conf (some p) port external) = .ok relay) :
    Started h (h.conf (some p) port external) users relay where
  settings := rfl
  secret := Host.secretOf_ne_nil
  tls := hw.settings.tls
  origins origin host := by
    obtain ⟨accepted, haccepted, -⟩ := Packages.matchesAny_eq hw.settings.origins origin
    show ∃ accepted, h.lib.checks h.settings.corsAllowedOrigins origin host = some accepted
    unfold Packages.checks Packages.upgraderCheckOrigin Packages.configCheckOrigin
    rw [haccepted]
    cases h.lib.parseHost origin with
    | error err => exact ⟨_, rfl⟩
    | ok uHost =>
      dsimp only
      split_ifs <;> exact ⟨_, rfl⟩
  provider := ⟨p, rfl, hp⟩
  logins env henv q info err herr := authError_eq (by rw [henv]; exact hw.settings.authMode) herr
  users := husers
  denied := map_filterMap_parseCIDR hw.settings.deny
  relay := by
    unfold Host.startRelay at hrelay
    split_ifs at hrelay with hext
    · obtain rfl := Except.ok.inj hrelay
      refine ⟨hext, rfl, ?_⟩
      rcases hw.settings.addresses with ⟨-, -, hsecret⟩ | ⟨hnil, -⟩
      · exact hsecret
      · exact absurd hnil (hkind.mp hext)
    · split at hrelay
      case h_1 => cases hrelay
      split at hrelay
      case h_1 => cases hrelay
      split at hrelay
      case h_1 => cases hrelay
      obtain rfl := Except.ok.inj hrelay
      have hvalid : (generator h.quote h.settings.turnPortRange).Valid :=
        generator_valid (notFatal_portRangeLogs.mpr hw.settings.ports)
      exact ⟨Bool.eq_false_of_not_eq_true hext, Generator.allocatePacketConn_returns hvalid, rfl⟩

/-- How the command ends. -/
theorem serve_cases (h : Host) : ∃ o, h.serve = some o ∧
    ((∃ conf users relay, o = .serves conf users relay) ↔ WellConfigured h ∧ Available h) ∧
    ∀ conf users relay, o = .serves conf users relay → Started h conf users relay := by
  obtain ⟨provider, port, external, logs, hget, hfatal, hkind, hprovider⟩ := get_cases h
  -- the command exits
  have hexits : h.serve = some .exits → ¬ (WellConfigured h ∧ Available h) → ∃ o, h.serve = some o ∧
      ((∃ conf users relay, o = .serves conf users relay) ↔ WellConfigured h ∧ Available h) ∧
      ∀ conf users relay, o = .serves conf users relay → Started h conf users relay := by
    intro hs hno
    exact ⟨_, hs, iff_of_false (fun ⟨_, _, _, he⟩ => by cases he) hno, fun _ _ _ he => by cases he⟩
  unfold Host.serve at hexits ⊢
  simp only [hget, Option.bind_eq_bind, Option.bind_some] at hexits ⊢
  by_cases hw : WellConfigured h
  swap
  · have hno := fun hnot => hw (hfatal.mp hnot)
    rw [if_pos hno] at hexits ⊢
    exact hexits rfl fun hall => hw hall.1
  rw [if_neg (not_not_intro (hfatal.mpr hw))] at hexits ⊢
  obtain ⟨p, rfl, hp⟩ := hprovider hw.settings.addresses
  have hconf : (h.conf (some p) port external).turnIPProvider = some p := rfl
  have husersFile : (h.conf (some p) port external).usersFile = h.settings.usersFile := rfl
  simp only [hconf, husersFile, Option.bind_some] at hexits ⊢
  by_cases hanswer : (p.get h.ipString h.lookup).err = none
  swap
  · rw [if_pos hanswer] at hexits ⊢
    exact hexits rfl fun hall => hanswer (hall.2.addresses p hp)
  rw [if_neg (not_not_intro hanswer)] at hexits ⊢
  cases husers : readPasswordsFile h.file h.settings.usersFile with
  | mk users err =>
    rw [husers] at hexits
    cases err with
    | some err =>
      refine hexits rfl fun hall => ?_
      have hnone := hall.2.users
      rw [husers] at hnone
      cases hnone
    | none =>
      have hrelay := startRelay_cases (some p) port hkind
      dsimp only at hexits ⊢
      cases hstart : h.startRelay (h.conf (some p) port external) with
      | error err =>
        rw [hstart] at hexits
        refine hexits rfl fun hall => ?_
        obtain ⟨relay, hok⟩ := hrelay.mpr hall.2.relay
        cases hstart.symm.trans hok
      | ok relay =>
        refine ⟨_, rfl, iff_of_true ⟨_, _, _, rfl⟩ ⟨hw, ?_, ?_, hrelay.mp ⟨relay, hstart⟩⟩, ?_⟩
        · intro p' hp'
          cases hp.symm.trans hp'
          exact hanswer
        · rw [husers]
        · rintro conf users' relay' he
          cases he
          exact started hw hkind hp husers hstart

/-- **When a server starts.** The command never panics, and it serves exactly when everything is well
configured and available; each variable is then what the process was given, or what the first of the files
sets, and the server has all that it will rely on. -/
theorem serve_starts_iff (h : Host) :
    (∀ key, h.env key = (h.environ key).or
      (((h.getFiles h.getExecutableOrWorkDir.1).filterMap h.loaded).findSome? (· key))) ∧
    ∃ o, h.serve = some o ∧
      ((∃ conf users relay, o = .serves conf users relay) ↔ WellConfigured h ∧ Available h) ∧
      ∀ conf users relay, o = .serves conf users relay → Started h conf users relay :=
  ⟨fun key => Host.loadFiles_env _ _ key, serve_cases h⟩

/-! ## The peers of the relay -/

theorem permissions_eq_false_iff {nets : List IPNet} {ip : IP} :
    permissions nets ip = false ↔ ∃ net ∈ nets, net.contains ip = true := by
  induction nets with
  | nil => simp [permissions]
  | cons net nets ih =>
    rw [permissions, List.exists_mem_cons_iff]
    split_ifs with hnet
    · exact iff_of_true rfl (Or.inl hnet)
    · rw [ih]
      exact (or_iff_right hnet).symm

/-- **The peers that are refused** are those in the blocks that the setting names, whatever form their
address has. -/
theorem relay_refuses_denied_peers {h : Host} {conf : ServerConfig} {users : Users}
    {generator : RelayAddressGenerator} {perms : IP → Bool}
    (hs : h.serve = some (.serves conf users (.internal generator perms))) {ip : IP} (hip : IsAddress ip) :
    (perms ip = false ↔ ∃ e ∈ h.settings.turnDenyPeers, ∃ base n, Writes e base n ∧ InBlock base n ip) ∧
      ∀ x, to4 ip = some x → perms ip = perms x := by
  obtain ⟨o, ho, -, hstarted⟩ := serve_cases h
  have hst := hstarted _ _ _ (Option.some.inj (ho.symm.trans hs))
  obtain ⟨-, -, rfl⟩ := hst.relay
  have hpeers : conf.turnDenyPeers = h.settings.turnDenyPeers := by rw [hst.settings]
  have hiff : ∀ {ip}, IsAddress ip → (permissions conf.turnDenyPeersParsed ip = false ↔
      ∃ e ∈ h.settings.turnDenyPeers, ∃ base n, Writes e base n ∧ InBlock base n ip) := by
    intro ip hip
    rw [permissions_eq_false_iff, ← hpeers]
    constructor
    · rintro ⟨net, hnet, hc⟩
      have hmem : some net ∈ conf.turnDenyPeers.map parseCIDR := hst.denied ▸ List.mem_map_of_mem hnet
      obtain ⟨e, he, hparse⟩ := List.mem_map.mp hmem
      obtain ⟨base, n, hw⟩ := parseCIDR_isSome_iff.mp ⟨net, hparse⟩
      exact ⟨e, he, base, n, hw, (contains_iff hparse hw hip).mp hc⟩
    · rintro ⟨e, he, base, n, hw, hin⟩
      obtain ⟨net, hparse⟩ := parseCIDR_isSome_iff.mpr ⟨base, n, hw⟩
      have hmem : some net ∈ conf.turnDenyPeersParsed.map some := by
        rw [hst.denied, ← hparse]
        exact List.mem_map_of_mem he
      obtain ⟨net', hnet', hsome⟩ := List.mem_map.mp hmem
      obtain rfl := Option.some.inj hsome
      exact ⟨_, hnet', (contains_iff hparse hw hip).mpr hin⟩
  refine ⟨hiff hip, fun x hx => ?_⟩
  obtain ⟨hx4, hx16⟩ := to4_eq_some hx
  have hsame : ∀ base n, InBlock base n ip ↔ InBlock base n x := by
    intro base n
    have hx4' : to4 x = some x := if_pos hx4
    have hx16' : to16 x = v4InV6Prefix ++ x := if_pos hx4
    rw [InBlock, InBlock, hx16, hx16', hx, hx4']
  have hfalse : permissions conf.turnDenyPeersParsed ip = false ↔
      permissions conf.turnDenyPeersParsed x = false := by
    rw [hiff hip, hiff (Or.inl hx4)]
    simp only [hsame]
  rwa [Bool.eq_iff_iff, ← not_iff_not, Bool.not_eq_true, Bool.not_eq_true]

/-- The permissions of the relay of a server, if it is its own. -/
def Host.Outcome.permissions : Host.Outcome → Option (IP → Bool)
  | .serves _ _ (.internal _ perms) => some perms
  | _ => none

theorem Host.Outcome.permissions_eq_some {o : Host.Outcome} {perms : IP → Bool}
    (h : o.permissions = some perms) : ∃ conf users generator,
      o = .serves conf users (.internal generator perms) := by
  cases o with
  | exits => cases h
  | serves conf users relay =>
    cases relay with
    | external secret => cases h
    | internal generator perms' =>
      cases h
      exact ⟨conf, users, generator, rfl⟩

/-- A machine on which only the address of the server is set. -/
def plainHost : Host where
  dev := false
  executable := .ok "/usr/bin/screego"
  userHomeDir := .error "$HOME is not defined"
  stat _ := .notExist
  dotenv _ := .error "file does not exist"
  environ key := if key = "SCREEGO_EXTERNAL_IP" then some "192.0.2.1" else none
  random := (fun i => UInt8.ofNat i, none)
  file _ := .error "file does not exist"
  lookup := ⟨0, .ok [], 0⟩
  listenUDP _ := none
  listenTCP _ := none
  newServer := none
  dir _ := "/usr/bin"
  join a b := a ++ "/" ++ b
  process env :=
    ({ externalIP := (env "SCREEGO_EXTERNAL_IP").toList, tlsCertFile := "", tlsKeyFile := "", serverTLS := false,
       secret := [], turnAddress := ":3478", turnPortRange := "", turnExternalIP := [],
       turnExternalPort := "3478", turnExternalSecret := "", authMode := "turn", corsAllowedOrigins := [],
       usersFile := "",
       turnDenyPeers := ["0.0.0.0/8", "127.0.0.1/8", "::/128", "::1/128", "fe80::/10"] }, none)
  lib := simplePackages
  quote s := "\"" ++ s ++ "\""
  quoteNets _ := "[]"
  ipString := ipText

theorem relay_refuses_denied_peers_plainHost : ∃ perms : IP → Bool,
    (∃ conf users generator, plainHost.serve = some (.serves conf users (.internal generator perms))) ∧
      perms (v4InV6Prefix ++ [127, 1, 2, 3]) = false := by
  have hserves : (plainHost.serve.bind (·.permissions)).isSome = true := by decide +kernel
  obtain ⟨perms, hperms⟩ := Option.isSome_iff_exists.mp hserves
  obtain ⟨o, ho, hperms⟩ := Option.bind_eq_some_iff.mp hperms
  obtain ⟨conf, users, generator, rfl⟩ := Host.Outcome.permissions_eq_some hperms
  refine ⟨perms, ⟨conf, users, generator, ho⟩, (relay_refuses_denied_peers ho (Or.inr rfl)).1.mpr ?_⟩
  refine ⟨"127.0.0.1/8", by decide, v4InV6Prefix ++ [127, 0, 0, 1], 104, ?_, by decide +kernel⟩
  exact ⟨"127.0.0.1".toList, ['8'], 8, rfl, by decide, by decide +kernel, by decide +kernel, by decide +kernel,
    by decide +kernel⟩

end Screego
