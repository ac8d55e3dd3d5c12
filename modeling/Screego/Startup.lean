import Screego.Events
import Screego.IPProvider
import Screego.Lib.Cidr
import Screego.Origins
import Screego.PortRange

/-!
# The configuration

`config/config.go`: from the files and the environment to a configuration, or to a message that is fatal.

* `Host`: the machine and the packages; `Settings`, `ServerConfig`;
* `Host.loadFiles`: **`loadFiles_env`**: the first to set a variable sets it for good;
* `Host.get`: `config.Get`; a panic is `none`;
* `Accepted`, `WellConfigured`: settings to accept; **`get_cases`**.
-/

set_option autoImplicit false

namespace Screego

open Lib

/-! ## The settings -/

/-- `Config`, as `envconfig.Process` fills it in. -/
structure Settings where
  externalIP : List String
  tlsCertFile : String
  tlsKeyFile : String
  serverTLS : Bool
  secret : List UInt8
  turnAddress : String
  turnPortRange : String
  turnExternalIP : List String
  turnExternalPort : String
  turnExternalSecret : String
  authMode : String
  corsAllowedOrigins : List GoString
  usersFile : String
  turnDenyPeers : List String

/-- **`Config`**, with the fields that `Get` works out. -/
structure ServerConfig extends Settings where
  compiledAllowedOrigins : List (Option (Regexp Rune))
  turnExternal : Bool
  turnIPProvider : Option Provider
  turnPort : String
  turnDenyPeersParsed : List IPNet

/-- What the routes and the main loop take of it. -/
def ServerConfig.config (conf : ServerConfig) : Config := ⟨conf.authMode, conf.turnPort, conf.turnExternal⟩

/-- The environment: `os.Getenv` and `os.LookupEnv`. -/
abbrev Environ : Type := String → Option String

/-- The results of `os.Stat`. -/
inductive Stat where
  | found
  | notExist
  | failed (err : String)

/-- **The machine**, as it is when the server starts, and the packages that are called. -/
structure Host where
  /-- `mode.Get() == mode.Dev`. -/
  dev : Bool
  executable : Except String String
  userHomeDir : Except String String
  stat : String → Stat
  /-- What `godotenv` reads in a file. -/
  dotenv : String → Except String Environ
  environ : Environ
  /-- What `rand.Read` does to a buffer of 32 bytes, and its error. -/
  random : (Fin 32 → UInt8) × Option String
  /-- The contents of a file. -/
  file : String → Except String GoString
  /-- The first lookup of the provider. -/
  lookup : DnsCall
  /-- The errors of listening, and of `turn.NewServer`. -/
  listenUDP : String → Option String
  listenTCP : String → Option String
  newServer : Option String
  /-- `filepath.Dir` and `filepath.Join`. -/
  dir : String → String
  join : String → String → String
  /-- `envconfig.Process`, with its error. -/
  process : Environ → Settings × Option String
  lib : Packages
  /-- `strconv.Quote`, also of a list of networks. -/
  quote : String → String
  quoteNets : List IPNet → String
  ipString : IP → String

namespace Host

variable (h : Host)

/-! ## Files and environment -/

def files : List String :=
  ["screego.config.development.local", "screego.config.development", "screego.config.local", "screego.config"]

def absoluteFiles : List String := ["/etc/screego/server.config"]

def getExecutableDir : String × Option FutureLog :=
  match h.executable with
  | .error err =>
    ("", some ⟨.error, "Could not get path of executable using working directory instead. " ++ err⟩)
  | .ok ex => (h.dir ex, none)

def getExecutableOrWorkDir : String × Option FutureLog :=
  let (dir, err) := h.getExecutableDir
  if err.isSome || h.dev then (h.dir ".", err) else (dir, none)

def getFiles (relativeTo : String) : List String :=
  files.map (h.join relativeTo) ++
    (match h.userHomeDir with
      | .ok homeDir => [h.join homeDir ".config/screego/server.config"]
      | .error _ => []) ++
    absoluteFiles

/-- `godotenv.Load`: what is set stays. -/
def load (env kvs : Environ) : Environ := fun key => (env key).or (kvs key)

/-- The body of the loop over the files. -/
def loadFile (env : Environ) (file : String) : Environ × List FutureLog :=
  match h.stat file with
  | .found =>
    match h.dotenv file with
    | .error err => (env, [futureFatal ("cannot load file " ++ file ++ ": " ++ err)])
    | .ok kvs => (load env kvs, [⟨.debug, "Loading file " ++ file⟩])
  | .notExist => (env, [])
  | .failed err => (env, [⟨.warn, "cannot read file " ++ file ++ " because " ++ err⟩])

/-- The loop over the files. -/
def loadFiles : Environ → List String → Environ × List FutureLog
  | env, [] => (env, [])
  | env, file :: rest =>
    let (env, logs) := h.loadFile env file
    let (env, more) := loadFiles env rest
    (env, logs ++ more)

/-! ## `config.Get` -/

def authModeLogs (s : Settings) : List FutureLog :=
  if s.authMode ≠ Config.authModeTurn ∧ s.authMode ≠ Config.authModeAll ∧ s.authMode ≠ Config.authModeNone then
    [futureFatal ("invalid SCREEGO_AUTH_MODE: " ++ s.authMode)]
  else []

def tlsLogs (s : Settings) : List FutureLog :=
  if s.serverTLS then
    (if s.tlsCertFile = "" then [futureFatal "SCREEGO_TLS_CERT_FILE must be set if TLS is enabled"] else []) ++
      (if s.tlsKeyFile = "" then [futureFatal "SCREEGO_TLS_KEY_FILE must be set if TLS is enabled"] else [])
  else []

/-- The secret that is used. -/
def secretOf (s : Settings) : List UInt8 × List FutureLog :=
  if s.secret = [] then
    (List.ofFn h.random.1, match h.random.2 with
      | none => [⟨.info, "SCREEGO_SECRET unset, user logins will be invalidated on restart"⟩]
      | some err => [futureFatal ("cannot create secret " ++ err)])
  else (s.secret, [])

/-- What is left of the result of `parseIPProvider`. -/
def unpack : Except (List FutureLog) Provider → Option Provider × List FutureLog
  | .ok p => (some p, [])
  | .error errs => (none, errs)

/-- What `Get` makes of the external addresses: the provider, the port and the kind of the TURN server. -/
def addresses (s : Settings) : Option ((Option Provider × String × Bool) × List FutureLog) :=
  if s.turnExternalIP ≠ [] then do
    let both :=
      if s.externalIP ≠ [] then
        [futureFatal "SCREEGO_EXTERNAL_IP and SCREEGO_TURN_EXTERNAL_IP must not be both set"]
      else []
    let (p, errs) := unpack (← parseIPProvider s.turnExternalIP "SCREEGO_TURN_EXTERNAL_IP")
    let secret :=
      if s.turnExternalSecret = "" then
        [futureFatal "SCREEGO_TURN_EXTERNAL_SECRET must be set if external TURN server is used"]
      else []
    some ((p, s.turnExternalPort, true), both ++ errs ++ secret)
  else if s.externalIP ≠ [] then do
    let (p, errs) := unpack (← parseIPProvider s.externalIP "SCREEGO_EXTERNAL_IP")
    some ((p, String.ofList ((s.turnAddress.toList.splitOn ':').getLastD []), false), errs)
  else
    some ((none, "", false), [futureFatal "SCREEGO_EXTERNAL_IP or SCREEGO_TURN_EXTERNAL_IP must be set"])

def logDeprecated (env : Environ) : List FutureLog :=
  if (env "SCREEGO_TURN_STRICT_AUTH").getD "" ≠ "" then
    [⟨.warn, "The setting SCREEGO_TURN_STRICT_AUTH has been removed."⟩]
  else []

/-- What `Get` has to say about the peers to deny. -/
def denyLogs (s : Settings) : List FutureLog :=
  s.turnDenyPeers.flatMap fun cidrString =>
    match parseCIDR cidrString with
    | some _ => []
    | none =>
      [⟨.fatal, "Invalid SCREEGO_TURN_DENY_PEERS " ++ h.quote cidrString ++ ": invalid CIDR address: " ++
        cidrString⟩]

/-- The environment that the settings are read from. -/
def env : Environ := (h.loadFiles h.environ (h.getFiles h.getExecutableOrWorkDir.1)).1

/-- The settings that are read. -/
def settings : Settings := (h.process h.env).1

def processLogs : List FutureLog :=
  match (h.process h.env).2 with
  | some err => [futureFatal ("cannot parse env params: " ++ err)]
  | none => []

/-- The configuration that `Get` returns. -/
def conf (provider : Option Provider) (turnPort : String) (turnExternal : Bool) : ServerConfig :=
  { h.settings with
    secret := (h.secretOf h.settings).1
    compiledAllowedOrigins := h.lib.compiledAllowedOrigins h.settings.corsAllowedOrigins
    turnExternal, turnIPProvider := provider, turnPort
    turnDenyPeersParsed := h.settings.turnDenyPeers.filterMap parseCIDR }

/-- The messages of `Get`, in their order. -/
def logs (conf : ServerConfig) (addressLogs : List FutureLog) : List FutureLog :=
  h.getExecutableOrWorkDir.2.toList ++ (h.loadFiles h.environ (h.getFiles h.getExecutableOrWorkDir.1)).2 ++
    h.processLogs ++ authModeLogs h.settings ++ tlsLogs h.settings ++
    h.lib.originLogs h.settings.corsAllowedOrigins ++ (h.secretOf h.settings).2 ++ addressLogs ++
    portRangeLogs h.quote h.settings.turnPortRange ++ logDeprecated h.env ++ h.denyLogs h.settings ++
    [⟨.info, "Deny turn peers within " ++ h.quoteNets conf.turnDenyPeersParsed⟩]

/-- **`config.Get`.** -/
def get : Option (ServerConfig × List FutureLog) := do
  let ((provider, turnPort, turnExternal), addressLogs) ← addresses h.settings
  let conf := h.conf provider turnPort turnExternal
  some (conf, h.logs conf addressLogs)

end Host

/-! ## The files -/

variable {h : Host} {s : Settings}

theorem notFatal_append {logs logs' : List FutureLog} :
    NotFatal (logs ++ logs') ↔ NotFatal logs ∧ NotFatal logs' := List.forall_mem_append

@[simp] theorem notFatal_singleton (log : FutureLog) : NotFatal [log] ↔ log.level ≠ .fatal := by
  simp [NotFatal]

/-- A message that is given on a condition. -/
theorem notFatal_ite {p : Prop} [Decidable p] (msg : String) :
    NotFatal (if p then [futureFatal msg] else []) ↔ ¬ p := by
  split_ifs with hp
  · exact iff_of_false (not_notFatal_futureFatal _) (not_not_intro hp)
  · exact iff_of_true notFatal_nil hp

namespace Host

/-- What a file sets, if it is loaded. -/
def loaded (h : Host) (file : String) : Option Environ :=
  match h.stat file with
  | .found => (h.dotenv file).toOption
  | _ => none

theorem loadFile_cases (env : Environ) (file : String) :
    (h.loaded file = none ∧ (h.loadFile env file).1 = env) ∨
      ∃ kvs, h.loaded file = some kvs ∧ (h.loadFile env file).1 = load env kvs := by
  unfold loaded loadFile
  cases h.stat file with
  | found =>
    cases h.dotenv file with
    | error err => exact Or.inl ⟨rfl, rfl⟩
    | ok kvs => exact Or.inr ⟨kvs, rfl, rfl⟩
  | notExist => exact Or.inl ⟨rfl, rfl⟩
  | failed err => exact Or.inl ⟨rfl, rfl⟩

/-- **The first to set a variable** sets it for good: the process, then the files in their order. -/
theorem loadFiles_env (env : Environ) (fs : List String) (key : String) :
    (h.loadFiles env fs).1 key = (env key).or ((fs.filterMap h.loaded).findSome? (· key)) := by
  induction fs generalizing env with
  | nil => simp [loadFiles]
  | cons file rest ih =>
    show (h.loadFiles (h.loadFile env file).1 rest).1 key = _
    rw [ih]
    rcases loadFile_cases (h := h) env file with ⟨hno, heq⟩ | ⟨kvs, hkvs, heq⟩
    · rw [heq, List.filterMap_cons_none hno]
    · rw [heq, List.filterMap_cons_some hkvs, List.findSome?_cons, load, Option.or_assoc]
      cases kvs key <;> rfl

/-- Every file that is there can be read. -/
def FilesLoad (h : Host) (fs : List String) : Prop :=
  ∀ file ∈ fs, h.stat file = .found → ∃ kvs, h.dotenv file = .ok kvs

theorem notFatal_loadFile (env : Environ) (file : String) :
    NotFatal (h.loadFile env file).2 ↔ (h.stat file = .found → ∃ kvs, h.dotenv file = .ok kvs) := by
  unfold loadFile
  cases h.stat file with
  | found =>
    cases h.dotenv file with
    | error err => simp [futureFatal]
    | ok kvs => simp
  | notExist => simp
  | failed err => simp

theorem notFatal_loadFiles (env : Environ) (fs : List String) :
    NotFatal (h.loadFiles env fs).2 ↔ h.FilesLoad fs := by
  induction fs generalizing env with
  | nil => exact iff_of_true notFatal_nil fun file hfile => absurd hfile List.not_mem_nil
  | cons file rest ih =>
    show NotFatal ((h.loadFile env file).2 ++ (h.loadFiles (h.loadFile env file).1 rest).2) ↔ _
    rw [notFatal_append, notFatal_loadFile, ih, FilesLoad, FilesLoad, List.forall_mem_cons]

/-! ## The checks -/

theorem notFatal_authModeLogs : NotFatal (authModeLogs s) ↔ s.authMode = Config.authModeTurn ∨
    s.authMode = Config.authModeAll ∨ s.authMode = Config.authModeNone := by
  rw [authModeLogs, notFatal_ite]
  constructor
  · intro hmode
    by_contra hno
    exact hmode ⟨fun heq => hno (Or.inl heq), fun heq => hno (Or.inr (Or.inl heq)),
      fun heq => hno (Or.inr (Or.inr heq))⟩
  · rintro (heq | heq | heq) ⟨hturn, hall, hnone⟩
    · exact hturn heq
    · exact hall heq
    · exact hnone heq

theorem notFatal_tlsLogs :
    NotFatal (tlsLogs s) ↔ (s.serverTLS = true → s.tlsCertFile ≠ "" ∧ s.tlsKeyFile ≠ "") := by
  by_cases htls : s.serverTLS = true
  · rw [tlsLogs, if_pos htls, notFatal_append, notFatal_ite, notFatal_ite]
    exact ⟨fun h _ => h, fun h => h htls⟩
  · rw [tlsLogs, if_neg htls]
    exact iff_of_true notFatal_nil fun h => absurd h htls

theorem notFatal_secretOf : NotFatal (h.secretOf s).2 ↔ (s.secret = [] → h.random.2 = none) := by
  unfold secretOf
  split_ifs with hsecret
  · cases h.random.2 <;> simp [hsecret, futureFatal]
  · exact iff_of_true notFatal_nil fun hnil => absurd hnil hsecret

theorem secretOf_ne_nil : (h.secretOf s).1 ≠ [] := by
  unfold secretOf
  split_ifs with hsecret
  · intro hnil
    have hlen := congrArg List.length hnil
    rw [List.length_ofFn] at hlen
    cases hlen
  · exact hsecret

theorem notFatal_logDeprecated (env : Environ) : NotFatal (logDeprecated env) := by
  unfold logDeprecated
  split_ifs <;> simp

theorem notFatal_denyLogs :
    NotFatal (h.denyLogs s) ↔ ∀ e ∈ s.turnDenyPeers, ∃ base n, Writes e base n := by
  have hentry : ∀ e, NotFatal (match parseCIDR e with
      | some _ => []
      | none => [⟨.fatal, "Invalid SCREEGO_TURN_DENY_PEERS " ++ h.quote e ++ ": invalid CIDR address: " ++
          e⟩]) ↔ ∃ base n, Writes e base n := by
    intro e
    rw [← parseCIDR_isSome_iff]
    cases parseCIDR e <;> simp
  unfold denyLogs
  constructor
  · intro hno e he
    exact (hentry e).mp fun log hlog => hno log (List.mem_flatMap.mpr ⟨e, he, hlog⟩)
  · intro hall log hlog
    obtain ⟨e, he, hlog⟩ := List.mem_flatMap.mp hlog
    exact (hentry e).mpr (hall e he) log hlog

end Host

/-- **The port ranges to accept**: none, zeros, or one that is not empty. -/
def AcceptableRange (s : String) : Prop := s = "" ∨ WritesRange s 0 0 ∨
  ∃ min max, WritesRange s min max ∧ 1 ≤ min ∧ min ≤ max ∧ max < 2 ^ 16

theorem notFatal_portRangeLogs {quote : String → String} {s : String} :
    NotFatal (portRangeLogs quote s) ↔ AcceptableRange s := by
  constructor
  · intro h
    rcases portRange_of_not_fatal h with ⟨-, hs⟩ | ⟨min, max, -, hwrites, hmin, hle⟩
    · exact hs.imp_right Or.inl
    · exact Or.inr (Or.inr ⟨_, _, hwrites, hmin, hle, max.toNat_lt⟩)
  · have hparse : ∀ {min max : ℕ}, WritesRange s min max → min < 2 ^ 16 → max < 2 ^ 16 →
        parsePortRange quote s = .ok (UInt16.ofNat min, UInt16.ofNat max) := by
      intro min max hwrites hmin hmax
      have hne : s ≠ "" := by
        rintro rfl
        obtain ⟨a, b, hs, -, -⟩ := hwrites
        cases a <;> cases hs
      refine (parsePortRange_eq_ok hne).mpr ?_
      rwa [UInt16.toNat_ofNat_of_lt' hmin, UInt16.toNat_ofNat_of_lt' hmax]
    rintro (rfl | hwrites | ⟨min, max, hwrites, hmin, hle, hmax⟩)
    · exact notFatal_nil
    · rw [portRangeLogs, hparse hwrites (by omega) (by omega)]
      exact notFatal_nil
    · rw [portRangeLogs, hparse hwrites (lt_of_le_of_lt hle hmax) hmax]
      have h0 : UInt16.ofNat min ≠ 0 := by
        rw [ne_eq, ← UInt16.toNat_inj, UInt16.toNat_ofNat_of_lt' (lt_of_le_of_lt hle hmax)]
        exact Nat.one_le_iff_ne_zero.mp hmin
      have h0' : UInt16.ofNat max ≠ 0 := by
        rw [ne_eq, ← UInt16.toNat_inj, UInt16.toNat_ofNat_of_lt' hmax]
        exact Nat.one_le_iff_ne_zero.mp (hmin.trans hle)
      have hlt : ¬ UInt16.ofNat max < UInt16.ofNat min := by
        rw [UInt16.lt_iff_toNat_lt, UInt16.toNat_ofNat_of_lt' hmax,
          UInt16.toNat_ofNat_of_lt' (lt_of_le_of_lt hle hmax)]
        omega
      simp only [h0, h0', false_and, or_self, if_false, if_neg hlt]
      split_ifs <;> simp

/-- **The external addresses to accept**: those of the server itself, or of an external TURN server and then
with its secret. -/
def AcceptableAddresses (s : Settings) : Prop :=
  (s.externalIP = [] ∧ Acceptable s.turnExternalIP ∧ s.turnExternalSecret ≠ "") ∨
    (s.turnExternalIP = [] ∧ Acceptable s.externalIP)

theorem not_acceptable_nil : ¬ Acceptable [] := fun h => by cases h

/-- The addresses that are used. -/
def Settings.addressList (s : Settings) : List String :=
  if s.turnExternalIP ≠ [] then s.turnExternalIP else s.externalIP

/-- The setting that they are from. -/
def Settings.addressConfig (s : Settings) : String :=
  if s.turnExternalIP ≠ [] then "SCREEGO_TURN_EXTERNAL_IP" else "SCREEGO_EXTERNAL_IP"

/-- What `parseIPProvider` leaves of a list. -/
theorem unpack_cases {ips : List String} (hne : ips ≠ []) (config : String) :
    ∃ r, parseIPProvider ips config = some r ∧ (NotFatal (Host.unpack r).2 ↔ Acceptable ips) ∧
      (Acceptable ips → ∃ p, r = .ok p) := by
  obtain ⟨hiff, hfatal⟩ := parseIPProvider_iff ips config
  by_cases hacc : Acceptable ips
  · obtain ⟨p, hp⟩ := hiff.mpr hacc
    exact ⟨_, hp, iff_of_true notFatal_nil hacc, fun _ => ⟨p, rfl⟩⟩
  · obtain ⟨msg, hmsg⟩ := hfatal hacc hne
    exact ⟨_, hmsg, iff_of_false (not_notFatal_futureFatal _) hacc, fun h => absurd h hacc⟩

/-- **What `Get` makes of the addresses.** -/
theorem addresses_cases (s : Settings) : ∃ p port external logs,
    Host.addresses s = some ((p, port, external), logs) ∧ (NotFatal logs ↔ AcceptableAddresses s) ∧
      (external = true ↔ s.turnExternalIP ≠ []) ∧ (AcceptableAddresses s → ∃ provider,
        p = some provider ∧ parseIPProvider s.addressList s.addressConfig = some (.ok provider)) := by
  unfold Host.addresses Settings.addressList Settings.addressConfig
  by_cases hturn : s.turnExternalIP = []
  · simp only [if_neg (not_not_intro hturn)]
    have hacc : AcceptableAddresses s ↔ Acceptable s.externalIP := by
      refine ⟨fun h => h.elim (fun h => ?_) And.right, fun h => Or.inr ⟨hturn, h⟩⟩
      exact absurd (hturn ▸ h.2.1) not_acceptable_nil
    by_cases hself : s.externalIP = []
    · simp only [if_neg (not_not_intro hself)]
      have hno : ¬ AcceptableAddresses s := fun h => not_acceptable_nil (hself ▸ hacc.mp h)
      exact ⟨_, _, _, _, rfl, iff_of_false (not_notFatal_futureFatal _) hno,
        iff_of_false (by simp) (not_not_intro hturn), fun h => absurd h hno⟩
    · simp only [if_pos hself]
      obtain ⟨r, hr, hfatal, hok⟩ := unpack_cases hself "SCREEGO_EXTERNAL_IP"
      simp only [hr, Option.bind_eq_bind, Option.bind_some]
      refine ⟨_, _, _, _, rfl, hfatal.trans hacc.symm, iff_of_false (by simp) (not_not_intro hturn),
        fun h => ?_⟩
      obtain ⟨p, rfl⟩ := hok (hacc.mp h)
      exact ⟨p, rfl, rfl⟩
  · simp only [if_pos hturn]
    obtain ⟨r, hr, hfatal, hok⟩ := unpack_cases hturn "SCREEGO_TURN_EXTERNAL_IP"
    have hacc : AcceptableAddresses s ↔
        s.externalIP = [] ∧ Acceptable s.turnExternalIP ∧ s.turnExternalSecret ≠ "" :=
      or_iff_left fun h => hturn h.1
    simp only [hr, Option.bind_eq_bind, Option.bind_some]
    refine ⟨_, _, _, _, rfl, ?_, iff_of_true rfl hturn, fun h => ?_⟩
    · rw [notFatal_append, notFatal_append, notFatal_ite, notFatal_ite, hfatal, hacc, not_not, and_assoc]
    · obtain ⟨p, rfl⟩ := hok (hacc.mp h).2.1
      exact ⟨p, rfl, rfl⟩

/-! ## What `Get` accepts -/

/-- **Settings to accept.** -/
structure Accepted (h : Host) (s : Settings) : Prop where
  authMode : s.authMode = Config.authModeTurn ∨ s.authMode = Config.authModeAll ∨
    s.authMode = Config.authModeNone
  tls : s.serverTLS = true → s.tlsCertFile ≠ "" ∧ s.tlsKeyFile ≠ ""
  origins : ∀ e ∈ s.corsAllowedOrigins, ∃ r, h.lib.compile e = .ok r
  secret : s.secret = [] → h.random.2 = none
  addresses : AcceptableAddresses s
  ports : AcceptableRange s.turnPortRange
  deny : ∀ e ∈ s.turnDenyPeers, ∃ base n, Writes e base n

/-- **What the files and the environment have to be like.** -/
structure WellConfigured (h : Host) : Prop where
  files : h.FilesLoad (h.getFiles h.getExecutableOrWorkDir.1)
  process : (h.process h.env).2 = none
  settings : Accepted h h.settings

theorem notFatal_executable (h : Host) : NotFatal h.getExecutableOrWorkDir.2.toList := by
  unfold Host.getExecutableOrWorkDir Host.getExecutableDir
  cases h.executable <;> cases h.dev <;> simp

theorem notFatal_processLogs (h : Host) : NotFatal h.processLogs ↔ (h.process h.env).2 = none := by
  unfold Host.processLogs
  cases (h.process h.env).2 <;> simp [futureFatal]

/-- **`Get` never panics**, and its messages are fatal unless everything is well configured. -/
theorem get_cases (h : Host) : ∃ provider port external logs,
    h.get = some (h.conf provider port external, logs) ∧ (NotFatal logs ↔ WellConfigured h) ∧
      (external = true ↔ h.settings.turnExternalIP ≠ []) ∧ (AcceptableAddresses h.settings → ∃ p,
        provider = some p ∧
          parseIPProvider h.settings.addressList h.settings.addressConfig = some (.ok p)) := by
  obtain ⟨provider, port, external, logs, haddr, hfatal, hkind, hprovider⟩ := addresses_cases h.settings
  refine ⟨provider, port, external, h.logs (h.conf provider port external) logs, ?_, ?_, hkind, hprovider⟩
  · unfold Host.get
    simp only [haddr, Option.bind_eq_bind, Option.bind_some]
  · simp only [Host.logs, notFatal_append, notFatal_processLogs, Host.notFatal_loadFiles, Host.notFatal_authModeLogs,
      Host.notFatal_tlsLogs, Packages.notFatal_originLogs, Host.notFatal_secretOf, hfatal,
      notFatal_portRangeLogs, Host.notFatal_denyLogs, Host.notFatal_logDeprecated, notFatal_executable,
      notFatal_singleton, ne_eq, reduceCtorEq, not_false_eq_true, and_true, true_and]
    constructor
    · rintro ⟨⟨⟨⟨⟨⟨⟨⟨hfiles, hprocess⟩, hauth⟩, htls⟩, horigins⟩, hsecret⟩, haddresses⟩, hports⟩, hdeny⟩
      exact ⟨hfiles, hprocess, hauth, htls, horigins, hsecret, haddresses, hports, hdeny⟩
    · rintro ⟨hfiles, hprocess, hauth, htls, horigins, hsecret, haddresses, hports, hdeny⟩
      exact ⟨⟨⟨⟨⟨⟨⟨⟨hfiles, hprocess⟩, hauth⟩, htls⟩, horigins⟩, hsecret⟩, haddresses⟩, hports⟩, hdeny⟩

end Screego
