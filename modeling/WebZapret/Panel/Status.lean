import WebZapret.Panel.Http
import WebZapret.Catalog.Stored

/-!
# The status page

`status` of `panel.py` with what it calls: the public address, the connected devices, the traffic
counters and the services. What the system and its files say is a parameter. Of everything that can be
wrong there, only two things reach the handler: a catalog that is no list of strategies, and, when
iptables reports nothing, a stored counter that is no number.
-/

namespace WebZapret.Panel.Http

open Py Failing Selection Catalog

/-- What the page finds: texts are those of files, of the environment and of programs, `none` where the
reading fails. -/
structure StatusEnv where
  /-- `PUBLIC_HOST` -/
  publicHost : Printed
  /-- `_IP_CACHE`, when it has a host and is younger than ten minutes -/
  cached : Option (Printed × Printed)
  /-- what the two echo services answer, stripped -/
  echo : List (Option Printed)
  /-- the address of a socket that is connected to the outside -/
  localAddress : Option Printed
  /-- `SS_LISTEN_PORT` and `SOCKS5_LISTEN_PORT` -/
  ssPort : Int
  socksPort : Int
  ssMethod : Printed
  ssPassword : Printed
  /-- `/proc/net/tcp` and `/proc/net/tcp6` -/
  procNet : List (Option Printed)
  /-- what iptables prints of the chains `WZFW` and `NFQIN` -/
  wzfw : Option Printed
  nfqin : Option Printed
  /-- the state files -/
  state : Str → Option Printed
  /-- the pidfiles -/
  pidfile : Str → Option Printed
  /-- `os.kill(pid, 0)` succeeds -/
  kill : Int → Bool
  /-- `c.isdigit()` -/
  isdigit : Nat → Bool
  /-- `int(time.time() - BOOT_TIME)` -/
  uptime : Int

/-- `state_get` -/
def StatusEnv.stateGet (env : StatusEnv) (key default : String) : Str :=
  match env.state (lit key) with
  | some text => text.1.strip
  | none => lit default

/-! ## The address -/

/-- `re.fullmatch(r"\d{1,3}(?:\.\d{1,3}){3}", text)` of an ASCII text -/
def isQuad (text : Str) : Prop :=
  (text.split 46).length = 4 ∧ ∀ part ∈ text.split 46,
    1 ≤ part.length ∧ part.length ≤ 3 ∧ part.all isAsciiDigit

instance (text : Str) : Decidable (isQuad text) := by
  unfold isQuad
  infer_instance

/-- `detect_public_host` -/
def detectPublicHost (env : StatusEnv) : Str × Str :=
  if env.publicHost.1 ≠ [] then (env.publicHost.1, lit "env")
  else
    match env.cached with
    | some (host, source) => (host.1, source.1)
    | none =>
      match env.echo.find? fun answer => answer.any fun text => isQuad text.1 with
      | some (some host) => (host.1, lit "auto")
      | _ =>
        match env.localAddress with
        | some host => (host.1, if host.1 = [] then [] else lit "local")
        | none => ([], [])

/-- `ss_uri` -/
def ssUri (env : StatusEnv) (host : Str) : Result Str := do
  let raw := env.ssMethod.1 ++ lit ":" ++ env.ssPassword.1
  return lit "ss://" ++ base64 (← Utf8.encode raw) ++ lit "@" ++ host ++ lit ":" ++
    intStr env.ssPort ++ lit "#web_zapret2"

/-- `ss_uri(host) if host else ""` -/
def hostUri (env : StatusEnv) (host : Str) : Result Str :=
  if host = [] then .ok [] else ssUri env host

/-! ## The devices -/

variable [Tables]

/-- A digit of `int(s, 16)`. -/
def hexValue (c : Nat) : Option Nat :=
  if 97 ≤ c ∧ c ≤ 102 then some (c - 87)
  else if 65 ≤ c ∧ c ≤ 70 then some (c - 55)
  else Tables.decimal c

/-- Hexadecimal digits, with single underscores between them. -/
def hexFrom (acc : Nat) : Str → Option Nat
  | [] => some acc
  | [c] => (hexValue c).map fun d => 16 * acc + d
  | 95 :: c :: s => do hexFrom (16 * acc + (← hexValue c)) s
  | c :: s => do hexFrom (16 * acc + (← hexValue c)) s

/-- `int(s, 16)` -/
def parseHex (s : Str) : Option Int :=
  let digits (t : Str) : Option Int :=
    if t.head?.all (· = 95) then none else (hexFrom 0 t).map fun n => (n : Int)
  let magnitude (t : Str) : Option Int :=
    match t with
    | 48 :: x :: 95 :: t' => if x = 120 ∨ x = 88 then digits t' else digits t
    | 48 :: x :: t' => if x = 120 ∨ x = 88 then digits t' else digits t
    | t => digits t
  match s.stripBy isNumberSpace with
  | 43 :: t => magnitude t
  | 45 :: t => (magnitude t).map (- ·)
  | t => magnitude t

/-- `s.rsplit(":", 1)[1]` -/
def afterColon (s : Str) : Option Str :=
  if 58 ∈ s then some (s.reverse.takeWhile (· ≠ 58)).reverse else none

/-- `s.rsplit(":", 1)[0]` -/
def beforeColon (s : Str) : Str :=
  if 58 ∈ s then ((s.reverse.dropWhile (· ≠ 58)).drop 1).reverse else s

/-- `port_svc` -/
def portServices (env : StatusEnv) : List (Int × Str) :=
  let ss := if env.ssPort = 0 then [] else [(env.ssPort, lit "ss-server")]
  if env.socksPort = 0 then ss
  else if env.socksPort = env.ssPort then [(env.socksPort, lit "sockd")]
  else ss ++ [(env.socksPort, lit "sockd")]

/-- The service and the client of a row of `/proc/net/tcp`. -/
def rowClient (env : StatusEnv) (row : Str) : Option (Str × Str) :=
  match row.words with
  | _ :: localEnd :: remoteEnd :: state :: _ => do
    if state ≠ lit "01" then none
    let port ← parseHex (← afterColon localEnd)
    return (← (portServices env).lookup port, beforeColon remoteEnd)
  | _ => none

/-- The clients of the services. -/
def clients (env : StatusEnv) : List (Str × Str) :=
  env.procNet.flatMap fun
    | some text => (text.1.lines.drop 1).filterMap (rowClient env)
    | none => []

/-- `socket.inet_ntoa(struct.pack("<I", n))` -/
def dotted (n : Nat) : Str :=
  Str.join (lit ".")
    ([n % 256, n / 256 % 256, n / 65536 % 256, n / 16777216].map fun b : Nat => intStr b)

/-- `dec` -/
def decodeClient (x : Str) : Str :=
  if x.length = 8 then
    match parseHex x with
    | some (.ofNat n) => if n < 4294967296 then dotted n else x
    | _ => x
  else if x = [] then lit "(?)" else x

/-- `connected_devices` -/
def connectedDevices (env : StatusEnv) : Json :=
  let services := ((portServices env).map (·.2)).mergeSort fun a b => decide (a ≤ b)
  let ips := (((clients env).map fun c => decodeClient c.2).eraseDups).mergeSort
    fun a b => decide (a ≤ b)
  .obj [member "count" (.int ips.length),
    member "per_service" (.obj (services.map fun svc =>
      (svc, .int ((((clients env).filter (·.1 = svc)).map (·.2)).eraseDups.length : Nat)))),
    member "ips" (Json.texts (ips.take 64))]

/-! ## The traffic -/

/-- The bytes of the rules with a target, in a listing of iptables. -/
def countedBytes (target : String) (listing : Option Printed) : Int :=
  match listing with
  | none => 0
  | some text => (text.1.lines.map fun line =>
      match line.words with
      | _ :: bytes :: t :: _ => if t = lit target then (Json.parseInt bytes).getD 0 else 0
      | _ => 0).sum

/-- `int(state_get(key, "0") or "0")` -/
def storedBytes (env : StatusEnv) (key : String) : Result Int :=
  let text := env.stateGet key "0"
  (Json.str (if text = [] then lit "0" else text)).toInt

/-- `get_traffic_stats`, of which the first two are the bytes in and out. -/
def trafficStats (env : StatusEnv) : Result Json := do
  let counted := (countedBytes "RETURN" env.nfqin, countedBytes "NFQUEUE" env.wzfw)
  let bytes ←
    if counted = (0, 0) then do
      pure (← storedBytes env "nfqws_bytes_in", ← storedBytes env "nfqws_bytes_out")
    else pure counted
  return .obj [member "bytes_in" (.int bytes.1), member "bytes_out" (.int bytes.2),
    member "total" (.int (bytes.1 + bytes.2))]

/-! ## The services -/

/-- `pid_alive` of `panel.py` -/
def pidAlive (kill : Int → Bool) (pid : Json) : Bool :=
  pid.truthy && match pid.toInt with
    | .ok i => kill i
    | .error _ => false

/-- The pidfile of a service, if it has digits only. -/
def StatusEnv.pidOf (env : StatusEnv) (name : Str) : Str :=
  match env.pidfile name with
  | some text => if text.1.strip.all env.isdigit then text.1.strip else []
  | none => []

/-- `service_state` -/
def serviceState (env : StatusEnv) (name : Str) : Json :=
  let pid := env.pidOf name
  .obj [member "name" (.str name), member "running" (.bool (pidAlive env.kill (.str pid))),
    member "pid" (.str pid)]

/-- `SERVICES` -/
def services : List Str :=
  [lit "ss-server", lit "sockd", lit "nfqws", lit "redsocks", lit "ss-local", lit "udprelay"]

/-! ## The page -/

/-- The strategy of the page, and an empty dict when there is none. -/
def activeEntry (strat : Str) (entries : List Dict) : Dict :=
  (entries.find? fun s => (s.get0 (lit "id")).Is strat).getD []

/-- What `status` returns. -/
def statusJson (env : StatusEnv) (strat : Str) (entry : Dict) (host : Str × Str) (traffic : Json)
    (uri : Str) : Json := .obj
  [member "version" (.str (lit "0.2.0")), member "uptime" (.int env.uptime),
    member "exit_mode" (.str (env.stateGet "exit_mode" "direct")),
    member "strategy" (.obj [member "id" (.str strat),
      member "name" (entry.get (lit "name") (.str strat)),
      member "nfqws_opt" ((entry.get0 (lit "lua_opt")).or (entry.get (lit "nfqws_opt") (.str []))),
      member "lua_init" (entry.get (lit "lua_init") (.arr []))]),
    member "services" (.arr (services.map (serviceState env))),
    member "devices" (connectedDevices env), member "traffic" traffic,
    member "connect" (.obj [member "host" (.str host.1), member "host_source" (.str host.2),
      member "ss" (.obj [member "port" (.int env.ssPort), member "method" (.str env.ssMethod.1),
        member "uri" (.str uri)]),
      member "socks5" (.obj [member "port" (.int env.socksPort),
        member "auth" (.str (lit "none"))])])]

/-- `status` -/
def status (env : StatusEnv) (stored : Stored) : Result Json := do
  let strat ← activeStrategy (env.stateGet "strategy" "standard") stored
  let entries ← entriesIn (← strategies stored)
  let host := detectPublicHost env
  let traffic ← trafficStats env
  let uri ← hostUri env host.1
  return statusJson env strat (activeEntry strat entries) host traffic uri

/-! ## The page is sent -/

omit [Tables] in
theorem encodableText_stateGet (env : StatusEnv) (key default : String) :
    EncodableText (env.stateGet key default) := by
  unfold StatusEnv.stateGet
  split
  · rename_i text _
    exact encodableText_strip.mpr text.2
  · exact encodableText_lit _

omit [Tables] in
theorem encodable_get {d : Dict} {default : Json} (hd : (Json.obj d).encodable = true)
    (hdefault : default.encodable = true) (key : Str) : (d.get key default).encodable = true := by
  unfold Dict.get
  cases hlookup : d.lookup key with
  | none => exact hdefault
  | some v => exact (Json.encodable_obj.mp hd _ (Dict.mem_of_lookup hlookup)).2

omit [Tables] in
theorem encodableText_detectPublicHost (env : StatusEnv) :
    EncodableText (detectPublicHost env).1 ∧ EncodableText (detectPublicHost env).2 := by
  unfold detectPublicHost
  split
  · exact ⟨env.publicHost.2, encodableText_lit _⟩
  split
  · rename_i host source _
    exact ⟨host.2, source.2⟩
  split
  · rename_i host _
    exact ⟨host.2, encodableText_lit _⟩
  split
  · rename_i host _
    refine ⟨host.2, ?_⟩
    split
    · exact encodableText_nil
    · exact encodableText_lit _
  · exact ⟨encodableText_nil, encodableText_nil⟩

omit [Tables] in
theorem ssUri_ok (env : StatusEnv) {host : Str} (hhost : EncodableText host) :
    Succeeds (ssUri env host) EncodableText := by
  have hraw : EncodableText (env.ssMethod.1 ++ lit ":" ++ env.ssPassword.1) := by
    simp [encodableText_append, env.ssMethod.2, env.ssPassword.2]
  unfold ssUri Utf8.encode
  dsimp only
  rw [if_pos hraw]
  refine ⟨_, rfl, ?_⟩
  simp [encodableText_append, hhost, encodableText_base64]

omit [Tables] in
theorem hostUri_ok (env : StatusEnv) {host : Str} (hhost : EncodableText host) :
    Succeeds (hostUri env host) EncodableText := by
  unfold hostUri
  split
  · exact ⟨[], rfl, encodableText_nil⟩
  · exact ssUri_ok env hhost

omit [Tables] in
theorem encodableText_beforeColon {s : Str} (h : EncodableText s) :
    EncodableText (beforeColon s) := by
  unfold beforeColon
  split
  · refine h.mono fun c hc => ?_
    exact List.mem_reverse.mp ((List.dropWhile_sublist _).subset
      (List.mem_of_mem_drop (List.mem_reverse.mp hc)))
  · exact h

theorem encodableText_clients (env : StatusEnv) : ∀ c ∈ clients env, EncodableText c.2 := by
  intro c hc
  obtain ⟨file, _, hc⟩ := List.mem_flatMap.mp hc
  cases file with
  | none => cases hc
  | some text =>
    obtain ⟨row, hrow, hclient⟩ := List.mem_filterMap.mp hc
    have hwords := encodableText_words.mpr (text.2.lines (List.mem_of_mem_drop hrow))
    unfold rowClient at hclient
    split at hclient
    · rename_i first localEnd remoteEnd state rest hsplit
      have hremote : EncodableText remoteEnd := hwords remoteEnd (by simp [hsplit])
      split at hclient
      · cases hclient
      · obtain ⟨colon, _, hclient⟩ := Option.bind_eq_some_iff.mp hclient
        obtain ⟨port, _, hclient⟩ := Option.bind_eq_some_iff.mp hclient
        obtain ⟨svc, _, hclient⟩ := Option.bind_eq_some_iff.mp hclient
        cases hclient
        exact encodableText_beforeColon hremote
    · cases hclient

theorem encodableText_decodeClient {x : Str} (h : EncodableText x) :
    EncodableText (decodeClient x) := by
  have hdotted (n : Nat) : EncodableText (dotted n) := by
    refine (encodableText_join (encodableText_lit _)).mpr fun p hp => ?_
    obtain ⟨b, _, rfl⟩ := List.mem_map.mp hp
    exact encodableText_intStr _
  unfold decodeClient
  split
  · split
    · split
      · exact hdotted _
      · exact h
    · exact h
  · split
    · exact encodableText_lit _
    · exact h

omit [Tables] in
theorem encodableText_portServices (env : StatusEnv) :
    ∀ p ∈ portServices env, EncodableText p.2 := by
  unfold portServices
  dsimp only
  split_ifs <;> simp

theorem encodable_connectedDevices (env : StatusEnv) : (connectedDevices env).encodable = true := by
  have hservices : ∀ svc ∈ ((portServices env).map (·.2)).mergeSort (fun a b => decide (a ≤ b)),
      EncodableText svc := by
    intro svc hsvc
    obtain ⟨p, hp, rfl⟩ := List.mem_map.mp (List.mem_mergeSort.mp hsvc)
    exact encodableText_portServices env p hp
  have hips : ∀ ip ∈ ((((clients env).map fun c => decodeClient c.2).eraseDups).mergeSort
      fun a b => decide (a ≤ b)).take 64, EncodableText ip := by
    intro ip hip
    have hmem := List.mem_eraseDups.mp (List.mem_mergeSort.mp (List.mem_of_mem_take hip))
    obtain ⟨c, hc, rfl⟩ := List.mem_map.mp hmem
    exact encodableText_decodeClient (encodableText_clients env c hc)
  unfold connectedDevices
  simp only [member, Json.encodable_obj, List.forall_mem_cons, Json.encodable_texts, List.forall_mem_map]
  exact ⟨⟨encodableText_lit _, rfl⟩, ⟨encodableText_lit _, fun svc hsvc => ⟨hservices svc hsvc, rfl⟩⟩,
    ⟨encodableText_lit _, hips⟩, List.forall_mem_nil _⟩

omit [Tables] in
theorem encodableText_pidOf (env : StatusEnv) (name : Str) : EncodableText (env.pidOf name) := by
  unfold StatusEnv.pidOf
  split
  · rename_i text _
    split
    · exact encodableText_strip.mpr text.2
    · exact encodableText_nil
  · exact encodableText_nil

theorem encodable_serviceState (env : StatusEnv) {name : Str} (hname : EncodableText name) :
    (serviceState env name).encodable = true := by
  simp [serviceState, member, hname, encodableText_pidOf]

/-- The stored counters are numbers. -/
def StatusEnv.Counts (env : StatusEnv) : Prop :=
  ∀ key ∈ ["nfqws_bytes_in", "nfqws_bytes_out"], ∃ n, storedBytes env key = .ok n

theorem trafficStats_ok {env : StatusEnv} (h : env.Counts) :
    Succeeds (trafficStats env) fun page => page.encodable = true := by
  obtain ⟨bytesIn, hin⟩ := h "nfqws_bytes_in" (by simp)
  obtain ⟨bytesOut, hout⟩ := h "nfqws_bytes_out" (by simp)
  unfold trafficStats
  dsimp only
  split
  · rw [hin, hout]
    exact ⟨_, rfl, by simp [member]⟩
  · exact ⟨_, rfl, by simp [member]⟩

/-- A catalog that can be read: it has these strategies, and they are in UTF-8. -/
structure Readable (stored : Stored) (entries : List Dict) : Prop where
  holds : Holds stored entries
  encodable : ∀ s ∈ entries, (Json.obj s).encodable = true

omit [Tables] in
theorem Readable.strategies {stored : Stored} {entries : List Dict} (h : Readable stored entries) :
    strategies stored = .ok (.arr (entries.map .obj)) := by
  obtain ⟨members, rfl, hlookup⟩ := h.holds
  show (Except.ok (Dict.get members (lit "strategies") (.arr [])) : Result Json) = _
  rw [Dict.get, hlookup]
  rfl

omit [Tables] in
/-- The ids of the catalog can be encoded. -/
theorem Readable.encodable_id {stored : Stored} {entries : List Dict} (h : Readable stored entries)
    {sid : Str} (hsid : HasId (entries.map idOf) sid) : EncodableText sid := by
  obtain ⟨x, hx, his⟩ := hsid
  obtain ⟨s, hs, rfl⟩ := List.mem_map.mp hx
  have hid : (idOf s).encodable = true := encodable_get (h.encodable s hs) rfl _
  rw [his] at hid
  exact Json.encodable_str.mp hid

omit [Tables] in
/-- The strategy that a page names. -/
theorem Readable.active {stored : Stored} {entries : List Dict} (h : Readable stored entries)
    {cur : Str} (hcur : EncodableText cur) : Succeeds (activeStrategy cur stored) EncodableText := by
  refine ⟨_, bind_eq_ok.mpr ⟨_, h.holds.strategyIds, rfl⟩, ?_⟩
  split
  · exact hcur
  · exact encodableText_nil

theorem status_ok {env : StatusEnv} {stored : Stored} {entries : List Dict}
    (hcounts : env.Counts) (hstored : Readable stored entries) :
    Succeeds (status env stored) fun page => page.encodable = true := by
  obtain ⟨strat, hstrat, hcur⟩ := hstored.active (encodableText_stateGet env "strategy" "standard")
  obtain ⟨traffic, htraffic, hbytes⟩ := trafficStats_ok hcounts
  obtain ⟨hhost, hsource⟩ := encodableText_detectPublicHost env
  obtain ⟨uri, huri, hlink⟩ := hostUri_ok env hhost
  have hentry : (Json.obj (activeEntry strat entries)).encodable = true := by
    unfold activeEntry
    cases hfind : entries.find? fun s => (s.get0 (lit "id")).Is strat with
    | none => rfl
    | some s => exact hstored.encodable s (List.mem_of_find?_eq_some hfind)
  refine ⟨statusJson env strat (activeEntry strat entries) (detectPublicHost env) traffic uri, ?_, ?_⟩
  · exact bind_eq_ok.mpr ⟨strat, hstrat, bind_eq_ok.mpr ⟨_, hstored.strategies, bind_eq_ok.mpr
      ⟨entries, entriesIn_arr entries, bind_eq_ok.mpr ⟨traffic, htraffic, bind_eq_ok.mpr
        ⟨uri, huri, rfl⟩⟩⟩⟩⟩
  have hopt : (((activeEntry strat entries).get0 (lit "lua_opt")).or
      ((activeEntry strat entries).get (lit "nfqws_opt") (.str []))).encodable = true := by
    unfold Json.or
    split
    · exact encodable_get hentry rfl _
    · exact encodable_get hentry rfl _
  have hservices : ∀ name ∈ services, (serviceState env name).encodable = true := by
    have hnames : ∀ name ∈ services, EncodableText name := by decide
    exact fun name hname => encodable_serviceState env (hnames name hname)
  show (statusJson _ _ _ _ _ _).encodable = true
  simp [statusJson, member, -List.mem_map, List.forall_mem_map, encodableText_stateGet,
    encodable_connectedDevices, hcur, hbytes, hhost, hsource, hlink, hopt,
    env.ssMethod.2, encodable_get hentry]
  exact hservices

end WebZapret.Panel.Http
