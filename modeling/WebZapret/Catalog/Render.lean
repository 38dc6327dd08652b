import WebZapret.Lib.Py.Shlex

/-!
# Rendering a catalog entry

`strategy.py`: a strategy's text becomes the argument list of `nfqws2`. Native text is split and
gets a filter for its protocol when it has none; legacy `--dpi-desync` text is converted profile
by profile. `strategy_args` then refuses what an entry may not set, and appends the options that
switch the reassembly of a payload off.
-/

namespace WebZapret.Catalog

open Py

variable [Tables]

/-- `shlex.split` of a JSON value, which must be a string. -/
def splitText : Json → Result (List Str)
  | .str s => Shlex.split s
  | _ => .error .attributeError

/-! ## Native text -/

/-- The filter that a protocol asks for. -/
def protocolFilter (protocol : Str) : Str :=
  let proto := Tables.upper protocol
  if proto.Contains (lit "QUIC") ∨ proto.Contains (lit "UDP") then lit "--filter-udp=443"
  else if proto.StartsWith (lit "HTTP") ∧ ¬proto.StartsWith (lit "HTTPS") ∧
      ¬proto.Contains (lit "TLS") then lit "--filter-tcp=80"
  else lit "--filter-tcp=443"

/-- `any(a.startswith(p) for a in args)` -/
abbrev AnyStarts (args : List Str) (p : Str) : Prop := ∃ a ∈ args, a.StartsWith p

/-- `has_lua` -/
def HasLua (args : List Str) : Prop :=
  AnyStarts args (lit "--lua-desync=") ∨ AnyStarts args (lit "--payload=")

/-- The text is not converted: it has native options, or no legacy ones. -/
def Native (args : List Str) : Prop := HasLua args ∨ ¬AnyStarts args (lit "--dpi-desync")

instance (args : List Str) : Decidable (Native args) := by
  unfold Native HasLua
  infer_instance

/-- The native branch of `native_options`. -/
def nativeArgs (args : List Str) (protocol : Json) : Result (List Str) :=
  if protocol.truthy ∧ ¬AnyStarts args (lit "--filter-") then
    match protocol with
    | .str p => .ok (protocolFilter p :: args)
    | _ => .error .attributeError
  else .ok args

/-! ## Legacy text -/

/-- What the options of a legacy profile set. -/
structure Legacy where
  modes : List Str
  splitPos : Str
  repeats : Str
  fooling : List Str

/-- One option of a legacy profile. -/
def Legacy.option (l : Legacy) (arg : Str) : Result Legacy :=
  if arg.key = lit "--dpi-desync" then .ok { l with modes := l.modes ++ arg.value.split 44 }
  else if arg.key = lit "--dpi-desync-split-pos" then .ok { l with splitPos := arg.value }
  else if arg.key = lit "--dpi-desync-repeats" then .ok { l with repeats := arg.value }
  else if arg.key = lit "--dpi-desync-fooling" then .ok { l with fooling := arg.value.split 44 }
  else if arg.key.StartsWith (lit "--dpi-desync") then
    .error (.valueError (lit "Unsupported legacy option: " ++ arg.key))
  else .ok l

/-- `{"split": "multisplit", "disorder": "multidisorder"}.get(mode, mode)` -/
def modeName (mode : Str) : Str :=
  if mode = lit "split" then lit "multisplit"
  else if mode = lit "disorder" then lit "multidisorder"
  else mode

/-- The `--lua-desync` argument of one mode. -/
def Legacy.desync (l : Legacy) (blob : Str) (mode : Str) : Result Str :=
  let mode := modeName mode
  if mode = lit "fake" ∨ mode = lit "fakedsplit" then
    if ∃ f ∈ l.fooling, f ≠ lit "md5sig" ∧ f ≠ lit "badseq" ∧ f ≠ lit "ts" then
      .error (.valueError (lit "Unsupported legacy fooling"))
    else
      let spec := [mode, lit "repeats=" ++ l.repeats,
          if mode = lit "fake" then lit "blob=fake_default_" ++ blob
          else lit "pos=" ++ (l.splitPos.split 44).getLastD []] ++
        (if lit "md5sig" ∈ l.fooling then [lit "tcp_md5"] else []) ++
        (if lit "badseq" ∈ l.fooling then [lit "tcp_seq=-10000", lit "tcp_ack=-66000"] else []) ++
        (if lit "ts" ∈ l.fooling then [lit "tcp_ts=-600000"] else [])
      .ok (lit "--lua-desync=" ++ Str.join (lit ":") spec)
  else if mode = lit "multisplit" ∨ mode = lit "multidisorder" then
    .ok (lit "--lua-desync=" ++ mode ++ lit ":pos=" ++ l.splitPos)
  else .error (.valueError (lit "Unsupported legacy mode: " ++ mode))

/-- `filters` -/
def legacyFilters (profile : List Str) : List Str :=
  profile.filter fun a => ¬a.StartsWith (lit "--dpi-desync")

/-- `payload, blob` -/
def payloadAndBlob (filters : List Str) : Str × Str :=
  if AnyStarts filters (lit "--filter-udp=") then (lit "quic_initial", lit "quic")
  else if lit "--filter-tcp=80" ∈ filters then (lit "http_req", lit "http")
  else (lit "tls_client_hello", lit "tls")

/-- What one legacy profile adds to `result`; a profile without filters is dropped. -/
def addProfile (result : List Str) (profile : List Str) : Result (List Str) := do
  let filters := legacyFilters profile
  if filters = [] then return result
  let (payload, blob) := payloadAndBlob filters
  let l ← profile.foldlM Legacy.option ⟨[], lit "2", lit "1", []⟩
  let desync ← l.modes.mapM (l.desync blob)
  let separator := if result = [] then [] else [lit "--new"]
  return result ++ separator ++ filters ++ [lit "--payload=" ++ payload] ++ desync

/-- The legacy branch of `native_options`. -/
def legacyArgs (args : List Str) : Result (List Str) :=
  (args.splitOn (lit "--new")).foldlM addProfile []

/-- `native_options` -/
def nativeOptions (text protocol : Json) : Result (List Str) := do
  let args ← splitText text
  if args = [] then return []
  if Native args then nativeArgs args protocol else legacyArgs args

/-! ## The argument list of an entry -/

/-- The options that an entry may not set. -/
def deniedKeys : List Str :=
  [lit "--qnum", lit "--fwmark", lit "--daemon", lit "--pidfile", lit "--intercept",
    lit "--dry-run", lit "--version", lit "--chdir"]

/-- The check of one rendered argument. -/
def checkArg (arg : Str) : Result Unit :=
  if 0 ∈ arg ∨ ¬arg.StartsWith (lit "--") ∨ arg.key ∈ deniedKeys then
    .error (.valueError (lit "Invalid strategy argument: " ++ arg))
  else .ok ()

/-- `re.fullmatch(r"[a-z0-9_]+", p)` -/
def payloadToken (p : Str) : Prop :=
  p ≠ [] ∧ ∀ c ∈ p, isLower c || isAsciiDigit c || c == 95

instance (p : Str) : Decidable (payloadToken p) := by
  unfold payloadToken
  infer_instance

/-- `"--reasm-disable=" + p` -/
def reasmDisable (p : Str) : Str := lit "--reasm-disable=" ++ p

/-- The reassembly options that an entry with `no_reasm` gets. -/
def disabledPayloads (entry : Dict) : Result (List Str) :=
  match (entry.get0 (lit "no_reasm_payloads")).or (.str (lit "tls_client_hello")) with
  | .str payloads => (payloads.split 44).mapM fun p =>
      if payloadToken p then .ok (reasmDisable p)
      else .error (.valueError (lit "Invalid no_reasm_payloads token: " ++ Json.reprStr p))
  | _ => .error .attributeError

/-- `args` with the reassembly options of the entry. -/
def withReasm (entry : Dict) (args : List Str) : Result (List Str) := do
  if (entry.get0 (lit "no_reasm")).truthy then
    let disabled ← disabledPayloads entry
    return args.filter (fun a => ¬a.StartsWith (lit "--reasm-disable=")) ++ disabled
  return args

/-- The scripts of `lua_init`. -/
def initScripts (entry : Dict) : Result (List Str) :=
  let error := Exc.valueError (lit "lua_init must be a list of absolute container file paths")
  match entry.get (lit "lua_init") (.arr []) with
  | .arr items => items.mapM fun
    | .str s => if s.StartsWith (lit "/") ∧ 0 ∉ s then .ok s else .error error
    | _ => .error error
  | _ => .error error

/-- `strategy_args` -/
def strategyArgs (entry : Dict) : Result (List Str) := do
  let text := (entry.get0 (lit "lua_opt")).or (entry.get (lit "nfqws_opt") (.str []))
  let args ← nativeOptions text (entry.get (lit "protocol") (.str []))
  args.forM checkArg
  let args ← withReasm entry args
  let scripts ← initScripts entry
  return scripts.map (fun s => lit "--lua-init=@" ++ s) ++ args

end WebZapret.Catalog
