import WebZapret.Panel.Status
import WebZapret.Selection.Import
import WebZapret.Selection.Sendable

/-!
# The selection page

`bcw_overview` of `panel.py` with what it calls: the availability of the engine, the settings and the
schedule, the job, and the summary of the last run. Every state file is read as it is, so the page is
sent as long as the files hold what the panel and the harness write.
-/

namespace WebZapret.Panel.Http

open Py Failing Selection

/-- What the selection part of the panel finds; a file is `none` when it cannot be read. -/
structure SelectionEnv where
  /-- `blockcheck` could be imported -/
  engine : Bool
  /-- `os.access(WZ_BCW, os.X_OK)` -/
  harness : Bool
  environ : Str → Option Str
  settings : SettingsFile
  schedule : ScheduleFile
  job : Option Json
  last : Option Json
  version : Option Printed
  /-- `os.access(path, os.X_OK)`, `os.path.exists` and `shutil.which("nft")` -/
  executable : Str → Bool
  present : Str → Bool
  nft : Bool
  /-- `/proc/net/netfilter/nfnetlink_queue` -/
  queues : Option Printed
  /-- `time.strftime("%Y-%m-%d %H:%M:%S", time.localtime(stamp))` -/
  localTime : Json → Result Printed
  /-- `os.kill(pid, 0)` succeeds -/
  kill : Int → Bool

/-- `bcw_ready`: its error, when it is not ready. -/
def SelectionEnv.notReady (env : SelectionEnv) : Option Str :=
  if ¬env.engine then some (lit "engine module missing (blockcheck.py not installed)")
  else if ¬env.harness then some (lit "harness missing: /opt/webzapret/scripts/wz-bcw.sh")
  else none

/-- `len(x)` -/
def jsonLen : Json → Result Nat
  | .arr items => .ok items.length
  | .obj members => .ok members.length
  | .str s => .ok s.length
  | _ => .error .typeError

/-- `x[:n]` -/
def jsonTake (n : Nat) : Json → Result Json
  | .arr items => .ok (.arr (items.take n))
  | .str s => .ok (.str (s.take n))
  | _ => .error .typeError

/-- `format_local` -/
def SelectionEnv.formatLocal (env : SelectionEnv) (stamp : Json) : Result Json := do
  if stamp.truthy then return .str (← env.localTime stamp).1
  return .str []

variable [Tables]

/-! ## The last run -/

/-- `dom.get(key) or []` -/
def listOf (dom : Dict) (key : String) : Json := (dom.get0 (lit key)).or (.arr [])

/-- The number of checked strategies, when it is not zero. -/
def checkedBits (dom : Dict) : Result (List Str) :=
  if (dom.get0 (lit "checked")).truthy then
    (dom.get0 (lit "checked")).toInt.map fun checked => [lit "checked " ++ intStr checked]
  else .ok []

/-- A domain of `summarize`. -/
def domainLine (dom : Json) : Result Str := do
  let dom ← dom.dict
  let scanned ← ((dom.get0 (lit "scanned")).or (.int 0)).toInt
  let checked ← checkedBits dom
  let working ← jsonLen (listOf dom "working")
  return Str.join (lit ", ") ([(dom.get0 (lit "domain")).text ++ lit ": " ++
      ((dom.get0 (lit "block_type")).or (.str (lit "?"))).text, lit "scanned " ++ intStr scanned] ++
    checked ++ [lit "working " ++ intStr working] ++
    if (dom.get0 (lit "inconclusive")).truthy then
      [lit "CONTROL PASSED — domain is not blocked"] else [])

/-- The number of errors, when there are any. -/
def errorBits (result : Dict) : Result (List Str) :=
  if (result.get0 (lit "errors")).truthy then
    (jsonLen (result.get0 (lit "errors"))).map fun count => [intStr count ++ lit " error(s)"]
  else .ok []

/-- `summarize` -/
def summarize (result : Dict) : Result Str := do
  let parts ← (← (listOf result "domains").iter).mapM domainLine
  let errors ← errorBits result
  let text := Str.join (lit " | ") (parts ++ errors)
  return if text = [] then lit "no domains" else text

/-- A domain of `_bcw_last_summary`. -/
def domainSummary (dom : Json) : Result Json := do
  let dom ← dom.dict
  let working ← jsonLen (listOf dom "working")
  let refused ← jsonLen (listOf dom "refused")
  let first ← jsonTake 12 (listOf dom "working")
  return .obj [member "domain" (dom.get0 (lit "domain")),
    member "block_type" (dom.get0 (lit "block_type")),
    member "scanned" (dom.get (lit "scanned") (.int 0)),
    member "checked" (dom.get (lit "checked") (.int 0)),
    member "inconclusive" (dom.get (lit "inconclusive") (.bool false)),
    member "working_count" (.int working), member "refused_count" (.int refused),
    member "working" first]

/-- `_bcw_last_summary` -/
def lastSummary (last : Json) : Result Json := do
  if ¬last.truthy then return .null
  let last ← last.dict
  let domains ← (← (listOf last "domains").iter).mapM domainSummary
  let summary ← summarize last
  return .obj [member "run_id" (last.get0 (lit "run_id")),
    member "started_at" (last.get0 (lit "started_at")),
    member "finished_at" (last.get0 (lit "finished_at")),
    member "took_s" (last.get0 (lit "took_s")), member "ok" (last.get (lit "ok") (.bool false)),
    member "success" (last.get (lit "success") (.bool false)),
    member "errors" (listOf last "errors"), member "summary" (.str summary),
    member "domains" (.arr domains)]

/-! ## Availability -/

/-- `_nfqueue_bound` -/
def SelectionEnv.queueBound (env : SelectionEnv) (qnum : Int) : Bool :=
  match env.queues with
  | none => false
  | some text => (text.1.split 10).any fun row => row.words.head? = some (intStr qnum)

/-- `bcw_availability`, once the engine is ready. -/
def SelectionEnv.availability (env : SelectionEnv) : Json :=
  let bin := (settingsDefaults env.environ).get (lit "bin") (.str [])
  let base := (env.environ (lit "BCW_ZAPRET_BASE")).getD (lit "/opt/zapret2")
  let lua (name : String) := env.present (joinPath (joinPath base (lit "lua")) (lit name))
  .obj [member "engine" (.bool true), member "engine_error" (.str []),
    member "version" (.str (match env.version with
      | some text => text.1.strip
      | none => [])),
    member "binary" bin, member "binary_present" (.bool (env.executable bin.text)),
    member "nft_present" (.bool env.nft), member "zapret_base" (.str base),
    member "nfqws2_present"
      (.bool (env.present (joinPath (joinPath base (lit "nfq2")) (lit "nfqws2")))),
    member "lua_present" (.bool (lua "zapret-lib.lua" && lua "zapret-antidpi.lua")),
    member "queue" (.int bcwQueueFixed),
    member "queue_free" (.bool !(env.queueBound bcwQueueFixed))]

/-! ## The page -/

/-- The job as the page shows it: a run whose process is gone is lost. -/
def SelectionEnv.shownJob (env : SelectionEnv) (job : Dict) : Dict :=
  let isRunning := (job.get0 (lit "state")).Is (lit "running")
  let running := isRunning ∧ pidAlive env.kill (job.get0 (lit "pid")) = true
  let job := if isRunning ∧ ¬running then job.set (lit "state") (.str (lit "lost")) else job
  job.set (lit "running") (.bool running)

/-- The schedule as the page shows it. -/
def SelectionEnv.shownSchedule (env : SelectionEnv) (schedule state : Dict) : Result Dict := do
  let next := state.get0 (lit "next_run")
  let last := state.get0 (lit "last_run")
  let nextLocal ← env.formatLocal next
  let lastLocal ← env.formatLocal last
  return (((schedule.set (lit "next_run") next).set (lit "next_run_local") nextLocal).set
    (lit "last_run") last).set (lit "last_run_local") lastLocal

/-- `bcw_overview` -/
def SelectionEnv.overview (env : SelectionEnv) : Result Json :=
  match env.notReady with
  | some error => .ok (.obj [member "ok" (.bool true), member "available" (.bool false),
      member "error" (.str error), member "availability" (.obj [member "engine" (.bool false)]),
      member "settings" (.obj []), member "schedule" (.obj []),
      member "job" (.obj [member "state" (.str (lit "idle"))]), member "last" .null])
  | none => do
    let settings ← loadSettings env.environ env.settings
    let schedule ← loadSchedule (scheduleDefaults env.environ) env.schedule
    let shown ← env.shownSchedule schedule.settings (← stateOf env.schedule)
    let job ← stateOf env.job
    let last ← lastSummary (env.last.getD .null)
    return .obj [member "ok" (.bool true), member "available" (.bool true),
      member "availability" env.availability, member "settings" (.obj settings.settings),
      member "settings_warnings" (Json.texts settings.warnings),
      member "settings_errors" (Json.texts settings.errors), member "schedule" (.obj shown),
      member "schedule_warnings" (Json.texts schedule.warnings),
      member "schedule_errors" (Json.texts schedule.errors), member "job" (.obj (env.shownJob job)),
      member "last" last]

/-! ## The last run is summarized -/

omit [Tables] in
theorem arr_or_nil (items : List Json) : (Json.arr items).or (.arr []) = .arr items := by
  cases items with
  | nil => rfl
  | cons x items => rfl

omit [Tables] in
theorem int_or_zero (i : Int) : (Json.int i).or (.int 0) = .int i := by
  unfold Json.or
  split
  · rfl
  · rename_i h
    have hzero : i = 0 := by simpa [Json.truthy] using h
    rw [hzero]

/-- A domain as `run` writes it into its result. -/
structure IsRecord (dom : Dict) : Prop where
  working : ∃ rows, dom.get0 (lit "working") = .arr rows
  refused : ∃ rows, dom.get0 (lit "refused") = .arr rows
  scanned : ∃ n, dom.get0 (lit "scanned") = .int n
  checked : ∃ n, dom.get0 (lit "checked") = .int n

/-- A result as `run` writes it. -/
structure IsResult (last : Dict) : Prop where
  domains : ∃ doms : List Dict, last.get0 (lit "domains") = .arr (doms.map .obj) ∧
    ∀ dom ∈ doms, IsRecord dom
  errors : ∃ texts, last.get0 (lit "errors") = .arr texts

section Last

variable {dom last : Dict}

omit [Tables] in
theorem listOf_arr {key : String} {items : List Json} (h : dom.get0 (lit key) = .arr items) :
    listOf dom key = .arr items := by
  rw [listOf, h, arr_or_nil]

omit [Tables] in
theorem encodable_listOf (h : (Json.obj dom).encodable = true) (key : String) :
    (listOf dom key).encodable = true := by
  unfold listOf Json.or
  split
  · exact encodable_get h rfl _
  · rfl

omit [Tables] in
theorem domainSummary_ok (hdom : IsRecord dom) (h : (Json.obj dom).encodable = true) :
    Succeeds (domainSummary (.obj dom)) fun page => page.encodable = true := by
  obtain ⟨rows, hrows⟩ := hdom.working
  obtain ⟨dropped, hdropped⟩ := hdom.refused
  have hlist := encodable_listOf h "working"
  rw [listOf_arr hrows, Json.encodable_arr] at hlist
  have hfirst : ∀ x ∈ rows.take 12, x.encodable = true :=
    fun x hx => hlist x (List.mem_of_mem_take hx)
  have hworking : jsonLen (listOf dom "working") = .ok rows.length := by rw [listOf_arr hrows]; rfl
  have hrefused : jsonLen (listOf dom "refused") = .ok dropped.length := by
    rw [listOf_arr hdropped]
    rfl
  have htake : jsonTake 12 (listOf dom "working") = .ok (.arr (rows.take 12)) := by
    rw [listOf_arr hrows]
    rfl
  refine ⟨_, bind_eq_ok.mpr ⟨dom, rfl, bind_eq_ok.mpr ⟨_, hworking, bind_eq_ok.mpr ⟨_, hrefused,
    bind_eq_ok.mpr ⟨_, htake, rfl⟩⟩⟩⟩, ?_⟩
  have hget (key : Str) : (dom.get0 key).encodable = true := encodable_get h rfl key
  have hcount (key : Str) : (dom.get key (.int 0)).encodable = true := encodable_get h rfl key
  have hflag (key : Str) : (dom.get key (.bool false)).encodable = true := encodable_get h rfl key
  simpa [member, hget, hcount, hflag] using hfirst

variable [EncodableTables]

theorem domainLine_ok (hdom : IsRecord dom) (h : (Json.obj dom).encodable = true) :
    Succeeds (domainLine (.obj dom)) EncodableText := by
  obtain ⟨rows, hrows⟩ := hdom.working
  obtain ⟨scanned, hscanned⟩ := hdom.scanned
  obtain ⟨checked, hchecked⟩ := hdom.checked
  have hworking : jsonLen (listOf dom "working") = .ok rows.length := by rw [listOf_arr hrows]; rfl
  have hint : ((dom.get0 (lit "scanned")).or (.int 0)).toInt = .ok scanned := by
    rw [hscanned, int_or_zero]
    rfl
  obtain ⟨bits, hbits, htexts⟩ : Succeeds (checkedBits dom) fun bits => ∀ b ∈ bits, EncodableText b := by
    unfold checkedBits
    rw [hchecked]
    split
    · exact ⟨_, rfl, by simp [encodableText_append]⟩
    · exact ⟨_, rfl, List.forall_mem_nil _⟩
  have htext (key : Str) : EncodableText (dom.get0 key).text :=
    Json.encodableText_text_of_encodable (encodable_get h rfl key)
  have hblock : EncodableText ((dom.get0 (lit "block_type")).or (.str (lit "?"))).text := by
    unfold Json.or
    split
    · exact htext _
    · exact encodableText_lit _
  refine ⟨_, bind_eq_ok.mpr ⟨dom, rfl, bind_eq_ok.mpr ⟨_, hint, bind_eq_ok.mpr ⟨bits, hbits,
    bind_eq_ok.mpr ⟨_, hworking, rfl⟩⟩⟩⟩, ?_⟩
  refine (encodableText_join (encodableText_lit _)).mpr ?_
  simp only [List.forall_mem_append]
  refine ⟨⟨⟨?_, htexts⟩, ?_⟩, ?_⟩
  · simp [encodableText_append, htext, hblock]
  · simp [encodableText_append]
  · split
    · simp
    · exact List.forall_mem_nil _

omit [Tables] in
/-- The records of a result are gone through, and can be encoded one by one. -/
theorem listOf_domains {doms : List Dict} (hdoms : last.get0 (lit "domains") = .arr (doms.map .obj))
    (h : (Json.obj last).encodable = true) :
    (listOf last "domains").iter = .ok (doms.map .obj) ∧
      ∀ dom ∈ doms, (Json.obj dom).encodable = true := by
  have hlist := encodable_listOf h "domains"
  rw [listOf_arr hdoms] at hlist ⊢
  rw [Json.encodable_arr] at hlist
  exact ⟨rfl, fun dom hdom => hlist _ (List.mem_map_of_mem hdom)⟩

theorem summarize_ok (hlast : IsResult last) (h : (Json.obj last).encodable = true) :
    Succeeds (summarize last) EncodableText := by
  obtain ⟨doms, hdoms, hrecords⟩ := hlast.domains
  obtain ⟨texts, htexts⟩ := hlast.errors
  obtain ⟨hiter, hencodable⟩ := listOf_domains hdoms h
  obtain ⟨parts, hparts, hlines⟩ := succeeds_mapM.mpr (List.forall_mem_map.mpr fun dom hdom =>
    domainLine_ok (hrecords dom hdom) (hencodable dom hdom))
  obtain ⟨bits, hbits, hcount⟩ : Succeeds (errorBits last) fun bits => ∀ b ∈ bits, EncodableText b := by
    unfold errorBits
    rw [htexts]
    split
    · exact ⟨_, rfl, by simp [encodableText_append]⟩
    · exact ⟨_, rfl, List.forall_mem_nil _⟩
  refine ⟨_, bind_eq_ok.mpr ⟨_, hiter, bind_eq_ok.mpr ⟨parts, hparts, bind_eq_ok.mpr
    ⟨bits, hbits, rfl⟩⟩⟩, ?_⟩
  split
  · exact encodableText_lit _
  · refine (encodableText_join (encodableText_lit _)).mpr ?_
    exact List.forall_mem_append.mpr ⟨hlines, hcount⟩

/-- **The last run is shown.** -/
theorem lastSummary_ok (hlast : IsResult last) (h : (Json.obj last).encodable = true) :
    Succeeds (lastSummary (.obj last)) fun page => page.encodable = true := by
  obtain ⟨doms, hdoms, hrecords⟩ := hlast.domains
  obtain ⟨summary, hsummary, htext⟩ := summarize_ok hlast h
  obtain ⟨hiter, hencodable⟩ := listOf_domains hdoms h
  obtain ⟨pages, hpages, hshown⟩ := succeeds_mapM.mpr (List.forall_mem_map.mpr fun dom hdom =>
    domainSummary_ok (hrecords dom hdom) (hencodable dom hdom))
  have htruthy : (Json.obj last).truthy := by
    cases last with
    | nil =>
      obtain ⟨doms, hdoms, _⟩ := hlast.domains
      cases hdoms
    | cons m last => rfl
  unfold lastSummary
  rw [if_neg (not_not_intro htruthy)]
  refine ⟨_, bind_eq_ok.mpr ⟨last, rfl, bind_eq_ok.mpr ⟨_, hiter, bind_eq_ok.mpr ⟨pages, hpages,
    bind_eq_ok.mpr ⟨summary, hsummary, rfl⟩⟩⟩⟩, ?_⟩
  have hget (key : Str) : (last.get0 key).encodable = true := encodable_get h rfl key
  have hflag (key : Str) : (last.get key (.bool false)).encodable = true := encodable_get h rfl key
  simpa [member, hget, hflag, encodable_listOf h, htext] using hshown

end Last

/-! ## The page is sent -/

/-- The state files hold what the panel and the harness write, in UTF-8: dicts, times of the scheduler
that can be shown, and the result of a run. -/
structure SelectionEnv.Lawful (env : SelectionEnv) : Prop where
  environ : ∀ name text, env.environ name = some text → EncodableText text
  settings : ∀ d, env.settings = some d → (Json.obj d).encodable = true
  schedule : ∃ state, stateOf env.schedule = .ok state ∧ (Json.obj state).encodable = true ∧
    ∀ key ∈ [lit "next_run", lit "last_run"], ∃ text, env.formatLocal (state.get0 key) = .ok text
  job : ∃ job, stateOf env.job = .ok job ∧ (Json.obj job).encodable = true
  last : ∀ last, env.last = some last → ∃ result, last = .obj result ∧ IsResult result ∧
    last.encodable = true

section Page

variable {env : SelectionEnv}

omit [Tables] in
theorem encodable_formatLocal {stamp text : Json} (h : env.formatLocal stamp = .ok text) :
    text.encodable = true := by
  unfold SelectionEnv.formatLocal at h
  split at h
  · obtain ⟨shown, _, h⟩ := bind_eq_ok.mp h
    cases h
    exact Json.encodable_str.mpr shown.2
  · cases h
    rfl

omit [Tables] in
theorem encodable_set {d : Dict} (h : (Json.obj d).encodable = true) {key : Str}
    (hkey : EncodableText key) {value : Json} (hvalue : value.encodable = true) :
    (Json.obj (d.set key value)).encodable = true := by
  rw [Json.encodable_obj] at h ⊢
  induction d with
  | nil =>
    rw [Dict.set, List.forall_mem_singleton]
    exact ⟨hkey, hvalue⟩
  | cons m d ih =>
    obtain ⟨hm, hd⟩ := List.forall_mem_cons.mp h
    rw [Dict.set]
    split
    · exact List.forall_mem_cons.mpr ⟨⟨hm.1, hvalue⟩, hd⟩
    · exact List.forall_mem_cons.mpr ⟨hm, ih hd⟩

omit [Tables] in
theorem shownSchedule_ok (hlawful : env.Lawful) {schedule state : Dict}
    (hschedule : (Json.obj schedule).encodable = true) (hstate : stateOf env.schedule = .ok state) :
    Succeeds (env.shownSchedule schedule state) fun d => (Json.obj d).encodable = true := by
  obtain ⟨state', hread, hencodable, hstamps⟩ := hlawful.schedule
  rw [hstate] at hread
  cases hread
  obtain ⟨nextLocal, hnext⟩ := hstamps (lit "next_run") (by simp)
  obtain ⟨lastLocal, hlast⟩ := hstamps (lit "last_run") (by simp)
  refine ⟨_, bind_eq_ok.mpr ⟨nextLocal, hnext, bind_eq_ok.mpr ⟨lastLocal, hlast, rfl⟩⟩, ?_⟩
  have hget (key : Str) : (state.get0 key).encodable = true := encodable_get hencodable rfl key
  refine encodable_set (encodable_set (encodable_set (encodable_set hschedule ?_ ?_) ?_ ?_) ?_ ?_) ?_ ?_
  · exact encodableText_lit _
  · exact hget _
  · exact encodableText_lit _
  · exact encodable_formatLocal hnext
  · exact encodableText_lit _
  · exact hget _
  · exact encodableText_lit _
  · exact encodable_formatLocal hlast

theorem encodable_shownJob {job : Dict} (h : (Json.obj job).encodable = true) :
    (Json.obj (env.shownJob job)).encodable = true := by
  refine encodable_set ?_ (encodableText_lit _) rfl
  split
  · exact encodable_set h (encodableText_lit _) (Json.encodable_str.mpr (encodableText_lit _))
  · exact h

variable [EncodableTables]

theorem settings_sendable (hlawful : env.Lawful) :
    Succeeds (loadSettings env.environ env.settings) Normalized.Sendable :=
  loadSettings_sendable hlawful.environ (persisted_encodable hlawful.settings)

theorem schedule_sendable (hlawful : env.Lawful) :
    Succeeds (loadSchedule (scheduleDefaults env.environ) env.schedule) Normalized.Sendable := by
  obtain ⟨state, hstate, hencodable, _⟩ := hlawful.schedule
  obtain ⟨n, hn⟩ := normalizeSchedule_ok env.environ state
  refine ⟨n, bind_eq_ok.mpr ⟨state, hstate, hn⟩, (schedule_sendable_iff hlawful.environ hn).mpr ?_⟩
  intro raw hraw
  rw [Json.encodable_obj] at hencodable
  exact Json.encodableText_text_of_encodable (hencodable _ (Dict.mem_of_lookup hraw)).2

theorem encodable_availability (hlawful : env.Lawful) : env.availability.encodable = true := by
  have hdefaults := envDefaults_encodable settingsSpec_wellFormed settingsSpec_encodes hlawful.environ
    (lit "BCW_")
  have hbin : ((settingsDefaults env.environ).get (lit "bin") (.str [])).encodable = true :=
    encodable_get hdefaults rfl _
  have hbase : EncodableText ((env.environ (lit "BCW_ZAPRET_BASE")).getD (lit "/opt/zapret2")) := by
    cases henv : env.environ (lit "BCW_ZAPRET_BASE") with
    | none => exact encodableText_lit _
    | some text => exact hlawful.environ _ text henv
  have hversion : EncodableText (match env.version with
      | some text => text.1.strip
      | none => []) := by
    split
    · rename_i text _
      exact encodableText_strip.mpr text.2
    · exact encodableText_nil
  unfold SelectionEnv.availability
  simp only [member, Json.encodable_obj, List.forall_mem_cons, Json.encodable_bool,
    Json.encodable_int, Json.encodable_str, encodableText_lit, encodableText_nil, true_and]
  exact ⟨hversion, hbin, hbase, List.forall_mem_nil _⟩

omit [Tables] [EncodableTables] in
theorem encodableText_notReady {error : Str} (h : env.notReady = some error) :
    EncodableText error := by
  unfold SelectionEnv.notReady at h
  split at h
  · cases h
    exact encodableText_lit _
  · split at h
    · cases h
      exact encodableText_lit _
    · cases h

/-- **The selection page is sent.** -/
theorem overview_ok (hlawful : env.Lawful) :
    Succeeds env.overview fun page => page.encodable = true := by
  unfold SelectionEnv.overview
  cases hready : env.notReady with
  | some error =>
    refine ⟨_, rfl, ?_⟩
    simp [member, encodableText_notReady hready]
  | none =>
    obtain ⟨settings, hsettings, hsendable⟩ := settings_sendable hlawful
    obtain ⟨schedule, hschedule, hsendable'⟩ := schedule_sendable hlawful
    obtain ⟨state, hstate, _⟩ := hlawful.schedule
    obtain ⟨shown, hshown, hencodable⟩ := shownSchedule_ok hlawful hsendable'.settings hstate
    obtain ⟨job, hjob, hjobEncodable⟩ := hlawful.job
    obtain ⟨last, hlast, hlastEncodable⟩ :
        Succeeds (lastSummary (env.last.getD .null)) fun page => page.encodable = true := by
      cases hfile : env.last with
      | none => exact ⟨.null, rfl, rfl⟩
      | some last =>
        obtain ⟨result, rfl, hresult, hencodable⟩ := hlawful.last last hfile
        exact lastSummary_ok hresult hencodable
    refine ⟨_, bind_eq_ok.mpr ⟨settings, hsettings, bind_eq_ok.mpr ⟨schedule, hschedule,
      bind_eq_ok.mpr ⟨state, hstate, bind_eq_ok.mpr ⟨shown, hshown, bind_eq_ok.mpr ⟨job, hjob,
        bind_eq_ok.mpr ⟨last, hlast, rfl⟩⟩⟩⟩⟩⟩, Json.encodable_obj.mpr ?_⟩
    simp only [member, List.forall_mem_cons, encodableText_lit, Json.encodable_bool, true_and,
      Json.encodable_texts]
    exact ⟨encodable_availability hlawful, hsendable.settings, hsendable.warnings, hsendable.errors,
      hencodable, hsendable'.warnings, hsendable'.errors, encodable_shownJob hjobEncodable,
      hlastEncodable, List.forall_mem_nil _⟩

end Page

end WebZapret.Panel.Http
