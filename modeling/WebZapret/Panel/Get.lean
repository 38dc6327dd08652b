import WebZapret.Panel.Logs
import WebZapret.Panel.Overview

/-!
# `do_GET`

The pages that the panel sends, route by route. Where the state files hold what the panel writes,
every page is computed and can be encoded, with one exception: the log page takes the query from the
target, and a target without one has no second part (`getRoute_answered_iff`).
-/

namespace WebZapret.Panel.Http

open Py Failing Selection Catalog

/-- What the pages are made of. -/
structure PanelEnv where
  auth : Auth
  /-- `panel/index.html` -/
  index : List Nat
  status : StatusEnv
  selection : SelectionEnv
  /-- the catalog of strategies -/
  catalog : Catalog.Stored
  logs : Str → LogFile
  /-- the time of the export -/
  generated : Printed
  /-- `TEST_YTDLP_URL`, `TEST_YTDLP_TIMEOUT` and `TEST_QUEUE` -/
  testUrl : Printed
  testTimeout : Int
  testQueue : Int
  /-- `os.path.exists(TEST_YTDLP_BIN)` -/
  ytDlp : Bool

/-- The fields of a strategy on its page. -/
def strategyFields (s : Dict) : Json :=
  .obj [member "id" (s.get0 (lit "id")), member "name" (s.get0 (lit "name")),
    member "desc" (s.get (lit "desc") (.str [])),
    member "imported" (s.get (lit "imported") (.bool false))]

/-- `GET /api/strategies` -/
def strategiesPage (stored : Catalog.Stored) : Result Json := do
  let entries ← entriesIn (← strategies stored)
  return .obj [member "strategies" (.arr (entries.map strategyFields))]

/-- `GET /api/testinfo` -/
def testinfo (env : PanelEnv) : Json :=
  .obj [member "test_url" (.str env.testUrl.1), member "test_timeout" (.int env.testTimeout),
    member "test_queue" (.int env.testQueue), member "yt_dlp_available" (.bool env.ytDlp)]

/-- `active_strategy()` -/
def PanelEnv.active (env : PanelEnv) : Result Str :=
  activeStrategy (env.status.stateGet "strategy" "standard") env.catalog

/-- `self._send(404, {"error": "not found"})` -/
def notFound : Outcome := send 404 (.obj [member "error" (.str (lit "not found"))])

variable [Tables]

/-- `self._send(200, page)` -/
def replyPage (page : Result Json) : Outcome := reply (page.map fun value => (200, value))

/-- The routes of `do_GET`. -/
def getRoute (env : PanelEnv) (r : Request) : Outcome :=
  if r.path = lit "/" ∨ r.path = lit "/index.html" then .one 200 (.file env.index)
  else if r.path = lit "/api/status" then replyPage (status env.status env.catalog)
  else if r.path = lit "/api/strategies" then replyPage (strategiesPage env.catalog)
  else if r.path = lit "/api/testinfo" then replyPage (.ok (testinfo env))
  else if r.path = lit "/api/bcw" then replyPage env.selection.overview
  else if r.path = lit "/api/strategy" then
    replyPage (env.active.map fun id => .obj [member "id" (.str id)])
  else if r.path = lit "/api/exit" then
    replyPage (.ok (.obj [member "mode" (.str (env.status.stateGet "exit_mode" "direct"))]))
  else if r.path = lit "/api/traffic" then replyPage (trafficStats env.status)
  else if r.path = lit "/api/logs/export" then sendText 200 (exportLogs env.logs env.generated)
  else if r.path = lit "/api/logs" then reply (logsPage env.logs r)
  else notFound

/-- What the handler does once it knows whether the request has the credentials. -/
def withAuth (auth : Auth) (r : Request) (route : Outcome) : Outcome :=
  match auth.authed r with
  | .error e => ⟨[], some e⟩
  | .ok false => authRequired
  | .ok true => route

/-- `do_GET` -/
def doGet (env : PanelEnv) (r : Request) : Outcome := withAuth env.auth r (getRoute env r)

/-! ## The pages are sent -/

/-- The files can be read: the counters are numbers, the catalog lists strategies, and the state of
the selection is what the panel and the harness write. -/
structure PanelEnv.Lawful (env : PanelEnv) (entries : List Dict) : Prop where
  counts : env.status.Counts
  catalog : Readable env.catalog entries
  selection : env.selection.Lawful

omit [Tables] in
theorem answered_page {page : Result Json} :
    (replyPage page).Answered ↔ Succeeds page fun value => value.encodable = true := by
  unfold replyPage
  rw [answered_reply]
  cases page with
  | ok value =>
    rw [succeeds_ok]
    exact succeeds_ok
  | error e => exact iff_of_false not_succeeds_error not_succeeds_error

omit [Tables] in
@[simp] theorem answered_notFound : notFound.Answered := by
  unfold notFound
  rw [answered_send]
  simp [member]

omit [Tables] in
theorem encodable_strategyFields {s : Dict} (h : (Json.obj s).encodable = true) :
    (strategyFields s).encodable = true := by
  have hget (key : Str) : (s.get0 key).encodable = true := encodable_get h rfl key
  have hdesc : (s.get (lit "desc") (.str [])).encodable = true := encodable_get h rfl _
  have himported : (s.get (lit "imported") (.bool false)).encodable = true := encodable_get h rfl _
  simp [strategyFields, member, hget, hdesc, himported]

omit [Tables] in
theorem strategiesPage_ok {stored : Catalog.Stored} {entries : List Dict} (h : Readable stored entries) :
    Succeeds (strategiesPage stored) fun page => page.encodable = true := by
  refine ⟨_, bind_eq_ok.mpr ⟨_, h.strategies, bind_eq_ok.mpr ⟨entries, entriesIn_arr entries, rfl⟩⟩, ?_⟩
  have hfields : ∀ s ∈ entries, (strategyFields s).encodable = true :=
    fun s hs => encodable_strategyFields (h.encodable s hs)
  simpa [member] using hfields

variable [EncodableTables]

/-- **Every page is sent but the log page of a target without a query.** -/
theorem getRoute_answered_iff {env : PanelEnv} {entries : List Dict} (hlawful : env.Lawful entries)
    {r : Request} (htarget : EncodableText r.target) :
    (getRoute env r).Answered ↔ (r.path = lit "/api/logs" → 63 ∈ r.target) := by
  have hother {path : String} (hpath : r.path = lit path) (hne : lit path ≠ lit "/api/logs") :
      r.path = lit "/api/logs" → 63 ∈ r.target :=
    fun hlogs => absurd (hpath.symm.trans hlogs) hne
  have hstate (key default : String) : EncodableText (env.status.stateGet key default) :=
    encodableText_stateGet env.status key default
  obtain ⟨strat, hstrat, hactive⟩ := hlawful.catalog.active (hstate "strategy" "standard")
  refine answered_cases (fun h => iff_of_true (answered_one _ _) ?_) fun _ => ?_
  · rcases h with h | h
    · exact hother h (by decide)
    · exact hother h (by decide)
  refine answered_cases (fun h => iff_of_true ?_ (hother h (by decide))) fun _ => ?_
  · exact answered_page.mpr (status_ok hlawful.counts hlawful.catalog)
  refine answered_cases (fun h => iff_of_true ?_ (hother h (by decide))) fun _ => ?_
  · exact answered_page.mpr (strategiesPage_ok hlawful.catalog)
  refine answered_cases (fun h => iff_of_true ?_ (hother h (by decide))) fun _ => ?_
  · refine answered_page.mpr ⟨_, rfl, ?_⟩
    simp [testinfo, member, env.testUrl.2]
  refine answered_cases (fun h => iff_of_true ?_ (hother h (by decide))) fun _ => ?_
  · exact answered_page.mpr (overview_ok hlawful.selection)
  refine answered_cases (fun h => iff_of_true ?_ (hother h (by decide))) fun _ => ?_
  · refine answered_page.mpr ⟨_, congrArg (Except.map _) hstrat, ?_⟩
    simp [member, hactive]
  refine answered_cases (fun h => iff_of_true ?_ (hother h (by decide))) fun _ => ?_
  · refine answered_page.mpr ⟨_, rfl, ?_⟩
    simp [member, hstate]
  refine answered_cases (fun h => iff_of_true ?_ (hother h (by decide))) fun _ => ?_
  · exact answered_page.mpr (trafficStats_ok hlawful.counts)
  refine answered_cases (fun h => iff_of_true ?_ (hother h (by decide))) fun _ => ?_
  · exact answered_sendText.mpr (encodableText_exportLogs _ _)
  refine answered_cases (fun h => ?_) fun h => ?_
  · rw [answered_reply, logsPage_iff env.logs htarget]
    exact ⟨fun hquery _ => hquery, fun hquery => hquery h⟩
  · exact iff_of_true answered_notFound fun hlogs => absurd hlogs h

end WebZapret.Panel.Http
