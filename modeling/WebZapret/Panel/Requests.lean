import WebZapret.Panel.Post

/-!
# Which requests are answered

For every route of `do_POST`, the requests whose answer is computed and can be encoded. Most of them
fail on a body that is no dict, and on a text with a lone surrogate, which JSON has escapes for and
UTF-8 has no bytes for. What is applied or tested goes through a command line, which takes no NUL.

Main result: `handle_answered_iff`.
-/

namespace WebZapret.Panel.Http

open Py Failing Selection Catalog Json

/-! ## Programs -/

/-- What a program prints is UTF-8. -/
def ProgramRun.Decodes (run : ProgramRun) : Prop := run ≠ .undecodable

/-- A text without lone surrogates is printed. -/
theorem PostEnv.shows_of_encodable (env : PostEnv) {text : Str} (h : EncodableText text) :
    env.Shows text := fun c hc hsurrogate => absurd hsurrogate (h c hc)

theorem PostEnv.shows_append {env : PostEnv} {s t : Str} :
    env.Shows (s ++ t) ↔ env.Shows s ∧ env.Shows t := List.forall_mem_append

theorem PostEnv.succeeds_print {env : PostEnv} {text : Str} {P : Unit → Prop} :
    Succeeds (env.print text) P ↔ env.Shows text ∧ P () := by
  unfold PostEnv.print
  split
  · rename_i h
    rw [succeeds_ok, and_iff_right h]
  · rename_i h
    exact iff_of_false not_succeeds_error fun hshows => h hshows.1

/-- What stdout takes can be an argument, unless it has a NUL. -/
theorem launchable_of_shows {env : PostEnv} {text : Str} (h : env.Shows text) :
    Launchable text ↔ 0 ∉ text := by
  constructor
  · exact fun hlaunch hzero => (hlaunch 0 hzero).1 rfl
  · intro hzero c hc
    refine ⟨fun hc0 => hzero (hc0 ▸ hc), ?_⟩
    have hsurrogate := h c hc
    omega

theorem succeeds_launch {args : List Str} {run : List Str → ProgramRun}
    {P : Option (Int × Str × Str) → Prop} :
    Succeeds (launch args run) P ↔ (∀ a ∈ args, Launchable a) ∧ (run args).Decodes ∧
      match run args with
      | .timedOut => P none
      | .undecodable => True
      | .finished rc stdout stderr => P (some (rc, stdout.1, stderr.1)) := by
  unfold launch ProgramRun.Decodes
  by_cases hargs : ∀ a ∈ args, Launchable a
  · rw [if_pos hargs, and_iff_right hargs]
    cases run args with
    | timedOut => simp [succeeds_ok]
    | undecodable => simp [not_succeeds_error]
    | finished rc stdout stderr => simp [succeeds_ok]
  · rw [if_neg hargs]
    exact iff_of_false not_succeeds_error fun h => hargs h.1

theorem encodableText_lastOnes {s : Str} (h : EncodableText s) (n : Nat) :
    EncodableText (lastOnes n s) := h.drop _

/-- **What is applied is answered** unless the argument has a NUL or the program prints no UTF-8. -/
theorem PostEnv.applyRoute_iff (env : PostEnv) {command : String} (key : String) {arg : Str}
    (hcommand : 0 ∉ lit command) (harg : EncodableText arg) :
    Succeeds (env.applyRoute command key arg) (fun p => p.2.encodable = true) ↔
      0 ∉ arg ∧ (env.applied [lit command, arg]).Decodes := by
  have hshown : env.Shows (lit "panel: apply: " ++ Str.join (lit " ") [lit command, arg]) := by
    refine env.shows_of_encodable (encodableText_append.mpr ⟨encodableText_lit _, ?_⟩)
    refine (encodableText_join (encodableText_lit _)).mpr ?_
    simp [harg]
  have hargs : (∀ a ∈ [lit command, arg], Launchable a) ↔ 0 ∉ arg := by
    have hfirst := (launchable_of_shows (env.shows_of_encodable (encodableText_lit command))).mpr hcommand
    simp only [List.forall_mem_cons, hfirst, true_and, List.not_mem_nil, false_implies, implies_true,
      and_true]
    exact launchable_of_shows (env.shows_of_encodable harg)
  have hsent {res : Dict} (hres : (Json.obj res).encodable = true) :
      (Json.obj (res.set (lit key) (.str arg))).encodable = true :=
    encodable_set hres (encodableText_lit key) (encodable_str.mpr harg)
  unfold PostEnv.applyRoute PostEnv.apply
  rw [succeeds_bind, succeeds_bind, PostEnv.succeeds_print, and_iff_right hshown, succeeds_bind,
    succeeds_launch, hargs]
  refine and_congr_right fun _ => and_iff_left ?_
  cases env.applied [lit command, arg] with
  | timedOut => exact ⟨_, rfl, _, rfl, hsent (by simp [member])⟩
  | undecodable => trivial
  | finished rc stdout stderr =>
    refine ⟨_, rfl, _, rfl, hsent ?_⟩
    simp [member, encodableText_lastOnes stdout.2, encodableText_lastOnes stderr.2]

theorem succeeds_coded {res : Result Dict} :
    Succeeds (coded res) (fun p => p.2.encodable = true) ↔
      Succeeds res fun d => (Json.obj d).encodable = true := by
  cases res with
  | ok d =>
    rw [succeeds_ok]
    exact succeeds_ok
  | error e => exact iff_of_false not_succeeds_error not_succeeds_error

/-! ## The catalog -/

variable [Tables]

/-- The files can be read, and the ranks of an import can be compared or raise a `TypeError`. -/
structure PostEnv.Lawful (env : PostEnv) (entries : List Dict) : Prop where
  panel : env.toPanelEnv.Lawful entries
  sorts : Sorts env.importEnv

omit [Tables] in
/-- The catalog lists the strategy. -/
def PostEnv.Lists (env : PostEnv) (sid : Str) : Prop :=
  Succeeds (strategyIds env.catalog) fun ids => HasId ids sid

/-- What the harness prints is UTF-8, and the object in it holds no lone surrogate. -/
def PostEnv.Reports (env : PostEnv) (args : List Str) : Prop :=
  (env.tested args).Decodes ∧ ∀ rc stdout stderr, env.tested args = .finished rc stdout stderr →
    ∀ res, env.rawDecode stdout.1 = some (.obj res) → (res.lookup (lit "ok")).isSome →
      (Json.obj res).encodable = true

section

variable {env : PostEnv} {entries : List Dict}

theorem PostEnv.Lawful.ids (hlawful : env.Lawful entries) :
    strategyIds env.catalog = .ok (entries.map idOf) := hlawful.panel.catalog.holds.strategyIds

theorem PostEnv.Lawful.lists_iff (hlawful : env.Lawful entries) {sid : Str} :
    env.Lists sid ↔ HasId (entries.map idOf) sid := by
  unfold PostEnv.Lists
  rw [hlawful.ids]
  exact succeeds_ok

omit [Tables] in
theorem encodable_unknownStrategy {sid : Str} :
    (Json.obj (unknownStrategy sid)).encodable = true ↔ EncodableText sid := by
  unfold unknownStrategy
  rw [encodable_refusal]
  simp [encodableText_append]

/-- What `/api/strategy` takes: a dict, an id that can be repeated, and a known one can be applied. -/
def PostEnv.TakesStrategy (env : PostEnv) (body : Json) : Prop :=
  Succeeds body.dict fun body => EncodableText (textOf body "id") ∧ (env.Lists (textOf body "id") →
    0 ∉ textOf body "id" ∧ (env.applied [lit "strategy", textOf body "id"]).Decodes)

theorem postStrategy_iff (hlawful : env.Lawful entries) (body : Json) :
    Succeeds (postStrategy env body) (fun p => p.2.encodable = true) ↔ env.TakesStrategy body := by
  unfold postStrategy PostEnv.TakesStrategy
  rw [succeeds_bind]
  refine succeeds_congr fun body _ => ?_
  rw [succeeds_bind, hlawful.ids, succeeds_ok, hlawful.lists_iff]
  by_cases hknown : HasId (entries.map idOf) (textOf body "id")
  · have hsid := hlawful.panel.catalog.encodable_id hknown
    rw [if_neg (not_not_intro hknown), env.applyRoute_iff "strategy" (by decide) hsid]
    exact ⟨fun h => ⟨hsid, fun _ => h⟩, fun h => h.2 hknown⟩
  · rw [if_pos hknown]
    refine succeeds_ok.trans (encodable_unknownStrategy.trans ?_)
    exact ⟨fun h => ⟨h, fun hlisted => absurd hlisted hknown⟩, fun h => h.1⟩

/-- What `/api/exit` takes. -/
def PostEnv.TakesExit (env : PostEnv) (body : Json) : Prop :=
  Succeeds body.dict fun body => textOf body "mode" ∈ [lit "direct", lit "socks5", lit "ss"] →
    (env.applied [lit "exit", textOf body "mode"]).Decodes

theorem postExit_iff (env : PostEnv) (body : Json) :
    Succeeds (postExit env body) (fun p => p.2.encodable = true) ↔ env.TakesExit body := by
  have hmodes : ∀ mode ∈ [lit "direct", lit "socks5", lit "ss"], EncodableText mode ∧ 0 ∉ mode := by
    decide
  unfold postExit PostEnv.TakesExit
  rw [succeeds_bind]
  refine succeeds_congr fun body _ => ?_
  by_cases hmode : textOf body "mode" ∈ [lit "direct", lit "socks5", lit "ss"]
  · obtain ⟨hencodable, hzero⟩ := hmodes _ hmode
    dsimp only
    rw [if_neg (not_not_intro hmode), env.applyRoute_iff "mode" (by decide) hencodable]
    exact ⟨fun h _ => h.2, fun h => ⟨hzero, h hmode⟩⟩
  · dsimp only
    rw [if_pos hmode]
    refine iff_of_true ⟨_, rfl, ?_⟩ fun h => absurd h hmode
    exact encodable_refusal.mpr (encodableText_lit _)

/-- What `/api/strategy/test` takes: a test that starts has a finite time limit and arguments that
can be printed and passed on, and the harness reports what can be sent. -/
def PostEnv.TakesTest (env : PostEnv) (body : Json) : Prop :=
  Succeeds body.dict fun body => EncodableText (textOf body "id") ∧ (env.Lists (textOf body "id") →
    (env.urlOf body).length ≤ 2048 ∧ isUrl (env.urlOf body) = true →
      0 ∉ textOf body "id" ∧ 0 ∉ env.urlOf body ∧ env.Shows (env.urlOf body) ∧
        Succeeds (timeoutOf env.testTimeout (body.get0 (lit "timeout"))) fun timeout =>
          env.Reports [textOf body "id", env.urlOf body, intStr timeout])

omit [Tables] in
theorem PostEnv.testResult_iff (env : PostEnv) (args : List Str) :
    Succeeds (do return env.testResult (← launch args env.tested) : Result Dict)
      (fun res => (Json.obj res).encodable = true) ↔ (∀ a ∈ args, Launchable a) ∧ env.Reports args := by
  unfold PostEnv.Reports
  rw [succeeds_bind, succeeds_launch]
  refine and_congr_right fun _ => and_congr_right fun _ => ?_
  cases env.tested args with
  | timedOut => exact iff_of_true (refusal_sent (encodableText_lit _)) nofun
  | undecodable => exact iff_of_true trivial nofun
  | finished rc stdout stderr =>
    have hmalformed : (Json.obj (refusal (lit "malformed test harness output (rc=" ++ intStr rc ++
        lit "): " ++ lastOnes 800 (if stdout.1 = [] then stderr.1 else stdout.1)))).encodable = true := by
      have hlast : EncodableText (lastOnes 800 (if stdout.1 = [] then stderr.1 else stdout.1)) := by
        split
        · exact encodableText_lastOnes stderr.2 _
        · exact encodableText_lastOnes stdout.2 _
      rw [encodable_refusal]
      simp [encodableText_append, hlast]
    refine succeeds_ok.trans ⟨?_, fun h => ?_⟩
    · rintro h _ _ _ ⟨⟩ res hres hok
      dsimp only [PostEnv.testResult] at h
      rw [hres] at h
      dsimp only at h
      rwa [if_pos hok] at h
    · dsimp only [PostEnv.testResult]
      split
      · rename_i res hres
        split
        · rename_i hok
          exact h rc stdout stderr rfl res hres hok
        · exact hmalformed
      · exact hmalformed

theorem PostEnv.runTest_iff (env : PostEnv) {sid : Str} (hsid : EncodableText sid) (url : Str)
    (timeout : Json) :
    Succeeds (env.runTest sid url timeout) (fun res => (Json.obj res).encodable = true) ↔
      0 ∉ sid ∧ 0 ∉ url ∧ env.Shows url ∧ Succeeds (timeoutOf env.testTimeout timeout) fun timeout =>
        env.Reports [sid, url, intStr timeout] := by
  have hline (timeout : Int) : env.Shows (lit "panel: strategy test: id=" ++ sid ++ lit " url=" ++
      url ++ lit " timeout=" ++ intStr timeout ++ lit "s") ↔ env.Shows url := by
    have hlit (text : String) : env.Shows (lit text) := env.shows_of_encodable (encodableText_lit text)
    have hnumber : env.Shows (intStr timeout) := env.shows_of_encodable (encodableText_intStr timeout)
    simp [PostEnv.shows_append, hlit, hnumber, env.shows_of_encodable hsid]
  have hargs (timeout : Int) (hurl : env.Shows url) :
      (∀ a ∈ [sid, url, intStr timeout], Launchable a) ↔ 0 ∉ sid ∧ 0 ∉ url := by
    have hnumber := env.shows_of_encodable (encodableText_intStr timeout)
    simp [launchable_of_shows (env.shows_of_encodable hsid), launchable_of_shows hurl,
      launchable_of_shows hnumber, nul_notMem_intStr]
  unfold PostEnv.runTest
  rw [succeeds_bind]
  cases timeoutOf env.testTimeout timeout with
  | error e => exact iff_of_false not_succeeds_error fun h => not_succeeds_error h.2.2.2
  | ok timeout =>
    rw [succeeds_ok, succeeds_ok, succeeds_bind, PostEnv.succeeds_print, hline,
      PostEnv.testResult_iff]
    constructor
    · rintro ⟨hurl, hall, hreports⟩
      obtain ⟨hsid0, hurl0⟩ := (hargs timeout hurl).mp hall
      exact ⟨hsid0, hurl0, hurl, hreports⟩
    · rintro ⟨hsid0, hurl0, hurl, hreports⟩
      exact ⟨hurl, (hargs timeout hurl).mpr ⟨hsid0, hurl0⟩, hreports⟩

theorem testStrategy_iff (hlawful : env.Lawful entries) (body : Json) :
    Succeeds (do coded (env.testStrategy (← body.dict)) : Result (Nat × Json))
      (fun p => p.2.encodable = true) ↔ env.TakesTest body := by
  unfold PostEnv.TakesTest
  rw [succeeds_bind]
  refine succeeds_congr fun body _ => ?_
  unfold PostEnv.testStrategy
  rw [succeeds_coded, succeeds_bind, hlawful.ids, succeeds_ok, hlawful.lists_iff]
  by_cases hknown : HasId (entries.map idOf) (textOf body "id")
  · have hsid := hlawful.panel.catalog.encodable_id hknown
    rw [if_neg (not_not_intro hknown)]
    by_cases hurl : (env.urlOf body).length ≤ 2048 ∧ isUrl (env.urlOf body) = true
    · rw [if_neg (not_not_intro hurl), env.runTest_iff hsid]
      exact ⟨fun h => ⟨hsid, fun _ _ => h⟩, fun h => h.2 hknown hurl⟩
    · rw [if_pos hurl]
      refine iff_of_true (refusal_sent (encodableText_lit _)) ⟨hsid, fun _ h => ?_⟩
      exact absurd h hurl
  · rw [if_pos hknown]
    refine succeeds_ok.trans (encodable_unknownStrategy.trans ?_)
    exact ⟨fun h => ⟨h, fun hlisted => absurd hlisted hknown⟩, fun h => h.1⟩

/-! ## The catalog is changed -/

theorem delete_iff (hlawful : env.Lawful entries) (body : Json) :
    Succeeds (do
        let sid := textOf (← body.dict) "id"
        env.change (deleteStrategy (env.status.stateGet "strategy" "standard") (.str sid)))
      (fun p => p.2.encodable = true) ↔
      Succeeds body.dict fun body => EncodableText (textOf body "id") := by
  have hid (sid : Str) : ((Json.str sid).or (.str [])).text = sid := by
    unfold Json.or
    cases sid with
    | nil => rfl
    | cons c sid => rfl
  rw [succeeds_bind]
  refine succeeds_congr fun body _ => ?_
  unfold PostEnv.change deleteStrategy
  rw [succeeds_coded, hid]
  exact delete_sent_iff hlawful.panel.catalog env.exception env.disk _ _

/-! ## The selection -/

omit [Tables] in
theorem PostEnv.succeeds_withEngine {route : Result (Nat × Json)} :
    Succeeds (env.withEngine route) (fun p => p.2.encodable = true) ↔
      (env.selection.engine = true → Succeeds route fun p => p.2.encodable = true) := by
  unfold PostEnv.withEngine
  split
  · rename_i h
    exact ⟨fun hroute _ => hroute, fun hroute => hroute h⟩
  · rename_i h
    refine iff_of_true ⟨_, rfl, ?_⟩ fun hengine => absurd hengine h
    exact encodable_refusal.mpr (encodableText_lit _)

omit [Tables] in
theorem blockSent_encodable {name : String} {answer : Selection.Answer} :
    (blockSent name answer).2.encodable = true ↔ answer.merged.Sendable := by
  simp only [blockSent, member, encodable_obj, List.forall_mem_cons, encodableText_lit,
    encodable_bool, true_and, encodable_texts]
  constructor
  · rintro ⟨hsettings, hwarnings, herrors, _⟩
    exact ⟨encodable_obj.mpr hsettings, hwarnings, herrors⟩
  · rintro ⟨hsettings, hwarnings, herrors⟩
    exact ⟨encodable_obj.mp hsettings, hwarnings, herrors, List.forall_mem_nil _⟩

variable [EncodableTables]

theorem postSettings_iff (hlawful : env.Lawful entries) (body : Json) :
    Succeeds (postSettings env body) (fun p => p.2.encodable = true) ↔
      (env.selection.engine = true → Succeeds (body.or (.obj [])).dict UpdatePrints) := by
  have hselection := hlawful.panel.selection
  unfold postSettings PostEnv.save
  rw [PostEnv.succeeds_withEngine]
  refine imp_congr_right fun _ => ?_
  rw [succeeds_bind]
  refine succeeds_congr fun values _ => ?_
  obtain ⟨⟨file, answer⟩, hsave, hsendable, _⟩ := saveSettings_sendable hselection.environ
    (persisted_encodable hselection.settings) values
    (saves env.disk (some (.obj (updateKnown settingsKeys (persisted env.selection.settings) values))))
  rw [succeeds_bind]
  dsimp only
  rw [hsave, succeeds_ok]
  exact succeeds_ok.trans (blockSent_encodable.trans hsendable)

theorem postBcwSchedule_iff (hlawful : env.Lawful entries) (body : Json) :
    Succeeds (postBcwSchedule env body) (fun p => p.2.encodable = true) ↔
      (env.selection.engine = true → Succeeds (body.or (.obj [])).dict TimePrints) := by
  have hselection := hlawful.panel.selection
  obtain ⟨state, hstate, hencodable, _⟩ := hselection.schedule
  unfold postBcwSchedule
  rw [PostEnv.succeeds_withEngine]
  refine imp_congr_right fun _ => ?_
  rw [← mergedSchedule_sendable hselection.environ hstate hencodable body, succeeds_bind]
  refine succeeds_congr fun saved _ => ?_
  obtain ⟨updated, merged⟩ := saved
  dsimp only
  have hread (saved : Bool) : ∃ d, stateOf (if saved = true then some (.obj updated) else none) =
      .ok d := by
    cases saved with
    | false => exact ⟨_, rfl⟩
    | true => exact ⟨_, stateOf_obj? (some updated)⟩
  obtain ⟨d, hd⟩ := hread (decide (merged.errors = []) && saves env.disk (some (.obj updated)))
  rw [succeeds_bind, hd, succeeds_ok]
  exact succeeds_ok.trans blockSent_encodable

theorem postReset_ok (hlawful : env.Lawful entries) :
    Succeeds (postReset env) fun p => p.2.encodable = true := by
  have hdefaults := envDefaults_encodable settingsSpec_wellFormed settingsSpec_encodes
    hlawful.panel.selection.environ (lit "BCW_")
  refine PostEnv.succeeds_withEngine.mpr fun _ => ⟨_, rfl, ?_⟩
  simp only [member, encodable_obj, List.forall_mem_cons, encodableText_lit, encodable_bool, true_and]
  exact ⟨encodable_obj.mp hdefaults, List.forall_mem_nil _⟩

/-- What has been saved in UTF-8 can be sent when it is read again. -/
theorem runSettings_ok (hlawful : env.Lawful entries) (overrides : Dict) :
    Succeeds (env.runSettings overrides) fun found => ∀ n, found = some n → n.Sendable := by
  have hselection := hlawful.panel.selection
  have hfile := persisted_encodable hselection.settings
  unfold PostEnv.runSettings
  by_cases hoverrides : overrides = []
  · obtain ⟨n, hn, hsendable⟩ := loadSettings_sendable hselection.environ hfile
    rw [if_pos hoverrides]
    refine ⟨some n, bind_eq_ok.mpr ⟨n, hn, rfl⟩, ?_⟩
    rintro _ ⟨⟩
    exact hsendable
  · obtain ⟨⟨file, answer⟩, hsave, _, hsaved⟩ := saveSettings_sendable hselection.environ hfile
      overrides (saves env.disk (some (.obj
        (updateKnown settingsKeys (persisted env.selection.settings) overrides))))
    dsimp only at hsaved
    rw [if_neg hoverrides, succeeds_bind]
    refine ⟨_, hsave, ?_⟩
    dsimp only
    by_cases hok : answer.saved = true
    · obtain ⟨hwrites, rfl⟩ := hsaved hok
      rw [saves, Bool.and_eq_true] at hwrites
      have hupdated : (Json.obj (persisted (some (updateKnown settingsKeys
          (persisted env.selection.settings) overrides)))).encodable = true := hwrites.2
      obtain ⟨n, hn, hsendable⟩ := loadSettings_sendable hselection.environ hupdated
      rw [if_pos hok]
      refine ⟨some n, bind_eq_ok.mpr ⟨n, hn, rfl⟩, ?_⟩
      rintro _ ⟨⟩
      exact hsendable
    · rw [if_neg hok]
      exact ⟨none, rfl, by simp⟩

omit [Tables] [EncodableTables] in
theorem launchRun_ok (env : PostEnv) {settings : Normalized} (h : settings.Sendable) :
    Succeeds (env.launchRun settings) fun res => (Json.obj res).encodable = true := by
  have hsettings := encodable_obj.mp h.settings
  unfold PostEnv.launchRun
  split
  · refine ⟨_, rfl, ?_⟩
    have herrors : EncodableText (Str.join (lit "; ") settings.errors) :=
      (encodableText_join (encodableText_lit _)).mpr h.errors
    simp only [refusal, List.cons_append, List.nil_append, member, encodable_obj, List.forall_mem_cons,
      encodableText_lit, encodable_bool, encodable_str, encodable_texts, true_and]
    exact ⟨herrors, h.errors, h.warnings, List.forall_mem_nil _⟩
  · cases env.makedirs with
    | some error =>
      exact refusal_sent (encodableText_append.mpr ⟨encodableText_lit _, error.2⟩)
    | none =>
      cases env.popen with
      | error error =>
        exact refusal_sent (encodableText_append.mpr ⟨encodableText_lit _, error.2⟩)
      | ok pid =>
        have hline : env.Shows (lit "panel: bcw run " ++ env.runId.1 ++ lit " started (manual)") := by
          refine env.shows_of_encodable ?_
          simp [encodableText_append, env.runId.2]
        refine succeeds_bind.mpr (PostEnv.succeeds_print.mpr ⟨hline, _, rfl, ?_⟩)
        simp only [member, encodable_obj, List.forall_mem_cons, encodableText_lit, encodable_bool,
          encodable_str, encodable_int, encodable_texts, true_and]
        exact ⟨env.runId.2, hsettings, h.warnings, List.forall_mem_nil _⟩

theorem startRun_ok (hlawful : env.Lawful entries) (overrides : Dict) :
    Succeeds (env.startRun overrides) fun res => (Json.obj res).encodable = true := by
  obtain ⟨job, hjob, hencodable⟩ := hlawful.panel.selection.job
  unfold PostEnv.startRun
  cases hready : env.selection.notReady with
  | some error => exact refusal_sent (encodableText_notReady hready)
  | none =>
    rw [succeeds_bind, hjob, succeeds_ok]
    by_cases hprogress : env.InProgress job
    · rw [if_pos hprogress]
      have hrun : EncodableText (job.get (lit "run_id") (.str (lit "?"))).text :=
        encodableText_text_of_encodable (encodable_get hencodable (encodable_str.mpr
          (encodableText_lit _)) _)
      exact refusal_sent (by simp [encodableText_append, hrun])
    · obtain ⟨found, hfound, hsendable⟩ := runSettings_ok hlawful overrides
      rw [if_neg hprogress, succeeds_bind, hfound, succeeds_ok]
      cases found with
      | none => exact refusal_sent (encodableText_lit _)
      | some settings => exact launchRun_ok env (hsendable settings rfl)

theorem postRun_iff (hlawful : env.Lawful entries) (body : Json) :
    Succeeds (postRun env body) (fun p => p.2.encodable = true) ↔
      Succeeds body.dict fun _ => True := by
  unfold postRun
  rw [succeeds_bind]
  refine succeeds_congr fun body _ => ?_
  exact iff_of_true (succeeds_coded.mpr (startRun_ok hlawful _)) trivial

omit [EncodableTables] in
/-- A live pid is a number. -/
theorem toInt_of_pidAlive {kill : Int → Bool} {pid : Json} (h : pidAlive kill pid = true) :
    ∃ i, pid.toInt = .ok i := by
  unfold pidAlive at h
  rw [Bool.and_eq_true] at h
  cases hpid : pid.toInt with
  | ok i => exact ⟨i, rfl⟩
  | error e =>
    rw [hpid] at h
    cases h.2

theorem cancel_iff (hlawful : env.Lawful entries) :
    Succeeds (coded env.cancel) (fun p => p.2.encodable = true) ↔ env.selection.engine = true := by
  obtain ⟨job, hjob, hencodable⟩ := hlawful.panel.selection.job
  rw [succeeds_coded]
  unfold PostEnv.cancel
  by_cases hengine : env.selection.engine = true
  · refine iff_of_true ?_ hengine
    rw [if_neg (not_not_intro hengine), succeeds_bind, hjob, succeeds_ok]
    by_cases hprogress : env.InProgress job
    · obtain ⟨pid, hpid⟩ := toInt_of_pidAlive hprogress.2
      rw [if_neg (not_not_intro hprogress), succeeds_bind, hpid, succeeds_ok]
      by_cases hsignalled : env.signalled pid = true
      · have hrun : EncodableText (job.get0 (lit "run_id")).text :=
          encodableText_text_of_encodable (encodable_get hencodable rfl _)
        have hline : env.Shows (lit "panel: bcw run " ++ (job.get0 (lit "run_id")).text ++
            lit " cancelled") := by
          refine env.shows_of_encodable ?_
          simp [encodableText_append, hrun]
        rw [if_neg (not_not_intro hsignalled), succeeds_bind, PostEnv.succeeds_print]
        refine ⟨hline, _, rfl, ?_⟩
        have hid : (job.get0 (lit "run_id")).encodable = true := encodable_get hencodable rfl _
        simp [member, hid]
      · rw [if_pos hsignalled]
        exact refusal_sent (encodableText_lit _)
    · rw [if_pos hprogress]
      exact refusal_sent (encodableText_lit _)
  · rw [if_pos hengine]
    exact iff_of_false not_succeeds_error hengine

omit [Tables] [EncodableTables] in
/-- `bcw_import` does not take the arguments that it gets. -/
theorem not_postBcwImport (env : PostEnv) (body : Json) :
    ¬Succeeds (postBcwImport env body) fun p => p.2.encodable = true := by
  unfold postBcwImport
  rw [succeeds_bind]
  rintro ⟨members, _, h⟩
  exact not_succeeds_error h

/-! ## The routes -/

/-- The condition of each route of `do_POST`. -/
def PostEnv.Takes (env : PostEnv) (path : Str) (body : Json) : Prop :=
  if path = lit "/api/strategy" then env.TakesStrategy body
  else if path = lit "/api/strategy/import" then True
  else if path = lit "/api/strategy/test" then env.TakesTest body
  else if path = lit "/api/strategy/delete" then
    Succeeds body.dict fun body => EncodableText (textOf body "id")
  else if path = lit "/api/bcw/settings" then
    env.selection.engine = true → Succeeds (body.or (.obj [])).dict UpdatePrints
  else if path = lit "/api/bcw/reset" then True
  else if path = lit "/api/bcw/run" then Succeeds body.dict fun _ => True
  else if path = lit "/api/bcw/cancel" then env.selection.engine = true
  else if path = lit "/api/bcw/import" then False
  else if path = lit "/api/bcw/schedule" then
    env.selection.engine = true → Succeeds (body.or (.obj [])).dict TimePrints
  else if path = lit "/api/exit" then env.TakesExit body
  else True

theorem postRoute_iff (hlawful : env.Lawful entries) (path : Str) (body : Json) :
    (postRoute env path body).Answered ↔ env.Takes path body := by
  refine answered_ite (answered_reply.trans (postStrategy_iff hlawful body)) ?_
  refine answered_ite (iff_of_true (answered_reply.mpr (succeeds_coded.mpr ?_)) trivial) ?_
  · exact import_sent hlawful.sorts env.exception env.disk env.catalog body
  refine answered_ite (answered_reply.trans (testStrategy_iff hlawful body)) ?_
  refine answered_ite (answered_reply.trans (delete_iff hlawful body)) ?_
  refine answered_ite (answered_reply.trans (postSettings_iff hlawful body)) ?_
  refine answered_ite (iff_of_true (answered_reply.mpr (postReset_ok hlawful)) trivial) ?_
  refine answered_ite (answered_reply.trans (postRun_iff hlawful body)) ?_
  refine answered_ite (answered_reply.trans (cancel_iff hlawful)) ?_
  refine answered_ite (iff_of_false (fun h => ?_) not_false) ?_
  · exact not_postBcwImport env body (answered_reply.mp h)
  refine answered_ite (answered_reply.trans (postBcwSchedule_iff hlawful body)) ?_
  refine answered_ite (answered_reply.trans (postExit_iff env body)) ?_
  exact iff_of_true answered_notFound trivial

omit [Tables] [EncodableTables] in
/-- A request is answered when the credentials can be compared and its route answers. -/
theorem answered_withAuth {auth : Auth} {r : Request} {route : Outcome} :
    (withAuth auth r route).Answered ↔
      Succeeds (auth.authed r) fun ok => ok = true → route.Answered := by
  unfold withAuth
  cases auth.authed r with
  | error e => exact iff_of_false (not_answered_raised _ _) not_succeeds_error
  | ok ok =>
    rw [succeeds_ok]
    cases ok with
    | false => exact iff_of_true (answered_one _ _) nofun
    | true => exact ⟨fun h _ => h, fun h => h rfl⟩

/-- What a request must be like to be answered. -/
def PostEnv.Handles (env : PostEnv) (r : Request) : Prop :=
  Succeeds (env.auth.authed r) fun ok => ok = true →
    match r.method with
    | .get => r.path = lit "/api/logs" → 63 ∈ r.target
    | .post => env.Takes r.path (readBody env.loads r)

/-- **Which requests get exactly one response, with no exception.** -/
theorem handle_answered_iff (hlawful : env.Lawful entries) {r : Request}
    (htarget : EncodableText r.target) : (handle env r).Answered ↔ env.Handles r := by
  unfold handle PostEnv.Handles
  cases r.method with
  | get =>
    refine answered_withAuth.trans (succeeds_congr fun ok _ => imp_congr_right fun _ => ?_)
    exact getRoute_answered_iff hlawful.panel htarget
  | post =>
    refine answered_withAuth.trans (succeeds_congr fun ok _ => imp_congr_right fun _ => ?_)
    exact postRoute_iff hlawful _ _

end

/-! ## A panel that has just been installed -/

def standardStrategy : Dict :=
  [member "id" (.str (lit "standard")), member "name" (.str (lit "Standard"))]

/-- No state files yet, no credentials, and every program succeeds. -/
def freshPanel (body : Json) : PostEnv where
  auth := ⟨[], [], fun _ => none⟩
  index := []
  status := {
    publicHost := ⟨[], by decide⟩
    cached := none
    echo := []
    localAddress := none
    ssPort := 8388
    socksPort := 1080
    ssMethod := ⟨lit "aes-256-gcm", by decide⟩
    ssPassword := ⟨lit "change-me", by decide⟩
    procNet := []
    wzfw := none
    nfqin := none
    state := fun _ => none
    pidfile := fun _ => none
    kill := fun _ => false
    isdigit := isAsciiDigit
    uptime := 0 }
  selection := {
    engine := true
    harness := true
    environ := fun _ => none
    settings := none
    schedule := none
    job := none
    last := none
    version := none
    executable := fun _ => true
    present := fun _ => true
    nft := true
    queues := none
    localTime := fun _ => .error .overflowError
    kill := fun _ => false }
  catalog := some (.obj [member "strategies" (.arr [.obj standardStrategy])])
  logs := fun _ => .absent
  generated := ⟨[], by decide⟩
  testUrl := ⟨lit "https://example.com", by decide⟩
  testTimeout := 120
  testQueue := 212
  ytDlp := true
  loads := fun _ => some body
  rawDecode := fun _ => none
  applied := fun _ => .finished 0 ⟨[], by decide⟩ ⟨[], by decide⟩
  tested := fun _ => .timedOut
  escapes := true
  importEnv := .start
  imported := fun _ _ _ => .ok []
  exception := fun _ => ⟨[], by decide⟩
  disk := true
  runId := ⟨lit "20260101-000000", by decide⟩
  makedirs := none
  popen := .ok 100
  signalled := fun _ => true

omit [Tables] in
theorem freshPanel_lawful (body : Json) : letI := Tables.ascii
    (freshPanel body).Lawful [standardStrategy] := by
  let _ := Tables.ascii
  refine ⟨⟨?_, ⟨⟨_, rfl, rfl⟩, ?_⟩, ?_⟩, ?_⟩
  · intro key hkey
    simp only [List.mem_cons, List.not_mem_nil, or_false] at hkey
    rcases hkey with rfl | rfl
    · exact ⟨0, rfl⟩
    · exact ⟨0, rfl⟩
  · intro s hs
    rw [List.mem_singleton.mp hs]
    decide
  · refine ⟨nofun, nofun, ⟨_, rfl, rfl, ?_⟩, ⟨_, rfl, rfl⟩, nofun⟩
    exact fun key _ => ⟨_, rfl⟩
  · intro keyed e h
    cases h
    trivial

/-- A request with a body of two bytes. -/
def postTo (path : String) : Request := ⟨.post, lit path, none, some (lit "2"), [91, 93]⟩

omit [Tables] in
/-- The exit mode is switched. -/
theorem handle_answered_iff_exit : letI := Tables.ascii
    let env := freshPanel (.obj [member "mode" (.str (lit "socks5"))])
    env.Handles (postTo "/api/exit") ∧ (handle env (postTo "/api/exit")).Answered := by
  let _ := Tables.ascii
  have hbody : readBody (freshPanel (.obj [member "mode" (.str (lit "socks5"))])).loads
      (postTo "/api/exit") = .obj [member "mode" (.str (lit "socks5"))] := rfl
  have hhandles : (freshPanel (.obj [member "mode" (.str (lit "socks5"))])).Handles
      (postTo "/api/exit") := by
    refine ⟨true, rfl, fun _ => ?_⟩
    show PostEnv.TakesExit _ (readBody _ _)
    rw [hbody]
    exact ⟨_, rfl, fun _ => nofun⟩
  exact ⟨hhandles, (handle_answered_iff (freshPanel_lawful _) (by decide)).mpr hhandles⟩

omit [Tables] in
/-- A list as body, and a log page without a query, are not answered. -/
theorem not_answered : letI := Tables.ascii
    let env := freshPanel (.arr [])
    env.Lawful [standardStrategy] ∧ ¬(handle env (postTo "/api/strategy")).Answered ∧
      ¬(handle env ⟨.get, lit "/api/logs", none, none, []⟩).Answered := by
  let _ := Tables.ascii
  have hpost : (handle (freshPanel (.arr [])) (postTo "/api/strategy")).raised =
      some .attributeError := rfl
  have hget : (handle (freshPanel (.arr [])) ⟨.get, lit "/api/logs", none, none, []⟩).raised =
      some .indexError := rfl
  refine ⟨freshPanel_lawful _, fun h => ?_, fun h => ?_⟩
  · exact nomatch hpost.symm.trans h.1
  · exact nomatch hget.symm.trans h.1

end WebZapret.Panel.Http
