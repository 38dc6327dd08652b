import WebZapret.Selection.Harness
import WebZapret.Lib.Py.Rounding

/-!
# One record for each domain

A run owes each of its domains a record, in order, made of that domain's own steps and reports, and
a `result.json`. It keeps this exactly when no domain raises and every text can be encoded: when
each command line can be passed on, and every report that is read is none at all or converts and
has texts that UTF-8 can hold (`run_isolates_iff`). A report with a field that does not convert is
not recorded as its domain's error; it ends the run.
-/

namespace WebZapret.Selection

open Py Failing

variable [Tables]

/-! ## What can be encoded -/

/-- The texts of a scan report that are kept can be encoded. -/
structure ScanEncodes (d : Dict) : Prop where
  domain : EncodableText (textField d "domain")
  blockType : EncodableText (textField d "block_type")
  blocked : ∀ items, listField d "blocked" = .ok items → ∀ x ∈ items, x.encodable = true
  rows : ∀ items, keptItems d = .ok items → ∀ item ∈ items,
    EncodableText (textField item "protocol") ∧ EncodableText (textField item "args")

/-- The texts of a checked row that are kept can be encoded. -/
structure RowEncodes (item : Dict) : Prop where
  protocol : EncodableText (textField item "protocol")
  args : EncodableText (textField item "args")
  silence : (item.get0 (lit "longest_silence_ms")).encodable = true
  observed : EncodableText (textField item "observed")
  admits : ∀ items, listField item "admits" = .ok items → ∀ x ∈ items, EncodableText x.text

/-- The texts of a check report that are kept can be encoded. -/
structure CheckEncodes (d : Dict) : Prop where
  domain : EncodableText (textField d "domain")
  rows : ∀ items, keptItems d = .ok items → ∀ item ∈ items, RowEncodes item

omit [Tables] in
/-- What the members of a scan report need to be encoded. -/
theorem scanReport_members {r : ScanReport} : r.json.encodable = true ↔
    EncodableText r.domain ∧ EncodableText r.blockType ∧ (∀ x ∈ r.blocked, x.encodable = true) ∧
      ∀ row ∈ r.strategies, row.json.encodable = true := by
  simp [ScanReport.json, member]

theorem scanReport_encodable {d : Dict} {r : ScanReport} (h : scanReport d = .ok r) :
    r.json.encodable = true ↔ ScanEncodes d := by
  obtain ⟨items, hitems, h⟩ := bind_eq_ok.mp h
  obtain ⟨rows, hrows, h⟩ := bind_eq_ok.mp h
  obtain ⟨blocked, hblocked, h⟩ := bind_eq_ok.mp h
  obtain ⟨total, _, h⟩ := bind_eq_ok.mp h
  obtain ⟨working, _, h⟩ := bind_eq_ok.mp h
  cases h
  have hrow := forall_mapM_iff (P := fun row : ScanRow => row.json.encodable = true)
    (Q := fun item => EncodableText (textField item "protocol") ∧
      EncodableText (textField item "args")) hrows (by
        intro item row h
        obtain ⟨coverage, _, h⟩ := bind_eq_ok.mp h
        cases h
        simp [ScanRow.json, member])
  have hblocks := forall_ok_iff (P := fun blocked => ∀ x ∈ blocked, x.encodable = true) hblocked
  have hkept := forall_ok_iff (P := fun items => ∀ item ∈ items,
    EncodableText (textField item "protocol") ∧ EncodableText (textField item "args")) hitems
  rw [scanReport_members, hrow, ← hblocks, ← hkept]
  exact ⟨fun ⟨hdomain, hblock, hblocks, hrows⟩ => ⟨hdomain, hblock, hblocks, hrows⟩,
    fun ⟨hdomain, hblock, hblocks, hrows⟩ => ⟨hdomain, hblock, hblocks, hrows⟩⟩

omit [Tables] in
/-- What the members of a row need to be encoded. -/
theorem checkRow_members {row : CheckRow} : row.json.encodable = true ↔
    EncodableText row.protocol ∧ EncodableText row.args ∧ row.longestSilenceMs.encodable = true ∧
      EncodableText row.observed ∧ ∀ s ∈ row.admits, EncodableText s := by
  have hshare : (optJson Json.float row.medianShare).encodable = true := by
    cases row.medianShare <;> rfl
  simp [CheckRow.json, CheckRow.members, member, hshare]

theorem checkRow_encodable {item : Dict} {row : CheckRow} (h : checkRow item = .ok row) :
    row.json.encodable = true ↔ RowEncodes item := by
  obtain ⟨coverage, _, h⟩ := bind_eq_ok.mp h
  obtain ⟨rate, _, h⟩ := bind_eq_ok.mp h
  obtain ⟨passes, _, h⟩ := bind_eq_ok.mp h
  obtain ⟨total, _, h⟩ := bind_eq_ok.mp h
  obtain ⟨share, _, h⟩ := bind_eq_ok.mp h
  obtain ⟨latency, _, h⟩ := bind_eq_ok.mp h
  obtain ⟨speed, _, h⟩ := bind_eq_ok.mp h
  obtain ⟨admits, hadmits, h⟩ := bind_eq_ok.mp h
  cases h
  have hall := forall_ok_iff (P := fun admits => ∀ x ∈ admits, EncodableText x.text) hadmits
  rw [checkRow_members]
  dsimp only
  rw [List.forall_mem_map, ← hall]
  exact ⟨fun ⟨hprotocol, hargs, hsilence, hobserved, hall⟩ =>
      ⟨hprotocol, hargs, hsilence, hobserved, hall⟩,
    fun ⟨hprotocol, hargs, hsilence, hobserved, hall⟩ =>
      ⟨hprotocol, hargs, hsilence, hobserved, hall⟩⟩

omit [Tables] in
/-- What the members of a check report need to be encoded. -/
theorem checkReport_members {r : CheckReport} : r.json.encodable = true ↔
    EncodableText r.domain ∧ ∀ row ∈ r.strategies, row.json.encodable = true := by
  simp [CheckReport.json, member]

theorem checkReport_encodable {d : Dict} {r : CheckReport} (h : checkReport d = .ok r) :
    r.json.encodable = true ↔ CheckEncodes d := by
  obtain ⟨items, hitems, h⟩ := bind_eq_ok.mp h
  obtain ⟨rows, hrows, h⟩ := bind_eq_ok.mp h
  obtain ⟨total, _, h⟩ := bind_eq_ok.mp h
  obtain ⟨working, _, h⟩ := bind_eq_ok.mp h
  obtain ⟨elapsed, _, h⟩ := bind_eq_ok.mp h
  cases h
  have hrow := forall_mapM_iff (P := fun row : CheckRow => row.json.encodable = true)
    (Q := RowEncodes) hrows fun item row => checkRow_encodable
  have hkept := forall_ok_iff (P := fun items => ∀ item ∈ items, RowEncodes item) hitems
  rw [checkReport_members, hrow, ← hkept]
  exact ⟨fun ⟨hdomain, hrows⟩ => ⟨hdomain, hrows⟩, fun ⟨hdomain, hrows⟩ => ⟨hdomain, hrows⟩⟩

/-- The record and the errors of a domain can be encoded. -/
def Writable (r : Recorded) : Prop := r.1.json.encodable = true ∧ ∀ t ∈ r.2, EncodableText t

omit [Tables] in
theorem refused_encodable {r : CheckRow × Str} : (refusedJson r).encodable = true ↔
    r.1.json.encodable = true ∧ EncodableText r.2 := by
  rw [refusedJson, Json.encodable_obj, List.forall_mem_append, ← Json.encodable_obj,
    List.forall_mem_singleton]
  simp [member, CheckRow.json]

omit [Tables] in
theorem optJson_encodable {α : Type} {f : α → Json} {o : Option α} :
    (optJson f o).encodable = true ↔ ∀ a, o = some a → (f a).encodable = true := by
  cases o <;> simp [optJson]

omit [Tables] in
/-- What the members of a record need to be encoded. -/
theorem record_encodable {r : DomRecord} : r.json.encodable = true ↔
    r.domain.encodable = true ∧ EncodableText r.blockType ∧
      (∀ x ∈ r.blocked, x.encodable = true) ∧ (∀ row ∈ r.working, row.json.encodable = true) ∧
      (∀ row ∈ r.refused, (refusedJson row).encodable = true) ∧
      (∀ scan, r.scan = some scan → scan.json.encodable = true) ∧
      ∀ check, r.check = some check → check.json.encodable = true := by
  have hints : ∀ rc : Option Int, (optJson Json.int rc).encodable = true := by
    rintro (_ | _) <;> rfl
  simp [DomRecord.json, member, hints, optJson_encodable, -List.mem_map, List.forall_mem_map]

/-- The domain and the scan of a record can be encoded. -/
structure DomRecord.ScanWritable (r : DomRecord) : Prop where
  domain : r.domain.encodable = true
  blockType : EncodableText r.blockType
  blocked : ∀ x ∈ r.blocked, x.encodable = true
  scan : ∀ scan, r.scan = some scan → scan.json.encodable = true

/-- The record has no part of a check. -/
structure DomRecord.Unchecked (r : DomRecord) : Prop where
  working : r.working = []
  refused : r.refused = []
  check : r.check = none

omit [Tables] in
theorem DomRecord.ScanWritable.of_json {r : DomRecord} (h : r.json.encodable = true) :
    r.ScanWritable := by
  obtain ⟨hdomain, hblock, hblocked, _, _, hscan, _⟩ := record_encodable.mp h
  exact ⟨hdomain, hblock, hblocked, hscan⟩

omit [Tables] in
theorem unchecked_encodable {r : DomRecord} (h : r.Unchecked) :
    r.json.encodable = true ↔ r.ScanWritable := by
  obtain ⟨hworking, hrefused, hcheck⟩ := h
  refine ⟨.of_json, fun ⟨hdomain, hblock, hblocked, hscan⟩ => record_encodable.mpr ?_⟩
  refine ⟨hdomain, hblock, hblocked, ?_, ?_, hscan, ?_⟩
  · simp [hworking]
  · simp [hrefused]
  · simp [hcheck]

/-! ## Steps -/

section Steps

variable {env : RunEnv} {settings : Dict} {item : Planned} {e : Events} {dom : DomRecord}

omit [Tables] in
theorem texts_of_isText {cmd : List Json} (h : Texts cmd) : ∃ args : List Str, cmd = args.map .str := by
  induction cmd with
  | nil => exact ⟨[], rfl⟩
  | cons a cmd ih =>
    obtain ⟨⟨text, rfl⟩, hrest⟩ := List.forall_mem_cons.mp h
    obtain ⟨args, rfl⟩ := ih hrest
    exact ⟨text :: args, rfl⟩

omit [Tables] in
theorem argTexts_texts (args : List Str) : argTexts (args.map .str) = .ok args := by
  unfold argTexts
  induction args with
  | nil => rfl
  | cons a args ih =>
    rw [List.map_cons, List.mapM_cons]
    exact bind_eq_ok.mpr ⟨a, rfl, bind_eq_ok.mpr ⟨args, ih, rfl⟩⟩

/-- A step is run when its command line can be passed on. -/
theorem runStep_succeeds {cmd : List Json} (h : Texts cmd) {budget : Printed}
    {outcome : StepOutcome} {P : Int × Str → Prop} :
    Succeeds (runStep cmd budget outcome) P ↔
      (∀ a ∈ cmd, Launchable a.text) ∧ P (outcome.rc, outcome.note budget) := by
  obtain ⟨args, rfl⟩ := texts_of_isText h
  unfold runStep
  rw [argTexts_texts, succeeds_bind, succeeds_ok, List.forall_mem_map]
  by_cases hargs : ∀ a ∈ args, Launchable a
  · rw [if_pos hargs]
    exact succeeds_ok.trans (and_iff_right hargs).symm
  · rw [if_neg hargs]
    exact iff_of_false not_succeeds_error fun hboth => hargs hboth.1

theorem failedText_encodable {domain note : Str} (hdomain : EncodableText domain) (step : String)
    (rc : Int) : EncodableText (failedText (.str domain) step rc note) ↔ EncodableText note := by
  have htext : EncodableText (Json.str domain).text := hdomain
  unfold failedText
  by_cases hnote : note = []
  · simp [encodableText_append, hnote, htext]
  · simp [encodableText_append, hnote, htext]

theorem unreadableText_encodable {domain : Str} (hdomain : EncodableText domain) (step : String) :
    EncodableText (unreadableText (.str domain) step) := by
  have htext : EncodableText (Json.str domain).text := hdomain
  simp [unreadableText, encodableText_append, htext]

/-- What the conversions and the texts of a report must be. -/
def ScanFits (env : RunEnv) (report : Option Json) : Prop :=
  ∀ d, reportObject env.loads report = some d → ScanConverts d ∧ ScanEncodes d

def CheckFits (env : RunEnv) (report : Option Json) : Prop :=
  ∀ d, reportObject env.loads report = some d → CheckConverts d ∧ CheckEncodes d

omit [Tables] in
/-- What a parser returns has a property exactly when the object, if there is one, converts and has
the corresponding property. -/
theorem parse_succeeds {ρ : Type} {report : Dict → Result ρ} {W : Prop} {C E : Dict → Prop}
    {P : Option ρ → Prop} (hconverts : ∀ d, (∃ r, report d = .ok r) ↔ C d) (hnone : P none ↔ W)
    (hsome : ∀ d r, report d = .ok r → (P (some r) ↔ W ∧ E d)) (object : Option Dict) :
    Succeeds (match object with
      | none => .ok none
      | some d => (report d).map some : Result (Option ρ)) P ↔
        W ∧ ∀ d, object = some d → C d ∧ E d := by
  cases object with
  | none => exact succeeds_ok.trans (hnone.trans (and_iff_left nofun).symm)
  | some d =>
    dsimp only
    cases hd : report d with
    | error e =>
      refine iff_of_false not_succeeds_error ?_
      rintro ⟨_, h⟩
      obtain ⟨r, hr⟩ := (hconverts d).mpr (h d rfl).1
      rw [hd] at hr
      cases hr
    | ok r =>
      refine succeeds_ok.trans ((hsome d r hd).trans (and_congr_right fun _ => ?_))
      constructor
      · rintro hE _ ⟨⟩
        exact ⟨(hconverts d).mp ⟨r, hd⟩, hE⟩
      · exact fun h => (h d rfl).2

/-- The record after a check keeps its scan and has the check. -/
theorem afterCheck_succeeds {x : Flt} (hshare : floatField settings "min_share" = .ok x)
    (check : CheckReport) :
    Succeeds (afterCheck env settings dom (some check)) Writable ↔
      dom.ScanWritable ∧ check.json.encodable = true := by
  obtain ⟨r, hr⟩ := selectWorking_ok hshare env.sortNaN check.strategies
  obtain ⟨hworking, hrefused⟩ := selectWorking_mem hr
  unfold afterCheck
  rw [succeeds_bind, hr, succeeds_ok]
  refine succeeds_ok.trans ⟨fun h => ?_, fun ⟨hscan, hcheck⟩ => ⟨?_, nofun⟩⟩
  · obtain ⟨hdomain, hblock, hblocked, _, _, hscan, hcheck⟩ := record_encodable.mp h.1
    exact ⟨⟨hdomain, hblock, hblocked, hscan⟩, hcheck check rfl⟩
  · have hrows := (checkReport_members.mp hcheck).2
    refine record_encodable.mpr
      ⟨hscan.domain, hscan.blockType, hscan.blocked, ?_, ?_, hscan.scan, ?_⟩
    · exact fun row hrow => hrows row (hworking row hrow)
    · intro row hrow
      obtain ⟨hmem, hreason⟩ := hrefused row (List.mem_of_mem_take hrow)
      have hencodable := hrows row.1 hmem
      obtain ⟨_, _, _, hobserved, _⟩ := checkRow_members.mp hencodable
      exact refused_encodable.mpr ⟨hencodable, filterReason_encodable hreason hobserved⟩
    · rintro _ ⟨⟩
      exact hcheck

/-- The second step and its report do not end the run. -/
structure CheckStepFits (env : RunEnv) (item : Planned) (e : Events) : Prop where
  launch : ∀ a ∈ item.check, Launchable a.text
  note : EncodableText (e.check.note e.checkBudget)
  report : e.check.rc = 0 → CheckFits env e.checkReport

omit [Tables] in
/-- An exit code has no note. -/
theorem StepOutcome.note_of_rc_zero {o : StepOutcome} (h : o.rc = 0) (budget : Printed) :
    o.note budget = [] := by
  cases o with
  | exit rc => rfl
  | timeout => cases h
  | osError text => cases h

omit [Tables] in
/-- A record that ends with one error. -/
theorem error_writable {r : DomRecord} (h : r.Unchecked) (text : Str) :
    Writable (r, [text]) ↔ r.ScanWritable ∧ EncodableText text := by
  rw [Writable, List.forall_mem_singleton, unchecked_encodable h]

omit [Tables] in
theorem scanWritable_checkRc {rc : Option Int} :
    ({ dom with checkRc := rc } : DomRecord).ScanWritable ↔ dom.ScanWritable :=
  ⟨fun h => ⟨h.domain, h.blockType, h.blocked, h.scan⟩,
    fun h => ⟨h.domain, h.blockType, h.blocked, h.scan⟩⟩

theorem checkStep_succeeds {x : Flt} (hshare : floatField settings "min_share" = .ok x)
    (hcheck : Texts item.check) {domain : Str} (hitem : item.domain = .str domain)
    (hdomain : EncodableText domain) (hsame : dom.domain = item.domain) (hdom : dom.Unchecked) :
    Succeeds (checkStep env settings item e dom) Writable ↔
      dom.ScanWritable ∧ CheckStepFits env item e := by
  have hunchecked : ({ dom with checkRc := some e.check.rc } : DomRecord).Unchecked :=
    ⟨hdom.working, hdom.refused, hdom.check⟩
  unfold checkStep
  rw [succeeds_bind, runStep_succeeds hcheck]
  dsimp only
  by_cases hrc : e.check.rc = 0
  · have hparse : Succeeds (parseCheckReport env.loads e.checkReport) (fun report =>
        Succeeds (afterCheck env settings { dom with checkRc := some e.check.rc } report)
          Writable) ↔ dom.ScanWritable ∧ CheckFits env e.checkReport := by
      refine parse_succeeds (fun d => checkReport_ok_iff) ?_ (fun d r hr => ?_) _
      · have htext : EncodableText (unreadableText dom.domain "check") := by
          rw [hsame, hitem]
          exact unreadableText_encodable hdomain "check"
        exact succeeds_ok.trans ((error_writable hunchecked _).trans
          ((and_iff_left htext).trans scanWritable_checkRc))
      · exact (afterCheck_succeeds hshare r).trans
          (and_congr scanWritable_checkRc (checkReport_encodable hr))
    rw [if_neg (not_not_intro hrc), succeeds_bind, hparse]
    constructor
    · rintro ⟨hlaunch, hscan, hfits⟩
      refine ⟨hscan, hlaunch, ?_, fun _ => hfits⟩
      rw [StepOutcome.note_of_rc_zero hrc]
      exact encodableText_nil
    · rintro ⟨hscan, hlaunch, _, hfits⟩
      exact ⟨hlaunch, hscan, hfits hrc⟩
  · have herror : Succeeds (.ok ({ dom with checkRc := some e.check.rc },
        [failedText item.domain "check" e.check.rc (e.check.note e.checkBudget)]) : Result Recorded)
        Writable ↔ dom.ScanWritable ∧ EncodableText (e.check.note e.checkBudget) := by
      rw [succeeds_ok, error_writable hunchecked, scanWritable_checkRc, hitem,
        failedText_encodable hdomain]
    rw [if_pos hrc]
    constructor
    · rintro ⟨hlaunch, hrest⟩
      obtain ⟨hscan, hnote⟩ := herror.mp hrest
      exact ⟨hscan, hlaunch, hnote, fun hzero => absurd hzero hrc⟩
    · rintro ⟨hscan, hlaunch, hnote, _⟩
      exact ⟨hlaunch, herror.mpr ⟨hscan, hnote⟩⟩

/-- The report has rows to check. -/
def HasRows (env : RunEnv) (report : Option Json) : Prop :=
  ∃ d items, reportObject env.loads report = some d ∧ keptItems d = .ok items ∧ items ≠ []

/-- Neither step of a domain ends the run, and all texts can be encoded. -/
structure DomainFits (env : RunEnv) (item : Planned) (e : Events) : Prop where
  launch : ∀ a ∈ item.scan, Launchable a.text
  note : EncodableText (e.scan.note e.scanBudget)
  scan : e.scan.rc = 0 → ScanFits env e.scanReport
  check : e.scan.rc = 0 → HasRows env e.scanReport → CheckStepFits env item e

/-- The rows of a scan are as many as the items that are kept. -/
theorem scanReport_rows {d : Dict} {r : ScanReport} (h : scanReport d = .ok r) :
    ∃ items, keptItems d = .ok items ∧ (r.strategies = [] ↔ items = []) := by
  obtain ⟨items, hitems, h⟩ := bind_eq_ok.mp h
  obtain ⟨rows, hrows, h⟩ := bind_eq_ok.mp h
  obtain ⟨blocked, _, h⟩ := bind_eq_ok.mp h
  obtain ⟨total, _, h⟩ := bind_eq_ok.mp h
  obtain ⟨working, _, h⟩ := bind_eq_ok.mp h
  cases h
  have hlength := length_of_mapM hrows
  exact ⟨items, hitems, by rw [← List.length_eq_zero_iff, hlength, List.length_eq_zero_iff]⟩

omit [Tables] in
theorem scanWritable_withScan {scan : ScanReport} (hdom : dom.ScanWritable) :
    (dom.withScan scan).ScanWritable ↔ scan.json.encodable = true := by
  refine ⟨fun h => h.scan scan rfl, fun h => ?_⟩
  obtain ⟨_, hblock, hblocked, _⟩ := scanReport_members.mp h
  refine ⟨hdom.domain, hblock, hblocked, ?_⟩
  rintro _ ⟨⟩
  exact h

theorem afterScan_succeeds {x : Flt} (hshare : floatField settings "min_share" = .ok x)
    (hcheck : Texts item.check) {domain : Str} (hitem : item.domain = .str domain)
    (hdomain : EncodableText domain) (hsame : dom.domain = item.domain) (hdom : dom.Unchecked)
    (hscanned : dom.ScanWritable) {d : Dict} {scan : ScanReport} (hscan : scanReport d = .ok scan) :
    Succeeds (afterScan env settings item e dom (some scan)) Writable ↔ ScanEncodes d ∧
      (∀ items, keptItems d = .ok items → items ≠ [] → CheckStepFits env item e) := by
  obtain ⟨items, hitems, hrows⟩ := scanReport_rows hscan
  have hfits := forall_ok_iff (P := fun items => items ≠ [] → CheckStepFits env item e) hitems
  have hunchecked : (dom.withScan scan).Unchecked := ⟨hdom.working, hdom.refused, hdom.check⟩
  rw [hfits, ← scanReport_encodable hscan, ← scanWritable_withScan hscanned]
  unfold afterScan
  dsimp only
  by_cases hempty : scan.strategies = []
  · rw [if_pos hempty, succeeds_ok, Writable, unchecked_encodable hunchecked]
    exact and_congr_right fun _ => iff_of_true nofun fun hne => absurd (hrows.mp hempty) hne
  · have hsame' : (dom.withScan scan).domain = item.domain := hsame
    rw [if_neg hempty, checkStep_succeeds hshare hcheck hitem hdomain hsame' hunchecked]
    have hne : items ≠ [] := mt hrows.mpr hempty
    exact and_congr_right fun _ => ⟨fun h _ => h, fun h => h hne⟩

/-- **A domain keeps the run going** exactly when its two steps fit. -/
theorem domainStep_succeeds {x : Flt} (hshare : floatField settings "min_share" = .ok x)
    (hscan : Texts item.scan) (hcheck : Texts item.check) {domain : Str}
    (hitem : item.domain = .str domain) (hdomain : EncodableText domain) :
    Succeeds (domainStep env settings item e) Writable ↔ DomainFits env item e := by
  have hunchecked : ({ DomRecord.blank item.domain with scanRc := some e.scan.rc } :
      DomRecord).Unchecked := ⟨rfl, rfl, rfl⟩
  have hwritable : ({ DomRecord.blank item.domain with scanRc := some e.scan.rc } :
      DomRecord).ScanWritable := by
    refine ⟨?_, encodableText_nil, nofun, nofun⟩
    show item.domain.encodable = true
    rw [hitem, Json.encodable_str]
    exact hdomain
  unfold domainStep
  rw [succeeds_bind, runStep_succeeds hscan]
  dsimp only
  by_cases hrc : e.scan.rc = 0
  · rw [if_neg (not_not_intro hrc), succeeds_bind]
    have hparse : Succeeds (parseScanReport env.loads e.scanReport) (fun report =>
        Succeeds (afterScan env settings item e
          { DomRecord.blank item.domain with scanRc := some e.scan.rc } report) Writable) ↔
        True ∧ ∀ d, reportObject env.loads e.scanReport = some d → ScanConverts d ∧
          (ScanEncodes d ∧ ∀ items, keptItems d = .ok items → items ≠ [] →
            CheckStepFits env item e) := by
      refine parse_succeeds (fun d => scanReport_ok_iff) ?_ (fun d r hr => ?_) _
      · have htext : EncodableText (unreadableText item.domain "scan") := by
          rw [hitem]
          exact unreadableText_encodable hdomain "scan"
        exact iff_of_true ⟨_, rfl, (error_writable hunchecked _).mpr ⟨hwritable, htext⟩⟩ trivial
      · rw [true_and]
        exact afterScan_succeeds hshare hcheck hitem hdomain rfl hunchecked hwritable hr
    rw [hparse]
    constructor
    · rintro ⟨hlaunch, _, hreport⟩
      refine ⟨hlaunch, ?_, fun _ d hd => ⟨(hreport d hd).1, (hreport d hd).2.1⟩, fun _ => ?_⟩
      · rw [StepOutcome.note_of_rc_zero hrc]
        exact encodableText_nil
      · rintro ⟨d, items, hd, hitems, hne⟩
        exact (hreport d hd).2.2 items hitems hne
    · rintro ⟨hlaunch, _, hfits, hrows⟩
      refine ⟨hlaunch, trivial, fun d hd => ?_⟩
      obtain ⟨hconverts, hencodes⟩ := hfits hrc d hd
      exact ⟨hconverts, hencodes, fun items hitems hne => hrows hrc ⟨d, items, hd, hitems, hne⟩⟩
  · rw [if_pos hrc]
    have herror : Succeeds (.ok ({ DomRecord.blank item.domain with scanRc := some e.scan.rc },
        [failedText item.domain "scan" e.scan.rc (e.scan.note e.scanBudget)]) : Result Recorded)
        Writable ↔ EncodableText (e.scan.note e.scanBudget) := by
      rw [succeeds_ok, error_writable hunchecked, hitem, failedText_encodable hdomain]
      rw [hitem] at hwritable
      exact and_iff_right hwritable
    constructor
    · rintro ⟨hlaunch, hrest⟩
      exact ⟨hlaunch, herror.mp hrest, fun hzero => absurd hzero hrc, fun hzero => absurd hzero hrc⟩
    · rintro ⟨hlaunch, hnote, _⟩
      exact ⟨hlaunch, herror.mpr hnote⟩

end Steps

/-! ## The run -/

/-- A report is malformed when it is no object with `strategies` or its fields do not convert. -/
def Malformed (env : RunEnv) (C : Dict → Prop) (report : Option Json) : Prop :=
  ∀ d, reportObject env.loads report = some d → ¬C d

/-- What a run owes its domains: one record each, in order, of what the domain's own steps gave, and
an error for a malformed report. -/
structure Isolated (env : RunEnv) (settings : Dict) (runs : List Planned) (result : RunResult) :
    Prop where
  order : result.domains.map (·.domain) = runs.map (·.domain)
  own : List.Forall₂ (fun q dom => dom.scanRc = some (env.events q.2).scan.rc ∧
      Succeeds (domainStep env settings q.1 (env.events q.2)) fun r =>
        r.1 = dom ∧ ∀ t ∈ r.2, t ∈ result.errors)
    runs.zipIdx result.domains
  scans : ∀ q ∈ runs.zipIdx, (env.events q.2).scan.rc = 0 →
    Malformed env ScanConverts (env.events q.2).scanReport →
      unreadableText q.1.domain "scan" ∈ result.errors
  checks : ∀ q ∈ runs.zipIdx, (env.events q.2).scan.rc = 0 →
    HasRows env (env.events q.2).scanReport → (env.events q.2).check.rc = 0 →
      Malformed env CheckConverts (env.events q.2).checkReport →
        unreadableText q.1.domain "check" ∈ result.errors

/-- Every domain fits, and so do the texts that the result takes from the settings. -/
structure RunFits (env : RunEnv) (settings : Dict) (runs : List Planned) : Prop where
  runId : EncodableText env.runId
  settings : ∀ key ∈ settingsKeys, (settings.get0 key).encodable = true
  plans : ∀ item ∈ runs, item.json.encodable = true
  domains : ∀ q ∈ runs.zipIdx, DomainFits env q.1 (env.events q.2)

section Run

variable {env : RunEnv} {settings : Dict} {runs : List Planned} {item : Planned} {e : Events}

theorem runStep_eq_ok {cmd : List Json} (htexts : Texts cmd) {budget : Printed}
    {outcome : StepOutcome} {r : Int × Str} (h : runStep cmd budget outcome = .ok r) :
    r = (outcome.rc, outcome.note budget) :=
  ((runStep_succeeds htexts (P := fun r' => r = r')).mp ⟨r, h, rfl⟩).2

/-- What the later parts of a turn keep of a record. -/
def SameStep (r dom : DomRecord) : Prop := r.domain = dom.domain ∧ r.scanRc = dom.scanRc

theorem afterCheck_same {dom : DomRecord} {report : Option CheckReport} {r : Recorded}
    (h : afterCheck env settings dom report = .ok r) : SameStep r.1 dom := by
  cases report with
  | none =>
    cases h
    exact ⟨rfl, rfl⟩
  | some check =>
    obtain ⟨rows, _, h⟩ := bind_eq_ok.mp h
    cases h
    exact ⟨rfl, rfl⟩

theorem checkStep_same {dom : DomRecord} {r : Recorded}
    (h : checkStep env settings item e dom = .ok r) : SameStep r.1 dom := by
  obtain ⟨⟨rc, note⟩, _, h⟩ := bind_eq_ok.mp h
  dsimp only at h
  by_cases hrc : rc = 0
  · rw [if_neg (not_not_intro hrc)] at h
    obtain ⟨report, _, h⟩ := bind_eq_ok.mp h
    have hsame := afterCheck_same h
    exact ⟨hsame.1, hsame.2⟩
  · rw [if_pos hrc] at h
    cases h
    exact ⟨rfl, rfl⟩

theorem afterScan_same {dom : DomRecord} {report : Option ScanReport} {r : Recorded}
    (h : afterScan env settings item e dom report = .ok r) : SameStep r.1 dom := by
  cases report with
  | none =>
    cases h
    exact ⟨rfl, rfl⟩
  | some scan =>
    unfold afterScan at h
    dsimp only at h
    by_cases hempty : scan.strategies = []
    · rw [if_pos hempty] at h
      cases h
      exact ⟨rfl, rfl⟩
    · rw [if_neg hempty] at h
      have hsame := checkStep_same h
      exact ⟨hsame.1, hsame.2⟩

/-- A record has the domain and the exit code of its own step. -/
theorem domainStep_own (hscan : Texts item.scan) {r : Recorded}
    (h : domainStep env settings item e = .ok r) :
    r.1.domain = item.domain ∧ r.1.scanRc = some e.scan.rc := by
  obtain ⟨⟨rc, note⟩, hstep, h⟩ := bind_eq_ok.mp h
  cases runStep_eq_ok hscan hstep
  dsimp only at h
  by_cases hrc : e.scan.rc = 0
  · rw [if_neg (not_not_intro hrc)] at h
    obtain ⟨report, _, h⟩ := bind_eq_ok.mp h
    exact afterScan_same h
  · rw [if_pos hrc] at h
    cases h
    exact ⟨rfl, rfl⟩

omit [Tables] in
/-- A parser that returns from a malformed report returns none. -/
theorem parse_malformed {ρ : Type} {report : Dict → Result ρ} {C : Dict → Prop}
    (hconverts : ∀ d, (∃ r, report d = .ok r) ↔ C d) {object : Option Dict} {r : Option ρ}
    (h : (match object with
      | none => .ok none
      | some d => (report d).map some : Result (Option ρ)) = .ok r)
    (hmalformed : ∀ d, object = some d → ¬C d) : r = none := by
  cases object with
  | none =>
    cases h
    rfl
  | some d =>
    dsimp only at h
    cases hd : report d with
    | error err =>
      rw [hd] at h
      cases h
    | ok x => exact absurd ((hconverts d).mp ⟨x, hd⟩) (hmalformed d rfl)

/-- After a scan that has not failed its report is read. -/
theorem domainStep_scanned (hscan : Texts item.scan) {r : Recorded}
    (h : domainStep env settings item e = .ok r) (hrc : e.scan.rc = 0) :
    ∃ report, parseScanReport env.loads e.scanReport = .ok report ∧
      afterScan env settings item e { DomRecord.blank item.domain with scanRc := some e.scan.rc }
        report = .ok r := by
  obtain ⟨⟨rc, note⟩, hstep, h⟩ := bind_eq_ok.mp h
  cases runStep_eq_ok hscan hstep
  dsimp only at h
  rw [if_neg (not_not_intro hrc)] at h
  exact bind_eq_ok.mp h

/-- A malformed scan report is an error, if the run goes on. -/
theorem domainStep_malformed (hscan : Texts item.scan) {r : Recorded}
    (h : domainStep env settings item e = .ok r) (hrc : e.scan.rc = 0)
    (hmalformed : Malformed env ScanConverts e.scanReport) :
    unreadableText item.domain "scan" ∈ r.2 := by
  obtain ⟨report, hreport, h⟩ := domainStep_scanned hscan h hrc
  obtain rfl : report = none := parse_malformed (fun d => scanReport_ok_iff) hreport hmalformed
  cases h
  exact List.mem_singleton_self _

theorem checkStep_malformed (hcheck : Texts item.check) {dom : DomRecord}
    (hsame : dom.domain = item.domain) {r : Recorded}
    (h : checkStep env settings item e dom = .ok r) (hrc : e.check.rc = 0)
    (hmalformed : Malformed env CheckConverts e.checkReport) :
    unreadableText item.domain "check" ∈ r.2 := by
  obtain ⟨⟨rc, note⟩, hstep, h⟩ := bind_eq_ok.mp h
  cases runStep_eq_ok hcheck hstep
  dsimp only at h
  rw [if_neg (not_not_intro hrc)] at h
  obtain ⟨report, hreport, h⟩ := bind_eq_ok.mp h
  obtain rfl : report = none := parse_malformed (fun d => checkReport_ok_iff) hreport hmalformed
  cases h
  rw [← hsame]
  exact List.mem_singleton_self _

/-- So is a malformed check report. -/
theorem domainStep_malformed_check (hscan : Texts item.scan) (hcheck : Texts item.check)
    {r : Recorded} (h : domainStep env settings item e = .ok r) (hrc : e.scan.rc = 0)
    (hrows : HasRows env e.scanReport) (hrc' : e.check.rc = 0)
    (hmalformed : Malformed env CheckConverts e.checkReport) :
    unreadableText item.domain "check" ∈ r.2 := by
  obtain ⟨report, hreport, h⟩ := domainStep_scanned hscan h hrc
  obtain ⟨d, items, hd, hitems, hne⟩ := hrows
  unfold parseScanReport at hreport
  rw [hd] at hreport
  dsimp only at hreport
  cases hparsed : scanReport d with
  | error err =>
    rw [hparsed] at hreport
    cases hreport
  | ok scan =>
    rw [hparsed] at hreport
    cases hreport
    obtain ⟨items', hitems', hiff⟩ := scanReport_rows hparsed
    rw [hitems] at hitems'
    cases hitems'
    unfold afterScan at h
    dsimp only at h
    rw [if_neg (mt hiff.mp hne)] at h
    exact checkStep_malformed hcheck rfl h hrc' hmalformed

omit [Tables] in
theorem settingsKeys_encodable : ∀ key ∈ settingsKeys, EncodableText key := by decide

omit [Tables] in
/-- What the members of a result need to be encoded. -/
theorem result_members {r : RunResult} : r.json.encodable = true ↔ EncodableText r.runId ∧
    r.queue.encodable = true ∧ (Json.obj r.settings).encodable = true ∧
      (∀ item ∈ r.plans, item.json.encodable = true) ∧
      (∀ dom ∈ r.domains, dom.json.encodable = true) ∧ ∀ t ∈ r.errors, EncodableText t := by
  simp [RunResult.json, member, r.startedAt.2, r.finishedAt.2, r.log.2, -List.mem_map,
    List.forall_mem_map]

omit [Tables] in
theorem result_encodable {records : List Recorded}
    (hqueue : (settings.get (lit "queue") (.int bcwQueueFixed)).encodable = true) :
    (resultOf env settings runs records).json.encodable = true ↔ EncodableText env.runId ∧
      (∀ key ∈ settingsKeys, (settings.get0 key).encodable = true) ∧
      (∀ item ∈ runs, item.json.encodable = true) ∧ ∀ r ∈ records, Writable r := by
  have hsettings : (Json.obj (settingsKeys.map fun key => (key, settings.get0 key))).encodable =
      true ↔ ∀ key ∈ settingsKeys, (settings.get0 key).encodable = true := by
    rw [Json.encodable_obj, List.forall_mem_map]
    exact forall₂_congr fun key hkey => and_iff_right (settingsKeys_encodable key hkey)
  have hrecords : ((∀ dom ∈ records.map (·.1), dom.json.encodable = true) ∧
      ∀ t ∈ records.flatMap (·.2), EncodableText t) ↔ ∀ r ∈ records, Writable r := by
    rw [List.forall_mem_map]
    constructor
    · exact fun ⟨hjson, htexts⟩ r hr =>
        ⟨hjson r hr, fun t ht => htexts t (List.mem_flatMap.mpr ⟨r, hr, ht⟩)⟩
    · intro h
      refine ⟨fun r hr => (h r hr).1, fun t ht => ?_⟩
      obtain ⟨r, hr, ht⟩ := List.mem_flatMap.mp ht
      exact (h r hr).2 t ht
  rw [result_members, ← hrecords, ← hsettings]
  exact and_congr_right fun _ => and_iff_right hqueue

/-- The parts of a run that the settings alone decide. -/
structure RunPlanned (settings : Dict) (runDir : Str) (p : RunPlan) : Prop where
  plan : plan settings runDir = .ok p
  texts : ∀ item ∈ p.runs, IsText item.domain ∧ Texts item.scan ∧ Texts item.check
  order : settings.lookup (lit "domains") = some (.arr (p.runs.map (·.domain)))
  share : ∃ x, floatField settings "min_share" = .ok x
  timeout : ∃ x, (settings.get (lit "job_timeout") (.int 3600)).toFloat = .ok x
  queue : (settings.get (lit "queue") (.int bcwQueueFixed)).encodable = true

theorem run_planned (h : Values Clean settingsSpec settings) (runDir : Str) :
    ∃ p, RunPlanned settings runDir p := by
  have hplannable := plannable_of_clean h
  obtain ⟨domains, hdomains⟩ := hplannable.domains
  obtain ⟨p, hp, hall⟩ := plan_ok hplannable hdomains runDir
  obtain ⟨queue, hqueue⟩ := hplannable.queue
  obtain ⟨share, hshare, _, _, x, _, _, rfl, _⟩ := h _ (List.mem_of_getElem? (i := 21) rfl)
  obtain ⟨seconds, hseconds, hlow, hhigh⟩ := values_int h
    (show intSpec "job_timeout" 3600 60 14400 ∈ settingsSpec from
      List.mem_of_getElem? (i := 27) rfl)
  refine ⟨p, hp, ?_, ?_, ?_, ?_, ?_⟩
  · have hmem : ∀ item ∈ p.runs, ∃ domain ∈ domains.map Json.str,
        Planned.IsPlan item settings runDir domain := by
      intro item hitem
      obtain ⟨i, hi, rfl⟩ := List.mem_iff_getElem.mp hitem
      have hi' : i < (domains.map Json.str).length := by rwa [hall.length_eq]
      exact ⟨_, List.getElem_mem hi', List.Forall₂.get hall hi' hi⟩
    intro item hitem
    obtain ⟨domain, hdomain, hplan⟩ := hmem item hitem
    obtain ⟨text, _, rfl⟩ := List.mem_map.mp hdomain
    exact ⟨⟨text, hplan.domain⟩, hplan.scan, hplan.check⟩
  · have horder : p.runs.map (·.domain) = domains.map .str := by
      generalize domains.map Json.str = items, p.runs = runs at hall ⊢
      induction hall with
      | nil => rfl
      | cons hplan _ ih => rw [List.map_cons, ih, hplan.domain]
    rw [horder, hdomains]
  · have hvalue : ∃ y, ((Json.float (.fin x)).or (.float (.fin 0))).toFloat = .ok y := by
      unfold Json.or
      split <;> exact ⟨_, rfl⟩
    obtain ⟨y, hy⟩ := hvalue
    exact ⟨y, by rw [floatField, get_of_lookup hshare]; exact hy⟩
  · obtain ⟨n, rfl⟩ := Int.eq_ofNat_of_zero_le (by omega : 0 ≤ seconds)
    obtain ⟨y, hy⟩ := floatOfInt_ok (n := n) (by omega)
    exact ⟨y, by rw [get_of_lookup hseconds]; exact hy⟩
  · rw [get_of_lookup hqueue]
    rfl

/-- The run, once it is planned. -/
theorem run_eq {runDir : Str} {p : RunPlan} (hp : RunPlanned settings runDir p)
    {records : List Recorded}
    (hrecords : (p.runs.zipIdx.mapM fun q => domainStep env settings q.1 (env.events q.2)) =
      .ok records) :
    run env settings runDir = .ok (resultOf env settings p.runs records,
      if (resultOf env settings p.runs records).json.encodable then
        some (resultOf env settings p.runs records).json else none) := by
  obtain ⟨x, hx⟩ := hp.timeout
  exact bind_eq_ok.mpr ⟨x, hx, bind_eq_ok.mpr ⟨p, hp.plan, bind_eq_ok.mpr ⟨records, hrecords, rfl⟩⟩⟩

/-- What a run that returns has done. -/
theorem run_eq_ok {runDir : Str} {p : RunPlan} (hp : RunPlanned settings runDir p)
    {out : RunResult × Option Json} (h : run env settings runDir = .ok out) :
    ∃ records, (p.runs.zipIdx.mapM fun q => domainStep env settings q.1 (env.events q.2)) =
      .ok records ∧ out.1 = resultOf env settings p.runs records := by
  obtain ⟨x, _, h⟩ := bind_eq_ok.mp h
  obtain ⟨p', hp', h⟩ := bind_eq_ok.mp h
  obtain ⟨records, hrecords, h⟩ := bind_eq_ok.mp h
  rw [hp.plan] at hp'
  cases hp'
  cases h
  exact ⟨records, hrecords, rfl⟩

/-- **Which runs return and write their result.** -/
theorem run_writes_iff {runDir : Str} {p : RunPlan} (hp : RunPlanned settings runDir p) :
    (∃ result, run env settings runDir = .ok (result, some result.json)) ↔
      RunFits env settings p.runs := by
  obtain ⟨x, hshare⟩ := hp.share
  have hmem : ∀ q ∈ p.runs.zipIdx, q.1 ∈ p.runs := fun q hq => List.fst_mem_of_mem_zipIdx hq
  have hdomains (hplans : ∀ item ∈ p.runs, item.json.encodable = true) :
      Succeeds (p.runs.zipIdx.mapM fun q => domainStep env settings q.1 (env.events q.2))
        (fun records => ∀ r ∈ records, Writable r) ↔
        ∀ q ∈ p.runs.zipIdx, DomainFits env q.1 (env.events q.2) := by
    rw [succeeds_mapM]
    refine forall₂_congr fun q hq => ?_
    obtain ⟨⟨domain, hdomain⟩, hscan, hcheck⟩ := hp.texts q.1 (hmem q hq)
    have hencodable : EncodableText domain := by
      have hjson := hplans q.1 (hmem q hq)
      rw [Planned.json, Json.encodable_obj, List.forall_mem_cons, hdomain] at hjson
      simpa [member] using hjson.1
    exact domainStep_succeeds hshare hscan hcheck hdomain hencodable
  constructor
  · rintro ⟨result, hrun⟩
    obtain ⟨records, hrecords, hresult⟩ := run_eq_ok hp hrun
    have hjson : (resultOf env settings p.runs records).json.encodable = true := by
      by_contra hnot
      rw [run_eq hp hrecords, if_neg hnot] at hrun
      cases hrun
    obtain ⟨hrunId, hsettings, hplans, hwritable⟩ := (result_encodable hp.queue).mp hjson
    exact ⟨hrunId, hsettings, hplans, (hdomains hplans).mp ⟨records, hrecords, hwritable⟩⟩
  · intro h
    obtain ⟨records, hrecords, hwritable⟩ := (hdomains h.plans).mpr h.domains
    have hjson : (resultOf env settings p.runs records).json.encodable = true :=
      (result_encodable hp.queue).mpr ⟨h.runId, h.settings, h.plans, hwritable⟩
    exact ⟨_, (run_eq hp hrecords).trans (by rw [if_pos hjson])⟩

omit [Tables] in
theorem map_eq_of_forall₂ {α β γ : Type} {f : α → γ} {g : β → γ} {as : List α} {bs : List β}
    (h : List.Forall₂ (fun a b => g b = f a) as bs) : as.map f = bs.map g := by
  induction h with
  | nil => rfl
  | cons hhead _ ih => rw [List.map_cons, List.map_cons, ih, hhead]

/-- What a run wrote is its result. -/
theorem run_written {runDir : Str} {p : RunPlan} (hp : RunPlanned settings runDir p)
    {out : RunResult × Option Json} (h : run env settings runDir = .ok out)
    (hsome : out.2.isSome = true) : out = (out.1, some out.1.json) := by
  obtain ⟨records, hrecords, _⟩ := run_eq_ok hp h
  rw [run_eq hp hrecords] at h
  cases h
  dsimp only at hsome ⊢
  by_cases hjson : (resultOf env settings p.runs records).json.encodable = true
  · rw [if_pos hjson]
  · rw [if_neg hjson] at hsome
    cases hsome

/-- A run that returns has a record for each domain. -/
theorem run_isolated {runDir : Str} {p : RunPlan} (hp : RunPlanned settings runDir p)
    {out : RunResult × Option Json} (h : run env settings runDir = .ok out) :
    Isolated env settings p.runs out.1 := by
  obtain ⟨records, hrecords, hout⟩ := run_eq_ok hp h
  have hmem : ∀ q ∈ p.runs.zipIdx, q.1 ∈ p.runs := fun q hq => List.fst_mem_of_mem_zipIdx hq
  have htexts : ∀ q ∈ p.runs.zipIdx, Texts q.1.scan ∧ Texts q.1.check :=
    fun q hq => (hp.texts q.1 (hmem q hq)).2
  have herrors : ∀ r ∈ records, ∀ t ∈ r.2, t ∈ out.1.errors := by
    intro r hr t ht
    rw [hout]
    exact List.mem_flatMap.mpr ⟨r, hr, ht⟩
  constructor
  · have hdomains : List.Forall₂ (fun q r => r.1.domain = q.1.domain) p.runs.zipIdx records :=
      forall₂_of_mapM hrecords fun q hq r _ hr => (domainStep_own (htexts q hq).1 hr).1
    rw [hout]
    calc (records.map (·.1)).map (·.domain)
        = records.map (·.1.domain) := List.map_map
      _ = p.runs.zipIdx.map (·.1.domain) := (map_eq_of_forall₂ hdomains).symm
      _ = (p.runs.zipIdx.map (·.1)).map (·.domain) := List.map_map.symm
      _ = p.runs.map (·.domain) := by rw [List.zipIdx_map_fst]
  · rw [hout]
    refine List.forall₂_map_right_iff.mpr (forall₂_of_mapM hrecords fun q hq r hr hstep => ?_)
    refine ⟨(domainStep_own (htexts q hq).1 hstep).2, r, hstep, rfl, ?_⟩
    rw [← hout]
    exact herrors r hr
  · intro q hq hrc hmalformed
    obtain ⟨r, hr, hstep⟩ := mem_mapM_of_mem hrecords hq
    exact herrors r hr _ (domainStep_malformed (htexts q hq).1 hstep hrc hmalformed)
  · intro q hq hrc hrows hrc' hmalformed
    obtain ⟨r, hr, hstep⟩ := mem_mapM_of_mem hrecords hq
    exact herrors r hr _ (domainStep_malformed_check (htexts q hq).1 (htexts q hq).2 hstep hrc hrows
      hrc' hmalformed)

/-- **A run isolates its domains** exactly when every step and every text of it fits. -/
theorem run_isolates_iff (env : RunEnv) {environ : Str → Option Str} {file : SettingsFile}
    {n : Normalized} (h : settingsFromFile environ file = .ok n) (runDir : Str) :
    ∃ p, plan n.settings runDir = .ok p ∧
      n.settings.lookup (lit "domains") = some (.arr (p.runs.map (·.domain))) ∧
      ((∃ result, run env n.settings runDir = .ok (result, some result.json) ∧
        Isolated env n.settings p.runs result) ↔ RunFits env n.settings p.runs) := by
  obtain ⟨p, hp⟩ := run_planned (normalizeSettings_clean (defaults_clean environ) h) runDir
  refine ⟨p, hp.plan, hp.order, ?_⟩
  rw [← run_writes_iff hp]
  constructor
  · rintro ⟨result, hrun, _⟩
    exact ⟨result, hrun⟩
  · rintro ⟨result, hrun⟩
    exact ⟨result, hrun, run_isolated hp hrun⟩

end Run

omit [Tables] in
/-- A text that the system printed. -/
def printed (s : String) : Printed := ⟨lit s, encodableText_lit s⟩

/-- A run of which only the events of the domains matter. -/
def scannedEnv (events : Nat → Events) : RunEnv where
  loads _ := none
  sortNaN rows := ⟨rows, .refl rows⟩
  runId := lit "20260101-000000"
  startedAt := printed "01.01.2026 00:00:00"
  finishedAt := printed "01.01.2026 00:00:07"
  tookS := .fin 7
  log := printed ""
  events := events

/-- Both steps exit with 0 and leave these reports. -/
def reports (scan : Json) (check : Option Json) : Events :=
  ⟨.exit 0, printed "900", some scan, .exit 0, printed "900", check⟩

/-- A settings file with two domains. -/
def twoDomains : SettingsFile :=
  some [(lit "domains", .arr [.str (lit "example.com"), .str (lit "example.org")])]

/-- What the harness does with two domains. -/
def runTwo (events : Nat → Events) : Result (RunResult × Option Json) := do
  let n ← settingsFromFile (fun _ => none) twoDomains
  run (scannedEnv events) n.settings (lit "/run")

/-- The first scan leaves a list in place of a report. The second one finds a strategy, and its
check accepts it. -/
def malformedThenGood : Nat → Events
  | 0 => reports (.arr []) none
  | _ => reports (.obj [(lit "strategies", .arr [.obj [(lit "args", .str (lit "--lua-desync=a"))]])])
      (some (.obj [(lit "strategies", .arr [.obj [(lit "args", .str (lit "--lua-desync=a")),
        (lit "working", .bool true), (lit "passes_ok", .int 3), (lit "passes_total", .int 3)]])]))

omit [Tables] in
/-- The first domain has its error, and the second one its working strategy. -/
theorem run_isolates_iff_malformedThenGood :
    letI := Tables.ascii
    ∃ n p result, settingsFromFile (fun _ => none) twoDomains = .ok n ∧
      plan n.settings (lit "/run") = .ok p ∧
      run (scannedEnv malformedThenGood) n.settings (lit "/run") = .ok (result, some result.json) ∧
      result.errors = [lit "example.com: scan produced no readable report"] ∧
      result.domains.map (·.working.map (·.args)) = [[], [lit "--lua-desync=a"]] ∧
      RunFits (scannedEnv malformedThenGood) n.settings p.runs := by
  let _ := Tables.ascii
  have hwrites : letI := Tables.ascii
      (runTwo malformedThenGood).toOption.any (fun out => out.2.isSome &&
        (out.1.errors == [lit "example.com: scan produced no readable report"] &&
        out.1.domains.map (·.working.map (·.args)) == [[], [lit "--lua-desync=a"]])) = true := by
    decide +kernel
  cases hout : runTwo malformedThenGood with
  | error e =>
    rw [hout] at hwrites
    cases hwrites
  | ok out =>
    rw [hout] at hwrites
    obtain ⟨hsome, hfound⟩ := Bool.and_eq_true _ _ |>.mp hwrites
    obtain ⟨herrors, hworking⟩ := Bool.and_eq_true _ _ |>.mp hfound
    obtain ⟨n, hn, hrun⟩ := bind_eq_ok.mp hout
    obtain ⟨p, hp, _, hiff⟩ := run_isolates_iff (scannedEnv malformedThenGood) hn (lit "/run")
    obtain ⟨p', hp'⟩ := run_planned (normalizeSettings_clean (defaults_clean _) hn) (lit "/run")
    obtain rfl : p' = p := Except.ok.inj (hp'.plan.symm.trans hp)
    have hwritten : run (scannedEnv malformedThenGood) n.settings (lit "/run") =
        .ok (out.1, some out.1.json) := by
      rw [← run_written hp' hrun hsome]
      exact hrun
    exact ⟨n, p', out.1, hn, hp, hwritten, beq_iff_eq.mp herrors, beq_iff_eq.mp hworking,
      hiff.mp ⟨out.1, hwritten, run_isolated hp' hrun⟩⟩

/-- Every scan leaves a `total` that is no number. -/
def totalMany : Nat → Events := fun _ =>
  reports (.obj [(lit "strategies", .arr []), (lit "total", .str (lit "many"))]) none

omit [Tables] in
/-- **A report ends the run.** -/
theorem run_not_isolated :
    letI := Tables.ascii
    ∃ n, settingsFromFile (fun _ => none) twoDomains = .ok n ∧ n.errors = [] ∧
      ∀ out, run (scannedEnv totalMany) n.settings (lit "/run") ≠ .ok out := by
  let _ := Tables.ascii
  obtain ⟨n, hn, herrors⟩ : letI := Tables.ascii
      ∃ n, settingsFromFile (fun _ => none) twoDomains = .ok n ∧ n.errors = [] := ⟨_, rfl, rfl⟩
  have hraises : letI := Tables.ascii
      (runTwo totalMany).toOption.isSome = false := by decide +kernel
  refine ⟨n, hn, herrors, fun out hout => ?_⟩
  rw [runTwo, bind_eq_ok.mpr ⟨n, hn, hout⟩] at hraises
  cases hraises

end WebZapret.Selection
