import WebZapret.Panel.Collect
import WebZapret.Panel.Rewrites

/-!
# The answers of the catalog

What the handler sends for an import of test results and for a deletion. An import catches whatever
it raises, and what it reports has been written in UTF-8, so that it is always answered. A deletion
repeats the id.
-/

namespace WebZapret.Panel.Http

open Py Failing Selection Catalog Json

/-- `str(e)`; the exceptions that have no text here name types only. -/
def excText (other : Exc → Printed) : Exc → Str
  | .valueError text => text
  | e => (other e).1

/-- `{"ok": False, "error": error}` -/
def refusal (error : Str) : Dict := [member "ok" (.bool false), member "error" (.str error)]

variable [Tables]

/-- The dict of an answer; a deletion is printed before. -/
def answerDict (other : Exc → Printed) : Catalog.Answer → Result Dict
  | .ok (.imported []) => .error .indexError
  | .ok (.imported (first :: rest)) => .ok [member "ok" (.bool true), member "strategy" (.obj first),
      member "strategies" (.arr ((first :: rest).map .obj)), member "count" (.int (rest.length + 1))]
  | .ok (.deleted id left) => do
      printLine (lit "panel: strategy deleted: " ++ id)
      return [member "ok" (.bool true), member "id" (.str id), member "strategies" (.arr left)]
  | .ok (.selected ids entries skipped) => (Imported.done ids entries skipped).dict
  | .refused error _ => .ok (refusal error)
  | .failed e => .ok (refusal (excText other e))
  | .raised e => .error e

/-- `write_json` of the catalog, on a disk that may fail. -/
def saves (disk : Bool) (v : Catalog.Stored) : Bool := disk && v.all Json.encodable

/-- What `import_strategy_from_json` and `delete_strategy` return. -/
def changed (other : Exc → Printed) (disk : Bool) (stored : Catalog.Stored)
    (task : Task Catalog.Stored Catalog.Answer) : Result Dict :=
  answerDict other (task.answer (saves disk) stored)

/-! ## The exceptions of an import -/

omit [Tables] in
theorem encodable_refusal {error : Str} :
    (Json.obj (refusal error)).encodable = true ↔ EncodableText error := by
  simp [refusal, member]

omit [Tables] in
theorem refusal_sent {error : Str} (h : EncodableText error) :
    Succeeds (.ok (refusal error) : Result Dict) fun res => (Json.obj res).encodable = true :=
  succeeds_ok.mpr (encodable_refusal.mpr h)

omit [Tables] in
theorem encodableText_excText (other : Exc → Printed) {e : Exc} (h : e.Encodes) :
    EncodableText (excText other e) := by
  cases e with
  | valueError text => exact h
  | typeError => exact (other _).2
  | attributeError => exact (other _).2
  | keyError => exact (other _).2
  | overflowError => exact (other _).2
  | indexError => exact (other _).2
  | unboundLocalError name => exact (other _).2

omit [Tables] in
theorem errorEncodes_dict (x : Json) : ErrorEncodes x.dict := by
  intro e h
  cases x <;> cases h <;> trivial

omit [Tables] in
theorem errorEncodes_iter (x : Json) : ErrorEncodes x.iter := by
  intro e h
  cases x <;> cases h <;> trivial

omit [Tables] in
theorem errorEncodes_rankKey (row : Dict) : ErrorEncodes (rankKey row) := by
  unfold rankKey
  refine ErrorEncodes.bind ?_ fun rate => errorEncodes_ok
  intro e h
  unfold Json.neg at h
  split at h <;> cases h
  trivial

omit [Tables] in
theorem errorEncodes_formatPercent (places : Nat) (x : Json) :
    ErrorEncodes (x.formatPercent places) := by
  have hfloat (i : Int) : ErrorEncodes (floatOfInt i) := by
    intro e h
    unfold floatOfInt at h
    split at h
    · cases h
      trivial
    · cases h
  intro e h
  cases x with
  | int i =>
    change (floatOfInt (i * 100)).map _ = .error e at h
    cases hvalue : floatOfInt (i * 100) with
    | ok x =>
      rw [hvalue] at h
      cases h
    | error e' =>
      rw [hvalue] at h
      cases h
      exact hfloat _ _ hvalue
  | bool b => cases h
  | float x => cases h
  | null => cases h; trivial
  | str s => cases h; trivial
  | arr items => cases h; trivial
  | obj members => cases h; trivial

omit [Tables] in
theorem errorEncodes_split (s : Str) : ErrorEncodes (Shlex.split s) := by
  intro e h
  obtain ⟨text, rfl⟩ := Shlex.split_error h
  exact encodableText_lit text

/-- `sorted` of keys that are not all numbers raises a `TypeError`. -/
def Sorts (env : ImportEnv) : Prop := ∀ keyed, ErrorEncodes (env.sortOther keyed)

omit [Tables] in
theorem errorEncodes_ranked {env : ImportEnv} (hsorts : Sorts env) (rows : List Json) :
    ErrorEncodes (ranked env rows) := by
  unfold ranked
  refine ErrorEncodes.bind (errorEncodes_mapM fun s => ?_) fun keyed => ?_
  · refine (errorEncodes_dict s).bind fun row => ?_
    exact (errorEncodes_rankKey row).bind fun _ => errorEncodes_ok
  split
  · exact errorEncodes_ok
  split
  · exact errorEncodes_ok
  · exact (hsorts keyed).bind fun _ => errorEncodes_ok

theorem importBatch_errorEncodes {env : ImportEnv} (hsorts : Sorts env) (data : Json) :
    ErrorEncodes (importBatch env data) := by
  have hdomain (data : Dict) : ErrorEncodes (importDomain data) := by
    intro e h
    unfold importDomain at h
    split at h
    · cases h
    · cases h
      trivial
  have hdate (timestamp : Json) : ErrorEncodes (dateSlug env timestamp) := by
    intro e h
    unfold dateSlug at h
    split at h
    · split at h <;> cases h <;> trivial
    · cases h
  refine (errorEncodes_dict data).bind fun data => ?_
  dsimp only
  split
  · exact errorEncodes_ok
  refine (errorEncodes_iter _).bind fun rows => (errorEncodes_ranked hsorts rows).bind fun rows => ?_
  exact (hdomain data).bind fun _ => (hdate _).bind fun _ => errorEncodes_ok

theorem addBatch_errorEncodes [EncodableTables] (env : ImportEnv) (batch : Batch)
    (stored : Catalog.Stored) : ErrorEncodes (addBatch env batch stored) := by
  have hargs (row : Dict) : ErrorEncodes (importArgs row) := by
    intro e h
    unfold importArgs at h
    split at h
    · split at h
      · cases h
        exact encodableText_lit _
      · cases h
    · cases h
      exact encodableText_lit _
  have hwithout (value : Json) (id : Str) : ErrorEncodes (withoutId value id) :=
    ((errorEncodes_iter value).bind fun _ => errorEncodes_mapM errorEncodes_dict).bind
      fun _ => errorEncodes_ok
  refine (errorEncodes_dict _).bind fun members => ErrorEncodes.bind ?_ fun _ => errorEncodes_ok
  refine errorEncodes_foldlM fun acc row => ErrorEncodes.bind ?_ fun entry => ?_
  · refine (hargs _).bind fun args => (errorEncodes_split args).bind fun tokens => ?_
    refine ErrorEncodes.bind (fun _ => toInt_error_encodes) fun latency => ?_
    exact (errorEncodes_formatPercent 1 _).bind fun _ => errorEncodes_ok
  · exact (hwithout _ _).bind fun _ => errorEncodes_ok

/-! ## What is sent -/

/-- **An import is answered**, whatever is imported. -/
theorem import_sent [EncodableTables] {env : ImportEnv} (hsorts : Sorts env) (other : Exc → Printed)
    (disk : Bool) (stored : Catalog.Stored) (data : Json) :
    Succeeds (changed other disk stored (importStrategyFromJson env data))
      fun res => (Json.obj res).encodable = true := by
  unfold changed importStrategyFromJson
  cases hbatch : importBatch env data with
  | error e =>
    have hencodes := importBatch_errorEncodes hsorts data e hbatch
    exact refusal_sent (encodableText_excText other hencodes)
  | ok found =>
    cases found with
    | none => exact refusal_sent (encodableText_lit _)
    | some batch =>
      dsimp only
      rw [Task.answer]
      cases hadd : addBatch env batch stored with
      | error e =>
        have hencodes := addBatch_errorEncodes env batch stored e hadd
        exact refusal_sent (encodableText_excText other hencodes)
      | ok added =>
        obtain ⟨catalog, imported⟩ := added
        dsimp only
        rw [Task.answer]
        by_cases hsaves : saves disk (some catalog) = true
        · -- what has been written can be encoded, and the imported entries are in it
          rw [if_pos hsaves]
          obtain ⟨hentries, old, _, members, hmembers, hlookup⟩ := addBatch_holds hbatch hadd
          cases hmembers
          have hcatalog : (Json.obj members).encodable = true := by
            rw [saves, Bool.and_eq_true] at hsaves
            exact hsaves.2
          have hall := (encodable_obj.mp hcatalog _ (Dict.mem_of_lookup hlookup)).2
          rw [encodable_arr, List.forall_mem_map] at hall
          have himported : ∀ s ∈ imported, (Json.obj s).encodable = true :=
            fun s hs => hall s (List.mem_append_right _ hs)
          have hne : imported ≠ [] := by
            have hlength := length_of_mapM hentries
            intro hnil
            rw [hnil] at hlength
            exact importBatch_rows hbatch (by
              rw [List.zipIdx_eq_nil_iff]
              simpa using hlength.symm)
          cases imported with
          | nil => exact absurd rfl hne
          | cons first rest =>
            refine ⟨_, rfl, encodable_obj.mpr ?_⟩
            simp only [member, List.forall_mem_cons, encodableText_lit, encodable_bool, encodable_int,
              true_and, encodable_arr]
            exact ⟨himported first List.mem_cons_self, List.forall_mem_map.mpr himported,
              List.forall_mem_nil _⟩
        · rw [if_neg hsaves]
          exact refusal_sent (encodableText_lit _)

omit [Tables] in
/-- **A deletion is answered when the id can be encoded.** -/
theorem delete_sent_iff {stored : Catalog.Stored} {entries : List Dict}
    (hstored : Readable stored entries) (other : Exc → Printed) (disk : Bool) (cur sid : Str) :
    Succeeds (changed other disk stored (deleteId cur sid))
      (fun res => (Json.obj res).encodable = true) ↔ EncodableText sid := by
  unfold changed deleteId
  rw [Task.answer, hstored.holds.strategyIds]
  dsimp only
  by_cases hknown : HasId (entries.map idOf) sid
  · have hsid : EncodableText sid := hstored.encodable_id hknown
    refine iff_of_true ?_ hsid
    rw [if_pos hknown]
    unfold deleteChecked
    split
    · exact refusal_sent (encodableText_lit _)
    rw [Task.answer, activeStrategy_of_holds hstored.holds]
    dsimp only
    generalize (if HasId (entries.map idOf) cur then cur else []) = active
    split
    · exact refusal_sent (encodableText_lit _)
    obtain ⟨members, rfl, hlookup⟩ := hstored.holds
    rw [deleteDrop, Task.answer, dropStrategy_of_holds hlookup]
    dsimp only
    rw [Task.answer]
    split
    · have hline : printLine (lit "panel: strategy deleted: " ++ sid) = .ok () :=
        if_pos (encodableText_append.mpr ⟨encodableText_lit _, hsid⟩)
      refine ⟨_, bind_eq_ok.mpr ⟨(), hline, rfl⟩, ?_⟩
      have hleft : ∀ s ∈ entries, (s.get0 (lit "id")).encodable = true :=
        fun s hs => encodable_get (hstored.encodable s hs) rfl _
      simp only [member, encodable_obj, List.forall_mem_cons, encodableText_lit, encodable_bool,
        true_and, encodable_str, encodable_arr, List.forall_mem_map]
      exact ⟨hsid, fun s hs => hleft s (List.mem_filter.mp hs).1, List.forall_mem_nil _⟩
    · exact refusal_sent (encodableText_lit _)
  · rw [if_neg hknown]
    change Succeeds (.ok (refusal _) : Result Dict) _ ↔ _
    rw [succeeds_ok, encodable_refusal]
    simp [encodableText_append]

end WebZapret.Panel.Http
