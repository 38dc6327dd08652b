import WebZapret.Catalog.Ids
import WebZapret.Catalog.ValidateArgs

/-!
# The loop of `plan_import`

The loop goes through the rows of all domains (`resultRows`), and each of them is either taken or
skipped (`Handles`). `planImport_eq_ok` says that this is all that `plan_import` does; what holds of
its accumulators follows by induction on the rows that are handled.
-/

namespace WebZapret.Catalog

open Py Failing

/-! ## Rows -/

/-- What happens to a row: it becomes an entry, or a skipped row. -/
inductive Fate where
  | taken (entry : Dict)
  | skipped (row : Dict)

def Fate.entry : Fate → Option Dict
  | .taken entry => some entry
  | .skipped _ => none

def Fate.skip : Fate → Option Dict
  | .taken _ => none
  | .skipped row => some row

@[simp] theorem filterMap_entry_taken (e : Dict) : [Fate.taken e].filterMap Fate.entry = [e] := rfl

@[simp] theorem filterMap_entry_skipped (s : Dict) : [Fate.skipped s].filterMap Fate.entry = [] := rfl

/-- The reason of a row over the cap. -/
def capReason (limit : Int) : Str :=
  lit "over max_import=" ++ intStr limit ++ lit " for this protocol"

variable [Tables]

/-- The rows of a domain, with it. -/
def domainRows (dom : Json) : Result (List (Dict × Dict)) := do
  let dom ← dom.dict
  let rows ← ((dom.get0 (lit "working")).or (.arr [])).iter
  return (← rows.mapM Json.dict).map fun row => (dom, row)

/-- The rows of a result, each with its domain. -/
def resultRows (result : Json) : Result (List (Dict × Dict)) := do
  return (← (← resultDomains result).mapM domainRows).flatten

/-- `str(dom.get("domain", ""))` -/
def domainText (dom : Dict) : Str := (dom.get (lit "domain") (.str [])).text

/-- The plan after a row that is taken. -/
def Plan.take (p : Plan) (id args protocol : Str) (entry : Dict) : Plan where
  entries := p.entries ++ [entry]
  skipped := p.skipped
  perProtocol := (protocol, p.count protocol + 1) :: p.perProtocol
  knownArgs := p.knownArgs ++ [args]
  knownIds := p.knownIds ++ [id]

/-- The id of an entry for a row. -/
def Plan.idFor (env : PlanEnv) (p : Plan) (dom row : Dict) : Str :=
  freshId p.knownIds (env.idPrefix ++ lit "_" ++ slug (domainText dom) 20 ++ lit "_" ++
    slug (rowProtocol row) 16)

/-- What the loop does with a row of a domain. -/
inductive Handles (env : PlanEnv) (p : Plan) (dom row : Dict) : Fate → Plan → Prop where
  | unusable {reason : Str} {s : Dict}
      (hargs : validateArgs (row.get (lit "args") (.str [])) = .error (.valueError reason))
      (hs : s = skippedRow (domainText dom) (rowProtocol row)
        (row.get (lit "args") (.str [])).text reason) :
      Handles env p dom row (.skipped s) (p.skip s)
  | known {args : Str} {s : Dict}
      (hargs : validateArgs (row.get (lit "args") (.str [])) = .ok args)
      (hknown : args ∈ p.knownArgs)
      (hs : s = skippedRow (domainText dom) (rowProtocol row) args (lit "already in the catalog")) :
      Handles env p dom row (.skipped s) (p.skip s)
  | capped {args : Str} {s : Dict}
      (hargs : validateArgs (row.get (lit "args") (.str [])) = .ok args)
      (hnew : args ∉ p.knownArgs)
      (hcap : env.limit ≠ 0 ∧ p.count (rowProtocol row) ≥ env.limit)
      (hs : s = skippedRow (domainText dom) (rowProtocol row) args (capReason env.limit)) :
      Handles env p dom row (.skipped s) (p.skip s)
  | taken {args desc : Str} {entry : Dict}
      (hargs : validateArgs (row.get (lit "args") (.str [])) = .ok args)
      (hnew : args ∉ p.knownArgs)
      (hcap : ¬(env.limit ≠ 0 ∧ p.count (rowProtocol row) ≥ env.limit))
      (hdesc : entryDesc row (domainText dom) = .ok desc)
      (hentry : entry = planEntry env (p.idFor env dom row) desc args (rowProtocol row)
        (domainText dom) dom row) :
      Handles env p dom row (.taken entry)
        (p.take (p.idFor env dom row) args (rowProtocol row) entry)

/-- The rows are handled one after the other. -/
inductive Handled (env : PlanEnv) : Plan → List (Dict × Dict) → List Fate → Plan → Prop where
  | nil {p : Plan} : Handled env p [] [] p
  | cons {p q r : Plan} {row : Dict × Dict} {rows : List (Dict × Dict)} {fate : Fate}
      {fates : List Fate} (hrow : Handles env p row.1 row.2 fate q)
      (hrows : Handled env q rows fates r) :
      Handled env p (row :: rows) (fate :: fates) r

/-- The body of the loop handles a row. -/
theorem row_eq_ok {env : PlanEnv} {dom r : Dict} {p p' : Plan} :
    p.row env dom (domainText dom) (.obj r) = .ok p' ↔ ∃ fate, Handles env p dom r fate p' := by
  constructor
  · intro h
    unfold Plan.row at h
    obtain ⟨_, ⟨⟩, h⟩ := bind_eq_ok.mp h
    dsimp only at h
    split at h
    · rename_i reason hargs
      cases h
      exact ⟨_, .unusable hargs rfl⟩
    · cases h
    · rename_i args hargs
      by_cases hknown : args ∈ p.knownArgs
      · rw [if_pos hknown] at h
        cases h
        exact ⟨_, .known hargs hknown rfl⟩
      rw [if_neg hknown] at h
      by_cases hcap : env.limit ≠ 0 ∧ p.count (rowProtocol r) ≥ env.limit
      · rw [if_pos hcap] at h
        cases h
        exact ⟨_, .capped hargs hknown hcap rfl⟩
      rw [if_neg hcap] at h
      unfold Plan.accept at h
      obtain ⟨desc, hdesc, h⟩ := bind_eq_ok.mp h
      cases h
      exact ⟨_, .taken hargs hknown hcap hdesc rfl⟩
  · intro h
    obtain ⟨fate, h⟩ := h
    unfold Plan.row
    refine bind_eq_ok.mpr ⟨r, rfl, ?_⟩
    cases h with
    | unusable hargs hs =>
      dsimp only
      rw [hargs, hs]
      rfl
    | known hargs hknown hs =>
      dsimp only
      rw [hargs, hs]
      dsimp only
      rw [if_pos hknown]
      rfl
    | capped hargs hnew hcap hs =>
      dsimp only
      rw [hargs, hs]
      dsimp only
      rw [if_neg hnew, if_pos hcap]
      rfl
    | taken hargs hnew hcap hdesc hentry =>
      dsimp only
      rw [hargs, hentry]
      dsimp only
      rw [if_neg hnew, if_neg hcap]
      exact bind_eq_ok.mpr ⟨_, hdesc, rfl⟩

theorem Handled.append {env : PlanEnv} {p r : Plan} {rows rows' : List (Dict × Dict)}
    {fates' : List Fate} {q : Plan} {fates : List Fate} (h : Handled env p rows fates q)
    (h' : Handled env q rows' fates' r) : Handled env p (rows ++ rows') (fates ++ fates') r := by
  induction h with
  | nil => exact h'
  | cons hrow _ ih => exact .cons hrow (ih h')

theorem Handled.of_append {env : PlanEnv} {p r : Plan} {rows rows' : List (Dict × Dict)}
    {fates : List Fate} (h : Handled env p (rows ++ rows') fates r) :
    ∃ q fates₁ fates₂, fates = fates₁ ++ fates₂ ∧ Handled env p rows fates₁ q ∧
      Handled env q rows' fates₂ r := by
  induction rows generalizing p fates with
  | nil => exact ⟨p, [], fates, rfl, .nil, h⟩
  | cons row rows ih =>
    cases h with
    | cons hrow hrows =>
      obtain ⟨q, fates₁, fates₂, rfl, h₁, h₂⟩ := ih hrows
      exact ⟨q, _, fates₂, rfl, .cons hrow h₁, h₂⟩

/-- The inner loop. -/
theorem rows_eq_ok {env : PlanEnv} {dom : Dict} {rows : List Json} {p p' : Plan} :
    rows.foldlM (Plan.row env dom (domainText dom)) p = .ok p' ↔
      ∃ rs fates, rows.mapM Json.dict = .ok rs ∧
        Handled env p (rs.map fun row => (dom, row)) fates p' := by
  induction rows generalizing p with
  | nil =>
    constructor
    · intro h
      cases h
      exact ⟨[], [], rfl, .nil⟩
    · intro h
      obtain ⟨_, _, ⟨⟩, ⟨⟩⟩ := h
      rfl
  | cons row rows ih =>
    rw [List.foldlM_cons, bind_eq_ok]
    constructor
    · intro h
      obtain ⟨q, hrow, hrows⟩ := h
      obtain ⟨rs, fates, hrs, hhandled⟩ := ih.mp hrows
      obtain ⟨r, hr, _⟩ := bind_eq_ok.mp hrow
      cases row with
      | obj r =>
        obtain ⟨fate, hfate⟩ := row_eq_ok.mp hrow
        refine ⟨r :: rs, fate :: fates, ?_, .cons hfate hhandled⟩
        rw [List.mapM_cons]
        exact bind_eq_ok.mpr ⟨r, rfl, bind_eq_ok.mpr ⟨rs, hrs, rfl⟩⟩
      | null => cases hr
      | bool b => cases hr
      | int i => cases hr
      | float x => cases hr
      | str s => cases hr
      | arr items => cases hr
    · intro h
      obtain ⟨rs, fates, hrs, hhandled⟩ := h
      rw [List.mapM_cons] at hrs
      obtain ⟨r, hr, hrs⟩ := bind_eq_ok.mp hrs
      obtain ⟨rs, hrest, hrs⟩ := bind_eq_ok.mp hrs
      cases hrs
      have hobj : row = .obj r := by
        cases row <;> cases hr
        rfl
      cases hhandled with
      | cons hrow hrows =>
        exact ⟨_, hobj ▸ row_eq_ok.mpr ⟨_, hrow⟩, ih.mpr ⟨rs, _, hrest, hrows⟩⟩

theorem domain_eq_ok {env : PlanEnv} {p p' : Plan} {dom : Json} :
    p.domain env dom = .ok p' ↔
      ∃ rows fates, domainRows dom = .ok rows ∧ Handled env p rows fates p' := by
  unfold Plan.domain domainRows
  simp only [bind_eq_ok]
  constructor
  · intro h
    obtain ⟨d, hd, rows, hrows, h⟩ := h
    obtain ⟨rs, fates, hrs, hhandled⟩ := rows_eq_ok.mp h
    exact ⟨_, fates, ⟨d, hd, rows, hrows, rs, hrs, rfl⟩, hhandled⟩
  · intro h
    obtain ⟨_, fates, ⟨d, hd, rows, hrows, rs, hrs, ⟨⟩⟩, hhandled⟩ := h
    exact ⟨d, hd, rows, hrows, rows_eq_ok.mpr ⟨rs, fates, hrs, hhandled⟩⟩

/-- The outer loop. -/
theorem domains_eq_ok {env : PlanEnv} {doms : List Json} {p p' : Plan} :
    doms.foldlM (Plan.domain env) p = .ok p' ↔
      ∃ rows fates, doms.mapM domainRows = .ok rows ∧ Handled env p rows.flatten fates p' := by
  induction doms generalizing p with
  | nil =>
    constructor
    · intro h
      cases h
      exact ⟨[], [], rfl, .nil⟩
    · intro h
      obtain ⟨_, _, ⟨⟩, ⟨⟩⟩ := h
      rfl
  | cons dom doms ih =>
    rw [List.foldlM_cons, bind_eq_ok]
    constructor
    · intro h
      obtain ⟨q, hdom, hdoms⟩ := h
      obtain ⟨rows, fates, hrows, hhandled⟩ := domain_eq_ok.mp hdom
      obtain ⟨rest, fates', hrest, hhandled'⟩ := ih.mp hdoms
      refine ⟨rows :: rest, fates ++ fates', ?_, hhandled.append hhandled'⟩
      rw [List.mapM_cons]
      exact bind_eq_ok.mpr ⟨rows, hrows, bind_eq_ok.mpr ⟨rest, hrest, rfl⟩⟩
    · intro h
      obtain ⟨all, fates, hall, hhandled⟩ := h
      rw [List.mapM_cons] at hall
      obtain ⟨rows, hrows, hall⟩ := bind_eq_ok.mp hall
      obtain ⟨rest, hrest, hall⟩ := bind_eq_ok.mp hall
      cases hall
      obtain ⟨q, fates₁, fates₂, _, h₁, h₂⟩ := hhandled.of_append
      exact ⟨q, domain_eq_ok.mpr ⟨rows, fates₁, hrows, h₁⟩, ih.mpr ⟨rest, fates₂, hrest, h₂⟩⟩

/-- The inputs of the loop. -/
def ImportSettings.env (settings : ImportSettings) (runId now : Str) : PlanEnv :=
  ⟨settings.maxImport, slug (if settings.importPrefix = [] then lit "bcw" else settings.importPrefix)
    16, runId, now⟩

/-- The plan before the loop. -/
def Plan.start (known : List Dict) : Plan :=
  ⟨[], [], [], known.flatMap entryArgs, known.flatMap entryIds⟩

/-- **What `plan_import` does.** -/
theorem planImport_eq_ok {result : Json} {settings : ImportSettings} {existing : Json}
    {runId now : Str} {entries skipped : List Dict} :
    planImport result settings existing runId now = .ok (entries, skipped) ↔
      ∃ known rows fates p, entriesIn (existing.or (.arr [])) = .ok known ∧
        resultRows result = .ok rows ∧
        Handled (settings.env runId now) (.start known) rows fates p ∧
        p.entries = entries ∧ p.skipped = skipped := by
  unfold planImport resultRows
  simp only [bind_eq_ok, domains_eq_ok]
  constructor
  · intro h
    obtain ⟨known, hknown, doms, hdoms, p, ⟨rows, fates, hrows, hhandled⟩, h⟩ := h
    cases h
    exact ⟨known, _, fates, p, hknown, ⟨doms, hdoms, rows, hrows, rfl⟩, hhandled, rfl, rfl⟩
  · intro h
    obtain ⟨known, _, fates, p, hknown, ⟨doms, hdoms, rows, hrows, ⟨⟩⟩, hhandled, rfl, rfl⟩ := h
    exact ⟨known, hknown, doms, hdoms, p, ⟨rows, fates, hrows, hhandled⟩, rfl⟩

/-! ## The accumulators -/

/-- `nfqws_opt` -/
def argsOf (e : Dict) : Str := (e.get0 (lit "nfqws_opt")).text

/-- `protocol` -/
def protocolOf (e : Dict) : Str := (e.get0 (lit "protocol")).text

/-- The entries for a protocol. -/
def countOf (protocol : Str) (entries : List Dict) : Int :=
  (entries.filter fun e => protocolOf e = protocol).length

@[simp] theorem countOf_nil (protocol : Str) : countOf protocol [] = 0 := rfl

theorem countOf_singleton (protocol : Str) (e : Dict) :
    countOf protocol [e] = if protocolOf e = protocol then 1 else 0 := by
  unfold countOf
  by_cases heq : protocolOf e = protocol
  · simp [heq]
  · simp [heq]

theorem countOf_append (protocol : Str) (entries entries' : List Dict) :
    countOf protocol (entries ++ entries') = countOf protocol entries + countOf protocol entries' := by
  simp [countOf]

theorem count_take (p : Plan) (id args protocol protocol' : Str) {entry : Dict}
    (hentry : protocolOf entry = protocol) :
    (p.take id args protocol entry).count protocol' =
      p.count protocol' + countOf protocol' [entry] := by
  rw [countOf_singleton, hentry, Plan.count, Plan.take]
  by_cases heq : protocol = protocol'
  · rw [heq, List.lookup_cons_self, if_pos rfl, Option.getD_some]
  · have hne : (protocol' == protocol) = false := beq_false_of_ne fun h => heq h.symm
    rw [List.lookup_cons, hne, if_neg heq, add_zero]
    rfl

/-- A row adds its entry, or its skipped row. -/
structure Adds (p : Plan) (fates : List Fate) (q : Plan) : Prop where
  entries : q.entries = p.entries ++ fates.filterMap Fate.entry
  skipped : q.skipped = p.skipped ++ fates.filterMap Fate.skip
  ids : q.knownIds = p.knownIds ++ (fates.filterMap Fate.entry).map idText
  args : q.knownArgs = p.knownArgs ++ (fates.filterMap Fate.entry).map argsOf
  count : ∀ protocol, q.count protocol = p.count protocol +
    countOf protocol (fates.filterMap Fate.entry)

theorem adds_skip (p : Plan) (row : Dict) : Adds p [.skipped row] (p.skip row) := by
  constructor <;> simp [Plan.skip, Fate.entry, Fate.skip, countOf, Plan.count]

theorem Handles.adds {env : PlanEnv} {p q : Plan} {dom row : Dict} {fate : Fate}
    (h : Handles env p dom row fate q) : Adds p [fate] q := by
  cases h with
  | unusable hargs hs => exact adds_skip p _
  | known hargs hknown hs => exact adds_skip p _
  | capped hargs hnew hcap hs => exact adds_skip p _
  | taken hargs hnew hcap hdesc hentry =>
    subst hentry
    exact ⟨rfl, (List.append_nil _).symm, rfl, rfl, fun protocol => count_take p _ _ _ protocol rfl⟩

theorem Adds.trans {p q r : Plan} {fates fates' : List Fate} (h : Adds p fates q)
    (h' : Adds q fates' r) : Adds p (fates ++ fates') r where
  entries := by rw [h'.entries, h.entries, List.filterMap_append, List.append_assoc]
  skipped := by rw [h'.skipped, h.skipped, List.filterMap_append, List.append_assoc]
  ids := by rw [h'.ids, h.ids, List.filterMap_append, List.map_append, List.append_assoc]
  args := by rw [h'.args, h.args, List.filterMap_append, List.map_append, List.append_assoc]
  count protocol := by
    rw [h'.count, h.count, List.filterMap_append, countOf_append, add_assoc]

theorem Handled.adds {env : PlanEnv} {p q : Plan} {rows : List (Dict × Dict)} {fates : List Fate}
    (h : Handled env p rows fates q) : Adds p fates q := by
  induction h with
  | nil => constructor <;> simp [countOf]
  | cons hrow _ ih => exact hrow.adds.trans ih

/-- What is new in every entry that is taken, and known from then on, is distinct. -/
theorem Handled.distinct {env : PlanEnv} {key : Dict → Str} {known : Plan → List Str}
    (hadds : ∀ p fates q, Adds p fates q →
      known q = known p ++ (fates.filterMap Fate.entry).map key)
    (hnew : ∀ p dom row entry q, Handles env p dom row (.taken entry) q → key entry ∉ known p)
    {p q : Plan} {rows : List (Dict × Dict)} {fates : List Fate} (h : Handled env p rows fates q) :
    ((fates.filterMap Fate.entry).map key).Nodup ∧
      ∀ k ∈ (fates.filterMap Fate.entry).map key, k ∉ known p := by
  induction h with
  | nil => exact ⟨List.nodup_nil, nofun⟩
  | @cons p q r row rows fate fates hrow _ ih =>
    obtain ⟨hnodup, hrest⟩ := ih
    rw [hadds _ _ _ hrow.adds] at hrest
    cases fate with
    | skipped s => exact ⟨hnodup, by simpa [Fate.entry] using hrest⟩
    | taken entry =>
      have hfirst := hnew _ _ _ _ _ hrow
      simp only [List.filterMap_cons, List.filterMap_nil, Fate.entry, List.map_cons, List.map_nil,
        List.nodup_cons, List.forall_mem_cons] at hrest ⊢
      refine ⟨⟨fun hmem => ?_, hnodup⟩, hfirst, fun k hk hmem => ?_⟩
      · exact hrest _ hmem (List.mem_append_right _ (List.mem_singleton_self _))
      · exact hrest k hk (List.mem_append_left _ hmem)

theorem Handles.id_new {env : PlanEnv} {p q : Plan} {dom row entry : Dict}
    (h : Handles env p dom row (.taken entry) q) : idText entry ∉ p.knownIds := by
  cases h with
  | taken hargs hnew hcap hdesc hentry =>
    subst hentry
    exact freshId_notMem _ _

theorem Handles.args_new {env : PlanEnv} {p q : Plan} {dom row entry : Dict}
    (h : Handles env p dom row (.taken entry) q) : argsOf entry ∉ p.knownArgs := by
  cases h with
  | taken hargs hnew hcap hdesc hentry =>
    subst hentry
    exact hnew

/-- No protocol gets more entries than the cap allows. -/
theorem Handled.count_le {env : PlanEnv} {p q : Plan} {rows : List (Dict × Dict)}
    {fates : List Fate} (h : Handled env p rows fates q) (hlimit : 0 < env.limit)
    (hp : ∀ protocol, p.count protocol ≤ env.limit) (protocol : Str) :
    q.count protocol ≤ env.limit := by
  induction h with
  | nil => exact hp protocol
  | @cons p q r row rows fate fates hrow _ ih =>
    refine ih fun protocol' => ?_
    have hcount := hrow.adds.count protocol'
    cases fate with
    | skipped s =>
      rw [hcount, filterMap_entry_skipped, countOf_nil, add_zero]
      exact hp protocol'
    | taken entry =>
      rw [hcount, filterMap_entry_taken, countOf_singleton]
      cases hrow with
      | taken hargs hnew hcap hdesc hentry =>
        have hprotocol : protocolOf entry = rowProtocol row.2 := hentry ▸ rfl
        by_cases heq : protocolOf entry = protocol'
        · have hbelow : p.count protocol' < env.limit := by
            rw [← heq, hprotocol]
            exact not_le.mp fun hle => hcap ⟨hlimit.ne', hle⟩
          rw [if_pos heq]
          omega
        · rw [if_neg heq, add_zero]
          exact hp protocol'

/-! ## Rows over the cap -/

omit [Tables] in
theorem capReason_head (limit : Int) : (capReason limit).head? = some 111 := rfl

theorem validateArgs_ne_cap {text : Json} {reason : Str} {limit : Int}
    (h : validateArgs text = .error (.valueError reason)) : reason ≠ capReason limit := by
  rw [validateArgs_eq] at h
  split at h
  · obtain ⟨_, ⟨⟩, hhead⟩ := validateArgs_error h
    exact fun heq => hhead (heq ▸ capReason_head limit)
  · cases h

/-- A row that is refused for the cap finds as many entries for its protocol as the cap allows. -/
theorem Handles.capped_count {env : PlanEnv} {p q : Plan} {dom row s : Dict}
    (h : Handles env p dom row (.skipped s) q)
    (hreason : s.get0 (lit "reason") = .str (capReason env.limit)) :
    env.limit ≤ p.count (protocolOf s) := by
  have hne : capReason env.limit ≠ lit "already in the catalog" := by
    intro heq
    have hhead := capReason_head env.limit
    rw [heq] at hhead
    cases hhead
  cases h with
  | unusable hargs hs =>
    subst hs
    exact absurd (Json.str.inj hreason) (validateArgs_ne_cap hargs)
  | known hargs hknown hs =>
    subst hs
    exact absurd (Json.str.inj hreason).symm hne
  | capped hargs hnew hcap hs =>
    subst hs
    exact hcap.2

/-! ## Entries -/

/-- What holds of every entry that is taken. -/
theorem Handled.forall_taken {env : PlanEnv} {P : Dict → Prop}
    (hstep : ∀ p dom row entry q, Handles env p dom row (.taken entry) q → P entry)
    {p q : Plan} {rows : List (Dict × Dict)} {fates : List Fate} (h : Handled env p rows fates q) :
    ∀ e ∈ fates.filterMap Fate.entry, P e := by
  induction h with
  | nil => exact nofun
  | @cons p q r row rows fate fates hrow _ ih =>
    cases fate with
    | skipped s => exact ih
    | taken entry =>
      rw [List.filterMap_cons, Fate.entry]
      exact List.forall_mem_cons.mpr ⟨hstep _ _ _ _ _ hrow, ih⟩

omit [Tables] in
theorem underscore_mem_freshId {stem : Str} (h : 95 ∈ stem) (known : List Str) :
    95 ∈ freshId known stem := by
  obtain ⟨counter, heq, _⟩ := freshId_eq known stem
  rw [heq, candidateId]
  split
  · exact h
  · exact List.mem_append_left _ (List.mem_append_left _ h)

/-- An id of `plan_import` has an underscore. -/
theorem Handles.underscore_mem {env : PlanEnv} {p q : Plan} {dom row entry : Dict}
    (h : Handles env p dom row (.taken entry) q) : 95 ∈ idText entry := by
  cases h with
  | taken hargs hnew hcap hdesc hentry =>
    subst hentry
    refine underscore_mem_freshId ?_ p.knownIds
    simp [lit]

theorem Handles.args_ne_nil {env : PlanEnv} {p q : Plan} {dom row entry : Dict}
    (h : Handles env p dom row (.taken entry) q) : argsOf entry ≠ [] := by
  cases h with
  | taken hargs hnew hcap hdesc hentry =>
    subst hentry
    exact validateArgs_ne_nil hargs

theorem Handles.lookup_id {env : PlanEnv} {p q : Plan} {dom row entry : Dict}
    (h : Handles env p dom row (.taken entry) q) :
    entry.lookup (lit "id") = some (.str (idText entry)) := by
  cases h with
  | taken hargs hnew hcap hdesc hentry =>
    subst hentry
    rfl

/-- A new id is that of no strategy of the catalog, if those that are no strings have no underscore. -/
theorem Handled.id_other {env : PlanEnv} {known : List Dict} {rows : List (Dict × Dict)}
    {fates : List Fate} {q : Plan} (h : Handled env (.start known) rows fates q) {s : Dict}
    (hs : s ∈ known) (hid : (s.get0 (lit "id")).truthy = true ∨ 95 ∉ idText s) :
    idText s ∉ q.entries.map idText := by
  have hentries : q.entries = fates.filterMap Fate.entry := h.adds.entries
  have hnew := (h.distinct (fun _ _ _ hadd => hadd.ids) fun _ _ _ _ _ hrow => hrow.id_new).2
  have hunderscore := h.forall_taken fun _ _ _ _ _ hrow => hrow.underscore_mem
  rw [hentries]
  intro hmem
  obtain ⟨e, he, heq⟩ := List.mem_map.mp hmem
  rcases hid with htruthy | hnone
  · refine hnew _ hmem (List.mem_flatMap.mpr ⟨s, hs, ?_⟩)
    rw [entryIds, if_pos htruthy]
    exact List.mem_singleton_self _
  · exact hnone (heq ▸ hunderscore e he)

end WebZapret.Catalog
