import WebZapret.Catalog.Accounting
import WebZapret.Catalog.Reassembly
import WebZapret.Lib.Py.Strip

/-!
# Importing a run twice

`plan_import` looks up the checked text of a row among the texts of the catalog. It joins the words of
`shlex` for the one, and those of `str.split` for the others. Where the two differ (a word with a tab, with
two blanks in a row, or with a blank of another script), a row is not found again and becomes another
entry (`blanks_imported_again`). `reimport_iff` says when importing a run again adds nothing.
-/

namespace WebZapret.Catalog

open Py Failing

/-- `" ".join(s.split())` -/
def normal (s : Str) : Str := Str.join (lit " ") s.words

theorem normal_normal (s : Str) : normal (normal s) = normal s := by
  rw [normal, normal, Str.words_join_words]

variable [Tables]

/-- The args of a row. -/
def rowArgs (row : Dict) : Result Str := validateArgs (row.get (lit "args") (.str []))

/-- The row cannot be used, or its text is known. -/
def Settled (known : List Str) (row : Dict) : Prop :=
  (∃ reason, rowArgs row = .error (.valueError reason)) ∨
    ∃ args, rowArgs row = .ok args ∧ args ∈ known

/-! ## Rows that add nothing -/

/-- When no row is refused for the cap, the texts of all of them are known afterwards. -/
theorem Handled.settled {env : PlanEnv} {p q : Plan} {rows : List (Dict × Dict)}
    {fates : List Fate} (h : Handled env p rows fates q)
    (hcap : ∀ s ∈ fates.filterMap Fate.skip, s.get0 (lit "reason") ≠ .str (capReason env.limit)) :
    ∀ row ∈ rows, Settled q.knownArgs row.2 := by
  induction h with
  | nil => exact nofun
  | @cons p q r row rows fate fates hrow hrows ih =>
    have hsubset : q.knownArgs ⊆ r.knownArgs := by
      rw [hrows.adds.args]
      exact List.subset_append_left _ _
    have hbefore : p.knownArgs ⊆ q.knownArgs := by
      rw [hrow.adds.args]
      exact List.subset_append_left _ _
    have hrest : ∀ s ∈ fates.filterMap Fate.skip,
        s.get0 (lit "reason") ≠ .str (capReason env.limit) := by
      intro s hs
      refine hcap s ?_
      rw [← List.singleton_append, List.filterMap_append]
      exact List.mem_append_right _ hs
    refine List.forall_mem_cons.mpr ⟨?_, ih hrest⟩
    cases hrow with
    | unusable hargs hs => exact .inl ⟨_, hargs⟩
    | known hargs hknown hs => exact .inr ⟨_, hargs, hsubset (hbefore hknown)⟩
    | capped hargs hnew hover hs =>
      subst hs
      exact absurd rfl (hcap _ List.mem_cons_self)
    | taken hargs hnew hover hdesc hentry =>
      exact .inr ⟨_, hargs, hsubset (List.mem_append_right _ (List.mem_singleton_self _))⟩

/-- Rows that cannot be used, or are known, are skipped. -/
theorem handled_of_settled {env : PlanEnv} {p : Plan} {rows : List (Dict × Dict)}
    (h : ∀ row ∈ rows, Settled p.knownArgs row.2) :
    ∃ fates q, Handled env p rows fates q ∧ q.entries = p.entries := by
  induction rows generalizing p with
  | nil => exact ⟨[], p, .nil, rfl⟩
  | cons row rows ih =>
    obtain ⟨hrow, hrows⟩ := List.forall_mem_cons.mp h
    rcases hrow with ⟨reason, hargs⟩ | ⟨args, hargs, hknown⟩
    · obtain ⟨fates, q, hhandled, hentries⟩ := ih (p := p.skip _) hrows
      exact ⟨_, q, .cons (.unusable hargs rfl) hhandled, hentries⟩
    · obtain ⟨fates, q, hhandled, hentries⟩ := ih (p := p.skip _) hrows
      exact ⟨_, q, .cons (.known hargs hknown rfl) hhandled, hentries⟩

/-- When nothing is added, a row that is not over the cap was known or could not be used. -/
theorem Handled.settled_of_no_entries {env : PlanEnv} {p q : Plan} {rows : List (Dict × Dict)}
    {fates : List Fate} (h : Handled env p rows fates q) (hnone : fates.filterMap Fate.entry = [])
    (hcount : ∀ protocol, ¬(env.limit ≠ 0 ∧ p.count protocol ≥ env.limit)) :
    ∀ row ∈ rows, Settled p.knownArgs row.2 := by
  induction h with
  | nil => exact nofun
  | cons hrow _ ih =>
    cases hrow with
    | unusable hargs hs => exact List.forall_mem_cons.mpr ⟨.inl ⟨_, hargs⟩, ih hnone hcount⟩
    | known hargs hknown hs =>
      exact List.forall_mem_cons.mpr ⟨.inr ⟨_, hargs, hknown⟩, ih hnone hcount⟩
    | capped hargs hnew hover hs => exact absurd hover (hcount _)
    | taken hargs hnew hover hdesc hentry => cases hnone

/-- What is taken is below the cap. -/
theorem Handled.limit_of_entry {env : PlanEnv} {p q : Plan} {rows : List (Dict × Dict)}
    {fates : List Fate} (h : Handled env p rows fates q) (hp : ∀ protocol, 0 ≤ p.count protocol)
    (hsome : fates.filterMap Fate.entry ≠ []) : 0 ≤ env.limit := by
  induction h with
  | nil => exact absurd rfl hsome
  | cons hrow _ ih =>
    cases hrow with
    | unusable hargs hs => exact ih hp hsome
    | known hargs hknown hs => exact ih hp hsome
    | capped hargs hnew hover hs => exact ih hp hsome
    | @taken args _ _ hargs hnew hover hdesc hentry =>
      by_contra hneg
      exact hover ⟨by omega, le_trans (by omega) (hp _)⟩

/-! ## The merged catalog -/

/-- The text of a new entry, as `known_args` has it. -/
theorem Handles.mem_entryArgs {env : PlanEnv} {p q : Plan} {dom row entry : Dict}
    (h : Handles env p dom row (.taken entry) q) (u : Str) :
    u ∈ entryArgs entry ↔ u = normal (argsOf entry) := by
  have hne := h.args_ne_nil
  cases h with
  | @taken args _ _ hargs hnew hcap hdesc hentry =>
    have hargsOf : argsOf entry = args := hentry ▸ rfl
    rw [hargsOf] at hne ⊢
    have hopt : entry.get0 (lit "nfqws_opt") = .str args := hentry ▸ rfl
    have hlua : entry.get0 (lit "lua_opt") =
        .str (if args.Contains (lit "--lua-desync=") then args else []) := hentry ▸ rfl
    unfold entryArgs
    rw [List.mem_filterMap]
    simp only [List.mem_cons, List.not_mem_nil, or_false, exists_eq_or_imp, exists_eq_left, hopt, hlua]
    have htruthy : (Json.str args).truthy = true := decide_eq_true hne
    by_cases hcontains : args.Contains (lit "--lua-desync=")
    · simp [hcontains, htruthy, normal, Json.text, eq_comm]
    · have hfalsy : (Json.str []).truthy = false := rfl
      simp [hcontains, htruthy, hfalsy, normal, Json.text, eq_comm]

/-- What is not true has no underscore in its text. -/
theorem underscore_notMem_of_falsy (hfloat : ∀ x, 95 ∉ Tables.reprFloat x) {x : Json}
    (h : x.truthy = false) : 95 ∉ x.text := by
  cases x with
  | null =>
    show 95 ∉ lit "None"
    decide
  | bool b =>
    show 95 ∉ lit (if b then "True" else "False")
    cases b <;> decide
  | int i => exact underscore_notMem_intStr i
  | float x => exact hfloat x
  | str s =>
    have hnil : s = [] := by simpa [Json.truthy] using h
    subst hnil
    exact List.not_mem_nil
  | arr items =>
    have hnil : items = [] := by simpa [Json.truthy] using h
    subst hnil
    show 95 ∉ lit "[" ++ [] ++ lit "]"
    decide
  | obj members =>
    have hnil : members = [] := by simpa [Json.truthy] using h
    subst hnil
    show 95 ∉ [123] ++ [] ++ [125]
    decide

/-- The strategies of the merged catalog: the new ids are those of no other strategy. -/
theorem merged_entries (hfloat : ∀ x, 95 ∉ Tables.reprFloat x) {env : PlanEnv}
    {known : List Dict} {rows : List (Dict × Dict)} {fates : List Fate} {q : Plan}
    (h : Handled env (.start known) rows fates q) {catalog merged : Dict}
    (hknown : entriesIn ((catalog.get (lit "strategies") (.arr [])).or (.arr [])) = .ok known)
    (hmerge : mergeCatalog catalog q.entries = .ok merged) :
    entriesIn ((merged.get (lit "strategies") (.arr [])).or (.arr [])) =
      .ok (known ++ q.entries) := by
  have hother : ∀ s ∈ known, idText s ∉ q.entries.map idText := by
    intro s hs
    refine h.id_other hs ?_
    cases htruthy : (s.get0 (lit "id")).truthy with
    | true => exact .inl rfl
    | false => exact .inr (underscore_notMem_of_falsy hfloat htruthy)
  unfold mergeCatalog at hmerge
  obtain ⟨old, hold, hret⟩ := bind_eq_ok.mp hmerge
  cases hret
  rw [Dict.get0, Dict.get, Dict.lookup_setDefault, Option.getD_some] at hold
  have hsame : old = known := Except.ok.inj ((entriesIn_or hold).symm.trans hknown)
  have hkept : (old.filter fun s => idText s ∉ q.entries.map idText) = old := by
    rw [List.filter_eq_self, hsame]
    intro s hs
    exact decide_eq_true (hother s hs)
  rw [Dict.get, Dict.lookup_set_self, Option.getD_some, hkept, hsame]
  exact entriesIn_or (entriesIn_arr (known ++ q.entries))

/-- The texts of the merged catalog. -/
theorem mem_start_knownArgs {env : PlanEnv} {known : List Dict} {rows : List (Dict × Dict)}
    {fates : List Fate} {q : Plan} (h : Handled env (.start known) rows fates q) (u : Str) :
    u ∈ (Plan.start (known ++ q.entries)).knownArgs ↔
      u ∈ (Plan.start known).knownArgs ∨ ∃ e ∈ q.entries, u = normal (argsOf e) := by
  have hentries : q.entries = fates.filterMap Fate.entry := h.adds.entries
  have hargs := h.forall_taken fun _ _ _ _ _ hrow => hrow.mem_entryArgs
  have hnew : (∃ e ∈ q.entries, u ∈ entryArgs e) ↔ ∃ e ∈ q.entries, u = normal (argsOf e) := by
    rw [hentries]
    exact exists_congr fun e => and_congr_right fun he => hargs e he u
  rw [← hnew]
  simp only [Plan.start, List.flatMap_append, List.mem_append, List.mem_flatMap]

/-! ## Again -/

/-- **When importing a run again adds nothing.** -/
theorem reimport_iff (hfloat : ∀ x, 95 ∉ Tables.reprFloat x) {result : Json}
    {settings : ImportSettings} {catalog merged : Dict} {runId now : Str} (runId' now' : Str)
    {entries skipped known : List Dict} {rows : List (Dict × Dict)}
    (hknown : entriesIn ((catalog.get (lit "strategies") (.arr [])).or (.arr [])) = .ok known)
    (hrows : resultRows result = .ok rows)
    (hplan : planImport result settings (catalog.get (lit "strategies") (.arr [])) runId now =
      .ok (entries, skipped))
    (hcap : ∀ s ∈ skipped, s.get0 (lit "reason") ≠ .str (capReason settings.maxImport))
    (hmerge : mergeCatalog catalog entries = .ok merged) :
    (∃ skipped', planImport result settings (merged.get (lit "strategies") (.arr [])) runId' now' =
        .ok ([], skipped')) ↔
      ∀ row ∈ rows, ∀ args, rowArgs row.2 = .ok args → args ∉ known.flatMap entryArgs →
        normal args = args := by
  obtain ⟨_, _, fates, q, hknown', hrows', hhandled, rfl, rfl⟩ := planImport_eq_ok.mp hplan
  rw [hknown] at hknown'
  cases hknown'
  rw [hrows] at hrows'
  cases hrows'
  have hmerged := merged_entries hfloat hhandled hknown hmerge
  have hentries : q.entries = fates.filterMap Fate.entry := hhandled.adds.entries
  have hskipped : q.skipped = fates.filterMap Fate.skip := hhandled.adds.skipped
  have hargs : q.knownArgs = known.flatMap entryArgs ++ q.entries.map argsOf := by
    rw [hentries]
    exact hhandled.adds.args
  have hsettled := hhandled.settled (hskipped ▸ hcap)
  constructor
  · intro h row hrow args hrowArgs hnew
    obtain ⟨skipped', h⟩ := h
    obtain ⟨_, _, fates', q', hknown', hrows', hhandled', hempty, _⟩ := planImport_eq_ok.mp h
    rw [hmerged] at hknown'
    cases hknown'
    rw [hrows] at hrows'
    cases hrows'
    -- the row was taken the first time
    have htaken : args ∈ q.entries.map argsOf := by
      rcases hsettled row hrow with ⟨reason, herror⟩ | ⟨args', hargs', hmem⟩
      · rw [hrowArgs] at herror
        cases herror
      · rw [hrowArgs] at hargs'
        cases hargs'
        rw [hargs] at hmem
        exact (List.mem_append.mp hmem).resolve_left hnew
    have hlimit : 0 ≤ settings.maxImport := by
      refine hhandled.limit_of_entry (fun _ => le_refl _) ?_
      rw [← hentries]
      intro hnil
      rw [hnil] at htaken
      cases htaken
    have hnone : fates'.filterMap Fate.entry = [] := hhandled'.adds.entries.symm.trans hempty
    have hcount : ∀ protocol, ¬(settings.maxImport ≠ 0 ∧
        (Plan.start (known ++ q.entries)).count protocol ≥ settings.maxImport) := by
      intro protocol hover
      have hzero : (Plan.start (known ++ q.entries)).count protocol = 0 := rfl
      rw [hzero] at hover
      omega
    rcases hhandled'.settled_of_no_entries hnone hcount row hrow with ⟨reason, herror⟩ | hmem
    · rw [hrowArgs] at herror
      cases herror
    · obtain ⟨args', hargs', hmem⟩ := hmem
      rw [hrowArgs] at hargs'
      cases hargs'
      rcases (mem_start_knownArgs hhandled args).mp hmem with hold | ⟨e, _, heq⟩
      · exact absurd hold hnew
      · rw [heq, normal_normal]
  · intro h
    have hagain : ∀ row ∈ rows, Settled (Plan.start (known ++ q.entries)).knownArgs row.2 := by
      intro row hrow
      rcases hsettled row hrow with herror | ⟨args, hrowArgs, hmem⟩
      · exact .inl herror
      · refine .inr ⟨args, hrowArgs, (mem_start_knownArgs hhandled args).mpr ?_⟩
        by_cases hold : args ∈ known.flatMap entryArgs
        · exact .inl hold
        · rw [hargs] at hmem
          obtain ⟨e, he, heq⟩ := List.mem_map.mp ((List.mem_append.mp hmem).resolve_left hold)
          exact .inr ⟨e, he, by rw [heq, h row hrow args hrowArgs hold]⟩
    obtain ⟨fates', q', hhandled', hempty⟩ :=
      @handled_of_settled _ (settings.env runId' now') _ _ hagain
    exact ⟨q'.skipped, planImport_eq_ok.mpr ⟨_, rows, fates', q', hmerged, hrows, hhandled', hempty,
      rfl⟩⟩

omit [Tables]

theorem underscore_notMem_ascii (x : Flt) : 95 ∉ (Tables.ascii).reprFloat x := by
  cases x with
  | fin q =>
    show 95 ∉ lit (toString q.floor ++ ".0")
    unfold lit
    rw [String.toList_append, List.map_append, List.mem_append, not_or]
    exact ⟨underscore_notMem_intStr q.floor, by decide⟩
  | negZero => decide
  | inf neg => cases neg <;> decide
  | nan => decide

/-- A run with one row. -/
def oneRow (args : Str) : Dict × Dict :=
  ([(lit "working", .arr [.obj [(lit "args", .str args)]])], [(lit "args", .str args)])

theorem reimport_plain : letI := Tables.ascii
    ∃ entries skipped merged, planImport (runOf (lit "--lua-desync=fake")) ⟨5, []⟩ (.arr []) [] [] =
        .ok (entries, skipped) ∧ mergeCatalog [] entries = .ok merged ∧
      ((∃ skipped', planImport (runOf (lit "--lua-desync=fake")) ⟨5, []⟩
          (merged.get (lit "strategies") (.arr [])) [] [] = .ok ([], skipped')) ↔
        ∀ row ∈ [oneRow (lit "--lua-desync=fake")], ∀ args, rowArgs row.2 = .ok args →
          args ∉ [].flatMap entryArgs → normal args = args) := by
  let _ := Tables.ascii
  obtain ⟨entries, merged, hplan, hmerge⟩ : ∃ entries merged,
      planImport (runOf (lit "--lua-desync=fake")) ⟨5, []⟩ (.arr []) [] [] = .ok (entries, []) ∧
        mergeCatalog [] entries = .ok merged := ⟨_, _, rfl, rfl⟩
  exact ⟨entries, [], merged, hplan, hmerge,
    @reimport_iff Tables.ascii underscore_notMem_ascii _ ⟨5, []⟩ [] _ [] [] [] [] _ _ [] _ rfl rfl
      hplan nofun hmerge⟩

/-- A text with two blanks in a word is imported each time. -/
theorem blanks_imported_again : letI := Tables.ascii
    ¬∀ result settings (catalog merged : Dict) runId now entries skipped,
      planImport result settings (catalog.get (lit "strategies") (.arr [])) runId now =
        .ok (entries, skipped) →
      (∀ s ∈ skipped, s.get0 (lit "reason") ≠ .str (capReason settings.maxImport)) →
      mergeCatalog catalog entries = .ok merged →
      ∃ skipped', planImport result settings (merged.get (lit "strategies") (.arr [])) runId now =
        .ok ([], skipped') := by
  let _ := Tables.ascii
  intro h
  obtain ⟨entries, merged, hplan, hmerge⟩ : ∃ entries merged,
      planImport (runOf (lit "--comment='a  b'")) ⟨5, []⟩ (.arr []) [] [] = .ok (entries, []) ∧
        mergeCatalog [] entries = .ok merged := ⟨_, _, rfl, rfl⟩
  have hagain := (@reimport_iff Tables.ascii underscore_notMem_ascii _ ⟨5, []⟩ [] _ [] [] [] [] _ _ []
    _ rfl rfl hplan nofun hmerge).mp (h _ ⟨5, []⟩ [] merged [] [] entries [] hplan nofun hmerge)
  have hnormal := hagain (oneRow (lit "--comment='a  b'")) (List.mem_singleton_self _)
    (lit "--comment=a  b") rfl nofun
  revert hnormal
  decide

end WebZapret.Catalog
