import WebZapret.Selection.Soundness
import WebZapret.Selection.Commands
import WebZapret.Lib.Py.ReadBack

/-!
# The harness agrees with the panel

The panel normalizes the settings and writes them to a file; the harness reads the file and
normalizes again, over the defaults of its own environment. Coercion leaves a clean value as it is
(`coerce_self`), and every item has a value in the file, so the environment of the harness does not
matter. The rules find their lists clean and their errors absent, so nothing changes
(`normalizeSettings_idem`).

Main result: `harness_agrees`.
-/

namespace WebZapret.Selection

open Py Failing

/-- The numbers of an item are read back from their texts, and its choices are words of small
letters. -/
structure Spec.Plain (spec : Spec) : Prop where
  int : ∀ lo hi, spec.lo = .int lo → spec.hi = .int hi → 0 ≤ lo ∧ hi < 10 ^ 20
  float : ∀ lo hi, spec.lo = .float lo → spec.hi = .float hi →
    ∃ m n : Nat, m ≤ 2 ^ 53 ∧ n ≤ 2 ^ 53 ∧ lo = .fin m ∧ hi = .fin n
  default : ∀ x, spec.default = .float x → ∃ n : Nat, n ≤ 2 ^ 53 ∧ x = .fin n
  choices : ∀ text ∈ spec.choices, ∀ c ∈ text, isLower c = true

theorem isSpace_of_isLower {c : Nat} (h : isLower c = true) : isSpace c = false := by
  simp [isLower] at h
  simp [isSpace]
  omega

variable [Tables] [LawfulTables] {spec : Spec}

/-! ## Values that coercion leaves alone -/

theorem asInt_self {lo hi i : Int} (h0 : 0 ≤ lo) (hmax : hi < 10 ^ 20) (hle : lo ≤ i)
    (hge : i ≤ hi) : asInt (.int i) (.int lo) (.int hi) = .ok (.int i) := by
  obtain ⟨n, rfl⟩ := Int.eq_ofNat_of_zero_le (h0.trans hle)
  have hparse := Json.parseInt_intStr (n := n) (k := 20) (by decide) (by decide) (by omega)
  have htext : (Json.int n).text.strip = intStr n := strip_intStr n
  have hinteger : isInteger (intStr n) := by
    have hdigits : ∀ c ∈ intStr n, isAsciiDigit c = true := fun _ => isAsciiDigit_of_mem_intStr
    have hne := intStr_ne_nil n
    unfold isInteger
    cases hs : intStr n with
    | nil => exact absurd hs hne
    | cons c s =>
      rw [hs] at hdigits
      have hc := hdigits c List.mem_cons_self
      dsimp only
      split
      · rename_i t ht
        rw [(List.cons.inj ht).1] at hc
        cases hc
      · rename_i t ht
        rw [(List.cons.inj ht).1] at hc
        cases hc
      · refine ⟨List.cons_ne_nil c s, ?_⟩
        intro d hd
        rw [LawfulTables.decimal_digit d (hdigits d hd)]
        rfl
  have hclamp : clampInt (.int lo) (.int hi) n = n := by
    unfold clampInt
    dsimp only
    omega
  unfold asInt
  dsimp only
  rw [htext, if_pos hinteger, Json.toInt, hparse]
  dsimp only
  rw [hclamp]

omit [LawfulTables] in
theorem asFloat_self {lo hi x : Rat} (hback : ReadsBack (.fin x)) (hle : lo ≤ x) (hge : x ≤ hi) :
    asFloat (.float (.fin x)) (.float (.fin lo)) (.float (.fin hi)) = .ok (.float (.fin x)) := by
  have htext : Tables.parseFloat (Json.float (.fin x)).text.strip = some (.fin x) := hback
  have hclamp : clampFloat (.float (.fin lo)) (.float (.fin hi)) (.fin x) = .fin x := by
    have hlow : (if (Flt.fin lo).lt (.fin x) then Flt.fin x else .fin lo) = .fin x := by
      rcases hle.lt_or_eq with hlt | rfl
      · exact if_pos (by simp [Flt.lt, Flt.le, Flt.toRat?, hlt])
      · exact ite_self _
    have hhigh : (if (Flt.fin x).lt (.fin hi) then Flt.fin x else .fin hi) = .fin x := by
      rcases hge.lt_or_eq with hlt | rfl
      · exact if_pos (by simp [Flt.lt, Flt.le, Flt.toRat?, hlt])
      · exact ite_self _
    unfold clampFloat
    dsimp only
    rw [hlow, hhigh]
  unfold asFloat
  dsimp only
  rw [htext]
  dsimp only
  rw [hclamp]

omit [LawfulTables] in
theorem asCsv_self {texts : List Str} (h : ∀ t ∈ texts, t ≠ [] ∧ t.strip = t) :
    asCsv (.arr (texts.map .str)) = texts := by
  have hstrip : (texts.map Json.str).map (fun x => x.text.strip) = texts := by
    rw [List.map_map]
    conv_rhs => rw [← List.map_id texts]
    apply List.map_congr_left
    intro t ht
    exact (h t ht).2
  unfold asCsv
  dsimp only
  rw [hstrip]
  apply List.filter_eq_self.mpr
  intro t ht
  simpa using (h t ht).1

/-- **A clean value is coerced to itself**, if its text can be read back. -/
theorem coerce_self (hplain : spec.Plain) {v : Json} (hclean : Clean spec v)
    (hback : ∀ x, v = .float x → ReadsBack x) : coerce spec v = .ok v := by
  unfold Clean at hclean
  unfold coerce
  cases hkind : spec.kind with
  | bool =>
    rw [hkind] at hclean
    obtain ⟨b, rfl⟩ := hclean
    rfl
  | int =>
    rw [hkind] at hclean
    obtain ⟨lo, hi, i, hlo, hhi, rfl, hle, hge⟩ := hclean
    obtain ⟨h0, hmax⟩ := hplain.int lo hi hlo hhi
    dsimp only
    rw [hlo, hhi]
    exact asInt_self h0 hmax hle hge
  | float =>
    rw [hkind] at hclean
    obtain ⟨lo, hi, x, hlo, hhi, rfl, hle, hge⟩ := hclean
    dsimp only
    rw [hlo, hhi]
    exact asFloat_self (hback _ rfl) hle hge
  | str =>
    rw [hkind] at hclean
    obtain ⟨text, rfl, hstrip⟩ := hclean
    exact congrArg (fun t => Except.ok (Json.str t)) hstrip
  | csv =>
    rw [hkind] at hclean
    obtain ⟨texts, rfl, htexts⟩ := hclean
    exact congrArg (fun ts => Except.ok (Json.arr (ts.map Json.str))) (asCsv_self htexts)
  | enum =>
    rw [hkind] at hclean
    obtain ⟨text, htext, rfl⟩ := hclean
    have hlower := hplain.choices text htext
    have hsame : Tables.lower (Json.str text).text.strip = text := by
      rw [Json.text, Str.strip_eq_self fun c hc => isSpace_of_isLower (hlower c hc)]
      exact LawfulTables.lower_lower text hlower
    dsimp only
    rw [hsame, if_pos htext]

/-! ## Values that are read back -/

/-- A value of the item that is coerced to itself. -/
def Fixed (spec : Spec) (v : Json) : Prop := Clean spec v ∧ coerce spec v = .ok v

/-- A double is one of the bounds, or `float` returned it. -/
theorem readsBack_of_coerce (hspec : spec.WellFormed) (hplain : spec.Plain) {raw : Json} {x : Flt}
    (h : coerce spec raw = .ok (.float x)) : ReadsBack x := by
  have hclean := coerce_clean hspec h
  have hdefault := hspec.default
  unfold Clean at hclean hdefault
  unfold coerce at h
  cases hkind : spec.kind with
  | float =>
    rw [hkind] at h hclean hdefault
    obtain ⟨lo, hi, _, hlo, hhi, _, hle, hge⟩ := hdefault
    obtain ⟨m, n, hm, hn, hlow, hhigh⟩ := hplain.float _ _ hlo hhi
    obtain ⟨text, y, hy, hx⟩ := asFloat_eq_ok h
    obtain ⟨q, hq, _, _, hfrom⟩ := clampFloat_mem (hspec.lo lo hlo) (hle.trans hge) y
    rw [hlo, hhi, hq] at hx
    cases hx
    rcases hfrom with rfl | rfl | rfl
    · rw [hlow]
      exact LawfulTables.parse_repr_nat m hm
    · rw [hhigh]
      exact LawfulTables.parse_repr_nat n hn
    · exact LawfulTables.parse_repr text _ hy
  | _ =>
    rw [hkind] at hclean
    simp at hclean

theorem coerce_fixed (hspec : spec.WellFormed) (hplain : spec.Plain) {raw v : Json}
    (h : coerce spec raw = .ok v) : Fixed spec v := by
  have hclean := coerce_clean hspec h
  refine ⟨hclean, coerce_self hplain hclean ?_⟩
  rintro x rfl
  exact readsBack_of_coerce hspec hplain h

theorem default_fixed (hspec : spec.WellFormed) (hplain : spec.Plain) :
    Fixed spec spec.default := by
  refine ⟨hspec.default, coerce_self hplain hspec.default ?_⟩
  intro x hx
  obtain ⟨n, hn, rfl⟩ := hplain.default x hx
  exact LawfulTables.parse_repr_nat n hn

/-! ## The spec -/

section Specs

omit [Tables] [LawfulTables]

theorem intSpec_plain {key : String} {default lo hi : Int} (h0 : 0 ≤ lo) (h : hi < 10 ^ 20) :
    (intSpec key default lo hi).Plain where
  int := by
    rintro _ _ ⟨⟩ ⟨⟩
    exact ⟨h0, h⟩
  float := nofun
  default := nofun
  choices := nofun

theorem strSpec_plain {key default : String} : (strSpec key default).Plain :=
  ⟨nofun, nofun, nofun, nofun⟩

theorem boolSpec_plain {key : String} {default : Bool} : (boolSpec key default).Plain :=
  ⟨nofun, nofun, nofun, nofun⟩

theorem csvSpec_plain {key : String} {default : List String} : (csvSpec key default).Plain :=
  ⟨nofun, nofun, nofun, nofun⟩

theorem enumSpec_plain {key default : String} {choices : List String}
    (h : ∀ text ∈ choices.map lit, ∀ c ∈ text, isLower c = true) :
    (enumSpec key default choices).Plain := ⟨nofun, nofun, nofun, h⟩

theorem floatSpec_plain (key : Str) {default lo hi : Nat} (hdefault : default ≤ 2 ^ 53)
    (hlo : lo ≤ 2 ^ 53) (hhi : hi ≤ 2 ^ 53) : Spec.Plain
    ⟨key, .float, .float (.fin default), .float (.fin lo), .float (.fin hi), []⟩ where
  int := nofun
  float := by
    rintro _ _ ⟨⟩ ⟨⟩
    exact ⟨lo, hi, hlo, hhi, rfl, rfl⟩
  default := by
    rintro _ ⟨⟩
    exact ⟨default, hdefault, rfl⟩
  choices := nofun

theorem settingsSpec_plain : ∀ spec ∈ settingsSpec, spec.Plain := by
  have hint {key : String} {default lo hi : Int} (h : 0 ≤ lo ∧ hi < 10 ^ 20) :
      (intSpec key default lo hi).Plain := intSpec_plain h.1 h.2
  unfold settingsSpec
  simp only [List.forall_mem_cons, List.not_mem_nil, false_implies, implies_true, and_true]
  refine ⟨boolSpec_plain, strSpec_plain, enumSpec_plain (by decide), strSpec_plain, csvSpec_plain,
    csvSpec_plain, enumSpec_plain (by decide), hint (by decide), hint (by decide),
    hint (by decide), strSpec_plain, strSpec_plain, hint (by decide), hint (by decide),
    hint (by decide), hint (by decide), hint (by decide), hint (by decide), strSpec_plain,
    strSpec_plain, strSpec_plain, ?_, boolSpec_plain, hint (by decide), strSpec_plain,
    boolSpec_plain, boolSpec_plain, hint (by decide), hint (by decide), boolSpec_plain,
    hint (by decide), hint (by decide)⟩
  have hshare := floatSpec_plain (lit "min_share") (Nat.zero_le _) (Nat.zero_le _)
    (show 10 ≤ 2 ^ 53 by norm_num)
  norm_num at hshare
  exact hshare

end Specs

/-! ## The keys of a block -/

section Keys

omit [LawfulTables]

theorem keys_envDefaults (environ : Str → Option Str) (specs : List Spec) (keyPrefix : Str) :
    (envDefaults environ specs keyPrefix).map (·.1) = specs.map (·.key) := by
  unfold envDefaults
  rw [List.map_map]
  rfl

theorem keys_normalize {specs : List Spec} {base : Dict}
    (h : base.map (·.1) = specs.map (·.key)) (values : Dict) :
    (normalize specs values base).1.map (·.1) = specs.map (·.key) := by
  unfold normalize
  suffices hloop : ∀ rest : List Spec, (∀ spec ∈ rest, spec ∈ specs) → ∀ acc : Dict × List Str,
      acc.1.map (·.1) = specs.map (·.key) →
      (rest.foldl (normalizeKey values base) acc).1.map (·.1) = specs.map (·.key) from
    hloop specs (fun _ h => h) (base, []) h
  intro rest
  induction rest with
  | nil => exact fun _ _ hacc => hacc
  | cons spec rest ih =>
    intro hsub acc hacc
    refine ih (fun s hs => hsub s (List.mem_cons_of_mem _ hs)) _ ?_
    have hmem : spec.key ∈ acc.1.map (·.1) := by
      rw [hacc]
      exact List.mem_map_of_mem (hsub spec List.mem_cons_self)
    unfold normalizeKey
    split
    · exact hacc
    · split
      · exact hacc
      · rw [Dict.keys_set hmem, hacc]

omit [Tables] in
theorem keys_setLists {protocols domains : List Str} {d : Dict}
    (h : d.map (·.1) = settingsKeys) :
    (setLists protocols domains d).map (·.1) = settingsKeys := by
  have hmem : lit "protocols" ∈ d.map (·.1) := by
    rw [h]
    decide
  have hfirst := Dict.keys_set hmem (.arr (protocols.map .str))
  rw [setLists, Dict.keys_set (by rw [hfirst, h]; decide), hfirst, h]

omit [Tables] in
theorem keys_pinQueue {d : Dict} (h : d.map (·.1) = settingsKeys) :
    (pinQueue d).map (·.1) = settingsKeys := by
  unfold pinQueue
  split
  · exact h
  · rw [Dict.keys_set (by rw [h]; decide), h]

end Keys

/-! ## Normalizing again -/

theorem defaults_fixed (environ : Str → Option Str) :
    Values Fixed settingsSpec (settingsDefaults environ) :=
  envDefaults_values settingsSpec_nodup
    (fun spec h => default_fixed (settingsSpec_wellFormed spec h) (settingsSpec_plain spec h))
    (fun spec h _ _ => coerce_fixed (settingsSpec_wellFormed spec h) (settingsSpec_plain spec h))
    environ _

theorem normalize_fixed {base : Dict} (h : Values Fixed settingsSpec base) (values : Dict) :
    Values Fixed settingsSpec (normalize settingsSpec values base).1 :=
  normalize_values settingsSpec_nodup
    (fun spec h _ _ => coerce_fixed (settingsSpec_wellFormed spec h) (settingsSpec_plain spec h))
    h values

omit [LawfulTables] in
/-- Values that are coerced to themselves win over any base. -/
theorem normalize_eq_self {s base : Dict} (h : Values Fixed settingsSpec s)
    (hkeys : s.map (·.1) = settingsKeys) (hbase : base.map (·.1) = settingsKeys) :
    (normalize settingsSpec s base).1 = s := by
  have hkeys' : (normalize settingsSpec s base).1.map (·.1) = settingsKeys :=
    keys_normalize hbase s
  refine Dict.eq_of_lookup ?_ (hkeys'.trans hkeys.symm) ?_
  · rw [hkeys']
    exact settingsSpec_nodup
  · intro key hkey
    rw [hkeys'] at hkey
    obtain ⟨spec, hspec, rfl⟩ := List.mem_map.mp hkey
    obtain ⟨v, hv, _, hfixed⟩ := h spec hspec
    rw [normalize_lookup settingsSpec_nodup hspec, effective, hv]
    dsimp only
    rw [hfixed]

omit [Tables] [LawfulTables] in
theorem isSpace_of_isDomainChar {c : Nat} (h : isDomainChar c = true) : isSpace c = false := by
  simp [isDomainChar, isLower, isAsciiDigit] at h
  simp [isSpace]
  omega

omit [Tables] [LawfulTables] in
theorem IsDomain.clean {domain : Str} (h : IsDomain domain) :
    domain ≠ [] ∧ domain.strip = domain := by
  obtain ⟨hlength, _, hchars⟩ := h
  refine ⟨List.ne_nil_of_length_pos hlength, Str.strip_eq_self ?_⟩
  exact fun c hc => isSpace_of_isDomainChar (hchars c hc)

omit [LawfulTables] in
theorem csv_fixed {key : String} {default : List String} {texts : List Str}
    (h : ∀ t ∈ texts, t ≠ [] ∧ t.strip = t) :
    Fixed (csvSpec key default) (.arr (texts.map .str)) := by
  refine ⟨⟨texts, rfl, h⟩, ?_⟩
  change Except.ok (Json.arr ((asCsv (.arr (texts.map .str))).map .str)) = _
  rw [asCsv_self h]

section Ruled

variable {merged out : Dict} {listed protocols domains tooMany : List Str} {n : Normalized}

theorem Ruled.fixed (h : Ruled merged out listed protocols domains tooMany n)
    (hmerged : Values Fixed settingsSpec merged) (hdomains : ∀ d ∈ domains, IsDomain d) :
    Values Fixed settingsSpec n.settings := by
  have hclean : Values Clean settingsSpec merged := by
    intro spec hspec
    obtain ⟨v, hv, hfixed⟩ := hmerged spec hspec
    exact ⟨v, hv, hfixed.1⟩
  have hqueue : Clean (intSpec "queue" bcwQueueFixed 1 65535) (.int bcwQueueFixed) :=
    ⟨1, 65535, bcwQueueFixed, rfl, rfl, rfl, by decide, by decide⟩
  refine h.values hclean (csv_fixed fun p hp => knownProtocols_clean p ?_)
    (csv_fixed fun d hd => (hdomains d hd).clean)
    ⟨hqueue, coerce_self (settingsSpec_plain _ intSpec_queue_mem) hqueue nofun⟩ hmerged
  rw [h.protocols_eq] at hp
  exact (keptProtocols_spec _).2 p hp

omit [LawfulTables] in
/-- The rules read the same of the block that they return, the queue number apart. -/
theorem Ruled.errors_settings (h : Ruled merged out listed protocols domains tooMany n) :
    n.errors = protocolErrors protocols ++ domainErrors domains ++ gridErrors n.settings ++
      viaErrors n.settings ++ pathErrors n.settings (lit "probe_path") ++
      pathErrors n.settings (lit "identity_path") ++ tooMany := by
  have hget {key : Str} (hne : key ≠ lit "queue") (default : Json) :
      out.get key default = n.settings.get key default := h.get_eq hne default
  rw [h.errors_eq, gridErrors, gridErrors, viaErrors, viaErrors, pathErrors, pathErrors, pathErrors,
    pathErrors]
  unfold Dict.get0
  rw [hget (by decide), hget (by decide), hget (by decide), hget (by decide), hget (by decide),
    hget (by decide)]

omit [LawfulTables] in
theorem Ruled.workers_settings (h : Ruled merged out listed protocols domains tooMany n) :
    workerErrors n.settings = .ok tooMany := by
  rw [← h.workers_eq, workerErrors, workerErrors, Dict.get0, Dict.get0, Dict.get0, Dict.get0,
    h.get_eq (by decide), h.get_eq (by decide)]

omit [LawfulTables] in
theorem Ruled.keys (h : Ruled merged out listed protocols domains tooMany n)
    (hkeys : merged.map (·.1) = settingsKeys) : n.settings.map (·.1) = settingsKeys := by
  rw [h.settings_eq, h.out_eq]
  exact keys_pinQueue (keys_setLists hkeys)

end Ruled

omit [Tables] [LawfulTables] in
theorem keptProtocols_self {protocols : List Str} (hnodup : protocols.Nodup)
    (h : ∀ p ∈ protocols, p ∈ knownProtocols) :
    keptProtocols (protocols.map .str) = protocols := by
  unfold keptProtocols
  rw [List.filterMap_map]
  conv_rhs => rw [← eraseDups_eq_self hnodup, ← List.filterMap_some (l := protocols)]
  congr 1
  apply List.filterMap_congr
  intro p hp
  exact if_pos (h p hp)

omit [LawfulTables] in
theorem keptDomains_self {domains : List Str} (hnodup : domains.Nodup)
    (h : ∀ d ∈ domains, d ≠ [] ∧ d.strip = d) :
    keptDomains (.arr (domains.map .str)) = domains := by
  rw [keptDomains, asCsv_self h, eraseDups_eq_self hnodup]
  apply List.filter_eq_self.mpr
  intro d hd
  simpa using (h d hd).1

/-- **Normalizing the settings that were accepted**, over another environment, changes nothing. -/
theorem normalizeSettings_idem (environ environ' : Str → Option Str) (values : Dict)
    {n : Normalized} (h : normalizeSettings values (settingsDefaults environ) = .ok n)
    (herrors : n.errors = []) :
    ∃ n', normalizeSettings n.settings (settingsDefaults environ') = .ok n' ∧
      n'.settings = n.settings ∧ n'.errors = [] := by
  obtain ⟨out, listed, protocols, domains, tooMany, hruled⟩ := ruled_of_ok (defaults_clean environ) h
  have hkept := keptProtocols_spec (listed.map .str)
  rw [← hruled.protocols_eq] at hkept
  have hnodup := keptDomains_nodup
    ((normalize settingsSpec values (settingsDefaults environ)).1.get (lit "domains") (.arr []))
  rw [← hruled.domains_eq] at hnodup
  have hparts := herrors
  rw [hruled.errors_eq] at hparts
  simp only [List.append_eq_nil_iff, domainErrors_eq_nil] at hparts
  obtain ⟨⟨⟨⟨⟨⟨_, _, hvalid⟩, _⟩, _⟩, _⟩, _⟩, _⟩ := hparts
  -- the second merge is the first result
  have hfixed := hruled.fixed (normalize_fixed (defaults_fixed environ) values) hvalid
  have hkeys := hruled.keys (keys_normalize (keys_envDefaults environ settingsSpec (lit "BCW_"))
    values)
  have hmerged := normalize_eq_self hfixed hkeys
    (keys_envDefaults environ' settingsSpec (lit "BCW_"))
  obtain ⟨n', hn'⟩ := normalizeSettings_ok environ' n.settings
  refine ⟨n', hn', ?_⟩
  obtain ⟨out', listed', protocols', domains', tooMany', hruled'⟩ :=
    ruled_of_ok (defaults_clean environ') hn'
  change (normalize settingsSpec n.settings (settingsDefaults environ')).1 = n.settings at hmerged
  rw [hmerged] at hruled'
  obtain rfl : protocols' = protocols := by
    have hlisted := hruled'.listed_eq
    rw [hruled.lookup_protocols] at hlisted
    rw [hruled'.protocols_eq, ← Json.arr.inj (Option.some.inj hlisted),
      keptProtocols_self hkept.1 hkept.2]
  obtain rfl : domains' = domains := by
    rw [hruled'.domains_eq, get_of_lookup hruled.lookup_domains,
      keptDomains_self hnodup fun d hd => (hvalid d hd).clean]
  have hout : out' = n.settings := by
    rw [hruled'.out_eq, setLists, Dict.set_eq_self hruled.lookup_protocols,
      Dict.set_eq_self hruled.lookup_domains]
  have hsettings : n'.settings = n.settings := by
    rw [hruled'.settings_eq, hout, pinQueue, Dict.get0,
      get_of_lookup (hruled.lookup_queue (normalize_clean (defaults_clean environ) values))]
    exact if_pos (by decide)
  obtain rfl : tooMany' = tooMany := by
    have hworkers := hruled'.workers_settings
    rw [hsettings, hruled.workers_settings] at hworkers
    exact (Except.ok.inj hworkers).symm
  refine ⟨hsettings, ?_⟩
  rw [hruled'.errors_settings, hsettings, ← hruled.errors_settings, herrors]

/-- **The harness runs what the panel accepted**: it reads the accepted settings back without
errors, whatever its own environment is, and plans the command lines of these settings. -/
theorem harness_agrees (environ environ' : Str → Option Str) (values : Dict) {n : Normalized}
    (h : normalizeSettings values (settingsDefaults environ) = .ok n) (herrors : n.errors = []) :
    ∃ n', settingsFromFile environ' (some n.settings) = .ok n' ∧ n'.settings = n.settings ∧
      n'.errors = [] ∧
      ∀ runDir, ∃ p, plan n'.settings runDir = .ok p ∧ plan n.settings runDir = .ok p := by
  obtain ⟨n', hn', hsettings, herrors'⟩ := normalizeSettings_idem environ environ' values h herrors
  refine ⟨n', hn', hsettings, herrors', fun runDir => ?_⟩
  have hplannable := plannable_of_clean (normalizeSettings_clean (defaults_clean environ) h)
  obtain ⟨domains, hdomains⟩ := hplannable.domains
  obtain ⟨p, hp, _⟩ := plan_ok hplannable hdomains runDir
  exact ⟨p, by rw [hsettings, hp], hp⟩

omit [Tables] [LawfulTables] in
/-- The harness has an environment that says `7` of everything. -/
theorem harness_agrees_gateway :
    letI := Tables.asciiWhole
    ∃ n, normalizeSettings [(lit "min_share", .int 3), (lit "via", .str (lit " wg0 "))]
        (settingsDefaults fun _ => none) = .ok n ∧
      ∃ n', settingsFromFile (fun _ => some (lit "7")) (some n.settings) = .ok n' ∧
        n'.settings = n.settings ∧ n'.errors = [] := by
  obtain ⟨n, hn, herrors⟩ : letI := Tables.asciiWhole
      ∃ n, normalizeSettings [(lit "min_share", .int 3), (lit "via", .str (lit " wg0 "))]
        (settingsDefaults fun _ => none) = .ok n ∧ n.errors = [] := ⟨_, rfl, rfl⟩
  obtain ⟨n', hn', hsettings, herrors', _⟩ :=
    @harness_agrees Tables.asciiWhole lawful_asciiWhole (fun _ => none) (fun _ => some (lit "7")) _
      n hn herrors
  exact ⟨n, hn, n', hn', hsettings, herrors'⟩

end WebZapret.Selection
