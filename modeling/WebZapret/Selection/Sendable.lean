import WebZapret.Selection.Stable
import WebZapret.Selection.Store
import WebZapret.Lib.Py.Printing

/-!
# Blocks that can be sent

A response repeats the normalized block with its warnings and errors. Numbers, words and choices are
printed by the program itself, and what is quoted is escaped; but a text or a list is repeated as it was
submitted. So the block of an update can be sent exactly when the texts and lists of the update can
(`settings_sendable_iff`), and that of a schedule when its time can (`schedule_sendable_iff`).
-/

namespace WebZapret.Selection

open Py Failing

variable [Tables]

/-- What is repeated of a submitted value can be encoded. -/
def Prints (spec : Spec) (raw : Json) : Prop :=
  match spec.kind with
  | .str => EncodableText raw.text
  | .csv =>
    match raw with
    | .arr items => ∀ x ∈ items, EncodableText x.text
    | raw => EncodableText raw.text
  | _ => True

omit [Tables] in
/-- The texts of an item can be encoded. -/
structure Spec.Encodes (spec : Spec) : Prop where
  key : EncodableText spec.key
  default : spec.default.encodable = true
  lo : spec.lo.encodable = true
  hi : spec.hi.encodable = true
  choices : ∀ t ∈ spec.choices, EncodableText t

variable {spec : Spec}

/-! ## Coercion -/

theorem encodableText_asCsv_arr {items : List Json} :
    (∀ t ∈ asCsv (.arr items), EncodableText t) ↔ ∀ x ∈ items, EncodableText x.text := by
  unfold asCsv
  constructor
  · intro h x hx
    by_cases hempty : x.text.strip = []
    · rw [← encodableText_strip, hempty]
      exact encodableText_nil
    · rw [← encodableText_strip]
      exact h _ (List.mem_filter.mpr ⟨List.mem_map_of_mem hx, by simpa using hempty⟩)
  · intro h t ht
    obtain ⟨x, hx, rfl⟩ := List.mem_map.mp (List.mem_of_mem_filter ht)
    exact encodableText_strip.mpr (h x hx)

omit [Tables] in
theorem encodableText_commas {s : Str} :
    EncodableText (s.map fun c => if c = 44 then 32 else c) ↔ EncodableText s := by
  unfold EncodableText
  rw [List.forall_mem_map]
  refine forall₂_congr fun c _ => ?_
  split <;> omega

variable [EncodableTables]

theorem encodableText_asCsv {raw : Json} (h : ∀ items, raw ≠ .arr items) :
    (∀ t ∈ asCsv raw, EncodableText t) ↔ EncodableText raw.text := by
  have hcsv : asCsv raw =
      Str.words ((raw.or (.str [])).text.map fun c => if c = 44 then 32 else c) := by
    cases raw with
    | arr items => exact absurd rfl (h items)
    | _ => rfl
  rw [hcsv, encodableText_words, encodableText_commas, Json.or]
  by_cases htruthy : raw.truthy
  · rw [if_pos htruthy]
  · rw [if_neg htruthy]
    refine iff_of_true encodableText_nil (Json.encodableText_text.mpr ?_)
    rintro s rfl
    have hempty : s = [] := by simpa [Json.truthy] using htruthy
    rw [hempty]
    exact encodableText_nil

/-- What coercion takes over of a value. -/
theorem coerce_encodable (hspec : spec.WellFormed) (henc : spec.Encodes) {raw v : Json}
    (h : coerce spec raw = .ok v) : v.encodable = true ↔ Prints spec raw := by
  have hclean := coerce_clean hspec h
  have hdefault := henc.default
  unfold coerce at h
  unfold Clean at hclean
  unfold Prints
  cases hkind : spec.kind with
  | bool =>
    rw [hkind] at hclean
    obtain ⟨b, rfl⟩ := hclean
    exact iff_of_true rfl trivial
  | int =>
    rw [hkind] at hclean
    obtain ⟨_, _, i, _, _, rfl, _⟩ := hclean
    exact iff_of_true rfl trivial
  | float =>
    rw [hkind] at hclean
    obtain ⟨_, _, x, _, _, rfl, _⟩ := hclean
    exact iff_of_true rfl trivial
  | enum =>
    rw [hkind] at hclean
    obtain ⟨text, htext, rfl⟩ := hclean
    exact iff_of_true (Json.encodable_str.mpr (henc.choices text htext)) trivial
  | str =>
    rw [hkind] at h
    dsimp only at h ⊢
    split at h
    · cases h
      refine iff_of_true (Json.encodable_str.mpr ?_) (encodableText_lit _)
      exact encodableText_strip.mpr (Json.encodableText_text_of_encodable hdefault)
    · cases h
      exact Json.encodable_str.trans encodableText_strip
  | csv =>
    rw [hkind] at h
    dsimp only at h ⊢
    split at h
    · cases h
      exact iff_of_true hdefault (encodableText_lit _)
    · cases h
      refine Json.encodable_texts.trans ?_
      split
      · exact encodableText_asCsv_arr
      · rename_i hother
        exact encodableText_asCsv hother

/-- The text of a refusal quotes the value. -/
theorem coerce_error_encodable {raw : Json} {text : Str} (h : coerce spec raw = .error text) :
    EncodableText text := by
  have hnumber : EncodableText (notANumber raw) := by
    simp [notANumber, encodableText_append, Json.encodableText_repr]
  unfold coerce at h
  split at h
  · cases h
  · unfold asInt at h
    split at h
    · cases h
      exact hnumber
    · split at h
      · split at h
        · cases h
        · rename_i hint
          cases h
          exact Json.toInt_error_encodes hint
        · cases h
          exact encodableText_nil
      · cases h
        exact hnumber
  · unfold asFloat at h
    split at h
    · cases h
      exact hnumber
    · split at h
      · cases h
      · cases h
        exact hnumber
  · split at h <;> cases h
  · cases h
  · split at h <;> cases h

/-! ## Warnings -/

theorem clampWarning_encodable (henc : spec.Encodes) (raw : Json) {value : Json}
    (hvalue : value.encodable = true) : ∀ w ∈ clampWarning spec raw value, EncodableText w := by
  unfold clampWarning
  split
  · rename_i numeric hnumeric
    split
    · have hraw : EncodableText raw.text :=
        encodableText_strip.mp (EncodableTables.parseFloat _ _ hnumeric)
      simp [encodableText_append, henc.key, hraw, Json.encodableText_text_of_encodable hvalue,
        Json.encodableText_text_of_encodable henc.lo, Json.encodableText_text_of_encodable henc.hi]
    · exact List.forall_mem_nil _
  · exact List.forall_mem_nil _

theorem normalizeKey_warnings (hspec : spec.WellFormed) (henc : spec.Encodes) (values base : Dict)
    {acc : Dict × List Str} (hacc : ∀ w ∈ acc.2, EncodableText w) :
    ∀ w ∈ (normalizeKey values base acc spec).2, EncodableText w := by
  unfold normalizeKey
  split
  · exact hacc
  · rename_i raw _
    split
    · rename_i text htext
      refine List.forall_mem_append.mpr ⟨hacc, ?_⟩
      simp [encodableText_append, henc.key, coerce_error_encodable htext, Json.encodableText_repr]
    · rename_i value hvalue
      refine List.forall_mem_append.mpr ⟨hacc, ?_⟩
      split
      · rename_i hkind
        refine clampWarning_encodable henc raw ((coerce_encodable hspec henc hvalue).mpr ?_)
        unfold Prints
        rcases hkind with hkind | hkind <;> rw [hkind] <;> trivial
      · exact List.forall_mem_nil _

/-- The warnings quote and print only. -/
theorem normalize_warnings {specs : List Spec} (hspecs : ∀ spec ∈ specs, spec.WellFormed)
    (henc : ∀ spec ∈ specs, spec.Encodes) (values base : Dict) :
    ∀ w ∈ (normalize specs values base).2, EncodableText w := by
  unfold normalize
  suffices hloop : ∀ acc : Dict × List Str, (∀ w ∈ acc.2, EncodableText w) →
      ∀ w ∈ (specs.foldl (normalizeKey values base) acc).2, EncodableText w from
    hloop (base, []) nofun
  induction specs with
  | nil => exact fun _ hacc => hacc
  | cons spec specs ih =>
    obtain ⟨hspec, hrest⟩ := List.forall_mem_cons.mp hspecs
    obtain ⟨hfirst, hencs⟩ := List.forall_mem_cons.mp henc
    intro acc hacc
    exact ih hrest hencs _ (normalizeKey_warnings hspec hfirst values base hacc)

/-! ## Values -/

/-- A value that comes from a file in UTF-8 prints. -/
theorem prints_of_encodable {raw : Json} (h : raw.encodable = true) :
    Prints spec raw := by
  unfold Prints
  split
  · exact Json.encodableText_text_of_encodable h
  · split
    · intro x hx
      exact Json.encodableText_text_of_encodable (Json.encodable_arr.mp h x hx)
    · exact Json.encodableText_text_of_encodable h
  · trivial

omit [EncodableTables] in
/-- Only numbers are refused. -/
theorem prints_of_error {raw : Json} {text : Str} (h : coerce spec raw = .error text) :
    Prints spec raw := by
  unfold coerce at h
  unfold Prints
  cases hkind : spec.kind with
  | int => trivial
  | float => trivial
  | bool => trivial
  | enum => trivial
  | str =>
    rw [hkind] at h
    dsimp only at h
    split at h <;> cases h
  | csv =>
    rw [hkind] at h
    dsimp only at h
    split at h <;> cases h

/-- The value that `normalize` takes for a key. -/
theorem effective_encodable (hspec : spec.WellFormed) (henc : spec.Encodes) (values base : Dict)
    (hbase : ∀ v, base.lookup spec.key = some v → v.encodable = true) :
    (∀ v, effective spec values base = some v → v.encodable = true) ↔
      ∀ raw, values.lookup spec.key = some raw → Prints spec raw := by
  unfold effective
  cases values.lookup spec.key with
  | none => exact iff_of_true hbase nofun
  | some raw =>
    dsimp only
    cases hraw : coerce spec raw with
    | error text =>
      refine iff_of_true hbase ?_
      rintro _ ⟨⟩
      exact prints_of_error hraw
    | ok value =>
      constructor
      · rintro h _ ⟨⟩
        exact (coerce_encodable hspec henc hraw).mp (h value rfl)
      · rintro h _ ⟨⟩
        exact (coerce_encodable hspec henc hraw).mpr (h raw rfl)

/-! ## Dicts -/

omit [Tables] [EncodableTables] in
/-- A dict can be encoded when its keys and the values that they have can. -/
theorem encodable_dict {d : Dict} (hkeys : (d.map (·.1)).Nodup)
    (hnames : ∀ key ∈ d.map (·.1), EncodableText key) :
    (Json.obj d).encodable = true ↔
      ∀ key ∈ d.map (·.1), ∀ v, d.lookup key = some v → v.encodable = true := by
  rw [Json.encodable_obj]
  constructor
  · intro h key _ v hv
    exact (h (key, v) (Dict.mem_of_lookup hv)).2
  · intro h m hm
    have hkey : m.1 ∈ d.map (·.1) := List.mem_map_of_mem hm
    exact ⟨hnames m.1 hkey, h m.1 hkey m.2 (Dict.lookup_of_mem hkeys hm)⟩

/-- The block that `normalize` makes. -/
theorem normalize_encodable {specs : List Spec} (hkeys : (specs.map (·.key)).Nodup)
    (hspecs : ∀ spec ∈ specs, spec.WellFormed) (henc : ∀ spec ∈ specs, spec.Encodes)
    {values base : Dict} (hbase : (Json.obj base).encodable = true) :
    (∀ spec ∈ specs, ∀ v, (normalize specs values base).1.lookup spec.key = some v →
      v.encodable = true) ↔
      ∀ spec ∈ specs, ∀ raw, values.lookup spec.key = some raw → Prints spec raw := by
  refine forall₂_congr fun spec hspec => ?_
  rw [normalize_lookup hkeys hspec]
  exact effective_encodable (hspecs spec hspec) (henc spec hspec) _ _ fun v hv =>
    (Json.encodable_obj.mp hbase _ (Dict.mem_of_lookup hv)).2

theorem envDefaults_encodable {specs : List Spec} (hspecs : ∀ spec ∈ specs, spec.WellFormed)
    (henc : ∀ spec ∈ specs, spec.Encodes) {environ : Str → Option Str}
    (henviron : ∀ name text, environ name = some text → EncodableText text) (keyPrefix : Str) :
    (Json.obj (envDefaults environ specs keyPrefix)).encodable = true := by
  rw [Json.encodable_obj]
  intro m hm
  obtain ⟨spec, hspec, rfl⟩ := List.mem_map.mp hm
  refine ⟨(henc spec hspec).key, ?_⟩
  dsimp only
  split
  · exact (henc spec hspec).default
  · rename_i text htext
    split
    · rename_i value hvalue
      refine (coerce_encodable (hspecs spec hspec) (henc spec hspec) hvalue).mpr ?_
      exact prints_of_encodable (Json.encodable_str.mpr (henviron _ text htext))
    · exact (henc spec hspec).default

/-! ## The settings -/

omit [Tables] [EncodableTables] in
theorem settingsSpec_encodes : ∀ spec ∈ settingsSpec, spec.Encodes := by
  have h : ∀ spec ∈ settingsSpec, EncodableText spec.key ∧ spec.default.encodable = true ∧
      spec.lo.encodable = true ∧ spec.hi.encodable = true ∧
      ∀ t ∈ spec.choices, EncodableText t := by decide
  intro spec hspec
  obtain ⟨hkey, hdefault, hlo, hhi, hchoices⟩ := h spec hspec
  exact ⟨hkey, hdefault, hlo, hhi, hchoices⟩

/-- The block and its texts can be encoded. -/
structure Normalized.Sendable (n : Normalized) : Prop where
  settings : (Json.obj n.settings).encodable = true
  warnings : ∀ w ∈ n.warnings, EncodableText w
  errors : ∀ e ∈ n.errors, EncodableText e

omit [EncodableTables] in
/-- The warnings of a block, beside what the rules make of it. -/
theorem ruled_warnings {values base : Dict} {n : Normalized} (h : Values Clean settingsSpec base)
    (hn : normalizeSettings values base = .ok n) :
    ∃ out listed protocols domains tooManyWorkers bad,
      Ruled (normalize settingsSpec values base).1 out listed protocols domains tooManyWorkers n ∧
        protocolWarnings (listed.map .str) = .ok bad ∧
        n.warnings = (normalize settingsSpec values base).2 ++ unknownWarnings values ++ bad ++
          queueWarnings out := by
  have hclean := normalize_clean h values
  obtain ⟨listed, hlisted, _⟩ := values_csv hclean csvSpec_protocols_mem
  unfold normalizeSettings at hn
  dsimp only at hn
  obtain ⟨items, hitems, hn⟩ := bind_eq_ok.mp hn
  obtain ⟨bad, hbad, hn⟩ := bind_eq_ok.mp hn
  obtain ⟨tooMany, htooMany, hn⟩ := bind_eq_ok.mp hn
  rw [get_of_lookup hlisted] at hitems
  cases hitems
  cases hn
  refine ⟨_, listed, _, _, tooMany, bad, ⟨hlisted, rfl, ?_, rfl, htooMany, rfl, rfl⟩, hbad, rfl⟩
  rw [Dict.get, Dict.lookup_set_ne _ (by decide), Dict.get]

omit [Tables] [EncodableTables] in
theorem knownProtocols_encodable : ∀ p ∈ knownProtocols, EncodableText p := by decide

omit [Tables] [EncodableTables] in
/-- The unknown protocols are repeated in a warning. -/
theorem protocolWarnings_encodable {listed bad : List Str}
    (h : protocolWarnings (listed.map .str) = .ok bad) :
    (∀ w ∈ bad, EncodableText w) ↔ ∀ p ∈ listed, EncodableText p := by
  have hfilter : (listed.map Json.str).filter (fun p => !isProtocol p) =
      (listed.filter fun p => decide (p ∉ knownProtocols)).map .str := by
    rw [List.filter_map]
    congr 1
    apply List.filter_congr
    intro p _
    simp [isProtocol]
  have hparts : (∀ p ∈ listed.filter (fun p => decide (p ∉ knownProtocols)), EncodableText p) ↔
      ∀ p ∈ listed, EncodableText p := by
    constructor
    · intro hall p hp
      by_cases hknown : p ∈ knownProtocols
      · exact knownProtocols_encodable p hknown
      · exact hall p (List.mem_filter.mpr ⟨hp, by simpa using hknown⟩)
    · exact fun hall p hp => hall p (List.mem_of_mem_filter hp)
  unfold protocolWarnings at h
  rw [hfilter] at h
  rw [← hparts]
  dsimp only at h
  split at h
  · rename_i hnone
    cases h
    have hnil : listed.filter (fun p => decide (p ∉ knownProtocols)) = [] := by
      simpa using hnone
    rw [hnil]
  · rw [joinComma_texts] at h
    cases h
    rw [List.forall_mem_singleton, encodableText_append, encodableText_join (encodableText_lit _)]
    exact and_iff_right (encodableText_lit _)

section Ruled

variable {merged out : Dict} {listed protocols domains tooMany : List Str} {n : Normalized}

/-- The errors quote and print only. -/
theorem Ruled.errors_encodable (h : Ruled merged out listed protocols domains tooMany n)
    (hclean : Values Clean settingsSpec merged) : ∀ e ∈ n.errors, EncodableText e := by
  have hpath (key : String) : ∀ e ∈ pathErrors out (lit key), EncodableText e := by
    unfold pathErrors
    split
    · exact nofun
    · simp [encodableText_append]
  have hworkers : ∀ e ∈ tooMany, EncodableText e := by
    obtain ⟨i, hi, _⟩ := values_int hclean intSpec_workers_mem
    obtain ⟨j, hj, _⟩ := values_int hclean intSpec_profiles_mem
    have heq := h.workers_eq
    unfold workerErrors at heq
    rw [Dict.get0, Dict.get0, get_of_lookup (v := .int i), get_of_lookup (v := .int j)] at heq
    · obtain ⟨exceeds, _, heq⟩ := bind_eq_ok.mp heq
      split at heq
      · obtain ⟨a, ha, heq⟩ := bind_eq_ok.mp heq
        obtain ⟨b, hb, heq⟩ := bind_eq_ok.mp heq
        cases ha
        cases hb
        cases heq
        simp [encodableText_append]
      · cases heq
        exact nofun
    · rw [h.out_eq, lookup_setLists_ne (by decide) (by decide), hj]
    · rw [h.out_eq, lookup_setLists_ne (by decide) (by decide), hi]
  have hprotocols : ∀ e ∈ protocolErrors protocols, EncodableText e := by
    unfold protocolErrors
    split
    · have hknown : EncodableText (Str.join (lit ",") knownProtocols) := by decide
      simp [encodableText_append, hknown]
    · exact nofun
  have hdomains : ∀ e ∈ domainErrors domains, EncodableText e := by
    unfold domainErrors
    refine List.forall_mem_append.mpr ⟨?_, ?_⟩
    · rw [List.forall_mem_map]
      intro d _
      simp [encodableText_append]
    · split
      · simp
      · exact nofun
  have hgrid : ∀ e ∈ gridErrors out, EncodableText e := by
    unfold gridErrors
    split
    · simp
    · exact nofun
  have hvia : ∀ e ∈ viaErrors out, EncodableText e := by
    unfold viaErrors
    split
    · simp [encodableText_append]
    · exact nofun
  rw [h.errors_eq]
  simp only [List.forall_mem_append]
  exact ⟨⟨⟨⟨⟨⟨hprotocols, hdomains⟩, hgrid⟩, hvia⟩, hpath _⟩, hpath _⟩, hworkers⟩

omit [EncodableTables] in
/-- The domains that are kept are those that are listed. -/
theorem Ruled.mem_domains (h : Ruled merged out listed protocols domains tooMany n)
    (hclean : Values Clean settingsSpec merged) :
    ∃ texts : List Str, merged.lookup (lit "domains") = some (.arr (texts.map .str)) ∧
      ∀ d, d ∈ domains ↔ d ∈ texts := by
  obtain ⟨texts, htexts, hstripped⟩ := values_csv hclean csvSpec_domains_mem
  refine ⟨texts, htexts, fun d => ?_⟩
  rw [h.domains_eq, keptDomains, get_of_lookup htexts, asCsv_self hstripped, List.mem_filter,
    List.mem_eraseDups]
  exact and_iff_left_of_imp fun hd => by simpa using (hstripped d hd).1

end Ruled

section Settings

variable {values base : Dict} {n : Normalized}

/-- A normalized block can be sent when the block before the rules can. -/
theorem settings_sendable_merged (hclean : Values Clean settingsSpec base)
    (hkeys : base.map (·.1) = settingsKeys) (hunknown : ∀ key ∈ values.map (·.1), EncodableText key)
    (hn : normalizeSettings values base = .ok n) :
    n.Sendable ↔ ∀ spec ∈ settingsSpec, ∀ v,
      (normalize settingsSpec values base).1.lookup spec.key = some v → v.encodable = true := by
  obtain ⟨out, listed, protocols, domains, tooMany, bad, hruled, hbad, hwarnings⟩ :=
    ruled_warnings hclean hn
  have hmerged := normalize_clean hclean values
  have hsettings : n.settings.map (·.1) = settingsKeys := hruled.keys (keys_normalize hkeys values)
  obtain ⟨texts, htexts, hdomains⟩ := hruled.mem_domains hmerged
  have hdict := encodable_dict (d := n.settings) (hsettings ▸ settingsSpec_nodup)
    (hsettings ▸ List.forall_mem_map.mpr fun spec hspec => (settingsSpec_encodes spec hspec).key)
  have hqueue : n.settings.lookup (lit "queue") = some (.int bcwQueueFixed) :=
    hruled.lookup_queue hmerged
  constructor
  · intro h spec hspec v hv
    have hvalues := hdict.mp h.settings
    rw [hsettings] at hvalues
    by_cases hprotocols : spec.key = lit "protocols"
    · rw [hprotocols, hruled.listed_eq] at hv
      cases hv
      refine Json.encodable_texts.mpr ((protocolWarnings_encodable hbad).mp fun w hw => ?_)
      refine h.warnings w ?_
      rw [hwarnings]
      simp [hw]
    by_cases hdomain : spec.key = lit "domains"
    · rw [hdomain, htexts] at hv
      cases hv
      have hkept := hvalues (lit "domains") (by decide) _ hruled.lookup_domains
      exact Json.encodable_texts.mpr fun d hd => Json.encodable_texts.mp hkept d ((hdomains d).mpr hd)
    by_cases hpinned : spec.key = lit "queue"
    · obtain ⟨i, hi, _⟩ := values_int hmerged intSpec_queue_mem
      rw [hpinned, hi] at hv
      cases hv
      rfl
    · rw [← hruled.lookup_eq hprotocols hdomain hpinned] at hv
      exact hvalues spec.key (List.mem_map_of_mem hspec) v hv
  · intro h
    refine ⟨hdict.mpr ?_, ?_, hruled.errors_encodable hmerged⟩
    · rw [hsettings]
      intro key hkey v hv
      obtain ⟨spec, hspec, rfl⟩ := List.mem_map.mp hkey
      by_cases hprotocols : spec.key = lit "protocols"
      · rw [hprotocols, hruled.lookup_protocols] at hv
        cases hv
        refine Json.encodable_texts.mpr fun p hp => ?_
        rw [hruled.protocols_eq] at hp
        exact knownProtocols_encodable p ((keptProtocols_spec _).2 p hp)
      by_cases hdomain : spec.key = lit "domains"
      · rw [hdomain, hruled.lookup_domains] at hv
        cases hv
        have hlisted := h _ csvSpec_domains_mem _ htexts
        exact Json.encodable_texts.mpr fun d hd =>
          Json.encodable_texts.mp hlisted d ((hdomains d).mp hd)
      by_cases hpinned : spec.key = lit "queue"
      · rw [hpinned, hqueue] at hv
        cases hv
        rfl
      · rw [hruled.lookup_eq hprotocols hdomain hpinned] at hv
        exact h spec hspec v hv
    · have hlisted := Json.encodable_texts.mp (h _ csvSpec_protocols_mem _ hruled.listed_eq)
      have hunknown' : ∀ w ∈ unknownWarnings values, EncodableText w := by
        unfold unknownWarnings
        dsimp only
        split
        · exact nofun
        · rw [List.forall_mem_singleton, encodableText_append,
            encodableText_join (encodableText_lit _)]
          refine ⟨encodableText_lit _, fun key hkey => hunknown key ?_⟩
          exact List.mem_of_mem_filter (List.mem_mergeSort.mp hkey)
      have hpin : ∀ w ∈ queueWarnings out, EncodableText w := by
        obtain ⟨i, hi, _⟩ := values_int hmerged intSpec_queue_mem
        have hout : out.lookup (lit "queue") = some (.int i) := by
          rw [hruled.out_eq, lookup_setLists_ne (by decide) (by decide), hi]
        unfold queueWarnings
        rw [Dict.get0, get_of_lookup hout]
        split
        · exact nofun
        · have htext : EncodableText (Json.int i).text := encodableText_intStr i
          simp [encodableText_append, htext]
      rw [hwarnings]
      simp only [List.forall_mem_append]
      exact ⟨⟨⟨normalize_warnings settingsSpec_wellFormed settingsSpec_encodes values base, hunknown'⟩,
        (protocolWarnings_encodable hbad).mpr hlisted⟩, hpin⟩

/-- **When the normalized settings can be sent.** -/
theorem settings_sendable_iff {environ : Str → Option Str}
    (henviron : ∀ name text, environ name = some text → EncodableText text)
    (hunknown : ∀ key ∈ values.map (·.1), EncodableText key)
    (hn : normalizeSettings values (settingsDefaults environ) = .ok n) :
    n.Sendable ↔ ∀ spec ∈ settingsSpec, ∀ raw, values.lookup spec.key = some raw → Prints spec raw := by
  have hbase := envDefaults_encodable settingsSpec_wellFormed settingsSpec_encodes henviron (lit "BCW_")
  rw [settings_sendable_merged (defaults_clean environ) (keys_envDefaults environ settingsSpec _) hunknown
    hn]
  exact normalize_encodable settingsSpec_nodup settingsSpec_wellFormed settingsSpec_encodes hbase

omit [Tables] [EncodableTables] in
theorem persisted_encodable {file : SettingsFile}
    (h : ∀ d, file = some d → (Json.obj d).encodable = true) :
    (Json.obj (persisted file)).encodable = true := by
  cases hfile : file with
  | none => rfl
  | some d => exact h d hfile

/-- Settings that are read from a file can be sent. -/
theorem loadSettings_sendable {environ : Str → Option Str} {file : SettingsFile}
    (henviron : ∀ name text, environ name = some text → EncodableText text)
    (hfile : (Json.obj (persisted file)).encodable = true) :
    Succeeds (loadSettings environ file) Normalized.Sendable := by
  obtain ⟨n, hn⟩ := normalizeSettings_ok environ (persisted file)
  rw [Json.encodable_obj] at hfile
  refine ⟨n, hn, (settings_sendable_iff henviron ?_ hn).mpr ?_⟩
  · exact List.forall_mem_map.mpr fun m hm => (hfile m hm).1
  · exact fun spec _ raw hraw => prints_of_encodable (hfile _ (Dict.mem_of_lookup hraw)).2

/-- What an update repeats can be encoded. -/
def UpdatePrints (values : Dict) : Prop :=
  ∀ spec ∈ settingsSpec, ∀ raw, (updateKnown settingsKeys [] values).lookup spec.key = some raw →
    Prints spec raw

/-- **A save of the settings can be answered when what the update repeats can be encoded.** -/
theorem saveSettings_sendable {environ : Str → Option Str} {file : SettingsFile}
    (henviron : ∀ name text, environ name = some text → EncodableText text)
    (hfile : (Json.obj (persisted file)).encodable = true) (values : Dict) (writes : Bool) :
    Succeeds (saveSettings environ values writes file) fun saved =>
      (saved.2.merged.Sendable ↔ UpdatePrints values) ∧
        (saved.2.saved = true → writes = true ∧
          saved.1 = some (updateKnown settingsKeys (persisted file) values)) := by
  obtain ⟨merged, hmerged, hsave⟩ := saveSettings_eq environ values writes file
  refine ⟨_, hsave, ?_, ?_⟩
  · have hreport : (writeMerged file (updateKnown settingsKeys (persisted file) values) merged
        writes).2.merged = merged := by
      unfold writeMerged
      split <;> rfl
    have hkeys : ∀ key ∈ (updateKnown settingsKeys (persisted file) values).map (·.1),
        EncodableText key := by
      intro key hkey
      rcases mem_keys_updateKnown hkey with hkey | hkey
      · obtain ⟨m, hm, rfl⟩ := List.mem_map.mp hkey
        exact (Json.encodable_obj.mp hfile m hm).1
      · obtain ⟨spec, hspec, rfl⟩ := List.mem_map.mp hkey
        exact (settingsSpec_encodes spec hspec).key
    rw [hreport, settings_sendable_iff henviron hkeys hmerged]
    unfold UpdatePrints
    refine forall₂_congr fun spec hspec => ?_
    rw [updateKnown_or settingsKeys spec.key (e := []) (c := persisted file) rfl values]
    cases (updateKnown settingsKeys [] values).lookup spec.key with
    | some raw => rfl
    | none =>
      refine iff_of_true (fun raw hraw => ?_) nofun
      exact prints_of_encodable (Json.encodable_obj.mp hfile _ (Dict.mem_of_lookup hraw)).2
  · intro hsaved
    refine ⟨?_, congrArg Prod.fst (writeMerged_saved hsaved)⟩
    unfold writeMerged at hsaved
    split at hsaved
    · exact hsaved
    · cases hsaved

end Settings

/-! ## The schedule -/

omit [Tables] [EncodableTables] in
theorem scheduleSpec_encodes : ∀ spec ∈ scheduleSpec, spec.Encodes := by
  have h : ∀ spec ∈ scheduleSpec, EncodableText spec.key ∧ spec.default.encodable = true ∧
      spec.lo.encodable = true ∧ spec.hi.encodable = true ∧
      ∀ t ∈ spec.choices, EncodableText t := by decide
  intro spec hspec
  obtain ⟨hkey, hdefault, hlo, hhi, hchoices⟩ := h spec hspec
  exact ⟨hkey, hdefault, hlo, hhi, hchoices⟩

/-- The item of the time of day. -/
def atSpec : Spec := ⟨lit "at", .str, .str (lit "04:00"), .null, .null, []⟩

omit [EncodableTables] in
/-- The other items of a schedule are printed by the program. -/
theorem schedule_prints {spec : Spec} (hspec : spec ∈ scheduleSpec) (hat : spec.key ≠ lit "at")
    (hdays : spec.key ≠ lit "days") (raw : Json) : Prints spec raw := by
  have hkinds : ∀ spec ∈ scheduleSpec, spec.key ≠ lit "at" → spec.key ≠ lit "days" →
      spec.kind ≠ .str ∧ spec.kind ≠ .csv := by decide
  obtain ⟨hstr, hcsv⟩ := hkinds spec hspec hat hdays
  unfold Prints
  split
  · contradiction
  · contradiction
  · trivial

omit [Tables] [EncodableTables] in
/-- The days and the interval of a normalized schedule are printed by the program. -/
theorem scheduleBlock_encodable {merged : Dict} (hkeys : merged.map (·.1) = scheduleKeys)
    {days : List Str} (hdays : ∀ d ∈ days, EncodableText d) (minutes : Int) :
    (Json.obj ((merged.set (lit "days") (.arr (days.map .str))).set (lit "interval_min")
      (.int minutes))).encodable = true ↔
      ∀ key ∈ scheduleKeys, key ≠ lit "days" → key ≠ lit "interval_min" →
        ∀ v, merged.lookup key = some v → v.encodable = true := by
  have hfirst : (merged.set (lit "days") (.arr (days.map .str))).map (·.1) = scheduleKeys := by
    rw [Dict.keys_set (by rw [hkeys]; decide), hkeys]
  have hset : ((merged.set (lit "days") (.arr (days.map .str))).set (lit "interval_min")
      (.int minutes)).map (·.1) = scheduleKeys := by
    rw [Dict.keys_set (by rw [hfirst]; decide), hfirst]
  have hnodup : scheduleKeys.Nodup := by decide
  have hnames : ∀ key ∈ scheduleKeys, EncodableText key := by decide
  rw [encodable_dict (by rwa [hset]) (by rwa [hset]), hset]
  refine forall₂_congr fun key _ => ?_
  by_cases hminutes : key = lit "interval_min"
  · rw [hminutes, Dict.lookup_set_self]
    simp
  by_cases hday : key = lit "days"
  · rw [hday, Dict.lookup_set_ne _ (by decide), Dict.lookup_set_self]
    refine iff_of_true ?_ fun hne => absurd rfl hne
    rintro _ ⟨⟩
    exact Json.encodable_texts.mpr hdays
  · rw [Dict.lookup_set_ne _ hminutes, Dict.lookup_set_ne _ hday]
    simp [hday, hminutes]

/-- **When the normalized schedule can be sent.** -/
theorem schedule_sendable_iff {environ : Str → Option Str} {values : Dict} {n : Normalized}
    (henviron : ∀ name text, environ name = some text → EncodableText text)
    (hn : normalizeSchedule values (scheduleDefaults environ) = .ok n) :
    n.Sendable ↔ ∀ raw, values.lookup (lit "at") = some raw → EncodableText raw.text := by
  have hkeys : (scheduleSpec.map (·.key)).Nodup := by decide
  have hbase := envDefaults_encodable scheduleSpec_wellFormed scheduleSpec_encodes henviron
    (lit "BCW_SCHEDULE_")
  have heffective {spec : Spec} (hspec : spec ∈ scheduleSpec) := effective_encodable
    (scheduleSpec_wellFormed spec hspec) (scheduleSpec_encodes spec hspec) values
    (scheduleDefaults environ) fun v hv =>
      (Json.encodable_obj.mp hbase _ (Dict.mem_of_lookup hv)).2
  have hlookup {spec : Spec} (hspec : spec ∈ scheduleSpec) :=
    normalize_lookup hkeys hspec values (scheduleDefaults environ)
  have hmergedKeys : (normalize scheduleSpec values (scheduleDefaults environ)).1.map (·.1) =
      scheduleSpec.map (·.key) := keys_normalize (keys_envDefaults environ scheduleSpec _) values
  have hwarnings := normalize_warnings scheduleSpec_wellFormed scheduleSpec_encodes values
    (scheduleDefaults environ)
  have hat : atSpec ∈ scheduleSpec := List.mem_of_getElem? (i := 3) rfl
  have hprints : (∀ raw, values.lookup atSpec.key = some raw → Prints atSpec raw) ↔
      ∀ raw, values.lookup (lit "at") = some raw → EncodableText raw.text := Iff.rfl
  unfold normalizeSchedule at hn
  dsimp only at hn
  obtain ⟨items, _, hn⟩ := bind_eq_ok.mp hn
  obtain ⟨minutes, _, hn⟩ := bind_eq_ok.mp hn
  cases hn
  have hdays : ∀ d ∈ (if knownDays items = [] then weekdays else (knownDays items).eraseDups),
      EncodableText d := by
    have hweekdays : ∀ d ∈ weekdays, EncodableText d := by decide
    split
    · exact hweekdays
    · intro d hd
      exact hweekdays d (mem_weekdays_of_known (List.mem_eraseDups.mp hd))
  have herrors (wrong : Prop) [Decidable wrong] (time : Json) :
      ∀ e ∈ if wrong then [lit "at: expected HH:MM, got " ++ time.repr] else [], EncodableText e := by
    split
    · simp [encodableText_append, Json.encodableText_repr]
    · exact List.forall_mem_nil _
  have hdict := scheduleBlock_encodable hmergedKeys hdays (max 5 (min minutes 10080))
  rw [← hprints, ← heffective hat, ← hlookup hat]
  constructor
  · intro h
    exact hdict.mp h.settings (lit "at") (by decide) (by decide) (by decide)
  · intro h
    refine ⟨hdict.mpr fun key hkey hday hminutes v hv => ?_, ?_, ?_⟩
    · by_cases hatKey : key = lit "at"
      · rw [hatKey] at hv
        exact h v hv
      · obtain ⟨spec, hspec, rfl⟩ := List.mem_map.mp hkey
        rw [hlookup hspec] at hv
        exact (heffective hspec).mpr (fun raw _ => schedule_prints hspec hatKey hday raw) v hv
    · refine List.forall_mem_append.mpr ⟨hwarnings, ?_⟩
      split
      · simp
      · exact List.forall_mem_nil _
    · exact herrors _ _

/-- The time of an update can be encoded. -/
def TimePrints (values : Dict) : Prop :=
  ∀ raw, (updateKnown scheduleKeys [] values).lookup (lit "at") = some raw → EncodableText raw.text

/-- **A save of the schedule can be answered when its time can be encoded.** -/
theorem mergedSchedule_sendable {environ : Str → Option Str} {file : ScheduleFile} {state : Dict}
    (henviron : ∀ name text, environ name = some text → EncodableText text)
    (hstate : stateOf file = .ok state) (hfile : (Json.obj state).encodable = true) (body : Json) :
    Succeeds (mergedSchedule (scheduleDefaults environ) body file) (fun saved => saved.2.Sendable) ↔
      Succeeds (body.or (.obj [])).dict TimePrints := by
  unfold mergedSchedule TimePrints
  rw [succeeds_bind, hstate, succeeds_ok, succeeds_bind]
  refine succeeds_congr fun values _ => ?_
  obtain ⟨merged, hmerged⟩ := normalizeSchedule_ok environ (updateKnown scheduleKeys state values)
  rw [succeeds_bind]
  show Succeeds (normalizeSchedule (updateKnown scheduleKeys state values) _) _ ↔ _
  rw [hmerged, succeeds_ok]
  refine succeeds_ok.trans ?_
  rw [schedule_sendable_iff henviron hmerged,
    updateKnown_or scheduleKeys (lit "at") (e := []) (c := state) rfl values]
  cases (updateKnown scheduleKeys [] values).lookup (lit "at") with
  | some raw => rfl
  | none =>
    refine iff_of_true (fun raw hraw => ?_) nofun
    have hmember := Json.encodable_obj.mp hfile _ (Dict.mem_of_lookup hraw)
    exact Json.encodableText_text_of_encodable hmember.2

end WebZapret.Selection
