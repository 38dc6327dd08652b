import WebZapret.Catalog.Legacy

/-!
# Which legacy options are rendered

Whether a text is converted is decided once: a text with a native option is passed through as it is. So
its legacy options are still there when it is rendered, and only then (`legacy_survives_iff`).
-/

namespace WebZapret.Catalog

open Py Failing

/-- The words have native options and legacy ones. -/
def Mixed (ts : List Str) : Prop := HasLua ts ∧ AnyStarts ts (lit "--dpi-desync")

instance (ts : List Str) : Decidable (Mixed ts) := by
  unfold Mixed HasLua
  infer_instance

/-! ## What is no legacy option -/

/-- What begins otherwise is no legacy option. -/
theorem not_legacy_of_prefix {p a : Str} (hp : ¬p <+: lit "--dpi-desync") (hq : ¬lit "--dpi-desync" <+: p)
    (h : a.StartsWith p) : ¬a.StartsWith (lit "--dpi-desync") := by
  intro hlegacy
  rcases List.prefix_or_prefix_of_prefix h hlegacy with hle | hle
  · exact hp hle
  · exact hq hle

theorem profileBlock_converted {profile block : List Str} (h : profileBlock profile = .ok block) :
    ¬AnyStarts block (lit "--dpi-desync") := by
  unfold profileBlock at h
  by_cases hfilters : legacyFilters profile = []
  · rw [if_pos hfilters] at h
    cases h
    simp
  rw [if_neg hfilters] at h
  generalize payloadAndBlob (legacyFilters profile) = names at h
  obtain ⟨payload, blob⟩ := names
  obtain ⟨l, _, hrest⟩ := bind_eq_ok.mp h
  obtain ⟨desync, hdesync, hret⟩ := bind_eq_ok.mp hrest
  cases hret
  intro hlegacy
  obtain ⟨a, ha, hstarts⟩ := hlegacy
  rw [List.mem_append, List.mem_append, List.mem_singleton] at ha
  rcases ha with (hfilter | rfl) | hmade
  · exact absurd hstarts (by simpa using (List.mem_filter.mp hfilter).2)
  · exact not_legacy_of_prefix (by decide) (by decide) (List.prefix_append (lit "--payload=") payload)
      hstarts
  · obtain ⟨mode, _, hmode⟩ := mem_of_mapM hdesync hmade
    exact not_legacy_of_prefix (by decide) (by decide) (desync_startsWith hmode) hstarts

theorem legacyArgs_converted {ts args : List Str} (h : legacyArgs ts = .ok args) :
    ¬AnyStarts args (lit "--dpi-desync") := by
  rw [legacyArgs_eq] at h
  cases hblocks : (ts.splitOn (lit "--new")).mapM profileBlock with
  | error e =>
    rw [hblocks] at h
    cases h
  | ok blocks =>
    rw [hblocks] at h
    cases h
    intro hlegacy
    obtain ⟨a, ha, hstarts⟩ := hlegacy
    have hne : a ≠ lit "--new" := by
      rintro rfl
      exact absurd hstarts (by decide)
    obtain ⟨block, hblock, ha⟩ := (mem_intercalate hne _).mp ha
    obtain ⟨profile, _, hprofile⟩ := mem_of_mapM hblocks (List.mem_of_mem_filter hblock)
    exact profileBlock_converted hprofile ⟨a, ha, hstarts⟩

variable [Tables]

/-! ## Texts -/

theorem nativeOptions_legacy_iff {text protocol : Json} {ts args : List Str}
    (htext : splitText text = .ok ts) (h : nativeOptions text protocol = .ok args) :
    AnyStarts args (lit "--dpi-desync") ↔ Mixed ts := by
  unfold nativeOptions at h
  rw [htext] at h
  change (if ts = [] then _ else if Native ts then nativeArgs ts protocol else legacyArgs ts) = _ at h
  unfold Mixed
  by_cases hempty : ts = []
  · rw [if_pos hempty] at h
    cases h
    simp [hempty]
  rw [if_neg hempty] at h
  by_cases hnative : Native ts
  · rw [if_pos hnative] at h
    have hkept : AnyStarts args (lit "--dpi-desync") ↔ AnyStarts ts (lit "--dpi-desync") := by
      unfold nativeArgs at h
      split at h
      · split at h
        · cases h
          have hfilter : ∀ p : Str, ¬(protocolFilter p).StartsWith (lit "--dpi-desync") := by
            intro p
            simp only [protocolFilter]
            split_ifs <;> decide
          simp only [AnyStarts, List.exists_mem_cons_iff, hfilter, false_or]
        · cases h
      · cases h
        exact Iff.rfl
    rw [hkept]
    exact ⟨fun hlegacy => ⟨hnative.resolve_right fun hno => hno hlegacy, hlegacy⟩, fun hmixed => hmixed.2⟩
  · rw [if_neg hnative] at h
    refine iff_of_false (legacyArgs_converted h) ?_
    exact fun hmixed => hnative (.inl hmixed.1)

/-! ## Entries -/

/-- The words of an entry's text; none when it cannot be split. -/
def entryTokens (entry : Dict) : List Str :=
  ((splitText ((entry.get0 (lit "lua_opt")).or (entry.get (lit "nfqws_opt") (.str [])))).toOption).getD []

theorem disabledPayloads_converted {entry : Dict} {disabled : List Str}
    (h : disabledPayloads entry = .ok disabled) : ¬AnyStarts disabled (lit "--dpi-desync") := by
  intro hlegacy
  obtain ⟨a, ha, hstarts⟩ := hlegacy
  unfold disabledPayloads at h
  split at h
  · obtain ⟨p, _, hp⟩ := mem_of_mapM h ha
    split at hp
    · cases hp
      exact not_legacy_of_prefix (by decide) (by decide) (List.prefix_append (lit "--reasm-disable=") p)
        hstarts
    · cases hp
  · cases h

/-- The reassembly options are no legacy ones. -/
theorem withReasm_legacy {entry : Dict} {args args' : List Str} (h : withReasm entry args = .ok args') :
    AnyStarts args' (lit "--dpi-desync") ↔ AnyStarts args (lit "--dpi-desync") := by
  unfold withReasm at h
  split at h
  · obtain ⟨disabled, hdisabled, hret⟩ := bind_eq_ok.mp h
    cases hret
    have hmade := disabledPayloads_converted hdisabled
    constructor
    · intro hlegacy
      obtain ⟨a, ha, hstarts⟩ := hlegacy
      rcases List.mem_append.mp ha with ha | ha
      · exact ⟨a, List.mem_of_mem_filter ha, hstarts⟩
      · exact absurd ⟨a, ha, hstarts⟩ hmade
    · intro hlegacy
      obtain ⟨a, ha, hstarts⟩ := hlegacy
      refine ⟨a, List.mem_append_left _ (List.mem_filter.mpr ⟨ha, ?_⟩), hstarts⟩
      have hkept : ¬a.StartsWith (lit "--reasm-disable=") := fun hreasm =>
        not_legacy_of_prefix (by decide) (by decide) hreasm hstarts
      simpa using hkept
  · cases h
    exact Iff.rfl

/-- **Which legacy options are rendered.** -/
theorem legacy_survives_iff {entry : Dict} {args : List Str} (h : strategyArgs entry = .ok args) :
    (∀ a ∈ args, ¬a.StartsWith (lit "--dpi-desync")) ↔ ¬Mixed (entryTokens entry) := by
  unfold strategyArgs at h
  obtain ⟨opts, hopts, hrest⟩ := bind_eq_ok.mp h
  obtain ⟨_, _, hrest⟩ := bind_eq_ok.mp hrest
  obtain ⟨opts', hreasm, hrest⟩ := bind_eq_ok.mp hrest
  obtain ⟨scripts, _, hret⟩ := bind_eq_ok.mp hrest
  cases hret
  obtain ⟨ts, hts, _⟩ := bind_eq_ok.mp hopts
  have htokens : entryTokens entry = ts := by
    unfold entryTokens
    rw [hts]
    rfl
  have hscript : ∀ s ∈ scripts, ¬(lit "--lua-init=@" ++ s).StartsWith (lit "--dpi-desync") :=
    fun s _ => not_legacy_of_prefix (by decide) (by decide) (List.prefix_append (lit "--lua-init=@") s)
  rw [htokens, ← nativeOptions_legacy_iff hts hopts, ← withReasm_legacy hreasm, List.forall_mem_append,
    List.forall_mem_map, and_iff_right hscript]
  simp only [AnyStarts, not_exists, not_and]

omit [Tables]

/-- A legacy strategy. -/
theorem legacy_survives_converted : letI := Tables.ascii
    ∃ args, strategyArgs [(lit "lua_opt", .str (lit "--a --dpi-desync=fake"))] = .ok args ∧
      ∀ a ∈ args, ¬a.StartsWith (lit "--dpi-desync") := by
  let _ := Tables.ascii
  have hargs : ∃ args, strategyArgs [(lit "lua_opt", .str (lit "--a --dpi-desync=fake"))] = .ok args :=
    ⟨_, rfl⟩
  obtain ⟨args, hargs⟩ := hargs
  have hconverted : ¬Mixed (entryTokens [(lit "lua_opt", .str (lit "--a --dpi-desync=fake"))]) := by decide
  exact ⟨args, hargs, (legacy_survives_iff hargs).mpr hconverted⟩

/-- A text with a native option and a legacy one. -/
theorem mixed_rendered : letI := Tables.ascii
    ¬∀ entry args, strategyArgs entry = .ok args → ∀ a ∈ args, ¬a.StartsWith (lit "--dpi-desync") := by
  let _ := Tables.ascii
  intro h
  have hargs : strategyArgs [(lit "lua_opt", .str (lit "--payload=x --dpi-desync=fake"))] =
      .ok [lit "--payload=x", lit "--dpi-desync=fake"] := rfl
  exact h _ _ hargs (lit "--dpi-desync=fake") (by simp) (by decide)

end WebZapret.Catalog
