import WebZapret.Catalog.Lossless
import WebZapret.Lib.Chunks
import WebZapret.Lib.Py.Codec

/-!
# The argument stream

`strategy.py` writes the arguments of an entry with NUL between them and at the end, and `wz-svc.sh`
and `wz-test.sh` read them with `mapfile -d '' -t`. What is read is what was written, unless nothing
was rendered: for an empty list the file has one NUL, and nfqws2 gets an empty argument.

Main result: `argument_stream_iff`.
-/

namespace WebZapret.Catalog

open Py Failing

/-- What `strategy.py` writes for the arguments of an entry. -/
def writeArgs (args : List Str) : Result (List Nat) := do
  let encoded ← args.mapM Utf8.encode
  return Str.join [0] encoded ++ [0]

/-- `mapfile -d '' -t args` -/
def mapfile (bytes : List Nat) : List (List Nat) := chunks 0 bytes

/-- The bytes of an argument. -/
def argBytes (arg : Str) : List Nat := arg.flatMap Utf8.octets

/-- The arguments are ones that an entry may set, and what is written for them is read back. -/
structure StreamLossless (args : List Str) : Prop where
  allowed : ∀ arg ∈ args, Allowed arg
  read : ∀ bytes, writeArgs args = .ok bytes →
    mapfile bytes = args.map argBytes ∧ (mapfile bytes).length = args.length

/-! ## Writing and reading -/

theorem zero_notMem_octets {c : Nat} (hc : c ≠ 0) : 0 ∉ Utf8.octets c := by
  unfold Utf8.octets
  split_ifs <;> simp only [List.mem_cons, List.not_mem_nil, or_false, not_or] <;> omega

theorem zero_notMem_argBytes {arg : Str} (h : 0 ∉ arg) : 0 ∉ argBytes arg := by
  intro hmem
  obtain ⟨c, hc, hzero⟩ := List.mem_flatMap.mp hmem
  refine zero_notMem_octets ?_ hzero
  rintro rfl
  exact h hc

theorem encode_eq_ok {arg : Str} {bytes : List Nat} (h : Utf8.encode arg = .ok bytes) :
    bytes = argBytes arg := by
  unfold Utf8.encode at h
  split at h
  · cases h
    rfl
  · cases h

theorem writeArgs_eq_ok {args : List Str} {bytes : List Nat} (h : writeArgs args = .ok bytes) :
    bytes = joined 0 (args.map argBytes) := by
  obtain ⟨encoded, hencoded, h⟩ := bind_eq_ok.mp h
  cases h
  have heach : encoded.map id = args.map argBytes :=
    map_of_mapM hencoded fun arg bytes hbytes => encode_eq_ok hbytes
  rw [List.map_id] at heach
  rw [heach]
  rfl

/-- **The stream of a list that has an argument is read back.** -/
theorem mapfile_writeArgs {args : List Str} {bytes : List Nat} (h : writeArgs args = .ok bytes)
    (hzero : ∀ arg ∈ args, 0 ∉ arg) : mapfile bytes = args.map argBytes ↔ args ≠ [] := by
  rw [writeArgs_eq_ok h, mapfile, chunks_joined_iff, ne_eq, List.map_eq_nil_iff]
  intro chunk hchunk
  obtain ⟨arg, harg, rfl⟩ := List.mem_map.mp hchunk
  exact zero_notMem_argBytes (hzero arg harg)

/-! ## What is rendered -/

/-- The text of an entry. -/
def entryText (entry : Dict) : Json :=
  (entry.get0 (lit "lua_opt")).or (entry.get (lit "nfqws_opt") (.str []))

/-- No word of a text is rendered: it has none, or only legacy options and `--new`. -/
def Vacant (ts : List Str) : Prop :=
  ts = [] ∨ AnyStarts ts (lit "--dpi-desync") ∧
    ∀ a ∈ ts, a = lit "--new" ∨ a.StartsWith (lit "--dpi-desync")

/-- An entry that has nothing to render. -/
structure RendersNothing (entry : Dict) : Prop where
  text : ∃ ts, splitText (entryText entry) = .ok ts ∧ Vacant ts
  noReasm : (entry.get0 (lit "no_reasm")).truthy = false
  scripts : entry.get (lit "lua_init") (.arr []) = .arr []

theorem joinBlocks_eq_nil {blocks : List (List Str)} :
    joinBlocks blocks = [] ↔ ∀ block ∈ blocks, block = [] := by
  have hkept : joinBlocks blocks = [] ↔ blocks.filter (· ≠ []) = [] := by
    unfold joinBlocks
    generalize hfilter : blocks.filter (· ≠ []) = kept
    have hne : ∀ block ∈ kept, block ≠ [] := by
      rw [← hfilter]
      exact fun block hblock => of_decide_eq_true (List.mem_filter.mp hblock).2
    cases kept with
    | nil => simp
    | cons block kept =>
      have hblock := hne block List.mem_cons_self
      cases kept with
      | nil => simpa using hblock
      | cons next kept => simp [List.intercalate_cons_cons]
  rw [hkept, List.filter_eq_nil_iff]
  simp

/-- The profiles without filters are those of legacy options only. -/
theorem no_filters_iff (ts : List Str) :
    (∀ profile ∈ ts.splitOn (lit "--new"), legacyFilters profile = []) ↔
      ∀ a ∈ ts, a = lit "--new" ∨ a.StartsWith (lit "--dpi-desync") := by
  have hmem (a : Str) (hne : a ≠ lit "--new") :
      a ∈ ts ↔ ∃ profile ∈ ts.splitOn (lit "--new"), a ∈ profile := by
    have hjoined := mem_intercalate hne (ts.splitOn (lit "--new"))
    rwa [List.intercalate_splitOn] at hjoined
  simp only [legacyFilters, List.filter_eq_nil_iff, decide_eq_true_eq, not_not]
  constructor
  · intro h a ha
    by_cases hne : a = lit "--new"
    · exact .inl hne
    · obtain ⟨profile, hprofile, ha⟩ := (hmem a hne).mp ha
      exact .inr (h profile hprofile a ha)
  · intro h profile hprofile a ha
    by_cases hne : a = lit "--new"
    · exact absurd ha (hne ▸ notMem_of_mem_splitOn hprofile)
    · exact (h a ((hmem a hne).mpr ⟨profile, hprofile, ha⟩)).resolve_left hne

theorem legacyArgs_eq_nil_iff {ts opts : List Str} (h : legacyArgs ts = .ok opts) :
    opts = [] ↔ ∀ a ∈ ts, a = lit "--new" ∨ a.StartsWith (lit "--dpi-desync") := by
  rw [← no_filters_iff]
  rw [legacyArgs_eq] at h
  generalize ts.splitOn (lit "--new") = profiles at h ⊢
  cases hblocks : profiles.mapM profileBlock with
  | error e =>
    rw [hblocks] at h
    cases h
  | ok blocks =>
    rw [hblocks] at h
    cases h
    rw [joinBlocks_eq_nil]
    refine forall_mapM_iff hblocks fun profile block hblock => ?_
    constructor
    · rintro rfl
      by_contra hfilters
      obtain ⟨_, desync, _, hnil⟩ := (profileBlock_eq_ok hfilters).mp hblock
      simp [hfilters] at hnil
    · intro hdropped
      rw [profileBlock_dropped hdropped] at hblock
      cases hblock
      rfl

/-- A text that is all legacy options is not native. -/
theorem Vacant.not_native {ts : List Str} (hts : ts ≠ []) (h : Vacant ts) : ¬Native ts := by
  obtain ⟨hlegacy, hall⟩ := h.resolve_left hts
  have hnone {p : Str} (hnew : ¬(lit "--new").StartsWith p)
      (hdpi : ¬(p <+: lit "--dpi-desync" ∨ lit "--dpi-desync" <+: p)) : ¬AnyStarts ts p := by
    rintro ⟨a, ha, hstarts⟩
    rcases hall a ha with rfl | hoption
    · exact hnew hstarts
    · exact hdpi (List.prefix_or_prefix_of_prefix hstarts hoption)
  rintro ((hlua | hpayload) | hnot)
  · exact hnone (by decide) (by decide) hlua
  · exact hnone (by decide) (by decide) hpayload
  · exact hnot hlegacy

variable [Tables]

theorem nativeArgs_ne_nil {ts opts : List Str} {protocol : Json} (hts : ts ≠ [])
    (h : nativeArgs ts protocol = .ok opts) : opts ≠ [] := by
  unfold nativeArgs at h
  split at h
  · split at h
    · cases h
      exact List.cons_ne_nil _ _
    · cases h
  · cases h
    exact hts

theorem nativeOptions_eq_nil_iff {text protocol : Json} {opts ts : List Str}
    (htext : splitText text = .ok ts) (h : nativeOptions text protocol = .ok opts) :
    opts = [] ↔ Vacant ts := by
  rw [nativeOptions, htext] at h
  change (if ts = [] then _ else _) = _ at h
  by_cases hts : ts = []
  · rw [if_pos hts] at h
    cases h
    exact iff_of_true rfl (.inl hts)
  rw [if_neg hts] at h
  by_cases hnative : Native ts
  · rw [if_pos hnative] at h
    exact iff_of_false (nativeArgs_ne_nil hts h) fun hvacant => hvacant.not_native hts hnative
  · rw [if_neg hnative] at h
    rw [legacyArgs_eq_nil_iff h, Vacant, or_iff_right hts]
    exact (and_iff_right (not_not.mp (not_or.mp hnative).2)).symm

/-! ## What an entry renders -/

theorem disabledPayloads_ne_nil {entry : Dict} {disabled : List Str}
    (h : disabledPayloads entry = .ok disabled) : disabled ≠ [] := by
  unfold disabledPayloads at h
  split at h
  · rename_i payloads _
    rintro rfl
    have hlength := length_of_mapM h
    exact List.splitOn_ne_nil 44 payloads (List.length_eq_zero_iff.mp hlength.symm)
  · cases h

/-- The parts of an argument list. -/
theorem strategyArgs_eq_ok {entry : Dict} {args : List Str} (h : strategyArgs entry = .ok args) :
    ∃ opts rendered scripts,
      nativeOptions (entryText entry) (entry.get (lit "protocol") (.str [])) = .ok opts ∧
      (∀ arg ∈ opts, Allowed arg) ∧ withReasm entry opts = .ok rendered ∧
      initScripts entry = .ok scripts ∧
      args = scripts.map (fun s => lit "--lua-init=@" ++ s) ++ rendered := by
  obtain ⟨opts, hopts, h⟩ := bind_eq_ok.mp h
  obtain ⟨⟨⟩, hcheck, h⟩ := bind_eq_ok.mp h
  obtain ⟨rendered, hrendered, h⟩ := bind_eq_ok.mp h
  obtain ⟨scripts, hscripts, h⟩ := bind_eq_ok.mp h
  cases h
  exact ⟨opts, rendered, scripts, hopts,
    fun arg harg => checkArg_eq_ok.mp (forM_eq_ok.mp hcheck arg harg), hrendered, hscripts, rfl⟩

theorem withReasm_eq_nil_iff {entry : Dict} {opts rendered : List Str}
    (h : withReasm entry opts = .ok rendered) :
    rendered = [] ↔ opts = [] ∧ (entry.get0 (lit "no_reasm")).truthy = false := by
  unfold withReasm at h
  by_cases hflag : (entry.get0 (lit "no_reasm")).truthy = true
  · rw [if_pos hflag] at h
    obtain ⟨disabled, hdisabled, h⟩ := bind_eq_ok.mp h
    cases h
    have hne := disabledPayloads_ne_nil hdisabled
    simp [hflag, hne]
  · rw [if_neg hflag] at h
    cases h
    simp [Bool.not_eq_true _ ▸ hflag]

omit [Tables] in
theorem initScripts_eq_nil_iff {entry : Dict} {scripts : List Str}
    (h : initScripts entry = .ok scripts) :
    scripts = [] ↔ entry.get (lit "lua_init") (.arr []) = .arr [] := by
  unfold initScripts at h
  split at h
  · rename_i items hitems
    have hlength := length_of_mapM h
    rw [hitems, Json.arr.injEq, ← List.length_eq_zero_iff, ← List.length_eq_zero_iff, hlength]
  · rename_i hitems
    cases h

theorem strategyArgs_eq_nil_iff {entry : Dict} {args : List Str}
    (h : strategyArgs entry = .ok args) : args = [] ↔ RendersNothing entry := by
  obtain ⟨opts, rendered, scripts, hopts, _, hrendered, hscripts, rfl⟩ := strategyArgs_eq_ok h
  obtain ⟨ts, htext, _⟩ := bind_eq_ok.mp hopts
  rw [List.append_eq_nil_iff, List.map_eq_nil_iff, withReasm_eq_nil_iff hrendered,
    initScripts_eq_nil_iff hscripts, nativeOptions_eq_nil_iff htext hopts]
  constructor
  · intro hnil
    obtain ⟨hscripts, hvacant, hflag⟩ := hnil
    exact ⟨⟨ts, htext, hvacant⟩, hflag, hscripts⟩
  · intro hnothing
    obtain ⟨⟨ts', htext', hvacant⟩, hflag, hscripts⟩ := hnothing
    rw [htext] at htext'
    cases htext'
    exact ⟨hscripts, hvacant, hflag⟩

omit [Tables] in
theorem zero_notMem_script {entry : Dict} {scripts : List Str} (h : initScripts entry = .ok scripts) :
    ∀ s ∈ scripts, 0 ∉ s := by
  unfold initScripts at h
  split at h
  · intro s hs
    obtain ⟨item, _, hitem⟩ := mem_of_mapM h hs
    split at hitem
    · split at hitem
      · rename_i hpath
        cases hitem
        exact hpath.2
      · cases hitem
    · cases hitem
  · cases h

omit [Tables] in
theorem allowed_script {s : Str} (h : 0 ∉ s) : Allowed (lit "--lua-init=@" ++ s) := by
  refine ⟨?_, ⟨lit "lua-init=@" ++ s, rfl⟩, ?_⟩
  · rw [List.mem_append, not_or]
    exact ⟨by decide, h⟩
  · have hkey : Str.key (lit "--lua-init=@" ++ s) = lit "--lua-init" := rfl
    rw [hkey]
    decide

omit [Tables] in
theorem allowed_reasmDisable {p : Str} (h : payloadToken p) : Allowed (reasmDisable p) := by
  refine ⟨?_, ⟨lit "reasm-disable=" ++ p, rfl⟩, ?_⟩
  · rw [reasmDisable, List.mem_append, not_or]
    refine ⟨by decide, fun hzero => ?_⟩
    exact absurd (h.2 0 hzero) (by decide)
  · have hkey : (reasmDisable p).key = lit "--reasm-disable" := rfl
    rw [hkey]
    decide

theorem allowed_of_withReasm {entry : Dict} {opts rendered : List Str}
    (hallowed : ∀ arg ∈ opts, Allowed arg) (h : withReasm entry opts = .ok rendered) :
    ∀ arg ∈ rendered, Allowed arg := by
  unfold withReasm at h
  split at h
  · obtain ⟨disabled, hdisabled, h⟩ := bind_eq_ok.mp h
    cases h
    intro arg harg
    rcases List.mem_append.mp harg with harg | harg
    · exact hallowed arg (List.mem_filter.mp harg).1
    · unfold disabledPayloads at hdisabled
      split at hdisabled
      · obtain ⟨p, _, hp⟩ := mem_of_mapM hdisabled harg
        split at hp
        · rename_i htoken
          cases hp
          exact allowed_reasmDisable htoken
        · cases hp
      · cases hdisabled
  · cases h
    exact hallowed

/-- **Every rendered argument is allowed**, also those that are added after the check. -/
theorem allowed_of_strategyArgs {entry : Dict} {args : List Str} (h : strategyArgs entry = .ok args) :
    ∀ arg ∈ args, Allowed arg := by
  obtain ⟨opts, rendered, scripts, _, hallowed, hrendered, hscripts, rfl⟩ := strategyArgs_eq_ok h
  intro arg harg
  rcases List.mem_append.mp harg with harg | harg
  · obtain ⟨s, hs, rfl⟩ := List.mem_map.mp harg
    exact allowed_script (zero_notMem_script hscripts s hs)
  · exact allowed_of_withReasm hallowed hrendered arg harg

/-- **The stream is lossless unless the entry renders nothing.** -/
theorem argument_stream_iff {entry : Dict} {args : List Str} (h : strategyArgs entry = .ok args) :
    StreamLossless args ↔ ¬RendersNothing entry := by
  have hallowed := allowed_of_strategyArgs h
  rw [← strategyArgs_eq_nil_iff h]
  constructor
  · rintro hlossless rfl
    obtain ⟨hread, _⟩ := hlossless.read [0] rfl
    exact absurd hread (by decide)
  · intro hne
    refine ⟨hallowed, fun bytes hbytes => ?_⟩
    have hread := (mapfile_writeArgs hbytes fun arg harg => (hallowed arg harg).1).mpr hne
    exact ⟨hread, by rw [hread, List.length_map]⟩

omit [Tables]

/-- Two options, one of them with a blank. -/
theorem argument_stream_two : letI := Tables.ascii
    let entry := [(lit "lua_opt", .str (lit "--filter-tcp=443 '--lua-desync=a b'"))]
    strategyArgs entry = .ok [lit "--filter-tcp=443", lit "--lua-desync=a b"] ∧
      StreamLossless [lit "--filter-tcp=443", lit "--lua-desync=a b"] := by
  let _ := Tables.ascii
  have hargs : strategyArgs [(lit "lua_opt", .str (lit "--filter-tcp=443 '--lua-desync=a b'"))] =
      .ok [lit "--filter-tcp=443", lit "--lua-desync=a b"] := rfl
  refine ⟨hargs, (argument_stream_iff hargs).mpr fun hnothing => ?_⟩
  have hnil := (strategyArgs_eq_nil_iff hargs).mpr hnothing
  cases hnil

/-- Legacy options without a filter render nothing, and an empty argument is read. -/
theorem empty_argument : letI := Tables.ascii
    strategyArgs [(lit "nfqws_opt", .str (lit "--dpi-desync=fake"))] = .ok [] ∧
      writeArgs [] = .ok [0] ∧ mapfile [0] = [[]] ∧
      ¬∀ entry args, strategyArgs entry = .ok args → StreamLossless args := by
  let _ := Tables.ascii
  have hargs : strategyArgs [(lit "nfqws_opt", .str (lit "--dpi-desync=fake"))] = .ok [] := rfl
  refine ⟨hargs, rfl, by decide, fun h => ?_⟩
  obtain ⟨hread, _⟩ := (h _ _ hargs).read [0] rfl
  exact absurd hread (by decide)

end WebZapret.Catalog
