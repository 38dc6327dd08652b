import WebZapret.Catalog.Reassembly

/-!
# Which imported strategies can be rendered

An imported entry is offered in the catalog, and `strategy_args` may still raise when it is switched
on. The importer of test results only asks that the text can be split; `validate_args` asks for more,
but not for what the conversion of legacy text needs, and not of the words that the renderer splits.

`strategyArgs_ok_iff` says which texts and protocols are rendered.
-/

namespace WebZapret.Catalog

open Py Failing

/-! ## One argument -/

/-- An argument that `strategy_args` lets through. -/
def Allowed (arg : Str) : Prop := 0 ∉ arg ∧ arg.StartsWith (lit "--") ∧ arg.key ∉ deniedKeys

instance (arg : Str) : Decidable (Allowed arg) := by
  unfold Allowed
  infer_instance

theorem checkArg_eq_ok {arg : Str} : checkArg arg = .ok () ↔ Allowed arg := by
  unfold checkArg Allowed
  by_cases hzero : 0 ∈ arg
  · simp [hzero]
  · by_cases hstarts : arg.StartsWith (lit "--")
    · by_cases hkey : arg.key ∈ deniedKeys
      · simp [hzero, hstarts, hkey]
      · simp [hzero, hstarts, hkey]
    · simp [hzero, hstarts]

theorem allowed_new : Allowed (lit "--new") := by decide

/-! ## Legacy text -/

/-- An option that the conversion knows, or leaves alone. -/
def Supported (arg : Str) : Prop :=
  arg.key ∈ [lit "--dpi-desync", lit "--dpi-desync-split-pos", lit "--dpi-desync-repeats",
      lit "--dpi-desync-fooling"] ∨
    ¬arg.key.StartsWith (lit "--dpi-desync")

instance (arg : Str) : Decidable (Supported arg) := by
  unfold Supported
  infer_instance

/-- What a supported option sets. -/
def Legacy.set (l : Legacy) (arg : Str) : Legacy :=
  if arg.key = lit "--dpi-desync" then { l with modes := l.modes ++ arg.value.split 44 }
  else if arg.key = lit "--dpi-desync-split-pos" then { l with splitPos := arg.value }
  else if arg.key = lit "--dpi-desync-repeats" then { l with repeats := arg.value }
  else if arg.key = lit "--dpi-desync-fooling" then { l with fooling := arg.value.split 44 }
  else l

/-- What the options of a legacy profile set, all of them supported. -/
def legacyOf (profile : List Str) : Legacy := profile.foldl Legacy.set ⟨[], lit "2", lit "1", []⟩

theorem Legacy.option_eq_ok {l l' : Legacy} {arg : Str} :
    l.option arg = .ok l' ↔ Supported arg ∧ l.set arg = l' := by
  unfold Legacy.option Legacy.set Supported
  by_cases hmodes : arg.key = lit "--dpi-desync"
  · simp [hmodes]
  by_cases hpos : arg.key = lit "--dpi-desync-split-pos"
  · rw [if_neg hmodes, if_pos hpos, if_neg hmodes, if_pos hpos]
    simp [hpos]
  by_cases hrepeats : arg.key = lit "--dpi-desync-repeats"
  · rw [if_neg hmodes, if_neg hpos, if_pos hrepeats, if_neg hmodes, if_neg hpos, if_pos hrepeats]
    simp [hrepeats]
  by_cases hfooling : arg.key = lit "--dpi-desync-fooling"
  · rw [if_neg hmodes, if_neg hpos, if_neg hrepeats, if_pos hfooling, if_neg hmodes, if_neg hpos,
      if_neg hrepeats, if_pos hfooling]
    simp [hfooling]
  by_cases hlegacy : arg.key.StartsWith (lit "--dpi-desync")
  · simp [hmodes, hpos, hrepeats, hfooling, hlegacy]
  · simp [hmodes, hpos, hrepeats, hfooling, hlegacy]

/-- The options are read exactly when all of them are supported. -/
theorem succeeds_options (profile : List Str) {P : Legacy → Prop} (l : Legacy) :
    Succeeds (profile.foldlM Legacy.option l) P ↔
      (∀ arg ∈ profile, Supported arg) ∧ P (profile.foldl Legacy.set l) := by
  induction profile generalizing l with
  | nil =>
    rw [List.foldlM_nil]
    exact succeeds_ok.trans (by simp)
  | cons arg profile ih =>
    rw [List.foldlM_cons, succeeds_bind, List.forall_mem_cons, List.foldl_cons]
    constructor
    · intro h
      obtain ⟨_, hl, h⟩ := h
      obtain ⟨hsupported, rfl⟩ := Legacy.option_eq_ok.mp hl
      obtain ⟨hrest, hP⟩ := (ih _).mp h
      exact ⟨⟨hsupported, hrest⟩, hP⟩
    · intro h
      obtain ⟨⟨hsupported, hrest⟩, hP⟩ := h
      exact ⟨_, Legacy.option_eq_ok.mpr ⟨hsupported, rfl⟩, (ih _).mpr ⟨hrest, hP⟩⟩

/-- A mode with the fake packets of `fake` and `fakedsplit`. -/
def FakeFits (l : Legacy) (mode : Str) : Prop :=
  (∀ f ∈ l.fooling, f ∈ [lit "md5sig", lit "badseq", lit "ts"]) ∧ 0 ∉ l.repeats ∧
    (mode = lit "fakedsplit" → 0 ∉ (l.splitPos.split 44).getLastD [])

/-- A mode that can be converted. -/
def ModeFits (l : Legacy) (mode : Str) : Prop :=
  if modeName mode ∈ [lit "fake", lit "fakedsplit"] then FakeFits l (modeName mode)
  else modeName mode ∈ [lit "multisplit", lit "multidisorder"] ∧ 0 ∉ l.splitPos

theorem allowed_lua (rest : Str) : Allowed (lit "--lua-desync=" ++ rest) ↔ 0 ∉ rest := by
  have hkey : Str.key (lit "--lua-desync=" ++ rest) = lit "--lua-desync" := rfl
  have hstarts : (lit "--lua-desync=" ++ rest).StartsWith (lit "--") :=
    ⟨lit "lua-desync=" ++ rest, rfl⟩
  have hdenied : lit "--lua-desync" ∉ deniedKeys := by decide
  have hzero : 0 ∉ lit "--lua-desync=" := by decide
  unfold Allowed
  rw [hkey]
  simp [hstarts, hdenied, hzero]

theorem zero_mem_join (parts : List Str) :
    0 ∈ Str.join (lit ":") parts ↔ ∃ part ∈ parts, 0 ∈ part := by
  have hcolon : 0 ≠ 58 := by decide
  exact mem_intercalate hcolon parts

/-- What the foolings add to a mode. -/
theorem zero_notMem_of_ite {q : Prop} [Decidable q] {parts : List Str}
    (h : ∀ part ∈ parts, 0 ∉ part) : ¬∃ part ∈ (if q then parts else []), 0 ∈ part := by
  intro hzero
  obtain ⟨part, hpart, hzero⟩ := hzero
  split at hpart
  · exact h part hpart hzero
  · cases hpart

theorem desync_fits (l : Legacy) {blob : Str} (hblob : 0 ∉ blob) (mode : Str) :
    Succeeds (l.desync blob mode) Allowed ↔ ModeFits l mode := by
  unfold ModeFits Legacy.desync
  generalize modeName mode = name
  by_cases hfake : name = lit "fake" ∨ name = lit "fakedsplit"
  · have hmem : name ∈ [lit "fake", lit "fakedsplit"] := by simpa using hfake
    simp only [if_pos hfake, if_pos hmem]
    unfold FakeFits
    by_cases hfooling : ∀ f ∈ l.fooling, f ∈ [lit "md5sig", lit "badseq", lit "ts"]
    · have hknown : ¬∃ f ∈ l.fooling, f ≠ lit "md5sig" ∧ f ≠ lit "badseq" ∧ f ≠ lit "ts" := by
        intro h
        obtain ⟨f, hf, hmd5sig, hbadseq, hts⟩ := h
        simpa [hmd5sig, hbadseq, hts] using hfooling f hf
      rw [if_neg hknown, succeeds_ok, allowed_lua, zero_mem_join, and_iff_right hfooling]
      -- what the foolings add has no NUL
      have hmd5sig : ¬∃ part ∈ (if lit "md5sig" ∈ l.fooling then [lit "tcp_md5"] else []),
          0 ∈ part := zero_notMem_of_ite (by decide)
      have hbadseq : ¬∃ part ∈ (if lit "badseq" ∈ l.fooling then
          [lit "tcp_seq=-10000", lit "tcp_ack=-66000"] else []), 0 ∈ part :=
        zero_notMem_of_ite (by decide)
      have hts : ¬∃ part ∈ (if lit "ts" ∈ l.fooling then [lit "tcp_ts=-600000"] else []),
          0 ∈ part := zero_notMem_of_ite (by decide)
      simp only [List.mem_append, or_and_right, exists_or, hmd5sig, hbadseq, hts, or_false]
      have hrepeats : 0 ∈ lit "repeats=" ++ l.repeats ↔ 0 ∈ l.repeats := by
        rw [List.mem_append]
        exact or_iff_right (by decide)
      rcases hfake with rfl | rfl
      · have hname : 0 ∉ lit "fake" := by decide
        have hne : lit "fake" ≠ lit "fakedsplit" := by decide
        have hblob' : 0 ∉ lit "blob=fake_default_" ++ blob := by
          rw [List.mem_append]
          exact not_or.mpr ⟨by decide, hblob⟩
        simp [hname, hne, hrepeats, hblob']
      · have hname : 0 ∉ lit "fakedsplit" := by decide
        have hne : lit "fakedsplit" ≠ lit "fake" := by decide
        have hpos : 0 ∉ lit "pos=" := by decide
        simp [hname, hne, hrepeats, hpos]
    · have hunknown : ∃ f ∈ l.fooling, f ≠ lit "md5sig" ∧ f ≠ lit "badseq" ∧ f ≠ lit "ts" := by
        simpa using hfooling
      rw [if_pos hunknown]
      exact iff_of_false not_succeeds_error fun h => hfooling h.1
  · have hmem : name ∉ [lit "fake", lit "fakedsplit"] := by simpa using hfake
    simp only [if_neg hfake, if_neg hmem]
    by_cases hsplit : name = lit "multisplit" ∨ name = lit "multidisorder"
    · have hname : 0 ∉ name ++ lit ":pos=" := by
        rcases hsplit with rfl | rfl <;> decide
      rw [if_pos hsplit, succeeds_ok, List.append_assoc, List.append_assoc, allowed_lua,
        ← List.append_assoc, List.mem_append, or_iff_right hname]
      simp [hsplit]
    · rw [if_neg hsplit]
      exact iff_of_false not_succeeds_error fun h => hsplit (by simpa using h.1)

theorem payloadAndBlob_fits (filters : List Str) :
    Allowed (lit "--payload=" ++ (payloadAndBlob filters).1) ∧ 0 ∉ (payloadAndBlob filters).2 := by
  unfold payloadAndBlob
  split
  · decide
  · split <;> decide

/-- A profile that is dropped, or can be converted. -/
def ProfileFits (profile : List Str) : Prop :=
  legacyFilters profile ≠ [] →
    (∀ arg ∈ legacyFilters profile, Allowed arg) ∧ (∀ arg ∈ profile, Supported arg) ∧
      ∀ mode ∈ (legacyOf profile).modes, ModeFits (legacyOf profile) mode

theorem addProfile_fits (result profile : List Str) :
    Succeeds (addProfile result profile) (fun opts => ∀ arg ∈ opts, Allowed arg) ↔
      (∀ arg ∈ result, Allowed arg) ∧ ProfileFits profile := by
  unfold addProfile ProfileFits
  by_cases hfilters : legacyFilters profile = []
  · rw [if_pos hfilters]
    exact succeeds_ok.trans (by simp [hfilters])
  rw [if_neg hfilters]
  obtain ⟨hpayload, hblob⟩ := payloadAndBlob_fits (legacyFilters profile)
  generalize payloadAndBlob (legacyFilters profile) = names at *
  obtain ⟨payload, blob⟩ := names
  have hnew : ∀ arg ∈ (if result = [] then [] else [lit "--new"]), Allowed arg := by
    intro arg harg
    split at harg
    · cases harg
    · exact List.mem_singleton.mp harg ▸ allowed_new
  have hadded : ∀ desync : List Str,
      (∀ arg ∈ result ++ (if result = [] then [] else [lit "--new"]) ++ legacyFilters profile ++
        [lit "--payload=" ++ payload] ++ desync, Allowed arg) ↔
      (∀ arg ∈ desync, Allowed arg) ∧
        (∀ arg ∈ result, Allowed arg) ∧ ∀ arg ∈ legacyFilters profile, Allowed arg := by
    intro desync
    simp only [List.forall_mem_append, List.forall_mem_singleton]
    constructor
    · intro h
      exact ⟨h.2, h.1.1.1.1, h.1.1.2⟩
    · intro h
      exact ⟨⟨⟨⟨h.2.1, hnew⟩, h.2.2⟩, hpayload⟩, h.1⟩
  show Succeeds (profile.foldlM Legacy.option _ >>= fun l =>
    l.modes.mapM (l.desync blob) >>= fun desync => Except.ok _) _ ↔ _
  rw [succeeds_bind, succeeds_options, ← legacyOf]
  have hdesync := calc
    Succeeds ((legacyOf profile).modes.mapM ((legacyOf profile).desync blob) >>= fun desync =>
        .ok (result ++ (if result = [] then [] else [lit "--new"]) ++ legacyFilters profile ++
          [lit "--payload=" ++ payload] ++ desync)) (fun opts => ∀ arg ∈ opts, Allowed arg)
      ↔ Succeeds ((legacyOf profile).modes.mapM ((legacyOf profile).desync blob)) fun desync =>
          (∀ arg ∈ desync, Allowed arg) ∧
            (∀ arg ∈ result, Allowed arg) ∧ ∀ arg ∈ legacyFilters profile, Allowed arg := by
        rw [succeeds_bind]
        exact succeeds_congr fun desync _ => succeeds_ok.trans (hadded desync)
    _ ↔ Succeeds ((legacyOf profile).modes.mapM ((legacyOf profile).desync blob))
          (fun desync => ∀ arg ∈ desync, Allowed arg) ∧
            (∀ arg ∈ result, Allowed arg) ∧ ∀ arg ∈ legacyFilters profile, Allowed arg :=
        succeeds_and_const
    _ ↔ (∀ mode ∈ (legacyOf profile).modes, ModeFits (legacyOf profile) mode) ∧
            (∀ arg ∈ result, Allowed arg) ∧ ∀ arg ∈ legacyFilters profile, Allowed arg :=
        and_congr_left' (succeeds_mapM.trans
          (forall₂_congr fun mode _ => desync_fits (legacyOf profile) hblob mode))
  rw [hdesync]
  constructor
  · intro h
    exact ⟨h.2.2.1, fun _ => ⟨h.2.2.2, h.1, h.2.1⟩⟩
  · intro h
    obtain ⟨hresult, hprofile⟩ := h
    obtain ⟨hallowed, hsupported, hmodes⟩ := hprofile hfilters
    exact ⟨hsupported, hmodes, hresult, hallowed⟩

/-- Which legacy texts are rendered. -/
theorem legacyArgs_fits (args : List Str) :
    Succeeds (legacyArgs args) (fun opts => ∀ arg ∈ opts, Allowed arg) ↔
      ∀ profile ∈ args.splitOn (lit "--new"), ProfileFits profile := by
  unfold legacyArgs
  rw [succeeds_foldlM fun result profile _ => addProfile_fits result profile]
  exact and_iff_right nofun

/-! ## Native text -/

variable [Tables]

theorem allowed_protocolFilter (protocol : Str) : Allowed (protocolFilter protocol) := by
  simp only [protocolFilter]
  split
  · decide
  · split <;> decide

/-- A protocol whose filter is inserted must be a string. -/
theorem nativeArgs_fits (args : List Str) (protocol : Json) :
    Succeeds (nativeArgs args protocol) (fun opts => ∀ arg ∈ opts, Allowed arg) ↔
      (∀ arg ∈ args, Allowed arg) ∧
        (protocol.truthy ∧ ¬AnyStarts args (lit "--filter-") → ∃ p, protocol = .str p) := by
  unfold nativeArgs
  by_cases hinserts : protocol.truthy ∧ ¬AnyStarts args (lit "--filter-")
  · rw [if_pos hinserts, forall_prop_of_true hinserts]
    cases protocol with
    | str p =>
      simp only [succeeds_ok, List.forall_mem_cons, allowed_protocolFilter, true_and]
      exact (and_iff_left ⟨p, rfl⟩).symm
    | null => exact iff_of_false not_succeeds_error nofun
    | bool b => exact iff_of_false not_succeeds_error nofun
    | int i => exact iff_of_false not_succeeds_error nofun
    | float x => exact iff_of_false not_succeeds_error nofun
    | arr items => exact iff_of_false not_succeeds_error nofun
    | obj d => exact iff_of_false not_succeeds_error nofun
  · rw [if_neg hinserts, succeeds_ok]
    exact (and_iff_left fun h => absurd h hinserts).symm

/-! ## Entries -/

/-- The words of a text and its protocol are rendered: native words are allowed as they are, and
legacy ones can be converted. -/
def Fits (ts : List Str) (protocol : Json) : Prop :=
  if Native ts then
    (∀ arg ∈ ts, Allowed arg) ∧
      (protocol.truthy ∧ ¬AnyStarts ts (lit "--filter-") → ∃ p, protocol = .str p)
  else ∀ profile ∈ ts.splitOn (lit "--new"), ProfileFits profile

/-- A text and a protocol that can be rendered. -/
def Renders (text : Str) (protocol : Json) : Prop :=
  ∃ ts, Shlex.split text = .ok ts ∧ (ts ≠ [] → Fits ts protocol)

theorem nativeOptions_fits (text : Str) (protocol : Json) :
    Succeeds (nativeOptions (.str text) protocol) (fun opts => ∀ arg ∈ opts, Allowed arg) ↔
      Renders text protocol := by
  unfold nativeOptions Renders
  rw [succeeds_bind]
  refine succeeds_congr fun ts _ => ?_
  by_cases hempty : ts = []
  · rw [if_pos hempty]
    exact succeeds_ok.trans (by simp [hempty])
  rw [if_neg hempty, forall_prop_of_true hempty]
  unfold Fits
  by_cases hnative : Native ts
  · simp only [if_pos hnative]
    exact nativeArgs_fits ts protocol
  · simp only [if_neg hnative]
    exact legacyArgs_fits ts

/-- What an imported entry sets besides its text is always rendered. -/
theorem Reads.strategyArgs_ok {entry : Dict} {text : Str} {protocol : Json} {noReasm : Prop}
    (hr : Reads entry text protocol noReasm) :
    (∃ args, strategyArgs entry = .ok args) ↔ Renders text protocol := by
  rw [← nativeOptions_fits]
  unfold strategyArgs
  rw [hr.text, hr.protocol]
  have hscripts : initScripts entry = .ok [] := by
    rw [initScripts, hr.scripts]
    rfl
  have hreasm : ∀ opts, ∃ rendered, withReasm entry opts = .ok rendered := by
    intro opts
    unfold withReasm
    by_cases hflag : (entry.get0 (lit "no_reasm")).truthy
    · rw [if_pos hflag, disabledPayloads_eq hr.payloads]
      exact ⟨_, rfl⟩
    · rw [if_neg hflag]
      exact ⟨_, rfl⟩
  constructor
  · intro h
    obtain ⟨args, h⟩ := h
    obtain ⟨opts, hopts, h⟩ := bind_eq_ok.mp h
    obtain ⟨⟨⟩, hcheck, _⟩ := bind_eq_ok.mp h
    exact ⟨opts, hopts, fun arg harg => checkArg_eq_ok.mp (forM_eq_ok.mp hcheck arg harg)⟩
  · intro h
    obtain ⟨opts, hopts, hallowed⟩ := h
    obtain ⟨rendered, hrendered⟩ := hreasm opts
    have hcheck : opts.forM checkArg = .ok () :=
      forM_eq_ok.mpr fun arg harg => checkArg_eq_ok.mpr (hallowed arg harg)
    refine ⟨_, bind_eq_ok.mpr ⟨opts, hopts, bind_eq_ok.mpr ⟨(), hcheck, bind_eq_ok.mpr
      ⟨rendered, hrendered, bind_eq_ok.mpr ⟨[], hscripts, rfl⟩⟩⟩⟩⟩

/-- **When an imported strategy can be rendered.** -/
theorem imported_renders_iff {how : Importer} {entry : Dict} (h : Imported how entry) :
    (∃ args, strategyArgs entry = .ok args) ↔
      Renders (originalArgs entry) (entry.get0 (lit "protocol")) :=
  h.reads.strategyArgs_ok

omit [Tables]

theorem imported_renders_legacy : letI := Tables.ascii
    ∃ entry, Imported .blockcheck entry ∧ ((∃ args, strategyArgs entry = .ok args) ↔
      Renders (originalArgs entry) (entry.get0 (lit "protocol"))) := by
  let _ := Tables.ascii
  obtain ⟨entry, skipped, hplan⟩ : ∃ entry skipped,
      planImport (runOf (lit "--filter-tcp=443 --dpi-desync=fake,split")) ⟨5, []⟩ (.arr []) [] [] =
        .ok ([entry], skipped) := ⟨_, _, rfl⟩
  have himported := Imported.blockcheck hplan (List.mem_singleton_self entry)
  exact ⟨entry, himported, imported_renders_iff himported⟩

/-- Test results with one strategy. -/
def resultsOf (args : Str) : Json :=
  .obj [(lit "strategies", .arr [.obj [(lit "args", .str args)]])]

/-- Both importers take what the renderer refuses: a legacy mode that is not converted, and a word
that is no option. -/
theorem imported_not_rendered : letI := Tables.ascii
    (¬∀ entry, Imported .blockcheck entry → ∃ args, strategyArgs entry = .ok args) ∧
      ¬∀ entry, Imported .json entry → ∃ args, strategyArgs entry = .ok args := by
  let _ := Tables.ascii
  constructor
  · intro h
    obtain ⟨entry, skipped, hplan, e, hfails⟩ : ∃ entry skipped,
        planImport (runOf (lit "--filter-tcp=443 --dpi-desync=rst")) ⟨5, []⟩ (.arr []) [] [] =
          .ok ([entry], skipped) ∧ ∃ e, strategyArgs entry = .error e := ⟨_, _, rfl, _, rfl⟩
    obtain ⟨args, hargs⟩ := h entry (.blockcheck hplan (List.mem_singleton_self entry))
    rw [hfails] at hargs
    cases hargs
  · intro h
    obtain ⟨entry, himport, e, hfails⟩ : ∃ entry,
        (importStrategyFromJson .start (resultsOf (lit "fake"))).result none =
          .ok (.imported [entry]) ∧ ∃ e, strategyArgs entry = .error e := ⟨_, rfl, _, rfl⟩
    obtain ⟨args, hargs⟩ := h entry (.json himport (List.mem_singleton_self entry))
    rw [hfails] at hargs
    cases hargs

end WebZapret.Catalog
