import WebZapret.Catalog.Legacy
import Mathlib.Algebra.Order.BigOperators.Group.List

/-!
# What the conversion of legacy text loses

The conversion raises where it meets what it does not know. But it looks at a profile only when the
profile has a filter, and at its foolings only where a mode with fake packets uses them; of several
fooling options it keeps the last one. So a profile without a filter is dropped with its modes, and an
unknown fooling can pass unnoticed.

**Theorem (`legacy_lossless_iff`).** Nothing is lost silently exactly when some profile makes the
conversion raise, or every profile with modes has a filter and every fooling is known.
-/

namespace WebZapret.Catalog

open Py Failing

/-! ## What a text names -/

/-- The modes that the options of a profile name. -/
def modesNamed (profile : List Str) : List Str :=
  (profile.filter fun a => a.key = lit "--dpi-desync").flatMap fun a => a.value.split 44

/-- The foolings that the options of a profile name. -/
def foolingsNamed (profile : List Str) : List Str :=
  (profile.filter fun a => a.key = lit "--dpi-desync-fooling").flatMap fun a => a.value.split 44

/-- The foolings that are known. -/
def knownFooling : List Str := [lit "md5sig", lit "badseq", lit "ts"]

/-- The names in the `--lua-desync` arguments, in order. -/
def desyncNames (args : List Str) : List Str :=
  (args.filter fun a => a.StartsWith (lit "--lua-desync=")).map fun a =>
    (a.drop (lit "--lua-desync=").length).takeWhile (· ≠ 58)

/-- The exception is a `ValueError`. -/
def Raises (r : Result (List Str)) : Prop := ∃ text, r = .error (.valueError text)

/-- No mode and no fooling of the profiles is lost silently. -/
structure Lossless (profiles : List (List Str)) (r : Result (List Str)) : Prop where
  modes : Raises r ∨ ∃ blocks, r = .ok (joinBlocks blocks) ∧
    List.Forall₂ (fun profile block => desyncNames block = (modesNamed profile).map modeName)
      profiles blocks
  fooling : (∃ profile ∈ profiles, ∃ f ∈ foolingsNamed profile, f ∉ knownFooling) → Raises r

/-! ## When a profile is converted -/

/-- A mode that has an equivalent, with the foolings that it uses. -/
def Converts (l : Legacy) (mode : Str) : Prop :=
  if modeName mode = lit "fake" ∨ modeName mode = lit "fakedsplit" then
    ∀ f ∈ l.fooling, f ∈ knownFooling
  else modeName mode = lit "multisplit" ∨ modeName mode = lit "multidisorder"

/-- The conversion of a profile does not raise: it is dropped, or knows its options and modes. -/
def Convertible (profile : List Str) : Prop :=
  legacyFilters profile ≠ [] → (∀ arg ∈ profile, Supported arg) ∧
    ∀ mode ∈ modesNamed profile, Converts (legacyOf profile) mode

/-- A converted mode has its name in front. -/
theorem desync_eq_ok {l : Legacy} {blob mode arg : Str} (h : l.desync blob mode = .ok arg) :
    Converts l mode ∧ ∃ rest, arg = lit "--lua-desync=" ++ (modeName mode ++ 58 :: rest) := by
  unfold Converts
  simp only [Legacy.desync] at h
  by_cases hfake : modeName mode = lit "fake" ∨ modeName mode = lit "fakedsplit"
  · rw [if_pos hfake] at h ⊢
    split at h
    · cases h
    · rename_i hnone
      cases h
      refine ⟨?_, ?_⟩
      · intro f hf
        by_contra hunknown
        exact hnone ⟨f, hf, by simpa [knownFooling] using hunknown⟩
      · simp only [Str.join, List.cons_append, List.intercalate_cons_cons, List.append_assoc]
        exact ⟨_, rfl⟩
  · rw [if_neg hfake] at h ⊢
    split at h
    · rename_i hsplit
      cases h
      refine ⟨hsplit, lit "pos=" ++ l.splitPos, ?_⟩
      simp only [List.append_assoc]
      rfl
    · cases h

theorem Converts.desync {l : Legacy} {mode : Str} (h : Converts l mode) (blob : Str) :
    ∃ arg, l.desync blob mode = .ok arg := by
  unfold Converts at h
  simp only [Legacy.desync]
  by_cases hfake : modeName mode = lit "fake" ∨ modeName mode = lit "fakedsplit"
  · rw [if_pos hfake] at h ⊢
    have hknown : ¬∃ f ∈ l.fooling, f ≠ lit "md5sig" ∧ f ≠ lit "badseq" ∧ f ≠ lit "ts" := by
      intro hunknown
      obtain ⟨f, hf, hmd5sig, hbadseq, hts⟩ := hunknown
      simpa [knownFooling, hmd5sig, hbadseq, hts] using h f hf
    rw [if_neg hknown]
    exact ⟨_, rfl⟩
  · rw [if_neg hfake] at h ⊢
    rw [if_pos h]
    exact ⟨_, rfl⟩

/-- The names of modes that have an equivalent. -/
theorem Converts.name {l : Legacy} {mode : Str} (h : Converts l mode) :
    modeName mode ∈ [lit "fake", lit "fakedsplit", lit "multisplit", lit "multidisorder"] := by
  unfold Converts at h
  split at h
  · rename_i hfake
    rcases hfake with hname | hname <;> simp [hname]
  · rcases h with hname | hname <;> simp [hname]

theorem desyncNames_append (a b : List Str) :
    desyncNames (a ++ b) = desyncNames a ++ desyncNames b := by
  simp [desyncNames]

theorem desyncNames_eq_nil {args : List Str} (h : ∀ a ∈ args, ¬a.StartsWith (lit "--lua-desync=")) :
    desyncNames args = [] := by
  have hnone : args.filter (fun a => a.StartsWith (lit "--lua-desync=")) = [] := by
    rw [List.filter_eq_nil_iff]
    simpa using h
  rw [desyncNames, hnone, List.map_nil]

theorem desyncNames_desync {l : Legacy} {blob mode arg : Str} (h : l.desync blob mode = .ok arg) :
    desyncNames [arg] = [modeName mode] := by
  obtain ⟨hconverts, rest, rfl⟩ := desync_eq_ok h
  have hcolon : ∀ c ∈ modeName mode, decide (c ≠ 58) = true := by
    have hnames : ∀ name ∈ [lit "fake", lit "fakedsplit", lit "multisplit", lit "multidisorder"],
        ∀ c ∈ name, c ≠ 58 := by decide
    exact fun c hc => decide_eq_true (hnames _ hconverts.name c hc)
  have hfilter : [lit "--lua-desync=" ++ (modeName mode ++ 58 :: rest)].filter
      (fun a => a.StartsWith (lit "--lua-desync=")) =
        [lit "--lua-desync=" ++ (modeName mode ++ 58 :: rest)] := List.filter_cons_of_pos (by simp)
  rw [desyncNames, hfilter, List.map_singleton, List.drop_left, List.takeWhile_append_of_pos hcolon]
  simp

/-! ## What the options set -/

theorem set_modes (l : Legacy) (arg : Str) : (l.set arg).modes =
    l.modes ++ if arg.key = lit "--dpi-desync" then arg.value.split 44 else [] := by
  unfold Legacy.set
  by_cases hmodes : arg.key = lit "--dpi-desync"
  · rw [if_pos hmodes, if_pos hmodes]
  · rw [if_neg hmodes, if_neg hmodes, List.append_nil]
    split_ifs <;> rfl

theorem modesNamed_cons (arg : Str) (profile : List Str) : modesNamed (arg :: profile) =
    (if arg.key = lit "--dpi-desync" then arg.value.split 44 else []) ++ modesNamed profile := by
  unfold modesNamed
  by_cases hmodes : arg.key = lit "--dpi-desync" <;> simp [hmodes]

theorem modes_foldl (l : Legacy) (profile : List Str) :
    (profile.foldl Legacy.set l).modes = l.modes ++ modesNamed profile := by
  induction profile generalizing l with
  | nil => simp [modesNamed]
  | cons arg profile ih => rw [List.foldl_cons, ih, set_modes, modesNamed_cons, List.append_assoc]

theorem modes_legacyOf (profile : List Str) : (legacyOf profile).modes = modesNamed profile :=
  modes_foldl _ profile

/-! ## What a profile gives -/

theorem profileBlock_dropped {profile : List Str} (h : legacyFilters profile = []) :
    profileBlock profile = .ok [] := by
  unfold profileBlock
  simp only [h, if_true]
  rfl

/-- The block of a profile that has a filter. -/
theorem profileBlock_eq_ok {profile block : List Str} (hfilters : legacyFilters profile ≠ []) :
    profileBlock profile = .ok block ↔ (∀ arg ∈ profile, Supported arg) ∧
      ∃ desync, (legacyOf profile).modes.mapM
          ((legacyOf profile).desync (payloadAndBlob (legacyFilters profile)).2) = .ok desync ∧
        block = legacyFilters profile ++
          [lit "--payload=" ++ (payloadAndBlob (legacyFilters profile)).1] ++ desync := by
  have hread (l : Legacy) : profile.foldlM Legacy.option ⟨[], lit "2", lit "1", []⟩ = .ok l ↔
      (∀ arg ∈ profile, Supported arg) ∧ legacyOf profile = l := by
    have hsucceeds := succeeds_options profile (P := (· = l)) ⟨[], lit "2", lit "1", []⟩
    rw [← legacyOf] at hsucceeds
    rw [← hsucceeds]
    constructor
    · exact fun h => ⟨l, h, rfl⟩
    · rintro ⟨l', h, rfl⟩
      exact h
  unfold profileBlock
  rw [if_neg hfilters]
  generalize payloadAndBlob (legacyFilters profile) = names
  obtain ⟨payload, blob⟩ := names
  constructor
  · intro h
    obtain ⟨l, hl, hrest⟩ := bind_eq_ok.mp h
    obtain ⟨desync, hdesync, hret⟩ := bind_eq_ok.mp hrest
    obtain ⟨hsupported, rfl⟩ := (hread l).mp hl
    cases hret
    exact ⟨hsupported, desync, hdesync, rfl⟩
  · intro h
    obtain ⟨hsupported, desync, hdesync, rfl⟩ := h
    exact bind_eq_ok.mpr ⟨_, (hread _).mpr ⟨hsupported, rfl⟩, bind_eq_ok.mpr ⟨desync, hdesync, rfl⟩⟩

theorem profileBlock_ok_iff (profile : List Str) :
    (∃ block, profileBlock profile = .ok block) ↔ Convertible profile := by
  unfold Convertible
  by_cases hfilters : legacyFilters profile = []
  · exact iff_of_true ⟨[], profileBlock_dropped hfilters⟩ fun hne => absurd hfilters hne
  rw [forall_prop_of_true hfilters, ← modes_legacyOf]
  constructor
  · intro h
    obtain ⟨block, h⟩ := h
    obtain ⟨hsupported, desync, hdesync, _⟩ := (profileBlock_eq_ok hfilters).mp h
    refine ⟨hsupported, ?_⟩
    intro mode hmode
    obtain ⟨arg, harg⟩ := mapM_ok_iff.mp ⟨desync, hdesync⟩ mode hmode
    exact (desync_eq_ok harg).1
  · intro h
    obtain ⟨hsupported, hmodes⟩ := h
    obtain ⟨desync, hdesync⟩ := mapM_ok_iff.mpr fun mode hmode =>
      (hmodes mode hmode).desync (payloadAndBlob (legacyFilters profile)).2
    exact ⟨_, (profileBlock_eq_ok hfilters).mpr ⟨hsupported, desync, hdesync, rfl⟩⟩

theorem option_error {l : Legacy} {arg : Str} {e : Exc} (h : l.option arg = .error e) :
    ∃ text, e = .valueError text := by
  unfold Legacy.option at h
  split_ifs at h
  cases h
  exact ⟨_, rfl⟩

theorem desync_error {l : Legacy} {blob mode : Str} {e : Exc} (h : l.desync blob mode = .error e) :
    ∃ text, e = .valueError text := by
  simp only [Legacy.desync] at h
  split_ifs at h
  · cases h
    exact ⟨_, rfl⟩
  · cases h
    exact ⟨_, rfl⟩

theorem profileBlock_error {profile : List Str} {e : Exc} (h : profileBlock profile = .error e) :
    ∃ text, e = .valueError text := by
  unfold profileBlock at h
  by_cases hfilters : legacyFilters profile = []
  · rw [if_pos hfilters] at h
    cases h
  rw [if_neg hfilters] at h
  generalize payloadAndBlob (legacyFilters profile) = names at h
  obtain ⟨payload, blob⟩ := names
  rcases bind_eq_error.mp h with hl | ⟨l, _, hrest⟩
  · obtain ⟨l, arg, _, harg⟩ := exists_of_foldlM_error hl
    exact option_error harg
  · rcases bind_eq_error.mp hrest with hdesync | ⟨desync, _, hret⟩
    · obtain ⟨mode, _, hmode⟩ := exists_of_mapM_error hdesync
      exact desync_error hmode
    · cases hret

/-- The modes of a profile that has a filter. -/
def modesKept (profile : List Str) : List Str :=
  if legacyFilters profile = [] then [] else (modesNamed profile).map modeName

theorem desyncNames_mapM {l : Legacy} {blob : Str} {modes desync : List Str}
    (h : modes.mapM (l.desync blob) = .ok desync) : desyncNames desync = modes.map modeName := by
  induction modes generalizing desync with
  | nil =>
    cases h
    rfl
  | cons mode modes ih =>
    rw [List.mapM_cons] at h
    obtain ⟨arg, harg, hrest⟩ := bind_eq_ok.mp h
    obtain ⟨args, hargs, hret⟩ := bind_eq_ok.mp hrest
    cases hret
    have hcons : arg :: args = [arg] ++ args := rfl
    rw [hcons, desyncNames_append, desyncNames_desync harg, ih hargs]
    rfl

theorem profileBlock_names {profile block : List Str} (hlua : ¬HasLua profile)
    (h : profileBlock profile = .ok block) : desyncNames block = modesKept profile := by
  unfold modesKept
  by_cases hfilters : legacyFilters profile = []
  · rw [profileBlock_dropped hfilters] at h
    cases h
    rw [if_pos hfilters]
    rfl
  rw [if_neg hfilters, ← modes_legacyOf]
  obtain ⟨_, desync, hdesync, rfl⟩ := (profileBlock_eq_ok hfilters).mp h
  have hkept : desyncNames (legacyFilters profile) = [] := by
    apply desyncNames_eq_nil
    intro a ha hstarts
    exact hlua (.inl ⟨a, List.mem_of_mem_filter ha, hstarts⟩)
  have hpayload : desyncNames [lit "--payload=" ++ (payloadAndBlob (legacyFilters profile)).1] = [] := by
    unfold payloadAndBlob
    split_ifs <;> decide
  rw [desyncNames_append, desyncNames_append, hkept, hpayload, List.nil_append, List.nil_append,
    desyncNames_mapM hdesync]

/-! ## Losses -/

theorem desyncNames_joinBlocks (blocks : List (List Str)) :
    desyncNames (joinBlocks blocks) = blocks.flatMap desyncNames := by
  have hnew : desyncNames [lit "--new"] = [] := by decide
  unfold joinBlocks
  induction blocks with
  | nil => rfl
  | cons block blocks ih =>
    rw [intercalate_filter_cons, List.flatMap_cons]
    by_cases hblock : block = []
    · rw [if_pos hblock, ih, hblock]
      rfl
    · rw [if_neg hblock, desyncNames_append, desyncNames_append, ih]
      split
      · rw [show desyncNames [] = [] from rfl, List.append_nil]
      · rw [hnew, List.append_nil]

theorem flatMap_of_forall₂ {α β γ : Type} {f : α → List γ} {g : β → List γ} {l : List α} {l' : List β}
    (h : List.Forall₂ (fun a b => g b = f a) l l') : l'.flatMap g = l.flatMap f := by
  induction h with
  | nil => rfl
  | cons hhead _ ih => rw [List.flatMap_cons, List.flatMap_cons, hhead, ih]

/-- When as many modes are kept as are named, every profile with modes has a filter. -/
theorem filters_of_length {profiles : List (List Str)}
    (h : profiles.flatMap modesKept = profiles.flatMap fun p => (modesNamed p).map modeName) :
    ∀ profile ∈ profiles, modesNamed profile ≠ [] → legacyFilters profile ≠ [] := by
  intro profile hprofile hnamed hfilters
  have hlength := congrArg List.length h
  rw [List.length_flatMap, List.length_flatMap] at hlength
  have hle : ∀ p ∈ profiles, (modesKept p).length ≤ ((modesNamed p).map modeName).length := by
    intro p _
    unfold modesKept
    split
    · exact Nat.zero_le _
    · exact le_rfl
  have hlt : (modesKept profile).length < ((modesNamed profile).map modeName).length := by
    rw [modesKept, if_pos hfilters, List.length_map]
    exact List.length_pos_iff.mpr hnamed
  have hsum := List.sum_lt_sum _ _ hle ⟨profile, hprofile, hlt⟩
  omega

theorem not_hasLua_profile {ts profile : List Str} (hlua : ¬HasLua ts)
    (hprofile : profile ∈ ts.splitOn (lit "--new")) : ¬HasLua profile := by
  have hmem : ∀ a, a ≠ lit "--new" → a ∈ profile → a ∈ ts := by
    intro a hne ha
    have hjoined := (mem_intercalate hne _).mpr ⟨profile, hprofile, ha⟩
    rwa [List.intercalate_splitOn] at hjoined
  intro h
  rcases h with ⟨a, ha, hstarts⟩ | ⟨a, ha, hstarts⟩
  · refine hlua (.inl ⟨a, hmem a ?_ ha, hstarts⟩)
    rintro rfl
    exact absurd hstarts (by decide)
  · refine hlua (.inr ⟨a, hmem a ?_ ha, hstarts⟩)
    rintro rfl
    exact absurd hstarts (by decide)

variable [Tables]

/-- **When nothing is lost silently.** -/
theorem legacy_lossless_iff {text protocol : Json} {ts : List Str} (htext : splitText text = .ok ts)
    (hlegacy : AnyStarts ts (lit "--dpi-desync")) (hlua : ¬HasLua ts) :
    Lossless (ts.splitOn (lit "--new")) (nativeOptions text protocol) ↔
      (∃ profile ∈ ts.splitOn (lit "--new"), ¬Convertible profile) ∨
        ∀ profile ∈ ts.splitOn (lit "--new"), (modesNamed profile ≠ [] → legacyFilters profile ≠ []) ∧
          ∀ f ∈ foolingsNamed profile, f ∈ knownFooling := by
  have hnative : ∀ profile ∈ ts.splitOn (lit "--new"), ¬HasLua profile :=
    fun profile hprofile => not_hasLua_profile hlua hprofile
  rw [nativeOptions_legacy htext hlegacy hlua, legacyArgs_eq]
  generalize ts.splitOn (lit "--new") = profiles at hnative ⊢
  cases hblocks : profiles.mapM profileBlock with
  | error e =>
    obtain ⟨profile, hprofile, herror⟩ := exists_of_mapM_error hblocks
    obtain ⟨reason, rfl⟩ := profileBlock_error herror
    refine iff_of_true ⟨.inl ⟨reason, rfl⟩, fun _ => ⟨reason, rfl⟩⟩ (.inl ⟨profile, hprofile, ?_⟩)
    intro hconvertible
    obtain ⟨block, hblock⟩ := (profileBlock_ok_iff profile).mpr hconvertible
    rw [herror] at hblock
    cases hblock
  | ok blocks =>
    have hconvertible : ¬∃ profile ∈ profiles, ¬Convertible profile := by
      intro h
      obtain ⟨profile, hprofile, hnot⟩ := h
      exact hnot ((profileBlock_ok_iff profile).mp (mapM_ok_iff.mp ⟨blocks, hblocks⟩ profile hprofile))
    have hnames : List.Forall₂ (fun profile block => desyncNames block = modesKept profile) profiles
        blocks := forall₂_of_mapM hblocks fun profile hprofile block _ hblock =>
      profileBlock_names (hnative profile hprofile) hblock
    have hno : ¬Raises (Except.map joinBlocks (.ok blocks)) := nofun
    rw [or_iff_right hconvertible]
    constructor
    · intro h
      obtain ⟨hmodes, hfooling⟩ := h
      obtain ⟨blocks', heq, hall⟩ := hmodes.resolve_left hno
      have hjoined := congrArg desyncNames (Except.ok.inj heq)
      rw [desyncNames_joinBlocks, desyncNames_joinBlocks, flatMap_of_forall₂ hnames,
        flatMap_of_forall₂ hall] at hjoined
      intro profile hprofile
      refine ⟨filters_of_length hjoined profile hprofile, ?_⟩
      intro f hf
      by_contra hunknown
      exact hno (hfooling ⟨profile, hprofile, f, hf, hunknown⟩)
    · intro h
      refine ⟨.inr ⟨blocks, rfl, ?_⟩, ?_⟩
      · refine forall₂_of_mapM hblocks fun profile hprofile block _ hblock => ?_
        rw [profileBlock_names (hnative profile hprofile) hblock, modesKept]
        split
        · rename_i hfilters
          have hnone : modesNamed profile = [] := by
            by_contra hnamed
            exact (h profile hprofile).1 hnamed hfilters
          rw [hnone, List.map_nil]
        · rfl
      · intro hunknown
        obtain ⟨profile, hprofile, f, hf, hunknown⟩ := hunknown
        exact absurd ((h profile hprofile).2 f hf) hunknown

omit [Tables]

/-- A profile with a filter and a mode. -/
theorem legacy_lossless_one : letI := Tables.ascii
    Lossless ([lit "--a", lit "--dpi-desync=fake"].splitOn (lit "--new"))
      (nativeOptions (.str (lit "--a --dpi-desync=fake")) .null) := by
  let _ := Tables.ascii
  have hlua : ¬HasLua [lit "--a", lit "--dpi-desync=fake"] := by
    rw [HasLua]
    decide
  have htext : splitText (.str (lit "--a --dpi-desync=fake")) =
      .ok [lit "--a", lit "--dpi-desync=fake"] := rfl
  exact (legacy_lossless_iff htext (by decide) hlua).mpr (.inr (by decide))

/-- A mode without a filter leaves nothing, and no error. -/
theorem mode_dropped : letI := Tables.ascii
    ¬∀ text protocol ts, splitText text = .ok ts → AnyStarts ts (lit "--dpi-desync") → ¬HasLua ts →
      Lossless (ts.splitOn (lit "--new")) (nativeOptions text protocol) := by
  let _ := Tables.ascii
  intro h
  have hlua : ¬HasLua [lit "--dpi-desync=fake"] := by
    rw [HasLua]
    decide
  have htext : splitText (.str (lit "--dpi-desync=fake")) = .ok [lit "--dpi-desync=fake"] := rfl
  have hlossless := h _ .null _ htext (by decide) hlua
  have hempty : nativeOptions (.str (lit "--dpi-desync=fake")) .null = .ok [] := rfl
  obtain ⟨hmodes, _⟩ := hlossless
  rw [hempty] at hmodes
  rcases hmodes with ⟨text, htext⟩ | ⟨blocks, heq, hall⟩
  · cases htext
  · have hnames := congrArg desyncNames (Except.ok.inj heq)
    rw [desyncNames_joinBlocks, flatMap_of_forall₂ hall] at hnames
    exact absurd hnames (by decide)

end WebZapret.Catalog
