import WebZapret.Catalog.Applicable

/-!
# Legacy text, profile by profile

`native_options` goes through the profiles of a legacy text one after the other. Every profile gives a
block of native options of its own: its filters, the payload that they ask for, and one `--lua-desync`
for each of its modes. A profile without filters gives no block. The result is the blocks with `--new`
between them (`legacyArgs_eq`).

**Theorem (`legacy_independent`).** Converting profiles together is converting each of them alone.
-/

namespace WebZapret.Catalog

open Py Failing

/-! ## Blocks -/

/-- What a profile adds, whatever the profiles before it added. -/
def profileBlock (profile : List Str) : Result (List Str) := do
  let filters := legacyFilters profile
  if filters = [] then return []
  let (payload, blob) := payloadAndBlob filters
  let l ← profile.foldlM Legacy.option ⟨[], lit "2", lit "1", []⟩
  let desync ← l.modes.mapM (l.desync blob)
  return filters ++ [lit "--payload=" ++ payload] ++ desync

/-- The blocks that are not empty, with `--new` between them. -/
def joinBlocks (blocks : List (List Str)) : List Str :=
  [lit "--new"].intercalate (blocks.filter (· ≠ []))

/-- A result with one more block. -/
def withBlock (result block : List Str) : List Str :=
  if block = [] then result
  else result ++ (if result = [] then [] else [lit "--new"]) ++ block

theorem addProfile_eq (result profile : List Str) :
    addProfile result profile = (profileBlock profile).map (withBlock result) := by
  unfold addProfile profileBlock
  by_cases hfilters : legacyFilters profile = []
  · simp only [hfilters, if_true]
    rfl
  · simp only [hfilters, if_false]
    generalize payloadAndBlob (legacyFilters profile) = names
    obtain ⟨payload, blob⟩ := names
    show (profile.foldlM Legacy.option _ >>= fun l => l.modes.mapM (l.desync blob) >>= fun desync =>
      Except.ok _) = Except.map _ (profile.foldlM Legacy.option _ >>= fun l =>
        l.modes.mapM (l.desync blob) >>= fun desync => Except.ok _)
    cases profile.foldlM Legacy.option ⟨[], lit "2", lit "1", []⟩ with
    | error e => rfl
    | ok l =>
      show (l.modes.mapM (l.desync blob) >>= fun desync => Except.ok _) =
        Except.map _ (l.modes.mapM (l.desync blob) >>= fun desync => Except.ok _)
      cases l.modes.mapM (l.desync blob) with
      | error e => rfl
      | ok desync =>
        have hne : legacyFilters profile ++ [lit "--payload=" ++ payload] ++ desync ≠ [] := by
          simp [hfilters]
        show Except.ok _ = Except.ok (withBlock result _)
        rw [withBlock, if_neg hne]
        simp only [List.append_assoc]

theorem intercalate_filter_cons {sep : List Str} (block : List Str) (blocks : List (List Str)) :
    sep.intercalate ((block :: blocks).filter (· ≠ [])) =
      if block = [] then sep.intercalate (blocks.filter (· ≠ []))
      else block ++ (if blocks.filter (· ≠ []) = [] then [] else sep) ++
        sep.intercalate (blocks.filter (· ≠ [])) := by
  by_cases hblock : block = []
  · simp [hblock]
  · rw [List.filter_cons_of_pos (by simpa using hblock), if_neg hblock]
    cases blocks.filter (· ≠ []) with
    | nil => simp
    | cons next blocks => simp [List.intercalate_cons_cons]

/-- The blocks are added one after the other. -/
theorem foldl_withBlock (result : List Str) (blocks : List (List Str)) :
    blocks.foldl withBlock result = joinBlocks (result :: blocks) := by
  induction blocks generalizing result with
  | nil =>
    unfold joinBlocks
    by_cases hresult : result = []
    · simp [hresult]
    · simp [hresult]
  | cons block blocks ih =>
    rw [List.foldl_cons, ih]
    unfold joinBlocks withBlock
    by_cases hblock : block = []
    · rw [if_pos hblock, hblock, intercalate_filter_cons, intercalate_filter_cons result,
        List.filter_cons_of_neg (by simp)]
    · rw [if_neg hblock]
      have hne : result ++ (if result = [] then [] else [lit "--new"]) ++ block ≠ [] := by
        simp [hblock]
      rw [intercalate_filter_cons, if_neg hne, intercalate_filter_cons result,
        intercalate_filter_cons block, if_neg hblock]
      have hrest : ((block :: blocks).filter (· ≠ [])) ≠ [] := by simp [hblock]
      rw [if_neg hrest]
      by_cases hresult : result = []
      · simp [hresult]
      · simp [hresult]

/-- **The result is the blocks of the profiles.** -/
theorem legacyArgs_eq (args : List Str) :
    legacyArgs args = ((args.splitOn (lit "--new")).mapM profileBlock).map joinBlocks := by
  unfold legacyArgs
  have hfold : ∀ (profiles : List (List Str)) (result : List Str),
      profiles.foldlM addProfile result =
        (profiles.mapM profileBlock).map fun blocks => blocks.foldl withBlock result := by
    intro profiles
    induction profiles with
    | nil => exact fun result => rfl
    | cons profile profiles ih =>
      intro result
      rw [List.foldlM_cons, List.mapM_cons, addProfile_eq]
      cases profileBlock profile with
      | error e => rfl
      | ok block =>
        show profiles.foldlM addProfile (withBlock result block) = _
        rw [ih]
        cases profiles.mapM profileBlock with
        | error e => rfl
        | ok blocks => rfl
  rw [hfold]
  congr 1
  funext blocks
  exact foldl_withBlock [] blocks

/-! ## Profiles alone and together -/

/-- A legacy profile: it has a legacy option and another one, and none that is native. -/
structure IsLegacy (profile : List Str) : Prop where
  whole : lit "--new" ∉ profile
  legacy : AnyStarts profile (lit "--dpi-desync")
  other : ∃ a ∈ profile, ¬a.StartsWith (lit "--dpi-desync")
  not_native : ¬HasLua profile

theorem IsLegacy.filters_ne_nil {profile : List Str} (h : IsLegacy profile) :
    legacyFilters profile ≠ [] := by
  obtain ⟨a, ha, hother⟩ := h.other
  exact List.ne_nil_of_mem (List.mem_filter.mpr ⟨ha, by simpa using hother⟩)

theorem profileBlock_ne_nil {profile block : List Str} (hfilters : legacyFilters profile ≠ [])
    (h : profileBlock profile = .ok block) : block ≠ [] := by
  unfold profileBlock at h
  rw [if_neg hfilters] at h
  obtain ⟨l, _, h⟩ := bind_eq_ok.mp h
  obtain ⟨desync, _, h⟩ := bind_eq_ok.mp h
  cases h
  simp [hfilters]

variable [Tables]

theorem nativeOptions_legacy {text protocol : Json} {ts : List Str} (htext : splitText text = .ok ts)
    (hlegacy : AnyStarts ts (lit "--dpi-desync")) (hlua : ¬HasLua ts) :
    nativeOptions text protocol = legacyArgs ts := by
  have hne : ts ≠ [] := by
    obtain ⟨a, ha, _⟩ := hlegacy
    exact List.ne_nil_of_mem ha
  have hnative : ¬Native ts := fun h => h.elim hlua fun hno => hno hlegacy
  unfold nativeOptions
  rw [htext]
  show (if ts = [] then _ else if Native ts then _ else _) = _
  rw [if_neg hne, if_neg hnative]

/-- A profile alone. -/
theorem nativeOptions_profile {text protocol : Json} {profile : List Str}
    (htext : splitText text = .ok profile) (h : IsLegacy profile) :
    nativeOptions text protocol = profileBlock profile := by
  have hsplit : profile.splitOn (lit "--new") = [profile] := by
    have hone : ([lit "--new"].intercalate [profile]).splitOn (lit "--new") = [profile] :=
      List.splitOn_intercalate _ (by simpa using h.whole) (List.cons_ne_nil _ _)
    simpa using hone
  rw [nativeOptions_legacy htext h.legacy h.not_native, legacyArgs_eq, hsplit, List.mapM_cons,
    List.mapM_nil]
  cases hblock : profileBlock profile with
  | error e => rfl
  | ok block =>
    show Except.ok (joinBlocks [block]) = Except.ok block
    have hne := profileBlock_ne_nil h.filters_ne_nil hblock
    simp [joinBlocks, hne]

omit [Tables] in
theorem joinBlocks_of_ne_nil {blocks : List (List Str)} (h : ∀ block ∈ blocks, block ≠ []) :
    joinBlocks blocks = [lit "--new"].intercalate blocks := by
  have hall : blocks.filter (· ≠ []) = blocks := by
    rw [List.filter_eq_self]
    simpa using h
  rw [joinBlocks, hall]

/-- The blocks of legacy profiles are what they give alone. -/
theorem mapM_nativeOptions (protocol : Json) {texts : List Json} {profiles : List (List Str)}
    (htexts : List.Forall₂ (fun text profile => splitText text = .ok profile) texts profiles)
    (h : ∀ profile ∈ profiles, IsLegacy profile) :
    (texts.mapM fun text => nativeOptions text protocol) = profiles.mapM profileBlock := by
  induction htexts with
  | nil => rfl
  | cons hhead _ ih =>
    obtain ⟨hprofile, hrest⟩ := List.forall_mem_cons.mp h
    rw [List.mapM_cons, List.mapM_cons, nativeOptions_profile hhead hprofile, ih hrest]

/-- **Legacy profiles are converted independently.** -/
theorem legacy_independent {profiles : List (List Str)} (hne : profiles ≠ [])
    (h : ∀ profile ∈ profiles, IsLegacy profile) {text protocol : Json}
    (htext : splitText text = .ok ([lit "--new"].intercalate profiles)) {texts : List Json}
    (htexts : List.Forall₂ (fun text profile => splitText text = .ok profile) texts profiles) :
    ((∃ e, nativeOptions text protocol = .error e) ↔
      ∃ t ∈ texts, ∃ e, nativeOptions t protocol = .error e) ∧
      ∀ results, List.Forall₂ (fun t result => nativeOptions t protocol = .ok result) texts results →
        nativeOptions text protocol = .ok ([lit "--new"].intercalate results) := by
  have hnew : ∀ x, x.StartsWith (lit "--lua-desync=") ∨ x.StartsWith (lit "--payload=") ∨
      x.StartsWith (lit "--dpi-desync") → x ≠ lit "--new" := by
    intro x hx heq
    rw [heq] at hx
    revert hx
    decide
  have hlegacy : AnyStarts ([lit "--new"].intercalate profiles) (lit "--dpi-desync") := by
    obtain ⟨profile, hprofile⟩ := List.exists_mem_of_ne_nil profiles hne
    obtain ⟨a, ha, hstarts⟩ := (h profile hprofile).legacy
    exact ⟨a, (mem_intercalate (hnew a (.inr (.inr hstarts))) profiles).mpr ⟨profile, hprofile, ha⟩,
      hstarts⟩
  have hlua : ¬HasLua ([lit "--new"].intercalate profiles) := by
    intro hlua
    rcases hlua with ⟨a, ha, hstarts⟩ | ⟨a, ha, hstarts⟩
    · obtain ⟨profile, hprofile, ha⟩ := (mem_intercalate (hnew a (.inl hstarts)) profiles).mp ha
      exact (h profile hprofile).not_native (.inl ⟨a, ha, hstarts⟩)
    · obtain ⟨profile, hprofile, ha⟩ := (mem_intercalate (hnew a (.inr (.inl hstarts))) profiles).mp ha
      exact (h profile hprofile).not_native (.inr ⟨a, ha, hstarts⟩)
  have htogether : nativeOptions text protocol = (profiles.mapM profileBlock).map joinBlocks := by
    rw [nativeOptions_legacy htext hlegacy hlua, legacyArgs_eq,
      List.splitOn_intercalate _ (fun profile hprofile => (h profile hprofile).whole) hne]
  have halone := mapM_nativeOptions protocol htexts h
  constructor
  · rw [htogether, ← halone, map_fails_iff]
    exact mapM_fails_iff
  · intro results hresults
    have hall := mapM_of_forall₂ hresults
    rw [halone] at hall
    have hblocks : ∀ block ∈ results, block ≠ [] := by
      intro block hblock
      obtain ⟨profile, hprofile, hone⟩ := mem_of_mapM hall hblock
      exact profileBlock_ne_nil (h profile hprofile).filters_ne_nil hone
    rw [htogether, hall]
    exact congrArg Except.ok (joinBlocks_of_ne_nil hblocks)

omit [Tables] in
/-- Two profiles with a mode each. -/
theorem legacy_independent_two : letI := Tables.ascii
    nativeOptions (.str (lit "--a --dpi-desync=fake --new --b --dpi-desync=split")) .null =
      .ok ([lit "--new"].intercalate
        [[lit "--a", lit "--payload=tls_client_hello",
            lit "--lua-desync=fake:repeats=1:blob=fake_default_tls"],
          [lit "--b", lit "--payload=tls_client_hello", lit "--lua-desync=multisplit:pos=2"]]) := by
  let _ := Tables.ascii
  have hfake : IsLegacy [lit "--a", lit "--dpi-desync=fake"] := by
    refine ⟨by decide, by decide, by decide, ?_⟩
    rw [HasLua]
    decide
  have hsplit : IsLegacy [lit "--b", lit "--dpi-desync=split"] := by
    refine ⟨by decide, by decide, by decide, ?_⟩
    rw [HasLua]
    decide
  have hprofiles := List.forall_mem_cons.mpr ⟨hfake, List.forall_mem_singleton.mpr hsplit⟩
  have htexts : List.Forall₂ (fun text profile => splitText text = .ok profile)
      [.str (lit "--a --dpi-desync=fake"), .str (lit "--b --dpi-desync=split")]
      [[lit "--a", lit "--dpi-desync=fake"], [lit "--b", lit "--dpi-desync=split"]] :=
    .cons rfl (.cons rfl .nil)
  exact (legacy_independent (List.cons_ne_nil _ _) hprofiles rfl htexts).2 _
    (.cons rfl (.cons rfl .nil))

end WebZapret.Catalog
