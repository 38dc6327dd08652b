import WebZapret.Selection.Store

/-!
# Partial updates

`save_settings` stores the values of an update as they are submitted; they are coerced on reading,
over the defaults of the environment. So a submitted value that cannot be used does not leave its
setting alone: it takes the place of the stored override, and the setting falls back to a default.

Main result: `save_keepsRest_iff`, the updates that change nothing but what they set.
-/

namespace WebZapret.Selection

open Py Failing

/-- The value of a key after an update: the submitted one if there is one. -/
theorem updateKnown_lookup {keys : List Str} {key : Str} (hkey : key ∈ keys) (d : Dict)
    {values : Dict} (hvalues : (values.map (·.1)).Nodup) :
    (updateKnown keys d values).lookup key = (values.lookup key).or (d.lookup key) := by
  induction values generalizing d with
  | nil => rfl
  | cons m values ih =>
    obtain ⟨hfirst, hrest⟩ := List.nodup_cons.mp hvalues
    have hstep := ih (if m.1 ∈ keys then d.set m.1 m.2 else d) hrest
    refine hstep.trans ?_
    by_cases heq : key = m.1
    · have hnone : values.lookup key = none := by
        rw [List.lookup_eq_none_iff]
        intro p hp
        apply bne_iff_ne.mpr
        intro hkeyp
        have hmem : p.1 ∈ values.map (·.1) := List.mem_map_of_mem hp
        rw [← hkeyp, heq] at hmem
        exact hfirst hmem
      rw [hnone, if_pos (heq ▸ hkey), heq, Dict.lookup_set_self, List.lookup_cons_self]
      rfl
    · have hother : (if m.1 ∈ keys then d.set m.1 m.2 else d).lookup key = d.lookup key := by
        split
        · exact Dict.lookup_set_ne _ heq _
        · rfl
      rw [hother, List.lookup_cons, beq_false_of_ne heq]

variable [Tables]

/-! ## Unusable values -/

/-- The text that `coerce` looks for among the choices. -/
def coerceWord : Json → Str
  | .null => []
  | raw => Tables.lower raw.text.strip

/-- A raw value that has no meaning for its item: it is no number, none of the choices or no
recognized word. -/
def Unusable (spec : Spec) (raw : Json) : Prop :=
  match spec.kind with
  | .bool => (∀ b, raw ≠ .bool b) ∧
      (raw = .null ∨ Tables.lower raw.text.strip ∉ trueTexts ++ falseTexts)
  | .int | .float => ∃ text, coerce spec raw = .error text
  | .enum => coerceWord raw ∉ spec.choices
  | .str | .csv => False

/-- The update does not set the item: it has no value for it, or one that is unusable. -/
def Unset (values : Dict) (spec : Spec) : Prop :=
  ∀ raw, values.lookup spec.key = some raw → Unusable spec raw

/-- What `normalize` makes of an unusable value. -/
def fallback (spec : Spec) (base : Dict) : Option Json :=
  match spec.kind with
  | .bool | .enum => some spec.default
  | _ => base.lookup spec.key

/-- What is stored for the item has the value to which an unusable one falls back. -/
def AtFallback (spec : Spec) (stored base : Dict) : Prop :=
  match spec.kind with
  | .bool | .enum =>
    match stored.lookup spec.key with
    | none => base.lookup spec.key = some spec.default
    | some raw => coerce spec raw = .ok spec.default
  | _ => ∀ raw v, stored.lookup spec.key = some raw → coerce spec raw = .ok v →
      base.lookup spec.key = some v

variable {spec : Spec} {stored base values : Dict}

theorem asBool_unusable {raw : Json} (hbool : ∀ b, raw ≠ .bool b)
    (htext : raw = .null ∨ Tables.lower raw.text.strip ∉ trueTexts ++ falseTexts)
    (default : Json) : asBool raw default = default := by
  unfold asBool
  split
  · rename_i b
    exact absurd rfl (hbool b)
  · rfl
  · rename_i hnull
    rcases htext with rfl | htext
    · exact absurd rfl hnull
    obtain ⟨htrue, hfalse⟩ := not_or.mp (mt List.mem_append.mpr htext)
    simp only [htrue, hfalse, if_false]

theorem coerce_enum (h : spec.kind = .enum) (raw : Json) : coerce spec raw =
    .ok (if coerceWord raw ∈ spec.choices then .str (coerceWord raw) else spec.default) := by
  unfold coerce
  rw [h]
  cases raw <;> rfl

/-- **An unusable value falls back.** -/
theorem effective_unusable {raw : Json} (hraw : values.lookup spec.key = some raw)
    (h : Unusable spec raw) (base : Dict) : effective spec values base = fallback spec base := by
  unfold Unusable at h
  unfold effective fallback
  rw [hraw]
  cases hkind : spec.kind with
  | bool =>
    simp only [hkind] at h
    simp only [coerce, hkind, asBool_unusable h.1 h.2]
  | int =>
    simp only [hkind] at h
    obtain ⟨text, htext⟩ := h
    simp only [htext]
  | float =>
    simp only [hkind] at h
    obtain ⟨text, htext⟩ := h
    simp only [htext]
  | enum =>
    simp only [hkind] at h
    simp only [coerce_enum hkind, if_neg h]
  | str => simp only [hkind] at h
  | csv => simp only [hkind] at h

theorem coerce_bool (h : spec.kind = .bool) (raw : Json) :
    coerce spec raw = .ok (asBool raw spec.default) := by
  unfold coerce
  rw [h]

/-- When a setting has the value to which an unusable one falls back. -/
theorem atFallback_iff (stored base : Dict) :
    AtFallback spec stored base ↔ effective spec stored base = fallback spec base := by
  have hword (coerced : Json → Json) (hcoerce : ∀ raw, coerce spec raw = .ok (coerced raw)) :
      (match stored.lookup spec.key with
        | none => base.lookup spec.key = some spec.default
        | some raw => coerce spec raw = .ok spec.default) ↔
        effective spec stored base = some spec.default := by
    unfold effective
    cases stored.lookup spec.key with
    | none => exact Iff.rfl
    | some raw =>
      simp only [hcoerce]
      rw [Except.ok.injEq, Option.some.injEq]
  have hnumber : (∀ raw v, stored.lookup spec.key = some raw → coerce spec raw = .ok v →
      base.lookup spec.key = some v) ↔ effective spec stored base = base.lookup spec.key := by
    unfold effective
    cases stored.lookup spec.key with
    | none => exact ⟨fun _ => rfl, fun _ => nofun⟩
    | some raw =>
      cases hraw : coerce spec raw with
      | error text =>
        simp only [hraw]
        refine iff_of_true (fun raw' v hraw' hv => ?_) trivial
        cases hraw'
        rw [hraw] at hv
        cases hv
      | ok v =>
        simp only [hraw]
        refine ⟨fun h => (h raw v rfl hraw).symm, fun h raw' v' hraw' hv => ?_⟩
        cases hraw'
        rw [hraw] at hv
        cases hv
        exact h.symm
  unfold AtFallback fallback
  cases hkind : spec.kind with
  | bool => exact hword _ (coerce_bool hkind)
  | enum => exact hword _ (coerce_enum hkind)
  | int => exact hnumber
  | float => exact hnumber
  | str => exact hnumber
  | csv => exact hnumber

/-! ## What is loaded -/

theorem lookup_normalizeSettings {n : Normalized} (hclean : Values Clean settingsSpec base)
    (hn : normalizeSettings values base = .ok n) (hspec : spec ∈ settingsSpec)
    (hkind : spec.kind ≠ .csv) (hqueue : spec.key ≠ lit "queue") :
    n.settings.lookup spec.key = effective spec values base := by
  obtain ⟨out, listed, protocols, domains, tooMany, hruled⟩ := ruled_of_ok hclean hn
  obtain ⟨hlists, -⟩ := ruled_keys spec hspec
  rw [hruled.lookup_eq (fun heq => hkind (hlists (.inl heq))) (fun heq => hkind (hlists (.inr heq)))
    hqueue, normalize_lookup settingsSpec_nodup hspec]

/-- The rules make the same of the same value. -/
theorem lookup_normalizeSettings_congr {values' : Dict} {n n' : Normalized}
    (hclean : Values Clean settingsSpec base) (hn : normalizeSettings values base = .ok n)
    (hn' : normalizeSettings values' base = .ok n') (hspec : spec ∈ settingsSpec)
    (hqueue : spec.key ≠ lit "queue")
    (h : effective spec values base = effective spec values' base) :
    n.settings.lookup spec.key = n'.settings.lookup spec.key := by
  obtain ⟨out, listed, protocols, domains, tooMany, hruled⟩ := ruled_of_ok hclean hn
  obtain ⟨out', listed', protocols', domains', tooMany', hruled'⟩ := ruled_of_ok hclean hn'
  have hmerged : (normalize settingsSpec values base).1.lookup spec.key =
      (normalize settingsSpec values' base).1.lookup spec.key := by
    rw [normalize_lookup settingsSpec_nodup hspec, normalize_lookup settingsSpec_nodup hspec, h]
  by_cases hprotocols : spec.key = lit "protocols"
  · rw [hprotocols, hruled.listed_eq, hruled'.listed_eq] at hmerged
    rw [hprotocols, hruled.lookup_protocols, hruled'.lookup_protocols, hruled.protocols_eq,
      hruled'.protocols_eq, Json.arr.inj (Option.some.inj hmerged)]
  by_cases hdomains : spec.key = lit "domains"
  · rw [hdomains] at hmerged
    rw [hdomains, hruled.lookup_domains, hruled'.lookup_domains, hruled.domains_eq,
      hruled'.domains_eq, Dict.get, Dict.get, hmerged]
  · rw [hruled.lookup_eq hprotocols hdomains hqueue, hruled'.lookup_eq hprotocols hdomains hqueue,
      hmerged]

/-- An accepted update is merged into the stored values. -/
theorem persisted_of_saved {environ : Str → Option Str} {writes : Bool} {file file' : SettingsFile}
    {answer : Answer} (hsave : saveSettings environ values writes file = .ok (file', answer))
    (hsaved : answer.saved = true) :
    persisted file' = updateKnown settingsKeys (persisted file) values := by
  obtain ⟨merged, -, heq⟩ := saveSettings_eq environ values writes file
  rw [heq, Except.ok.injEq] at hsave
  have hwritten : (writeMerged file (updateKnown settingsKeys (persisted file) values) merged
      writes).2.saved = true := by rw [hsave, hsaved]
  rw [writeMerged_saved hwritten] at hsave
  exact congrArg persisted (congrArg Prod.fst hsave).symm

/-! ## Updates that keep the rest -/

/-- What the update does not set, the number that is pinned apart, is as before. -/
def KeepsRest (values old new : Dict) : Prop :=
  ∀ spec ∈ settingsSpec, spec.key ≠ lit "queue" → Unset values spec →
    new.lookup spec.key = old.lookup spec.key

/-- **When an update keeps what it does not set.** -/
theorem save_keepsRest_iff {environ : Str → Option Str} {values : Dict}
    (hvalues : (values.map (·.1)).Nodup) {writes : Bool} {file file' : SettingsFile}
    {answer : Answer} (hsave : saveSettings environ values writes file = .ok (file', answer))
    (hsaved : answer.saved = true) {old new : Normalized}
    (hold : loadSettings environ file = .ok old) (hnew : loadSettings environ file' = .ok new) :
    KeepsRest values old.settings new.settings ↔
      ∀ spec ∈ settingsSpec, spec.key ≠ lit "queue" → ∀ raw, values.lookup spec.key = some raw →
        Unusable spec raw → AtFallback spec (persisted file) (settingsDefaults environ) := by
  have hclean := defaults_clean environ
  rw [loadSettings] at hold
  rw [loadSettings, persisted_of_saved hsave hsaved] at hnew
  have hlookup : ∀ spec ∈ settingsSpec,
      (updateKnown settingsKeys (persisted file) values).lookup spec.key =
        (values.lookup spec.key).or ((persisted file).lookup spec.key) :=
    fun spec hspec => updateKnown_lookup (List.mem_map_of_mem hspec) _ hvalues
  have hunused : ∀ spec ∈ settingsSpec, ∀ raw, values.lookup spec.key = some raw →
      Unusable spec raw →
      effective spec (updateKnown settingsKeys (persisted file) values) (settingsDefaults environ) =
        fallback spec (settingsDefaults environ) := by
    intro spec hspec raw hraw hunusable
    exact effective_unusable ((hlookup spec hspec).trans (by rw [hraw]; rfl)) hunusable _
  constructor
  · intro h spec hspec hqueue raw hraw hunusable
    have hkind : spec.kind ≠ .csv := by
      intro hkind
      unfold Unusable at hunusable
      rw [hkind] at hunusable
      exact hunusable
    have hunset : Unset values spec := by
      intro raw' hraw'
      rw [hraw] at hraw'
      cases hraw'
      exact hunusable
    have hkept := h spec hspec hqueue hunset
    rw [lookup_normalizeSettings hclean hnew hspec hkind hqueue,
      lookup_normalizeSettings hclean hold hspec hkind hqueue,
      hunused spec hspec raw hraw hunusable] at hkept
    exact (atFallback_iff _ _).mpr hkept.symm
  · intro h spec hspec hqueue hunset
    apply lookup_normalizeSettings_congr hclean hnew hold hspec hqueue
    cases hraw : values.lookup spec.key with
    | none =>
      unfold effective
      rw [hlookup spec hspec, hraw, Option.none_or]
    | some raw =>
      have hfallback := h spec hspec hqueue raw hraw (hunset raw hraw)
      rw [hunused spec hspec raw hraw (hunset raw hraw), (atFallback_iff _ _).mp hfallback]

omit [Tables]

/-- A save over an environment that sets nothing, and what is loaded before and after it. -/
structure Saved [Tables] (values : Dict) (file file' : SettingsFile) (answer : Answer)
    (old new : Normalized) : Prop where
  save : saveSettings (fun _ => none) values true file = .ok (file', answer)
  saved : answer.saved = true
  old : loadSettings (fun _ => none) file = .ok old
  new : loadSettings (fun _ => none) file' = .ok new

theorem saved_dns : letI := Tables.ascii
    ∃ file' answer old new, Saved [(lit "dns", .str (lit "tor"))] none file' answer old new :=
  ⟨_, _, _, _, @Saved.mk Tables.ascii _ _ _ _ _ _ rfl rfl rfl rfl⟩

/-- No file, and an update with a mode that does not exist. -/
theorem save_keepsRest_dns : letI := Tables.ascii
    ∃ file' answer old new, Saved [(lit "dns", .str (lit "tor"))] none file' answer old new ∧
      (KeepsRest [(lit "dns", .str (lit "tor"))] old.settings new.settings ↔
        ∀ spec ∈ settingsSpec, spec.key ≠ lit "queue" → ∀ raw,
          [(lit "dns", Json.str (lit "tor"))].lookup spec.key = some raw → Unusable spec raw →
          AtFallback spec (persisted none) (settingsDefaults fun _ => none)) := by
  let _ := Tables.ascii
  obtain ⟨file', answer, old, new, h⟩ := saved_dns
  have hvalues : ([(lit "dns", Json.str (lit "tor"))].map (·.1)).Nodup := List.nodup_singleton _
  exact ⟨file', answer, old, new, h, save_keepsRest_iff hvalues h.save h.saved h.old h.new⟩

theorem saved_workers : letI := Tables.ascii
    ∃ file' answer old new, Saved [(lit "workers", .str (lit "many"))]
        (some [(lit "workers", .int 256)]) file' answer old new ∧
      old.settings.lookup (lit "workers") = some (.int 256) ∧
      new.settings.lookup (lit "workers") = some (.int 64) :=
  ⟨_, _, _, _, @Saved.mk Tables.ascii _ _ _ _ _ _ rfl rfl rfl rfl, rfl, rfl⟩

/-- After 256 workers were stored, the update `workers: many` is accepted and leaves 64. -/
theorem unusable_workers_reset : letI := Tables.ascii
    ¬∀ environ values writes file file' answer old new, (values.map (·.1)).Nodup →
      saveSettings environ values writes file = .ok (file', answer) → answer.saved = true →
      loadSettings environ file = .ok old → loadSettings environ file' = .ok new →
      KeepsRest values old.settings new.settings := by
  let _ := Tables.ascii
  intro h
  obtain ⟨file', answer, old, new, hs, hbefore, hafter⟩ := saved_workers
  have hvalues : ([(lit "workers", Json.str (lit "many"))].map (·.1)).Nodup :=
    List.nodup_singleton _
  have hunset : Unset [(lit "workers", Json.str (lit "many"))] (intSpec "workers" 64 1 2048) := by
    intro raw hraw
    have hmany : Json.str (lit "many") = raw := Option.some.inj hraw
    rw [← hmany]
    exact ⟨_, rfl⟩
  have hkept : new.settings.lookup (lit "workers") = old.settings.lookup (lit "workers") :=
    h _ _ _ _ _ _ _ _ hvalues hs.save hs.saved hs.old hs.new _ intSpec_workers_mem (by decide)
      hunset
  rw [hbefore, hafter] at hkept
  injection hkept with hkept
  injection hkept with hkept
  revert hkept
  decide

end WebZapret.Selection
