import WebZapret.Catalog.ArgStream

/-!
# Filters and profiles

nfqws2 reads its options profile by profile, with `--new` between them, and a profile without a
`--filter-` option is for all traffic. `native_options` looks for a filter in the whole list, and when
there is none puts the one of the protocol in front: the first profile gets it, and a later one is left
without. When any profile has a filter, no other one gets one.

Main result: `native_scoped_iff`.
-/

namespace WebZapret.Catalog

open Py Failing

/-- Some option of the profile is a filter. -/
abbrev Filtered (profile : List Str) : Prop := AnyStarts profile (lit "--filter-")

/-- Some option of the profile is a `--lua-desync`. -/
abbrev Desyncs (profile : List Str) : Prop := ∃ a ∈ profile, a.key = lit "--lua-desync"

/-- Every profile that desyncs is for the traffic of a filter. -/
def Scoped (args : List Str) : Prop :=
  ∀ profile ∈ args.splitOn (lit "--new"), Desyncs profile → Filtered profile

instance (args : List Str) : Decidable (Scoped args) := by
  unfold Scoped
  infer_instance

theorem not_filtered_profile {ts profile : List Str} (h : ¬Filtered ts)
    (hprofile : profile ∈ ts.splitOn (lit "--new")) : ¬Filtered profile := by
  rintro ⟨a, ha, hstarts⟩
  have hne : a ≠ lit "--new" := by
    rintro rfl
    exact absurd hstarts (by decide)
  have hjoined := (mem_intercalate hne _).mpr ⟨profile, hprofile, ha⟩
  rw [List.intercalate_splitOn] at hjoined
  exact h ⟨a, hjoined, hstarts⟩

variable [Tables]

theorem protocolFilter_startsWith (protocol : Str) :
    (protocolFilter protocol).StartsWith (lit "--filter-") := by
  simp only [protocolFilter]
  split
  · decide
  · split <;> decide

omit [Tables] in
/-- The filter in front goes to the first profile. -/
theorem scoped_cons_filter {f : Str} {ts : List Str} (hf : f.StartsWith (lit "--filter-"))
    (hnone : ¬Filtered ts) :
    Scoped (f :: ts) ↔ ∀ profile ∈ (ts.splitOn (lit "--new")).tail, ¬Desyncs profile := by
  have hnew : f ≠ lit "--new" := by
    rintro rfl
    exact absurd hf (by decide)
  have hprofiles := fun profile => @not_filtered_profile _ profile hnone
  unfold Scoped
  rw [List.splitOn_cons_eq_if_modifyHead, if_neg (by simpa using hnew)]
  cases hsplit : ts.splitOn (lit "--new") with
  | nil => exact absurd hsplit (List.splitOn_ne_nil _ ts)
  | cons first rest =>
    rw [hsplit] at hprofiles
    rw [List.modifyHead_cons, List.tail_cons, List.forall_mem_cons]
    constructor
    · intro h profile hprofile hdesyncs
      exact hprofiles profile (List.mem_cons_of_mem _ hprofile) (h.2 profile hprofile hdesyncs)
    · intro h
      exact ⟨fun _ => ⟨f, List.mem_cons_self, hf⟩,
        fun profile hprofile hdesyncs => absurd hdesyncs (h profile hprofile)⟩

/-- The words of a native text get the filter of the protocol, if none of them is one. -/
theorem nativeArgs_str {ts : List Str} {p : Str} (hp : p ≠ []) :
    nativeArgs ts (.str p) = .ok (if Filtered ts then ts else protocolFilter p :: ts) := by
  have htruthy : (Json.str p).truthy = true := by simpa [Json.truthy] using hp
  unfold nativeArgs
  by_cases hfiltered : Filtered ts
  · rw [if_pos hfiltered, if_neg fun h => h.2 hfiltered]
  · rw [if_neg hfiltered, if_pos ⟨htruthy, hfiltered⟩]

/-- **When a protocol reaches every profile.** With no filter in a native text only the first profile
may desync; with one, every profile that desyncs must have its own. -/
theorem native_scoped_iff {text p : Str} {ts : List Str} (htext : Shlex.split text = .ok ts)
    (hnative : Native ts) (hp : p ≠ []) :
    Succeeds (nativeOptions (.str text) (.str p)) Scoped ↔
      if Filtered ts then Scoped ts
      else ∀ profile ∈ (ts.splitOn (lit "--new")).tail, ¬Desyncs profile := by
  have hoptions : nativeOptions (.str text) (.str p) =
      if ts = [] then .ok [] else nativeArgs ts (.str p) := by
    rw [nativeOptions, splitText, htext]
    show (if ts = [] then _ else if Native ts then _ else _) = _
    rw [if_pos hnative]
    rfl
  rw [hoptions]
  by_cases hts : ts = []
  · rw [if_pos hts, succeeds_ok, hts]
    decide
  rw [if_neg hts, nativeArgs_str hp, succeeds_ok]
  by_cases hfiltered : Filtered ts
  · rw [if_pos hfiltered, if_pos hfiltered]
  · rw [if_neg hfiltered, if_neg hfiltered]
    exact scoped_cons_filter (protocolFilter_startsWith p) hfiltered

omit [Tables]

/-- Two profiles that have their own filters. -/
theorem native_scoped_two : letI := Tables.ascii
    Succeeds (nativeOptions
      (.str (lit "--filter-tcp=80 --lua-desync=a --new --filter-tcp=443 --lua-desync=b"))
      (.str (lit "HTTPS"))) Scoped := by
  let _ := Tables.ascii
  have htext : Shlex.split
      (lit "--filter-tcp=80 --lua-desync=a --new --filter-tcp=443 --lua-desync=b") =
      .ok [lit "--filter-tcp=80", lit "--lua-desync=a", lit "--new", lit "--filter-tcp=443",
        lit "--lua-desync=b"] := rfl
  exact (native_scoped_iff htext (by decide) (by decide)).mpr (by decide)

/-- The second of two profiles is for all traffic. -/
theorem second_profile_unscoped : letI := Tables.ascii
    nativeOptions (.str (lit "--lua-desync=a --new --lua-desync=b")) (.str (lit "QUIC")) =
      .ok [lit "--filter-udp=443", lit "--lua-desync=a", lit "--new", lit "--lua-desync=b"] ∧
    ¬∀ text p ts, Shlex.split text = .ok ts → Native ts → p ≠ [] →
      Succeeds (nativeOptions (.str text) (.str p)) Scoped := by
  let _ := Tables.ascii
  have hresult : nativeOptions (.str (lit "--lua-desync=a --new --lua-desync=b"))
      (.str (lit "QUIC")) =
      .ok [lit "--filter-udp=443", lit "--lua-desync=a", lit "--new", lit "--lua-desync=b"] := rfl
  refine ⟨hresult, fun h => ?_⟩
  have htext : Shlex.split (lit "--lua-desync=a --new --lua-desync=b") =
      .ok [lit "--lua-desync=a", lit "--new", lit "--lua-desync=b"] := rfl
  have hscoped := h _ (lit "QUIC") _ htext (by decide) (by decide)
  rw [hresult, succeeds_ok] at hscoped
  exact absurd hscoped (by decide)

end WebZapret.Catalog
