import WebZapret.Selection.Commands
import WebZapret.Lib.Py.Runs

/-!
# The files of the domains

`plan` names the files of a domain after the letters and digits of its name only. Two domains of a
plan have their own files exactly when these names differ (`plan_apart_iff`), and the validator lets
domains through whose names do not (`plan_shared`): one of them then reads and overwrites the
reports of the other.
-/

namespace WebZapret.Selection

open Py Failing

variable [Tables]

/-! ## The stem of a domain -/

/-- The runs of letters and digits of a domain in lower case; `x` stands for none. -/
def stemWords (domain : Str) : List Str :=
  let words := (Tables.lower domain).runs fun c => isLower c || isAsciiDigit c
  if words = [] then [lit "x"] else words

/-- What the files of a domain are named after: the first 40 characters of its runs of letters and
digits, with a `_` between. -/
def stem (domain : Str) : Str := (Str.join (lit "_") (stemWords domain)).take 40

theorem domainSlug_eq (domain : Str) : domainSlug (.str domain) = stem domain := by
  have htext : ((Json.str domain).or (.str [])).text = domain := by
    by_cases hnil : domain = []
    · rw [hnil]
      rfl
    · have htruthy : (Json.str domain).truthy = true := decide_eq_true hnil
      rw [Json.or, if_pos htruthy]
      rfl
  rw [domainSlug, htext, Catalog.slug, Str.stripBy_squash rfl, stem, stemWords]
  have hclean := Str.runs_clean (fun c => isLower c || isAsciiDigit c) (Tables.lower domain)
  cases hruns : (Tables.lower domain).runs fun c => isLower c || isAsciiDigit c with
  | nil => rfl
  | cons w ws =>
    rw [hruns] at hclean
    have hjoin : Str.join [95] (w :: ws) ≠ [] := Str.join_ne_nil (hclean w List.mem_cons_self).1
    have htake : (Str.join [95] (w :: ws)).take 40 ≠ [] := by simpa using hjoin
    exact if_neg htake

/-! ## Paths -/

omit [Tables] in
/-- Names that are no absolute paths are kept apart. -/
theorem joinPath_inj {dir a b : Str} (ha : ¬a.StartsWith (lit "/")) (hb : ¬b.StartsWith (lit "/")) :
    joinPath dir a = joinPath dir b ↔ a = b := by
  rw [joinPath, joinPath, if_neg ha, if_neg hb]
  split
  · exact List.append_right_inj dir
  · exact List.append_right_inj (dir ++ lit "/")

/-- The kinds of files a domain has: what their names begin and end with. -/
def fileKinds : List (String × String) :=
  [("scan_", ".json"), ("check_", ".json"), ("bcw_", ".log")]

/-- A file of a domain. -/
def runFile (runDir : Str) (kind : String × String) (domain : Str) : Str :=
  joinPath runDir (lit kind.1 ++ stem domain ++ lit kind.2)

omit [Tables] in
/-- The first character tells the kinds apart, and is no slash. -/
theorem fileKinds_head : ∀ kind ∈ fileKinds, ∃ c rest, lit kind.1 = c :: rest ∧ c ≠ 47 ∧
    ∀ kind' ∈ fileKinds, (lit kind'.1).head? = some c → kind = kind' := by
  simp only [fileKinds, List.forall_mem_cons, List.not_mem_nil, false_implies, implies_true,
    and_true]
  exact ⟨⟨115, lit "can_", rfl, by decide, by decide⟩, ⟨99, lit "heck_", rfl, by decide, by decide⟩,
    ⟨98, lit "cw_", rfl, by decide, by decide⟩⟩

/-- Two files are the same one exactly if their kinds and their stems agree. -/
theorem runFile_eq_iff {runDir d e : Str} {kind kind' : String × String} (h : kind ∈ fileKinds)
    (h' : kind' ∈ fileKinds) :
    runFile runDir kind d = runFile runDir kind' e ↔ kind = kind' ∧ stem d = stem e := by
  obtain ⟨c, rest, hkind, hc, hall⟩ := fileKinds_head kind h
  obtain ⟨c', rest', hkind', hc', _⟩ := fileKinds_head kind' h'
  have hslash : ∀ {x : Nat} {s : Str}, x ≠ 47 → ¬Str.StartsWith (x :: s) (lit "/") := by
    intro x s hx hpre
    exact hx (List.cons_prefix_cons.mp hpre).1.symm
  constructor
  · intro heq
    rw [runFile, runFile, hkind, hkind', List.cons_append, List.cons_append, List.cons_append,
      List.cons_append, joinPath_inj (hslash hc) (hslash hc')] at heq
    obtain ⟨hhead, htail⟩ := (List.cons.injEq ..).mp heq
    obtain rfl : kind = kind' := hall kind' h' (by rw [hkind', hhead]; rfl)
    obtain ⟨_, hrest⟩ := (List.cons.injEq ..).mp (hkind.symm.trans hkind')
    rw [hrest] at htail
    exact ⟨rfl, List.append_cancel_left (List.append_cancel_right htail)⟩
  · rintro ⟨rfl, hstem⟩
    rw [runFile, runFile, hstem]

/-- The files of a planned domain. -/
def Planned.files (p : Planned) : List Str := [p.scanOut, p.checkOut, p.log]

theorem files_of_planDomain {settings : Dict} {runDir domain : Str} {p : Planned}
    (h : planDomain settings runDir (.str domain) = .ok p) :
    p.files = fileKinds.map (runFile runDir · domain) := by
  obtain ⟨scan, _, h⟩ := bind_eq_ok.mp h
  obtain ⟨check, _, h⟩ := bind_eq_ok.mp h
  cases h
  simp only [Planned.files, fileKinds, List.map_cons, List.map_nil, runFile, domainSlug_eq]

/-- No file of the one is a file of the other. -/
def Apart (a b : Planned) : Prop := ∀ file ∈ a.files, file ∉ b.files

theorem apart_iff {settings : Dict} {runDir d e : Str} {a b : Planned}
    (ha : planDomain settings runDir (.str d) = .ok a)
    (hb : planDomain settings runDir (.str e) = .ok b) : Apart a b ↔ stem d ≠ stem e := by
  rw [Apart, files_of_planDomain ha, files_of_planDomain hb]
  constructor
  · intro hapart hstem
    have hscan : ("scan_", ".json") ∈ fileKinds := List.mem_cons_self
    refine hapart _ (List.mem_map_of_mem hscan) (List.mem_map.mpr ⟨_, hscan, ?_⟩)
    exact (runFile_eq_iff hscan hscan).mpr ⟨rfl, hstem.symm⟩
  · intro hstem file hfile hfile'
    obtain ⟨kind, hkind, rfl⟩ := List.mem_map.mp hfile
    obtain ⟨kind', hkind', heq⟩ := List.mem_map.mp hfile'
    exact hstem ((runFile_eq_iff hkind' hkind).mp heq).2.symm

/-! ## The files of a plan -/

omit [Tables] in
/-- A relation between the elements of two lists that correspond to each other. -/
theorem pairwise_iff_of_forall₂ {α β : Type} {R : α → β → Prop} {S : α → α → Prop}
    {T : β → β → Prop} (hST : ∀ a b a' b', R a b → R a' b' → (S a a' ↔ T b b')) {l : List α}
    {l' : List β} (h : List.Forall₂ R l l') : l.Pairwise S ↔ l'.Pairwise T := by
  induction h with
  | nil => simp
  | @cons a b l l' hab hrest ih =>
    rw [List.pairwise_cons, List.pairwise_cons, ih]
    refine and_congr ?_ Iff.rfl
    clear ih
    induction hrest with
    | nil => simp
    | cons hab' _ ih => rw [List.forall_mem_cons, List.forall_mem_cons, ih, hST _ _ _ _ hab hab']

/-- The plan of clean settings, whose files are apart exactly if the stems of the domains are. -/
theorem plan_of_clean {settings : Dict} (h : Values Clean settingsSpec settings)
    {domains : List Str} (hdomains : settings.lookup (lit "domains") = some (.arr (domains.map .str)))
    (runDir : Str) :
    ∃ p, plan settings runDir = .ok p ∧ p.runs.map (·.domain) = domains.map .str ∧
      (p.runs.Pairwise Apart ↔ domains.Pairwise fun d e => stem d ≠ stem e) := by
  obtain ⟨p, hp, hruns⟩ := plan_ok (plannable_of_clean h) hdomains runDir
  rw [List.forall₂_map_left_iff] at hruns
  refine ⟨p, hp, ?_, ?_⟩
  · have heq : List.Forall₂ (· = ·) (p.runs.map (·.domain)) (domains.map .str) := by
      rw [List.forall₂_map_left_iff, List.forall₂_map_right_iff]
      exact hruns.flip.imp fun _ _ hrun => hrun.domain
    exact List.forall₂_eq_eq_eq ▸ heq
  · exact pairwise_iff_of_forall₂ (fun _ _ _ _ ha hb => apart_iff ha.eq hb.eq) hruns.flip

theorem domains_of_normalized {base values : Dict} (hbase : Values Clean settingsSpec base)
    {n : Normalized} (hn : normalizeSettings values base = .ok n) :
    ∃ domains : List Str, n.settings.lookup (lit "domains") = some (.arr (domains.map .str)) ∧
      domains.Nodup := by
  obtain ⟨out, listed, protocols, domains, tooMany, hruled⟩ := ruled_of_ok hbase hn
  refine ⟨domains, hruled.lookup_domains, ?_⟩
  rw [hruled.domains_eq]
  exact keptDomains_nodup _

/-- **Which domains have their own files**: the domains of normalized settings are different ones,
and no two of them share a file exactly if their stems differ. -/
theorem plan_apart_iff {base values : Dict} (hbase : Values Clean settingsSpec base)
    {n : Normalized} (hn : normalizeSettings values base = .ok n) (runDir : Str) :
    ∃ (domains : List Str) (p : RunPlan),
      n.settings.lookup (lit "domains") = some (.arr (domains.map .str)) ∧ domains.Nodup ∧
        plan n.settings runDir = .ok p ∧ p.runs.map (·.domain) = domains.map .str ∧
        (p.runs.Pairwise Apart ↔ domains.Pairwise fun d e => stem d ≠ stem e) := by
  obtain ⟨domains, hdomains, hnodup⟩ := domains_of_normalized hbase hn
  obtain ⟨p, hp⟩ := plan_of_clean (normalizeSettings_clean hbase hn) hdomains runDir
  exact ⟨domains, p, hdomains, hnodup, hp⟩

omit [Tables] in
/-- Two domains with different stems. -/
theorem plan_apart_iff_two :
    letI := Tables.ascii
    ∃ n, normalizeSettings [(lit "domains", .arr [.str (lit "a.com"), .str (lit "b.com")])]
        (settingsDefaults fun _ => none) = .ok n ∧
      n.settings.lookup (lit "domains") = some (.arr [.str (lit "a.com"), .str (lit "b.com")]) ∧
      ∃ p, plan n.settings (lit "/run/1") = .ok p ∧
        p.runs.map (·.domain) = [.str (lit "a.com"), .str (lit "b.com")] ∧
        p.runs.Pairwise Apart := by
  let _ := Tables.ascii
  obtain ⟨n, hn, hlookup⟩ : ∃ n,
      normalizeSettings [(lit "domains", .arr [.str (lit "a.com"), .str (lit "b.com")])]
        (settingsDefaults fun _ => none) = .ok n ∧
      n.settings.lookup (lit "domains") = some (.arr [.str (lit "a.com"), .str (lit "b.com")]) :=
    ⟨_, rfl, rfl⟩
  obtain ⟨domains, p, hdomains, -, hp, hruns, hapart⟩ :=
    plan_apart_iff (defaults_clean fun _ => none) hn (lit "/run/1")
  have htexts : domains.map Json.str = [lit "a.com", lit "b.com"].map Json.str :=
    Json.arr.inj (Option.some.inj (hdomains.symm.trans hlookup))
  have hstr : Function.Injective Json.str := fun _ _ h => Json.str.inj h
  obtain rfl : domains = [lit "a.com", lit "b.com"] := List.map_injective_iff.mpr hstr htexts
  exact ⟨n, hn, hlookup, p, hp, hruns, hapart.mpr (by decide)⟩

omit [Tables] in
theorem normalize_hyphen_dot :
    letI := Tables.ascii
    ∃ n, normalizeSettings [(lit "domains", .arr [.str (lit "a-b.com"), .str (lit "a.b.com")])]
        (settingsDefaults fun _ => none) = .ok n ∧ n.errors = [] ∧
      n.settings.lookup (lit "domains") =
        some (.arr [.str (lit "a-b.com"), .str (lit "a.b.com")]) := by
  let _ := Tables.ascii
  exact ⟨_, rfl, rfl, rfl⟩

omit [Tables] in
/-- A hyphen and a dot are the same `_`. -/
theorem plan_shared :
    letI := Tables.ascii
    ∃ n p, normalizeSettings [(lit "domains", .arr [.str (lit "a-b.com"), .str (lit "a.b.com")])]
        (settingsDefaults fun _ => none) = .ok n ∧ n.errors = [] ∧
      n.settings.lookup (lit "domains") =
        some (.arr [.str (lit "a-b.com"), .str (lit "a.b.com")]) ∧
      plan n.settings (lit "/run/1") = .ok p ∧ ¬p.runs.Pairwise Apart := by
  let _ := Tables.ascii
  obtain ⟨n, hn, herrors, hdomains⟩ := normalize_hyphen_dot
  have hclean := normalizeSettings_clean (defaults_clean fun _ => none) hn
  have htexts : n.settings.lookup (lit "domains") =
      some (.arr ([lit "a-b.com", lit "a.b.com"].map .str)) := hdomains
  obtain ⟨p, hp, _, hapart⟩ := plan_of_clean hclean htexts (lit "/run/1")
  refine ⟨n, p, hn, herrors, hdomains, hp, ?_⟩
  rw [hapart]
  decide

end WebZapret.Selection
