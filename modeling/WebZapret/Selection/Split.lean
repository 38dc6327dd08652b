import WebZapret.Selection.Filter
import WebZapret.Selection.Soundness
import WebZapret.Lib.StableSort
import Mathlib.Data.Prod.Lex
import Mathlib.Order.WithBot

/-!
# The split of the checked rows

`select_working` puts every row into one of its two lists: the accepted ones are those that the
settings accept, and each list is in the order of `rank`, ties in the order of the report
(`selectWorking_split`). The numbers are compared as numbers here, the infinities included, so that
the order is a linear one; a report with a NaN is outside.
-/

namespace WebZapret.Selection

open Py Failing

/-! ## Doubles in order -/

/-- A number or an infinity. -/
abbrev Amount := WithBot (WithTop Rat)

/-- The amount a double stands for; NaN is none. -/
def amount (x : Flt) : Amount :=
  match x.toRat? with
  | some q => ((q : WithTop Rat) : Amount)
  | none => if x = .inf false then ((⊤ : WithTop Rat) : Amount) else ⊥

theorem Flt.cases_of_ne_nan {x : Flt} (h : x ≠ .nan) :
    (∃ q, x.toRat? = some q) ∨ x = .inf true ∨ x = .inf false := by
  cases x with
  | fin q => exact .inl ⟨q, rfl⟩
  | negZero => exact .inl ⟨0, rfl⟩
  | inf neg =>
    cases neg with
    | true => exact .inr (.inl rfl)
    | false => exact .inr (.inr rfl)
  | nan => exact absurd rfl h

theorem Flt.toRat?_neg {x : Flt} {q : Rat} (h : x.toRat? = some q) :
    x.neg.toRat? = some (-q) := by
  cases x with
  | fin p =>
    obtain rfl : p = q := Option.some.inj h
    by_cases hp : p = 0
    · simp [Flt.neg, hp, Flt.toRat?]
    · simp [Flt.neg, hp, Flt.toRat?]
  | negZero =>
    obtain rfl : (0 : Rat) = q := Option.some.inj h
    rfl
  | inf neg => cases h
  | nan => cases h

theorem amount_of_toRat? {x : Flt} {q : Rat} (h : x.toRat? = some q) :
    amount x = ((q : WithTop Rat) : Amount) := by
  rw [amount, h]

@[simp] theorem amount_inf (neg : Bool) :
    amount (.inf neg) = if neg then ⊥ else ((⊤ : WithTop Rat) : Amount) := by
  cases neg <;> rfl

theorem amount_le {x y : Flt} (hx : x ≠ .nan) (hy : y ≠ .nan) :
    x.le y = true ↔ amount x ≤ amount y := by
  have hinf : ∀ neg, (Flt.inf neg).toRat? = none := fun _ => rfl
  rcases Flt.cases_of_ne_nan hx with ⟨p, hp⟩ | rfl | rfl
  · rcases Flt.cases_of_ne_nan hy with ⟨q, hq⟩ | rfl | rfl
    · simp [Flt.le, hp, hq, amount_of_toRat? hp, amount_of_toRat? hq]
    · simp [Flt.le, hp, hinf, amount_of_toRat? hp]
    · simp [Flt.le, hp, hinf, amount_of_toRat? hp]
  · simp [Flt.le, hinf]
  · rcases Flt.cases_of_ne_nan hy with ⟨q, hq⟩ | rfl | rfl
    · have hne : Flt.inf false ≠ y := by
        rintro rfl
        cases hq
      simp [Flt.le, hinf, hne, amount_of_toRat? hq]
    · simp [Flt.le, hinf]
    · simp [Flt.le, hinf]

/-- A minus sign turns the order round. -/
theorem amount_neg_le {x y : Flt} (hx : x ≠ .nan) (hy : y ≠ .nan) :
    amount x.neg ≤ amount y.neg ↔ amount y ≤ amount x := by
  have hinf : ∀ neg, (Flt.inf neg).neg = .inf !neg := fun _ => rfl
  rcases Flt.cases_of_ne_nan hx with ⟨p, hp⟩ | rfl | rfl
  · rcases Flt.cases_of_ne_nan hy with ⟨q, hq⟩ | rfl | rfl
    · rw [amount_of_toRat? hp, amount_of_toRat? hq, amount_of_toRat? (Flt.toRat?_neg hp),
        amount_of_toRat? (Flt.toRat?_neg hq), WithBot.coe_le_coe, WithTop.coe_le_coe,
        WithBot.coe_le_coe, WithTop.coe_le_coe, neg_le_neg_iff]
    · simp [hinf, amount_of_toRat? (Flt.toRat?_neg hp)]
    · simp [hinf, amount_of_toRat? hp, amount_of_toRat? (Flt.toRat?_neg hp)]
  · rcases Flt.cases_of_ne_nan hy with ⟨q, hq⟩ | rfl | rfl
    · simp [hinf, amount_of_toRat? hq, amount_of_toRat? (Flt.toRat?_neg hq)]
    · simp
    · simp [hinf]
  · simp [hinf]

/-! ## The order of the rows -/

/-- No number of the row is a NaN. -/
def Exact (row : CheckRow) : Prop := row.successRate ≠ .nan ∧ row.medianShare ≠ some .nan

/-- What a row is ranked by: the working ones first, then the greater rate, the greater share (none
is 0) and the smaller latency. -/
def standing (row : CheckRow) : Nat ×ₗ Amountᵒᵈ ×ₗ Amountᵒᵈ ×ₗ Int :=
  toLex (if row.working then 0 else 1, toLex (.toDual (amount row.successRate),
    toLex (.toDual (amount (row.medianShare.getD (.fin 0))), row.medianLatencyMs)))

theorem Exact.share_ne {row : CheckRow} (h : Exact row) :
    row.medianShare.getD (.fin 0) ≠ .nan := by
  cases hshare : row.medianShare with
  | none => exact Flt.noConfusion
  | some share =>
    intro hnan
    exact h.2 (hshare.trans (congrArg some hnan))

/-- A component of a lexicographic comparison of doubles, turned round by a minus sign. -/
theorem neg_le_step {x y : Flt} (hx : x ≠ .nan) (hy : y ≠ .nan) {p : Prop} :
    (¬y.neg.le x.neg ∨ x.neg.le y.neg ∧ p) ↔
      (OrderDual.toDual (amount x) < .toDual (amount y) ∨
        OrderDual.toDual (amount x) = .toDual (amount y) ∧ p) := by
  have hneg : ∀ {z : Flt}, z ≠ .nan → z.neg ≠ .nan := by
    intro z hz
    rcases Flt.cases_of_ne_nan hz with ⟨q, hq⟩ | rfl | rfl
    · intro hnan
      have hq := Flt.toRat?_neg hq
      rw [hnan] at hq
      cases hq
    · exact Flt.noConfusion
    · exact Flt.noConfusion
  rw [amount_le (hneg hy) (hneg hx), amount_le (hneg hx) (hneg hy), amount_neg_le hy hx,
    amount_neg_le hx hy, OrderDual.toDual_lt_toDual, OrderDual.toDual_inj, not_le]
  constructor
  · rintro (hlt | ⟨hle, hp⟩)
    · exact .inl hlt
    · rcases hle.lt_or_eq with hlt | heq
      · exact .inl hlt
      · exact .inr ⟨heq.symm, hp⟩
  · rintro (hlt | ⟨heq, hp⟩)
    · exact .inl hlt
    · exact .inr ⟨heq.ge, hp⟩

/-- `rank` compares rows by their standing. -/
theorem keyBefore_iff {a b : CheckRow} (ha : Exact a) (hb : Exact b) :
    KeyBefore a b ↔ standing a ≤ standing b := by
  simp only [KeyBefore, rankingKey, standing, Prod.Lex.toLex_le_toLex,
    neg_le_step ha.1 hb.1, neg_le_step ha.share_ne hb.share_ne]

/-- Without a NaN `rank` is a stable sort. -/
theorem rank_stableSort {rows : List CheckRow} (h : ∀ row ∈ rows, Exact row)
    (sortNaN : SortNaN) : StableSort standing rows (rank sortNaN rows) := by
  have hsorted : rank sortNaN rows = rows.insertionSort KeyBefore := if_pos h
  rw [hsorted]
  exact stableSort_of_agree fun a ha b hb => keyBefore_iff (h a ha) (h b hb)

/-! ## Which rows are accepted -/

/-- The settings accept the row: it works, it is not a mirage where these are excluded, and where a
share is asked for it has one that is large enough. -/
def Accepts (excludeMirage : Bool) (minShare : Rat) (row : CheckRow) : Prop :=
  row.working = true ∧ ¬(excludeMirage = true ∧ row.admits = [lit "Mirage"]) ∧
    (0 < minShare → ∃ share ∈ row.medianShare, amount (.fin minShare) ≤ amount share)

instance (excludeMirage : Bool) (minShare : Rat) : DecidablePred (Accepts excludeMirage minShare) :=
  fun row => inferInstanceAs (Decidable (_ ∧ ¬(_ ∧ row.admits = _) ∧ (_ → ∃ share ∈ _, _)))

/-- The two settings of the filter. -/
structure FilterSettings (settings : Dict) (excludeMirage : Bool) (minShare : Rat) : Prop where
  exclude : settings.lookup (lit "exclude_mirage") = some (.bool excludeMirage)
  share : settings.lookup (lit "min_share") = some (.float (.fin minShare))

variable [Tables]

section

variable {settings : Dict} {excludeMirage : Bool} {minShare : Rat}

theorem FilterSettings.floatField_eq (h : FilterSettings settings excludeMirage minShare) :
    floatField settings "min_share" = .ok (.fin minShare) := by
  rw [floatField, get_of_lookup h.share, Json.or]
  split
  · rfl
  · rename_i hzero
    have hzero : minShare = 0 := by simpa [Json.truthy] using hzero
    rw [hzero]
    rfl

omit [Tables] in
theorem FilterSettings.get0_eq (h : FilterSettings settings excludeMirage minShare) :
    settings.get0 (lit "exclude_mirage") = .bool excludeMirage := by
  rw [Dict.get0, Dict.get, h.exclude]
  rfl

omit [Tables] in
theorem fin_lt {x : Flt} {q : Rat} (hx : x ≠ .nan) :
    x.lt (.fin q) = true ↔ amount x < amount (.fin q) := by
  rw [← not_le, ← amount_le Flt.noConfusion hx]
  simp [Flt.lt, hx]

/-- The filter gives no reason exactly for the rows that are accepted. -/
theorem filterReason_accepts (h : FilterSettings settings excludeMirage minShare) {row : CheckRow}
    (hrow : Exact row) :
    ∃ reason, filterReason row settings = .ok reason ∧
      (reason = none ↔ Accepts excludeMirage minShare row) := by
  unfold filterReason
  rw [h.get0_eq, h.floatField_eq]
  by_cases hworking : row.working = true
  · by_cases hmirage : excludeMirage = true ∧ row.admits = [lit "Mirage"]
    · refine ⟨_, (if_neg (not_not_intro hworking)).trans (if_pos hmirage), ?_⟩
      simp [Accepts, hmirage]
    · have hpos : (Flt.fin 0).lt (.fin minShare) = true ↔ 0 < minShare := by
        simp [Flt.lt, Flt.le, Flt.toRat?]
      by_cases hshare : 0 < minShare
      · refine ⟨_, (if_neg (not_not_intro hworking)).trans
          ((if_neg hmirage).trans (if_pos (hpos.mpr hshare))), ?_⟩
        have haccepts : Accepts excludeMirage minShare row ↔
            ∃ share ∈ row.medianShare, amount (.fin minShare) ≤ amount share := by
          simp [Accepts, hworking, hmirage, hshare]
        rw [haccepts]
        cases hmedian : row.medianShare with
        | none => simp
        | some share =>
          have hnan : share ≠ .nan := by
            intro hnan
            exact hrow.2 (hmedian.trans (congrArg some hnan))
          by_cases hlt : share.lt (.fin minShare) = true
          · simp [hlt, (fin_lt hnan).mp hlt]
          · simp [hlt, not_lt.mp (mt (fin_lt hnan).mpr hlt)]
      · refine ⟨none, (if_neg (not_not_intro hworking)).trans
          ((if_neg hmirage).trans (if_neg (mt hpos.mp hshare))), ?_⟩
        simp [Accepts, hworking, hmirage, hshare]
  · refine ⟨_, if_pos hworking, ?_⟩
    simp [Accepts, hworking]

/-- The loop appends the accepted rows to the one list and the others to the other. -/
theorem foldlM_sortRow (h : FilterSettings settings excludeMirage minShare)
    (rows : List CheckRow) (hrows : ∀ row ∈ rows, Exact row)
    (acc : List CheckRow × List (CheckRow × Str)) :
    ∃ refused, rows.foldlM (sortRow settings) acc =
        .ok (acc.1 ++ rows.filter (Accepts excludeMirage minShare ·), acc.2 ++ refused) ∧
      refused.map Prod.fst = rows.filter (¬Accepts excludeMirage minShare ·) := by
  induction rows generalizing acc with
  | nil =>
    refine ⟨[], ?_, rfl⟩
    simp only [List.foldlM_nil, List.filter_nil, List.append_nil]
    rfl
  | cons row rows ih =>
    obtain ⟨reason, hreason, hnone⟩ := filterReason_accepts h (hrows row List.mem_cons_self)
    have hrows := fun r hr => hrows r (List.mem_cons_of_mem row hr)
    cases reason with
    | none =>
      have haccepts := hnone.mp rfl
      obtain ⟨refused, hloop, hrefused⟩ := ih hrows (acc.1 ++ [row], acc.2)
      have hstep : sortRow settings acc row = .ok (acc.1 ++ [row], acc.2) := by
        rw [sortRow, hreason]
        rfl
      refine ⟨refused, ?_, ?_⟩
      · rw [List.foldlM_cons, hstep, List.filter_cons_of_pos (by simpa using haccepts)]
        refine hloop.trans ?_
        rw [List.append_assoc]
        rfl
      · rw [hrefused, List.filter_cons_of_neg (by simpa using haccepts)]
    | some reason =>
      have haccepts : ¬Accepts excludeMirage minShare row := fun ha => nomatch hnone.mpr ha
      obtain ⟨refused, hloop, hrefused⟩ := ih hrows (acc.1, acc.2 ++ [(row, reason)])
      have hstep : sortRow settings acc row = .ok (acc.1, acc.2 ++ [(row, reason)]) := by
        rw [sortRow, hreason]
        rfl
      refine ⟨(row, reason) :: refused, ?_, ?_⟩
      · rw [List.foldlM_cons, hstep, List.filter_cons_of_neg (by simpa using haccepts)]
        refine hloop.trans ?_
        rw [List.append_assoc]
        rfl
      · rw [List.map_cons, hrefused, List.filter_cons_of_pos (by simpa using haccepts)]

end

/-! ## The split -/

/-- The rows of a report, split into the accepted and the refused ones, both best first. -/
structure Split (settings : Dict) (accepts : CheckRow → Bool) (rows accepted : List CheckRow)
    (refused : List (CheckRow × Str)) : Prop where
  perm : (accepted ++ refused.map Prod.fst).Perm rows
  best : StableSort standing (rows.filter accepts) accepted
  rest : StableSort standing (rows.filter fun row => !accepts row) (refused.map Prod.fst)
  reason : ∀ m ∈ refused, filterReason m.1 settings = .ok (some m.2)

omit [Tables] in
theorem filterSettings_of_clean {settings : Dict} (h : Values Clean settingsSpec settings) :
    ∃ excludeMirage minShare, FilterSettings settings excludeMirage minShare := by
  obtain ⟨value, hvalue, lo, hi, share, _, _, rfl, _, _⟩ :=
    h _ (List.mem_of_getElem? (i := 21) rfl)
  obtain ⟨value, hexclude, exclude, rfl⟩ := h (boolSpec "exclude_mirage" true)
    (List.mem_of_getElem? (i := 22) rfl)
  exact ⟨exclude, share, hexclude, hvalue⟩

/-- **`select_working` splits the rows.** Each row of the report is in one of the two lists, in the
first one exactly if the settings accept it, and each list is ordered best first, ties as in the
report. -/
theorem selectWorking_split {base values : Dict} (hbase : Values Clean settingsSpec base)
    {n : Normalized} (hn : normalizeSettings values base = .ok n) {rows : List CheckRow}
    (hrows : ∀ row ∈ rows, Exact row) (sortNaN : SortNaN) :
    ∃ excludeMirage minShare accepted refused,
      FilterSettings n.settings excludeMirage minShare ∧
        selectWorking sortNaN rows n.settings = .ok (accepted, refused) ∧
        Split n.settings (Accepts excludeMirage minShare ·) rows accepted refused := by
  obtain ⟨excludeMirage, minShare, hfilter⟩ :=
    filterSettings_of_clean (normalizeSettings_clean hbase hn)
  have hsorted := rank_stableSort hrows sortNaN
  have hranked : ∀ row ∈ rank sortNaN rows, Exact row :=
    fun row hrow => hrows row (hsorted.perm.mem_iff.mp hrow)
  obtain ⟨refused, hloop, hrefused⟩ := foldlM_sortRow hfilter _ hranked ([], [])
  refine ⟨excludeMirage, minShare, _, refused, hfilter, hloop, ?_⟩
  have haccepted := hsorted.filter (Accepts excludeMirage minShare ·)
  have hrest := hsorted.filter fun row => !decide (Accepts excludeMirage minShare row)
  have hnot : refused.map Prod.fst = (rank sortNaN rows).filter fun row =>
      !decide (Accepts excludeMirage minShare row) := by
    simp only [hrefused, decide_not]
  rw [← hnot] at hrest
  refine ⟨?_, haccepted, hrest, fun m hm => ((selectWorking_mem hloop).2 m hm).2⟩
  rw [hnot]
  exact (List.filter_append_perm _ _).trans hsorted.perm

/-- A working row that only admits a mirage, and another one. -/
def mirageRows : List CheckRow :=
  [⟨lit "tls12", lit "a", 1, true, .fin 1, 3, 3, none, 80, .fin 0, .null, [], [lit "Mirage"]⟩,
    ⟨lit "tls12", lit "b", 1, true, .fin (1 / 2), 3, 3, some (.fin 1), 90, .fin 0, .null, [], []⟩]

omit [Tables] in
theorem selectWorking_split_mirage :
    letI := Tables.ascii
    ∃ n, normalizeSettings [] (settingsDefaults fun _ => none) = .ok n ∧
      (∀ row ∈ mirageRows, Exact row) ∧ ∃ excludeMirage minShare accepted refused,
        FilterSettings n.settings excludeMirage minShare ∧
          selectWorking (fun rows => ⟨rows, .refl _⟩) mirageRows n.settings =
            .ok (accepted, refused) ∧
          Split n.settings (Accepts excludeMirage minShare ·) mirageRows accepted refused := by
  let _ := Tables.ascii
  have hrows : ∀ row ∈ mirageRows, Exact row := by
    simp [mirageRows, Exact]
  obtain ⟨n, hn⟩ := normalizeSettings_ok (fun _ => none) []
  exact ⟨n, hn, hrows, selectWorking_split (defaults_clean fun _ => none) hn hrows _⟩

end WebZapret.Selection
