import WebZapret.Lib.Py.JsonText

/-!
# The round trip of JSON values

`dumps` and then `loads` give the same value (`loads_dumps`), whatever the style, for the values that
`Style.Keeps` describes. Inside a longer text the scanner stops where the value ends
(`rawDecode_dumps`).

A call for a value uses up at least one character, so the characters of its text are enough for the
calls inside it.
-/

namespace WebZapret.Py

open Scan

section

variable [Tables]

/-- A float comes back from its text. -/
def FloatKept : Flt → Prop
  | .nan => True
  | .inf _ => True
  | x => number (Tables.reprFloat x) = some (.float x, [])

namespace Style

variable (style : Style)

mutual

/-- Nothing of the value is lost in print. -/
def Keeps : Json → Prop
  | .int i => ShortInt i
  | .float x => FloatKept x
  | .str s => style.KeepsText s
  | .arr xs => KeepsItems xs
  | .obj ms => (ms.map (·.1)).Nodup ∧ KeepsMembers ms
  | _ => True

def KeepsItems : List Json → Prop
  | [] => True
  | x :: xs => Keeps x ∧ KeepsItems xs

def KeepsMembers : List (Str × Json) → Prop
  | [] => True
  | (k, x) :: ms => style.KeepsText k ∧ Keeps x ∧ KeepsMembers ms

end

end Style

end

/-- A member that is new comes last. -/
theorem Dict.set_new {d : Dict} {key : Str} (h : key ∉ d.map (·.1)) (x : Json) :
    d.set key x = d ++ [(key, x)] := by
  induction d with
  | nil => rfl
  | cons m d ih =>
    obtain ⟨k, v⟩ := m
    obtain ⟨hne, hmem⟩ := not_or.mp (mt List.mem_cons.mpr h)
    rw [Dict.set, if_neg (Ne.symm hne), ih hmem]
    rfl

theorem Dict.not_mem_before {before ms : Dict} {k : Str} {x : Json}
    (h : ((before ++ (k, x) :: ms).map (·.1)).Nodup) : k ∉ before.map (·.1) := by
  rw [List.map_append, List.nodup_append] at h
  exact fun hmem => h.2.2 k hmem k (by simp) rfl

namespace Scan

/-! ## The first character -/

/-- The text of a value begins with an ASCII character that is neither blank nor closes an array. -/
def Starts (s : Str) : Prop := ∃ c t, s = c :: t ∧ isBlank c = false ∧ c ≠ 93 ∧ c < 128

theorem Starts.append {s : Str} (h : Starts s) (rest : Str) : Starts (s ++ rest) := by
  obtain ⟨c, t, rfl, hc⟩ := h
  exact ⟨c, t ++ rest, rfl, hc⟩

theorem Starts.skip {s : Str} (h : Starts s) : skip s = s := by
  obtain ⟨c, t, rfl, hc, -⟩ := h
  exact List.dropWhile_cons_of_neg (by simp [hc])

theorem Starts.length_pos {s : Str} (h : Starts s) : 0 < s.length := by
  obtain ⟨c, t, rfl, -⟩ := h
  exact Nat.succ_pos _

/-- A number begins with a digit, after a minus or without one. -/
theorem numeral_head {s digits tail rest : Str} (h : numeral s = some (digits, tail, rest)) :
    (∃ c t, s = c :: t ∧ isAsciiDigit c = true) ∨ ∃ c t, s = 45 :: c :: t ∧ isAsciiDigit c = true := by
  have hwhole : ∃ c t, (minus s).2 = c :: t ∧ isAsciiDigit c = true := by
    unfold numeral at h
    cases hs : (minus s).2 with
    | nil =>
      rw [hs] at h
      cases h
    | cons c t =>
      refine ⟨c, t, rfl, ?_⟩
      by_contra hdigit
      have hzero : c ≠ 48 := by
        rintro rfl
        exact hdigit rfl
      rw [hs, whole, if_neg hzero, if_neg hdigit] at h
      cases h
  obtain ⟨c, t, hs, hc⟩ := hwhole
  cases s with
  | nil => cases hs
  | cons d s =>
    rw [minus] at hs
    split_ifs at hs with hd
    · exact .inr ⟨c, t, congrArg₂ List.cons hd hs, hc⟩
    · exact .inl ⟨c, t, hs, hc⟩

section

variable [Tables]

theorem number_head {s rest : Str} {x : Json} (h : number s = some (x, rest)) :
    (∃ c t, s = c :: t ∧ isAsciiDigit c = true) ∨ ∃ c t, s = 45 :: c :: t ∧ isAsciiDigit c = true := by
  unfold number at h
  cases hnumeral : numeral s with
  | none =>
    rw [hnumeral] at h
    cases h
  | some d => exact numeral_head hnumeral

theorem starts_number {s rest : Str} {x : Json} (h : number s = some (x, rest)) : Starts s := by
  rcases number_head h with ⟨c, t, rfl, hc⟩ | ⟨c, t, rfl, -⟩
  · refine ⟨c, t, rfl, ?_⟩
    simp [isAsciiDigit] at hc
    simp [isBlank]
    omega
  · exact ⟨45, c :: t, rfl, rfl, by decide⟩

/-- A text that is a number is scanned as one. -/
theorem value_number {s rest : Str} {x : Json} (h : number s = some (x, rest)) (fuel : Nat) :
    value (fuel + 1) s = some (x, rest) := by
  rw [value.eq_def]
  dsimp only
  rcases number_head h with ⟨c, t, rfl, hc⟩ | ⟨c, t, rfl, hc⟩ <;>
    split <;>
    first
    | exact h
    | (rename_i heq; cases heq; cases hc)
    | (rename_i heq; cases heq)

end

/-! ## Separators -/

/-- What the text of a value has to be followed by: only a number could go on. -/
def Ends : Json → Str → Prop
  | .int _, rest => Follow rest
  | .float _, rest => Follow rest
  | _, _ => True

section

variable {style : Style} {depth : Nat}

theorem Follow.ends {rest : Str} (h : Follow rest) (x : Json) : Ends x rest := by
  cases x <;> first | exact h | trivial

theorem follow_cons {c : Nat} {rest : Str} (h : isAsciiDigit c = false ∧ c ≠ 46 ∧ c ≠ 101 ∧ c ≠ 69) :
    Follow (c :: rest) := fun _ hd => Option.some.inj hd ▸ h

theorem follow_nil : Follow [] := by
  intro c hc
  cases hc

theorem skip_append {blanks : Str} (h : ∀ c ∈ blanks, isBlank c = true) (s : Str) :
    skip (blanks ++ s) = skip s :=
  List.dropWhile_append_of_pos h

theorem skip_cons {c : Nat} (h : isBlank c = false) (s : Str) : skip (c :: s) = c :: s :=
  List.dropWhile_cons_of_neg (by simp [h])

theorem isBlank_newline : ∀ c ∈ style.newline depth, isBlank c = true := by
  unfold Style.newline
  cases style.indent with
  | none => exact List.forall_mem_nil _
  | some n =>
    rw [List.forall_mem_cons]
    refine ⟨rfl, fun c hc => ?_⟩
    rw [List.eq_of_mem_replicate hc]
    rfl

theorem trail_false : style.trail false depth = style.newline depth := rfl

/-- What begins a line or closes it does not go on with a number. -/
theorem follow_newline {c : Nat} {rest : Str}
    (h : isAsciiDigit c = false ∧ c ≠ 46 ∧ c ≠ 101 ∧ c ≠ 69) :
    Follow (style.newline depth ++ c :: rest) := by
  unfold Style.newline
  cases style.indent with
  | none => exact follow_cons h
  | some n => exact follow_cons (by decide)

/-- A comma, and blanks. -/
theorem comma_eq (style : Style) (depth : Nat) :
    ∃ blanks, style.comma depth = 44 :: blanks ∧ ∀ c ∈ blanks, isBlank c = true := by
  unfold Style.comma
  cases hindent : style.indent with
  | none => exact ⟨[32], rfl, by decide⟩
  | some n => exact ⟨style.newline depth, rfl, isBlank_newline⟩

theorem starts_string (s : Str) : Starts (style.string s) := ⟨34, _, rfl, rfl, by decide⟩

theorem lit_colon : lit ": " = [58, 32] := rfl

theorem string_append (s rest : Str) :
    style.string s ++ rest = 34 :: (s.flatMap style.escape ++ 34 :: rest) := by
  rw [Style.string, List.cons_append, List.cons_append, List.append_assoc]
  rfl

end

/-! ## Values -/

section

variable [Tables] {style : Style} {depth : Nat}

/-- The three texts that a float has in JSON besides numbers. -/
theorem value_float {x : Flt} (h : FloatKept x) {rest : Str} (hrest : Follow rest) (fuel : Nat) :
    value (fuel + 1) (Style.float x ++ rest) = some (.float x, rest) := by
  cases x with
  | nan => rfl
  | inf neg => cases neg <;> rfl
  | fin q => exact value_number (number_append hrest h) fuel
  | negZero => exact value_number (number_append hrest h) fuel

theorem starts_float {x : Flt} (h : FloatKept x) : Starts (Style.float x) := by
  cases x with
  | nan => exact ⟨78, _, rfl, rfl, by decide⟩
  | inf neg => cases neg <;> exact ⟨_, _, rfl, rfl, by decide⟩
  | fin q => exact starts_number h
  | negZero => exact starts_number h

theorem starts_value [LawfulTables] (depth : Nat) {x : Json} (h : style.Keeps x) :
    Starts (style.value depth x) := by
  cases x with
  | null => exact ⟨110, _, rfl, rfl, by decide⟩
  | bool b => cases b <;> exact ⟨_, _, rfl, rfl, by decide⟩
  | int i =>
    rw [Style.Keeps] at h
    rw [Style.value]
    exact starts_number (number_intStr h)
  | float x =>
    rw [Style.Keeps] at h
    rw [Style.value]
    exact starts_float h
  | str s =>
    rw [Style.value]
    exact starts_string s
  | arr xs =>
    rw [Style.value]
    exact ⟨91, _, rfl, rfl, by decide⟩
  | obj ms =>
    rw [Style.value]
    exact ⟨123, _, rfl, rfl, by decide⟩

/-! ## One call of the scanner -/

section

variable {fuel : Nat} {s t u rest : Str} {x : Json} {xs : List Json} {key : Str} {before ms : Dict}

theorem items_last (h : value fuel s = some (x, t)) (ht : skip t = 93 :: rest) :
    items (fuel + 1) s = some ([x], rest) := by
  simp [items, h, ht]

theorem items_more (h : value fuel s = some (x, t)) (ht : skip t = 44 :: u)
    (hu : items fuel (skip u) = some (xs, rest)) : items (fuel + 1) s = some (x :: xs, rest) := by
  simp [items, h, ht, hu]

theorem value_arr {c : Nat} (hskip : skip t = c :: s) (hc : c ≠ 93)
    (h : items fuel (c :: s) = some (xs, rest)) : value (fuel + 1) (91 :: t) = some (.arr xs, rest) := by
  simp [value, hskip, hc, h]

theorem members_last {v : Str} (hkey : string none s = some (key, t)) (hcolon : skip t = 58 :: v)
    (h : value fuel (skip v) = some (x, u)) (hu : skip u = 125 :: rest) :
    members (fuel + 1) before (34 :: s) = some (before.set key x, rest) := by
  simp [members, hkey, hcolon, h, hu]

theorem members_more {v w : Str} (hkey : string none s = some (key, t)) (hcolon : skip t = 58 :: v)
    (h : value fuel (skip v) = some (x, u)) (hu : skip u = 44 :: w)
    (hrest : members fuel (before.set key x) (skip w) = some (ms, rest)) :
    members (fuel + 1) before (34 :: s) = some (ms, rest) := by
  simp [members, hkey, hcolon, h, hu, hrest]

theorem value_obj (hskip : skip t = 34 :: s) (h : members fuel [] (34 :: s) = some (ms, rest)) :
    value (fuel + 1) (123 :: t) = some (.obj ms, rest) := by
  simp [value, hskip, h]

end

/-! ## Values -/

mutual

/-- **The text of a value is scanned as the value.** -/
theorem value_value [LawfulTables] : (fuel : Nat) → ∀ {x : Json} (depth : Nat) (rest : Str),
    style.Keeps x → Ends x rest → (style.value depth x).length ≤ fuel →
    value fuel (style.value depth x ++ rest) = some (x, rest)
  | 0, x, depth, rest, hx, _, hfuel => by
    have hpos := (starts_value depth hx).length_pos
    omega
  | fuel + 1, x, depth, rest, hx, hrest, hfuel => by
    match x, hx with
    | .null, _ => rfl
    | .bool b, _ => cases b <;> rfl
    | .int i, hx => exact value_number (number_append hrest (number_intStr hx)) fuel
    | .float x, hx => exact value_float hx hrest fuel
    | .str s, hx =>
      have hstring : string none (s.flatMap style.escape ++ 34 :: rest) = some (s, rest) :=
        string_escape nofun hx
      rw [Style.value, string_append]
      show (string none _).map _ = _
      rw [hstring]
      rfl
    | .arr [], _ => rfl
    | .arr (y :: xs), hx =>
      obtain ⟨hy, hxs⟩ : style.Keeps y ∧ style.KeepsItems xs := hx
      rw [Style.value, Style.items, Style.lead, if_pos rfl] at hfuel ⊢
      simp only [List.length_append, List.length_cons] at hfuel
      have hitems := items_items fuel depth rest hy hxs (by omega)
      have hstarts := (starts_value (depth + 1) hy).append
        (style.items depth false xs ++ 93 :: rest)
      obtain ⟨c, t, hs, hblank, hc, -⟩ := hstarts
      rw [hs] at hitems
      simp only [List.append_assoc, List.cons_append, List.nil_append]
      rw [hs]
      exact value_arr (by rw [skip_append isBlank_newline, skip_cons hblank]) hc hitems
    | .obj [], _ => rfl
    | .obj ((k, y) :: ms), hx =>
      obtain ⟨hnodup, hk, hy, hms⟩ :
        _ ∧ style.KeepsText k ∧ style.Keeps y ∧ style.KeepsMembers ms := hx
      rw [Style.value, Style.members, Style.lead, if_pos rfl] at hfuel ⊢
      simp only [List.length_append, List.length_cons] at hfuel
      have hmembers : members fuel [] (style.string k ++ 58 :: 32 :: (style.value (depth + 1) y ++
          (style.members depth false ms ++ 125 :: rest))) = some ((k, y) :: ms, rest) :=
        members_members fuel depth rest hk hy hms hnodup (by omega)
      simp only [List.append_assoc, List.cons_append, List.nil_append, string_append, lit_colon]
        at hmembers ⊢
      exact value_obj (by rw [skip_append isBlank_newline, skip_cons rfl]) hmembers

/-- The items of an array from one of them on, to the bracket. -/
theorem items_items [LawfulTables] : (fuel : Nat) → ∀ {x : Json} {xs : List Json} (depth : Nat)
    (rest : Str), style.Keeps x → style.KeepsItems xs →
    (style.value (depth + 1) x).length + (style.items depth false xs).length < fuel →
    items fuel (style.value (depth + 1) x ++ (style.items depth false xs ++ 93 :: rest)) =
      some (x :: xs, rest)
  | 0, _, _, _, _, _, _, hfuel => absurd hfuel (Nat.not_lt_zero _)
  | fuel + 1, x, [], depth, rest, hx, _, hfuel => by
    have hend : Follow (style.newline depth ++ 93 :: rest) := follow_newline (by decide)
    rw [Style.items, trail_false] at hfuel ⊢
    exact items_last (value_value fuel _ _ hx (hend.ends x) (by omega))
      (by rw [skip_append isBlank_newline, skip_cons rfl])
  | fuel + 1, x, y :: xs, depth, rest, hx, hxs, hfuel => by
    obtain ⟨hy, hxs⟩ := hxs
    obtain ⟨blanks, hcomma, hblanks⟩ := comma_eq style (depth + 1)
    rw [Style.items, Style.lead, if_neg (by decide), hcomma] at hfuel ⊢
    simp only [List.length_append, List.length_cons] at hfuel
    simp only [List.append_assoc, List.cons_append]
    refine items_more (value_value fuel _ _ hx ((follow_cons (by decide)).ends x) (by omega))
      (skip_cons rfl _) ?_
    rw [skip_append hblanks, ((starts_value _ hy).append _).skip]
    exact items_items fuel _ _ hy hxs (by omega)

/-- The members of an object from one of them on, to the brace, after those that are read. -/
theorem members_members [LawfulTables] : (fuel : Nat) → ∀ {k : Str} {x : Json} {ms before : Dict}
    (depth : Nat) (rest : Str), style.KeepsText k → style.Keeps x → style.KeepsMembers ms →
    ((before ++ (k, x) :: ms).map (·.1)).Nodup →
    (style.value (depth + 1) x).length + (style.members depth false ms).length < fuel →
    members fuel before (style.string k ++ 58 :: 32 :: (style.value (depth + 1) x ++
      (style.members depth false ms ++ 125 :: rest))) =
      some (before ++ (k, x) :: ms, rest)
  | 0, _, _, _, _, _, _, _, _, _, _, hfuel => absurd hfuel (Nat.not_lt_zero _)
  | fuel + 1, k, x, [], before, depth, rest, hk, hx, _, hnodup, hfuel => by
    have hend : Follow (style.newline depth ++ 125 :: rest) := follow_newline (by decide)
    have hvalue := value_value fuel (depth + 1) _ hx (hend.ends x) (by omega)
    rw [← ((starts_value _ hx).append _).skip] at hvalue
    rw [Style.members, trail_false, string_append, ← Dict.set_new (Dict.not_mem_before hnodup)]
    exact members_last (string_escape nofun hk) (skip_cons rfl _) hvalue
      (by rw [skip_append isBlank_newline, skip_cons rfl])
  | fuel + 1, k, x, (j, y) :: ms, before, depth, rest, hk, hx, hms, hnodup, hfuel => by
    obtain ⟨hj, hy, hms⟩ := hms
    obtain ⟨blanks, hcomma, hblanks⟩ := comma_eq style (depth + 1)
    rw [Style.members, Style.lead, if_neg (by decide), hcomma, lit_colon] at hfuel ⊢
    simp only [List.length_append, List.length_cons] at hfuel
    have hset := Dict.set_new (Dict.not_mem_before hnodup) x
    have hkeys : ((before.set k x ++ (j, y) :: ms).map (·.1)).Nodup := by
      rw [hset, List.append_assoc]
      exact hnodup
    have hvalue := value_value fuel (depth + 1)
      (44 :: (blanks ++ (style.string j ++ 58 :: 32 :: (style.value (depth + 1) y ++
        (style.members depth false ms ++ 125 :: rest))))) hx ((follow_cons (by decide)).ends x)
      (by omega)
    have hrest := members_members fuel depth rest hj hy hms hkeys (by omega)
    rw [← ((starts_value _ hx).append _).skip] at hvalue
    rw [hset, List.append_assoc, ← hset] at hrest
    simp only [List.append_assoc, List.cons_append, List.nil_append, string_append] at hvalue hrest ⊢
    refine members_more (string_escape nofun hk) (skip_cons rfl _) hvalue (skip_cons rfl _) ?_
    rw [skip_append hblanks, skip_cons rfl]
    exact hrest

end

/-! ## Whole texts -/

/-- **A printed value is taken from the front of a text.** -/
theorem rawDecode_dumps [LawfulTables] {x : Json} (h : style.Keeps x) {rest : Str}
    (hrest : Ends x rest) :
    rawDecode (style.dumps x ++ rest) = some (x, rest) := by
  refine value_value _ 0 rest h hrest ?_
  rw [List.length_append, Style.dumps]
  omega

/-- **Reading what was printed.** -/
theorem loads_dumps [LawfulTables] {x : Json} (h : style.Keeps x) : loads (style.dumps x) = some x := by
  obtain ⟨c, t, hs, hblank, -, hlt⟩ := starts_value 0 h
  have hdecode := rawDecode_dumps h (follow_nil.ends x)
  rw [List.append_nil] at hdecode
  have hbom : (style.dumps x).head? ≠ some 65279 := by
    rw [Style.dumps, hs]
    rintro heq
    cases heq
    omega
  have hskip : skip (style.dumps x) = style.dumps x := by rw [Style.dumps, hs, skip_cons hblank]
  rw [loads, if_neg hbom, hskip, hdecode]
  rfl

end

end Scan

end WebZapret.Py
