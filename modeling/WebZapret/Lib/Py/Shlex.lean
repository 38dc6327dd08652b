import WebZapret.Lib.Py.Json

/-!
# `shlex.split`

The lexer of `shlex.shlex(s, posix=True)` with `whitespace_split` and without comments: quotes,
backslashes outside quotes and in double quotes, and words that quoting makes empty.
-/

namespace WebZapret.Py

namespace Shlex

/-- `self.state`; `escape` remembers the quote it goes back to, if any. -/
inductive State where
  | gap
  | word
  | quote (q : Nat)
  | escape (back : Option Nat)

/-- `self.whitespace` -/
def isGap (c : Nat) : Bool := c = 32 ∨ c = 9 ∨ c = 13 ∨ c = 10

/-- `self.quotes` -/
def isQuote (c : Nat) : Bool := c = 39 ∨ c = 34

/-- The state that `escape` goes back to. -/
def State.after : Option Nat → State
  | none => .word
  | some q => .quote q

/-- The words of the rest of the input; `token` and `quoted` are those of the current word. -/
def lex (state : State) (token : Str) (quoted : Bool) : Str → Result (List Str)
  | [] =>
    match state with
    | .gap => .ok []
    | .word => .ok (if token ≠ [] ∨ quoted then [token] else [])
    | .quote _ => .error (.valueError (lit "No closing quotation"))
    | .escape _ => .error (.valueError (lit "No escaped character"))
  | c :: s =>
    match state with
    | .gap =>
      if isGap c then lex .gap [] false s
      else if c = 92 then lex (.escape none) [] false s
      else if isQuote c then lex (.quote c) [] false s
      else lex .word [c] false s
    | .word =>
      if isGap c then
        if token ≠ [] ∨ quoted then return token :: (← lex .gap [] false s)
        else lex .gap [] false s
      else if isQuote c then lex (.quote c) token quoted s
      else if c = 92 then lex (.escape none) token quoted s
      else lex .word (token ++ [c]) quoted s
    | .quote q =>
      if c = q then lex .word token true s
      else if c = 92 ∧ q = 34 then lex (.escape (some q)) token true s
      else lex (.quote q) (token ++ [c]) true s
    | .escape back =>
      -- in double quotes a backslash before another character stays
      let kept := if back.any (· ≠ c) ∧ c ≠ 92 then [92, c] else [c]
      lex (State.after back) (token ++ kept) quoted s

/-- `shlex.split(s)` -/
def split (s : Str) : Result (List Str) := lex .gap [] false s

theorem lex_error {s : Str} {state : State} {token : Str} {quoted : Bool} {e : Exc}
    (h : lex state token quoted s = .error e) : ∃ text : String, e = .valueError (lit text) := by
  induction s generalizing state token quoted with
  | nil =>
    cases state with
    | gap => cases h
    | word => cases h
    | quote q =>
      cases h
      exact ⟨_, rfl⟩
    | escape back =>
      cases h
      exact ⟨_, rfl⟩
  | cons c s ih =>
    cases state with
    | gap =>
      simp only [lex] at h
      split_ifs at h <;> exact ih h
    | word =>
      simp only [lex] at h
      split_ifs at h with hgap htoken
      · cases hrest : lex .gap [] false s with
        | error e' =>
          rw [hrest] at h
          cases h
          exact ih hrest
        | ok ts =>
          rw [hrest] at h
          cases h
      all_goals exact ih h
    | quote q =>
      simp only [lex] at h
      split_ifs at h <;> exact ih h
    | escape back => exact ih h

/-- `shlex.split` raises nothing but `ValueError`. -/
theorem split_error {s : Str} {e : Exc} (h : split s = .error e) :
    ∃ text : String, e = .valueError (lit text) :=
  lex_error h

example : split (lit "--a=1 '--b=\"2'  --c=\"\\x\\\"\" ''") =
    .ok [lit "--a=1", lit "--b=\"2", lit "--c=\\x\"", []] := by decide

end Shlex

end WebZapret.Py
