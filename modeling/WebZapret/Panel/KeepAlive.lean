import WebZapret.Lib.Framing
import WebZapret.Panel.Requests

/-!
# One connection, many requests

The panel speaks HTTP/1.1 and keeps its connections. A route takes the body of its request from the
connection, or leaves it there: those of `/api/bcw/reset` and `/api/bcw/cancel` do, and so does every
request that is refused before its route, or whose body is too long. What is left is read as the next
request line. Where the bodies are JSON objects, the requests that are handled are those that were sent,
up to the first one whose body is not read or after which the connection ends (`connection_in_step`).
-/

namespace WebZapret.Panel.Http

open Py Failing

/-! ## The head of a request -/

/-- The methods that `Handler` has. -/
inductive Verb
  | get | post | options
  deriving DecidableEq

structure Head where
  verb : Verb
  target : Str
  /-- the lines of the headers -/
  block : List Nat
  /-- whether `close_connection` is false once the head is read -/
  keep : Bool

/-- What `self.headers.get` finds of the names that are read. -/
structure Fields where
  authorization : Option Str
  contentLength : Option Str
  connection : Option Str

/-- `readline()`, without the end of the line -/
def readLine : List Nat → Option (List Nat × List Nat)
  | [] => none
  | c :: s => if c = 10 then some ([], s) else (readLine s).map fun (line, rest) => (c :: line, rest)

/-- What follows an empty line, if the text begins with one. -/
def blankLine : List Nat → Option (List Nat)
  | [] => none
  | [c] => if c = 10 then some [] else none
  | c :: d :: s => if c = 10 then some (d :: s) else if c = 13 ∧ d = 10 then some s else none

/-- A request line and the lines of the headers have at most 65536 bytes, with their ends. -/
def LineFits (line : List Nat) : Prop := line.length < 65536

/-- There are at most 100 lines, the blank one included. -/
def BlockFits (block : List Nat) : Prop :=
  (block.splitOn 10).length ≤ 100 ∧ ∀ line ∈ block.splitOn 10, LineFits line

instance (line : List Nat) : Decidable (LineFits line) := inferInstanceAs (Decidable (_ < _))

instance (block : List Nat) : Decidable (BlockFits block) := inferInstanceAs (Decidable (_ ∧ _))

/-- The lines of the headers, up to a blank one. -/
def readBlock (lineStart : Bool) : List Nat → Option (List Nat × List Nat)
  | [] => none
  | c :: s =>
    match if lineStart then blankLine (c :: s) else none with
    | some rest => some ([], rest)
    | none => (readBlock (c = 10) s).map fun (block, rest) => (c :: block, rest)

def verbOf (command : Str) : Option Verb :=
  if command = lit "GET" then some .get
  else if command = lit "POST" then some .post
  else if command = lit "OPTIONS" then some .options
  else none

/-- `//` at the start of a path becomes `/`. -/
def squeezed (target : Str) : Str :=
  if lit "//" <+: target then 47 :: target.dropWhile (· = 47) else target

variable [Tables]

/-- The version of `HTTP/x.y` -/
def versionOf (word : Str) : Option (Int × Int) :=
  if lit "HTTP/" <+: word then
    match Str.split (word.drop 5) 46 with
    | [major, minor] => do return (← Json.parseInt major, ← Json.parseInt minor)
    | _ => none
  else none

/-- `parse_request` up to the headers: the command, the target, and whether the version keeps the
connection. -/
def requestLine : List Str → Option (Str × Str × Bool)
  | [command, target, version] => do
    let (major, minor) ← versionOf version
    if 2 ≤ major then none
    else some (command, target, decide (major = 1 ∧ 1 ≤ minor))
  | [command, target] => if command = lit "GET" then some (command, target, false) else none
  | _ => none

/-- The `Connection` header has the last word. -/
def keeps (version : Bool) (fields : Fields) : Bool :=
  let connection := Tables.lower (fields.connection.getD [])
  if connection = lit "close" then false
  else version || connection = lit "keep-alive"

variable (fields : List Nat → Fields)

/-- The next request that a method of `Handler` is called for. There is none while the head is not all
there, and none after a head that `http.server` answers with an error itself, which ends the
connection. -/
def nextRequest (s : List Nat) : Option (Head × List Nat) := do
  let (line, rest) ← (readLine s).filter fun r => LineFits r.1
  let (command, target, version) ← requestLine (Str.words line)
  let (block, rest) ← (readBlock true rest).filter fun r => BlockFits r.1
  let verb ← verbOf command
  return (⟨verb, squeezed target, block, keeps version (fields block)⟩, rest)

/-! ## The body -/

def Head.method (h : Head) : Method := if h.verb = .post then .post else .get

/-- What the methods of `Handler` see. -/
def Head.request (h : Head) (body : List Nat) : Request :=
  ⟨h.method, h.target, (fields h.block).authorization, (fields h.block).contentLength, body⟩

/-- `int(self.headers.get("Content-Length", 0))`, or 0 -/
def Head.length (h : Head) : Int :=
  match (fields h.block).contentLength with
  | none => 0
  | some text => (Json.parseInt text).getD 0

omit [Tables] in
/-- The routes of `do_POST` that read the body. -/
def readsBody (engine : Bool) (path : Str) : Bool :=
  decide (path ∈ [lit "/api/strategy", lit "/api/strategy/import", lit "/api/strategy/test",
    lit "/api/strategy/delete", lit "/api/bcw/run", lit "/api/bcw/import", lit "/api/exit"]) ||
  engine && decide (path ∈ [lit "/api/bcw/settings", lit "/api/bcw/schedule"])

/-- The request gets to a route that reads its body. -/
def Head.Reads (auth : Auth) (engine : Bool) (h : Head) : Prop :=
  h.verb = .post ∧ auth.authed (h.request fields []) = .ok true ∧
    readsBody engine (h.request fields []).path = true

/-- How many bytes of the body are read. -/
def Head.takes (auth : Auth) (engine : Bool) (h : Head) : Nat :=
  match h.verb, auth.authed (h.request fields []) with
  | .post, .ok true =>
    if readsBody engine (h.request fields []).path then
      if h.length fields ≤ 0 ∨ 1000000 < h.length fields then 0 else (h.length fields).toNat
    else 0
  | _, _ => 0

/-- The method is left with an exception, which ends the connection; `do_OPTIONS` never is. -/
def Head.ends (env : PostEnv) (h : Head) (body : List Nat) : Bool :=
  decide (h.verb ≠ .options) && (handle env (h.request fields body)).raised.isSome

/-- The requests of a connection; `env i` is what the panel finds when it handles the `i`-th one. -/
def connection (env : Nat → PostEnv) : Reader Head where
  next := nextRequest fields
  takes i h := h.takes fields (env i).auth (env i).selection.engine
  goesOn i h body := h.keep && !h.ends fields (env i) body

/-- A request that is sent: its head is whole, `Content-Length` is the length of its body, and a body is
the text of an object. -/
structure Sent (m : Message Head) : Prop where
  head : nextRequest fields m.bytes = some (m.head, [])
  length : m.head.length fields = m.body.length
  object : m.body = [] ∨ m.body.head? = some 123

variable {fields}

/-! ## A head is known by itself -/

omit [Tables] in
theorem readLine_append {s line rest : List Nat} (h : readLine s = some (line, rest))
    (later : List Nat) : readLine (s ++ later) = some (line, rest ++ later) := by
  induction s generalizing line with
  | nil => cases h
  | cons c s ih =>
    by_cases hc : c = 10
    · simp only [readLine, hc, if_true] at h
      cases h
      simp [readLine, hc]
    · simp only [readLine, hc, if_false] at h
      obtain ⟨⟨line', rest'⟩, hs, heq⟩ := Option.map_eq_some_iff.mp h
      cases heq
      simp [readLine, hc, ih hs]

omit [Tables] in
theorem blankLine_append {s rest : List Nat} (h : blankLine s = some rest) (later : List Nat) :
    blankLine (s ++ later) = some (rest ++ later) := by
  match s with
  | [] => cases h
  | [c] =>
    simp only [blankLine, Option.ite_none_right_eq_some, Option.some.injEq] at h
    obtain ⟨rfl, rfl⟩ := h
    cases later <;> rfl
  | c :: d :: s =>
    simp only [List.cons_append, blankLine] at h ⊢
    split at h
    · rename_i hc
      cases h
      rw [if_pos hc]
      rfl
    · rename_i hc
      rw [if_neg hc]
      split at h
      · rename_i hd
        cases h
        rw [if_pos hd]
      · cases h

omit [Tables] in
theorem blankLine_append_none {c d : Nat} {s : List Nat} (h : blankLine (c :: d :: s) = none)
    (later : List Nat) : blankLine (c :: (d :: s ++ later)) = none := by
  simp only [List.cons_append, blankLine] at h ⊢
  split at h
  · cases h
  · rename_i hc
    rw [if_neg hc]
    split at h
    · cases h
    · rename_i hd
      rw [if_neg hd]

omit [Tables] in
theorem readBlock_append {lineStart : Bool} {s block rest : List Nat}
    (h : readBlock lineStart s = some (block, rest)) (later : List Nat) :
    readBlock lineStart (s ++ later) = some (block, rest ++ later) := by
  induction s generalizing lineStart block with
  | nil => cases h
  | cons c s ih =>
    simp only [readBlock] at h
    cases hblank : (if lineStart then blankLine (c :: s) else none) with
    | some rest' =>
      rw [hblank] at h
      cases h
      cases lineStart with
      | false => cases hblank
      | true =>
        have happend := blankLine_append hblank later
        simp only [List.cons_append] at happend
        simp [readBlock, happend]
    | none =>
      rw [hblank] at h
      obtain ⟨⟨block', rest'⟩, hs, heq⟩ := Option.map_eq_some_iff.mp h
      cases heq
      -- there is a character after this one, so that a blank line would have been seen
      cases s with
      | nil => cases hs
      | cons d s =>
        have hnone : (if lineStart then blankLine (c :: (d :: s ++ later)) else none) = none := by
          cases lineStart with
          | false => rfl
          | true => exact blankLine_append_none hblank later
        rw [List.cons_append, readBlock, hnone, ih hs]
        rfl

theorem nextRequest_append {s rest : List Nat} {h : Head}
    (hs : nextRequest fields s = some (h, rest)) (later : List Nat) :
    nextRequest fields (s ++ later) = some (h, rest ++ later) := by
  unfold nextRequest at hs ⊢
  obtain ⟨⟨line, rest₁⟩, hline, hs⟩ := Option.bind_eq_some_iff.mp hs
  obtain ⟨⟨command, target, version⟩, hrequest, hs⟩ := Option.bind_eq_some_iff.mp hs
  obtain ⟨⟨block, rest₂⟩, hblock, hs⟩ := Option.bind_eq_some_iff.mp hs
  obtain ⟨verb, hverb, hs⟩ := Option.bind_eq_some_iff.mp hs
  cases hs
  obtain ⟨hline, hfits⟩ := Option.filter_eq_some_iff.mp hline
  obtain ⟨hblock, hblockFits⟩ := Option.filter_eq_some_iff.mp hblock
  have hline : (readLine (s ++ later)).filter (fun r => LineFits r.1) =
      some (line, rest₁ ++ later) := by
    rw [readLine_append hline later]
    exact Option.filter_some_pos hfits
  have hblock : (readBlock true (rest₁ ++ later)).filter (fun r => BlockFits r.1) =
      some (block, rest ++ later) := by
    rw [readBlock_append hblock later]
    exact Option.filter_some_pos hblockFits
  simp only [hline, hrequest, hblock, hverb, Option.bind_eq_bind, Option.bind_some]
  rfl

/-! ## An object is no head -/

omit [Tables] in
theorem wordsFrom_prefix (cur : Str) (hcur : cur ≠ []) (s : Str) :
    ∃ w ws, Str.wordsFrom cur s = w :: ws ∧ cur <+: w := by
  induction s generalizing cur with
  | nil => exact ⟨cur, [], by simp [Str.wordsFrom, hcur], List.prefix_refl cur⟩
  | cons c s ih =>
    by_cases hc : isSpace c = true
    · exact ⟨cur, Str.wordsFrom [] s, by simp [Str.wordsFrom, hc, hcur], List.prefix_refl cur⟩
    · obtain ⟨w, ws, hws, hpre⟩ := ih (cur ++ [c]) (by simp)
      exact ⟨w, ws, by simpa [Str.wordsFrom, hc] using hws, (List.prefix_append cur [c]).trans hpre⟩

omit [Tables] in
theorem verbOf_object {w : Str} (hw : [123] <+: w) : verbOf w = none := by
  obtain ⟨t, rfl⟩ := hw
  have hne (s : Str) (hs : s.head? ≠ some 123) : [123] ++ t ≠ s := by
    rintro rfl
    exact hs rfl
  rw [verbOf, if_neg (hne _ (by decide)), if_neg (hne _ (by decide)), if_neg (hne _ (by decide))]

theorem requestLine_command {w command target : Str} {ws : List Str} {version : Bool}
    (h : requestLine (w :: ws) = some (command, target, version)) : command = w := by
  unfold requestLine at h
  split at h
  · rename_i heq
    cases heq
    obtain ⟨⟨major, minor⟩, -, h⟩ := Option.bind_eq_some_iff.mp h
    by_cases hmajor : 2 ≤ major
    · simp [hmajor] at h
    · simp only [hmajor, if_false, Option.some.injEq, Prod.mk.injEq] at h
      exact h.1.symm
  · rename_i heq
    cases heq
    split at h
    · cases h
      rfl
    · cases h
  · cases h

theorem nextRequest_object (s : List Nat) : nextRequest fields (123 :: s) = none := by
  unfold nextRequest
  cases hline : (readLine (123 :: s)).filter fun r => LineFits r.1 with
  | none => rfl
  | some r =>
    obtain ⟨line, rest⟩ := r
    have hline : readLine (123 :: s) = some (line, rest) := (Option.filter_eq_some_iff.mp hline).1
    have hobject : ∃ line', line = 123 :: line' := by
      simp only [readLine] at hline
      obtain ⟨⟨line', rest'⟩, -, heq⟩ := Option.map_eq_some_iff.mp hline
      cases heq
      exact ⟨line', rfl⟩
    obtain ⟨line', rfl⟩ := hobject
    obtain ⟨w, ws, hwords, hpre⟩ := wordsFrom_prefix [123] (by simp) line'
    have hwords : Str.words (123 :: line') = w :: ws := hwords
    simp only [Option.bind_eq_bind, Option.bind_some, hwords]
    cases hrequest : requestLine (w :: ws) with
    | none => rfl
    | some q =>
      obtain ⟨command, target, version⟩ := q
      obtain rfl := requestLine_command hrequest
      simp only [Option.bind_some, verbOf_object hpre]
      cases (readBlock true rest).filter fun r => BlockFits r.1 <;> rfl

/-! ## The connection -/

variable {env : Nat → PostEnv}

theorem takes_eq (fields : List Nat → Fields) (auth : Auth) (engine : Bool) (h : Head) :
    h.takes fields auth engine = 0 ∨
      h.takes fields auth engine = (h.length fields).toNat := by
  unfold Head.takes
  split
  · split
    · split
      · exact .inl rfl
      · exact .inr rfl
    · exact .inl rfl
  · exact .inl rfl

/-- A body is read whole, or not at all. -/
theorem takes_iff (auth : Auth) (engine : Bool) {m : Message Head} (hm : Sent fields m) :
    m.head.takes fields auth engine = m.body.length ↔
      m.body = [] ∨ m.head.Reads fields auth engine ∧ m.body.length ≤ 1000000 := by
  by_cases hbody : m.body = []
  · have htakes := takes_eq fields auth engine m.head
    rw [hm.length, hbody] at htakes
    simpa [hbody] using htakes
  · have hpos : 0 < m.body.length := List.length_pos_iff.mpr hbody
    rw [or_iff_right hbody]
    unfold Head.takes Head.Reads
    rw [hm.length]
    cases hverb : m.head.verb with
    | get => simp [hpos.ne]
    | options => simp [hpos.ne]
    | post =>
      cases hauth : auth.authed (m.head.request fields []) with
      | error e => simp [hpos.ne]
      | ok ok =>
        cases ok with
        | false => simp [hpos.ne]
        | true =>
          by_cases hreads : readsBody engine (m.head.request fields []).path = true
          · by_cases hlength : m.body.length ≤ 1000000
            · have hnot : ¬((m.body.length : Int) ≤ 0 ∨ 1000000 < (m.body.length : Int)) := by omega
              simp only [hreads, if_true, hnot, if_false, Int.toNat_natCast, hlength, and_true]
            · have hlong : (m.body.length : Int) ≤ 0 ∨ 1000000 < (m.body.length : Int) := by omega
              simp only [hreads, if_true, hlong, hlength, and_false, iff_false]
              exact hpos.ne
          · simp [hreads, hpos.ne]

theorem frames_of_sent {m : Message Head} (hm : Sent fields m) :
    (connection fields env).Frames m where
  next rest := nextRequest_append hm.head rest
  unread i htakes := by
    have htakes : m.head.takes fields (env i).auth (env i).selection.engine ≠ m.body.length := htakes
    have hzero : m.head.takes fields (env i).auth (env i).selection.engine = 0 := by
      rcases takes_eq fields (env i).auth (env i).selection.engine m.head with h | h
      · exact h
      · rw [hm.length] at h
        exact absurd h htakes
    refine ⟨hzero, fun rest => ?_⟩
    rcases hm.object with hbody | hbody
    · rw [hzero, hbody] at htakes
      exact absurd rfl htakes
    · obtain ⟨t, ht⟩ : ∃ t, m.body = 123 :: t := by
        cases h : m.body with
        | nil => simp [h] at hbody
        | cons c t =>
          rw [h] at hbody
          cases hbody
          exact ⟨t, rfl⟩
      rw [ht]
      exact nextRequest_object (t ++ rest)

/-- **When a connection stays in step.** The requests that are handled are those that were sent, up to
the first one that does not pass. They are all exactly if, for each but the last one, the connection is
kept, the method is not left with an exception, and the body is read. -/
theorem connection_in_step {ms : List (Message Head)} (hms : ∀ m ∈ ms, Sent fields m) {n : Nat}
    (hn : ms.length ≤ n) :
    (connection fields env).serve n 0 (Reader.stream ms) =
        ((connection fields env).taken 0 ms).map Message.head ∧
      ((connection fields env).serve n 0 (Reader.stream ms) = ms.map Message.head ↔
        ∀ (i : Nat) (m : Message Head), ms.dropLast[i]? = some m → m.head.keep = true ∧
          m.head.ends fields (env i) m.body = false ∧
          (m.body = [] ∨ m.head.Reads fields (env i).auth (env i).selection.engine ∧
            m.body.length ≤ 1000000)) := by
  have hframes : ∀ m ∈ ms, (connection fields env).Frames m := fun m hm => frames_of_sent (hms m hm)
  refine ⟨Reader.serve_stream rfl hframes hn 0, ?_⟩
  rw [Reader.serve_eq_iff rfl hframes hn]
  refine forall₂_congr fun i m => imp_congr_right fun hget => ?_
  have hm : m ∈ ms := List.dropLast_subset ms (List.mem_of_getElem? hget)
  have htakes := takes_iff (env i).auth (env i).selection.engine (hms m hm)
  show m.head.takes fields (env i).auth (env i).selection.engine = m.body.length ∧
    (m.head.keep && !m.head.ends fields (env i) m.body) = true ↔ _
  rw [htakes, Bool.and_eq_true, Bool.not_eq_true']
  tauto

/-- `POST` with the body `{}`, and then `GET`; the end of a line is 10. -/
def postThenGet (path : String) : List (Message Head) :=
  [⟨⟨.post, lit path, lit "Content-Length: 2\n", true⟩,
      lit "POST " ++ lit path ++ lit " HTTP/1.1\nContent-Length: 2\n\n", lit "\x7b\x7d"⟩,
    ⟨⟨.get, lit "/api/bcw", [], true⟩, lit "GET /api/bcw HTTP/1.1\n\n", []⟩]

/-- The headers of these two. -/
def exampleFields (block : List Nat) : Fields :=
  ⟨none, if block = [] then none else some (lit "2"), none⟩

omit [Tables] in
/-- The page cancels a run, and its next request on the connection is lost; it does not have to be after
a request whose body is read. -/
theorem connection_in_step_example : letI := Tables.ascii
    let panel := connection exampleFields fun _ => freshPanel (.obj [])
    panel.serve 2 0 (Reader.stream (postThenGet "/api/bcw/cancel")) =
        ((postThenGet "/api/bcw/cancel").take 1).map Message.head ∧
    panel.serve 2 0 (Reader.stream (postThenGet "/api/exit")) =
        (postThenGet "/api/exit").map Message.head := by
  let _ := Tables.ascii
  have hsent (path : String) (hpath : path = "/api/bcw/cancel" ∨ path = "/api/exit") :
      ∀ m ∈ postThenGet path, Sent exampleFields m := by
    intro m hm
    simp only [postThenGet, List.mem_cons, List.not_mem_nil, or_false] at hm
    rcases hm with rfl | rfl
    · rcases hpath with rfl | rfl
      · exact ⟨rfl, rfl, .inr rfl⟩
      · exact ⟨rfl, rfl, .inr rfl⟩
    · exact ⟨rfl, rfl, .inl rfl⟩
  constructor
  · exact (connection_in_step (hsent _ (.inl rfl)) (Nat.le_refl 2)).1
  · rw [(connection_in_step (hsent _ (.inr rfl)) (Nat.le_refl 2)).2]
    intro i m hget
    obtain rfl : i = 0 := by
      by_contra hne
      rw [List.getElem?_eq_none (by simp [postThenGet]; omega)] at hget
      cases hget
    cases hget
    exact ⟨rfl, rfl, .inr ⟨⟨rfl, rfl, rfl⟩, by decide⟩⟩

end WebZapret.Panel.Http
