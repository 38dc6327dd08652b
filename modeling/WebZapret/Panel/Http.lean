import WebZapret.Selection.Harness
import WebZapret.Lib.Py.Printing

/-!
# Requests and responses

`Handler` of `panel.py`: the credentials, the body of a request, and the sending of a response. A
response is encoded before anything is sent, so a request whose answer cannot be encoded gets none.

`http.server` sends nothing of its own once a method has been called: an exception that leaves
`do_GET` or `do_POST` ends the connection.
-/

namespace WebZapret.Panel.Http

open Py Failing Selection

inductive Method where
  | get
  | post
  deriving DecidableEq

/-- A request: what `self.path` is, the two headers that are read, and the body as it comes. -/
structure Request where
  method : Method
  target : Str
  authorization : Option Str
  contentLength : Option Str
  body : List Nat

/-- `self.path.split("?", 1)[0]` -/
def Request.path (r : Request) : Str := r.target.takeWhile (· ≠ 63)

/-- `self.path.split("?", 1)[1]` -/
def Request.query (r : Request) : Result Str :=
  if 63 ∈ r.target then .ok ((r.target.dropWhile (· ≠ 63)).drop 1) else .error .indexError

/-! ## Credentials -/

/-- `AUTH_USER`, `AUTH_PASS`, and `base64.b64decode(text).decode("utf-8")` where it does not raise. -/
structure Auth where
  user : Str
  password : Str
  decode : Str → Option Str

/-- `hmac.compare_digest` of two strings -/
def compareDigest (a b : Str) : Result Bool :=
  if ∀ c ∈ a ++ b, c < 128 then .ok (a = b) else .error .typeError

/-- `authed` -/
def Auth.authed (auth : Auth) (r : Request) : Result Bool :=
  if auth.user = [] then .ok true
  else
    let header := r.authorization.getD []
    if ¬header.StartsWith (lit "Basic ") then .ok false
    else
      match auth.decode (header.drop 6) with
      | none => .ok false
      | some text => do
        let user := text.takeWhile (· ≠ 58)
        let pw := (text.dropWhile (· ≠ 58)).drop 1
        if ← compareDigest user auth.user then compareDigest pw auth.password else return false

/-! ## Bodies -/

/-- `_read_body`; `loads` is `json.loads(bytes.decode("utf-8"))` where it does not raise. -/
def readBody [Tables] (loads : List Nat → Option Json) (r : Request) : Json :=
  let length := match r.contentLength with
    | none => 0
    | some text => (Json.parseInt text).getD 0
  if length ≤ 0 ∨ 1000000 < length then .obj []
  else (loads (r.body.take length.toNat)).getD (.obj [])

/-! ## Responses -/

inductive Content where
  | empty
  | json (value : Json)
  | text (s : Str)
  | file (bytes : List Nat)

structure Response where
  code : Nat
  content : Content

/-- What a method has sent when it is left, and the exception with which it is left. -/
structure Outcome where
  sent : List Response
  raised : Option Exc

/-- Exactly one response, and no exception. -/
def Outcome.Answered (o : Outcome) : Prop := o.raised = none ∧ ∃ response, o.sent = [response]

def Outcome.one (code : Nat) (content : Content) : Outcome := ⟨[⟨code, content⟩], none⟩

/-- `_auth_required` -/
def authRequired : Outcome := .one 401 .empty

/-- `_send` of a dict -/
def send (code : Nat) (value : Json) : Outcome :=
  if value.encodable then .one code (.json value) else ⟨[], some Utf8.encodeError⟩

/-- `self._send(code, value)` of what a route computes, unless that raises. -/
def reply : Result (Nat × Json) → Outcome
  | .ok (code, value) => send code value
  | .error e => ⟨[], some e⟩

/-- The body of a text file is encoded before the headers are sent. -/
def sendText (code : Nat) (s : Str) : Outcome :=
  match Utf8.encode s with
  | .ok _ => .one code (.text s)
  | .error e => ⟨[], some e⟩

@[simp] theorem answered_one (code : Nat) (content : Content) :
    (Outcome.one code content).Answered := ⟨rfl, _, rfl⟩

@[simp] theorem not_answered_raised (sent : List Response) (e : Exc) :
    ¬Outcome.Answered ⟨sent, some e⟩ := fun h => nomatch h.1

theorem answered_cases {c q : Prop} [Decidable c] {o o' : Outcome} (h : c → (o.Answered ↔ q))
    (h' : ¬c → (o'.Answered ↔ q)) : (if c then o else o').Answered ↔ q := by
  split
  · exact h ‹c›
  · exact h' ‹¬c›

theorem answered_ite {c p p' : Prop} [Decidable c] {o o' : Outcome} (h : o.Answered ↔ p)
    (h' : o'.Answered ↔ p') : (if c then o else o').Answered ↔ if c then p else p' := by
  split
  · exact h
  · exact h'

theorem answered_send {code : Nat} {value : Json} :
    (send code value).Answered ↔ value.encodable = true := by
  unfold send
  split
  · rename_i h
    exact iff_of_true (answered_one _ _) h
  · rename_i h
    exact iff_of_false (not_answered_raised _ _) h

/-- A route answers when it computes a value that can be encoded. -/
theorem answered_reply {page : Result (Nat × Json)} :
    (reply page).Answered ↔ Succeeds page fun p => p.2.encodable = true := by
  cases page with
  | ok p =>
    rw [succeeds_ok]
    exact answered_send
  | error e => exact iff_of_false (not_answered_raised _ _) not_succeeds_error

theorem answered_sendText {code : Nat} {s : Str} :
    (sendText code s).Answered ↔ EncodableText s := by
  unfold sendText Utf8.encode
  by_cases h : EncodableText s
  · rw [if_pos h]
    exact iff_of_true (answered_one _ _) h
  · rw [if_neg h]
    exact iff_of_false (not_answered_raised _ _) h

end WebZapret.Panel.Http
