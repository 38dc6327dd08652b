import WebZapret.Panel.Get

/-!
# The credentials of a request

`authed` decides who is answered, before anything else is read of a request. Decoding the header is
guarded against every exception; comparing what it says with the configured credentials is not, and
`hmac.compare_digest` takes ASCII strings alone. `partition` does not say whether there was a colon.

The main result is `authed_decides_iff`, about every header and all credentials.
-/

namespace WebZapret.Panel.Http

open Py Failing Selection

/-- `base64.b64decode(payload).decode("utf-8")`, or none where it raises -/
def decodePayload (payload : Str) : Option Str := (b64decode payload).bind Utf8.decodeStrict

/-- The handler with `PANEL_USER` and `PANEL_PASSWORD`. -/
def credentials (user password : Str) : Auth := ⟨user, password, decodePayload⟩

/-- The header is Basic, and its payload is the text of the credentials. -/
def Presents (user password : Str) (r : Request) : Prop :=
  ∃ payload, r.authorization = some (lit "Basic " ++ payload) ∧
    decodePayload payload = some (user ++ 58 :: password)

/-- The request is let in if it presents the credentials, and gets a 401 if it does not. -/
structure Decides (user password : Str) (r : Request) : Prop where
  authed : ∃ b, (credentials user password).authed r = .ok b ∧
    (b = true ↔ Presents user password r)
  refused : ¬Presents user password r →
    ∀ route, withAuth (credentials user password) r route = authRequired

variable {user password payload text : Str} {r : Request}

/-- The answer is that of `authed`. -/
theorem decides_iff {x : Result Bool} (h : (credentials user password).authed r = x) :
    Decides user password r ↔ ∃ b, x = .ok b ∧ (b = true ↔ Presents user password r) := by
  rw [← h]
  refine ⟨Decides.authed, fun hauthed => ⟨hauthed, fun hnot route => ?_⟩⟩
  obtain ⟨b, hb, hpresents⟩ := hauthed
  cases b with
  | true => exact absurd (hpresents.mp rfl) hnot
  | false => rw [withAuth, hb]

/-! ## The two parts of a text -/

/-- `text.partition(":")[0]` -/
def userPart (text : Str) : Str := text.takeWhile (· ≠ 58)

/-- `text.partition(":")[2]` -/
def passwordPart (text : Str) : Str := (text.dropWhile (· ≠ 58)).drop 1

/-- `partition` takes every character of a text without a colon. -/
theorem all_ne_colon (h : 58 ∉ text) : ∀ c ∈ text, decide (c ≠ 58) = true := fun _ hc =>
  decide_eq_true fun heq => h (heq ▸ hc)

theorem userPart_append (h : 58 ∉ user) : userPart (user ++ 58 :: password) = user := by
  rw [userPart, List.takeWhile_append_of_pos (all_ne_colon h), List.takeWhile_cons_of_neg (by decide),
    List.append_nil]

theorem passwordPart_append (h : 58 ∉ user) : passwordPart (user ++ 58 :: password) = password := by
  rw [passwordPart, List.dropWhile_append_of_pos (all_ne_colon h),
    List.dropWhile_cons_of_neg (by decide)]
  rfl

/-- A text has a colon, or it is all the user's. -/
theorem text_eq (text : Str) :
    text = userPart text ++ 58 :: passwordPart text ∨
      58 ∉ text ∧ userPart text = text ∧ passwordPart text = [] := by
  by_cases hcolon : 58 ∈ text
  · obtain ⟨user, password, rfl, hnot⟩ := List.eq_append_cons_of_mem hcolon
    rw [userPart_append hnot, passwordPart_append hnot]
    exact .inl rfl
  · have hall := all_ne_colon hcolon
    refine .inr ⟨hcolon, List.takeWhile_eq_self_iff.mpr hall, ?_⟩
    rw [passwordPart, List.dropWhile_eq_nil_iff.mpr hall, List.drop_nil]

/-- The text is that of the credentials when its parts are, unless the colon is missing. -/
theorem text_eq_iff (h : 58 ∉ user) :
    text = user ++ 58 :: password ↔
      userPart text = user ∧ passwordPart text = password ∧ ¬(text = user ∧ password = []) := by
  constructor
  · rintro rfl
    refine ⟨userPart_append h, passwordPart_append h, fun hnone => h ?_⟩
    rw [← hnone.1]
    exact List.mem_append_right user List.mem_cons_self
  · rintro ⟨huser, hpassword, hnone⟩
    obtain heq | ⟨_, hall, hempty⟩ := text_eq text
    · rwa [huser, hpassword] at heq
    · exact absurd ⟨hall.symm.trans huser, hpassword.symm.trans hempty⟩ hnone

/-! ## The comparison -/

def Ascii (s : Str) : Prop := ∀ c ∈ s, c < 128

instance (s : Str) : Decidable (Ascii s) := inferInstanceAs (Decidable (∀ c ∈ s, c < 128))

theorem compareDigest_ascii {a b : Str} (ha : Ascii a) (hb : Ascii b) :
    compareDigest a b = .ok (decide (a = b)) :=
  if_pos fun c hc => (List.mem_append.mp hc).elim (ha c) (hb c)

theorem compareDigest_error {a b : Str} (h : ¬(Ascii a ∧ Ascii b)) :
    compareDigest a b = .error .typeError := by
  refine if_neg fun hall => h ⟨fun c hc => ?_, fun c hc => ?_⟩
  · exact hall c (List.mem_append_left b hc)
  · exact hall c (List.mem_append_right a hc)

/-- What is compared is ASCII: the users, and the passwords of a request with the right user; and the
colon is not missing where there is no password. -/
def Compares (user password text : Str) : Prop :=
  (Ascii (userPart text) ∧ Ascii user) ∧
    (userPart text = user → (Ascii (passwordPart text) ∧ Ascii password) ∧
      ¬(text = user ∧ password = []))

/-- **A text that has been decoded.** -/
theorem compare_iff (h : 58 ∉ user) :
    (∃ b, (do if ← compareDigest (userPart text) user then
          compareDigest (passwordPart text) password else return false : Result Bool) = .ok b ∧
        (b = true ↔ text = user ++ 58 :: password)) ↔ Compares user password text := by
  unfold Compares
  by_cases huser : Ascii (userPart text) ∧ Ascii user
  swap
  · rw [compareDigest_error huser]
    refine iff_of_false ?_ fun hc => huser hc.1
    rintro ⟨b, hb, _⟩
    cases hb
  rw [compareDigest_ascii huser.1 huser.2, and_iff_right huser, text_eq_iff h]
  by_cases heq : userPart text = user
  swap
  · rw [decide_eq_false heq]
    refine iff_of_true ⟨false, rfl, ?_⟩ fun hc => absurd hc heq
    exact iff_of_false Bool.false_ne_true fun hc => heq hc.1
  rw [decide_eq_true heq, imp_iff_right heq]
  show (∃ b, compareDigest (passwordPart text) password = .ok b ∧ _) ↔ _
  by_cases hpassword : Ascii (passwordPart text) ∧ Ascii password
  swap
  · rw [compareDigest_error hpassword]
    refine iff_of_false ?_ fun hc => hpassword hc.1
    rintro ⟨b, hb, _⟩
    cases hb
  rw [compareDigest_ascii hpassword.1 hpassword.2, and_iff_right hpassword]
  constructor
  · rintro ⟨b, hb, hiff⟩ ⟨htext, hempty⟩
    -- the whole text is the user's, so its other part is empty
    have hparts : passwordPart text = password := by
      obtain hcolon | ⟨_, _, hnone⟩ := text_eq text
      · rw [htext] at hcolon
        refine absurd ?_ h
        rw [hcolon]
        exact List.mem_append_right _ List.mem_cons_self
      · rw [hnone, hempty]
    cases hb
    exact (hiff.mp (decide_eq_true hparts)).2.2 ⟨htext, hempty⟩
  · intro hnone
    refine ⟨_, rfl, ?_⟩
    rw [decide_eq_true_iff]
    exact ⟨fun hparts => ⟨heq, hparts, hnone⟩, fun hc => hc.2.1⟩

/-! ## Every header -/

/-- Every header whose payload can be decoded can be compared. -/
def Comparable (user password : Str) (r : Request) : Prop :=
  ∀ payload text, r.authorization = some (lit "Basic " ++ payload) →
    decodePayload payload = some text → Compares user password text

/-- Another header is refused. -/
theorem decides_of_not_basic (huser : user ≠ [])
    (h : ∀ payload, r.authorization ≠ some (lit "Basic " ++ payload)) :
    Decides user password r := by
  have hheader : ¬(r.authorization.getD []).StartsWith (lit "Basic ") := by
    rintro ⟨payload, hpayload⟩
    cases hauthorization : r.authorization with
    | none =>
      rw [hauthorization] at hpayload
      cases hpayload
    | some header =>
      rw [hauthorization] at hpayload
      exact h payload (hauthorization.trans (congrArg some hpayload.symm))
  have hset : (credentials user password).user ≠ [] := huser
  have hauthed : (credentials user password).authed r = .ok false := by
    rw [Auth.authed, if_neg hset]
    exact if_pos hheader
  rw [decides_iff hauthed]
  refine ⟨false, rfl, iff_of_false Bool.false_ne_true ?_⟩
  rintro ⟨payload, hpayload, _⟩
  exact h payload hpayload

/-- What `authed` does with a Basic header. -/
theorem authed_basic (huser : user ≠ []) (h : r.authorization = some (lit "Basic " ++ payload)) :
    (credentials user password).authed r =
      match decodePayload payload with
      | none => .ok false
      | some text => do
        if ← compareDigest (userPart text) user then
          compareDigest (passwordPart text) password else return false := by
  have hheader : r.authorization.getD [] = lit "Basic " ++ payload := by
    rw [h]
    rfl
  have hbasic : (lit "Basic " ++ payload).StartsWith (lit "Basic ") := ⟨payload, rfl⟩
  have hset : (credentials user password).user ≠ [] := huser
  rw [Auth.authed, if_neg hset]
  dsimp only
  rw [hheader, if_neg (not_not.mpr hbasic)]
  rfl

theorem presents_iff (h : r.authorization = some (lit "Basic " ++ payload)) :
    Presents user password r ↔ decodePayload payload = some (user ++ 58 :: password) := by
  constructor
  · rintro ⟨payload', h', htext⟩
    rw [h, Option.some.injEq, List.append_cancel_left_eq] at h'
    rwa [h']
  · exact fun htext => ⟨payload, h, htext⟩

/-- **Every header is decided, if and only if what it says can be compared.** -/
theorem authed_decides_iff (huser : user ≠ []) (hcolon : 58 ∉ user) (r : Request) :
    Decides user password r ↔ Comparable user password r := by
  by_cases hbasic : ∃ payload, r.authorization = some (lit "Basic " ++ payload)
  swap
  · rw [not_exists] at hbasic
    exact iff_of_true (decides_of_not_basic huser hbasic)
      fun payload _ h => absurd h (hbasic payload)
  obtain ⟨payload, hpayload⟩ := hbasic
  have hone : Comparable user password r ↔
      ∀ text, decodePayload payload = some text → Compares user password text := by
    refine ⟨fun h text => h payload text hpayload, fun h payload' text h' => ?_⟩
    rw [hpayload, Option.some.injEq, List.append_cancel_left_eq] at h'
    exact h' ▸ h text
  rw [hone, decides_iff (authed_basic huser hpayload)]
  simp only [presents_iff hpayload]
  cases htext : decodePayload payload with
  | none => exact iff_of_true ⟨false, rfl, by simp⟩ nofun
  | some text =>
    simp only [Option.some.injEq, forall_eq']
    exact compare_iff hcolon

/-- A request for the page with this payload. -/
def basicRequest (payload : String) : Request :=
  ⟨.get, lit "/", some (lit "Basic " ++ lit payload), none, []⟩

theorem authed_decides_one : Decides (lit "admin") (lit "pass") (basicRequest "YWRtaW46cGFzcw==") := by
  refine (authed_decides_iff (by decide) (by decide) _).mpr fun payload text hheader htext => ?_
  rw [basicRequest, Option.some.injEq, List.append_cancel_left_eq] at hheader
  have hdecode : decodePayload (lit "YWRtaW46cGFzcw==") = some (lit "admin:pass") := by
    decide +kernel
  rw [← hheader, hdecode, Option.some.injEq] at htext
  subst htext
  exact ⟨by decide, fun _ => by decide⟩

/-- A user `é` makes `authed` raise, and without a password the user's name is enough. -/
theorem authed_undecided :
    ¬Decides (lit "admin") (lit "pass") (basicRequest "w6k6eA==") ∧
      ¬Decides (lit "admin") [] (basicRequest "YWRtaW4=") := by
  constructor
  · have hdecode : decodePayload (lit "w6k6eA==") = some [233, 58, 120] := by decide +kernel
    have hraises : (credentials (lit "admin") (lit "pass")).authed (basicRequest "w6k6eA==") =
        .error .typeError := by
      rw [authed_basic (by decide) rfl, hdecode]
      rfl
    rw [decides_iff hraises]
    rintro ⟨b, hb, _⟩
    cases hb
  · have hdecode : decodePayload (lit "YWRtaW4=") = some (lit "admin") := by decide +kernel
    have hlets : (credentials (lit "admin") []).authed (basicRequest "YWRtaW4=") = .ok true := by
      rw [authed_basic (by decide) rfl, hdecode]
      rfl
    rw [decides_iff hlets]
    rintro ⟨b, hb, hiff⟩
    cases hb
    have hpresents := (presents_iff rfl).mp (hiff.mp rfl)
    rw [hdecode] at hpresents
    exact absurd hpresents (by decide)

end WebZapret.Panel.Http
