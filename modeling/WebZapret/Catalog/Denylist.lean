import WebZapret.Catalog.Reassembly
import WebZapret.Catalog.ValidateArgs
import WebZapret.Lib.Py.Resplit

/-!
# What `validate_args` has checked

`validate_args` checks the words of a text and returns them joined by blanks; the renderer splits the
joined text again. It gets the words that were checked exactly when none of them has a blank, a quote or
a backslash (`validateArgs_rechecked_iff`). Otherwise an option that is refused by itself can be stored
within a word (`smuggled_option`).
-/

namespace WebZapret.Catalog

open Py Failing

variable [Tables]

/-- The stored text is split into the words that were checked, and these are allowed. -/
def Rechecked (text stored : Str) : Prop :=
  ∃ ts, Shlex.split text = .ok ts ∧ Shlex.split stored = .ok ts ∧
    ∀ token ∈ ts, token.StartsWith (lit "--") ∧ token.key ∉ forbiddenArgs

/-- **When the checked words are the stored ones.** -/
theorem validateArgs_rechecked_iff {text stored : Str} (h : validateArgs (.str text) = .ok stored) :
    Rechecked text stored ↔ ∀ token ∈ tokens text, Shlex.Plain token := by
  obtain ⟨ts, hsplit, _, hcheck, rfl⟩ := validateArgs_eq_ok.mp h
  have hchecked : ∀ token ∈ ts, token.StartsWith (lit "--") ∧ token.key ∉ forbiddenArgs :=
    fun token htoken => (checkToken_eq_ok.mp (hcheck token htoken)).2
  rw [tokens_eq hsplit,
    ← Shlex.split_join_iff fun t ht => ne_nil_of_startsWith (hchecked t ht).1]
  constructor
  · intro hrechecked
    obtain ⟨ts', hsplit', hstored, _⟩ := hrechecked
    rw [hsplit] at hsplit'
    cases hsplit'
    exact hstored
  · intro hstored
    exact ⟨ts, hsplit, hstored, hchecked⟩

omit [Tables]

theorem validateArgs_rechecked_filtered : letI := Tables.ascii
    validateArgs (.str (lit "'--filter-tcp=443' --lua-desync=fake")) =
        .ok (lit "--filter-tcp=443 --lua-desync=fake") ∧
      (Rechecked (lit "'--filter-tcp=443' --lua-desync=fake")
          (lit "--filter-tcp=443 --lua-desync=fake") ↔
        ∀ token ∈ tokens (lit "'--filter-tcp=443' --lua-desync=fake"), Shlex.Plain token) := by
  let _ := Tables.ascii
  exact ⟨rfl, validateArgs_rechecked_iff rfl⟩

/-- A quoted word hides an option that is refused by itself. -/
theorem smuggled_option : letI := Tables.ascii
    ¬∀ text stored, validateArgs (.str text) = .ok stored → Rechecked text stored := by
  let _ := Tables.ascii
  intro h
  obtain ⟨ts, _, hstored, hallowed⟩ := h (lit "'--lua-desync=fake --lua-init=@/tmp/x.lua'")
    (lit "--lua-desync=fake --lua-init=@/tmp/x.lua") rfl
  have hsplit : Shlex.split (lit "--lua-desync=fake --lua-init=@/tmp/x.lua") =
      .ok [lit "--lua-desync=fake", lit "--lua-init=@/tmp/x.lua"] := rfl
  rw [hsplit] at hstored
  cases hstored
  exact (hallowed (lit "--lua-init=@/tmp/x.lua") (by simp)).2 (by decide)

end WebZapret.Catalog
