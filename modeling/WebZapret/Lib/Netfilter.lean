import Mathlib.Logic.Function.Basic
import Mathlib.Data.List.Basic
import Mathlib.Data.Fintype.Pi

/-!
# Netfilter tables

A table maps the chains it has to their rules, in order. Each `iptables` operation is a partial
function on tables: `none` is the command's non-zero exit, which leaves the table as it was.
Chain names, match conditions and verdicts are parameters.
-/

namespace WebZapret

/-- Where a matching packet goes: into another chain, or to a verdict. -/
inductive Target (C V : Type*)
  | jump (c : C)
  | verdict (v : V)
  deriving DecidableEq

structure Rule (C M V : Type*) where
  conds : List M
  target : Target C V
  deriving DecidableEq

/-- The chains of a table, each with its rules in order. -/
abbrev Table (C M V : Type*) := C → Option (List (Rule C M V))

namespace Table

variable {C M V : Type*}

/-- A rule may only jump to a chain that exists. -/
def Resolves (t : Table C M V) (r : Rule C M V) : Bool :=
  match r.target with
  | .jump c => (t c).isSome
  | .verdict _ => true

variable [DecidableEq C]

/-- The table with the rules of one chain replaced. -/
def set (c : C) (rs : List (Rule C M V)) (t : Table C M V) : Table C M V :=
  Function.update t c (some rs)

@[simp] theorem set_same (c : C) (rs : List (Rule C M V)) (t : Table C M V) :
    t.set c rs c = some rs := Function.update_self ..

@[simp] theorem set_ne {c d : C} (h : d ≠ c) (rs : List (Rule C M V)) (t : Table C M V) :
    t.set c rs d = t d := Function.update_of_ne h ..

@[simp] theorem set_set (c : C) (rs rs' : List (Rule C M V)) (t : Table C M V) :
    (t.set c rs).set c rs' = t.set c rs' := Function.update_idem ..

theorem set_eq_self {c : C} {l : List (Rule C M V)} {t : Table C M V} (h : t c = some l) :
    t.set c l = t := by
  rw [set, ← h, Function.update_eq_self]

/-- The table with the rules of one chain, if it has that chain, changed by `F`. -/
def mapChain (c : C) (F : List (Rule C M V) → List (Rule C M V)) (t : Table C M V) : Table C M V :=
  Function.update t c ((t c).map F)

@[simp] theorem mapChain_same (c : C) (F : List (Rule C M V) → List (Rule C M V))
    (t : Table C M V) : t.mapChain c F c = (t c).map F := Function.update_self ..

@[simp] theorem mapChain_ne {c d : C} (h : d ≠ c) (F : List (Rule C M V) → List (Rule C M V))
    (t : Table C M V) : t.mapChain c F d = t d := Function.update_of_ne h ..

@[simp] theorem mapChain_id (c : C) (t : Table C M V) : t.mapChain c (fun l => l) = t := by
  rw [mapChain, Option.map_id', Function.update_eq_self]

@[simp] theorem mapChain_mapChain (c : C) (F G : List (Rule C M V) → List (Rule C M V))
    (t : Table C M V) : (t.mapChain c F).mapChain c G = t.mapChain c (fun l => G (F l)) := by
  rw [mapChain, mapChain_same, mapChain, Function.update_idem, Option.map_map, mapChain]
  rfl

/-- `-N c` -/
def newChain (c : C) (t : Table C M V) : Option (Table C M V) :=
  match t c with
  | none => some (t.set c [])
  | some _ => none

/-- `-F c` -/
def flush (c : C) (t : Table C M V) : Option (Table C M V) :=
  match t c with
  | none => none
  | some _ => some (t.set c [])

/-- `-A c r` -/
def append (c : C) (r : Rule C M V) (t : Table C M V) : Option (Table C M V) :=
  match t c with
  | none => none
  | some rs => if t.Resolves r then some (t.set c (rs ++ [r])) else none

/-- `-I c n r`: the rule becomes rule number `n` (from 1) of the chain. -/
def insert (c : C) (n : Nat) (r : Rule C M V) (t : Table C M V) : Option (Table C M V) :=
  match t c with
  | none => none
  | some rs =>
    if t.Resolves r ∧ 1 ≤ n ∧ n ≤ rs.length + 1 then
      some (t.set c (rs.take (n - 1) ++ r :: rs.drop (n - 1)))
    else none

variable [DecidableEq M] [DecidableEq V]

/-- `-C c r`: succeeds when the chain has the rule, and changes nothing. -/
def check (c : C) (r : Rule C M V) (t : Table C M V) : Option (Table C M V) :=
  match t c with
  | none => none
  | some rs => if r ∈ rs then some t else none

/-- `-D c r`: the first such rule goes. -/
def delete (c : C) (r : Rule C M V) (t : Table C M V) : Option (Table C M V) :=
  match t c with
  | none => none
  | some rs => if r ∈ rs then some (t.set c (rs.erase r)) else none

/-- No rule jumps to the chain. -/
def Unreferenced (c : C) (t : Table C M V) : Prop :=
  ∀ d, ∀ rs ∈ t d, ∀ r ∈ rs, r.target ≠ .jump c

instance [Fintype C] (c : C) (t : Table C M V) : Decidable (Unreferenced c t) :=
  inferInstanceAs (Decidable (∀ d, ∀ rs ∈ t d, ∀ r ∈ rs, r.target ≠ .jump c))

/-- `-X c`, of a chain that is not built in: only an empty chain that no rule jumps to goes. -/
def deleteChain [Fintype C] (c : C) (t : Table C M V) : Option (Table C M V) :=
  if t c = some [] ∧ t.Unreferenced c then some (Function.update t c none) else none

end Table

end WebZapret
