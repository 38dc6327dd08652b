import WebZapret.Firewall.Rules
import WebZapret.Lib.Chains

/-!
# The way of a packet

A packet that a process of the container sends is given by the match conditions that it satisfies. The
mangle and the nat table say whether it is queued and where it is redirected, and the policy rules by
which device it leaves (`Host.path`).
-/

namespace WebZapret

/-- A packet of one process, with one protocol. -/
structure Packet where
  sat : Cond → Bool
  notMark : ∀ m, sat (.notMark m) = !sat (.mark m)
  oneOwner : ∀ u v, sat (.uidOwner u) = true → sat (.uidOwner v) = true → u = v
  oneProto : ∀ p q, sat (.proto p) = true → sat (.proto q) = true → p = q

def Verdict.returns : Verdict → Bool
  | .ret => true
  | _ => false

/-- The built-in chains jump to the others. -/
def Chain.rank : Chain → Nat
  | .output | .prerouting => 1
  | _ => 0

/-- What `OUTPUT` of a table does with the packet. -/
def FwTable.outcome (t : FwTable) (p : Packet) : Outcome Verdict :=
  Table.walk p.sat Verdict.returns t (Fintype.card Chain) .output

/-- `uidrange U-U ipproto P` -/
def PolicyRule.applies (r : PolicyRule) (p : Packet) : Bool :=
  p.sat (.uidOwner r.uid) && p.sat (.proto r.ipproto)

/-- The device of the first policy rule that applies and has a route in its table. -/
def Host.device (h : Host) (p : Packet) : Option String :=
  h.policy.findSome? fun r =>
    if r.applies p then (h.routes.find? fun o => o.table = r.lookup).map (·.dev) else none

structure Path where
  mangle : Outcome Verdict
  nat : Outcome Verdict
  device : Option String
  deriving DecidableEq

def Host.path (h : Host) (p : Packet) : Path :=
  ⟨h.mangle.outcome p, h.nat.outcome p, h.device p⟩

/-- A rule may jump from a built-in chain to one that is not. -/
def JumpsDown (c : Chain) (r : FwRule) : Prop := ∀ d, r.target = .jump d → d.rank < c.rank

theorem FwTable.outcome_ne_tooDeep {t : FwTable} (h : Table.Obeys JumpsDown t) (p : Packet) :
    t.outcome p ≠ .tooDeep :=
  Table.walk_ne_tooDeep Chain.rank h (by decide)

end WebZapret
