import Mathlib.Algebra.BigOperators.Group.Finset.Piecewise
import Mathlib.Algebra.Ring.Int.Defs
import Callora.Host

/-! Payments as data. A list of them is applied to the ledger of the token contracts one after the
other, and with tokens that move exact amounts it moves every balance by the sum of what the list
pays in and out. -/

namespace Callora

structure Payment (Address : Type) where
  token : Address
  «from» : Address
  «to» : Address
  amount : ℤ
deriving DecidableEq

namespace TokenContract
variable {Address Ledger : Type} (T : TokenContract Address Ledger)

/-- The ledger after the payments, unless the token traps on one of them. -/
def payAll : Ledger → List (Payment Address) → Option Ledger
  | l, [] => some l
  | l, p :: ps => (T.transfer l p.token p.from p.to p.amount).bind fun l' => payAll l' ps

variable {T} {l l' : Ledger}

@[simp] theorem payAll_nil : T.payAll l [] = some l := rfl

@[simp] theorem payAll_singleton (p : Payment Address) :
    T.payAll l [p] = T.transfer l p.token p.from p.to p.amount := by
  simp [payAll]

theorem payAll_cons_eq_some {p : Payment Address} {ps : List (Payment Address)} :
    T.payAll l (p :: ps) = some l' ↔
      ∃ mid, T.transfer l p.token p.from p.to p.amount = some mid ∧ T.payAll mid ps = some l' :=
  Option.bind_eq_some_iff

theorem payAll_append (ps qs : List (Payment Address)) :
    T.payAll l (ps ++ qs) = (T.payAll l ps).bind fun mid => T.payAll mid qs := by
  induction ps generalizing l with
  | nil => rfl
  | cons p ps ih => simp only [List.cons_append, payAll, ih, Option.bind_assoc]

theorem payAll_append_of_eq_some {mid : Ledger} {ps : List (Payment Address)}
    (h : T.payAll l ps = some mid) (qs : List (Payment Address)) :
    T.payAll l (ps ++ qs) = T.payAll mid qs := by
  rw [payAll_append, h, Option.bind_some]

end TokenContract

variable {Address Ledger : Type} [DecidableEq Address]

def Payment.net (token who : Address) (p : Payment Address) : ℤ :=
  (if token = p.token ∧ who = p.to then p.amount else 0) -
    if token = p.token ∧ who = p.from then p.amount else 0

def Payment.netOf (token : Address) (W : Finset Address) (p : Payment Address) : ℤ :=
  (if token = p.token ∧ p.to ∈ W then p.amount else 0) -
    if token = p.token ∧ p.from ∈ W then p.amount else 0

theorem Payment.sum_net (token : Address) (W : Finset Address) (p : Payment Address) :
    ∑ who ∈ W, p.net token who = p.netOf token W := by
  have hone (x : Address) : (∑ who ∈ W, if token = p.token ∧ who = x then p.amount else 0) =
      if token = p.token ∧ x ∈ W then p.amount else 0 := by
    by_cases htoken : token = p.token
    · simp only [htoken, true_and]
      exact Finset.sum_ite_eq' W x fun _ => p.amount
    · simp only [htoken, false_and, if_false, Finset.sum_const_zero]
  unfold net netOf
  rw [Finset.sum_sub_distrib, hone, hone]

namespace ExactToken
variable (T : ExactToken Address Ledger) {l l' : Ledger} {ps : List (Payment Address)}

theorem balance_of_payment {p : Payment Address}
    (h : T.transfer l p.token p.from p.to p.amount = some l') (token who : Address) :
    T.balance l' token who = T.balance l token who + p.net token who := by
  rw [T.balance_transfer h, Payment.net]
  omega

theorem nonneg_of_payAll (h : T.toTokenContract.payAll l ps = some l') :
    ∀ p ∈ ps, 0 ≤ p.amount := by
  induction ps generalizing l with
  | nil => exact List.forall_mem_nil _
  | cons p ps ih =>
    obtain ⟨mid, hmid, hrest⟩ := TokenContract.payAll_cons_eq_some.1 h
    exact List.forall_mem_cons.2 ⟨(T.funds_of_transfer hmid).1, ih hrest⟩

theorem balance_of_payAll (h : T.toTokenContract.payAll l ps = some l') (token who : Address) :
    T.balance l' token who = T.balance l token who + (ps.map (Payment.net token who)).sum := by
  induction ps generalizing l with
  | nil =>
    obtain rfl := Option.some.inj h
    rw [List.map_nil, List.sum_nil, Int.add_zero]
  | cons p ps ih =>
    obtain ⟨mid, hmid, hrest⟩ := TokenContract.payAll_cons_eq_some.1 h
    rw [ih hrest, T.balance_of_payment hmid, List.map_cons, List.sum_cons, Int.add_assoc]

def heldBy (l : Ledger) (token : Address) (W : Finset Address) : ℤ :=
  ∑ who ∈ W, T.balance l token who

theorem heldBy_of_payment {p : Payment Address}
    (h : T.transfer l p.token p.from p.to p.amount = some l') (token : Address)
    (W : Finset Address) : T.heldBy l' token W = T.heldBy l token W + p.netOf token W := by
  unfold heldBy
  rw [← Payment.sum_net, ← Finset.sum_add_distrib]
  apply Finset.sum_congr rfl
  intro who _
  exact T.balance_of_payment h token who

theorem heldBy_of_payAll (h : T.toTokenContract.payAll l ps = some l') (token : Address)
    (W : Finset Address) :
    T.heldBy l' token W = T.heldBy l token W + (ps.map (Payment.netOf token W)).sum := by
  induction ps generalizing l with
  | nil =>
    obtain rfl := Option.some.inj h
    rw [List.map_nil, List.sum_nil, Int.add_zero]
  | cons p ps ih =>
    obtain ⟨mid, hmid, hrest⟩ := TokenContract.payAll_cons_eq_some.1 h
    rw [ih hrest, T.heldBy_of_payment hmid, List.map_cons, List.sum_cons, Int.add_assoc]

end ExactToken
end Callora
