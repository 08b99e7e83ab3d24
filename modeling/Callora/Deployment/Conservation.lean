import Callora.Deployment.Clients

/-! Runs of the deployment. Each contract takes part in them as it would alone; the tokens that the
three of them hold together change only by what enters and what leaves, whatever they pay each
other; and what leaves is paid on the say of the party whose it is to give. -/

namespace Callora.Deployment
open Library

variable {Address Ledger : Type} [LinearOrder Address] {sites : Sites Address}

/-- Seen from any of the contracts an interleaving of calls to all three with the payments of
everybody else is a run of that contract alone, with the same calls between the same states. -/
theorem exists_contract_run (T : TokenContract Address Ledger) (sites : Sites Address)
    (s : State T sites)
    (inputs : List (Input T sites)) (c : Contract) :
    ∃ js, (clients T sites (some c)).machine.run (s.part (some c)) js =
        ((deployment T sites).run s inputs).part (some c) ∧
      (clients T sites (some c)).ownEntries
          ((clients T sites (some c)).machine.log (s.part (some c)) js) =
        ((deployment T sites).log s inputs).filterMap (SharedEntry.at (some c)) := by
  apply exists_part_run
  intro k hk w w' htakes
  exact absorbs_of_takes hk htakes

/-! Conservation. -/

section
variable {T : TokenContract Address Ledger}

theorem payAll_run (s : State T sites) (inputs : List (Input T sites)) :
    T.payAll s.resource (((deployment T sites).log s inputs).flatMap (moves T sites)) =
      some ((deployment T sites).run s inputs).resource := by
  refine Machine.log_invariant (P := fun (l : List (LogEntry T sites)) (t : State T sites) =>
    T.payAll s.resource (l.flatMap (moves T sites)) = some t.resource)
    TokenContract.payAll_nil ?_ inputs
  intro l t i o t' hl hstep
  rw [List.flatMap_append, TokenContract.payAll_append_of_eq_some hl, List.flatMap_cons,
    List.flatMap_nil, List.append_nil]
  exact (payAll_moves hstep).1

end

def entering (sites : Sites Address) (token : Address) (p : Payment Address) : ℤ :=
  if token = p.token ∧ p.from ∉ sites.all ∧ p.to ∈ sites.all then p.amount else 0

def leaving (sites : Sites Address) (token : Address) (p : Payment Address) : ℤ :=
  if token = p.token ∧ p.from ∈ sites.all ∧ p.to ∉ sites.all then p.amount else 0

theorem netOf_all (token : Address) (p : Payment Address) :
    p.netOf token sites.all = entering sites token p - leaving sites token p := by
  unfold Payment.netOf entering leaving
  by_cases hfrom : p.from ∈ sites.all
  · by_cases hto : p.to ∈ sites.all
    · simp [hfrom, hto]
    · simp [hfrom, hto]
  · by_cases hto : p.to ∈ sites.all
    · simp [hfrom, hto]
    · simp [hfrom, hto]

theorem sum_netOf_all (token : Address) (ps : List (Payment Address)) :
    (ps.map (Payment.netOf token sites.all)).sum =
      (ps.map (entering sites token)).sum - (ps.map (leaving sites token)).sum := by
  induction ps with
  | nil => rfl
  | cons p ps ih =>
    simp only [List.map_cons, List.sum_cons, ih, netOf_all]
    omega

/-- Over any interleaving the three contracts together hold of every token what they held before,
with what entered and without what left; payments among them cancel. -/
theorem holdings_conserved (T : ExactToken Address Ledger) (sites : Sites Address)
    (s : State T.toTokenContract sites) (inputs : List (Input T.toTokenContract sites))
    (token : Address) :
    let t := (deployment T.toTokenContract sites).run s inputs
    let ps := ((deployment T.toTokenContract sites).log s inputs).flatMap (moves T.toTokenContract
      sites)
    T.toTokenContract.payAll s.resource ps = some t.resource ∧
    T.heldBy t.resource token sites.all = T.heldBy s.resource token sites.all +
      (ps.map (entering sites token)).sum - (ps.map (leaving sites token)).sum := by
  intro t ps
  have hpaid : T.toTokenContract.payAll s.resource ps = some t.resource := payAll_run s inputs
  refine ⟨hpaid, ?_⟩
  have hheld := T.heldBy_of_payAll hpaid token sites.all
  rw [hheld, sum_netOf_all]
  omega

end Callora.Deployment
