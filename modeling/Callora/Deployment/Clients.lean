import Callora.Deployment.Moves
import Callora.Library.Shared

/-! The three contracts over one token ledger. Their calls interleave with each other and with the
payments of everybody else in any order, and a call hands the ledger that it leaves to the other
contracts. No contract of the repository signs for another one, so seen from one of them the others
are holders who pay each other or it. -/

namespace Callora.Deployment
open Library

inductive Contract where
  | vault
  | settlement
  | pool
deriving DecidableEq

structure Sites (Address : Type) where
  site : Contract → Address
  injective : Function.Injective site

variable {Address Ledger : Type} [LinearOrder Address]

def Sites.all (sites : Sites Address) : Finset Address :=
  {sites.site .vault, sites.site .settlement, sites.site .pool}

omit [LinearOrder Address] in
theorem Sites.ne (sites : Sites Address) {c c' : Contract} (h : c ≠ c') :
    sites.site c ≠ sites.site c' := fun he => h (sites.injective he)

theorem Sites.mem_all (sites : Sites Address) (c : Contract) : sites.site c ∈ sites.all := by
  unfold all
  cases c <;> simp

def Sites.Foreign (sites : Sites Address) {contract : Address} (env : Env Address contract) :
    Prop := ∀ who ∈ env.signers, who ∉ sites.all

instance (sites : Sites Address) {contract : Address} (env : Env Address contract) :
    Decidable (sites.Foreign env) := inferInstanceAs (Decidable (∀ who ∈ env.signers, _))

variable (T : TokenContract Address Ledger) (sites : Sites Address)

def vaultClient : Client Ledger where
  State := Vault.State Address Ledger
  Input := Vault.Input Address (sites.site .vault)
  Output := Unit
  machine := Vault.vault T (sites.site .vault)
  resource := Vault.State.ledger
  replace s l := { s with ledger := l }
  own
    | .call _ _ => true
    | .thirdParty _ _ _ _ _ => false
  admitted
    | .call env _ => decide (sites.Foreign env)
    | .thirdParty _ _ _ _ _ => false
  resource_replace _ _ := rfl
  replace_resource _ := rfl
  replace_replace _ _ _ := rfl

def settlementClient : Client Ledger where
  State := Settlement.State Address Ledger
  Input := Settlement.Input Address Ledger (sites.site .settlement)
  Output := Settlement.Ret
  machine := Settlement.settlement T (sites.site .settlement)
  resource := Settlement.State.ledger
  replace s l := { s with ledger := l }
  own
    | .call _ _ => true
    | .ledgerMoves _ => false
  admitted
    | .call env _ => decide (sites.Foreign env)
    | .ledgerMoves _ => false
  resource_replace _ _ := rfl
  replace_resource _ := rfl
  replace_replace _ _ _ := rfl

def poolClient : Client Ledger where
  State := RevenuePool.State Address Ledger
  Input := RevenuePool.Input Address (sites.site .pool)
  Output := Unit
  machine := RevenuePool.revenuePool T (sites.site .pool)
  resource := RevenuePool.State.ledger
  replace s l := { s with ledger := l }
  own
    | .call _ _ => true
    | .thirdParty _ _ _ _ _ => false
  admitted
    | .call env _ => decide (sites.Foreign env)
    | .thirdParty _ _ _ _ _ => false
  resource_replace _ _ := rfl
  replace_resource _ := rfl
  replace_replace _ _ _ := rfl

/-- Everybody else, who makes payments that are not the contracts'. -/
def outsideClient : Client Ledger where
  State := Ledger
  Input := Payment Address
  Output := Unit
  machine := ⟨fun l p => (T.transfer l p.token p.from p.to p.amount).map fun l' => ((), l')⟩
  resource l := l
  replace _ l := l
  own _ := true
  admitted p := decide (p.from ∉ sites.all)
  resource_replace _ _ := rfl
  replace_resource _ := rfl
  replace_replace _ _ _ := rfl

def clients : Option Contract → Client Ledger
  | some .vault => vaultClient T sites
  | some .settlement => settlementClient T sites
  | some .pool => poolClient T sites
  | none => outsideClient T sites

abbrev State : Type := Shared (clients T sites)

abbrev Input : Type := Σ k, (clients T sites k).Turn

abbrev LogEntry : Type := SharedEntry (clients T sites)

/-- The deployment of the three contracts. -/
abbrev deployment : Machine (State T sites) (Input T sites) (Σ k, (clients T sites k).Output) :=
  share (clients T sites)

def deployed (ledger : Ledger) : State T sites where
  part
    | some .vault => Vault.State.deployed ledger
    | some .settlement => Settlement.State.deployed ledger
    | some .pool => RevenuePool.State.deployed ledger
    | none => ledger
  resource := ledger
  agree
    | some .vault | some .settlement | some .pool | none => rfl

/-! What the parties do to the ledger. -/

def movesAt : ∀ k : Option Contract,
    Entry (clients T sites k).State (clients T sites k).Input (clients T sites k).Output →
      List (Payment Address)
  | some .vault => fun e =>
    match e.input with
    | Vault.Input.call _ op => op.moves (sites.site .vault) e.pre
    | Vault.Input.thirdParty token «from» «to» amount _ => [⟨token, «from», «to», amount⟩]
  | some .settlement => fun e =>
    match e.input with
    | Settlement.Input.call _ op => op.moves (sites.site .settlement) e.pre e.output
    | Settlement.Input.ledgerMoves _ => []
  | some .pool => fun e =>
    match e.input with
    | RevenuePool.Input.call _ op => op.moves (sites.site .pool) e.pre
    | RevenuePool.Input.thirdParty token «from» «to» amount _ => [⟨token, «from», «to», amount⟩]
  | none => fun e => [e.input]

def moves (e : LogEntry T sites) : List (Payment Address) :=
  ((SharedEntry.at e.input.1 e).map (movesAt T sites e.input.1)).getD []

variable {T sites}

def Payer (sites : Sites Address) (k : Option Contract) (who : Address) : Prop :=
  who ∉ sites.all ∨ ∃ c, k = some c ∧ who = sites.site c

theorem payer_of_pays {c : Contract} {env : Env Address (sites.site c)}
    {ps : List (Payment Address)} (hforeign : sites.Foreign env) (h : env.Pays ps) :
    ∀ p ∈ ps, Payer sites (some c) p.from := by
  intro p hp
  rcases h p hp with hcontract | hsigner
  · exact .inr ⟨c, rfl, hcontract⟩
  · exact .inl (hforeign _ hsigner)

theorem payAll_movesAt {k : Option Contract} {s s' : (clients T sites k).State}
    {i : (clients T sites k).Input} {o : (clients T sites k).Output}
    (hadmitted : (clients T sites k).admitted i = true)
    (h : (clients T sites k).machine.step s i = some (o, s')) :
    T.payAll ((clients T sites k).resource s) (movesAt T sites k ⟨s, i, o, s'⟩) =
        some ((clients T sites k).resource s') ∧
      ∀ p ∈ movesAt T sites k ⟨s, i, o, s'⟩, Payer sites k p.from := by
  match k with
  | some .vault =>
    cases i with
    | call env op =>
      obtain ⟨hpaid, hpays⟩ := Vault.payAll_moves (Vault.effect_of_call (Call.commit_eq_some.1 h))
      exact ⟨hpaid, payer_of_pays (of_decide_eq_true hadmitted) hpays⟩
    | thirdParty token «from» «to» amount external => cases hadmitted
  | some .settlement =>
    cases i with
    | call env op =>
      obtain ⟨hpaid, hpays⟩ := Settlement.payAll_moves (Settlement.effect_of_commit h)
      exact ⟨hpaid, payer_of_pays (of_decide_eq_true hadmitted) hpays⟩
    | ledgerMoves ledger => cases hadmitted
  | some .pool =>
    cases i with
    | call env op =>
      obtain ⟨hpaid, hpays⟩ :=
        RevenuePool.payAll_moves (RevenuePool.effect_of_call (Call.commit_eq_some.1 h))
      exact ⟨hpaid, payer_of_pays (of_decide_eq_true hadmitted) hpays⟩
    | thirdParty token «from» «to» amount external => cases hadmitted
  | none =>
    obtain ⟨l, hpaid, hl⟩ := Option.map_eq_some_iff.1 h
    obtain rfl := (Prod.ext_iff.1 hl).2
    refine ⟨(TokenContract.payAll_singleton _).trans hpaid, ?_⟩
    exact List.forall_mem_singleton.2 (.inl (of_decide_eq_true hadmitted))

theorem Payer.ne {k : Option Contract} {c : Contract} {who : Address} (h : Payer sites k who)
    (hk : k ≠ some c) : who ≠ sites.site c := by
  rcases h with houtside | ⟨c', rfl, rfl⟩
  · rintro rfl
    exact houtside (sites.mem_all c)
  · apply sites.ne
    rintro rfl
    exact hk rfl

theorem moves_eq {k : Option Contract} (s s' : State T sites) (i : (clients T sites k).Turn)
    (o : (clients T sites k).Output) : moves T sites ⟨s, ⟨k, i⟩, ⟨k, o⟩, s'⟩ =
      movesAt T sites k ⟨s.part k, i.input, o, s'.part k⟩ := by
  simp only [moves, SharedEntry.at_self, Option.map_some, Option.getD_some]

theorem payAll_moves {s s' : State T sites} {i : Input T sites}
    {o : Σ k, (clients T sites k).Output}
    (h : (deployment T sites).step s i = some (o, s')) :
    T.payAll s.resource (moves T sites ⟨s, i, o, s'⟩) = some s'.resource ∧
      ∀ p ∈ moves T sites ⟨s, i, o, s'⟩, Payer sites i.1 p.from := by
  obtain ⟨k, i⟩ := i
  obtain ⟨o', t, hstep, rfl, rfl⟩ := step_share_eq_some.1 h
  rw [moves_eq, Shared.part_handOn_self, ← s.agree k]
  exact payAll_movesAt i.admitted hstep

/-! What a contract sees of the others. -/

theorem absorbs_of_payAll (c : Contract) {ps : List (Payment Address)} {l l' : Ledger}
    (hfrom : ∀ p ∈ ps, p.from ≠ sites.site c) (h : T.payAll l ps = some l') :
    (clients T sites (some c)).Absorbs l l' := by
  induction ps generalizing l with
  | nil =>
    obtain rfl := Option.some.inj h
    exact .refl l
  | cons p ps ih =>
    obtain ⟨mid, hmid, hrest⟩ := TokenContract.payAll_cons_eq_some.1 h
    obtain ⟨hp, hfrom⟩ := List.forall_mem_cons.1 hfrom
    refine .trans ?_ (ih hfrom hrest)
    cases c with
    | vault =>
      apply Client.absorbs_of_step (c := vaultClient T sites)
        (i := .thirdParty p.token p.from p.to p.amount hp) (o := ()) rfl
      intro s hs
      obtain rfl : s.ledger = l := hs
      exact Option.map_eq_some_iff.2 ⟨mid, hmid, rfl⟩
    | settlement =>
      apply Client.absorbs_of_step (c := settlementClient T sites) (i := .ledgerMoves mid)
        (o := .unit) rfl
      intro s _
      rfl
    | pool =>
      apply Client.absorbs_of_step (c := poolClient T sites)
        (i := .thirdParty p.token p.from p.to p.amount hp) (o := ()) rfl
      intro s hs
      obtain rfl : s.ledger = l := hs
      exact Option.map_eq_some_iff.2 ⟨mid, hmid, rfl⟩

theorem absorbs_of_takes {c : Contract} {k : Option Contract} (hk : k ≠ some c) {l l' : Ledger}
    (h : (clients T sites k).Takes l l') : (clients T sites (some c)).Absorbs l l' := by
  obtain ⟨s, o, s', i, hstep, rfl, rfl⟩ := h
  obtain ⟨hpaid, hpayer⟩ := payAll_movesAt i.admitted hstep
  exact absorbs_of_payAll c (fun p hp => (hpayer p hp).ne hk) hpaid

end Callora.Deployment
