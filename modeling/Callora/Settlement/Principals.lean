import Callora.Settlement.Run

/-! Admin and vault are two parties, and neither is the contract. `init` refuses a configuration
that confuses them; the rotations keep the contract out of both offices and nothing keeps one party
out of the other's. -/

namespace Callora.Settlement
open Library

variable {Address Ledger : Type} [LinearOrder Address] {contract : Address}
  {T : TokenContract Address Ledger} {env : Env Address contract} {s s' : State Address Ledger}

structure State.PrincipalsApart (contract : Address) (s : State Address Ledger) : Prop where
  distinct : ∀ admin, s.admin = some admin → s.vault ≠ some admin
  admin : s.admin ≠ some contract
  vault : s.vault ≠ some contract

/-- If the step completes a rotation, the new admin is not the vault in office, nor the new vault
the admin in office. -/
def State.KeepsApart (s : State Address Ledger) : Input Address Ledger contract → Prop
  | .call _ .acceptAdmin => s.pendingAdmin ≠ s.vault
  | .call _ (.acceptVault _) => s.pendingVault ≠ s.admin
  | _ => True

theorem pendingVault_of_effect {op : Op Address} {r : Ret} (hs : s.pendingVault ≠ some contract)
    (h : Effect T env s op r s') : s'.pendingVault ≠ some contract := by
  cases h with
  | proposeVault admin external | setVault admin external =>
    intro he
    exact external (Option.some.inj he)
  | acceptVault => rintro ⟨⟩
  | _ => exact hs

theorem principalsApart_effect_iff {op : Op Address} {r : Ret} (hs : s.PrincipalsApart contract)
    (hpending : s.pendingVault ≠ some contract) (h : Effect T env s op r s') :
    s'.PrincipalsApart contract ↔ s.KeepsApart (.call env op) := by
  cases h with
  | init authorized fresh principals =>
    obtain ⟨hne, hadmin, hvault⟩ := principals
    refine iff_of_true ⟨?_, by simpa using hadmin, by simpa using hvault⟩ trivial
    intro a ha he
    exact hne (Option.some.inj (ha.trans he.symm))
  | @acceptAdmin pending oldAdmin nominated authorized old =>
    constructor
    · intro hs' he
      exact hs'.distinct pending rfl (he.symm.trans nominated)
    · intro hne
      -- the contract authorizes nothing, so it cannot have accepted
      refine ⟨?_, by simpa using Env.ne_contract authorized, hs.vault⟩
      intro a ha he
      exact hne (nominated.trans (ha.trans he.symm))
  | @acceptVault caller pending admin oldVault authorized proposed inOffice party old =>
    constructor
    · intro hs' he
      exact hs'.distinct admin inOffice (proposed.symm.trans (he.trans inOffice))
    · intro hne
      refine ⟨?_, hs.admin, fun he => hpending (proposed.trans he)⟩
      intro a ha he
      exact hne (proposed.trans (he.trans ha.symm))
  | _ => exact iff_of_true ⟨hs.distinct, hs.admin, hs.vault⟩ trivial

/-- Admin, vault and contract stay apart through a run exactly if no rotation of the one completes
with the party that holds the other office. -/
theorem principalsApart_iff (T : TokenContract Address Ledger) (contract : Address)
    (ledger : Ledger) (inputs : List (Input Address Ledger contract)) :
    (∀ js ks, inputs = js ++ ks →
      ((settlement T contract).run (.deployed ledger) js).PrincipalsApart contract) ↔
    ∀ e ∈ (settlement T contract).log (.deployed ledger) inputs, e.pre.KeepsApart e.input := by
  apply Machine.always_run_iff_of_invariant (I := fun s => s.pendingVault ≠ some contract)
  · exact Option.some_ne_none contract ∘ Eq.symm
  · intro s input r s' hs hstep
    obtain ⟨env, op, rfl, heff⟩ | ⟨ledger, rfl, rfl, rfl⟩ := effect_of_step hstep
    · exact pendingVault_of_effect hs heff
    · exact hs
  · have hnone (a : Address) : none ≠ some a := Option.some_ne_none a ∘ Eq.symm
    exact ⟨fun a ha => absurd ha (hnone a), hnone contract, hnone contract⟩
  · intro s input r s' hproposed hs hstep
    obtain ⟨env, op, rfl, heff⟩ | ⟨ledger, rfl, rfl, rfl⟩ := effect_of_step hstep
    · exact principalsApart_effect_iff hs hproposed heff
    · exact iff_of_true ⟨hs.distinct, hs.admin, hs.vault⟩ trivial

/-- The admin nominates the vault, which accepts; or it proposes itself as the vault. -/
theorem one_party_in_both_offices :
    let m := settlement (balanceToken ℕ).toTokenContract 0
    let init : Input ℕ (Balances ℕ) 0 := .call (.signedBy 1 0 (by decide)) (.init 1 2)
    let nominated : List (Input ℕ (Balances ℕ) 0) := [init,
      .call (.signedBy 1 0 (by decide)) (.setAdmin 1 2),
      .call (.signedBy 2 0 (by decide)) .acceptAdmin]
    let proposed : List (Input ℕ (Balances ℕ) 0) := [init,
      .call (.signedBy 1 0 (by decide)) (.proposeVault 1 1),
      .call (.signedBy 1 0 (by decide)) (.acceptVault 1)]
    ((m.run (.deployed fun _ _ => 0) nominated).admin = some 2 ∧
      (m.run (.deployed fun _ _ => 0) nominated).vault = some 2 ∧
      ¬(m.run (.deployed fun _ _ => 0) nominated).PrincipalsApart 0) ∧
    (m.run (.deployed fun _ _ => 0) proposed).admin = some 1 ∧
      (m.run (.deployed fun _ _ => 0) proposed).vault = some 1 ∧
      ¬(m.run (.deployed fun _ _ => 0) proposed).PrincipalsApart 0 := by
  refine ⟨⟨rfl, rfl, ?_⟩, rfl, rfl, ?_⟩
  · intro h
    exact h.distinct 2 rfl rfl
  · intro h
    exact h.distinct 1 rfl rfl

end Callora.Settlement
