import Callora.Library.Handover
import Callora.Settlement.Run
import Callora.Vault.Run
import Callora.RevenuePool.Run
import Callora.Checkpoint.Run

/-! The admin of each contract holds an office that passes by nomination and acceptance. The four
contracts write the two steps differently, and keep the same office. -/

namespace Callora
open Library

namespace Vault
variable {Address Ledger : Type} [DecidableEq Address] {contract : Address}
  {T : TokenContract Address Ledger} {env : Env Address contract} {s s' : State Address Ledger}

def Op.officeAct : Op Address → Option (OfficeAct Address)
  | .setAdmin caller newAdmin => some (.nominate caller newAdmin)
  | .acceptAdmin => some .accept
  | _ => none

def State.office (s : State Address Ledger) : Office Address := ⟨s.admin, s.pendingAdmin⟩

def OfficeVacant (s : State Address Ledger) : Prop := s.owner = none → s.office = ⟨none, none⟩

theorem officeStep_of_effect {op : Op Address} (hs : OfficeVacant s) (h : Effect T env s op s') :
    OfficeStep (· ∈ env.signers) op.officeAct s.office s'.office := by
  unfold State.office
  cases h with
  | init fresh =>
    obtain ⟨hadmin, -⟩ := Office.mk.inj (hs fresh)
    rw [hadmin]
    exact .install
  | setAdmin admin =>
    rw [admin.2]
    exact .nominate admin.1
  | acceptAdmin nominated authorized =>
    rw [nominated]
    exact .accept authorized
  | _ => exact .keep

theorem officeVacant_of_effect {op : Op Address} (hs : OfficeVacant s) (h : Effect T env s op s') :
    OfficeVacant s' := by
  intro howner
  cases h with
  | init => cases howner
  | setAdmin admin =>
    have hvacant := (Office.mk.inj (hs howner)).1
    rw [admin.2] at hvacant
    cases hvacant
  | acceptAdmin nominated =>
    have hvacant := (Office.mk.inj (hs howner)).2
    rw [nominated] at hvacant
    cases hvacant
  | _ => exact hs howner

def adminOffice (T : TokenContract Address Ledger) (contract : Address) :
    Handover (vault T contract) Address where
  office := State.office
  act
    | .call _ op => op.officeAct
    | .thirdParty .. => none
  authorizes
    | .call env _, who => who ∈ env.signers
    | .thirdParty .., _ => False
  valid := OfficeVacant
  valid_step hs h := by
    obtain ⟨env, op, rfl, heff⟩ | ⟨_, _, _, _, _, _, rfl, -, rfl⟩ := effect_of_step h
    · exact officeVacant_of_effect hs heff
    · exact hs
  office_step hs h := by
    obtain ⟨env, op, rfl, heff⟩ | ⟨_, _, _, _, _, _, rfl, -, rfl⟩ := effect_of_step h
    · exact officeStep_of_effect hs heff
    · exact .keep

def AcceptedBy : Input Address contract → Address → Prop
  | .call env .acceptAdmin, who => who ∈ env.signers
  | _, _ => False

theorem accepts_adminOffice (T : TokenContract Address Ledger) (contract : Address) :
    (adminOffice T contract).Accepts AcceptedBy where
  sound {s s' i o} hact h := by
    rcases effect_of_step h with ⟨env, op, rfl, heff⟩ | ⟨_, _, _, _, _, _, rfl, -, -⟩
    · cases heff with
      | acceptAdmin nominated authorized => exact ⟨_, nominated, authorized⟩
      | _ => cases hact
    · cases hact
  complete {s i a b} hact ha hb h := by
    rcases i with ⟨env, op⟩ | _
    · cases op with
      | acceptAdmin =>
        have hrun : ∃ s', (acceptAdmin env : Tx Address Ledger Unit).run s = .ok () s' :=
          ⟨_, run_acceptAdmin_eq_ok.2 ⟨b, hb, h, rfl⟩⟩
        exact Call.commit_isSome.2 hrun
      | _ => exact h.elim
    · exact h.elim

end Vault

namespace Settlement
variable {Address Ledger : Type} [LinearOrder Address] {contract : Address}
  {T : TokenContract Address Ledger} {env : Env Address contract} {s s' : State Address Ledger}

def Op.officeAct : Op Address → Option (OfficeAct Address)
  | .setAdmin caller newAdmin => some (.nominate caller newAdmin)
  | .acceptAdmin => some .accept
  | .cancelAdminTransfer _ => some .cancel
  | _ => none

def State.office (s : State Address Ledger) : Office Address := ⟨s.admin, s.pendingAdmin⟩

theorem officeStep_of_effect {op : Op Address} {r : Ret} (h : Effect T env s op r s') :
    OfficeStep (· ∈ env.signers) op.officeAct s.office s'.office := by
  unfold State.office
  cases h with
  | init authorized fresh =>
    rw [fresh]
    exact .install
  | setAdmin admin =>
    rw [admin.2]
    exact .nominate admin.1
  | acceptAdmin nominated authorized =>
    rw [nominated]
    exact .accept authorized
  | cancelAdminTransfer => exact .cancel
  | _ => exact .keep

def adminOffice (T : TokenContract Address Ledger) (contract : Address) :
    Handover (settlement T contract) Address where
  office := State.office
  act
    | .call _ op => op.officeAct
    | .ledgerMoves _ => none
  authorizes
    | .call env _, who => who ∈ env.signers
    | .ledgerMoves _, _ => False
  valid _ := True
  valid_step _ _ := trivial
  office_step _ h := by
    obtain ⟨env, op, rfl, heff⟩ | ⟨ledger, rfl, -, rfl⟩ := effect_of_step h
    · exact officeStep_of_effect heff
    · exact .keep

def AcceptedBy : Input Address Ledger contract → Address → Prop
  | .call env .acceptAdmin, who => who ∈ env.signers
  | _, _ => False

theorem accepts_adminOffice (T : TokenContract Address Ledger) (contract : Address) :
    (adminOffice T contract).Accepts AcceptedBy where
  sound {s s' i o} hact h := by
    rcases effect_of_step h with ⟨env, op, rfl, heff⟩ | ⟨_, rfl, -, -⟩
    · cases heff with
      | acceptAdmin nominated authorized => exact ⟨_, nominated, authorized⟩
      | _ => cases hact
    · cases hact
  complete {s i a b} hact ha hb h := by
    rcases i with ⟨env, op⟩ | _
    · cases op with
      | acceptAdmin =>
        obtain ⟨s', hrun⟩ : ∃ s', (acceptAdmin env : Tx Address Ledger Unit).run s = .ok () s' :=
          ⟨_, run_acceptAdmin_eq_ok.2 ⟨b, a, hb, h, ha, rfl⟩⟩
        have hcall : (call T env .acceptAdmin).run s = .ok .unit s' :=
          run_returning_eq_ok.2 ⟨(), hrun, rfl⟩
        exact Option.isSome_iff_exists.2 ⟨_, Call.commit_eq_some.2 hcall⟩
      | _ => exact h.elim
    · exact h.elim

end Settlement

namespace RevenuePool
variable {Address Ledger : Type} [DecidableEq Address] {contract : Address}
  {T : TokenContract Address Ledger} {env : Env Address contract} {s s' : State Address Ledger}

def Op.officeAct : Op Address → Option (OfficeAct Address)
  | .setAdmin caller newAdmin => some (.nominate caller newAdmin)
  | .acceptAdmin _ => some .accept
  | .claimAdmin _ => some .accept
  | .cancelAdminTransfer _ => some .cancel
  | _ => none

def State.office (s : State Address Ledger) : Office Address := ⟨s.admin, s.pendingAdmin⟩

omit [DecidableEq Address] in
theorem officeStep_of_effect {op : Op Address} (h : Effect T env s op s') :
    OfficeStep (· ∈ env.signers) op.officeAct s.office s'.office := by
  unfold State.office
  cases h with
  | init fresh =>
    rw [fresh]
    exact .install
  | setAdmin admin =>
    rw [admin.2]
    exact .nominate admin.1
  | acceptAdmin authorized nominated | claimAdmin authorized nominated =>
    rw [nominated]
    exact .accept authorized
  | cancelAdminTransfer => exact .cancel
  | _ => exact .keep

def adminOffice (T : TokenContract Address Ledger) (contract : Address) :
    Handover (revenuePool T contract) Address where
  office := State.office
  act
    | .call _ op => op.officeAct
    | .thirdParty .. => none
  authorizes
    | .call env _, who => who ∈ env.signers
    | .thirdParty .., _ => False
  valid _ := True
  valid_step _ _ := trivial
  office_step _ h := by
    obtain ⟨env, op, rfl, heff⟩ | ⟨_, _, _, _, _, _, rfl, -, rfl⟩ := effect_of_step h
    · exact officeStep_of_effect heff
    · exact .keep

def AcceptedBy : Input Address contract → Address → Prop
  | .call env (.acceptAdmin caller), who | .call env (.claimAdmin caller), who =>
    caller = who ∧ who ∈ env.signers
  | _, _ => False

theorem accepts_adminOffice (T : TokenContract Address Ledger) (contract : Address) :
    (adminOffice T contract).Accepts AcceptedBy where
  sound {s s' i o} hact h := by
    rcases effect_of_step h with ⟨env, op, rfl, heff⟩ | ⟨_, _, _, _, _, _, rfl, -, -⟩
    · cases heff with
      | acceptAdmin authorized nominated | claimAdmin authorized nominated =>
        exact ⟨_, nominated, rfl, authorized⟩
      | _ => cases hact
    · cases hact
  complete {s i a b} hact ha hb h := by
    rcases i with ⟨env, op⟩ | _
    · cases op with
      | acceptAdmin caller | claimAdmin caller =>
        obtain ⟨rfl, hsigned⟩ := h
        have hrun : ∃ s', (acceptAdmin env caller : Tx Address Ledger Unit).run s = .ok () s' :=
          ⟨_, run_acceptAdmin_eq_ok.2 ⟨hsigned, hb, rfl⟩⟩
        exact Call.commit_isSome.2 hrun
      | _ => exact h.elim
    · exact h.elim

end RevenuePool

namespace Checkpoint
variable {Address : Type} [DecidableEq Address] {contract : Address} {env : Env Address contract}
  {s s' : State Address}

def Op.officeAct : Op Address → Option (OfficeAct Address)
  | .setAdmin caller newAdmin => some (.nominate caller newAdmin)
  | .acceptAdmin _ => some .accept
  | .cancelAdminTransfer _ => some .cancel
  | _ => none

def State.office (s : State Address) : Office Address := ⟨s.admin, s.pendingAdmin⟩

omit [DecidableEq Address] in
theorem office_foldl_append (timestamp : ℕ) (items : List (Item Address)) :
    (items.foldl (State.append timestamp) s).office = s.office := by
  induction items generalizing s with
  | nil => rfl
  | cons item items ih =>
    rw [List.foldl_cons, ih]
    rfl

omit [DecidableEq Address] in
theorem officeStep_of_effect {op : Op Address} {r : Ret} (h : Effect env s op r s') :
    OfficeStep (· ∈ env.signers) op.officeAct s.office s'.office := by
  cases h with
  | init authorized fresh =>
    unfold State.office
    rw [fresh]
    exact .install
  | setAdmin admin =>
    unfold State.office
    rw [admin.2]
    exact .nominate admin.1
  | acceptAdmin authorized nominated =>
    unfold State.office
    rw [nominated]
    exact .accept authorized
  | cancelAdminTransfer => exact .cancel
  | batchCreateCheckpoints =>
    rw [office_foldl_append]
    exact .keep
  | createCheckpoint | upgrade => exact .keep

def adminOffice (contract : Address) : Handover (checkpoint contract) Address where
  office := State.office
  act i := i.op.officeAct
  authorizes i who := who ∈ i.env.signers
  valid _ := True
  valid_step _ _ := trivial
  office_step _ h := officeStep_of_effect (effect_of_step h)

def AcceptedBy : Input Address contract → Address → Prop
  | ⟨env, .acceptAdmin caller⟩, who => caller = who ∧ who ∈ env.signers
  | _, _ => False

theorem accepts_adminOffice (contract : Address) :
    (adminOffice contract).Accepts AcceptedBy where
  sound {s s' i o} hact h := by
    obtain ⟨env, op⟩ := i
    have heff := effect_of_step h
    cases heff with
    | acceptAdmin authorized nominated => exact ⟨_, nominated, rfl, authorized⟩
    | _ => cases hact
  complete {s i a b} hact ha hb h := by
    obtain ⟨env, op⟩ := i
    cases op with
    | acceptAdmin caller =>
      obtain ⟨rfl, hsigned⟩ := h
      obtain ⟨s', hrun⟩ : ∃ s', (acceptAdmin env caller : Tx Address Unit).run s = .ok () s' :=
        ⟨_, run_acceptAdmin_eq_ok.2 ⟨hsigned, hb, a, ha, rfl⟩⟩
      have hcall : (call env (.acceptAdmin caller)).run s = .ok .unit s' :=
        Call.run_bind_eq_ok.2 ⟨(), s', hrun, rfl⟩
      exact Option.isSome_iff_exists.2 ⟨_, Call.commit_eq_some.2 hcall⟩
    | _ => exact h.elim

end Checkpoint

/-- In all four contracts the admin changes only by consent: of the admin in office, who nominated
the successor last, and of the successor, who accepts. -/
theorem admin_passes_by_consent {Address Ledger : Type} [LinearOrder Address]
    (T : TokenContract Address Ledger) (contract : Address) (ledger : Ledger) :
    (Vault.adminOffice T contract).Consensual (.deployed ledger) ∧
      (Settlement.adminOffice T contract).Consensual (.deployed ledger) ∧
      (RevenuePool.adminOffice T contract).Consensual (.deployed ledger) ∧
      (Checkpoint.adminOffice contract).Consensual .deployed :=
  ⟨Handover.consensual (fun _ => rfl) rfl, Handover.consensual trivial rfl,
    Handover.consensual trivial rfl, Handover.consensual trivial rfl⟩

/-- In all four contracts a nomination binds: in every reachable state an acceptance succeeds
exactly if it is that of the one whom the admin then in office nominated last, and the office has
seen no other nomination, acceptance or cancellation since. -/
theorem nominations_bind {Address Ledger : Type} [LinearOrder Address]
    (T : TokenContract Address Ledger) (contract : Address) (ledger : Ledger) :
    (Vault.adminOffice T contract).Binding Vault.AcceptedBy (.deployed ledger) ∧
      (Settlement.adminOffice T contract).Binding Settlement.AcceptedBy (.deployed ledger) ∧
      (RevenuePool.adminOffice T contract).Binding RevenuePool.AcceptedBy (.deployed ledger) ∧
      (Checkpoint.adminOffice contract).Binding Checkpoint.AcceptedBy .deployed :=
  ⟨Handover.binding (fun _ => rfl) rfl (Vault.accepts_adminOffice T contract),
    Handover.binding trivial rfl (Settlement.accepts_adminOffice T contract),
    Handover.binding trivial rfl (RevenuePool.accepts_adminOffice T contract),
    Handover.binding trivial rfl (Checkpoint.accepts_adminOffice contract)⟩

end Callora
