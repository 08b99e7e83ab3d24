import Callora.Library.Machine
import Callora.Vault.Timelock

/-! The vault as a transactional machine: its entrypoints called in any order by anybody, between
which other holders of any token may pay each other or the vault. -/

namespace Callora.Vault
open Library

inductive Op (Address : Type) where
  | init (args : InitArgs Address)
  | deposit (caller : Address) (amount : I128)
  | deduct (caller : Address) (amount : I128) (requestId : ℕ)
  | batchDeduct (caller : Address) (items : List (I128 × ℕ))
  | setAuthorizedCaller (caller : Address)
  | pause (caller : Address)
  | unpause (caller : Address)
  | setMaxDeduct (caller : Address) (maxDeduct : I128)
  | setSettlement (caller settlement : Address)
  | setReserveCap (caller token : Address) (cap : I128)
  | pruneProcessedRequests (caller : Address) (ids : List String)
  | setAdmin (caller newAdmin : Address)
  | acceptAdmin
  | setTimelockWindow (caller : Address) (window : ℕ)
  | proposePause (caller : Address)
  | executePause (caller : Address)
  | cancelPause (caller : Address)
  | proposeUpgrade (caller : Address) (newWasmHash : WasmHash)
  | executeUpgrade (caller : Address)
  | cancelUpgrade (caller : Address)
  | proposeSweep (caller «to» : Address) (amount : I128)
  | executeSweep (caller : Address)
  | cancelSweep (caller : Address)
deriving DecidableEq

inductive Input (Address : Type) (contract : Address) where
  | call (env : Env Address contract) (op : Op Address)
  | thirdParty (token «from» «to» : Address) (amount : ℤ) (external : «from» ≠ contract)

variable {Address Ledger : Type} [DecidableEq Address] {contract : Address}
  {T : TokenContract Address Ledger} {env : Env Address contract} {s s' : State Address Ledger}
  {u : Unit}

def call (T : TokenContract Address Ledger) (env : Env Address contract) :
    Op Address → Tx Address Ledger Unit
  | .init args => init args
  | .deposit caller amount => deposit T env caller amount
  | .deduct caller amount requestId => deduct T env caller amount requestId
  | .batchDeduct caller items => batchDeduct T env caller items
  | .setAuthorizedCaller caller => setAuthorizedCaller env caller
  | .pause caller => pause env caller
  | .unpause caller => unpause env caller
  | .setMaxDeduct caller maxDeduct => setMaxDeduct env caller maxDeduct
  | .setSettlement caller settlement => setSettlement env caller settlement
  | .setReserveCap caller token cap => setReserveCap env caller token cap
  | .pruneProcessedRequests caller ids => pruneProcessedRequests env caller ids
  | .setAdmin caller newAdmin => setAdmin env caller newAdmin
  | .acceptAdmin => acceptAdmin env
  | .setTimelockWindow caller window => setTimelockWindow env caller window
  | .proposePause caller => proposePause env caller
  | .executePause caller => executePause env caller
  | .cancelPause caller => cancelPause env caller
  | .proposeUpgrade caller newWasmHash => proposeUpgrade env caller newWasmHash
  | .executeUpgrade caller => executeUpgrade env caller
  | .cancelUpgrade caller => cancelUpgrade env caller
  | .proposeSweep caller «to» amount => proposeSweep env caller «to» amount
  | .executeSweep caller => executeSweep T env caller
  | .cancelSweep caller => cancelSweep env caller

/-- The vault at `contract`, with third parties paying each other and the vault. -/
def vault (T : TokenContract Address Ledger) (contract : Address) :
    Machine (State Address Ledger) (Input Address contract) Unit where
  step s
    | .call env op => (call T env op).commit s
    | .thirdParty token «from» «to» amount _ =>
      (T.transfer s.ledger token «from» «to» amount).map fun ledger =>
        ((), { s with ledger := ledger })

abbrev LogEntry (Address Ledger : Type) (contract : Address) : Type :=
  Entry (State Address Ledger) (Input Address contract) Unit

variable (T) in
/-- `Effect T env s op s'`: in state `s` the call `op` passes its guards and leaves `s'`. -/
inductive Effect (env : Env Address contract) (s : State Address Ledger) :
    Op Address → State Address Ledger → Prop
  | init {args : InitArgs Address} (fresh : s.owner = none)
      (bounds : 0 < args.minDeposit.val ∧ 0 < args.maxDeduct.val ∧
        args.minDeposit.val ≤ args.maxDeduct.val) :
      Effect env s (.init args) { s with
        owner := some args.owner
        usdcToken := some args.usdcToken
        balance := some args.initialBalance
        authorizedCaller := some args.authorizedCaller
        minDeposit := some args.minDeposit
        revenuePool := args.revenuePool <|> s.revenuePool
        maxDeduct := some args.maxDeduct
        settlement := some args.settlement
        paused := some false
        admin := some args.owner }
  | deposit {caller usdc : Address} {amount newBal : I128} {ledger : Ledger}
      (deposit : Deposit T env s caller amount newBal usdc ledger) :
      Effect env s (.deposit caller amount) { s with balance := some newBal, ledger := ledger }
  | deduct {caller usdc settlement : Address} {amount newBal : I128} {requestId : ℕ}
      {ledger : Ledger} (charge : Charge T env s caller [amount] newBal usdc settlement ledger) :
      Effect env s (.deduct caller amount requestId)
        { s with balance := some newBal, ledger := ledger }
  | batchDeduct {caller usdc settlement : Address} {items : List (I128 × ℕ)} {newBal : I128}
      {ledger : Ledger}
      (charge : Charge T env s caller (items.map Prod.fst) newBal usdc settlement ledger) :
      Effect env s (.batchDeduct caller items)
        { s with balance := some newBal, ledger := ledger }
  | setAuthorizedCaller {caller : Address} (owner : s.ByOwner env caller) :
      Effect env s (.setAuthorizedCaller caller) { s with authorizedCaller := some caller }
  | pause {caller : Address} (owner : s.ByOwner env caller) :
      Effect env s (.pause caller) { s with paused := some true }
  | unpause {caller : Address} (owner : s.ByOwner env caller) :
      Effect env s (.unpause caller) { s with paused := some false }
  | setMaxDeduct {caller : Address} {maxDeduct : I128} (owner : s.ByOwner env caller)
      (positive : 0 < maxDeduct.val) :
      Effect env s (.setMaxDeduct caller maxDeduct) { s with maxDeduct := some maxDeduct }
  | setSettlement {caller settlement : Address} (owner : s.ByOwner env caller) :
      Effect env s (.setSettlement caller settlement) { s with settlement := some settlement }
  | setReserveCap {caller token : Address} {cap : I128} (owner : s.ByOwner env caller)
      (positive : 0 < cap.val) :
      Effect env s (.setReserveCap caller token cap) { s with
        reserveCap := s.reserveCap.set token cap
        events := s.events ++ [.reserveCapSet caller token (s.reserveCap token) cap] }
  | prune {caller : Address} {ids : List String} {markers events} (owner : s.ByOwner env caller)
      (pruned : (forM ids (pruneRequest caller) : Tx Address Ledger Unit).run s = .ok ()
        { s with processedRequest := markers, events := events }) :
      Effect env s (.pruneProcessedRequests caller ids)
        { s with processedRequest := markers, events := events }
  | setAdmin {caller newAdmin : Address} (admin : s.ByAdmin env caller) :
      Effect env s (.setAdmin caller newAdmin) { s with pendingAdmin := some newAdmin }
  | acceptAdmin {newAdmin : Address} (nominated : s.pendingAdmin = some newAdmin)
      (authorized : newAdmin ∈ env.signers) :
      Effect env s .acceptAdmin { s with admin := some newAdmin, pendingAdmin := none }
  | setTimelockWindow {caller : Address} {window : ℕ} (admin : s.ByAdmin env caller)
      (bounds : MIN_TIMELOCK_SECONDS ≤ window ∧ window ≤ MAX_TIMELOCK_SECONDS) :
      Effect env s (.setTimelockWindow caller window) { s with
        timelockWindow := some window
        events := s.events ++ [.timelockWindowChanged caller window window] }
  | proposePause {caller : Address} {proposal : PendingPause} (admin : s.ByAdmin env caller)
      (staged : s.Stages env () proposal) :
      Effect env s (.proposePause caller) { s with
        pendingPause := some proposal
        events := s.events ++
          [.pauseProposed caller proposal.proposedAt proposal.executeAfter] }
  | executePause {caller : Address} {proposal : PendingPause} (admin : s.ByAdmin env caller)
      (pending : s.pendingPause = some proposal) (due : proposal.executeAfter ≤ env.timestamp) :
      Effect env s (.executePause caller) { s with
        paused := some true
        pendingPause := none
        events := s.events ++ [.pauseExecuted caller env.timestamp, .vaultPaused caller] }
  | cancelPause {caller : Address} (admin : s.ByAdmin env caller) :
      Effect env s (.cancelPause caller) { s with
        pendingPause := none
        events := s.events ++ [.pauseCancelled caller s.pendingPause.isSome] }
  | proposeUpgrade {caller : Address} {newWasmHash : WasmHash} {proposal : PendingUpgrade}
      (admin : s.ByAdmin env caller) (staged : s.Stages env newWasmHash proposal) :
      Effect env s (.proposeUpgrade caller newWasmHash) { s with
        pendingUpgrade := some proposal
        events := s.events ++ [.upgradeProposed caller newWasmHash proposal.proposedAt
          proposal.executeAfter] }
  | executeUpgrade {caller : Address} {proposal : PendingUpgrade} (admin : s.ByAdmin env caller)
      (pending : s.pendingUpgrade = some proposal) (due : proposal.executeAfter ≤ env.timestamp)
      (uploaded : env.uploaded proposal.action) :
      Effect env s (.executeUpgrade caller) { s with
        wasm := some proposal.action
        contractVersion := some proposal.action
        pendingUpgrade := none
        events := s.events ++
          [.upgradeExecuted caller env.timestamp, .upgraded caller proposal.action] }
  | cancelUpgrade {caller : Address} (admin : s.ByAdmin env caller) :
      Effect env s (.cancelUpgrade caller) { s with
        pendingUpgrade := none
        events := s.events ++ [.upgradeCancelled caller s.pendingUpgrade.isSome] }
  | proposeSweep {caller «to» : Address} {amount : I128} {proposal : PendingSweep Address}
      (admin : s.ByAdmin env caller) (positive : 0 < amount.val)
      (staged : s.Stages env ⟨«to», amount⟩ proposal) :
      Effect env s (.proposeSweep caller «to» amount) { s with
        pendingSweep := some proposal
        events := s.events ++ [.sweepProposed caller «to» amount proposal.proposedAt
          proposal.executeAfter] }
  | executeSweep {caller usdc : Address} {proposal : PendingSweep Address} {ledger : Ledger}
      (admin : s.ByAdmin env caller) (pending : s.pendingSweep = some proposal)
      (due : proposal.executeAfter ≤ env.timestamp) (configured : s.usdcToken = some usdc)
      (funded : proposal.action.amount.val ≤ T.balance s.ledger usdc contract)
      (paid : T.transfer s.ledger usdc contract proposal.action.to proposal.action.amount.val =
        some ledger) :
      Effect env s (.executeSweep caller) { s with
        ledger := ledger
        pendingSweep := none
        events := s.events ++ [.sweepExecuted caller proposal.action.to proposal.action.amount
          env.timestamp, .distribute proposal.action.to proposal.action.amount] }
  | cancelSweep {caller : Address} (admin : s.ByAdmin env caller) :
      Effect env s (.cancelSweep caller) { s with
        pendingSweep := none
        events := s.events ++ [.sweepCancelled caller s.pendingSweep.isSome] }

theorem effect_of_call {op : Op Address} (h : (call T env op).run s = .ok u s') :
    Effect T env s op s' := by
  cases op with
  | init args =>
    obtain ⟨h₁, h₂, h₃, h₄, rfl⟩ := run_init_eq_ok.1 h
    exact .init h₁ ⟨h₂, h₃, h₄⟩
  | deposit caller amount =>
    obtain ⟨newBal, usdc, ledger, h₁, rfl⟩ := run_deposit_eq_ok.1 h
    exact .deposit h₁
  | deduct caller amount requestId =>
    obtain ⟨newBal, usdc, settlement, ledger, h₁, rfl⟩ := run_deduct_eq_ok.1 h
    exact .deduct h₁
  | batchDeduct caller items =>
    obtain ⟨newBal, usdc, settlement, ledger, h₁, rfl⟩ := run_batchDeduct_eq_ok.1 h
    exact .batchDeduct h₁
  | setAuthorizedCaller caller =>
    obtain ⟨h₁, rfl⟩ := run_setAuthorizedCaller_eq_ok.1 h
    exact .setAuthorizedCaller h₁
  | pause caller =>
    obtain ⟨h₁, rfl⟩ := run_pause_eq_ok.1 h
    exact .pause h₁
  | unpause caller =>
    obtain ⟨h₁, rfl⟩ := run_unpause_eq_ok.1 h
    exact .unpause h₁
  | setMaxDeduct caller maxDeduct =>
    obtain ⟨h₁, h₂, rfl⟩ := run_setMaxDeduct_eq_ok.1 h
    exact .setMaxDeduct h₁ h₂
  | setSettlement caller settlement =>
    obtain ⟨h₁, rfl⟩ := run_setSettlement_eq_ok.1 h
    exact .setSettlement h₁
  | setReserveCap caller token cap =>
    obtain ⟨h₁, h₂, rfl⟩ := run_setReserveCap_eq_ok.1 h
    exact .setReserveCap h₁ h₂
  | pruneProcessedRequests caller ids =>
    obtain ⟨h₁, h₂⟩ := run_pruneProcessedRequests_eq_ok.1 h
    obtain ⟨markers, events, rfl⟩ := frame_of_prune h₂
    exact .prune h₁ h₂
  | setAdmin caller newAdmin =>
    obtain ⟨h₁, rfl⟩ := run_setAdmin_eq_ok.1 h
    exact .setAdmin h₁
  | acceptAdmin =>
    obtain ⟨newAdmin, h₁, h₂, rfl⟩ := run_acceptAdmin_eq_ok.1 h
    exact .acceptAdmin h₁ h₂
  | setTimelockWindow caller window =>
    obtain ⟨h₁, h₂, h₃, rfl⟩ := run_setTimelockWindow_eq_ok.1 h
    exact .setTimelockWindow h₁ ⟨h₂, h₃⟩
  | proposePause caller =>
    obtain ⟨h₁, proposal, h₂, rfl⟩ := run_proposePause_eq_ok.1 h
    exact .proposePause h₁ h₂
  | executePause caller =>
    obtain ⟨h₁, proposal, h₂, h₃, rfl⟩ := run_executePause_eq_ok.1 h
    exact .executePause h₁ h₂ h₃
  | cancelPause caller =>
    obtain ⟨h₁, rfl⟩ := run_cancelPause_eq_ok.1 h
    exact .cancelPause h₁
  | proposeUpgrade caller newWasmHash =>
    obtain ⟨h₁, proposal, h₂, rfl⟩ := run_proposeUpgrade_eq_ok.1 h
    exact .proposeUpgrade h₁ h₂
  | executeUpgrade caller =>
    obtain ⟨h₁, proposal, h₂, h₃, h₄, rfl⟩ := run_executeUpgrade_eq_ok.1 h
    exact .executeUpgrade h₁ h₂ h₃ h₄
  | cancelUpgrade caller =>
    obtain ⟨h₁, rfl⟩ := run_cancelUpgrade_eq_ok.1 h
    exact .cancelUpgrade h₁
  | proposeSweep caller «to» amount =>
    obtain ⟨h₁, h₂, proposal, h₃, rfl⟩ := run_proposeSweep_eq_ok.1 h
    exact .proposeSweep h₁ h₂ h₃
  | executeSweep caller =>
    obtain ⟨h₁, proposal, usdc, ledger, h₂, h₃, h₄, h₅, h₆, rfl⟩ := run_executeSweep_eq_ok.1 h
    exact .executeSweep h₁ h₂ h₃ h₄ h₅ h₆
  | cancelSweep caller =>
    obtain ⟨h₁, rfl⟩ := run_cancelSweep_eq_ok.1 h
    exact .cancelSweep h₁

theorem effect_of_step {input : Input Address contract} {r : Unit}
    (h : (vault T contract).step s input = some (r, s')) :
    (∃ env op, input = .call env op ∧ Effect T env s op s') ∨
      ∃ token «from» «to» amount external ledger,
        input = .thirdParty token «from» «to» amount external ∧
        T.transfer s.ledger token «from» «to» amount = some ledger ∧
        s' = { s with ledger := ledger } := by
  cases input with
  | call env op =>
    have hrun := Call.commit_eq_some.1 h
    exact .inl ⟨env, op, rfl, effect_of_call hrun⟩
  | thirdParty token «from» «to» amount external =>
    obtain ⟨ledger, hpaid, hs⟩ := Option.map_eq_some_iff.1 h
    exact .inr ⟨token, «from», «to», amount, external, ledger, rfl, hpaid,
      (Prod.ext_iff.1 hs).2.symm⟩

theorem owner_of_step {input : Input Address contract} {r : Unit} (hs : s.owner ≠ none)
    (h : (vault T contract).step s input = some (r, s')) : s'.owner = s.owner := by
  obtain ⟨env, op, rfl, heff⟩ | ⟨token, «from», «to», amount, external, ledger, rfl, -, rfl⟩ :=
    effect_of_step h
  · cases heff with
    | init fresh => exact absurd fresh hs
    | _ => rfl
  · rfl

/-! Charges, single or batched. -/

def Op.charge : Op Address → Option (Address × List (I128 × ℕ))
  | .deduct caller amount requestId => some (caller, [(amount, requestId)])
  | .batchDeduct caller items => some (caller, items)
  | _ => none

def State.Charges (T : TokenContract Address Ledger) (s : State Address Ledger)
    (env : Env Address contract) (op : Op Address) : Prop :=
  ∃ caller items, op.charge = some (caller, items) ∧
    s.TakesCharge T env caller (items.map Prod.fst)

theorem run_charge_eq_ok {op : Op Address} {caller : Address} {items : List (I128 × ℕ)}
    (hop : op.charge = some (caller, items)) :
    (call T env op).run s = .ok u s' ↔ ∃ newBal usdc settlement ledger,
      Charge T env s caller (items.map Prod.fst) newBal usdc settlement ledger ∧
      s' = { s with balance := some newBal, ledger := ledger } := by
  cases op with
  | deduct caller amount requestId =>
    cases hop
    exact run_deduct_eq_ok
  | batchDeduct caller items =>
    cases hop
    exact run_batchDeduct_eq_ok
  | _ => cases hop

theorem charge_succeeds {op : Op Address} {caller : Address} {items : List (I128 × ℕ)}
    (hop : op.charge = some (caller, items)) :
    (∃ s', (call T env op).run s = .ok () s') ↔ s.Charges T env op := by
  have hcharges : s.Charges T env op ↔ s.TakesCharge T env caller (items.map Prod.fst) := by
    constructor
    · rintro ⟨caller', items', hop', htakes⟩
      obtain ⟨rfl, rfl⟩ := Prod.mk.inj (Option.some.inj (hop.symm.trans hop'))
      exact htakes
    · intro htakes
      exact ⟨caller, items, hop, htakes⟩
  rw [hcharges, ← exists_charge_iff]
  constructor
  · rintro ⟨s', h⟩
    obtain ⟨newBal, usdc, settlement, ledger, hcharge, -⟩ := (run_charge_eq_ok hop).1 h
    exact ⟨newBal, usdc, settlement, ledger, hcharge⟩
  · rintro ⟨newBal, usdc, settlement, ledger, hcharge⟩
    exact ⟨_, (run_charge_eq_ok hop).2 ⟨newBal, usdc, settlement, ledger, hcharge, rfl⟩⟩

theorem pos_of_charge {op : Op Address} {caller : Address} {items : List (I128 × ℕ)}
    (hop : op.charge = some (caller, items)) (h : (call T env op).run s = .ok u s') :
    ∀ a ∈ items.map Prod.fst, 0 < a.val := by
  obtain ⟨newBal, usdc, settlement, ledger, hcharge, -⟩ := (run_charge_eq_ok hop).1 h
  exact hcharge.accepted.pos

/-! A small instance. -/

def ownedBy1 (initialBalance : I128) : InitArgs ℕ :=
  ⟨1, 4, initialBalance, 2, ⟨1, by decide⟩, none, ⟨1000, by decide⟩, 3⟩

def hundredOf (holder : ℕ) : Balances ℕ := fun token who =>
  if token = 4 ∧ who = holder then 100 else 0

def backedVault : State ℕ (Balances ℕ) where
  owner := some 1
  usdcToken := some 4
  balance := some ⟨100, by decide⟩
  authorizedCaller := some 2
  minDeposit := some ⟨1, by decide⟩
  maxDeduct := some ⟨1000, by decide⟩
  settlement := some 3
  paused := some false
  admin := some 1
  ledger := hundredOf 0

end Callora.Vault
