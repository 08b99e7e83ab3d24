import Callora.Vault.Solvency

/-! The rescue of tokens that were sent to the vault by mistake. No entrypoint of the vault calls
the helper yet; what it is meant to be called with is the tracked balance as the part that must
stay, and then it takes the idle balance and nothing more. -/

namespace Callora.Vault
open Library

variable {Address Ledger : Type} {contract : Address} {s s' : State Address Ledger}
  {token «to» : Address} {amount : I128} {protectedBalance : Option I128} {u : Unit}

def availableBalance (onLedger : ℤ) (protectedBalance : Option I128) : Tx Address Ledger ℤ :=
  match protectedBalance with
  | some kept => do
    let available : I128 ← Call.okOr (MachineInt.narrow (onLedger - kept.val)) .insufficientBalance
    pure available.val
  | none => pure onLedger

def rescueFunds (T : TokenContract Address Ledger) (contract tokenAddress «to» : Address)
    (amount : I128) (protectedBalance : Option I128) : Tx Address Ledger Unit := do
  Call.ensure (¬amount.val ≤ 0) .amountNotPositive
  let s ← Call.load
  let available ← availableBalance (T.balance s.ledger tokenAddress contract) protectedBalance
  Call.ensure (¬available < amount.val) .insufficientBalance
  transfer T tokenAddress contract «to» amount

/-- What the vault holds of a token, of which the protected part is owed to somebody. -/
def State.reserve (T : TokenContract Address Ledger) (contract token : Address)
    (protectedBalance : Option I128) (s : State Address Ledger) : Custody ℤ :=
  ⟨(protectedBalance.map MachineInt.val).getD 0, T.balance s.ledger token contract⟩

theorem run_availableBalance_eq_ok {onLedger available : ℤ} :
    (availableBalance onLedger protectedBalance).run s = .ok available s' ↔
      available = onLedger - (protectedBalance.map MachineInt.val).getD 0 ∧
        (protectedBalance ≠ none → ∃ a : I128, a.val = available) ∧ s = s' := by
  cases protectedBalance with
  | none =>
    unfold availableBalance
    rw [Call.run_pure_eq_ok, Option.map_none, Option.getD_none, Int.sub_zero,
      eq_comm (a := onLedger)]
    simp
  | some kept =>
    simp only [availableBalance, Call.run_bind_eq_ok, Call.run_okOr_eq_ok,
      MachineInt.narrow_eq_some, Call.run_pure_eq_ok, Option.map_some, Option.getD_some]
    constructor
    · intro h
      rcases h with ⟨a, _, ⟨ha, rfl⟩, rfl, rfl⟩
      exact ⟨ha, fun _ => ⟨a, rfl⟩, rfl⟩
    · intro h
      rcases h with ⟨havailable, hfits, rfl⟩
      rcases hfits (Option.some_ne_none _) with ⟨a, ha⟩
      exact ⟨a, s, ⟨ha.trans havailable, rfl⟩, ha, rfl⟩

theorem run_rescueFunds_eq_ok {T : TokenContract Address Ledger} :
    (rescueFunds T contract token «to» amount protectedBalance).run s = .ok u s' ↔
      0 < amount.val ∧
        (protectedBalance ≠ none →
          ∃ a : I128, a.val = (s.reserve T contract token protectedBalance).surplus) ∧
        amount.val ≤ (s.reserve T contract token protectedBalance).surplus ∧
        ∃ ledger, T.transfer s.ledger token contract «to» amount.val = some ledger ∧
          s' = { s with ledger := ledger } := by
  simp only [rescueFunds, Call.run_bind_eq_ok, Call.run_ensure_eq_ok, Call.run_load_eq_ok,
    run_availableBalance_eq_ok, run_transfer_eq_ok, existsAndEq, true_and, and_assoc,
    exists_and_left, exists_const, not_le, not_lt, eq_comm (a := s')]
  rfl

variable [DecidableEq Address] {T : ExactToken Address Ledger}

theorem exists_rescue_iff
    (howed : 0 ≤ (s.reserve T.toTokenContract contract token protectedBalance).owed)
    (hfits : T.balance s.ledger token contract ≤ I128.max.val) :
    (∃ s', (rescueFunds T.toTokenContract contract token «to» amount protectedBalance).run s =
        .ok () s') ↔
      0 < amount.val ∧
        amount.val ≤ (s.reserve T.toTokenContract contract token protectedBalance).surplus := by
  simp only [run_rescueFunds_eq_ok]
  constructor
  · intro h
    rcases h with ⟨_, hpos, -, hcovered, -⟩
    exact ⟨hpos, hcovered⟩
  · intro h
    rcases h with ⟨hpos, hcovered⟩
    have hsurplus : (s.reserve T.toTokenContract contract token protectedBalance).surplus ≤
        T.balance s.ledger token contract := Int.sub_le_self _ howed
    have hvalue : ∃ a : I128,
        a.val = (s.reserve T.toTokenContract contract token protectedBalance).surplus := by
      have hlow := amount.lo_le
      exact MachineInt.exists_val_eq.2 ⟨hlow.trans hcovered, hsurplus.trans hfits⟩
    have hpays := (T.transfer_isSome s.ledger token contract «to» amount.val).2
      ⟨hpos.le, hcovered.trans hsurplus⟩
    rcases Option.isSome_iff_exists.1 hpays with ⟨ledger, hpaid⟩
    exact ⟨_, hpos, fun _ => hvalue, hcovered, ledger, hpaid, rfl⟩

theorem reserve_of_rescue (hto : «to» ≠ contract)
    (h : (rescueFunds T.toTokenContract contract token «to» amount protectedBalance).run s =
      .ok u s') :
    s' = { s with ledger := s'.ledger } ∧
      s'.reserve T.toTokenContract contract token protectedBalance =
        (s.reserve T.toTokenContract contract token protectedBalance).take amount.val := by
  rcases run_rescueFunds_eq_ok.1 h with ⟨-, -, -, ledger, hpaid, rfl⟩
  have hheld := T.balance_sender hpaid
  rw [if_neg hto.symm, Int.add_zero] at hheld
  refine ⟨rfl, ?_⟩
  unfold State.reserve Custody.take
  rw [hheld]

/-! Several rescues. -/

def rescueAll (T : TokenContract Address Ledger) (contract tokenAddress : Address)
    (protectedBalance : Option I128) (rescues : List (Address × I128)) : Tx Address Ledger Unit :=
  forM rescues fun rescue =>
    rescueFunds T contract tokenAddress rescue.1 rescue.2 protectedBalance

def rescued (rescues : List (Address × I128)) : ℤ := (rescues.map fun rescue => rescue.2.val).sum

omit [DecidableEq Address] in
theorem rescued_cons (rescue : Address × I128) (rescues : List (Address × I128)) :
    rescued (rescue :: rescues) = rescue.2.val + rescued rescues := by
  unfold rescued
  rw [List.map_cons, List.sum_cons]

omit [DecidableEq Address] in
theorem rescued_nonneg {rescues : List (Address × I128)}
    (h : ∀ rescue ∈ rescues, 0 < rescue.2.val) : 0 ≤ rescued rescues := by
  apply List.sum_nonneg
  intro a ha
  rcases List.mem_map.1 ha with ⟨rescue, hrescue, rfl⟩
  exact (h rescue hrescue).le

theorem reserve_of_rescueAll {rescues : List (Address × I128)}
    (hext : ∀ rescue ∈ rescues, rescue.1 ≠ contract)
    (h : (rescueAll T.toTokenContract contract token protectedBalance rescues).run s = .ok u s') :
    s' = { s with ledger := s'.ledger } ∧
      s'.reserve T.toTokenContract contract token protectedBalance =
        (s.reserve T.toTokenContract contract token protectedBalance).take (rescued rescues) := by
  unfold rescueAll at h
  induction rescues generalizing s with
  | nil =>
    obtain rfl := Call.run_forM_nil_eq_ok.1 h
    refine ⟨rfl, ?_⟩
    unfold Custody.take rescued
    rw [List.map_nil, List.sum_nil, Int.sub_zero]
  | cons rescue rescues ih =>
    rcases List.forall_mem_cons.1 hext with ⟨hfirst, hothers⟩
    rcases Call.run_forM_cons_eq_ok.1 h with ⟨t, hrun, hrest⟩
    rcases reserve_of_rescue hfirst hrun with ⟨ht, htaken⟩
    rcases ih hothers hrest with ⟨hs', hrests⟩
    constructor
    · rw [hs', ht]
    · rw [hrests, htaken, rescued_cons, Custody.take_take]

section
variable (hs : (s.reserve T.toTokenContract contract token protectedBalance).Solvent)
  (hfits : T.balance s.ledger token contract ≤ I128.max.val)
include hs hfits

theorem solvent_of_rescue (hto : «to» ≠ contract)
    (h : (rescueFunds T.toTokenContract contract token «to» amount protectedBalance).run s =
      .ok () s') :
    (s'.reserve T.toTokenContract contract token protectedBalance).Solvent ∧
      T.balance s'.ledger token contract ≤ I128.max.val := by
  have hreserve := (reserve_of_rescue hto h).2
  have hamount := (exists_rescue_iff hs.1 hfits).1 ⟨s', h⟩
  have hheld : T.balance s'.ledger token contract =
      T.balance s.ledger token contract - amount.val := congrArg Custody.held hreserve
  constructor
  · rw [hreserve]
    exact (Custody.solvent_take_iff hs).2 hamount.2
  · rw [hheld]
    exact (Int.sub_le_self _ hamount.1.le).trans hfits

theorem exists_rescueAll_iff {rescues : List (Address × I128)}
    (hext : ∀ rescue ∈ rescues, rescue.1 ≠ contract) :
    (∃ s', (rescueAll T.toTokenContract contract token protectedBalance rescues).run s =
        .ok () s') ↔
      (∀ rescue ∈ rescues, 0 < rescue.2.val) ∧
        rescued rescues ≤
          (s.reserve T.toTokenContract contract token protectedBalance).surplus := by
  unfold rescueAll
  induction rescues generalizing s with
  | nil =>
    apply iff_of_true
    · exact ⟨s, Call.run_forM_nil_eq_ok.2 rfl⟩
    · exact ⟨List.forall_mem_nil _, hs.surplus_nonneg⟩
  | cons rescue rescues ih =>
    rcases List.forall_mem_cons.1 hext with ⟨hfirst, hothers⟩
    have hone : (∃ t, (rescueFunds T.toTokenContract contract token rescue.1 rescue.2
        protectedBalance).run s = .ok () t) ↔ 0 < rescue.2.val ∧ rescue.2.val ≤
          (s.reserve T.toTokenContract contract token protectedBalance).surplus :=
      exists_rescue_iff hs.1 hfits
    have hrest {t : State Address Ledger} (hrun : (rescueFunds T.toTokenContract contract token
        rescue.1 rescue.2 protectedBalance).run s = .ok () t) :
        (∃ s', (forM rescues fun rescue => rescueFunds T.toTokenContract contract token rescue.1
          rescue.2 protectedBalance).run t = .ok () s') ↔
        (∀ rescue ∈ rescues, 0 < rescue.2.val) ∧ rescued rescues ≤
          (s.reserve T.toTokenContract contract token protectedBalance).surplus -
            rescue.2.val := by
      have hmid := solvent_of_rescue hs hfits hfirst hrun
      have hthen := ih hmid.1 hmid.2 hothers
      rw [(reserve_of_rescue hfirst hrun).2, Custody.surplus_take] at hthen
      exact hthen
    simp only [Call.run_forM_cons_eq_ok, rescued_cons, List.forall_mem_cons]
    constructor
    · intro h
      rcases h with ⟨s', t, hrun, hthen⟩
      have hfirst' := hone.1 ⟨t, hrun⟩
      have hrest' := (hrest hrun).1 ⟨s', hthen⟩
      exact ⟨⟨hfirst'.1, hrest'.1⟩, add_le_of_le_sub_left hrest'.2⟩
    · intro h
      rcases h with ⟨⟨hpos, hall⟩, htotal⟩
      have hcovered := (le_add_of_nonneg_right (rescued_nonneg hall)).trans htotal
      rcases hone.2 ⟨hpos, hcovered⟩ with ⟨t, hrun⟩
      rcases (hrest hrun).2 ⟨hall, le_sub_left_of_add_le htotal⟩ with ⟨s', hthen⟩
      exact ⟨s', t, hrun, hthen⟩

end

/-- Of a solvent vault the rescues recover exactly the idle balance that the dry run reports,
however they are split: they all succeed if each takes something and they take no more than that
together, and leave a solvent vault with the same storage, of which the dry run reports the rest. -/
theorem rescues_take_idle (T : ExactToken Address Ledger) {contract usdc : Address}
    {s : State Address Ledger} (hs : s.Solvent T.toTokenContract contract)
    (hheld : s.onLedger T.toTokenContract contract ≤ I128.max.val)
    (husdc : s.usdcToken = some usdc) (rescues : List (Address × I128))
    (hext : ∀ rescue ∈ rescues, rescue.1 ≠ contract) :
    let rescue := rescueAll T.toTokenContract contract usdc (some s.tracked) rescues
    let dryRun := dryRunSweepIdleBalance T.toTokenContract contract
    ∃ preview, dryRun.run s = .ok preview s ∧
      ((∃ s', rescue.run s = .ok () s') ↔ (∀ rescue ∈ rescues, 0 < rescue.2.val) ∧
        rescued rescues ≤ preview.idleBalance.val) ∧
      ∀ s', rescue.run s = .ok () s' → s' = { s with ledger := s'.ledger } ∧
        s'.Solvent T.toTokenContract contract ∧ ∃ preview', dryRun.run s' = .ok preview' s' ∧
          preview'.idleBalance.val = preview.idleBalance.val - rescued rescues := by
  intro rescue dryRun
  have hreserve : s.reserve T.toTokenContract contract usdc (some s.tracked) =
      s.custody T.toTokenContract contract := (State.custody_eq husdc).symm
  have hsolvent := hs.2
  have hfits : T.balance s.ledger usdc contract ≤ I128.max.val := by
    have hcustody : (s.custody T.toTokenContract contract).held ≤ I128.max.val := hheld
    rw [State.custody_eq husdc] at hcustody
    exact hcustody
  rw [← hreserve] at hsolvent
  have hexists := exists_rescueAll_iff hsolvent hfits hext
  rcases idleBalance_eq_surplus hs hheld with ⟨preview, hpreview, hidle⟩
  rw [← hreserve] at hidle
  refine ⟨preview, hpreview, ?_, ?_⟩
  · rw [hidle]
    exact hexists
  · intro s' hrun
    rcases reserve_of_rescueAll hext hrun with ⟨hs', htaken⟩
    have hgone := hexists.1 ⟨s', hrun⟩
    have hinit : s'.Initialized := by
      rw [hs']
      exact ⟨hs.1.owner, hs.1.usdcToken, hs.1.balance⟩
    have hcustody : s'.custody T.toTokenContract contract =
        (s.reserve T.toTokenContract contract usdc (some s.tracked)).take (rescued rescues) := by
      rw [← htaken, hs']
      exact State.custody_eq husdc
    have hstill : s'.Solvent T.toTokenContract contract := by
      refine ⟨hinit, ?_⟩
      rw [hcustody]
      exact (Custody.solvent_take_iff hsolvent).2 hgone.2
    have hless : s'.onLedger T.toTokenContract contract ≤ I128.max.val := by
      rw [show s'.onLedger T.toTokenContract contract = _ from congrArg Custody.held hcustody]
      exact (Int.sub_le_self _ (rescued_nonneg hgone.1)).trans hfits
    rcases idleBalance_eq_surplus hstill hless with ⟨preview', hpreview', hidle'⟩
    refine ⟨hs', hstill, preview', hpreview', ?_⟩
    rw [hidle', hcustody, Custody.surplus_take, hidle]

theorem rescues_take_idle_small :
    let s : State ℕ (Balances ℕ) := { backedVault with balance := some ⟨60, by decide⟩ }
    let rescue := rescueAll (balanceToken ℕ).toTokenContract 0 4 (some s.tracked)
      [(8, ⟨15, by decide⟩), (9, ⟨25, by decide⟩)]
    ∃ s', rescue.run s = .ok () s' ∧ s'.Solvent (balanceToken ℕ).toTokenContract 0 := by
  intro s rescue
  have hs : s.Solvent (balanceToken ℕ).toTokenContract 0 := by decide
  have hheld : s.onLedger (balanceToken ℕ).toTokenContract 0 ≤ I128.max.val := by decide
  rcases rescues_take_idle (balanceToken ℕ) hs hheld rfl
    [(8, ⟨15, by decide⟩), (9, ⟨25, by decide⟩)] (by decide) with ⟨preview, hpreview, hiff, hafter⟩
  have hidle : preview.idleBalance.val = 40 := by
    rcases run_dryRunSweepIdleBalance_eq_ok.1 hpreview with ⟨usdc, idle, husdc, hidle, hsame, -⟩
    obtain rfl : 4 = usdc := Option.some.inj husdc
    rw [hsame, hidle]
    decide
  rw [hidle] at hiff
  rcases hiff.2 ⟨by decide, by decide⟩ with ⟨s', hrun⟩
  exact ⟨s', hrun, (hafter s' hrun).2.1⟩

end Callora.Vault
