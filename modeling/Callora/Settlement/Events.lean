import Callora.Settlement.Accounting
import Callora.Settlement.Batch

/-! The published events as a ledger. An event books an amount on the developer it names or on the
pool; replaying the events gives every developer's balances, summed over the tokens, and the pool's
total, and the balance that an event carries is the one stored when it is published. -/

namespace Callora.Settlement
open Library

variable {Address Ledger : Type} [LinearOrder Address] {contract : Address}
  {T : TokenContract Address Ledger} {env : Env Address contract} {s s' : State Address Ledger}

/-- What an event books, on a developer or, as `none`, on the pool. -/
def Event.postings : Event Address → List (Posting (Option Address))
  | .paymentReceived _ amount true _ _ => [⟨none, amount.val⟩]
  | .balanceCredited developer amount _ _ => [⟨some developer, amount.val⟩]
  | .developerForceCredited developer amount _ _ _ => [⟨some developer, amount.val⟩]
  | .developerWithdraw developer amount _ _ _ => [⟨some developer, -amount.val⟩]
  | .adminMigration «from» «to» amount _ => [⟨some «from», -amount.val⟩, ⟨some «to», amount.val⟩]
  | _ => []

def replay (events : List (Event Address)) : Option Address → ℤ :=
  events.foldl (fun totals event => Journal.post totals event.postings) fun _ => 0

/-- The balance that an event carries, if it carries one, is the stored one. -/
def Event.Reports (s : State Address Ledger) : Event Address → Prop
  | .balanceCredited developer _ newBalance token => s.balanceOf developer token = newBalance
  | .developerForceCredited developer _ _ newBalance token =>
    s.balanceOf developer token = newBalance
  | .developerWithdraw developer _ remainingBalance _ token =>
    s.balanceOf developer token = remainingBalance
  | _ => True

def Account.party : Account Address → Option Address
  | .developer d _ => some d
  | .pool => none

/-! What a step publishes. -/

/-- From `s` to `s'` events were added which book `ps`. -/
def Publishes (s s' : State Address Ledger) (ps : List (Posting (Option Address))) : Prop :=
  ∃ added, s'.events = s.events ++ added ∧ added.flatMap Event.postings = ps

omit [LinearOrder Address] in
theorem publishes_of_eq (h : s'.events = s.events) : Publishes s s' [] :=
  ⟨[], h.trans (List.append_nil _).symm, rfl⟩

omit [LinearOrder Address] in
theorem Publishes.trans {t : State Address Ledger} {ps qs : List (Posting (Option Address))}
    (h : Publishes s t ps) (h' : Publishes t s' qs) : Publishes s s' (ps ++ qs) := by
  obtain ⟨added, hadded, rfl⟩ := h
  obtain ⟨added', hadded', rfl⟩ := h'
  refine ⟨added ++ added', ?_, List.flatMap_append⟩
  rw [hadded', hadded, List.append_assoc]

theorem publishes_creditItems {token : Address} {items : List (Address × I128)} {u : Unit}
    (h : (forM items (creditItem token) : Tx Address Ledger Unit).run s = .ok u s') :
    Publishes s s' (items.map fun item => ⟨some item.1, item.2.val⟩) := by
  induction items generalizing s with
  | nil =>
    obtain rfl := Call.run_forM_nil_eq_ok.1 h
    exact publishes_of_eq rfl
  | cons item items ih =>
    obtain ⟨s₁, hitem, hitems⟩ := Call.run_forM_cons_eq_ok.1 h
    obtain ⟨newBalance, -, rfl⟩ := run_creditItem_eq_ok.1 hitem
    exact Publishes.trans ⟨_, rfl, rfl⟩ (ih hitems)

theorem publishes_settled {settlements : List (SettleInput Address)}
    {outcomes : List SettleOutcome} (h : Settled T env s settlements outcomes s') :
    Publishes s s' (Journal.map Account.party
      (Journal.reverse (settledPostings s.usdc settlements outcomes))) := by
  induction h with
  | nil => exact publishes_of_eq rfl
  | success item _ ih =>
    obtain ⟨usdc, newBalance, ledger, hw, rfl⟩ := run_withdrawDeveloperBalance_eq_ok.1 item
    have hall := Publishes.trans ⟨_, rfl, rfl⟩ ih
    rw [State.withdrawn, hw.configured] at hall
    rw [hw.configured, settledPostings_success]
    exact hall
  | failure _ _ ih =>
    rw [settledPostings_failure]
    exact ih

theorem publishes_of_effect {op : Op Address} {r : Ret} (h : Effect T env s op r s') :
    Publishes s s' (Journal.map Account.party (postings ⟨s, .call env op, r, s'⟩)) := by
  cases h with
  | receiveBatch authorized accepted size positive distinct unseen credits =>
    have hcredits := publishes_creditItems credits
    simp only [postings, payments, forceCredits, transfers, withdrawals, Journal.reverse,
      Journal.map, List.map_nil, List.append_nil, List.map_map]
    exact hcredits
  | executeBalanceMigration admin pending expired configured =>
    refine ⟨_, rfl, ?_⟩
    simp only [postings, payments, forceCredits, transfers, withdrawals, configured, pending]
    rfl
  | withdraw withdrawal =>
    refine ⟨_, rfl, ?_⟩
    simp only [postings, payments, forceCredits, transfers, withdrawals, withdrawal.configured]
    rfl
  | settle size once settled => exact publishes_settled settled
  | settleTooLarge size =>
    simp only [postings, payments, forceCredits, transfers, withdrawals,
      settledPostings_otherError]
    exact publishes_of_eq rfl
  | init | setUsdcToken | migrateDeveloperBalance | migrateSingleDevV2 | migratedAll | migratedPage
  | migratePage | withdrawCursor => exact publishes_of_eq rfl
  | _ => exact ⟨_, rfl, rfl⟩

theorem publishes_of_step {input : Input Address Ledger contract} {r : Ret}
    (h : (settlement T contract).step s input = some (r, s')) :
    Publishes s s' (Journal.map Account.party (postings ⟨s, input, r, s'⟩)) := by
  obtain ⟨env, op, rfl, heff⟩ | ⟨ledger, rfl, rfl, rfl⟩ := effect_of_step h
  · exact publishes_of_effect heff
  · exact publishes_of_eq rfl

theorem publishes_run (T : TokenContract Address Ledger) (ledger : Ledger)
    (inputs : List (Input Address Ledger contract)) :
    replay ((settlement T contract).run (.deployed ledger) inputs).events =
      Journal.post (fun _ => 0) (Journal.map Account.party
        (((settlement T contract).log (.deployed ledger) inputs).flatMap postings)) := by
  have hpublished : Publishes (.deployed ledger)
      ((settlement T contract).run (.deployed ledger) inputs) (Journal.map Account.party
        (((settlement T contract).log (.deployed ledger) inputs).flatMap postings)) := by
    refine Machine.log_invariant (P := fun l t => Publishes (.deployed ledger) t
      (Journal.map Account.party (l.flatMap postings))) (publishes_of_eq rfl) ?_ inputs
    intro l t input r t' ht hstep
    have hall := ht.trans (publishes_of_step hstep)
    rw [List.flatMap_append, List.flatMap_singleton, Journal.map_append]
    exact hall
  obtain ⟨added, hadded, hpostings⟩ := hpublished
  unfold replay
  rw [Journal.foldl_post, hadded, ← hpostings]
  rfl

/-! What the events report. -/

def Reported (s s' : State Address Ledger) : Prop :=
  ∃ added, s'.events = s.events ++ added ∧ ∀ event ∈ added, event.Reports s'

omit [LinearOrder Address] in
theorem reported_of_eq (h : s'.events = s.events) : Reported s s' :=
  ⟨[], h.trans (List.append_nil _).symm, List.forall_mem_nil _⟩

omit [LinearOrder Address] in
theorem reported_of_singleton {event : Event Address} (h : s'.events = s.events ++ [event])
    (hevent : event.Reports s') : Reported s s' :=
  ⟨[event], h, List.forall_mem_singleton.2 hevent⟩

theorem balanceOf_of_set {d t : Address} {balance : I128}
    (h : s'.developerBalance = s.developerBalance.set (d, t) balance) :
    s'.balanceOf d t = balance := by
  unfold State.balanceOf
  rw [h, Store.set_self]
  rfl

theorem reported_creditItem {token : Address} {item : Address × I128} {u : Unit}
    (h : (creditItem token item).run s = .ok u s') : Reported s s' := by
  obtain ⟨newBalance, -, rfl⟩ := run_creditItem_eq_ok.1 h
  exact reported_of_singleton rfl (balanceOf_of_set (s := s) rfl)

theorem reported_withdrawItem {input : SettleInput Address} {u : Unit}
    (h : (withdrawItem T env input).run s = .ok u s') : Reported s s' := by
  obtain ⟨usdc, newBalance, ledger, -, rfl⟩ := run_withdrawDeveloperBalance_eq_ok.1 h
  exact reported_of_singleton rfl (balanceOf_of_set (s := s) rfl)

variable (T) in
/-- The states right after the operations of a step: every item of a batch is one. -/
def operations (e : LogEntry Address Ledger contract) : List (State Address Ledger) :=
  match e.input with
  | .call _ (.batchReceivePayment _ items token ledgerSeq) =>
    Call.passes (creditItem token) { e.pre with
      highWaterMark := raiseMarks e.pre.highWaterMark (items.map Prod.fst) ledgerSeq } items
  | .call env (.batchSettle settlements) =>
    if 64 < settlements.length then [e.post]
    else Call.passes (withdrawItem T env) e.pre settlements
  | _ => [e.post]

/-- The states of a step follow each other up to its last, each reported by its events. -/
structure Narrated (T : TokenContract Address Ledger) (e : LogEntry Address Ledger contract) :
    Prop where
  chain : (e.pre :: operations T e).IsChain Reported
  last : (operations T e).getLast? = some e.post

theorem narrated_of_reported {e : LogEntry Address Ledger contract}
    (hone : operations T e = [e.post]) (h : Reported e.pre e.post) : Narrated T e := by
  constructor
  · rw [hone]
    exact .cons_cons h (.singleton _)
  · rw [hone]
    rfl

theorem settleItem_eq_after (s : State Address Ledger) (input : SettleInput Address) :
    settleItem T env s input = (withdrawItem T env input).after s := by
  unfold settleItem Call.after
  cases (withdrawItem T env input).run s <;> rfl

theorem getLast?_passes_of_settled {settlements : List (SettleInput Address)}
    {outcomes : List SettleOutcome} (h : Settled T env s settlements outcomes s') :
    (Call.passes (withdrawItem T env) s settlements).getLast? = some s' := by
  unfold Call.passes
  simp only [← settleItem_eq_after]
  rw [List.getLast?_scanl, foldl_of_settled h]

theorem operations_batchSettle {settlements : List (SettleInput Address)} {r : Ret}
    (size : settlements.length ≤ 64) :
    operations T ⟨s, .call env (.batchSettle settlements), r, s'⟩ =
      Call.passes (withdrawItem T env) s settlements := if_neg size.not_gt

theorem narrated_of_effect {op : Op Address} {r : Ret} (h : Effect T env s op r s') :
    Narrated T ⟨s, .call env op, r, s'⟩ := by
  have hrefl (t : State Address Ledger) : Reported t t := reported_of_eq rfl
  cases h with
  | receiveDeveloper =>
    apply narrated_of_reported rfl
    refine ⟨_, rfl, List.forall_mem_cons.2 ⟨trivial, List.forall_mem_singleton.2 ?_⟩⟩
    exact balanceOf_of_set (s := s) rfl
  | @receiveBatch _ _ items ledgerSeq _ _ _ _ _ _ _ _ _ credits =>
    have hmarked : Reported s { s with
        highWaterMark := raiseMarks s.highWaterMark (items.map Prod.fst) ledgerSeq } :=
      reported_of_eq rfl
    constructor
    · exact Call.isChain_cons_passes hrefl (fun item t t' hitem => reported_creditItem hitem)
        hmarked items
    · exact Call.getLast?_passes credits
  | forceCredit | withdraw =>
    apply narrated_of_reported rfl
    exact reported_of_singleton rfl (balanceOf_of_set (s := s) rfl)
  | settleTooLarge size =>
    apply narrated_of_reported _ (hrefl _)
    exact if_pos size
  | settle size once settled =>
    constructor
    · rw [operations_batchSettle size]
      exact Call.isChain_cons_passes hrefl (fun input t t' hinput => reported_withdrawItem hinput)
        (hrefl s) _
    · rw [operations_batchSettle size]
      exact getLast?_passes_of_settled settled
  | init | setUsdcToken | migrateDeveloperBalance | migrateSingleDevV2 | migratedAll | migratedPage
  | migratePage | withdrawCursor => exact narrated_of_reported rfl (reported_of_eq rfl)
  | _ => exact narrated_of_reported rfl (reported_of_singleton rfl trivial)

theorem narrated_of_step {input : Input Address Ledger contract} {r : Ret}
    (h : (settlement T contract).step s input = some (r, s')) : Narrated T ⟨s, input, r, s'⟩ := by
  obtain ⟨env, op, rfl, heff⟩ | ⟨ledger, rfl, rfl, rfl⟩ := effect_of_step h
  · exact narrated_of_effect heff
  · exact narrated_of_reported rfl (reported_of_eq rfl)

/-! The events of a run. -/

omit [LinearOrder Address] in
theorem developerToken_injective (d : Address) :
    Function.Injective fun t => Account.developer d t := by
  rintro t t' h
  cases h
  rfl

/-- The events of every run are a faithful ledger: replayed, they give each developer's balances
over all tokens and the pool's total, and the balances they carry are those stored right after the
operation that published them. -/
theorem events_are_ledger (T : TokenContract Address Ledger) (ledger : Ledger)
    (inputs : List (Input Address Ledger contract)) :
    let s := (settlement T contract).run (.deployed ledger) inputs
    (∀ d, (Function.support fun t => (s.balanceOf d t).val).Finite ∧
      replay s.events (some d) = ∑ᶠ t, (s.balanceOf d t).val) ∧
    (s.admin ≠ none → ∃ pool, s.globalPool = some pool ∧
      replay s.events none = pool.totalBalance.val) ∧
    ∀ e ∈ (settlement T contract).log (.deployed ledger) inputs, Narrated T e := by
  intro s
  obtain ⟨hs, hbooks⟩ := books_run T ledger inputs
  have hreplay := publishes_run T ledger inputs
  have hzero : (Function.support fun _ : Account Address => (0 : ℤ)).Finite := by simp
  refine ⟨?_, ?_, ?_⟩
  · intro d
    constructor
    · have hfin := Journal.finite_support_post hzero
        (((settlement T contract).log (.deployed ledger) inputs).flatMap postings)
      rw [← hbooks] at hfin
      exact hfin.preimage (developerToken_injective d).injOn
    · have hparty (a : Account Address) :
          a.party = some d ↔ a ∈ Set.range fun t => Account.developer d t := by
        cases a <;> simp [Account.party, eq_comm]
      have hsum := Journal.finsum_post hzero (developerToken_injective d)
        (fun a => a.party = some d) hparty
        (((settlement T contract).log (.deployed ledger) inputs).flatMap postings)
      rw [← hbooks, finsum_zero, zero_add] at hsum
      rw [hreplay, Journal.post_apply, zero_add, Journal.net_map]
      exact hsum.symm
  · intro hadmin
    obtain ⟨pool, hpool⟩ : ∃ pool, s.globalPool = some pool :=
      Option.ne_none_iff_exists'.1 (mt hs.initialized.2 hadmin)
    have htotal : books s .pool = pool.totalBalance.val := by simp [books, booksOf, hpool]
    have hparty (a : Account Address) : a.party = none ↔ a = .pool := by
      cases a <;> simp [Account.party]
    refine ⟨pool, hpool, ?_⟩
    rw [← htotal, hbooks, hreplay, Journal.post_apply, Journal.post_apply, Journal.net_map]
    exact congrArg _ (Journal.net_congr hparty _)
  · intro e he
    obtain ⟨-, -, -, -, hstep⟩ := Machine.mem_log.1 he
    exact narrated_of_step hstep

end Callora.Settlement
