import Callora.Settlement.Accounting

/-! The replay guard over whole runs, and batch credits: each mark bounds every sequence number
accepted under it, so accepted numbers increase and an accepted call is never accepted again. -/

namespace Callora.Settlement
open Library

variable {Address Ledger : Type} [LinearOrder Address] {contract : Address}
  {T : TokenContract Address Ledger} {env : Env Address contract} {s s' : State Address Ledger}

def Op.isPayment : Op Address → Bool
  | .receivePayment .. => true
  | .batchReceivePayment .. => true
  | _ => false

def Op.creditSeq (developer : Address) : Op Address → Option ℕ
  | .receivePayment _ _ false (some d) _ ledgerSeq => if d = developer then some ledgerSeq else none
  | .batchReceivePayment _ items _ ledgerSeq =>
    if items.any fun item => item.1 = developer then some ledgerSeq else none
  | _ => none

def Op.poolSeq : Op Address → Option ℕ
  | .receivePayment _ _ true _ _ ledgerSeq => some ledgerSeq
  | _ => none

def acceptedSeq (developer : Address) (e : LogEntry Address Ledger contract) : Option ℕ :=
  match e.input with
  | .call _ op => op.creditSeq developer
  | .ledgerMoves _ => none

def acceptedPoolSeq (e : LogEntry Address Ledger contract) : Option ℕ :=
  match e.input with
  | .call _ op => op.poolSeq
  | .ledgerMoves _ => none

theorem creditSeq_batch (developer caller token : Address) (items : List (Address × I128))
    (ledgerSeq : ℕ) :
    (Op.batchReceivePayment caller items token ledgerSeq).creditSeq developer =
      if developer ∈ items.map Prod.fst then some ledgerSeq else none := by
  have hany : (items.any fun item => item.1 = developer) ↔ developer ∈ items.map Prod.fst := by
    simp only [List.any_eq_true, decide_eq_true_eq, List.mem_map]
  simp only [Op.creditSeq, hany]

theorem mark_raiseMarks (devs : List Address) (ledgerSeq : ℕ) (d : Address) :
    State.mark { s with highWaterMark := raiseMarks s.highWaterMark devs ledgerSeq } d =
      if d ∈ devs then ledgerSeq else s.mark d := by
  simp only [State.mark, raiseMarks]
  split_ifs <;> rfl

theorem mark_of_effect {op : Op Address} {r : Ret} (h : Effect T env s op r s') (d : Address) :
    s.mark d ≤ s'.mark d ∧ ∀ v ∈ acceptedSeq d ⟨s, .call env op, r, s'⟩,
      s.mark d < v ∧ v ≤ s'.mark d := by
  cases h with
  | @receiveDeveloper _ developer _ _ _ ledgerSeq accepted unseen total =>
    have hmark := mark_set s developer d ledgerSeq
    by_cases hd : d = developer
    · subst hd
      rw [if_pos rfl] at hmark
      refine ⟨unseen.le.trans hmark.ge, fun v hv => ?_⟩
      obtain rfl : ledgerSeq = v := by simpa [acceptedSeq, Op.creditSeq] using hv
      exact ⟨unseen, hmark.ge⟩
    · rw [if_neg hd] at hmark
      exact ⟨hmark.ge, by simp [acceptedSeq, Op.creditSeq, Ne.symm hd]⟩
  | @receiveBatch _ _ items ledgerSeq _ _ _ authorized accepted size positive distinct unseen
      credits =>
    have hmark := mark_raiseMarks (s := s) (items.map Prod.fst) ledgerSeq d
    by_cases hd : d ∈ items.map Prod.fst
    · obtain ⟨item, hitem, rfl⟩ := List.mem_map.1 hd
      rw [if_pos hd] at hmark
      refine ⟨(unseen item hitem).le.trans hmark.ge, fun v hv => ?_⟩
      simp only [acceptedSeq, creditSeq_batch, if_pos hd] at hv
      obtain rfl := Option.some.inj hv
      exact ⟨unseen item hitem, hmark.ge⟩
    · rw [if_neg hd] at hmark
      refine ⟨hmark.ge, fun v hv => ?_⟩
      simp only [acceptedSeq, creditSeq_batch, if_neg hd] at hv
      cases hv
  | _ => exact ⟨le_rfl, by rintro v ⟨⟩⟩

theorem poolMark_of_effect {op : Op Address} {r : Ret} (h : Effect T env s op r s') :
    s.poolMark ≤ s'.poolMark ∧ ∀ v ∈ acceptedPoolSeq ⟨s, .call env op, r, s'⟩,
      s.poolMark < v ∧ v ≤ s'.poolMark := by
  cases h with
  | receivePool accepted unseen stored total =>
    refine ⟨unseen.le, ?_⟩
    rintro v ⟨⟩
    exact ⟨unseen, le_rfl⟩
  | _ => exact ⟨le_rfl, by rintro v ⟨⟩⟩

theorem mark_of_step {input : Input Address Ledger contract} {r : Ret}
    (h : (settlement T contract).step s input = some (r, s')) (d : Address) :
    s.mark d ≤ s'.mark d ∧ ∀ v ∈ acceptedSeq d ⟨s, input, r, s'⟩, s.mark d < v ∧ v ≤ s'.mark d := by
  obtain ⟨env, op, rfl, heff⟩ | ⟨ledger, rfl, rfl, rfl⟩ := effect_of_step h
  · exact mark_of_effect heff d
  · exact ⟨le_rfl, by rintro v ⟨⟩⟩

theorem poolMark_of_step {input : Input Address Ledger contract} {r : Ret}
    (h : (settlement T contract).step s input = some (r, s')) :
    s.poolMark ≤ s'.poolMark ∧ ∀ v ∈ acceptedPoolSeq ⟨s, input, r, s'⟩,
      s.poolMark < v ∧ v ≤ s'.poolMark := by
  obtain ⟨env, op, rfl, heff⟩ | ⟨ledger, rfl, rfl, rfl⟩ := effect_of_step h
  · exact poolMark_of_effect heff
  · exact ⟨le_rfl, by rintro v ⟨⟩⟩

theorem credits_of_effect {op : Op Address} {r : Ret} (hop : op.isPayment)
    (h : Effect T env s op r s') :
    (∃ v, op.poolSeq = some v) ∨ ∃ d v, op.creditSeq d = some v := by
  cases h with
  | receivePool => exact .inl ⟨_, rfl⟩
  | @receiveDeveloper _ developer => exact .inr ⟨developer, _, if_pos rfl⟩
  | @receiveBatch _ _ items _ _ _ _ authorized accepted size =>
    obtain ⟨item, hitem⟩ := List.exists_mem_of_length_pos size.1
    have hmem : item.1 ∈ items.map Prod.fst := List.mem_map_of_mem hitem
    exact .inr ⟨item.1, _, (creditSeq_batch ..).trans (if_pos hmem)⟩
  | _ => cases hop

/-- The sequence numbers accepted for a developer, or for the pool, strictly increase over every
run; an accepted payment never goes through again, whoever sends it and whenever; a call that does
not commit leaves the state as it was. -/
theorem accepted_payments_not_replayed (T : TokenContract Address Ledger) (ledger : Ledger)
    (inputs : List (Input Address Ledger contract)) :
    let s := (settlement T contract).run (.deployed ledger) inputs
    let l := (settlement T contract).log (.deployed ledger) inputs
    (∀ d, (l.filterMap (acceptedSeq d)).Pairwise (· < ·)) ∧
    (l.filterMap acceptedPoolSeq).Pairwise (· < ·) ∧
    (∀ e ∈ l, ∀ env env' op, e.input = .call env op → op.isPayment →
      (settlement T contract).step s (.call env' op) = none) ∧
    ∀ input, (settlement T contract).step s input = none →
      (settlement T contract).next s input = s := by
  intro s l
  have hdev (d : Address) := Machine.pairwise_log (m := settlement T contract)
    (f := acceptedSeq d) (g := fun s => s.mark d)
    (fun _ _ _ _ h => mark_of_step h d) (.deployed ledger) inputs
  have hpool := Machine.pairwise_log (m := settlement T contract) (f := acceptedPoolSeq)
    (g := State.poolMark) (fun _ _ _ _ h => poolMark_of_step h) (.deployed ledger) inputs
  refine ⟨fun d => (hdev d).1, hpool.1, ?_, fun _ h => Machine.next_of_rollback h⟩
  rintro ⟨t, _, r, t'⟩ he env env' op rfl hop
  obtain ⟨-, -, -, -, hold⟩ := Machine.mem_log.1 he
  -- an accepted number is at most its mark, and the replay would need it above
  by_contra hne
  obtain ⟨⟨r', s'⟩, hnew⟩ := Option.ne_none_iff_exists'.1 hne
  rcases credits_of_effect hop (effect_of_commit hold) with
    ⟨v, hv⟩ | ⟨d, v, hv⟩
  · have hle := hpool.2 v (List.mem_filterMap.2 ⟨_, he, hv⟩)
    exact absurd ((poolMark_of_step hnew).2 v hv).1 hle.not_gt
  · have hle := (hdev d).2 v (List.mem_filterMap.2 ⟨_, he, hv⟩)
    exact absurd ((mark_of_step hnew d).2 v hv).1 hle.not_gt

/-! Batch credits. -/

def amountTo (items : List (Address × I128)) (developer : Address) : ℤ :=
  ((items.filter fun item => item.1 = developer).map fun item => item.2.val).sum

theorem net_items (items : List (Address × I128)) (d t token : Address) :
    Journal.net (fun a => a = Account.developer d t)
      (items.map fun item => ⟨.developer item.1 token, item.2.val⟩) =
        if t = token then amountTo items d else 0 := by
  induction items with
  | nil => simp [amountTo]
  | cons item items ih =>
    rw [List.map_cons, Journal.net_cons, ih]
    by_cases ht : t = token <;> by_cases hd : item.1 = d <;>
      simp [amountTo, ht, hd, eq_comm (a := token)]

/-- A batch of at most 50 positive amounts, from an authorized caller, with a sequence number new to
every developer and room for all credits, credits every developer with the sum of its amounts
exactly when no developer occurs twice. -/
theorem batchReceivePayment_credits_iff {caller token : Address} {items : List (Address × I128)}
    {ledgerSeq : ℕ} (hauth : caller ∈ env.signers) (hcaller : s.AuthorizedCaller caller)
    (hsize : 0 < items.length ∧ items.length ≤ MAX_BATCH_SIZE)
    (hpos : ∀ item ∈ items, 0 < item.2.val) (hseq : ∀ item ∈ items, s.mark item.1 < ledgerSeq)
    (hfit : ∀ d, (s.balanceOf d token).val + amountTo items d ≤ I128.max.val) :
    (∃ s', (batchReceivePayment env caller items token ledgerSeq).run s = .ok () s' ∧
      ∀ d t, (s'.balanceOf d t).val =
        (s.balanceOf d t).val + if t = token then amountTo items d else 0) ↔
    (items.map Prod.fst).Nodup := by
  constructor
  · rintro ⟨s', hrun, -⟩
    exact (run_batchReceivePayment_eq_ok.1 hrun).2.1.1
  · intro hdistinct
    have hitem (item : Address × I128) (hmem : item ∈ items) :
        (s.balanceOf item.1 token).val + item.2.val ≤ I128.max.val := by
      have hle : item.2.val ≤ amountTo items item.1 := by
        have hown : item ∈ items.filter fun x => x.1 = item.1 := List.mem_filter.2 ⟨hmem, by simp⟩
        apply List.single_le_sum _ _ (List.mem_map_of_mem hown)
        intro x hx
        obtain ⟨y, hy, rfl⟩ := List.mem_map.1 hx
        exact (hpos y (List.mem_of_mem_filter hy)).le
      exact (Int.add_le_add_left hle _).trans (hfit item.1)
    obtain ⟨s', hrun⟩ := batchReceivePayment_succeeds.2
      ⟨⟨hauth, hcaller, hsize.1, hsize.2, hpos⟩, ⟨hdistinct, hseq⟩, hitem⟩
    refine ⟨s', hrun, fun d t => ?_⟩
    have hbooks := congrFun (books_creditItems (run_batchReceivePayment_eq_ok.1 hrun).2.2)
      (.developer d t)
    rw [Journal.post_apply, net_items] at hbooks
    exact hbooks

def initialState : State ℕ (Balances ℕ) where
  admin := some 1
  vault := some 2
  globalPool := some ⟨0, 0⟩
  totalReceived := some 0
  ledger := fun _ _ => 0

theorem batchReceivePayment_credits_two :
    ∃ s', (batchReceivePayment (.signedBy 2 0 (by decide)) 2
        [(4, ⟨100, by decide⟩), (5, ⟨200, by decide⟩)] 3 1).run initialState = .ok () s' ∧
      ∀ d t, (s'.balanceOf d t).val = (initialState.balanceOf d t).val +
        if t = 3 then amountTo [(4, ⟨100, by decide⟩), (5, ⟨200, by decide⟩)] d else 0 := by
  refine (batchReceivePayment_credits_iff (by decide) ⟨2, 1, rfl, rfl, .inl rfl⟩ (by decide)
    (by decide) (by decide) fun d => ?_).2 (by decide)
  have hzero : (initialState.balanceOf d 3).val = 0 := rfl
  rw [hzero]
  by_cases h4 : 4 = d <;> by_cases h5 : 5 = d <;> simp [amountTo, h4, h5, I128.max]

/-- Two amounts of one developer meet all the guards above, and the batch traps. -/
theorem batchReceivePayment_duplicate_rejected :
    (2 ∈ (Env.signedBy 2 0 (by decide)).signers ∧ initialState.AuthorizedCaller 2 ∧
      (∀ d, initialState.mark d < 1) ∧ ∀ d, (initialState.balanceOf d 3).val +
        amountTo [(4, ⟨100, by decide⟩), (4, ⟨200, by decide⟩)] d ≤ I128.max.val) ∧
    (batchReceivePayment (.signedBy 2 0 (by decide)) 2
      [(4, ⟨100, by decide⟩), (4, ⟨200, by decide⟩)] 3 1).run initialState =
        .trap (.error .replayDetected) := by
  refine ⟨⟨by decide, ⟨2, 1, rfl, rfl, .inl rfl⟩, fun _ => Nat.zero_lt_one, fun d => ?_⟩, rfl⟩
  have hzero : (initialState.balanceOf d 3).val = 0 := rfl
  rw [hzero]
  by_cases h4 : 4 = d <;> simp [amountTo, h4, I128.max]

end Callora.Settlement
