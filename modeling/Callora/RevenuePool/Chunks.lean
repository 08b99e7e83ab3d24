import Callora.RevenuePool.Batches

/-! Payouts of any length. The list is cut into chunks that one batch takes, and the batches are
submitted in order: every one goes through, and together they pay every leg once. -/

namespace Callora.RevenuePool
open Library

/-! Cutting a list. -/

section Cut
variable {α : Type}

/-- The loop of `chunk_iter` over what is left of the payments, with the chunks collected and the
current one. -/
def chunkLoop (chunkSize : ℕ) : List α → List (List α) → List α → List (List α)
  | [], chunks, current => if current ≠ [] then chunks ++ [current] else chunks
  | payment :: payments, chunks, current =>
    let current := current ++ [payment]
    if current.length = chunkSize then chunkLoop chunkSize payments (chunks ++ [current]) []
    else chunkLoop chunkSize payments chunks current

def chunkIter (payments : List α) (chunkSize : ℕ) : List (List α) :=
  if chunkSize = 0 then [] else chunkLoop chunkSize payments [] []

/-- `chunks` are consecutive pieces of `xs`, none empty or longer than `c` and all but the last of
length `c`. -/
structure Cuts (c : ℕ) (xs : List α) (chunks : List (List α)) : Prop where
  flatten : chunks.flatten = xs
  nonempty : ∀ chunk ∈ chunks, chunk ≠ []
  length_le : ∀ chunk ∈ chunks, chunk.length ≤ c
  full : ∀ chunk ∈ chunks.dropLast, chunk.length = c

theorem cuts_of_full {c : ℕ} (hc : 0 < c) {chunks : List (List α)}
    (hfull : ∀ chunk ∈ chunks, chunk.length = c) : Cuts c chunks.flatten chunks := by
  refine ⟨rfl, ?_, ?_, ?_⟩
  · intro chunk hchunk
    have hlen := hfull chunk hchunk
    exact List.ne_nil_of_length_pos (by omega)
  · intro chunk hchunk
    exact (hfull chunk hchunk).le
  · intro chunk hchunk
    exact hfull chunk ((List.dropLast_subset chunks) hchunk)

theorem cuts_concat {c : ℕ} {chunks : List (List α)} {current : List α}
    (hc : 0 < c) (hfull : ∀ chunk ∈ chunks, chunk.length = c) (hne : current ≠ [])
    (hlen : current.length ≤ c) : Cuts c (chunks.flatten ++ current) (chunks ++ [current]) := by
  obtain ⟨-, hnonempty, hle, -⟩ := cuts_of_full hc hfull
  refine ⟨List.flatten_concat, ?_, ?_, ?_⟩
  · exact List.forall_mem_append.2 ⟨hnonempty, List.forall_mem_singleton.2 hne⟩
  · exact List.forall_mem_append.2 ⟨hle, List.forall_mem_singleton.2 hlen⟩
  · rw [List.dropLast_concat]
    exact hfull

theorem cuts_chunkLoop {c : ℕ} {xs current : List α} {chunks : List (List α)}
    (hfull : ∀ chunk ∈ chunks, chunk.length = c) (hcurrent : current.length < c) :
    Cuts c (chunks.flatten ++ current ++ xs) (chunkLoop c xs chunks current) := by
  have hc : 0 < c := Nat.zero_lt_of_lt hcurrent
  induction xs generalizing chunks current with
  | nil =>
    rw [List.append_nil, chunkLoop]
    split_ifs with hne
    · exact cuts_concat hc hfull hne hcurrent.le
    · rw [not_not.1 hne, List.append_nil]
      exact cuts_of_full hc hfull
  | cons x xs ih =>
    have hlength : (current ++ [x]).length = current.length + 1 := List.length_append
    rw [chunkLoop]
    split_ifs with hflush
    · have hfull' : ∀ chunk ∈ chunks ++ [current ++ [x]], chunk.length = c :=
        List.forall_mem_append.2 ⟨hfull, List.forall_mem_singleton.2 hflush⟩
      have hempty : ([] : List α).length < c := hc
      have hrest := ih hfull' hempty
      rw [List.flatten_concat, List.append_nil, ← List.append_assoc, List.append_assoc,
        List.singleton_append] at hrest
      exact hrest
    · have hroom : (current ++ [x]).length < c := by omega
      have hrest := ih hfull hroom
      rw [← List.append_assoc, List.append_assoc, List.singleton_append] at hrest
      exact hrest

theorem cuts_chunkIter {c : ℕ} (hc : 1 ≤ c) (xs : List α) : Cuts c xs (chunkIter xs c) := by
  have hzero : c ≠ 0 := by omega
  rw [chunkIter, if_neg hzero]
  have hempty : ([] : List α).length < c := hc
  exact cuts_chunkLoop (List.forall_mem_nil _) hempty

end Cut

/-! Submitting the chunks. -/

variable {Address Ledger : Type} [DecidableEq Address] {contract : Address}
  {env : Env Address contract} {s s' : State Address Ledger} {admin usdc : Address}
  {payments : List (Address × I128)} {T : ExactToken Address Ledger}

def paidTo (who : Address) (payments : List (Address × I128)) : ℤ :=
  (payments.map fun p => if who = p.1 then p.2.val else 0).sum

theorem paidTo_cons (who : Address) (p : Address × I128) (payments : List (Address × I128)) :
    paidTo who (p :: payments) = (if who = p.1 then p.2.val else 0) + paidTo who payments :=
  List.sum_cons

theorem paidTo_eq_zero {who : Address} (h : who ∉ payments.map Prod.fst) :
    paidTo who payments = 0 := by
  apply List.sum_eq_zero
  intro a ha
  obtain ⟨p, hp, rfl⟩ := List.mem_map.1 ha
  apply if_neg
  intro he
  exact h (List.mem_map.2 ⟨p, hp, he.symm⟩)

theorem paidTo_of_mem {p : Address × I128} (hnodup : (payments.map Prod.fst).Nodup)
    (hp : p ∈ payments) : paidTo p.1 payments = p.2.val := by
  induction payments with
  | nil => cases hp
  | cons q payments ih =>
    obtain ⟨hq, hnodup⟩ := List.nodup_cons.1 hnodup
    rw [paidTo_cons]
    rcases List.mem_cons.1 hp with rfl | hp
    · rw [if_pos rfl, paidTo_eq_zero hq, Int.add_zero]
    · have hne : p.1 ≠ q.1 := by
        intro he
        exact hq (List.mem_map.2 ⟨p, hp, he⟩)
      rw [if_neg hne, ih hnodup hp, Int.zero_add]

theorem balance_of_payAll {l l' : Ledger}
    (h : payAll T.toTokenContract contract usdc l payments = some l') (t z : Address) :
    T.balance l' t z = T.balance l t z -
      (if t = usdc ∧ z = contract then totalAmount payments else 0) +
      (if t = usdc then paidTo z payments else 0) := by
  induction payments generalizing l with
  | nil =>
    obtain rfl := Option.some.inj h
    have hnil : paidTo z ([] : List (Address × I128)) = 0 := rfl
    rw [totalAmount_nil, hnil, ite_self, ite_self, Int.sub_zero, Int.add_zero]
  | cons p payments ih =>
    obtain ⟨mid, hmid, hrest⟩ := Option.bind_eq_some_iff.1 h
    have hleg := T.balance_transfer hmid t z
    rw [ih hrest, hleg, totalAmount_cons, paidTo_cons]
    by_cases ht : t = usdc
    · simp only [ht, true_and, if_true]
      split_ifs <;> omega
    · simp only [ht, false_and, if_false]
      omega

def submit (contract admin : Address)
    (calls : List (Env Address contract × List (Address × I128))) : List (Input Address contract) :=
  calls.map fun call => .call call.1 (.batchDistribute admin call.2)

theorem log_submit {calls : List (Env Address contract × List (Address × I128))} {ledger : Ledger}
    (hauth : ∀ call ∈ calls, admin ∈ call.1.signers)
    (hbatch : ∀ call ∈ calls, ValidBatch call.2)
    (haffords : s.Affords T contract admin (calls.flatMap Prod.snd) usdc)
    (hpaid : payAll T.toTokenContract contract usdc s.ledger (calls.flatMap Prod.snd) =
      some ledger) :
    let m := revenuePool T.toTokenContract contract
    (m.log s (submit contract admin calls)).map Entry.input = submit contract admin calls ∧
      (m.run s (submit contract admin calls)).ledger = ledger := by
  intro m
  induction calls generalizing s with
  | nil => exact ⟨rfl, Option.some.inj hpaid⟩
  | cons call calls ih =>
    obtain ⟨hsigned, hauth⟩ := List.forall_mem_cons.1 hauth
    obtain ⟨hvalid, hbatch⟩ := List.forall_mem_cons.1 hbatch
    rw [List.flatMap_cons] at haffords hpaid
    have hdist := haffords.distribution hsigned hpaid
    rw [payAll_append] at hpaid
    obtain ⟨mid, hmid, hrest⟩ := Option.bind_eq_some_iff.1 hpaid
    obtain ⟨hfirst, hafter⟩ := (distribution_append_iff hmid).1 hdist
    have hcommit : m.step s (.call call.1 (.batchDistribute admin call.2)) = some ((), _) :=
      Call.commit_eq_some.2 (run_batchDistribute_eq_ok.2 ⟨hvalid, usdc, mid, hfirst, rfl⟩)
    obtain ⟨hlog, hrun⟩ := ih hauth hbatch hafter.affords hrest
    constructor
    · rw [submit, List.map_cons, Machine.log, Machine.entries_of_step hcommit,
        Machine.next_of_step hcommit, List.map_append, List.map_singleton]
      exact congrArg (_ :: ·) hlog
    · rw [submit, List.map_cons, Machine.run, Machine.next_of_step hcommit]
      exact hrun

omit [DecidableEq Address] in
theorem flatMap_legs (l : List (LogEntry Address Ledger contract))
    {calls : List (Env Address contract × List (Address × I128))}
    (h : l.map Entry.input = submit contract admin calls) :
    l.flatMap legs = calls.flatMap Prod.snd := by
  induction calls generalizing l with
  | nil =>
    have hnil : l = [] := List.map_eq_nil_iff.1 h
    rw [hnil, List.flatMap_nil, List.flatMap_nil]
  | cons call calls ih =>
    obtain ⟨e, rest, rfl, hinput, hrest⟩ := List.map_eq_cons_iff.1 h
    have hlegs : legs e = call.2 := by
      unfold legs
      rw [hinput]
      rfl
    rw [List.flatMap_cons, List.flatMap_cons, hlegs, ih rest hrest]

omit [DecidableEq Address] in
theorem validBatch_of_mem {c : ℕ} {chunk : List (Address × I128)}
    {chunks : List (List (Address × I128))} (hcuts : Cuts c payments chunks)
    (hc : c ≤ MAX_BATCH_SIZE) (hnodup : (payments.map Prod.fst).Nodup)
    (hpos : ∀ p ∈ payments, 0 < p.2.val) (htotal : totalAmount payments ≤ I128.max.val)
    (hchunk : chunk ∈ chunks) : ValidBatch chunk := by
  have hsub : chunk.Sublist payments := by
    rw [← hcuts.flatten]
    exact List.sublist_flatten_of_mem hchunk
  have hnonneg : ∀ n ∈ payments.map fun p => p.2.val, 0 ≤ n := by
    intro n hn
    obtain ⟨p, hp, rfl⟩ := List.mem_map.1 hn
    exact (hpos p hp).le
  have hle : totalAmount chunk ≤ totalAmount payments :=
    (hsub.map fun p => p.2.val).sum_le_sum hnonneg
  refine ⟨hcuts.nonempty chunk hchunk, (hcuts.length_le chunk hchunk).trans hc, ?_,
    hle.trans htotal⟩
  exact hnodup.sublist (hsub.map Prod.fst)

/-- The chunks of a list are consecutive, in order, and as long as the chunk size but for the last;
if the pool affords the list, its legs are within bounds and a chunk fits a batch, submitting
the chunks in order goes through and pays every recipient its amount once. -/
theorem chunked_payout (T : ExactToken Address Ledger) (s : State Address Ledger)
    (payments : List (Address × I128)) (c : ℕ) (hc : 1 ≤ c) :
    Cuts c payments (chunkIter payments c) ∧
    ∀ admin usdc (calls : List (Env Address contract × List (Address × I128))), c ≤ 50 →
      (payments.map Prod.fst).Nodup → s.Affords T contract admin payments usdc →
      T.balance s.ledger usdc contract ≤ I128.max.val →
      calls.map Prod.snd = chunkIter payments c → (∀ call ∈ calls, admin ∈ call.1.signers) →
      let m := revenuePool T.toTokenContract contract
      let inputs := submit contract admin calls
      let ledger := (m.run s inputs).ledger
      (m.log s inputs).map Entry.input = inputs ∧ (m.log s inputs).flatMap legs = payments ∧
      (∀ p ∈ payments, T.balance ledger usdc p.1 = T.balance s.ledger usdc p.1 + p.2.val) ∧
      T.balance ledger usdc contract =
        T.balance s.ledger usdc contract - totalAmount payments ∧
      ∀ t z, t ≠ usdc ∨ (z ≠ contract ∧ z ∉ payments.map Prod.fst) →
        T.balance ledger t z = T.balance s.ledger t z := by
  have hcuts := cuts_chunkIter hc payments
  refine ⟨hcuts, ?_⟩
  intro admin usdc calls hmax hnodup haffords hheld hcalls hauth m inputs ledger
  have hpos : ∀ p ∈ payments, 0 < p.2.val := fun p hp => (haffords.capped p hp).1
  have hall : calls.flatMap Prod.snd = payments := by
    rw [List.flatMap_def, hcalls]
    exact hcuts.flatten
  have hbatch : ∀ call ∈ calls, ValidBatch call.2 := by
    intro call hcall
    have hchunk : call.2 ∈ chunkIter payments c := by
      rw [← hcalls]
      exact List.mem_map.2 ⟨call, hcall, rfl⟩
    exact validBatch_of_mem hcuts hmax hnodup hpos (haffords.covered.trans hheld) hchunk
  obtain ⟨after, hpaid⟩ := haffords.exists_payAll
  have hsubmitted : (m.log s inputs).map Entry.input = inputs ∧ (m.run s inputs).ledger = after :=
    log_submit hauth hbatch (by rw [hall]; exact haffords) (by rw [hall]; exact hpaid)
  obtain ⟨hlog, hledger⟩ := hsubmitted
  have hbalance : ∀ t z, T.balance ledger t z = T.balance s.ledger t z -
      (if t = usdc ∧ z = contract then totalAmount payments else 0) +
      (if t = usdc then paidTo z payments else 0) := by
    intro t z
    rw [← balance_of_payAll hpaid, ← hledger]
  have hself : paidTo contract payments = 0 := by
    apply paidTo_eq_zero
    intro hmem
    obtain ⟨p, hp, he⟩ := List.mem_map.1 hmem
    exact haffords.external p hp he
  refine ⟨hlog, (flatMap_legs _ hlog).trans hall, ?_, ?_, ?_⟩
  · intro p hp
    have hne : ¬(usdc = usdc ∧ p.1 = contract) := fun h => haffords.external p hp h.2
    rw [hbalance, if_neg hne, if_pos rfl, paidTo_of_mem hnodup hp, Int.sub_zero]
  · rw [hbalance, if_pos ⟨rfl, rfl⟩, if_pos rfl, hself, Int.add_zero]
  · intro t z hother
    rw [hbalance]
    rcases hother with ht | ⟨hz, hmem⟩
    · rw [if_neg fun h => ht h.1, if_neg ht, Int.sub_zero, Int.add_zero]
    · rw [if_neg fun h => hz h.2, paidTo_eq_zero hmem, ite_self, Int.sub_zero, Int.add_zero]

theorem chunked_payout_guarded :
    let T := balanceToken ℕ
    let payments : List (ℕ × I128) :=
      [(5, ⟨30, by decide⟩), (6, ⟨20, by decide⟩), (7, ⟨50, by decide⟩)]
    let calls : List (Env ℕ 0 × List (ℕ × I128)) :=
      [(.signedBy 1 0 (by decide), [(5, ⟨30, by decide⟩), (6, ⟨20, by decide⟩)]),
        (.signedBy 1 9 (by decide), [(7, ⟨50, by decide⟩)])]
    let m := revenuePool T.toTokenContract 0
    calls.map Prod.snd = chunkIter payments 2 ∧
      (m.log guardedPool (submit 0 1 calls)).flatMap legs = payments ∧
      T.balance (m.run guardedPool (submit 0 1 calls)).ledger 4 0 = 0 := by
  intro T payments calls m
  have hchunks : calls.map Prod.snd = chunkIter payments 2 := rfl
  have haffords : guardedPool.Affords T 0 1 payments 4 :=
    ⟨rfl, rfl, by decide, by decide, rfl, by decide⟩
  have hauth : ∀ call ∈ calls, 1 ∈ call.1.signers := by
    intro call hcall
    rcases List.mem_pair.1 hcall with rfl | rfl <;> exact List.mem_singleton_self 1
  obtain ⟨-, hpayout⟩ := @chunked_payout ℕ (Balances ℕ) _ 0 T guardedPool payments 2 (by decide)
  obtain ⟨-, hlegs, -, hpool, -⟩ :=
    hpayout 1 4 calls (by decide) (by decide) haffords (by decide) hchunks hauth
  exact ⟨hchunks, hlegs, hpool⟩

end Callora.RevenuePool
