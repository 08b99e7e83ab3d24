import Mathlib.Algebra.BigOperators.Group.List.Basic
import Mathlib.Algebra.GroupWithZero.Nat
import Callora.Library.Machine
import Callora.Settlement.Archive

/-! Archiving as the developers do it, each its own queue in batches of any size and all of them
between one another. What becomes of a queue depends on neither the batches nor the others. -/

namespace Callora.Settlement.Archive
open Library

variable {Address : Type} [DecidableEq Address] {contract : Address} {s t : Queues Address}
  {developer d : Address} {n : ℕ}

structure ArchiveCall (Address : Type) (contract : Address) where
  env : Env Address contract
  developer : Address
  batchSize : UInt32

def archiver (contract : Address) : Machine (Queues Address) (ArchiveCall Address contract) ℕ where
  step s call := (archiveEvents call.env call.developer call.batchSize.toNat).forget.commit s

/-- The queue of a developer: its bounds, the events in it and those archived. -/
structure Queue where
  cursor : Cursor
  active : ℕ → Option Bytes
  archived : ℕ → Option Bytes

def Queues.queue (s : Queues Address) (developer : Address) : Queue where
  cursor := getCursor s developer
  active i := s.activeEvent (developer, i)
  archived i := s.archivedEvent (developer, i)

def asked (developer : Address) (calls : List (ArchiveCall Address contract)) : ℕ :=
  ((calls.filter fun call => call.developer = developer ∧ developer ∈ call.env.signers).map
    fun call => call.batchSize.toNat).sum

def counted (developer : Address)
    (l : List (Entry (Queues Address) (ArchiveCall Address contract) ℕ)) : ℕ :=
  ((l.filter fun e => e.input.developer = developer).map Entry.output).sum

def Queue.archive (q : Queue) (n : ℕ) : Queue where
  cursor := ⟨q.cursor.tail + n, q.cursor.head⟩
  active i := if q.cursor.tail ≤ i ∧ i < q.cursor.tail + n then none else q.active i
  archived i := if q.cursor.tail ≤ i ∧ i < q.cursor.tail + n then (q.active i).or (q.archived i)
    else q.archived i

theorem Queue.archive_zero (q : Queue) : q.archive 0 = q := by
  have hnone (i : ℕ) : ¬(q.cursor.tail ≤ i ∧ i < q.cursor.tail) := fun h => h.1.not_gt h.2
  unfold Queue.archive
  simp only [Nat.add_zero, hnone, if_false]

/-! One call. -/

theorem queue_advance :
    (s.advance developer n).queue developer = (s.queue developer).archive n := by
  unfold Queues.queue Queue.archive
  rw [getCursor_advance, Queue.mk.injEq]
  refine ⟨rfl, ?_, ?_⟩
  · funext i
    rw [activeEvent_advance]
    simp only [true_and]
  · funext i
    rw [archivedEvent_advance]
    simp only [true_and]

theorem queue_advance_of_ne (hd : d ≠ developer) :
    (s.advance developer n).queue d = s.queue d := by
  have hcursor : getCursor (s.advance developer n) d = getCursor s d := by
    unfold getCursor
    rw [cursor_advance]
    split_ifs
    · rfl
    · rw [Store.set_of_ne hd]
  unfold Queues.queue
  rw [hcursor, Queue.mk.injEq]
  refine ⟨rfl, ?_, ?_⟩
  · funext i
    rw [activeEvent_advance, if_neg fun h => hd h.1]
  · funext i
    rw [archivedEvent_advance, if_neg fun h => hd h.1]

section
variable {call : ArchiveCall Address contract}

theorem step_of_signed (hauth : call.developer ∈ call.env.signers)
    (hhead : (getCursor s call.developer).head ≤ U64_MAX) :
    (archiver contract).step s call =
      some ((getCursor s call.developer).taken call.batchSize.toNat,
        s.advance call.developer ((getCursor s call.developer).taken call.batchSize.toNat)) := by
  have hbatch : call.batchSize.toNat ≤ U32_MAX := Nat.le_of_lt_succ call.batchSize.toNat_lt
  exact Call.commit_eq_some.2 (congrArg Prod.snd (run_archiveEvents hauth hhead hbatch))

theorem step_of_unsigned (hauth : call.developer ∉ call.env.signers) :
    (archiver contract).step s call = none := by
  have hrefused : (Traced.lift (requireAuth call.env call.developer) : Tx Address Unit).run s =
      ([], .trap .unauthorized) := by
    rw [Traced.run_lift, run_requireAuth_eq_trap.2 ⟨hauth, rfl⟩]
  have htrap : (archiveEvents call.env call.developer call.batchSize.toNat).forget.run s =
      .trap .unauthorized := congrArg Prod.snd (Traced.run_bind_of_trap hrefused)
  apply Call.commit_eq_none.2
  intro count s' hrun
  rw [htrap] at hrun
  cases hrun

end

theorem Queue.archive_add (q : Queue) (n m : ℕ) : (q.archive n).archive m = q.archive (n + m) := by
  unfold Queue.archive
  rw [Queue.mk.injEq]
  refine ⟨?_, ?_, ?_⟩
  · rw [Nat.add_assoc]
  · funext i
    dsimp only
    split_ifs <;> first | rfl | omega
  · funext i
    dsimp only
    split_ifs <;> first | rfl | omega

/-! Runs. -/

theorem asked_concat (d : Address) (calls : List (ArchiveCall Address contract))
    (call : ArchiveCall Address contract) : asked d (calls ++ [call]) = asked d calls +
      if call.developer = d ∧ d ∈ call.env.signers then call.batchSize.toNat else 0 := by
  unfold asked
  rw [List.filter_append, List.map_append, List.sum_append, List.filter_singleton]
  split_ifs with h
  · simp only [h, decide_true, and_self, cond_true, List.map_singleton, List.sum_singleton]
  · simp only [h, decide_false, cond_false, List.map_nil, List.sum_nil]

theorem counted_append (d : Address)
    (l l' : List (Entry (Queues Address) (ArchiveCall Address contract) ℕ)) :
    counted d (l ++ l') = counted d l + counted d l' := by
  unfold counted
  rw [List.filter_append, List.map_append, List.sum_append]

theorem queue_next {call : ArchiveCall Address contract}
    (hhead : (getCursor s call.developer).head ≤ U64_MAX) (d : Address) :
    let n := (getCursor s d).taken
      (if call.developer = d ∧ d ∈ call.env.signers then call.batchSize.toNat else 0)
    ((archiver contract).next s call).queue d = (s.queue d).archive n ∧
      counted d ((archiver contract).entries s call) = n := by
  have hzero : (getCursor s d).taken 0 = 0 := Nat.zero_min _
  intro n
  by_cases hauth : call.developer ∈ call.env.signers
  · have hstep := step_of_signed hauth hhead
    rw [Machine.next_of_step hstep, Machine.entries_of_step hstep]
    by_cases hd : call.developer = d
    · have hn : n = (getCursor s d).taken call.batchSize.toNat := by
        rw [hd] at hauth
        have hboth : call.developer = d ∧ d ∈ call.env.signers := ⟨hd, hauth⟩
        exact congrArg (getCursor s d).taken (if_pos hboth)
      rw [hn, hd, queue_advance]
      refine ⟨rfl, ?_⟩
      simp only [counted, List.filter_singleton, hd, decide_true, cond_true, List.map_singleton,
        List.sum_singleton]
    · have hn : n = 0 := (congrArg _ (if_neg fun h => hd h.1)).trans hzero
      rw [hn, Queue.archive_zero, queue_advance_of_ne (Ne.symm hd)]
      refine ⟨rfl, ?_⟩
      simp only [counted, List.filter_singleton, hd, decide_false, cond_false, List.map_nil,
        List.sum_nil]
  · have hn : n = 0 := by
      have hnot : ¬(call.developer = d ∧ d ∈ call.env.signers) := by
        intro h
        rw [← h.1] at h
        exact hauth h.2
      exact (congrArg _ (if_neg hnot)).trans hzero
    have hstep := step_of_unsigned (s := s) hauth
    rw [Machine.next_of_rollback hstep, Machine.entries_of_rollback hstep, hn,
      Queue.archive_zero]
    exact ⟨rfl, rfl⟩

/-- However the developers' calls are interleaved and their batches cut, the queue of each ends up
as one batch leaves it that is as large as all of its own together, and its calls have counted as
much. -/
theorem archives_any_order {s : Queues Address}
    (hhead : ∀ d, (getCursor s d).head ≤ U64_MAX) (calls : List (ArchiveCall Address contract))
    (d : Address) :
    ((archiver contract).run s calls).queue d =
        (s.queue d).archive ((getCursor s d).taken (asked d calls)) ∧
      counted d ((archiver contract).log s calls) = (getCursor s d).taken (asked d calls) := by
  induction calls using List.reverseRecOn generalizing d with
  | nil =>
    have hnone : (getCursor s d).taken (asked d ([] : List (ArchiveCall Address contract))) = 0 :=
      Nat.zero_min _
    rw [hnone, Queue.archive_zero]
    exact ⟨rfl, rfl⟩
  | append_singleton calls call ih =>
    rcases ih d with ⟨hqueue, hcounted⟩
    have hcursor (d : Address) : getCursor ((archiver contract).run s calls) d =
        ⟨(getCursor s d).tail + (getCursor s d).taken (asked d calls), (getCursor s d).head⟩ :=
      congrArg Queue.cursor (ih d).1
    have hbounded : (getCursor ((archiver contract).run s calls) call.developer).head ≤
        U64_MAX := by
      rw [hcursor]
      exact hhead call.developer
    rcases queue_next hbounded d with ⟨hnext, hmore⟩
    rw [hcursor] at hnext hmore
    rw [Machine.run_concat, Machine.log_concat, asked_concat, counted_append, ← taken_add, hnext,
      hqueue, Queue.archive_add, hcounted, hmore]
    exact ⟨rfl, rfl⟩

theorem archives_any_order_holed :
    let archive (who developer : ℕ) (h : 0 ≠ who) (batchSize : UInt32) : ArchiveCall ℕ 0 :=
      ⟨.signedBy who 0 h, developer, batchSize⟩
    let calls := [archive 5 5 (by decide) 2, archive 6 6 (by decide) 3, archive 6 5 (by decide) 1,
      archive 5 5 (by decide) 1]
    ((archiver 0).run holed calls).queue 5 = (holed.queue 5).archive 3 ∧
      counted 5 ((archiver 0).log holed calls) = 3 := by
  intro archive calls
  have hhead (d : ℕ) : (getCursor holed d).head ≤ U64_MAX := by
    show ((Store.empty.set 5 (⟨0, 4⟩ : Cursor) d).getD ⟨0, 0⟩).head ≤ U64_MAX
    rw [Store.set_apply]
    split_ifs
    · decide
    · exact Nat.zero_le _
  have hasked : (getCursor holed 5).taken (asked 5 calls) = 3 := by decide
  have harchived := archives_any_order hhead calls 5
  rw [hasked] at harchived
  exact harchived

end Callora.Settlement.Archive
