import Callora.Checkpoint.History

/-! Reading the log in pages, while it grows. -/

namespace Callora.Checkpoint
open Library

variable {Address : Type} {contract : Address} {s s' : State Address}
  {history : List (CheckpointRecord Address)} {startId limit : ℕ}

def getCheckpointsRange (startId limit : ℕ) : Tx Address (List (CheckpointRecord Address)) := do
  Call.ensure (limit ≠ 0) .invalidPageSize
  let s ← Call.load
  let effectiveLimit := min limit MAX_PAGE_SIZE
  let count := getCheckpointCount s
  if count < startId then pure []
  else do
    let sum ← Call.okOr (checkedAddU64 startId effectiveLimit) .overflow
    let endId := min sum (saturatingAddU64 count 1)
    pure ((List.range' startId (endId - startId)).filterMap s.checkpoint)

structure Holds (s : State Address) (history : List (CheckpointRecord Address)) : Prop where
  count : getCheckpointCount s = history.length
  numbered : s.checkpoint.Numbers history
  ids : ∀ i record, s.checkpoint i = some record → record.id = i

theorem Stores.holds (h : Stores s history) : Holds s history := by
  refine ⟨?_, h.numbered, h.ids⟩
  unfold getCheckpointCount
  rw [h.count]
  rfl

theorem Holds.map_id (h : Holds s history) {i k : ℕ} (hk : k ≤ history.length - i) :
    ((history.drop i).take k).map CheckpointRecord.id = List.range' (i + 1) k := by
  have hids : ∀ j ∈ List.range' (i + 1) k, (s.checkpoint j).map CheckpointRecord.id = some j := by
    intro j hj
    rw [List.mem_range'_1] at hj
    obtain ⟨record, hrecord⟩ := (h.numbered.exists_iff j).2 ⟨by omega, by omega⟩
    rw [hrecord, Option.map_some, h.ids j record hrecord]
  have hwindow := congrArg (List.map (Option.map CheckpointRecord.id)) (h.numbered.map_window hk)
  rw [List.map_map, List.map_map] at hwindow
  apply List.map_injective_iff.2 (Option.some_injective ℕ)
  rw [List.map_map]
  exact hwindow.trans (List.map_congr_left hids)

theorem Holds.getLast?_window (h : Holds s history) {i k : ℕ} (hk : k + 1 ≤ history.length - i) :
    ∃ last, ((history.drop i).take (k + 1)).getLast? = some last ∧ last.id = i + (k + 1) := by
  have hids := h.map_id hk
  have hlast : (((history.drop i).take (k + 1)).map CheckpointRecord.id).getLast? =
      some (i + (k + 1)) := by
    rw [hids, List.range'_concat, List.getLast?_concat]
    congr 1
    omega
  rw [List.getLast?_map] at hlast
  exact Option.map_eq_some_iff.1 hlast

/-- `records` are those of the ids from `first` up to `stop`, which is not included, in order and
without gaps. -/
def Stretch (s : State Address) (first stop : ℕ) (records : List (CheckpointRecord Address)) :
    Prop :=
  records.map some = (List.range' first (stop - first)).map s.checkpoint ∧
    records.map CheckpointRecord.id = List.range' first (stop - first)

theorem Holds.stretch (h : Holds s history) {i k stop : ℕ} (hk : k ≤ history.length - i)
    (hstop : stop - (i + 1) = k) : Stretch s (i + 1) stop ((history.drop i).take k) := by
  unfold Stretch
  rw [hstop]
  exact ⟨h.numbered.map_window hk, h.map_id hk⟩

def pageLength (startId limit count : ℕ) : ℕ :=
  min (startId + min limit 100) (count + 1) - max startId 1

theorem Holds.run_getCheckpointsRange (h : Holds s history) (startId : ℕ)
    (hcount : history.length ≤ 2 ^ 64 - 102) (hlimit : 1 ≤ limit) :
    (getCheckpointsRange startId limit).run s = .ok ((history.drop (max startId 1 - 1)).take
      (pageLength startId limit history.length)) s := by
  have hU : U64_MAX = 2 ^ 64 - 1 := rfl
  have hP : MAX_PAGE_SIZE = 100 := rfl
  unfold pageLength
  simp only [getCheckpointsRange, Call.run_bind_eq_ok, Call.run_ensure_eq_ok, Call.run_load_eq_ok,
    Call.run_ite_eq_ok, Call.run_pure_eq_ok, Call.run_okOr_eq_ok, checkedAddU64_eq_some]
  refine ⟨(), s, ⟨by omega, rfl⟩, s, s, ⟨rfl, rfl⟩, ?_⟩
  rw [h.count]
  rcases Nat.lt_or_ge history.length startId with hbeyond | hwithin
  · refine .inl ⟨hbeyond, ?_, rfl⟩
    rw [List.drop_eq_nil_of_le (by omega), List.take_nil]
  · refine .inr ⟨hwithin.not_gt, _, s, ⟨⟨by omega, rfl⟩, rfl⟩, ?_, rfl⟩
    have hsat : saturatingAddU64 history.length 1 = history.length + 1 := by
      unfold saturatingAddU64
      omega
    rw [hsat, hP]
    rcases startId with _ | i
    · rw [show min (0 + min limit 100) (history.length + 1) - 0 =
        min (0 + min limit 100) (history.length + 1) - max 0 1 + 1 by omega, List.range'_succ,
        List.filterMap_cons, h.numbered.1, h.numbered.filterMap_range']
      rfl
    · rw [h.numbered.filterMap_range', Nat.max_eq_left (Nat.le_add_left 1 i)]
      rfl

theorem pageLength_succ {i count : ℕ} :
    pageLength (i + 1) limit count = min (min limit 100) (count - i) := by
  unfold pageLength
  omega

theorem pageLength_le {count : ℕ} :
    pageLength startId limit count ≤ count - (max startId 1 - 1) := by
  unfold pageLength
  omega

/-! Every state that the contract can be in holds some history, and a run extends it. -/

def Reached (s : State Address) (history : List (CheckpointRecord Address)) : Prop :=
  (s = .deployed ∧ history = []) ∨ Stores s history

theorem Reached.holds (h : Reached s history) : Holds s history := by
  rcases h with hdeployed | hstores
  · obtain ⟨rfl, rfl⟩ := hdeployed
    exact ⟨rfl, Store.numbers_empty, fun i record hi => absurd hi (Option.some_ne_none record).symm⟩
  · exact hstores.holds

variable [DecidableEq Address]

theorem stores_of_deployed {env : Env Address contract} {op : Op Address} {r : Ret}
    (h : Effect env .deployed op r s') : Stores s' [] := by
  have hnobody {caller : Address} : ¬(State.deployed : State Address).ByAdmin env caller :=
    fun hadmin => absurd hadmin.2 (Option.some_ne_none caller).symm
  cases h with
  | init authorized fresh => exact stores_of_init (run_init_eq_ok.2 ⟨authorized, fresh, rfl⟩)
  | setAdmin admin => exact absurd admin hnobody
  | acceptAdmin _ _ initialized => exact absurd initialized (Option.some_ne_none _).symm
  | cancelAdminTransfer admin => exact absurd admin hnobody
  | createCheckpoint writes => exact absurd writes.admin hnobody
  | batchCreateCheckpoints _ writes => exact absurd writes.admin hnobody
  | upgrade admin => exact absurd admin hnobody

theorem reached_run (h : Reached s history) (is : List (Input Address contract)) :
    ∃ new, Reached ((checkpoint contract).run s is) (history ++ new) := by
  apply Machine.invariant (P := fun t => ∃ new, Reached t (history ++ new))
  · exact ⟨[], by rw [List.append_nil]; exact h⟩
  · intro t i r t' ht hstep
    obtain ⟨new, hdeployed | hstores⟩ := ht
    · obtain ⟨rfl, hempty⟩ := hdeployed
      refine ⟨new, .inr ?_⟩
      rw [hempty]
      exact stores_of_deployed (effect_of_step hstep)
    · obtain ⟨new', hnew', -⟩ := stores_of_effect hstores (effect_of_step hstep)
      rw [List.append_assoc] at hnew'
      exact ⟨new ++ new', .inr hnew'⟩

/-! A walk through the log. -/

/-- A turn of a walk: what others do before the next page is read, and how long it may be. -/
structure Turn (Address : Type) (contract : Address) where
  inputs : List (Input Address contract)
  limit : ℕ

/-- The records read page by page from `startId` on, each page from the id after the last one, up to
the first empty page; and the state in which that page was read. -/
def walk (s : State Address) (startId : ℕ) :
    List (Turn Address contract) → Option (List (CheckpointRecord Address) × State Address)
  | [] => none
  | turn :: turns =>
    let s := (checkpoint contract).run s turn.inputs
    match (getCheckpointsRange startId turn.limit).run s with
    | .ok records _ =>
      match records.getLast? with
      | none => some ([], s)
      | some last => (walk s (last.id + 1) turns).map fun rest => (records ++ rest.1, rest.2)
    | _ => none

def afterTurns (s : State Address) (turns : List (Turn Address contract)) : State Address :=
  (checkpoint contract).run s (turns.flatMap Turn.inputs)

theorem walk_cons {turn : Turn Address contract} {turns : List (Turn Address contract)} {i : ℕ}
    (h : Holds ((checkpoint contract).run s turn.inputs) history)
    (hcount : history.length ≤ 2 ^ 64 - 102) (hlimit : 1 ≤ turn.limit) :
    walk s (i + 1) (turn :: turns) =
      if history.length ≤ i then some ([], (checkpoint contract).run s turn.inputs)
      else (walk ((checkpoint contract).run s turn.inputs)
        (i + pageLength (i + 1) turn.limit history.length + 1) turns).map fun rest =>
          ((history.drop i).take (pageLength (i + 1) turn.limit history.length) ++ rest.1,
            rest.2) := by
  have hpage := h.run_getCheckpointsRange (i + 1) hcount hlimit
  rw [Nat.max_eq_left (Nat.le_add_left 1 i), Nat.add_sub_cancel] at hpage
  rw [walk, hpage]
  dsimp only
  split_ifs with hend
  · rw [List.drop_eq_nil_of_le hend, List.take_nil, List.getLast?_nil]
  · obtain ⟨k, hk⟩ : ∃ k, pageLength (i + 1) turn.limit history.length = k + 1 := by
      apply Nat.exists_eq_add_one_of_ne_zero
      rw [pageLength_succ]
      omega
    have hwithin : k + 1 ≤ history.length - i := by
      rw [← hk, pageLength_succ]
      exact Nat.min_le_right _ _
    obtain ⟨last, hlast, hid⟩ := h.getLast?_window hwithin
    rw [hk, hlast, ← hid]

theorem afterTurns_cons (s : State Address) (turn : Turn Address contract)
    (turns : List (Turn Address contract)) : afterTurns s (turn :: turns) =
      afterTurns ((checkpoint contract).run s turn.inputs) turns := by
  unfold afterTurns
  rw [List.flatMap_cons, Machine.run_append]

theorem length_le_afterTurns (h : Reached s history) (turns : List (Turn Address contract)) :
    history.length ≤ getCheckpointCount (afterTurns s turns) := by
  obtain ⟨new, hnew⟩ := reached_run h (turns.flatMap Turn.inputs)
  unfold afterTurns
  rw [hnew.holds.count, List.length_append]
  exact Nat.le_add_right _ _

theorem walk_complete {turns : List (Turn Address contract)} {i : ℕ}
    {records : List (CheckpointRecord Address)} (h : Reached s history) (hi : i ≤ history.length)
    (hlimit : ∀ turn ∈ turns, 1 ≤ turn.limit)
    (hcount : getCheckpointCount (afterTurns s turns) ≤ 2 ^ 64 - 102)
    (hwalk : walk s (i + 1) turns = some (records, s')) :
    ∃ new, Reached s' (history ++ new) ∧ records = (history ++ new).drop i := by
  induction turns generalizing s history i records with
  | nil => cases hwalk
  | cons turn turns ih =>
    obtain ⟨hturn, hlimit⟩ := List.forall_mem_cons.1 hlimit
    obtain ⟨new, hnew⟩ := reached_run h turn.inputs
    rw [afterTurns_cons] at hcount
    have hbound := (length_le_afterTurns hnew turns).trans hcount
    rw [walk_cons hnew.holds hbound hturn] at hwalk
    split_ifs at hwalk with hend
    · obtain ⟨rfl, rfl⟩ := Prod.mk.inj (Option.some.inj hwalk)
      exact ⟨new, hnew, (List.drop_eq_nil_of_le hend).symm⟩
    · obtain ⟨⟨rest, s''⟩, hrest, heq⟩ := Option.map_eq_some_iff.1 hwalk
      obtain ⟨rfl, rfl⟩ := Prod.mk.inj heq
      have hwithin : i + pageLength (i + 1) turn.limit (history ++ new).length ≤
          (history ++ new).length := by
        rw [pageLength_succ]
        omega
      obtain ⟨new', hnew', rfl⟩ := ih hnew hwithin hlimit hcount hrest
      refine ⟨new ++ new', ?_, ?_⟩
      · rw [← List.append_assoc]
        exact hnew'
      -- the page is a window of the longer log, and the walk goes on behind it
      · rw [← List.append_assoc, List.drop_append_of_le_length hwithin,
          List.drop_append_of_le_length (Nat.le_of_not_le hend), ← List.append_assoc,
          ← List.drop_drop, List.take_append_drop]

theorem exists_walk {turns : List (Turn Address contract)} {i : ℕ}
    (h : Reached s history) (hi : i ≤ history.length) (hlimit : ∀ turn ∈ turns, 1 ≤ turn.limit)
    (hcount : getCheckpointCount (afterTurns s turns) ≤ 2 ^ 64 - 102)
    (hturns : getCheckpointCount (afterTurns s turns) - i < turns.length) :
    ∃ records s', walk s (i + 1) turns = some (records, s') := by
  induction turns generalizing s history i with
  | nil => cases hturns
  | cons turn turns ih =>
    obtain ⟨hturn, hlimit⟩ := List.forall_mem_cons.1 hlimit
    obtain ⟨new, hnew⟩ := reached_run h turn.inputs
    rw [afterTurns_cons] at hcount hturns
    have hlength := length_le_afterTurns hnew turns
    rw [walk_cons hnew.holds (hlength.trans hcount) hturn]
    split_ifs with hend
    · exact ⟨_, _, rfl⟩
    · have hpage := @pageLength_succ turn.limit i (history ++ new).length
      rw [List.length_cons] at hturns
      obtain ⟨records, s', hrest⟩ := ih (i := i + pageLength (i + 1) turn.limit
        (history ++ new).length) hnew (by omega) hlimit hcount (by omega)
      rw [hrest]
      exact ⟨_, _, rfl⟩

/-- In every reachable state a page is the stretch of the log that its bounds describe; and a walk
from the first id, page after page while the log grows, reads every record up to the state of its
empty last page, once and in order. -/
theorem range_paging (is : List (Input Address contract)) :
    (getCheckpointCount ((checkpoint contract).run .deployed is) ≤ 2 ^ 64 - 102 →
      ∀ startId limit, 1 ≤ limit → ∃ records,
        (getCheckpointsRange startId limit).run ((checkpoint contract).run .deployed is) =
          .ok records ((checkpoint contract).run .deployed is) ∧
        Stretch ((checkpoint contract).run .deployed is) (max startId 1)
          (min (startId + min limit 100)
            (getCheckpointCount ((checkpoint contract).run .deployed is) + 1)) records) ∧
    ∀ turns : List (Turn Address contract), (∀ turn ∈ turns, 1 ≤ turn.limit) →
      getCheckpointCount (afterTurns ((checkpoint contract).run .deployed is) turns) ≤
        2 ^ 64 - 102 →
      (∀ records s', walk ((checkpoint contract).run .deployed is) 1 turns = some (records, s') →
        Stretch s' 1 (getCheckpointCount s' + 1) records) ∧
      (getCheckpointCount (afterTurns ((checkpoint contract).run .deployed is) turns) <
        turns.length → ∃ records s',
          walk ((checkpoint contract).run .deployed is) 1 turns = some (records, s')) := by
  obtain ⟨history, hreached⟩ :
      ∃ history, Reached ((checkpoint contract).run .deployed is) history :=
    reached_run (.inl ⟨rfl, rfl⟩) is
  have hholds := hreached.holds
  constructor
  · intro hcount startId limit hlimit
    rw [hholds.count] at hcount ⊢
    refine ⟨_, hholds.run_getCheckpointsRange _ hcount hlimit, ?_⟩
    have hpage := @pageLength_le startId limit history.length
    obtain ⟨i, hi⟩ : ∃ i, max startId 1 = i + 1 :=
      Nat.exists_eq_add_one_of_ne_zero (by omega)
    rw [hi] at hpage ⊢
    exact hholds.stretch hpage (by rw [pageLength, hi])
  · intro turns hlimit hcount
    constructor
    · intro records s' hwalk
      obtain ⟨new, hnew, rfl⟩ := walk_complete hreached (Nat.zero_le _) hlimit hcount hwalk
      have hall := hnew.holds
      have hstretch : Stretch s' 1 ((history ++ new).length + 1)
          (((history ++ new).drop 0).take (history ++ new).length) := hall.stretch le_rfl rfl
      rw [List.drop_zero, List.take_length] at hstretch
      rw [hall.count]
      exact hstretch
    · intro hturns
      exact exists_walk hreached (Nat.zero_le _) hlimit hcount hturns

def readings : List (Turn ℕ 0) := [⟨audits, 2⟩, ⟨[], 2⟩, ⟨[], 2⟩, ⟨[], 2⟩]

theorem range_paging_audits :
    let s := (checkpoint 0).run .deployed [⟨.signedBy 7 10 (by decide), .init 7⟩]
    (∃ records, (getCheckpointsRange 1 2).run s = .ok records s) ∧
      ∃ records s', walk s 1 readings = some (records, s') ∧
        records.map CheckpointRecord.id = [1, 2, 3] := by
  intro s
  obtain ⟨hpage, hwalk⟩ := range_paging
    ([⟨.signedBy 7 10 (by decide), .init 7⟩] : List (Input ℕ 0))
  obtain ⟨records, hrecords, -⟩ := hpage (by decide) 1 2 (by decide)
  obtain ⟨hcomplete, hends⟩ := hwalk readings (by decide) (by decide)
  obtain ⟨all, s', hall⟩ := hends (by decide)
  have hcount : (walk s 1 readings).map (fun rest => getCheckpointCount rest.2) = some 3 := by
    decide
  rw [hall, Option.map_some, Option.some.injEq] at hcount
  have hids := (hcomplete all s' hall).2
  rw [hcount] at hids
  exact ⟨⟨records, hrecords⟩, all, s', hall, hids⟩

end Callora.Checkpoint
