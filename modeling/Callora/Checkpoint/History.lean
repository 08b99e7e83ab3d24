import Callora.Library.AppendLog
import Callora.Checkpoint.Run

/-! What the contract is for: a history of records to which entries are only ever added. The
history is a list; the two counters are its length, and the stored records are its entries. -/

namespace Callora.Checkpoint
open Library

variable {Address : Type} {contract : Address} {s s' : State Address}
  {history : List (CheckpointRecord Address)}

/-- An initialized contract which stores the records of `history` and counts them. -/
structure Stores (s : State Address) (history : List (CheckpointRecord Address)) : Prop where
  initialized : s.admin ≠ none
  next : s.nextCheckpointId = some history.length
  count : s.checkpointCount = some history.length
  numbered : s.checkpoint.Numbers history
  nonneg : ∀ record ∈ history, 0 ≤ record.balance.val
  ids : ∀ i record, s.checkpoint i = some record → record.id = i

theorem Stores.latestId (h : Stores s history) : getLatestCheckpointId s = history.length := by
  unfold getLatestCheckpointId
  rw [h.next]
  rfl

theorem Stores.append (h : Stores s history) {item : Item Address} (hitem : 0 ≤ item.balance.val)
    (timestamp : ℕ) : Stores (s.append timestamp item)
      (history ++ [item.record (history.length + 1) timestamp]) := by
  have hlen : history.length + 1 =
      (history ++ [item.record (history.length + 1) timestamp]).length := by
    rw [List.length_append, List.length_singleton]
  unfold State.append
  rw [h.latestId]
  constructor
  · exact h.initialized
  · exact congrArg some hlen
  · exact congrArg some hlen
  · exact h.numbered.append _
  · intro record hrecord
    rcases List.mem_append.1 hrecord with hold | hnew
    · exact h.nonneg record hold
    · rw [List.mem_singleton.1 hnew]
      exact hitem
  · exact Store.forall_set h.ids rfl

theorem Stores.appendAll (h : Stores s history) {items : List (Item Address)}
    (hitems : ∀ item ∈ items, 0 ≤ item.balance.val) (timestamp : ℕ) :
    ∃ new, Stores (items.foldl (State.append timestamp) s) (history ++ new) ∧
      ∀ record ∈ new, record.timestamp = timestamp := by
  induction items generalizing s history with
  | nil =>
    refine ⟨[], ?_, List.forall_mem_nil _⟩
    rw [List.append_nil]
    exact h
  | cons item items ih =>
    obtain ⟨hitem, hrest⟩ := List.forall_mem_cons.1 hitems
    obtain ⟨new, hnew, htime⟩ := ih (h.append hitem timestamp) hrest
    rw [List.append_assoc, List.singleton_append] at hnew
    exact ⟨_, hnew, List.forall_mem_cons.2 ⟨rfl, htime⟩⟩

variable [DecidableEq Address] {env : Env Address contract} {is : List (Input Address contract)}

theorem stores_of_init {env₀ : Env Address contract} {admin : Address}
    (h : (init env₀ admin).run .deployed = .ok () s) : Stores s [] := by
  obtain ⟨-, -, rfl⟩ := run_init_eq_ok.1 h
  refine ⟨Option.some_ne_none _, rfl, rfl, Store.numbers_empty, List.forall_mem_nil _, ?_⟩
  intro i record hi
  exact absurd hi (Option.some_ne_none record).symm

omit [DecidableEq Address] in
theorem stores_of_effect {op : Op Address} {r : Ret} (h : Stores s history)
    (he : Effect env s op r s') :
    ∃ new, Stores s' (history ++ new) ∧ ∀ record ∈ new, record.timestamp = env.timestamp := by
  have hkeep {t : State Address} (hadmin : t.admin ≠ none)
      (hnext : t.nextCheckpointId = s.nextCheckpointId)
      (hcount : t.checkpointCount = s.checkpointCount) (hrecords : t.checkpoint = s.checkpoint) :
      ∃ new, Stores t (history ++ new) ∧ ∀ record ∈ new, record.timestamp = env.timestamp := by
    refine ⟨[], ?_, List.forall_mem_nil _⟩
    rw [List.append_nil]
    constructor
    · exact hadmin
    · rw [hnext]
      exact h.next
    · rw [hcount]
      exact h.count
    · rw [hrecords]
      exact h.numbered
    · exact h.nonneg
    · rw [hrecords]
      exact h.ids
  cases he with
  | init _ fresh => exact absurd fresh h.initialized
  | setAdmin => exact hkeep h.initialized rfl rfl rfl
  | acceptAdmin => exact hkeep (Option.some_ne_none _) rfl rfl rfl
  | cancelAdminTransfer => exact hkeep h.initialized rfl rfl rfl
  | createCheckpoint writes => exact h.appendAll writes.nonneg env.timestamp
  | batchCreateCheckpoints _ writes => exact h.appendAll writes.nonneg env.timestamp
  | upgrade => exact hkeep h.initialized rfl rfl rfl

theorem stores_run (h : Stores s history) (is : List (Input Address contract)) :
    ∃ new, Stores ((checkpoint contract).run s is) (history ++ new) := by
  apply Machine.invariant (P := fun t => ∃ new, Stores t (history ++ new))
  · exact ⟨[], by rw [List.append_nil]; exact h⟩
  · intro t i r t' ht hstep
    obtain ⟨new, hnew⟩ := ht
    obtain ⟨new', hnew', -⟩ := stores_of_effect hnew (effect_of_step hstep)
    rw [List.append_assoc] at hnew'
    exact ⟨new ++ new', hnew'⟩

def Chronological (l : List (LogEntry Address contract)) : Prop :=
  (l.map fun e => e.input.env.timestamp).Pairwise (· ≤ ·)

structure Dated (l : List (LogEntry Address contract)) (history : List (CheckpointRecord Address)) :
    Prop where
  ordered : history.Pairwise fun p r => p.timestamp ≤ r.timestamp
  dated : ∀ record ∈ history, ∃ e ∈ l, record.timestamp = e.input.env.timestamp

omit [DecidableEq Address] in
theorem Dated.concat {l : List (LogEntry Address contract)} {e : LogEntry Address contract}
    {new : List (CheckpointRecord Address)} (h : Dated l history)
    (hclock : Chronological (l ++ [e]))
    (hnew : ∀ record ∈ new, record.timestamp = e.input.env.timestamp) :
    Dated (l ++ [e]) (history ++ new) := by
  unfold Chronological at hclock
  rw [List.map_append, List.pairwise_append] at hclock
  obtain ⟨-, -, hlast⟩ := hclock
  constructor
  · refine List.pairwise_append.2 ⟨h.ordered, ?_, ?_⟩
    · apply List.pairwise_of_forall_mem_list
      intro p hp r hr
      rw [hnew p hp, hnew r hr]
    · intro p hp r hr
      obtain ⟨e', he', htime⟩ := h.dated p hp
      rw [hnew r hr, htime]
      exact hlast _ (List.mem_map_of_mem he') _ (List.mem_singleton_self _)
  · intro record hrecord
    rcases List.mem_append.1 hrecord with hold | hadded
    · obtain ⟨e', he', htime⟩ := h.dated record hold
      exact ⟨e', List.mem_append_left _ he', htime⟩
    · exact ⟨e, List.mem_append_right _ (List.mem_singleton_self _), hnew record hadded⟩

theorem dated_run (h : Stores s []) (hclock : Chronological ((checkpoint contract).log s is)) :
    ∃ history, Stores ((checkpoint contract).run s is) history ∧
      Dated ((checkpoint contract).log s is) history := by
  refine Machine.log_invariant
    (P := fun l t => Chronological l → ∃ history, Stores t history ∧ Dated l history) ?_ ?_ is
    hclock
  · intro _
    exact ⟨[], h, List.Pairwise.nil, List.forall_mem_nil _⟩
  · intro l t i r t' ih hstep hclock
    have hbefore : Chronological l := by
      unfold Chronological at hclock
      rw [List.map_append, List.pairwise_append] at hclock
      exact hclock.1
    obtain ⟨history, hstores, hdated⟩ := ih hbefore
    obtain ⟨new, hstores', hnew⟩ := stores_of_effect hstores (effect_of_step hstep)
    exact ⟨history ++ new, hstores', hdated.concat hclock hnew⟩

/-! The log of a run. -/

/-- A log of `n` records in the order of time, numbered from one and without gaps. -/
structure Gapless (s : State Address) (n : ℕ) : Prop where
  count : s.checkpointCount = some n
  next : s.nextCheckpointId = some n
  exists_iff : ∀ i, (∃ record, s.checkpoint i = some record) ↔ 1 ≤ i ∧ i ≤ n
  ids : ∀ i record, s.checkpoint i = some record → record.id = i
  nonneg : ∀ i record, s.checkpoint i = some record → 0 ≤ record.balance.val
  ordered : ∀ i previous record, s.checkpoint i = some previous →
    s.checkpoint (i + 1) = some record → previous.timestamp ≤ record.timestamp
  latest : getLatestCheckpoint s = s.checkpoint n
  latest_eq_none : getLatestCheckpoint s = none ↔ n = 0

omit [DecidableEq Address] in
theorem Stores.gapless (h : Stores s history)
    (hordered : history.Pairwise fun p r => p.timestamp ≤ r.timestamp) :
    Gapless s history.length := by
  have hexists := h.numbered.exists_iff
  have hlatest : getLatestCheckpoint s = s.checkpoint history.length := by
    unfold getLatestCheckpoint
    rw [h.latestId]
    split_ifs with hzero
    · rw [hzero]
      exact h.numbered.1.symm
    · rfl
  refine ⟨h.count, h.next, hexists, h.ids, ?_, ?_, hlatest, ?_⟩
  · intro i record hi
    obtain ⟨j, -, hj⟩ := h.numbered.eq_some hi
    exact h.nonneg record (List.mem_of_getElem? hj)
  · intro i previous record hprevious hrecord
    exact h.numbered.rel_of_pairwise hordered hprevious hrecord
  · rw [hlatest, Option.eq_none_iff_forall_ne_some]
    constructor
    · intro hnone
      by_contra hpos
      obtain ⟨record, hrecord⟩ := (hexists history.length).2
        ⟨Nat.one_le_iff_ne_zero.2 hpos, le_rfl⟩
      exact hnone record hrecord
    · intro hzero record hrecord
      have hpos := ((hexists history.length).1 ⟨record, hrecord⟩).1
      omega

/-- The log of every run from `init` is without gaps, and no record that was ever in it has
changed. -/
theorem checkpoints_append_only {env₀ : Env Address contract} {admin : Address}
    {s₀ : State Address} (hinit : (init env₀ admin).run .deployed = .ok () s₀)
    (is : List (Input Address contract))
    (hclock : Chronological ((checkpoint contract).log s₀ is)) :
    (∃ n, Gapless ((checkpoint contract).run s₀ is) n) ∧
      ∀ js ks, is = js ++ ks → ∀ i record,
        ((checkpoint contract).run s₀ js).checkpoint i = some record →
          ((checkpoint contract).run s₀ is).checkpoint i = some record := by
  have hempty := stores_of_init hinit
  constructor
  · obtain ⟨history, hstores, hdated⟩ := dated_run hempty hclock
    exact ⟨history.length, hstores.gapless hdated.ordered⟩
  · intro js ks his i record hi
    obtain ⟨old, hold⟩ := stores_run hempty js
    obtain ⟨new, hnew⟩ := stores_run hold ks
    rw [← Machine.run_append, ← his] at hnew
    exact hold.numbered.stable hnew.numbered hi

def audited : State ℕ where
  admin := some 7
  nextCheckpointId := some 0
  checkpointCount := some 0
  events := [.init 7]

def audits : List (Input ℕ 0) :=
  [⟨.signedBy 7 20 (by decide), .createCheckpoint 7 2 4 ⟨50, by decide⟩ "monthly"⟩,
    ⟨.signedBy 9 25 (by decide), .createCheckpoint 9 9 4 ⟨70, by decide⟩ "monthly"⟩,
    ⟨.signedBy 7 30 (by decide), .batchCreateCheckpoints 7
      [(2, 4, ⟨40, by decide⟩, "monthly"), (3, 4, 0, "monthly")]⟩]

theorem checkpoints_append_only_audits :
    ((checkpoint 0).run audited audits).checkpointCount = some 3 ∧
      (∃ n, Gapless ((checkpoint 0).run audited audits) n) ∧
      ∀ js ks, audits = js ++ ks → ∀ i record,
        ((checkpoint 0).run audited js).checkpoint i = some record →
          ((checkpoint 0).run audited audits).checkpoint i = some record := by
  have hinit : (init (.signedBy 7 10 (by decide) : Env ℕ 0) 7).run .deployed = .ok () audited := rfl
  have hclock : Chronological ((checkpoint 0).log audited audits) := by
    unfold Chronological
    decide
  exact ⟨by decide, checkpoints_append_only hinit audits hclock⟩

end Callora.Checkpoint
