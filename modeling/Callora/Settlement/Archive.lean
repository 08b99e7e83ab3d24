import Callora.Host
import Callora.Library.Store
import Callora.Library.Traced

/-! The event queue of a developer and its archive. No entrypoint of the settlement contract uses
the module yet, so it is modelled with storage of its own; an archived entry is taken not to
expire. -/

namespace Callora.Settlement.Archive
open Library

abbrev Bytes : Type := List UInt8

/-- The bounds of a queue: `tail` is the oldest index not archived, `head` the next one to
insert. -/
structure Cursor where
  tail : ℕ
  head : ℕ
deriving DecidableEq

/-- The entries that belong to the queues. Those of the archive are in temporary storage. -/
@[ext] structure Queues (Address : Type) where
  cursor : Store Address Cursor := .empty
  activeEvent : Store (Address × ℕ) Bytes := .empty
  archivedEvent : Store (Address × ℕ) Bytes := .empty

/-- A call that cannot return an error, traced with the archive entries that it writes. -/
abbrev Tx (Address α : Type) : Type := Traced Empty (Queues Address) (Address × ℕ) α

variable {Address : Type} [DecidableEq Address] {contract : Address}

def getCursor (s : Queues Address) (developer : Address) : Cursor :=
  (s.cursor developer).getD ⟨0, 0⟩

def moveEvent (developer : Address) (index : ℕ) : Tx Address Unit := do
  let s ← Traced.lift Call.load
  match s.activeEvent (developer, index) with
  | some eventData => do
    Traced.emit (developer, index)
    Traced.lift (Call.modify fun s => { s with
      archivedEvent := s.archivedEvent.set (developer, index) eventData
      activeEvent := s.activeEvent.remove (developer, index) })
  | none => pure ()

/-- The loop ends at the size of the batch, at the head of the queue, or where a counter would
overflow. -/
def archiveLoop (developer : Address) (batchSize : ℕ) (cursor : Cursor) (archivedCount : ℕ) :
    Tx Address (Cursor × ℕ) :=
  if archivedCount < batchSize then
    if cursor.head ≤ cursor.tail then pure (cursor, archivedCount)
    else do
      moveEvent developer cursor.tail
      match checkedAddU64 cursor.tail 1 with
      | none => pure (cursor, archivedCount)
      | some tail =>
        match _hcount : checkedAddU32 archivedCount 1 with
        | none => pure ({ cursor with tail := tail }, archivedCount)
        | some count => archiveLoop developer batchSize { cursor with tail := tail } count
  else pure (cursor, archivedCount)
termination_by batchSize - archivedCount
decreasing_by
  have hnext := (checkedAddU32_eq_some.1 _hcount).2
  omega

def archiveEvents (env : Env Address contract) (developer : Address) (batchSize : ℕ) :
    Tx Address ℕ := do
  Traced.lift (requireAuth env developer)
  let s ← Traced.lift Call.load
  let (cursor, archivedCount) ← archiveLoop developer batchSize (getCursor s developer) 0
  if 0 < archivedCount then
    Traced.lift (Call.modify fun s => { s with cursor := s.cursor.set developer cursor })
  pure archivedCount

/-! What a pass does, and what a stretch of passes does. -/

variable {s s' : Queues Address} {developer d : Address} {index first i n : ℕ}

def Queues.move (developer : Address) (s : Queues Address) (index : ℕ) : Queues Address :=
  match s.activeEvent (developer, index) with
  | some eventData => { s with
      archivedEvent := s.archivedEvent.set (developer, index) eventData
      activeEvent := s.activeEvent.remove (developer, index) }
  | none => s

def Queues.moveAll (developer : Address) (s : Queues Address) (first n : ℕ) : Queues Address :=
  (List.range' first n).foldl (Queues.move developer) s

omit [DecidableEq Address] in
def activeIn (s : Queues Address) (developer : Address) (first n : ℕ) : List ℕ :=
  (List.range' first n).filter fun i => (s.activeEvent (developer, i)).isSome

theorem run_moveEvent : (moveEvent developer index).run s =
    (if (s.activeEvent (developer, index)).isSome then [(developer, index)] else [],
      .ok () (s.move developer index)) := by
  have hload : (Traced.lift Call.load : Tx Address (Queues Address)).run s = ([], .ok s s) := rfl
  rw [moveEvent, Traced.run_bind_of_ok hload, Queues.move]
  cases s.activeEvent (developer, index) with
  | none => rfl
  | some eventData => rfl

@[simp] theorem cursor_move : (s.move developer index).cursor = s.cursor := by
  unfold Queues.move
  cases s.activeEvent (developer, index) <;> rfl

theorem activeEvent_move : (s.move developer index).activeEvent (d, i) =
    if d = developer ∧ i = index then none else s.activeEvent (d, i) := by
  unfold Queues.move
  cases hevent : s.activeEvent (developer, index) with
  | none =>
    split_ifs with hkey
    · rw [hkey.1, hkey.2, hevent]
    · rfl
  | some eventData => simp only [Store.remove_apply, Prod.mk.injEq]

theorem archivedEvent_move : (s.move developer index).archivedEvent (d, i) =
    if d = developer ∧ i = index then (s.activeEvent (d, i)).or (s.archivedEvent (d, i))
    else s.archivedEvent (d, i) := by
  unfold Queues.move
  cases hevent : s.activeEvent (developer, index) with
  | none =>
    split_ifs with hkey
    · rw [hkey.1, hkey.2, hevent, Option.none_or]
    · rfl
  | some eventData =>
    simp only [Store.set_apply, Prod.mk.injEq]
    split_ifs with hkey
    · rw [hkey.1, hkey.2, hevent, Option.some_or]
    · rfl

theorem moveAll_succ : s.moveAll developer first (n + 1) =
    (s.move developer first).moveAll developer (first + 1) n := by
  unfold Queues.moveAll
  rw [List.range'_succ, List.foldl_cons]

@[simp] theorem cursor_moveAll : (s.moveAll developer first n).cursor = s.cursor := by
  induction n generalizing s first with
  | zero => rfl
  | succ n ih => rw [moveAll_succ, ih, cursor_move]

theorem activeEvent_moveAll : (s.moveAll developer first n).activeEvent (d, i) =
    if d = developer ∧ first ≤ i ∧ i < first + n then none else s.activeEvent (d, i) := by
  induction n generalizing s first with
  | zero =>
    rw [if_neg (by omega)]
    rfl
  | succ n ih =>
    rw [moveAll_succ, ih, activeEvent_move]
    by_cases hd : d = developer
    · simp only [hd, true_and]
      split_ifs <;> first | rfl | omega
    · simp only [hd, false_and, if_false]

theorem archivedEvent_moveAll : (s.moveAll developer first n).archivedEvent (d, i) =
    if d = developer ∧ first ≤ i ∧ i < first + n
    then (s.activeEvent (d, i)).or (s.archivedEvent (d, i)) else s.archivedEvent (d, i) := by
  induction n generalizing s first with
  | zero =>
    rw [if_neg (by omega)]
    rfl
  | succ n ih =>
    rw [moveAll_succ, ih, activeEvent_move, archivedEvent_move]
    by_cases hd : d = developer
    · simp only [hd, true_and]
      split_ifs <;> first | rfl | omega
    · simp only [hd, false_and, if_false]

theorem activeIn_succ : activeIn s developer first (n + 1) =
    (if (s.activeEvent (developer, first)).isSome then [first] else []) ++
      activeIn (s.move developer first) developer (first + 1) n := by
  have hrest : activeIn (s.move developer first) developer (first + 1) n =
      (List.range' (first + 1) n).filter fun i => (s.activeEvent (developer, i)).isSome := by
    apply List.filter_congr
    intro i hi
    rw [List.mem_range'_1] at hi
    rw [activeEvent_move, if_neg (by omega)]
  rw [hrest, activeIn, List.range'_succ, List.filter_cons]
  split_ifs <;> rfl

/-! The loop. -/

theorem archiveLoop_of_lt {cursor : Cursor} {batchSize count : ℕ} (hcount : count < batchSize)
    (htail : cursor.tail < cursor.head) (hhead : cursor.head ≤ U64_MAX)
    (hbatch : batchSize ≤ U32_MAX) : archiveLoop developer batchSize cursor count = (do
      moveEvent developer cursor.tail
      archiveLoop developer batchSize { cursor with tail := cursor.tail + 1 } (count + 1)) := by
  have hstep : checkedAddU64 cursor.tail 1 = some (cursor.tail + 1) :=
    checkedAddU64_eq_some.2 ⟨by omega, rfl⟩
  have hnext : checkedAddU32 count 1 = some (count + 1) :=
    checkedAddU32_eq_some.2 ⟨by omega, rfl⟩
  conv_lhs => rw [archiveLoop, if_pos hcount, if_neg (by omega), hstep]
  congr 1
  funext _
  dsimp only
  split
  · rename_i hnone
    rw [hnext] at hnone
    cases hnone
  · rename_i count' hsome
    obtain rfl := Option.some.inj (hnext.symm.trans hsome)
    rfl

theorem run_archiveLoop {cursor : Cursor} {batchSize count : ℕ} (hhead : cursor.head ≤ U64_MAX)
    (hbatch : batchSize ≤ U32_MAX) (hn : n = min (batchSize - count) (cursor.head - cursor.tail)) :
    (archiveLoop developer batchSize cursor count).run s =
      ((activeIn s developer cursor.tail n).map fun i => (developer, i),
        .ok ({ cursor with tail := cursor.tail + n }, count + n)
          (s.moveAll developer cursor.tail n)) := by
  induction n generalizing s cursor count with
  | zero =>
    rw [archiveLoop]
    split_ifs with hmore hend
    · rfl
    · omega
    · rfl
  | succ n ih =>
    have hrest := @ih (s.move developer cursor.tail) { cursor with tail := cursor.tail + 1 }
      (count + 1) hhead (by dsimp only; omega)
    have hone : (if (s.activeEvent (developer, cursor.tail)).isSome
        then [(developer, cursor.tail)] else []) =
        (if (s.activeEvent (developer, cursor.tail)).isSome then [cursor.tail] else []).map
          fun i => (developer, i) := by
      split_ifs <;> rfl
    rw [archiveLoop_of_lt (by omega) (by omega) hhead hbatch,
      Traced.run_bind_of_ok run_moveEvent, hrest, activeIn_succ, moveAll_succ, List.map_append,
      hone, Nat.add_assoc, Nat.add_assoc, Nat.add_comm 1 n]

/-! The call. -/

def Cursor.taken (cursor : Cursor) (batchSize : ℕ) : ℕ := min batchSize (cursor.head - cursor.tail)

def Queues.advance (developer : Address) (s : Queues Address) (n : ℕ) : Queues Address :=
  let cursor := getCursor s developer
  let s' := s.moveAll developer cursor.tail n
  if n = 0 then s'
  else { s' with cursor := s'.cursor.set developer { cursor with tail := cursor.tail + n } }

theorem run_archiveEvents {env : Env Address contract} {batchSize : ℕ}
    (hauth : developer ∈ env.signers) (hhead : (getCursor s developer).head ≤ U64_MAX)
    (hbatch : batchSize ≤ U32_MAX) :
    (archiveEvents env developer batchSize).run s =
      ((activeIn s developer (getCursor s developer).tail
          ((getCursor s developer).taken batchSize)).map fun i => (developer, i),
        .ok ((getCursor s developer).taken batchSize)
          (s.advance developer ((getCursor s developer).taken batchSize))) := by
  have hauthRun : (Traced.lift (requireAuth env developer) : Tx Address Unit).run s =
      ([], .ok () s) := by
    rw [Traced.run_lift, run_requireAuth_eq_ok.2 ⟨hauth, rfl⟩]
  have hload : (Traced.lift Call.load : Tx Address (Queues Address)).run s = ([], .ok s s) := rfl
  generalize hn : (getCursor s developer).taken batchSize = n
  have hloop := @run_archiveLoop _ _ s developer n (getCursor s developer) batchSize 0 hhead hbatch
    (by rw [Nat.sub_zero]; exact hn.symm)
  rw [Nat.zero_add] at hloop
  rw [archiveEvents, Traced.run_bind_of_ok hauthRun, Traced.run_bind_of_ok hload,
    Traced.run_bind_of_ok hloop, List.nil_append, List.nil_append]
  dsimp only
  unfold Queues.advance
  rcases Nat.eq_zero_or_pos n with rfl | hpos
  · rw [if_neg (Nat.lt_irrefl 0), if_pos rfl, Traced.run_pure, List.append_nil]
  -- the cursor is written only where something was taken
  · rw [if_pos hpos, if_neg hpos.ne']
    exact congrArg (·, _) (List.append_nil _)

/-! Batches after one another. -/

theorem cursor_advance : (s.advance developer n).cursor = if n = 0 then s.cursor
    else s.cursor.set developer
      ⟨(getCursor s developer).tail + n, (getCursor s developer).head⟩ := by
  unfold Queues.advance
  split_ifs
  · exact cursor_moveAll
  · exact congrArg (Store.set · developer _) cursor_moveAll

theorem activeEvent_advance : (s.advance developer n).activeEvent (d, i) =
    if d = developer ∧ (getCursor s developer).tail ≤ i ∧ i < (getCursor s developer).tail + n
    then none else s.activeEvent (d, i) := by
  rw [← activeEvent_moveAll]
  unfold Queues.advance
  split_ifs <;> rfl

theorem archivedEvent_advance : (s.advance developer n).archivedEvent (d, i) =
    if d = developer ∧ (getCursor s developer).tail ≤ i ∧ i < (getCursor s developer).tail + n
    then (s.activeEvent (d, i)).or (s.archivedEvent (d, i)) else s.archivedEvent (d, i) := by
  rw [← archivedEvent_moveAll]
  unfold Queues.advance
  split_ifs <;> rfl

theorem getCursor_advance : getCursor (s.advance developer n) developer =
    ⟨(getCursor s developer).tail + n, (getCursor s developer).head⟩ := by
  have hcursor := @cursor_advance _ _ s developer n
  unfold getCursor
  rw [hcursor]
  split_ifs with hzero
  · rw [hzero]
    rfl
  · rw [Store.set_self, Option.getD_some]
    rfl

theorem advance_add {m : ℕ} : (s.advance developer n).advance developer m =
    s.advance developer (n + m) := by
  have hcursor : ((s.advance developer n).advance developer m).cursor =
      (s.advance developer (n + m)).cursor := by
    rw [cursor_advance, getCursor_advance, cursor_advance, cursor_advance, Nat.add_assoc]
    by_cases hn : n = 0
    · simp only [hn, if_true, Nat.zero_add]
    · by_cases hm : m = 0
      · simp only [hm, if_true, Nat.add_zero]
      · rw [if_neg hm, if_neg hn, if_neg (by omega)]
        exact Store.set_set ..
  have hactive : ((s.advance developer n).advance developer m).activeEvent =
      (s.advance developer (n + m)).activeEvent := by
    funext ⟨d, i⟩
    rw [activeEvent_advance, getCursor_advance, activeEvent_advance, activeEvent_advance]
    by_cases hd : d = developer
    · simp only [hd, true_and]
      split_ifs <;> first | rfl | omega
    · simp only [hd, false_and, if_false]
  have harchived : ((s.advance developer n).advance developer m).archivedEvent =
      (s.advance developer (n + m)).archivedEvent := by
    funext ⟨d, i⟩
    rw [archivedEvent_advance, getCursor_advance, archivedEvent_advance, activeEvent_advance,
      archivedEvent_advance]
    by_cases hd : d = developer
    · simp only [hd, true_and]
      split_ifs <;> first | rfl | omega
    · simp only [hd, false_and, if_false]
  exact Queues.ext hcursor hactive harchived

theorem taken_add {cursor : Cursor} {m : ℕ} : cursor.taken n +
    Cursor.taken ⟨cursor.tail + cursor.taken n, cursor.head⟩ m = cursor.taken (n + m) := by
  unfold Cursor.taken
  dsimp only
  omega

/-- The events of `developer` under the indices of `cursor` before `stop` have gone to the archive,
and the cursor with them; nothing else has changed. -/
structure Archives (developer : Address) (cursor : Cursor) (stop : ℕ) (s s' : Queues Address) :
    Prop where
  moved : ∀ i bytes, cursor.tail ≤ i → i < stop → s.activeEvent (developer, i) = some bytes →
    s'.archivedEvent (developer, i) = some bytes
  removed : ∀ i, cursor.tail ≤ i → i < stop → s'.activeEvent (developer, i) = none
  holes : ∀ i, s.activeEvent (developer, i) = none →
    s'.archivedEvent (developer, i) = s.archivedEvent (developer, i)
  frame : ∀ d i, ¬(d = developer ∧ cursor.tail ≤ i ∧ i < stop) →
    s'.activeEvent (d, i) = s.activeEvent (d, i) ∧
      s'.archivedEvent (d, i) = s.archivedEvent (d, i)
  cursor_eq : getCursor s' developer = ⟨stop, cursor.head⟩
  cursors : ∀ d, d ≠ developer → s'.cursor d = s.cursor d

theorem archives_advance : Archives developer (getCursor s developer)
    ((getCursor s developer).tail + n) s (s.advance developer n) := by
  constructor
  · intro i bytes hfirst hstop hevent
    rw [archivedEvent_advance, if_pos ⟨rfl, hfirst, hstop⟩, hevent, Option.some_or]
  · intro i hfirst hstop
    rw [activeEvent_advance, if_pos ⟨rfl, hfirst, hstop⟩]
  · intro i hhole
    rw [archivedEvent_advance, hhole, Option.none_or, ite_self]
  · intro d i hout
    rw [activeEvent_advance, archivedEvent_advance, if_neg hout, if_neg hout]
    exact ⟨rfl, rfl⟩
  · exact getCursor_advance
  · intro d hd
    rw [cursor_advance]
    split_ifs
    · rfl
    · exact Store.set_of_ne hd

/-- A batch archives the oldest events of its developer, as they are, and nothing else; and two
batches leave what one of both sizes leaves. -/
theorem archiveEvents_fifo {env env' env'' : Env Address contract} {n m : ℕ}
    (hauth : developer ∈ env.signers) (hauth' : developer ∈ env'.signers)
    (hauth'' : developer ∈ env''.signers)
    (hcursor : (getCursor s developer).tail ≤ (getCursor s developer).head)
    (hhead : (getCursor s developer).head ≤ U64_MAX) (hsize : n + m ≤ U32_MAX) :
    ∃ count s', (archiveEvents env developer n).forget.run s = .ok count s' ∧
      Archives developer (getCursor s developer)
        (min ((getCursor s developer).tail + n) (getCursor s developer).head) s s' ∧
      ∃ count' count'' s'', (archiveEvents env' developer m).forget.run s' = .ok count' s'' ∧
        (archiveEvents env'' developer (n + m)).forget.run s = .ok count'' s'' := by
  have hstop : min ((getCursor s developer).tail + n) (getCursor s developer).head =
      (getCursor s developer).tail + (getCursor s developer).taken n := by
    unfold Cursor.taken
    omega
  have hfirst : (archiveEvents env developer n).forget.run s = .ok _ _ :=
    congrArg Prod.snd (run_archiveEvents hauth hhead (by omega))
  have hsecond : (archiveEvents env' developer m).forget.run
      (s.advance developer ((getCursor s developer).taken n)) = .ok _ _ :=
    congrArg Prod.snd (run_archiveEvents hauth' (by rw [getCursor_advance]; exact hhead) (by omega))
  have hboth : (archiveEvents env'' developer (n + m)).forget.run s = .ok _ _ :=
    congrArg Prod.snd (run_archiveEvents hauth'' hhead hsize)
  rw [getCursor_advance, advance_add, taken_add] at hsecond
  rw [hstop]
  exact ⟨_, _, hfirst, archives_advance, _, _, _, hsecond, hboth⟩

/-! The returned count. -/

/-- The call returns how many archive entries it has written, and that is within its batch. -/
def CountsArchived (env : Env Address contract) (s : Queues Address) (developer : Address)
    (batchSize : ℕ) : Prop :=
  ∃ written count s', (archiveEvents env developer batchSize).run s = (written, .ok count s') ∧
    count = written.length ∧ written.length ≤ batchSize

omit [DecidableEq Address] in
theorem length_activeIn_le : (activeIn s developer first n).length ≤ n := by
  have hle := List.length_filter_le (fun i => (s.activeEvent (developer, i)).isSome)
    (List.range' first n)
  rw [List.length_range'] at hle
  exact hle

omit [DecidableEq Address] in
theorem length_activeIn_eq_iff : (activeIn s developer first n).length = n ↔
    ∀ i, first ≤ i → i < first + n → s.activeEvent (developer, i) ≠ none := by
  have hall := @List.length_filter_eq_length_iff _
    (fun i => (s.activeEvent (developer, i)).isSome) (List.range' first n)
  rw [List.length_range'] at hall
  unfold activeIn
  rw [hall]
  simp only [List.mem_range'_1, Option.isSome_iff_ne_none, and_imp]

theorem length_written_le {env : Env Address contract} {batchSize : ℕ}
    (hauth : developer ∈ env.signers) (hhead : (getCursor s developer).head ≤ U64_MAX)
    (hbatch : batchSize ≤ U32_MAX) :
    ((archiveEvents env developer batchSize).run s).1.length ≤ batchSize := by
  rw [run_archiveEvents hauth hhead hbatch, List.length_map]
  exact length_activeIn_le.trans (Nat.min_le_left _ _)

/-- The call counts the indices that it takes, with or without an event. -/
theorem countsArchived_iff {env : Env Address contract} {batchSize : ℕ}
    (hauth : developer ∈ env.signers) (hhead : (getCursor s developer).head ≤ U64_MAX)
    (hbatch : batchSize ≤ U32_MAX) :
    CountsArchived env s developer batchSize ↔ ∀ i, (getCursor s developer).tail ≤ i →
      i < min ((getCursor s developer).tail + batchSize) (getCursor s developer).head →
        s.activeEvent (developer, i) ≠ none := by
  have htaken : (getCursor s developer).taken batchSize ≤ batchSize := Nat.min_le_left _ _
  have hstop (i : ℕ) (hi : (getCursor s developer).tail ≤ i) :
      i < min ((getCursor s developer).tail + batchSize) (getCursor s developer).head ↔
        i < (getCursor s developer).tail + (getCursor s developer).taken batchSize := by
    unfold Cursor.taken
    omega
  have hcounts : CountsArchived env s developer batchSize ↔
      (activeIn s developer (getCursor s developer).tail
        ((getCursor s developer).taken batchSize)).length =
        (getCursor s developer).taken batchSize := by
    unfold CountsArchived
    rw [run_archiveEvents hauth hhead hbatch]
    constructor
    · intro h
      obtain ⟨written, count, s', hrun, hcount, -⟩ := h
      obtain ⟨rfl, hok⟩ := Prod.mk.inj hrun
      obtain ⟨rfl, -⟩ := Outcome.ok.inj hok
      rw [List.length_map] at hcount
      exact hcount.symm
    · intro h
      refine ⟨_, _, _, rfl, ?_, ?_⟩
      · rw [List.length_map, h]
      · rw [List.length_map, h]
        exact htaken
  rw [hcounts, length_activeIn_eq_iff]
  exact forall_congr' fun i => forall_congr' fun hi => by rw [hstop i hi]

def holed : Queues ℕ where
  cursor := Store.empty.set 5 ⟨0, 4⟩
  activeEvent := ((Store.empty.set (5, 0) [10]).set (5, 2) [12]).set (5, 3) [13]

theorem archiveEvents_fifo_holed :
    let env : Env ℕ 0 := .signedBy 5 0 (by decide)
    ∃ count s', (archiveEvents env 5 2).forget.run holed = .ok count s' ∧
      Archives 5 ⟨0, 4⟩ 2 holed s' ∧
      ∃ count' count'' s'', (archiveEvents env 5 1).forget.run s' = .ok count' s'' ∧
        (archiveEvents env 5 3).forget.run holed = .ok count'' s'' := by
  intro env
  have hauth : 5 ∈ env.signers := List.mem_singleton_self _
  exact archiveEvents_fifo hauth hauth hauth (by decide) (by decide) (by decide)

theorem countsArchived_holed :
    CountsArchived (.signedBy 5 0 (by decide) : Env ℕ 0) holed 5 1 := by
  have hauth : 5 ∈ (.signedBy 5 0 (by decide) : Env ℕ 0).signers := List.mem_singleton_self _
  refine (countsArchived_iff hauth (by decide) (by decide)).2 fun i _ hi => ?_
  have hzero : i = 0 := by
    change i < min (0 + 1) 4 at hi
    omega
  rw [hzero]
  decide

/-- A batch of two writes one entry, and counts two. -/
theorem hole_counted_as_archived :
    ¬∀ (env : Env ℕ 0) (s : Queues ℕ) (developer batchSize : ℕ), developer ∈ env.signers →
      (getCursor s developer).head ≤ U64_MAX → batchSize ≤ U32_MAX →
        CountsArchived env s developer batchSize := by
  intro h
  have hauth : 5 ∈ (.signedBy 5 0 (by decide) : Env ℕ 0).signers := List.mem_singleton_self _
  obtain ⟨written, count, s', hrun, hcount, -⟩ := h _ holed 5 2 hauth (by decide) (by decide)
  rw [run_archiveEvents hauth (by decide) (by decide)] at hrun
  obtain ⟨rfl, hok⟩ := Prod.mk.inj hrun
  obtain ⟨rfl, -⟩ := Outcome.ok.inj hok
  exact absurd hcount (by decide)

end Callora.Settlement.Archive
