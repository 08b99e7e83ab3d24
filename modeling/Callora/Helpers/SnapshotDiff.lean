import Callora.Library.SortedMap

/-! The comparison of two storage snapshots, each a list of keys with their values. -/

namespace Callora.Helpers
open Library

inductive Change (K V : Type) where
  | added (key : K) (value : V)
  | modified (key : K) (oldValue newValue : V)
  | removed (key : K) (value : V)
deriving DecidableEq

variable {K V : Type}

def Change.key : Change K V → K
  | .added key _ => key
  | .modified key _ _ => key
  | .removed key _ => key

def drainBefore (before : List (K × V)) (changes : List (Change K V)) : List (Change K V) :=
  before.foldl (fun changes b => changes ++ [.removed b.1 b.2]) changes

def drainAfter (after : List (K × V)) (changes : List (Change K V)) : List (Change K V) :=
  after.foldl (fun changes a => changes ++ [.added a.1 a.2]) changes

variable [LinearOrder K] [DecidableEq V]

/-- The loop over both iterators: what is left of them, and the changes so far. -/
def mergeLoop : List (K × V) → List (K × V) → List (Change K V) →
    List (K × V) × List (K × V) × List (Change K V)
  | b :: before, a :: after, changes =>
    if b.1 < a.1 then mergeLoop before (a :: after) (changes ++ [.removed b.1 b.2])
    else if a.1 < b.1 then mergeLoop (b :: before) after (changes ++ [.added a.1 a.2])
    else mergeLoop before after
      (if b.2 ≠ a.2 then changes ++ [.modified b.1 b.2 a.2] else changes)
  | before, after, changes => (before, after, changes)
termination_by before after => before.length + after.length

def diffSnapshots (before after : List (K × V)) : List (Change K V) :=
  let beforeMap : SortedMap K V := before.foldl (fun m e => m.insert e.1 e.2) .empty
  let afterMap : SortedMap K V := after.foldl (fun m e => m.insert e.1 e.2) .empty
  let (currentBefore, currentAfter, changes) := mergeLoop beforeMap.entries afterMap.entries []
  let changes := drainBefore currentBefore changes
  let changes := drainAfter currentAfter changes
  changes.mergeSort fun a b => decide (a.key ≤ b.key)

/-! What a diff is: the changes between two stores, in the order of the keys. -/

def changeAt (m m' : Store K V) (k : K) : Option (Change K V) :=
  match m k, m' k with
  | none, none => none
  | none, some v => some (.added k v)
  | some v, none => some (.removed k v)
  | some old, some new => if old ≠ new then some (.modified k old new) else none

section
omit [LinearOrder K]
variable {m m' n n' : Store K V} {k : K} {c : Change K V}

theorem key_of_changeAt (h : changeAt m m' k = some c) : c.key = k := by
  unfold changeAt at h
  split at h
  · cases h
  · cases h
    rfl
  · cases h
    rfl
  · split_ifs at h
    cases h
    rfl

theorem changeAt_eq_none_iff : changeAt m m' k = none ↔ m k = m' k := by
  unfold changeAt
  cases m k <;> cases m' k <;> simp

theorem changeAt_removed {v : V} (h : m k = some v) (h' : m' k = none) :
    changeAt m m' k = some (.removed k v) := by
  rw [changeAt, h, h']

theorem changeAt_added {v : V} (h : m k = none) (h' : m' k = some v) :
    changeAt m m' k = some (.added k v) := by
  rw [changeAt, h, h']

theorem changeAt_modified {old new : V} (h : m k = some old) (h' : m' k = some new) :
    changeAt m m' k = if old ≠ new then some (.modified k old new) else none := by
  rw [changeAt, h, h']

theorem changeAt_eq_added_iff {v : V} :
    changeAt m m' k = some (.added k v) ↔ m k = none ∧ m' k = some v := by
  unfold changeAt
  cases m k <;> cases m' k <;> simp

theorem changeAt_eq_modified_iff {old new : V} :
    changeAt m m' k = some (.modified k old new) ↔
      m k = some old ∧ m' k = some new ∧ old ≠ new := by
  unfold changeAt
  cases m k with
  | none => cases m' k <;> simp
  | some v =>
    cases m' k with
    | none => simp
    | some v' => grind

theorem changeAt_eq_removed_iff {v : V} :
    changeAt m m' k = some (.removed k v) ↔ m k = some v ∧ m' k = none := by
  unfold changeAt
  cases m k <;> cases m' k <;> simp

theorem changeAt_congr (h : n k = m k) (h' : n' k = m' k) : changeAt n n' k = changeAt m m' k := by
  unfold changeAt
  rw [h, h']

end

variable {m m' n n' : Store K V} {changes changes' : List (Change K V)}

/-- The changes from `m` to `m'`, each once and in the order of the keys. -/
structure Diffs (m m' : Store K V) (changes : List (Change K V)) : Prop where
  sorted : changes.Pairwise fun c d => c.key < d.key
  mem_iff : ∀ c, c ∈ changes ↔ changeAt m m' c.key = some c

theorem diffs_empty : Diffs (.empty : Store K V) .empty [] := by
  refine ⟨List.Pairwise.nil, fun c => iff_of_false List.not_mem_nil fun h => ?_⟩
  cases h

theorem Diffs.cons {k : K} (h : Diffs m m' changes) (hn : ∀ k' ≠ k, n k' = m k')
    (hn' : ∀ k' ≠ k, n' k' = m' k') (hlt : ∀ k', m k' ≠ none ∨ m' k' ≠ none → k < k') :
    Diffs n n' ((changeAt n n' k).toList ++ changes) := by
  have hbeyond : ∀ c ∈ changes, k < c.key := by
    intro c hc
    have hchange := (h.mem_iff c).1 hc
    apply hlt
    by_contra hnone
    rw [not_or, not_not, not_not] at hnone
    have hsame : changeAt m m' c.key = none := changeAt_eq_none_iff.2 (hnone.1.trans hnone.2.symm)
    rw [hsame] at hchange
    cases hchange
  constructor
  · refine List.pairwise_append.2 ⟨?_, h.sorted, ?_⟩
    · cases changeAt n n' k with
      | none => exact List.Pairwise.nil
      | some c => exact List.pairwise_singleton _ _
    · intro c hc d hd
      rw [Option.mem_toList] at hc
      rw [key_of_changeAt hc]
      exact hbeyond d hd
  · intro c
    rw [List.mem_append, Option.mem_toList]
    by_cases hkey : c.key = k
    · have hnot : c ∉ changes := fun hc => (hbeyond c hc).ne' hkey
      rw [or_iff_left hnot, hkey]
    · have hnot : changeAt n n' k ≠ some c := fun hc => hkey (key_of_changeAt hc)
      rw [or_iff_right hnot, h.mem_iff, changeAt_congr (hn _ hkey) (hn' _ hkey)]

theorem Diffs.unique (h : Diffs m m' changes) (h' : Diffs m m' changes') :
    changes = changes' := by
  have hirrefl : Std.Irrefl fun c d : Change K V => c.key < d.key := ⟨fun c => lt_irrefl c.key⟩
  have hantisymm : Std.Antisymm fun c d : Change K V => c.key < d.key :=
    ⟨fun c d hcd hdc => absurd hcd hdc.asymm⟩
  apply h.sorted.eq_of_mem_iff h'.sorted
  intro c
  rw [h.mem_iff, h'.mem_iff]

/-! The two drains and the merge. -/

omit [LinearOrder K] [DecidableEq V] in
theorem drainBefore_eq (before : List (K × V)) (changes : List (Change K V)) :
    drainBefore before changes = changes ++ before.map fun b => .removed b.1 b.2 := by
  unfold drainBefore
  induction before generalizing changes with
  | nil => simp
  | cons b before ih => simp [ih]

omit [LinearOrder K] [DecidableEq V] in
theorem drainAfter_eq (after : List (K × V)) (changes : List (Change K V)) :
    drainAfter after changes = changes ++ after.map fun a => .added a.1 a.2 := by
  unfold drainAfter
  induction after generalizing changes with
  | nil => simp
  | cons a after ih => simp [ih]

theorem Diffs.removed {before : List (K × V)} {b : K × V} (h : Diffs (lookup before) m' changes)
    (hb : ∀ e ∈ before, b.1 < e.1) (hm' : ∀ k, m' k ≠ none → b.1 < k) :
    Diffs (lookup (b :: before)) m' (.removed b.1 b.2 :: changes) := by
  have hnone : m' b.1 = none := by
    by_contra hsome
    exact lt_irrefl _ (hm' _ hsome)
  have hcons := h.cons (fun k => lookup_cons_of_ne) (fun _ _ => rfl) fun k hk =>
    hk.elim (lt_of_lookup hb) (hm' k)
  rw [changeAt_removed (lookup_cons_self ..) hnone] at hcons
  exact hcons

theorem Diffs.added {after : List (K × V)} {a : K × V} (h : Diffs m (lookup after) changes)
    (hm : ∀ k, m k ≠ none → a.1 < k) (ha : ∀ e ∈ after, a.1 < e.1) :
    Diffs m (lookup (a :: after)) (.added a.1 a.2 :: changes) := by
  have hnone : m a.1 = none := by
    by_contra hsome
    exact lt_irrefl _ (hm _ hsome)
  have hcons := h.cons (fun _ _ => rfl) (fun k => lookup_cons_of_ne) fun k hk =>
    hk.elim (hm k) (lt_of_lookup ha)
  rw [changeAt_added hnone (lookup_cons_self ..)] at hcons
  exact hcons

theorem Diffs.kept {before after : List (K × V)} {b a : K × V}
    (h : Diffs (lookup before) (lookup after) changes) (hkey : b.1 = a.1)
    (hb : ∀ e ∈ before, b.1 < e.1) (ha : ∀ e ∈ after, a.1 < e.1) :
    Diffs (lookup (b :: before)) (lookup (a :: after))
      ((if b.2 ≠ a.2 then [.modified b.1 b.2 a.2] else []) ++ changes) := by
  have hafter : lookup (a :: after) b.1 = some a.2 := by
    rw [hkey]
    exact lookup_cons_self ..
  have hcons : Diffs (lookup (b :: before)) (lookup (a :: after)) _ :=
    h.cons (fun k => lookup_cons_of_ne) (fun k hk => lookup_cons_of_ne (hkey ▸ hk)) fun k hk =>
      hk.elim (lt_of_lookup hb) (lt_of_lookup (hkey ▸ ha))
  rw [changeAt_modified (lookup_cons_self ..) hafter] at hcons
  split_ifs at hcons ⊢
  · exact hcons
  · exact hcons

theorem diffs_removed {before : List (K × V)} (hs : before.Pairwise fun a b => a.1 < b.1) :
    Diffs (lookup before) .empty (before.map fun b => .removed b.1 b.2) := by
  induction before with
  | nil => exact diffs_empty
  | cons b before ih =>
    obtain ⟨hb, hs⟩ := List.pairwise_cons.1 hs
    exact (ih hs).removed hb fun k hk => absurd rfl hk

theorem diffs_added {after : List (K × V)} (hs : after.Pairwise fun a b => a.1 < b.1) :
    Diffs .empty (lookup after) (after.map fun a => .added a.1 a.2) := by
  induction after with
  | nil => exact diffs_empty
  | cons a after ih =>
    obtain ⟨ha, hs⟩ := List.pairwise_cons.1 hs
    exact (ih hs).added (fun k hk => absurd rfl hk) ha

def mergeChanges (before after : List (K × V)) (changes : List (Change K V)) :
    List (Change K V) :=
  let (currentBefore, currentAfter, changes) := mergeLoop before after changes
  drainAfter currentAfter (drainBefore currentBefore changes)

theorem exists_mergeChanges {before after : List (K × V)} (changes : List (Change K V))
    (hb : before.Pairwise fun a b => a.1 < b.1) (ha : after.Pairwise fun a b => a.1 < b.1) :
    ∃ rest, mergeChanges before after changes = changes ++ rest ∧
      Diffs (lookup before) (lookup after) rest := by
  unfold mergeChanges
  fun_induction mergeLoop before after changes with
  | case1 b before a after changes hlt ih =>
    obtain ⟨hb, hbs⟩ := List.pairwise_cons.1 hb
    obtain ⟨rest, heq, hdiffs⟩ := ih hbs ha
    have hbelow : ∀ e ∈ a :: after, b.1 < e.1 := List.forall_mem_cons.2
      ⟨hlt, fun e he => hlt.trans ((List.pairwise_cons.1 ha).1 e he)⟩
    refine ⟨_, ?_, hdiffs.removed hb fun k => lt_of_lookup hbelow⟩
    rw [heq, List.append_assoc]
    rfl
  | case2 b before a after changes hge hgt ih =>
    obtain ⟨ha, has⟩ := List.pairwise_cons.1 ha
    obtain ⟨rest, heq, hdiffs⟩ := ih hb has
    have hbelow : ∀ e ∈ b :: before, a.1 < e.1 := List.forall_mem_cons.2
      ⟨hgt, fun e he => hgt.trans ((List.pairwise_cons.1 hb).1 e he)⟩
    refine ⟨_, ?_, hdiffs.added (fun k => lt_of_lookup hbelow) ha⟩
    rw [heq, List.append_assoc]
    rfl
  | case3 b before a after changes hge hle ih =>
    obtain ⟨hb, hbs⟩ := List.pairwise_cons.1 hb
    obtain ⟨ha, has⟩ := List.pairwise_cons.1 ha
    obtain ⟨rest, heq, hdiffs⟩ := ih hbs has
    have hkey : b.1 = a.1 := le_antisymm (not_lt.1 hle) (not_lt.1 hge)
    refine ⟨_, ?_, hdiffs.kept hkey hb ha⟩
    rw [dite_eq_ite] at heq
    rw [heq]
    split_ifs
    · rw [List.append_assoc]
    · rfl
  | case4 before after changes hend =>
    dsimp only
    rw [drainAfter_eq, drainBefore_eq, List.append_assoc]
    rcases before with _ | ⟨b, before⟩
    · exact ⟨_, rfl, diffs_added ha⟩
    · rcases after with _ | ⟨a, after⟩
      · refine ⟨_, rfl, ?_⟩
        rw [List.map_nil, List.append_nil]
        exact diffs_removed hb
      · exact absurd rfl (hend b before a after rfl)

theorem diffs_diffSnapshots (before after : List (K × V)) :
    Diffs (Store.ofList before) (Store.ofList after) (diffSnapshots before after) := by
  obtain ⟨changes, heq, hdiffs⟩ := exists_mergeChanges [] (SortedMap.ofList before).sorted
    (SortedMap.ofList after).sorted
  rw [SortedMap.lookup_ofList, SortedMap.lookup_ofList] at hdiffs
  have hle : changes.Pairwise fun a b => decide (a.key ≤ b.key) = true :=
    hdiffs.sorted.imp fun h => decide_eq_true h.le
  have hsort : diffSnapshots before after = (mergeChanges (SortedMap.ofList before).entries
      (SortedMap.ofList after).entries []).mergeSort fun a b => decide (a.key ≤ b.key) := rfl
  rw [hsort, heq, List.nil_append, List.mergeSort_of_pairwise hle]
  exact hdiffs

/-! What the changes do to the old snapshot. -/

def Change.apply (m : Store K V) : Change K V → Store K V
  | .added key value => m.set key value
  | .modified key _ newValue => m.set key newValue
  | .removed key _ => m.remove key

def applyAll (changes : List (Change K V)) (m : Store K V) : Store K V :=
  changes.foldl Change.apply m

omit [DecidableEq V] in
theorem Change.apply_of_ne {m : Store K V} {c : Change K V} {k : K} (h : k ≠ c.key) :
    c.apply m k = m k := by
  cases c with
  | added => exact Store.set_of_ne h
  | modified => exact Store.set_of_ne h
  | removed => exact Store.remove_of_ne h

theorem apply_of_changeAt {n : Store K V} {k : K} {c : Change K V}
    (h : changeAt m m' k = some c) : c.apply n k = m' k := by
  unfold changeAt at h
  split at h
  · cases h
  · cases h
    rw [Change.apply, Store.set_self]
    exact Eq.symm ‹_›
  · cases h
    rw [Change.apply, Store.remove_self]
    exact Eq.symm ‹_›
  · split_ifs at h
    cases h
    rw [Change.apply, Store.set_self]
    exact Eq.symm ‹_›

omit [DecidableEq V] in
theorem applyAll_of_forall_ne {n : Store K V} {k : K} (h : ∀ c ∈ changes, k ≠ c.key) :
    applyAll changes n k = n k := by
  induction changes generalizing n with
  | nil => rfl
  | cons c changes ih =>
    obtain ⟨hc, hrest⟩ := List.forall_mem_cons.1 h
    exact (ih hrest).trans (Change.apply_of_ne hc)

theorem applyAll_of_mem {n : Store K V} {c : Change K V}
    (hs : changes.Pairwise fun c d => c.key < d.key)
    (hchange : ∀ c ∈ changes, changeAt m m' c.key = some c) (hc : c ∈ changes) :
    applyAll changes n c.key = m' c.key := by
  induction changes generalizing n with
  | nil => cases hc
  | cons d changes ih =>
    obtain ⟨hd, hs⟩ := List.pairwise_cons.1 hs
    obtain ⟨hfirst, hrest⟩ := List.forall_mem_cons.1 hchange
    rcases List.mem_cons.1 hc with rfl | hc
    · have hothers : ∀ d ∈ changes, c.key ≠ d.key := fun d hmem => (hd d hmem).ne
      exact (applyAll_of_forall_ne hothers).trans (apply_of_changeAt hfirst)
    · exact ih hs hrest hc

theorem Diffs.applyAll_eq (h : Diffs m m' changes) : applyAll changes m = m' := by
  funext k
  cases hk : changeAt m m' k with
  | none =>
    rw [applyAll_of_forall_ne, changeAt_eq_none_iff.1 hk]
    rintro c hc rfl
    rw [(h.mem_iff c).1 hc] at hk
    cases hk
  | some c =>
    obtain rfl := key_of_changeAt hk
    exact applyAll_of_mem h.sorted (fun c => (h.mem_iff c).1) ((h.mem_iff c).2 hk)

theorem Diffs.exists_key_iff (h : Diffs m m' changes) (k : K) :
    (∃ c ∈ changes, c.key = k) ↔ m k ≠ m' k := by
  rw [ne_eq, ← changeAt_eq_none_iff, ← ne_eq, Option.ne_none_iff_exists']
  constructor
  · rintro ⟨c, hc, rfl⟩
    exact ⟨c, (h.mem_iff c).1 hc⟩
  · rintro ⟨c, hc⟩
    obtain rfl := key_of_changeAt hc
    exact ⟨c, (h.mem_iff c).2 hc, rfl⟩

/-- The diff of two snapshots takes the map of the first to the map of the second. Its keys are
in order, and are those under which the two differ, each with the change made there. Where the keys
are distinct the order of the entries is of no account. -/
theorem diffSnapshots_exact (before after : List (K × V)) :
    applyAll (diffSnapshots before after) (Store.ofList before) = Store.ofList after ∧
      (diffSnapshots before after).Pairwise (fun c d => c.key < d.key) ∧
      (∀ k, (∃ c ∈ diffSnapshots before after, c.key = k) ↔
        Store.ofList before k ≠ Store.ofList after k) ∧
      (∀ k v, .added k v ∈ diffSnapshots before after ↔
        Store.ofList before k = none ∧ Store.ofList after k = some v) ∧
      (∀ k old new, .modified k old new ∈ diffSnapshots before after ↔
        Store.ofList before k = some old ∧ Store.ofList after k = some new ∧ old ≠ new) ∧
      (∀ k v, .removed k v ∈ diffSnapshots before after ↔
        Store.ofList before k = some v ∧ Store.ofList after k = none) ∧
      ∀ before' after', before.Perm before' → (before.map Prod.fst).Nodup →
        after.Perm after' → (after.map Prod.fst).Nodup →
          diffSnapshots before' after' = diffSnapshots before after := by
  have hdiffs := diffs_diffSnapshots before after
  refine ⟨hdiffs.applyAll_eq, hdiffs.sorted, hdiffs.exists_key_iff, ?_, ?_, ?_, ?_⟩
  · intro k v
    rw [hdiffs.mem_iff]
    exact changeAt_eq_added_iff
  · intro k old new
    rw [hdiffs.mem_iff]
    exact changeAt_eq_modified_iff
  · intro k v
    rw [hdiffs.mem_iff]
    exact changeAt_eq_removed_iff
  · intro before' after' hb hbkeys ha hakeys
    have hdiffs' := diffs_diffSnapshots before' after'
    rw [← Store.ofList_perm hb hbkeys, ← Store.ofList_perm ha hakeys] at hdiffs'
    exact hdiffs'.unique hdiffs

theorem diffSnapshots_exact_swapped :
    diffSnapshots [(2, 7), (1, 5)] [(3, 9), (2, 8)] =
      diffSnapshots [(1, 5), (2, 7)] [(2, 8), (3, 9)] :=
  (diffSnapshots_exact [(1, 5), (2, 7)] [(2, 8), (3, 9)]).2.2.2.2.2.2 _ _ (.swap _ _ _) (by decide)
    (.swap _ _ _) (by decide)

end Callora.Helpers
