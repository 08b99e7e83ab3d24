import Mathlib.Data.List.Pairwise
import Mathlib.Data.List.Sort

/-! Paging through a strictly sorted list that grows between the pages. Each page starts above the
last element of the one before, so that insertions behind the cursor are skipped and those ahead
are met; nothing is met twice and nothing that was there from the start is missed. -/

namespace Library.Paging
variable {α : Type} [LinearOrder α]

/-! Insertion before the first larger element. -/

theorem insertIdx_findIdx (a : α) (xs : List α) :
    xs.insertIdx (xs.findIdx fun x => a < x) a = xs.orderedInsert (· < ·) a := by
  induction xs with
  | nil => rfl
  | cons x xs ih =>
    by_cases h : a < x
    · simp [List.findIdx_cons, h]
    · simp [List.findIdx_cons, h, ih]

theorem sorted_orderedInsert {a : α} {xs : List α} (hs : xs.SortedLT) (ha : a ∉ xs) :
    (xs.orderedInsert (· < ·) a).SortedLT := by
  induction xs with
  | nil => exact (List.pairwise_singleton _ _).sortedLT
  | cons x xs ih =>
    obtain ⟨hx, hxs⟩ := List.pairwise_cons.1 hs.pairwise
    obtain ⟨hne, hnotMem⟩ := not_or.1 (mt List.mem_cons.2 ha)
    rw [List.orderedInsert_cons]
    split_ifs with hlt
    · refine (List.pairwise_cons.2 ⟨?_, hs.pairwise⟩).sortedLT
      intro y hy
      rcases List.mem_cons.1 hy with rfl | hy
      · exact hlt
      · exact hlt.trans (hx y hy)
    · refine (List.pairwise_cons.2 ⟨?_, (ih hxs.sortedLT hnotMem).pairwise⟩).sortedLT
      intro y hy
      rcases (List.mem_orderedInsert _).1 hy with rfl | hy
      · exact (not_lt.1 hlt).lt_of_ne (Ne.symm hne)
      · exact hx y hy

/-! Pages. -/

/-- The elements beyond the cursor, all of them before the first page. -/
def above : Option α → List α → List α
  | none, xs => xs
  | some c, xs => xs.filter (c < ·)

def page (limit : ℕ) (cursor : Option α) (xs : List α) : List α := (above cursor xs).take limit

/-- The cursor that a page returns, its last element if it is full. -/
def next (limit : ℕ) (xs : List α) : Option α :=
  if limit ≤ xs.length then xs.getLast? else none

omit [LinearOrder α] in
theorem next_eq_none {limit : ℕ} {xs : List α} (hlimit : 0 < limit) :
    next limit xs = none ↔ xs.length < limit := by
  rw [next]
  split_ifs with hfull
  · refine iff_of_false ?_ hfull.not_gt
    rw [List.getLast?_eq_none_iff]
    exact List.ne_nil_of_length_pos (hlimit.trans_le hfull)
  · exact iff_of_true rfl (not_le.1 hfull)

omit [LinearOrder α] in
theorem next_eq_some {limit : ℕ} {xs : List α} {c : α} :
    next limit xs = some c ↔ limit ≤ xs.length ∧ xs.getLast? = some c := by
  rw [next]
  split_ifs with hfull <;> simp [hfull]

theorem mem_above {cursor : Option α} {xs : List α} {x : α} :
    x ∈ above cursor xs ↔ x ∈ xs ∧ ∀ c ∈ cursor, c < x := by
  cases cursor with
  | none => simp [above]
  | some c => simp [above]

theorem sorted_above {cursor : Option α} {xs : List α} (hs : xs.SortedLT) :
    (above cursor xs).SortedLT := by
  cases cursor with
  | none => exact hs
  | some c => exact (hs.pairwise.filter _).sortedLT

theorem length_page_le (limit : ℕ) (cursor : Option α) (xs : List α) :
    (page limit cursor xs).length ≤ limit := List.length_take_le _ _

theorem page_eq_above {limit : ℕ} {cursor : Option α} {xs : List α}
    (h : (page limit cursor xs).length < limit) : page limit cursor xs = above cursor xs := by
  refine List.take_of_length_le ?_
  rw [page, List.length_take] at h
  omega

theorem mem_of_next {limit : ℕ} {cursor : Option α} {xs : List α} {c : α}
    (h : next limit (page limit cursor xs) = some c) : c ∈ xs := by
  obtain ⟨-, hlast⟩ := next_eq_some.1 h
  exact (mem_above.1 (List.mem_of_mem_take (List.mem_of_getLast? hlast))).1

theorem le_last {xs : List α} {x c : α} (hs : xs.SortedLT) (hc : xs.getLast? = some c)
    (hx : x ∈ xs) : x ≤ c := by
  have hlast := List.getLast?_eq_some_getLast (List.ne_nil_of_mem hx)
  obtain rfl := Option.some.inj (hlast.symm.trans hc)
  exact (hs.pairwise.imp le_of_lt).rel_getLast hx

theorem last_mem_above {limit : ℕ} {cursor : Option α} {xs : List α} {c : α}
    (hc : (page limit cursor xs).getLast? = some c) : c ∈ above cursor xs :=
  List.mem_of_mem_take (List.mem_of_getLast? hc)

/-- What follows `c` in the list, found by comparing the elements one by one. -/
def after (c : α) : List α → List α
  | [] => []
  | x :: xs => if c = x then xs else after c xs

theorem after_eq_above {c : α} {xs : List α} (hs : xs.SortedLT) (hc : c ∈ xs) :
    after c xs = above (some c) xs := by
  induction xs with
  | nil => cases hc
  | cons x xs ih =>
    obtain ⟨hx, hxs⟩ := List.pairwise_cons.1 hs.pairwise
    rcases List.mem_cons.1 hc with rfl | hc
    · have hall : xs.filter (c < ·) = xs := List.filter_eq_self.2 fun y hy => by simp [hx y hy]
      simp [after, above, hall]
    · have hlt := hx c hc
      rw [after, if_neg hlt.ne', ih hxs.sortedLT hc]
      simp [above, hlt.not_gt]

theorem above_eq_append {limit : ℕ} {cursor : Option α} {xs : List α} {c : α} (hs : xs.SortedLT)
    (hc : (page limit cursor xs).getLast? = some c) :
    above cursor xs = page limit cursor xs ++ above (some c) xs := by
  have hsplit := List.take_append_drop limit (above cursor xs)
  have hsorted : (above cursor xs).SortedLT := sorted_above hs
  have hpairs := hsorted.pairwise
  rw [← hsplit, List.pairwise_append] at hpairs
  obtain ⟨htake, hdrop, hcross⟩ := hpairs
  have hrest : (above cursor xs).drop limit = above (some c) xs := by
    apply hdrop.sortedLT.eq_of_mem_iff (sorted_above hs)
    intro x
    rw [mem_above]
    constructor
    · intro hx
      refine ⟨(mem_above.1 (List.mem_of_mem_drop hx)).1, fun c' hc' => ?_⟩
      obtain rfl := Option.some.inj hc'
      exact hcross c (List.mem_of_getLast? hc) x hx
    · intro hx
      obtain ⟨hmem, hlt⟩ := hx
      have hcx : c < x := hlt c rfl
      have hbeyond := (mem_above.1 (last_mem_above hc)).2
      have habove : x ∈ above cursor xs :=
        mem_above.2 ⟨hmem, fun c' hc' => (hbeyond c' hc').trans hcx⟩
      rw [← hsplit] at habove
      apply (List.mem_append.1 habove).resolve_left
      intro hpage
      exact hcx.not_ge (le_last htake.sortedLT hc hpage)
  rw [← hrest]
  exact hsplit.symm

/-! Walks. -/

/-- The pages of a walk that starts at `cursor` when the list is `xs`: before each page the list may
grow and the limit may change, and a page that is not full ends the walk. -/
inductive Walk : List α → Option α → List (List α) → Prop
  | last {xs xs' : List α} {cursor : Option α} {limit : ℕ} (grows : xs ⊆ xs')
      (sorted : xs'.SortedLT) (short : (page limit cursor xs').length < limit) :
      Walk xs cursor [page limit cursor xs']
  | more {xs xs' : List α} {cursor : Option α} {limit : ℕ} {c : α} {pages : List (List α)}
      (grows : xs ⊆ xs') (sorted : xs'.SortedLT)
      (full : (page limit cursor xs').getLast? = some c) (rest : Walk xs' (some c) pages) :
      Walk xs cursor (page limit cursor xs' :: pages)

/-- A completed walk returns strictly increasing elements beyond its cursor, among them everything
beyond it that was there at the start. -/
theorem Walk.complete {xs : List α} {cursor : Option α} {pages : List (List α)}
    (h : Walk xs cursor pages) :
    pages.flatten.SortedLT ∧ (∀ x ∈ pages.flatten, ∀ c ∈ cursor, c < x) ∧
      above cursor xs ⊆ pages.flatten := by
  induction h with
  | @last xs xs' cursor limit grows sorted short =>
    rw [page_eq_above short, List.flatten_singleton]
    refine ⟨sorted_above sorted, fun x hx => (mem_above.1 hx).2, fun x hx => ?_⟩
    obtain ⟨hmem, hlt⟩ := mem_above.1 hx
    exact mem_above.2 ⟨grows hmem, hlt⟩
  | @more xs xs' cursor limit c pages grows sorted full rest ih =>
    obtain ⟨hsorted, hbeyond, hcomplete⟩ := ih
    have happend := above_eq_append sorted full
    have hall : (above cursor xs').Pairwise (· < ·) := (sorted_above sorted).pairwise
    rw [happend, List.pairwise_append] at hall
    have hc : ∀ c' ∈ cursor, c' < c := (mem_above.1 (last_mem_above full)).2
    rw [List.flatten_cons]
    refine ⟨?_, ?_, ?_⟩
    · refine (List.pairwise_append.2 ⟨hall.1, hsorted.pairwise, ?_⟩).sortedLT
      intro x hx y hy
      have hle : x ≤ c := le_last hall.1.sortedLT full hx
      exact hle.trans_lt (hbeyond y hy c rfl)
    · intro x hx c' hc'
      rcases List.mem_append.1 hx with hx | hx
      · exact (mem_above.1 (List.mem_of_mem_take hx)).2 c' hc'
      · exact (hc c' hc').trans (hbeyond x hx c rfl)
    · intro x hx
      obtain ⟨hmem, hlt⟩ := mem_above.1 hx
      have hx' : x ∈ above cursor xs' := mem_above.2 ⟨grows hmem, hlt⟩
      -- beyond the page, `x` was in the list already when the page was read
      rw [happend] at hx'
      rcases List.mem_append.1 hx' with hx' | hx'
      · exact List.mem_append_left _ hx'
      · exact List.mem_append_right _ (hcomplete hx')

/-! Walks over a list that stays as it is. -/

def collect (limit : ℕ) (xs : List α) : ℕ → Option α → Option (List (List α))
  | 0, _ => none
  | n + 1, cursor =>
    match next limit (page limit cursor xs) with
    | none => some [page limit cursor xs]
    | some c => (collect limit xs n (some c)).map (page limit cursor xs :: ·)

theorem exists_collect {limit : ℕ} {xs : List α} (hs : xs.SortedLT) (hlimit : 0 < limit) {n : ℕ}
    {cursor : Option α} (hn : (above cursor xs).length / limit < n) :
    ∃ pages, collect limit xs n cursor = some pages ∧ pages.length ≤ n ∧
      pages.flatten = above cursor xs := by
  induction n generalizing cursor with
  | zero => exact absurd hn (Nat.not_lt_zero _)
  | succ n ih =>
    rcases hnext : next limit (page limit cursor xs) with _ | c
    · refine ⟨[page limit cursor xs], by rw [collect, hnext], Nat.le_add_left 1 n, ?_⟩
      rw [List.flatten_singleton, page_eq_above ((next_eq_none hlimit).1 hnext)]
    · obtain ⟨hfull, hc⟩ := next_eq_some.1 hnext
      have happend := above_eq_append hs hc
      -- a full page uses up one of the `n` and `limit` elements
      have hlength : (above cursor xs).length = limit + (above (some c) xs).length := by
        rw [happend, List.length_append, le_antisymm (length_page_le ..) hfull]
      have hrest : (above (some c) xs).length / limit < n := by
        rw [hlength, Nat.add_div_left _ hlimit] at hn
        omega
      obtain ⟨pages, hpages, hcount, hflatten⟩ := ih hrest
      refine ⟨page limit cursor xs :: pages, ?_, Nat.succ_le_succ hcount, ?_⟩
      · rw [collect, hnext]
        simp only [hpages, Option.map_some]
      · rw [List.flatten_cons, hflatten, happend]

/-! Sweeping by position: an insertion into the list brings nothing but the new element to a
position before the offset. -/

omit [LinearOrder α] in
theorem mem_take_insertIdx {a x : α} {xs : List α} {i n : ℕ}
    (h : x ∈ (xs.insertIdx i a).take n) : x = a ∨ x ∈ xs.take n := by
  induction xs generalizing i n with
  | nil =>
    have hx := List.mem_of_mem_take h
    cases i with
    | zero => exact .inl (List.mem_singleton.1 hx)
    | succ i => cases hx
  | cons y xs ih =>
    cases n with
    | zero => cases h
    | succ n =>
      cases i with
      | zero =>
        rcases List.mem_cons.1 h with hx | hx
        · exact .inl hx
        · exact .inr (List.take_subset_take_left _ (Nat.le_succ n) hx)
      | succ i =>
        rw [List.insertIdx_succ_cons, List.take_succ_cons] at h
        rw [List.take_succ_cons]
        rcases List.mem_cons.1 h with hx | hx
        · exact .inr (hx ▸ List.mem_cons_self)
        · exact (ih hx).imp_right (List.mem_cons_of_mem y)

end Library.Paging
