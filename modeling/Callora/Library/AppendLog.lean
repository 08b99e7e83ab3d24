import Mathlib.Data.List.Basic
import Callora.Library.Store

/-! Append-only logs kept in a store: the entries lie under the keys 1, 2, … in the order in which
they were written. -/

namespace Library.Store
variable {ν : Type} {m m' : Store ℕ ν} {l new : List ν} {i : ℕ} {v : ν}

/-- The store holds the entries of `l`, numbered from one, and no others. -/
def Numbers (m : Store ℕ ν) (l : List ν) : Prop := m 0 = none ∧ ∀ i, m (i + 1) = l[i]?

theorem numbers_empty : (empty : Store ℕ ν).Numbers [] := ⟨rfl, fun _ => rfl⟩

theorem Numbers.append (h : m.Numbers l) (v : ν) :
    (m.set (l.length + 1) v).Numbers (l ++ [v]) := by
  obtain ⟨hzero, hsucc⟩ := h
  constructor
  · rw [set_of_ne (Nat.succ_ne_zero _).symm]
    exact hzero
  · intro i
    rw [set_apply, List.getElem?_append]
    split_ifs with hi hlt hlt
    · omega
    · rw [show i - l.length = 0 by omega]
      rfl
    · exact hsucc i
    · have hnone : l[i]? = none := List.getElem?_eq_none (by omega)
      have hnone' : [v][i - l.length]? = none := by
        apply List.getElem?_eq_none
        rw [List.length_singleton]
        omega
      rw [hsucc, hnone, hnone']

theorem Numbers.eq_some (h : m.Numbers l) (hi : m i = some v) :
    ∃ j, i = j + 1 ∧ l[j]? = some v := by
  rcases i with _ | j
  · rw [h.1] at hi
    cases hi
  · exact ⟨j, rfl, (h.2 j).symm.trans hi⟩

theorem Numbers.exists_iff (h : m.Numbers l) (i : ℕ) :
    (∃ v, m i = some v) ↔ 1 ≤ i ∧ i ≤ l.length := by
  constructor
  · intro hi
    obtain ⟨v, hv⟩ := hi
    obtain ⟨j, rfl, hj⟩ := h.eq_some hv
    obtain ⟨hlt, -⟩ := List.getElem?_eq_some_iff.1 hj
    exact ⟨Nat.le_add_left _ _, hlt⟩
  · intro hi
    obtain ⟨j, rfl⟩ := Nat.exists_eq_add_of_le' hi.1
    exact ⟨l[j], by rw [h.2, List.getElem?_eq_getElem hi.2]⟩

theorem Numbers.stable (h : m.Numbers l) (h' : m'.Numbers (l ++ new)) (hi : m i = some v) :
    m' i = some v := by
  obtain ⟨j, rfl, hj⟩ := h.eq_some hi
  obtain ⟨hlt, -⟩ := List.getElem?_eq_some_iff.1 hj
  rw [h'.2, List.getElem?_append_left hlt]
  exact hj

theorem Numbers.filterMap_range' (h : m.Numbers l) (i k : ℕ) :
    (List.range' (i + 1) k).filterMap m = (l.drop i).take k := by
  induction k generalizing i with
  | zero => simp
  | succ k ih =>
    rw [List.range'_succ, List.filterMap_cons, h.2, ih]
    rcases Nat.lt_or_ge i l.length with hlt | hge
    · rw [List.getElem?_eq_getElem hlt, List.drop_eq_getElem_cons hlt, List.take_succ_cons]
    · have hend : l.length ≤ i + 1 := Nat.le_succ_of_le hge
      rw [List.getElem?_eq_none hge, List.drop_eq_nil_of_le hge, List.drop_eq_nil_of_le hend,
        List.take_nil, List.take_nil]

theorem Numbers.map_window (h : m.Numbers l) {i k : ℕ} (hk : k ≤ l.length - i) :
    ((l.drop i).take k).map some = (List.range' (i + 1) k).map m := by
  induction k generalizing i with
  | zero => simp
  | succ k ih =>
    have hlt : i < l.length := by omega
    rw [List.drop_eq_getElem_cons hlt, List.take_succ_cons, List.map_cons, List.range'_succ,
      List.map_cons, h.2, List.getElem?_eq_getElem hlt, ih (by omega)]

theorem Numbers.rel_of_pairwise {R : ν → ν → Prop} {w : ν} (h : m.Numbers l) (hR : l.Pairwise R)
    (hi : m i = some v) (hnext : m (i + 1) = some w) : R v w := by
  obtain ⟨j, rfl, hj⟩ := h.eq_some hi
  obtain ⟨hlt, rfl⟩ := List.getElem?_eq_some_iff.1 hj
  rw [h.2] at hnext
  obtain ⟨hlt', rfl⟩ := List.getElem?_eq_some_iff.1 hnext
  exact List.pairwise_iff_getElem.1 hR j (j + 1) hlt hlt' (Nat.lt_succ_self j)

end Library.Store
