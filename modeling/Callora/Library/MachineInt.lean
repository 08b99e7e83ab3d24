import Mathlib.Order.Basic
import Mathlib.Order.Defs.LinearOrder
import Mathlib.Order.Lattice

/-! Machine integers as a range of `ℤ`. Checked operations report an overflow, saturating ones
clamp it; both agree with the integers as long as the result is in range. -/

namespace Library

structure MachineInt (lo hi : ℤ) where
  val : ℤ
  inRange : lo ≤ val ∧ val ≤ hi
deriving DecidableEq

namespace MachineInt
variable {lo hi : ℤ}

@[ext] theorem ext {a b : MachineInt lo hi} (h : a.val = b.val) : a = b := by
  cases a
  cases b
  simpa using h

theorem le_hi (a : MachineInt lo hi) : a.val ≤ hi := a.inRange.2
theorem lo_le (a : MachineInt lo hi) : lo ≤ a.val := a.inRange.1

def narrow (n : ℤ) : Option (MachineInt lo hi) :=
  if h : lo ≤ n ∧ n ≤ hi then some ⟨n, h⟩ else none

theorem narrow_eq_some {n : ℤ} {a : MachineInt lo hi} : narrow n = some a ↔ a.val = n := by
  unfold narrow
  split_ifs with h
  · simp only [Option.some.injEq, MachineInt.ext_iff]
    exact eq_comm
  · simp only [false_iff]
    rintro rfl
    exact h a.inRange

theorem exists_val_eq {n : ℤ} : (∃ a : MachineInt lo hi, a.val = n) ↔ lo ≤ n ∧ n ≤ hi := by
  constructor
  · rintro ⟨a, rfl⟩
    exact a.inRange
  · intro h
    exact ⟨⟨n, h⟩, rfl⟩

theorem exists_val_eq_add {a b : MachineInt lo hi} (hb : 0 ≤ b.val) :
    (∃ c : MachineInt lo hi, c.val = a.val + b.val) ↔ a.val + b.val ≤ hi := by
  rw [exists_val_eq, and_iff_right]
  exact a.lo_le.trans (Int.le_add_of_nonneg_right hb)

def checkedAdd (a b : MachineInt lo hi) : Option (MachineInt lo hi) := narrow (a.val + b.val)

def checkedSub (a b : MachineInt lo hi) : Option (MachineInt lo hi) := narrow (a.val - b.val)

@[simp] theorem checkedAdd_eq_some {a b c : MachineInt lo hi} :
    a.checkedAdd b = some c ↔ c.val = a.val + b.val := narrow_eq_some

@[simp] theorem checkedSub_eq_some {a b c : MachineInt lo hi} :
    a.checkedSub b = some c ↔ c.val = a.val - b.val := narrow_eq_some

def checkedMul (a b : MachineInt lo hi) : Option (MachineInt lo hi) := narrow (a.val * b.val)

def checkedDiv (a b : MachineInt lo hi) : Option (MachineInt lo hi) :=
  if b.val = 0 then none else narrow (a.val.tdiv b.val)

def checkedAbs (a : MachineInt lo hi) : Option (MachineInt lo hi) := narrow a.val.natAbs

@[simp] theorem checkedMul_eq_some {a b c : MachineInt lo hi} :
    a.checkedMul b = some c ↔ c.val = a.val * b.val := narrow_eq_some

@[simp] theorem checkedDiv_eq_some {a b c : MachineInt lo hi} :
    a.checkedDiv b = some c ↔ b.val ≠ 0 ∧ c.val = a.val.tdiv b.val := by
  unfold checkedDiv
  split_ifs with hb
  · simp [hb]
  · simp [hb, narrow_eq_some]

@[simp] theorem checkedAbs_eq_some {a b : MachineInt lo hi} :
    a.checkedAbs = some b ↔ b.val = a.val.natAbs := narrow_eq_some

def saturatingAdd (a b : MachineInt lo hi) : MachineInt lo hi :=
  ⟨max lo (min hi (a.val + b.val)), le_max_left _ _,
    max_le (a.inRange.1.trans a.inRange.2) (min_le_left _ _)⟩

theorem saturatingAdd_val {a b : MachineInt lo hi} (hb : 0 ≤ b.val) :
    (a.saturatingAdd b).val = min hi (a.val + b.val) := by
  apply max_eq_right
  apply le_min (a.lo_le.trans a.le_hi)
  exact a.lo_le.trans (Int.le_add_of_nonneg_right hb)

end MachineInt
end Library
