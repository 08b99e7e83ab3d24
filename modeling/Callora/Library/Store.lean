import Mathlib.Logic.Function.Basic
import Mathlib.Data.Option.Basic
import Mathlib.Tactic.SplitIfs

/-! Key-value stores with absent entries, and the two writes a contract makes to them. -/

namespace Library

abbrev Store (κ ν : Type) : Type := κ → Option ν

namespace Store
variable {κ ν : Type} [DecidableEq κ]

def empty : Store κ ν := fun _ => none

def set (m : Store κ ν) (k : κ) (v : ν) : Store κ ν := Function.update m k (some v)

def remove (m : Store κ ν) (k : κ) : Store κ ν := Function.update m k none

omit [DecidableEq κ] in
@[simp] theorem empty_apply (k : κ) : (empty : Store κ ν) k = none := rfl

@[simp] theorem set_self (m : Store κ ν) (k : κ) (v : ν) : m.set k v k = some v :=
  Function.update_self ..

@[simp] theorem remove_self (m : Store κ ν) (k : κ) : m.remove k k = none :=
  Function.update_self ..

theorem set_apply (m : Store κ ν) (k k' : κ) (v : ν) :
    m.set k v k' = if k' = k then some v else m k' := Function.update_apply ..

theorem remove_apply (m : Store κ ν) (k k' : κ) :
    m.remove k k' = if k' = k then none else m k' := Function.update_apply ..

@[simp] theorem set_of_ne {m : Store κ ν} {k k' : κ} {v : ν} (h : k' ≠ k) : m.set k v k' = m k' :=
  Function.update_of_ne h ..

@[simp] theorem remove_of_ne {m : Store κ ν} {k k' : κ} (h : k' ≠ k) : m.remove k k' = m k' :=
  Function.update_of_ne h ..

theorem set_set (m : Store κ ν) (k : κ) (v v' : ν) : (m.set k v).set k v' = m.set k v' :=
  Function.update_idem ..

theorem set_comm {k k' : κ} (h : k ≠ k') (m : Store κ ν) (v v' : ν) :
    (m.set k v).set k' v' = (m.set k' v').set k v := by
  unfold set
  exact Function.update_comm h _ _ _

theorem forall_set {P : κ → ν → Prop} {m : Store κ ν} {k : κ} {v : ν}
    (hm : ∀ k v, m k = some v → P k v) (hv : P k v) :
    ∀ k' v', m.set k v k' = some v' → P k' v' := by
  intro k' v' h
  rw [set_apply] at h
  split_ifs at h with hk
  · obtain rfl := Option.some.inj h
    rw [hk]
    exact hv
  · exact hm k' v' h

theorem forall_remove {P : κ → ν → Prop} {m : Store κ ν} {k : κ}
    (hm : ∀ k v, m k = some v → P k v) : ∀ k' v', m.remove k k' = some v' → P k' v' := by
  intro k' v' h
  rw [remove_apply] at h
  split_ifs at h
  exact hm k' v' h

end Store
end Library
