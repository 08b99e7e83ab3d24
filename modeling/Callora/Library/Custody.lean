import Mathlib.Algebra.Order.Group.Defs
import Mathlib.Algebra.Order.Group.Unbundled.Basic

/-! Custody of an asset. A custodian owes some of what it holds to its clients; the rest is its
surplus. Money that comes in, and money that leaves together with the claim on it, keep it solvent;
taking money without a claim does exactly as long as it comes out of the surplus. -/

namespace Library

structure Custody (α : Type) where
  owed : α
  held : α

namespace Custody
variable {α : Type} [AddCommGroup α] [LinearOrder α] [IsOrderedAddMonoid α] {c c' : Custody α}

def Solvent (c : Custody α) : Prop := 0 ≤ c.owed ∧ c.owed ≤ c.held

def surplus (c : Custody α) : α := c.held - c.owed

def take (c : Custody α) (a : α) : Custody α := ⟨c.owed, c.held - a⟩

/-- The moves of a custodian that keeps its clients' money. -/
inductive Step (c : Custody α) : Custody α → Prop
  | stay : Step c c
  | receive {a : α} (nonneg : 0 ≤ a) : Step c ⟨c.owed, c.held + a⟩
  | credit {a : α} (nonneg : 0 ≤ a) : Step c ⟨c.owed + a, c.held + a⟩
  | debit {a : α} (nonneg : 0 ≤ a) (covered : a ≤ c.owed) : Step c ⟨c.owed - a, c.held - a⟩
  | release {a : α} (nonneg : 0 ≤ a) (covered : a ≤ c.owed) : Step c ⟨c.owed - a, c.held⟩

theorem Solvent.step (h : c.Solvent) (hstep : Step c c') : c'.Solvent := by
  obtain ⟨howed, hheld⟩ := h
  cases hstep with
  | stay => exact ⟨howed, hheld⟩
  | receive nonneg => exact ⟨howed, hheld.trans (le_add_of_nonneg_right nonneg)⟩
  | credit nonneg => exact ⟨add_nonneg howed nonneg, add_le_add_left hheld _⟩
  | debit nonneg covered => exact ⟨sub_nonneg.2 covered, sub_le_sub_right hheld _⟩
  | release nonneg covered =>
    exact ⟨sub_nonneg.2 covered, (sub_le_self _ nonneg).trans hheld⟩

theorem Solvent.surplus_nonneg (h : c.Solvent) : 0 ≤ c.surplus := sub_nonneg.2 h.2

omit [LinearOrder α] [IsOrderedAddMonoid α] in
theorem surplus_take (c : Custody α) (a : α) : (c.take a).surplus = c.surplus - a :=
  sub_right_comm ..

omit [LinearOrder α] [IsOrderedAddMonoid α] in
theorem take_take (c : Custody α) (a b : α) : (c.take a).take b = c.take (a + b) := by
  unfold take
  rw [sub_sub]

theorem solvent_take_iff {a : α} (h : c.Solvent) : (c.take a).Solvent ↔ a ≤ c.surplus := by
  have hcomm : c.owed ≤ c.held - a ↔ a ≤ c.held - c.owed := le_sub_comm
  exact ⟨fun ht => hcomm.1 ht.2, fun ha => ⟨h.1, hcomm.2 ha⟩⟩

end Custody
end Library
