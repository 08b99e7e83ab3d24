import Callora.Library.Machine

/-! Actions that wait out a delay before they may be executed. A slot holds at most one staged
action; a new proposal replaces it, and an execution or a cancellation clears it. -/

namespace Library

structure StagedAction (α : Type) where
  action : α
  stagedAt : ℕ
  dueAt : ℕ

inductive SlotAct (α : Type) where
  | propose (action : α)
  | execute
  | cancel

/-- What an act at time `now` makes of what was pending `before`, when the delay is `delay`. -/
def SlotStep {α : Type} (now delay : ℕ) (before after : Option (StagedAction α)) :
    Option (SlotAct α) → Prop
  | some (.propose a) => after = some ⟨a, now, now + delay⟩
  | some .execute => after = none ∧ ∃ p, before = some p ∧ p.dueAt ≤ now
  | some .cancel => after = none
  | none => after = before

/-- A slot of the machine `m`: the committed steps of `m` are steps of it. -/
structure Timelock {σ ι ο : Type} (m : Machine σ ι ο) (α : Type) where
  pending : σ → Option (StagedAction α)
  act : ι → Option (SlotAct α)
  time : ι → ℕ
  delay : σ → ℕ
  slot_step {s : σ} {i : ι} {o : ο} {s' : σ} (h : m.step s i = some (o, s')) :
    SlotStep (time i) (delay s) (pending s) (pending s') (act i)

namespace Timelock
variable {σ ι ο α : Type} {m : Machine σ ι ο} (lock : Timelock m α)

def Proposes (a : α) (stagedAt delay : ℕ) (e : Entry σ ι ο) : Prop :=
  lock.act e.input = some (.propose a) ∧ lock.time e.input = stagedAt ∧ lock.delay e.pre = delay

def Executes (e : Entry σ ι ο) : Prop := lock.act e.input = some .execute

def Leaves (e : Entry σ ι ο) : Prop := lock.act e.input = none

variable {lock} {s : σ} {is : List ι}

theorem pending_of_step {s' : σ} {i : ι} {o : ο} {p : StagedAction α}
    (h : m.step s i = some (o, s')) (hpending : lock.pending s' = some p) :
    (∃ delay, p.dueAt = p.stagedAt + delay ∧
      lock.Proposes p.action p.stagedAt delay ⟨s, i, o, s'⟩) ∨
    (lock.pending s = some p ∧ lock.Leaves ⟨s, i, o, s'⟩) := by
  have hslot := lock.slot_step h
  rw [hpending] at hslot
  rcases hact : lock.act i with _ | a | _ | _ <;> rw [hact] at hslot
  · right
    exact ⟨hslot.symm, hact⟩
  · left
    obtain rfl := Option.some.inj hslot
    exact ⟨lock.delay s, rfl, hact, rfl, rfl⟩
  · cases hslot.1
  · cases hslot

theorem pending_since (h₀ : lock.pending s = none) {p : StagedAction α}
    (h : lock.pending (m.run s is) = some p) :
    Machine.Since (fun e => ∃ delay, p.dueAt = p.stagedAt + delay ∧
      lock.Proposes p.action p.stagedAt delay e) lock.Leaves (m.log s is) := by
  apply Machine.since_of_run (H := fun t => lock.pending t = some p) _ _ is h
  · rw [h₀]
    exact (Option.some_ne_none p).symm
  · intro t i o t' hstep hpending
    exact pending_of_step hstep hpending

variable (lock is) in
/-- What is pending is what was proposed last, if it has been left alone since. -/
theorem pending_iff_since (h₀ : lock.pending s = none) {p : StagedAction α} :
    lock.pending (m.run s is) = some p ↔
      Machine.Since (fun e => ∃ delay, p.dueAt = p.stagedAt + delay ∧
        lock.Proposes p.action p.stagedAt delay e) lock.Leaves (m.log s is) := by
  apply Machine.run_iff_since (I := fun _ => True) (H := fun t => lock.pending t = some p) trivial
    fun _ _ _ _ _ _ => trivial
  · rw [h₀]
    exact (Option.some_ne_none p).symm
  · intro t i o t' _ hstep
    constructor
    · exact pending_of_step hstep
    · intro h
      have hslot := lock.slot_step hstep
      rcases h with ⟨delay, hdue, hact, htime, hdelay⟩ | ⟨hpending, hleaves⟩
      · have hact' : lock.act i = some (.propose p.action) := hact
        have htime' : lock.time i = p.stagedAt := htime
        have hdelay' : lock.delay t = delay := hdelay
        rw [hact'] at hslot
        rw [show lock.pending t' = _ from hslot, htime', hdelay', ← hdue]
      · have hleaves' : lock.act i = none := hleaves
        rw [hleaves'] at hslot
        exact Eq.trans hslot hpending

/-- Behind every execution stands the latest proposal, and the delay of its time has passed. -/
theorem exists_proposal (h₀ : lock.pending s = none) {l₁ l₂ : List (Entry σ ι ο)}
    {e : Entry σ ι ο} (hlog : m.log s is = l₁ ++ e :: l₂) (he : lock.Executes e) :
    ∃ p delay, lock.pending e.pre = some p ∧ p.stagedAt + delay ≤ lock.time e.input ∧
      Machine.Since (lock.Proposes p.action p.stagedAt delay) lock.Leaves l₁ := by
  obtain ⟨js, ks, -, hjs, hrun, hstep⟩ := Machine.log_split hlog
  have hslot := lock.slot_step hstep
  unfold Executes at he
  rw [he] at hslot
  obtain ⟨-, p, hpending, hdue⟩ := hslot
  rw [← hrun] at hpending
  have hsince := pending_since h₀ hpending
  rw [hrun] at hpending
  obtain ⟨a, q, b, hsplit, ⟨delay, hdelay, hq⟩, hb⟩ := hsince
  rw [hjs] at hsplit
  rw [hdelay] at hdue
  exact ⟨p, delay, hpending, hdue, a, q, b, hsplit, hq, hb⟩

theorem exists_proposal_between (h₀ : lock.pending s = none) {l₁ l₂ l₃ : List (Entry σ ι ο)}
    {e₁ e₂ : Entry σ ι ο} (hlog : m.log s is = l₁ ++ e₁ :: (l₂ ++ e₂ :: l₃))
    (h₁ : lock.Executes e₁) (h₂ : lock.Executes e₂) :
    ∃ p ∈ l₂, ∃ a stagedAt delay, lock.Proposes a stagedAt delay p := by
  apply Machine.exists_mem_between (R := lock.Leaves) _ _ _ hlog h₁ h₂
  · intro l e l' hl he
    obtain ⟨p, delay, -, -, hsince⟩ := exists_proposal h₀ hl he
    exact hsince.mono (fun q hq => ⟨p.action, p.stagedAt, delay, hq⟩) fun _ hr => hr
  · intro e he hp
    obtain ⟨a, stagedAt, delay, hact, -⟩ := hp
    unfold Executes at he
    rw [hact] at he
    cases he
  · intro e he hleaves
    unfold Executes at he
    rw [hleaves] at he
    cases he

end Timelock
end Library
