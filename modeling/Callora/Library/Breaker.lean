import Callora.Library.Machine

/-! Circuit breakers. Some inputs of a machine trip the breaker and others reset it. Behind a
tripped breaker a quantity may be guarded, which moves only by what the breaker lets through. -/

namespace Library

structure Breaker {σ ι ο : Type} (m : Machine σ ι ο) where
  tripped : σ → Prop
  Trips : ι → Prop
  Resets : ι → Prop
  valid : σ → Prop
  valid_step {s : σ} {i : ι} {o : ο} {s' : σ} (hs : valid s) (h : m.step s i = some (o, s')) :
    valid s'
  tripped_step {s : σ} {i : ι} {o : ο} {s' : σ} (hs : valid s) (h : m.step s i = some (o, s')) :
    tripped s' ↔ Trips i ∨ (tripped s ∧ ¬Resets i)

namespace Breaker
variable {σ ι ο : Type} {m : Machine σ ι ο} (b : Breaker m)

/-- The breaker has been tripped, and not reset since. -/
def Since (l : List (Entry σ ι ο)) : Prop :=
  Machine.Since (fun e => b.Trips e.input) (fun e => ¬b.Resets e.input) l

variable {b} {s : σ}

theorem tripped_iff_since (hs : b.valid s) (h₀ : ¬b.tripped s) (is : List ι) :
    b.tripped (m.run s is) ↔ b.Since (m.log s is) := by
  apply Machine.run_iff_since hs (fun _ _ _ _ ht h => b.valid_step ht h) h₀
  intro t i o t' ht h
  exact b.tripped_step ht h

theorem tripped_post (hs : b.valid s) {is : List ι} {l₁ l₂ : List (Entry σ ι ο)} {e : Entry σ ι ο}
    (hlog : m.log s is = l₁ ++ e :: l₂) (htrips : b.Trips e.input) :
    b.valid e.post ∧ b.tripped e.post := by
  obtain ⟨js, ks, -, -, hpre, hstep⟩ := Machine.log_split hlog
  have hvalid : b.valid e.pre := by
    rw [← hpre]
    exact Machine.invariant hs (fun _ _ _ _ ht h => b.valid_step ht h) js
  exact ⟨b.valid_step hvalid hstep, (b.tripped_step hvalid hstep).2 (.inl htrips)⟩

section
variable {I : σ → Prop} {g : σ → ℤ} {f : Entry σ ι ο → ℤ}
  (hI : ∀ s i o s', I s → m.step s i = some (o, s') → I s')
  (hg : ∀ s i o s', I s → b.tripped s → m.step s i = some (o, s') →
    g s' = g s + f ⟨s, i, o, s'⟩)
include hI hg

theorem guarded_run (hs : b.valid s) (hI₀ : I s) (htripped : b.tripped s) (is : List ι)
    (hkept : ∀ e ∈ m.log s is, ¬b.Resets e.input) :
    g (m.run s is) = g s + ((m.log s is).map f).sum := by
  have hrun := Machine.log_invariant (m := m) (s := s)
    (P := fun l t => (b.valid t ∧ I t) ∧ ((∀ e ∈ l, ¬b.Resets e.input) →
      b.tripped t ∧ g t = g s + (l.map f).sum)) ⟨⟨hs, hI₀⟩, fun _ => ⟨htripped, ?_⟩⟩ ?_ is
  · exact (hrun.2 hkept).2
  · rw [List.map_nil, List.sum_nil, add_zero]
  · intro l t i o t' ht hstep
    rcases ht with ⟨⟨hvalid, hIt⟩, hsofar⟩
    refine ⟨⟨b.valid_step hvalid hstep, hI t i o t' hIt hstep⟩, ?_⟩
    intro hall
    have hbefore := hsofar fun e he => hall e (List.mem_append_left _ he)
    have hi : ¬b.Resets i := hall _ (List.mem_append_right _ List.mem_cons_self)
    refine ⟨(b.tripped_step hvalid hstep).2 (.inr ⟨hbefore.1, hi⟩), ?_⟩
    rw [hg t i o t' hIt hbefore.1 hstep, hbefore.2, List.map_append, List.sum_append,
      List.map_singleton, List.sum_singleton, add_assoc]

theorem guarded_since (hs : b.valid s) {is : List ι} {l₁ l₂ : List (Entry σ ι ο)}
    {e : Entry σ ι ο} (hlog : m.log s is = l₁ ++ e :: l₂) (htrips : b.Trips e.input)
    (hkept : ∀ x ∈ l₂, ¬b.Resets x.input) (hI₀ : I e.post) :
    g (m.run s is) = g e.post + (l₂.map f).sum := by
  have hpost := tripped_post hs hlog htrips
  obtain ⟨js, rfl, hrun⟩ := Machine.log_after hlog
  rw [← hrun]
  exact guarded_run hI hg hpost.1 hI₀ hpost.2 js hkept

end

end Breaker
end Library
