import Mathlib.Algebra.BigOperators.Group.List.Basic
import Mathlib.Algebra.Order.Ring.Int
import Mathlib.Tactic.Linarith
import Mathlib.Tactic.Ring

/-! Token buckets. A bucket holds at most `cap` tokens and gains `rate` of them per tick, lazily:
the level is brought up to date only when tokens are taken. Whatever is taken in a span of time is
then bounded by a full bucket and the gain over the span. -/

namespace Library.TokenBucket

structure Grant where
  time : ℕ
  amount : ℤ
deriving DecidableEq

def grantedIn (a b : ℕ) (gs : List Grant) : ℤ :=
  (gs.map fun g => if a ≤ g.time ∧ g.time ≤ b then g.amount else 0).sum

variable {cap rate level level' : ℤ} {last now a b : ℕ} {gs : List Grant}

@[simp] theorem grantedIn_nil (a b : ℕ) : grantedIn a b [] = 0 := rfl

theorem grantedIn_concat (a b : ℕ) (gs : List Grant) (g : Grant) :
    grantedIn a b (gs ++ [g]) =
      grantedIn a b gs + if a ≤ g.time ∧ g.time ≤ b then g.amount else 0 := by
  simp only [grantedIn, List.map_append, List.sum_append, List.map_singleton, List.sum_singleton]

theorem grantedIn_eq_zero (h : ∀ g ∈ gs, g.time ≤ last) (hlast : last < a) :
    grantedIn a b gs = 0 := by
  apply List.sum_eq_zero
  intro x hx
  obtain ⟨g, hg, rfl⟩ := List.mem_map.1 hx
  have htime := h g hg
  exact if_neg fun hwindow => by omega

theorem grantedIn_eq (h : ∀ g ∈ gs, g.time ≤ last) (hlast : last ≤ b) :
    grantedIn a b gs = grantedIn a last gs := by
  unfold grantedIn
  congr 1
  apply List.map_congr_left
  intro g hg
  have htime := h g hg
  have hend : g.time ≤ b := htime.trans hlast
  simp only [htime, hend, and_true]

/-- The level `level`, brought up to date at `last`, accounts for the grants `gs`: what is left in
the bucket and what was taken since any time are together bounded by a full bucket and the gain. -/
structure Accounts (cap rate level : ℤ) (last : ℕ) (gs : List Grant) : Prop where
  nonneg : 0 ≤ level
  le_cap : level ≤ cap
  past : ∀ g ∈ gs, g.time ≤ last
  potential : ∀ a ≤ last, grantedIn a last gs + level ≤ cap + rate * (last - a : ℤ)
  window : ∀ a b, a ≤ b → grantedIn a b gs ≤ cap + rate * (b - a : ℤ)

theorem gain_nonneg (hrate : 0 ≤ rate) (h : a ≤ b) : 0 ≤ rate * (b - a : ℤ) := by
  apply mul_nonneg hrate
  exact Int.sub_nonneg_of_le (Int.ofNat_le.2 h)

theorem accounts_full (hcap : 0 ≤ cap) (hrate : 0 ≤ rate) (last : ℕ) :
    Accounts cap rate cap last [] where
  nonneg := hcap
  le_cap := le_rfl
  past := List.forall_mem_nil _
  potential a ha := by
    have hgain := gain_nonneg hrate ha
    rw [grantedIn_nil]
    linarith
  window a b hab := by
    have hgain := gain_nonneg hrate hab
    rw [grantedIn_nil]
    linarith

theorem Accounts.take (h : Accounts cap rate level last gs) (hrate : 0 ≤ rate) (hnow : last ≤ now)
    (hgain : level' ≤ level + rate * (now - last : ℤ)) (hcap : level' ≤ cap) {amount : ℤ}
    (hpos : 0 ≤ amount) (hamount : amount ≤ level') :
    Accounts cap rate (level' - amount) now (gs ++ [⟨now, amount⟩]) := by
  have hpast : ∀ g ∈ gs ++ [⟨now, amount⟩], g.time ≤ now := by
    intro g hg
    rcases List.mem_append.1 hg with hg | hg
    · exact (h.past g hg).trans hnow
    · rw [List.mem_singleton.1 hg]
  have hpotential : ∀ a ≤ now, grantedIn a now (gs ++ [⟨now, amount⟩]) + (level' - amount) ≤
      cap + rate * (now - a : ℤ) := by
    intro a ha
    rw [grantedIn_concat, if_pos ⟨ha, le_rfl⟩]
    rcases le_or_gt a last with hold | hnew
    · rw [grantedIn_eq h.past hnow]
      have hbefore := h.potential a hold
      have hsplit : rate * (now - a : ℤ) = rate * (last - a) + rate * (now - last) := by ring
      linarith
    · rw [grantedIn_eq_zero h.past hnew]
      have hrest := gain_nonneg hrate ha
      linarith
  refine ⟨sub_nonneg.2 hamount, ?_, hpast, hpotential, ?_⟩
  · linarith
  · intro a b hab
    rcases lt_or_ge b now with hearly | hlate
    · have hold := h.window a b hab
      rw [grantedIn_concat, if_neg fun hin => hearly.not_ge hin.2, add_zero]
      exact hold
    · rcases le_or_gt a now with hin | hafter
      · rw [grantedIn_eq hpast hlate]
        have hnow := hpotential a hin
        have hrest := gain_nonneg hrate hlate
        have hsplit : rate * (b - a : ℤ) = rate * (now - a) + rate * (b - now) := by ring
        linarith
      · rw [grantedIn_eq_zero hpast hafter]
        have hrest := gain_nonneg hrate hab
        have hfull := h.nonneg.trans h.le_cap
        linarith

/-- The bucket ran over at some time, and has been charged with every tick since: what was taken
since then and what is left add up to a full bucket and the gain. -/
def Tight (cap rate level : ℤ) (last : ℕ) (gs : List Grant) : Prop :=
  ∃ a ≤ last, grantedIn a last gs + level = cap + rate * (last - a : ℤ)

theorem tight_full (cap rate : ℤ) (last : ℕ) : Tight cap rate cap last [] := by
  refine ⟨last, le_rfl, ?_⟩
  rw [grantedIn_nil, sub_self, mul_zero, zero_add, add_zero]

def Admits (cap rate : ℤ) (gs : List Grant) (now : ℕ) (amount : ℤ) : Prop :=
  ∀ a ≤ now, grantedIn a now gs + amount ≤ cap + rate * (now - a : ℤ)

instance (cap rate : ℤ) (gs : List Grant) (now : ℕ) (amount : ℤ) :
    Decidable (Admits cap rate gs now amount) :=
  inferInstanceAs (Decidable (∀ a ≤ now, _))

/-- A limiter that keeps every grant and looks at every window. -/
def grant (cap rate : ℤ) (gs : List Grant) (request : Grant) : List Grant :=
  if Admits cap rate gs request.time request.amount then gs ++ [request] else gs

section
variable (h : Accounts cap rate level last gs) (htight : Tight cap rate level last gs)
  (hnow : last ≤ now) (hlevel : level' = min cap (level + rate * (now - last : ℤ)))
include h htight hnow hlevel

theorem tight_refill : Tight cap rate level' now gs := by
  have hbrim := h.le_cap
  rcases le_or_gt (level + rate * (now - last : ℤ)) cap with hfits | hover
  · obtain ⟨a, ha, heq⟩ := htight
    refine ⟨a, ha.trans hnow, ?_⟩
    have hsplit : rate * (now - a : ℤ) = rate * (last - a) + rate * (now - last) := by ring
    rw [hlevel, min_eq_right hfits, grantedIn_eq h.past hnow]
    linarith
  · have hlater : last < now := by
      apply lt_of_le_of_ne hnow
      intro hsame
      rw [hsame, sub_self, mul_zero, add_zero] at hover
      exact absurd hbrim (not_le.2 hover)
    refine ⟨now, le_rfl, ?_⟩
    rw [hlevel, min_eq_left hover.le, grantedIn_eq_zero h.past hlater, sub_self, mul_zero,
      zero_add, add_zero]

theorem tight_take (amount : ℤ) :
    Tight cap rate (level' - amount) now (gs ++ [⟨now, amount⟩]) := by
  obtain ⟨a, ha, heq⟩ := tight_refill h htight hnow hlevel
  refine ⟨a, ha, ?_⟩
  rw [grantedIn_concat, if_pos ⟨ha, le_rfl⟩]
  linarith

/-- An up-to-date bucket serves exactly the amounts that every window ending now has room for. -/
theorem le_level_iff (hrate : 0 ≤ rate) {amount : ℤ} :
    amount ≤ level' ↔ Admits cap rate gs now amount := by
  constructor
  · intro hserved a ha
    have hfull : level' ≤ cap := hlevel ▸ min_le_left _ _
    have hgain : level' ≤ level + rate * (now - last : ℤ) := hlevel ▸ min_le_right _ _
    rcases le_or_gt a last with hold | hnew
    · have hbefore := h.potential a hold
      have hsplit : rate * (now - a : ℤ) = rate * (last - a) + rate * (now - last) := by ring
      rw [grantedIn_eq h.past hnow]
      linarith
    · have hrest := gain_nonneg hrate ha
      rw [grantedIn_eq_zero h.past hnew]
      linarith
  -- the window since the bucket last ran over leaves room for its level and no more
  · intro hroom
    obtain ⟨a, ha, heq⟩ := tight_refill h htight hnow hlevel
    have hwindow := hroom a ha
    linarith

end

end Library.TokenBucket
