import Mathlib.Algebra.BigOperators.Group.List.Basic
import Mathlib.Algebra.Ring.Int.Defs

/-! Quotas for each period of a clock. A meter shows what was used in a period, saturated at `hi`;
as long as the clock does not go back, the reading and the history agree, and a gate that compares
the reading with a limit keeps the use of every period below it. -/

namespace Library.Quota

structure Use where
  time : ℕ
  amount : ℤ
  limit : ℤ
deriving DecidableEq

variable (period : ℕ)

def usedIn (k : ℕ) (us : List Use) : ℤ :=
  (us.map fun u => if u.time / period = k then u.amount else 0).sum

/-- No use exceeded a limit in force, counted together with what came before it in its period;
a limit is in force if `P` holds of it. -/
def Within (P : ℤ → Prop) (us : List Use) : Prop :=
  ∀ before u after, us = before ++ u :: after → P u.limit →
    usedIn period (u.time / period) (before ++ [u]) ≤ u.limit

/-- `reading` shows the use of the current period, at every time from the last use on. -/
def Tracks (hi : ℤ) (reading : ℕ → ℤ) (us : List Use) : Prop :=
  ∀ now, (∀ u ∈ us, u.time ≤ now) →
    reading (now / period) = min hi (usedIn period (now / period) us)

variable {period} {P : ℤ → Prop} {hi : ℤ} {reading reading' : ℕ → ℤ} {us : List Use} {u : Use}

@[simp] theorem usedIn_nil (k : ℕ) : usedIn period k [] = 0 := rfl

@[simp] theorem usedIn_append (k : ℕ) (us vs : List Use) :
    usedIn period k (us ++ vs) = usedIn period k us + usedIn period k vs := by
  simp only [usedIn, List.map_append, List.sum_append]

@[simp] theorem usedIn_singleton (k : ℕ) (u : Use) :
    usedIn period k [u] = if u.time / period = k then u.amount else 0 := by
  simp only [usedIn, List.map_cons, List.map_nil, List.sum_cons, List.sum_nil, add_zero]

theorem usedIn_eq_zero {k : ℕ} (h : ∀ u ∈ us, u.time / period < k) : usedIn period k us = 0 := by
  refine List.sum_eq_zero fun a ha => ?_
  obtain ⟨u, hu, rfl⟩ := List.mem_map.1 ha
  exact if_neg (h u hu).ne

theorem within_nil : Within period P [] := by
  intro before u after h
  simp at h

theorem Within.mono {Q : ℤ → Prop} (h : Within period P us)
    (hPQ : ∀ u ∈ us, Q u.limit → P u.limit) : Within period Q us := by
  rintro before u after rfl hu
  exact h before u after rfl (hPQ u (by simp) hu)

theorem Within.concat (h : Within period P us)
    (hu : P u.limit → usedIn period (u.time / period) us + u.amount ≤ u.limit) :
    Within period P (us ++ [u]) := by
  intro before v after hsplit hv
  rcases List.eq_nil_or_concat after with rfl | ⟨after, w, rfl⟩
  · obtain ⟨rfl, hvu⟩ := List.append_inj' hsplit rfl
    obtain rfl := List.singleton_inj.1 hvu
    rw [usedIn_append, usedIn_singleton, if_pos rfl]
    exact hu hv
  · rw [List.concat_eq_append, ← List.cons_append, ← List.append_assoc] at hsplit
    exact h before v after (List.append_inj' hsplit rfl).1 hv

theorem tracks_nil (hhi : 0 ≤ hi) (h : ∀ k, reading k = 0) : Tracks period hi reading [] := by
  intro now _
  rw [h, usedIn_nil]
  omega

theorem Tracks.concat (h : Tracks period hi reading us) (hhi : 0 ≤ hi) (hu : 0 ≤ u.amount)
    (hlast : ∀ v ∈ us, v.time ≤ u.time)
    (hsame : reading' (u.time / period) = min hi (reading (u.time / period) + u.amount))
    (hother : ∀ k, k ≠ u.time / period → reading' k = 0) :
    Tracks period hi reading' (us ++ [u]) := by
  intro now hnow
  have hle : u.time / period ≤ now / period := Nat.div_le_div_right (hnow u (by simp))
  rw [usedIn_append, usedIn_singleton]
  split_ifs with hk
  · rw [← hk, hsame, h u.time hlast]
    omega
  -- a later period, of which the history knows nothing yet
  · have hlt : u.time / period < now / period := hle.lt_of_ne hk
    have hpast : usedIn period (now / period) us = 0 :=
      usedIn_eq_zero fun v hv => (Nat.div_le_div_right (hlast v hv)).trans_lt hlt
    rw [hother _ (Ne.symm hk), hpast]
    omega

theorem Tracks.fits (h : Tracks period hi reading us) (hu : 0 < u.amount)
    (hlast : ∀ v ∈ us, v.time ≤ u.time)
    (hroom : reading (u.time / period) + u.amount ≤ min hi u.limit) :
    usedIn period (u.time / period) us + u.amount ≤ u.limit := by
  have hreading := h u.time hlast
  omega

end Library.Quota
