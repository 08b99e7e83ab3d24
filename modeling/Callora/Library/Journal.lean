import Mathlib.Algebra.BigOperators.Finprod
import Mathlib.Algebra.BigOperators.Group.List.Basic
import Mathlib.Algebra.Ring.Int.Defs
import Mathlib.Tactic.Ring

/-! Journals over a set of accounts, of which only finitely many hold anything. A posting adds a
signed amount to one account; the totals over a family of accounts move by the postings into the
family, whatever the order of the postings. -/

namespace Library

structure Posting (κ : Type) where
  account : κ
  amount : ℤ

namespace Journal
variable {κ δ : Type}

def reverse (ps : List (Posting κ)) : List (Posting κ) := ps.map fun p => ⟨p.account, -p.amount⟩

def map {κ' : Type} (f : κ → κ') (ps : List (Posting κ)) : List (Posting κ') :=
  ps.map fun p => ⟨f p.account, p.amount⟩

theorem map_append {κ' : Type} (f : κ → κ') (ps qs : List (Posting κ)) :
    map f (ps ++ qs) = map f ps ++ map f qs := List.map_append

/-- The net amount that `ps` books on the accounts in `S`. -/
def net (S : κ → Prop) [DecidablePred S] (ps : List (Posting κ)) : ℤ :=
  (ps.map fun p => if S p.account then p.amount else 0).sum

section
variable (S : κ → Prop) [DecidablePred S]

@[simp] theorem net_nil : net S [] = 0 := rfl

@[simp] theorem net_cons (p : Posting κ) (ps : List (Posting κ)) :
    net S (p :: ps) = (if S p.account then p.amount else 0) + net S ps := by
  simp only [net, List.map_cons, List.sum_cons]

@[simp] theorem net_append (ps qs : List (Posting κ)) : net S (ps ++ qs) = net S ps + net S qs := by
  simp only [net, List.map_append, List.sum_append]

@[simp] theorem net_reverse (ps : List (Posting κ)) : net S (reverse ps) = -net S ps := by
  induction ps with
  | nil => rfl
  | cons p ps ih =>
    simp only [reverse, List.map_cons, net_cons] at ih ⊢
    rw [ih]
    split_ifs <;> ring

@[simp] theorem net_map {κ' : Type} (f : κ' → κ) (ps : List (Posting κ')) :
    net S (map f ps) = net (fun k => S (f k)) ps := by
  unfold net map
  rw [List.map_map]
  rfl

omit [DecidablePred S] in
theorem net_congr {S S' : κ → Prop} [DecidablePred S] [DecidablePred S'] (h : ∀ k, S k ↔ S' k)
    (ps : List (Posting κ)) : net S ps = net S' ps := by
  unfold net
  simp only [h]

theorem net_eq_zero {ps : List (Posting κ)} (h : ∀ p ∈ ps, ¬S p.account) : net S ps = 0 := by
  refine List.sum_eq_zero fun a ha => ?_
  obtain ⟨p, hp, rfl⟩ := List.mem_map.1 ha
  exact if_neg (h p hp)

theorem net_flatMap_sub {α : Type} {f g h : α → List (Posting κ)} (as : List α)
    (hf : ∀ a ∈ as, net S (f a) = net S (g a) - net S (h a)) :
    net S (as.flatMap f) = net S (as.flatMap g) - net S (as.flatMap h) := by
  induction as with
  | nil => rfl
  | cons a as ih =>
    simp only [List.flatMap_cons, net_append, hf a List.mem_cons_self,
      ih fun x hx => hf x (List.mem_cons_of_mem a hx)]
    ring

theorem net_flatMap_congr {α : Type} {f g : α → List (Posting κ)} (as : List α)
    (h : ∀ a ∈ as, net S (f a) = net S (g a)) : net S (as.flatMap f) = net S (as.flatMap g) := by
  induction as with
  | nil => rfl
  | cons a as ih =>
    simp only [List.flatMap_cons, net_append, h a List.mem_cons_self,
      ih fun x hx => h x (List.mem_cons_of_mem a hx)]

theorem net_flatMap_append {α : Type} (f g : α → List (Posting κ)) (as : List α) :
    net S (as.flatMap fun a => f a ++ g a) = net S (as.flatMap f) + net S (as.flatMap g) := by
  induction as with
  | nil => rfl
  | cons a as ih =>
    simp only [List.flatMap_cons, net_append, ih]
    ring

theorem net_add_net_not (ps : List (Posting κ)) :
    net S ps + net (fun k => ¬S k) ps = net (fun _ => True) ps := by
  induction ps with
  | nil => rfl
  | cons p ps ih =>
    rw [net_cons, net_cons, net_cons, ← ih]
    by_cases h : S p.account
    · simp only [if_pos h, if_neg (not_not.2 h), if_true]
      ring
    · simp only [if_neg h, if_pos h, if_true]
      ring

theorem net_nonneg {ps : List (Posting κ)} (h : ∀ p ∈ ps, S p.account → 0 ≤ p.amount) :
    0 ≤ net S ps := by
  apply List.sum_nonneg
  intro a ha
  obtain ⟨p, hp, rfl⟩ := List.mem_map.1 ha
  split_ifs with hS
  · exact h p hp hS
  · exact le_rfl

theorem net_pos {ps : List (Posting κ)} (hne : ps ≠ [])
    (h : ∀ p ∈ ps, S p.account ∧ 0 < p.amount) : 0 < net S ps := by
  obtain ⟨p, ps, rfl⟩ := List.exists_cons_of_ne_nil hne
  obtain ⟨⟨hS, hp⟩, hps⟩ := List.forall_mem_cons.1 h
  rw [net_cons, if_pos hS]
  exact add_pos_of_pos_of_nonneg hp (net_nonneg S fun q hq _ => (hps q hq).2.le)

end

variable [DecidableEq κ]

def post (b : κ → ℤ) (ps : List (Posting κ)) : κ → ℤ := fun k => b k + net (fun x => x = k) ps

theorem post_apply (b : κ → ℤ) (ps : List (Posting κ)) (k : κ) :
    post b ps k = b k + net (fun x => x = k) ps := rfl

@[simp] theorem post_nil (b : κ → ℤ) : post b [] = b := by
  funext k
  simp only [post_apply, net_nil, add_zero]

theorem post_append (b : κ → ℤ) (ps qs : List (Posting κ)) :
    post b (ps ++ qs) = post (post b ps) qs := by
  funext k
  simp only [post_apply, net_append, add_assoc]

theorem foldl_post {α : Type} (b : κ → ℤ) (f : α → List (Posting κ)) (as : List α) :
    as.foldl (fun b a => post b (f a)) b = post b (as.flatMap f) := by
  induction as generalizing b with
  | nil => exact (post_nil b).symm
  | cons a as ih => rw [List.foldl_cons, ih, List.flatMap_cons, post_append]

theorem post_cons (b : κ → ℤ) (p : Posting κ) (ps : List (Posting κ)) :
    post b (p :: ps) = post (post b [p]) ps := post_append b [p] ps

theorem post_singleton (b : κ → ℤ) (k : κ) (a : ℤ) :
    post b [⟨k, a⟩] = Function.update b k (b k + a) := by
  funext x
  rcases eq_or_ne x k with rfl | hx
  · simp [post_apply]
  · simp [post_apply, hx, hx.symm]

theorem le_post (b : κ → ℤ) {ps : List (Posting κ)} (hps : ∀ p ∈ ps, 0 ≤ p.amount) (k : κ) :
    b k ≤ post b ps k :=
  le_add_of_nonneg_right (net_nonneg _ fun p hp _ => hps p hp)

theorem post_nonneg {b : κ → ℤ} (hb : ∀ k, 0 ≤ b k) {ps : List (Posting κ)}
    (hps : ∀ p ∈ ps, 0 ≤ p.amount) (k : κ) : 0 ≤ post b ps k :=
  (hb k).trans (le_post b hps k)

theorem finite_support_post {b : κ → ℤ} (hb : (Function.support b).Finite)
    (ps : List (Posting κ)) : (Function.support (post b ps)).Finite := by
  refine (hb.union (ps.map Posting.account).finite_toSet).subset fun k hk => ?_
  by_contra hmem
  simp only [Set.mem_union, Function.mem_support, Set.mem_ofPred_eq, List.mem_map, not_or,
    not_not, not_exists, not_and] at hmem
  refine hk ?_
  rw [post_apply, hmem.1, net_eq_zero _ hmem.2, add_zero]

theorem finsum_post {b : κ → ℤ} (hb : (Function.support b).Finite) {f : δ → κ}
    (hf : Function.Injective f) (S : κ → Prop) [DecidablePred S] (hS : ∀ k, S k ↔ k ∈ Set.range f)
    (ps : List (Posting κ)) :
    ∑ᶠ d, post b ps (f d) = ∑ᶠ d, b (f d) + net S ps := by
  classical
  induction ps generalizing b with
  | nil => simp only [post_nil, net_nil, add_zero]
  | cons p ps ih =>
    obtain ⟨k, a⟩ := p
    have hone : ∑ᶠ d, post b [⟨k, a⟩] (f d) = ∑ᶠ d, b (f d) + if S k then a else 0 := by
      have hfin : (Function.support fun d => b (f d)).Finite :=
        hb.preimage hf.injOn
      simp only [post_apply, net_cons, net_nil, add_zero]
      split_ifs with hk
      · obtain ⟨d₀, rfl⟩ := (hS k).1 hk
        have hpt : ∀ d, (if f d₀ = f d then a else 0) = if d = d₀ then a else 0 := fun d => by
          simp only [hf.eq_iff, eq_comm]
        simp only [hpt]
        rw [finsum_add_distrib hfin ((Set.finite_singleton d₀).subset fun d hd => by
          by_contra hne
          exact hd (if_neg hne)), finsum_eq_single _ d₀ fun d hd => if_neg hd, if_pos rfl]
      · have hpt : ∀ d, (if k = f d then a else 0) = 0 := fun d =>
          if_neg fun h => hk ((hS k).2 ⟨d, h.symm⟩)
        simp only [hpt, add_zero]
    rw [post_cons, ih (finite_support_post hb _), hone, net_cons, add_assoc]

end Journal
end Library
