import Callora.Vault.RateLimit

/-! What the rate limits refuse. A bucket keeps two numbers for a developer and no history, and yet
decides as a limiter would that keeps every grant and looks at every span of ledgers: nothing is
refused that the limit leaves room for. -/

namespace Callora.Vault.RateLimit
open Library TokenBucket

variable {Address : Type} [DecidableEq Address] {s s' : RateLimits Address}
  {config : RateLimitConfig} {now : ℕ} {developer : Address} {amount : I128} {u : Unit}
  {gs : List Grant}

/-- The bucket of `developer` accounts for its grants, and has lost none of its ticks since it last
ran over. -/
structure Exact (s : RateLimits Address) (config : RateLimitConfig) (developer : Address)
    (gs : List Grant) : Prop extends Metered s config developer gs where
  tight : ∀ now, Tight config.capacity.val config.refillRate.val
    (bucket s config developer now).tokens.val (bucket s config developer now).lastUpdatedLedger gs

omit [DecidableEq Address] in
theorem Metered.lastUpdatedLedger_le (hs : Metered s config developer gs)
    (hclock : ∀ g ∈ gs, g.time ≤ now) :
    (bucket s config developer now).lastUpdatedLedger ≤ now := by
  unfold bucket
  rcases hstate : getState s developer with _ | state
  · exact le_rfl
  · rcases hs.dated state hstate with ⟨g, hg, htime⟩
    exact htime.trans_le (hclock g hg)

section
variable (hs : Exact s config developer gs) (hrate : 0 ≤ config.refillRate.val)
  (hclock : ∀ g ∈ gs, g.time ≤ now) (hfits : now * config.refillRate.val ≤ I128.max.val)
include hs hrate hclock hfits

omit [DecidableEq Address] in
theorem Exact.refill :
    ∃ level : I128, refill config (bucket s config developer now) now = ⟨level, now⟩ ∧
      level.val = min config.capacity.val ((bucket s config developer now).tokens.val +
        config.refillRate.val *
          (now - (bucket s config developer now).lastUpdatedLedger : ℤ)) := by
  have hlast := hs.toMetered.lastUpdatedLedger_le hclock
  have hgain : (now - (bucket s config developer now).lastUpdatedLedger : ℤ) *
      config.refillRate.val ≤ I128.max.val := by
    have helapsed : (now - (bucket s config developer now).lastUpdatedLedger : ℤ) ≤ now :=
      Int.sub_le_self _ (Int.natCast_nonneg _)
    exact (mul_le_mul_of_nonneg_right helapsed hrate).trans hfits
  rcases refill_of_fits hrate (hs.accounts now).le_cap hlast hgain with ⟨level, hrefill, hlevel⟩
  refine ⟨level, hrefill, ?_⟩
  rw [hlevel, mul_comm config.refillRate.val]

theorem Exact.served_iff (hpos : 0 ≤ amount.val) :
    (∃ s', (consumeTokens now developer amount).run s = .ok () s') ↔
      Admits config.capacity.val config.refillRate.val gs now amount.val := by
  have hlast := hs.toMetered.lastUpdatedLedger_le hclock
  rcases hs.refill hrate hclock hfits with ⟨level, hrefill, hlevel⟩
  rw [← le_level_iff (hs.accounts now) (hs.tight now) hlast hlevel hrate]
  simp only [run_consumeTokens_eq_ok hs.config_eq, hrefill]
  constructor
  · intro h
    rcases h with ⟨_, _, hserved, -⟩
    exact hserved
  · intro hserved
    have hbrim := level.le_hi
    have hrest : ∃ tokens : I128, tokens.val = level.val - amount.val :=
      MachineInt.exists_val_eq.2 ⟨by omega, by omega⟩
    rcases hrest with ⟨tokens, htokens⟩
    exact ⟨_, tokens, hserved, htokens, rfl⟩

theorem Exact.concat (hpos : 0 ≤ amount.val)
    (h : (consumeTokens now developer amount).run s = .ok u s') :
    Exact s' config developer (gs ++ [⟨now, amount.val⟩]) := by
  have hlast := hs.toMetered.lastUpdatedLedger_le hclock
  have hmetered := metered_of_grant hs.toMetered hrate hpos hclock h
  rcases hs.refill hrate hclock hfits with ⟨level, hrefill, hlevel⟩
  rcases (run_consumeTokens_eq_ok hs.config_eq).1 h with ⟨tokens, -, htokens, hs'⟩
  have htaken := tight_take (hs.accounts now) (hs.tight now) hlast hlevel amount.val
  refine ⟨hmetered, ?_⟩
  intro now'
  have hstored : getState s' developer = some ⟨tokens, now⟩ := by
    unfold getState
    rw [hs', hrefill]
    exact Store.set_self ..
  unfold bucket
  rw [hstored, Option.getD_some, htokens, hrefill]
  exact htaken

end

theorem Exact.of_other {d : Address} (hs : Exact s config d gs) (hd : d ≠ developer)
    (h : (consumeTokens now developer amount).run s = .ok u s') : Exact s' config d gs := by
  refine ⟨metered_of_other hs.toMetered hd h, ?_⟩
  have hframe := frame_of_consumeTokens hd h
  intro now'
  unfold bucket
  rw [hframe]
  exact hs.tight now'

def RefillsFit (config : RateLimitConfig) (developer : Address)
    (calls : List (ConsumeCall Address)) : Prop :=
  ∀ call ∈ calls, call.developer = developer →
    call.ledger * config.refillRate.val ≤ I128.max.val

/-- What the limiter that looks at every span of ledgers grants of the calls of `developer`. -/
def admitted (config : RateLimitConfig) (developer : Address)
    (calls : List (ConsumeCall Address)) : List Grant :=
  ((calls.filter fun call => call.developer = developer).map fun call =>
    ⟨call.ledger, call.amount.val⟩).foldl (grant config.capacity.val config.refillRate.val) []

theorem admitted_concat_self {calls : List (ConsumeCall Address)} {call : ConsumeCall Address}
    (hd : call.developer = developer) :
    admitted config developer (calls ++ [call]) =
      grant config.capacity.val config.refillRate.val (admitted config developer calls)
        ⟨call.ledger, call.amount.val⟩ := by
  unfold admitted
  rw [List.filter_append, List.map_append, List.foldl_append, List.filter_singleton,
    decide_eq_true hd]
  rfl

theorem admitted_concat_of_ne {calls : List (ConsumeCall Address)} {call : ConsumeCall Address}
    (hd : call.developer ≠ developer) :
    admitted config developer (calls ++ [call]) = admitted config developer calls := by
  unfold admitted
  rw [List.filter_append, List.filter_singleton, decide_eq_false hd]
  simp only [cond_false, List.append_nil]

theorem Orderly.le_ledger (s₀ : RateLimits Address) {calls : List (ConsumeCall Address)}
    {call : ConsumeCall Address} (h : Orderly developer (calls ++ [call]))
    (hd : call.developer = developer) :
    ∀ g ∈ grants developer ((rateLimiter Address).log s₀ calls), g.time ≤ call.ledger := by
  intro g hg
  rcases List.mem_map.1 hg with ⟨e, he, rfl⟩
  rcases List.mem_filter.1 he with ⟨he, hde⟩
  have hcall : e.input ∈ calls :=
    (Machine.log_inputs_sublist s₀ calls).subset (List.mem_map_of_mem he)
  have hclock := h.clock
  rw [List.filter_append, List.pairwise_append] at hclock
  apply hclock.2.2 e.input (List.mem_filter.2 ⟨hcall, hde⟩) call
  apply List.mem_filter.2
  exact ⟨List.mem_singleton_self _, decide_eq_true hd⟩

theorem exact_fresh {s₀ : RateLimits Address} (hconfig : getConfig s₀ developer = some config)
    (hfresh : getState s₀ developer = none) (hcap : 0 ≤ config.capacity.val)
    (hrate : 0 ≤ config.refillRate.val) : Exact s₀ config developer [] := by
  have horder : Orderly developer ([] : List (ConsumeCall Address)) :=
    ⟨List.forall_mem_nil _, List.Pairwise.nil⟩
  refine ⟨metered_run hconfig hfresh hcap hrate [] horder, ?_⟩
  intro now
  unfold bucket
  rw [hfresh, Option.getD_none]
  exact tight_full ..

theorem grants_append (l l' : List (LogEntry Address)) :
    grants developer (l ++ l') = grants developer l ++ grants developer l' := by
  unfold grants
  rw [List.filter_append, List.map_append]

section
variable {call : ConsumeCall Address} (hs : Exact s config developer gs)
include hs

theorem Exact.next_self (hd : call.developer = developer) (hrate : 0 ≤ config.refillRate.val)
    (hclock : ∀ g ∈ gs, g.time ≤ call.ledger)
    (hfits : call.ledger * config.refillRate.val ≤ I128.max.val) (hpos : 0 ≤ call.amount.val) :
    let gs' := grant config.capacity.val config.refillRate.val gs ⟨call.ledger, call.amount.val⟩
    Exact ((rateLimiter Address).next s call) config developer gs' ∧
      gs ++ grants developer ((rateLimiter Address).entries s call) = gs' := by
  have hserved := hs.served_iff hrate hclock hfits hpos
  dsimp only
  unfold grant
  split_ifs with hadmits
  · rcases hserved.2 hadmits with ⟨s', hrun⟩
    have hstep : (rateLimiter Address).step s call = some ((), s') := by
      apply Call.commit_eq_some.2
      rw [hd]
      exact hrun
    rw [Machine.next_of_step hstep, Machine.entries_of_step hstep]
    refine ⟨hs.concat hrate hclock hfits hpos hrun, ?_⟩
    congr 1
    simp only [grants, List.filter_singleton, hd, decide_true, cond_true, List.map_singleton]
  · have hstep : (rateLimiter Address).step s call = none := by
      apply Call.commit_eq_none.2
      intro _ s' hrun
      rw [hd] at hrun
      exact hadmits (hserved.1 ⟨s', hrun⟩)
    rw [Machine.next_of_rollback hstep, Machine.entries_of_rollback hstep]
    exact ⟨hs, List.append_nil _⟩

theorem Exact.next_of_ne (hd : call.developer ≠ developer) :
    Exact ((rateLimiter Address).next s call) config developer gs ∧
      grants developer ((rateLimiter Address).entries s call) = [] := by
  rcases hstep : (rateLimiter Address).step s call with _ | ⟨u, s'⟩
  · rw [Machine.next_of_rollback hstep, Machine.entries_of_rollback hstep]
    exact ⟨hs, rfl⟩
  · rw [Machine.next_of_step hstep, Machine.entries_of_step hstep]
    refine ⟨hs.of_other (Ne.symm hd) (Call.commit_eq_some.1 hstep), ?_⟩
    simp only [grants, List.filter_singleton, hd, decide_false, cond_false, List.map_nil]

end

/-- However the calls are mixed, the buckets grant a developer exactly what a limiter grants that
keeps every grant and looks at every span of ledgers: a call is refused only if, with it, some span
would exceed the capacity and what its ledgers bring. -/
theorem grants_exactly {s₀ : RateLimits Address} {developer : Address} {config : RateLimitConfig}
    (hconfig : getConfig s₀ developer = some config) (hfresh : getState s₀ developer = none)
    (hcap : 0 ≤ config.capacity.val) (hrate : 0 ≤ config.refillRate.val)
    (calls : List (ConsumeCall Address)) (horder : Orderly developer calls)
    (hfits : RefillsFit config developer calls) :
    grants developer ((rateLimiter Address).log s₀ calls) = admitted config developer calls := by
  have key : Exact ((rateLimiter Address).run s₀ calls) config developer
      (admitted config developer calls) ∧
      grants developer ((rateLimiter Address).log s₀ calls) =
        admitted config developer calls := by
    induction calls using List.reverseRecOn with
    | nil => exact ⟨exact_fresh hconfig hfresh hcap hrate, rfl⟩
    | append_singleton calls call ih =>
      have hbefore := List.sublist_append_left calls [call]
      have hlast : call ∈ calls ++ [call] := List.mem_append_right _ (List.mem_singleton_self _)
      rcases ih (horder.sublist hbefore) (fun c hc => hfits c (hbefore.subset hc))
        with ⟨hexact, hgrants⟩
      rw [Machine.run_concat, Machine.log_concat, grants_append, hgrants]
      by_cases hd : call.developer = developer
      · have hclock := horder.le_ledger s₀ hd
        rw [hgrants] at hclock
        rw [admitted_concat_self hd]
        exact hexact.next_self hd hrate hclock (hfits call hlast hd) (horder.nonneg call hlast hd)
      · rcases hexact.next_of_ne hd with ⟨hnext, hnone⟩
        rw [admitted_concat_of_ne hd, hnone, List.append_nil]
        exact ⟨hnext, rfl⟩
  exact key.2

theorem grants_exactly_limited :
    let calls : List (ConsumeCall ℕ) :=
      [⟨5, 7, ⟨80, by decide⟩⟩, ⟨5, 7, ⟨30, by decide⟩⟩, ⟨6, 8, ⟨50, by decide⟩⟩,
        ⟨7, 7, ⟨30, by decide⟩⟩]
    let config : RateLimitConfig := ⟨⟨90, by decide⟩, ⟨10, by decide⟩⟩
    grants 7 ((rateLimiter ℕ).log limited calls) = admitted config 7 calls ∧
      admitted config 7 calls = [⟨5, 80⟩, ⟨7, 30⟩] := by
  intro calls config
  have horder : Orderly 7 calls := by
    constructor
    · decide
    · decide
  have hfits : RefillsFit config 7 calls := by
    unfold RefillsFit
    decide
  have hconfig : getConfig limited 7 = some config := rfl
  exact ⟨grants_exactly hconfig rfl (by decide) (by decide) calls horder hfits, by decide⟩

end Callora.Vault.RateLimit
