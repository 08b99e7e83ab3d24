import Callora.Library.Call
import Callora.Library.Machine
import Callora.Library.Store
import Callora.Library.TokenBucket
import Callora.Host

/-! The rate limits of the vault: a token bucket for every developer that has a configuration. No
entrypoint of the vault consults them yet, so they are modelled with storage of their own. -/

namespace Callora.Vault.RateLimit
open Library TokenBucket

structure RateLimitConfig where
  capacity : I128
  /-- What a ledger brings. -/
  refillRate : I128
deriving DecidableEq

structure RateLimitState where
  tokens : I128
  lastUpdatedLedger : ℕ
deriving DecidableEq

inductive RateLimitError where
  | rateLimited
  | overflow
deriving DecidableEq

structure RateLimits (Address : Type) where
  developerConfig : Store Address RateLimitConfig := .empty
  developerState : Store Address RateLimitState := .empty

variable {Address : Type}

def getConfig (s : RateLimits Address) (developer : Address) : Option RateLimitConfig :=
  s.developerConfig developer

def getState (s : RateLimits Address) (developer : Address) : Option RateLimitState :=
  s.developerState developer

def checkedMulLedgers (elapsed : ℕ) (rate : I128) : Option I128 :=
  MachineInt.narrow (elapsed * rate.val)

/-- The bucket at the current ledger. A refill that overflows is skipped, and the clock of the
bucket advances all the same. -/
def refill (config : RateLimitConfig) (state : RateLimitState) (currentLedger : ℕ) :
    RateLimitState :=
  if state.lastUpdatedLedger < currentLedger then
    match checkedMulLedgers (currentLedger - state.lastUpdatedLedger) config.refillRate with
    | some refilled =>
      let tokens := state.tokens.saturatingAdd refilled
      ⟨if config.capacity.val < tokens.val then config.capacity else tokens, currentLedger⟩
    | none => ⟨state.tokens, currentLedger⟩
  else state

def bucket (s : RateLimits Address) (config : RateLimitConfig) (developer : Address)
    (currentLedger : ℕ) : RateLimitState :=
  (getState s developer).getD ⟨config.capacity, currentLedger⟩

variable [DecidableEq Address]

def setConfig (s : RateLimits Address) (developer : Address) (config : RateLimitConfig) :
    RateLimits Address :=
  { s with developerConfig := s.developerConfig.set developer config }

def consumeTokens (currentLedger : ℕ) (developer : Address) (amount : I128) :
    Call RateLimitError (RateLimits Address) Unit := do
  let s ← Call.load
  match getConfig s developer with
  | none => pure ()
  | some config =>
    let state := refill config (bucket s config developer currentLedger) currentLedger
    Call.ensure (¬state.tokens.val < amount.val) .rateLimited
    let tokens ← Call.okOr (state.tokens.checkedSub amount) .overflow
    Call.modify fun s => { s with
      developerState := s.developerState.set developer { state with tokens := tokens } }

variable {s s' : RateLimits Address} {config : RateLimitConfig} {state : RateLimitState}
  {now : ℕ} {developer : Address} {amount : I128} {u : Unit}

theorem run_consumeTokens_eq_ok (hconfig : getConfig s developer = some config) :
    (consumeTokens now developer amount).run s = .ok u s' ↔ ∃ tokens : I128,
      let state := refill config (bucket s config developer now) now
      amount.val ≤ state.tokens.val ∧ tokens.val = state.tokens.val - amount.val ∧
        s' = { s with
          developerState := s.developerState.set developer { state with tokens := tokens } } := by
  simp [consumeTokens, hconfig, eq_comm (a := s')]

theorem frame_of_consumeTokens {d : Address} (hd : d ≠ developer)
    (h : (consumeTokens now developer amount).run s = .ok u s') :
    getState s' d = getState s d := by
  rcases hconfig : getConfig s developer with _ | config
  · have hs : s = s' := by simpa [consumeTokens, hconfig] using h
    rw [hs]
  · obtain ⟨tokens, -, -, rfl⟩ := (run_consumeTokens_eq_ok hconfig).1 h
    exact Store.set_of_ne hd

theorem getConfig_of_consumeTokens {d : Address}
    (h : (consumeTokens now developer amount).run s = .ok u s') :
    getConfig s' d = getConfig s d := by
  rcases hconfig : getConfig s developer with _ | config
  · have hs : s = s' := by simpa [consumeTokens, hconfig] using h
    rw [hs]
  · obtain ⟨tokens, -, -, rfl⟩ := (run_consumeTokens_eq_ok hconfig).1 h
    rfl

theorem exists_getState (hconfig : getConfig s' developer = some config)
    (h : (consumeTokens now developer amount).run s = .ok u s') :
    ∃ state, getState s' developer = some state := by
  rw [getConfig_of_consumeTokens h] at hconfig
  obtain ⟨tokens, -, -, rfl⟩ := (run_consumeTokens_eq_ok hconfig).1 h
  exact ⟨_, Store.set_self ..⟩

/-! The refill. -/

theorem refill_of_fits (hrate : 0 ≤ config.refillRate.val)
    (hfull : state.tokens.val ≤ config.capacity.val) (hnow : state.lastUpdatedLedger ≤ now)
    (hfits : (now - state.lastUpdatedLedger : ℤ) * config.refillRate.val ≤ I128.max.val) :
    ∃ level : I128, refill config state now = ⟨level, now⟩ ∧
      level.val = min config.capacity.val
        (state.tokens.val + (now - state.lastUpdatedLedger : ℤ) * config.refillRate.val) := by
  have helapsed : ((now - state.lastUpdatedLedger : ℕ) : ℤ) = now - state.lastUpdatedLedger :=
    Int.ofNat_sub hnow
  have hgain : 0 ≤ (now - state.lastUpdatedLedger : ℤ) * config.refillRate.val :=
    mul_nonneg (Int.sub_nonneg_of_le (Int.ofNat_le.2 hnow)) hrate
  unfold refill
  split_ifs with hlt
  · obtain ⟨refilled, hrefilled⟩ : ∃ a : I128,
        a.val = (now - state.lastUpdatedLedger : ℤ) * config.refillRate.val :=
      MachineInt.exists_val_eq.2 ⟨le_trans (by decide) hgain, hfits⟩
    have hmul : checkedMulLedgers (now - state.lastUpdatedLedger) config.refillRate =
        some refilled := by
      rw [checkedMulLedgers, MachineInt.narrow_eq_some, helapsed, hrefilled]
    have hsum := MachineInt.saturatingAdd_val (a := state.tokens) (hrefilled ▸ hgain)
    rw [hmul]
    refine ⟨_, rfl, ?_⟩
    rw [← hrefilled]
    have hcap := config.capacity.le_hi
    split_ifs with hover
    · omega
    · omega
  · have hsame : state.lastUpdatedLedger = now := le_antisymm hnow (not_lt.1 hlt)
    refine ⟨state.tokens, by rw [← hsame], ?_⟩
    rw [hsame, sub_self, zero_mul, add_zero]
    exact (min_eq_right hfull).symm

theorem refill_of_overflow (hnow : state.lastUpdatedLedger ≤ now)
    (hover : I128.max.val < (now - state.lastUpdatedLedger : ℤ) * config.refillRate.val) :
    refill config state now = ⟨state.tokens, now⟩ := by
  have helapsed : ((now - state.lastUpdatedLedger : ℕ) : ℤ) = now - state.lastUpdatedLedger :=
    Int.ofNat_sub hnow
  have hlt : state.lastUpdatedLedger < now := by
    apply lt_of_le_of_ne hnow
    intro hsame
    rw [hsame, sub_self, zero_mul] at hover
    exact absurd hover (by decide)
  have hmul : checkedMulLedgers (now - state.lastUpdatedLedger) config.refillRate = none := by
    rw [Option.eq_none_iff_forall_ne_some]
    intro refilled h
    have hval := MachineInt.narrow_eq_some.1 h
    rw [helapsed] at hval
    exact absurd (hval ▸ refilled.le_hi) (not_le.2 hover)
  unfold refill
  rw [if_pos hlt, hmul]

theorem refill_spec (hrate : 0 ≤ config.refillRate.val)
    (hfull : state.tokens.val ≤ config.capacity.val) (hnow : state.lastUpdatedLedger ≤ now) :
    (refill config state now).lastUpdatedLedger = now ∧
      (refill config state now).tokens.val ≤ config.capacity.val ∧
      (refill config state now).tokens.val ≤
        state.tokens.val + config.refillRate.val * (now - state.lastUpdatedLedger : ℤ) := by
  rcases le_or_gt ((now - state.lastUpdatedLedger : ℤ) * config.refillRate.val) I128.max.val
    with hfits | hover
  · obtain ⟨level, hrefill, hlevel⟩ := refill_of_fits hrate hfull hnow hfits
    rw [hrefill, hlevel, mul_comm config.refillRate.val]
    exact ⟨rfl, min_le_left _ _, min_le_right _ _⟩
  · rw [refill_of_overflow hnow hover]
    exact ⟨rfl, hfull, Int.le_add_of_nonneg_right (gain_nonneg hrate hnow)⟩

def exactLevel (config : RateLimitConfig) (state : RateLimitState) (now : ℕ) : ℤ :=
  min config.capacity.val
    (state.tokens.val + (now - state.lastUpdatedLedger : ℤ) * config.refillRate.val)

/-- A call takes its tokens from the exact level: it succeeds if there are enough of them, and
leaves the rest, dated. -/
def RefillsExactly (s : RateLimits Address) (config : RateLimitConfig) (state : RateLimitState)
    (now : ℕ) (developer : Address) (amount : I128) : Prop :=
  ((∃ s', (consumeTokens now developer amount).run s = .ok () s') ↔
      amount.val ≤ exactLevel config state now) ∧
    ∀ s', (consumeTokens now developer amount).run s = .ok () s' → ∃ tokens : I128,
      tokens.val = exactLevel config state now - amount.val ∧
      s' = { s with developerState := s.developerState.set developer ⟨tokens, now⟩ }

section
variable (hconfig : getConfig s developer = some config)
  (hstate : getState s developer = some state)
include hconfig hstate

theorem run_consumeTokens_of_refill {level : I128}
    (hrefill : refill config state now = ⟨level, now⟩) :
    (consumeTokens now developer amount).run s = .ok u s' ↔ amount.val ≤ level.val ∧
      ∃ tokens : I128, tokens.val = level.val - amount.val ∧
        s' = { s with developerState := s.developerState.set developer ⟨tokens, now⟩ } := by
  have hbucket : bucket s config developer now = state := by
    rw [bucket, hstate, Option.getD_some]
  rw [run_consumeTokens_eq_ok hconfig, hbucket, hrefill]
  exact exists_and_left

theorem exists_run_consumeTokens_of_refill {level : I128} (hpos : 0 ≤ amount.val)
    (hrefill : refill config state now = ⟨level, now⟩) :
    (∃ s', (consumeTokens now developer amount).run s = .ok () s') ↔
      amount.val ≤ level.val := by
  simp only [run_consumeTokens_of_refill hconfig hstate hrefill]
  constructor
  · intro h
    obtain ⟨_, hle, -⟩ := h
    exact hle
  · intro hle
    have hlevel := level.le_hi
    obtain ⟨tokens, htokens⟩ : ∃ a : I128, a.val = level.val - amount.val :=
      MachineInt.exists_val_eq.2 ⟨by omega, by omega⟩
    exact ⟨_, hle, tokens, htokens, rfl⟩

theorem refillsExactly_of_refill {level : I128} (hpos : 0 ≤ amount.val)
    (hrefill : refill config state now = ⟨level, now⟩)
    (hle : level.val ≤ exactLevel config state now) :
    RefillsExactly s config state now developer amount ↔
      level.val = exactLevel config state now ∨ exactLevel config state now < amount.val := by
  have hexists := exists_run_consumeTokens_of_refill hconfig hstate hpos hrefill
  unfold RefillsExactly
  rw [hexists]
  constructor
  · intro h
    obtain ⟨hserved, hleft⟩ := h
    rcases lt_or_ge (exactLevel config state now) amount.val with hshort | henough
    · exact .inr hshort
    · left
      obtain ⟨s', hrun⟩ := hexists.2 (hserved.2 henough)
      obtain ⟨tokens, htokens, hs'⟩ := hleft s' hrun
      obtain ⟨-, tokens', htokens', hs''⟩ :=
        (run_consumeTokens_of_refill hconfig hstate hrefill).1 hrun
      have hgot : getState s' developer = some ⟨tokens, now⟩ := by
        rw [hs']
        exact Store.set_self ..
      have hgot' : getState s' developer = some ⟨tokens', now⟩ := by
        rw [hs'']
        exact Store.set_self ..
      obtain rfl := (RateLimitState.mk.inj (Option.some.inj (hgot.symm.trans hgot'))).1
      omega
  · intro h
    rcases h with hexact | hshort
    · rw [← hexact]
      refine ⟨Iff.rfl, fun s' hrun => ?_⟩
      exact ((run_consumeTokens_of_refill hconfig hstate hrefill).1 hrun).2
    · refine ⟨⟨fun h => h.trans hle, fun h => absurd h (not_le.2 hshort)⟩, fun s' hrun => ?_⟩
      have hserved := ((run_consumeTokens_of_refill hconfig hstate hrefill).1 hrun).1
      exact absurd (hserved.trans hle) (not_le.2 hshort)

/-- A refill is exact unless it overflows; one that does is lost, which goes unnoticed only if the
bucket was full or could not serve the call anyway. -/
theorem refillsExactly_iff (hrate : 0 ≤ config.refillRate.val) (hempty : 0 ≤ state.tokens.val)
    (hfull : state.tokens.val ≤ config.capacity.val) (hnow : state.lastUpdatedLedger ≤ now)
    (hpos : 0 ≤ amount.val) :
    RefillsExactly s config state now developer amount ↔
      (now - state.lastUpdatedLedger : ℤ) * config.refillRate.val ≤ I128.max.val ∨
      state.tokens = config.capacity ∨ config.capacity.val < amount.val := by
  rcases le_or_gt ((now - state.lastUpdatedLedger : ℤ) * config.refillRate.val) I128.max.val
    with hfits | hover
  · obtain ⟨level, hrefill, hlevel⟩ := refill_of_fits hrate hfull hnow hfits
    rw [refillsExactly_of_refill hconfig hstate hpos hrefill hlevel.le]
    exact iff_of_true (.inl hlevel) (.inl hfits)
  · have hcap := config.capacity.le_hi
    have hlevel : exactLevel config state now = config.capacity.val := by
      apply min_eq_left
      have hmax : config.capacity.val ≤ I128.max.val := hcap
      omega
    rw [refillsExactly_of_refill hconfig hstate hpos (refill_of_overflow hnow hover)
      (hlevel ▸ hfull), hlevel, or_iff_right (not_le.2 hover), ← MachineInt.ext_iff]

end

def flooded : RateLimits ℕ where
  developerConfig := Store.empty.set 7 ⟨⟨95, by decide⟩, ⟨2 ^ 126, by decide⟩⟩
  developerState := Store.empty.set 7 ⟨0, 1⟩

theorem refillsExactly_flooded :
    RefillsExactly flooded ⟨⟨95, by decide⟩, ⟨2 ^ 126, by decide⟩⟩ ⟨0, 1⟩ 2 7 ⟨15, by decide⟩ :=
  (refillsExactly_iff rfl rfl (by decide) (by decide) (by decide) (by decide) (by decide)).2
    (.inl (by decide))

/-- At ledger 5 the refill overflows, and the bucket is empty still. -/
theorem refill_lost_on_overflow : ¬∀ (s : RateLimits ℕ) (config : RateLimitConfig)
    (state : RateLimitState) (now developer : ℕ) (amount : I128),
    getConfig s developer = some config → getState s developer = some state →
    0 ≤ config.capacity.val → 0 ≤ config.refillRate.val → 0 ≤ state.tokens.val →
    state.tokens.val ≤ config.capacity.val → state.lastUpdatedLedger ≤ now → 0 ≤ amount.val →
    RefillsExactly s config state now developer amount := by
  intro h
  have hexact := h flooded ⟨⟨95, by decide⟩, ⟨2 ^ 126, by decide⟩⟩ ⟨0, 1⟩ 5 7 ⟨15, by decide⟩
    rfl rfl (by decide) (by decide) (by decide) (by decide) (by decide) (by decide)
  obtain ⟨s', hrun⟩ := hexact.1.2 (by decide)
  obtain ⟨tokens, hserved, -⟩ := (run_consumeTokens_eq_ok rfl).1 hrun
  exact absurd hserved (by decide)

/-! The limiter as a machine, and what it grants. -/

structure ConsumeCall (Address : Type) where
  ledger : ℕ
  developer : Address
  amount : I128

def rateLimiter (Address : Type) [DecidableEq Address] :
    Machine (RateLimits Address) (ConsumeCall Address) Unit where
  step s i := (consumeTokens i.ledger i.developer i.amount).commit s

abbrev LogEntry (Address : Type) : Type := Entry (RateLimits Address) (ConsumeCall Address) Unit

def grants (developer : Address) (l : List (LogEntry Address)) : List Grant :=
  (l.filter fun e => e.input.developer = developer).map fun e =>
    ⟨e.input.ledger, e.input.amount.val⟩

theorem grants_concat (developer : Address) (l : List (LogEntry Address)) (e : LogEntry Address) :
    grants developer (l ++ [e]) = grants developer l ++
      if e.input.developer = developer then [⟨e.input.ledger, e.input.amount.val⟩] else [] := by
  unfold grants
  rw [List.filter_append, List.map_append]
  split_ifs with h
  · simp [h]
  · simp [h]

/-- The calls of `developer` ask for no negative amount, at ledgers that do not go back. -/
structure Orderly (developer : Address) (calls : List (ConsumeCall Address)) : Prop where
  nonneg : ∀ call ∈ calls, call.developer = developer → 0 ≤ call.amount.val
  clock : (calls.filter fun call => call.developer = developer).Pairwise fun c c' =>
    c.ledger ≤ c'.ledger

theorem Orderly.sublist {calls calls' : List (ConsumeCall Address)} (h : Orderly developer calls)
    (hsub : calls'.Sublist calls) : Orderly developer calls' where
  nonneg call hcall := h.nonneg call (hsub.subset hcall)
  clock := h.clock.sublist (hsub.filter _)

structure Metered (s : RateLimits Address) (config : RateLimitConfig) (developer : Address)
    (gs : List Grant) : Prop where
  config_eq : getConfig s developer = some config
  dated : ∀ state, getState s developer = some state → ∃ g ∈ gs, state.lastUpdatedLedger = g.time
  accounts : ∀ now, Accounts config.capacity.val config.refillRate.val
    (bucket s config developer now).tokens.val (bucket s config developer now).lastUpdatedLedger gs

theorem metered_of_grant {gs : List Grant} (hs : Metered s config developer gs)
    (hrate : 0 ≤ config.refillRate.val) (hpos : 0 ≤ amount.val) (hclock : ∀ g ∈ gs, g.time ≤ now)
    (h : (consumeTokens now developer amount).run s = .ok u s') :
    Metered s' config developer (gs ++ [⟨now, amount.val⟩]) := by
  obtain ⟨tokens, hamount, htokens, hs'⟩ := (run_consumeTokens_eq_ok hs.config_eq).1 h
  have hnow : (bucket s config developer now).lastUpdatedLedger ≤ now := by
    unfold bucket
    rcases hstate : getState s developer with _ | state
    · exact le_rfl
    · obtain ⟨g, hg, htime⟩ := hs.dated state hstate
      exact htime.trans_le (hclock g hg)
  have haccounts := hs.accounts now
  obtain ⟨hlast, hcap, hgain⟩ := refill_spec hrate haccounts.le_cap hnow
  have htaken := haccounts.take hrate hnow hgain hcap hpos hamount
  have hstored : getState s' developer = some ⟨tokens, now⟩ := by
    unfold getState
    rw [hs']
    simp only [Store.set_self, hlast]
  constructor
  · exact (getConfig_of_consumeTokens h).trans hs.config_eq
  · intro state hstate
    obtain rfl := Option.some.inj (hstored.symm.trans hstate)
    exact ⟨_, List.mem_append_right _ (List.mem_singleton_self _), rfl⟩
  · intro now'
    unfold bucket
    rw [hstored, Option.getD_some, htokens]
    exact htaken

theorem metered_of_other {gs : List Grant} {d : Address} (hs : Metered s config d gs)
    (hd : d ≠ developer) (h : (consumeTokens now developer amount).run s = .ok u s') :
    Metered s' config d gs := by
  have hstate := frame_of_consumeTokens hd h
  have hconfig := getConfig_of_consumeTokens (d := d) h
  constructor
  · rw [hconfig]
    exact hs.config_eq
  · rw [hstate]
    exact hs.dated
  · unfold bucket
    rw [hstate]
    exact hs.accounts

theorem metered_of_step {l : List (LogEntry Address)} {e : LogEntry Address}
    (hs : Metered e.pre config developer (grants developer l)) (hrate : 0 ≤ config.refillRate.val)
    (horder : Orderly developer ((l ++ [e]).map Entry.input))
    (h : (rateLimiter Address).step e.pre e.input = some (e.output, e.post)) :
    Metered e.post config developer (grants developer (l ++ [e])) := by
  have hrun := Call.commit_eq_some.1 h
  rw [grants_concat]
  split_ifs with hd
  · rw [hd] at hrun
    rw [List.map_append, List.map_singleton] at horder
    have hpos := horder.nonneg e.input (List.mem_append_right _ (List.mem_singleton_self _)) hd
    apply metered_of_grant hs hrate hpos _ hrun
    intro g hg
    obtain ⟨e', he', rfl⟩ := List.mem_map.1 hg
    obtain ⟨he', hde⟩ := List.mem_filter.1 he'
    have hclock := horder.clock
    rw [List.filter_append, List.pairwise_append] at hclock
    apply hclock.2.2 e'.input _ e.input
    · simp [hd]
    · exact List.mem_filter.2 ⟨List.mem_map_of_mem he', hde⟩
  · rw [List.append_nil]
    exact metered_of_other hs (Ne.symm hd) hrun

theorem metered_run {s₀ : RateLimits Address} (hconfig : getConfig s₀ developer = some config)
    (hfresh : getState s₀ developer = none) (hcap : 0 ≤ config.capacity.val)
    (hrate : 0 ≤ config.refillRate.val) (calls : List (ConsumeCall Address))
    (horder : Orderly developer calls) :
    Metered ((rateLimiter Address).run s₀ calls) config developer
      (grants developer ((rateLimiter Address).log s₀ calls)) := by
  refine Machine.log_invariant (P := fun l t => Orderly developer (l.map Entry.input) →
    Metered t config developer (grants developer l)) ?_ ?_ calls
    (horder.sublist (Machine.log_inputs_sublist s₀ calls))
  · intro _
    refine ⟨hconfig, ?_, ?_⟩
    · intro state hstate
      rw [hfresh] at hstate
      cases hstate
    · intro now
      unfold bucket
      rw [hfresh]
      exact accounts_full hcap hrate now
  · intro l t call r t' ih hstep horder
    have hprefix := (List.sublist_append_left l [⟨t, call, r, t'⟩]).map Entry.input
    exact metered_of_step (ih (horder.sublist hprefix)) hrate horder hstep

/-- Whatever developers ask for, and however the calls are mixed, a developer is granted in any span
of ledgers no more than its capacity and what the ledgers of the span bring; and its bucket stays
between empty and full. -/
theorem rate_bounded {s₀ : RateLimits Address} {developer : Address} {config : RateLimitConfig}
    (hconfig : getConfig s₀ developer = some config) (hfresh : getState s₀ developer = none)
    (hcap : 0 ≤ config.capacity.val) (hrate : 0 ≤ config.refillRate.val)
    (calls : List (ConsumeCall Address)) (horder : Orderly developer calls) :
    (∀ a b, a ≤ b → grantedIn a b (grants developer ((rateLimiter Address).log s₀ calls)) ≤
      config.capacity.val + config.refillRate.val * (b - a : ℤ)) ∧
    ∀ e ∈ (rateLimiter Address).log s₀ calls, e.input.developer = developer →
      ∃ state, getState e.post developer = some state ∧ 0 ≤ state.tokens.val ∧
        state.tokens.val ≤ config.capacity.val := by
  constructor
  · exact ((metered_run hconfig hfresh hcap hrate calls horder).accounts 0).window
  · intro e he hd
    obtain ⟨js, ks, his, hpre, hstep⟩ := Machine.mem_log.1 he
    have hprefix : (js ++ [e.input]).Sublist calls := by
      rw [his, List.append_cons js e.input ks]
      exact List.sublist_append_left _ _
    have hmetered := metered_run hconfig hfresh hcap hrate _ (horder.sublist hprefix)
    rw [Machine.run_concat_of_step (by rw [hpre]; exact hstep)] at hmetered
    have hrun := Call.commit_eq_some.1 hstep
    rw [hd] at hrun
    obtain ⟨state, hstate⟩ := exists_getState hmetered.config_eq hrun
    have haccounts := hmetered.accounts 0
    unfold bucket at haccounts
    rw [hstate, Option.getD_some] at haccounts
    exact ⟨state, hstate, haccounts.nonneg, haccounts.le_cap⟩

def limited : RateLimits ℕ := setConfig {} 7 ⟨⟨90, by decide⟩, ⟨10, by decide⟩⟩

theorem rate_bounded_limited :
    let calls : List (ConsumeCall ℕ) :=
      [⟨5, 7, ⟨80, by decide⟩⟩, ⟨5, 7, ⟨30, by decide⟩⟩, ⟨7, 7, ⟨30, by decide⟩⟩]
    let l := (rateLimiter ℕ).log limited calls
    grants 7 l = [⟨5, 80⟩, ⟨7, 30⟩] ∧
      (∀ a b, a ≤ b → grantedIn a b (grants 7 l) ≤ 90 + 10 * (b - a : ℤ)) ∧
      ∀ e ∈ l, e.input.developer = 7 →
        ∃ state, getState e.post 7 = some state ∧ 0 ≤ state.tokens.val ∧
          state.tokens.val ≤ 90 := by
  intro calls l
  have horder : Orderly 7 calls := by
    constructor
    · decide
    · decide
  have hconfig : getConfig limited 7 = some ⟨⟨90, by decide⟩, ⟨10, by decide⟩⟩ := rfl
  exact ⟨by decide, rate_bounded hconfig rfl (by decide) (by decide) calls horder⟩

end Callora.Vault.RateLimit
