import Callora.Library.Quota
import Callora.Settlement.Batch
import Callora.Settlement.Run

/-! What bounds a developer's withdrawals: the daily cap, with the accumulator behind it, the
minimum balance and the claim window, over every run of the contract. -/

namespace Callora.Settlement
open Library

section Reads
variable {Address Ledger : Type} [DecidableEq Address] {contract : Address}

def getWithdrawalToday (env : Env Address contract) (s : State Address Ledger)
    (developer : Address) : I128 :=
  match s.withdrawalToday developer with
  | some state => if state.day = env.timestamp / 86400 then state.amount else 0
  | none => 0

end Reads

variable {Address Ledger : Type} [LinearOrder Address] {contract : Address}
  {T : TokenContract Address Ledger} {env : Env Address contract} {s s' : State Address Ledger}

/-! The history of withdrawals. -/

def Input.time : Input Address Ledger contract → Option ℕ
  | .call env _ => some env.timestamp
  | .ledgerMoves _ => none

/-- The ledger clock does not go back between the calls of the log. -/
def Chronological (l : List (LogEntry Address Ledger contract)) : Prop :=
  (l.filterMap fun e => e.input.time).Pairwise (· ≤ ·)

def withdrawnItems (e : LogEntry Address Ledger contract) : List (SettleInput Address) :=
  match e.input, e.output with
  | .call _ (.withdrawDeveloperBalance developer amount «to»), _ => [⟨developer, amount, «to»⟩]
  | .call _ (.batchSettle settlements), .outcomes outcomes => succeeded settlements outcomes
  | _, _ => []

/-- What `developer` draws from its daily quota by `items`, withdrawn in state `s`. -/
def drawnBy (developer : Address) (env : Env Address contract) (s : State Address Ledger)
    (items : List (SettleInput Address)) : List Quota.Use :=
  (items.filter fun item => item.developer = developer).map fun item =>
    ⟨env.timestamp, item.amount.val, (getDailyWithdrawCap s developer).val⟩

def drawn (developer : Address) (e : LogEntry Address Ledger contract) : List Quota.Use :=
  match e.input with
  | .call env _ => drawnBy developer env e.pre (withdrawnItems e)
  | .ledgerMoves _ => []

theorem drawnBy_cons (developer : Address) (item : SettleInput Address)
    (items : List (SettleInput Address)) :
    drawnBy developer env s (item :: items) =
      drawnBy developer env s [item] ++ drawnBy developer env s items := by
  by_cases h : item.developer = developer <;> simp [drawnBy, h]

theorem time_and_limit_of_drawn {developer : Address} {e : LogEntry Address Ledger contract}
    {u : Quota.Use} (h : u ∈ drawn developer e) :
    e.input.time = some u.time ∧ u.limit = (getDailyWithdrawCap e.pre developer).val := by
  rcases hin : e.input with ⟨env, op⟩ | ledger
  · simp only [drawn, hin, drawnBy] at h
    obtain ⟨item, -, rfl⟩ := List.mem_map.1 h
    exact ⟨rfl, rfl⟩
  · simp [drawn, hin] at h

theorem time_le_of_chronological {l : List (LogEntry Address Ledger contract)} {op : Op Address}
    {r : Ret} (h : Chronological (l ++ [⟨s, .call env op, r, s'⟩])) (developer : Address) :
    ∀ u ∈ l.flatMap (drawn developer), u.time ≤ env.timestamp := by
  intro u hu
  obtain ⟨e, he, hu⟩ := List.mem_flatMap.1 hu
  rw [Chronological, List.filterMap_append, List.pairwise_append] at h
  refine h.2.2 u.time (List.mem_filterMap.2 ⟨e, he, (time_and_limit_of_drawn hu).1⟩)
    env.timestamp ?_
  simp [Input.time]

omit [LinearOrder Address] in
theorem Chronological.left {l l' : List (LogEntry Address Ledger contract)}
    (h : Chronological (l ++ l')) : Chronological l := by
  rw [Chronological, List.filterMap_append, List.pairwise_append] at h
  exact h.1

/-! The accumulator. -/

omit [LinearOrder Address] in
theorem dailyState_day (s : State Address Ledger) (developer : Address) (today : ℕ) :
    (dailyState s developer today).day = today := by
  simp only [dailyState]
  split_ifs with h
  · rfl
  · exact not_not.1 h

omit [LinearOrder Address] in
theorem getWithdrawalToday_eq (developer : Address) :
    getWithdrawalToday env s developer =
      (dailyState s developer (env.timestamp / 86400)).amount := by
  rcases h : s.withdrawalToday developer with _ | state
  · simp [getWithdrawalToday, dailyState, h]
  · by_cases hday : state.day = env.timestamp / 86400 <;>
      simp [getWithdrawalToday, dailyState, h, hday]

theorem dailyState_withdrawn (s : State Address Ledger) (now : ℕ)
    (developer recipient usdc : Address) (amount newBalance : I128) (ledger : Ledger)
    (d : Address) (k : ℕ) :
    (dailyState (s.withdrawn now developer recipient usdc amount newBalance ledger) d k).amount =
      if d = developer then
        if k = now / 86400 then (dailyState s d k).amount.saturatingAdd amount else 0
      else (dailyState s d k).amount := by
  split_ifs with hd hk
  · subst hd hk
    have hday := dailyState_day s d (now / 86400)
    simp only [State.withdrawn, dailyState, Store.set_self, Option.getD_some] at hday ⊢
    rw [if_neg (not_not.2 hday)]
  · subst hd
    have hday := dailyState_day s d (now / 86400)
    simp only [State.withdrawn, dailyState, Store.set_self, Option.getD_some] at hday ⊢
    rw [hday, if_pos (Ne.symm hk)]
  · simp only [State.withdrawn, dailyState, Store.set_of_ne hd]

/-- The accumulator of `d` tracks the history `us`, which keeps to the caps in force. -/
structure Metered (s : State Address Ledger) (d : Address) (us : List Quota.Use) : Prop where
  tracks : Quota.Tracks 86400 I128.max.val (fun k => (dailyState s d k).amount.val) us
  within : Quota.Within 86400 (0 < ·) us

theorem metered_withdrawn {developer recipient usdc d : Address} {amount newBalance : I128}
    {ledger : Ledger} {us : List Quota.Use} («to» : Option Address)
    (h : Withdrawal T env s developer amount recipient usdc newBalance ledger)
    (hs : Metered s d us) (hlast : ∀ u ∈ us, u.time ≤ env.timestamp) :
    Metered (s.withdrawn env.timestamp developer recipient usdc amount newBalance ledger) d
      (us ++ drawnBy d env s [⟨developer, amount, «to»⟩]) := by
  have hdaily := dailyState_withdrawn s env.timestamp developer recipient usdc amount newBalance
    ledger
  by_cases hd : d = developer
  · subst hd
    have hone : drawnBy d env s [⟨d, amount, «to»⟩] =
        [⟨env.timestamp, amount.val, (getDailyWithdrawCap s d).val⟩] := by simp [drawnBy]
    rw [hone]
    constructor
    · refine hs.tracks.concat (by decide) h.positive.le hlast ?_ fun k hk => ?_
      · rw [hdaily, if_pos rfl, if_pos rfl]
        exact MachineInt.saturatingAdd_val h.positive.le
      · rw [hdaily, if_pos rfl, if_neg hk]
        rfl
    · refine hs.within.concat fun hcap => ?_
      obtain ⟨projected, hval, hle⟩ := h.withinCap hcap
      refine hs.tracks.fits h.positive hlast (le_min ?_ ?_)
      · exact hval ▸ projected.le_hi
      · exact hval ▸ hle
  · have hnone : drawnBy d env s [⟨developer, amount, «to»⟩] = [] := by
      simp [drawnBy, Ne.symm hd]
    rw [hnone, List.append_nil]
    refine ⟨?_, hs.within⟩
    have hsame (k : ℕ) := (hdaily d k).trans (if_neg hd)
    simp only [hsame]
    exact hs.tracks

theorem metered_items {d : Address} {items : List (SettleInput Address)} {us : List Quota.Use}
    {u : Unit} (h : (forM items (withdrawItem T env)).run s = .ok u s') (hs : Metered s d us)
    (hlast : ∀ u ∈ us, u.time ≤ env.timestamp) :
    Metered s' d (us ++ drawnBy d env s items) := by
  induction items generalizing s us with
  | nil =>
    obtain rfl := Call.run_forM_nil_eq_ok.1 h
    rw [drawnBy, List.filter_nil, List.map_nil, List.append_nil]
    exact hs
  | cons item items ih =>
    obtain ⟨s₁, hitem, hitems⟩ := Call.run_forM_cons_eq_ok.1 h
    obtain ⟨usdc, newBalance, ledger, hw, rfl⟩ := run_withdrawDeveloperBalance_eq_ok.1 hitem
    have hs₁ := metered_withdrawn item.to hw hs hlast
    have hrest := ih hitems hs₁ fun v hv => ?_
    · rw [drawnBy_cons, ← List.append_assoc]
      exact hrest
    · rcases List.mem_append.1 hv with hv | hv
      · exact hlast v hv
      · obtain ⟨_, -, rfl⟩ := List.mem_map.1 hv
        exact le_rfl

omit [LinearOrder Address] in
theorem succeeded_otherError (settlements : List (SettleInput Address)) :
    succeeded settlements (settlements.map fun _ => .otherError) = [] := by
  rw [succeeded, List.map_eq_nil_iff, List.filter_eq_nil_iff]
  intro p hp
  obtain ⟨-, hmem⟩ := List.of_mem_zip hp
  obtain ⟨_, -, houtcome⟩ := List.mem_map.1 hmem
  simp [← houtcome]

theorem metered_of_effect {op : Op Address} {r : Ret} {d : Address} {us : List Quota.Use}
    (h : Effect T env s op r s') (hs : Metered s d us)
    (hlast : ∀ u ∈ us, u.time ≤ env.timestamp) :
    Metered s' d (us ++ drawn d ⟨s, .call env op, r, s'⟩) := by
  have hidle : Metered s d (us ++ []) := by
    rw [List.append_nil]
    exact hs
  cases h with
  | withdraw withdrawal => exact metered_withdrawn _ withdrawal hs hlast
  | settle size once settled => exact metered_items (succeeded_of_settled settled) hs hlast
  | @settleTooLarge settlements size =>
    simp only [drawn, withdrawnItems, succeeded_otherError]
    exact hidle
  | _ => exact ⟨hidle.tracks, hidle.within⟩

omit [LinearOrder Address] in
theorem metered_deployed (ledger : Ledger) (d : Address) :
    Metered (State.deployed ledger : State Address Ledger) d [] where
  tracks := Quota.tracks_nil (by decide) fun k => by simp [dailyState, State.deployed]
  within := Quota.within_nil

theorem metered_run (T : TokenContract Address Ledger) (ledger : Ledger)
    (inputs : List (Input Address Ledger contract)) (d : Address)
    (h : Chronological ((settlement T contract).log (.deployed ledger) inputs)) :
    Metered ((settlement T contract).run (.deployed ledger) inputs) d
      (((settlement T contract).log (.deployed ledger) inputs).flatMap (drawn d)) := by
  refine Machine.log_invariant (P := fun l t => Chronological l → Metered t d (l.flatMap (drawn d)))
    (fun _ => metered_deployed ledger d) ?_ inputs h
  intro l t input r t' hl hstep hlog
  have ht := hl hlog.left
  rw [List.flatMap_append, List.flatMap_singleton]
  obtain ⟨env, op, rfl, heff⟩ | ⟨ledger, rfl, rfl, rfl⟩ := effect_of_step hstep
  · exact metered_of_effect heff ht (time_le_of_chronological hlog d)
  · rw [drawn, List.append_nil]
    exact ⟨ht.tracks, ht.within⟩

/-- While a developer's cap is positive, no withdrawal brings the withdrawals of its UTC day above
the cap, those made without one included, and the view shows the day's sum. -/
theorem withdrawals_within_cap (T : TokenContract Address Ledger) (ledger : Ledger)
    (inputs : List (Input Address Ledger contract))
    (h : Chronological ((settlement T contract).log (.deployed ledger) inputs))
    (developer : Address) :
    let s := (settlement T contract).run (.deployed ledger) inputs
    let l := (settlement T contract).log (.deployed ledger) inputs
    (∀ before u after, l.flatMap (drawn developer) = before ++ u :: after → 0 < u.limit →
      Quota.usedIn 86400 (u.time / 86400) (before ++ [u]) ≤ u.limit) ∧
    ∀ env : Env Address contract, (∀ e ∈ l, ∀ time ∈ e.input.time, time ≤ env.timestamp) →
      (getWithdrawalToday env s developer).val = min I128.max.val
        (Quota.usedIn 86400 (env.timestamp / 86400) (l.flatMap (drawn developer))) := by
  intro s l
  obtain ⟨htracks, hwithin⟩ := metered_run T ledger inputs developer h
  refine ⟨hwithin, fun env hnow => ?_⟩
  rw [getWithdrawalToday_eq]
  apply htracks
  intro u hu
  obtain ⟨e, he, hu⟩ := List.mem_flatMap.1 hu
  exact hnow e he u.time ((time_and_limit_of_drawn hu).1)

def cappedDay (credit cap amount : I128) : List (Input ℕ (Balances ℕ) 0) :=
  [.call (.signedBy 1 0 (by decide)) (.init 1 2),
    .call (.signedBy 1 0 (by decide)) (.setUsdcToken 1 3),
    .call (.signedBy 2 0 (by decide)) (.receivePayment 2 credit false (some 4) 3 1),
    .call (.signedBy 1 0 (by decide)) (.setDailyWithdrawCap 1 4 cap),
    .call (.signedBy 4 5 (by decide)) (.withdrawDeveloperBalance 4 amount none)]

theorem withdrawals_within_cap_day :
    let m := settlement (balanceToken ℕ).toTokenContract 0
    let inputs := cappedDay ⟨100, by decide⟩ ⟨50, by decide⟩ ⟨40, by decide⟩
    let s := m.run (.deployed fun _ _ => 1000) inputs
    let l := m.log (.deployed fun _ _ => 1000) inputs
    l.flatMap (drawn 4) = [⟨5, 40, 50⟩] ∧
    (∀ before u after, l.flatMap (drawn 4) = before ++ u :: after → 0 < u.limit →
      Quota.usedIn 86400 (u.time / 86400) (before ++ [u]) ≤ u.limit) ∧
    ∀ env : Env ℕ 0, (∀ e ∈ l, ∀ time ∈ e.input.time, time ≤ env.timestamp) →
      (getWithdrawalToday env s 4).val = min I128.max.val
        (Quota.usedIn 86400 (env.timestamp / 86400) (l.flatMap (drawn 4))) := by
  intro m inputs s l
  have hclock : Chronological l := by
    unfold Chronological
    decide
  exact ⟨by decide, withdrawals_within_cap _ _ inputs hclock 4⟩

/-! What the admin may configure. -/

def Ordered (window : DeveloperClaimWindow) : Prop := window.startTs ≤ window.endTs

def MinBalancesNonneg (s : State Address Ledger) : Prop :=
  ∀ d minBalance, s.developerMinBalance d = some minBalance → 0 ≤ minBalance.val

theorem minBalancesNonneg_of_effect {op : Op Address} {r : Ret} (hs : MinBalancesNonneg s)
    (h : Effect T env s op r s') : MinBalancesNonneg s' := by
  cases h with
  | setDeveloperMinBalance admin sign | setMinimumBalance admin sign =>
    exact Store.forall_set hs sign
  | _ => exact hs

structure LimitsWellFormed (s : State Address Ledger) : Prop where
  cap : ∀ d cap, s.dailyWithdrawCap d = some cap → 0 ≤ cap.val
  minBalance : ∀ d minBalance, s.developerMinBalance d = some minBalance → 0 ≤ minBalance.val
  claimWindow : ∀ d window, s.developerClaimWindow d = some window → Ordered window

def SetsNonnegCap (s : State Address Ledger) : Input Address Ledger contract → Prop
  | .call env (.setDailyWithdrawCap caller _ cap) => s.ByAdmin env caller → 0 ≤ cap.val
  | _ => True

theorem limitsWellFormed_of_effect {op : Op Address} {r : Ret} (hs : LimitsWellFormed s)
    (hset : SetsNonnegCap s (.call env op : Input Address Ledger contract))
    (h : Effect T env s op r s') : LimitsWellFormed s' := by
  have hmin : MinBalancesNonneg s' := minBalancesNonneg_of_effect hs.minBalance h
  cases h with
  | setDailyWithdrawCap admin => exact ⟨Store.forall_set hs.cap (hset admin), hmin, hs.claimWindow⟩
  | setDeveloperClaimWindow admin ordered =>
    exact ⟨hs.cap, hmin, Store.forall_set hs.claimWindow ordered⟩
  | clearDeveloperClaimWindow admin => exact ⟨hs.cap, hmin, Store.forall_remove hs.claimWindow⟩
  | _ => exact ⟨hs.cap, hmin, hs.claimWindow⟩

theorem limitsWellFormed_of_step {input : Input Address Ledger contract} {r : Ret}
    (hs : LimitsWellFormed s) (hset : SetsNonnegCap s input)
    (h : (settlement T contract).step s input = some (r, s')) : LimitsWellFormed s' := by
  obtain ⟨env, op, rfl, heff⟩ | ⟨ledger, rfl, rfl, rfl⟩ := effect_of_step h
  · exact limitsWellFormed_of_effect hs hset heff
  · exact ⟨hs.cap, hs.minBalance, hs.claimWindow⟩

omit [LinearOrder Address] in
theorem limitsWellFormed_deployed (ledger : Ledger) :
    LimitsWellFormed (State.deployed ledger : State Address Ledger) where
  cap := fun d cap h => by cases h
  minBalance := fun d minBalance h => by cases h
  claimWindow := fun d window h => by cases h

theorem limitsWellFormed_run {ledger : Ledger} {inputs : List (Input Address Ledger contract)}
    (hcaps : ∀ js env caller developer cap ks,
      inputs = js ++ .call env (.setDailyWithdrawCap caller developer cap) :: ks →
      ((settlement T contract).run (.deployed ledger) js).ByAdmin env caller → 0 ≤ cap.val) :
    LimitsWellFormed ((settlement T contract).run (.deployed ledger) inputs) := by
  apply Machine.invariant_of_forall (limitsWellFormed_deployed ledger)
    fun t input r t' => limitsWellFormed_of_step
  intro js input ks his
  unfold SetsNonnegCap
  split
  next env caller developer cap => exact hcaps js env caller developer cap ks his
  next => trivial

omit [LinearOrder Address] in
theorem getDailyWithdrawCap_nonneg (hs : LimitsWellFormed s) (d : Address) :
    0 ≤ (getDailyWithdrawCap s d).val := by
  rcases h : s.dailyWithdrawCap d with _ | cap
  · simp [getDailyWithdrawCap, h]
  · simpa [getDailyWithdrawCap, h] using hs.cap d cap h

theorem step_setDailyWithdrawCap {caller : Address} (developer : Address) (cap : I128)
    (h : s.ByAdmin env caller) :
    ∃ s', (settlement T contract).step s (.call env (.setDailyWithdrawCap caller developer cap)) =
      some (.unit, s') ∧ s'.dailyWithdrawCap developer = some cap := by
  let s' : State Address Ledger := { s with
    dailyWithdrawCap := s.dailyWithdrawCap.set developer cap
    events := s.events ++ [.dailyWithdrawCapChanged caller developer cap] }
  have hset : (setDailyWithdrawCap env caller developer cap).run s = .ok () s' :=
    run_setDailyWithdrawCap_eq_ok.2 ⟨h, rfl⟩
  refine ⟨s', ?_, Store.set_self ..⟩
  apply Call.commit_eq_some.2
  exact run_returning_eq_ok.2 ⟨(), hset, rfl⟩

/-- In every state of a run caps and minimum balances are nonnegative and claim windows are ordered,
so that only a cap of 0 lifts the limit, exactly if the admin sets no negative cap: no setter but
that one omits the check. -/
theorem limits_wellFormed_iff (T : TokenContract Address Ledger) (ledger : Ledger)
    (inputs : List (Input Address Ledger contract)) :
    (∀ js ks, inputs = js ++ ks →
      let s := (settlement T contract).run (.deployed ledger) js
      let l := (settlement T contract).log (.deployed ledger) js
      LimitsWellFormed s ∧ (Chronological l → ∀ developer before u after,
        l.flatMap (drawn developer) = before ++ u :: after → u.limit ≠ 0 →
        Quota.usedIn 86400 (u.time / 86400) (before ++ [u]) ≤ u.limit)) ↔
    ∀ js env caller developer cap ks,
      inputs = js ++ .call env (.setDailyWithdrawCap caller developer cap) :: ks →
      ((settlement T contract).run (.deployed ledger) js).ByAdmin env caller → 0 ≤ cap.val := by
  constructor
  · intro h js env caller developer cap ks his hadmin
    let input : Input Address Ledger contract :=
      .call env (.setDailyWithdrawCap caller developer cap)
    obtain ⟨s', hstep, hstored⟩ := step_setDailyWithdrawCap (T := T) developer cap hadmin
    obtain ⟨hlimits, -⟩ := h (js ++ [input]) ks (by rw [his, List.append_cons])
    rw [Machine.run_concat_of_step hstep] at hlimits
    exact hlimits.cap developer cap hstored
  · intro hcaps js ks his s l
    have hlimits : ∀ as bs, js = as ++ bs →
        LimitsWellFormed ((settlement T contract).run (.deployed ledger) as) := by
      intro as bs hjs
      apply limitsWellFormed_run
      intro as' env caller developer cap bs' has
      exact hcaps as' env caller developer cap (bs' ++ bs ++ ks) (by simp [his, hjs, has])
    refine ⟨hlimits js [] (List.append_nil js).symm, fun hclock developer => ?_⟩
    have hwithin := (metered_run T ledger js developer hclock).within
    -- a cap in force was in the state that its withdrawal met, so it is positive
    refine hwithin.mono (Q := (· ≠ 0)) fun u hu hne => ?_
    obtain ⟨e, he, hu⟩ := List.mem_flatMap.1 hu
    obtain ⟨as, bs, hjs, hrun, -⟩ := Machine.mem_log.1 he
    have hcap := getDailyWithdrawCap_nonneg (hrun ▸ hlimits as _ hjs) developer
    rw [← (time_and_limit_of_drawn hu).2] at hcap
    exact hcap.lt_of_ne (Ne.symm hne)

/-- The cap -1 is stored and takes no part in the check: 40 are withdrawn while it is in force. -/
theorem negative_cap_unlimited :
    let m := settlement (balanceToken ℕ).toTokenContract 0
    let inputs := cappedDay ⟨100, by decide⟩ ⟨-1, by decide⟩ ⟨40, by decide⟩
    let s := m.run (.deployed fun _ _ => 1000) inputs
    let l := m.log (.deployed fun _ _ => 1000) inputs
    s.dailyWithdrawCap 4 = some ⟨-1, by decide⟩ ∧ ¬LimitsWellFormed s ∧ Chronological l ∧
      ¬∀ before u after, l.flatMap (drawn 4) = before ++ u :: after → u.limit ≠ 0 →
        Quota.usedIn 86400 (u.time / 86400) (before ++ [u]) ≤ u.limit := by
  intro m inputs s l
  have hstored : s.dailyWithdrawCap 4 = some ⟨-1, by decide⟩ := by decide
  have hdrawn : l.flatMap (drawn 4) = [⟨5, 40, -1⟩] := by decide
  refine ⟨hstored, fun h => ?_, ?_, fun h => ?_⟩
  · exact absurd (h.cap 4 _ hstored) (by decide)
  · unfold Chronological
    decide
  · exact absurd (h [] ⟨5, 40, -1⟩ [] hdrawn (by decide)) (by decide)

end Callora.Settlement
