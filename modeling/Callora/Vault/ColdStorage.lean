import Mathlib.Data.Finset.Card
import Mathlib.Data.List.Nodup
import Callora.Host

/-! The split of the vault's balance into a hot and a cold part: which configurations are accepted,
and how a surplus of hot funds is moved to the cold part. No entrypoint of the vault uses the module
yet; it reads and writes no storage. -/

namespace Callora.Vault.ColdStorage
open Library

inductive ColdStorageError where
  | invalidHotBps
  | invalidRebalanceThreshold
  | coldSignersEmpty
  | invalidColdThreshold
  | duplicateColdSigner
  | overflow
deriving DecidableEq

abbrev Checked (α : Type) : Type := Call ColdStorageError Unit α

def BPS_DENOMINATOR : I128 := ⟨10000, by decide⟩

structure ColdConfig (Address : Type) where
  hotBps : UInt32
  rebalanceThresholdBps : UInt32
  coldSigners : List Address
  coldThreshold : UInt32
deriving DecidableEq

structure ColdBalances where
  hot : I128
  cold : I128
deriving DecidableEq

variable {Address : Type} [DecidableEq Address]

def ColdConfig.validate (config : ColdConfig Address) : Checked Unit := do
  Call.ensure (¬(config.hotBps = 0 ∨ UInt32.ofInt BPS_DENOMINATOR.val < config.hotBps))
    .invalidHotBps
  Call.ensure (¬(config.rebalanceThresholdBps = 0 ∨
    UInt32.ofInt BPS_DENOMINATOR.val < config.rebalanceThresholdBps)) .invalidRebalanceThreshold
  Call.ensure (config.coldSigners ≠ []) .coldSignersEmpty
  Call.ensure (¬(config.coldThreshold = 0 ∨
    config.coldSigners.length < config.coldThreshold.toNat)) .invalidColdThreshold
  forM (List.range config.coldSigners.length) fun i =>
    forM (List.range' (i + 1) (config.coldSigners.length - (i + 1))) fun j =>
      Call.ensure (config.coldSigners[i]? ≠ config.coldSigners[j]?) .duplicateColdSigner

def ColdConfig.isColdSigner (config : ColdConfig Address) (addr : Address) : Bool :=
  config.coldSigners.any (· = addr)

def ColdBalances.total (balances : ColdBalances) : Checked I128 :=
  Call.okOr (balances.hot.checkedAdd balances.cold) .overflow

def hotShareBps (hot total : I128) : Checked I128 :=
  if total = 0 then pure 0
  else do
    let scaled ← Call.okOr (hot.checkedMul BPS_DENOMINATOR) .overflow
    Call.okOr (scaled.checkedDiv total) .overflow

def targetHot (total : I128) (hotBps : UInt32) : Checked I128 := do
  let scaled ← Call.okOr (total.checkedMul (I128.ofU32 hotBps)) .overflow
  Call.okOr (scaled.checkedDiv BPS_DENOMINATOR) .overflow

/-- The split after a deposit: a surplus of hot funds beyond the tolerance moves to the cold part,
and nothing ever moves the other way. -/
def maybeRebalance (balances : ColdBalances) (config : ColdConfig Address) :
    Checked ColdBalances := do
  let total ← balances.total
  if total = 0 then pure balances
  else do
    let currentShare ← hotShareBps balances.hot total
    let targetShare := I128.ofU32 config.hotBps
    let difference ← Call.unwrap (currentShare.checkedSub targetShare)
      (.message "attempt to subtract with overflow")
    let drift ← Call.unwrap difference.checkedAbs (.message "attempt to negate with overflow")
    if drift.val ≤ (I128.ofU32 config.rebalanceThresholdBps).val then pure balances
    else if currentShare.val ≤ targetShare.val then pure balances
    else do
      let newHot ← targetHot total config.hotBps
      let moved ← Call.okOr (balances.hot.checkedSub newHot) .overflow
      let newCold ← Call.okOr (balances.cold.checkedAdd moved) .overflow
      pure ⟨newHot, newCold⟩

omit [DecidableEq Address] in
theorem nodup_iff_forall_range {xs : List Address} :
    xs.Nodup ↔ ∀ i ∈ List.range xs.length,
      ∀ j ∈ List.range' (i + 1) (xs.length - (i + 1)), xs[i]? ≠ xs[j]? := by
  rw [List.nodup_iff_getElem?_ne_getElem?]
  constructor
  · intro h i hi j hj
    rw [List.mem_range'_1] at hj
    exact h i j (by omega) (by omega)
  · intro h i j hij hj
    apply h i (List.mem_range.2 (hij.trans hj)) j
    rw [List.mem_range'_1]
    omega

theorem bps_iff (bps : UInt32) :
    ¬(bps = 0 ∨ UInt32.ofInt BPS_DENOMINATOR.val < bps) ↔ 1 ≤ bps.toNat ∧ bps.toNat ≤ 10000 := by
  have hwhole : (UInt32.ofInt BPS_DENOMINATOR.val).toNat = 10000 := rfl
  rw [← UInt32.toNat_inj, UInt32.lt_iff_toNat_lt, hwhole, UInt32.toNat_zero]
  omega

theorem run_validate_eq_ok {config : ColdConfig Address} {u u' : Unit} :
    config.validate.run u = .ok () u' ↔
      (1 ≤ config.hotBps.toNat ∧ config.hotBps.toNat ≤ 10000) ∧
      (1 ≤ config.rebalanceThresholdBps.toNat ∧ config.rebalanceThresholdBps.toNat ≤ 10000) ∧
      config.coldSigners ≠ [] ∧
      (1 ≤ config.coldThreshold.toNat ∧
        config.coldThreshold.toNat ≤ config.coldSigners.length) ∧
      config.coldSigners.Nodup := by
  have hthreshold : ¬(config.coldThreshold = 0 ∨
      config.coldSigners.length < config.coldThreshold.toNat) ↔
      1 ≤ config.coldThreshold.toNat ∧
        config.coldThreshold.toNat ≤ config.coldSigners.length := by
    rw [← UInt32.toNat_inj, UInt32.toNat_zero]
    omega
  have hloop : (forM (List.range config.coldSigners.length) fun i =>
      forM (List.range' (i + 1) (config.coldSigners.length - (i + 1))) fun j =>
        Call.ensure (config.coldSigners[i]? ≠ config.coldSigners[j]?) .duplicateColdSigner :
          Checked Unit).run u = .ok () u' ↔ config.coldSigners.Nodup := by
    rw [nodup_iff_forall_range, Call.run_forM_checks_eq_ok (P := fun i =>
      ∀ j ∈ List.range' (i + 1) (config.coldSigners.length - (i + 1)),
        config.coldSigners[i]? ≠ config.coldSigners[j]?), and_iff_left rfl]
    intro i t t'
    apply Call.run_forM_checks_eq_ok
    intro j t t'
    exact Call.run_ensure_eq_ok
  unfold ColdConfig.validate
  simp only [Call.run_bind_eq_ok, Call.run_ensure_eq_ok, bps_iff, hthreshold]
  constructor
  · intro h
    obtain ⟨_, _, ⟨hhot, -⟩, _, _, ⟨hdrift, -⟩, _, _, ⟨hne, -⟩, _, _, ⟨hcold, -⟩, hpairs⟩ := h
    exact ⟨hhot, hdrift, hne, hcold, hloop.1 hpairs⟩
  · intro h
    obtain ⟨hhot, hdrift, hne, hcold, hnodup⟩ := h
    exact ⟨(), (), ⟨hhot, trivial⟩, (), (), ⟨hdrift, trivial⟩, (), (), ⟨hne, trivial⟩, (), (),
      ⟨hcold, trivial⟩, hloop.2 hnodup⟩

theorem isColdSigner_iff {config : ColdConfig Address} {addr : Address} :
    config.isColdSigner addr = true ↔ addr ∈ config.coldSigners := by
  simp [ColdConfig.isColdSigner]

theorem places_le_signers {config : ColdConfig Address} (hnodup : config.coldSigners.Nodup)
    (keys : Finset Address) :
    (config.coldSigners.filter (· ∈ keys)).length ≤
      (keys.filter fun k => config.isColdSigner k = true).card := by
  rw [← List.toFinset_card_of_nodup (hnodup.filter _)]
  apply Finset.card_le_card
  intro k hk
  rw [List.mem_toFinset, List.mem_filter] at hk
  rw [Finset.mem_filter, isColdSigner_iff]
  exact ⟨of_decide_eq_true hk.2, hk.1⟩

/-- A configuration is accepted exactly if both shares are sensible, the signers are distinct and
the threshold can be met; the threshold is then met by that many different signers only. -/
theorem validate_exact (config : ColdConfig Address) :
    (config.validate.run () = .ok () () ↔
      (1 ≤ config.hotBps.toNat ∧ config.hotBps.toNat ≤ 10000) ∧
      (1 ≤ config.rebalanceThresholdBps.toNat ∧ config.rebalanceThresholdBps.toNat ≤ 10000) ∧
      config.coldSigners ≠ [] ∧ config.coldSigners.Nodup ∧
      1 ≤ config.coldThreshold.toNat ∧
      config.coldThreshold.toNat ≤ config.coldSigners.length) ∧
    (config.validate.run () = .ok () () → ∀ keys : Finset Address,
      config.coldThreshold.toNat ≤ (config.coldSigners.filter (· ∈ keys)).length →
      config.coldThreshold.toNat ≤
        (keys.filter fun k => config.isColdSigner k = true).card) := by
  constructor
  · rw [run_validate_eq_ok]
    tauto
  · intro h keys hkeys
    have hnodup := (run_validate_eq_ok.1 h).2.2.2.2
    exact hkeys.trans (places_le_signers hnodup keys)

/-! ## Rebalancing -/

/-- The split holds no debt, and what a rebalance computes from it fits in an `i128`. -/
structure Fits (balances : ColdBalances) (config : ColdConfig Address) : Prop where
  hot_nonneg : 0 ≤ balances.hot.val
  cold_nonneg : 0 ≤ balances.cold.val
  total_fits : balances.hot.val + balances.cold.val ≤ I128.max.val
  share_fits : balances.hot.val * 10000 ≤ I128.max.val
  target_fits : (balances.hot.val + balances.cold.val) * config.hotBps.toNat ≤ I128.max.val

theorem target_le_of_le_share {part whole bps : ℤ} (hwhole : 0 < whole)
    (h : bps ≤ part * 10000 / whole) : whole * bps / 10000 ≤ part := by
  have hscaled : bps * whole ≤ part * 10000 := (Int.le_ediv_iff_mul_le hwhole).1 h
  apply Int.ediv_le_of_le_mul (by decide)
  rw [Int.mul_comm]
  exact hscaled

theorem share_target_le {whole bps : ℤ} (hwhole : 0 < whole) :
    whole * bps / 10000 * 10000 / whole ≤ bps := by
  have hfloor : whole * bps / 10000 * 10000 ≤ whole * bps := Int.ediv_mul_le _ (by decide)
  apply Int.ediv_le_of_le_mul hwhole
  rw [Int.mul_comm bps whole]
  exact hfloor

theorem exists_of_fits {n : ℤ} (h₀ : 0 ≤ n) (h : n ≤ I128.max.val) : ∃ a : I128, a.val = n := by
  refine MachineInt.exists_val_eq.2 ⟨le_trans (by decide) h₀, ?_⟩
  exact h

theorem run_hotShareBps {hot total : I128} (hhot : 0 ≤ hot.val) (htotal : 0 < total.val)
    (hle : hot.val ≤ total.val) (hfits : hot.val * 10000 ≤ I128.max.val) (u : Unit) :
    ∃ share, (hotShareBps hot total).run u = .ok share u ∧
      share.val = hot.val * 10000 / total.val ∧ 0 ≤ share.val ∧ share.val ≤ 10000 := by
  have hscaled₀ : 0 ≤ hot.val * 10000 := Int.mul_nonneg hhot (by decide)
  have hshare₀ : 0 ≤ hot.val * 10000 / total.val := Int.ediv_nonneg hscaled₀ htotal.le
  have hshare : hot.val * 10000 / total.val ≤ 10000 := by
    apply Int.ediv_le_of_le_mul htotal
    rw [Int.mul_comm]
    exact Int.mul_le_mul_of_nonneg_left hle (by decide)
  have hne : total ≠ 0 := fun h => by simp [h] at htotal
  obtain ⟨scaled, hscaled⟩ := exists_of_fits hscaled₀ hfits
  obtain ⟨share, hval⟩ := exists_of_fits hshare₀ (hshare.trans (by decide))
  refine ⟨share, ?_, hval, hval ▸ hshare₀, hval ▸ hshare⟩
  simp only [hotShareBps, if_neg hne, Call.run_bind_eq_ok, Call.run_okOr_eq_ok,
    MachineInt.checkedMul_eq_some, MachineInt.checkedDiv_eq_some]
  refine ⟨scaled, u, ⟨hscaled, trivial⟩, ⟨htotal.ne', ?_⟩, trivial⟩
  rw [hval, hscaled, Int.tdiv_eq_ediv_of_nonneg hscaled₀]

theorem run_targetHot {total : I128} {hotBps : UInt32} (htotal : 0 ≤ total.val)
    (hfits : total.val * hotBps.toNat ≤ I128.max.val) (u : Unit) :
    ∃ target, (targetHot total hotBps).run u = .ok target u ∧
      target.val = total.val * hotBps.toNat / 10000 := by
  have hscaled₀ : 0 ≤ total.val * hotBps.toNat := Int.mul_nonneg htotal (Int.natCast_nonneg _)
  have htarget₀ : 0 ≤ total.val * hotBps.toNat / 10000 := Int.ediv_nonneg hscaled₀ (by decide)
  obtain ⟨scaled, hscaled⟩ := exists_of_fits hscaled₀ hfits
  obtain ⟨target, hval⟩ := exists_of_fits htarget₀
    ((Int.ediv_le_self _ hscaled₀).trans hfits)
  refine ⟨target, ?_, hval⟩
  simp only [targetHot, Call.run_bind_eq_ok, Call.run_okOr_eq_ok,
    MachineInt.checkedMul_eq_some, MachineInt.checkedDiv_eq_some]
  refine ⟨scaled, u, ⟨hscaled, trivial⟩, ⟨by decide, ?_⟩, trivial⟩
  rw [hval, hscaled, Int.tdiv_eq_ediv_of_nonneg hscaled₀]
  rfl

theorem run_drift {share : I128} (hotBps : UInt32) (hshare₀ : 0 ≤ share.val)
    (hshare : share.val ≤ 10000) (u : Unit) : ∃ difference drift : I128,
    (Call.unwrap (share.checkedSub (I128.ofU32 hotBps))
      (.message "attempt to subtract with overflow") : Checked I128).run u = .ok difference u ∧
    (Call.unwrap difference.checkedAbs
      (.message "attempt to negate with overflow") : Checked I128).run u = .ok drift u ∧
    drift.val = (share.val - hotBps.toNat).natAbs := by
  have hbound := hotBps.toNat_lt
  obtain ⟨difference, hdifference⟩ : ∃ a : I128, a.val = share.val - hotBps.toNat :=
    MachineInt.exists_val_eq.2 (by omega)
  obtain ⟨drift, hdrift⟩ : ∃ a : I128, a.val = difference.val.natAbs :=
    MachineInt.exists_val_eq.2 (by omega)
  refine ⟨difference, drift, ?_, ?_, hdifference ▸ hdrift⟩
  · rw [Call.run_unwrap_eq_ok, MachineInt.checkedSub_eq_some]
    exact ⟨hdifference, rfl⟩
  · rw [Call.run_unwrap_eq_ok, MachineInt.checkedAbs_eq_some]
    exact ⟨hdrift, rfl⟩

section
variable {balances : ColdBalances} {config : ColdConfig Address} (hfits : Fits balances config)
include hfits

omit [DecidableEq Address] in
theorem run_maybeRebalance_of_pos (u : Unit) (hpos : 0 < balances.hot.val + balances.cold.val) :
    ∃ total share : I128, total.val = balances.hot.val + balances.cold.val ∧
      share.val = balances.hot.val * 10000 / total.val ∧
      ∀ result, (maybeRebalance balances config).run u = .ok result u ↔
        if share.val ≤ config.hotBps.toNat + config.rebalanceThresholdBps.toNat then
          balances = result
        else ∃ newHot moved newCold : I128, (targetHot total config.hotBps).run u = .ok newHot u ∧
          moved.val = balances.hot.val - newHot.val ∧
          newCold.val = balances.cold.val + moved.val ∧ ⟨newHot, newCold⟩ = result := by
  obtain ⟨total, htotal⟩ := exists_of_fits hpos.le hfits.total_fits
  have hne : total ≠ 0 := fun h => by simp [h] at htotal; omega
  have hle : balances.hot.val ≤ total.val := by
    have := hfits.cold_nonneg
    omega
  obtain ⟨share, hrun, hshare, hshare₀, hshare₁⟩ :=
    run_hotShareBps hfits.hot_nonneg (htotal ▸ hpos) hle hfits.share_fits u
  obtain ⟨difference, drift, hdifferenceRun, hdriftRun, hdrift⟩ :=
    run_drift config.hotBps hshare₀ hshare₁ u
  refine ⟨total, share, htotal, hshare, fun result => ?_⟩
  have htotalRun : balances.total.run u = .ok total u := by
    rw [ColdBalances.total, Call.run_okOr_eq_ok, MachineInt.checkedAdd_eq_some]
    exact ⟨htotal, rfl⟩
  rw [maybeRebalance, Call.run_bind_of_ok htotalRun, if_neg hne, Call.run_bind_of_ok hrun,
    Call.run_bind_of_ok hdifferenceRun, Call.run_bind_of_ok hdriftRun]
  by_cases hwithin : share.val ≤ config.hotBps.toNat + config.rebalanceThresholdBps.toNat
  · rw [if_pos hwithin]
    by_cases hd : drift.val ≤ (I128.ofU32 config.rebalanceThresholdBps).val
    · rw [if_pos hd, Call.run_pure_eq_ok, and_iff_left rfl]
    · have hbelow : share.val ≤ (I128.ofU32 config.hotBps).val := by
        rw [I128.ofU32_val] at hd ⊢
        omega
      rw [if_neg hd, if_pos hbelow, Call.run_pure_eq_ok, and_iff_left rfl]
  · rw [if_neg hwithin]
    have hd : ¬drift.val ≤ (I128.ofU32 config.rebalanceThresholdBps).val := by
      rw [I128.ofU32_val]
      omega
    have habove : ¬share.val ≤ (I128.ofU32 config.hotBps).val := by
      rw [I128.ofU32_val]
      omega
    rw [if_neg hd, if_neg habove]
    simp only [Call.run_bind_eq_ok, Call.run_okOr_eq_ok, Call.run_pure_eq_ok,
      MachineInt.checkedSub_eq_some, MachineInt.checkedAdd_eq_some]
    constructor
    · intro h
      obtain ⟨newHot, _, htarget, moved, _, ⟨hmoved, -⟩, newCold, _, ⟨hnewCold, -⟩, hresult, -⟩ := h
      exact ⟨newHot, moved, newCold, htarget, hmoved, hnewCold, hresult⟩
    · intro h
      obtain ⟨newHot, moved, newCold, htarget, hmoved, hnewCold, hresult⟩ := h
      exact ⟨newHot, u, htarget, moved, u, ⟨hmoved, trivial⟩, newCold, u, ⟨hnewCold, trivial⟩,
        hresult, trivial⟩

omit [DecidableEq Address] in
theorem run_maybeRebalance_of_le (u : Unit)
    (h : balances.hot.val * 10000 / (balances.hot.val + balances.cold.val) ≤
      config.hotBps.toNat + config.rebalanceThresholdBps.toNat) :
    (maybeRebalance balances config).run u = .ok balances u := by
  have hhot := hfits.hot_nonneg
  have hcold := hfits.cold_nonneg
  rcases (Int.add_nonneg hhot hcold).eq_or_lt with hzero | hpos
  · have htotalRun : balances.total.run u = .ok 0 u := by
      rw [ColdBalances.total, Call.run_okOr_eq_ok, MachineInt.checkedAdd_eq_some]
      exact ⟨hzero, rfl⟩
    rw [maybeRebalance, Call.run_bind_of_ok htotalRun, if_pos rfl]
    rfl
  · obtain ⟨total, share, htotal, hshare, hrun⟩ := run_maybeRebalance_of_pos hfits u hpos
    rw [hrun, if_pos (by rw [hshare, htotal]; exact h)]

omit [DecidableEq Address] in
theorem run_maybeRebalance_of_lt (u : Unit)
    (h : (config.hotBps.toNat + config.rebalanceThresholdBps.toNat : ℤ) <
      balances.hot.val * 10000 / (balances.hot.val + balances.cold.val)) :
    ∃ result, (maybeRebalance balances config).run u = .ok result u ∧
      result.hot.val =
        (balances.hot.val + balances.cold.val) * config.hotBps.toNat / 10000 ∧
      result.hot.val ≤ balances.hot.val ∧
      result.hot.val + result.cold.val = balances.hot.val + balances.cold.val := by
  have hhot := hfits.hot_nonneg
  have hcold := hfits.cold_nonneg
  have htotal_le := hfits.total_fits
  have hpos : 0 < balances.hot.val + balances.cold.val := by
    rcases (Int.add_nonneg hhot hcold).eq_or_lt with hzero | hpos
    · rw [← hzero, Int.ediv_zero] at h
      omega
    · exact hpos
  obtain ⟨total, share, htotal, hshare, hrun⟩ := run_maybeRebalance_of_pos hfits u hpos
  obtain ⟨newHot, htarget, hval⟩ := run_targetHot (htotal ▸ hpos.le)
    (htotal ▸ hfits.target_fits) u
  have hnewHot₀ : 0 ≤ newHot.val := by
    rw [hval, htotal]
    exact Int.ediv_nonneg (Int.mul_nonneg hpos.le (Int.natCast_nonneg _)) (by decide)
  have hnewHot : newHot.val ≤ balances.hot.val := by
    rw [hval, htotal]
    apply target_le_of_le_share hpos
    omega
  obtain ⟨moved, hmoved⟩ := exists_of_fits (Int.sub_nonneg_of_le hnewHot)
    ((Int.sub_le_self _ hnewHot₀).trans balances.hot.le_hi)
  obtain ⟨newCold, hnewCold⟩ : ∃ a : I128, a.val = balances.cold.val + moved.val :=
    exists_of_fits (by omega) (by omega)
  refine ⟨⟨newHot, newCold⟩, ?_, hval.trans (by rw [htotal]), hnewHot, ?_⟩
  · rw [hrun, if_neg (by rw [hshare, htotal]; omega)]
    exact ⟨newHot, moved, newCold, htarget, hmoved, hnewCold, rfl⟩
  · change newHot.val + newCold.val = _
    omega

omit [DecidableEq Address] in
/-- A rebalance keeps the total, only lowers the hot part, leaves no share beyond the tolerance,
and has nothing left to do afterwards. -/
theorem maybeRebalance_exact : ∃ result,
    (maybeRebalance balances config).run () = .ok result () ∧
    result.hot.val + result.cold.val = balances.hot.val + balances.cold.val ∧
    0 ≤ result.hot.val ∧ result.hot.val ≤ balances.hot.val ∧
    balances.cold.val ≤ result.cold.val ∧
    result.hot.val * 10000 / (result.hot.val + result.cold.val) ≤
      config.hotBps.toNat + config.rebalanceThresholdBps.toNat ∧
    (result ≠ balances → result.hot.val =
      (balances.hot.val + balances.cold.val) * config.hotBps.toNat / 10000) ∧
    (maybeRebalance result config).run () = .ok result () := by
  have hhot := hfits.hot_nonneg
  have hcold := hfits.cold_nonneg
  rcases lt_or_ge (config.hotBps.toNat + config.rebalanceThresholdBps.toNat : ℤ)
    (balances.hot.val * 10000 / (balances.hot.val + balances.cold.val)) with hlt | hle
  · obtain ⟨result, hrun, hval, hle, htotal⟩ := run_maybeRebalance_of_lt hfits () hlt
    have hpos : 0 < balances.hot.val + balances.cold.val := by
      rcases (Int.add_nonneg hhot hcold).eq_or_lt with hzero | hpos
      · rw [← hzero, Int.ediv_zero] at hlt
        omega
      · exact hpos
    have hresult₀ : 0 ≤ result.hot.val := by
      rw [hval]
      exact Int.ediv_nonneg (Int.mul_nonneg hpos.le (Int.natCast_nonneg _)) (by decide)
    have hshare : result.hot.val * 10000 / (result.hot.val + result.cold.val) ≤
        config.hotBps.toNat + config.rebalanceThresholdBps.toNat := by
      rw [htotal, hval]
      have := @share_target_le _ config.hotBps.toNat hpos
      omega
    have hfits' : Fits result config := by
      have := hfits.share_fits
      exact ⟨hresult₀, by omega, htotal ▸ hfits.total_fits, by omega, htotal ▸ hfits.target_fits⟩
    exact ⟨result, hrun, htotal, hresult₀, hle, by omega, hshare, fun _ => hval,
      run_maybeRebalance_of_le hfits' () hshare⟩
  · have hrun := run_maybeRebalance_of_le hfits () hle
    exact ⟨balances, hrun, rfl, hhot, le_rfl, le_rfl, hle, fun h => absurd rfl h, hrun⟩

end

def fifthHot : ColdConfig ℕ := ⟨2000, 500, [7, 8, 9], 2⟩

def mostlyHot : ColdBalances := ⟨⟨970, by decide⟩, ⟨30, by decide⟩⟩

theorem maybeRebalance_exact_mostlyHot : fifthHot.validate.run () = .ok () () ∧
    Fits mostlyHot fifthHot ∧ ∃ result, (maybeRebalance mostlyHot fifthHot).run () = .ok result () ∧
      result.hot.val = 200 := by
  have hvalid : fifthHot.validate.run () = .ok () () := run_validate_eq_ok.2 (by decide)
  have hfits : Fits mostlyHot fifthHot := by
    constructor <;> decide
  obtain ⟨result, hrun, -, -, -, -, hshare, hmoved, -⟩ := maybeRebalance_exact hfits
  refine ⟨hvalid, hfits, result, hrun, hmoved fun hsame => ?_⟩
  rw [hsame] at hshare
  revert hshare
  decide

end Callora.Vault.ColdStorage
