import Callora.Settlement.Index

/-! The V1 to V2 storage migration over whole runs: what marks it complete, and the loop of pages
that follows the returned offsets while credits keep moving the index. -/

namespace Callora.Settlement
open Library

variable {Address Ledger : Type} [LinearOrder Address] {contract : Address}
  {T : TokenContract Address Ledger} {env : Env Address contract} {s s' : State Address Ledger}
  {u : Unit}

/-! Merging slots. -/

def State.Mergeable (s : State Address Ledger) (usdcToken d : Address) : Prop :=
  ∀ v1, s.developerBalanceV1 d = some v1 → (v1.checkedAdd (s.balanceOf d usdcToken)).isSome

theorem legacy_of_slot {usdcToken addr : Address}
    (h : (migrateDeveloperSlot usdcToken addr).run s = .ok u s') (d : Address) :
    s'.developerBalanceV1 d = if d = addr then none else s.developerBalanceV1 d := by
  rcases hv1 : s.developerBalanceV1 addr with _ | v1
  · simp [migrateDeveloperSlot, hv1] at h
    subst h
    split_ifs with hd
    · rw [hd, hv1]
    · rfl
  · simp [migrateDeveloperSlot, hv1] at h
    obtain ⟨merged, -, rfl⟩ := h
    exact Store.remove_apply ..

theorem balanceOf_of_slot {usdcToken addr d : Address}
    (h : (migrateDeveloperSlot usdcToken addr).run s = .ok u s') (hd : d ≠ addr) (t : Address) :
    s'.balanceOf d t = s.balanceOf d t := by
  rcases hv1 : s.developerBalanceV1 addr with _ | v1
  · simp [migrateDeveloperSlot, hv1] at h
    rw [h]
  · simp [migrateDeveloperSlot, hv1] at h
    obtain ⟨merged, -, rfl⟩ := h
    have hkey : (d, t) ≠ (addr, usdcToken) := fun hk => hd (Prod.mk.inj hk).1
    exact congrArg (Option.getD · 0) (Store.set_of_ne hkey)

theorem exists_run_migrateDeveloperSlot {usdcToken addr : Address} :
    (∃ s', (migrateDeveloperSlot usdcToken addr).run s = .ok () s') ↔
      s.Mergeable usdcToken addr := by
  rcases hv1 : s.developerBalanceV1 addr with _ | v1
  · simp [migrateDeveloperSlot, State.Mergeable, hv1]
  · simp [migrateDeveloperSlot, State.Mergeable, hv1, Option.isSome_iff_exists]

theorem legacy_of_slots {usdcToken : Address} {addrs : List Address}
    (h : (forM addrs (migrateDeveloperSlot usdcToken)).run s = .ok u s') (d : Address) :
    s'.developerBalanceV1 d = if d ∈ addrs then none else s.developerBalanceV1 d := by
  induction addrs generalizing s with
  | nil =>
    obtain rfl := Call.run_forM_nil_eq_ok.1 h
    simp
  | cons addr addrs ih =>
    obtain ⟨s₁, hslot, hrest⟩ := Call.run_forM_cons_eq_ok.1 h
    rw [ih hrest, legacy_of_slot hslot]
    by_cases hd : d = addr <;> simp [hd]

theorem exists_run_migrateSlots {usdcToken : Address} {addrs : List Address} :
    (∃ s', (forM addrs (migrateDeveloperSlot usdcToken)).run s = .ok () s') ↔
      ∀ d ∈ addrs, s.Mergeable usdcToken d := by
  induction addrs generalizing s with
  | nil => simp
  | cons addr addrs ih =>
    have hrest {s₁ : State Address Ledger}
        (hslot : (migrateDeveloperSlot usdcToken addr).run s = .ok () s₁) (d : Address) :
        s₁.Mergeable usdcToken d ↔ d = addr ∨ s.Mergeable usdcToken d := by
      rw [State.Mergeable, legacy_of_slot hslot]
      by_cases hd : d = addr
      · simp [hd]
      · rw [if_neg hd, balanceOf_of_slot hslot hd, State.Mergeable, or_iff_right hd]
    rw [List.forall_mem_cons]
    constructor
    · intro hruns
      obtain ⟨s', h⟩ := hruns
      obtain ⟨s₁, hslot, hslots⟩ := Call.run_forM_cons_eq_ok.1 h
      have hhead := exists_run_migrateDeveloperSlot.1 ⟨s₁, hslot⟩
      have hafter := ih.1 ⟨s', hslots⟩
      refine ⟨hhead, fun d hd => ?_⟩
      rcases (hrest hslot d).1 (hafter d hd) with rfl | hmergeable
      · exact hhead
      · exact hmergeable
    · intro hmergeable
      obtain ⟨hhead, hall⟩ := hmergeable
      obtain ⟨s₁, hslot⟩ := exists_run_migrateDeveloperSlot.2 hhead
      have hafter : ∀ d ∈ addrs, s₁.Mergeable usdcToken d :=
        fun d hd => (hrest hslot d).2 (.inr (hall d hd))
      obtain ⟨s', hslots⟩ := ih.2 hafter
      exact ⟨s', Call.run_forM_cons_eq_ok.2 ⟨s₁, hslot, hslots⟩⟩

theorem run_migratePage_eq_ok {usdcToken : Address} {offset stop i : ℕ} {index : List Address}
    (hstop : stop ≤ U32_MAX) :
    (migratePage usdcToken offset stop i index).run s = .ok u s' ↔
      (forM ((index.take (stop - i)).drop (offset - i)) (migrateDeveloperSlot usdcToken)).run s =
        .ok u s' := by
  induction index generalizing i s with
  | nil => simp [migratePage]
  | cons addr index ih =>
    rw [migratePage]
    by_cases hi : stop ≤ i
    · simp [hi, Nat.sub_eq_zero_of_le hi]
    · have hnext : saturatingAddU32 i 1 = i + 1 := by
        rw [saturatingAddU32]
        omega
      have htake : stop - i = stop - (i + 1) + 1 := by omega
      rw [if_neg hi, hnext, htake, List.take_succ_cons]
      by_cases ho : offset ≤ i
      · have hdrop : offset - i = 0 ∧ offset - (i + 1) = 0 := by omega
        simp only [if_pos ho, Call.run_bind_eq_ok, ih, hdrop, List.drop_zero,
          Call.run_forM_cons_eq_ok]
        constructor
        · intro h
          obtain ⟨_, hslots⟩ := h
          exact hslots
        · intro hslots
          exact ⟨(), hslots⟩
      · have hdrop : offset - i = offset - (i + 1) + 1 := by omega
        simp [if_neg ho, ih, hdrop]

/-! What a step does to the index, to the V1 balances and to the version. -/

def Grown : List Address → List Address → Prop :=
  Relation.ReflTransGen fun index index' => ∃ addr, index' = sortedInsert index addr

theorem Grown.subset {index index' : List Address} (h : Grown index index') : index ⊆ index' := by
  induction h with
  | refl => exact List.Subset.refl _
  | tail _ hinsert ih =>
    obtain ⟨addr, rfl⟩ := hinsert
    exact fun d hd => mem_sortedInsert.2 (.inr (ih hd))

theorem grown_creditItems {token : Address} {items : List (Address × I128)}
    (h : (forM items (creditItem token) : Tx Address Ledger Unit).run s = .ok u s') :
    Grown s.index s'.index := by
  have hrefl : Grown s.index s.index := .refl
  refine Call.forM_invariant (P := fun t => Grown s.index t.index) h hrefl ?_
  intro item _ t t' ht hitem
  obtain ⟨newBalance, -, rfl⟩ := run_creditItem_eq_ok.1 hitem
  exact ht.tail ⟨item.1, rfl⟩

theorem grown_of_effect {op : Op Address} {r : Ret} (h : Effect T env s op r s') :
    Grown s.index s'.index := by
  cases h with
  | receiveDeveloper | forceCredit | executeBalanceMigration => exact .single ⟨_, rfl⟩
  | receiveBatch authorized accepted size positive distinct unseen credits =>
    have hgrown := grown_creditItems credits
    exact hgrown
  | _ => exact .refl

theorem legacy_of_migrated {usdcToken : Address} (h : Migrated usdcToken s s') (d : Address) :
    s'.developerBalanceV1 d = none ∨ s'.developerBalanceV1 d = s.developerBalanceV1 d := by
  induction h with
  | refl => exact .inr rfl
  | tail _ hslot ih =>
    obtain ⟨addr, v1, merged, -, -, rfl⟩ := hslot
    simp only [Store.remove_apply]
    split_ifs
    · exact .inl rfl
    · exact ih

theorem legacy_of_effect {op : Op Address} {r : Ret} (h : Effect T env s op r s') (d : Address) :
    s'.developerBalanceV1 d = none ∨ s'.developerBalanceV1 d = s.developerBalanceV1 d := by
  cases h with
  | migrateDeveloperBalance admin configured slot | migrateSingleDevV2 admin configured slot =>
    exact legacy_of_migrated (migrated_of_migrateDeveloperSlot slot) d
  | migrateAll admin undone configured slots =>
    have hlegacy := legacy_of_migrated (migrated_of_forM slots) d
    exact hlegacy
  | migratePage admin undone configured size bound slots more =>
    exact legacy_of_migrated (migrated_of_migratePage slots) d
  | migrateLastPage admin undone configured size bound slots last =>
    have hlegacy := legacy_of_migrated (migrated_of_migratePage slots) d
    exact hlegacy
  | _ => exact .inr rfl

/-! Completion. -/

/-- The page call passes its guards in this state and reaches the end of the index. -/
def State.FinishesAt (s : State Address Ledger) (env : Env Address contract) (caller : Address)
    (offset batchSize : ℕ) : Prop :=
  let effective := if batchSize = 0 then 1 else min batchSize MAX_BATCH_SIZE
  s.ByAdmin env caller ∧ Settlement.storageVersion s < STORAGE_VERSION_V2 ∧
    s.index.length ≤ saturatingAddU32 offset effective ∧
    ∃ usdcToken, s.usdc = some usdcToken ∧
      ∀ d ∈ s.index.drop offset, s.Mergeable usdcToken d

/-- Every developer with a V1 balance stands at a position from `offset` on. -/
def State.LegacyFrom (s : State Address Ledger) (offset : ℕ) : Prop :=
  ∀ d, s.developerBalanceV1 d ≠ none → d ∈ s.index.drop offset

/-- A page that finishes the migration leaves nobody behind. -/
def SweepsAll (s : State Address Ledger) : Input Address Ledger contract → Prop
  | .call env (.migrateV1ToV2Page caller offset batchSize) =>
    s.FinishesAt env caller offset batchSize → s.LegacyFrom offset
  | _ => True

structure MigrationSound (s : State Address Ledger) : Prop where
  version : storageVersion s ≤ STORAGE_VERSION_V2
  registered : ∀ d, s.developerBalanceV1 d ≠ none → d ∈ s.index
  complete : storageVersion s = STORAGE_VERSION_V2 → ∀ d, s.developerBalanceV1 d = none

theorem registered_of_effect {op : Op Address} {r : Ret}
    (hs : ∀ d, s.developerBalanceV1 d ≠ none → d ∈ s.index) (h : Effect T env s op r s') :
    ∀ d, s'.developerBalanceV1 d ≠ none → d ∈ s'.index := by
  intro d hd
  rcases legacy_of_effect h d with hnone | hsame
  · exact absurd hnone hd
  · exact (grown_of_effect h).subset (hs d (hsame ▸ hd))

theorem legacy_eq_none {usdcToken : Address} {addrs : List Address}
    (h : (forM addrs (migrateDeveloperSlot usdcToken)).run s = .ok u s')
    (hall : ∀ d, s.developerBalanceV1 d ≠ none → d ∈ addrs) (d : Address) :
    s'.developerBalanceV1 d = none := by
  rw [legacy_of_slots h]
  split_ifs with hd
  · rfl
  · exact not_not.1 (mt (hall d) hd)

theorem run_migrateLastPage_eq_ok {usdcToken : Address} {offset effective : ℕ}
    (h : s.index.length ≤ saturatingAddU32 offset effective) :
    (migratePage usdcToken offset (min (saturatingAddU32 offset effective) s.index.length) 0
        s.index).run s = .ok u s' ↔
      (forM (s.index.drop offset) (migrateDeveloperSlot usdcToken)).run s = .ok u s' := by
  have hu32 : s.index.length ≤ U32_MAX := h.trans (min_le_left _ _)
  rw [min_eq_right h, run_migratePage_eq_ok hu32, Nat.sub_zero, Nat.sub_zero, List.take_length]

theorem exists_run_of_finishesAt {caller : Address} {offset batchSize : ℕ}
    (h : s.FinishesAt env caller offset batchSize) :
    ∃ result s', (migrateV1ToV2Page env caller offset batchSize).run s = .ok result s' := by
  obtain ⟨hadmin, hversion, hend, usdcToken, husdc, hmerge⟩ := h
  obtain ⟨s₁, hslots⟩ := exists_run_migrateSlots.2 hmerge
  have hpage := (run_migrateLastPage_eq_ok hend).2 hslots
  have hlast := (min_eq_right hend).ge
  exact ⟨_, _, run_migrateV1ToV2Page_eq_ok.2 ⟨hadmin, .inr ⟨hversion, usdcToken, s₁, husdc, hpage,
    rfl, .inl ⟨hlast, rfl⟩⟩⟩⟩

theorem migrationSound_step {op : Op Address} {r : Ret} (hs : MigrationSound s)
    (h : Effect T env s op r s') :
    MigrationSound s' ↔ SweepsAll s (.call env op : Input Address Ledger contract) := by
  have hregistered := registered_of_effect hs.registered h
  have hkept (hv : storageVersion s' = storageVersion s) : MigrationSound s' := by
    refine ⟨hv ▸ hs.version, hregistered, fun hdone d => ?_⟩
    have hnone := hs.complete (hv ▸ hdone) d
    rcases legacy_of_effect h d with h | h
    · exact h
    · rw [h, hnone]
  cases h with
  | migratedPage admin done =>
    exact iff_of_true hs fun hfinishes => absurd done hfinishes.2.1.not_ge
  | migrateAll admin undone configured slots =>
    have hnone := legacy_eq_none slots hs.registered
    exact iff_of_true ⟨le_rfl, hregistered, fun _ => hnone⟩ trivial
  | @migratePage caller usdcToken offset batchSize effective stop balances legacy admin undone
      configured size bound slots more =>
    refine iff_of_true (hkept rfl) fun hfinishes => ?_
    have hend : s.index.length ≤ stop := by
      rw [bound, size]
      exact (min_eq_right hfinishes.2.2.1).ge
    exact absurd more hend.not_gt
  | @migrateLastPage caller usdcToken offset batchSize effective stop balances legacy admin undone
      configured size bound slots last =>
    have hend : s.index.length ≤ saturatingAddU32 offset effective := by
      rw [bound] at last
      exact (le_min_iff.1 last).1
    rw [bound] at slots
    have hslots := (run_migrateLastPage_eq_ok hend).1 slots
    constructor
    -- whoever is behind the offset keeps its V1 balance, so nobody is
    · intro hs' _ d hd
      have hnone := hs'.complete rfl d
      have hlegacy := legacy_of_slots hslots d
      by_contra hbehind
      rw [if_neg hbehind] at hlegacy
      exact hd (hlegacy.symm.trans hnone)
    · intro hsweeps
      have hmerge := exists_run_migrateSlots.1 ⟨_, hslots⟩
      rw [size] at hend
      have hall := hsweeps ⟨admin, undone, hend, usdcToken, configured, hmerge⟩
      have hnone := legacy_eq_none hslots hall
      exact ⟨le_rfl, hregistered, fun _ => hnone⟩
  | _ => exact iff_of_true (hkept rfl) trivial

/-- A state before the migration, with V1 balances of indexed developers only. -/
structure Unmigrated (s : State Address Ledger) : Prop where
  version : storageVersion s < STORAGE_VERSION_V2
  registered : ∀ d, s.developerBalanceV1 d ≠ none → d ∈ s.index

theorem version_of_effect {op : Op Address} {r : Ret}
    (hs : storageVersion s ≤ STORAGE_VERSION_V2) (h : Effect T env s op r s') :
    storageVersion s' ≤ STORAGE_VERSION_V2 := by
  cases h with
  | migrateAll | migrateLastPage => exact le_rfl
  | _ => exact hs

theorem registered_run {s₀ : State Address Ledger} (hs₀ : Unmigrated s₀)
    (inputs : List (Input Address Ledger contract)) :
    let s := (settlement T contract).run s₀ inputs
    storageVersion s ≤ STORAGE_VERSION_V2 ∧ ∀ d, s.developerBalanceV1 d ≠ none → d ∈ s.index := by
  refine Machine.invariant (P := fun s => storageVersion s ≤ STORAGE_VERSION_V2 ∧
    ∀ d, s.developerBalanceV1 d ≠ none → d ∈ s.index) ⟨hs₀.version.le, hs₀.registered⟩ ?_ inputs
  intro s input r s' hs hstep
  obtain ⟨hversion, hregistered⟩ := hs
  obtain ⟨env, op, rfl, heff⟩ | ⟨ledger, rfl, rfl, rfl⟩ := effect_of_step hstep
  · exact ⟨version_of_effect hversion heff, registered_of_effect hregistered heff⟩
  · exact ⟨hversion, hregistered⟩

theorem version_of_complete {caller : Address} {offset batchSize nextOffset : ℕ}
    (hs : storageVersion s ≤ STORAGE_VERSION_V2)
    (h : Effect T env s (.migrateV1ToV2Page caller offset batchSize) (.page nextOffset true) s') :
    storageVersion s' = STORAGE_VERSION_V2 := by
  cases h with
  | migratedPage admin done => exact le_antisymm hs done
  | migrateLastPage => rfl

theorem sweepsAll_iff {s₀ : State Address Ledger}
    {inputs : List (Input Address Ledger contract)} :
    (∀ e ∈ (settlement T contract).log s₀ inputs, SweepsAll e.pre e.input) ↔
      ∀ js env caller offset batchSize ks,
        inputs = js ++ .call env (.migrateV1ToV2Page caller offset batchSize) :: ks →
        ((settlement T contract).run s₀ js).FinishesAt env caller offset batchSize →
        ((settlement T contract).run s₀ js).LegacyFrom offset := by
  constructor
  · intro h js env caller offset batchSize ks his hfinishes
    obtain ⟨result, s', hrun⟩ := exists_run_of_finishesAt hfinishes
    let input : Input Address Ledger contract :=
      .call env (.migrateV1ToV2Page caller offset batchSize)
    have hstep : (settlement T contract).step ((settlement T contract).run s₀ js) input =
        some (.page result.1 result.2, s') := by
      apply Call.commit_eq_some.2
      exact run_returning_eq_ok.2 ⟨result, hrun, rfl⟩
    exact h ⟨_, input, _, s'⟩ (Machine.mem_log.2 ⟨js, ks, his, rfl, hstep⟩) hfinishes
  · intro h e he
    obtain ⟨js, ks, his, hrun, -⟩ := Machine.mem_log.1 he
    unfold SweepsAll
    split
    next env caller offset batchSize hin =>
      intro hfinishes
      rw [← hrun] at hfinishes ⊢
      exact h js env caller offset batchSize ks (hin ▸ his) hfinishes
    next => trivial

/-- In a run from any V1 state the migration counts as complete only when no developer has a V1
balance left, exactly if every page that finishes it starts at or below the position of everyone
who still has one. -/
theorem migration_complete_iff (T : TokenContract Address Ledger) {s₀ : State Address Ledger}
    (hs₀ : Unmigrated s₀) (inputs : List (Input Address Ledger contract)) :
    ((∀ js ks, inputs = js ++ ks →
        let s := (settlement T contract).run s₀ js
        storageVersion s = STORAGE_VERSION_V2 → ∀ d ∈ s.index, s.developerBalanceV1 d = none) ∧
      ∀ e ∈ (settlement T contract).log s₀ inputs, ∀ env caller offset batchSize nextOffset,
        e.input = .call env (.migrateV1ToV2Page caller offset batchSize) →
        e.output = .page nextOffset true →
        ∀ d ∈ e.post.index, e.post.developerBalanceV1 d = none) ↔
    ∀ js env caller offset batchSize ks,
      inputs = js ++ .call env (.migrateV1ToV2Page caller offset batchSize) :: ks →
      let s := (settlement T contract).run s₀ js
      s.FinishesAt env caller offset batchSize →
      ∀ d, s.developerBalanceV1 d ≠ none → d ∈ s.index.drop offset := by
  have hsound₀ : MigrationSound s₀ :=
    ⟨hs₀.version.le, hs₀.registered, fun hdone => absurd hdone hs₀.version.ne⟩
  have hstep (s : State Address Ledger) (input : Input Address Ledger contract) (r : Ret)
      (s' : State Address Ledger) (hs : MigrationSound s)
      (h : (settlement T contract).step s input = some (r, s')) :
      MigrationSound s' ↔ SweepsAll s input := by
    obtain ⟨env, op, rfl, heff⟩ | ⟨ledger, rfl, rfl, rfl⟩ := effect_of_step h
    · exact migrationSound_step hs heff
    · exact iff_of_true ⟨hs.version, hs.registered, hs.complete⟩ trivial
  refine Iff.trans ?_ ((Machine.always_run_iff hsound₀ hstep inputs).trans sweepsAll_iff)
  constructor
  · intro h js ks his
    obtain ⟨hle, hregistered⟩ := registered_run (T := T) hs₀ js
    refine ⟨hle, hregistered, fun hdone d => ?_⟩
    by_contra hd
    exact hd (h.1 js ks his hdone d (hregistered d hd))
  · intro hsound
    constructor
    · intro js ks his s hdone d _
      exact (hsound js ks his).complete hdone d
    · intro e he env caller offset batchSize nextOffset hin hout d _
      obtain ⟨js, ks, his, hrun, hcommit⟩ := Machine.mem_log.1 he
      rw [← hrun] at hcommit
      have hpost := hsound (js ++ [e.input]) ks (by rw [his, List.append_cons])
      rw [Machine.run_concat_of_step hcommit] at hpost
      have hle := (registered_run (T := T) hs₀ js).1
      rw [hin, hout] at hcommit
      have heff := effect_of_commit hcommit
      exact hpost.complete (version_of_complete hle heff) d

def twoLegacy (balance : I128) : State ℕ (Balances ℕ) where
  admin := some 1
  vault := some 2
  globalPool := some ⟨0, 0⟩
  totalReceived := some 0
  usdc := some 3
  developerIndex := some [5, 4]
  developerBalanceV1 := (Store.empty.set 4 balance).set 5 balance
  ledger := fun _ _ => 0

theorem unmigrated_twoLegacy (balance : I128) : Unmigrated (twoLegacy balance) where
  version := Nat.one_lt_two
  registered := by
    intro d hd
    simp only [twoLegacy, Store.set_apply] at hd
    split_ifs at hd with h₅ h₄
    · exact h₅ ▸ List.mem_cons_self
    · exact h₄ ▸ List.mem_cons_of_mem 5 List.mem_cons_self
    · exact absurd rfl hd

theorem migration_complete_iff_two :
    let m := settlement (balanceToken ℕ).toTokenContract 0
    let s₀ := twoLegacy ⟨100, by decide⟩
    let inputs : List (Input ℕ (Balances ℕ) 0) :=
      [.call (.signedBy 1 0 (by decide)) (.migrateV1ToV2Page 1 0 1),
        .call (.signedBy 1 0 (by decide)) (.migrateV1ToV2Page 1 1 1)]
    ((∀ js ks, inputs = js ++ ks →
        let s := m.run s₀ js
        storageVersion s = STORAGE_VERSION_V2 → ∀ d ∈ s.index, s.developerBalanceV1 d = none) ∧
      ∀ e ∈ m.log s₀ inputs, ∀ env caller offset batchSize nextOffset,
        e.input = .call env (.migrateV1ToV2Page caller offset batchSize) →
        e.output = .page nextOffset true →
        ∀ d ∈ e.post.index, e.post.developerBalanceV1 d = none) ↔
    ∀ js env caller offset batchSize ks,
      inputs = js ++ .call env (.migrateV1ToV2Page caller offset batchSize) :: ks →
      let s := m.run s₀ js
      s.FinishesAt env caller offset batchSize →
      ∀ d, s.developerBalanceV1 d ≠ none → d ∈ s.index.drop offset := by
  intro m s₀ inputs
  exact migration_complete_iff _ (unmigrated_twoLegacy ⟨100, by decide⟩) inputs

/-- A page that starts at the end of the index reports completion and sets the version, with both
V1 balances still there. -/
theorem page_completes_unmigrated :
    let m := settlement (balanceToken ℕ).toTokenContract 0
    let s₀ := twoLegacy ⟨100, by decide⟩
    let page : Input ℕ (Balances ℕ) 0 :=
      .call (.signedBy 1 0 (by decide)) (.migrateV1ToV2Page 1 2 50)
    let s := m.run s₀ [page]
    Unmigrated s₀ ∧ (m.step s₀ page).map Prod.fst = some (.page 2 true) ∧
      storageVersion s = STORAGE_VERSION_V2 ∧
      ¬∀ d ∈ s.index, s.developerBalanceV1 d = none := by
  intro m s₀ page s
  refine ⟨unmigrated_twoLegacy ⟨100, by decide⟩, by decide, by decide, fun h => ?_⟩
  exact absurd (h 4 (by decide)) (by decide)

end Callora.Settlement
