import Callora.Settlement.Migration

/-! The documented loop over `migrate_v1_to_v2_page`, which starts at 0 and passes on each returned
offset, while credits, withdrawals and balance migrations go on between its pages. Nobody with a V1
balance ever gets behind the offset, and what V1 and V2 hold together moves by the postings of the
other calls alone. -/

namespace Callora.Settlement
open Library

variable {Address Ledger : Type} [LinearOrder Address] {contract : Address}
  {T : TokenContract Address Ledger} {env : Env Address contract} {s s' : State Address Ledger}
  {u : Unit}

/-! The offset of the loop. -/

/-- The offset that the loop holds after the entry, unless the entry is a page at another one. -/
def advance (offset : ℕ) (e : LogEntry Address Ledger contract) : Option ℕ :=
  match e.input, e.output with
  | .call _ (.migrateV1ToV2Page _ start _), .page nextOffset _ =>
    if start = offset then some nextOffset else none
  | _, _ => some offset

def loopOffset (l : List (LogEntry Address Ledger contract)) : Option ℕ := l.foldlM advance 0

def IsPage (e : LogEntry Address Ledger contract) : Prop :=
  ∃ env caller offset batchSize, e.input = .call env (.migrateV1ToV2Page caller offset batchSize)

omit [LinearOrder Address] in
theorem loopOffset_concat (l : List (LogEntry Address Ledger contract))
    (e : LogEntry Address Ledger contract) :
    loopOffset (l ++ [e]) = (loopOffset l).bind fun offset => advance offset e := by
  simp [loopOffset, List.foldlM_append]

/-! V1 and V2 together. -/

def legacyBalance (s : State Address Ledger) (developer : Address) : ℤ :=
  ((s.developerBalanceV1 developer).map MachineInt.val).getD 0

/-- What a developer holds in a token, with the V1 balance where that migrates to it. -/
def holding (usdcToken : Address) (s : State Address Ledger) (developer token : Address) : ℤ :=
  (s.balanceOf developer token).val + if token = usdcToken then legacyBalance s developer else 0

theorem holding_of_slotMerged {usdcToken : Address} (h : SlotMerged usdcToken s s')
    (d t : Address) : holding usdcToken s' d t = holding usdcToken s d t := by
  obtain ⟨addr, v1, merged, hv1, hmerged, rfl⟩ := h
  by_cases ht : t = usdcToken
  · by_cases hd : d = addr
    · subst hd ht
      simp [holding, legacyBalance, State.balanceOf, hv1] at hmerged ⊢
      rw [hmerged, add_comm]
    · simp [holding, legacyBalance, State.balanceOf, hd]
  · simp [holding, State.balanceOf, ht]

theorem holding_of_migrated {usdcToken : Address} (h : Migrated usdcToken s s') (d t : Address) :
    holding usdcToken s' d t = holding usdcToken s d t := by
  induction h with
  | refl => rfl
  | tail _ hslot ih => rw [holding_of_slotMerged hslot, ih]

theorem holding_of_effect {usdcToken : Address} {op : Op Address} {r : Ret}
    (hmigrations : ∀ d m, s.pendingDeveloperMigration d = some m → m.to ≠ d)
    (husdc : s.usdc = some usdcToken) (h : Effect T env s op r s') (d t : Address) :
    holding usdcToken s' d t = holding usdcToken s d t +
      Journal.net (fun a => a = .developer d t) (postings ⟨s, .call env op, r, s'⟩) := by
  by_cases hinit : ∃ admin vaultAddress, op = .init admin vaultAddress
  · obtain ⟨admin, vaultAddress, rfl⟩ := hinit
    cases h with
    | init authorized fresh principals => exact (add_zero _).symm
  · have hinit' : ∀ admin vaultAddress, op = .init admin vaultAddress → s.admin = none →
        s.globalPool = none := fun admin vaultAddress hop => absurd ⟨_, _, hop⟩ hinit
    obtain ⟨hlegacy, hbooks⟩ | ⟨hnone, token, s₁, htoken, hmigrated, hs'⟩ :=
      books_or_migrated hinit' hmigrations h
    · have hbalance := congrFun hbooks (.developer d t)
      simp only [books, booksOf, Journal.post_apply] at hbalance
      simp only [holding, legacyBalance, hlegacy, State.balanceOf, hbalance]
      ring
    · obtain rfl : token = usdcToken := Option.some.inj (htoken.symm.trans husdc)
      have hsame : holding token s' d t = holding token s₁ d t := by
        rcases hs' with rfl | rfl <;> rfl
      rw [hnone, Journal.net_nil, add_zero, hsame, holding_of_migrated hmigrated]

/-! The invariant of the loop. -/

/-- A V1 state in which the loop may start: the token is configured, and stored proposals are
between distinct developers, as the contract makes them. -/
structure Migratable (usdcToken : Address) (s : State Address Ledger) : Prop extends
    Unmigrated s where
  configured : s.usdc = some usdcToken
  migrations : ∀ d m, s.pendingDeveloperMigration d = some m → m.to ≠ d

/-- The loop stands at `offset`: unless the migration is done, nobody before it has a V1 balance. -/
structure Sweeping (offset : ℕ) (s : State Address Ledger) : Prop extends MigrationSound s where
  migrations : ∀ d m, s.pendingDeveloperMigration d = some m → m.to ≠ d
  swept : storageVersion s < STORAGE_VERSION_V2 →
    ∀ d ∈ s.index.take offset, s.developerBalanceV1 d = none

theorem swept_of_grown {index index' : List Address} {legacy : Store Address I128} {offset : ℕ}
    (h : Grown index index') (hregistered : ∀ d, legacy d ≠ none → d ∈ index)
    (hswept : ∀ d ∈ index.take offset, legacy d = none) :
    ∀ d ∈ index'.take offset, legacy d = none := by
  induction h with
  | refl => exact hswept
  | @tail index₁ _ hgrown hinsert ih =>
    obtain ⟨addr, rfl⟩ := hinsert
    intro d hd
    rw [sortedInsert] at hd
    split_ifs at hd with hmem
    · exact ih d hd
    · rcases Paging.mem_take_insertIdx hd with rfl | hd
      · by_contra hlegacy
        have hold : Grown index index₁ := hgrown
        exact hmem (hold.subset (hregistered d hlegacy))
      · exact ih d hd

theorem swept_of_effect {op : Op Address} {r : Ret} {offset : ℕ} (hs : Sweeping offset s)
    (h : Effect T env s op r s') (hversion : storageVersion s < STORAGE_VERSION_V2) :
    ∀ d ∈ s'.index.take offset, s'.developerBalanceV1 d = none := by
  intro d hd
  rcases legacy_of_effect h d with hnone | hsame
  · exact hnone
  · rw [hsame]
    exact swept_of_grown (grown_of_effect h) hs.registered (hs.swept hversion) d hd

omit [LinearOrder Address] in
theorem legacyFrom_of_sweeping {offset : ℕ} (hs : Sweeping offset s)
    (hversion : storageVersion s < STORAGE_VERSION_V2) : s.LegacyFrom offset := by
  intro d hd
  have hmem := hs.registered d hd
  rw [← List.take_append_drop offset s.index] at hmem
  rcases List.mem_append.1 hmem with hmem | hmem
  · exact absurd (hs.swept hversion d hmem) hd
  · exact hmem

theorem start_of_advance {caller : Address} {start batchSize offset offset' : ℕ} {r : Ret}
    (h : Effect T env s (.migrateV1ToV2Page caller start batchSize) r s')
    (hadvance : advance offset ⟨s, .call env (.migrateV1ToV2Page caller start batchSize), r, s'⟩ =
      some offset') : start = offset ∧ ∃ isComplete, r = .page offset' isComplete := by
  have hpage {nextOffset : ℕ} (h : (if start = offset then some nextOffset else none) =
      some offset') : start = offset ∧ nextOffset = offset' := by
    split_ifs at h with hstart
    exact ⟨hstart, Option.some.inj h⟩
  cases h with
  | migratedPage | migratePage | migrateLastPage =>
    obtain ⟨hstart, rfl⟩ := hpage hadvance
    exact ⟨hstart, _, rfl⟩

omit [LinearOrder Address] in
theorem stop_le {stop offset effective total : ℕ}
    (h : stop = min (saturatingAddU32 offset effective) total) : stop ≤ U32_MAX := by
  rw [h]
  exact (min_le_left _ _).trans (min_le_left _ _)

theorem sweeping_of_effect {op : Op Address} {r : Ret} {offset offset' : ℕ}
    (hs : Sweeping offset s) (h : Effect T env s op r s')
    (hadvance : advance offset ⟨s, .call env op, r, s'⟩ = some offset') :
    Sweeping offset' s' := by
  have hsound : MigrationSound s' := by
    refine (migrationSound_step hs.toMigrationSound h).2 ?_
    unfold SweepsAll
    split
    next env₁ caller start batchSize hin =>
      obtain ⟨rfl, rfl⟩ := Input.call.inj hin
      obtain ⟨rfl, -⟩ := start_of_advance h hadvance
      exact fun hfinishes => legacyFrom_of_sweeping hs hfinishes.2.1
    next => trivial
  have hmigrations := forall_pending_of_effect hs.migrations (fun _ _ hne _ => hne) h
  refine ⟨hsound, hmigrations, fun hversion => ?_⟩
  have hkept := swept_of_effect hs h
  cases h with
  | migratedPage admin done => exact absurd done hversion.not_ge
  | migrateAll | migrateLastPage => exact absurd hversion (lt_irrefl _)
  | @migratePage caller usdcToken start batchSize effective stop balances legacy admin undone
      configured size bound slots more =>
    simp only [advance] at hadvance
    split_ifs at hadvance with hstart
    obtain rfl := Option.some.inj hadvance
    have hslots := (run_migratePage_eq_ok (stop_le bound)).1 slots
    rw [hstart, Nat.sub_zero, Nat.sub_zero] at hslots
    intro d hd
    have hlegacy := legacy_of_slots hslots d
    -- up to `stop` everyone was behind the offset already or has just been merged
    change d ∈ s.index.take stop at hd
    rw [← List.take_append_drop offset (s.index.take stop), List.take_take] at hd
    rcases List.mem_append.1 hd with hd | hd
    · have hbefore := hs.swept undone d (List.take_subset_take_left _ (min_le_left _ _) hd)
      rw [hbefore, ite_self] at hlegacy
      exact hlegacy
    · exact hlegacy.trans (if_pos hd)
  | _ =>
    obtain rfl := Option.some.inj hadvance
    exact hkept hversion

omit [LinearOrder Address] in
theorem sweeping_of_migratable {usdcToken : Address} (hs : Migratable usdcToken s) :
    Sweeping 0 s where
  version := hs.version.le
  registered := hs.registered
  complete := fun hdone => absurd hdone hs.version.ne
  migrations := hs.migrations
  swept := fun _ d hd => absurd hd (by simp)

theorem sweeping_run {s₀ : State Address Ledger} {usdcToken : Address}
    (hs₀ : Migratable usdcToken s₀) (inputs : List (Input Address Ledger contract)) :
    let s := (settlement T contract).run s₀ inputs
    let l := (settlement T contract).log s₀ inputs
    (∀ e ∈ l, e.post.usdc = some usdcToken) → ∀ offset, loopOffset l = some offset →
      s.usdc = some usdcToken ∧ Sweeping offset s ∧
      ∀ d t, holding usdcToken s d t = holding usdcToken s₀ d t +
        Journal.net (fun a => a = .developer d t) (l.flatMap postings) := by
  refine Machine.log_invariant (P := fun l s => (∀ e ∈ l, e.post.usdc = some usdcToken) →
    ∀ offset, loopOffset l = some offset → s.usdc = some usdcToken ∧ Sweeping offset s ∧
      ∀ d t, holding usdcToken s d t = holding usdcToken s₀ d t +
        Journal.net (fun a => a = .developer d t) (l.flatMap postings)) ?_ ?_ inputs
  · intro _ offset h
    obtain rfl := Option.some.inj h
    exact ⟨hs₀.configured, sweeping_of_migratable hs₀, fun d t => (add_zero _).symm⟩
  · intro l s input r s' hl hstep husdc offset' h
    obtain ⟨husdc, hconfigured⟩ := List.forall_mem_append.1 husdc
    rw [List.forall_mem_singleton] at hconfigured
    rw [loopOffset_concat, Option.bind_eq_some_iff] at h
    obtain ⟨offset, hoffset, hadvance⟩ := h
    obtain ⟨hbefore, hs, hholding⟩ := hl husdc offset hoffset
    obtain ⟨env, op, rfl, heff⟩ | ⟨ledger, rfl, rfl, rfl⟩ := effect_of_step hstep
    · refine ⟨hconfigured, sweeping_of_effect hs heff hadvance, fun d t => ?_⟩
      rw [holding_of_effect hs.migrations hbefore heff, hholding, List.flatMap_append,
        List.flatMap_singleton, Journal.net_append, add_assoc]
    · obtain rfl := Option.some.inj hadvance
      have hsound : MigrationSound { s with ledger := ledger } :=
        ⟨hs.version, hs.registered, hs.complete⟩
      refine ⟨hconfigured, ⟨hsound, hs.migrations, hs.swept⟩, fun d t => ?_⟩
      rw [List.flatMap_append, List.flatMap_singleton, Journal.net_append, ← add_assoc]
      exact (hholding d t).trans (add_zero _).symm

/-! The loop on its own. -/

/-- The slots before the offset have been merged in order, or all of them and the migration is
done. -/
def PagedFrom (usdcToken : Address) (s₀ : State Address Ledger) (offset : ℕ)
    (s : State Address Ledger) : Prop :=
  (offset ≤ U32_MAX ∧ offset ≤ s₀.index.length ∧ storageVersion s < STORAGE_VERSION_V2 ∧
    (forM (s₀.index.take offset) (migrateDeveloperSlot usdcToken)).run s₀ = .ok () s) ∨
  ∃ s₁, (forM s₀.index (migrateDeveloperSlot usdcToken)).run s₀ = .ok () s₁ ∧
    s = s₁.migrationDone

theorem slots_append {usdcToken : Address} {s₀ : State Address Ledger} {index : List Address}
    {offset stop : ℕ} (hle : offset ≤ stop)
    (hbefore : (forM (index.take offset) (migrateDeveloperSlot usdcToken)).run s₀ = .ok () s)
    (hpage : (forM ((index.take stop).drop offset) (migrateDeveloperSlot usdcToken)).run s =
      .ok () s') :
    (forM (index.take stop) (migrateDeveloperSlot usdcToken)).run s₀ = .ok () s' := by
  rw [← List.take_append_drop offset (index.take stop), List.take_take, min_eq_left hle]
  exact Call.run_forM_append_eq_ok.2 ⟨s, hbefore, hpage⟩

theorem slots_of_page {usdcToken : Address} {s₀ : State Address Ledger}
    {offset effective stop : ℕ} (hu32 : offset ≤ U32_MAX) (hlength : offset ≤ s₀.index.length)
    (hbound : stop = min (saturatingAddU32 offset effective) s₀.index.length)
    (hbefore : (forM (s₀.index.take offset) (migrateDeveloperSlot usdcToken)).run s₀ = .ok () s)
    (hpage : (migratePage usdcToken offset stop 0 s₀.index).run s = .ok () s') :
    (forM (s₀.index.take stop) (migrateDeveloperSlot usdcToken)).run s₀ = .ok () s' := by
  have hslots := (run_migratePage_eq_ok (stop_le hbound)).1 hpage
  have hle : offset ≤ stop := by
    rw [hbound, saturatingAddU32]
    exact le_min (le_min hu32 (Nat.le_add_right ..)) hlength
  exact slots_append hle hbefore hslots

theorem pagedFrom_of_effect {usdcToken caller : Address} {s₀ : State Address Ledger}
    {start batchSize offset offset' : ℕ} {r : Ret} (husdc₀ : s₀.usdc = some usdcToken)
    (hs : PagedFrom usdcToken s₀ offset s)
    (h : Effect T env s (.migrateV1ToV2Page caller start batchSize) r s')
    (hadvance : advance offset ⟨s, .call env (.migrateV1ToV2Page caller start batchSize), r, s'⟩ =
      some offset') : PagedFrom usdcToken s₀ offset' s' := by
  obtain ⟨rfl, isComplete, rfl⟩ := start_of_advance h hadvance
  rcases hs with ⟨hu32, hlength, hversion, hbefore⟩ | ⟨s₁, hslots, rfl⟩
  · obtain ⟨balances, legacy, hframe⟩ := frame_of_migrated (migrated_of_forM hbefore)
    have hindex : s.index = s₀.index := by
      rw [hframe]
      rfl
    have husdc : s.usdc = s₀.usdc := by rw [hframe]
    have hpage {token : Address} {effective stop : ℕ} {t : State Address Ledger}
        (configured : s.usdc = some token)
        (bound : stop = min (saturatingAddU32 start effective) s.index.length)
        (slots : (migratePage token start stop 0 s.index).run s = .ok () t) :
        (forM (s₀.index.take stop) (migrateDeveloperSlot usdcToken)).run s₀ = .ok () t := by
      rw [husdc, husdc₀] at configured
      obtain rfl := Option.some.inj configured
      rw [hindex] at bound slots
      exact slots_of_page hu32 hlength bound hbefore slots
    cases h with
    | migratedPage admin done => exact absurd done hversion.not_ge
    | migratePage admin undone configured size bound slots more =>
      have hstop : offset' ≤ s₀.index.length := by
        rw [bound, ← hindex]
        exact min_le_right _ _
      exact .inl ⟨stop_le bound, hstop, hversion, hpage configured bound slots⟩
    | migrateLastPage admin undone configured size bound slots last =>
      have hall := hpage configured bound slots
      have hlast : s₀.index.length ≤ offset' := by
        rw [← hindex]
        exact last
      rw [List.take_of_length_le hlast] at hall
      exact .inr ⟨_, hall, rfl⟩
  · cases h with
    | migratedPage admin done => exact .inr ⟨s₁, hslots, rfl⟩
    | migratePage admin undone => exact absurd undone (lt_irrefl _)
    | migrateLastPage admin undone => exact absurd undone (lt_irrefl _)

theorem pagedFrom_run {s₀ : State Address Ledger} {usdcToken : Address}
    (hs₀ : Migratable usdcToken s₀) (inputs : List (Input Address Ledger contract)) :
    let l := (settlement T contract).log s₀ inputs
    (∀ e ∈ l, IsPage e) → ∀ offset, loopOffset l = some offset →
      PagedFrom usdcToken s₀ offset ((settlement T contract).run s₀ inputs) := by
  refine Machine.log_invariant (P := fun l s => (∀ e ∈ l, IsPage e) →
    ∀ offset, loopOffset l = some offset → PagedFrom usdcToken s₀ offset s) ?_ ?_ inputs
  · intro _ offset h
    obtain rfl := Option.some.inj h
    exact .inl ⟨Nat.zero_le _, Nat.zero_le _, hs₀.version, rfl⟩
  · intro l s input r s' hl hstep hpages offset' h
    obtain ⟨hbefore, hpage⟩ := List.forall_mem_append.1 hpages
    obtain ⟨env, caller, start, batchSize, rfl⟩ := hpage _ (List.mem_singleton_self _)
    rw [loopOffset_concat, Option.bind_eq_some_iff] at h
    obtain ⟨offset, hoffset, hadvance⟩ := h
    have heff := effect_of_commit hstep
    exact pagedFrom_of_effect hs₀.configured (hl hbefore offset hoffset) heff hadvance

/-- When the loop over pages first reports completion, whatever else went on between them, no V1
balance is left, each has been added once to the V2 balance of its developer, and nothing else than
the postings of the other calls has moved a balance. Pages alone leave the state that
`migrate_v1_to_v2` leaves. -/
theorem loop_migrates (T : TokenContract Address Ledger) {s₀ : State Address Ledger}
    {usdcToken : Address} (hs₀ : Migratable usdcToken s₀)
    {inputs : List (Input Address Ledger contract)} {l : List (LogEntry Address Ledger contract)}
    {e : LogEntry Address Ledger contract} (hlog : (settlement T contract).log s₀ inputs = l ++ [e])
    (hloop : (loopOffset (l ++ [e])).isSome)
    (husdc : ∀ x ∈ l ++ [e], x.post.usdc = some usdcToken)
    {env : Env Address contract} {caller : Address} {offset batchSize nextOffset : ℕ}
    (hin : e.input = .call env (.migrateV1ToV2Page caller offset batchSize))
    (hout : e.output = .page nextOffset true) :
    (∀ d, e.post.developerBalanceV1 d = none) ∧
    (∀ d token, (e.post.balanceOf d token).val = (s₀.balanceOf d token).val +
      (if token = usdcToken then legacyBalance s₀ d else 0) +
      Journal.net (fun a => a = .developer d token) (l.flatMap postings)) ∧
    ((∀ x ∈ l, IsPage x) → ∀ (env : Env Address contract) (caller : Address),
      s₀.ByAdmin env caller → (migrateV1ToV2 env caller).run s₀ = .ok () e.post) := by
  obtain ⟨js, hcommit, hentries, hrun⟩ := Machine.log_eq_concat hlog
  obtain ⟨offset', hoffset⟩ := Option.isSome_iff_exists.1 hloop
  have hsweeping := sweeping_run (T := T) hs₀ (js ++ [e.input])
  simp only [hrun, hentries] at hsweeping
  obtain ⟨-, hs, hholding⟩ := hsweeping husdc offset' hoffset
  have hdone : storageVersion e.post = STORAGE_VERSION_V2 := by
    have hle := (registered_run (T := T) hs₀.toUnmigrated js).1
    rw [hin, hout] at hcommit
    exact version_of_complete hle (effect_of_commit hcommit)
  have hnone := hs.complete hdone
  refine ⟨hnone, fun d token => ?_, fun hpages env caller hadmin => ?_⟩
  · have hposted := hholding d token
    have hpage : postings e = [] := by
      simp [postings, payments, forceCredits, transfers, withdrawals, Journal.reverse, hin]
    rw [List.flatMap_append, List.flatMap_singleton, hpage, List.append_nil] at hposted
    simpa [holding, legacyBalance, hnone d] using hposted
  · have hpaged := pagedFrom_run (T := T) hs₀ (js ++ [e.input])
    simp only [hrun, hentries] at hpaged
    have hall : ∀ x ∈ l ++ [e], IsPage x :=
      List.forall_mem_append.2 ⟨hpages, List.forall_mem_singleton.2 ⟨_, _, _, _, hin⟩⟩
    rcases hpaged hall offset' hoffset with ⟨-, -, hundone, -⟩ | ⟨s₁, hslots, hpost⟩
    · exact absurd hdone hundone.ne
    · exact run_migrateV1ToV2_eq_ok.2 ⟨hadmin, .inr ⟨hs₀.version, usdcToken, s₁, hs₀.configured,
        hslots, hpost.symm⟩⟩

theorem migratable_twoLegacy (balance : I128) : Migratable 3 (twoLegacy balance) where
  toUnmigrated := unmigrated_twoLegacy balance
  configured := rfl
  migrations := fun d migration h => absurd h (by simp [twoLegacy])

theorem loop_migrates_two :
    let m := settlement (balanceToken ℕ).toTokenContract 0
    let s₀ := twoLegacy ⟨100, by decide⟩
    let admin : Env ℕ 0 := .signedBy 1 0 (by decide)
    let page (offset : ℕ) : Input ℕ (Balances ℕ) 0 := .call admin (.migrateV1ToV2Page 1 offset 1)
    let credit : Input ℕ (Balances ℕ) 0 := .call (.signedBy 2 0 (by decide))
      (.receivePayment 2 ⟨70, by decide⟩ false (some 3) 3 1)
    let s := m.run s₀ [page 0, credit, page 1, page 2]
    s.index = [3, 5, 4] ∧ (∀ d, s.developerBalanceV1 d = none) ∧
      (∀ d token, (s.balanceOf d token).val = (s₀.balanceOf d token).val +
        (if token = 3 then legacyBalance s₀ d else 0) +
        Journal.net (fun a => a = Account.developer d token) [⟨.developer 3 3, 70⟩]) ∧
      (migrateV1ToV2 admin 1).run s₀ = .ok () (m.run s₀ [page 0, page 1]) := by
  intro m s₀ admin page credit s
  have hs₀ := migratable_twoLegacy ⟨100, by decide⟩
  let s₁ := m.next s₀ (page 0)
  have hfirst : (m.step s₀ (page 0)).map Prod.fst = some (.page 1 false) := by decide
  have hpages : m.log s₀ [page 0, page 1] =
      [⟨s₀, page 0, .page 1 false, s₁⟩] ++ [⟨s₁, page 1, .page 2 true, m.next s₁ (page 1)⟩] := by
    rw [Machine.log_cons_of_output hfirst,
      Machine.log_cons_of_output (o := .page 2 true) (by decide)]
    rfl
  let s₂ := m.next s₁ credit
  let s₃ := m.next s₂ (page 1)
  have hmixed : m.log s₀ [page 0, credit, page 1, page 2] =
      [⟨s₀, page 0, .page 1 false, s₁⟩, ⟨s₁, credit, .unit, s₂⟩,
        ⟨s₂, page 1, .page 2 false, s₃⟩] ++ [⟨s₃, page 2, .page 3 true, m.next s₃ (page 2)⟩] := by
    rw [Machine.log_cons_of_output hfirst, Machine.log_cons_of_output (o := .unit) (by decide),
      Machine.log_cons_of_output (o := .page 2 false) (by decide),
      Machine.log_cons_of_output (o := .page 3 true) (by decide)]
    rfl
  have hindex : s.index = [3, 5, 4] := by decide
  have hloop : (loopOffset (m.log s₀ [page 0, credit, page 1, page 2])).isSome := by
    rw [hmixed]
    rfl
  have husdc : ∀ x ∈ m.log s₀ [page 0, credit, page 1, page 2], x.post.usdc = some 3 := by decide
  rw [hmixed] at hloop husdc
  obtain ⟨hnone, hbalances, -⟩ := loop_migrates _ hs₀ hmixed hloop husdc rfl rfl
  have hs : m.next s₃ (page 2) = s := rfl
  simp only [hs] at hnone hbalances
  refine ⟨hindex, hnone, hbalances, ?_⟩
  obtain ⟨-, -, hsame⟩ := loop_migrates _ hs₀ hpages rfl (by decide) rfl rfl
  exact hsame (List.forall_mem_singleton.2 ⟨_, _, _, _, rfl⟩) admin 1 ⟨by decide, rfl⟩

end Callora.Settlement
