import Callora.Library.Paging
import Callora.Settlement.Accounting

/-! The developer index and the views that walk it. The index stays strictly sorted and names every
developer with a balance, so the full listing and every walk by cursor show each of them once. -/

namespace Callora.Settlement
open Library

structure DeveloperBalance (Address : Type) where
  address : Address
  token : Address
  balance : I128
deriving DecidableEq

variable {Address Ledger : Type} [LinearOrder Address] {contract : Address}
  {T : TokenContract Address Ledger} {env : Env Address contract} {s s' : State Address Ledger}

/-! The views. -/

section Views
variable (s : State Address Ledger)

def State.index : List Address := s.developerIndex.getD []

def State.record (token address : Address) : DeveloperBalance Address :=
  ⟨address, token, s.balanceOf address token⟩

/-- The loop of `get_page` over what is left of the index, with the flag `past_cursor`, the records
collected and the last address among them. -/
def scanPage (token : Address) (cursor : Option Address) (effectiveLimit : ℕ) :
    Bool → List (DeveloperBalance Address) → Option Address → List Address →
      List (DeveloperBalance Address) × Option Address
  | _, result, lastAddress, [] => (result, lastAddress)
  | false, result, lastAddress, address :: addresses =>
    scanPage token cursor effectiveLimit (decide (cursor = some address)) result lastAddress
      addresses
  | true, result, _, address :: addresses =>
    let result := result ++ [s.record token address]
    if effectiveLimit ≤ result.length then (result, some address)
    else scanPage token cursor effectiveLimit true result (some address) addresses

def getPage (index : List Address) (cursor : Option Address) (limit : ℕ) (usdcToken : Address) :
    List (DeveloperBalance Address) × Option Address :=
  if limit = 0 then ([], none)
  else
    let effectiveLimit := min limit MAX_DEVELOPER_BALANCES_PAGE_SIZE
    let (result, lastAddress) :=
      scanPage s usdcToken cursor effectiveLimit cursor.isNone [] none index
    (result, if effectiveLimit ≤ result.length then lastAddress else none)

end Views

def getAllDeveloperBalances (env : Env Address contract) (caller token : Address) :
    Tx Address Ledger (List (DeveloperBalance Address)) := do
  requireAdmin env caller
  let s ← Call.load
  pure (s.index.map (s.record token))

def getDeveloperBalancesCursor (env : Env Address contract) (caller : Address)
    (cursor : Option Address) (limit : ℕ) (token : Address) :
    Tx Address Ledger (List (DeveloperBalance Address) × Option Address) := do
  requireAdmin env caller
  let s ← Call.load
  pure (getPage s s.index cursor limit token)

theorem run_getAllDeveloperBalances_eq_ok {caller token : Address}
    {balances : List (DeveloperBalance Address)} :
    (getAllDeveloperBalances env caller token).run s = .ok balances s' ↔
      s.ByAdmin env caller ∧ s.index.map (s.record token) = balances ∧ s = s' := by
  simp [getAllDeveloperBalances, and_comm]

theorem run_getDeveloperBalancesCursor_eq_ok {caller token : Address} {cursor : Option Address}
    {limit : ℕ} {result : List (DeveloperBalance Address) × Option Address} :
    (getDeveloperBalancesCursor env caller cursor limit token).run s = .ok result s' ↔
      s.ByAdmin env caller ∧ getPage s s.index cursor limit token = result ∧ s = s' := by
  simp [getDeveloperBalancesCursor, and_comm]

/-! A page of a sorted index. -/

theorem scanPage_true {token : Address} {cursor last : Option Address} {n : ℕ}
    {result : List (DeveloperBalance Address)} {addresses : List Address}
    (hn : result.length < n) :
    scanPage s token cursor n true result last addresses =
      (result ++ (addresses.take (n - result.length)).map (s.record token),
        (addresses.take (n - result.length)).getLast?.or last) := by
  induction addresses generalizing result last with
  | nil => simp [scanPage]
  | cons address addresses ih =>
    have hlength : (result ++ [s.record token address]).length = result.length + 1 := by simp
    simp only [scanPage, hlength]
    split_ifs with hfull
    · have hone : n - result.length = 1 := by omega
      simp [hone]
    · obtain ⟨k, hk⟩ : ∃ k, n - result.length = k + 1 := ⟨n - result.length - 1, by omega⟩
      have hrest : n - (result.length + 1) = k := by omega
      rw [ih (by rw [hlength]; omega), hlength, hrest, hk, List.take_succ_cons]
      simp [List.getLast?_cons, Option.or_some]

theorem scanPage_false {token c : Address} {last : Option Address} {n : ℕ}
    {result : List (DeveloperBalance Address)} {addresses : List Address} :
    scanPage s token (some c) n false result last addresses =
      scanPage s token (some c) n true result last (Paging.after c addresses) := by
  induction addresses with
  | nil => simp [scanPage, Paging.after]
  | cons address addresses ih =>
    by_cases hc : c = address
    · simp [scanPage, Paging.after, hc]
    · simp [scanPage, Paging.after, hc, ih]

theorem getPage_eq {token : Address} {cursor : Option Address} {limit : ℕ} {index : List Address}
    (hs : index.SortedLT) (hcursor : ∀ c ∈ cursor, c ∈ index) (hlimit : 0 < limit) :
    let n := min limit MAX_DEVELOPER_BALANCES_PAGE_SIZE
    let addresses := Paging.page n cursor index
    getPage s index cursor limit token =
      (addresses.map (s.record token), Paging.next n addresses) := by
  intro n addresses
  have hn : ([] : List (DeveloperBalance Address)).length < n := lt_min hlimit (Nat.succ_pos 99)
  have hscan : scanPage s token cursor n cursor.isNone [] none index =
      (addresses.map (s.record token), addresses.getLast?) := by
    cases cursor with
    | none =>
      rw [Option.isNone_none, scanPage_true hn]
      simp [addresses, Paging.page, Paging.above]
    | some c =>
      rw [Option.isNone_some, scanPage_false, scanPage_true hn,
        Paging.after_eq_above hs (hcursor c rfl)]
      simp [addresses, Paging.page]
  rw [getPage, if_neg hlimit.ne']
  simp only [n] at hscan
  simp only [hscan, List.length_map]
  rfl

/-! The index represents the developers with a balance. -/

theorem sortedInsert_of_notMem {index : List Address} {addr : Address} (h : addr ∉ index) :
    sortedInsert index addr = index.orderedInsert (· < ·) addr := by
  rw [sortedInsert, if_neg h, Paging.insertIdx_findIdx]

theorem mem_sortedInsert {index : List Address} {addr d : Address} :
    d ∈ sortedInsert index addr ↔ d = addr ∨ d ∈ index := by
  by_cases h : addr ∈ index
  · rw [sortedInsert, if_pos h]
    refine ⟨Or.inr, fun hd => ?_⟩
    rcases hd with rfl | hd
    · exact h
    · exact hd
  · rw [sortedInsert_of_notMem h, List.mem_orderedInsert]

theorem sorted_sortedInsert {index : List Address} (hs : index.SortedLT) (addr : Address) :
    (sortedInsert index addr).SortedLT := by
  by_cases h : addr ∈ index
  · rw [sortedInsert, if_pos h]
    exact hs
  · rw [sortedInsert_of_notMem h]
    exact Paging.sorted_orderedInsert hs h

def Covers (index : List Address) (balances : Store (Address × Address) I128) : Prop :=
  ∀ d t, ((balances (d, t)).getD 0).val ≠ 0 → d ∈ index

omit [LinearOrder Address] in
theorem Covers.mono {index index' : List Address} {balances : Store (Address × Address) I128}
    (h : Covers index balances) (hsub : index ⊆ index') : Covers index' balances :=
  fun d t hne => hsub (h d t hne)

theorem Covers.set {index : List Address} {balances : Store (Address × Address) I128}
    {d : Address} (h : Covers index balances) (hd : d ∈ index) (t : Address) (balance : I128) :
    Covers index (balances.set (d, t) balance) := by
  intro d' t' hne
  rw [Store.set_apply] at hne
  split_ifs at hne with hk
  · rw [(Prod.mk.inj hk).1]
    exact hd
  · exact h d' t' hne

structure Indexed (s : State Address Ledger) : Prop where
  sorted : s.index.SortedLT
  covers : Covers s.index s.developerBalance

def IndexKept (s s' : State Address Ledger) : Prop := Indexed s' ∧ s.index ⊆ s'.index

theorem indexKept_credited (hs : Indexed s) (developer token : Address) (newBalance : I128) :
    IndexKept s (s.credited developer token newBalance) := by
  have hsub : s.index ⊆ sortedInsert s.index developer := fun d hd => mem_sortedInsert.2 (.inr hd)
  refine ⟨⟨sorted_sortedInsert hs.sorted developer, ?_⟩, hsub⟩
  exact (hs.covers.mono hsub).set (mem_sortedInsert.2 (.inl rfl)) token newBalance

theorem indexKept_creditItems {token : Address} {items : List (Address × I128)} {u : Unit}
    (h : (forM items (creditItem token) : Tx Address Ledger Unit).run s = .ok u s')
    (hs : Indexed s) : IndexKept s s' := by
  refine Call.forM_invariant (P := IndexKept s) h ⟨hs, List.Subset.refl _⟩ ?_
  intro item _ t t' hkept hitem
  obtain ⟨ht, hsub⟩ := hkept
  obtain ⟨newBalance, -, rfl⟩ := run_creditItem_eq_ok.1 hitem
  obtain ⟨⟨hsorted, hcovers⟩, hsub'⟩ := indexKept_credited ht item.1 token newBalance
  exact ⟨⟨hsorted, hcovers⟩, List.Subset.trans hsub hsub'⟩

theorem indexKept_withdrawn {developer recipient usdc : Address} {amount newBalance : I128}
    {ledger : Ledger} (hs : Indexed s)
    (h : Withdrawal T env s developer amount recipient usdc newBalance ledger) :
    IndexKept s
      (s.withdrawn env.timestamp developer recipient usdc amount newBalance ledger) := by
  have hmem : developer ∈ s.index :=
    hs.covers developer usdc (h.positive.trans_le h.covered).ne'
  exact ⟨⟨hs.sorted, hs.covers.set hmem usdc newBalance⟩, List.Subset.refl _⟩

theorem indexKept_settled {settlements : List (SettleInput Address)}
    {outcomes : List SettleOutcome} (hs : Indexed s)
    (h : Settled T env s settlements outcomes s') : IndexKept s s' := by
  induction h with
  | nil => exact ⟨hs, List.Subset.refl _⟩
  | success item _ ih =>
    obtain ⟨usdc, newBalance, ledger, hw, rfl⟩ := run_withdrawDeveloperBalance_eq_ok.1 item
    obtain ⟨hs₁, hsub⟩ := indexKept_withdrawn hs hw
    obtain ⟨hs₂, hrest⟩ := ih hs₁
    exact ⟨hs₂, List.Subset.trans hsub hrest⟩
  | failure _ _ ih => exact ih hs

theorem indexKept_of_books (hs : Indexed s) (hindex : s'.index = s.index)
    (hbooks : books s' = books s) : IndexKept s s' := by
  have hcovers : Covers s.index s'.developerBalance := by
    intro d t hne
    have hbalance : ((s'.developerBalance (d, t)).getD 0).val =
        ((s.developerBalance (d, t)).getD 0).val := congrFun hbooks (.developer d t)
    rw [hbalance] at hne
    exact hs.covers d t hne
  rw [← hindex] at hcovers
  refine ⟨⟨?_, hcovers⟩, ?_⟩
  · rw [hindex]
    exact hs.sorted
  · rw [hindex]
    exact List.Subset.refl _

theorem indexKept_of_effect {op : Op Address} {r : Ret} (hw : WellFormed s) (hs : Indexed s)
    (h : Effect T env s op r s') : IndexKept s s' := by
  have hbooks := books_of_effect hw h
  cases h with
  | receiveDeveloper accepted unseen total =>
    obtain ⟨⟨hsorted, hcovers⟩, hsub⟩ := indexKept_credited hs _ _ _
    exact ⟨⟨hsorted, hcovers⟩, hsub⟩
  | forceCredit admin positive total =>
    obtain ⟨⟨hsorted, hcovers⟩, hsub⟩ := indexKept_credited hs _ _ _
    exact ⟨⟨hsorted, hcovers⟩, hsub⟩
  | receiveBatch authorized accepted size positive distinct unseen credits =>
    have hkept := indexKept_creditItems credits ⟨hs.sorted, hs.covers⟩
    exact hkept
  | @executeBalanceMigration _ «from» usdcToken migration newSource _ admin pending expired
      configured source covered destination =>
    have hsub : s.index ⊆ sortedInsert s.index migration.to :=
      fun d hd => mem_sortedInsert.2 (.inr hd)
    have hpos := (hw.migrations _ _ pending).2
    have hfrom : «from» ∈ s.index := hs.covers «from» usdcToken fun hzero => by
      rw [source] at covered
      simp only [State.balanceOf, hzero] at covered
      omega
    have hdebit := hs.covers.set hfrom usdcToken newSource
    exact ⟨⟨sorted_sortedInsert hs.sorted _,
      (hdebit.mono hsub).set (mem_sortedInsert.2 (.inl rfl)) usdcToken _⟩, hsub⟩
  | withdraw withdrawal => exact indexKept_withdrawn hs withdrawal
  | settle size once settled => exact indexKept_settled hs settled
  | migrateDeveloperBalance | migrateSingleDevV2 | migrateAll | migratePage | migrateLastPage =>
    exact indexKept_of_books hs rfl (hbooks.trans (Journal.post_nil _))
  | _ => exact ⟨⟨hs.sorted, hs.covers⟩, List.Subset.refl _⟩

theorem indexed_deployed (ledger : Ledger) :
    Indexed (State.deployed ledger : State Address Ledger) where
  sorted := List.Pairwise.nil.sortedLT
  covers := fun _ _ hne => absurd rfl hne

theorem indexKept_run (hw : WellFormed s) (hs : Indexed s)
    (inputs : List (Input Address Ledger contract)) :
    WellFormed ((settlement T contract).run s inputs) ∧
      IndexKept s ((settlement T contract).run s inputs) := by
  refine Machine.invariant (P := fun t => WellFormed t ∧ IndexKept s t)
    ⟨hw, hs, List.Subset.refl _⟩ ?_ inputs
  intro t input r t' hkept hstep
  obtain ⟨hwt, ht, hsub⟩ := hkept
  obtain ⟨hwt', -⟩ := books_of_step hwt hstep
  obtain ⟨env, op, rfl, heff⟩ | ⟨ledger, rfl, rfl, rfl⟩ := effect_of_step hstep
  · obtain ⟨ht', hsub'⟩ := indexKept_of_effect hwt ht heff
    exact ⟨hwt', ht', List.Subset.trans hsub hsub'⟩
  · exact ⟨hwt', ⟨ht.sorted, ht.covers⟩, hsub⟩

theorem indexed_run (T : TokenContract Address Ledger) (ledger : Ledger)
    (inputs : List (Input Address Ledger contract)) :
    WellFormed ((settlement T contract).run (.deployed ledger) inputs) ∧
      Indexed ((settlement T contract).run (.deployed ledger) inputs) := by
  obtain ⟨hw, hs, -⟩ :=
    indexKept_run (T := T) (wellFormed_deployed ledger) (indexed_deployed ledger) inputs
  exact ⟨hw, hs⟩

omit [LinearOrder Address] in
theorem Covers.finite_support {index : List Address} {balances : Store (Address × Address) I128}
    (h : Covers index balances) (t : Address) :
    (Function.support fun d => ((balances (d, t)).getD 0).val).Finite :=
  index.finite_toSet.subset fun d hd => h d t hd

theorem Covers.sum_eq {index : List Address} {balances : Store (Address × Address) I128}
    (h : Covers index balances) (hs : index.SortedLT) (t : Address) :
    (index.map fun d => ((balances (d, t)).getD 0).val).sum =
      ∑ᶠ d, ((balances (d, t)).getD 0).val := by
  rw [finsum_eq_sum_of_support_subset (s := index.toFinset),
    List.sum_toFinset _ hs.nodup]
  intro d hd
  simpa using h d t hd

/-- In every reachable state the index is strictly increasing and names every developer with a
balance in any token; the listing the admin gets shows each of them once, and its balances sum to
what is owed in the token. -/
theorem developerIndex_represents (T : TokenContract Address Ledger) (ledger : Ledger)
    (inputs : List (Input Address Ledger contract)) :
    let s := (settlement T contract).run (.deployed ledger) inputs
    s.index.SortedLT ∧ (∀ d token, (s.balanceOf d token).val ≠ 0 → d ∈ s.index) ∧
    ∀ (env : Env Address contract) caller token, s.ByAdmin env caller → ∃ balances,
      (getAllDeveloperBalances env caller token).run s = .ok balances s ∧
      (balances.map fun b => b.address).Nodup ∧
      (∀ d, (s.balanceOf d token).val ≠ 0 →
        balances.filter (fun b => b.address = d) = [⟨d, token, s.balanceOf d token⟩]) ∧
      (Function.support fun d => (s.balanceOf d token).val).Finite ∧
      (balances.map fun b => b.balance.val).sum = ∑ᶠ d, (s.balanceOf d token).val := by
  intro s
  obtain ⟨-, hs⟩ := indexed_run T ledger inputs
  refine ⟨hs.sorted, hs.covers, fun env caller token hadmin => ?_⟩
  refine ⟨s.index.map (s.record token), run_getAllDeveloperBalances_eq_ok.2 ⟨hadmin, rfl, rfl⟩,
    ?_, fun d hd => ?_, hs.covers.finite_support token, ?_⟩
  · rw [List.map_map]
    simpa [Function.comp_def, State.record] using hs.sorted.nodup
  · have hone : s.index.filter (· = d) = [d] := by
      rw [List.filter_eq, List.count_eq_one_of_mem hs.sorted.nodup (hs.covers d token hd)]
      rfl
    have hmap := congrArg (List.map (s.record token)) hone
    rw [List.filter_map]
    exact hmap
  · rw [List.map_map]
    exact hs.covers.sum_eq hs.sorted token

/-! Walks by cursor. -/

structure CursorCall (Address Ledger : Type) (contract : Address) where
  between : List (Input Address Ledger contract)
  limit : ℕ
  records : List (DeveloperBalance Address)

variable (T) in
/-- The calls of `get_developer_balances_cursor` from state `s` on, each with the cursor that the
one before returned, up to the first that returns none. -/
inductive CursorWalk (token : Address) :
    State Address Ledger → Option Address → List (CursorCall Address Ledger contract) → Prop
  | last {s s' : State Address Ledger} {cursor : Option Address}
      {call : CursorCall Address Ledger contract} {env : Env Address contract} {caller : Address}
      (positive : 0 < call.limit)
      (returns : (getDeveloperBalancesCursor env caller cursor call.limit token).run
        ((settlement T contract).run s call.between) = .ok (call.records, none) s') :
      CursorWalk token s cursor [call]
  | next {s s' : State Address Ledger} {cursor : Option Address} {c : Address}
      {call : CursorCall Address Ledger contract} {env : Env Address contract} {caller : Address}
      {calls : List (CursorCall Address Ledger contract)} (positive : 0 < call.limit)
      (returns : (getDeveloperBalancesCursor env caller cursor call.limit token).run
        ((settlement T contract).run s call.between) = .ok (call.records, some c) s')
      (rest : CursorWalk token s' (some c) calls) :
      CursorWalk token s cursor (call :: calls)

/-- The pages of one walk with nothing in between, unless it takes more than `n` calls. -/
def walkCursor (env : Env Address contract) (caller : Address) (limit : ℕ) (token : Address) :
    ℕ → Option Address → Tx Address Ledger (Option (List (List (DeveloperBalance Address))))
  | 0, _ => pure none
  | n + 1, cursor => do
    let (records, nextCursor) ← getDeveloperBalancesCursor env caller cursor limit token
    match nextCursor with
    | none => pure (some [records])
    | some c => do
      let pages ← walkCursor env caller limit token n (some c)
      pure (pages.map (records :: ·))

section
variable {caller token : Address} {cursor : Option Address} {limit : ℕ}
  {records : List (DeveloperBalance Address)}

theorem pageSize_pos (hlimit : 0 < limit) : 0 < min limit MAX_DEVELOPER_BALANCES_PAGE_SIZE :=
  lt_min hlimit (Nat.succ_pos 99)

theorem cursor_page (hs : Indexed s) (hcursor : ∀ c ∈ cursor, c ∈ s.index) (hlimit : 0 < limit)
    {nextCursor : Option Address}
    (h : (getDeveloperBalancesCursor env caller cursor limit token).run s =
      .ok (records, nextCursor) s') :
    let n := min limit MAX_DEVELOPER_BALANCES_PAGE_SIZE
    let addresses := Paging.page n cursor s.index
    s = s' ∧ addresses.map (s.record token) = records ∧
      Paging.next n addresses = nextCursor := by
  intro n addresses
  obtain ⟨-, hpage, hstate⟩ := run_getDeveloperBalancesCursor_eq_ok.1 h
  rw [getPage_eq hs.sorted hcursor hlimit] at hpage
  obtain ⟨hrecords, hnext⟩ := Prod.mk.inj hpage
  exact ⟨hstate, hrecords, hnext⟩

end

omit [LinearOrder Address] in
theorem addresses_record (s : State Address Ledger) (token : Address) (addresses : List Address) :
    (addresses.map (s.record token)).map DeveloperBalance.address = addresses := by
  rw [List.map_map]
  exact List.map_id addresses

theorem walk_of_cursorWalk {token : Address} {cursor : Option Address}
    {calls : List (CursorCall Address Ledger contract)} (h : CursorWalk T token s cursor calls)
    (hw : WellFormed s) (hs : Indexed s) (hcursor : ∀ c ∈ cursor, c ∈ s.index) :
    Paging.Walk s.index cursor
        (calls.map fun call => call.records.map DeveloperBalance.address) ∧
      ∀ call ∈ calls,
        call.records.length ≤ min call.limit MAX_DEVELOPER_BALANCES_PAGE_SIZE := by
  induction h with
  | last positive returns =>
    obtain ⟨-, ht, hsub⟩ := indexKept_run (T := T) hw hs _
    obtain ⟨-, hrecords, hnone⟩ :=
      cursor_page ht (fun c hc => hsub (hcursor c hc)) positive returns
    have hshort := (Paging.next_eq_none (pageSize_pos positive)).1 hnone
    rw [List.map_singleton, List.forall_mem_singleton, ← hrecords, addresses_record,
      List.length_map]
    exact ⟨.last hsub ht.sorted hshort, hshort.le⟩
  | @next s s' cursor c call env caller calls positive returns rest ih =>
    obtain ⟨hwt, ht, hsub⟩ := indexKept_run (T := T) hw hs call.between
    obtain ⟨rfl, hrecords, hsome⟩ :=
      cursor_page ht (fun c hc => hsub (hcursor c hc)) positive returns
    obtain ⟨-, hlast⟩ := Paging.next_eq_some.1 hsome
    obtain ⟨hwalk, hsizes⟩ := ih hwt ht fun c' hc' => Paging.mem_of_next (hsome.trans hc')
    rw [List.map_cons, List.forall_mem_cons, ← hrecords, addresses_record, List.length_map]
    exact ⟨.more hsub ht.sorted hlast hwalk, Paging.length_page_le .., hsizes⟩

theorem records_of_cursorWalk {token : Address} {cursor : Option Address}
    {calls : List (CursorCall Address Ledger contract)} (h : CursorWalk T token s cursor calls)
    (hs : Indexed s) (hcursor : ∀ c ∈ cursor, c ∈ s.index)
    (hidle : ∀ call ∈ calls, call.between = []) :
    ∀ r ∈ calls.flatMap CursorCall.records,
      r.address ∈ s.index ∧ s.record token r.address = r := by
  have hpage {n : ℕ} {cursor : Option Address} {records : List (DeveloperBalance Address)}
      (hrecords : (Paging.page n cursor s.index).map (s.record token) = records) :
      ∀ r ∈ records, r.address ∈ s.index ∧ s.record token r.address = r := by
    intro r hr
    rw [← hrecords] at hr
    obtain ⟨d, hd, rfl⟩ := List.mem_map.1 hr
    exact ⟨(Paging.mem_above.1 (List.mem_of_mem_take hd)).1, rfl⟩
  induction h with
  | last positive returns =>
    rw [List.forall_mem_singleton] at hidle
    rw [hidle] at returns
    obtain ⟨-, hrecords, -⟩ := cursor_page hs hcursor positive returns
    rw [List.flatMap_singleton]
    exact hpage hrecords
  | @next s s' cursor c call env caller calls positive returns rest ih =>
    obtain ⟨hnow, hidle⟩ := List.forall_mem_cons.1 hidle
    rw [hnow] at returns
    obtain ⟨rfl, hrecords, hsome⟩ := cursor_page hs hcursor positive returns
    have hrest := ih hs (fun c' hc' => Paging.mem_of_next (hsome.trans hc')) hidle hpage
    intro r hr
    rw [List.flatMap_cons] at hr
    rcases List.mem_append.1 hr with hr | hr
    · exact hpage hrecords r hr
    · exact hrest r hr

theorem run_walkCursor {caller token : Address} {limit : ℕ} (hs : Indexed s)
    (hadmin : s.ByAdmin env caller) (hlimit : 0 < limit) (n : ℕ) {cursor : Option Address}
    (hcursor : ∀ c ∈ cursor, c ∈ s.index) :
    (walkCursor env caller limit token n cursor).run s =
      .ok ((Paging.collect (min limit MAX_DEVELOPER_BALANCES_PAGE_SIZE) s.index n cursor).map
        (List.map (List.map (s.record token)))) s := by
  induction n generalizing cursor with
  | zero => rfl
  | succ n ih =>
    simp only [walkCursor, Call.run_bind_eq_ok, run_getDeveloperBalancesCursor_eq_ok]
    refine ⟨_, s, ⟨hadmin, getPage_eq hs.sorted hcursor hlimit, rfl⟩, ?_⟩
    rcases hnext : Paging.next (min limit MAX_DEVELOPER_BALANCES_PAGE_SIZE)
      (Paging.page (min limit MAX_DEVELOPER_BALANCES_PAGE_SIZE) cursor s.index) with _ | c
    · simp only [Paging.collect, hnext]
      rfl
    · have hrest := ih fun c' hc' => Paging.mem_of_next (hnext.trans hc')
      simp only [Paging.collect, hnext]
      refine Call.run_bind_eq_ok.2 ⟨_, s, hrest, ?_⟩
      simp [Function.comp_def]

theorem records_eq_listing {token : Address} {calls : List (CursorCall Address Ledger contract)}
    (h : CursorWalk T token s none calls) (hs : Indexed s)
    (hidle : ∀ call ∈ calls, call.between = [])
    (hsorted : ((calls.flatMap CursorCall.records).map DeveloperBalance.address).SortedLT)
    (hcomplete : s.index ⊆ (calls.flatMap CursorCall.records).map DeveloperBalance.address) :
    calls.flatMap CursorCall.records = s.index.map (s.record token) := by
  have hrecords := records_of_cursorWalk h hs (fun c hc => absurd hc (by simp)) hidle
  have hindex : (calls.flatMap CursorCall.records).map DeveloperBalance.address = s.index := by
    apply hsorted.eq_of_mem_iff hs.sorted
    intro d
    constructor
    · intro hd
      obtain ⟨r, hr, rfl⟩ := List.mem_map.1 hd
      exact (hrecords r hr).1
    · exact fun hd => hcomplete hd
  rw [← hindex, List.map_map]
  have hread : ∀ r ∈ calls.flatMap CursorCall.records,
      (s.record token ∘ DeveloperBalance.address) r = id r := fun r hr => (hrecords r hr).2
  rw [List.map_congr_left hread, List.map_id]

theorem exists_run_walkCursor {caller token : Address} {limit : ℕ} (hs : Indexed s)
    (hadmin : s.ByAdmin env caller) (hlimit : 0 < limit) :
    let n := s.index.length / min limit MAX_DEVELOPER_BALANCES_PAGE_SIZE + 1
    ∃ pages, (walkCursor env caller limit token n none).run s = .ok (some pages) s ∧
      pages.length ≤ n ∧ pages.flatten = s.index.map (s.record token) := by
  intro n
  obtain ⟨pages, hpages, hcount, hflatten⟩ :=
    Paging.exists_collect hs.sorted (pageSize_pos hlimit)
      (Nat.lt_succ_self ((Paging.above none s.index).length / _))
  have hnone : ∀ c ∈ (none : Option Address), c ∈ s.index := fun c hc => absurd hc (by simp)
  refine ⟨pages.map (List.map (s.record token)), ?_, ?_, ?_⟩
  · rw [run_walkCursor hs hadmin hlimit n hnone]
    exact congrArg (fun o => Outcome.ok (o.map (List.map (List.map (s.record token)))) s) hpages
  · rw [List.length_map]
    exact hcount
  · rw [← List.map_flatten, hflatten]
    rfl

/-- In a completed walk by cursor, whatever happens between its calls, the addresses come out
strictly increasing, everyone in the index at the start is among them and nobody twice, and no page
exceeds its size. With nothing in between the walk shows what the full listing shows, and at a
constant limit it takes at most one call more than there are full pages. -/
theorem cursorWalk_complete (T : TokenContract Address Ledger) (ledger : Ledger)
    (inputs : List (Input Address Ledger contract)) (token : Address) :
    let s := (settlement T contract).run (.deployed ledger) inputs
    (∀ calls : List (CursorCall Address Ledger contract), CursorWalk T token s none calls →
      let addresses := (calls.flatMap CursorCall.records).map DeveloperBalance.address
      addresses.SortedLT ∧ (∀ d ∈ s.index, addresses.count d = 1) ∧
      (∀ d, addresses.count d ≤ 1) ∧
      (∀ call ∈ calls, call.records.length ≤ min call.limit 100) ∧
      ((∀ call ∈ calls, call.between = []) →
        ∀ (env : Env Address contract) caller balances s',
          (getAllDeveloperBalances env caller token).run s = .ok balances s' →
          calls.flatMap CursorCall.records = balances)) ∧
    ∀ (env : Env Address contract) caller limit, s.ByAdmin env caller → 0 < limit →
      ∃ pages, (walkCursor env caller limit token (s.index.length / min limit 100 + 1) none).run s =
          .ok (some pages) s ∧
        pages.length ≤ s.index.length / min limit 100 + 1 ∧
        (getAllDeveloperBalances env caller token).run s = .ok pages.flatten s := by
  intro s
  obtain ⟨hw, hs⟩ := indexed_run T ledger inputs
  have hnone : ∀ c ∈ (none : Option Address), c ∈ s.index := fun c hc => absurd hc (by simp)
  constructor
  · intro calls h addresses
    obtain ⟨hwalk, hsizes⟩ := walk_of_cursorWalk h hw hs hnone
    obtain ⟨hsorted, -, hcomplete⟩ := hwalk.complete
    have haddresses : (calls.map fun call =>
        call.records.map DeveloperBalance.address).flatten = addresses := by
      simp only [addresses, List.flatMap_def, List.map_flatten, List.map_map]
      rfl
    rw [haddresses] at hsorted hcomplete
    have honce : ∀ d ∈ s.index, addresses.count d = 1 :=
      fun d hd => List.count_eq_one_of_mem hsorted.nodup (hcomplete hd)
    have hnotTwice : ∀ d, addresses.count d ≤ 1 := List.nodup_iff_count_le_one.1 hsorted.nodup
    refine ⟨hsorted, honce, hnotTwice, hsizes, ?_⟩
    intro hidle env caller balances s' hall
    obtain ⟨-, rfl, -⟩ := run_getAllDeveloperBalances_eq_ok.1 hall
    exact records_eq_listing h hs hidle hsorted hcomplete
  · intro env caller limit hadmin hlimit
    obtain ⟨pages, hrun, hcount, hflatten⟩ := exists_run_walkCursor hs hadmin hlimit
    have hall := run_getAllDeveloperBalances_eq_ok.2 ⟨hadmin, hflatten.symm, rfl⟩
    exact ⟨pages, hrun, hcount, hall⟩

end Callora.Settlement
