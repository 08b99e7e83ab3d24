import Callora.Settlement.Batch
import Callora.Settlement.Index

/-! The listing by offset. A page is a slice of the full listing whatever its bounds, and the pages
at the multiples of the page size put together are the listing. -/

namespace Callora.Settlement
open Library

variable {Address Ledger : Type} [LinearOrder Address] {contract : Address}
  {env : Env Address contract} {s s' : State Address Ledger}

/-- The loop of `get_developer_balances_page`, with the position `cursor` of the head of what is
left of the index and the records collected. -/
def collectPage (s : State Address Ledger) (token : Address) (start stop : ℕ) :
    ℕ → List (DeveloperBalance Address) → List Address → List (DeveloperBalance Address)
  | _, result, [] => result
  | cursor, result, address :: addresses =>
    if stop ≤ cursor then result
    else
      let result := if start ≤ cursor then result ++ [s.record token address] else result
      collectPage s token start stop (cursor + 1) result addresses

def getDeveloperBalancesPage (env : Env Address contract) (caller : Address) (start limit : ℕ)
    (token : Address) : Tx Address Ledger (List (DeveloperBalance Address)) := do
  requireAdmin env caller
  let s ← Call.load
  let index := s.index
  if limit = 0 ∨ index.length ≤ start then pure []
  else
    let stop := min (saturatingAddU32 start (min limit MAX_DEVELOPER_BALANCES_PAGE_SIZE))
      index.length
    pure (collectPage s token start stop 0 [] index)

/-! One page. -/

def pageSlice {α : Type} (start limit : ℕ) (xs : List α) : List α :=
  (xs.take (min (start + min limit MAX_DEVELOPER_BALANCES_PAGE_SIZE) xs.length)).drop start

section
variable {α : Type} {start limit : ℕ} {xs : List α}

theorem pageSlice_eq_nil (h : limit = 0 ∨ xs.length ≤ start) : pageSlice start limit xs = [] := by
  unfold pageSlice
  apply List.drop_eq_nil_of_le
  rw [List.length_take]
  rcases h with hlimit | hstart
  · rw [hlimit]
    omega
  · omega

theorem pageSlice_eq_take :
    pageSlice start limit xs =
      (xs.drop start).take (min limit MAX_DEVELOPER_BALANCES_PAGE_SIZE) := by
  have htake : xs.take (min (start + min limit MAX_DEVELOPER_BALANCES_PAGE_SIZE) xs.length) =
      xs.take (start + min limit MAX_DEVELOPER_BALANCES_PAGE_SIZE) := List.take_eq_take_min.symm
  rw [pageSlice, htake, List.drop_take, Nat.add_sub_cancel_left]

theorem pageSlice_map {β : Type} (f : α → β) :
    pageSlice start limit (xs.map f) = (pageSlice start limit xs).map f := by
  rw [pageSlice_eq_take, pageSlice_eq_take, List.map_take, List.map_drop]

end

omit [LinearOrder Address] in
theorem collectPage_eq {token : Address} {start stop cursor : ℕ}
    {result : List (DeveloperBalance Address)} {addresses : List Address} :
    collectPage s token start stop cursor result addresses =
      result ++ ((addresses.take (stop - cursor)).drop (start - cursor)).map (s.record token) := by
  induction addresses generalizing cursor result with
  | nil => simp [collectPage]
  | cons address addresses ih =>
    rw [collectPage]
    split_ifs with hstop hstart
    · have hnone : stop - cursor = 0 := by omega
      rw [hnone, List.take_zero, List.drop_nil, List.map_nil, List.append_nil]
    · have hmore : stop - cursor = stop - (cursor + 1) + 1 := by omega
      have hhere : start - cursor = 0 := by omega
      have hnext : start - (cursor + 1) = 0 := by omega
      rw [ih, hmore, hhere, hnext, List.take_succ_cons, List.drop_zero, List.drop_zero,
        List.map_cons, List.append_assoc, List.singleton_append]
    · have hmore : stop - cursor = stop - (cursor + 1) + 1 := by omega
      have hskip : start - cursor = start - (cursor + 1) + 1 := by omega
      rw [ih, hmore, hskip, List.take_succ_cons, List.drop_succ_cons]

theorem run_getDeveloperBalancesPage {caller token : Address} {start limit : ℕ}
    (hlength : s.index.length ≤ U32_MAX) :
    (getDeveloperBalancesPage env caller start limit token).run s =
      (do
        let listing ← getAllDeveloperBalances env caller token
        pure (pageSlice start limit listing) : Tx Address Ledger _).run s := by
  rw [getAllDeveloperBalances, Call.run_bind_assoc, getDeveloperBalancesPage]
  apply Call.run_bind_congr
  intro u s₁ hadmin
  obtain ⟨-, rfl⟩ := run_requireAdmin_eq_ok.1 hadmin
  have hall : ((do
      let s ← Call.load
      pure (s.index.map (s.record token))) >>= fun listing =>
        pure (pageSlice start limit listing) : Tx Address Ledger _).run s =
      .ok (pageSlice start limit (s.index.map (s.record token))) s := rfl
  rw [hall, Call.run_bind_eq_ok]
  refine ⟨s, s, rfl, ?_⟩
  rw [Call.run_ite_eq_ok, Call.run_pure_eq_ok, Call.run_pure_eq_ok]
  by_cases hempty : limit = 0 ∨ s.index.length ≤ start
  · have hnil : pageSlice start limit (s.index.map (s.record token)) = [] := by
      apply pageSlice_eq_nil
      rw [List.length_map]
      exact hempty
    exact .inl ⟨hempty, hnil.symm, rfl⟩
  · -- the sum saturates above the length of the index only
    have hstop : min (saturatingAddU32 start (min limit MAX_DEVELOPER_BALANCES_PAGE_SIZE))
        s.index.length =
        min (start + min limit MAX_DEVELOPER_BALANCES_PAGE_SIZE) s.index.length := by
      unfold saturatingAddU32
      omega
    refine .inr ⟨hempty, ?_, rfl⟩
    rw [collectPage_eq, hstop, List.nil_append, Nat.sub_zero, Nat.sub_zero, pageSlice_map,
      pageSlice]

theorem run_getDeveloperBalancesPage_eq_ok {caller token : Address} {start limit : ℕ}
    {page : List (DeveloperBalance Address)} (hlength : s.index.length ≤ U32_MAX) :
    (getDeveloperBalancesPage env caller start limit token).run s = .ok page s' ↔
      s.ByAdmin env caller ∧ pageSlice start limit (s.index.map (s.record token)) = page ∧
        s = s' := by
  rw [run_getDeveloperBalancesPage hlength, Call.run_bind_eq_ok]
  constructor
  · rintro ⟨listing, s₁, hall, hpage⟩
    obtain ⟨hadmin, rfl, rfl⟩ := run_getAllDeveloperBalances_eq_ok.1 hall
    obtain ⟨hpage, hstate⟩ := Call.run_pure_eq_ok.1 hpage
    exact ⟨hadmin, hpage, hstate⟩
  · rintro ⟨hadmin, hpage, hstate⟩
    exact ⟨_, s, run_getAllDeveloperBalances_eq_ok.2 ⟨hadmin, rfl, rfl⟩,
      Call.run_pure_eq_ok.2 ⟨hpage, hstate⟩⟩

/-! All pages. -/

/-- The pages at `start` and every page size after it, put together, each called in an environment
and by a caller of its own. -/
def walkOffsets (limit : ℕ) (token : Address) :
    ℕ → List (Env Address contract × Address) →
      Tx Address Ledger (List (DeveloperBalance Address))
  | _, [] => pure []
  | start, (env, caller) :: calls => do
    let page ← getDeveloperBalancesPage env caller start limit token
    let rest ← walkOffsets limit token (start + min limit MAX_DEVELOPER_BALANCES_PAGE_SIZE) calls
    pure (page ++ rest)

theorem run_walkOffsets {token : Address} {limit start : ℕ}
    {calls : List (Env Address contract × Address)} (hlength : s.index.length ≤ U32_MAX)
    (hadmin : ∀ call ∈ calls, s.ByAdmin call.1 call.2)
    (henough : s.index.length ≤
      start + calls.length * min limit MAX_DEVELOPER_BALANCES_PAGE_SIZE) :
    (walkOffsets limit token start calls).run s =
      .ok ((s.index.map (s.record token)).drop start) s := by
  induction calls generalizing start with
  | nil =>
    have hend : (s.index.map (s.record token)).length ≤ start := by
      rw [List.length_map]
      simpa using henough
    rw [walkOffsets, Call.run_pure_eq_ok, List.drop_eq_nil_of_le hend]
    exact ⟨rfl, rfl⟩
  | cons call calls ih =>
    obtain ⟨hnow, hlater⟩ := List.forall_mem_cons.1 hadmin
    have hstill : s.index.length ≤ start + min limit MAX_DEVELOPER_BALANCES_PAGE_SIZE +
        calls.length * min limit MAX_DEVELOPER_BALANCES_PAGE_SIZE := by
      rw [List.length_cons, Nat.succ_mul] at henough
      omega
    have hrest := ih hlater hstill
    rw [walkOffsets, Call.run_bind_eq_ok]
    refine ⟨_, s, (run_getDeveloperBalancesPage_eq_ok hlength).2 ⟨hnow, rfl, rfl⟩, ?_⟩
    rw [Call.run_bind_eq_ok]
    refine ⟨_, s, hrest, ?_⟩
    rw [Call.run_pure_eq_ok, pageSlice_eq_take, ← List.drop_drop, List.take_append_drop]
    exact ⟨rfl, rfl⟩

/-- In every state a page is the slice of the full listing that its bounds name, which is empty for
a limit of zero or a start past the end, and as many pages as reach the end are the full listing. A
vector of the host has at most `u32::MAX` elements. -/
theorem pages_are_listing (s : State Address Ledger) (token : Address)
    (hlength : s.index.length ≤ U32_MAX) :
    (∀ (env : Env Address contract) caller start limit,
      (getDeveloperBalancesPage env caller start limit token).run s =
        (do
          let listing ← getAllDeveloperBalances env caller token
          pure ((listing.take (min (start + min limit 100) listing.length)).drop start) :
            Tx Address Ledger _).run s) ∧
    (∀ (env : Env Address contract) caller start limit listing page s₁ s₂,
      (getAllDeveloperBalances env caller token).run s = .ok listing s₁ →
      (getDeveloperBalancesPage env caller start limit token).run s = .ok page s₂ →
      limit = 0 ∨ listing.length ≤ start → page = []) ∧
    ∀ (env : Env Address contract) caller limit listing s'
      (calls : List (Env Address contract × Address)),
      (getAllDeveloperBalances env caller token).run s = .ok listing s' →
      (∀ call ∈ calls, s.ByAdmin call.1 call.2) →
      listing.length ≤ calls.length * min limit 100 →
      (walkOffsets limit token 0 calls).run s = .ok listing s' := by
  refine ⟨?_, ?_, ?_⟩
  · intro env caller start limit
    exact run_getDeveloperBalancesPage hlength
  · intro env caller start limit listing page s₁ s₂ hall hpage hempty
    obtain ⟨-, hpage, -⟩ := (run_getDeveloperBalancesPage_eq_ok hlength).1 hpage
    obtain ⟨-, hlisting, -⟩ := run_getAllDeveloperBalances_eq_ok.1 hall
    rw [hlisting] at hpage
    rw [← hpage]
    exact pageSlice_eq_nil hempty
  · intro env caller limit listing s' calls hall hadmin henough
    obtain ⟨-, rfl, rfl⟩ := run_getAllDeveloperBalances_eq_ok.1 hall
    rw [List.length_map] at henough
    apply run_walkOffsets hlength hadmin
    rw [Nat.zero_add]
    exact henough

theorem pages_are_listing_two :
    let s := twoDevelopers ⟨100, by decide⟩
    let env := Env.signedBy 1 0 (by decide)
    let balances : List (DeveloperBalance ℕ) :=
      [⟨4, 3, ⟨100, by decide⟩⟩, ⟨5, 3, ⟨100, by decide⟩⟩]
    (getDeveloperBalancesPage env 1 1 U32_MAX 3).run s = .ok (balances.drop 1) s ∧
      (walkOffsets 1 3 0 [(env, 1), (env, 1)]).run s = .ok balances s := by
  intro s env balances
  obtain ⟨hslice, -, hwalk⟩ := @pages_are_listing ℕ (Balances ℕ) _ 0 s 3 (by decide)
  have hadmin : s.ByAdmin env 1 := ⟨by decide, rfl⟩
  have hall : (getAllDeveloperBalances env 1 3).run s = .ok balances s :=
    run_getAllDeveloperBalances_eq_ok.2 ⟨hadmin, rfl, rfl⟩
  constructor
  · rw [hslice env 1 1 U32_MAX, Call.run_bind_eq_ok]
    exact ⟨balances, s, hall, rfl⟩
  · apply hwalk env 1 1 balances s [(env, 1), (env, 1)] hall
    · intro call hcall
      rcases List.mem_pair.1 hcall with rfl | rfl
      · exact hadmin
      · exact hadmin
    · decide

end Callora.Settlement
