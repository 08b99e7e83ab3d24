import Callora.Library.Call
import Callora.Library.MachineInt

/-! What the contracts see of their host: the ledger clock, the addresses whose authorization a
call carries, the uploaded WASM, and the token contracts they pay with. -/

namespace Callora
open Library

abbrev I128 : Type :=
  MachineInt (-170141183460469231731687303715884105728) 170141183460469231731687303715884105727

instance : Zero I128 := ⟨⟨0, by decide⟩⟩

@[simp] theorem I128.zero_val : (0 : I128).val = 0 := rfl

def I128.max : I128 := ⟨170141183460469231731687303715884105727, by decide⟩

def U64_MAX : ℕ := 18446744073709551615

def U32_MAX : ℕ := 4294967295

def I128.ofU32 (n : UInt32) : I128 := ⟨n.toNat, by
  have hn := n.toNat_lt
  omega⟩

@[simp] theorem I128.ofU32_val (n : UInt32) : (I128.ofU32 n).val = n.toNat := rfl

def checkedAddU64 (a b : ℕ) : Option ℕ := if a + b ≤ U64_MAX then some (a + b) else none

@[simp] theorem checkedAddU64_eq_some {a b c : ℕ} :
    checkedAddU64 a b = some c ↔ a + b ≤ U64_MAX ∧ a + b = c := by
  simp [checkedAddU64]

def checkedSubU64 (a b : ℕ) : Option ℕ := if b ≤ a then some (a - b) else none

def saturatingAddU64 (a b : ℕ) : ℕ := min U64_MAX (a + b)

def checkedAddU32 (a b : ℕ) : Option ℕ := if a + b ≤ U32_MAX then some (a + b) else none

@[simp] theorem checkedAddU32_eq_some {a b c : ℕ} :
    checkedAddU32 a b = some c ↔ a + b ≤ U32_MAX ∧ a + b = c := by
  simp [checkedAddU32]

def saturatingAddU32 (a b : ℕ) : ℕ := min U32_MAX (a + b)

abbrev WasmHash : Type := BitVec 256

/-- One invocation of the contract at `contract`. No contract of this repository calls itself, so
its own address is never among the addresses that authorize. -/
structure Env (Address : Type) (contract : Address) where
  timestamp : ℕ
  signers : List Address
  contract_notMem : contract ∉ signers
  uploaded : WasmHash → Bool

def Env.signedBy (who now : ℕ) (h : 0 ≠ who) : Env ℕ 0 :=
  ⟨now, [who], by simpa using h, fun _ => true⟩

variable {Address Ledger ε σ : Type} {contract : Address}

section
variable [DecidableEq Address]

def requireAuth (env : Env Address contract) (who : Address) : Call ε σ Unit :=
  .require (who ∈ env.signers) .unauthorized

@[simp] theorem run_requireAuth_eq_ok {env : Env Address contract} {who : Address} {s s' : σ}
    {u : Unit} : (requireAuth env who : Call ε σ Unit).run s = .ok u s' ↔
      who ∈ env.signers ∧ s = s' := Call.run_require_eq_ok

@[simp] theorem run_requireAuth_eq_err {env : Env Address contract} {who : Address} {s s' : σ}
    {e : ε} : (requireAuth env who : Call ε σ Unit).run s = .err e s' ↔ False :=
  Call.run_require_eq_err

@[simp] theorem run_requireAuth_eq_trap {env : Env Address contract} {who : Address} {s : σ}
    {r : Trap ε} : (requireAuth env who : Call ε σ Unit).run s = .trap r ↔
      who ∉ env.signers ∧ .unauthorized = r := Call.run_require_eq_trap

/-- What is left to authorize with in a frame that has taken the authorization of `who`: the host
takes that of an address once. -/
def Env.spend (env : Env Address contract) (who : Address) : Env Address contract :=
  { env with
    signers := env.signers.filter (· ≠ who)
    contract_notMem := fun h => env.contract_notMem (List.mem_filter.1 h).1 }

@[simp] theorem Env.mem_signers_spend {env : Env Address contract} {a who : Address} :
    a ∈ (env.spend who).signers ↔ a ∈ env.signers ∧ a ≠ who := by
  simp [Env.spend]

end

theorem Env.ne_contract {env : Env Address contract} {who : Address} (h : who ∈ env.signers) :
    who ≠ contract := fun he => env.contract_notMem (he ▸ h)

/-- The token contracts of the ledger: `balance l t x` is what `x` holds of token `t`, and
`transfer l t x y a` is the ledger after a transfer, unless the token traps. -/
structure TokenContract (Address Ledger : Type) where
  balance : Ledger → Address → Address → ℤ
  transfer : Ledger → Address → Address → Address → ℤ → Option Ledger

/-- Tokens that move exact amounts and reject a transfer only for want of funds. -/
structure ExactToken (Address Ledger : Type) [DecidableEq Address]
    extends TokenContract Address Ledger where
  transfer_isSome : ∀ l t x y a, (transfer l t x y a).isSome ↔ 0 ≤ a ∧ a ≤ balance l t x
  balance_transfer : ∀ {l l' t x y a}, transfer l t x y a = some l' → ∀ t' z,
    balance l' t' z = balance l t' z - (if t' = t ∧ z = x then a else 0) +
      (if t' = t ∧ z = y then a else 0)

namespace ExactToken
variable [DecidableEq Address] (T : ExactToken Address Ledger)

theorem funds_of_transfer {l l' : Ledger} {t x y : Address} {a : ℤ}
    (h : T.transfer l t x y a = some l') : 0 ≤ a ∧ a ≤ T.balance l t x :=
  (T.transfer_isSome l t x y a).1 (h ▸ rfl)

theorem balance_sender {l l' : Ledger} {t x y : Address} {a : ℤ}
    (h : T.transfer l t x y a = some l') :
    T.balance l' t x = T.balance l t x - a + if x = y then a else 0 := by
  simp [T.balance_transfer h]

theorem balance_receiver {l l' : Ledger} {t x y : Address} {a : ℤ}
    (h : T.transfer l t x y a = some l') (hxy : y ≠ x) :
    T.balance l' t y = T.balance l t y + a := by
  simp [T.balance_transfer h, hxy]

theorem le_balance_of_ne {l l' : Ledger} {t x y z : Address} {a : ℤ}
    (h : T.transfer l t x y a = some l') (hz : z ≠ x) (t' : Address) :
    T.balance l t' z ≤ T.balance l' t' z := by
  have ha := (T.funds_of_transfer h).1
  have hbalance := T.balance_transfer h t' z
  rw [if_neg fun hk => hz hk.2, Int.sub_zero] at hbalance
  rw [hbalance]
  split_ifs <;> omega

end ExactToken

abbrev Balances (Address : Type) : Type := Address → Address → ℤ

def Balances.move [DecidableEq Address] (l : Balances Address) (t x y : Address) (a : ℤ) :
    Balances Address := fun t' z =>
  l t' z - (if t' = t ∧ z = x then a else 0) + (if t' = t ∧ z = y then a else 0)

def balanceToken (Address : Type) [DecidableEq Address] :
    ExactToken Address (Balances Address) where
  balance l t x := l t x
  transfer l t x y a := if 0 ≤ a ∧ a ≤ l t x then some (l.move t x y a) else none
  transfer_isSome l t x y a := by
    split_ifs with h <;> simp [h]
  balance_transfer {l l' t x y a} h t' z := by
    split_ifs at h with hf
    obtain rfl := Option.some.inj h
    rfl

end Callora
