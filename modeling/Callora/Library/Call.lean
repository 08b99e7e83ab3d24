import Mathlib.Data.List.Chain
import Mathlib.Tactic.SplitIfs
import Mathlib.Tactic.Simproc.ExistsAndEq

/-! The semantics of a contract call. A call reads and writes a state and ends in one of three
ways: it returns a value, it returns an error of its own (the writes made so far stand until the
caller decides), or it traps. Only `commit` makes writes permanent, so a trap and an uncaught error
both roll the whole call back. -/

namespace Library

inductive Trap (ε : Type) where
  | unauthorized
  | unwrapNone
  | hostCall
  | message (text : String)
  | error (code : ε)
deriving DecidableEq

inductive Outcome (ε σ α : Type) where
  | ok (value : α) (state : σ)
  | err (error : ε) (state : σ)
  | trap (reason : Trap ε)

structure Call (ε σ α : Type) where
  run : σ → Outcome ε σ α

namespace Call
variable {ε σ α β : Type}

protected def pure (a : α) : Call ε σ α := ⟨fun s => .ok a s⟩

protected def bind (m : Call ε σ α) (f : α → Call ε σ β) : Call ε σ β := ⟨fun s =>
  match m.run s with
  | .ok a s' => (f a).run s'
  | .err e s' => .err e s'
  | .trap r => .trap r⟩

instance : Monad (Call ε σ) where
  pure := Call.pure
  bind := Call.bind

def load : Call ε σ σ := ⟨fun s => .ok s s⟩

def modify (f : σ → σ) : Call ε σ Unit := ⟨fun s => .ok () (f s)⟩

def trap (r : Trap ε) : Call ε σ α := ⟨fun _ => .trap r⟩

def fail (e : ε) : Call ε σ α := ⟨fun s => .err e s⟩

def require (c : Prop) [Decidable c] (r : Trap ε) : Call ε σ Unit := if c then pure () else trap r

def ensure (c : Prop) [Decidable c] (e : ε) : Call ε σ Unit := if c then pure () else fail e

def unwrap (o : Option α) (r : Trap ε) : Call ε σ α :=
  match o with
  | some a => pure a
  | none => trap r

def okOr (o : Option α) (e : ε) : Call ε σ α :=
  match o with
  | some a => pure a
  | none => fail e

def orTrap (m : Call ε σ α) : Call ε σ α := ⟨fun s =>
  match m.run s with
  | .ok a s' => .ok a s'
  | .err e _ => .trap (.error e)
  | .trap r => .trap r⟩

/-- Catch an error of `m`, keeping the writes `m` made before it. -/
def attempt (m : Call ε σ α) : Call ε σ (Except ε α) := ⟨fun s =>
  match m.run s with
  | .ok a s' => .ok (.ok a) s'
  | .err e s' => .ok (.error e) s'
  | .trap r => .trap r⟩

def onFst {τ : Type} (m : Call ε σ α) : Call ε (σ × τ) α := ⟨fun p =>
  match m.run p.1 with
  | .ok a s' => .ok a (s', p.2)
  | .err e s' => .err e (s', p.2)
  | .trap r => .trap r⟩

/-- The effect of `m` as a transaction. -/
def commit (m : Call ε σ α) (s : σ) : Option (α × σ) :=
  match m.run s with
  | .ok a s' => some (a, s')
  | _ => none

/-- The state after `m`, which is the state before unless `m` returns. -/
def after (m : Call ε σ α) (s : σ) : σ :=
  match m.run s with
  | .ok _ s' => s'
  | _ => s

section Bind
variable {γ : Type} {s : σ} {m : Call ε σ α} {f g : α → Call ε σ β} {h : β → Call ε σ γ}

theorem run_bind_of_ok {a : α} {s₁ : σ} (hm : m.run s = .ok a s₁) :
    (m >>= f).run s = (f a).run s₁ := by
  change (Call.bind m f).run s = (f a).run s₁
  simp only [Call.bind, hm]

theorem run_bind_assoc : (m >>= f >>= h).run s = (m >>= fun a => f a >>= h).run s := by
  change (Call.bind (Call.bind m f) h).run s = (Call.bind m fun a => Call.bind (f a) h).run s
  simp only [Call.bind]
  cases m.run s with
  | ok a s₁ => rfl
  | err e s₁ => rfl
  | trap r => rfl

theorem run_bind_congr (hfg : ∀ a s₁, m.run s = .ok a s₁ → (f a).run s₁ = (g a).run s₁) :
    (m >>= f).run s = (m >>= g).run s := by
  change (Call.bind m f).run s = (Call.bind m g).run s
  simp only [Call.bind]
  cases hrun : m.run s with
  | ok a s₁ => exact hfg a s₁ hrun
  | err e s₁ => rfl
  | trap r => rfl

end Bind

theorem eq_of_run {m m' : Call ε σ α} (h : ∀ s, m.run s = m'.run s) : m = m' :=
  congrArg mk (funext h)

/-- Not an instance, so that `simp` keeps binds as they are written. -/
theorem lawfulMonad : LawfulMonad (Call ε σ) := LawfulMonad.mk' _
  (fun m => eq_of_run fun s => by
    change (Call.bind m fun a => Call.pure a).run s = m.run s
    simp only [Call.bind, Call.pure]
    cases m.run s <;> rfl)
  (fun _ _ => rfl)
  (fun _ _ _ => eq_of_run fun _ => run_bind_assoc)

section Ok
variable {s s' : σ} {a a' : α} {b : β} {u : Unit}

@[simp] theorem run_pure_eq_ok :
    (pure a : Call ε σ α).run s = .ok a' s' ↔ a = a' ∧ s = s' := by
  change Outcome.ok a s = .ok a' s' ↔ _
  simp only [Outcome.ok.injEq]

@[simp] theorem run_bind_eq_ok {m : Call ε σ α} {f : α → Call ε σ β} :
    (m >>= f).run s = .ok b s' ↔ ∃ a s₁, m.run s = .ok a s₁ ∧ (f a).run s₁ = .ok b s' := by
  change (Call.bind m f).run s = _ ↔ _
  simp only [Call.bind]
  cases m.run s with
  | ok a s₁ =>
    constructor
    · exact fun hf => ⟨a, s₁, rfl, hf⟩
    · rintro ⟨_, _, ⟨⟩, hf⟩
      exact hf
  | err e s₁ => simp
  | trap r => simp

@[simp] theorem run_load_eq_ok {t : σ} :
    (load : Call ε σ σ).run s = .ok t s' ↔ s = t ∧ s = s' := by
  simp [load]

@[simp] theorem run_modify_eq_ok {f : σ → σ} :
    (modify f : Call ε σ Unit).run s = .ok u s' ↔ f s = s' := by
  simp [modify]

@[simp] theorem run_trap_eq_ok {r : Trap ε} :
    (trap r : Call ε σ α).run s = .ok a s' ↔ False := by
  simp [trap]

@[simp] theorem run_fail_eq_ok {e : ε} : (fail e : Call ε σ α).run s = .ok a s' ↔ False := by
  simp [fail]

@[simp] theorem run_ite_eq_ok {c : Prop} [Decidable c] {m m' : Call ε σ α} :
    (if c then m else m').run s = .ok a s' ↔
      (c ∧ m.run s = .ok a s') ∨ (¬c ∧ m'.run s = .ok a s') := by
  by_cases h : c <;> simp [h]

@[simp] theorem run_require_eq_ok {c : Prop} [Decidable c] {r : Trap ε} :
    (require c r : Call ε σ Unit).run s = .ok u s' ↔ c ∧ s = s' := by
  simp [require]

@[simp] theorem run_ensure_eq_ok {c : Prop} [Decidable c] {e : ε} :
    (ensure c e : Call ε σ Unit).run s = .ok u s' ↔ c ∧ s = s' := by
  simp [ensure]

@[simp] theorem run_unwrap_eq_ok {o : Option α} {r : Trap ε} :
    (unwrap o r : Call ε σ α).run s = .ok a s' ↔ o = some a ∧ s = s' := by
  cases o <;> simp [unwrap]

@[simp] theorem run_okOr_eq_ok {o : Option α} {e : ε} :
    (okOr o e : Call ε σ α).run s = .ok a s' ↔ o = some a ∧ s = s' := by
  cases o <;> simp [okOr]

@[simp] theorem run_orTrap_eq_ok {m : Call ε σ α} :
    (orTrap m).run s = .ok a s' ↔ m.run s = .ok a s' := by
  simp only [orTrap]
  cases m.run s <;> simp

@[simp] theorem run_onFst_eq_ok {τ : Type} {m : Call ε σ α} {p p' : σ × τ} :
    (onFst m).run p = .ok a p' ↔ m.run p.1 = .ok a p'.1 ∧ p.2 = p'.2 := by
  obtain ⟨s', t'⟩ := p'
  simp only [onFst]
  cases m.run p.1 <;> simp [and_assoc]

theorem run_attempt_eq_ok {m : Call ε σ α} {r : Except ε α} :
    (attempt m).run s = .ok r s' ↔
      (∃ a, r = .ok a ∧ m.run s = .ok a s') ∨ ∃ e, r = .error e ∧ m.run s = .err e s' := by
  simp only [attempt]
  cases m.run s <;> cases r <;> simp [eq_comm]

theorem commit_eq_some {m : Call ε σ α} : commit m s = some (a, s') ↔ m.run s = .ok a s' := by
  unfold commit
  cases m.run s <;> simp

theorem commit_isSome {m : Call ε σ Unit} :
    (commit m s).isSome ↔ ∃ s', m.run s = .ok () s' := by
  unfold commit
  cases m.run s <;> simp

theorem commit_eq_none {m : Call ε σ α} : commit m s = none ↔ ∀ a s', m.run s ≠ .ok a s' := by
  unfold commit
  cases m.run s <;> simp

theorem after_of_ok {m : Call ε σ α} (h : m.run s = .ok a s') : m.after s = s' := by
  simp only [after, h]

end Ok

section Err
variable {s s' : σ} {a : α} {e e' : ε}

@[simp] theorem run_pure_eq_err : (pure a : Call ε σ α).run s = .err e s' ↔ False := by
  change Outcome.ok a s = .err e s' ↔ _
  simp

@[simp] theorem run_bind_eq_err {m : Call ε σ α} {f : α → Call ε σ β} :
    (m >>= f).run s = .err e s' ↔ m.run s = .err e s' ∨
      ∃ a s₁, m.run s = .ok a s₁ ∧ (f a).run s₁ = .err e s' := by
  change (Call.bind m f).run s = _ ↔ _
  simp only [Call.bind]
  cases m.run s with
  | ok a s₁ =>
    constructor
    · exact fun hf => .inr ⟨a, s₁, rfl, hf⟩
    · rintro (h | ⟨_, _, ⟨⟩, hf⟩)
      · cases h
      · exact hf
  | err e s₁ => simp
  | trap r => simp

@[simp] theorem run_load_eq_err : (load : Call ε σ σ).run s = .err e s' ↔ False := by
  simp [load]

@[simp] theorem run_modify_eq_err {f : σ → σ} :
    (modify f : Call ε σ Unit).run s = .err e s' ↔ False := by
  simp [modify]

@[simp] theorem run_trap_eq_err {r : Trap ε} :
    (trap r : Call ε σ α).run s = .err e s' ↔ False := by
  simp [trap]

@[simp] theorem run_fail_eq_err : (fail e : Call ε σ α).run s = .err e' s' ↔ e = e' ∧ s = s' := by
  simp [fail]

@[simp] theorem run_ite_eq_err {c : Prop} [Decidable c] {m m' : Call ε σ α} :
    (if c then m else m').run s = .err e s' ↔
      (c ∧ m.run s = .err e s') ∨ (¬c ∧ m'.run s = .err e s') := by
  by_cases h : c <;> simp [h]

@[simp] theorem run_require_eq_err {c : Prop} [Decidable c] {r : Trap ε} :
    (require c r : Call ε σ Unit).run s = .err e s' ↔ False := by
  simp [require]

@[simp] theorem run_ensure_eq_err {c : Prop} [Decidable c] :
    (ensure c e : Call ε σ Unit).run s = .err e' s' ↔ ¬c ∧ e = e' ∧ s = s' := by
  simp [ensure]

@[simp] theorem run_unwrap_eq_err {o : Option α} {r : Trap ε} :
    (unwrap o r : Call ε σ α).run s = .err e s' ↔ False := by
  cases o <;> simp [unwrap]

@[simp] theorem run_okOr_eq_err {o : Option α} :
    (okOr o e : Call ε σ α).run s = .err e' s' ↔ o = none ∧ e = e' ∧ s = s' := by
  cases o <;> simp [okOr]

end Err

section Trap
variable {s : σ} {a : α} {e : ε} {r r' : Trap ε}

@[simp] theorem run_pure_eq_trap : (pure a : Call ε σ α).run s = .trap r ↔ False := by
  change Outcome.ok a s = .trap r ↔ _
  simp

@[simp] theorem run_bind_eq_trap {m : Call ε σ α} {f : α → Call ε σ β} :
    (m >>= f).run s = .trap r ↔ m.run s = .trap r ∨
      ∃ a s₁, m.run s = .ok a s₁ ∧ (f a).run s₁ = .trap r := by
  change (Call.bind m f).run s = _ ↔ _
  simp only [Call.bind]
  cases m.run s with
  | ok a s₁ =>
    constructor
    · exact fun hf => .inr ⟨a, s₁, rfl, hf⟩
    · rintro (h | ⟨_, _, ⟨⟩, hf⟩)
      · cases h
      · exact hf
  | err e s₁ => simp
  | trap r => simp

@[simp] theorem run_load_eq_trap : (load : Call ε σ σ).run s = .trap r ↔ False := by
  simp [load]

@[simp] theorem run_modify_eq_trap {f : σ → σ} :
    (modify f : Call ε σ Unit).run s = .trap r ↔ False := by
  simp [modify]

@[simp] theorem run_trap_eq_trap : (trap r : Call ε σ α).run s = .trap r' ↔ r = r' := by
  simp [trap]

@[simp] theorem run_fail_eq_trap : (fail e : Call ε σ α).run s = .trap r ↔ False := by
  simp [fail]

@[simp] theorem run_ite_eq_trap {c : Prop} [Decidable c] {m m' : Call ε σ α} :
    (if c then m else m').run s = .trap r ↔
      (c ∧ m.run s = .trap r) ∨ (¬c ∧ m'.run s = .trap r) := by
  by_cases h : c <;> simp [h]

@[simp] theorem run_require_eq_trap {c : Prop} [Decidable c] :
    (require c r : Call ε σ Unit).run s = .trap r' ↔ ¬c ∧ r = r' := by
  simp [require]

@[simp] theorem run_ensure_eq_trap {c : Prop} [Decidable c] :
    (ensure c e : Call ε σ Unit).run s = .trap r ↔ False := by
  simp [ensure]

@[simp] theorem run_unwrap_eq_trap {o : Option α} :
    (unwrap o r : Call ε σ α).run s = .trap r' ↔ o = none ∧ r = r' := by
  cases o <;> simp [unwrap]

@[simp] theorem run_okOr_eq_trap {o : Option α} :
    (okOr o e : Call ε σ α).run s = .trap r ↔ False := by
  cases o <;> simp [okOr]

theorem returns_of_not_trap {m : Call ε σ α} (h : ∀ r, m.run s ≠ .trap r) :
    (∃ a s', m.run s = .ok a s') ∨ ∃ e s', m.run s = .err e s' := by
  cases hm : m.run s with
  | ok a s' => exact .inl ⟨a, s', rfl⟩
  | err e s' => exact .inr ⟨e, s', rfl⟩
  | trap r => exact absurd hm (h r)

end Trap

/-! Loops over a list of items. -/

section Loop
variable {ι : Type} {f : ι → Call ε σ Unit} {xs : List ι} {s s' : σ} {u : Unit}

@[simp] theorem run_forM_nil_eq_ok : (forM ([] : List ι) f).run s = .ok u s' ↔ s = s' := by
  rw [List.forM_nil]
  simp

@[simp] theorem run_forM_cons_eq_ok {x : ι} : (forM (x :: xs) f).run s = .ok u s' ↔
    ∃ s₁, (f x).run s = .ok () s₁ ∧ (forM xs f).run s₁ = .ok u s' := by
  rw [List.forM_cons, run_bind_eq_ok]
  exact ⟨fun ⟨_, s₁, h, h'⟩ => ⟨s₁, h, h'⟩, fun ⟨s₁, h, h'⟩ => ⟨(), s₁, h, h'⟩⟩

theorem run_forM_append_eq_ok {ys : List ι} : (forM (xs ++ ys) f).run s = .ok u s' ↔
    ∃ s₁, (forM xs f).run s = .ok () s₁ ∧ (forM ys f).run s₁ = .ok u s' := by
  induction xs generalizing s with
  | nil => simp
  | cons x xs ih =>
    simp only [List.cons_append, run_forM_cons_eq_ok, ih]
    constructor
    · rintro ⟨s₁, hx, s₂, hxs, hys⟩
      exact ⟨s₂, ⟨s₁, hx, hxs⟩, hys⟩
    · rintro ⟨s₂, ⟨s₁, hx, hxs⟩, hys⟩
      exact ⟨s₁, hx, s₂, hxs, hys⟩

theorem run_forM_checks_eq_ok {P : ι → Prop}
    (hf : ∀ x t t', (f x).run t = .ok () t' ↔ P x ∧ t = t') :
    (forM xs f).run s = .ok u s' ↔ (∀ x ∈ xs, P x) ∧ s = s' := by
  induction xs generalizing s with
  | nil => simp
  | cons x xs ih =>
    rw [run_forM_cons_eq_ok, List.forall_mem_cons]
    constructor
    · intro h
      obtain ⟨s₁, hx, hxs⟩ := h
      obtain ⟨hP, rfl⟩ := (hf x s s₁).1 hx
      obtain ⟨hrest, hs⟩ := ih.1 hxs
      exact ⟨⟨hP, hrest⟩, hs⟩
    · intro h
      obtain ⟨⟨hP, hrest⟩, hs⟩ := h
      exact ⟨s, (hf x s s).2 ⟨hP, rfl⟩, ih.2 ⟨hrest, hs⟩⟩

theorem forM_invariant {P : σ → Prop} (h : (forM xs f).run s = .ok u s') (h₀ : P s)
    (hstep : ∀ x ∈ xs, ∀ s s', P s → (f x).run s = .ok () s' → P s') : P s' := by
  induction xs generalizing s with
  | nil =>
    rw [run_forM_nil_eq_ok] at h
    exact h ▸ h₀
  | cons x xs ih =>
    obtain ⟨s₁, hx, hxs⟩ := run_forM_cons_eq_ok.1 h
    exact ih hxs (hstep x List.mem_cons_self s s₁ h₀ hx)
      fun y hy => hstep y (List.mem_cons_of_mem x hy)

theorem foldl_after (h : (forM xs f).run s = .ok u s') :
    xs.foldl (fun s x => (f x).after s) s = s' := by
  induction xs generalizing s with
  | nil => exact run_forM_nil_eq_ok.1 h
  | cons x xs ih =>
    obtain ⟨s₁, hx, hxs⟩ := run_forM_cons_eq_ok.1 h
    rw [List.foldl_cons, after_of_ok hx]
    exact ih hxs

def passes (f : ι → Call ε σ Unit) (s : σ) (xs : List ι) : List σ :=
  xs.scanl (fun s x => (f x).after s) s

theorem isChain_cons_passes {R : σ → σ → Prop} (hrefl : ∀ s, R s s)
    (hR : ∀ x s s', (f x).run s = .ok () s' → R s s') {t : σ} (h : R t s) (xs : List ι) :
    (t :: passes f s xs).IsChain R := by
  have hpass (x : ι) (s : σ) : R s ((f x).after s) := by
    cases hrun : (f x).run s with
    | ok _ s' =>
      rw [after_of_ok hrun]
      exact hR x s s' hrun
    | err _ _ | trap _ =>
      simp only [after, hrun]
      exact hrefl s
  unfold passes
  induction xs generalizing s t with
  | nil =>
    rw [List.scanl_nil]
    exact .cons_cons h (.singleton s)
  | cons x xs ih =>
    rw [List.scanl_cons]
    exact .cons_cons h (ih (hpass x s))

theorem getLast?_passes (h : (forM xs f).run s = .ok u s') :
    (passes f s xs).getLast? = some s' := by
  unfold passes
  rw [List.getLast?_scanl, foldl_after h]

end Loop
end Call
end Library
