import Callora.Library.Call

/-! Calls that leave a trace of what they do to the outside. A trace keeps its entries however the
call ends, so that it tells what was done before a failure; forgetting it gives the plain call. -/

namespace Library

structure Traced (ε σ τ α : Type) where
  run : σ → List τ × Outcome ε σ α

namespace Traced
variable {ε σ τ α β ι : Type}

protected def pure (a : α) : Traced ε σ τ α := ⟨fun s => ([], .ok a s)⟩

protected def bind (m : Traced ε σ τ α) (f : α → Traced ε σ τ β) : Traced ε σ τ β := ⟨fun s =>
  match m.run s with
  | (t, .ok a s') => (t ++ ((f a).run s').1, ((f a).run s').2)
  | (t, .err e s') => (t, .err e s')
  | (t, .trap r) => (t, .trap r)⟩

instance : Monad (Traced ε σ τ) where
  pure := Traced.pure
  bind := Traced.bind

def lift (m : Call ε σ α) : Traced ε σ τ α := ⟨fun s => ([], m.run s)⟩

def emit (e : τ) : Traced ε σ τ Unit := ⟨fun s => ([e], .ok () s)⟩

def forget (m : Traced ε σ τ α) : Call ε σ α := ⟨fun s => (m.run s).2⟩

section Run
variable {m : Traced ε σ τ α} {f : α → Traced ε σ τ β} {s s' : σ} {t : List τ} {a : α} {e : ε}
  {r : Trap ε}

@[simp] theorem run_pure : (pure a : Traced ε σ τ α).run s = ([], .ok a s) := rfl

@[simp] theorem run_lift {m : Call ε σ α} : (lift m : Traced ε σ τ α).run s = ([], m.run s) := rfl

@[simp] theorem run_emit {x : τ} : (emit x : Traced ε σ τ Unit).run s = ([x], .ok () s) := rfl

@[simp] theorem run_forget : m.forget.run s = (m.run s).2 := rfl

theorem run_bind_of_ok (hm : m.run s = (t, .ok a s')) :
    (m >>= f).run s = (t ++ ((f a).run s').1, ((f a).run s').2) := by
  change (Traced.bind m f).run s = _
  simp only [Traced.bind, hm]

theorem run_bind_of_err (hm : m.run s = (t, .err e s')) :
    (m >>= f).run s = (t, .err e s') := by
  change (Traced.bind m f).run s = _
  simp only [Traced.bind, hm]

theorem run_bind_of_trap (hm : m.run s = (t, .trap r)) : (m >>= f).run s = (t, .trap r) := by
  change (Traced.bind m f).run s = _
  simp only [Traced.bind, hm]

end Run

section Forget

@[simp] theorem forget_pure (a : α) : (pure a : Traced ε σ τ α).forget = pure a := rfl

@[simp] theorem forget_lift (m : Call ε σ α) : (lift m : Traced ε σ τ α).forget = m := rfl

@[simp] theorem forget_emit (x : τ) : (emit x : Traced ε σ τ Unit).forget = pure () := rfl

theorem forget_bind (m : Traced ε σ τ α) (f : α → Traced ε σ τ β) :
    (m >>= f).forget = m.forget >>= fun a => (f a).forget := by
  apply congrArg Call.mk
  funext s
  change ((m >>= f).run s).2 = (m.forget >>= fun a => (f a).forget).run s
  rcases hm : m.run s with ⟨t, a | e | r⟩
  · have hforget : m.forget.run s = .ok a _ := congrArg Prod.snd hm
    rw [run_bind_of_ok hm, Call.run_bind_of_ok hforget, run_forget]
  · have hforget : m.forget.run s = .err e _ := congrArg Prod.snd hm
    rw [run_bind_of_err hm, Call.run_bind_eq_err.2 (.inl hforget)]
  · have hforget : m.forget.run s = .trap r := congrArg Prod.snd hm
    rw [run_bind_of_trap hm, Call.run_bind_eq_trap.2 (.inl hforget)]

theorem forget_forM (f : ι → Traced ε σ τ Unit) (xs : List ι) :
    (forM xs f).forget = forM xs fun x => (f x).forget := by
  induction xs with
  | nil => rfl
  | cons x xs ih =>
    rw [List.forM_cons, List.forM_cons, forget_bind, ih]

end Forget
end Traced
end Library
