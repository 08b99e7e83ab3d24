import Callora.Library.Machine

/-! Two-step handovers of an office. Whoever holds the office nominates a successor, who takes it by
accepting; a new nomination replaces the old one, and a cancellation withdraws it. -/

namespace Library

structure Office (α : Type) where
  holder : Option α
  nominee : Option α

inductive OfficeAct (α : Type) where
  | nominate (holder nominee : α)
  | accept
  | cancel

/-- What an act may do to an office when it carries the authorization of the `authorized`. An office
that is still vacant may be given to anybody. -/
inductive OfficeStep {α : Type} (authorized : α → Prop) :
    Option (OfficeAct α) → Office α → Office α → Prop
  | nominate {a b : α} {nominee : Option α} (by_holder : authorized a) :
      OfficeStep authorized (some (.nominate a b)) ⟨some a, nominee⟩ ⟨some a, some b⟩
  | accept {b : α} {holder : Option α} (by_nominee : authorized b) :
      OfficeStep authorized (some .accept) ⟨holder, some b⟩ ⟨some b, none⟩
  | cancel {holder nominee : Option α} :
      OfficeStep authorized (some .cancel) ⟨holder, nominee⟩ ⟨holder, none⟩
  | install {b : α} {nominee : Option α} :
      OfficeStep authorized none ⟨none, nominee⟩ ⟨some b, nominee⟩
  | keep {office : Office α} : OfficeStep authorized none office office

/-- An office that the machine `m` keeps: in valid states the steps of `m` are steps of it. -/
structure Handover {σ ι ο : Type} (m : Machine σ ι ο) (α : Type) where
  office : σ → Office α
  act : ι → Option (OfficeAct α)
  authorizes : ι → α → Prop
  valid : σ → Prop
  valid_step {s : σ} {i : ι} {o : ο} {s' : σ} (hs : valid s) (h : m.step s i = some (o, s')) :
    valid s'
  office_step {s : σ} {i : ι} {o : ο} {s' : σ} (hs : valid s) (h : m.step s i = some (o, s')) :
    OfficeStep (authorizes i) (act i) (office s) (office s')

namespace Handover
variable {σ ι ο α : Type} {m : Machine σ ι ο} (H : Handover m α)

def holder (s : σ) : Option α := (H.office s).holder

def nominee (s : σ) : Option α := (H.office s).nominee

def Nominates (a b : α) (e : Entry σ ι ο) : Prop :=
  H.act e.input = some (.nominate a b) ∧ H.authorizes e.input a ∧ H.holder e.pre = some a

def Leaves (e : Entry σ ι ο) : Prop := H.act e.input = none

/-- In every run from `s` the office passes by consent: when it goes from `a` to somebody else, it
goes to one who authorizes the acceptance and whom `a`, then in office, has nominated last; and
every pending nomination is the last act of the current holder. -/
def Consensual (s : σ) : Prop := ∀ is,
  (∀ l₁ e l₂ a, m.log s is = l₁ ++ e :: l₂ → H.holder e.pre = some a →
    H.holder e.post ≠ some a → ∃ b, H.holder e.post = some b ∧ H.act e.input = some .accept ∧
      H.authorizes e.input b ∧ Machine.Since (H.Nominates a b) H.Leaves l₁) ∧
  ∀ b, H.nominee (m.run s is) = some b → ∃ a, H.holder (m.run s is) = some a ∧
    Machine.Since (H.Nominates a b) H.Leaves (m.log s is)

/-- `accepts i b` says that `b` accepts with the input `i`: an acceptance commits for a nominee
only, and for the nominee of an office that is held it does. -/
structure Accepts (accepts : ι → α → Prop) : Prop where
  sound {s s' : σ} {i : ι} {o : ο} (hact : H.act i = some .accept)
    (h : m.step s i = some (o, s')) : ∃ b, H.nominee s = some b ∧ accepts i b
  complete {s : σ} {i : ι} {a b : α} (hact : H.act i = some .accept) (ha : H.holder s = some a)
    (hb : H.nominee s = some b) (h : accepts i b) : (m.step s i).isSome

/-- In every run from `s` a nomination binds: an acceptance succeeds exactly for the one that was
nominated last, as long as nothing has happened to the office since. -/
def Binding (accepts : ι → α → Prop) (s : σ) : Prop := ∀ is i, H.act i = some .accept →
  ((m.step (m.run s is) i).isSome ↔
    ∃ a b, accepts i b ∧ Machine.Since (H.Nominates a b) H.Leaves (m.log s is))

variable {H} {s : σ}

theorem valid_run (hs : H.valid s) (is : List ι) : H.valid (m.run s is) :=
  Machine.invariant hs (fun _ _ _ _ ht hstep => H.valid_step ht hstep) is

theorem nominee_since (hs : H.valid s) (h₀ : H.nominee s = none) (is : List ι) {b : α}
    (h : H.nominee (m.run s is) = some b) : ∃ a, H.holder (m.run s is) = some a ∧
      Machine.Since (H.Nominates a b) H.Leaves (m.log s is) := by
  refine (Machine.log_invariant (P := fun l t => H.valid t ∧ ∀ b, H.nominee t = some b →
    ∃ a, H.holder t = some a ∧ Machine.Since (H.Nominates a b) H.Leaves l) ⟨hs, ?_⟩ ?_ is).2 b h
  · intro b hb
    rw [h₀] at hb
    cases hb
  · intro l t i o t' ih hstep
    obtain ⟨hvalid, ih⟩ := ih
    refine ⟨H.valid_step hvalid hstep, ?_⟩
    intro b hb
    have hoffice := H.office_step hvalid hstep
    unfold nominee at ih hb
    unfold holder at ih ⊢
    generalize hpre : H.office t = before at hoffice ih
    generalize hpost : H.office t' = after at hoffice hb ⊢
    generalize hact : H.act i = act at hoffice
    cases hoffice with
    | @nominate a b' nominee authorized =>
      obtain rfl := Option.some.inj hb
      have hholder : H.holder t = some a := congrArg Office.holder hpre
      exact ⟨a, rfl, .here l ⟨hact, authorized, hholder⟩⟩
    | accept | cancel => cases hb
    | install =>
      obtain ⟨a, ha, -⟩ := ih b hb
      cases ha
    | keep =>
      obtain ⟨a, ha, hsince⟩ := ih b hb
      exact ⟨a, ha, hsince.concat hact⟩

theorem nominee_of_step {s' : σ} {i : ι} {o : ο} {a b : α} (hs : H.valid s)
    (h : m.step s i = some (o, s')) (hb : H.Nominates a b ⟨s, i, o, s'⟩ ∨
      (H.nominee s = some b ∧ H.Leaves ⟨s, i, o, s'⟩)) : H.nominee s' = some b := by
  have hoffice := H.office_step hs h
  unfold nominee at hb ⊢
  generalize H.office s = before at hoffice hb
  generalize H.office s' = after at hoffice ⊢
  rcases hb with ⟨hact, -, -⟩ | ⟨hnominee, hleaves⟩
  · have hact' : H.act i = some (.nominate a b) := hact
    rw [hact'] at hoffice
    cases hoffice
    rfl
  · have hleaves' : H.act i = none := hleaves
    rw [hleaves'] at hoffice
    cases hoffice with
    | install | keep => exact hnominee

theorem nominee_iff_since (hs : H.valid s) (h₀ : H.nominee s = none) (is : List ι) {b : α} :
    H.nominee (m.run s is) = some b ↔
      ∃ a, Machine.Since (H.Nominates a b) H.Leaves (m.log s is) := by
  constructor
  · intro h
    obtain ⟨a, -, hsince⟩ := nominee_since hs h₀ is h
    exact ⟨a, hsince⟩
  · intro h
    obtain ⟨a, hsince⟩ := h
    refine (Machine.log_invariant (P := fun l t => H.valid t ∧
      (Machine.Since (H.Nominates a b) H.Leaves l → H.nominee t = some b)) ⟨hs, ?_⟩ ?_ is).2 hsince
    · intro hnone
      obtain ⟨l₁, e, l₂, hsplit, -⟩ := hnone
      exact absurd hsplit (by simp)
    · intro l t i o t' ih hstep
      refine ⟨H.valid_step ih.1 hstep, ?_⟩
      intro hlater
      apply nominee_of_step (a := a) ih.1 hstep
      rcases hlater.of_concat with hnow | ⟨hbefore, hleaves⟩
      · exact .inl hnow
      · exact .inr ⟨ih.2 hbefore, hleaves⟩

theorem binding {accepts : ι → α → Prop} (hs : H.valid s) (h₀ : H.nominee s = none)
    (haccepts : H.Accepts accepts) : H.Binding accepts s := by
  intro is i hact
  constructor
  · intro h
    obtain ⟨⟨o, s'⟩, hstep⟩ := Option.isSome_iff_exists.1 h
    obtain ⟨b, hb, hi⟩ := haccepts.sound hact hstep
    obtain ⟨a, hsince⟩ := (nominee_iff_since hs h₀ is).1 hb
    exact ⟨a, b, hi, hsince⟩
  · intro h
    obtain ⟨a, b, hi, hsince⟩ := h
    have hb := (nominee_iff_since hs h₀ is).2 ⟨a, hsince⟩
    obtain ⟨a', ha', -⟩ := nominee_since hs h₀ is hb
    exact haccepts.complete hact ha' hb hi

/-- An office that starts without a nominee passes by consent ever after. -/
theorem consensual (hs : H.valid s) (h₀ : H.nominee s = none) : H.Consensual s := by
  intro is
  refine ⟨?_, fun b hb => nominee_since hs h₀ is hb⟩
  intro l₁ e l₂ a hlog hpre hpost
  obtain ⟨js, ks, -, hjs, hrun, hstep⟩ := Machine.log_split hlog
  have hvalid : H.valid e.pre := hrun ▸ valid_run hs js
  have hsince {b : α} (hb : H.nominee e.pre = some b) :
      Machine.Since (H.Nominates a b) H.Leaves l₁ := by
    rw [← hrun] at hb hpre
    obtain ⟨a', ha', hsince⟩ := nominee_since hs h₀ js hb
    obtain rfl := Option.some.inj (ha'.symm.trans hpre)
    rw [hjs] at hsince
    exact hsince
  have hoffice := H.office_step hvalid hstep
  unfold nominee at hsince
  unfold holder at hpre hpost ⊢
  generalize H.office e.pre = before at hoffice hpre hsince
  generalize H.office e.post = after at hoffice hpost ⊢
  generalize hact : H.act e.input = act at hoffice
  cases hoffice with
  | @accept b _ authorized => exact ⟨b, rfl, rfl, authorized, hsince rfl⟩
  | nominate | cancel | keep => exact absurd hpre hpost
  | install => cases hpre

end Handover
end Library
