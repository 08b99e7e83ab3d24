import Mathlib.Data.List.Induction
import Mathlib.Algebra.BigOperators.Group.List.Basic
import Mathlib.Algebra.Ring.Int.Defs

/-! Transactional state machines. A step either commits, with an output and a new state, or is
rolled back. The log of a run keeps the committed steps, and a statement about the whole history of
a run is an invariant of the pair of log and state. -/

namespace Library

structure Machine (σ ι ο : Type) where
  step : σ → ι → Option (ο × σ)

/-- A committed step. -/
structure Entry (σ ι ο : Type) where
  pre : σ
  input : ι
  output : ο
  post : σ

namespace Machine
variable {σ ι ο : Type} (m : Machine σ ι ο)

def next (s : σ) (i : ι) : σ :=
  match m.step s i with
  | some (_, s') => s'
  | none => s

def entries (s : σ) (i : ι) : List (Entry σ ι ο) :=
  match m.step s i with
  | some (o, s') => [⟨s, i, o, s'⟩]
  | none => []

def run : σ → List ι → σ
  | s, [] => s
  | s, i :: is => run (m.next s i) is

def log : σ → List ι → List (Entry σ ι ο)
  | _, [] => []
  | s, i :: is => m.entries s i ++ log (m.next s i) is

variable {m} {s s' : σ} {i : ι} {o : ο}

theorem next_of_step (h : m.step s i = some (o, s')) : m.next s i = s' := by
  simp only [next, h]

theorem next_of_rollback (h : m.step s i = none) : m.next s i = s := by
  simp only [next, h]

theorem entries_of_step (h : m.step s i = some (o, s')) : m.entries s i = [⟨s, i, o, s'⟩] := by
  simp only [entries, h]

theorem entries_of_rollback (h : m.step s i = none) : m.entries s i = [] := by
  simp only [entries, h]

theorem log_cons_of_output (h : (m.step s i).map Prod.fst = some o) (is : List ι) :
    m.log s (i :: is) = ⟨s, i, o, m.next s i⟩ :: m.log (m.next s i) is := by
  obtain ⟨⟨o', s'⟩, hstep, rfl⟩ := Option.map_eq_some_iff.1 h
  rw [log, entries_of_step hstep, next_of_step hstep]
  rfl

theorem run_append (is js : List ι) : m.run s (is ++ js) = m.run (m.run s is) js := by
  induction is generalizing s with
  | nil => rfl
  | cons i is ih => simpa only [List.cons_append, run] using ih

theorem log_append (is js : List ι) :
    m.log s (is ++ js) = m.log s is ++ m.log (m.run s is) js := by
  induction is generalizing s with
  | nil => rfl
  | cons i is ih => simp only [List.cons_append, log, run, ih, List.append_assoc]

theorem run_concat (is : List ι) (i : ι) : m.run s (is ++ [i]) = m.next (m.run s is) i := by
  rw [run_append]
  rfl

theorem log_concat (is : List ι) (i : ι) :
    m.log s (is ++ [i]) = m.log s is ++ m.entries (m.run s is) i := by
  rw [log_append]
  simp only [log, List.append_nil]

theorem run_concat_of_step {is : List ι} (h : m.step (m.run s is) i = some (o, s')) :
    m.run s (is ++ [i]) = s' := by
  rw [run_concat, next_of_step h]

theorem log_step (js : List ι) (ks : List ι) (h : m.step (m.run s js) i = some (o, s')) :
    m.log s (js ++ i :: ks) = m.log s js ++ ⟨m.run s js, i, o, s'⟩ :: m.log s' ks := by
  rw [log_append]
  simp only [log, entries_of_step h, next_of_step h, List.singleton_append]

/-- Induction over a run: what holds at the start and is preserved by every committed step holds
of the log and the state of every run. -/
theorem log_invariant {P : List (Entry σ ι ο) → σ → Prop} (h₀ : P [] s)
    (hstep : ∀ l s i o s', P l s → m.step s i = some (o, s') → P (l ++ [⟨s, i, o, s'⟩]) s')
    (is : List ι) : P (m.log s is) (m.run s is) := by
  induction is using List.reverseRecOn with
  | nil => exact h₀
  | append_singleton is i ih =>
    rw [log_concat, run_concat]
    rcases h : m.step (m.run s is) i with _ | ⟨o, s'⟩
    · rw [entries_of_rollback h, next_of_rollback h, List.append_nil]
      exact ih
    · rw [entries_of_step h, next_of_step h]
      exact hstep _ _ _ _ _ ih h

theorem invariant {P : σ → Prop} (h₀ : P s)
    (hstep : ∀ s i o s', P s → m.step s i = some (o, s') → P s') (is : List ι) : P (m.run s is) :=
  log_invariant (P := fun _ s => P s) h₀ (fun _ s i o s' => hstep s i o s') is

theorem invariant_of_forall {P : σ → Prop} {A : σ → ι → Prop} (h₀ : P s)
    (hstep : ∀ s i o s', P s → A s i → m.step s i = some (o, s') → P s') (is : List ι)
    (hA : ∀ js i ks, is = js ++ i :: ks → A (m.run s js) i) : P (m.run s is) := by
  induction is using List.reverseRecOn with
  | nil => exact h₀
  | append_singleton is i ih =>
    have hP := ih fun js i' ks h => hA js i' (ks ++ [i]) (by simp [h])
    rw [run_concat]
    rcases h : m.step (m.run s is) i with _ | ⟨o, s'⟩
    · rw [next_of_rollback h]
      exact hP
    · rw [next_of_step h]
      exact hstep _ _ _ _ hP (hA is i [] rfl) h

theorem log_split {is : List ι} {l₁ l₂ : List (Entry σ ι ο)} {e : Entry σ ι ο}
    (h : m.log s is = l₁ ++ e :: l₂) :
    ∃ js ks, is = js ++ e.input :: ks ∧ m.log s js = l₁ ∧ m.run s js = e.pre ∧
      m.step e.pre e.input = some (e.output, e.post) := by
  induction is using List.reverseRecOn generalizing l₂ with
  | nil => simp [log] at h
  | append_singleton is i ih =>
    -- the entry is in the log of the shorter run, or it is the one of the last input
    have hprefix {l : List (Entry σ ι ο)} (h : m.log s is = l₁ ++ e :: l) :
        ∃ js ks, is ++ [i] = js ++ e.input :: ks ∧ m.log s js = l₁ ∧ m.run s js = e.pre ∧
          m.step e.pre e.input = some (e.output, e.post) := by
      obtain ⟨js, ks, his, hrest⟩ := ih h
      exact ⟨js, ks ++ [i], by simp [his], hrest⟩
    rw [log_concat] at h
    rcases hi : m.step (m.run s is) i with _ | ⟨o, s'⟩
    · rw [entries_of_rollback hi, List.append_nil] at h
      exact hprefix h
    · rw [entries_of_step hi] at h
      rcases List.eq_nil_or_concat l₂ with rfl | ⟨l₂, e', rfl⟩
      · obtain ⟨hl, he⟩ := List.append_inj' h rfl
        obtain rfl := List.singleton_inj.1 he
        exact ⟨is, [], rfl, hl, rfl, hi⟩
      · rw [List.concat_eq_append, ← List.cons_append, ← List.append_assoc] at h
        exact hprefix (List.append_inj' h rfl).1

theorem mem_log {is : List ι} {e : Entry σ ι ο} :
    e ∈ m.log s is ↔ ∃ js ks, is = js ++ e.input :: ks ∧ m.run s js = e.pre ∧
      m.step e.pre e.input = some (e.output, e.post) := by
  constructor
  · intro h
    obtain ⟨l₁, l₂, h⟩ := List.append_of_mem h
    obtain ⟨js, ks, his, -, hrun, hstep⟩ := log_split h
    exact ⟨js, ks, his, hrun, hstep⟩
  · rintro ⟨js, ks, rfl, hrun, hstep⟩
    rw [← hrun] at hstep
    rw [log_step js ks hstep, hrun]
    exact List.mem_append_right _ List.mem_cons_self

theorem log_inputs_sublist (s : σ) (is : List ι) :
    ((m.log s is).map Entry.input).Sublist is := by
  induction is generalizing s with
  | nil => exact .slnil
  | cons i is ih =>
    unfold log
    rcases h : m.step s i with _ | ⟨o, s'⟩
    · rw [entries_of_rollback h]
      exact (ih _).cons i
    · rw [entries_of_step h]
      exact (ih _).cons_cons i

theorem log_inputs_cons_iff {is : List ι} :
    (m.log s (i :: is)).map Entry.input = i :: is ↔
      ∃ o s', m.step s i = some (o, s') ∧ (m.log s' is).map Entry.input = is := by
  have hlog : m.log s (i :: is) = m.entries s i ++ m.log (m.next s i) is := rfl
  rw [hlog]
  rcases h : m.step s i with _ | ⟨o, s'⟩
  · rw [entries_of_rollback h, List.nil_append]
    constructor
    · intro hall
      have hlength : ((m.log (m.next s i) is).map Entry.input).length ≤ is.length :=
        (log_inputs_sublist _ is).length_le
      rw [hall, List.length_cons] at hlength
      omega
    · intro hstep
      obtain ⟨_, _, hnone, -⟩ := hstep
      cases hnone
  · rw [entries_of_step h, next_of_step h, List.singleton_append, List.map_cons]
    constructor
    · intro hall
      exact ⟨o, s', rfl, (List.cons.inj hall).2⟩
    · intro hstep
      obtain ⟨_, _, hsome, hrest⟩ := hstep
      cases hsome
      exact congrArg (i :: ·) hrest

def Commits (m : Machine σ ι ο) (s : σ) (is : List ι) (t : σ) : Prop :=
  (m.log s is).map Entry.input = is ∧ m.run s is = t

theorem Commits.nil (m : Machine σ ι ο) (s : σ) : m.Commits s [] s := ⟨rfl, rfl⟩

theorem Commits.cons {is : List ι} {t : σ} (h : m.step s i = some (o, s'))
    (hs : m.Commits s' is t) : m.Commits s (i :: is) t := by
  refine ⟨log_inputs_cons_iff.2 ⟨o, s', h, hs.1⟩, ?_⟩
  rw [run, next_of_step h]
  exact hs.2

theorem Commits.append {is js : List ι} {t u : σ} (h : m.Commits s is t)
    (h' : m.Commits t js u) : m.Commits s (is ++ js) u := by
  unfold Commits
  rw [log_append, run_append, List.map_append, h.1, h.2, h'.1]
  exact ⟨rfl, h'.2⟩

theorem log_eq_concat {is : List ι} {l : List (Entry σ ι ο)} {e : Entry σ ι ο}
    (h : m.log s is = l ++ [e]) :
    ∃ js, m.step (m.run s js) e.input = some (e.output, e.post) ∧
      m.log s (js ++ [e.input]) = l ++ [e] ∧ m.run s (js ++ [e.input]) = e.post := by
  obtain ⟨js, ks, -, hlog, hrun, hstep⟩ := log_split h
  have hcommit : m.step (m.run s js) e.input = some (e.output, e.post) := by
    rw [hrun]
    exact hstep
  refine ⟨js, hcommit, ?_, run_concat_of_step hcommit⟩
  rw [log_concat, entries_of_step hcommit, hlog, hrun]

theorem log_between {is : List ι} {l₁ l₂ l₃ : List (Entry σ ι ο)} {p e : Entry σ ι ο}
    (h : m.log s is = l₁ ++ p :: (l₂ ++ e :: l₃)) :
    m.step p.pre p.input = some (p.output, p.post) ∧
      m.step e.pre e.input = some (e.output, e.post) ∧
      ∃ js, m.log p.post js = l₂ ∧ m.run p.post js = e.pre := by
  obtain ⟨js, ks, rfl, rfl, hrun, hstep⟩ := log_split h
  have hlog := log_step (s := s) js ks (by rw [hrun]; exact hstep)
  rw [h, hrun] at hlog
  obtain ⟨-, hrest⟩ := List.cons.inj (List.append_cancel_left hlog)
  obtain ⟨js', ks', -, hl₂, hrun', hstep'⟩ := log_split hrest.symm
  exact ⟨hstep, hstep', js', hl₂, hrun'⟩

theorem log_after {is : List ι} {l₁ l₂ : List (Entry σ ι ο)} {e : Entry σ ι ο}
    (h : m.log s is = l₁ ++ e :: l₂) :
    ∃ js, m.log e.post js = l₂ ∧ m.run e.post js = m.run s is := by
  obtain ⟨js, ks, rfl, rfl, hrun, hstep⟩ := log_split h
  have hcommit : m.step (m.run s js) e.input = some (e.output, e.post) := by
    rw [hrun]
    exact hstep
  have hlog := log_step js ks hcommit
  rw [h] at hlog
  have hrest := (List.cons.inj (List.append_cancel_left hlog)).2
  refine ⟨ks, hrest.symm, ?_⟩
  rw [run_append, run, next_of_step hcommit]

theorem stable_of_log {P : σ → Prop} {K : Entry σ ι ο → Prop} (h₀ : P s)
    (hstep : ∀ s i o s', P s → m.step s i = some (o, s') → K ⟨s, i, o, s'⟩ → P s') (is : List ι)
    (hK : ∀ e ∈ m.log s is, K e) : P (m.run s is) := by
  refine log_invariant (P := fun l t => (∀ e ∈ l, K e) → P t) (fun _ => h₀) ?_ is hK
  intro l t i o t' hl hcommit hlog
  have ht := hl fun e he => hlog e (List.mem_append_left _ he)
  exact hstep t i o t' ht hcommit (hlog _ (List.mem_append_right _ List.mem_cons_self))

theorem always_run_iff {P : σ → Prop} {A : σ → ι → Prop} (h₀ : P s)
    (hstep : ∀ s i o s', P s → m.step s i = some (o, s') → (P s' ↔ A s i)) (is : List ι) :
    (∀ js ks, is = js ++ ks → P (m.run s js)) ↔ ∀ e ∈ m.log s is, A e.pre e.input := by
  constructor
  · intro hrun e he
    obtain ⟨js, ks, his, hpre, hcommit⟩ := mem_log.1 he
    have hbefore := hrun js (e.input :: ks) his
    have hafter := hrun (js ++ [e.input]) ks (by rw [his, List.append_cons])
    rw [run_concat_of_step (by rw [hpre]; exact hcommit)] at hafter
    rw [hpre] at hbefore
    exact (hstep _ _ _ _ hbefore hcommit).1 hafter
  · rintro hall js ks rfl
    rw [log_append] at hall
    -- the condition on the log so far travels with the invariant
    refine log_invariant (P := fun l t => (∀ e ∈ l, A e.pre e.input) → P t) (fun _ => h₀) ?_ js
      fun e he => hall e (List.mem_append_left _ he)
    intro l t i o t' hl hcommit hlog
    have ht := hl fun e he => hlog e (List.mem_append_left _ he)
    have hi := hlog ⟨t, i, o, t'⟩ (List.mem_append_right _ List.mem_cons_self)
    exact (hstep _ _ _ _ ht hcommit).2 hi

theorem always_run_iff_of_invariant {I P : σ → Prop} {A : σ → ι → Prop} (hI₀ : I s)
    (hI : ∀ s i o s', I s → m.step s i = some (o, s') → I s') (h₀ : P s)
    (hstep : ∀ s i o s', I s → P s → m.step s i = some (o, s') → (P s' ↔ A s i)) (is : List ι) :
    (∀ js ks, is = js ++ ks → P (m.run s js)) ↔ ∀ e ∈ m.log s is, A e.pre e.input := by
  rw [← always_run_iff (P := fun t => I t ∧ P t) ⟨hI₀, h₀⟩]
  · constructor
    · intro h js ks his
      exact ⟨invariant hI₀ hI js, h js ks his⟩
    · intro h js ks his
      exact (h js ks his).2
  · intro t i o t' ht hcommit
    rw [and_iff_right (hI t i o t' ht.1 hcommit)]
    exact hstep t i o t' ht.1 ht.2 hcommit

theorem run_eq_add_sum {I : σ → Prop} {g : σ → ℤ} {f : Entry σ ι ο → ℤ} (hI₀ : I s)
    (hI : ∀ s i o s', I s → m.step s i = some (o, s') → I s')
    (hg : ∀ s i o s', I s → m.step s i = some (o, s') → g s' = g s + f ⟨s, i, o, s'⟩)
    (is : List ι) : g (m.run s is) = g s + ((m.log s is).map f).sum := by
  refine (log_invariant (P := fun l t => I t ∧ g t = g s + (l.map f).sum) ⟨hI₀, ?_⟩ ?_ is).2
  · rw [List.map_nil, List.sum_nil, add_zero]
  · intro l t i o t' hl hstep
    obtain ⟨ht, hsum⟩ := hl
    refine ⟨hI t i o t' ht hstep, ?_⟩
    rw [hg t i o t' ht hstep, hsum, List.map_append, List.sum_append, List.map_singleton,
      List.sum_singleton, add_assoc]

/-- A machine whose committed steps are steps of another one, seen through `f`, runs as that one. -/
theorem exists_run_eq {σ' ι' ο' : Type} {m' : Machine σ' ι' ο'} {f : σ → σ'}
    (hstep : ∀ s i o s', m.step s i = some (o, s') → ∃ i' o', m'.step (f s) i' = some (o', f s'))
    (s : σ) (is : List ι) : ∃ is', m'.run (f s) is' = f (m.run s is) := by
  refine invariant (P := fun t => ∃ is', m'.run (f s) is' = f t) ⟨[], rfl⟩ ?_ is
  rintro t i o t' ⟨is', hrun⟩ hcommit
  obtain ⟨i', o', hcommit'⟩ := hstep t i o t' hcommit
  refine ⟨is' ++ [i'], ?_⟩
  rw [run_concat, hrun, next_of_step hcommit']

/-- Some entry of the log is a `Q`, and all entries after it are `R`. -/
def Since (Q R : Entry σ ι ο → Prop) (l : List (Entry σ ι ο)) : Prop :=
  ∃ l₁ e l₂, l = l₁ ++ e :: l₂ ∧ Q e ∧ ∀ e' ∈ l₂, R e'

theorem Since.here {Q R : Entry σ ι ο → Prop} (l : List (Entry σ ι ο)) {e : Entry σ ι ο}
    (h : Q e) : Since Q R (l ++ [e]) := ⟨l, e, [], rfl, h, List.forall_mem_nil _⟩

theorem Since.concat {Q R : Entry σ ι ο → Prop} {l : List (Entry σ ι ο)} {e : Entry σ ι ο}
    (h : Since Q R l) (he : R e) : Since Q R (l ++ [e]) := by
  obtain ⟨l₁, q, l₂, rfl, hq, hl₂⟩ := h
  refine ⟨l₁, q, l₂ ++ [e], by simp, hq, fun e' he' => ?_⟩
  rcases List.mem_append.1 he' with h | h
  · exact hl₂ e' h
  · rw [List.mem_singleton.1 h]
    exact he

theorem Since.of_append_cons {Q R : Entry σ ι ο → Prop} {l₁ l₂ : List (Entry σ ι ο)}
    {e : Entry σ ι ο} (h : Since Q R (l₁ ++ e :: l₂)) (hq : ¬Q e) (hr : ¬R e) : Since Q R l₂ := by
  obtain ⟨a, p, b, hsplit, hp, hb⟩ := h
  have hne : e ≠ p := by
    rintro rfl
    exact hq hp
  rcases List.append_eq_append_iff.1 hsplit with ⟨c, -, hc⟩ | ⟨c, -, hc⟩
  · rcases c with _ | ⟨x, c⟩
    · exact absurd (List.cons.inj hc).1 hne
    · obtain ⟨-, rfl⟩ := List.cons.inj hc
      exact ⟨c, p, b, rfl, hp, hb⟩
  · rcases c with _ | ⟨x, c⟩
    · exact absurd (List.cons.inj hc).1.symm hne
    · obtain ⟨-, rfl⟩ := List.cons.inj hc
      exact absurd (hb e (by simp)) hr

theorem Since.latest {Q R : Entry σ ι ο → Prop} {l₁ l₂ : List (Entry σ ι ο)} {e : Entry σ ι ο}
    (h : Since Q R (l₁ ++ e :: l₂)) (hQ : ∀ e, Q e → ¬R e) (hr : ¬R e) (hl₂ : ∀ e' ∈ l₂, R e') :
    Q e := by
  by_contra hq
  obtain ⟨a, p, b, rfl, hp, -⟩ := h.of_append_cons hq hr
  exact hQ p hp (hl₂ p (List.mem_append_right _ List.mem_cons_self))

theorem Since.mono {Q Q' R R' : Entry σ ι ο → Prop} {l : List (Entry σ ι ο)} (h : Since Q R l)
    (hQ : ∀ e, Q e → Q' e) (hR : ∀ e, R e → R' e) : Since Q' R' l := by
  obtain ⟨l₁, e, l₂, hl, he, hl₂⟩ := h
  exact ⟨l₁, e, l₂, hl, hQ e he, fun e' he' => hR e' (hl₂ e' he')⟩

theorem exists_mem_between {Q R X : Entry σ ι ο → Prop} {l : List (Entry σ ι ο)}
    (hsince : ∀ l₁ e l₂, l = l₁ ++ e :: l₂ → X e → Since Q R l₁) (hQ : ∀ e, X e → ¬Q e)
    (hR : ∀ e, X e → ¬R e) {l₁ l₂ l₃ : List (Entry σ ι ο)} {e₁ e₂ : Entry σ ι ο}
    (hl : l = l₁ ++ e₁ :: (l₂ ++ e₂ :: l₃)) (h₁ : X e₁) (h₂ : X e₂) : ∃ p ∈ l₂, Q p := by
  rw [← List.cons_append, ← List.append_assoc] at hl
  have hlatest := (hsince _ _ _ hl h₂).of_append_cons (hQ e₁ h₁) (hR e₁ h₁)
  obtain ⟨a, p, b, rfl, hp, -⟩ := hlatest
  exact ⟨p, List.mem_append_right _ List.mem_cons_self, hp⟩

theorem since_of_run {H : σ → Prop} {Q R : Entry σ ι ο → Prop} (h₀ : ¬H s)
    (hstep : ∀ s i o s', m.step s i = some (o, s') → H s' →
      Q ⟨s, i, o, s'⟩ ∨ (H s ∧ R ⟨s, i, o, s'⟩)) (is : List ι) (h : H (m.run s is)) :
    Since Q R (m.log s is) := by
  refine log_invariant (P := fun l t => H t → Since Q R l) (fun h => absurd h h₀) ?_ is h
  intro l t i o t' hl ht ht'
  rcases hstep t i o t' ht ht' with hq | ⟨hpre, hr⟩
  · exact .here l hq
  · exact (hl hpre).concat hr

theorem Since.of_concat {Q R : Entry σ ι ο → Prop} {l : List (Entry σ ι ο)} {e : Entry σ ι ο}
    (h : Since Q R (l ++ [e])) : Q e ∨ (Since Q R l ∧ R e) := by
  obtain ⟨l₁, q, l₂, hsplit, hq, hl₂⟩ := h
  rcases List.eq_nil_or_concat l₂ with rfl | ⟨l₂, x, rfl⟩
  · have hlast := (List.append_inj' hsplit rfl).2
    left
    rw [(List.cons.inj hlast).1]
    exact hq
  · right
    rw [List.concat_eq_append] at hsplit hl₂
    rw [← List.cons_append, ← List.append_assoc] at hsplit
    have hinit := (List.append_inj' hsplit rfl).1
    have hlast := (List.append_inj' hsplit rfl).2
    rw [(List.cons.inj hlast).1]
    refine ⟨⟨l₁, q, l₂, hinit, hq, ?_⟩, hl₂ x (List.mem_append_right _ List.mem_cons_self)⟩
    intro e' he'
    exact hl₂ e' (List.mem_append_left _ he')

/-- A condition that every `Q` establishes and every `R` keeps, and nothing else does either, has
held all along or holds since a `Q`. -/
theorem run_iff_always_or_since {I H : σ → Prop} {Q R : Entry σ ι ο → Prop} (hI₀ : I s)
    (hI : ∀ s i o s', I s → m.step s i = some (o, s') → I s')
    (hstep : ∀ s i o s', I s → m.step s i = some (o, s') →
      (H s' ↔ Q ⟨s, i, o, s'⟩ ∨ (H s ∧ R ⟨s, i, o, s'⟩))) (is : List ι) :
    H (m.run s is) ↔ (H s ∧ ∀ e ∈ m.log s is, R e) ∨ Since Q R (m.log s is) := by
  refine (log_invariant (P := fun l t => I t ∧ (H t ↔ (H s ∧ ∀ e ∈ l, R e) ∨ Since Q R l))
    ⟨hI₀, ?_⟩ ?_ is).2
  · constructor
    · intro h
      exact .inl ⟨h, List.forall_mem_nil _⟩
    · intro h
      rcases h with ⟨h, -⟩ | ⟨l₁, q, l₂, hsplit, -⟩
      · exact h
      · exact absurd hsplit (by simp)
  · intro l t i o t' ih ht
    refine ⟨hI t i o t' ih.1 ht, ?_⟩
    rw [hstep t i o t' ih.1 ht, ih.2, List.forall_mem_append, List.forall_mem_singleton]
    constructor
    · intro h
      rcases h with hq | ⟨⟨h, hl⟩ | hsince, hr⟩
      · exact .inr (.here l hq)
      · exact .inl ⟨h, hl, hr⟩
      · exact .inr (hsince.concat hr)
    · intro h
      rcases h with ⟨h, hl, hr⟩ | hsince
      · exact .inr ⟨.inl ⟨h, hl⟩, hr⟩
      · rcases hsince.of_concat with hq | ⟨hsince, hr⟩
        · exact .inl hq
        · exact .inr ⟨.inr hsince, hr⟩

theorem run_iff_since {I H : σ → Prop} {Q R : Entry σ ι ο → Prop} (hI₀ : I s)
    (hI : ∀ s i o s', I s → m.step s i = some (o, s') → I s') (h₀ : ¬H s)
    (hstep : ∀ s i o s', I s → m.step s i = some (o, s') →
      (H s' ↔ Q ⟨s, i, o, s'⟩ ∨ (H s ∧ R ⟨s, i, o, s'⟩))) (is : List ι) :
    H (m.run s is) ↔ Since Q R (m.log s is) := by
  rw [run_iff_always_or_since hI₀ hI hstep is]
  exact or_iff_right fun h => h₀ h.1

/-- If every value that a step takes lies above a mark which the step raises at least to it, the
values taken by a run are strictly increasing and the final mark bounds them. -/
theorem pairwise_log {α : Type} [Preorder α] {f : Entry σ ι ο → Option α} {g : σ → α}
    (hf : ∀ s i o s', m.step s i = some (o, s') → g s ≤ g s' ∧
      ∀ v ∈ f ⟨s, i, o, s'⟩, g s < v ∧ v ≤ g s') (s : σ) (is : List ι) :
    ((m.log s is).filterMap f).Pairwise (· < ·) ∧
      ∀ v ∈ (m.log s is).filterMap f, v ≤ g (m.run s is) := by
  refine log_invariant (P := fun l t => (l.filterMap f).Pairwise (· < ·) ∧
    ∀ v ∈ l.filterMap f, v ≤ g t) ⟨List.Pairwise.nil, by simp⟩ ?_ is
  rintro l t i o t' ⟨hl, hg⟩ hstep
  obtain ⟨hle, hv⟩ := hf t i o t' hstep
  rw [List.filterMap_append, List.filterMap_cons, List.filterMap_nil]
  rcases he : f ⟨t, i, o, t'⟩ with _ | v
  · rw [List.append_nil]
    exact ⟨hl, fun w hw => (hg w hw).trans hle⟩
  · obtain ⟨hlt, hle'⟩ := hv v he
    refine ⟨List.pairwise_append.2 ⟨hl, List.pairwise_singleton _ _, ?_⟩, ?_⟩
    · intro w hw v' hv'
      rw [List.mem_singleton.1 hv']
      exact (hg w hw).trans_lt hlt
    · intro w hw
      rcases List.mem_append.1 hw with hw | hw
      · exact (hg w hw).trans hle
      · rw [List.mem_singleton.1 hw]
        exact hle'

end Machine
end Library
