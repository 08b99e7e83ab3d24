import Mathlib.Logic.Function.Basic
import Callora.Library.Machine

/-! Machines that share a resource. Each keeps the resource in its own state and some of its inputs
are its own; the other inputs stand for what its environment does to the resource. Put together the
machines take turns on the inputs that are admitted, and whoever steps hands the resource on to all
the others. If a machine can absorb what the others do to the resource, then seen from it a run of
all of them is one of its own, with the steps it takes in the same order and between the same
states. -/

namespace Library

structure Client (ω : Type) where
  State : Type
  Input : Type
  Output : Type
  machine : Machine State Input Output
  resource : State → ω
  replace : State → ω → State
  own : Input → Bool
  admitted : Input → Bool
  resource_replace : ∀ s w, resource (replace s w) = w
  replace_resource : ∀ s, replace s (resource s) = s
  replace_replace : ∀ s w w', replace (replace s w) w' = replace s w'

namespace Client
variable {ω : Type} (c : Client ω)

/-- An input that the client takes when it is its turn. -/
structure Turn where
  input : c.Input
  own : c.own input = true
  admitted : c.admitted input = true

def Takes (w w' : ω) : Prop :=
  ∃ s o s', ∃ i : c.Turn, c.machine.step s i.input = some (o, s') ∧ c.resource s = w ∧
    c.resource s' = w'

/-- The client's environment may take the resource from `w` to `w'`. -/
def Absorbs (w w' : ω) : Prop :=
  ∀ s, c.resource s = w → ∃ is, (∀ i ∈ is, c.own i = false) ∧ c.machine.run s is = c.replace s w'

def ownEntries (l : List (Entry c.State c.Input c.Output)) :
    List (Entry c.State c.Input c.Output) := l.filter fun e => c.own e.input

variable {c} {w w' w'' : ω}

theorem Absorbs.refl (w : ω) : c.Absorbs w w := by
  intro s hs
  refine ⟨[], List.forall_mem_nil _, ?_⟩
  rw [← hs, c.replace_resource]
  rfl

theorem Absorbs.trans (h : c.Absorbs w w') (h' : c.Absorbs w' w'') : c.Absorbs w w'' := by
  intro s hs
  obtain ⟨is, henv, hrun⟩ := h s hs
  obtain ⟨is', henv', hrun'⟩ := h' (c.replace s w') (c.resource_replace s w')
  refine ⟨is ++ is', List.forall_mem_append.2 ⟨henv, henv'⟩, ?_⟩
  rw [Machine.run_append, hrun, hrun', c.replace_replace]

theorem absorbs_of_step {i : c.Input} {o : c.Output} (henv : c.own i = false)
    (h : ∀ s, c.resource s = w → c.machine.step s i = some (o, c.replace s w')) :
    c.Absorbs w w' := by
  intro s hs
  refine ⟨[i], List.forall_mem_singleton.2 henv, ?_⟩
  exact Machine.next_of_step (h s hs)

theorem ownEntries_append (l₁ l₂ : List (Entry c.State c.Input c.Output)) :
    c.ownEntries (l₁ ++ l₂) = c.ownEntries l₁ ++ c.ownEntries l₂ := List.filter_append ..

theorem ownEntries_log_of_environment {s : c.State} {is : List c.Input}
    (h : ∀ i ∈ is, c.own i = false) : c.ownEntries (c.machine.log s is) = [] := by
  apply List.filter_eq_nil_iff.2
  intro e he
  obtain ⟨js, ks, his, -⟩ := Machine.mem_log.1 he
  have hmem : e.input ∈ is := by
    rw [his]
    exact List.mem_append_right _ List.mem_cons_self
  rw [h e.input hmem]
  exact Bool.false_ne_true

end Client

/-- The states of all clients, which agree on the resource. -/
structure Shared {ω κ : Type} (C : κ → Client ω) where
  part : ∀ k, (C k).State
  resource : ω
  agree : ∀ k, (C k).resource (part k) = resource

namespace Shared
variable {ω κ : Type} [DecidableEq κ] {C : κ → Client ω}

def handOn (s : Shared C) (k : κ) (t : (C k).State) : Shared C where
  part := Function.update (fun j => (C j).replace (s.part j) ((C k).resource t)) k t
  resource := (C k).resource t
  agree j := by
    rcases eq_or_ne j k with rfl | hj
    · rw [Function.update_self]
    · rw [Function.update_of_ne hj, (C j).resource_replace]

@[simp] theorem resource_handOn (s : Shared C) (k : κ) (t : (C k).State) :
    (s.handOn k t).resource = (C k).resource t := rfl

@[simp] theorem part_handOn_self (s : Shared C) (k : κ) (t : (C k).State) :
    (s.handOn k t).part k = t := by
  simp only [handOn, Function.update_self]

theorem part_handOn_of_ne (s : Shared C) {j k : κ} (h : j ≠ k) (t : (C k).State) :
    (s.handOn k t).part j = (C j).replace (s.part j) ((C k).resource t) := by
  simp only [handOn, Function.update_of_ne h]

end Shared

variable {ω κ : Type} [DecidableEq κ]

def share (C : κ → Client ω) : Machine (Shared C) (Σ k, (C k).Turn) (Σ k, (C k).Output) where
  step s i := ((C i.1).machine.step (s.part i.1) i.2.input).map fun r =>
    (⟨i.1, r.1⟩, s.handOn i.1 r.2)

abbrev SharedEntry (C : κ → Client ω) : Type :=
  Entry (Shared C) (Σ k, (C k).Turn) (Σ k, (C k).Output)

def SharedEntry.at {C : κ → Client ω} (j : κ) (e : SharedEntry C) :
    Option (Entry (C j).State (C j).Input (C j).Output) :=
  if h : e.input.1 = j ∧ e.output.1 = j then
    some ⟨e.pre.part j, (h.1 ▸ e.input.2).input, h.2 ▸ e.output.2, e.post.part j⟩
  else none

section
variable {C : κ → Client ω} {s s' : Shared C}

theorem step_share_eq_some {k : κ} {i : (C k).Turn} {o : Σ k, (C k).Output} :
    (share C).step s ⟨k, i⟩ = some (o, s') ↔
      ∃ o' t, (C k).machine.step (s.part k) i.input = some (o', t) ∧ o = ⟨k, o'⟩ ∧
        s' = s.handOn k t := by
  constructor
  · intro h
    obtain ⟨⟨o', t⟩, hstep, hr⟩ := Option.map_eq_some_iff.1 h
    obtain ⟨ho, hs⟩ := Prod.ext_iff.1 hr
    exact ⟨o', t, hstep, ho.symm, hs.symm⟩
  · intro h
    obtain ⟨o', t, hstep, rfl, rfl⟩ := h
    exact Option.map_eq_some_iff.2 ⟨(o', t), hstep, rfl⟩

theorem SharedEntry.at_self (j : κ) (i : (C j).Turn) (o : (C j).Output) :
    SharedEntry.at j (⟨s, ⟨j, i⟩, ⟨j, o⟩, s'⟩ : SharedEntry C) =
      some ⟨s.part j, i.input, o, s'.part j⟩ := dif_pos ⟨rfl, rfl⟩

theorem SharedEntry.at_of_ne {j k : κ} (h : k ≠ j) (i : (C k).Turn) (o : Σ k, (C k).Output) :
    SharedEntry.at j (⟨s, ⟨k, i⟩, o, s'⟩ : SharedEntry C) = none := dif_neg fun he => h he.1

theorem takes_of_step {i : Σ k, (C k).Turn} {o : Σ k, (C k).Output}
    (h : (share C).step s i = some (o, s')) : (C i.1).Takes s.resource s'.resource := by
  obtain ⟨k, i⟩ := i
  obtain ⟨o', t, hstep, rfl, rfl⟩ := step_share_eq_some.1 h
  exact ⟨s.part k, o', t, i, hstep, s.agree k, rfl⟩

/-- Seen from a client that absorbs what the others do, a run of all is a run of its own in which
it takes the same steps. -/
theorem exists_part_run {j : κ}
    (habsorbs : ∀ k, k ≠ j → ∀ w w', (C k).Takes w w' → (C j).Absorbs w w') (s : Shared C)
    (inputs : List (Σ k, (C k).Turn)) :
    ∃ js, (C j).machine.run (s.part j) js = ((share C).run s inputs).part j ∧
      (C j).ownEntries ((C j).machine.log (s.part j) js) =
        ((share C).log s inputs).filterMap (SharedEntry.at j) := by
  refine Machine.log_invariant (P := fun l t => ∃ js, (C j).machine.run (s.part j) js = t.part j ∧
    (C j).ownEntries ((C j).machine.log (s.part j) js) = l.filterMap (SharedEntry.at j))
    ⟨[], rfl, rfl⟩ ?_ inputs
  rintro l t ⟨k, i⟩ o t' ⟨js, hrun, hlog⟩ hstep
  have htakes : (C k).Takes t.resource t'.resource := takes_of_step hstep
  obtain ⟨o', u, hpart, rfl, rfl⟩ := step_share_eq_some.1 hstep
  rcases eq_or_ne k j with rfl | hk
  -- the client's own step
  · rw [← hrun] at hpart
    refine ⟨js ++ [i.input], ?_, ?_⟩
    · rw [Machine.run_concat_of_step hpart, Shared.part_handOn_self]
    · have hown : (C k).ownEntries [⟨(C k).machine.run (s.part k) js, i.input, o', u⟩] =
          [⟨(C k).machine.run (s.part k) js, i.input, o', u⟩] := List.filter_cons_of_pos i.own
      rw [Machine.log_concat, Machine.entries_of_step hpart, Client.ownEntries_append, hlog, hown,
        List.filterMap_append, List.filterMap_cons, SharedEntry.at_self, Shared.part_handOn_self,
        hrun, List.filterMap_nil]
  -- a step of another client, which the environment of this one takes
  · obtain ⟨is, henv, hreplace⟩ := habsorbs k hk _ _ htakes (t.part j) (t.agree j)
    refine ⟨js ++ is, ?_, ?_⟩
    · rw [Machine.run_append, hrun, hreplace, Shared.part_handOn_of_ne t hk.symm]
      rfl
    · rw [Machine.log_append, Client.ownEntries_append, hlog,
        Client.ownEntries_log_of_environment henv, List.filterMap_append, List.filterMap_cons,
        SharedEntry.at_of_ne hk, List.filterMap_nil]

end
end Library
