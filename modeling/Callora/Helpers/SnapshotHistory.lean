import Callora.Helpers.SnapshotDiff

/-! What the diffs of successive snapshots are good for. Each is a shortest list of changes from one
snapshot to the next and can be undone, so that the diffs of a history lead from any of its
snapshots to any other, forwards and backwards. -/

namespace Callora.Helpers
open Library

variable {K V : Type}

def Change.invert : Change K V → Change K V
  | .added key value => .removed key value
  | .modified key oldValue newValue => .modified key newValue oldValue
  | .removed key value => .added key value

theorem Change.key_invert (c : Change K V) : c.invert.key = c.key := by
  cases c <;> rfl

def Change.Fits (m : Store K V) : Change K V → Prop
  | .added key _ => m key = none
  | .modified key oldValue _ => m key = some oldValue
  | .removed key value => m key = some value

theorem Change.fits_congr {m n : Store K V} {c : Change K V} (h : n c.key = m c.key) :
    c.Fits n ↔ c.Fits m := by
  cases c with
  | added => exact Iff.of_eq (congrArg (· = none) h)
  | modified key oldValue => exact Iff.of_eq (congrArg (· = some oldValue) h)
  | removed key value => exact Iff.of_eq (congrArg (· = some value) h)

variable [LinearOrder K] {m m' : Store K V} {changes : List (Change K V)}

def Fit : Store K V → List (Change K V) → Prop
  | _, [] => True
  | m, c :: changes => c.Fits m ∧ Fit (c.apply m) changes

theorem applyAll_append (changes changes' : List (Change K V)) (m : Store K V) :
    applyAll (changes ++ changes') m = applyAll changes' (applyAll changes m) :=
  List.foldl_append

theorem fit_append {changes' : List (Change K V)} :
    Fit m (changes ++ changes') ↔ Fit m changes ∧ Fit (applyAll changes m) changes' := by
  induction changes generalizing m with
  | nil => exact (Iff.of_eq (true_and _)).symm
  | cons c changes ih => exact (and_congr_right fun _ => ih).trans and_assoc.symm

theorem Change.undo {c : Change K V} (h : c.Fits m) : c.invert.apply (c.apply m) = m := by
  funext k
  by_cases hk : k = c.key
  · subst hk
    cases c with
    | added key value => exact (Store.remove_self _ key).trans (Eq.symm h)
    | modified key oldValue newValue => exact (Store.set_self _ key oldValue).trans (Eq.symm h)
    | removed key value => exact (Store.set_self _ key value).trans (Eq.symm h)
  · have hinvert : k ≠ c.invert.key := by
      rw [Change.key_invert]
      exact hk
    rw [Change.apply_of_ne hinvert, Change.apply_of_ne hk]

theorem undo_all (h : Fit m changes) :
    applyAll (changes.map Change.invert).reverse (applyAll changes m) = m := by
  induction changes generalizing m with
  | nil => rfl
  | cons c changes ih =>
    rcases h with ⟨hfirst, hrest⟩
    have hstart : applyAll (c :: changes) m = applyAll changes (c.apply m) := rfl
    rw [List.map_cons, List.reverse_cons, applyAll_append, hstart, ih hrest]
    exact Change.undo hfirst

theorem fit_of_sorted (hs : changes.Pairwise fun c d => c.key < d.key)
    (h : ∀ c ∈ changes, c.Fits m) : Fit m changes := by
  induction changes generalizing m with
  | nil => trivial
  | cons c changes ih =>
    rcases List.pairwise_cons.1 hs with ⟨hbelow, hs⟩
    rcases List.forall_mem_cons.1 h with ⟨hfirst, hrest⟩
    refine ⟨hfirst, ih hs ?_⟩
    intro d hd
    have huntouched : c.apply m d.key = m d.key := Change.apply_of_ne (hbelow d hd).ne'
    exact (Change.fits_congr huntouched).2 (hrest d hd)

variable [DecidableEq V]

omit [LinearOrder K] in
theorem fits_of_changeAt {k : K} {c : Change K V} (h : changeAt m m' k = some c) : c.Fits m := by
  have hkey := key_of_changeAt h
  subst hkey
  cases c with
  | added => exact (changeAt_eq_added_iff.1 h).1
  | modified => exact (changeAt_eq_modified_iff.1 h).1
  | removed => exact (changeAt_eq_removed_iff.1 h).1

theorem Diffs.fit (h : Diffs m m' changes) : Fit m changes := by
  apply fit_of_sorted h.sorted
  intro c hc
  exact fits_of_changeAt ((h.mem_iff c).1 hc)

omit [LinearOrder K] in
theorem changeAt_swap (m m' : Store K V) (k : K) :
    changeAt m' m k = (changeAt m m' k).map Change.invert := by
  unfold changeAt
  rcases m k with _ | old
  · rcases m' k with _ | new
    · rfl
    · rfl
  · rcases m' k with _ | new
    · rfl
    · dsimp only
      by_cases hsame : old = new
      · rw [if_neg (not_not.2 hsame), if_neg (not_not.2 hsame.symm)]
        rfl
      · rw [if_pos hsame, if_pos (Ne.symm hsame)]
        rfl

theorem Diffs.swap (h : Diffs m m' changes) : Diffs m' m (changes.map Change.invert) := by
  constructor
  · apply List.pairwise_map.2
    apply h.sorted.imp
    intro c d hlt
    rw [Change.key_invert, Change.key_invert]
    exact hlt
  · intro c
    rw [changeAt_swap]
    constructor
    · intro hc
      rcases List.mem_map.1 hc with ⟨d, hd, rfl⟩
      rw [Change.key_invert, (h.mem_iff d).1 hd]
      rfl
    · intro hc
      rcases Option.map_eq_some_iff.1 hc with ⟨d, hd, rfl⟩
      rw [Change.key_invert] at hd
      exact List.mem_map_of_mem ((h.mem_iff d).2 hd)

theorem Diffs.length_le {changes' : List (Change K V)} (h : Diffs m m' changes)
    (happly : applyAll changes' m = m') : changes.length ≤ changes'.length := by
  have hnodup : (changes.map Change.key).Nodup := by
    apply List.pairwise_map.2
    exact h.sorted.imp fun hlt => hlt.ne
  have hsub : changes.map Change.key ⊆ changes'.map Change.key := by
    intro k hk
    rcases List.mem_map.1 hk with ⟨c, hc, rfl⟩
    have hdiffer := (h.exists_key_iff c.key).1 ⟨c, hc, rfl⟩
    by_contra hmissing
    apply hdiffer
    rw [← happly]
    apply Eq.symm
    apply applyAll_of_forall_ne
    intro d hd hkey
    apply hmissing
    rw [hkey]
    exact List.mem_map_of_mem hd
  have hle := (List.subperm_of_subset hnodup hsub).length_le
  rw [List.length_map, List.length_map] at hle
  exact hle

/-- No list of changes from one snapshot to another is shorter than their diff, which is empty
exactly if they are the same; and compared the other way round the snapshots have the inverse
diff. -/
theorem diffSnapshots_minimal (before after : List (K × V)) :
    (∀ changes, applyAll changes (Store.ofList before) = Store.ofList after →
        (diffSnapshots before after).length ≤ changes.length) ∧
      (diffSnapshots before after = [] ↔ Store.ofList before = Store.ofList after) ∧
      diffSnapshots after before = (diffSnapshots before after).map Change.invert := by
  have hdiffs := diffs_diffSnapshots before after
  refine ⟨?_, ?_, ?_⟩
  · intro changes happly
    exact hdiffs.length_le happly
  · constructor
    · intro hnone
      have happly := hdiffs.applyAll_eq
      rw [hnone] at happly
      exact happly
    · intro hsame
      have hle : (diffSnapshots before after).length ≤ ([] : List (Change K V)).length :=
        hdiffs.length_le hsame
      exact List.eq_nil_of_length_eq_zero (Nat.le_zero.1 hle)
  · exact (diffs_diffSnapshots after before).unique hdiffs.swap

/-! Histories. -/

/-- The diffs of a snapshot and those that follow it, each to the next. -/
def history : List (K × V) → List (List (K × V)) → List (Change K V)
  | _, [] => []
  | before, after :: rest => diffSnapshots before after ++ history after rest

theorem fit_history (first : List (K × V)) (rest : List (List (K × V))) :
    Fit (Store.ofList first) (history first rest) ∧
      applyAll (history first rest) (Store.ofList first) = Store.ofList (rest.getLastD first) := by
  induction rest generalizing first with
  | nil => exact ⟨trivial, rfl⟩
  | cons after rest ih =>
    have hdiffs := diffs_diffSnapshots first after
    rcases ih after with ⟨hfit, happly⟩
    unfold history
    rw [fit_append, applyAll_append, hdiffs.applyAll_eq]
    refine ⟨⟨hdiffs.fit, hfit⟩, ?_⟩
    rw [happly, List.getLastD_cons]

/-- The diffs of a history of snapshots take the first one to the last, and their inverses in
reverse order take the last one back to the first. -/
theorem history_replays (first : List (K × V)) (rest : List (List (K × V))) :
    applyAll (history first rest) (Store.ofList first) = Store.ofList (rest.getLastD first) ∧
      applyAll ((history first rest).map Change.invert).reverse
        (Store.ofList (rest.getLastD first)) = Store.ofList first := by
  rcases fit_history first rest with ⟨hfit, happly⟩
  refine ⟨happly, ?_⟩
  rw [← happly]
  exact undo_all hfit

end Callora.Helpers
