import Mathlib.Data.List.Sort
import Callora.Library.Store

/-! Maps kept as a list of entries in strict order of their keys. As a store such a map is the last
value written under each key, whatever the order of the writes. -/

namespace Library

variable {κ ν : Type} [LinearOrder κ]

def lookup : List (κ × ν) → Store κ ν
  | [] => .empty
  | e :: l => (lookup l).set e.1 e.2

def insertEntry (k : κ) (v : ν) : List (κ × ν) → List (κ × ν)
  | [] => [(k, v)]
  | e :: l =>
    if k < e.1 then (k, v) :: e :: l
    else if e.1 < k then e :: insertEntry k v l
    else (k, v) :: l

theorem lookup_insertEntry (k : κ) (v : ν) (l : List (κ × ν)) :
    lookup (insertEntry k v l) = (lookup l).set k v := by
  induction l with
  | nil => rfl
  | cons e l ih =>
    rw [insertEntry]
    split_ifs with hlt hgt
    · rfl
    · rw [lookup, ih, lookup]
      exact Store.set_comm hgt.ne' ..
    · have heq : k = e.1 := le_antisymm (not_lt.1 hgt) (not_lt.1 hlt)
      rw [lookup, lookup, heq]
      exact (Store.set_set ..).symm

@[simp] theorem lookup_cons_self (e : κ × ν) (l : List (κ × ν)) :
    lookup (e :: l) e.1 = some e.2 := Store.set_self ..

theorem lookup_cons_of_ne {e : κ × ν} {l : List (κ × ν)} {k : κ} (h : k ≠ e.1) :
    lookup (e :: l) k = lookup l k := Store.set_of_ne h

theorem lt_of_lookup {l : List (κ × ν)} {k k' : κ} (hl : ∀ e ∈ l, k < e.1)
    (h : lookup l k' ≠ none) : k < k' := by
  induction l with
  | nil => exact absurd rfl h
  | cons e l ih =>
    obtain ⟨he, hl⟩ := List.forall_mem_cons.1 hl
    by_cases hkey : k' = e.1
    · rw [hkey]
      exact he
    · rw [lookup_cons_of_ne hkey] at h
      exact ih hl h

theorem forall_insertEntry {P : κ → Prop} {k : κ} {v : ν} {l : List (κ × ν)} (hk : P k)
    (hl : ∀ e ∈ l, P e.1) : ∀ e ∈ insertEntry k v l, P e.1 := by
  induction l with
  | nil => simpa [insertEntry] using hk
  | cons e l ih =>
    obtain ⟨he, hl⟩ := List.forall_mem_cons.1 hl
    rw [insertEntry]
    split_ifs
    · exact List.forall_mem_cons.2 ⟨hk, List.forall_mem_cons.2 ⟨he, hl⟩⟩
    · exact List.forall_mem_cons.2 ⟨he, ih hl⟩
    · exact List.forall_mem_cons.2 ⟨hk, hl⟩

theorem pairwise_insertEntry {k : κ} {v : ν} {l : List (κ × ν)}
    (hl : l.Pairwise fun a b => a.1 < b.1) :
    (insertEntry k v l).Pairwise fun a b => a.1 < b.1 := by
  induction l with
  | nil => exact List.pairwise_singleton _ _
  | cons e l ih =>
    obtain ⟨he, hl'⟩ := List.pairwise_cons.1 hl
    rw [insertEntry]
    split_ifs with hlt hgt
    · refine List.pairwise_cons.2 ⟨List.forall_mem_cons.2 ⟨hlt, fun a ha => ?_⟩, hl⟩
      exact hlt.trans (he a ha)
    · exact List.pairwise_cons.2 ⟨forall_insertEntry hgt he, ih hl'⟩
    · have heq : k = e.1 := le_antisymm (not_lt.1 hgt) (not_lt.1 hlt)
      refine List.pairwise_cons.2 ⟨?_, hl'⟩
      rw [heq]
      exact he

structure SortedMap (κ ν : Type) [LinearOrder κ] where
  entries : List (κ × ν)
  sorted : entries.Pairwise fun a b => a.1 < b.1

namespace SortedMap

def empty : SortedMap κ ν := ⟨[], List.Pairwise.nil⟩

def insert (m : SortedMap κ ν) (k : κ) (v : ν) : SortedMap κ ν :=
  ⟨insertEntry k v m.entries, pairwise_insertEntry m.sorted⟩

/-- The map of a list of entries, of which a later one wins. -/
def ofList (l : List (κ × ν)) : SortedMap κ ν := l.foldl (fun m e => m.insert e.1 e.2) .empty

end SortedMap

def Store.ofList (l : List (κ × ν)) : Store κ ν := l.foldl (fun m e => m.set e.1 e.2) .empty

theorem SortedMap.lookup_ofList (l : List (κ × ν)) :
    lookup (ofList l).entries = Store.ofList l := by
  have hfold (m : SortedMap κ ν) : lookup (l.foldl (fun m e => m.insert e.1 e.2) m).entries =
      l.foldl (fun m e => m.set e.1 e.2) (lookup m.entries) := by
    induction l generalizing m with
    | nil => rfl
    | cons e l ih =>
      rw [List.foldl_cons, List.foldl_cons, ih, insert, lookup_insertEntry]
  exact hfold .empty

theorem Store.ofList_perm {l l' : List (κ × ν)} (hperm : l.Perm l')
    (hnodup : (l.map Prod.fst).Nodup) : Store.ofList l = Store.ofList l' := by
  apply hperm.foldl_eq'
  intro e he e' he' m
  by_cases hkey : e.1 = e'.1
  · rw [List.inj_on_of_nodup_map hnodup he he' hkey]
  · exact Store.set_comm hkey ..

end Library
