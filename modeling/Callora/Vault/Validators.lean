import Mathlib.Data.List.GetD
import Mathlib.Data.Vector.Defs
import Mathlib.Order.Basic
import Callora.Library.Call

/-! The bounded strings that the vault accepts as metadata. A string is a list of bytes; an accepted
one is visible ASCII without a space at either end, and comes back in a buffer of fixed length. -/

namespace Callora.Vault.Validators
open Library

def MAX_VALIDATED_STRING_LEN : ℕ := 256

def SPACE : UInt8 := 0x20

def copyIntoSlice {n : ℕ} (s : List UInt8) (buf : Vector UInt8 n) : Vector UInt8 n :=
  .ofFn fun i => s.getD i buf[i]

def normalizeVisibleAscii (s : List UInt8) :
    Call Unit Unit (Vector UInt8 MAX_VALIDATED_STRING_LEN) := do
  let len := s.length
  Call.ensure (¬(len = 0 ∨ MAX_VALIDATED_STRING_LEN < len)) ()
  let buf := copyIntoSlice s (.replicate MAX_VALIDATED_STRING_LEN 0)
  let bytes := buf.toList.take len
  Call.ensure (¬(bytes[0]? = some SPACE ∨ bytes[len - 1]? = some SPACE)) ()
  forM bytes fun b => Call.ensure (0x20 ≤ b ∧ b ≤ 0x7e) ()
  pure buf

def isVisibleAsciiMetadata (s : List UInt8) : Bool := ((normalizeVisibleAscii s).commit ()).isSome

structure VisibleAscii (s : List UInt8) : Prop where
  length_pos : 1 ≤ s.length
  length_le : s.length ≤ 256
  visible : ∀ b ∈ s, 0x20 ≤ b ∧ b ≤ 0x7e
  head_ne : s.head? ≠ some 0x20
  getLast_ne : s.getLast? ≠ some 0x20

theorem toList_copyIntoSlice {n : ℕ} {s : List UInt8} (h : s.length ≤ n) :
    (copyIntoSlice s (.replicate n 0)).toList = s ++ List.replicate (n - s.length) 0 := by
  apply List.ext_getElem
  · rw [Vector.length_toList, List.length_append, List.length_replicate]
    omega
  · intro i hi hi'
    rw [List.getElem_append, Vector.getElem_toList]
    unfold copyIntoSlice
    rw [Vector.getElem_ofFn]
    split_ifs with hlt
    · exact List.getD_eq_getElem _ _ hlt
    · rw [List.getElem_replicate, List.getD_eq_default _ _ (Nat.le_of_not_lt hlt)]
      exact Vector.getElem_replicate ..

theorem takeWhile_padded {s : List UInt8} (h : ∀ b ∈ s, b ≠ 0) (n : ℕ) :
    (s ++ List.replicate n 0).takeWhile (· ≠ 0) = s := by
  have hs : ∀ b ∈ s, decide (b ≠ 0) = true := by simpa using h
  rw [List.takeWhile_append_of_pos hs]
  cases n with
  | zero => simp
  | succ n => simp [List.replicate_succ]

theorem take_copyIntoSlice {n : ℕ} {s : List UInt8} (h : s.length ≤ n) :
    (copyIntoSlice s (.replicate n 0)).toList.take s.length = s := by
  rw [toList_copyIntoSlice h, List.take_left]

theorem run_normalizeVisibleAscii_eq_ok {s : List UInt8}
    {buf : Vector UInt8 MAX_VALIDATED_STRING_LEN} {u u' : Unit} :
    (normalizeVisibleAscii s).run u = .ok buf u' ↔
      VisibleAscii s ∧ buf.toList = s ++ List.replicate (256 - s.length) 0 := by
  have hlength : ¬(s.length = 0 ∨ MAX_VALIDATED_STRING_LEN < s.length) ↔
      1 ≤ s.length ∧ s.length ≤ 256 := by
    unfold MAX_VALIDATED_STRING_LEN
    omega
  have hends : ¬(s[0]? = some SPACE ∨ s[s.length - 1]? = some SPACE) ↔
      s.head? ≠ some 0x20 ∧ s.getLast? ≠ some 0x20 := by
    rw [List.head?_eq_getElem?, List.getLast?_eq_getElem?, not_or]
    rfl
  have hloop {t t' : Unit} : (forM s fun b => (Call.ensure (0x20 ≤ b ∧ b ≤ 0x7e) () :
      Call Unit Unit Unit)).run t = .ok () t' ↔ ∀ b ∈ s, 0x20 ≤ b ∧ b ≤ 0x7e := by
    rw [Call.run_forM_checks_eq_ok fun _ _ _ => Call.run_ensure_eq_ok, and_iff_left rfl]
  unfold normalizeVisibleAscii
  simp only [Call.run_bind_eq_ok, Call.run_ensure_eq_ok, Call.run_pure_eq_ok, hlength]
  constructor
  · intro h
    obtain ⟨_, _, ⟨⟨hpos, hle⟩, -⟩, _, _, ⟨hspace, -⟩, _, _, hvisible, hbuf, -⟩ := h
    have hcopied : s.length ≤ MAX_VALIDATED_STRING_LEN := hle
    rw [take_copyIntoSlice hcopied] at hspace hvisible
    have hbounds := hends.1 hspace
    refine ⟨⟨hpos, hle, hloop.1 hvisible, hbounds.1, hbounds.2⟩, ?_⟩
    rw [← hbuf]
    exact toList_copyIntoSlice hcopied
  · intro h
    obtain ⟨hs, hbuf⟩ := h
    have hle : s.length ≤ MAX_VALIDATED_STRING_LEN := hs.length_le
    have hcopy := toList_copyIntoSlice hle
    rw [take_copyIntoSlice hle]
    exact ⟨(), (), ⟨⟨hs.length_pos, hs.length_le⟩, trivial⟩, (), (),
      ⟨hends.2 ⟨hs.head_ne, hs.getLast_ne⟩, trivial⟩, (), (), hloop.2 hs.visible,
      Vector.toList_inj.1 (hcopy.trans hbuf.symm), trivial⟩

theorem exists_run_iff {s : List UInt8} :
    (∃ buf, (normalizeVisibleAscii s).run () = .ok buf ()) ↔ VisibleAscii s := by
  simp only [run_normalizeVisibleAscii_eq_ok]
  constructor
  · intro h
    obtain ⟨_, hs, -⟩ := h
    exact hs
  · intro hs
    have hle : s.length ≤ MAX_VALIDATED_STRING_LEN := hs.length_le
    exact ⟨_, hs, toList_copyIntoSlice hle⟩

theorem isVisibleAsciiMetadata_iff {s : List UInt8} :
    isVisibleAsciiMetadata s = true ↔ VisibleAscii s := by
  unfold isVisibleAsciiMetadata
  rw [Option.isSome_iff_exists, Prod.exists, ← exists_run_iff]
  simp only [Call.commit_eq_some]
  exact exists_congr fun buf => Unique.exists_iff

theorem VisibleAscii.ne_zero {s : List UInt8} (hs : VisibleAscii s) : ∀ b ∈ s, b ≠ 0 := by
  intro b hb hzero
  have hvisible := (hs.visible b hb).1
  rw [hzero] at hvisible
  exact absurd hvisible (by decide)

/-- A string is accepted exactly if it follows the policy; its buffer is the string and zeros, and
no other string has that buffer. -/
theorem normalizeVisibleAscii_exact (s : List UInt8) :
    ((∃ buf, (normalizeVisibleAscii s).run () = .ok buf ()) ↔
      (1 ≤ s.length ∧ s.length ≤ 256) ∧ (∀ b ∈ s, 0x20 ≤ b ∧ b ≤ 0x7e) ∧
      s.head? ≠ some 0x20 ∧ s.getLast? ≠ some 0x20) ∧
    ∀ buf, (normalizeVisibleAscii s).run () = .ok buf () →
      buf.toList = s ++ List.replicate (256 - s.length) 0 ∧
      ∀ s', (normalizeVisibleAscii s').run () = .ok buf () → s' = s := by
  constructor
  · rw [exists_run_iff]
    constructor
    · intro hs
      exact ⟨⟨hs.length_pos, hs.length_le⟩, hs.visible, hs.head_ne, hs.getLast_ne⟩
    · intro h
      obtain ⟨⟨hpos, hle⟩, hvisible, hhead, hlast⟩ := h
      exact ⟨hpos, hle, hvisible, hhead, hlast⟩
  · intro buf hrun
    obtain ⟨hs, hbuf⟩ := run_normalizeVisibleAscii_eq_ok.1 hrun
    refine ⟨hbuf, fun s' hrun' => ?_⟩
    obtain ⟨hs', hbuf'⟩ := run_normalizeVisibleAscii_eq_ok.1 hrun'
    calc s'
        = (s' ++ List.replicate (256 - s'.length) 0).takeWhile (· ≠ 0) :=
          (takeWhile_padded hs'.ne_zero _).symm
      _ = (s ++ List.replicate (256 - s.length) 0).takeWhile (· ≠ 0) := by rw [← hbuf', hbuf]
      _ = s := takeWhile_padded hs.ne_zero _

end Callora.Vault.Validators
