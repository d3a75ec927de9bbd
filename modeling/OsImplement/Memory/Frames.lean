import OsImplement.Lib.Search
import OsImplement.Lib.Word
import Mathlib.Logic.Function.Basic

/-!
The frame bitmap (`page.c`): one bit for every 4 KiB frame, the first-fit search, and the frame
field of a page entry that `alloc_frame` and `free_frame` fill and clear.
-/

namespace OsImplement.Memory

open Lib.Search

/-! ### The bitmap -/

/-- `frames` and `frames_bitmap_size`. The array is total: a write behind its end is a write. -/
structure FrameMap where
  frames : ℕ → UInt8
  framesBitmapSize : ℕ

/-- The bit of a frame in its byte, `0x80 >> offset`. -/
def frameMask (offset : ℕ) : UInt8 := 0x80 >>> UInt8.ofNat offset

/-- `set_frame` -/
def setFrame (frameAddr : ℕ) (f : FrameMap) : FrameMap :=
  let frameIndex := frameAddr / 0x1000
  let index := frameIndex / 8
  let offset := frameIndex % 8
  { f with frames := Function.update f.frames index (f.frames index ||| frameMask offset) }

/-- `clear_frame` -/
def clearFrame (frameAddr : ℕ) (f : FrameMap) : FrameMap :=
  let frameIndex := frameAddr / 0x1000
  let index := frameIndex / 8
  let offset := frameIndex % 8
  { f with frames := Function.update f.frames index (f.frames index &&& ~~~frameMask offset) }

/-- `isIn_frame` -/
def isInFrame (frameAddr : ℕ) (f : FrameMap) : UInt8 :=
  let frameIndex := frameAddr / 0x1000
  f.frames (frameIndex / 8) &&& frameMask (frameIndex % 8)

/-- What `first_frame` returns, `-1`, when every bit is set. -/
def NO_FRAME : ℕ := 0xFFFFFFFF

/-- The test of `first_frame` on bit `j` of a byte, in 32 bits. -/
def bitFree (byte : UInt8) (j : ℕ) : Bool :=
  (~~~((0x80 : UInt32) >>> UInt32.ofNat j) ||| byte.toUInt32) != 0xFFFFFFFF

/-- The inner loop of `first_frame`, over the bits of byte `i`. -/
def firstFrameIn (f : FrameMap) (i : ℕ) : Option ℕ :=
  if f.frames i = 0xFF then none
  else (List.range 8).findSome? fun j => if bitFree (f.frames i) j then some (i * 8 + j) else none

/-- `first_frame` -/
def firstFrame (f : FrameMap) : ℕ :=
  ((List.range f.framesBitmapSize).findSome? (firstFrameIn f)).getD NO_FRAME

/-! ### Page entries -/

/-- `page_struct`, less its unused bits. -/
structure PageStruct where
  valid : Bool
  rw : Bool
  user : Bool
  accessed : Bool
  dirty : Bool
  frame : ℕ
  deriving DecidableEq

/-- A page entry of zeroed memory. -/
def PageStruct.zero : PageStruct := ⟨false, false, false, false, false, 0⟩

/-- `alloc_frame`. The frame field has 20 bits; when no frame is free the search has returned `-1`
and the source, after a warning, goes on with it. -/
def allocFrame (page : PageStruct) (isKernel isWritable : Bool) (f : FrameMap) :
    PageStruct × FrameMap :=
  if page.frame ≠ 0 then (page, f)
  else
    let frameIndex := firstFrame f
    ({ page with
        valid := true
        rw := isWritable
        user := !isKernel
        frame := frameIndex % 2 ^ 20 },
      setFrame (frameIndex * 0x1000 % 2 ^ 32) f)

/-- `free_frame`. It hands `clear_frame` the frame number, where `set_frame` got an address. -/
def freeFrame (page : PageStruct) (f : FrameMap) : PageStruct × FrameMap :=
  if page.frame = 0 then (page, f)
  else ({ page with frame := 0 }, clearFrame page.frame f)

/-! ### One bit -/

/-- Frame `k` is marked. -/
def Used (f : FrameMap) (k : ℕ) : Prop := isInFrame (k * 0x1000) f ≠ 0

instance (f : FrameMap) (k : ℕ) : Decidable (Used f k) := by unfold Used; infer_instance

lemma used_iff {f : FrameMap} {k : ℕ} : Used f k ↔ f.frames (k / 8) &&& frameMask (k % 8) ≠ 0 := by
  unfold Used isInFrame
  rw [Nat.mul_div_cancel _ (by decide)]

/-- Bit `j` of a byte, counted from the top as the bitmap counts them. -/
def bitOf (b : UInt8) (j : ℕ) : Bool := b.toBitVec.getLsbD (7 - j)

lemma mask_tests : ∀ b : Fin 256, ∀ j : Fin 8,
    (UInt8.ofNat b &&& frameMask j ≠ 0 ↔ bitOf (UInt8.ofNat b) j = true) ∧
      bitFree (UInt8.ofNat b) j = !bitOf (UInt8.ofNat b) j := by
  decide +kernel

lemma and_mask_iff (b : UInt8) {j : ℕ} (hj : j < 8) : b &&& frameMask j ≠ 0 ↔ bitOf b j = true := by
  have h := (mask_tests ⟨b.toNat, b.toNat_lt⟩ ⟨j, hj⟩).1
  simpa using h

lemma bitFree_iff (b : UInt8) {j : ℕ} (hj : j < 8) : bitFree b j = true ↔ bitOf b j = false := by
  have h := (mask_tests ⟨b.toNat, b.toNat_lt⟩ ⟨j, hj⟩).2
  simp only [UInt8.ofNat_toNat] at h
  simp [h]

lemma bitOf_mask {i j : ℕ} (hi : i < 8) (hj : j < 8) : bitOf (frameMask i) j = decide (j = i) := by
  have h : ∀ i j : Fin 8, bitOf (frameMask i) j = decide ((j : ℕ) = i) := by decide
  exact h ⟨i, hi⟩ ⟨j, hj⟩

lemma bitOf_set (b : UInt8) {i j : ℕ} (hi : i < 8) (hj : j < 8) :
    bitOf (b ||| frameMask i) j = true ↔ j = i ∨ bitOf b j = true := by
  have h := bitOf_mask hi hj
  unfold bitOf at h ⊢
  rw [UInt8.toBitVec_or, BitVec.getLsbD_or, h]
  simp [or_comm]

lemma bitOf_clear (b : UInt8) {i j : ℕ} (hi : i < 8) (hj : j < 8) :
    bitOf (b &&& ~~~frameMask i) j = true ↔ j ≠ i ∧ bitOf b j = true := by
  have h := bitOf_mask hi hj
  unfold bitOf at h ⊢
  rw [UInt8.toBitVec_and, UInt8.toBitVec_not, BitVec.getLsbD_and, BitVec.getLsbD_not, h]
  simp [and_comm, show 7 - j < 8 by omega]

lemma used_iff_bitOf {f : FrameMap} {k : ℕ} : Used f k ↔ bitOf (f.frames (k / 8)) (k % 8) = true := by
  rw [used_iff, and_mask_iff _ (Nat.mod_lt _ (by decide))]

theorem used_setFrame {f : FrameMap} {k j : ℕ} :
    Used (setFrame (k * 0x1000) f) j ↔ j = k ∨ Used f j := by
  have hk := Nat.mod_lt k (show 8 > 0 by decide)
  have hj := Nat.mod_lt j (show 8 > 0 by decide)
  simp only [used_iff_bitOf, setFrame, Nat.mul_div_cancel _ (show 0 < 0x1000 by decide)]
  by_cases hq : j / 8 = k / 8
  · rw [hq, Function.update_self, bitOf_set _ hk hj, show j % 8 = k % 8 ↔ j = k by omega]
  · rw [Function.update_of_ne hq]
    exact ⟨Or.inr, fun h => h.resolve_left fun e => hq (by rw [e])⟩

theorem used_clearFrame {f : FrameMap} {a j : ℕ} :
    Used (clearFrame a f) j ↔ j ≠ a / 0x1000 ∧ Used f j := by
  have hk := Nat.mod_lt (a / 0x1000) (show 8 > 0 by decide)
  have hj := Nat.mod_lt j (show 8 > 0 by decide)
  simp only [used_iff_bitOf, clearFrame]
  by_cases hq : j / 8 = a / 0x1000 / 8
  · rw [hq, Function.update_self, bitOf_clear _ hk hj,
      show j % 8 ≠ a / 0x1000 % 8 ↔ j ≠ a / 0x1000 by omega]
  · rw [Function.update_of_ne hq]
    exact ⟨fun h => ⟨fun e => hq (by rw [e]), h⟩, And.right⟩

@[simp] lemma size_setFrame {a : ℕ} {f : FrameMap} :
    (setFrame a f).framesBitmapSize = f.framesBitmapSize := rfl

@[simp] lemma size_clearFrame {a : ℕ} {f : FrameMap} :
    (clearFrame a f).framesBitmapSize = f.framesBitmapSize := rfl

/-! ### First fit -/

/-- A byte of `0xFF` has no clear bit, so `first_frame` may skip it. -/
lemma bitOf_full {j : ℕ} (hj : j < 8) : bitOf 0xFF j = true := by
  have h : ∀ j : Fin 8, bitOf 0xFF j = true := by decide
  exact h ⟨j, hj⟩

lemma firstFrameIn_some {f : FrameMap} {i r : ℕ} (h : firstFrameIn f i = some r) :
    r / 8 = i ∧ ¬ Used f r ∧ ∀ k, k / 8 = i → k < r → Used f k := by
  unfold firstFrameIn at h
  split at h
  · simp at h
  · obtain ⟨j, hj8, hj, hlow⟩ := findSome_range_some h
    split at hj
    · next hbit =>
      obtain rfl : i * 8 + j = r := by simpa using hj
      have hd : (i * 8 + j) / 8 = i := by omega
      have hm : (i * 8 + j) % 8 = j := by omega
      refine ⟨hd, ?_, fun k hk hlt => ?_⟩
      · rw [used_iff_bitOf, hd, hm, (bitFree_iff _ hj8).mp hbit]
        simp
      · have hnone := hlow (k % 8) (by omega)
        split at hnone
        · simp at hnone
        · next hb =>
          rw [used_iff_bitOf, hk]
          by_contra hc
          exact hb ((bitFree_iff _ (by omega)).mpr (by simpa using hc))
    · simp at hj

lemma firstFrameIn_none {f : FrameMap} {i : ℕ} (h : firstFrameIn f i = none) :
    ∀ k, k / 8 = i → Used f k := by
  intro k hk
  have hk8 := Nat.mod_lt k (show 8 > 0 by decide)
  rw [used_iff_bitOf, hk]
  unfold firstFrameIn at h
  split at h
  · next hff => rw [hff]; exact bitOf_full hk8
  · have hn := findSome_range_none.mp h _ hk8
    split at hn
    · simp at hn
    · next hb =>
      by_contra hc
      exact hb ((bitFree_iff _ hk8).mpr (by simpa using hc))

theorem firstFrame_spec {f : FrameMap} (h : ∃ k < 8 * f.framesBitmapSize, ¬ Used f k) :
    firstFrame f < 8 * f.framesBitmapSize ∧ ¬ Used f (firstFrame f) ∧
      ∀ k < firstFrame f, Used f k := by
  obtain ⟨k, hk, hfree⟩ := h
  unfold firstFrame
  cases hs : (List.range f.framesBitmapSize).findSome? (firstFrameIn f) with
  | none =>
    exact absurd (firstFrameIn_none (findSome_range_none.mp hs (k / 8) (by omega)) k rfl) hfree
  | some r =>
    obtain ⟨i, hi', hi, hlow⟩ := findSome_range_some hs
    obtain ⟨hd, hr, hin⟩ := firstFrameIn_some hi
    simp only [Option.getD_some]
    refine ⟨by omega, hr, fun k hk => ?_⟩
    by_cases hki : k / 8 = i
    · exact hin k hki hk
    · exact firstFrameIn_none (hlow (k / 8) (by omega)) k rfl

lemma exists_free_of_firstFrame {f : FrameMap} (h : firstFrame f ≠ NO_FRAME) :
    ∃ k < 8 * f.framesBitmapSize, ¬ Used f k := by
  unfold firstFrame at h
  cases hs : (List.range f.framesBitmapSize).findSome? (firstFrameIn f) with
  | none => exact absurd (by rw [hs]; rfl) h
  | some r =>
    obtain ⟨i, hi', hi, -⟩ := findSome_range_some hs
    obtain ⟨hd, hr, -⟩ := firstFrameIn_some hi
    exact ⟨r, by omega, hr⟩

/-! ### One entry -/

section Entry

variable {f : FrameMap} {page : PageStruct} {isKernel isWritable : Bool}

/-- The first free frame, seen through the entry that gets it: the frame number fits the 20 bits of
the field, and the address of the frame fits a word. -/
lemma allocFrame_eq (hsize : 8 * f.framesBitmapSize ≤ 2 ^ 20) (h0 : page.frame = 0)
    (hfree : ∃ k < 8 * f.framesBitmapSize, ¬ Used f k) :
    allocFrame page isKernel isWritable f =
      ({ page with valid := true, rw := isWritable, user := !isKernel, frame := firstFrame f },
        setFrame (firstFrame f * 0x1000) f) := by
  have hlt := (firstFrame_spec hfree).1
  unfold allocFrame
  rw [if_neg (by simp [h0])]
  simp only [Nat.mod_eq_of_lt (show firstFrame f < 2 ^ 20 by omega),
    Nat.mod_eq_of_lt (show firstFrame f * 0x1000 < 2 ^ 32 by omega)]

lemma allocFrame_held (h : page.frame ≠ 0) :
    allocFrame page isKernel isWritable f = (page, f) := if_pos h

lemma freeFrame_empty (h : page.frame = 0) : freeFrame page f = (page, f) := if_pos h

lemma freeFrame_held (h : page.frame ≠ 0) :
    freeFrame page f = ({ page with frame := 0 }, clearFrame page.frame f) := if_neg h

end Entry

end OsImplement.Memory
