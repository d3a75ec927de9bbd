import OsImplement.Memory.Ownership
import OsImplement.Monitor.Printf

/-!
The state of the frames on the monitor (`print_pages_status`).

One character stands for eight frames. Since `free_frame` clears the bit of frame 0 and no other,
the characters tell which frames have ever been handed out, and not which are held.
-/

namespace OsImplement.Memory

open Lib.Step Monitor

/-- `print_pages_status` -/
def printPagesStatus (f : FrameMap) : List UInt8 :=
  (List.range f.framesBitmapSize).flatMap fun i =>
    if f.frames i = 0x00 then printf "-" [] else printf "*" []

/-! ### One character -/

section Characters

variable {f : FrameMap} {i : ℕ}

lemma printPagesStatus_eq (f : FrameMap) : printPagesStatus f =
    (List.range f.framesBitmapSize).map fun i => if f.frames i = 0 then 0x2D else 0x2A := by
  have hfree : printf "-" [] = [0x2D] := by
    have h : ascii "-" = [0x2D] := by decide
    simp [printf, h, Monitor.pieces, render]
  have hused : printf "*" [] = [0x2A] := by
    have h : ascii "*" = [0x2A] := by decide
    simp [printf, h, Monitor.pieces, render]
  unfold printPagesStatus
  rw [hfree, hused, List.map_eq_flatMap]
  congr 1
  funext i
  split_ifs <;> rfl

lemma frames_eq_zero_iff : f.frames i = 0 ↔ ∀ k, k / 8 = i → ¬ Used f k := by
  constructor
  · intro h k hk
    rw [used_iff_bitOf, hk, h]
    simp [bitOf]
  · intro h
    have hbits : ∀ j < 8, bitOf (f.frames i) j = false := by
      intro j hj
      have hj' := h (8 * i + j) (by omega)
      rw [used_iff_bitOf, show (8 * i + j) / 8 = i by omega, show (8 * i + j) % 8 = j by omega] at hj'
      exact Bool.eq_false_iff.mpr hj'
    apply UInt8.toBitVec_inj.mp
    apply BitVec.eq_of_getLsbD_eq
    intro j hj
    have hj' := hbits (7 - j) (by omega)
    unfold bitOf at hj'
    rw [show 7 - (7 - j) = j by omega] at hj'
    rw [hj']
    simp

lemma getElem?_printPagesStatus (hi : i < f.framesBitmapSize) :
    (printPagesStatus f)[i]? = some (if f.frames i = 0 then 0x2D else 0x2A) := by
  rw [printPagesStatus_eq, List.getElem?_map, List.getElem?_range hi]
  rfl

end Characters

/-! ### Runs -/

section Runs

variable {ι : Type*} [DecidableEq ι] {f₀ : FrameMap} {s : Ownership ι} {o : FrameOp ι}
  {entries : ι → PageStruct} {os : List (FrameOp ι)}

/-- The frames that are marked, but for frame 0: those of the start and those that were handed
out. -/
structure Marked (f₀ : FrameMap) (s : Ownership ι) : Prop where
  size : s.map.framesBitmapSize = f₀.framesBitmapSize
  frame : ∀ e, (s.entries e).frame < 0x1000
  used : ∀ k, 1 ≤ k → (Used s.map k ↔ Used f₀ k ∨ k ∈ s.granted)

lemma Marked.alloc (hsize : 8 * f₀.framesBitmapSize ≤ 0x1000) (h : Marked f₀ s) {e : ι}
    {isKernel isWritable : Bool} (h0 : (s.entries e).frame = 0)
    (hfree : ∃ k < 8 * s.map.framesBitmapSize, ¬ Used s.map k) :
    Marked f₀ (s.step (.alloc e isKernel isWritable)) := by
  have hlt := (firstFrame_spec hfree).1
  have hstep : allocFrame (s.entries e) isKernel isWritable s.map = _ :=
    allocFrame_eq (by rw [h.size]; omega) h0 hfree
  rw [h.size] at hlt
  refine ⟨?_, fun e' => ?_, fun k hk => ?_⟩
  · simp only [Ownership.step, hstep]
    exact h.size
  · simp only [Ownership.step, hstep]
    by_cases he : e' = e
    · rw [he, Function.update_self]
      exact lt_of_lt_of_le hlt hsize
    · rw [Function.update_of_ne he]
      exact h.frame e'
  · simp only [Ownership.step, hstep, if_pos h0]
    rw [used_setFrame, h.used k hk, List.mem_append, List.mem_singleton,
      or_comm, or_assoc]

/-- **A release** clears the bit of frame 0, for every frame that the machine has. -/
lemma Marked.free (h : Marked f₀ s) {e : ι}
    (hne : (s.entries e).frame ≠ 0) : Marked f₀ (s.step (.free e)) := by
  have hlt := h.frame e
  refine ⟨?_, fun e' => ?_, fun k hk => ?_⟩
  · simp only [Ownership.step, freeFrame_held hne]
    exact h.size
  · simp only [Ownership.step, freeFrame_held hne]
    by_cases he : e' = e
    · rw [he, Function.update_self]
      exact (by decide : 0 < 0x1000)
    · rw [Function.update_of_ne he]
      exact h.frame e'
  · simp only [Ownership.step, freeFrame_held hne]
    rw [used_clearFrame, h.used k hk, Nat.div_eq_of_lt (by omega)]
    exact and_iff_right (by omega)

lemma Marked.step (hsize : 8 * f₀.framesBitmapSize ≤ 0x1000) (h : Marked f₀ s)
    (hs : s.Supplied o) : Marked f₀ (s.step o) := by
  cases o with
  | alloc e isKernel isWritable =>
    by_cases h0 : (s.entries e).frame = 0
    · exact h.alloc hsize h0 (hs e isKernel isWritable rfl)
    · rwa [Ownership.step_same_alloc h0]
  | free e =>
    by_cases h0 : (s.entries e).frame = 0
    · rwa [Ownership.step_same_free h0]
    · exact h.free h0

/-- **The status never goes back.** After every run of `alloc_frame` and `free_frame` over any
entries, a character of `print_pages_status` behind the first is `-` exactly when none of its eight
frames was marked at the start or has been handed out since; no release shows. -/
theorem status_of_run (hsize : 8 * f₀.framesBitmapSize ≤ 0x1000)
    (he : ∀ e, (entries e).frame = 0)
    (hs : Guarded Ownership.step Ownership.Supplied ⟨f₀, entries, []⟩ os) :
    let s := os.foldl Ownership.step ⟨f₀, entries, []⟩
    (printPagesStatus s.map).length = f₀.framesBitmapSize ∧
      ∀ i, 1 ≤ i → i < f₀.framesBitmapSize →
        ((∀ k, k / 8 = i → ¬ Used f₀ k ∧ k ∉ s.granted) ∧
            (printPagesStatus s.map)[i]? = some 0x2D ∨
          (∃ k, k / 8 = i ∧ (Used f₀ k ∨ k ∈ s.granted)) ∧
            (printPagesStatus s.map)[i]? = some 0x2A) := by
  intro s
  have hstart : Marked f₀ (⟨f₀, entries, []⟩ : Ownership ι) := by
    refine ⟨rfl, fun e => ?_, fun k _ => ?_⟩
    · rw [he e]
      decide
    · simp
  have h : Marked f₀ s := Guarded.inv (fun _ _ h hs => h.step hsize hs) hstart hs
  refine ⟨?_, fun i hi hlt => ?_⟩
  · rw [printPagesStatus_eq, List.length_map, List.length_range]
    exact h.size
  · have hchar := getElem?_printPagesStatus (f := s.map) (i := i) (by rw [h.size]; exact hlt)
    have hused : ∀ k, k / 8 = i → (Used s.map k ↔ Used f₀ k ∨ k ∈ s.granted) := by
      intro k hk
      exact h.used k (by omega)
    by_cases hzero : s.map.frames i = 0
    · rw [if_pos hzero] at hchar
      refine .inl ⟨fun k hk => ?_, hchar⟩
      have hfree := frames_eq_zero_iff.mp hzero k hk
      rwa [hused k hk, not_or] at hfree
    · rw [if_neg hzero] at hchar
      refine .inr ⟨?_, hchar⟩
      rw [frames_eq_zero_iff] at hzero
      obtain ⟨k, hk⟩ := not_forall.mp hzero
      obtain ⟨hk, hmarked⟩ := Classical.not_imp.mp hk
      exact ⟨k, hk, (hused k hk).mp (not_not.mp hmarked)⟩

/-- The bitmap of the machine with the first 16 frames marked. -/
def twoBytes : FrameMap := ⟨fun i => if i < 2 then 0xFF else 0, 512⟩

theorem status_of_run_release : (printPagesStatus (([.alloc () false true, .free ()].foldl
    Ownership.step ⟨twoBytes, fun _ : Unit => .zero, []⟩).map))[2]? = some 0x2A := by
  have hs : Guarded Ownership.step Ownership.Supplied ⟨twoBytes, fun _ : Unit => .zero, []⟩
      [.alloc () false true, .free ()] :=
    ⟨fun _ _ _ _ => ⟨16, by decide, by decide⟩, fun _ _ _ h => (nomatch h), trivial⟩
  obtain ⟨-, h⟩ := status_of_run (by decide) (fun _ => rfl) hs
  rcases h 2 (by decide) (by decide) with ⟨hnone, -⟩ | ⟨-, hchar⟩
  · have hgranted : 16 ∈ ([.alloc () false true, .free ()].foldl Ownership.step
        ⟨twoBytes, fun _ : Unit => .zero, []⟩).granted := by decide +kernel
    exact absurd hgranted (hnone 16 rfl).2
  · exact hchar

end Runs

end OsImplement.Memory
