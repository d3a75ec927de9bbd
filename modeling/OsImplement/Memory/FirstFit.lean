import OsImplement.Memory.Kernel
import OsImplement.Lib.Step
import Mathlib.Data.List.Range

/-!
Runs of `alloc_frame` (`page.c`).

`freeFrames` lists the frames that are not marked. An allocation for an empty entry takes the head
of this list and leaves its tail, so a run of allocations hands the list out from the front. What
happens behind its end, and to an entry that got frame 0, is what the code does not look after: the
search has failed and the answer is used all the same, and frame 0 in an entry means "no frame".
-/

namespace OsImplement.Memory

open Lib.Step

/-! ### The free frames -/

/-- The frames that are not marked, from the first on. -/
def freeFrames (f : FrameMap) : List ℕ :=
  (List.range (8 * f.framesBitmapSize)).filter fun k => ¬ Used f k

section FreeFrames

variable {f : FrameMap} {k g : ℕ} {rest : List ℕ}

lemma mem_freeFrames : k ∈ freeFrames f ↔ k < 8 * f.framesBitmapSize ∧ ¬ Used f k := by
  simp [freeFrames]

lemma pairwise_freeFrames : (freeFrames f).Pairwise (· < ·) :=
  List.Pairwise.filter _ List.pairwise_lt_range

lemma exists_free_iff : (∃ k < 8 * f.framesBitmapSize, ¬ Used f k) ↔ freeFrames f ≠ [] := by
  constructor
  · rintro ⟨k, hk, hfree⟩ hnil
    have hmem := mem_freeFrames.mpr ⟨hk, hfree⟩
    rw [hnil] at hmem
    exact List.not_mem_nil hmem
  · intro hne
    obtain ⟨k, hk⟩ := List.exists_mem_of_ne_nil _ hne
    exact ⟨k, mem_freeFrames.mp hk⟩

lemma firstFrame_cons (h : freeFrames f = g :: rest) : firstFrame f = g := by
  have hg : g < 8 * f.framesBitmapSize ∧ ¬ Used f g := mem_freeFrames.mp (by rw [h]; simp)
  obtain ⟨hlt, hfree, hlow⟩ := firstFrame_spec ⟨g, hg⟩
  have hle : firstFrame f ≤ g := by
    by_contra hgt
    exact hg.2 (hlow g (by omega))
  have hsorted := h ▸ @pairwise_freeFrames f
  have hmem : firstFrame f ∈ g :: rest := h ▸ mem_freeFrames.mpr ⟨hlt, hfree⟩
  rcases List.mem_cons.mp hmem with he | hr
  · exact he
  · have := (List.pairwise_cons.mp hsorted).1 _ hr
    omega

lemma freeFrames_setFrame (h : freeFrames f = g :: rest) :
    freeFrames (setFrame (g * 0x1000) f) = rest := by
  have hcut : freeFrames (setFrame (g * 0x1000) f) = (freeFrames f).filter fun k => k ≠ g := by
    unfold freeFrames
    rw [List.filter_filter, size_setFrame]
    refine List.filter_congr fun k _ => ?_
    rw [← Bool.decide_and, decide_eq_decide, used_setFrame, not_or]
  have hlt := (List.pairwise_cons.mp (h ▸ @pairwise_freeFrames f)).1
  rw [hcut, h, List.filter_cons_of_neg (by simp), List.filter_eq_self]
  intro k hk
  have := hlt k hk
  exact decide_eq_true (by omega)

lemma firstFrame_eq_noFrame_iff (hsize : 8 * f.framesBitmapSize ≤ 2 ^ 20) :
    firstFrame f = NO_FRAME ↔ freeFrames f = [] := by
  constructor
  · intro h
    by_contra hne
    have hlt := (firstFrame_spec (exists_free_iff.mpr hne)).1
    rw [h, NO_FRAME] at hlt
    omega
  · intro h
    by_contra hne
    exact exists_free_iff.mp (exists_free_of_firstFrame hne) h

end FreeFrames

/-! ### Runs -/

/-- A call of `alloc_frame`. -/
structure FrameCall where
  page : PageRef
  isKernel : Bool
  isWritable : Bool

/-- The state behind the call. -/
def FrameCall.run (k : Kernel) (c : FrameCall) : Kernel :=
  k.allocFrame (some c.page) c.isKernel c.isWritable

/-- The entry that the call is about. -/
def FrameCall.entry (k : Kernel) (c : FrameCall) : PageStruct := k.page (some c.page)

namespace FrameCall

variable {k : Kernel} {c : FrameCall} {calls : List FrameCall} {g : ℕ} {rest : List ℕ}

lemma entry_run_of_ne {c' : FrameCall} (h : c'.page ≠ c.page) :
    c'.entry (c.run k) = c'.entry k := by
  refine Kernel.tables_allocFrame_ne fun he => h ?_
  obtain ⟨ht, hi⟩ := he
  cases hc : c'.page
  cases hd : c.page
  simp_all

lemma run_cons (hsize : 8 * k.map.framesBitmapSize ≤ 2 ^ 20) (h0 : (c.entry k).frame = 0)
    (h : freeFrames k.map = g :: rest) :
    (c.run k).map = setFrame (g * 0x1000) k.map ∧ freeFrames (c.run k).map = rest ∧
      c.entry (c.run k) =
        { c.entry k with
          valid := true, rw := c.isWritable, user := !c.isKernel, frame := g } := by
  have hfree := exists_free_iff.mpr (h ▸ List.cons_ne_nil g rest)
  obtain ⟨hmap, hpage⟩ :=
    @Kernel.allocFrame_free k c.page c.isKernel c.isWritable hsize h0 hfree
  rw [firstFrame_cons h] at hmap hpage
  refine ⟨hmap, ?_, hpage⟩
  rw [run, hmap]
  exact freeFrames_setFrame h

lemma entry_foldl {c : FrameCall} (h : c.page ∉ calls.map FrameCall.page) :
    c.entry (calls.foldl run k) = c.entry k := by
  induction calls generalizing k with
  | nil => rfl
  | cons d calls ih =>
    rw [List.map_cons, List.mem_cons, not_or] at h
    rw [List.foldl_cons, ih h.2, entry_run_of_ne h.1]

lemma frames_foldl (hsize : 8 * k.map.framesBitmapSize ≤ 2 ^ 20)
    (hnodup : (calls.map FrameCall.page).Nodup) (h0 : ∀ c ∈ calls, (c.entry k).frame = 0)
    (hlen : calls.length ≤ (freeFrames k.map).length) :
    (calls.map fun c => (c.entry (calls.foldl run k)).frame) =
      (freeFrames k.map).take calls.length := by
  induction calls generalizing k with
  | nil => simp
  | cons c calls ih =>
    rw [List.map_cons, List.nodup_cons] at hnodup
    cases hf : freeFrames k.map with
    | nil => rw [hf] at hlen; simp at hlen
    | cons g rest =>
      obtain ⟨hmap, hrest, hentry⟩ := run_cons hsize (h0 c (by simp)) hf
      have hother : ∀ d ∈ calls, (d.entry (c.run k)).frame = 0 := by
        intro d hd
        rw [entry_run_of_ne fun he => hnodup.1 (he ▸ List.mem_map_of_mem hd)]
        exact h0 d (by simp [hd])
      have htail := ih (k := c.run k) (by rw [hmap]; exact hsize) hnodup.2 hother
        (by rw [hrest]; rw [hf] at hlen; simpa using hlen)
      rw [List.map_cons, List.foldl_cons, htail, entry_foldl hnodup.1, hentry, hrest]
      rfl

end FrameCall

/-! ### First fit -/

lemma isInFrame_eq {f : FrameMap} {k : ℕ} :
    isInFrame (k * 0x1000) f = f.frames (k / 8) &&& frameMask (k % 8) := by
  unfold isInFrame
  rw [Nat.mul_div_cancel _ (by decide)]

lemma mask_or_and (b : UInt8) {i j : ℕ} (hi : i < 8) (hj : j < 8) (h : j ≠ i) :
    (b ||| frameMask i) &&& frameMask j = b &&& frameMask j := by
  have hmasks : ∀ i j : Fin 8, j ≠ i → frameMask i &&& frameMask j = 0 := by decide
  have hdisj := congrArg UInt8.toBitVec (hmasks ⟨i, hi⟩ ⟨j, hj⟩ fun e => h (by simpa using e))
  rw [UInt8.toBitVec_and] at hdisj
  apply UInt8.toBitVec_inj.mp
  rw [UInt8.toBitVec_and, UInt8.toBitVec_or, UInt8.toBitVec_and, BitVec.and_or_distrib_right,
    hdisj]
  exact BitVec.or_zero

lemma isInFrame_setFrame_of_ne {f : FrameMap} {k j : ℕ} (h : j ≠ k) :
    isInFrame (j * 0x1000) (setFrame (k * 0x1000) f) = isInFrame (j * 0x1000) f := by
  have hk := Nat.mod_lt k (show 8 > 0 by decide)
  have hj := Nat.mod_lt j (show 8 > 0 by decide)
  rw [isInFrame_eq, isInFrame_eq]
  simp only [setFrame, Nat.mul_div_cancel _ (show 0 < 0x1000 by decide)]
  by_cases hq : j / 8 = k / 8
  · rw [hq, Function.update_self, mask_or_and _ hk hj (by omega)]
  · rw [Function.update_of_ne hq]

/-- **First fit.** The search answers with the least frame that is not marked, or `-1` when there is
none; marking a frame changes the answer for this frame only; and a run of allocations for distinct
empty entries, not longer than there are free frames, gives them the least free frames in order. -/
theorem firstFrame_firstFit {f : FrameMap} (hsize : 8 * f.framesBitmapSize ≤ 2 ^ 20) :
    ((∃ k < 8 * f.framesBitmapSize, isInFrame (k * 0x1000) f = 0) →
      firstFrame f < 8 * f.framesBitmapSize ∧ isInFrame (firstFrame f * 0x1000) f = 0 ∧
        ∀ j < firstFrame f, isInFrame (j * 0x1000) f ≠ 0) ∧
    (firstFrame f = NO_FRAME ↔
      ¬ ∃ k < 8 * f.framesBitmapSize, isInFrame (k * 0x1000) f = 0) ∧
    (∀ k, isInFrame (k * 0x1000) (setFrame (k * 0x1000) f) ≠ 0 ∧
      ∀ j ≠ k, isInFrame (j * 0x1000) (setFrame (k * 0x1000) f) = isInFrame (j * 0x1000) f) ∧
    ∀ (k : Kernel) (calls : List FrameCall), k.map = f → (calls.map FrameCall.page).Nodup →
      (∀ c ∈ calls, (c.entry k).frame = 0) → calls.length ≤ (freeFrames f).length →
        (calls.map fun c => (c.entry (calls.foldl FrameCall.run k)).frame) =
          (freeFrames f).take calls.length := by
  have hfree : (∃ k < 8 * f.framesBitmapSize, isInFrame (k * 0x1000) f = 0) ↔
      ∃ k < 8 * f.framesBitmapSize, ¬ Used f k := by
    simp [Used]
  refine ⟨fun h => ?_, ?_, fun k => ⟨?_, fun j => isInFrame_setFrame_of_ne⟩, ?_⟩
  · obtain ⟨hlt, hunused, hlow⟩ := firstFrame_spec (hfree.mp h)
    exact ⟨hlt, by simpa [Used] using hunused, hlow⟩
  · rw [hfree, exists_free_iff, not_not]
    exact firstFrame_eq_noFrame_iff hsize
  · exact used_setFrame.mpr (Or.inl rfl)
  · rintro k calls rfl hnodup h0 hlen
    exact FrameCall.frames_foldl hsize hnodup h0 hlen

/-- Empty page tables over a bitmap of one byte. -/
def smallMap (byte : UInt8) : Kernel where
  mem := fun _ => 0
  heap := ⟨⟨0, 0, 0, fun _ _ _ => 0⟩, 0, 0, 0, false, false⟩
  kheap := 0
  placementAddress := 0x10000
  map := ⟨fun _ => byte, 1⟩
  tables := fun _ _ => .zero
  dirs := fun _ => .zero
  vmPageDir := 0x2000
  curVmPageDir := 0x2000
  phys := fun _ => 0
  console := []

/-- Three calls, for entries of two tables. -/
def threeCalls : List FrameCall :=
  [⟨⟨0x5000, 0⟩, false, true⟩, ⟨⟨0x5000, 1⟩, true, true⟩, ⟨⟨0x6000, 0⟩, false, false⟩]

theorem firstFrame_firstFit_three :
    (threeCalls.map fun c => (c.entry (threeCalls.foldl FrameCall.run (smallMap 0x40))).frame) =
      [0, 2, 3] := by
  have hrun := (@firstFrame_firstFit (smallMap 0x40).map (by decide)).2.2.2 (smallMap 0x40)
    threeCalls rfl (by decide) (fun c _ => rfl) (by decide)
  rw [hrun]
  decide

/-! ### A second allocation -/

/-- After one allocation the entry has no frame exactly when it got frame 0. -/
lemma frame_allocFrame {f : FrameMap} {page : PageStruct} {isKernel isWritable : Bool}
    (hsize : 8 * f.framesBitmapSize ≤ 2 ^ 20) (hfree : freeFrames f ≠ []) :
    (allocFrame page isKernel isWritable f).1.frame = 0 ↔ page.frame = 0 ∧ ¬ Used f 0 := by
  have hex := exists_free_iff.mpr hfree
  obtain ⟨hlt, hunused, hlow⟩ := firstFrame_spec hex
  by_cases h0 : page.frame = 0
  · rw [allocFrame_eq hsize h0 hex]
    constructor
    · intro hf
      exact ⟨h0, by rwa [← show firstFrame f = 0 from hf]⟩
    · rintro ⟨-, hu⟩
      by_contra hne
      exact hu (hlow 0 (Nat.pos_of_ne_zero hne))
  · rw [allocFrame_held h0]
    simp [h0]

/-- Frame 0 is marked once it was handed out, so the next answer of the search is another one. -/
lemma firstFrame_setFrame_zero {f : FrameMap} (hsize : 8 * f.framesBitmapSize ≤ 2 ^ 20) :
    firstFrame (setFrame 0 f) % 2 ^ 20 ≠ 0 := by
  have hused : Used (setFrame 0 f) 0 := used_setFrame (k := 0).mpr (Or.inl rfl)
  by_cases hex : freeFrames (setFrame 0 f) = []
  · rw [(firstFrame_eq_noFrame_iff (by simpa using hsize)).mpr hex]
    decide
  · obtain ⟨hlt, hunused, -⟩ := firstFrame_spec (exists_free_iff.mpr hex)
    rw [size_setFrame] at hlt
    rw [Nat.mod_eq_of_lt (by omega)]
    intro h0
    rw [h0] at hunused
    exact hunused hused

/-- **Idempotence.** For a bitmap with a free frame, a second `alloc_frame` on an entry changes
nothing exactly when the entry has a frame at the start or frame 0 is marked: an entry that got
frame 0 looks empty, and loses this frame to the next one. -/
theorem allocFrame_idempotent_iff {f : FrameMap} {page : PageStruct}
    {isKernel isWritable isKernel' isWritable' : Bool} (hsize : 8 * f.framesBitmapSize ≤ 2 ^ 20)
    (hfree : ∃ k < 8 * f.framesBitmapSize, ¬ Used f k) :
    allocFrame (allocFrame page isKernel isWritable f).1 isKernel' isWritable'
        (allocFrame page isKernel isWritable f).2 = allocFrame page isKernel isWritable f ↔
      page.frame ≠ 0 ∨ Used f 0 := by
  have hframe := @frame_allocFrame f page isKernel isWritable hsize (exists_free_iff.mp hfree)
  constructor
  · intro h
    by_contra hno
    rw [not_or, not_not] at hno
    have h0 := hframe.mpr hno
    have hfirst : firstFrame f = 0 := by
      rw [allocFrame_eq hsize hno.1 hfree] at h0
      exact h0
    -- the second call searches again, and its answer is not 0
    have hsecond := congrArg (fun r => r.1.frame) h
    simp only [h0] at hsecond
    unfold allocFrame at hsecond
    rw [if_neg (by simpa [allocFrame] using h0)] at hsecond
    have hmap : (allocFrame page isKernel isWritable f).2 = setFrame 0 f := by
      rw [allocFrame_eq hsize hno.1 hfree, hfirst]
    unfold allocFrame at hmap
    simp only [hmap] at hsecond
    exact firstFrame_setFrame_zero hsize hsecond
  · intro h
    refine allocFrame_held fun h0 => ?_
    obtain ⟨hp, hu⟩ := hframe.mp h0
    exact h.elim (fun hne => hne hp) hu

theorem allocFrame_idempotent_one :
    allocFrame (allocFrame .zero false true ⟨fun _ => 0x80, 1⟩).1 false true
        (allocFrame .zero false true ⟨fun _ => 0x80, 1⟩).2 =
      allocFrame .zero false true ⟨fun _ => 0x80, 1⟩ :=
  (allocFrame_idempotent_iff (by decide) ⟨1, by decide, by decide⟩).mpr (Or.inr (by decide))

/-- The first two calls after the bitmap was cleared: frame 0, and then frame 1 in its place. -/
theorem allocFrame_idempotent_fails :
    ¬ ∀ (f : FrameMap) (page : PageStruct) (isKernel isWritable : Bool),
      (∃ k < 8 * f.framesBitmapSize, ¬ Used f k) →
        allocFrame (allocFrame page isKernel isWritable f).1 isKernel isWritable
          (allocFrame page isKernel isWritable f).2 = allocFrame page isKernel isWritable f := by
  intro h
  have hframe := congrArg (fun r => r.1.frame)
    (h ⟨fun _ => 0, 1⟩ .zero false true ⟨0, by decide, by decide⟩)
  exact absurd hframe (by decide)

/-! ### Out of frames -/

/-- The byte of the bitmap that `alloc_frame` writes, by way of the address that it hands to
`set_frame`. -/
def writtenByte (page : PageStruct) (f : FrameMap) : Option ℕ :=
  if page.frame ≠ 0 then none else some (firstFrame f * 0x1000 % 2 ^ 32 / 0x1000 / 8)

lemma frames_allocFrame_of_ne {f : FrameMap} {page : PageStruct} {isKernel isWritable : Bool}
    {i : ℕ} (h : writtenByte page f ≠ some i) :
    (allocFrame page isKernel isWritable f).2.frames i = f.frames i := by
  unfold writtenByte at h
  unfold allocFrame
  split
  · rfl
  · next h0 =>
    rw [if_neg h0] at h
    exact Function.update_of_ne (fun e => h (congrArg some e.symm)) _ _

namespace FrameCall

variable {k : Kernel} {c : FrameCall} {calls : List FrameCall}

/-- What a call has to do: write inside the bitmap, mark the entry valid only with a frame that it
has reserved, and change nothing when no frame is free. -/
structure Sound (k : Kernel) (c : FrameCall) : Prop where
  inside : ∀ i ∈ writtenByte (c.entry k) k.map, i < k.map.framesBitmapSize
  reserved : (c.entry (c.run k)).valid = true →
    (c.entry (c.run k)).frame < 8 * k.map.framesBitmapSize ∧
      ¬ Used k.map (c.entry (c.run k)).frame ∧ Used (c.run k).map (c.entry (c.run k)).frame
  failed : firstFrame k.map = NO_FRAME →
    (c.run k).map = k.map ∧ c.entry (c.run k) = c.entry k

/-- An entry that no allocation has touched. -/
def Fresh (k : Kernel) (c : FrameCall) : Prop :=
  (c.entry k).frame = 0 ∧ (c.entry k).valid = false

lemma sound_iff (hsize : 8 * k.map.framesBitmapSize ≤ 2 ^ 20) (hfresh : c.Fresh k) :
    c.Sound k ↔ freeFrames k.map ≠ [] := by
  obtain ⟨h0, hvalid⟩ := hfresh
  constructor
  · intro h hnil
    have hsame := (h.failed ((firstFrame_eq_noFrame_iff hsize).mpr hnil)).2
    -- the entry is marked valid in any case
    have hset : (c.entry (c.run k)).valid = true := by
      have h0' : (k.tables c.page.table c.page.idx).frame = 0 := h0
      simp [entry, run, Kernel.page, Kernel.allocFrame, Kernel.setPage, allocFrame, h0']
    rw [hsame, hvalid] at hset
    exact Bool.false_ne_true hset
  · intro hne
    obtain ⟨g, rest, hf⟩ := List.exists_cons_of_ne_nil hne
    obtain ⟨hmap, hrest, hentry⟩ := run_cons hsize h0 hf
    have hg := mem_freeFrames.mp (show g ∈ freeFrames k.map by rw [hf]; simp)
    refine ⟨fun i hi => ?_, fun _ => ?_, fun hno => ?_⟩
    · unfold writtenByte at hi
      rw [if_neg (by simp [h0]), firstFrame_cons hf, Option.mem_some_iff] at hi
      rw [Nat.mod_eq_of_lt (by omega), Nat.mul_div_cancel _ (by decide)] at hi
      omega
    · rw [hentry, hmap]
      exact ⟨hg.1, hg.2, used_setFrame.mpr (Or.inl rfl)⟩
    · exact absurd ((firstFrame_eq_noFrame_iff hsize).mp hno) hne

/-- **Out of frames.** In a run of allocations for distinct fresh entries every call is sound
exactly when the run is not longer than there are free frames. -/
theorem sound_run_iff (hsize : 8 * k.map.framesBitmapSize ≤ 2 ^ 20)
    (hnodup : (calls.map FrameCall.page).Nodup) (hfresh : ∀ c ∈ calls, c.Fresh k) :
    Guarded run (fun k c => c.Sound k) k calls ↔ calls.length ≤ (freeFrames k.map).length := by
  induction calls generalizing k with
  | nil => simp [Guarded]
  | cons c calls ih =>
    rw [List.map_cons, List.nodup_cons] at hnodup
    rw [Guarded, sound_iff hsize (hfresh c (by simp))]
    cases hf : freeFrames k.map with
    | nil => simp
    | cons g rest =>
      obtain ⟨hmap, hrest, -⟩ := run_cons hsize (hfresh c (by simp)).1 hf
      have hother : ∀ d ∈ calls, d.Fresh (c.run k) := by
        intro d hd
        unfold Fresh
        rw [entry_run_of_ne fun he => hnodup.1 (he ▸ List.mem_map_of_mem hd)]
        exact hfresh d (by simp [hd])
      rw [ih (by rw [hmap]; exact hsize) hnodup.2 hother, hrest]
      simp

theorem sound_run_three : Guarded run (fun k c => c.Sound k) (smallMap 0x40) threeCalls :=
  (sound_run_iff (by decide) (by decide) fun c _ => ⟨rfl, rfl⟩).mpr (by decide)

/-- One call with every bit set: byte `0x1FFFF` of the bitmap is written, which ends at byte 1, and
the entry is valid with frame `0xFFFFF`. -/
theorem sound_run_fails :
    ¬ (∀ (k : Kernel) (calls : List FrameCall), 8 * k.map.framesBitmapSize ≤ 2 ^ 20 →
      (calls.map FrameCall.page).Nodup → (∀ c ∈ calls, c.Fresh k) →
        Guarded run (fun k c => c.Sound k) k calls) ∧
    writtenByte .zero (smallMap 0xFF).map = some 0x1FFFF ∧
    (⟨⟨0x5000, 0⟩, false, true⟩ : FrameCall).entry
        (run (smallMap 0xFF) ⟨⟨0x5000, 0⟩, false, true⟩) =
      ⟨true, true, true, false, false, 0xFFFFF⟩ := by
  have hbyte : writtenByte .zero (smallMap 0xFF).map = some 0x1FFFF := by decide
  refine ⟨fun h => ?_, hbyte, by decide⟩
  have hrun := h (smallMap 0xFF) [⟨⟨0x5000, 0⟩, false, true⟩] (by decide) (by decide)
    fun c _ => ⟨rfl, rfl⟩
  have hin := hrun.1.inside 0x1FFFF hbyte
  exact absurd hin (by decide)

end FrameCall

end OsImplement.Memory
