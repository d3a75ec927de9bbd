import OsImplement.Memory.HeapSound

/-!
`free`.

The test for NULL in `free` is an assignment, and what follows works on the header of a block with
its payload at NULL, whatever the argument was.
-/

namespace OsImplement.Memory

open Lib.Word Lib.Bytes Lib.Step Kernel

/-! ### Runs of `alloc` and `free` -/

inductive HeapOp where
  | alloc (c : Call)
  | free (p : ℕ)
  deriving DecidableEq

inductive HeapStep : Kernel → HeapOp → Kernel → Prop
  | alloc {k k' : Kernel} {c : Call} (h : AllocStep k c k') : HeapStep k (.alloc c) k'
  | free {k k' : Kernel} {p : ℕ} (h : k.free p = some k') : HeapStep k (.free p) k'

/-- The blocks that are in use behind an operation; `none` when a block is freed that is not. -/
def HeapOp.live (live : List ℕ) : HeapOp → Option (List ℕ)
  | .alloc c => some (c.ptr :: live)
  | .free p => if p ∈ live then some (live.erase p) else none

/-- Every block, NULL is none, is freed exactly once. -/
def Complete (ops : List HeapOp) : Prop :=
  (∀ c, .alloc c ∈ ops → c.ptr ≠ 0) ∧ ops.foldlM HeapOp.live [] = some []

/-- Every call of `free` works on the block whose payload is its argument. -/
def FreesArguments (ops : List HeapOp) : Prop := ∀ p, .free p ∈ ops → freeHeader p = sub32 p 12

/-- The heap is a single hole, listed once. -/
def SingleHole (k : Kernel) : Prop :=
  headerSize k.mem k.heap.startAddress = k.heapLen ∧
    headerIsHole k.mem k.heap.startAddress = 1 ∧
    ∃ i < k.heap.index.size, k.holeAt i = k.heap.startAddress ∧
      ∀ j < k.heap.index.size, j ≠ i → k.holeAt j = 0

section Free

variable {start end_ max : ℕ} {supervisor readonly : Bool} {k k' k₀ : Kernel} {ops : List HeapOp}

lemma alloc_lt : ∀ (fuel size : ℕ) (pageAlign : Bool) (k : Kernel) (p : ℕ) (k' : Kernel),
    alloc fuel size pageAlign k = some (p, k') → p < 2 ^ 32 := by
  intro fuel
  induction fuel with
  | zero => exact fun _ _ _ _ _ h => by simp [alloc] at h
  | succ fuel ih =>
    intro size pageAlign k p k' h
    unfold alloc at h
    simp only [Option.bind_eq_bind, Option.bind_eq_some_iff] at h
    obtain ⟨found, -, h⟩ := h
    cases found with
    | some iter =>
      simp only [placeBlock, Option.bind_eq_bind, Option.bind_eq_some_iff, Prod.exists,
        Option.some.injEq, Prod.mk.injEq] at h
      obtain ⟨_, _, pos, _, _, _, rfl, -⟩ := h
      exact add32_lt _ _
    | none =>
      simp only [Option.bind_eq_some_iff] at h
      obtain ⟨_, _, k₂, _, h⟩ := h
      exact ih _ _ _ _ _ h

lemma length_live (hfree : ∀ p, .free p ∉ ops) :
    ∀ live, ∃ live', ops.foldlM HeapOp.live live = some live' ∧
      live'.length = live.length + ops.length := by
  induction ops with
  | nil => exact fun live => ⟨live, rfl, rfl⟩
  | cons op ops ih =>
    intro live
    cases op with
    | free p => exact absurd (List.mem_cons_self ..) (hfree p)
    | alloc c =>
      obtain ⟨live', hf, hlen⟩ := ih (fun p hp => hfree p (List.mem_cons_of_mem _ hp))
        (c.ptr :: live)
      refine ⟨live', ?_, ?_⟩
      · rw [List.foldlM_cons]
        exact hf
      · rw [hlen]
        simp only [List.length_cons]
        omega

lemma freed_allocated {p : ℕ} (hp : .free p ∈ ops) :
    ∀ live live', ops.foldlM HeapOp.live live = some live' →
      p ∈ live ∨ ∃ c, .alloc c ∈ ops ∧ c.ptr = p := by
  induction ops with
  | nil => simp at hp
  | cons op ops ih =>
    intro live live' hf
    rw [List.foldlM_cons, Option.bind_eq_bind, Option.bind_eq_some_iff] at hf
    obtain ⟨live₁, hop, hf⟩ := hf
    cases op with
    | alloc c =>
      obtain rfl : c.ptr :: live = live₁ := by simpa [HeapOp.live] using hop
      have hp' : .free p ∈ ops := by simpa using hp
      rcases ih hp' _ _ hf with h | ⟨c', hc', rfl⟩
      · rcases List.mem_cons.mp h with rfl | h
        · exact Or.inr ⟨c, by simp, rfl⟩
        · exact Or.inl h
      · exact Or.inr ⟨c', by simp [hc'], rfl⟩
    | free p' =>
      by_cases hp'' : p' ∈ live
      · obtain rfl : live.erase p' = live₁ := by simpa [HeapOp.live, hp''] using hop
        rcases List.mem_cons.mp hp with he | hp'
        · obtain rfl : p = p' := by simpa using he
          exact Or.inl hp''
        · rcases ih hp' _ _ hf with h | ⟨c', hc', rfl⟩
          · exact Or.inl (List.mem_of_mem_erase h)
          · exact Or.inr ⟨c', by simp [hc'], rfl⟩
      · simp [HeapOp.live, hp''] at hop

lemma run_ptr_lt (hr : Run HeapStep k₀ ops k) : ∀ c, .alloc c ∈ ops → c.ptr < 2 ^ 32 := by
  refine hr.inv (I := fun ops _ => ∀ c, .alloc c ∈ ops → c.ptr < 2 ^ 32) (by simp) ?_
  intro ops k op k' ih hs c hc
  rcases List.mem_append.mp hc with hc | hc
  · exact ih c hc
  · obtain rfl : .alloc c = op := by simpa using hc
    cases hs with
    | alloc h =>
      obtain ⟨fuel, h⟩ := h
      exact alloc_lt _ _ _ _ _ _ h

/-- `free` works on the header below NULL. -/
lemma freeHeader_eq (p : ℕ) : freeHeader p = 0xFFFFFFF4 := rfl

lemma singleHole_createHeap (h0 : 0 < start) (halign : start % 0x1000 = 0)
    (htop : start + 4 * HEAP_INDEX_SIZE + 12 ≤ 2 ^ 32) (hend : end_ < 2 ^ 32) :
    SingleHole (createHeap start end_ max supervisor readonly k₀) := by
  have hN : HEAP_INDEX_SIZE = 0x20000 := rfl
  obtain ⟨h, hsize, hisHole, hend', -⟩ :=
    @heapInv_createHeap start end_ max supervisor readonly k₀ h0 halign htop hend
  set k := createHeap start end_ max supervisor readonly k₀ with hk
  have hslot {i : ℕ} (hi : i < k.heap.index.size) :
      k.holeAt i = [start + 4 * HEAP_INDEX_SIZE][i]?.getD 0 := by
    have := h.listed.size_le
    rw [holeAt, h.listed.array, h.listed.slots i (by omega)]
    rfl
  refine ⟨?_, by rw [h.start]; exact hisHole, 0, ?_, ?_, fun j hj hne => ?_⟩
  · rw [heapLen, hend', h.start, hsize]
  · rw [hk, size_createHeap]
    decide
  · rw [hslot (by rw [hk, size_createHeap]; decide), h.start]
    rfl
  · rw [hslot hj]
    cases j with
    | zero => exact absurd rfl hne
    | succ j => rfl

/-- **`free` never works on its argument.** A complete run has the property, that every `free`
works on its block and that a single hole is left, exactly when it allocates nothing. -/
theorem frees_iff_nil (h0 : 0 < start) (halign : start % 0x1000 = 0)
    (htop : start + 4 * HEAP_INDEX_SIZE + 12 ≤ 2 ^ 32) (hend : end_ < 2 ^ 32)
    (hr : Run HeapStep (createHeap start end_ max supervisor readonly k₀) ops k)
    (hc : Complete ops) : FreesArguments ops ∧ SingleHole k ↔ ops = [] := by
  constructor
  · rintro ⟨hfrees, -⟩
    by_contra hne
    obtain ⟨hnull, hlive⟩ := hc
    have hfree : ∃ p, .free p ∈ ops := by
      by_contra hno
      obtain ⟨live', hl, hlen⟩ := length_live (fun p hp => hno ⟨p, hp⟩) []
      obtain rfl : [] = live' := Option.some.inj (hlive.symm.trans hl)
      exact hne (List.length_eq_zero_iff.mp (by simpa using hlen.symm))
    obtain ⟨p, hp⟩ := hfree
    rcases freed_allocated hp _ _ hlive with h | ⟨c, hc, rfl⟩
    · simp at h
    · have hlt := run_ptr_lt hr c hc
      have hpos := hnull c hc
      have he := hfrees _ hp
      rw [freeHeader_eq] at he
      unfold sub32 at he
      omega
  · rintro rfl
    obtain rfl := Run.nil_iff.mp hr
    exact ⟨by simp [FreesArguments], singleHole_createHeap h0 halign htop hend⟩

end Free

/-! ### A run -/

/-- With zeroes at the top of memory, `free` only marks its header there. -/
lemma free_idle {k : Kernel} {p : ℕ} (hfoot : read32 k.mem 0xFFFFFFEC = 0)
    (hmagic : read32 k.mem 0xFFFFFFF8 = 0) (hsize : read32 k.mem 0xFFFFFFFC = 0)
    (hend : k.heap.endAddress ≠ 0xFFFFFFF4) : ∃ k', k.free p = some k' := by
  set k₁ := k.write fun m => write8 m 0xFFFFFFF4 1 with hk₁
  have hfoot₁ : read32 k₁.mem 0xFFFFFFEC = 0 :=
    (read32_write8_ne (by decide) (by decide)).trans hfoot
  have hmagic₁ : read32 k₁.mem 0xFFFFFFF8 = 0 :=
    (read32_write8_ne (by decide) (by decide)).trans hmagic
  have hheader : headerSize k.mem 0xFFFFFFF4 = 0 := hsize
  have hbefore : k₁.mergeBefore 0xFFFFFFF4 0xFFFFFFEC = (0xFFFFFFF4, true, k₁) := by
    refine if_neg fun h => ?_
    exact absurd (hfoot₁.symm.trans h.2) (by decide)
  have hafter : k₁.mergeAfter 0xFFFFFFF4 0xFFFFFFEC true = some (0xFFFFFFEC, true, k₁) := by
    refine if_neg fun h => ?_
    exact absurd (hmagic₁.symm.trans h.2) (by decide)
  have hshrink : k₁.shrinkHeap 0xFFFFFFF4 0xFFFFFFEC 0xFFFFFFF4 = some k₁ :=
    if_neg fun h => hend h.symm
  refine ⟨k₁.insertHole 0xFFFFFFF4, ?_⟩
  have hfooter : sub32 (add32 0xFFFFFFF4 0) 8 = 0xFFFFFFEC := rfl
  have htest : add32 0xFFFFFFEC 8 = 0xFFFFFFF4 := rfl
  rw [free, freeHeader_eq]
  unfold freeBlock
  rw [hheader, hfooter]
  simp only [← hk₁, hbefore, htest, hafter, Option.bind_eq_bind, Option.bind_some, hshrink,
    if_true]

lemma alloc_zeroedHeap : ∃ k, alloc 1 0x7FFEC false zeroedHeap = some (0xC008000C, k) ∧
    k.heap.endAddress = 0xC0100000 ∧
    Writes zeroedHeap.mem k.mem (Set.Ico 0xC0000000 0xC0100000) := by
  have hfind : findHoleFitFirst 0x80000 false zeroedHeap.heap zeroedHeap.mem =
      some (some 0) := by decide +kernel
  have hslot : findSortedArray 0 zeroedHeap.heap.index zeroedHeap.mem = some 0xC0080000 := by
    decide +kernel
  have hsize : headerSize zeroedHeap.mem 0xC0080000 = 0x80000 := by decide +kernel
  obtain ⟨h, -, -, hend, -⟩ := @heapInv_createHeap 0xC0000000 0xC0100000 0xCFFFF000 false false
    zeroedKernel (by decide) (by decide) (by decide) (by decide)
  obtain ⟨a, m, hrem, -, -, hw⟩ := h.listed.remove (show 0 < 1 by decide)
  set m₁ := writeHeader 0xC0080000 0 0x80000 m with hm₁
  set m₂ := writeFooter 0xC00FFFF8 0xC0080000 m₁ with hm₂
  have hw₁ : Writes m m₁ (Set.Ico 0xC0000000 0xC0100000) :=
    writes_writeHeader (by decide) (by decide) (by decide)
  have hw₂ : Writes m₁ m₂ (Set.Ico 0xC0000000 0xC0100000) :=
    writes_writeFooter (by decide) (by decide) (by decide)
  have hw₀ := hw.mono (T := Set.Ico 0xC0000000 0xC0100000) (Set.Ico_subset_Ico le_rfl (by decide))
  refine ⟨zeroedHeap.retag m₂ a, ?_, hend, (hw₀.trans hw₁).trans hw₂⟩
  have hcut : zeroedHeap.cutFront 0 0xC0080000 0x80000 false =
      some (0xC0080000, 0x80000, zeroedHeap.retag m a) := by
    unfold cutFront removeHole
    rw [if_neg (by decide)]
    show ((removeSortedArray 0 zeroedHeap.heap.index zeroedHeap.mem).bind _).bind _ = _
    rw [show removeSortedArray 0 zeroedHeap.heap.index zeroedHeap.mem = some (a, m) from hrem]
    rfl
  have hnew : add32 (add32 0x7FFEC 12) 8 = 0x80000 := rfl
  unfold alloc
  simp only [hnew, hfind, Option.bind_eq_bind, Option.bind_some]
  unfold placeBlock
  rw [hslot]
  simp only [Option.bind_eq_bind, Option.bind_some, hsize]
  rw [show sub32 0x80000 0x80000 = 0 from rfl]
  simp only [show (0 < 12 + 8) from by decide, if_true, hcut, Option.bind_some]
  rfl

/-- The first run of all: one block, and its `free`. -/
def allocFree : List HeapOp := [.alloc ⟨0x7FFEC, false, 0xC008000C⟩, .free 0xC008000C]

lemma run_allocFree : ∃ k, Run HeapStep zeroedHeap allocFree k := by
  obtain ⟨k, hk, hend, hw⟩ := alloc_zeroedHeap
  have hread {a : ℕ} (h1 : 0xC0100000 ≤ a) (h2 : a + 4 ≤ 2 ^ 32)
      (h : read32 zeroedHeap.mem a = 0) : read32 k.mem a = 0 := by
    rw [hw.read32 h2 fun x hx _ hin => ?_, h]
    have := hin.2
    omega
  obtain ⟨k', hk'⟩ := free_idle (p := 0xC008000C)
    (hread (by decide) (by decide) (by decide +kernel))
    (hread (by decide) (by decide) (by decide +kernel))
    (hread (by decide) (by decide) (by decide +kernel)) (by rw [hend]; decide)
  have hstep : HeapStep zeroedHeap (.alloc ⟨0x7FFEC, false, 0xC008000C⟩) k := .alloc ⟨1, hk⟩
  exact ⟨k', (Run.single hstep).snoc (.free hk')⟩

lemma complete_allocFree : Complete allocFree := ⟨by simp [allocFree], by decide⟩

/-- The header that `free` works on is not that of the block. -/
theorem frees_fails_one : ∃ k, Run HeapStep zeroedHeap allocFree k ∧ Complete allocFree ∧
    ¬ FreesArguments allocFree := by
  obtain ⟨k, hr⟩ := run_allocFree
  refine ⟨k, hr, complete_allocFree, fun h => ?_⟩
  have he := h 0xC008000C (by simp [allocFree])
  exact absurd he (by decide)

theorem frees_iff_nil_one : ∃ k, Run HeapStep zeroedHeap allocFree k ∧
    ¬ (FreesArguments allocFree ∧ SingleHole k) := by
  obtain ⟨k, hr⟩ := run_allocFree
  have h := frees_iff_nil (by decide) (by decide) (by decide) (by decide) hr complete_allocFree
  exact ⟨k, hr, fun hfrees => absurd (h.mp hfrees) (by simp [allocFree])⟩

end OsImplement.Memory
