import OsImplement.Memory.Faults
import OsImplement.Memory.HeapCalls
import OsImplement.Memory.HeapSearch

/-!
Sizes and limits of `alloc`.

The sum of a size and two tags may wrap, and `max_address` is written when the heap is made and
never read. A call that does neither, places its block well, finds the page tables of the bytes that
it adds and stores to mapped memory, returns: every growth makes the highest hole longer by the whole
request, so that the search cannot go on missing it.
-/

namespace OsImplement.Memory

open Lib.Word Lib.Bytes Lib.Step Kernel

namespace Kernel

/-- The growth stays below `max_address`, where page tables are. -/
def GrowsBelow (lo hi : ℕ) (k : Kernel) : Prop :=
  Covered lo hi k ∧ k.heap.startAddress + hi ≤ k.heap.maxAddress

/-- The growth finds the tables of its pages, and its end does not wrap. -/
def GrowsTabled (lo hi : ℕ) (k : Kernel) : Prop :=
  Tabled lo hi k ∧ k.heap.startAddress + hi < 2 ^ 32

/-- What a block of `n` bytes leaves behind it is nothing, or has room for two tags. -/
def TagsFit (p s n : ℕ) (pageAlign : Bool) : Prop :=
  restSize (alignOffset pageAlign p) s (blockRoom s n) = 0 ∨
    20 ≤ restSize (alignOffset pageAlign p) s (blockRoom s n)

/-- A call of `alloc`, followed `fuel` calls deep, places its block where `TagsFit`. -/
def TagsFitAt : ℕ → ℕ → Bool → Kernel → Prop
  | 0, _, _, _ => True
  | fuel + 1, size, pageAlign, k =>
    (∀ iter, findHoleFitFirst (size + 20) pageAlign k.heap k.mem = some (some iter) →
      TagsFit (k.holeAt iter) (headerSize k.mem (k.holeAt iter)) (size + 20) pageAlign) ∧
    (findHoleFitFirst (size + 20) pageAlign k.heap k.mem = some none →
      let newSize := roundSize (add32 k.heapLen (size + 20))
      let newEnd := k.heap.startAddress + newSize
      ∀ k', expandPages (mallocAp (alloc fuel)) newSize (2 ^ 20) k.heapLen k = some k' →
        ∀ k'', (k'.setEnd newEnd).growHole k.heap.endAddress k.heapLen = some k'' →
          TagsFitAt fuel size pageAlign k'')

/-- **A call of `alloc` keeps to the limits**: it is sound, it grows the heap below `max_address`
only, it leaves room for tags, and it stores to mapped memory. -/
structure BoundedOk (size : ℕ) (pageAlign : Bool) (k : Kernel) : Prop where
  sound : AllocOk size pageAlign k
  grows : Grows GrowsBelow size pageAlign k
  tags : ∀ fuel, TagsFitAt fuel size pageAlign k
  mapped : StoresMapped size pageAlign k

/-- `alloc` returns, on the paged machine. -/
def PagedStep (k : Kernel) (c : Call) (k' : Kernel) : Prop :=
  ∃ fuel, Paged.alloc fuel c.size c.pageAlign k = some (c.ptr, k')

/-- A block with all the bytes that were asked for, in a heap within its limit. -/
structure Allocated (size p : ℕ) (k' : Kernel) : Prop where
  size : size + 20 ≤ headerSize k'.mem (p - 12)
  limit : k'.heap.endAddress ≤ k'.heap.maxAddress

/-- A failure: NULL, and a heap with the bounds, the index and the bytes that it had. -/
structure Failed (p : ℕ) (k k' : Kernel) : Prop where
  null : p = 0
  heap : k'.heap = k.heap
  mem : ∀ x, k.heap.index.array ≤ x → x < k.heap.endAddress → k'.mem x = k.mem x

/-- No sum of the call wraps: not the request with its tags, and not the length of the heap with
the request. -/
def Unwrapped (size : ℕ) (pageAlign : Bool) (k : Kernel) : Prop :=
  size + 20 < 2 ^ 32 ∧ Grows (fun lo _ _ => lo + (size + 20) < 2 ^ 32) size pageAlign k

/-- A heap within its limit. -/
structure Limited (k : Kernel) : Prop where
  le : k.heap.startAddress ≤ k.heap.endAddress
  limit : k.heap.endAddress ≤ k.heap.maxAddress
  word : k.heap.maxAddress < 2 ^ 32

section Bounds

variable {A size fuel p : ℕ} {pageAlign : Bool} {holes blocks : List (ℕ × ℕ)}
  {k k' k₀ k₂ : Kernel}

lemma Limited.retag (h : Limited k) (m : Mem) (a : SortedArray) : Limited (k.retag m a) :=
  ⟨h.le, h.limit, h.word⟩

lemma Limited.grow {newSize : ℕ} (h : Limited k) (hf : OnlyFrames k k₀)
    (hG : GrowsBelow k.heapLen newSize k) (hr : (k₀.setEnd (k.heap.startAddress + newSize)).growHole
      k.heap.endAddress k.heapLen = some k₂) : Limited k₂ := by
  obtain ⟨m, a, rfl⟩ := growHole_retag hr
  have hk : (k₀.setEnd (k.heap.startAddress + newSize)).heap =
      { k.heap with endAddress := k.heap.startAddress + newSize } := by
    rw [← hf.heap]
    rfl
  refine Limited.retag ⟨?_, ?_, ?_⟩ m a <;> rw [hk]
  · exact Nat.le_add_right _ _
  · exact hG.2
  · exact h.word

lemma GrowsBelow.tabled {lo hi : ℕ} (h : Limited k) (hG : GrowsBelow lo hi k) :
    GrowsTabled lo hi k :=
  ⟨hG.1.tabled, hG.2.trans_lt h.word⟩

lemma OnlyFrames.highestSize (hf : OnlyFrames k k₀) : k₀.highestSize = k.highestSize := by
  have hhigh : k₀.highestHole = k.highestHole := by rw [highestHole, hf.heap, hf.mem, highestHole]
  rw [Kernel.highestSize, hhigh, hf.mem, Kernel.highestSize]

/-- The search does not miss a hole that is long enough for any alignment. -/
lemma highestSize_of_miss (h : HeapInv A holes blocks k)
    (hmiss : findHoleFitFirst (size + 20) pageAlign k.heap k.mem = some none) :
    k.highestSize < size + 20 + 0x1000 := by
  obtain ⟨found, hfound, hspec⟩ := @Listed.findHole_spec _ _ _ _ h.listed (size + 20) pageAlign
    k.heap.index.size 0 (by omega)
  obtain rfl : found = none := Option.some.inj (hfound.symm.trans hmiss)
  unfold highestSize
  split_ifs with h0
  · omega
  · have hne : holes ≠ [] := by
      rintro rfl
      rcases h.highest with ⟨-, hv, -⟩ | ⟨-, -, -, ⟨_, hmem⟩, -⟩
      · exact h0 hv
      · cases hmem
    obtain ⟨-, r, hmem, -⟩ := h.highest_mem hne
    obtain ⟨j, hj, hjx⟩ := List.getElem_of_mem (List.mem_map_of_mem (f := Prod.fst) hmem)
    have hlen := h.listed.length_lt
    have hfit := hspec j (Nat.zero_le j) (by omega)
    rw [List.getElem?_eq_getElem hj, hjx, Option.getD_some] at hfit
    have hoff := @alignOffset_lt k.highestHole pageAlign
    by_contra hge
    exact hfit ((holeFits_iff _ _ _ _).mpr (.inl (show size + 20 +
      alignOffset pageAlign k.highestHole ≤ headerSize k.mem k.highestHole by omega)))

lemma placed_or_miss (h : HeapInv A holes blocks k) (hok : OkAt (fuel + 1) size pageAlign k) :
    (∃ p m a, alloc (fuel + 1) size pageAlign k = some (p, k.retag m a) ∧
      (TagsFitAt (fuel + 1) size pageAlign k → size + 20 ≤ headerSize m (p - 12))) ∨
    findHoleFitFirst (size + 20) pageAlign k.heap k.mem = some none := by
  obtain ⟨found, hfound, hspec⟩ := @Listed.findHole_spec _ _ _ _ h.listed (size + 20) pageAlign
    k.heap.index.size 0 (by omega)
  have hfirst : findHoleFitFirst (size + 20) pageAlign k.heap k.mem = some found := hfound
  cases found with
  | none => exact .inr hfirst
  | some iter =>
    obtain ⟨holes', m, a, hpl, -, ⟨hroom, hsize⟩, -⟩ := @alloc_placed A size pageAlign holes blocks k
      fuel iter _ _ _ h hok.1 hfirst hspec.2.1 rfl rfl rfl (hok.2.1 iter hfirst)
    refine .inl ⟨_, m, a, hpl, fun htags => ?_⟩
    rw [Nat.add_sub_cancel, hsize (htags.1 iter hfirst)]
    exact hroom

lemma regrown_of_miss (h : HeapInv A holes blocks k) (hok : OkAt (fuel + 1) size pageAlign k)
    (hmiss : findHoleFitFirst (size + 20) pageAlign k.heap k.mem = some none)
    (hG : GrowsTabled k.heapLen (roundSize (add32 k.heapLen (size + 20))) k) :
    ∃ k₀ k₂ extra, Regrown A fuel size pageAlign (extra ++ blocks) k k₀ k₂ ∧ OnlyFrames k k₀ ∧
      alloc (fuel + 1) size pageAlign k = alloc fuel size pageAlign k₂ ∧
      k.highestSize + (size + 20) ≤ k₂.highestSize := by
  have hstart := h.start
  have hN : HEAP_INDEX_SIZE = 0x20000 := rfl
  have hend := hG.2
  obtain ⟨k₀, hexp, hf⟩ := @expandPages_tabled (mallocAp (alloc fuel)) _ _ k (by omega) hG.1
  obtain ⟨k₂, extra, hg, heq, -, hbig⟩ := alloc_regrows (alloc_sound A fuel) h hok hmiss hexp
  exact ⟨k₀, k₂, extra, hg, hf, heq, hf.highestSize ▸ hbig⟩

lemma limited_of_miss (h : HeapInv A holes blocks k) (hl : Limited k)
    (hok : OkAt (fuel + 1) size pageAlign k)
    (hmiss : findHoleFitFirst (size + 20) pageAlign k.heap k.mem = some none)
    (hG : GrowsBelow k.heapLen (roundSize (add32 k.heapLen (size + 20))) k) :
    ∃ k₀ k₂ extra, Regrown A fuel size pageAlign (extra ++ blocks) k k₀ k₂ ∧ Limited k₂ ∧
      alloc (fuel + 1) size pageAlign k = alloc fuel size pageAlign k₂ := by
  obtain ⟨k₀, k₂, extra, hg, hf, heq, -⟩ := regrown_of_miss h hok hmiss (hG.tabled hl)
  exact ⟨k₀, k₂, extra, hg, hl.grow hf hG hg.grow, heq⟩

theorem alloc_allocated : ∀ (fuel : ℕ) (k : Kernel) (holes blocks : List (ℕ × ℕ)),
    HeapInv A holes blocks k → Limited k → OkAt fuel size pageAlign k →
    GrowsAt GrowsBelow fuel size pageAlign k → TagsFitAt fuel size pageAlign k →
    alloc fuel size pageAlign k = some (p, k') → Allocated size p k' ∧ Limited k' := by
  intro fuel
  induction fuel with
  | zero => exact fun _ _ _ _ _ _ _ _ hr => by simp [alloc] at hr
  | succ fuel ih =>
    intro k holes blocks h hl hok hgrows htags hr
    rcases placed_or_miss h hok with ⟨q, m, a, hpl, hsize⟩ | hmiss
    · rw [hpl] at hr
      obtain ⟨rfl, rfl⟩ := Prod.mk.inj (Option.some.inj hr)
      exact ⟨⟨hsize htags, hl.limit⟩, hl.retag m a⟩
    · obtain ⟨hG, hnext⟩ := hgrows hmiss
      obtain ⟨k₀, k₂, extra, hg, hl₂, heq⟩ := limited_of_miss h hl hok hmiss hG
      obtain ⟨holes₂, h₂⟩ := hg.grown
      exact ih k₂ holes₂ _ h₂ hl₂ hg.again (hnext _ hg.expand _ hg.grow)
        (htags.2 hmiss _ hg.expand _ hg.grow) (heq ▸ hr)

/-- **A call returns** that grows the heap within the tables there are: `fuel` growths at most make
the highest hole long enough. -/
theorem alloc_returns : ∀ (fuel : ℕ) (k : Kernel) (holes blocks : List (ℕ × ℕ)),
    HeapInv A holes blocks k → OkAt (fuel + 1) size pageAlign k →
    GrowsAt GrowsTabled (fuel + 1) size pageAlign k →
    size + 20 + 0x1000 ≤ k.highestSize + 20 * fuel →
    ∃ p k', alloc (fuel + 1) size pageAlign k = some (p, k') := by
  intro fuel
  induction fuel with
  | zero =>
    intro k holes blocks h hok hgrows hbig
    rcases placed_or_miss h hok with ⟨p, m, a, hpl, -⟩ | hmiss
    · exact ⟨p, _, hpl⟩
    · have := highestSize_of_miss h hmiss
      omega
  | succ fuel ih =>
    intro k holes blocks h hok hgrows hbig
    rcases placed_or_miss h hok with ⟨p, m, a, hpl, -⟩ | hmiss
    · exact ⟨p, _, hpl⟩
    · obtain ⟨hG, hnext⟩ := hgrows hmiss
      obtain ⟨k₀, k₂, extra, hg, -, heq, hmore⟩ := regrown_of_miss h hok hmiss hG
      obtain ⟨holes₂, h₂⟩ := hg.grown
      obtain ⟨p, k', hr⟩ := ih k₂ holes₂ _ h₂ hg.again (hnext _ hg.expand _ hg.grow) (by omega)
      exact ⟨p, k', heq.trans hr⟩

lemma grows_tabled : ∀ (fuel : ℕ) (k : Kernel) (holes blocks : List (ℕ × ℕ)),
    HeapInv A holes blocks k → Limited k → OkAt fuel size pageAlign k →
    GrowsAt GrowsBelow fuel size pageAlign k → GrowsAt GrowsTabled fuel size pageAlign k := by
  intro fuel
  induction fuel with
  | zero => exact fun _ _ _ _ _ _ _ => trivial
  | succ fuel ih =>
    intro k holes blocks h hl hok hgrows hmiss
    obtain ⟨hG, hnext⟩ := hgrows hmiss
    obtain ⟨k₀, k₂, extra, hg, hl₂, -⟩ := limited_of_miss h hl hok hmiss hG
    refine ⟨hG.tabled hl, fun k' hk' k'' hk'' => ?_⟩
    obtain rfl : k₀ = k' := Option.some.inj (hg.expand.symm.trans hk')
    obtain rfl : k₂ = k'' := Option.some.inj (hg.grow.symm.trans hk'')
    obtain ⟨holes₂, h₂⟩ := hg.grown
    exact ih k₂ holes₂ _ h₂ hl₂ hg.again (hnext _ hk' _ hk'')

theorem alloc_unwrapped : ∀ (fuel : ℕ) (k : Kernel) (holes blocks : List (ℕ × ℕ)),
    HeapInv A holes blocks k → Limited k → OkAt fuel size pageAlign k →
    GrowsAt GrowsBelow fuel size pageAlign k →
    GrowsAt (fun lo _ _ => lo + (size + 20) < 2 ^ 32) fuel size pageAlign k := by
  intro fuel
  induction fuel with
  | zero => exact fun _ _ _ _ _ _ _ => trivial
  | succ fuel ih =>
    intro k holes blocks h hl hok hgrows hmiss
    obtain ⟨hG, hnext⟩ := hgrows hmiss
    obtain ⟨k₀, k₂, extra, hg, hl₂, -⟩ := limited_of_miss h hl hok hmiss hG
    have hle := hl.le
    have hword := hl.limit.trans_lt hl.word
    have hlen : k.heapLen = k.heap.endAddress - k.heap.startAddress := sub32_eq hle hword
    refine ⟨?_, fun k' hk' k'' hk'' => ?_⟩
    · obtain ⟨h1, h2⟩ := hg.growOk.noWrap
      rw [hlen]
      -- a sum that wraps would be rounded to less than the old length
      by_contra hwrap
      unfold roundSize add32 at h1
      split_ifs at h1 <;> omega
    · obtain rfl : k₀ = k' := Option.some.inj (hg.expand.symm.trans hk')
      obtain rfl : k₂ = k'' := Option.some.inj (hg.grow.symm.trans hk'')
      obtain ⟨holes₂, h₂⟩ := hg.grown
      exact ih k₂ holes₂ _ h₂ hl₂ hg.again (hnext _ hk' _ hk'')

end Bounds

end Kernel

/-! ### Runs -/

section Runs

variable {start end_ max size : ℕ} {pageAlign supervisor readonly : Bool} {k k₀ : Kernel}
  {calls : List Call}

lemma run_limited {A : ℕ} {holes : List (ℕ × ℕ)} (h : HeapInv A holes [] k₀) (hl : Limited k₀)
    (hr : Run (fun k c k' => PagedStep k c k' ∧ BoundedOk c.size c.pageAlign k) k₀ calls k) :
    (∃ holes blocks, HeapInv A holes blocks k) ∧ Limited k := by
  refine hr.inv (I := fun _ k => (∃ holes blocks, HeapInv A holes blocks k) ∧ Limited k)
    ⟨⟨holes, [], h⟩, hl⟩ ?_
  rintro calls k c k' ⟨⟨holes, blocks, h⟩, hl⟩ ⟨⟨fuel, hc⟩, hok⟩
  have hc := Paged.alloc_refines _ _ _ _ _ hc
  obtain ⟨holes', extra, h', -⟩ := alloc_sound A fuel _ _ _ _ _ _ _ h (hok.sound fuel) hc
  exact ⟨⟨holes', _, h'⟩, (alloc_allocated fuel k holes blocks h hl (hok.sound fuel) (hok.grows fuel)
    (hok.tags fuel) hc).2⟩

/-- **`alloc` keeps its sizes and limits**, in every run of calls that keep to them, on a heap made
by `create_heap`. -/
theorem alloc_bounded (h0 : 0 < start) (halign : start % 0x1000 = 0)
    (hlo : start + 4 * HEAP_INDEX_SIZE ≤ end_) (hend : end_ ≤ max) (hmax : max < 2 ^ 32)
    (hr : Run (fun k c k' => PagedStep k c k' ∧ BoundedOk c.size c.pageAlign k)
      (createHeap start end_ max supervisor readonly k₀) calls k)
    (hok : BoundedOk size pageAlign k) :
    (∃ fuel p k', Paged.alloc fuel size pageAlign k = some (p, k')) ∧
      (∀ fuel p k', Paged.alloc fuel size pageAlign k = some (p, k') →
        Allocated size p k' ∨ Failed p k k') ∧
      Unwrapped size pageAlign k := by
  have hN : HEAP_INDEX_SIZE = 0x20000 := rfl
  obtain ⟨h, -, -, hend₀, -⟩ := @heapInv_createHeap start end_ max supervisor readonly k₀ h0 halign
    (by omega) (by omega)
  have hl : Limited (createHeap start end_ max supervisor readonly k₀) := by
    refine ⟨?_, ?_, ?_⟩
    · rw [h.start, hend₀]
      exact hlo
    · rw [hend₀]
      exact hend
    · exact hmax
  obtain ⟨⟨holes, blocks, h⟩, hl⟩ := run_limited h hl hr
  refine ⟨?_, fun fuel p k' hc => .inl ?_, (hok.sound 1).1, fun fuel => ?_⟩
  · obtain ⟨p, k', hc⟩ := alloc_returns (size + 20 + 0x1000) k holes blocks h (hok.sound _)
      (grows_tabled _ k holes blocks h hl (hok.sound _) (hok.grows _)) (by omega)
    exact ⟨_, p, k', (alloc_faultless start _ _ _ _ _ _ _ _ h (hok.sound _) (hok.mapped _) hc).1⟩
  · exact (alloc_allocated fuel k holes blocks h hl (hok.sound fuel) (hok.grows fuel)
      (hok.tags fuel) (Paged.alloc_refines _ _ _ _ _ hc)).1
  · exact alloc_unwrapped fuel k holes blocks h hl (hok.sound fuel) (hok.grows fuel)

end Runs

/-- A size near `2 ^ 32`: the sum with the tags is 10, and a block of that is returned. -/
theorem alloc_bounded_fails :
    ∃ k', Paged.alloc 1 0xFFFFFFF6 false zeroedHeap = some (0xC008000C, k') ∧
      ¬ (Allocated 0xFFFFFFF6 0xC008000C k' ∨ Failed 0xC008000C zeroedHeap k') := by
  have hptr : (Paged.alloc 1 0xFFFFFFF6 false zeroedHeap).map Prod.fst = some 0xC008000C := by
    decide +kernel
  obtain ⟨⟨p, k'⟩, hk, rfl⟩ := Option.map_eq_some_iff.mp hptr
  refine ⟨k', hk, ?_⟩
  rintro (h | h)
  · have hsize := h.size
    have hlt := headerSize_lt k'.mem (0xC008000C - 12)
    omega
  · cases h.null

theorem alloc_bounded_one : (∃ fuel p k', Paged.alloc fuel 100 false zeroedHeap = some (p, k')) ∧
    (∀ fuel p k', Paged.alloc fuel 100 false zeroedHeap = some (p, k') →
      Allocated 100 p k' ∨ Failed p zeroedHeap k') ∧ Unwrapped 100 false zeroedHeap := by
  have hfind : findHoleFitFirst (100 + 20) false zeroedHeap.heap zeroedHeap.mem =
      some (some 0) := by decide +kernel
  have hslot : zeroedHeap.holeAt 0 = 0xC0080000 := by decide +kernel
  have hsize : headerSize zeroedHeap.mem 0xC0080000 = 0x80000 := by decide +kernel
  have hiter {iter : ℕ} (h : findHoleFitFirst (100 + 20) false zeroedHeap.heap zeroedHeap.mem =
      some (some iter)) : iter = 0 := by simpa [hfind] using h.symm
  have hok : BoundedOk 100 false zeroedHeap := by
    refine ⟨fun fuel => ?_, fun fuel => ?_, fun fuel => ?_, fun fuel => ?_⟩ <;> cases fuel
    · trivial
    · refine ⟨by decide, fun iter h => ?_, fun h => by simp [hfind] at h⟩
      obtain rfl := hiter h
      rw [hslot, hsize]
      have hcur : zeroedHeap.heap.index.cur = 1 := by decide +kernel
      have hend : zeroedHeap.heap.endAddress = 0xC0100000 := rfl
      rw [hcur, hend]
      exact ⟨by decide, by decide, by decide, by decide, by decide, by decide⟩
    · trivial
    · exact fun h => by simp [hfind] at h
    · trivial
    · refine ⟨fun iter h => ?_, fun h => by simp [hfind] at h⟩
      obtain rfl := hiter h
      rw [hslot, hsize]
      exact .inr (by decide)
    · trivial
    · exact ⟨fun _ _ => ⟨mappedFrom_boot rfl, fun _ => mappedFrom_boot rfl, fun _ _ =>
        mappedFrom_boot rfl⟩, fun h => by simp [hfind] at h⟩
  exact alloc_bounded (by decide) (by decide) (by decide) (by decide) (by decide) .nil
    hok

end OsImplement.Memory
