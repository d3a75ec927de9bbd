import OsImplement.Memory.Shared
import OsImplement.Memory.HeapBacking

/-!
The physical address of a directory.

`clone_dir` adds `0x1000` to the physical address of the first page of the directory, and that is
where the second page lies when the pages of the heap have consecutive frames. The heap starts with
such a run, and nothing in the code goes on with it: growth takes the first free frames there are.
-/

namespace OsImplement.Memory

open Lib.Word Lib.Bytes Lib.Interval Lib.Step

/-- `page_dir_phy` of the directory at `d` is the physical address of its `page_table_phy`, byte by
byte. -/
def Machine.PhysicalDir (s : Machine) (d : ℕ) : Prop :=
  ∀ x < 0x1000, s.kernel.translate s.kernel.curVmPageDir (d + 0x1000 + x) =
    some ((s.kernel.dirs d).pageDirPhy + x)

namespace Kernel

/-- The last page of the heap. -/
def lastPage (k : Kernel) : ℕ := (k.heap.endAddress - 1) / 0x1000

/-- Its frame. -/
def lastFrame (k : Kernel) : ℕ := k.pageFrame k.vmPageDir k.lastPage

/-- The heap grows within the tables there are, and the first free frames are those behind the frame
of its last page, one for each new page. -/
structure GrowsNext (lo hi : ℕ) (k : Kernel) : Prop extends GrowsBacked lo hi k where
  bitmap : 8 * k.map.framesBitmapSize ≤ 2 ^ 20
  used : ∀ f ≤ k.lastFrame, Used k.map f
  next : ∀ p, k.lastPage < p → p * 0x1000 < k.heap.startAddress + hi →
    k.translate k.vmPageDir (p * 0x1000) = none ∧ k.pageFrame k.vmPageDir p = 0 ∧
      k.lastFrame + (p - k.lastPage) < 8 * k.map.framesBitmapSize ∧
      ¬ Used k.map (k.lastFrame + (p - k.lastPage))

/-- A call of `alloc` is sound, and grows the heap as `GrowsNext` says. -/
def PhysOk (size : ℕ) (pageAlign : Bool) (k : Kernel) : Prop :=
  k.AllocOk size pageAlign ∧ k.Grows GrowsNext size pageAlign

/-- The pages of the heap have consecutive frames, from `F` on. -/
structure HeapRun (A F : ℕ) (k : Kernel) : Prop extends HeapBacked A k where
  lt : k.heap.startAddress < k.heap.endAddress
  apart : k.TablesApart k.vmPageDir
  run : ∀ p, k.heap.startAddress / 0x1000 ≤ p → p * 0x1000 < k.heap.endAddress →
    k.pageFrame k.vmPageDir p = F + (p - k.heap.startAddress / 0x1000) ∧
      F + (p - k.heap.startAddress / 0x1000) < 2 ^ 20

section Run

variable {A F d p q : ℕ} {k k' : Kernel}

lemma OnlyFrames.pageFrame (h : OnlyFrames k k') (hp : k.pageFrame d p ≠ 0) :
    k'.pageFrame d p = k.pageFrame d p := by
  have ht := tableOf_of_pageFrame hp
  unfold Kernel.pageFrame at hp ⊢
  rw [if_neg ht] at hp
  rw [h.tableOf, if_neg ht, if_neg ht, entryOf, h.tableOf, h.entries _ _ hp, entryOf]

lemma OnlyFrames.tablesApart (h : OnlyFrames k k') (hap : k.TablesApart d) :
    k'.TablesApart d := by
  intro i j hij hne
  rw [h.tableOf, h.tableOf] at hij
  rw [h.tableOf] at hne
  exact hap i j hij hne

lemma translate_frame {a : ℕ} (h : k.translate d a ≠ none) :
    k.translate d a = some (k.pageFrame d (a / 0x1000) * 0x1000 + a % 0x1000) := by
  obtain ⟨ht, hv⟩ := translate_ne_none.mp h
  unfold Kernel.translate lookupPage
  simp only [ne_eq, ht, not_false_eq_true, if_true]
  rw [Kernel.pageFrame, if_neg ht, entryOf]
  exact if_pos hv

lemma pageFrame_congr {d' : ℕ} (h : k'.tableOf d' (p / 1024) = k.tableOf d (p / 1024))
    (ht : k'.tables = k.tables) : k'.pageFrame d' p = k.pageFrame d p := by
  unfold Kernel.pageFrame entryOf
  rw [h, ht]

lemma allocFrame_page (hap : k.TablesApart d) (ht : k.tableOf d (q / 1024) ≠ 0)
    (h0 : k.pageFrame d q = 0) (hsize : 8 * k.map.framesBitmapSize ≤ 2 ^ 20)
    (hfree : ∃ f < 8 * k.map.framesBitmapSize, ¬ Used k.map f) (isKernel isWritable : Bool) :
    let k' := k.allocFrame (some (k.refOf d q)) isKernel isWritable
    (∀ p, k'.pageFrame d p = if p = q then firstFrame k.map else k.pageFrame d p) ∧
      k'.map = setFrame (firstFrame k.map * 0x1000) k.map := by
  intro k'
  have hlt := (firstFrame_spec hfree).1
  have hentry : (k.tables (k.refOf d q).table (k.refOf d q).idx).frame = 0 := by
    rw [Kernel.pageFrame, if_neg ht] at h0
    exact h0
  refine ⟨fun p => ?_, (allocFrame_free hsize hentry hfree).1⟩
  rw [pageFrame_allocFrame hap ht, Nat.mod_eq_of_lt (by omega), h0]
  simp only [and_true]

lemma allocFrame_page_held (ht : k.tableOf d (q / 1024) ≠ 0) (h0 : k.pageFrame d q ≠ 0)
    (isKernel isWritable : Bool) :
    (k.allocFrame (some (k.refOf d q)) isKernel isWritable).map = k.map := by
  rw [Kernel.pageFrame, if_neg ht] at h0
  show (Memory.allocFrame (k.entryOf d q) isKernel isWritable k.map).2 = k.map
  rw [allocFrame_held h0]

end Run

/-! ### Growth -/

section Grow

variable {A F newSize : ℕ} {k k' k₁ : Kernel} {mallocAp : MallocAp}

/-- The rounds of `expand` up to page `q`: the new pages below `q` have the frames behind the last
one, those from `q` on have none yet, and nothing else is marked. -/
structure NextRounds (k : Kernel) (newEnd q : ℕ) (k₁ : Kernel) : Prop where
  pages : ∀ p, k.lastPage < p → p * 0x1000 < newEnd → k₁.pageFrame k.vmPageDir p =
    if p < q then k.lastFrame + (p - k.lastPage) else 0
  marks : ∀ f, Used k₁.map f ↔ Used k.map f ∨ k.lastFrame < f ∧ f + k.lastPage < k.lastFrame + q
  size : k₁.map.framesBitmapSize = k.map.framesBitmapSize

lemma NextRounds.step {lo hi q : ℕ} (hg : GrowsNext lo hi k) (hap : k.TablesApart k.vmPageDir)
    (h0 : k.lastFrame ≠ 0) (hf : OnlyFrames k k₁) (hq : k.lastPage ≤ q)
    (htop : q * 0x1000 < k.heap.startAddress + hi)
    (ht : k.tableOf k.vmPageDir (q / 1024) ≠ 0) (isKernel isWritable : Bool)
    (h : NextRounds k (k.heap.startAddress + hi) q k₁) :
    NextRounds k (k.heap.startAddress + hi) (q + 1)
      (k₁.allocFrame (some (k.refOf k.vmPageDir q)) isKernel isWritable) := by
  have hap₁ := hf.tablesApart hap
  have hsize := hg.bitmap
  have ht₁ : k₁.tableOf k.vmPageDir (q / 1024) ≠ 0 := by rwa [hf.tableOf]
  have href : k.refOf k.vmPageDir q = k₁.refOf k.vmPageDir q := by
    rw [refOf, refOf, hf.tableOf]
  rw [href]
  rcases Nat.eq_or_lt_of_le hq with rfl | hlt
  · -- the last page of the heap has its frame
    have hheld : k₁.pageFrame k.vmPageDir k.lastPage ≠ 0 := by
      rw [hf.pageFrame h0]
      exact h0
    have hmap := allocFrame_page_held ht₁ hheld isKernel isWritable
    refine ⟨fun p hp hpe => ?_, fun f => ?_, ?_⟩
    · rw [pageFrame_allocFrame hap₁ ht₁, if_neg fun hc => hheld hc.2, h.pages p hp hpe,
        if_neg (by omega), if_neg (by omega)]
    · rw [hmap, h.marks]
      refine or_congr_right ⟨fun hc => ?_, fun hc => ?_⟩ <;> omega
    · rw [hmap, h.size]
  · obtain ⟨-, -, hbound, hfree⟩ := hg.next q hlt htop
    have hzero : k₁.pageFrame k.vmPageDir q = 0 := by
      rw [h.pages q hlt htop, if_neg (by omega)]
    have hfree₁ : ¬ Used k₁.map (k.lastFrame + (q - k.lastPage)) := by
      rw [h.marks]
      rintro (hu | ⟨-, hu⟩)
      · exact hfree hu
      · omega
    have hex : ∃ f < 8 * k₁.map.framesBitmapSize, ¬ Used k₁.map f := by
      rw [h.size]
      exact ⟨_, hbound, hfree₁⟩
    -- the first free frame is the next one
    have hfirst : firstFrame k₁.map = k.lastFrame + (q - k.lastPage) := by
      obtain ⟨-, hnot, hbelow⟩ := firstFrame_spec hex
      refine le_antisymm (not_lt.mp fun hlt' => hfree₁ (hbelow _ hlt')) (not_lt.mp fun hlt' => ?_)
      refine hnot ((h.marks _).mpr ?_)
      by_cases hle : firstFrame k₁.map ≤ k.lastFrame
      · exact .inl (hg.used _ hle)
      · right
        omega
    obtain ⟨hpages, hmap⟩ := allocFrame_page hap₁ ht₁ hzero (by rw [h.size]; exact hsize) hex
      isKernel isWritable
    refine ⟨fun p hp hpe => ?_, fun f => ?_, ?_⟩
    · rw [hpages, hfirst]
      by_cases hpq : p = q
      · rw [if_pos hpq, if_pos (by omega), hpq]
      · rw [if_neg hpq, h.pages p hp hpe]
        exact if_congr (by omega) rfl rfl
    · rw [hmap, used_setFrame, h.marks, hfirst]
      by_cases hu : Used k.map f
      · simp only [hu, true_or, or_true]
      · simp only [hu, false_or]
        omega
    · rw [hmap, size_setFrame, h.size]

/-- **The new pages get the frames behind the last one.** -/
lemma expandPages_next (hle : k.heap.startAddress < k.heap.endAddress)
    (hlt : k.heap.startAddress + newSize < 2 ^ 32) (htop : newSize + 0x1000 ≤ 2 ^ 32)
    (hend : k.heap.endAddress ≤ k.heap.startAddress + newSize)
    (hg : GrowsNext k.heapLen newSize k) (hap : k.TablesApart k.vmPageDir) (h0 : k.lastFrame ≠ 0)
    (hr : expandPages mallocAp newSize (2 ^ 20) k.heapLen k = some k') :
    OnlyFrames k k' ∧ ∀ p, k.lastPage < p → p * 0x1000 < k.heap.startAddress + newSize →
      k'.pageFrame k.vmPageDir p = k.lastFrame + (p - k.lastPage) := by
  have hlen : k.heapLen = k.heap.endAddress - k.heap.startAddress := sub32_eq hle.le (by omega)
  have hlast : k.lastPage = (k.heap.endAddress - 1) / 0x1000 := rfl
  have hpage (j : ℕ) : (k.heap.startAddress + (k.heapLen + 0x1000 * j)) / 0x1000 =
      k.heap.endAddress / 0x1000 + j := by omega
  have hstart :
      NextRounds k (k.heap.startAddress + newSize) (k.heap.endAddress / 0x1000 + 0) k := by
    refine ⟨fun p hp hpe => ?_, fun f => ⟨Or.inl, fun hor => hor.resolve_right fun hc => ?_⟩, rfl⟩
    · rw [(hg.next p hp hpe).2.1, if_neg (by omega)]
    · omega
  have hrun := expandPages_rounds (P := fun j k₁ =>
      NextRounds k (k.heap.startAddress + newSize) (k.heap.endAddress / 0x1000 + j) k₁) htop hlt
    hg.covered hstart (fun j k₁ hj hf hp => ?_) hr
  · obtain ⟨hf, c, hc, hrounds⟩ := hrun
    refine ⟨hf, fun p hp hpe => ?_⟩
    rw [hrounds.pages p hp hpe, if_pos]
    -- a round has reached the page
    obtain ⟨hnone, -⟩ := hg.next p hp hpe
    rcases hg.reached (p * 0x1000 - k.heap.startAddress) (by omega) (by omega) with
      hmapped | ⟨j, hj, hpj⟩
    · rw [show k.heap.startAddress + (p * 0x1000 - k.heap.startAddress) = p * 0x1000 by omega]
        at hmapped
      exact absurd hnone hmapped
    · rw [hpage] at hpj
      omega
  · rw [hpage]
    have htab := hg.covered (k.heapLen + 0x1000 * j) (by omega) hj
    rw [add32_eq (show k.heap.startAddress + (k.heapLen + 0x1000 * j) < 2 ^ 32 by omega), hpage]
      at htab
    exact hp.step hg hap h0 hf (by omega) (by omega) htab _ _

lemma expandPages_first {i q : ℕ} (htop : newSize + 0x1000 ≤ 2 ^ 32)
    (hlt : k.heap.startAddress + newSize < 2 ^ 32) (hc : Covered i newSize k) (hi : i < newSize)
    (hq : (k.heap.startAddress + i) / 0x1000 = q) (hap : k.TablesApart k.vmPageDir)
    (h0 : k.pageFrame k.vmPageDir q = 0) (hsize : 8 * k.map.framesBitmapSize ≤ 2 ^ 20)
    (hfree : ∃ f < 8 * k.map.framesBitmapSize, ¬ Used k.map f) (hne : firstFrame k.map ≠ 0)
    (hr : expandPages mallocAp newSize (2 ^ 20) i k = some k') :
    k'.pageFrame k.vmPageDir q = firstFrame k.map := by
  have ht : k.tableOf k.vmPageDir (q / 1024) ≠ 0 := by
    have htab := hc i le_rfl hi
    rwa [add32_eq (by omega), hq] at htab
  have hrun := expandPages_rounds (P := fun j k₁ => (j = 0 → k₁ = k) ∧
      (0 < j → k₁.pageFrame k.vmPageDir q = firstFrame k.map)) htop hlt hc
    ⟨fun _ => rfl, fun hj => absurd hj (by omega)⟩ (fun j k₁ hj hf hp => ?_) hr
  · obtain ⟨-, c, hle, hp⟩ := hrun
    exact hp.2 (by omega)
  · refine ⟨fun hj => absurd hj (by omega), fun _ => ?_⟩
    rcases Nat.eq_zero_or_pos j with rfl | hpos
    · obtain rfl := hp.1 rfl
      rw [Nat.mul_zero, Nat.add_zero, hq, (allocFrame_page hap ht h0 hsize hfree _ _).1,
        if_pos rfl]
    · have hframe := hp.2 hpos
      rw [(onlyFrames_allocFrame k₁ _ _ _).pageFrame (by rw [hframe]; exact hne), hframe]

end Grow

/-! ### The frames of the heap -/

section Run

variable {A F newSize size p fuel : ℕ} {holes blocks : List (ℕ × ℕ)} {k k' : Kernel}
  {mallocAp : MallocAp}

lemma pageFrame_same (hs : SameKernel A k k') (hlow : ∀ i, k.tableOf k.vmPageDir i < A) (p : ℕ) :
    k'.pageFrame k'.vmPageDir p = k.pageFrame k.vmPageDir p := by
  obtain ⟨h1, h2⟩ := entryOf_same hs hlow p
  unfold Kernel.pageFrame
  rw [h1, h2]

lemma HeapRun.congr (h : HeapRun A F k) (hs : SameKernel A k k') : HeapRun A F k' := by
  refine ⟨h.toHeapBacked.congr hs, by rw [hs.heap]; exact h.lt, fun i j hij hne => ?_,
    fun p h1 h2 => ?_⟩
  · rw [hs.vm, Kernel.tableOf, Kernel.tableOf, hs.dir] at hij
    rw [hs.vm, Kernel.tableOf, hs.dir] at hne
    exact h.apart i j hij hne
  · rw [hs.heap] at h1 h2
    rw [pageFrame_same hs h.low, hs.heap]
    exact h.run p h1 h2

lemma HeapRun.retag (h : HeapRun A F k) (m : Mem) (a : SortedArray) : HeapRun A F (k.retag m a) :=
  ⟨⟨h.le, h.low, h.framed, h.backed⟩, h.lt, h.apart, h.run⟩

lemma OnlyFrames.heapRun (hf : OnlyFrames k k') (hF : 0 < F) (h : HeapRun A F k) :
    HeapRun A F k' := by
  refine ⟨hf.heapBacked h.toHeapBacked, by rw [hf.heap]; exact h.lt,
    by rw [hf.vm]; exact hf.tablesApart h.apart, fun p h1 h2 => ?_⟩
  rw [hf.heap] at h1 h2
  obtain ⟨hrun, hsmall⟩ := h.run p h1 h2
  rw [hf.vm, hf.pageFrame (by omega), hf.heap]
  exact ⟨hrun, hsmall⟩

lemma HeapRun.grow (h : HeapRun A F k) (hF : 0 < F)
    (hstart : k.heap.startAddress = A + 4 * HEAP_INDEX_SIZE)
    (hlt : k.heap.startAddress + newSize < 2 ^ 32)
    (hle : k.heap.endAddress ≤ k.heap.startAddress + newSize) (hg : GrowsNext k.heapLen newSize k)
    (hr : expandPages mallocAp newSize (2 ^ 20) k.heapLen k = some k') :
    HeapRun A F (k'.setEnd (k.heap.startAddress + newSize)) := by
  have hN : HEAP_INDEX_SIZE = 0x20000 := rfl
  have hlt' := h.lt
  have hlast : k.lastPage = (k.heap.endAddress - 1) / 0x1000 := rfl
  have hsize := hg.bitmap
  obtain ⟨hframe, -⟩ := h.run k.lastPage (by omega) (by omega)
  have hframe : k.lastFrame = F + (k.lastPage - k.heap.startAddress / 0x1000) := hframe
  obtain ⟨hf, hnew⟩ := expandPages_next hlt' hlt (by omega) hle hg h.apart (by omega) hr
  have hb := h.toHeapBacked.grow hstart hlt hle hg.toGrowsBacked hr
  have hrun := hf.heapRun hF h
  refine ⟨hb, ?_, hrun.apart, fun p h1 h2 => ?_⟩
  · show k'.heap.startAddress < k.heap.startAddress + newSize
    rw [hf.heap]
    omega
  · replace h1 : k.heap.startAddress / 0x1000 ≤ p := by
      have : k'.heap.startAddress / 0x1000 ≤ p := h1
      rwa [hf.heap] at this
    replace h2 : p * 0x1000 < k.heap.startAddress + newSize := h2
    show k'.pageFrame k'.vmPageDir p = F + (p - k'.heap.startAddress / 0x1000) ∧
      F + (p - k'.heap.startAddress / 0x1000) < 2 ^ 20
    by_cases hold : p ≤ k.lastPage
    · exact hrun.run p (by rw [hf.heap]; exact h1) (by rw [hf.heap]; omega)
    · obtain ⟨-, -, hbound, -⟩ := hg.next p (by omega) h2
      rw [hf.vm, hf.heap, hnew p (by omega) h2]
      omega

end Run

theorem stable_heapRun (A : ℕ) {F : ℕ} (hF : 0 < F) :
    Stable A PhysOk (fun _ => True) (HeapRun A F) where
  sound h := h.1
  alloc := by
    intro fuel size pageAlign k holes blocks p k' h hok hr hj
    exact alloc_inv A (fun m a h => h.retag m a)
      (fun hstart hlt hle hj hg hr => hj.grow hF hstart hlt hle hg hr) fuel size pageAlign k holes
      blocks p k' h (hok.1 fuel) (hok.2 fuel) hr hj
  congr hs hj := hj.congr hs
  map _ _ hj := (onlyFrames_allocFrame _ _ _ _).heapRun hF hj

lemma alloc_aligned (A : ℕ) : ∀ (fuel size : ℕ) (k : Kernel) (holes blocks : List (ℕ × ℕ)) (p : ℕ)
    (k' : Kernel), HeapInv A holes blocks k → OkAt fuel size true k →
    alloc fuel size true k = some (p, k') → p % 0x1000 = 0 := by
  intro fuel
  induction fuel with
  | zero => exact fun _ _ _ _ _ _ _ _ hr => by simp [alloc] at hr
  | succ fuel ih =>
    intro size k holes blocks p k' h hok hr
    rcases alloc_cases (alloc_sound A fuel) h hok hr with
      ⟨q, holes', m, a, rfl, -, -⟩ | ⟨k₀, k₂, extra, hg, hr⟩
    · unfold alignOffset
      split_ifs with hq
      · omega
      · simpa using hq
    · obtain ⟨holes₂, h₂⟩ := hg.grown
      exact ih _ _ _ _ _ _ h₂ hg.again hr

end Kernel

open Kernel

variable {A F fuel src newdir : ℕ} {holes blocks : List (ℕ × ℕ)} {k k' : Kernel} {ds : List ℕ}

theorem System.physicalDir (hF : 0 < F) (h : System A holes blocks ⟨k, ds⟩) (hj : HeapRun A F k)
    (hs : src = k.vmPageDir ∨ src ∈ ds) (hok : k.CloneOk (Kernel.alloc fuel) PhysOk src)
    (hr : k.cloneDir (Kernel.mallocAp (Kernel.alloc fuel)) src = some (newdir, k')) :
    (Machine.mk k' (newdir :: ds)).PhysicalDir newdir := by
  obtain ⟨phy, k₁, holes₁, extra₁, holes', extra', hm, h₁, hj₁, h', hj', -, -, hphy⟩ :=
    h.cloneDir (stable_heapRun A hF) hj hs hok hr
  obtain ⟨hal, hphy₁⟩ := mallocAp_cases h.kheap hm
  have halign := alloc_aligned A fuel _ _ _ _ _ _ h.heap (hok.1.1 fuel) hal
  obtain ⟨hlo, hhi⟩ := h₁.heap.block (newdir, newdir + 8196) (by simp)
  obtain ⟨hlo', hhi'⟩ := h'.heap.block (newdir, newdir + 8196) (by simp)
  have hend := h₁.heap.endLt
  have hstart₁ : k₁.heap.startAddress = A + 4 * HEAP_INDEX_SIZE := h₁.heap.start
  have hstart' : k'.heap.startAddress = A + 4 * HEAP_INDEX_SIZE := h'.heap.start
  simp only at hlo hhi hlo' hhi' hend
  -- the first page, as `_malloc` sees it
  have hin₁ : k₁.heap.startAddress ≤ newdir ∧ newdir < k₁.heap.endAddress := by omega
  have hslot := h₁.heapSlot hj₁.toHeapBacked h₁.cur hin₁.1 hin₁.2
  simp only at hslot
  obtain ⟨ht₁, -⟩ := translate_ne_none.mp (hj₁.backed newdir hin₁.1 hin₁.2)
  obtain ⟨f, hf⟩ : ∃ f, f = F + (newdir / 0x1000 - k₁.heap.startAddress / 0x1000) := ⟨_, rfl⟩
  have hpage : (k₁.page (k₁.lookupPage newdir k₁.curVmPageDir)).frame = f := by
    rw [hf, ← (hj₁.run (newdir / 0x1000) (by omega) (by omega)).1, pageFrame, if_neg ht₁,
      lookupPage, if_pos (by rw [hslot]; exact ht₁), hslot]
    rfl
  -- the second page, when the clone is complete
  obtain ⟨hframe, hsmall⟩ := hj'.run (newdir / 0x1000 + 1) (by omega) (by omega)
  rw [show F + (newdir / 0x1000 + 1 - k'.heap.startAddress / 0x1000) = f + 1 by omega]
    at hframe hsmall
  have hmask : newdir &&& 0xFFF = 0 := by rw [and_4095, halign]
  intro x hx
  have hx1 : (newdir + 0x1000 + x) / 0x1000 = newdir / 0x1000 + 1 := by omega
  have hx2 : (newdir + 0x1000 + x) % 0x1000 = x := by omega
  have hin' : k'.heap.startAddress ≤ newdir + 0x1000 + x ∧
      newdir + 0x1000 + x < k'.heap.endAddress := by omega
  have hslot' := h'.heapSlot hj'.toHeapBacked h'.cur hin'.1 hin'.2
  have hmapped := hj'.backed (newdir + 0x1000 + x) hin'.1 hin'.2
  have hfirst : add32 (f * 0x1000) 0 = f * 0x1000 := by
    rw [add32_eq (by omega), Nat.add_zero]
  have hsecond : add32 (f * 0x1000) 0x1000 = (f + 1) * 0x1000 := by
    rw [add32_eq (by omega)]
    omega
  show k'.translate k'.curVmPageDir (newdir + 0x1000 + x) = some ((k'.dirs newdir).pageDirPhy + x)
  rw [translate_congr hslot', translate_frame hmapped, hx1, hx2, hframe, hphy, hphy₁, hpage, hmask,
    hfirst, hsecond]

/-- The first pages of the heap have consecutive frames. -/
lemma Started.heapRun {k k₀ : Kernel} {b : Boot} {K : ℕ} (hlow : b.Low k K) (hfit : b.Fits)
    (h : Started b.kernel k₀) : HeapRun KHEAP_START (K + 128) k₀ := by
  have hN : HEAP_INDEX_SIZE = 0x20000 := rfl
  have hA : KHEAP_START = 0xC0000000 := rfl
  have hstart := h.system.heap.start
  have hend := h.endAddress
  have hbound := hlow.bound
  have hloop := hlow.frames hfit
  simp only at hstart
  refine ⟨h.heapBacked hlow hfit, by omega, fun i j hij hne => ?_, fun p h1 h2 => ?_⟩
  · rw [h.tableOf, h.tableOf] at hij
    rw [h.tableOf] at hne
    refine hlow.tables.inj i ((hlow.tables.present i).mp hne) j ((hlow.tables.present j).mp ?_) hij
    rwa [← hij]
  · obtain ⟨m, hm, rfl⟩ : ∃ m < 256, p = heapPage m := ⟨p - 768 * 1024, by unfold heapPage; omega⟩
    have htab : k₀.tableOf k₀.vmPageDir (heapPage m / 1024) ≠ 0 := by
      rw [h.tableOf, hlow.present (by unfold heapPage; omega)]
      unfold heapPage
      omega
    have hframe : k₀.pageFrame k₀.vmPageDir (heapPage m) = K + m := by
      rw [pageFrame, if_neg htab, h.entryOf, (hloop.mapped m hm).2]
    rw [hframe]
    unfold heapPage at h1 ⊢
    omega

/-- **The physical address of a directory** is that of its second page, in every run of allocations,
clones and other calls whose calls of `alloc` are sound and let the frames of the heap go on. -/
theorem clone_physical {k₀ : Kernel} {ops : List PageOp} {s s' : Machine} {src newdir : ℕ}
    (h : Booted k₀)
    (hr : Run (fun s op s' => PageStep s op s' ∧ s.CallsOk PhysOk (fun _ => True) op)
      ⟨k₀, [k₀.curVmPageDir]⟩ ops s)
    (hstep : PageStep s (.clone src newdir) s')
    (hok : s.CallsOk PhysOk (fun _ => True) (.clone src newdir)) : s'.PhysicalDir newdir := by
  obtain ⟨k, b, K, hlow, hfit, hs⟩ := h.started
  have hF : 0 < K + 128 := by omega
  rw [hs.cur] at hr
  obtain ⟨⟨holes, blocks, hsys⟩, hj⟩ := Machine.run_system (stable_heapRun KHEAP_START hF)
    ⟨_, _, hs.system⟩ (hs.heapRun hlow hfit) hr
  cases hstep with
  | clone hsrc hc => exact hsys.physicalDir hF hj hsrc (hok _) hc

theorem clone_physical_one : ∃ k₀ s, Booted k₀ ∧
    PageStep ⟨k₀, [k₀.curVmPageDir]⟩ (.clone k₀.vmPageDir 0xC0084000) s ∧
      s.PhysicalDir 0xC0084000 := by
  obtain ⟨k₀, hbooted, -⟩ := exists_booted
  obtain ⟨k, b, K, hlow, hfit, hs⟩ := hbooted.started
  have hfits := hs.fits true (show 8196 + 20 ≤ 0x7D000 by decide)
  have hok := hs.placeOk (show PlaceOk _ _ _ _ (8196 + 20) true from
    ⟨by decide, by decide, by decide, by decide, by decide, Or.inr ⟨by decide, by decide⟩⟩)
  obtain ⟨m, a, hal, -⟩ := @alloc_first _ _ _ _ 0xFE8 _ _ _ 0 _ _ _ _ hs.system.heap (by decide)
    rfl rfl rfl rfl hfits hok
  obtain ⟨phy, hm⟩ := mallocAp_some hs.system.kheap hal
  have hvm : k₀.vmPageDir < KHEAP_START := hs.system.vm
  obtain ⟨D, hclone, -⟩ := cloneDir_vm hm (show 0xC008300C + 0xFE8 + 12 ≠ k₀.vmPageDir by
    have hA : KHEAP_START = 0xC0000000 := rfl
    omega)
  have hstep : PageStep ⟨k₀, [k₀.curVmPageDir]⟩ (.clone k₀.vmPageDir 0xC0084000)
      ⟨(k₀.retag m a).setDir 0xC0084000 D, [0xC0084000, k₀.curVmPageDir]⟩ :=
    .clone (.inl rfl) hclone
  have halloc := allocOk_first hs.system.heap (by decide) hfits hok
  refine ⟨k₀, _, hbooted, hstep, clone_physical hbooted .nil hstep fun fuel => ?_⟩
  exact hs.system.cloneOk_vm ⟨halloc, grows_first hs.system.heap hfits⟩ halloc

/-! ### A frame that goes elsewhere -/

/-- After the start, once the first page of a stack is mapped: its table lies behind the first
clone, and its frame is the one behind those of the heap. -/
structure StackMapped (K : ℕ) (blocks : List (ℕ × ℕ)) (k : Kernel) : Prop where
  heap : HeapInv KHEAP_START [(0xC0085008, TOP), (0xC008300C, 0xC0083FF4), (0xC0080000, 0xC0080FF4)]
    blocks k
  endAddress : k.heap.endAddress = 0xC0100000
  used : k.heap.index.cur ≤ 3
  size : headerSize k.mem 0xC0085008 = 0x7B010
  front : headerSize k.mem 0xC008300C = 0xFDC
  first : headerSize k.mem 0xC0080000 = 0xFE8
  null : read32 k.mem 8 = 0
  kheap : k.kheap ≠ 0
  vm : k.vmPageDir < KHEAP_START
  cur : k.curVmPageDir = 0xC0081000
  table : k.tableOf k.vmPageDir 768 ≠ 0
  shared : k.tableOf 0xC0081000 768 = k.tableOf k.vmPageDir 768
  apart : k.TablesApart k.vmPageDir
  marks : FramePrefix (K + 257) k
  bitmap : k.map.framesBitmapSize = FRAME_COUNT / 8
  last : k.pageFrame k.vmPageDir (heapPage 255) = K + 255
  next : k.pageFrame k.vmPageDir (heapPage 256) = 0

lemma Started.map_stack {k k₀ : Kernel} {b : Boot} {K : ℕ} (hlow : b.Low k K) (hfit : b.Fits)
    (hK : K < 32) (hnull : read32 k₀.mem 8 = 0) (h : Started b.kernel k₀) : ∃ k₁ blocks,
      PageStep ⟨k₀, [0xC0081000]⟩ (.map 0xE0000000 false true) ⟨k₁, [0xC0081000]⟩ ∧
        k₁.vmPageDir = k₀.vmPageDir ∧ StackMapped K blocks k₁ := by
  have hN : HEAP_INDEX_SIZE = 0x20000 := rfl
  have hA : KHEAP_START = 0xC0000000 := rfl
  have hcount : FRAME_COUNT = 4096 := rfl
  have hused := h.used
  have hloop := hlow.frames hfit
  have hrun := h.heapRun hlow hfit
  have hstart : k₀.heap.startAddress = 0xC0080000 := h.system.heap.start
  have hvm : k₀.vmPageDir < KHEAP_START := h.system.vm
  have hend := h.endAddress
  have hfits := h.fits true (show 4096 + 20 ≤ 0x7D000 by decide)
  have hok := h.placeOk (show PlaceOk _ _ _ _ (4096 + 20) true from
    ⟨by decide, by decide, by decide, by decide, by decide, Or.inr ⟨by decide, by decide⟩⟩)
  rw [h.big] at hok
  obtain ⟨m, a, hal, h₁, hrest, hfront, hother, hw, hcur⟩ := @alloc_first _ _ _ _ 0xFE8 0x1014
    0x7B010 _ 0 _ _ _ _ h.system.heap (by decide) h.big.symm rfl rfl rfl hfits hok
  obtain ⟨phy, hm⟩ := mallocAp_some h.system.kheap hal
  have h896 : k₀.tableOf k₀.curVmPageDir 896 = 0 := by
    rw [h.cur, h.clone 896 (by decide), h.tableOf]
    by_contra hne
    exact absurd ((hlow.present (by decide)).mp hne) (by decide)
  set k₁ := ((k₀.retag m a).setSlot k₀.curVmPageDir 896 0xC0084000 (phy ||| 7)).setTable 0xC0084000
    fun _ => .zero with hk₁
  have hget : k₀.getPage (Kernel.mallocAp (Kernel.alloc 1)) 0xE0000000 true k₀.curVmPageDir =
      some (some ⟨0xC0084000, 0⟩, k₁) := by
    unfold getPage
    rw [lookupPage_none h896]
    simp only [if_true, hm, Option.bind_eq_bind, Option.bind_some]
    rfl
  set k₂ := k₁.allocFrame (some ⟨0xC0084000, 0⟩) false true with hk₂
  obtain ⟨hfirst, hfree⟩ := firstFrame_prefix hloop.tables.size (by omega) hloop.marks
  have hmap₁ : k₁.map = b.kernel.map := h.map
  have hzero : (k₁.tables 0xC0084000 0).frame = 0 := by
    rw [hk₁, tables_setTable, if_pos rfl]
    rfl
  have hmap₂ : k₂.map = setFrame (firstFrame k₁.map * 0x1000) k₁.map := by
    refine (allocFrame_free ?_ hzero ?_).1
    · rw [hmap₁, hloop.tables.size]
      decide
    · rw [hmap₁]
      exact hfree
  -- the pages of `vm_page_dir` are as they were
  have hsame : SameKernel KHEAP_START (k₀.retag m a) k₂ := by
    refine ⟨rfl, rfl, rfl, rfl, Function.update_of_ne ?_ _ _, fun t ht => ?_⟩
    · show k₀.vmPageDir ≠ k₀.curVmPageDir
      rw [h.cur]
      omega
    · have hne : t ≠ 0xC0084000 := by omega
      rw [hk₂, tables_allocFrame_of_ne hne, hk₁, tables_setTable, if_neg hne, tables_setSlot]
  have hrun₂ := (hrun.retag m a).congr hsame
  have hpage (p : ℕ) : k₂.pageFrame k₂.vmPageDir p = b.kernel.pageFrame b.kernel.vmPageDir p := by
    rw [pageFrame_same hsame hrun.low]
    show k₀.pageFrame k₀.vmPageDir p = _
    unfold Kernel.pageFrame
    rw [h.tableOf, h.entryOf]
  have htable (i : ℕ) : k₂.tableOf k₂.vmPageDir i = b.kernel.tableOf b.kernel.vmPageDir i := by
    rw [← h.tableOf, Kernel.tableOf, hsame.vm, hsame.dir]
    rfl
  have h768 : b.kernel.tableOf b.kernel.vmPageDir 768 ≠ 0 := (hlow.present (by decide)).mpr rfl
  refine ⟨k₂, _, .map (by decide) hget, rfl, ⟨hsame.heapInv h₁, h.endAddress, ?_, hrest (by decide),
    hfront (by decide), ?_, ?_, h.system.kheap, hvm, h.cur, ?_, ?_, hrun₂.apart, fun f hf => ?_, ?_,
    ?_, ?_⟩⟩
  · exact hcur.trans (Nat.add_le_add_right hused 1)
  · exact (hother (0xC0080000, 0xC0080FF4) (by simp) (by decide)).trans h.small
  · refine (hw.read32 (by decide) fun x h1 h2 hx => ?_).trans hnull
    have : KHEAP_START ≤ x := hx
    omega
  · rw [htable]
    exact h768
  · rw [htable, ← h.tableOf, ← h.clone 768 (by decide)]
    show (k₁.tableOf 0xC0081000 768) = _
    rw [hk₁, Kernel.tableOf, dirs_setTable, ← Kernel.tableOf, tableOf_setSlot,
      if_neg fun hc => by cases hc.2]
    rfl
  · rw [hmap₂, used_setFrame, hmap₁, hfirst, hloop.marks f hf]
    omega
  · rw [hmap₂, size_setFrame, hmap₁, hloop.tables.size]
  · rw [hpage, Kernel.pageFrame, if_neg (by exact h768), (hloop.mapped 255 (by decide)).2]
  · rw [hpage, Kernel.pageFrame, if_neg (by exact h768), hloop.empty 256 (by decide) (by decide)]

/-- The heap is filled up to the page of a new directory, which then lies half in the old pages and
half in the new ones. -/
lemma StackMapped.clone_apart {K : ℕ} (h : StackMapped K blocks k) (hK : K < 32) : ∃ k₂ k',
    Kernel.alloc 1 0x79FD8 false k = some (0xC0085014, k₂) ∧ k₂.vmPageDir = k.vmPageDir ∧
      k₂.cloneDir (Kernel.mallocAp (Kernel.alloc 2)) k.vmPageDir = some (0xC00FF000, k') ∧
      (k'.dirs 0xC00FF000).pageDirPhy = (K + 256) * 0x1000 ∧
      k'.translate k'.curVmPageDir 0xC0100000 ≠ some ((K + 256) * 0x1000) := by
  have hN : HEAP_INDEX_SIZE = 0x20000 := rfl
  have hA : KHEAP_START = 0xC0000000 := rfl
  have hcount : FRAME_COUNT = 4096 := rfl
  have hused := h.used
  have hvm := h.vm
  have hfits : holeFits (0x79FD8 + 20) false k.mem 0xC0085008 = true := by
    rw [holeFits_even (by decide), h.size]
    decide
  have hok :
      PlaceOk 0xC0085008 0x7B010 k.heap.endAddress k.heap.index.cur (0x79FD8 + 20) false := by
    rw [h.endAddress]
    exact ⟨by decide, by decide, by decide, by decide, by decide, Or.inr ⟨by omega, by decide⟩⟩
  obtain ⟨m, a, hal, h₂, hrest, -, hother, hw, hcur⟩ := @alloc_first _ _ _ _ 0 0x79FEC 0x1024 _ 0
    _ _ _ _ h.heap (by decide) h.size.symm rfl rfl rfl hfits hok
  have hcur₂ : a.cur ≤ 4 := hcur.trans (Nat.add_le_add_right hused 1)
  set k₂ := k.retag m a with hk₂
  replace h₂ : HeapInv KHEAP_START
      [(0xC00FEFF4, TOP), (0xC008300C, 0xC0083FF4), (0xC0080000, 0xC0080FF4)] _ k₂ := h₂
  have hsize₂ : headerSize k₂.mem 0xC00FEFF4 = 0x1024 := hrest (by decide)
  have hfront₂ : headerSize k₂.mem 0xC008300C = 0xFDC :=
    (hother (0xC008300C, 0xC0083FF4) (by simp) (by decide)).trans h.front
  have hfirst₂ : headerSize k₂.mem 0xC0080000 = 0xFE8 :=
    (hother (0xC0080000, 0xC0080FF4) (by simp) (by decide)).trans h.first
  have hnull₂ : headerSize k₂.mem 0 = 0 := by
    refine (hw.read32 (by decide) fun x h1 h2 hx => ?_).trans h.null
    have : KHEAP_START ≤ x := hx
    have : x < add32 0 8 + 4 := h2
    unfold add32 at this
    omega
  have hstart₂ : k₂.heap.startAddress = 0xC0080000 := h₂.start
  have hlen₂ : k₂.heapLen = 0x80000 := by
    unfold heapLen
    rw [hstart₂, show k₂.heap.endAddress = 0xC0100000 from h.endAddress]
    decide
  -- no hole is left for a directory
  have hmiss : findHoleFitFirst (8196 + 20) true k₂.heap k₂.mem = some none := by
    refine findHole_none h₂ ?_ fun x hx => ?_
    · rw [holeFits_even (by decide), hnull₂]
      decide
    · simp only [List.mem_cons, List.not_mem_nil, or_false] at hx
      rcases hx with rfl | rfl | rfl
      · rw [holeFits_even (by decide), hsize₂]
        decide
      · rw [holeFits_even (by decide), hfront₂]
        decide
      · rw [holeFits_even (by decide), hfirst₂]
        decide
  have hcovered : Covered k₂.heapLen 0x82018 k₂ := by
    intro x h1 h2
    rw [hlen₂] at h1
    rw [hstart₂, add32_eq (by omega), show (0xC0080000 + x) / 0x1000 / 1024 = 768 by omega]
    exact h.table
  obtain ⟨k₃, hexp, hf⟩ := @expandPages_covered (Kernel.mallocAp (Kernel.alloc 1)) _ _ _
    (by decide) hcovered
  obtain ⟨m₄, hagain, h₄, hsize₄, -⟩ := alloc_extend (g := 0x2018)
    (show 8196 + 20 < 2 ^ 32 by decide) hmiss h₂.start (by rw [hlen₂]; decide) (by rw [hlen₂]) hexp
    (h₂.congr hf.mem hf.heap) (by decide)
    (by rw [hf.heap, hstart₂, show k₂.heap.endAddress = 0xC0100000 from h.endAddress]; decide)
    (by rw [hstart₂]; decide) (List.mem_cons_self ..) (by simp)
    (show 0x1024 = headerSize k₃.mem 0xC00FEFF4 by rw [hf.mem, hsize₂]) (by decide)
  set k₄ := (k₃.setEnd (k₂.heap.startAddress + 0x82018)).retag m₄ k₃.heap.index with hk₄
  have hend₄ : k₄.heap.endAddress = 0xC0102018 := by
    show k₂.heap.startAddress + 0x82018 = _
    rw [hstart₂]
  have hcur₄ : k₄.heap.index.cur ≤ 4 := by
    show k₃.heap.index.cur ≤ 4
    rw [hf.heap]
    exact hcur₂
  have hfits₄ : holeFits (8196 + 20) true k₄.mem 0xC00FEFF4 = true := by
    rw [holeFits_even (by decide)]
    exact (show 8196 + 20 ≤ 0x1024 + 0x2018 by decide).trans_eq hsize₄.symm
  have hok₄ : PlaceOk 0xC00FEFF4 0x303C k₄.heap.endAddress k₄.heap.index.cur (8196 + 20) true := by
    rw [hend₄]
    exact ⟨by decide, by decide, by decide, by decide, by decide, Or.inr ⟨by omega, by decide⟩⟩
  obtain ⟨m₅, a₅, hal₅, -⟩ := @alloc_first _ _ _ _ 0 0x2018 0x1024 _ 0 _ _ _ _ h₄ (by decide)
    hsize₄.symm rfl rfl rfl hfits₄ hok₄
  set k₅ := k₄.retag m₅ a₅ with hk₅
  obtain ⟨phy, hm⟩ := mallocAp_some (show k₂.kheap ≠ 0 from h.kheap) (hagain.trans hal₅)
  obtain ⟨-, hphy⟩ := mallocAp_cases (show k₂.kheap ≠ 0 from h.kheap) hm
  have hvm₅ : k₅.vmPageDir = k.vmPageDir := hf.vm
  have hcur₅ : k₅.curVmPageDir = 0xC0081000 := hf.cur.trans h.cur
  have htab₅ (d i : ℕ) : k₅.tableOf d i = k.tableOf d i := hf.tableOf d i
  obtain ⟨hfirst, hfree⟩ := firstFrame_prefix h.bitmap (by omega) h.marks
  have hframe₁ : k₅.pageFrame k.vmPageDir (heapPage 255) = K + 255 := by
    have hlast : k₂.pageFrame k.vmPageDir (heapPage 255) = K + 255 := h.last
    exact (hf.pageFrame (by omega)).trans hlast
  have hframe₂ : k₅.pageFrame k.vmPageDir (heapPage 256) = K + 257 := by
    have hnew := expandPages_first (q := heapPage 256) (by decide) (by rw [hstart₂]; decide)
      hcovered (by rw [hlen₂]; decide) (by rw [hstart₂, hlen₂]; decide) h.apart h.next
      (by rw [show k₂.map = k.map from rfl, h.bitmap]; decide) hfree (by
        rw [show k₂.map = k.map from rfl]
        omega) hexp
    exact hnew.trans hfirst
  obtain ⟨D, hclone, hD⟩ := cloneDir_vm hm (show (0xC00FF000 : ℕ) ≠ k₅.vmPageDir by
    rw [hvm₅]
    omega)
  rw [hvm₅] at hclone
  set k' := k₅.setDir 0xC00FF000 D with hk'
  have hdir : k'.dirs 0xC00FF000 = D := dirs_setDir_self
  have hcurDir : k'.dirs 0xC0081000 = k₅.dirs 0xC0081000 := dirs_setDir_of_ne (by decide)
  have hslot : k'.tableOf k'.curVmPageDir 768 = k₅.tableOf k.vmPageDir 768 := by
    rw [show k'.curVmPageDir = 0xC0081000 from hcur₅, Kernel.tableOf, hcurDir, ← Kernel.tableOf,
      htab₅, htab₅]
    exact h.shared
  refine ⟨k₂, k', hal, rfl, hclone, ?_, fun htr => ?_⟩
  · have hpage : (k₅.page (k₅.lookupPage 0xC00FF000 k₅.curVmPageDir)).frame = K + 255 := by
      have ht : k₅.tableOf k.vmPageDir (heapPage 255 / 1024) ≠ 0 := by
        rw [htab₅]
        exact h.table
      have ht' : k₅.tableOf 0xC0081000 (heapPage 255 / 1024) = k₅.tableOf k.vmPageDir
          (heapPage 255 / 1024) := by
        rw [htab₅, htab₅]
        exact h.shared
      rw [← hframe₁, Kernel.pageFrame, if_neg ht, hcur₅, lookupPage_of_table (ht'.trans_ne ht)]
      show (k₅.tables (k₅.tableOf 0xC0081000 (heapPage 255 / 1024)) 255).frame = _
      rw [ht']
      rfl
    have hmask : (0xC00FEFF4 + 0 + 12) &&& 0xFFF = 0 := by decide
    have hfirstPage : add32 ((K + 255) * 0x1000) 0 = (K + 255) * 0x1000 := by
      rw [add32_eq (by omega), Nat.add_zero]
    rw [hdir, hD.dirPhy, hphy, hmask, hpage, hfirstPage, add32_eq (by omega)]
    omega
  · have hframe := translate_frame (show k'.translate k'.curVmPageDir 0xC0100000 ≠ none by
      rw [htr]
      exact Option.some_ne_none _)
    have htables : k'.tables = k₅.tables := rfl
    have hsecond : k'.pageFrame k'.curVmPageDir (heapPage 256) = K + 257 :=
      (pageFrame_congr hslot htables).trans hframe₂
    rw [htr, show 0xC0100000 / 0x1000 = heapPage 256 by decide, hsecond] at hframe
    have hinj := Option.some.inj hframe
    omega

/-- **The second page of a directory lies elsewhere**: the heap ends where the first page does, and
the frame behind it has gone to a stack. -/
theorem clone_physical_fails : ∃ k₀ s, Booted k₀ ∧
    Run PageStep ⟨k₀, [k₀.curVmPageDir]⟩ [.map 0xE0000000 false true,
      .alloc 0x79FD8 false 0xC0085014, .clone k₀.vmPageDir 0xC00FF000] s ∧
      ¬ s.PhysicalDir 0xC00FF000 := by
  obtain ⟨b, K, k₀, hbooted, hlow, hfit, hs, hK, hnull⟩ := exists_started
  obtain ⟨k₁, blocks, hmap, hvm, hstack⟩ := hs.map_stack hlow hfit hK hnull
  obtain ⟨k₂, k', hal, hvm₂, hclone, hphy, hne⟩ := hstack.clone_apart hK
  refine ⟨k₀, ⟨k', [0xC00FF000, k₀.curVmPageDir]⟩, hbooted, ?_, fun h => hne ?_⟩
  · rw [hs.cur]
    have hfill : PageStep ⟨k₁, [0xC0081000]⟩ (.alloc 0x79FD8 false 0xC0085014)
        ⟨k₂, [0xC0081000]⟩ := .alloc hal
    have h₂ := (Run.single hmap).snoc hfill
    rw [hvm] at hclone hvm₂
    exact h₂.snoc (.clone (.inl hvm₂.symm) hclone)
  · have h0 := h 0 (by decide)
    simp only [Nat.add_zero, hphy] at h0
    exact h0

end OsImplement.Memory
