import OsImplement.Memory.Started

/-!
The heap is the same in every directory.

Growth edits `vm_page_dir` alone, and the clones share its tables by pointer. So the clones see the
heap as `vm_page_dir` does for as long as the tables that they share are all that the heap needs.
-/

namespace OsImplement.Memory

open Lib.Word Lib.Bytes Lib.Interval Lib.Step

/-- Every address of the heap has a page, in every clone of a directory the one that it has in
`vm_page_dir`; and one of the clones is running. -/
def Machine.HeapShared (s : Machine) : Prop :=
  s.kernel.curVmPageDir ∈ s.clones ∧ ∀ d ∈ s.clones, ∀ a, s.kernel.heap.startAddress ≤ a →
    a < s.kernel.heap.endAddress → s.kernel.lookupPage a d ≠ none ∧
      ∃ x, s.kernel.translate s.kernel.vmPageDir a = some x ∧ s.kernel.translate d a = some x

namespace Kernel

/-- The heap grows from the distance `lo` to `hi` within the tables there are, and the rounds of
`expand`, which go by pages from `lo` on, reach every page that has no frame. -/
structure GrowsBacked (lo hi : ℕ) (k : Kernel) : Prop where
  covered : Covered lo hi k
  reached : ∀ x, lo ≤ x → x < hi → k.translate k.vmPageDir (k.heap.startAddress + x) ≠ none ∨
    ∃ j, lo + 0x1000 * j < hi ∧ (k.heap.startAddress + (lo + 0x1000 * j)) / 0x1000 =
      (k.heap.startAddress + x) / 0x1000

/-- A call of `alloc` is sound, and grows the heap as `GrowsBacked` says. -/
def SharedOk (size : ℕ) (pageAlign : Bool) (k : Kernel) : Prop :=
  k.AllocOk size pageAlign ∧ k.Grows GrowsBacked size pageAlign

/-- Every page of the heap has a frame, in a table of the boot. -/
structure HeapBacked (A : ℕ) (k : Kernel) : Prop where
  le : k.heap.startAddress ≤ k.heap.endAddress
  low : ∀ i, k.tableOf k.vmPageDir i < A
  framed : ∀ p, A / 0x1000 ≤ p → k.tableOf k.vmPageDir (p / 1024) ≠ 0 →
    (k.entryOf k.vmPageDir p).frame ≠ 0 → (k.entryOf k.vmPageDir p).valid = true
  backed : ∀ a, k.heap.startAddress ≤ a → a < k.heap.endAddress →
    k.translate k.vmPageDir a ≠ none

section Backed

variable {A : ℕ} {k k' : Kernel} {d a : ℕ}

lemma translate_ne_none : k.translate d a ≠ none ↔
    k.tableOf d (a / 0x1000 / 1024) ≠ 0 ∧ (k.entryOf d (a / 0x1000)).valid = true := by
  unfold translate lookupPage
  by_cases h0 : k.tableOf d (a / 0x1000 / 1024) = 0
  · simp [h0]
  · simp only [ne_eq, h0, not_false_eq_true, if_true, true_and, page, entryOf]
    split_ifs with hv <;> simp [hv]

lemma translate_congr {d' : ℕ}
    (h : k.tableOf d (a / 0x1000 / 1024) = k.tableOf d' (a / 0x1000 / 1024)) :
    k.translate d a = k.translate d' a := by
  unfold translate lookupPage
  simp only [h]

lemma entryOf_same (h : SameKernel A k k') (hlow : ∀ i, k.tableOf k.vmPageDir i < A) (p : ℕ) :
    k'.tableOf k'.vmPageDir (p / 1024) = k.tableOf k.vmPageDir (p / 1024) ∧
      k'.entryOf k'.vmPageDir p = k.entryOf k.vmPageDir p := by
  have hslot : k'.tableOf k'.vmPageDir (p / 1024) = k.tableOf k.vmPageDir (p / 1024) := by
    rw [h.vm, tableOf, h.dir, tableOf]
  refine ⟨hslot, ?_⟩
  rw [Kernel.entryOf, hslot, h.tables _ (hlow _), Kernel.entryOf]

lemma HeapBacked.congr (h : HeapBacked A k) (hs : SameKernel A k k') : HeapBacked A k' := by
  have hpage := entryOf_same hs h.low
  refine ⟨by rw [hs.heap]; exact h.le, fun i => ?_, fun p hp ht hf => ?_, fun a h1 h2 => ?_⟩
  · have := (hpage (i * 1024)).1
    rw [Nat.mul_div_cancel _ (by decide)] at this
    rw [this]
    exact h.low i
  · obtain ⟨h1, h2⟩ := hpage p
    rw [h1] at ht
    rw [h2] at hf ⊢
    exact h.framed p hp ht hf
  · rw [hs.heap] at h1 h2
    obtain ⟨h3, h4⟩ := hpage (a / 0x1000)
    rw [translate_ne_none, h3, h4, ← translate_ne_none]
    exact h.backed a h1 h2

lemma OnlyFrames.heapBacked (hf : OnlyFrames k k') (h : HeapBacked A k) : HeapBacked A k' := by
  refine ⟨by rw [hf.heap]; exact h.le, fun i => ?_, fun p hp ht => ?_, fun a h1 h2 => ?_⟩
  · rw [hf.vm, hf.tableOf]
    exact h.low i
  · rw [hf.vm, hf.tableOf] at ht
    rw [hf.vm, entryOf, hf.tableOf]
    exact hf.framed (h.framed p hp ht)
  · rw [hf.heap] at h1 h2
    obtain ⟨h3, h4⟩ := translate_ne_none.mp (h.backed a h1 h2)
    rw [translate_ne_none, hf.vm, entryOf, hf.tableOf]
    exact ⟨h3, hf.valid h4⟩

/-- **Growth backs the new room.** -/
lemma HeapBacked.grow {mallocAp : MallocAp} {newSize : ℕ} (h : HeapBacked A k)
    (hstart : k.heap.startAddress = A + 4 * HEAP_INDEX_SIZE)
    (hlt : k.heap.startAddress + newSize < 2 ^ 32)
    (hle : k.heap.endAddress ≤ k.heap.startAddress + newSize)
    (hg : GrowsBacked k.heapLen newSize k)
    (hr : expandPages mallocAp newSize (2 ^ 20) k.heapLen k = some k') :
    HeapBacked A (k'.setEnd (k.heap.startAddress + newSize)) := by
  have hN : HEAP_INDEX_SIZE = 0x20000 := rfl
  have hlen : k.heapLen = k.heap.endAddress - k.heap.startAddress := sub32_eq h.le (by omega)
  set start := k.heap.startAddress with hs
  have hrounds := expandPages_rounds (P := fun j k₁ => ∀ j' < j,
      (k₁.entryOf k.vmPageDir ((start + (k.heapLen + 0x1000 * j')) / 0x1000)).valid = true)
    (by omega) hlt hg.covered (fun j' hj' => absurd hj' (by omega)) (fun j k₁ hj hf hp j' hj' => ?_) hr
  · obtain ⟨hf, c, hc, hvalid⟩ := hrounds
    have hb := hf.heapBacked h
    refine ⟨by show k'.heap.startAddress ≤ start + newSize; rw [hf.heap]; omega, hb.low, hb.framed,
      fun a h1 h2 => ?_⟩
    replace h1 : start ≤ a := by
      have : k'.heap.startAddress ≤ a := h1
      rwa [hf.heap] at this
    replace h2 : a < start + newSize := h2
    show k'.translate k'.vmPageDir a ≠ none
    by_cases hold : a < k.heap.endAddress
    · exact hb.backed a (by rw [hf.heap]; exact h1) (by rw [hf.heap]; exact hold)
    · obtain ⟨x, rfl⟩ : ∃ x, a = start + x := ⟨a - start, by omega⟩
      have hx : x < newSize := by omega
      have htab := hg.covered x (by omega) hx
      rw [add32_eq (show start + x < 2 ^ 32 by omega)] at htab
      rw [translate_ne_none, hf.vm, hf.tableOf]
      refine ⟨htab, ?_⟩
      rcases hg.reached x (by omega) hx with hmapped | ⟨j, hj, hpage⟩
      · rw [entryOf, hf.tableOf]
        exact hf.valid (translate_ne_none.mp hmapped).2
      · rw [← hpage]
        exact hvalid j (by omega)
  · have hframes := onlyFrames_allocFrame k₁ (k.refOf k.vmPageDir
      ((start + (k.heapLen + 0x1000 * j)) / 0x1000)) k.heap.supervisor (!k.heap.readonly)
    rcases Nat.lt_succ_iff_lt_or_eq.mp hj' with hj' | rfl
    · rw [entryOf, hframes.tableOf]
      exact hframes.valid (hp j' hj')
    · -- the page of this round
      have htab := hg.covered (k.heapLen + 0x1000 * j') (by omega) hj
      rw [add32_eq (show start + (k.heapLen + 0x1000 * j') < 2 ^ 32 by omega)] at htab
      rw [entryOf, hframes.tableOf, hf.tableOf]
      exact allocFrame_valid k₁ _ _ (hf.framed (h.framed _ (by omega) htab))

end Backed

theorem stable_heapBacked (A : ℕ) : Stable A SharedOk (fun _ => True) (HeapBacked A) where
  sound h := h.1
  alloc := by
    intro fuel size pageAlign k holes blocks p k' h hok hr hb
    exact alloc_inv A (fun m a h => ⟨h.le, h.low, h.framed, h.backed⟩)
      (fun hstart hlt hle hb hg hr => hb.grow hstart hlt hle hg hr) fuel size pageAlign k holes
      blocks p k' h (hok.1 fuel) (hok.2 fuel) hr hb
  congr hs hb := hb.congr hs
  map _ _ hb := (onlyFrames_allocFrame _ _ _ _).heapBacked hb

end Kernel

open Kernel

variable {A : ℕ} {holes blocks : List (ℕ × ℕ)} {s : Machine}

lemma System.heapSlot (h : System A holes blocks s) (hb : HeapBacked A s.kernel) {d a : ℕ}
    (hd : d ∈ s.clones) (h1 : s.kernel.heap.startAddress ≤ a) (h2 : a < s.kernel.heap.endAddress) :
    s.kernel.tableOf d (a / 0x1000 / 1024) =
      s.kernel.tableOf s.kernel.vmPageDir (a / 0x1000 / 1024) := by
  have hend := h.heap.endLt
  have hshare := h.shares d hd (a / 0x1000 / 1024) (by omega)
  have hne := (translate_ne_none.mp (hb.backed a h1 h2)).1
  unfold bootTable at hshare
  rw [if_pos (hb.low _)] at hshare
  split_ifs at hshare
  · exact hshare
  · exact absurd hshare.symm hne

lemma System.heapShared (h : System A holes blocks s) (hb : HeapBacked A s.kernel) :
    s.HeapShared := by
  refine ⟨h.cur, fun d hd a h1 h2 => ?_⟩
  have htr := translate_congr (h.heapSlot hb hd h1 h2)
  obtain ⟨x, hx⟩ := Option.ne_none_iff_exists'.mp (hb.backed a h1 h2)
  rw [htr]
  refine ⟨fun hnone => ?_, x, hx, hx⟩
  rw [← htr] at hx
  unfold Kernel.translate at hx
  rw [hnone] at hx
  cases hx

lemma Started.heapBacked {k k₀ : Kernel} {b : Boot} {K : ℕ} (hlow : b.Low k K) (hfit : b.Fits)
    (h : Started b.kernel k₀) : HeapBacked KHEAP_START k₀ := by
  have hA : KHEAP_START = 0xC0000000 := rfl
  have hN : HEAP_INDEX_SIZE = 0x20000 := rfl
  have hstart := h.system.heap.start
  have hend := h.endAddress
  have hloop := hlow.frames hfit
  simp only at hstart
  refine ⟨by omega, fun i => ?_, fun p hp ht hf => ?_, fun a h1 h2 => ?_⟩
  · rw [h.tableOf]
    exact hlow.table_lt i
  · rw [h.tableOf, hlow.present (by omega)] at ht
    obtain ⟨m, hm, rfl⟩ : ∃ m < 1024, p = heapPage m := ⟨p - 768 * 1024, by unfold heapPage; omega⟩
    rw [h.entryOf] at hf ⊢
    by_cases hm' : m < 256
    · exact (hloop.mapped m hm').1
    · exact absurd (hloop.empty m (by omega) hm) hf
  · obtain ⟨m, hm, hp⟩ : ∃ m < 256, a / 0x1000 = heapPage m :=
      ⟨a / 0x1000 - 768 * 1024, by unfold heapPage; omega⟩
    rw [translate_ne_none, hp, h.tableOf, h.entryOf, hlow.present (by unfold heapPage; omega)]
    exact ⟨by unfold heapPage; omega, (hloop.mapped m hm).1⟩

/-! ### Growth within the first page table -/

lemma pagesOk_covered {inner : HeapAlloc} {ok : ℕ → Bool → Kernel → Prop} {newSize : ℕ}
    (htop : newSize + 0x1000 ≤ 2 ^ 32) : ∀ (n i : ℕ) (k : Kernel), Covered i newSize k →
    PagesOk inner ok newSize n i k := by
  intro n
  induction n with
  | zero => exact fun _ _ _ => trivial
  | succ n ih =>
    intro i k hc hi
    refine ⟨fun hnone => ?_, fun r k' hg => ?_⟩
    · rw [lookupPage, if_pos (hc i le_rfl hi)] at hnone
      cases hnone
    · rcases getPage_cases hg with ⟨-, rfl, rfl⟩ | ⟨h0, -⟩
      · have hf := onlyFrames_allocFrame k' (k'.refOf k'.vmPageDir
          (add32 k'.heap.startAddress i / 0x1000)) k'.heap.supervisor (!k'.heap.readonly)
        rw [add32_eq (by omega)]
        exact ih _ _ (hf.covered fun x h1 h2 => hc x (by omega) h2)
      · exact absurd h0 (hc i le_rfl hi)

/-- After the start, over the frames of 126 more pages: the last hole takes them in. -/
lemma Started.extend {b k k₁ : Kernel} (h : Started b k) (hf : OnlyFrames k k₁) :
    GrowOk k.heap.endAddress (0x7DFEC + 20) 0xC017E000 k₁ ∧
    ∃ m, (k₁.setEnd 0xC017E000).growHole k.heap.endAddress k.heapLen =
        some ((k₁.setEnd 0xC017E000).retag m k₁.heap.index) ∧
      LastHole KHEAP_START 0xC008300C 0xFB000 2 0xC017E000
        ((k₁.setEnd 0xC017E000).retag m k₁.heap.index) := by
  have hstart : k.heap.startAddress = 0xC0080000 := h.system.heap.start
  have hsum : k.heap.startAddress + 0xFE000 = 0xC017E000 := by rw [hstart]
  have hend : k₁.heap.endAddress = 0xC0100000 := by rw [hf.heap, h.endAddress]
  have hs : headerSize k₁.mem 0xC008300C = 0x7D000 := by rw [hf.mem, h.big]
  have h₁ : HeapInv KHEAP_START [(0xC008300C, TOP), (0xC0080000, 0xC0080FF4)]
      [(0xC0081000, 0xC0081000 + 8196)] k₁ := h.system.heap.congr hf.mem hf.heap
  obtain ⟨m, hgrow, h₂, hs₂, -⟩ := @growHole_last KHEAP_START 0xC008300C 0x7D000 _ _ k 0xFE000
    0x7E000 k₁ hstart (by rw [h.heapLen_eq]) h₁ (by decide) (by rw [hsum, hend]; decide)
    (by rw [hsum]; decide) (List.mem_cons_self ..) (by simp) hs.symm (by decide)
  rw [hsum] at hgrow h₂
  refine ⟨⟨by rw [hend]; decide, by rw [h.endAddress]; decide, ?_⟩, m, hgrow, ⟨_, _, h₂⟩, hs₂, ?_,
    rfl⟩
  · rw [highestHole_eq h₁ (List.mem_cons_self ..) (by simp), if_neg (by decide), hs, hend,
      h.endAddress]
    decide
  · show k₁.heap.index.cur ≤ 2
    rw [hf.heap]
    exact h.used

lemma LastHole.block_ok {k : Kernel} (h : LastHole KHEAP_START 0xC008300C 0xFB000 2 0xC017E000 k) :
    ∃ m a, (∀ fuel, Kernel.alloc (fuel + 1) 0x7DFEC false k = some (0xC0083018, k.retag m a)) ∧
      LastHole KHEAP_START 0xC010100C 0x7D000 3 0xC017E000 (k.retag m a) ∧
      SharedOk 0x7DFEC false k := by
  obtain ⟨m, a, hal, h', hok⟩ := h.alloc 0x7DFEC false 0 0x7E000 0x7D000 (by decide) (by decide)
    (by decide) rfl rfl rfl (by decide)
    ⟨by decide, by decide, by decide, by decide, by decide, Or.inr ⟨by decide, by decide⟩⟩
  obtain ⟨holes, blocks, hheap⟩ := h.heap
  refine ⟨m, a, hal, h', hok, grows_first hheap ?_⟩
  rw [holeFits_even (by decide), h.size]
  decide

/-- After the start, a block of `0x7DFEC` bytes makes the heap grow, within its first page table. -/
lemma Started.grow_within {b k : Kernel} (h : Started b k) (hnull : read32 k.mem 8 = 0)
    (h768 : k.tableOf k.vmPageDir 768 ≠ 0) : ∃ k', Kernel.alloc 2 0x7DFEC false k =
        some (0xC0083018, k') ∧ SharedOk 0x7DFEC false k ∧ k'.vmPageDir = k.vmPageDir ∧
      LastHole KHEAP_START 0xC010100C 0x7D000 3 0xC017E000 k' := by
  have hstart : k.heap.startAddress = 0xC0080000 := h.system.heap.start
  have hmiss := h.miss hnull (show 0x7D000 < 0x7DFEC + 20 by decide)
  have hsize : roundSize (add32 k.heapLen (0x7DFEC + 20)) = 0xFE000 := by
    rw [h.heapLen_eq]
    decide
  have hsum : k.heap.startAddress + 0xFE000 = 0xC017E000 := by rw [hstart]
  have hcovered : Covered k.heapLen 0xFE000 k := by
    intro x h1 h2
    rw [h.heapLen_eq] at h1
    rw [hstart, add32_eq (by omega), show (0xC0080000 + x) / 0x1000 / 1024 = 768 by omega]
    exact h768
  have hrounds (fuel : ℕ) : ∃ k₁, expandPages (mallocAp (alloc fuel)) 0xFE000 (2 ^ 20) k.heapLen k =
      some k₁ ∧ OnlyFrames k k₁ := expandPages_covered (by decide) hcovered
  obtain ⟨k₁, hexp, hf⟩ := hrounds 1
  obtain ⟨-, m, hgrow, h₁⟩ := h.extend hf
  obtain ⟨m', a, hal, h₂, -⟩ := h₁.block_ok
  have hexpand : k.expand (mallocAp (alloc 1)) (add32 k.heapLen (0x7DFEC + 20)) =
      some (k₁.setEnd 0xC017E000) := by
    have hnew : add32 k₁.heap.startAddress 0xFE000 = 0xC017E000 := by
      rw [hf.heap, hstart]
      decide
    unfold Kernel.expand
    simp only [hsize, hexp, Option.bind_eq_bind, Option.bind_some, hnew]
    rfl
  refine ⟨_, ?_, ⟨fun fuel => ?_, fun fuel => ?_⟩, ?_, h₂⟩
  · rw [Kernel.alloc_grow (by decide) hmiss, hexpand, Option.bind_some, hgrow, Option.bind_some]
    exact hal 0
  · cases fuel with
    | zero => trivial
    | succ fuel =>
      refine ⟨by decide, fun iter hfound => ?_, fun _ => ?_⟩
      · rw [hmiss] at hfound
        cases hfound
      · simp only [hsize, hsum]
        refine ⟨pagesOk_covered (by decide) _ _ _ hcovered, fun k₂ hexp₂ => ?_⟩
        obtain ⟨_, hexp', hf₂⟩ := hrounds fuel
        obtain rfl := Option.some.inj (hexp'.symm.trans hexp₂)
        obtain ⟨hok₂, m₂, hgrow₂, h₃⟩ := h.extend hf₂
        refine ⟨hok₂, fun k₃ hk₃ => ?_⟩
        obtain ⟨-, -, -, -, hok₃⟩ := h₃.block_ok
        rw [← Option.some.inj (hgrow₂.symm.trans hk₃)]
        exact hok₃.1 fuel
  · cases fuel with
    | zero => trivial
    | succ fuel =>
      intro _
      simp only [hsize, hsum]
      refine ⟨⟨hcovered, fun x h1 h2 => Or.inr ?_⟩, fun k₂ hexp₂ k₃ hk₃ => ?_⟩
      · rw [h.heapLen_eq] at h1 ⊢
        exact ⟨(x - 0x80000) / 0x1000, by omega, by omega⟩
      · obtain ⟨_, hexp', hf₂⟩ := hrounds fuel
        obtain rfl := Option.some.inj (hexp'.symm.trans hexp₂)
        obtain ⟨-, m₂, hgrow₂, h₃⟩ := h.extend hf₂
        obtain ⟨-, -, -, -, hok₃⟩ := h₃.block_ok
        rw [← Option.some.inj (hgrow₂.symm.trans hk₃)]
        exact hok₃.2 fuel
  · exact hf.vm

lemma LastHole.clone_ok {k : Kernel} (h : LastHole KHEAP_START 0xC010100C 0x7D000 3 0xC017E000 k) :
    ∃ m a, (∀ fuel, Kernel.alloc (fuel + 1) 8196 true k = some (0xC0102000, k.retag m a)) ∧
      SharedOk 8196 true k := by
  obtain ⟨m, a, hal, -, hok⟩ := h.alloc 8196 true 0xFE8 0x2018 0x7A00C (by decide) (by decide)
    (by decide) (by decide) rfl rfl (by decide)
    ⟨by decide, by decide, by decide, by decide, by decide, Or.inr ⟨by decide, by decide⟩⟩
  obtain ⟨holes, blocks, hheap⟩ := h.heap
  refine ⟨m, a, hal, hok, grows_first hheap ?_⟩
  rw [holeFits_even (by decide), h.size]
  decide

/-- **The heap is the same in every directory**, in every run of allocations, clones and other
calls whose calls of `alloc` are sound and grow the heap within the page tables there are. -/
theorem heap_shared {k₀ : Kernel} {ops : List PageOp} {s : Machine} (h : Booted k₀)
    (hr : Run (fun s op s' => PageStep s op s' ∧ s.CallsOk SharedOk (fun _ => True) op)
      ⟨k₀, [k₀.curVmPageDir]⟩ ops s) : s.HeapShared := by
  obtain ⟨k, b, K, hlow, hfit, hs⟩ := h.started
  rw [hs.cur] at hr
  obtain ⟨⟨holes, blocks, hsys⟩, hb⟩ := Machine.run_system (stable_heapBacked KHEAP_START)
    ⟨_, _, hs.system⟩ (hs.heapBacked hlow hfit) hr
  exact hsys.heapShared hb

theorem heap_shared_grown : ∃ k₀ s, Booted k₀ ∧
    Run (fun s op s' => PageStep s op s' ∧ s.CallsOk SharedOk (fun _ => True) op)
      ⟨k₀, [k₀.curVmPageDir]⟩
      [.alloc 0x7DFEC false 0xC0083018, .clone k₀.vmPageDir 0xC0102000] s ∧ s.HeapShared := by
  obtain ⟨k₀, hbooted, hnull⟩ := exists_booted
  obtain ⟨k, b, K, hlow, hfit, hs⟩ := hbooted.started
  obtain ⟨k₁, hal₁, hok₁, hvm₁, hlast₁⟩ := hs.grow_within hnull
    (by rw [hs.tableOf]; exact (hlow.present (by decide)).mpr rfl)
  have hr₁ : Run (fun s op s' => PageStep s op s' ∧ s.CallsOk SharedOk (fun _ => True) op)
      ⟨k₀, [k₀.curVmPageDir]⟩ [.alloc 0x7DFEC false 0xC0083018] ⟨k₁, [k₀.curVmPageDir]⟩ :=
    .single ⟨.alloc hal₁, hok₁⟩
  obtain ⟨⟨holes, blocks, hsys⟩, -⟩ := Machine.run_system (stable_heapBacked KHEAP_START)
    ⟨_, _, hs.system⟩ (hs.heapBacked hlow hfit) (by rw [← hs.cur]; exact hr₁)
  obtain ⟨m, a, hal, hok⟩ := hlast₁.clone_ok
  obtain ⟨phy, hm⟩ := mallocAp_some hsys.kheap (hal 0)
  have hlt : k₁.vmPageDir < KHEAP_START := hsys.vm
  obtain ⟨D, hclone, -⟩ := cloneDir_vm hm (show 0xC0102000 ≠ k₁.vmPageDir by
    have hA : KHEAP_START = 0xC0000000 := rfl
    omega)
  have hr := hr₁.snoc ⟨.clone (.inl hvm₁.symm) (hvm₁ ▸ hclone), fun fuel => by
    have h := @System.cloneOk_vm _ _ _ _ _ _ fuel hsys hok hok.1
    rwa [hvm₁] at h⟩
  exact ⟨k₀, _, hbooted, hr, heap_shared hbooted hr⟩

/-! ### Growth beyond the first page table -/

/-- After the start, a block of `0x300000` bytes makes the heap grow beyond `0xC0400000`: a page
table goes into `vm_page_dir`, and no other directory changes. -/
lemma Started.grow_past {b k : Kernel} (h : Started b k) (hnull : read32 k.mem 8 = 0)
    (h768 : k.tableOf k.vmPageDir 768 ≠ 0) (h769 : k.tableOf k.vmPageDir 769 = 0) :
    ∃ k', Kernel.alloc 2 0x300000 false k = some (0xC0085014, k') ∧
      k'.heap.startAddress = 0xC0080000 ∧ k'.heap.endAddress = 0xC0400014 ∧
      k'.dirs 0xC0081000 = k.dirs 0xC0081000 := by
  have hN : HEAP_INDEX_SIZE = 0x20000 := rfl
  have hA : KHEAP_START = 0xC0000000 := rfl
  have hstart : k.heap.startAddress = 0xC0080000 := h.system.heap.start
  have hend := h.endAddress
  have hused := h.used
  have hlen := h.heapLen_eq
  obtain ⟨k₁, hf, hskip⟩ := @expandPages_skip (mallocAp (alloc 1)) 0x380014
    (2 ^ 20 - 768) (by decide) 768 0x80000 k fun j hj => by
      refine ⟨by omega, ?_⟩
      rw [hstart, add32_eq (by omega), show (0xC0080000 + (0x80000 + 0x1000 * j)) / 0x1000 / 1024 = 768
        by omega]
      exact h768
  have h₁ : HeapInv KHEAP_START [(0xC008300C, TOP), (0xC0080000, 0xC0080FF4)]
      [(0xC0081000, 0xC0081000 + 8196)] k₁ := h.system.heap.congr hf.mem hf.heap
  have hs₁ : headerSize k₁.mem 0xC008300C = 0x7D000 := by rw [hf.mem, h.big]
  have hfit₁ : holeFits (4096 + 20) true k₁.mem 0xC008300C = true := by
    rw [holeFits_even (by decide), hs₁]
    decide
  have hok₁ : PlaceOk 0xC008300C 0x7D000 k₁.heap.endAddress k₁.heap.index.cur (4096 + 20) true := by
    rw [hf.heap, hend]
    exact ⟨by decide, by decide, by decide, by decide, by decide,
      Or.inr ⟨by omega, by decide⟩⟩
  obtain ⟨m₁, a₁, hal₁, h₂, hrest₁, -, hother₁, -, hcur₁⟩ := @alloc_first _ _ _ _ 0xFE8 0x1014 0x7B010
    _ 0 _ _ _ _ h₁ (by decide) hs₁.symm rfl rfl rfl hfit₁ hok₁
  have hcur₂ : a₁.cur ≤ 3 := by
    rw [hf.heap] at hcur₁
    omega
  obtain ⟨phy, hm₁⟩ := mallocAp_some (by rw [hf.kheap]; exact h.system.kheap) hal₁
  have hlast : add32 k₁.heap.startAddress 0x380000 / 0x1000 / 1024 = 769 := by
    rw [hf.heap, hstart]
    decide
  have htable := @expandPages_table _ 0x380014 1047806 0x380000 _ _ k₁ _ (by decide) (by decide)
    (by decide) (by rw [hlast, hf.vm, hf.tableOf]; exact h769) hm₁
  set k₃ := (((k₁.retag m₁ a₁).setSlot k₁.vmPageDir (add32 k₁.heap.startAddress 0x380000 / 0x1000 / 1024)
    (0xC008300C + 0xFE8 + 12) (phy ||| 7)).setTable (0xC008300C + 0xFE8 + 12) fun _ =>
      .zero).allocFrame (some ⟨0xC008300C + 0xFE8 + 12,
        add32 k₁.heap.startAddress 0x380000 / 0x1000 % 1024⟩) (k₁.retag m₁ a₁).heap.supervisor
          (!(k₁.retag m₁ a₁).heap.readonly) with hk₃
  have hexp : expandPages (mallocAp (alloc 1)) 0x380014 (2 ^ 20) k.heapLen k = some k₃ := by
    rw [hlen, show (2 : ℕ) ^ 20 = 2 ^ 20 - 768 + 768 by decide, hskip]
    exact htable
  have h₃ : HeapInv KHEAP_START
      [(0xC0085008, TOP), (0xC008300C, 0xC0083FF4), (0xC0080000, 0xC0080FF4)] _ k₃ :=
    h₂.congr rfl rfl
  have hstart₃ : k₃.heap.startAddress = 0xC0080000 := h₃.start
  have hend₃ : k₃.heap.endAddress = 0xC0100000 := by
    show k₁.heap.endAddress = _
    rw [hf.heap, hend]
  obtain ⟨m₂, hagain, h₄, hs₄, -⟩ := alloc_extend (g := 0x300014)
    (show 0x300000 + 20 < 2 ^ 32 by decide) (h.miss hnull (show 0x7D000 < 0x300000 + 20 by decide))
    h.system.heap.start (by rw [hlen]; decide) (by rw [hlen]) hexp h₃ (by decide)
    (by rw [hend₃, hstart]; decide) (by rw [hstart]; decide) (List.mem_cons_self ..) (by simp)
    (hrest₁ (by decide)).symm (by decide)
  set k₄ := (k₃.setEnd (k.heap.startAddress + 0x380014)).retag m₂ k₃.heap.index with hk₄
  have hend₄ : k₄.heap.endAddress = 0xC0400014 := by
    show k.heap.startAddress + 0x380014 = _
    rw [hstart]
  have hcur₄ : k₄.heap.index.cur ≤ 3 := hcur₂
  have hfit₄ : holeFits (0x300000 + 20) false k₄.mem 0xC0085008 = true := by
    rw [holeFits_even (by decide)]
    exact (show 0x300000 + 20 ≤ 0x7B010 + 0x300014 by decide).trans_eq hs₄.symm
  have hok₄ : PlaceOk 0xC0085008 0x37B024 k₄.heap.endAddress k₄.heap.index.cur (0x300000 + 20)
      false := by
    rw [hend₄]
    exact ⟨by decide, by decide, by decide, by decide, by decide, Or.inr ⟨by omega, by decide⟩⟩
  obtain ⟨m₅, a₅, hal₅, -⟩ := @alloc_first _ _ _ _ 0 0x300014 0x7B010 _ 0 _ _ _ _ h₄ (by decide)
    hs₄.symm rfl rfl rfl hfit₄ hok₄
  refine ⟨k₄.retag m₅ a₅, hagain.trans hal₅, hstart₃, hend₄, ?_⟩
  have hne : (0xC0081000 : ℕ) ≠ k₁.vmPageDir := by
    rw [hf.vm]
    exact (h.system.clone_low (List.mem_singleton.mpr rfl)).2
  exact (Function.update_of_ne hne _ _).trans (congrFun hf.dirs _)

/-- The clone does not see the new page table. -/
theorem heap_shared_fails : ∃ k₀ s, Booted k₀ ∧
    Run PageStep ⟨k₀, [k₀.curVmPageDir]⟩ [.alloc 0x300000 false 0xC0085014] s ∧
      ¬ s.HeapShared := by
  obtain ⟨k₀, hbooted, hnull⟩ := exists_booted
  obtain ⟨k, b, K, hlow, hfit, hs⟩ := hbooted.started
  have h769 : k₀.tableOf k₀.vmPageDir 769 = 0 := by
    by_contra hne
    rw [hs.tableOf] at hne
    exact absurd ((hlow.present (by decide)).mp hne) (by decide)
  obtain ⟨k', hal, hstart, hend, hdir⟩ := hs.grow_past hnull
    (by rw [hs.tableOf]; exact (hlow.present (by decide)).mpr rfl) h769
  refine ⟨k₀, ⟨k', [k₀.curVmPageDir]⟩, hbooted, .single (.alloc hal), fun hshared => ?_⟩
  have hlook := (hshared.2 _ (List.mem_singleton.mpr rfl) 0xC0400000 (hstart.trans_le (by decide))
    (by rw [hend]; decide)).1
  refine hlook (lookupPage_none ?_)
  rw [hs.cur, Kernel.tableOf, hdir]
  exact (hs.clone 769 (by decide)).trans h769

end OsImplement.Memory
