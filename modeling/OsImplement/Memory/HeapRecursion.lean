import Mathlib.Data.Finset.Card
import Mathlib.Data.Finset.Range
import Mathlib.Data.Nat.Find
import OsImplement.Memory.HeapBounds
import OsImplement.Memory.Started

/-!
Calls of `alloc` inside of `alloc`.

A growth that meets a page without a page table asks `alloc` for one, before the end of the heap has
moved. When a hole takes the table, or the table can be had by a growth that needs no table itself,
the call returns: every such growth makes a table, of which there are 1024 at most, and every other
one makes the highest hole longer by the whole request. When neither is so, the inner call finds the
heap as the outer one did and makes the same call again.
-/

namespace OsImplement.Memory

open Lib.Word Lib.Bytes Lib.Step Kernel

namespace Kernel

/-- A call of `alloc`, followed `fuel` calls deep: where it grows the heap the end does not wrap,
and the calls for page tables find a hole or grow the heap within the tables there are. -/
def TablesAt : ℕ → ℕ → Bool → Kernel → Prop
  | 0, _, _, _ => True
  | fuel + 1, size, pageAlign, k =>
    findHoleFitFirst (size + 20) pageAlign k.heap k.mem = some none →
      let newSize := roundSize (add32 k.heapLen (size + 20))
      let newEnd := k.heap.startAddress + newSize
      newEnd < 2 ^ 32 ∧ PagesOk (alloc fuel) (Grows GrowsTabled) newSize (2 ^ 20) k.heapLen k ∧
      ∀ k', expandPages (mallocAp (alloc fuel)) newSize (2 ^ 20) k.heapLen k = some k' →
        ∀ k'', (k'.setEnd newEnd).growHole k.heap.endAddress k.heapLen = some k'' →
          TablesAt fuel size pageAlign k''

/-- A call of `alloc` gets its page tables without a call that needs another one. -/
def TablesOk (size : ℕ) (pageAlign : Bool) (k : Kernel) : Prop :=
  ∀ fuel, TablesAt fuel size pageAlign k

/-- The slots of `vm_page_dir` without a table. -/
def missing (k : Kernel) : Finset ℕ :=
  (Finset.range 1024).filter fun i => k.tableOf k.vmPageDir i = 0

section Missing

variable {A : ℕ} {k k' : Kernel}

lemma mem_missing {i : ℕ} : i ∈ k.missing ↔ i < 1024 ∧ k.tableOf k.vmPageDir i = 0 := by
  rw [missing, Finset.mem_filter, Finset.mem_range]

lemma card_missing_le : k.missing.card ≤ 1024 :=
  (Finset.card_filter_le _ _).trans_eq (Finset.card_range _)

lemma PagesKept.missing (h : PagesKept A k k') : k'.missing ⊆ k.missing := by
  intro i hi
  rw [mem_missing] at hi ⊢
  refine ⟨hi.1, by_contra fun hne => hne ?_⟩
  rw [← h.tableOf hne, ← h.vm]
  exact hi.2

lemma OnlyFrames.missing (h : OnlyFrames k k') : k'.missing = k.missing := by
  unfold Kernel.missing
  simp only [h.vm, h.tableOf]

lemma PagesKept.missing_lt (h : PagesKept A k k') {i : ℕ} (hi : i < 1024)
    (h0 : k.tableOf k.vmPageDir i = 0) (h1 : k'.tableOf k'.vmPageDir i ≠ 0) :
    k'.missing.card < k.missing.card := by
  refine Finset.card_lt_card ((Finset.ssubset_iff_of_subset h.missing).mpr ⟨i, ?_, fun hmem => ?_⟩)
  · exact mem_missing.mpr ⟨hi, h0⟩
  · exact h1 (mem_missing.mp hmem).2

end Missing

/-! ### Calls that return -/

section Returns

variable {A fuel size newSize : ℕ} {pageAlign : Bool} {k : Kernel}

/-- The growths that are enough for a page table. -/
def tableFuel : ℕ := 4096 + 20 + 0x1000

/-- **The rounds of `expand` return**, and either they have made a table or they have only taken
frames. -/
lemma expandPages_returns (hfuel : tableFuel < fuel) (htop : newSize + 0x1000 ≤ 2 ^ 32) :
    ∀ (n i : ℕ) (k : Kernel) (holes blocks : List (ℕ × ℕ)), HeapInv A holes blocks k →
    k.kheap ≠ 0 → PagesOk (alloc fuel) (OkAt fuel) newSize (n + 1) i k →
    PagesOk (alloc fuel) (Grows GrowsTabled) newSize (n + 1) i k → newSize ≤ i + 0x1000 * n →
    ∃ k', expandPages (mallocAp (alloc fuel)) newSize (n + 1) i k = some k' ∧
      (OnlyFrames k k' ∨ k'.missing.card < k.missing.card) := by
  have hT : tableFuel = 4096 + 20 + 0x1000 := rfl
  intro n
  induction n with
  | zero =>
    intro i k holes blocks _ _ _ _ hn
    rw [expandPages, if_neg (by omega)]
    exact ⟨k, rfl, .inl (.refl k)⟩
  | succ n ih =>
    intro i k holes blocks h hk hok hgrows hn
    by_cases hi : i < newSize
    swap
    · rw [expandPages, if_neg hi]
      exact ⟨k, rfl, .inl (.refl k)⟩
    obtain ⟨hokTable, hokNext⟩ := hok hi
    obtain ⟨hgrowsTable, hgrowsNext⟩ := hgrows hi
    have hadd : add32 i 0x1000 = i + 0x1000 := add32_eq (by omega)
    set addr := add32 k.heap.startAddress i with haddr
    have hslot : addr / 0x1000 / 1024 < 1024 := by
      have := add32_lt k.heap.startAddress i
      omega
    -- the page of this round, and the rest from the state it leaves
    have hrest {r : PageRef} {k₁ : Kernel} (hg : k.getPage (mallocAp (alloc fuel)) addr true
        k.vmPageDir = some (some r, k₁)) :
        ∃ k', expandPages (mallocAp (alloc fuel)) newSize (n + 1 + 1) i k = some k' ∧
          (OnlyFrames k₁ k' ∨ k'.missing.card < k₁.missing.card) := by
      have hf := onlyFrames_allocFrame k₁ r k₁.heap.supervisor (!k₁.heap.readonly)
      obtain ⟨-, holes₁, extra₁, h₁, -⟩ := getPage_sound h (alloc_sound A fuel) hokTable hg
      have hkept := getPage_kept h hk (alloc_sound A fuel) (alloc_keeps A fuel) hokTable hg
      have hok₂ := hokNext _ _ hg
      have hgrows₂ := hgrowsNext _ _ hg
      rw [hadd] at hok₂ hgrows₂
      obtain ⟨k', hexp, hcase⟩ := ih _ _ holes₁ _ (h₁.congr hf.mem hf.heap)
        (by rw [hf.kheap, hkept.kheap]; exact hk) hok₂ hgrows₂ (by omega)
      refine ⟨k', ?_, ?_⟩
      · rw [expandPages, if_pos hi, ← haddr, hg]
        simp only [Option.bind_eq_bind, Option.bind_some, hadd]
        exact hexp
      · rw [← hf.missing]
        exact hcase.imp hf.trans id
    by_cases h0 : k.tableOf k.vmPageDir (addr / 0x1000 / 1024) = 0
    · -- the table is made
      obtain ⟨f, rfl⟩ : ∃ f, fuel = f + 1 := ⟨fuel - 1, by omega⟩
      have hnone := lookupPage_none h0
      obtain ⟨t, k₁, hal⟩ := alloc_returns f k holes blocks h (hokTable hnone hk)
        (hgrowsTable hnone hk _) (by omega)
      obtain ⟨phy, hm⟩ := mallocAp_some hk hal
      have hg : k.getPage (mallocAp (alloc (f + 1))) addr true k.vmPageDir =
          some (some ⟨t, addr / 0x1000 % 1024⟩, (k₁.setSlot k.vmPageDir (addr / 0x1000 / 1024) t
            (phy ||| 7)).setTable t fun _ => .zero) := by
        unfold getPage
        rw [hnone]
        simp only [if_true, hm, Option.bind_eq_bind, Option.bind_some]
      obtain ⟨k', hexp, hcase⟩ := hrest hg
      obtain ⟨holes₁, extra₁, h₁, -⟩ :=
        alloc_sound A (f + 1) _ _ _ _ _ _ _ h (hokTable hnone hk) hal
      have hkept₁ := alloc_keeps A (f + 1) _ _ _ _ _ _ _ h hk (hokTable hnone hk) hal
      have hkept := getPage_kept h hk (alloc_sound A (f + 1)) (alloc_keeps A (f + 1)) hokTable hg
      have hlt := hkept.missing_lt hslot h0 (by
        rw [vmPageDir_setTable, vmPageDir_setSlot, hkept₁.vm, Kernel.tableOf, dirs_setTable,
          ← Kernel.tableOf, tableOf_setSlot, if_pos ⟨rfl, rfl⟩]
        have hN : HEAP_INDEX_SIZE = 0x20000 := rfl
        have hlo := (h₁.block (t, t + 4096) (by simp)).1
        simp only at hlo
        omega)
      refine ⟨k', hexp, .inr ?_⟩
      rcases hcase with hf | hless
      · rw [hf.missing]
        exact hlt
      · exact hless.trans hlt
    · exact hrest (r := k.refOf k.vmPageDir (addr / 0x1000)) (by
        unfold getPage
        rw [show k.lookupPage addr k.vmPageDir = some (k.refOf k.vmPageDir (addr / 0x1000)) from
          if_pos h0])

/-- **A call returns** that gets its page tables: `m` slots of `vm_page_dir` have no table, without
a new one `g` growths make the highest hole long enough, and after a new one `B` do. -/
theorem alloc_returns_tables {B : ℕ} (hB : size + 20 + 0x1000 ≤ B) :
    ∀ (fuel m g : ℕ) (k : Kernel) (holes blocks : List (ℕ × ℕ)), HeapInv A holes blocks k →
    k.kheap ≠ 0 → OkAt (fuel + 1) size pageAlign k → TablesAt (fuel + 1) size pageAlign k →
    k.missing.card ≤ m → size + 20 + 0x1000 ≤ k.highestSize + 20 * g →
    tableFuel + 1 + m * (B + 1) + g ≤ fuel →
    ∃ p k', alloc (fuel + 1) size pageAlign k = some (p, k') := by
  intro fuel
  induction fuel with
  | zero =>
    intro m g k holes blocks _ _ _ _ _ _ hfuel
    omega
  | succ fuel ih =>
    intro m g k holes blocks h hk hok htables hm hbig hfuel
    rcases placed_or_miss h hok with ⟨p, m, a, hpl, -⟩ | hmiss
    · exact ⟨p, _, hpl⟩
    · obtain ⟨hend, hpages, hnext⟩ := htables hmiss
      have hN : HEAP_INDEX_SIZE = 0x20000 := rfl
      have hstart := h.start
      have hokPages := (hok.2.2 hmiss).1
      obtain ⟨c, hc⟩ : ∃ c, 2 ^ 20 = c + 1 := ⟨2 ^ 20 - 1, by omega⟩
      rw [hc] at hpages hokPages
      obtain ⟨k₀, hexp, hcase⟩ := expandPages_returns (show tableFuel < fuel + 1 by omega)
        (by omega) c _ k holes blocks h hk hokPages hpages (by omega)
      rw [← hc] at hexp
      obtain ⟨k₂, extra, hg, heq, -, hmore⟩ :=
        alloc_regrows (alloc_sound A (fuel + 1)) h hok hmiss hexp
      obtain ⟨holes₂, h₂⟩ := hg.grown
      obtain ⟨mem, a, hk₂⟩ := growHole_retag hg.grow
      have hkept := expandPages_kept (alloc_sound A (fuel + 1)) (alloc_keeps A (fuel + 1)) _ _ _ _ _
        _ h hk hg.pages hg.expand
      have hkheap₂ : k₂.kheap ≠ 0 := by
        rw [hk₂]
        show k₀.kheap ≠ 0
        rw [hkept.kheap]
        exact hk
      have hmissing₂ : k₂.missing = k₀.missing := by
        rw [hk₂]
        rfl
      have htables₂ := hnext _ hg.expand _ hg.grow
      rw [heq]
      rcases hcase with hf | hless
      · -- no table was missing: the highest hole is longer
        have hg0 : g ≠ 0 := by
          have := highestSize_of_miss h hmiss
          omega
        obtain ⟨g', rfl⟩ : ∃ g', g = g' + 1 := ⟨g - 1, by omega⟩
        have hsame := hf.highestSize
        exact ih m g' k₂ holes₂ _ h₂ hkheap₂ hg.again htables₂
          (by rw [hmissing₂, hf.missing]; exact hm) (by omega) (by omega)
      · -- a table was made: the count of the growths starts again
        obtain ⟨m', rfl⟩ : ∃ m', m = m' + 1 := ⟨m - 1, by omega⟩
        have hmul : (m' + 1) * (B + 1) = m' * (B + 1) + (B + 1) := Nat.succ_mul _ _
        exact ih m' B k₂ holes₂ _ h₂ hkheap₂ hg.again htables₂
          (by rw [hmissing₂]; omega) (by omega) (by omega)

end Returns

/-! ### Calls that do not -/

section Stuck

variable {i newSize : ℕ} {k : Kernel} {mallocAp : MallocAp} {alloc : HeapAlloc}

lemma mallocAp_none (hk : k.kheap ≠ 0) (h : alloc 4096 true k = none) :
    Kernel.mallocAp alloc 4096 k = none := by
  unfold Kernel.mallocAp malloc
  rw [if_neg hk, h]
  rfl

/-- The rounds of `expand` do not return where a page has no table and none is to be had. -/
lemma expandPages_stuck (htop : newSize + 0x1000 ≤ 2 ^ 32) (ht : ¬ Tabled i newSize k)
    (hm : ∀ k', OnlyFrames k k' → mallocAp 4096 k' = none) :
    expandPages mallocAp newSize (2 ^ 20) i k = none := by
  classical
  -- the first such page
  have hex : ∃ j, i + 0x1000 * j < newSize ∧ k.tableOf k.vmPageDir
      (add32 k.heap.startAddress (i + 0x1000 * j) / 0x1000 / 1024) = 0 := by
    by_contra hall
    exact ht fun j hj h0 => hall ⟨j, hj, h0⟩
  obtain ⟨hj, h0⟩ := Nat.find_spec hex
  have hmin (j' : ℕ) (hj' : j' < Nat.find hex) := Nat.find_min hex hj'
  generalize Nat.find hex = j at hj h0 hmin
  obtain ⟨n, hn⟩ : ∃ n, n + 1 + j = 2 ^ 20 := ⟨2 ^ 20 - 1 - j, by omega⟩
  obtain ⟨k', hf, hskip⟩ := @expandPages_skip mallocAp newSize (n + 1) htop j i k
    fun j' hj' => ⟨by omega, fun h0' => hmin j' hj' ⟨by omega, h0'⟩⟩
  have hnone : k'.getPage mallocAp (add32 k'.heap.startAddress (i + 0x1000 * j)) true
      k'.vmPageDir = none := by
    unfold getPage
    rw [lookupPage_none (by rw [hf.vm, hf.heap, hf.tableOf]; exact h0), if_pos rfl, hm k' hf]
    rfl
  rw [← hn, hskip, expandPages, if_pos hj, hnone]
  rfl

/-- **A call for a page table that finds no hole, and needs a page table, never returns.** -/
theorem alloc_stuck : ∀ (fuel : ℕ) (k : Kernel), k.kheap ≠ 0 →
    findHoleFitFirst (4096 + 20) true k.heap k.mem = some none →
    roundSize (add32 k.heapLen (4096 + 20)) + 0x1000 ≤ 2 ^ 32 →
    ¬ Tabled k.heapLen (roundSize (add32 k.heapLen (4096 + 20))) k →
    Kernel.alloc fuel 4096 true k = none := by
  intro fuel
  induction fuel with
  | zero => exact fun _ _ _ _ _ => rfl
  | succ fuel ih =>
    intro k hk hmiss htop ht
    have hexp := @expandPages_stuck _ _ k (Kernel.mallocAp (Kernel.alloc fuel)) htop ht
      fun k' hf => by
        -- the inner call finds the heap as it was
        have hlen : k'.heapLen = k.heapLen := by rw [heapLen, hf.heap, heapLen]
        have hk' : k'.kheap ≠ 0 := by
          rw [hf.kheap]
          exact hk
        refine mallocAp_none hk' (ih k' hk' ?_ ?_ ?_)
        · rw [hf.heap, hf.mem]
          exact hmiss
        · rw [hlen]
          exact htop
        · rw [hlen]
          refine fun ht' => ht fun j hj => ?_
          have htab := ht' j hj
          rwa [hf.vm, hf.heap, hf.tableOf] at htab
    rw [alloc_grow (by decide) hmiss]
    unfold expand
    simp only [hexp, Option.bind_eq_bind, Option.bind_none]

end Stuck

lemma stable_sound (A : ℕ) : Stable A AllocOk (fun _ => True) (fun _ => True) where
  sound h := h
  alloc _ _ _ _ := trivial
  congr _ _ := trivial
  map _ _ _ := trivial

end Kernel

/-- **`alloc` returns**, in every run of allocations, clones and other calls that are sound, when
its own call is sound, gets its page tables and stores to mapped memory. -/
theorem alloc_terminates {k₀ : Kernel} {ops : List PageOp} {s : Machine} {size : ℕ}
    {pageAlign : Bool} (h : Booted k₀)
    (hr : Run (fun s op s' => PageStep s op s' ∧ s.CallsOk AllocOk (fun _ => True) op)
      ⟨k₀, [k₀.curVmPageDir]⟩ ops s)
    (hok : s.kernel.AllocOk size pageAlign) (ht : s.kernel.TablesOk size pageAlign)
    (hm : s.kernel.StoresMapped size pageAlign) :
    ∃ fuel p k', Paged.alloc fuel size pageAlign s.kernel = some (p, k') := by
  obtain ⟨k, b, K, hlow, hfit, hs⟩ := h.started
  rw [hs.cur] at hr
  obtain ⟨⟨holes, blocks, hsys⟩, -⟩ := Machine.run_system (stable_sound KHEAP_START)
    ⟨_, _, hs.system⟩ trivial hr
  obtain ⟨p, k', hal⟩ := alloc_returns_tables (le_refl (size + 20 + 0x1000)) _ 1024
    (size + 20 + 0x1000) s.kernel holes blocks hsys.heap hsys.kheap (hok _) (ht _) card_missing_le
    (by omega) le_rfl
  exact ⟨_, p, k', (alloc_faultless _ _ _ _ _ _ _ _ _ hsys.heap (hok _) (hm _) hal).1⟩

lemma tablesOk_first {A p r size : ℕ} {pageAlign : Bool} {holes blocks : List (ℕ × ℕ)} {k : Kernel}
    (h : HeapInv A ((p, r) :: holes) blocks k)
    (hfit : holeFits (size + 20) pageAlign k.mem p = true) : k.TablesOk size pageAlign := by
  intro fuel
  cases fuel with
  | zero => trivial
  | succ fuel =>
    intro hnone
    simp [findHole_first h hfit] at hnone

lemma storesMapped_first {A p r size : ℕ} {pageAlign : Bool} {holes blocks : List (ℕ × ℕ)}
    {k : Kernel} (h : HeapInv A ((p, r) :: holes) blocks k)
    (hfit : holeFits (size + 20) pageAlign k.mem p = true)
    (hm : PlaceMapped p (headerSize k.mem p) (size + 20) pageAlign k) :
    k.StoresMapped size pageAlign := by
  intro fuel
  cases fuel with
  | zero => trivial
  | succ fuel =>
    have hfind := findHole_first h hfit
    refine ⟨fun iter hiter => ?_, fun hnone => by simp [hfind] at hnone⟩
    obtain rfl : iter = 0 := by simpa [hfind] using hiter.symm
    rwa [holeAt_first h]

lemma alloc_first_paged {A p r size fuel : ℕ} {pageAlign : Bool} {holes blocks : List (ℕ × ℕ)}
    {k : Kernel} (h : HeapInv A ((p, r) :: holes) blocks k) (hn : size + 20 < 2 ^ 32)
    (hfit : holeFits (size + 20) pageAlign k.mem p = true)
    (hok : PlaceOk p (headerSize k.mem p) k.heap.endAddress k.heap.index.cur (size + 20) pageAlign)
    (hm : PlaceMapped p (headerSize k.mem p) (size + 20) pageAlign k) :
    Paged.alloc (fuel + 1) size pageAlign k = Kernel.alloc (fuel + 1) size pageAlign k :=
  Paged.alloc_placed h hn (findHole_first h hfit) (show 0 < ((p, r) :: holes).length by simp) rfl
    rfl hok hm

/-! ### The pages of the heap -/

/-- The running directory has the table of the initial heap. The first `c` pages of this table are
mapped to frames, the others are empty, and the frames that are taken are the first `n`. -/
structure HeapFramed (n c : ℕ) (k : Kernel) : Prop where
  size : k.map.framesBitmapSize = FRAME_COUNT / 8
  marks : FramePrefix n k
  shared : k.tableOf k.curVmPageDir 768 = k.tableOf k.vmPageDir 768
  table : k.tableOf k.vmPageDir 768 ≠ 0
  mapped : ∀ m < c, (k.entryOf k.vmPageDir (heapPage m)).valid = true ∧
    (k.entryOf k.vmPageDir (heapPage m)).frame < FRAME_COUNT
  empty : ∀ m, c ≤ m → m < 1024 → (k.entryOf k.vmPageDir (heapPage m)).frame = 0

section Framed

variable {n c : ℕ} {k k' : Kernel}

lemma heapPage_slot {m : ℕ} (hm : m < 1024) : heapPage m / 1024 = 768 ∧ heapPage m % 1024 = m := by
  unfold heapPage
  omega

lemma HeapFramed.mappedFrom (h : HeapFramed n c k) (hc : c ≤ 1024) {a l : ℕ} (h1 : KHEAP_START ≤ a)
    (h2 : a + l ≤ KHEAP_START + 0x1000 * c) : k.MappedFrom a l := by
  have hA : KHEAP_START = 0xC0000000 := rfl
  have hcount : FRAME_COUNT = 4096 := rfl
  intro i hi
  obtain ⟨m, hm, hp⟩ : ∃ m < c, (a + i) / 0x1000 = heapPage m :=
    ⟨(a + i) / 0x1000 - 768 * 1024, by omega, by unfold heapPage; omega⟩
  obtain ⟨hv, hf⟩ := h.mapped m hm
  have hslot := (heapPage_slot (show m < 1024 by omega)).1
  have hentry : k.entryOf k.curVmPageDir (heapPage m) = k.entryOf k.vmPageDir (heapPage m) := by
    rw [Kernel.entryOf, Kernel.entryOf, hslot, h.shared]
  refine mapped_of_entry (by omega) rfl ?_ ?_ ?_
  · rw [hp, hslot, h.shared]
    exact h.table
  · rw [hp, hentry]
    exact hv
  · rw [hp, hentry, h.size]
    exact hf

lemma HeapFramed.placeMapped {p s n' : ℕ} {pageAlign : Bool} (h : HeapFramed n c k) (hc : c ≤ 1024)
    (h1 : KHEAP_START + 8 ≤ p)
    (h2 : p + alignOffset pageAlign p + blockRoom s n' + 12 ≤ KHEAP_START + 0x1000 * c)
    (h3 : p + alignOffset pageAlign p + restSize (alignOffset pageAlign p) s (blockRoom s n') ≤
      KHEAP_START + 0x1000 * c) : PlaceMapped p s n' pageAlign k :=
  ⟨h.mappedFrom hc (by omega) (by omega), fun _ => h.mappedFrom hc (by omega) (by omega),
    fun _ _ => h.mappedFrom hc (by omega) (by omega)⟩

lemma HeapFramed.retag (h : HeapFramed n c k) (m : Mem) (a : SortedArray) :
    HeapFramed n c (k.retag m a) :=
  ⟨h.size, h.marks, h.shared, h.table, h.mapped, h.empty⟩

lemma HeapFramed.setEnd (h : HeapFramed n c k) (end_ : ℕ) : HeapFramed n c (k.setEnd end_) :=
  ⟨h.size, h.marks, h.shared, h.table, h.mapped, h.empty⟩

lemma HeapFramed.allocFrame (h : HeapFramed n c k) (hn : n < FRAME_COUNT) (hc : c < 1024)
    (isKernel isWritable : Bool) : HeapFramed (n + 1) (c + 1)
      (k.allocFrame (some (k.refOf k.vmPageDir (heapPage c))) isKernel isWritable) := by
  have hcount : FRAME_COUNT = 4096 := rfl
  have hframes := onlyFrames_allocFrame k (k.refOf k.vmPageDir (heapPage c)) isKernel isWritable
  have h0 := h.empty c le_rfl hc
  obtain ⟨hfirst, hfree⟩ := firstFrame_prefix h.size hn h.marks
  obtain ⟨hmap, hentry⟩ := @allocFrame_free k (k.refOf k.vmPageDir (heapPage c)) isKernel isWritable
    (by rw [h.size]; decide) h0 hfree
  rw [hfirst] at hmap hentry
  -- the other pages of the table keep their entries
  have hother {m : ℕ} (hm : m < 1024) (hne : m ≠ c) :
      (k.allocFrame (some (k.refOf k.vmPageDir (heapPage c))) isKernel isWritable).entryOf
        k.vmPageDir (heapPage m) = k.entryOf k.vmPageDir (heapPage m) := by
    rw [Kernel.entryOf, hframes.tableOf]
    refine tables_allocFrame_ne fun hsame => hne ?_
    have hidx : heapPage m % 1024 = heapPage c % 1024 := hsame.2
    rwa [(heapPage_slot hm).2, (heapPage_slot hc).2] at hidx
  refine ⟨by rw [hmap]; exact h.size, fun f hf => ?_, ?_, ?_, fun m hm => ?_, fun m h1 h2 => ?_⟩
  · rw [hmap, used_setFrame, h.marks f hf]
    omega
  · rw [hframes.cur, hframes.vm, hframes.tableOf, hframes.tableOf]
    exact h.shared
  · rw [hframes.vm, hframes.tableOf]
    exact h.table
  · rw [hframes.vm]
    rcases Nat.lt_succ_iff_lt_or_eq.mp hm with hm | rfl
    · rw [hother (by omega) (by omega)]
      exact h.mapped m hm
    · rw [Kernel.entryOf, hframes.tableOf]
      exact ⟨congrArg PageStruct.valid hentry, (congrArg PageStruct.frame hentry).trans_lt hn⟩
  · rw [hframes.vm, hother h2 (by omega)]
    exact h.empty m (by omega) h2

lemma HeapFramed.expand {c' newSize : ℕ} {mallocAp : MallocAp} (h : HeapFramed n c k)
    (hstart : k.heap.startAddress = 0xC0080000) (hlen : k.heapLen + 0x80000 = 0x1000 * c)
    (hlo : 0x1000 * (c + c') < newSize + 0x81000) (hhi : newSize + 0x80000 ≤ 0x1000 * (c + c'))
    (hc : c + c' ≤ 1024) (hn : n + c' ≤ FRAME_COUNT)
    (hr : expandPages mallocAp newSize (2 ^ 20) k.heapLen k = some k') :
    HeapFramed (n + c') (c + c') k' := by
  have hcovered : Covered k.heapLen newSize k := by
    intro x h1 h2
    rw [hstart, add32_eq (by omega), show (0xC0080000 + x) / 0x1000 / 1024 = 768 by omega]
    exact h.table
  have hrun := expandPages_rounds (P := fun j k' => j ≤ c' ∧ HeapFramed (n + j) (c + j) k')
    (by omega) (by omega) hcovered ⟨Nat.zero_le _, h⟩ (fun j k₁ hj hf hp => ?_) hr
  · obtain ⟨-, j, hj, hle, h'⟩ := hrun
    obtain rfl : j = c' := by omega
    exact h'
  · have hpage : (k.heap.startAddress + (k.heapLen + 0x1000 * j)) / 0x1000 = heapPage (c + j) := by
      unfold heapPage
      omega
    have hstep := hp.2.allocFrame (by omega) (by omega) k.heap.supervisor (!k.heap.readonly)
    rw [hf.vm, Kernel.refOf, hf.tableOf] at hstep
    refine ⟨by omega, ?_⟩
    rw [hpage]
    exact hstep

end Framed

lemma Started.framed {k k₀ : Kernel} {b : Boot} {K : ℕ} (hlow : b.Low k K) (hfit : b.Fits)
    (hK : K < 32) (h : Started b.kernel k₀) : HeapFramed (K + 256) 256 k₀ := by
  have hcount : FRAME_COUNT = 4096 := rfl
  have hloop := hlow.frames hfit
  have hmap : k₀.map = b.kernel.map := h.map
  refine ⟨by rw [hmap]; exact hloop.tables.size, ?_, ?_, ?_, fun m hm => ?_, fun m h1 h2 => ?_⟩
  · unfold FramePrefix
    rw [hmap]
    exact hloop.marks
  · rw [h.cur]
    exact h.clone 768 (by decide)
  · rw [h.tableOf]
    exact (hlow.present (by decide)).mpr rfl
  · obtain ⟨hv, hf⟩ := hloop.mapped m hm
    rw [h.entryOf]
    exact ⟨hv, by omega⟩
  · rw [h.entryOf]
    exact hloop.empty m h1 h2

theorem alloc_terminates_one : ∃ k₀, Booted k₀ ∧
    ∃ fuel p k', Paged.alloc fuel 100 false k₀ = some (p, k') := by
  obtain ⟨b, K, k₀, hbooted, hlow, hfit, hs, hK, -⟩ := exists_started
  have hfits := hs.fits false (show 100 + 20 ≤ 0x7D000 by decide)
  have hok := hs.placeOk (show PlaceOk _ _ _ _ (100 + 20) false from
    ⟨by decide, by decide, by decide, by decide, by decide, Or.inr ⟨by decide, by decide⟩⟩)
  have hmapped : PlaceMapped 0xC008300C (headerSize k₀.mem 0xC008300C) (100 + 20) false k₀ := by
    rw [hs.big]
    exact (hs.framed hlow hfit hK).placeMapped (by decide) (by decide) (by decide) (by decide)
  exact ⟨k₀, hbooted, alloc_terminates hbooted .nil
    (allocOk_first hs.system.heap (by decide) hfits hok) (tablesOk_first hs.system.heap hfits)
    (storesMapped_first hs.system.heap hfits hmapped)⟩

/-! ### A heap that ends with its page table -/

/-- The heap ends at `e`, its last hole is at `p` with `s` bytes, and the other one is what the first
clone has left in front of it. -/
structure TwoHoles (p s n e : ℕ) (k : Kernel) : Prop where
  heap : ∃ blocks, HeapInv KHEAP_START [(p, TOP), (0xC0080000, 0xC0080FF4)] blocks k
  big : headerSize k.mem p = s
  small : headerSize k.mem 0xC0080000 = 0xFE8
  null : headerSize k.mem 0 = 0
  used : k.heap.index.cur ≤ n
  endAddress : k.heap.endAddress = e

section TwoHoles

variable {p s n e f : ℕ} {k : Kernel}

lemma TwoHoles.start (h : TwoHoles p s n e k) : k.heap.startAddress = 0xC0080000 := by
  obtain ⟨_, hheap⟩ := h.heap
  exact hheap.start

lemma null_of_writes {m m' : Mem} (hw : Writes m m' (Set.Ici KHEAP_START)) :
    headerSize m' 0 = headerSize m 0 := by
  have hA : KHEAP_START = 0xC0000000 := rfl
  refine hw.read32 (by decide) fun x h1 h2 hx => ?_
  have h3 : KHEAP_START ≤ x := hx
  have h4 : x < add32 0 8 + 4 := h2
  unfold add32 at h4
  omega

lemma TwoHoles.miss {size : ℕ} {pageAlign : Bool} (h : TwoHoles p s n e k) (hp : p % 2 = 0)
    (hbig : s < size + 20) (hsmall : 0xFE8 < size + 20) :
    findHoleFitFirst (size + 20) pageAlign k.heap k.mem = some none := by
  obtain ⟨_, hheap⟩ := h.heap
  refine findHole_none hheap ?_ fun x hx => ?_
  · rw [holeFits_even (by decide), h.null]
    omega
  · simp only [List.mem_cons, List.not_mem_nil, or_false] at hx
    rcases hx with rfl | rfl
    · rw [holeFits_even hp, h.big]
      omega
    · rw [holeFits_even (by decide), h.small]
      omega

lemma TwoHoles.alloc {size room t : ℕ} (fuel : ℕ) (h : TwoHoles p s n e k)
    (hf : HeapFramed f 1024 k) (hp : p % 2 = 0) (hlo : 0xC0080000 < p) (hn : size + 20 < 2 ^ 32)
    (hfit : size + 20 ≤ s) (hroom : room = blockRoom s (size + 20)) (ht : t = restSize 0 s room)
    (ht0 : t ≠ 0) (hok : PlaceOk p s e n (size + 20) false) (hin : p + room + 12 ≤ 0xC0400000)
    (hback : p + t ≤ 0xC0400000) : ∃ m a,
      Paged.alloc (fuel + 1) size false k = some (p + 12, k.retag m a) ∧
      TwoHoles (p + room) t (n + 1) e (k.retag m a) := by
  have hA : KHEAP_START = 0xC0000000 := rfl
  obtain ⟨blocks, hheap⟩ := h.heap
  have hfits : holeFits (size + 20) false k.mem p = true := by
    rw [holeFits_even hp, h.big]
    exact hfit
  have hplace : PlaceOk p s k.heap.endAddress k.heap.index.cur (size + 20) false := by
    rw [h.endAddress]
    exact hok.used h.used
  have hmapped : PlaceMapped p s (size + 20) false k := by
    have hoff : alignOffset false p = 0 := rfl
    refine hf.placeMapped le_rfl (by omega) ?_ ?_
    · rw [hoff, ← hroom]
      omega
    · rw [hoff, ← hroom, ← ht]
      omega
  rw [← h.big] at hplace hmapped
  have hpaged := @alloc_first_paged _ _ _ _ fuel _ _ _ _ hheap hn hfits hplace hmapped
  rw [h.big] at hplace
  obtain ⟨m, a, hal, h', hrest, -, hother, hw, hcur⟩ := @alloc_first _ _ _ _ 0 room t _ fuel _ _ _ _
    hheap hn h.big.symm rfl hroom ht hfits hplace
  unfold placedHoles at h'
  rw [if_neg ht0] at h'
  refine ⟨m, a, hpaged.trans hal, ⟨⟨_, h'⟩, hrest ht0, ?_, ?_, ?_, h.endAddress⟩⟩
  · exact (hother (0xC0080000, 0xC0080FF4) (by simp) hlo.ne).trans h.small
  · exact (null_of_writes hw).trans h.null
  · exact hcur.trans (Nat.add_le_add_right h.used 1)

/-- **The last hole is extended**, up to the last bytes of the page table. -/
lemma TwoHoles.grow (h : TwoHoles 0xC008300C 0x7D000 n 0xC0100000 k) (hf : HeapFramed f 256 k)
    (hn : f + 768 ≤ FRAME_COUNT) : ∃ k₁, OnlyFrames k k₁ ∧ HeapFramed (f + 768) 1024 k₁ ∧
      ∃ m, Paged.alloc 2 0x2FFFDC false k =
          Paged.alloc 1 0x2FFFDC false ((k₁.setEnd 0xC03FFFF0).retag m k₁.heap.index) ∧
        TwoHoles 0xC008300C 0x37CFF0 n 0xC03FFFF0
          ((k₁.setEnd 0xC03FFFF0).retag m k₁.heap.index) := by
  have hN : HEAP_INDEX_SIZE = 0x20000 := rfl
  have hstart := h.start
  have hend := h.endAddress
  have hlen : k.heapLen = 0x80000 := by
    unfold heapLen
    rw [hend, hstart]
    decide
  have hsum : k.heap.startAddress + 0x37FFF0 = 0xC03FFFF0 := by rw [hstart]
  have hcovered : Covered k.heapLen 0x37FFF0 k := by
    intro x h1 h2
    rw [hstart, add32_eq (by omega), show (0xC0080000 + x) / 0x1000 / 1024 = 768 by omega]
    exact hf.table
  obtain ⟨k₁, hexp, ho⟩ := @expandPages_covered (Paged.mallocAp (Paged.alloc 1)) _ _ _ (by decide)
    hcovered
  have hf₁ : HeapFramed (f + 768) (256 + 768) k₁ := hf.expand hstart (by rw [hlen]) (by decide)
    (by decide) (by decide) hn hexp
  have hend₁ : k₁.heap.endAddress = 0xC0100000 := by rw [ho.heap, hend]
  have hexpand : k.expand (Paged.mallocAp (Paged.alloc 1)) (add32 k.heapLen (0x2FFFDC + 20)) =
      some (k₁.setEnd 0xC03FFFF0) := by
    have hsize : roundSize (add32 k.heapLen (0x2FFFDC + 20)) = 0x37FFF0 := by
      rw [hlen]
      decide
    have hnew : add32 k₁.heap.startAddress 0x37FFF0 = 0xC03FFFF0 := by
      rw [ho.heap, hstart]
      decide
    unfold Kernel.expand
    simp only [hsize, hexp, Option.bind_eq_bind, Option.bind_some, hnew]
    rfl
  obtain ⟨blocks, hheap⟩ := h.heap
  have hheap₁ := hheap.congr ho.mem ho.heap
  obtain ⟨m, hgrow, h₁, hs₁, hother, hw⟩ := @growHole_last KHEAP_START 0xC008300C 0x7D000 _ _ k
    0x37FFF0 0x2FFFF0 k₁ hstart (by rw [hlen]) hheap₁ (by decide) (by rw [hsum, hend₁]; decide)
    (by rw [hsum]; decide) (List.mem_cons_self ..) (by simp) (by rw [ho.mem, h.big]) (by decide)
  rw [hsum] at hgrow h₁
  have hgrown : HeapInv KHEAP_START _ _ (k₁.setEnd 0xC03FFFF0) :=
    hheap₁.setEnd (by rw [hend₁]; decide) (by decide)
  have hhigh : (k₁.setEnd 0xC03FFFF0).highestHole = 0xC008300C :=
    highestHole_eq hgrown (List.mem_cons_self ..) (by simp)
  have hmapped : GrowMapped k.heap.endAddress k.heapLen (k₁.setEnd 0xC03FFFF0) := by
    have hs : headerSize (k₁.setEnd 0xC03FFFF0).mem 0xC008300C = 0x7D000 := by
      rw [mem_setEnd, ho.mem, h.big]
    have hg : sub32 (k₁.setEnd 0xC03FFFF0).heapLen k.heapLen = 0x2FFFF0 := by
      show sub32 (sub32 0xC03FFFF0 k₁.heap.startAddress) k.heapLen = _
      rw [ho.heap, hstart, hlen]
      decide
    have hmapped {a l : ℕ} := @HeapFramed.mappedFrom _ _ _ (hf₁.setEnd 0xC03FFFF0) le_rfl a l
    unfold GrowMapped
    simp only [hhigh, hs, hg]
    rw [if_neg (by decide)]
    exact ⟨hmapped (by decide) (by decide), hmapped (by decide) (by decide)⟩
  obtain ⟨idx, hslot, hidx⟩ := highestSlot_hole hgrown
  have hpaged := (Paged.growHole_iff hslot hidx fun h0 => by rw [hhigh] at h0; cases h0).mpr
    ⟨hmapped, hgrow⟩
  refine ⟨k₁, ho, hf₁, m, Paged.alloc_grow (by decide) (h.miss (by decide) (by decide) (by decide))
    hexpand hpaged, ⟨⟨_, h₁⟩, hs₁, ?_, ?_, ?_, rfl⟩⟩
  · refine (hother (0xC0080000, 0xC0080FF4) (by simp) (by decide)).trans ?_
    rw [ho.mem, h.small]
  · refine (null_of_writes hw).trans ?_
    rw [ho.mem, h.null]
  · show k₁.heap.index.cur ≤ n
    rw [ho.heap]
    exact h.used

end TwoHoles

/-- **A page table for the page table**: frames are free and no sum wraps, and the second page that
the growth asks for is the first of a table that no hole takes. -/
theorem alloc_terminates_fails : ∃ k₀ k₁ k₂, Booted k₀ ∧
    Paged.alloc 2 0x2FFFDC false k₀ = some (0xC0083018, k₁) ∧
    Paged.alloc 1 0x7BFEC false k₁ = some (0xC0383008, k₂) ∧
    (∀ f, 0x800 ≤ f → f < FRAME_COUNT → ¬ Used k₂.map f) ∧
    k₂.heap.endAddress + 4096 + 20 < 2 ^ 32 ∧ ∀ fuel, Paged.alloc fuel 4096 true k₂ = none := by
  have hcount : FRAME_COUNT = 4096 := rfl
  obtain ⟨b, K, k₀, hbooted, hlow, hfit, hs, hK, hnull⟩ := exists_started
  have h₀ : TwoHoles 0xC008300C 0x7D000 2 0xC0100000 k₀ :=
    ⟨⟨_, hs.system.heap⟩, hs.big, hs.small, hnull, hs.used, hs.endAddress⟩
  obtain ⟨k₁, ho, hf₁, m, hgrow, h₁⟩ := h₀.grow (hs.framed hlow hfit hK) (by omega)
  have hf₂ := (hf₁.setEnd 0xC03FFFF0).retag m k₁.heap.index
  obtain ⟨m₂, a₂, hal₂, h₂⟩ := @TwoHoles.alloc _ _ _ _ _ _ 0x2FFFDC 0x2FFFF0 0x7D000 0 h₁ hf₂
    (by decide) (by decide) (by decide) (by decide) rfl rfl (by decide)
    ⟨by decide, by decide, by decide, by decide, by decide, Or.inr ⟨by decide, by decide⟩⟩
    (by decide) (by decide)
  obtain ⟨m₃, a₃, hal₃, h₃⟩ := @TwoHoles.alloc _ _ _ _ _ _ 0x7BFEC 0x7C000 0x1000 0 h₂
    (hf₂.retag m₂ a₂) (by decide) (by decide) (by decide) (by decide) rfl rfl (by decide)
    ⟨by decide, by decide, by decide, by decide, by decide, Or.inr ⟨by decide, by decide⟩⟩
    (by decide) (by decide)
  refine ⟨k₀, _, _, hbooted, hgrow.trans hal₂, hal₃, fun f h1 h2 hu => ?_, ?_, fun fuel => ?_⟩
  · have hlt := (hf₁.marks f h2).mp hu
    omega
  · rw [h₃.endAddress]
    decide
  · generalize hk : ((((k₁.setEnd 0xC03FFFF0).retag m k₁.heap.index).retag m₂ a₂).retag m₃ a₃) = k₂
      at h₃ ⊢
    have hlen : k₂.heapLen = 0x37FFF0 := by
      unfold heapLen
      rw [h₃.endAddress, h₃.start]
      decide
    have hkheap : k₂.kheap ≠ 0 := by
      rw [← hk]
      show k₁.kheap ≠ 0
      rw [ho.kheap]
      exact hs.system.kheap
    have h769 : k₂.tableOf k₂.vmPageDir 769 = 0 := by
      rw [← hk]
      show k₁.tableOf k₁.vmPageDir 769 = 0
      rw [ho.vm, ho.tableOf, hs.tableOf]
      by_contra hne
      exact absurd ((hlow.present (by decide)).mp hne) (by decide)
    have hstuck := alloc_stuck fuel k₂ hkheap (h₃.miss (by decide) (by decide) (by decide))
      (by rw [hlen]; decide) fun ht => by
        -- the second page of the growth is the first of slot 769
        have htab := ht 1 (by rw [hlen]; decide)
        rw [hlen, h₃.start] at htab
        exact htab h769
    refine Option.eq_none_iff_forall_ne_some.mpr fun r hr => ?_
    rw [Paged.alloc_refines _ _ _ _ _ hr] at hstuck
    cases hstuck

end OsImplement.Memory
