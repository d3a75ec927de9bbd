import OsImplement.Memory.Boot
import OsImplement.Memory.HeapCalls
import OsImplement.Memory.Machine

/-!
The machine that `init_paging` starts: one heap, and one clone of `vm_page_dir`, which runs.

The first clone takes the first page of the heap that a header fits in front of. So the layout of
the heap is the same after every start, whatever the memory held before.
-/

namespace OsImplement.Memory

open Lib.Word Lib.Bytes Lib.Interval Lib.Loop

/-! ### The code -/

namespace Kernel

/-- `init_paging` -/
def initPaging (fuel : ℕ) (k : Kernel) : Option Kernel := do
  let b ← k.initMapping (alloc fuel)
  let k := { b.kernel with curVmPageDir := b.kernel.vmPageDir }
  let k := k.createHeap KHEAP_START (KHEAP_START + KHEAP_INITIAL_SIZE) 0xCFFFF000 false false
  let k := { k with kheap := b.heap }
  let (dir, k) ← k.cloneDir (mallocAp (alloc fuel)) k.vmPageDir
  some { k with curVmPageDir := dir }

/-! ### The first clone -/

section Clone

variable {mallocAp : MallocAp} {k k₁ : Kernel} {newdir phy n : ℕ} {D : PageDir}

/-- A clone of `vm_page_dir` after `n` rounds: every table is shared. -/
structure SharedClone (k₁ : Kernel) (phy n : ℕ) (D : PageDir) : Prop where
  dirPhy : D.pageDirPhy = phy
  done : ∀ i < n, D.pageTable i = k₁.tableOf k₁.vmPageDir i
  rest : ∀ i, n ≤ i → D.pageTable i = 0

lemma SharedClone.step (h : SharedClone k₁ phy n D) (hne : newdir ≠ k₁.vmPageDir) :
    ∃ D', cloneSlot mallocAp k₁.vmPageDir newdir (k₁.setDir newdir D) n =
      some (k₁.setDir newdir D') ∧ SharedClone k₁ phy (n + 1) D' := by
  have hsrc (i : ℕ) : (k₁.setDir newdir D).tableOf k₁.vmPageDir i = k₁.tableOf k₁.vmPageDir i := by
    show (Function.update k₁.dirs newdir D k₁.vmPageDir).pageTable i = _
    rw [Function.update_of_ne hne.symm, tableOf]
  unfold cloneSlot
  rw [hsrc]
  by_cases h0 : k₁.tableOf k₁.vmPageDir n = 0
  · rw [if_pos h0]
    refine ⟨D, rfl, h.dirPhy, fun i hi => ?_, fun i hi => h.rest i (by omega)⟩
    rcases Nat.lt_succ_iff_lt_or_eq.mp hi with hi | rfl
    · exact h.done i hi
    · rw [h.rest i le_rfl, h0]
  · rw [if_neg h0, if_pos (show (k₁.setDir newdir D).tableOf (k₁.setDir newdir D).vmPageDir n =
      k₁.tableOf k₁.vmPageDir n from hsrc n)]
    set D' : PageDir := { D with
      pageTable := Function.update D.pageTable n (k₁.tableOf k₁.vmPageDir n)
      pageTablePhy := Function.update D.pageTablePhy n
        (((k₁.setDir newdir D).dirs k₁.vmPageDir).pageTablePhy n) } with hD'
    refine ⟨D', ?_, h.dirPhy, fun i hi => ?_, fun i hi => ?_⟩
    · simp [setSlot, setDir, hD']
    · by_cases hin : i = n
      · rw [hin]
        exact Function.update_self _ _ _
      · exact (Function.update_of_ne hin _ _).trans (h.done i (by omega))
    · exact (Function.update_of_ne (by omega) _ _).trans (h.rest i (by omega))

/-- **A clone of `vm_page_dir` shares every table.** -/
lemma cloneDir_vm (hm : mallocAp 8196 k = some (newdir, phy, k₁))
    (hne : newdir ≠ k₁.vmPageDir) : ∃ D,
      k.cloneDir mallocAp k₁.vmPageDir = some (newdir, k₁.setDir newdir D) ∧
      SharedClone k₁ (add32 phy 0x1000) 1024 D := by
  have hloop := foldlM_range_some (f := cloneSlot mallocAp k₁.vmPageDir newdir)
    (P := fun n t => ∃ D, t = k₁.setDir newdir D ∧ SharedClone k₁ (add32 phy 0x1000) n D)
    (s := k₁.setDir newdir { PageDir.zero with pageDirPhy := add32 phy 0x1000 }) (N := 1024)
    ⟨_, rfl, rfl, fun i hi => absurd hi (by omega), fun _ _ => rfl⟩ ?_
  · obtain ⟨k', hf, D, rfl, hD⟩ := hloop
    refine ⟨D, ?_, hD⟩
    unfold cloneDir
    simp only [hm, Option.bind_eq_bind, Option.bind_some, hf]
  · rintro n - t ⟨D, rfl, hD⟩
    obtain ⟨D', hstep, hD'⟩ := @SharedClone.step mallocAp _ _ _ _ _ hD hne
    exact ⟨_, hstep, D', rfl, hD'⟩

end Clone

/-! ### After the mapping loops -/

section Boot

variable {vm K : ℕ} {S : Set ℕ} {k : Kernel} {b : Boot}

lemma BootTables.mapHeapPages (h : BootTables vm S k) (hS : 768 ∈ S) :
    BootTables vm S k.mapHeapPages ∧ k.mapHeapPages.mem = k.mem := by
  refine foldl_range_inv (P := fun _ (k' : Kernel) => BootTables vm S k' ∧ k'.mem = k.mem)
    ⟨h, rfl⟩ fun n hn k' ⟨hb, hm⟩ => ?_
  have hn : n < 256 := hn
  obtain ⟨haddr, hidx⟩ := heapPage_addr (show n < 1024 by omega)
  rw [hb.vmDir, lookupPage_present hb (by rw [haddr, hidx]; exact hS)]
  exact ⟨hb.allocFrame, hm⟩

end Boot

end Kernel

open Kernel

/-- The frames suffice for the kernel with its page tables and for the initial heap. -/
def Boot.Fits (b : Boot) : Prop :=
  (b.kernel.placementAddress + (PAGE_SIZE - 1)) / PAGE_SIZE + KHEAP_INITIAL_SIZE / PAGE_SIZE ≤
    FRAME_COUNT

/-- What the mapping loops leave, in memory that holds the kernel. -/
structure Boot.Low (k : Kernel) (K : ℕ) (b : Boot) : Prop where
  tables : BootTables b.kernel.vmPageDir (tablesBefore K) b.kernel
  bound : K < 5000
  place : b.kernel.placementAddress ≤ 0x1000 * K
  pace : 0x1000 * K < b.kernel.placementAddress + 0x1000
  upper : b.kernel.placementAddress ≤ k.placementAddress + 0x10000 + 0x2000 * ((K + 1023) / 1024)
  dir : b.kernel.vmPageDir + 8196 ≤ b.heap
  heap : b.heap + 32 ≤ b.kernel.placementAddress
  mem : b.kernel.mem = k.mem
  frames : b.Fits → HeapLoop b.kernel.vmPageDir K 256 b.kernel.placementAddress (tablesBefore K)
    b.kernel

lemma initMapping_low {alloc : HeapAlloc} {k : Kernel} {b : Boot} (h0 : k.kheap = 0)
    (hP : k.placementAddress ≤ MEMORY_SIZE) (hb : k.initMapping alloc = some b) :
    ∃ K, b.Low k K := by
  have hM : MEMORY_SIZE = 0x1000000 := rfl
  obtain ⟨frames, heap, vm, k', hstart, -, hframes, hdir, htop, hmem, hinit⟩ :=
    initMapping_start alloc h0 hP
  obtain ⟨k'', K, hmap, hl, hend, hmem'⟩ :=
    hstart.mapLow alloc (by omega) (2 ^ 20 + 1) 0 k' (by omega) (by omega)
  obtain rfl := Option.some.inj (hb.symm.trans (hinit k'' hmap))
  obtain ⟨hbt, hmem''⟩ := hl.tables.mapHeapPages (Or.inl rfl)
  have hplace := placementAddress_mapHeapPages k''
  have hvm := hbt.vmDir
  have hupper := hl.upper
  have hlower := hl.lower
  have hpace := hl.pace
  have hloop (hfit : K + 256 ≤ FRAME_COUNT) := hl.heapLoop hfit
  rw [← hplace] at hloop
  generalize k''.mapHeapPages = k₃ at hbt hmem'' hplace hvm hloop ⊢
  subst hvm
  refine ⟨K, hbt, by omega, hplace.trans_le hend, hpace.trans_eq (by rw [← hplace]), ?_, hdir,
    hlower.trans_eq hplace.symm, hmem''.trans (hmem'.trans hmem), fun hfit => hloop ?_⟩
  · show k₃.placementAddress ≤ _
    omega
  · have hfit : (k₃.placementAddress + (0x1000 - 1)) / 0x1000 + 0x100000 / 0x1000 ≤ FRAME_COUNT :=
      hfit
    omega

/-! ### The start -/

/-- The machine when `init_paging` has returned: `b` is the kernel behind its mapping loops. The
clone has the page at `0xC0081000`, a hole of one page is left in front of it, and the rest of the
heap is the hole behind it. -/
structure Started (b k : Kernel) : Prop where
  system : System KHEAP_START [(0xC008300C, TOP), (0xC0080000, 0xC0080FF4)]
    [(0xC0081000, 0xC0081000 + 8196)] ⟨k, [0xC0081000]⟩
  endAddress : k.heap.endAddress = 0xC0100000
  used : k.heap.index.cur ≤ 2
  big : headerSize k.mem 0xC008300C = 0x7D000
  small : headerSize k.mem 0xC0080000 = 0xFE8
  cur : k.curVmPageDir = 0xC0081000
  clone : ∀ i < 1024, k.tableOf 0xC0081000 i = k.tableOf k.vmPageDir i
  vm : k.vmPageDir = b.vmPageDir
  dir : k.dirs b.vmPageDir = b.dirs b.vmPageDir
  tables : k.tables = b.tables
  map : k.map = b.map
  mem : ∀ x < KHEAP_START, k.mem x = b.mem x

theorem initPaging_started {k : Kernel} (h0 : k.kheap = 0) (hP : k.placementAddress ≤ MEMORY_SIZE)
    (fuel : ℕ) : ∃ b K k₀, k.initMapping (alloc (fuel + 1)) = some b ∧ b.Low k K ∧
      k.initPaging (fuel + 1) = some k₀ ∧ Started b.kernel k₀ := by
  have hN : HEAP_INDEX_SIZE = 0x20000 := rfl
  have hA : KHEAP_START = 0xC0000000 := rfl
  obtain ⟨b, hb⟩ := (initMapping_mapped (alloc (fuel + 1)) k h0).1 hP
  obtain ⟨K, hlow⟩ := initMapping_low h0 hP hb
  have hbound := hlow.bound
  have hplace := hlow.place
  have hdir := hlow.dir
  have hheap := hlow.heap
  set kb : Kernel := { b.kernel with curVmPageDir := b.kernel.vmPageDir } with hkb
  obtain ⟨h₁, hsize, -, hend, hcur, hw₁⟩ := @heapInv_createHeap KHEAP_START
    (KHEAP_START + KHEAP_INITIAL_SIZE) 0xCFFFF000 false false kb (by decide) (by decide) (by decide)
    (by decide)
  set k₁ := kb.createHeap KHEAP_START (KHEAP_START + KHEAP_INITIAL_SIZE) 0xCFFFF000 false false
    with hk₁
  set k₂ : Kernel := { k₁ with kheap := b.heap } with hk₂
  have h₂ : HeapInv KHEAP_START [(0xC0080000, TOP)] [] k₂ := h₁.congr rfl rfl
  have hs₂ : headerSize k₂.mem 0xC0080000 = 0x80000 := hsize
  have hend₂ : k₂.heap.endAddress = 0xC0100000 := hend
  have hcur₂ : k₂.heap.index.cur = 1 := hcur
  have hfit : holeFits (8196 + 20) true k₂.mem 0xC0080000 = true := by
    rw [holeFits_even (by decide), hs₂]
    decide
  have hok : PlaceOk 0xC0080000 0x80000 k₂.heap.endAddress k₂.heap.index.cur (8196 + 20) true := by
    rw [hend₂, hcur₂]
    exact ⟨by decide, by decide, by decide, by decide, by decide, by decide⟩
  obtain ⟨m, a, hal, h₃, hrest, hfront, -, hw₃, hcur₃⟩ := @alloc_first _ _ _ _ 0xFF4 0x2018 0x7D000
    _ fuel _ _ _ _ h₂ (by decide) hs₂.symm rfl rfl rfl hfit hok
  obtain ⟨phy, hm⟩ := mallocAp_some (show k₂.kheap ≠ 0 by show b.heap ≠ 0; omega) hal
  have hvm : b.kernel.vmPageDir < KHEAP_START := by omega
  have hne : b.kernel.vmPageDir ≠ 0xC0081000 := by omega
  obtain ⟨D, hclone, hD⟩ := cloneDir_vm hm hne.symm
  set k₄ := (k₂.retag m a).setDir 0xC0081000 D with hk₄
  have hshare : ∀ i < 1024, k₄.tableOf 0xC0081000 i = k₄.tableOf b.kernel.vmPageDir i := by
    intro i hi
    have hnew : k₄.dirs 0xC0081000 = D := by simp [hk₄, setDir]
    have hold : k₄.dirs b.kernel.vmPageDir = b.kernel.dirs b.kernel.vmPageDir :=
      Function.update_of_ne hne _ _
    rw [tableOf, hnew, hD.done i hi, tableOf, tableOf, hold]
    rfl
  refine ⟨b, K, { k₄ with curVmPageDir := 0xC0081000 }, hb, hlow, ?_, ⟨⟨h₃.congr rfl rfl, ?_, hvm,
    List.mem_singleton.mpr rfl, ?_, ?_⟩, hend₂, ?_, hrest (by decide), hfront (by decide), rfl,
    hshare, rfl, Function.update_of_ne hne _ _, rfl, rfl, fun x hx => ?_⟩⟩
  · unfold initPaging
    simp only [hb, Option.bind_eq_bind, Option.bind_some]
    rw [← hkb, ← hk₁, ← hk₂]
    exact congrArg (fun r => r.bind fun x => some { x.2 with curVmPageDir := x.1 }) hclone
  · show b.heap ≠ 0
    omega
  · intro d hd
    obtain rfl := List.mem_singleton.mp hd
    exact List.mem_singleton.mpr rfl
  · intro d hd i hi
    obtain rfl := List.mem_singleton.mp hd
    exact bootTable_congr (hshare i hi)
  · rw [hcur₂] at hcur₃
    exact hcur₃
  · show m x = b.kernel.mem x
    rw [hw₃ fun h => absurd h (by simpa using hx), ← hw₁ fun h => absurd h (by simpa using hx)]

lemma initPaging_zero {k : Kernel} (h0 : k.kheap = 0) (hP : k.placementAddress ≤ MEMORY_SIZE) :
    k.initPaging 0 = none := by
  obtain ⟨b, hb⟩ := (initMapping_mapped (alloc 0) k h0).1 hP
  obtain ⟨K, hlow⟩ := initMapping_low h0 hP hb
  have hdir := hlow.dir
  have hkheap : b.heap ≠ 0 := by omega
  unfold initPaging
  simp only [hb, Option.bind_eq_bind, Option.bind_some]
  simp [cloneDir, mallocAp, malloc, hkheap, alloc]

/-- **A machine that `init_paging` has started**, with the kernel in the memory of the machine and
frames enough. -/
def Booted (k₀ : Kernel) : Prop :=
  ∃ (k : Kernel) (fuel : ℕ) (b : Boot), k.kheap = 0 ∧ k.placementAddress ≤ MEMORY_SIZE ∧
    k.initMapping (alloc fuel) = some b ∧ b.Fits ∧ k.initPaging fuel = some k₀

lemma Booted.started {k₀ : Kernel} (h : Booted k₀) :
    ∃ (k : Kernel) (b : Boot) (K : ℕ), b.Low k K ∧ b.Fits ∧ Started b.kernel k₀ := by
  obtain ⟨k, fuel, b, h0, hP, hb, hfit, hinit⟩ := h
  cases fuel with
  | zero => simp [initPaging_zero h0 hP] at hinit
  | succ fuel =>
    obtain ⟨b', K, k₀', hb', hlow, hr, hs⟩ := initPaging_started h0 hP fuel
    obtain rfl := Option.some.inj (hr.symm.trans hinit)
    obtain rfl := Option.some.inj (hb'.symm.trans hb)
    exact ⟨k, b', K, hlow, hfit, hs⟩

section Pages

variable {b k : Kernel}

lemma Started.tableOf (h : Started b k) (i : ℕ) :
    k.tableOf k.vmPageDir i = b.tableOf b.vmPageDir i := by
  rw [h.vm, Kernel.tableOf, h.dir, Kernel.tableOf]

lemma Started.entryOf (h : Started b k) (p : ℕ) :
    k.entryOf k.vmPageDir p = b.entryOf b.vmPageDir p := by
  rw [Kernel.entryOf, h.tableOf, h.tables, Kernel.entryOf]

lemma Started.heapLen_eq (h : Started b k) : k.heapLen = 0x80000 := by
  have hstart : k.heap.startAddress = 0xC0080000 := h.system.heap.start
  unfold heapLen
  rw [h.endAddress, hstart]
  decide

lemma Started.fits {n : ℕ} (h : Started b k) (pageAlign : Bool) (hn : n ≤ 0x7D000) :
    holeFits n pageAlign k.mem 0xC008300C = true := by
  rw [holeFits_even (by decide), h.big]
  exact hn

lemma Started.placeOk {n : ℕ} {pageAlign : Bool} (h : Started b k)
    (hok : PlaceOk 0xC008300C 0x7D000 0xC0100000 2 n pageAlign) :
    PlaceOk 0xC008300C (headerSize k.mem 0xC008300C) k.heap.endAddress k.heap.index.cur n
      pageAlign := by
  rw [h.big, h.endAddress]
  exact hok.used h.used

lemma Started.lastHole (h : Started b k) :
    LastHole KHEAP_START 0xC008300C 0x7D000 2 0xC0100000 k :=
  ⟨⟨_, _, h.system.heap⟩, h.big, h.used, h.endAddress⟩

lemma Started.miss {n : ℕ} (h : Started b k) (hnull : read32 k.mem 8 = 0) (hn : 0x7D000 < n) :
    findHoleFitFirst n false k.heap k.mem = some none := by
  have hsize (p : ℕ) : holeFits n false k.mem p = true ↔ n ≤ headerSize k.mem p := by
    simp [holeFits]
  refine findHole_none h.system.heap ?_ fun x hx => ?_
  · rw [hsize, show headerSize k.mem 0 = 0 from hnull]
    omega
  · simp only [List.mem_cons, List.not_mem_nil, or_false] at hx
    rw [hsize]
    rcases hx with rfl | rfl
    · rw [h.big]
      omega
    · rw [h.small]
      omega

end Pages

lemma Boot.Low.present {k : Kernel} {b : Boot} {K i : ℕ} (h : b.Low k K) (hi : 5 ≤ i) :
    b.kernel.tableOf b.kernel.vmPageDir i ≠ 0 ↔ i = 768 := by
  have hbound := h.bound
  rw [h.tables.present, mem_tablesBefore]
  omega

lemma Boot.Low.table_lt {k : Kernel} {b : Boot} {K : ℕ} (h : b.Low k K) (i : ℕ) :
    b.kernel.tableOf b.kernel.vmPageDir i < KHEAP_START := by
  have hA : KHEAP_START = 0xC0000000 := rfl
  by_cases h0 : b.kernel.tableOf b.kernel.vmPageDir i = 0
  · omega
  · have hbelow := h.tables.below i ((h.tables.present i).mp h0)
    have hplace := h.place
    have hbound := h.bound
    omega

/-- There is such a machine, with zeroes at NULL and most of the frames free. -/
lemma exists_started : ∃ (b : Boot) (K : ℕ) (k₀ : Kernel), Booted k₀ ∧ b.Low freeFrom0x2000 K ∧
    b.Fits ∧ Started b.kernel k₀ ∧ K < 32 ∧ read32 k₀.mem 8 = 0 := by
  obtain ⟨b, K, k₀, hb, hlow, hinit, hs⟩ :=
    @initPaging_started freeFrom0x2000 rfl (by decide) 0
  have hA : KHEAP_START = 0xC0000000 := rfl
  have hpace := hlow.pace
  have hbound := hlow.bound
  have hupper : b.kernel.placementAddress ≤ 0x2000 + 0x10000 + 0x2000 * ((K + 1023) / 1024) :=
    hlow.upper
  have hfit : b.Fits := by
    show (b.kernel.placementAddress + (0x1000 - 1)) / 0x1000 + 0x100000 / 0x1000 ≤ 4096
    omega
  refine ⟨b, K, k₀, ⟨freeFrom0x2000, 1, b, rfl, by decide, hb, hfit, hinit⟩, hlow, hfit, hs,
    by omega, ?_⟩
  have hmem : read32 k₀.mem 8 = read32 freeFrom0x2000.mem 8 :=
    read32_congr fun i hi => by rw [hs.mem _ (by omega), hlow.mem]
  rw [hmem]
  decide

lemma exists_booted : ∃ k₀, Booted k₀ ∧ read32 k₀.mem 8 = 0 := by
  obtain ⟨b, K, k₀, hbooted, -, -, -, -, hnull⟩ := exists_started
  exact ⟨k₀, hbooted, hnull⟩

end OsImplement.Memory
