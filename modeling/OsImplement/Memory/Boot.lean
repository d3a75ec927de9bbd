import OsImplement.Memory.Paging
import OsImplement.Lib.Loop

/-!
The mapping loops of `init_paging`.

Nothing in the code says that low memory is mapped to itself. It comes out so because the first
free frame is always the one with the number of the page: the bitmap is a prefix of ones, and each
round of the loop marks the next frame and maps the next page to it. The bound of the loop moves
while it runs, since `get_page` takes new page tables from `placement_address`.
-/

namespace OsImplement.Memory

open Lib.Word Lib.Loop

/-! ### The code -/

def MEMORY_SIZE : ℕ := 0x1000000

def PAGE_SIZE : ℕ := 0x1000

def FRAME_COUNT : ℕ := MEMORY_SIZE / PAGE_SIZE

def KHEAP_START : ℕ := 0xC0000000

def KHEAP_INITIAL_SIZE : ℕ := 0x100000

/-- What the first part of `init_paging` leaves: the addresses of the bitmap and of the `heap_t`
record, and the state. -/
structure Boot where
  frames : ℕ
  heap : ℕ
  kernel : Kernel

namespace Kernel

/-- `memset(frames, 0, frames_bitmap_size)` -/
def clearFrames (k : Kernel) (size : ℕ) : Kernel :=
  { k with map := ⟨fun i => if i < size then 0 else k.map.frames i, size⟩ }

/-- `vm_page_dir`, zeroed, with the physical address of its second array. -/
def newVmPageDir (k : Kernel) (vm : ℕ) : Kernel :=
  { k.setDir vm { PageDir.zero with pageDirPhy := add32 vm 0x1000 } with vmPageDir := vm }

/-- The loop that asks for the pages of the initial heap. -/
def makeHeapPages (alloc : HeapAlloc) (k : Kernel) : Option Kernel :=
  (List.range (KHEAP_INITIAL_SIZE / PAGE_SIZE)).foldlM (fun k n =>
    (k.getPage (mallocAp alloc) (KHEAP_START + PAGE_SIZE * n) true k.vmPageDir).map Prod.snd) k

/-- The loop over the pages below `placement_address`; `none` when it does not end. -/
def mapLow (alloc : HeapAlloc) : ℕ → ℕ → Kernel → Option Kernel
  | 0, _, _ => none
  | fuel + 1, i, k =>
    if i < k.placementAddress then do
      let (page, k) ← k.getPage (mallocAp alloc) i true k.vmPageDir
      mapLow alloc fuel (add32 i PAGE_SIZE) (k.allocFrame page false true)
    else some k

/-- The loop that backs the pages of the initial heap. -/
def mapHeapPages (k : Kernel) : Kernel :=
  (List.range (KHEAP_INITIAL_SIZE / PAGE_SIZE)).foldl (fun k n =>
    k.allocFrame (k.lookupPage (KHEAP_START + PAGE_SIZE * n) k.vmPageDir) false true) k

/-- `init_paging`, up to the end of its mapping loops. All addresses are below `2 ^ 32`, so a
loop over pages that is not done after `2 ^ 20` rounds starts over and never ends. -/
def initMapping (alloc : HeapAlloc) (k : Kernel) : Option Boot := do
  let (frames, _, k) ← k.malloc alloc (FRAME_COUNT / 8) false
  let (vm, _, k) ← (k.clearFrames (FRAME_COUNT / 8)).malloc alloc 8196 true
  let k ← (k.newVmPageDir vm).makeHeapPages alloc
  let (heap, _, k) ← k.malloc alloc 32 false
  let k ← mapLow alloc (2 ^ 20 + 1) 0 k
  some ⟨frames, heap, k.mapHeapPages⟩

/-! ### Translations -/

/-- The physical address behind `addr`, by the walk of `get_page`. -/
def translate (k : Kernel) (dir addr : ℕ) : Option ℕ :=
  match lookupPage addr dir k with
  | some r =>
    let p := k.page (some r)
    if p.valid then some (p.frame * 0x1000 + addr % 0x1000) else none
  | none => none

/-- The physical address behind `addr`, by the walk of the processor through the physical
addresses of the tables. -/
def walk (k : Kernel) (dir addr : ℕ) : Option ℕ :=
  let pde := (k.dirs dir).pageTablePhy (addr / 0x400000)
  if pde &&& 1 = 0 then none
  else
    let p := k.tables (pde &&& 0xFFFFF000) (addr / 0x1000 % 1024)
    if p.valid then some (p.frame * 0x1000 + addr % 0x1000) else none

/-! ### The bytes of memory, until the heap is set up -/

section Bytes

variable {alloc : HeapAlloc} {k k' : Kernel} {size a phy addr dir : ℕ} {isAlign : Bool}
  {r : Option PageRef}

lemma malloc_boot (h0 : k.kheap = 0) (hm : k.malloc alloc size isAlign = some (a, phy, k')) :
    k'.kheap = 0 ∧ k'.mem = k.mem ∧ k'.heap = k.heap := by
  unfold malloc at hm
  rw [if_pos h0] at hm
  simp only [Option.some.injEq, Prod.mk.injEq] at hm
  obtain ⟨-, -, rfl⟩ := hm
  exact ⟨h0, rfl, rfl⟩

lemma getPage_boot (h0 : k.kheap = 0)
    (hr : k.getPage (mallocAp alloc) addr true dir = some (r, k')) :
    k'.kheap = 0 ∧ k'.mem = k.mem ∧ k'.heap = k.heap ∧ ∃ r', r = some r' := by
  unfold getPage at hr
  split at hr
  · simp only [Option.some.injEq, Prod.mk.injEq] at hr
    obtain ⟨rfl, rfl⟩ := hr
    exact ⟨h0, rfl, rfl, _, rfl⟩
  · simp only [if_true, Option.bind_eq_bind, Option.bind_eq_some_iff, Prod.exists,
      Option.some.injEq, Prod.mk.injEq] at hr
    obtain ⟨t, phy, k₁, hm, rfl, rfl⟩ := hr
    obtain ⟨h1, h2, h3⟩ := malloc_boot h0 hm
    exact ⟨h1, h2, h3, _, rfl⟩

lemma makeHeapPages_boot (h0 : k.kheap = 0) (hr : k.makeHeapPages alloc = some k') :
    k'.kheap = 0 ∧ k'.mem = k.mem := by
  refine foldlM_range_inv (P := fun _ (k' : Kernel) => k'.kheap = 0 ∧ k'.mem = k.mem) ⟨h0, rfl⟩
    (fun n _ t t' ⟨h1, h2⟩ ht => ?_) hr
  obtain ⟨⟨r, t'⟩, hg, rfl⟩ := Option.map_eq_some_iff.mp ht
  obtain ⟨h1', h2', -⟩ := getPage_boot h1 hg
  exact ⟨h1', h2'.trans h2⟩

end Bytes

/-! ### Page tables taken from `placement_address` -/

/-- Before the heap is set up, `vm_page_dir` has tables at the indexes `S`: aligned, below
`placement_address`, no two the same, and with their true physical addresses. -/
structure BootTables (vm : ℕ) (S : Set ℕ) (k : Kernel) : Prop where
  kheap : k.kheap = 0
  vmDir : k.vmPageDir = vm
  dirPhy : (k.dirs vm).pageDirPhy = vm + 0x1000
  present : ∀ i, k.tableOf vm i ≠ 0 ↔ i ∈ S
  below : ∀ i ∈ S, k.tableOf vm i + 0x1000 ≤ k.placementAddress
  aligned : ∀ i ∈ S, k.tableOf vm i % 0x1000 = 0
  phy : ∀ i ∈ S, (k.dirs vm).pageTablePhy i = k.tableOf vm i ||| 7
  inj : ∀ i ∈ S, ∀ i' ∈ S, k.tableOf vm i = k.tableOf vm i' → i = i'
  size : k.map.framesBitmapSize = FRAME_COUNT / 8

/-- The entry of page `p`. -/
def entryOf (k : Kernel) (vm p : ℕ) : PageStruct := k.tables (k.tableOf vm (p / 1024)) (p % 1024)

section Tables

variable {vm : ℕ} {S : Set ℕ} {k k' : Kernel} {addr p : ℕ}

/-- The pointer to the entry of page `p`. -/
def refOf (k : Kernel) (vm p : ℕ) : PageRef := ⟨k.tableOf vm (p / 1024), p % 1024⟩

lemma lookupPage_present (h : BootTables vm S k) (hp : addr / 0x1000 / 1024 ∈ S) :
    k.lookupPage addr vm = some (k.refOf vm (addr / 0x1000)) :=
  if_pos ((h.present _).mpr hp)

lemma getPage_present (alloc : HeapAlloc) (h : BootTables vm S k) (hp : addr / 0x1000 / 1024 ∈ S) :
    k.getPage (mallocAp alloc) addr true vm = some (some (k.refOf vm (addr / 0x1000)), k) := by
  unfold getPage
  rw [lookupPage_present h hp]

lemma getPage_absent (alloc : HeapAlloc) (h : BootTables vm S k) (hp : addr / 0x1000 / 1024 ∉ S)
    (hpos : 0 < k.placementAddress) (htop : k.placementAddress + 0x2000 < 2 ^ 32) :
    ∃ k', k.getPage (mallocAp alloc) addr true vm =
        some (some (k'.refOf vm (addr / 0x1000)), k') ∧
      BootTables vm (insert (addr / 0x1000 / 1024) S) k' ∧
      k.placementAddress ≤ k'.placementAddress ∧
      k'.placementAddress ≤ k.placementAddress + 0x2000 ∧ k'.map = k.map ∧
      (∀ p, p / 1024 ∈ S → k'.entryOf vm p = k.entryOf vm p) ∧
      ∀ p, p / 1024 = addr / 0x1000 / 1024 → k'.entryOf vm p = .zero := by
  set i := addr / 0x1000 / 1024 with hi
  set t := k.place true with ht
  have hle : k.placementAddress ≤ t := le_place
  have hlt : t < k.placementAddress + 0x1000 := place_lt
  set k₁ : Kernel := { k with placementAddress := t + 4096 } with hk₁
  set k' := (k₁.setSlot vm i t (t ||| 7)).setTable t fun _ => .zero with hk'
  have hnone : k.lookupPage addr vm = none :=
    if_neg fun hne => hp ((h.present _).mp hne)
  have htab (i' : ℕ) : k'.tableOf vm i' = if i' = i then t else k.tableOf vm i' := by
    have h1 : (k₁.setSlot vm i t (t ||| 7)).tableOf vm i' =
        if vm = vm ∧ i' = i then t else k₁.tableOf vm i' := tableOf_setSlot
    simp only [true_and] at h1
    exact h1
  have hphy (i' : ℕ) : (k'.dirs vm).pageTablePhy i' =
      if i' = i then t ||| 7 else (k.dirs vm).pageTablePhy i' := by
    simp [hk', hk₁, setSlot, setDir, Function.update_apply]
  have hneS {i' : ℕ} (hS : i' ∈ S) : i' ≠ i := fun e => hp (e ▸ hS)
  have hold {i' : ℕ} (hS : i' ∈ S) : k'.tableOf vm i' = k.tableOf vm i' := by
    rw [htab, if_neg (hneS hS)]
  have hlow {i' : ℕ} (hS : i' ∈ S) : k.tableOf vm i' ≠ t := by
    have := h.below i' hS
    omega
  refine ⟨k', ?_, ⟨h.kheap, h.vmDir, ?_, ?_, ?_, ?_, ?_, ?_, h.size⟩, ?_, ?_, rfl, ?_, ?_⟩
  · unfold getPage
    rw [hnone]
    simp only [mallocAp, malloc_place h.kheap (show k.placementAddress + 0x1000 + 4096 < 2 ^ 32 by omega),
      if_true, Option.bind_eq_bind, Option.bind_some]
    rw [refOf, htab, if_pos rfl]
  · have hd := h.dirPhy
    simpa [hk', hk₁, setSlot, setDir] using hd
  · intro i'
    rw [htab, Set.mem_insert_iff]
    split_ifs with e
    · exact iff_of_true (by omega) (Or.inl e)
    · rw [h.present]
      exact ⟨Or.inr, fun h => h.resolve_left e⟩
  · rintro i' (rfl | hS)
    · rw [htab, if_pos rfl]
      exact le_rfl
    · rw [hold hS]
      have := h.below i' hS
      show _ ≤ t + 4096
      omega
  · rintro i' (rfl | hS)
    · rw [htab, if_pos rfl]
      exact place_aligned
    · rw [hold hS]
      exact h.aligned i' hS
  · rintro i' (rfl | hS)
    · rw [hphy, if_pos rfl, htab, if_pos rfl]
    · rw [hold hS, hphy, if_neg (hneS hS)]
      exact h.phy i' hS
  · rintro i₁ (rfl | h₁) i₂ (rfl | h₂) he
    · rfl
    · rw [hold h₂, htab, if_pos rfl] at he
      exact absurd he.symm (hlow h₂)
    · rw [hold h₁, htab, if_pos rfl] at he
      exact absurd he (hlow h₁)
    · rw [hold h₁, hold h₂] at he
      exact h.inj i₁ h₁ i₂ h₂ he
  · show k.placementAddress ≤ t + 4096
    omega
  · show t + 4096 ≤ k.placementAddress + 0x2000
    omega
  · intro p hpS
    rw [entryOf, hold hpS, hk', tables_setTable, if_neg (hlow hpS), entryOf]
    rfl
  · intro p hpi
    rw [entryOf, htab, if_pos hpi, hk', tables_setTable, if_pos rfl]

end Tables

/-! ### The prefix of frames -/

/-- The frames below `n` are marked, and no others. -/
def FramePrefix (n : ℕ) (k : Kernel) : Prop := ∀ f < FRAME_COUNT, Used k.map f ↔ f < n

/-- Page `p` is valid and lies in frame `f`. -/
def MapsTo (k : Kernel) (vm p f : ℕ) : Prop :=
  (k.entryOf vm p).valid = true ∧ (k.entryOf vm p).frame = f

section Frames

variable {vm n p q : ℕ} {S : Set ℕ} {k : Kernel}

lemma BootTables.allocFrame {r : PageRef} {isKernel isWritable : Bool} (h : BootTables vm S k) :
    BootTables vm S (k.allocFrame (some r) isKernel isWritable) := by
  refine ⟨h.kheap, h.vmDir, h.dirPhy, h.present, h.below, h.aligned, h.phy, h.inj, ?_⟩
  have hsize : (Memory.allocFrame (k.page (some r)) isKernel isWritable k.map).2.framesBitmapSize =
      k.map.framesBitmapSize := by
    unfold Memory.allocFrame
    split <;> rfl
  exact hsize.trans h.size

lemma BootTables.ref_inj (h : BootTables vm S k) (hp : p / 1024 ∈ S) (hq : q / 1024 ∈ S)
    (he : k.tableOf vm (q / 1024) = k.tableOf vm (p / 1024) ∧ q % 1024 = p % 1024) : q = p := by
  have := h.inj _ hq _ hp he.1
  have := he.2
  omega

lemma firstFrame_prefix (hsize : k.map.framesBitmapSize = FRAME_COUNT / 8) (hn : n < FRAME_COUNT)
    (h : FramePrefix n k) : firstFrame k.map = n ∧
      ∃ f < 8 * k.map.framesBitmapSize, ¬ Used k.map f := by
  have hcount : FRAME_COUNT = 4096 := rfl
  have hfree : ∃ f < 8 * k.map.framesBitmapSize, ¬ Used k.map f := by
    refine ⟨n, by omega, fun hu => ?_⟩
    exact absurd ((h n hn).mp hu) (by omega)
  obtain ⟨hlt, hnew, hlow⟩ := firstFrame_spec hfree
  refine ⟨?_, hfree⟩
  have h1 : ¬ firstFrame k.map < n := fun hc => hnew ((h _ (by omega)).mpr hc)
  have h2 : ¬ n < firstFrame k.map := fun hc => absurd ((h n hn).mp (hlow n hc)) (by omega)
  omega

theorem allocFrame_next {isKernel isWritable : Bool} (hb : BootTables vm S k) (hn : n < FRAME_COUNT)
    (h : FramePrefix n k) (hp : p / 1024 ∈ S) (h0 : (k.entryOf vm p).frame = 0) :
    FramePrefix (n + 1) (k.allocFrame (some (k.refOf vm p)) isKernel isWritable) ∧
      (k.allocFrame (some (k.refOf vm p)) isKernel isWritable).MapsTo vm p n ∧
      ∀ q, q / 1024 ∈ S → q ≠ p →
        (k.allocFrame (some (k.refOf vm p)) isKernel isWritable).entryOf vm q = k.entryOf vm q := by
  obtain ⟨hfirst, hfree⟩ := firstFrame_prefix hb.size hn h
  have hcount : FRAME_COUNT = 4096 := rfl
  obtain ⟨hmap, hpage⟩ := @allocFrame_free k (k.refOf vm p) isKernel isWritable
    (by rw [hb.size]; omega) h0 hfree
  rw [hfirst] at hmap hpage
  refine ⟨fun f hf => ?_, ⟨?_, ?_⟩, fun q hq hne => ?_⟩
  · rw [hmap, used_setFrame, h f hf]
    omega
  · exact congrArg PageStruct.valid hpage
  · exact congrArg PageStruct.frame hpage
  · exact tables_allocFrame_ne fun he => hne (hb.ref_inj hp hq he)

/-! ### Low memory -/

/-- The low page tables that the loop has made before round `j`, next to the table of the heap. -/
def tablesBefore (j : ℕ) : Set ℕ := {i | i = 768 ∨ i < (j + 1023) / 1024}

/-- The pages below `j` are mapped to themselves, with the first `j` frames, and the other pages
that have a table are empty. -/
structure LowMapped (vm j : ℕ) (k : Kernel) : Prop where
  marks : FramePrefix j k
  mapped : ∀ p < j, k.MapsTo vm p p
  empty : ∀ p, j ≤ p → p / 1024 ∈ tablesBefore j → (k.entryOf vm p).frame = 0

/-- The loop before round `j`, where `placement_address` was `top` at its start. As long as frames
last, low memory is mapped. -/
structure LowLoop (vm top j : ℕ) (k : Kernel) : Prop where
  tables : BootTables vm (tablesBefore j) k
  lower : top ≤ k.placementAddress
  upper : k.placementAddress ≤ top + 0x2000 * ((j + 1023) / 1024)
  pace : 0x1000 * j < k.placementAddress + 0x1000
  low : j ≤ FRAME_COUNT → LowMapped vm j k

end Frames

section Low

variable {vm top j : ℕ} {k k' : Kernel}

lemma mem_tablesBefore {i : ℕ} : i ∈ tablesBefore j ↔ i = 768 ∨ i < (j + 1023) / 1024 := Iff.rfl

lemma tablesBefore_succ (hj : j % 1024 ≠ 0) : tablesBefore (j + 1) = tablesBefore j := by
  unfold tablesBefore
  rw [show (j + 1 + 1023) / 1024 = (j + 1023) / 1024 by omega]

lemma tablesBefore_succ_new (hj : j % 1024 = 0) :
    tablesBefore (j + 1) = insert (j / 1024) (tablesBefore j) := by
  ext i
  simp only [Set.mem_insert_iff, mem_tablesBefore]
  omega

lemma LowMapped.next (hb : BootTables vm (tablesBefore (j + 1)) k) (hj : j < FRAME_COUNT)
    (hmarks : FramePrefix j k) (hmapped : ∀ p < j, k.MapsTo vm p p)
    (hempty : ∀ p, j ≤ p → p / 1024 ∈ tablesBefore (j + 1) → (k.entryOf vm p).frame = 0) :
    LowMapped vm (j + 1) (k.allocFrame (some (k.refOf vm j)) false true) := by
  have hcount : FRAME_COUNT = 4096 := rfl
  have hpast {p : ℕ} (hp : p ≤ j) : p / 1024 ∈ tablesBefore (j + 1) := Or.inr (by omega)
  obtain ⟨h1, h2, h3⟩ := allocFrame_next hb hj hmarks (hpast le_rfl) (hempty j le_rfl (hpast le_rfl))
  refine ⟨h1, fun p hp => ?_, fun p hp hS => ?_⟩
  · by_cases hpj : p = j
    · subst hpj
      exact h2
    · unfold MapsTo
      rw [h3 p (hpast (by omega)) hpj]
      exact hmapped p (by omega)
  · rw [h3 p hS (by omega)]
    exact hempty p (by omega) hS

theorem LowLoop.step (alloc : HeapAlloc) (h : LowLoop vm top j k) (hrun : 0x1000 * j < k.placementAddress)
    (hj : j < 5000) (htop : top ≤ 0x1010000) :
    ∃ page k', k.getPage (mallocAp alloc) (0x1000 * j) true vm = some (page, k') ∧
      LowLoop vm top (j + 1) (k'.allocFrame page false true) := by
  have hupper := h.upper
  have hlower := h.lower
  have hpage : 0x1000 * j / 0x1000 = j := by omega
  have hcount : FRAME_COUNT = 4096 := rfl
  by_cases hnew : j % 1024 = 0
  · have habs : 0x1000 * j / 0x1000 / 1024 ∉ tablesBefore j := by
      rw [hpage]
      rw [mem_tablesBefore]
      omega
    obtain ⟨k', hget, hb, hle, hlt, hmap, hold, hzero⟩ :=
      getPage_absent alloc h.tables habs (by omega) (by omega)
    rw [hpage] at hget hb hzero
    rw [← tablesBefore_succ_new hnew] at hb
    refine ⟨_, k', hget, hb.allocFrame, ?_, ?_, ?_, fun hlow => ?_⟩
    · show top ≤ k'.placementAddress
      omega
    · show k'.placementAddress ≤ _
      omega
    · show 0x1000 * (j + 1) < k'.placementAddress + 0x1000
      omega
    · obtain ⟨hmarks, hmapped, hempty⟩ := h.low (by omega)
      refine LowMapped.next hb (by omega) (fun f hf => by rw [hmap]; exact hmarks f hf)
        (fun p hp => ?_) (fun p hp hS => ?_)
      · unfold MapsTo
        rw [hold p (Or.inr (by omega))]
        exact hmapped p hp
      · by_cases hpj : p / 1024 = j / 1024
        · rw [hzero p hpj]
          rfl
        · have hS' : p / 1024 ∈ tablesBefore j := by
            rw [mem_tablesBefore] at hS ⊢
            omega
          rw [hold p hS']
          exact hempty p hp hS'
  · have hpres : 0x1000 * j / 0x1000 / 1024 ∈ tablesBefore j := Or.inr (by omega)
    have hget := getPage_present alloc h.tables hpres
    rw [hpage] at hget
    have hb : BootTables vm (tablesBefore (j + 1)) k := by
      rw [tablesBefore_succ hnew]
      exact h.tables
    refine ⟨_, k, hget, hb.allocFrame, hlower, ?_, ?_, fun hlow => ?_⟩
    · show k.placementAddress ≤ _
      omega
    · show 0x1000 * (j + 1) < k.placementAddress + 0x1000
      omega
    · obtain ⟨hmarks, hmapped, hempty⟩ := h.low (by omega)
      refine LowMapped.next hb (by omega) hmarks hmapped fun p hp hS => ?_
      rw [tablesBefore_succ hnew] at hS
      exact hempty p hp hS

theorem LowLoop.mapLow (alloc : HeapAlloc) (htop : top ≤ 0x1010000) : ∀ (fuel j : ℕ) (k : Kernel),
    LowLoop vm top j k → j ≤ 5000 → 5000 < fuel + j →
    ∃ k' j', k.mapLow alloc fuel (0x1000 * j) = some k' ∧ LowLoop vm top j' k' ∧
      k'.placementAddress ≤ 0x1000 * j' ∧ k'.mem = k.mem := by
  intro fuel
  induction fuel with
  | zero => exact fun j k _ h1 h2 => absurd h1 (by omega)
  | succ fuel ih =>
    intro j k h hj hfuel
    by_cases hrun : 0x1000 * j < k.placementAddress
    · have hupper := h.upper
      have hj' : j < 5000 := by omega
      obtain ⟨page, k', hget, hnext⟩ := h.step alloc hrun hj' htop
      obtain ⟨-, hmem, -, r, rfl⟩ := getPage_boot h.tables.kheap hget
      obtain ⟨k'', j', hmap, hl, hend, hmem'⟩ := ih (j + 1) _ hnext (by omega) (by omega)
      refine ⟨k'', j', ?_, hl, hend, hmem'.trans hmem⟩
      rw [Kernel.mapLow, if_pos hrun, h.tables.vmDir, hget]
      simp only [Option.bind_eq_bind, Option.bind_some]
      rw [PAGE_SIZE, add32_eq (by omega)]
      exact hmap
    · refine ⟨k, j, ?_, h, by omega, rfl⟩
      rw [Kernel.mapLow, if_neg hrun]

end Low

/-! ### The pages of the heap -/

section HeapPages

variable {vm n K : ℕ} {S : Set ℕ} {k : Kernel}

/-- Page `n` of the heap. -/
def heapPage (n : ℕ) : ℕ := 768 * 1024 + n

lemma heapPage_addr (hn : n < 1024) :
    (KHEAP_START + PAGE_SIZE * n) / 0x1000 = heapPage n ∧ heapPage n / 1024 = 768 := by
  unfold KHEAP_START PAGE_SIZE heapPage
  omega

/-- The second loop before round `n`, where low memory had taken `K` frames. -/
structure HeapLoop (vm K n top : ℕ) (S : Set ℕ) (k : Kernel) : Prop where
  tables : BootTables vm S k
  place : k.placementAddress = top
  marks : FramePrefix (K + n) k
  low : ∀ p < K, k.MapsTo vm p p
  mapped : ∀ m < n, k.MapsTo vm (heapPage m) (K + m)
  empty : ∀ m, n ≤ m → m < 1024 → (k.entryOf vm (heapPage m)).frame = 0

lemma HeapLoop.step {top : ℕ} (h : HeapLoop vm K n top S k) (hS : 768 ∈ S)
    (hlow : ∀ p < K, p / 1024 ∈ S) (hn : n < 1024) (hK : K + n < FRAME_COUNT) :
    HeapLoop vm K (n + 1) top S
      (k.allocFrame (k.lookupPage (KHEAP_START + PAGE_SIZE * n) k.vmPageDir) false true) := by
  have hcount : FRAME_COUNT = 4096 := rfl
  obtain ⟨haddr, hidx⟩ := heapPage_addr hn
  rw [h.tables.vmDir, lookupPage_present h.tables (by rw [haddr, hidx]; exact hS), haddr]
  obtain ⟨h1, h2, h3⟩ := allocFrame_next h.tables hK h.marks (by rw [hidx]; exact hS)
    (h.empty n le_rfl hn)
  refine ⟨h.tables.allocFrame, h.place, h1, fun p hp => ?_, fun m hm => ?_, fun m hm hm' => ?_⟩
  · unfold MapsTo
    rw [h3 p (hlow p hp) (by unfold heapPage; omega)]
    exact h.low p hp
  · by_cases hmn : m = n
    · subst hmn
      exact h2
    · unfold MapsTo
      rw [h3 _ (by rw [(heapPage_addr (by omega)).2]; exact hS) (by unfold heapPage; omega)]
      exact h.mapped m (by omega)
  · rw [h3 _ (by rw [(heapPage_addr hm').2]; exact hS) (by unfold heapPage; omega)]
    exact h.empty m (by omega) hm'

theorem HeapLoop.mapHeapPages {top : ℕ} (h : HeapLoop vm K 0 top S k) (hS : 768 ∈ S)
    (hlow : ∀ p < K, p / 1024 ∈ S) (hK : K + 256 ≤ FRAME_COUNT) :
    HeapLoop vm K 256 top S k.mapHeapPages := by
  have hrun : ∀ n ≤ 256, HeapLoop vm K n top S ((List.range n).foldl (fun k n =>
      k.allocFrame (k.lookupPage (KHEAP_START + PAGE_SIZE * n) k.vmPageDir) false true) k) := by
    intro n
    induction n with
    | zero => exact fun _ => h
    | succ n ih =>
      intro hn
      rw [List.range_succ, List.foldl_append]
      exact (ih (by omega)).step hS hlow (by omega) (by omega)
  exact hrun 256 le_rfl

lemma placementAddress_allocFrame (k : Kernel) (r : Option PageRef) (isKernel isWritable : Bool) :
    (k.allocFrame r isKernel isWritable).placementAddress = k.placementAddress := by
  cases r <;> rfl

lemma placementAddress_mapHeapPages (k : Kernel) :
    k.mapHeapPages.placementAddress = k.placementAddress := by
  unfold Kernel.mapHeapPages
  induction KHEAP_INITIAL_SIZE / PAGE_SIZE with
  | zero => rfl
  | succ n ih =>
    rw [List.range_succ, List.foldl_append]
    exact (placementAddress_allocFrame _ _ _ _).trans ih

/-- The loop that asks for the heap's pages makes one table, at index 768. -/
lemma makeHeapPages_spec (alloc : HeapAlloc) (h : BootTables vm ∅ k) (hpos : 0 < k.placementAddress)
    (htop : k.placementAddress + 0x2000 < 2 ^ 32) :
    ∃ k', k.makeHeapPages alloc = some k' ∧ BootTables vm {768} k' ∧
      k.placementAddress ≤ k'.placementAddress ∧
      k'.placementAddress ≤ k.placementAddress + 0x2000 ∧ k'.map = k.map ∧
      ∀ p, p / 1024 = 768 → k'.entryOf vm p = .zero := by
  have hidx {n : ℕ} (hn : n < 256) : (KHEAP_START + PAGE_SIZE * n) / 0x1000 / 1024 = 768 := by
    rw [(heapPage_addr (by omega)).1, (heapPage_addr (by omega)).2]
  have hloop := foldlM_range_some (N := 256) (f := fun k n =>
    (k.getPage (mallocAp alloc) (KHEAP_START + PAGE_SIZE * n) true k.vmPageDir).map Prod.snd)
    (P := fun n k' => n = 0 ∧ k' = k ∨ 0 < n ∧ BootTables vm {768} k' ∧
      k.placementAddress ≤ k'.placementAddress ∧
      k'.placementAddress ≤ k.placementAddress + 0x2000 ∧ k'.map = k.map ∧
      ∀ p, p / 1024 = 768 → k'.entryOf vm p = .zero) (Or.inl ⟨rfl, rfl⟩) ?_
  · obtain ⟨k', hk', ⟨h0, -⟩ | ⟨-, hP⟩⟩ := hloop
    · exact absurd h0 (by decide)
    · exact ⟨k', hk', hP⟩
  · rintro n hn t (⟨rfl, rfl⟩ | ⟨hpos', hP⟩)
    · obtain ⟨k', hget, hb, hle, hlt, hmap, -, hzero⟩ :=
        getPage_absent alloc h (show (KHEAP_START + PAGE_SIZE * 0) / 0x1000 / 1024 ∉ ∅ by simp)
          hpos htop
      rw [hidx hn] at hb hzero
      refine ⟨k', ?_, Or.inr ⟨by omega, by simpa using hb, hle, hlt, hmap, hzero⟩⟩
      rw [h.vmDir, hget]
      rfl
    · refine ⟨t, ?_, Or.inr ⟨by omega, hP⟩⟩
      rw [hP.1.vmDir, getPage_present alloc hP.1 (by rw [hidx hn]; rfl)]
      rfl

end HeapPages

/-! ### The whole of it -/

section Boot

variable {vm n K : ℕ} {S : Set ℕ} {k k' : Kernel} {a : ℕ}

lemma BootTables.setPlace (h : BootTables vm S k) {p : ℕ} (hp : k.placementAddress ≤ p) :
    BootTables vm S { k with placementAddress := p } :=
  ⟨h.kheap, h.vmDir, h.dirPhy, h.present, fun i hi => (h.below i hi).trans hp, h.aligned, h.phy,
    h.inj, h.size⟩

/-- The walk of the processor goes where the walk of `get_page` goes. -/
lemma BootTables.walk (h : BootTables vm S k) (htop : k.placementAddress < 2 ^ 32)
    (ha : a / 0x1000 / 1024 ∈ S) : k.walk vm a = k.translate vm a := by
  have hdiv : a / 0x400000 = a / 0x1000 / 1024 := by omega
  have hlow := h.below _ ha
  have hpage := h.aligned _ ha
  unfold Kernel.walk Kernel.translate
  rw [hdiv, h.phy _ ha, or_7 hpage, lookupPage_present h ha]
  simp only
  rw [if_neg (by rw [Nat.and_one_is_mod]; omega), and_pages (by omega),
    show (k.tableOf vm (a / 0x1000 / 1024) + 7) / 0x1000 * 0x1000 =
      k.tableOf vm (a / 0x1000 / 1024) by omega]
  rfl

lemma BootTables.translate (h : BootTables vm S k) {f : ℕ} (ha : a / 0x1000 / 1024 ∈ S)
    (hm : k.MapsTo vm (a / 0x1000) f) : k.translate vm a = some (f * 0x1000 + a % 0x1000) := by
  unfold Kernel.translate
  rw [lookupPage_present h ha]
  obtain ⟨hv, hf⟩ := hm
  unfold entryOf at hv hf
  simp only [page, refOf, hv, hf, if_true]

lemma bootTables_newVmPageDir {k : Kernel} (h0 : k.kheap = 0) (htop : vm + 0x1000 < 2 ^ 32)
    (hsize : k.map.framesBitmapSize = FRAME_COUNT / 8) : BootTables vm ∅ (k.newVmPageDir vm) := by
  have hdir : (k.newVmPageDir vm).dirs vm =
      { PageDir.zero with pageDirPhy := add32 vm 0x1000 } := Function.update_self _ _ _
  refine ⟨h0, rfl, ?_, fun i => ?_, by simp, by simp, by simp, by simp, hsize⟩
  · rw [hdir]
    exact add32_eq htop
  · rw [tableOf, hdir]
    simp [PageDir.zero]

end Boot

end Kernel

/-- **What `init_paging` has mapped.** Both walks take every address below `placement_address` to
itself; the bitmap, the directory, the page tables and the `heap_t` record lie there; and the
initial heap has 256 frames in a row, behind all of these. -/
structure Boot.Mapped (b : Boot) : Prop where
  low : ∀ a < b.kernel.placementAddress,
    b.kernel.translate b.kernel.vmPageDir a = some a ∧ b.kernel.walk b.kernel.vmPageDir a = some a
  frames : b.frames + FRAME_COUNT / 8 ≤ b.kernel.placementAddress
  dir : b.kernel.vmPageDir + 8196 ≤ b.kernel.placementAddress
  dirPhy : (b.kernel.dirs b.kernel.vmPageDir).pageDirPhy = b.kernel.vmPageDir + 0x1000
  tables : ∀ i, b.kernel.tableOf b.kernel.vmPageDir i ≠ 0 →
    b.kernel.tableOf b.kernel.vmPageDir i + 0x1000 ≤ b.kernel.placementAddress
  heap : b.heap + 32 ≤ b.kernel.placementAddress
  heapPages : ∃ K, b.kernel.placementAddress ≤ K * PAGE_SIZE ∧
    ∀ n < KHEAP_INITIAL_SIZE / PAGE_SIZE,
      b.kernel.translate b.kernel.vmPageDir (KHEAP_START + PAGE_SIZE * n) =
          some ((K + n) * PAGE_SIZE) ∧
        b.kernel.walk b.kernel.vmPageDir (KHEAP_START + PAGE_SIZE * n) = some ((K + n) * PAGE_SIZE)

open Kernel

/-- Up to the loop over low memory: four objects have been placed one behind the other, and no
frame is marked. -/
lemma initMapping_start (alloc : HeapAlloc) {k : Kernel} (h0 : k.kheap = 0)
    (hP : k.placementAddress ≤ MEMORY_SIZE) :
    ∃ frames heap vm k', LowLoop vm (heap + 32) 0 k' ∧ k.placementAddress ≤ frames ∧
      frames + FRAME_COUNT / 8 ≤ vm ∧ vm + 8196 ≤ heap ∧
      heap + 32 ≤ k.placementAddress + 0x10000 ∧ k'.mem = k.mem ∧
      ∀ k'', mapLow alloc (2 ^ 20 + 1) 0 k' = some k'' →
        k.initMapping alloc = some ⟨frames, heap, k''.mapHeapPages⟩ := by
  have hM : MEMORY_SIZE = 0x1000000 := rfl
  have hF : FRAME_COUNT = 4096 := rfl
  set P := k.placementAddress with hPdef
  -- the bitmap
  have hm1 := @malloc_place alloc k false (FRAME_COUNT / 8) h0 (by omega)
  have hp1 : k.place false = P := if_neg (by simp)
  rw [hp1] at hm1
  set k₁ := Kernel.clearFrames { k with placementAddress := P + FRAME_COUNT / 8 } (FRAME_COUNT / 8)
    with hk₁
  -- the directory
  have hm2 := @malloc_place alloc k₁ true 8196 h0
    (show P + FRAME_COUNT / 8 + 0x1000 + 8196 < 2 ^ 32 by omega)
  set vm := k₁.place true with hvm
  have hvlo : P + FRAME_COUNT / 8 ≤ vm := @le_place k₁ true
  have hvhi : vm < P + FRAME_COUNT / 8 + 0x1000 := @place_lt k₁ true
  have hb2 : BootTables vm ∅ (Kernel.newVmPageDir { k₁ with placementAddress := vm + 8196 } vm) :=
    bootTables_newVmPageDir h0 (by omega) rfl
  -- the table of the heap
  obtain ⟨k₃, hm3, hb3, hlo3, hhi3, hmap3, hzero3⟩ := makeHeapPages_spec alloc hb2
    (show 0 < vm + 8196 by omega) (show vm + 8196 + 0x2000 < 2 ^ 32 by omega)
  replace hlo3 : vm + 8196 ≤ k₃.placementAddress := hlo3
  replace hhi3 : k₃.placementAddress ≤ vm + 8196 + 0x2000 := hhi3
  -- the record of the heap
  have hm4 := @malloc_place alloc k₃ false 32 hb3.kheap (by omega)
  have hp4 : k₃.place false = k₃.placementAddress := if_neg (by simp)
  rw [hp4] at hm4
  set k₄ : Kernel := { k₃ with placementAddress := k₃.placementAddress + 32 } with hk₄
  have hnone : FramePrefix 0 k₄ := by
    intro f hf
    refine iff_of_false ?_ (by omega)
    have hmap : k₄.map = k₁.map := hmap3
    rw [hmap, used_iff, hk₁, clearFrames]
    simp only [if_pos (show f / 8 < FRAME_COUNT / 8 by omega)]
    simp
  have ht : tablesBefore 0 = {768} := by
    ext i
    simp [mem_tablesBefore]
  have hstart : LowLoop vm (k₃.placementAddress + 32) 0 k₄ := by
    refine ⟨by rw [ht]; exact hb3.setPlace (by omega), le_rfl, le_rfl, by omega, fun _ => ?_⟩
    refine ⟨hnone, fun p hp => absurd hp (by omega), fun p _ hp => ?_⟩
    rw [ht] at hp
    exact congrArg PageStruct.frame (hzero3 p hp)
  obtain ⟨-, hmem3⟩ := makeHeapPages_boot (show (newVmPageDir { k₁ with placementAddress := vm + 8196 }
    vm).kheap = 0 from h0) hm3
  refine ⟨P, k₃.placementAddress, vm, k₄, hstart, le_rfl, hvlo, hlo3, by omega, hmem3,
    fun k₅ hm5 => ?_⟩
  unfold initMapping
  rw [hm1]
  simp only [Option.bind_eq_bind, Option.bind_some]
  rw [← hk₁, hm2]
  simp only [Option.bind_some]
  rw [hm3]
  simp only [Option.bind_some]
  rw [hm4]
  simp only [Option.bind_some]
  rw [hm5]
  rfl

lemma Kernel.LowLoop.heapLoop {vm top K : ℕ} {k : Kernel} (hl : LowLoop vm top K k)
    (hfit : K + 256 ≤ FRAME_COUNT) :
    HeapLoop vm K 256 k.placementAddress (tablesBefore K) k.mapHeapPages := by
  have hF : FRAME_COUNT = 4096 := rfl
  have hlow := hl.low (by omega)
  have hS {p : ℕ} (hp : p < K) : p / 1024 ∈ tablesBefore K := Or.inr (by omega)
  have hstart : HeapLoop vm K 0 k.placementAddress (tablesBefore K) k := by
    refine ⟨hl.tables, rfl, hlow.marks, hlow.mapped, fun m hm => absurd hm (by omega), ?_⟩
    intro m _ hm
    refine hlow.empty _ (by unfold heapPage; omega) ?_
    rw [(heapPage_addr hm).2]
    exact Or.inl rfl
  exact hstart.mapHeapPages (Or.inl rfl) (fun p => hS) hfit

lemma Kernel.LowLoop.mapped {frames heap vm K : ℕ} {k : Kernel} (hl : LowLoop vm (heap + 32) K k)
    (hend : k.placementAddress ≤ 0x1000 * K) (hfit : K + 256 ≤ FRAME_COUNT)
    (hframes : frames + FRAME_COUNT / 8 ≤ vm) (hdir : vm + 8196 ≤ heap) :
    Boot.Mapped ⟨frames, heap, k.mapHeapPages⟩ := by
  have hF : FRAME_COUNT = 4096 := rfl
  have hlower := hl.lower
  have hS {p : ℕ} (hp : p < K) : p / 1024 ∈ tablesBefore K := Or.inr (by omega)
  have h := hl.heapLoop hfit
  generalize k.mapHeapPages = k' at h ⊢
  have hplace := h.place
  have hvm := h.tables.vmDir
  refine ⟨fun a ha => ?_, ?_, ?_, ?_, fun i hi => ?_, ?_, K, ?_, fun n hn => ?_⟩
  · have ha : a < k'.placementAddress := ha
    have hpage : a / 0x1000 < K := by omega
    have htr := h.tables.translate (hS hpage) (h.low _ hpage)
    rw [show a / 0x1000 * 0x1000 + a % 0x1000 = a by omega] at htr
    refine ⟨?_, ?_⟩
    · rw [hvm]
      exact htr
    · rw [hvm, h.tables.walk (by omega) (hS hpage)]
      exact htr
  · show frames + FRAME_COUNT / 8 ≤ k'.placementAddress
    omega
  · show k'.vmPageDir + 8196 ≤ k'.placementAddress
    omega
  · show (k'.dirs k'.vmPageDir).pageDirPhy = k'.vmPageDir + 0x1000
    rw [hvm]
    exact h.tables.dirPhy
  · change k'.tableOf k'.vmPageDir i ≠ 0 at hi
    change k'.tableOf k'.vmPageDir i + 0x1000 ≤ k'.placementAddress
    rw [hvm] at hi ⊢
    exact h.tables.below i ((h.tables.present i).mp hi)
  · show heap + 32 ≤ k'.placementAddress
    omega
  · show k'.placementAddress ≤ K * 0x1000
    omega
  · have hn' : n < 256 := hn
    obtain ⟨haddr, hidx⟩ := heapPage_addr (show n < 1024 by omega)
    have hin : (KHEAP_START + PAGE_SIZE * n) / 0x1000 / 1024 ∈ tablesBefore K := by
      rw [haddr, hidx]
      exact Or.inl rfl
    have htr := h.tables.translate hin (by rw [haddr]; exact h.mapped n hn')
    rw [show (KHEAP_START + PAGE_SIZE * n) % 0x1000 = 0 by unfold KHEAP_START PAGE_SIZE; omega,
      Nat.add_zero] at htr
    refine ⟨?_, ?_⟩
    · rw [hvm]
      exact htr
    · rw [hvm, h.tables.walk (by omega) hin]
      exact htr

/-- **Low memory is mapped to itself.** From any address of the memory `init_paging` gets through
its mapping loops; and if the loops have raised `placement_address` to a value that leaves room
for the 256 frames of the heap, the mapping is as it should be. -/
theorem initMapping_mapped (alloc : HeapAlloc) (k : Kernel) (h0 : k.kheap = 0) :
    (k.placementAddress ≤ MEMORY_SIZE → ∃ b, k.initMapping alloc = some b) ∧
      ∀ b, k.initMapping alloc = some b → k.placementAddress ≤ b.kernel.placementAddress →
        (b.kernel.placementAddress + (PAGE_SIZE - 1)) / PAGE_SIZE +
            KHEAP_INITIAL_SIZE / PAGE_SIZE ≤ FRAME_COUNT → b.Mapped := by
  have hrun (hP : k.placementAddress ≤ MEMORY_SIZE) : ∃ b, k.initMapping alloc = some b ∧
      ((b.kernel.placementAddress + (PAGE_SIZE - 1)) / PAGE_SIZE +
        KHEAP_INITIAL_SIZE / PAGE_SIZE ≤ FRAME_COUNT → b.Mapped) := by
    have hM : MEMORY_SIZE = 0x1000000 := rfl
    obtain ⟨frames, heap, vm, k', hstart, -, hframes, hdir, htop, -, hinit⟩ :=
      initMapping_start alloc h0 hP
    obtain ⟨k'', K, hmap, hl, hend, -⟩ :=
      hstart.mapLow alloc (by omega) (2 ^ 20 + 1) 0 k' (by omega) (by omega)
    refine ⟨_, hinit k'' hmap, fun hfit => hl.mapped hend ?_ hframes hdir⟩
    have hpace := hl.pace
    rw [show (Boot.mk frames heap k''.mapHeapPages).kernel.placementAddress =
      k''.placementAddress from placementAddress_mapHeapPages k''] at hfit
    unfold PAGE_SIZE KHEAP_INITIAL_SIZE at hfit
    omega
  refine ⟨fun hP => ?_, fun b hb hraise hfit => ?_⟩
  · obtain ⟨b, hb, -⟩ := hrun hP
    exact ⟨b, hb⟩
  · have hP : k.placementAddress ≤ MEMORY_SIZE := by
      unfold PAGE_SIZE FRAME_COUNT MEMORY_SIZE PAGE_SIZE KHEAP_INITIAL_SIZE at *
      omega
    obtain ⟨b', hb', hmapped⟩ := hrun hP
    obtain rfl : b = b' := Option.some.inj (hb.symm.trans hb')
    exact hmapped hfit

/-- A machine whose memory is free from `0x2000` on. -/
def freeFrom0x2000 : Kernel where
  mem := fun _ => 0
  heap := ⟨⟨0, 0, 0, fun _ _ _ => 0⟩, 0, 0, 0, false, false⟩
  kheap := 0
  placementAddress := 0x2000
  map := ⟨fun _ => 0xFF, 0⟩
  tables := fun _ _ => .zero
  dirs := fun _ => .zero
  vmPageDir := 0
  curVmPageDir := 0
  phys := fun _ => 0
  console := []

theorem initMapping_mapped_0x2000 : ∃ b,
    freeFrom0x2000.initMapping (fun _ _ _ => none) = some b ∧ b.Mapped := by
  have hP : freeFrom0x2000.placementAddress = 0x2000 := rfl
  have hF : FRAME_COUNT = 4096 := rfl
  -- the loop ends on a page boundary, after at most two tables for each 1024 pages
  obtain ⟨frames, heap, vm, k', hstart, hle, hframes, hdir, htop, -, hinit⟩ :=
    initMapping_start (fun _ _ _ => none) (k := freeFrom0x2000) rfl (by decide)
  obtain ⟨k'', K, hmap, hl, hend, -⟩ :=
    hstart.mapLow (fun _ _ _ => none) (by omega) (2 ^ 20 + 1) 0 k' (by omega) (by omega)
  have hlower := hl.lower
  have hupper := hl.upper
  have hpace := hl.pace
  have hb := hinit k'' hmap
  have hplace := placementAddress_mapHeapPages k''
  refine ⟨_, hb, (initMapping_mapped _ freeFrom0x2000 rfl).2 _ hb ?_ ?_⟩
  · show 0x2000 ≤ k''.mapHeapPages.placementAddress
    omega
  · show (k''.mapHeapPages.placementAddress + (0x1000 - 1)) / 0x1000 + 0x100000 / 0x1000 ≤ 4096
    omega

end OsImplement.Memory
