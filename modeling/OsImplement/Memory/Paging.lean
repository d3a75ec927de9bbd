import OsImplement.Memory.Kernel

/-!
Page tables and directories (`page.c`), and the allocator below them (`kernel_malloc.c`).

`get_page` and the two clone routines allocate memory, so they take `_malloc_ap` as a parameter
and fail where it does; `none` stands for a call that does not return.
-/

namespace OsImplement.Memory

open Lib.Word Lib.Bytes

/-- `_malloc_ap` of a size: the address, the physical address, and the state after it. -/
abbrev MallocAp := ℕ → Kernel → Option (ℕ × ℕ × Kernel)

/-- `alloc` on the heap of the kernel: a size, whether to align, and the state. -/
abbrev HeapAlloc := ℕ → Bool → Kernel → Option (ℕ × Kernel)

namespace Kernel

/-! ### Walks -/

/-- `get_page` with `make = 0` -/
def lookupPage (addr dir : ℕ) (k : Kernel) : Option PageRef :=
  let addr := addr / 0x1000
  let index := addr / 1024
  if k.tableOf dir index ≠ 0 then some ⟨k.tableOf dir index, addr % 1024⟩ else none

/-- `get_page` -/
def getPage (mallocAp : MallocAp) (addr : ℕ) (make : Bool) (dir : ℕ) (k : Kernel) :
    Option (Option PageRef × Kernel) :=
  match lookupPage addr dir k with
  | some r => some (some r, k)
  | none =>
    if make then do
      let (table, tempAddressPhy, k) ← mallocAp 4096 k
      let k := k.setSlot dir (addr / 0x1000 / 1024) table (tempAddressPhy ||| 7)
      some (some ⟨table, addr / 0x1000 % 1024⟩, k.setTable table fun _ => .zero)
    else some (none, k)

section GetPage

variable {mallocAp : MallocAp} {addr dir : ℕ} {k k' : Kernel} {r : Option PageRef}

lemma getPage_cases (hr : k.getPage mallocAp addr true dir = some (r, k')) :
    (k.tableOf dir (addr / 0x1000 / 1024) ≠ 0 ∧ k' = k ∧
      r = some ⟨k.tableOf dir (addr / 0x1000 / 1024), addr / 0x1000 % 1024⟩) ∨
    k.tableOf dir (addr / 0x1000 / 1024) = 0 ∧ ∃ t phy k₁, mallocAp 4096 k = some (t, phy, k₁) ∧
      k' = (k₁.setSlot dir (addr / 0x1000 / 1024) t (phy ||| 7)).setTable t (fun _ => .zero) ∧
      r = some ⟨t, addr / 0x1000 % 1024⟩ := by
  unfold getPage lookupPage at hr
  by_cases h0 : k.tableOf dir (addr / 0x1000 / 1024) = 0
  · right
    simp only [h0, ne_eq, not_true_eq_false, if_false, if_true, Option.bind_eq_bind,
      Option.bind_eq_some_iff, Prod.exists, Option.some.injEq, Prod.mk.injEq] at hr
    obtain ⟨t, phy, k₁, hm, rfl, rfl⟩ := hr
    exact ⟨h0, t, phy, k₁, hm, rfl, rfl⟩
  · left
    simp only [ne_eq, h0, not_false_eq_true, if_true, Option.some.injEq, Prod.mk.injEq] at hr
    exact ⟨h0, hr.2.symm, hr.1.symm⟩

end GetPage

/-! ### Clones -/

/-- One round of the loop of `clone_table`. -/
def cloneEntry (src table : ℕ) (k : Kernel) (i : ℕ) : Kernel :=
  if (k.tables src i).frame = 0 then k
  else
    let k := k.allocFrame (some ⟨table, i⟩) false false
    let s := k.tables src i
    let p := k.tables table i
    let k := k.setPage (some ⟨table, i⟩)
      { p with
          valid := s.valid || p.valid
          rw := s.rw || p.rw
          user := s.user || p.user
          accessed := s.accessed || p.accessed
          dirty := s.dirty || p.dirty }
    k.copyPagePhy (s.frame * 0x1000) (p.frame * 0x1000)

/-- `clone_table` -/
def cloneTable (mallocAp : MallocAp) (src : ℕ) (k : Kernel) : Option (ℕ × ℕ × Kernel) := do
  let (table, phys, k) ← mallocAp 4096 k
  let k := k.setTable table fun _ => .zero
  some (table, phys, (List.range 1024).foldl (cloneEntry src table) k)

/-- One round of the loop of `clone_dir`. -/
def cloneSlot (mallocAp : MallocAp) (src newdir : ℕ) (k : Kernel) (i : ℕ) : Option Kernel :=
  if k.tableOf src i = 0 then some k
  else if k.tableOf k.vmPageDir i = k.tableOf src i then
    some (k.setSlot newdir i (k.tableOf src i) ((k.dirs src).pageTablePhy i))
  else do
    let (table, phys, k) ← cloneTable mallocAp (k.tableOf src i) k
    some (k.setSlot newdir i table (phys ||| 7))

/-- `clone_dir` -/
def cloneDir (mallocAp : MallocAp) (src : ℕ) (k : Kernel) : Option (ℕ × Kernel) := do
  let (newdir, phyAddr, k) ← mallocAp 8196 k
  let k := k.setDir newdir { PageDir.zero with pageDirPhy := add32 phyAddr 0x1000 }
  let k ← (List.range 1024).foldlM (cloneSlot mallocAp src newdir) k
  some (newdir, k)

/-! ### `kernel_malloc.c` -/

/-- `_malloc`, over the heap allocator it calls once `kheap` is set: the address and what
`*phy_address` gets. Before that, memory is handed out upwards from `placement_address`. -/
def malloc (alloc : HeapAlloc) (mSize : ℕ) (isAlign : Bool)
    (k : Kernel) : Option (ℕ × ℕ × Kernel) :=
  if k.kheap = 0 then
    let place := if isAlign ∧ k.placementAddress &&& 0xFFF ≠ 0 then
      add32 (k.placementAddress &&& 0xFFFFF000) 0x1000 else k.placementAddress
    let k := { k with placementAddress := add32 place mSize }
    some (sub32 k.placementAddress mSize, place, k)
  else do
    let (addr, k) ← alloc mSize isAlign k
    let page := k.page (lookupPage addr k.curVmPageDir k)
    some (addr, add32 (page.frame * 0x1000) (addr &&& 0xFFF), k)

/-- `_malloc_ap` -/
def mallocAp (alloc : HeapAlloc) : MallocAp :=
  fun mSize k => k.malloc alloc mSize true

/-! ### Placement -/

/-- Where `_malloc` places an object while `kheap` is NULL. -/
def place (k : Kernel) (isAlign : Bool) : ℕ :=
  if isAlign ∧ k.placementAddress % 0x1000 ≠ 0 then k.placementAddress / 0x1000 * 0x1000 + 0x1000
  else k.placementAddress

section Place

variable {alloc : HeapAlloc} {k : Kernel} {isAlign : Bool} {size : ℕ}

lemma le_place : k.placementAddress ≤ k.place isAlign := by
  unfold place
  split <;> omega

lemma place_lt : k.place isAlign < k.placementAddress + 0x1000 := by
  unfold place
  split <;> omega

lemma place_aligned : k.place true % 0x1000 = 0 := by
  unfold place
  split
  · omega
  · next h => simpa using h

/-- An allocation while `kheap` is NULL and no sum wraps. -/
lemma malloc_place (h0 : k.kheap = 0) (htop : k.placementAddress + 0x1000 + size < 2 ^ 32) :
    k.malloc alloc size isAlign =
      some (k.place isAlign, k.place isAlign,
        { k with placementAddress := k.place isAlign + size }) := by
  have hlt : k.place isAlign < k.placementAddress + 0x1000 := place_lt
  have hplace : (if isAlign ∧ k.placementAddress &&& 0xFFF ≠ 0 then
      add32 (k.placementAddress &&& 0xFFFFF000) 0x1000 else k.placementAddress) =
      k.place isAlign := by
    rw [and_4095, and_pages (by omega)]
    unfold place
    split
    · exact add32_eq (by omega)
    · rfl
  unfold malloc
  simp only [h0, if_true, hplace]
  rw [add32_eq (by omega), sub32_eq (by omega) (by omega), Nat.add_sub_cancel]

end Place

end Kernel

end OsImplement.Memory
