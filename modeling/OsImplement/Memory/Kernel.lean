import OsImplement.Memory.Frames
import OsImplement.Memory.SortedArray

/-!
The memory state of the kernel.

The bytes that the heap lives in are raw (`mem`): headers, footers and the index array are words of
it and may land on one another. Page tables and page directories are objects with an address of
their own, kept beside the bytes. A page entry is named by its table and its index, and `none` is
the NULL pointer, behind which lie the bytes at address 0.
-/

namespace OsImplement.Memory

open Lib.Word Lib.Bytes

/-! ### Data -/

/-- `page_dir_struct` -/
structure PageDir where
  pageTable : ℕ → ℕ
  pageTablePhy : ℕ → ℕ
  pageDirPhy : ℕ

/-- A directory of zeroed memory. -/
def PageDir.zero : PageDir := ⟨fun _ => 0, fun _ => 0, 0⟩

/-- `heap_t` -/
structure Heap where
  index : SortedArray
  startAddress : ℕ
  endAddress : ℕ
  maxAddress : ℕ
  supervisor : Bool
  readonly : Bool

/-- The globals of `page.c`, `kheap.c` and `kernel_malloc.c`, and the memory they point to. -/
structure Kernel where
  mem : Mem
  /-- The record that `kheap` points to, unless `kheap` is NULL. -/
  heap : Heap
  kheap : ℕ
  placementAddress : ℕ
  map : FrameMap
  tables : ℕ → ℕ → PageStruct
  dirs : ℕ → PageDir
  vmPageDir : ℕ
  curVmPageDir : ℕ
  /-- Physical memory, as `copy_page_phy` sees it with paging off. -/
  phys : ℕ → UInt8
  /-- What `printf` wrote. -/
  console : List String

/-- A machine with zeroed memory. -/
def zeroedKernel : Kernel where
  mem := fun _ => 0
  heap := ⟨⟨0, 0, 0, fun _ _ _ => 0⟩, 0, 0, 0, false, false⟩
  kheap := 0
  placementAddress := 0x2000
  map := ⟨fun _ => 0, 512⟩
  tables := fun _ _ => .zero
  dirs := fun _ => .zero
  vmPageDir := 0
  curVmPageDir := 0
  phys := fun _ => 0
  console := []

/-- A `page_struct *` other than NULL. -/
structure PageRef where
  table : ℕ
  idx : ℕ
  deriving DecidableEq

/-- The bit-fields of a word, as `page_struct` lays them out. -/
def PageStruct.ofWord (w : ℕ) : PageStruct :=
  ⟨w.testBit 0, w.testBit 1, w.testBit 2, w.testBit 3, w.testBit 4, w / 0x1000⟩

/-- A word with the fields of a page entry; the unused bits are those of the old word. -/
def PageStruct.toWord (page : PageStruct) (old : ℕ) : ℕ :=
  page.valid.toNat + 2 * page.rw.toNat + 4 * page.user.toNat + 8 * page.accessed.toNat +
    16 * page.dirty.toNat + 32 * (old / 32 % 128) + 0x1000 * page.frame

namespace Kernel

variable (k : Kernel)

/-! ### Page entries -/

/-- `*page` -/
def page : Option PageRef → PageStruct
  | some r => k.tables r.table r.idx
  | none => .ofWord (read32 k.mem 0)

/-- `*page = p` -/
def setPage (r : Option PageRef) (p : PageStruct) : Kernel :=
  match r with
  | some r =>
    let entries := Function.update (k.tables r.table) r.idx p
    { k with tables := Function.update k.tables r.table entries }
  | none => { k with mem := write32 k.mem 0 (p.toWord (read32 k.mem 0)) }

/-- What `alloc_frame` prints before it goes on with frame `-1`. -/
def noFreeFrame : String := "[warning]No free frame..."

/-- `alloc_frame` on a pointer -/
def allocFrame (r : Option PageRef) (isKernel isWritable : Bool) : Kernel :=
  let (page, map) := Memory.allocFrame (k.page r) isKernel isWritable k.map
  let warns := (k.page r).frame = 0 ∧ firstFrame k.map = NO_FRAME
  { k.setPage r page with
      map := map
      console := if warns then k.console ++ [noFreeFrame] else k.console }

/-- `free_frame` on a pointer -/
def freeFrame (r : Option PageRef) : Kernel :=
  let (page, map) := Memory.freeFrame (k.page r) k.map
  { k.setPage r page with map := map }

/-- `copy_page_phy`: 1024 words, with paging off. -/
def copyPagePhy (src dst : ℕ) : Kernel :=
  { k with phys := fun x => if dst ≤ x ∧ x < dst + 0x1000 then k.phys (src + (x - dst))
      else k.phys x }

/-! ### Tables and directories -/

/-- The table at `t`, all its entries at once. -/
def setTable (t : ℕ) (entries : ℕ → PageStruct) : Kernel :=
  { k with tables := Function.update k.tables t entries }

/-- The directory at `d`. -/
def setDir (d : ℕ) (dir : PageDir) : Kernel := { k with dirs := Function.update k.dirs d dir }

/-- `dir->page_table[i] = t; dir->page_table_phy[i] = phy;` -/
def setSlot (d i t phy : ℕ) : Kernel :=
  k.setDir d { k.dirs d with
    pageTable := Function.update (k.dirs d).pageTable i t
    pageTablePhy := Function.update (k.dirs d).pageTablePhy i phy }

/-- `dir->page_table[i]` -/
def tableOf (d i : ℕ) : ℕ := (k.dirs d).pageTable i

variable {k}

section Simp

variable {d i t phy d' i' t' : ℕ} {entries : ℕ → PageStruct} {r : PageRef} {p : PageStruct}
  {isKernel isWritable : Bool}

@[simp] lemma mem_setTable : (k.setTable t entries).mem = k.mem := rfl
@[simp] lemma heap_setTable : (k.setTable t entries).heap = k.heap := rfl
@[simp] lemma mem_setSlot : (k.setSlot d i t phy).mem = k.mem := rfl
@[simp] lemma heap_setSlot : (k.setSlot d i t phy).heap = k.heap := rfl
@[simp] lemma dirs_setTable : (k.setTable t entries).dirs = k.dirs := rfl
@[simp] lemma map_setTable : (k.setTable t entries).map = k.map := rfl
@[simp] lemma vmPageDir_setTable : (k.setTable t entries).vmPageDir = k.vmPageDir := rfl
@[simp] lemma console_setTable : (k.setTable t entries).console = k.console := rfl
@[simp] lemma tables_setDir {dir : PageDir} : (k.setDir d dir).tables = k.tables := rfl
@[simp] lemma tables_setSlot : (k.setSlot d i t phy).tables = k.tables := rfl
@[simp] lemma map_setSlot : (k.setSlot d i t phy).map = k.map := rfl
@[simp] lemma vmPageDir_setSlot : (k.setSlot d i t phy).vmPageDir = k.vmPageDir := rfl
@[simp] lemma console_setSlot : (k.setSlot d i t phy).console = k.console := rfl

lemma tableOf_setSlot :
    (k.setSlot d i t phy).tableOf d' i' = if d' = d ∧ i' = i then t else k.tableOf d' i' := by
  unfold tableOf setSlot setDir
  by_cases hd : d' = d
  · subst hd
    by_cases hi : i' = i
    · subst hi
      simp
    · simp [hi]
  · simp [hd]

@[simp] lemma dirs_setDir_self {dir : PageDir} : (k.setDir d dir).dirs d = dir :=
  Function.update_self _ _ _

lemma dirs_setDir_of_ne {dir : PageDir} (h : d' ≠ d) : (k.setDir d dir).dirs d' = k.dirs d' :=
  Function.update_of_ne h _ _

lemma tables_setTable : (k.setTable t entries).tables t' = if t' = t then entries else k.tables t' := by
  unfold setTable
  by_cases h : t' = t
  · subst h
    simp
  · simp [h]

@[simp] lemma mem_allocFrame : (k.allocFrame (some r) isKernel isWritable).mem = k.mem := rfl

@[simp] lemma heap_allocFrame : (k.allocFrame (some r) isKernel isWritable).heap = k.heap := rfl

@[simp] lemma dirs_allocFrame : (k.allocFrame (some r) isKernel isWritable).dirs = k.dirs := rfl

@[simp] lemma vmPageDir_allocFrame :
    (k.allocFrame (some r) isKernel isWritable).vmPageDir = k.vmPageDir := rfl

end Simp

/-! ### One allocation -/

section AllocFrame

variable {r : PageRef} {isKernel isWritable : Bool}

lemma console_allocFrame (k : Kernel) (r : PageRef) (isKernel isWritable : Bool) :
    k.console <+: (k.allocFrame (some r) isKernel isWritable).console := by
  simp only [allocFrame]
  split
  · exact List.prefix_append _ _
  · exact List.prefix_rfl

lemma tables_allocFrame_ne {t j : ℕ} (h : ¬ (t = r.table ∧ j = r.idx)) :
    (k.allocFrame (some r) isKernel isWritable).tables t j = k.tables t j := by
  simp only [allocFrame, setPage]
  by_cases ht : t = r.table
  · subst ht
    rw [Function.update_self, Function.update_of_ne fun hj => h ⟨rfl, hj⟩]
  · rw [Function.update_of_ne ht]

lemma tables_setPage_of_ne {p : PageStruct} {t : ℕ} (h : t ≠ r.table) :
    (k.setPage (some r) p).tables t = k.tables t :=
  Function.update_of_ne h _ _

lemma tables_allocFrame_of_ne {t : ℕ} (h : t ≠ r.table) :
    (k.allocFrame (some r) isKernel isWritable).tables t = k.tables t :=
  Function.update_of_ne h _ _

lemma allocFrame_of_frame (h : (k.tables r.table r.idx).frame ≠ 0) :
    k.allocFrame (some r) isKernel isWritable = k := by
  simp only [allocFrame, page, Memory.allocFrame_held h, setPage, Function.update_eq_self, h,
    false_and, if_false]

lemma allocFrame_free (hsize : 8 * k.map.framesBitmapSize ≤ 2 ^ 20)
    (h0 : (k.tables r.table r.idx).frame = 0)
    (hfree : ∃ f < 8 * k.map.framesBitmapSize, ¬ Used k.map f) :
    (k.allocFrame (some r) isKernel isWritable).map = setFrame (firstFrame k.map * 0x1000) k.map ∧
      (k.allocFrame (some r) isKernel isWritable).tables r.table r.idx =
        { k.tables r.table r.idx with
          valid := true, rw := isWritable, user := !isKernel, frame := firstFrame k.map } := by
  constructor
  · simp only [allocFrame, page, allocFrame_eq hsize h0 hfree]
  · simp only [allocFrame, page, allocFrame_eq hsize h0 hfree, setPage, Function.update_self]

/-- An empty entry gets a free frame, unless the warning is printed. -/
lemma allocFrame_spec (hsize : 8 * k.map.framesBitmapSize ≤ 2 ^ 20)
    (h0 : (k.tables r.table r.idx).frame = 0)
    (hc : (k.allocFrame (some r) isKernel isWritable).console = k.console) :
    ¬ Used k.map (firstFrame k.map) ∧ firstFrame k.map < 8 * k.map.framesBitmapSize ∧
      (k.allocFrame (some r) isKernel isWritable).map =
        setFrame (firstFrame k.map * 0x1000) k.map ∧
      (k.allocFrame (some r) isKernel isWritable).tables r.table r.idx =
        { k.tables r.table r.idx with
          valid := true, rw := isWritable, user := !isKernel, frame := firstFrame k.map } := by
  have hne : firstFrame k.map ≠ NO_FRAME := by
    intro hnone
    simp [allocFrame, page, h0, hnone] at hc
  have hfree := exists_free_of_firstFrame hne
  obtain ⟨hlt, hnew, -⟩ := firstFrame_spec hfree
  exact ⟨hnew, hlt, allocFrame_free hsize h0 hfree⟩

end AllocFrame

end Kernel

end OsImplement.Memory
