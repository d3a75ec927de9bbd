import OsImplement.Memory.Paging

/-!
The kernel heap (`kheap.c`).

Headers, footers and the index array are words of the raw memory. `alloc` calls itself twice: it
tries again once the heap has grown, and `get_page` asks it for the page tables of new regions
while the heap grows. `alloc fuel` follows `fuel` such calls in depth, and `none` stands for a call
that has not returned by then.

Every address is a byte of memory here. That a tag is stored to a page that the running directory
has not mapped, which ends the call in `page_fault`, is the subject of `Memory.Faults`.
-/

namespace OsImplement.Memory

open Lib.Word Lib.Bytes

def HEAP_INDEX_SIZE : ℕ := 0x20000

def HEAP_MAGIC : ℕ := 0x123890AB

def HEAP_MIN_SIZE : ℕ := 0x70000

/-- `x & 0x00000FFF != 0`. The comparison binds first, so the mask is its value, 1. -/
def maskTest (x : ℕ) : Bool := x &&& (decide (0xFFF ≠ 0)).toNat ≠ 0

lemma maskTest_even {x : ℕ} (h : x % 2 = 0) : maskTest x = false := by
  unfold maskTest
  simpa using h

lemma maskTest_odd {x : ℕ} (h : x % 2 = 1) : maskTest x = true := by
  unfold maskTest
  simp [h]

/-! ### Tags -/

/-- `header->size` -/
def headerSize (m : Mem) (header : ℕ) : ℕ := read32 m (add32 header 8)

/-- `header->size = size` -/
def setHeaderSize (header size : ℕ) (m : Mem) : Mem := write32 m (add32 header 8) size

/-- `header->is_hole` -/
def headerIsHole (m : Mem) (header : ℕ) : ℕ := (read8 m header).toNat

/-- `header->magic` -/
def headerMagic (m : Mem) (header : ℕ) : ℕ := read32 m (add32 header 4)

/-- The three fields of a `header_t`. -/
def writeHeader (header isHole size : ℕ) (m : Mem) : Mem :=
  let m := write32 m (add32 header 4) HEAP_MAGIC
  let m := setHeaderSize header size m
  write8 m header (UInt8.ofNat isHole)

/-- The two fields of a `footer_t`. -/
def writeFooter (footer header : ℕ) (m : Mem) : Mem :=
  let m := write32 m footer HEAP_MAGIC
  write32 m (add32 footer 4) header

/-- `header_cmp_less` -/
def headerCmpLess (m : Mem) (a b : ℕ) : ℤ := if headerSize m a < headerSize m b then 1 else 0

/-! ### `find_hole_fit_first` -/

/-- What is lost in front of a page-aligned block, by the test of `find_hole_fit_first`. -/
def findOffset (location : ℕ) : ℕ :=
  if maskTest (add32 location 12) then 0x1000 - add32 location 12 % 0x1000 else 0

/-- Whether a listed hole is taken. -/
def holeFits (size : ℕ) (pageAlign : Bool) (m : Mem) (header : ℕ) : Bool :=
  if pageAlign then size ≤ sub32 (headerSize m header) (findOffset header)
  else size ≤ headerSize m header

/-- The loop of `find_hole_fit_first`, with `n` slots left. -/
def findHole (size : ℕ) (pageAlign : Bool) (index : SortedArray) (m : Mem) :
    ℕ → ℕ → Option (Option ℕ)
  | 0, _ => some none
  | n + 1, iter => do
    let header ← findSortedArray iter index m
    if holeFits size pageAlign m header then some (some iter)
    else findHole size pageAlign index m n (iter + 1)

/-- `find_hole_fit_first`; the inner `none` is `-1`. -/
def findHoleFitFirst (size : ℕ) (pageAlign : Bool) (heap : Heap) (m : Mem) : Option (Option ℕ) :=
  findHole size pageAlign heap.index m heap.index.size 0

/-! ### `create_heap` -/

namespace Kernel

/-- `insert_sorted_array` on the index. -/
def insertHole (header : ℕ) (k : Kernel) : Kernel :=
  let (index, m) := insertSortedArray header k.heap.index k.mem
  { k with mem := m, heap := { k.heap with index := index } }

/-- `remove_sorted_array` on the index. -/
def removeHole (iter : ℕ) (k : Kernel) : Option Kernel := do
  let (index, m) ← removeSortedArray iter k.heap.index k.mem
  some { k with mem := m, heap := { k.heap with index := index } }

/-- A change of the memory alone. -/
def write (f : Mem → Mem) (k : Kernel) : Kernel := { k with mem := f k.mem }

/-- `heap->end_address - heap->start_address` -/
def heapLen (k : Kernel) : ℕ := sub32 k.heap.endAddress k.heap.startAddress

/-- `create_heap`, in the `heap_t` record of the kernel. -/
def createHeap (start end_ max : ℕ) (supervisor readonly : Bool) (k : Kernel) : Kernel :=
  let (index, m) := placeSortedArray start HEAP_INDEX_SIZE headerCmpLess k.mem
  let start := add32 start (4 * HEAP_INDEX_SIZE)
  let start := if maskTest start then add32 (start &&& 0xFFFFF000) 0x2000 else start
  let k := { k with
    mem := m
    heap :=
      { index := index, startAddress := start, endAddress := end_, maxAddress := max
        supervisor := supervisor, readonly := readonly } }
  (k.write (writeHeader start 1 (sub32 end_ start))).insertHole start

/-! ### `expand` and `contract` -/

/-- How both round a new size. -/
def roundSize (newSize : ℕ) : ℕ :=
  if maskTest newSize then add32 (newSize &&& 0xFFFFF000) 0x1000 else newSize

/-- The loop of `expand`, with `n` rounds left. -/
def expandPages (mallocAp : MallocAp) (newSize : ℕ) : ℕ → ℕ → Kernel → Option Kernel
  | 0, _, _ => none
  | n + 1, i, k =>
    if i < newSize then do
      let (page, k) ← k.getPage mallocAp (add32 k.heap.startAddress i) true k.vmPageDir
      let k := k.allocFrame page k.heap.supervisor (!k.heap.readonly)
      expandPages mallocAp newSize n (add32 i 0x1000) k
    else some k

/-- `expand`. After `2 ^ 20` rounds `i` has the value that it had at first, so a loop that is not
done by then never ends. -/
def expand (mallocAp : MallocAp) (newSize : ℕ) (k : Kernel) : Option Kernel := do
  let newSize := roundSize newSize
  let k ← expandPages mallocAp newSize (2 ^ 20) k.heapLen k
  some { k with heap := { k.heap with endAddress := add32 k.heap.startAddress newSize } }

/-- The loop of `contract`, with `n` rounds left. -/
def contractPages (newSize : ℕ) : ℕ → ℕ → Kernel → Option Kernel
  | 0, _, _ => none
  | n + 1, i, k =>
    if newSize < i then
      let page := k.lookupPage (add32 k.heap.startAddress i) k.vmPageDir
      contractPages newSize n (sub32 i 0x1000) (k.freeFrame page)
    else some k

/-- `contract`: the new size, and the state. -/
def contract (newSize : ℕ) (k : Kernel) : Option (ℕ × Kernel) := do
  let newSize := roundSize newSize
  let newSize := if newSize < HEAP_MIN_SIZE then HEAP_MIN_SIZE else newSize
  let k ← contractPages newSize (2 ^ 20) (sub32 k.heapLen 0x1000) k
  some (newSize,
    { k with heap := { k.heap with endAddress := add32 k.heap.startAddress newSize } })

/-! ### `alloc` -/

/-- `-1`, as the index of a slot. -/
def NO_SLOT : ℕ := 2 ^ 32 - 1

/-- The loop of `alloc` over the index, with `n` slots left: the slot with the highest address,
and that address. -/
def highestSlot (index : SortedArray) (m : Mem) : ℕ → ℕ → ℕ × ℕ → Option (ℕ × ℕ)
  | 0, _, best => some best
  | n + 1, iter, best => do
    let tmp ← findSortedArray iter index m
    highestSlot index m n (iter + 1) (if best.2 < tmp then (iter, tmp) else best)

/-- `alloc`, between `expand` and the second try: the hole with the highest address gets what the
heap has grown by, or a new hole does when none is listed. -/
def growHole (oldEnd oldLen : ℕ) (k : Kernel) : Option Kernel := do
  let (idx, header) ← highestSlot k.heap.index k.mem k.heap.index.size 0 (NO_SLOT, 0)
  let grown := sub32 k.heapLen oldLen
  if idx = NO_SLOT then
    let k := k.write (writeHeader oldEnd 1 grown)
    let k := k.write (writeFooter (sub32 (add32 oldEnd (headerSize k.mem oldEnd)) 8) oldEnd)
    some (k.insertHole oldEnd)
  else
    let k := k.write (setHeaderSize header (add32 (headerSize k.mem header) grown))
    some (k.write (writeFooter (sub32 (add32 header (headerSize k.mem header)) 8) header))

/-- `alloc`, what it does in front of the block: a page-aligned block leaves a hole there, and any
other takes the hole out of the index. The place and the room of the block are returned. -/
def cutFront (iter pos holeSize : ℕ) (pageAlign : Bool) (k : Kernel) : Option (ℕ × ℕ × Kernel) :=
  if pageAlign ∧ add32 pos 12 &&& 0xFFF ≠ 0 then
    let location := sub32 (add32 pos 0x1000) (add32 pos 12 &&& 0xFFF)
    let k := k.write (writeHeader pos 1 (sub32 (0x1000 - 12) (add32 pos 12 &&& 0xFFF)))
    let k := k.write (writeFooter (sub32 location 8) pos)
    some (location, sub32 holeSize (headerSize k.mem pos), k)
  else do
    let k ← k.removeHole iter
    some (pos, holeSize, k)

/-- `alloc`, what it does behind the block. The footer is put at the distance from the block that
it should have from the hole. -/
def cutBack (pos holeSize size newSize : ℕ) (k : Kernel) : Kernel :=
  if newSize < holeSize then
    let hole := add32 (add32 pos 20) size
    let k := k.write (writeHeader hole 1 (sub32 holeSize newSize))
    let footer := sub32 (sub32 (add32 pos holeSize) 8) newSize
    let k := if footer < k.heap.endAddress then k.write (writeFooter footer hole) else k
    k.insertHole hole
  else k

/-- `alloc`, in the hole at slot `iter`. -/
def placeBlock (iter size newSize : ℕ) (pageAlign : Bool) (k : Kernel) : Option (ℕ × Kernel) := do
  let pos ← findSortedArray iter k.heap.index k.mem
  let holeSize := headerSize k.mem pos
  let rest := sub32 holeSize newSize
  let tooSmall := rest < 12 + 8
  let size := if tooSmall then add32 size rest else size
  let newSize := if tooSmall then holeSize else newSize
  let (pos, holeSize, k) ← k.cutFront iter pos holeSize pageAlign
  let k := k.write (writeHeader pos 0 newSize)
  let k := k.write (writeFooter (add32 (add32 pos size) 12) pos)
  some (add32 pos 12, k.cutBack pos holeSize size newSize)

/-- `alloc` -/
def alloc : ℕ → HeapAlloc
  | 0, _, _, _ => none
  | fuel + 1, size, pageAlign, k => do
    let newSize := add32 (add32 size 12) 8
    match ← findHoleFitFirst newSize pageAlign k.heap k.mem with
    | none =>
      let oldLen := k.heapLen
      let oldEnd := k.heap.endAddress
      let k ← k.expand (mallocAp (alloc fuel)) (add32 oldLen newSize)
      let k ← k.growHole oldEnd oldLen
      alloc fuel size pageAlign k
    | some iter => k.placeBlock iter size newSize pageAlign

/-! ### `free` -/

/-- The search of `free` for a header in the index, with `n` slots left. -/
def findHeader (header : ℕ) (index : SortedArray) (m : Mem) : ℕ → ℕ → Option ℕ
  | 0, iter => some iter
  | n + 1, iter => do
    let tmp ← findSortedArray iter index m
    if tmp = header then some iter else findHeader header index m n (iter + 1)

/-- `footer->header` -/
def footerHeader (m : Mem) (footer : ℕ) : ℕ := read32 m (add32 footer 4)

/-- The header that `free(p)` works on: `if (p = 0) return;` assigns, and goes on with `p` 0. -/
def freeHeader (_p : ℕ) : ℕ :=
  let p := 0
  sub32 p 12

/-- `free`, its first `if`: a hole before the block takes it in. The header, `do_add`, and the
state. -/
def mergeBefore (header footer : ℕ) (k : Kernel) : ℕ × Bool × Kernel :=
  let testFooter := sub32 header 8
  if headerIsHole k.mem (footerHeader k.mem testFooter) = 1 ∧ read32 k.mem testFooter = HEAP_MAGIC then
    let cacheSize := headerSize k.mem header
    let header := footerHeader k.mem testFooter
    let k := k.write fun m => write32 m (add32 footer 4) header
    (header, false, k.write (setHeaderSize header (add32 (headerSize k.mem header) cacheSize)))
  else (header, true, k)

/-- `free`, its second `if`: a hole behind the block is taken in. The footer, `do_add`, and the
state. -/
def mergeAfter (header footer : ℕ) (doAdd : Bool) (k : Kernel) : Option (ℕ × Bool × Kernel) :=
  let testHeader := add32 footer 8
  if headerIsHole k.mem testHeader = 1 ∧ headerMagic k.mem testHeader = HEAP_MAGIC then do
    let cacheSize := headerSize k.mem testHeader
    let footer := sub32 (add32 testHeader cacheSize) 8
    let k := k.write fun m => write32 m (add32 footer 4) header
    let k := k.write (setHeaderSize header (add32 (headerSize k.mem header) cacheSize))
    let iter ← findHeader testHeader k.heap.index k.mem k.heap.index.size 0
    let k ← k.removeHole iter
    some (footer, false, k)
  else some (footer, doAdd, k)

/-- `free`, its third `if`: a hole at the end of the heap is given back. -/
def shrinkHeap (header footer testHeader : ℕ) (k : Kernel) : Option Kernel :=
  if add32 footer 8 = k.heap.endAddress then do
    let oldLen := k.heapLen
    let (newLen, k) ← k.contract (sub32 header k.heap.startAddress)
    let cut := sub32 oldLen newLen
    if sub32 (headerSize k.mem header) cut ≠ 0 then
      let k := k.write (setHeaderSize header (sub32 (headerSize k.mem header) cut))
      some (k.write (writeFooter (sub32 (add32 header (headerSize k.mem header)) 8) header))
    else
      let iter ← findHeader testHeader k.heap.index k.mem k.heap.index.size 0
      if iter < k.heap.index.size then k.removeHole iter else some k
  else some k

/-- `free`, on a header. -/
def freeBlock (header : ℕ) (k : Kernel) : Option Kernel := do
  let footer := sub32 (add32 header (headerSize k.mem header)) 8
  let k := k.write fun m => write8 m header 1
  let (header, doAdd, k) := k.mergeBefore header footer
  let testHeader := add32 footer 8
  let (footer, doAdd, k) ← k.mergeAfter header footer doAdd
  let k ← k.shrinkHeap header footer testHeader
  some (if doAdd then k.insertHole header else k)

/-- The order of the work in `freeBlock`, whatever its three tests do. -/
def freeWith (before : ℕ → ℕ → Kernel → ℕ × Bool × Kernel)
    (after : ℕ → ℕ → Bool → Kernel → Option (ℕ × Bool × Kernel))
    (shrink : ℕ → ℕ → ℕ → Kernel → Option Kernel) (header : ℕ) (k : Kernel) : Option Kernel := do
  let footer := sub32 (add32 header (headerSize k.mem header)) 8
  let k := k.write fun m => write8 m header 1
  let (header, doAdd, k) := before header footer k
  let testHeader := add32 footer 8
  let (footer, doAdd, k) ← after header footer doAdd k
  let k ← shrink header footer testHeader k
  some (if doAdd then k.insertHole header else k)

lemma freeBlock_with : @freeBlock = freeWith mergeBefore mergeAfter shrinkHeap := by
  delta freeBlock freeWith
  exact Eq.refl _

/-- `free` -/
def free (p : ℕ) (k : Kernel) : Option Kernel := k.freeBlock (freeHeader p)

end Kernel

end OsImplement.Memory
