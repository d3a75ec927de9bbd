import OsImplement.Memory.HeapSearch
import OsImplement.Memory.HeapGrow
import OsImplement.Lib.Cells

/-!
The tags that `alloc` leaves in the hole it takes.

Nothing here is asked of the rest of the heap: a hole is a header that the search has found, and
the bytes that its size covers. The footer of what is left behind the block is put where the
footer of a hole of that size at the block would be, so the end of the hole never gets one, and
another tag may be in its way.
-/

namespace OsImplement.Memory

open Lib.Word Lib.Bytes Lib.Cells

/-! ### The tags as records -/

/-- `header_t`, less the bytes that pad `is_hole`. -/
def headerCells (header isHole size : ℕ) : List (ℕ × UInt8) :=
  wordCells (add32 header 4) HEAP_MAGIC ++ wordCells (add32 header 8) size ++
    [(header % 2 ^ 32, UInt8.ofNat isHole)]

/-- `footer_t` -/
def footerCells (footer header : ℕ) : List (ℕ × UInt8) :=
  wordCells footer HEAP_MAGIC ++ wordCells (add32 footer 4) header

/-- A header with its magic. -/
def IsHeader (m : Mem) (header isHole size : ℕ) : Prop :=
  headerMagic m header = HEAP_MAGIC ∧ headerSize m header = size ∧ headerIsHole m header = isHole

/-- A footer with its magic, that points to the header. -/
def IsFooter (m : Mem) (footer header : ℕ) : Prop :=
  read32 m footer = HEAP_MAGIC ∧ Kernel.footerHeader m footer = header

section Records

variable {m : Mem} {header footer isHole size : ℕ} {S : Set ℕ}

lemma holds_headerCells (hsize : size < 2 ^ 32) (hhole : isHole < 256) :
    Holds m (headerCells header isHole size) ↔ IsHeader m header isHole size := by
  have hmagic : HEAP_MAGIC < 2 ^ 32 := by decide
  unfold headerCells IsHeader headerMagic headerSize headerIsHole
  rw [holds_append, holds_append, holds_wordCells hmagic, holds_wordCells hsize, and_assoc]
  refine and_congr_right fun _ => and_congr_right fun _ => ?_
  have hread : read8 m header = m (header % 2 ^ 32) := rfl
  simp only [Holds, List.mem_singleton, forall_eq, hread]
  constructor
  · intro h
    rw [h, UInt8.toNat_ofNat', Nat.mod_eq_of_lt hhole]
  · intro h
    rw [← h, UInt8.ofNat_toNat]

lemma holds_footerCells (hheader : header < 2 ^ 32) :
    Holds m (footerCells footer header) ↔ IsFooter m footer header := by
  have hmagic : HEAP_MAGIC < 2 ^ 32 := by decide
  unfold footerCells IsFooter Kernel.footerHeader
  rw [holds_append, holds_wordCells hmagic, holds_wordCells hheader]

lemma mem_headerCells {c : ℕ × UInt8} (htop : header + 12 ≤ 2 ^ 32)
    (hc : c ∈ headerCells header isHole size) : header ≤ c.1 ∧ c.1 < header + 12 := by
  unfold headerCells at hc
  simp only [List.mem_append, mem_wordCells, List.mem_singleton] at hc
  have h4 : add32 header 4 = header + 4 := add32_eq (by omega)
  have h8 : add32 header 8 = header + 8 := add32_eq (by omega)
  rw [h4, h8] at hc
  rcases hc with (⟨i, hi, rfl⟩ | ⟨i, hi, rfl⟩) | rfl <;> simp only <;> omega

lemma mem_footerCells {c : ℕ × UInt8} (htop : footer + 8 ≤ 2 ^ 32)
    (hc : c ∈ footerCells footer header) : footer ≤ c.1 ∧ c.1 < footer + 8 := by
  unfold footerCells at hc
  simp only [List.mem_append, mem_wordCells] at hc
  have h4 : add32 footer 4 = footer + 4 := add32_eq (by omega)
  rw [h4] at hc
  rcases hc with ⟨i, hi, rfl⟩ | ⟨i, hi, rfl⟩ <;> simp only <;> omega

lemma stores_writeHeader (htop : header + 12 ≤ 2 ^ 32) :
    Stores m (writeHeader header isHole size m) (headerCells header isHole size) := by
  have h4 : add32 header 4 = header + 4 := add32_eq (by omega)
  have h8 : add32 header 8 = header + 8 := add32_eq (by omega)
  unfold writeHeader setHeaderSize headerCells
  rw [h4, h8]
  refine (stores_write32.append stores_write32 (agree_of_apart ?_)).append stores_write8
    (agree_of_apart ?_)
  · intro c hc d hd
    obtain ⟨i, hi, rfl⟩ := mem_wordCells.mp hc
    obtain ⟨j, hj, rfl⟩ := mem_wordCells.mp hd
    simp only
    omega
  · intro c hc d hd
    rw [List.mem_singleton] at hc
    simp only [List.mem_append, mem_wordCells] at hd
    subst hc
    rcases hd with ⟨j, hj, rfl⟩ | ⟨j, hj, rfl⟩ <;> simp only <;> omega

lemma stores_writeFooter (htop : footer + 8 ≤ 2 ^ 32) :
    Stores m (writeFooter footer header m) (footerCells footer header) := by
  have h4 : add32 footer 4 = footer + 4 := add32_eq (by omega)
  unfold writeFooter footerCells
  rw [h4]
  refine stores_write32.append stores_write32 (agree_of_apart ?_)
  intro c hc d hd
  obtain ⟨i, hi, rfl⟩ := mem_wordCells.mp hc
  obtain ⟨j, hj, rfl⟩ := mem_wordCells.mp hd
  simp only
  omega

end Records

/-! ### The index beside the hole -/

/-- The `N` slots of the index lie outside of `[p, p + s)`. An insertion has a slot to spare: it
shifts the entries up to slot `cur + 1`. -/
structure IndexApart (a : SortedArray) (N p s : ℕ) : Prop where
  top : a.array + 4 * N ≤ 2 ^ 32
  size : a.size ≤ N
  spare : a.cur + 1 < N ∨ a.cur = 0 ∧ 0 < N
  apart : a.array + 4 * N ≤ p ∨ p + s ≤ a.array

/-- The bytes of the index. -/
def indexBytes (a : SortedArray) (N : ℕ) : Set ℕ := Set.Ico a.array (a.array + 4 * N)

namespace IndexApart

variable {a : SortedArray} {N p s i item x : ℕ} {m : Mem}

lemma not_mem (h : IndexApart a N p s) (h1 : p ≤ x) (h2 : x < p + s) : x ∉ indexBytes a N := by
  intro hx
  have hlo : a.array ≤ x := hx.1
  have hhi : x < a.array + 4 * N := hx.2
  have := h.apart
  omega

lemma remove (h : IndexApart a N p s) (ha : a.array ≠ 0) (hi : i < a.size) :
    ∃ a' m', removeSortedArray i a m = some (a', m') ∧ IndexApart a' N p s ∧
      a'.array = a.array ∧ a'.cur = a.cur ∧ a'.cmpFun = a.cmpFun ∧
      Writes m m' (indexBytes a N) := by
  have hsize := h.size
  unfold removeSortedArray
  rw [if_neg ha, if_neg (by omega)]
  refine ⟨_, _, rfl, ⟨h.top, ?_, h.spare, h.apart⟩, rfl, rfl, rfl,
    writes_shiftDown h.top _ _ _ (by omega) (by omega)⟩
  show a.size - 1 ≤ N
  omega

lemma slots (h : IndexApart a N p s) : ∀ j ∈ insertSlots item a m, j < N := by
  intro j hj
  have hle := insertPos_le item a m
  have hspare := h.spare
  unfold insertSlots at hj
  simp only at hj
  split_ifs at hj with hend
  · rw [List.mem_singleton] at hj
    omega
  · rw [List.mem_range'_1] at hj
    omega

lemma insert (h : IndexApart a N p s) :
    Writes m (insertSortedArray item a m).2 (indexBytes a N) :=
  writes_insertSortedArray h.top h.slots

end IndexApart

/-! ### A block in a hole -/

/-- The payload of a block of `size` bytes, with what is too small to be left. -/
def blockSize (s n size : ℕ) : ℕ := if sub32 s n < 20 then add32 size (sub32 s n) else size

/-- The tags of a block at `p`, with `room` bytes of `s`, and of what is left behind it. -/
def placeTags (p s size room end_ : ℕ) (m : Mem) : Mem :=
  let m := writeFooter (add32 (add32 p size) 12) p (writeHeader p 0 room m)
  if room < s then
    let hole := add32 (add32 p 20) size
    let m := writeHeader hole 1 (sub32 s room) m
    let footer := sub32 (sub32 (add32 p s) 8) room
    if footer < end_ then writeFooter footer hole m else m
  else m

/-- The kernel behind the tags: what is left is listed. -/
def placeRest (p s size room : ℕ) (k : Kernel) : Kernel :=
  if room < s then k.insertHole (add32 (add32 p 20) size) else k

section Place

variable {i p q s s' n size room N end_ : ℕ} {pageAlign : Bool} {k : Kernel} {m m₁ : Mem}
  {a a₁ : SortedArray}

theorem placeBlock_eq (hfind : findSortedArray i k.heap.index k.mem = some p)
    (hs : headerSize k.mem p = s) (hroom : room = blockRoom s n) (hsize : blockSize s n size = s')
    {t : ℕ} (hcut : k.cutFront i p s pageAlign = some (q, t, k.retag m₁ a₁)) :
    k.placeBlock i size n pageAlign = some (add32 q 12,
      placeRest q t s' room (k.retag (placeTags q t s' room k.heap.endAddress m₁) a₁)) := by
  have hsel : (if sub32 s n < 12 + 8 then s else n) = room := hroom.symm
  have hsel' : (if sub32 s n < 12 + 8 then add32 size (sub32 s n) else size) = s' := hsize
  unfold Kernel.placeBlock
  rw [hfind]
  simp only [Option.bind_eq_bind, Option.bind_some, hs, hsel, hsel', hcut]
  unfold Kernel.cutBack placeRest placeTags
  simp only [Kernel.write_eq, Kernel.retag_retag, Kernel.mem_retag, Kernel.index_retag,
    Kernel.endAddress_retag]
  by_cases hlt : room < t
  · by_cases hend : sub32 (sub32 (add32 q t) 8) room < k.heap.endAddress <;>
      simp only [hlt, hend, ↓reduceIte]
  · simp only [hlt, ↓reduceIte]

lemma cutFront_plain (hd : alignOffset pageAlign p = 0) (ha : k.heap.index.array ≠ 0)
    (hi : i < k.heap.index.size) (hx : IndexApart k.heap.index N p s) :
    ∃ m₁ a₁, k.cutFront i p s pageAlign = some (p, s, k.retag m₁ a₁) ∧
      IndexApart a₁ N p s ∧ a₁.array = k.heap.index.array ∧ a₁.cur = k.heap.index.cur ∧
      a₁.cmpFun = k.heap.index.cmpFun ∧ Writes k.mem m₁ (indexBytes k.heap.index N) := by
  obtain ⟨a₁, m₁, hrem, hx₁, harr, hcur, hcmp, hw₁⟩ := @IndexApart.remove _ _ _ _ i k.mem hx ha hi
  refine ⟨m₁, a₁, ?_, hx₁, harr, hcur, hcmp, hw₁⟩
  unfold Kernel.cutFront
  rw [and_mask, if_neg fun h => alignOffset_ne_zero.mpr h hd, Kernel.removeHole, hrem]
  rfl

lemma writes_placeRest (hx : IndexApart a N p s) (q t size room : ℕ) :
    Writes m (placeRest q t size room (k.retag m a)).mem (indexBytes a N) := by
  unfold placeRest
  split_ifs
  · exact hx.insert
  · exact Writes.refl _ _

lemma index_placeRest (hx : IndexApart a N p s) (hcmp : a.cmpFun = headerCmpLess) (q t size room : ℕ) :
    let k' := placeRest q t size room (k.retag m a)
    if room < t then k'.heap.index.cur = add32 a.cur 1 ∧
        slot k'.heap.index.array k'.mem 0 = add32 (add32 q 20) size
      else k'.heap.index.cur = a.cur := by
  unfold placeRest
  by_cases hlt : room < t
  · simp only [if_pos hlt]
    refine ⟨cur_insertSortedArray, ?_⟩
    have harr : (insertSortedArray (add32 (add32 q 20) size) a m).1.array = a.array := by
      unfold insertSortedArray
      simp only
      split_ifs <;> rfl
    show slot (insertSortedArray (add32 (add32 q 20) size) a m).1.array
      (insertSortedArray (add32 (add32 q 20) size) a m).2 0 = _
    rw [harr, slot_insertSortedArray hx.top hx.slots (add32_lt _ _) (Nat.zero_le _),
      Listed.insertPos_eq hcmp]
    rfl
  · simp only [if_neg hlt]
    rfl

end Place

/-! ### Where the tags are -/

section Tags

variable {p s n size size' room end_ : ℕ} {m : Mem}

lemma blockSize_mod (hn : add32 (add32 size 12) 8 = n) (hns : n ≤ s) (hs : s < 2 ^ 32)
    (hsize : size < 2 ^ 32) : (blockSize s n size + 20) % 2 ^ 32 = blockRoom s n ∧
      blockSize s n size < 2 ^ 32 := by
  have hsub : sub32 s n = s - n := sub32_eq hns hs
  rw [blockRoom, blockSize, hsub]
  unfold add32 at *
  split_ifs <;> omega

lemma blockSize_add (hn : add32 (add32 size 12) 8 = n) (hns : n ≤ s) (hs : s < 2 ^ 32)
    (h20 : 20 ≤ blockRoom s n) (hsize : size < 2 ^ 32) :
    blockSize s n size + 20 = blockRoom s n := by
  have h := blockSize_mod hn hns hs hsize
  omega

/-- A block of `room` bytes, with its tags, goes into `s` bytes: it takes all of them, or leaves room
for two tags. -/
structure Fits (s room : ℕ) : Prop where
  tags : 20 ≤ room
  le : room ≤ s
  rest : room < s → room + 20 ≤ s

lemma fits_blockRoom (hns : n ≤ s) (hs : s < 2 ^ 32) (h20 : 20 ≤ blockRoom s n) :
    Fits s (blockRoom s n) := by
  have hsub : sub32 s n = s - n := sub32_eq hns hs
  refine ⟨h20, ?_, ?_⟩
  · rw [blockRoom, hsub]
    split_ifs <;> omega
  · rw [blockRoom, hsub]
    split_ifs <;> omega

/-- The tags of a block of `room` bytes in the hole at `p`, and of the hole behind it, with no address
that wraps. -/
def splitMem (p s room end_ : ℕ) (m : Mem) : Mem :=
  let m := writeFooter (p + room - 8) p (writeHeader p 0 room m)
  if room < s then
    let m := writeHeader (p + room) 1 (s - room) m
    if p + s - room - 8 < end_ then writeFooter (p + s - room - 8) (p + room) m else m
  else m

lemma placeTags_eq (h : Fits s room) (htop : p + s ≤ 2 ^ 32) (hs : s < 2 ^ 32)
    (hsize : size + 20 = room) : placeTags p s size room end_ m = splitMem p s room end_ m := by
  obtain ⟨h20, hle, hrest⟩ := h
  have hps : add32 p size = p + size := add32_eq (by omega)
  have hfoot : add32 (add32 p size) 12 = p + room - 8 := by
    rw [hps, add32_eq (by omega)]
    omega
  unfold placeTags splitMem
  rw [hfoot]
  by_cases hlt : room < s
  · have hroom := hrest hlt
    have hp20 : add32 p 20 = p + 20 := add32_eq (by omega)
    have hhole : add32 (add32 p 20) size = p + room := by
      rw [hp20, add32_eq (by omega)]
      omega
    have hsub : sub32 s room = s - room := sub32_eq hle hs
    have hback : sub32 (sub32 (add32 p s) 8) room = p + s - room - 8 := by
      unfold add32 sub32
      omega
    simp only [hhole, hsub, hback]
  · simp only [hlt, ↓reduceIte]

lemma writes_splitMem (h : Fits s room) (htop : p + s ≤ 2 ^ 32) :
    Writes m (splitMem p s room end_ m) (Set.Ico p (p + s)) := by
  obtain ⟨h20, hle, hrest⟩ := h
  have hblock : Writes m (writeFooter (p + room - 8) p (writeHeader p 0 room m))
      (Set.Ico p (p + s)) :=
    (writes_writeHeader le_rfl (by omega) (by omega)).trans
      (writes_writeFooter (by omega) (by omega) (by omega))
  unfold splitMem
  by_cases hlt : room < s
  · have := hrest hlt
    simp only [if_pos hlt]
    have hhole := hblock.trans (@writes_writeHeader _ (p + room) (s - room) 1 p (p + s)
      (by omega) (by omega) (by omega))
    split_ifs
    · exact hhole.trans (writes_writeFooter (by omega) (by omega) (by omega))
    · exact hhole
  · simp only [if_neg hlt]
    exact hblock

end Tags

/-! ### A request that a hole serves -/

/-- `alloc` finds room for `n` bytes in the hole of `s` bytes at `p`, listed at slot `i`. -/
structure Served (k : Kernel) (i p s n : ℕ) (pageAlign : Bool) : Prop where
  found : findHoleFitFirst n pageAlign k.heap k.mem = some (some i)
  slot : slot k.heap.index.array k.mem i = p
  size : headerSize k.mem p = s
  top : p + s ≤ 2 ^ 32

namespace Served

variable {i p s n size room N : ℕ} {pageAlign : Bool} {k : Kernel}

lemma array (h : Served k i p s n pageAlign) : k.heap.index.array ≠ 0 := by
  intro h0
  have hfound := h.found
  unfold findHoleFitFirst at hfound
  cases hsize : k.heap.index.size with
  | zero =>
    rw [hsize] at hfound
    cases hfound
  | succ c =>
    have hnone : findSortedArray 0 k.heap.index k.mem = none := if_pos (.inl h0)
    rw [hsize, findHole, hnone] at hfound
    cases hfound

lemma lt (h : Served k i p s n pageAlign) : i < k.heap.index.size ∧
    holeFits n pageAlign k.mem p := by
  have hfound := h.found
  unfold findHoleFitFirst at hfound
  rw [findHole_eq h.array _ _ (Nat.zero_add _), ← List.range_eq_range', Option.some_inj,
    List.find?_range_eq_some, List.mem_range, h.slot] at hfound
  exact ⟨hfound.2.1, hfound.1⟩

lemma find (h : Served k i p s n pageAlign) : findSortedArray i k.heap.index k.mem = some p := by
  have hi := h.lt.1
  rw [findSortedArray, if_neg (not_or.mpr ⟨h.array, by omega⟩), h.slot]

lemma size_lt (h : Served k i p s n pageAlign) : s < 2 ^ 32 := h.size ▸ headerSize_lt _ _

lemma le (h : Served k i p s n pageAlign) (hd : alignOffset pageAlign p = 0) : n ≤ s := by
  have hfit := (holeFits_iff n p pageAlign k.mem).mp h.lt.2
  rw [hd, h.size] at hfit
  split_ifs at hfit <;> omega

/-- **A request served without alignment**, as three changes of the memory: an entry goes, the tags
are written, an entry comes. -/
theorem plain (h : Served k i p s n pageAlign) (hd : alignOffset pageAlign p = 0)
    (hx : IndexApart k.heap.index N p s) (hn : add32 (add32 size 12) 8 = n) (hsize : size < 2 ^ 32)
    (hroom : blockRoom s n = room) (h20 : 20 ≤ room) :
    ∃ k' m₁, k.placeBlock i size n pageAlign = some (p + 12, k') ∧ Fits s room ∧
      Writes k.mem m₁ (indexBytes k.heap.index N) ∧
      Writes (splitMem p s room k.heap.endAddress m₁) k'.mem (indexBytes k.heap.index N) := by
  have htop := h.top
  have hfits := fits_blockRoom (h.le hd) h.size_lt (hroom ▸ h20)
  rw [hroom] at hfits
  have hle := hfits.le
  obtain ⟨m₁, a₁, hcut, hx₁, harr, -, -, hw⟩ := @cutFront_plain i p s N pageAlign k hd h.array
    h.lt.1 hx
  have hadd := blockSize_add hn (h.le hd) h.size_lt (hroom ▸ h20) hsize
  rw [hroom] at hadd
  have hplace : k.placeBlock i size n pageAlign = _ :=
    placeBlock_eq h.find h.size hroom.symm rfl hcut
  rw [placeTags_eq hfits htop h.size_lt hadd, add32_eq (by omega)] at hplace
  refine ⟨_, m₁, hplace, hfits, hw, ?_⟩
  have hbytes : indexBytes a₁ N = indexBytes k.heap.index N := by rw [indexBytes, indexBytes, harr]
  rw [← hbytes]
  exact writes_placeRest hx₁ _ _ _ _

end Served

section Calls

variable {i p s size N fuel : ℕ} {k : Kernel}

/-- **A split is local**: the hole and the index are all that changes. -/
theorem alloc_local (h : Served k i p s (size + 20) false) (hn : size + 20 < 2 ^ 32)
    (hx : IndexApart k.heap.index N p s) :
    ∃ k', Kernel.alloc (fuel + 1) size false k = some (p + 12, k') ∧
      Writes k.mem k'.mem (Set.Ico p (p + s) ∪ indexBytes k.heap.index N) := by
  have hd : alignOffset false p = 0 := if_neg (by simp)
  have hle := h.le hd
  have h20 : 20 ≤ blockRoom s (size + 20) := by
    unfold blockRoom
    split_ifs <;> omega
  obtain ⟨k', m₁, hplace, hfits, hw₁, hw₃⟩ := h.plain hd hx (Kernel.newSize_eq hn) (by omega) rfl h20
  refine ⟨k', by rw [Kernel.alloc_place hn h.found, hplace],
    ((hw₁.mono Set.subset_union_right).trans ?_).trans (hw₃.mono Set.subset_union_right)⟩
  exact (writes_splitMem hfits h.top).mono Set.subset_union_left

end Calls

/-- A kernel with one hole of `s` bytes at `p`. -/
def oneHoleKernel (p s end_ : ℕ) : Kernel where
  mem := oneHole p s
  heap := oneHoleHeap 1 1 end_
  kheap := 0
  placementAddress := 0
  map := ⟨fun _ => 0, 0⟩
  tables := fun _ _ => .zero
  dirs := fun _ => .zero
  vmPageDir := 0
  curVmPageDir := 0
  phys := fun _ => 0
  console := []

lemma indexApart_oneHole : IndexApart (oneHoleKernel 0x2000 100 0x3000).heap.index 4 0x2000 100 where
  top := by decide
  size := by decide
  spare := .inl (by decide)
  apart := .inl (by decide)

lemma served_oneHole : Served (oneHoleKernel 0x2000 100 0x3000) 0 0x2000 100 40 false where
  found := by decide +kernel
  slot := by decide +kernel
  size := by decide +kernel
  top := by decide

theorem alloc_local_one :
    ∃ k', Kernel.alloc 1 20 false (oneHoleKernel 0x2000 100 0x3000) = some (0x200C, k') ∧
      Writes (oneHole 0x2000 100) k'.mem (Set.Ico 0x2000 0x2064 ∪ Set.Ico 0x1000 0x1010) :=
  alloc_local served_oneHole (by decide) indexApart_oneHole

/-! ### The four tags of a split -/

/-- The tags of a block of `n` bytes and of the hole behind it. -/
def SplitTags (m : Mem) (p s n : ℕ) : Prop :=
  (IsHeader m p 0 n ∧ IsFooter m (p + n - 8) p ∧ IsHeader m (p + n) 1 (s - n)) ∧
    IsFooter m (p + s - 8) (p + n)

/-- What the footer that `alloc` puts at `p + s - n - 8` may meet: the footer of the block, and the
header of the hole. -/
def FooterAgrees (p s n : ℕ) : Prop :=
  Agree (footerCells (p + s - n - 8) (p + n))
    (footerCells (p + n - 8) p ++ headerCells (p + n) 1 (s - n))

section Split

variable {p s n end_ : ℕ} {m : Mem} {c : ℕ × UInt8}

/-- It meets neither when one of the two parts is large enough. -/
lemma footerAgrees_of_far (hs : n + 20 ≤ s) (hn : 20 ≤ n) (htop : p + s ≤ 2 ^ 32)
    (h : s + 8 ≤ 2 * n ∨ 2 * n + 20 ≤ s) : FooterAgrees p s n := by
  refine agree_of_apart fun c hc d hd => ?_
  have hc' := mem_footerCells (by omega) hc
  rcases List.mem_append.mp hd with hd | hd
  · have hd' := mem_footerCells (by omega) hd
    omega
  · have hd' := mem_headerCells (by omega) hd
    omega

/-- The tags that the split writes: the header of the block, its footer, and the header of the
hole. -/
def writtenCells (p s n : ℕ) : List (ℕ × UInt8) :=
  headerCells p 0 n ++ (footerCells (p + n - 8) p ++ headerCells (p + n) 1 (s - n))

lemma splitTags_iff (hs : n + 20 ≤ s) (htop : p + s ≤ 2 ^ 32) (hs32 : s < 2 ^ 32) :
    SplitTags m p s n ↔
      Holds m (writtenCells p s n) ∧ Holds m (footerCells (p + s - 8) (p + n)) := by
  unfold writtenCells SplitTags
  rw [holds_append, holds_append, holds_headerCells (by omega) (by omega),
    holds_footerCells (by omega), holds_headerCells (by omega) (by omega),
    holds_footerCells (by omega)]

lemma mem_writtenCells (hs : n + 20 ≤ s) (hn : 20 ≤ n) (htop : p + s ≤ 2 ^ 32)
    (hc : c ∈ writtenCells p s n) : p ≤ c.1 ∧ c.1 < p + s - 8 := by
  unfold writtenCells at hc
  rcases List.mem_append.mp hc with hc | hc
  · have := mem_headerCells (by omega) hc
    omega
  · rcases List.mem_append.mp hc with hc | hc
    · have := mem_footerCells (by omega) hc
      omega
    · have := mem_headerCells (by omega) hc
      omega

lemma stores_written (hs : n + 20 ≤ s) (hn : 20 ≤ n) (htop : p + s ≤ 2 ^ 32) :
    Stores m (writeHeader (p + n) 1 (s - n) (writeFooter (p + n - 8) p (writeHeader p 0 n m)))
      (writtenCells p s n) := by
  unfold writtenCells
  rw [← List.append_assoc]
  refine ((stores_writeHeader (by omega)).append (stores_writeFooter (by omega))
    (agree_of_apart fun c hc d hd => ?_)).append (stores_writeHeader (by omega))
    (agree_of_apart fun c hc d hd => ?_)
  · have hc' := mem_footerCells (by omega) hc
    have hd' := mem_headerCells (by omega) hd
    omega
  · have hc' := mem_headerCells (by omega) hc
    rcases List.mem_append.mp hd with hd | hd
    · have hd' := mem_headerCells (by omega) hd
      omega
    · have hd' := mem_footerCells (by omega) hd
      omega

/-- **The tags in memory**: nothing is written at the end of the hole, and one footer is written
elsewhere. -/
theorem splitTags_splitMem (hs : n + 20 ≤ s) (hn : 20 ≤ n) (htop : p + s ≤ 2 ^ 32)
    (hs32 : s < 2 ^ 32) : SplitTags (splitMem p s n end_ m) p s n ↔
      IsFooter m (p + s - 8) (p + n) ∧ (end_ ≤ p + s - n - 8 ∨ FooterAgrees p s n) := by
  have hlast {c : ℕ × UInt8} (hc : c ∈ footerCells (p + s - 8) (p + n)) :
      c.1 ∉ Set.Iio (p + s - 8) := by
    have hc' := mem_footerCells (by omega) hc
    exact fun hlt => absurd hc'.1 (Nat.not_le_of_lt hlt)
  have hstored := @stores_written p s n m hs hn htop
  set m₄ := writeHeader (p + n) 1 (s - n) (writeFooter (p + n - 8) p (writeHeader p 0 n m))
  have hlast₄ : Holds m₄ (footerCells (p + s - 8) (p + n)) ↔ IsFooter m (p + s - 8) (p + n) := by
    rw [← holds_footerCells (by omega)]
    exact Holds.frame (hstored.writes fun c hc => (mem_writtenCells hs hn htop hc).2)
      fun c hc => hlast hc
  have hmem : splitMem p s n end_ m =
      if p + s - n - 8 < end_ then writeFooter (p + s - n - 8) (p + n) m₄ else m₄ :=
    if_pos (by omega)
  rw [splitTags_iff hs htop hs32, hmem]
  split_ifs with hend
  · have hput : Stores m₄ (writeFooter (p + s - n - 8) (p + n) m₄)
        (footerCells (p + s - n - 8) (p + n)) := stores_writeFooter (by omega)
    have hat {c : ℕ × UInt8} (hc : c ∈ footerCells (p + s - n - 8) (p + n)) :
        p + 12 ≤ c.1 ∧ c.1 < p + s - 8 := by
      have := mem_footerCells (by omega) hc
      omega
    have hfront : Agree (footerCells (p + s - n - 8) (p + n)) (headerCells p 0 n) :=
      agree_of_apart fun c hc d hd => by
        have hc' := hat hc
        have hd' := mem_headerCells (by omega) hd
        omega
    rw [hput.holds_iff hstored.holds, Holds.frame (hput.writes fun c hc => (hat hc).2) fun c hc =>
      hlast hc, hlast₄, writtenCells, agree_append]
    constructor
    · rintro ⟨⟨-, hagree⟩, hfooter⟩
      exact ⟨hfooter, .inr hagree⟩
    · rintro ⟨hfooter, hagree⟩
      exact ⟨⟨hfront, hagree.resolve_left (by omega)⟩, hfooter⟩
  · rw [hlast₄]
    constructor
    · rintro ⟨-, hfooter⟩
      exact ⟨hfooter, .inl (by omega)⟩
    · rintro ⟨hfooter, -⟩
      exact ⟨hstored.holds, hfooter⟩

lemma splitTags_frame {a : SortedArray} {N : ℕ} {m' : Mem} (hs : n + 20 ≤ s) (hn : 20 ≤ n)
    (htop : p + s ≤ 2 ^ 32) (hs32 : s < 2 ^ 32) (hx : IndexApart a N p s)
    (hw : Writes m m' (indexBytes a N)) : (SplitTags m' p s n ↔ SplitTags m p s n) ∧
      (IsFooter m' (p + s - 8) (p + n) ↔ IsFooter m (p + s - 8) (p + n)) := by
  have hlast : Holds m' (footerCells (p + s - 8) (p + n)) ↔
      Holds m (footerCells (p + s - 8) (p + n)) := Holds.frame hw fun c hc => by
    have := mem_footerCells (by omega) hc
    exact hx.not_mem (by omega) (by omega)
  have hwritten : Holds m' (writtenCells p s n) ↔ Holds m (writtenCells p s n) :=
    Holds.frame hw fun c hc => by
      have := mem_writtenCells hs hn htop hc
      exact hx.not_mem (by omega) (by omega)
  rw [splitTags_iff hs htop hs32, splitTags_iff hs htop hs32, hlast, hwritten,
    ← holds_footerCells (by omega), ← holds_footerCells (by omega), hlast]
  exact ⟨Iff.rfl, Iff.rfl⟩

/-- **The tags of a split** are as they should be exactly when the footer at the end of the hole has
been there before, and the footer that is put elsewhere does no harm there. -/
theorem split_tags_iff {i size N fuel : ℕ} {k : Kernel} (hn : n = size + 20)
    (h : Served k i p s n false) (hs : n + 20 ≤ s) (hx : IndexApart k.heap.index N p s) :
    ∃ k', Kernel.alloc (fuel + 1) size false k = some (p + 12, k') ∧
      (SplitTags k'.mem p s n ↔ IsFooter k.mem (p + s - 8) (p + n) ∧
        (k.heap.endAddress ≤ p + s - n - 8 ∨ FooterAgrees p s n)) := by
  have hd : alignOffset false p = 0 := if_neg (by simp)
  have hs32 := h.size_lt
  have hroom : blockRoom s n = n := by
    rw [blockRoom, sub32_eq (h.le hd) hs32, if_neg (by omega)]
  have hnew : add32 (add32 size 12) 8 = n := by rw [Kernel.newSize_eq (by omega), hn]
  obtain ⟨k', m₁, hplace, -, hw₁, hw₃⟩ := h.plain hd hx hnew (by omega) hroom (by omega)
  refine ⟨k', ?_, ?_⟩
  · subst hn
    rw [Kernel.alloc_place (by omega) h.found, hplace]
  · rw [(splitTags_frame hs (by omega) h.top hs32 hx hw₃).1, splitTags_splitMem hs (by omega) h.top
      hs32, (splitTags_frame hs (by omega) h.top hs32 hx hw₁).2]

end Split

/-- The footer at the end of the hole is not there. -/
theorem split_tags_fail : Served (oneHoleKernel 0x2000 100 0x3000) 0 0x2000 100 40 false ∧
    ∃ k', Kernel.alloc 1 20 false (oneHoleKernel 0x2000 100 0x3000) = some (0x200C, k') ∧
      ¬ SplitTags k'.mem 0x2000 100 40 := by
  refine ⟨served_oneHole, ?_⟩
  have hret : (Kernel.alloc 1 20 false (oneHoleKernel 0x2000 100 0x3000)).map
      (fun r => (r.1, read32 r.2.mem (0x2000 + 100 - 8))) = some (0x200C, 0) := by decide +kernel
  obtain ⟨⟨q, k'⟩, hk', hq⟩ := Option.map_eq_some_iff.mp hret
  obtain ⟨rfl, hword⟩ := Prod.mk.inj hq
  refine ⟨k', hk', fun h => ?_⟩
  have hmagic := h.2.1
  rw [hword] at hmagic
  cases hmagic

theorem split_tags_one :
    ∃ k', Kernel.alloc 1 20 false (oneHoleKernel 0x2000 100 0x3000) = some (0x200C, k') ∧
      (SplitTags k'.mem 0x2000 100 40 ↔
        IsFooter (oneHole 0x2000 100) (0x2000 + 100 - 8) (0x2000 + 40) ∧
          (0x3000 ≤ 0x2000 + 100 - 40 - 8 ∨ FooterAgrees 0x2000 100 40)) :=
  split_tags_iff rfl served_oneHole (by decide) indexApart_oneHole

end OsImplement.Memory
