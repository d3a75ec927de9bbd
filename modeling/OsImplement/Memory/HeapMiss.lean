import OsImplement.Memory.Faults
import OsImplement.Memory.HeapTiles
import OsImplement.Memory.HeapCalls

/-!
A request that no hole satisfies.

`alloc` has the heap extended, and gives what was added to the hole with the highest address,
wherever that hole ends. When it is the last tile, the two belong together. Otherwise a hole grows
over the blocks behind it, and nothing says what lies between the old end and the new one.
-/

namespace OsImplement.Memory

open Lib.Word Lib.Bytes Lib.Cells Lib.Tiling

namespace Kernel

/-- What `alloc` does before it tries again, when no hole has `n` bytes. -/
def Paged.growBranch (inner : HeapAlloc) (n : ℕ) (k : Kernel) : Option Kernel :=
  (k.expand (Paged.mallocAp inner) (add32 k.heapLen n)).bind fun k' =>
    Paged.growHole k.heap.endAddress k.heapLen k'

lemma Paged.alloc_miss {fuel size n : ℕ} {pageAlign : Bool} {k : Kernel}
    (hn : add32 (add32 size 12) 8 = n)
    (h : findHoleFitFirst n pageAlign k.heap k.mem = some none) :
    Paged.alloc (fuel + 1) size pageAlign k =
      (Paged.growBranch (Paged.alloc fuel) n k).bind (Paged.alloc fuel size pageAlign) := by
  rw [Paged.alloc, Paged.growBranch, Option.bind_assoc]
  simp only [hn, h, Option.bind_eq_bind, Option.bind_some]

end Kernel

open Kernel

/-- The bytes between the two ends went to the hole at `top`: it is a new tile, or the last one, a
hole, that has become longer. The other tiles are as they were. -/
structure GrownAt (k k' : Kernel) (hs : List ℕ) (top : ℕ) : Prop where
  start : k'.heap.startAddress = k.heap.startAddress
  le : k.heap.endAddress ≤ k'.heap.endAddress
  tiled : ∃ hs' L', TiledHeap k' hs' L' ∧
    (top = k.heap.endAddress ∧ hs' = hs ++ [top] ∨
      (∃ ys, hs = ys ++ [top]) ∧ headerIsHole k.mem top = 1 ∧ hs' = hs)
  hole : headerIsHole k'.mem top = 1
  footer : IsFooter k'.mem (k'.heap.endAddress - 8) top
  kept : ∀ h ∈ hs, h ≠ top → ∀ x, h ≤ x → x < h + headerSize k.mem h → k'.mem x = k.mem x

/-- No call is made for a page table: there is no heap that has to give it, or none is missing. -/
def TablesPlaced (lo hi : ℕ) (k : Kernel) : Prop := k.kheap = 0 ∨ Tabled lo hi k

/-- The last tile is a hole, or no hole is listed and a new one has room for its tags and a slot in
the index. -/
def EndsInHole (k : Kernel) (hs L : List ℕ) (newSize : ℕ) : Prop :=
  (∃ ys top, hs = ys ++ [top] ∧ headerIsHole k.mem top = 1) ∨
    L = [] ∧ k.heapLen + 20 ≤ newSize ∧ 0 < k.heap.index.size

/-- The heap can grow at its end: no address wraps, no call is made for a page table, what is stored
is mapped, and the last tile is a hole or there is none. -/
structure GrowthOk (inner : HeapAlloc) (k : Kernel) (hs L : List ℕ) (newSize : ℕ) : Prop where
  le : k.heapLen ≤ newSize
  lt : k.heap.startAddress + newSize < 2 ^ 32
  tables : TablesPlaced k.heapLen newSize k
  tablesMapped : PagesMapped inner (fun _ _ _ => True) newSize (2 ^ 20) k.heapLen k
  tagsMapped : ∀ k₁, expandPages (Paged.mallocAp inner) newSize (2 ^ 20) k.heapLen k = some k₁ →
    GrowMapped k.heap.endAddress k.heapLen (k₁.setEnd (k.heap.startAddress + newSize))
  ends : EndsInHole k hs L newSize

/-- A tiled heap with its index below it. -/
structure MissHeap (k : Kernel) (hs L : List ℕ) : Prop where
  tiles : TiledHeap k hs L
  index : IndexApart k.heap.index HEAP_INDEX_SIZE k.heap.startAddress
    (2 ^ 32 - k.heap.startAddress)
  cmpFun : k.heap.index.cmpFun = headerCmpLess
  endLt : k.heap.endAddress < 2 ^ 32

section Index

variable {a : SortedArray} {m : Mem} {L : List ℕ}

lemma Indexed.highest (h : Indexed a m L) (hsize : a.size < NO_SLOT) (hpos : 0 ∉ L) :
    (L = [] ∧ highestSlot a m a.size 0 (NO_SLOT, 0) = some (NO_SLOT, 0)) ∨
      ∃ idx v, v ∈ L ∧ (∀ x ∈ L, x ≤ v) ∧ idx ≠ NO_SLOT ∧
        highestSlot a m a.size 0 (NO_SLOT, 0) = some (idx, v) := by
  have hfind : ∀ i < a.size, findSortedArray i a m = some (L[i]?.getD 0) := fun i hi => by
    rw [findSortedArray, if_neg (not_or.mpr ⟨h.array, by omega⟩), h.slots i hi]
  obtain ⟨idx, v, hr, -, hall, hcase⟩ := highestSlot_spec hfind h.length a.size 0 (NO_SLOT, 0)
    (by omega)
  have hle (x : ℕ) (hx : x ∈ L) : x ≤ v := by
    obtain ⟨j, hj, rfl⟩ := List.getElem_of_mem hx
    have := hall j (Nat.zero_le j)
    rwa [List.getElem?_eq_getElem hj] at this
  rcases hcase with hcase | ⟨h1, h2, h3⟩
  · obtain ⟨rfl, rfl⟩ := Prod.mk.inj hcase
    left
    refine ⟨List.eq_nil_iff_forall_not_mem.mpr fun x hx => ?_, hr⟩
    obtain rfl : x = 0 := Nat.le_zero.mp (hle x hx)
    exact hpos hx
  · right
    obtain ⟨hlt, hv⟩ := Listed.getElem h3 (by simp only at h2; omega)
    exact ⟨idx, v, hv ▸ List.getElem_mem hlt, hle, by omega, hr⟩

end Index

/-! ### The two holes that can grow -/

/-- The tags of a new hole of `g` bytes. -/
def newHole (p g : ℕ) (m : Mem) : Mem :=
  let m := writeHeader p 1 g m
  writeFooter (sub32 (add32 p (headerSize m p)) 8) p m

/-- The tags of a hole that gets `g` bytes more. -/
def extendHole (p g : ℕ) (m : Mem) : Mem :=
  let m := setHeaderSize p (add32 (headerSize m p) g) m
  writeFooter (sub32 (add32 p (headerSize m p)) 8) p m

section Holes

variable {p g s oldEnd oldLen idx v : ℕ} {m : Mem} {k : Kernel}

lemma growHole_empty (hr : highestSlot k.heap.index k.mem k.heap.index.size 0 (NO_SLOT, 0) =
    some (NO_SLOT, 0)) (hg : sub32 k.heapLen oldLen = g) :
    k.growHole oldEnd oldLen =
      some ((k.retag (newHole oldEnd g k.mem) k.heap.index).insertHole oldEnd) := by
  unfold growHole
  rw [hr]
  simp only [Option.bind_eq_bind, Option.bind_some, hg, if_true]
  rfl

lemma growHole_listed (hr : highestSlot k.heap.index k.mem k.heap.index.size 0 (NO_SLOT, 0) =
    some (idx, v)) (hne : idx ≠ NO_SLOT) (hg : sub32 k.heapLen oldLen = g) :
    k.growHole oldEnd oldLen = some (k.retag (extendHole v g k.mem) k.heap.index) := by
  unfold growHole
  rw [hr]
  simp only [Option.bind_eq_bind, Option.bind_some, hg, if_neg hne]
  rfl

lemma newHole_spec (h20 : 20 ≤ g) (htop : p + g < 2 ^ 32) :
    IsHeader (newHole p g m) p 1 g ∧ IsFooter (newHole p g m) (p + g - 8) p ∧
      Writes m (newHole p g m) (Set.Ico p (p + g)) := by
  set m₁ := writeHeader p 1 g m with hm₁
  have hs₁ : headerSize m₁ p = g := headerSize_writeHeader (by omega) (by omega)
  have hfoot : sub32 (add32 p g) 8 = p + g - 8 := by
    rw [add32_eq htop, sub32_eq (by omega) (by omega)]
  have hm₂ : newHole p g m = writeFooter (p + g - 8) p m₁ := by
    unfold newHole
    simp only [← hm₁, hs₁, hfoot]
  have hcells₁ : Stores m m₁ (headerCells p 1 g) := stores_writeHeader (by omega)
  have hcells₂ : Stores m₁ (newHole p g m) (footerCells (p + g - 8) p) := by
    rw [hm₂]
    exact stores_writeFooter (by omega)
  refine ⟨?_, ?_, ?_⟩
  · rw [← holds_headerCells (by omega) (by decide), hcells₂.holds_iff hcells₁.holds]
    refine agree_of_apart fun c hc d hd => ?_
    have hc' := mem_footerCells (by omega) hc
    have hd' := mem_headerCells (by omega) hd
    omega
  · rw [← holds_footerCells (by omega)]
    exact hcells₂.holds
  · rw [hm₂]
    exact (writes_writeHeader le_rfl (by omega) (by omega)).trans
      (writes_writeFooter (by omega) (by omega) (by omega))

lemma extendHole_spec (hs : headerSize m p = s) (h20 : 20 ≤ s) (htop : p + s + g < 2 ^ 32) :
    headerSize (extendHole p g m) p = s + g ∧
      IsFooter (extendHole p g m) (p + s + g - 8) p ∧
      Writes m (extendHole p g m) (Set.Ici (p + 8)) := by
  have hadd : add32 s g = s + g := add32_eq (by omega)
  set m₁ := setHeaderSize p (s + g) m with hm₁
  have hs₁ : headerSize m₁ p = s + g := headerSize_setHeaderSize (by omega) (by omega)
  have hfoot : sub32 (add32 p (s + g)) 8 = p + s + g - 8 := by
    rw [add32_eq (by omega), sub32_eq (by omega) (by omega)]
    omega
  have hm₂ : extendHole p g m = writeFooter (p + s + g - 8) p m₁ := by
    unfold extendHole
    simp only [hs, hadd, ← hm₁, hs₁, hfoot]
  have hw₂ : Writes m₁ (extendHole p g m) (Set.Ico (p + 12) (p + s + g)) := by
    rw [hm₂]
    exact writes_writeFooter (by omega) (by omega) (by omega)
  refine ⟨?_, ?_, ?_⟩
  · rw [headerSize_of_writes hw₂ (by omega) fun x hx => Or.inr hx.1, hs₁]
  · rw [← holds_footerCells (by omega), hm₂]
    exact (stores_writeFooter (by omega)).holds
  · have hw₁ : Writes m m₁ (Set.Ici (p + 8)) := by
      have h8 : add32 p 8 = p + 8 := add32_eq (by omega)
      rw [hm₁, setHeaderSize, h8]
      exact (Writes.write32 le_rfl le_rfl (by omega)).mono Set.Ico_subset_Ici_self
    exact hw₁.trans (hw₂.mono fun x hx => by
      have := hx.1
      show p + 8 ≤ x
      omega)

end Holes

/-! ### The pages -/

section Pages

variable {newSize i a d : ℕ} {inner : HeapAlloc} {m : MallocAp} {k k' k₁ : Kernel}
  {r : Option PageRef}

/-- Near the top of the address space the rounds of `expand` wrap around without an end. -/
lemma expandPages_endless : ∀ (n i : ℕ) (k : Kernel), i < 2 ^ 32 →
    2 ^ 32 - 0x1000 + i % 0x1000 < newSize → expandPages m newSize n i k = none := by
  intro n
  induction n with
  | zero => exact fun _ _ _ _ => rfl
  | succ n ih =>
    intro i k hi h
    unfold expandPages
    rw [if_pos (by omega)]
    refine Option.bind_eq_none_iff.mpr fun r _ => ih _ _ (add32_lt _ _) ?_
    unfold add32
    omega

lemma TablesPlaced.kheap (h : TablesPlaced i newSize k) (hi : i < newSize)
    (hl : k.lookupPage (add32 k.heap.startAddress i) k.vmPageDir = none) : k.kheap = 0 := by
  refine h.resolve_right fun ht => ?_
  have hne := ht 0 (by omega)
  rw [Nat.mul_zero, Nat.add_zero] at hne
  unfold lookupPage at hl
  rw [if_pos hne] at hl
  cases hl

lemma TablesPlaced.round (h : TablesPlaced i newSize k) (hi : i < newSize)
    (hr : k.getPage (mallocAp inner) (add32 k.heap.startAddress i) true k.vmPageDir =
      some (r, k₁)) :
    (k₁.allocFrame r k₁.heap.supervisor (!k₁.heap.readonly)).mem = k.mem ∧
      (k₁.allocFrame r k₁.heap.supervisor (!k₁.heap.readonly)).heap = k.heap ∧
      TablesPlaced (i + 0x1000) newSize
        (k₁.allocFrame r k₁.heap.supervisor (!k₁.heap.readonly)) := by
  obtain ⟨p, rfl⟩ : ∃ p, r = some p := by
    rcases getPage_cases hr with ⟨-, -, rfl⟩ | ⟨-, _, _, _, -, -, rfl⟩ <;> exact ⟨_, rfl⟩
  have hf := onlyFrames_allocFrame k₁ p k₁.heap.supervisor (!k₁.heap.readonly)
  rcases h with h0 | ht
  · obtain ⟨h0', hmem, hheap, -⟩ := getPage_boot h0 hr
    exact ⟨hf.mem.trans hmem, hf.heap.trans hheap, .inl (hf.kheap.trans h0')⟩
  · have hne := ht 0 (by omega)
    rw [Nat.mul_zero, Nat.add_zero] at hne
    obtain rfl : k₁ = k := by
      rcases getPage_cases hr with ⟨-, hk, -⟩ | ⟨hz, -⟩
      · exact hk
      · exact absurd hz hne
    refine ⟨hf.mem, hf.heap, .inr fun j hj => ?_⟩
    have := ht (j + 1) (by omega)
    rw [hf.heap, hf.vm, hf.tableOf, show i + 0x1000 + 0x1000 * j = i + 0x1000 * (j + 1) by omega]
    exact this

/-- **The rounds of `expand` return** where the tables that they make lie in mapped memory. -/
lemma expandPages_returns (hlt : newSize + 0x1000 ≤ 2 ^ 32) : ∀ (n i : ℕ) (k : Kernel),
    newSize ≤ i + 0x1000 * n → TablesPlaced i newSize k →
    PagesMapped inner (fun _ _ _ => True) newSize (n + 1) i k →
    ∃ k', expandPages (Paged.mallocAp inner) newSize (n + 1) i k = some k' := by
  intro n
  induction n with
  | zero =>
    intro i k hn _ _
    rw [expandPages, if_neg (by omega)]
    exact ⟨k, rfl⟩
  | succ n ih =>
    intro i k hn ht hm
    rw [expandPages]
    split_ifs with hi
    · obtain ⟨hplace, hnext⟩ := hm hi
      obtain ⟨⟨r, k₁⟩, hg⟩ : ∃ p, k.getPage (Paged.mallocAp inner) (add32 k.heap.startAddress i) true
          k.vmPageDir = some p := by
        unfold getPage
        cases hl : k.lookupPage (add32 k.heap.startAddress i) k.vmPageDir with
        | some p => exact ⟨_, rfl⟩
        | none =>
          have h0 := ht.kheap hi hl
          have hmap := hplace hl
          rw [if_pos h0] at hmap
          obtain ⟨⟨t, phy, k₁⟩, hal⟩ : ∃ p, mallocAp inner 4096 k = some p := by
            unfold mallocAp malloc
            rw [if_pos h0]
            exact ⟨_, rfl⟩
          rw [if_pos rfl, Paged.mallocAp_some.mpr ⟨hal, hmap _ _ _ hal⟩]
          exact ⟨_, rfl⟩
      have hg' := (Paged.refines_mallocAp fun _ _ _ _ h => h).getPage hg
      obtain ⟨-, -, ht'⟩ := ht.round hi hg'
      have hmap' := hnext _ _ hg'
      have hadd : add32 i 0x1000 = i + 0x1000 := add32_eq (by omega)
      rw [hadd] at hmap'
      obtain ⟨k', hr⟩ := ih _ _ (by omega) ht' hmap'
      refine ⟨k', ?_⟩
      simp only [hg, Option.bind_eq_bind, Option.bind_some, hadd]
      exact hr
    · exact ⟨k, rfl⟩

lemma expandPages_same : ∀ (n i : ℕ) (k : Kernel), i < 2 ^ 32 → TablesPlaced i newSize k →
    expandPages (Paged.mallocAp inner) newSize n i k = some k' →
    k'.mem = k.mem ∧ k'.heap = k.heap ∧
      PagesMapped inner (fun _ _ _ => True) newSize n i k := by
  intro n
  induction n with
  | zero => exact fun _ _ _ _ hr => by simp [expandPages] at hr
  | succ n ih =>
    intro i k hi32 ht hr
    have hends : newSize ≤ 2 ^ 32 - 0x1000 + i % 0x1000 := by
      by_contra hlt
      rw [expandPages_endless _ _ _ hi32 (by omega)] at hr
      cases hr
    unfold expandPages at hr
    split at hr
    · next hi =>
      obtain ⟨⟨r, k₁⟩, hg, hr⟩ := Option.bind_eq_some_iff.mp hr
      have hg' := (Paged.refines_mallocAp fun _ _ _ _ h => h).getPage hg
      obtain ⟨hmem, hheap, ht'⟩ := ht.round hi hg'
      have hadd : add32 i 0x1000 = i + 0x1000 := add32_eq (by omega)
      obtain ⟨h1, h2, h3⟩ := ih _ _ (add32_lt _ _) (hadd ▸ ht') hr
      refine ⟨h1.trans hmem, h2.trans hheap, fun _ => ⟨fun hl => ?_, fun r' k₂ hg₂ => ?_⟩⟩
      · rw [if_pos (ht.kheap hi hl)]
        intro t phy k₂ hal
        unfold getPage at hg
        rw [hl, if_pos rfl] at hg
        obtain ⟨⟨t', phy', k₃⟩, hal', -⟩ := Option.bind_eq_some_iff.mp hg
        obtain ⟨hal', hmap⟩ := Paged.mallocAp_some.mp hal'
        obtain ⟨rfl, rfl, rfl⟩ : t' = t ∧ phy' = phy ∧ k₃ = k₂ := by simpa [hal] using hal'.symm
        exact hmap
      · obtain ⟨rfl, rfl⟩ : r = r' ∧ k₁ = k₂ := by simpa [hg'] using hg₂
        exact h3
    · obtain rfl : k = k' := by simpa using hr
      exact ⟨rfl, rfl, fun h => absurd h ‹_›⟩

end Pages

/-! ### Growth at the end -/

namespace MissHeap

variable {k k₁ k₂ : Kernel} {hs L : List ℕ} {g h top : ℕ} {m : Mem}

lemma le (h : MissHeap k hs L) : k.heap.startAddress ≤ k.heap.endAddress := h.tiles.tiled.le

lemma below (h : MissHeap k hs L) :
    0 < k.heap.index.array ∧ k.heap.index.array + 4 * HEAP_INDEX_SIZE ≤ k.heap.startAddress := by
  have hN : HEAP_INDEX_SIZE = 0x20000 := rfl
  have harr := h.tiles.index.array
  have htop := h.index.top
  have hle := h.le
  have hend := h.endLt
  have hap := h.index.apart
  omega

lemma listed (h : MissHeap k hs L) {x : ℕ} : x ∈ L ↔ x ∈ hs ∧ headerIsHole k.mem x = 1 := by
  rw [h.tiles.holes.mem_iff, List.mem_filter, decide_eq_true_eq]

lemma zero_not_mem (h : MissHeap k hs L) : 0 ∉ L := by
  intro h0
  have hmem := (h.tiles.tiled.mem (h.listed.mp h0).1).1
  have hbelow := h.below
  omega

lemma size_lt (h : MissHeap k hs L) : k.heap.index.size < NO_SLOT := by
  have hsize := h.index.size
  have hN : HEAP_INDEX_SIZE = 0x20000 := rfl
  unfold NO_SLOT
  omega

lemma not_index (h : MissHeap k hs L) {x : ℕ} (hx : k.heap.startAddress ≤ x) :
    x ∉ indexBytes k.heap.index HEAP_INDEX_SIZE := by
  intro hmem
  have hlt : x < k.heap.index.array + 4 * HEAP_INDEX_SIZE := hmem.2
  have hbelow := h.below
  omega

lemma grown_eq (h : MissHeap k hs L) (hheap : k₁.heap = k.heap)
    (hend : k.heap.endAddress + g < 2 ^ 32) :
    sub32 (k₁.setEnd (k.heap.endAddress + g)).heapLen k.heapLen = g := by
  have hle := h.le
  show sub32 (sub32 (k.heap.endAddress + g) k₁.heap.startAddress)
    (sub32 k.heap.endAddress k.heap.startAddress) = g
  rw [hheap, sub32_eq hle (by omega), sub32_eq (by omega) hend, sub32_eq (by omega) (by omega)]
  omega

lemma highest_setEnd (hmem : k₁.mem = k.mem) (hheap : k₁.heap = k.heap) {e : ℕ} {r : Option (ℕ × ℕ)}
    (hr : highestSlot k.heap.index k.mem k.heap.index.size 0 (NO_SLOT, 0) = r) :
    highestSlot (k₁.setEnd e).heap.index (k₁.setEnd e).mem (k₁.setEnd e).heap.index.size 0
      (NO_SLOT, 0) = r := by
  show highestSlot k₁.heap.index k₁.mem k₁.heap.index.size 0 (NO_SLOT, 0) = r
  rw [hheap, hmem, hr]

theorem grow_new (h : MissHeap k hs []) (hmem : k₁.mem = k.mem) (hheap : k₁.heap = k.heap) (h20 : 20 ≤ g)
    (hend : k.heap.endAddress + g < 2 ^ 32) (hsize : 0 < k.heap.index.size) :
    ∃ k₂, (k₁.setEnd (k.heap.endAddress + g)).growHole k.heap.endAddress k.heapLen = some k₂ ∧
      GrownAt k k₂ hs k.heap.endAddress := by
  have hle := h.le
  have hbelow := h.below
  have hg := h.grown_eq hheap hend
  rcases h.tiles.index.highest h.size_lt h.zero_not_mem with ⟨-, hr⟩ | ⟨_, _, hv, -⟩
  · obtain ⟨hheader, hfooter, hw₁⟩ := @newHole_spec k.heap.endAddress g k.mem h20 hend
    set m₁ := newHole k.heap.endAddress g k.mem with hm₁
    have hl₁ : Indexed k.heap.index m₁ [] := h.tiles.index.frame h.index hw₁ fun x hx =>
      h.not_index (hle.trans hx.1)
    have hl₂ := hl₁.insert h.index h.cmpFun (Nat.zero_le _) hsize
      (show k.heap.endAddress < 2 ^ 32 by omega)
    set m₂ := (insertSortedArray k.heap.endAddress k.heap.index m₁).2 with hm₂
    have hw₂ : Writes m₁ m₂ (indexBytes k.heap.index HEAP_INDEX_SIZE) := h.index.insert
    have hbytes (x : ℕ) (h1 : k.heap.startAddress ≤ x) (h2 : x < k.heap.endAddress) :
        m₂ x = k.mem x := by
      rw [hw₂ (h.not_index h1), hw₁ fun hx => by have := hx.1; omega]
    have hold (t : ℕ) (ht : t ∈ hs) : headerSize m₂ t = headerSize k.mem t ∧
        headerMagic m₂ t = headerMagic k.mem t ∧ headerIsHole m₂ t = headerIsHole k.mem t := by
      obtain ⟨h1, h2, h3⟩ := h.tiles.tiled.mem ht
      have hw : Writes k.mem m₂ {x | m₂ x ≠ k.mem x} := fun x hx => by simpa using hx
      exact header_of_writes hw (by omega) fun x h4 h5 hx => hx (hbytes x (by omega) (by omega))
    have hnew := @header_of_writes _ _ k.heap.endAddress _ hw₂ (by omega) fun x h1 _ =>
      h.not_index (by omega)
    have hhole : headerIsHole m₂ k.heap.endAddress = 1 := hnew.2.2.trans hheader.2.2
    refine ⟨(((k₁.setEnd (k.heap.endAddress + g)).retag m₁ k.heap.index).insertHole
      k.heap.endAddress), ?_, ?_⟩
    · rw [growHole_empty (highest_setEnd hmem hheap hr) hg]
      show some (((k₁.setEnd (k.heap.endAddress + g)).retag (newHole k.heap.endAddress g k₁.mem)
        k₁.heap.index).insertHole k.heap.endAddress) = _
      rw [hheap, hmem]
    · have hstart : k₁.heap.startAddress = k.heap.startAddress := by rw [hheap]
      refine ⟨hstart, Nat.le_add_right _ g, ⟨hs ++ [k.heap.endAddress], [k.heap.endAddress],
        ⟨?_, ?_, hl₂, ?_⟩, .inl ⟨rfl, rfl⟩⟩, hhole, ?_, fun t ht _ x h1 h2 => ?_⟩
      · show Tiled m₂ k₁.heap.startAddress _ (k.heap.endAddress + g)
        rw [hheap]
        refine tiled_concat.mpr ⟨h.tiles.tiled.congr fun t ht => (hold t ht).1, ?_, ?_⟩
        · rw [hnew.1, hheader.2.1]
          exact h20
        · rw [hnew.1, hheader.2.1]
      · refine List.forall_mem_append.mpr ⟨fun t ht => ?_, List.forall_mem_singleton.mpr ?_⟩
        · exact (hold t ht).2.1.trans (h.tiles.magic t ht)
        · exact hnew.2.1.trans hheader.1
      · show List.Perm _ (List.filter (fun t => headerIsHole m₂ t = 1) (hs ++ [k.heap.endAddress]))
        rw [List.filter_append, filter_congr fun t ht => (hold t ht).2.2,
          List.filter_singleton, decide_eq_true hhole]
        exact h.tiles.holes.append_right _
      · show IsFooter m₂ (k.heap.endAddress + g - 8) k.heap.endAddress
        rw [← holds_footerCells (by omega), Holds.frame hw₂ fun c hc => ?_,
          holds_footerCells (by omega)]
        · exact hfooter
        · have := mem_footerCells (by omega) hc
          exact h.not_index (by omega)
      · obtain ⟨h3, h4, h5⟩ := h.tiles.tiled.mem ht
        exact hbytes x (by omega) (by omega)
  · cases hv

theorem grow_last (h : MissHeap k (hs ++ [top]) L) (hmem : k₁.mem = k.mem) (hheap : k₁.heap = k.heap)
    (hhole : headerIsHole k.mem top = 1) (hend : k.heap.endAddress + g < 2 ^ 32) :
    ∃ k₂, (k₁.setEnd (k.heap.endAddress + g)).growHole k.heap.endAddress k.heapLen = some k₂ ∧
      GrownAt k k₂ (hs ++ [top]) top := by
  have hle := h.le
  have hbelow := h.below
  have hg := h.grown_eq hheap hend
  have htop : top ∈ hs ++ [top] := List.mem_append_right _ (List.mem_singleton.mpr rfl)
  obtain ⟨h1, h20, -⟩ := h.tiles.tiled.mem htop
  obtain ⟨htiled, -, hlast⟩ := tiled_concat.mp h.tiles.tiled
  rcases h.tiles.index.highest h.size_lt h.zero_not_mem with ⟨rfl, -⟩ | ⟨idx, v, hv, hmax, hne, hr⟩
  · exact absurd (h.listed.mpr ⟨htop, hhole⟩) List.not_mem_nil
  · obtain rfl : v = top := by
      have h2 := h.tiles.tiled.tiles.le_last (h.listed.mp hv).1
      have h3 := hmax top (h.listed.mpr ⟨htop, hhole⟩)
      omega
    obtain ⟨hsize, hfooter, hw⟩ := @extendHole_spec v g _ k.mem rfl h20 (by omega)
    set m₁ := extendHole v g k.mem with hm₁
    have hl₁ : Indexed k.heap.index m₁ L := h.tiles.index.frame h.index hw fun x hx =>
      h.not_index (by have : v + 8 ≤ x := hx; omega)
    have hold (t : ℕ) (ht : t ∈ hs) : headerSize m₁ t = headerSize k.mem t ∧
        headerMagic m₁ t = headerMagic k.mem t ∧ headerIsHole m₁ t = headerIsHole k.mem t := by
      obtain ⟨h2, h3, h4⟩ := htiled.mem ht
      exact header_of_writes hw (by omega) fun x h5 h6 hx => by
        have : v + 8 ≤ x := hx
        omega
    have hmagic : headerMagic m₁ v = headerMagic k.mem v := by
      have h4 : add32 v 4 = v + 4 := add32_eq (by omega)
      unfold headerMagic
      rw [h4]
      exact hw.read32 (by omega) fun x h5 h6 hx => by
        have : v + 8 ≤ x := hx
        omega
    have hflag : headerIsHole m₁ v = headerIsHole k.mem v := by
      unfold headerIsHole
      rw [hw.read8]
      rw [Nat.mod_eq_of_lt (by omega)]
      intro hx
      have : v + 8 ≤ v := hx
      omega
    have hall (t : ℕ) (ht : t ∈ hs ++ [v]) : headerMagic m₁ t = headerMagic k.mem t ∧
        headerIsHole m₁ t = headerIsHole k.mem t := by
      rcases List.mem_append.mp ht with ht | ht
      · exact (hold t ht).2
      · rw [List.mem_singleton.mp ht]
        exact ⟨hmagic, hflag⟩
    refine ⟨(k₁.setEnd (k.heap.endAddress + g)).retag m₁ k.heap.index, ?_, ?_⟩
    · rw [growHole_listed (highest_setEnd hmem hheap hr) hne hg]
      show some ((k₁.setEnd (k.heap.endAddress + g)).retag (extendHole v g k₁.mem)
        k₁.heap.index) = _
      rw [hheap, hmem]
    · have hstart : k₁.heap.startAddress = k.heap.startAddress := by rw [hheap]
      refine ⟨hstart, Nat.le_add_right _ g, ⟨hs ++ [v], L, ⟨?_, ?_, hl₁, ?_⟩,
        .inr ⟨⟨hs, rfl⟩, hhole, rfl⟩⟩, hflag.trans hhole, ?_, fun t ht hne x h2 h3 => ?_⟩
      · show Tiled m₁ k₁.heap.startAddress _ (k.heap.endAddress + g)
        rw [hheap]
        refine tiled_concat.mpr ⟨htiled.congr fun t ht => (hold t ht).1, ?_, ?_⟩ <;>
          rw [hsize] <;> omega
      · exact fun t ht => (hall t ht).1.trans (h.tiles.magic t ht)
      · show List.Perm _ (List.filter (fun t => headerIsHole m₁ t = 1) (hs ++ [v]))
        rw [filter_congr fun t ht => (hall t ht).2]
        exact h.tiles.holes
      · show IsFooter m₁ (k.heap.endAddress + g - 8) v
        rw [← hlast]
        exact hfooter
      · have ht' : t ∈ hs := by
          rcases List.mem_append.mp ht with ht | ht
          · exact ht
          · exact absurd (List.mem_singleton.mp ht) hne
        have := (htiled.mem ht').2.2
        exact hw fun hx => by
          have : v + 8 ≤ x := hx
          omega

variable {newSize : ℕ}

lemma grown_of_ends (h : MissHeap k hs L) (hmem : k₁.mem = k.mem) (hheap : k₁.heap = k.heap)
    (hlen : k.heapLen ≤ newSize) (hlt : k.heap.startAddress + newSize < 2 ^ 32)
    (hends : EndsInHole k hs L newSize) :
    ∃ k₂ top, (k₁.setEnd (k.heap.startAddress + newSize)).growHole k.heap.endAddress k.heapLen =
      some k₂ ∧ GrownAt k k₂ hs top := by
  have hle := h.le
  have hend := h.endLt
  have hlen' : k.heapLen = k.heap.endAddress - k.heap.startAddress := sub32_eq hle (by omega)
  obtain ⟨g, hg⟩ := Nat.exists_eq_add_of_le hlen
  have hnew : k.heap.startAddress + newSize = k.heap.endAddress + g := by omega
  rw [hnew]
  rcases hends with ⟨ys, top, rfl, hhole⟩ | ⟨rfl, h20, hsize⟩
  · obtain ⟨k₂, hk₂, hgrown⟩ := @MissHeap.grow_last k k₁ ys L g top h hmem hheap hhole (by omega)
    exact ⟨k₂, top, hk₂, hgrown⟩
  · obtain ⟨k₂, hk₂, hgrown⟩ := @MissHeap.grow_new k k₁ hs g h hmem hheap (by omega) (by omega)
      hsize
    exact ⟨k₂, _, hk₂, hgrown⟩

lemma ends_of_grown (h : MissHeap k hs L) (hmem : k₁.mem = k.mem) (hheap : k₁.heap = k.heap)
    (hnew : newSize < 2 ^ 32)
    (hr : (k₁.setEnd (add32 k.heap.startAddress newSize)).growHole k.heap.endAddress k.heapLen =
      some k₂) (hgrown : GrownAt k k₂ hs top) :
    k.heapLen ≤ newSize ∧ k.heap.startAddress + newSize < 2 ^ 32 ∧
      EndsInHole k hs L newSize := by
  have hle := h.le
  have hend := h.endLt
  have hlen : k.heapLen = k.heap.endAddress - k.heap.startAddress := sub32_eq hle (by omega)
  obtain ⟨m, a, hk₂⟩ := growHole_retag hr
  have hend₂ : k₂.heap.endAddress = add32 k.heap.startAddress newSize := by
    rw [hk₂]
    rfl
  have hup := hgrown.le
  rw [hend₂] at hup
  have hlt : k.heap.startAddress + newSize < 2 ^ 32 := by
    unfold add32 at hup
    omega
  rw [add32_eq hlt] at hup hend₂
  refine ⟨by omega, hlt, ?_⟩
  obtain ⟨hs', L', htiles, ⟨rfl, rfl⟩ | ⟨⟨ys, rfl⟩, hhole, -⟩⟩ := hgrown.tiled
  · right
    obtain ⟨htiled, h20, hlast⟩ := tiled_concat.mp htiles.tiled
    obtain ⟨g, hg⟩ : ∃ g, k.heap.startAddress + newSize = k.heap.endAddress + g :=
      Nat.exists_eq_add_of_le hup
    rw [add32_eq hlt, hg] at hr
    have hgrow := h.grown_eq hheap (show k.heap.endAddress + g < 2 ^ 32 by omega)
    rcases h.tiles.index.highest h.size_lt h.zero_not_mem with ⟨rfl, hmax⟩ | ⟨idx, v, hv, -, hne, hmax⟩
    · refine ⟨rfl, by omega, ?_⟩
      -- the new hole is listed
      have hin : k.heap.endAddress ∈ L' := by
        rw [htiles.holes.mem_iff, List.mem_filter, decide_eq_true_eq]
        exact ⟨List.mem_append_right _ (List.mem_singleton.mpr rfl), hgrown.hole⟩
      have hpos := List.length_pos_of_mem hin
      have hlen' := htiles.index.length
      rw [growHole_empty (highest_setEnd hmem hheap hmax) hgrow] at hr
      obtain rfl := Option.some.inj hr
      have hsize : (insertSortedArray k.heap.endAddress k₁.heap.index
          (newHole k.heap.endAddress g k₁.mem)).1.size = k.heap.index.size := by
        rw [hheap]
        unfold insertSortedArray
        simp only
        split_ifs <;> rfl
      have hlen₂ : L'.length ≤ (insertSortedArray k.heap.endAddress k₁.heap.index
          (newHole k.heap.endAddress g k₁.mem)).1.size := hlen'
      omega
    · -- the size of a hole below the old end has changed
      rw [growHole_listed (highest_setEnd hmem hheap hmax) hne hgrow] at hr
      obtain rfl := Option.some.inj hr
      obtain ⟨h1, h2, h3⟩ := h.tiles.tiled.mem (h.listed.mp hv).1
      have hsize := (@extendHole_spec v g _ k.mem rfl h2 (by omega)).1
      have hsame : headerSize (extendHole v g k₁.mem) v = headerSize k.mem v := by
        have hw : Writes k.mem (extendHole v g k₁.mem) {x | extendHole v g k₁.mem x ≠ k.mem x} :=
          fun x hx => by simpa using hx
        refine (header_of_writes hw (by omega) fun x h4 h5 hx => hx ?_).1
        exact hgrown.kept v (h.listed.mp hv).1 (by omega) x h4 (by omega)
      rw [hmem] at hsame
      omega
  · exact .inl ⟨ys, top, rfl, hhole⟩

variable {n : ℕ} {inner : HeapAlloc}

lemma growBranch_eq (hexp : expandPages (Paged.mallocAp inner) (roundSize (add32 k.heapLen n))
    (2 ^ 20) k.heapLen k = some k₁) (hheap : k₁.heap = k.heap) :
    Paged.growBranch inner n k = Paged.growHole k.heap.endAddress k.heapLen
      (k₁.setEnd (add32 k.heap.startAddress (roundSize (add32 k.heapLen n)))) := by
  have hexpand : k.expand (Paged.mallocAp inner) (add32 k.heapLen n) =
      some (k₁.setEnd (add32 k.heap.startAddress (roundSize (add32 k.heapLen n)))) := by
    rw [← hheap]
    exact Option.bind_eq_some_iff.mpr ⟨k₁, hexp, rfl⟩
  rw [Paged.growBranch, hexpand, Option.bind_some]

lemma growHole_iff (h : MissHeap k hs L) (hmem : k₁.mem = k.mem) (hheap : k₁.heap = k.heap)
    (hlt : k.heap.startAddress + newSize < 2 ^ 32)
    (hends : EndsInHole k hs L newSize) :
    Paged.growHole k.heap.endAddress k.heapLen (k₁.setEnd (k.heap.startAddress + newSize)) =
      some k₂ ↔
    GrowMapped k.heap.endAddress k.heapLen (k₁.setEnd (k.heap.startAddress + newSize)) ∧
      (k₁.setEnd (k.heap.startAddress + newSize)).growHole k.heap.endAddress k.heapLen =
        some k₂ := by
  have hle := h.le
  have hend := h.endLt
  have hlen' : k.heapLen = k.heap.endAddress - k.heap.startAddress := sub32_eq hle (by omega)
  set k₀ := k₁.setEnd (k.heap.startAddress + newSize)
  have hhigh {idx v : ℕ} (hr : highestSlot k.heap.index k.mem k.heap.index.size 0 (NO_SLOT, 0) =
      some (idx, v)) : highestSlot k₀.heap.index k₀.mem k₀.heap.index.size 0 (NO_SLOT, 0) =
        some (idx, k₀.highestHole) ∧ k₀.highestHole = v := by
    have hr₀ := @highest_setEnd k k₁ hmem hheap (k.heap.startAddress + newSize) _ hr
    have hv : k₀.highestHole = v := by
      rw [highestHole, hr₀]
      rfl
    exact ⟨hv.symm ▸ hr₀, hv⟩
  rcases h.tiles.index.highest h.size_lt h.zero_not_mem with ⟨hL, hr⟩ | ⟨idx, v, hv, -, hne, hr⟩
  · obtain ⟨hr₀, hv⟩ := hhigh hr
    refine Paged.growHole_iff hr₀ (by simp [hv]) fun _ => ?_
    rcases hends with ⟨ys, top, rfl, hhole⟩ | ⟨-, h20, -⟩
    · have htop := h.listed.mpr ⟨List.mem_append_right _ (List.mem_singleton.mpr rfl), hhole⟩
      rw [hL] at htop
      cases htop
    · omega
  · obtain ⟨hr₀, hv₀⟩ := hhigh hr
    have hpos : v ≠ 0 := fun h0 => h.zero_not_mem (h0 ▸ hv)
    exact Paged.growHole_iff hr₀ (by simp [hv₀, hne, hpos]) fun h0 =>
      absurd (hv₀.symm.trans h0) hpos

lemma roundSize_lt (newSize : ℕ) (h : newSize < 2 ^ 32) : roundSize newSize < 2 ^ 32 := by
  unfold roundSize
  split
  · exact add32_lt _ _
  · exact h

theorem grown_of_ok (h : MissHeap k hs L)
    (hok : GrowthOk inner k hs L (roundSize (add32 k.heapLen n))) :
    ∃ k₂ top, Paged.growBranch inner n k = some k₂ ∧ GrownAt k k₂ hs top := by
  obtain ⟨hlen, hlt, htab, hplaced, htags, hends⟩ := hok
  have hbelow := h.below
  have hN : HEAP_INDEX_SIZE = 0x20000 := rfl
  obtain ⟨k₁, hexp⟩ := expandPages_returns (by omega) (2 ^ 20 - 1) _ _ (by omega) htab hplaced
  obtain ⟨hmem, hheap, -⟩ := expandPages_same _ _ _ (show k.heapLen < 2 ^ 32 from sub32_lt _ _) htab hexp
  obtain ⟨k₂, top, hk₂, hgrown⟩ := h.grown_of_ends hmem hheap hlen hlt hends
  refine ⟨k₂, top, ?_, hgrown⟩
  rw [growBranch_eq hexp hheap, add32_eq hlt, h.growHole_iff hmem hheap hlt hends]
  exact ⟨htags _ hexp, hk₂⟩

theorem ok_of_grown (h : MissHeap k hs L)
    (htab : TablesPlaced k.heapLen (roundSize (add32 k.heapLen n)) k)
    (hr : Paged.growBranch inner n k = some k₂) (hgrown : GrownAt k k₂ hs top) :
    GrowthOk inner k hs L (roundSize (add32 k.heapLen n)) := by
  have hround := roundSize_lt (add32 k.heapLen n) (add32_lt _ _)
  obtain ⟨k', hexp, -⟩ := Option.bind_eq_some_iff.mp hr
  obtain ⟨k₁, hexp, -⟩ := Option.bind_eq_some_iff.mp hexp
  obtain ⟨hmem, hheap, hplaced⟩ := expandPages_same _ _ _ (show k.heapLen < 2 ^ 32 from sub32_lt _ _) htab hexp
  rw [growBranch_eq hexp hheap] at hr
  obtain ⟨hlen, hlt, hends⟩ := h.ends_of_grown hmem hheap hround (Paged.growHole_refines hr) hgrown
  refine ⟨hlen, hlt, htab, hplaced, fun k₁' hexp' => ?_, hends⟩
  obtain rfl : k₁ = k₁' := Option.some.inj (hexp.symm.trans hexp')
  rw [add32_eq hlt] at hr
  exact ((h.growHole_iff hmem hheap hlt hends).mp hr).1

end MissHeap

/-- **Growth on a miss** leaves a heap without gaps when it can grow at its end; and where no call is
made for a page table, only then. -/
theorem growth_tiled_iff {k : Kernel} {hs L : List ℕ} {fuel size n : ℕ} {pageAlign : Bool}
    (h : MissHeap k hs L) (hn : n = add32 (add32 size 12) 8)
    (hmiss : findHoleFitFirst n pageAlign k.heap k.mem = some none) :
    Paged.alloc (fuel + 1) size pageAlign k =
        (Paged.growBranch (Paged.alloc fuel) n k).bind (Paged.alloc fuel size pageAlign) ∧
      (GrowthOk (Paged.alloc fuel) k hs L (roundSize (add32 k.heapLen n)) →
        ∃ k₂ top, Paged.growBranch (Paged.alloc fuel) n k = some k₂ ∧ GrownAt k k₂ hs top) ∧
      (TablesPlaced k.heapLen (roundSize (add32 k.heapLen n)) k → ∀ k₂ top,
        Paged.growBranch (Paged.alloc fuel) n k = some k₂ → GrownAt k k₂ hs top →
          GrowthOk (Paged.alloc fuel) k hs L (roundSize (add32 k.heapLen n))) := by
  refine ⟨Paged.alloc_miss hn.symm hmiss, fun hok => h.grown_of_ok hok, fun ht k₂ top hr hgrown => ?_⟩
  exact h.ok_of_grown ht hr hgrown

/-! ### A heap of two tiles -/

/-- A hole of 64 bytes and a block of 4032, or a block and a hole, in that order. -/
def twoTiles (holeFirst : Bool) : Kernel :=
  { oneHoleKernel 0 0 0 with
    mem := writeHeader 0x81000 holeFirst.toNat 0x40 (writeHeader 0x81040 (!holeFirst).toNat 0xFC0
      (write32 (fun _ => 0) 0x1000 (if holeFirst then 0x81000 else 0x81040)))
    heap := { oneHoleHeap 1 1 0x82000 with startAddress := 0x81000 }
    dirs := fun _ => { PageDir.zero with pageTable := fun i => if i = 0 then 1 else 0 } }

lemma missHeap_twoTiles (holeFirst : Bool) : MissHeap (twoTiles holeFirst) [0x81000, 0x81040]
    [if holeFirst then 0x81000 else 0x81040] where
  tiles :=
    { tiled := by
        cases holeFirst <;>
          exact ⟨rfl, by decide +kernel, by decide +kernel, by decide +kernel,
            by unfold Tiled; decide +kernel⟩
      magic := by cases holeFirst <;> decide +kernel
      index :=
        { array := by cases holeFirst <;> decide
          length := le_rfl
          slots := by
            intro i hi
            obtain rfl : i = 0 := Nat.lt_one_iff.mp hi
            cases holeFirst <;> decide +kernel }
      holes := by cases holeFirst <;> decide +kernel }
  index :=
    { top := by cases holeFirst <;> decide
      size := by cases holeFirst <;> decide
      spare := .inl (by cases holeFirst <;> decide)
      apart := .inl (by cases holeFirst <;> decide) }
  cmpFun := rfl
  endLt := by cases holeFirst <;> decide

lemma covered_twoTiles {newSize : ℕ} (holeFirst : Bool) (h : newSize < 0x300000) :
    Covered 0 newSize (twoTiles holeFirst) := by
  intro x _ hx
  have hslot : add32 0x81000 x / 0x1000 / 1024 = 0 := by
    unfold add32
    omega
  show (if add32 0x81000 x / 0x1000 / 1024 = 0 then 1 else 0) ≠ 0
  rw [if_pos hslot]
  exact Nat.one_ne_zero

/-- The hole is in front: the one that is extended by 120 bytes lies on the block. -/
theorem growth_tiled_fails : MissHeap (twoTiles true) [0x81000, 0x81040] [0x81000] ∧
    findHoleFitFirst 120 false (twoTiles true).heap (twoTiles true).mem = some none ∧
      ∃ k₂, Paged.growBranch (Paged.alloc 0) 120 (twoTiles true) = some k₂ ∧
        ¬ ∃ top, GrownAt (twoTiles true) k₂ [0x81000, 0x81040] top := by
  have hret : (Paged.growBranch (Paged.alloc 0) 120 (twoTiles true)).isSome := by decide +kernel
  obtain ⟨k₂, hk₂⟩ := Option.isSome_iff_exists.mp hret
  refine ⟨missHeap_twoTiles true, by decide +kernel, k₂, hk₂, ?_⟩
  rintro ⟨top, hgrown⟩
  rcases ((missHeap_twoTiles true).ok_of_grown (.inl rfl) hk₂ hgrown).ends with
    ⟨ys, top, hys, hhole⟩ | ⟨hL, -⟩
  · have hlast : [0x81000, 0x81040] = [0x81000] ++ [0x81040] := rfl
    rw [hlast] at hys
    obtain ⟨-, htop⟩ := List.append_inj' hys rfl
    obtain rfl : 0x81040 = top := by simpa using htop
    exact absurd hhole (by decide +kernel)
  · cases hL

theorem growth_tiled_one :
    ∃ k₂ top, Paged.growBranch (Paged.alloc 0) 5020 (twoTiles false) = some k₂ ∧
      GrownAt (twoTiles false) k₂ [0x81000, 0x81040] top := by
  have hmiss : findHoleFitFirst 5020 false (twoTiles false).heap (twoTiles false).mem =
      some none := by decide +kernel
  have hlen : (twoTiles false).heapLen = 0x1000 := by decide
  have hsize : roundSize (add32 (twoTiles false).heapLen 5020) = 0x239C := by decide
  obtain ⟨k₁, hexp, hf⟩ := @expandPages_covered (Paged.mallocAp (Paged.alloc 0)) 0x239C 0x1000
    (twoTiles false) (by decide) fun x _ hx => covered_twoTiles false (by decide) x (Nat.zero_le x) hx
  refine (@growth_tiled_iff _ _ _ 0 5000 _ _ (missHeap_twoTiles false) (by decide) hmiss).2.1 ?_
  rw [hsize]
  refine ⟨by rw [hlen]; decide, by decide, .inl rfl, ?_, fun k₂ hk₂ => ?_, ?_⟩
  · rw [hlen]
    exact (expandPages_same _ _ _ (by decide) (.inl rfl) hexp).2.2
  · rw [hlen] at hk₂
    obtain rfl : k₁ = k₂ := Option.some.inj (hexp.symm.trans hk₂)
    have hmapped {a n : ℕ} : (k₁.setEnd ((twoTiles false).heap.startAddress + 0x239C)).MappedFrom
        a n := mappedFrom_boot hf.cur
    unfold GrowMapped
    simp only
    split_ifs <;> exact ⟨hmapped, hmapped⟩
  · exact .inl ⟨[0x81000], 0x81040, rfl, by decide +kernel⟩

end OsImplement.Memory
