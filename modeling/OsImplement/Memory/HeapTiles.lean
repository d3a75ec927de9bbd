import OsImplement.Memory.HeapSplit
import OsImplement.Lib.Tiling

/-!
Heaps without gaps.

Where the sizes of the headers lead from one header to the next, from the start of the heap to its
end, the heap is a tiling. Its tiles are the holes and the blocks, and the index is to list the
holes.
-/

namespace OsImplement.Memory

open Lib.Word Lib.Bytes Lib.Cells Lib.Tiling

/-- The headers, each as far from the next as its size says, fill `[lo, hi)`. -/
def Tiled (m : Mem) : ℕ → List ℕ → ℕ → Prop
  | lo, [], hi => lo = hi
  | lo, h :: hs, hi => h = lo ∧ 20 ≤ headerSize m h ∧ Tiled m (lo + headerSize m h) hs hi

/-- The heap is tiled by the headers `hs`, and `L` is its index: every hole is listed once, and
nothing else is. -/
structure TiledHeap (k : Kernel) (hs L : List ℕ) : Prop where
  tiled : Tiled k.mem k.heap.startAddress hs k.heap.endAddress
  magic : ∀ h ∈ hs, headerMagic k.mem h = HEAP_MAGIC
  index : Indexed k.heap.index k.mem L
  holes : L.Perm (hs.filter fun h => headerIsHole k.mem h = 1)

section Tiles

variable {m m' : Mem} {lo hi h x : ℕ} {hs : List ℕ} {S : Set ℕ}

lemma tiled_iff : ∀ {hs : List ℕ} {lo : ℕ}, Tiled m lo hs hi ↔
    Tiles (headerSize m) lo hs hi ∧ ∀ h ∈ hs, 20 ≤ headerSize m h
  | [], lo => by simp [Tiled, Tiles]
  | h :: hs, lo => by
    unfold Tiled Tiles
    rw [tiled_iff, List.forall_mem_cons]
    constructor
    · rintro ⟨h1, h2, h3, h4⟩
      exact ⟨⟨h1, by omega, h3⟩, h2, h4⟩
    · rintro ⟨⟨h1, -, h3⟩, h2, h4⟩
      exact ⟨h1, h2, h3, h4⟩

lemma Tiled.tiles (ht : Tiled m lo hs hi) : Tiles (headerSize m) lo hs hi := (tiled_iff.mp ht).1

lemma Tiled.le (ht : Tiled m lo hs hi) : lo ≤ hi := ht.tiles.le

lemma Tiled.mem (ht : Tiled m lo hs hi) (hh : h ∈ hs) :
    lo ≤ h ∧ 20 ≤ headerSize m h ∧ h + headerSize m h ≤ hi :=
  ⟨(ht.tiles.mem hh).1, (tiled_iff.mp ht).2 h hh, (ht.tiles.mem hh).2.2⟩

lemma Tiled.congr (ht : Tiled m lo hs hi) (hs' : ∀ h ∈ hs, headerSize m' h = headerSize m h) :
    Tiled m' lo hs hi := by
  refine tiled_iff.mpr ⟨ht.tiles.congr hs', fun h hh => ?_⟩
  rw [hs' h hh]
  exact (ht.mem hh).2.1

lemma filter_congr (hs' : ∀ h ∈ hs, headerIsHole m' h = headerIsHole m h) :
    (hs.filter fun h => headerIsHole m' h = 1) = hs.filter fun h => headerIsHole m h = 1 :=
  List.filter_congr fun h hh => by rw [hs' h hh]

lemma tiled_concat : Tiled m lo (hs ++ [h]) hi ↔
    Tiled m lo hs h ∧ 20 ≤ headerSize m h ∧ h + headerSize m h = hi := by
  simp only [tiled_iff, tiles_concat, List.forall_mem_append, List.forall_mem_singleton]
  constructor
  · rintro ⟨⟨h1, h2, h3⟩, h4, h5⟩
    exact ⟨⟨h1, h4⟩, h5, h3⟩
  · rintro ⟨⟨h1, h4⟩, h5, h3⟩
    exact ⟨⟨h1, by omega, h3⟩, h4, h5⟩

lemma header_of_writes (hw : Writes m m' S) (htop : h + 12 ≤ 2 ^ 32)
    (hS : ∀ x, h ≤ x → x < h + 12 → x ∉ S) : headerSize m' h = headerSize m h ∧
      headerMagic m' h = headerMagic m h ∧ headerIsHole m' h = headerIsHole m h := by
  have h4 : add32 h 4 = h + 4 := add32_eq (by omega)
  refine ⟨headerSize_of_writes hw htop fun x hx => ?_, ?_, ?_⟩
  · by_contra hin
    exact hS x (by omega) (by omega) hx
  · unfold headerMagic
    rw [h4]
    exact hw.read32 (by omega) fun x h1 h2 => hS x (by omega) (by omega)
  · unfold headerIsHole
    rw [hw.read8]
    rw [Nat.mod_eq_of_lt (by omega)]
    exact hS h le_rfl (by omega)

lemma setHeaderSize_spec {v : ℕ} (htop : h + 12 ≤ 2 ^ 32) (hv : v < 2 ^ 32) :
    headerSize (setHeaderSize h v m) h = v ∧
      headerMagic (setHeaderSize h v m) h = headerMagic m h ∧
      headerIsHole (setHeaderSize h v m) h = headerIsHole m h ∧
      Writes m (setHeaderSize h v m) (Set.Ico (h + 8) (h + 12)) := by
  have h4 : add32 h 4 = h + 4 := add32_eq (by omega)
  have h8 : add32 h 8 = h + 8 := add32_eq (by omega)
  have hmod : h % 2 ^ 32 = h := Nat.mod_eq_of_lt (by omega)
  have hw : Writes m (setHeaderSize h v m) (Set.Ico (h + 8) (h + 12)) := by
    rw [setHeaderSize, h8]
    exact Writes.write32 le_rfl (by omega) (by omega)
  have hout {x : ℕ} (hx : x < h + 8) : x ∉ Set.Ico (h + 8) (h + 12) := fun hmem => by
    have := hmem.1
    omega
  refine ⟨headerSize_setHeaderSize htop hv, ?_, ?_, hw⟩
  · rw [headerMagic, headerMagic, h4]
    exact hw.read32 (by omega) fun x h1 h2 => hout (by omega)
  · rw [headerIsHole, headerIsHole, hw.read8 (by rw [hmod]; exact hout (by omega))]

lemma footer_of_writes {f p : ℕ} (hw : Writes m m' S) (htop : f + 8 ≤ 2 ^ 32)
    (hS : ∀ x, f ≤ x → x < f + 8 → x ∉ S) : IsFooter m' f p ↔ IsFooter m f p := by
  have h4 : add32 f 4 = f + 4 := add32_eq (by omega)
  unfold IsFooter Kernel.footerHeader
  rw [h4, hw.read32 (by omega) fun x h1 h2 => hS x (by omega) (by omega),
    hw.read32 (by omega) fun x h1 h2 => hS x (by omega) (by omega)]

/-! ### Tags -/

/-- The tiles have their tags: a magic in every header, and a footer at the end of every tile. -/
structure Tagged (m : Mem) (lo : ℕ) (hs : List ℕ) (hi : ℕ) : Prop where
  tiled : Tiled m lo hs hi
  magic : ∀ h ∈ hs, headerMagic m h = HEAP_MAGIC
  footer : ∀ h ∈ hs, IsFooter m (h + headerSize m h - 8) h

lemma tagged_append {xs ys : List ℕ} : Tagged m lo (xs ++ ys) hi ↔
    ∃ mid, Tagged m lo xs mid ∧ Tagged m mid ys hi := by
  constructor
  · rintro ⟨ht, hm, hf⟩
    obtain ⟨ht, h20⟩ := tiled_iff.mp ht
    obtain ⟨mid, h1, h2⟩ := tiles_append.mp ht
    rw [List.forall_mem_append] at hm hf h20
    exact ⟨mid, ⟨tiled_iff.mpr ⟨h1, h20.1⟩, hm.1, hf.1⟩, ⟨tiled_iff.mpr ⟨h2, h20.2⟩, hm.2, hf.2⟩⟩
  · rintro ⟨mid, h1, h2⟩
    refine ⟨tiled_iff.mpr ⟨tiles_append.mpr ⟨mid, h1.tiled.tiles, h2.tiled.tiles⟩,
      List.forall_mem_append.mpr ⟨(tiled_iff.mp h1.tiled).2, (tiled_iff.mp h2.tiled).2⟩⟩, ?_, ?_⟩
    · exact List.forall_mem_append.mpr ⟨h1.magic, h2.magic⟩
    · exact List.forall_mem_append.mpr ⟨h1.footer, h2.footer⟩

lemma tagged_singleton : Tagged m lo [h] hi ↔ h = lo ∧ h + 20 ≤ hi ∧
    headerMagic m h = HEAP_MAGIC ∧ headerSize m h = hi - h ∧ IsFooter m (hi - 8) h := by
  constructor
  · rintro ⟨⟨h1, h2, h3⟩, h4, h5⟩
    subst h1
    have hend : h + headerSize m h = hi := h3
    have hfoot := h5 h (List.mem_singleton.mpr rfl)
    rw [hend] at hfoot
    exact ⟨rfl, by omega, h4 h (List.mem_singleton.mpr rfl), by omega, hfoot⟩
  · rintro ⟨rfl, h2, h3, h4, h5⟩
    refine ⟨⟨rfl, by omega, show h + headerSize m h = hi by omega⟩, ?_, ?_⟩
    · exact List.forall_mem_singleton.mpr h3
    · rw [List.forall_mem_singleton, show h + headerSize m h - 8 = hi - 8 by omega]
      exact h5

theorem Tagged.frame (ht : Tagged m lo hs hi) (hw : Writes m m' S) (htop : hi ≤ 2 ^ 32)
    (hS : ∀ x, lo ≤ x → x < hi → x ∉ S) :
    Tagged m' lo hs hi ∧ ∀ h ∈ hs, headerIsHole m' h = headerIsHole m h := by
  have hheader (h : ℕ) (hh : h ∈ hs) : headerSize m' h = headerSize m h ∧
      headerMagic m' h = headerMagic m h ∧ headerIsHole m' h = headerIsHole m h := by
    obtain ⟨h1, h2, h3⟩ := ht.tiled.mem hh
    exact header_of_writes hw (by omega) fun x h4 h5 => hS x (by omega) (by omega)
  refine ⟨⟨ht.tiled.congr fun h hh => (hheader h hh).1, fun h hh => ?_, fun h hh => ?_⟩,
    fun h hh => (hheader h hh).2.2⟩
  · rw [(hheader h hh).2.1]
    exact ht.magic h hh
  · obtain ⟨h1, h2, h3⟩ := ht.tiled.mem hh
    rw [(hheader h hh).1, footer_of_writes hw (by omega) fun x h4 h5 => hS x (by omega) (by omega)]
    exact ht.footer h hh

/-! ### The index -/

lemma Indexed.frame {a : SortedArray} {L : List ℕ} {N p s : ℕ} (hl : Indexed a m L)
    (hx : IndexApart a N p s) (hw : Writes m m' S) (hS : ∀ x ∈ S, x ∉ indexBytes a N) :
    Indexed a m' L := by
  refine ⟨hl.array, hl.length, fun i hi => ?_⟩
  have hsize := hx.size
  rw [slot_of_writes hx.top (by omega) hw fun x h1 h2 hx => hS x hx ⟨h1, h2⟩, hl.slots i hi]

theorem Indexed.insert {a : SortedArray} {L : List ℕ} {N p s item : ℕ} (hl : Indexed a m L)
    (hx : IndexApart a N p s) (hcmp : a.cmpFun = headerCmpLess) (hcur : L.length ≤ a.cur)
    (hroom : L.length < a.size) (hitem : item < 2 ^ 32) :
    Indexed (insertSortedArray item a m).1 (insertSortedArray item a m).2 (item :: L) := by
  have hpos : insertPos a item m a.cur 0 = 0 := Listed.insertPos_eq hcmp _ _
  have hsize := hx.size
  have hslots := @IndexApart.slots _ _ _ _ item m hx
  have harr : (insertSortedArray item a m).1.array = a.array ∧
      (insertSortedArray item a m).1.size = a.size := by
    unfold insertSortedArray
    simp only
    split_ifs <;> exact ⟨rfl, rfl⟩
  refine ⟨harr.1 ▸ hl.array, ?_, fun i hi => ?_⟩
  · rw [harr.2, List.length_cons]
    omega
  · rw [harr.2] at hi
    rw [harr.1]
    by_cases hic : i ≤ a.cur
    · rw [slot_insertSortedArray hx.top hslots hitem hic, hpos, if_neg (Nat.not_lt_zero i)]
      cases i with
      | zero => rfl
      | succ i =>
        rw [if_neg (Nat.succ_ne_zero i), Nat.add_sub_cancel, hl.slots i (by omega),
          List.getElem?_cons_succ]
    · -- behind the entries nothing but NULL is moved
      have hold (j : ℕ) (hj : L.length ≤ j) (hjs : j < a.size) : slot a.array m j = 0 := by
        rw [hl.slots j hjs, List.getElem?_eq_none hj]
        rfl
      have hnew : (item :: L)[i]? = none := List.getElem?_eq_none (by rw [List.length_cons]; omega)
      rw [slot_insertSortedArray_behind hx.top hslots hitem (by omega) (by omega), hnew]
      split_ifs
      · exact hold a.cur hcur (by omega)
      · exact hold i (by omega) hi

end Tiles

end OsImplement.Memory
