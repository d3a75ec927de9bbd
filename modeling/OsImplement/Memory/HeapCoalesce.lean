import Mathlib.Data.List.Chain
import OsImplement.Memory.HeapTiles

/-!
What `free` does with the header of a block.

The tile in front of the block and the one behind it are read, also where there is none. A hole
among them is joined with the block; and when the hole that results reaches the end of the heap, the
end is moved back, but not below `HEAP_MIN_SIZE`. What becomes of the index is right when the hole
in front has been joined, or when nothing was; a hole behind the block alone takes its entry along.
-/

namespace OsImplement.Memory

open Lib.Word Lib.Bytes Lib.Tiling Kernel

/-- A heap as `free` is to find it and to leave it, with its index at `A`: the tags are consistent,
no two holes meet, and the index lists every hole once. -/
structure WellFormed (A : ℕ) (k : Kernel) (hs L : List ℕ) : Prop where
  tags : Tagged k.mem k.heap.startAddress hs k.heap.endAddress
  listed : Listed A k.heap.index k.mem L
  holes : L.Perm (hs.filter fun h => headerIsHole k.mem h = 1)
  sparse : hs.IsChain fun x y => ¬ (headerIsHole k.mem x = 1 ∧ headerIsHole k.mem y = 1)
  /-- The index lies behind the word at NULL, and below the heap. -/
  null : 4 ≤ A
  below : A + 4 * HEAP_INDEX_SIZE ≤ k.heap.startAddress
  endLt : k.heap.endAddress < 2 ^ 32

/-! ### The neighbours of a block -/

/-- The hole in front of the block, if the tile there is one. -/
def holeBefore (m : Mem) (pre : List ℕ) : Option ℕ :=
  pre.getLast?.filter fun l => headerIsHole m l = 1

/-- The hole behind the block. -/
def holeAfter (m : Mem) (post : List ℕ) : Option ℕ :=
  post.head?.filter fun r => headerIsHole m r = 1

/-- The header of the hole that the block becomes, or joins. -/
def joinedHeader (m : Mem) (pre : List ℕ) (b : ℕ) : ℕ := (holeBefore m pre).getD b

/-- The tiles in front of that hole. -/
def keptBefore (m : Mem) (pre : List ℕ) : List ℕ :=
  if (holeBefore m pre).isSome then pre.dropLast else pre

/-- The tiles behind it. -/
def keptAfter (m : Mem) (post : List ℕ) : List ℕ :=
  if (holeAfter m post).isSome then post.tail else post

/-- The hole that a new entry of the index is compared with: the first one, when there has been one,
and the block is joined to neither side. -/
def tagsCompared (testFooter testHeader : ℕ) (k : Kernel) : List (ℕ × ℕ) :=
  let owner := footerHeader k.mem testFooter
  if ¬ (headerIsHole k.mem owner = 1 ∧ read32 k.mem testFooter = HEAP_MAGIC) ∧
      ¬ (headerIsHole k.mem testHeader = 1 ∧ headerMagic k.mem testHeader = HEAP_MAGIC) ∧
      k.heap.index.cur ≠ 0 then
    let first := slot k.heap.index.array k.mem 0
    [(first, first + 12)]
  else []

/-- Where the tags lie that `free` reads: the header of the block, the footer in front of it and the
header that this one points to, the header behind the block, and the one that `insert_sorted_array`
compares the block with. -/
def tagsRead (header : ℕ) (k : Kernel) : List (ℕ × ℕ) :=
  let footer := sub32 (add32 header (headerSize k.mem header)) 8
  let testFooter := sub32 header 8
  let owner := footerHeader k.mem testFooter
  let testHeader := add32 footer 8
  (header, header + 12) :: (testFooter, testFooter + 8) :: (owner, owner + 12) ::
    (testHeader, testHeader + 12) :: tagsCompared testFooter testHeader k

/-- The block `b` and the holes beside it have become one hole; or they are gone, when they were the
last tiles and the heap ends in front of them now. Everything else is as it was. -/
structure Coalesced (A : ℕ) (k k' : Kernel) (pre : List ℕ) (b : ℕ) (post : List ℕ) : Prop where
  start : k'.heap.startAddress = k.heap.startAddress
  le : k'.heap.endAddress ≤ k.heap.endAddress
  wellFormed : ∃ hole L', WellFormed A k' (keptBefore k.mem pre ++ hole ++ keptAfter k.mem post) L' ∧
    (hole = [joinedHeader k.mem pre b] ∧ headerIsHole k'.mem (joinedHeader k.mem pre b) = 1 ∨
      hole = [] ∧ keptAfter k.mem post = [])
  others : ∀ t ∈ pre ++ post, headerIsHole k.mem t ≠ 1 →
    ∀ x, t ≤ x → x < t + headerSize k.mem t → k'.mem x = k.mem x
  reads : ∀ r ∈ tagsRead b k, k.heap.startAddress ≤ r.1 ∧ r.2 ≤ k.heap.endAddress

/-- The length that `contract` leaves when the hole at the end begins at `h`. -/
def contractedLen (h : ℕ) (k : Kernel) : ℕ :=
  let newSize := roundSize (sub32 h k.heap.startAddress)
  if newSize < HEAP_MIN_SIZE then HEAP_MIN_SIZE else newSize

/-- The block has a tile on both sides. Where neither of them is a hole, the index has room, and if
it was ever used it is not empty. A hole behind the block is joined with one in front too, or it is
the last tile and goes away with the block. And where the end is moved back, what is left of the
hole has room for its tags. -/
def FreeOk (k : Kernel) (pre : List ℕ) (b : ℕ) (post : List ℕ) : Prop :=
  let newLen := contractedLen (joinedHeader k.mem pre b) k
  pre ≠ [] ∧ post ≠ [] ∧
    match holeBefore k.mem pre, holeAfter k.mem post with
    | none, none => k.heap.index.cur + 1 < HEAP_INDEX_SIZE ∧
      (k.heap.index.cur = 0 ∨ ∃ t ∈ pre ++ post, headerIsHole k.mem t = 1)
    | some _, none => True
    | none, some _ => post.tail = [] ∧ k.heap.startAddress + newLen = b
    | some l, some _ => post.tail = [] →
      newLen ≤ k.heapLen ∧ l + 20 ≤ k.heap.startAddress + newLen

/-! ### The index -/

section Index

variable {A p : ℕ} {a : SortedArray} {m : Mem} {L : List ℕ}

lemma Listed.findHeader_spec (h : Listed A a m L) (p : ℕ) : ∀ n iter, iter + n = a.size →
    ∃ i, findHeader p a m n iter = some i ∧ i ≤ a.size ∧ (i < a.size → L[i]?.getD 0 = p) ∧
      ∀ j, iter ≤ j → j < i → L[j]?.getD 0 ≠ p := by
  intro n
  induction n with
  | zero =>
    intro iter hn
    exact ⟨iter, rfl, by omega, fun hi => by omega, fun j h1 h2 => by omega⟩
  | succ n ih =>
    intro iter hn
    unfold findHeader
    rw [h.find (by omega)]
    simp only [Option.bind_eq_bind, Option.bind_some]
    by_cases hp : L[iter]?.getD 0 = p
    · rw [if_pos hp]
      exact ⟨iter, rfl, by omega, fun _ => hp, fun j h1 h2 => by omega⟩
    · rw [if_neg hp]
      obtain ⟨i, hi, hle, hat, hbefore⟩ := ih (iter + 1) (by omega)
      refine ⟨i, hi, hle, hat, fun j h1 h2 => ?_⟩
      rcases Nat.eq_or_lt_of_le h1 with rfl | h1
      · exact hp
      · exact hbefore j h1 h2

lemma Listed.findHeader_mem (h : Listed A a m L) (hp : p ∈ L) (hp0 : p ≠ 0) :
    ∃ i, ∃ hi : i < L.length, findHeader p a m a.size 0 = some i ∧ L[i] = p := by
  obtain ⟨i, hi, hle, hat, hbefore⟩ := h.findHeader_spec p a.size 0 (by omega)
  obtain ⟨j, hj, hjp⟩ := List.getElem_of_mem hp
  have hlen := h.length_lt
  have hlt : i < a.size := by
    by_contra hge
    refine hbefore j (Nat.zero_le j) (by omega) ?_
    rw [List.getElem?_eq_getElem hj, hjp]
    rfl
  obtain ⟨hlt', hval⟩ := Listed.getElem (hat hlt) hp0
  exact ⟨i, hlt', hi, hval⟩

lemma Listed.findHeader_not_mem (h : Listed A a m L) (hp : p ∉ L) (hp0 : p ≠ 0) :
    findHeader p a m a.size 0 = some a.size := by
  obtain ⟨i, hi, hle, hat, -⟩ := h.findHeader_spec p a.size 0 (by omega)
  rcases Nat.eq_or_lt_of_le hle with rfl | hlt
  · exact hi
  · obtain ⟨hlt', hval⟩ := Listed.getElem (hat hlt) hp0
    exact absurd (hval ▸ List.getElem_mem hlt') hp

lemma Listed.unique {L' : List ℕ} (h : Listed A a m L) (h' : Listed A a m L') : L = L' := by
  have h1 := h.count
  have h2 := h'.count
  have hlen := h.len
  have hcur := h.cur
  refine List.ext_getElem (by omega) fun i hi hi' => ?_
  have hs := (h.slots i (by omega)).symm.trans (h'.slots i (by omega))
  rw [List.getElem?_eq_getElem hi, List.getElem?_eq_getElem hi'] at hs
  exact hs

end Index

/-! ### A tile that takes in the next one -/

/-- The footer at `f` is made to point to the header `h`, and its size grows by `s`. -/
def absorb (h f s : ℕ) (m : Mem) : Mem :=
  let m := write32 m (add32 f 4) h
  setHeaderSize h (add32 (headerSize m h) s) m

lemma absorb_spec {m : Mem} {h mid e : ℕ} (ht : Tagged m h [h] mid) (hh : headerIsHole m h = 1)
    (hf : read32 m (e - 8) = HEAP_MAGIC) (he : mid + 20 ≤ e) (htop : e < 2 ^ 32) :
    Tagged (absorb h (e - 8) (e - mid) m) h [h] e ∧
      headerIsHole (absorb h (e - 8) (e - mid) m) h = 1 ∧
      Writes m (absorb h (e - 8) (e - mid) m) (Set.Ico (h + 8) e) := by
  obtain ⟨-, h20, hmagic, hsize, -⟩ := tagged_singleton.mp ht
  have h4 : add32 (e - 8) 4 = e - 4 := by
    rw [add32_eq (by omega)]
    omega
  set m₁ := write32 m (e - 4) h with hm₁
  have hw₁ : Writes m m₁ (Set.Ico (e - 4) e) := Writes.write32 le_rfl (by omega) (by omega)
  obtain ⟨hs₁, hg₁, hh₁⟩ := @header_of_writes m m₁ h _ hw₁ (by omega) fun x h1 h2 hx => by
    have := hx.1
    omega
  have hm₂ : absorb h (e - 8) (e - mid) m = setHeaderSize h (e - h) m₁ := by
    unfold absorb
    simp only [h4, ← hm₁, hs₁, hsize]
    rw [add32_eq (by omega), show mid - h + (e - mid) = e - h by omega]
  obtain ⟨hs₂, hg₂, hh₂, hw₂⟩ := @setHeaderSize_spec m₁ h (e - h) (by omega) (by omega)
  rw [← hm₂] at hs₂ hg₂ hh₂ hw₂
  have hfooter {x : ℕ} (hx : h + 12 ≤ x) : x ∉ Set.Ico (h + 8) (h + 12) := fun hmem => by
    have := hmem.2
    omega
  refine ⟨tagged_singleton.mpr ⟨rfl, by omega, ?_, hs₂, ?_, ?_⟩, ?_, ?_⟩
  · rw [hg₂, hg₁, hmagic]
  · rw [← hf, ← hw₁.read32 (show e - 8 + 4 ≤ 2 ^ 32 by omega) fun x h1 h2 hx => by
      have := hx.1
      omega]
    exact hw₂.read32 (by omega) fun x h1 h2 => hfooter (by omega)
  · rw [footerHeader, h4, hw₂.read32 (by omega) fun x h1 h2 => hfooter (by omega)]
    exact read32_write32 (by omega)
  · rw [hh₂, hh₁, hh]
  · exact (hw₁.mono (Set.Ico_subset_Ico (by omega) le_rfl)).trans
      (hw₂.mono (Set.Ico_subset_Ico le_rfl (by omega)))

/-! ### The two neighbours -/

/-- In the memory `m`, a hole with its tags fills `[h, e)`, and nothing has changed outside of it and
of the index. -/
structure Joined (A : ℕ) (k : Kernel) (m : Mem) (h e : ℕ) : Prop where
  tags : Tagged m h [h] e
  hole : headerIsHole m h = 1
  writes : Writes k.mem m (Set.Ico h e ∪ Set.Ico A (A + 4 * HEAP_INDEX_SIZE))

section Stages

variable {A b e l r : ℕ} {pre post L : List ℕ} {k k₁ : Kernel} {m : Mem} {a : SortedArray}

lemma WellFormed.around (h : WellFormed A k (pre ++ [l] ++ b :: r :: post) L) :
    ∃ e, Tagged k.mem k.heap.startAddress pre l ∧ Tagged k.mem l [l] b ∧ Tagged k.mem b [b] r ∧
      Tagged k.mem r [r] e ∧ Tagged k.mem e post k.heap.endAddress := by
  obtain ⟨b', hpl, hrest⟩ := tagged_append.mp h.tags
  obtain ⟨l', hpre, hl⟩ := tagged_append.mp hpl
  obtain ⟨r', hb, hrest⟩ := (@tagged_append _ _ _ [b] (r :: post)).mp hrest
  obtain ⟨e, hr, hpost⟩ := (@tagged_append _ _ _ [r] post).mp hrest
  obtain rfl := (tagged_singleton.mp hl).1
  obtain rfl := (tagged_singleton.mp hb).1
  obtain rfl := (tagged_singleton.mp hr).1
  exact ⟨e, hpre, hl, hb, hr, hpost⟩

lemma joined_block (hb : Tagged k.mem b [b] r) (htop : r < 2 ^ 32) :
    Joined A k (write8 k.mem b 1) b r ∧ Writes k.mem (write8 k.mem b 1) (Set.Ico b (b + 1)) := by
  obtain ⟨-, h20, hmagic, hsize, hfooter⟩ := tagged_singleton.mp hb
  have hmod : b % 2 ^ 32 = b := Nat.mod_eq_of_lt (by omega)
  have hw : Writes k.mem (write8 k.mem b 1) (Set.Ico b (b + 1)) :=
    Writes.write8 (by rw [hmod]; exact ⟨le_rfl, Nat.lt_succ_self b⟩)
  have hout {x : ℕ} (hx : b + 1 ≤ x) : x ∉ Set.Ico b (b + 1) := fun hmem => by
    have := hmem.2
    omega
  refine ⟨⟨tagged_singleton.mpr ⟨rfl, h20, ?_, ?_, ?_⟩, ?_, ?_⟩, hw⟩
  · rw [← hmagic, headerMagic, headerMagic, add32_eq (by omega)]
    exact hw.read32 (by omega) fun x h1 h2 => hout (by omega)
  · rw [← hsize]
    exact headerSize_of_writes hw (by omega) fun x hx => Or.inl (by have := hx.2; omega)
  · exact (footer_of_writes hw (by omega) fun x h1 h2 => hout (by omega)).mpr hfooter
  · rw [headerIsHole, read8_write8, if_pos rfl]
    rfl
  · exact hw.mono fun x hx => .inl ⟨hx.1, by have := hx.2; omega⟩

lemma mergeBefore_eq {header footer : ℕ} (howner : footerHeader k.mem (sub32 header 8) = l)
    (hmagic : read32 k.mem (sub32 header 8) = HEAP_MAGIC) : mergeBefore header footer k =
      if headerIsHole k.mem l = 1 then
        (l, false, k.retag (absorb l footer (headerSize k.mem header) k.mem) k.heap.index)
      else (header, true, k) := by
  unfold mergeBefore absorb
  simp only [howner, hmagic, and_true, write_eq, retag_retag, mem_retag, index_retag]

lemma mergeBefore_spec (hl : Tagged k.mem l [l] b) (hb : Tagged k.mem b [b] r) (htop : r < 2 ^ 32) :
    ∃ m, mergeBefore b (r - 8) (k.write fun m => write8 m b 1) =
        (if headerIsHole k.mem l = 1 then l else b, !decide (headerIsHole k.mem l = 1),
          k.retag m k.heap.index) ∧
      Joined A k m (if headerIsHole k.mem l = 1 then l else b) r ∧
      Writes k.mem m (Set.Ico (if headerIsHole k.mem l = 1 then l else b) r) := by
  obtain ⟨hj, hw⟩ := @joined_block A b r k hb htop
  obtain ⟨-, hl20, hlmagic, hlsize, hlfooter⟩ := tagged_singleton.mp hl
  obtain ⟨-, hb20, -, hbsize, hbfooter⟩ := tagged_singleton.mp hj.tags
  set m₁ := write8 k.mem b 1 with hm₁
  have htest : sub32 b 8 = b - 8 := sub32_eq (by omega) (by omega)
  have hbelow {x : ℕ} (hx : x < b) : x ∉ Set.Ico b (b + 1) := fun hmem => by
    have := hmem.1
    omega
  -- the footer in front of the block, and the header that it points to
  have hfooter : IsFooter m₁ (b - 8) l :=
    (footer_of_writes hw (by omega) fun x h1 h2 => hbelow (by omega)).mpr hlfooter
  obtain ⟨hsame, hflag⟩ := hl.frame hw (by omega) fun x h1 h2 => hbelow h2
  have hlhole := hflag l (List.mem_singleton.mpr rfl)
  have heq := @mergeBefore_eq l (k.retag m₁ k.heap.index) b (r - 8) (by rw [htest]; exact hfooter.2)
    (by rw [htest]; exact hfooter.1)
  rw [mem_retag, hlhole, hbsize, retag_retag, index_retag] at heq
  rw [write_eq, ← hm₁, heq]
  by_cases hhole : headerIsHole k.mem l = 1
  · have hmagic : read32 m₁ (r - 8) = HEAP_MAGIC := hbfooter.1
    obtain ⟨ht, hh, hw₂⟩ := absorb_spec hsame (hlhole.trans hhole) hmagic hb20 htop
    have hwrites : Writes k.mem (absorb l (r - 8) (r - b) m₁) (Set.Ico l r) :=
      (hw.mono (Set.Ico_subset_Ico (by omega) (by omega))).trans
        (hw₂.mono (Set.Ico_subset_Ico (by omega) le_rfl))
    refine ⟨absorb l (r - 8) (r - b) m₁, ?_, ?_⟩
    · simp [hhole]
    · rw [if_pos hhole]
      exact ⟨⟨ht, hh, hwrites.mono Set.subset_union_left⟩, hwrites⟩
  · refine ⟨m₁, ?_, ?_⟩
    · simp [hhole]
    · rw [if_neg hhole]
      exact ⟨hj, hw.mono (Set.Ico_subset_Ico le_rfl (by omega))⟩

lemma mergeAfter_block {h : ℕ} {d : Bool} (hr8 : 8 ≤ r) (htop : r < 2 ^ 32)
    (hr : headerIsHole m r ≠ 1) :
    mergeAfter h (r - 8) d (k.retag m a) = some (r - 8, d, k.retag m a) := by
  have htest : add32 (r - 8) 8 = r := by
    rw [add32_eq (by omega)]
    omega
  unfold mergeAfter
  simp only [htest, mem_retag, hr, false_and, if_false]

/-- **A hole behind**: it is joined, and leaves the index. -/
lemma mergeAfter_hole {h : ℕ} {d : Bool} (hj : Joined A k m h r) (hl : Listed A a m L)
    (hbelow : A + 4 * HEAP_INDEX_SIZE ≤ h) (hr : Tagged m r [r] e) (htop : e < 2 ^ 32)
    (hhole : headerIsHole m r = 1) (hmem : r ∈ L) :
    ∃ m' a' L', mergeAfter h (r - 8) d (k.retag m a) = some (e - 8, false, k.retag m' a') ∧
      Joined A k m' h e ∧ Listed A a' m' L' ∧ L.Perm (r :: L') ∧ a'.cur = a.cur := by
  obtain ⟨-, hr20, hrmagic, hrsize, hrfooter⟩ := tagged_singleton.mp hr
  obtain ⟨-, hh20, -⟩ := tagged_singleton.mp hj.tags
  have htest : add32 (r - 8) 8 = r := by
    rw [add32_eq (by omega)]
    omega
  have hfoot : sub32 (add32 r (e - r)) 8 = e - 8 := by
    rw [add32_eq (by omega), sub32_eq (by omega) (by omega)]
    omega
  obtain ⟨ht, hh, hw⟩ := absorb_spec hj.tags hj.hole hrfooter.1 hr20 htop
  set m₁ := absorb h (e - 8) (e - r) m with hm₁
  have hl₁ : Listed A a m₁ L := hl.frame hw fun x hx => Or.inr (by
    have := hx.1
    omega)
  obtain ⟨i, hi, hfind, hval⟩ := hl₁.findHeader_mem hmem (by omega)
  obtain ⟨a', m', hrem, hl', hcur, hw'⟩ := hl₁.remove hi
  have hapart {x : ℕ} (hx : h ≤ x) : x ∉ Set.Ico A (A + 4 * HEAP_INDEX_SIZE) := fun hmem => by
    have := hmem.2
    omega
  obtain ⟨ht', hflag⟩ := ht.frame hw' (by omega) fun x h1 h2 => hapart h1
  refine ⟨m', a', L.eraseIdx i, ?_, ⟨ht', ?_, ?_⟩, hl', ?_, hcur⟩
  · have hm₁' : setHeaderSize h (add32 (headerSize (write32 m (add32 (e - 8) 4) h) h) (e - r))
        (write32 m (add32 (e - 8) 4) h) = m₁ := rfl
    unfold mergeAfter
    simp only [htest, mem_retag, hhole, hrmagic, and_self, if_true, hrsize, hfoot, write_eq,
      retag_retag, index_retag, hm₁', hfind, Option.bind_eq_bind, Option.bind_some, removeHole, hrem]
    rfl
  · rw [hflag h (List.mem_singleton.mpr rfl)]
    exact hh
  · refine (hj.writes.mono ?_).trans ((hw.mono ?_).trans (hw'.mono Set.subset_union_right))
    · exact Set.union_subset_union_left _ (Set.Ico_subset_Ico le_rfl (by omega))
    · exact (Set.Ico_subset_Ico (by omega) le_rfl).trans Set.subset_union_left
  · have hperm := List.getElem_cons_eraseIdx_perm hi
    rw [hval] at hperm
    exact hperm.symm

end Stages

/-! ### The end of the heap -/

section Shrink

variable {A e h r n i newSize : ℕ} {L : List ℕ} {k k₁ : Kernel} {m : Mem} {a : SortedArray}

/-- A frame is given back: nothing but the word at NULL can change in memory. -/
lemma freeFrame_mem (k : Kernel) (p : Option PageRef) :
    (k.freeFrame p).heap = k.heap ∧ Writes k.mem (k.freeFrame p).mem (Set.Ico 0 4) := by
  cases p with
  | some p => exact ⟨rfl, Writes.refl _ _⟩
  | none => exact ⟨rfl, Writes.write32 le_rfl le_rfl (by decide)⟩

/-- The rounds of `contract` come to an end. -/
lemma contractPages_mem (hsize : 0x1000 ≤ newSize) : ∀ (n i : ℕ) (k : Kernel),
    i < newSize + 0x1000 * n → i < 2 ^ 32 → ∃ k', contractPages newSize (n + 1) i k = some k' ∧
      k'.heap = k.heap ∧ Writes k.mem k'.mem (Set.Ico 0 4) := by
  intro n
  induction n with
  | zero =>
    intro i k hi _
    rw [contractPages, if_neg (by omega)]
    exact ⟨k, rfl, rfl, Writes.refl _ _⟩
  | succ n ih =>
    intro i k hi hword
    rw [contractPages]
    by_cases hlt : newSize < i
    · rw [if_pos hlt]
      have hnext : sub32 i 0x1000 = i - 0x1000 := sub32_eq (by omega) hword
      obtain ⟨hheap, hw⟩ := freeFrame_mem k (k.lookupPage (add32 k.heap.startAddress i) k.vmPageDir)
      obtain ⟨k', hk', hheap', hw'⟩ := ih (i - 0x1000)
        (k.freeFrame (k.lookupPage (add32 k.heap.startAddress i) k.vmPageDir)) (by omega) (by omega)
      rw [hnext]
      exact ⟨k', hk', hheap'.trans hheap, hw.trans hw'⟩
    · rw [if_neg hlt]
      exact ⟨k, rfl, rfl, Writes.refl _ _⟩

lemma contractedLen_bounds (h : ℕ) (k : Kernel) :
    HEAP_MIN_SIZE ≤ contractedLen h k ∧ contractedLen h k < 2 ^ 32 := by
  have hMIN : HEAP_MIN_SIZE = 0x70000 := rfl
  have hsub := sub32_lt h k.heap.startAddress
  have hround : roundSize (sub32 h k.heap.startAddress) < 2 ^ 32 := by
    unfold roundSize
    split
    · exact add32_lt _ _
    · exact hsub
  unfold contractedLen
  simp only
  split_ifs <;> omega

lemma le_contractedLen (hstart : k.heap.startAddress ≤ h) (hlow : 0x1000 ≤ k.heap.startAddress)
    (htop : h < 2 ^ 32) : h ≤ k.heap.startAddress + contractedLen h k := by
  have hsub : sub32 h k.heap.startAddress = h - k.heap.startAddress := sub32_eq hstart htop
  have hround : h - k.heap.startAddress ≤ roundSize (h - k.heap.startAddress) := by
    unfold roundSize
    split
    · rw [and_pages (by omega), add32_eq (by omega)]
      omega
    · exact le_rfl
  unfold contractedLen
  simp only [hsub]
  split_ifs <;> omega

lemma contract_spec (h : ℕ) (k : Kernel) :
    ∃ k₁, k.contract (sub32 h k.heap.startAddress) = some (contractedLen h k, k₁) ∧
      k₁.heap = { k.heap with endAddress := add32 k.heap.startAddress (contractedLen h k) } ∧
      Writes k.mem k₁.mem (Set.Ico 0 4) := by
  obtain ⟨hmin, hlt⟩ := contractedLen_bounds h k
  have hMIN : HEAP_MIN_SIZE = 0x70000 := rfl
  have hlen : sub32 k.heapLen 0x1000 < 2 ^ 32 := sub32_lt _ _
  obtain ⟨k₁, hk₁, hheap, hw⟩ := @contractPages_mem (contractedLen h k) (by omega) (2 ^ 20 - 1)
    (sub32 k.heapLen 0x1000) k (by omega) hlen
  rw [Nat.sub_add_cancel (by decide)] at hk₁
  refine ⟨k₁.setEnd (add32 k₁.heap.startAddress (contractedLen h k)), ?_, ?_, hw⟩
  · unfold contractedLen at hk₁ ⊢
    unfold contract
    simp only [hk₁, Option.bind_eq_bind, Option.bind_some]
    rfl
  · rw [hheap, setEnd, hheap]

lemma shrinkHeap_skip (he : 8 ≤ e) (htop : e < 2 ^ 32) (hne : e ≠ k.heap.endAddress) :
    shrinkHeap h (e - 8) r k = some k := by
  have hend : add32 (e - 8) 8 = e := by
    rw [add32_eq (by omega)]
    omega
  unfold shrinkHeap
  rw [hend, if_neg hne]

lemma shrinkHeap_end (hh : 8 ≤ k.heap.endAddress) (htop : k.heap.endAddress < 2 ^ 32)
    (hr : shrinkHeap h (k.heap.endAddress - 8) r k = some k₁) :
    k₁.heap.startAddress = k.heap.startAddress ∧
      k₁.heap.endAddress = add32 k.heap.startAddress (contractedLen h k) := by
  have hend : add32 (k.heap.endAddress - 8) 8 = k.heap.endAddress := by
    rw [add32_eq (by omega)]
    omega
  obtain ⟨k₂, hk₂, hheap, -⟩ := contract_spec h k
  unfold shrinkHeap at hr
  rw [hend, if_pos rfl, hk₂] at hr
  simp only [Option.bind_eq_bind, Option.bind_some] at hr
  have hk₂' : k₂.heap.startAddress = k.heap.startAddress ∧
      k₂.heap.endAddress = add32 k.heap.startAddress (contractedLen h k) := by rw [hheap]; simp
  split at hr
  · obtain rfl := Option.some.inj hr
    exact hk₂'
  · obtain ⟨iter, -, hr⟩ := Option.bind_eq_some_iff.mp hr
    split at hr
    · obtain ⟨⟨a, m⟩, -, hr⟩ := Option.bind_eq_some_iff.mp hr
      obtain rfl := Option.some.inj hr
      exact hk₂'
    · obtain rfl := Option.some.inj hr
      exact hk₂'

/-- **The end moves back**, into the hole or to its header. -/
lemma shrinkHeap_spec (hj : Tagged k.mem h [h] k.heap.endAddress) (htop : k.heap.endAddress < 2 ^ 32)
    (hstart : k.heap.startAddress ≤ h) (hbelow : 8 ≤ k.heap.startAddress)
    (hle : contractedLen h k ≤ k.heapLen)
    (hh : h ≤ k.heap.startAddress + contractedLen h k) (hl : Listed A k.heap.index k.mem L)
    (hA : 4 ≤ A) (hr : r ∉ L) (hr0 : r ≠ 0) :
    ∃ k₁, shrinkHeap h (k.heap.endAddress - 8) r k = some k₁ ∧
      k₁.heap = { k.heap with endAddress := k.heap.startAddress + contractedLen h k } ∧
      Writes k.mem k₁.mem (Set.Ico 0 4 ∪ Set.Ico (h - 8) k.heap.endAddress) ∧
      (k.heap.startAddress + contractedLen h k = h → Writes k.mem k₁.mem (Set.Ico 0 4)) ∧
      (h + 20 ≤ k.heap.startAddress + contractedLen h k →
        Tagged k₁.mem h [h] (k.heap.startAddress + contractedLen h k) ∧
        headerIsHole k₁.mem h = headerIsHole k.mem h ∧
        Writes k.mem k₁.mem (Set.Ico 0 4 ∪ Set.Ico h k.heap.endAddress)) := by
  obtain ⟨-, h20, hmagic, hsize, hfooter⟩ := tagged_singleton.mp hj
  have hend : add32 (k.heap.endAddress - 8) 8 = k.heap.endAddress := by
    rw [add32_eq (by omega)]
    omega
  obtain ⟨hmin, hlt⟩ := contractedLen_bounds h k
  obtain ⟨k₁, hk₁, hheap, hw⟩ := contract_spec h k
  set n := contractedLen h k with hn
  have hlen : k.heapLen = k.heap.endAddress - k.heap.startAddress := sub32_eq (by omega) htop
  have hadd : add32 k.heap.startAddress n = k.heap.startAddress + n := add32_eq (by omega)
  have hcut : sub32 k.heapLen n = k.heapLen - n := sub32_eq hle (by omega)
  obtain ⟨hs₁, hg₁, hflag₁⟩ := @header_of_writes k.mem k₁.mem h _ hw (by omega) fun x h1 _ hx => by
    have := hx.2
    omega
  rw [hadd] at hheap
  unfold shrinkHeap
  rw [hend, if_pos rfl, hk₁]
  simp only [Option.bind_eq_bind, Option.bind_some, hcut, hs₁, hsize]
  have hsub : sub32 (k.heap.endAddress - h) (k.heapLen - n) = k.heap.startAddress + n - h := by
    rw [sub32_eq (by omega) (by omega)]
    omega
  rw [hsub]
  by_cases hgone : k.heap.startAddress + n - h = 0
  · -- nothing is left, and the header that is looked for is not listed
    have hl₁ : Listed A k₁.heap.index k₁.mem L := by
      rw [hheap]
      refine hl.frame hw fun x hx => Or.inl ?_
      have := hx.2
      omega
    rw [if_neg (by omega), hl₁.findHeader_not_mem hr hr0]
    simp only [Option.bind_some, lt_irrefl, if_false]
    exact ⟨k₁, rfl, hheap, hw.mono Set.subset_union_left, fun _ => hw, fun hroom => by omega⟩
  · rw [if_pos hgone]
    obtain ⟨e', he'⟩ : ∃ e', k.heap.startAddress + n = e' := ⟨_, rfl⟩
    rw [he'] at hheap hgone hh ⊢
    obtain ⟨hs₂, hg₂, hh₂, hw₂⟩ := @setHeaderSize_spec k₁.mem h (e' - h) (by omega) (by omega)
    set m₂ := setHeaderSize h (e' - h) k₁.mem with hm₂
    set m₃ := writeFooter (e' - 8) h m₂ with hm₃
    have hfoot : sub32 (add32 h (e' - h)) 8 = e' - 8 := by
      rw [add32_eq (by omega), sub32_eq (by omega) (by omega)]
      omega
    have hw₃ : Writes m₂ m₃ (Set.Ico (e' - 8) e') := writes_writeFooter le_rfl (by omega) (by omega)
    refine ⟨k₁.retag m₃ k₁.heap.index, ?_, ?_, ?_, fun hroom => by omega, fun hroom => ?_⟩
    · simp only [write_eq, mem_retag, index_retag, retag_retag, ← hm₂, hs₂, hfoot]
      rfl
    · rw [← hheap]
      rfl
    · refine ((hw.mono Set.subset_union_left).trans (hw₂.mono ?_)).trans (hw₃.mono ?_)
      · exact (Set.Ico_subset_Ico (by omega) (by omega)).trans Set.subset_union_right
      · exact (Set.Ico_subset_Ico (by omega) (by omega)).trans Set.subset_union_right
    · obtain ⟨hs₃, hg₃, hh₃⟩ := @header_of_writes m₂ m₃ h _ hw₃ (by omega) fun x _ h2 hx => by
        have := hx.1
        omega
      refine ⟨tagged_singleton.mpr ⟨rfl, hroom, ?_, hs₃.trans hs₂, ?_⟩, ?_, ?_⟩
      · show headerMagic m₃ h = HEAP_MAGIC
        rw [hg₃, hg₂, hg₁, hmagic]
      · show IsFooter m₃ (e' - 8) h
        rw [← holds_footerCells (by omega)]
        exact (stores_writeFooter (by omega)).holds
      · show headerIsHole m₃ h = headerIsHole k.mem h
        rw [hh₃, hh₂, hflag₁]
      · refine ((hw.mono Set.subset_union_left).trans (hw₂.mono ?_)).trans (hw₃.mono ?_)
        · exact (Set.Ico_subset_Ico (by omega) (by omega)).trans Set.subset_union_right
        · exact (Set.Ico_subset_Ico (by omega) (by omega)).trans Set.subset_union_right

end Shrink

/-! ### The block and its neighbours -/

section Free

variable {A b e l r : ℕ} {pre post L : List ℕ} {k k' : Kernel}

lemma WellFormed.mem_iff {hs : List ℕ} {x : ℕ} (h : WellFormed A k hs L) :
    x ∈ L ↔ x ∈ hs ∧ headerIsHole k.mem x = 1 := by
  rw [h.holes.mem_iff, List.mem_filter, decide_eq_true_eq]

lemma freeWith_eq {before : ℕ → ℕ → Kernel → ℕ × Bool × Kernel}
    {after : ℕ → ℕ → Bool → Kernel → Option (ℕ × Bool × Kernel)}
    {shrink : ℕ → ℕ → ℕ → Kernel → Option Kernel} {header footer hd f : ℕ} {d d' : Bool}
    {k₁ k₂ : Kernel} (hfoot : sub32 (add32 header (headerSize k.mem header)) 8 = footer)
    (hbefore : before header footer (k.write fun m => write8 m header 1) = (hd, d, k₁))
    (hafter : after hd footer d k₁ = some (f, d', k₂)) :
    freeWith before after shrink header k = (shrink hd f (add32 footer 8) k₂).bind fun k₃ =>
      some (if d' then k₃.insertHole hd else k₃) := by
  unfold freeWith
  simp only [hfoot, hbefore, hafter, Option.bind_eq_bind, Option.bind_some]

lemma freeBlock_eq {header footer hd f : ℕ} {d d' : Bool} {k₁ k₂ : Kernel}
    (hfoot : sub32 (add32 header (headerSize k.mem header)) 8 = footer)
    (hbefore : mergeBefore header footer (k.write fun m => write8 m header 1) = (hd, d, k₁))
    (hafter : mergeAfter hd footer d k₁ = some (f, d', k₂)) :
    freeBlock header k = (shrinkHeap hd f (add32 footer 8) k₂).bind fun k₃ =>
      some (if d' then k₃.insertHole hd else k₃) := by
  rw [freeBlock_with]
  exact freeWith_eq hfoot hbefore hafter

/-- **`free` behind its two tests**: a hole fills the place of the block and of the holes beside it,
and the end of the heap and the index are still to come. -/
theorem freeBlock_joined (h : WellFormed A k (pre ++ [l] ++ b :: r :: post) L)
    (he : Tagged k.mem r [r] e) (hle : e ≤ k.heap.endAddress) :
    ∃ m a L₁, freeBlock b k =
        ((k.retag m a).shrinkHeap (if headerIsHole k.mem l = 1 then l else b)
          ((if headerIsHole k.mem r = 1 then e else r) - 8) r).bind (fun k₁ =>
            some (if headerIsHole k.mem l ≠ 1 ∧ headerIsHole k.mem r ≠ 1 then k₁.insertHole b
              else k₁)) ∧
      Joined A k m (if headerIsHole k.mem l = 1 then l else b)
        (if headerIsHole k.mem r = 1 then e else r) ∧
      Listed A a m L₁ ∧ a.cur = k.heap.index.cur ∧
      (if headerIsHole k.mem r = 1 then L.Perm (r :: L₁) else L₁ = L) := by
  obtain ⟨e₀, hpre, hl, hb, hr, hpost⟩ := h.around
  have hend := h.endLt
  have hbelow := h.below
  have hpl := hpre.tiled.le
  obtain ⟨-, hl20, -⟩ := tagged_singleton.mp hl
  obtain ⟨-, hb20, hbmagic, hbsize, -⟩ := tagged_singleton.mp hb
  obtain ⟨-, hr20, -⟩ := tagged_singleton.mp he
  have hfoot : sub32 (add32 b (headerSize k.mem b)) 8 = r - 8 := by
    rw [hbsize, add32_eq (by omega), sub32_eq (by omega) (by omega)]
    omega
  have htest : add32 (r - 8) 8 = r := by
    rw [add32_eq (by omega)]
    omega
  obtain ⟨m, hbefore, hj, hw⟩ := @mergeBefore_spec A b l r k hl hb (by omega)
  -- the block behind is as it was
  have hlo : l ≤ (if headerIsHole k.mem l = 1 then l else b) := by split_ifs <;> omega
  obtain ⟨hr', hflag⟩ := he.frame hw (by omega) fun x h1 _ hx => by
    have := hx.2
    omega
  have hrhole := hflag r (List.mem_singleton.mpr rfl)
  have hl₁ : Listed A k.heap.index m L := h.listed.frame hw fun x hx => Or.inr (by
    have := hx.1
    omega)
  by_cases hhole : headerIsHole k.mem r = 1
  · have hmem : r ∈ L := h.mem_iff.mpr ⟨by simp, hhole⟩
    obtain ⟨m', a', L', hafter, hj', hl', hperm, hcur⟩ := @mergeAfter_hole A e r L k m _ _
      (!decide (headerIsHole k.mem l = 1)) hj hl₁ (by omega) hr' (by omega) (hrhole.trans hhole) hmem
    have hfree := freeBlock_eq hfoot hbefore hafter
    rw [htest] at hfree
    refine ⟨m', a', L', ?_, ?_, hl', hcur, ?_⟩
    · rw [hfree, if_pos hhole]
      simp only [Bool.false_eq_true, if_false, hhole, ne_eq, not_true_eq_false, and_false]
    · rw [if_pos hhole]
      exact hj'
    · rw [if_pos hhole]
      exact hperm
  · have hafter := @mergeAfter_block r k m k.heap.index (if headerIsHole k.mem l = 1 then l else b)
      (!decide (headerIsHole k.mem l = 1)) (show 8 ≤ r by omega) (by omega) (hrhole ▸ hhole)
    have hfree := freeBlock_eq hfoot hbefore hafter
    rw [htest] at hfree
    refine ⟨m, k.heap.index, L, ?_, ?_, hl₁, rfl, ?_⟩
    · rw [hfree, if_neg hhole]
      refine congrArg _ (funext fun k₁ => ?_)
      by_cases hlhole : headerIsHole k.mem l = 1
      · rw [if_neg (by simp [hlhole]), if_neg (by simp [hlhole])]
      · rw [if_pos (by simp [hlhole]), if_neg hlhole, if_pos ⟨hlhole, hhole⟩]
    · rw [if_neg hhole]
      exact hj
    · rw [if_neg hhole]

end Free

/-! ### The heap afterwards -/

/-- No two holes meet in front, or behind, and none meets what goes between. -/
structure Sides (m : Mem) (P Q : List ℕ) : Prop where
  before : P.IsChain fun x y => ¬ (headerIsHole m x = 1 ∧ headerIsHole m y = 1)
  after : Q.IsChain fun x y => ¬ (headerIsHole m x = 1 ∧ headerIsHole m y = 1)
  last : ∀ x ∈ P.getLast?, headerIsHole m x ≠ 1
  head : ∀ y ∈ Q.head?, headerIsHole m y ≠ 1

section Assemble

variable {A b e e' h l r : ℕ} {pre post hs L L' P Q : List ℕ} {k k' : Kernel} {m : Mem}

lemma holeBefore_concat :
    holeBefore m (pre ++ [l]) = if headerIsHole m l = 1 then some l else none := by
  simp [holeBefore, Option.filter]

lemma holeAfter_cons :
    holeAfter m (r :: post) = if headerIsHole m r = 1 then some r else none := by
  simp [holeAfter, Option.filter]

lemma joinedHeader_concat :
    joinedHeader m (pre ++ [l]) b = if headerIsHole m l = 1 then l else b := by
  rw [joinedHeader, holeBefore_concat]
  split_ifs <;> rfl

lemma keptBefore_concat :
    keptBefore m (pre ++ [l]) = if headerIsHole m l = 1 then pre else pre ++ [l] := by
  rw [keptBefore, holeBefore_concat]
  split_ifs with h <;> simp_all

lemma keptAfter_cons :
    keptAfter m (r :: post) = if headerIsHole m r = 1 then post else r :: post := by
  rw [keptAfter, holeAfter_cons]
  split_ifs with h <;> simp_all

lemma WellFormed.sides (hw : WellFormed A k (pre ++ [l] ++ b :: r :: post) L) :
    Sides k.mem (keptBefore k.mem (pre ++ [l])) (keptAfter k.mem (r :: post)) := by
  have hchain := hw.sparse
  obtain ⟨hfront, hback, -⟩ := List.isChain_append.mp hchain
  have hback : (r :: post).IsChain fun x y => ¬ (headerIsHole k.mem x = 1 ∧
      headerIsHole k.mem y = 1) := (List.isChain_cons.mp hback).2
  obtain ⟨hpre, -, hmeet⟩ := List.isChain_append.mp hfront
  obtain ⟨hhead, hpost⟩ := List.isChain_cons.mp hback
  rw [keptBefore_concat, keptAfter_cons]
  refine ⟨?_, ?_, ?_, ?_⟩
  · split_ifs
    · exact hpre
    · exact hfront
  · split_ifs
    · exact hpost
    · exact hback
  · split_ifs with hl
    · intro x hx hhole
      exact hmeet x hx l rfl ⟨hhole, hl⟩
    · intro x hx
      simp only [List.getLast?_append, List.getLast?_singleton, Option.some_or, Option.mem_def,
        Option.some.injEq] at hx
      exact hx ▸ hl
  · split_ifs with hr
    · intro y hy hhole
      exact hhead y hy ⟨hr, hhole⟩
    · intro y hy
      simp only [List.head?_cons, Option.mem_def, Option.some.injEq] at hy
      exact hy ▸ hr

lemma tagged_sides (hP : Tagged k.mem k.heap.startAddress P h)
    (hQ : Tagged k.mem e Q k.heap.endAddress) (htop : k.heap.endAddress < 2 ^ 32)
    (hhe : h ≤ k.heap.endAddress) (hfix : ∀ x, k.heap.startAddress ≤ x ∧ x < h ∨
      e ≤ x ∧ x < k.heap.endAddress → m x = k.mem x) :
    (Tagged m k.heap.startAddress P h ∧ ∀ x ∈ P, headerIsHole m x = headerIsHole k.mem x) ∧
      Tagged m e Q k.heap.endAddress ∧ ∀ y ∈ Q, headerIsHole m y = headerIsHole k.mem y := by
  have hw : Writes k.mem m {x | m x ≠ k.mem x} := fun x hx => by simpa using hx
  refine ⟨hP.frame hw (by omega) fun x h1 h2 hx => hx (hfix x (.inl ⟨h1, h2⟩)), ?_⟩
  exact hQ.frame hw (by omega) fun x h1 h2 hx => hx (hfix x (.inr ⟨h1, h2⟩))

lemma isChain_congr {m' : Mem} {xs : List ℕ}
    (hc : xs.IsChain fun x y => ¬ (headerIsHole m x = 1 ∧ headerIsHole m y = 1))
    (hsame : ∀ x ∈ xs, headerIsHole m' x = headerIsHole m x) :
    xs.IsChain fun x y => ¬ (headerIsHole m' x = 1 ∧ headerIsHole m' y = 1) := by
  induction xs with
  | nil => exact .nil
  | cons x xs ih =>
    obtain ⟨hhead, htail⟩ := List.isChain_cons.mp hc
    refine List.isChain_cons.mpr ⟨fun y hy => ?_, ih htail fun y hy =>
      hsame y (List.mem_cons_of_mem x hy)⟩
    rw [hsame x (List.mem_cons_self ..), hsame y (List.mem_cons_of_mem x (List.mem_of_mem_head? hy))]
    exact hhead y hy

theorem wellFormed_join (hw : WellFormed A k hs L) (hP : Tagged k.mem k.heap.startAddress P h)
    (hQ : Tagged k.mem e Q k.heap.endAddress) (hhe : h ≤ k.heap.endAddress)
    (hs' : Sides k.mem P Q) (hfix : ∀ x, k.heap.startAddress ≤ x ∧ x < h ∨
      e ≤ x ∧ x < k.heap.endAddress → k'.mem x = k.mem x)
    (hstart : k'.heap.startAddress = k.heap.startAddress) (ht : Tagged k'.mem h [h] e')
    (hhole : headerIsHole k'.mem h = 1)
    (hend : e' = e ∧ k'.heap.endAddress = k.heap.endAddress ∨ Q = [] ∧ k'.heap.endAddress = e')
    (hlt : k'.heap.endAddress < 2 ^ 32) (hl : Listed A k'.heap.index k'.mem L')
    (hperm : L'.Perm ((P.filter fun x => headerIsHole k.mem x = 1) ++
      h :: Q.filter fun x => headerIsHole k.mem x = 1)) :
    WellFormed A k' (P ++ [h] ++ Q) L' := by
  obtain ⟨⟨hP', hPh⟩, hQ', hQh⟩ := tagged_sides hP hQ hw.endLt hhe hfix
  have hQend : Tagged k'.mem e' Q k'.heap.endAddress := by
    rcases hend with ⟨rfl, heq⟩ | ⟨rfl, heq⟩
    · rw [heq]
      exact hQ'
    · rw [heq]
      exact ⟨rfl, fun x hx => absurd hx List.not_mem_nil, fun x hx => absurd hx List.not_mem_nil⟩
  refine ⟨?_, hl, ?_, ?_, hw.null, hstart ▸ hw.below, hlt⟩
  · rw [hstart]
    exact tagged_append.mpr ⟨e', tagged_append.mpr ⟨h, hP', ht⟩, hQend⟩
  · rw [List.filter_append, List.filter_append, filter_congr hPh, filter_congr hQh,
      List.filter_singleton, decide_eq_true hhole, List.append_assoc]
    exact hperm
  · have hP'' := isChain_congr hs'.before hPh
    have hQ'' := isChain_congr hs'.after hQh
    refine List.isChain_append.mpr ⟨List.isChain_append.mpr ⟨hP'', .singleton h, ?_⟩, hQ'', ?_⟩
    · intro x hx y hy hboth
      rw [hPh x (List.mem_of_getLast? hx)] at hboth
      exact hs'.last x hx hboth.1
    · intro x hx y hy hboth
      rw [hQh y (List.mem_of_mem_head? hy)] at hboth
      exact hs'.head y hy hboth.2

theorem wellFormed_cut (hw : WellFormed A k hs L) (hP : Tagged k.mem k.heap.startAddress P h)
    (hhe : h ≤ k.heap.endAddress) (hs' : Sides k.mem P Q)
    (hfix : ∀ x, k.heap.startAddress ≤ x → x < h → k'.mem x = k.mem x)
    (hstart : k'.heap.startAddress = k.heap.startAddress) (hend : k'.heap.endAddress = h)
    (hl : Listed A k'.heap.index k'.mem L')
    (hperm : L'.Perm (P.filter fun x => headerIsHole k.mem x = 1)) :
    WellFormed A k' P L' := by
  have hlt := hw.endLt
  have hws : Writes k.mem k'.mem {x | k'.mem x ≠ k.mem x} := fun x hx => by simpa using hx
  obtain ⟨hP', hPh⟩ := hP.frame hws (by omega) fun x h1 h2 hx => hx (hfix x h1 h2)
  refine ⟨?_, hl, ?_, isChain_congr hs'.before hPh, hw.null, hstart ▸ hw.below, by omega⟩
  · rw [hstart, hend]
    exact hP'
  · rw [filter_congr hPh]
    exact hperm

lemma WellFormed.perm_around (hw : WellFormed A k (pre ++ [l] ++ b :: r :: post) L)
    (hb : headerIsHole k.mem b ≠ 1) : L.Perm
      (((keptBefore k.mem (pre ++ [l])).filter fun x => headerIsHole k.mem x = 1) ++
        ((if headerIsHole k.mem l = 1 then [l] else []) ++
          ((if headerIsHole k.mem r = 1 then [r] else []) ++
            (keptAfter k.mem (r :: post)).filter fun x => headerIsHole k.mem x = 1))) := by
  refine hw.holes.trans (List.Perm.of_eq ?_)
  rw [keptBefore_concat, keptAfter_cons]
  by_cases hl : headerIsHole k.mem l = 1 <;> by_cases hr : headerIsHole k.mem r = 1 <;>
    simp [List.filter_append, hl, hr, hb]

lemma perm_behind (hperm : L.Perm (P ++ ([] ++ ([r] ++ Q)))) (hout : L.Perm (r :: L')) :
    L'.Perm (P ++ Q) := by
  have h : (r :: L').Perm (r :: (P ++ Q)) := by
    refine (hout.symm.trans hperm).trans ?_
    exact List.perm_middle
  exact h.cons_inv

lemma perm_both (hperm : L.Perm (P ++ ([l] ++ ([r] ++ Q)))) (hout : L.Perm (r :: L')) :
    L'.Perm (P ++ l :: Q) := by
  have h := perm_behind (P := P ++ [l]) (Q := Q) (by simpa using hperm) hout
  simpa using h

lemma WellFormed.tests (hw : WellFormed A k (pre ++ [l] ++ b :: r :: post) L) :
    sub32 b 8 = b - 8 ∧ add32 (sub32 (add32 b (headerSize k.mem b)) 8) 8 = r ∧
      footerHeader k.mem (b - 8) = l ∧ read32 k.mem (b - 8) = HEAP_MAGIC ∧
      headerMagic k.mem r = HEAP_MAGIC := by
  obtain ⟨e, hpre, hl, hb, hr, hpost⟩ := hw.around
  have hend := hw.endLt
  have h2 := hpost.tiled.le
  obtain ⟨-, hl20, -, -, hlfooter⟩ := tagged_singleton.mp hl
  obtain ⟨-, hb20, -, hbsize, -⟩ := tagged_singleton.mp hb
  obtain ⟨-, hr20, hrmagic, -⟩ := tagged_singleton.mp hr
  have hsum : add32 b (r - b) = r := by
    rw [add32_eq (by omega)]
    omega
  refine ⟨sub32_eq (by omega) (by omega), ?_, hlfooter.2, hlfooter.1, hrmagic⟩
  rw [hbsize, hsum, sub32_eq (by omega) (by omega), add32_eq (by omega)]
  omega

lemma WellFormed.slot_zero (hw : WellFormed A k hs L) :
    slot k.heap.index.array k.mem 0 = L.head?.getD 0 := by
  rw [hw.listed.array, hw.listed.slots 0 (by decide), List.head?_eq_getElem?]

/-- The tags that `free` reads are those of the block, of the tiles beside it and of the first hole
that is listed. -/
lemma reads_inside (hw : WellFormed A k (pre ++ [l] ++ b :: r :: post) L)
    (hfirst : headerIsHole k.mem l ≠ 1 → headerIsHole k.mem r ≠ 1 →
      k.heap.index.cur ≠ 0 → L ≠ []) :
    ∀ x ∈ tagsRead b k, k.heap.startAddress ≤ x.1 ∧ x.2 ≤ k.heap.endAddress := by
  obtain ⟨e, hpre, hl, hb, hr, hpost⟩ := hw.around
  obtain ⟨htest, hnext, howner, hmagic, hrmagic⟩ := hw.tests
  have h1 := hpre.tiled.le
  have h2 := hpost.tiled.le
  obtain ⟨-, hl20, -⟩ := tagged_singleton.mp hl
  obtain ⟨-, hb20, -⟩ := tagged_singleton.mp hb
  obtain ⟨-, hr20, -⟩ := tagged_singleton.mp hr
  unfold tagsRead tagsCompared
  simp only [htest, hnext, howner, hmagic, hrmagic, and_true, List.forall_mem_cons]
  refine ⟨⟨by omega, by omega⟩, ⟨by omega, by omega⟩, ⟨by omega, by omega⟩, ⟨by omega, by omega⟩, ?_⟩
  split_ifs with hnew
  · obtain ⟨hlh, hrh, hcur⟩ := hnew
    obtain ⟨first, rest, rfl⟩ := List.exists_cons_of_ne_nil (hfirst hlh hrh hcur)
    have hslot : slot k.heap.index.array k.mem 0 = first := hw.slot_zero
    rw [hslot, List.forall_mem_singleton]
    obtain ⟨hmem, -⟩ := hw.mem_iff.mp (List.mem_cons_self ..)
    have := hw.tags.tiled.mem hmem
    exact ⟨by omega, by omega⟩
  · exact fun x hx => absurd hx List.not_mem_nil

lemma others_of_fix (hw : WellFormed A k (pre ++ [l] ++ b :: r :: post) L)
    (he : Tagged k.mem r [r] e) (hpost : Tagged k.mem e post k.heap.endAddress)
    (hfix : ∀ x, k.heap.startAddress ≤ x ∧ x < (if headerIsHole k.mem l = 1 then l else b) ∨
      (if headerIsHole k.mem r = 1 then e else r) ≤ x ∧ x < k.heap.endAddress → m x = k.mem x) :
    ∀ t ∈ (pre ++ [l]) ++ r :: post, headerIsHole k.mem t ≠ 1 →
      ∀ x, t ≤ x → x < t + headerSize k.mem t → m x = k.mem x := by
  obtain ⟨e₀, hpre, hl, hb, hr, -⟩ := hw.around
  obtain ⟨-, hl20, -, hlsize, -⟩ := tagged_singleton.mp hl
  obtain ⟨-, hb20, -⟩ := tagged_singleton.mp hb
  obtain ⟨-, hr20, -, hrsize, -⟩ := tagged_singleton.mp he
  have h1 := hpre.tiled.le
  have h2 := hpost.tiled.le
  intro t ht hblock x hx1 hx2
  apply hfix
  rcases List.mem_append.mp ht with ht | ht
  · left
    rcases List.mem_append.mp ht with ht | ht
    · obtain ⟨h3, -, h4⟩ := hpre.tiled.mem ht
      split_ifs <;> omega
    · obtain rfl := List.mem_singleton.mp ht
      rw [if_neg hblock]
      omega
  · right
    rcases List.mem_cons.mp ht with rfl | ht
    · rw [if_neg hblock]
      omega
    · obtain ⟨h3, -, h4⟩ := hpost.tiled.mem ht
      split_ifs <;> omega

end Assemble

end OsImplement.Memory
