import OsImplement.Memory.HeapLayout

/-!
Where `alloc` places a block.

`PlaceOk` is the condition under which the tags that `alloc` writes, and the sizes that it records,
are those of a block and of holes that are apart: a condition on the address and the size of the
hole, the end of the heap and the request.
-/

namespace OsImplement.Memory

open Lib.Word Lib.Bytes Lib.Interval

/-- How far a page-aligned block is moved up in the hole at `p`. -/
def alignOffset (pageAlign : Bool) (p : ℕ) : ℕ :=
  if pageAlign ∧ (p + 12) % 0x1000 ≠ 0 then 0x1000 - (p + 12) % 0x1000 else 0

/-- The room that a block of `n` bytes, tags included, takes in a hole of `s`. -/
def blockRoom (s n : ℕ) : ℕ := if sub32 s n < 20 then s else n

/-- The size that is recorded for what is left behind the block. -/
def restSize (d s room : ℕ) : ℕ := s + (if d = 0 then 0 else 12) - d - room

/-- The block of `n` bytes goes well into the hole at `p` of `s` bytes, in a heap that ends at
`end_` and has inserted `cur` holes so far. -/
structure PlaceOk (p s end_ cur n : ℕ) (pageAlign : Bool) : Prop where
  /-- The slot is not one of the NULL slots behind the listed holes. -/
  listed : p ≠ 0
  noWrap : p + s + 12 < 2 ^ 32
  /-- The block fits, also behind the part that alignment takes. -/
  fits : n ≤ s ∧ alignOffset pageAlign p + blockRoom s n ≤ s
  inside : p + alignOffset pageAlign p + blockRoom s n ≤ end_
  /-- What alignment leaves has room for a header and a footer, and the size behind the block, that
  is recorded 12 too large, belongs to the last hole. -/
  front : alignOffset pageAlign p = 0 ∨ 20 ≤ alignOffset pageAlign p ∧ end_ ≤ p + s
  /-- The footer behind the block misses the size of its hole, and the index has a slot left. -/
  back : restSize (alignOffset pageAlign p) s (blockRoom s n) = 0 ∨
    cur + 1 < HEAP_INDEX_SIZE ∧
      (end_ + 8 ≤ p + alignOffset pageAlign p +
          restSize (alignOffset pageAlign p) s (blockRoom s n) ∨
        restSize (alignOffset pageAlign p) s (blockRoom s n) ≤ blockRoom s n + 8 ∨
        blockRoom s n + 20 ≤ restSize (alignOffset pageAlign p) s (blockRoom s n))

namespace Kernel

/-- The same kernel with other contents of the heap. -/
def retag (m : Mem) (index : SortedArray) (k : Kernel) : Kernel :=
  { k with mem := m, heap := { k.heap with index := index } }

section Retag

variable {k : Kernel} {m m' : Mem} {a a' : SortedArray}

@[simp] lemma mem_retag : (k.retag m a).mem = m := rfl
@[simp] lemma index_retag : (k.retag m a).heap.index = a := rfl
@[simp] lemma startAddress_retag : (k.retag m a).heap.startAddress = k.heap.startAddress := rfl
@[simp] lemma endAddress_retag : (k.retag m a).heap.endAddress = k.heap.endAddress := rfl
@[simp] lemma retag_retag : (k.retag m a).retag m' a' = k.retag m' a' := rfl

lemma write_eq (f : Mem → Mem) : k.write f = k.retag (f k.mem) k.heap.index := rfl

end Retag

end Kernel

section Place

variable {A p s i d d' r room n size cur end_ : ℕ} {pageAlign : Bool} {k : Kernel} {L : List ℕ}

lemma alignOffset_lt : alignOffset pageAlign p < 0x1000 := by
  unfold alignOffset
  split <;> omega

lemma alignOffset_ne_zero : alignOffset pageAlign p ≠ 0 ↔ pageAlign ∧ (p + 12) % 0x1000 ≠ 0 := by
  unfold alignOffset
  split
  · next h => exact iff_of_true (by omega) h
  · next h => exact iff_of_false (by simp) h

lemma and_mask (p : ℕ) : add32 p 12 &&& 0xFFF = (p + 12) % 0x1000 := by
  rw [and_4095]
  unfold add32
  omega

lemma front_addresses (hd : d = alignOffset pageAlign p) (h20 : 20 ≤ d) (htop : p + d ≤ 2 ^ 32) :
    (pageAlign ∧ (p + 12) % 0x1000 ≠ 0) ∧
      sub32 (add32 p 0x1000) ((p + 12) % 0x1000) = add32 p d ∧
      sub32 (0x1000 - 12) ((p + 12) % 0x1000) = d - 12 ∧ sub32 (add32 p d) 8 = p + d - 8 := by
  have hcond := alignOffset_ne_zero.mp (show alignOffset pageAlign p ≠ 0 by omega)
  have hdx : d = 0x1000 - (p + 12) % 0x1000 := by rw [hd, alignOffset, if_pos hcond]
  refine ⟨hcond, ?_, ?_, ?_⟩
  · unfold add32 sub32
    omega
  · unfold sub32
    omega
  · unfold add32 sub32
    omega

/-- The hole that alignment leaves in front of the block, of `d - 12` bytes as it says. -/
lemma cutFront_aligned (hd : d = alignOffset pageAlign p) (h20 : 20 ≤ d) (hds : d ≤ s + 12)
    (htop : p + d ≤ 2 ^ 32) (hs : s < 2 ^ 32) :
    ∃ m, k.cutFront i p s pageAlign = some (add32 p d, s + 12 - d, k.retag m k.heap.index) ∧
      Writes k.mem m (Set.Ico p (p + d)) ∧ headerSize m p = d - 12 := by
  obtain ⟨hcond, hloc, hlead, hfoot⟩ := front_addresses hd h20 htop
  set m₁ := writeHeader p 1 (d - 12) k.mem with hm₁
  set m₂ := writeFooter (p + d - 8) p m₁ with hm₂
  have hw₁ : Writes k.mem m₁ (Set.Ico p (p + d)) :=
    writes_writeHeader le_rfl (by omega) (by omega)
  have hw₂ : Writes m₁ m₂ (Set.Ico (p + d - 8) (p + d)) :=
    writes_writeFooter le_rfl (by omega) (by omega)
  have hsize : headerSize m₂ p = d - 12 := by
    rw [headerSize_of_writes hw₂ (by omega) fun x hx => Or.inr ?_]
    · exact headerSize_writeHeader (by omega) (by omega)
    · have := hx.1
      omega
  refine ⟨m₂, ?_, hw₁.trans (hw₂.mono (Set.Ico_subset_Ico (by omega) le_rfl)), hsize⟩
  unfold Kernel.cutFront
  rw [and_mask, if_pos hcond, hloc, hlead]
  simp only [hfoot, Kernel.write_eq, Kernel.mem_retag, Kernel.index_retag,
    Kernel.retag_retag, ← hm₁, ← hm₂, hsize]
  rw [sub32_eq (by omega) hs, show s - (d - 12) = s + 12 - d by omega]

lemma cutFront_spec (hl : Listed A k.heap.index k.mem L) (hi : i < L.length) (hp : L[i] = p)
    (hlo : A + 4 * HEAP_INDEX_SIZE ≤ p) (hd : d = alignOffset pageAlign p)
    (hfront : d = 0 ∨ 20 ≤ d) (htop : p + s + 12 ≤ 2 ^ 32) (hds : d ≤ s) :
    ∃ m a, k.cutFront i p s pageAlign =
        some (p + d, s + (if d = 0 then 0 else 12) - d, k.retag m a) ∧
      Listed A a m (if d = 0 then L.eraseIdx i else L) ∧ a.cur = k.heap.index.cur ∧
      Writes k.mem m (Set.Ico A (A + 4 * HEAP_INDEX_SIZE) ∪ Set.Ico p (p + d)) ∧
      (d ≠ 0 → headerSize m p = d - 12) := by
  by_cases h0 : d = 0
  · have hcond : ¬ (pageAlign = true ∧ (p + 12) % 0x1000 ≠ 0) := fun h =>
      (hd ▸ alignOffset_ne_zero.mpr h) h0
    obtain ⟨a, m, hrem, hl', hcur, hw⟩ := hl.remove hi
    refine ⟨m, a, ?_, ?_, hcur, hw.mono Set.subset_union_left, fun h => absurd h0 h⟩
    · unfold Kernel.cutFront
      rw [and_mask, if_neg hcond, Kernel.removeHole, hrem, h0]
      rfl
    · rwa [if_pos h0]
  · obtain ⟨m, hcut, hw, hsize⟩ := @cutFront_aligned p s i d pageAlign k hd (hfront.resolve_left h0)
      (by omega) (by omega) (by omega)
    refine ⟨m, k.heap.index, ?_, ?_, rfl, hw.mono Set.subset_union_right, fun _ => hsize⟩
    · rw [hcut, if_neg h0, add32_eq (by omega)]
    · rw [if_neg h0]
      refine hl.frame hw fun x hx => Or.inr ?_
      have := hx.1
      omega

lemma back_addresses {t : ℕ} (hroom : 20 ≤ room) (hsize : size + 20 = room)
    (htop : p + room + t < 2 ^ 32) (ht : t ≠ 0 → 12 ≤ t) (h0 : t ≠ 0) :
    add32 (add32 p 20) size = p + room ∧ sub32 (room + t) room = t ∧
      sub32 (sub32 (add32 p (room + t)) 8) room = p + t - 8 := by
  have ht12 := ht h0
  have h20 : add32 p 20 = p + 20 := add32_eq (by omega)
  have hend : add32 p (room + t) = p + room + t := by
    rw [add32_eq (by omega)]
    omega
  have h8 : sub32 (p + room + t) 8 = p + room + t - 8 := sub32_eq (by omega) (by omega)
  refine ⟨?_, ?_, ?_⟩
  · rw [h20, add32_eq (by omega)]
    omega
  · rw [sub32_eq (by omega) (by omega)]
    omega
  · rw [hend, h8, sub32_eq (by omega) (by omega)]
    omega

lemma cutBack_spec {t lo hi : ℕ} (hl : Listed A k.heap.index k.mem L)
    (hlo : A + 4 * HEAP_INDEX_SIZE ≤ lo) (hlo' : lo ≤ p + room) (hfoot' : t ≠ 0 → lo + 8 ≤ p + t)
    (hroom : 20 ≤ room) (hsize : size + 20 = room) (htop : p + room + t < 2 ^ 32)
    (hword : p + room + 12 ≤ 2 ^ 32) (ht : t ≠ 0 → 12 ≤ t)
    (hback : t = 0 ∨ k.heap.index.cur + 1 < HEAP_INDEX_SIZE ∧
      (k.heap.endAddress + 8 ≤ p + t ∨ t ≤ room + 8 ∨ room + 20 ≤ t))
    (hhi : t ≠ 0 → p + room + 12 ≤ hi) (hhi' : p + t ≤ hi) :
    ∃ m a, k.cutBack p (room + t) size room = k.retag m a ∧
      Listed A a m (if t = 0 then L else (p + room) :: L) ∧
      Writes k.mem m (Set.Ico A (A + 4 * HEAP_INDEX_SIZE) ∪ Set.Ico lo hi) ∧
      (t ≠ 0 → headerSize m (p + room) = t) ∧ a.cur ≤ k.heap.index.cur + 1 := by
  unfold Kernel.cutBack
  by_cases h0 : t = 0
  · subst h0
    rw [if_neg (by omega)]
    exact ⟨k.mem, k.heap.index, rfl, by simpa using hl, Writes.refl _ _, fun h => absurd rfl h,
      Nat.le_succ _⟩
  · obtain ⟨hcur, hfooter⟩ := hback.resolve_left h0
    have ht12 := ht h0
    have hhi12 := hhi h0
    obtain ⟨hhole, hrest, hfoot⟩ := back_addresses hroom hsize htop ht h0
    rw [if_pos (by omega), hhole, hrest, hfoot]
    set m₁ := writeHeader (p + room) 1 t k.mem with hm₁
    have hfoot8 := hfoot' h0
    have hw₁ : Writes k.mem m₁ (Set.Ico lo hi) :=
      writes_writeHeader (by omega) (by omega) (by omega)
    have hs₁ : headerSize m₁ (p + room) = t := headerSize_writeHeader (by omega) (by omega)
    -- the footer, if it is written, misses the size
    obtain ⟨m₂, hm₂, hw₂, hs₂⟩ : ∃ m₂, (if p + t - 8 < k.heap.endAddress then
        (k.retag m₁ k.heap.index).write (writeFooter (p + t - 8) (p + room))
        else k.retag m₁ k.heap.index) = k.retag m₂ k.heap.index ∧
        Writes m₁ m₂ (Set.Ico lo hi) ∧ headerSize m₂ (p + room) = t := by
      split_ifs with hlt
      · have hw : Writes m₁ (writeFooter (p + t - 8) (p + room) m₁)
            (Set.Ico (p + t - 8) (p + t)) :=
          writes_writeFooter le_rfl (by omega) (by omega)
        refine ⟨_, rfl, hw.mono (Set.Ico_subset_Ico (by omega) hhi'), ?_⟩
        show headerSize (writeFooter (p + t - 8) (p + room) m₁) (p + room) = t
        rw [headerSize_of_writes hw (by omega) fun x hx => ?_, hs₁]
        have h1 := hx.1
        have h2 := hx.2
        omega
      · exact ⟨m₁, rfl, Writes.refl _ _, hs₁⟩
    have hw₁₂ := hw₁.trans hw₂
    have hl₂ : Listed A k.heap.index m₂ L := hl.frame hw₁₂ fun x hx => Or.inr (by
      have := hx.1
      omega)
    obtain ⟨hl₃, hw₃⟩ := hl₂.insert hcur (show p + room < 2 ^ 32 by omega)
    refine ⟨_, (insertSortedArray (p + room) k.heap.index m₂).1, ?_, ?_,
      (hw₁₂.mono Set.subset_union_right).trans (hw₃.mono Set.subset_union_left), fun _ => ?_, ?_⟩
    · show Kernel.insertHole (p + room) (if p + t - 8 < k.heap.endAddress then
        (k.retag m₁ k.heap.index).write (writeFooter (p + t - 8) (p + room))
        else k.retag m₁ k.heap.index) = _
      rw [hm₂]
      rfl
    · rw [if_neg h0]
      exact hl₃
    · rw [headerSize_of_writes hw₃ (by omega) fun x hx => Or.inl ?_, hs₂]
      have := hx.2
      omega
    · rw [Listed.cur_insertSortedArray]
      exact Nat.mod_le _ _

/-- The holes after a block has gone into hole `i`, at `p` with its region up to `r`: `t` bytes
are left behind it, and `d` bytes in front. -/
def placedHoles (holes : List (ℕ × ℕ)) (i p r d room t : ℕ) : List (ℕ × ℕ) :=
  (if t = 0 then [] else [(p + d + room, r)]) ++
    if d = 0 then holes.eraseIdx i else holes.set i (p, p + d)

lemma placedHoles_perm {holes : List (ℕ × ℕ)} {t : ℕ} (hi : i < holes.length) :
    (placedHoles holes i p r d room t).Perm
      ((if t = 0 then [] else [(p + d + room, r)]) ++ (if d = 0 then [] else [(p, p + d)]) ++
        holes.eraseIdx i) := by
  unfold placedHoles
  rw [List.append_assoc]
  refine List.Perm.append_left _ ?_
  split_ifs
  · exact List.Perm.refl _
  · exact List.set_perm_cons_eraseIdx hi _

lemma PlaceOk.sizes {t : ℕ} (hok : PlaceOk p s end_ cur (size + 20) pageAlign) (hs32 : s < 2 ^ 32)
    (hd : d = alignOffset pageAlign p) (hroom : room = blockRoom s (size + 20))
    (ht : t = restSize d s room) :
    (∃ size', (if sub32 s (size + 20) < 12 + 8 then add32 size (sub32 s (size + 20)) else size) =
      size' ∧ size' + 20 = room) ∧ size + 20 ≤ room ∧
      room + t = s + (if d = 0 then 0 else 12) - d ∧ (t ≠ 0 → 12 ≤ t) ∧
      d + room + t = s + (if d = 0 then 0 else 12) ∧ p + d + room + t < 2 ^ 32 := by
  obtain ⟨-, hwrap, ⟨hle, hfits⟩, -, -, -⟩ := hok
  rw [← hd, ← hroom] at hfits
  have hsub : sub32 s (size + 20) = s - (size + 20) := sub32_eq hle hs32
  have hroomn : size + 20 ≤ room := by
    rw [hroom, blockRoom]
    split <;> omega
  have htd : room + t = s + (if d = 0 then 0 else 12) - d := by
    rw [ht, restSize]
    omega
  have htot : d + room + t = s + if d = 0 then 0 else 12 := by omega
  refine ⟨?_, hroomn, htd, fun h0 => ?_, htot, ?_⟩
  · rw [hroom, blockRoom, hsub]
    split_ifs with hlt
    · exact ⟨_, rfl, by rw [add32_eq (by omega)]; omega⟩
    · exact ⟨_, rfl, rfl⟩
  · by_cases hd0 : d = 0
    · rw [if_pos hd0] at htd
      have hns : ¬ sub32 s (size + 20) < 20 := fun hlt => by
        rw [blockRoom, if_pos hlt] at hroom
        omega
      rw [blockRoom, if_neg hns] at hroom
      omega
    · rw [if_neg hd0] at htd
      omega
  · split_ifs at htot <;> omega

theorem placeBlock_spec {holes blocks : List (ℕ × ℕ)} {t : ℕ} (h : HeapInv A holes blocks k)
    (hi : i < holes.length) (hp : holes[i] = (p, r))
    (hs : s = headerSize k.mem p) (hd : d = alignOffset pageAlign p)
    (hroom : room = blockRoom s (size + 20)) (ht : t = restSize d s room)
    (hok : PlaceOk p s k.heap.endAddress k.heap.index.cur (size + 20) pageAlign) :
    ∃ m a, k.placeBlock i size (size + 20) pageAlign = some (p + d + 12, k.retag m a) ∧
      HeapInv A (placedHoles holes i p r d room t) ((p + d + 12, p + d + 12 + size) :: blocks)
        (k.retag m a) ∧
      (size + 20 ≤ room ∧ (t = 0 ∨ 20 ≤ t → headerSize m (p + d) = room)) ∧
      (t ≠ 0 → headerSize m (p + d + room) = t) ∧
      (d ≠ 0 → headerSize m p = d - 12) ∧
      (∀ h ∈ holes, h.1 ≠ p → headerSize m h.1 = headerSize k.mem h.1) ∧
      Writes k.mem m (Set.Ico A (A + 4 * HEAP_INDEX_SIZE) ∪ Set.Ico p r) ∧
      a.cur ≤ k.heap.index.cur + 1 := by
  have hs32 : s < 2 ^ 32 := hs ▸ headerSize_lt _ _
  obtain ⟨⟨size', hsize', hsel⟩, hroomn, htd, ht12, htot, htop⟩ := hok.sizes hs32 hd hroom ht
  obtain ⟨-, hwrap, ⟨hle, hfits⟩, hin, hfront, hback⟩ := hok
  rw [← hd, ← hroom] at hfits hin hback
  rw [← hd] at hfront
  rw [← ht] at hback
  have hmem : (p, r) ∈ holes := hp ▸ List.getElem_mem hi
  obtain ⟨hlo, hheader, hword, hin', htail⟩ := h.hole _ hmem
  rw [← hs] at hin' htail
  simp only at hlo hheader hword hin' htail
  have hend := h.endLt
  have hT : TOP = 2 ^ 33 := rfl
  have hrTop : d ≠ 0 → r = TOP := fun hd0 => by
    have := hfront.resolve_left hd0
    omega
  have hrt : t ≠ 0 → p + d + room + 12 ≤ r := fun h0 => by
    have := ht12 h0
    by_cases hd0 : d = 0
    · rw [if_pos hd0] at htd
      omega
    · rw [hrTop hd0]
      omega
  have hrt' : p + d + t ≤ r := by
    by_cases hd0 : d = 0
    · rw [if_pos hd0] at htot
      omega
    · rw [hrTop hd0]
      omega
  have hlen : i < (holes.map Prod.fst).length := by simpa using hi
  have hget : (holes.map Prod.fst)[i] = p := by
    rw [List.getElem_map, hp]
  have hfind : findSortedArray i k.heap.index k.mem = some p := by
    have hilt : i < k.heap.index.size := by
      have := h.listed.length_lt
      rw [List.length_map] at this
      omega
    rw [h.listed.find hilt, List.getElem?_eq_getElem (by simpa using hi), hget]
    rfl
  obtain ⟨m₁, a₁, hcut, hl₁, hcur₁, hw₁, hlead₁⟩ := cutFront_spec h.listed (by simpa using hi) hget
    hlo hd (hfront.imp id And.left) (show p + s + 12 ≤ 2 ^ 32 by omega) (show d ≤ s by omega)
  set m₂ := writeFooter (p + d + room - 8) (p + d) (writeHeader (p + d) 0 room m₁) with hm₂
  have hw₂ : Writes m₁ m₂ (Set.Ico (p + d) (p + d + room)) :=
    (writes_writeHeader le_rfl (by omega) (by omega)).trans
      (writes_writeFooter (by omega) (by omega) (by omega))
  have hl₂ : Listed A a₁ m₂ (if d = 0 then (holes.map Prod.fst).eraseIdx i
      else holes.map Prod.fst) := hl₁.frame hw₂ fun x hx => Or.inr (by
    have := hx.1
    omega)
  -- the footer behind the block keeps off its header, unless there is no room for two tags
  obtain ⟨lo, hlo₁, hlo₂, hlo₃, hlo₄⟩ : ∃ lo, p + d ≤ lo ∧ lo ≤ p + d + 12 ∧
      (t ≠ 0 → lo + 8 ≤ p + d + t) ∧ (t = 0 ∨ 20 ≤ t → lo = p + d + 12) := by
    by_cases ht : t = 0 ∨ 20 ≤ t
    · exact ⟨p + d + 12, by omega, le_rfl, fun _ => by omega, fun _ => rfl⟩
    · exact ⟨p + d, le_rfl, by omega, fun h0 => by have := ht12 h0; omega, fun h => absurd h ht⟩
  obtain ⟨m₃, a₃, hback₃, hl₃, hw₃, hrest₃, hcur₃⟩ := @cutBack_spec A (p + d) room size'
    (k.retag m₂ a₁) _ t lo r hl₂ (by omega) (by omega) hlo₃ (by omega) hsel htop (by omega) ht12
    (by rw [Kernel.index_retag, Kernel.endAddress_retag, hcur₁]; exact hback) hrt hrt'
  have hblock : t = 0 ∨ 20 ≤ t → headerSize m₃ (p + d) = room := fun ht => by
    have hs₂ : headerSize m₂ (p + d) = room := by
      have hw : Writes (writeHeader (p + d) 0 room m₁) m₂
          (Set.Ico (p + d + room - 8) (p + d + room)) :=
        writes_writeFooter le_rfl (by omega) (by omega)
      rw [headerSize_of_writes hw (by omega) fun x hx => Or.inr ?_]
      · exact headerSize_writeHeader (by omega) (by omega)
      · have := hx.1
        omega
    rw [← hs₂]
    refine headerSize_of_writes hw₃ (by omega) fun x hx => ?_
    rcases hx with hx | hx
    · have := hx.2
      omega
    · have := hx.1
      have := hlo₄ ht
      omega
  have hfoot : add32 (add32 (p + d) size') 12 = p + d + room - 8 := by
    have h1 : add32 (p + d) size' = p + d + size' := add32_eq (by omega)
    rw [h1, add32_eq (by omega)]
    omega
  have hplace : k.placeBlock i size (size + 20) pageAlign = some (p + d + 12, k.retag m₃ a₃) := by
    unfold Kernel.placeBlock
    rw [hfind]
    simp only [Option.bind_eq_bind, Option.bind_some, ← hs, hsize']
    rw [show (if sub32 s (size + 20) < 12 + 8 then s else size + 20) = room from hroom.symm, hcut]
    simp only [Option.bind_some, hfoot, ← htd]
    rw [add32_eq (by omega)]
    exact congrArg (fun k' => some (p + d + 12, k')) hback₃
  have hpd : p + d ≤ r := by omega
  have hpdr : p + d + room ≤ r := by
    by_cases h0 : t = 0
    · by_cases hd0 : d = 0
      · omega
      · rw [hrTop hd0]
        omega
    · have := hrt h0
      omega
  have hw₁₃ : Writes m₁ m₃ (Set.Ico A (A + 4 * HEAP_INDEX_SIZE) ∪ Set.Ico (p + d) r) :=
    (hw₂.mono ((Set.Ico_subset_Ico le_rfl hpdr).trans Set.subset_union_right)).trans
      (hw₃.mono (Set.union_subset_union_right _ (Set.Ico_subset_Ico hlo₁ le_rfl)))
  have hw : Writes k.mem m₃ (Set.Ico A (A + 4 * HEAP_INDEX_SIZE) ∪ Set.Ico p r) :=
    (hw₁.mono (Set.union_subset_union_right _ (Set.Ico_subset_Ico le_rfl hpd))).trans
      (hw₁₃.mono (Set.union_subset_union_right _ (Set.Ico_subset_Ico (by omega) le_rfl)))
  have hother : ∀ h' ∈ holes, h'.1 ≠ p → headerSize m₃ h'.1 = headerSize k.mem h'.1 :=
    fun h' hh' hne => h.headerSize_other hmem hw hh' hne
  have hlead : d ≠ 0 → headerSize m₃ p = d - 12 := fun hd0 => by
    have hd20 := (hfront.resolve_left hd0).1
    rw [← hlead₁ hd0]
    refine headerSize_of_writes hw₁₃ hword fun x hx => ?_
    rcases hx with hx | hx
    · have := hx.2
      omega
    · have := hx.1
      omega
  refine ⟨m₃, a₃, hplace, ⟨?_, h.start, hend, fun _ => by show _ ≤ k.heap.endAddress; omega,
    fun h' hh' => ?_, fun b hb => ?_, ?_⟩, ⟨hroomn, hblock⟩, hrest₃, hlead, hother, hw,
    hcur₃.trans_eq ?_⟩
  · have hfst : (placedHoles holes i p r d room t).map Prod.fst =
        if t = 0 then (if d = 0 then (holes.map Prod.fst).eraseIdx i else holes.map Prod.fst)
        else (p + d + room) :: if d = 0 then (holes.map Prod.fst).eraseIdx i
          else holes.map Prod.fst := by
      have hset : (holes.map Prod.fst).set i p = holes.map Prod.fst := by
        rw [← hget]
        exact List.set_getElem_self _
      unfold placedHoles
      split_ifs <;> simp [List.eraseIdx_map, hset]
    rw [hfst]
    exact hl₃
  · rcases List.mem_append.mp ((placedHoles_perm hi).subset hh') with hh' | hh'
    · rcases List.mem_append.mp hh' with hh' | hh'
      · by_cases h0 : t = 0
        · simp [h0] at hh'
        · -- the hole behind the block
          rw [if_neg h0, List.mem_singleton] at hh'
          subst hh'
          have hst := hrest₃ h0
          refine ⟨by show _ ≤ p + d + room; omega, hrt h0, by show p + d + room + 12 ≤ _; omega, ?_, ?_⟩
          · show p + d + room + headerSize m₃ (p + d + room) ≤ r
            rw [hst]
            by_cases hd0 : d = 0
            · rw [if_pos hd0] at htot
              omega
            · rw [hrTop hd0]
              omega
          · show r = TOP ∨ p + d + room + headerSize m₃ (p + d + room) < k.heap.endAddress
            rw [hst]
            by_cases hd0 : d = 0
            · rw [if_pos hd0] at htot
              rcases htail with htail | htail
              · exact Or.inl htail
              · exact Or.inr (by omega)
            · exact Or.inl (hrTop hd0)
      · by_cases hd0 : d = 0
        · simp [hd0] at hh'
        · -- the hole in front of it
          rw [if_neg hd0, List.mem_singleton] at hh'
          subst hh'
          have hd20 := (hfront.resolve_left hd0).1
          have hst := hlead hd0
          refine ⟨hlo, by show p + 12 ≤ p + d; omega, hword, ?_, Or.inr ?_⟩
          · show p + headerSize m₃ p ≤ p + d
            omega
          · show p + headerSize m₃ p < k.heap.endAddress
            omega
    · obtain ⟨hmem', hne⟩ := h.mem_eraseIdx hi hh'
      rw [hp] at hne
      obtain ⟨h1, h2, h3, h4, h5⟩ := h.hole h' hmem'
      rw [← hother h' hmem' hne] at h4 h5
      exact ⟨h1, h2, h3, h4, h5⟩
  · rcases List.mem_cons.mp hb with rfl | hb
    · exact ⟨by show A + 4 * HEAP_INDEX_SIZE ≤ p + d + 12; omega, by
        show p + d + 12 + size ≤ k.heap.endAddress; omega⟩
    · exact h.block b hb
  · have hap := (pairwise_perm ((List.getElem_cons_eraseIdx_perm hi).append_right blocks)).mpr h.apart
    rw [hp, List.cons_append] at hap
    have hperm : (placedHoles holes i p r d room t ++ (p + d + 12, p + d + 12 + size) :: blocks).Perm
        ((p + d + 12, p + d + 12 + size) :: ((if t = 0 then [] else [(p + d + room, r)]) ++
          (if d = 0 then [] else [(p, p + d)])) ++ (holes.eraseIdx i ++ blocks)) := by
      rw [List.cons_append]
      refine List.perm_middle.trans (List.Perm.cons _ ?_)
      rw [← List.append_assoc]
      exact (placedHoles_perm hi).append_right blocks
    rw [pairwise_perm hperm]
    refine pairwise_replace hap ?_ fun y hy => ?_
    · split_ifs <;> simp [Apart] <;> omega
    · rcases List.mem_cons.mp hy with rfl | hy
      · exact ⟨by show p ≤ p + d + 12; omega, by show p + d + 12 + size ≤ r; omega⟩
      · rcases List.mem_append.mp hy with hy | hy
        · split_ifs at hy with h0
          · simp at hy
          · obtain rfl := List.mem_singleton.mp hy
            exact ⟨by show p ≤ p + d + room; omega, le_rfl⟩
        · split_ifs at hy with hd0
          · simp at hy
          · obtain rfl := List.mem_singleton.mp hy
            exact ⟨le_rfl, hpd⟩
  · rw [Kernel.index_retag, hcur₁]

end Place

end OsImplement.Memory
