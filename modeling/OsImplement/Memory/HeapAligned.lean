import OsImplement.Memory.HeapTiles

/-!
A page-aligned block in a hole.

When the payload of the hole is aligned already, the block goes to its front, as any other block
does. When it is not, the hole that is left in front of the block is recorded twelve bytes too
small, and what is left behind it twelve bytes too large: the pieces do not meet.
-/

namespace OsImplement.Memory

open Lib.Word Lib.Bytes Lib.Cells

/-- The pieces of the hole at `p` when `alloc` has returned `ptr`: a hole in front of the block if
its payload was not aligned, the block, and the hole that was added to the index, if one was. -/
def pieces (k k' : Kernel) (p ptr : ℕ) : List ℕ :=
  (if (p + 12) % 0x1000 = 0 then [] else [p]) ++ sub32 ptr 12 ::
    if k'.heap.index.cur = k.heap.index.cur then [] else [slot k'.heap.index.array k'.mem 0]

/-- The payload is aligned, and the pieces make up the hole of `s` bytes. -/
def AlignedSplit (k k' : Kernel) (p s ptr : ℕ) : Prop :=
  ptr % 0x1000 = 0 ∧ Tiled k'.mem p (pieces k k' p ptr) (p + s)

/-- The payload of the hole is aligned, and the size behind the block of `n` bytes, if anything is
left there, is not hit by the footer that goes to `p + s - n - 8`. -/
def AlignedOk (p s n end_ : ℕ) : Prop :=
  (p + 12) % 0x1000 = 0 ∧ 20 ≤ s ∧ (s < n + 20 ∨ 20 ≤ n ∧ (end_ ≤ p + s - n - 8 ∨
    Agree (footerCells (p + s - n - 8) (p + n)) (wordCells (p + n + 8) (s - n))))

section Aligned

variable {i p s d n q t size room N fuel lo hi end_ : ℕ} {k : Kernel} {m : Mem} {hs : List ℕ}

/-! ### The payload is aligned already -/

lemma alignOffset_eq_zero : alignOffset true p = 0 ↔ (p + 12) % 0x1000 = 0 := by
  have h := @alignOffset_ne_zero p true
  simp only [true_and] at h
  exact not_iff_not.mp h

lemma Served.index (h : Served k i p s n true) (hd : alignOffset true p = 0)
    (hx : IndexApart k.heap.index N p s) (hcmp : k.heap.index.cmpFun = headerCmpLess)
    (hn : add32 (add32 size 12) 8 = n) (hsize : size < 2 ^ 32) :
    ∃ k', k.placeBlock i size n true = some (add32 p 12, k') ∧
      if blockRoom s n < s then k'.heap.index.cur ≠ k.heap.index.cur ∧
        Memory.slot k'.heap.index.array k'.mem 0 = p + n
      else k'.heap.index.cur = k.heap.index.cur := by
  have htop := h.top
  have hle := h.le hd
  have hs32 := h.size_lt
  obtain ⟨m₁, a₁, hcut, hx₁, harr, hcur, hcmp₁, -⟩ := @cutFront_plain i p s N true k hd h.array
    h.lt.1 hx
  have hplace : k.placeBlock i size n true = _ := placeBlock_eq h.find h.size rfl rfl
    hcut
  refine ⟨_, hplace, ?_⟩
  have hindex := @index_placeRest p s N k (placeTags p s (blockSize s n size) (blockRoom s n)
    k.heap.endAddress m₁) a₁ hx₁ (hcmp₁.trans hcmp) p s (blockSize s n size) (blockRoom s n)
  simp only at hindex
  by_cases hlt : blockRoom s n < s
  · rw [if_pos hlt] at hindex ⊢
    have hmod := (blockSize_mod hn hle hs32 hsize).1
    have hroom : blockRoom s n = n ∧ n + 20 ≤ s := by
      rw [blockRoom, sub32_eq hle hs32] at hlt ⊢
      split_ifs at hlt ⊢ <;> omega
    rw [hindex.1, hindex.2, hcur]
    constructor
    · unfold add32
      have := hx.spare
      have := hx.top
      omega
    · rw [hroom.1] at hmod
      unfold add32
      omega
  · rw [if_neg hlt] at hindex ⊢
    rw [hindex, hcur]

lemma headerSize_splitMem (h : Fits s room) (htop : p + s ≤ 2 ^ 32) (hs : s < 2 ^ 32) :
    headerSize (splitMem p s room end_ m) p = room ∧ (room < s →
      (headerSize (splitMem p s room end_ m) (p + room) = s - room ↔
        end_ ≤ p + s - room - 8 ∨ Agree (footerCells (p + s - room - 8) (p + room))
          (wordCells (p + room + 8) (s - room)))) := by
  obtain ⟨h20, hle, hrest⟩ := h
  set m₁ := writeFooter (p + room - 8) p (writeHeader p 0 room m) with hm₁
  have hfirst : headerSize m₁ p = room := by
    have hw : Writes (writeHeader p 0 room m) m₁ (Set.Ico (p + room - 8) (p + room)) :=
      writes_writeFooter le_rfl (by omega) (by omega)
    rw [headerSize_of_writes hw (by omega) fun x hx => Or.inr ?_,
      headerSize_writeHeader (by omega) (by omega)]
    have := hx.1
    omega
  by_cases hlt : room < s
  · have hroom := hrest hlt
    set m₂ := writeHeader (p + room) 1 (s - room) m₁ with hm₂
    have hmem : splitMem p s room end_ m = if p + s - room - 8 < end_ then
        writeFooter (p + s - room - 8) (p + room) m₂ else m₂ := if_pos hlt
    have hw₂ : Writes m₁ m₂ (Set.Ico (p + room) (p + s)) :=
      writes_writeHeader le_rfl (by omega) (by omega)
    have hw₃ : Writes m₁ (splitMem p s room end_ m) (Set.Ico (p + 12) (p + s)) := by
      rw [hmem]
      split_ifs
      · exact (hw₂.mono (Set.Ico_subset_Ico (by omega) le_rfl)).trans
          (writes_writeFooter (by omega) (by omega) (by omega))
      · exact hw₂.mono (Set.Ico_subset_Ico (by omega) le_rfl)
    refine ⟨?_, fun _ => ?_⟩
    · rw [headerSize_of_writes hw₃ (by omega) fun x hx => Or.inr hx.1, hfirst]
    · have h8 : add32 (p + room) 8 = p + room + 8 := add32_eq (by omega)
      have hsize : Holds m₂ (wordCells (p + room + 8) (s - room)) := by
        rw [holds_wordCells (by omega), ← h8]
        exact headerSize_writeHeader (by omega) (by omega)
      unfold headerSize
      rw [h8, ← holds_wordCells (by omega), hmem]
      split_ifs with hend
      · rw [Stores.holds_iff (stores_writeFooter (by omega)) hsize]
        exact ⟨.inr, fun h => h.resolve_left (by omega)⟩
      · exact iff_of_true hsize (.inl (by omega))
  · have hmem : splitMem p s room end_ m = m₁ := if_neg hlt
    rw [hmem]
    exact ⟨hfirst, fun h => absurd h hlt⟩

lemma headerSize_frame {a : SortedArray} {m' : Mem} (hx : IndexApart a N p s)
    (hw : Writes m m' (indexBytes a N)) (hq : p ≤ q) (hqs : q + 12 ≤ p + s) (htop : p + s ≤ 2 ^ 32) :
    headerSize m' q = headerSize m q := by
  refine headerSize_of_writes hw (by omega) fun x hmem => ?_
  by_contra hin
  push Not at hin
  exact hx.not_mem (by omega) (by omega) hmem

theorem alignedSplit_iff_of_aligned (h : Served k i p s n true) (hd : (p + 12) % 0x1000 = 0)
    (hx : IndexApart k.heap.index N p s) (hcmp : k.heap.index.cmpFun = headerCmpLess)
    (hn : add32 (add32 size 12) 8 = n) (hsize : size < 2 ^ 32) :
    ∃ k', k.placeBlock i size n true = some (add32 p 12, k') ∧
      (AlignedSplit k k' p s (add32 p 12) ↔ AlignedOk p s n k.heap.endAddress) := by
  have hd' := alignOffset_eq_zero.mpr hd
  have htop := h.top
  have hle := h.le hd'
  have hs32 := h.size_lt
  have hp : p < 2 ^ 32 := h.slot ▸ slot_lt _ _ _
  obtain ⟨k', hplace, hindex⟩ := h.index hd' hx hcmp hn hsize
  refine ⟨k', hplace, ?_⟩
  have hptr : add32 p 12 % 0x1000 = 0 := by
    unfold add32
    omega
  have hblock : sub32 (add32 p 12) 12 = p := by
    unfold add32 sub32
    omega
  have hroom : (blockRoom s n = s ∧ s < n + 20) ∨ (blockRoom s n = n ∧ n + 20 ≤ s) := by
    rw [blockRoom, sub32_eq hle hs32]
    split_ifs <;> omega
  -- what is in memory, when the block has room for its tags
  have hsizes (h20 : 20 ≤ blockRoom s n) : headerSize k'.mem p = blockRoom s n ∧
      (blockRoom s n < s → (headerSize k'.mem (p + blockRoom s n) = s - blockRoom s n ↔
        k.heap.endAddress ≤ p + s - blockRoom s n - 8 ∨
          Agree (footerCells (p + s - blockRoom s n - 8) (p + blockRoom s n))
            (wordCells (p + blockRoom s n + 8) (s - blockRoom s n)))) := by
    obtain ⟨k'', m₁, hplace', hfits, -, hw⟩ := h.plain hd' hx hn hsize rfl h20
    obtain rfl : k' = k'' := (Prod.mk.inj (Option.some.inj (hplace.symm.trans hplace'))).2
    obtain ⟨h1, h2⟩ := @headerSize_splitMem p s _ k.heap.endAddress m₁ hfits htop hs32
    have hle' := hfits.le
    refine ⟨by rw [headerSize_frame hx hw le_rfl (by omega) htop, h1], fun hlt => ?_⟩
    have := hfits.rest hlt
    rw [headerSize_frame hx hw (by omega) (by omega) htop]
    exact h2 hlt
  unfold AlignedSplit AlignedOk pieces
  rw [if_pos hd, hblock]
  rcases hroom with ⟨hroom, hsn⟩ | ⟨hroom, hns⟩
  · -- the block takes all of the hole
    rw [hroom, if_neg (lt_irrefl s)] at hindex
    rw [if_pos hindex]
    simp only [List.nil_append, Tiled, true_and]
    constructor
    · rintro ⟨-, h20, hend⟩
      exact ⟨hd, by omega, .inl hsn⟩
    · rintro ⟨-, h20, -⟩
      have hfirst := (hsizes (by omega)).1
      rw [hroom] at hfirst
      exact ⟨hptr, by omega, by omega⟩
  · rw [hroom, if_pos (by omega)] at hindex
    rw [if_neg hindex.1, hindex.2]
    simp only [List.nil_append, Tiled, true_and]
    rw [hroom] at hsizes
    constructor
    · rintro ⟨-, h20, hn', h20', hend⟩
      obtain ⟨hfirst, hrest⟩ := hsizes (by omega)
      exact ⟨hd, by omega, .inr ⟨by omega, (hrest (by omega)).mp (by omega)⟩⟩
    · rintro ⟨-, -, hback⟩
      obtain ⟨h20, hback⟩ := hback.resolve_left (by omega)
      obtain ⟨hfirst, hrest⟩ := hsizes h20
      have hlast := (hrest (by omega)).mpr hback
      exact ⟨hptr, by omega, by omega, by omega, by omega⟩

/-! ### The payload is not aligned -/

/-- The tags of the block keep off the header in front of it, also where they wrap. -/
lemma writes_placeTags (hd : 20 ≤ d) (hds : d ≤ s) (hroom : room ≤ s) (htop : p + s ≤ 2 ^ 32)
    (hpd : d < 0x1000) (hsize : (size + 20) % 2 ^ 32 = room) (hp : 0x2000 ≤ p) :
    Writes m (placeTags (p + d) (s + 12 - d) size room end_ m)
      {x | x < 0x2000 ∨ p + 12 ≤ x} := by
  have hblock : Writes m (writeFooter (add32 (add32 (p + d) size) 12) (p + d)
      (writeHeader (p + d) 0 room m)) {x | x < 0x2000 ∨ p + 12 ≤ x} := by
    refine (writes_writeHeader_of fun j hj => ?_).trans (writes_writeFooter_of fun j hj => ?_)
    · show _ < 0x2000 ∨ p + 12 ≤ _
      omega
    · show _ < 0x2000 ∨ p + 12 ≤ _
      unfold add32
      omega
  unfold placeTags
  by_cases hlt : room < s + 12 - d
  · have hhole := hblock.trans (@writes_writeHeader_of _ (add32 (add32 (p + d) 20) size)
      (sub32 (s + 12 - d) room) 1 {x | x < 0x2000 ∨ p + 12 ≤ x} fun j hj => by
        show _ < 0x2000 ∨ p + 12 ≤ _
        unfold add32
        omega)
    simp only [if_pos hlt]
    split_ifs
    · refine hhole.trans (writes_writeFooter_of fun j hj => ?_)
      show _ < 0x2000 ∨ p + 12 ≤ _
      unfold sub32 add32
      omega
    · exact hhole
  · simp only [if_neg hlt]
    exact hblock

/-- The size in front of the block is twelve too small. -/
lemma Served.front (h : Served k i p s n true) (hd : d = alignOffset true p) (h20 : 20 ≤ d)
    (hds : d + 20 ≤ s) (hx : IndexApart k.heap.index N p s)
    (hn : add32 (add32 size 12) 8 = n) (hsize : size < 2 ^ 32) (hp : 0x2000 ≤ p) :
    ∃ ptr k', k.placeBlock i size n true = some (ptr, k') ∧ headerSize k'.mem p = d - 12 := by
  have htop := h.top
  have hs32 := h.size_lt
  have hpd : d < 0x1000 := hd ▸ alignOffset_lt
  have hle : n ≤ s := by
    have hfit := (holeFits_iff n p true k.mem).mp h.lt.2
    rw [← hd, h.size] at hfit
    split_ifs at hfit <;> omega
  obtain ⟨m₁, hcut, -, hfront⟩ := @cutFront_aligned p s i d true k hd h20 (by omega) (by omega) hs32
  rw [add32_eq (by omega)] at hcut
  have hplace : k.placeBlock i size n true = _ := placeBlock_eq h.find h.size rfl rfl hcut
  have hmod := blockSize_mod hn hle hs32 hsize
  have hroom : blockRoom s n ≤ s := by
    rw [blockRoom, sub32_eq hle hs32]
    split_ifs <;> omega
  have hw := @writes_placeTags p s d (blockSize s n size) (blockRoom s n) k.heap.endAddress m₁ h20
    (by omega) hroom htop hpd hmod.1 hp
  refine ⟨_, _, hplace, ?_⟩
  rw [headerSize_frame hx (writes_placeRest hx _ _ _ _) le_rfl (by omega) htop,
    headerSize_of_writes hw (by omega) fun x hx' => ?_, hfront]
  rcases hx' with hx' | hx' <;> omega

lemma Served.placed (h : Served k i p s n true) (hd : alignOffset true p ≠ 0) (size : ℕ) :
    ∃ k', k.placeBlock i size n true =
      some (add32 (sub32 (add32 p 0x1000) ((p + 12) % 0x1000)) 12, k') := by
  have hcut : ∃ t m₁, k.cutFront i p s true =
      some (sub32 (add32 p 0x1000) ((p + 12) % 0x1000), t, k.retag m₁ k.heap.index) := by
    unfold Kernel.cutFront
    rw [and_mask, if_pos (alignOffset_ne_zero.mp hd)]
    exact ⟨_, _, rfl⟩
  obtain ⟨t, m₁, hcut⟩ := hcut
  exact ⟨_, placeBlock_eq h.find h.size rfl rfl hcut⟩

/-- The hole in front of the block does not end where the block begins. -/
lemma not_alignedSplit (h : Served k i p s n true) (hd : (p + 12) % 0x1000 ≠ 0)
    (hx : IndexApart k.heap.index N p s) (hn : add32 (add32 size 12) 8 = n) (hsize : size < 2 ^ 32)
    (hp : 0x2000 ≤ p) : ∃ ptr k', k.placeBlock i size n true = some (ptr, k') ∧
      ¬ AlignedSplit k k' p s ptr := by
  have htop := h.top
  have hd' : alignOffset true p ≠ 0 := fun h0 => hd (alignOffset_eq_zero.mp h0)
  have hoff : alignOffset true p = 0x1000 - (p + 12) % 0x1000 := if_pos ⟨rfl, hd⟩
  obtain ⟨k', hplace⟩ := h.placed hd' size
  refine ⟨_, k', hplace, ?_⟩
  rintro ⟨-, htiled⟩
  unfold pieces at htiled
  rw [if_neg hd] at htiled
  simp only [List.singleton_append, Tiled, true_and] at htiled
  obtain ⟨h20, hblock, h20', hrest⟩ := htiled
  have hend := hrest.le
  have hslot : p < 2 ^ 32 := h.slot ▸ slot_lt _ _ _
  -- so the sizes say that the block begins at its place
  have hsize' : headerSize k'.mem p = alignOffset true p := by
    rw [hoff]
    unfold add32 sub32 at hblock
    omega
  obtain ⟨ptr', k'', hplace', hfront⟩ := h.front rfl (by omega) (by omega) hx hn hsize hp
  obtain rfl : k' = k'' := (Prod.mk.inj (Option.some.inj (hplace.symm.trans hplace'))).2
  omega

/-- **A page-aligned split** leaves pieces that make up the hole exactly when the payload of the
hole was aligned already, and the size of the piece behind the block is not overwritten. -/
theorem aligned_split_iff (h : Served k i p s n true) (hn : n = add32 (add32 size 12) 8)
    (hsize : size < 2 ^ 32) (hx : IndexApart k.heap.index N p s)
    (hcmp : k.heap.index.cmpFun = headerCmpLess) (hp : 4 * HEAP_INDEX_SIZE ≤ p) :
    ∃ ptr k', Kernel.alloc (fuel + 1) size true k = some (ptr, k') ∧
      (AlignedSplit k k' p s ptr ↔ AlignedOk p s n k.heap.endAddress) := by
  have hN : HEAP_INDEX_SIZE = 0x20000 := rfl
  rw [Kernel.alloc_found hn.symm h.found]
  by_cases hd : (p + 12) % 0x1000 = 0
  · obtain ⟨k', hplace, hiff⟩ := alignedSplit_iff_of_aligned h hd hx hcmp hn.symm hsize
    exact ⟨_, k', hplace, hiff⟩
  · obtain ⟨ptr, k', hplace, hnot⟩ := not_alignedSplit h hd hx hn.symm hsize (by omega)
    exact ⟨ptr, k', hplace, iff_of_false hnot fun hok => hd hok.1⟩

end Aligned

lemma served_aligned : Served (oneHoleKernel 0x90000 0x2000 0x92000) 0 0x90000 0x2000 120 true where
  found := by decide +kernel
  slot := by decide +kernel
  size := by decide +kernel
  top := by decide

lemma indexApart_aligned :
    IndexApart (oneHoleKernel 0x90000 0x2000 0x92000).heap.index 4 0x90000 0x2000 where
  top := by decide
  size := by decide
  spare := .inl (by decide)
  apart := .inl (by decide)

/-- A hole at a page, of two pages: 4072 bytes are recorded in front of the block, that begins after
4084. -/
theorem aligned_split_fails : Served (oneHoleKernel 0x90000 0x2000 0x92000) 0 0x90000 0x2000 120 true ∧
    ∃ ptr k', Kernel.alloc 1 100 true (oneHoleKernel 0x90000 0x2000 0x92000) = some (ptr, k') ∧
      ¬ AlignedSplit (oneHoleKernel 0x90000 0x2000 0x92000) k' 0x90000 0x2000 ptr := by
  refine ⟨served_aligned, ?_⟩
  have hret : (Kernel.alloc 1 100 true (oneHoleKernel 0x90000 0x2000 0x92000)).map
      (fun r => (r.1, headerSize r.2.mem 0x90000)) = some (0x91000, 4072) := by decide +kernel
  obtain ⟨⟨ptr, k'⟩, hk', heq⟩ := Option.map_eq_some_iff.mp hret
  obtain ⟨rfl, hsize⟩ := Prod.mk.inj heq
  refine ⟨_, k', hk', ?_⟩
  rintro ⟨-, -, -, hblock, -⟩
  simp only at hsize
  rw [hsize] at hblock
  cases hblock

theorem aligned_split_one :
    ∃ ptr k', Kernel.alloc 1 100 true (oneHoleKernel 0x90000 0x2000 0x92000) = some (ptr, k') ∧
      (AlignedSplit (oneHoleKernel 0x90000 0x2000 0x92000) k' 0x90000 0x2000 ptr ↔
        AlignedOk 0x90000 0x2000 120 0x92000) :=
  aligned_split_iff served_aligned (by decide) (by decide) indexApart_aligned rfl (by decide)

end OsImplement.Memory
