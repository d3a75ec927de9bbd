import OsImplement.Memory.HeapPlace

/-!
How a heap grows: the hole with the highest address gets the new bytes, which is right when it is
the last thing in the heap.
-/

namespace OsImplement.Memory

open Lib.Word Lib.Bytes Lib.Interval

/-! ### The highest slot -/

section Highest

variable {a : SortedArray} {m : Mem} {L : List ℕ}

lemma highestSlot_spec (hfind : ∀ i < a.size, findSortedArray i a m = some (L[i]?.getD 0))
    (hlen : L.length ≤ a.size) : ∀ (n iter : ℕ) (best : ℕ × ℕ), iter + n = a.size →
    ∃ idx v, Kernel.highestSlot a m n iter best = some (idx, v) ∧ best.2 ≤ v ∧
      (∀ j, iter ≤ j → L[j]?.getD 0 ≤ v) ∧
      ((idx, v) = best ∨ idx < a.size ∧ best.2 < v ∧ L[idx]?.getD 0 = v) := by
  intro n
  induction n with
  | zero =>
    intro iter best hn
    refine ⟨best.1, best.2, rfl, le_rfl, fun j hj => ?_, Or.inl rfl⟩
    rw [List.getElem?_eq_none (by omega)]
    exact Nat.zero_le _
  | succ n ih =>
    intro iter best hn
    unfold Kernel.highestSlot
    rw [hfind iter (by omega)]
    simp only [Option.bind_eq_bind, Option.bind_some]
    by_cases hlt : best.2 < L[iter]?.getD 0
    · rw [if_pos hlt]
      obtain ⟨idx, v, hr, hle, hall, hcase⟩ := ih (iter + 1) (iter, L[iter]?.getD 0) (by omega)
      refine ⟨idx, v, hr, hlt.le.trans hle, fun j hj => ?_, Or.inr ?_⟩
      · rcases Nat.eq_or_lt_of_le hj with rfl | hj
        · exact hle
        · exact hall j hj
      · rcases hcase with hcase | ⟨h1, h2, h3⟩
        · obtain ⟨rfl, rfl⟩ := Prod.mk.inj hcase
          exact ⟨by omega, hlt, rfl⟩
        · exact ⟨h1, hlt.trans h2, h3⟩
    · rw [if_neg hlt]
      obtain ⟨idx, v, hr, hle, hall, hcase⟩ := ih (iter + 1) best (by omega)
      refine ⟨idx, v, hr, hle, fun j hj => ?_, hcase⟩
      rcases Nat.eq_or_lt_of_le hj with rfl | hj
      · exact (not_lt.mp hlt).trans hle
      · exact hall j hj

end Highest

namespace Kernel

/-- The hole that `alloc` extends, or 0. -/
def highestHole (k : Kernel) : ℕ :=
  ((highestSlot k.heap.index k.mem k.heap.index.size 0 (NO_SLOT, 0)).map Prod.snd).getD 0

/-- Its size, as it is recorded. -/
def highestSize (k : Kernel) : ℕ :=
  if k.highestHole = 0 then 0 else headerSize k.mem k.highestHole

/-- The same kernel with its heap up to `end_`. -/
def setEnd (end_ : ℕ) (k : Kernel) : Kernel := { k with heap := { k.heap with endAddress := end_ } }

@[simp] lemma highestHole_setEnd {end_ : ℕ} {k : Kernel} :
    (k.setEnd end_).highestHole = k.highestHole := rfl

@[simp] lemma mem_setEnd {end_ : ℕ} {k : Kernel} : (k.setEnd end_).mem = k.mem := rfl

/-! ### The two ways of `alloc` -/

section Alloc

variable {fuel size : ℕ} {pageAlign : Bool} {k : Kernel}

lemma newSize_eq (hn : size + 20 < 2 ^ 32) : add32 (add32 size 12) 8 = size + 20 := by
  have h12 : add32 size 12 = size + 12 := add32_eq (by omega)
  rw [h12, add32_eq (by omega)]

/-- A request is served in the hole that the search finds, also when its size wraps. -/
lemma alloc_found {iter n : ℕ} (hn : add32 (add32 size 12) 8 = n)
    (h : findHoleFitFirst n pageAlign k.heap k.mem = some (some iter)) :
    alloc (fuel + 1) size pageAlign k = k.placeBlock iter size n pageAlign := by
  unfold alloc
  simp only [hn, h, Option.bind_eq_bind, Option.bind_some]

lemma alloc_place {iter : ℕ} (hn : size + 20 < 2 ^ 32)
    (h : findHoleFitFirst (size + 20) pageAlign k.heap k.mem = some (some iter)) :
    alloc (fuel + 1) size pageAlign k = k.placeBlock iter size (size + 20) pageAlign :=
  alloc_found (newSize_eq hn) h

lemma alloc_grow (hn : size + 20 < 2 ^ 32)
    (h : findHoleFitFirst (size + 20) pageAlign k.heap k.mem = some none) :
    alloc (fuel + 1) size pageAlign k =
      (k.expand (mallocAp (alloc fuel)) (add32 k.heapLen (size + 20))).bind fun k' =>
        (k'.growHole k.heap.endAddress k.heapLen).bind (alloc fuel size pageAlign) := by
  rw [alloc]
  simp only [newSize_eq hn, h, Option.bind_eq_bind, Option.bind_some]

end Alloc

end Kernel

section Grow

variable {A oldEnd oldLen g newEnd : ℕ} {holes blocks : List (ℕ × ℕ)} {k : Kernel}

lemma HeapInv.highest (h : HeapInv A holes blocks k) :
    (holes = [] ∧ k.highestHole = 0 ∧ Kernel.highestSlot k.heap.index k.mem k.heap.index.size 0
        (Kernel.NO_SLOT, 0) = some (Kernel.NO_SLOT, 0)) ∨
      ∃ idx < k.heap.index.size, 0 < k.highestHole ∧ (∃ r, (k.highestHole, r) ∈ holes) ∧
        (∀ x ∈ holes, x.1 ≤ k.highestHole) ∧
        Kernel.highestSlot k.heap.index k.mem k.heap.index.size 0 (Kernel.NO_SLOT, 0) =
          some (idx, k.highestHole) := by
  obtain ⟨idx, v, hr, -, hall, hcase⟩ := highestSlot_spec (fun _ => h.listed.find)
    h.listed.length_lt.le k.heap.index.size 0 (Kernel.NO_SLOT, 0) (by omega)
  have hv : k.highestHole = v := by rw [Kernel.highestHole, hr]; rfl
  have hle {x : ℕ × ℕ} (hx : x ∈ holes) : x.1 ≤ v := by
    obtain ⟨j, hj, hjx⟩ := List.getElem_of_mem hx
    have := hall j (Nat.zero_le j)
    rwa [List.getElem?_map, List.getElem?_eq_getElem hj, hjx] at this
  have hpos := h.listed.pos
  rcases hcase with hcase | ⟨h1, h2, h3⟩
  · obtain ⟨rfl, rfl⟩ := Prod.mk.inj hcase
    refine Or.inl ⟨?_, hv, hr⟩
    cases holes with
    | nil => rfl
    | cons x holes =>
      have h1 := hle (List.mem_cons_self (a := x) (l := holes))
      have h2 := (h.hole x (by simp)).lo
      omega
  · refine Or.inr ⟨idx, h1, by omega, ?_, fun x hx => by rw [hv]; exact hle hx, by rw [hr, hv]⟩
    obtain ⟨hlt, hx⟩ := Listed.getElem h3 (by omega)
    rw [List.length_map] at hlt
    rw [List.getElem_map] at hx
    exact ⟨holes[idx].2, by rw [hv, ← hx]; exact List.getElem_mem hlt⟩

lemma HeapInv.highest_mem (h : HeapInv A holes blocks k) (hne : holes ≠ []) :
    k.highestHole ≠ 0 ∧ ∃ r, (k.highestHole, r) ∈ holes ∧ ∀ x ∈ holes, x.1 ≤ k.highestHole := by
  rcases h.highest with ⟨h0, -⟩ | ⟨-, -, hpos, ⟨r, hmem⟩, hmax, -⟩
  · exact absurd h0 hne
  · exact ⟨hpos.ne', r, hmem, hmax⟩

lemma HeapInv.growHole_some (h : HeapInv A holes blocks k) (oldEnd oldLen : ℕ) :
    ∃ k', k.growHole oldEnd oldLen = some k' := by
  unfold Kernel.growHole
  rcases h.highest with ⟨-, -, hr⟩ | ⟨idx, -, -, -, -, hr⟩
  · rw [hr]
    exact ⟨_, rfl⟩
  · rw [hr]
    simp only [Option.bind_eq_bind, Option.bind_some]
    split <;> exact ⟨_, rfl⟩

lemma HeapInv.setEnd (h : HeapInv A holes blocks k) (hle : k.heap.endAddress ≤ newEnd)
    (hlt : newEnd < 2 ^ 32) : HeapInv A holes blocks (k.setEnd newEnd) := by
  refine ⟨h.listed, h.start, hlt, fun h0 => (h.startLe h0).trans hle, fun x hx => ?_, fun b hb => ?_,
    h.apart⟩
  · obtain ⟨h1, h2, h3, h4, h5⟩ := h.hole x hx
    exact ⟨h1, h2, h3, h4, h5.imp id fun h5 => h5.trans_le hle⟩
  · exact ⟨(h.block b hb).1, (h.block b hb).2.trans hle⟩

lemma growHole_new (h : HeapInv A [] blocks k) (hg : sub32 k.heapLen oldLen = g) (h20 : 20 ≤ g)
    (hlo : A + 4 * HEAP_INDEX_SIZE ≤ oldEnd) (hend : oldEnd + g < 2 ^ 32)
    (hblock : ∀ b ∈ blocks, b.2 ≤ oldEnd) (hcur : k.heap.index.cur + 1 < HEAP_INDEX_SIZE) :
    ∃ m a, k.growHole oldEnd oldLen = some (k.retag m a) ∧
      HeapInv A [(oldEnd, TOP)] blocks (k.retag m a) ∧ headerSize m oldEnd = g ∧
      Writes k.mem m (Set.Ico A (A + 4 * HEAP_INDEX_SIZE) ∪ Set.Ico oldEnd (oldEnd + g)) := by
  have hT : TOP = 2 ^ 33 := rfl
  rcases h.highest with ⟨-, -, hr⟩ | ⟨_, _, _, ⟨_, hmem⟩, _⟩
  · set m₁ := writeHeader oldEnd 1 g k.mem with hm₁
    set m₂ := writeFooter (oldEnd + g - 8) oldEnd m₁ with hm₂
    have hs₁ : headerSize m₁ oldEnd = g := headerSize_writeHeader (by omega) (by omega)
    have hw₂ : Writes m₁ m₂ (Set.Ico (oldEnd + g - 8) (oldEnd + g)) :=
      writes_writeFooter le_rfl (by omega) (by omega)
    have hw : Writes k.mem m₂ (Set.Ico oldEnd (oldEnd + g)) :=
      (writes_writeHeader le_rfl (by omega) (by omega)).trans
        (hw₂.mono (Set.Ico_subset_Ico (by omega) le_rfl))
    have hs₂ : headerSize m₂ oldEnd = g := by
      rw [headerSize_of_writes hw₂ (by omega) fun x hx => Or.inr ?_, hs₁]
      have := hx.1
      omega
    have hl₂ : Listed A k.heap.index m₂ [] := h.listed.frame hw fun x hx => Or.inr (by
      have := hx.1
      omega)
    obtain ⟨hl₃, hw₃⟩ := hl₂.insert hcur (show oldEnd < 2 ^ 32 by omega)
    set m₃ := (insertSortedArray oldEnd k.heap.index m₂).2 with hm₃
    have hs₃ : headerSize m₃ oldEnd = g := by
      rw [headerSize_of_writes hw₃ (by omega) fun x hx => Or.inl ?_, hs₂]
      have := hx.2
      omega
    have hfoot : sub32 (add32 oldEnd g) 8 = oldEnd + g - 8 := by
      rw [add32_eq (by omega), sub32_eq (by omega) (by omega)]
    refine ⟨m₃, (insertSortedArray oldEnd k.heap.index m₂).1, ?_, ⟨hl₃, h.start, h.endLt, by simp,
      fun x hx => ?_, h.block, ?_⟩, hs₃,
      (hw.mono Set.subset_union_right).trans (hw₃.mono Set.subset_union_left)⟩
    · unfold Kernel.growHole
      rw [hr]
      simp only [Option.bind_eq_bind, Option.bind_some, hg, if_true]
      rw [show (k.write (writeHeader oldEnd 1 g)).mem = m₁ from rfl, hs₁, hfoot]
      rfl
    · obtain rfl : x = (oldEnd, TOP) := by simpa using hx
      refine ⟨hlo, by show oldEnd + 12 ≤ TOP; omega, by show oldEnd + 12 ≤ 2 ^ 32; omega, ?_,
        Or.inl rfl⟩
      show oldEnd + headerSize m₃ oldEnd ≤ TOP
      omega
    · refine List.pairwise_cons.mpr ⟨fun b hb => Or.inr (hblock b hb), ?_⟩
      exact h.apart
  · simp at hmem

lemma growHole_extend (h : HeapInv A holes blocks k) (hg : sub32 k.heapLen oldLen = g) (h20 : 20 ≤ g)
    (hv : (k.highestHole, TOP) ∈ holes)
    (hwrap : k.highestHole + headerSize k.mem k.highestHole + g < 2 ^ 32) :
    ∃ m, k.growHole oldEnd oldLen = some (k.retag m k.heap.index) ∧
      HeapInv A holes blocks (k.retag m k.heap.index) ∧
      headerSize m k.highestHole = headerSize k.mem k.highestHole + g ∧
      (∀ x ∈ holes, x.1 ≠ k.highestHole → headerSize m x.1 = headerSize k.mem x.1) ∧
      Writes k.mem m (Set.Ico k.highestHole TOP) := by
  have hT : TOP = 2 ^ 33 := rfl
  rcases h.highest with ⟨rfl, -⟩ | ⟨idx, hidx, -, -, -, hr⟩
  · simp at hv
  · set v := k.highestHole with hvdef
    set s := headerSize k.mem v with hs
    obtain ⟨hlo, hheader, hword, hroom, -⟩ := h.hole _ hv
    simp only at hlo hheader hword hroom
    have hne : idx ≠ Kernel.NO_SLOT := by
      have hsize := h.listed.size_le
      have hN : HEAP_INDEX_SIZE = 0x20000 := rfl
      unfold Kernel.NO_SLOT
      omega
    set m₁ := setHeaderSize v (s + g) k.mem with hm₁
    set m₂ := writeFooter (v + (s + g) - 8) v m₁ with hm₂
    have hs₁ : headerSize m₁ v = s + g := headerSize_setHeaderSize hword (by omega)
    have hw₂ : Writes m₁ m₂ (Set.Ico (v + (s + g) - 8) (v + (s + g))) :=
      writes_writeFooter le_rfl (by omega) (by omega)
    have hw : Writes k.mem m₂ (Set.Ico v TOP) :=
      (writes_setHeaderSize le_rfl (by omega) (by omega)).trans
        (hw₂.mono (Set.Ico_subset_Ico (by omega) (by omega)))
    have hs₂ : headerSize m₂ v = s + g := by
      rw [headerSize_of_writes hw₂ (by omega) fun x hx => Or.inr ?_, hs₁]
      have := hx.1
      omega
    have hother : ∀ x ∈ holes, x.1 ≠ v → headerSize m₂ x.1 = headerSize k.mem x.1 :=
      fun x hx hne => h.headerSize_other hv (hw.mono Set.subset_union_right) hx hne
    have hfoot : sub32 (add32 v (s + g)) 8 = v + (s + g) - 8 := by
      have hadd : add32 v (s + g) = v + (s + g) := add32_eq (by omega)
      rw [hadd, sub32_eq (by omega) (by omega)]
    refine ⟨m₂, ?_, ⟨h.listed.frame hw fun x hx => Or.inr ?_, h.start, h.endLt, h.startLe,
      fun x hx => ?_, h.block, h.apart⟩, hs₂, hother, hw⟩
    · unfold Kernel.growHole
      rw [hr]
      simp only [Option.bind_eq_bind, Option.bind_some, hg, if_neg hne, ← hs]
      rw [add32_eq (show s + g < 2 ^ 32 by omega),
        show (k.write (setHeaderSize v (s + g))).mem = m₁ from rfl, hs₁, hfoot]
      rfl
    · have := hx.1
      omega
    · by_cases hx1 : x.1 = v
      · have hxt : x.2 = TOP := by
          by_contra hne
          have := h.apart.forall (List.mem_append_left _ hx) (List.mem_append_left _ hv)
            fun e => hne (by rw [e])
          have hx2 := (h.hole x hx).header
          rcases this with hap | hap
          · simp only at hap
            omega
          · simp only at hap
            have := (h.hole x hx).word
            omega
        refine ⟨by rw [hx1]; exact hlo, by omega, by omega, ?_, Or.inl hxt⟩
        show x.1 + headerSize m₂ x.1 ≤ x.2
        rw [hx1, hs₂, hxt]
        omega
      · obtain ⟨h1, h2, h3, h4, h5⟩ := h.hole x hx
        rw [← hother x hx hx1] at h4 h5
        exact ⟨h1, h2, h3, h4, h5⟩

end Grow

end OsImplement.Memory
