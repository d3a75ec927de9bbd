import OsImplement.Memory.Heap

/-!
The index of the heap, as a list of addresses.

The comparator of the heap is never negative, so an insertion always puts its item in front. A
removal closes the gap and takes one slot off the end, and `cur`, which counts insertions, is not
touched: `cur` and the number of slots together keep track of how many entries are left.
-/

namespace OsImplement.Memory

open Lib.Word Lib.Bytes

/-- The index at `A` lists `L`, and the slots behind are NULL. -/
structure Listed (A : ℕ) (a : SortedArray) (m : Mem) (L : List ℕ) : Prop where
  array : a.array = A
  pos : 0 < A
  top : A + 4 * HEAP_INDEX_SIZE ≤ 2 ^ 32
  cmpFun : a.cmpFun = headerCmpLess
  cur : a.cur < HEAP_INDEX_SIZE
  len : L.length ≤ a.cur
  count : L.length + HEAP_INDEX_SIZE = a.cur + a.size
  slots : ∀ i < HEAP_INDEX_SIZE, slot A m i = L[i]?.getD 0

namespace Listed

variable {A i p item : ℕ} {a : SortedArray} {m m' : Mem} {L : List ℕ}

lemma size_le (h : Listed A a m L) : a.size ≤ HEAP_INDEX_SIZE := by
  have := h.len
  have := h.count
  omega

lemma length_lt (h : Listed A a m L) : L.length < a.size := by
  have := h.cur
  have := h.count
  omega

lemma find (h : Listed A a m L) (hi : i < a.size) : findSortedArray i a m = some (L[i]?.getD 0) := by
  have hpos := h.pos
  have hsize := h.size_le
  unfold findSortedArray
  rw [h.array, if_neg (by omega), h.slots i (by omega)]

lemma lt (h : Listed A a m L) (hp : p ∈ L) : p < 2 ^ 32 := by
  obtain ⟨i, hi, rfl⟩ := List.getElem_of_mem hp
  have hlen := h.len
  have hcur := h.cur
  have hs := h.slots i (by omega)
  rw [List.getElem?_eq_getElem hi, Option.getD_some] at hs
  exact hs ▸ slot_lt A m i

lemma getElem (h : L[i]?.getD 0 = p) (hp : p ≠ 0) : ∃ hi : i < L.length, L[i] = p := by
  by_cases hi : i < L.length
  · rw [List.getElem?_eq_getElem hi] at h
    exact ⟨hi, h⟩
  · rw [List.getElem?_eq_none (by omega)] at h
    exact absurd h.symm hp

lemma frame (h : Listed A a m L) {S : Set ℕ} (hw : Writes m m' S)
    (hS : ∀ x ∈ S, x < A ∨ A + 4 * HEAP_INDEX_SIZE ≤ x) : Listed A a m' L := by
  refine ⟨h.array, h.pos, h.top, h.cmpFun, h.cur, h.len, h.count, fun i hi => ?_⟩
  rw [slot_of_writes h.top hi hw fun x h1 h2 hx => ?_, h.slots i hi]
  have := hS x hx
  omega

theorem findHole_spec (h : Listed A a m L) {size : ℕ} {pageAlign : Bool} : ∀ (n iter : ℕ),
    iter + n = a.size → ∃ found, findHole size pageAlign a m n iter = some found ∧
      match found with
      | some i => iter ≤ i ∧ i < a.size ∧ holeFits size pageAlign m (L[i]?.getD 0)
      | none => ∀ j, iter ≤ j → j < a.size → ¬ holeFits size pageAlign m (L[j]?.getD 0) := by
  intro n
  induction n with
  | zero =>
    intro iter hn
    exact ⟨none, rfl, fun j h1 h2 => by omega⟩
  | succ n ih =>
    intro iter hn
    unfold findHole
    rw [h.find (by omega)]
    simp only [Option.bind_eq_bind, Option.bind_some]
    by_cases hfit : holeFits size pageAlign m (L[iter]?.getD 0)
    · rw [if_pos hfit]
      exact ⟨some iter, rfl, le_rfl, by omega, hfit⟩
    · rw [if_neg hfit]
      obtain ⟨found, hf, hspec⟩ := ih (iter + 1) (by omega)
      refine ⟨found, hf, ?_⟩
      cases found with
      | some i => exact ⟨by omega, hspec.2⟩
      | none =>
        intro j h1 h2
        rcases Nat.eq_or_lt_of_le h1 with rfl | h1
        · exact hfit
        · exact hspec j h1 h2

/-! ### Insertions and removals -/

lemma insertPos_eq (h : a.cmpFun = headerCmpLess) (n iter : ℕ) :
    insertPos a item m n iter = iter := by
  cases n with
  | zero => rfl
  | succ n =>
    unfold insertPos
    rw [h, if_neg]
    unfold headerCmpLess
    split <;> decide

theorem insert (h : Listed A a m L) (hcur : a.cur + 1 < HEAP_INDEX_SIZE) (hitem : item < 2 ^ 32) :
    Listed A (insertSortedArray item a m).1 (insertSortedArray item a m).2 (item :: L) ∧
      Writes m (insertSortedArray item a m).2 (Set.Ico A (A + 4 * HEAP_INDEX_SIZE)) := by
  have hN : HEAP_INDEX_SIZE = 0x20000 := rfl
  have htop := h.top
  have hlen := h.len
  have hcount := h.count
  have hcur' : add32 a.cur 1 = a.cur + 1 := add32_eq (by omega)
  unfold insertSortedArray
  rw [insertPos_eq h.cmpFun, h.array, hcur']
  by_cases h0 : 0 = a.cur
  · -- the first entry
    rw [if_pos h0, ← h0]
    have hL : L = [] := List.length_eq_zero_iff.mp (by omega)
    subst hL
    refine ⟨⟨rfl, h.pos, h.top, h.cmpFun, by simp [hN], by simp, ?_, fun i hi => ?_⟩,
      writes_writeSlot h.top (by omega)⟩
    · simp only [List.length_cons, List.length_nil] at hcount ⊢
      omega
    · rw [slot_writeSlot h.top (by omega) hi hitem, h.slots i hi]
      cases i with
      | zero => rfl
      | succ i => simp
  · rw [if_neg h0]
    have htemp : slot A m 0 = L[0]?.getD 0 := h.slots 0 (by omega)
    refine ⟨⟨rfl, h.pos, h.top, h.cmpFun, hcur, ?_, ?_, fun i hi => ?_⟩, ?_⟩
    · simpa using hlen
    · show (item :: L).length + HEAP_INDEX_SIZE = a.cur + 1 + a.size
      rw [List.length_cons]
      omega
    · rw [slot_shiftUp h.top hi _ _ _ _ (by omega) (slot_lt A m 0), htemp]
      cases i with
      | zero =>
        rw [if_neg (by omega), if_neg (by omega), slot_writeSlot h.top (by omega) hi hitem,
          if_pos rfl]
        rfl
      | succ i =>
        rw [List.getElem?_cons_succ]
        by_cases hi0 : i = 0
        · rw [if_pos ⟨by omega, by omega⟩, hi0]
        · rw [if_neg (by omega)]
          split_ifs with hin
          · rw [slot_writeSlot h.top (by omega) (by omega) hitem, if_neg (by omega),
              h.slots _ (by omega)]
            rfl
          · rw [slot_writeSlot h.top (by omega) hi hitem, if_neg (by omega), h.slots _ hi,
              List.getElem?_eq_none (by omega), List.getElem?_eq_none (by omega)]
    · exact (writes_writeSlot h.top (by omega)).trans (writes_shiftUp h.top _ _ _ _ (by omega))

lemma cur_insertSortedArray (item : ℕ) (a : SortedArray) (m : Mem) :
    (insertSortedArray item a m).1.cur = add32 a.cur 1 := by
  unfold insertSortedArray
  simp only
  split <;> rfl

theorem remove (h : Listed A a m L) (hi : i < L.length) :
    ∃ a' m', removeSortedArray i a m = some (a', m') ∧ Listed A a' m' (L.eraseIdx i) ∧
      a'.cur = a.cur ∧ Writes m m' (Set.Ico A (A + 4 * HEAP_INDEX_SIZE)) := by
  have hN : HEAP_INDEX_SIZE = 0x20000 := rfl
  have hpos := h.pos
  have hlt := h.length_lt
  have hsize := h.size_le
  have hlen := h.len
  have hcount := h.count
  have hlen' : (L.eraseIdx i).length = L.length - 1 := List.length_eraseIdx_of_lt hi
  unfold removeSortedArray
  rw [h.array, if_neg (by omega), if_neg (by omega)]
  refine ⟨_, _, rfl, ⟨rfl, h.pos, h.top, h.cmpFun, h.cur, ?_, ?_, fun j hj => ?_⟩, rfl,
    writes_shiftDown h.top _ _ _ (by omega) (by omega)⟩
  · show (L.eraseIdx i).length ≤ a.cur
    omega
  · show (L.eraseIdx i).length + HEAP_INDEX_SIZE = a.cur + (a.size - 1)
    omega
  · rw [slot_shiftDown h.top hj _ _ _ (by omega) (by omega), List.getElem?_eraseIdx]
    by_cases hji : j < i
    · rw [if_neg (by omega), if_pos hji, h.slots j hj]
    · rw [if_neg hji]
      split_ifs with hin
      · exact h.slots (j + 1) (by omega)
      · rw [h.slots j hj, List.getElem?_eq_none (by omega), List.getElem?_eq_none (by omega)]

lemma memsetLen_index : memsetLen (4 * HEAP_INDEX_SIZE) = 4 * HEAP_INDEX_SIZE := by decide

lemma place (m : Mem) (hpos : 0 < A) (htop : A + 4 * HEAP_INDEX_SIZE ≤ 2 ^ 32) :
    Listed A (placeSortedArray A HEAP_INDEX_SIZE headerCmpLess m).1
      (placeSortedArray A HEAP_INDEX_SIZE headerCmpLess m).2 [] := by
  have h0 : 0 < HEAP_INDEX_SIZE := by decide
  refine ⟨rfl, hpos, htop, rfl, h0, le_rfl, by simp [placeSortedArray], fun i hi => ?_⟩
  rw [slot_eq htop hi, placeSortedArray, memsetLen_index]
  exact read32_fill_zero (by omega) (by omega) (by omega)

end Listed

end OsImplement.Memory
