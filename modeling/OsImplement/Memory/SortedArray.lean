import OsImplement.Lib.Bytes

/-!
The index array (`sorted_array.c`), in raw memory: `array[i]` is the word at `array + 4 * i`.

A comparator is a function of the memory it looks through. An insertion shifts the slots from its
position up to slot `cur`, and a removal shifts the slots up to `size`; the counter of the other
kind is not touched by either.
-/

namespace OsImplement.Memory

open Lib.Word Lib.Bytes

/-! ### The array -/

/-- `sorted_array_t` -/
structure SortedArray where
  array : ℕ
  size : ℕ
  cur : ℕ
  cmpFun : Mem → ℕ → ℕ → ℤ

/-- `array[i]` -/
def slot (array : ℕ) (m : Mem) (i : ℕ) : ℕ := read32 m (add32 array (4 * i))

/-- `array[i] = v` -/
def writeSlot (array : ℕ) (m : Mem) (i v : ℕ) : Mem := write32 m (add32 array (4 * i)) v

/-- `cmp` -/
def cmp (a b : ℕ) : ℤ := if a < b then 1 else 0

/-- How many bytes `memset` writes: its length is a signed word, and the loop runs while that is
positive. -/
def memsetLen (l : ℕ) : ℕ := if l % 2 ^ 32 < 2 ^ 31 then l % 2 ^ 32 else 0

/-- `place_sorted_array` -/
def placeSortedArray (addr maxsize : ℕ) (cmpFun : Mem → ℕ → ℕ → ℤ) (m : Mem) :
    SortedArray × Mem :=
  ({ array := addr, size := maxsize, cur := 0, cmpFun := cmpFun },
    fill m addr (memsetLen (4 * maxsize)) 0)

/-- The first loop of `insert_sorted_array`, with `n` slots left below `cur`. -/
def insertPos (a : SortedArray) (item : ℕ) (m : Mem) : ℕ → ℕ → ℕ
  | 0, iter => iter
  | n + 1, iter =>
    if a.cmpFun m (slot a.array m iter) item < 0 then insertPos a item m n (iter + 1) else iter

/-- The second loop of `insert_sorted_array`, with `n` rounds left. -/
def shiftUp (array : ℕ) : ℕ → ℕ → ℕ → Mem → Mem
  | 0, _, _, m => m
  | n + 1, iter, temp, m =>
    shiftUp array n (iter + 1) (slot array m (iter + 1)) (writeSlot array m (iter + 1) temp)

/-- `insert_sorted_array` -/
def insertSortedArray (item : ℕ) (a : SortedArray) (m : Mem) : SortedArray × Mem :=
  let iter := insertPos a item m a.cur 0
  if iter = a.cur then ({ a with cur := add32 a.cur 1 }, writeSlot a.array m a.cur item)
  else
    let temp := slot a.array m iter
    ({ a with cur := add32 a.cur 1 },
      shiftUp a.array (a.cur + 1 - iter) iter temp (writeSlot a.array m iter item))

/-- `find_sorted_array`; `none` is the call of `_panic`, which does not return. -/
def findSortedArray (index : ℕ) (a : SortedArray) (m : Mem) : Option ℕ :=
  if a.array = 0 ∨ a.size ≤ index then none else some (slot a.array m index)

/-- The loop of `remove_sorted_array`, with `n` rounds left. -/
def shiftDown (array : ℕ) : ℕ → ℕ → Mem → Mem
  | 0, _, m => m
  | n + 1, iter, m => shiftDown array n (iter + 1) (writeSlot array m (iter - 1) (slot array m iter))

/-- `remove_sorted_array`; `none` is the call of `_panic`. -/
def removeSortedArray (index : ℕ) (a : SortedArray) (m : Mem) : Option (SortedArray × Mem) :=
  if a.array = 0 then none
  else if a.size ≤ index then some (a, m)
  else some ({ a with size := a.size - 1 }, shiftDown a.array (a.size - (index + 1)) (index + 1) m)

/-! ### The length of `memset` -/

lemma memsetLen_eq {l : ℕ} (h : l < 2 ^ 31) : memsetLen l = l := by
  unfold memsetLen
  rw [Nat.mod_eq_of_lt (by omega), if_pos h]

lemma memsetLen_eq_zero {l : ℕ} (h : 2 ^ 31 ≤ l) (hl : l < 2 ^ 32) : memsetLen l = 0 := by
  unfold memsetLen
  rw [Nat.mod_eq_of_lt hl, if_neg (by omega)]

/-! ### Slots -/

section Slots

variable {array N : ℕ} {m : Mem} {i j v : ℕ}

lemma slot_lt (array : ℕ) (m : Mem) (i : ℕ) : slot array m i < 2 ^ 32 := read32_lt _ _

lemma slot_eq (hN : array + 4 * N ≤ 2 ^ 32) (hi : i < N) :
    slot array m i = read32 m (array + 4 * i) := by
  unfold slot
  rw [add32_eq (by omega)]

lemma slot_writeSlot (hN : array + 4 * N ≤ 2 ^ 32) (hi : i < N) (hj : j < N) (hv : v < 2 ^ 32) :
    slot array (writeSlot array m i v) j = if j = i then v else slot array m j := by
  unfold writeSlot
  rw [slot_eq hN hj, slot_eq hN hj, add32_eq (by omega)]
  split_ifs with h
  · rw [h, read32_write32 hv]
  · exact read32_write32_ne (by omega) (by omega) (by omega)

lemma writes_writeSlot (hN : array + 4 * N ≤ 2 ^ 32) (hi : i < N) :
    Writes m (writeSlot array m i v) (Set.Ico array (array + 4 * N)) := by
  unfold writeSlot
  rw [add32_eq (by omega)]
  exact Writes.write32 (by omega) (by omega) (by omega)

lemma slot_of_writes {m' : Mem} {S : Set ℕ} (hN : array + 4 * N ≤ 2 ^ 32) (hi : i < N)
    (h : Writes m m' S) (hS : ∀ x, array ≤ x → x < array + 4 * N → x ∉ S) :
    slot array m' i = slot array m i := by
  rw [slot_eq hN hi, slot_eq hN hi]
  exact h.read32 (by omega) fun x h1 h2 => hS x (by omega) (by omega)

/-- The shift of an insertion: `temp` goes behind position `i`, and every later slot up to
`i + n` takes the value of the slot before it. -/
lemma slot_shiftUp (hN : array + 4 * N ≤ 2 ^ 32) (hj : j < N) :
    ∀ (n i : ℕ) (temp : ℕ) (m : Mem), i + n < N → temp < 2 ^ 32 →
      slot array (shiftUp array n i temp m) j =
        if j = i + 1 ∧ 0 < n then temp
        else if i + 1 < j ∧ j ≤ i + n then slot array m (j - 1) else slot array m j := by
  intro n
  induction n with
  | zero =>
    intro i temp m _ _
    simp only [shiftUp]
    split_ifs <;> first | rfl | omega
  | succ n ih =>
    intro i temp m hn ht
    have hcell := @slot_writeSlot array N m (i + 1) (j - 1) temp hN (by omega) (by omega) ht
    have hsame := @slot_writeSlot array N m (i + 1) j temp hN (by omega) hj ht
    rw [shiftUp, ih (i + 1) _ _ (by omega) (slot_lt _ _ _), hcell, hsame]
    by_cases h1 : j = i + 1
    · rw [if_neg (by omega), if_neg (by omega), if_pos h1, if_pos ⟨h1, by omega⟩]
    · by_cases h2 : j = i + 1 + 1 ∧ 0 < n
      · rw [if_pos h2, if_neg (by omega), if_pos (by omega), h2.1]
        rfl
      · rw [if_neg h2, if_neg (show ¬ j = i + 1 from h1), if_neg (by omega : ¬ (j = i + 1 ∧ _))]
        split_ifs <;> first | rfl | omega

lemma writes_shiftUp (hN : array + 4 * N ≤ 2 ^ 32) :
    ∀ (n i : ℕ) (temp : ℕ) (m : Mem), i + n < N →
      Writes m (shiftUp array n i temp m) (Set.Ico array (array + 4 * N)) := by
  intro n
  induction n with
  | zero => exact fun _ _ m _ => Writes.refl m _
  | succ n ih =>
    intro i temp m hn
    exact (writes_writeSlot hN (by omega)).trans (ih (i + 1) _ _ (by omega))

/-- The shift of a removal: every slot from `i - 1` on takes the value of the slot behind it. -/
lemma slot_shiftDown (hN : array + 4 * N ≤ 2 ^ 32) (hj : j < N) :
    ∀ (n i : ℕ) (m : Mem), 1 ≤ i → i + n ≤ N →
      slot array (shiftDown array n i m) j =
        if i ≤ j + 1 ∧ j + 1 < i + n then slot array m (j + 1) else slot array m j := by
  intro n
  induction n with
  | zero =>
    intro i m _ _
    simp only [shiftDown]
    split_ifs <;> first | rfl | omega
  | succ n ih =>
    intro i m hi hn
    have hsame := @slot_writeSlot array N m (i - 1) j (slot array m i) hN (by omega) hj
      (slot_lt _ _ _)
    rw [shiftDown, ih (i + 1) _ (by omega) (by omega), hsame]
    by_cases h1 : i + 1 ≤ j + 1 ∧ j + 1 < i + 1 + n
    · have hcell := @slot_writeSlot array N m (i - 1) (j + 1) (slot array m i) hN (by omega)
        (by omega) (slot_lt _ _ _)
      rw [if_pos h1, if_pos (by omega), hcell, if_neg (by omega)]
    · rw [if_neg h1]
      split_ifs with h2 h3 h3
      · rw [h2, show i - 1 + 1 = i by omega]
      · omega
      · omega
      · rfl

lemma writes_shiftDown (hN : array + 4 * N ≤ 2 ^ 32) :
    ∀ (n i : ℕ) (m : Mem), 1 ≤ i → i + n ≤ N →
      Writes m (shiftDown array n i m) (Set.Ico array (array + 4 * N)) := by
  intro n
  induction n with
  | zero => exact fun _ m _ _ => Writes.refl m _
  | succ n ih =>
    intro i m hi hn
    exact (writes_writeSlot hN (by omega)).trans (ih (i + 1) _ (by omega) (by omega))

end Slots

/-! ### An insertion -/

/-- The slots that `insert_sorted_array` writes, in order. -/
def insertSlots (item : ℕ) (a : SortedArray) (m : Mem) : List ℕ :=
  let iter := insertPos a item m a.cur 0
  if iter = a.cur then [a.cur] else List.range' iter (a.cur + 2 - iter)

/-- Words stored into the given slots, one after the other. -/
def writeSlots (array : ℕ) (m : Mem) (ws : List (ℕ × ℕ)) : Mem :=
  ws.foldl (fun m w => writeSlot array m w.1 w.2) m

section Insert

variable {N item j : ℕ} {a : SortedArray} {m : Mem}

lemma insertPos_spec (item : ℕ) (a : SortedArray) (m : Mem) (n iter : ℕ) :
    iter ≤ insertPos a item m n iter ∧ insertPos a item m n iter ≤ iter + n ∧
      (∀ j, iter ≤ j → j < insertPos a item m n iter → a.cmpFun m (slot a.array m j) item < 0) ∧
      (insertPos a item m n iter < iter + n →
        ¬ a.cmpFun m (slot a.array m (insertPos a item m n iter)) item < 0) := by
  induction n generalizing iter with
  | zero =>
    exact ⟨le_rfl, le_rfl, fun j h1 h2 => absurd h2 (not_lt.mpr h1),
      fun h => absurd h (lt_irrefl _)⟩
  | succ n ih =>
    unfold insertPos
    by_cases hlt : a.cmpFun m (slot a.array m iter) item < 0
    · obtain ⟨h1, h2, h3, h4⟩ := ih (iter + 1)
      rw [if_pos hlt]
      refine ⟨by omega, by omega, fun j hj hj' => ?_, fun h => h4 (by omega)⟩
      rcases Nat.eq_or_lt_of_le hj with rfl | hj
      · exact hlt
      · exact h3 j hj hj'
    · rw [if_neg hlt]
      exact ⟨le_rfl, by omega, fun j h1 h2 => absurd h2 (not_lt.mpr h1), fun _ => hlt⟩

lemma insertPos_le (item : ℕ) (a : SortedArray) (m : Mem) :
    insertPos a item m a.cur 0 ≤ a.cur := by
  have h := (insertPos_spec item a m a.cur 0).2.1
  omega

/-- **Where an insertion puts the entries**: the item at its position, and those from there on one
slot higher. -/
lemma slot_insertSortedArray (hN : a.array + 4 * N ≤ 2 ^ 32)
    (hslots : ∀ i ∈ insertSlots item a m, i < N) (hitem : item < 2 ^ 32) (hj : j ≤ a.cur) :
    slot a.array (insertSortedArray item a m).2 j =
      if j < insertPos a item m a.cur 0 then slot a.array m j
      else if j = insertPos a item m a.cur 0 then item else slot a.array m (j - 1) := by
  have hle := insertPos_le item a m
  unfold insertSlots at hslots
  unfold insertSortedArray
  simp only at hslots ⊢
  set p := insertPos a item m a.cur 0 with hp
  by_cases hend : p = a.cur
  · rw [if_pos hend] at hslots ⊢
    have hcur := hslots a.cur (by simp)
    rw [slot_writeSlot hN hcur (by omega) hitem]
    split_ifs <;> first | rfl | omega
  · rw [if_neg hend] at hslots ⊢
    have hlast := hslots (a.cur + 1) (by simp only [List.mem_range'_1]; omega)
    have hput {i : ℕ} (hi : i < N) := @slot_writeSlot a.array N m p i item hN (by omega) hi hitem
    show slot a.array (shiftUp a.array (a.cur + 1 - p) p _ _) j = _
    rw [slot_shiftUp hN (by omega) _ _ _ _ (by omega) (slot_lt _ _ _), hput (by omega),
      hput (by omega)]
    split_ifs <;> first | rfl | omega | (congr 1; omega)

lemma slot_insertSortedArray_behind (hN : a.array + 4 * N ≤ 2 ^ 32)
    (hslots : ∀ i ∈ insertSlots item a m, i < N) (hitem : item < 2 ^ 32) (hj : a.cur < j)
    (hjN : j < N) : slot a.array (insertSortedArray item a m).2 j =
      if j = a.cur + 1 ∧ insertPos a item m a.cur 0 ≠ a.cur then slot a.array m a.cur
      else slot a.array m j := by
  have hle := insertPos_le item a m
  unfold insertSlots at hslots
  unfold insertSortedArray
  simp only at hslots ⊢
  set p := insertPos a item m a.cur 0 with hp
  by_cases hend : p = a.cur
  · rw [if_pos hend] at hslots ⊢
    have hcur := hslots a.cur (by simp)
    rw [slot_writeSlot hN hcur hjN hitem]
    split_ifs <;> first | rfl | omega
  · rw [if_neg hend] at hslots ⊢
    have hlast := hslots (a.cur + 1) (by simp only [List.mem_range'_1]; omega)
    have hput {i : ℕ} (hi : i < N) := @slot_writeSlot a.array N m p i item hN (by omega) hi hitem
    show slot a.array (shiftUp a.array (a.cur + 1 - p) p _ _) j = _
    rw [slot_shiftUp hN hjN _ _ _ _ (by omega) (slot_lt _ _ _), hput (by omega), hput hjN]
    split_ifs <;> first | rfl | omega | (congr 1; omega)

lemma writes_insertSortedArray (hN : a.array + 4 * N ≤ 2 ^ 32)
    (hslots : ∀ i ∈ insertSlots item a m, i < N) :
    Writes m (insertSortedArray item a m).2 (Set.Ico a.array (a.array + 4 * N)) := by
  have hle := insertPos_le item a m
  unfold insertSlots at hslots
  unfold insertSortedArray
  simp only at hslots ⊢
  set p := insertPos a item m a.cur 0 with hp
  by_cases hend : p = a.cur
  · rw [if_pos hend] at hslots ⊢
    exact writes_writeSlot hN (hslots a.cur (by simp))
  · rw [if_neg hend] at hslots ⊢
    have hlast := hslots (a.cur + 1) (by simp only [List.mem_range'_1]; omega)
    exact (writes_writeSlot hN (by omega)).trans (writes_shiftUp hN _ _ _ _ (by omega))

lemma shiftUp_eq (array : ℕ) : ∀ (n iter temp : ℕ) (m : Mem), ∃ vs : List ℕ, vs.length = n ∧
    shiftUp array n iter temp m = writeSlots array m ((List.range' (iter + 1) n).zip vs) := by
  intro n
  induction n with
  | zero => exact fun _ _ _ => ⟨[], rfl, rfl⟩
  | succ n ih =>
    intro iter temp m
    obtain ⟨vs, hlen, heq⟩ := ih (iter + 1) (slot array m (iter + 1))
      (writeSlot array m (iter + 1) temp)
    exact ⟨temp :: vs, by simp [hlen], heq⟩

lemma insertSortedArray_eq : ∃ vs : List ℕ, vs.length = (insertSlots item a m).length ∧
    (insertSortedArray item a m).2 = writeSlots a.array m ((insertSlots item a m).zip vs) := by
  have hle := insertPos_le item a m
  unfold insertSlots insertSortedArray
  simp only
  set p := insertPos a item m a.cur 0 with hp
  by_cases hend : p = a.cur
  · rw [if_pos hend, if_pos hend]
    exact ⟨[item], rfl, rfl⟩
  · rw [if_neg hend, if_neg hend]
    obtain ⟨vs, hlen, heq⟩ := shiftUp_eq a.array (a.cur + 1 - p) p (slot a.array m p)
      (writeSlot a.array m p item)
    have hrange : a.cur + 2 - p = (a.cur + 1 - p) + 1 := by omega
    refine ⟨item :: vs, by simp [hlen, hrange], ?_⟩
    rw [hrange]
    exact heq

lemma cur_insertSortedArray : (insertSortedArray item a m).1.cur = add32 a.cur 1 := by
  unfold insertSortedArray
  simp only
  split_ifs <;> rfl

lemma cur_mem_insertSlots : a.cur ∈ insertSlots item a m := by
  have hle := insertPos_le item a m
  unfold insertSlots
  simp only
  split_ifs
  · exact List.mem_singleton.mpr rfl
  · simp only [List.mem_range'_1]
    omega

end Insert

end OsImplement.Memory
