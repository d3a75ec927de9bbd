import OsImplement.Memory.HeapPlace

/-!
The search for a hole, against what it is to find.

The search is to stop at the first hole that has room for the request and for what alignment costs
it. It never passes such a hole, but it stops at others: at a NULL slot, by the word at address 8;
at an even address, where alignment is not counted; and at an odd one, where the difference is
taken from a hole that is too small for it.
-/

namespace OsImplement.Memory

open Lib.Word Lib.Bytes

/-- The slots of the index, up to its size, hold the holes of the list, and NULL behind them. -/
structure Indexed (a : SortedArray) (m : Mem) (L : List ℕ) : Prop where
  array : a.array ≠ 0
  length : L.length ≤ a.size
  slots : ∀ i < a.size, slot a.array m i = L[i]?.getD 0

/-- Hole `i` has room for `size` bytes, and for what alignment takes in front of them. -/
def Qualifies (size : ℕ) (pageAlign : Bool) (m : Mem) (L : List ℕ) (i : ℕ) : Prop :=
  ∃ h : i < L.length, size + alignOffset pageAlign L[i] ≤ headerSize m L[i]

/-- What the search is to answer: the first hole that qualifies, or none. -/
def FirstFit (size : ℕ) (pageAlign : Bool) (m : Mem) (L : List ℕ) (found : Option (Option ℕ)) :
    Prop :=
  (∀ i, found = some (some i) ↔
    Qualifies size pageAlign m L i ∧ ∀ j < i, ¬ Qualifies size pageAlign m L j) ∧
  (found = some none ↔ ∀ j, ¬ Qualifies size pageAlign m L j)

/-- Slot `i` is taken for a hole that is large enough, and it is not. -/
def Misfit (size : ℕ) (pageAlign : Bool) (m : Mem) (L : List ℕ) (i : ℕ) : Prop :=
  if h : i < L.length then
    let s := headerSize m L[i]
    let off := alignOffset pageAlign L[i]
    if L[i] % 2 = 0 then size ≤ s ∧ s < size + off else s < off ∧ size + off ≤ s + 2 ^ 32
  else size ≤ headerSize m 0

instance (size : ℕ) (pageAlign : Bool) (m : Mem) (L : List ℕ) (i : ℕ) :
    Decidable (Qualifies size pageAlign m L i) := by
  unfold Qualifies
  infer_instance

instance (size : ℕ) (pageAlign : Bool) (m : Mem) (L : List ℕ) (i : ℕ) :
    Decidable (Misfit size pageAlign m L i) := by
  unfold Misfit
  infer_instance

section Search

variable {size p i : ℕ} {pageAlign : Bool} {a : SortedArray} {m : Mem} {L : List ℕ}

lemma holeFits_iff (size p : ℕ) (pageAlign : Bool) (m : Mem) : holeFits size pageAlign m p ↔
    size + alignOffset pageAlign p ≤ headerSize m p ∨
      if p % 2 = 0 then size ≤ headerSize m p ∧ headerSize m p < size + alignOffset pageAlign p
      else headerSize m p < alignOffset pageAlign p ∧
        size + alignOffset pageAlign p ≤ headerSize m p + 2 ^ 32 := by
  have hs := headerSize_lt m p
  cases pageAlign with
  | false =>
    have hoff : alignOffset false p = 0 := if_neg (by simp)
    simp only [holeFits, hoff, Bool.false_eq_true, if_false, decide_eq_true_eq]
    split_ifs <;> omega
  | true =>
    have hmod : add32 p 12 % 0x1000 = (p + 12) % 0x1000 := by
      unfold add32
      omega
    have hoff : alignOffset true p = if (p + 12) % 0x1000 ≠ 0 then 0x1000 - (p + 12) % 0x1000
        else 0 := by simp [alignOffset]
    simp only [holeFits, if_true, decide_eq_true_eq, findOffset, hmod]
    by_cases heven : p % 2 = 0
    · have hmask : maskTest (add32 p 12) = false := maskTest_even (by unfold add32; omega)
      rw [hmask, if_pos heven, if_neg (by simp), sub32_eq (Nat.zero_le _) hs]
      omega
    · have hmask : maskTest (add32 p 12) = true := maskTest_odd (by unfold add32; omega)
      rw [hmask, if_pos rfl, if_neg heven, hoff, if_pos (by omega)]
      rcases Nat.lt_or_ge (headerSize m p) (0x1000 - (p + 12) % 0x1000) with hlt | hge
      · rw [sub32_wrap hlt (by omega)]
        omega
      · rw [sub32_eq hge hs]
        omega

lemma not_misfit (hq : Qualifies size pageAlign m L i) : ¬ Misfit size pageAlign m L i := by
  obtain ⟨hi, hfit⟩ := hq
  unfold Misfit
  rw [dif_pos hi]
  simp only
  split_ifs <;> omega

lemma Indexed.fits_iff (h : Indexed a m L) (hi : i < a.size) :
    holeFits size pageAlign m (slot a.array m i) ↔
      Qualifies size pageAlign m L i ∨ Misfit size pageAlign m L i := by
  rw [h.slots i hi, holeFits_iff]
  unfold Qualifies Misfit
  by_cases hlt : i < L.length
  · simp only [List.getElem?_eq_getElem hlt, Option.getD_some, hlt, exists_true_left, dif_pos]
  · have hoff : alignOffset pageAlign 0 = 0 ∨ 0 < alignOffset pageAlign 0 := by omega
    simp only [List.getElem?_eq_none (Nat.le_of_not_lt hlt), Option.getD_none, hlt,
      IsEmpty.exists_iff, dif_neg, not_false_eq_true, false_or, Nat.zero_mod, if_true]
    omega

lemma findHole_eq (ha : a.array ≠ 0) : ∀ n iter, iter + n = a.size →
    findHole size pageAlign a m n iter =
      some ((List.range' iter n).find? fun i => holeFits size pageAlign m (slot a.array m i)) := by
  intro n
  induction n with
  | zero => exact fun _ _ => rfl
  | succ n ih =>
    intro iter hn
    have hfind : findSortedArray iter a m = some (slot a.array m iter) :=
      if_neg (not_or.mpr ⟨ha, by omega⟩)
    rw [findHole, hfind, List.range'_succ, List.find?_cons, ih (iter + 1) (by omega)]
    simp only [Option.bind_eq_bind, Option.bind_some]
    cases holeFits size pageAlign m (slot a.array m iter) <;> rfl

theorem Indexed.findHole_iff (h : Indexed a m L) :
    (∀ i, findHole size pageAlign a m a.size 0 = some (some i) ↔ i < a.size ∧
      (Qualifies size pageAlign m L i ∨ Misfit size pageAlign m L i) ∧
      ∀ j < i, ¬ Qualifies size pageAlign m L j ∧ ¬ Misfit size pageAlign m L j) ∧
    (findHole size pageAlign a m a.size 0 = some none ↔ ∀ j < a.size,
      ¬ Qualifies size pageAlign m L j ∧ ¬ Misfit size pageAlign m L j) := by
  rw [findHole_eq h.array _ _ (Nat.zero_add _), ← List.range_eq_range']
  constructor
  · intro i
    rw [Option.some_inj, List.find?_range_eq_some, List.mem_range]
    constructor
    · rintro ⟨hfit, hi, hbefore⟩
      refine ⟨hi, (h.fits_iff hi).mp hfit, fun j hj => ?_⟩
      have hj' := (h.fits_iff (show j < a.size by omega)).not.mp (by simpa using hbefore j hj)
      exact not_or.mp hj'
    · rintro ⟨hi, hfit, hbefore⟩
      refine ⟨(h.fits_iff hi).mpr hfit, hi, fun j hj => ?_⟩
      have hj' := (h.fits_iff (show j < a.size by omega)).not.mpr (not_or.mpr (hbefore j hj))
      simpa using hj'
  · rw [Option.some_inj, List.find?_eq_none]
    simp only [List.mem_range]
    constructor
    · intro hall j hj
      exact not_or.mp ((h.fits_iff hj).not.mp (hall j hj))
    · intro hall j hj
      exact (h.fits_iff hj).not.mpr (not_or.mpr (hall j hj))

/-- **The search answers right** exactly when every slot that it would take wrongly comes after a
hole that qualifies. -/
theorem findHole_firstFit_iff {heap : Heap} (h : Indexed heap.index m L) :
    FirstFit size pageAlign m L (findHoleFitFirst size pageAlign heap m) ↔
      ∀ i < heap.index.size, Misfit size pageAlign m L i →
        ∃ j < i, Qualifies size pageAlign m L j := by
  obtain ⟨hsome, hnone⟩ := @Indexed.findHole_iff size pageAlign _ _ _ h
  have hlive : ∀ j, Qualifies size pageAlign m L j → j < heap.index.size := by
    rintro j ⟨hj, -⟩
    exact hj.trans_le h.length
  unfold findHoleFitFirst
  constructor
  · rintro ⟨hfirst, hmiss⟩ i hi hmis
    by_contra hno
    push Not at hno
    -- the search stops at the first slot that is taken wrongly, if nothing qualifies before it
    cases hf : findHole size pageAlign heap.index m heap.index.size 0 with
    | none =>
      rw [findHole_eq h.array _ _ (Nat.zero_add _)] at hf
      cases hf
    | some found =>
      cases found with
      | none => exact (((hnone.mp hf) i hi).2 hmis).elim
      | some l =>
        obtain ⟨hl, hfit, hbefore⟩ := (hsome l).mp hf
        obtain ⟨hq, -⟩ := (hfirst l).mp hf
        have hli : l ≤ i := Nat.le_of_not_lt fun hlt => (hbefore i hlt).2 hmis
        rcases hli.lt_or_eq with hlt | rfl
        · exact hno l hlt hq
        · exact (not_misfit hq) hmis
  · intro hcond
    refine ⟨fun i => (hsome i).trans ⟨?_, ?_⟩, hnone.trans ⟨?_, ?_⟩⟩
    · rintro ⟨hi, hfit, hbefore⟩
      refine ⟨hfit.resolve_right fun hmis => ?_, fun j hj => (hbefore j hj).1⟩
      obtain ⟨j, hj, hq⟩ := hcond i hi hmis
      exact (hbefore j hj).1 hq
    · rintro ⟨hq, hbefore⟩
      refine ⟨hlive i hq, .inl hq, fun j hj => ⟨hbefore j hj, fun hmis => ?_⟩⟩
      obtain ⟨l, hl, hq'⟩ := hcond j (by have := hlive i hq; omega) hmis
      exact hbefore l (by omega) hq'
    · intro hall j hq
      exact (hall j (hlive j hq)).1 hq
    · intro hall j hj
      refine ⟨hall j, fun hmis => ?_⟩
      obtain ⟨l, -, hq⟩ := hcond j hj hmis
      exact hall l hq

end Search

/-! ### An index of one hole -/

/-- The index at `0x1000`, with one slot that lists a hole of `s` bytes at `p`. -/
def oneHole (p s : ℕ) : Mem := write32 (write32 (fun _ => 0) 0x1000 p) (p + 8) s

/-- The heap around such an index, with an array of `n` slots of which `size` are in use. -/
def oneHoleHeap (size cur end_ : ℕ) : Heap where
  index := { array := 0x1000, size := size, cur := cur, cmpFun := headerCmpLess }
  startAddress := 0x2000
  endAddress := end_
  maxAddress := 0xCFFFF000
  supervisor := false
  readonly := false

lemma indexed_oneHole : Indexed (oneHoleHeap 1 1 0x3000).index (oneHole 0x2000 100) [0x2000] where
  array := by decide
  length := le_rfl
  slots i hi := by
    obtain rfl : i = 0 := by
      simp only [oneHoleHeap] at hi
      omega
    decide +kernel

/-- A request of 50 bytes, page-aligned, in a hole of 100 bytes at a page: the block would begin
4084 bytes further up. -/
theorem findHole_firstFit_fails :
    Indexed (oneHoleHeap 1 1 0x3000).index (oneHole 0x2000 100) [0x2000] ∧
      ¬ FirstFit 50 true (oneHole 0x2000 100) [0x2000]
        (findHoleFitFirst 50 true (oneHoleHeap 1 1 0x3000) (oneHole 0x2000 100)) := by
  refine ⟨indexed_oneHole, fun h => ?_⟩
  have hfound : findHoleFitFirst 50 true (oneHoleHeap 1 1 0x3000) (oneHole 0x2000 100) =
      some (some 0) := by decide +kernel
  exact absurd ((h.1 0).mp hfound).1 (by decide +kernel)

/-- The index at `0x1000`, that lists a hole of 40 bytes and one of 100 bytes. -/
def twoHoles : Mem := write32 (write32 (oneHole 0x2000 40) 0x1004 0x2100) 0x2108 100

lemma indexed_twoHoles : Indexed (oneHoleHeap 2 2 0x3000).index twoHoles [0x2000, 0x2100] where
  array := by decide
  length := le_rfl
  slots i hi := by
    rcases (show i = 0 ∨ i = 1 by simp only [oneHoleHeap] at hi; omega) with rfl | rfl <;>
      decide +kernel

theorem findHole_firstFit_two :
    FirstFit 50 false twoHoles [0x2000, 0x2100]
        (findHoleFitFirst 50 false (oneHoleHeap 2 2 0x3000) twoHoles) ∧
      findHoleFitFirst 50 false (oneHoleHeap 2 2 0x3000) twoHoles = some (some 1) := by
  refine ⟨(findHole_firstFit_iff indexed_twoHoles).mpr fun i hi hmis => ?_, by decide +kernel⟩
  rcases (show i = 0 ∨ i = 1 by simp only [oneHoleHeap] at hi; omega) with rfl | rfl
  · exact absurd hmis (by decide +kernel)
  · exact absurd hmis (by decide +kernel)

end OsImplement.Memory
