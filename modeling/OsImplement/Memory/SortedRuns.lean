import OsImplement.Memory.SortedArray
import OsImplement.Lib.Step

/-!
Runs of the index array: insertions and removals after `place_sorted_array`.

Two things are asked of a run: that the entries stand in the order of the comparator, and that the
slots are enough for as many entries as the array was made for.
-/

namespace OsImplement.Memory

open Lib.Word Lib.Bytes Lib.Step

/-! ### Runs -/

/-- An array in memory, and how many entries have been inserted and not removed. -/
structure Index where
  arr : SortedArray
  mem : Mem
  live : ℕ

inductive IndexOp where
  | insert (item : ℕ)
  | remove (index : ℕ)
  deriving DecidableEq

namespace Index

/-- An array of `maxsize` slots, as `place_sorted_array` makes it. -/
def placed (addr maxsize : ℕ) (cmpFun : Mem → ℕ → ℕ → ℤ) (m : Mem) : Index :=
  let (a, m) := placeSortedArray addr maxsize cmpFun m
  { arr := a, mem := m, live := 0 }

/-- One call. A removal behind the slots removes nothing. -/
def step (s : Index) : IndexOp → Index
  | .insert item =>
    let (a, m) := insertSortedArray item s.arr s.mem
    { arr := a, mem := m, live := s.live + 1 }
  | .remove i =>
    match removeSortedArray i s.arr s.mem with
    | none => s
    | some (a, m) =>
      { arr := a, mem := m, live := if i < s.live ∧ i < s.arr.size then s.live - 1 else s.live }

/-- `find_sorted_array` -/
def find (s : Index) (i : ℕ) : Option ℕ := findSortedArray i s.arr s.mem

/-! ### The order -/

/-- The entries that can be read are in order: none is before an earlier one. -/
def Sorted (before : ℕ → ℕ → Prop) (s : Index) : Prop :=
  ∀ i j x y, i < j → j < s.live → s.find i = some x → s.find j = some y → ¬ before y x

/-- An insertion within the capacity of the array, whose comparator computes `lt`. -/
def Capacity (maxsize : ℕ) (lt : ℕ → ℕ → Prop) [DecidableRel lt] (s : Index) : IndexOp → Prop
  | .insert item => item < 2 ^ 32 ∧ s.live < maxsize ∧ s.arr.array + 4 * (s.arr.cur + 2) ≤ 2 ^ 32 ∧
      ∀ x y, s.arr.cmpFun s.mem x y = if lt x y then 1 else 0
  | .remove _ => True

/-- What is inserted is not behind any entry that can still be read afterwards. -/
def InsertsFirst (before : ℕ → ℕ → Prop) (s : Index) : IndexOp → Prop
  | .insert item => ∀ i x, i < s.live → i + 1 < s.arr.size → s.find i = some x → ¬ before x item
  | .remove _ => True

section Order

variable {A maxsize item i : ℕ} {lt before : ℕ → ℕ → Prop} [DecidableRel lt] {s : Index}

/-- What holds of every array in a run. -/
structure Ok (A : ℕ) (s : Index) : Prop where
  array : s.arr.array = A
  pos : 0 < A
  top : A + 4 * s.arr.size ≤ 2 ^ 32
  live : s.live ≤ s.arr.cur

lemma Ok.find_eq_some {x : ℕ} (h : Ok A s) :
    s.find i = some x ↔ i < s.arr.size ∧ slot A s.mem i = x := by
  have hpos := h.pos
  unfold find findSortedArray
  rw [h.array]
  by_cases hi : i < s.arr.size
  · rw [if_neg (by omega), Option.some.injEq, and_iff_right hi]
  · rw [if_pos (by omega)]
    simp [hi]

lemma ok_placed {cmpFun : Mem → ℕ → ℕ → ℤ} {m : Mem} (hA : 0 < A)
    (htop : A + 4 * maxsize ≤ 2 ^ 32) : Ok A (placed A maxsize cmpFun m) :=
  ⟨rfl, hA, htop, le_rfl⟩

/-- A comparator that is never negative stops the search at once. -/
lemma insertPos_zero {a : SortedArray} {m : Mem} (h : ∀ x y, 0 ≤ a.cmpFun m x y) :
    insertPos a item m a.cur 0 = 0 := by
  obtain ⟨-, -, hbelow, -⟩ := insertPos_spec item a m a.cur 0
  by_contra hne
  have hneg := hbelow 0 le_rfl (by omega)
  have := h (slot a.array m 0) item
  omega

lemma insertSlots_lt {a : SortedArray} {m : Mem} (hi : i ∈ insertSlots item a m) :
    i < a.cur + 2 := by
  have hle := insertPos_le item a m
  unfold insertSlots at hi
  simp only at hi
  split_ifs at hi
  · rw [List.mem_singleton.mp hi]
    omega
  · have := List.mem_range'_1.mp hi
    omega

/-- **An insertion puts its item in front of all entries.** -/
lemma Ok.insert (h : Ok A s) (hc : Capacity maxsize lt s (.insert item)) :
    Ok A (s.step (.insert item)) ∧ (s.step (.insert item)).arr.size = s.arr.size ∧
      ∀ j ≤ s.arr.cur, slot A (s.step (.insert item)).mem j =
        if j = 0 then item else slot A s.mem (j - 1) := by
  obtain ⟨hitem, -, htop, hcmp⟩ := hc
  rw [h.array] at htop
  have hpos : insertPos s.arr item s.mem s.arr.cur 0 = 0 :=
    insertPos_zero fun x y => by rw [hcmp]; split <;> decide
  have hslots : ∀ i ∈ insertSlots item s.arr s.mem, i < s.arr.cur + 2 := fun i => insertSlots_lt
  have hcur : (insertSortedArray item s.arr s.mem).1.cur = s.arr.cur + 1 := by
    rw [cur_insertSortedArray, add32_eq (by omega)]
  have harray : (insertSortedArray item s.arr s.mem).1.array = s.arr.array := by
    unfold insertSortedArray
    simp only
    split_ifs <;> rfl
  have hsize : (insertSortedArray item s.arr s.mem).1.size = s.arr.size := by
    unfold insertSortedArray
    simp only
    split_ifs <;> rfl
  have hlive := h.live
  refine ⟨⟨harray.trans h.array, h.pos, ?_, ?_⟩, hsize, fun j hj => ?_⟩
  · show A + 4 * (insertSortedArray item s.arr s.mem).1.size ≤ 2 ^ 32
    rw [hsize]
    exact h.top
  · show s.live + 1 ≤ (insertSortedArray item s.arr s.mem).1.cur
    omega
  · have hslot := slot_insertSortedArray (h.array ▸ htop) hslots hitem hj
    rw [hpos, h.array, if_neg (by omega)] at hslot
    exact hslot

lemma Ok.step_remove (h : Ok A s) (hi : i < s.arr.size) : s.step (.remove i) =
    { arr := { s.arr with size := s.arr.size - 1 }
      mem := shiftDown s.arr.array (s.arr.size - (i + 1)) (i + 1) s.mem
      live := if i < s.live then s.live - 1 else s.live } := by
  have hpos := h.pos
  have hrem : removeSortedArray i s.arr s.mem = some ({ s.arr with size := s.arr.size - 1 },
      shiftDown s.arr.array (s.arr.size - (i + 1)) (i + 1) s.mem) := by
    have harray : s.arr.array ≠ 0 := by
      rw [h.array]
      omega
    unfold removeSortedArray
    rw [if_neg harray, if_neg (by omega)]
  show (match removeSortedArray i s.arr s.mem with
    | none => s
    | some (a, m) =>
      { arr := a, mem := m, live := if i < s.live ∧ i < s.arr.size then s.live - 1 else s.live })
    = _
  rw [hrem]
  simp [hi]

lemma Ok.remove (h : Ok A s) (hi : i < s.arr.size) :
    Ok A (s.step (.remove i)) ∧ (s.step (.remove i)).arr.size = s.arr.size - 1 ∧
      (s.step (.remove i)).arr.cur = s.arr.cur ∧
      (s.step (.remove i)).live = (if i < s.live then s.live - 1 else s.live) ∧
      ∀ j < s.arr.size, slot A (s.step (.remove i)).mem j =
        if i ≤ j ∧ j + 1 < s.arr.size then slot A s.mem (j + 1) else slot A s.mem j := by
  have hlive := h.live
  have htop := h.top
  rw [h.step_remove hi]
  refine ⟨⟨h.array, h.pos, ?_, ?_⟩, rfl, rfl, rfl, fun j hj => ?_⟩
  · show A + 4 * (s.arr.size - 1) ≤ 2 ^ 32
    omega
  · show (if i < s.live then s.live - 1 else s.live) ≤ s.arr.cur
    split_ifs <;> omega
  · show slot A (shiftDown s.arr.array (s.arr.size - (i + 1)) (i + 1) s.mem) j = _
    rw [h.array, slot_shiftDown h.top hj _ _ _ (by omega) (by omega)]
    split_ifs <;> first | rfl | omega

lemma Ok.remove_behind (h : Ok A s) (hi : s.arr.size ≤ i) : s.step (.remove i) = s := by
  have hpos := h.pos
  have hrem : removeSortedArray i s.arr s.mem = some (s.arr, s.mem) := by
    unfold removeSortedArray
    rw [h.array, if_neg (by omega), if_pos hi]
  show (match removeSortedArray i s.arr s.mem with
    | none => s
    | some (a, m) =>
      { arr := a, mem := m, live := if i < s.live ∧ i < s.arr.size then s.live - 1 else s.live }) = _
  rw [hrem]
  simp [show ¬ i < s.arr.size by omega]

lemma sorted_remove (h : Ok A s) (hs : s.Sorted before) (i : ℕ) :
    (s.step (.remove i)).Sorted before := by
  by_cases hi : i < s.arr.size
  · obtain ⟨h', hsize, -, hlive, hslot⟩ := h.remove hi
    intro j k x y hjk hk hx hy
    obtain ⟨hj, hx⟩ := h'.find_eq_some.mp hx
    obtain ⟨hk', hy⟩ := h'.find_eq_some.mp hy
    rw [hsize] at hj hk'
    rw [hslot j (by omega)] at hx
    rw [hslot k (by omega)] at hy
    rw [hlive] at hk
    have hold {j' k' : ℕ} (hlt : j' < k') (hl : k' < s.live) (hsz : k' < s.arr.size)
        (hx : slot A s.mem j' = x) (hy : slot A s.mem k' = y) : ¬ before y x :=
      hs j' k' x y hlt hl (h.find_eq_some.mpr ⟨by omega, hx⟩) (h.find_eq_some.mpr ⟨hsz, hy⟩)
    by_cases hik : i ≤ k
    · rw [if_pos ⟨hik, by omega⟩] at hy
      by_cases hil : i < s.live
      · rw [if_pos hil] at hk
        by_cases hij : i ≤ j
        · rw [if_pos ⟨hij, by omega⟩] at hx
          exact hold (by omega) (by omega) (by omega) hx hy
        · rw [if_neg (by omega)] at hx
          exact hold (by omega) (by omega) (by omega) hx hy
      · -- a slot behind the entries
        rw [if_neg hil] at hk
        omega
    · rw [if_neg (by omega)] at hx hy
      refine hold hjk ?_ (by omega) hx hy
      split_ifs at hk <;> omega
  · rw [h.remove_behind (by omega)]
    exact hs

/-- An insertion keeps the order exactly when the item is not behind what stays readable. -/
lemma sorted_insert (h : Ok A s) (hc : Capacity maxsize lt s (.insert item))
    (hs : s.Sorted before) :
    (s.step (.insert item)).Sorted before ↔ InsertsFirst before s (.insert item) := by
  obtain ⟨h', hsize, hslot⟩ := h.insert hc
  have hlive := h.live
  constructor
  · intro hsorted i x hi hi' hx
    obtain ⟨-, hx⟩ := h.find_eq_some.mp hx
    refine hsorted 0 (i + 1) item x (by omega) (show i + 1 < s.live + 1 by omega)
      (h'.find_eq_some.mpr ⟨by omega, ?_⟩) (h'.find_eq_some.mpr ⟨by omega, ?_⟩)
    · rw [hslot 0 (by omega), if_pos rfl]
    · rw [hslot (i + 1) (by omega), if_neg (by omega)]
      exact hx
  · intro hfirst j k x y hjk hk hx hy
    obtain ⟨hj, hx⟩ := h'.find_eq_some.mp hx
    obtain ⟨hk', hy⟩ := h'.find_eq_some.mp hy
    have hk : k < s.live + 1 := hk
    rw [hslot k (by omega), if_neg (by omega)] at hy
    have hy' : s.find (k - 1) = some y := h.find_eq_some.mpr ⟨by omega, hy⟩
    rw [hslot j (by omega)] at hx
    by_cases hj0 : j = 0
    · rw [if_pos hj0] at hx
      subst hx
      exact hfirst (k - 1) y (by omega) (by omega) hy'
    · rw [if_neg hj0] at hx
      exact hs (j - 1) (k - 1) x y (by omega) (by omega) (h.find_eq_some.mpr ⟨by omega, hx⟩) hy'

lemma ok_step {op : IndexOp} (h : Ok A s) (hc : Capacity maxsize lt s op) : Ok A (s.step op) := by
  cases op with
  | insert item => exact (h.insert hc).1
  | remove i =>
    by_cases hi : i < s.arr.size
    · exact (h.remove hi).1
    · rw [h.remove_behind (by omega)]
      exact h

/-- **The index is in order exactly when every insertion may go in front.** The order `before` is
that of the comparator or its converse. -/
theorem sorted_iff_insertsFirst {cmpFun : Mem → ℕ → ℕ → ℤ} {m : Mem} {ops : List IndexOp}
    (hA : 0 < A) (htop : A + 4 * maxsize ≤ 2 ^ 32)
    (hcap : Guarded step (Capacity maxsize lt) (placed A maxsize cmpFun m) ops) :
    Always step (Sorted before) (placed A maxsize cmpFun m) ops ↔
      Guarded step (InsertsFirst before) (placed A maxsize cmpFun m) ops := by
  refine always_iff_guarded_of (I := fun s => Ok A s ∧ s.Sorted before) (fun s hs => hs.2)
    (fun s op hs hg hc => ⟨ok_step hs.1 hg, ?_⟩) (fun s op hs hg hc hsorted => hc ?_)
    ⟨ok_placed hA htop, fun i j x y _ hj => ?_⟩ hcap
  · cases op with
    | insert item => exact (sorted_insert hs.1 hg hs.2).mpr hc
    | remove i => exact sorted_remove hs.1 hs.2 i
  · cases op with
    | insert item => exact (sorted_insert hs.1 hg hs.2).mp hsorted
    | remove i => exact trivial
  · exact absurd (show j < 0 from hj) (by omega)

end Order

/-- Eight slots, ordered by `cmp`. -/
def eight : Index := placed 0x1000 8 (fun _ => cmp) fun _ => 0

lemma capacity_eight {a b : ℕ} (ha : a < 2 ^ 32) (hb : b < 2 ^ 32) :
    Guarded step (Capacity 8 (· < ·)) eight [.insert a, .insert b] := by
  have hlive : (eight.step (.insert a)).live = 1 := rfl
  have harray : (eight.step (.insert a)).arr.array = 0x1000 := rfl
  have hcur : (eight.step (.insert a)).arr.cur = 1 := rfl
  refine ⟨⟨ha, by decide, by decide, fun _ _ => rfl⟩, ⟨hb, ?_, ?_, fun _ _ => rfl⟩, trivial⟩
  · rw [hlive]
    decide
  · rw [harray, hcur]
    decide

/-- In neither direction does the comparator order the entries. -/
theorem sorted_fails :
    (Guarded step (Capacity 8 (· < ·)) eight [.insert 1, .insert 2] ∧
      ¬ Always step (Sorted (· < ·)) eight [.insert 1, .insert 2]) ∧
    (Guarded step (Capacity 8 (· < ·)) eight [.insert 2, .insert 1] ∧
      ¬ Always step (Sorted (· > ·)) eight [.insert 2, .insert 1]) := by
  refine ⟨⟨capacity_eight (by decide) (by decide), fun h => ?_⟩,
    ⟨capacity_eight (by decide) (by decide), fun h => ?_⟩⟩
  · exact h.last 0 1 2 1 (by decide) (by decide) (by decide +kernel) (by decide +kernel) (by decide)
  · exact h.last 0 1 1 2 (by decide) (by decide) (by decide +kernel) (by decide +kernel) (by decide)

theorem sorted_eight : Always step (Sorted (· < ·)) eight [.insert 2, .insert 1] := by
  have hcap := capacity_eight (show 2 < 2 ^ 32 by decide) (show 1 < 2 ^ 32 by decide)
  refine (sorted_iff_insertsFirst (by decide) (by decide) hcap).mpr
    ⟨fun i x hi => absurd (show i < 0 from hi) (by omega), fun i x hi _ hx => ?_, trivial⟩
  obtain rfl : i = 0 := by
    have : i < 1 := hi
    omega
  have hread : (eight.step (.insert 2)).find 0 = some 2 := by decide +kernel
  obtain rfl := Option.some.inj (hread.symm.trans hx)
  decide

/-! ### The capacity -/

/-- An insertion writes slots of the array only. -/
def InSlots (maxsize item : ℕ) (s : Index) : Prop :=
  ∀ i ∈ insertSlots item s.arr s.mem, i < maxsize

/-- Insertions one after the other, none of which writes behind the array. -/
def Accepts (maxsize : ℕ) : List ℕ → Index → Prop
  | [], _ => True
  | item :: items, s => InSlots maxsize item s ∧ Accepts maxsize items (s.step (.insert item))

/-- Any `k` entries can still be inserted. -/
def Room (maxsize k : ℕ) (s : Index) : Prop :=
  ∀ items : List ℕ, items.length = k → (∀ x ∈ items, x < 2 ^ 32) → Accepts maxsize items s

/-- `cur` counts the entries, and there is room for the rest. -/
def Conserved (maxsize : ℕ) (s : Index) : Prop :=
  s.arr.cur = s.live ∧ ∀ k, Room maxsize k s ↔ k ≤ maxsize - s.live

/-- An insertion when there are fewer entries than slots, or the removal of an entry. -/
def Within (maxsize : ℕ) (s : Index) : IndexOp → Prop
  | .insert item => item < 2 ^ 32 ∧ s.live < maxsize
  | .remove i => i < s.live

instance (maxsize : ℕ) (s : Index) : DecidablePred (Within maxsize s)
  | .insert item => inferInstanceAs (Decidable (item < 2 ^ 32 ∧ s.live < maxsize))
  | .remove i => inferInstanceAs (Decidable (i < s.live))

/-- No insertion writes behind the array. -/
def WritesInSlots (maxsize : ℕ) (s : Index) : IndexOp → Prop
  | .insert item => InSlots maxsize item s
  | .remove _ => True

/-- No call removes an entry. -/
def Inserting : IndexOp → Prop
  | .insert _ => True
  | .remove _ => False

/-- An array that has only been inserted into. -/
structure Filled (A maxsize : ℕ) (cmpFun : Mem → ℕ → ℕ → ℤ) (m₀ : Mem) (s : Index) : Prop where
  array : s.arr.array = A
  pos : 0 < A
  top : A + 4 * maxsize ≤ 2 ^ 32
  size : s.arr.size = maxsize
  cmpFun : s.arr.cmpFun = cmpFun
  cur : s.arr.cur = s.live
  live : s.live ≤ maxsize
  mem : Writes m₀ s.mem (Set.Ico A (A + 4 * maxsize))

section Room

variable {A maxsize item n k : ℕ} {cmpFun : Mem → ℕ → ℕ → ℤ} {m m₀ : Mem} {s : Index}
  {below : ℕ → ℕ → Prop} {items : List ℕ} {ops : List IndexOp} {x y : ℕ}

lemma Conserved.inSlots (h : Conserved maxsize s) {op : IndexOp} (hop : Within maxsize s op) :
    WritesInSlots maxsize s op := by
  cases op with
  | remove i => exact trivial
  | insert item =>
    obtain ⟨hitem, hlive⟩ := hop
    have hroom := (h.2 1).mpr (by omega)
    exact (hroom [item] rfl (by simpa using hitem)).1

lemma Filled.ok (h : Filled A maxsize cmpFun m₀ s) : Ok A s :=
  ⟨h.array, h.pos, h.size ▸ h.top, h.cur.ge⟩

lemma Filled.insert (h : Filled A maxsize cmpFun m₀ s) (hin : InSlots maxsize item s) :
    Filled A maxsize cmpFun m₀ (s.step (.insert item)) ∧
      (s.step (.insert item)).live = s.live + 1 := by
  have hcur := hin _ cur_mem_insertSlots
  have hlive := h.cur
  have htop := h.top
  have hkeep : (insertSortedArray item s.arr s.mem).1 = { s.arr with cur := add32 s.arr.cur 1 } := by
    unfold insertSortedArray
    simp only
    split_ifs <;> rfl
  have hsucc : add32 s.arr.cur 1 = s.live + 1 := by
    rw [add32_eq (by omega), hlive]
  have hwrites := writes_insertSortedArray (h.array ▸ htop) hin
  rw [h.array] at hwrites
  have hstep : s.step (.insert item) = ⟨(insertSortedArray item s.arr s.mem).1,
      (insertSortedArray item s.arr s.mem).2, s.live + 1⟩ := rfl
  rw [hkeep, hsucc] at hstep
  rw [hstep]
  exact ⟨⟨h.array, h.pos, htop, h.size, h.cmpFun, rfl, by show s.live + 1 ≤ maxsize; omega,
    h.mem.trans hwrites⟩, rfl⟩

lemma Accepts.length_le (h : Filled A maxsize cmpFun m₀ s) (hacc : Accepts maxsize items s) :
    s.live + items.length ≤ maxsize := by
  induction items generalizing s with
  | nil => exact h.live
  | cons item items ih =>
    obtain ⟨h', hlive⟩ := h.insert hacc.1
    have := ih h' hacc.2
    rw [List.length_cons]
    omega

/-- Where an insertion stays in the array although it is the last, it appends. -/
lemma insertPos_eq_cur {a : SortedArray} (hslots : ∀ i ∈ insertSlots item a m, i < a.cur + 1) :
    insertPos a item m a.cur 0 = a.cur := by
  have hle := insertPos_le item a m
  by_contra hne
  unfold insertSlots at hslots
  simp only [if_neg hne] at hslots
  exact absurd (hslots (a.cur + 1) (by simp only [List.mem_range'_1]; omega)) (lt_irrefl _)

lemma accepts_replicate (h : Filled A maxsize cmpFun m₀ s) (hx : x < 2 ^ 32)
    (hslots : ∀ i < s.live, slot A s.mem i = x)
    (hacc : Accepts maxsize (List.replicate n x ++ [y]) s) :
    ∃ t, Filled A maxsize cmpFun m₀ t ∧ t.live = s.live + n ∧
      (∀ i < t.live, slot A t.mem i = x) ∧ InSlots maxsize y t := by
  induction n generalizing s with
  | zero => exact ⟨s, h, rfl, hslots, hacc.1⟩
  | succ n ih =>
    obtain ⟨hin, hacc⟩ := hacc
    obtain ⟨h', hlive⟩ := h.insert hin
    have hslots' : ∀ i < (s.step (.insert x)).live, slot A (s.step (.insert x)).mem i = x := by
      intro i hi
      have hcur := h.cur
      have hle := insertPos_le x s.arr s.mem
      have hslot := slot_insertSortedArray (h.array ▸ h.top) hin hx
        (show i ≤ s.arr.cur by omega)
      rw [h.array] at hslot
      show slot A (insertSortedArray x s.arr s.mem).2 i = x
      rw [hslot]
      split_ifs with h1 h2
      · exact hslots i (by omega)
      · rfl
      · exact hslots (i - 1) (by omega)
    obtain ⟨t, ht, hlt, hst, hyt⟩ := ih h' hslots' hacc
    exact ⟨t, ht, by omega, hst, hyt⟩

section Appending

variable (hcmp : ∀ m, Writes m₀ m (Set.Ico A (A + 4 * maxsize)) →
  ∀ x < 2 ^ 32, ∀ y < 2 ^ 32, cmpFun m x y < 0 ↔ below x y)

include hcmp

lemma below_of_room (h : Filled A maxsize cmpFun m₀ s) (hlive : s.live = 0) (hsize : 2 ≤ maxsize)
    (hroom : Room maxsize maxsize s) (hx : x < 2 ^ 32) (hy : y < 2 ^ 32) : below x y := by
  have hacc := hroom (List.replicate (maxsize - 1) x ++ [y]) (by simp; omega) fun z hz => by
    rcases List.mem_append.mp hz with hz | hz
    · rwa [List.eq_of_mem_replicate hz]
    · rwa [List.mem_singleton.mp hz]
  obtain ⟨t, ht, hlt, hslots, hin⟩ := accepts_replicate h hx (fun i hi => by omega) hacc
  have hcur := ht.cur
  have happend : insertPos t.arr y t.mem t.arr.cur 0 = t.arr.cur :=
    insertPos_eq_cur fun i hi => by
      have := hin i hi
      omega
  have hbelow := (insertPos_spec y t.arr t.mem t.arr.cur 0).2.2.1 0 le_rfl (by omega)
  rw [ht.array, hslots 0 (by omega), ht.cmpFun] at hbelow
  exact (hcmp t.mem ht.mem x hx y hy).mp hbelow

variable (hcond : maxsize ≤ 1 ∨ ∀ x < 2 ^ 32, ∀ y < 2 ^ 32, below x y)

include hcond

lemma Filled.inSlots (h : Filled A maxsize cmpFun m₀ s) (hlive : s.live < maxsize)
    (hitem : item < 2 ^ 32) : InSlots maxsize item s := by
  have hcur := h.cur
  obtain ⟨-, hle, -, hstop⟩ := insertPos_spec item s.arr s.mem s.arr.cur 0
  have hend : insertPos s.arr item s.mem s.arr.cur 0 = s.arr.cur := by
    rcases hcond with hsize | hbelow
    · omega
    · by_contra hne
      refine hstop (by omega) ?_
      rw [h.cmpFun]
      exact (hcmp s.mem h.mem _ (slot_lt _ _ _) _ hitem).mpr (hbelow _ (slot_lt _ _ _) _ hitem)
  intro i hi
  unfold insertSlots at hi
  simp only [if_pos hend] at hi
  rw [List.mem_singleton.mp hi]
  omega

lemma Filled.accepts (h : Filled A maxsize cmpFun m₀ s) (hlen : s.live + items.length ≤ maxsize)
    (hitems : ∀ x ∈ items, x < 2 ^ 32) : Accepts maxsize items s := by
  induction items generalizing s with
  | nil => exact trivial
  | cons item items ih =>
    rw [List.length_cons] at hlen
    have hin := h.inSlots hcmp hcond (by omega) (hitems item (by simp))
    obtain ⟨h', hlive⟩ := h.insert hin
    exact ⟨hin, ih h' (by omega) fun x hx => hitems x (by simp [hx])⟩

lemma Filled.conserved (h : Filled A maxsize cmpFun m₀ s) : Conserved maxsize s := by
  have hlive := h.live
  refine ⟨h.cur, fun k => ⟨fun hroom => ?_, fun hk items hlen hitems => ?_⟩⟩
  · have hacc := hroom (List.replicate k 0) (by simp) fun x hx => by
      rw [List.eq_of_mem_replicate hx]
      decide
    have := hacc.length_le h
    rw [List.length_replicate] at this
    omega
  · exact h.accepts hcmp hcond (by omega) hitems

end Appending

/-- **The capacity is conserved exactly when nothing is removed and every entry is appended** (an
array of one slot aside). -/
theorem conserved_iff (hA : 0 < A) (htop : A + 4 * maxsize ≤ 2 ^ 32)
    (hcmp : ∀ m', Writes (placed A maxsize cmpFun m).mem m' (Set.Ico A (A + 4 * maxsize)) →
      ∀ x < 2 ^ 32, ∀ y < 2 ^ 32, cmpFun m' x y < 0 ↔ below x y)
    (hops : Guarded step (Within maxsize) (placed A maxsize cmpFun m) ops) :
    (Always step (Conserved maxsize) (placed A maxsize cmpFun m) ops ∧
        Guarded step (WritesInSlots maxsize) (placed A maxsize cmpFun m) ops) ↔
      (∀ op ∈ ops, Inserting op) ∧
        (maxsize ≤ 1 ∨ ∀ x < 2 ^ 32, ∀ y < 2 ^ 32, below x y) := by
  set s := placed A maxsize cmpFun m with hs
  have h : Filled A maxsize cmpFun s.mem s :=
    ⟨rfl, hA, htop, rfl, rfl, rfl, Nat.zero_le _, Writes.refl _ _⟩
  have hslots : Always step (Conserved maxsize) s ops →
      Guarded step (WritesInSlots maxsize) s ops :=
    fun hall => hall.guarded (fun _ _ hc hw => hc.inSlots hw) hops
  rw [and_iff_left_of_imp hslots]
  by_cases hcond : maxsize ≤ 1 ∨ ∀ x < 2 ^ 32, ∀ y < 2 ^ 32, below x y
  · rw [and_iff_left hcond, ← @guarded_iff_forall_mem _ _ step Inserting ops s]
    refine always_iff_guarded_of (I := Filled A maxsize cmpFun s.mem)
      (fun t ht => ht.conserved hcmp hcond) (fun t op ht hw hin => ?_)
      (fun t op ht hw hno hcons => ?_) h hops
    · cases op with
      | insert item => exact (ht.insert (ht.inSlots hcmp hcond hw.2 hw.1)).1
      | remove i => exact absurd hin id
    · cases op with
      | insert item => exact hno trivial
      | remove i =>
        have hlive := ht.live
        have hi : i < t.live := hw
        obtain ⟨-, -, hcur, hlive', -⟩ := ht.ok.remove (show i < t.arr.size by
          rw [ht.size]
          omega)
        have hcount := hcons.1
        rw [hcur, ht.cur, hlive', if_pos hi] at hcount
        omega
  · refine iff_of_false (fun hall => hcond ?_) fun hall => hcond hall.2
    by_cases hsize : maxsize ≤ 1
    · exact Or.inl hsize
    · have hroom := (hall.head.2 maxsize).mpr le_rfl
      exact Or.inr fun x hx y hy => below_of_room hcmp h rfl (by omega) hroom hx hy

end Room

/-- A removal does not give its slot back, and an insertion into the last slot but one, or behind
it, writes one slot too far. -/
theorem conserved_fails :
    (Guarded step (Within 8) eight [.insert 1, .remove 0] ∧
      ¬ Always step (Conserved 8) eight [.insert 1, .remove 0]) ∧
    (Guarded step (Within 2) (placed 0x1000 2 (fun _ => cmp) fun _ => 0) [.insert 1, .insert 2] ∧
      ¬ Guarded step (WritesInSlots 2) (placed 0x1000 2 (fun _ => cmp) fun _ => 0)
        [.insert 1, .insert 2]) := by
  refine ⟨⟨⟨by decide, by decide, trivial⟩, fun h => ?_⟩, ⟨by decide, by decide, trivial⟩,
    fun h => ?_⟩
  · exact absurd h.last.1 (by decide +kernel)
  · exact absurd (h.2.1 2 (by decide +kernel)) (by decide)

theorem conserved_appending :
    Always step (Conserved 8) (placed 0x1000 8 (fun _ _ _ => -1) fun _ => 0)
      [.insert 1, .insert 2] := by
  have hops : Guarded step (Within 8) (placed 0x1000 8 (fun _ _ _ => -1) fun _ => 0)
      [.insert 1, .insert 2] := ⟨by decide, by decide, trivial⟩
  have h := @conserved_iff 0x1000 8 (fun _ _ _ => -1) (fun _ => 0) (fun _ _ => True) _ (by decide)
    (by decide) (fun _ _ _ _ _ _ => by decide) hops
  exact (h.mpr ⟨by simp [Inserting], Or.inr fun _ _ _ _ => trivial⟩).1

end Index

end OsImplement.Memory
