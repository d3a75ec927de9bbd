import OsImplement.Memory.SortedRuns
import Mathlib.Data.List.Perm.Basic

/-!
What the index array holds: no entry is lost in a run, and none is there twice.

`cur` counts the insertions and `size` goes down with every removal, so that neither knows how many
entries there are. They drift apart together: while at most `maxsize - 1` items are inserted, there
is a slot behind the entries that can be read, it is NULL as all slots behind it are, and slot
`cur + 1`, up to which an insertion shifts, is one of them. That the slots are NULL at first is the
work of `memset`, which clears nothing of an array of 2 GiB or more.
-/

namespace OsImplement.Memory

open Lib.Word Lib.Bytes Lib.Step

/-! ### Lists of entries -/

/-- A call, as it should be seen by a reader of the entries: an item is put somewhere between the
others, or the entry at a position is taken out. -/
inductive EntryStep : List ℕ → IndexOp → List ℕ → Prop
  | insert (l r : List ℕ) (item : ℕ) : EntryStep (l ++ r) (.insert item) (l ++ item :: r)
  | remove {l : List ℕ} {i : ℕ} (hi : i < l.length) : EntryStep l (.remove i) (l.eraseIdx i)

/-- The items that a run inserts. -/
def inserted : List IndexOp → List ℕ
  | [] => []
  | .insert item :: ops => item :: inserted ops
  | .remove _ :: ops => inserted ops

section EntryStep

variable {l l' : List ℕ} {item i : ℕ}

lemma EntryStep.perm_insert (h : EntryStep l (.insert item) l') : l'.Perm (item :: l) := by
  cases h with
  | insert l r => exact List.perm_middle

lemma EntryStep.perm_remove (h : EntryStep l (.remove i) l') :
    (l[i]?.toList ++ l').Perm l := by
  cases h with
  | remove hi =>
    rw [List.getElem?_eq_getElem hi]
    exact List.getElem_cons_eraseIdx_perm hi

end EntryStep

namespace Index

/-! ### The property -/

/-- The slots of the entries. -/
def entries (s : Index) : List ℕ := (List.range s.live).map (slot s.arr.array s.mem)

/-- The entries that a run takes out: what can be read at the positions of its removals. -/
def taken (s : Index) : List IndexOp → List ℕ
  | [] => []
  | .insert item :: ops => taken (s.step (.insert item)) ops
  | .remove i :: ops => (s.find i).toList ++ taken (s.step (.remove i)) ops

/-- All entries can be read, and what else can be read is NULL. -/
structure Exact (s : Index) : Prop where
  found : ∀ i < s.live, s.find i = s.entries[i]?
  behind : ∀ i, s.live ≤ i → i < s.arr.size → s.find i = some 0

/-- The call does to the entries what it is there for. -/
def Keeps (s : Index) (op : IndexOp) : Prop := EntryStep s.entries op (s.step op).entries

/-- An insertion of a word, or the removal of an entry. -/
def Proper (s : Index) : IndexOp → Prop
  | .insert item => item < 2 ^ 32
  | .remove i => i < s.live

instance (s : Index) : DecidablePred (Proper s)
  | .insert item => inferInstanceAs (Decidable (item < 2 ^ 32))
  | .remove i => inferInstanceAs (Decidable (i < s.live))

/-! ### One call -/

section Entries

variable {A maxsize item i j : ℕ} {cmpFun : Mem → ℕ → ℕ → ℤ} {m : Mem} {s : Index}
  {ops : List IndexOp}

/-- An array of `maxsize` slots into which less than `maxsize` items have been inserted. -/
structure Loaded (A maxsize : ℕ) (s : Index) : Prop where
  ok : Ok A s
  top : A + 4 * maxsize ≤ 2 ^ 32
  cmp : ∀ m x y, s.arr.cmpFun m x y = 0 ∨ s.arr.cmpFun m x y = 1
  cur : s.arr.cur ≤ maxsize - 1
  size : s.arr.size + (s.arr.cur - s.live) = maxsize
  null : ∀ i, s.live ≤ i → i < maxsize → slot A s.mem i = 0

lemma Loaded.live_le (h : Loaded A maxsize s) : s.live ≤ s.arr.size := by
  have hlive := h.ok.live
  have hcur := h.cur
  have hsize := h.size
  omega

lemma Loaded.getElem_entries (h : Loaded A maxsize s) (hi : i < s.live) :
    s.entries[i]? = some (slot A s.mem i) := by
  rw [entries, List.getElem?_map, List.getElem?_range hi, h.ok.array]
  rfl

lemma Loaded.exact (h : Loaded A maxsize s) : s.Exact := by
  have hlive := h.live_le
  have hsize := h.size
  refine ⟨fun i hi => ?_, fun i hi hi' => ?_⟩
  · rw [h.getElem_entries hi]
    exact h.ok.find_eq_some.mpr ⟨by omega, rfl⟩
  · exact h.ok.find_eq_some.mpr ⟨hi', h.null i hi (by omega)⟩

lemma Loaded.cur_insert (h : Loaded A maxsize s) (item : ℕ) :
    (s.step (.insert item)).arr.cur = s.arr.cur + 1 := by
  have htop := h.top
  have hcur := h.cur
  show (insertSortedArray item s.arr s.mem).1.cur = _
  rw [cur_insertSortedArray, add32_eq (by omega)]

/-- **An insertion.** The slots behind the entries take NULLs from one another. -/
lemma Loaded.insert (h : Loaded A maxsize s) (hitem : item < 2 ^ 32)
    (hroom : s.arr.cur + 1 < maxsize) :
    Loaded A maxsize (s.step (.insert item)) ∧ s.Keeps (.insert item) := by
  have htop := h.top
  have hlive := h.ok.live
  have harray := h.ok.array
  have hcmp : ∀ x y, s.arr.cmpFun s.mem x y = if s.arr.cmpFun s.mem x y = 1 then 1 else 0 := by
    intro x y
    rcases h.cmp s.mem x y with h0 | h1
    · simp [h0]
    · simp [h1]
  have hcap : Capacity (s.live + 1) (fun x y => s.arr.cmpFun s.mem x y = 1) s (.insert item) :=
    ⟨hitem, Nat.lt_succ_self _, by rw [harray]; omega, hcmp⟩
  obtain ⟨hok, hsize, hslot⟩ := h.ok.insert hcap
  have hcur := h.cur_insert item
  have hfun : (s.step (.insert item)).arr.cmpFun = s.arr.cmpFun := by
    show (insertSortedArray item s.arr s.mem).1.cmpFun = _
    unfold insertSortedArray
    simp only
    split_ifs <;> rfl
  have hnull := h.null
  refine ⟨⟨hok, htop, by rw [hfun]; exact h.cmp, by omega, ?_, fun i hi hi' => ?_⟩, ?_⟩
  · show (s.step (.insert item)).arr.size + ((s.step (.insert item)).arr.cur - (s.live + 1)) = _
    have := h.size
    omega
  · have hi : s.live + 1 ≤ i := hi
    by_cases hicur : i ≤ s.arr.cur
    · rw [hslot i hicur, if_neg (by omega)]
      exact hnull (i - 1) (by omega) (by omega)
    · have hbehind := slot_insertSortedArray_behind (N := maxsize) (m := s.mem) (by omega)
        (fun k hk => (insertSlots_lt hk).trans_le (by omega)) hitem (not_le.mp hicur) hi'
      rw [harray] at hbehind
      show slot A (insertSortedArray item s.arr s.mem).2 i = 0
      rw [hbehind]
      split_ifs
      · exact hnull s.arr.cur hlive (by omega)
      · exact hnull i (by omega) hi'
  · have hentries : (s.step (.insert item)).entries = item :: s.entries := by
      show (List.range (s.live + 1)).map (slot (s.step (.insert item)).arr.array _) = _
      rw [hok.array, List.range_succ_eq_map, List.map_cons, List.map_map, hslot 0 (by omega),
        if_pos rfl, entries, harray]
      refine congrArg (item :: ·) (List.map_congr_left fun j hj => ?_)
      have hj := List.mem_range.mp hj
      show slot A (s.step (.insert item)).mem (j + 1) = _
      rw [hslot (j + 1) (by omega), if_neg (by omega)]
      rfl
    show EntryStep s.entries (.insert item) _
    rw [hentries]
    exact .insert [] s.entries item

/-- **A removal.** The last slot that could be read is NULL, as there is one behind the entries. -/
lemma Loaded.remove (h : Loaded A maxsize s) (hi : i < s.live) :
    Loaded A maxsize (s.step (.remove i)) ∧ s.Keeps (.remove i) := by
  have htop := h.top
  have hlive := h.ok.live
  have hsize := h.size
  have hcur := h.cur
  have hread : i < s.arr.size := lt_of_lt_of_le hi h.live_le
  obtain ⟨hok, hsize', hcur', hlive', -⟩ := h.ok.remove hread
  rw [if_pos hi] at hlive'
  have hstep := h.ok.step_remove hread
  have hslot : ∀ j < maxsize, slot A (s.step (.remove i)).mem j =
      if i ≤ j ∧ j + 1 < s.arr.size then slot A s.mem (j + 1) else slot A s.mem j := by
    intro j hj
    rw [hstep, ← h.ok.array]
    show slot _ (shiftDown _ _ _ _) _ = _
    rw [slot_shiftDown (N := maxsize) (by rw [h.ok.array]; omega) hj _ _ _ (by omega) (by omega)]
    split_ifs <;> first | rfl | omega
  refine ⟨⟨hok, htop, by rw [hstep]; exact h.cmp, by omega, by omega, fun j hj hj' => ?_⟩, ?_⟩
  · rw [hslot j hj']
    split_ifs
    · exact h.null (j + 1) (by omega) (by omega)
    · exact h.null j (by omega) hj'
  · have hentries : (s.step (.remove i)).entries = s.entries.eraseIdx i := by
      unfold entries
      rw [hok.array, hlive', h.ok.array]
      refine List.ext_getElem ?_ fun j h1 h2 => ?_
      · rw [List.length_eraseIdx_of_lt (by simpa using hi)]
        simp
      · have hj : j < s.live - 1 := by simpa using h1
        rw [List.getElem_eraseIdx]
        simp only [List.getElem_map, List.getElem_range]
        rw [hslot j (by omega)]
        by_cases hji : j < i
        · rw [dif_pos hji, if_neg (by omega)]
        · rw [dif_neg hji, if_pos (by omega)]
    show EntryStep s.entries (.remove i) _
    rw [hentries]
    exact .remove (by simpa [entries] using hi)

/-- The slots are NULL when the array is new: `memset` has cleared them, or they were before. -/
lemma slot_placed (hA : 0 < A) (htop : A + 4 * maxsize ≤ 2 ^ 32) (hi : i < maxsize) :
    slot A (placed A maxsize cmpFun m).mem i =
      if 4 * maxsize < 2 ^ 31 then 0 else slot A m i := by
  show slot A (fill m A (memsetLen (4 * maxsize)) 0) i = _
  split_ifs with hlen
  · rw [memsetLen_eq hlen, slot_eq htop hi]
    exact read32_fill_zero (by omega) (by omega) (by omega)
  · have hnothing : fill m A 0 0 = m := funext fun x => if_neg (Nat.not_lt_zero _)
    rw [memsetLen_eq_zero (by omega) (by omega), hnothing]

lemma loaded_placed (hA : 0 < A) (htop : A + 4 * maxsize ≤ 2 ^ 32)
    (h01 : ∀ m x y, cmpFun m x y = 0 ∨ cmpFun m x y = 1)
    (hclear : 4 * maxsize < 2 ^ 31 ∨ ∀ i < maxsize, slot A m i = 0) :
    Loaded A maxsize (placed A maxsize cmpFun m) := by
  refine ⟨ok_placed hA htop, htop, h01, Nat.zero_le _, rfl, fun i _ hi => ?_⟩
  rw [slot_placed hA htop hi]
  split_ifs with hlen
  · rfl
  · exact hclear.resolve_left hlen i hi

lemma clear_of_exact (hA : 0 < A) (htop : A + 4 * maxsize ≤ 2 ^ 32)
    (h : (placed A maxsize cmpFun m).Exact) :
    4 * maxsize < 2 ^ 31 ∨ ∀ i < maxsize, slot A m i = 0 := by
  refine or_iff_not_imp_left.mpr fun hlen i hi => ?_
  have hfind := h.behind i (Nat.zero_le _) hi
  have hslot := ((ok_placed hA htop).find_eq_some.mp hfind).2
  rwa [slot_placed hA htop hi, if_neg hlen] at hslot

/-! ### Runs -/

lemma Loaded.keeps (h : Loaded A maxsize s) (hops : Guarded step Proper s ops)
    (hcount : s.arr.cur + (inserted ops).length ≤ maxsize - 1) :
    Guarded step Keeps s ops ∧ Always step Exact s ops := by
  induction ops generalizing s with
  | nil => exact ⟨trivial, h.exact⟩
  | cons op ops ih =>
    obtain ⟨hop, hops⟩ := hops
    cases op with
    | insert item =>
      have hlen : (inserted (.insert item :: ops)).length = (inserted ops).length + 1 := rfl
      obtain ⟨h', hkeeps⟩ := h.insert hop (by omega)
      have hcur := h.cur_insert item
      obtain ⟨hk, he⟩ := ih h' hops (by omega)
      exact ⟨⟨hkeeps, hk⟩, h.exact, he⟩
    | remove i =>
      obtain ⟨h', hkeeps⟩ := h.remove hop
      have hread : i < s.arr.size := lt_of_lt_of_le hop h.live_le
      have hcur := (h.ok.remove hread).2.2.1
      obtain ⟨hk, he⟩ := ih h' hops (by rw [hcur]; exact hcount)
      exact ⟨⟨hkeeps, hk⟩, h.exact, he⟩

/-- Where every call does what it is there for, the entries and those that were taken out are those
that were inserted. -/
lemma perm_inserted (hops : Guarded step Proper s ops) (hkeeps : Guarded step Keeps s ops)
    (hexact : Always step Exact s ops) :
    ((ops.foldl step s).entries ++ s.taken ops).Perm (s.entries ++ inserted ops) := by
  induction ops generalizing s with
  | nil => exact .refl _
  | cons op ops ih =>
    have ih := ih hops.2 hkeeps.2 hexact.2
    have hstep := hkeeps.1
    cases op with
    | insert item =>
      have hfront : ((s.step (.insert item)).entries ++ inserted ops).Perm
          (item :: (s.entries ++ inserted ops)) := hstep.perm_insert.append_right _
      exact (ih.trans hfront).trans List.perm_middle.symm
    | remove i =>
      have htake := hstep.perm_remove
      rw [← hexact.1.found i hops.1] at htake
      have hrest := htake.append_right (inserted ops)
      rw [List.append_assoc] at hrest
      exact (List.perm_append_comm_assoc _ _ _).trans ((ih.append_left _).trans hrest)

/-- **No entry is lost, and none is there twice**, as long as less than `maxsize` items are
inserted, exactly when the array is less than 2 GiB long or its slots were NULL before. -/
theorem keeps_entries (hA : 0 < A) (htop : A + 4 * maxsize ≤ 2 ^ 32)
    (h01 : ∀ m x y, cmpFun m x y = 0 ∨ cmpFun m x y = 1)
    (hcount : (inserted ops).length ≤ maxsize - 1)
    (hops : Guarded step Proper (placed A maxsize cmpFun m) ops) :
    (Guarded step Keeps (placed A maxsize cmpFun m) ops ∧
      Always step Exact (placed A maxsize cmpFun m) ops ∧
      ((ops.foldl step (placed A maxsize cmpFun m)).entries ++
        (placed A maxsize cmpFun m).taken ops).Perm (inserted ops)) ↔
      4 * maxsize < 2 ^ 31 ∨ ∀ i < maxsize, slot A m i = 0 := by
  constructor
  · rintro ⟨-, hexact, -⟩
    exact clear_of_exact hA htop hexact.head
  · intro hclear
    have h := @loaded_placed A maxsize cmpFun m hA htop h01 hclear
    obtain ⟨hkeeps, hexact⟩ := h.keeps hops (by
      show 0 + _ ≤ _
      omega)
    exact ⟨hkeeps, hexact, perm_inserted hops hkeeps hexact⟩

end Entries

lemma cmp_zero_or_one (x y : ℕ) : cmp x y = 0 ∨ cmp x y = 1 := by
  unfold cmp
  split_ifs <;> simp

/-- Of an array of 2 GiB nothing is cleared: behind its one entry are the bytes that were there. -/
theorem keeps_entries_fails :
    (inserted [.insert 5]).length ≤ 2 ^ 29 - 1 ∧
      Guarded step Proper (placed 0x1000 (2 ^ 29) (fun _ => cmp) fun _ => 1) [.insert 5] ∧
      ¬ Always step Exact (placed 0x1000 (2 ^ 29) (fun _ => cmp) fun _ => 1) [.insert 5] := by
  refine ⟨by decide, ⟨by decide, trivial⟩, fun h => ?_⟩
  have hfull := clear_of_exact (by decide) (by decide) h.head
  exact absurd (hfull.resolve_left (by decide) 0 (by decide)) (by decide)

theorem keeps_eight :
    Guarded step Keeps eight [.insert 5, .insert 7, .remove 1, .insert 7] ∧
      Always step Exact eight [.insert 5, .insert 7, .remove 1, .insert 7] ∧
      (([.insert 5, .insert 7, .remove 1, .insert 7].foldl step eight).entries ++
        eight.taken [.insert 5, .insert 7, .remove 1, .insert 7]).Perm [5, 7, 7] := by
  have hops : Guarded step Proper eight [.insert 5, .insert 7, .remove 1, .insert 7] :=
    ⟨by decide, by decide, by decide, by decide, trivial⟩
  have h := keeps_entries (by decide) (by decide) (fun _ => cmp_zero_or_one) (by decide) hops
  exact h.mpr (Or.inl (by decide))

end Index

end OsImplement.Memory
