import OsImplement.Memory.HeapIndex
import OsImplement.Lib.Interval

/-!
The layout of a sound heap.

Every listed hole has a region of its own, in which its header lies and which its size stays
within, and every block that was handed out has its payload; all of these are apart. The last hole
owns everything up to the top: its recorded size may reach beyond the end of the heap, and it is
`end_address` that keeps blocks inside.
-/

namespace OsImplement.Memory

open Lib.Word Lib.Bytes Lib.Interval

/-- Beyond all addresses. -/
def TOP : ℕ := 2 ^ 33

/-- A listed hole, with the end of its region. -/
structure HoleOk (lo end_ : ℕ) (m : Mem) (h : ℕ × ℕ) : Prop where
  lo : lo ≤ h.1
  header : h.1 + 12 ≤ h.2
  word : h.1 + 12 ≤ 2 ^ 32
  room : h.1 + headerSize m h.1 ≤ h.2
  tail : h.2 = TOP ∨ h.1 + headerSize m h.1 < end_

/-- A sound heap with its index at `A`. -/
structure HeapInv (A : ℕ) (holes blocks : List (ℕ × ℕ)) (k : Kernel) : Prop where
  listed : Listed A k.heap.index k.mem (holes.map Prod.fst)
  start : k.heap.startAddress = A + 4 * HEAP_INDEX_SIZE
  endLt : k.heap.endAddress < 2 ^ 32
  startLe : holes = [] → A + 4 * HEAP_INDEX_SIZE ≤ k.heap.endAddress
  hole : ∀ h ∈ holes, HoleOk (A + 4 * HEAP_INDEX_SIZE) k.heap.endAddress k.mem h
  block : ∀ b ∈ blocks, A + 4 * HEAP_INDEX_SIZE ≤ b.1 ∧ b.2 ≤ k.heap.endAddress
  apart : (holes ++ blocks).Pairwise Apart

/-! ### Tags -/

section Tags

variable {m m' : Mem} {p q f v isHole lo hi : ℕ}

lemma headerSize_lt (m : Mem) (p : ℕ) : headerSize m p < 2 ^ 32 := read32_lt _ _

lemma headerSize_of_writes {S : Set ℕ} (h : Writes m m' S) (hp : p + 12 ≤ 2 ^ 32)
    (hS : ∀ x ∈ S, x < p + 8 ∨ p + 12 ≤ x) : headerSize m' p = headerSize m p := by
  unfold headerSize
  rw [add32_eq (by omega)]
  refine h.read32 (by omega) fun x h1 h2 hx => ?_
  have := hS x hx
  omega

lemma headerSize_setHeaderSize (hp : p + 12 ≤ 2 ^ 32) (hv : v < 2 ^ 32) :
    headerSize (setHeaderSize p v m) p = v := by
  unfold headerSize setHeaderSize
  rw [add32_eq (by omega)]
  exact read32_write32 hv

lemma writes_setHeaderSize (hlo : lo ≤ p) (hhi : p + 12 ≤ hi) (hp : p + 12 ≤ 2 ^ 32) :
    Writes m (setHeaderSize p v m) (Set.Ico lo hi) := by
  unfold setHeaderSize
  rw [add32_eq (by omega)]
  exact Writes.write32 (by omega) (by omega) (by omega)

lemma headerSize_writeHeader (hp : p + 12 ≤ 2 ^ 32) (hv : v < 2 ^ 32) :
    headerSize (writeHeader p isHole v m) p = v := by
  have hmod : p % 2 ^ 32 = p := Nat.mod_eq_of_lt (by omega)
  have h : headerSize (writeHeader p isHole v m) p =
      headerSize (setHeaderSize p v (write32 m (add32 p 4) HEAP_MAGIC)) p := by
    have h8 : add32 p 8 = p + 8 := add32_eq (by omega)
    unfold writeHeader headerSize
    rw [h8]
    exact read32_write8_ne (by omega) (by omega)
  rw [h, headerSize_setHeaderSize hp hv]

lemma writes_writeHeader_of {S : Set ℕ} (h : ∀ i < 12, (p + i) % 2 ^ 32 ∈ S) :
    Writes m (writeHeader p isHole v m) S := by
  unfold writeHeader setHeaderSize
  refine ((Writes.write32_of fun i hi => ?_).trans (Writes.write32_of fun i hi => ?_)).trans
    (Writes.write8 (h 0 (by decide)))
  · rw [add32, Nat.mod_add_mod, Nat.add_assoc]
    exact h (4 + i) (by omega)
  · rw [add32, Nat.mod_add_mod, Nat.add_assoc]
    exact h (8 + i) (by omega)

lemma writes_writeHeader (hlo : lo ≤ p) (hhi : p + 12 ≤ hi) (hp : p + 12 ≤ 2 ^ 32) :
    Writes m (writeHeader p isHole v m) (Set.Ico lo hi) := by
  refine writes_writeHeader_of fun i hi => ?_
  rw [Nat.mod_eq_of_lt (by omega)]
  exact ⟨by omega, by omega⟩

lemma writes_writeFooter_of {S : Set ℕ} (h : ∀ i < 8, (f + i) % 2 ^ 32 ∈ S) :
    Writes m (writeFooter f q m) S := by
  unfold writeFooter
  refine (Writes.write32_of fun i hi => h i (by omega)).trans (Writes.write32_of fun i hi => ?_)
  rw [add32, Nat.mod_add_mod, Nat.add_assoc]
  exact h (4 + i) (by omega)

lemma writes_writeFooter (hlo : lo ≤ f) (hhi : f + 8 ≤ hi) (hf : f + 8 ≤ 2 ^ 32) :
    Writes m (writeFooter f q m) (Set.Ico lo hi) := by
  refine writes_writeFooter_of fun i hi => ?_
  rw [Nat.mod_eq_of_lt (by omega)]
  exact ⟨by omega, by omega⟩

end Tags

/-! ### Holes in a layout -/

section Holes

variable {A i : ℕ} {holes blocks : List (ℕ × ℕ)} {k k' : Kernel} {m : Mem} {x y : ℕ × ℕ}

/-- The layout is one of the heap and its memory, whatever else changes. -/
lemma HeapInv.congr (h : HeapInv A holes blocks k) (hm : k'.mem = k.mem)
    (hh : k'.heap = k.heap) : HeapInv A holes blocks k' := by
  obtain ⟨h1, h2, h3, h4, h5, h6, h7⟩ := h
  rw [← hh] at h1 h2 h3 h4 h5 h6
  rw [← hm] at h1 h5
  exact ⟨h1, h2, h3, h4, h5, h6, h7⟩

lemma HeapInv.apart_of_ne (h : HeapInv A holes blocks k) (hx : x ∈ holes) (hy : y ∈ holes)
    (hne : x.1 ≠ y.1) : Apart x y :=
  h.apart.forall (List.mem_append_left _ hx) (List.mem_append_left _ hy) fun e => hne (e ▸ rfl)

/-- What is written in the region of a hole, or in the index, leaves the sizes of the others. -/
lemma HeapInv.headerSize_other (h : HeapInv A holes blocks k) (hx : x ∈ holes)
    (hw : Writes k.mem m (Set.Ico A (A + 4 * HEAP_INDEX_SIZE) ∪ Set.Ico x.1 x.2)) (hy : y ∈ holes)
    (hne : y.1 ≠ x.1) : headerSize m y.1 = headerSize k.mem y.1 := by
  obtain ⟨hlo, hheader, hword, -, -⟩ := h.hole y hy
  have hapart := h.apart_of_ne hy hx hne
  refine headerSize_of_writes hw hword fun z hz => ?_
  rcases hz with hz | hz
  · have := hz.2
    omega
  · have h1 := hz.1
    have h2 := hz.2
    unfold Apart at hapart
    omega

/-- From `m` to `m'` no byte of the blocks has changed. -/
def Untouched (blocks : List (ℕ × ℕ)) (m m' : Mem) : Prop :=
  ∀ b ∈ blocks, Set.EqOn m' m (Set.Ico b.1 b.2)

lemma Untouched.refl (blocks : List (ℕ × ℕ)) (m : Mem) : Untouched blocks m m :=
  fun _ _ _ _ => rfl

lemma Untouched.trans {m m' m'' : Mem} (h : Untouched blocks m m') (h' : Untouched blocks m' m'') :
    Untouched blocks m m'' :=
  fun b hb _ hx => (h' b hb hx).trans (h b hb hx)

lemma Untouched.of_append {extra : List (ℕ × ℕ)} {m m' : Mem}
    (h : Untouched (extra ++ blocks) m m') : Untouched blocks m m' :=
  fun b hb => h b (List.mem_append_right extra hb)

lemma HeapInv.untouched (h : HeapInv A holes blocks k) (hx : x ∈ holes)
    (hw : Writes k.mem m (Set.Ico A (A + 4 * HEAP_INDEX_SIZE) ∪ Set.Ico x.1 x.2)) :
    Untouched blocks k.mem m := by
  intro b hb z hz
  have hlo := (h.block b hb).1
  have hapart := (List.pairwise_append.mp h.apart).2.2 x hx b hb
  refine hw fun hin => ?_
  have h1 := hz.1
  have h2 := hz.2
  rcases hin with hin | hin
  · have := hin.2
    omega
  · have h3 := hin.1
    have h4 := hin.2
    unfold Apart at hapart
    omega

lemma HeapInv.mem_eraseIdx (h : HeapInv A holes blocks k) (hi : i < holes.length)
    (hx : x ∈ holes.eraseIdx i) : x ∈ holes ∧ x.1 ≠ holes[i].1 := by
  have hperm := List.getElem_cons_eraseIdx_perm hi
  have hxh : x ∈ holes := hperm.subset (List.mem_cons_of_mem _ hx)
  have hap := (pairwise_perm hperm).mpr (List.pairwise_append.mp h.apart).1
  have hxi := (List.pairwise_cons.mp hap).1 x hx
  have h1 := (h.hole x hxh).header
  have h2 := (h.hole _ (List.getElem_mem hi)).header
  refine ⟨hxh, fun e => ?_⟩
  unfold Apart at hxi
  omega

end Holes

end OsImplement.Memory
