import OsImplement.Lib.Bytes

/-!
Records in memory, byte by byte.

A record is a list of cells, bytes at addresses, that may lie anywhere and may leave gaps. What a
later record does to an earlier one is a question about the two lists alone: the earlier one is
still there exactly when the two agree on the addresses they share.
-/

namespace OsImplement.Lib.Cells

open Lib.Word Lib.Bytes

/-- Every cell is in memory. -/
def Holds (m : Mem) (cs : List (ℕ × UInt8)) : Prop := ∀ c ∈ cs, m c.1 = c.2

/-- The two records have the same bytes where they meet. -/
def Agree (cs ds : List (ℕ × UInt8)) : Prop := ∀ c ∈ cs, ∀ d ∈ ds, c.1 = d.1 → c.2 = d.2

instance (cs ds : List (ℕ × UInt8)) : Decidable (Agree cs ds) := by unfold Agree; infer_instance

/-- From `m` to `m'` the cells were stored, and nothing else. -/
structure Stores (m m' : Mem) (cs : List (ℕ × UInt8)) : Prop where
  holds : Holds m' cs
  frame : ∀ x, (∀ c ∈ cs, c.1 ≠ x) → m' x = m x

/-- The cells of a word. -/
def wordCells (a v : ℕ) : List (ℕ × UInt8) :=
  (List.range 4).map fun i => ((a + i) % 2 ^ 32, byteOf v i)

variable {m m' m'' : Mem} {cs ds : List (ℕ × UInt8)} {a v : ℕ}

lemma holds_append : Holds m (cs ++ ds) ↔ Holds m cs ∧ Holds m ds := List.forall_mem_append

lemma agree_append {es : List (ℕ × UInt8)} :
    Agree cs (ds ++ es) ↔ Agree cs ds ∧ Agree cs es := by
  simp only [Agree, List.forall_mem_append]
  exact ⟨fun h => ⟨fun c hc => (h c hc).1, fun c hc => (h c hc).2⟩,
    fun h c hc => ⟨h.1 c hc, h.2 c hc⟩⟩

lemma agree_of_apart (h : ∀ c ∈ cs, ∀ d ∈ ds, c.1 ≠ d.1) : Agree cs ds :=
  fun c hc d hd e => absurd e (h c hc d hd)

/-- **A record survives** what is stored after it exactly when the two agree. -/
theorem Stores.holds_iff (h : Stores m m' cs) (hd : Holds m ds) : Holds m' ds ↔ Agree cs ds := by
  constructor
  · intro hd' c hc d hd e
    rw [← h.holds c hc, ← hd' d hd, e]
  · intro hagree d hd'
    by_cases hmeet : ∃ c ∈ cs, c.1 = d.1
    · obtain ⟨c, hc, e⟩ := hmeet
      rw [← e, h.holds c hc]
      exact hagree c hc d hd' e
    · push Not at hmeet
      rw [h.frame d.1 hmeet, hd d hd']

lemma Stores.append (h : Stores m m' cs) (h' : Stores m' m'' ds) (ha : Agree ds cs) :
    Stores m m'' (cs ++ ds) where
  holds := holds_append.mpr ⟨(h'.holds_iff h.holds).mpr ha, h'.holds⟩
  frame x hx := by
    rw [h'.frame x fun d hd => hx d (List.mem_append_right _ hd),
      h.frame x fun c hc => hx c (List.mem_append_left _ hc)]

lemma Stores.writes {S : Set ℕ} (h : Stores m m' cs) (hS : ∀ c ∈ cs, c.1 ∈ S) : Writes m m' S := by
  intro x hx
  refine h.frame x fun c hc e => hx ?_
  exact e ▸ hS c hc

lemma Holds.frame {S : Set ℕ} (hw : Writes m m' S) (hS : ∀ c ∈ cs, c.1 ∉ S) :
    Holds m' cs ↔ Holds m cs := by
  constructor <;> intro h c hc
  · rw [← h c hc, hw (hS c hc)]
  · rw [← h c hc, hw (hS c hc)]

/-! ### Bytes and words -/

lemma stores_write8 {c : UInt8} : Stores m (write8 m a c) [(a % 2 ^ 32, c)] where
  holds := by
    intro d hd
    rw [List.mem_singleton] at hd
    subst hd
    exact if_pos rfl
  frame x hx := if_neg fun e => hx _ (List.mem_singleton.mpr rfl) e.symm

lemma mem_wordCells {c : ℕ × UInt8} :
    c ∈ wordCells a v ↔ ∃ i < 4, c = ((a + i) % 2 ^ 32, byteOf v i) := by
  simp only [wordCells, List.mem_map, List.mem_range]
  constructor <;> rintro ⟨i, hi, h⟩
  · exact ⟨i, hi, h.symm⟩
  · exact ⟨i, hi, h.symm⟩

lemma stores_write32 : Stores m (write32 m a v) (wordCells a v) := by
  have h0 : Stores m (write8 m a (byteOf v 0)) [(a % 2 ^ 32, byteOf v 0)] := stores_write8
  have h1 := h0.append (stores_write8 (a := a + 1) (c := byteOf v 1))
    (agree_of_apart (by simp; omega))
  have h2 := h1.append (stores_write8 (a := a + 2) (c := byteOf v 2))
    (agree_of_apart (by simp; omega))
  exact h2.append (stores_write8 (a := a + 3) (c := byteOf v 3)) (agree_of_apart (by simp; omega))

theorem holds_wordCells (hv : v < 2 ^ 32) : Holds m (wordCells a v) ↔ read32 m a = v := by
  have hs : Stores m (write32 m a v) (wordCells a v) := stores_write32
  constructor
  · intro h
    rw [← read32_write32 hv (m := m) (a := a)]
    refine read32_congr fun i hi => ?_
    have hc : ((a + i) % 2 ^ 32, byteOf v i) ∈ wordCells a v := mem_wordCells.mpr ⟨i, hi, rfl⟩
    exact (h _ hc).trans (hs.holds _ hc).symm
  · rintro rfl c hc
    obtain ⟨i, hi, rfl⟩ := mem_wordCells.mp hc
    have hb (x : ℕ) : (read8 m x).toNat < 256 := UInt8.toNat_lt _
    have h0 := hb a
    have h1 := hb (a + 1)
    have h2 := hb (a + 2)
    have h3 := hb (a + 3)
    apply UInt8.toNat_inj.mp
    rw [byteOf_toNat]
    show (read8 m (a + i)).toNat = _
    unfold read32
    rcases (show i = 0 ∨ i = 1 ∨ i = 2 ∨ i = 3 by omega) with rfl | rfl | rfl | rfl
    · rw [Nat.add_zero]
      omega
    · omega
    · omega
    · omega

end OsImplement.Lib.Cells
