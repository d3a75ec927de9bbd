import OsImplement.Lib.Loop
import OsImplement.Lib.Word
import Mathlib.Data.Set.Function
import Mathlib.Order.Interval.Set.Basic

/-!
A byte memory with 32-bit addresses and little-endian 32-bit words.

An access reduces its addresses, so it wraps at the top of memory. Frame reasoning goes through
`Writes m m' S`: from `m` to `m'` only bytes of the set `S` changed.
-/

namespace OsImplement.Lib.Bytes

open Lib.Word

/-- A memory; only addresses below `2 ^ 32` are ever accessed. -/
abbrev Mem := ℕ → UInt8

/-- Byte `i` of a word. -/
def byteOf (v i : ℕ) : UInt8 := UInt8.ofNat (v / 256 ^ i % 256)

def read8 (m : Mem) (a : ℕ) : UInt8 := m (a % 2 ^ 32)

def write8 (m : Mem) (a : ℕ) (v : UInt8) : Mem := fun x => if x = a % 2 ^ 32 then v else m x

def read32 (m : Mem) (a : ℕ) : ℕ :=
  (read8 m a).toNat + 256 * (read8 m (a + 1)).toNat + 65536 * (read8 m (a + 2)).toNat +
    16777216 * (read8 m (a + 3)).toNat

def write32 (m : Mem) (a v : ℕ) : Mem :=
  write8 (write8 (write8 (write8 m a (byteOf v 0)) (a + 1) (byteOf v 1)) (a + 2) (byteOf v 2))
    (a + 3) (byteOf v 3)

/-- `len` bytes from `a` on are set to `v`. -/
def fill (m : Mem) (a len : ℕ) (v : UInt8) : Mem := fun x => if sub32 x a < len then v else m x

/-- `count` bytes from `src` on are copied upwards to `dst`. -/
def copy (m : Mem) (dst src count : ℕ) : Mem :=
  (List.range count).foldl (fun m n => write8 m (dst + n) (read8 m (src + n))) m

/-! ### Words -/

section Words

variable {m m' : Mem} {a b v : ℕ}

lemma read32_lt (m : Mem) (a : ℕ) : read32 m a < 2 ^ 32 := by
  have h (x : ℕ) : (read8 m x).toNat < 256 := UInt8.toNat_lt _
  have h0 := h a
  have h1 := h (a + 1)
  have h2 := h (a + 2)
  have h3 := h (a + 3)
  unfold read32
  omega

lemma read8_write8 : read8 (write8 m a c) b = if b % 2 ^ 32 = a % 2 ^ 32 then c else read8 m b :=
  rfl

lemma byteOf_toNat (v i : ℕ) : (byteOf v i).toNat = v / 256 ^ i % 256 := by
  unfold byteOf
  simp

theorem read32_write32 (hv : v < 2 ^ 32) : read32 (write32 m a v) a = v := by
  have h01 : ¬ a % 2 ^ 32 = (a + 1) % 2 ^ 32 := by omega
  have h02 : ¬ a % 2 ^ 32 = (a + 2) % 2 ^ 32 := by omega
  have h03 : ¬ a % 2 ^ 32 = (a + 3) % 2 ^ 32 := by omega
  have h12 : ¬ (a + 1) % 2 ^ 32 = (a + 2) % 2 ^ 32 := by omega
  have h13 : ¬ (a + 1) % 2 ^ 32 = (a + 3) % 2 ^ 32 := by omega
  have h23 : ¬ (a + 2) % 2 ^ 32 = (a + 3) % 2 ^ 32 := by omega
  unfold read32 write32
  simp only [read8_write8, h01, h02, h03, h12, h13, h23, if_true, if_false, byteOf_toNat]
  omega

lemma read32_eq_of_bytes (h : ∀ i < 4, m' ((b + i) % 2 ^ 32) = m ((a + i) % 2 ^ 32)) :
    read32 m' b = read32 m a := by
  have h0 := h 0 (by decide)
  have h1 := h 1 (by decide)
  have h2 := h 2 (by decide)
  have h3 := h 3 (by decide)
  unfold read32 read8
  rw [h1, h2, h3, show b % 2 ^ 32 = (b + 0) % 2 ^ 32 from rfl, h0]
  rfl

lemma read32_congr (h : ∀ i < 4, m' ((a + i) % 2 ^ 32) = m ((a + i) % 2 ^ 32)) :
    read32 m' a = read32 m a :=
  read32_eq_of_bytes h

end Words

/-! ### What a write leaves alone -/

/-- From `m` to `m'` only bytes of `S` changed. -/
def Writes (m m' : Mem) (S : Set ℕ) : Prop := Set.EqOn m' m Sᶜ

namespace Writes

variable {m m' m'' : Mem} {S T : Set ℕ} {a v lo hi : ℕ}

lemma refl (m : Mem) (S : Set ℕ) : Writes m m S := fun _ _ => rfl

lemma mono (h : Writes m m' S) (hST : S ⊆ T) : Writes m m' T :=
  fun _ hx => h fun hS => hx (hST hS)

lemma trans (h : Writes m m' S) (h' : Writes m' m'' S) : Writes m m'' S :=
  fun _ hx => (h' hx).trans (h hx)

lemma write8 {c : UInt8} (ha : a % 2 ^ 32 ∈ S) : Writes m (write8 m a c) S := by
  intro x hx
  refine if_neg ?_
  rintro rfl
  exact hx ha

lemma write32_of (h : ∀ i < 4, (a + i) % 2 ^ 32 ∈ S) : Writes m (write32 m a v) S := by
  unfold Bytes.write32
  exact (((write8 (h 0 (by decide))).trans (write8 (h 1 (by decide)))).trans
    (write8 (h 2 (by decide)))).trans (write8 (h 3 (by decide)))

lemma write32 (hlo : lo ≤ a) (hhi : a + 4 ≤ hi) (htop : a + 4 ≤ 2 ^ 32) :
    Writes m (write32 m a v) (Set.Ico lo hi) := by
  refine write32_of fun i hi => ?_
  rw [Nat.mod_eq_of_lt (by omega)]
  exact ⟨by omega, by omega⟩

lemma fill {len : ℕ} {c : UInt8} (h : a + len ≤ 2 ^ 32) :
    Writes m (Bytes.fill m a len c) (Set.Ici a) := by
  intro x hx
  have hlt : x < a := by simpa using hx
  refine if_neg ?_
  unfold sub32
  omega

lemma read32 (h : Writes m m' S) (htop : a + 4 ≤ 2 ^ 32) (hS : ∀ x, a ≤ x → x < a + 4 → x ∉ S) :
    read32 m' a = read32 m a := by
  refine read32_congr fun i hi => ?_
  rw [Nat.mod_eq_of_lt (by omega)]
  exact h (hS _ (by omega) (by omega))

lemma read8 (h : Writes m m' S) (ha : a % 2 ^ 32 ∉ S) : read8 m' a = read8 m a := h ha

end Writes

lemma read32_write32_ne {m : Mem} {a b v : ℕ} (ha : a + 4 ≤ 2 ^ 32) (hb : b + 4 ≤ 2 ^ 32)
    (h : a + 4 ≤ b ∨ b + 4 ≤ a) : read32 (write32 m b v) a = read32 m a :=
  (Writes.write32 (v := v) le_rfl le_rfl hb).read32 ha fun x h1 h2 hx => by
    have := hx.1; have := hx.2; omega

lemma read32_write8_ne {m : Mem} {a b : ℕ} {c : UInt8} (ha : a + 4 ≤ 2 ^ 32)
    (h : b % 2 ^ 32 < a ∨ a + 4 ≤ b % 2 ^ 32) : read32 (write8 m b c) a = read32 m a := by
  refine read32_congr fun i hi => if_neg ?_
  rw [Nat.mod_eq_of_lt (by omega)]
  omega

/-- Words on one grid of words do not overlap, also where one of them wraps. -/
lemma read32_write32_grid {m : Mem} {a b v : ℕ} (ha : a < 2 ^ 32) (hb : b < 2 ^ 32)
    (h4 : a % 4 = b % 4) (hne : a ≠ b) : read32 (write32 m b v) a = read32 m a := by
  refine read32_congr fun i hi => ?_
  have hw : Writes m (write32 m b v) (Set.image (fun j => (b + j) % 2 ^ 32) (Set.Iio 4)) :=
    Writes.write32_of fun j hj => ⟨j, hj, rfl⟩
  refine hw ?_
  rintro ⟨j, hj, h⟩
  have hj : j < 4 := hj
  have h : (b + j) % 2 ^ 32 = (a + i) % 2 ^ 32 := h
  omega

/-! ### Filled memory -/

lemma read32_fill_zero {m : Mem} {a b len : ℕ} (h1 : a ≤ b) (h2 : b + 4 ≤ a + len)
    (h3 : b + 4 ≤ 2 ^ 32) : read32 (fill m a len 0) b = 0 := by
  have h : ∀ i < 4, read8 (fill m a len 0) (b + i) = 0 := by
    intro i hi
    unfold read8 fill
    rw [Nat.mod_eq_of_lt (by omega), sub32_eq (by omega) (by omega), if_pos (by omega)]
  have h0 := h 0 (by decide)
  rw [Nat.add_zero] at h0
  unfold read32
  rw [h0, h 1 (by decide), h 2 (by decide), h 3 (by decide)]
  simp

/-! ### Copied memory -/

section Copy

variable {m : Mem} {dst src count : ℕ}

lemma copy_writes (m : Mem) (dst src count : ℕ) :
    Writes m (copy m dst src count) {x | ∃ n < count, x = (dst + n) % 2 ^ 32} := by
  apply Loop.foldl_range_inv (P := fun _ t => Writes m t {x | ∃ n < count, x = (dst + n) % 2 ^ 32})
  · exact .refl _ _
  · intro n hn t ht
    exact ht.trans (Writes.write8 ⟨n, hn, rfl⟩)

theorem copy_eq (hcount : count ≤ 2 ^ 32)
    (hapart : ∀ i < count, ∀ j < count, (dst + i) % 2 ^ 32 ≠ (src + j) % 2 ^ 32) :
    ∀ i < count, read8 (copy m dst src count) (dst + i) = read8 m (src + i) := by
  -- the first `n` bytes are there, and the source is still as it was
  have key : (∀ i < count, read8 (copy m dst src count) (dst + i) = read8 m (src + i)) ∧
      ∀ j < count, read8 (copy m dst src count) (src + j) = read8 m (src + j) := by
    apply Loop.foldl_range_inv (P := fun n t =>
      (∀ i < n, read8 t (dst + i) = read8 m (src + i)) ∧
        ∀ j < count, read8 t (src + j) = read8 m (src + j))
    · exact ⟨fun i hi => absurd hi (by omega), fun j _ => rfl⟩
    · rintro n hn t ⟨hdone, hsrc⟩
      constructor
      · intro i hi
        rw [read8_write8]
        by_cases hin : i = n
        · rw [if_pos (by rw [hin]), hin, hsrc n hn]
        · rw [if_neg (by omega), hdone i (by omega)]
      · intro j hj
        rw [read8_write8, if_neg fun h => hapart n hn j hj h.symm, hsrc j hj]
  exact key.1

lemma read32_copy {j : ℕ} (hdst : dst + count ≤ 2 ^ 32) (hsrc : src + count ≤ 2 ^ 32)
    (hapart : dst + count ≤ src ∨ src + count ≤ dst) (hj : j + 4 ≤ count) :
    read32 (copy m dst src count) (dst + j) = read32 m (src + j) := by
  apply read32_eq_of_bytes
  intro i hi
  have hbyte := copy_eq (m := m) (by omega : count ≤ 2 ^ 32)
    (fun i hi j hj => by omega : ∀ i < count, ∀ j < count, (dst + i) % 2 ^ 32 ≠ (src + j) % 2 ^ 32)
    (j + i) (by omega)
  rw [← Nat.add_assoc, ← Nat.add_assoc] at hbyte
  exact hbyte

end Copy

end OsImplement.Lib.Bytes
