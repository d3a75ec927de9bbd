import Mathlib.Data.List.Basic

/-!
Tilings: lists of addresses, each followed by the next at the distance that its size says.
-/

namespace OsImplement.Lib.Tiling

/-- The tiles at `xs` fill `[lo, hi)`. -/
def Tiles (size : ℕ → ℕ) : ℕ → List ℕ → ℕ → Prop
  | lo, [], hi => lo = hi
  | lo, x :: xs, hi => x = lo ∧ 0 < size x ∧ Tiles size (lo + size x) xs hi

variable {size size' : ℕ → ℕ} {lo mid hi x y : ℕ} {xs ys : List ℕ}

lemma Tiles.le : ∀ {xs : List ℕ} {lo : ℕ}, Tiles size lo xs hi → lo ≤ hi
  | [], _, h => Nat.le_of_eq h
  | _ :: _, _, h => Nat.le_trans (Nat.le_add_right _ _) h.2.2.le

lemma tiles_singleton : Tiles size lo [x] hi ↔ x = lo ∧ 0 < size x ∧ x + size x = hi := by
  constructor
  · rintro ⟨rfl, h0, h⟩
    exact ⟨rfl, h0, h⟩
  · rintro ⟨rfl, h0, h⟩
    exact ⟨rfl, h0, h⟩

theorem tiles_append :
    ∀ {xs : List ℕ} {lo : ℕ},
      Tiles size lo (xs ++ ys) hi ↔ ∃ mid, Tiles size lo xs mid ∧ Tiles size mid ys hi
  | [], lo => ⟨fun h => ⟨lo, rfl, h⟩, by rintro ⟨_, rfl, h⟩; exact h⟩
  | x :: xs, lo => by
    constructor
    · rintro ⟨hx, h0, h⟩
      obtain ⟨mid, h1, h2⟩ := tiles_append.mp h
      exact ⟨mid, ⟨hx, h0, h1⟩, h2⟩
    · rintro ⟨mid, ⟨hx, h0, h1⟩, h2⟩
      exact ⟨hx, h0, tiles_append.mpr ⟨mid, h1, h2⟩⟩

theorem Tiles.mem : ∀ {xs : List ℕ} {lo : ℕ}, Tiles size lo xs hi → x ∈ xs →
    lo ≤ x ∧ 0 < size x ∧ x + size x ≤ hi
  | y :: ys, lo, ⟨hy, h0, h⟩, hx => by
    rcases List.mem_cons.mp hx with rfl | hx
    · exact ⟨Nat.le_of_eq hy.symm, h0, hy ▸ h.le⟩
    · obtain ⟨h1, h2, h3⟩ := h.mem hx
      exact ⟨by omega, h2, h3⟩

theorem Tiles.congr : ∀ {xs : List ℕ} {lo : ℕ}, Tiles size lo xs hi →
    (∀ x ∈ xs, size' x = size x) → Tiles size' lo xs hi
  | [], _, h, _ => h
  | x :: xs, lo, ⟨hx, h0, h⟩, heq => by
    have hs := heq x (List.mem_cons_self ..)
    refine ⟨hx, by omega, ?_⟩
    rw [hs]
    exact h.congr fun y hy => heq y (List.mem_cons_of_mem _ hy)

theorem Tiles.end_unique : ∀ {xs : List ℕ} {lo : ℕ}, Tiles size lo xs hi → Tiles size lo xs mid →
    hi = mid
  | [], _, h, h' => h.symm.trans h'
  | _ :: _, _, ⟨_, _, h⟩, ⟨_, _, h'⟩ => h.end_unique h'

theorem Tiles.apart (h : Tiles size lo xs hi) (hx : x ∈ xs) (hy : y ∈ xs) (hlt : x < y) :
    x + size x ≤ y := by
  obtain ⟨pre, post, rfl⟩ := List.append_of_mem hx
  obtain ⟨mid, h1, rfl, h0, h2⟩ := tiles_append.mp h
  rcases List.mem_append.mp hy with hy | hy
  · have := (h1.mem hy).2.2
    omega
  · rcases List.mem_cons.mp hy with rfl | hy
    · omega
    · exact (h2.mem hy).1

theorem Tiles.nodup : ∀ {xs : List ℕ} {lo : ℕ}, Tiles size lo xs hi → xs.Nodup
  | [], _, _ => List.nodup_nil
  | x :: xs, lo, ⟨hx, h0, h⟩ => by
    refine List.nodup_cons.mpr ⟨fun hmem => ?_, h.nodup⟩
    have := (h.mem hmem).1
    omega

theorem tiles_concat :
    Tiles size lo (xs ++ [x]) hi ↔ Tiles size lo xs x ∧ 0 < size x ∧ x + size x = hi := by
  rw [tiles_append]
  constructor
  · rintro ⟨mid, h1, h2⟩
    obtain ⟨rfl, h3⟩ := tiles_singleton.mp h2
    exact ⟨h1, h3⟩
  · rintro ⟨h1, h2⟩
    exact ⟨x, h1, tiles_singleton.mpr ⟨rfl, h2⟩⟩

lemma Tiles.le_last (h : Tiles size lo (xs ++ [x]) hi) (hy : y ∈ xs ++ [x]) : y ≤ x := by
  by_contra hlt
  have h1 := h.apart (List.mem_append_right _ (List.mem_singleton.mpr rfl)) hy (Nat.lt_of_not_le hlt)
  have h2 := (h.mem hy).2
  have h3 := (tiles_concat.mp h).2
  omega

end OsImplement.Lib.Tiling
