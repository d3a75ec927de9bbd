import Mathlib.Data.List.Perm.Basic
import Mathlib.Data.List.Pairwise
import Mathlib.Order.Defs.Unbundled

/-!
Half-open intervals of natural numbers, given by their two ends, and lists of intervals that are
pairwise apart.
-/

namespace OsImplement.Lib.Interval

variable {x y x' y' : ℕ × ℕ} {l l' pieces rest : List (ℕ × ℕ)}

/-- One lies wholly before the other. -/
def Apart (x y : ℕ × ℕ) : Prop := x.2 ≤ y.1 ∨ y.2 ≤ x.1

def Within (x y : ℕ × ℕ) : Prop := y.1 ≤ x.1 ∧ x.2 ≤ y.2

lemma Apart.symm (h : Apart x y) : Apart y x := Or.symm h

instance : Std.Symm Apart := ⟨fun _ _ h => h.symm⟩

lemma Within.refl : Within x x := ⟨Nat.le_refl _, Nat.le_refl _⟩

lemma Apart.mono (h : Apart x y) (hx : Within x' x) (hy : Within y' y) : Apart x' y' := by
  have := hx.1
  have := hx.2
  have := hy.1
  have := hy.2
  unfold Apart at h ⊢
  omega

lemma pairwise_perm (h : l.Perm l') : l.Pairwise Apart ↔ l'.Pairwise Apart :=
  h.pairwise_iff fun h => h.symm

theorem pairwise_replace (h : (x :: rest).Pairwise Apart) (hp : pieces.Pairwise Apart)
    (hin : ∀ y ∈ pieces, Within y x) : (pieces ++ rest).Pairwise Apart := by
  obtain ⟨hx, hrest⟩ := List.pairwise_cons.mp h
  exact List.pairwise_append.mpr
    ⟨hp, hrest, fun y hy z hz => (hx z hz).mono (hin y hy) Within.refl⟩

end OsImplement.Lib.Interval
