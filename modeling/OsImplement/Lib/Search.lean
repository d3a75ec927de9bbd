import Mathlib.Data.List.Basic

/-!
The first hit of a search over `0, …, n - 1`, the shape of a counting loop that returns early.
-/

namespace OsImplement.Lib.Search

variable {β : Type*} {n : ℕ} {f : ℕ → Option β} {b : β}

lemma range_eq_append {l₁ l₂ : List ℕ} {i : ℕ} (h : List.range n = l₁ ++ i :: l₂) :
    i < n ∧ l₁ = List.range i := by
  have hlen := congrArg List.length h
  simp only [List.length_range, List.length_append, List.length_cons] at hlen
  have hi := congrArg (fun l => l[l₁.length]?) h
  simp only [List.getElem?_range (show l₁.length < n by omega)] at hi
  have hil : l₁.length = i := by simpa using hi
  refine ⟨by omega, ?_⟩
  have ht := congrArg (List.take i) h
  rw [List.take_left' hil, List.take_range, Nat.min_eq_left (by omega)] at ht
  exact ht.symm

theorem findSome_range_some (h : (List.range n).findSome? f = some b) :
    ∃ i < n, f i = some b ∧ ∀ j < i, f j = none := by
  obtain ⟨l₁, i, l₂, hl, hi, hl₁⟩ := List.findSome?_eq_some_iff.mp h
  obtain ⟨hin, rfl⟩ := range_eq_append hl
  exact ⟨i, hin, hi, fun j hj => hl₁ j (List.mem_range.mpr hj)⟩

theorem findSome_range_none : (List.range n).findSome? f = none ↔ ∀ i < n, f i = none := by
  simp [List.findSome?_eq_none_iff]

end OsImplement.Lib.Search
