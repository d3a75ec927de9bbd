import Mathlib.Data.List.Induction

/-!
Loops over an initial segment of the natural numbers. The invariant of such a loop speaks of the
number of rounds done.
-/

namespace OsImplement.Lib.Loop

variable {σ : Type*}

/-- The loop rule for a body that may fail: what every round that succeeds keeps holds when the
whole loop has succeeded. -/
theorem foldlM_range_inv {f : σ → ℕ → Option σ} {P : ℕ → σ → Prop} {s : σ} (h₀ : P 0 s) :
    ∀ {N : ℕ} {s' : σ},
      (∀ n < N, ∀ t t', P n t → f t n = some t' → P (n + 1) t') →
      (List.range N).foldlM f s = some s' → P N s' := by
  intro N
  induction N with
  | zero =>
    intro s' _ h
    obtain rfl : s = s' := by simpa using h
    exact h₀
  | succ N ih =>
    intro s' hstep h
    rw [List.range_succ, List.foldlM_append] at h
    obtain ⟨t, ht, h⟩ := Option.bind_eq_some_iff.mp h
    refine hstep N (by omega) t s' (ih (fun n hn => hstep n (by omega)) ht) ?_
    simpa using h

theorem foldlM_range_some {f : σ → ℕ → Option σ} {P : ℕ → σ → Prop} {s : σ} (h₀ : P 0 s) :
    ∀ {N : ℕ}, (∀ n < N, ∀ t, P n t → ∃ t', f t n = some t' ∧ P (n + 1) t') →
      ∃ s', (List.range N).foldlM f s = some s' ∧ P N s' := by
  intro N
  induction N with
  | zero => exact fun _ => ⟨s, rfl, h₀⟩
  | succ N ih =>
    intro hstep
    obtain ⟨t, ht, hP⟩ := ih fun n hn => hstep n (by omega)
    obtain ⟨t', ht', hP'⟩ := hstep N (by omega) t hP
    refine ⟨t', ?_, hP'⟩
    rw [List.range_succ, List.foldlM_append, ht]
    simpa using ht'

theorem foldl_range_inv {f : σ → ℕ → σ} {P : ℕ → σ → Prop} {s : σ} {N : ℕ} (h₀ : P 0 s)
    (hstep : ∀ n < N, ∀ t, P n t → P (n + 1) (f t n)) : P N ((List.range N).foldl f s) := by
  induction N with
  | zero => exact h₀
  | succ N ih =>
    rw [List.range_succ, List.foldl_append]
    exact hstep N (by omega) _ (ih fun n hn => hstep n (by omega))

end OsImplement.Lib.Loop
