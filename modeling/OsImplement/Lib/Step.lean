import Mathlib.Data.List.Induction

/-!
Runs of a step system.

A *total* system is a step function `σ → α → σ`: `Always` says that a property holds in every
state of a run and `Guarded` that a condition holds before every step, and `always_iff_guarded`
turns three facts about one step into the exact condition for a whole run. A *labelled* system is
a relation `σ → α → σ → Prop`, and `Run.inv` is its induction rule, with the labels read so far
at hand.
-/

namespace OsImplement.Lib.Step

variable {σ α : Type*}

/-! ### Total systems -/

section Total

variable (step : σ → α → σ)

/-- `P` holds in every state of the run of `as` from `s`, both ends included. -/
def Always (P : σ → Prop) : σ → List α → Prop
  | s, [] => P s
  | s, a :: as => P s ∧ Always P (step s a) as

/-- `C` holds at every step of the run of `as` from `s`, in the state before the step. -/
def Guarded (C : σ → α → Prop) : σ → List α → Prop
  | _, [] => True
  | s, a :: as => C s a ∧ Guarded C (step s a) as

variable {step}

lemma Always.head {P : σ → Prop} {s : σ} : ∀ {as : List α}, Always step P s as → P s
  | [], h => h
  | _ :: _, h => h.1

lemma Always.last {P : σ → Prop} : ∀ {as : List α} {s : σ}, Always step P s as → P (as.foldl step s)
  | [], _, h => h
  | _ :: _, _, h => h.2.last

/-- **The exact condition of a run.** Take a run whose steps all meet `G`. If steps that also meet
`C` keep the invariant `I`, `I` gives `P`, and a step from a state with `I` that does not meet `C`
leads out of `P`, then `P` holds in every state of the run exactly when all its steps meet `C`. -/
theorem always_iff_guarded_of {I P : σ → Prop} {G C : σ → α → Prop} (hP : ∀ s, I s → P s)
    (hkeep : ∀ s a, I s → G s a → C s a → I (step s a))
    (hbreak : ∀ s a, I s → G s a → ¬ C s a → ¬ P (step s a)) :
    ∀ {as : List α} {s : σ}, I s → Guarded step G s as →
      (Always step P s as ↔ Guarded step C s as)
  | [], s, hs, _ => ⟨fun _ => trivial, fun _ => hP s hs⟩
  | a :: as, s, hs, hg => by
    by_cases hc : C s a
    · have ih := always_iff_guarded_of hP hkeep hbreak (hkeep s a hs hg.1 hc) hg.2
      exact ⟨fun h => ⟨hc, ih.mp h.2⟩, fun h => ⟨hP s hs, ih.mpr h.2⟩⟩
    · exact ⟨fun h => absurd h.2.head (hbreak s a hs hg.1 hc), fun h => absurd h.1 hc⟩

lemma guarded_true : ∀ {as : List α} {s : σ}, Guarded step (fun _ _ => True) s as
  | [], _ => trivial
  | _ :: _, _ => ⟨trivial, guarded_true⟩

theorem always_iff_guarded {I P : σ → Prop} {C : σ → α → Prop} (hP : ∀ s, I s → P s)
    (hkeep : ∀ s a, I s → C s a → I (step s a))
    (hbreak : ∀ s a, I s → ¬ C s a → ¬ P (step s a)) {as : List α} {s : σ} (hs : I s) :
    Always step P s as ↔ Guarded step C s as :=
  always_iff_guarded_of hP (fun s a hi _ => hkeep s a hi) (fun s a hi _ => hbreak s a hi) hs
    guarded_true

lemma Always.guarded {P : σ → Prop} {G C : σ → α → Prop} (hPC : ∀ s a, P s → G s a → C s a) :
    ∀ {as : List α} {s : σ}, Always step P s as → Guarded step G s as → Guarded step C s as
  | [], _, _, _ => trivial
  | _ :: _, _, h, hg => ⟨hPC _ _ h.1 hg.1, h.2.guarded hPC hg.2⟩

lemma guarded_iff_forall_mem {C : α → Prop} :
    ∀ {as : List α} {s : σ}, Guarded step (fun _ a => C a) s as ↔ ∀ a ∈ as, C a
  | [], _ => by simp [Guarded]
  | _ :: as, s => by simp [Guarded, @guarded_iff_forall_mem C as]

/-- What the steps that meet the condition keep holds at the end. -/
lemma Guarded.inv {I : σ → Prop} {C : σ → α → Prop} {as : List α} {s : σ}
    (hkeep : ∀ s a, I s → C s a → I (step s a)) (hs : I s) (hg : Guarded step C s as) :
    I (as.foldl step s) := by
  induction as generalizing s with
  | nil => exact hs
  | cons a as ih => exact ih (hkeep s a hs hg.1) hg.2

theorem guarded_congr {I : σ → Prop} {G C D : σ → α → Prop}
    (hkeep : ∀ s a, I s → G s a → I (step s a)) (hiff : ∀ s a, I s → G s a → (C s a ↔ D s a)) :
    ∀ {as : List α} {s : σ}, I s → Guarded step G s as →
      (Guarded step C s as ↔ Guarded step D s as)
  | [], _, _, _ => Iff.rfl
  | a :: _, s, hs, hg =>
    and_congr (hiff s a hs hg.1) (guarded_congr hkeep hiff (hkeep s a hs hg.1) hg.2)

end Total

/-! ### Labelled systems -/

section Labelled

/-- `Run R s₀ as s`: the labels `as`, in order, lead from `s₀` to `s`. -/
inductive Run (R : σ → α → σ → Prop) (s₀ : σ) : List α → σ → Prop
  | nil : Run R s₀ [] s₀
  | snoc {as : List α} {s s' : σ} {a : α} : Run R s₀ as s → R s a s' → Run R s₀ (as ++ [a]) s'

variable {R : σ → α → σ → Prop} {s₀ s s' : σ} {as bs : List α} {a : α}

/-- **The invariant rule**, for an invariant that may speak of the labels read so far. -/
theorem Run.inv {I : List α → σ → Prop} (h₀ : I [] s₀)
    (hstep : ∀ as s a s', I as s → R s a s' → I (as ++ [a]) s') (h : Run R s₀ as s) : I as s := by
  induction h with
  | nil => exact h₀
  | snoc _ hr ih => exact hstep _ _ _ _ ih hr

lemma Run.nil_iff : Run R s₀ [] s ↔ s = s₀ := by
  constructor
  · intro h
    generalize hl : ([] : List α) = l at h
    cases h with
    | nil => rfl
    | snoc _ _ => simp at hl
  · rintro rfl
    exact .nil

lemma Run.snoc_iff : Run R s₀ (as ++ [a]) s' ↔ ∃ s, Run R s₀ as s ∧ R s a s' := by
  constructor
  · intro h
    generalize hl : as ++ [a] = l at h
    cases h with
    | nil => simp at hl
    | snoc h hr =>
      obtain ⟨rfl, hb⟩ := List.append_inj' hl rfl
      obtain rfl : a = _ := by simpa using hb
      exact ⟨_, h, hr⟩
  · rintro ⟨s, h, hr⟩
    exact h.snoc hr

theorem Run.append_iff :
    Run R s₀ (as ++ bs) s' ↔ ∃ s, Run R s₀ as s ∧ Run R s bs s' := by
  induction bs using List.reverseRecOn generalizing s' with
  | nil => simp [Run.nil_iff]
  | append_singleton bs b ih =>
    rw [← List.append_assoc, Run.snoc_iff]
    constructor
    · rintro ⟨t, h, hr⟩
      obtain ⟨s, h1, h2⟩ := ih.mp h
      exact ⟨s, h1, h2.snoc hr⟩
    · rintro ⟨s, h1, h2⟩
      obtain ⟨t, h2, hr⟩ := Run.snoc_iff.mp h2
      exact ⟨t, ih.mpr ⟨s, h1, h2⟩, hr⟩

lemma Run.of_foldlM {f : σ → α → Option σ} (h : as.foldlM f s₀ = some s) :
    Run (fun s a s' => f s a = some s') s₀ as s := by
  induction as using List.reverseRecOn generalizing s with
  | nil =>
    obtain rfl : s₀ = s := by simpa using h
    exact .nil
  | append_singleton as a ih =>
    rw [List.foldlM_append] at h
    obtain ⟨t, ht, h⟩ := Option.bind_eq_some_iff.mp h
    exact (ih ht).snoc (by simpa using h)

/-- A run of a system is a run of each system that it simulates, with the same labels. -/
lemma Run.map {τ : Type*} {Q : τ → α → τ → Prop} (f : σ → τ)
    (hstep : ∀ s a s', R s a s' → Q (f s) a (f s')) (h : Run R s₀ as s) : Run Q (f s₀) as (f s) := by
  induction h with
  | nil => exact .nil
  | snoc _ hr ih => exact ih.snoc (hstep _ _ _ hr)

lemma Run.single (hr : R s a s') : Run R s [a] s' := Run.nil.snoc hr

lemma Run.cons_iff : Run R s₀ (a :: as) s' ↔ ∃ s, R s₀ a s ∧ Run R s as s' := by
  rw [show a :: as = [a] ++ as from rfl, Run.append_iff]
  constructor
  · rintro ⟨s, h1, h2⟩
    obtain ⟨t, ht, hr⟩ := Run.snoc_iff.mp (show Run R s₀ ([] ++ [a]) s from h1)
    obtain rfl := Run.nil_iff.mp ht
    exact ⟨s, hr, h2⟩
  · rintro ⟨s, hr, h2⟩
    exact ⟨s, .single hr, h2⟩

end Labelled

end OsImplement.Lib.Step
