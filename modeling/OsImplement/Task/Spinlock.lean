import OsImplement.Lib.Step
import Mathlib.Logic.Function.Basic

/-!
The spinlock (`lock.c`).

`0` stands for a lock that is taken, and `1` for one that is free. The test and set loops while it
finds `0`, but what it leaves there is the `1` of a free lock, and the store of an unlock is a `0`.
So a task that has got the lock leaves it open behind it, and only a task that has given it back
keeps the next one waiting, for one round.
-/

namespace OsImplement.Task

open Lib.Step

def SPINLOCK_LOCKED : ℕ := 0
def SPINLOCK_UNLOCKED : ℕ := 1

/-- `atomic_test_and_set`: the value that was in the lock, and the lock it leaves. -/
def atomicTestAndSet (lock : ℕ) : ℕ × ℕ := (lock, SPINLOCK_UNLOCKED)

/-- Where a task is: outside, in the loop of `spinlock_lock`, behind its return, or in
`spinlock_unlock`, before the store. -/
inductive Phase where
  | outside
  | locking
  | inside
  | unlocking
  deriving DecidableEq

/-- What a task does next. -/
inductive LockStep (τ : Type*) where
  | callLock (t : τ)
  | testAndSet (t : τ)
  | callUnlock (t : τ)
  | store (t : τ)

/-- The lock, the phases of the tasks, and whether the accesses to the lock so far, the last one in
front, were stores of an unlock. -/
structure Spinlock (τ : Type*) where
  lock : ℕ
  phase : τ → Phase
  stores : List Bool

namespace Spinlock

variable {τ : Type*} [DecidableEq τ]

/-- Nobody has called anything. -/
def init (lock : ℕ) : Spinlock τ := ⟨lock, fun _ => .outside, []⟩

/-- One step of a task. A step that is not the next one of its task changes nothing. -/
def step (s : Spinlock τ) : LockStep τ → Spinlock τ
  | .callLock t =>
    if s.phase t = .outside then { s with phase := Function.update s.phase t .locking } else s
  | .testAndSet t =>
    if s.phase t = .locking then
      let (value, lock) := atomicTestAndSet s.lock
      -- `while (atomic_test_and_set (lock) == SPINLOCK_LOCKED);`
      let phase := if value = SPINLOCK_LOCKED then .locking else .inside
      ⟨lock, Function.update s.phase t phase, false :: s.stores⟩
    else s
  | .callUnlock t =>
    if s.phase t = .inside then { s with phase := Function.update s.phase t .unlocking } else s
  | .store t =>
    if s.phase t = .unlocking then
      ⟨0, Function.update s.phase t .outside, true :: s.stores⟩
    else s

/-- At most one task is inside. -/
def Exclusive (s : Spinlock τ) : Prop :=
  ∀ t u, s.phase t = .inside → s.phase u = .inside → t = u

/-- A test and set with another task inside is the first access behind the store of an unlock. -/
def Behind (s : Spinlock τ) : LockStep τ → Prop
  | .testAndSet t => s.phase t = .locking → ∀ u, s.phase u = .inside → s.stores.head? = some true
  | _ => True

/-- The lock is `0` exactly behind the store of an unlock, once it has been accessed, and a task
inside has accessed it. -/
structure Kept (s : Spinlock τ) : Prop where
  exclusive : s.Exclusive
  accessed : ∀ t, s.phase t = .inside → s.stores ≠ []
  lock : s.stores ≠ [] → (s.lock = SPINLOCK_LOCKED ↔ s.stores.head? = some true)

variable {s : Spinlock τ} {t u : τ} {a : LockStep τ} {p : Phase}

omit [DecidableEq τ] in
lemma Kept.init (lock : ℕ) : (init lock : Spinlock τ).Kept where
  exclusive t u h := by cases h
  accessed t h := by cases h
  lock h := absurd rfl h

lemma inside_update (hp : p ≠ .inside) (h : Function.update s.phase t p u = .inside) :
    s.phase u = .inside := by
  by_cases hu : u = t
  · subst hu
    rw [Function.update_self] at h
    exact absurd h hp
  · rwa [Function.update_of_ne hu] at h

/-- A task that moves, and does not get inside, leaves at most one there. -/
lemma Exclusive.update (h : s.Exclusive) (hp : p ≠ .inside) {lock : ℕ} {stores : List Bool} :
    Exclusive ⟨lock, Function.update s.phase t p, stores⟩ :=
  fun _ _ h1 h2 => h _ _ (inside_update hp h1) (inside_update hp h2)

lemma Kept.call (h : s.Kept) (hp : p ≠ .inside) :
    Kept { s with phase := Function.update s.phase t p } where
  exclusive := h.exclusive.update hp
  accessed u hu := h.accessed u (inside_update hp hu)
  lock := h.lock

lemma step_testAndSet (ht : s.phase t = .locking) : s.step (.testAndSet t) =
    ⟨SPINLOCK_UNLOCKED,
      Function.update s.phase t (if s.lock = SPINLOCK_LOCKED then .locking else .inside),
      false :: s.stores⟩ := by
  rw [step, if_pos ht]
  rfl

lemma step_kept (h : s.Kept) (hc : s.Behind a) : (s.step a).Kept := by
  cases a with
  | callLock t =>
    simp only [step]
    split
    · exact h.call (by simp)
    · exact h
  | callUnlock t =>
    simp only [step]
    split
    · exact h.call (by simp)
    · exact h
  | store t =>
    simp only [step]
    split
    · exact ⟨h.exclusive.update (by simp), fun _ _ => by simp,
        fun _ => by simp [SPINLOCK_LOCKED]⟩
    · exact h
  | testAndSet t =>
    by_cases ht : s.phase t = .locking
    · rw [step_testAndSet ht]
      refine ⟨?_, fun _ _ => by simp, fun _ => by simp [SPINLOCK_LOCKED, SPINLOCK_UNLOCKED]⟩
      by_cases hl : s.lock = SPINLOCK_LOCKED
      · rw [if_pos hl]
        exact h.exclusive.update (by simp)
      · -- the task gets in, so nobody was there
        have hout : ∀ u, s.phase u ≠ .inside := fun u hu =>
          hl ((h.lock (h.accessed u hu)).mpr (hc ht u hu))
        have halone : ∀ u, Function.update s.phase t .inside u = .inside → u = t := by
          intro u hu
          by_contra hne
          rw [Function.update_of_ne hne] at hu
          exact hout u hu
        rw [if_neg hl]
        intro u v hu hv
        rw [halone u hu, halone v hv]
    · rw [step, if_neg ht]
      exact h

/-- The lock is open while a task is inside, but for one round behind the store of an unlock. -/
lemma step_crowded (h : s.Kept) (hc : ¬ s.Behind a) : ¬ (s.step a).Exclusive := by
  cases a with
  | callLock t => exact absurd trivial hc
  | callUnlock t => exact absurd trivial hc
  | store t => exact absurd trivial hc
  | testAndSet t =>
    simp only [Behind, Classical.not_imp, not_forall] at hc
    obtain ⟨ht, u, hu, hhead⟩ := hc
    have hl : s.lock ≠ SPINLOCK_LOCKED := fun hl =>
      hhead ((h.lock (h.accessed u hu)).mp hl)
    have hne : u ≠ t := by
      rintro rfl
      rw [ht] at hu
      cases hu
    intro hex
    rw [step_testAndSet ht, if_neg hl] at hex
    refine hne (hex u t ?_ ?_)
    · simp only [Function.update_of_ne hne, hu]
    · simp only [Function.update_self]

/-- **Mutual exclusion** holds along an interleaving exactly when every test and set with another
task inside comes right behind the store of an unlock. -/
theorem exclusive_iff (lock : ℕ) (as : List (LockStep τ)) :
    Always step Exclusive (init lock) as ↔ Guarded step Behind (init lock) as :=
  always_iff_guarded (fun _ h => h.exclusive) (fun _ _ h hc => step_kept h hc)
    (fun _ _ h hc => step_crowded h hc) (.init lock)

/-- Two tasks take a free lock one after the other. -/
theorem exclusive_fails :
    ¬ Always step Exclusive (init SPINLOCK_UNLOCKED : Spinlock Bool)
      [.callLock false, .testAndSet false, .callLock true, .testAndSet true] := by
  intro h
  have heq := h.last false true rfl rfl
  cases heq

end Spinlock

end OsImplement.Task
