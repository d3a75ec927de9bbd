import Mathlib.Data.List.Basic
import Mathlib.Tactic.SplitIfs

/-!
Programs that look at a store and do not change it.

A query is a tree of reads. `reads` and `seen` are the places it reads in a store and what it finds
there, and what it has seen decides what it returns: `seen_eq_iff` and `run_eq_of_seen_eq`.
-/

namespace OsImplement.Lib.Probe

/-- A program that reads places of type `ι` with contents of type `β`. -/
inductive Query (ι β α : Type) where
  | done (a : α)
  | read (i : ι) (next : β → Query ι β α)

namespace Query

variable {ι β α γ : Type}

def bind : Query ι β α → (α → Query ι β γ) → Query ι β γ
  | done a, f => f a
  | read i next, f => read i fun b => (next b).bind f

instance : Monad (Query ι β) where
  pure := done
  bind := bind

/-- One read. -/
def look (i : ι) : Query ι β β := read i done

/-- What the program returns in a store. -/
def run (s : ι → β) : Query ι β α → α
  | done a => a
  | read i next => (next (s i)).run s

/-- The places it reads, in order. -/
def reads (s : ι → β) : Query ι β α → List ι
  | done _ => []
  | read i next => i :: (next (s i)).reads s

/-- What it reads there. -/
def seen (s : ι → β) : Query ι β α → List β
  | done _ => []
  | read i next => s i :: (next (s i)).seen s

/-- Whatever it finds, it reads places with `P` only. -/
def All (P : ι → Prop) : Query ι β α → Prop
  | done _ => True
  | read i next => P i ∧ ∀ b, (next b).All P

section All

variable {P : ι → Prop}

@[simp] lemma all_pure (a : α) : (pure a : Query ι β α).All P := trivial

@[simp] lemma all_look (i : ι) : (look i : Query ι β β).All P ↔ P i :=
  ⟨fun h => h.1, fun h => ⟨h, fun _ => trivial⟩⟩

lemma all_bind {p : Query ι β α} {f : α → Query ι β γ} (hp : p.All P) (hf : ∀ a, (f a).All P) :
    (p >>= f).All P := by
  induction p with
  | done a => exact hf a
  | read i next ih => exact ⟨hp.1, fun b => ih b (hp.2 b)⟩

lemma all_ite {c : Prop} [Decidable c] {p q : Query ι β α} (hp : p.All P) (hq : q.All P) :
    (if c then p else q).All P := by
  split_ifs
  · exact hp
  · exact hq

lemma All.reads {p : Query ι β α} (h : p.All P) (s : ι → β) : ∀ i ∈ p.reads s, P i := by
  induction p with
  | done a => simp [Query.reads]
  | read i next ih =>
    rw [Query.reads, List.forall_mem_cons]
    exact ⟨h.1, ih _ (h.2 _)⟩

end All

section Run

variable {s t : ι → β}

@[simp] lemma run_pure (a : α) : (pure a : Query ι β α).run s = a := rfl

@[simp] lemma run_look (i : ι) : (look i : Query ι β β).run s = s i := rfl

@[simp] lemma run_bind (p : Query ι β α) (f : α → Query ι β γ) :
    (p >>= f).run s = (f (p.run s)).run s := by
  induction p with
  | done a => rfl
  | read i next ih => exact ih (s i)

@[simp] lemma run_ite (c : Prop) [Decidable c] (p q : Query ι β α) :
    (if c then p else q).run s = if c then p.run s else q.run s := by
  split_ifs
  · rfl
  · rfl

/-- **What is seen decides the result.** -/
theorem run_eq_of_seen_eq (p : Query ι β α) (h : p.seen s = p.seen t) :
    p.run s = p.run t := by
  induction p with
  | done a => rfl
  | read i next ih =>
    obtain ⟨hi, h⟩ := List.cons.inj h
    rw [run, run, hi]
    rw [hi] at h
    exact ih _ h

/-- **Two stores look the same exactly when they agree on what is read in one of them.** -/
theorem seen_eq_iff (p : Query ι β α) :
    p.seen s = p.seen t ↔ ∀ i ∈ p.reads t, s i = t i := by
  induction p with
  | done a => simp [seen, reads]
  | read i next ih =>
    rw [seen, seen, reads, List.cons.injEq, List.forall_mem_cons]
    constructor
    · rintro ⟨hi, h⟩
      rw [hi] at h
      exact ⟨hi, (ih _).mp h⟩
    · rintro ⟨hi, h⟩
      rw [hi]
      exact ⟨rfl, (ih _).mpr h⟩

end Run

end Query

end OsImplement.Lib.Probe
