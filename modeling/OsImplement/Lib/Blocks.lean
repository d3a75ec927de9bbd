import OsImplement.Lib.Probe
import Mathlib.Logic.Function.Basic

/-!
Programs over blocks of memory, with the accesses that they make.

A program is a tree of reads and writes. Every block is a function from all indices: `run` goes on
wherever an access leads, and `accesses` lists them in order, so that the bounds of the blocks are a
property of the list. The access that leaves a block first is that of the machine; what comes behind
it is not, where blocks lie next to one another.
-/

namespace OsImplement.Lib.Blocks

open Lib.Probe

/-- A read or a write of a block, and its index. -/
inductive Access (ω : Type) where
  | read (o : ω) (i : ℕ)
  | write (o : ω) (i : ℕ)
  deriving DecidableEq

namespace Access

variable {ω : Type}

def block : Access ω → ω
  | read o _ => o
  | write o _ => o

def index : Access ω → ℕ
  | read _ i => i
  | write _ i => i

end Access

/-- A program over the blocks `ω`, with contents of type `β`. -/
inductive Prog (ω β α : Type) where
  | done (a : α)
  | read (o : ω) (i : ℕ) (next : β → Prog ω β α)
  | write (o : ω) (i : ℕ) (b : β) (next : Prog ω β α)

namespace Prog

variable {ω β α γ : Type}

def bind : Prog ω β α → (α → Prog ω β γ) → Prog ω β γ
  | done a, f => f a
  | read o i next, f => read o i fun b => (next b).bind f
  | write o i b next, f => write o i b (next.bind f)

instance : Monad (Prog ω β) where
  pure := done
  bind := bind

/-- One read. -/
def get (o : ω) (i : ℕ) : Prog ω β β := read o i done

/-- One write. -/
def put (o : ω) (i : ℕ) (b : β) : Prog ω β Unit := write o i b (done ())

/-- A query of one block. -/
def ofQuery (o : ω) : Query ℕ β α → Prog ω β α
  | .done a => done a
  | .read i next => read o i fun b => ofQuery o (next b)

section Run

variable [DecidableEq ω]

def store (m : ω → ℕ → β) (o : ω) (i : ℕ) (b : β) : ω → ℕ → β :=
  Function.update m o (Function.update (m o) i b)

/-- What the program returns, and the memory that it leaves. -/
def run : Prog ω β α → (ω → ℕ → β) → α × (ω → ℕ → β)
  | done a, m => (a, m)
  | read o i next, m => (next (m o i)).run m
  | write o i b next, m => next.run (store m o i b)

/-- The accesses, in order. -/
def accesses : Prog ω β α → (ω → ℕ → β) → List (Access ω)
  | done _, _ => []
  | read o i next, m => .read o i :: (next (m o i)).accesses m
  | write o i b next, m => .write o i :: next.accesses (store m o i b)

variable {m : ω → ℕ → β} {o o' : ω} {i j : ℕ} {b : β}

lemma store_other (h : o' ≠ o) : store m o i b o' = m o' := Function.update_of_ne h _ _

@[simp] lemma run_pure (a : α) : (pure a : Prog ω β α).run m = (a, m) := rfl

@[simp] lemma run_get : (get o i : Prog ω β β).run m = (m o i, m) := rfl

@[simp] lemma run_put : (put o i b : Prog ω β Unit).run m = ((), store m o i b) := rfl

@[simp] lemma accesses_pure (a : α) : (pure a : Prog ω β α).accesses m = [] := rfl

@[simp] lemma accesses_get : (get o i : Prog ω β β).accesses m = [.read o i] := rfl

@[simp] lemma accesses_put : (put o i b : Prog ω β Unit).accesses m = [.write o i] := rfl

@[simp] theorem run_bind (p : Prog ω β α) (f : α → Prog ω β γ) (m : ω → ℕ → β) :
    (p >>= f).run m = (f (p.run m).1).run (p.run m).2 := by
  induction p generalizing m with
  | done a => rfl
  | read o i next ih => exact ih (m o i) m
  | write o i b next ih => exact ih (store m o i b)

@[simp] theorem accesses_bind (p : Prog ω β α) (f : α → Prog ω β γ) (m : ω → ℕ → β) :
    (p >>= f).accesses m = p.accesses m ++ (f (p.run m).1).accesses (p.run m).2 := by
  induction p generalizing m with
  | done a => rfl
  | read o i next ih => exact congrArg (.read o i :: ·) (ih (m o i) m)
  | write o i b next ih => exact congrArg (.write o i :: ·) (ih (store m o i b))

@[simp] theorem run_ofQuery (o : ω) (q : Query ℕ β α) (m : ω → ℕ → β) :
    (ofQuery o q).run m = (q.run (m o), m) := by
  induction q with
  | done a => rfl
  | read i next ih => exact ih (m o i)

@[simp] theorem accesses_ofQuery (o : ω) (q : Query ℕ β α) (m : ω → ℕ → β) :
    (ofQuery o q).accesses m = (q.reads (m o)).map (.read o) := by
  induction q with
  | done a => rfl
  | read i next ih => exact congrArg (.read o i :: ·) (ih (m o i))

end Run

end Prog

end OsImplement.Lib.Blocks
