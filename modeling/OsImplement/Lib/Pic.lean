import Mathlib.Data.List.Basic
import Mathlib.Logic.Function.Basic

/-!
Two programmable interrupt controllers of the 8259A family in cascade: the output of the slave is
line 2 of the master.

They are in fully nested mode: a line in service keeps itself and the lines behind it waiting, until
the processor says that the interrupt has ended. The command that says so names no line: it ends
the first one in service. Rotation of priorities and the commands that read registers back are left
out.
-/

namespace OsImplement.Lib.Pic

/-! ### One controller -/

/-- The next initialization word that is expected. -/
inductive Setup where
  | ready
  | icw2 (needs4 : Bool)
  | icw3 (needs4 : Bool)
  | icw4
  deriving DecidableEq

structure Controller where
  /-- Lines with a request. -/
  irr : ℕ → Bool
  /-- Lines in service. -/
  isr : ℕ → Bool
  /-- Lines that are masked. -/
  imr : ℕ → Bool
  /-- The vector of line 0. -/
  base : ℕ
  autoEoi : Bool
  setup : Setup

/-- The first line of eight, if there is one. -/
def first (p : ℕ → Bool) : Option ℕ := (List.range 8).find? p

def bits (v : UInt8) : ℕ → Bool := fun i => v.toNat.testBit i

namespace Controller

variable (c : Controller)

/-- The line whose interrupt goes out to the processor: the first with a request, unless one in
service is before it or is the same. -/
def pending : Option ℕ :=
  (first fun i => c.irr i && !c.imr i).filter fun k => (List.range (k + 1)).all fun j => !c.isr j

/-- The processor takes the interrupt of line `k`. -/
def ack (k : ℕ) : Controller :=
  { c with irr := Function.update c.irr k false, isr := Function.update c.isr k (!c.autoEoi) }

/-- End of interrupt, for the first line in service. -/
def eoi : Controller :=
  match first c.isr with
  | some k => { c with isr := Function.update c.isr k false }
  | none => c

/-- A byte for the command port: the first word of an initialization, or an end of interrupt. -/
def command (v : UInt8) : Controller :=
  if bits v 4 then
    { c with
        irr := fun _ => false, isr := fun _ => false, imr := fun _ => false, autoEoi := false,
        setup := .icw2 (bits v 0) }
  else if v = 0x20 then c.eoi else c

/-- A byte for the data port: the next word of an initialization, or the mask. -/
def data (v : UInt8) : Controller :=
  match c.setup with
  | .ready => { c with imr := bits v }
  | .icw2 needs4 => { c with base := v.toNat / 8 * 8, setup := .icw3 needs4 }
  | .icw3 needs4 => { c with setup := if needs4 then .icw4 else .ready }
  | .icw4 => { c with autoEoi := bits v 1, setup := .ready }

end Controller

/-! ### The pair -/

structure Pair where
  master : Controller
  slave : Controller

namespace Pair

variable (p : Pair)

/-- `outb` -/
def out (port : UInt16) (v : UInt8) : Pair :=
  if port = 0x20 then { p with master := p.master.command v }
  else if port = 0x21 then { p with master := p.master.data v }
  else if port = 0xA0 then { p with slave := p.slave.command v }
  else if port = 0xA1 then { p with slave := p.slave.data v }
  else p

/-- The master with the output of the slave on line 2. -/
def joined : Controller := { p.master with irr := Function.update p.master.irr 2 p.slave.pending.isSome }

/-- Lines 0 to 7 are the master's, 8 to 15 the slave's. -/
def line (k : ℕ) : Bool := if k < 8 then p.master.irr k else p.slave.irr (k - 8)

def setLine (k : ℕ) (b : Bool) : Pair :=
  if k < 8 then { p with master := { p.master with irr := Function.update p.master.irr k b } }
  else { p with slave := { p.slave with irr := Function.update p.slave.irr (k - 8) b } }

/-- The processor takes an interrupt, and is told the vector. -/
def inta : Option (ℕ × Pair) :=
  match p.joined.pending with
  | none => none
  | some 2 =>
    match p.slave.pending with
    | none => none
    | some j => some (p.slave.base + j, ⟨p.master.ack 2, p.slave.ack j⟩)
  | some k => some (p.master.base + k, { p with master := p.master.ack k })

/-- The request was withdrawn before the processor took it: the vector is that of line 7, and
nothing is in service. -/
def spurious : ℕ × Pair := (p.master.base + 7, p)

/-- The same at the slave. The master has line 2 in service. -/
def spuriousSlave : ℕ × Pair := (p.slave.base + 7, { p with master := p.master.ack 2 })

end Pair

/-! ### Facts -/

section Facts

variable {c : Controller} {p : ℕ → Bool} {k : ℕ}

lemma first_eq_some : first p = some k ↔ k < 8 ∧ p k ∧ ∀ j < k, p j = false := by
  unfold first
  constructor
  · intro h
    obtain ⟨hk, i, hi, rfl, hbefore⟩ := List.find?_eq_some_iff_getElem.mp h
    simp only [List.length_range, List.getElem_range] at hi hk hbefore ⊢
    exact ⟨hi, hk, fun j hj => by simpa using hbefore j hj⟩
  · rintro ⟨hk, hp, hbefore⟩
    refine List.find?_eq_some_iff_getElem.mpr ⟨hp, k, by simpa using hk, by simp, fun j hj => ?_⟩
    simpa using hbefore j hj

lemma first_eq_none : first p = none ↔ ∀ k < 8, p k = false := by
  simp [first]

lemma pending_of_idle (hisr : ∀ j, c.isr j = false) :
    c.pending = first fun i => c.irr i && !c.imr i := by
  unfold Controller.pending
  cases first fun i => c.irr i && !c.imr i with
  | none => rfl
  | some k => simp [Option.filter, hisr]

end Facts

end OsImplement.Lib.Pic
