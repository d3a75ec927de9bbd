import OsImplement.Lib.Cells
import Mathlib.Data.Set.Function

/-!
A 32-bit processor of the x86 family, with the instructions that kernels write in assembly: the
stack, moves between registers, segment registers and memory, a little arithmetic, and the
interrupt flag.

Memory is physical. While paging is on, every address goes through `walk`, which stands for the
page tables. A program is a text with labels, and a label stands for all that follows it.

The stack is reasoned about with `Stack s room ws`: the words at the stack pointer are `ws`, and
below them `room` bytes may be pushed that the page tables keep apart. Every instruction of the
stack has a rule for it.
-/

namespace OsImplement.Lib.X86

open Lib.Word Lib.Bytes Lib.Cells

/-! ### Registers and memory -/

inductive Reg where
  | eax | ecx | edx | ebx | esp | ebp | esi | edi
  deriving DecidableEq

inductive Seg where
  | cs | ds | es | fs | gs | ss
  deriving DecidableEq

@[ext] structure Cpu where
  regs : Reg → BitVec 32
  segs : Seg → BitVec 16
  eip : BitVec 32
  eflags : BitVec 32
  cr0 : BitVec 32
  /-- The limit and the base of the table of segments, and of that of gates. -/
  gdtr : ℕ × ℕ
  idtr : ℕ × ℕ
  /-- What the page tables make of an address. -/
  walk : ℕ → ℕ
  mem : Mem

/-- The interrupt flag in `eflags`. -/
def IF : ℕ := 9

def ZF : ℕ := 6

/-- Paging, in `cr0`. -/
def PG : ℕ := 31

def setBit (f : BitVec 32) (i : ℕ) (b : Bool) : BitVec 32 :=
  if b then f ||| (1#32 <<< i) else f &&& ~~~(1#32 <<< i)

/-- The flags of a result; carry and overflow are given. -/
def resultFlags (f r : BitVec 32) (carry overflow : Bool) : BitVec 32 :=
  let parity := (List.range 8).foldl (fun b i => b != r.getLsbD i) true
  setBit (setBit (setBit (setBit (setBit f 0 carry) 2 parity) ZF (r = 0)) 7 r.msb) 11 overflow

lemma getLsbD_setBit (f : BitVec 32) {i : ℕ} (hi : i < 32) (b : Bool) (j : ℕ) :
    (setBit f i b).getLsbD j = if j = i then b else f.getLsbD j := by
  have hbit : (1#32 <<< i).getLsbD j = decide (j = i) := by
    simp only [BitVec.getLsbD_shiftLeft, BitVec.getLsbD_one]
    by_cases hji : j = i
    · simp [hji, hi]
    · by_cases hlt : j < i
      · simp [hlt, hji]
      · simp [hji, show j - i ≠ 0 by omega]
  unfold setBit
  by_cases hj : j < 32
  · cases b
    · simp only [Bool.false_eq_true, if_false, BitVec.getLsbD_and, BitVec.getLsbD_not, hbit, hj]
      by_cases hji : j = i <;> simp [hji]
    · simp only [if_true, BitVec.getLsbD_or, hbit]
      by_cases hji : j = i <;> simp [hji]
  · rw [BitVec.getLsbD_of_ge _ j (by omega), if_neg (by omega), BitVec.getLsbD_of_ge f j (by omega)]

lemma zf_resultFlags (f r : BitVec 32) (carry overflow : Bool) :
    (resultFlags f r carry overflow).getLsbD ZF = decide (r = 0) := by
  unfold resultFlags
  rw [getLsbD_setBit _ (by decide), if_neg (by decide), getLsbD_setBit _ (by decide),
    if_neg (by decide), getLsbD_setBit _ (by decide), if_pos rfl]

namespace Cpu

variable (s : Cpu)

def setReg (r : Reg) (v : BitVec 32) : Cpu := { s with regs := Function.update s.regs r v }

def setSeg (g : Seg) (v : BitVec 16) : Cpu := { s with segs := Function.update s.segs g v }

/-- The physical address. -/
def phys (a : ℕ) : ℕ := if s.cr0.getLsbD PG then s.walk (a % 2 ^ 32) else a % 2 ^ 32

/-- Memory as the program sees it. -/
def view : Mem := fun a => s.mem (s.phys a)

def load (a : BitVec 32) : BitVec 32 := BitVec.ofNat 32 (read32 s.view a.toNat)

/-- The record for `lgdt` and `lidt`: two bytes for the limit, and four for the base. -/
def record (a : BitVec 32) : ℕ × ℕ :=
  ((read8 s.view a.toNat).toNat + 256 * (read8 s.view (a.toNat + 1)).toNat,
    read32 s.view (a.toNat + 2))

def storeByte (a : ℕ) (b : UInt8) : Cpu := { s with mem := Function.update s.mem (s.phys a) b }

def store (a v : BitVec 32) : Cpu :=
  (((s.storeByte a.toNat (byteOf v.toNat 0)).storeByte (a.toNat + 1) (byteOf v.toNat 1)).storeByte
    (a.toNat + 2) (byteOf v.toNat 2)).storeByte (a.toNat + 3) (byteOf v.toNat 3)

@[simp] lemma regs_setReg_self (r : Reg) (v : BitVec 32) : (s.setReg r v).regs r = v :=
  Function.update_self _ _ _

@[simp] lemma regs_setSeg (g : Seg) (v : BitVec 16) : (s.setSeg g v).regs = s.regs := rfl

@[simp] lemma segs_setReg (r : Reg) (v : BitVec 32) : (s.setReg r v).segs = s.segs := rfl

def push (v : BitVec 32) : Cpu :=
  let esp := s.regs .esp - 4
  (s.store esp v).setReg .esp esp

/-- The word on top of the stack. -/
def top : BitVec 32 := s.load (s.regs .esp)

/-- The stack without `n` bytes. -/
def drop (n : BitVec 32) : Cpu := s.setReg .esp (s.regs .esp + n)

def pushAll : List (BitVec 32) → Cpu → Cpu := fun vs s => vs.foldl push s

end Cpu

/-! ### Instructions -/

/-- An instruction, with labels from `ℓ` and functions to call from `φ`. -/
inductive Instr (ℓ φ : Type) where
  | cli
  | sti
  | pushf
  | popf
  | pusha
  | popa
  | pushByte (v : BitVec 8)
  | push (r : Reg)
  | pop (r : Reg)
  /-- `mov r, v` -/
  | movImm (r : Reg) (v : BitVec 32)
  /-- `mov` to the low half of `r` -/
  | movLow (r : Reg) (v : BitVec 16)
  /-- `mov` from a segment register to the low half of `r` -/
  | movFromSeg (r : Reg) (g : Seg)
  | movToSeg (g : Seg) (r : Reg)
  /-- `mov dst, [base + offset]` -/
  | load (dst base : Reg) (offset : BitVec 32)
  /-- `mov [base], src` -/
  | store (base src : Reg)
  | add (r : Reg) (v : BitVec 32)
  | and (r : Reg) (v : BitVec 32)
  | or (r : Reg) (v : BitVec 32)
  | dec (r : Reg)
  | movFromCr0 (r : Reg)
  | movToCr0 (r : Reg)
  /-- `lgdt [r]` -/
  | lgdt (r : Reg)
  | lidt (r : Reg)
  | call (f : φ)
  | jmp (l : ℓ)
  /-- `jmp g:l` -/
  | jmpFar (g : BitVec 16) (l : ℓ)
  | jnz (l : ℓ)
  | jmpReg (r : Reg)
  | ret
  | iret

/-- `v` in the low half of `w`. -/
def withLow (w : BitVec 32) (v : BitVec 16) : BitVec 32 :=
  (w &&& 0xFFFF0000) ||| v.setWidth 32

lemma setWidth_withLow (w : BitVec 32) (v : BitVec 16) : (withLow w v).setWidth 16 = v := by
  refine BitVec.eq_of_getLsbD_eq fun i hi => ?_
  simp [withLow, hi]

namespace Cpu

variable (s : Cpu)

/-- `pusha`: the stack pointer that is pushed is the one before. -/
def pusha : Cpu :=
  pushAll [s.regs .eax, s.regs .ecx, s.regs .edx, s.regs .ebx, s.regs .esp, s.regs .ebp,
    s.regs .esi, s.regs .edi] s

/-- `popa`: the stack pointer among the words is skipped. -/
def popa : Cpu :=
  let word (i : ℕ) := s.load (s.regs .esp + BitVec.ofNat 32 (4 * i))
  { s with regs := fun
      | .edi => word 0
      | .esi => word 1
      | .ebp => word 2
      | .esp => s.regs .esp + 32
      | .ebx => word 4
      | .edx => word 5
      | .ecx => word 6
      | .eax => word 7 }

/-- `iret` to the same privilege level. -/
def iret : Cpu :=
  let word (i : ℕ) := s.load (s.regs .esp + BitVec.ofNat 32 (4 * i))
  { (s.drop 12).setSeg .cs ((word 1).setWidth 16) with eip := word 0, eflags := word 2 }

/-- What an instruction other than a jump and a call does, but for where the next one is. -/
def exec {ℓ φ : Type} : Instr ℓ φ → Cpu
  | .cli => { s with eflags := setBit s.eflags IF false }
  | .sti => { s with eflags := setBit s.eflags IF true }
  | .pushf => s.push s.eflags
  | .popf => { s.drop 4 with eflags := s.top }
  | .pusha => s.pusha
  | .popa => s.popa
  | .pushByte v => s.push (v.signExtend 32)
  | .push r => s.push (s.regs r)
  | .pop r => (s.drop 4).setReg r s.top
  | .movImm r v => s.setReg r v
  | .movLow r v => s.setReg r (withLow (s.regs r) v)
  | .movFromSeg r g => s.setReg r (withLow (s.regs r) (s.segs g))
  | .movToSeg g r => s.setSeg g ((s.regs r).setWidth 16)
  | .load dst base offset => s.setReg dst (s.load (s.regs base + offset))
  | .store base src => s.store (s.regs base) (s.regs src)
  | .add r v =>
    let x := s.regs r + v
    { s.setReg r x with
        eflags := resultFlags s.eflags x (x.ult v)
          ((s.regs r).msb == v.msb && x.msb != v.msb) }
  | .and r v =>
    let x := s.regs r &&& v
    { s.setReg r x with eflags := resultFlags s.eflags x false false }
  | .or r v =>
    let x := s.regs r ||| v
    { s.setReg r x with eflags := resultFlags s.eflags x false false }
  | .dec r =>
    let x := s.regs r - 1
    -- `dec` leaves the carry alone
    { s.setReg r x with
        eflags := resultFlags s.eflags x (s.eflags.getLsbD 0) (s.regs r = 0x80000000) }
  | .movFromCr0 r => s.setReg r s.cr0
  | .movToCr0 r => { s with cr0 := s.regs r }
  | .lgdt r => { s with gdtr := s.record (s.regs r) }
  | .lidt r => { s with idtr := s.record (s.regs r) }
  | .jmpReg r => { s with eip := s.regs r }
  | .ret => { s.drop 4 with eip := s.top }
  | .iret => s.iret
  | .call _ => s
  | .jmp _ => s
  | .jmpFar g _ => s.setSeg .cs g
  | .jnz _ => s

end Cpu

/-! ### Programs -/

section Run

variable {ℓ φ : Type} (text : ℓ → List (Instr ℓ φ)) (callee : φ → Cpu → Cpu)

/-- The rest of a program, run until it returns. `callee f` leads from the call of `f` to its
return. -/
def run : ℕ → List (Instr ℓ φ) → Cpu → Option Cpu
  | 0, _, _ => none
  | _ + 1, [], _ => none
  | fuel + 1, i :: is, s =>
    match i with
    | .jmp l => run fuel (text l) s
    | .jmpFar g l => run fuel (text l) (s.setSeg .cs g)
    | .jnz l => if s.eflags.getLsbD ZF then run fuel is s else run fuel (text l) s
    | .call f => run fuel is (callee f s)
    | .jmpReg r => some (s.exec (.jmpReg r : Instr ℓ φ))
    | .ret => some (s.exec (.ret : Instr ℓ φ))
    | .iret => some (s.exec (.iret : Instr ℓ φ))
    | i => run fuel is (s.exec i)

/-- From the state `s` the rest `is` of a program returns in the state `t`. -/
def Returns (is : List (Instr ℓ φ)) (s t : Cpu) : Prop := ∃ fuel, run text callee fuel is s = some t

/-- The next instruction is the one behind it in the text. -/
def Instr.Straight : Instr ℓ φ → Prop
  | .call _ | .jmp _ | .jmpFar _ _ | .jnz _ | .jmpReg _ | .ret | .iret => False
  | _ => True

variable {text callee} {is : List (Instr ℓ φ)} {i : Instr ℓ φ} {l : ℓ} {f : φ} {s t t' : Cpu}

lemma Returns.straight (hi : i.Straight) (h : Returns text callee is (s.exec i) t) :
    Returns text callee (i :: is) s t := by
  obtain ⟨fuel, h⟩ := h
  refine ⟨fuel + 1, ?_⟩
  cases i <;> first | exact h | exact hi.elim

lemma Returns.jmp (h : Returns text callee (text l) s t) :
    Returns text callee (.jmp l :: is) s t := by
  obtain ⟨fuel, h⟩ := h
  exact ⟨fuel + 1, h⟩

lemma Returns.jmpFar {g : BitVec 16} (h : Returns text callee (text l) (s.setSeg .cs g) t) :
    Returns text callee (.jmpFar g l :: is) s t := by
  obtain ⟨fuel, h⟩ := h
  exact ⟨fuel + 1, h⟩

lemma Returns.jnz (h : Returns text callee (if s.eflags.getLsbD ZF then is else text l) s t) :
    Returns text callee (.jnz l :: is) s t := by
  obtain ⟨fuel, h⟩ := h
  refine ⟨fuel + 1, ?_⟩
  simp only [run]
  by_cases hz : s.eflags.getLsbD ZF
  · rwa [if_pos hz] at h ⊢
  · rwa [if_neg hz] at h ⊢

lemma Returns.call (h : Returns text callee is (callee f s) t) :
    Returns text callee (.call f :: is) s t := by
  obtain ⟨fuel, h⟩ := h
  exact ⟨fuel + 1, h⟩

lemma Returns.ret : Returns text callee (.ret :: is) s (s.exec (.ret : Instr ℓ φ)) := ⟨1, rfl⟩

lemma Returns.iret : Returns text callee (.iret :: is) s s.iret := ⟨1, rfl⟩

lemma run_mono {n m : ℕ} (hnm : n ≤ m) (h : run text callee n is s = some t) :
    run text callee m is s = some t := by
  induction n generalizing m is s with
  | zero => simp [run] at h
  | succ n ih =>
    obtain ⟨m, rfl⟩ : ∃ k, m = k + 1 := ⟨m - 1, by omega⟩
    have hle : n ≤ m := by omega
    cases is with
    | nil => simp [run] at h
    | cons i is =>
      cases i with
      | jnz l =>
        simp only [run] at h ⊢
        by_cases hz : s.eflags.getLsbD ZF
        · rw [if_pos hz] at h ⊢
          exact ih hle h
        · rw [if_neg hz] at h ⊢
          exact ih hle h
      | jmpReg r => exact h
      | ret => exact h
      | iret => exact h
      | _ =>
        simp only [run] at h ⊢
        exact ih hle h

lemma Returns.unique (h : Returns text callee is s t) (h' : Returns text callee is s t') :
    t = t' := by
  obtain ⟨n, h⟩ := h
  obtain ⟨m, h'⟩ := h'
  have h1 := run_mono (Nat.le_max_left n m) h
  rw [run_mono (Nat.le_max_right n m) h'] at h1
  exact (Option.some.inj h1).symm

lemma Returns.block {js : List (Instr ℓ φ)} (hjs : ∀ i ∈ js, i.Straight)
    (h : Returns text callee is (js.foldl (fun s i => s.exec i) s) t) :
    Returns text callee (js ++ is) s t := by
  induction js generalizing s with
  | nil => exact h
  | cons j js ih =>
    rw [List.forall_mem_cons] at hjs
    exact Returns.straight hjs.1 (ih hjs.2 h)

end Run

/-! ### Loads and stores -/

namespace Cpu

variable {s : Cpu} {a b v : BitVec 32} {r : Reg} {n : ℕ}

lemma phys_mod (s : Cpu) (x : ℕ) : s.phys (x % 2 ^ 32) = s.phys x := by
  unfold phys
  rw [Nat.mod_mod]

lemma phys_congr {x y : ℕ} (h : x % 2 ^ 32 = y % 2 ^ 32) : s.phys x = s.phys y := by
  rw [← phys_mod s x, h, phys_mod]

lemma load_eq_of_bytes (h : ∀ i < 4, s.mem (s.phys (a.toNat + i)) = byteOf v.toNat i) :
    s.load a = v := by
  have hwrite := (stores_write32 (m := fun _ => 0) (a := a.toNat) (v := v.toNat)).holds
  have hread : read32 s.view a.toNat = read32 (write32 (fun _ => 0) a.toNat v.toNat) a.toNat := by
    refine read32_congr fun i hi => ?_
    rw [hwrite _ (mem_wordCells.mpr ⟨i, hi, rfl⟩), ← h i hi]
    exact congrArg s.mem (phys_mod s _)
  unfold load
  rw [hread, read32_write32 v.isLt, BitVec.ofNat_toNat, BitVec.setWidth_eq]

lemma byteOf_load (s : Cpu) (a : BitVec 32) {i : ℕ} (hi : i < 4) :
    byteOf (s.load a).toNat i = s.mem (s.phys (a.toNat + i)) := by
  have hlt : read32 s.view a.toNat < 2 ^ 32 := read32_lt _ _
  have hcells := (holds_wordCells (m := s.view) (a := a.toNat) hlt).mpr rfl
  have hbyte := hcells _ (mem_wordCells.mpr ⟨i, hi, rfl⟩)
  have hv : (s.load a).toNat = read32 s.view a.toNat := by
    unfold load
    rw [BitVec.toNat_ofNat, Nat.mod_eq_of_lt hlt]
  rw [hv]
  exact hbyte.symm.trans (congrArg s.mem (phys_mod s _))

lemma phys_of_not_paging (h : s.cr0.getLsbD PG = false) (x : ℕ) : s.phys x = x % 2 ^ 32 := by
  unfold phys
  rw [h]
  rfl

lemma load_congr {t : Cpu} (h : ∀ i < 4, t.mem (t.phys (a.toNat + i)) = s.mem (s.phys (a.toNat + i))) :
    t.load a = s.load a := by
  have hread : read32 t.view a.toNat = read32 s.view a.toNat := by
    refine read32_congr fun i hi => ?_
    have hbyte := h i hi
    rwa [← phys_mod t, ← phys_mod s] at hbyte
  unfold load
  rw [hread]

lemma mem_store (s : Cpu) (a v : BitVec 32) : (s.store a v).mem =
    Function.update (Function.update (Function.update (Function.update s.mem
      (s.phys a.toNat) (byteOf v.toNat 0)) (s.phys (a.toNat + 1)) (byteOf v.toNat 1))
      (s.phys (a.toNat + 2)) (byteOf v.toNat 2)) (s.phys (a.toNat + 3)) (byteOf v.toNat 3) := rfl

lemma phys_store (s : Cpu) (a v : BitVec 32) : (s.store a v).phys = s.phys := rfl

theorem load_store_self
    (h : ∀ i < 4, ∀ j < 4, s.phys (a.toNat + i) = s.phys (a.toNat + j) → i = j) :
    (s.store a v).load a = v := by
  refine load_eq_of_bytes fun i hi => ?_
  have hne (j k : ℕ) (hj : j < 4) (hk : k < 4) (hjk : j ≠ k) :
      s.phys (a.toNat + j) ≠ s.phys (a.toNat + k) := fun he => hjk (h j hj k hk he)
  rw [phys_store, mem_store]
  rcases (show i = 0 ∨ i = 1 ∨ i = 2 ∨ i = 3 by omega) with rfl | rfl | rfl | rfl
  · rw [Function.update_of_ne (hne 0 3 hi (by decide) (by decide)),
      Function.update_of_ne (hne 0 2 hi (by decide) (by decide)),
      Function.update_of_ne (hne 0 1 hi (by decide) (by decide))]
    exact Function.update_self _ _ _
  · rw [Function.update_of_ne (hne 1 3 hi (by decide) (by decide)),
      Function.update_of_ne (hne 1 2 hi (by decide) (by decide)), Function.update_self]
  · rw [Function.update_of_ne (hne 2 3 hi (by decide) (by decide)), Function.update_self]
  · rw [Function.update_self]

lemma mem_store_of_ne {x : ℕ} (h : ∀ i < 4, x ≠ s.phys (a.toNat + i)) :
    (s.store a v).mem x = s.mem x := by
  rw [mem_store, Function.update_of_ne (h 3 (by decide)), Function.update_of_ne (h 2 (by decide)),
    Function.update_of_ne (h 1 (by decide))]
  exact Function.update_of_ne (h 0 (by decide)) _ _

lemma load_store_of_ne
    (h : ∀ i < 4, ∀ j < 4, s.phys (b.toNat + i) ≠ s.phys (a.toNat + j)) :
    (s.store a v).load b = s.load b :=
  load_congr fun i hi => mem_store_of_ne (h i hi)

end Cpu

/-! ### The stack -/

/-- The words at the stack pointer are `ws`. Below them are `room` bytes, and the page tables keep
all these bytes apart. -/
structure Stack (s : Cpu) (room : ℕ) (ws : List (BitVec 32)) : Prop where
  fits : room + 4 * ws.length ≤ 2 ^ 32
  apart : ∀ i < room + 4 * ws.length, ∀ j < room + 4 * ws.length,
    s.phys ((s.regs .esp - BitVec.ofNat 32 room).toNat + i) =
      s.phys ((s.regs .esp - BitVec.ofNat 32 room).toNat + j) → i = j
  words : ∀ i (hi : i < ws.length), s.load (s.regs .esp + BitVec.ofNat 32 (4 * i)) = ws[i]

namespace Stack

variable {s t : Cpu} {room : ℕ} {ws vs : List (BitVec 32)} {v : BitVec 32}

lemma congr (h : Stack s room ws) (hesp : t.regs .esp = s.regs .esp) (hphys : t.phys = s.phys)
    (hmem : t.mem = s.mem) : Stack t room ws := by
  refine ⟨h.fits, fun i hi j hj he => ?_, fun i hi => ?_⟩
  · rw [hesp, hphys] at he
    exact h.apart i hi j hj he
  · rw [hesp, ← h.words i hi]
    exact Cpu.load_congr fun k _ => by rw [hphys, hmem]

/-- Bytes of the stack are apart, wherever they are counted from. -/
lemma phys_ne (h : Stack s room ws) {x y i j : ℕ} (hi : i < room + 4 * ws.length)
    (hj : j < room + 4 * ws.length) (hij : i ≠ j)
    (hx : x % 2 ^ 32 = ((s.regs .esp - BitVec.ofNat 32 room).toNat + i) % 2 ^ 32)
    (hy : y % 2 ^ 32 = ((s.regs .esp - BitVec.ofNat 32 room).toNat + j) % 2 ^ 32) :
    s.phys x ≠ s.phys y := by
  intro he
  rw [Cpu.phys_congr hx, Cpu.phys_congr hy] at he
  exact hij (h.apart i hi j hj he)

theorem push (h : Stack s (room + 4) ws) : Stack (s.push v) room (v :: ws) := by
  have hfits := h.fits
  have hbase : (s.push v).regs .esp - BitVec.ofNat 32 room =
      s.regs .esp - BitVec.ofNat 32 (room + 4) := by
    show s.regs .esp - 4 - BitVec.ofNat 32 room = _
    rw [BitVec.sub_sub, ← BitVec.ofNat_add_ofNat]
    rw [BitVec.add_comm]
    rfl
  have hlen : room + 4 * (v :: ws).length = room + 4 + 4 * ws.length := by
    rw [List.length_cons]
    omega
  have hroom : (BitVec.ofNat 32 (room + 4)).toNat = (room + 4) % 2 ^ 32 := BitVec.toNat_ofNat _ _
  -- where the new word is, counted from the lowest byte
  have hnew (k : ℕ) : ((s.regs .esp - 4).toNat + k) % 2 ^ 32 =
      ((s.regs .esp - BitVec.ofNat 32 (room + 4)).toNat + (room + k)) % 2 ^ 32 := by
    rw [BitVec.toNat_sub, BitVec.toNat_sub, hroom]
    have := (s.regs .esp).isLt
    show (((2 ^ 32 - 4 + (s.regs .esp).toNat) % 2 ^ 32) + k) % 2 ^ 32 = _
    omega
  refine ⟨by rw [hlen]; exact hfits, fun i hi j hj he => ?_, fun i hi => ?_⟩
  · rw [hlen] at hi hj
    rw [hbase] at he
    exact h.apart i hi j hj he
  · have hself (k l : ℕ) (hk : k < 4) (hl : l < 4)
        (he : s.phys ((s.regs .esp - 4).toNat + k) = s.phys ((s.regs .esp - 4).toNat + l)) :
        k = l := by
      by_contra hkl
      exact h.phys_ne (i := room + k) (j := room + l) (by omega) (by omega) (by omega) (hnew k)
        (hnew l) he
    cases i with
    | zero =>
      show (s.store (s.regs .esp - 4) v).load (s.regs .esp - 4 + BitVec.ofNat 32 (4 * 0)) = v
      rw [show BitVec.ofNat 32 (4 * 0) = 0#32 from rfl, BitVec.add_zero]
      exact Cpu.load_store_self fun k hk l hl => hself k l hk hl
    | succ i =>
      have hi' : i < ws.length := by simpa using hi
      have haddr : s.regs .esp - 4 + BitVec.ofNat 32 (4 * (i + 1)) =
          s.regs .esp + BitVec.ofNat 32 (4 * i) := by
        rw [Nat.mul_succ, ← BitVec.ofNat_add_ofNat, BitVec.add_comm (BitVec.ofNat 32 (4 * i)),
          ← BitVec.add_assoc]
        congr 1
        exact BitVec.sub_add_cancel _ _
      show (s.store (s.regs .esp - 4) v).load
        (s.regs .esp - 4 + BitVec.ofNat 32 (4 * (i + 1))) = ws[i]
      rw [haddr, ← h.words i hi']
      refine Cpu.load_store_of_ne fun k hk l hl => ?_
      refine h.phys_ne (i := room + 4 + 4 * i + k) (j := room + l) (by omega) (by omega) (by omega)
        ?_ (hnew l)
      rw [BitVec.toNat_add, BitVec.toNat_sub, hroom, BitVec.toNat_ofNat]
      have := (s.regs .esp).isLt
      omega

lemma pushAll (h : Stack s (room + 4 * vs.length) ws) :
    Stack (Cpu.pushAll vs s) room (vs.reverse ++ ws) := by
  induction vs generalizing s ws with
  | nil => exact h
  | cons v vs ih =>
    rw [List.reverse_cons, List.append_assoc, List.singleton_append]
    refine ih (push (v := v) ?_)
    rwa [List.length_cons, show room + 4 * (vs.length + 1) = room + 4 * vs.length + 4 by omega] at h

lemma top (h : Stack s room (v :: ws)) : s.top = v := by
  have hword := h.words 0 (by simp)
  rwa [show BitVec.ofNat 32 (4 * 0) = 0#32 from rfl, BitVec.add_zero] at hword

theorem drop (h : Stack s room (vs ++ ws)) :
    Stack (s.drop (BitVec.ofNat 32 (4 * vs.length))) (room + 4 * vs.length) ws := by
  set n := BitVec.ofNat 32 (4 * vs.length) with hn
  have hesp : (s.drop n).regs .esp = s.regs .esp + n := by simp [Cpu.drop, Cpu.setReg]
  have hbase : (s.drop n).regs .esp - BitVec.ofNat 32 (room + 4 * vs.length) =
      s.regs .esp - BitVec.ofNat 32 room := by
    rw [hesp, ← BitVec.ofNat_add_ofNat, BitVec.add_comm (BitVec.ofNat 32 room), ← BitVec.sub_sub,
      BitVec.add_sub_cancel]
  have hlen : room + 4 * vs.length + 4 * ws.length = room + 4 * (vs ++ ws).length := by
    rw [List.length_append]
    omega
  refine ⟨by rw [hlen]; exact h.fits, fun i hi j hj he => ?_, fun i hi => ?_⟩
  · rw [hlen] at hi hj
    rw [hbase] at he
    exact h.apart i hi j hj he
  · have hword := h.words (vs.length + i) (by rw [List.length_append]; omega)
    rw [List.getElem_append_right (by omega)] at hword
    simp only [Nat.add_sub_cancel_left] at hword
    rw [hesp, hn, BitVec.add_assoc, BitVec.ofNat_add_ofNat, ← Nat.mul_add]
    exact hword

end Stack

/-! ### What a stack of words costs -/

/-- Two states with one stack. -/
structure SameStack (s t : Cpu) : Prop where
  esp : s.regs .esp = t.regs .esp
  phys : s.phys = t.phys
  mem : s.mem = t.mem

lemma SameStack.rfl {s : Cpu} : SameStack s s := ⟨Eq.refl _, Eq.refl _, Eq.refl _⟩

lemma SameStack.trans {s t u : Cpu} (h : SameStack s t) (h' : SameStack t u) : SameStack s u :=
  ⟨h.esp.trans h'.esp, h.phys.trans h'.phys, h.mem.trans h'.mem⟩

lemma SameStack.setReg {s t : Cpu} (h : SameStack s t) {r : Reg} (hr : r ≠ .esp) (v : BitVec 32) :
    SameStack (s.setReg r v) t :=
  ⟨(Function.update_of_ne hr.symm _ _).trans h.esp, h.phys, h.mem⟩

lemma SameStack.setSeg {s t : Cpu} (h : SameStack s t) (g : Seg) (v : BitVec 16) :
    SameStack (s.setSeg g v) t := ⟨h.esp, h.phys, h.mem⟩

lemma SameStack.push {s t : Cpu} (h : SameStack s t) (v : BitVec 32) :
    SameStack (s.push v) (t.push v) := by
  refine ⟨?_, h.phys, ?_⟩
  · simp [Cpu.push, Cpu.setReg, h.esp]
  · show (s.store (s.regs .esp - 4) v).mem = (t.store (t.regs .esp - 4) v).mem
    rw [Cpu.mem_store, Cpu.mem_store, h.esp, h.phys, h.mem]

lemma SameStack.pushAll {s t : Cpu} (h : SameStack s t) (vs : List (BitVec 32)) :
    SameStack (Cpu.pushAll vs s) (Cpu.pushAll vs t) := by
  induction vs generalizing s t with
  | nil => exact h
  | cons v vs ih => exact ih (h.push v)

namespace Cpu

variable {s : Cpu} {v : BitVec 32} {vs : List (BitVec 32)}

lemma pushAll_append (vs ws : List (BitVec 32)) (s : Cpu) :
    pushAll (vs ++ ws) s = pushAll ws (pushAll vs s) := List.foldl_append

lemma esp_push (s : Cpu) (v : BitVec 32) : (s.push v).regs .esp = s.regs .esp - 4 := by
  simp [push, setReg]

lemma regs_push_of_ne {r : Reg} (h : r ≠ .esp) : (s.push v).regs r = s.regs r :=
  Function.update_of_ne h _ _

lemma esp_pushAll (vs : List (BitVec 32)) (s : Cpu) :
    (pushAll vs s).regs .esp = s.regs .esp - BitVec.ofNat 32 (4 * vs.length) := by
  induction vs generalizing s with
  | nil => simp [pushAll]
  | cons v vs ih =>
    show (pushAll vs (s.push v)).regs .esp = _
    rw [ih, esp_push, BitVec.sub_sub, List.length_cons, Nat.mul_succ, ← BitVec.ofNat_add_ofNat,
      BitVec.add_comm (BitVec.ofNat 32 (4 * vs.length))]
    rfl

lemma regs_pushAll_of_ne {r : Reg} (h : r ≠ .esp) (vs : List (BitVec 32)) (s : Cpu) :
    (pushAll vs s).regs r = s.regs r := by
  induction vs generalizing s with
  | nil => rfl
  | cons v vs ih =>
    show (pushAll vs (s.push v)).regs r = _
    rw [ih, regs_push_of_ne h]

lemma pushAll_rest (vs : List (BitVec 32)) (s : Cpu) :
    (pushAll vs s).segs = s.segs ∧ (pushAll vs s).eip = s.eip ∧
      (pushAll vs s).eflags = s.eflags ∧ (pushAll vs s).cr0 = s.cr0 ∧
      (pushAll vs s).walk = s.walk := by
  induction vs generalizing s with
  | nil => exact ⟨rfl, rfl, rfl, rfl, rfl⟩
  | cons v vs ih => exact ih (s.push v)

/-- The physical bytes of the `n` bytes below the stack pointer. -/
def below (s : Cpu) (n : ℕ) : Set ℕ :=
  {x | ∃ k, 1 ≤ k ∧ k ≤ n ∧ x = s.phys ((s.regs .esp).toNat + 2 ^ 32 - k)}

lemma below_mono {n m : ℕ} (h : n ≤ m) : s.below n ⊆ s.below m := by
  rintro x ⟨k, h1, hk, rfl⟩
  exact ⟨k, h1, by omega, rfl⟩

lemma below_of_esp {t : Cpu} {n d : ℕ} (hphys : t.phys = s.phys)
    (hesp : t.regs .esp = s.regs .esp - BitVec.ofNat 32 d) (hd : n + d ≤ 2 ^ 32) :
    t.below n ⊆ s.below (n + d) := by
  rintro x ⟨k, h1, hk, rfl⟩
  refine ⟨k + d, by omega, by omega, ?_⟩
  rw [hphys, hesp]
  refine phys_congr ?_
  rw [BitVec.toNat_sub, BitVec.toNat_ofNat]
  have := (s.regs .esp).isLt
  omega

theorem mem_pushAll (h : 4 * vs.length ≤ 2 ^ 32) :
    Writes s.mem (pushAll vs s).mem (s.below (4 * vs.length)) := by
  induction vs generalizing s with
  | nil => exact .refl _ _
  | cons v vs ih =>
    rw [List.length_cons] at h ⊢
    have hpush : Writes s.mem (s.push v).mem (s.below 4) := by
      intro x hx
      refine mem_store_of_ne fun i hi he => hx ⟨4 - i, by omega, by omega, ?_⟩
      rw [he]
      refine phys_congr ?_
      rw [BitVec.toNat_sub]
      have := (s.regs .esp).isLt
      rw [show BitVec.toNat (4 : BitVec 32) = 4 from rfl]
      omega
    have hrest := ih (s := s.push v) (by omega)
    refine (hpush.mono (below_mono (by omega))).trans (hrest.mono ?_)
    exact below_of_esp rfl (esp_push s v) (by omega)

end Cpu

end OsImplement.Lib.X86
