import OsImplement.Lib.X86
import OsImplement.Interrupt.Descriptors

/-!
The interrupt stubs (`interrupt.s`).

A stub pushes what the processor did not, so that the handler finds one frame for every vector, and
takes it down again when the handler returns. The C functions that the stubs call are not part of
this file: `callee` stands for them, from the call to the return, and may be anything in between,
other tasks included.
-/

namespace OsImplement.Interrupt

open Lib.X86 Lib.Bytes

/-! ### The text -/

inductive Label where
  | isr (n : ℕ)
  | irq (n : ℕ)
  | isrCommonStub
  | irqCommonStub

/-- The functions of `isr.c` that the stubs call. -/
inductive Callee where
  | isrHandler
  | irqHandler

abbrev Code := List (Instr Label Callee)

/-- The vectors that `ISR_ERRCODE` is used for. -/
def hasErrcode (n : ℕ) : Bool := n == 8 || 10 ≤ n && n ≤ 14

/-- `ISR_NOERRCODE`, up to the jump -/
def isrNoerrcode (n : ℕ) : Code := [.cli, .pushByte 0, .pushByte (BitVec.ofNat 8 n)]

/-- `ISR_ERRCODE`, up to the jump -/
def isrErrcode (n : ℕ) : Code := [.cli, .pushByte (BitVec.ofNat 8 n)]

/-- `IRQ`, up to the jump, with the vector of the interrupt. -/
def irqEntry (vector : ℕ) : Code := [.cli, .pushByte 0, .pushByte (BitVec.ofNat 8 vector)]

/-- The first half of a common stub. -/
def saveState : Code :=
  [.pusha, .movFromSeg .eax .ds, .push .eax, .movLow .eax 0x10, .movToSeg .ds .eax,
    .movToSeg .es .eax, .movToSeg .fs .eax, .movToSeg .gs .eax]

/-- The second half, up to `iret`. The two common stubs take different registers here. -/
def restoreState (r : Reg) : Code :=
  [.pop r, .movToSeg .ds r, .movToSeg .es r, .movToSeg .fs r, .movToSeg .gs r, .popa,
    .add .esp 8, .sti]

/-- The vector of a stub, up to the jump. -/
def entryOf (n : ℕ) : Code :=
  if n < 32 then if hasErrcode n then isrErrcode n else isrNoerrcode n else irqEntry n

/-- `interrupt.s` -/
def text : Label → Code
  | .isr n => (if hasErrcode n then isrErrcode n else isrNoerrcode n) ++ [.jmp .isrCommonStub]
  | .irq n => irqEntry (32 + n) ++ [.jmp .irqCommonStub]
  | .isrCommonStub => saveState ++ .call .isrHandler :: (restoreState .eax ++ [.iret])
  | .irqCommonStub => saveState ++ .call .irqHandler :: (restoreState .ebx ++ [.iret])

/-- The stub of a vector, as `idt_init` sets the gates. -/
def stubOf (n : ℕ) : Label := if n < 32 then .isr n else .irq (n - 32)

def handlerOf (n : ℕ) : Callee := if n < 32 then .isrHandler else .irqHandler

/-! ### The processor -/

/-- An interrupt is taken through a gate, without a change of privilege: the flags, the code
segment and the next instruction are pushed, and for some exceptions an error code. An interrupt
gate clears the interrupt flag, and `TF`, `NT` and `RF` with it. -/
def take (gate : Gate) (err : Option (BitVec 32)) (s : Cpu) : Cpu :=
  let t := s.pushAll ([s.eflags, (s.segs .cs).setWidth 32, s.eip] ++ err.toList)
  { t.setSeg .cs (BitVec.ofNat 16 gate.selector) with
      eip := BitVec.ofNat 32 gate.offset
      eflags := setBit (setBit (setBit (setBit s.eflags IF false) 8 false) 14 false) 16 false }

/-- The state at the call of the handler, from the state at the stub's first instruction. -/
def atCall (n : ℕ) (s : Cpu) : Cpu :=
  saveState.foldl (fun s i => s.exec i) ((entryOf n).foldl (fun s i => s.exec i) s)

/-- `registers_t`, without the two words that the processor pushes on a change of privilege. -/
structure Registers where
  ds : BitVec 32
  edi : BitVec 32
  esi : BitVec 32
  ebp : BitVec 32
  esp : BitVec 32
  ebx : BitVec 32
  edx : BitVec 32
  ecx : BitVec 32
  eax : BitVec 32
  intNo : BitVec 32
  errCode : BitVec 32
  eip : BitVec 32
  cs : BitVec 32
  eflags : BitVec 32
  deriving DecidableEq

/-- Word `i` of the stack. -/
def stackWord (s : Cpu) (i : ℕ) : BitVec 32 := s.load (s.regs .esp + BitVec.ofNat 32 (4 * i))

/-- The argument of the handler: the words at the stack pointer. -/
def registersAt (s : Cpu) : Registers where
  ds := stackWord s 0
  edi := stackWord s 1
  esi := stackWord s 2
  ebp := stackWord s 3
  esp := stackWord s 4
  ebx := stackWord s 5
  edx := stackWord s 6
  ecx := stackWord s 7
  eax := stackWord s 8
  intNo := stackWord s 9
  errCode := stackWord s 10
  eip := stackWord s 11
  cs := stackWord s 12
  eflags := stackWord s 13

/-- The state behind `iret`, from the state behind the call. -/
def resumed (t : Cpu) : Cpu where
  regs
    | .edi => stackWord t 1
    | .esi => stackWord t 2
    | .ebp => stackWord t 3
    | .esp => t.regs .esp + 56
    | .ebx => stackWord t 5
    | .edx => stackWord t 6
    | .ecx => stackWord t 7
    | .eax => stackWord t 8
  segs
    | .cs => (stackWord t 12).setWidth 16
    | .ss => t.segs .ss
    | .ds | .es | .fs | .gs => (stackWord t 0).setWidth 16
  eip := stackWord t 11
  eflags := stackWord t 13
  cr0 := t.cr0
  gdtr := t.gdtr
  idtr := t.idtr
  walk := t.walk
  mem := t.mem

/-- What the handler must leave alone, from its call in `c` to its return in `t`: the stack pointer,
the stack segment and the words of the frame. -/
structure Keeps (c t : Cpu) : Prop where
  esp : t.regs .esp = c.regs .esp
  ss : t.segs .ss = c.segs .ss
  frame : ∀ i < 14, stackWord t i = stackWord c i

/-- The program goes on in `r` where it was in `s`. -/
structure Restores (s r : Cpu) : Prop where
  regs : r.regs = s.regs
  segs : r.segs = s.segs
  eip : r.eip = s.eip
  eflags : r.eflags = s.eflags

/-! ### The way in -/

section In

variable {n : ℕ} {gate : Gate} {err : Option (BitVec 32)} {s t : Cpu}

/-- The words between the number of the vector and what the processor has pushed. -/
def padding (n : ℕ) : List (BitVec 32) := if hasErrcode n then [] else [0]

/-- The words on the stack when the handler is called. -/
def frameWords (n : ℕ) (err : Option (BitVec 32)) (s : Cpu) : List (BitVec 32) :=
  [withLow (s.regs .eax) (s.segs .ds), s.regs .edi, s.regs .esi, s.regs .ebp,
    s.regs .esp - BitVec.ofNat 32 (4 * (padding n ++ err.toList).length + 16), s.regs .ebx,
    s.regs .edx, s.regs .ecx, s.regs .eax, BitVec.ofNat 32 n] ++
  (padding n ++ (err.toList ++ [s.eip, (s.segs .cs).setWidth 32, s.eflags]))

lemma hasErrcode_of_le (h : 32 ≤ n) : hasErrcode n = false := by
  simp [hasErrcode]
  omega

lemma signExtend_vector (h : n < 48) : (BitVec.ofNat 8 n).signExtend 32 = BitVec.ofNat 32 n := by
  revert h
  revert n
  decide

lemma entryOf_foldl (hn : n < 48) (t : Cpu) : (entryOf n).foldl (fun s i => s.exec i) t =
    Cpu.pushAll (padding n ++ [BitVec.ofNat 32 n]) { t with eflags := setBit t.eflags IF false } := by
  have hvector := signExtend_vector hn
  by_cases hlt : n < 32
  · rw [entryOf, if_pos hlt, padding]
    cases hasErrcode n <;>
      simp [isrErrcode, isrNoerrcode, Cpu.exec, Cpu.pushAll, hvector]
  · rw [entryOf, if_neg hlt, padding, hasErrcode_of_le (by omega)]
    simp [irqEntry, Cpu.exec, Cpu.pushAll, hvector]

/-- The words that the first half of a common stub pushes, the last one first. -/
def savedWords (t : Cpu) : List (BitVec 32) :=
  [t.regs .eax, t.regs .ecx, t.regs .edx, t.regs .ebx, t.regs .esp, t.regs .ebp, t.regs .esi,
    t.regs .edi, withLow (t.regs .eax) (t.segs .ds)]

lemma saveState_foldl (t : Cpu) : saveState.foldl (fun s i => s.exec i) t =
    (((((((t.pusha.setReg .eax (withLow (t.regs .eax) (t.segs .ds))).push
      (withLow (t.regs .eax) (t.segs .ds))).setReg .eax
        (withLow (withLow (t.regs .eax) (t.segs .ds)) 0x10)).setSeg .ds 0x10).setSeg .es
        0x10).setSeg .fs 0x10).setSeg .gs 0x10) := by
  have heax : t.pusha.regs .eax = t.regs .eax := Cpu.regs_pushAll_of_ne (by decide) _ _
  have hds : t.pusha.segs .ds = t.segs .ds := congrFun (Cpu.pushAll_rest _ _).1 _
  simp only [saveState, List.foldl, Cpu.exec, heax, hds, Cpu.regs_setReg_self, Cpu.regs_setSeg,
    Cpu.regs_push_of_ne (show Reg.eax ≠ .esp by decide), setWidth_withLow]

lemma saveState_sameStack (t : Cpu) :
    SameStack (saveState.foldl (fun s i => s.exec i) t) (Cpu.pushAll (savedWords t) t) := by
  rw [saveState_foldl]
  refine .setSeg (.setSeg (.setSeg (.setSeg (.setReg ?_ (by decide) _) _ _) _ _) _ _) _ _
  exact (SameStack.setReg .rfl (by decide) _).push _

/-- What the processor and the first half of a stub push is one row of words. -/
lemma atCall_sameStack (hn : n < 48) (gate : Gate) (err : Option (BitVec 32)) (s : Cpu) :
    SameStack (atCall n (take gate err s)) (Cpu.pushAll (frameWords n err s).reverse s) := by
  set pushed := [s.eflags, (s.segs .cs).setWidth 32, s.eip] ++ err.toList with hpushed
  set t := take gate err s with ht
  set u := (entryOf n).foldl (fun s i => s.exec i) t with hu
  have htake : SameStack t (Cpu.pushAll pushed s) := ⟨rfl, rfl, rfl⟩
  have hentry : u = Cpu.pushAll (padding n ++ [BitVec.ofNat 32 n])
      { t with eflags := setBit t.eflags IF false } := entryOf_foldl hn t
  have hregs (r : Reg) (hr : r ≠ .esp) : u.regs r = s.regs r := by
    rw [hentry, Cpu.regs_pushAll_of_ne hr]
    exact Cpu.regs_pushAll_of_ne hr pushed s
  have hds : u.segs .ds = s.segs .ds := by
    rw [hentry, (Cpu.pushAll_rest _ _).1]
    simp [ht, take, Cpu.setSeg, Cpu.pushAll_rest]
  have hesp : u.regs .esp =
      s.regs .esp - BitVec.ofNat 32 (4 * (padding n ++ err.toList).length + 16) := by
    rw [hentry, Cpu.esp_pushAll]
    show t.regs .esp - _ = _
    rw [htake.esp, Cpu.esp_pushAll, BitVec.sub_sub, BitVec.ofNat_add_ofNat]
    congr 2
    simp [hpushed]
    omega
  -- the words, in the order in which they are pushed
  have hwords : (frameWords n err s).reverse =
      pushed ++ (padding n ++ [BitVec.ofNat 32 n]) ++ savedWords u := by
    have hpad : (padding n).reverse = padding n := by
      unfold padding
      split <;> rfl
    have herr : err.toList.reverse = err.toList := by cases err <;> rfl
    simp [frameWords, savedWords, hregs, hds, hesp, hpushed, hpad, herr]
  rw [hwords, Cpu.pushAll_append, Cpu.pushAll_append]
  refine (saveState_sameStack u).trans (SameStack.pushAll ?_ _)
  rw [hentry]
  refine SameStack.pushAll (SameStack.trans ?_ htake) _
  exact ⟨rfl, rfl, rfl⟩

lemma length_frameWords (n : ℕ) (err : Option (BitVec 32)) (s : Cpu) :
    (frameWords n err s).length = 13 + (padding n ++ err.toList).length := by
  simp [frameWords]
  omega

lemma length_padding (n : ℕ) (err : Option (BitVec 32)) : (padding n ++ err.toList).length ≤ 2 := by
  unfold padding
  cases err <;> split <;> simp

/-- Where the processor pushes an error code and the stub expects one, or neither, the frame has
fourteen words. -/
lemma length_padding_eq_one_iff :
    (padding n ++ err.toList).length = 1 ↔ err.isSome = hasErrcode n := by
  unfold padding
  cases err <;> cases hasErrcode n <;> simp

theorem stack_atCall (hn : n < 48) (gate : Gate) (err : Option (BitVec 32)) (hstack : Stack s 64 []) :
    Stack (atCall n (take gate err s)) (64 - 4 * (frameWords n err s).length)
      (frameWords n err s) := by
  have hsame := atCall_sameStack hn gate err s
  have hlen := length_frameWords n err s
  have hpad := length_padding n err
  have hroom : Stack s (64 - 4 * (frameWords n err s).length +
      4 * (frameWords n err s).reverse.length) [] := by
    rw [List.length_reverse, Nat.sub_add_cancel (by omega)]
    exact hstack
  have hpush := hroom.pushAll
  rw [List.reverse_reverse, List.append_nil] at hpush
  exact hpush.congr hsame.esp hsame.phys hsame.mem

lemma frameWords_eq (herr : err.isSome = hasErrcode n) : frameWords n err s =
    [withLow (s.regs .eax) (s.segs .ds), s.regs .edi, s.regs .esi, s.regs .ebp,
      s.regs .esp - 20, s.regs .ebx, s.regs .edx, s.regs .ecx, s.regs .eax, BitVec.ofNat 32 n,
      err.getD 0, s.eip, (s.segs .cs).setWidth 32, s.eflags] := by
  unfold frameWords
  rw [length_padding_eq_one_iff.mpr herr]
  unfold padding
  cases err with
  | none =>
    rw [← herr]
    rfl
  | some e =>
    rw [← herr]
    rfl

lemma eflags_atCall (hn : n < 48) (t : Cpu) : (atCall n t).eflags = setBit t.eflags IF false := by
  unfold atCall
  rw [saveState_foldl, entryOf_foldl hn]
  simp [Cpu.setSeg, Cpu.setReg, Cpu.push, Cpu.pusha, Cpu.store, Cpu.storeByte, Cpu.pushAll_rest]

lemma segs_atCall (n : ℕ) (t : Cpu) {g : Seg} (hg : g ∈ [Seg.ds, .es, .fs, .gs]) :
    (atCall n t).segs g = 0x10 := by
  unfold atCall
  rw [saveState_foldl]
  simp only [List.mem_cons, List.not_mem_nil, or_false] at hg
  rcases hg with rfl | rfl | rfl | rfl <;> simp [Cpu.setSeg]

lemma ss_atCall (hn : n < 48) (gate : Gate) (err : Option (BitVec 32)) (s : Cpu) :
    (atCall n (take gate err s)).segs .ss = s.segs .ss := by
  unfold atCall
  rw [saveState_foldl, entryOf_foldl hn]
  simp [Cpu.setSeg, Cpu.push, Cpu.pusha, Cpu.store, Cpu.storeByte, take, Cpu.pushAll_rest]

/-- **The frame, as the handler sees it**: the registers of the interrupted program, the number of
the vector and the error code. -/
lemma registersAt_eq (hn : n < 48) (gate : Gate) (hstack : Stack s 64 [])
    (herr : err.isSome = hasErrcode n) : registersAt (atCall n (take gate err s)) =
      { ds := withLow (s.regs .eax) (s.segs .ds), edi := s.regs .edi, esi := s.regs .esi,
        ebp := s.regs .ebp, esp := s.regs .esp - 20, ebx := s.regs .ebx, edx := s.regs .edx,
        ecx := s.regs .ecx, eax := s.regs .eax, intNo := BitVec.ofNat 32 n,
        errCode := err.getD 0, eip := s.eip, cs := (s.segs .cs).setWidth 32,
        eflags := s.eflags } := by
  have hwords := (stack_atCall hn gate err hstack).words
  rw [frameWords_eq herr] at hwords
  have hword (i : ℕ) (hi : i < 14) := hwords i hi
  simp only [registersAt, stackWord, Registers.mk.injEq]
  exact ⟨hword 0 (by decide), hword 1 (by decide), hword 2 (by decide), hword 3 (by decide),
    hword 4 (by decide), hword 5 (by decide), hword 6 (by decide), hword 7 (by decide),
    hword 8 (by decide), hword 9 (by decide), hword 10 (by decide), hword 11 (by decide),
    hword 12 (by decide), hword 13 (by decide)⟩

/-- **Every interrupt finds one frame.** Through the gates of `idt_init`, and where the processor
pushes an error code exactly for the vectors that `ISR_ERRCODE` is used for, the handler is called
with the registers of the interrupted program, the number of the vector and the error code, in the
kernel's segments and with interrupts off. Of memory, the bytes below the stack pointer change. -/
theorem registersAt_atCall {stub : ℕ → ℕ} {idt ptr : ℕ} (hidt : idt < 2 ^ 32)
    (hstub : ∀ n < 48, stub n < 2 ^ 32) (hapart : PtrApart ptr idt 2048) (m : Mem) (hn : n < 48)
    (hstack : Stack s 64 []) (herr : err.isSome = hasErrcode n) :
    let t := take (gateAt (idtInit stub idt ptr m).1 idt n) err s
    t.eip = BitVec.ofNat 32 (stub n) ∧ t.segs .cs = 0x08 ∧
      registersAt (atCall n t) =
        { ds := withLow (s.regs .eax) (s.segs .ds), edi := s.regs .edi, esi := s.regs .esi,
          ebp := s.regs .ebp, esp := s.regs .esp - 20, ebx := s.regs .ebx, edx := s.regs .edx,
          ecx := s.regs .ecx, eax := s.regs .eax, intNo := BitVec.ofNat 32 n,
          errCode := err.getD 0, eip := s.eip, cs := (s.segs .cs).setWidth 32,
          eflags := s.eflags } ∧
      (∀ g ∈ [Seg.ds, .es, .fs, .gs], (atCall n t).segs g = 0x10) ∧
      (atCall n t).eflags.getLsbD IF = false ∧
      Writes s.mem (atCall n t).mem (s.below 56) := by
  intro t
  have hgate : gateAt (idtInit stub idt ptr m).1 idt n = ⟨stub n, 0x08, true, 0, 14⟩ := by
    rw [(gateAt_idtInit hidt hstub hapart m).1 n (by omega), if_pos hn]
  have hsame := atCall_sameStack hn (gateAt (idtInit stub idt ptr m).1 idt n) err s
  have hlen : (frameWords n err s).length = 14 := by rw [frameWords_eq herr]; rfl
  refine ⟨?_, ?_, registersAt_eq hn _ hstack herr, fun g hg => segs_atCall n t hg, ?_, ?_⟩
  · show BitVec.ofNat 32 (gateAt (idtInit stub idt ptr m).1 idt n).offset = _
    rw [hgate]
  · simp [t, take, hgate, Cpu.setSeg]
  · rw [eflags_atCall hn]
    simp [setBit, IF]
  · rw [hsame.mem]
    have hmem : Writes s.mem (Cpu.pushAll (frameWords n err s).reverse s).mem
        (s.below (4 * (frameWords n err s).reverse.length)) :=
      Cpu.mem_pushAll (by rw [List.length_reverse, hlen]; decide)
    rwa [List.length_reverse, hlen] at hmem

/-- A processor without paging, with one data segment and a stack. -/
def bare : Cpu where
  regs := fun _ => 0x9000
  segs := fun g => if g = .cs then 0x08 else 0x10
  eip := 0x100000
  eflags := 0x202
  cr0 := 0
  gdtr := (0, 0)
  idtr := (0, 0)
  walk := id
  mem := fun _ => 0

lemma stack_bare : Stack bare 64 [] := by
  have hphys (i : ℕ) (hi : i < 64) :
      bare.phys ((bare.regs .esp - BitVec.ofNat 32 64).toNat + i) = 0x9000 - 64 + i := by
    show (0x9000 - 64 + i) % 2 ^ 32 = _
    omega
  refine ⟨by decide, fun i hi j hj he => ?_, fun i hi => absurd hi (Nat.not_lt_zero i)⟩
  rw [hphys i hi, hphys j hj] at he
  omega

lemma ptrApart_bare : PtrApart 0x3000 0x2000 2048 := by
  intro k hk l hl
  omega

theorem registersAt_atCall_pageFault :
    (registersAt (atCall 14 (take (gateAt (idtInit (fun n => 0x100000 + 16 * n) 0x2000 0x3000
      fun _ => 0).1 0x2000 14) (some 2) bare))).errCode = 2 := by
  have hstub : ∀ n < 48, 0x100000 + 16 * n < 2 ^ 32 := fun n hn => by omega
  have herr : (some (2 : BitVec 32)).isSome = hasErrcode 14 := rfl
  have hframe := (registersAt_atCall (by decide) hstub ptrApart_bare (fun _ => 0) (by decide)
    stack_bare herr).2.2.1
  rw [hframe]
  rfl

end In

/-! ### The way out -/

section Out

variable {n : ℕ} {gate : Gate} {err : Option (BitVec 32)} {s t : Cpu} {callee : Callee → Cpu → Cpu}

lemma iret_restoreState {r : Reg} (hr : r = .eax ∨ r = .ebx) (t : Cpu) :
    ((restoreState r).foldl (fun s i => s.exec i) t).iret = resumed t := by
  have haddr (i j : ℕ) : t.regs .esp + BitVec.ofNat 32 i + BitVec.ofNat 32 j =
      t.regs .esp + BitVec.ofNat 32 (i + j) := by
    rw [BitVec.add_assoc, BitVec.ofNat_add_ofNat]
  have haddr₃ (i j k : ℕ) : t.regs .esp + BitVec.ofNat 32 i + BitVec.ofNat 32 j +
      BitVec.ofNat 32 k = t.regs .esp + BitVec.ofNat 32 (i + j + k) := by
    rw [haddr, BitVec.add_assoc, BitVec.ofNat_add_ofNat]
  have haddr₄ (i j k l : ℕ) : t.regs .esp + BitVec.ofNat 32 i + BitVec.ofNat 32 j +
      BitVec.ofNat 32 k + BitVec.ofNat 32 l = t.regs .esp + BitVec.ofNat 32 (i + j + k + l) := by
    rw [haddr₃, BitVec.add_assoc, BitVec.ofNat_add_ofNat]
  have htop : t.top = stackWord t 0 := congrArg t.load (BitVec.add_zero _).symm
  simp only [restoreState, List.foldl, Cpu.exec, Cpu.regs_setReg_self, Cpu.regs_setSeg, htop]
  -- words 1 to 8 are taken by `popa`, and 11 to 13 by `iret`
  rcases hr with rfl | rfl
  all_goals
    refine Cpu.ext (funext fun q => ?_) (funext fun g => ?_) ?_ ?_ rfl rfl rfl rfl rfl
    · cases q
      · exact congrArg t.load (haddr 4 28)
      · exact congrArg t.load (haddr 4 24)
      · exact congrArg t.load (haddr 4 20)
      · exact congrArg t.load (haddr 4 16)
      · exact haddr₄ 4 32 8 12
      · exact congrArg t.load (haddr 4 8)
      · exact congrArg t.load (haddr 4 4)
      · exact congrArg t.load (haddr 4 0)
    · cases g
      · exact congrArg (fun a => (t.load a).setWidth 16) (haddr₄ 4 32 8 4)
      all_goals rfl
    · exact congrArg t.load (haddr₄ 4 32 8 0)
    · exact congrArg t.load (haddr₄ 4 32 8 8)

/-- The second half of a common stub takes the frame down. The register that the two stubs take
differently is restored with the others. -/
lemma returns_restoreState {r : Reg} (hr : r = .eax ∨ r = .ebx) (t : Cpu) :
    Returns text callee (restoreState r ++ [.iret]) t (resumed t) := by
  refine Returns.block (by simp [restoreState, Instr.Straight]) ?_
  rw [← iret_restoreState hr t]
  exact Returns.iret

theorem returns_stub (callee : Callee → Cpu → Cpu) (n : ℕ) (t : Cpu) :
    Returns text callee (text (stubOf n)) t
      (resumed (callee (handlerOf n) (atCall n t))) := by
  have hentry : ∀ i ∈ entryOf n, i.Straight := by
    unfold entryOf isrErrcode isrNoerrcode irqEntry
    split
    · split <;> simp [Instr.Straight]
    · simp [Instr.Straight]
  have hsave : ∀ i ∈ saveState, i.Straight := by simp [saveState, Instr.Straight]
  by_cases hlt : n < 32
  · have htext : text (stubOf n) = entryOf n ++ [.jmp .isrCommonStub] := by
      simp [stubOf, entryOf, text, hlt]
    rw [htext, handlerOf, if_pos hlt]
    exact .block hentry (.jmp (.block hsave (.call (returns_restoreState (.inl rfl) _))))
  · have htext : text (stubOf n) = entryOf n ++ [.jmp .irqCommonStub] := by
      simp [stubOf, entryOf, text, hlt, show 32 + (n - 32) = n by omega]
    rw [htext, handlerOf, if_neg hlt]
    exact .block hentry (.jmp (.block hsave (.call (returns_restoreState (.inr rfl) _))))

lemma esp_resumed (hn : n < 48) (hkeeps : Keeps (atCall n (take gate err s)) t) :
    (resumed t).regs .esp = s.regs .esp - BitVec.ofNat 32 (4 * (frameWords n err s).length) + 56 := by
  change t.regs .esp + 56 = _
  rw [hkeeps.esp, (atCall_sameStack hn gate err s).esp, Cpu.esp_pushAll, List.length_reverse]

/-- A frame of fourteen words is taken down as it was built up, but for the data segments: all of
them become what `ds` was. -/
lemma resumed_eq (hn : n < 48) (hstack : Stack s 64 []) (herr : err.isSome = hasErrcode n)
    (hkeeps : Keeps (atCall n (take gate err s)) t) :
    (resumed t).regs = s.regs ∧
      (resumed t).segs = (fun g => if g = .cs ∨ g = .ss then s.segs g else s.segs .ds) ∧
      (resumed t).eip = s.eip ∧ (resumed t).eflags = s.eflags := by
  have hwords := (stack_atCall hn gate err hstack).words
  have hesp := esp_resumed hn hkeeps
  rw [frameWords_eq herr] at hwords hesp
  have hword (i : ℕ) (hi : i < 14) : stackWord t i = _ := (hkeeps.frame i hi).trans (hwords i hi)
  have hds : (stackWord t 0).setWidth 16 = s.segs .ds := by
    rw [hword 0 (by decide)]
    exact setWidth_withLow _ _
  refine ⟨funext fun q => ?_, funext fun g => ?_, hword 11 (by decide), hword 13 (by decide)⟩
  · cases q
    · exact hword 8 (by decide)
    · exact hword 7 (by decide)
    · exact hword 6 (by decide)
    · exact hword 5 (by decide)
    · rw [hesp]
      exact BitVec.sub_add_cancel _ _
    · exact hword 3 (by decide)
    · exact hword 2 (by decide)
    · exact hword 1 (by decide)
  · cases g
    · change (stackWord t 12).setWidth 16 = _
      rw [hword 12 (by decide)]
      exact (BitVec.setWidth_setWidth_of_le _ (by decide)).trans (BitVec.setWidth_eq _)
    · exact hds
    · exact hds
    · exact hds
    · exact hds
    · exact hkeeps.ss.trans (ss_atCall hn gate err s)

/-- **Interrupts are transparent exactly when** the frame has the error code that the stub expects
and the program has one data segment: whatever the handler does besides, the interrupted program
then goes on with its registers, segments and flags at its next instruction. -/
theorem restores_stub_iff (hn : n < 48) (hstack : Stack s 64 [])
    (hkeeps : Keeps (atCall n (take gate err s)) (callee (handlerOf n) (atCall n (take gate err s)))) :
    ∃ r, Returns text callee (text (stubOf n)) (take gate err s) r ∧
      r.mem = (callee (handlerOf n) (atCall n (take gate err s))).mem ∧
      (Restores s r ↔ err.isSome = hasErrcode n ∧ s.segs .es = s.segs .ds ∧
        s.segs .fs = s.segs .ds ∧ s.segs .gs = s.segs .ds) := by
  refine ⟨_, returns_stub callee n _, rfl, ?_⟩
  by_cases herr : err.isSome = hasErrcode n
  · obtain ⟨hregs, hsegs, heip, heflags⟩ := resumed_eq hn hstack herr hkeeps
    rw [eq_true herr, true_and]
    constructor
    · intro h
      have hseg (g : Seg) : (if g = .cs ∨ g = .ss then s.segs g else s.segs .ds) = s.segs g :=
        (congrFun hsegs g).symm.trans (congrFun h.segs g)
      exact ⟨(hseg .es).symm, (hseg .fs).symm, (hseg .gs).symm⟩
    · rintro ⟨hes, hfs, hgs⟩
      refine ⟨hregs, hsegs.trans (funext fun g => ?_), heip, heflags⟩
      cases g <;> simp [hes, hfs, hgs]
  · rw [eq_false herr, false_and]
    refine iff_of_false (fun h => ?_) id
    -- the stack pointer is four bytes off
    have hlen := length_frameWords n err s
    have hpad := length_padding n err
    have hoff := congrFun h.regs .esp
    rw [esp_resumed hn hkeeps] at hoff
    have hne : (padding n ++ err.toList).length ≠ 1 := fun h1 =>
      herr (length_padding_eq_one_iff.mp h1)
    rcases (show (frameWords n err s).length = 13 ∨ (frameWords n err s).length = 15 by omega)
      with h13 | h15
    · rw [h13] at hoff
      bv_omega
    · rw [h15] at hoff
      bv_omega

theorem restores_stub_keyboard : ∃ r, Returns text (fun _ c => c) (text (stubOf 33))
    (take ⟨0x1000, 0x08, true, 0, 14⟩ none bare) r ∧ Restores bare r := by
  obtain ⟨r, hr, -, hiff⟩ := @restores_stub_iff 33 ⟨0x1000, 0x08, true, 0, 14⟩ none bare
    (fun _ c => c) (by decide) stack_bare ⟨rfl, rfl, fun _ _ => rfl⟩
  exact ⟨r, hr, hiff.mpr ⟨rfl, rfl, rfl, rfl⟩⟩

end Out

end OsImplement.Interrupt
