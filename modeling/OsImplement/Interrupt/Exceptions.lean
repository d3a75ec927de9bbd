import OsImplement.Interrupt.Stubs
import OsImplement.Interrupt.Dispatch
import OsImplement.Monitor.Printf

/-!
Exceptions (`isr_handler`, and `page_fault` of `page.c`).

`isr_handler` finds the number of the exception in the frame that its stub has built. An exception
that nothing is registered for is printed and the program goes on; a page fault is printed and
nothing goes on.
-/

namespace OsImplement.Interrupt

open Lib.X86 Monitor

/-! ### The code -/

/-- What a handler has printed when it returns, or when it loops for ever. -/
inductive Outcome where
  | returns (out : List UInt8)
  | loops (out : List UInt8)
  deriving DecidableEq

/-- An `isr_t`, with the value of `cr2`. -/
abbrev Isr := BitVec 32 → Registers → Outcome

/-- `page_fault`. What it takes from the error code is used nowhere. -/
def pageFault : Isr := fun cr2 _ => .loops (printf "page fault:%x\n" [.word cr2.toNat])

/-- `isr_handler` -/
def isrHandler (table : Handlers Isr) (cr2 : BitVec 32) (reg : Registers) : Outcome :=
  match table reg.intNo.toNat with
  | some handler => handler cr2 reg
  | none => .returns (printf "unhandled interrupt: %d\n" [.word reg.intNo.toNat])

/-- The handlers that the kernel registers: `page_fault`, and others for the interrupts of
devices. -/
structure Registered (table : Handlers Isr) : Prop where
  pageFault : table 14 = some Interrupt.pageFault
  others : ∀ n < 32, n ≠ 14 → table n = none

lemma registered_initPaging :
    Registered (registerInterruptHandler 14 pageFault fun _ => none) where
  pageFault := Function.update_self _ _ _
  others _ _ h14 := Function.update_of_ne h14 _ _

lemma Registered.register {table : Handlers Isr} (h : Registered table) {n : ℕ} (hn : 32 ≤ n)
    (handler : Isr) : Registered (registerInterruptHandler n handler table) where
  pageFault := (Function.update_of_ne (by omega) _ _).trans h.pageFault
  others k hk h14 := (Function.update_of_ne (by omega) _ _).trans (h.others k hk h14)

/-! ### A run -/

/-- An exception: its vector, the error code if there is one, `cr2`, and the processor before it. -/
structure Exception where
  n : ℕ
  err : Option (BitVec 32)
  cr2 : BitVec 32
  cpu : Cpu

/-- An error code is pushed exactly where the stub expects one, and there is room on the stack. -/
structure Exception.Raised (e : Exception) : Prop where
  lt : e.n < 32
  err : e.err.isSome = hasErrcode e.n
  stack : Stack e.cpu 64 []

/-- The screen, and whether any program still runs. -/
structure Console where
  screen : Screen
  running : Bool

/-- An exception is taken through its gate, and its stub calls `isr_handler`. -/
def Console.trap (table : Handlers Isr) (gate : ℕ → Gate) (c : Console) (e : Exception) : Console :=
  if c.running then
    match isrHandler table e.cr2 (registersAt (atCall e.n (take (gate e.n) e.err e.cpu))) with
    | .returns out => ⟨c.screen.printed out, true⟩
    | .loops out => ⟨c.screen.printed out, false⟩
  else c

def unhandledLine (n : ℕ) : List UInt8 :=
  ascii "unhandled interrupt: " ++ numeral 10 decDigit n ++ [0x0A]

def pageFaultLine (address : ℕ) : List UInt8 :=
  ascii "page fault:" ++ numeral 16 hexDigit address ++ [0x0A]

/-- The lines of a run, up to the first page fault. -/
def report : List Exception → List UInt8
  | [] => []
  | e :: es => if e.n = 14 then pageFaultLine e.cr2.toNat else unhandledLine e.n ++ report es

section Run

variable {table : Handlers Isr} {gate : ℕ → Gate} {c : Console} {e : Exception} {t : Terminal}
  {es : List Exception}

lemma printf_unhandled {n : ℕ} (hn : n < 2 ^ 31) :
    printf "unhandled interrupt: %d\n" [.word n] = unhandledLine n := by
  have h : ascii "unhandled interrupt: %d\n" = [0x75, 0x6E, 0x68, 0x61, 0x6E, 0x64, 0x6C, 0x65, 0x64,
    0x20, 0x69, 0x6E, 0x74, 0x65, 0x72, 0x72, 0x75, 0x70, 0x74, 0x3A, 0x20, 0x25, 0x64, 0x0A] := by
    decide
  have h' : ascii "unhandled interrupt: " = [0x75, 0x6E, 0x68, 0x61, 0x6E, 0x64, 0x6C, 0x65, 0x64,
    0x20, 0x69, 0x6E, 0x74, 0x65, 0x72, 0x72, 0x75, 0x70, 0x74, 0x3A, 0x20] := by decide
  have hint : intNumeral n = numeral 10 decDigit n := if_pos hn
  simp [printf, unhandledLine, h, h', pieces, directive, render, convert, hint]

lemma printf_pageFault (address : ℕ) :
    printf "page fault:%x\n" [.word address] = pageFaultLine address := by
  have h : ascii "page fault:%x\n" = [0x70, 0x61, 0x67, 0x65, 0x20, 0x66, 0x61, 0x75, 0x6C, 0x74, 0x3A,
    0x25, 0x78, 0x0A] := by decide
  have h' : ascii "page fault:" = [0x70, 0x61, 0x67, 0x65, 0x20, 0x66, 0x61, 0x75, 0x6C, 0x74, 0x3A] := by
    decide
  simp [printf, pageFaultLine, h, h', pieces, directive, render, convert]

/-- **`isr_handler` finds the vector in the frame**, whatever the registers of the program hold. -/
lemma isrHandler_frame (hreg : Registered table) (he : e.Raised) :
    isrHandler table e.cr2 (registersAt (atCall e.n (take (gate e.n) e.err e.cpu))) =
      if e.n = 14 then .loops (pageFaultLine e.cr2.toNat) else .returns (unhandledLine e.n) := by
  have hlt := he.lt
  have hframe := registersAt_eq (by omega) (gate e.n) he.stack he.err
  have hno : (registersAt (atCall e.n (take (gate e.n) e.err e.cpu))).intNo.toNat = e.n := by
    rw [hframe, BitVec.toNat_ofNat, Nat.mod_eq_of_lt (by omega)]
  unfold isrHandler
  rw [hno]
  split_ifs with h14
  · rw [h14, hreg.pageFault]
    exact congrArg Outcome.loops (printf_pageFault _)
  · rw [hreg.others e.n hlt h14]
    exact congrArg Outcome.returns (printf_unhandled (by omega))

lemma foldl_trap_halted (h : c.running = false) : es.foldl (Console.trap table gate) c = c := by
  induction es with
  | nil => rfl
  | cons e es ih =>
    rw [List.foldl_cons]
    have hstep : c.trap table gate e = c := if_neg (by simp [h])
    rw [hstep, ih]

/-- **Exceptions are reported.** Whatever programs raise them, and in whatever state, the screen
shows one line for each exception up to the first page fault, with its own vector or with the
address that was missing; and programs run on exactly when there was none. -/
theorem exceptions_shown (hreg : Registered table) (hes : ∀ e ∈ es, e.Raised)
    (hrun : c.running = true) (ht : Shows t c.screen) :
    Shows (t.printed (report es)) (es.foldl (Console.trap table gate) c).screen ∧
      ((es.foldl (Console.trap table gate) c).running = true ↔ ∀ e ∈ es, e.n ≠ 14) := by
  induction es generalizing c t with
  | nil => exact ⟨ht, iff_of_true hrun (by simp)⟩
  | cons e es ih =>
    have hframe : isrHandler table e.cr2 (registersAt (atCall e.n (take (gate e.n) e.err e.cpu))) = _ :=
      isrHandler_frame hreg (hes e List.mem_cons_self)
    rw [List.foldl_cons, report]
    by_cases h14 : e.n = 14
    · rw [if_pos h14] at hframe
      have hstep : c.trap table gate e = ⟨c.screen.printed (pageFaultLine e.cr2.toNat), false⟩ := by
        simp only [Console.trap, hrun, hframe, if_true]
      rw [if_pos h14, hstep, foldl_trap_halted rfl]
      dsimp only
      refine ⟨shows_printed ht _, iff_of_false Bool.false_ne_true fun h => ?_⟩
      exact h e List.mem_cons_self h14
    · rw [if_neg h14] at hframe
      have hstep : c.trap table gate e = ⟨c.screen.printed (unhandledLine e.n), true⟩ := by
        simp only [Console.trap, hrun, hframe, if_true]
      have hline : Shows (t.printed (unhandledLine e.n)) (c.trap table gate e).screen := by
        rw [hstep]
        dsimp only
        exact shows_printed ht (unhandledLine e.n)
      have hrest := ih (fun e' he' => hes e' (List.mem_cons_of_mem e he')) (by rw [hstep]) hline
      rw [if_neg h14, Terminal.printed_append]
      exact ⟨hrest.1, hrest.2.trans (by simp [h14])⟩

theorem exceptions_shown_two : Shows
    (Terminal.empty.printed (report [⟨0, none, 0, bare⟩, ⟨14, some 2, 0xB0000000, bare⟩]))
    ([⟨0, none, 0, bare⟩, ⟨14, some 2, 0xB0000000, bare⟩].foldl (Console.trap
      (registerInterruptHandler 14 pageFault fun _ => none) fun n => ⟨n, 0x08, true, 0, 14⟩)
      ⟨start.screen, true⟩).screen := by
  have hraised : ∀ e ∈ [⟨0, none, 0, bare⟩, ⟨14, some 2, 0xB0000000, bare⟩], Exception.Raised e := by
    intro e he
    simp only [List.mem_cons, List.not_mem_nil, or_false] at he
    rcases he with rfl | rfl
    · exact ⟨by decide, rfl, stack_bare⟩
    · exact ⟨by decide, rfl, stack_bare⟩
  exact (exceptions_shown registered_initPaging hraised rfl (shows_clear _).1).1

end Run

end OsImplement.Interrupt
