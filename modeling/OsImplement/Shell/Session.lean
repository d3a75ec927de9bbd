import OsImplement.Lib.Probe
import OsImplement.Lib.Step
import OsImplement.Lib.Word
import Mathlib.Logic.Function.Basic

/-!
The shell (`shell.c`, with `scanf` of `keyboard.c`).

One buffer serves all lines. `scanf` writes the characters of a line to its front and no
terminator, and the buffer is cleared only behind a line that was recognised.
-/

namespace OsImplement.Shell

open Lib.Probe Lib.Step

/-! ### `test_process` -/

/-- What a line makes the shell do. -/
inductive Action where
  | nothing
  | printPagesStatus
  | printTask
  | printCurtask
  | createTask
  | taskExitPid (pid : ℕ)
  | openFs (name : List UInt8)
  | closeFs (name : List UInt8)
  | printAllFile
  | printAllFileContent
  deriving DecidableEq

/-- `-1`, as a `uint32`. -/
def ERROR : ℕ := 2 ^ 32 - 1

/-- A function that looks at the line and returns an error code. -/
abbrev Command := Query ℕ UInt8 (Action × ℕ)

/-- `v[i]` -/
abbrev charAt (i : ℕ) : Query ℕ UInt8 UInt8 := .look i

/-- `v[1] == ' ' && v[2] == '-'` -/
def isOption : Query ℕ UInt8 Bool := do
  if (← charAt 1) = 0x20 then return (← charAt 2) = 0x2D else return false

/-- `page_test` -/
def pageTest : Command := do
  if ← isOption then
    if (← charAt 3) = 0x61 then return (.printPagesStatus, 1) else return (.nothing, ERROR)
  else return (.nothing, ERROR)

/-- `thread_test` -/
def threadTest : Command := do
  if ← isOption then
    let c ← charAt 3
    if c = 0x61 then return (.printTask, 1)
    else if c = 0x63 then return (.printCurtask, 1)
    else if c = 0x6E then return (.createTask, 1)
    else if c = 0x6B then
      -- a byte from 0x80 on is negative, and left out by the second test of the source
      let d ← charAt 5
      if 0x39 < d ∨ d < 0x32 then return (.nothing, 1)
      else return (.taskExitPid (d - 0x30).toNat, 1)
    else return (.nothing, ERROR)
  else return (.nothing, ERROR)

/-- The copy of `count` bytes of the line from byte `i` on. -/
def copyName : ℕ → ℕ → Query ℕ UInt8 (List UInt8)
  | 0, _ => return []
  | count + 1, i => do
    let c ← charAt i
    let s ← copyName count (i + 1)
    return c :: s

/-- `file_test` -/
def fileTest : Command := do
  if ← isOption then
    let c ← charAt 3
    if c = 0x6E then return (.openFs (← copyName 250 5), 1)
    else if c = 0x64 then return (.closeFs (← copyName 250 5), 1)
    else if c = 0x61 then return (.printAllFile, 1)
    else if c = 0x63 then return (.printAllFileContent, 1)
    else return (.nothing, ERROR)
  else return (.nothing, ERROR)

/-- `test_process`. Behind `thread_test` it ends without a `return`, and its value is whatever the
caller finds: `undef`. -/
def testProcess (undef : ℕ) : Command := do
  let c ← charAt 0
  if c = 0x70 then pageTest
  else if c = 0x66 then fileTest
  else if c = 0x74 then
    let (action, _) ← threadTest
    return (action, undef)
  else return (.nothing, ERROR)

/-! ### `scanf` -/

/-- The second loop of `scanf`, on the bytes that `keyboard_getchar` returns: a NUL is no key, and
a newline ends the line. -/
def readLine : List UInt8 → ℕ → (ℕ → UInt8) → ℕ → UInt8
  | [], _, v => v
  | c :: keys, t, v =>
    if c = 0x0A then v
    else if c ≠ 0 then readLine keys (t + 1) (Function.update v t c)
    else readLine keys t v

/-- `scanf` -/
def scanf (keys : List UInt8) (v : ℕ → UInt8) : ℕ → UInt8 :=
  readLine (keys.dropWhile (· = 0)) 0 v

/-- The characters of the line. -/
def typed (keys : List UInt8) : List UInt8 := (keys.takeWhile (· ≠ 0x0A)).filter (· ≠ 0)

/-- `memset(v, '\0', 256*sizeof(char))` -/
def memset (v : ℕ → UInt8) : ℕ → UInt8 := fun i => if i < 256 then 0 else v i

lemma typed_cons (c : UInt8) (keys : List UInt8) : typed (c :: keys) =
    if c = 0x0A then [] else if c ≠ 0 then c :: typed keys else typed keys := by
  by_cases hnl : c = 0x0A
  · simp [typed, hnl]
  · simp [typed, hnl, List.filter_cons]

/-- `scanf` does not begin before the first key. -/
lemma typed_dropWhile (keys : List UInt8) : typed (keys.dropWhile (· = 0)) = typed keys := by
  induction keys with
  | nil => rfl
  | cons c keys ih =>
    by_cases hc : c = 0
    · subst hc
      rw [List.dropWhile_cons_of_pos (by simp), ih]
      simp [typed]
    · rw [List.dropWhile_cons_of_neg (by simpa using hc)]

lemma readLine_apply (keys : List UInt8) (t : ℕ) (v : ℕ → UInt8) (i : ℕ) :
    readLine keys t v i = if i < t then v i else (typed keys)[i - t]?.getD (v i) := by
  induction keys generalizing t v with
  | nil => simp [readLine, typed]
  | cons c keys ih =>
    unfold readLine
    rw [typed_cons]
    by_cases hnl : c = 0x0A
    · simp [hnl]
    · rw [if_neg hnl, if_neg hnl]
      by_cases hc : c ≠ 0
      swap
      · rw [if_neg hc, if_neg hc, ih]
      · rw [if_pos hc, if_pos hc, ih, Function.update_apply]
        by_cases hi : i < t
        · rw [if_pos (by omega), if_neg (by omega), if_pos hi]
        · rw [if_neg hi]
          by_cases hit : i = t
          · subst hit
            simp
          · rw [if_neg (by omega), if_neg hit, show i - t = i - (t + 1) + 1 by omega,
              List.getElem?_cons_succ]

/-- **What `scanf` leaves in the buffer**: the line, and behind it what was there. -/
lemma scanf_apply (keys : List UInt8) (v : ℕ → UInt8) (i : ℕ) :
    scanf keys v i = (typed keys)[i]?.getD (v i) := by
  unfold scanf
  rw [readLine_apply, if_neg (by omega), typed_dropWhile]
  rfl

lemma typed_ne_zero {keys : List UInt8} {i : ℕ} (hi : i < (typed keys).length) :
    (typed keys)[i] ≠ 0 := by
  have h : (typed keys)[i] ∈ typed keys := List.getElem_mem hi
  have hfilter := (List.mem_filter.mp h).2
  simpa using hfilter

/-! ### Sessions -/

/-- The keys of one line, and what is found where `test_process` returns nothing. -/
structure Entry where
  keys : List UInt8
  undef : ℕ

/-- The buffer, and the length of the longest line since it was cleared. -/
structure Session where
  buffer : ℕ → UInt8
  longest : ℕ

/-- The start of `init_shell`, with the buffer anywhere in memory. -/
def initShell (v : ℕ → UInt8) : Session := { buffer := memset v, longest := 0 }

/-- One round of the loop of `init_shell`. -/
def Session.step (s : Session) (x : Entry) : Session :=
  let v := scanf x.keys s.buffer
  let error := ((testProcess x.undef).run v).2
  if error = ERROR then { buffer := v, longest := max s.longest (typed x.keys).length }
  else { buffer := memset v, longest := 0 }

/-- A line alone in the buffer. -/
def alone (x : Entry) : ℕ → UInt8 := fun i => (typed x.keys)[i]?.getD 0

/-- A line under 256 characters. -/
def Short (_ : Session) (x : Entry) : Prop := 0x0A ∈ x.keys ∧ (typed x.keys).length < 256

/-- What `test_process` sees of a line, and what it does, is that of the line alone. -/
def Forgets (s : Session) (x : Entry) : Prop :=
  (testProcess x.undef).seen (scanf x.keys s.buffer) = (testProcess x.undef).seen (alone x) ∧
    (testProcess x.undef).run (scanf x.keys s.buffer) = (testProcess x.undef).run (alone x)

/-- Where `test_process` reads behind the line, no line since the buffer was cleared has been. -/
def Unreached (s : Session) (x : Entry) : Prop :=
  ∀ i ∈ (testProcess x.undef).reads (alone x), (typed x.keys).length ≤ i → s.longest ≤ i

section Rounds

variable {s : Session} {x : Entry} {v : ℕ → UInt8} {xs : List Entry}

lemma run_isOption_iff : isOption.run v = true ↔ v 1 = 0x20 ∧ v 2 = 0x2D := by
  unfold isOption
  rw [Query.run_bind, Query.run_look, Query.run_ite]
  by_cases h : v 1 = 0x20
  · rw [if_pos h, and_iff_right h]
    exact decide_eq_true_iff
  · rw [if_neg h]
    exact iff_of_false Bool.false_ne_true fun hc => h hc.1

lemma run_copyName (count i : ℕ) : (copyName count i).run v = (List.range' i count).map v := by
  induction count generalizing i with
  | zero => rfl
  | succ count ih =>
    unfold copyName
    rw [Query.run_bind, Query.run_look, Query.run_bind, ih]
    rfl

lemma all_isOption : isOption.All (· < 256) := by
  unfold isOption
  refine Query.all_bind (by simp) fun c => Query.all_ite ?_ (by simp)
  exact Query.all_bind (by simp) fun d => by simp

lemma all_copyName (count i : ℕ) (hi : i + count ≤ 256) : (copyName count i).All (· < 256) := by
  induction count generalizing i with
  | zero => exact Query.all_pure _
  | succ count ih =>
    refine Query.all_bind ?_ fun c => Query.all_bind (ih (i + 1) (by omega)) fun s => by simp
    rw [Query.all_look]
    omega

lemma all_pageTest : pageTest.All (· < 256) := by
  refine Query.all_bind all_isOption fun b => Query.all_ite ?_ (by simp)
  exact Query.all_bind (by simp) fun c => Query.all_ite (by simp) (by simp)

lemma all_threadTest : threadTest.All (· < 256) := by
  refine Query.all_bind all_isOption fun b => Query.all_ite ?_ (by simp)
  refine Query.all_bind (by simp) fun c => Query.all_ite (by simp) ?_
  refine Query.all_ite (by simp) (Query.all_ite (by simp) (Query.all_ite ?_ (by simp)))
  exact Query.all_bind (by simp) fun d => Query.all_ite (by simp) (by simp)

lemma all_fileTest : fileTest.All (· < 256) := by
  have hname : (copyName 250 5).All (· < 256) := all_copyName 250 5 (by decide)
  refine Query.all_bind all_isOption fun b => Query.all_ite ?_ (by simp)
  refine Query.all_bind (by simp) fun c => Query.all_ite ?_ (Query.all_ite ?_ ?_)
  · exact Query.all_bind hname fun f => by simp
  · exact Query.all_bind hname fun f => by simp
  · exact Query.all_ite (by simp) (Query.all_ite (by simp) (by simp))

lemma all_testProcess (undef : ℕ) : (testProcess undef).All (· < 256) := by
  refine Query.all_bind (by simp) fun c => Query.all_ite all_pageTest ?_
  refine Query.all_ite all_fileTest (Query.all_ite ?_ (by simp))
  exact Query.all_bind all_threadTest fun _ => by simp

/-- What the invariant says: the buffer is NUL from the longest line on. -/
def Tracked (s : Session) : Prop := s.longest < 256 ∧ ∀ i < 256, s.buffer i ≠ 0 ↔ i < s.longest

lemma tracked_initShell (v : ℕ → UInt8) : Tracked (initShell v) := by
  refine ⟨show 0 < 256 by decide, fun i hi => ?_⟩
  simp [initShell, memset, hi]

lemma Tracked.step (h : Tracked s) (hx : Short s x) : Tracked (s.step x) := by
  obtain ⟨hlen, hbuf⟩ := h
  obtain ⟨-, hshort⟩ := hx
  unfold Session.step
  by_cases herror : ((testProcess x.undef).run (scanf x.keys s.buffer)).2 = ERROR
  · rw [if_pos herror]
    refine ⟨Nat.max_lt.mpr ⟨hlen, hshort⟩, fun i hi => ?_⟩
    show scanf x.keys s.buffer i ≠ 0 ↔ i < max s.longest (typed x.keys).length
    rw [scanf_apply]
    by_cases hit : i < (typed x.keys).length
    · rw [List.getElem?_eq_getElem hit, Option.getD_some]
      exact iff_of_true (typed_ne_zero hit) (by omega)
    · rw [List.getElem?_eq_none (by omega), Option.getD_none, hbuf i hi]
      omega
  · rw [if_neg herror]
    refine ⟨show 0 < 256 by decide, fun i hi => ?_⟩
    simp [memset, hi]

/-- One line: what is left over is not seen exactly when it is not reached. -/
lemma forgets_iff_unreached (h : Tracked s) : Forgets s x ↔ Unreached s x := by
  have hseen : Forgets s x ↔
      ∀ i ∈ (testProcess x.undef).reads (alone x), scanf x.keys s.buffer i = alone x i := by
    rw [← Query.seen_eq_iff]
    exact and_iff_left_of_imp fun h => (testProcess x.undef).run_eq_of_seen_eq h
  rw [hseen]
  refine forall₂_congr fun i hi => ?_
  have hbuf := h.2 i ((all_testProcess x.undef).reads _ i hi)
  unfold alone
  rw [scanf_apply]
  by_cases hit : i < (typed x.keys).length
  · rw [List.getElem?_eq_getElem hit]
    exact iff_of_true rfl (by omega)
  · rw [List.getElem?_eq_none (by omega)]
    show s.buffer i = 0 ↔ _
    rw [← not_ne_iff, hbuf]
    omega

/-- **The shell forgets exactly what is not reached.** -/
theorem forgets_iff (h : Guarded Session.step Short (initShell v) xs) :
    Guarded Session.step Forgets (initShell v) xs ↔ Guarded Session.step Unreached (initShell v) xs :=
  guarded_congr (I := Tracked) (fun _ _ hs hx => hs.step hx) (fun _ _ hs _ => forgets_iff_unreached hs)
    (tracked_initShell v) h

end Rounds

/-- A line that is not recognised, and behind it a single `p`. -/
def leftOver : List Entry :=
  [⟨[0x78, 0x20, 0x2D, 0x61, 0x0A], 0⟩, ⟨[0x70, 0x0A], 0⟩]

/-- The `p` gets the option of the line before. -/
theorem forgets_fails : Guarded Session.step Short (initShell fun _ => 0) leftOver ∧
    ¬ Guarded Session.step Forgets (initShell fun _ => 0) leftOver := by
  refine ⟨⟨⟨by decide, by decide⟩, ⟨by decide, by decide⟩, trivial⟩, fun h => ?_⟩
  have hrun := h.2.1.2
  exact absurd hrun (by decide +kernel)

/-- A line that is recognised, and behind it a single `p`. -/
def recognised : List Entry :=
  [⟨[0x70, 0x20, 0x2D, 0x61, 0x0A], 0⟩, ⟨[0x70, 0x0A], 0⟩]

theorem forgets_recognised : Guarded Session.step Forgets (initShell fun _ => 0) recognised := by
  have hshort : Guarded Session.step Short (initShell fun _ => 0) recognised :=
    ⟨⟨by decide, by decide⟩, ⟨by decide, by decide⟩, trivial⟩
  refine (forgets_iff hshort).mpr ⟨?_, ?_, trivial⟩
  · unfold Unreached
    decide +kernel
  · unfold Unreached
    decide +kernel

end OsImplement.Shell
