import OsImplement.Shell.Session
import Mathlib.Data.List.TakeWhile
import Mathlib.Order.Basic

/-!
Ending a task from the shell (`t -k`).

`print_task` shows a pid with all its digits, and `thread_test` takes one character for a pid: the
second one behind the `k`. It looks at the buffer, not at the line, so that what an earlier line has
left there may supply the option and the pid.
-/

namespace OsImplement.Shell

open Lib.Probe Lib.Step

/-! ### Numbers -/

/-- The digits that `printf` puts for an `unsigned`. -/
def decDigits (u : ℕ) : List UInt8 :=
  if u < 10 then [UInt8.ofNat (0x30 + u)]
  else decDigits (u / 10) ++ [UInt8.ofNat (0x30 + u % 10)]

/-- `printf("%d", x)`, for a `uint32`. -/
def printInt (x : ℕ) : List UInt8 :=
  if x < 2 ^ 31 then decDigits x else 0x2D :: decDigits (2 ^ 32 - x)

/-- `"t -k "` -/
def killPrefix : List UInt8 := [0x74, 0x20, 0x2D, 0x6B, 0x20]

/-- The line that is to end the task, with the pid as `print_task` shows it. -/
def killLine (pid : ℕ) : List UInt8 := killPrefix ++ printInt pid

def isDigit (c : UInt8) : Bool := 0x30 ≤ c ∧ c ≤ 0x39

/-- The value of a string of digits. -/
def decValue (digits : List UInt8) : ℕ := digits.foldl (fun n c => 10 * n + (c.toNat - 0x30)) 0

/-- The digits behind `"t -k "` on a line. -/
def typedDigits (line : List UInt8) : List UInt8 := (line.drop 5).takeWhile isDigit

/-- The whole number behind `"t -k "` on a line. -/
def typedPid (line : List UInt8) : Option ℕ :=
  if line.take 5 = killPrefix ∧ typedDigits line ≠ [] then some (decValue (typedDigits line))
  else none

/-! ### The property -/

/-- What a line makes the shell do. -/
def action (s : Session) (x : Entry) : Action :=
  ((testProcess x.undef).run (scanf x.keys s.buffer)).1

/-- The buffer is as `memset` leaves it. -/
def Fresh (s : Session) : Prop := ∀ i < 256, s.buffer i = 0

/-- A line ends the task whose pid it gives, and no other. -/
structure KillsTyped (s : Session) (x : Entry) : Prop where
  called : ∀ pid, 2 ≤ pid → pid < 2 ^ 32 → Fresh s → typed x.keys = killLine pid →
    action s x = .taskExitPid pid
  only : ∀ pid, action s x = .taskExitPid pid → typedPid (typed x.keys) = some pid

/-- The buffer reads `t -k`, one character, and a digit from 2 on. -/
def ReadsKill (v : ℕ → UInt8) : Prop :=
  v 0 = 0x74 ∧ v 1 = 0x20 ∧ v 2 = 0x2D ∧ v 3 = 0x6B ∧ 0x32 ≤ v 5 ∧ v 5 ≤ 0x39

/-- A pid typed on a fresh line has one digit; and where the line, over what is left of earlier
ones, reads as a command to end a task, the line itself is that command, with one digit. -/
structure OneDigit (s : Session) (x : Entry) : Prop where
  small : ∀ pid, 2 ≤ pid → pid < 2 ^ 32 → Fresh s → typed x.keys = killLine pid → pid < 10
  line : ReadsKill (scanf x.keys s.buffer) →
    (typed x.keys).take 5 = killPrefix ∧ (typedDigits (typed x.keys)).length = 1

section Kill

variable {s : Session} {x : Entry} {v : ℕ → UInt8} {xs : List Entry} {u pid : ℕ} {c : UInt8}
  {line digits : List UInt8}

/-! ### Digits -/

lemma toNat_digit (h : u < 10) : (UInt8.ofNat (0x30 + u)).toNat = 0x30 + u :=
  UInt8.toNat_ofNat_of_lt' (show 0x30 + u < 256 by omega)

lemma isDigit_iff : isDigit c = true ↔ 0x30 ≤ c.toNat ∧ c.toNat ≤ 0x39 := by
  unfold isDigit
  rw [decide_eq_true_iff, UInt8.le_iff_toNat_le, UInt8.le_iff_toNat_le]
  exact Iff.rfl

lemma decValue_concat (digits : List UInt8) (c : UInt8) :
    decValue (digits ++ [c]) = 10 * decValue digits + (c.toNat - 0x30) := by
  unfold decValue
  rw [List.foldl_append]
  rfl

theorem decDigits_spec (u : ℕ) : decDigits u ≠ [] ∧ (∀ c ∈ decDigits u, isDigit c = true) ∧
    decValue (decDigits u) = u := by
  induction u using Nat.strongRecOn with
  | ind u ih =>
    rw [decDigits]
    by_cases hu : u < 10
    · rw [if_pos hu]
      refine ⟨List.cons_ne_nil _ _, List.forall_mem_singleton.mpr ?_, ?_⟩
      · rw [isDigit_iff, toNat_digit hu]
        omega
      · show 10 * 0 + ((UInt8.ofNat (0x30 + u)).toNat - 0x30) = u
        rw [toNat_digit hu]
        omega
    · rw [if_neg hu]
      obtain ⟨-, hdigits, hvalue⟩ := ih (u / 10) (by omega)
      refine ⟨by simp, ?_, ?_⟩
      · rw [List.forall_mem_append]
        refine ⟨hdigits, List.forall_mem_singleton.mpr ?_⟩
        rw [isDigit_iff, toNat_digit (by omega)]
        omega
      · rw [decValue_concat, hvalue, toNat_digit (by omega)]
        omega

theorem typedPid_killLine (h : pid < 2 ^ 31) : typedPid (killLine pid) = some pid := by
  obtain ⟨hne, hdigits, hvalue⟩ := decDigits_spec pid
  have htake : (killLine pid).take 5 = killPrefix := rfl
  have hrest : typedDigits (killLine pid) = decDigits pid := by
    unfold typedDigits killLine printInt
    rw [if_pos h]
    show (decDigits pid).takeWhile isDigit = decDigits pid
    exact List.takeWhile_eq_self_iff.mpr hdigits
  unfold typedPid
  rw [hrest, if_pos ⟨htake, hne⟩, hvalue]

/-- A number whose first digit is not 0 is its first digit only if it has no other. -/
lemma decValue_eq_head (hc : 0x30 < c.toNat) :
    decValue (c :: digits) = c.toNat - 0x30 ↔ digits = [] := by
  have hge : ∀ (ds : List UInt8) (n : ℕ), n ≤ ds.foldl (fun n c => 10 * n + (c.toNat - 0x30)) n := by
    intro ds
    induction ds with
    | nil => exact fun n => le_rfl
    | cons d ds ih =>
      intro n
      have := ih (10 * n + (d.toNat - 0x30))
      rw [List.foldl_cons]
      omega
  constructor
  · intro h
    cases digits with
    | nil => rfl
    | cons d ds =>
      have hmore := hge ds (10 * (10 * 0 + (c.toNat - 0x30)) + (d.toNat - 0x30))
      have h : ds.foldl (fun n c => 10 * n + (c.toNat - 0x30))
          (10 * (10 * 0 + (c.toNat - 0x30)) + (d.toNat - 0x30)) = c.toNat - 0x30 := h
      omega
  · rintro rfl
    show 10 * 0 + (c.toNat - 0x30) = c.toNat - 0x30
    omega

/-! ### What `thread_test` does -/

lemma run_pageTest : (pageTest.run v).1 ≠ .taskExitPid pid := by
  unfold pageTest
  rw [Query.run_bind, Query.run_ite]
  split
  · rw [Query.run_bind, Query.run_ite]
    split
    · exact nofun
    · exact nofun
  · exact nofun

lemma run_fileTest : (fileTest.run v).1 ≠ .taskExitPid pid := by
  unfold fileTest
  rw [Query.run_bind, Query.run_ite]
  split
  · rw [Query.run_bind, Query.run_ite, Query.run_ite, Query.run_ite, Query.run_ite, Query.run_bind,
      Query.run_bind]
    split_ifs
    · exact nofun
    · exact nofun
    · exact nofun
    · exact nofun
    · exact nofun
  · exact nofun

lemma run_threadTest : (threadTest.run v).1 = .taskExitPid pid ↔
    (v 1 = 0x20 ∧ v 2 = 0x2D) ∧ v 3 = 0x6B ∧ (0x32 ≤ v 5 ∧ v 5 ≤ 0x39) ∧
      pid = (v 5 - 0x30).toNat := by
  unfold threadTest
  rw [Query.run_bind, Query.run_ite]
  by_cases hb : isOption.run v = true
  swap
  · rw [if_neg hb]
    exact iff_of_false nofun fun h => hb (run_isOption_iff.mpr h.1)
  have hoption := run_isOption_iff.mp hb
  rw [if_pos hb, and_iff_right hoption, Query.run_bind, Query.run_look, Query.run_ite,
    Query.run_ite, Query.run_ite, Query.run_ite, Query.run_bind, Query.run_look, Query.run_ite]
  by_cases hk : v 3 = 0x6B
  · have hrange : ¬ (0x39 < v 5 ∨ v 5 < 0x32) ↔ 0x32 ≤ v 5 ∧ v 5 ≤ 0x39 := by
      rw [not_or, UInt8.not_lt, UInt8.not_lt]
      exact and_comm
    rw [hk, if_neg (by decide), if_neg (by decide), if_neg (by decide), if_pos rfl,
      and_iff_right rfl, ← hrange]
    by_cases hout : 0x39 < v 5 ∨ v 5 < 0x32
    · rw [if_pos hout]
      exact iff_of_false nofun fun h => h.1 hout
    · rw [if_neg hout, and_iff_right hout]
      show Action.taskExitPid (v 5 - 0x30).toNat = .taskExitPid pid ↔ _
      rw [Action.taskExitPid.injEq]
      exact eq_comm
  · rw [if_neg hk]
    refine iff_of_false ?_ fun h => hk h.1
    split_ifs
    · exact nofun
    · exact nofun
    · exact nofun
    · exact nofun

/-- **The pid is one character** of the buffer. -/
theorem taskExitPid_iff (undef : ℕ) : ((testProcess undef).run v).1 = .taskExitPid pid ↔
    ReadsKill v ∧ pid = (v 5 - 0x30).toNat := by
  unfold testProcess ReadsKill
  rw [Query.run_bind, Query.run_look, Query.run_ite, Query.run_ite, Query.run_ite, Query.run_bind]
  by_cases ht : v 0 = 0x74
  · rw [ht, if_neg (by decide), if_neg (by decide), if_pos rfl, and_iff_right rfl]
    show (threadTest.run v).1 = .taskExitPid pid ↔ _
    rw [run_threadTest]
    tauto
  · rw [if_neg ht]
    refine iff_of_false ?_ fun h => ht h.1.1
    split_ifs
    · exact run_pageTest
    · exact run_fileTest
    · exact nofun

/-! ### Lines -/

lemma typed_of_take (htake : line.take 5 = killPrefix) (hc : typedDigits line = c :: digits) :
    ∃ rest, line = killPrefix ++ c :: rest ∧ isDigit c = true := by
  unfold typedDigits at hc
  have hmem : c ∈ (line.drop 5).takeWhile isDigit := by
    rw [hc]
    exact List.mem_cons_self
  cases hdrop : line.drop 5 with
  | nil =>
    rw [hdrop] at hc
    cases hc
  | cons d rest =>
    rw [hdrop] at hc hmem
    have hd : isDigit d = true := by
      by_contra hd
      rw [List.takeWhile_cons_of_neg hd] at hc
      cases hc
    rw [List.takeWhile_cons_of_pos hd] at hc
    obtain ⟨rfl, -⟩ := List.cons.inj hc
    refine ⟨rest, ?_, hd⟩
    rw [← htake, ← hdrop, List.take_append_drop]

/-- **Where the buffer reads as the command**, the pid is that of the line exactly when the line is
the command with one digit. -/
lemma typedPid_iff (h : ReadsKill (scanf x.keys s.buffer)) :
    typedPid (typed x.keys) = some (scanf x.keys s.buffer 5 - 0x30).toNat ↔
      (typed x.keys).take 5 = killPrefix ∧ (typedDigits (typed x.keys)).length = 1 := by
  obtain ⟨-, -, -, -, hlo, hhi⟩ := h
  rw [UInt8.le_iff_toNat_le] at hlo hhi
  have hlo : 0x32 ≤ (scanf x.keys s.buffer 5).toNat := hlo
  have hhi : (scanf x.keys s.buffer 5).toNat ≤ 0x39 := hhi
  by_cases htake : (typed x.keys).take 5 = killPrefix
  swap
  · unfold typedPid
    rw [if_neg fun hc => htake hc.1]
    exact iff_of_false nofun fun hc => htake hc.1
  rw [and_iff_right htake]
  cases hc : typedDigits (typed x.keys) with
  | nil =>
    unfold typedPid
    rw [if_neg fun hne => hne.2 hc]
    exact iff_of_false nofun (by simp)
  | cons c digits =>
    -- the sixth character of the line lies over whatever was in the buffer
    obtain ⟨rest, hline, -⟩ := typed_of_take htake hc
    have hfive : scanf x.keys s.buffer 5 = c := by
      rw [scanf_apply, hline]
      rfl
    have hsub : (c - 0x30).toNat = c.toNat - 0x30 := by
      rw [UInt8.toNat_sub_of_le _ _ (UInt8.le_iff_toNat_le.mpr ?_)]
      · rfl
      · show 0x30 ≤ c.toNat
        rw [← hfive]
        omega
    unfold typedPid
    rw [if_pos ⟨htake, by rw [hc]; exact List.cons_ne_nil _ _⟩, hc, hfive, hsub,
      Option.some.injEq, decValue_eq_head (by rw [← hfive]; omega), List.length_cons]
    constructor
    · rintro rfl
      rfl
    · intro hlen
      exact List.length_eq_zero_iff.mp (by omega)

/-! ### One line, and all of them -/

lemma action_killLine_iff (h2 : 2 ≤ pid) (hline : typed x.keys = killLine pid) :
    action s x = .taskExitPid pid ↔ pid < 10 := by
  unfold action
  rw [taskExitPid_iff]
  constructor
  · rintro ⟨⟨-, -, -, -, hlo, hhi⟩, rfl⟩
    rw [UInt8.le_iff_toNat_le] at hlo hhi
    have hlo : 0x32 ≤ (scanf x.keys s.buffer 5).toNat := hlo
    have hhi : (scanf x.keys s.buffer 5).toNat ≤ 0x39 := hhi
    rw [UInt8.toNat_sub_of_le _ _ (UInt8.le_iff_toNat_le.mpr (by show 0x30 ≤ _; omega))]
    show (scanf x.keys s.buffer 5).toNat - 0x30 < 10
    omega
  · intro hlt
    have hint : killLine pid = killPrefix ++ [UInt8.ofNat (0x30 + pid)] := by
      unfold killLine printInt
      rw [if_pos (by omega), decDigits, if_pos hlt]
    have hfive : scanf x.keys s.buffer 5 = UInt8.ofNat (0x30 + pid) := by
      rw [scanf_apply, hline, hint]
      rfl
    have hbegin : ∀ i < 5, scanf x.keys s.buffer i = killPrefix.getD i 0 := by
      intro i hi
      rw [scanf_apply, hline, hint]
      rcases (show i = 0 ∨ i = 1 ∨ i = 2 ∨ i = 3 ∨ i = 4 by omega) with
        rfl | rfl | rfl | rfl | rfl <;> rfl
    have hbyte := toNat_digit hlt
    have hrange : 0x32 ≤ UInt8.ofNat (0x30 + pid) ∧ UInt8.ofNat (0x30 + pid) ≤ 0x39 := by
      rw [UInt8.le_iff_toNat_le, UInt8.le_iff_toNat_le, hbyte]
      exact ⟨show 0x32 ≤ _ by omega, show _ ≤ 0x39 by omega⟩
    refine ⟨⟨hbegin 0 (by omega), hbegin 1 (by omega), hbegin 2 (by omega), hbegin 3 (by omega),
      ?_, ?_⟩, ?_⟩
    · rw [hfive]
      exact hrange.1
    · rw [hfive]
      exact hrange.2
    · rw [hfive, UInt8.toNat_sub_of_le _ _ (UInt8.le_iff_toNat_le.mpr ?_), hbyte]
      · show pid = 0x30 + pid - 0x30
        omega
      · rw [hbyte]
        show 0x30 ≤ 0x30 + pid
        omega

lemma killsTyped_iff_oneDigit : KillsTyped s x ↔ OneDigit s x := by
  constructor
  · rintro ⟨hcalled, honly⟩
    constructor
    · intro pid h2 htop hfresh hline
      exact (action_killLine_iff h2 hline).mp (hcalled pid h2 htop hfresh hline)
    · intro hreads
      apply (typedPid_iff hreads).mp
      apply honly
      exact (taskExitPid_iff x.undef).mpr ⟨hreads, rfl⟩
  · rintro ⟨hsmall, hone⟩
    constructor
    · intro pid h2 htop hfresh hline
      exact (action_killLine_iff h2 hline).mpr (hsmall pid h2 htop hfresh hline)
    · intro pid haction
      obtain ⟨hreads, rfl⟩ := (taskExitPid_iff x.undef).mp haction
      exact (typedPid_iff hreads).mpr (hone hreads)

/-- **A session ends the tasks that are asked for** exactly when every command to end one is a line
of its own with a pid of one digit. -/
theorem killsTyped_iff : Guarded Session.step KillsTyped (initShell v) xs ↔
    Guarded Session.step OneDigit (initShell v) xs :=
  guarded_congr (I := fun _ => True) (G := fun _ _ => True) (fun _ _ _ _ => trivial)
    (fun _ _ _ _ => killsTyped_iff_oneDigit) trivial guarded_true

end Kill

/-- The line `t -k 25` ends task 2. -/
theorem killsTyped_fails : ¬ Guarded Session.step KillsTyped (initShell fun _ => 0)
    [⟨[0x74, 0x20, 0x2D, 0x6B, 0x20, 0x32, 0x35, 0x0A], 0⟩] := by
  intro h
  have hpid := h.1.only 2 (by decide +kernel)
  exact absurd hpid (by decide +kernel)

end OsImplement.Shell
