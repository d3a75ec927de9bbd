import OsImplement.Task.RoundRobin
import OsImplement.Shell.Kill
import OsImplement.Monitor.Printf

/-!
The list of tasks (`print_task`, `print_curtask`).

`print_task` walks along the queue with interrupts on, so that the timer switches tasks and other
tasks fork between one line and the next.
-/

namespace OsImplement.Task

open Lib.Step Lib.Linked Monitor

/-- The line of one task. -/
def taskLine (t : Pcb) : List UInt8 :=
  printf "%d    %x     %x     %x     %x    %d\n"
    [.word t.pid, .word t.esp, .word t.eip, .word t.ebp, .word t.pageDir, .word t.time]

def taskHeader : List UInt8 :=
  printf "pid    esp        eip        ebp        diraddr    time\n" []

/-- `print_curtask` -/
def printCurtask (s : Tasks) : List UInt8 :=
  printf "cur pid:%d\n" [.word (s.pcbs s.curTask).pid]

lemma decDigits_eq (u : ℕ) : Shell.decDigits u = numeral 10 decDigit u := by
  induction u using Nat.strongRecOn with
  | ind u ih =>
    rw [Shell.decDigits, numeral_eq (by decide)]
    by_cases hu : u < 10
    · have hq : u / 10 = 0 := by omega
      rw [if_pos hu, if_pos hq, Nat.mod_eq_of_lt hu]
      rfl
    · have hq : ¬ u / 10 = 0 := by omega
      rw [if_neg hu, if_neg hq, ih (u / 10) (by omega)]
      rfl

/-- **The line of a task begins with its pid**, as `t -k` is to be given it. -/
lemma taskLine_pid (t : Pcb) : Shell.printInt t.pid <+: taskLine t := by
  have h : ascii "%d    %x     %x     %x     %x    %d\n" = [0x25, 0x64, 0x20, 0x20, 0x20, 0x20, 0x25,
    0x78, 0x20, 0x20, 0x20, 0x20, 0x20, 0x25, 0x78, 0x20, 0x20, 0x20, 0x20, 0x20, 0x25, 0x78, 0x20, 0x20,
    0x20, 0x20, 0x20, 0x25, 0x78, 0x20, 0x20, 0x20, 0x20, 0x25, 0x64, 0x0A] := by decide
  have hint : Shell.printInt t.pid = intNumeral t.pid := by
    unfold Shell.printInt intNumeral
    rw [decDigits_eq, decDigits_eq]
  rw [hint]
  simp [taskLine, printf, h, pieces, directive, render, convert]

/-- `print_task` on its way: `t`, what was printed, and the tasks whose lines these are. -/
structure Printing where
  tasks : Tasks
  t : ℕ
  out : List UInt8
  shown : List (ℕ × Pcb)

/-- The start of `print_task`. -/
def printTask (s : Tasks) : Printing := ⟨s, s.headTask, taskHeader, []⟩

/-- The end of `print_task`. -/
def Printing.finish (x : Printing) : Printing := { x with out := x.out ++ printf "\n" [] }

/-- A line of `print_task`, or a step of other tasks while it goes on. The shell alone ends tasks,
and it is the one that prints. -/
inductive PrintStep (c : Code) : Printing → Option (Op × List Event) → Printing → Prop
  | line {x : Printing} (ht : x.t ≠ 0) :
      PrintStep c x none
        { x with
            t := (x.tasks.pcbs x.t).next
            out := x.out ++ taskLine (x.tasks.pcbs x.t)
            shown := x.shown ++ [(x.t, x.tasks.pcbs x.t)] }
  | other {x : Printing} {a : Op × List Event} {s' : Tasks} (ht : x.t ≠ 0)
      (hs : Step c x.tasks a s') (hexit : Tasks.NoExit a) : PrintStep c x (some a) { x with tasks := s' }

namespace Tasks

section Print

variable {c : Code} {s s₀ s' : Tasks} {q q' : List ℕ} {p₀ : ℕ} {x y : Printing}
  {ls : List (Op × List Event)} {bs : List (Option (Op × List Event))} {a : Op × List Event}

/-- A step without an exit makes the queue longer at its end, if at all. -/
lemma Step.prefix (h : s.Inv c q) (hs : Step c s a s') (hexit : NoExit a) :
    ∃ new, s'.Inv c (q ++ new) ∧ ∀ p ∈ q, (s'.pcbs p).pid = (s.pcbs p).pid := by
  obtain ⟨o, evs⟩ := a
  rcases Step.cases h hs with ⟨esp, ebp, dir, new, -, -, -, -, hf⟩ |
    ⟨esp, ebp, l, r, -, -, -, -, hsw⟩ | ⟨pid, esp, ebp, _, _, _, _, rfl, -⟩ | ⟨-, -, -, hl⟩
  · exact ⟨[new], hf.inv, fun p hp => (hf.old p (h.mem p hp)).2⟩
  · exact ⟨[], by rw [List.append_nil]; exact hsw.inv, fun p _ => hsw.pid p⟩
  · exact absurd rfl (hexit pid esp ebp)
  · exact ⟨[], by rw [List.append_nil]; exact hl.inv, fun p _ => by rw [hl.pcbs]⟩

/-- The tasks shown are the first ones of the queue, and `t` is the next one. -/
structure Shown (c : Code) (q₀ q rest : List ℕ) (x : Printing) : Prop where
  inv : x.tasks.Inv c q
  started : q₀ <+: q
  queue : q = x.shown.map Prod.fst ++ rest
  cursor : x.t = rest.headD 0
  out : x.out = taskHeader ++ x.shown.flatMap fun l => taskLine l.2
  pid : ∀ l ∈ x.shown, l.2.pid = (x.tasks.pcbs l.1).pid

lemma Shown.step {q₀ rest : List ℕ} {b : Option (Op × List Event)} (h : Shown c q₀ q rest x)
    (hs : PrintStep c x b y) : ∃ q' rest', Shown c q₀ q' rest' y := by
  cases hs with
  | line ht =>
    cases rest with
    | nil => exact absurd h.cursor ht
    | cons t rest =>
      have hcur : x.t = t := h.cursor
      have hnext : (x.tasks.pcbs t).next = rest.headD 0 := by
        have hchain := h.queue ▸ h.inv.chain
        cases rest with
        | nil => exact Chain.next_last hchain
        | cons u rest => exact Chain.next_cons hchain
      refine ⟨q, rest, h.inv, h.started, ?_, ?_, ?_, fun l hl => ?_⟩
      · rw [h.queue, hcur]
        simp
      · rw [hcur]
        exact hnext
      · show x.out ++ _ = _
        rw [h.out]
        simp
      · rcases List.mem_append.mp hl with hl | hl
        · exact h.pid l hl
        · obtain rfl := List.mem_singleton.mp hl
          rfl
  | other ht hstep hexit =>
    obtain ⟨new, hinv, hpid⟩ := Step.prefix h.inv hstep hexit
    refine ⟨q ++ new, rest ++ new, hinv, h.started.trans (List.prefix_append _ _), ?_, ?_, h.out,
      fun l hl => ?_⟩
    · show q ++ new = _
      rw [← List.append_assoc, ← h.queue]
    · cases rest with
      | nil => exact absurd h.cursor ht
      | cons t rest => exact h.cursor
    · rw [h.pid l hl]
      refine (hpid l.1 ?_).symm
      rw [h.queue]
      exact List.mem_append_left _ (List.mem_map_of_mem hl)

/-- **Preempted anywhere, `print_task` lists the queue.** From a reachable state, with tasks switched
and forked between its lines in any order: when it is done it has printed one line for each task of
the queue as it then is, in the order of the queue, with the pid of that task; and no task of the
queue at its start is left out. -/
theorem printTask_lists (h0 : 0 < p₀) (htop : p₀ < 2 ^ 32)
    (hr : Run (Step c) (initMultitask s₀ p₀) ls s) (hp : Run (PrintStep c) (printTask s) bs x)
    (hend : x.t = 0) :
    ∃ q q', Chain s.next s.headTask q ∧ Chain x.tasks.next x.tasks.headTask q' ∧ q <+: q' ∧
      x.shown.map Prod.fst = q' ∧ q'.Nodup ∧
      x.finish.out = taskHeader ++ x.shown.flatMap (fun l => taskLine l.2) ++ printf "\n" [] ∧
      ∀ l ∈ x.shown, l.2.pid = (x.tasks.pcbs l.1).pid := by
  obtain ⟨q, h⟩ := run_inv (inv_initMultitask s₀ h0 htop) hr
  have hstart : Shown c q q q (printTask s) := by
    refine ⟨h, List.prefix_rfl, rfl, ?_, (List.append_nil _).symm, fun l hl => ?_⟩
    · obtain ⟨r, rfl⟩ := h.eq_head
      rfl
    · exact absurd hl (List.not_mem_nil)
  obtain ⟨q', rest, hx⟩ := hp.inv (I := fun _ x => ∃ q' rest, Shown c q q' rest x) ⟨q, q, hstart⟩
    fun _ x _ y hshown hs => by
      obtain ⟨q', rest, hx⟩ := hshown
      exact hx.step hs
  have hrest : rest = [] := by
    cases rest with
    | nil => rfl
    | cons t rest =>
      have ht : t ∈ q' := by
        rw [hx.queue]
        simp
      exact absurd (hx.cursor.symm.trans hend) (hx.inv.ne_zero ht)
  have hq' := hx.queue
  rw [hrest, List.append_nil] at hq'
  exact ⟨q, q', h.chain, hx.inv.chain, hx.started, hq'.symm, hx.inv.nodup,
    congrArg (· ++ printf "\n" []) hx.out, hx.pid⟩

lemma run_line (hp : Run (PrintStep c) (printTask s) bs x) (ht : x.t ≠ 0) : ∃ y,
    Run (PrintStep c) (printTask s) (bs ++ [none]) y ∧ y.tasks = x.tasks ∧ y.t = x.tasks.next x.t :=
  ⟨_, hp.snoc (.line ht), rfl, rfl⟩

lemma run_other (hp : Run (PrintStep c) (printTask s) bs x) (ht : x.t ≠ 0)
    (hs : Step c x.tasks a s') (hexit : NoExit a) : ∃ y,
    Run (PrintStep c) (printTask s) (bs ++ [some a]) y ∧ y.tasks = s' ∧ y.t = x.t :=
  ⟨_, hp.snoc (.other ht hs hexit), rfl, rfl⟩

theorem printTask_lists_two : ∃ s x a, Run (PrintStep someCode) (printTask s) [none, some a, none] x ∧
    x.tasks.curTask = 0xC0095000 ∧ x.shown.map Prod.fst = [0xC0090000, 0xC0095000] := by
  obtain ⟨s, hr, hf⟩ := run_fork
  have hcur : s.curTask = 0xC0090000 := hf.cur
  have hhead : s.headTask = 0xC0090000 := hf.head
  have hchain := hf.inv.chain
  rw [hhead] at hchain
  have hnext : s.next 0xC0090000 = 0xC0095000 := Chain.next_cons (l := []) (r := []) hchain
  obtain ⟨s₂, hs₂, hsw⟩ := @taskSwitch_spec _ _ _ 0xDFFFFF40 0xDFFFFF60 [] [0xC0095000] hf.inv
    (by rw [hcur]; rfl)
  have hstep := @Step.taskSwitch someCode s 0xDFFFFF40 0xDFFFFF60 hf.control
  rw [hs₂] at hstep
  have hchain₂ := hsw.inv.chain
  rw [hsw.head, hhead] at hchain₂
  have hlast : s₂.next 0xC0095000 = 0 := Chain.next_last (l := [0xC0090000]) hchain₂
  obtain ⟨x₁, hx₁, htasks₁, ht₁⟩ := run_line (@Run.nil _ _ (PrintStep someCode) (printTask s))
    (show s.headTask ≠ 0 by rw [hhead]; decide)
  replace ht₁ : x₁.t = 0xC0095000 := by
    rw [ht₁]
    show s.next s.headTask = _
    rw [hhead, hnext]
  replace htasks₁ : x₁.tasks = s := htasks₁
  rw [← htasks₁] at hstep
  obtain ⟨x₂, hx₂, htasks₂, ht₂⟩ := run_other hx₁ (by rw [ht₁]; decide) hstep
    fun _ _ _ h => by cases h
  obtain ⟨x₃, hx₃, htasks₃, ht₃⟩ := run_line hx₂ (by rw [ht₂, ht₁]; decide)
  rw [htasks₂] at htasks₃ ht₃
  obtain ⟨q, q', -, hq', -, hshown, -⟩ := printTask_lists (by decide) (by decide) hr hx₃
    (by rw [ht₃, ht₂, ht₁]; exact hlast)
  refine ⟨s, x₃, _, hx₃, by rw [htasks₃]; exact hsw.cur, hshown.trans (hq'.unique ?_)⟩
  rw [htasks₃, hsw.head, hhead]
  exact hchain₂

end Print

end Tasks

end OsImplement.Task
