import OsImplement.Lib.Linked
import OsImplement.Lib.Word
import OsImplement.Lib.Step

/-!
Tasks (`task.c`, `process.s`).

`read_eip` returns twice, so a function that calls it is cut there: `forkAfter`, `switchAfter` and
`exitAfter` are the code behind the call, run with what `read_eip` has returned. They run at once
with the address of the return point, and later, after a jump to that address, with the number
that the jump has left in `eax`. The locals of a call are in memory, by page directory and frame
pointer, where `clone_dir` copies them.
-/

namespace OsImplement.Task

open Lib.Word Lib.Linked

/-! ### Data -/

/-- `task_state_t` -/
inductive TaskState where
  | uninit
  | sleeping
  | runnable
  | zombie

/-- `pcb_t` -/
structure Pcb where
  pid : ℕ
  esp : ℕ
  ebp : ℕ
  eip : ℕ
  state : TaskState
  pageDir : ℕ
  next : ℕ
  time : ℕ

/-- The locals that are read behind a call of `read_eip`: `parent_task` and `new_task` of `fork`,
and `t` of `task_exit_pid`. -/
structure Locals where
  parentTask : ℕ
  newTask : ℕ
  t : ℕ

/-- A place to resume a task at. -/
structure Ctx where
  eip : ℕ
  esp : ℕ
  ebp : ℕ
  pageDir : ℕ
  deriving DecidableEq

/-- The return points of the three calls of `read_eip`, somewhere in the kernel, which is linked at
1 MiB. -/
structure Code where
  forkRet : ℕ
  switchRet : ℕ
  exitRet : ℕ
  fork_ne_switch : forkRet ≠ switchRet
  fork_ne_exit : forkRet ≠ exitRet
  switch_ne_exit : switchRet ≠ exitRet
  fork_text : 0x100000 ≤ forkRet
  switch_text : 0x100000 ≤ switchRet
  exit_text : 0x100000 ≤ exitRet

/-- What a jump leaves in `eax`. -/
def RESUMED : ℕ := 0x12345

/-- Where the processor is: between calls, behind a jump to a saved address, or at an address that
is no return point. -/
inductive Control where
  | running
  | landing (eip eax esp ebp : ℕ)
  | lost

structure Tasks where
  pcbs : ℕ → Pcb
  curTask : ℕ
  headTask : ℕ
  nextPid : ℕ
  curVmPageDir : ℕ
  /-- The locals at a page directory and a frame pointer. -/
  stack : ℕ → ℕ → Locals
  control : Control
  interrupts : Bool
  /-- What `printf` wrote. -/
  console : List String
  /-- The memory handed out so far for `pcb_t`s, and for page directories. -/
  pcbMem : List ℕ
  dirMem : List ℕ

/-- What happens to a task. -/
inductive Event where
  /-- `fork` has linked a new task with its pid. -/
  | forked (parent child pid : ℕ)
  /-- A context is written into a `pcb_t`. -/
  | record (task : ℕ) (ctx : Ctx)
  /-- A context is loaded, and the task becomes current. -/
  | resume (task : ℕ) (ctx : Ctx)
  | forkReturn (task value : ℕ)
  | switchReturn (task : ℕ)
  | exitReturn (task : ℕ)
  deriving DecidableEq

namespace Tasks

variable (c : Code) (s : Tasks)

/-- The links of the queue. -/
def next (p : ℕ) : ℕ := (s.pcbs p).next

/-- The context in a `pcb_t`. -/
def ctx (p : ℕ) : Ctx := ⟨(s.pcbs p).eip, (s.pcbs p).esp, (s.pcbs p).ebp, (s.pcbs p).pageDir⟩

def setPcb (p : ℕ) (pcb : Pcb) : Tasks := { s with pcbs := Function.update s.pcbs p pcb }

/-- The frame of the call that runs, at `ebp`. -/
def locals (ebp : ℕ) : Locals := s.stack s.curVmPageDir ebp

def setLocals (ebp : ℕ) (l : Locals) : Tasks :=
  let frames := Function.update (s.stack s.curVmPageDir) ebp l
  { s with stack := Function.update s.stack s.curVmPageDir frames }

/-- `p->eip = eip; p->esp = esp; p->ebp = ebp;` -/
def setCtx (p eip esp ebp : ℕ) : Tasks :=
  s.setPcb p { s.pcbs p with eip := eip, esp := esp, ebp := ebp }

/-- `sti`, and the return of `fork`. -/
def leave : Tasks := { s with interrupts := true, control := .running }

/-- The end of the routines that switch: `cr3`, `esp` and `ebp` are loaded, and the jump leaves
`0x12345` in `eax`. -/
def jump (p : ℕ) : Tasks :=
  { s with
      curTask := p
      curVmPageDir := (s.pcbs p).pageDir
      interrupts := true
      control := .landing (s.pcbs p).eip RESUMED (s.pcbs p).esp (s.pcbs p).ebp }

/-! ### `fork` -/

/-- `fork`, behind `read_eip`. -/
def forkAfter (eip esp ebp : ℕ) : Tasks × List Event :=
  let frame := s.locals ebp
  if s.curTask = frame.parentTask then
    let newTask := frame.newTask
    let s := s.setCtx newTask eip esp ebp
    (s.leave, [.record newTask (s.ctx newTask), .forkReturn s.curTask (s.pcbs newTask).pid])
  else (s.leave, [.forkReturn s.curTask 0])

/-- `clone_dir(cur_vm_page_dir)`, as far as locals go. -/
def cloneDir (dir : ℕ) : Tasks :=
  { s with
      stack := Function.update s.stack dir (s.stack s.curVmPageDir)
      dirMem := s.dirMem ++ [dir] }

/-- `fork`, up to the new `pcb_t`, with the directory that `clone_dir` returns and the memory that
`_malloc_s` returns. -/
def forkPcb (ebp dir newTask : ℕ) : Tasks :=
  let s := { s with interrupts := false }
  let s := s.setLocals ebp { s.locals ebp with parentTask := s.curTask }
  let s := s.cloneDir dir
  let s := s.setLocals ebp { s.locals ebp with newTask := newTask }
  let pid := s.nextPid
  let s := { s with nextPid := add32 s.nextPid 1, pcbMem := s.pcbMem ++ [newTask] }
  s.setPcb newTask
    { pid := pid, esp := 0, ebp := 0, eip := 0, state := .runnable, pageDir := dir, next := 0,
      time := 0 }

/-- `tmp_task` walks to the end of the queue, and gets the new task as its next. -/
def enqueue (newTask : ℕ) : Option Tasks := do
  let tmpTask ← last s.next (2 ^ 32) s.headTask
  some (s.setPcb tmpTask { s.pcbs tmpTask with next := newTask })

/-- `fork`, with `esp` and `ebp` in its body. -/
def fork (esp ebp dir newTask : ℕ) : Option (Tasks × List Event) := do
  let t ← (s.forkPcb ebp dir newTask).enqueue newTask
  let (t, events) := t.forkAfter c.forkRet esp ebp
  some (t, .forked s.curTask newTask s.nextPid :: events)

/-! ### `task_switch` -/

/-- `task_switch`, behind `read_eip`. -/
def switchAfter (eip esp ebp : ℕ) : Tasks × List Event :=
  if eip = RESUMED then ({ s with control := .running }, [.switchReturn s.curTask])
  else
    let old := s.curTask
    let s := s.setCtx old eip esp ebp
    let s := s.setPcb old { s.pcbs old with time := add32 (s.pcbs old).time 1 }
    let new := if (s.pcbs old).next = 0 then s.headTask else (s.pcbs old).next
    (s.jump new, [.record old (s.ctx old), .resume new (s.ctx new)])

/-- `task_switch` -/
def taskSwitch (esp ebp : ℕ) : Tasks × List Event :=
  if s.curTask = 0 then (s, [.switchReturn s.curTask])
  else s.switchAfter c.switchRet esp ebp

/-! ### `task_exit_pid` -/

/-- `task_exit_pid`, behind `read_eip`. -/
def exitAfter (eip esp ebp : ℕ) : Tasks × List Event :=
  if eip = RESUMED then ({ s with control := .running }, [.exitReturn s.curTask])
  else
    let t := (s.locals ebp).t
    let old := s.curTask
    let s := s.setCtx old eip esp ebp
    (s.jump t, [.record old (s.ctx old), .resume t (s.ctx t)])

/-- `task_exit_pid` -/
def taskExitPid (pid esp ebp : ℕ) : Option (Tasks × List Event) := do
  let s := { s with interrupts := false }
  if s.headTask = 0 ∨ s.curTask = 0 then some (s, [.exitReturn s.curTask])
  else
    match ← findBefore s.next (fun p => (s.pcbs p).pid) pid (2 ^ 32) s.headTask with
    | none => some ({ s with console := s.console ++ ["not thread with pid\n"] },
        [.exitReturn s.curTask])
    | some t =>
      let victim := (s.pcbs t).next
      let s := s.setPcb t { s.pcbs t with next := (s.pcbs victim).next }
      let s := s.setLocals ebp { s.locals ebp with t := t }
      if s.curTask = 0 then some (s, [.exitReturn s.curTask])
      else some (s.exitAfter c.exitRet esp ebp)

/-! ### After a jump -/

/-- The code at the address that was jumped to. -/
def land : Tasks × List Event :=
  match s.control with
  | .landing eip eax esp ebp =>
    if eip = c.forkRet then s.forkAfter eax esp ebp
    else if eip = c.switchRet then s.switchAfter eax esp ebp
    else if eip = c.exitRet then s.exitAfter eax esp ebp
    else ({ s with control := .lost }, [])
  | _ => (s, [])

end Tasks

/-! ### Runs -/

inductive Op where
  | fork (esp ebp dir newTask : ℕ)
  | taskSwitch (esp ebp : ℕ)
  | taskExitPid (pid esp ebp : ℕ)
  | land

/-- One step: a call made between calls, or the code behind a jump. `_malloc_s` and `clone_dir`
return fresh memory, and `task_exit_pid` is called on a queued task other than the head. -/
inductive Step (c : Code) : Tasks → Op × List Event → Tasks → Prop
  | fork {s s' : Tasks} {esp ebp dir newTask : ℕ} {events : List Event}
      (hrun : s.control = .running) (hdir : dir ∉ s.dirMem)
      (hnew : newTask ∉ s.pcbMem) (h0 : 0 < newTask) (htop : newTask < 2 ^ 32)
      (h : s.fork c esp ebp dir newTask = some (s', events)) :
      Step c s (.fork esp ebp dir newTask, events) s'
  | taskSwitch {s : Tasks} {esp ebp : ℕ} (hrun : s.control = .running) :
      Step c s (.taskSwitch esp ebp, (s.taskSwitch c esp ebp).2) (s.taskSwitch c esp ebp).1
  | taskExitPid {s s' : Tasks} {pid esp ebp : ℕ} {events : List Event}
      (hrun : s.control = .running)
      (hpid : ∃ q, Chain s.next s.headTask q ∧ ∃ p ∈ q, p ≠ s.headTask ∧ (s.pcbs p).pid = pid)
      (h : s.taskExitPid c pid esp ebp = some (s', events)) :
      Step c s (.taskExitPid pid esp ebp, events) s'
  | land {s : Tasks} (hland : s.control ≠ .running) :
      Step c s (.land, (s.land c).2) (s.land c).1

/-- `init_multitask`, behind `move_stack`: one task at `p`, the first memory handed out. What the
memory held before is `s`. -/
def initMultitask (s : Tasks) (p : ℕ) : Tasks :=
  { s with
      pcbs := Function.update s.pcbs p
        { s.pcbs p with
          pid := 1, esp := 0, ebp := 0, eip := 0, state := .runnable, pageDir := s.curVmPageDir,
          next := 0 }
      curTask := p
      headTask := p
      nextPid := 2
      control := .running
      interrupts := true
      pcbMem := [p]
      dirMem := [s.curVmPageDir] }

/-- The history of a run. -/
def events (ls : List (Op × List Event)) : List Event := ls.flatMap Prod.snd

end OsImplement.Task
