import OsImplement.Memory.Release
import OsImplement.Task.Termination

/-!
Tasks and the memory they run in: what the end of a task does to page tables and frames.

`fork` clones the directory of its caller, and the heap gives the new `pcb_t`. Neither way to end
such a task releases what `fork` has made for it: `task_exit` hands its whole directory to
`free_all_page`, with the tables of the kernel in it, and `task_exit_pid` releases no page at all.
-/

namespace OsImplement.Task

open Lib.Word Lib.Linked Lib.Step Memory

/-! ### The code -/

/-- The kernel with its directories, and the tasks. Both have `cur_vm_page_dir`, which is one
variable. -/
structure Multitask where
  machine : Machine
  tasks : Tasks

/-- `sizeof(pcb_t)` -/
def PCB_SIZE : ℕ := 56

namespace Multitask

variable (c : Code) (s : Multitask)

abbrev kernel : Kernel := s.machine.kernel

/-- The directory of a task. -/
def dirOf (p : ℕ) : ℕ := (s.tasks.pcbs p).pageDir

/-- The tasks go on as `t`, with its `cur_vm_page_dir`. -/
def goOn (t : Tasks) : Multitask :=
  ⟨⟨{ s.kernel with curVmPageDir := t.curVmPageDir }, s.machine.clones⟩, t⟩

/-- `task_exit` -/
def taskExit : Option Multitask := do
  let t ← s.tasks.taskExit
  let s' := s.goOn t
  if s.tasks.headTask = 0 ∨ s.tasks.curTask = 0 then some s'
  else
    let tCurTask := s.tasks.curTask
    let k ← (s'.kernel.freeAllPage (s.dirOf tCurTask)).kfree tCurTask
    some ⟨⟨k, s.machine.clones⟩, t⟩

/-- `task_exit_pid` -/
def taskExitPid (pid esp ebp : ℕ) : Option Multitask := do
  let (t, _) ← s.tasks.taskExitPid c pid esp ebp
  some (s.goOn t)

/-- `init_multitask`, behind `move_stack`, with the `pcb_t` that `_malloc_s` returns. What its
memory held before is `t`. -/
def initMultitask (m : Machine) (t : Tasks) (p : ℕ) : Multitask :=
  ⟨m, Task.initMultitask { t with curVmPageDir := m.kernel.curVmPageDir } p⟩

end Multitask

/-! ### Runs -/

inductive MultiOp where
  | fork (esp ebp dir newTask : ℕ)
  | taskSwitch (esp ebp : ℕ)
  | taskExit
  | taskExitPid (pid esp ebp : ℕ)
  | land
  /-- `_malloc` for the kernel. -/
  | alloc (size : ℕ) (pageAlign : Bool) (ptr : ℕ)
  /-- `alloc_frame(get_page(addr, 1, cur_vm_page_dir), ..)` -/
  | map (addr : ℕ) (isKernel isWritable : Bool)

/-- One step. A task that ends is queued and is not the head. -/
inductive MultiStep (c : Code) : Multitask → MultiOp → Multitask → Prop
  | fork {s : Multitask} {m m' : Machine} {t : Tasks} {esp ebp dir newTask : ℕ} {evs : List Event}
      (hrun : s.tasks.control = .running)
      (hdir : PageStep s.machine (.clone s.kernel.curVmPageDir dir) m)
      (hnew : PageStep m (.alloc PCB_SIZE false newTask) m')
      (h : s.tasks.fork c esp ebp dir newTask = some (t, evs)) :
      MultiStep c s (.fork esp ebp dir newTask) ⟨m', t⟩
  | taskSwitch {s : Multitask} {esp ebp : ℕ} (hrun : s.tasks.control = .running) :
      MultiStep c s (.taskSwitch esp ebp) (s.goOn (s.tasks.taskSwitch c esp ebp).1)
  | taskExit {s s' : Multitask} (hrun : s.tasks.control = .running)
      (hcur : s.tasks.curTask ≠ s.tasks.headTask) (h : s.taskExit = some s') :
      MultiStep c s .taskExit s'
  | taskExitPid {s s' : Multitask} {q : List ℕ} {pid esp ebp : ℕ}
      (hrun : s.tasks.control = .running) (hq : Chain s.tasks.next s.tasks.headTask q)
      (hpid : ∃ p ∈ q, p ≠ s.tasks.headTask ∧ (s.tasks.pcbs p).pid = pid)
      (h : s.taskExitPid c pid esp ebp = some s') :
      MultiStep c s (.taskExitPid pid esp ebp) s'
  | land {s : Multitask} (hland : s.tasks.control ≠ .running) :
      MultiStep c s .land (s.goOn (s.tasks.land c).1)
  | alloc {s : Multitask} {m : Machine} {size ptr : ℕ} {pageAlign : Bool}
      (h : PageStep s.machine (.alloc size pageAlign ptr) m) :
      MultiStep c s (.alloc size pageAlign ptr) ⟨m, s.tasks⟩
  | map {s : Multitask} {m : Machine} {addr : ℕ} {isKernel isWritable : Bool}
      (h : PageStep s.machine (.map addr isKernel isWritable) m) :
      MultiStep c s (.map addr isKernel isWritable) ⟨m, s.tasks⟩

/-- The calls of `alloc` that a call makes are sound. -/
def SoundCalls (m : Machine) (op : PageOp) : Prop := m.CallsOk Kernel.AllocOk (fun _ => True) op

/-- The step makes sound calls of `alloc`, and no task ends by `task_exit`. -/
def Multitask.StepOk (s : Multitask) : MultiOp → Prop
  | .fork _ _ dir newTask => SoundCalls s.machine (.clone s.kernel.curVmPageDir dir) ∧
    ∀ m, PageStep s.machine (.clone s.kernel.curVmPageDir dir) m →
      SoundCalls m (.alloc PCB_SIZE false newTask)
  | .alloc size pageAlign ptr => SoundCalls s.machine (.alloc size pageAlign ptr)
  | .map addr isKernel isWritable => SoundCalls s.machine (.map addr isKernel isWritable)
  | .taskExit => False
  | _ => True

/-- A machine that `init_paging` and `init_multitask` have started, with other calls in between. -/
def Begun (s : Multitask) : Prop :=
  ∃ k₀ ops m m' t p, Booted k₀ ∧
    Run (fun m op m' => PageStep m op m' ∧ SoundCalls m op) ⟨k₀, [k₀.curVmPageDir]⟩ ops m ∧
    PageStep m (.alloc PCB_SIZE false p) m' ∧ SoundCalls m (.alloc PCB_SIZE false p) ∧
    s = Multitask.initMultitask m' t p

/-! ### What the end of a task has to do -/

/-- How a task ends: by `task_exit`, which it calls itself, or by `task_exit_pid`. -/
inductive Ending where
  | taskExit
  | taskExitPid (esp ebp : ℕ)
  deriving DecidableEq

namespace Multitask

variable (c : Code) (s : Multitask) (p : ℕ)

/-- The end of the task at `p`. -/
def finish : Ending → Option Multitask
  | .taskExit => s.taskExit
  | .taskExitPid esp ebp => s.taskExitPid c (s.tasks.pcbs p).pid esp ebp

/-- The tables whose entries are read at the end of the task at `p`. -/
def tablesRead : Ending → List ℕ
  | .taskExit => (List.range 1024).map (s.kernel.tableOf (s.dirOf p))
  | .taskExitPid _ _ => []

/-- The frames of the private tables become free, and no other bit changes; and so do no entries of
tables that `vm_page_dir` or another task in the queue `q` has. -/
structure Releases (q : List ℕ) (s' : Multitask) : Prop where
  freed : ∀ f, Used s'.kernel.map f ↔
    Used s.kernel.map f ∧ ¬ s.kernel.PrivateFrame (s.dirOf p) f
  kept : ∀ d, (d = s.kernel.vmPageDir ∨ ∃ p' ∈ q, p' ≠ p ∧ d = s.dirOf p') →
    ∀ i < 1024, s.kernel.tableOf d i ≠ 0 → ∀ j < 1024,
      s'.kernel.tables (s.kernel.tableOf d i) j = s.kernel.tables (s.kernel.tableOf d i) j

/-- The end of the task at `p`: it releases what is its own, and skips the slots without a table. -/
structure EndsClean (q : List ℕ) (e : Ending) : Prop where
  releases : ∃ s', s.finish c p e = some s' ∧ s.Releases p q s'
  skips : 0 ∉ s.tablesRead p e

end Multitask

/-! ### Directories of tasks -/

namespace Tasks

section Dirs

variable {c : Code} {s s' : Tasks} {pid esp ebp eip dir newTask : ℕ} {evs : List Event}

lemma dirMem_forkAfter : (s.forkAfter eip esp ebp).1.dirMem = s.dirMem := by
  unfold forkAfter
  simp only
  split <;> rfl

lemma dirMem_switchAfter : (s.switchAfter eip esp ebp).1.dirMem = s.dirMem := by
  unfold switchAfter
  split <;> rfl

lemma dirMem_exitAfter : (s.exitAfter eip esp ebp).1.dirMem = s.dirMem := by
  unfold exitAfter
  split <;> rfl

lemma dirMem_taskSwitch : (s.taskSwitch c esp ebp).1.dirMem = s.dirMem := by
  unfold taskSwitch
  split
  · rfl
  · exact dirMem_switchAfter

lemma dirMem_land : (s.land c).1.dirMem = s.dirMem := by
  unfold land
  split
  · split
    · exact dirMem_forkAfter
    · split
      · exact dirMem_switchAfter
      · split
        · exact dirMem_exitAfter
        · rfl
  · rfl

lemma dirMem_taskExitPid (h : s.taskExitPid c pid esp ebp = some (s', evs)) :
    s'.dirMem = s.dirMem := by
  simp only [taskExitPid] at h
  split at h
  · simp only [Option.some.injEq, Prod.mk.injEq] at h
    rw [← h.1]
  · simp only [Option.bind_eq_bind, Option.bind_eq_some_iff] at h
    obtain ⟨found, -, h⟩ := h
    cases found with
    | none =>
      simp only [Option.some.injEq, Prod.mk.injEq] at h
      rw [← h.1]
    | some t =>
      simp only at h
      split at h
      · simp only [Option.some.injEq, Prod.mk.injEq] at h
        rw [← h.1]
        rfl
      · have he : _ = s' := congrArg Prod.fst (Option.some.inj h)
        rw [← he]
        exact dirMem_exitAfter

lemma curVmPageDir_forkAfter : (s.forkAfter eip esp ebp).1.curVmPageDir = s.curVmPageDir := by
  unfold forkAfter
  simp only
  split <;> rfl

lemma fork_dir (h : s.fork c esp ebp dir newTask = some (s', evs)) :
    s'.dirMem = s.dirMem ++ [dir] ∧ s'.curVmPageDir = s.curVmPageDir := by
  simp only [Tasks.fork, enqueue, Option.bind_eq_bind, Option.bind_eq_some_iff,
    Option.some.injEq, Prod.mk.injEq] at h
  obtain ⟨t, ⟨tmpTask, -, rfl⟩, rfl, -⟩ := h
  exact ⟨dirMem_forkAfter, curVmPageDir_forkAfter⟩

end Dirs

end Tasks

/-! ### Runs of the machine -/

namespace Multitask

/-- A sound machine with the tasks of the queue `q`. Every `pcb_t` has a block of its own, and every
directory is a clone. -/
structure Joint (c : Code) (q : List ℕ) (holes blocks : List (ℕ × ℕ)) (s : Multitask) : Prop where
  system : System KHEAP_START holes blocks s.machine
  framed : s.kernel.BootFramed KHEAP_START
  inv : s.tasks.Inv c q
  same : s.kernel.curVmPageDir = s.tasks.curVmPageDir
  dirs : ∀ d ∈ s.tasks.dirMem, d ∈ s.machine.clones
  room : ∀ p ∈ s.tasks.pcbMem, (p, p + PCB_SIZE) ∈ blocks

section Runs

variable {c : Code} {q q' : List ℕ} {holes blocks : List (ℕ × ℕ)} {s s' : Multitask} {t : Tasks}
  {m : Machine} {op : MultiOp}

lemma Joint.goOn (h : s.Joint c q holes blocks) (hi : t.Inv c q')
    (hd : t.dirMem = s.tasks.dirMem) (hm : t.pcbMem = s.tasks.pcbMem) :
    (s.goOn t).Joint c q' holes blocks := by
  have hcur : t.curVmPageDir ∈ s.machine.clones := by
    rw [hi.curDir]
    exact h.dirs _ (hd ▸ hi.dirMem _ hi.cur)
  refine ⟨⟨h.system.heap.congr rfl rfl, h.system.kheap, h.system.vm, hcur, h.system.clone,
    h.system.shares⟩, ?_, hi, rfl, fun d hd' => h.dirs d (hd ▸ hd'), fun p hp => h.room p (hm ▸ hp)⟩
  have hsame : SameKernel KHEAP_START s.kernel (s.goOn t).kernel :=
    ⟨rfl, rfl, rfl, rfl, rfl, fun _ _ => rfl⟩
  exact (Kernel.stable_bootFramed KHEAP_START).congr hsame h.framed

lemma Joint.page {op : PageOp} (h : s.Joint c q holes blocks) (hok : SoundCalls s.machine op)
    (hr : PageStep s.machine op m) (hne : ∀ dir, op ≠ .switch dir) :
    ∃ holes' blocks', Joint c q holes' blocks' ⟨m, s.tasks⟩ := by
  have hJ := Kernel.stable_bootFramed KHEAP_START
  obtain ⟨holes', blocks', hsub, hsys, hj⟩ := hr.system hJ h.system h.framed hok
  obtain ⟨hclones, hcur⟩ := hr.kept hJ h.system h.framed hok
  exact ⟨holes', blocks', hsys, hj, h.inv, (hcur hne).trans h.same,
    fun d hd => hclones (h.dirs d hd), fun p hp => hsub (h.room p hp)⟩

lemma Joint.fork {m' : Machine} {esp ebp dir newTask : ℕ} {evs : List Event}
    (h : s.Joint c q holes blocks) (hok : s.StepOk (.fork esp ebp dir newTask))
    (hdir : PageStep s.machine (.clone s.kernel.curVmPageDir dir) m)
    (hnew : PageStep m (.alloc PCB_SIZE false newTask) m')
    (hf : s.tasks.fork c esp ebp dir newTask = some (t, evs)) :
    ∃ q' holes' blocks', Joint c q' holes' blocks' ⟨m', t⟩ := by
  have hJ := Kernel.stable_bootFramed KHEAP_START
  have hsize : 0 < PCB_SIZE := by decide
  obtain ⟨hclone, halloc⟩ := hok
  replace halloc := halloc m hdir
  obtain ⟨holes₁, blocks₁, hsub, hsys₁, hj₁⟩ := hdir.system hJ h.system h.framed hclone
  obtain ⟨hclones, hcur⟩ := hdir.kept hJ h.system h.framed hclone
  obtain ⟨hold, hmem⟩ := hdir.clone_fresh hJ h.system h.framed hclone
  obtain ⟨hclones', hcur'⟩ := hnew.kept hJ hsys₁ hj₁ halloc
  obtain ⟨holes₂, extra, hsys₂, hj₂⟩ := hnew.alloc_block hJ hsys₁ hj₁ halloc
  obtain ⟨hlo, hhi⟩ := hsys₂.heap.block (newTask, newTask + PCB_SIZE) (by simp)
  have hend := hsys₂.heap.endLt
  have hA : KHEAP_START = 0xC0000000 := rfl
  have hnewTask : newTask ∉ s.tasks.pcbMem := fun hp =>
    hsys₂.heap.fresh hsize hsize (List.mem_append_right _ (hsub (h.room _ hp)))
  obtain ⟨t', ht', hforked⟩ := @Tasks.fork_spec c s.tasks q esp ebp dir newTask h.inv
    (fun hd => hold (h.dirs _ hd)) hnewTask (by omega) (by omega)
  obtain ⟨hdirMem, hcurDir⟩ := Tasks.fork_dir hf
  obtain rfl : t = t' := (Prod.mk.inj (Option.some.inj (hf.symm.trans ht'))).1
  refine ⟨_, holes₂, _, hsys₂, hj₂, hforked.inv, ?_, fun d hd => ?_, fun p hp => ?_⟩
  · rw [hcurDir, ← h.same, ← hcur fun _ => by simp, ← hcur' fun _ => by simp]
  · rw [hdirMem] at hd
    rcases List.mem_append.mp hd with hd | hd
    · exact hclones' (hclones (h.dirs d hd))
    · rw [List.mem_singleton.mp hd]
      exact hclones' hmem
  · rw [hforked.mem] at hp
    rcases List.mem_append.mp hp with hp | hp
    · simp [hsub (h.room p hp)]
    · rw [List.mem_singleton.mp hp]
      exact List.mem_cons_self ..

theorem Joint.step (h : s.Joint c q holes blocks) (hok : s.StepOk op)
    (hr : MultiStep c s op s') : ∃ q' holes' blocks', s'.Joint c q' holes' blocks' := by
  cases hr with
  | fork hrun hdir hnew hf => exact h.fork hok hdir hnew hf
  | @taskSwitch esp ebp hrun =>
    obtain ⟨l, r, hq⟩ := List.append_of_mem h.inv.cur
    obtain ⟨t, ht, hsw⟩ := @Tasks.taskSwitch_spec c s.tasks q esp ebp l r h.inv hq
    have hd := @Tasks.dirMem_taskSwitch c s.tasks esp ebp
    rw [ht] at hd ⊢
    exact ⟨_, _, _, h.goOn hsw.inv hd hsw.mem⟩
  | taskExit => exact hok.elim
  | @taskExitPid _ q₁ pid esp ebp hrun hq hpid hf =>
    obtain rfl := h.inv.chain.unique hq
    obtain ⟨p, hp, hne, hk⟩ := hpid
    obtain ⟨l, t, r, hq'⟩ := h.inv.split hp hne
    obtain ⟨s₁, hs₁, hsw⟩ := @Tasks.taskExitPid_spec c s.tasks q p esp ebp l r t pid h.inv hq' hk
    unfold taskExitPid at hf
    rw [hs₁] at hf
    obtain rfl := Option.some.inj hf
    exact ⟨_, _, _, h.goOn hsw.inv (Tasks.dirMem_taskExitPid hs₁) hsw.mem⟩
  | land hland =>
    have hl := (Tasks.land_spec h.inv hland).1
    exact ⟨_, _, _, h.goOn hl.inv Tasks.dirMem_land hl.mem⟩
  | alloc hp => exact ⟨q, h.page hok hp fun _ => by simp⟩
  | map hp => exact ⟨q, h.page hok hp fun _ => by simp⟩

lemma Begun.joint (c : Code) (h : Begun s) : ∃ p holes blocks, s.Joint c [p] holes blocks := by
  have hJ := Kernel.stable_bootFramed KHEAP_START
  obtain ⟨k₀, ops, m, m', t, p, hb, hr, hal, hok, rfl⟩ := h
  obtain ⟨k, b, K, hlow, hfit, hs⟩ := hb.started
  rw [hs.cur] at hr
  obtain ⟨⟨holes, blocks, hsys⟩, hj⟩ :=
    Machine.run_system hJ ⟨_, _, hs.system⟩ (hs.bootFramed hlow hfit) hr
  obtain ⟨holes', extra, hsys', hj'⟩ := hal.alloc_block hJ hsys hj hok
  have hA : KHEAP_START = 0xC0000000 := rfl
  obtain ⟨hlo, hhi⟩ := hsys'.heap.block (p, p + PCB_SIZE) (by simp)
  have hend := hsys'.heap.endLt
  refine ⟨p, holes', _, hsys', hj', Tasks.inv_initMultitask _ (by omega) (by omega), rfl,
    fun d hd => ?_, fun p' hp' => ?_⟩
  · rw [List.mem_singleton.mp hd]
    exact hsys'.cur
  · rw [List.mem_singleton.mp hp']
    exact List.mem_cons_self ..

theorem run_joint {s₀ : Multitask} {ops : List MultiOp} (h : Begun s₀)
    (hr : Run (fun s op s' => MultiStep c s op s' ∧ s.StepOk op) s₀ ops s) :
    ∃ q holes blocks, s.Joint c q holes blocks := by
  refine hr.inv (I := fun _ s => ∃ q holes blocks, s.Joint c q holes blocks) ?_ ?_
  · obtain ⟨p, holes, blocks, hs⟩ := Begun.joint c h
    exact ⟨_, _, _, hs⟩
  · rintro _ s op s' ⟨q, holes, blocks, hs⟩ ⟨hstep, hok⟩
    exact hs.step hok hstep

/-! ### The end of a task -/

variable {p : ℕ} {e : Ending}

lemma Joint.dirOf_mem (h : s.Joint c q holes blocks) (hp : p ∈ q) : s.dirOf p ∈ s.machine.clones :=
  h.dirs _ (h.inv.dirMem p hp)

/-- **`free_all_page` takes a frame from `vm_page_dir`.** -/
lemma Joint.freeAllPage (t : Tasks) (h : s.Joint c q holes blocks) (hp : p ∈ q) :
    ∃ i < 1024, ∃ j < 1024, s.kernel.tableOf s.kernel.vmPageDir i ≠ 0 ∧
      s.kernel.frameAt s.kernel.vmPageDir i j ≠ 0 ∧
      (((s.goOn t).kernel.freeAllPage (s.dirOf p)).tables
        (s.kernel.tableOf s.kernel.vmPageDir i) j).frame = 0 := by
  obtain ⟨i, hi, j, hj, hsame, hne, hframe⟩ := h.system.sharedFrame h.framed (h.dirOf_mem hp)
  have hempty := (Kernel.freeAllPage_empties (s.dirOf p) (s.goOn t).kernel).2 i hi
    (hsame.trans_ne hne) j hj
  have hslot : (s.goOn t).kernel.tableOf (s.dirOf p) i =
      s.kernel.tableOf s.kernel.vmPageDir i := hsame
  rw [hslot] at hempty
  exact ⟨i, hi, j, hj, hne, hframe, hempty⟩

lemma Joint.not_releases (h : s.Joint c q holes blocks) (hs : s.taskExit = some s') :
    ¬ s.Releases s.tasks.curTask q s' := by
  intro hrel
  have hcur : s.tasks.curTask ≠ 0 := h.inv.ne_zero h.inv.cur
  have hhead : s.tasks.headTask ≠ 0 := h.inv.ne_zero h.inv.head
  simp only [taskExit, Option.bind_eq_bind, Option.bind_eq_some_iff] at hs
  obtain ⟨t, -, hs⟩ := hs
  rw [if_neg (by simp [hcur, hhead])] at hs
  obtain ⟨k, hk, hs⟩ := Option.bind_eq_some_iff.mp hs
  obtain rfl := Option.some.inj hs
  obtain ⟨i, hi, j, hj, hne, hframe, hempty⟩ := h.freeAllPage t h.inv.cur
  have hgone := (Kernel.onlyEmpties_kfree hk).empty _ _ hempty
  have hkept := hrel.kept _ (.inl rfl) i hi hne j hj
  refine hframe ?_
  rw [Kernel.frameAt, ← hkept]
  exact hgone

lemma Joint.taskExitPid_eq (esp ebp : ℕ) (h : s.Joint c q holes blocks) (hp : p ∈ q)
    (hne : p ≠ s.tasks.headTask) :
    ∃ t, s.taskExitPid c (s.tasks.pcbs p).pid esp ebp = some (s.goOn t) := by
  obtain ⟨l, x, r, hq⟩ := h.inv.split hp hne
  obtain ⟨t, ht, -⟩ := @Tasks.taskExitPid_spec c s.tasks q p esp ebp l r x _ h.inv hq rfl
  refine ⟨t, ?_⟩
  unfold taskExitPid
  rw [ht]
  rfl

/-- **The end of a task releases its own pages and no others** exactly when it is ended by
`task_exit_pid` and its private tables hold no frame that is marked. -/
theorem endsClean_iff {s₀ : Multitask} {ops : List MultiOp} (h : Begun s₀)
    (hr : Run (fun s op s' => MultiStep c s op s' ∧ s.StepOk op) s₀ ops s)
    (hq : Chain s.tasks.next s.tasks.headTask q) (hp : p ∈ q) (hne : p ≠ s.tasks.headTask)
    (he : e = .taskExit → s.tasks.curTask = p) :
    s.EndsClean c p q e ↔
      e ≠ .taskExit ∧ ∀ f, s.kernel.PrivateFrame (s.dirOf p) f → ¬ Used s.kernel.map f := by
  obtain ⟨q', holes, blocks, hs⟩ := run_joint h hr
  obtain rfl := hs.inv.chain.unique hq
  cases e with
  | taskExit =>
    obtain rfl := he rfl
    refine ⟨fun hclean => ?_, fun hc => absurd rfl hc.1⟩
    obtain ⟨s', hs', hrel⟩ := hclean.releases
    exact absurd hrel (hs.not_releases hs')
  | taskExitPid esp ebp =>
    obtain ⟨t, ht⟩ := hs.taskExitPid_eq esp ebp hp hne
    refine ⟨fun hclean => ⟨by simp, fun f hf hused => ?_⟩, fun hc => ⟨⟨_, ht, fun f => ?_,
      fun _ _ _ _ _ _ _ => rfl⟩, by simp [tablesRead]⟩⟩
    · obtain ⟨s', hs', hrel⟩ := hclean.releases
      obtain rfl := Option.some.inj (hs'.symm.trans ht)
      exact ((hrel.freed f).mp hused).2 hf
    · exact ⟨fun hused => ⟨hused, fun hf => hc.2 f hf hused⟩, And.left⟩

end Runs

end Multitask

/-! ### A run -/

section Run

variable {p s n p' s' n' t i : ℕ} {own : List ℕ} {k k' : Kernel} {m : Lib.Bytes.Mem}
variable {a : SortedArray}

/-- The first clone runs with page tables of its own in the slots `own`, two at most, and what is
left of the heap is the hole at `p`. -/
structure OwnTables (p s n : ℕ) (own : List ℕ) (k : Kernel) : Prop where
  hole : LastHole KHEAP_START p s n 0xC0100000 k
  kheap : k.kheap ≠ 0
  vm : k.vmPageDir < KHEAP_START
  cur : k.curVmPageDir = 0xC0081000
  empty : ∀ i, i = 895 ∨ i = 896 → k.tableOf k.vmPageDir i = 0
  shared : ∀ i < 1024, i ∉ own → k.tableOf 0xC0081000 i = k.tableOf k.vmPageDir i
  own : ∀ i ∈ own, (i = 895 ∨ i = 896) ∧ k.tableOf 0xC0081000 i ≠ 0

lemma OwnTables.vm_ne (h : OwnTables p s n own k) : k.vmPageDir ≠ 0xC0081000 := by
  have hA : KHEAP_START = 0xC0000000 := rfl
  have := h.vm
  omega

lemma OwnTables.alloc (h : OwnTables p s n own k)
    (hh : LastHole KHEAP_START p' s' n' 0xC0100000 (k.retag m a)) :
    OwnTables p' s' n' own (k.retag m a) :=
  ⟨hh, h.kheap, h.vm, h.cur, h.empty, h.shared, h.own⟩

lemma OwnTables.map (addr : ℕ) (h : OwnTables p s n own k) (haddr : addr < 2 ^ 32)
    (hi : addr / 0x1000 / 1024 = i) (hslot : i = 895 ∨ i = 896) (hnew : i ∉ own)
    (hal : Kernel.alloc 1 4096 true k = some (t, k.retag m a)) (hok : k.AllocOk 4096 true)
    (ht : KHEAP_START ≤ t) (hh : LastHole KHEAP_START p' s' n' 0xC0100000 (k.retag m a)) :
    ∃ k', PageStep ⟨k, [0xC0081000]⟩ (.map addr false true) ⟨k', [0xC0081000]⟩ ∧
      SoundCalls ⟨k, [0xC0081000]⟩ (.map addr false true) ∧ OwnTables p' s' n' (i :: own) k' := by
  have hA : KHEAP_START = 0xC0000000 := rfl
  subst hi
  set i := addr / 0x1000 / 1024 with hidef
  have h0 : k.tableOf k.curVmPageDir i = 0 := by
    rw [h.cur, h.shared i (by omega) hnew]
    exact h.empty i hslot
  obtain ⟨phy, hm⟩ := Kernel.mallocAp_some h.kheap hal
  set k₁ := ((k.retag m a).setSlot k.curVmPageDir i t (phy ||| 7)).setTable t fun _ => .zero
    with hk₁
  have hget : k.getPage (Kernel.mallocAp (Kernel.alloc 1)) addr true k.curVmPageDir =
      some (some ⟨t, addr / 0x1000 % 1024⟩, k₁) := by
    unfold Kernel.getPage
    rw [Kernel.lookupPage_none h0]
    simp only [if_true, hm, Option.bind_eq_bind, Option.bind_some]
    rfl
  have hslots (d j : ℕ) : (k₁.allocFrame (some ⟨t, addr / 0x1000 % 1024⟩) false true).tableOf d j =
      if d = 0xC0081000 ∧ j = i then t else k.tableOf d j := by
    rw [← h.cur]
    exact Kernel.tableOf_setSlot
  refine ⟨_, .map haddr hget, ⟨trivial, fun _ => hok⟩, hh.congr rfl rfl, h.kheap, h.vm, h.cur,
    fun j hj => ?_, fun j hj hown => ?_, fun j hj => ?_⟩
  · rw [hslots, if_neg fun hc => h.vm_ne hc.1]
    exact h.empty j hj
  · rw [hslots, hslots, if_neg fun hc => hown (by simp [hc.2]), if_neg fun hc => h.vm_ne hc.1]
    exact h.shared j hj fun hc => hown (by simp [hc])
  · rw [hslots]
    split_ifs with hc
    · exact ⟨hc.2 ▸ hslot, by omega⟩
    · rcases List.mem_cons.mp hj with rfl | hj
      · exact absurd ⟨rfl, rfl⟩ hc
      · exact h.own j hj

lemma OwnTables.mapOwn (addr : ℕ) (h : OwnTables p s n own k) (haddr : addr < 2 ^ 32)
    (hi : addr / 0x1000 / 1024 ∈ own) :
    ∃ k', PageStep ⟨k, [0xC0081000]⟩ (.map addr false true) ⟨k', [0xC0081000]⟩ ∧
      SoundCalls ⟨k, [0xC0081000]⟩ (.map addr false true) ∧ OwnTables p s n own k' := by
  have h0 : k.tableOf k.curVmPageDir (addr / 0x1000 / 1024) ≠ 0 := by
    rw [h.cur]
    exact (h.own _ hi).2
  have hlook : k.lookupPage addr k.curVmPageDir =
      some ⟨k.tableOf k.curVmPageDir (addr / 0x1000 / 1024), addr / 0x1000 % 1024⟩ := if_pos h0
  have hget : k.getPage (Kernel.mallocAp (Kernel.alloc 1)) addr true k.curVmPageDir =
      some (some ⟨k.tableOf k.curVmPageDir (addr / 0x1000 / 1024), addr / 0x1000 % 1024⟩, k) := by
    unfold Kernel.getPage
    rw [hlook]
  refine ⟨_, .map haddr hget, ⟨trivial, fun hnone => ?_⟩, h.hole.congr rfl rfl, h.kheap, h.vm,
    h.cur, h.empty, h.shared, h.own⟩
  rw [show k.lookupPage addr k.curVmPageDir = none from hnone] at hlook
  cases hlook

/-- After `i` rounds of `clone_dir` over those tables: where the last hole is, its size, and how
many holes have been inserted. -/
def holeAfter (i : ℕ) : ℕ × ℕ × ℕ :=
  if i ≤ 895 then (0xC008A00C, 0x76024, 6)
  else if i = 896 then (0xC008C008, 0x74034, 7)
  else (0xC008E008, 0x72040, 8)

lemma holeAfter_succ (h : ¬ (i = 895 ∨ i = 896)) : holeAfter (i + 1) = holeAfter i := by
  unfold holeAfter
  split_ifs <;> first | rfl | omega

/-- The loop of `clone_dir` over the first clone, after `i` rounds from `k₀`. -/
structure CloneRound (k₀ : Kernel) (i : ℕ) (k : Kernel) : Prop where
  hole : LastHole KHEAP_START (holeAfter i).1 (holeAfter i).2.1 (holeAfter i).2.2 0xC0100000 k
  kheap : k.kheap ≠ 0
  vm : k.vmPageDir = k₀.vmPageDir
  dirs : ∀ d ≠ 0xC0088000, k.dirs d = k₀.dirs d

lemma CloneRound.alloc {k₀ : Kernel} (h : CloneRound k₀ i k) (hi : i = 895 ∨ i = 896) :
    ∃ m a t, (∀ fuel, Kernel.alloc (fuel + 1) 4096 true k = some (t, k.retag m a)) ∧
      LastHole KHEAP_START (holeAfter (i + 1)).1 (holeAfter (i + 1)).2.1 (holeAfter (i + 1)).2.2
        0xC0100000 (k.retag m a) ∧ k.AllocOk 4096 true := by
  rcases hi with rfl | rfl
  · obtain ⟨m, a, hal, hh, hok⟩ := h.hole.alloc 4096 true 0xFE8 0x1014 0x74034 (by decide)
      (by decide) (by decide) (by decide) (by decide) (by decide) (by decide)
      ⟨by decide, by decide, by decide, by decide, by decide, by decide⟩
    exact ⟨m, a, _, hal, hh, hok⟩
  · obtain ⟨m, a, hal, hh, hok⟩ := h.hole.alloc 4096 true 0xFEC 0x1014 0x72040 (by decide)
      (by decide) (by decide) (by decide) (by decide) (by decide) (by decide)
      ⟨by decide, by decide, by decide, by decide, by decide, by decide⟩
    exact ⟨m, a, _, hal, hh, hok⟩

/-- **One round**: a table is cloned in the slots 895 and 896. -/
lemma CloneRound.step {k₀ : Kernel} (h₀ : OwnTables p s n [895, 896] k₀) (h : CloneRound k₀ i k)
    (hi : i < 1024) (fuel : ℕ) :
    (k.tableOf 0xC0081000 i ≠ 0 → k.tableOf k.vmPageDir i ≠ k.tableOf 0xC0081000 i →
      k.AllocOk 4096 true) ∧
    ∃ k', k.cloneSlot (Kernel.mallocAp (Kernel.alloc (fuel + 1))) 0xC0081000 0xC0088000 i =
        some k' ∧
      CloneRound k₀ (i + 1) k' := by
  have hA : KHEAP_START = 0xC0000000 := rfl
  have hvm₀ := h₀.vm
  have hsrc : k.tableOf 0xC0081000 i = k₀.tableOf 0xC0081000 i := by
    rw [Kernel.tableOf, h.dirs _ (by decide), Kernel.tableOf]
  have hvm : k.tableOf k.vmPageDir i = k₀.tableOf k₀.vmPageDir i := by
    rw [h.vm, Kernel.tableOf, h.dirs _ (by omega), Kernel.tableOf]
  have hslot (k₁ : Kernel) (t phy : ℕ) : ∀ d ≠ 0xC0088000,
      (k₁.setSlot 0xC0088000 i t phy).dirs d = k₁.dirs d := fun d hd => Function.update_of_ne hd _ _
  by_cases hown : i = 895 ∨ i = 896
  · obtain ⟨m, a, t, hal, hh, hok⟩ := h.alloc hown
    have hne : k.tableOf 0xC0081000 i ≠ 0 := by
      rw [hsrc]
      exact (h₀.own i (by simpa using hown)).2
    have hpriv : k.tableOf k.vmPageDir i ≠ k.tableOf 0xC0081000 i := by
      rw [hvm, h₀.empty i hown]
      exact hne.symm
    obtain ⟨phy, hm⟩ := Kernel.mallocAp_some h.kheap (hal fuel)
    refine ⟨fun _ _ => hok, ?_⟩
    obtain ⟨k₂, htable, ho⟩ := Kernel.cloneTable_some (k.tableOf 0xC0081000 i) hm
    obtain ⟨hmem, hheap, hkheap, -⟩ := ho.records
    refine ⟨k₂.setSlot 0xC0088000 i t (phy ||| 7), ?_, hh.congr hmem hheap, ?_, ?_, fun d hd => ?_⟩
    · unfold Kernel.cloneSlot
      rw [if_neg hne, if_neg hpriv, htable]
      rfl
    · exact hkheap.trans_ne h.kheap
    · exact ho.vm.trans h.vm
    · rw [hslot k₂ _ _ d hd, ho.dirs]
      exact h.dirs d hd
  · have hshared : k.tableOf 0xC0081000 i = k.tableOf k.vmPageDir i := by
      rw [hsrc, hvm]
      exact h₀.shared i hi (by simpa using hown)
    refine ⟨fun _ hne => absurd hshared.symm hne, ?_⟩
    unfold Kernel.cloneSlot
    by_cases h0 : k.tableOf 0xC0081000 i = 0
    · rw [if_pos h0]
      exact ⟨k, rfl, by rw [holeAfter_succ hown]; exact h.hole, h.kheap, h.vm, h.dirs⟩
    · rw [if_neg h0, if_pos hshared.symm]
      refine ⟨_, rfl, ?_, h.kheap, h.vm, fun d hd => ?_⟩
      · rw [holeAfter_succ hown]
        exact h.hole.congr rfl rfl
      · rw [hslot k _ _ d hd]
        exact h.dirs d hd

lemma OwnTables.cloneDir (h : OwnTables 0xC0087054 0x78FD0 5 [895, 896] k) :
    (∀ fuel, ∃ k', k.cloneDir (Kernel.mallocAp (Kernel.alloc (fuel + 1))) 0xC0081000 =
        some (0xC0088000, k') ∧ LastHole KHEAP_START 0xC008E008 0x72040 8 0xC0100000 k') ∧
      SoundCalls ⟨k, [0xC0081000]⟩ (.clone 0xC0081000 0xC0088000) := by
  obtain ⟨m, a, hal, hh, hok⟩ := h.hole.alloc 8196 true 0xFA0 0x2018 0x76024 (by decide)
    (by decide) (by decide) (by decide) (by decide) (by decide) (by decide)
    ⟨by decide, by decide, by decide, by decide, by decide, by decide⟩
  -- the loop starts with an empty directory
  have hstart (phy : ℕ) : CloneRound k 0 ((k.retag m a).setDir 0xC0088000
      { PageDir.zero with pageDirPhy := add32 phy 0x1000 }) :=
    ⟨hh.congr rfl rfl, h.kheap, rfl, fun d hd => Function.update_of_ne hd _ _⟩
  refine ⟨fun fuel => ?_, fun fuel => ⟨hok, fun newdir phy k₁ hm => ?_⟩⟩
  · obtain ⟨phy, hm⟩ := Kernel.mallocAp_some h.kheap (hal fuel)
    obtain ⟨k', hf, hP⟩ := Lib.Loop.foldlM_range_some (P := CloneRound k) (N := 1024)
      (f := Kernel.cloneSlot (Kernel.mallocAp (Kernel.alloc (fuel + 1))) 0xC0081000 0xC0088000)
      (hstart phy) fun i hi k₂ hP => (hP.step h hi fuel).2
    refine ⟨k', ?_, hP.hole⟩
    simp only [Kernel.cloneDir, hm, Option.bind_eq_bind, Option.bind_some]
    rw [show (0xC0087054 + 0xFA0 + 12 : ℕ) = 0xC0088000 from rfl]
    simp only [hf, Option.bind_some]
  · obtain ⟨hr, -⟩ := Kernel.mallocAp_cases h.kheap hm
    cases fuel with
    | zero => simp [Kernel.alloc] at hr
    | succ fuel =>
      obtain ⟨rfl, rfl⟩ := Prod.mk.inj (Option.some.inj ((hal fuel).symm.trans hr))
      refine Kernel.slotsOk_of (P := CloneRound k) (fun i hi k₂ hP => ?_) 1024 0 _ rfl (hstart phy)
      obtain ⟨hsound, k₃, hk₃, hP'⟩ := hP.step h hi fuel
      refine ⟨hsound, fun k' hk' => ?_⟩
      obtain rfl := Option.some.inj (hk₃.symm.trans hk')
      exact hP'

lemma OwnTables.clone {s : Machine} (h : OwnTables 0xC0087054 0x78FD0 5 [895, 896] k)
    (hr : PageStep ⟨k, [0xC0081000]⟩ (.clone 0xC0081000 0xC0088000) s) :
    LastHole KHEAP_START 0xC008E008 0x72040 8 0xC0100000 s.kernel := by
  cases hr with
  | @clone _ _ _ fuel _ _ _ hc =>
    cases fuel with
    | zero =>
      simp [Kernel.cloneDir, Kernel.mallocAp, Kernel.malloc, h.kheap, Kernel.alloc] at hc
    | succ fuel =>
      obtain ⟨k', hk', hh⟩ := h.cloneDir.1 fuel
      obtain ⟨-, rfl⟩ := Prod.mk.inj (Option.some.inj (hk'.symm.trans hc))
      exact hh

/-- The run of the start: `init_paging`, three pages of the new stack, and the `pcb_t`. -/
lemma exists_begun : ∃ k,
    Begun (Multitask.initMultitask ⟨k, [0xC0081000]⟩ Tasks.zeroed 0xC0087014) ∧
    OwnTables 0xC0087054 0x78FD0 5 [895, 896] k := by
  obtain ⟨b, K, k₀, hbooted, hlow, -, hs, -⟩ := exists_started
  have h₀ : OwnTables 0xC008300C 0x7D000 2 [] k₀ := by
    refine ⟨hs.lastHole, hs.system.kheap, hs.system.vm, hs.cur, fun i hi => ?_,
      fun i hi _ => hs.clone i hi, by simp⟩
    have hpresent := hlow.present (show 5 ≤ i by omega)
    rw [hs.tableOf]
    by_contra hne
    have := hpresent.mp hne
    omega
  -- 0xE0000000, with a table for slot 896
  obtain ⟨m₁, a₁, hal₁, hh₁, hok₁⟩ := h₀.hole.alloc 4096 true 0xFE8 0x1014 0x7B010 (by decide)
    (by decide) (by decide) (by decide) (by decide) (by decide) (by decide)
    ⟨by decide, by decide, by decide, by decide, by decide, by decide⟩
  obtain ⟨k₁, hr₁, hc₁, h₁⟩ := h₀.map 0xE0000000 (by decide) rfl (.inr rfl) (by simp) (hal₁ 0) hok₁
    (by decide) hh₁
  -- 0xDFFFF000, with a table for slot 895
  obtain ⟨m₂, a₂, hal₂, hh₂, hok₂⟩ := h₁.hole.alloc 4096 true 0xFEC 0x1014 0x7901C (by decide)
    (by decide) (by decide) (by decide) (by decide) (by decide) (by decide)
    ⟨by decide, by decide, by decide, by decide, by decide, by decide⟩
  obtain ⟨k₂, hr₂, hc₂, h₂⟩ := h₁.map 0xDFFFF000 (by decide) rfl (.inl rfl) (by decide) (hal₂ 0)
    hok₂ (by decide) hh₂
  obtain ⟨k₃, hr₃, hc₃, h₃⟩ := h₂.mapOwn 0xDFFFE000 (by decide) (by decide)
  obtain ⟨m₄, a₄, hal₄, hh₄, hok₄⟩ := h₃.hole.alloc PCB_SIZE false 0 0x4C 0x78FD0 (by decide)
    (by decide) (by decide) (by decide) (by decide) (by decide) (by decide)
    ⟨by decide, by decide, by decide, by decide, by decide, by decide⟩
  have hrun : Run (fun m op m' => PageStep m op m' ∧ SoundCalls m op) ⟨k₀, [k₀.curVmPageDir]⟩
      [.map 0xE0000000 false true, .map 0xDFFFF000 false true, .map 0xDFFFE000 false true]
      ⟨k₃, [0xC0081000]⟩ := by
    rw [hs.cur]
    exact ((Run.single ⟨hr₁, hc₁⟩).snoc ⟨hr₂, hc₂⟩).snoc ⟨hr₃, hc₃⟩
  exact ⟨_, ⟨k₀, _, _, _, Tasks.zeroed, 0xC0087014, hbooted, hrun, .alloc (hal₄ 0), hok₄, rfl⟩,
    h₃.alloc hh₄⟩

/-- After it, a `fork` and a switch to the new task. -/
lemma exists_child : ∃ s₀ ops s, Begun s₀ ∧
    Run (fun s op s' => MultiStep Tasks.someCode s op s' ∧ s.StepOk op) s₀ ops s ∧
    Chain s.tasks.next s.tasks.headTask [0xC0087014, 0xC008E014] ∧
    s.tasks.headTask = 0xC0087014 ∧ s.tasks.curTask = 0xC008E014 := by
  obtain ⟨k, hbegun, h⟩ := exists_begun
  set s₀ := Multitask.initMultitask ⟨k, [0xC0081000]⟩ Tasks.zeroed 0xC0087014 with hs₀
  have hinv : s₀.tasks.Inv Tasks.someCode [0xC0087014] :=
    Tasks.inv_initMultitask _ (by decide) (by decide)
  have hcur : s₀.kernel.curVmPageDir = 0xC0081000 := h.cur
  obtain ⟨k', hclone, -⟩ := h.cloneDir.1 0
  have hdir : PageStep s₀.machine (.clone s₀.kernel.curVmPageDir 0xC0088000)
      ⟨k', [0xC0088000, 0xC0081000]⟩ := by
    rw [hcur]
    exact .clone (.inr (List.mem_cons_self ..)) hclone
  have hpcb {m : Machine} (hm : PageStep s₀.machine (.clone s₀.kernel.curVmPageDir 0xC0088000) m) :
      ∃ k₁, PageStep m (.alloc PCB_SIZE false 0xC008E014) ⟨k₁, m.clones⟩ ∧
        SoundCalls m (.alloc PCB_SIZE false 0xC008E014) := by
    rw [hcur] at hm
    obtain ⟨m₁, a₁, hal, -, hok⟩ := (h.clone hm).alloc PCB_SIZE false 0 0x4C 0x71FF4 (by decide)
      (by decide) (by decide) (by decide) (by decide) (by decide) (by decide)
      ⟨by decide, by decide, by decide, by decide, by decide, by decide⟩
    exact ⟨_, .alloc (hal 0), hok⟩
  obtain ⟨k₁, hnew, -⟩ := hpcb hdir
  obtain ⟨t₁, hfork, hforked⟩ := @Tasks.fork_spec Tasks.someCode s₀.tasks _ 0xDFFFFF00 0xDFFFFF20
    0xC0088000 0xC008E014 hinv (fun hd => by
      rw [show s₀.tasks.dirMem = [k.curVmPageDir] from rfl, h.cur] at hd
      simp at hd) (by simp [hs₀, Multitask.initMultitask, initMultitask]) (by decide) (by decide)
  have hstep₁ := MultiStep.fork (show s₀.tasks.control = .running from rfl) hdir hnew hfork
  have hok₁ : s₀.StepOk (.fork 0xDFFFFF00 0xDFFFFF20 0xC0088000 0xC008E014) := by
    refine ⟨?_, fun m hm => ?_⟩
    · rw [hcur]
      exact h.cloneDir.2
    · obtain ⟨_, -, hok⟩ := hpcb hm
      exact hok
  have hcur₁ : t₁.curTask = 0xC0087014 := hforked.cur
  obtain ⟨t₂, ht₂, hsw⟩ := @Tasks.taskSwitch_spec Tasks.someCode t₁ _ 0xDFFFFF40 0xDFFFFF60 []
    [0xC008E014] hforked.inv (by rw [hcur₁]; rfl)
  set s₁ : Multitask := ⟨⟨k₁, [0xC0088000, 0xC0081000]⟩, t₁⟩
  have hstep₂ := @MultiStep.taskSwitch Tasks.someCode s₁ 0xDFFFFF40 0xDFFFFF60 hforked.control
  rw [ht₂] at hstep₂
  have hl := (Tasks.land_spec hsw.inv hsw.control).1
  have hstep₃ := @MultiStep.land Tasks.someCode (s₁.goOn t₂) hsw.control
  refine ⟨s₀, _, _, hbegun, ((Run.single ⟨hstep₁, hok₁⟩).snoc ⟨hstep₂, trivial⟩).snoc
    ⟨hstep₃, trivial⟩, hl.inv.chain, ?_, ?_⟩
  · exact hl.head.trans (hsw.head.trans hforked.head)
  · exact hl.cur.trans hsw.cur

/-- A task that `fork` has made calls `task_exit`: it takes frames from tables of the kernel. -/
theorem endsClean_fails : ∃ s₀ ops s, Begun s₀ ∧
    Run (fun s op s' => MultiStep Tasks.someCode s op s' ∧ s.StepOk op) s₀ ops s ∧
    Chain s.tasks.next s.tasks.headTask [0xC0087014, 0xC008E014] ∧
    s.tasks.headTask = 0xC0087014 ∧ s.tasks.curTask = 0xC008E014 ∧
    ¬ s.EndsClean Tasks.someCode 0xC008E014 [0xC0087014, 0xC008E014] .taskExit ∧
    ∃ i < 1024, ∃ j < 1024, s.kernel.tableOf s.kernel.vmPageDir i ≠ 0 ∧
      s.kernel.frameAt s.kernel.vmPageDir i j ≠ 0 ∧
      ((s.kernel.freeAllPage (s.dirOf 0xC008E014)).tables
        (s.kernel.tableOf s.kernel.vmPageDir i) j).frame = 0 := by
  obtain ⟨s₀, ops, s, hbegun, hrun, hchain, hhead, hcur⟩ := exists_child
  obtain ⟨q, holes, blocks, hs⟩ := Multitask.run_joint hbegun hrun
  obtain rfl := hs.inv.chain.unique hchain
  refine ⟨s₀, ops, s, hbegun, hrun, hchain, hhead, hcur, fun hclean => ?_, ?_⟩
  · obtain ⟨s', hs', hrel⟩ := hclean.releases
    refine hs.not_releases hs' ?_
    rw [hcur]
    exact hrel
  · have h := hs.freeAllPage s.tasks (show 0xC008E014 ∈ _ by simp)
    rwa [show (s.goOn s.tasks).kernel = s.kernel by
      rw [Multitask.goOn, ← hs.same]] at h

theorem endsClean_one : ∃ s₀ ops s, Begun s₀ ∧
    Run (fun s op s' => MultiStep Tasks.someCode s op s' ∧ s.StepOk op) s₀ ops s ∧
    (s.EndsClean Tasks.someCode 0xC008E014 [0xC0087014, 0xC008E014]
        (.taskExitPid 0xDFFFFF40 0xDFFFFF60) ↔
      ∀ f, s.kernel.PrivateFrame (s.dirOf 0xC008E014) f → ¬ Used s.kernel.map f) := by
  obtain ⟨s₀, ops, s, hbegun, hrun, hchain, hhead, -⟩ := exists_child
  have h := Multitask.endsClean_iff (e := .taskExitPid 0xDFFFFF40 0xDFFFFF60) hbegun hrun hchain
    (show 0xC008E014 ∈ _ by simp) (by rw [hhead]; decide) (fun he => by cases he)
  exact ⟨s₀, ops, s, hbegun, hrun, h.trans (and_iff_right (by simp))⟩

end Run

end OsImplement.Task
