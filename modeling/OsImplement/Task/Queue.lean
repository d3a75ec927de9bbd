import OsImplement.Task.Model
import Mathlib.Data.Finset.Card
import Mathlib.Data.Finset.Sort
import Mathlib.Order.Interval.Finset.Nat

/-!
The queue of tasks, in every reachable state.

`Inv` says that the links from `head_task` on are a list of distinct tasks with `cur_task` among
them, that pids count the tasks made, and that every task that waits can be resumed: the address
in its `pcb_t` is a return point, and a task that waits in `fork` has a copy of a `parent_task`
other than itself. Each operation is described once, by what it does to the queue.
-/

namespace OsImplement.Task

open Lib.Word Lib.Linked Lib.Step

namespace Tasks

section Simp

variable {s : Tasks} {p q ebp d : ℕ} {pcb : Pcb} {l : Locals}

@[simp] lemma pcbs_setPcb : (s.setPcb p pcb).pcbs q = if q = p then pcb else s.pcbs q := by
  unfold setPcb
  by_cases h : q = p
  · subst h
    simp
  · simp [h]

@[simp] lemma pcbs_setCtx {eip esp ebp : ℕ} : (s.setCtx p eip esp ebp).pcbs q =
    if q = p then { s.pcbs p with eip := eip, esp := esp, ebp := ebp } else s.pcbs q :=
  pcbs_setPcb

@[simp] lemma pcbs_leave : s.leave.pcbs = s.pcbs := rfl

@[simp] lemma pcbs_jump : (s.jump p).pcbs = s.pcbs := rfl

@[simp] lemma pcbs_setLocals : (s.setLocals ebp l).pcbs = s.pcbs := rfl

@[simp] lemma locals_setLocals : (s.setLocals ebp l).locals ebp = l := by
  simp [setLocals, locals]

lemma stack_setLocals (hd : d ≠ s.curVmPageDir) : (s.setLocals ebp l).stack d = s.stack d :=
  Function.update_of_ne hd _ _

end Simp

/-! ### The invariant -/

variable (c : Code)

/-- Task `p` can be resumed. -/
def Suspended (s : Tasks) (p : ℕ) : Prop :=
  (s.pcbs p).eip = c.forkRet ∧ (s.stack (s.pcbs p).pageDir (s.pcbs p).ebp).parentTask ≠ p ∨
    (s.pcbs p).eip = c.switchRet ∨ (s.pcbs p).eip = c.exitRet

/-- The invariant, for the queue `q`. -/
structure Inv (s : Tasks) (q : List ℕ) : Prop where
  chain : Chain s.next s.headTask q
  nodup : q.Nodup
  cur : s.curTask ∈ q
  mem : ∀ p ∈ q, p ∈ s.pcbMem
  memNodup : s.pcbMem.Nodup
  memRange : ∀ p ∈ s.pcbMem, 0 < p ∧ p < 2 ^ 32
  pids : s.pcbMem.map (fun p => (s.pcbs p).pid) = List.range' 1 s.pcbMem.length
  nextPid : s.nextPid = add32 s.pcbMem.length 1
  dirMem : ∀ p ∈ q, (s.pcbs p).pageDir ∈ s.dirMem
  dirInj : ∀ p ∈ q, ∀ p' ∈ q, (s.pcbs p).pageDir = (s.pcbs p').pageDir → p = p'
  curDir : s.curVmPageDir = (s.pcbs s.curTask).pageDir
  control : s.control = .running ∨ s.control = .landing (s.pcbs s.curTask).eip RESUMED
    (s.pcbs s.curTask).esp (s.pcbs s.curTask).ebp
  suspended : ∀ p ∈ q, p ≠ s.curTask ∨ s.control ≠ .running → s.Suspended c p

section Facts

variable {c} {s : Tasks} {q : List ℕ} {p p' : ℕ}

lemma length_lt {l : List ℕ} (hn : l.Nodup) (hr : ∀ p ∈ l, 0 < p ∧ p < 2 ^ 32) :
    l.length < 2 ^ 32 := by
  have hsub : l.toFinset ⊆ Finset.Ico 1 (2 ^ 32) := by
    intro p hp
    have := hr p (List.mem_toFinset.mp hp)
    exact Finset.mem_Ico.mpr ⟨this.1, this.2⟩
  have := Finset.card_le_card hsub
  rw [List.toFinset_card_of_nodup hn, Nat.card_Ico] at this
  omega

lemma Inv.mem_length (h : s.Inv c q) : s.pcbMem.length < 2 ^ 32 := length_lt h.memNodup h.memRange

lemma Inv.length (h : s.Inv c q) : q.length < 2 ^ 32 := by
  have := (h.nodup.subperm h.mem).length_le
  have := h.mem_length
  omega

/-- **Pids are never given twice.** -/
lemma Inv.pid_inj (h : s.Inv c q) (hp : p ∈ s.pcbMem) (hp' : p' ∈ s.pcbMem)
    (he : (s.pcbs p).pid = (s.pcbs p').pid) : p = p' := by
  have hn : (s.pcbMem.map fun p => (s.pcbs p).pid).Nodup := by
    rw [h.pids]
    exact List.nodup_range'
  exact List.inj_on_of_nodup_map hn hp hp' he

lemma Inv.ne_zero (h : s.Inv c q) (hp : p ∈ q) : p ≠ 0 := Path.ne_zero h.chain hp

lemma Inv.eq_head (h : s.Inv c q) : ∃ r, q = s.headTask :: r := h.chain.eq_cons h.cur

lemma Inv.head (h : s.Inv c q) : s.headTask ∈ q := by
  obtain ⟨r, rfl⟩ := h.eq_head
  simp

lemma Inv.suspended_of_ne (h : s.Inv c q) (hp : p ∈ q) (hne : p ≠ s.curTask) : s.Suspended c p :=
  h.suspended p hp (Or.inl hne)

end Facts

/-! ### `fork` -/

section Fork

variable {c : Code} {s : Tasks} {q : List ℕ} {esp ebp dir newTask : ℕ}

lemma forkPcb_spec (s : Tasks) (ebp newTask : ℕ) (hdir : s.curVmPageDir ≠ dir) :
    ((s.forkPcb ebp dir newTask).pcbs = fun p =>
      if p = newTask then
        { pid := s.nextPid, esp := 0, ebp := 0, eip := 0, state := .runnable, pageDir := dir,
          next := 0, time := 0 }
      else s.pcbs p) ∧
      ((s.forkPcb ebp dir newTask).stack dir ebp).parentTask = s.curTask ∧
      ((s.forkPcb ebp dir newTask).locals ebp).parentTask = s.curTask ∧
      ((s.forkPcb ebp dir newTask).locals ebp).newTask = newTask ∧
      ∀ d, d ≠ dir → d ≠ s.curVmPageDir → (s.forkPcb ebp dir newTask).stack d = s.stack d := by
  refine ⟨?_, ?_, ?_, ?_, fun d h1 h2 => ?_⟩
  · funext p
    exact pcbs_setPcb
  · simp [forkPcb, setPcb, setLocals, locals, cloneDir, hdir.symm]
  · simp [forkPcb, setPcb, setLocals, locals, cloneDir, hdir]
  · simp [forkPcb, setPcb, setLocals, locals, cloneDir]
  · simp [forkPcb, setPcb, setLocals, locals, cloneDir, h1, h2]

lemma enqueue_eq {l : List ℕ} {z : ℕ} (h : Chain s.next s.headTask (l ++ [z]))
    (hl : l.length < 2 ^ 32) :
    s.enqueue newTask = some (s.setPcb z { s.pcbs z with next := newTask }) := by
  unfold enqueue
  rw [h.last hl]
  rfl

lemma forkAfter_parent (eip esp : ℕ) (h : s.curTask = (s.locals ebp).parentTask)
    (hn : (s.locals ebp).newTask = newTask) :
    s.forkAfter eip esp ebp =
      ((s.setCtx newTask eip esp ebp).leave,
        [.record newTask ⟨eip, esp, ebp, (s.pcbs newTask).pageDir⟩,
          .forkReturn s.curTask (s.pcbs newTask).pid]) := by
  subst hn
  unfold forkAfter
  rw [if_pos h]
  simp only [Tasks.ctx, pcbs_setCtx, if_true]
  rfl

lemma forkAfter_child {eip : ℕ} (h : s.curTask ≠ (s.locals ebp).parentTask) :
    s.forkAfter eip esp ebp = (s.leave, [.forkReturn s.curTask 0]) :=
  if_neg h

/-- What `fork` does: a task is put behind the last one, with a context in `fork`; the others keep
their contexts and pids. -/
structure Forked (c : Code) (s : Tasks) (q : List ℕ) (esp ebp dir newTask : ℕ) (s' : Tasks) :
    Prop where
  inv : s'.Inv c (q ++ [newTask])
  control : s'.control = .running
  cur : s'.curTask = s.curTask
  head : s'.headTask = s.headTask
  mem : s'.pcbMem = s.pcbMem ++ [newTask]
  ctx : s'.ctx newTask = ⟨c.forkRet, esp, ebp, dir⟩
  pid : (s'.pcbs newTask).pid = s.pcbMem.length + 1
  old : ∀ p ∈ s.pcbMem, s'.ctx p = s.ctx p ∧ (s'.pcbs p).pid = (s.pcbs p).pid

/-- The state that `fork` leaves, when `z` was the last task. -/
structure ForkState (c : Code) (s : Tasks) (z esp ebp dir newTask : ℕ) (s' : Tasks) : Prop where
  new : s'.pcbs newTask =
    { pid := s.nextPid, esp := esp, ebp := ebp, eip := c.forkRet, state := .runnable,
      pageDir := dir, next := 0, time := 0 }
  last : s'.pcbs z = { s.pcbs z with next := newTask }
  others : ∀ p, p ≠ newTask → p ≠ z → s'.pcbs p = s.pcbs p
  frame : (s'.stack dir ebp).parentTask = s.curTask
  stack : ∀ d, d ≠ dir → d ≠ s.curVmPageDir → s'.stack d = s.stack d
  curTask : s'.curTask = s.curTask
  headTask : s'.headTask = s.headTask
  nextPid : s'.nextPid = add32 s.nextPid 1
  curVmPageDir : s'.curVmPageDir = s.curVmPageDir
  control : s'.control = .running
  pcbMem : s'.pcbMem = s.pcbMem ++ [newTask]
  dirMem : s'.dirMem = s.dirMem ++ [dir]

lemma fork_eq {l : List ℕ} {z : ℕ} (hc : Chain s.next s.headTask (l ++ [z]))
    (hl : l.length < 2 ^ 32) (hn : newTask ∉ l ++ [z]) (hcd : s.curVmPageDir ≠ dir) :
    ∃ s', s.fork c esp ebp dir newTask = some (s',
        [.forked s.curTask newTask s.nextPid, .record newTask ⟨c.forkRet, esp, ebp, dir⟩,
          .forkReturn s.curTask s.nextPid]) ∧ ForkState c s z esp ebp dir newTask s' := by
  have hz : z ≠ newTask := fun e => hn (by simp [e])
  obtain ⟨hpcbs, hstack, hparent, hnewTask, hother⟩ :=
    forkPcb_spec s ebp newTask hcd
  set s₁ := s.forkPcb ebp dir newTask with hs₁
  have hchain : Chain s₁.next s.headTask (l ++ [z]) := by
    refine Path.congr hc fun p hp => ?_
    have hpn : p ≠ newTask := fun e => hn (e ▸ hp)
    simp [next, hpcbs, hpn]
  have hlink : s₁.enqueue newTask = some (s₁.setPcb z { s₁.pcbs z with next := newTask }) :=
    enqueue_eq hchain hl
  set s₂ := s₁.setPcb z { s₁.pcbs z with next := newTask } with hs₂
  have hn₂ : s₂.pcbs newTask = s₁.pcbs newTask := by
    rw [hs₂, pcbs_setPcb, if_neg hz.symm]
  have hafter := @forkAfter_parent s₂ ebp newTask c.forkRet esp hparent.symm hnewTask
  have hnew₁ : (s₁.pcbs newTask).pid = s.nextPid ∧ (s₁.pcbs newTask).pageDir = dir := by
    simp [hpcbs]
  rw [hn₂, hnew₁.1, hnew₁.2] at hafter
  refine ⟨(s₂.setCtx newTask c.forkRet esp ebp).leave, ?_, ?_⟩
  · unfold fork
    rw [← hs₁, hlink]
    simp only [Option.bind_eq_bind, Option.bind_some, hafter]
    rfl
  · refine ⟨?_, ?_, fun p h1 h2 => ?_, hstack, hother, rfl, rfl, rfl, rfl, rfl, rfl, rfl⟩
    · rw [pcbs_leave, pcbs_setCtx, if_pos rfl, hn₂]
      simp [hpcbs]
    · rw [pcbs_leave, pcbs_setCtx, if_neg hz, hs₂, pcbs_setPcb, if_pos rfl]
      simp [hpcbs, hz]
    · rw [pcbs_leave, pcbs_setCtx, if_neg h1, hs₂, pcbs_setPcb, if_neg h2]
      simp [hpcbs, h1]

theorem fork_spec (h : s.Inv c q) (hdir : dir ∉ s.dirMem) (hnew : newTask ∉ s.pcbMem)
    (h0 : 0 < newTask) (htop : newTask < 2 ^ 32) :
    ∃ s', s.fork c esp ebp dir newTask = some (s',
        [.forked s.curTask newTask (s.pcbMem.length + 1),
          .record newTask ⟨c.forkRet, esp, ebp, dir⟩,
          .forkReturn s.curTask (s.pcbMem.length + 1)]) ∧
      Forked c s q esp ebp dir newTask s' := by
  obtain ⟨l, z, hq⟩ : ∃ l z, q = l ++ [z] := by
    rcases List.eq_nil_or_concat q with rfl | ⟨l, z, rfl⟩
    · exact absurd h.cur (by simp)
    · exact ⟨l, z, by simp⟩
  have hqn : newTask ∉ q := fun hp => hnew (h.mem _ hp)
  have hcd : s.curVmPageDir ≠ dir := by
    intro e
    rw [h.curDir] at e
    exact hdir (e ▸ h.dirMem _ h.cur)
  have hlen := h.length
  obtain ⟨s', hfork, hs⟩ := @fork_eq c s esp ebp dir newTask l z (hq ▸ h.chain)
    (by rw [hq, List.length_append] at hlen; omega) (hq ▸ hqn) hcd
  -- the pid does not wrap: there are fewer tasks than addresses
  have hmem' : (s.pcbMem ++ [newTask]).Nodup :=
    List.nodup_append.mpr ⟨h.memNodup, by simp, fun p hp p' hp' e => hnew (by simp_all)⟩
  have hrange' : ∀ p ∈ s.pcbMem ++ [newTask], 0 < p ∧ p < 2 ^ 32 := by
    intro p hp
    rcases List.mem_append.mp hp with hp | hp
    · exact h.memRange p hp
    · obtain rfl : p = newTask := by simpa using hp
      exact ⟨h0, htop⟩
  have hlen' := length_lt hmem' hrange'
  rw [List.length_append, List.length_singleton] at hlen'
  have hpid : s.nextPid = s.pcbMem.length + 1 := by
    rw [h.nextPid]
    exact add32_eq hlen'
  rw [hpid] at hfork
  have hold {p : ℕ} (hp : p ∈ s.pcbMem) :
      s'.ctx p = s.ctx p ∧ (s'.pcbs p).pid = (s.pcbs p).pid := by
    have hpn : p ≠ newTask := fun e => hnew (e ▸ hp)
    unfold Tasks.ctx
    by_cases hpz : p = z
    · rw [hpz, hs.last]
      exact ⟨rfl, rfl⟩
    · rw [hs.others p hpn hpz]
      exact ⟨rfl, rfl⟩
  have hctx {p : ℕ} (hp : p ∈ q) : s'.ctx p = s.ctx p := (hold (h.mem p hp)).1
  have hdirq {p : ℕ} (hp : p ∈ q) : (s'.pcbs p).pageDir = (s.pcbs p).pageDir :=
    congrArg Ctx.pageDir (hctx hp)
  have hdirn : (s'.pcbs newTask).pageDir = dir := by rw [hs.new]
  have hsplit {p : ℕ} (hp : p ∈ q ++ [newTask]) : p ∈ q ∨ p = newTask := by simpa using hp
  refine ⟨s', hfork, ⟨⟨?_, ?_, ?_, ?_, ?_, ?_, ?_, ?_, ?_, ?_, ?_, ?_, ?_⟩, hs.control, hs.curTask,
    hs.headTask, hs.pcbMem, ?_, ?_, fun p => hold⟩⟩
  · -- chain
    rw [hs.headTask, hq]
    refine Chain.snoc (hq ▸ h.chain) (by omega) ?_ ?_ fun p hp => ?_
    · rw [next, hs.last]
    · rw [next, hs.new]
    · have hpz : p ≠ z := by
        rintro rfl
        have := hq ▸ h.nodup
        rw [List.nodup_append] at this
        exact this.2.2 p hp p (by simp) rfl
      rw [next, hs.others p (fun e => hqn (by simp [hq, ← e, hp])) hpz, next]
  · -- nodup
    exact List.nodup_append.mpr ⟨h.nodup, by simp, fun p hp p' hp' e => hqn (by simp_all)⟩
  · -- cur
    rw [hs.curTask]
    exact List.mem_append_left _ h.cur
  · -- mem
    intro p hp
    rw [hs.pcbMem]
    rcases hsplit hp with hp | rfl
    · exact List.mem_append_left _ (h.mem p hp)
    · simp
  · -- memNodup
    rw [hs.pcbMem]
    exact hmem'
  · -- memRange
    rw [hs.pcbMem]
    exact hrange'
  · -- pids
    have hsame : s.pcbMem.map (fun p => (s'.pcbs p).pid) = s.pcbMem.map fun p => (s.pcbs p).pid :=
      List.map_congr_left fun p hp => (hold hp).2
    rw [hs.pcbMem, List.map_append, hsame, h.pids, List.map_singleton, hs.new, List.length_append,
      List.length_singleton, hpid, List.range'_1_concat, Nat.add_comm 1]
  · -- nextPid
    rw [hs.nextPid, hs.pcbMem, List.length_append, hpid]
    rfl
  · -- dirMem
    intro p hp
    rw [hs.dirMem]
    rcases hsplit hp with hp | rfl
    · rw [hdirq hp]
      exact List.mem_append_left _ (h.dirMem p hp)
    · rw [hdirn]
      simp
  · -- dirInj
    intro p hp p' hp' he
    rcases hsplit hp with h1 | h1 <;> rcases hsplit hp' with h2 | h2
    · rw [hdirq h1, hdirq h2] at he
      exact h.dirInj p h1 p' h2 he
    · rw [hdirq h1, h2, hdirn] at he
      exact absurd (he ▸ h.dirMem p h1) hdir
    · rw [h1, hdirn, hdirq h2] at he
      exact absurd (he ▸ h.dirMem p' h2) hdir
    · rw [h1, h2]
  · -- curDir
    rw [hs.curVmPageDir, hs.curTask, hdirq h.cur]
    exact h.curDir
  · exact Or.inl hs.control
  · -- suspended
    intro p hp hsusp
    have hne : p ≠ s.curTask := by
      rcases hsusp with hne | hne
      · rwa [hs.curTask] at hne
      · exact absurd hs.control hne
    unfold Suspended
    rcases hsplit hp with hp | rfl
    · have hold' := h.suspended_of_ne hp hne
      have hc := hctx hp
      have h1 : (s'.pcbs p).eip = (s.pcbs p).eip := congrArg Ctx.eip hc
      have h2 : (s'.pcbs p).ebp = (s.pcbs p).ebp := congrArg Ctx.ebp hc
      have h3 : s'.stack (s.pcbs p).pageDir = s.stack (s.pcbs p).pageDir := by
        refine hs.stack _ (fun e => hdir (e ▸ h.dirMem p hp)) fun e => hne ?_
        rw [h.curDir] at e
        exact h.dirInj p hp _ h.cur e
      rw [h1, h2, hdirq hp, h3]
      exact hold'
    · left
      rw [hs.new]
      exact ⟨rfl, by rw [hs.frame]; exact fun e => hqn (e ▸ h.cur)⟩
  · rw [Tasks.ctx, hs.new]
  · rw [hs.new, hpid]

end Fork

end Tasks

end OsImplement.Task
