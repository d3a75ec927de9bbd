import OsImplement.Task.Returns

/-!
`task_exit` and `task_exit_pid`: what they read, and what they leave.

Both look for the task before their victim. `task_exit` does not test for the end of the queue, and
`task_exit_pid` tests after it has read `t->next->pid`. So the fields of a NULL pointer are read
whenever the victim has no task before it, that is when it is the head of the queue or not queued.

`exitReads` and `exitPidReads` list the pointers whose fields a call reads. The queues in which the
calls are made are those of any run, with memory of ended tasks handed out again.
-/

namespace OsImplement.Task

open Lib.Word Lib.Linked Lib.Step

namespace Tasks

variable (c : Code) (s : Tasks)

/-! ### The calls -/

/-- `task_exit`, as far as the tasks go: `free_all_page` and `kfree` work on pages and on the heap.
It never returns to its caller. -/
def taskExit : Option Tasks := do
  let s := { s with interrupts := false }
  if s.headTask = 0 ∨ s.curTask = 0 then some s
  else
    let t ← findPrev s.next s.curTask (2 ^ 32) s.headTask
    let tCurTask := s.next t
    let s := s.setPcb t { s.pcbs t with next := s.next tCurTask }
    some (s.jump t)

/-- The pointers whose fields `task_exit` reads: those of the search, `t_cur_task`, and the new
current task. -/
def exitReads : List ℕ :=
  if s.headTask = 0 ∨ s.curTask = 0 then []
  else prevReads s.next s.curTask (2 ^ 32) s.headTask ++
    match findPrev s.next s.curTask (2 ^ 32) s.headTask with
    | some t => [t, s.next t]
    | none => []

/-- The pointers whose fields `task_exit_pid` reads: those of the search, `t_cur_task`, and the old
and the new current task. -/
def exitPidReads (pid : ℕ) : List ℕ :=
  if s.headTask = 0 ∨ s.curTask = 0 then []
  else beforeReads s.next (fun p => (s.pcbs p).pid) pid (2 ^ 32) s.headTask ++
    match findBefore s.next (fun p => (s.pcbs p).pid) pid (2 ^ 32) s.headTask with
    | some (some t) => [t, s.next t, s.curTask]
    | _ => []

/-! ### Queues -/

/-- The queue of a reachable state, with the current task in it. A jump always leaves `0x12345`. -/
structure Queue (s : Tasks) (q : List ℕ) : Prop where
  chain : Chain s.next s.headTask q
  nodup : q.Nodup
  cur : s.curTask ∈ q
  lt : ∀ p ∈ q, p < 2 ^ 32
  eax : ∀ eip eax esp ebp, s.control = .landing eip eax esp ebp → eax = RESUMED

section Queue

variable {c} {s s' : Tasks} {q : List ℕ} {p esp ebp dir newTask pid : ℕ} {evs : List Event}

lemma Queue.ne_zero (h : s.Queue q) (hp : p ∈ q) : p ≠ 0 := Path.ne_zero h.chain hp

lemma Queue.eq_head (h : s.Queue q) : ∃ r, q = s.headTask :: r := h.chain.eq_cons h.cur

lemma Queue.length (h : s.Queue q) : q.length < 2 ^ 32 :=
  length_lt h.nodup fun p hp => ⟨Nat.pos_of_ne_zero (h.ne_zero hp), h.lt p hp⟩

/-- What a step has to show when it leaves the links alone. -/
lemma Queue.congr (h : s.Queue q) (hn : s'.next = s.next) (hh : s'.headTask = s.headTask)
    (hc : s'.curTask ∈ q)
    (he : ∀ eip eax esp ebp, s'.control = .landing eip eax esp ebp → eax = RESUMED) :
    s'.Queue q :=
  ⟨by rw [hn, hh]; exact h.chain, h.nodup, hc, h.lt, he⟩

lemma next_setPcb {pcb : Pcb} {x : ℕ} :
    (s.setPcb p pcb).next x = if x = p then pcb.next else s.next x := by
  unfold next
  rw [pcbs_setPcb]
  split <;> rfl

lemma next_setCtx {eip : ℕ} : (s.setCtx p eip esp ebp).next = s.next := by
  funext x
  unfold setCtx
  rw [next_setPcb]
  split
  · next h => rw [h]; rfl
  · rfl

lemma forkAfter_next {eip : ℕ} : (s.forkAfter eip esp ebp).1.next = s.next ∧
    (s.forkAfter eip esp ebp).1.headTask = s.headTask ∧
    (s.forkAfter eip esp ebp).1.curTask = s.curTask ∧
    (s.forkAfter eip esp ebp).1.control = .running := by
  unfold forkAfter
  simp only
  split
  · exact ⟨next_setCtx, rfl, rfl, rfl⟩
  · exact ⟨rfl, rfl, rfl, rfl⟩

lemma Queue.fork (h : s.Queue q) (hnew : newTask ∉ q) (h0 : 0 < newTask) (htop : newTask < 2 ^ 32)
    (hf : s.fork c esp ebp dir newTask = some (s', evs)) : s'.Queue (q ++ [newTask]) := by
  obtain ⟨l, z, rfl⟩ : ∃ l z, q = l ++ [z] := by
    rcases List.eq_nil_or_concat q with rfl | ⟨l, z, rfl⟩
    · exact absurd h.cur (by simp)
    · exact ⟨l, z, by simp⟩
  have hlen := h.length
  rw [List.length_append] at hlen
  have hz : z ≠ newTask := fun e => hnew (by simp [e])
  set s₁ := s.forkPcb ebp dir newTask with hs₁
  have hnext₁ (x : ℕ) : s₁.next x = if x = newTask then 0 else s.next x := next_setPcb
  have hchain₁ : Chain s₁.next s₁.headTask (l ++ [z]) := by
    refine Path.congr h.chain fun x hx => ?_
    rw [hnext₁, if_neg (show x ≠ newTask from fun e => hnew (e ▸ hx))]
  set s₂ := s₁.setPcb z { s₁.pcbs z with next := newTask } with hs₂
  have hnext₂ (x : ℕ) : s₂.next x = if x = z then newTask else s₁.next x := next_setPcb
  have hs' : s' = (s₂.forkAfter c.forkRet esp ebp).1 := by
    unfold Tasks.fork at hf
    rw [← hs₁, enqueue_eq hchain₁ (by omega)] at hf
    simp only [Option.bind_eq_bind, Option.bind_some, Option.some.injEq, Prod.mk.injEq] at hf
    exact hf.1.symm
  obtain ⟨hn, hh, hc, hr⟩ := @forkAfter_next s₂ esp ebp c.forkRet
  rw [← hs'] at hn hh hc hr
  refine ⟨?_, ?_, ?_, fun x hx => ?_, fun _ _ _ _ he => ?_⟩
  · rw [hn, hh]
    refine Chain.snoc hchain₁ (by omega) ?_ ?_ fun x hx => ?_
    · rw [hnext₂, if_pos rfl]
    · rw [hnext₂, if_neg hz.symm, hnext₁, if_pos rfl]
    · have hxz : x ≠ z := by
        rintro rfl
        exact (List.nodup_append.mp h.nodup).2.2 x hx x (by simp) rfl
      rw [hnext₂, if_neg hxz]
  · exact List.nodup_append.mpr ⟨h.nodup, by simp, fun x hx y hy e => hnew (by simp_all)⟩
  · rw [hc]
    exact List.mem_append_left _ h.cur
  · rcases List.mem_append.mp hx with hx | hx
    · exact h.lt x hx
    · exact List.mem_singleton.mp hx ▸ htop
  · rw [hr] at he
    exact absurd he (by simp)

lemma Queue.unlink {l r : List ℕ} {t : ℕ} (h : s.Queue (l ++ t :: p :: r))
    (hn : ∀ x, s'.next x = if x = t then s.next p else s.next x)
    (hh : s'.headTask = s.headTask) (hc : s'.curTask = t)
    (he : ∀ eip eax esp ebp, s'.control = .landing eip eax esp ebp → eax = RESUMED) :
    s'.Queue (l ++ t :: r) := by
  obtain ⟨-, hnd, hdisj⟩ := List.nodup_append.mp h.nodup
  obtain ⟨htp, hpr⟩ := List.nodup_cons.mp hnd
  have hsub : (l ++ t :: r).Sublist (l ++ t :: p :: r) :=
    (List.Sublist.refl l).append ((List.sublist_cons_self p r).cons_cons t)
  refine ⟨?_, h.nodup.sublist hsub, by rw [hc]; simp, fun x hx => h.lt x (hsub.subset hx), he⟩
  rw [hh]
  refine Chain.unlink h.chain ?_ (fun x hx => ?_) fun x hx => ?_
  · rw [hn, if_pos rfl]
  · rw [hn, if_neg (hdisj x hx t (by simp))]
  · rw [hn, if_neg fun e => htp (by simp [← e, hx])]

lemma taskExit_eq {l r : List ℕ} {t : ℕ} (h : s.Queue (l ++ t :: s.curTask :: r)) :
    ∃ s', s.taskExit = some s' ∧ s'.Queue (l ++ t :: r) ∧ ∀ x ∈ s.exitReads, x ≠ 0 := by
  have hcur : s.curTask ≠ 0 := h.ne_zero h.cur
  have hhead : s.headTask ≠ 0 := by
    obtain ⟨r', hr'⟩ := h.eq_head
    exact h.ne_zero (by rw [hr']; simp)
  have hlen := h.length
  rw [List.length_append] at hlen
  obtain ⟨hfind, hreads⟩ := Chain.findPrev (2 ^ 32) h.chain h.nodup (by omega)
  have hvictim : s.next t = s.curTask := Chain.next_cons h.chain
  set s₁ := ({ s with interrupts := false } : Tasks).setPcb t
    { s.pcbs t with next := s.next s.curTask } with hs₁
  have hnext (x : ℕ) : (s₁.jump t).next x = if x = t then s.next s.curTask else s.next x :=
    next_setPcb
  refine ⟨s₁.jump t, ?_, h.unlink hnext rfl rfl fun _ _ _ _ he => ?_, fun x hx => ?_⟩
  · unfold taskExit
    simp only [hhead, hcur, or_self, if_false]
    rw [show Tasks.next { s with interrupts := false } = s.next from rfl, hfind]
    simp only [Option.bind_eq_bind, Option.bind_some, hvictim]
    rfl
  · simp only [jump, Control.landing.injEq] at he
    exact he.2.1.symm
  · unfold exitReads at hx
    rw [if_neg (by simp [hhead, hcur]), hfind, List.mem_append] at hx
    rcases hx with hx | hx
    · have hmem := hreads x hx
      refine h.ne_zero ?_
      simp only [List.mem_append, List.mem_cons, List.not_mem_nil, or_false] at hmem ⊢
      tauto
    · simp only [List.mem_cons, List.not_mem_nil, or_false] at hx
      rcases hx with rfl | rfl
      · exact h.ne_zero (by simp)
      · rw [hvictim]
        exact hcur

lemma taskExitPid_eq (h : s.Queue q)
    (hp : ∃ p ∈ q, p ≠ s.headTask ∧ (s.pcbs p).pid = pid) :
    (∃ q' s' evs, s.taskExitPid c pid esp ebp = some (s', evs) ∧ s'.Queue q') ∧
      ∀ x ∈ s.exitPidReads pid, x ≠ 0 := by
  have hcur : s.curTask ≠ 0 := h.ne_zero h.cur
  obtain ⟨r, rfl⟩ := h.eq_head
  have hhead : s.headTask ≠ 0 := h.ne_zero (by simp)
  have hlen := h.length
  rw [List.length_cons] at hlen
  obtain ⟨p, hp, hne, hk⟩ := hp
  obtain ⟨l₁, t, x, l₂, hs, hkx, hfind, hreads⟩ :=
    Chain.findBefore_of_mem (fun p => (s.pcbs p).pid) pid (2 ^ 32) h.chain
      ⟨p, (List.mem_cons.mp hp).resolve_left hne, hk⟩ (by omega)
  have hvictim : s.next t = x := Chain.next_cons (hs ▸ h.chain)
  refine ⟨?_, fun y hy => ?_⟩
  · set s₁ := ({ s with interrupts := false } : Tasks).setPcb t
      { s.pcbs t with next := s.next x } with hs₁
    set s₂ := s₁.setLocals ebp { s₁.locals ebp with t := t } with hs₂
    set s₃ := s₂.setCtx s.curTask c.exitRet esp ebp with hs₃
    have hnext (y : ℕ) : (s₃.jump t).next y = if y = t then s.next x else s.next y := by
      rw [show (s₃.jump t).next y = s₃.next y from rfl, hs₃, next_setCtx]
      exact next_setPcb
    have hafter : (s₂.exitAfter c.exitRet esp ebp).1 = s₃.jump t := by
      unfold exitAfter
      rw [if_neg (Code.ne_resumed c).2.2, hs₂, locals_setLocals]
      rfl
    refine ⟨l₁ ++ t :: l₂, s₃.jump t, (s₂.exitAfter c.exitRet esp ebp).2, ?_, ?_⟩
    · unfold taskExitPid
      simp only [hhead, hcur, or_self, if_false]
      rw [show Tasks.next { s with interrupts := false } = s.next from rfl, hfind]
      simp only [Option.bind_eq_bind, Option.bind_some]
      rw [show (s.pcbs t).next = x from hvictim, ← hafter]
      exact if_neg hcur
    · refine (hs ▸ h).unlink hnext rfl rfl fun _ _ _ _ he => ?_
      simp only [jump, Control.landing.injEq] at he
      exact he.2.1.symm
  · unfold exitPidReads at hy
    rw [if_neg (by simp [hhead, hcur]), hfind, List.mem_append] at hy
    rcases hy with hy | hy
    · exact h.ne_zero (hreads y hy)
    · simp only [List.mem_cons, List.not_mem_nil, or_false, hvictim] at hy
      rcases hy with rfl | rfl | rfl
      · exact h.ne_zero (by rw [hs]; simp)
      · exact h.ne_zero (by rw [hs]; simp)
      · exact hcur

/-- When the search ends at NULL, `task_exit_pid` returns with interrupts off. -/
lemma taskExitPid_missing (hhead : s.headTask ≠ 0) (hcur : s.curTask ≠ 0)
    (hfind : findBefore s.next (fun p => (s.pcbs p).pid) pid (2 ^ 32) s.headTask = some none) :
    s.taskExitPid c pid esp ebp =
      some ({ s with interrupts := false, console := s.console ++ ["not thread with pid\n"] },
        [.exitReturn s.curTask]) := by
  unfold taskExitPid
  simp only [hhead, hcur, or_self, if_false]
  rw [show Tasks.next { s with interrupts := false } = s.next from rfl, hfind]
  rfl

lemma Queue.taskSwitch (h : s.Queue q) : (s.taskSwitch c esp ebp).1.Queue q := by
  have hcur : s.curTask ≠ 0 := h.ne_zero h.cur
  obtain ⟨l, r, hq⟩ := List.append_of_mem h.cur
  set s₁ := s.setCtx s.curTask c.switchRet esp ebp with hs₁
  set s₂ := s₁.setPcb s.curTask
    { s₁.pcbs s.curTask with time := add32 (s₁.pcbs s.curTask).time 1 } with hs₂
  have hnext : s₂.next = s.next := by
    funext x
    rw [hs₂, next_setPcb]
    split
    · next hx =>
      rw [hx]
      show s₁.next s.curTask = s.next s.curTask
      rw [hs₁, next_setCtx]
    · exact congrFun next_setCtx x
  set new := if s₂.next s.curTask = 0 then s.headTask else s₂.next s.curTask with hnew
  have hmem : new ∈ q := by
    obtain ⟨r', hr'⟩ := h.eq_head
    rw [hnew, hnext]
    split
    · simp [hr']
    · next hne =>
      cases r with
      | nil =>
        have hlast : s.next s.curTask = 0 := Chain.next_last (hq ▸ h.chain)
        exact absurd hlast hne
      | cons a r =>
        have ha : s.next s.curTask = a := Chain.next_cons (hq ▸ h.chain)
        rw [ha, hq]
        simp
  have hswitch : (s.taskSwitch c esp ebp).1 = s₂.jump new := by
    unfold Tasks.taskSwitch switchAfter
    rw [if_neg hcur, if_neg (Code.ne_resumed c).2.1]
    rfl
  rw [hswitch]
  refine h.congr hnext rfl hmem fun _ _ _ _ he => ?_
  simp only [jump, Control.landing.injEq] at he
  exact he.2.1.symm

lemma Queue.land (h : s.Queue q) : (s.land c).1.Queue q := by
  unfold Tasks.land
  split
  · next eip eax esp ebp hc =>
    obtain rfl := h.eax _ _ _ _ hc
    split
    · obtain ⟨hn, hh, hcur, hr⟩ := @forkAfter_next s esp ebp RESUMED
      refine h.congr hn hh (by rw [hcur]; exact h.cur) fun _ _ _ _ he => ?_
      rw [hr] at he
      exact absurd he (by simp)
    · have hrun (s' : Tasks) (hs : s' = { s with control := .running }) : s'.Queue q := by
        subst hs
        exact h.congr rfl rfl h.cur fun _ _ _ _ he => absurd he (by simp)
      split
      · exact hrun _ (by simp [switchAfter])
      · split
        · exact hrun _ (by simp [exitAfter])
        · exact h.congr rfl rfl h.cur fun _ _ _ _ he => absurd he (by simp)
  · exact h

end Queue

end Tasks

/-! ### Runs -/

inductive Call where
  | fork (esp ebp dir newTask : ℕ)
  | taskSwitch (esp ebp : ℕ)
  | taskExit
  | taskExitPid (pid esp ebp : ℕ)
  | land

/-- One step. `_malloc_s` returns memory that no queued task lies in. A task that ends is queued and
is not the head. -/
inductive CallStep (c : Code) : Tasks → Call → Tasks → Prop
  | fork {s s' : Tasks} {esp ebp dir newTask : ℕ} {evs : List Event}
      (hrun : s.control = .running) (hnew : ∀ q, Chain s.next s.headTask q → newTask ∉ q)
      (h0 : 0 < newTask) (htop : newTask < 2 ^ 32)
      (h : s.fork c esp ebp dir newTask = some (s', evs)) :
      CallStep c s (.fork esp ebp dir newTask) s'
  | taskSwitch {s : Tasks} {esp ebp : ℕ} (hrun : s.control = .running) :
      CallStep c s (.taskSwitch esp ebp) (s.taskSwitch c esp ebp).1
  | taskExit {s s' : Tasks} (hrun : s.control = .running) (hcur : s.curTask ≠ s.headTask)
      (h : s.taskExit = some s') : CallStep c s .taskExit s'
  | taskExitPid {s s' : Tasks} {q : List ℕ} {pid esp ebp : ℕ} {evs : List Event}
      (hrun : s.control = .running) (hq : Chain s.next s.headTask q)
      (hpid : ∃ p ∈ q, p ≠ s.headTask ∧ (s.pcbs p).pid = pid)
      (h : s.taskExitPid c pid esp ebp = some (s', evs)) :
      CallStep c s (.taskExitPid pid esp ebp) s'
  | land {s : Tasks} (hland : s.control ≠ .running) : CallStep c s .land (s.land c).1

namespace Tasks

section Runs

variable {c : Code} {s s' s₀ : Tasks} {q : List ℕ} {p₀ : ℕ} {o : Call} {ls : List Call}

lemma CallStep.queue (h : s.Queue q) (hs : CallStep c s o s') : ∃ q', s'.Queue q' := by
  cases hs with
  | fork hrun hnew h0 htop hf => exact ⟨_, h.fork (hnew q h.chain) h0 htop hf⟩
  | taskSwitch hrun => exact ⟨q, h.taskSwitch⟩
  | taskExit hrun hcur hexit =>
    obtain ⟨r, rfl⟩ := h.eq_head
    obtain ⟨l, t, r', hq⟩ := exists_before h.cur hcur
    obtain ⟨s'', hs'', hqueue, -⟩ := taskExit_eq (hq ▸ h)
    obtain rfl : s'' = s' := Option.some.inj (hs''.symm.trans hexit)
    exact ⟨_, hqueue⟩
  | @taskExitPid _ q₁ pid esp ebp evs hrun hq hpid hexit =>
    obtain rfl := h.chain.unique hq
    obtain ⟨⟨q', s'', evs', hs'', hqueue⟩, -⟩ := @taskExitPid_eq c s q esp ebp pid h hpid
    rw [hexit, Option.some.injEq, Prod.mk.injEq] at hs''
    exact ⟨q', hs''.1 ▸ hqueue⟩
  | land hland => exact ⟨q, h.land⟩

theorem queue_run (h0 : 0 < p₀) (htop : p₀ < 2 ^ 32)
    (hr : Run (CallStep c) (initMultitask s₀ p₀) ls s) : ∃ q, s.Queue q := by
  have hinit : (initMultitask s₀ p₀).Queue [p₀] := by
    have h := inv_initMultitask s₀ h0 htop (c := c)
    refine ⟨h.chain, h.nodup, h.cur, fun p hp => ?_, fun _ _ _ _ he => absurd he (by simp [initMultitask])⟩
    rwa [List.mem_singleton.mp hp]
  refine hr.inv (I := fun _ s => ∃ q, s.Queue q) ⟨_, hinit⟩ fun _ s _ s' hs hstep => ?_
  obtain ⟨q, hs⟩ := hs
  exact CallStep.queue hs hstep

/-! ### What a call reads -/

lemma Queue.zero_mem_exitReads (h : s.Queue q) (hcur : s.curTask = s.headTask) :
    0 ∈ s.exitReads := by
  obtain ⟨r, rfl⟩ := h.eq_head
  have hhead : s.headTask ≠ 0 := h.ne_zero (by simp)
  have hout : s.curTask ∉ r := by
    rw [hcur]
    exact (List.nodup_cons.mp h.nodup).1
  have hzero := Chain.zero_mem_prevReads h.chain hout (hcur ▸ hhead) h.length
  unfold exitReads
  rw [if_neg (by rw [hcur]; simp [hhead])]
  exact List.mem_append_left _ hzero

lemma Queue.zero_mem_exitPidReads {pid : ℕ} (h : s.Queue q)
    (hp : ¬ ∃ p ∈ q, p ≠ s.headTask ∧ (s.pcbs p).pid = pid) : 0 ∈ s.exitPidReads pid := by
  have hcur : s.curTask ≠ 0 := h.ne_zero h.cur
  have hlen := h.length
  obtain ⟨r, rfl⟩ := h.eq_head
  have hhead : s.headTask ≠ 0 := h.ne_zero (by simp)
  rw [List.length_cons] at hlen
  have hout : ∀ x ∈ r, (s.pcbs x).pid ≠ pid := by
    intro x hx he
    exact hp ⟨x, by simp [hx], fun e => (List.nodup_cons.mp h.nodup).1 (e ▸ hx), he⟩
  have hzero := Chain.zero_mem_beforeReads (fun p => (s.pcbs p).pid) pid (2 ^ 32) h.chain hout
    (by omega)
  unfold exitPidReads
  rw [if_neg (by simp [hhead, hcur])]
  exact List.mem_append_left _ hzero

/-- What a call of `task_exit_pid` has to do: read through no NULL pointer, and return with
everything as it was when no queued task has the pid. -/
structure ExitPidSound (c : Code) (s : Tasks) (q : List ℕ) (pid esp ebp : ℕ) : Prop where
  reads : 0 ∉ s.exitPidReads pid
  missing : (∀ p ∈ q, (s.pcbs p).pid ≠ pid) → ∃ s' evs,
    s.taskExitPid c pid esp ebp = some (s', evs) ∧ s'.pcbs = s.pcbs ∧ s'.headTask = s.headTask ∧
      s'.curTask = s.curTask ∧ s'.interrupts = s.interrupts

/-- **Termination of tasks.** In every reachable state, `task_exit` reads through no NULL pointer
exactly when the current task is not the head of the queue, and `task_exit_pid` does what it has to
do exactly when a queued task other than the head has the pid. -/
theorem exit_sound_iff (h0 : 0 < p₀) (htop : p₀ < 2 ^ 32)
    (hr : Run (CallStep c) (initMultitask s₀ p₀) ls s) (hq : Chain s.next s.headTask q) :
    (0 ∉ s.exitReads ↔ s.curTask ≠ s.headTask) ∧
    ∀ pid esp ebp, ExitPidSound c s q pid esp ebp ↔
      ∃ p ∈ q, p ≠ s.headTask ∧ (s.pcbs p).pid = pid := by
  obtain ⟨q', h⟩ := queue_run h0 htop hr
  obtain rfl := h.chain.unique hq
  refine ⟨⟨fun hsafe hcur => hsafe (h.zero_mem_exitReads hcur), fun hcur hzero => ?_⟩,
    fun pid esp ebp => ⟨fun hs => ?_, fun hp => ⟨fun hzero => ?_, fun hmissing => ?_⟩⟩⟩
  · obtain ⟨r, rfl⟩ := h.eq_head
    obtain ⟨l, t, r', hq'⟩ := exists_before h.cur hcur
    obtain ⟨-, -, -, hreads⟩ := taskExit_eq (hq' ▸ h)
    exact hreads 0 hzero rfl
  · by_contra hp
    exact hs.reads (h.zero_mem_exitPidReads hp)
  · exact (@taskExitPid_eq c s q' esp ebp pid h hp).2 0 hzero rfl
  · obtain ⟨p, hp, -, he⟩ := hp
    exact absurd he (hmissing p hp)

theorem exit_sound_child : ∃ s : Tasks,
    Run (CallStep someCode) (initMultitask zeroed 0xC0090000)
      [.fork 0xDFFFFF00 0xDFFFFF20 0xC0092000 0xC0095000] s ∧
    0 ∈ s.exitReads ∧
    ExitPidSound someCode s [0xC0090000, 0xC0095000] 2 0xDFFFFF40 0xDFFFFF60 := by
  obtain ⟨s, hr, hf⟩ := run_fork
  obtain ⟨t, hstep, ht⟩ := Run.cons_iff.mp hr
  obtain rfl := Run.nil_iff.mp ht
  have hhead : s.headTask = 0xC0090000 := hf.head
  have hcur : s.curTask = 0xC0090000 := hf.cur
  have hrun : Run (CallStep someCode) (initMultitask zeroed 0xC0090000)
      [.fork 0xDFFFFF00 0xDFFFFF20 0xC0092000 0xC0095000] s := by
    cases hstep with
    | fork hrun hdir hnew h0 htop h =>
      refine Run.single (.fork hrun (fun q hq => ?_) h0 htop h)
      have hinit := inv_initMultitask zeroed (c := someCode) (p := 0xC0090000) (by decide) (by decide)
      obtain rfl := hinit.chain.unique hq
      decide
  obtain ⟨hexit, hpid⟩ := exit_sound_iff (by decide) (by decide) hrun hf.inv.chain
  refine ⟨s, hrun, ?_, (hpid 2 _ _).mpr ⟨0xC0095000, by simp, by rw [hhead]; decide, hf.pid⟩⟩
  by_contra hsafe
  exact hexit.mp hsafe (hcur.trans hhead.symm)

/-- A single task: `task_exit` reads through NULL, and so does `task_exit_pid` with a pid that is
not queued, which then returns with interrupts off. -/
theorem exit_sound_fails :
    ¬ (∀ (c : Code) (s₀ s : Tasks) (p₀ : ℕ) (ls : List Call) (q : List ℕ), 0 < p₀ → p₀ < 2 ^ 32 →
      Run (CallStep c) (initMultitask s₀ p₀) ls s → Chain s.next s.headTask q →
        0 ∉ s.exitReads ∧ ∀ pid esp ebp, ExitPidSound c s q pid esp ebp) ∧
    0 ∈ (initMultitask zeroed 0xC0090000).exitReads ∧
    0 ∈ (initMultitask zeroed 0xC0090000).exitPidReads 5 ∧
    (initMultitask zeroed 0xC0090000).interrupts = true ∧
    ∃ s', (initMultitask zeroed 0xC0090000).taskExitPid someCode 5 0xDFFFFF40 0xDFFFFF60 =
      some (s', [.exitReturn 0xC0090000]) ∧ s'.interrupts = false := by
  have hr : Run (CallStep someCode) (initMultitask zeroed 0xC0090000) []
    (initMultitask zeroed 0xC0090000) := .nil
  obtain ⟨q, h⟩ := queue_run (by decide) (by decide) hr
  have hreads := h.zero_mem_exitReads rfl
  have hinit := inv_initMultitask zeroed (c := someCode) (p := 0xC0090000) (by decide) (by decide)
  obtain rfl := hinit.chain.unique h.chain
  refine ⟨fun hall => ?_, hreads, h.zero_mem_exitPidReads ?_, rfl, ?_⟩
  · exact (hall someCode zeroed _ 0xC0090000 [] _ (by decide) (by decide) hr h.chain).1 hreads
  · rintro ⟨p, hp, hne, -⟩
    exact hne (List.mem_singleton.mp hp)
  · have hfind : findBefore (initMultitask zeroed 0xC0090000).next
        (fun p => ((initMultitask zeroed 0xC0090000).pcbs p).pid) 5 (2 ^ 32) 0xC0090000 =
          some none := by
      have hnext : (initMultitask zeroed 0xC0090000).next 0xC0090000 = 0 := rfl
      rw [show 2 ^ 32 = 4294967295 + 1 from rfl, findBefore, hnext, if_pos (by decide), if_pos rfl]
    exact ⟨_, taskExitPid_missing (by decide) (by decide) hfind, rfl⟩

end Runs

end Tasks

end OsImplement.Task
