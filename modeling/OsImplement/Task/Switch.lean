import OsImplement.Task.Queue

/-!
The routines that change the current task, and the code behind their jumps.

`task_switch` and `task_exit_pid` write the context of the current task into its `pcb_t`, and jump
to the context of another. The code behind the jump returns at once: `read_eip` has returned
`0x12345` there, or, in a new task, `cur_task` is not the copied `parent_task`.
-/

namespace OsImplement.Task

open Lib.Word Lib.Linked Lib.Step

namespace Tasks

section Jump

variable {c : Code} {s : Tasks} {q q' : List ℕ} {p new esp ebp : ℕ}

lemma Code.ne_resumed (c : Code) : c.forkRet ≠ RESUMED ∧ c.switchRet ≠ RESUMED ∧ c.exitRet ≠ RESUMED := by
  have h1 := c.fork_text
  have h2 := c.switch_text
  have h3 := c.exit_text
  unfold RESUMED
  omega

/-- The current task is saved at a return point, and a task of what remains of the queue is
resumed. -/
lemma Inv.jump (h : s.Inv c q) (s₁ : Tasks) (hchain : Chain s₁.next s.headTask q') (hnodup : q'.Nodup)
    (hsub : q' ⊆ q) (hnew : new ∈ q') (hpid : ∀ p, (s₁.pcbs p).pid = (s.pcbs p).pid)
    (hdir : ∀ p, (s₁.pcbs p).pageDir = (s.pcbs p).pageDir)
    (hctx : ∀ p ≠ s.curTask, s₁.ctx p = s.ctx p)
    (hcur : (s₁.pcbs s.curTask).eip = c.switchRet ∨ (s₁.pcbs s.curTask).eip = c.exitRet)
    (hstack : ∀ d ≠ s.curVmPageDir, s₁.stack d = s.stack d) (hhead : s₁.headTask = s.headTask)
    (hnext : s₁.nextPid = s.nextPid) (hmem : s₁.pcbMem = s.pcbMem) (hdirs : s₁.dirMem = s.dirMem) :
    (s₁.jump new).Inv c q' := by
  have hpcbs : (s₁.jump new).pcbs = s₁.pcbs := rfl
  refine ⟨?_, hnodup, hnew, ?_, ?_, ?_, ?_, ?_, ?_, ?_, rfl, Or.inr rfl, ?_⟩
  · show Chain s₁.next s₁.headTask q'
    rwa [hhead]
  · intro p hp
    show p ∈ s₁.pcbMem
    rw [hmem]
    exact h.mem p (hsub hp)
  · show s₁.pcbMem.Nodup
    rw [hmem]
    exact h.memNodup
  · show ∀ p ∈ s₁.pcbMem, _
    rw [hmem]
    exact h.memRange
  · show s₁.pcbMem.map (fun p => (s₁.pcbs p).pid) = List.range' 1 s₁.pcbMem.length
    simp only [hpid, hmem]
    exact h.pids
  · show s₁.nextPid = add32 s₁.pcbMem.length 1
    rw [hnext, hmem]
    exact h.nextPid
  · intro p hp
    show (s₁.pcbs p).pageDir ∈ s₁.dirMem
    rw [hdir, hdirs]
    exact h.dirMem p (hsub hp)
  · intro p hp p' hp' he
    rw [hpcbs, hdir, hdir] at he
    exact h.dirInj p (hsub hp) p' (hsub hp') he
  · intro p hp _
    show (s₁.pcbs p).eip = c.forkRet ∧ (s₁.stack (s₁.pcbs p).pageDir (s₁.pcbs p).ebp).parentTask ≠ p ∨
      (s₁.pcbs p).eip = c.switchRet ∨ (s₁.pcbs p).eip = c.exitRet
    by_cases hpc : p = s.curTask
    · rw [hpc]
      exact Or.inr hcur
    · have hold := h.suspended_of_ne (hsub hp) hpc
      have h1 : (s₁.pcbs p).eip = (s.pcbs p).eip := congrArg Ctx.eip (hctx p hpc)
      have h2 : (s₁.pcbs p).ebp = (s.pcbs p).ebp := congrArg Ctx.ebp (hctx p hpc)
      have h3 : s₁.stack (s.pcbs p).pageDir = s.stack (s.pcbs p).pageDir := by
        refine hstack _ fun e => hpc ?_
        rw [h.curDir] at e
        exact h.dirInj p (hsub hp) _ h.cur e
      rw [h1, h2, hdir, h3]
      exact hold

/-! ### `task_switch` -/

/-- What a routine does that switches from the current task to `new`, saving it at `ret`. -/
structure Switched (c : Code) (s : Tasks) (q : List ℕ) (ret esp ebp new : ℕ) (s' : Tasks) :
    Prop where
  inv : s'.Inv c q
  control : s'.control ≠ .running
  cur : s'.curTask = new
  head : s'.headTask = s.headTask
  mem : s'.pcbMem = s.pcbMem
  saved : s'.ctx s.curTask = ⟨ret, esp, ebp, (s.pcbs s.curTask).pageDir⟩
  ctx : ∀ p ≠ s.curTask, s'.ctx p = s.ctx p
  pid : ∀ p, (s'.pcbs p).pid = (s.pcbs p).pid

theorem taskSwitch_spec {l r : List ℕ} (h : s.Inv c q) (hq : q = l ++ s.curTask :: r) :
    ∃ s', s.taskSwitch c esp ebp = (s',
        [.record s.curTask ⟨c.switchRet, esp, ebp, (s.pcbs s.curTask).pageDir⟩,
          .resume (r.headD s.headTask) (s'.ctx (r.headD s.headTask))]) ∧
      Switched c s q c.switchRet esp ebp (r.headD s.headTask) s' := by
  have hne : s.curTask ≠ 0 := h.ne_zero h.cur
  set s₁ := s.setCtx s.curTask c.switchRet esp ebp with hs₁
  set s₂ := s₁.setPcb s.curTask
    { s₁.pcbs s.curTask with time := add32 (s₁.pcbs s.curTask).time 1 } with hs₂
  have hother {p : ℕ} (hp : p ≠ s.curTask) : s₂.pcbs p = s.pcbs p := by
    rw [hs₂, pcbs_setPcb, if_neg hp, hs₁, pcbs_setCtx, if_neg hp]
  have hself : s₂.pcbs s.curTask = { s.pcbs s.curTask with
      eip := c.switchRet, esp := esp, ebp := ebp,
      time := add32 (s.pcbs s.curTask).time 1 } := by
    rw [hs₂, pcbs_setPcb, if_pos rfl, hs₁, pcbs_setCtx, if_pos rfl]
  have hsame (p : ℕ) : (s₂.pcbs p).pid = (s.pcbs p).pid ∧
      (s₂.pcbs p).pageDir = (s.pcbs p).pageDir ∧ s₂.next p = s.next p := by
    unfold next
    by_cases hp : p = s.curTask
    · rw [hp, hself]
      exact ⟨rfl, rfl, rfl⟩
    · rw [hother hp]
      exact ⟨rfl, rfl, rfl⟩
  -- the next task, or the head when the list ends
  have hnext : (if (s₂.pcbs s.curTask).next = 0 then s₂.headTask else (s₂.pcbs s.curTask).next) =
      r.headD s.headTask := by
    rw [show (s₂.pcbs s.curTask).next = s.next s.curTask from (hsame _).2.2]
    cases r with
    | nil =>
      rw [if_pos (Chain.next_last (hq ▸ h.chain))]
      rfl
    | cons a r =>
      have ha : s.next s.curTask = a := Chain.next_cons (hq ▸ h.chain)
      rw [ha, if_neg (h.ne_zero (by simp [hq]))]
      rfl
  have hnew : r.headD s.headTask ∈ q := by
    cases r with
    | nil => exact h.head
    | cons a r => simp [hq]
  have hctx : ∀ p ≠ s.curTask, s₂.ctx p = s.ctx p := fun p hp => by
    rw [Tasks.ctx, hother hp, Tasks.ctx]
  have hsaved : s₂.ctx s.curTask = ⟨c.switchRet, esp, ebp, (s.pcbs s.curTask).pageDir⟩ := by
    rw [Tasks.ctx, hself]
  refine ⟨s₂.jump (r.headD s.headTask), ?_, ?_, by simp [jump], rfl, rfl, rfl, hsaved, hctx,
    fun p => (hsame p).1⟩
  · unfold taskSwitch switchAfter
    rw [if_neg hne, if_neg (Code.ne_resumed c).2.1]
    simp only [← hs₁, ← hs₂, hnext, hsaved]
    rfl
  · refine h.jump s₂ (Path.congr h.chain fun p _ => (hsame p).2.2) h.nodup
      (List.Subset.refl q) hnew (fun p => (hsame p).1) (fun p => (hsame p).2.1) hctx ?_
      (fun _ _ => rfl) rfl rfl rfl rfl
    rw [hself]
    exact Or.inl rfl

/-! ### `task_exit_pid` -/

theorem taskExitPid_spec {l r : List ℕ} {t pid : ℕ} (h : s.Inv c q) (hq : q = l ++ t :: p :: r)
    (hp : (s.pcbs p).pid = pid) :
    ∃ s', s.taskExitPid c pid esp ebp = some (s',
        [.record s.curTask ⟨c.exitRet, esp, ebp, (s.pcbs s.curTask).pageDir⟩,
          .resume t (s'.ctx t)]) ∧
      Switched c s (l ++ t :: r) c.exitRet esp ebp t s' := by
  have hne : s.curTask ≠ 0 := h.ne_zero h.cur
  have hne' : s.headTask ≠ 0 := h.ne_zero h.head
  have hnodup := hq ▸ h.nodup
  have hpq : p ∈ q := by simp [hq]
  have hkey {x : ℕ} (hx : x ∈ q) (hxp : x ≠ p) : (s.pcbs x).pid ≠ pid := fun e =>
    hxp (h.pid_inj (h.mem x hx) (h.mem p hpq) (e.trans hp.symm))
  rw [List.nodup_append] at hnodup
  obtain ⟨-, hnd, hdisj⟩ := hnodup
  obtain ⟨htp, hpr⟩ := List.nodup_cons.mp hnd
  have hlt : ∀ x ∈ l, x ≠ t ∧ x ≠ p := fun x hx =>
    ⟨hdisj x hx t (by simp), hdisj x hx p (by simp)⟩
  have hrt : ∀ x ∈ r, x ≠ t ∧ x ≠ p := fun x hx =>
    ⟨fun e => htp (by simp [← e, hx]), fun e => (List.nodup_cons.mp hpr).1 (e ▸ hx)⟩
  have htp' : t ≠ p := fun e => htp (by simp [e])
  have hlen := h.length
  have hfind : findBefore s.next (fun p => (s.pcbs p).pid) pid (2 ^ 32) s.headTask =
      some (some t) :=
    Chain.findBefore (hq ▸ h.chain) hp (fun x hx => hkey (by simp [hq, hx]) (hlt x hx).2)
      (Or.inl (hkey (by simp [hq]) htp')) (by rw [hq, List.length_append] at hlen; omega)
  have hvictim : (s.pcbs t).next = p := Chain.next_cons (hq ▸ h.chain)
  set s₁ := ({ s with interrupts := false } : Tasks).setPcb t
    { s.pcbs t with next := (s.pcbs p).next } with hs₁
  set s₂ := s₁.setLocals ebp { s₁.locals ebp with t := t } with hs₂
  set s₃ := s₂.setCtx s.curTask c.exitRet esp ebp with hs₃
  have hpcbs₂ (x : ℕ) : s₂.pcbs x =
      if x = t then { s.pcbs t with next := (s.pcbs p).next } else s.pcbs x := pcbs_setPcb
  have hpcbs (x : ℕ) : s₃.pcbs x = if x = s.curTask then
      { s₂.pcbs s.curTask with eip := c.exitRet, esp := esp, ebp := ebp } else s₂.pcbs x :=
    pcbs_setCtx
  have hsame (x : ℕ) : (s₃.pcbs x).pid = (s.pcbs x).pid ∧
      (s₃.pcbs x).pageDir = (s.pcbs x).pageDir ∧
      s₃.next x = if x = t then s.next p else s.next x := by
    unfold next
    rw [hpcbs]
    split_ifs with h1 h2 h2 <;> simp_all
  have hctx : ∀ x ≠ s.curTask, s₃.ctx x = s.ctx x := fun x hx => by
    rw [Tasks.ctx, hpcbs, if_neg hx, hpcbs₂, Tasks.ctx]
    split_ifs with h1
    · rw [h1]
    · rfl
  have hsaved : s₃.ctx s.curTask = ⟨c.exitRet, esp, ebp, (s.pcbs s.curTask).pageDir⟩ := by
    rw [Tasks.ctx, (hsame _).2.1, hpcbs, if_pos rfl]
  have hexit : s.taskExitPid c pid esp ebp = some (s₂.exitAfter c.exitRet esp ebp) := by
    unfold taskExitPid
    simp only [hne, hne', or_self, if_false]
    rw [show Tasks.next { s with interrupts := false } = s.next from rfl, hfind]
    simp only [Option.bind_eq_bind, Option.bind_some, hvictim]
    exact if_neg hne
  have hafter : s₂.exitAfter c.exitRet esp ebp = (s₃.jump t,
      [.record s.curTask (s₃.ctx s.curTask), .resume t (s₃.ctx t)]) := by
    unfold exitAfter
    rw [if_neg (Code.ne_resumed c).2.2, hs₂, locals_setLocals]
    rfl
  have hinv : (s₃.jump t).Inv c (l ++ t :: r) := by
    refine h.jump s₃ ?_ ?_ ?_ (by simp) (fun x => (hsame x).1) (fun x => (hsame x).2.1)
      hctx ?_ (fun d hd => ?_) rfl rfl rfl rfl
    · refine Chain.unlink (hq ▸ h.chain) ?_ (fun x hx => ?_) fun x hx => ?_
      · rw [(hsame t).2.2, if_pos rfl]
      · rw [(hsame x).2.2, if_neg (hlt x hx).1]
      · rw [(hsame x).2.2, if_neg (hrt x hx).1]
    · refine (hq ▸ h.nodup).sublist ?_
      exact (List.Sublist.refl l).append ((List.sublist_cons_self p r).cons_cons t)
    · intro x hx
      rw [hq]
      simp only [List.mem_append, List.mem_cons] at hx ⊢
      tauto
    · rw [hpcbs, if_pos rfl]
      exact Or.inr rfl
    · exact stack_setLocals hd
  refine ⟨s₃.jump t, ?_, hinv, by simp [jump], rfl, rfl, rfl, hsaved, hctx,
    fun x => (hsame x).1⟩
  rw [hexit, hafter, hsaved]
  rfl

/-! ### Behind a jump -/

/-- The return that a task is resumed to. -/
def returnOf (c : Code) (eip p : ℕ) : Event :=
  if eip = c.forkRet then .forkReturn p 0
  else if eip = c.switchRet then .switchReturn p
  else .exitReturn p

/-- What the code behind a jump does: nothing but return. -/
structure Landed (c : Code) (s : Tasks) (q : List ℕ) (s' : Tasks) : Prop where
  inv : s'.Inv c q
  control : s'.control = .running
  pcbs : s'.pcbs = s.pcbs
  cur : s'.curTask = s.curTask
  head : s'.headTask = s.headTask
  mem : s'.pcbMem = s.pcbMem
  curDir : s'.curVmPageDir = s.curVmPageDir

lemma Inv.run (h : s.Inv c q) (interrupts : Bool) :
    Landed c s q { s with interrupts := interrupts, control := .running } := by
  refine ⟨⟨h.chain, h.nodup, h.cur, h.mem, h.memNodup, h.memRange, h.pids, h.nextPid, h.dirMem,
    h.dirInj, h.curDir, Or.inl rfl, fun p hp hne => ?_⟩, rfl, rfl, rfl, rfl, rfl, rfl⟩
  exact h.suspended_of_ne hp (hne.resolve_right fun hc => hc rfl)

theorem land_spec (h : s.Inv c q) (hland : s.control ≠ .running) :
    Landed c s q (s.land c).1 ∧
      (s.land c).2 = [returnOf c (s.pcbs s.curTask).eip s.curTask] := by
  have hcontrol := h.control.resolve_left hland
  obtain ⟨-, hs, he⟩ := Code.ne_resumed c
  unfold land returnOf
  rw [hcontrol]
  rcases h.suspended _ h.cur (Or.inr hland) with ⟨heip, hparent⟩ | heip | heip
  · have hchild : s.curTask ≠ (s.locals (s.pcbs s.curTask).ebp).parentTask := by
      rw [locals, h.curDir]
      exact hparent.symm
    simp only [heip, if_true, forkAfter_child hchild]
    exact ⟨h.run true, trivial⟩
  · simp only [heip, c.fork_ne_switch.symm, if_true, if_false, switchAfter]
    exact ⟨h.run s.interrupts, trivial⟩
  · simp only [heip, c.fork_ne_exit.symm, c.switch_ne_exit.symm, if_true, if_false, exitAfter]
    exact ⟨h.run s.interrupts, trivial⟩

end Jump

/-! ### One step -/

section Steps

variable {c : Code} {s s' : Tasks} {q : List ℕ} {o : Op} {evs : List Event} {p : ℕ}

lemma Inv.split (h : s.Inv c q) (hp : p ∈ q) (hne : p ≠ s.headTask) :
    ∃ l t r, q = l ++ t :: p :: r := by
  obtain ⟨r, rfl⟩ := h.eq_head
  exact exists_before hp hne

/-- **What one step can do**, as a change of the queue. -/
theorem Step.cases (h : s.Inv c q) (hs : Step c s (o, evs) s') :
    (∃ esp ebp dir new, o = .fork esp ebp dir new ∧ s.control = .running ∧ new ∉ s.pcbMem ∧
      evs = [.forked s.curTask new (s.pcbMem.length + 1), .record new ⟨c.forkRet, esp, ebp, dir⟩,
        .forkReturn s.curTask (s.pcbMem.length + 1)] ∧
      Forked c s q esp ebp dir new s') ∨
    (∃ esp ebp l r, o = .taskSwitch esp ebp ∧ s.control = .running ∧ q = l ++ s.curTask :: r ∧
      evs = [.record s.curTask ⟨c.switchRet, esp, ebp, (s.pcbs s.curTask).pageDir⟩,
        .resume (r.headD s.headTask) (s'.ctx (r.headD s.headTask))] ∧
      Switched c s q c.switchRet esp ebp (r.headD s.headTask) s') ∨
    (∃ pid esp ebp l t p r, o = .taskExitPid pid esp ebp ∧ s.control = .running ∧
      q = l ++ t :: p :: r ∧ (s.pcbs p).pid = pid ∧
      evs = [.record s.curTask ⟨c.exitRet, esp, ebp, (s.pcbs s.curTask).pageDir⟩,
        .resume t (s'.ctx t)] ∧
      Switched c s (l ++ t :: r) c.exitRet esp ebp t s') ∨
    (o = .land ∧ s.control ≠ .running ∧ evs = [returnOf c (s.pcbs s.curTask).eip s.curTask] ∧
      Landed c s q s') := by
  cases hs with
  | @fork _ esp ebp dir new _ hrun hdir hnew h0 htop hf =>
    obtain ⟨t, ht, hforked⟩ := @fork_spec c s q esp ebp dir new h hdir hnew h0 htop
    rw [hf] at ht
    simp only [Option.some.injEq, Prod.mk.injEq] at ht
    obtain ⟨rfl, rfl⟩ := ht
    exact Or.inl ⟨esp, ebp, dir, new, rfl, hrun, hnew, rfl, hforked⟩
  | @taskSwitch esp ebp hrun =>
    obtain ⟨l, r, hq⟩ := List.append_of_mem h.cur
    obtain ⟨t, ht, hsw⟩ := @taskSwitch_spec c s q esp ebp l r h hq
    rw [ht]
    exact Or.inr (Or.inl ⟨esp, ebp, l, r, rfl, hrun, hq, rfl, hsw⟩)
  | @taskExitPid _ pid esp ebp _ hrun hpid hf =>
    obtain ⟨q', hq', p, hp, hne, hk⟩ := hpid
    obtain rfl := h.chain.unique hq'
    obtain ⟨l, t, r, hq⟩ := h.split hp hne
    obtain ⟨s'', ht, hsw⟩ := @taskExitPid_spec c s q p esp ebp l r t pid h hq hk
    rw [hf] at ht
    simp only [Option.some.injEq, Prod.mk.injEq] at ht
    obtain ⟨rfl, rfl⟩ := ht
    exact Or.inr (Or.inr (Or.inl ⟨pid, esp, ebp, l, t, p, r, rfl, hrun, hq, hk, rfl, hsw⟩))
  | land hland =>
    obtain ⟨h1, h2⟩ := land_spec h hland
    exact Or.inr (Or.inr (Or.inr ⟨rfl, hland, h2, h1⟩))

lemma inv_initMultitask (s : Tasks) (h0 : 0 < p) (htop : p < 2 ^ 32) :
    (initMultitask s p).Inv c [p] := by
  have hp : (initMultitask s p).pcbs p =
      { s.pcbs p with
        pid := 1, esp := 0, ebp := 0, eip := 0, state := .runnable, pageDir := s.curVmPageDir,
        next := 0 } := Function.update_self _ _ _
  refine ⟨⟨rfl, by omega, ?_⟩, by simp, by simp [initMultitask], by simp [initMultitask],
    by simp [initMultitask], ?_, ?_, rfl, ?_, by simp, ?_, Or.inl rfl, ?_⟩
  · show (initMultitask s p).next p = 0
    rw [next, hp]
  · intro x hx
    obtain rfl : x = p := by simpa [initMultitask] using hx
    exact ⟨h0, htop⟩
  · show [((initMultitask s p).pcbs p).pid] = [1]
    rw [hp]
  · intro x hx
    obtain rfl : x = p := by simpa using hx
    rw [hp]
    simp [initMultitask]
  · show s.curVmPageDir = ((initMultitask s p).pcbs p).pageDir
    rw [hp]
  · intro x hx hne
    obtain rfl : x = p := by simpa using hx
    rcases hne with hne | hne
    · exact absurd rfl hne
    · exact absurd rfl hne

theorem run_inv (h : s.Inv c q) {ls : List (Op × List Event)} (hr : Run (Step c) s ls s') :
    ∃ q', s'.Inv c q' := by
  refine hr.inv (I := fun _ t => ∃ q', t.Inv c q') ⟨q, h⟩ fun _ t a t' ht hs => ?_
  obtain ⟨q', ht⟩ := ht
  rcases Step.cases ht hs with ⟨_, _, _, _, _, _, _, _, h⟩ | ⟨_, _, _, _, _, _, _, _, h⟩ |
    ⟨_, _, _, _, _, _, _, _, _, _, _, _, h⟩ | ⟨_, _, _, h⟩
  · exact ⟨_, h.inv⟩
  · exact ⟨_, h.inv⟩
  · exact ⟨_, h.inv⟩
  · exact ⟨_, h.inv⟩

end Steps

end Tasks

end OsImplement.Task
