import OsImplement.Task.Returns

/-!
The timer (`timer.c`), and the time of tasks.

`timer_callback` counts a tick and calls `task_switch`, which counts one for the task that it
switches away from. `init_multitask` leaves the count of the first task as it finds it in memory.
-/

namespace OsImplement.Task

open Lib.Word Lib.Step

/-! ### The timer -/

/-- `init_timer`, on the ports: what it asks of the interval timer. -/
def initTimer (f : ℕ) : List (UInt16 × UInt8) :=
  let divisor := 1193180 / f
  let low := UInt8.ofNat (divisor &&& 0xFF)
  let high := UInt8.ofNat ((divisor >>> 8) &&& 0xFF)
  [(0x43, 0x36), (0x40, low), (0x40, high)]

/-- What the timer counts down from: the two bytes, where 0 is the largest count. -/
def reload : List (UInt16 × UInt8) → ℕ
  | [_, (_, low), (_, high)] =>
    let count := low.toNat + 256 * high.toNat
    if count = 0 then 65536 else count
  | _ => 0

theorem reload_initTimer_iff {f : ℕ} (hf : 0 < f) :
    reload (initTimer f) = 1193180 / f ↔ 19 ≤ f ∧ f ≤ 1193180 := by
  have hand (x : ℕ) : x &&& 0xFF = x % 2 ^ 8 := Nat.and_two_pow_sub_one_eq_mod x 8
  have hlow : 19 ≤ f ↔ 1193180 / f < 65537 := by
    rw [Nat.div_lt_iff_lt_mul hf]
    omega
  have hhigh : f ≤ 1193180 ↔ 0 < 1193180 / f := by
    rw [Nat.div_pos_iff]
    omega
  rw [hlow, hhigh]
  simp only [reload, initTimer, hand, Nat.shiftRight_eq_div_pow, UInt8.toNat_ofNat']
  generalize 1193180 / f = d
  split_ifs <;> omega

/-- `timer_callback`, with `tick`. -/
def timerCallback (c : Code) (esp ebp tick : ℕ) (s : Tasks) : ℕ × Tasks :=
  (add32 tick 1, (s.taskSwitch c esp ebp).1)

namespace Tasks

section Time

variable {c : Code} {s s' s₀ : Tasks} {p p₀ esp ebp dir newTask pid : ℕ} {evs : List Event}
  {ls : List (Op × List Event)}

/-- A tick of the timer. -/
def isTick : Op × List Event → Bool
  | (.taskSwitch _ _, _) => true
  | _ => false

/-- A tick that takes the processor from task `p`. -/
def ticksFrom (p : ℕ) : Op × List Event → Bool
  | (.taskSwitch _ _, evs) => evs.any fun
    | .record q _ => q == p
    | _ => false
  | _ => false

/-- One step, with `tick`: nothing but `timer_callback` calls `task_switch`. -/
inductive TickStep (c : Code) : ℕ × Tasks → Op × List Event → ℕ × Tasks → Prop
  | timer {tick esp ebp : ℕ} {s : Tasks} {evs : List Event}
      (h : Step c s (.taskSwitch esp ebp, evs) (timerCallback c esp ebp tick s).2) :
      TickStep c (tick, s) (.taskSwitch esp ebp, evs) (timerCallback c esp ebp tick s)
  | other {tick : ℕ} {s s' : Tasks} {a : Op × List Event} (h : Step c s a s')
      (ha : isTick a = false) : TickStep c (tick, s) a (tick, s')

/-! ### One step -/

lemma time_setCtx {q eip : ℕ} : ((s.setCtx q eip esp ebp).pcbs p).time = (s.pcbs p).time := by
  rw [pcbs_setCtx]
  split
  · rename_i hp
    rw [hp]
  · rfl

lemma time_setNext {q n : ℕ} :
    ((s.setPcb q { s.pcbs q with next := n }).pcbs p).time = (s.pcbs p).time := by
  rw [pcbs_setPcb]
  split
  · rename_i hp
    rw [hp]
  · rfl

lemma time_forkAfter {eip : ℕ} :
    ((s.forkAfter eip esp ebp).1.pcbs p).time = (s.pcbs p).time := by
  unfold forkAfter
  dsimp only
  split
  · exact time_setCtx
  · rfl

lemma time_fork (h : s.fork c esp ebp dir newTask = some (s', evs)) :
    (s'.pcbs p).time = if p = newTask then 0 else (s.pcbs p).time := by
  have hpcb : ((s.forkPcb ebp dir newTask).pcbs p).time =
      if p = newTask then 0 else (s.pcbs p).time := by
    show ((setPcb _ _ _).pcbs p).time = _
    rw [pcbs_setPcb]
    split <;> rfl
  unfold fork at h
  obtain ⟨t, ht, h⟩ := Option.bind_eq_some_iff.mp h
  obtain ⟨z, -, ht⟩ := Option.bind_eq_some_iff.mp ht
  have ht := Option.some.inj ht
  have hs' : (t.forkAfter c.forkRet esp ebp).1 = s' := congrArg Prod.fst (Option.some.inj h)
  rw [← hpcb, ← hs', time_forkAfter, ← ht]
  exact time_setNext

lemma time_taskSwitch (hne : s.curTask ≠ 0) :
    ((s.taskSwitch c esp ebp).1.pcbs p).time =
      if p = s.curTask then add32 (s.pcbs p).time 1 else (s.pcbs p).time := by
  unfold taskSwitch switchAfter
  rw [if_neg hne, if_neg (Code.ne_resumed c).2.1]
  show ((setPcb _ _ _).pcbs p).time = _
  rw [pcbs_setPcb]
  split
  · rename_i hp
    rw [hp]
    exact congrArg (add32 · 1) time_setCtx
  · exact time_setCtx

lemma time_exitAfter : ((s.exitAfter c.exitRet esp ebp).1.pcbs p).time = (s.pcbs p).time := by
  unfold exitAfter
  rw [if_neg (Code.ne_resumed c).2.2]
  exact time_setCtx

lemma time_taskExitPid (h : s.taskExitPid c pid esp ebp = some (s', evs)) :
    (s'.pcbs p).time = (s.pcbs p).time := by
  unfold taskExitPid at h
  simp only at h
  split at h
  · obtain rfl := congrArg Prod.fst (Option.some.inj h)
    rfl
  · obtain ⟨t, -, h⟩ := Option.bind_eq_some_iff.mp h
    cases t with
    | none =>
      obtain rfl := congrArg Prod.fst (Option.some.inj h)
      rfl
    | some t =>
      simp only at h
      split at h
      · obtain rfl := congrArg Prod.fst (Option.some.inj h)
        exact time_setNext
      · have hs' := congrArg Prod.fst (Option.some.inj h)
        rw [← show _ = s' from hs']
        exact time_exitAfter.trans time_setNext

lemma time_step {q : List ℕ} {o : Op} (h : s.Inv c q) (hs : Step c s (o, evs) s') (p : ℕ) :
    (s'.pcbs p).time = match o with
      | .fork _ _ _ newTask => if p = newTask then 0 else (s.pcbs p).time
      | .taskSwitch _ _ => if p = s.curTask then add32 (s.pcbs p).time 1 else (s.pcbs p).time
      | _ => (s.pcbs p).time := by
  cases hs with
  | fork _ _ _ _ _ hf => exact time_fork hf
  | taskSwitch => exact time_taskSwitch (h.ne_zero h.cur)
  | taskExitPid _ _ hf => exact time_taskExitPid hf
  | land hland => rw [(land_spec h hland).1.pcbs]

/-! ### Runs -/

/-- What the memory of the first task held; a task that was forked starts at 0. -/
def startTime (s₀ : Tasks) (p₀ p : ℕ) : ℕ := if p = p₀ then (s₀.pcbs p₀).time else 0

/-- The times in a run, for the tasks that were ever made. -/
structure Timed (s₀ : Tasks) (p₀ : ℕ) (ls : List (Op × List Event)) (s : Tasks) : Prop where
  first : p₀ ∈ s.pcbMem
  time : ∀ p ∈ s.pcbMem,
    (s.pcbs p).time = (startTime s₀ p₀ p + ls.countP (ticksFrom p)) % 2 ^ 32
  unborn : ∀ p ∉ s.pcbMem, ls.countP (ticksFrom p) = 0
  total : (s.pcbMem.map fun p => ls.countP (ticksFrom p)).sum = ls.countP isTick

lemma sum_indicator (l : List ℕ) : (l.map fun x => if p = x then 1 else 0).sum = l.count p := by
  induction l with
  | nil => rfl
  | cons x l ih =>
    rw [List.map_cons, List.sum_cons, ih, List.count_cons, Nat.add_comm]
    by_cases hpx : p = x
    · simp [hpx]
    · simp [hpx, Ne.symm hpx]

lemma Timed.keep {a : Op × List Event} (ht : Timed s₀ p₀ ls s) (hmem : s'.pcbMem = s.pcbMem)
    (htime : ∀ p, (s'.pcbs p).time = (s.pcbs p).time) (hfrom : ∀ p, ticksFrom p a = false)
    (htick : isTick a = false) : Timed s₀ p₀ (ls ++ [a]) s' := by
  have hcount (f : Op × List Event → Bool) (hf : f a = false) :
      (ls ++ [a]).countP f = ls.countP f := by
    rw [List.countP_append, List.countP_singleton, hf]
    rfl
  refine ⟨hmem ▸ ht.first, fun p hp => ?_, fun p hp => ?_, ?_⟩
  · rw [htime, hcount _ (hfrom p)]
    exact ht.time p (hmem ▸ hp)
  · rw [hcount _ (hfrom p)]
    exact ht.unborn p (hmem ▸ hp)
  · simp only [hmem, hcount _ (hfrom _), hcount _ htick]
    exact ht.total

lemma Timed.tick {q : List ℕ} {a : Op × List Event} (h : s.Inv c q) (ht : Timed s₀ p₀ ls s)
    (hmem : s'.pcbMem = s.pcbMem)
    (htime : ∀ p, (s'.pcbs p).time =
      if p = s.curTask then add32 (s.pcbs p).time 1 else (s.pcbs p).time)
    (hfrom : ∀ p, ticksFrom p a = decide (s.curTask = p)) (htick : isTick a = true) :
    Timed s₀ p₀ (ls ++ [a]) s' := by
  have hcount (p : ℕ) : (ls ++ [a]).countP (ticksFrom p) =
      ls.countP (ticksFrom p) + if s.curTask = p then 1 else 0 := by
    rw [List.countP_append, List.countP_singleton, hfrom]
    simp
  have hcur := h.mem _ h.cur
  refine ⟨hmem ▸ ht.first, fun p hp => ?_, fun p hp => ?_, ?_⟩
  · rw [htime, hcount, ht.time p (hmem ▸ hp)]
    by_cases hpc : p = s.curTask
    · rw [if_pos hpc, if_pos hpc.symm]
      unfold add32
      omega
    · rw [if_neg hpc, if_neg (Ne.symm hpc), Nat.add_zero]
  · rw [hmem] at hp
    rw [hcount, ht.unborn p hp, if_neg fun e : s.curTask = p => hp (e ▸ hcur)]
  · have htotal := ht.total
    rw [hmem, List.countP_append, List.countP_singleton, htick]
    simp only [hcount, List.sum_map_add, sum_indicator,
      List.count_eq_one_of_mem h.memNodup hcur, if_true]
    omega

lemma Timed.fork {new : ℕ} {a : Op × List Event} (ht : Timed s₀ p₀ ls s)
    (hnew : new ∉ s.pcbMem) (hmem : s'.pcbMem = s.pcbMem ++ [new])
    (htime : ∀ p, (s'.pcbs p).time = if p = new then 0 else (s.pcbs p).time)
    (hfrom : ∀ p, ticksFrom p a = false) (htick : isTick a = false) :
    Timed s₀ p₀ (ls ++ [a]) s' := by
  have hcount (f : Op × List Event → Bool) (hf : f a = false) :
      (ls ++ [a]).countP f = ls.countP f := by
    rw [List.countP_append, List.countP_singleton, hf]
    rfl
  refine ⟨by rw [hmem]; exact List.mem_append_left _ ht.first, fun p hp => ?_, fun p hp => ?_, ?_⟩
  · rw [htime, hcount _ (hfrom p)]
    by_cases hpn : p = new
    · subst hpn
      have hne : p ≠ p₀ := fun e => hnew (e ▸ ht.first)
      rw [if_pos rfl, ht.unborn p hnew, startTime, if_neg hne]
      rfl
    · rw [if_neg hpn]
      refine ht.time p ?_
      simpa [hmem, hpn] using hp
  · rw [hcount _ (hfrom p)]
    exact ht.unborn p fun hp' => hp (by rw [hmem]; exact List.mem_append_left _ hp')
  · simp only [hmem, List.map_append, List.sum_append, List.map_singleton, List.sum_singleton,
      hcount _ (hfrom _), hcount _ htick, ht.unborn new hnew]
    exact ht.total

lemma Timed.step {q : List ℕ} {a : Op × List Event} (h : s.Inv c q) (ht : Timed s₀ p₀ ls s)
    (hs : Step c s a s') : Timed s₀ p₀ (ls ++ [a]) s' := by
  obtain ⟨o, evs⟩ := a
  have htime := time_step h hs
  rcases Step.cases h hs with ⟨esp, ebp, dir, new, rfl, -, hnew, -, hf⟩ |
    ⟨esp, ebp, l, r, rfl, -, -, rfl, hsw⟩ | ⟨pid, esp, ebp, _, _, _, _, rfl, -, -, -, -, hsw⟩ |
    ⟨rfl, -, -, hl⟩
  · exact ht.fork hnew hf.mem htime (fun _ => rfl) rfl
  · refine ht.tick h hsw.mem htime (fun p => ?_) rfl
    simp [ticksFrom]
    rfl
  · exact ht.keep hsw.mem htime (fun _ => rfl) rfl
  · exact ht.keep hl.mem htime (fun _ => rfl) rfl

lemma TickStep.tasks {x y : ℕ × Tasks} {a : Op × List Event} (h : TickStep c x a y) :
    Step c x.2 a y.2 := by
  cases h with
  | timer h => exact h
  | other h => exact h

lemma tick_of_run {t t₀ : ℕ} (ht : t₀ < 2 ^ 32) (hr : Run (TickStep c) (t₀, s₀) ls (t, s)) :
    t = (t₀ + ls.countP isTick) % 2 ^ 32 := by
  refine hr.inv (I := fun ls x => x.1 = (t₀ + ls.countP isTick) % 2 ^ 32)
    (Nat.mod_eq_of_lt ht).symm fun ls x a y ih hstep => ?_
  rw [List.countP_append, List.countP_singleton]
  cases hstep with
  | @timer tick esp ebp s evs _ =>
    have htick : isTick (.taskSwitch esp ebp, evs) = true := rfl
    have ih : tick = (t₀ + ls.countP isTick) % 2 ^ 32 := ih
    change add32 tick 1 = _
    rw [htick, if_pos rfl, ih]
    unfold add32
    omega
  | other _ ha =>
    rw [ha]
    exact ih

/-- **Every tick is counted once.** In every run, the time of a task is the number of ticks that
took the processor from it since its `fork`, as a word; the first task's has what was in memory on
top. Together the tasks that were ever made have all the ticks that `tick` has counted. -/
theorem time_of_run {t t₀ : ℕ} (h0 : 0 < p₀) (htop : p₀ < 2 ^ 32)
    (hword : (s₀.pcbs p₀).time < 2 ^ 32) (htick : t₀ < 2 ^ 32)
    (hr : Run (TickStep c) (t₀, initMultitask s₀ p₀) ls (t, s)) :
    (∀ p ∈ s.pcbMem, (s.pcbs p).time =
        ((if p = p₀ then (s₀.pcbs p₀).time else 0) + ls.countP (ticksFrom p)) % 2 ^ 32) ∧
      t = (t₀ + (s.pcbMem.map fun p => ls.countP (ticksFrom p)).sum) % 2 ^ 32 := by
  have hstart : Timed s₀ p₀ [] (initMultitask s₀ p₀) := by
    refine ⟨by simp [initMultitask], fun p hp => ?_, fun p _ => rfl, rfl⟩
    obtain rfl : p = p₀ := by simpa [initMultitask] using hp
    rw [startTime, if_pos rfl]
    change (Function.update s₀.pcbs p _ p).time = _
    rw [Function.update_self]
    exact (Nat.mod_eq_of_lt hword).symm
  have htasks : Run (Step c) (initMultitask s₀ p₀) ls s :=
    hr.map Prod.snd fun _ _ _ hstep => hstep.tasks
  obtain ⟨q, -, ht⟩ := htasks.inv (I := fun ls s => ∃ q, s.Inv c q ∧ Timed s₀ p₀ ls s)
    ⟨[p₀], inv_initMultitask s₀ h0 htop, hstart⟩ fun ls s a s' hinv hs => by
      obtain ⟨q, h, ht⟩ := hinv
      obtain ⟨q', h'⟩ := run_inv h (.single hs)
      exact ⟨q', h', ht.step h hs⟩
  exact ⟨ht.time, by rw [ht.total, tick_of_run htick hr]⟩

theorem time_of_run_tick : ∃ s ls,
    Run (TickStep someCode) (41, initMultitask zeroed 0xC0090000) ls (42, s) ∧
    (s.pcbs 0xC0090000).time = 1 ∧ (s.pcbs 0xC0095000).time = 0 := by
  obtain ⟨s, hr, hf⟩ := run_fork
  have hcur : s.curTask = 0xC0090000 := hf.cur
  obtain ⟨t, hfork, ht⟩ := Run.cons_iff.mp hr
  obtain rfl := Run.nil_iff.mp ht
  have hrun := Run.single (@TickStep.other someCode 41 _ _ _ hfork rfl)
  obtain ⟨s₂, hs₂, hsw⟩ := @taskSwitch_spec _ _ _ 0xDFFFFF40 0xDFFFFF60 [] [0xC0095000] hf.inv
    (by rw [hcur]; rfl)
  have hstep := @Step.taskSwitch someCode s 0xDFFFFF40 0xDFFFFF60 hf.control
  have hrun := hrun.snoc (TickStep.timer hstep)
  have htimer : timerCallback someCode 0xDFFFFF40 0xDFFFFF60 41 s = (42, s₂) := by
    rw [timerCallback, hs₂]
    rfl
  rw [htimer, hs₂] at hrun
  have htick : 41 < 2 ^ 32 := by decide
  obtain ⟨htime, -⟩ := time_of_run (by decide) (by decide) (by decide) htick hrun
  have hmem : s₂.pcbMem = [0xC0090000, 0xC0095000] := by
    rw [hsw.mem, hf.mem]
    rfl
  refine ⟨s₂, _, hrun, ?_, ?_⟩
  · rw [htime 0xC0090000 (by simp [hmem])]
    simp [ticksFrom, zeroed, hcur]
  · rw [htime 0xC0095000 (by simp [hmem])]
    simp [ticksFrom, hcur]

end Time

end Tasks

end OsImplement.Task
