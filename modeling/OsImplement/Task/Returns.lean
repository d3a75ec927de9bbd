import OsImplement.Task.Switch
import OsImplement.Lib.Trace

/-!
Returns and resumptions, over the history of a run.

`fork` and the switching routines return twice. `History` says which return is taken when: `fork`
once in the parent, with the pid of the child; once in the child, with 0, when the child is
resumed for the first time; and a routine that switches returns when its task is resumed, at the
context that was last recorded for it.
-/

namespace OsImplement.Task

open Lib.Step Lib.Trace

/-! ### What a history says -/

/-- The context last recorded for `p`. -/
def lastRecord (tr : List Event) (p : ℕ) : Option Ctx :=
  tr.foldl (fun last e => match e with
    | .record p' ctx => if p' = p then some ctx else last
    | _ => last) none

/-- `p` was made by a `fork` of the history. -/
def ForkedIn (tr : List Event) (p : ℕ) : Prop := ∃ parent pid, .forked parent p pid ∈ tr

def ResumedIn (tr : List Event) (p : ℕ) : Prop := ∃ ctx, .resume p ctx ∈ tr

/-- The next resumption of `p` is its first, in the `fork` that made it. -/
def Newborn (tr : List Event) (p : ℕ) : Prop := ForkedIn tr p ∧ ¬ ResumedIn tr p

/-- The pid that a `fork` issues. -/
def Event.issued : Event → Option ℕ
  | .forked _ _ pid => some pid
  | _ => none

/-- A call of `fork`: its caller and the pid of the child. -/
def Event.call : Event → Option (ℕ × ℕ)
  | .forked parent _ pid => some (parent, pid)
  | _ => none

/-- A return of `fork` with a value other than 0. -/
def Event.parentReturn : Event → Option (ℕ × ℕ)
  | .forkReturn p value => if value = 0 then none else some (p, value)
  | _ => none

/-- The task that becomes current. -/
def Event.resumed : Event → Option ℕ
  | .resume p _ => some p
  | _ => none

/-- **What is true of the history of a run.** -/
structure History (c : Code) (tr : List Event) : Prop where
  /-- No pid is issued twice, and none is that of the first task. -/
  pids : (1 :: tr.filterMap Event.issued).Nodup
  /-- Every call of `fork` has returned in its caller, once, with the pid of the child. -/
  parent : tr.filterMap Event.parentReturn = tr.filterMap Event.call
  /-- A `fork` returns 0 only in its child, behind the first resumption of the child. -/
  child : Each (fun l e => ∀ p, e = .forkReturn p 0 →
    ∃ l' ctx, l = l' ++ [.resume p ctx] ∧ Newborn l' p) tr
  /-- A task is resumed with the context last recorded for it. -/
  resumed : Each (fun l e => ∀ p ctx, e = .resume p ctx → lastRecord l p = some ctx) tr
  /-- The next event after a resumption is a return: of `fork`, with 0, in a new task, and else of
  the routine that had recorded the context. -/
  landed : Each (fun l e => ∀ l' p ctx, l = l' ++ [.resume p ctx] →
    (Newborn l' p → e = .forkReturn p 0) ∧
      (¬ Newborn l' p → ctx.eip = c.switchRet ∧ e = .switchReturn p ∨
        ctx.eip = c.exitRet ∧ e = .exitReturn p)) tr

section Facts

variable {tr : List Event} {p p' : ℕ} {ctx : Ctx} {e : Event}

lemma lastRecord_record :
    lastRecord (tr ++ [.record p' ctx]) p = if p' = p then some ctx else lastRecord tr p := by
  simp [lastRecord, List.foldl_append]

lemma lastRecord_of_ne (h : ∀ p' ctx, e ≠ .record p' ctx) :
    lastRecord (tr ++ [e]) p = lastRecord tr p := by
  unfold lastRecord
  rw [List.foldl_append]
  cases e <;> first | rfl | exact absurd rfl (h _ _)

lemma newborn_append {evs : List Event} (hf : ∀ a n, .forked a p n ∉ evs)
    (hr : ∀ ctx, .resume p ctx ∉ evs) : Newborn (tr ++ evs) p ↔ Newborn tr p := by
  simp [Newborn, ForkedIn, ResumedIn, hf, hr]

end Facts

namespace Tasks

/-! ### The invariant -/

/-- The invariant of the queue, with what the history knows about its tasks. -/
structure HInv (c : Code) (tr : List Event) (s : Tasks) (q : List ℕ) : Prop
    extends s.Inv c q where
  history : History c tr
  issued : 1 :: tr.filterMap Event.issued = s.pcbMem.map fun p => (s.pcbs p).pid
  known : ∀ p, ResumedIn tr p → p ∈ s.pcbMem
  /-- A task that waits does so at its last recorded context, in `fork` exactly when it is new. -/
  waiting : ∀ p ∈ q, p ≠ s.curTask → lastRecord tr p = some (s.ctx p) ∧
    ((s.pcbs p).eip = c.forkRet ↔ Newborn tr p)
  /-- Behind a jump the current task has just been resumed. -/
  landing : s.control ≠ .running → ∃ tr', tr = tr' ++ [.resume s.curTask (s.ctx s.curTask)] ∧
    lastRecord tr' s.curTask = some (s.ctx s.curTask) ∧
    ((s.pcbs s.curTask).eip = c.forkRet ↔ Newborn tr' s.curTask)
  /-- Between calls the current task is not new, and the last event is no resumption. -/
  between : s.control = .running → ¬ Newborn tr s.curTask ∧
    ∀ l p ctx, tr ≠ l ++ [.resume p ctx]

section Steps

variable {c : Code} {tr : List Event} {s s' : Tasks} {q q' : List ℕ}

lemma HInv.init (s : Tasks) {p : ℕ} (h0 : 0 < p) (htop : p < 2 ^ 32) :
    (initMultitask s p).HInv c [] [p] where
  toInv := inv_initMultitask s h0 htop
  history := ⟨by simp, rfl, each_nil, each_nil, each_nil⟩
  issued := by simp [initMultitask]
  known p h := by simp [ResumedIn] at h
  waiting x hx hne := by
    obtain rfl : x = p := by simpa using hx
    exact absurd rfl hne
  landing h := absurd rfl h
  between _ := ⟨by simp [Newborn, ForkedIn], by simp⟩

lemma HInv.switched (h : s.HInv c tr q) (hrun : s.control = .running) {ret esp ebp new : ℕ}
    (hsw : Switched c s q' ret esp ebp new s') (hsub : q' ⊆ q) (hret : ret ≠ c.forkRet) :
    s'.HInv c (tr ++ [.record s.curTask ⟨ret, esp, ebp, (s.pcbs s.curTask).pageDir⟩,
      .resume new (s'.ctx new)]) q' := by
  set saved : Ctx := ⟨ret, esp, ebp, (s.pcbs s.curTask).pageDir⟩ with hsaved
  obtain ⟨hcur, hlast⟩ := h.between hrun
  have hnewq : new ∈ q' := hsw.cur ▸ hsw.inv.cur
  -- every task of the queue waits at its last recorded context once the current one is saved
  have hwait {p : ℕ} (hp : p ∈ q') : lastRecord (tr ++ [.record s.curTask saved]) p =
      some (s'.ctx p) ∧ ((s'.pcbs p).eip = c.forkRet ↔ Newborn (tr ++ [.record s.curTask saved]) p) := by
    rw [lastRecord_record, newborn_append (by simp) (by simp)]
    by_cases hpc : p = s.curTask
    · subst hpc
      rw [if_pos rfl, hsw.saved]
      refine ⟨rfl, iff_of_false ?_ hcur⟩
      rw [show (s'.pcbs s.curTask).eip = ret from congrArg Ctx.eip hsw.saved]
      exact hret
    · rw [if_neg (Ne.symm hpc), hsw.ctx p hpc,
        show (s'.pcbs p).eip = (s.pcbs p).eip from congrArg Ctx.eip (hsw.ctx p hpc)]
      exact h.waiting p (hsub hp) hpc
  refine ⟨hsw.inv, ⟨?_, ?_, ?_, ?_, ?_⟩, ?_, fun p hp => ?_, fun p hp hne => ?_, fun _ => ?_,
    fun hc => absurd hc hsw.control⟩
  · simpa [List.filterMap_cons, Event.issued] using h.history.pids
  · simpa [List.filterMap_cons, Event.parentReturn, Event.call] using h.history.parent
  · rw [each_append_two]
    exact ⟨h.history.child, fun p hp => by simp at hp, fun p hp => by simp at hp⟩
  · rw [each_append_two]
    refine ⟨h.history.resumed, fun p ctx he => by simp at he, fun p ctx he => ?_⟩
    obtain ⟨rfl, rfl⟩ : new = p ∧ s'.ctx new = ctx := by simpa using he
    exact (hwait hnewq).1
  · rw [each_append_two]
    refine ⟨h.history.landed, fun l' p ctx he => absurd he (hlast l' p ctx), fun l' p ctx he => ?_⟩
    have := (List.append_inj' he rfl).2
    simp at this
  · simpa [List.filterMap_cons, Event.issued, hsw.mem, hsw.pid] using h.issued
  · rw [hsw.mem]
    obtain ⟨ctx, hctx⟩ := hp
    simp only [List.mem_append, List.mem_cons, reduceCtorEq, Event.resume.injEq, false_or,
      List.not_mem_nil, or_false] at hctx
    rcases hctx with hctx | ⟨rfl, -⟩
    · exact h.known p ⟨ctx, hctx⟩
    · exact h.mem p (hsub hnewq)
  · rw [hsw.cur] at hne
    have hw := hwait hp
    rw [show tr ++ [.record s.curTask saved, .resume new (s'.ctx new)] =
      tr ++ [.record s.curTask saved] ++ [.resume new (s'.ctx new)] by simp,
      lastRecord_of_ne (by simp), newborn_append (by simp) (by simp [hne])]
    exact hw
  · rw [hsw.cur]
    exact ⟨tr ++ [.record s.curTask saved], by simp, hwait hnewq⟩

lemma HInv.landed (h : s.HInv c tr q) (hland : s.control ≠ .running) (hl : Landed c s q s') :
    s'.HInv c (tr ++ [returnOf c (s.pcbs s.curTask).eip s.curTask]) q := by
  obtain ⟨tr', htr, hrec, hkind⟩ := h.landing hland
  have hsusp := h.suspended _ h.cur (Or.inr hland)
  set e := returnOf c (s.pcbs s.curTask).eip s.curTask with he
  have hcases : (s.pcbs s.curTask).eip = c.forkRet ∧ e = .forkReturn s.curTask 0 ∨
      (s.pcbs s.curTask).eip = c.switchRet ∧ e = .switchReturn s.curTask ∨
      (s.pcbs s.curTask).eip = c.exitRet ∧ e = .exitReturn s.curTask := by
    rw [he]
    unfold returnOf
    rcases hsusp with ⟨h1, -⟩ | h1 | h1
    · exact Or.inl ⟨h1, if_pos h1⟩
    · refine Or.inr (Or.inl ⟨h1, ?_⟩)
      rw [h1, if_neg c.fork_ne_switch.symm, if_pos rfl]
    · refine Or.inr (Or.inr ⟨h1, ?_⟩)
      rw [h1, if_neg c.fork_ne_exit.symm, if_neg c.switch_ne_exit.symm]
  have hnone : e.issued = none ∧ e.call = none ∧ e.parentReturn = none ∧
      (∀ p ctx, e ≠ .record p ctx) ∧ (∀ p ctx, e ≠ .resume p ctx) ∧ ∀ a p n, e ≠ .forked a p n := by
    rcases hcases with ⟨-, h1⟩ | ⟨-, h1⟩ | ⟨-, h1⟩ <;> rw [h1] <;>
      simp [Event.issued, Event.call, Event.parentReturn]
  obtain ⟨hi, hcall, hpr, hnrec, hnres, hnf⟩ := hnone
  have hctx (p : ℕ) : s'.ctx p = s.ctx p := by rw [Tasks.ctx, hl.pcbs, Tasks.ctx]
  have hnb (p : ℕ) : Newborn (tr ++ [e]) p ↔ Newborn tr p :=
    newborn_append (by simp [(hnf _ _ _).symm]) (by simp [(hnres _ _).symm])
  refine ⟨hl.inv, ⟨?_, ?_, ?_, ?_, ?_⟩, ?_, fun p hp => ?_, fun p hp hne => ?_,
    fun hc => absurd hl.control hc, fun _ => ⟨?_, fun l p ctx hl => ?_⟩⟩
  · simpa [List.filterMap_cons, hi] using h.history.pids
  · simpa [List.filterMap_cons, hcall, hpr] using h.history.parent
  · refine each_snoc.mpr ⟨h.history.child, fun p hp => ?_⟩
    rcases hcases with ⟨h1, h2⟩ | ⟨-, h2⟩ | ⟨-, h2⟩ <;> rw [h2] at hp
    · obtain rfl : s.curTask = p := by simpa using hp
      exact ⟨tr', _, htr, hkind.mp h1⟩
    · simp at hp
    · simp at hp
  · exact each_snoc.mpr ⟨h.history.resumed, fun p ctx hp => absurd hp (hnres p ctx)⟩
  · refine each_snoc.mpr ⟨h.history.landed, fun l' p ctx hl' => ?_⟩
    rw [htr] at hl'
    obtain ⟨rfl, h2⟩ := List.append_inj' hl' rfl
    obtain ⟨rfl, rfl⟩ : s.curTask = p ∧ s.ctx s.curTask = ctx := by simpa using h2
    rw [← hkind]
    rcases hcases with ⟨h1, h2⟩ | ⟨h1, h2⟩ | ⟨h1, h2⟩
    · exact ⟨fun _ => h2, fun hn => absurd h1 hn⟩
    · exact ⟨fun hf => absurd (h1.symm.trans hf) c.fork_ne_switch.symm, fun _ => Or.inl ⟨h1, h2⟩⟩
    · exact ⟨fun hf => absurd (h1.symm.trans hf) c.fork_ne_exit.symm, fun _ => Or.inr ⟨h1, h2⟩⟩
  · simpa [List.filterMap_cons, hi, hl.mem, hl.pcbs] using h.issued
  · rw [hl.mem]
    obtain ⟨ctx, hctx⟩ := hp
    refine h.known p ⟨ctx, ?_⟩
    simpa [(hnres p ctx).symm] using hctx
  · rw [hl.cur] at hne
    rw [lastRecord_of_ne hnrec, hnb, hctx, hl.pcbs]
    exact h.waiting p hp hne
  · rw [hnb, hl.cur]
    rintro ⟨-, hr⟩
    exact hr ⟨s.ctx s.curTask, by simp [htr]⟩
  · obtain ⟨-, h2⟩ := List.append_inj' hl rfl
    exact hnres p ctx (by simpa using h2)

lemma HInv.forked (h : s.HInv c tr q) (hrun : s.control = .running) {esp ebp dir new : ℕ}
    (hnew : new ∉ s.pcbMem) (hf : Forked c s q esp ebp dir new s') :
    s'.HInv c (tr ++ [.forked s.curTask new (s.pcbMem.length + 1),
      .record new ⟨c.forkRet, esp, ebp, dir⟩,
      .forkReturn s.curTask (s.pcbMem.length + 1)]) (q ++ [new]) := by
  set pid := s.pcbMem.length + 1 with hpid
  set child : Ctx := ⟨c.forkRet, esp, ebp, dir⟩ with hchild
  obtain ⟨hcur, hlast⟩ := h.between hrun
  have hsplit : tr ++ [Event.forked s.curTask new pid, .record new child,
      .forkReturn s.curTask pid] = tr ++ [Event.forked s.curTask new pid] ++
        [.record new child, .forkReturn s.curTask pid] := by simp
  have hne {p : ℕ} (hp : p ∈ q) : p ≠ new := fun e => hnew (e ▸ h.mem p hp)
  have hissued : 1 :: (tr ++ [Event.forked s.curTask new pid, .record new child,
      .forkReturn s.curTask pid]).filterMap Event.issued =
        s'.pcbMem.map fun p => (s'.pcbs p).pid := by
    have hold : s.pcbMem.map (fun p => (s'.pcbs p).pid) = s.pcbMem.map fun p => (s.pcbs p).pid :=
      List.map_congr_left fun p hp => (hf.old p hp).2
    rw [hf.mem, List.map_append, hold, ← h.issued]
    simp [List.filterMap_cons, Event.issued, hf.pid, hpid]
  have hlastOf : tr ++ [Event.forked s.curTask new pid, .record new child,
      .forkReturn s.curTask pid] = tr ++ [Event.forked s.curTask new pid] ++
        [.record new child] ++ [.forkReturn s.curTask pid] := by simp
  have hrecord {p : ℕ} : lastRecord (tr ++ [Event.forked s.curTask new pid, .record new child,
      .forkReturn s.curTask pid]) p = if new = p then some child else lastRecord tr p := by
    rw [hlastOf, lastRecord_of_ne (by simp), lastRecord_record, lastRecord_of_ne (by simp)]
  refine ⟨hf.inv, ⟨?_, ?_, ?_, ?_, ?_⟩, hissued, fun p hp => ?_, fun p hp hpc => ?_,
    fun hc => absurd hf.control hc, fun _ => ⟨?_, fun l p ctx hl => ?_⟩⟩
  · rw [hissued, hf.inv.pids]
    exact List.nodup_range'
  · simpa [List.filterMap_cons, Event.parentReturn, Event.call, hpid] using h.history.parent
  · rw [hsplit, each_append_two, each_snoc]
    refine ⟨⟨h.history.child, fun p hp => by simp at hp⟩, fun p hp => by simp at hp, fun p hp => ?_⟩
    simp [hpid] at hp
  · rw [hsplit, each_append_two, each_snoc]
    exact ⟨⟨h.history.resumed, fun p ctx hp => by simp at hp⟩, fun p ctx hp => by simp at hp,
      fun p ctx hp => by simp at hp⟩
  · rw [hsplit, each_append_two, each_snoc]
    refine ⟨⟨h.history.landed, fun l' p ctx he => absurd he (hlast l' p ctx)⟩,
      fun l' p ctx he => ?_, fun l' p ctx he => ?_⟩
    · have := (List.append_inj' he rfl).2
      simp at this
    · have := (List.append_inj' he rfl).2
      simp at this
  · rw [hf.mem]
    obtain ⟨ctx, hctx⟩ := hp
    exact List.mem_append_left _ (h.known p ⟨ctx, by simpa using hctx⟩)
  · rw [hrecord]
    rw [hf.cur] at hpc
    by_cases hpn : p = new
    · subst hpn
      rw [if_pos rfl, hf.ctx]
      refine ⟨rfl, iff_of_true (congrArg Ctx.eip hf.ctx) ⟨⟨s.curTask, pid, by simp⟩, ?_⟩⟩
      rintro ⟨ctx, hctx⟩
      exact hnew (h.known p ⟨ctx, by simpa using hctx⟩)
    · have hpq : p ∈ q := by simpa [hpn] using hp
      have hc := (hf.old p (h.mem p hpq)).1
      rw [if_neg (Ne.symm hpn), hc, newborn_append (by simp [hpn]) (by simp),
        show (s'.pcbs p).eip = (s.pcbs p).eip from congrArg Ctx.eip hc]
      exact h.waiting p hpq hpc
  · rw [hf.cur, newborn_append (by simp [hne h.cur]) (by simp)]
    exact hcur
  · rw [hlastOf] at hl
    have := (List.append_inj' hl rfl).2
    simp at this

theorem HInv.step {a : Op × List Event} (h : s.HInv c tr q) (hs : Step c s a s') :
    ∃ q', s'.HInv c (tr ++ a.2) q' := by
  obtain ⟨o, evs⟩ := a
  rcases Step.cases h.toInv hs with ⟨esp, ebp, dir, new, -, hrun, hnew, rfl, hf⟩ |
    ⟨esp, ebp, l, r, -, hrun, -, rfl, hsw⟩ |
    ⟨pid, esp, ebp, l, t, p, r, -, hrun, rfl, -, rfl, hsw⟩ | ⟨-, hland, rfl, hl⟩
  · exact ⟨_, h.forked hrun hnew hf⟩
  · exact ⟨_, h.switched hrun hsw (List.Subset.refl q) c.fork_ne_switch.symm⟩
  · have hsub : l ++ t :: r ⊆ l ++ t :: p :: r := by
      intro x hx
      simp only [List.mem_append, List.mem_cons] at hx ⊢
      tauto
    exact ⟨_, h.switched hrun hsw hsub c.fork_ne_exit.symm⟩
  · exact ⟨_, h.landed hland hl⟩

@[simp] lemma resumed_returnOf {eip p : ℕ} :
    [returnOf c eip p].filterMap Event.resumed = [] := by
  unfold returnOf
  split_ifs <;> rfl

lemma Step.curTask {a : Op × List Event} (h : s.Inv c q) (hs : Step c s a s') :
    s'.curTask = (a.2.filterMap Event.resumed).getLastD s.curTask := by
  obtain ⟨o, evs⟩ := a
  rcases Step.cases h hs with ⟨_, _, _, _, -, -, -, rfl, hf⟩ | ⟨_, _, _, _, -, -, -, rfl, hsw⟩ |
    ⟨_, _, _, _, _, _, _, -, -, -, -, rfl, hsw⟩ | ⟨-, -, rfl, hl⟩
  · rw [hf.cur]
    rfl
  · rw [hsw.cur]
    rfl
  · rw [hsw.cur]
    rfl
  · rw [hl.cur, resumed_returnOf]
    rfl

end Steps

section Run

variable {c : Code} {s s₀ : Tasks} {ls : List (Op × List Event)} {p : ℕ}

lemma run_hinv (h0 : 0 < p) (htop : p < 2 ^ 32) (hr : Run (Step c) (initMultitask s₀ p) ls s) :
    ∃ q, s.HInv c (events ls) q := by
  refine hr.inv (I := fun ls s => ∃ q, s.HInv c (events ls) q) ⟨_, HInv.init s₀ h0 htop⟩ ?_
  rintro ls s a s' ⟨q, h⟩ hs
  rw [events, List.flatMap_append, List.flatMap_singleton]
  exact h.step hs

/-- **Returns and resumptions.** In every run from `init_multitask`, `fork` returns once in its
caller with the pid of the child, and at most once in the child with 0, when the child is first
resumed; pids are distinct; the current task is the last one resumed, at the context last recorded
for it; and the code behind a resumption returns with nothing saved and nothing switched. -/
theorem returns_and_resumptions (h0 : 0 < p) (htop : p < 2 ^ 32)
    (hr : Run (Step c) (initMultitask s₀ p) ls s) :
    History c (events ls) ∧
      s.curTask = ((events ls).filterMap Event.resumed).getLastD p ∧
      (s.control = .running ∨ ∃ ctx, lastRecord (events ls) s.curTask = some ctx ∧
        s.control = .landing ctx.eip RESUMED ctx.esp ctx.ebp ∧ s.curVmPageDir = ctx.pageDir) ∧
      (s.control ≠ .running → (s.land c).1.control = .running ∧ (s.land c).1.pcbs = s.pcbs ∧
        (s.land c).1.curTask = s.curTask ∧ (s.land c).1.headTask = s.headTask ∧
        (s.land c).1.curVmPageDir = s.curVmPageDir ∧ (s.land c).2.length = 1) ∧
      ∀ esp ebp dir new, s.control = .running → dir ∉ s.dirMem → new ∉ s.pcbMem → 0 < new →
        new < 2 ^ 32 → ∃ s' evs, Step c s (.fork esp ebp dir new, evs) s' := by
  obtain ⟨q, h⟩ := run_hinv h0 htop hr
  refine ⟨h.history, ?_, ?_, fun hland => ?_, fun esp ebp dir new hrun hdir hnew hn0 hntop => ?_⟩
  · refine (hr.inv (I := fun ls s => (∃ q, s.Inv c q) ∧
      s.curTask = ((events ls).filterMap Event.resumed).getLastD p)
      ⟨⟨_, inv_initMultitask s₀ h0 htop⟩, rfl⟩ ?_).2
    rintro ls s a s' ⟨⟨q, hi⟩, hcur⟩ hs
    refine ⟨run_inv hi (.single hs), ?_⟩
    rw [Step.curTask hi hs, hcur, events, events, List.flatMap_append, List.flatMap_singleton,
      List.filterMap_append, getLastD_append]
  · rcases h.control with hrun | hland
    · exact Or.inl hrun
    · obtain ⟨tr', htr, hrec, -⟩ := h.landing (by simp [hland])
      refine Or.inr ⟨s.ctx s.curTask, ?_, hland, h.curDir⟩
      rw [htr, lastRecord_of_ne (by simp), hrec]
  · obtain ⟨hl, he⟩ := land_spec h.toInv hland
    exact ⟨hl.control, hl.pcbs, hl.cur, hl.head, hl.curDir, by rw [he]; rfl⟩
  · obtain ⟨s', hf, -⟩ := @fork_spec c s q esp ebp dir new h.toInv hdir hnew hn0 hntop
    exact ⟨s', _, .fork hrun hdir hnew hn0 hntop hf⟩

end Run

/-! ### A run -/

/-- A kernel with its return points at 1 MiB. -/
def someCode : Code where
  forkRet := 0x100010
  switchRet := 0x100020
  exitRet := 0x100030
  fork_ne_switch := by decide
  fork_ne_exit := by decide
  switch_ne_exit := by decide
  fork_text := by decide
  switch_text := by decide
  exit_text := by decide

/-- Zeroed memory. -/
def zeroed : Tasks where
  pcbs _ := ⟨0, 0, 0, 0, .uninit, 0, 0, 0⟩
  curTask := 0
  headTask := 0
  nextPid := 1
  curVmPageDir := 0xC0081000
  stack _ _ := ⟨0, 0, 0⟩
  control := .running
  interrupts := false
  console := []
  pcbMem := []
  dirMem := []

lemma run_fork : ∃ s, Run (Step someCode) (initMultitask zeroed 0xC0090000)
    [(.fork 0xDFFFFF00 0xDFFFFF20 0xC0092000 0xC0095000,
      [.forked 0xC0090000 0xC0095000 2,
        .record 0xC0095000 ⟨0x100010, 0xDFFFFF00, 0xDFFFFF20, 0xC0092000⟩,
        .forkReturn 0xC0090000 2])] s ∧
    Forked someCode (initMultitask zeroed 0xC0090000) [0xC0090000] 0xDFFFFF00 0xDFFFFF20 0xC0092000
      0xC0095000 s := by
  have h : (initMultitask zeroed 0xC0090000).Inv someCode [0xC0090000] :=
    inv_initMultitask zeroed (by decide) (by decide)
  have hdir : 0xC0092000 ∉ (initMultitask zeroed 0xC0090000).dirMem := by
    simp [initMultitask, zeroed]
  have hnew : 0xC0095000 ∉ (initMultitask zeroed 0xC0090000).pcbMem := by simp [initMultitask]
  obtain ⟨s, hf, hforked⟩ := @fork_spec _ _ _ 0xDFFFFF00 0xDFFFFF20 0xC0092000 0xC0095000 h hdir
    hnew (by decide) (by decide)
  exact ⟨s, .single (.fork rfl hdir hnew (by decide) (by decide) hf), hforked⟩

/-- The events of that `fork`, a `task_switch`, and the return in the child. -/
def forkAndSwitch : List Event :=
  [.forked 0xC0090000 0xC0095000 2,
    .record 0xC0095000 ⟨0x100010, 0xDFFFFF00, 0xDFFFFF20, 0xC0092000⟩,
    .forkReturn 0xC0090000 2,
    .record 0xC0090000 ⟨0x100020, 0xDFFFFF40, 0xDFFFFF60, 0xC0081000⟩,
    .resume 0xC0095000 ⟨0x100010, 0xDFFFFF00, 0xDFFFFF20, 0xC0092000⟩,
    .forkReturn 0xC0095000 0]

lemma run_forkAndSwitch : ∃ s ls, Run (Step someCode) (initMultitask zeroed 0xC0090000) ls s ∧
    events ls = forkAndSwitch := by
  obtain ⟨s₁, hr, hforked⟩ := run_fork
  have hcur : s₁.curTask = 0xC0090000 := hforked.cur
  have hdir : (s₁.pcbs 0xC0090000).pageDir = 0xC0081000 := by
    have hold := (hforked.old 0xC0090000 (by simp [initMultitask])).1
    have hdir₀ : ((initMultitask zeroed 0xC0090000).pcbs 0xC0090000).pageDir = 0xC0081000 := by
      simp [initMultitask, zeroed]
    exact (congrArg Ctx.pageDir hold).trans hdir₀
  obtain ⟨s₂, ht, hsw⟩ := @taskSwitch_spec _ _ _ 0xDFFFFF40 0xDFFFFF60 [] [0xC0095000]
    hforked.inv (by rw [hcur]; rfl)
  have hctx : s₂.ctx 0xC0095000 = ⟨0x100010, 0xDFFFFF00, 0xDFFFFF20, 0xC0092000⟩ :=
    (hsw.ctx 0xC0095000 (by rw [hcur]; decide)).trans hforked.ctx
  have hcur₂ : s₂.curTask = 0xC0095000 := hsw.cur
  have heip : (s₂.pcbs 0xC0095000).eip = 0x100010 := congrArg Ctx.eip hctx
  have he := (land_spec hsw.inv hsw.control).2
  have hstep := @Step.taskSwitch someCode s₁ 0xDFFFFF40 0xDFFFFF60 hforked.control
  rw [ht] at hstep
  refine ⟨_, _, (hr.snoc hstep).snoc (.land hsw.control), ?_⟩
  simp only [events, List.cons_append, List.nil_append, List.flatMap_cons, List.flatMap_nil, he,
    hcur₂, heip, hcur, hdir, List.headD_cons, hctx]
  rfl

theorem returns_and_resumptions_fork : ∃ s ls,
    Run (Step someCode) (initMultitask zeroed 0xC0090000) ls s ∧ events ls = forkAndSwitch ∧
      History someCode forkAndSwitch ∧ s.curTask = 0xC0095000 := by
  obtain ⟨s, ls, hr, he⟩ := run_forkAndSwitch
  obtain ⟨hh, hcur, -⟩ := returns_and_resumptions (by decide) (by decide) hr
  rw [he] at hh hcur
  exact ⟨s, ls, hr, he, hh, hcur⟩

end Tasks

end OsImplement.Task
