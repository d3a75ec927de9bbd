import OsImplement.Task.Returns
import Mathlib.Data.List.Basic

/-!
`task_exit_pid`, in runs.

The task that is taken out of the queue stays out: only `fork` puts tasks in, at memory that was
never handed out before.
-/

namespace OsImplement.Task

open Lib.Step Lib.Linked

namespace Tasks

section Exit

variable {c : Code} {s s' s₀ : Tasks} {q : List ℕ} {p p₀ esp ebp : ℕ}
  {ls : List (Op × List Event)}

/-- A task outside the queue. -/
structure Gone (c : Code) (p pid : ℕ) (s : Tasks) (q : List ℕ) : Prop extends s.Inv c q where
  known : p ∈ s.pcbMem
  out : p ∉ q
  pid : (s.pcbs p).pid = pid

lemma Gone.step {pid : ℕ} {a : Op × List Event} (h : Gone c p pid s q) (hs : Step c s a s') :
    ∃ q', Gone c p pid s' q' := by
  obtain ⟨o, evs⟩ := a
  rcases Step.cases h.toInv hs with ⟨_, _, _, new, -, -, hnew, -, hf⟩ | ⟨_, _, l, r, -, -, hq, -, hsw⟩ |
    ⟨_, _, _, l, t, x, r, -, -, hq, -, -, hsw⟩ | ⟨-, -, -, hl⟩
  · refine ⟨_, hf.inv, ?_, ?_, (hf.old p h.known).2.trans h.pid⟩
    · rw [hf.mem]
      exact List.mem_append_left _ h.known
    · intro hp
      rcases List.mem_append.mp hp with hp | hp
      · exact h.out hp
      · exact hnew (List.mem_singleton.mp hp ▸ h.known)
  · exact ⟨_, hsw.inv, hsw.mem ▸ h.known, h.out, (hsw.pid p).trans h.pid⟩
  · refine ⟨_, hsw.inv, hsw.mem ▸ h.known, fun hp => h.out ?_, (hsw.pid p).trans h.pid⟩
    rw [hq]
    simp only [List.mem_append, List.mem_cons] at hp ⊢
    tauto
  · refine ⟨_, hl.inv, hl.mem ▸ h.known, h.out, ?_⟩
    rw [hl.pcbs]
    exact h.pid

lemma Gone.run {pid : ℕ} (h : Gone c p pid s q) (hr : Run (Step c) s ls s') :
    ∃ q', Gone c p pid s' q' := by
  refine hr.inv (I := fun _ t => ∃ q', Gone c p pid t q') ⟨q, h⟩ fun _ t a t' ht hs => ?_
  obtain ⟨q', ht⟩ := ht
  exact ht.step hs

lemma Gone.pid_ne {pid : ℕ} (h : Gone c p pid s q) : (s.pcbs s.curTask).pid ≠ pid := by
  intro he
  have hcur := h.pid_inj (h.mem _ h.cur) h.known (he.trans h.pid.symm)
  exact h.out (hcur ▸ h.cur)

/-- **`task_exit_pid`.** In every reachable state, and for every queued task `p` other than the
head, a call with the pid of `p` takes `p` out of the queue and keeps the others in order; the
current task becomes one that is still queued, at the context last recorded for it; the caller is
saved if it survives, and nobody else is touched; and from then on no task with that pid is queued
or becomes current. -/
theorem taskExitPid_exits (h0 : 0 < p₀) (htop : p₀ < 2 ^ 32)
    (hr : Run (Step c) (initMultitask s₀ p₀) ls s) (hrun : s.control = .running)
    (hq : Chain s.next s.headTask q) (hp : p ∈ q) (hne : p ≠ s.headTask) :
    ∃ s' evs, s.taskExitPid c (s.pcbs p).pid esp ebp = some (s', evs) ∧
      Chain s'.next s'.headTask (q.erase p) ∧ s'.headTask = s.headTask ∧
      s'.curTask ∈ q.erase p ∧
      (∃ ctx, lastRecord (events ls ++ evs) s'.curTask = some ctx ∧ s'.Suspended c s'.curTask ∧
        s'.control = .landing ctx.eip RESUMED ctx.esp ctx.ebp ∧ s'.curVmPageDir = ctx.pageDir) ∧
      (s.curTask ≠ p → s.curTask ∈ q.erase p ∧
        s'.ctx s.curTask = ⟨c.exitRet, esp, ebp, (s.pcbs s.curTask).pageDir⟩) ∧
      (∀ x ≠ s.curTask, s'.ctx x = s.ctx x) ∧
      ∀ ls' s'', Run (Step c) s' ls' s'' →
        (s''.pcbs s''.curTask).pid ≠ (s.pcbs p).pid ∧
        ∀ q'', Chain s''.next s''.headTask q'' → ∀ x ∈ q'', (s''.pcbs x).pid ≠ (s.pcbs p).pid := by
  obtain ⟨q', h⟩ := run_hinv h0 htop hr
  obtain rfl := h.chain.unique hq
  obtain ⟨l, t, r, hsplit⟩ := h.split hp hne
  obtain ⟨s', hexit, hsw⟩ := @taskExitPid_spec c s q' p esp ebp l r t _ h.toInv hsplit rfl
  have hnd := hsplit ▸ h.nodup
  rw [show l ++ t :: p :: r = (l ++ [t]) ++ p :: r by simp, List.nodup_middle, List.nodup_cons,
    List.mem_append, not_or] at hnd
  have herase : q'.erase p = l ++ t :: r := by
    rw [hsplit, show l ++ t :: p :: r = (l ++ [t]) ++ p :: r by simp,
      List.erase_append_right _ hnd.1.1, List.erase_cons_head]
    simp
  have hout : p ∉ l ++ t :: r := by
    intro hx
    simp only [List.mem_append, List.mem_cons] at hx
    rcases hx with hx | rfl | hx
    · exact hnd.1.1 (by simp [hx])
    · exact hnd.1.1 (by simp)
    · exact hnd.1.2 hx
  have hsub : l ++ t :: r ⊆ q' := by
    intro x hx
    rw [hsplit]
    simp only [List.mem_append, List.mem_cons] at hx ⊢
    tauto
  have hafter := h.switched hrun hsw hsub c.fork_ne_exit.symm
  have hgone : Gone c p (s.pcbs p).pid s' (l ++ t :: r) :=
    ⟨hsw.inv, hsw.mem ▸ h.mem p hp, hout, hsw.pid p⟩
  refine ⟨s', _, hexit, herase ▸ hsw.inv.chain, hsw.head, herase ▸ hsw.inv.cur, ?_, fun hcp => ?_,
    hsw.ctx, fun ls' s'' hr' => ?_⟩
  · obtain ⟨tr', htr, hrec, -⟩ := hafter.landing hsw.control
    refine ⟨s'.ctx s'.curTask, ?_, hsw.inv.suspended _ hsw.inv.cur (Or.inr hsw.control),
      hsw.inv.control.resolve_left hsw.control, hsw.inv.curDir⟩
    rw [htr, lastRecord_of_ne (by simp), hrec]
  · exact ⟨(List.mem_erase_of_ne hcp).mpr h.cur, hsw.saved⟩
  · obtain ⟨q'', hgone'⟩ := hgone.run hr'
    refine ⟨hgone'.pid_ne, fun q₃ hq₃ x hx he => ?_⟩
    obtain rfl := hgone'.chain.unique hq₃
    have hxp := hgone'.pid_inj (hgone'.mem x hx) hgone'.known (he.trans hgone'.pid.symm)
    exact hgone'.out (hxp ▸ hx)

end Exit

theorem taskExitPid_exits_child : ∃ (s s' : Tasks) (evs : List Event),
    s.taskExitPid someCode 2 0xDFFFFF40 0xDFFFFF60 = some (s', evs) ∧
      Chain s.next s.headTask [0xC0090000, 0xC0095000] ∧
      Chain s'.next s'.headTask [0xC0090000] ∧
      s'.ctx 0xC0090000 = ⟨0x100030, 0xDFFFFF40, 0xDFFFFF60, (s.pcbs s.curTask).pageDir⟩ := by
  obtain ⟨s, hr, hf⟩ := run_fork
  have hcur : s.curTask = 0xC0090000 := hf.cur
  have hhead : s.headTask = 0xC0090000 := hf.head
  have hpid : (s.pcbs 0xC0095000).pid = 2 := hf.pid
  obtain ⟨s', evs, hexit, hchain, -, -, -, hsaved, -⟩ :=
    @taskExitPid_exits someCode s zeroed _ 0xC0095000 0xC0090000 0xDFFFFF40 0xDFFFFF60 _
      (by decide) (by decide) hr hf.control hf.inv.chain (by simp) (by rw [hhead]; decide)
  rw [hpid] at hexit
  refine ⟨s, s', evs, hexit, hf.inv.chain, hchain, ?_⟩
  rw [hcur] at hsaved ⊢
  exact (hsaved (by decide)).2

end Tasks

end OsImplement.Task
