import OsImplement.Task.Returns
import OsImplement.Lib.Cursor

/-!
Round robin.

`cur_task` is a cursor on the queue: `task_switch` moves it one task on, and `fork` puts a task
behind the last one. So between two moments at which the same task becomes current the cursor goes
round once.
-/

namespace OsImplement.Task

open Lib.Step Lib.Linked Lib.Cursor

lemma ForkedIn.mono {tr tr' : List Event} {p : ℕ} (h : ForkedIn tr p) (hsub : tr ⊆ tr') :
    ForkedIn tr' p := by
  obtain ⟨parent, pid, h⟩ := h
  exact ⟨parent, pid, hsub h⟩

namespace Tasks

section Round

variable {c : Code} {s s' s₀ s₁ s₂ : Tasks} {q l r v y : List ℕ} {A p : ℕ}
  {ls ls₁ ls₂ : List (Op × List Event)}

/-- A step that is no `task_exit_pid`. -/
def NoExit (a : Op × List Event) : Prop := ∀ pid esp ebp, a.1 ≠ .taskExitPid pid esp ebp

/-- The tasks that become current, in order. -/
def resumedTasks (ls : List (Op × List Event)) : List ℕ := (events ls).filterMap Event.resumed

lemma resumedTasks_snoc {a : Op × List Event} :
    resumedTasks (ls ++ [a]) = resumedTasks ls ++ a.2.filterMap Event.resumed := by
  rw [resumedTasks, events, List.flatMap_append, List.flatMap_singleton, List.filterMap_append]
  rfl

/-- One step of a round that started at `A`, with the queue `l ++ A :: r`. -/
lemma Step.round {a : Op × List Event} (h : s.Inv c q) (hsweep : Sweep A l r v q s.curTask)
    (hs : Step c s a s') (hexit : NoExit a) :
    (a.2.filterMap Event.resumed = [] ∧ ∃ q', s'.Inv c q' ∧ Sweep A l r v q' s'.curTask ∧
      ∀ x ∈ q', x ∈ q ∨ ForkedIn a.2 x) ∨
    ∃ n, a.2.filterMap Event.resumed = [n] ∧ s'.Inv c q ∧
      (n ≠ A ∧ Sweep A l r (v ++ [n]) q s'.curTask ∨
        n = A ∧ ∃ new later, q = l ++ A :: (r ++ new ++ later) ∧ v = r ++ new ++ l) := by
  obtain ⟨o, evs⟩ := a
  rcases Step.cases h hs with ⟨esp, ebp, dir, new, -, -, -, rfl, hf⟩ |
    ⟨esp, ebp, a, b, -, -, hq, rfl, hsw⟩ | ⟨pid, esp, ebp, _, _, _, _, rfl, -⟩ | ⟨-, -, rfl, hl⟩
  · refine Or.inl ⟨rfl, _, hf.inv, hf.cur ▸ hsweep.grow new, fun x hx => ?_⟩
    rcases List.mem_append.mp hx with hx | hx
    · exact Or.inl hx
    · obtain rfl : x = new := by simpa using hx
      exact Or.inr ⟨s.curTask, s.pcbMem.length + 1, by simp⟩
  · refine Or.inr ⟨b.headD s.headTask, rfl, hsw.inv, ?_⟩
    rw [hsw.cur]
    exact hsweep.turn h.nodup hq h.eq_head
  · exact absurd rfl (hexit pid esp ebp)
  · exact Or.inl ⟨resumed_returnOf, q, hl.inv, hl.cur ▸ hsweep, fun x hx => Or.inl hx⟩

lemma not_mem_of_round {new later : List ℕ} {x : ℕ}
    (hn : (l ++ A :: (r ++ new ++ later)).Nodup) (hx : x ∈ new) : x ∉ l ++ A :: r := by
  intro hx'
  rw [List.append_assoc, ← List.cons_append, ← List.append_assoc] at hn
  exact (List.nodup_append.mp hn).2.2 x hx' x (by simp [hx]) rfl

lemma round_run (h : s₁.Inv c (l ++ A :: r)) (hcur : s₁.curTask = A)
    (hr : Run (Step c) s₁ ls s) (hexit : ∀ a ∈ ls, NoExit a) :
    (A ∉ resumedTasks ls → ∃ q, s.Inv c q ∧ Sweep A l r (resumedTasks ls) q s.curTask ∧
      ∀ x ∈ q, x ∈ l ++ A :: r ∨ ForkedIn (events ls) x) ∧
    ((∃ q, s.Inv c q) ∧ ∀ y, resumedTasks ls = y ++ [A] → A ∉ y →
      ∃ new later, (l ++ A :: (r ++ new ++ later)).Nodup ∧ y = r ++ new ++ l ∧
        ∀ x ∈ new, ForkedIn (events ls) x) := by
  revert hexit
  refine hr.inv (I := fun ls s => (∀ a ∈ ls, NoExit a) →
    (A ∉ resumedTasks ls → ∃ q, s.Inv c q ∧ Sweep A l r (resumedTasks ls) q s.curTask ∧
      ∀ x ∈ q, x ∈ l ++ A :: r ∨ ForkedIn (events ls) x) ∧
    ((∃ q, s.Inv c q) ∧ ∀ y, resumedTasks ls = y ++ [A] → A ∉ y →
      ∃ new later, (l ++ A :: (r ++ new ++ later)).Nodup ∧ y = r ++ new ++ l ∧
        ∀ x ∈ new, ForkedIn (events ls) x)) ?_ ?_
  · intro _
    refine ⟨fun _ => ⟨_, h, hcur ▸ Sweep.start, fun x hx => Or.inl hx⟩, ⟨_, h⟩, fun y hy => ?_⟩
    simp [resumedTasks, events] at hy
  · intro ls s a s' ih hs hexit
    obtain ⟨hround, ⟨q₀, hq₀⟩, hdone⟩ := ih fun b hb => hexit b (by simp [hb])
    have hev : events ls ⊆ events (ls ++ [a]) := by
      rw [events, events, List.flatMap_append]
      exact List.subset_append_left _ _
    have hev' : a.2 ⊆ events (ls ++ [a]) := by
      rw [events, List.flatMap_append, List.flatMap_singleton]
      exact List.subset_append_right _ _
    rw [resumedTasks_snoc]
    by_cases hA : A ∈ resumedTasks ls
    · -- the round is over
      refine ⟨fun hn => absurd (List.mem_append_left _ hA) hn, run_inv hq₀ (.single hs),
        fun y hy hAy => ?_⟩
      have hnil : a.2.filterMap Event.resumed = [] := by
        rcases List.eq_nil_or_concat (a.2.filterMap Event.resumed) with h1 | ⟨l', x, h1⟩
        · exact h1
        · rw [h1, List.concat_eq_append, ← List.append_assoc] at hy
          obtain ⟨rfl, -⟩ := List.append_inj' hy rfl
          exact absurd (List.mem_append_left _ hA) hAy
      rw [hnil, List.append_nil] at hy
      obtain ⟨new, later, hnodup, hy', hnew⟩ := hdone y hy hAy
      exact ⟨new, later, hnodup, hy', fun x hx => (hnew x hx).mono hev⟩
    · obtain ⟨q, hq, hsweep, hforked⟩ := hround hA
      rcases Step.round hq hsweep hs (hexit a (by simp)) with ⟨hnil, q', hq', hsweep', hnew⟩ |
        ⟨n, hn, hq', hturn⟩
      · rw [hnil, List.append_nil]
        refine ⟨fun _ => ⟨q', hq', hsweep', fun x hx => ?_⟩, ⟨q', hq'⟩, fun y hy => ?_⟩
        · rcases hnew x hx with hx | hx
          · exact (hforked x hx).imp id fun hx => hx.mono hev
          · exact Or.inr (hx.mono hev')
        · exact absurd (by rw [hy]; simp) hA
      · rw [hn]
        rcases hturn with ⟨hnA, hsweep'⟩ | ⟨rfl, new, later, hq'', hv⟩
        · refine ⟨fun _ => ⟨q, hq', hsweep', fun x hx => (hforked x hx).imp id fun hx =>
            hx.mono hev⟩, ⟨q, hq'⟩, fun y hy => ?_⟩
          exact absurd (List.cons.inj (List.append_inj' hy rfl).2).1 hnA
        · refine ⟨fun hnot => absurd (by simp) hnot, ⟨q, hq'⟩, fun y hy _ => ?_⟩
          obtain ⟨rfl, -⟩ := List.append_inj' hy rfl
          refine ⟨new, later, hq'' ▸ hq.nodup, hv, fun x hx => ?_⟩
          have hold : x ∉ l ++ n :: r := not_mem_of_round (hq'' ▸ hq.nodup) hx
          exact ((hforked x (by simp [hq'', hx])).resolve_left hold).mono hev

/-- **Round robin.** From a reachable state in which `A` is current, with the queue `l ++ A :: r`,
take a run without exits in which `A` is the last task to become current and does so once. The
others of the queue become current in between, once each and in the order of the queue, and so do
the tasks that have joined before the end of the queue was reached. -/
theorem round_robin (h0 : 0 < p) (htop : p < 2 ^ 32)
    (hr₁ : Run (Step c) (initMultitask s₀ p) ls₁ s₁) (hcur : s₁.curTask = A)
    (hr₂ : Run (Step c) s₁ ls₂ s₂) (hexit : ∀ a ∈ ls₂, NoExit a)
    (hy : resumedTasks ls₂ = y ++ [A]) (hA : A ∉ y) :
    ∃ l r new, Chain s₁.next s₁.headTask (l ++ A :: r) ∧ (l ++ A :: r).Nodup ∧
      y = r ++ new ++ l ∧ y.Nodup ∧ ∀ x ∈ new, x ∉ l ++ A :: r ∧ ForkedIn (events ls₂) x := by
  obtain ⟨q, h⟩ := run_inv (inv_initMultitask s₀ h0 htop) hr₁
  obtain ⟨l, r, rfl⟩ := List.append_of_mem (hcur ▸ h.cur)
  obtain ⟨-, -, hdone⟩ := round_run h hcur hr₂ hexit
  obtain ⟨new, later, hnodup, hy', hnew⟩ := hdone y hy hA
  have hold : (l ++ A :: r).Nodup := by
    rw [List.append_assoc, ← List.cons_append, ← List.append_assoc] at hnodup
    exact (List.nodup_append.mp hnodup).1
  have hround : (l ++ (r ++ new)).Nodup := by
    refine hnodup.sublist ((List.Sublist.refl l).append (List.Sublist.cons A ?_))
    exact List.sublist_append_left _ _
  refine ⟨l, r, new, h.chain, hold, hy', ?_, fun x hx => ⟨not_mem_of_round hnodup hx, hnew x hx⟩⟩
  rw [hy']
  exact List.perm_append_comm.nodup_iff.mp hround

end Round

theorem round_robin_two : ∃ ls₁ ls₂ s₁ s₂,
    Run (Step someCode) (initMultitask zeroed 0xC0090000) ls₁ s₁ ∧ Run (Step someCode) s₁ ls₂ s₂ ∧
      resumedTasks ls₂ = [0xC0095000, 0xC0090000] ∧
      ∃ l r new, Chain s₁.next s₁.headTask (l ++ 0xC0090000 :: r) ∧
        [0xC0095000] = r ++ new ++ l := by
  obtain ⟨s₁, hr₁, hf⟩ := run_fork
  have hcur : s₁.curTask = 0xC0090000 := hf.cur
  have hhead : s₁.headTask = 0xC0090000 := hf.head
  obtain ⟨s₂, ht₂, hsw₂⟩ := @taskSwitch_spec _ _ _ 0xDFFFFF40 0xDFFFFF60 [] [0xC0095000]
    hf.inv (by rw [hcur]; rfl)
  have hcur₂ : s₂.curTask = 0xC0095000 := hsw₂.cur
  obtain ⟨hl, he⟩ := land_spec hsw₂.inv hsw₂.control
  set s₃ := (s₂.land someCode).1 with hs₃
  have hcur₃ : s₃.curTask = 0xC0095000 := hl.cur.trans hcur₂
  have hhead₃ : s₃.headTask = 0xC0090000 := hl.head.trans (hsw₂.head.trans hhead)
  obtain ⟨s₄, ht₄, hsw₄⟩ := @taskSwitch_spec _ _ _ 0xDFFFFF40 0xDFFFFF60 [0xC0090000] []
    hl.inv (by rw [hcur₃])
  have hstep₁ := @Step.taskSwitch someCode s₁ 0xDFFFFF40 0xDFFFFF60 hf.control
  have hstep₃ := @Step.taskSwitch someCode s₃ 0xDFFFFF40 0xDFFFFF60 hl.control
  rw [ht₂] at hstep₁
  rw [ht₄] at hstep₃
  obtain ⟨ls₂, hr₂, hexit, hy⟩ : ∃ ls₂, Run (Step someCode) s₁ ls₂ s₄ ∧ (∀ a ∈ ls₂, NoExit a) ∧
      resumedTasks ls₂ = [0xC0095000, 0xC0090000] := by
    refine ⟨_, ((Run.single hstep₁).snoc (.land hsw₂.control)).snoc hstep₃, by simp [NoExit], ?_⟩
    rw [resumedTasks_snoc, resumedTasks_snoc, he, resumed_returnOf]
    show [0xC0095000, s₃.headTask] = [0xC0095000, 0xC0090000]
    rw [hhead₃]
  obtain ⟨l, r, new, hq, -, hround, -⟩ := round_robin (y := [0xC0095000]) (by decide) (by decide)
    hr₁ hcur hr₂ hexit hy (by decide)
  exact ⟨_, _, s₁, s₄, hr₁, hr₂, hy, l, r, new, hq, hround⟩

end Tasks

end OsImplement.Task
