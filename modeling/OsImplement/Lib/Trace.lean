import Mathlib.Data.List.Induction

/-!
Finite histories. `Each P tr` says that every event of the history `tr` is right for what came
before it.
-/

namespace OsImplement.Lib.Trace

variable {ε : Type*} {P Q : List ε → ε → Prop} {tr l r : List ε} {e : ε}

/-- Every event `e` of the history, with `l` before it, meets `P l e`. -/
def Each (P : List ε → ε → Prop) (tr : List ε) : Prop := ∀ l e r, tr = l ++ e :: r → P l e

lemma each_nil : Each P [] := fun l e r h => by simp at h

theorem each_snoc : Each P (tr ++ [e]) ↔ Each P tr ∧ P tr e := by
  constructor
  · intro h
    exact ⟨fun l e' r he => h l e' (r ++ [e]) (by simp [he]), h tr e [] rfl⟩
  · rintro ⟨h, he⟩ l e' r hs
    induction r using List.reverseRecOn with
    | nil =>
      obtain ⟨rfl, h1⟩ := List.append_inj' hs rfl
      obtain rfl : e = e' := by simpa using h1
      exact he
    | append_singleton r x _ =>
      rw [← List.cons_append, ← List.append_assoc] at hs
      exact h l e' r (List.append_inj' hs rfl).1

lemma each_append_two {e' : ε} : Each P (tr ++ [e, e']) ↔ Each P tr ∧ P tr e ∧ P (tr ++ [e]) e' := by
  rw [show tr ++ [e, e'] = tr ++ [e] ++ [e'] by simp, each_snoc, each_snoc, and_assoc]

lemma Each.mono (h : Each P tr) (hPQ : ∀ l e, P l e → Q l e) : Each Q tr :=
  fun l e r he => hPQ l e (h l e r he)

lemma getLastD_append {a : ε} : (l ++ r).getLastD a = r.getLastD (l.getLastD a) := by
  cases r using List.reverseRecOn with
  | nil => simp
  | append_singleton r x => rw [← List.append_assoc, List.getLastD_concat, List.getLastD_concat]

end OsImplement.Lib.Trace
