import Mathlib.Data.List.Nodup

/-!
A cursor that goes round a list, one place at a time and from the last place back to the first,
while the list grows at its end.

`Sweep A l r v q cur` follows it from the moment when it stood on `A` in `l ++ A :: r`: it has
visited `v` since, and now stands on `cur` in `q`.
-/

namespace OsImplement.Lib.Cursor

variable {α : Type*}

inductive Sweep (A : α) (l r : List α) : List α → List α → α → Prop
  /-- Between `A` and the end of the list; `new` is what the list has grown by. -/
  | ahead {v new rest : List α} (hv : r ++ new = v ++ rest) :
      Sweep A l r v (l ++ A :: (r ++ new)) (v.getLastD A)
  /-- Between the start of the list and `A`; what has joined `later` is not reached any more. -/
  | behind {new later l₁ l₂ : List α} {b : α} (hl : l = l₁ ++ b :: l₂) :
      Sweep A l r (r ++ new ++ (l₁ ++ [b])) (l ++ A :: (r ++ new ++ later)) b

variable {A cur head : α} {l r v q a b : List α}

lemma Sweep.start : Sweep A l r [] (l ++ A :: r) A := by
  have h : Sweep A l r [] (l ++ A :: (r ++ [])) A := .ahead (show r ++ [] = [] ++ r by simp)
  rwa [List.append_nil] at h

lemma Sweep.grow (h : Sweep A l r v q cur) (x : α) : Sweep A l r v (q ++ [x]) cur := by
  cases h with
  | @ahead _ new rest hv =>
    rw [show l ++ A :: (r ++ new) ++ [x] = l ++ A :: (r ++ (new ++ [x])) by simp]
    exact .ahead (show r ++ (new ++ [x]) = v ++ (rest ++ [x]) by
      rw [← List.append_assoc, hv, List.append_assoc])
  | @behind new later l₁ l₂ _ hl =>
    rw [show l ++ A :: (r ++ new ++ later) ++ [x] = l ++ A :: (r ++ new ++ (later ++ [x])) by simp]
    exact .behind hl

/-- Where the cursor stands in a list without repetitions is unique. -/
lemma split_unique {a' b' : List α} (hn : q.Nodup) (h : q = a ++ cur :: b)
    (h' : q = a' ++ cur :: b') : b = b' := by
  rw [h, List.nodup_middle, List.nodup_cons, List.mem_append, not_or] at hn
  exact ((List.append_cons_inj_of_notMem hn.1.1 hn.1.2).mp (h.symm.trans h')).2.2

/-- **The cursor moves on**: to a place not visited since `A`, or back to `A`, and then everything
between has been visited in order. -/
theorem Sweep.turn (h : Sweep A l r v q cur) (hn : q.Nodup) (hq : q = a ++ cur :: b)
    (hhead : ∃ t, q = head :: t) :
    b.headD head ≠ A ∧ Sweep A l r (v ++ [b.headD head]) q (b.headD head) ∨
      b.headD head = A ∧ ∃ new later, q = l ++ A :: (r ++ new ++ later) ∧ v = r ++ new ++ l := by
  obtain ⟨t, ht⟩ := hhead
  have hA := hn
  cases h with
  | @ahead _ new rest hv =>
    obtain ⟨a', ha'⟩ : ∃ a', l ++ A :: v = a' ++ [v.getLastD A] := by
      rcases List.eq_nil_or_concat v with rfl | ⟨v', x, rfl⟩
      · exact ⟨l, rfl⟩
      · exact ⟨l ++ A :: v', by rw [List.concat_eq_append, List.getLastD_concat]; simp⟩
    have hq' : l ++ A :: (r ++ new) = a' ++ v.getLastD A :: rest := by
      rw [hv, ← List.cons_append, ← List.append_assoc, ha', List.append_assoc]
      rfl
    obtain rfl := split_unique hn hq hq'
    rw [List.nodup_middle, List.nodup_cons] at hA
    cases b with
    | cons n rest =>
      -- `n` is the next place before the end
      have hnA : n ≠ A := fun e => hA.1 (by simp [hv, e])
      have hs : Sweep A l r (v ++ [n]) (l ++ A :: (r ++ new)) ((v ++ [n]).getLastD A) :=
        .ahead (show r ++ new = v ++ [n] ++ rest by rw [hv]; simp)
      rw [List.getLastD_concat] at hs
      exact Or.inl ⟨hnA, hs⟩
    | nil =>
      rw [List.append_nil] at hv
      cases l with
      | nil =>
        obtain rfl : A = head := (List.cons.inj ht).1
        exact Or.inr ⟨rfl, new, [], by simp, by rw [← hv]; simp⟩
      | cons n l =>
        obtain rfl : n = head := (List.cons.inj ht).1
        have hnA : n ≠ A := fun e => hA.1 (by simp [e])
        have hs : Sweep A (n :: l) r (r ++ new ++ ([] ++ [n])) (n :: l ++ A :: (r ++ new ++ [])) n :=
          .behind rfl
        rw [List.append_nil, hv] at hs
        rw [hv]
        exact Or.inl ⟨hnA, hs⟩
  | @behind new later l₁ l₂ _ hl =>
    have hq' : l ++ A :: (r ++ new ++ later) = l₁ ++ cur :: (l₂ ++ A :: (r ++ new ++ later)) := by
      rw [hl, List.append_assoc, List.cons_append]
    obtain rfl := split_unique hn hq hq'
    rw [List.nodup_middle, List.nodup_cons] at hA
    cases l₂ with
    | nil => exact Or.inr ⟨rfl, new, later, rfl, by rw [hl]⟩
    | cons n l₂ =>
      have hnA : n ≠ A := fun e => hA.1 (by simp [hl, e])
      have hs : Sweep A l r (r ++ new ++ (l₁ ++ [cur] ++ [n])) (l ++ A :: (r ++ new ++ later)) n :=
        .behind (show l = l₁ ++ [cur] ++ n :: l₂ by rw [hl]; simp)
      rw [← List.append_assoc (r ++ new)] at hs
      exact Or.inl ⟨hnA, hs⟩

end OsImplement.Lib.Cursor
