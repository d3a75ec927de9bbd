import Mathlib.Data.List.Basic
import Mathlib.Logic.Function.Basic

/-!
A ring buffer read as a queue.

The buffer is an array of `n` cells with a read index `s` and a write index `e`, both below `n`;
the queue is what stands from `s` up to `e`, wrapping at `n`. One cell always stays free: a push
into the last free cell makes the indices meet, and the queue reads as empty
(`contents_push_full`).
-/

namespace OsImplement.Lib.Ring

variable {β : Type*} (n : ℕ)

/-- The number of cells from `s` up to `e`. -/
def len (s e : ℕ) : ℕ := (e + n - s) % n

/-- The queue held between the indices `s` and `e`, oldest first. -/
def contents (buf : ℕ → β) (s e : ℕ) : List β :=
  (List.range (len n s e)).map fun i => buf ((s + i) % n)

variable {n} {buf : ℕ → β} {s e : ℕ} {c : β}

lemma wrap_eq {x : ℕ} (h : x < 2 * n) : x % n = if x < n then x else x - n := by
  split
  · next hx => exact Nat.mod_eq_of_lt hx
  · next hx => rw [Nat.mod_eq_sub_mod (by omega), Nat.mod_eq_of_lt (by omega)]

lemma len_eq (hs : s < n) (he : e < n) : len n s e = if s ≤ e then e - s else e + n - s := by
  unfold len
  rw [wrap_eq (by omega)]
  split_ifs <;> omega

lemma len_lt (hs : s < n) : len n s e < n := Nat.mod_lt _ (by omega)

@[simp] lemma length_contents : (contents n buf s e).length = len n s e := by simp [contents]

lemma contents_self (hs : s < n) : contents n buf s s = [] := by
  have h : len n s s = 0 := by rw [len_eq hs hs]; simp
  simp [contents, h]

/-! ### Push -/

lemma len_push (hs : s < n) (he : e < n) (hroom : len n s e + 1 < n) :
    len n s ((e + 1) % n) = len n s e + 1 := by
  have h1 : (e + 1) % n < n := Nat.mod_lt _ (by omega)
  rw [len_eq hs he] at hroom ⊢
  rw [len_eq hs h1, wrap_eq (x := e + 1) (by omega)]
  split_ifs at hroom ⊢ <;> omega

lemma slot_ne (hs : s < n) (he : e < n) {i : ℕ} (hi : i < len n s e) : (s + i) % n ≠ e := by
  have hlt := len_lt (e := e) hs
  rw [wrap_eq (by omega)]
  rw [len_eq hs he] at hi
  split_ifs at hi ⊢ <;> omega

lemma slot_last (hs : s < n) (he : e < n) : (s + len n s e) % n = e := by
  have hlt := len_lt (e := e) hs
  rw [wrap_eq (by omega), len_eq hs he]
  split_ifs <;> omega

theorem contents_push (hs : s < n) (he : e < n) (hroom : len n s e + 1 < n) :
    contents n (Function.update buf e c) s ((e + 1) % n) = contents n buf s e ++ [c] := by
  unfold contents
  rw [len_push hs he hroom, List.range_succ, List.map_append]
  congr 1
  · refine List.map_congr_left fun i hi => ?_
    exact Function.update_of_ne (slot_ne hs he (List.mem_range.mp hi)) _ _
  · simp [slot_last hs he]

theorem contents_push_full (hs : s < n) (he : e < n) (hfull : len n s e + 1 = n) :
    contents n (Function.update buf e c) s ((e + 1) % n) = [] := by
  have h : (e + 1) % n = s := by
    rw [len_eq hs he] at hfull
    rw [wrap_eq (x := e + 1) (by omega)]
    split_ifs at hfull ⊢ <;> omega
  rw [h]
  exact contents_self hs

/-! ### Pop -/

theorem contents_pop (hs : s < n) (he : e < n) (hne : s ≠ e) :
    contents n buf s e = buf s :: contents n buf ((s + 1) % n) e := by
  have h1 : (s + 1) % n < n := Nat.mod_lt _ (by omega)
  have hlen : len n s e = len n ((s + 1) % n) e + 1 := by
    rw [len_eq hs he, len_eq h1 he, wrap_eq (x := s + 1) (by omega)]
    split_ifs <;> omega
  unfold contents
  rw [hlen, List.range_succ_eq_map, List.map_cons, List.map_map]
  congr 1
  · rw [Nat.add_zero, Nat.mod_eq_of_lt hs]
  · refine List.map_congr_left fun i _ => ?_
    simp only [Function.comp, Nat.succ_eq_add_one]
    rw [Nat.mod_add_mod, show s + (i + 1) = s + 1 + i by omega]

end OsImplement.Lib.Ring
