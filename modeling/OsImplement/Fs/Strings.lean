import Mathlib.Data.List.TakeWhile
import Mathlib.Logic.Function.Basic
import Mathlib.Tactic.SplitIfs

/-!
The strings of `common.c`.

A source is the list of bytes from its pointer to the end of the object it points into, and a
destination is a function from offsets to bytes. `strcpy` stops in front of the NUL of its source,
which it does not copy: where the string ends is up to what the destination held before.
-/

namespace OsImplement.Fs

/-- The string that starts at a pointer: the bytes up to the first NUL. -/
def cstr (bytes : List UInt8) : List UInt8 := bytes.takeWhile (· ≠ 0)

/-- `strcmp`; both strings have a NUL. -/
def strcmp : List UInt8 → List UInt8 → ℤ
  | c :: s1, d :: s2 => if c = d then if c = 0 then 0 else strcmp s1 s2 else c.toNat - d.toNat
  | _, _ => 1

/-- The loop of `strcpy`, at offset `i`: a `do` loop, that copies a byte before it looks at the
next one. -/
def strcpyFrom : List UInt8 → ℕ → (ℕ → UInt8) → ℕ → UInt8
  | [], _, d => d
  | c :: src, i, d =>
    let d := Function.update d i c
    if src.headD 0 ≠ 0 then strcpyFrom src (i + 1) d else d

/-- `strcpy` -/
def strcpy (src : List UInt8) (dest : ℕ → UInt8) : ℕ → UInt8 := strcpyFrom src 0 dest

/-- The bytes of a name: a string is not empty and holds no NUL. -/
structure Spells (s : List UInt8) : Prop where
  ne_nil : s ≠ []
  ne_zero : ∀ c ∈ s, c ≠ 0

section Strings

variable {s bytes rest : List UInt8} {c : UInt8} {d : ℕ → UInt8} {i n : ℕ}

@[simp] lemma cstr_nil : cstr [] = [] := rfl

@[simp] lemma cstr_zero_cons : cstr (0 :: rest) = [] := rfl

lemma cstr_cons (h : c ≠ 0) : cstr (c :: rest) = c :: cstr rest :=
  List.takeWhile_cons_of_pos (by simpa using h)

lemma cstr_ne_zero : ∀ c ∈ cstr bytes, c ≠ 0 := by
  intro c hc
  simpa using List.mem_takeWhile_imp hc

lemma cstr_append (h : ∀ c ∈ s, c ≠ 0) : cstr (s ++ rest) = s ++ cstr rest := by
  induction s with
  | nil => rfl
  | cons c s ih =>
    rw [List.cons_append, cstr_cons (h c (by simp)), ih fun c hc => h c (by simp [hc]),
      List.cons_append]

lemma exists_cstr (h : 0 ∈ bytes) : ∃ rest, bytes = cstr bytes ++ 0 :: rest := by
  induction bytes with
  | nil => simp at h
  | cons c bytes ih =>
    by_cases hc : c = 0
    · subst hc
      exact ⟨bytes, rfl⟩
    · obtain ⟨rest, hrest⟩ := ih (by simpa [Ne.symm hc] using h)
      rw [cstr_cons hc]
      exact ⟨rest, congrArg (c :: ·) hrest⟩

/-- **`strcmp` tells strings apart.** -/
theorem strcmp_eq_zero_iff (hs : ∀ c ∈ s, c ≠ 0) (h : 0 ∈ bytes) :
    strcmp (s ++ [0]) bytes = 0 ↔ cstr bytes = s := by
  induction s generalizing bytes with
  | nil =>
    cases bytes with
    | nil => simp at h
    | cons d bytes =>
      by_cases hd : d = 0
      · subst hd
        simp [strcmp]
      · have hne : (0 : UInt8) ≠ d := Ne.symm hd
        have hpos : d.toNat ≠ 0 := fun h0 => hd (UInt8.toNat_inj.mp h0)
        rw [List.nil_append, strcmp, if_neg hne, cstr_cons hd]
        simp [hpos]
  | cons c s ih =>
    have hc := hs c (by simp)
    cases bytes with
    | nil => simp at h
    | cons d bytes =>
      rw [List.cons_append, strcmp]
      by_cases hcd : c = d
      · subst hcd
        rw [if_pos rfl, if_neg hc, ih (fun c h => hs c (by simp [h])) (by simpa [Ne.symm hc] using h),
          cstr_cons hc, List.cons.injEq, and_iff_right rfl]
      · rw [if_neg hcd]
        have hne : (c.toNat : ℤ) - d.toNat ≠ 0 := fun h0 => hcd (UInt8.toNat_inj.mp (by omega))
        refine iff_of_false hne fun hcstr => ?_
        by_cases hd : d = 0
        · subst hd
          simp at hcstr
        · rw [cstr_cons hd] at hcstr
          exact hcd (List.cons.inj hcstr).1.symm

lemma strcpyFrom_apply (hs : Spells s) (rest : List UInt8) (d : ℕ → UInt8) (n i : ℕ) :
    strcpyFrom (s ++ 0 :: rest) n d i = if i < n then d i else s[i - n]?.getD (d i) := by
  obtain ⟨hnil, hzero⟩ := hs
  induction s generalizing n d with
  | nil => exact absurd rfl hnil
  | cons c s ih =>
    rw [List.cons_append, strcpyFrom]
    cases s with
    | nil =>
      rw [if_neg (by simp), Function.update_apply]
      by_cases hin : i = n
      · subst hin
        simp
      · rw [if_neg hin]
        split_ifs with hlt
        · rfl
        · rw [List.getElem?_eq_none (by simp; omega), Option.getD_none]
    | cons c' s =>
      have hc' : c' ≠ 0 := hzero c' (by simp)
      rw [if_pos (by simpa using hc'), ih _ _ (by simp) fun c hc => hzero c (by simp [hc]),
        Function.update_apply]
      by_cases hlt : i < n
      · rw [if_pos (by omega), if_neg (by omega), if_pos hlt]
      · rw [if_neg hlt]
        by_cases hin : i = n
        · subst hin
          simp
        · rw [if_neg (by omega), if_neg hin, show i - n = i - (n + 1) + 1 by omega,
            List.getElem?_cons_succ]

/-- **What `strcpy` writes**: the string, and no NUL behind it. -/
theorem strcpy_apply (hs : Spells s) (rest : List UInt8) (d : ℕ → UInt8) (i : ℕ) :
    strcpy (s ++ 0 :: rest) d i = s[i]?.getD (d i) := by
  unfold strcpy
  rw [strcpyFrom_apply hs, if_neg (by omega)]
  rfl

lemma map_range_split (hn : s.length ≤ n) (h : ∀ j < s.length, s[j]? = some (d j)) :
    (List.range n).map d = s ++ (List.range' s.length (n - s.length)).map d := by
  refine List.ext_getElem (by simp; omega) fun i hi _ => ?_
  rw [List.getElem_map, List.getElem_range]
  by_cases his : i < s.length
  · have hbyte := h i his
    rw [List.getElem?_eq_getElem his] at hbyte
    rw [List.getElem_append_left his, Option.some.inj hbyte]
  · rw [List.getElem_append_right (by omega), List.getElem_map, List.getElem_range']
    congr 1
    omega

lemma cstr_strcpy (hs : Spells s) (hn : s.length < n) (rest : List UInt8) (d : ℕ → UInt8) :
    cstr ((List.range n).map (strcpy (s ++ 0 :: rest) d) ++ [0]) =
      s ++ cstr ((List.range' s.length (n - s.length)).map d ++ [0]) := by
  have hbegin : ∀ j < s.length, s[j]? = some (strcpy (s ++ 0 :: rest) d j) := by
    intro j hj
    rw [strcpy_apply hs, List.getElem?_eq_getElem hj, Option.getD_some]
  have hbehind : (List.range' s.length (n - s.length)).map (strcpy (s ++ 0 :: rest) d) =
      (List.range' s.length (n - s.length)).map d := by
    refine List.map_congr_left fun j hj => ?_
    have hj := (List.mem_range'_1.mp hj).1
    rw [strcpy_apply hs, List.getElem?_eq_none hj, Option.getD_none]
  rw [map_range_split hn.le hbegin, hbehind, List.append_assoc, cstr_append hs.ne_zero]

theorem cstr_strcpy_iff (hs : Spells s) (hn : s.length < n) (rest : List UInt8) (d : ℕ → UInt8) :
    cstr ((List.range n).map (strcpy (s ++ 0 :: rest) d) ++ [0]) = s ↔ d s.length = 0 := by
  rw [cstr_strcpy hs hn, List.append_right_eq_self]
  have hrange : List.range' s.length (n - s.length) =
      s.length :: List.range' (s.length + 1) (n - s.length - 1) := by
    rw [← List.range'_succ]
    congr 1
    omega
  rw [hrange, List.map_cons, List.cons_append]
  by_cases h0 : d s.length = 0
  · simp [h0]
  · rw [cstr_cons h0]
    simp [h0]

end Strings

end OsImplement.Fs
