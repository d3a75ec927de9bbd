import Mathlib.Data.List.Basic

/-!
Singly linked lists in memory: a node is an address other than 0, `next` is the field that links
the nodes, and 0 ends the list.

`Chain next a l` says that the nodes from `a` on are those of `l`. A write to one `next` field
changes the list at that node only.
-/

namespace OsImplement.Lib.Linked

variable {next : ℕ → ℕ} {a b c p t z n : ℕ} {l r : List ℕ}

/-- From `a` the links lead through the nodes of `l` to `b`. -/
def Path (next : ℕ → ℕ) : ℕ → List ℕ → ℕ → Prop
  | a, [], b => a = b
  | a, p :: l, b => a = p ∧ p ≠ 0 ∧ Path next (next p) l b

/-- The nodes from `a` to the end of the list are those of `l`. -/
def Chain (next : ℕ → ℕ) (a : ℕ) (l : List ℕ) : Prop := Path next a l 0

/-! ### Paths -/

lemma path_append : Path next a (l ++ r) b ↔ ∃ c, Path next a l c ∧ Path next c r b := by
  induction l generalizing a with
  | nil => simp [Path]
  | cons p l ih =>
    simp only [List.cons_append, Path, ih]
    constructor
    · rintro ⟨h1, h2, c, h3, h4⟩
      exact ⟨c, ⟨h1, h2, h3⟩, h4⟩
    · rintro ⟨c, ⟨h1, h2, h3⟩, h4⟩
      exact ⟨h1, h2, c, h3, h4⟩

lemma Path.congr {next' : ℕ → ℕ} (h : Path next a l b) (hn : ∀ p ∈ l, next' p = next p) :
    Path next' a l b := by
  induction l generalizing a with
  | nil => exact h
  | cons p l ih =>
    obtain ⟨rfl, h0, h⟩ := h
    refine ⟨rfl, h0, ?_⟩
    rw [hn a (by simp)]
    exact ih h fun q hq => hn q (by simp [hq])

lemma Path.ne_zero (h : Path next a l b) (hp : p ∈ l) : p ≠ 0 := by
  induction l generalizing a with
  | nil => simp at hp
  | cons q l ih =>
    obtain ⟨-, h0, h⟩ := h
    rcases List.mem_cons.mp hp with rfl | hp
    · exact h0
    · exact ih h hp

lemma Chain.unique {l' : List ℕ} (h : Chain next a l) (h' : Chain next a l') : l = l' := by
  induction l generalizing a l' with
  | nil =>
    cases l' with
    | nil => rfl
    | cons p l' => exact absurd (h'.1.symm.trans h) h'.2.1
  | cons p l ih =>
    cases l' with
    | nil => exact absurd (h.1.symm.trans h') h.2.1
    | cons q l' =>
      obtain ⟨rfl, -, h⟩ := h
      obtain ⟨rfl, -, h'⟩ := h'
      rw [ih h h']

lemma Chain.next_eq (h : Chain next a (l ++ p :: r)) : Chain next (next p) r := by
  obtain ⟨c, -, h⟩ := path_append.mp h
  exact h.2.2

lemma Chain.next_cons (h : Chain next a (l ++ p :: t :: r)) : next p = t :=
  h.next_eq.1

lemma Chain.next_last (h : Chain next a (l ++ [p])) : next p = 0 := h.next_eq

lemma Chain.head (h : Chain next a (p :: l)) : a = p := h.1

lemma Chain.eq_cons (h : Chain next a l) (hp : p ∈ l) : ∃ r, l = a :: r := by
  cases l with
  | nil => simp at hp
  | cons q r => exact ⟨r, by rw [h.head]⟩

lemma exists_before (hp : p ∈ a :: l) (hne : p ≠ a) : ∃ l₁ t l₂, a :: l = l₁ ++ t :: p :: l₂ := by
  obtain ⟨l₁, l₂, rfl⟩ := List.append_of_mem ((List.mem_cons.mp hp).resolve_left hne)
  rcases List.eq_nil_or_concat l₁ with rfl | ⟨l₁, t, rfl⟩
  · exact ⟨[], a, l₂, rfl⟩
  · exact ⟨a :: l₁, t, l₂, by simp⟩

/-! ### Writes -/

theorem Chain.snoc (h : Chain next a (l ++ [z])) (h0 : n ≠ 0) {next' : ℕ → ℕ} (hz : next' z = n)
    (hend : next' n = 0) (hother : ∀ p ∈ l, next' p = next p) :
    Chain next' a (l ++ [z] ++ [n]) := by
  obtain ⟨c, h1, rfl, hz0, -⟩ := path_append.mp h
  rw [List.append_assoc]
  refine path_append.mpr ⟨c, h1.congr hother, rfl, hz0, ?_⟩
  rw [hz]
  exact ⟨rfl, h0, hend⟩

theorem Chain.unlink (h : Chain next a (l ++ t :: p :: r)) {next' : ℕ → ℕ}
    (ht : next' t = next p) (hl : ∀ q ∈ l, next' q = next q) (hr : ∀ q ∈ r, next' q = next q) :
    Chain next' a (l ++ t :: r) := by
  obtain ⟨c, h1, rfl, h0, h2, hp0, h3⟩ := path_append.mp h
  refine path_append.mpr ⟨c, h1.congr hl, rfl, h0, ?_⟩
  rw [ht]
  exact Path.congr h3 hr

/-! ### Walks -/

/-- `while (next(a)) a = next(a);`, with `none` for a walk that does not end. -/
def last (next : ℕ → ℕ) : ℕ → ℕ → Option ℕ
  | 0, _ => none
  | fuel + 1, a => if next a ≠ 0 then last next fuel (next a) else some a

lemma Chain.last (h : Chain next a (l ++ [z])) {fuel : ℕ} (hf : l.length < fuel) :
    last next fuel a = some z := by
  induction l generalizing a fuel with
  | nil =>
    obtain ⟨rfl, -, h⟩ := h
    cases fuel with
    | zero => omega
    | succ fuel => exact if_neg (not_not.mpr h)
  | cons p l ih =>
    obtain ⟨rfl, -, h⟩ := h
    cases fuel with
    | zero => omega
    | succ fuel =>
      rw [Linked.last, if_pos]
      · exact ih h (by simpa using hf)
      · cases l with
        | nil => exact h.1 ▸ h.2.1
        | cons q l => exact h.1 ▸ h.2.1

/-- `while (key(next(a)) != k) { a = next(a); if (a == NULL) return; }`: the node before the first
one with key `k`, `some none` when the list ends before, and `none` for a walk that does not end. -/
def findBefore (next key : ℕ → ℕ) (k : ℕ) : ℕ → ℕ → Option (Option ℕ)
  | 0, _ => none
  | fuel + 1, a =>
    if key (next a) ≠ k then
      if next a = 0 then some none else findBefore next key k fuel (next a)
    else some (some a)

lemma Chain.findBefore {key : ℕ → ℕ} {k : ℕ} (h : Chain next a (l ++ t :: p :: r))
    (hk : key p = k) (hl : ∀ q ∈ l, key q ≠ k) (ht : key t ≠ k ∨ l = []) {fuel : ℕ}
    (hf : l.length < fuel) : findBefore next key k fuel a = some (some t) := by
  induction l generalizing a fuel with
  | nil =>
    obtain ⟨rfl, -, h1, -, -⟩ := h
    cases fuel with
    | zero => omega
    | succ fuel =>
      rw [Linked.findBefore, if_neg]
      rw [h1, not_not]
      exact hk
  | cons q l ih =>
    obtain ⟨rfl, -, h⟩ := h
    replace ht := ht.resolve_right (by simp)
    cases fuel with
    | zero => omega
    | succ fuel =>
      have hnext : ∃ q', next a = q' ∧ q' ≠ 0 ∧ key q' ≠ k := by
        cases l with
        | nil => exact ⟨_, h.1, h.2.1, ht⟩
        | cons q' l => exact ⟨_, h.1, h.2.1, hl q' (by simp)⟩
      obtain ⟨q', h1, h2, h3⟩ := hnext
      rw [Linked.findBefore, if_pos (by rwa [h1]), if_neg (by rwa [h1])]
      exact ih h (fun q hq => hl q (by simp [hq])) (Or.inl ht) (by simpa using hf)

/-! ### What a walk reads -/

/-- `while (next(a) != c) a = next(a);`: the node before `c`, and `none` for a walk that does not
end. -/
def findPrev (next : ℕ → ℕ) (c : ℕ) : ℕ → ℕ → Option ℕ
  | 0, _ => none
  | fuel + 1, a => if next a ≠ c then findPrev next c fuel (next a) else some a

/-- The addresses whose fields the loop of `findPrev` reads. -/
def prevReads (next : ℕ → ℕ) (c : ℕ) : ℕ → ℕ → List ℕ
  | 0, _ => []
  | fuel + 1, a => a :: if next a ≠ c then prevReads next c fuel (next a) else []

/-- The addresses whose fields the loop of `findBefore` reads. -/
def beforeReads (next key : ℕ → ℕ) (k : ℕ) : ℕ → ℕ → List ℕ
  | 0, _ => []
  | fuel + 1, a =>
    a :: next a ::
      if key (next a) ≠ k then
        if next a = 0 then [] else beforeReads next key k fuel (next a)
      else []

lemma Chain.findPrev (fuel : ℕ) (h : Chain next a (l ++ t :: c :: r))
    (hn : (l ++ t :: c :: r).Nodup) (hf : l.length < fuel) :
    findPrev next c fuel a = some t ∧ ∀ x ∈ prevReads next c fuel a, x ∈ l ++ [t] := by
  induction l generalizing a fuel with
  | nil =>
    obtain ⟨rfl, -, hc, -⟩ := h
    cases fuel with
    | zero => omega
    | succ fuel => simp [Linked.findPrev, Linked.prevReads, hc]
  | cons q l ih =>
    obtain ⟨rfl, -, h⟩ := h
    rw [List.cons_append, List.nodup_cons] at hn
    cases fuel with
    | zero => omega
    | succ fuel =>
      have hnext : next a ≠ c := by
        cases l with
        | nil =>
          rw [h.1]
          exact fun e => (List.nodup_cons.mp hn.2).1 (by simp [e])
        | cons q' l =>
          rw [h.1]
          exact fun e => (List.nodup_cons.mp hn.2).1 (by simp [e])
      obtain ⟨hfind, hreads⟩ := ih fuel h hn.2 (by simpa using hf)
      refine ⟨by rw [Linked.findPrev, if_pos hnext, hfind], fun x hx => ?_⟩
      rw [Linked.prevReads, if_pos hnext, List.mem_cons] at hx
      rcases hx with rfl | hx
      · simp
      · exact List.mem_cons_of_mem _ (hreads x hx)

/-- An address that no node links to is looked for behind the end of the list. -/
lemma Chain.zero_mem_prevReads {fuel : ℕ} (h : Chain next a l) (hc : c ∉ l.tail) (h0 : c ≠ 0)
    (hf : l.length < fuel) : 0 ∈ prevReads next c fuel a := by
  induction l generalizing a fuel with
  | nil =>
    obtain rfl : a = 0 := h
    cases fuel with
    | zero => omega
    | succ fuel => simp [Linked.prevReads]
  | cons p l ih =>
    obtain ⟨rfl, -, h⟩ := h
    have hnext : next a ≠ c := by
      cases l with
      | nil => exact fun e => h0 (e.symm.trans h)
      | cons q l =>
        rw [h.1]
        exact fun e => hc (by simp [e])
    cases fuel with
    | zero => omega
    | succ fuel =>
      rw [Linked.prevReads, if_pos hnext, List.mem_cons]
      exact Or.inr (ih h (fun hm => hc (List.mem_of_mem_tail hm)) (by simpa using hf))

lemma Chain.findBefore_of_mem (key : ℕ → ℕ) (k fuel : ℕ) (h : Chain next a (p :: r))
    (hk : ∃ x ∈ r, key x = k) (hf : r.length < fuel) :
    ∃ l₁ t x l₂, p :: r = l₁ ++ t :: x :: l₂ ∧ key x = k ∧
      Linked.findBefore next key k fuel a = some (some t) ∧
      ∀ y ∈ beforeReads next key k fuel a, y ∈ p :: r := by
  induction r generalizing a p fuel with
  | nil => simp at hk
  | cons q r ih =>
    obtain ⟨rfl, -, h⟩ := h
    have hq : next a = q := h.1
    cases fuel with
    | zero => omega
    | succ fuel =>
      by_cases hkq : key q = k
      · refine ⟨[], a, q, r, rfl, hkq, ?_, fun y hy => ?_⟩
        · rw [Linked.findBefore, hq, if_neg (not_not.mpr hkq)]
        · rw [Linked.beforeReads, hq, if_neg (not_not.mpr hkq)] at hy
          simp only [List.mem_cons, List.not_mem_nil, or_false] at hy ⊢
          tauto
      · obtain ⟨x, hx, hkx⟩ := hk
        have hxr : x ∈ r := (List.mem_cons.mp hx).resolve_left fun e => hkq (e ▸ hkx)
        have hq0 : q ≠ 0 := h.2.1
        obtain ⟨l₁, t, y, l₂, hs, hky, hfind, hreads⟩ :=
          ih fuel (hq ▸ h) ⟨x, hxr, hkx⟩ (by simpa using hf)
        refine ⟨a :: l₁, t, y, l₂, by rw [hs]; rfl, hky, ?_, fun z hz => ?_⟩
        · rw [Linked.findBefore, hq, if_pos hkq, if_neg hq0]
          exact hfind
        · rw [Linked.beforeReads, hq, if_pos hkq, if_neg hq0, List.mem_cons, List.mem_cons] at hz
          rcases hz with rfl | rfl | hz
          · simp
          · simp
          · exact List.mem_cons_of_mem _ (hreads z hz)

/-- A key that no node behind the first has is looked for behind the end of the list. -/
lemma Chain.zero_mem_beforeReads (key : ℕ → ℕ) (k fuel : ℕ) (h : Chain next a (p :: r))
    (hk : ∀ x ∈ r, key x ≠ k) (hf : r.length < fuel) : 0 ∈ beforeReads next key k fuel a := by
  induction r generalizing a p fuel with
  | nil =>
    obtain ⟨rfl, -, h⟩ := h
    have h0 : next a = 0 := h
    cases fuel with
    | zero => omega
    | succ fuel => simp [Linked.beforeReads, h0]
  | cons q r ih =>
    obtain ⟨rfl, -, h⟩ := h
    have hq : next a = q := h.1
    cases fuel with
    | zero => omega
    | succ fuel =>
      rw [Linked.beforeReads, hq, if_pos (hk q (by simp)), if_neg h.2.1, List.mem_cons,
        List.mem_cons]
      exact Or.inr (Or.inr (ih fuel (hq ▸ h) (fun x hx => hk x (by simp [hx])) (by simpa using hf)))

end OsImplement.Lib.Linked
