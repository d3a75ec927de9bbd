import OsImplement.Monitor.Screen
import Mathlib.Tactic.SplitIfs

/-!
The monitor as a window on a terminal that never scrolls.

A terminal has infinitely many rows of 80 blanks. What the monitor shows are 25 of its rows, from
row `top` on: the first ones until the last is left, and from then on those that end at the highest
row reached.
-/

namespace OsImplement.Monitor

/-! ### The terminal -/

/-- A grid of characters, row by row, with a cursor. -/
structure Terminal where
  grid : ℕ → ℕ → Int8
  row : ℕ
  col : ℕ
  highest : ℕ

namespace Terminal

/-- The terminal before the first character. -/
def empty : Terminal := { grid := fun _ _ => 0x20, row := 0, col := 0, highest := 0 }

/-- The character `c` goes under the cursor. -/
def setChar (c : Int8) (t : Terminal) : Terminal :=
  { t with grid := Function.update t.grid t.row (Function.update (t.grid t.row) t.col c) }

/-- The action of a character: backspace, tab, return, newline, or a printable one. -/
def act (c : Int8) (t : Terminal) : Terminal :=
  if c = 0x08 then { t with col := t.col - 1 }
  else if c = 0x09 then { t with col := (t.col / 4 + 1) * 4 }
  else if c = 0x0D then { t with col := 0 }
  else if c = 0x0A then { t with row := t.row + 1, col := 0 }
  else if 0x20 ≤ c then { t.setChar c with col := t.col + 1 }
  else t

/-- The wrap behind column 79. -/
def wrap (t : Terminal) : Terminal :=
  if 80 ≤ t.col then { t with row := t.row + 1, col := 0 } else t

def put (t : Terminal) (c : Int8) : Terminal :=
  let t := (t.act c).wrap
  { t with highest := max t.highest t.row }

@[simp] lemma highest_act (c : Int8) (t : Terminal) : (t.act c).highest = t.highest := by
  unfold act
  split_ifs <;> rfl

@[simp] lemma highest_wrap (t : Terminal) : t.wrap.highest = t.highest := by
  unfold wrap
  split_ifs <;> rfl

lemma highest_put (t : Terminal) (c : Int8) :
    (t.put c).highest = max t.highest (t.act c).wrap.row := by
  simp [put]

/-- The first row of the window of 25 rows that ends at the highest row reached, or at row 24. -/
def top (t : Terminal) : ℕ := max 24 t.highest - 24

end Terminal

/-! ### What is written -/

/-- The two ways to write. -/
inductive Output where
  | put (c : Int8)
  | write (s : List Int8)

namespace Output

/-- The characters of one call: a string ends at its first NUL. -/
def chars : Output → List Int8
  | put c => [c]
  | write s => s.takeWhile (· ≠ 0)

def run (m : Screen) : Output → Screen
  | put c => m.monitorPut c
  | write s => m.monitorWrite s

end Output

lemma Screen.monitorWrite_eq (s : List Int8) (m : Screen) :
    m.monitorWrite s = (s.takeWhile (· ≠ 0)).foldl (fun m c => m.monitorPut c) m := by
  induction s generalizing m with
  | nil => rfl
  | cons c s ih =>
    unfold Screen.monitorWrite
    by_cases hc : c = 0
    · simp [hc]
    · rw [if_neg hc, ih, List.takeWhile_cons_of_pos (by simpa using hc), List.foldl_cons]

lemma foldl_run (ops : List Output) (m : Screen) :
    ops.foldl Output.run m = (ops.flatMap Output.chars).foldl (fun m c => m.monitorPut c) m := by
  induction ops generalizing m with
  | nil => rfl
  | cons op ops ih =>
    rw [List.foldl_cons, ih, List.flatMap_cons, List.foldl_append]
    cases op with
    | put c => rfl
    | write s => rw [Output.run, Screen.monitorWrite_eq, Output.chars]

/-! ### The window -/

/-- The screen shows the 25 rows from `top` on. It may be one row behind: the cursor is then below
its last row, where the terminal is still blank. -/
structure ShowsFrom (top : ℕ) (t : Terminal) (m : Screen) : Prop where
  col : m.cursorX.toNat = t.col
  row : m.cursorY.toNat + top = t.row
  cells : ∀ i < 2000, charOf (m.videoMemory i) = t.grid (top + i / 80) (i % 80)
  below : ∀ r c, top + 25 ≤ r → t.grid r c = 0x20

/-- Accesses to the cells of the window only. -/
def Within (m m' : Screen) : Prop := ∀ a ∈ m'.accesses, a ∈ m.accesses ∨ a < 2000

section Window

variable {t : Terminal} {m m' m'' : Screen} {top : ℕ} {c : Int8} {cells : ℕ → UInt16}

lemma Within.trans (h : Within m m') (h' : Within m' m'') : Within m m'' := by
  intro a ha
  rcases h' a ha with ha | ha
  · exact h a ha
  · exact Or.inr ha

lemma Screen.Redraws.within (h : m.Redraws m' cells) : Within m m' := by
  obtain ⟨log, hlog, rfl⟩ := h
  intro a ha
  rcases List.mem_append.mp ha with ha | ha
  · exact Or.inr (hlog a ha)
  · exact Or.inl ha

lemma charOf_cell (hc : 0x20 ≤ c) :
    charOf (c.toInt16.toUInt16 ||| (Screen.attributeByte.toUInt16 <<< 8)) = c := by
  obtain ⟨⟨b⟩⟩ := c
  revert b
  decide +kernel

lemma tab_toNat {x : UInt8} (hx : x.toNat < 80) :
    ((x + 4) &&& ~~~(4 - 1)).toNat = (x.toNat / 4 + 1) * 4 := by
  obtain ⟨b⟩ := x
  revert b
  decide +kernel

lemma toNat_succ {x : UInt8} (hx : x.toNat < 255) : (x + 1).toNat = x.toNat + 1 := by
  rw [UInt8.toNat_add, show UInt8.toNat 1 = 1 from rfl]
  omega

lemma ShowsFrom.setChar (h : ShowsFrom top t m) (hcol : t.col < 80) (hrow : m.cursorY.toNat < 25)
    (hc : 0x20 ≤ c) : ShowsFrom top (t.setChar c)
      (m.store m.location (c.toInt16.toUInt16 ||| (Screen.attributeByte.toUInt16 <<< 8))) := by
  have hloc : m.location = m.cursorY.toNat * 80 + t.col := by
    rw [← h.col]
    rfl
  refine ⟨h.col, h.row, fun i hi => ?_, fun r k hr => ?_⟩
  · show charOf (Function.update m.videoMemory m.location _ i) =
      Function.update t.grid t.row _ (top + i / 80) (i % 80)
    have hcell := h.cells i hi
    rw [← h.row, Function.update_apply, Function.update_apply]
    by_cases hr : top + i / 80 = m.cursorY.toNat + top
    · rw [if_pos hr, Function.update_apply]
      by_cases hk : i % 80 = t.col
      · rw [if_pos (by omega), if_pos hk]
        exact charOf_cell hc
      · rw [if_neg (by omega), if_neg hk, hcell, hr]
    · rw [if_neg (by omega), if_neg hr, hcell]
  · show Function.update t.grid t.row _ r k = 0x20
    have hrow' := h.row
    rw [Function.update_of_ne (by omega)]
    exact h.below r k hr

/-- **The action of a character** is the same on both sides; it may leave the last row, and then it
is at the start of the next. -/
lemma act_spec (h : ShowsFrom top t m) (hcol : t.col < 80) (hrow : m.cursorY.toNat < 25) (c : Int8) :
    ShowsFrom top (t.act c) (m.act c) ∧ Within m (m.act c) ∧ (t.act c).col ≤ 80 ∧
      (m.act c).cursorY.toNat ≤ 25 ∧ ((m.act c).cursorY.toNat = 25 → (t.act c).col = 0) := by
  have hx := h.col
  have hy := h.row
  have hstay : Within m m := fun a ha => Or.inl ha
  unfold Terminal.act Screen.act
  by_cases h8 : c = 0x08
  · -- a backspace in column 0 is none of the other characters
    subst h8
    rw [if_pos rfl]
    by_cases hx0 : m.cursorX = 0
    · rw [if_neg (by simp [hx0]), if_neg (by decide), if_neg (by decide), if_neg (by decide),
        if_neg (by decide)]
      have hcol0 : t.col = 0 := by
        rw [← hx, hx0]
        rfl
      have hsame : { t with col := t.col - 1 } = t := by rw [hcol0, Nat.zero_sub, ← hcol0]
      rw [hsame]
      exact ⟨h, hstay, by omega, by omega, by omega⟩
    · have hne : m.cursorX.toNat ≠ 0 := fun h0 => hx0 (UInt8.toNat_inj.mp h0)
      have hpred : (m.cursorX - 1).toNat = t.col - 1 := by
        rw [UInt8.toNat_sub, show UInt8.toNat 1 = 1 from rfl]
        omega
      rw [if_pos ⟨rfl, hx0⟩]
      exact ⟨⟨hpred, hy, h.cells, h.below⟩, hstay, by simp only; omega, by simp only; omega,
        by simp only; omega⟩
  have h8' : ¬ (c = 0x08 ∧ m.cursorX ≠ 0) := fun hc => h8 hc.1
  rw [if_neg h8, if_neg h8']
  by_cases h9 : c = 0x09
  · have htab := tab_toNat (hx ▸ hcol : m.cursorX.toNat < 80)
    rw [if_pos h9, if_pos h9]
    rw [hx] at htab
    exact ⟨⟨htab, hy, h.cells, h.below⟩, hstay, by simp only; omega, by simp only; omega,
      by simp only; omega⟩
  rw [if_neg h9, if_neg h9]
  by_cases h13 : c = 0x0D
  · rw [if_pos h13, if_pos h13]
    exact ⟨⟨rfl, hy, h.cells, h.below⟩, hstay, by simp, by simp only; omega, fun _ => rfl⟩
  rw [if_neg h13, if_neg h13]
  by_cases h10 : c = 0x0A
  · have hsucc : (m.cursorY + 1).toNat = m.cursorY.toNat + 1 := toNat_succ (by omega)
    rw [if_pos h10, if_pos h10]
    exact ⟨⟨rfl, by simp only; omega, h.cells, h.below⟩, hstay, by simp, by simp only; omega,
      fun _ => rfl⟩
  rw [if_neg h10, if_neg h10]
  by_cases hc : 0x20 ≤ c
  · have hloc : m.location < 2000 := by
      unfold Screen.location MONITOR_WIDTH
      omega
    have hsucc : (m.cursorX + 1).toNat = t.col + 1 := by
      rw [toNat_succ (by omega), hx]
    have hset := h.setChar hcol hrow hc
    have hstore : Within m (m.store m.location _) :=
      (Screen.redraws_store (v := c.toInt16.toUInt16 ||| (Screen.attributeByte.toUInt16 <<< 8))
        hloc).within
    have hrow' : m.cursorY.toNat ≤ 25 := by omega
    rw [if_pos hc, if_pos hc]
    exact ⟨⟨hsucc, hy, hset.cells, hset.below⟩, hstore, hcol, hrow',
      fun h25 => absurd (show m.cursorY.toNat = 25 from h25) (by omega)⟩
  · rw [if_neg hc, if_neg hc]
    exact ⟨h, hstay, by omega, by omega, by omega⟩

lemma wrap_spec (h : ShowsFrom top t m) (hcol : t.col ≤ 80) (hrow : m.cursorY.toNat ≤ 25)
    (h25 : m.cursorY.toNat = 25 → t.col = 0) :
    ShowsFrom top t.wrap m.wrap ∧ Within m m.wrap ∧ t.wrap.col < 80 ∧
      m.wrap.cursorY.toNat ≤ 25 := by
  have hx := h.col
  have hy := h.row
  have hW : MONITOR_WIDTH = 80 := rfl
  unfold Terminal.wrap Screen.wrap
  by_cases h80 : 80 ≤ t.col
  · have hsucc : (m.cursorY + 1).toNat = m.cursorY.toNat + 1 := toNat_succ (by omega)
    rw [if_pos h80, if_pos (by omega)]
    exact ⟨⟨rfl, by simp only; omega, h.cells, h.below⟩, fun a ha => Or.inl ha, by simp,
      by simp only; omega⟩
  · rw [if_neg h80, if_neg (by omega)]
    exact ⟨h, fun a ha => Or.inl ha, by omega, hrow⟩

/-- **`scroll` loses one row at most**: the window moves down by one when the cursor has left it. -/
lemma scroll_spec (h : ShowsFrom top t m) (hrow : m.cursorY.toNat ≤ 25) :
    ShowsFrom (if m.cursorY.toNat = 25 then top + 1 else top) t m.scroll ∧ Within m m.scroll ∧
      m.scroll.cursorY.toNat < 25 := by
  have hH : MONITOR_HEIGTH = 25 := rfl
  have hx := h.col
  have hy := h.row
  unfold Screen.scroll
  by_cases h25 : m.cursorY.toNat = 25
  · rw [if_pos h25, if_pos (by omega)]
    have hrows := Screen.redraws_rows m
    have hw := hrows.within
    obtain ⟨log, -, heq⟩ := hrows
    rw [heq] at hw ⊢
    refine ⟨⟨hx, ?_, fun i hi => ?_, fun r k hr => h.below r k (by omega)⟩, hw,
      show (UInt8.ofNat 24).toNat < 25 by decide⟩
    · show 24 + (top + 1) = t.row
      omega
    · show charOf (if i < 1920 then m.videoMemory (i + 80) else if i < 2000 then Screen.blank
        else m.videoMemory i) = _
      by_cases hlast : i < 1920
      · rw [if_pos hlast, h.cells (i + 80) (by omega), show (i + 80) / 80 = i / 80 + 1 by omega,
          show (i + 80) % 80 = i % 80 by omega, show top + (i / 80 + 1) = top + 1 + i / 80 by omega]
      · rw [if_neg hlast, if_pos hi, h.below _ _ (by omega)]
        rfl
  · rw [if_neg h25, if_neg (by omega)]
    exact ⟨h, fun a ha => Or.inl ha, by omega⟩

lemma ShowsFrom.moveCursor (h : ShowsFrom top t m) : ShowsFrom top t m.moveCursor :=
  ⟨h.col, h.row, h.cells, h.below⟩

lemma ShowsFrom.setHighest (h : ShowsFrom top t m) (n : ℕ) :
    ShowsFrom top { t with highest := n } m := ⟨h.col, h.row, h.cells, h.below⟩

end Window

/-! ### The refinement -/

/-- The screen shows the window of the terminal, and the board its cursor. -/
structure Shows (t : Terminal) (m : Screen) : Prop where
  window : ShowsFrom t.top t m
  col : t.col < 80
  highest : t.row ≤ t.highest
  cursor : m.hardwareCursor = m.location

section Refinement

variable {t : Terminal} {m : Screen}

lemma Shows.cursorY_lt (h : Shows t m) : m.cursorY.toNat < 25 := by
  have hrow := h.window.row
  have hhighest := h.highest
  unfold Terminal.top at hrow
  omega

theorem Shows.put (h : Shows t m) (c : Int8) :
    Shows (t.put c) (m.monitorPut c) ∧ Within m (m.monitorPut c) := by
  obtain ⟨h₁, hw₁, hcol₁, hrow₁, h25⟩ := act_spec h.window h.col h.cursorY_lt c
  obtain ⟨h₂, hw₂, hcol₂, hrow₂⟩ := wrap_spec h₁ hcol₁ hrow₁ h25
  obtain ⟨h₃, hw₃, -⟩ := scroll_spec h₂ hrow₂
  have htop : (if (m.act c).wrap.cursorY.toNat = 25 then t.top + 1 else t.top) =
      (t.put c).top := by
    have hrow := h₂.row
    unfold Terminal.top at hrow ⊢
    rw [Terminal.highest_put]
    split_ifs <;> omega
  rw [htop] at h₃
  have hhighest : (t.act c).wrap.row ≤ (t.put c).highest := by
    rw [Terminal.highest_put]
    exact Nat.le_max_right _ _
  have hcursor := Screen.hardwareCursor_moveCursor (m.act c).wrap.scroll
  have hw := (hw₁.trans hw₂).trans hw₃
  unfold Screen.monitorPut
  generalize (m.act c).wrap.scroll = m₃ at h₃ hcursor hw ⊢
  exact ⟨⟨(h₃.setHighest _).moveCursor, hcol₂, hhighest, hcursor⟩, hw⟩

lemma shows_clear (m : Screen) : Shows .empty m.monitorClear ∧ Within m m.monitorClear := by
  have hclear := Screen.redraws_clear m
  have hw := hclear.within
  obtain ⟨log, -, heq⟩ := hclear
  unfold Screen.monitorClear
  rw [heq] at hw ⊢
  refine ⟨⟨⟨rfl, rfl, fun i hi => ?_, fun _ _ _ => rfl⟩, by decide, Nat.le_refl _,
    Screen.hardwareCursor_moveCursor _⟩, hw⟩
  show charOf (if i < 2000 then 0x0020 else m.videoMemory i) = 0x20
  rw [if_pos hi]
  rfl

theorem shows_run (cs : List Int8) (h : Shows t m) :
    Shows (cs.foldl Terminal.put t) (cs.foldl (fun m c => m.monitorPut c) m) ∧
      Within m (cs.foldl (fun m c => m.monitorPut c) m) := by
  induction cs generalizing t m with
  | nil => exact ⟨h, fun a ha => Or.inl ha⟩
  | cons c cs ih =>
    obtain ⟨hput, hw⟩ := h.put c
    obtain ⟨hrun, hw'⟩ := ih hput
    exact ⟨hrun, hw.trans hw'⟩

/-- **The monitor refines the terminal.** After `monitor_clear` and any output, the 2000 cells hold
the 25 rows of the terminal that end at the highest row reached, the hardware cursor is that of the
terminal in this window, and no access was outside the cells. -/
theorem monitor_refines_terminal (ops : List Output) (m : Screen) :
    let t := (ops.flatMap Output.chars).foldl Terminal.put .empty
    let s := ops.foldl Output.run m.monitorClear
    (∀ i < 2000, charOf (s.videoMemory i) = t.grid (max 24 t.highest - 24 + i / 80) (i % 80)) ∧
      s.hardwareCursor + (max 24 t.highest - 24) * 80 = t.row * 80 + t.col ∧
      ∀ a ∈ s.accesses, a ∈ m.accesses ∨ a < 2000 := by
  intro t s
  obtain ⟨hclear, hw⟩ := shows_clear m
  obtain ⟨hrun, hw'⟩ := shows_run (ops.flatMap Output.chars) hclear
  have hs : s = (ops.flatMap Output.chars).foldl (fun m c => m.monitorPut c) m.monitorClear :=
    foldl_run ops m.monitorClear
  rw [← hs] at hrun hw'
  refine ⟨hrun.window.cells, ?_, hw.trans hw'⟩
  have hcol : s.cursorX.toNat = t.col := hrun.window.col
  have hrow : s.cursorY.toNat + (max 24 t.highest - 24) = t.row := hrun.window.row
  rw [hrun.cursor]
  show s.cursorY.toNat * 80 + s.cursorX.toNat + _ = _
  omega

end Refinement

end OsImplement.Monitor
