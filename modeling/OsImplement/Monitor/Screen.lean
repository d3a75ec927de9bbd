import OsImplement.Lib.Loop
import Mathlib.Logic.Function.Basic

/-!
The monitor (`monitor.c`): 80 columns and 25 rows of video memory, a cursor that scrolls the rows
up when it leaves the last one, and the cursor of the VGA board, which is set through two ports.

A cell holds a character in its low byte and an attribute in its high byte. Every access to video
memory is recorded, so that one outside the 2000 cells can be told.
-/

namespace OsImplement.Monitor

open Lib.Loop

def MONITOR_WIDTH : ℕ := 80

def MONITOR_HEIGTH : ℕ := 25

/-- The driver's variables, video memory, and the registers of the VGA board. -/
structure Screen where
  cursorX : UInt8
  cursorY : UInt8
  videoMemory : ℕ → UInt16
  /-- The cells that were read or written, the last first. -/
  accesses : List ℕ
  /-- The register that port `0x3D4` has selected. -/
  crtcIndex : UInt8
  crtc : UInt8 → UInt8

/-- The cell at the cursor. -/
def Screen.location (m : Screen) : ℕ := m.cursorY.toNat * MONITOR_WIDTH + m.cursorX.toNat

/-- Where the VGA board shows the cursor: registers 14 and 15, the high byte first. -/
def Screen.hardwareCursor (m : Screen) : ℕ := (m.crtc 14).toNat * 256 + (m.crtc 15).toNat

/-- The character in a cell. -/
def charOf (cell : UInt16) : Int8 := cell.toUInt8.toInt8

namespace Screen

/-- `video_memory[i] = v` -/
def store (i : ℕ) (v : UInt16) (m : Screen) : Screen :=
  { m with videoMemory := Function.update m.videoMemory i v, accesses := i :: m.accesses }

/-- `video_memory[dst] = video_memory[src]` -/
def copy (dst src : ℕ) (m : Screen) : Screen :=
  store dst (m.videoMemory src) { m with accesses := src :: m.accesses }

/-- `outb`, on the ports of the VGA board. -/
def outb (port : UInt16) (value : UInt8) (m : Screen) : Screen :=
  if port = 0x3D4 then { m with crtcIndex := value }
  else if port = 0x3D5 then { m with crtc := Function.update m.crtc m.crtcIndex value }
  else m

/-- `move_cursor` -/
def moveCursor (m : Screen) : Screen :=
  let cursorLocation := UInt16.ofNat m.location
  (((m.outb 0x3D4 14).outb 0x3D5 (cursorLocation >>> 8).toUInt8).outb 0x3D4 15).outb 0x3D5
    cursorLocation.toUInt8

/-- A white character on black. -/
def attributeByte : UInt8 := ((0 : UInt8) <<< 4) ||| ((15 : UInt8) &&& 0x0F)

/-- The blank that `scroll` writes. -/
def blank : UInt16 := (0x20 : UInt16) ||| (attributeByte.toUInt16 <<< 8)

/-- The first loop of `scroll`: every row but the first is copied up. -/
def copyRows (m : Screen) : Screen :=
  (List.range ((MONITOR_HEIGTH - 1) * MONITOR_WIDTH)).foldl
    (fun m i => m.copy i (i + MONITOR_WIDTH)) m

/-- The second loop of `scroll`, on the last row. -/
def blankRow (m : Screen) : Screen :=
  (List.range MONITOR_WIDTH).foldl
    (fun m i => m.store ((MONITOR_HEIGTH - 1) * MONITOR_WIDTH + i) blank) m

/-- `scroll` -/
def scroll (m : Screen) : Screen :=
  if m.cursorY.toNat ≥ MONITOR_HEIGTH then
    { m.copyRows.blankRow with cursorY := UInt8.ofNat (MONITOR_HEIGTH - 1) }
  else m

/-- `monitor_put`, the action of a character. -/
def act (c : Int8) (m : Screen) : Screen :=
  if c = 0x08 ∧ m.cursorX ≠ 0 then { m with cursorX := m.cursorX - 1 }
  else if c = 0x09 then { m with cursorX := (m.cursorX + 4) &&& ~~~(4 - 1) }
  else if c = 0x0D then { m with cursorX := 0 }
  else if c = 0x0A then { m with cursorY := m.cursorY + 1, cursorX := 0 }
  else if 0x20 ≤ c then
    let m := m.store m.location (c.toInt16.toUInt16 ||| (attributeByte.toUInt16 <<< 8))
    { m with cursorX := m.cursorX + 1 }
  else m

/-- `monitor_put`, the end of a row. -/
def wrap (m : Screen) : Screen :=
  if m.cursorX.toNat ≥ MONITOR_WIDTH then { m with cursorY := m.cursorY + 1, cursorX := 0 } else m

/-- `monitor_put` -/
def monitorPut (c : Int8) (m : Screen) : Screen := (m.act c).wrap.scroll.moveCursor

/-- `monitor_write`, on the bytes from the pointer on: it stops at the first NUL. -/
def monitorWrite : List Int8 → Screen → Screen
  | [], m => m
  | c :: s, m => if c = 0 then m else monitorWrite s (m.monitorPut c)

/-- `monitor_clear` -/
def monitorClear (m : Screen) : Screen :=
  let m := (List.range (MONITOR_WIDTH * MONITOR_HEIGTH)).foldl (fun m i => m.store i 0x0020) m
  moveCursor { m with cursorX := 0, cursorY := 0 }

/-! ### What the loops write -/

/-- From `m` to `m'` the cells become `cells`, by accesses to the 2000 cells only. -/
def Redraws (m m' : Screen) (cells : ℕ → UInt16) : Prop :=
  ∃ log, (∀ a ∈ log, a < 2000) ∧
    m' = { m with videoMemory := cells, accesses := log ++ m.accesses }

section Redraws

variable {m m' m'' : Screen} {cells cells' : ℕ → UInt16} {i j : ℕ} {v : UInt16}

lemma Redraws.refl (m : Screen) : Redraws m m m.videoMemory := ⟨[], by simp, rfl⟩

lemma Redraws.trans (h : Redraws m m' cells) (h' : Redraws m' m'' cells') :
    Redraws m m'' cells' := by
  obtain ⟨log, hlog, rfl⟩ := h
  obtain ⟨log', hlog', rfl⟩ := h'
  refine ⟨log' ++ log, fun a ha => ?_, by simp⟩
  rcases List.mem_append.mp ha with ha | ha
  · exact hlog' a ha
  · exact hlog a ha

lemma Redraws.videoMemory (h : Redraws m m' cells) : m'.videoMemory = cells := by
  obtain ⟨log, -, rfl⟩ := h
  rfl

lemma redraws_store (hi : i < 2000) :
    Redraws m (m.store i v) (Function.update m.videoMemory i v) :=
  ⟨[i], by simpa using hi, rfl⟩

lemma redraws_copy (hi : i < 2000)
    (hj : j < 2000) :
    Redraws m (m.copy i j) (Function.update m.videoMemory i (m.videoMemory j)) :=
  ⟨[i, j], by simp [hi, hj], rfl⟩

/-- The first loop moves every row up by one. No round reads a cell that was written. -/
lemma redraws_copyRows (m : Screen) : Redraws m m.copyRows fun i =>
    if i < 1920 then m.videoMemory (i + 80) else m.videoMemory i := by
  refine foldl_range_inv (N := 1920) (P := fun n m' => Redraws m m' fun i =>
    if i < n then m.videoMemory (i + 80) else m.videoMemory i) ?_ fun n hn m' h => ?_
  · simpa using Redraws.refl m
  · have hcopy : Redraws m (m'.copy n (n + MONITOR_WIDTH)) _ :=
      h.trans (redraws_copy (show n < 2000 by omega) (show n + 80 < 2000 by omega))
    have hsrc : m'.videoMemory (n + MONITOR_WIDTH) = m.videoMemory (n + 80) := by
      rw [h.videoMemory]
      exact if_neg (by rw [show MONITOR_WIDTH = 80 from rfl]; omega)
    convert hcopy using 1
    funext i
    rw [hsrc, h.videoMemory, Function.update_apply]
    by_cases hin : i = n
    · rw [if_pos (by omega), if_pos hin, hin]
    · rw [if_neg hin]
      split_ifs <;> first | rfl | omega

lemma redraws_fill (lo N : ℕ) (hN : lo + N ≤ 2000) (v : UInt16) (m : Screen) :
    Redraws m ((List.range N).foldl (fun m i => m.store (lo + i) v) m) fun i =>
      if lo ≤ i ∧ i < lo + N then v else m.videoMemory i := by
  refine foldl_range_inv (P := fun n m' => Redraws m m' fun i =>
    if lo ≤ i ∧ i < lo + n then v else m.videoMemory i) ?_ fun n hn m' h => ?_
  · convert Redraws.refl m using 1
    funext i
    rw [if_neg (by omega)]
  · have hstore := h.trans (redraws_store (v := v)
      (show lo + n < 2000 by omega))
    convert hstore using 1
    funext i
    rw [h.videoMemory, Function.update_apply]
    split_ifs <;> first | rfl | omega

lemma redraws_rows (m : Screen) : Redraws m m.copyRows.blankRow fun i =>
    if i < 1920 then m.videoMemory (i + 80) else if i < 2000 then blank else m.videoMemory i := by
  have hcopy := redraws_copyRows m
  have hfill := redraws_fill 1920 80 (by decide) blank m.copyRows
  have hrows : Redraws m m.copyRows.blankRow _ := hcopy.trans hfill
  convert hrows using 1
  funext i
  rw [hcopy.videoMemory]
  beta_reduce
  split_ifs <;> first | rfl | omega

lemma redraws_clear (m : Screen) :
    Redraws m ((List.range (MONITOR_WIDTH * MONITOR_HEIGTH)).foldl (fun m i => m.store i 0x0020) m)
      fun i => if i < 2000 then 0x0020 else m.videoMemory i := by
  have hfill := redraws_fill 0 2000 (by decide) 0x0020 m
  simp only [Nat.zero_add, Nat.zero_le, true_and] at hfill
  exact hfill

end Redraws

/-! ### The cursor of the board -/

/-- **The board shows the cursor where the driver has it.** -/
lemma hardwareCursor_moveCursor (m : Screen) : m.moveCursor.hardwareCursor = m.location := by
  have hx := m.cursorX.toNat_lt
  have hy := m.cursorY.toNat_lt
  have hloc : m.location < 2 ^ 16 := by
    unfold location MONITOR_WIDTH
    omega
  have h : m.moveCursor.hardwareCursor =
      ((UInt16.ofNat m.location >>> 8).toUInt8).toNat * 256 +
        ((UInt16.ofNat m.location).toUInt8).toNat := by
    simp [moveCursor, outb, hardwareCursor, Function.update]
  rw [h]
  simp only [UInt16.toNat_toUInt8, UInt16.toNat_shiftRight, UInt16.toNat_ofNat', Nat.shiftRight_eq_div_pow,
    Nat.mod_eq_of_lt hloc, show UInt16.toNat 8 % 16 = 8 from rfl]
  omega

end Screen

end OsImplement.Monitor
