import OsImplement.Lib.Word
import Mathlib.Logic.Function.Basic

/-!
The keyboard driver (`keyboard.c`): the layout with its control keys, the interrupt handler that
stores one byte for a pressed key, and the reader of the buffer.

The indices of the buffer are 32-bit words, as in the source: the test for a full buffer subtracts
one from the read index before anything is reduced to 256.
-/

namespace OsImplement.Keyboard

open Lib.Word

/-! ### Layouts -/

/-- `keymap_t`. The two tables stop at the last key that has a code; a later key reads `0`. -/
structure Keymap where
  scancodes : List UInt8
  shiftScancodes : List UInt8
  controlMap : List UInt8
  controls : UInt8

/-- The bits of `controls` that the handler asks for. -/
def CONTROL : UInt8 := 0x1
def LSHIFT : UInt8 := 0x8
def RSHIFT : UInt8 := 0x10
def CAPSLOCK : UInt8 := 0x20

/-- The bit of a scancode that tells a release from a press. -/
def RELEASED_MASK : UInt8 := 0x80

/-- The layout the driver starts with. -/
def gb : Keymap where
  scancodes :=
    [0, 27, 49, 50, 51, 52, 53, 54, 55, 56, 57, 48, 45, 61, 8,  -- escape, digits, backspace
     9, 113, 119, 101, 114, 116, 121, 117, 105, 111, 112, 91, 93, 10,  -- tab, letters, newline
     0, 97, 115, 100, 102, 103, 104, 106, 107, 108, 59, 39, 35,  -- control, letters
     0, 92, 122, 120, 99, 118, 98, 110, 109, 44, 46, 47, 0,  -- left shift, letters, right shift
     42, 0, 32, 0,  -- star, alt, space, caps lock
     0, 0, 0, 0, 0, 0, 0, 0, 0, 0, 0, 0, 0, 0, 0,  -- F1 to F10, locks, home, up, page up
     45, 0, 0, 0, 43,  -- minus, left, middle, right, plus
     0, 0, 0, 0, 0, 0, 0, 0, 0, 0]  -- end, down, page down, insert, delete, F11, F12
  shiftScancodes :=
    [0, 27, 33, 64, 35, 36, 37, 94, 38, 42, 40, 41, 95, 43, 8,
     9, 81, 87, 69, 82, 84, 89, 85, 73, 79, 80, 123, 125, 10,
     0, 65, 83, 68, 70, 71, 72, 74, 75, 76, 58, 34, 126,
     0, 124, 90, 88, 67, 86, 66, 78, 77, 60, 62, 63, 0,
     42, 0, 32, 0,
     0, 0, 0, 0, 0, 0, 0, 0, 0, 0, 0, 0, 0, 0, 0,
     45, 0, 0, 0, 43,
     0, 0, 0, 0, 0, 0, 0, 0, 0, 0]
  controlMap := [29, 56, 0, 42, 54, 58, 70, 69]
  controls := 0

/-! ### The driver -/

/-- The state of the driver: the layout `current_layout` points to and the ring buffer. -/
structure Driver where
  currentLayout : Keymap
  keyboardBufferStart : ℕ
  keyboardBufferEnd : ℕ
  keyboardBuffer : ℕ → UInt8

/-- `init_keyboard_driver`, over whatever the buffer holds. -/
def initKeyboardDriver (buffer : ℕ → UInt8) : Driver where
  currentLayout := gb
  keyboardBufferStart := 0
  keyboardBufferEnd := 0
  keyboardBuffer := buffer

/-- `keyboard_getchar`: the byte it returns and the state it leaves. -/
def keyboardGetchar (k : Driver) : UInt8 × Driver :=
  if k.keyboardBufferStart ≠ k.keyboardBufferEnd then
    (k.keyboardBuffer k.keyboardBufferStart,
      { k with keyboardBufferStart := add32 k.keyboardBufferStart 1 &&& 255 })
  else (0, k)

/-- The first of the first `n` control keys of the layout with the given code. -/
def controlKey (l : Keymap) (n : ℕ) (code : UInt8) : Option ℕ :=
  (List.range n).find? fun i => l.controlMap.getD i 0 == code

/-- The bit of the `i`-th control key. -/
def controlBit (i : ℕ) : UInt8 := 1 <<< UInt8.ofNat i

/-- The character of a key, from the table the control keys select. -/
def keyChar (l : Keymap) (scancode : UInt8) : UInt8 :=
  let scancodes :=
    if l.controls &&& (LSHIFT ||| RSHIFT ||| CAPSLOCK) ≠ 0 ∧ l.controls &&& CONTROL = 0 then
      l.shiftScancodes
    else l.scancodes
  scancodes.getD scancode.toNat 0

/-- The full test of the handler lets a byte in. -/
def hasRoom (k : Driver) : Prop := k.keyboardBufferEnd ≠ sub32 k.keyboardBufferStart 1

instance (k : Driver) : Decidable (hasRoom k) := by unfold hasRoom; infer_instance

/-- The end of the handler: the byte goes behind the last one, if there is room. -/
def storeChar (c : UInt8) (k : Driver) : Driver :=
  if hasRoom k then
    { k with
      keyboardBuffer := Function.update k.keyboardBuffer k.keyboardBufferEnd c
      keyboardBufferEnd := add32 k.keyboardBufferEnd 1 &&& 255 }
  else k

/-- `keyboard_handler`, with the scancode read from the port. -/
def keyboardHandler (scancode : UInt8) (k : Driver) : Driver :=
  let l := k.currentLayout
  if scancode &&& RELEASED_MASK ≠ 0 then
    -- a release clears the bit of one of the first five control keys
    match controlKey l 5 (scancode &&& ~~~RELEASED_MASK) with
    | some i => { k with currentLayout := { l with controls := l.controls &&& ~~~controlBit i } }
    | none => k
  else
    match controlKey l 8 scancode with
    | some i =>
      -- a press of a control key toggles its bit
      let controls :=
        if l.controls &&& controlBit i ≠ 0 then l.controls &&& ~~~controlBit i
        else l.controls ||| controlBit i
      { k with currentLayout := { l with controls := controls } }
    | none => storeChar (keyChar l scancode) k

/-- The byte a scancode asks the handler to store: `none` for a release and for a control key. -/
def keyPress (k : Driver) (scancode : UInt8) : Option UInt8 :=
  if scancode &&& RELEASED_MASK ≠ 0 then none
  else match controlKey k.currentLayout 8 scancode with
    | some _ => none
    | none => some (keyChar k.currentLayout scancode)

lemma keyboardHandler_press {k : Driver} {scancode c : UInt8} (h : keyPress k scancode = some c) :
    keyboardHandler scancode k = storeChar c k := by
  unfold keyPress at h
  unfold keyboardHandler
  split at h
  · simp at h
  · next hr =>
    rw [if_neg hr]
    split at h <;> simp_all

lemma keyboardHandler_quiet {k : Driver} {scancode : UInt8} (h : keyPress k scancode = none) :
    (keyboardHandler scancode k).keyboardBufferStart = k.keyboardBufferStart ∧
      (keyboardHandler scancode k).keyboardBufferEnd = k.keyboardBufferEnd ∧
      (keyboardHandler scancode k).keyboardBuffer = k.keyboardBuffer := by
  unfold keyPress at h
  unfold keyboardHandler
  split at h
  · next hr =>
    simp only [if_pos hr]
    split <;> simp
  · next hr =>
    simp only [if_neg hr]
    split at h
    · simp
    · simp at h

end OsImplement.Keyboard
