import OsImplement.Keyboard.Fifo

/-!
The keyboard buffer between the accesses of `keyboard_getchar`.

A call of `keyboard_getchar` is a sequence of loads and stores, and the keyboard may interrupt it
between any two of them; `keyboard_handler` runs with interrupts off. The read index is one past the
buffer for a moment, and the byte may be loaded after its slot has been given up. The queue holds all
the same: it breaks at the point where it breaks between whole calls, and at no other
(`interleaved_iff_clear`).
-/

namespace OsImplement.Keyboard

open Lib.Word Lib.Ring Lib.Step

/-! ### The accesses -/

/-- Where `keyboard_getchar` is, with what it has loaded. -/
inductive Point where
  | out
  /-- The test has the read index. -/
  | test (start : ℕ)
  | passed
  /-- `keyboard_buffer_start++` has the read index. -/
  | index (i : ℕ)
  /-- The byte is loaded, and the read index stands where it was. -/
  | early (i : ℕ) (c : UInt8)
  /-- The read index is advanced, and the byte is not loaded yet. -/
  | late (i : ℕ)
  | loaded (c : UInt8)
  /-- `keyboard_buffer_start &= 255` has the read index. -/
  | mask (start : ℕ) (c : UInt8)
  | masked (c : UInt8)

/-- A history, with one call of `keyboard_getchar` under way. -/
structure Racing where
  driver : Driver
  point : Point
  stored : List UInt8
  returned : List UInt8
  droppedAt : List ℕ

inductive Access where
  | interrupt (scancode : UInt8)
  /-- The next access. Where C leaves the order open, `byteFirst` loads the byte before the index is
  stored. -/
  | next (byteFirst : Bool)

namespace Racing

variable (x : Racing)

/-- The byte whose slot is given up, until it is returned. -/
def taken : List UInt8 :=
  match x.point with
  | .late i => [x.driver.keyboardBuffer i]
  | .loaded c => [c]
  | .mask _ c => [c]
  | .masked c => [c]
  | _ => []

/-- `keyboard_getchar`, one access further. -/
def getchar (byteFirst : Bool) : Racing :=
  let k := x.driver
  match x.point with
  | .out => { x with point := .test k.keyboardBufferStart }
  | .test start =>
    if start ≠ k.keyboardBufferEnd then { x with point := .passed } else { x with point := .out }
  | .passed => { x with point := .index k.keyboardBufferStart }
  | .index i =>
    if byteFirst then { x with point := .early i (k.keyboardBuffer i) }
    else { x with driver := { k with keyboardBufferStart := add32 i 1 }, point := .late i }
  | .early i c => { x with driver := { k with keyboardBufferStart := add32 i 1 }, point := .loaded c }
  | .late i => { x with point := .loaded (k.keyboardBuffer i) }
  | .loaded c => { x with point := .mask k.keyboardBufferStart c }
  | .mask start c =>
    { x with driver := { k with keyboardBufferStart := start &&& 255 }, point := .masked c }
  | .masked c => { x with point := .out, returned := x.returned ++ [c] }

def step : Access → Racing
  | .interrupt scancode =>
    let driver := keyboardHandler scancode x.driver
    match keyPress x.driver scancode with
    | none => { x with driver := driver }
    | some c =>
      if hasRoom x.driver then { x with driver := driver, stored := x.stored ++ [c] }
      else { x with
        driver := driver
        droppedAt := x.droppedAt ++ [x.stored.length - (x.returned ++ x.taken).length] }
  | .next byteFirst => x.getchar byteFirst

/-- The start: a driver just initialised, and no call. -/
def init (buffer : ℕ → UInt8) : Racing := ⟨initKeyboardDriver buffer, .out, [], [], []⟩

end Racing

/-- The queue: the read index may be one past the buffer. -/
def queued (k : Driver) : List UInt8 :=
  contents 256 k.keyboardBuffer (k.keyboardBufferStart % 256) k.keyboardBufferEnd

/-- **A bounded queue.** The bytes stored are the bytes returned, the byte on its way out and those
in the queue, and a press was dropped only when 255 bytes were in the queue. -/
def Racing.Fifo (x : Racing) : Prop :=
  x.stored = x.returned ++ x.taken ++ queued x.driver ∧ ∀ d ∈ x.droppedAt, d = 255

/-- The access is not a press with read index 0 and write index 255. -/
def Racing.Clear (x : Racing) (a : Access) : Prop :=
  ∀ scancode c, a = .interrupt scancode → keyPress x.driver scancode = some c →
    ¬ (x.driver.keyboardBufferStart = 0 ∧ x.driver.keyboardBufferEnd = 255)

/-! ### A call without interrupts -/

/-- Alone, the accesses make up `keyboard_getchar`, in either order. -/
theorem getchar_alone {x : Racing} (hout : x.point = .out) (b : Bool) :
    let k := x.driver
    (List.replicate (if k.keyboardBufferStart ≠ k.keyboardBufferEnd then 8 else 2) b).foldl
        Racing.getchar x =
      { x with
        driver := (keyboardGetchar k).2
        returned := x.returned ++ if k.keyboardBufferStart ≠ k.keyboardBufferEnd then
          [(keyboardGetchar k).1] else [] } := by
  obtain ⟨k, point, stored, returned, droppedAt⟩ := x
  obtain rfl : point = .out := hout
  dsimp only
  unfold keyboardGetchar
  by_cases hne : k.keyboardBufferStart ≠ k.keyboardBufferEnd
  · rw [if_pos hne, if_pos hne, if_pos hne]
    cases b <;> simp [List.replicate, Racing.getchar, hne]
  · rw [if_neg hne, if_neg hne, if_neg hne]
    simp [List.replicate, Racing.getchar, hne]

/-! ### One access -/

section Accesses

variable {x : Racing} {k : Driver} {c : UInt8} {p : Point}

/-- What a point says about the indices. -/
def Point.Fits (k : Driver) : Point → Prop
  | .out => k.keyboardBufferStart < 256
  | .test start => start = k.keyboardBufferStart ∧ start < 256
  | .passed => k.keyboardBufferStart < 256 ∧ k.keyboardBufferStart ≠ k.keyboardBufferEnd
  | .index i => i = k.keyboardBufferStart ∧ i < 256 ∧ i ≠ k.keyboardBufferEnd
  | .early i c => i = k.keyboardBufferStart ∧ i < 256 ∧ i ≠ k.keyboardBufferEnd ∧
    k.keyboardBuffer i = c
  | .late i => k.keyboardBufferStart = i + 1 ∧ i < 256
  | .loaded _ => 0 < k.keyboardBufferStart ∧ k.keyboardBufferStart ≤ 256
  | .mask start _ => start = k.keyboardBufferStart ∧ 0 < start ∧ start ≤ 256
  | .masked _ => k.keyboardBufferStart < 256

structure Racing.Inv (x : Racing) : Prop where
  fifo : x.Fifo
  fits : x.point.Fits x.driver
  lt : x.driver.keyboardBufferEnd < 256

lemma Point.Fits.le (h : p.Fits k) : k.keyboardBufferStart ≤ 256 := by
  cases p <;> simp only [Point.Fits] at h <;> omega

/-- **The full test**, one past the buffer included: it is the right one away from a read index of
0. -/
lemma room_iff (hs : k.keyboardBufferStart ≤ 256) (h0 : k.keyboardBufferStart ≠ 0)
    (he : k.keyboardBufferEnd < 256) :
    hasRoom k ↔ len 256 (k.keyboardBufferStart % 256) k.keyboardBufferEnd + 1 < 256 := by
  unfold hasRoom
  rw [sub32_eq (by omega) (by omega), len_eq (Nat.mod_lt _ (by decide)) he]
  split_ifs <;> omega

lemma len_of_room (hs : k.keyboardBufferStart ≤ 256) (he : k.keyboardBufferEnd < 256)
    (hwrap : ¬ (k.keyboardBufferStart = 0 ∧ k.keyboardBufferEnd = 255)) (hroom : hasRoom k) :
    len 256 (k.keyboardBufferStart % 256) k.keyboardBufferEnd + 1 < 256 := by
  by_cases h0 : k.keyboardBufferStart = 0
  · rw [h0, len_eq (by decide) he]
    simp only [Nat.zero_mod, Nat.zero_le, if_true]
    omega
  · exact (room_iff hs h0 he).mp hroom

lemma queued_storeChar (he : k.keyboardBufferEnd < 256) (hroom : hasRoom k)
    (hlen : len 256 (k.keyboardBufferStart % 256) k.keyboardBufferEnd + 1 < 256) :
    queued (storeChar c k) = queued k ++ [c] := by
  unfold queued storeChar
  rw [if_pos hroom]
  simp only [next_index he]
  exact contents_push (Nat.mod_lt _ (by decide)) he hlen

lemma length_queued : (queued k).length = len 256 (k.keyboardBufferStart % 256) k.keyboardBufferEnd :=
  length_contents

lemma queued_pop (hs : k.keyboardBufferStart < 256) (he : k.keyboardBufferEnd < 256)
    (hne : k.keyboardBufferStart ≠ k.keyboardBufferEnd) :
    queued k = k.keyboardBuffer k.keyboardBufferStart ::
      queued { k with keyboardBufferStart := add32 k.keyboardBufferStart 1 } := by
  unfold queued
  rw [Nat.mod_eq_of_lt hs, contents_pop hs he hne]
  simp only [add32_eq (show k.keyboardBufferStart + 1 < 2 ^ 32 by omega)]

lemma end_ne (hs : k.keyboardBufferStart < 256) (he : k.keyboardBufferEnd < 256)
    (hlen : len 256 (k.keyboardBufferStart % 256) k.keyboardBufferEnd + 1 < 256) :
    k.keyboardBufferStart ≠ (k.keyboardBufferEnd + 1) % 256 := by
  rw [Nat.mod_eq_of_lt hs] at hlen
  intro h
  have hpush := len_push hs he hlen
  rw [← h, len_eq hs hs] at hpush
  simp at hpush

/-- **A press leaves the call where it is**: the slot that is being read is not the one that is
written. -/
lemma Point.Fits.press (h : p.Fits k) (he : k.keyboardBufferEnd < 256) (hroom : hasRoom k)
    (hlen : len 256 (k.keyboardBufferStart % 256) k.keyboardBufferEnd + 1 < 256) :
    p.Fits (storeChar c k) := by
  unfold storeChar
  rw [if_pos hroom]
  cases p with
  | passed =>
    simp only [Point.Fits, next_index he]
    exact ⟨h.1, end_ne h.1 he hlen⟩
  | index i =>
    obtain ⟨rfl, hi, -⟩ := h
    simp only [Point.Fits, next_index he, true_and]
    exact ⟨hi, end_ne hi he hlen⟩
  | early i b =>
    obtain ⟨rfl, hi, hne, rfl⟩ := h
    simp only [Point.Fits, next_index he, true_and]
    exact ⟨hi, end_ne hi he hlen, Function.update_of_ne hne _ _⟩
  | _ => assumption

lemma taken_press (h : x.point.Fits x.driver) (hroom : hasRoom x.driver) :
    { x with driver := storeChar c x.driver : Racing }.taken = x.taken := by
  obtain ⟨k, p, stored, returned, droppedAt⟩ := x
  unfold storeChar
  dsimp only at h hroom ⊢
  rw [if_pos hroom]
  cases p with
  | late i =>
    obtain ⟨hstart, hi⟩ := h
    have hne : i ≠ k.keyboardBufferEnd := by
      unfold hasRoom at hroom
      rw [hstart, sub32_eq (by omega) (by omega)] at hroom
      omega
    simp only [Racing.taken, Function.update_of_ne hne]
  | _ => rfl

lemma Racing.inv_quiet {scancode : UInt8} (hi : x.Inv) (h : keyPress x.driver scancode = none) :
    (x.step (.interrupt scancode)).Inv := by
  obtain ⟨hs, he, hb⟩ := keyboardHandler_quiet h
  obtain ⟨k, p, stored, returned, droppedAt⟩ := x
  obtain ⟨⟨hfifo, hdropped⟩, hfits, hlt⟩ := hi
  dsimp only at h hs he hb hfits hlt hdropped
  simp only [Racing.step, h]
  refine ⟨⟨?_, hdropped⟩, ?_, by rwa [he]⟩
  · have htaken : taken ⟨keyboardHandler scancode k, p, stored, returned, droppedAt⟩ =
        taken ⟨k, p, stored, returned, droppedAt⟩ := by
      unfold taken
      rw [hb]
    unfold queued
    rw [htaken, hs, he, hb]
    exact hfifo
  · dsimp only
    cases p <;> simp only [Point.Fits, hs, he, hb] at hfits ⊢ <;> exact hfits

lemma Racing.inv_press {scancode : UInt8} (hi : x.Inv) (h : keyPress x.driver scancode = some c)
    (hwrap : ¬ (x.driver.keyboardBufferStart = 0 ∧ x.driver.keyboardBufferEnd = 255)) :
    (x.step (.interrupt scancode)).Inv := by
  have hle := hi.fits.le
  have hhandler := keyboardHandler_press h
  obtain ⟨hfifo, hdropped⟩ := hi.fifo
  by_cases hroom : hasRoom x.driver
  · have hlen := len_of_room hle hi.lt hwrap hroom
    simp only [Racing.step, h, if_pos hroom, hhandler]
    refine ⟨⟨?_, hdropped⟩, hi.fits.press hi.lt hroom hlen, ?_⟩
    · have htaken := taken_press (c := c) hi.fits hroom
      change x.stored ++ [c] = x.returned ++ taken { x with driver := storeChar c x.driver } ++ _
      rw [htaken, queued_storeChar hi.lt hroom hlen, hfifo, List.append_assoc]
    · change (storeChar c x.driver).keyboardBufferEnd < 256
      unfold storeChar
      rw [if_pos hroom]
      simp only [next_index hi.lt]
      omega
  · -- dropped: the read index is not 0, so the queue is full
    have hsame : storeChar c x.driver = x.driver := if_neg hroom
    have h0 : x.driver.keyboardBufferStart ≠ 0 := by
      intro h0
      apply hroom
      unfold hasRoom
      rw [h0]
      have hlt := hi.lt
      unfold sub32
      omega
    have hfull : (queued x.driver).length = 255 := by
      rw [length_queued]
      have hlt := len_lt (e := x.driver.keyboardBufferEnd)
        (Nat.mod_lt x.driver.keyboardBufferStart (show 0 < 256 by decide))
      have hno := mt (room_iff hle h0 hi.lt).mpr hroom
      omega
    simp only [Racing.step, h, if_neg hroom, hhandler, hsame]
    refine ⟨⟨hfifo, fun d hd => ?_⟩, hi.fits, hi.lt⟩
    rcases List.mem_append.mp hd with hd | hd
    · exact hdropped d hd
    · rw [List.mem_singleton.mp hd, hfifo, List.length_append, hfull]
      omega

/-- **Every access of `keyboard_getchar`** keeps the queue: one of them takes a byte out of it, and a
later one returns it. -/
lemma Racing.inv_getchar (hi : x.Inv) (b : Bool) : (x.getchar b).Inv := by
  obtain ⟨k, p, stored, returned, droppedAt⟩ := x
  obtain ⟨⟨hfifo, hdropped⟩, hfits, hlt⟩ := hi
  dsimp only at hfits hlt hdropped hfifo
  cases p with
  | out => exact ⟨⟨hfifo, hdropped⟩, ⟨rfl, hfits⟩, hlt⟩
  | test start =>
    obtain ⟨rfl, hs⟩ := hfits
    simp only [Racing.getchar]
    split
    · rename_i hne
      exact ⟨⟨hfifo, hdropped⟩, ⟨hs, hne⟩, hlt⟩
    · exact ⟨⟨hfifo, hdropped⟩, hs, hlt⟩
  | passed => exact ⟨⟨hfifo, hdropped⟩, ⟨rfl, hfits⟩, hlt⟩
  | index i =>
    obtain ⟨rfl, hs, hne⟩ := hfits
    cases b with
    | true => exact ⟨⟨hfifo, hdropped⟩, ⟨rfl, hs, hne, rfl⟩, hlt⟩
    | false =>
      refine ⟨⟨?_, hdropped⟩, ⟨add32_eq (by omega), hs⟩, hlt⟩
      rw [hfifo, queued_pop hs hlt hne]
      simp [Racing.getchar, taken]
  | early i c =>
    obtain ⟨rfl, hs, hne, rfl⟩ := hfits
    refine ⟨⟨?_, hdropped⟩, ?_, hlt⟩
    · rw [hfifo, queued_pop hs hlt hne]
      simp [Racing.getchar, taken]
    · simp only [Racing.getchar, Point.Fits, add32_eq (show k.keyboardBufferStart + 1 < 2 ^ 32 by omega)]
      omega
  | late i =>
    obtain ⟨hstart, hs⟩ := hfits
    refine ⟨⟨hfifo, hdropped⟩, ?_, hlt⟩
    simp only [Racing.getchar, Point.Fits]
    omega
  | loaded c => exact ⟨⟨hfifo, hdropped⟩, ⟨rfl, hfits⟩, hlt⟩
  | mask start c =>
    obtain ⟨rfl, -, -⟩ := hfits
    refine ⟨⟨?_, hdropped⟩, ?_, hlt⟩
    · simp only [Racing.getchar, queued, and_255, Nat.mod_mod]
      exact hfifo
    · simp only [Racing.getchar, Point.Fits, and_255]
      omega
  | masked c =>
    refine ⟨⟨?_, hdropped⟩, hfits, hlt⟩
    simpa [Racing.getchar, taken] using hfifo

lemma Racing.inv_step {a : Access} (hi : x.Inv) (hc : x.Clear a) : (x.step a).Inv := by
  cases a with
  | interrupt scancode =>
    cases h : keyPress x.driver scancode with
    | none => exact inv_quiet hi h
    | some c => exact inv_press hi h (hc scancode c rfl h)
  | next byteFirst => exact inv_getchar hi byteFirst

lemma Racing.not_fifo_step {a : Access} (hi : x.Inv) (hc : ¬ x.Clear a) : ¬ (x.step a).Fifo := by
  simp only [Clear, not_forall, not_not] at hc
  obtain ⟨scancode, c, rfl, h, hs, he⟩ := hc
  have hroom : hasRoom x.driver := hasRoom_zero ⟨by omega, hi.lt⟩ hs
  have hempty : queued (storeChar c x.driver) = [] := by
    have hwrap := pending_storeChar_wrap (c := c) ⟨by omega, hi.lt⟩ hs he
    unfold queued
    unfold pending at hwrap
    rwa [show (storeChar c x.driver).keyboardBufferStart = 0 by simp [storeChar, hroom, hs]] at hwrap ⊢
  have hfull : (queued x.driver).length = 255 := by
    rw [length_queued, hs, he]
    decide
  rintro ⟨hfifo, -⟩
  have htaken := taken_press (c := c) hi.fits hroom
  simp only [Racing.step, h, if_pos hroom, keyboardHandler_press h] at hfifo
  change x.stored ++ [c] = x.returned ++ taken { x with driver := storeChar c x.driver } ++ _ at hfifo
  rw [htaken, hempty, hi.fifo.1] at hfifo
  have hlength := congrArg List.length hfifo
  simp only [List.length_append, hfull, List.length_singleton, List.length_nil] at hlength
  omega

lemma Racing.inv_init (buffer : ℕ → UInt8) : (init buffer).Inv := by
  refine ⟨⟨?_, by simp [init]⟩, by simp [init, Point.Fits, initKeyboardDriver], by
    simp [init, initKeyboardDriver]⟩
  simp [init, initKeyboardDriver, queued, taken, contents_self]

end Accesses

/-- **The keyboard buffer is a bounded queue under every interleaving** of the accesses of
`keyboard_getchar` with the interrupts of the keyboard, exactly while no key is pressed at the
wrap. -/
theorem interleaved_iff_clear (buffer : ℕ → UInt8) (as : List Access) :
    Always Racing.step Racing.Fifo (Racing.init buffer) as ↔
      Guarded Racing.step Racing.Clear (Racing.init buffer) as :=
  always_iff_guarded (fun _ hi => hi.fifo) (fun _ _ hi hc => Racing.inv_step hi hc)
    (fun _ _ hi hc => Racing.not_fifo_step hi hc) (Racing.inv_init buffer)

end OsImplement.Keyboard
