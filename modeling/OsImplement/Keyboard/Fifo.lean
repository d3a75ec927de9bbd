import OsImplement.Keyboard.Driver
import OsImplement.Lib.Ring
import OsImplement.Lib.Step

/-!
The keyboard buffer as a bounded queue.

A history runs the driver beside the bytes its key presses stored, the bytes `keyboard_getchar`
returned while the queue was not empty, and the number of pending bytes at every press that was
dropped. `Fifo` says that these fit a queue of 255 bytes. The one step that breaks it is a press
while the read index is 0 and the write index is 255: one less than the read index is then
`2 ^ 32 - 1`, the full test lets the byte in, and the indices meet.
-/

namespace OsImplement.Keyboard

open Lib.Word Lib.Ring Lib.Step

/-! ### Histories -/

/-- A run of the driver with what went in and out. -/
structure History where
  driver : Driver
  stored : List UInt8
  returned : List UInt8
  droppedAt : List ℕ

/-- What can happen to the driver. -/
inductive Event where
  | interrupt (scancode : UInt8)
  | getchar

/-- The start of every history: a driver just initialised. -/
def History.init (buffer : ℕ → UInt8) : History :=
  ⟨initKeyboardDriver buffer, [], [], []⟩

/-- One event. -/
def History.step (h : History) : Event → History
  | .interrupt scancode =>
    let driver := keyboardHandler scancode h.driver
    match keyPress h.driver scancode with
    | none => { h with driver := driver }
    | some c =>
      if hasRoom h.driver then { h with driver := driver, stored := h.stored ++ [c] }
      else { h with
        driver := driver
        droppedAt := h.droppedAt ++ [h.stored.length - h.returned.length] }
  | .getchar =>
    let (c, driver) := keyboardGetchar h.driver
    if h.driver.keyboardBufferStart ≠ h.driver.keyboardBufferEnd then
      { h with driver := driver, returned := h.returned ++ [c] }
    else { h with driver := driver }

/-- The queue the buffer holds. -/
def pending (k : Driver) : List UInt8 :=
  contents 256 k.keyboardBuffer k.keyboardBufferStart k.keyboardBufferEnd

/-- **A bounded queue.** The bytes stored are the bytes returned followed by the bytes pending, and
a press was dropped only when 255 bytes were pending. -/
def History.Fifo (h : History) : Prop :=
  h.stored = h.returned ++ pending h.driver ∧ ∀ d ∈ h.droppedAt, d = 255

/-- The event is not a press at the point where the full test fails: read index 0, write index
255. -/
def History.Clear (h : History) (e : Event) : Prop :=
  ∀ scancode c, e = .interrupt scancode → keyPress h.driver scancode = some c →
    ¬ (h.driver.keyboardBufferStart = 0 ∧ h.driver.keyboardBufferEnd = 255)

/-! ### The buffer and the queue -/

section Buffer

variable {k : Driver} {c : UInt8}

/-- Both indices lie in the buffer. -/
def InRange (k : Driver) : Prop := k.keyboardBufferStart < 256 ∧ k.keyboardBufferEnd < 256

lemma next_index {i : ℕ} (h : i < 256) : add32 i 1 &&& 255 = (i + 1) % 256 := by
  rw [and_255, add32_eq (by omega)]

lemma hasRoom_iff (h : InRange k) (h0 : k.keyboardBufferStart ≠ 0) :
    hasRoom k ↔ len 256 k.keyboardBufferStart k.keyboardBufferEnd + 1 < 256 := by
  obtain ⟨hs, he⟩ := h
  unfold hasRoom
  rw [sub32_eq (by omega) (by omega), len_eq hs he]
  split_ifs <;> omega

/-- With a read index of 0 the full test always passes. -/
lemma hasRoom_zero (h : InRange k) (h0 : k.keyboardBufferStart = 0) : hasRoom k := by
  have he := h.2
  unfold hasRoom sub32
  omega

lemma inRange_storeChar (h : InRange k) : InRange (storeChar c k) := by
  unfold storeChar
  split
  · exact ⟨h.1, by simp only [and_255]; exact Nat.mod_lt _ (by decide)⟩
  · exact h

lemma pending_storeChar (h : InRange k) (hroom : hasRoom k)
    (hlen : len 256 k.keyboardBufferStart k.keyboardBufferEnd + 1 < 256) :
    pending (storeChar c k) = pending k ++ [c] := by
  unfold pending storeChar
  rw [if_pos hroom]
  simp only [next_index h.2]
  exact contents_push h.1 h.2 hlen

/-- **The slip.** A press with read index 0 and write index 255 empties the queue. -/
lemma pending_storeChar_wrap (h : InRange k) (hs : k.keyboardBufferStart = 0)
    (he : k.keyboardBufferEnd = 255) : pending (storeChar c k) = [] := by
  unfold pending storeChar
  rw [if_pos (hasRoom_zero h hs)]
  simp only [next_index h.2]
  exact contents_push_full h.1 h.2 (by rw [len_eq h.1 h.2, hs, he]; simp)

lemma pending_getchar (h : InRange k) (hne : k.keyboardBufferStart ≠ k.keyboardBufferEnd) :
    pending k = (keyboardGetchar k).1 :: pending (keyboardGetchar k).2 := by
  unfold pending keyboardGetchar
  rw [if_pos hne]
  simp only [next_index h.1]
  exact contents_pop h.1 h.2 hne

lemma inRange_getchar (h : InRange k) : InRange (keyboardGetchar k).2 := by
  unfold keyboardGetchar
  split
  · exact ⟨by simp only [and_255]; exact Nat.mod_lt _ (by decide), h.2⟩
  · exact h

lemma quiet {scancode : UInt8} (h : keyPress k scancode = none) :
    pending (keyboardHandler scancode k) = pending k ∧
      (InRange k → InRange (keyboardHandler scancode k)) := by
  obtain ⟨h1, h2, h3⟩ := keyboardHandler_quiet h
  unfold pending InRange
  rw [h1, h2, h3]
  exact ⟨rfl, id⟩

end Buffer

/-! ### The exact condition -/

/-- The invariant of a run: the queue, with both indices in the buffer. -/
def History.Inv (h : History) : Prop := h.Fifo ∧ InRange h.driver

lemma History.inv_init (buffer : ℕ → UInt8) : (History.init buffer).Inv := by
  refine ⟨⟨?_, by simp [init]⟩, by simp [init, initKeyboardDriver, InRange]⟩
  simp [init, initKeyboardDriver, pending, contents_self]

lemma History.Fifo.pending_length {h : History} (hf : h.Fifo) :
    h.stored.length - h.returned.length =
      len 256 h.driver.keyboardBufferStart h.driver.keyboardBufferEnd := by
  rw [hf.1, List.length_append, Nat.add_sub_cancel_left]
  exact length_contents

lemma History.inv_step {h : History} {e : Event} (hi : h.Inv) (hc : h.Clear e) :
    (h.step e).Inv := by
  obtain ⟨hf, hr⟩ := hi
  cases e with
  | interrupt scancode =>
    simp only [step]
    cases hp : keyPress h.driver scancode with
    | none =>
      obtain ⟨h1, h2⟩ := quiet hp
      exact ⟨⟨by rw [h1]; exact hf.1, hf.2⟩, h2 hr⟩
    | some c =>
      have hwrap := hc scancode c rfl hp
      have hin : InRange (keyboardHandler scancode h.driver) := by
        rw [keyboardHandler_press hp]; exact inRange_storeChar hr
      by_cases hroom : hasRoom h.driver
      · -- stored: the queue grows, and it stays below 256
        have hlen : len 256 h.driver.keyboardBufferStart h.driver.keyboardBufferEnd + 1 < 256 := by
          by_cases h0 : h.driver.keyboardBufferStart = 0
          · have he := hr.2
            rw [len_eq hr.1 hr.2, h0]
            simp only [Nat.zero_le, if_true]
            omega
          · exact (hasRoom_iff hr h0).mp hroom
        simp only [if_pos hroom]
        refine ⟨⟨?_, hf.2⟩, hin⟩
        change h.stored ++ [c] = h.returned ++ pending (keyboardHandler scancode h.driver)
        rw [keyboardHandler_press hp, pending_storeChar hr hroom hlen, ← List.append_assoc, ← hf.1]
      · -- dropped: the read index is not 0, so the queue is full
        have h0 : h.driver.keyboardBufferStart ≠ 0 := fun h0 => hroom (hasRoom_zero hr h0)
        have hfull : len 256 h.driver.keyboardBufferStart h.driver.keyboardBufferEnd = 255 := by
          have h1 := mt (hasRoom_iff hr h0).mpr hroom
          have h2 := len_lt (e := h.driver.keyboardBufferEnd) hr.1
          omega
        have hsame : keyboardHandler scancode h.driver = h.driver := by
          rw [keyboardHandler_press hp]; exact if_neg hroom
        simp only [if_neg hroom]
        refine ⟨⟨by rw [hsame]; exact hf.1, fun d hd => ?_⟩, hin⟩
        rcases List.mem_append.mp hd with hd | hd
        · exact hf.2 d hd
        · rw [List.mem_singleton.mp hd, hf.pending_length, hfull]
  | getchar =>
    by_cases hne : h.driver.keyboardBufferStart ≠ h.driver.keyboardBufferEnd
    · simp only [step, if_pos hne]
      refine ⟨⟨?_, hf.2⟩, inRange_getchar hr⟩
      simp only
      rw [List.append_assoc, List.singleton_append, ← pending_getchar hr hne]
      exact hf.1
    · simp only [step, if_neg hne]
      have hsame : (keyboardGetchar h.driver).2 = h.driver := by
        unfold keyboardGetchar; rw [if_neg hne]
      rw [hsame]
      exact ⟨hf, hr⟩

/-- A press at the bad point loses the 255 bytes pending and its own. -/
lemma History.not_fifo_step {h : History} {e : Event} (hi : h.Inv) (hc : ¬ h.Clear e) :
    ¬ (h.step e).Fifo := by
  obtain ⟨hf, hr⟩ := hi
  simp only [Clear, not_forall, not_not] at hc
  obtain ⟨scancode, c, rfl, hp, hs, he⟩ := hc
  rintro ⟨h1, -⟩
  simp only [step, hp, if_pos (hasRoom_zero hr hs)] at h1
  rw [keyboardHandler_press hp, pending_storeChar_wrap hr hs he] at h1
  have h2 := congrArg List.length hf.1
  have h3 := congrArg List.length h1
  simp only [List.length_append, List.length_singleton, List.length_nil] at h2 h3
  omega

/-- **The keyboard buffer is a bounded queue exactly while no key is pressed at the wrap.** -/
theorem fifo_iff_clear (buffer : ℕ → UInt8) (es : List Event) :
    Always History.step History.Fifo (History.init buffer) es ↔
      Guarded History.step History.Clear (History.init buffer) es :=
  always_iff_guarded (fun _ hi => hi.1) (fun _ _ hi hc => History.inv_step hi hc)
    (fun _ _ hi hc => History.not_fifo_step hi hc) (History.inv_init buffer)

/-- 256 presses of one key, none read: all of them are stored, and the queue reads as empty. -/
theorem fifo_fails_at_wrap :
    ¬ Always History.step History.Fifo (History.init fun _ => 0)
      (List.replicate 256 (.interrupt 30)) := by
  intro h
  have hrun : ∀ s, s = (List.replicate 256 (Event.interrupt 30)).foldl History.step
      (History.init fun _ => 0) → s.stored.length = 256 ∧ s.returned = [] ∧ pending s.driver = [] := by
    intro s hs
    rw [hs]
    decide +kernel
  obtain ⟨hlen, hret, hpend⟩ := hrun _ rfl
  have hq := h.last.1
  rw [hret, hpend] at hq
  rw [hq] at hlen
  simp at hlen

end OsImplement.Keyboard
