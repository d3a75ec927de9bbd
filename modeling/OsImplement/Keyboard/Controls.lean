import OsImplement.Keyboard.Fifo

/-!
The control keys.

The handler keeps one bit for each control key. A release clears the bit, but a press inverts it,
whatever kind of key it is: right for caps lock, which is to change with every press, and for a key
that is held it is right as long as no press comes twice. A keyboard that repeats the code of a key
held down sends just that.
-/

namespace OsImplement.Keyboard

open Lib.Step

/-! ### What was delivered -/

/-- The last event of the key was a press, in a log with the newest scancode in front. -/
def held (code : UInt8) : List UInt8 → Bool
  | [] => false
  | e :: log => if e = code then true else if e = code ||| RELEASED_MASK then false
      else held code log

/-- The key was pressed an odd number of times. -/
def locked (code : UInt8) : List UInt8 → Bool
  | [] => false
  | e :: log => if e = code then !locked code log else locked code log

/-- The code of a control key of the layout. -/
def controlCode (i : ℕ) : UInt8 := gb.controlMap.getD i 0

/-- The indices of control, alt and the two shift keys. -/
def heldKeys : List ℕ := [0, 1, 3, 4]

/-- The character of a key for the keys held and the caps lock. -/
def heldChar (log : List UInt8) (scancode : UInt8) : UInt8 :=
  let shift := held (controlCode 3) log || held (controlCode 4) log || locked (controlCode 5) log
  let scancodes := if shift && !held (controlCode 0) log then gb.shiftScancodes else gb.scancodes
  scancodes.getD scancode.toNat 0

/-- The driver and the scancodes it was delivered. -/
structure Watch where
  driver : Driver
  log : List UInt8

/-- A driver just initialised. -/
def Watch.init (buffer : ℕ → UInt8) : Watch := ⟨initKeyboardDriver buffer, []⟩

/-- One event. -/
def Watch.step (w : Watch) : Event → Watch
  | .interrupt scancode => ⟨keyboardHandler scancode w.driver, scancode :: w.log⟩
  | .getchar => ⟨(keyboardGetchar w.driver).2, w.log⟩

/-- A bit of `controls`. -/
def controlOn (controls : UInt8) (i : ℕ) : Prop := controls &&& controlBit i ≠ 0

/-- **The bits of the keys that are held** are set, and no others; and a character that is stored
next has the case of these keys. -/
def Watch.Faithful (w : Watch) : Prop :=
  (∀ i ∈ heldKeys, controlOn w.driver.currentLayout.controls i ↔ held (controlCode i) w.log) ∧
    ∀ scancode c, keyPress w.driver scancode = some c → c = heldChar w.log scancode

/-- The event is not a press of a key that is held down already. -/
def Watch.Fresh (w : Watch) (e : Event) : Prop :=
  ∀ i ∈ heldKeys, e = .interrupt (controlCode i) → held (controlCode i) w.log = false

/-! ### Bits -/

section Bits

variable {c s : UInt8} {i j : ℕ}

lemma controlOn_tests : ∀ c : Fin 256, ∀ i : Fin 8, UInt8.ofNat c &&& controlBit i ≠ 0 ↔
    (UInt8.ofNat c).toBitVec.getLsbD i = true := by
  decide +kernel

lemma controlOn_iff (c : UInt8) (hi : i < 8) : controlOn c i ↔ c.toBitVec.getLsbD i = true := by
  have h := controlOn_tests ⟨c.toNat, UInt8.toNat_lt c⟩ ⟨i, hi⟩
  simpa [controlOn] using h

lemma controlBit_bit (hi : i < 8) (hj : j < 8) :
    (controlBit i).toBitVec.getLsbD j = decide (j = i) := by
  have h : ∀ i j : Fin 8, (controlBit i).toBitVec.getLsbD j = decide (j.val = i.val) := by
    decide
  exact h ⟨i, hi⟩ ⟨j, hj⟩

lemma controlOn_set (hi : i < 8) (hj : j < 8) :
    controlOn (c ||| controlBit i) j ↔ j = i ∨ controlOn c j := by
  rw [controlOn_iff _ hj, controlOn_iff _ hj, UInt8.toBitVec_or, BitVec.getLsbD_or,
    controlBit_bit hi hj]
  simp [or_comm]

lemma controlOn_clear (hi : i < 8) (hj : j < 8) :
    controlOn (c &&& ~~~controlBit i) j ↔ j ≠ i ∧ controlOn c j := by
  rw [controlOn_iff _ hj, controlOn_iff _ hj, UInt8.toBitVec_and, UInt8.toBitVec_not,
    BitVec.getLsbD_and, BitVec.getLsbD_not, controlBit_bit hi hj]
  simp [hj, and_comm]

lemma shift_tests : ∀ c : Fin 256,
    (UInt8.ofNat c &&& (LSHIFT ||| RSHIFT ||| CAPSLOCK) ≠ 0 ∧ UInt8.ofNat c &&& CONTROL = 0) ↔
      ((UInt8.ofNat c &&& controlBit 3 ≠ 0 ∨ UInt8.ofNat c &&& controlBit 4 ≠ 0 ∨
        UInt8.ofNat c &&& controlBit 5 ≠ 0) ∧ ¬ UInt8.ofNat c &&& controlBit 0 ≠ 0) := by
  decide +kernel

lemma release_code (hs : s &&& RELEASED_MASK ≠ 0) (hi : i < 8) :
    s = controlCode i ||| RELEASED_MASK ↔ controlCode i = s &&& ~~~RELEASED_MASK := by
  have h : ∀ s : Fin 256, ∀ i : Fin 8, UInt8.ofNat s &&& RELEASED_MASK ≠ 0 →
      (UInt8.ofNat s = controlCode i ||| RELEASED_MASK ↔
        controlCode i = UInt8.ofNat s &&& ~~~RELEASED_MASK) := by
    decide +kernel
  simpa using h ⟨s.toNat, UInt8.toNat_lt s⟩ ⟨i, hi⟩ (by simpa using hs)

lemma controlCode_press (i : Fin 8) : controlCode i &&& RELEASED_MASK = 0 ∧
    (controlCode i ||| RELEASED_MASK) &&& RELEASED_MASK ≠ 0 := by
  revert i
  decide

lemma controlCode_inj (hi : i < 8) (hj : j < 8) (h : controlCode i = controlCode j) : i = j := by
  have hall : ∀ i j : Fin 8, controlCode i = controlCode j → i.val = j.val := by decide
  exact hall ⟨i, hi⟩ ⟨j, hj⟩ h

end Bits

/-! ### One scancode -/

section Handler

variable {k : Driver} {l : Keymap} {scancode code : UInt8} {i j n : ℕ}

lemma controlKey_some (hl : l.controlMap = gb.controlMap) (h : controlKey l n code = some i) :
    i < n ∧ controlCode i = code := by
  simp only [controlKey, List.find?_range_eq_some, hl] at h
  exact ⟨List.mem_range.mp h.2.1, by simpa [controlCode] using h.1⟩

lemma controlKey_of_code (hl : l.controlMap = gb.controlMap) (hn : n ≤ 8) (hi : i < n)
    (h : controlCode i = code) : controlKey l n code = some i := by
  cases hk : controlKey l n code with
  | none =>
    simp only [controlKey, List.find?_eq_none, hl, List.mem_range] at hk
    exact absurd (beq_iff_eq.mpr h) (hk i hi)
  | some j =>
    obtain ⟨hj, hc⟩ := controlKey_some hl hk
    rw [controlCode_inj (by omega) (by omega) (hc.trans h.symm)]

lemma storeChar_layout {c : UInt8} : (storeChar c k).currentLayout = k.currentLayout := by
  unfold storeChar
  split <;> rfl

lemma handler_other (hl : k.currentLayout.controlMap = gb.controlMap) (hj : j < 8)
    (hp : scancode ≠ controlCode j) (hr : ¬ (j < 5 ∧ scancode = controlCode j ||| RELEASED_MASK)) :
    controlOn (keyboardHandler scancode k).currentLayout.controls j ↔
      controlOn k.currentLayout.controls j := by
  unfold keyboardHandler
  by_cases hrel : scancode &&& RELEASED_MASK ≠ 0
  · simp only [if_pos hrel]
    cases hk : controlKey k.currentLayout 5 (scancode &&& ~~~RELEASED_MASK) with
    | none => rfl
    | some i =>
      obtain ⟨hi, hc⟩ := controlKey_some hl hk
      have hne : j ≠ i := by
        rintro rfl
        exact hr ⟨hi, (release_code hrel hj).mpr hc⟩
      simp only [controlOn_clear (show i < 8 by omega) hj]
      exact ⟨And.right, fun h => ⟨hne, h⟩⟩
  · simp only [if_neg hrel]
    cases hk : controlKey k.currentLayout 8 scancode with
    | none => simp only [storeChar_layout]
    | some i =>
      obtain ⟨hi, hc⟩ := controlKey_some hl hk
      have hne : j ≠ i := by
        rintro rfl
        exact hp hc.symm
      simp only
      split
      · rw [controlOn_clear hi hj]
        exact ⟨And.right, fun h => ⟨hne, h⟩⟩
      · rw [controlOn_set hi hj]
        exact ⟨fun h => h.resolve_left hne, .inr⟩

lemma handler_press (hl : k.currentLayout.controlMap = gb.controlMap) (hj : j < 8) :
    controlOn (keyboardHandler (controlCode j) k).currentLayout.controls j ↔
      ¬ controlOn k.currentLayout.controls j := by
  unfold keyboardHandler
  have hrel : ¬ controlCode j &&& RELEASED_MASK ≠ 0 := not_not.mpr (controlCode_press ⟨j, hj⟩).1
  simp only [if_neg hrel, controlKey_of_code hl (le_refl 8) hj rfl]
  by_cases hon : k.currentLayout.controls &&& controlBit j ≠ 0
  · rw [if_pos hon, controlOn_clear hj hj]
    exact ⟨fun h => absurd rfl h.1, fun h => absurd hon h⟩
  · rw [if_neg hon, controlOn_set hj hj]
    exact ⟨fun _ => hon, fun _ => .inl rfl⟩

lemma handler_release (hl : k.currentLayout.controlMap = gb.controlMap) (hj : j < 5) :
    ¬ controlOn (keyboardHandler (controlCode j ||| RELEASED_MASK) k).currentLayout.controls j := by
  have hj8 : j < 8 := by omega
  have hrel := (controlCode_press ⟨j, hj8⟩).2
  have hcode := (release_code hrel hj8).mp rfl
  have hk := controlKey_of_code hl (show 5 ≤ 8 by omega) hj hcode
  unfold keyboardHandler
  simp only [if_pos hrel, hk, controlOn_clear hj8 hj8]
  exact fun h => h.1 rfl

lemma handler_layout :
    (keyboardHandler scancode k).currentLayout.scancodes = k.currentLayout.scancodes ∧
      (keyboardHandler scancode k).currentLayout.shiftScancodes = k.currentLayout.shiftScancodes ∧
      (keyboardHandler scancode k).currentLayout.controlMap = k.currentLayout.controlMap := by
  unfold keyboardHandler
  by_cases hrel : scancode &&& RELEASED_MASK ≠ 0
  · simp only [if_pos hrel]
    cases controlKey k.currentLayout 5 (scancode &&& ~~~RELEASED_MASK) <;> exact ⟨rfl, rfl, rfl⟩
  · simp only [if_neg hrel]
    cases controlKey k.currentLayout 8 scancode with
    | some _ => exact ⟨rfl, rfl, rfl⟩
    | none => simp only [storeChar_layout, and_self]

end Handler

/-! ### Every sequence of events -/

/-- The layout is the one the driver started with, the bits of the held keys are right, and the bit
of caps lock counts its presses. -/
structure Watch.Kept (w : Watch) : Prop where
  scancodes : w.driver.currentLayout.scancodes = gb.scancodes
  shiftScancodes : w.driver.currentLayout.shiftScancodes = gb.shiftScancodes
  controlMap : w.driver.currentLayout.controlMap = gb.controlMap
  keys : ∀ i ∈ heldKeys, controlOn w.driver.currentLayout.controls i ↔ held (controlCode i) w.log
  caps : controlOn w.driver.currentLayout.controls 5 ↔ locked (controlCode 5) w.log

variable {w : Watch} {e : Event}

lemma heldKeys_lt {i : ℕ} (hi : i ∈ heldKeys) : i < 5 := by
  simp only [heldKeys, List.mem_cons, List.not_mem_nil, or_false] at hi
  omega

lemma Watch.Kept.init (buffer : ℕ → UInt8) : (Watch.init buffer).Kept where
  scancodes := rfl
  shiftScancodes := rfl
  controlMap := rfl
  keys i _ := by simp [Watch.init, initKeyboardDriver, gb, controlOn, held]
  caps := by simp [Watch.init, initKeyboardDriver, gb, controlOn, locked]

lemma Watch.Kept.faithful (h : w.Kept) : w.Faithful := by
  refine ⟨h.keys, fun scancode c hc => ?_⟩
  unfold keyPress at hc
  split at hc
  · cases hc
  · split at hc
    · cases hc
    · cases hc
      have ht := shift_tests ⟨_, UInt8.toNat_lt w.driver.currentLayout.controls⟩
      simp only [UInt8.ofNat_toNat] at ht
      have h0 := h.keys 0 (by decide)
      have h3 := h.keys 3 (by decide)
      have h4 := h.keys 4 (by decide)
      have h5 := h.caps
      simp only [controlOn] at h0 h3 h4 h5
      simp only [keyChar, heldChar, h.scancodes, h.shiftScancodes, ht, h0, h3, h4, h5]
      simp [or_assoc]

lemma Watch.step_kept (h : w.Kept) (hf : w.Fresh e) : (w.step e).Kept := by
  cases e with
  | getchar =>
    have hl : (keyboardGetchar w.driver).2.currentLayout = w.driver.currentLayout := by
      unfold keyboardGetchar
      split <;> rfl
    refine ⟨?_, ?_, ?_, ?_, ?_⟩ <;> simp only [Watch.step, hl]
    exacts [h.scancodes, h.shiftScancodes, h.controlMap, h.keys, h.caps]
  | interrupt scancode =>
    obtain ⟨h1, h2, h3⟩ := @handler_layout w.driver scancode
    refine ⟨h1.trans h.scancodes, h2.trans h.shiftScancodes, h3.trans h.controlMap, ?_, ?_⟩
    · intro i hi
      have hi5 := heldKeys_lt hi
      have hi8 : i < 8 := by omega
      simp only [Watch.step, held]
      by_cases hp : scancode = controlCode i
      · subst hp
        -- the bit is inverted: it was clear, since the key was up
        have hup := hf i hi rfl
        rw [handler_press h.controlMap hi8, h.keys i hi, hup]
        simp
      · by_cases hr : scancode = controlCode i ||| RELEASED_MASK
        · have hoff := @handler_release w.driver i h.controlMap hi5
          rw [← hr] at hoff
          rw [if_neg hp, if_pos hr]
          exact ⟨fun hon => absurd hon hoff, fun hon => by cases hon⟩
        · rw [if_neg hp, if_neg hr, handler_other h.controlMap hi8 hp (fun h => hr h.2)]
          exact h.keys i hi
    · simp only [Watch.step, locked]
      by_cases hp : scancode = controlCode 5
      · subst hp
        rw [if_pos rfl, handler_press h.controlMap (by omega), h.caps]
        simp
      · rw [if_neg hp, handler_other h.controlMap (by omega) hp (by omega)]
        exact h.caps

lemma Watch.step_unfaithful (h : w.Kept) (hf : ¬ w.Fresh e) : ¬ (w.step e).Faithful := by
  simp only [Watch.Fresh, not_forall, Bool.not_eq_false] at hf
  obtain ⟨i, hi, rfl, hdown⟩ := hf
  intro hp
  have hi8 : i < 8 := by
    have := heldKeys_lt hi
    omega
  have hoff := (handler_press h.controlMap hi8).not.mpr (not_not.mpr ((h.keys i hi).mpr hdown))
  exact hoff ((hp.1 i hi).mpr (by simp [Watch.step, held]))

/-- **The bits of the held keys are right all along** exactly when no key is pressed that is down
already, as it is with every code that the keyboard repeats. -/
theorem controls_held_iff (buffer : ℕ → UInt8) (es : List Event) :
    Always Watch.step Watch.Faithful (.init buffer) es ↔
      Guarded Watch.step Watch.Fresh (.init buffer) es :=
  always_iff_guarded (fun _ h => h.faithful) (fun _ _ h hf => Watch.step_kept h hf)
    (fun _ _ h hf => Watch.step_unfaithful h hf) (.init buffer)

/-- The left shift key is held down until its code is repeated: its bit is clear. -/
theorem controls_held_fails :
    ¬ Always Watch.step Watch.Faithful (.init fun _ => 0) [.interrupt 42, .interrupt 42] := by
  intro h
  have hon := (h.last.1 3 (by decide)).mpr rfl
  revert hon
  unfold controlOn
  decide +kernel

end OsImplement.Keyboard
