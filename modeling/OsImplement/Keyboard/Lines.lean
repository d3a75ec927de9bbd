import OsImplement.Keyboard.Fifo
import OsImplement.Monitor.Printf
import OsImplement.Shell.Session

/-!
Lines from the keyboard (`scanf` of `keyboard.c`).

`scanf` asks `keyboard_getchar` for one byte after another, and keys are pressed between any two of
its calls. The shell's model of a line is one function of all its bytes. The two agree: what was
stored is cut behind each newline, and each piece is the line of one call (`lines_of_run`), which
comes back once its newline is there (`line_arrives`). The screen shows what was typed
(`echo_of_run`).
-/

namespace OsImplement.Keyboard

open Lib.Step Monitor

/-! ### The code -/

inductive Place where
  | idle
  /-- In the first loop of `scanf`. -/
  | waiting
  /-- In its second loop. -/
  | reading
  deriving DecidableEq

/-- A call of `scanf` that is over: the bytes it took, and `v` before and after. -/
structure Call where
  tip : List UInt8
  keys : List UInt8
  before : ℕ → UInt8
  after : ℕ → UInt8

/-- The task that reads, beside the driver. -/
structure Reader where
  history : History
  screen : Screen
  place : Place
  tip : List UInt8
  v : ℕ → UInt8
  /-- `t_v - v` -/
  t : ℕ
  /-- `v` at the call. -/
  before : ℕ → UInt8
  /-- What this call has taken. -/
  keys : List UInt8
  calls : List Call

inductive ReadEvent where
  | key (scancode : UInt8)
  | call (tip : List UInt8) (v : ℕ → UInt8)
  /-- `keyboard_getchar`, and what `scanf` does with the byte. -/
  | get

namespace Reader

variable (x : Reader)

/-- The test of the second loop, and its body. -/
def take (c : UInt8) : Reader :=
  if c = 0x0A then
    { x with place := .idle, calls := x.calls ++ [⟨x.tip, x.keys, x.before, x.v⟩], keys := [] }
  else if c ≠ 0 then
    { x with
        place := .reading
        screen := x.screen.printed (printf "%c" [.word c.toNat])
        v := Function.update x.v x.t c
        t := x.t + 1 }
  else { x with place := .reading }

/-- `keyboard_getchar` -/
def getchar : UInt8 × Reader :=
  let k := x.history.driver
  let c := (keyboardGetchar k).1
  (c, { x with
    history := x.history.step .getchar
    keys := if k.keyboardBufferStart ≠ k.keyboardBufferEnd then x.keys ++ [c] else x.keys })

def step : ReadEvent → Option Reader
  | .key scancode => some { x with history := x.history.step (.interrupt scancode) }
  | .call tip v =>
    match x.place with
    | .idle => some { x with
        place := .waiting
        screen := x.screen.printed (printf "%s" [.str tip])
        tip := tip
        v := v
        t := 0
        before := v
        keys := [] }
    | _ => none
  | .get =>
    let (c, y) := x.getchar
    match x.place with
    | .idle => none
    | .waiting => some (if c = 0 then y else y.take c)
    | .reading => some (y.take c)

/-- A driver that has just been initialised, and no call. -/
def init (buffer : ℕ → UInt8) (m : Screen) : Reader where
  history := .init buffer
  screen := m
  place := .idle
  tip := []
  v := fun _ => 0
  t := 0
  before := fun _ => 0
  keys := []
  calls := []

def Step (x : Reader) (e : ReadEvent) (y : Reader) : Prop := x.step e = some y

/-- No key is pressed at the point where the full test fails. -/
def Clear (x : Reader) : ReadEvent → Prop
  | .key scancode => x.history.Clear (.interrupt scancode)
  | _ => True

/-- The bytes that are stored and not yet taken. -/
def waits : List UInt8 := pending x.history.driver

end Reader

/-! ### One byte -/

section Steps

variable {x y : Reader} {e : ReadEvent} {es : List ReadEvent} {c : UInt8} {ks : List UInt8}

lemma typed_snoc (h : 0x0A ∉ ks) (c : UInt8) : Shell.typed (ks ++ [c]) =
    if c = 0x0A ∨ c = 0 then Shell.typed ks else Shell.typed ks ++ [c] := by
  induction ks with
  | nil =>
    rw [List.nil_append, Shell.typed_cons]
    by_cases hnl : c = 0x0A
    · simp [hnl, Shell.typed]
    · by_cases h0 : c = 0 <;> simp [hnl, h0, Shell.typed]
  | cons k ks ih =>
    have hk : k ≠ 0x0A := fun hk => h (by simp [hk])
    rw [List.cons_append, Shell.typed_cons, Shell.typed_cons, if_neg hk, if_neg hk,
      ih fun hks => h (List.mem_cons_of_mem _ hks)]
    split_ifs <;> rfl

/-- What is asked of a byte that the driver returns: the driver is left without it. -/
structure Got (x : Reader) (c : UInt8) (h : History) : Prop where
  returned : h.returned = x.history.returned ++ [c]
  stored : h.stored = x.history.stored
  waits : InRange x.history.driver → x.waits = c :: pending h.driver

/-- **One call of `keyboard_getchar`**: there is no byte, or it is no character, or it ends the line,
or it is one more character. -/
lemma get_cases (h : x.step .get = some y) : x.place ≠ .idle ∧
    (x.history.driver.keyboardBufferStart = x.history.driver.keyboardBufferEnd ∧ y = x ∨
      ∃ c h', Got x c h' ∧
        (c = 0 ∧ y = { x with history := h', keys := x.keys ++ [0] } ∨
          c = 0x0A ∧ y = { x with
            history := h'
            place := .idle
            calls := x.calls ++ [⟨x.tip, x.keys ++ [0x0A], x.before, x.v⟩]
            keys := [] } ∨
          c ≠ 0 ∧ c ≠ 0x0A ∧ y = { x with
            history := h'
            place := .reading
            screen := x.screen.printed [c]
            v := Function.update x.v x.t c
            t := x.t + 1
            keys := x.keys ++ [c] })) := by
  have hidle : x.place ≠ .idle := by
    intro hidle
    simp [Reader.step, hidle] at h
  refine ⟨hidle, ?_⟩
  have htake : y = (if x.place = .waiting ∧ x.getchar.1 = 0 then x.getchar.2
      else x.getchar.2.take x.getchar.1) := by
    unfold Reader.step at h
    cases hplace : x.place with
    | idle => exact absurd hplace hidle
    | waiting =>
      simp only [hplace, Option.some.injEq] at h
      simp [← h]
    | reading =>
      simp only [hplace, Option.some.injEq] at h
      simp [← h]
  by_cases hne : x.history.driver.keyboardBufferStart ≠ x.history.driver.keyboardBufferEnd
  · right
    refine ⟨(keyboardGetchar x.history.driver).1, x.history.step .getchar, ⟨?_, ?_, ?_⟩, ?_⟩
    · simp [History.step, hne]
    · simp [History.step, hne]
    · intro hr
      simp only [History.step, if_pos hne]
      exact pending_getchar hr hne
    · have hget : x.getchar = ((keyboardGetchar x.history.driver).1,
          { x with
            history := x.history.step .getchar
            keys := x.keys ++ [(keyboardGetchar x.history.driver).1] }) := by
        simp [Reader.getchar, hne]
      rw [hget] at htake
      generalize (keyboardGetchar x.history.driver).1 = c at htake ⊢
      by_cases h0 : c = 0
      · refine .inl ⟨h0, ?_⟩
        subst h0
        cases hplace : x.place with
        | idle => exact absurd hplace hidle
        | waiting => simp [htake, hplace]
        | reading => simp [htake, hplace, Reader.take]
      · right
        simp only [h0, and_false, if_false] at htake
        by_cases hnl : c = 0x0A
        · refine .inl ⟨hnl, ?_⟩
          subst hnl
          rw [htake]
          rfl
        · refine .inr ⟨h0, hnl, ?_⟩
          rw [htake]
          unfold Reader.take
          rw [if_neg hnl, if_pos h0, printf_char]
  · left
    have heq := not_not.mp hne
    refine ⟨heq, ?_⟩
    have hget : x.getchar = (0, x) := by
      simp [Reader.getchar, History.step, keyboardGetchar, heq]
    rw [hget] at htake
    cases hplace : x.place with
    | idle => exact absurd hplace hidle
    | waiting => simp [htake, hplace]
    | reading =>
      rw [htake]
      simp [hplace, Reader.take]
      rw [← hplace]

end Steps

/-! ### Lines -/

section Lines

variable {x y : Reader} {e : ReadEvent} {es : List ReadEvent} {buffer : ℕ → UInt8} {m : Screen}

/-- One line, that the shell's `scanf` leaves in the buffer. -/
def Call.IsLine (l : Call) : Prop :=
  ∃ ks, l.keys = ks ++ [0x0A] ∧ 0x0A ∉ ks ∧ l.after = Shell.scanf l.keys l.before

/-- The calls so far, and the buffer of the present one. -/
structure Reads (x : Reader) : Prop where
  returned : x.history.returned = x.calls.flatMap Call.keys ++ x.keys
  lines : ∀ l ∈ x.calls, l.IsLine
  open_line : 0x0A ∉ x.keys
  idle : x.place = .idle → x.keys = []
  length : x.place ≠ .idle → x.t = (Shell.typed x.keys).length
  buffer : x.place ≠ .idle → ∀ i, x.v i = (Shell.typed x.keys)[i]?.getD (x.before i)

lemma reads_init (buffer : ℕ → UInt8) (m : Screen) : Reads (.init buffer m) :=
  ⟨rfl, fun _ h => absurd h List.not_mem_nil, List.not_mem_nil, fun _ => rfl,
    fun h => absurd rfl h, fun h => absurd rfl h⟩

/-- **A call that returns** has made of its bytes what the shell's model makes of them. -/
lemma Reads.isLine (h : Reads x) (hplace : x.place ≠ .idle) :
    Call.IsLine ⟨x.tip, x.keys ++ [0x0A], x.before, x.v⟩ := by
  refine ⟨x.keys, rfl, h.open_line, funext fun i => ?_⟩
  rw [Shell.scanf_apply, typed_snoc h.open_line, if_pos (.inl rfl)]
  exact h.buffer hplace i

lemma Reads.get (h : Reads x) (hs : x.step .get = some y) : Reads y := by
  obtain ⟨hplace, ⟨-, rfl⟩ | ⟨c, h', hgot, hc⟩⟩ := get_cases hs
  · exact h
  · have hreturned : h'.returned = x.calls.flatMap Call.keys ++ (x.keys ++ [c]) := by
      rw [hgot.returned, h.returned, List.append_assoc]
    rcases hc with ⟨rfl, rfl⟩ | ⟨rfl, rfl⟩ | ⟨h0, hnl, rfl⟩
    · -- no character
      have htyped := typed_snoc h.open_line 0
      rw [if_pos (.inr rfl)] at htyped
      refine ⟨hreturned, h.lines, ?_, fun hidle => absurd hidle hplace, fun _ => ?_, fun _ i => ?_⟩
      · simpa using h.open_line
      · rw [h.length hplace, htyped]
      · rw [h.buffer hplace, htyped]
    · -- the end of the line
      refine ⟨?_, fun l hl => ?_, List.not_mem_nil, fun _ => rfl, fun hidle => absurd rfl hidle,
        fun hidle => absurd rfl hidle⟩
      · simp [hreturned]
      · rcases List.mem_append.mp hl with hl | hl
        · exact h.lines l hl
        · obtain rfl := List.mem_singleton.mp hl
          exact h.isLine hplace
    · -- one more character
      have htyped := typed_snoc h.open_line c
      rw [if_neg (not_or.mpr ⟨hnl, h0⟩)] at htyped
      refine ⟨hreturned, h.lines, ?_, fun hidle => by simp at hidle, fun _ => ?_, fun _ i => ?_⟩
      · intro hmem
        rcases List.mem_append.mp hmem with hmem | hmem
        · exact h.open_line hmem
        · exact hnl (List.mem_singleton.mp hmem).symm
      · simp [htyped, h.length hplace]
      · show Function.update x.v x.t c i = _
        rw [htyped, Function.update_apply, h.buffer hplace, h.length hplace]
        by_cases hi : i = (Shell.typed x.keys).length
        · simp [hi]
        · rw [if_neg hi]
          rcases Nat.lt_or_gt_of_ne hi with hlt | hgt
          · rw [List.getElem?_append_left hlt]
          · rw [List.getElem?_eq_none (by omega), List.getElem?_eq_none (by simp; omega)]

lemma returned_interrupt (h : History) (scancode : UInt8) :
    (h.step (.interrupt scancode)).returned = h.returned := by
  simp only [History.step]
  split
  · rfl
  · split_ifs <;> rfl

lemma Reads.step (h : Reads x) (hs : x.Step e y) : Reads y := by
  cases e with
  | key scancode =>
    obtain rfl := Option.some.inj hs
    exact ⟨(returned_interrupt _ _).trans h.returned, h.lines, h.open_line, h.idle, h.length,
      h.buffer⟩
  | call tip v =>
    cases hplace : x.place with
    | idle =>
      simp only [Reader.Step, Reader.step, hplace, Option.some.injEq] at hs
      have hkeys := h.idle hplace
      subst hs
      refine ⟨?_, h.lines, List.not_mem_nil, fun _ => rfl, fun _ => rfl, fun _ i => rfl⟩
      rw [h.returned, hkeys]
    | waiting => simp [Reader.Step, Reader.step, hplace] at hs
    | reading => simp [Reader.Step, Reader.step, hplace] at hs
  | get => exact h.get hs

lemma inv_step_reader (h : x.history.Inv) (hs : x.Step e y) (hc : x.Clear e) : y.history.Inv := by
  cases e with
  | key scancode =>
    obtain rfl := Option.some.inj hs
    exact History.inv_step h hc
  | call tip v =>
    cases hplace : x.place with
    | idle =>
      simp only [Reader.Step, Reader.step, hplace, Option.some.injEq] at hs
      subst hs
      exact h
    | waiting => simp [Reader.Step, Reader.step, hplace] at hs
    | reading => simp [Reader.Step, Reader.step, hplace] at hs
  | get =>
    have hclear : x.history.Clear .getchar := fun _ _ he => by cases he
    have hget : y.history = x.history.step .getchar := by
      cases hplace : x.place with
      | idle => simp [Reader.Step, Reader.step, hplace] at hs
      | waiting =>
        simp only [Reader.Step, Reader.step, hplace, Option.some.injEq] at hs
        rw [← hs]
        unfold Reader.take
        split_ifs <;> rfl
      | reading =>
        simp only [Reader.Step, Reader.step, hplace, Option.some.injEq] at hs
        rw [← hs]
        unfold Reader.take
        split_ifs <;> rfl
    rw [hget]
    exact History.inv_step h hclear

/-- A step whose press, if it is one, is clear. -/
def Reader.ClearStep (x : Reader) (e : ReadEvent) (y : Reader) : Prop := x.Step e y ∧ x.Clear e

lemma inv_of_clear (hr : Run Reader.ClearStep (.init buffer m) es x) :
    x.history.Inv ∧ Reads x := by
  refine hr.inv (I := fun _ x => x.history.Inv ∧ Reads x)
    ⟨History.inv_init buffer, reads_init buffer m⟩ ?_
  intro _ x e y h hs
  exact ⟨inv_step_reader h.1 hs.1 hs.2, h.2.step hs.1⟩

/-- **What is typed is read, line by line.** With keys pressed at any time, but none where the full
test fails: the bytes that were stored are those of the calls so far, in order, those of the present
call, and those that wait; each call that has returned took one line with its newline, and left in
the buffer what the shell's model of `scanf` leaves there. -/
theorem lines_of_run (hr : Run Reader.ClearStep (.init buffer m) es x) :
    x.history.stored = x.calls.flatMap Call.keys ++ x.keys ++ x.waits ∧
      (∀ l ∈ x.calls, l.IsLine) ∧ 0x0A ∉ x.keys := by
  obtain ⟨⟨⟨hstored, -⟩, -⟩, h⟩ := inv_of_clear hr
  refine ⟨?_, h.lines, h.open_line⟩
  rw [hstored, h.returned]
  rfl

lemma run_key {scancode : UInt8} (hr : Run Reader.ClearStep (.init buffer m) es x)
    (hc : x.Clear (.key scancode)) : Run Reader.ClearStep (.init buffer m) (es ++ [.key scancode])
      { x with history := x.history.step (.interrupt scancode) } := hr.snoc ⟨rfl, hc⟩

lemma run_enter : ∃ x, Run Reader.ClearStep (.init (fun _ => 0) start.screen)
    [.call [] fun _ => 0, .key 30, .key 28] x ∧ x.place = .waiting ∧ x.waits = [0x61, 0x0A] ∧
      x.calls = [] ∧ x.keys = [] ∧ x.tip = [] := by
  have hcall := Run.single (R := Reader.ClearStep) (s := .init (fun _ => 0) start.screen)
    (a := .call [] fun _ => 0) ⟨rfl, trivial⟩
  have hkey := @run_key _ _ _ _ 30 hcall fun _ _ _ _ => by decide
  have henter := @run_key _ _ _ _ 28 hkey fun _ _ _ _ => by decide +kernel
  exact ⟨_, henter, rfl, by decide +kernel, rfl, rfl, rfl⟩

theorem lines_of_run_enter : ∃ x es, Run Reader.ClearStep (.init (fun _ => 0) start.screen) es x ∧
    x.history.stored = [0x61, 0x0A] := by
  obtain ⟨x, hr, -, hwaits, hcalls, hkeys, -⟩ := run_enter
  obtain ⟨hstored, -, -⟩ := lines_of_run hr
  refine ⟨x, _, hr, ?_⟩
  rw [hstored, hwaits, hcalls, hkeys]
  rfl

/-! ### A line arrives -/

def ReadEvent.isGet : ReadEvent → Bool
  | .get => true
  | _ => false

lemma stored_interrupt (h : History) (scancode : UInt8) :
    ∃ new, (h.step (.interrupt scancode)).stored = h.stored ++ new := by
  simp only [History.step]
  split
  · exact ⟨[], (List.append_nil _).symm⟩
  · split_ifs
    · exact ⟨_, rfl⟩
    · exact ⟨[], (List.append_nil _).symm⟩

lemma waits_key {scancode : UInt8} (h : x.history.Inv) (hs : x.ClearStep (.key scancode) y) :
    ∃ new, y.waits = x.waits ++ new := by
  have hy := inv_step_reader h hs.1 hs.2
  obtain rfl := Option.some.inj hs.1
  obtain ⟨new, hnew⟩ := stored_interrupt x.history scancode
  have hstored := hy.1.1
  rw [hnew, h.1.1, returned_interrupt, List.append_assoc] at hstored
  exact ⟨new, (List.append_cancel_left hstored).symm⟩

/-- The present call of `x`, after `n` more bytes. -/
structure Same (x y : Reader) (n : ℕ) : Prop where
  place : y.place ≠ .idle
  calls : y.calls = x.calls
  before : y.before = x.before
  keys : y.keys = x.keys ++ x.waits.take n
  waits : ∃ new, y.waits = x.waits.drop n ++ new

/-- The present call of `x` has taken one line. -/
def Arrived (x y : Reader) : Prop :=
  ∃ l, y.calls[x.calls.length]? = some l ∧ l.before = x.before ∧
    l.keys = x.keys ++ x.waits.take (x.waits.idxOf 0x0A + 1)

lemma Arrived.step (h : Arrived x y) {z : Reader} (hs : y.Step e z) : Arrived x z := by
  obtain ⟨l, hl, hrest⟩ := h
  have hlt : x.calls.length < y.calls.length := (List.getElem?_eq_some_iff.mp hl).1
  refine ⟨l, ?_, hrest⟩
  cases e with
  | key scancode =>
    obtain rfl := Option.some.inj hs
    exact hl
  | call tip v =>
    cases hplace : y.place with
    | idle =>
      simp only [Reader.Step, Reader.step, hplace, Option.some.injEq] at hs
      subst hs
      exact hl
    | waiting => simp [Reader.Step, Reader.step, hplace] at hs
    | reading => simp [Reader.Step, Reader.step, hplace] at hs
  | get =>
    obtain ⟨-, ⟨-, rfl⟩ | ⟨c, h', -, hc⟩⟩ := get_cases hs
    · exact hl
    · rcases hc with ⟨rfl, rfl⟩ | ⟨rfl, rfl⟩ | ⟨-, -, rfl⟩
      · exact hl
      · show (y.calls ++ _)[x.calls.length]? = some l
        rw [List.getElem?_append_left hlt, hl]
      · exact hl

lemma Same.get {n : ℕ} (h : Same x y n) (hr : InRange y.history.driver)
    (hn : n ≤ x.waits.idxOf 0x0A) (hnl : 0x0A ∈ x.waits) {z : Reader} (hs : y.Step .get z) :
    Same x z (n + 1) ∧ n < x.waits.idxOf 0x0A ∨ Arrived x z := by
  have hlen : n < x.waits.length := lt_of_le_of_lt hn (List.idxOf_lt_length_iff.mpr hnl)
  obtain ⟨new, hwaits⟩ := h.waits
  rw [List.drop_eq_getElem_cons hlen, List.cons_append] at hwaits
  have htake : x.waits.take (n + 1) = x.waits.take n ++ [x.waits[n]] :=
    (List.take_append_getElem hlen).symm
  obtain ⟨hplace, ⟨heq, -⟩ | ⟨c, h', hgot, hc⟩⟩ := get_cases hs
  · -- the driver has a byte
    have hempty : y.waits = [] := by
      unfold Reader.waits pending
      rw [heq]
      exact Lib.Ring.contents_self hr.2
    rw [hempty] at hwaits
    exact absurd hwaits (List.cons_ne_nil _ _).symm
  · have hgot' := hgot.waits hr
    rw [hwaits] at hgot'
    obtain ⟨hc', hrest⟩ := List.cons.inj hgot'
    have hkeys : y.keys ++ [c] = x.keys ++ x.waits.take (n + 1) := by
      rw [h.keys, htake, ← hc', List.append_assoc]
    rcases hc with ⟨rfl, rfl⟩ | ⟨rfl, rfl⟩ | ⟨h0, hnl', rfl⟩
    · have hne : n ≠ x.waits.idxOf 0x0A := by
        intro hn'
        have hget : x.waits[n] = 0x0A := by
          subst hn'
          exact List.getElem_idxOf hlen
        rw [hget] at hc'
        exact absurd hc' (by decide)
      exact .inl ⟨⟨hplace, h.calls, h.before, hkeys, ⟨new, hrest.symm⟩⟩, by omega⟩
    · have hn' : n = x.waits.idxOf 0x0A := by
        by_contra hne
        have hlt : n < x.waits.idxOf 0x0A := by omega
        have hfirst := List.not_of_lt_findIdx hlt
        rw [hc'] at hfirst
        exact absurd hfirst (by simp)
      refine .inr ⟨⟨y.tip, y.keys ++ [0x0A], y.before, y.v⟩, ?_, h.before, ?_⟩
      · show (y.calls ++ _)[x.calls.length]? = _
        rw [h.calls, List.getElem?_concat_length]
      · show y.keys ++ _ = _
        rw [hkeys, hn']
    · have hne : n ≠ x.waits.idxOf 0x0A := by
        intro hn'
        have hget : x.waits[n] = 0x0A := by
          subst hn'
          exact List.getElem_idxOf hlen
        exact hnl' (hc'.symm.trans hget)
      exact .inl ⟨⟨by simp, h.calls, h.before, hkeys, ⟨new, hrest.symm⟩⟩, by omega⟩

/-- **A line that is there arrives.** A call of `scanf` with a newline among the bytes that wait
returns after as many calls of `keyboard_getchar` as there are bytes up to that newline, whatever
keys are pressed meanwhile: with exactly these bytes. -/
theorem line_arrives {es' : List ReadEvent} (hr : Run Reader.ClearStep (.init buffer m) es x)
    (hplace : x.place ≠ .idle) (hnl : 0x0A ∈ x.waits) (hr' : Run Reader.ClearStep x es' y)
    (hgets : x.waits.idxOf 0x0A < es'.countP ReadEvent.isGet) :
    ∃ l, y.calls[x.calls.length]? = some l ∧
      l.keys = x.keys ++ x.waits.take (x.waits.idxOf 0x0A + 1) ∧
      l.after = Shell.scanf l.keys x.before := by
  have hy := inv_of_clear (Run.append_iff.mpr ⟨x, hr, hr'⟩)
  have hrun : y.history.Inv ∧ (Same x y (es'.countP ReadEvent.isGet) ∧
      es'.countP ReadEvent.isGet ≤ x.waits.idxOf 0x0A ∨ Arrived x y) := by
    refine hr'.inv (I := fun es y => y.history.Inv ∧ (Same x y (es.countP ReadEvent.isGet) ∧
      es.countP ReadEvent.isGet ≤ x.waits.idxOf 0x0A ∨ Arrived x y)) ⟨(inv_of_clear hr).1, .inl
      ⟨⟨hplace, rfl, rfl, by simp, ⟨[], by simp⟩⟩, Nat.zero_le _⟩⟩ ?_
    intro es y e z ⟨hinv, h⟩ hs
    refine ⟨inv_step_reader hinv hs.1 hs.2, ?_⟩
    rw [List.countP_append, List.countP_singleton]
    rcases h with ⟨h, hle⟩ | h
    · cases e with
      | key scancode =>
        obtain ⟨new, hwaits⟩ := waits_key hinv hs
        obtain rfl := Option.some.inj hs.1
        obtain ⟨new', hwaits'⟩ := h.waits
        refine .inl ⟨⟨h.place, h.calls, h.before, h.keys, ⟨new' ++ new, ?_⟩⟩, hle⟩
        rw [hwaits, hwaits', List.append_assoc]
        rfl
      | call tip v =>
        have hcall := hs.1
        cases hplace : y.place with
        | idle => exact absurd hplace h.place
        | waiting => simp [Reader.Step, Reader.step, hplace] at hcall
        | reading => simp [Reader.Step, Reader.step, hplace] at hcall
      | get => exact h.get hinv.2 hle hnl hs.1
    · exact .inr (h.step hs.1)
  rcases hrun.2 with ⟨-, hle⟩ | ⟨l, hl, hbefore, hkeys⟩
  · omega
  · obtain ⟨ks, -, -, hafter⟩ := hy.2.lines l (List.mem_of_getElem? hl)
    exact ⟨l, hl, hkeys, by rw [hafter, hbefore]⟩

lemma get_enter (hr : Run Reader.ClearStep (.init buffer m) es x) (hplace : x.place = .waiting)
    (hwaits : x.waits = [0x61, 0x0A]) :
    ∃ y, x.Step .get y ∧ y.place = .reading ∧ y.keys = x.keys ++ [0x61] ∧ y.calls = x.calls ∧
      y.tip = x.tip := by
  obtain ⟨y, hy⟩ : ∃ y, x.Step .get y := by
    simp [Reader.Step, Reader.step, hplace]
  have hrange := (inv_of_clear hr).1.2
  refine ⟨y, hy, ?_⟩
  obtain ⟨-, ⟨heq, -⟩ | ⟨c, h', hgot, hc⟩⟩ := get_cases hy
  · have hempty : x.waits = [] := by
      unfold Reader.waits pending
      rw [heq]
      exact Lib.Ring.contents_self hrange.2
    rw [hempty] at hwaits
    cases hwaits
  · obtain rfl : (0x61 : UInt8) = c := (List.cons.inj (hwaits.symm.trans (hgot.waits hrange))).1
    rcases hc with ⟨h0, -⟩ | ⟨hnl, -⟩ | ⟨-, -, rfl⟩
    · cases h0
    · cases hnl
    · exact ⟨rfl, rfl, rfl, rfl⟩

theorem line_arrives_enter : ∃ x y, Run Reader.ClearStep x [.get, .get] y ∧
    ∃ l, y.calls[x.calls.length]? = some l ∧ l.keys = [0x61, 0x0A] := by
  obtain ⟨x, hr, hplace, hwaits, hcalls, hkeys, -⟩ := run_enter
  obtain ⟨y, hy, hy', -⟩ := get_enter hr hplace hwaits
  obtain ⟨z, hz⟩ : ∃ z, y.Step .get z := by
    simp [Reader.Step, Reader.step, hy']
  have hrun : Run Reader.ClearStep x [.get, .get] z := (Run.single ⟨hy, trivial⟩).snoc ⟨hz, trivial⟩
  obtain ⟨l, hl, hkeys', -⟩ := line_arrives hr (by simp [hplace]) (by simp [hwaits]) hrun
    (by rw [hwaits]; decide)
  refine ⟨x, z, hrun, l, hl, ?_⟩
  rw [hkeys', hkeys, hwaits]
  rfl

/-! ### The echo -/

/-- What the calls print: the tip, and each character that is taken. The newline is not printed. -/
def Reader.echo (x : Reader) : List UInt8 :=
  x.calls.flatMap (fun l => l.tip ++ Shell.typed l.keys) ++
    if x.place = .idle then [] else x.tip ++ Shell.typed x.keys

lemma Reads.echo_step (h : Reads x) (hs : x.Step e y) :
    ∃ out, y.screen = x.screen.printed out ∧ y.echo = x.echo ++ out := by
  cases e with
  | key scancode =>
    obtain rfl := Option.some.inj hs
    exact ⟨[], rfl, (List.append_nil _).symm⟩
  | call tip v =>
    cases hplace : x.place with
    | idle =>
      simp only [Reader.Step, Reader.step, hplace, Option.some.injEq] at hs
      subst hs
      refine ⟨tip, by rw [printf_str], ?_⟩
      simp [Reader.echo, hplace, Shell.typed]
    | waiting => simp [Reader.Step, Reader.step, hplace] at hs
    | reading => simp [Reader.Step, Reader.step, hplace] at hs
  | get =>
    obtain ⟨hplace, ⟨-, rfl⟩ | ⟨c, h', -, hc⟩⟩ := get_cases hs
    · exact ⟨[], rfl, (List.append_nil _).symm⟩
    · have htyped := typed_snoc h.open_line c
      rcases hc with ⟨rfl, rfl⟩ | ⟨rfl, rfl⟩ | ⟨h0, hnl, rfl⟩
      · refine ⟨[], rfl, ?_⟩
        rw [if_pos (.inr rfl)] at htyped
        simp [Reader.echo, hplace, htyped]
      · refine ⟨[], rfl, ?_⟩
        rw [if_pos (.inl rfl)] at htyped
        simp [Reader.echo, hplace, htyped]
      · refine ⟨[c], rfl, ?_⟩
        rw [if_neg (not_or.mpr ⟨hnl, h0⟩)] at htyped
        simp [Reader.echo, hplace, htyped]

/-- **The screen shows what is typed.** In every run the screen shows the tip of each call and the
characters of its line. They are what the buffer of the call begins with, for the line that is being
typed too, and behind them the buffer is as it was. -/
theorem echo_of_run {t : Terminal} (ht : Shows t m) (hr : Run Reader.Step (.init buffer m) es x) :
    Shows (t.printed x.echo) x.screen ∧
      (∀ l ∈ x.calls, ∀ i, l.after i = (Shell.typed l.keys)[i]?.getD (l.before i)) ∧
      (x.place ≠ .idle → x.t = (Shell.typed x.keys).length ∧
        ∀ i, x.v i = (Shell.typed x.keys)[i]?.getD (x.before i)) := by
  have hrun : Reads x ∧ Shows (t.printed x.echo) x.screen := by
    refine hr.inv (I := fun _ x => Reads x ∧ Shows (t.printed x.echo) x.screen)
      ⟨reads_init buffer m, ht⟩ ?_
    intro _ x e y ⟨h, hshows⟩ hs
    obtain ⟨out, hscreen, hecho⟩ := h.echo_step hs
    refine ⟨h.step hs, ?_⟩
    rw [hscreen, hecho, Terminal.printed_append]
    exact shows_printed hshows out
  refine ⟨hrun.2, fun l hl i => ?_, fun hplace => ⟨hrun.1.length hplace, hrun.1.buffer hplace⟩⟩
  obtain ⟨-, -, -, hafter⟩ := hrun.1.lines l hl
  rw [hafter, Shell.scanf_apply]

theorem echo_of_run_enter : ∃ x : Reader, x.echo = [0x61] ∧
    Shows (Terminal.empty.printed x.echo) x.screen ∧ x.t = 1 ∧ x.v 0 = 0x61 := by
  obtain ⟨x, hr, hplace, hwaits, hcalls, hkeys, htip⟩ := run_enter
  obtain ⟨y, hy, hplace', hkeys', hcalls', htip'⟩ := get_enter hr hplace hwaits
  have hrun : Run Reader.Step (.init (fun _ => 0) start.screen) _ y :=
    (hr.inv (I := fun es x => Run Reader.Step (.init (fun _ => 0) start.screen) es x) .nil
      fun _ _ _ _ h hs => h.snoc hs.1).snoc hy
  obtain ⟨hshows, -, hopen⟩ := echo_of_run (shows_clear _).1 hrun
  obtain ⟨ht, hv⟩ := hopen (by simp [hplace'])
  have htyped : Shell.typed y.keys = [0x61] := by
    rw [hkeys', hkeys]
    decide
  refine ⟨y, ?_, hshows, by rw [ht, htyped]; rfl, by rw [hv, htyped]; rfl⟩
  simp [Reader.echo, hcalls', hcalls, hplace', htip', htip, htyped]

end Lines

end OsImplement.Keyboard
