import OsImplement.Monitor.Terminal
import OsImplement.Lib.Bytes
import Mathlib.Data.Nat.Digits.Lemmas

/-!
Formatted output (`printf.c`).

`vprintf` reads a format and a list of arguments from memory and puts characters on the monitor.
What it is to print is given by the pieces of the format: literal characters and conversions. A `%`
takes the byte behind it whatever it is, the NUL of the format included.
-/

namespace OsImplement.Monitor

open Lib.Bytes

/-! ### The code -/

/-- The monitor, and `ret`, an `int`. -/
structure Printer where
  screen : Screen
  ret : BitVec 32

/-- `monitor_put` and `ret++` -/
def Printer.put (p : Printer) (c : UInt8) : Printer := ⟨p.screen.monitorPut c.toInt8, p.ret + 1⟩

/-- `"0123456789abcdef"` -/
def hex : List UInt8 :=
  [0x30, 0x31, 0x32, 0x33, 0x34, 0x35, 0x36, 0x37, 0x38, 0x39, 0x61, 0x62, 0x63, 0x64, 0x65, 0x66]

/-- The loop of `%d` and `%u`, with what it has stored in `buf`. -/
def decLoop (u : ℕ) (buf : List UInt8) : List UInt8 :=
  let buf := buf ++ [UInt8.ofNat (0x30 + u % 10)]
  if u / 10 = 0 then buf else decLoop (u / 10) buf

/-- The loop of `%x` -/
def hexLoop (u : ℕ) (buf : List UInt8) : List UInt8 :=
  let buf := buf ++ [hex.getD (u &&& 0xF) 0]
  if u >>> 4 = 0 then buf else hexLoop (u >>> 4) buf
termination_by u
decreasing_by
  rw [Nat.shiftRight_eq_div_pow] at *
  omega

/-- What `%d` stores in `buf`. The magnitude of the least number is as `-i` wraps. -/
def intBuf (i : ℕ) : List UInt8 :=
  if i < 2 ^ 31 then decLoop i [] else decLoop (2 ^ 32 - i) [] ++ [0x2D]

/-- `dumpbuf` -/
def dumpbuf (buf : List UInt8) (p : Printer) : Printer := buf.reverse.foldl Printer.put p

/-- The loop of `%s` -/
def putString (m : Mem) : ℕ → ℕ → Printer → Option Printer
  | 0, _, _ => none
  | fuel + 1, s, p =>
    if read8 m s = 0 then some p else putString m fuel (s + 1) (p.put (read8 m s))

/-- `vprintf`, with the format at `fmt` and the arguments at `ap`. -/
def vprintf (m : Mem) : ℕ → ℕ → ℕ → Printer → Option Printer
  | 0, _, _, _ => none
  | fuel + 1, fmt, ap, p =>
    let c := read8 m fmt
    if c = 0 then some p
    else if c = 0x25 then
      let c := read8 m (fmt + 1)
      let arg := read32 m ap
      if c = 0x63 then vprintf m fuel (fmt + 2) (ap + 4) (p.put (UInt8.ofNat arg))
      else if c = 0x73 then
        match putString m fuel arg p with
        | some p => vprintf m fuel (fmt + 2) (ap + 4) p
        | none => none
      else if c = 0x64 then vprintf m fuel (fmt + 2) (ap + 4) (dumpbuf (intBuf arg) p)
      else if c = 0x75 then vprintf m fuel (fmt + 2) (ap + 4) (dumpbuf (decLoop arg []) p)
      else if c = 0x78 then vprintf m fuel (fmt + 2) (ap + 4) (dumpbuf (hexLoop arg []) p)
      else vprintf m fuel (fmt + 2) ap (p.put c)
    else vprintf m fuel (fmt + 1) ap (p.put c)

/-! ### Formats -/

inductive Conv where
  | char
  | str
  | int
  | uns
  | hex
  deriving DecidableEq

inductive Piece where
  | lit (c : UInt8)
  | conv (k : Conv)
  deriving DecidableEq

inductive Arg where
  | word (w : ℕ)
  | str (s : List UInt8)

/-- What the byte behind a `%` means. -/
def directive (c : UInt8) : Piece :=
  if c = 0x63 then .conv .char
  else if c = 0x73 then .conv .str
  else if c = 0x64 then .conv .int
  else if c = 0x75 then .conv .uns
  else if c = 0x78 then .conv .hex
  else .lit c

/-- The pieces of a format. -/
def pieces : List UInt8 → List Piece
  | [] => []
  | [0x25] => []
  | c :: d :: s => if c = 0x25 then directive d :: pieces s else .lit c :: pieces (d :: s)
  | [c] => [.lit c]

/-- The format ends in a `%` with nothing behind it. -/
def endsOpen : List UInt8 → Bool
  | [] => false
  | [c] => c = 0x25
  | c :: d :: s => if c = 0x25 then endsOpen s else endsOpen (d :: s)

/-- A number in base `b`. -/
def numeral (b : ℕ) (digit : ℕ → UInt8) (u : ℕ) : List UInt8 :=
  if u = 0 then [digit 0] else ((Nat.digits b u).map digit).reverse

def decDigit (d : ℕ) : UInt8 := UInt8.ofNat (0x30 + d)

def hexDigit (d : ℕ) : UInt8 := hex.getD d 0

/-- A word as a signed number, in base 10. -/
def intNumeral (w : ℕ) : List UInt8 :=
  if w < 2 ^ 31 then numeral 10 decDigit w else 0x2D :: numeral 10 decDigit (2 ^ 32 - w)

/-- What a conversion prints, if its argument is of the right kind. -/
def convert : Conv → Arg → Option (List UInt8)
  | .char, .word w => some [UInt8.ofNat w]
  | .str, .str s => some s
  | .int, .word w => some (intNumeral w)
  | .uns, .word w => some (numeral 10 decDigit w)
  | .hex, .word w => some (numeral 16 hexDigit w)
  | _, _ => none

/-- What a format prints, if there are arguments of the right kinds for it. -/
def render : List Piece → List Arg → Option (List UInt8)
  | [], _ => some []
  | .lit c :: ps, as => (render ps as).map (c :: ·)
  | .conv k :: ps, x :: as => (convert k x).bind fun s => (render ps as).map (s ++ ·)
  | .conv _ :: _, [] => none

/-- The characters of a literal. -/
def ascii (s : String) : List UInt8 := s.toList.map fun c => UInt8.ofNat c.toNat

/-- What a call of `printf` puts on the monitor. -/
def printf (fmt : String) (args : List Arg) : List UInt8 :=
  (render (pieces (ascii fmt)) args).getD []

/-- Characters on the screen, one behind another. -/
def Screen.printed (m : Screen) (out : List UInt8) : Screen :=
  out.foldl (fun m c => m.monitorPut c.toInt8) m

def Terminal.printed (t : Terminal) (out : List UInt8) : Terminal :=
  out.foldl (fun t c => t.put c.toInt8) t

/-- The bytes are in memory from `a` on. -/
def BytesAt (m : Mem) : ℕ → List UInt8 → Prop
  | _, [] => True
  | a, c :: s => read8 m a = c ∧ BytesAt m (a + 1) s

/-- A string with its NUL. -/
def StringAt (m : Mem) (a : ℕ) (s : List UInt8) : Prop := (∀ c ∈ s, c ≠ 0) ∧ BytesAt m a (s ++ [0])

/-- An argument at `ap`. -/
def ArgAt (m : Mem) (ap : ℕ) : Arg → Prop
  | .word w => read32 m ap = w
  | .str s => StringAt m (read32 m ap) s

/-- The arguments, from `ap` on. -/
def ArgsAt (m : Mem) : ℕ → List Arg → Prop
  | _, [] => True
  | ap, x :: as => ArgAt m ap x ∧ ArgsAt m (ap + 4) as

/-! ### Numbers -/

section Numbers

variable {b u : ℕ} {digit : ℕ → UInt8}

lemma numeral_eq (hb : 1 < b) (u : ℕ) : numeral b digit u =
    (if u / b = 0 then [] else numeral b digit (u / b)) ++ [digit (u % b)] := by
  unfold numeral
  by_cases hu : u = 0
  · subst hu
    simp
  · rw [if_neg hu, Nat.digits_def' hb (Nat.pos_of_ne_zero hu), List.map_cons, List.reverse_cons]
    by_cases hq : u / b = 0
    · simp [hq]
    · rw [if_neg hq, if_neg hq]

lemma decLoop_eq (u : ℕ) (buf : List UInt8) :
    decLoop u buf = buf ++ (numeral 10 decDigit u).reverse := by
  induction u using Nat.strongRecOn generalizing buf with
  | ind u ih =>
    rw [decLoop, numeral_eq (by decide)]
    by_cases hq : u / 10 = 0
    · simp [hq, decDigit]
    · rw [if_neg hq, if_neg hq, ih (u / 10) (by omega)]
      simp [decDigit]

/-- A shift and a mask are a quotient and a remainder. -/
lemma hexLoop_eq (u : ℕ) (buf : List UInt8) :
    hexLoop u buf = buf ++ (numeral 16 hexDigit u).reverse := by
  induction u using Nat.strongRecOn generalizing buf with
  | ind u ih =>
    have hand : u &&& 0xF = u % 16 := Nat.and_two_pow_sub_one_eq_mod u 4
    have hshift : u >>> 4 = u / 16 := Nat.shiftRight_eq_div_pow u 4
    rw [hexLoop, numeral_eq (by decide), hand, hshift]
    by_cases hq : u / 16 = 0
    · simp [hq, hexDigit]
    · rw [if_neg hq, if_neg hq, ih (u / 16) (by omega)]
      simp [hexDigit]

lemma intBuf_eq (w : ℕ) : intBuf w = (intNumeral w).reverse := by
  unfold intBuf intNumeral
  split <;> simp [decLoop_eq]

lemma dumpbuf_eq {cs : List UInt8} (p : Printer) : dumpbuf cs.reverse p = cs.foldl Printer.put p := by
  rw [dumpbuf, List.reverse_reverse]

end Numbers

/-! ### Runs -/

section Runs

variable {m : Mem} {fmt ap : ℕ} {p q : Printer} {f s out : List UInt8} {args : List Arg}
  {ps rest : List Piece} {c d : UInt8}

/-- With enough fuel, `vprintf` ends with the printer `q`. -/
def Prints (m : Mem) (fmt ap : ℕ) (p q : Printer) : Prop :=
  ∃ N, ∀ fuel ≥ N, vprintf m fuel fmt ap p = some q

lemma putString_eq {a : ℕ} (hs : StringAt m a s) (p : Printer) :
    ∃ N, ∀ fuel ≥ N, putString m fuel a p = some (s.foldl Printer.put p) := by
  obtain ⟨hne, hb⟩ := hs
  induction s generalizing a p with
  | nil =>
    refine ⟨1, fun fuel hfuel => ?_⟩
    obtain ⟨n, rfl⟩ : ∃ n, fuel = n + 1 := ⟨fuel - 1, by omega⟩
    rw [putString, if_pos hb.1]
    rfl
  | cons c s ih =>
    obtain ⟨N, hN⟩ := ih (p := p.put c) (fun d hd => hne d (by simp [hd])) hb.2
    refine ⟨N + 1, fun fuel hfuel => ?_⟩
    obtain ⟨n, rfl⟩ : ∃ n, fuel = n + 1 := ⟨fuel - 1, by omega⟩
    rw [putString, hb.1, if_neg (hne c (by simp)), hN n (by omega)]
    rfl

lemma Prints.lit (hc : read8 m fmt = c) (h0 : c ≠ 0) (h25 : c ≠ 0x25)
    (h : Prints m (fmt + 1) ap (p.put c) q) : Prints m fmt ap p q := by
  obtain ⟨N, hN⟩ := h
  refine ⟨N + 1, fun fuel hfuel => ?_⟩
  obtain ⟨n, rfl⟩ : ∃ n, fuel = n + 1 := ⟨fuel - 1, by omega⟩
  rw [vprintf]
  simp only [hc, if_neg h0, if_neg h25]
  exact hN n (by omega)

lemma Prints.escape (h25 : read8 m fmt = 0x25) (hd : directive (read8 m (fmt + 1)) = .lit c)
    (h : Prints m (fmt + 2) ap (p.put c) q) : Prints m fmt ap p q := by
  obtain ⟨N, hN⟩ := h
  refine ⟨N + 1, fun fuel hfuel => ?_⟩
  obtain ⟨n, rfl⟩ : ∃ n, fuel = n + 1 := ⟨fuel - 1, by omega⟩
  unfold directive at hd
  split_ifs at hd with hc hs hi hu hx
  rw [vprintf]
  simp only [h25, if_neg (show (0x25 : UInt8) ≠ 0 by decide), if_true, if_neg hc, if_neg hs,
    if_neg hi, if_neg hu, if_neg hx]
  rw [Piece.lit.inj hd]
  exact hN n (by omega)

lemma Prints.conv {k : Conv} {x : Arg} (h25 : read8 m fmt = 0x25)
    (hd : directive (read8 m (fmt + 1)) = .conv k) (hx : ArgAt m ap x)
    (hout : convert k x = some out)
    (h : Prints m (fmt + 2) (ap + 4) (out.foldl Printer.put p) q) : Prints m fmt ap p q := by
  obtain ⟨N, hN⟩ := h
  have hstep (hput : ∃ N, ∀ n ≥ N, vprintf m (n + 1) fmt ap p =
      vprintf m n (fmt + 2) (ap + 4) (out.foldl Printer.put p)) : Prints m fmt ap p q := by
    obtain ⟨N', hN'⟩ := hput
    refine ⟨max N N' + 1, fun fuel hfuel => ?_⟩
    obtain ⟨n, rfl⟩ : ∃ n, fuel = n + 1 := ⟨fuel - 1, by omega⟩
    rw [hN' n (by omega), hN n (by omega)]
  apply hstep
  have hne : (0x25 : UInt8) ≠ 0 := by decide
  unfold directive at hd
  split_ifs at hd with hc hs hi hu hx'
  · obtain rfl := Piece.conv.inj hd
    cases x with
    | str s => simp [convert] at hout
    | word w =>
      obtain rfl := Option.some.inj hout
      refine ⟨0, fun n _ => ?_⟩
      rw [vprintf]
      simp only [h25, if_neg hne, if_true, if_pos hc, show read32 m ap = w from hx]
      rfl
  · obtain rfl := Piece.conv.inj hd
    cases x with
    | word w => simp [convert] at hout
    | str s =>
      obtain rfl := Option.some.inj hout
      obtain ⟨N', hN'⟩ := putString_eq hx p
      refine ⟨N', fun n hn => ?_⟩
      rw [vprintf]
      simp only [h25, if_neg hne, if_true, if_neg hc, if_pos hs, hN' n hn]
  · obtain rfl := Piece.conv.inj hd
    cases x with
    | str s => simp [convert] at hout
    | word w =>
      obtain rfl := Option.some.inj hout
      refine ⟨0, fun n _ => ?_⟩
      rw [vprintf]
      simp only [h25, if_neg hne, if_true, if_neg hc, if_neg hs, if_pos hi,
        show read32 m ap = w from hx]
      rw [intBuf_eq, dumpbuf_eq]
  · obtain rfl := Piece.conv.inj hd
    cases x with
    | str s => simp [convert] at hout
    | word w =>
      obtain rfl := Option.some.inj hout
      refine ⟨0, fun n _ => ?_⟩
      rw [vprintf]
      simp only [h25, if_neg hne, if_true, if_neg hc, if_neg hs, if_neg hi, if_pos hu,
        show read32 m ap = w from hx]
      rw [decLoop_eq, List.nil_append, dumpbuf_eq]
  · obtain rfl := Piece.conv.inj hd
    cases x with
    | str s => simp [convert] at hout
    | word w =>
      obtain rfl := Option.some.inj hout
      refine ⟨0, fun n _ => ?_⟩
      rw [vprintf]
      simp only [h25, if_neg hne, if_true, if_neg hc, if_neg hs, if_neg hi, if_neg hu, if_pos hx',
        show read32 m ap = w from hx]
      rw [hexLoop_eq, List.nil_append, dumpbuf_eq]

/-- What follows the pieces of a format: where it ends in a `%`, its NUL is printed. -/
def following (f : List UInt8) (rest : List Piece) : List Piece :=
  if endsOpen f then .lit 0 :: rest else rest

/-- Where `vprintf` goes on behind a format. -/
def behind (f : List UInt8) : ℕ := f.length + if endsOpen f then 1 else 0

theorem prints_append (rest : List Piece) (hf : ∀ c ∈ f, c ≠ 0) (hb : BytesAt m fmt (f ++ [0]))
    (hrest : ∀ ap args p out, ArgsAt m ap args → render rest args = some out →
      Prints m (fmt + behind f) ap p (out.foldl Printer.put p)) :
    ∀ ap args p out, ArgsAt m ap args → render (pieces f ++ following f rest) args = some out →
      Prints m fmt ap p (out.foldl Printer.put p) := by
  induction f using pieces.induct generalizing fmt with
  | case1 => exact hrest
  | case2 =>
    -- the NUL is taken as a directive
    intro ap args p out hargs hr
    obtain ⟨o, ho, rfl⟩ := Option.map_eq_some_iff.mp hr
    exact .escape hb.1 (by rw [hb.2.1]; rfl) (hrest ap args _ o hargs ho)
  | case3 d s ih =>
    have hopen : endsOpen (0x25 :: d :: s) = endsOpen s := by simp [endsOpen]
    have hpieces : pieces (0x25 :: d :: s) = directive d :: pieces s := by simp [pieces]
    have hd : read8 m (fmt + 1) = d := hb.2.1
    have hbehind : fmt + behind (0x25 :: d :: s) = fmt + 2 + behind s := by
      simp only [behind, hopen, List.length_cons]
      omega
    rw [hbehind] at hrest
    have hgo := @ih (fmt + 2) (fun c hc => hf c (by simp [hc])) hb.2.2 hrest
    intro ap args p out hargs hr
    rw [hpieces, following, hopen, List.cons_append] at hr
    cases hdir : directive d with
    | lit c =>
      rw [hdir] at hr
      obtain ⟨o, ho, rfl⟩ := Option.map_eq_some_iff.mp hr
      exact .escape hb.1 (by rw [hd, hdir]) (hgo ap args _ o hargs ho)
    | conv k =>
      rw [hdir] at hr
      cases args with
      | nil => cases hr
      | cons x args =>
        obtain ⟨o, ho, hr⟩ := Option.bind_eq_some_iff.mp hr
        obtain ⟨o', ho', rfl⟩ := Option.map_eq_some_iff.mp hr
        refine .conv hb.1 (by rw [hd, hdir]) hargs.1 ho ?_
        rw [List.foldl_append]
        exact hgo (ap + 4) args _ o' hargs.2 ho'
  | case4 c d s h25 ih =>
    have hopen : endsOpen (c :: d :: s) = endsOpen (d :: s) := by simp [endsOpen, h25]
    have hpieces : pieces (c :: d :: s) = .lit c :: pieces (d :: s) := by simp [pieces, h25]
    have hbehind : fmt + behind (c :: d :: s) = fmt + 1 + behind (d :: s) := by
      simp only [behind, hopen, List.length_cons]
      omega
    rw [hbehind] at hrest
    have hgo := @ih (fmt + 1) (fun c hc => hf c (List.mem_cons_of_mem _ hc)) hb.2 hrest
    intro ap args p out hargs hr
    rw [hpieces, following, hopen, List.cons_append] at hr
    obtain ⟨o, ho, rfl⟩ := Option.map_eq_some_iff.mp hr
    exact .lit hb.1 (hf c (by simp)) h25 (hgo ap args _ o hargs ho)
  | case5 c h25 =>
    have hopen : endsOpen [c] = false := by simpa [endsOpen] using h25
    have hpieces : pieces [c] = [.lit c] := by
      rw [pieces]
      exact h25
    intro ap args p out hargs hr
    rw [hpieces, following, hopen, List.cons_append] at hr
    obtain ⟨o, ho, rfl⟩ := Option.map_eq_some_iff.mp hr
    have hK := hrest ap args (p.put c) o hargs ho
    rw [behind, hopen] at hK
    exact .lit hb.1 (hf c (by simp)) h25 hK

lemma prints_nil (h0 : read8 m fmt = 0) : Prints m fmt ap p p := by
  refine ⟨1, fun fuel hfuel => ?_⟩
  obtain ⟨n, rfl⟩ : ∃ n, fuel = n + 1 := ⟨fuel - 1, by omega⟩
  rw [vprintf]
  exact if_pos h0

lemma bytesAt_append {a : ℕ} {s t : List UInt8} :
    BytesAt m a (s ++ t) ↔ BytesAt m a s ∧ BytesAt m (a + s.length) t := by
  induction s generalizing a with
  | nil => simp [BytesAt]
  | cons c s ih =>
    rw [List.cons_append, BytesAt, BytesAt, ih, List.length_cons, and_assoc,
      show a + 1 + s.length = a + (s.length + 1) by omega]

lemma prints_closed (hf : StringAt m fmt f) (hopen : endsOpen f = false) (hargs : ArgsAt m ap args)
    (hr : render (pieces f) args = some out) :
    Prints m fmt ap p (out.foldl Printer.put p) := by
  refine prints_append [] hf.1 hf.2 (fun ap args p out _ hr => ?_) ap args p out hargs
    (by rwa [following, hopen, if_neg Bool.false_ne_true, List.append_nil])
  obtain rfl := Option.some.inj hr
  refine prints_nil ?_
  rw [behind, hopen]
  exact ((bytesAt_append.mp hf.2).2).1

lemma foldl_put (out : List UInt8) (p : Printer) : out.foldl Printer.put p =
    ⟨(out.map UInt8.toInt8).foldl (fun m c => m.monitorPut c) p.screen,
      p.ret + BitVec.ofNat 32 out.length⟩ := by
  induction out generalizing p with
  | nil => simp
  | cons c out ih =>
    rw [List.foldl_cons, ih]
    simp only [Printer.put, List.map_cons, List.foldl_cons, List.length_cons]
    congr 1
    bv_omega

/-- **What `vprintf` shows.** A format whose arguments are of the right kinds is printed to its end:
the screen shows the terminal behind the characters that the format stands for, and their number is
returned. Only the 2000 cells are touched. -/
theorem vprintf_shows {t : Terminal} (hf : StringAt m fmt f) (hopen : endsOpen f = false)
    (hargs : ArgsAt m ap args) (hr : render (pieces f) args = some out) (ht : Shows t p.screen) :
    ∃ q, Prints m fmt ap p q ∧ q.ret = p.ret + BitVec.ofNat 32 out.length ∧
      Shows ((out.map UInt8.toInt8).foldl Terminal.put t) q.screen ∧ Within p.screen q.screen := by
  refine ⟨_, prints_closed hf hopen hargs hr, ?_, ?_⟩
  · rw [foldl_put]
  · rw [foldl_put]
    exact shows_run _ ht

/-- The format `"%d"` at `0x1000`, `"%"` and `"a"` behind each other at `0x1010`, and 7 at
`0x2000`. -/
def formats : Mem := fun a =>
  if a = 0x1000 ∨ a = 0x1010 then 0x25 else if a = 0x1001 then 0x64 else if a = 0x1012 then 0x61 else
    if a = 0x2000 then 7 else 0

def start : Printer :=
  ⟨(⟨0, 0, fun _ => 0, [], 0, fun _ => 0⟩ : Screen).monitorClear, 0⟩

theorem vprintf_shows_int : ∃ q, Prints formats 0x1000 0x2000 start q ∧ q.ret = 1 := by
  have hf : StringAt formats 0x1000 [0x25, 0x64] := ⟨by simp, ⟨rfl, rfl, rfl, trivial⟩⟩
  have hargs : ArgsAt formats 0x2000 [.word 7] := ⟨rfl, trivial⟩
  have hr : render (pieces [0x25, 0x64]) [.word 7] = some [0x37] := by
    simp [pieces, directive, render, convert, intNumeral, numeral, decDigit]
  obtain ⟨q, hq, hret, -⟩ := vprintf_shows (p := start) hf rfl hargs hr (shows_clear _).1
  exact ⟨q, hq, hret⟩

/-- **A `%` at the end of a format takes the NUL with it**: a NUL is printed, and whatever lies
behind the format in memory is printed as a format too. -/
theorem vprintf_open {g : List UInt8} (hf : StringAt m fmt f) (hopen : endsOpen f = true)
    (hg : StringAt m (fmt + f.length + 1) g) (hclosed : endsOpen g = false)
    (hargs : ArgsAt m ap args) (hr : render (pieces f ++ .lit 0 :: pieces g) args = some out) :
    Prints m fmt ap p (out.foldl Printer.put p) := by
  refine prints_append (pieces g) hf.1 hf.2 (fun ap args p out hargs hr => ?_) ap args p out
    hargs (by rwa [following, hopen, if_pos rfl])
  rw [behind, hopen]
  exact prints_closed hg hclosed hargs hr

theorem vprintf_open_percent :
    Prints formats 0x1010 0 start (([0, 0x61] : List UInt8).foldl Printer.put start) := by
  have hf : StringAt formats 0x1010 [0x25] := ⟨by simp, ⟨rfl, rfl, trivial⟩⟩
  have hg : StringAt formats 0x1012 [0x61] := ⟨by simp, ⟨rfl, rfl, trivial⟩⟩
  have hr : render (pieces [0x25] ++ .lit 0 :: pieces [0x61]) [] = some [0, 0x61] := rfl
  have hargs : ArgsAt formats 0 [] := trivial
  exact vprintf_open hf rfl hg rfl hargs hr

lemma shows_printed {t : Terminal} {m : Screen} (h : Shows t m) (out : List UInt8) :
    Shows (t.printed out) (m.printed out) := by
  have hrun := (shows_run (out.map UInt8.toInt8) h).1
  rw [List.foldl_map, List.foldl_map] at hrun
  exact hrun

lemma Terminal.printed_append (t : Terminal) (s u : List UInt8) :
    t.printed (s ++ u) = (t.printed s).printed u := List.foldl_append

lemma printf_str (s : List UInt8) : printf "%s" [.str s] = s := by
  have h : ascii "%s" = [0x25, 0x73] := by decide
  simp [printf, h, pieces, directive, render, convert]

lemma printf_char (c : UInt8) : printf "%c" [.word c.toNat] = [c] := by
  have h : ascii "%c" = [0x25, 0x63] := by decide
  simp [printf, h, pieces, directive, render, convert]

end Runs

/-! ### Reading numbers back -/

section Read

variable {b u w : ℕ} {digit : ℕ → UInt8} {val : UInt8 → ℕ}

/-- The number that a row of digits stands for. -/
def readNumeral (b : ℕ) (val : UInt8 → ℕ) (s : List UInt8) : ℕ :=
  s.foldl (fun n c => b * n + val c) 0

def decVal (c : UInt8) : ℕ := c.toNat - 0x30

def hexVal (c : UInt8) : ℕ := if c.toNat < 0x3A then c.toNat - 0x30 else c.toNat - 0x57

/-- A row of digits with a sign in front. -/
def readInt (s : List UInt8) : ℤ :=
  if s.head? = some 0x2D then -(readNumeral 10 decVal s.tail : ℤ) else readNumeral 10 decVal s

lemma readNumeral_concat (s : List UInt8) (c : UInt8) :
    readNumeral b val (s ++ [c]) = b * readNumeral b val s + val c := by
  unfold readNumeral
  rw [List.foldl_append]
  rfl

lemma readNumeral_numeral (hb : 1 < b) (hval : ∀ d < b, val (digit d) = d) (u : ℕ) :
    readNumeral b val (numeral b digit u) = u := by
  induction u using Nat.strongRecOn with
  | ind u ih =>
    have hmod : u % b < b := Nat.mod_lt _ (by omega)
    rw [numeral_eq hb, readNumeral_concat, hval _ hmod]
    by_cases hq : u / b = 0
    · rw [if_pos hq]
      have := Nat.div_add_mod u b
      rw [hq, Nat.mul_zero] at this
      show b * 0 + _ = u
      omega
    · have hu : 0 < u := Nat.pos_of_ne_zero fun h0 => hq (by rw [h0, Nat.zero_div])
      rw [if_neg hq, ih (u / b) (Nat.div_lt_self hu hb)]
      exact Nat.div_add_mod u b

lemma numeral_ne_nil (hb : 1 < b) (u : ℕ) : numeral b digit u ≠ [] := by
  rw [numeral_eq hb]
  simp

lemma length_numeral_le (hb : 1 < b) {k : ℕ} (hk : 0 < k) :
    (numeral b digit u).length ≤ k ↔ u < b ^ k := by
  unfold numeral
  by_cases hu : u = 0
  · rw [if_pos hu, hu]
    exact iff_of_true hk (Nat.pow_pos (by omega))
  · rw [if_neg hu, List.length_reverse, List.length_map]
    exact Nat.digits_length_le_iff hb u

lemma head_numeral (hb : 1 < b) (hval : ∀ d < b, val (digit d) = d)
    (h : (numeral b digit u).head? = some (digit 0)) : u = 0 := by
  induction u using Nat.strongRecOn with
  | ind u ih =>
    by_contra hu
    rw [numeral_eq hb] at h
    by_cases hq : u / b = 0
    · have hlt : u < b := Nat.lt_of_div_eq_zero (by omega) hq
      rw [if_pos hq, Nat.mod_eq_of_lt hlt] at h
      have hdigit : digit u = digit 0 := by simpa using h
      have := congrArg val hdigit
      rw [hval u hlt, hval 0 (by omega)] at this
      exact hu this
    · rw [if_neg hq] at h
      have hne : numeral b digit (u / b) ≠ [] := numeral_ne_nil hb _
      rw [List.head?_append_of_ne_nil _ hne] at h
      exact hq (ih (u / b) (Nat.div_lt_self (Nat.pos_of_ne_zero hu) hb) h)

lemma decVal_decDigit : ∀ d < 10, decVal (decDigit d) = d := by decide

lemma hexVal_hexDigit : ∀ d < 16, hexVal (hexDigit d) = d := by decide

lemma mem_numeral (hb : 1 < b) {c : UInt8} (hc : c ∈ numeral b digit u) : ∃ d < b, c = digit d := by
  unfold numeral at hc
  split_ifs at hc
  · exact ⟨0, by omega, List.mem_singleton.mp hc⟩
  · rw [List.mem_reverse, List.mem_map] at hc
    obtain ⟨d, hd, rfl⟩ := hc
    exact ⟨d, Nat.digits_lt_base hb hd, rfl⟩

lemma readInt_intNumeral (hw : w < 2 ^ 32) :
    readInt (intNumeral w) = (BitVec.ofNat 32 w).toInt := by
  have hread := readNumeral_numeral (by decide) decVal_decDigit
  have hint : (BitVec.ofNat 32 w).toInt = if w < 2 ^ 31 then (w : ℤ) else (w : ℤ) - 2 ^ 32 := by
    rw [BitVec.toInt_eq_toNat_cond, BitVec.toNat_ofNat, Nat.mod_eq_of_lt hw]
    split_ifs <;> first | rfl | omega
  rw [hint]
  unfold intNumeral readInt
  by_cases hpos : w < 2 ^ 31
  · rw [if_pos hpos, if_pos hpos, if_neg, hread]
    intro hhead
    -- a digit is no sign
    obtain ⟨d, hd, hc⟩ := mem_numeral (by decide) (List.mem_of_mem_head? hhead)
    have hsign : ∀ d < 10, (0x2D : UInt8) ≠ decDigit d := by decide
    exact hsign d hd hc
  · rw [if_neg hpos, if_neg hpos, List.head?_cons, if_pos rfl, List.tail_cons, hread]
    omega

lemma head_intNumeral (hw : w < 2 ^ 32)
    (h : ((intNumeral w).dropWhile (· = 0x2D)).head? = some 0x30) : w = 0 := by
  have hsign : ∀ d < 10, decDigit d ≠ 0x2D := by decide
  -- digits are kept
  have hdrop (u : ℕ) : (numeral 10 decDigit u).dropWhile (· = 0x2D) = numeral 10 decDigit u := by
    cases hn : numeral 10 decDigit u with
    | nil => rfl
    | cons c s =>
      obtain ⟨d, hd, hc⟩ := @mem_numeral 10 u decDigit (by decide) c
        (show c ∈ numeral 10 decDigit u by simp [hn])
      rw [List.dropWhile_cons_of_neg]
      simpa [hc] using hsign d hd
  unfold intNumeral at h
  split_ifs at h with hpos
  · rw [hdrop] at h
    exact head_numeral (by decide) decVal_decDigit h
  · rw [List.dropWhile_cons_of_pos (by decide), hdrop] at h
    have := head_numeral (by decide) decVal_decDigit h
    omega

/-- **Numbers are printed in full**: each loop stays within `buf`, and what `dumpbuf` puts reads
back as the number, without zeros in front. -/
theorem numbers_spec (hw : w < 2 ^ 32) :
    (intBuf w).length ≤ 11 ∧ (decLoop w []).length ≤ 10 ∧ (hexLoop w []).length ≤ 8 ∧
      readInt (intBuf w).reverse = (BitVec.ofNat 32 w).toInt ∧
      readNumeral 10 decVal (decLoop w []).reverse = w ∧
      readNumeral 16 hexVal (hexLoop w []).reverse = w ∧
      ((decLoop w []).reverse.head? = some 0x30 → w = 0) ∧
      ((hexLoop w []).reverse.head? = some 0x30 → w = 0) ∧
      (((intBuf w).reverse.dropWhile (· = 0x2D)).head? = some 0x30 → w = 0) ∧
      ∀ buf p, dumpbuf buf p = buf.reverse.foldl Printer.put p := by
  have hdec : (decLoop w []).reverse = numeral 10 decDigit w := by
    rw [decLoop_eq, List.nil_append, List.reverse_reverse]
  have hhex : (hexLoop w []).reverse = numeral 16 hexDigit w := by
    rw [hexLoop_eq, List.nil_append, List.reverse_reverse]
  have hlen (u : ℕ) (hu : u < 2 ^ 32) : (numeral 10 decDigit u).length ≤ 10 :=
    (length_numeral_le (by decide) (by decide)).mpr (by omega)
  refine ⟨?_, ?_, ?_, ?_, ?_, ?_, ?_, ?_, ?_, fun _ _ => rfl⟩
  · rw [intBuf_eq, List.length_reverse]
    unfold intNumeral
    split_ifs with hpos
    · have := hlen w hw
      omega
    · have := hlen (2 ^ 32 - w) (by omega)
      rw [List.length_cons]
      omega
  · rw [← List.length_reverse, hdec]
    exact hlen w hw
  · rw [← List.length_reverse, hhex]
    exact (length_numeral_le (by decide) (by decide)).mpr hw
  · rw [intBuf_eq, List.reverse_reverse, readInt_intNumeral hw]
  · rw [hdec, readNumeral_numeral (by decide) decVal_decDigit]
  · rw [hhex, readNumeral_numeral (by decide) hexVal_hexDigit]
  · rw [hdec]
    exact head_numeral (by decide) decVal_decDigit
  · rw [hhex]
    exact head_numeral (by decide) hexVal_hexDigit
  · rw [intBuf_eq, List.reverse_reverse]
    exact head_intNumeral hw

theorem numbers_spec_least : readInt (intBuf (2 ^ 31)).reverse = -(2 ^ 31) :=
  (numbers_spec (by decide)).2.2.2.1

end Read

end OsImplement.Monitor
