import OsImplement.Shell.Session
import OsImplement.Lib.Blocks
import OsImplement.Fs.Initrd

/-!
The bytes that a line touches on its way to a new file: `scanf`, `test_process` with `file_test`,
`open_fs` and `initrd_open`.

Three buffers are on the way. The shell has 256 bytes for the line, `file_test` takes 256 bytes for
the name and copies 250 into them, and a node has 128 bytes for its name. None of the functions is
told a size. `scanf` writes as many characters as there are, and `strcpy`, a `do` loop, looks for a
NUL behind the first byte only.
-/

namespace OsImplement.Shell

open Lib.Probe Lib.Step Lib.Blocks Fs

/-! ### The code -/

/-- The buffers: `v` of `init_shell`, `f` of `file_test`, and the name of the new node. -/
inductive Buffer where
  | line
  | copy
  | name
  deriving DecidableEq

def Buffer.size : Buffer → ℕ
  | .line => 256
  | .copy => 256
  | .name => NAME_SIZE

/-- Code that accesses the buffers. -/
abbrev Code := Prog Buffer UInt8

namespace Code

/-- The second loop of `scanf`. -/
def readLine : List UInt8 → ℕ → Code Unit
  | [], _ => pure ()
  | c :: keys, t =>
    if c = 0x0A then pure ()
    else if c ≠ 0 then do
      Prog.put .line t c
      readLine keys (t + 1)
    else readLine keys t

/-- `scanf` -/
def scanf (keys : List UInt8) : Code Unit := readLine (keys.dropWhile (· = 0)) 0

/-- The writes of `memcpy(f, &v[5], 250)`, from byte `i` on. -/
def storeName : List UInt8 → ℕ → Code Unit
  | [], _ => pure ()
  | c :: name, i => do
    Prog.put .copy i c
    storeName name (i + 1)

/-- The loop of `strcpy(root_nodes[i].name, f)`, at byte `i` and with `n` rounds left. -/
def strcpy : ℕ → ℕ → Code Unit
  | 0, _ => pure ()
  | n + 1, i => do
    Prog.put .name i (← Prog.get .copy i)
    if (← Prog.get .copy (i + 1)) ≠ 0 then strcpy n (i + 1) else pure ()

/-- `initrd_open`, which is what `open_fs` calls for `fs_root`. A pointer has come back to where it
began after `2 ^ 32` rounds of `strcpy`. -/
def initrdOpen : Code Unit := strcpy (2 ^ 32) 0

/-- What `file_test` does with its copy of the name; `close_fs` and the other commands stay away
from `initrd_open`. -/
def act : Action → Code Unit
  | .openFs name => do
    storeName name 0
    initrdOpen
  | .closeFs name => storeName name 0
  | _ => pure ()

/-- `test_process`: it looks at the line, and acts. -/
def testProcess (undef : ℕ) : Code ℕ := do
  let (action, error) ← Prog.ofQuery .line (Shell.testProcess undef)
  act action
  return error

/-- The way of a line in one round of `init_shell`. -/
def round (x : Entry) : Code ℕ := do
  scanf x.keys
  testProcess x.undef

end Code

/-! ### The property -/

/-- A line, with what the block that `_malloc_s` returns for the copy holds, and what is in the name
of the node that gets the file. -/
structure Visit where
  entry : Entry
  copy : ℕ → UInt8
  name : ℕ → UInt8

/-- The buffer reads `f -n`. -/
def ReadsOpen (v : ℕ → UInt8) : Prop := v 0 = 0x66 ∧ v 1 = 0x20 ∧ v 2 = 0x2D ∧ v 3 = 0x6E

instance (v : ℕ → UInt8) : Decidable (ReadsOpen v) := by unfold ReadsOpen; infer_instance

namespace Visit

variable (s : Session) (x : Visit)

/-- The buffers before the round. -/
def buffers : Buffer → ℕ → UInt8
  | .line => s.buffer
  | .copy => x.copy
  | .name => x.name

/-- One round of `init_shell`. -/
def step : Session := s.step x.entry

/-- The keys end with a newline. -/
def Ended : Prop := 0x0A ∈ x.entry.keys

def accesses : List (Access Buffer) := (Code.round x.entry).accesses (x.buffers s)

/-- The copy of the name that `strcpy` gets. -/
def source : ℕ → UInt8 := ((Code.round x.entry).run (x.buffers s)).2 .copy

/-- No access is outside its buffer, and `strcpy` reads nothing behind a NUL. -/
structure InBounds : Prop where
  inside : ∀ a ∈ x.accesses s, a.index < a.block.size
  scanned : ∀ i, .read .copy i ∈ x.accesses s → ∀ k < i, x.source s k ≠ 0

/-- The line over what is left of earlier ones. -/
def laid (i : ℕ) : UInt8 := (typed x.entry.keys)[i]?.getD (s.buffer i)

/-- The line has 256 characters at most. If it reads `f -n` over what is left of earlier ones, the
name behind that has 1 to 128 characters. -/
structure Bounded : Prop where
  line : (typed x.entry.keys).length ≤ 256
  name : ReadsOpen (x.laid s) → x.laid s 5 ≠ 0 ∧ ∃ k ≤ 128, 0 < k ∧ x.laid s (5 + k) = 0

end Visit

/-! ### What the code does -/

section Code

variable {m : Buffer → ℕ → UInt8} {name : List UInt8} {a : Access Buffer} {i n : ℕ}

lemma run_readLine (keys : List UInt8) (t : ℕ) (m : Buffer → ℕ → UInt8) :
    (Code.readLine keys t).run m = ((), Function.update m .line (readLine keys t (m .line))) := by
  induction keys generalizing t m with
  | nil => simp [Code.readLine, readLine]
  | cons c keys ih =>
    unfold Code.readLine readLine
    split_ifs with hnl hc
    · simp
    · simp only [Prog.run_bind, Prog.run_put, ih, Prog.store, Function.update_idem,
        Function.update_self]
    · exact ih t m

/-- `scanf` writes one byte for each character, from the front on. -/
lemma accesses_readLine (keys : List UInt8) (t : ℕ) (m : Buffer → ℕ → UInt8) :
    (Code.readLine keys t).accesses m =
      (List.range' t (typed keys).length).map (.write .line) := by
  induction keys generalizing t m with
  | nil => rfl
  | cons c keys ih =>
    unfold Code.readLine
    rw [typed_cons]
    split_ifs with hnl hc
    · rfl
    · rw [Prog.accesses_bind, Prog.accesses_put, ih]
      rfl
    · exact ih t m

lemma run_scanf (keys : List UInt8) (m : Buffer → ℕ → UInt8) :
    (Code.scanf keys).run m = ((), Function.update m .line (scanf keys (m .line))) :=
  run_readLine _ _ _

lemma accesses_scanf (keys : List UInt8) (m : Buffer → ℕ → UInt8) :
    (Code.scanf keys).accesses m = (List.range (typed keys).length).map (.write .line) := by
  unfold Code.scanf
  rw [accesses_readLine, typed_dropWhile, List.range_eq_range']

lemma run_storeName (name : List UInt8) (i : ℕ) (m : Buffer → ℕ → UInt8) :
    ((Code.storeName name i).run m).2 = Function.update m .copy fun j =>
      if i ≤ j then name[j - i]?.getD (m .copy j) else m .copy j := by
  induction name generalizing i m with
  | nil => simp [Code.storeName]
  | cons c name ih =>
    unfold Code.storeName
    simp only [Prog.run_bind, Prog.run_put, ih, Prog.store, Function.update_idem,
      Function.update_self]
    congr 1
    funext j
    rw [Function.update_apply]
    by_cases hij : j = i
    · subst hij
      simp
    · by_cases hle : i ≤ j
      · rw [if_pos (by omega), if_neg hij, if_pos hle, show j - i = j - (i + 1) + 1 by omega,
          List.getElem?_cons_succ]
      · rw [if_neg (by omega), if_neg hij, if_neg hle]

lemma accesses_storeName (name : List UInt8) (i : ℕ) (m : Buffer → ℕ → UInt8) :
    (Code.storeName name i).accesses m = (List.range' i name.length).map (.write .copy) := by
  induction name generalizing i m with
  | nil => rfl
  | cons c name ih =>
    unfold Code.storeName
    rw [Prog.accesses_bind, Prog.accesses_put, ih]
    rfl

lemma run_strcpy_succ (n i : ℕ) (m : Buffer → ℕ → UInt8) : (Code.strcpy (n + 1) i).run m =
    (if m .copy (i + 1) ≠ 0 then Code.strcpy n (i + 1) else pure ()).run
      (Prog.store m .name i (m .copy i)) := rfl

lemma accesses_strcpy_succ (n i : ℕ) (m : Buffer → ℕ → UInt8) :
    (Code.strcpy (n + 1) i).accesses m = .read .copy i :: .write .name i :: .read .copy (i + 1) ::
      (if m .copy (i + 1) ≠ 0 then Code.strcpy n (i + 1) else pure ()).accesses
        (Prog.store m .name i (m .copy i)) := rfl

lemma store_name_copy (m : Buffer → ℕ → UInt8) (i : ℕ) (b : UInt8) :
    Prog.store m .name i b .copy = m .copy := Prog.store_other (by decide)

lemma run_strcpy_other {o : Buffer} (ho : o ≠ .name) (n i : ℕ) (m : Buffer → ℕ → UInt8) :
    ((Code.strcpy n i).run m).2 o = m o := by
  induction n generalizing i m with
  | zero => rfl
  | succ n ih =>
    rw [run_strcpy_succ]
    split_ifs
    · rw [ih, Prog.store_other ho]
    · exact Prog.store_other ho

/-- **The rounds of `strcpy`**: round `j` is reached when the bytes behind the first one are no NULs
up to `j`. It reads byte `j`, writes it, and looks at the next one. -/
lemma mem_accesses_strcpy (n i : ℕ) (m : Buffer → ℕ → UInt8) :
    a ∈ (Code.strcpy n i).accesses m ↔ ∃ j, i ≤ j ∧ j < i + n ∧
      (∀ k, i < k → k ≤ j → m .copy k ≠ 0) ∧
      (a = .read .copy j ∨ a = .write .name j ∨ a = .read .copy (j + 1)) := by
  induction n generalizing i m with
  | zero =>
    refine iff_of_false (by simp [Code.strcpy]) ?_
    rintro ⟨j, h1, h2, -⟩
    omega
  | succ n ih =>
    rw [accesses_strcpy_succ, List.mem_cons, List.mem_cons, List.mem_cons]
    constructor
    · rintro (h | h | h | h)
      · exact ⟨i, le_rfl, by omega, fun k h1 h2 => absurd h1 (by omega), .inl h⟩
      · exact ⟨i, le_rfl, by omega, fun k h1 h2 => absurd h1 (by omega), .inr (.inl h)⟩
      · exact ⟨i, le_rfl, by omega, fun k h1 h2 => absurd h1 (by omega), .inr (.inr h)⟩
      · split_ifs at h with hne
        · obtain ⟨j, h1, h2, hrest, ha⟩ := (ih (i + 1) _).mp h
          rw [store_name_copy] at hrest
          refine ⟨j, by omega, by omega, fun k hk hkj => ?_, ha⟩
          by_cases hki : k = i + 1
          · rw [hki]
            exact hne
          · exact hrest k (by omega) hkj
        · simp at h
    · rintro ⟨j, h1, h2, hrest, ha⟩
      by_cases hj : j = i
      · subst hj
        rcases ha with ha | ha | ha
        · exact .inl ha
        · exact .inr (.inl ha)
        · exact .inr (.inr (.inl ha))
      · refine .inr (.inr (.inr ?_))
        rw [if_pos (hrest (i + 1) (by omega) (by omega)), ih (i + 1), store_name_copy]
        exact ⟨j, by omega, by omega, fun k hk hkj => hrest k (by omega) hkj, ha⟩

lemma run_strcpy_name (len n i : ℕ) (m : Buffer → ℕ → UInt8)
    (h : ∃ k, i < k ∧ k < i + len ∧ m .copy k = 0) (hn : len ≤ n) :
    ((Code.strcpy n i).run m).2 .name =
      strcpyFrom ((List.range' i len).map (m .copy)) i (m .name) := by
  induction len generalizing n i m with
  | zero =>
    obtain ⟨k, h1, h2, -⟩ := h
    omega
  | succ len ih =>
    obtain ⟨k, h1, h2, hk⟩ := h
    obtain ⟨n, rfl⟩ : ∃ n', n = n' + 1 := ⟨n - 1, by omega⟩
    obtain ⟨len, rfl⟩ : ∃ l, len = l + 1 := ⟨len - 1, by omega⟩
    rw [run_strcpy_succ, List.range'_succ, List.map_cons, strcpyFrom]
    have hhead : ((List.range' (i + 1) (len + 1)).map (m .copy)).headD 0 = m .copy (i + 1) := rfl
    have hname : Prog.store m .name i (m .copy i) .name = Function.update (m .name) i (m .copy i) :=
      Function.update_self ..
    simp only [hhead]
    split_ifs with hne
    · have hki : k ≠ i + 1 := fun he => hne (he ▸ hk)
      rw [ih n (i + 1) _ ⟨k, by omega, by omega, by rw [store_name_copy]; exact hk⟩ (by omega),
        store_name_copy, hname]
    · exact hname

theorem run_initrdOpen (m : Buffer → ℕ → UInt8) (h : ∃ k, 0 < k ∧ k < 256 ∧ m .copy k = 0) :
    ((Code.initrdOpen).run m).2 .name = strcpy ((List.range 256).map (m .copy)) (m .name) := by
  unfold Code.initrdOpen strcpy
  rw [List.range_eq_range']
  exact run_strcpy_name 256 _ 0 m (by simpa using h) (by decide)

/-- **`strcpy` stays in its buffers** exactly when its source is a string of 1 to 128 bytes. -/
lemma strcpy_inBounds_iff (hn : 129 ≤ n) (m : Buffer → ℕ → UInt8) :
    ((∀ a ∈ (Code.strcpy n 0).accesses m, a.index < a.block.size) ∧
      ∀ i, .read .copy i ∈ (Code.strcpy n 0).accesses m → ∀ k < i, m .copy k ≠ 0) ↔
      m .copy 0 ≠ 0 ∧ ∃ k ≤ 128, 0 < k ∧ m .copy k = 0 := by
  constructor
  · rintro ⟨hin, hscan⟩
    refine ⟨hscan 1 ?_ 0 (by decide), ?_⟩
    · exact (mem_accesses_strcpy n 0 m).mpr
        ⟨0, le_rfl, by omega, fun k h1 h2 => absurd h1 (by omega), .inr (.inr rfl)⟩
    · by_contra hno
      push Not at hno
      have hround := hin (.write .name 128) ((mem_accesses_strcpy n 0 m).mpr
        ⟨128, by omega, by omega, fun k h1 h2 => hno k h2 h1, .inr (.inl rfl)⟩)
      exact absurd hround (by decide)
  · rintro ⟨h0, k, hk, hpos, hnul⟩
    -- the rounds end in front of the NUL
    have hround {j : ℕ} (hrest : ∀ k', 0 < k' → k' ≤ j → m .copy k' ≠ 0) : j < 128 := by
      by_contra hj
      exact hrest k hpos (by omega) hnul
    refine ⟨fun a ha => ?_, fun i hi k' hk' => ?_⟩
    · obtain ⟨j, -, -, hrest, ha⟩ := (mem_accesses_strcpy n 0 m).mp ha
      have hj := hround hrest
      rcases ha with rfl | rfl | rfl
      · show j < 256
        omega
      · exact hj
      · show j + 1 < 256
        omega
    · obtain ⟨j, -, -, hrest, ha⟩ := (mem_accesses_strcpy n 0 m).mp hi
      have hij : i ≤ j + 1 := by
        rcases ha with ha | ha | ha
        · cases ha
          omega
        · cases ha
        · cases ha
          omega
      by_cases hk0 : k' = 0
      · rw [hk0]
        exact h0
      · exact hrest k' (by omega) (by omega)

end Code

/-! ### What the line asks for -/

section Commands

variable {v : ℕ → UInt8} {name : List UInt8}

/-- The name that an action takes. -/
def named : Action → Option (List UInt8)
  | .openFs name => some name
  | .closeFs name => some name
  | _ => none

lemma named_pageTest : named (pageTest.run v).1 = none := by
  unfold pageTest
  rw [Query.run_bind, Query.run_ite, Query.run_bind, Query.run_ite]
  split_ifs <;> rfl

lemma named_threadTest : named (threadTest.run v).1 = none := by
  unfold threadTest
  rw [Query.run_bind, Query.run_ite, Query.run_bind, Query.run_ite, Query.run_ite, Query.run_ite,
    Query.run_ite, Query.run_bind, Query.run_ite]
  split_ifs <;> rfl

lemma fst_fileTest : (fileTest.run v).1 = if isOption.run v = true then
    if v 3 = 0x6E then .openFs ((List.range' 5 250).map v)
    else if v 3 = 0x64 then .closeFs ((List.range' 5 250).map v)
    else if v 3 = 0x61 then .printAllFile
    else if v 3 = 0x63 then .printAllFileContent
    else .nothing
    else .nothing := by
  unfold fileTest
  rw [Query.run_bind, Query.run_ite, Query.run_bind, Query.run_look, Query.run_ite, Query.run_ite,
    Query.run_ite, Query.run_ite, Query.run_bind, Query.run_bind, run_copyName]
  split_ifs <;> rfl

lemma fst_testProcess (undef : ℕ) : ((testProcess undef).run v).1 =
    if v 0 = 0x70 then (pageTest.run v).1
    else if v 0 = 0x66 then (fileTest.run v).1
    else if v 0 = 0x74 then (threadTest.run v).1
    else .nothing := by
  unfold testProcess
  rw [Query.run_bind, Query.run_look, Query.run_ite, Query.run_ite, Query.run_ite, Query.run_bind]
  split_ifs <;> rfl

lemma length_named (undef : ℕ) (h : named ((testProcess undef).run v).1 = some name) :
    name.length = 250 := by
  rw [fst_testProcess, fst_fileTest] at h
  split_ifs at h
  · simp [named_pageTest] at h
  · rw [← Option.some.inj h]
    simp
  · rw [← Option.some.inj h]
    simp
  · cases h
  · cases h
  · cases h
  · cases h
  · simp [named_threadTest] at h
  · cases h

/-- **A file is opened where the buffer reads so**, with what stands behind. -/
lemma openFs_iff (undef : ℕ) :
    ((testProcess undef).run v).1 = .openFs name ↔
      ReadsOpen v ∧ name = (List.range' 5 250).map v := by
  rw [fst_testProcess, fst_fileTest, ReadsOpen]
  by_cases h0 : v 0 = 0x66
  · rw [h0, if_neg (by decide), if_pos rfl, and_iff_right rfl]
    by_cases hoption : isOption.run v = true
    swap
    · rw [if_neg hoption]
      exact iff_of_false nofun fun h => hoption (run_isOption_iff.mpr ⟨h.1.1, h.1.2.1⟩)
    obtain ⟨h1, h2⟩ := run_isOption_iff.mp hoption
    rw [if_pos hoption, h1, h2, and_iff_right rfl, and_iff_right rfl]
    by_cases h3 : v 3 = 0x6E
    · rw [if_pos h3, and_iff_right h3, Action.openFs.injEq]
      exact eq_comm
    · rw [if_neg h3]
      refine iff_of_false ?_ fun h => h3 h.1
      split_ifs <;> exact nofun
  · refine iff_of_false (fun h => ?_) fun h => h0 h.1.1
    have hname := congrArg named h
    rw [if_neg h0] at hname
    split_ifs at hname
    · cases named_pageTest.symm.trans hname
    · cases named_threadTest.symm.trans hname
    · cases hname

end Commands

/-! ### One line -/

section Round

variable {m : Buffer → ℕ → UInt8} {a : Access Buffer} {name : List UInt8} {action : Action}

lemma run_testProcess (undef : ℕ) (m : Buffer → ℕ → UInt8) : (Code.testProcess undef).run m =
    (((testProcess undef).run (m .line)).2,
      ((Code.act ((testProcess undef).run (m .line)).1).run m).2) := by
  unfold Code.testProcess
  rw [Prog.run_bind, Prog.run_ofQuery]
  exact Prog.run_bind _ _ _

lemma accesses_testProcess (undef : ℕ) (m : Buffer → ℕ → UInt8) :
    (Code.testProcess undef).accesses m = ((testProcess undef).reads (m .line)).map (.read .line) ++
      (Code.act ((testProcess undef).run (m .line)).1).accesses m := by
  unfold Code.testProcess
  rw [Prog.accesses_bind, Prog.accesses_ofQuery, Prog.run_ofQuery]
  exact congrArg (_ ++ ·) ((Prog.accesses_bind _ _ _).trans (List.append_nil _))

lemma run_act_line (action : Action) (m : Buffer → ℕ → UInt8) :
    ((Code.act action).run m).2 .line = m .line := by
  cases action with
  | openFs name =>
    rw [Code.act, Prog.run_bind, Code.initrdOpen, run_strcpy_other (by decide), run_storeName,
      Function.update_of_ne (by decide)]
  | closeFs name => rw [Code.act, run_storeName, Function.update_of_ne (by decide)]
  | _ => rfl

theorem run_round (x : Entry) (m : Buffer → ℕ → UInt8) :
    ((Code.round x).run m).1 = ((testProcess x.undef).run (scanf x.keys (m .line))).2 ∧
      ((Code.round x).run m).2 .line = scanf x.keys (m .line) := by
  unfold Code.round
  simp only [Prog.run_bind, run_scanf, run_testProcess, run_act_line, Function.update_self,
    and_self]

lemma accesses_act (hne : ∀ name, action ≠ .openFs name)
    (hname : ∀ name, named action = some name → name.length = 250)
    (ha : a ∈ (Code.act action).accesses m) : ∃ i < 250, a = .write .copy i := by
  cases action with
  | openFs name => exact absurd rfl (hne name)
  | closeFs name =>
    have hlen := hname name rfl
    rw [Code.act, accesses_storeName, hlen, List.mem_map] at ha
    obtain ⟨i, hi, rfl⟩ := ha
    rw [List.mem_range'_1] at hi
    exact ⟨i, by omega, rfl⟩
  | _ => cases ha

end Round

namespace Visit

variable {s : Session} {x : Visit} {a : Access Buffer} {i : ℕ} {xs : List Visit}

/-- The memory in which `test_process` starts. -/
def scanned (s : Session) (x : Visit) : Buffer → ℕ → UInt8 :=
  Function.update (x.buffers s) .line (x.laid s)

lemma run_scanf_buffers :
    (Code.scanf x.entry.keys).run (x.buffers s) = ((), x.scanned s) := by
  rw [run_scanf, scanned]
  congr 2
  funext i
  exact scanf_apply _ _ _

/-- What the line makes the shell do. -/
def action (s : Session) (x : Visit) : Action := ((testProcess x.entry.undef).run (x.laid s)).1

lemma mem_accesses : a ∈ x.accesses s ↔ (∃ i < (typed x.entry.keys).length, a = .write .line i) ∨
    (∃ i ∈ (testProcess x.entry.undef).reads (x.laid s), a = .read .line i) ∨
    a ∈ (Code.act (x.action s)).accesses (x.scanned s) := by
  unfold accesses Code.round
  rw [Prog.accesses_bind, run_scanf_buffers, accesses_scanf, accesses_testProcess, List.mem_append,
    List.mem_append, List.mem_map, List.mem_map]
  simp only [List.mem_range, eq_comm (a := a)]
  exact Iff.rfl

lemma source_eq : x.source s = ((Code.act (x.action s)).run (x.scanned s)).2 .copy := by
  unfold source Code.round
  rw [Prog.run_bind, run_scanf_buffers, run_testProcess]
  rfl

lemma inBounds_iff_act : x.InBounds s ↔ (typed x.entry.keys).length ≤ 256 ∧
    (∀ a ∈ (Code.act (x.action s)).accesses (x.scanned s), a.index < a.block.size) ∧
    ∀ i, .read .copy i ∈ (Code.act (x.action s)).accesses (x.scanned s) →
      ∀ k < i, x.source s k ≠ 0 := by
  constructor
  · rintro ⟨hin, hscan⟩
    refine ⟨?_, fun a ha => hin a (mem_accesses.mpr (.inr (.inr ha))),
      fun i hi => hscan i (mem_accesses.mpr (.inr (.inr hi)))⟩
    by_contra hlen
    have h := hin (.write .line 256) (mem_accesses.mpr (.inl ⟨256, by omega, rfl⟩))
    exact absurd h (by decide)
  · rintro ⟨hlen, hact, hscan⟩
    refine ⟨fun a ha => ?_, fun i hi => ?_⟩
    · rcases mem_accesses.mp ha with ⟨i, hi, rfl⟩ | ⟨i, hi, rfl⟩ | ha
      · exact lt_of_lt_of_le hi hlen
      · exact (all_testProcess _).reads _ i hi
      · exact hact a ha
    · rcases mem_accesses.mp hi with ⟨j, -, h⟩ | ⟨j, -, h⟩ | hi
      · cases h
      · cases h
      · exact hscan i hi

theorem step_eq (s : Session) (x : Visit) : x.step s =
    let r := (Code.round x.entry).run (x.buffers s)
    if r.1 = ERROR then ⟨r.2 .line, max s.longest (typed x.entry.keys).length⟩
    else ⟨memset (r.2 .line), 0⟩ := by
  obtain ⟨herror, hline⟩ := run_round x.entry (x.buffers s)
  simp only [herror, hline]
  rfl

/-- **One line stays in the buffers exactly when it is bounded.** -/
lemma inBounds_iff_bounded : x.InBounds s ↔ x.Bounded s := by
  rw [inBounds_iff_act]
  by_cases hopen : ReadsOpen (x.laid s)
  swap
  · -- the copy is made at most
    have hne (name : List UInt8) : x.action s ≠ .openFs name := fun h =>
      hopen ((openFs_iff _).mp h).1
    have hact {a : Access Buffer} (ha : a ∈ (Code.act (x.action s)).accesses (x.scanned s)) :=
      accesses_act hne (fun name h => length_named _ h) ha
    refine ⟨fun h => ⟨h.1, fun h' => absurd h' hopen⟩, fun h => ⟨h.line, fun a ha => ?_,
      fun i hi => ?_⟩⟩
    · obtain ⟨i, hi, rfl⟩ := hact ha
      show i < 256
      omega
    · obtain ⟨j, -, h⟩ := hact hi
      cases h
  -- the name goes to a node
  have haction : x.action s = .openFs ((List.range' 5 250).map (x.laid s)) :=
    (openFs_iff _).mpr ⟨hopen, rfl⟩
  set m := ((Code.storeName ((List.range' 5 250).map (x.laid s)) 0).run (x.scanned s)).2 with hm
  have hcopy : ∀ k < 250, m .copy k = x.laid s (5 + k) := by
    intro k hk
    rw [hm, run_storeName, Function.update_self, if_pos (Nat.zero_le k), Nat.sub_zero,
      List.getElem?_map, List.getElem?_range' hk]
    simp
  have hacc (a : Access Buffer) : a ∈ (Code.act (x.action s)).accesses (x.scanned s) ↔
      (∃ i < 250, a = .write .copy i) ∨ a ∈ (Code.strcpy (2 ^ 32) 0).accesses m := by
    rw [haction, Code.act, Prog.accesses_bind, List.mem_append, accesses_storeName,
      Code.initrdOpen]
    refine or_congr ?_ Iff.rfl
    simp [eq_comm (a := a)]
  have hsource : x.source s = m .copy := by
    rw [source_eq, haction, Code.act, Prog.run_bind, Code.initrdOpen,
      run_strcpy_other (by decide)]
  have hname : (x.laid s 5 ≠ 0 ∧ ∃ k ≤ 128, 0 < k ∧ x.laid s (5 + k) = 0) ↔
      m .copy 0 ≠ 0 ∧ ∃ k ≤ 128, 0 < k ∧ m .copy k = 0 := by
    rw [hcopy 0 (by decide)]
    refine and_congr Iff.rfl (exists_congr fun k => and_congr_right fun hk => ?_)
    rw [hcopy k (by omega)]
  have hstrcpy := @strcpy_inBounds_iff (2 ^ 32) (by decide) m
  rw [← hname, ← hsource] at hstrcpy
  constructor
  · rintro ⟨hlen, hin, hscan⟩
    exact ⟨hlen, fun _ => hstrcpy.mp ⟨fun a ha => hin a ((hacc a).mpr (.inr ha)),
      fun i hi => hscan i ((hacc _).mpr (.inr hi))⟩⟩
  · rintro ⟨hlen, hbound⟩
    obtain ⟨hin, hscan⟩ := hstrcpy.mpr (hbound hopen)
    refine ⟨hlen, fun a ha => ?_, fun i hi => ?_⟩
    · rcases (hacc a).mp ha with ⟨i, hi, rfl⟩ | ha
      · show i < 256
        omega
      · exact hin a ha
    · rcases (hacc _).mp hi with ⟨j, -, h⟩ | hi
      · cases h
      · exact hscan i hi

/-- **No line of a session leaves the buffers exactly when every line is bounded.** -/
theorem inBounds_iff {v : ℕ → UInt8} (h : Guarded step (fun _ x => x.Ended) (initShell v) xs) :
    Guarded step (fun s x => x.InBounds s) (initShell v) xs ↔
      Guarded step (fun s x => x.Bounded s) (initShell v) xs :=
  guarded_congr (I := fun _ => True) (fun _ _ _ _ => trivial)
    (fun _ _ _ _ => inBounds_iff_bounded) trivial h

end Visit

/-- A line, with NULs in the two other buffers. -/
def visit (keys : List UInt8) : Visit := ⟨⟨keys, 0⟩, fun _ => 0, fun _ => 0⟩

/-- A line that asks for a file with a name of `n` characters. -/
def newFileKeys (n : ℕ) : List UInt8 :=
  [0x66, 0x20, 0x2D, 0x6E, 0x20] ++ List.replicate n 0x61 ++ [0x0A]

/-- A session of lines that end, some of which leave the buffers. -/
def Leaves (xs : List Visit) : Prop :=
  Guarded Visit.step (fun _ x => x.Ended) (initShell fun _ => 0) xs ∧
    ¬ Guarded Visit.step (fun s x => x.InBounds s) (initShell fun _ => 0) xs

/-- A line of 257 characters, a name of 129, no name, and a name of one character behind which there
is the rest of a line that was not recognised. -/
theorem inBounds_fails :
    Leaves [visit (List.replicate 257 0x61 ++ [0x0A])] ∧
    Leaves [visit (newFileKeys 129)] ∧
    Leaves [visit (newFileKeys 0)] ∧
    Leaves [visit (List.replicate 134 0x78 ++ [0x0A]), visit (newFileKeys 1)] := by
  refine ⟨⟨⟨by unfold Visit.Ended; decide, trivial⟩, fun h => ?_⟩,
    ⟨⟨by unfold Visit.Ended; decide, trivial⟩, fun h => ?_⟩,
    ⟨⟨by unfold Visit.Ended; decide, trivial⟩, fun h => ?_⟩,
    ⟨by unfold Visit.Ended; decide, by unfold Visit.Ended; decide, trivial⟩, fun h => ?_⟩
  · exact absurd (Visit.inBounds_iff_bounded.mp h.1).line (by decide +kernel)
  · exact absurd ((Visit.inBounds_iff_bounded.mp h.1).name (by decide +kernel)).2
      (by decide +kernel)
  · exact absurd ((Visit.inBounds_iff_bounded.mp h.1).name (by decide +kernel)).1
      (by decide +kernel)
  · exact absurd ((Visit.inBounds_iff_bounded.mp h.2.1).name (by decide +kernel)).2
      (by decide +kernel)

theorem inBounds_names : Guarded Visit.step (fun s x => x.InBounds s) (initShell fun _ => 0)
    [visit (newFileKeys 128), visit (newFileKeys 1)] := by
  have hended : Guarded Visit.step (fun _ x => x.Ended) (initShell fun _ => 0)
      [visit (newFileKeys 128), visit (newFileKeys 1)] :=
    ⟨by unfold Visit.Ended; decide, by unfold Visit.Ended; decide, trivial⟩
  refine (Visit.inBounds_iff hended).mpr
    ⟨⟨by decide +kernel, fun _ => ?_⟩, ⟨by decide +kernel, fun _ => ?_⟩, trivial⟩
  · exact ⟨by decide +kernel, 128, le_rfl, by decide, by decide +kernel⟩
  · exact ⟨by decide +kernel, 1, by decide, by decide, by decide +kernel⟩

end OsImplement.Shell
