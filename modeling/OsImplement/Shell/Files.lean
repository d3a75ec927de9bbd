import OsImplement.Shell.Session
import OsImplement.Fs.Display

/-!
The file commands of the shell, with all that a session prints.

A session goes from the keys through `scanf`, `test_process` and `file_test` to the table of files
and back to the screen. Where every line is a file command that fits, it is a conversation about a
list of files: `f -n` appends to it, `f -d` removes from it and `f -a` shows it.
-/

namespace OsImplement.Shell

open Lib.Bytes Lib.Probe Lib.Step Fs Monitor

/-! ### The code -/

/-- A line of keys, with what the static `dirent` of `initrd.c` holds by then, and what a command
prints that is not about files. -/
structure Round where
  entry : Entry
  dirent : Dirent
  text : List UInt8

/-- The shell, the files, and what has been printed. -/
structure Desk where
  session : Session
  disk : Initrd
  out : List UInt8

/-- What `test_process` prints before it does anything. -/
def heading (c : UInt8) : List UInt8 :=
  if c = 0x70 then printf "page test:\n" []
  else if c = 0x66 then printf "file test:\n" []
  else if c = 0x74 then printf "thread test:\n" []
  else []

/-- What an action prints, and what it leaves of the files; `none` does not come back. -/
def act (x : Round) (s : Initrd) : Action → Option (List UInt8 × Initrd)
  | .nothing => some ([], s)
  | .openFs name => some ([], (s.openFs .root (cstr name)).2)
  | .closeFs name => (s.closeFs .root (cstr name)).map fun s => ([], s)
  | .printAllFile =>
    (s.printAllFile (s.nrootNodes.toNat + 2) 0 x.dirent []).map fun out => (out, s)
  | .printAllFileContent =>
    (s.printAllFileContent (s.nrootNodes.toNat + 2) 0 x.dirent []).map fun out => (out, s)
  | .printPagesStatus | .printTask | .printCurtask | .createTask | .taskExitPid _ =>
    some (x.text, s)

/-- What the second loop of `scanf` prints. -/
def echo : List UInt8 → List UInt8
  | [] => []
  | c :: keys =>
    if c = 0x0A then []
    else if c ≠ 0 then printf "%c" [.word c.toNat] ++ echo keys
    else echo keys

/-- What `scanf` prints, and the newline behind it. -/
def dialogue (keys : List UInt8) : List UInt8 :=
  printf "%s" [.str (ascii "\nmashiro>>$ ")] ++ echo (keys.dropWhile (· = 0)) ++ printf "\n" []

namespace Desk

/-- One round of the loop of `init_shell`. -/
def step (d : Desk) (x : Round) : Option Desk :=
  let v := scanf x.entry.keys d.session.buffer
  let (action, error) := (testProcess x.entry.undef).run v
  (act x d.disk action).map fun (text, disk) =>
    { session := d.session.step x.entry
      disk := disk
      out := d.out ++ dialogue x.entry.keys ++ heading (v 0) ++ text ++
        if error = ERROR then printf "unknown commond...\n" [] else [] }

/-- The start of `init_shell`. -/
def init (v : ℕ → UInt8) (s : Initrd) : Desk := ⟨initShell v, s, printf "\n" []⟩

end Desk

/-! ### The list of files -/

inductive FileCommand where
  | opn (name : List UInt8)
  | close (name : List UInt8)
  | list
  deriving DecidableEq

namespace FileCommand

/-- The line that is typed. -/
def line : FileCommand → List UInt8
  | .opn name => [0x66, 0x20, 0x2D, 0x6E, 0x20] ++ name
  | .close name => [0x66, 0x20, 0x2D, 0x64, 0x20] ++ name
  | .list => [0x66, 0x20, 0x2D, 0x61]

/-- The calls that a command makes. -/
def ops : FileCommand → List FileOp
  | .opn name => [.opn name]
  | .close name => [.close name]
  | .list => []

/-- What it does to the table, and prints. -/
def perform (x : Round) (s : Initrd) : FileCommand → Option (List UInt8 × Initrd)
  | .opn name => some ([], (s.openFs .root name).2)
  | .close name => (s.closeFs .root name).map fun s => ([], s)
  | .list => (s.printAllFile (s.nrootNodes.toNat + 2) 0 x.dirent []).map fun out => (out, s)

/-- What becomes of the list. -/
def apply (files : List File) : FileCommand → List File
  | .opn name => files ++ [newFile name files.length]
  | .close name => files.eraseP fun f => f.name = name
  | .list => files

/-- What is shown of it. -/
def shown (files : List File) : FileCommand → List UInt8
  | .list => fileLine [0x64, 0x65, 0x76] ++ files.flatMap fun f => fileLine f.listed
  | _ => []

/-- A command and its answer, as they stand on the screen. -/
def exchange (files : List File) (c : FileCommand) : List UInt8 :=
  ascii "\nmashiro>>$ " ++ c.line ++ [0x0A] ++ ascii "file test:\n" ++ c.shown files

end FileCommand

/-- A whole session. -/
def transcript : List File → List FileCommand → List UInt8
  | _, [] => []
  | files, c :: cs => c.exchange files ++ transcript (c.apply files) cs

/-! ### One line -/

section Line

variable {v buffer : ℕ → UInt8} {undef count i : ℕ} {name line : List UInt8} {x : Round} {d : Desk}

lemma run_fileLine (h0 : v 0 = 0x66) (h1 : v 1 = 0x20) (h2 : v 2 = 0x2D) :
    (testProcess undef).run v =
      if v 3 = 0x6E then (.openFs ((List.range' 5 250).map v), 1)
      else if v 3 = 0x64 then (.closeFs ((List.range' 5 250).map v), 1)
      else if v 3 = 0x61 then (.printAllFile, 1)
      else if v 3 = 0x63 then (.printAllFileContent, 1)
      else (.nothing, ERROR) := by
  have hoption : isOption.run v = true := run_isOption_iff.mpr ⟨h1, h2⟩
  unfold testProcess fileTest
  rw [Query.run_bind, Query.run_look, Query.run_ite, Query.run_ite, h0, if_neg (by decide), if_pos rfl,
    Query.run_bind, Query.run_ite, if_pos hoption, Query.run_bind, Query.run_look]
  simp only [Query.run_ite, Query.run_bind, Query.run_pure, run_copyName]

/-- **The name that `file_test` copies** from a fresh buffer. -/
lemma cstr_copied (hfresh : ∀ i < 256, buffer i = 0) (hline : line.length = 5)
    (hname : ∀ c ∈ name, c ≠ 0) (hlen : name.length < 250) :
    cstr ((List.range' 5 250).map fun i => (line ++ name)[i]?.getD (buffer i)) = name := by
  have hsplit : ((List.range' 5 250).map fun i => (line ++ name)[i]?.getD (buffer i)) =
      name ++ List.replicate (250 - name.length) 0 := by
    apply List.ext_getElem
    · simp
      omega
    · intro i h1 h2
      have hi : i < 250 := by simpa using h1
      rw [List.getElem_map, List.getElem_range', List.getElem?_append_right (by omega), hline,
        Nat.one_mul, Nat.add_sub_cancel_left]
      by_cases hin : i < name.length
      · rw [List.getElem?_eq_getElem hin, List.getElem_append_left hin]
        rfl
      · rw [List.getElem?_eq_none (by omega), List.getElem_append_right (by omega),
          List.getElem_replicate]
        exact hfresh _ (by omega)
  obtain ⟨n, hn⟩ : ∃ n, 250 - name.length = n + 1 := ⟨249 - name.length, by omega⟩
  rw [hsplit, cstr_append hname, hn, List.replicate_succ, cstr_zero_cons, List.append_nil]

lemma echo_eq (keys : List UInt8) : echo keys = typed keys := by
  induction keys with
  | nil => rfl
  | cons c keys ih =>
    rw [echo, typed_cons, ih, printf_char]
    rfl

lemma dialogue_eq (keys : List UInt8) :
    dialogue keys = ascii "\nmashiro>>$ " ++ typed keys ++ [0x0A] := by
  have h : ascii "\n" = [0x0A] := by decide
  have hnl : printf "\n" [] = [0x0A] := by simp [printf, h, pieces, render]
  unfold dialogue
  rw [printf_str, hnl, echo_eq, typed_dropWhile]

lemma heading_file : heading 0x66 = ascii "file test:\n" := by
  have h : ascii "file test:\n" = [0x66, 0x69, 0x6C, 0x65, 0x20, 0x74, 0x65, 0x73, 0x74, 0x3A, 0x0A] := by
    decide
  simp [heading, printf, h, pieces, render]

end Line

/-! ### Sessions -/

/-- Between two lines: the buffer is clear, and the table of files is the list. -/
structure Desk.Level (d : Desk) (files : List File) : Prop where
  fresh : ∀ i < 256, d.session.buffer i = 0
  sides : Sides.Lists (some d.disk, files)

section Session

variable {loc : ℕ} {m : Mem} {root dev : FsNode} {table : ℕ → FsNode} {v : ℕ → UInt8} {d : Desk}
  {x : Round} {c : FileCommand} {cs : List FileCommand} {xs : List Round} {files : List File}
  {name : List UInt8} {action : Action} {text : List UInt8} {s : Initrd}

lemma Desk.step_of_run (hfile : scanf x.entry.keys d.session.buffer 0 = 0x66)
    (hrun : (testProcess x.entry.undef).run (scanf x.entry.keys d.session.buffer) = (action, 1))
    (hact : act x d.disk action = some (text, s)) :
    ∃ d', d.step x = some d' ∧ (∀ i < 256, d'.session.buffer i = 0) ∧ d'.disk = s ∧
      d'.out = d.out ++ dialogue x.entry.keys ++ ascii "file test:\n" ++ text := by
  have hne : ¬ 1 = ERROR := by decide
  have hsession : d.session.step x.entry =
      ⟨memset (scanf x.entry.keys d.session.buffer), 0⟩ := by
    unfold Session.step
    simp only [hrun, if_neg hne]
  refine ⟨⟨d.session.step x.entry, s, d.out ++ dialogue x.entry.keys ++ ascii "file test:\n" ++ text⟩,
    ?_, fun i hi => ?_, rfl, rfl⟩
  · unfold Desk.step
    simp only [hrun, hact, Option.map_some, hfile, heading_file, if_neg hne, List.append_nil]
  · change (d.session.step x.entry).buffer i = 0
    rw [hsession]
    exact if_pos hi

lemma run_command (hfresh : ∀ i < 256, d.session.buffer i = 0)
    (hline : typed x.entry.keys = c.line)
    (hname : ∀ op ∈ c.ops, Sides.Named (some d.disk, files) op) :
    scanf x.entry.keys d.session.buffer 0 = 0x66 ∧ ∃ action,
      (testProcess x.entry.undef).run (scanf x.entry.keys d.session.buffer) = (action, 1) ∧
      act x d.disk action = c.perform x d.disk := by
  have hv (i : ℕ) : scanf x.entry.keys d.session.buffer i = c.line[i]?.getD (d.session.buffer i) := by
    rw [scanf_apply, hline]
  have hscan : scanf x.entry.keys d.session.buffer =
      fun i => c.line[i]?.getD (d.session.buffer i) := funext hv
  cases c with
  | opn name =>
    obtain ⟨hspells, hlen⟩ := hname (.opn name) (List.mem_singleton_self _)
    have hsize : NAME_SIZE = 128 := rfl
    have hrun : (testProcess x.entry.undef).run _ = _ := run_fileLine (hv 0) (hv 1) (hv 2)
    rw [show scanf x.entry.keys d.session.buffer 3 = 0x6E from hv 3, if_pos rfl] at hrun
    refine ⟨hv 0, _, hrun, ?_⟩
    rw [act, hscan, FileCommand.line, cstr_copied hfresh rfl hspells.ne_zero (by omega)]
    rfl
  | close name =>
    obtain ⟨hspells, hlen⟩ := hname (.close name) (List.mem_singleton_self _)
    have hsize : NAME_SIZE = 128 := rfl
    have hrun : (testProcess x.entry.undef).run _ = _ := run_fileLine (hv 0) (hv 1) (hv 2)
    rw [show scanf x.entry.keys d.session.buffer 3 = 0x64 from hv 3, if_neg (by decide), if_pos rfl]
      at hrun
    refine ⟨hv 0, _, hrun, ?_⟩
    rw [act, hscan, FileCommand.line, cstr_copied hfresh rfl hspells.ne_zero (by omega)]
    rfl
  | list =>
    have hrun : (testProcess x.entry.undef).run _ = _ := run_fileLine (hv 0) (hv 1) (hv 2)
    rw [show scanf x.entry.keys d.session.buffer 3 = 0x61 from hv 3, if_neg (by decide),
      if_neg (by decide), if_pos rfl] at hrun
    exact ⟨hv 0, _, hrun, rfl⟩

/-- **One command**: what is printed is the exchange, and the table follows the list. -/
lemma Desk.Level.step (h : d.Level files) (hline : typed x.entry.keys = c.line)
    (hgood : ∀ op ∈ c.ops, Sides.Good (some d.disk, files) op) :
    ∃ d', d.step x = some d' ∧ d'.Level (c.apply files) ∧ d'.out = d.out ++ c.exchange files ∧
      c.ops.foldl Sides.step (some d.disk, files) = (some d'.disk, c.apply files) := by
  obtain ⟨hfile, action, hrun, hact⟩ := run_command h.fresh hline fun op hop => (hgood op hop).1
  have hout (out shown : List UInt8) (h : out = shown) :
      d.out ++ dialogue x.entry.keys ++ ascii "file test:\n" ++ out =
        d.out ++ (ascii "\nmashiro>>$ " ++ c.line ++ [0x0A] ++ ascii "file test:\n" ++ shown) := by
    rw [dialogue_eq, hline, h]
    simp only [List.append_assoc]
  -- the two sides of the call, if there is one
  obtain ⟨s, text, htext, hsome, hsides, hlists⟩ : ∃ s text, text = c.shown files ∧
      act x d.disk action = some (text, s) ∧
      c.ops.foldl Sides.step (some d.disk, files) = (some s, c.apply files) ∧
      Sides.Lists (some s, c.apply files) := by
    cases c with
    | opn name =>
      exact ⟨_, _, rfl, hact, rfl, h.sides.step (hgood (.opn name) (List.mem_singleton_self _))⟩
    | close name =>
      have hlists := h.sides.step (hgood (.close name) (List.mem_singleton_self _))
      have hagree := hlists
      obtain ⟨s, n, hagree, -⟩ := hagree
      have hclose : d.disk.closeFs .root name = some s := hagree.code
      have hsides : Sides.step (some d.disk, files) (.close name) =
          (some s, FileCommand.apply files (.close name)) := Prod.ext hclose rfl
      rw [hsides] at hlists
      exact ⟨s, [], rfl, by rw [hact, FileCommand.perform, hclose, Option.map_some], hsides, hlists⟩
    | list =>
      obtain ⟨s, n, hagree, hroot⟩ := h.sides
      obtain rfl : d.disk = s := Option.some.inj hagree.code
      have hlive : d.disk.nrootNodes.toNat = n := by
        rw [hagree.ready.live]
        exact Int.toNat_natCast n
      have hprint := (hagree.rooted hroot).printAllFile x.dirent (n + 2) (by omega)
      rw [← hlive, show d.disk.files = files from hagree.files] at hprint
      refine ⟨d.disk, FileCommand.shown files .list, rfl, ?_, rfl, h.sides⟩
      rw [hact, FileCommand.perform, hprint, Option.map_some]
      rfl
  obtain ⟨d', hd', hfresh, rfl, hprinted⟩ := Desk.step_of_run hfile hrun hsome
  exact ⟨d', hd', ⟨hfresh, hlists⟩, hprinted.trans (hout _ _ htext), hsides⟩

lemma Desk.Level.run (h : d.Level files)
    (hlines : xs.map (fun x => typed x.entry.keys) = cs.map FileCommand.line)
    (hops : Guarded Sides.step Sides.Good (some d.disk, files) (cs.flatMap FileCommand.ops)) :
    ∃ d', xs.foldlM Desk.step d = some d' ∧ d'.Level (cs.foldl FileCommand.apply files) ∧
      d'.out = d.out ++ transcript files cs := by
  induction cs generalizing d files xs with
  | nil =>
    obtain rfl : xs = [] := List.map_eq_nil_iff.mp hlines
    exact ⟨d, rfl, h, (List.append_nil _).symm⟩
  | cons c cs ih =>
    obtain ⟨x, xs, rfl⟩ : ∃ x xs', xs = x :: xs' := by
      cases xs with
      | nil => simp at hlines
      | cons x xs => exact ⟨x, xs, rfl⟩
    obtain ⟨hline, hlines⟩ := List.cons.inj hlines
    rw [List.flatMap_cons] at hops
    have hgood : ∀ op ∈ c.ops, Sides.Good (some d.disk, files) op := by
      intro op hop
      cases c with
      | opn name => exact List.mem_singleton.mp hop ▸ hops.1
      | close name => exact List.mem_singleton.mp hop ▸ hops.1
      | list => simp [FileCommand.ops] at hop
    obtain ⟨d₁, hd₁, hlevel, hout, hsides⟩ := h.step hline hgood
    have hrest : Guarded Sides.step Sides.Good (some d₁.disk, c.apply files)
        (cs.flatMap FileCommand.ops) := by
      rw [← hsides]
      cases c with
      | opn name => exact hops.2
      | close name => exact hops.2
      | list => exact hops
    obtain ⟨d', hd', hlevel', hout'⟩ := ih hlevel hlines hrest
    refine ⟨d', ?_, hlevel', ?_⟩
    · rw [List.foldlM_cons, hd₁]
      exact hd'
    · rw [hout', hout, List.append_assoc]
      rfl

/-- **A session about files.** From any image, when every line is a file command whose call fits,
the shell comes back from each of them, and the screen gets the conversation about the list of
files. -/
theorem transcript_of_session (h : Image loc m)
    (hlines : xs.map (fun x => typed x.entry.keys) = cs.map FileCommand.line)
    (hops : Guarded Sides.step Sides.Good
      (Sides.start (Initrd.initialiseInitrd loc m root dev table)) (cs.flatMap FileCommand.ops)) :
    ∃ d, xs.foldlM Desk.step (.init v (Initrd.initialiseInitrd loc m root dev table)) = some d ∧
      d.out = [0x0A] ++ transcript (Initrd.initialiseInitrd loc m root dev table).files cs ∧
      d.disk.files = cs.foldl FileCommand.apply
        (Initrd.initialiseInitrd loc m root dev table).files := by
  set s := Initrd.initialiseInitrd loc m root dev table with hs
  have hlevel : (Desk.init v s).Level s.files := by
    refine ⟨fun i hi => if_pos hi, s, _, Sides.agree_start h, root, ?_⟩
    exact (@initialised loc m root dev table h).initrdRoot
  obtain ⟨d, hd, ⟨-, hlists⟩, hout⟩ := hlevel.run hlines hops
  obtain ⟨s', n, hagree, -⟩ := hlists
  obtain rfl : d.disk = s' := Option.some.inj hagree.code
  refine ⟨d, hd, ?_, hagree.files⟩
  have hnl : printf "\n" [] = [0x0A] := by
    have h : ascii "\n" = [0x0A] := by decide
    simp [printf, h, pieces, render]
  rw [hout, Desk.init, hnl]

end Session

/-- The keys of `f -a`, `f -d a` and `f -a` again. -/
def listCloseList : List Round :=
  [⟨⟨[0x66, 0x20, 0x2D, 0x61, 0x0A], 0⟩, ⟨fun _ => 0, 0⟩, []⟩,
    ⟨⟨[0x66, 0x20, 0x2D, 0x64, 0x20, 0x61, 0x0A], 0⟩, ⟨fun _ => 0, 0⟩, []⟩,
    ⟨⟨[0x66, 0x20, 0x2D, 0x61, 0x0A], 0⟩, ⟨fun _ => 0, 0⟩, []⟩]

theorem transcript_of_session_close :
    ∃ d, listCloseList.foldlM Desk.step (.init (fun _ => 0) oneFileDisk) = some d ∧
      d.disk.files = [] := by
  have ha : Spells [0x61] := ⟨List.cons_ne_nil _ _, List.forall_mem_singleton.mpr (by decide)⟩
  have hgood : Guarded Sides.step Sides.Good (Sides.start oneFileDisk)
      ([.list, .close [0x61], .list].flatMap FileCommand.ops) := by
    refine ⟨⟨⟨ha, by decide⟩, oneFileDisk, rfl, 0, ?_, ?_⟩, trivial⟩
    · decide +kernel
    · decide +kernel
  have hlines : listCloseList.map (fun x => typed x.entry.keys) =
      [.list, .close [0x61], .list].map FileCommand.line := by decide
  have hlist : [.list, .close [0x61], .list].foldl FileCommand.apply oneFileDisk.files = [] := by
    decide +kernel
  obtain ⟨d, hd, -, hfiles⟩ := transcript_of_session image_oneFile hlines hgood
  exact ⟨d, hd, hfiles.trans hlist⟩

end OsImplement.Shell
