import OsImplement.Fs.Table
import OsImplement.Lib.Step

/-!
The table of nodes as a list of files.

The list is what `open_fs` and `close_fs` should make of the table: a file is appended, or the first
one of that name is taken out.
-/

namespace OsImplement.Fs

open Lib.Word Lib.Bytes Lib.Step

/-! ### Files -/

/-- What a node says about its file. -/
structure File where
  name : List UInt8
  mask : ℕ
  uid : ℕ
  gid : ℕ
  flags : ℕ
  inode : ℕ
  length : ℕ
  impl : ℕ
  read : Handler
  write : Handler
  opn : Handler
  close : Handler
  readdir : Handler
  finddir : Handler
  deriving DecidableEq

def FsNode.file (node : FsNode) : File where
  name := node.string
  mask := node.mask
  uid := node.uid
  gid := node.gid
  flags := node.flags
  inode := node.inode
  length := node.length
  impl := node.impl
  read := node.read
  write := node.write
  opn := node.opn
  close := node.close
  readdir := node.readdir
  finddir := node.finddir

@[simp] lemma name_file (node : FsNode) : node.file.name = node.string := rfl

/-- A file that has just been created. -/
def newFile (name : List UInt8) (inode : ℕ) : File where
  name := name
  mask := 0
  uid := 0
  gid := 0
  flags := FS_FILE
  inode := inode
  length := 0
  impl := 0
  read := .initrdRead
  write := .null
  opn := .null
  close := .null
  readdir := .null
  finddir := .null

/-- `root_nodes[0 .. nroot_nodes)` -/
def Initrd.files (s : Initrd) : List File :=
  (List.range s.nrootNodes.toNat).map fun i => (s.rootNodes i).file

inductive FileOp where
  | opn (name : List UInt8)
  | close (name : List UInt8)
  deriving DecidableEq

/-- The code, that may not come back, beside the list. -/
abbrev Sides := Option Initrd × List File

namespace Sides

/-- The start: the list is that of the table. -/
def start (s : Initrd) : Sides := (some s, s.files)

/-- One call on both sides. -/
def step (p : Sides) : FileOp → Sides
  | .opn name => (p.1.map fun s => (s.openFs .root name).2, p.2 ++ [newFile name p.2.length])
  | .close name => (p.1.bind fun s => s.closeFs .root name, p.2.eraseP fun f => f.name = name)

/-- The table is the list, and it lies in its block. -/
def Mirrors (p : Sides) : Prop :=
  ∃ s, p.1 = some s ∧ s.files = p.2 ∧ s.nrootNodes ≤ s.capacity

/-- A name of 1 to 127 characters. -/
def Named (_ : Sides) : FileOp → Prop
  | .opn name => Spells name ∧ name.length < NAME_SIZE
  | .close name => Spells name ∧ name.length < NAME_SIZE

/-- An `open` finds a free node in the block, with a NUL where the name is to end; a `close` finds
a file of that name. -/
def Fits (p : Sides) : FileOp → Prop
  | .opn name => ∃ s, p.1 = some s ∧ s.nrootNodes < s.capacity ∧
      (s.rootNodes s.nrootNodes.toNat).name name.length = 0
  | .close name => ∃ s, p.1 = some s ∧ ∃ i < s.nrootNodes.toNat, (s.rootNodes i).string = name

end Sides

/-! ### Calls -/

section Calls

variable {s s' : Initrd} {n i : ℕ} {name : List UInt8} {m : Mem}

lemma Ready.files_eq (h : Ready s n) :
    s.files = (List.range n).map fun i => (s.rootNodes i).file := by
  unfold Initrd.files
  rw [h.live, Int.toNat_natCast]

lemma eraseP_eq_eraseIdx {l : List File} {p : File → Bool} (hi : i < l.length) (hp : p l[i])
    (hfirst : ∀ j (hj : j < i), ¬ p l[j]) : l.eraseP p = l.eraseIdx i := by
  have hfind : l.findIdx? p = some i :=
    List.findIdx?_eq_some_iff_getElem.mpr ⟨hi, hp, fun j hj => hfirst j hj⟩
  rw [List.eraseP_eq_eraseIdx, hfind]

lemma files_open (nodes : ℕ → FsNode) (node : FsNode) (n : ℕ) :
    (List.range (n + 1)).map (fun i => (Function.update nodes n node i).file) =
      (List.range n).map (fun i => (nodes i).file) ++ [node.file] := by
  rw [List.range_succ, List.map_append, List.map_singleton, Function.update_self]
  congr 1
  refine List.map_congr_left fun i hi => ?_
  have hi := List.mem_range.mp hi
  rw [Function.update_of_ne (by omega)]

lemma files_close (nodes : ℕ → FsNode) (hi : i ≤ n) :
    (List.range n).map (fun j => (Initrd.shiftNodes (n - i) i nodes j).file) =
      ((List.range (n + 1)).map fun j => (nodes j).file).eraseIdx i := by
  refine List.ext_getElem ?_ fun j h1 h2 => ?_
  · rw [List.length_eraseIdx_of_lt (by simp; omega)]
    simp
  · have hj : j < n := by simpa using h1
    rw [List.getElem_eraseIdx]
    simp only [List.getElem_map, List.getElem_range]
    rw [shiftNodes_apply]
    by_cases hji : j < i
    · rw [dif_pos hji, if_neg (by omega)]
    · rw [dif_neg hji, if_pos (by omega)]

end Calls

/-! ### The simulation -/

namespace Sides

/-- The two sides of a run that has gone well. -/
structure Agree (p : Sides) (s : Initrd) (n : ℕ) : Prop where
  code : p.1 = some s
  ready : Ready s n
  files : s.files = p.2
  le : n ≤ s.capacity
  capacity : 184 * s.capacity < 2 ^ 32

section Agree

variable {p : Sides} {s : Initrd} {n : ℕ} {name : List UInt8} {op : FileOp}

lemma Agree.mirrors (h : p.Agree s n) : p.Mirrors := by
  refine ⟨s, h.code, h.files, ?_⟩
  rw [h.ready.live]
  exact_mod_cast h.le

lemma Agree.length (h : p.Agree s n) : p.2.length = n := by
  rw [← h.files, h.ready.files_eq]
  simp

/-- The node of an `open` is the new file exactly when there is a NUL behind the name. -/
lemma file_eq_newFile (hname : Spells name) (hlen : name.length < NAME_SIZE) (inode : ℕ)
    (node : FsNode) :
    (fileNode (name ++ [0]) 0 inode node).file = newFile name inode ↔ node.name name.length = 0 := by
  rw [← cstr_strcpy_iff hname hlen [] node.name]
  constructor
  · intro h
    exact congrArg File.name h
  · intro h
    unfold FsNode.file newFile
    rw [string_fileNode, h]
    rfl

lemma Agree.opn (h : p.Agree s n) (hname : Spells name) (hlen : name.length < NAME_SIZE) :
    (p.Fits (.opn name) → ∃ s', (p.step (.opn name)).Agree s' (n + 1)) ∧
      (¬ p.Fits (.opn name) → ¬ (p.step (.opn name)).Mirrors) := by
  have hcap := h.capacity
  have hle := h.le
  obtain ⟨heq, hready⟩ := h.ready.openFs name (by omega)
  set s' := (s.openFs .root name).2 with hs'
  have hcode : (p.step (.opn name)).1 = some s' := by
    show p.1.map _ = _
    rw [h.code]
    rfl
  have hlist : (p.step (.opn name)).2 = s.files ++ [newFile name n] := by
    show p.2 ++ [newFile name p.2.length] = _
    rw [h.length, h.files]
  have hfiles : s'.files =
      s.files ++ [(fileNode (name ++ [0]) 0 n (s.rootNodes n)).file] := by
    rw [hready.files_eq, h.ready.files_eq, heq]
    exact files_open _ _ _
  have hcap' : s'.capacity = s.capacity := by rw [heq]
  have hfits : p.Fits (.opn name) ↔
      n < s.capacity ∧ (s.rootNodes n).name name.length = 0 := by
    constructor
    · rintro ⟨t, ht, hlt, h0⟩
      obtain rfl := Option.some.inj (h.code.symm.trans ht)
      rw [h.ready.live] at hlt h0
      exact ⟨by exact_mod_cast hlt, h0⟩
    · rintro ⟨hlt, h0⟩
      refine ⟨s, h.code, ?_, ?_⟩
      · rw [h.ready.live]
        exact_mod_cast hlt
      · rw [h.ready.live]
        exact h0
  rw [hfits]
  constructor
  · rintro ⟨hlt, h0⟩
    refine ⟨s', hcode, hready, ?_, by omega, by omega⟩
    rw [hfiles, hlist, (file_eq_newFile hname hlen n _).mpr h0]
  · rintro hno ⟨t, ht, htable, htcap⟩
    obtain rfl := Option.some.inj (hcode.symm.trans ht)
    refine hno ⟨?_, ?_⟩
    · rw [hready.live] at htcap
      have : n + 1 ≤ s'.capacity := by exact_mod_cast htcap
      omega
    · rw [hfiles, hlist] at htable
      have hlast := List.append_cancel_left htable
      exact (file_eq_newFile hname hlen n _).mp (List.singleton_inj.mp hlast)

lemma Agree.close (h : p.Agree s n) (hname : Spells name) :
    (p.Fits (.close name) → ∃ s' n', (p.step (.close name)).Agree s' n') ∧
      (¬ p.Fits (.close name) → ¬ (p.step (.close name)).Mirrors) := by
  have hcap := h.capacity
  have hle := h.le
  have hfits : p.Fits (.close name) ↔ ∃ i < n, (s.rootNodes i).string = name := by
    constructor
    · rintro ⟨t, ht, i, hi, hstring⟩
      obtain rfl := Option.some.inj (h.code.symm.trans ht)
      rw [h.ready.live, Int.toNat_natCast] at hi
      exact ⟨i, hi, hstring⟩
    · rintro ⟨i, hi, hstring⟩
      refine ⟨s, h.code, i, ?_, hstring⟩
      rwa [h.ready.live, Int.toNat_natCast]
  have hcode : (p.step (.close name)).1 = s.closeFs .root name := by
    show p.1.bind _ = _
    rw [h.code]
    rfl
  have hlist : (p.step (.close name)).2 = s.files.eraseP fun f => f.name = name := by
    show p.2.eraseP _ = _
    rw [h.files]
  have hfiles := h.ready.files_eq
  rw [hfits]
  cases n with
  | zero =>
    refine ⟨fun ⟨i, hi, _⟩ => absurd hi (by omega), fun _ => ?_⟩
    rintro ⟨t, ht, -⟩
    rw [hcode, h.ready.closeFs_empty] at ht
    simp at ht
  | succ n =>
    obtain ⟨s', hs', hready, heq⟩ := h.ready.closeFs name (by omega)
    rw [hs'] at hcode
    have hspec := findNode_spec (n := n + 1) (i := 0)
      (fun k hk => h.ready.mask k (by omega)) hname.ne_zero
    have hcap' : s'.capacity = s.capacity := by rw [heq]
    cases hfind : s.findNode name (n + 1) 0 with
    | some i =>
      rw [hfind] at hspec heq
      rw [Option.getD_some] at heq
      obtain ⟨-, hi, hstring, hfirst⟩ := hspec
      refine ⟨fun _ => ⟨s', n, hcode, hready, ?_, by omega, by omega⟩,
        fun hno => absurd ⟨i, by omega, hstring⟩ hno⟩
      rw [hlist, hready.files_eq, heq, hfiles]
      rw [eraseP_eq_eraseIdx (i := i) (by simp; omega) (by simpa using hstring) fun j hj => by
        simpa using hfirst j (by omega) hj]
      exact files_close _ (by omega)
    | none =>
      rw [hfind] at hspec heq
      refine ⟨fun ⟨i, hi, hstring⟩ => absurd hstring (hspec i (by omega) (by omega)), fun _ => ?_⟩
      rintro ⟨t, ht, htable, -⟩
      obtain rfl := Option.some.inj (hcode.symm.trans ht)
      have hkeep : s.files.eraseP (fun f => f.name = name) = s.files := by
        rw [hfiles]
        refine List.eraseP_of_forall_not fun f hf => ?_
        obtain ⟨j, hj, rfl⟩ := List.mem_map.mp hf
        have hne := hspec j (by omega) (by simpa using hj)
        simp [hne]
      rw [hlist, hkeep, hready.files_eq, hfiles] at htable
      have hlen := congrArg List.length htable
      simp at hlen

lemma agree_start {loc : ℕ} {m : Mem} {root dev : FsNode} {table : ℕ → FsNode}
    (h : Image loc m) :
    (start (Initrd.initialiseInitrd loc m root dev table)).Agree
      (Initrd.initialiseInitrd loc m root dev table) (nfiles loc m) := by
  have hs := @initialised loc m root dev table h
  refine ⟨rfl, ready_initialise h, rfl, hs.capacity.ge, ?_⟩
  rw [hs.capacity]
  exact h.table

end Agree

/-- **The table is the list exactly when every call fits.** -/
theorem mirrors_iff_fits {loc : ℕ} {m : Mem} {root dev : FsNode} {table : ℕ → FsNode}
    {ops : List FileOp} (h : Image loc m)
    (hops : Guarded step Named (start (Initrd.initialiseInitrd loc m root dev table)) ops) :
    Always step Mirrors (start (Initrd.initialiseInitrd loc m root dev table)) ops ↔
      Guarded step Fits (start (Initrd.initialiseInitrd loc m root dev table)) ops := by
  refine always_iff_guarded_of (I := fun p => ∃ s n, p.Agree s n)
    (fun p ⟨s, n, hp⟩ => hp.mirrors) (fun p op ⟨s, n, hp⟩ hop hfits => ?_)
    (fun p op ⟨s, n, hp⟩ hop hno => ?_) ⟨_, _, agree_start h⟩ hops
  · cases op with
    | opn name =>
      obtain ⟨s', hs'⟩ := (hp.opn hop.1 hop.2).1 hfits
      exact ⟨s', n + 1, hs'⟩
    | close name => exact (hp.close hop.1).1 hfits
  · cases op with
    | opn name => exact (hp.opn hop.1 hop.2).2 hno
    | close name => exact (hp.close hop.1).2 hno

end Sides

/-- An image at `0x1000` with one empty file `a`. -/
def oneFile : Mem := write8 (write32 (fun _ => 0) 0x1000 1) 0x1005 0x61

lemma nfiles_oneFile : nfiles 0x1000 oneFile = 1 := by decide +kernel

lemma image_oneFile : Image 0x1000 oneFile := by
  refine ⟨?_, ?_⟩
  · rw [nfiles_oneFile]
    decide
  · rw [nfiles_oneFile]
    decide

/-- A node in zeroed memory. -/
def zeroNode : FsNode where
  name := fun _ => 0
  mask := 0
  uid := 0
  gid := 0
  flags := 0
  inode := 0
  length := 0
  impl := 0
  read := .null
  write := .null
  opn := .null
  close := .null
  readdir := .null
  finddir := .null
  ptr := 0

/-- The disk of that image, in zeroed memory. -/
def oneFileDisk : Initrd :=
  Initrd.initialiseInitrd 0x1000 oneFile zeroNode zeroNode fun _ => zeroNode

namespace Sides

/-- A second file does not fit the block, and a `close` of a file that is not there takes out the
last one. -/
theorem mirrors_fails :
    (Guarded step Named (start oneFileDisk) [.opn [0x62]] ∧
      ¬ Always step Mirrors (start oneFileDisk) [.opn [0x62]]) ∧
    (Guarded step Named (start oneFileDisk) [.close [0x62]] ∧
      ¬ Always step Mirrors (start oneFileDisk) [.close [0x62]]) := by
  have hb : Spells [0x62] := ⟨List.cons_ne_nil _ _, List.forall_mem_singleton.mpr (by decide)⟩
  refine ⟨⟨⟨⟨hb, by decide⟩, trivial⟩, fun h => ?_⟩, ⟨⟨⟨hb, by decide⟩, trivial⟩, fun h => ?_⟩⟩
  · obtain ⟨s, hs, -, hcap⟩ := h.last
    have hcount : ((start oneFileDisk).step (.opn [0x62])).1.map
        (fun s => (s.nrootNodes, s.capacity)) = some (2, 1) := by decide +kernel
    have heq : some (s.nrootNodes, s.capacity) = some (2, 1) := by
      rw [← hcount]
      exact congrArg (Option.map fun s => (s.nrootNodes, s.capacity)) hs.symm
    obtain ⟨h2, h1⟩ := Prod.mk.inj (Option.some.inj heq)
    rw [h2, h1] at hcap
    exact absurd hcap (by decide)
  · obtain ⟨s, hs, hfiles, -⟩ := h.last
    have hcount : ((start oneFileDisk).step (.close [0x62])).1.map (fun s => s.nrootNodes) =
        some 0 := by decide +kernel
    have heq : some s.nrootNodes = some 0 := by
      rw [← hcount]
      exact congrArg (Option.map fun s => s.nrootNodes) hs.symm
    have hlist : ((start oneFileDisk).step (.close [0x62])).2.length = 1 := by decide +kernel
    have hlen : s.files.length = 1 := by
      rw [hfiles]
      exact hlist
    unfold Initrd.files at hlen
    rw [Option.some.inj heq] at hlen
    simp at hlen

theorem mirrors_close : Always step Mirrors (start oneFileDisk) [.close [0x61]] := by
  have ha : Spells [0x61] := ⟨List.cons_ne_nil _ _, List.forall_mem_singleton.mpr (by decide)⟩
  have hops : Guarded step Named (start oneFileDisk) [.close [0x61]] := ⟨⟨ha, by decide⟩, trivial⟩
  refine (mirrors_iff_fits image_oneFile hops).mpr ⟨⟨oneFileDisk, rfl, 0, ?_, ?_⟩, trivial⟩
  · decide +kernel
  · decide +kernel

end Sides

end OsImplement.Fs
