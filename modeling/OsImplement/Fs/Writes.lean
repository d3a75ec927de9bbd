import OsImplement.Fs.Listing

/-!
Writing (`write_fs` and `initrd_write`).

`initrd_write` is the mirror of `initrd_read`: what it writes reads back, and nothing else of the
file changes (`reads_back`). But no node ever has it: `write_fs` refuses every node of the tree, and
all that the file system writes in a whole run is the number of files and the buffers of its readers
(`writes_of_run`).
-/

namespace OsImplement.Fs

open Lib.Word Lib.Bytes Lib.Step

namespace Initrd

/-- `initrd_write`. Behind its copy it returns no value. -/
def initrdWrite (ptr : NodePtr) (offset size buffer : ℕ) (s : Initrd) : Option ℕ × Initrd :=
  let inode := (s.node ptr).inode
  let length := headerLength s.initrdHeader inode s.mem
  if length < offset then (some 0, s)
  else
    let size := if length < add32 offset size then sub32 length offset else size
    let address := add32 (headerOffset s.initrdHeader inode s.mem) offset
    (none, { s with mem := copy s.mem address buffer size })

/-- `write_fs`; a handler that is not NULL is that of `initrd.c`. -/
def writeFs (ptr : NodePtr) (offset size buffer : ℕ) (s : Initrd) : Option ℕ × Initrd :=
  if (s.node ptr).write = .null then (some 0, s) else s.initrdWrite ptr offset size buffer

/-- `read_fs` with its buffer. -/
def readFsInto (ptr : NodePtr) (offset size buffer : ℕ) (s : Initrd) : ℕ × Initrd :=
  if (s.node ptr).read = .initrdRead then s.initrdReadInto ptr offset size buffer else (0, s)

/-! ### A write and a read -/

section Write

variable {s : Initrd} {ptr : NodePtr} {offset size buffer k j : ℕ}

/-- The address of byte `j` of a file. -/
def fileAddr (s : Initrd) (ptr : NodePtr) (j : ℕ) : ℕ :=
  (headerOffset s.initrdHeader (s.node ptr).inode s.mem + j) % 2 ^ 32

/-- What is written lies apart from the words of the header, and from the buffer. -/
structure WriteApart (s : Initrd) (ptr : NodePtr) (offset size buffer : ℕ) : Prop where
  header : ∀ k < s.available ptr offset size, ∀ j < 8, s.fileAddr ptr (offset + k) ≠
    (fileHeader s.initrdHeader (s.node ptr).inode + 68 + j) % 2 ^ 32
  buffer : ∀ k < s.available ptr offset size, ∀ j < s.available ptr offset size,
    s.fileAddr ptr (offset + k) ≠ (buffer + j) % 2 ^ 32

/-- A write, as one copy: of the right number of bytes when the sum does not wrap. -/
lemma mem_initrdWrite (hsum : offset + size < 2 ^ 32) :
    (s.initrdWrite ptr offset size buffer).2 = { s with
      mem := copy s.mem (headerOffset s.initrdHeader (s.node ptr).inode s.mem + offset) buffer
        (s.available ptr offset size) } := by
  have hlength : s.fileLength ptr < 2 ^ 32 := read32_lt _ _
  have hcopy (a b n : ℕ) : copy s.mem (add32 a b) buffer n = copy s.mem (a + b) buffer n := by
    unfold copy
    congr 1
    funext m i
    unfold write8 add32
    rw [Nat.mod_add_mod]
  unfold initrdWrite
  change (if s.fileLength ptr < offset then _ else _ : Option ℕ × Initrd).2 = _
  unfold available
  by_cases hpast : s.fileLength ptr < offset
  · rw [if_pos hpast, Nat.sub_eq_zero_of_le hpast.le, Nat.min_zero]
    rfl
  · rw [if_neg hpast]
    change { s with mem := copy _ _ _ (if s.fileLength ptr < _ then _ else _) } = _
    rw [hcopy, add32_eq hsum]
    congr 2
    change (if s.fileLength ptr < offset + size then sub32 (s.fileLength ptr) offset else size) = _
    rw [sub32_eq (by omega) hlength]
    split <;> omega

lemma writes_initrdWrite (hsum : offset + size < 2 ^ 32) :
    Writes s.mem (s.initrdWrite ptr offset size buffer).2.mem
      {x | ∃ k < s.available ptr offset size, x = s.fileAddr ptr (offset + k)} := by
  rw [mem_initrdWrite hsum]
  refine (copy_writes _ _ _ _).mono ?_
  rintro x ⟨k, hk, rfl⟩
  exact ⟨k, hk, by rw [fileAddr, Nat.add_assoc]⟩

lemma header_initrdWrite (hsum : offset + size < 2 ^ 32) (h : s.WriteApart ptr offset size buffer) :
    let s' := (s.initrdWrite ptr offset size buffer).2
    headerOffset s'.initrdHeader (s'.node ptr).inode s'.mem =
        headerOffset s.initrdHeader (s.node ptr).inode s.mem ∧
      s'.fileLength ptr = s.fileLength ptr := by
  intro s'
  have hs' : s' = _ := mem_initrdWrite hsum
  have hnode : s'.node ptr = s.node ptr := by
    rw [hs']
    cases ptr <;> rfl
  have hheader : s'.initrdHeader = s.initrdHeader := by rw [hs']
  have hword (w : ℕ) (hw : w ≤ 4) :
      read32 s'.mem (fileHeader s.initrdHeader (s.node ptr).inode + 68 + w) =
        read32 s.mem (fileHeader s.initrdHeader (s.node ptr).inode + 68 + w) := by
    refine read32_congr fun i hi => writes_initrdWrite hsum ?_
    rintro ⟨k, hk, hx⟩
    refine h.header k hk (w + i) (by omega) ?_
    rw [← hx, Nat.add_assoc]
  unfold fileLength
  rw [hnode, hheader]
  exact ⟨hword 0 (by decide), hword 4 le_rfl⟩

lemma fileByte_initrdWrite (hsum : offset + size < 2 ^ 32)
    (h : s.WriteApart ptr offset size buffer) (hj : j < s.fileLength ptr) :
    (s.initrdWrite ptr offset size buffer).2.fileByte ptr j =
      if offset ≤ j ∧ j < offset + s.available ptr offset size then read8 s.mem (buffer + (j - offset))
      else s.fileByte ptr j := by
  have hlength : s.fileLength ptr < 2 ^ 32 := read32_lt _ _
  have hn : s.available ptr offset size ≤ s.fileLength ptr - offset := Nat.min_le_right _ _
  unfold fileByte
  rw [(header_initrdWrite hsum h).1]
  split
  · rename_i hin
    have hcopied := copy_eq (m := s.mem) (by omega : s.available ptr offset size ≤ 2 ^ 32)
      (fun i hi j hj => by
        rw [Nat.add_assoc]
        exact h.buffer i hi j hj) (j - offset) (by omega)
    rw [mem_initrdWrite hsum, ← hcopied, Nat.add_assoc, Nat.add_sub_cancel' hin.1]
  · rename_i hout
    refine (writes_initrdWrite hsum).read8 ?_
    rintro ⟨k, hk, hx⟩
    unfold fileAddr at hx
    omega

/-- **What is written reads back.** While the offset and the size have a sum below `2 ^ 32`, the
bytes of the file that were asked for are those of the buffer, the rest of memory is as it was, and
a read of the same part returns what was written. -/
theorem reads_back (hsum : offset + size < 2 ^ 32) (h : s.WriteApart ptr offset size buffer) :
    let s' := (s.initrdWrite ptr offset size buffer).2
    let n := s.available ptr offset size
    s'.fileLength ptr = s.fileLength ptr ∧
      (∀ j < s.fileLength ptr, s'.fileByte ptr j =
        if offset ≤ j ∧ j < offset + n then read8 s.mem (buffer + (j - offset))
        else s.fileByte ptr j) ∧
      Writes s.mem s'.mem {x | ∃ k < n, x = s.fileAddr ptr (offset + k)} ∧
      s'.initrdRead ptr offset size = ((List.range n).map fun k => read8 s.mem (buffer + k), n) := by
  intro s' n
  have hlen : s'.fileLength ptr = s.fileLength ptr := (header_initrdWrite hsum h).2
  have hn : n ≤ s.fileLength ptr - offset := Nat.min_le_right _ _
  refine ⟨hlen, fun j hj => fileByte_initrdWrite hsum h hj, writes_initrdWrite hsum, ?_⟩
  have hcount : (s'.initrdRead ptr offset size).2 = n := by
    have hread : (s'.initrdRead ptr offset size).2 = s'.available ptr offset size :=
      (initrdRead_snd_iff (by omega)).mpr (Or.inr hsum)
    rw [hread]
    unfold available
    rw [hlen]
    rfl
  refine Prod.ext ?_ hcount
  rw [initrdRead_fst, hcount]
  refine List.map_congr_left fun k hk => ?_
  have hk := List.mem_range.mp hk
  have hbyte : s'.fileByte ptr (offset + k) = _ := fileByte_initrdWrite hsum h (by omega)
  rw [hbyte, if_pos ⟨by omega, by omega⟩, Nat.add_sub_cancel_left]

end Write

theorem reads_back_three :
    (tenBytesDisk.initrdWrite (.file 0) 5 3 0x100000).2.initrdRead (.file 0) 5 3 =
      ((List.range 3).map fun k => read8 tenBytesDisk.mem (0x100000 + k), 3) := by
  have hoffset : headerOffset tenBytesDisk.initrdHeader (tenBytesDisk.node (.file 0)).inode
      tenBytesDisk.mem = 0x1000 := by decide +kernel
  have hheader : fileHeader tenBytesDisk.initrdHeader (tenBytesDisk.node (.file 0)).inode = 0x1004 := by
    decide +kernel
  have hn : tenBytesDisk.available (.file 0) 5 3 = 3 := by
    unfold available
    rw [fileLength_tenBytesDisk]
    rfl
  have hapart : tenBytesDisk.WriteApart (.file 0) 5 3 0x100000 := by
    constructor
    all_goals
      rw [hn]
      intro k hk j hj
      unfold fileAddr
      simp only [hoffset, hheader]
      omega
  have hread := (reads_back (by decide) hapart).2.2.2
  rwa [hn] at hread

/-! ### Runs -/

/-- The node is one of the tree. -/
def Live (s : Initrd) : NodePtr → Prop
  | .file i => i < s.nrootNodes.toNat
  | _ => True

inductive Call where
  | opn (name : List UInt8)
  | close (name : List UInt8)
  | read (ptr : NodePtr) (offset size buffer : ℕ)
  | write (ptr : NodePtr) (offset size buffer : ℕ)

/-- One call: an `open` has a free node in the block, and nobody reads onto the number of files. -/
inductive Step : Initrd → Call → Initrd → Prop
  | opn {s : Initrd} {name : List UInt8} (hfree : s.nrootNodes < s.capacity) :
      Step s (.opn name) (s.openFs .root name).2
  | close {s s' : Initrd} {name : List UInt8} (h : s.closeFs .root name = some s') :
      Step s (.close name) s'
  | read {s : Initrd} {ptr : NodePtr} {offset size buffer : ℕ} (hlive : s.Live ptr)
      (hapart : ∀ k < size, (buffer + k) % 2 ^ 32 ∉ Set.Ico s.initrdHeader (s.initrdHeader + 4)) :
      Step s (.read ptr offset size buffer) (s.readFsInto ptr offset size buffer).2
  | write {s : Initrd} {ptr : NodePtr} {offset size buffer : ℕ} (hlive : s.Live ptr) :
      Step s (.write ptr offset size buffer) (s.writeFs ptr offset size buffer).2

/-- The bytes of the buffers that a run reads into. -/
def buffers (cs : List Call) : Set ℕ :=
  {x | ∃ ptr offset size buffer, .read ptr offset size buffer ∈ cs ∧
    ∃ k < size, x = (buffer + k) % 2 ^ 32}

section Runs

variable {s s' s₀ : Initrd} {loc n : ℕ} {m : Mem} {root dev : FsNode} {table : ℕ → FsNode}
  {c : Call} {cs : List Call} {ptr : NodePtr} {offset size buffer : ℕ}

/-- **Nothing can be written**: no node of the tree has a handler for it. -/
structure ReadOnly (s₀ s : Initrd) (cs : List Call) (n : ℕ) : Prop where
  ready : Ready s n
  le : n ≤ s.capacity
  capacity : s.capacity < 2 ^ 31
  header : s.initrdHeader = s₀.initrdHeader
  top : s₀.initrdHeader + 4 ≤ 2 ^ 32
  root : s.initrdRoot.write = .null
  dev : s.initrdDev.write = .null
  file : ∀ i < n, (s.rootNodes i).write = .null
  writes : Writes s₀.mem s.mem (Set.Ico s₀.initrdHeader (s₀.initrdHeader + 4) ∪ buffers cs)

lemma buffers_append : buffers cs ⊆ buffers (cs ++ [c]) := by
  rintro x ⟨ptr, offset, size, buffer, hc, hx⟩
  exact ⟨ptr, offset, size, buffer, List.mem_append_left _ hc, hx⟩

lemma ReadOnly.write (h : ReadOnly s₀ s cs n) (hlive : s.Live ptr) :
    (s.node ptr).write = .null := by
  cases ptr with
  | root => exact h.root
  | dev => exact h.dev
  | file i =>
    refine h.file i ?_
    have hi : i < s.nrootNodes.toNat := hlive
    rwa [h.ready.live, Int.toNat_natCast] at hi

lemma ReadOnly.writeFs (h : ReadOnly s₀ s cs n) (hlive : s.Live ptr) :
    s.writeFs ptr offset size buffer = (some 0, s) := if_pos (h.write hlive)

lemma ReadOnly.writes_snoc (h : ReadOnly s₀ s cs n)
    (hw : Writes s.mem s'.mem (Set.Ico s₀.initrdHeader (s₀.initrdHeader + 4) ∪ buffers (cs ++ [c]))) :
    Writes s₀.mem s'.mem (Set.Ico s₀.initrdHeader (s₀.initrdHeader + 4) ∪ buffers (cs ++ [c])) :=
  (h.writes.mono (Set.union_subset_union_right _ buffers_append)).trans hw

lemma initrdRead_snd_le : (s.initrdRead ptr offset size).2 ≤ size := by
  have hlength : headerLength s.initrdHeader (s.node ptr).inode s.mem < 2 ^ 32 := read32_lt _ _
  unfold initrdRead
  dsimp only
  split
  · exact Nat.zero_le _
  · dsimp only
    split
    · rw [sub32_eq (by omega) hlength]
      unfold add32 at *
      omega
    · exact le_rfl

lemma writes_readFsInto : Writes s.mem (s.readFsInto ptr offset size buffer).2.mem
    {x | ∃ k < size, x = (buffer + k) % 2 ^ 32} := by
  unfold readFsInto
  split
  · refine (copy_writes _ _ _ _).mono ?_
    rintro x ⟨k, hk, rfl⟩
    exact ⟨k, lt_of_lt_of_le hk initrdRead_snd_le, rfl⟩
  · exact .refl _ _

lemma readFsInto_eq : (s.readFsInto ptr offset size buffer).2 =
    { s with mem := (s.readFsInto ptr offset size buffer).2.mem } := by
  unfold readFsInto
  split <;> rfl

lemma ReadOnly.opn {name : List UInt8} (h : ReadOnly s₀ s cs n) (hfree : s.nrootNodes < s.capacity) :
    ReadOnly s₀ (s.openFs .root name).2 (cs ++ [.opn name]) (n + 1) := by
  have hn : n + 1 ≤ s.capacity := by
    rw [h.ready.live] at hfree
    omega
  have hcap := h.capacity
  obtain ⟨heq, hready⟩ := h.ready.openFs name (by omega)
  rw [heq] at hready ⊢
  refine ⟨hready, hn, hcap, h.header, h.top, h.root, h.dev, fun i hi => ?_, ?_⟩
  · dsimp only
    by_cases hin : i = n
    · rw [hin, Function.update_self]
      rfl
    · rw [Function.update_of_ne hin]
      exact h.file i (by omega)
  · refine h.writes_snoc ?_
    rw [h.header]
    exact (Writes.write32 le_rfl le_rfl h.top).mono Set.subset_union_left

lemma ReadOnly.close {name : List UInt8} (h : ReadOnly s₀ s cs n)
    (hclose : s.closeFs .root name = some s') :
    ∃ n', ReadOnly s₀ s' (cs ++ [.close name]) n' := by
  have hle := h.le
  have hcap := h.capacity
  cases n with
  | zero => exact absurd (h.ready.closeFs_empty.symm.trans hclose) (by simp)
  | succ n =>
    obtain ⟨t, ht, hready, heq⟩ := h.ready.closeFs name (by omega)
    obtain rfl : t = s' := Option.some.inj (ht.symm.trans hclose)
    refine ⟨n, hready, ?_, ?_, ?_, h.top, ?_, ?_, fun i hi => ?_, h.writes_snoc ?_⟩
    · rw [heq]
      exact (Nat.le_succ n).trans hle
    · rw [heq]
      exact hcap
    · rw [heq]
      exact h.header
    · rw [heq]
      exact h.root
    · rw [heq]
      exact h.dev
    · rw [heq]
      dsimp only
      rw [shiftNodes_apply]
      split
      · exact h.file (i + 1) (by omega)
      · exact h.file i (by omega)
    · rw [heq, h.header]
      exact (Writes.write32 le_rfl le_rfl h.top).mono Set.subset_union_left

lemma ReadOnly.read (h : ReadOnly s₀ s cs n)
    (hapart : ∀ k < size, (buffer + k) % 2 ^ 32 ∉ Set.Ico s.initrdHeader (s.initrdHeader + 4)) :
    ReadOnly s₀ (s.readFsInto ptr offset size buffer).2 (cs ++ [.read ptr offset size buffer]) n := by
  have hw : Writes s.mem (s.readFsInto ptr offset size buffer).2.mem _ := writes_readFsInto
  rw [readFsInto_eq]
  refine ⟨⟨h.ready.live, ?_, h.ready.mask, h.ready.opn, h.ready.close⟩, h.le, h.capacity, h.header,
    h.top, h.root, h.dev, h.file, h.writes_snoc (hw.mono ?_)⟩
  · have hcount := h.ready.count
    rw [← hcount]
    refine hw.read32 (by rw [h.header]; exact h.top) ?_
    rintro x h1 h2 ⟨k, hk, rfl⟩
    exact hapart k hk ⟨h1, h2⟩
  · rintro x ⟨k, hk, rfl⟩
    exact Or.inr ⟨ptr, offset, size, buffer, by simp, k, hk, rfl⟩

lemma ReadOnly.step (h : ReadOnly s₀ s cs n) (hstep : Step s c s') :
    ∃ n', ReadOnly s₀ s' (cs ++ [c]) n' := by
  cases hstep with
  | opn hfree => exact ⟨n + 1, h.opn hfree⟩
  | close hclose => exact h.close hclose
  | read hlive hapart => exact ⟨n, h.read hapart⟩
  | write hlive =>
    rw [h.writeFs hlive]
    exact ⟨n, h.ready, h.le, h.capacity, h.header, h.top, h.root, h.dev, h.file,
      h.writes_snoc (.refl _ _)⟩

end Runs

/-- **The file system is read only.** In every run from an image, `write_fs` returns 0 for every
node of the tree and changes nothing, and all of memory is as `initialise_initrd` left it but for the
number of files and the buffers of the readers. -/
theorem writes_of_run {s : Initrd} {loc : ℕ} {m : Mem} {root dev : FsNode} {table : ℕ → FsNode}
    {cs : List Call} (himage : Image loc m)
    (hr : Run Step (initialiseInitrd loc m root dev table) cs s) :
    (∀ ptr, s.Live ptr → ∀ offset size buffer,
        s.writeFs ptr offset size buffer = (some 0, s)) ∧
      Writes (initialiseInitrd loc m root dev table).mem s.mem
        (Set.Ico loc (loc + 4) ∪ buffers cs) := by
  have hs := @initialised loc m root dev table himage
  have htable := himage.table
  have hstart : ReadOnly (initialiseInitrd loc m root dev table)
      (initialiseInitrd loc m root dev table) [] (nfiles loc m) := by
    refine ⟨ready_initialise himage, hs.capacity.ge, ?_, rfl, ?_, ?_, ?_, fun i hi => ?_, .refl _ _⟩
    · rw [hs.capacity]
      omega
    · rw [hs.initrdHeader]
      have htop := himage.top
      omega
    · rw [hs.initrdRoot]
      rfl
    · rw [hs.initrdDev]
      rfl
    · rw [hs.file i hi]
      rfl
  obtain ⟨n, h⟩ := hr.inv (I := fun cs s => ∃ n, ReadOnly _ s cs n) ⟨_, hstart⟩
    fun cs s c s' ⟨n, h⟩ hstep => h.step hstep
  refine ⟨fun ptr hlive offset size buffer => h.writeFs hlive, ?_⟩
  have hw := h.writes
  rwa [hs.initrdHeader] at hw

theorem writes_of_run_two :
    ∃ s, Run Step oneFileDisk
        [.write (.file 0) 0 4 0x100000, .read (.file 0) 0 4 0x200000] s ∧
      s.writeFs (.file 0) 0 4 0x100000 = (some 0, s) := by
  have hlive : oneFileDisk.Live (.file 0) := by
    change 0 < oneFileDisk.nrootNodes.toNat
    decide +kernel
  have hwrite : (oneFileDisk.writeFs (.file 0) 0 4 0x100000).2 = oneFileDisk := by
    have hnull : (oneFileDisk.node (.file 0)).write = .null := by decide +kernel
    exact congrArg Prod.snd (if_pos hnull)
  have hfirst : Run Step oneFileDisk [.write (.file 0) 0 4 0x100000] oneFileDisk := by
    have hstep : Step oneFileDisk (.write (.file 0) 0 4 0x100000) _ := .write hlive
    rw [hwrite] at hstep
    exact .single hstep
  have hheader : oneFileDisk.initrdHeader = 0x1000 := rfl
  have hrun := hfirst.snoc (a := .read (.file 0) 0 4 0x200000) (.read hlive fun k hk => by
    rw [hheader]
    rintro ⟨-, h⟩
    omega)
  refine ⟨_, hrun, (writes_of_run image_oneFile hrun).1 (.file 0) ?_ 0 4 0x100000⟩
  change 0 < (oneFileDisk.readFsInto (.file 0) 0 4 0x200000).2.nrootNodes.toNat
  rw [readFsInto_eq]
  exact hlive

end Initrd

end OsImplement.Fs
