import OsImplement.Fs.Lookup

/-!
The inodes of the nodes, and the headers that they select.

An inode is the position of the node when it is made. A `close` moves the nodes behind it down and
leaves their inodes alone; the headers stay where the image has them.
-/

namespace OsImplement.Fs

open Lib.Word Lib.Bytes Lib.Step

/-! ### Runs -/

/-- The inode of a node selects a header of the image with its name and its length. -/
structure Describes (loc : ℕ) (m : Mem) (s : Initrd) (node : FsNode) : Prop where
  inode : node.inode < nfiles loc m
  name : cstr (headerName s.initrdHeader node.inode s.mem) = node.string
  length : headerLength s.initrdHeader node.inode s.mem = node.length

/-- The code, with what the last `read_fs` returned and how long its node was. -/
structure Disk where
  code : Option Initrd
  got : ℕ
  length : ℕ

inductive DiskOp where
  | opn (name : List UInt8)
  | close (name : List UInt8)
  | read (i offset size : ℕ)
  deriving DecidableEq

namespace Disk

def start (s : Initrd) : Disk := ⟨some s, 0, 0⟩

def step (p : Disk) : DiskOp → Disk
  | .opn name => { p with code := p.code.map fun s => (s.openFs .root name).2 }
  | .close name => { p with code := p.code.bind fun s => s.closeFs .root name }
  | .read i offset size =>
    match p.code with
    | some s => ⟨some s, (s.readFs (.file i) offset size).2, (s.rootNodes i).length⟩
    | none => p

/-- Every live node has an inode and a header of its own, and no read was longer than its node. -/
def Described (loc : ℕ) (m : Mem) (p : Disk) : Prop :=
  ∃ s, p.code = some s ∧
    (∀ i < s.nrootNodes.toNat, ∀ j < s.nrootNodes.toNat,
      (s.rootNodes i).inode = (s.rootNodes j).inode → i = j) ∧
    (∀ i < s.nrootNodes.toNat, Describes loc m s (s.rootNodes i)) ∧
    p.got ≤ p.length

/-- Names of 1 to 127 characters, files that are there, and words. -/
def Present (p : Disk) : DiskOp → Prop
  | .opn name => Spells name ∧ name.length < NAME_SIZE
  | .close name => ∃ s, p.code = some s ∧ ∃ i < s.nrootNodes.toNat, (s.rootNodes i).string = name
  | .read i offset size =>
    offset < 2 ^ 32 ∧ size < 2 ^ 32 ∧ ∃ s, p.code = some s ∧ i < s.nrootNodes.toNat

/-- An `open` gets the position of a header that no live node has, of length 0 and with the name
that will stand in the node; a `read` does not wrap back into its file. -/
def Unclaimed (loc : ℕ) (m : Mem) (p : Disk) : DiskOp → Prop
  | .opn name => ∃ s, p.code = some s ∧ s.nrootNodes < nfiles loc m ∧
      (∀ i < s.nrootNodes.toNat, (s.rootNodes i).inode ≠ s.nrootNodes.toNat) ∧
      headerLength loc s.nrootNodes.toNat m = 0 ∧
      fileName loc s.nrootNodes.toNat m = name ++ cstr ((List.range' name.length
        (NAME_SIZE - name.length)).map (s.rootNodes s.nrootNodes.toNat).name ++ [0])
  | .close _ => True
  | .read i offset size => ∀ s, p.code = some s → offset ≤ (s.rootNodes i).length →
      size ≤ (s.rootNodes i).length ∨ (s.rootNodes i).length < add32 offset size

end Disk

/-! ### Headers -/

section Headers

variable {loc i n v : ℕ} {m : Mem} {s : Initrd} {src : List UInt8} {d : ℕ → UInt8}

lemma headerName_count (htop : loc + 4 + 76 * (i + 1) ≤ 2 ^ 32) :
    headerName loc i (write32 m loc v) = headerName loc i m := by
  have hw : Writes m (write32 m loc v) (Set.Ico loc (loc + 4)) :=
    Writes.write32 le_rfl le_rfl (by omega)
  refine List.map_congr_left fun k hk => hw.read8 ?_
  have hk := List.mem_range.mp hk
  rintro ⟨h1, h2⟩
  unfold fileHeader at h1 h2
  rw [Nat.mod_eq_of_lt (by omega)] at h1 h2
  omega

lemma headerLength_count (htop : loc + 4 + 76 * (i + 1) ≤ 2 ^ 32) :
    headerLength loc i (write32 m loc v) = headerLength loc i m := by
  refine read32_write32_ne ?_ (by omega) ?_
  · unfold fileHeader
    omega
  · unfold fileHeader
    omega

lemma strcpyFrom_below (h : i < n) : strcpyFrom src n d i = d i := by
  induction src generalizing n d with
  | nil => rfl
  | cons c src ih =>
    rw [strcpyFrom]
    split_ifs
    · rw [ih (by omega), Function.update_of_ne (by omega)]
    · rw [Function.update_of_ne (by omega)]

/-- An empty string is copied with its NUL. -/
lemma strcpy_zero (src : List UInt8) (d : ℕ → UInt8) : strcpy (0 :: src) d 0 = 0 := by
  unfold strcpy
  rw [strcpyFrom]
  split_ifs
  · rw [strcpyFrom_below (by decide), Function.update_self]
  · rw [Function.update_self]

/-- The copied name reads back exactly when it is empty or has a NUL behind it. -/
lemma string_header_iff (h : 0 ∈ headerName loc i m) (length inode : ℕ) (node : FsNode) :
    fileName loc i m = (fileNode (headerName loc i m) length inode node).string ↔
      (fileName loc i m ≠ [] → node.name (fileName loc i m).length = 0) := by
  obtain ⟨rest, hrest⟩ := exists_cstr h
  have hlen : (fileName loc i m).length < NAME_SIZE := by
    have := congrArg List.length hrest
    unfold fileName NAME_SIZE
    simp [headerName] at this ⊢
    omega
  rw [eq_comm, string_fileNode, hrest]
  change cstr (_ ++ [0]) = fileName loc i m ↔ _
  by_cases hnil : fileName loc i m = []
  · have hcstr : cstr (headerName loc i m) = [] := hnil
    rw [hcstr, hnil]
    refine iff_of_true ?_ fun h0 => absurd rfl h0
    have hrange : List.range NAME_SIZE = 0 :: (List.range (NAME_SIZE - 1)).map (· + 1) := by
      rw [← List.range_succ_eq_map]
      rfl
    rw [hrange, List.map_cons, List.nil_append, strcpy_zero]
    rfl
  · have hspells : Spells (fileName loc i m) := ⟨hnil, cstr_ne_zero⟩
    rw [imp_iff_right hnil]
    exact cstr_strcpy_iff hspells hlen rest node.name

end Headers

/-- The headers are those of the image, but for their offsets. -/
structure Headers (loc : ℕ) (m : Mem) (s : Initrd) : Prop where
  initrdHeader : s.initrdHeader = loc
  name : ∀ i < nfiles loc m, headerName loc i s.mem = headerName loc i m
  length : ∀ i < nfiles loc m, headerLength loc i s.mem = headerLength loc i m

section Headers

variable {loc v : ℕ} {m : Mem} {s s' : Initrd} {node : FsNode}

lemma Headers.describes_iff (h : Headers loc m s) :
    Describes loc m s node ↔ node.inode < nfiles loc m ∧
      fileName loc node.inode m = node.string ∧ headerLength loc node.inode m = node.length := by
  constructor
  · rintro ⟨h1, h2, h3⟩
    rw [h.initrdHeader, h.name _ h1] at h2
    rw [h.initrdHeader, h.length _ h1] at h3
    exact ⟨h1, h2, h3⟩
  · rintro ⟨h1, h2, h3⟩
    refine ⟨h1, ?_, ?_⟩
    · rw [h.initrdHeader, h.name _ h1]
      exact h2
    · rw [h.initrdHeader, h.length _ h1]
      exact h3

lemma Headers.count (himage : Image loc m) (h : Headers loc m s) (hloc : s'.initrdHeader = loc)
    (hmem : s'.mem = write32 s.mem loc v) : Headers loc m s' := by
  have htop := himage.top
  refine ⟨hloc, fun i hi => ?_, fun i hi => ?_⟩
  · rw [hmem, headerName_count (by omega), h.name i hi]
  · rw [hmem, headerLength_count (by omega), h.length i hi]

lemma headers_initialise {root dev : FsNode} {table : ℕ → FsNode} (himage : Image loc m) :
    Headers loc m (Initrd.initialiseInitrd loc m root dev table) := by
  have hs := @initialised loc m root dev table himage
  have htop := himage.top
  exact ⟨hs.initrdHeader, fun i hi => headerName_congr hs.writes (by omega),
    fun i hi => headerLength_congr hs.writes (by omega)⟩

end Headers

/-! ### Calls -/

namespace Disk

/-- A run that has gone well, with `n` live nodes. -/
structure Sound (loc : ℕ) (m : Mem) (p : Disk) (s : Initrd) (n : ℕ) : Prop where
  code : p.code = some s
  ready : Ready s n
  headers : Headers loc m s
  le : n ≤ nfiles loc m
  read : ∀ i < n, (s.rootNodes i).read = .initrdRead
  distinct : ∀ i < n, ∀ j < n, (s.rootNodes i).inode = (s.rootNodes j).inode → i = j
  describes : ∀ i < n, Describes loc m s (s.rootNodes i)
  got : p.got ≤ p.length

section Calls

variable {loc n i offset size : ℕ} {m : Mem} {p : Disk} {s : Initrd} {name : List UInt8}

lemma Sound.described (h : p.Sound loc m s n) : p.Described loc m := by
  refine ⟨s, h.code, ?_, ?_, h.got⟩
  · rw [h.ready.live, Int.toNat_natCast]
    exact h.distinct
  · rw [h.ready.live, Int.toNat_natCast]
    exact h.describes

lemma Sound.opn (himage : Image loc m) (h : p.Sound loc m s n) (hname : Spells name)
    (hlen : name.length < NAME_SIZE) :
    (p.Unclaimed loc m (.opn name) → ∃ s', (p.step (.opn name)).Sound loc m s' (n + 1)) ∧
      (¬ p.Unclaimed loc m (.opn name) → ¬ (p.step (.opn name)).Described loc m) := by
  have htable := himage.table
  have hle := h.le
  obtain ⟨heq, hready⟩ := h.ready.openFs name (by omega)
  set s' := (s.openFs .root name).2 with hs'
  set new := fileNode (name ++ [0]) 0 n (s.rootNodes n) with hnew
  have hcode : (p.step (.opn name)).code = some s' := by
    show p.code.map _ = _
    rw [h.code]
    rfl
  have hheaders : Headers loc m s' := by
    refine h.headers.count himage (v := n + 1) ?_ ?_
    · rw [heq]
      exact h.headers.initrdHeader
    · rw [heq, h.headers.initrdHeader]
  have hlast : s'.rootNodes n = new := by
    rw [heq]
    exact Function.update_self ..
  have hbefore : ∀ i < n, s'.rootNodes i = s.rootNodes i := by
    intro i hi
    rw [heq]
    exact Function.update_of_ne (by omega) ..
  have hstring : new.string = name ++ cstr ((List.range' name.length
      (NAME_SIZE - name.length)).map (s.rootNodes n).name ++ [0]) :=
    cstr_strcpy hname hlen [] _
  have hunclaimed : p.Unclaimed loc m (.opn name) ↔
      (∀ i < n, (s.rootNodes i).inode ≠ n) ∧ Describes loc m s' new := by
    rw [hheaders.describes_iff, hstring]
    constructor
    · rintro ⟨t, ht, hlt, hfresh, hzero, hfile⟩
      obtain rfl := Option.some.inj (h.code.symm.trans ht)
      rw [h.ready.live] at hlt
      rw [h.ready.live, Int.toNat_natCast] at hfresh hzero hfile
      exact ⟨hfresh, by exact_mod_cast hlt, hfile, hzero⟩
    · rintro ⟨hfresh, hlt, hfile, hzero⟩
      refine ⟨s, h.code, ?_, ?_⟩
      · rw [h.ready.live]
        exact_mod_cast hlt
      · rw [h.ready.live, Int.toNat_natCast]
        exact ⟨hfresh, hzero, hfile⟩
  rw [hunclaimed]
  constructor
  · rintro ⟨hfresh, hdescribes⟩
    have hinode : (s'.rootNodes n).inode = n := by
      rw [hlast]
      rfl
    refine ⟨s', hcode, hready, hheaders, hdescribes.inode, fun i hi => ?_, fun i hi j hj hij => ?_,
      fun i hi => ?_, h.got⟩
    · rcases Nat.lt_succ_iff_lt_or_eq.mp hi with hi | rfl
      · rw [hbefore i hi]
        exact h.read i hi
      · rw [hlast]
        rfl
    · rcases Nat.lt_succ_iff_lt_or_eq.mp hi with hi | rfl
      · rcases Nat.lt_succ_iff_lt_or_eq.mp hj with hj | rfl
        · rw [hbefore i hi, hbefore j hj] at hij
          exact h.distinct i hi j hj hij
        · rw [hbefore i hi, hinode] at hij
          exact absurd hij (hfresh i hi)
      · rcases Nat.lt_succ_iff_lt_or_eq.mp hj with hj | rfl
        · rw [hbefore j hj, hinode] at hij
          exact absurd hij.symm (hfresh j hj)
        · rfl
    · rcases Nat.lt_succ_iff_lt_or_eq.mp hi with hi | rfl
      · rw [hbefore i hi, hheaders.describes_iff, ← h.headers.describes_iff]
        exact h.describes i hi
      · rw [hlast]
        exact hdescribes
  · rintro hno ⟨t, ht, hdistinct, hdescribes, -⟩
    obtain rfl := Option.some.inj (hcode.symm.trans ht)
    rw [hready.live, Int.toNat_natCast] at hdistinct hdescribes
    refine hno ⟨fun i hi hin => ?_, hlast ▸ hdescribes n (by omega)⟩
    have hin' := hdistinct i (by omega) n (by omega) (by rw [hbefore i hi, hlast]; exact hin)
    omega

lemma Sound.close (himage : Image loc m) (h : p.Sound loc m s n)
    (hpresent : p.Present (.close name)) :
    ∃ s' n', (p.step (.close name)).Sound loc m s' n' := by
  have htable := himage.table
  have hle := h.le
  obtain ⟨t, ht, i, hi, hstring⟩ := hpresent
  obtain rfl := Option.some.inj (h.code.symm.trans ht)
  rw [h.ready.live, Int.toNat_natCast] at hi
  obtain ⟨n, rfl⟩ : ∃ k, n = k + 1 := ⟨n - 1, by omega⟩
  obtain ⟨s', hs', hready, heq⟩ := h.ready.closeFs name (by omega)
  set i' := (s.findNode name (n + 1) 0).getD (n + 1)
  have hcode : (p.step (.close name)).code = some s' := by
    show p.code.bind _ = _
    rw [h.code]
    exact hs'
  have hheaders : Headers loc m s' := by
    refine h.headers.count himage (v := n) ?_ ?_
    · rw [heq]
      exact h.headers.initrdHeader
    · rw [heq, h.headers.initrdHeader]
  -- where a node comes from
  have hfrom : ∀ j < n, s'.rootNodes j = s.rootNodes (if i' ≤ j then j + 1 else j) := by
    intro j hj
    rw [heq]
    show Initrd.shiftNodes (n - i') i' s.rootNodes j = _
    rw [shiftNodes_apply]
    split_ifs <;> first | rfl | omega
  refine ⟨s', n, hcode, hready, hheaders, by omega, fun j hj => ?_, fun j hj k hk hjk => ?_,
    fun j hj => ?_, h.got⟩
  · rw [hfrom j hj]
    exact h.read _ (by split_ifs <;> omega)
  · rw [hfrom j hj, hfrom k hk] at hjk
    have := h.distinct _ (by split_ifs <;> omega) _ (by split_ifs <;> omega) hjk
    split_ifs at this <;> omega
  · rw [hfrom j hj, hheaders.describes_iff, ← h.headers.describes_iff]
    exact h.describes _ (by split_ifs <;> omega)

lemma Sound.readFs (h : p.Sound loc m s n) (hi : i < n) :
    (s.readFs (.file i) offset size).2 =
      if (s.rootNodes i).length < offset then 0
      else if (s.rootNodes i).length < add32 offset size then
        sub32 (s.rootNodes i).length offset
      else size := by
  have hlength := (h.describes i hi).length
  have hnode : s.node (.file i) = s.rootNodes i := rfl
  unfold Initrd.readFs
  rw [hnode, if_pos (h.read i hi)]
  unfold Initrd.initrdRead
  simp only [hnode, hlength]
  split_ifs <;> rfl

lemma Sound.readOp (h : p.Sound loc m s n) (hpresent : p.Present (.read i offset size)) :
    (p.Unclaimed loc m (.read i offset size) →
        (p.step (.read i offset size)).Sound loc m s n) ∧
      (¬ p.Unclaimed loc m (.read i offset size) →
        ¬ (p.step (.read i offset size)).Described loc m) := by
  obtain ⟨hoffset, hsize, t, ht, hi⟩ := hpresent
  obtain rfl := Option.some.inj (h.code.symm.trans ht)
  rw [h.ready.live, Int.toNat_natCast] at hi
  have hstep : p.step (.read i offset size) =
      ⟨some s, (s.readFs (.file i) offset size).2, (s.rootNodes i).length⟩ := by
    unfold Disk.step
    rw [h.code]
  have hlt : (s.rootNodes i).length < 2 ^ 32 := by
    rw [← (h.describes i hi).length]
    exact read32_lt _ _
  have hgot : (s.readFs (.file i) offset size).2 ≤ (s.rootNodes i).length ↔
      p.Unclaimed loc m (.read i offset size) := by
    rw [h.readFs hi]
    constructor
    · intro hle t ht hoff
      obtain rfl := Option.some.inj (h.code.symm.trans ht)
      rw [if_neg (by omega)] at hle
      split_ifs at hle with hwrap
      · exact .inr hwrap
      · exact .inl hle
    · intro hun
      have hun := hun s h.code
      split_ifs with h1 h2
      · exact Nat.zero_le _
      · rw [sub32_eq (by omega) hlt]
        omega
      · exact (hun (by omega)).resolve_right h2
  rw [← hgot, hstep]
  constructor
  · intro hle
    exact ⟨rfl, h.ready, h.headers, h.le, h.read, h.distinct, h.describes, hle⟩
  · rintro hno ⟨-, -, -, -, hle⟩
    exact hno hle

end Calls

/-! ### The run -/

section Run

variable {loc : ℕ} {m : Mem} {root dev : FsNode} {table : ℕ → FsNode} {ops : List DiskOp}

/-- The start is described exactly when the names have been copied well. -/
lemma start_sound_iff (himage : Image loc m)
    (hnames : ∀ i < nfiles loc m, 0 ∈ headerName loc i m) :
    let s := Initrd.initialiseInitrd loc m root dev table
    let copied := ∀ i < nfiles loc m, fileName loc i m ≠ [] →
      (table i).name (fileName loc i m).length = 0
    (copied → (start s).Sound loc m s (nfiles loc m)) ∧ (¬ copied → ¬ (start s).Described loc m) := by
  intro s copied
  have hs := @initialised loc m root dev table himage
  have hready := @ready_initialise loc m root dev table himage
  have hheaders := @headers_initialise loc m root dev table himage
  have hinode : ∀ i < nfiles loc m, (s.rootNodes i).inode = i := by
    intro i hi
    rw [hs.file i hi]
    rfl
  have hdescribes : ∀ i < nfiles loc m, Describes loc m s (s.rootNodes i) ↔
      (fileName loc i m ≠ [] → (table i).name (fileName loc i m).length = 0) := by
    intro i hi
    rw [hheaders.describes_iff, hinode i hi, ← string_header_iff (hnames i hi)
      (headerLength loc i m) i, hs.file i hi]
    exact ⟨fun h => h.2.1, fun h => ⟨hi, h, rfl⟩⟩
  constructor
  · intro h
    refine ⟨rfl, hready, hheaders, le_rfl, fun i hi => ?_, fun i hi j hj hij => ?_,
      fun i hi => (hdescribes i hi).mpr (h i hi), le_rfl⟩
    · rw [hs.file i hi]
      rfl
    · rwa [hinode i hi, hinode j hj] at hij
  · rintro hno ⟨t, ht, -, hall, -⟩
    obtain rfl := Option.some.inj ht
    rw [hs.nrootNodes, Int.toNat_natCast] at hall
    exact hno fun i hi => (hdescribes i hi).mp (hall i hi)

/-- **Every node keeps a header of its own exactly when no `open` takes one over** and no `read`
wraps. -/
theorem described_iff_unclaimed (himage : Image loc m)
    (hnames : ∀ i < nfiles loc m, 0 ∈ headerName loc i m)
    (hops : Guarded step Present (start (Initrd.initialiseInitrd loc m root dev table)) ops) :
    Always step (Described loc m) (start (Initrd.initialiseInitrd loc m root dev table)) ops ↔
      (∀ i < nfiles loc m, fileName loc i m ≠ [] →
        (table i).name (fileName loc i m).length = 0) ∧
      Guarded step (Unclaimed loc m) (start (Initrd.initialiseInitrd loc m root dev table)) ops := by
  obtain ⟨hgood, hbad⟩ := @start_sound_iff loc m root dev table himage hnames
  by_cases hcopied : ∀ i < nfiles loc m, fileName loc i m ≠ [] →
      (table i).name (fileName loc i m).length = 0
  · rw [and_iff_right hcopied]
    refine always_iff_guarded_of (I := fun p => ∃ s n, p.Sound loc m s n)
      (fun p ⟨s, n, hp⟩ => hp.described) (fun p op ⟨s, n, hp⟩ hop hun => ?_)
      (fun p op ⟨s, n, hp⟩ hop hno => ?_) ⟨_, _, hgood hcopied⟩ hops
    · cases op with
      | opn name =>
        obtain ⟨s', hs'⟩ := (hp.opn himage hop.1 hop.2).1 hun
        exact ⟨s', n + 1, hs'⟩
      | close name => exact hp.close himage hop
      | read i offset size => exact ⟨s, n, (hp.readOp hop).1 hun⟩
    · cases op with
      | opn name => exact (hp.opn himage hop.1 hop.2).2 hno
      | close name => exact absurd trivial hno
      | read i offset size => exact (hp.readOp hop).2 hno
  · exact iff_of_false (fun h => hbad hcopied h.head) fun h => hcopied h.1

end Run

end Disk

/-- An image at `0x1000` with the empty files `a` and `b`. -/
def twoFiles : Mem :=
  write8 (write8 (write32 (fun _ => 0) 0x1000 2) 0x1005 0x61) 0x1051 0x62

/-- The disk of that image, in zeroed memory. -/
def twoFilesDisk : Initrd :=
  Initrd.initialiseInitrd 0x1000 twoFiles zeroNode zeroNode fun _ => zeroNode

namespace Disk

/-- With `a` closed and `c` opened, both `b` and `c` have the inode 1. -/
theorem described_fails :
    Guarded step Present (start twoFilesDisk) [.close [0x61], .opn [0x63]] ∧
      ¬ Always step (Described 0x1000 twoFiles) (start twoFilesDisk)
        [.close [0x61], .opn [0x63]] := by
  have hc : Spells [0x63] := ⟨List.cons_ne_nil _ _, List.forall_mem_singleton.mpr (by decide)⟩
  refine ⟨⟨⟨twoFilesDisk, rfl, 0, ?_, ?_⟩, ⟨hc, by decide⟩, trivial⟩, fun h => ?_⟩
  · decide +kernel
  · decide +kernel
  · obtain ⟨s, hs, hdistinct, -⟩ := h.last
    have hinodes : ([DiskOp.close [0x61], .opn [0x63]].foldl step (start twoFilesDisk)).code.map
        (fun s => (s.nrootNodes, (s.rootNodes 0).inode, (s.rootNodes 1).inode)) =
          some (2, 1, 1) := by decide +kernel
    rw [hs, Option.map_some, Option.some.injEq, Prod.mk.injEq, Prod.mk.injEq] at hinodes
    obtain ⟨hlive, h0, h1⟩ := hinodes
    rw [hlive] at hdistinct
    exact absurd (hdistinct 0 (by decide) 1 (by decide) (h0.trans h1.symm)) (by decide)

theorem described_read : Always step (Described 0x1000 threeFiles) (start threeFilesDisk)
    [.read 0 0 256, .close [0x63], .opn [0x63], .read 1 0 1] := by
  have hc : Spells [0x63] := ⟨List.cons_ne_nil _ _, List.forall_mem_singleton.mpr (by decide)⟩
  have hclosed : ([DiskOp.read 0 0 256, .close [0x63]].foldl step (start threeFilesDisk)).code.map
      (fun s => (s.nrootNodes, (s.rootNodes 0).inode, (s.rootNodes 1).inode,
        cstr ((List.range' 1 (NAME_SIZE - 1)).map (s.rootNodes 2).name ++ [0]))) =
      some (2, 0, 1, []) := by decide +kernel
  have hopen : ([DiskOp.read 0 0 256, .close [0x63], .opn [0x63]].foldl step
      (start threeFilesDisk)).code.map (fun s => (s.nrootNodes, (s.rootNodes 1).length)) =
      some (3, 1) := by decide +kernel
  obtain ⟨s, hs, hclosed⟩ := Option.map_eq_some_iff.mp hclosed
  obtain ⟨s', hs', hopen⟩ := Option.map_eq_some_iff.mp hopen
  simp only [Prod.mk.injEq] at hclosed hopen
  obtain ⟨hlive, h0, h1, hrest⟩ := hclosed
  have hops : Guarded step Present (start threeFilesDisk)
      [.read 0 0 256, .close [0x63], .opn [0x63], .read 1 0 1] := by
    refine ⟨⟨by decide, by decide, threeFilesDisk, rfl, ?_⟩, ⟨threeFilesDisk, rfl, 2, ?_, ?_⟩,
      ⟨hc, by decide⟩, ⟨by decide, by decide, s', hs', ?_⟩, trivial⟩
    · decide +kernel
    · decide +kernel
    · decide +kernel
    · rw [hopen.1]
      decide
  refine (described_iff_unclaimed threeFiles_named.1.toImage
    threeFiles_named.1.terminated hops).mpr ⟨fun i _ _ => rfl, ?_, trivial, ?_, ?_, trivial⟩
  · intro t ht _
    obtain rfl : threeFilesDisk = t := Option.some.inj ht
    exact Or.inr (by decide +kernel)
  · refine ⟨s, hs, ?_⟩
    rw [hlive, threeFiles_headers.1]
    refine ⟨by decide, fun i hi => ?_, threeFiles_headers.2.2.1.2.2, ?_⟩
    · obtain rfl | rfl : i = 0 ∨ i = 1 := by
        have : i < 2 := hi
        omega
      · rw [h0]
        decide
      · rw [h1]
        decide
    · show fileName 0x1000 2 threeFiles = [0x63] ++ cstr
        ((List.range' 1 (NAME_SIZE - 1)).map (s.rootNodes 2).name ++ [0])
      rw [hrest, threeFiles_headers.2.1.2.2]
      rfl
  · intro t ht _
    obtain rfl : s' = t := Option.some.inj (hs'.symm.trans ht)
    rw [hopen.2]
    exact Or.inl le_rfl

end Disk

end OsImplement.Fs
