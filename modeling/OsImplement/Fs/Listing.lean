import OsImplement.Fs.Reads

/-!
Listing and lookup (`initrd_readdir` and `initrd_finddir`).

Both directories share one table of files. A lookup searches it in either of them. A listing takes
its first index for the entry `dev` of the root, and counts the files from the second one on, also
in `dev`, where nothing stands at the first.
-/

namespace OsImplement.Fs

open Lib.Word Lib.Bytes

/-! ### Entries -/

/-- `dirent_t` -/
structure Dirent where
  name : ℕ → UInt8
  ino : ℕ

/-- The name as a string. Behind its field stands `ino`, with its low byte first. -/
def Dirent.string (dirent : Dirent) : List UInt8 :=
  cstr ((List.range NAME_SIZE).map dirent.name ++ (List.range 4).map (byteOf dirent.ino))

namespace Initrd

/-- The entry of a node, in the `dirent` that all calls share. -/
def direntOf (node : FsNode) (dirent : Dirent) : Dirent :=
  { name := Function.update (strcpy node.nameBytes dirent.name) (cstr node.nameBytes).length 0
    ino := node.inode }

/-- `initrd_readdir`: the contents of `dirent` behind the pointer that is returned. -/
def initrdReaddir (ptr : NodePtr) (index : ℕ) (dirent : Dirent) (s : Initrd) : Option Dirent :=
  if ptr = .root ∧ index = 0 then
    some { name := Function.update (strcpy devName dirent.name) 3 0, ino := 0 }
  else if (s.nrootNodes % 2 ^ 32).toNat ≤ sub32 index 1 then none
  else some (direntOf (s.rootNodes (sub32 index 1)) dirent)

/-- `readdir_fs` -/
def readdirFs (ptr : NodePtr) (index : ℕ) (dirent : Dirent) (s : Initrd) : Option Dirent :=
  if (s.node ptr).flags &&& 0x7 = FS_DIRECTORY ∧ (s.node ptr).readdir = .initrdReaddir then
    s.initrdReaddir ptr index dirent
  else none

/-- The index comes before the first one at which `readdir_fs` returns 0. -/
def Listed (s : Initrd) (ptr : NodePtr) (index : ℕ) : Prop :=
  ∀ j ≤ index, ∀ dirent, s.readdirFs ptr j dirent ≠ none

/-- What is found by its name is what is listed under that name, with the same inode. -/
structure ListingAgrees (s : Initrd) (ptr : NodePtr) : Prop where
  found : ∀ name, (∀ c ∈ name, c ≠ 0) → ∀ dirent,
    (s.finddirFs ptr name ≠ none ↔ ∃ i < 2 ^ 32, s.Listed ptr i ∧
      ∃ e, s.readdirFs ptr i dirent = some e ∧ e.string = name)
  inode : ∀ i < 2 ^ 32, ∀ dirent e p, s.Listed ptr i → s.readdirFs ptr i dirent = some e →
    s.finddirFs ptr e.string = some p → e.ino = (s.node p).inode

end Initrd

/-- The two directories over a table of `n` files, whose names are distinct, not empty and not
`dev`. -/
structure FileTable (s : Initrd) (n : ℕ) : Prop where
  root : ∃ node, s.initrdRoot = directoryNode Initrd.initrdName node
  dev : ∃ node, s.initrdDev = directoryNode Initrd.devName node
  live : s.nrootNodes = n
  int : n < 2 ^ 31
  mask : ∀ i < n, (s.rootNodes i).mask = 0
  nonempty : ∀ i < n, (s.rootNodes i).string ≠ []
  distinct : ∀ i < n, ∀ j < n, (s.rootNodes i).string = (s.rootNodes j).string → i = j
  notDev : ∀ i < n, (s.rootNodes i).string ≠ [0x64, 0x65, 0x76]

section Listing

variable {s : Initrd} {n i : ℕ} {ptr : Initrd.NodePtr} {name rest : List UInt8} {node : FsNode}
  {dirent e : Dirent} {p : Initrd.NodePtr}

/-! ### Names -/

/-- The string of an entry. A name that fills its field has no NUL of its own, and goes on into
`ino`. -/
lemma string_dirent (hs : Spells name) (hlen : name.length ≤ NAME_SIZE) (rest : List UInt8)
    (d : ℕ → UInt8) (ino : ℕ) :
    Dirent.string ⟨Function.update (strcpy (name ++ 0 :: rest) d) name.length 0, ino⟩ =
      if name.length < NAME_SIZE then name
      else name ++ cstr ((List.range 4).map (byteOf ino)) := by
  have hbegin : ∀ j < name.length,
      name[j]? = some (Function.update (strcpy (name ++ 0 :: rest) d) name.length 0 j) := by
    intro j hj
    rw [Function.update_of_ne (by omega), strcpy_apply hs, List.getElem?_eq_getElem hj,
      Option.getD_some]
  unfold Dirent.string
  simp only
  rw [map_range_split hlen hbegin, List.append_assoc, cstr_append hs.ne_zero]
  by_cases hlt : name.length < NAME_SIZE
  · have hnul : List.range' name.length (NAME_SIZE - name.length) =
        name.length :: List.range' (name.length + 1) (NAME_SIZE - name.length - 1) := by
      rw [← List.range'_succ]
      congr 1
      omega
    rw [if_pos hlt, hnul, List.map_cons, Function.update_self, List.cons_append, cstr_zero_cons,
      List.append_nil]
  · rw [if_neg hlt, Nat.sub_eq_zero_of_le (by omega)]
    rfl

lemma nameBytes_eq (hm : node.mask = 0) :
    (∃ rest, node.nameBytes = node.string ++ 0 :: rest) ∧ node.string.length ≤ NAME_SIZE := by
  have hzero : (0 : UInt8) ∈ node.nameBytes := by
    unfold FsNode.nameBytes
    rw [hm]
    exact List.mem_append_right _ (List.mem_singleton.mpr rfl)
  obtain ⟨rest, hrest⟩ := exists_cstr hzero
  refine ⟨⟨rest, hrest⟩, ?_⟩
  have hlength := congrArg List.length hrest
  rw [List.length_append, List.length_cons] at hlength
  have hbytes : node.nameBytes.length = NAME_SIZE + 1 := by
    unfold FsNode.nameBytes
    simp
  unfold FsNode.string
  omega

lemma string_direntOf (hm : node.mask = 0) (hne : node.string ≠ []) (dirent : Dirent) :
    (Initrd.direntOf node dirent).string = if node.string.length < NAME_SIZE then node.string
      else node.string ++ cstr ((List.range 4).map (byteOf node.inode)) := by
  obtain ⟨⟨rest, hrest⟩, hlen⟩ := nameBytes_eq hm
  have hs : Spells node.string := ⟨hne, cstr_ne_zero⟩
  rw [← string_dirent hs hlen rest dirent.name node.inode, ← hrest]
  rfl

/-- The name of a file comes out of its entry, unless it runs on into `ino`. -/
lemma string_direntOf_iff (hm : node.mask = 0) (hne : node.string ≠ []) (dirent : Dirent) :
    (Initrd.direntOf node dirent).string = node.string ↔
      (node.string.length = NAME_SIZE → node.inode % 256 = 0) := by
  have hlen := (nameBytes_eq hm).2
  rw [string_direntOf hm hne]
  by_cases hlt : node.string.length < NAME_SIZE
  · rw [if_pos hlt]
    exact iff_of_true rfl fun h => absurd h (by omega)
  · have hfull : node.string.length = NAME_SIZE := by omega
    have hlow : (List.range 4).map (byteOf node.inode) =
        byteOf node.inode 0 :: [byteOf node.inode 1, byteOf node.inode 2, byteOf node.inode 3] :=
      rfl
    have hbyte : byteOf node.inode 0 = 0 ↔ node.inode % 256 = 0 := by
      rw [← UInt8.toNat_inj, byteOf_toNat]
      simp
    rw [if_neg hlt, List.append_right_eq_self, hlow]
    by_cases h0 : byteOf node.inode 0 = 0
    · rw [h0]
      exact iff_of_true rfl fun _ => hbyte.mp h0
    · rw [cstr_cons h0]
      exact iff_of_false (List.cons_ne_nil _ _) fun h => h0 (hbyte.mpr (h hfull))

/-! ### Lookup -/

/-- **What a lookup finds**: `dev` in the root, and every file in either directory. -/
lemma FileTable.finddirFs_iff (h : FileTable s n) (hptr : ptr = .root ∨ ptr = .dev)
    (hname : ∀ c ∈ name, c ≠ 0) :
    s.finddirFs ptr name = some p ↔
      ptr = .root ∧ name = [0x64, 0x65, 0x76] ∧ p = .dev ∨
        ∃ i < n, (s.rootNodes i).string = name ∧ p = .file i := by
  obtain ⟨root, hroot⟩ := h.root
  obtain ⟨dev, hdev⟩ := h.dev
  have hdir : s.finddirFs ptr name = s.initrdFinddir ptr name := by
    unfold Initrd.finddirFs
    rcases hptr with rfl | rfl
    · rw [show s.node .root = directoryNode Initrd.initrdName root from hroot]
      exact if_pos ⟨(by decide : FS_DIRECTORY &&& 0x7 = FS_DIRECTORY), rfl⟩
    · rw [show s.node .dev = directoryNode Initrd.devName dev from hdev]
      exact if_pos ⟨(by decide : FS_DIRECTORY &&& 0x7 = FS_DIRECTORY), rfl⟩
  have hcmp : strcmp (name ++ [0]) Initrd.devName = 0 ↔ name = [0x64, 0x65, 0x76] := by
    rw [strcmp_eq_zero_iff hname (by decide)]
    exact eq_comm
  have hspec := findNode_spec (s := s) (n := n) (i := 0) (by simpa using h.mask) hname
  rw [hdir]
  unfold Initrd.initrdFinddir
  rw [h.live, Int.toNat_natCast]
  by_cases hspecial : ptr = .root ∧ strcmp (name ++ [0]) Initrd.devName = 0
  · rw [if_pos hspecial, Option.some.injEq]
    have hdev : name = [0x64, 0x65, 0x76] := hcmp.mp hspecial.2
    constructor
    · rintro rfl
      exact Or.inl ⟨hspecial.1, hdev, rfl⟩
    · rintro (⟨-, -, rfl⟩ | ⟨i, hi, he, -⟩)
      · rfl
      · exact absurd (he.trans hdev) (h.notDev i hi)
  · rw [if_neg hspecial]
    constructor
    · intro hfound
      obtain ⟨j, hj, rfl⟩ := Option.map_eq_some_iff.mp hfound
      rw [hj] at hspec
      exact Or.inr ⟨j, by omega, hspec.2.2.1, rfl⟩
    · rintro (⟨hr, he, -⟩ | ⟨i, hi, he, rfl⟩)
      · exact absurd ⟨hr, hcmp.mpr he⟩ hspecial
      · cases hfind : s.findNode name n 0 with
        | none =>
          rw [hfind] at hspec
          exact absurd he (hspec i (by omega) (by omega))
        | some j =>
          rw [hfind] at hspec
          obtain rfl := h.distinct j (by omega) i hi (hspec.2.2.1.trans he.symm)
          rfl

/-! ### Listing -/

lemma FileTable.readdirFs_eq (h : FileTable s n) (hptr : ptr = .root ∨ ptr = .dev) :
    s.readdirFs ptr i dirent = s.initrdReaddir ptr i dirent := by
  obtain ⟨root, hroot⟩ := h.root
  obtain ⟨dev, hdev⟩ := h.dev
  unfold Initrd.readdirFs
  rcases hptr with rfl | rfl
  · rw [show s.node .root = directoryNode Initrd.initrdName root from hroot]
    exact if_pos ⟨(by decide : FS_DIRECTORY &&& 0x7 = FS_DIRECTORY), rfl⟩
  · rw [show s.node .dev = directoryNode Initrd.devName dev from hdev]
    exact if_pos ⟨(by decide : FS_DIRECTORY &&& 0x7 = FS_DIRECTORY), rfl⟩

lemma FileTable.count (h : FileTable s n) : (s.nrootNodes % 2 ^ 32).toNat = n := by
  have hint := h.int
  rw [h.live]
  omega

lemma FileTable.readdirFs_root_zero (h : FileTable s n) (dirent : Dirent) :
    ∃ e, s.readdirFs .root 0 dirent = some e ∧ e.string = [0x64, 0x65, 0x76] ∧ e.ino = 0 := by
  have hs : Spells [0x64, 0x65, 0x76] := ⟨List.cons_ne_nil _ _, by simp⟩
  have hstring := string_dirent hs (by decide) [] dirent.name 0
  rw [if_pos (by decide)] at hstring
  rw [h.readdirFs_eq (Or.inl rfl)]
  exact ⟨_, if_pos ⟨rfl, rfl⟩, hstring, rfl⟩

lemma FileTable.readdirFs_root_succ (h : FileTable s n) (hi : i + 1 < 2 ^ 32) (dirent : Dirent) :
    s.readdirFs .root (i + 1) dirent =
      if i < n then some (Initrd.direntOf (s.rootNodes i) dirent) else none := by
  have hindex : sub32 (i + 1) 1 = i := by
    rw [sub32_eq (by omega) hi]
    rfl
  rw [h.readdirFs_eq (Or.inl rfl)]
  unfold Initrd.initrdReaddir
  rw [if_neg fun hc => absurd hc.2 (by omega), h.count, hindex]
  by_cases hin : i < n
  · rw [if_neg (by omega), if_pos hin]
  · rw [if_pos (by omega), if_neg hin]

lemma FileTable.readdirFs_dev_zero (h : FileTable s n) (dirent : Dirent) :
    s.readdirFs .dev 0 dirent = none := by
  have hint := h.int
  have hindex : sub32 0 1 = 2 ^ 32 - 1 := by decide
  rw [h.readdirFs_eq (Or.inr rfl)]
  unfold Initrd.initrdReaddir
  rw [if_neg fun hc => absurd hc.1 (by decide), h.count, hindex]
  exact if_pos (by omega)

lemma FileTable.listed_root (h : FileTable s n) (hi : i ≤ n) : s.Listed .root i := by
  intro j hj dirent
  cases j with
  | zero =>
    obtain ⟨e, he, -⟩ := h.readdirFs_root_zero dirent
    rw [he]
    exact Option.some_ne_none _
  | succ j =>
    have hint := h.int
    rw [h.readdirFs_root_succ (by omega), if_pos (by omega)]
    exact Option.some_ne_none _

lemma FileTable.readdirFs_root_cases (h : FileTable s n) (hi : i < 2 ^ 32)
    (he : s.readdirFs .root i dirent = some e) :
    i = 0 ∧ e.string = [0x64, 0x65, 0x76] ∧ e.ino = 0 ∨
      ∃ j < n, i = j + 1 ∧ e = Initrd.direntOf (s.rootNodes j) dirent := by
  cases i with
  | zero =>
    obtain ⟨e', he', hstring, hino⟩ := h.readdirFs_root_zero dirent
    obtain rfl := Option.some.inj (he.symm.trans he')
    exact Or.inl ⟨rfl, hstring, hino⟩
  | succ j =>
    rw [h.readdirFs_root_succ hi] at he
    split at he
    · next hj => exact Or.inr ⟨j, hj, rfl, (Option.some.inj he).symm⟩
    · cases he

lemma FileTable.inode_dev (h : FileTable s n) : (s.node .dev).inode = 0 := by
  obtain ⟨dev, hdev⟩ := h.dev
  rw [show s.node .dev = directoryNode Initrd.devName dev from hdev]
  rfl

lemma FileTable.listingAgrees_root (h : FileTable s n)
    (hfull : ∀ i < n, (s.rootNodes i).string.length = NAME_SIZE →
      (s.rootNodes i).inode % 256 = 0) : s.ListingAgrees .root := by
  have hint := h.int
  have hstring : ∀ i < n, ∀ dirent,
      (Initrd.direntOf (s.rootNodes i) dirent).string = (s.rootNodes i).string := fun i hi dirent =>
    (string_direntOf_iff (h.mask i hi) (h.nonempty i hi) dirent).mpr (hfull i hi)
  constructor
  · intro name hname dirent
    rw [Option.ne_none_iff_exists']
    constructor
    · rintro ⟨p, hp⟩
      rcases (h.finddirFs_iff (Or.inl rfl) hname).mp hp with ⟨-, rfl, -⟩ | ⟨i, hi, rfl, -⟩
      · obtain ⟨e, he, hdev, -⟩ := h.readdirFs_root_zero dirent
        exact ⟨0, by omega, h.listed_root (by omega), e, he, hdev⟩
      · refine ⟨i + 1, by omega, h.listed_root (by omega), _, ?_, hstring i hi dirent⟩
        rw [h.readdirFs_root_succ (by omega), if_pos hi]
    · rintro ⟨i, hi, -, e, he, rfl⟩
      rcases h.readdirFs_root_cases hi he with ⟨-, hdev, -⟩ | ⟨j, hj, -, rfl⟩
      · exact ⟨.dev, (h.finddirFs_iff (Or.inl rfl) hname).mpr (Or.inl ⟨rfl, hdev, rfl⟩)⟩
      · exact ⟨.file j, (h.finddirFs_iff (Or.inl rfl) hname).mpr
          (Or.inr ⟨j, hj, (hstring j hj dirent).symm, rfl⟩)⟩
  · intro i hi dirent e p _ he hp
    have hname : ∀ c ∈ e.string, c ≠ 0 := cstr_ne_zero
    have hfound := (h.finddirFs_iff (Or.inl rfl) hname).mp hp
    rcases h.readdirFs_root_cases hi he with ⟨-, hdev, hino⟩ | ⟨j, hj, -, rfl⟩
    · rcases hfound with ⟨-, -, rfl⟩ | ⟨k, hk, hs, -⟩
      · rw [hino, h.inode_dev]
      · exact absurd (hs.trans hdev) (h.notDev k hk)
    · rw [hstring j hj dirent] at hfound
      rcases hfound with ⟨-, hdev, -⟩ | ⟨k, hk, hs, rfl⟩
      · exact absurd hdev (h.notDev j hj)
      · obtain rfl := h.distinct k hk j hj hs
        rfl

/-- A name that runs on is found, and is listed at no index. -/
lemma FileTable.fits_of_listingAgrees (h : FileTable s n) (hagree : s.ListingAgrees .root)
    (hi : i < n) (hlen : (s.rootNodes i).string.length = NAME_SIZE) :
    (s.rootNodes i).inode % 256 = 0 := by
  have hname : ∀ c ∈ (s.rootNodes i).string, c ≠ 0 := cstr_ne_zero
  have hfind : s.finddirFs .root (s.rootNodes i).string = some (.file i) :=
    (h.finddirFs_iff (Or.inl rfl) hname).mpr (Or.inr ⟨i, hi, rfl, rfl⟩)
  have hfound : s.finddirFs .root (s.rootNodes i).string ≠ none := by
    rw [hfind]
    exact Option.some_ne_none _
  obtain ⟨j, hj, -, e, he, hstring⟩ := (hagree.found _ hname ⟨fun _ => 0, 0⟩).mp hfound
  rcases h.readdirFs_root_cases hj he with ⟨-, hdev, -⟩ | ⟨k, hk, -, rfl⟩
  · exact absurd (hstring.symm.trans hdev) (h.notDev i hi)
  · have hown := string_direntOf_iff (h.mask k hk) (h.nonempty k hk) ⟨fun _ => 0, 0⟩
    by_cases heq : (Initrd.direntOf (s.rootNodes k) ⟨fun _ => 0, 0⟩).string =
        (s.rootNodes k).string
    · obtain rfl := h.distinct k hk i hi (heq.symm.trans hstring)
      exact hown.mp heq hlen
    · -- an entry that runs on is longer than any name
      have hlong : (s.rootNodes k).string.length = NAME_SIZE := by
        by_contra hshort
        exact heq (hown.mpr fun hfull => absurd hfull hshort)
      have hentry := string_direntOf (h.mask k hk) (h.nonempty k hk) ⟨fun _ => 0, 0⟩
      rw [if_neg (by omega), hstring] at hentry
      have hlength := congrArg List.length hentry
      rw [List.length_append] at hlength
      have hnil : cstr ((List.range 4).map (byteOf (s.rootNodes k).inode)) = [] :=
        List.length_eq_zero_iff.mp (by omega)
      rw [hnil, List.append_nil] at hentry
      exact absurd (hstring.trans hentry) heq

/-- **Listing and lookup agree** exactly in the root, unless there is no file at all, and there as
long as no name runs on into the inode of its entry. -/
theorem listingAgrees_iff (h : FileTable s n) (hptr : ptr = .root ∨ ptr = .dev) :
    s.ListingAgrees ptr ↔ n = 0 ∨ ptr = .root ∧ ∀ i < n,
      (s.rootNodes i).string.length = NAME_SIZE → (s.rootNodes i).inode % 256 = 0 := by
  rcases hptr with rfl | rfl
  · constructor
    · intro hagree
      exact Or.inr ⟨rfl, fun i hi hlen => h.fits_of_listingAgrees hagree hi hlen⟩
    · rintro (rfl | ⟨-, hfull⟩)
      · exact h.listingAgrees_root fun i hi => absurd hi (by omega)
      · exact h.listingAgrees_root hfull
  · constructor
    · intro hagree
      refine Or.inl (Nat.eq_zero_of_not_pos fun hpos => ?_)
      have hname : ∀ c ∈ (s.rootNodes 0).string, c ≠ 0 := cstr_ne_zero
      have hfind : s.finddirFs .dev (s.rootNodes 0).string = some (.file 0) :=
        (h.finddirFs_iff (Or.inr rfl) hname).mpr (Or.inr ⟨0, hpos, rfl, rfl⟩)
      have hfound : s.finddirFs .dev (s.rootNodes 0).string ≠ none := by
        rw [hfind]
        exact Option.some_ne_none _
      obtain ⟨i, -, hlisted, -⟩ := (hagree.found _ hname ⟨fun _ => 0, 0⟩).mp hfound
      exact hlisted 0 (Nat.zero_le _) ⟨fun _ => 0, 0⟩ (h.readdirFs_dev_zero _)
    · rintro (rfl | ⟨hr, -⟩)
      · constructor
        · intro name hname dirent
          have hnone : s.finddirFs .dev name = none := by
            rw [Option.eq_none_iff_forall_not_mem]
            intro p hp
            rcases (h.finddirFs_iff (Or.inr rfl) hname).mp hp with ⟨hr, -⟩ | ⟨i, hi, -⟩
            · cases hr
            · omega
          refine iff_of_false (fun hne => hne hnone) ?_
          rintro ⟨i, -, hlisted, -⟩
          exact hlisted 0 (Nat.zero_le _) dirent (h.readdirFs_dev_zero _)
        · intro i _ dirent e p hlisted
          exact absurd (h.readdirFs_dev_zero dirent) (hlisted 0 (Nat.zero_le _) dirent)
      · cases hr

end Listing

lemma fileTable_oneFileDisk : FileTable oneFileDisk 1 := by
  have h := @initialised 0x1000 oneFile zeroNode zeroNode (fun _ => zeroNode) image_oneFile
  have hstring : (oneFileDisk.rootNodes 0).string = [0x61] := by decide +kernel
  have hzero {i : ℕ} (hi : i < 1) : i = 0 := by omega
  refine ⟨⟨_, h.initrdRoot⟩, ⟨_, h.initrdDev⟩, ?_, by decide, fun i hi => ?_, fun i hi => ?_,
    fun i hi j hj _ => ?_, fun i hi => ?_⟩
  · rw [show oneFileDisk.nrootNodes = (nfiles 0x1000 oneFile : ℤ) from h.nrootNodes, nfiles_oneFile]
  · rw [show oneFileDisk.rootNodes i = _ from h.file i (by rwa [nfiles_oneFile])]
    rfl
  · rw [hzero hi, hstring]
    exact List.cons_ne_nil _ _
  · rw [hzero hi, hzero hj]
  · rw [hzero hi, hstring]
    decide

/-- The file `a` is found in `dev`, which lists nothing. -/
theorem listingAgrees_fails : FileTable oneFileDisk 1 ∧ ¬ oneFileDisk.ListingAgrees .dev := by
  refine ⟨fileTable_oneFileDisk, fun h => ?_⟩
  have hname : ∀ c ∈ [(0x61 : UInt8)], c ≠ 0 := List.forall_mem_singleton.mpr (by decide)
  have hfound : oneFileDisk.finddirFs .dev [0x61] ≠ none := by decide +kernel
  obtain ⟨i, -, hlisted, -⟩ := (h.found [0x61] hname ⟨fun _ => 0, 0⟩).mp hfound
  exact hlisted 0 (Nat.zero_le _) ⟨fun _ => 0, 0⟩ (fileTable_oneFileDisk.readdirFs_dev_zero _)

theorem listingAgrees_one : oneFileDisk.ListingAgrees .root := by
  refine (listingAgrees_iff fileTable_oneFileDisk (Or.inl rfl)).mpr (Or.inr ⟨rfl, ?_⟩)
  intro i hi hlen
  obtain rfl : i = 0 := by omega
  have hshort : (oneFileDisk.rootNodes 0).string.length ≠ NAME_SIZE := by decide +kernel
  exact absurd hlen hshort

end OsImplement.Fs
