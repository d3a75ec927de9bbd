import OsImplement.Fs.Files

/-!
Lookup and read right after `initialise_initrd`.

The name of a file is copied without its NUL into a block of the heap, and its bytes are read
through a header whose offset has been replaced by an address, in the image itself.
-/

namespace OsImplement.Fs

open Lib.Word Lib.Bytes

/-- The name in a header, as a string. -/
def fileName (loc i : ℕ) (m : Mem) : List UInt8 := cstr (headerName loc i m)

/-- The bytes of a file in the image. -/
def fileBytes (loc i : ℕ) (m : Mem) : List UInt8 :=
  (List.range (headerLength loc i m)).map fun k => read8 m (loc + headerOffset loc i m + k)

/-- An image whose files have names: none is empty, cut off, twice there, or `dev`. -/
structure NamedImage (loc : ℕ) (m : Mem) : Prop extends Image loc m where
  terminated : ∀ i < nfiles loc m, 0 ∈ headerName loc i m
  nonempty : ∀ i < nfiles loc m, fileName loc i m ≠ []
  distinct : ∀ i < nfiles loc m, ∀ j < nfiles loc m, fileName loc i m = fileName loc j m → i = j
  notDev : ∀ i < nfiles loc m, fileName loc i m ≠ [0x64, 0x65, 0x76]

/-- The byte at `x` is in no offset field, or the load address does not change it. -/
def Untouched (loc : ℕ) (m : Mem) (x : ℕ) : Prop :=
  ∀ j < nfiles loc m, ∀ b < 4, x = fileHeader loc j + 68 + b →
    add32 (headerOffset loc j m) loc / 256 ^ b % 256 = headerOffset loc j m / 256 ^ b % 256

section Lookup

variable {loc i k : ℕ} {m m' : Mem} {root dev : FsNode} {table : ℕ → FsNode} {s : Initrd}

lemma read8_of_read32 (m : Mem) (a : ℕ) {b : ℕ} (hb : b < 4) :
    (read8 m (a + b)).toNat = read32 m a / 256 ^ b % 256 := by
  have h (x : ℕ) : (read8 m x).toNat < 256 := UInt8.toNat_lt _
  have h0 := h a
  have h1 := h (a + 1)
  have h2 := h (a + 2)
  have h3 := h (a + 3)
  unfold read32
  rcases b with _ | _ | _ | _ | b
  · simp only [Nat.add_zero, pow_zero, Nat.div_one]
    omega
  · simp only [Nat.zero_add, pow_one]
    omega
  · simp only [Nat.zero_add, Nat.reduceAdd, Nat.reducePow]
    omega
  · simp only [Nat.zero_add, Nat.reduceAdd, Nat.reducePow]
    omega
  · omega

/-- **The relocation leaves a byte alone exactly when it is untouched.** -/
lemma Initialised.read8_iff (h : Initialised loc m root dev table (nfiles loc m) s)
    (himage : Image loc m) {x : ℕ} (hx : x < 2 ^ 32) :
    read8 s.mem x = read8 m x ↔ Untouched loc m x := by
  have htop := himage.top
  by_cases hfield : x ∈ offsetFields loc (nfiles loc m)
  · obtain ⟨j, hj, h1, h2⟩ := hfield
    have hb : x - (fileHeader loc j + 68) < 4 := by omega
    have hsplit : x = fileHeader loc j + 68 + (x - (fileHeader loc j + 68)) := by omega
    set b := x - (fileHeader loc j + 68)
    have hnew : (read8 s.mem x).toNat = add32 (headerOffset loc j m) loc / 256 ^ b % 256 := by
      rw [hsplit, read8_of_read32 _ _ hb, ← h.relocated j hj]
      rfl
    have hold : (read8 m x).toNat = headerOffset loc j m / 256 ^ b % 256 := by
      rw [hsplit, read8_of_read32 _ _ hb]
      rfl
    rw [← UInt8.toNat_inj, hnew, hold]
    constructor
    · intro heq j' hj' b' hb' hx'
      -- the field that holds the byte
      have hjj : j' = j := by
        unfold fileHeader at *
        omega
      subst hjj
      obtain rfl : b' = b := by omega
      exact heq
    · intro hun
      exact hun j hj b hb hsplit
  · have hsame : read8 s.mem x = read8 m x :=
      h.writes.read8 (by rwa [Nat.mod_eq_of_lt hx])
    refine iff_of_true hsame fun j hj b hb hxb => absurd ⟨j, hj, ?_, ?_⟩ hfield
    · omega
    · omega

lemma spells_fileName (h : NamedImage loc m) (hi : i < nfiles loc m) :
    Spells (fileName loc i m) := ⟨h.nonempty i hi, cstr_ne_zero⟩

lemma length_fileName (h : NamedImage loc m) (hi : i < nfiles loc m) :
    (fileName loc i m).length < NAME_SIZE := by
  obtain ⟨rest, hrest⟩ := exists_cstr (h.terminated i hi)
  have hlen := congrArg List.length hrest
  unfold fileName NAME_SIZE
  simp [headerName] at hlen ⊢
  omega

/-- The name of a node is that of its file exactly when there was a NUL behind it. -/
lemma Initialised.string_iff (h : Initialised loc m root dev table (nfiles loc m) s)
    (himage : NamedImage loc m) (hi : i < nfiles loc m) :
    (s.rootNodes i).string = fileName loc i m ↔
      (table i).name (fileName loc i m).length = 0 := by
  obtain ⟨rest, hrest⟩ := exists_cstr (himage.terminated i hi)
  rw [h.file i hi, string_fileNode, hrest]
  exact cstr_strcpy_iff (spells_fileName himage hi) (length_fileName himage hi) rest _

lemma Initialised.finddirFs_iff (h : Initialised loc m root dev table (nfiles loc m) s)
    (himage : NamedImage loc m) :
    (∀ i < nfiles loc m, s.finddirFs .root (fileName loc i m) = some (.file i)) ↔
      ∀ i < nfiles loc m, (table i).name (fileName loc i m).length = 0 := by
  have hmask : ∀ k < 0 + nfiles loc m, (s.rootNodes k).mask = 0 := fun k hk => by
    rw [h.file k (by omega)]
    rfl
  have hlookup : ∀ i < nfiles loc m, s.finddirFs .root (fileName loc i m) =
      (s.findNode (fileName loc i m) (nfiles loc m) 0).map .file := by
    intro i hi
    have hdev : strcmp (fileName loc i m ++ [0]) Initrd.devName ≠ 0 := by
      have hname : ∀ c ∈ fileName loc i m, c ≠ 0 := cstr_ne_zero
      intro h0
      have heq := (strcmp_eq_zero_iff hname (by decide : 0 ∈ Initrd.devName)).mp h0
      exact himage.notDev i hi heq.symm
    have hroot : s.node .root = directoryNode Initrd.initrdName root := h.initrdRoot
    unfold Initrd.finddirFs
    rw [hroot, if_pos ⟨(by decide : FS_DIRECTORY &&& 0x7 = FS_DIRECTORY), rfl⟩]
    unfold Initrd.initrdFinddir
    rw [if_neg fun hc => hdev hc.2, h.nrootNodes, Int.toNat_natCast]
  constructor
  · intro hfound i hi
    rw [← h.string_iff himage hi]
    have hspec := findNode_spec hmask (cstr_ne_zero : ∀ c ∈ cstr (headerName loc i m), c ≠ 0)
    have hi' := hfound i hi
    rw [hlookup i hi] at hi'
    obtain ⟨j, hj, hji⟩ := Option.map_eq_some_iff.mp hi'
    obtain rfl : j = i := by simpa using hji
    unfold fileName at hj
    rw [hj] at hspec
    exact hspec.2.2.1
  · intro hnul i hi
    have hstring : ∀ j < nfiles loc m, (s.rootNodes j).string = fileName loc j m :=
      fun j hj => (h.string_iff himage hj).mpr (hnul j hj)
    rw [hlookup i hi]
    have hspec := findNode_spec hmask (cstr_ne_zero : ∀ c ∈ cstr (headerName loc i m), c ≠ 0)
    unfold fileName
    cases hfind : s.findNode (cstr (headerName loc i m)) (nfiles loc m) 0 with
    | none =>
      rw [hfind] at hspec
      exact absurd (hstring i hi) (hspec i (by omega) (by omega))
    | some j =>
      rw [hfind] at hspec
      obtain ⟨-, hj, hname, -⟩ := hspec
      have hjn : j < nfiles loc m := by omega
      obtain rfl := himage.distinct j hjn i hi ((hstring j hjn).symm.trans hname)
      rfl

lemma Initialised.readFs_eq (h : Initialised loc m root dev table (nfiles loc m) s)
    (himage : Image loc m) (hi : i < nfiles loc m) :
    s.readFs (.file i) 0 (headerLength loc i m) =
      ((List.range (headerLength loc i m)).map fun k =>
        read8 s.mem (loc + headerOffset loc i m + k), headerLength loc i m) := by
  have htop := himage.top
  have hnode : s.node (.file i) =
      fileNode (headerName loc i m) (headerLength loc i m) i (table i) := h.file i hi
  have hinode : (s.node (.file i)).inode = i := by rw [hnode]; rfl
  have hlength : headerLength s.initrdHeader i s.mem = headerLength loc i m := by
    rw [h.initrdHeader]
    exact headerLength_congr h.writes (by omega)
  have hoffset : headerOffset s.initrdHeader i s.mem = add32 (headerOffset loc i m) loc := by
    rw [h.initrdHeader]
    exact h.relocated i hi
  have hlt : headerLength loc i m < 2 ^ 32 := read32_lt _ _
  have hsum : add32 0 (headerLength loc i m) = headerLength loc i m := by
    rw [add32_eq (by omega), Nat.zero_add]
  unfold Initrd.readFs
  rw [show (s.node (.file i)).read = .initrdRead by rw [hnode]; rfl, if_pos rfl]
  unfold Initrd.initrdRead
  simp only [hinode, hlength, hoffset, hsum, Nat.not_lt_zero, lt_irrefl, if_false]
  refine Prod.ext (List.map_congr_left fun k hk => ?_) rfl
  unfold read8 add32
  congr 1
  omega

lemma Initialised.readFs_iff (h : Initialised loc m root dev table (nfiles loc m) s)
    (himage : Image loc m) (hi : i < nfiles loc m) :
    s.readFs (.file i) 0 (headerLength loc i m) = (fileBytes loc i m, headerLength loc i m) ↔
      ∀ k < headerLength loc i m,
        Untouched loc m ((loc + headerOffset loc i m + k) % 2 ^ 32) := by
  have hbyte (m' : Mem) (x : ℕ) : read8 m' x = read8 m' (x % 2 ^ 32) := by
    unfold read8
    rw [Nat.mod_mod]
  rw [h.readFs_eq himage hi, Prod.mk.injEq, and_iff_left rfl]
  unfold fileBytes
  rw [List.map_inj_left]
  constructor
  · intro heq k hk
    rw [← h.read8_iff himage (Nat.mod_lt _ (by decide)), ← hbyte, ← hbyte]
    exact heq k (List.mem_range.mpr hk)
  · intro hun k hk
    rw [hbyte s.mem, hbyte m]
    exact (h.read8_iff himage (Nat.mod_lt _ (by decide))).mpr (hun k (List.mem_range.mp hk))

/-- **Every file is found and read exactly when every copied name meets a NUL** (and no file takes
in the offset fields of the headers). -/
theorem found_and_read_iff (himage : NamedImage loc m) :
    (∀ i < nfiles loc m,
      (Initrd.initialiseInitrd loc m root dev table).finddirFs .root (fileName loc i m) =
          some (.file i) ∧
        (Initrd.initialiseInitrd loc m root dev table).readFs (.file i) 0 (headerLength loc i m) =
          (fileBytes loc i m, headerLength loc i m)) ↔
      (∀ i < nfiles loc m, (table i).name (fileName loc i m).length = 0) ∧
        ∀ i < nfiles loc m, ∀ k < headerLength loc i m,
          Untouched loc m ((loc + headerOffset loc i m + k) % 2 ^ 32) := by
  have h := @initialised loc m root dev table himage.toImage
  rw [← h.finddirFs_iff himage]
  constructor
  · intro hall
    exact ⟨fun i hi => (hall i hi).1,
      fun i hi => (h.readFs_iff himage.toImage hi).mp (hall i hi).2⟩
  · rintro ⟨hfind, hread⟩ i hi
    exact ⟨hfind i hi, (h.readFs_iff himage.toImage hi).mpr (hread i hi)⟩

end Lookup

lemma fileName_oneFile : fileName 0x1000 0 oneFile = [0x61] := by decide +kernel

lemma namedImage_oneFile : NamedImage 0x1000 oneFile := by
  have hzero {i : ℕ} (hi : i < nfiles 0x1000 oneFile) : i = 0 := by
    rw [nfiles_oneFile] at hi
    omega
  refine ⟨image_oneFile, fun i hi => ?_, fun i hi => ?_, fun i hi j hj _ => ?_, fun i hi => ?_⟩
  · rw [hzero hi]
    decide +kernel
  · rw [hzero hi, fileName_oneFile]
    decide
  · rw [hzero hi, hzero hj]
  · rw [hzero hi, fileName_oneFile]
    decide

/-- A heap that is full of the letter `a`. -/
def dirtyNode : FsNode := { zeroNode with name := fun _ => 0x61 }

/-- The file `a` is not found when the byte behind its name in the new block is an `a` too. -/
theorem found_and_read_fails : NamedImage 0x1000 oneFile ∧
    ¬ ∀ i < nfiles 0x1000 oneFile,
      (Initrd.initialiseInitrd 0x1000 oneFile zeroNode zeroNode fun _ => dirtyNode).finddirFs .root
            (fileName 0x1000 i oneFile) = some (.file i) ∧
        (Initrd.initialiseInitrd 0x1000 oneFile zeroNode zeroNode fun _ => dirtyNode).readFs
            (.file i) 0 (headerLength 0x1000 i oneFile) =
          (fileBytes 0x1000 i oneFile, headerLength 0x1000 i oneFile) := by
  refine ⟨namedImage_oneFile, fun h => ?_⟩
  have h0 := (h 0 (by rw [nfiles_oneFile]; decide)).1
  rw [fileName_oneFile] at h0
  exact absurd h0 (by decide +kernel)

/-- An image at `0x1000` with three files: `a`, of the bytes `hi`, `b`, of the byte `x`, and `c`,
which is empty. -/
def threeFiles : Mem :=
  let m := write8 (write8 (write8 (fun _ => 0) 0x1005 0x61) 0x1051 0x62) 0x109D 0x63
  let m := write32 (write32 (write32 m 0x1000 3) 0x1048 0xE8) 0x104C 2
  let m := write32 (write32 m 0x1094 0xEA) 0x1098 1
  write8 (write8 (write8 m 0x10E8 0x68) 0x10E9 0x69) 0x10EA 0x78

/-- The disk of that image, in zeroed memory. -/
def threeFilesDisk : Initrd :=
  Initrd.initialiseInitrd 0x1000 threeFiles zeroNode zeroNode fun _ => zeroNode

lemma threeFiles_headers : nfiles 0x1000 threeFiles = 3 ∧
    (fileName 0x1000 0 threeFiles = [0x61] ∧ fileName 0x1000 1 threeFiles = [0x62] ∧
      fileName 0x1000 2 threeFiles = [0x63]) ∧
    (headerLength 0x1000 0 threeFiles = 2 ∧ headerLength 0x1000 1 threeFiles = 1 ∧
      headerLength 0x1000 2 threeFiles = 0) ∧
    fileBytes 0x1000 0 threeFiles = [0x68, 0x69] ∧ fileBytes 0x1000 1 threeFiles = [0x78] ∧
      fileBytes 0x1000 2 threeFiles = [] := by
  decide +kernel

lemma threeFiles_named : NamedImage 0x1000 threeFiles ∧ ∀ i < nfiles 0x1000 threeFiles,
    ∀ k < headerLength 0x1000 i threeFiles,
      Untouched 0x1000 threeFiles ((0x1000 + headerOffset 0x1000 i threeFiles + k) % 2 ^ 32) := by
  refine ⟨⟨⟨?_, ?_⟩, ?_, ?_, ?_, ?_⟩, ?_⟩
  · decide +kernel
  · decide +kernel
  · decide +kernel
  · decide +kernel
  · decide +kernel
  · decide +kernel
  · unfold Untouched
    decide +kernel

theorem found_and_read_three :
    (threeFilesDisk.finddirFs .root [0x61] = some (.file 0) ∧
      threeFilesDisk.readFs (.file 0) 0 2 = ([0x68, 0x69], 2)) ∧
    threeFilesDisk.finddirFs .root [0x62] = some (.file 1) ∧
      threeFilesDisk.readFs (.file 1) 0 1 = ([0x78], 1) := by
  obtain ⟨hn, ⟨hname0, hname1, -⟩, ⟨hlen0, hlen1, -⟩, hbytes0, hbytes1, -⟩ := threeFiles_headers
  have hall := (@found_and_read_iff 0x1000 threeFiles zeroNode zeroNode (fun _ => zeroNode)
    threeFiles_named.1).mpr ⟨fun _ _ => rfl, threeFiles_named.2⟩
  rw [hn] at hall
  have h0 := hall 0 (by decide)
  have h1 := hall 1 (by decide)
  rw [hname0, hbytes0, hlen0] at h0
  rw [hname1, hbytes1, hlen1] at h1
  exact ⟨h0, h1⟩

end OsImplement.Fs
