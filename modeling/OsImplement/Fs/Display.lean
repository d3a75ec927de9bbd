import OsImplement.Fs.Listing
import OsImplement.Monitor.Printf

/-!
The lists of files (`print_all_file` and `print_all_file_content` of `fs.c`).

Both ask `readdir_fs` for one entry after another until there is none. What they print follows the
list of files through every run of `open_fs` and `close_fs`, and right after `initialise_initrd` it
is the image: the names, and the first 256 bytes of each file.
-/

namespace OsImplement.Fs

open Lib.Word Lib.Bytes Lib.Step Monitor

/-! ### The code -/

/-- `printf("find file:%s\n", node->name)` -/
def fileLine (name : List UInt8) : List UInt8 := printf "find file:%s\n" [.str name]

namespace Initrd

/-- The loop of `print_all_file`, with what has been printed. -/
def printAllFile (s : Initrd) : ℕ → ℕ → Dirent → List UInt8 → Option (List UInt8)
  | 0, _, _, _ => none
  | fuel + 1, i, dirent, out =>
    match s.readdirFs .root i dirent with
    | none => some out
    | some e => printAllFile s fuel (add32 i 1) e (out ++ fileLine e.string)

/-- What `print_all_file_content` prints behind the line of an entry; `none` follows a pointer that
is NULL. -/
def content (s : Initrd) (name : List UInt8) : Option (List UInt8) :=
  (s.finddirFs .root name).map fun p =>
    if (s.node p).flags &&& 0x7 = FS_DIRECTORY then printf "(directory)\n" []
    else
      let (buf, _) := s.readFs p 0 256
      printf "contents:\"\n" [] ++ buf.flatMap (fun c => printf "%c" [.word c.toNat]) ++
        printf "\"\n" []

/-- The loop of `print_all_file_content` -/
def printAllFileContent (s : Initrd) : ℕ → ℕ → Dirent → List UInt8 → Option (List UInt8)
  | 0, _, _, _ => none
  | fuel + 1, i, dirent, out =>
    match s.readdirFs .root i dirent with
    | none => some out
    | some e =>
      match s.content e.string with
      | none => none
      | some text => printAllFileContent s fuel (add32 i 1) e (out ++ fileLine e.string ++ text)

end Initrd

/-! ### The entries -/

/-- The name that an entry shows: a name that fills its field goes on into the inode. -/
def File.listed (f : File) : List UInt8 :=
  if f.name.length < NAME_SIZE then f.name
  else f.name ++ cstr ((List.range 4).map (byteOf f.inode))

/-- The root over a table of `n` nodes. -/
structure Rooted (s : Initrd) (n : ℕ) : Prop where
  root : ∃ node, s.initrdRoot = directoryNode Initrd.initrdName node
  live : s.nrootNodes = n
  int : n < 2 ^ 31
  mask : ∀ i < n, (s.rootNodes i).mask = 0

section Entries

variable {s : Initrd} {n i k : ℕ} {dirent : Dirent} {node : FsNode}

lemma string_direntOf_listed (hm : node.mask = 0) (dirent : Dirent) :
    (Initrd.direntOf node dirent).string = node.file.listed := by
  by_cases hne : node.string = []
  · have hlisted : node.file.listed = [] := by
      unfold File.listed
      rw [name_file, hne]
      exact if_pos (by decide)
    have hstring : (cstr node.nameBytes).length = 0 := by
      rw [show cstr node.nameBytes = [] from hne]
      rfl
    rw [hlisted]
    unfold Dirent.string Initrd.direntOf
    rw [hstring, NAME_SIZE, List.range_succ_eq_map, List.map_cons]
    simp only [Function.update_self, List.cons_append, cstr_zero_cons]
  · exact string_direntOf hm hne dirent

lemma Rooted.readdirFs_zero (h : Rooted s n) (dirent : Dirent) :
    ∃ e, s.readdirFs .root 0 dirent = some e ∧ e.string = [0x64, 0x65, 0x76] := by
  have hs : Spells [0x64, 0x65, 0x76] := ⟨List.cons_ne_nil _ _, by simp⟩
  have hstring := string_dirent hs (by decide) [] dirent.name 0
  rw [if_pos (by decide)] at hstring
  obtain ⟨root, hroot⟩ := h.root
  unfold Initrd.readdirFs
  rw [show s.node .root = directoryNode Initrd.initrdName root from hroot,
    if_pos ⟨(by decide : FS_DIRECTORY &&& 0x7 = FS_DIRECTORY), rfl⟩]
  exact ⟨_, if_pos ⟨rfl, rfl⟩, hstring⟩

lemma Rooted.readdirFs_succ (h : Rooted s n) (hi : i ≤ n) (dirent : Dirent) :
    s.readdirFs .root (i + 1) dirent =
      if i < n then some (Initrd.direntOf (s.rootNodes i) dirent) else none := by
  have hint := h.int
  have hindex : sub32 (i + 1) 1 = i := by
    rw [sub32_eq (by omega) (by omega)]
    rfl
  have hcount : (s.nrootNodes % 2 ^ 32).toNat = n := by
    rw [h.live]
    omega
  obtain ⟨root, hroot⟩ := h.root
  unfold Initrd.readdirFs
  rw [show s.node .root = directoryNode Initrd.initrdName root from hroot,
    if_pos ⟨(by decide : FS_DIRECTORY &&& 0x7 = FS_DIRECTORY), rfl⟩]
  unfold Initrd.initrdReaddir
  rw [if_neg fun hc => absurd hc.2 (by omega), hcount, hindex]
  by_cases hin : i < n
  · rw [if_neg (by omega), if_pos hin]
  · rw [if_pos (by omega), if_neg hin]

/-! ### The loops -/

lemma Rooted.printAllFile_files (h : Rooted s n) (hik : i + k = n) (dirent : Dirent)
    (out : List UInt8) : ∀ fuel > k, s.printAllFile fuel (i + 1) dirent out =
      some (out ++ (List.range' i k).flatMap fun j => fileLine (s.rootNodes j).file.listed) := by
  have hint := h.int
  induction k generalizing i dirent out with
  | zero =>
    intro fuel hfuel
    obtain ⟨fuel, rfl⟩ : ∃ f, fuel = f + 1 := ⟨fuel - 1, by omega⟩
    rw [Initrd.printAllFile, h.readdirFs_succ (by omega), if_neg (by omega)]
    simp
  | succ k ih =>
    intro fuel hfuel
    obtain ⟨fuel, rfl⟩ : ∃ f, fuel = f + 1 := ⟨fuel - 1, by omega⟩
    rw [Initrd.printAllFile, h.readdirFs_succ (by omega), if_pos (by omega)]
    simp only
    rw [add32_eq (by omega), ih (by omega) _ _ fuel (by omega),
      string_direntOf_listed (h.mask i (by omega)), List.range'_succ, List.flatMap_cons,
      List.append_assoc]

/-- **`print_all_file`** prints a line for `dev`, and one for each node of the table. -/
lemma Rooted.printAllFile (h : Rooted s n) (dirent : Dirent) : ∀ fuel > n + 1,
    s.printAllFile fuel 0 dirent [] = some (fileLine [0x64, 0x65, 0x76] ++
      s.files.flatMap fun f => fileLine f.listed) := by
  intro fuel hfuel
  obtain ⟨fuel, rfl⟩ : ∃ f, fuel = f + 1 := ⟨fuel - 1, by omega⟩
  obtain ⟨e, he, hstring⟩ := h.readdirFs_zero dirent
  have hfiles : s.files = (List.range' 0 n).map fun i => (s.rootNodes i).file := by
    unfold Initrd.files
    rw [h.live, Int.toNat_natCast, List.range_eq_range']
  rw [Initrd.printAllFile, he]
  simp only
  rw [show add32 0 1 = 0 + 1 from rfl, h.printAllFile_files (k := n) (by omega) _ _ fuel (by omega),
    hstring, hfiles, List.flatMap_map]
  rfl

end Entries

/-! ### Runs -/

namespace Sides

variable {p : Sides} {s : Initrd} {n : ℕ} {op : FileOp} {loc : ℕ} {m : Mem} {root dev : FsNode}
  {table : ℕ → FsNode} {ops : List FileOp}

lemma initrdRoot_openFs (s : Initrd) (name : List UInt8) :
    (s.openFs .root name).2.initrdRoot = s.initrdRoot := by
  unfold Initrd.openFs
  split <;> rfl

lemma initrdRoot_closeFs {s' : Initrd} {name : List UInt8} (h : s.closeFs .root name = some s') :
    s'.initrdRoot = s.initrdRoot := by
  unfold Initrd.closeFs at h
  split at h
  · unfold Initrd.initrdClose at h
    simp only at h
    split at h
    · simp at h
    · rw [← Option.some.inj h]
  · rw [← Option.some.inj h]

/-- A call with a name, that fits. -/
def Good (p : Sides) (op : FileOp) : Prop := p.Named op ∧ p.Fits op

/-- The two sides of a run that has gone well, with the root that was built at the start. -/
def Lists (p : Sides) : Prop :=
  ∃ s n, p.Agree s n ∧ ∃ node, s.initrdRoot = directoryNode Initrd.initrdName node

lemma Lists.step (h : p.Lists) (hop : p.Good op) : (p.step op).Lists := by
  obtain ⟨s, n, hp, hroot⟩ := h
  obtain ⟨hnamed, hfits⟩ := hop
  cases op with
  | opn name =>
    obtain ⟨s', hs'⟩ := (hp.opn hnamed.1 hnamed.2).1 hfits
    have hcode : (p.step (.opn name)).1 = some (s.openFs .root name).2 := by
      unfold Sides.step
      rw [hp.code]
      rfl
    obtain rfl := Option.some.inj (hcode.symm.trans hs'.code)
    refine ⟨_, n + 1, hs', ?_⟩
    rw [initrdRoot_openFs]
    exact hroot
  | close name =>
    obtain ⟨s', n', hs'⟩ := (hp.close hnamed.1).1 hfits
    have hcode : s.closeFs .root name = some s' := by
      have hcode := hs'.code
      unfold Sides.step at hcode
      simpa only [hp.code, Option.bind_some] using hcode
    refine ⟨s', n', hs', ?_⟩
    rw [initrdRoot_closeFs hcode]
    exact hroot

lemma Agree.rooted (h : p.Agree s n) (hroot : ∃ node, s.initrdRoot =
    directoryNode Initrd.initrdName node) : Rooted s n := by
  have hcap := h.capacity
  have hle := h.le
  exact ⟨hroot, h.ready.live, by omega, h.ready.mask⟩

/-- **What is listed is the list of files.** From any image, after every run of `open_fs` and
`close_fs` whose calls fit, `print_all_file` ends and prints one line for `dev` and one for each
file of the abstract list, in its order: those of the image that were not closed, and behind them
those that were opened. -/
theorem printAllFile_of_run (h : Image loc m)
    (hops : Guarded step Good (start (Initrd.initialiseInitrd loc m root dev table)) ops) :
    let p := ops.foldl step (start (Initrd.initialiseInitrd loc m root dev table))
    ∃ s, p.1 = some s ∧ ∀ dirent, ∀ fuel > p.2.length + 1,
      s.printAllFile fuel 0 dirent [] =
        some (fileLine [0x64, 0x65, 0x76] ++ p.2.flatMap fun f => fileLine f.listed) := by
  intro p
  have hstart : (start (Initrd.initialiseInitrd loc m root dev table)).Lists :=
    ⟨_, _, agree_start h, root, (@initialised loc m root dev table h).initrdRoot⟩
  obtain ⟨s, n, hp, hroot⟩ := Guarded.inv (fun _ _ hl hop => Lists.step hl hop) hstart hops
  refine ⟨s, hp.code, fun dirent fuel hfuel => ?_⟩
  have hlen : p.2.length = n := hp.length
  have hprint := (hp.rooted hroot).printAllFile dirent fuel (by omega)
  rw [hprint, hp.files]

theorem printAllFile_of_run_close : ∃ s, (start oneFileDisk).step (.close [0x61]) = (some s, []) ∧
    s.printAllFile 2 0 ⟨fun _ => 0, 0⟩ [] = some (fileLine [0x64, 0x65, 0x76]) := by
  have ha : Spells [0x61] := ⟨List.cons_ne_nil _ _, List.forall_mem_singleton.mpr (by decide)⟩
  have hgood : Guarded step Good (start oneFileDisk) [.close [0x61]] := by
    refine ⟨⟨⟨ha, by decide⟩, oneFileDisk, rfl, 0, ?_, ?_⟩, trivial⟩
    · decide +kernel
    · decide +kernel
  have hlist : ((start oneFileDisk).step (.close [0x61])).2 = [] := by decide +kernel
  obtain ⟨s, hs, hprint⟩ := printAllFile_of_run image_oneFile hgood
  change ∀ dirent, ∀ fuel > ((start oneFileDisk).step (.close [0x61])).2.length + 1,
    s.printAllFile fuel 0 dirent [] = some (fileLine [0x64, 0x65, 0x76] ++
      ((start oneFileDisk).step (.close [0x61])).2.flatMap fun f => fileLine f.listed) at hprint
  rw [hlist] at hprint
  exact ⟨s, Prod.ext hs hlist, hprint ⟨fun _ => 0, 0⟩ 2 (by decide)⟩

end Sides

/-! ### The contents -/

/-- What `print_all_file_content` prints for a file. -/
def contentLines (name bytes : List UInt8) : List UInt8 :=
  fileLine name ++ (printf "contents:\"\n" [] ++ bytes ++ printf "\"\n" [])

/-- An image whose names are copied into clean memory, and whose files begin outside of the fields
that `initialise_initrd` writes. -/
structure CleanImage (loc : ℕ) (m : Mem) (nodes : ℕ → FsNode) : Prop extends NamedImage loc m where
  nul : ∀ i < nfiles loc m, (nodes i).name (fileName loc i m).length = 0
  untouched : ∀ i < nfiles loc m, ∀ k < min 256 (headerLength loc i m),
    Untouched loc m ((loc + headerOffset loc i m + k) % 2 ^ 32)

section Contents

variable {loc i k : ℕ} {m : Mem} {root dev : FsNode} {table : ℕ → FsNode} {s : Initrd}

lemma CleanImage.string (h : CleanImage loc m table)
    (hs : Initialised loc m root dev table (nfiles loc m) s) (hi : i < nfiles loc m) :
    (s.rootNodes i).string = fileName loc i m :=
  (hs.string_iff h.toNamedImage hi).mpr (h.nul i hi)

lemma CleanImage.fileTable (h : CleanImage loc m table)
    (hs : Initialised loc m root dev table (nfiles loc m) s) : FileTable s (nfiles loc m) := by
  have htable := h.table
  refine ⟨⟨root, hs.initrdRoot⟩, ⟨dev, hs.initrdDev⟩, hs.nrootNodes, by omega, ?_, ?_, ?_, ?_⟩
  · intro i hi
    rw [hs.file i hi]
    rfl
  · intro i hi
    rw [h.string hs hi]
    exact h.nonempty i hi
  · intro i hi j hj heq
    rw [h.string hs hi, h.string hs hj] at heq
    exact h.distinct i hi j hj heq
  · intro i hi
    rw [h.string hs hi]
    exact h.notDev i hi

lemma CleanImage.listed (h : CleanImage loc m table)
    (hs : Initialised loc m root dev table (nfiles loc m) s) (hi : i < nfiles loc m) :
    (s.rootNodes i).file.listed = fileName loc i m := by
  have hlen := length_fileName h.toNamedImage hi
  unfold File.listed
  rw [name_file, h.string hs hi, if_pos hlen]

/-- **The buffer** of `print_all_file_content`: the first 256 bytes of the file, as the image has
them. -/
lemma CleanImage.readFs (h : CleanImage loc m table)
    (hs : Initialised loc m root dev table (nfiles loc m) s) (hi : i < nfiles loc m) :
    (s.readFs (.file i) 0 256).1 = (fileBytes loc i m).take 256 := by
  have htop := h.top
  have hnode : s.node (.file i) =
      fileNode (headerName loc i m) (headerLength loc i m) i (table i) := hs.file i hi
  have hinode : (s.node (.file i)).inode = i := by
    rw [hnode]
    rfl
  have hlength : s.fileLength (.file i) = headerLength loc i m := by
    unfold Initrd.fileLength
    rw [hinode, hs.initrdHeader]
    exact headerLength_congr hs.writes (by omega)
  have hcount : (s.initrdRead (.file i) 0 256).2 = min 256 (headerLength loc i m) := by
    rw [(Initrd.initrdRead_snd_iff (by decide)).mpr (.inr (by decide)), Initrd.available, hlength,
      Nat.sub_zero]
  have hbyte (m' : Mem) (x : ℕ) : read8 m' x = read8 m' (x % 2 ^ 32) := by
    unfold read8
    rw [Nat.mod_mod]
  unfold Initrd.readFs
  rw [if_pos (by rw [hnode]; rfl), Initrd.initrdRead_fst, hcount]
  unfold fileBytes
  rw [← List.map_take, List.take_range]
  refine List.map_congr_left fun k hk => ?_
  have hk := List.mem_range.mp hk
  unfold Initrd.fileByte
  rw [hinode, hs.initrdHeader, hs.relocated i hi, Nat.zero_add, hbyte s.mem, hbyte m]
  have hsum : (add32 (headerOffset loc i m) loc + k) % 2 ^ 32 =
      (loc + headerOffset loc i m + k) % 2 ^ 32 := by
    unfold add32
    omega
  rw [hsum]
  exact (hs.read8_iff h.toImage (Nat.mod_lt _ (by decide))).mpr (h.untouched i hi k hk)

lemma flatMap_char (bytes : List UInt8) :
    bytes.flatMap (fun c => printf "%c" [.word c.toNat]) = bytes := by
  simp only [printf_char, List.flatMap_singleton']

lemma CleanImage.content (h : CleanImage loc m table)
    (hs : Initialised loc m root dev table (nfiles loc m) s) (hi : i < nfiles loc m) :
    fileLine (fileName loc i m) ++ (s.content (fileName loc i m)).getD [] =
        contentLines (fileName loc i m) ((fileBytes loc i m).take 256) ∧
      s.content (fileName loc i m) ≠ none := by
  have hfind : s.finddirFs .root (fileName loc i m) = some (.file i) :=
    ((h.fileTable hs).finddirFs_iff (.inl rfl) cstr_ne_zero).mpr
      (.inr ⟨i, hi, h.string hs hi, rfl⟩)
  have hflags : (s.node (.file i)).flags &&& 0x7 ≠ FS_DIRECTORY := by
    rw [show s.node (.file i) = _ from hs.file i hi]
    exact (by decide : FS_FILE &&& 0x7 ≠ FS_DIRECTORY)
  unfold Initrd.content
  rw [hfind, Option.map_some, if_neg hflags]
  refine ⟨?_, Option.some_ne_none _⟩
  rw [Option.getD_some]
  simp only
  rw [flatMap_char, h.readFs hs hi]
  rfl

lemma content_dev (h : CleanImage loc m table)
    (hs : Initialised loc m root dev table (nfiles loc m) s) :
    s.content [0x64, 0x65, 0x76] = some (printf "(directory)\n" []) := by
  have hfind : s.finddirFs .root [0x64, 0x65, 0x76] = some .dev :=
    ((h.fileTable hs).finddirFs_iff (.inl rfl) (by simp)).mpr (.inl ⟨rfl, rfl, rfl⟩)
  unfold Initrd.content
  rw [hfind, Option.map_some, if_pos]
  rw [show s.node .dev = _ from hs.initrdDev]
  exact (by decide : FS_DIRECTORY &&& 0x7 = FS_DIRECTORY)

lemma CleanImage.rooted (h : CleanImage loc m table)
    (hs : Initialised loc m root dev table (nfiles loc m) s) : Rooted s (nfiles loc m) :=
  ⟨(h.fileTable hs).root, (h.fileTable hs).live, (h.fileTable hs).int, (h.fileTable hs).mask⟩

lemma CleanImage.printAllFileContent_files (h : CleanImage loc m table)
    (hs : Initialised loc m root dev table (nfiles loc m) s) (hik : i + k = nfiles loc m)
    (dirent : Dirent) (out : List UInt8) : ∀ fuel > k,
      s.printAllFileContent fuel (i + 1) dirent out = some (out ++ (List.range' i k).flatMap fun j =>
        contentLines (fileName loc j m) ((fileBytes loc j m).take 256)) := by
  have hroot := h.rooted hs
  have hint := hroot.int
  induction k generalizing i dirent out with
  | zero =>
    intro fuel hfuel
    obtain ⟨fuel, rfl⟩ : ∃ f, fuel = f + 1 := ⟨fuel - 1, by omega⟩
    rw [Initrd.printAllFileContent, hroot.readdirFs_succ (by omega), if_neg (by omega)]
    simp
  | succ k ih =>
    intro fuel hfuel
    obtain ⟨fuel, rfl⟩ : ∃ f, fuel = f + 1 := ⟨fuel - 1, by omega⟩
    have hi : i < nfiles loc m := by omega
    obtain ⟨htext, hsome⟩ := h.content hs hi
    obtain ⟨text, htext'⟩ := Option.ne_none_iff_exists'.mp hsome
    rw [htext', Option.getD_some] at htext
    rw [Initrd.printAllFileContent, hroot.readdirFs_succ (by omega), if_pos hi]
    simp only
    rw [string_direntOf_listed (hroot.mask i hi), h.listed hs hi, htext', add32_eq (by omega)]
    simp only
    rw [ih (by omega) _ _ fuel (by omega), List.range'_succ, List.flatMap_cons, ← htext]
    simp only [List.append_assoc]

/-- **From the image to the screen.** Right after `initialise_initrd`, `print_all_file_content` ends
and prints `dev` as a directory, and for each file of the image, in the order of its headers, its
name and its first 256 bytes, as the image has them. -/
theorem printAllFileContent_image (h : CleanImage loc m table) (dirent : Dirent) :
    ∀ fuel > nfiles loc m + 1,
      (Initrd.initialiseInitrd loc m root dev table).printAllFileContent fuel 0 dirent [] =
        some (fileLine [0x64, 0x65, 0x76] ++ printf "(directory)\n" [] ++
          (List.range (nfiles loc m)).flatMap fun i =>
            contentLines (fileName loc i m) ((fileBytes loc i m).take 256)) := by
  have hs := @initialised loc m root dev table h.toImage
  intro fuel hfuel
  obtain ⟨fuel, rfl⟩ : ∃ f, fuel = f + 1 := ⟨fuel - 1, by omega⟩
  obtain ⟨e, he, hstring⟩ := (h.rooted hs).readdirFs_zero dirent
  rw [Initrd.printAllFileContent, he]
  simp only
  rw [hstring, content_dev h hs]
  simp only
  rw [show add32 0 1 = 0 + 1 from rfl,
    h.printAllFileContent_files hs (k := nfiles loc m) (by omega) _ _ fuel (by omega),
    List.range_eq_range']
  rfl

theorem printAllFileContent_image_three :
    threeFilesDisk.printAllFileContent 5 0 ⟨fun _ => 0, 0⟩ [] =
      some (fileLine [0x64, 0x65, 0x76] ++ printf "(directory)\n" [] ++
        (contentLines [0x61] [0x68, 0x69] ++ (contentLines [0x62] [0x78] ++
          contentLines [0x63] []))) := by
  have hclean : CleanImage 0x1000 threeFiles fun _ => zeroNode :=
    ⟨threeFiles_named.1, fun i _ => rfl, fun i hi k hk => threeFiles_named.2 i hi k (by omega)⟩
  have hprint := @printAllFileContent_image 0x1000 threeFiles zeroNode zeroNode _ hclean
    ⟨fun _ => 0, 0⟩ 5 (by rw [threeFiles_headers.1]; decide)
  obtain ⟨hn, ⟨hname0, hname1, hname2⟩, -, hbytes0, hbytes1, hbytes2⟩ := threeFiles_headers
  rw [hn, show List.range 3 = [0, 1, 2] from rfl] at hprint
  simp only [List.flatMap_cons, List.flatMap_nil, List.append_nil, hname0, hname1, hname2, hbytes0,
    hbytes1, hbytes2] at hprint
  exact hprint

end Contents

end OsImplement.Fs
