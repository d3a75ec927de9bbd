import OsImplement.Fs.Strings
import OsImplement.Lib.Bytes
import OsImplement.Lib.Loop

/-!
The initial ram disk (`initrd.c`) and the file system layer over it (`fs.c`).

The image stays in memory where it was loaded: a word with the number of files, and one header of
76 bytes for each of them. The nodes are structures in a block of the heap, which is not part of the
bytes of `mem`; its contents before the first write are arbitrary.
-/

namespace OsImplement.Fs

open Lib.Word Lib.Bytes

/-! ### Nodes -/

/-- What a function pointer of a node may be. -/
inductive Handler where
  | null
  | initrdRead
  | initrdOpen
  | initrdClose
  | initrdReaddir
  | initrdFinddir
  | other (address : ℕ)
  deriving DecidableEq

def FS_FILE : ℕ := 0x01

def FS_DIRECTORY : ℕ := 0x02

/-- The bytes of a name field. -/
def NAME_SIZE : ℕ := 128

/-- `fs_node_t` -/
structure FsNode where
  name : ℕ → UInt8
  mask : ℕ
  uid : ℕ
  gid : ℕ
  flags : ℕ
  inode : ℕ
  length : ℕ
  impl : ℕ
  read : Handler
  write : Handler
  opn : Handler
  close : Handler
  readdir : Handler
  finddir : Handler
  ptr : ℕ

/-- The bytes from the name on; behind it stands the mask, with its low byte first. -/
def FsNode.nameBytes (node : FsNode) : List UInt8 :=
  (List.range NAME_SIZE).map node.name ++ [UInt8.ofNat node.mask]

/-- The name as a string. -/
def FsNode.string (node : FsNode) : List UInt8 := cstr node.nameBytes

/-! ### The globals -/

/-- The globals of `initrd.c`, with the memory that holds the image. -/
structure Initrd where
  mem : Mem
  initrdHeader : ℕ
  initrdRoot : FsNode
  initrdDev : FsNode
  rootNodes : ℕ → FsNode
  nrootNodes : ℤ
  /-- How many nodes the block behind `root_nodes` was allocated for. -/
  capacity : ℕ

/-- `initrd_header->nfiles` -/
def nfiles (loc : ℕ) (m : Mem) : ℕ := read32 m loc

/-- A `uint32` as an `int`. -/
def toInt (x : ℕ) : ℤ := if x < 2 ^ 31 then x else (x : ℤ) - 2 ^ 32

/-- `&file_headers[i]`, in the image at `loc`. -/
def fileHeader (loc i : ℕ) : ℕ := loc + 4 + 76 * i

/-- The bytes of the name field of a header. -/
def headerName (loc i : ℕ) (m : Mem) : List UInt8 :=
  (List.range 64).map fun k => read8 m (fileHeader loc i + 1 + k)

def headerOffset (loc i : ℕ) (m : Mem) : ℕ := read32 m (fileHeader loc i + 68)

def headerLength (loc i : ℕ) (m : Mem) : ℕ := read32 m (fileHeader loc i + 72)

/-- A node of the heap as a file: the assignments that `initrd_open` and `initialise_initrd`
share. `ptr` is not assigned. -/
def fileNode (src : List UInt8) (length inode : ℕ) (node : FsNode) : FsNode :=
  { node with
    name := strcpy src node.name
    mask := 0
    uid := 0
    gid := 0
    length := length
    inode := inode
    flags := FS_FILE
    read := .initrdRead
    write := .null
    readdir := .null
    finddir := .null
    opn := .null
    close := .null
    impl := 0 }

/-- A node of the heap as one of the two directories. -/
def directoryNode (src : List UInt8) (node : FsNode) : FsNode :=
  { node with
    name := strcpy src node.name
    mask := 0
    uid := 0
    gid := 0
    inode := 0
    length := 0
    flags := FS_DIRECTORY
    read := .null
    write := .null
    opn := .initrdOpen
    close := .initrdClose
    readdir := .initrdReaddir
    finddir := .initrdFinddir
    ptr := 0
    impl := 0 }

namespace Initrd

/-- The loop of `initialise_initrd`: the offset becomes an address, and the node is filled. -/
def initFile (s : Initrd) (i : ℕ) : Initrd :=
  let offset := fileHeader s.initrdHeader i + 68
  let m := write32 s.mem offset (add32 (headerOffset s.initrdHeader i s.mem) s.initrdHeader)
  { s with
    mem := m
    rootNodes := Function.update s.rootNodes i
      (fileNode (headerName s.initrdHeader i m) (headerLength s.initrdHeader i m) i
        (s.rootNodes i)) }

/-- `"initrd"` and `"dev"`, with their NUL. -/
def initrdName : List UInt8 := [0x69, 0x6E, 0x69, 0x74, 0x72, 0x64, 0]

def devName : List UInt8 := [0x64, 0x65, 0x76, 0]

/-- `initialise_initrd`, with the previous contents of the blocks that `_malloc_s` returns. -/
def initialiseInitrd (loc : ℕ) (m : Mem) (root dev : FsNode) (table : ℕ → FsNode) : Initrd :=
  let s : Initrd :=
    { mem := m
      initrdHeader := loc
      initrdRoot := directoryNode initrdName root
      initrdDev := directoryNode devName dev
      rootNodes := table
      nrootNodes := toInt (nfiles loc m)
      capacity := 184 * nfiles loc m % 2 ^ 32 / 184 }
  (List.range s.nrootNodes.toNat).foldl initFile s

/-! ### Lookup and read -/

/-- A pointer to a node. -/
inductive NodePtr where
  | root
  | dev
  | file (i : ℕ)
  deriving DecidableEq

/-- `*node` -/
def node (s : Initrd) : NodePtr → FsNode
  | .root => s.initrdRoot
  | .dev => s.initrdDev
  | .file i => s.rootNodes i

/-- The loops of `initrd_finddir` and `initrd_close`: the first node from `i` on with the name,
with `n` nodes left. -/
def findNode (s : Initrd) (name : List UInt8) : ℕ → ℕ → Option ℕ
  | 0, _ => none
  | n + 1, i =>
    if strcmp (name ++ [0]) (s.rootNodes i).nameBytes = 0 then some i
    else findNode s name n (i + 1)

/-- `initrd_finddir` -/
def initrdFinddir (ptr : NodePtr) (name : List UInt8) (s : Initrd) : Option NodePtr :=
  if ptr = .root ∧ strcmp (name ++ [0]) devName = 0 then some .dev
  else (findNode s name s.nrootNodes.toNat 0).map .file

/-- `initrd_read`: the bytes that are copied into the buffer, and the value returned. -/
def initrdRead (ptr : NodePtr) (offset size : ℕ) (s : Initrd) : List UInt8 × ℕ :=
  let inode := (s.node ptr).inode
  let length := headerLength s.initrdHeader inode s.mem
  if length < offset then ([], 0)
  else
    let size := if length < add32 offset size then sub32 length offset else size
    let address := add32 (headerOffset s.initrdHeader inode s.mem) offset
    ((List.range size).map fun k => read8 s.mem (address + k), size)

/-- `finddir_fs`; a handler that is not NULL is that of `initrd.c`. -/
def finddirFs (ptr : NodePtr) (name : List UInt8) (s : Initrd) : Option NodePtr :=
  if (s.node ptr).flags &&& 0x7 = FS_DIRECTORY ∧ (s.node ptr).finddir = .initrdFinddir then
    s.initrdFinddir ptr name
  else none

/-- `read_fs` -/
def readFs (ptr : NodePtr) (offset size : ℕ) (s : Initrd) : List UInt8 × ℕ :=
  if (s.node ptr).read = .initrdRead then s.initrdRead ptr offset size else ([], 0)

/-! ### `open` and `close` -/

/-- `initrd_open`. The new block is filled and forgotten: `root_nodes` stays where it is. -/
def initrdOpen (name : List UInt8) (s : Initrd) : NodePtr × Initrd :=
  let m := write32 s.mem s.initrdHeader (add32 (nfiles s.initrdHeader s.mem) 1)
  let n := toInt (nfiles s.initrdHeader m)
  let i := (n - 1).toNat
  (.file i,
    { s with
      mem := m
      nrootNodes := n
      rootNodes := Function.update s.rootNodes i
        (fileNode (name ++ [0]) 0 i (s.rootNodes i)) })

/-- The second loop of `initrd_close`. -/
def shiftNodes : ℕ → ℕ → (ℕ → FsNode) → ℕ → FsNode
  | 0, _, nodes => nodes
  | n + 1, i, nodes => shiftNodes n (i + 1) (Function.update nodes i (nodes (i + 1)))

/-- `initrd_close`; `none` is the copy of `184 * (nfiles - 1)` bytes for an empty table, that goes
through all of memory. -/
def initrdClose (name : List UInt8) (s : Initrd) : Option Initrd :=
  let n := s.nrootNodes.toNat
  let i := (findNode s name n 0).getD n
  let nodes := shiftNodes (n - 1 - i) i s.rootNodes
  if nfiles s.initrdHeader s.mem = 0 then none
  else
    let m := write32 s.mem s.initrdHeader (sub32 (nfiles s.initrdHeader s.mem) 1)
    some { s with mem := m, nrootNodes := toInt (nfiles s.initrdHeader m), rootNodes := nodes }

/-- `open_fs`; without a handler it returns nothing. -/
def openFs (ptr : NodePtr) (name : List UInt8) (s : Initrd) : Option NodePtr × Initrd :=
  if (s.node ptr).opn = .initrdOpen then
    let (p, s) := s.initrdOpen name
    (some p, s)
  else (none, s)

/-- `close_fs` -/
def closeFs (ptr : NodePtr) (name : List UInt8) (s : Initrd) : Option Initrd :=
  if (s.node ptr).close = .initrdClose then s.initrdClose name else some s

end Initrd

end OsImplement.Fs
