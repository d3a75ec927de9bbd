import OsImplement.Fs.Lookup

/-!
Reading a part of a file (`initrd_read`).

What is asked for is cut to what the file has left, and the cut is decided by a sum of two numbers
of the caller. When the sum goes past the top of the words it comes out small, no cut is made, and
the copy runs over the end of the file.
-/

namespace OsImplement.Fs

open Lib.Word Lib.Bytes

namespace Initrd

/-- `initrd_read` with its buffer: the value returned, and the state with the bytes copied. -/
def initrdReadInto (ptr : NodePtr) (offset size buffer : ℕ) (s : Initrd) : ℕ × Initrd :=
  let count := (s.initrdRead ptr offset size).2
  let address := add32 (headerOffset s.initrdHeader (s.node ptr).inode s.mem) offset
  (count, { s with mem := copy s.mem buffer address count })

section Read

variable {s : Initrd} {ptr : NodePtr} {offset size buffer : ℕ}

/-- The length in the header of the file. -/
def fileLength (s : Initrd) (ptr : NodePtr) : ℕ :=
  headerLength s.initrdHeader (s.node ptr).inode s.mem

/-- Byte `i` of the file. -/
def fileByte (s : Initrd) (ptr : NodePtr) (i : ℕ) : UInt8 :=
  read8 s.mem (headerOffset s.initrdHeader (s.node ptr).inode s.mem + i)

/-- How much of `size` bytes from `offset` on the file has. -/
def available (s : Initrd) (ptr : NodePtr) (offset size : ℕ) : ℕ :=
  min size (s.fileLength ptr - offset)

/-- A read does what it should: the bytes that are read are those of the file and no others, their
number is returned, and they are all that is written to the buffer. -/
structure ReadExact (s : Initrd) (ptr : NodePtr) (offset size buffer : ℕ) : Prop where
  bytes : s.initrdRead ptr offset size =
    ((List.range (s.available ptr offset size)).map fun k => s.fileByte ptr (offset + k),
      s.available ptr offset size)
  returned : (s.initrdReadInto ptr offset size buffer).1 = s.available ptr offset size
  copied : ∀ k < s.available ptr offset size,
    read8 (s.initrdReadInto ptr offset size buffer).2.mem (buffer + k) =
      s.fileByte ptr (offset + k)
  kept : Writes s.mem (s.initrdReadInto ptr offset size buffer).2.mem
    {x | ∃ k < s.available ptr offset size, x = (buffer + k) % 2 ^ 32}

/-- The buffer and what is to be read lie apart. -/
def Apart (s : Initrd) (ptr : NodePtr) (offset size buffer : ℕ) : Prop :=
  ∀ i < s.available ptr offset size, ∀ j < s.available ptr offset size,
    (buffer + i) % 2 ^ 32 ≠
      (headerOffset s.initrdHeader (s.node ptr).inode s.mem + offset + j) % 2 ^ 32

/-! ### The cut -/

lemma initrdRead_fst : (s.initrdRead ptr offset size).1 =
    (List.range (s.initrdRead ptr offset size).2).map fun k => s.fileByte ptr (offset + k) := by
  unfold initrdRead
  simp only
  split
  · rfl
  · refine List.map_congr_left fun k _ => ?_
    unfold fileByte read8 add32
    congr 1
    omega

/-- **The cut is right exactly when the sum is**, or when it is not looked at. -/
lemma initrdRead_snd_iff (hsize : size < 2 ^ 32) :
    (s.initrdRead ptr offset size).2 = s.available ptr offset size ↔
      s.fileLength ptr < offset ∨ offset + size < 2 ^ 32 := by
  have hlength : s.fileLength ptr < 2 ^ 32 := read32_lt _ _
  have hread : (s.initrdRead ptr offset size).2 =
      if s.fileLength ptr < offset then 0
      else if s.fileLength ptr < add32 offset size then sub32 (s.fileLength ptr) offset
      else size := by
    unfold initrdRead fileLength
    simp only
    split
    · rfl
    · rfl
  rw [hread]
  unfold available
  by_cases hpast : s.fileLength ptr < offset
  · rw [if_pos hpast, Nat.sub_eq_zero_of_le hpast.le, Nat.min_zero]
    exact iff_of_true rfl (Or.inl hpast)
  · rw [if_neg hpast, or_iff_right hpast, sub32_eq (by omega) hlength]
    by_cases hsum : offset + size < 2 ^ 32
    · rw [add32_eq hsum]
      refine iff_of_true ?_ hsum
      split <;> omega
    · -- the sum wraps below `offset`, so that nothing is cut
      have hwrap : add32 offset size < offset := by
        unfold add32
        omega
      rw [if_neg (by omega)]
      exact iff_of_false (by omega) hsum

/-! ### The read -/

lemma readExact_of_snd (hapart : s.Apart ptr offset size buffer) (hsize : size < 2 ^ 32)
    (hcount : (s.initrdRead ptr offset size).2 = s.available ptr offset size) :
    s.ReadExact ptr offset size buffer := by
  have hle : s.available ptr offset size ≤ size := Nat.min_le_left _ _
  refine ⟨Prod.ext ?_ hcount, hcount, ?_, ?_⟩
  · rw [initrdRead_fst, hcount]
  · intro k hk
    unfold initrdReadInto
    simp only [hcount]
    rw [copy_eq (by omega) ?_ k hk]
    · unfold fileByte read8 add32
      congr 1
      omega
    · intro i hi j hj
      unfold add32
      rw [Nat.mod_add_mod]
      exact hapart i hi j hj
  · unfold initrdReadInto
    simp only [hcount]
    exact copy_writes _ _ _ _

/-- **`initrd_read`** reads what it should exactly when the offset lies behind the end of the file,
or the offset and the size have a sum below `2 ^ 32`. -/
theorem readExact_iff (hsize : size < 2 ^ 32) (hapart : s.Apart ptr offset size buffer) :
    s.ReadExact ptr offset size buffer ↔ s.fileLength ptr < offset ∨ offset + size < 2 ^ 32 := by
  rw [← initrdRead_snd_iff hsize]
  constructor
  · intro h
    exact h.returned
  · intro hcount
    exact readExact_of_snd hapart hsize hcount

end Read

/-- The disk with one file of ten bytes, at `0x1000`. -/
def tenBytesDisk : Initrd :=
  initialiseInitrd 0x1000 (write32 oneFile (fileHeader 0x1000 0 + 72) 10) zeroNode zeroNode
    fun _ => zeroNode

lemma fileLength_tenBytesDisk : tenBytesDisk.fileLength (.file 0) = 10 := by decide +kernel

lemma apart_tenBytesDisk (offset size : ℕ) :
    tenBytesDisk.Apart (.file 0) offset size 0x100000 := by
  have hoffset : headerOffset tenBytesDisk.initrdHeader (tenBytesDisk.node (.file 0)).inode
      tenBytesDisk.mem = 0x1000 := by decide +kernel
  intro i hi j hj
  unfold available at hi hj
  rw [fileLength_tenBytesDisk] at hi hj
  rw [hoffset]
  omega

/-- From byte 5 on, `2 ^ 32 - 2` bytes are asked for: the sum is 3, and all of them are copied. -/
theorem readExact_fails : tenBytesDisk.Apart (.file 0) 5 0xFFFFFFFE 0x100000 ∧
    ¬ tenBytesDisk.ReadExact (.file 0) 5 0xFFFFFFFE 0x100000 := by
  refine ⟨apart_tenBytesDisk 5 0xFFFFFFFE, fun h => ?_⟩
  have hsum := (initrdRead_snd_iff (by decide)).mp h.returned
  rw [fileLength_tenBytesDisk] at hsum
  omega

theorem readExact_three : tenBytesDisk.ReadExact (.file 0) 5 3 0x100000 :=
  (readExact_iff (by decide) (apart_tenBytesDisk 5 3)).mpr (Or.inr (by decide))

end Initrd

end OsImplement.Fs
