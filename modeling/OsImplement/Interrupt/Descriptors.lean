import OsImplement.Lib.Loop
import OsImplement.Lib.Word
import OsImplement.Lib.Bytes
import Mathlib.Tactic.IntervalCases

/-!
The descriptor tables (`descriptor_tables.c`, `gdt_w.s`, `idt_w.s`).

Both tables are arrays of entries of eight bytes in memory. What the processor makes of an entry
is `decodeSegment` and `decodeGate`: the fields of an entry are cut into pieces, and lie in another
order than in the structures of the source that name them.
-/

namespace OsImplement.Interrupt

open Lib.Word Lib.Bytes Lib.Loop

/-! ### Bytes in a row -/

/-- The `n` bytes from `a` on. -/
def bytesAt (m : Mem) (a n : ℕ) : List UInt8 := (List.range n).map fun i => read8 m (a + i)

def write16 (m : Mem) (a v : ℕ) : Mem := write8 (write8 m a (byteOf v 0)) (a + 1) (byteOf v 1)

section Bytes

variable {m : Mem} {a k n v : ℕ} {c : UInt8}

@[simp] lemma length_bytesAt : (bytesAt m a n).length = n := by simp [bytesAt]

lemma bytesAt_write8 (hk : k < n) (hn : n ≤ 2 ^ 32) :
    bytesAt (write8 m (a + k) c) a n = (bytesAt m a n).set k c := by
  refine List.ext_getElem (by simp) fun i hi _ => ?_
  have hi : i < n := by simpa using hi
  simp only [bytesAt, List.getElem_map, List.getElem_range, List.getElem_set, read8_write8]
  by_cases hik : k = i
  · rw [if_pos (by rw [hik]), if_pos hik]
  · rw [if_neg (by omega), if_neg hik]

lemma bytesAt_of_writes {m' : Mem} {S : Set ℕ} (h : Writes m m' S)
    (hS : ∀ i < n, (a + i) % 2 ^ 32 ∉ S) : bytesAt m' a n = bytesAt m a n :=
  List.map_congr_left fun i hi => h.read8 (hS i (List.mem_range.mp hi))

/-- The addresses of `n` bytes from `a` on. -/
def span (a n : ℕ) : Set ℕ := {x | ∃ k < n, x = (a + k) % 2 ^ 32}

lemma writes_write8 (hk : k < n) : Writes m (write8 m (a + k) c) (span a n) :=
  Writes.write8 ⟨k, hk, rfl⟩

lemma writes_write16 (hk : k + 1 < n) : Writes m (write16 m (a + k) v) (span a n) := by
  unfold write16
  rw [Nat.add_assoc]
  exact (writes_write8 (by omega)).trans (writes_write8 hk)

lemma bytesAt_write16 (hk : k + 1 < n) (hn : n ≤ 2 ^ 32) :
    bytesAt (write16 m (a + k) v) a n =
      ((bytesAt m a n).set k (byteOf v 0)).set (k + 1) (byteOf v 1) := by
  unfold write16
  rw [Nat.add_assoc, bytesAt_write8 hk hn, bytesAt_write8 (by omega) hn]

lemma bytesAt_write16_start (h1 : 1 < n) (hn : n ≤ 2 ^ 32) :
    bytesAt (write16 m a v) a n = ((bytesAt m a n).set 0 (byteOf v 0)).set 1 (byteOf v 1) :=
  bytesAt_write16 (k := 0) h1 hn

lemma bytesAt_eight (m : Mem) (a : ℕ) : bytesAt m a 8 =
    [read8 m (a + 0), read8 m (a + 1), read8 m (a + 2), read8 m (a + 3), read8 m (a + 4),
      read8 m (a + 5), read8 m (a + 6), read8 m (a + 7)] := rfl

end Bytes

/-! ### The global descriptor table -/

/-- `gdt_set`, in the table at `gdt`. -/
def gdtSet (gdt index base limit : ℕ) (access gran : UInt8) (m : Mem) : Mem :=
  let e := gdt + 8 * index
  let m := write16 m (e + 2) (base &&& 0xFFFF)
  let m := write8 m (e + 4) (UInt8.ofNat ((base >>> 16) &&& 0xFFFF))
  let m := write8 m (e + 7) (UInt8.ofNat ((base >>> 24) &&& 0xFF))
  let m := write16 m e (limit &&& 0xFFFF)
  let m := write8 m (e + 6) (UInt8.ofNat ((limit >>> 16) &&& 0x0F))
  let m := write8 m (e + 6) (read8 m (e + 6) ||| (gran &&& 0xF0))
  write8 m (e + 5) access

/-- `limit` and `base` of `gdt_ptr` and `idt_ptr`, which are alike. -/
def setTablePtr (ptr limit base : ℕ) (m : Mem) : Mem :=
  write32 (write16 m ptr limit) (ptr + 2) base

/-- `gdt_init`, up to `gdt_w`, with the table at `gdt` and `GDT_PTR` at `ptr`. -/
def gdtInit (gdt ptr : ℕ) (m : Mem) : Mem :=
  let m := setTablePtr ptr (8 * 5 - 1) gdt m
  let m := gdtSet gdt 0 0 0 0 0 m
  let m := gdtSet gdt 1 0 0xFFFFFFFF 0x9A 0xCF m
  let m := gdtSet gdt 2 0 0xFFFFFFFF 0x92 0xCF m
  let m := gdtSet gdt 3 0 0xFFFFFFFF 0xFA 0xCF m
  gdtSet gdt 4 0 0xFFFFFFFF 0xF2 0xCF m

/-- A segment, as the processor reads its descriptor. -/
structure Segment where
  base : ℕ
  limit : ℕ
  access : UInt8
  /-- Granularity, size, and two bits more. -/
  flags : ℕ
  deriving DecidableEq

/-- The processor reads the limit from bytes 0, 1 and half of 6, the base from 2, 3, 4 and 7. -/
def decodeSegment : List UInt8 → Segment
  | [b0, b1, b2, b3, b4, b5, b6, b7] =>
    { base := b2.toNat + 256 * b3.toNat + 65536 * b4.toNat + 16777216 * b7.toNat
      limit := b0.toNat + 256 * b1.toNat + 65536 * (b6.toNat % 16)
      access := b5
      flags := b6.toNat / 16 }
  | _ => ⟨0, 0, 0, 0⟩

/-- Segment `i` of the table at `gdt`. -/
def segmentAt (m : Mem) (gdt i : ℕ) : Segment := decodeSegment (bytesAt m (gdt + 8 * i) 8)

/-- The last byte of a segment: the limit counts pages of 4 KiB where the granularity bit is set. -/
def Segment.last (s : Segment) : ℕ :=
  if s.flags / 8 % 2 = 1 then 0x1000 * s.limit + 0xFFF else s.limit

/-- The bytes of an entry, as `gdt_set` leaves them. -/
def gdtEntry (base limit : ℕ) (access gran : UInt8) : List UInt8 :=
  [byteOf (limit &&& 0xFFFF) 0, byteOf (limit &&& 0xFFFF) 1, byteOf (base &&& 0xFFFF) 0,
    byteOf (base &&& 0xFFFF) 1, UInt8.ofNat ((base >>> 16) &&& 0xFFFF), access,
    UInt8.ofNat ((limit >>> 16) &&& 0x0F) ||| (gran &&& 0xF0),
    UInt8.ofNat ((base >>> 24) &&& 0xFF)]

section Gdt

variable {m : Mem} {gdt ptr index i base limit : ℕ} {access gran : UInt8}

lemma bytesAt_gdtSet : bytesAt (gdtSet gdt index base limit access gran m) (gdt + 8 * index) 8 =
    gdtEntry base limit access gran := by
  unfold gdtSet
  simp only
  generalize gdt + 8 * index = e
  rw [bytesAt_write8 (by decide) (by decide), bytesAt_write8 (by decide) (by decide),
    bytesAt_write8 (by decide) (by decide), bytesAt_write16_start (by decide) (by decide),
    bytesAt_write8 (by decide) (by decide), bytesAt_write8 (by decide) (by decide),
    bytesAt_write16 (by decide) (by decide), bytesAt_eight, read8_write8, if_pos rfl]
  rfl

lemma writes_gdtSet :
    Writes m (gdtSet gdt index base limit access gran m) (span (gdt + 8 * index) 8) := by
  unfold gdtSet
  simp only
  generalize gdt + 8 * index = e
  refine Writes.trans ?_ (writes_write8 (by decide))
  refine Writes.trans ?_ (writes_write8 (by decide))
  refine Writes.trans ?_ (writes_write8 (by decide))
  refine Writes.trans ?_ (writes_write16 (k := 0) (by decide))
  refine Writes.trans ?_ (writes_write8 (by decide))
  refine Writes.trans ?_ (writes_write8 (by decide))
  exact writes_write16 (by decide)

/-- Byte 6 has a piece of the limit in its low half, and the flags in its high half. -/
lemma toNat_nibbles {x : ℕ} (hx : x < 16) (g : UInt8) :
    (UInt8.ofNat x ||| (g &&& 0xF0)).toNat % 16 = x ∧
      (UInt8.ofNat x ||| (g &&& 0xF0)).toNat / 16 = g.toNat / 16 := by
  obtain ⟨⟨g⟩⟩ := g
  revert g
  interval_cases x <;> decide +kernel

lemma decodeSegment_gdtEntry (hbase : base < 2 ^ 32) :
    decodeSegment (gdtEntry base limit access gran) =
      ⟨base, limit % 2 ^ 20, access, gran.toNat / 16⟩ := by
  have hlow (x : ℕ) : x &&& 0xFFFF = x % 2 ^ 16 := Nat.and_two_pow_sub_one_eq_mod x 16
  have hnibble : (limit >>> 16) &&& 0x0F = limit / 2 ^ 16 % 2 ^ 4 := by
    rw [Nat.shiftRight_eq_div_pow]
    exact Nat.and_two_pow_sub_one_eq_mod _ 4
  have hbyte : (base >>> 24) &&& 0xFF = base / 2 ^ 24 % 2 ^ 8 := by
    rw [Nat.shiftRight_eq_div_pow]
    exact Nat.and_two_pow_sub_one_eq_mod _ 8
  obtain ⟨h1, h2⟩ := toNat_nibbles (x := limit / 2 ^ 16 % 2 ^ 4) (by omega) gran
  unfold gdtEntry
  rw [hlow, hlow, hlow, hnibble, hbyte, Nat.shiftRight_eq_div_pow]
  simp only [decodeSegment]
  rw [h1, h2]
  simp only [byteOf_toNat, UInt8.toNat_ofNat', Segment.mk.injEq, and_true]
  omega

theorem segmentAt_gdtSet (hbase : base < 2 ^ 32) (hindex : index < 2 ^ 29) (hi : i < 2 ^ 29) :
    segmentAt (gdtSet gdt index base limit access gran m) gdt i =
      if i = index then ⟨base, limit % 2 ^ 20, access, gran.toNat / 16⟩ else segmentAt m gdt i := by
  unfold segmentAt
  by_cases he : i = index
  · rw [if_pos he, he, bytesAt_gdtSet, decodeSegment_gdtEntry hbase]
  · rw [if_neg he, bytesAt_of_writes writes_gdtSet]
    rintro k hk ⟨l, hl, h⟩
    omega

/-! ### What `lgdt` and `lidt` load -/

/-- The limit and the base of a table, at `ptr`. -/
def tablePtrAt (m : Mem) (ptr : ℕ) : ℕ × ℕ :=
  ((read8 m ptr).toNat + 256 * (read8 m (ptr + 1)).toNat, read32 m (ptr + 2))

/-- The two records of six bytes and of `n` bytes are apart. -/
def PtrApart (ptr table n : ℕ) : Prop :=
  ∀ k < 6, ∀ l < n, (ptr + k) % 2 ^ 32 ≠ (table + l) % 2 ^ 32

lemma writes_setTablePtr {table : ℕ} :
    Writes m (setTablePtr ptr limit table m) (span ptr 6) := by
  unfold setTablePtr
  refine (writes_write16 (k := 0) (by decide)).trans (Writes.write32_of fun i hi => ?_)
  exact ⟨2 + i, by omega, by rw [Nat.add_assoc]⟩

lemma tablePtrAt_setTablePtr {table : ℕ} (hlimit : limit < 2 ^ 16) (htable : table < 2 ^ 32) :
    tablePtrAt (setTablePtr ptr limit table m) ptr = (limit, table) := by
  have hw : Writes (write16 m ptr limit) (setTablePtr ptr limit table m) (span (ptr + 2) 4) :=
    Writes.write32_of fun i hi => ⟨i, hi, rfl⟩
  have h0 : read8 (setTablePtr ptr limit table m) ptr = byteOf limit 0 := by
    rw [hw.read8 (by rintro ⟨k, hk, h⟩; omega)]
    simp only [write16, read8_write8, if_true]
    exact if_neg (by omega)
  have h1 : read8 (setTablePtr ptr limit table m) (ptr + 1) = byteOf limit 1 := by
    rw [hw.read8 (by rintro ⟨k, hk, h⟩; omega)]
    simp only [write16, read8_write8, if_true]
  unfold tablePtrAt
  rw [h0, h1, setTablePtr, read32_write32 htable]
  simp only [byteOf_toNat, Prod.mk.injEq, and_true]
  omega

lemma tablePtrAt_of_writes {m' : Mem} {S : Set ℕ} (hw : Writes m m' S) (hS : ∀ x ∈ span ptr 6, x ∉ S) :
    tablePtrAt m' ptr = tablePtrAt m ptr := by
  have hbyte : ∀ k < 6, read8 m' (ptr + k) = read8 m (ptr + k) := fun k hk =>
    hw.read8 (hS _ ⟨k, hk, rfl⟩)
  unfold tablePtrAt
  rw [show read8 m' ptr = read8 m ptr from hbyte 0 (by decide), hbyte 1 (by decide)]
  congr 1
  refine read32_congr fun i hi => ?_
  have h := hbyte (2 + i) (by omega)
  rwa [← Nat.add_assoc] at h

lemma tablePtrAt_frame {m' : Mem} {table n : ℕ} (hw : Writes m m' (span table n))
    (hapart : PtrApart ptr table n) : tablePtrAt m' ptr = tablePtrAt m ptr := by
  apply tablePtrAt_of_writes hw
  rintro _ ⟨k, hk, rfl⟩ ⟨l, hl, h⟩
  exact hapart k hk l hl h

lemma span_entry {table i n : ℕ} (hi : i < n) : span (table + 8 * i) 8 ⊆ span table (8 * n) := by
  rintro x ⟨k, hk, rfl⟩
  exact ⟨8 * i + k, by omega, by rw [Nat.add_assoc]⟩

/-- **The segments of the kernel are flat**: each of the four reaches from 0 to the last byte of
the address space. -/
theorem segmentAt_gdtInit (hgdt : gdt < 2 ^ 32) (hapart : PtrApart ptr gdt 40) (m : Mem) :
    tablePtrAt (gdtInit gdt ptr m) ptr = (39, gdt) ∧
      segmentAt (gdtInit gdt ptr m) gdt 0 = ⟨0, 0, 0, 0⟩ ∧
      ∀ i < 4, ∃ s, segmentAt (gdtInit gdt ptr m) gdt (i + 1) = s ∧ s.base = 0 ∧
        s.last = 2 ^ 32 - 1 ∧ s.access = [0x9A, 0x92, 0xFA, 0xF2].getD i 0 := by
  have hset (j : ℕ) {base limit : ℕ} {access gran : UInt8} (hj : j < 5) (m : Mem) :
      Writes m (gdtSet gdt j base limit access gran m) (span gdt 40) :=
    writes_gdtSet.mono (span_entry hj)
  have hw : Writes (setTablePtr ptr (8 * 5 - 1) gdt m) (gdtInit gdt ptr m) (span gdt 40) :=
    ((((hset 0 (by decide) _).trans (hset 1 (by decide) _)).trans (hset 2 (by decide) _)).trans
      (hset 3 (by decide) _)).trans (hset 4 (by decide) _)
  have hread (i : ℕ) (hi : i < 2 ^ 29) : segmentAt (gdtInit gdt ptr m) gdt i =
      if i = 4 then ⟨0, 0xFFFFF, 0xF2, 12⟩ else if i = 3 then ⟨0, 0xFFFFF, 0xFA, 12⟩
      else if i = 2 then ⟨0, 0xFFFFF, 0x92, 12⟩ else if i = 1 then ⟨0, 0xFFFFF, 0x9A, 12⟩
      else if i = 0 then ⟨0, 0, 0, 0⟩
      else segmentAt (setTablePtr ptr (8 * 5 - 1) gdt m) gdt i := by
    unfold gdtInit
    simp only
    rw [segmentAt_gdtSet (by decide) (by decide) hi, segmentAt_gdtSet (by decide) (by decide) hi,
      segmentAt_gdtSet (by decide) (by decide) hi, segmentAt_gdtSet (by decide) (by decide) hi,
      segmentAt_gdtSet (by decide) (by decide) hi]
    rfl
  refine ⟨?_, ?_, fun i hi => ⟨_, rfl, ?_⟩⟩
  · rw [tablePtrAt_frame hw hapart, tablePtrAt_setTablePtr (by decide) hgdt]
  · rw [hread 0 (by decide)]
    rfl
  · rw [hread (i + 1) (by omega)]
    interval_cases i <;> simp [Segment.last]

end Gdt

/-! ### The interrupt descriptor table -/

/-- `idt_set`, in the table at `idt`. -/
def idtSet (idt index base segSelector : ℕ) (flags : UInt8) (m : Mem) : Mem :=
  let e := idt + 8 * index
  let m := write16 m e (base &&& 0xFFFF)
  let m := write16 m (e + 6) ((base >>> 16) &&& 0xFFFF)
  let m := write16 m (e + 2) segSelector
  let m := write8 m (e + 5) flags
  write8 m (e + 4) 0

/-- `memset`, byte by byte. -/
def memset (h : ℕ) (v : UInt8) (l : ℕ) (m : Mem) : Mem :=
  (List.range l).foldl (fun m i => write8 m (h + i) v) m

/-- What `idt_init` tells the two interrupt controllers. -/
def picInit : List (UInt16 × UInt8) :=
  [(0x20, 0x11), (0xA0, 0x11), (0x21, 0x20), (0xA1, 0x28), (0x21, 0x04), (0xA1, 0x02),
    (0x21, 0x01), (0xA1, 0x01), (0x21, 0x0), (0xA1, 0x0)]

/-- The calls of `idt_set` in `idt_init`: `isr0` to `isr31`, and `irq0` to `irq15` behind them. The
address of the one for vector `n` is `stub n`. -/
def setGates (stub : ℕ → ℕ) (idt : ℕ) (m : Mem) : Mem :=
  (List.range 48).foldl (fun m n => idtSet idt n (stub n) 0x08 0x8E m) m

/-- `idt_init`, up to `idt_w`, with the table at `idt` and `IDT_PTR` at `ptr`: memory, and what
goes out to the ports. -/
def idtInit (stub : ℕ → ℕ) (idt ptr : ℕ) (m : Mem) : Mem × List (UInt16 × UInt8) :=
  let m := setTablePtr ptr (8 * 256 - 1) idt m
  let m := memset idt 0 (8 * 256) m
  (setGates stub idt m, picInit)

/-- A gate, as the processor reads it. -/
structure Gate where
  offset : ℕ
  selector : ℕ
  present : Bool
  privilege : ℕ
  /-- 14 is an interrupt gate of 32 bits. -/
  kind : ℕ
  deriving DecidableEq

def decodeGate : List UInt8 → Gate
  | [b0, b1, b2, b3, _, b5, b6, b7] =>
    { offset := b0.toNat + 256 * b1.toNat + 65536 * b6.toNat + 16777216 * b7.toNat
      selector := b2.toNat + 256 * b3.toNat
      present := 128 ≤ b5.toNat
      privilege := b5.toNat / 32 % 4
      kind := b5.toNat % 32 }
  | _ => ⟨0, 0, false, 0, 0⟩

/-- Gate `n` of the table at `idt`. -/
def gateAt (m : Mem) (idt n : ℕ) : Gate := decodeGate (bytesAt m (idt + 8 * n) 8)

section Idt

variable {m : Mem} {idt ptr index n base segSelector : ℕ} {flags : UInt8} {stub : ℕ → ℕ}

lemma bytesAt_idtSet : bytesAt (idtSet idt index base segSelector flags m) (idt + 8 * index) 8 =
    [byteOf (base &&& 0xFFFF) 0, byteOf (base &&& 0xFFFF) 1, byteOf segSelector 0,
      byteOf segSelector 1, 0, flags, byteOf ((base >>> 16) &&& 0xFFFF) 0,
      byteOf ((base >>> 16) &&& 0xFFFF) 1] := by
  unfold idtSet
  simp only
  generalize idt + 8 * index = e
  rw [bytesAt_write8 (by decide) (by decide), bytesAt_write8 (by decide) (by decide),
    bytesAt_write16 (by decide) (by decide), bytesAt_write16 (by decide) (by decide),
    bytesAt_write16_start (by decide) (by decide), bytesAt_eight]
  rfl

lemma writes_idtSet :
    Writes m (idtSet idt index base segSelector flags m) (span (idt + 8 * index) 8) := by
  unfold idtSet
  simp only
  generalize idt + 8 * index = e
  refine Writes.trans ?_ (writes_write8 (by decide))
  refine Writes.trans ?_ (writes_write8 (by decide))
  refine Writes.trans ?_ (writes_write16 (by decide))
  refine Writes.trans ?_ (writes_write16 (by decide))
  exact writes_write16 (k := 0) (by decide)

theorem gateAt_idtSet (hbase : base < 2 ^ 32) (hsel : segSelector < 2 ^ 16)
    (hindex : index < 2 ^ 29) (hn : n < 2 ^ 29) :
    gateAt (idtSet idt index base segSelector flags m) idt n =
      if n = index then
        ⟨base, segSelector, 128 ≤ flags.toNat, flags.toNat / 32 % 4, flags.toNat % 32⟩
      else gateAt m idt n := by
  unfold gateAt
  by_cases he : n = index
  · have hlow (x : ℕ) : x &&& 0xFFFF = x % 2 ^ 16 := Nat.and_two_pow_sub_one_eq_mod x 16
    rw [if_pos he, he, bytesAt_idtSet, hlow, hlow, Nat.shiftRight_eq_div_pow]
    simp only [decodeGate, byteOf_toNat, Gate.mk.injEq, and_true]
    omega
  · rw [if_neg he, bytesAt_of_writes writes_idtSet]
    rintro k hk ⟨l, hl, h⟩
    omega

lemma writes_memset {h l : ℕ} {v : UInt8} : Writes m (memset h v l m) (span h l) := by
  apply foldl_range_inv (P := fun _ t => Writes m t (span h l))
  · exact .refl _ _
  · exact fun i hi t ht => ht.trans (writes_write8 hi)

lemma read8_memset {h l k : ℕ} {v : UInt8} (hk : k < l) :
    read8 (memset h v l m) (h + k) = v := by
  have key := foldl_range_inv (f := fun m i => write8 m (h + i) v) (s := m) (N := l)
    (P := fun i t => ∀ k < i, read8 t (h + k) = v) (fun k hk => absurd hk (by omega))
    fun i hi t ht k hk => by
      rw [read8_write8]
      by_cases hik : k = i
      · rw [if_pos (by rw [hik])]
      · split
        · rfl
        · exact ht k (by omega)
  exact key k hk

theorem gateAt_idtInit (hidt : idt < 2 ^ 32) (hstub : ∀ n < 48, stub n < 2 ^ 32)
    (hapart : PtrApart ptr idt 2048) (m : Mem) :
    (∀ n < 256, gateAt (idtInit stub idt ptr m).1 idt n =
        if n < 48 then ⟨stub n, 0x08, true, 0, 14⟩ else ⟨0, 0, false, 0, 0⟩) ∧
      tablePtrAt (idtInit stub idt ptr m).1 ptr = (2047, idt) ∧
      Writes m (idtInit stub idt ptr m).1 (span idt 2048 ∪ span ptr 6) := by
  set m₁ := setTablePtr ptr (8 * 256 - 1) idt m with hm₁
  set m₂ := memset idt 0 (8 * 256) m₁ with hm₂
  have hzero (n : ℕ) (hn : n < 256) : gateAt m₂ idt n = ⟨0, 0, false, 0, 0⟩ := by
    have hbytes : bytesAt m₂ (idt + 8 * n) 8 = List.replicate 8 0 := by
      refine List.ext_getElem (by simp) fun i hi _ => ?_
      have hi : i < 8 := by simpa using hi
      simp only [bytesAt, List.getElem_map, List.getElem_range, List.getElem_replicate,
        Nat.add_assoc]
      exact read8_memset (by omega)
    unfold gateAt
    rw [hbytes]
    rfl
  -- after the first `i` calls of `idt_set`
  have hset := foldl_range_inv (f := fun m n => idtSet idt n (stub n) 0x08 0x8E m) (s := m₂)
    (N := 48) (P := fun i t => Writes m₂ t (span idt 2048) ∧ ∀ n < 256, gateAt t idt n =
      if n < i then ⟨stub n, 0x08, true, 0, 14⟩ else ⟨0, 0, false, 0, 0⟩)
    ⟨.refl _ _, fun n hn => hzero n hn⟩ fun i hi t ⟨hw, ht⟩ => by
      refine ⟨hw.trans (writes_idtSet.mono (span_entry (n := 256) (by omega))), fun n hn => ?_⟩
      rw [gateAt_idtSet (hstub i hi) (by decide) (by omega) (by omega), ht n hn]
      by_cases hni : n = i
      · rw [if_pos hni, if_pos (by omega), hni]
        rfl
      · rw [if_neg hni]
        by_cases hlt : n < i
        · rw [if_pos hlt, if_pos (by omega)]
        · rw [if_neg hlt, if_neg (by omega)]
  obtain ⟨hw, hgates⟩ := hset
  have hwrites : Writes m₁ (idtInit stub idt ptr m).1 (span idt 2048) := writes_memset.trans hw
  refine ⟨hgates, ?_, ?_⟩
  · rw [tablePtrAt_frame hwrites hapart]
    exact tablePtrAt_setTablePtr (by decide) hidt
  · exact (writes_setTablePtr.mono Set.subset_union_right).trans
      (hwrites.mono Set.subset_union_left)

end Idt

/-! ### Both tables -/

/-- `init_descriptor_tables` -/
def initDescriptorTables (stub : ℕ → ℕ) (gdt gdtPtr idt idtPtr : ℕ) (m : Mem) :
    Mem × List (UInt16 × UInt8) :=
  idtInit stub idt idtPtr (gdtInit gdt gdtPtr m)

/-- The four objects of `descriptor_tables.c` are apart. -/
structure TablesApart (gdt gdtPtr idt idtPtr : ℕ) : Prop where
  gdtRecord : PtrApart gdtPtr gdt 40
  idtRecord : PtrApart idtPtr idt 2048
  others : ∀ x ∈ span gdt 40 ∪ span gdtPtr 6, x ∉ span idt 2048 ∪ span idtPtr 6

/-- The processor, with the limits and the bases of the two tables, takes vector `n` and goes on at
`target`, in the privileged mode it was in. -/
structure Delivers (m : Mem) (gdtr idtr : ℕ × ℕ) (n target : ℕ) : Prop where
  vector : 8 * n + 7 ≤ idtr.1
  present : (gateAt m idtr.2 n).present = true
  kind : (gateAt m idtr.2 n).kind = 14
  /-- The selector is none of a local table, and it is inside the global one. -/
  selector : (gateAt m idtr.2 n).selector / 4 % 2 = 0 ∧
    8 * ((gateAt m idtr.2 n).selector / 8) + 7 ≤ gdtr.1
  /-- The segment is present, for the kernel, and of code. -/
  code : (segmentAt m gdtr.2 ((gateAt m idtr.2 n).selector / 8)).access.toNat / 8 = 0x13
  offset : (gateAt m idtr.2 n).offset ≤
    (segmentAt m gdtr.2 ((gateAt m idtr.2 n).selector / 8)).last
  target : (segmentAt m gdtr.2 ((gateAt m idtr.2 n).selector / 8)).base +
    (gateAt m idtr.2 n).offset = target

section Tables

variable {stub : ℕ → ℕ} {gdt gdtPtr idt idtPtr n target : ℕ} {m m' : Mem}

lemma segmentAt_of_writes {S : Set ℕ} (hw : Writes m m' S) (hS : ∀ x ∈ span gdt 40, x ∉ S) {i : ℕ}
    (hi : i < 5) : segmentAt m' gdt i = segmentAt m gdt i := by
  unfold segmentAt
  rw [bytesAt_of_writes hw fun k hk => hS _ ⟨8 * i + k, by omega, by rw [Nat.add_assoc]⟩]

lemma gateAt_of_writes {S : Set ℕ} (hw : Writes m m' S) (hS : ∀ x ∈ span idt 2048, x ∉ S)
    (hn : n < 256) : gateAt m' idt n = gateAt m idt n := by
  unfold gateAt
  rw [bytesAt_of_writes hw fun k hk => hS _ ⟨8 * n + k, by omega, by rw [Nat.add_assoc]⟩]

lemma delivers_of_tables
    (hgates : ∀ n < 256, gateAt m idt n =
      if n < 48 then ⟨stub n, 0x08, true, 0, 14⟩ else ⟨0, 0, false, 0, 0⟩)
    (hbase : (segmentAt m gdt 1).base = 0) (hlast : (segmentAt m gdt 1).last = 2 ^ 32 - 1)
    (haccess : (segmentAt m gdt 1).access = 0x9A) (hstub : ∀ n < 48, stub n < 2 ^ 32) :
    Delivers m (39, gdt) (2047, idt) n target ↔ n < 48 ∧ target = stub n := by
  constructor
  · rintro ⟨hvector, hpresent, -, -, -, -, htarget⟩
    have hn : n < 256 := by
      simp only at hvector
      omega
    have hgate := hgates n hn
    by_cases h48 : n < 48
    · rw [if_pos h48] at hgate
      simp only [hgate, hbase, Nat.zero_add] at htarget
      exact ⟨h48, htarget.symm⟩
    · rw [if_neg h48] at hgate
      simp only [hgate, Bool.false_eq_true] at hpresent
  · rintro ⟨h48, rfl⟩
    have hgate : gateAt m idt n = ⟨stub n, 0x08, true, 0, 14⟩ := by
      rw [hgates n (by omega), if_pos h48]
    have hlt := hstub n h48
    constructor
    all_goals simp only [hgate, hbase, hlast, haccess]
    · omega
    · decide
    · decide
    · omega
    · omega

/-- **Vectors reach their stubs.** With the two tables of `init_descriptor_tables` the processor takes
the vectors below 48 and no others, and each of them leads to its stub: the gate names the code
segment of the kernel, which is present and flat. -/
theorem delivers_iff (h : TablesApart gdt gdtPtr idt idtPtr) (hgdt : gdt < 2 ^ 32)
    (hidt : idt < 2 ^ 32) (hstub : ∀ n < 48, stub n < 2 ^ 32) (m : Mem) :
    let m' := (initDescriptorTables stub gdt gdtPtr idt idtPtr m).1
    Delivers m' (tablePtrAt m' gdtPtr) (tablePtrAt m' idtPtr) n target ↔
      n < 48 ∧ target = stub n := by
  intro m'
  obtain ⟨hgates, hidtr, hw⟩ := gateAt_idtInit hidt hstub h.idtRecord (gdtInit gdt gdtPtr m)
  change Writes (gdtInit gdt gdtPtr m) m' _ at hw
  obtain ⟨hgdtr, -, hsegments⟩ := segmentAt_gdtInit hgdt h.gdtRecord m
  have hgdtr' : tablePtrAt m' gdtPtr = (39, gdt) := by
    rw [tablePtrAt_of_writes hw fun x hx => h.others x (Or.inr hx), hgdtr]
  obtain ⟨code, hcode, hbase, hlast, haccess⟩ := hsegments 0 (by decide)
  have hcode' : segmentAt m' gdt 1 = code := by
    rw [segmentAt_of_writes hw (fun x hx => h.others x (Or.inl hx)) (show 1 < 5 by decide)]
    exact hcode
  rw [hgdtr', show tablePtrAt m' idtPtr = (2047, idt) from hidtr]
  exact delivers_of_tables hgates (by rw [hcode', hbase]) (by rw [hcode', hlast])
    (by rw [hcode', haccess]; rfl) hstub

end Tables

lemma tablesApart_bare : TablesApart 0x1000 0x1100 0x2000 0x3000 := by
  refine ⟨fun k hk l hl => by omega, fun k hk l hl => by omega, ?_⟩
  rintro x (⟨k, hk, rfl⟩ | ⟨k, hk, rfl⟩) (⟨l, hl, h⟩ | ⟨l, hl, h⟩)
  all_goals omega

theorem delivers_iff_pageFault :
    let m' := (initDescriptorTables (fun n => 0x100000 + 16 * n) 0x1000 0x1100 0x2000 0x3000
      fun _ => 0).1
    Delivers m' (tablePtrAt m' 0x1100) (tablePtrAt m' 0x3000) 14 0x1000E0 :=
  (delivers_iff tablesApart_bare (by decide) (by decide) (fun n hn => by omega) fun _ => 0).mpr
    ⟨by decide, by decide⟩

end OsImplement.Interrupt
