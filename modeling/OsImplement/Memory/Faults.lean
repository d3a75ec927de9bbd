import OsImplement.Memory.HeapPages

/-!
The heap on a paged machine.

The processor reaches memory through the directory that runs. `page_fault` does not return, so that
a store to a page that is not mapped there ends the call that makes it. `Paged.alloc` is `alloc` with
these faults: it returns where `alloc` does and the tags that are stored lie in mapped memory.
-/

namespace OsImplement.Memory

open Lib.Word Lib.Bytes

namespace Kernel

/-! ### Mapped memory -/

/-- The address has memory behind it: paging is not on yet, or its page is mapped in the directory
that runs, to a frame that is there (`alloc_frame` gives frame `-1` when none is free). -/
def Mapped (k : Kernel) (a : ℕ) : Prop :=
  k.curVmPageDir = 0 ∨ ∃ x ∈ k.translate k.curVmPageDir (a % 2 ^ 32),
    x < PAGE_SIZE * (8 * k.map.framesBitmapSize)

instance (k : Kernel) : DecidablePred k.Mapped := fun _ => by unfold Mapped; infer_instance

/-- `n` bytes from `a` on are mapped. -/
def MappedFrom (k : Kernel) (a n : ℕ) : Prop := ∀ i < n, k.Mapped (a + i)

instance (k : Kernel) (a n : ℕ) : Decidable (k.MappedFrom a n) := by unfold MappedFrom; infer_instance

/-- An access to `n` bytes from `a` on; `none` is the page fault. -/
def touch (a n : ℕ) (k : Kernel) : Option Kernel := if k.MappedFrom a n then some k else none

/-- A store to `n` bytes from `a` on. -/
def store (a n : ℕ) (f : Mem → Mem) (k : Kernel) : Option Kernel :=
  (k.touch a n).map (write f)

/-! ### The heap -/

/-- `_malloc_ap`, and the `memset` of its callers. -/
def Paged.mallocAp (alloc : HeapAlloc) : MallocAp := fun mSize k => do
  let (addr, phy, k) ← Kernel.mallocAp alloc mSize k
  let k ← k.touch addr mSize
  some (addr, phy, k)

/-- `alloc`, between `expand` and the second try -/
def Paged.growHole (oldEnd oldLen : ℕ) (k : Kernel) : Option Kernel := do
  let (idx, header) ← highestSlot k.heap.index k.mem k.heap.index.size 0 (NO_SLOT, 0)
  let grown := sub32 k.heapLen oldLen
  if idx = NO_SLOT then
    let k ← k.store oldEnd 12 (writeHeader oldEnd 1 grown)
    let footer := sub32 (add32 oldEnd (headerSize k.mem oldEnd)) 8
    let k ← k.store footer 8 (writeFooter footer oldEnd)
    some (k.insertHole oldEnd)
  else
    let k ← k.store (add32 header 8) 4
      (setHeaderSize header (add32 (headerSize k.mem header) grown))
    let footer := sub32 (add32 header (headerSize k.mem header)) 8
    k.store footer 8 (writeFooter footer header)

/-- `alloc`, what it does in front of the block -/
def Paged.cutFront (iter pos holeSize : ℕ) (pageAlign : Bool) (k : Kernel) :
    Option (ℕ × ℕ × Kernel) :=
  if pageAlign ∧ add32 pos 12 &&& 0xFFF ≠ 0 then do
    let location := sub32 (add32 pos 0x1000) (add32 pos 12 &&& 0xFFF)
    let k ← k.store pos 12 (writeHeader pos 1 (sub32 (0x1000 - 12) (add32 pos 12 &&& 0xFFF)))
    let k ← k.store (sub32 location 8) 8 (writeFooter (sub32 location 8) pos)
    some (location, sub32 holeSize (headerSize k.mem pos), k)
  else do
    let k ← k.removeHole iter
    some (pos, holeSize, k)

/-- `alloc`, what it does behind the block -/
def Paged.cutBack (pos holeSize size newSize : ℕ) (k : Kernel) : Option Kernel :=
  if newSize < holeSize then do
    let hole := add32 (add32 pos 20) size
    let k ← k.store hole 12 (writeHeader hole 1 (sub32 holeSize newSize))
    let footer := sub32 (sub32 (add32 pos holeSize) 8) newSize
    let k ← (if footer < k.heap.endAddress then k.store footer 8 (writeFooter footer hole)
      else some k : Option Kernel)
    some (k.insertHole hole)
  else some k

/-- `alloc`, in the hole at slot `iter` -/
def Paged.placeBlock (iter size newSize : ℕ) (pageAlign : Bool) (k : Kernel) :
    Option (ℕ × Kernel) := do
  let pos ← findSortedArray iter k.heap.index k.mem
  let holeSize := headerSize k.mem pos
  let rest := sub32 holeSize newSize
  let tooSmall := rest < 12 + 8
  let size := if tooSmall then add32 size rest else size
  let newSize := if tooSmall then holeSize else newSize
  let (pos, holeSize, k) ← Paged.cutFront iter pos holeSize pageAlign k
  let k ← k.store pos 12 (writeHeader pos 0 newSize)
  let footer := add32 (add32 pos size) 12
  let k ← k.store footer 8 (writeFooter footer pos)
  let k ← Paged.cutBack pos holeSize size newSize k
  some (add32 pos 12, k)

/-- `alloc` -/
def Paged.alloc : ℕ → HeapAlloc
  | 0, _, _, _ => none
  | fuel + 1, size, pageAlign, k => do
    let newSize := add32 (add32 size 12) 8
    match ← findHoleFitFirst newSize pageAlign k.heap k.mem with
    | none =>
      let oldLen := k.heapLen
      let oldEnd := k.heap.endAddress
      let k ← k.expand (Paged.mallocAp (Paged.alloc fuel)) (add32 oldLen newSize)
      let k ← Paged.growHole oldEnd oldLen k
      Paged.alloc fuel size pageAlign k
    | some iter => Paged.placeBlock iter size newSize pageAlign k

section Mapped

variable {k k' : Kernel} {a n : ℕ} {f : Mem → Mem}

lemma MappedFrom.mapped (h : k.MappedFrom a n) {x : ℕ} (h1 : a ≤ x) (h2 : x < a + n) :
    k.Mapped x := by
  have := h (x - a) (by omega)
  rwa [Nat.add_sub_cancel' h1] at this

lemma MappedFrom.mono {b m : ℕ} (h : k.MappedFrom a n) (h1 : a ≤ b) (h2 : b + m ≤ a + n) :
    k.MappedFrom b m := fun i hi => h.mapped (by omega) (by omega)

/-- All memory is there until paging is on. -/
lemma mappedFrom_boot (h : k.curVmPageDir = 0) : k.MappedFrom a n := fun _ _ => .inl h

lemma mapped_of_entry {d : ℕ} (ha : a < 2 ^ 32) (hd : d = k.curVmPageDir)
    (ht : k.tableOf d (a / 0x1000 / 1024) ≠ 0) (hv : (k.entryOf d (a / 0x1000)).valid = true)
    (hf : (k.entryOf d (a / 0x1000)).frame < 8 * k.map.framesBitmapSize) : k.Mapped a := by
  subst hd
  refine .inr ⟨(k.entryOf k.curVmPageDir (a / 0x1000)).frame * 0x1000 + a % 0x1000, ?_, ?_⟩
  · rw [Nat.mod_eq_of_lt ha, translate, lookupPage]
    simp only [if_pos ht]
    exact if_pos hv
  · unfold PAGE_SIZE
    omega

lemma touch_eq (h : k.MappedFrom a n) : k.touch a n = some k := if_pos h

lemma touch_some : k.touch a n = some k' ↔ k.MappedFrom a n ∧ k' = k := by
  unfold touch
  split_ifs with h
  · simp [h, eq_comm]
  · simp [h]

lemma store_eq (h : k.MappedFrom a n) : k.store a n f = some (k.write f) := by
  rw [store, touch_eq h, Option.map_some]

lemma store_some : k.store a n f = some k' ↔ k.MappedFrom a n ∧ k' = k.write f := by
  unfold store touch
  split_ifs with h
  · simp [h, eq_comm]
  · simp [h]

end Mapped

/-! ### What returns, returns the same without faults -/

/-- Where `m'` returns, `m` returns the same. -/
def Refines (m' m : MallocAp) : Prop := ∀ n k r, m' n k = some r → m n k = some r

section Refines

variable {m m' : MallocAp} {alloc alloc' : HeapAlloc} {k k' : Kernel} {addr dir newSize n i : ℕ}
  {size pos holeSize oldEnd oldLen iter : ℕ} {pageAlign : Bool} {r : ℕ × Kernel}

lemma mallocAp_boot (h0 : k.kheap = 0) (alloc alloc' : HeapAlloc) :
    mallocAp alloc n k = mallocAp alloc' n k := by
  unfold mallocAp malloc
  rw [if_pos h0, if_pos h0]

lemma Refines.getPage {p : Option PageRef × Kernel} (h : Refines m' m)
    (hp : k.getPage m' addr true dir = some p) : k.getPage m addr true dir = some p := by
  unfold Kernel.getPage at hp ⊢
  split at hp
  · exact hp
  · next hnone =>
    rw [if_pos rfl] at hp ⊢
    obtain ⟨x, hx, hp⟩ := Option.bind_eq_some_iff.mp hp
    exact Option.bind_eq_some_iff.mpr ⟨x, h _ _ _ hx, hp⟩

lemma Refines.expandPages (h : Refines m' m) : ∀ (n i : ℕ) (k : Kernel),
    expandPages m' newSize n i k = some k' → expandPages m newSize n i k = some k' := by
  intro n
  induction n with
  | zero => exact fun _ _ hr => by simp [Kernel.expandPages] at hr
  | succ n ih =>
    intro i k hr
    unfold Kernel.expandPages at hr ⊢
    split at hr
    · next hi =>
      rw [if_pos hi]
      obtain ⟨p, hp, hr⟩ := Option.bind_eq_some_iff.mp hr
      exact Option.bind_eq_some_iff.mpr ⟨p, h.getPage hp, ih _ _ hr⟩
    · next hi =>
      rw [if_neg hi]
      exact hr

lemma Refines.expand (h : Refines m' m) (hr : k.expand m' newSize = some k') :
    k.expand m newSize = some k' := by
  obtain ⟨k₁, hexp, hr⟩ := Option.bind_eq_some_iff.mp hr
  exact Option.bind_eq_some_iff.mpr ⟨k₁, h.expandPages _ _ _ hexp, hr⟩

lemma Paged.mallocAp_some {t phy : ℕ} : Paged.mallocAp alloc n k = some (t, phy, k') ↔
    Kernel.mallocAp alloc n k = some (t, phy, k') ∧ k'.MappedFrom t n := by
  unfold Paged.mallocAp
  constructor
  · intro hr
    obtain ⟨⟨t₁, phy₁, k₁⟩, hm, hr⟩ := Option.bind_eq_some_iff.mp hr
    obtain ⟨k₂, ht, hr⟩ := Option.bind_eq_some_iff.mp hr
    obtain ⟨rfl, rfl, rfl⟩ : t₁ = t ∧ phy₁ = phy ∧ k₂ = k' := by simpa using hr
    obtain ⟨hmap, rfl⟩ := touch_some.mp ht
    exact ⟨hm, hmap⟩
  · rintro ⟨hm, hmap⟩
    rw [hm]
    simp only [Option.bind_eq_bind, Option.bind_some, touch_eq hmap]

lemma Paged.refines_mallocAp (h : ∀ size pageAlign k r, alloc' size pageAlign k = some r →
    alloc size pageAlign k = some r) : Refines (Paged.mallocAp alloc') (Kernel.mallocAp alloc) := by
  rintro n k ⟨t, phy, k'⟩ hr
  have hr := (Paged.mallocAp_some.mp hr).1
  by_cases h0 : k.kheap = 0
  · rwa [mallocAp_boot h0 alloc alloc'] 
  · unfold Kernel.mallocAp malloc at hr ⊢
    rw [if_neg h0] at hr ⊢
    obtain ⟨x, hx, hr⟩ := Option.bind_eq_some_iff.mp hr
    exact Option.bind_eq_some_iff.mpr ⟨x, h _ _ _ _ hx, hr⟩

lemma Paged.growHole_refines (hr : Paged.growHole oldEnd oldLen k = some k') :
    k.growHole oldEnd oldLen = some k' := by
  unfold Paged.growHole at hr
  unfold Kernel.growHole
  obtain ⟨⟨idx, v⟩, hslot, hr⟩ := Option.bind_eq_some_iff.mp hr
  refine Option.bind_eq_some_iff.mpr ⟨(idx, v), hslot, ?_⟩
  simp only at hr ⊢
  split_ifs at hr ⊢
  · obtain ⟨k₁, h1, hr⟩ := Option.bind_eq_some_iff.mp hr
    obtain ⟨k₂, h2, hr⟩ := Option.bind_eq_some_iff.mp hr
    obtain ⟨-, rfl⟩ := store_some.mp h1
    obtain ⟨-, rfl⟩ := store_some.mp h2
    exact hr
  · obtain ⟨k₁, h1, hr⟩ := Option.bind_eq_some_iff.mp hr
    obtain ⟨-, rfl⟩ := store_some.mp h1
    obtain ⟨-, rfl⟩ := store_some.mp hr
    rfl

lemma Paged.cutFront_refines {r : ℕ × ℕ × Kernel}
    (hr : Paged.cutFront iter pos holeSize pageAlign k = some r) :
    k.cutFront iter pos holeSize pageAlign = some r := by
  unfold Paged.cutFront at hr
  unfold Kernel.cutFront
  split_ifs at hr ⊢
  · obtain ⟨k₁, h1, hr⟩ := Option.bind_eq_some_iff.mp hr
    obtain ⟨k₂, h2, hr⟩ := Option.bind_eq_some_iff.mp hr
    obtain ⟨-, rfl⟩ := store_some.mp h1
    obtain ⟨-, rfl⟩ := store_some.mp h2
    exact hr
  · exact hr

lemma Paged.cutBack_refines (hr : Paged.cutBack pos holeSize size n k = some k') :
    k.cutBack pos holeSize size n = k' := by
  unfold Paged.cutBack at hr
  unfold Kernel.cutBack
  split_ifs at hr ⊢
  · obtain ⟨k₁, h1, hr⟩ := Option.bind_eq_some_iff.mp hr
    obtain ⟨k₂, h2, hr⟩ := Option.bind_eq_some_iff.mp hr
    obtain ⟨-, rfl⟩ := store_some.mp h1
    simp only at h2 ⊢
    split_ifs at h2 ⊢
    · obtain ⟨-, rfl⟩ := store_some.mp h2
      exact Option.some.inj hr
    · obtain rfl := Option.some.inj h2
      exact Option.some.inj hr
  · exact Option.some.inj hr

lemma Paged.placeBlock_refines (hr : Paged.placeBlock iter size n pageAlign k = some r) :
    k.placeBlock iter size n pageAlign = some r := by
  unfold Paged.placeBlock at hr
  unfold Kernel.placeBlock
  obtain ⟨p, hfind, hr⟩ := Option.bind_eq_some_iff.mp hr
  refine Option.bind_eq_some_iff.mpr ⟨p, hfind, ?_⟩
  obtain ⟨⟨q, s, k₁⟩, hcut, hr⟩ := Option.bind_eq_some_iff.mp hr
  refine Option.bind_eq_some_iff.mpr ⟨_, Paged.cutFront_refines hcut, ?_⟩
  obtain ⟨k₂, h2, hr⟩ := Option.bind_eq_some_iff.mp hr
  obtain ⟨k₃, h3, hr⟩ := Option.bind_eq_some_iff.mp hr
  obtain ⟨k₄, h4, hr⟩ := Option.bind_eq_some_iff.mp hr
  obtain ⟨-, rfl⟩ := store_some.mp h2
  obtain ⟨-, rfl⟩ := store_some.mp h3
  obtain rfl := Paged.cutBack_refines h4
  exact hr

/-- **What returns on the paged machine returns the same without faults.** -/
theorem Paged.alloc_refines : ∀ (fuel size : ℕ) (pageAlign : Bool) (k : Kernel) (r : ℕ × Kernel),
    Paged.alloc fuel size pageAlign k = some r → Kernel.alloc fuel size pageAlign k = some r := by
  intro fuel
  induction fuel with
  | zero => exact fun _ _ _ _ hr => by simp [Paged.alloc] at hr
  | succ fuel ih =>
    intro size pageAlign k r hr
    unfold Paged.alloc at hr
    unfold Kernel.alloc
    obtain ⟨found, hfound, hr⟩ := Option.bind_eq_some_iff.mp hr
    refine Option.bind_eq_some_iff.mpr ⟨found, hfound, ?_⟩
    cases found with
    | none =>
      obtain ⟨k₁, h1, hr⟩ := Option.bind_eq_some_iff.mp hr
      obtain ⟨k₂, h2, hr⟩ := Option.bind_eq_some_iff.mp hr
      exact Option.bind_eq_some_iff.mpr ⟨k₁, (Paged.refines_mallocAp ih).expand h1,
        Option.bind_eq_some_iff.mpr ⟨k₂, Paged.growHole_refines h2, ih _ _ _ _ hr⟩⟩
    | some iter => exact Paged.placeBlock_refines hr

end Refines

/-! ### What has to be mapped -/

/-- A block of `n` bytes in the hole at `p` of `s` bytes is mapped with its tags, and so are the tags
of what is left behind it. -/
structure PlaceMapped (p s n : ℕ) (pageAlign : Bool) (k : Kernel) : Prop where
  block : k.MappedFrom p (alignOffset pageAlign p + blockRoom s n)
  header : restSize (alignOffset pageAlign p) s (blockRoom s n) ≠ 0 →
    k.MappedFrom (p + alignOffset pageAlign p + blockRoom s n) 12
  footer : restSize (alignOffset pageAlign p) s (blockRoom s n) ≠ 0 →
    p + alignOffset pageAlign p + restSize (alignOffset pageAlign p) s (blockRoom s n) <
      k.heap.endAddress + 8 →
    k.MappedFrom (p + alignOffset pageAlign p +
      restSize (alignOffset pageAlign p) s (blockRoom s n) - 8) 8

/-- The tags of a new hole at `oldEnd` are mapped, or the size and the footer of the hole that is
extended. -/
def GrowMapped (oldEnd oldLen : ℕ) (k : Kernel) : Prop :=
  let grown := sub32 k.heapLen oldLen
  if k.highestHole = 0 then
    k.MappedFrom oldEnd 12 ∧ k.MappedFrom (sub32 (add32 oldEnd grown) 8) 8
  else
    k.MappedFrom (add32 k.highestHole 8) 4 ∧ k.MappedFrom
      (sub32 (add32 k.highestHole (add32 (headerSize k.mem k.highestHole) grown)) 8) 8

/-- The page tables that `expand` makes lie in mapped memory, and the calls for them meet `ok`. -/
def PagesMapped (inner : HeapAlloc) (ok : ℕ → Bool → Kernel → Prop) (newSize : ℕ) :
    ℕ → ℕ → Kernel → Prop
  | 0, _, _ => True
  | n + 1, i, k => i < newSize →
    (k.lookupPage (add32 k.heap.startAddress i) k.vmPageDir = none →
      if k.kheap = 0 then
        ∀ t phy k', mallocAp inner 4096 k = some (t, phy, k') → k'.MappedFrom t 4096
      else ok 4096 true k) ∧
    ∀ r k', k.getPage (mallocAp inner) (add32 k.heap.startAddress i) true k.vmPageDir =
      some (r, k') → PagesMapped inner ok newSize n (add32 i 0x1000)
        (k'.allocFrame r k'.heap.supervisor (!k'.heap.readonly))

/-- A call of `alloc`, followed `fuel` calls deep, stores to mapped memory. -/
def MappedAt : ℕ → ℕ → Bool → Kernel → Prop
  | 0, _, _, _ => True
  | fuel + 1, size, pageAlign, k =>
    (∀ iter, findHoleFitFirst (size + 20) pageAlign k.heap k.mem = some (some iter) →
      PlaceMapped (k.holeAt iter) (headerSize k.mem (k.holeAt iter)) (size + 20) pageAlign k) ∧
    (findHoleFitFirst (size + 20) pageAlign k.heap k.mem = some none →
      let newSize := roundSize (add32 k.heapLen (size + 20))
      let newEnd := k.heap.startAddress + newSize
      PagesMapped (alloc fuel) (MappedAt fuel) newSize (2 ^ 20) k.heapLen k ∧
      ∀ k', expandPages (mallocAp (alloc fuel)) newSize (2 ^ 20) k.heapLen k = some k' →
        GrowMapped k.heap.endAddress k.heapLen (k'.setEnd newEnd) ∧
        ∀ k'', (k'.setEnd newEnd).growHole k.heap.endAddress k.heapLen = some k'' →
          MappedAt fuel size pageAlign k'')

/-- **A call of `alloc` stores to mapped memory**, with all the calls that it makes. -/
def StoresMapped (size : ℕ) (pageAlign : Bool) (k : Kernel) : Prop :=
  ∀ fuel, MappedAt fuel size pageAlign k

section Place

variable {A i p s d r room t size n : ℕ} {pageAlign : Bool} {holes blocks : List (ℕ × ℕ)}
  {k k' : Kernel} {m : Mem} {a : SortedArray}

lemma mappedFrom_retag : (k.retag m a).MappedFrom p n ↔ k.MappedFrom p n := Iff.rfl

lemma mappedFrom_write {f : Mem → Mem} : (k.write f).MappedFrom p n ↔ k.MappedFrom p n := Iff.rfl

lemma Paged.cutFront_eq (hd : d = alignOffset pageAlign p) (hfront : d = 0 ∨ 20 ≤ d)
    (htop : p + d ≤ 2 ^ 32) (hm : k.MappedFrom p d) :
    Paged.cutFront i p s pageAlign k = k.cutFront i p s pageAlign := by
  unfold Paged.cutFront Kernel.cutFront
  rw [and_mask]
  split_ifs with hcond
  · have h20 : 20 ≤ d := hfront.resolve_left (hd ▸ alignOffset_ne_zero.mpr hcond)
    obtain ⟨-, hloc, -, hfoot⟩ := front_addresses hd h20 htop
    rw [hloc]
    simp only [hfoot, Option.bind_eq_bind]
    rw [store_eq (hm.mono le_rfl (by omega)), Option.bind_some,
      store_eq (mappedFrom_write.mpr (hm.mono (by omega) (by omega))), Option.bind_some]
  · rfl

lemma Paged.cutBack_eq (hroom : 20 ≤ room) (hsize : size + 20 = room) (htop : p + room + t < 2 ^ 32)
    (ht : t ≠ 0 → 12 ≤ t) (hheader : t ≠ 0 → k.MappedFrom (p + room) 12)
    (hfooter : t ≠ 0 → p + t < k.heap.endAddress + 8 → k.MappedFrom (p + t - 8) 8) :
    Paged.cutBack p (room + t) size room k = some (k.cutBack p (room + t) size room) := by
  unfold Paged.cutBack Kernel.cutBack
  split_ifs with hlt
  · have h0 : t ≠ 0 := by omega
    have ht12 := ht h0
    obtain ⟨hhole, hrest, hfoot⟩ := back_addresses hroom hsize htop ht h0
    rw [hhole, hrest, hfoot]
    simp only [Option.bind_eq_bind]
    rw [store_eq (hheader h0), Option.bind_some]
    have hend : (k.write (writeHeader (p + room) 1 t)).heap.endAddress = k.heap.endAddress := rfl
    rw [hend]
    split_ifs with hin
    · rw [store_eq (mappedFrom_write.mpr (hfooter h0 (by omega))), Option.bind_some]
    · rfl
  · rfl

theorem Paged.placeBlock_eq (h : HeapInv A holes blocks k) (hi : i < holes.length)
    (hp : holes[i] = (p, r)) (hs : s = headerSize k.mem p)
    (hok : PlaceOk p s k.heap.endAddress k.heap.index.cur (size + 20) pageAlign)
    (hm : PlaceMapped p s (size + 20) pageAlign k) :
    Paged.placeBlock i size (size + 20) pageAlign k = k.placeBlock i size (size + 20) pageAlign := by
  have hs32 : s < 2 ^ 32 := hs ▸ headerSize_lt _ _
  obtain ⟨⟨size', hsize', hsel⟩, hroomn, htd, ht12, htot, htop⟩ := hok.sizes hs32 rfl rfl rfl
  obtain ⟨hblock, hheader, hfooter⟩ := hm
  obtain ⟨-, hwrap, ⟨hle, hfits⟩, -, hfront, -⟩ := hok
  set d := alignOffset pageAlign p with hd
  set room := blockRoom s (size + 20) with hroom
  set t := restSize d s room with ht
  have hlo := (h.hole _ (hp ▸ List.getElem_mem hi)).lo
  have hi' : i < (holes.map Prod.fst).length := by simpa using hi
  have hget : (holes.map Prod.fst)[i] = p := by rw [List.getElem_map, hp]
  have hfind : findSortedArray i k.heap.index k.mem = some p := by
    have hilt : i < k.heap.index.size := by
      have := h.listed.length_lt
      rw [List.length_map] at this
      omega
    rw [h.listed.find hilt, List.getElem?_eq_getElem hi', hget]
    rfl
  obtain ⟨m, a, hcut, -⟩ := cutFront_spec h.listed hi' hget hlo hd
    (hfront.imp id And.left) (show p + s + 12 ≤ 2 ^ 32 by omega) (show d ≤ s by omega)
  have hcut' : Paged.cutFront i p s pageAlign k = _ :=
    (Paged.cutFront_eq hd (hfront.imp id And.left) (by omega) (hblock.mono le_rfl (by omega))).trans
      hcut
  have hfoot : add32 (add32 (p + d) size') 12 = p + d + room - 8 := by
    have h1 : add32 (p + d) size' = p + d + size' := add32_eq (by omega)
    rw [h1, add32_eq (by omega)]
    omega
  unfold Paged.placeBlock Kernel.placeBlock
  rw [hfind]
  simp only [Option.bind_eq_bind, Option.bind_some, ← hs, hsize']
  rw [show (if sub32 s (size + 20) < 12 + 8 then s else size + 20) = room from rfl, hcut, hcut']
  simp only [Option.bind_some, hfoot, ← htd]
  rw [store_eq (mappedFrom_retag.mpr (hblock.mono (by omega) (by omega))), Option.bind_some,
    store_eq (mappedFrom_write.mpr (mappedFrom_retag.mpr (hblock.mono (by omega) (by omega)))),
    Option.bind_some]
  set k₂ := ((k.retag m a).write (writeHeader (p + d) 0 room)).write
    (writeFooter (p + d + room - 8) (p + d))
  rw [Paged.cutBack_eq (k := k₂) (by omega) hsel (by omega) ht12 hheader hfooter, Option.bind_some]

lemma Paged.alloc_placed {fuel iter : ℕ} (h : HeapInv A holes blocks k) (hn : size + 20 < 2 ^ 32)
    (hfirst : findHoleFitFirst (size + 20) pageAlign k.heap k.mem = some (some iter))
    (hi : iter < holes.length) (hp : holes[iter] = (p, r)) (hs : s = headerSize k.mem p)
    (hok : PlaceOk p s k.heap.endAddress k.heap.index.cur (size + 20) pageAlign)
    (hm : PlaceMapped p s (size + 20) pageAlign k) :
    Paged.alloc (fuel + 1) size pageAlign k = Kernel.alloc (fuel + 1) size pageAlign k := by
  rw [alloc_place hn hfirst, ← Paged.placeBlock_eq h hi hp hs hok hm, Paged.alloc]
  simp only [newSize_eq hn, hfirst, Option.bind_eq_bind, Option.bind_some]

lemma Paged.alloc_grow {fuel : ℕ} {k₁ k₂ : Kernel} (hn : size + 20 < 2 ^ 32)
    (hmiss : findHoleFitFirst (size + 20) pageAlign k.heap k.mem = some none)
    (hexp : k.expand (Paged.mallocAp (Paged.alloc fuel)) (add32 k.heapLen (size + 20)) = some k₁)
    (hgrow : Paged.growHole k.heap.endAddress k.heapLen k₁ = some k₂) :
    Paged.alloc (fuel + 1) size pageAlign k = Paged.alloc fuel size pageAlign k₂ := by
  rw [Paged.alloc]
  simp only [newSize_eq hn, hmiss, Option.bind_eq_bind, Option.bind_some]
  rw [hexp, Option.bind_some, hgrow, Option.bind_some]

theorem Paged.growHole_iff {oldEnd oldLen idx : ℕ}
    (hr : highestSlot k.heap.index k.mem k.heap.index.size 0 (NO_SLOT, 0) =
      some (idx, k.highestHole)) (hidx : idx = NO_SLOT ↔ k.highestHole = 0)
    (htop : k.highestHole = 0 → oldEnd + 12 ≤ 2 ^ 32) :
    Paged.growHole oldEnd oldLen k = some k' ↔
      k.GrowMapped oldEnd oldLen ∧ k.growHole oldEnd oldLen = some k' := by
  set g := sub32 k.heapLen oldLen with hg
  have hg32 : g < 2 ^ 32 := sub32_lt _ _
  unfold Paged.growHole Kernel.growHole GrowMapped
  rw [hr]
  simp only [Option.bind_eq_bind, Option.bind_some, ← hg]
  by_cases h0 : k.highestHole = 0
  · rw [if_pos (hidx.mpr h0), if_pos (hidx.mpr h0), if_pos h0]
    have hsize : headerSize (k.write (writeHeader oldEnd 1 g)).mem oldEnd = g :=
      headerSize_writeHeader (htop h0) hg32
    constructor
    · intro h
      obtain ⟨k₁, h1, h⟩ := Option.bind_eq_some_iff.mp h
      obtain ⟨k₂, h2, h⟩ := Option.bind_eq_some_iff.mp h
      obtain ⟨hm1, rfl⟩ := store_some.mp h1
      obtain ⟨hm2, rfl⟩ := store_some.mp h2
      rw [hsize] at hm2
      exact ⟨⟨hm1, hm2⟩, h⟩
    · rintro ⟨⟨hm1, hm2⟩, h⟩
      refine Option.bind_eq_some_iff.mpr ⟨_, store_eq hm1, Option.bind_eq_some_iff.mpr
        ⟨_, store_eq ?_, h⟩⟩
      rw [hsize]
      exact hm2
  · rw [if_neg fun h => h0 (hidx.mp h), if_neg fun h => h0 (hidx.mp h), if_neg h0]
    set v := k.highestHole
    set s := add32 (headerSize k.mem v) g with hs
    have hsize : headerSize (k.write (setHeaderSize v s)).mem v = s :=
      read32_write32 (add32_lt _ _)
    constructor
    · intro h
      obtain ⟨k₁, h1, h⟩ := Option.bind_eq_some_iff.mp h
      obtain ⟨hm1, rfl⟩ := store_some.mp h1
      obtain ⟨hm2, rfl⟩ := store_some.mp h
      rw [hsize] at hm2
      exact ⟨⟨hm1, hm2⟩, rfl⟩
    · rintro ⟨⟨hm1, hm2⟩, h⟩
      refine Option.bind_eq_some_iff.mpr ⟨_, store_eq hm1, (store_eq ?_).trans h⟩
      rw [hsize]
      exact hm2

lemma highestSlot_hole (h : HeapInv A holes blocks k) : ∃ idx,
    highestSlot k.heap.index k.mem k.heap.index.size 0 (NO_SLOT, 0) = some (idx, k.highestHole) ∧
      (idx = NO_SLOT ↔ k.highestHole = 0) := by
  rcases h.highest with ⟨-, h0, hr⟩ | ⟨idx, hidx, hpos, -, -, hr⟩
  · exact ⟨NO_SLOT, by rw [hr, h0], by simp [h0]⟩
  · have hsize := h.listed.size_le
    have hN : HEAP_INDEX_SIZE = 0x20000 := rfl
    refine ⟨idx, hr, iff_of_false (fun he => ?_) hpos.ne'⟩
    unfold NO_SLOT at he
    omega

end Place

/-! ### Calls that do not fault -/

section Calls

variable {A newSize : ℕ} {inner inner' : HeapAlloc} {ok ok' : ℕ → Bool → Kernel → Prop}

/-- Where `inner` meets both conditions, it returns on the paged machine too, and what it returns is
mapped. -/
def Faultless (A : ℕ) (inner inner' : HeapAlloc) (ok ok' : ℕ → Bool → Kernel → Prop) : Prop :=
  ∀ size pageAlign k holes blocks p k', HeapInv A holes blocks k → ok size pageAlign k →
    ok' size pageAlign k → inner size pageAlign k = some (p, k') →
      inner' size pageAlign k = some (p, k') ∧ k'.MappedFrom p size

lemma Faultless.mallocAp {k k' : Kernel} {holes blocks : List (ℕ × ℕ)} {n t phy : ℕ}
    (hf : Faultless A inner inner' ok ok') (h : HeapInv A holes blocks k)
    (hok : k.kheap ≠ 0 → ok n true k)
    (hok' : if k.kheap = 0 then
      ∀ t phy k', Kernel.mallocAp inner n k = some (t, phy, k') → k'.MappedFrom t n
      else ok' n true k)
    (hm : Kernel.mallocAp inner n k = some (t, phy, k')) :
    Paged.mallocAp inner' n k = some (t, phy, k') := by
  rw [Paged.mallocAp_some]
  by_cases h0 : k.kheap = 0
  · rw [if_pos h0] at hok'
    exact ⟨mallocAp_boot h0 inner inner' ▸ hm, hok' _ _ _ hm⟩
  · rw [if_neg h0] at hok'
    obtain ⟨hal, hphy⟩ := mallocAp_cases h0 hm
    obtain ⟨hal', hmap⟩ := hf _ _ _ _ _ _ _ h (hok h0) hok' hal
    refine ⟨?_, hmap⟩
    unfold Kernel.mallocAp malloc
    rw [if_neg h0, hal', hphy]
    rfl

lemma Faultless.getPage {k k' : Kernel} {holes blocks : List (ℕ × ℕ)} {addr : ℕ}
    {r : Option PageRef} (hf : Faultless A inner inner' ok ok') (h : HeapInv A holes blocks k)
    (hok : k.lookupPage addr k.vmPageDir = none → k.kheap ≠ 0 → ok 4096 true k)
    (hok' : k.lookupPage addr k.vmPageDir = none → if k.kheap = 0 then
      ∀ t phy k', Kernel.mallocAp inner 4096 k = some (t, phy, k') → k'.MappedFrom t 4096
      else ok' 4096 true k)
    (hr : k.getPage (Kernel.mallocAp inner) addr true k.vmPageDir = some (r, k')) :
    k.getPage (Paged.mallocAp inner') addr true k.vmPageDir = some (r, k') := by
  unfold Kernel.getPage at hr ⊢
  cases hl : k.lookupPage addr k.vmPageDir with
  | some r' =>
    rw [hl] at hr
    exact hr
  | none =>
    rw [hl] at hr
    rw [if_pos rfl] at hr ⊢
    obtain ⟨⟨t, phy, k₁⟩, hm, hr⟩ := Option.bind_eq_some_iff.mp hr
    exact Option.bind_eq_some_iff.mpr ⟨(t, phy, k₁), hf.mallocAp h (hok hl) (hok' hl) hm, hr⟩

lemma Faultless.expandPages (hf : Faultless A inner inner' ok ok') (hinner : Sound A inner ok) :
    ∀ (n i : ℕ) (k : Kernel) (holes blocks : List (ℕ × ℕ)) (k' : Kernel), HeapInv A holes blocks k →
    PagesOk inner ok newSize n i k → PagesMapped inner ok' newSize n i k →
    Kernel.expandPages (Kernel.mallocAp inner) newSize n i k = some k' →
    Kernel.expandPages (Paged.mallocAp inner') newSize n i k = some k' := by
  intro n
  induction n with
  | zero => exact fun _ _ _ _ _ _ _ _ hr => by simp [Kernel.expandPages] at hr
  | succ n ih =>
    intro i k holes blocks k' h hok hok' hr
    unfold Kernel.expandPages at hr ⊢
    split at hr
    · next hi =>
      rw [if_pos hi]
      obtain ⟨⟨r, k₁⟩, hg, hr⟩ := Option.bind_eq_some_iff.mp hr
      obtain ⟨hmalloc, hnext⟩ := hok hi
      obtain ⟨hmalloc', hnext'⟩ := hok' hi
      obtain ⟨⟨r', rfl⟩, holes₁, extra₁, h₁, -⟩ := getPage_sound h hinner hmalloc hg
      have h₁' : HeapInv A holes₁ (extra₁ ++ blocks)
          (k₁.allocFrame (some r') k₁.heap.supervisor (!k₁.heap.readonly)) :=
        h₁.congr mem_allocFrame heap_allocFrame
      exact Option.bind_eq_some_iff.mpr ⟨_, hf.getPage h hmalloc hmalloc' hg,
        ih _ _ _ _ _ h₁' (hnext _ _ hg) (hnext' _ _ hg) hr⟩
    · next hi =>
      rw [if_neg hi]
      exact hr

/-- **A call that stores to mapped memory returns on the paged machine**, if it returns at all. -/
theorem alloc_faultless (A : ℕ) :
    ∀ fuel, Faultless A (alloc fuel) (Paged.alloc fuel) (OkAt fuel) (MappedAt fuel) := by
  intro fuel
  induction fuel with
  | zero => exact fun _ _ _ _ _ _ _ _ _ _ hr => by simp [Kernel.alloc] at hr
  | succ fuel ih =>
    intro size pageAlign k holes blocks p k' h hok hmap hr
    have hsound := alloc_sound A fuel
    obtain ⟨found, hfound, hspec⟩ := @Listed.findHole_spec _ _ _ _ h.listed (size + 20) pageAlign
      k.heap.index.size 0 (by omega)
    have hfirst : findHoleFitFirst (size + 20) pageAlign k.heap k.mem = some found := hfound
    cases found with
    | some iter =>
      have hplace := hok.2.1 iter hfirst
      have hm := hmap.1 iter hfirst
      obtain ⟨hi, hp⟩ := h.holeAt hspec.2.1 hplace.listed
      obtain ⟨m, a, hpl, -, ⟨hroom, -⟩, -⟩ := placeBlock_spec h hi hp rfl rfl rfl rfl hplace
      have heq := @Paged.alloc_placed _ _ _ _ _ _ _ _ _ fuel _ h hok.1 hfirst hi hp rfl hplace hm
      rw [alloc_place hok.1 hfirst, hpl] at heq hr
      obtain ⟨rfl, rfl⟩ := Prod.mk.inj (Option.some.inj hr)
      exact ⟨heq, mappedFrom_retag.mpr (hm.block.mono (by omega) (by omega))⟩
    | none =>
      obtain ⟨k₁, hexp, -⟩ := Option.bind_eq_some_iff.mp ((alloc_grow hok.1 hfirst).symm.trans hr)
      obtain ⟨k₀, hexp, hk₁⟩ := Option.bind_eq_some_iff.mp hexp
      obtain ⟨k₂, extra, hg, heq, -⟩ := alloc_regrows hsound h hok hfirst hexp
      obtain ⟨hpages, hnext⟩ := hmap.2 hfirst
      obtain ⟨hgrow, hagain⟩ := hnext _ hexp
      obtain ⟨holes₀, h₀⟩ := hg.expanded
      obtain ⟨holes₂, h₂⟩ := hg.grown
      obtain ⟨hle, hlt⟩ := hg.growOk.noWrap
      obtain ⟨hret, hpay⟩ := ih _ _ _ _ _ _ _ h₂ hg.again (hagain _ hg.grow) (heq ▸ hr)
      refine ⟨?_, hpay⟩
      have hend := h₀.setEnd hg.growOk.forward hlt
      obtain ⟨idx, hslot, hidx⟩ := highestSlot_hole hend
      have hgr := (Paged.growHole_iff hslot hidx fun _ => by omega).mpr ⟨hgrow, hg.grow⟩
      have hstart : k₀.heap.startAddress = k.heap.startAddress := h₀.start.trans h.start.symm
      have hexpand : k.expand (Paged.mallocAp (Paged.alloc fuel)) (add32 k.heapLen (size + 20)) =
          some (k₀.setEnd (k.heap.startAddress + roundSize (add32 k.heapLen (size + 20)))) := by
        rw [← add32_eq hlt, ← hstart]
        exact Option.bind_eq_some_iff.mpr ⟨k₀, ih.expandPages hsound _ _ _ _ _ _ h hg.pages hpages
          hexp, rfl⟩
      exact (Paged.alloc_grow hok.1 hfirst hexpand hgr).trans hret

end Calls

end Kernel

end OsImplement.Memory
