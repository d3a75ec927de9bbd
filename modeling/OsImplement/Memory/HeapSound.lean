import OsImplement.Memory.HeapGrow
import OsImplement.Lib.Step

/-!
Runs of `alloc`.

`AllocOk` asks of every call of `alloc`, with the calls that it makes itself, what `PlaceOk` and
`GrowOk` ask of one placement and one growth. Along a run of such calls the heap stays sound, and
then payloads are inside the heap and apart.
-/

namespace OsImplement.Memory

open Lib.Word Lib.Bytes Lib.Interval Lib.Step

namespace Kernel

/-- The entry of a slot. -/
def holeAt (k : Kernel) (iter : ℕ) : ℕ := slot k.heap.index.array k.mem iter

/-- The heap grows well, to `newEnd`, for a block of `n` bytes: seen after the page tables of the
new room have been made, and with `oldEnd` the end before that. -/
structure GrowOk (oldEnd n newEnd : ℕ) (k : Kernel) : Prop where
  /-- The end does not move back: a page table may have been placed up to it. -/
  forward : k.heap.endAddress ≤ newEnd
  noWrap : oldEnd + n ≤ newEnd ∧ newEnd < 2 ^ 32
  /-- The hole that is extended is the last thing in the heap; or no hole is listed, and then
  there is a slot for a new one, and no page table has been placed where it goes. -/
  hole : if k.highestHole = 0 then
      k.heap.endAddress = oldEnd ∧ k.heap.index.cur + 1 < HEAP_INDEX_SIZE
    else
      k.heap.endAddress ≤ k.highestHole + headerSize k.mem k.highestHole ∧
        k.highestHole + headerSize k.mem k.highestHole + (newEnd - oldEnd) < 2 ^ 32

/-- The calls that `expand` makes for page tables meet `ok`. -/
def PagesOk (inner : HeapAlloc) (ok : ℕ → Bool → Kernel → Prop) (newSize : ℕ) :
    ℕ → ℕ → Kernel → Prop
  | 0, _, _ => True
  | n + 1, i, k => i < newSize →
    (k.lookupPage (add32 k.heap.startAddress i) k.vmPageDir = none → k.kheap ≠ 0 →
      ok 4096 true k) ∧
    ∀ r k', k.getPage (mallocAp inner) (add32 k.heap.startAddress i) true k.vmPageDir =
      some (r, k') → PagesOk inner ok newSize n (add32 i 0x1000)
        (k'.allocFrame r k'.heap.supervisor (!k'.heap.readonly))

/-- A call of `alloc` is sound, followed `fuel` calls deep. -/
def OkAt : ℕ → ℕ → Bool → Kernel → Prop
  | 0, _, _, _ => True
  | fuel + 1, size, pageAlign, k =>
    size + 20 < 2 ^ 32 ∧
    (∀ iter, findHoleFitFirst (size + 20) pageAlign k.heap k.mem = some (some iter) →
      PlaceOk (k.holeAt iter) (headerSize k.mem (k.holeAt iter)) k.heap.endAddress k.heap.index.cur
        (size + 20) pageAlign) ∧
    (findHoleFitFirst (size + 20) pageAlign k.heap k.mem = some none →
      let newSize := roundSize (add32 k.heapLen (size + 20))
      let newEnd := k.heap.startAddress + newSize
      PagesOk (alloc fuel) (OkAt fuel) newSize (2 ^ 20) k.heapLen k ∧
      ∀ k', expandPages (mallocAp (alloc fuel)) newSize (2 ^ 20) k.heapLen k = some k' →
        GrowOk k.heap.endAddress (size + 20) newEnd k' ∧
        ∀ k'', (k'.setEnd newEnd).growHole k.heap.endAddress k.heapLen = some k'' →
          OkAt fuel size pageAlign k'')

/-- **A call of `alloc` is sound**, with all the calls that it makes. -/
def AllocOk (size : ℕ) (pageAlign : Bool) (k : Kernel) : Prop := ∀ fuel, OkAt fuel size pageAlign k

end Kernel

open Kernel

section Sound

variable {A size addr newSize n i p : ℕ} {pageAlign : Bool} {holes blocks : List (ℕ × ℕ)}
  {k k' : Kernel} {inner : HeapAlloc} {ok : ℕ → Bool → Kernel → Prop}

/-- An allocator that keeps heaps at `A` sound, under the condition `ok`: the payload that it
returns is apart from all others, and the heap does not shrink. -/
def Sound (A : ℕ) (inner : HeapAlloc) (ok : ℕ → Bool → Kernel → Prop) : Prop :=
  ∀ size pageAlign k holes blocks p k', HeapInv A holes blocks k → ok size pageAlign k →
    inner size pageAlign k = some (p, k') →
      ∃ holes' extra, HeapInv A holes' ((p, p + size) :: extra ++ blocks) k' ∧
        k.heap.endAddress ≤ k'.heap.endAddress

lemma getPage_sound (h : HeapInv A holes blocks k) (hinner : Sound A inner ok)
    (hok : k.lookupPage addr k.vmPageDir = none → k.kheap ≠ 0 → ok 4096 true k)
    {r : Option PageRef} (hr : k.getPage (mallocAp inner) addr true k.vmPageDir = some (r, k')) :
    (∃ r', r = some r') ∧ ∃ holes' extra, HeapInv A holes' (extra ++ blocks) k' ∧
      k.heap.endAddress ≤ k'.heap.endAddress := by
  unfold Kernel.getPage at hr
  cases hl : k.lookupPage addr k.vmPageDir with
  | some r' =>
    rw [hl] at hr
    obtain ⟨rfl, rfl⟩ : some r' = r ∧ k = k' := by simpa using hr
    exact ⟨⟨r', rfl⟩, holes, [], h, le_rfl⟩
  | none =>
    rw [hl] at hr
    simp only [if_true, Option.bind_eq_bind, Option.bind_eq_some_iff, Prod.exists,
      Option.some.injEq, Prod.mk.injEq] at hr
    obtain ⟨table, phy, k₁, hm, rfl, rfl⟩ := hr
    refine ⟨⟨_, rfl⟩, ?_⟩
    unfold Kernel.mallocAp Kernel.malloc at hm
    split at hm
    · -- the heap is not in use yet
      simp only [Option.some.injEq, Prod.mk.injEq] at hm
      obtain ⟨-, -, rfl⟩ := hm
      exact ⟨holes, [], h.congr (by simp) (by simp), by simp⟩
    · next hk =>
      simp only [Option.bind_eq_bind, Option.bind_eq_some_iff, Prod.exists, Option.some.injEq,
        Prod.mk.injEq] at hm
      obtain ⟨t, k₂, hin, rfl, -, rfl⟩ := hm
      obtain ⟨holes', extra, h', hle⟩ := hinner _ _ _ _ _ _ _ h (hok hl hk) hin
      exact ⟨holes', (t, t + 4096) :: extra, h'.congr (by simp) (by simp), by simpa using hle⟩

lemma expandPages_sound (hinner : Sound A inner ok) : ∀ (n i : ℕ) (k : Kernel)
    (holes blocks : List (ℕ × ℕ)) (k' : Kernel), HeapInv A holes blocks k →
    PagesOk inner ok newSize n i k → expandPages (mallocAp inner) newSize n i k = some k' →
    ∃ holes' extra, HeapInv A holes' (extra ++ blocks) k' ∧
      k.heap.endAddress ≤ k'.heap.endAddress := by
  intro n
  induction n with
  | zero => exact fun _ _ _ _ _ _ _ hr => by simp [expandPages] at hr
  | succ n ih =>
    intro i k holes blocks k' h hok hr
    unfold expandPages at hr
    split at hr
    · next hi =>
      simp only [Option.bind_eq_bind, Option.bind_eq_some_iff, Prod.exists] at hr
      obtain ⟨r, k₁, hg, hr⟩ := hr
      obtain ⟨hmalloc, hnext⟩ := hok hi
      obtain ⟨⟨r', rfl⟩, holes₁, extra₁, h₁, hle₁⟩ := getPage_sound h hinner hmalloc hg
      have h₁' : HeapInv A holes₁ (extra₁ ++ blocks)
          (k₁.allocFrame (some r') k₁.heap.supervisor (!k₁.heap.readonly)) :=
        h₁.congr mem_allocFrame heap_allocFrame
      obtain ⟨holes₂, extra₂, h₂, hle₂⟩ := ih _ _ holes₁ (extra₁ ++ blocks) k' h₁' (hnext _ _ hg) hr
      exact ⟨holes₂, extra₂ ++ extra₁, by rwa [List.append_assoc], hle₁.trans hle₂⟩
    · obtain rfl : k = k' := by simpa using hr
      exact ⟨holes, [], h, le_rfl⟩

/-- **Growth keeps the heap sound**, and the hole that gets the new bytes is the highest
afterwards. -/
lemma growHole_sound {oldEnd newEnd m : ℕ} (h : HeapInv A holes blocks k)
    (hok : GrowOk oldEnd m newEnd k) (hm : 20 ≤ m)
    (hr : (k.setEnd newEnd).growHole oldEnd (sub32 oldEnd k.heap.startAddress) = some k') :
    ∃ holes', HeapInv A holes' blocks k' ∧ k'.heap.endAddress = newEnd ∧ k'.highestHole ≠ 0 ∧
      k.highestSize + (newEnd - oldEnd) ≤ k'.highestSize ∧ Untouched blocks k.mem k'.mem := by
  obtain ⟨hforward, ⟨hle, hlt⟩, hhole⟩ := hok
  have hend := h.setEnd hforward hlt
  have hgrown : sub32 (k.setEnd newEnd).heapLen (sub32 oldEnd k.heap.startAddress) =
      newEnd - oldEnd := by
    show sub32 (sub32 newEnd k.heap.startAddress) (sub32 oldEnd k.heap.startAddress) = _
    unfold sub32
    omega
  rcases hend.highest with ⟨rfl, hv, -⟩ | ⟨-, -, hv, ⟨r, hmem⟩, -⟩
  · rw [highestHole_setEnd] at hv
    rw [if_pos hv] at hhole
    obtain ⟨m, a, hg, h', hsize, hw⟩ := growHole_new hend hgrown (by omega)
      (hhole.1 ▸ h.startLe rfl) (by omega) (fun b hb => hhole.1 ▸ (h.block b hb).2) hhole.2
    obtain rfl : (k.setEnd newEnd).retag m a = k' := by simpa [hr] using hg.symm
    obtain ⟨hne, r, hmem, -⟩ := h'.highest_mem (List.cons_ne_nil _ _)
    have hv' : ((k.setEnd newEnd).retag m a).highestHole = oldEnd := by
      simpa using congrArg Prod.fst (List.mem_singleton.mp hmem)
    refine ⟨_, h', rfl, hne, ?_, fun b hb x hx => hw fun hin => ?_⟩
    · rw [highestSize, if_pos hv, highestSize, if_neg hne, hv', mem_retag, hsize]
      omega
    · -- the blocks lie between the index and the old end
      have hb' := h.block b hb
      have h1 := hx.1
      have h2 := hx.2
      have hend' := hhole.1
      rcases hin with hin | hin
      · have := hin.2
        omega
      · have := hin.1
        omega
  · rw [highestHole_setEnd] at hv hmem
    rw [if_neg hv.ne'] at hhole
    -- the hole reaches the end, so its region is the last
    have hrTop : r = TOP := (h.hole _ hmem).tail.resolve_right (not_lt.mpr hhole.1)
    subst hrTop
    obtain ⟨m, hg, h', hsize, -, hw⟩ := @growHole_extend A oldEnd _ _ _ _ _ hend hgrown (by omega)
      hmem hhole.2
    obtain rfl : (k.setEnd newEnd).retag m _ = k' := by simpa [hr] using hg.symm
    -- the holes are the same, and so is the highest of them
    have hne := List.ne_nil_of_mem hmem
    obtain ⟨-, r, hmem₁, hmax₁⟩ := hend.highest_mem hne
    obtain ⟨hne', r', hmem₂, hmax₂⟩ := h'.highest_mem hne
    have hsame : ((k.setEnd newEnd).retag m (k.setEnd newEnd).heap.index).highestHole =
        k.highestHole := Nat.le_antisymm (hmax₁ _ hmem₂) (hmax₂ _ hmem₁)
    rw [highestHole_setEnd, mem_setEnd] at hsize
    refine ⟨_, h', rfl, hne', ?_, hend.untouched hmem (hw.mono Set.subset_union_right)⟩
    rw [highestSize, if_neg hv.ne', highestSize, if_neg hne', hsame, mem_retag, hsize]

lemma HeapInv.holeAt {iter : ℕ} (h : HeapInv A holes blocks k) (hlt : iter < k.heap.index.size)
    (hne : k.holeAt iter ≠ 0) :
    ∃ hi : iter < holes.length, holes[iter] = (k.holeAt iter, holes[iter].2) := by
  have hslot : (holes.map Prod.fst)[iter]?.getD 0 = k.holeAt iter := by
    have := h.listed.size_le
    rw [Kernel.holeAt, h.listed.array, h.listed.slots iter (by omega)]
  obtain ⟨hi, hp⟩ := Listed.getElem hslot hne
  rw [List.length_map] at hi
  rw [List.getElem_map] at hp
  exact ⟨hi, Prod.ext hp rfl⟩

lemma alloc_placed {fuel iter q d room : ℕ} (h : HeapInv A holes blocks k)
    (hsize : size + 20 < 2 ^ 32)
    (hfirst : findHoleFitFirst (size + 20) pageAlign k.heap k.mem = some (some iter))
    (hlt : iter < k.heap.index.size) (hq : q = k.holeAt iter) (hd : d = alignOffset pageAlign q)
    (hroom : room = blockRoom (headerSize k.mem q) (size + 20))
    (hok : PlaceOk q (headerSize k.mem q) k.heap.endAddress k.heap.index.cur (size + 20)
      pageAlign) :
    ∃ holes' m a, alloc (fuel + 1) size pageAlign k = some (q + d + 12, k.retag m a) ∧
      HeapInv A holes' ((q + d + 12, q + d + 12 + size) :: blocks) (k.retag m a) ∧
      (size + 20 ≤ room ∧ (restSize d (headerSize k.mem q) room = 0 ∨
        20 ≤ restSize d (headerSize k.mem q) room → headerSize m (q + d) = room)) ∧
      Untouched blocks k.mem m := by
  obtain ⟨hi, hp'⟩ := h.holeAt hlt (hq ▸ hok.listed)
  rw [← hq] at hp'
  obtain ⟨m, a, hpl, h', hsizes, -, -, -, hw, -⟩ := placeBlock_spec h hi hp' rfl hd hroom rfl
    hok
  exact ⟨_, m, a, (alloc_place hsize hfirst).trans hpl, h', hsizes,
    h.untouched (hp' ▸ List.getElem_mem hi) hw⟩

/-- A call that no listed hole fits: what the heap has become when the call is made again. -/
structure Regrown (A fuel size : ℕ) (pageAlign : Bool) (blocks : List (ℕ × ℕ))
    (k k₀ k₂ : Kernel) : Prop where
  miss : findHoleFitFirst (size + 20) pageAlign k.heap k.mem = some none
  pages : PagesOk (alloc fuel) (OkAt fuel) (roundSize (add32 k.heapLen (size + 20))) (2 ^ 20)
    k.heapLen k
  expand : expandPages (mallocAp (alloc fuel)) (roundSize (add32 k.heapLen (size + 20))) (2 ^ 20)
    k.heapLen k = some k₀
  grow : (k₀.setEnd (k.heap.startAddress + roundSize (add32 k.heapLen (size + 20)))).growHole
    k.heap.endAddress k.heapLen = some k₂
  growOk : GrowOk k.heap.endAddress (size + 20)
    (k.heap.startAddress + roundSize (add32 k.heapLen (size + 20))) k₀
  again : OkAt fuel size pageAlign k₂
  expanded : ∃ holes₀, HeapInv A holes₀ blocks k₀
  grown : ∃ holes₂, HeapInv A holes₂ blocks k₂
  le : k.heap.endAddress ≤ k₀.heap.endAddress
  endAddress : k₂.heap.endAddress =
    k.heap.startAddress + roundSize (add32 k.heapLen (size + 20))

lemma alloc_regrows {fuel : ℕ} {k₀ : Kernel} (hinner : Sound A (alloc fuel) (OkAt fuel))
    (h : HeapInv A holes blocks k) (hok : OkAt (fuel + 1) size pageAlign k)
    (hfirst : findHoleFitFirst (size + 20) pageAlign k.heap k.mem = some none)
    (hexp : expandPages (mallocAp (alloc fuel)) (roundSize (add32 k.heapLen (size + 20))) (2 ^ 20)
      k.heapLen k = some k₀) :
    ∃ k₂ extra, Regrown A fuel size pageAlign (extra ++ blocks) k k₀ k₂ ∧
      alloc (fuel + 1) size pageAlign k = alloc fuel size pageAlign k₂ ∧
      k₂.highestHole ≠ 0 ∧ k₀.highestSize + (size + 20) ≤ k₂.highestSize := by
  obtain ⟨hsize, -, hgrow⟩ := hok
  obtain ⟨hpages, hnext⟩ := hgrow hfirst
  obtain ⟨holes₀, extra₀, h₀, hle₀⟩ := expandPages_sound hinner _ _ _ _ _ _ h hpages hexp
  obtain ⟨hgok, hnext⟩ := hnext k₀ hexp
  have hstart : k₀.heap.startAddress = k.heap.startAddress := h₀.start.trans h.start.symm
  obtain ⟨hle, hlt⟩ := hgok.noWrap
  set newSize := roundSize (add32 k.heapLen (size + 20)) with hnewSize
  have hset : add32 k₀.heap.startAddress newSize = k.heap.startAddress + newSize := by
    rw [hstart, add32_eq hlt]
  obtain ⟨k₂, hgr⟩ := (h₀.setEnd hgok.forward hlt).growHole_some k.heap.endAddress k.heapLen
  have hgr' := hgr
  rw [show k.heapLen = sub32 k.heap.endAddress k₀.heap.startAddress by rw [hstart]; rfl] at hgr'
  obtain ⟨holes₂, h₂, hend₂, hne₂, hbig, -⟩ := growHole_sound h₀ hgok (by omega) hgr'
  have hexpand : k.expand (mallocAp (alloc fuel)) (add32 k.heapLen (size + 20)) =
      some (k₀.setEnd (k.heap.startAddress + newSize)) := by
    rw [← hset]
    exact Option.bind_eq_some_iff.mpr ⟨k₀, hexp, rfl⟩
  refine ⟨k₂, extra₀, ⟨hfirst, hpages, hexp, hgr, hgok, hnext k₂ hgr, ⟨holes₀, h₀⟩, ⟨holes₂, h₂⟩,
    hle₀, hend₂⟩, ?_, hne₂, by omega⟩
  rw [alloc_grow hsize hfirst, hexpand, Option.bind_some, hgr, Option.bind_some]

/-- **The two ways of a call**: the block goes into a listed hole, or the heap grows and the call
is made again. -/
lemma alloc_cases {fuel : ℕ} (hinner : Sound A (alloc fuel) (OkAt fuel))
    (h : HeapInv A holes blocks k) (hok : OkAt (fuel + 1) size pageAlign k)
    (hr : alloc (fuel + 1) size pageAlign k = some (p, k')) :
    (∃ q holes' m a, p = q + alignOffset pageAlign q + 12 ∧ k' = k.retag m a ∧
      HeapInv A holes' ((p, p + size) :: blocks) k' ∧ Untouched blocks k.mem k'.mem) ∨
    ∃ k₀ k₂ extra, Regrown A fuel size pageAlign (extra ++ blocks) k k₀ k₂ ∧
      alloc fuel size pageAlign k₂ = some (p, k') := by
  obtain ⟨found, hfound, hspec⟩ := @Listed.findHole_spec _ _ _ _ h.listed (size + 20) pageAlign
    k.heap.index.size 0 (by omega)
  have hfirst : findHoleFitFirst (size + 20) pageAlign k.heap k.mem = some found := hfound
  cases found with
  | some iter =>
    left
    obtain ⟨holes', m, a, hpl, h', -, hu⟩ := @alloc_placed A size pageAlign holes blocks k fuel iter _ _ _
      h hok.1 hfirst hspec.2.1 rfl rfl rfl (hok.2.1 iter hfirst)
    rw [hpl] at hr
    obtain ⟨rfl, rfl⟩ := Prod.mk.inj (Option.some.inj hr)
    exact ⟨_, holes', m, a, rfl, rfl, h', hu⟩
  | none =>
    right
    obtain ⟨k₁, hexp, -⟩ := Option.bind_eq_some_iff.mp ((alloc_grow hok.1 hfirst).symm.trans hr)
    obtain ⟨k₀, hexp, -⟩ := Option.bind_eq_some_iff.mp hexp
    obtain ⟨k₂, extra, hg, heq, -⟩ := alloc_regrows hinner h hok hfirst hexp
    exact ⟨k₀, k₂, extra, hg, heq ▸ hr⟩

theorem alloc_sound (A : ℕ) : ∀ fuel, Sound A (alloc fuel) (OkAt fuel) := by
  intro fuel
  induction fuel with
  | zero => exact fun _ _ _ _ _ _ _ _ _ hr => by simp [alloc] at hr
  | succ fuel ih =>
    intro size pageAlign k holes blocks p k' h hok hr
    rcases alloc_cases ih h hok hr with
      ⟨q, holes', m, a, -, rfl, h', -⟩ | ⟨k₀, k₂, extra, hg, hr⟩
    · exact ⟨holes', [], h', le_rfl⟩
    · obtain ⟨holes₂, h₂⟩ := hg.grown
      obtain ⟨holes₃, extra₃, h₃, hle₃⟩ := ih _ _ _ _ _ _ _ h₂ hg.again hr
      refine ⟨holes₃, extra₃ ++ extra, by simpa using h₃, ?_⟩
      have hforward := hg.growOk.forward
      have hle := hg.le
      have hend := hg.endAddress
      omega

end Sound

/-! ### Runs -/

/-- A call of `alloc` that has returned. -/
structure Call where
  size : ℕ
  pageAlign : Bool
  ptr : ℕ
  deriving DecidableEq

/-- The bytes that the caller owns. -/
def Call.payload (c : Call) : ℕ × ℕ := (c.ptr, c.ptr + c.size)

/-- `alloc` returns. -/
def AllocStep (k : Kernel) (c : Call) (k' : Kernel) : Prop :=
  ∃ fuel, alloc fuel c.size c.pageAlign k = some (c.ptr, k')

/-- The payloads are apart and inside the heap. -/
def PayloadsApart (calls : List Call) (k : Kernel) : Prop :=
  calls.Pairwise (fun c c' => Apart c.payload c'.payload) ∧
    ∀ c ∈ calls, k.heap.startAddress ≤ c.ptr ∧ c.ptr + c.size ≤ k.heap.endAddress

section Runs

variable {start end_ max : ℕ} {supervisor readonly : Bool} {k k₀ : Kernel} {calls : List Call}

lemma heapInv_createHeap (h0 : 0 < start) (halign : start % 0x1000 = 0)
    (htop : start + 4 * HEAP_INDEX_SIZE + 12 ≤ 2 ^ 32) (hend : end_ < 2 ^ 32) :
    HeapInv start [(start + 4 * HEAP_INDEX_SIZE, TOP)] []
        (createHeap start end_ max supervisor readonly k₀) ∧
      headerSize (createHeap start end_ max supervisor readonly k₀).mem
        (start + 4 * HEAP_INDEX_SIZE) = sub32 end_ (start + 4 * HEAP_INDEX_SIZE) ∧
      headerIsHole (createHeap start end_ max supervisor readonly k₀).mem
        (start + 4 * HEAP_INDEX_SIZE) = 1 ∧
      (createHeap start end_ max supervisor readonly k₀).heap.endAddress = end_ ∧
      (createHeap start end_ max supervisor readonly k₀).heap.index.cur = 1 ∧
      Writes k₀.mem (createHeap start end_ max supervisor readonly k₀).mem (Set.Ici start) := by
  have hN : HEAP_INDEX_SIZE = 0x20000 := rfl
  have hT : TOP = 2 ^ 33 := rfl
  have hS : add32 start (4 * HEAP_INDEX_SIZE) = start + 4 * HEAP_INDEX_SIZE := add32_eq (by omega)
  set S := start + 4 * HEAP_INDEX_SIZE with hSdef
  have hl := Listed.place k₀.mem h0 (show start + 4 * HEAP_INDEX_SIZE ≤ 2 ^ 32 by omega)
  set a₀ := (placeSortedArray start HEAP_INDEX_SIZE headerCmpLess k₀.mem).1 with ha₀
  set m₀ := (placeSortedArray start HEAP_INDEX_SIZE headerCmpLess k₀.mem).2 with hm₀
  set m₁ := writeHeader S 1 (sub32 end_ S) m₀ with hm₁
  have hw₁ : Writes m₀ m₁ (Set.Ico S (S + 12)) :=
    writes_writeHeader le_rfl le_rfl (by omega)
  have hl₁ : Listed start a₀ m₁ [] := hl.frame hw₁ fun x hx => Or.inr (by
    have := hx.1
    omega)
  have hcur : a₀.cur + 1 < HEAP_INDEX_SIZE := by
    show 0 + 1 < HEAP_INDEX_SIZE
    omega
  obtain ⟨hl₂, hw₂⟩ := hl₁.insert hcur (show S < 2 ^ 32 by omega)
  have hsize : headerSize (insertSortedArray S a₀ m₁).2 S = sub32 end_ S := by
    rw [headerSize_of_writes hw₂ (by omega) fun x hx => Or.inl ?_]
    · exact headerSize_writeHeader (by omega) (sub32_lt _ _)
    · have := hx.2
      omega
  have hisHole : headerIsHole (insertSortedArray S a₀ m₁).2 S = 1 := by
    have hmod : S % 2 ^ 32 = S := Nat.mod_eq_of_lt (by omega)
    unfold headerIsHole
    rw [hw₂.read8 fun hx => by rw [hmod] at hx; exact absurd hx.2 (lt_irrefl _)]
    simp [hm₁, writeHeader, read8_write8]
  have hcreate : createHeap start end_ max supervisor readonly k₀ =
      { k₀ with
        mem := (insertSortedArray S a₀ m₁).2
        heap :=
          { index := (insertSortedArray S a₀ m₁).1, startAddress := S, endAddress := end_
            maxAddress := max, supervisor := supervisor, readonly := readonly } } := by
    unfold createHeap
    simp only [hS, maskTest_even (show S % 2 = 0 by omega), Bool.false_eq_true, if_false]
    rfl
  rw [hcreate]
  refine ⟨⟨hl₂, rfl, hend, by simp, fun x hx => ?_, by simp, by simp⟩, hsize, hisHole, rfl, rfl, ?_⟩
  · obtain rfl : x = (S, TOP) := by simpa using hx
    refine ⟨le_rfl, by show S + 12 ≤ TOP; omega, by show S + 12 ≤ 2 ^ 32; omega, ?_, Or.inl rfl⟩
    show S + headerSize (insertSortedArray S a₀ m₁).2 S ≤ TOP
    have := headerSize_lt (insertSortedArray S a₀ m₁).2 S
    omega
  · have hw₀ : Writes k₀.mem m₀ (Set.Ici start) := Writes.fill (by
      rw [Listed.memsetLen_index]
      omega)
    refine (hw₀.trans (hw₁.mono ?_)).trans (hw₂.mono Set.Ico_subset_Ici_self)
    exact Set.Ico_subset_Ici_self.trans (Set.Ici_subset_Ici.mpr (by omega))

/-- A heap at address 0 has no index, and `find_sorted_array` panics. -/
lemma alloc_null {fuel size : ℕ} {pageAlign : Bool} (h : k.heap.index.array = 0)
    (hsize : 0 < k.heap.index.size) : alloc fuel size pageAlign k = none := by
  cases fuel with
  | zero => rfl
  | succ fuel =>
    obtain ⟨n, hn⟩ : ∃ n, k.heap.index.size = n + 1 := ⟨k.heap.index.size - 1, by omega⟩
    unfold alloc findHoleFitFirst
    rw [hn]
    simp [findHole, findSortedArray, h]

lemma array_createHeap :
    (createHeap start end_ max supervisor readonly k₀).heap.index.array = start := by
  simp only [createHeap, insertHole, insertSortedArray]
  split <;> rfl

lemma size_createHeap :
    (createHeap start end_ max supervisor readonly k₀).heap.index.size = HEAP_INDEX_SIZE := by
  simp only [createHeap, insertHole, insertSortedArray]
  split <;> rfl

/-- The invariant of a run: the payloads, the last one first, are among the blocks. -/
lemma run_heapInv {A : ℕ} {holes : List (ℕ × ℕ)} (h : HeapInv A holes [] k₀)
    (hr : Run (fun k c k' => AllocStep k c k' ∧ AllocOk c.size c.pageAlign k) k₀ calls k) :
    ∃ holes blocks, HeapInv A holes blocks k ∧
      (calls.map Call.payload).reverse.Sublist blocks := by
  refine hr.inv (I := fun calls k => ∃ holes blocks, HeapInv A holes blocks k ∧
    (calls.map Call.payload).reverse.Sublist blocks) ⟨holes, [], h, by simp⟩ ?_
  rintro calls k c k' ⟨holes, blocks, h, hsub⟩ ⟨⟨fuel, hc⟩, hok⟩
  obtain ⟨holes', extra, h', -⟩ := alloc_sound A fuel _ _ _ _ _ _ _ h (hok fuel) hc
  refine ⟨holes', _, h', ?_⟩
  rw [List.map_append, List.reverse_append]
  exact List.Sublist.cons_cons c.payload (hsub.trans (List.sublist_append_right extra blocks))

/-- **Payloads are apart and inside the heap**, in every run of sound calls of `alloc` on a heap
made by `create_heap`. -/
theorem payloads_apart (halign : start % 0x1000 = 0)
    (htop : start + 4 * HEAP_INDEX_SIZE + 12 ≤ 2 ^ 32) (hend : end_ < 2 ^ 32)
    (hr : Run (fun k c k' => AllocStep k c k' ∧ AllocOk c.size c.pageAlign k)
      (createHeap start end_ max supervisor readonly k₀) calls k) : PayloadsApart calls k := by
  rcases Nat.eq_zero_or_pos start with rfl | h0
  · -- the index is at NULL, and no call returns
    obtain ⟨rfl, -⟩ := hr.inv (I := fun calls k => calls = [] ∧
        k = createHeap 0 end_ max supervisor readonly k₀) ⟨rfl, rfl⟩ (by
      rintro calls k c k' ⟨-, rfl⟩ ⟨⟨fuel, hc⟩, -⟩
      rw [alloc_null array_createHeap (size_createHeap ▸ by decide)] at hc
      simp at hc)
    exact ⟨List.Pairwise.nil, by simp⟩
  · obtain ⟨h, -⟩ := @heapInv_createHeap start end_ max supervisor readonly k₀ h0 halign htop hend
    obtain ⟨holes, blocks, h', hsub⟩ := run_heapInv h hr
    have hap := (List.pairwise_append.mp h'.apart).2.1.sublist hsub
    rw [List.pairwise_reverse, List.pairwise_map] at hap
    refine ⟨hap.imp fun h => h.symm, fun c hc => ?_⟩
    have hmem : c.payload ∈ blocks :=
      hsub.subset (List.mem_reverse.mpr (List.mem_map_of_mem hc))
    rw [h'.start]
    exact h'.block _ hmem

end Runs

/-- The heap of `init_paging`, in zeroed memory. -/
def zeroedHeap : Kernel := createHeap 0xC0000000 0xC0100000 0xCFFFF000 false false zeroedKernel

lemma allocOk_found {size iter : ℕ} {pageAlign : Bool} {k : Kernel} (hn : size + 20 < 2 ^ 32)
    (hfind : findHoleFitFirst (size + 20) pageAlign k.heap k.mem = some (some iter))
    (hok : PlaceOk (k.holeAt iter) (headerSize k.mem (k.holeAt iter)) k.heap.endAddress
      k.heap.index.cur (size + 20) pageAlign) : AllocOk size pageAlign k := by
  intro fuel
  cases fuel with
  | zero => trivial
  | succ fuel =>
    refine ⟨hn, fun iter' h => ?_, fun h => ?_⟩
    · obtain rfl : iter = iter' := by simpa [hfind] using h
      exact hok
    · simp [hfind] at h

theorem payloads_apart_two : ∃ k,
    Run (fun k c k' => AllocStep k c k' ∧ AllocOk c.size c.pageAlign k) zeroedHeap
      [⟨4096, true, 0xC0081000⟩, ⟨100, false, 0xC0082014⟩] k ∧
    PayloadsApart [⟨4096, true, 0xC0081000⟩, ⟨100, false, 0xC0082014⟩] k := by
  have hok₁ : AllocOk 4096 true zeroedHeap := by
    have hfind : findHoleFitFirst (4096 + 20) true zeroedHeap.heap zeroedHeap.mem =
        some (some 0) := by decide +kernel
    have hslot : zeroedHeap.holeAt 0 = 0xC0080000 := by decide +kernel
    have hsize : headerSize zeroedHeap.mem 0xC0080000 = 0x80000 := by decide +kernel
    have hcur : zeroedHeap.heap.index.cur = 1 := by decide +kernel
    have hend : zeroedHeap.heap.endAddress = 0xC0100000 := rfl
    refine allocOk_found (by decide) hfind ?_
    rw [hslot, hsize, hcur, hend]
    exact ⟨by decide, by decide, by decide, by decide, by decide, by decide⟩
  obtain ⟨⟨p, k₁⟩, hk₁, rfl, hfind, hslot, hsize, hcur, hend, hptr⟩ :
      ∃ r ∈ alloc 1 4096 true zeroedHeap, r.1 = 0xC0081000 ∧
        findHoleFitFirst (100 + 20) false r.2.heap r.2.mem = some (some 0) ∧
        r.2.holeAt 0 = 0xC0082008 ∧ headerSize r.2.mem 0xC0082008 = 0x7E004 ∧
        r.2.heap.index.cur = 2 ∧ r.2.heap.endAddress = 0xC0100000 ∧
        (alloc 1 100 false r.2).map Prod.fst = some 0xC0082014 := by decide +kernel
  have hok₂ : AllocOk 100 false k₁ := by
    refine allocOk_found (by decide) hfind ?_
    simp only at hslot hsize hcur hend
    rw [hslot, hsize, hcur, hend]
    exact ⟨by decide, by decide, by decide, by decide, by decide, by decide⟩
  obtain ⟨⟨p, k₂⟩, hk₂, rfl⟩ := Option.map_eq_some_iff.mp hptr
  have hr : Run (fun k c k' => AllocStep k c k' ∧ AllocOk c.size c.pageAlign k) zeroedHeap
      [⟨4096, true, 0xC0081000⟩, ⟨100, false, 0xC0082014⟩] k₂ :=
    (Run.single ⟨⟨1, hk₁⟩, hok₁⟩).snoc ⟨⟨1, hk₂⟩, hok₂⟩
  exact ⟨k₂, hr, payloads_apart (by decide) (by decide) (by decide) hr⟩

/-- A page-aligned block that fits the hole only before it is moved up: it ends behind the heap. -/
theorem payloads_apart_fails : ∃ k, AllocStep zeroedHeap ⟨0x7FFE0, true, 0xC0081000⟩ k ∧
    ¬ PayloadsApart [⟨0x7FFE0, true, 0xC0081000⟩] k := by
  have hptr : (alloc 1 0x7FFE0 true zeroedHeap).map (fun r => (r.1, r.2.heap.endAddress)) =
      some (0xC0081000, 0xC0100000) := by decide +kernel
  obtain ⟨⟨p, k⟩, hk, he⟩ := Option.map_eq_some_iff.mp hptr
  obtain ⟨rfl, hend⟩ := Prod.mk.inj he
  refine ⟨k, ⟨1, hk⟩, fun h => ?_⟩
  have hin := (h.2 _ (List.mem_singleton.mpr rfl)).2
  simp only at hin hend
  omega

end OsImplement.Memory
