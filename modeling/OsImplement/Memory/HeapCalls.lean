import OsImplement.Memory.HeapPages

/-!
Calls of `alloc` on a heap whose holes are known.

The search takes the first hole that is listed, when the block fits there; or no slot fits, and
then neither does NULL, with what the word at its place says. The rounds of `expand` that find
their tables only take frames.
-/

namespace OsImplement.Memory

open Lib.Word Lib.Bytes

section Search

variable {A p r s d room t n size fuel : ℕ} {pageAlign : Bool} {holes blocks : List (ℕ × ℕ)}
  {k : Kernel} {m : Mem}

/-! ### The search -/

lemma holeFits_even (hp : p % 2 = 0) : holeFits n pageAlign m p = true ↔ n ≤ headerSize m p := by
  have hmask : maskTest (add32 p 12) = false := maskTest_even (by unfold add32; omega)
  have hsub : sub32 (headerSize m p) 0 = headerSize m p :=
    sub32_eq (Nat.zero_le _) (headerSize_lt m p)
  unfold holeFits findOffset
  rw [hmask]
  simp [hsub]

lemma findHole_first (h : HeapInv A ((p, r) :: holes) blocks k)
    (hfit : holeFits n pageAlign k.mem p = true) :
    findHoleFitFirst n pageAlign k.heap k.mem = some (some 0) := by
  have hlen := h.listed.length_lt
  obtain ⟨c, hc⟩ : ∃ c, k.heap.index.size = c + 1 := ⟨k.heap.index.size - 1, by omega⟩
  unfold findHoleFitFirst
  rw [hc, findHole, h.listed.find (by omega)]
  simp only [List.map_cons, List.getElem?_cons_zero, Option.getD_some, Option.bind_eq_bind,
    Option.bind_some, hfit, if_true]

lemma findHole_none (h : HeapInv A holes blocks k) (h0 : ¬ holeFits n pageAlign k.mem 0 = true)
    (hall : ∀ x ∈ holes, ¬ holeFits n pageAlign k.mem x.1 = true) :
    findHoleFitFirst n pageAlign k.heap k.mem = some none := by
  obtain ⟨found, hfound, hspec⟩ := @Listed.findHole_spec _ _ _ _ h.listed n pageAlign
    k.heap.index.size 0 (by omega)
  cases found with
  | none => exact hfound
  | some i =>
    obtain ⟨-, -, hfit⟩ := hspec
    by_cases hi : i < holes.length
    · rw [List.getElem?_map, List.getElem?_eq_getElem hi] at hfit
      exact absurd hfit (hall _ (List.getElem_mem hi))
    · rw [List.getElem?_eq_none (by simpa using hi)] at hfit
      exact absurd hfit h0

/-! ### A block in the first hole -/

theorem alloc_first (h : HeapInv A ((p, r) :: holes) blocks k) (hn : size + 20 < 2 ^ 32)
    (hs : s = headerSize k.mem p) (hd : d = alignOffset pageAlign p)
    (hroom : room = blockRoom s (size + 20)) (ht : t = restSize d s room)
    (hfit : holeFits (size + 20) pageAlign k.mem p = true)
    (hok : PlaceOk p s k.heap.endAddress k.heap.index.cur (size + 20) pageAlign) :
    ∃ m a, Kernel.alloc (fuel + 1) size pageAlign k = some (p + d + 12, k.retag m a) ∧
      HeapInv A (placedHoles ((p, r) :: holes) 0 p r d room t)
        ((p + d + 12, p + d + 12 + size) :: blocks) (k.retag m a) ∧
      (t ≠ 0 → headerSize m (p + d + room) = t) ∧ (d ≠ 0 → headerSize m p = d - 12) ∧
      (∀ h ∈ (p, r) :: holes, h.1 ≠ p → headerSize m h.1 = headerSize k.mem h.1) ∧
      Writes k.mem m (Set.Ici A) ∧ a.cur ≤ k.heap.index.cur + 1 := by
  obtain ⟨m, a, hpl, h', -, hrest, hlead, hother, hw, hcur⟩ :=
    placeBlock_spec h (show 0 < ((p, r) :: holes).length by simp) rfl hs hd hroom ht hok
  have hlo := (h.hole (p, r) (by simp)).lo
  refine ⟨m, a, ?_, h', hrest, hlead, hother, hw.mono (Set.union_subset Set.Ico_subset_Ici_self
    (Set.Ico_subset_Ici_self.trans (Set.Ici_subset_Ici.mpr (by omega)))), hcur⟩
  rw [Kernel.alloc_place hn (findHole_first h hfit)]
  exact hpl

lemma holeAt_first (h : HeapInv A ((p, r) :: holes) blocks k) : k.holeAt 0 = p := by
  rw [Kernel.holeAt, h.listed.array, h.listed.slots 0 (by decide)]
  rfl

lemma allocOk_first (h : HeapInv A ((p, r) :: holes) blocks k) (hn : size + 20 < 2 ^ 32)
    (hfit : holeFits (size + 20) pageAlign k.mem p = true)
    (hok : PlaceOk p (headerSize k.mem p) k.heap.endAddress k.heap.index.cur (size + 20)
      pageAlign) : k.AllocOk size pageAlign :=
  allocOk_found hn (findHole_first h hfit) (by rwa [holeAt_first h])

lemma grows_first {G : ℕ → ℕ → Kernel → Prop} (h : HeapInv A ((p, r) :: holes) blocks k)
    (hfit : holeFits (size + 20) pageAlign k.mem p = true) : k.Grows G size pageAlign := by
  intro fuel
  cases fuel with
  | zero => trivial
  | succ fuel =>
    intro hnone
    simp [findHole_first h hfit] at hnone

/-! ### The last hole -/

/-- The hole that is listed first is the last one of the heap, which ends at `e`: it has `s` bytes,
and at most `n` holes have been inserted so far. -/
structure LastHole (A p s n e : ℕ) (k : Kernel) : Prop where
  heap : ∃ holes blocks, HeapInv A ((p, TOP) :: holes) blocks k
  size : headerSize k.mem p = s
  used : k.heap.index.cur ≤ n
  endAddress : k.heap.endAddress = e

lemma PlaceOk.used {end_ n' : ℕ} (h : PlaceOk p s end_ n size pageAlign) (hle : n' ≤ n) :
    PlaceOk p s end_ n' size pageAlign :=
  ⟨h.listed, h.noWrap, h.fits, h.inside, h.front, h.back.imp id fun hb => ⟨by omega, hb.2⟩⟩

lemma LastHole.congr {e : ℕ} {k' : Kernel} (h : LastHole A p s n e k) (hm : k'.mem = k.mem)
    (hh : k'.heap = k.heap) : LastHole A p s n e k' := by
  obtain ⟨holes, blocks, hheap⟩ := h.heap
  exact ⟨⟨holes, blocks, hheap.congr hm hh⟩, by rw [hm]; exact h.size, by rw [hh]; exact h.used,
    by rw [hh]; exact h.endAddress⟩

theorem LastHole.alloc {e : ℕ} (size : ℕ) (pageAlign : Bool) (d room t : ℕ)
    (h : LastHole A p s n e k) (hp : p % 2 = 0) (hn : size + 20 < 2 ^ 32)
    (hfit : size + 20 ≤ s) (hd : d = alignOffset pageAlign p) (hroom : room = blockRoom s (size + 20))
    (ht : t = restSize d s room) (ht0 : t ≠ 0) (hok : PlaceOk p s e n (size + 20) pageAlign) :
    ∃ m a, (∀ fuel, Kernel.alloc (fuel + 1) size pageAlign k = some (p + d + 12, k.retag m a)) ∧
      LastHole A (p + d + room) t (n + 1) e (k.retag m a) ∧ k.AllocOk size pageAlign := by
  obtain ⟨holes, blocks, hheap⟩ := h.heap
  have hfits : holeFits (size + 20) pageAlign k.mem p = true := by
    rw [holeFits_even hp, h.size]
    exact hfit
  have hplace : PlaceOk p s k.heap.endAddress k.heap.index.cur (size + 20) pageAlign := by
    rw [h.endAddress]
    exact hok.used h.used
  obtain ⟨m, a, hal, h', hrest, -, -, -, hcur⟩ := @alloc_first _ _ _ _ d room t _ 0 _ _ _ _ hheap hn
    h.size.symm hd hroom ht hfits hplace
  refine ⟨m, a, fun fuel => ?_, ⟨?_, hrest ht0, hcur.trans (Nat.add_le_add_right h.used 1),
    h.endAddress⟩, allocOk_first hheap hn hfits (by rw [h.size]; exact hplace)⟩
  · rw [← hal, Kernel.alloc_place hn (findHole_first hheap hfits),
      Kernel.alloc_place hn (findHole_first hheap hfits)]
  · unfold placedHoles at h'
    rw [if_neg ht0, List.singleton_append] at h'
    exact ⟨_, _, h'⟩

/-! ### Growth -/

lemma highestHole_eq (h : HeapInv A holes blocks k) (hp : (p, r) ∈ holes)
    (hmax : ∀ x ∈ holes, x.1 ≤ p) : k.highestHole = p := by
  rcases h.highest with ⟨rfl, -⟩ | ⟨_, _, -, ⟨r', hmem⟩, hle, -⟩
  · simp at hp
  · exact le_antisymm (hmax _ hmem) (hle _ hp)

theorem growHole_last {newSize g : ℕ} {k₀ : Kernel}
    (hstart : k.heap.startAddress = A + 4 * HEAP_INDEX_SIZE) (hg : newSize = k.heapLen + g)
    (h₀ : HeapInv A holes blocks k₀) (h20 : 20 ≤ g)
    (hend : k₀.heap.endAddress ≤ k.heap.startAddress + newSize)
    (hlt : k.heap.startAddress + newSize < 2 ^ 32) (hp : (p, TOP) ∈ holes)
    (hmax : ∀ x ∈ holes, x.1 ≤ p) (hs : s = headerSize k₀.mem p) (hwrap : p + s + g < 2 ^ 32) :
    ∃ m, (k₀.setEnd (k.heap.startAddress + newSize)).growHole k.heap.endAddress k.heapLen =
        some ((k₀.setEnd (k.heap.startAddress + newSize)).retag m k₀.heap.index) ∧
      HeapInv A holes blocks
        ((k₀.setEnd (k.heap.startAddress + newSize)).retag m k₀.heap.index) ∧
      headerSize m p = s + g ∧
      (∀ x ∈ holes, x.1 ≠ p → headerSize m x.1 = headerSize k₀.mem x.1) ∧
      Writes k₀.mem m (Set.Ici A) := by
  have hstart₀ : k₀.heap.startAddress = k.heap.startAddress := h₀.start.trans hstart.symm
  have hgrown := h₀.setEnd hend hlt
  have hhigh : (k₀.setEnd (k.heap.startAddress + newSize)).highestHole = p :=
    highestHole_eq hgrown hp hmax
  have hsub : sub32 (k₀.setEnd (k.heap.startAddress + newSize)).heapLen k.heapLen = g := by
    show sub32 (sub32 (k.heap.startAddress + newSize) k₀.heap.startAddress) k.heapLen = g
    have hsub : sub32 (k.heap.startAddress + newSize) k.heap.startAddress = newSize := by
      rw [sub32_eq (by omega) (by omega), Nat.add_sub_cancel_left]
    rw [hstart₀, hsub, sub32_eq (by omega) (by omega)]
    omega
  obtain ⟨m, hgr, h₂, hsize, hother, hw⟩ := @growHole_extend A k.heap.endAddress k.heapLen g holes
    blocks _ hgrown hsub h20 (by rw [hhigh]; exact hp)
    (by rw [hhigh, Kernel.mem_setEnd, ← hs]; exact hwrap)
  rw [hhigh, Kernel.mem_setEnd, ← hs] at hsize
  rw [hhigh] at hother hw
  have hlo := (h₀.hole _ hp).lo
  exact ⟨m, hgr, h₂, hsize, hother, hw.mono (Set.Ico_subset_Ici_self.trans
    (Set.Ici_subset_Ici.mpr (by omega)))⟩

theorem alloc_extend {newSize g : ℕ} {k₀ : Kernel} (hn : size + 20 < 2 ^ 32)
    (hmiss : findHoleFitFirst (size + 20) pageAlign k.heap k.mem = some none)
    (hstart : k.heap.startAddress = A + 4 * HEAP_INDEX_SIZE)
    (hnew : Kernel.roundSize (add32 k.heapLen (size + 20)) = newSize) (hg : newSize = k.heapLen + g)
    (hexp : Kernel.expandPages (Kernel.mallocAp (Kernel.alloc fuel)) newSize (2 ^ 20) k.heapLen k =
      some k₀)
    (h₀ : HeapInv A holes blocks k₀) (h20 : 20 ≤ g)
    (hend : k₀.heap.endAddress ≤ k.heap.startAddress + newSize)
    (hlt : k.heap.startAddress + newSize < 2 ^ 32) (hp : (p, TOP) ∈ holes)
    (hmax : ∀ x ∈ holes, x.1 ≤ p) (hs : s = headerSize k₀.mem p) (hwrap : p + s + g < 2 ^ 32) :
    ∃ m, Kernel.alloc (fuel + 1) size pageAlign k = Kernel.alloc fuel size pageAlign
        ((k₀.setEnd (k.heap.startAddress + newSize)).retag m k₀.heap.index) ∧
      HeapInv A holes blocks
        ((k₀.setEnd (k.heap.startAddress + newSize)).retag m k₀.heap.index) ∧
      headerSize m p = s + g ∧
      (∀ x ∈ holes, x.1 ≠ p → headerSize m x.1 = headerSize k₀.mem x.1) ∧
      Writes k₀.mem m (Set.Ici A) := by
  obtain ⟨m, hgr, h₂⟩ := growHole_last hstart hg h₀ h20 hend hlt hp hmax hs hwrap
  have hstart₀ : k₀.heap.startAddress = k.heap.startAddress := h₀.start.trans hstart.symm
  have hexpand : k.expand (Kernel.mallocAp (Kernel.alloc fuel)) (add32 k.heapLen (size + 20)) =
      some (k₀.setEnd (k.heap.startAddress + newSize)) := by
    rw [← add32_eq hlt, ← hstart₀, ← hnew]
    exact Option.bind_eq_some_iff.mpr ⟨k₀, hnew ▸ hexp, rfl⟩
  refine ⟨m, ?_, h₂⟩
  rw [Kernel.alloc_grow hn hmiss, hexpand, Option.bind_some, hgr, Option.bind_some]

end Search

namespace Kernel

variable {mallocAp : MallocAp} {newSize : ℕ}

lemma expandPages_skip (n : ℕ) (htop : newSize + 0x1000 ≤ 2 ^ 32) : ∀ (c i : ℕ) (k : Kernel),
    (∀ j < c, i + 0x1000 * j < newSize ∧ k.tableOf k.vmPageDir
      (add32 k.heap.startAddress (i + 0x1000 * j) / 0x1000 / 1024) ≠ 0) →
    ∃ k', OnlyFrames k k' ∧ expandPages mallocAp newSize (n + c) i k =
      expandPages mallocAp newSize n (i + 0x1000 * c) k' := by
  intro c
  induction c with
  | zero => exact fun i k _ => ⟨k, .refl k, rfl⟩
  | succ c ih =>
    intro i k h
    obtain ⟨hi, hne⟩ := h 0 (by omega)
    rw [Nat.mul_zero, Nat.add_zero] at hi hne
    set page : PageRef := ⟨k.tableOf k.vmPageDir (add32 k.heap.startAddress i / 0x1000 / 1024),
      add32 k.heap.startAddress i / 0x1000 % 1024⟩ with hpage
    have hget : k.getPage mallocAp (add32 k.heap.startAddress i) true k.vmPageDir =
        some (some page, k) := by
      unfold getPage
      rw [show k.lookupPage (add32 k.heap.startAddress i) k.vmPageDir = some page from if_pos hne]
    have hframes := onlyFrames_allocFrame k page k.heap.supervisor (!k.heap.readonly)
    obtain ⟨k', hk', hr⟩ := ih (i + 0x1000)
      (k.allocFrame (some page) k.heap.supervisor (!k.heap.readonly)) fun j hj => by
        obtain ⟨h1, h2⟩ := h (j + 1) (by omega)
        rw [show i + 0x1000 * (j + 1) = i + 0x1000 + 0x1000 * j by omega] at h1 h2
        refine ⟨h1, ?_⟩
        rw [hframes.heap, hframes.vm, hframes.tableOf]
        exact h2
    refine ⟨k', hframes.trans hk', ?_⟩
    rw [← Nat.add_assoc, expandPages, if_pos hi, hget]
    simp only [Option.bind_eq_bind, Option.bind_some]
    rw [add32_eq (by omega), hr, show i + 0x1000 + 0x1000 * c = i + 0x1000 * (c + 1) by omega]

lemma expandPages_tabled {i : ℕ} {k : Kernel} (htop : newSize + 0x1000 ≤ 2 ^ 32)
    (ht : Tabled i newSize k) :
    ∃ k', expandPages mallocAp newSize (2 ^ 20) i k = some k' ∧ OnlyFrames k k' := by
  set c := (newSize - i + 0xFFF) / 0x1000 with hcdef
  obtain ⟨k', hf, hr⟩ := @expandPages_skip mallocAp newSize (2 ^ 20 - 1 - c + 1) htop c i k
    fun j hj => ⟨by omega, ht j (by omega)⟩
  refine ⟨k', ?_, hf⟩
  rw [show 2 ^ 20 - 1 - c + 1 + c = 2 ^ 20 by omega] at hr
  rw [hr, expandPages, if_neg (by omega)]

lemma expandPages_covered {i : ℕ} {k : Kernel} (htop : newSize + 0x1000 ≤ 2 ^ 32)
    (hc : Covered i newSize k) :
    ∃ k', expandPages mallocAp newSize (2 ^ 20) i k = some k' ∧ OnlyFrames k k' :=
  expandPages_tabled htop hc.tabled

lemma expandPages_table {n i t phy : ℕ} {k k₁ : Kernel} (htop : newSize + 0x1000 ≤ 2 ^ 32)
    (hi : i < newSize) (hlast : newSize ≤ i + 0x1000)
    (h0 : k.tableOf k.vmPageDir (add32 k.heap.startAddress i / 0x1000 / 1024) = 0)
    (hm : mallocAp 4096 k = some (t, phy, k₁)) :
    expandPages mallocAp newSize (n + 2) i k =
      some (((k₁.setSlot k.vmPageDir (add32 k.heap.startAddress i / 0x1000 / 1024) t
        (phy ||| 7)).setTable t fun _ => .zero).allocFrame
          (some ⟨t, add32 k.heap.startAddress i / 0x1000 % 1024⟩) k₁.heap.supervisor
            (!k₁.heap.readonly)) := by
  have hget : k.getPage mallocAp (add32 k.heap.startAddress i) true k.vmPageDir =
      some (some ⟨t, add32 k.heap.startAddress i / 0x1000 % 1024⟩,
        (k₁.setSlot k.vmPageDir (add32 k.heap.startAddress i / 0x1000 / 1024) t
          (phy ||| 7)).setTable t fun _ => .zero) := by
    unfold getPage
    rw [lookupPage_none h0]
    simp only [if_true, hm, Option.bind_eq_bind, Option.bind_some]
  rw [expandPages, if_pos hi, hget]
  simp only [Option.bind_eq_bind, Option.bind_some]
  rw [add32_eq (show i + 0x1000 < 2 ^ 32 by omega), expandPages, if_neg (by omega)]
  rfl

end Kernel

end OsImplement.Memory
