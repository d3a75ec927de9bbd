import OsImplement.Memory.Paging
import OsImplement.Lib.Loop

/-!
Cloning a directory, and whose a frame is.

A table of a directory is *shared* when `vm_page_dir` has the same pointer at the same index, and
*private* otherwise. `Isolated` says that no frame of a private table has a second holder. Cloning
a directory keeps it: shared tables are linked again, and every frame of a private table is copied
into a frame that no one held.

The allocator is a parameter. It hands out fresh memory, and it may grow the heap on the way: it
may then add tables to `vm_page_dir` and back empty entries of its tables with free frames.
-/

namespace OsImplement.Memory

open Lib.Loop

namespace Kernel

/-! ### Frames of directories -/

/-- `dir->page_table[i]->pages[j].frame` -/
def frameAt (k : Kernel) (d i j : ℕ) : ℕ := (k.tables (k.tableOf d i) j).frame

/-- Directory `d` has a table of its own at index `i`. -/
def PrivateSlot (k : Kernel) (d i : ℕ) : Prop :=
  i < 1024 ∧ k.tableOf d i ≠ 0 ∧ k.tableOf d i ≠ k.tableOf k.vmPageDir i

/-- A frame of a kernel table. -/
def KernelFrame (k : Kernel) (f : ℕ) : Prop :=
  ∃ i < 1024, ∃ j < 1024, k.tableOf k.vmPageDir i ≠ 0 ∧ k.frameAt k.vmPageDir i j = f

/-- **Isolation** of the directories `ds`: a private frame is held once, is marked, and is not
the kernel's. -/
structure Isolated (k : Kernel) (ds : List ℕ) : Prop where
  distinct : ∀ d ∈ ds, ∀ d' ∈ ds, ∀ i i', k.PrivateSlot d i → k.PrivateSlot d' i' →
    ∀ j < 1024, ∀ j' < 1024, k.frameAt d i j = k.frameAt d' i' j' → k.frameAt d i j ≠ 0 →
      d = d' ∧ i = i' ∧ j = j'
  marked : ∀ d ∈ ds, ∀ i, k.PrivateSlot d i → ∀ j < 1024, k.frameAt d i j ≠ 0 →
    Used k.map (k.frameAt d i j)
  apart : ∀ d ∈ ds, ∀ i, k.PrivateSlot d i → ∀ j < 1024, k.frameAt d i j ≠ 0 →
    ¬ k.KernelFrame (k.frameAt d i j)

/-! ### The allocator -/

/-- The allocator's own records are the same in both states. -/
def SameRecords (k k' : Kernel) : Prop :=
  k'.mem = k.mem ∧ k'.heap = k.heap ∧ k'.kheap = k.kheap ∧ k'.placementAddress = k.placementAddress

/-- What the allocator may do to the page structures while `L`, and then `L'`, is in use: nothing
but back new heap pages, and that only if `grows`. -/
structure Grown (grows : Prop) (L L' : Set ℕ) (k k' : Kernel) : Prop where
  live : L ⊆ L'
  vm : k'.vmPageDir = k.vmPageDir
  dirs : ∀ d ≠ k.vmPageDir, k'.dirs d = k.dirs d
  slots : ∀ i, k'.tableOf k.vmPageDir i = k.tableOf k.vmPageDir i ∨
    grows ∧ k.tableOf k.vmPageDir i = 0 ∧ k'.tableOf k.vmPageDir i ∈ L' \ L
  tables : ∀ t ∈ L, (∀ i < 1024, k.tableOf k.vmPageDir i ≠ t) → k'.tables t = k.tables t
  entries : ∀ t ∈ L, ∀ j, k'.tables t j = k.tables t j ∨ grows ∧ (k.tables t j).frame = 0
  frames : ∀ f, k'.KernelFrame f → f ≠ 0 → k.KernelFrame f ∨ ¬ Used k.map f ∧ Used k'.map f
  used : ∀ f, Used k.map f → Used k'.map f
  size : k'.map.framesBitmapSize = k.map.framesBitmapSize
  console : k.console <+: k'.console

/-- `_malloc_ap` returns fresh memory, where `live` is the memory in use. A table that it adds to
`vm_page_dir` on the way is not the memory that it returns. -/
structure FreshAlloc (grows : Prop) (live : Kernel → Set ℕ) (mallocAp : MallocAp) : Prop where
  records : ∀ k k', SameRecords k k' → live k' = live k
  fresh : ∀ {size k p phy k'}, mallocAp size k = some (p, phy, k') →
    p ≠ 0 ∧ p ∈ live k' \ live k ∧
      ∀ i, k'.tableOf k.vmPageDir i = p → k.tableOf k.vmPageDir i = p
  grown : ∀ {size k p phy k'}, mallocAp size k = some (p, phy, k') →
    Grown grows (live k) (live k') k k'

/-! ### The invariant -/

/-- The start of a run: isolated directories, `vm_page_dir` among them, with the kernel's frames
and frame 0 marked, and all directories and tables in memory in use. Where the allocator grows the
heap, it must not do so through a table that is private to another slot. -/
structure Inv (grows : Prop) (live : Kernel → Set ℕ) (k : Kernel) (ds : List ℕ) : Prop
    extends k.Isolated ds where
  kernelMarked : ∀ f, k.KernelFrame f → f ≠ 0 → Used k.map f
  zero : Used k.map 0
  size : 8 * k.map.framesBitmapSize ≤ 2 ^ 20
  vm : k.vmPageDir ∈ ds
  dirLive : ∀ d ∈ ds, d ∈ live k
  tableLive : ∀ d ∈ ds, ∀ i, k.tableOf d i ≠ 0 → k.tableOf d i ∈ live k
  own : grows → ∀ d ∈ ds, ∀ i, k.PrivateSlot d i → ∀ i' < 1024,
    k.tableOf k.vmPageDir i' ≠ k.tableOf d i

section Grown

variable {grows : Prop} {live : Kernel → Set ℕ} {k k' : Kernel} {ds : List ℕ} {L' : Set ℕ}
  {d i j : ℕ}

lemma Grown.tableOf {L : Set ℕ} (h : Grown grows L L' k k') (ht : k.tableOf d i ≠ 0) :
    k'.tableOf d i = k.tableOf d i := by
  by_cases hd : d = k.vmPageDir
  · subst hd
    rcases h.slots i with h | ⟨-, h, -⟩
    · exact h
    · exact absurd h ht
  · simp only [Kernel.tableOf, h.dirs d hd]

lemma Grown.tableOf_ne {L : Set ℕ} (h : Grown grows L L' k k') (hd : d ≠ k.vmPageDir) :
    k'.tableOf d i = k.tableOf d i := by
  simp only [Kernel.tableOf, h.dirs d hd]

variable (hi : k.Inv grows live ds) (h : Grown grows (live k) L' k k')

include hi h

lemma Grown.privateSlot (hd : d ∈ ds) : k'.PrivateSlot d i ↔ k.PrivateSlot d i := by
  unfold PrivateSlot
  rw [h.vm]
  by_cases hdv : d = k.vmPageDir
  · subst hdv
    simp
  · rw [h.tableOf_ne hdv]
    rcases h.slots i with hs | ⟨-, h0, hnew⟩
    · rw [hs]
    · rw [h0]
      refine and_congr_right fun _ => and_congr_right fun ht => iff_of_true ?_ ht
      intro he
      exact hnew.2 (he ▸ hi.tableLive d hd i ht)

lemma Grown.tables_private (hd : d ∈ ds) (hp : k.PrivateSlot d i) :
    k'.tables (k'.tableOf d i) = k.tables (k.tableOf d i) := by
  rw [h.tableOf hp.2.1]
  have hl := hi.tableLive d hd i hp.2.1
  by_cases hg : grows
  · exact h.tables _ hl (hi.own hg d hd i hp)
  · funext j
    rcases h.entries _ hl j with he | ⟨hg', -⟩
    · exact he
    · exact absurd hg' hg

lemma Grown.frameAt (hd : d ∈ ds) (hp : k.PrivateSlot d i) :
    k'.frameAt d i j = k.frameAt d i j := by
  rw [Kernel.frameAt, h.tables_private hi hd hp, Kernel.frameAt]

theorem Inv.grown (hL : L' = live k') : k'.Inv grows live ds where
  distinct d hd d' hd' i i' hp hp' j hj j' hj' he hne := by
    rw [h.privateSlot hi hd] at hp
    rw [h.privateSlot hi hd'] at hp'
    rw [h.frameAt hi hd hp] at he hne
    rw [h.frameAt hi hd' hp'] at he
    exact hi.distinct d hd d' hd' i i' hp hp' j hj j' hj' he hne
  marked d hd i hp j hj hne := by
    rw [h.privateSlot hi hd] at hp
    rw [h.frameAt hi hd hp] at hne ⊢
    exact h.used _ (hi.marked d hd i hp j hj hne)
  apart d hd i hp j hj hne hk := by
    rw [h.privateSlot hi hd] at hp
    rw [h.frameAt hi hd hp] at hne hk
    rcases h.frames _ hk hne with hk | ⟨hnew, -⟩
    · exact hi.apart d hd i hp j hj hne hk
    · exact hnew (hi.marked d hd i hp j hj hne)
  kernelMarked f hk hne := by
    rcases h.frames f hk hne with hk | ⟨-, hu⟩
    · exact h.used f (hi.kernelMarked f hk hne)
    · exact hu
  zero := h.used 0 hi.zero
  size := by rw [h.size]; exact hi.size
  vm := by rw [h.vm]; exact hi.vm
  dirLive d hd := hL ▸ h.live (hi.dirLive d hd)
  tableLive d hd i ht := by
    rw [← hL]
    by_cases hdv : d = k.vmPageDir
    · subst hdv
      rcases h.slots i with hs | ⟨-, -, hnew⟩
      · rw [hs] at ht ⊢
        exact h.live (hi.tableLive _ hd i ht)
      · exact hnew.1
    · rw [h.tableOf_ne hdv] at ht ⊢
      exact h.live (hi.tableLive d hd i ht)
  own hg d hd i hp i' hi' := by
    rw [h.privateSlot hi hd] at hp
    rw [h.vm, h.tableOf hp.2.1]
    rcases h.slots i' with hs | ⟨-, -, hnew⟩
    · rw [hs]
      exact hi.own hg d hd i hp i' hi'
    · intro he
      exact hnew.2 (he ▸ hi.tableLive d hd i hp.2.1)

end Grown

/-! ### One table -/

/-- From `k` to `k'` the page structures changed only in the table `t` and in the bitmap. -/
structure OnlyTable (t : ℕ) (k k' : Kernel) : Prop where
  records : SameRecords k k'
  dirs : k'.dirs = k.dirs
  vm : k'.vmPageDir = k.vmPageDir
  others : ∀ t' ≠ t, k'.tables t' = k.tables t'
  console : k.console <+: k'.console

lemma OnlyTable.refl (t : ℕ) (k : Kernel) : OnlyTable t k k :=
  ⟨⟨rfl, rfl, rfl, rfl⟩, rfl, rfl, fun _ _ => rfl, List.prefix_rfl⟩

lemma OnlyTable.trans {t : ℕ} {k k' k'' : Kernel} (h : OnlyTable t k k')
    (h' : OnlyTable t k' k'') : OnlyTable t k k'' where
  records := by
    obtain ⟨h1, h2, h3, h4⟩ := h.records
    obtain ⟨h1', h2', h3', h4'⟩ := h'.records
    exact ⟨h1'.trans h1, h2'.trans h2, h3'.trans h3, h4'.trans h4⟩
  dirs := h'.dirs.trans h.dirs
  vm := h'.vm.trans h.vm
  others t' ht := (h'.others t' ht).trans (h.others t' ht)
  console := h.console.trans h'.console

/-- A list that grew twice and ended where it started did not grow at all. -/
lemma prefix_squeeze {α : Type*} {a b c : List α} (hab : a <+: b) (hbc : b <+: c) (hca : c = a) :
    b = a ∧ c = b := by
  subst hca
  have := hbc.eq_of_length (Nat.le_antisymm hbc.length_le hab.length_le)
  exact ⟨this, this.symm⟩

section CloneTable

variable {src table i n : ℕ} {k : Kernel}

lemma onlyTable_cloneEntry (src table : ℕ) (k : Kernel) (i : ℕ) :
    OnlyTable table k (cloneEntry src table k i) := by
  unfold cloneEntry
  split
  · exact .refl _ _
  · refine ⟨⟨rfl, rfl, rfl, rfl⟩, rfl, rfl, fun t ht => ?_, console_allocFrame _ _ false false⟩
    simp only [copyPagePhy]
    rw [tables_setPage_of_ne ht, tables_allocFrame_of_ne ht]

lemma onlyTable_cloneEntries (src table n : ℕ) (k : Kernel) :
    OnlyTable table k ((List.range n).foldl (cloneEntry src table) k) := by
  induction n with
  | zero => exact .refl _ _
  | succ n ih =>
    rw [List.range_succ, List.foldl_append]
    exact ih.trans (onlyTable_cloneEntry _ _ _ _)

/-- One entry: it stays empty with the source's, or gets a free frame. -/
lemma cloneEntry_spec (hsize : 8 * k.map.framesBitmapSize ≤ 2 ^ 20)
    (h0 : (k.tables table i).frame = 0)
    (hc : (cloneEntry src table k i).console = k.console) :
    cloneEntry src table k i = k ∨
      ∃ f, ¬ Used k.map f ∧ (cloneEntry src table k i).map = setFrame (f * 0x1000) k.map ∧
        ((cloneEntry src table k i).tables table i).frame = f ∧
        ∀ j ≠ i, (cloneEntry src table k i).tables table j = k.tables table j := by
  by_cases hs : (k.tables src i).frame = 0
  · exact Or.inl (if_pos hs)
  · right
    have hc' : (k.allocFrame (some ⟨table, i⟩) false false).console = k.console := by
      rwa [cloneEntry, if_neg hs] at hc
    obtain ⟨hnew, -, hmap, hpage⟩ := allocFrame_spec (r := ⟨table, i⟩) hsize h0 hc'
    refine ⟨firstFrame k.map, hnew, ?_, ?_, fun j hj => ?_⟩
    · rw [cloneEntry, if_neg hs]
      exact hmap
    · simp only [cloneEntry, if_neg hs, copyPagePhy, setPage, Function.update_self, hpage]
    · simp only [cloneEntry, if_neg hs, copyPagePhy, setPage, Function.update_self,
        Function.update_of_ne hj]
      exact tables_allocFrame_ne fun h => hj h.2

/-- What the loop of `clone_table` has put into `table` after `n` rounds: distinct frames, free at
its start and marked now. -/
structure Filled (table n : ℕ) (k k' : Kernel) : Prop where
  used : ∀ f, Used k.map f → Used k'.map f
  size : k'.map.framesBitmapSize = k.map.framesBitmapSize
  rest : ∀ j, n ≤ j → (k'.tables table j).frame = 0
  fresh : ∀ j, (k'.tables table j).frame ≠ 0 →
    ¬ Used k.map (k'.tables table j).frame ∧ Used k'.map (k'.tables table j).frame
  inj : ∀ j j', (k'.tables table j).frame = (k'.tables table j').frame →
    (k'.tables table j).frame ≠ 0 → j = j'

lemma filled_cloneEntries (hsize : 8 * k.map.framesBitmapSize ≤ 2 ^ 20)
    (h0 : ∀ j, (k.tables table j).frame = 0)
    (hc : ((List.range n).foldl (cloneEntry src table) k).console = k.console) :
    Filled table n k ((List.range n).foldl (cloneEntry src table) k) := by
  induction n with
  | zero =>
    exact ⟨fun _ h => h, rfl, fun j _ => h0 j, fun j h => absurd (h0 j) h,
      fun j _ _ h => absurd (h0 j) h⟩
  | succ n ih =>
    rw [List.range_succ, List.foldl_append] at hc ⊢
    simp only [List.foldl_cons, List.foldl_nil] at hc ⊢
    obtain ⟨hc1, hc2⟩ := prefix_squeeze (onlyTable_cloneEntries src table n k).console
      (onlyTable_cloneEntry src table _ n).console hc
    have hf := ih hc1
    set kn := (List.range n).foldl (cloneEntry src table) k with hkn
    rcases cloneEntry_spec (by rw [hf.size]; exact hsize) (hf.rest n le_rfl) hc2 with
      hsame | ⟨f, hnew, hmap, hframe, hother⟩
    · rw [hsame]
      exact ⟨hf.used, hf.size, fun j hj => hf.rest j (by omega), hf.fresh, hf.inj⟩
    · have hold (j : ℕ) (hj : (kn.tables table j).frame ≠ 0) :
          (kn.tables table j).frame ≠ f := fun he => hnew (he ▸ (hf.fresh j hj).2)
      refine ⟨fun g hg => ?_, ?_, fun j hj => ?_, fun j hj => ?_, fun j j' he hj => ?_⟩
      · rw [hmap, used_setFrame]
        exact Or.inr (hf.used g hg)
      · rw [hmap, size_setFrame, hf.size]
      · rw [hother j (by omega)]
        exact hf.rest j (by omega)
      · rw [hmap, used_setFrame]
        by_cases hjn : j = n
        · subst hjn
          rw [hframe]
          exact ⟨fun hu => hnew (hf.used f hu), Or.inl rfl⟩
        · rw [hother j hjn] at hj ⊢
          exact ⟨(hf.fresh j hj).1, Or.inr (hf.fresh j hj).2⟩
      · by_cases hjn : j = n <;> by_cases hjn' : j' = n
        · rw [hjn, hjn']
        · subst hjn
          rw [hframe] at he hj
          rw [hother j' hjn'] at he
          exact absurd he.symm (hold j' (he ▸ hj))
        · subst hjn'
          rw [hframe, hother j hjn] at he
          rw [hother j hjn] at hj
          exact absurd he (hold j hj)
        · rw [hother j hjn, hother j' hjn'] at he
          rw [hother j hjn] at hj
          exact hf.inj j j' he hj

end CloneTable

/-! ### Linking a table -/

section Link

variable {grows : Prop} {live : Kernel → Set ℕ} {k : Kernel} {ds : List ℕ} {newdir i t phy : ℕ}

/-- Table `t` may become the table of a new slot: no one knows its frames. -/
structure Linkable (grows : Prop) (k : Kernel) (ds : List ℕ) (t : ℕ) : Prop where
  marked : ∀ j < 1024, (k.tables t j).frame ≠ 0 → Used k.map (k.tables t j).frame
  apart : ∀ j < 1024, (k.tables t j).frame ≠ 0 → ¬ k.KernelFrame (k.tables t j).frame
  alone : ∀ j < 1024, (k.tables t j).frame ≠ 0 → ∀ d ∈ ds, ∀ i, k.PrivateSlot d i →
    ∀ j' < 1024, k.frameAt d i j' ≠ (k.tables t j).frame
  inj : ∀ j < 1024, ∀ j' < 1024, (k.tables t j).frame = (k.tables t j').frame →
    (k.tables t j).frame ≠ 0 → j = j'
  own : grows → ∀ i < 1024, k.tableOf k.vmPageDir i ≠ t

/-- Linking a table into a directory other than the kernel's: a table that `vm_page_dir` has at
the same index, or one whose frames no one knows. -/
theorem Inv.link (hi : k.Inv grows live ds) (hd : newdir ≠ k.vmPageDir)
    (ht : t ∈ live k) (hl : t ≠ k.tableOf k.vmPageDir i → Linkable grows k ds t)
    (hlive : live (k.setSlot newdir i t phy) = live k) :
    (k.setSlot newdir i t phy).Inv grows live ds := by
  have hvm (i' : ℕ) : (k.setSlot newdir i t phy).tableOf k.vmPageDir i' =
      k.tableOf k.vmPageDir i' := by
    rw [tableOf_setSlot, if_neg fun h => hd h.1.symm]
  have hker (f : ℕ) : (k.setSlot newdir i t phy).KernelFrame f ↔ k.KernelFrame f := by
    simp only [KernelFrame, Kernel.frameAt, vmPageDir_setSlot, tables_setSlot, hvm]
  have hother {d' i' : ℕ} (hne : ¬ (d' = newdir ∧ i' = i)) :
      ((k.setSlot newdir i t phy).PrivateSlot d' i' ↔ k.PrivateSlot d' i') ∧
        ∀ j, (k.setSlot newdir i t phy).frameAt d' i' j = k.frameAt d' i' j := by
    have ht' : (k.setSlot newdir i t phy).tableOf d' i' = k.tableOf d' i' := by
      rw [tableOf_setSlot, if_neg hne]
    simp only [PrivateSlot, Kernel.frameAt, vmPageDir_setSlot, tables_setSlot, hvm, ht', implies_true,
      and_true]
  have hself (j : ℕ) : (k.setSlot newdir i t phy).frameAt newdir i j = (k.tables t j).frame := by
    rw [Kernel.frameAt, tableOf_setSlot, if_pos ⟨rfl, rfl⟩, tables_setSlot]
  have hlink (hp : (k.setSlot newdir i t phy).PrivateSlot newdir i) : Linkable grows k ds t := by
    refine hl ?_
    have := hp.2.2
    rwa [vmPageDir_setSlot, hvm, tableOf_setSlot, if_pos ⟨rfl, rfl⟩] at this
  constructor
  · constructor
    · intro d₁ h₁ d₂ h₂ i₁ i₂ hp₁ hp₂ j₁ hj₁ j₂ hj₂ he hne
      by_cases e₁ : d₁ = newdir ∧ i₁ = i <;> by_cases e₂ : d₂ = newdir ∧ i₂ = i
      · obtain ⟨rfl, rfl⟩ := e₁
        obtain ⟨rfl, rfl⟩ := e₂
        rw [hself] at he hne
        rw [hself] at he
        exact ⟨rfl, rfl, (hlink hp₁).inj j₁ hj₁ j₂ hj₂ he hne⟩
      · obtain ⟨rfl, rfl⟩ := e₁
        rw [hself] at he hne
        rw [(hother e₂).2] at he
        exact absurd he.symm
          ((hlink hp₁).alone j₁ hj₁ hne d₂ h₂ i₂ ((hother e₂).1.mp hp₂) j₂ hj₂)
      · obtain ⟨rfl, rfl⟩ := e₂
        rw [(hother e₁).2] at he hne
        rw [hself] at he
        exact absurd he
          ((hlink hp₂).alone j₂ hj₂ (he ▸ hne) d₁ h₁ i₁ ((hother e₁).1.mp hp₁) j₁ hj₁)
      · rw [(hother e₁).2] at he hne
        rw [(hother e₂).2] at he
        exact hi.distinct d₁ h₁ d₂ h₂ i₁ i₂ ((hother e₁).1.mp hp₁) ((hother e₂).1.mp hp₂)
          j₁ hj₁ j₂ hj₂ he hne
    · intro d' hd' i' hp j hj hne
      by_cases e : d' = newdir ∧ i' = i
      · obtain ⟨rfl, rfl⟩ := e
        rw [hself] at hne ⊢
        exact (hlink hp).marked j hj hne
      · rw [(hother e).2] at hne ⊢
        exact hi.marked d' hd' i' ((hother e).1.mp hp) j hj hne
    · intro d' hd' i' hp j hj hne
      rw [hker]
      by_cases e : d' = newdir ∧ i' = i
      · obtain ⟨rfl, rfl⟩ := e
        rw [hself] at hne ⊢
        exact (hlink hp).apart j hj hne
      · rw [(hother e).2] at hne ⊢
        exact hi.apart d' hd' i' ((hother e).1.mp hp) j hj hne
  · exact fun f hf => hi.kernelMarked f ((hker f).mp hf)
  · exact hi.zero
  · exact hi.size
  · exact hi.vm
  · rw [hlive]
    exact hi.dirLive
  · intro d' hd' i' hne
    rw [hlive]
    rw [tableOf_setSlot] at hne ⊢
    split_ifs at hne ⊢
    · exact ht
    · exact hi.tableLive d' hd' i' hne
  · intro hg d' hd' i' hp i'' hi''
    rw [vmPageDir_setSlot, hvm, tableOf_setSlot]
    split_ifs with e
    · obtain ⟨rfl, rfl⟩ := e
      exact (hlink hp).own hg i'' hi''
    · exact hi.own hg d' hd' i' ((hother e).1.mp hp) i'' hi''

end Link

/-! ### One directory -/

section CloneDir

variable {grows : Prop} {live : Kernel → Set ℕ} {mallocAp : MallocAp} {k k' : Kernel}
  {ds : List ℕ} {src newdir t phy i : ℕ}

lemma cloneTable_cases (h : cloneTable mallocAp src k = some (t, phy, k')) :
    ∃ k₁, mallocAp 4096 k = some (t, phy, k₁) ∧
      k' = (List.range 1024).foldl (cloneEntry src t) (k₁.setTable t fun _ => .zero) := by
  unfold cloneTable at h
  obtain ⟨⟨t, phy, k₁⟩, hm, h⟩ := Option.bind_eq_some_iff.mp h
  simp only [Option.some.injEq, Prod.mk.injEq] at h
  obtain ⟨rfl, rfl, rfl⟩ := h
  exact ⟨k₁, hm, rfl⟩

lemma cloneTable_some {k₁ : Kernel} (src : ℕ) (h : mallocAp 4096 k = some (t, phy, k₁)) :
    ∃ k', cloneTable mallocAp src k = some (t, phy, k') ∧
      OnlyTable t (k₁.setTable t fun _ => .zero) k' := by
  refine ⟨_, ?_, onlyTable_cloneEntries src t 1024 _⟩
  simp only [cloneTable, h, Option.bind_eq_bind, Option.bind_some]

lemma console_cloneTable (hA : FreshAlloc grows live mallocAp)
    (h : cloneTable mallocAp src k = some (t, phy, k')) : k.console <+: k'.console := by
  obtain ⟨k₁, hm, hk'⟩ := cloneTable_cases h
  have ho := onlyTable_cloneEntries src t 1024 (k₁.setTable t fun _ => .zero)
  rw [← hk'] at ho
  exact (hA.grown hm).console.trans ho.console

/-- `clone_table` returns a fresh table whose frames were free, and touches nothing else but
through the allocator. -/
theorem cloneTable_spec (hA : FreshAlloc grows live mallocAp) (hi : k.Inv grows live ds)
    (h : cloneTable mallocAp src k = some (t, phy, k')) (hc : k'.console = k.console) :
    Grown grows (live k) (live k') k k' ∧ t ≠ 0 ∧ t ∈ live k' \ live k ∧
      (∀ i, k'.tableOf k.vmPageDir i ≠ t) ∧ Linkable grows k' ds t := by
  obtain ⟨k₁, hm, hk'⟩ := cloneTable_cases h
  have hg := hA.grown hm
  obtain ⟨hne, hfresh, hnv⟩ := hA.fresh hm
  have hnv (i : ℕ) : k₁.tableOf k.vmPageDir i ≠ t := fun e =>
    hfresh.2 (hnv i e ▸ hi.tableLive _ hi.vm i (hnv i e ▸ hne))
  set k₂ := k₁.setTable t fun _ => .zero with hk₂
  have ho := onlyTable_cloneEntries src t 1024 k₂
  rw [← hk'] at ho
  obtain ⟨hc1, hc2⟩ := prefix_squeeze hg.console ho.console hc
  have hf : Filled t 1024 k₂ k' := by
    rw [hk'] at hc2 ⊢
    refine filled_cloneEntries ?_ (fun j => ?_) hc2
    · rw [hk₂, map_setTable, hg.size]
      exact hi.size
    · rw [hk₂, tables_setTable, if_pos rfl]
      rfl
  have hlive : live k' = live k₁ := by
    rw [hA.records _ _ ho.records]
    exact hA.records _ _ ⟨rfl, rfl, rfl, rfl⟩
  have htab : ∀ t' ≠ t, k'.tables t' = k₁.tables t' := fun t' ht' => by
    rw [ho.others t' ht', hk₂, tables_setTable, if_neg ht']
  have hslot (d i : ℕ) : k'.tableOf d i = k₁.tableOf d i := by
    rw [Kernel.tableOf, ho.dirs]; rfl
  have hvm : k'.vmPageDir = k.vmPageDir := ho.vm.trans hg.vm
  -- the kernel's frames are those it had when the allocator was done
  have hker (f : ℕ) : k'.KernelFrame f ↔ k₁.KernelFrame f := by
    unfold KernelFrame Kernel.frameAt
    rw [hvm, ← hg.vm]
    simp only [hslot]
    refine exists_congr fun i => and_congr_right fun _ => exists_congr fun j =>
      and_congr_right fun _ => and_congr_right fun _ => ?_
    rw [htab _ (by rw [hg.vm]; exact hnv i)]
  have hgrown : Grown grows (live k) (live k') k k' := by
    rw [hlive]
    refine ⟨hg.live, hvm, fun d hd => (congrFun ho.dirs d).trans (hg.dirs d hd), fun i => ?_,
      fun t' ht' hk => ?_, fun t' ht' j => ?_, fun f hk hne => ?_,
      fun f hu => hf.used f (hg.used f hu), hf.size.trans hg.size, hg.console.trans ho.console⟩
    · rw [hslot]
      exact hg.slots i
    · rw [htab t' fun e => hfresh.2 (e ▸ ht')]
      exact hg.tables t' ht' hk
    · rw [htab t' fun e => hfresh.2 (e ▸ ht')]
      exact hg.entries t' ht' j
    · rcases hg.frames f ((hker f).mp hk) hne with h | ⟨h1, h2⟩
      · exact Or.inl h
      · exact Or.inr ⟨h1, hf.used f h2⟩
  have hi₁ := hi.grown hg rfl
  refine ⟨hgrown, hne, ⟨by rw [hlive]; exact hfresh.1, hfresh.2⟩,
    fun i => by rw [hslot]; exact hnv i, ?_⟩
  constructor
  · exact fun j _ hj => (hf.fresh j hj).2
  · exact fun j _ hj hk => (hf.fresh j hj).1 (hi₁.kernelMarked _ ((hker _).mp hk) hj)
  · intro j _ hj d hd i hp j' hj' he
    rw [hgrown.privateSlot hi hd] at hp
    rw [hgrown.frameAt hi hd hp] at he
    refine (hf.fresh j hj).1 (he ▸ hg.used _ (hi.marked d hd i hp j' hj' ?_))
    exact fun h0 => hj (by rw [← he, h0])
  · exact fun j _ j' _ => hf.inj j j'
  · intro _ i _
    rw [hvm, hslot]
    exact hnv i

lemma Inv.newDir (hi : k.Inv grows live ds) (hn : newdir ∈ live k) (hnew : newdir ∉ ds)
    {dir : PageDir} (hdir : dir.pageTable = fun _ => 0)
    (hlive : live (k.setDir newdir dir) = live k) :
    (k.setDir newdir dir).Inv grows live (newdir :: ds) := by
  have hzero (i : ℕ) : (k.setDir newdir dir).tableOf newdir i = 0 := by
    rw [Kernel.tableOf, setDir]
    simp [hdir]
  have hold {d : ℕ} (hd : d ∈ ds) : (k.setDir newdir dir).dirs d = k.dirs d :=
    Function.update_of_ne (show d ≠ newdir from fun e => hnew (e ▸ hd)) _ _
  have htab {d : ℕ} (hd : d ∈ ds) (i : ℕ) : (k.setDir newdir dir).tableOf d i = k.tableOf d i := by
    rw [Kernel.tableOf, hold hd, Kernel.tableOf]
  have hvm : (k.setDir newdir dir).vmPageDir = k.vmPageDir := rfl
  have hslot {d i : ℕ} (hd : d ∈ newdir :: ds) (hp : (k.setDir newdir dir).PrivateSlot d i) :
      d ∈ ds ∧ k.PrivateSlot d i := by
    rcases List.mem_cons.mp hd with rfl | hd
    · exact absurd (hzero i) hp.2.1
    · unfold PrivateSlot at hp
      rw [hvm, htab hd, htab hi.vm] at hp
      exact ⟨hd, hp⟩
  have hframe {d i j : ℕ} (hd : d ∈ ds) :
      (k.setDir newdir dir).frameAt d i j = k.frameAt d i j := by
    rw [Kernel.frameAt, htab hd, tables_setDir, Kernel.frameAt]
  have hker (f : ℕ) : (k.setDir newdir dir).KernelFrame f ↔ k.KernelFrame f := by
    simp only [KernelFrame, hvm, htab hi.vm, hframe hi.vm]
  constructor
  · constructor
    · intro d hd d' hd' i i' hp hp' j hj j' hj' he hne
      obtain ⟨hd, hp⟩ := hslot hd hp
      obtain ⟨hd', hp'⟩ := hslot hd' hp'
      rw [hframe hd] at he hne
      rw [hframe hd'] at he
      exact hi.distinct d hd d' hd' i i' hp hp' j hj j' hj' he hne
    · intro d hd i hp j hj hne
      obtain ⟨hd, hp⟩ := hslot hd hp
      rw [hframe hd] at hne ⊢
      exact hi.marked d hd i hp j hj hne
    · intro d hd i hp j hj hne
      obtain ⟨hd, hp⟩ := hslot hd hp
      rw [hframe hd] at hne ⊢
      rw [hker]
      exact hi.apart d hd i hp j hj hne
  · exact fun f hf => hi.kernelMarked f ((hker f).mp hf)
  · exact hi.zero
  · exact hi.size
  · exact List.mem_cons_of_mem _ hi.vm
  · intro d hd
    rw [hlive]
    rcases List.mem_cons.mp hd with rfl | hd
    · exact hn
    · exact hi.dirLive d hd
  · intro d hd i hne
    rw [hlive]
    rcases List.mem_cons.mp hd with rfl | hd
    · exact absurd (hzero i) hne
    · rw [htab hd] at hne ⊢
      exact hi.tableLive d hd i hne
  · intro hg d hd i hp i' hi'
    obtain ⟨hd, hp⟩ := hslot hd hp
    rw [hvm, htab hi.vm, htab hd]
    exact hi.own hg d hd i hp i' hi'

/-- What became of the directories and tables of `L`: the allocator may have added tables to
`vm_page_dir` and backed empty entries of its tables. -/
structure Kept (grows : Prop) (L : Set ℕ) (k k' : Kernel) : Prop where
  vm : k'.vmPageDir = k.vmPageDir
  slots : ∀ d ∈ L, ∀ i, k'.tableOf d i = k.tableOf d i ∨
    grows ∧ d = k.vmPageDir ∧ k.tableOf d i = 0 ∧ k'.tableOf d i ∉ L
  entries : ∀ t ∈ L, ∀ j, k'.tables t j = k.tables t j ∨
    grows ∧ (∃ i < 1024, k.tableOf k.vmPageDir i = t) ∧ (k.tables t j).frame = 0

lemma Kept.refl (grows : Prop) (L : Set ℕ) (k : Kernel) : Kept grows L k k :=
  ⟨rfl, fun _ _ _ => Or.inl rfl, fun _ _ _ => Or.inl rfl⟩

lemma Kept.grown {k₀ : Kernel} {L : Set ℕ} (hv : k₀.vmPageDir ∈ L) (h : Kept grows L k₀ k)
    (hL : L ⊆ live k) (hg : Grown grows (live k) (live k') k k') : Kept grows L k₀ k' where
  vm := hg.vm.trans h.vm
  slots d hd i := by
    have hkeep : k'.tableOf d i = k.tableOf d i ∨
        grows ∧ d = k₀.vmPageDir ∧ k.tableOf d i = 0 ∧ k'.tableOf d i ∉ L := by
      by_cases hdv : d = k.vmPageDir
      · subst hdv
        rcases hg.slots i with hs | ⟨hgr, h0, hnew⟩
        · exact Or.inl hs
        · exact Or.inr ⟨hgr, h.vm, h0, fun hl => hnew.2 (hL hl)⟩
      · exact Or.inl (hg.tableOf_ne hdv)
    rcases h.slots d hd i with hs | ⟨hgr, hdv, h0, hnew⟩
    · rwa [hs] at hkeep
    · rcases hkeep with hk | ⟨-, -, -, hk⟩
      · exact Or.inr ⟨hgr, hdv, h0, hk ▸ hnew⟩
      · exact Or.inr ⟨hgr, hdv, h0, hk⟩
  entries t ht j := by
    by_cases hker : ∀ i < 1024, k.tableOf k.vmPageDir i ≠ t
    · rw [hg.tables t (hL ht) hker]
      exact h.entries t ht j
    · push Not at hker
      obtain ⟨i, hi, rfl⟩ := hker
      -- a table of the kernel's that was in use at the start was the kernel's at the start
      have hold : k₀.tableOf k₀.vmPageDir i = k.tableOf k.vmPageDir i := by
        rw [h.vm] at ht ⊢
        rcases h.slots _ hv i with hs | ⟨-, -, -, hs⟩
        · exact hs.symm
        · exact absurd ht hs
      rcases hg.entries _ (hL ht) j with he | ⟨hgr, h0⟩
      · rw [he]
        exact h.entries _ ht j
      · rcases h.entries _ ht j with he | hb
        · exact Or.inr ⟨hgr, ⟨i, hi, hold⟩, he ▸ h0⟩
        · exact Or.inr hb

lemma Kept.setSlot {k₀ : Kernel} {L : Set ℕ} (h : Kept grows L k₀ k) (hn : newdir ∉ L) :
    Kept grows L k₀ (k.setSlot newdir i t phy) where
  vm := h.vm
  slots d hd i' := by
    have hne : ¬ (d = newdir ∧ i' = i) := fun e => hn (e.1 ▸ hd)
    rw [tableOf_setSlot, if_neg hne]
    exact h.slots d hd i'
  entries := h.entries

/-- Slot `i` of a clone: empty, shared, or with a table of its own, as the source's slot says. -/
structure SlotCloned (L : Set ℕ) (k : Kernel) (src newdir i : ℕ) : Prop where
  empty : k.tableOf src i = 0 → k.tableOf newdir i = 0
  shared : k.tableOf src i ≠ 0 → k.tableOf src i = k.tableOf k.vmPageDir i →
    k.tableOf newdir i = k.tableOf src i
  fresh : k.tableOf src i ≠ 0 → k.tableOf src i ≠ k.tableOf k.vmPageDir i →
    k.tableOf newdir i ≠ 0 ∧ k.tableOf newdir i ∉ L ∧
      ∀ i', k.tableOf k.vmPageDir i' ≠ k.tableOf newdir i

/-- The loop of `clone_dir` after `n` rounds, where `L` was in use before the call. -/
structure Cloning (grows : Prop) (live : Kernel → Set ℕ) (ds : List ℕ) (L : Set ℕ)
    (src newdir n : ℕ) (k₀ k : Kernel) : Prop where
  inv : k.Inv grows live (newdir :: ds)
  kept : Kept grows L k₀ k
  live : L ⊆ live k
  below : ∀ i < n, SlotCloned L k src newdir i
  above : ∀ i, n ≤ i → k.tableOf newdir i = 0

lemma SlotCloned.setSlot {L : Set ℕ} {n : ℕ} (h : SlotCloned L k src newdir i) (hs : src ≠ newdir)
    (hv : k.vmPageDir ≠ newdir) (hn : i ≠ n) :
    SlotCloned L (k.setSlot newdir n t phy) src newdir i := by
  have hsrc : (k.setSlot newdir n t phy).tableOf src i = k.tableOf src i := by
    rw [tableOf_setSlot, if_neg fun e => hs e.1]
  have hvm (i' : ℕ) :
      (k.setSlot newdir n t phy).tableOf k.vmPageDir i' = k.tableOf k.vmPageDir i' := by
    rw [tableOf_setSlot, if_neg fun e => hv e.1]
  have hnew : (k.setSlot newdir n t phy).tableOf newdir i = k.tableOf newdir i := by
    rw [tableOf_setSlot, if_neg fun e => hn e.2]
  constructor
  · rw [hsrc, hnew]
    exact h.empty
  · rw [hsrc, hnew, vmPageDir_setSlot, hvm]
    exact h.shared
  · simp only [hsrc, hnew, vmPageDir_setSlot, hvm]
    exact h.fresh

lemma SlotCloned.grown {L : Set ℕ} (h : SlotCloned L k src newdir i) (hi : k.Inv grows live ds)
    (hg : Grown grows (live k) (live k') k k') (hsd : src ∈ ds) (hnd : newdir ∈ ds)
    (hs : src ≠ k.vmPageDir) (hv : newdir ≠ k.vmPageDir) : SlotCloned L k' src newdir i := by
  have hvm (ht : k.tableOf src i ≠ 0) :
      k.tableOf src i = k'.tableOf k.vmPageDir i ↔ k.tableOf src i = k.tableOf k.vmPageDir i := by
    rcases hg.slots i with hsl | ⟨-, h0, hnew⟩
    · rw [hsl]
    · rw [h0]
      refine iff_of_false (fun e => ?_) ht
      exact hnew.2 (e ▸ hi.tableLive src hsd i ht)
  constructor
  · rw [hg.tableOf_ne hs, hg.tableOf_ne hv]
    exact h.empty
  · rw [hg.tableOf_ne hs, hg.tableOf_ne hv, hg.vm]
    exact fun ht he => h.shared ht ((hvm ht).mp he)
  · rw [hg.tableOf_ne hs, hg.tableOf_ne hv, hg.vm]
    intro ht he
    obtain ⟨h0, hL, hk⟩ := h.fresh ht fun e => he ((hvm ht).mpr e)
    refine ⟨h0, hL, fun i' => ?_⟩
    rcases hg.slots i' with hsl | ⟨-, -, hnew⟩
    · rw [hsl]
      exact hk i'
    · exact fun e => hnew.2 (e ▸ hi.tableLive newdir hnd i h0)

lemma console_cloneSlot (hA : FreshAlloc grows live mallocAp)
    (h : cloneSlot mallocAp src newdir k i = some k') : k.console <+: k'.console := by
  unfold cloneSlot at h
  split at h
  · obtain rfl : k = k' := by simpa using h
    exact List.prefix_rfl
  · split at h
    · obtain rfl := Option.some.inj h
      exact List.prefix_rfl
    · obtain ⟨⟨t, phy, k₁⟩, hm, h⟩ := Option.bind_eq_some_iff.mp h
      obtain rfl := Option.some.inj h
      have hcon := console_cloneTable hA hm
      exact hcon

theorem cloning_cloneSlot {k₀ : Kernel} {L : Set ℕ} {n : ℕ} (hA : FreshAlloc grows live mallocAp)
    (hn : newdir ∉ L) (hv : k₀.vmPageDir ∈ L) (hs : src ∈ ds) (hsL : src ∈ L)
    (hc : Cloning grows live ds L src newdir n k₀ k)
    (h : cloneSlot mallocAp src newdir k n = some k') (hcon : k'.console = k.console) :
    Cloning grows live ds L src newdir (n + 1) k₀ k' := by
  have hsn : src ≠ newdir := fun e => hn (e ▸ hsL)
  have hvn : k.vmPageDir ≠ newdir := fun e => hn (e ▸ hc.kept.vm ▸ hv)
  unfold cloneSlot at h
  split at h
  · next h0 =>
    obtain rfl : k = k' := by simpa using h
    refine ⟨hc.inv, hc.kept, hc.live, fun i hi => ?_, fun i hi => hc.above i (by omega)⟩
    by_cases hin : i = n
    · subst hin
      exact ⟨fun _ => hc.above i le_rfl, fun hne => absurd h0 hne, fun hne => absurd h0 hne⟩
    · exact hc.below i (by omega)
  · next hne =>
    split at h
    · next hshare =>
      obtain rfl := Option.some.inj h
      have hl := hA.records k (k.setSlot newdir n (k.tableOf src n) ((k.dirs src).pageTablePhy n))
        ⟨rfl, rfl, rfl, rfl⟩
      refine ⟨hc.inv.link hvn.symm (hc.inv.tableLive src (by simp [hs]) n hne)
        (fun e => absurd hshare.symm e) hl, hc.kept.setSlot hn, by rw [hl]; exact hc.live,
        fun i hi => ?_, fun i hi => ?_⟩
      · by_cases hin : i = n
        · subst hin
          have hsrc : (k.setSlot newdir i (k.tableOf src i)
              ((k.dirs src).pageTablePhy i)).tableOf src i = k.tableOf src i := by
            rw [tableOf_setSlot, if_neg fun e => hsn e.1]
          refine ⟨fun e => absurd (hsrc ▸ e) hne, fun _ _ => ?_, fun _ e => absurd ?_ e⟩
          · rw [hsrc, tableOf_setSlot, if_pos ⟨rfl, rfl⟩]
          · rw [hsrc, vmPageDir_setSlot, tableOf_setSlot, if_neg fun e => hvn e.1, hshare]
        · exact (hc.below i (by omega)).setSlot hsn hvn hin
      · rw [tableOf_setSlot, if_neg (by omega)]
        exact hc.above i (by omega)
    · next hpriv =>
      obtain ⟨⟨t, phy, k₁⟩, hm, h⟩ := Option.bind_eq_some_iff.mp h
      obtain rfl := Option.some.inj h
      obtain ⟨hg, ht0, ht, htv, hlink⟩ := cloneTable_spec hA hc.inv hm hcon
      have hsv : src ≠ k.vmPageDir := fun e => hpriv (by rw [e])
      have hl := hA.records k₁ (k₁.setSlot newdir n t (phy ||| 7)) ⟨rfl, rfl, rfl, rfl⟩
      have hvn₁ : k₁.vmPageDir ≠ newdir := by
        rw [hg.vm]
        exact hvn
      refine ⟨(hc.inv.grown hg rfl).link hvn₁.symm ht.1 (fun _ => hlink) hl,
        (hc.kept.grown hv hc.live hg).setSlot hn, ?_, fun i hi => ?_, fun i hi => ?_⟩
      · rw [hl]
        exact hc.live.trans hg.live
      · by_cases hin : i = n
        · subst hin
          have hsrc : (k₁.setSlot newdir i t (phy ||| 7)).tableOf src i = k.tableOf src i := by
            rw [tableOf_setSlot, if_neg fun e => hsn e.1, hg.tableOf_ne hsv]
          have hnew : (k₁.setSlot newdir i t (phy ||| 7)).tableOf newdir i = t := by
            rw [tableOf_setSlot, if_pos ⟨rfl, rfl⟩]
          refine ⟨fun e => absurd (hsrc ▸ e) hne, fun _ e => absurd e ?_, fun _ _ => ?_⟩
          · rw [hsrc, vmPageDir_setSlot, tableOf_setSlot, if_neg fun e => hvn₁ e.1, hg.vm]
            rcases hg.slots i with hs' | ⟨-, -, hfresh⟩
            · rw [hs']
              exact fun e => hpriv e.symm
            · intro e
              exact hfresh.2 (e ▸ hc.inv.tableLive src (by simp [hs]) i hne)
          · rw [hnew]
            refine ⟨ht0, fun hL => ht.2 (hc.live hL), fun i' => ?_⟩
            rw [vmPageDir_setSlot, tableOf_setSlot, if_neg fun e => hvn₁ e.1, hg.vm]
            exact htv i'
        · exact ((hc.below i (by omega)).grown hc.inv hg (by simp [hs]) (by simp) hsv
            hvn.symm).setSlot hsn hvn₁ hin
      · rw [tableOf_setSlot, if_neg (by omega), hg.tableOf_ne hvn.symm]
        exact hc.above i (by omega)

lemma cloneDir_cases (h : cloneDir mallocAp src k = some (newdir, k')) :
    ∃ phy k₁, mallocAp 8196 k = some (newdir, phy, k₁) ∧
      (List.range 1024).foldlM (cloneSlot mallocAp src newdir)
        (k₁.setDir newdir { PageDir.zero with pageDirPhy := Lib.Word.add32 phy 0x1000 }) =
          some k' := by
  unfold cloneDir at h
  obtain ⟨⟨d, phy, k₁⟩, hm, h⟩ := Option.bind_eq_some_iff.mp h
  obtain ⟨k₂, hf, h⟩ := Option.bind_eq_some_iff.mp h
  simp only [Option.some.injEq, Prod.mk.injEq] at h
  obtain ⟨rfl, rfl⟩ := h
  exact ⟨phy, k₁, hm, hf⟩

lemma cloning_start (hA : FreshAlloc grows live mallocAp) (hi : k.Inv grows live ds)
    {k₁ : Kernel} {dir : PageDir} (hm : mallocAp 8196 k = some (newdir, phy, k₁))
    (hdir : dir.pageTable = fun _ => 0) :
    Cloning grows live ds (live k) src newdir 0 k (k₁.setDir newdir dir) := by
  have hg := hA.grown hm
  obtain ⟨-, hfresh, -⟩ := hA.fresh hm
  have hi₁ := hi.grown hg rfl
  have hkept := (Kept.refl grows (live k) k).grown (hi.dirLive _ hi.vm) subset_rfl hg
  set k₂ := k₁.setDir newdir dir with hk₂
  have hl : live k₂ = live k₁ := hA.records _ _ ⟨rfl, rfl, rfl, rfl⟩
  have htab {d : ℕ} (hd : d ≠ newdir) (i : ℕ) : k₂.tableOf d i = k₁.tableOf d i := by
    rw [Kernel.tableOf, hk₂, Kernel.setDir, Kernel.tableOf]
    simp only [Function.update_of_ne hd]
  refine ⟨?_, ⟨hkept.vm, fun d hd i => ?_, hkept.entries⟩, ?_, fun i hi => absurd hi (by omega),
    fun i _ => ?_⟩
  · exact hi₁.newDir hfresh.1 (fun hd => hfresh.2 (hi.dirLive _ hd)) hdir hl
  · rw [htab fun e => hfresh.2 (e ▸ hd)]
    exact hkept.slots d hd i
  · rw [hl]
    exact hg.live
  · simp [Kernel.tableOf, hk₂, Kernel.setDir, hdir]

theorem cloneDir_spec (hA : FreshAlloc grows live mallocAp) (hi : k.Inv grows live ds)
    (hs : src ∈ ds) (h : cloneDir mallocAp src k = some (newdir, k'))
    (hcon : k'.console = k.console) :
    k'.Inv grows live (newdir :: ds) ∧ Kept grows (live k) k k' ∧
      ∀ i < 1024, SlotCloned (live k) k' src newdir i := by
  obtain ⟨phy, k₁, hm, hf⟩ := cloneDir_cases h
  have hg := hA.grown hm
  obtain ⟨-, hfresh, -⟩ := hA.fresh hm
  have hv := hi.dirLive _ hi.vm
  set k₂ := k₁.setDir newdir { PageDir.zero with pageDirPhy := Lib.Word.add32 phy 0x1000 } with hk₂
  have hstart : Cloning grows live ds (live k) src newdir 0 k k₂ := cloning_start hA hi hm rfl
  have hrun := foldlM_range_inv (P := fun n t => k₂.console <+: t.console ∧
      (t.console = k₂.console → Cloning grows live ds (live k) src newdir n k t))
    ⟨List.prefix_rfl, fun _ => hstart⟩ (fun n _ t t' hP ht => ?_) hf
  · have hc := (prefix_squeeze hg.console hrun.1 hcon).2
    have hdone := hrun.2 hc
    exact ⟨hdone.inv, hdone.kept, hdone.below⟩
  · have hct := console_cloneSlot hA ht
    refine ⟨hP.1.trans hct, fun hc => ?_⟩
    obtain ⟨hc1, hc2⟩ := prefix_squeeze hP.1 hct hc
    exact cloning_cloneSlot hA hfresh.2 hv hs (hi.dirLive _ hs) (hP.2 hc1) ht hc2

end CloneDir

end Kernel

end OsImplement.Memory
