import OsImplement.Memory.HeapSound
import OsImplement.Memory.Boot

/-!
What `alloc` does to the page structures.

It reaches them through `expand` alone: a page table that is missing goes into `vm_page_dir`, and
into no other directory, and empty entries get frames. Where no table is missing, no directory
changes at all.
-/

namespace OsImplement.Memory

open Lib.Word Lib.Bytes

namespace Kernel

/-- From `k` to `k'` the page structures kept all that was in them, but for tables and directories
in a heap with its index at `A`. -/
structure PagesKept (A : ℕ) (k k' : Kernel) : Prop where
  kheap : k'.kheap = k.kheap
  vm : k'.vmPageDir = k.vmPageDir
  cur : k'.curVmPageDir = k.curVmPageDir
  dirs : ∀ d ≠ k.vmPageDir, k'.dirs d = k.dirs d
  slots : ∀ i, k'.tableOf k.vmPageDir i = k.tableOf k.vmPageDir i ∨
    k.tableOf k.vmPageDir i = 0 ∧ A ≤ k'.tableOf k.vmPageDir i
  entries : ∀ t < A, ∀ j, (k.tables t j).frame ≠ 0 → k'.tables t j = k.tables t j

/-- Nothing but frames for empty entries. -/
structure OnlyFrames (k k' : Kernel) : Prop where
  mem : k'.mem = k.mem
  heap : k'.heap = k.heap
  kheap : k'.kheap = k.kheap
  vm : k'.vmPageDir = k.vmPageDir
  cur : k'.curVmPageDir = k.curVmPageDir
  dirs : k'.dirs = k.dirs
  entries : ∀ t j, (k.tables t j).frame ≠ 0 → k'.tables t j = k.tables t j
  set : ∀ t j, k'.tables t j = k.tables t j ∨ (k'.tables t j).valid = true

section Kept

variable {A : ℕ} {k k' k'' : Kernel}

lemma PagesKept.refl (A : ℕ) (k : Kernel) : PagesKept A k k :=
  ⟨rfl, rfl, rfl, fun _ _ => rfl, fun _ => Or.inl rfl, fun _ _ _ _ => rfl⟩

lemma PagesKept.trans (h : PagesKept A k k') (h' : PagesKept A k' k'') : PagesKept A k k'' where
  kheap := h'.kheap.trans h.kheap
  vm := h'.vm.trans h.vm
  cur := h'.cur.trans h.cur
  dirs d hd := (h'.dirs d (by rwa [h.vm])).trans (h.dirs d hd)
  slots i := by
    have h2 := h'.slots i
    rw [h.vm] at h2
    rcases h.slots i with h1 | ⟨h0, hA⟩
    · rw [h1] at h2
      exact h2
    · rcases h2 with h2 | ⟨-, h2⟩
      · exact Or.inr ⟨h0, h2 ▸ hA⟩
      · exact Or.inr ⟨h0, h2⟩
  entries t ht j hj := by
    have h1 := h.entries t ht j hj
    rw [h'.entries t ht j (by rwa [h1]), h1]

lemma PagesKept.tableOf (h : PagesKept A k k') {d i : ℕ} (ht : k.tableOf d i ≠ 0) :
    k'.tableOf d i = k.tableOf d i := by
  by_cases hd : d = k.vmPageDir
  · subst hd
    exact (h.slots i).resolve_right fun h0 => ht h0.1
  · rw [Kernel.tableOf, h.dirs d hd, Kernel.tableOf]

lemma PagesKept.tableOf_ne (h : PagesKept A k k') {d i : ℕ} (hd : d ≠ k.vmPageDir) :
    k'.tableOf d i = k.tableOf d i := by
  rw [Kernel.tableOf, h.dirs d hd, Kernel.tableOf]

lemma OnlyFrames.refl (k : Kernel) : OnlyFrames k k :=
  ⟨rfl, rfl, rfl, rfl, rfl, rfl, fun _ _ _ => rfl, fun _ _ => Or.inl rfl⟩

lemma OnlyFrames.trans (h : OnlyFrames k k') (h' : OnlyFrames k' k'') : OnlyFrames k k'' where
  mem := h'.mem.trans h.mem
  heap := h'.heap.trans h.heap
  kheap := h'.kheap.trans h.kheap
  vm := h'.vm.trans h.vm
  cur := h'.cur.trans h.cur
  dirs := h'.dirs.trans h.dirs
  entries t j hj := by
    have h1 := h.entries t j hj
    rw [h'.entries t j (by rwa [h1]), h1]
  set t j := by
    rcases h'.set t j with h2 | h2
    · rw [h2]
      exact h.set t j
    · exact Or.inr h2

lemma OnlyFrames.valid (h : OnlyFrames k k') {t j : ℕ} (hv : (k.tables t j).valid = true) :
    (k'.tables t j).valid = true := by
  rcases h.set t j with h1 | h1
  · rwa [h1]
  · exact h1

lemma OnlyFrames.framed (h : OnlyFrames k k') {t j : ℕ}
    (hv : (k.tables t j).frame ≠ 0 → (k.tables t j).valid = true)
    (hf : (k'.tables t j).frame ≠ 0) : (k'.tables t j).valid = true := by
  rcases h.set t j with h1 | h1
  · rw [h1] at hf ⊢
    exact hv hf
  · exact h1

lemma OnlyFrames.tableOf (h : OnlyFrames k k') (d i : ℕ) : k'.tableOf d i = k.tableOf d i := by
  rw [Kernel.tableOf, h.dirs, Kernel.tableOf]

lemma OnlyFrames.pagesKept (h : OnlyFrames k k') (A : ℕ) : PagesKept A k k' :=
  ⟨h.kheap, h.vm, h.cur, fun d _ => congrFun h.dirs d, fun i => Or.inl (h.tableOf _ i),
    fun t _ => h.entries t⟩

lemma onlyFrames_allocFrame (k : Kernel) (r : PageRef) (isKernel isWritable : Bool) :
    OnlyFrames k (k.allocFrame (some r) isKernel isWritable) := by
  have hheld (hj : (k.tables r.table r.idx).frame ≠ 0) :
      (k.allocFrame (some r) isKernel isWritable).tables r.table r.idx = k.tables r.table r.idx := by
    simp only [allocFrame, page, setPage, allocFrame_held hj, Function.update_self]
  refine ⟨rfl, rfl, rfl, rfl, rfl, rfl, fun t j hj => ?_, fun t j => ?_⟩
  · by_cases hr : t = r.table ∧ j = r.idx
    · obtain ⟨rfl, rfl⟩ := hr
      exact hheld hj
    · exact tables_allocFrame_ne hr
  · by_cases hr : t = r.table ∧ j = r.idx
    · obtain ⟨rfl, rfl⟩ := hr
      by_cases hj : (k.tables r.table r.idx).frame = 0
      · right
        simp [allocFrame, page, setPage, Memory.allocFrame, hj]
      · exact Or.inl (hheld hj)
    · exact Or.inl (tables_allocFrame_ne hr)

lemma allocFrame_valid (k : Kernel) {r : PageRef} (isKernel isWritable : Bool)
    (hv : (k.tables r.table r.idx).frame ≠ 0 → (k.tables r.table r.idx).valid = true) :
    ((k.allocFrame (some r) isKernel isWritable).tables r.table r.idx).valid = true := by
  by_cases hj : (k.tables r.table r.idx).frame = 0
  · simp [allocFrame, page, setPage, Memory.allocFrame, hj]
  · exact (onlyFrames_allocFrame k r isKernel isWritable).valid (hv hj)

lemma onlyPages (k : Kernel) (m : Mem) (heap : Heap) :
    PagesKept A k { k with mem := m, heap := heap } :=
  ⟨rfl, rfl, rfl, fun _ _ => rfl, fun _ => Or.inl rfl, fun _ _ _ _ => rfl⟩

end Kept

/-! ### The inner calls -/

section Calls

variable {alloc : HeapAlloc} {k k' : Kernel} {size t phy : ℕ}

lemma mallocAp_cases (hk : k.kheap ≠ 0) (hm : Kernel.mallocAp alloc size k = some (t, phy, k')) :
    alloc size true k = some (t, k') ∧
      phy = add32 ((k'.page (lookupPage t k'.curVmPageDir k')).frame * 0x1000) (t &&& 0xFFF) := by
  unfold Kernel.mallocAp malloc at hm
  rw [if_neg hk] at hm
  simp only [Option.bind_eq_bind, Option.bind_eq_some_iff, Prod.exists, Option.some.injEq,
    Prod.mk.injEq] at hm
  obtain ⟨t', k'', hin, rfl, rfl, rfl⟩ := hm
  exact ⟨hin, rfl⟩

lemma mallocAp_some (hk : k.kheap ≠ 0) (hr : alloc size true k = some (t, k')) :
    ∃ phy, Kernel.mallocAp alloc size k = some (t, phy, k') := by
  unfold Kernel.mallocAp malloc
  rw [if_neg hk, hr]
  exact ⟨_, rfl⟩

end Calls

/-! ### Kept by `alloc` -/

/-- An allocator that keeps the page structures of sound heaps at `A`, under the condition `ok`. -/
def Keeps (A : ℕ) (inner : HeapAlloc) (ok : ℕ → Bool → Kernel → Prop) : Prop :=
  ∀ size pageAlign k holes blocks p k', HeapInv A holes blocks k → k.kheap ≠ 0 →
    ok size pageAlign k → inner size pageAlign k = some (p, k') → PagesKept A k k'

section Keeps

variable {A size addr newSize n i p oldEnd oldLen : ℕ} {pageAlign : Bool}
  {holes blocks : List (ℕ × ℕ)} {k k' : Kernel} {inner : HeapAlloc}
  {ok : ℕ → Bool → Kernel → Prop} {r : Option PageRef}

lemma lookupPage_none (h : k.tableOf p (addr / 0x1000 / 1024) = 0) :
    k.lookupPage addr p = none := by
  unfold lookupPage
  simp only [h, ne_eq, not_true_eq_false, if_false]

lemma getPage_kept (h : HeapInv A holes blocks k) (hk : k.kheap ≠ 0) (hinner : Sound A inner ok)
    (hkeeps : Keeps A inner ok)
    (hok : k.lookupPage addr k.vmPageDir = none → k.kheap ≠ 0 → ok 4096 true k)
    (hr : k.getPage (mallocAp inner) addr true k.vmPageDir = some (r, k')) : PagesKept A k k' := by
  rcases getPage_cases hr with ⟨-, rfl, -⟩ | ⟨h0, t, phy, k₁, hm, rfl, -⟩
  · exact .refl A _
  · have hok := hok (lookupPage_none h0) hk
    obtain ⟨hin, -⟩ := mallocAp_cases hk hm
    obtain ⟨holes', extra, h', -⟩ := hinner _ _ _ _ _ _ _ h hok hin
    have ht : A ≤ t := by
      have := (h'.block (t, t + 4096) (by simp)).1
      omega
    have hkept := hkeeps _ _ _ _ _ _ _ h hk hok hin
    refine ⟨hkept.kheap, hkept.vm, hkept.cur, fun d hd => ?_, fun i => ?_, fun u hu j hj => ?_⟩
    · rw [dirs_setTable, setSlot, setDir]
      exact (Function.update_of_ne hd _ _).trans (hkept.dirs d hd)
    · rw [show ((k₁.setSlot k.vmPageDir (addr / 0x1000 / 1024) t (phy ||| 7)).setTable t
        (fun _ => .zero)).tableOf k.vmPageDir i = (k₁.setSlot k.vmPageDir (addr / 0x1000 / 1024) t
        (phy ||| 7)).tableOf k.vmPageDir i from rfl, tableOf_setSlot]
      by_cases hi : i = addr / 0x1000 / 1024
      · rw [if_pos ⟨rfl, hi⟩]
        exact Or.inr ⟨hi ▸ h0, ht⟩
      · rw [if_neg fun h => hi h.2]
        exact hkept.slots i
    · rw [tables_setTable, if_neg (by omega), tables_setSlot]
      exact hkept.entries u hu j hj

lemma expandPages_kept (hinner : Sound A inner ok) (hkeeps : Keeps A inner ok) : ∀ (n i : ℕ)
    (k : Kernel) (holes blocks : List (ℕ × ℕ)) (k' : Kernel), HeapInv A holes blocks k →
    k.kheap ≠ 0 → PagesOk inner ok newSize n i k →
    expandPages (mallocAp inner) newSize n i k = some k' → PagesKept A k k' := by
  intro n
  induction n with
  | zero => exact fun _ _ _ _ _ _ _ _ hr => by simp [expandPages] at hr
  | succ n ih =>
    intro i k holes blocks k' h hk hok hr
    unfold expandPages at hr
    split at hr
    · next hi =>
      simp only [Option.bind_eq_bind, Option.bind_eq_some_iff, Prod.exists] at hr
      obtain ⟨r, k₁, hg, hr⟩ := hr
      obtain ⟨hmalloc, hnext⟩ := hok hi
      have hkept := getPage_kept h hk hinner hkeeps hmalloc hg
      obtain ⟨⟨r', rfl⟩, holes₁, extra₁, h₁, -⟩ := getPage_sound h hinner hmalloc hg
      have hframes := onlyFrames_allocFrame k₁ r' k₁.heap.supervisor (!k₁.heap.readonly)
      have h₁' : HeapInv A holes₁ (extra₁ ++ blocks)
          (k₁.allocFrame (some r') k₁.heap.supervisor (!k₁.heap.readonly)) :=
        h₁.congr mem_allocFrame heap_allocFrame
      refine (hkept.trans (hframes.pagesKept A)).trans ?_
      exact ih _ _ holes₁ (extra₁ ++ blocks) k' h₁'
        (by rw [hframes.kheap, hkept.kheap]; exact hk) (hnext _ _ hg) hr
    · obtain rfl : k = k' := by simpa using hr
      exact .refl A k

lemma growHole_retag (hr : k.growHole oldEnd oldLen = some k') : ∃ m a, k' = k.retag m a := by
  unfold growHole at hr
  obtain ⟨⟨idx, v⟩, -, hr⟩ := Option.bind_eq_some_iff.mp hr
  simp only at hr
  split at hr
  · exact ⟨_, _, (Option.some.inj hr).symm⟩
  · exact ⟨_, _, (Option.some.inj hr).symm⟩

theorem alloc_keeps (A : ℕ) : ∀ fuel, Keeps A (alloc fuel) (OkAt fuel) := by
  intro fuel
  induction fuel with
  | zero => exact fun _ _ _ _ _ _ _ _ _ _ hr => by simp [alloc] at hr
  | succ fuel ih =>
    intro size pageAlign k holes blocks p k' h hk hok hr
    have hsound := alloc_sound A fuel
    rcases alloc_cases hsound h hok hr with ⟨q, holes', m, a, -, rfl, -⟩ | ⟨k₀, k₂, extra, hg, hr⟩
    · exact onlyPages k m _
    · have hkept := expandPages_kept hsound ih _ _ _ _ _ _ h hk hg.pages hg.expand
      obtain ⟨m, a, hk₂⟩ := growHole_retag hg.grow
      obtain ⟨holes₂, h₂⟩ := hg.grown
      have hkept₂ : PagesKept A k k₂ := by
        rw [hk₂]
        exact hkept.trans (onlyPages k₀ m _)
      exact hkept₂.trans (ih _ _ _ _ _ _ _ h₂ (by rw [hkept₂.kheap]; exact hk) hg.again hr)

end Keeps

/-! ### Growth within the tables there are -/

/-- `vm_page_dir` has a table for every byte of the heap between the distances `lo` and `hi` from its
start. -/
def Covered (lo hi : ℕ) (k : Kernel) : Prop :=
  ∀ x, lo ≤ x → x < hi →
    k.tableOf k.vmPageDir (add32 k.heap.startAddress x / 0x1000 / 1024) ≠ 0

/-- `vm_page_dir` has a table for every page that the rounds of `expand` ask for, from the distance
`lo` to `hi`. -/
def Tabled (lo hi : ℕ) (k : Kernel) : Prop :=
  ∀ j, lo + 0x1000 * j < hi →
    k.tableOf k.vmPageDir (add32 k.heap.startAddress (lo + 0x1000 * j) / 0x1000 / 1024) ≠ 0

/-- A call of `alloc`, followed `fuel` calls deep, grows the heap only when `G`, a condition on the
distances of the old and the new end from the start of the heap. -/
def GrowsAt (G : ℕ → ℕ → Kernel → Prop) : ℕ → ℕ → Bool → Kernel → Prop
  | 0, _, _, _ => True
  | fuel + 1, size, pageAlign, k =>
    findHoleFitFirst (size + 20) pageAlign k.heap k.mem = some none →
      let newSize := roundSize (add32 k.heapLen (size + 20))
      let newEnd := k.heap.startAddress + newSize
      G k.heapLen newSize k ∧
      ∀ k', expandPages (mallocAp (alloc fuel)) newSize (2 ^ 20) k.heapLen k = some k' →
        ∀ k'', (k'.setEnd newEnd).growHole k.heap.endAddress k.heapLen = some k'' →
          GrowsAt G fuel size pageAlign k''

/-- **A call of `alloc` grows the heap only when `G`.** -/
def Grows (G : ℕ → ℕ → Kernel → Prop) (size : ℕ) (pageAlign : Bool) (k : Kernel) : Prop :=
  ∀ fuel, GrowsAt G fuel size pageAlign k

section Tabled

variable {A newSize n i : ℕ} {holes blocks : List (ℕ × ℕ)} {k k' : Kernel} {mallocAp : MallocAp}

lemma Covered.tabled {lo hi : ℕ} (hc : Covered lo hi k) : Tabled lo hi k :=
  fun j hj => hc _ (by omega) hj

lemma OnlyFrames.covered {lo hi : ℕ} (h : OnlyFrames k k') (hc : Covered lo hi k) :
    Covered lo hi k' := by
  intro x h1 h2
  rw [h.vm, h.heap, h.tableOf]
  exact hc x h1 h2

theorem expandPages_rounds {P : ℕ → Kernel → Prop} (htop : newSize + 0x1000 ≤ 2 ^ 32)
    (hend : k.heap.startAddress + newSize < 2 ^ 32) (hc : Covered i newSize k) (h0 : P 0 k)
    (hstep : ∀ j k₁, i + 0x1000 * j < newSize → OnlyFrames k k₁ → P j k₁ → P (j + 1)
      (k₁.allocFrame (some (k.refOf k.vmPageDir ((k.heap.startAddress + (i + 0x1000 * j)) / 0x1000)))
        k.heap.supervisor (!k.heap.readonly)))
    (hr : expandPages mallocAp newSize n i k = some k') :
    OnlyFrames k k' ∧ ∃ c, newSize ≤ i + 0x1000 * c ∧ P c k' := by
  induction n generalizing i k P with
  | zero => simp [expandPages] at hr
  | succ n ih =>
    unfold expandPages at hr
    split at hr
    · next hi =>
      simp only [Option.bind_eq_bind, Option.bind_eq_some_iff, Prod.exists] at hr
      obtain ⟨r, k₁, hg, hr⟩ := hr
      have hadd : add32 k.heap.startAddress i = k.heap.startAddress + i := add32_eq (by omega)
      rcases getPage_cases hg with ⟨-, rfl, rfl⟩ | ⟨h0, -⟩
      · rw [hadd, add32_eq (show i + 0x1000 < 2 ^ 32 by omega)] at hr
        set k₂ := k₁.allocFrame (some (k₁.refOf k₁.vmPageDir
          ((k₁.heap.startAddress + i) / 0x1000))) k₁.heap.supervisor (!k₁.heap.readonly) with hk₂
        have hframes : OnlyFrames k₁ k₂ := onlyFrames_allocFrame k₁ _ _ _
        have hfirst : P 1 k₂ := hstep 0 k₁ (by omega) (.refl k₁) h0
        have hc₂ : Covered (i + 0x1000) newSize k₂ :=
          hframes.covered fun x h1 h2 => hc x (by omega) h2
        obtain ⟨hrest, c, hle, hP⟩ := ih (P := fun j k' => P (j + 1) k') (k := k₂) hend hc₂ hfirst
          (fun j k₃ hj hk₃ hp => by
            have := hstep (j + 1) k₃ (by omega) (hframes.trans hk₃) hp
            rwa [show i + 0x1000 * (j + 1) = i + 0x1000 + 0x1000 * j by omega] at this) hr
        exact ⟨hframes.trans hrest, c + 1, by omega, hP⟩
      · exact absurd h0 (hc i le_rfl hi)
    · next hi =>
      obtain rfl : k = k' := by simpa using hr
      exact ⟨.refl k, 0, by omega, h0⟩

lemma heapLen_eq (h : HeapInv A holes blocks k) (hle : k.heap.startAddress ≤ k.heap.endAddress) :
    k.heapLen = k.heap.endAddress - k.heap.startAddress := by
  have := h.endLt
  exact sub32_eq hle (by omega)

/-- **What growth within the tables there are keeps, `alloc` keeps.** -/
theorem alloc_inv (A : ℕ) {G : ℕ → ℕ → Kernel → Prop} {Q : Kernel → Prop}
    (htag : ∀ {k : Kernel} (m : Mem) (a : SortedArray), Q k → Q (k.retag m a))
    (hgrow : ∀ {mallocAp : MallocAp} {newSize : ℕ} {k k' : Kernel},
      k.heap.startAddress = A + 4 * HEAP_INDEX_SIZE → k.heap.startAddress + newSize < 2 ^ 32 →
      k.heap.endAddress ≤ k.heap.startAddress + newSize → Q k → G k.heapLen newSize k →
      expandPages mallocAp newSize (2 ^ 20) k.heapLen k = some k' →
        Q (k'.setEnd (k.heap.startAddress + newSize))) :
    ∀ (fuel size : ℕ) (pageAlign : Bool) (k : Kernel) (holes blocks : List (ℕ × ℕ)) (p : ℕ)
      (k' : Kernel), HeapInv A holes blocks k → OkAt fuel size pageAlign k →
      GrowsAt G fuel size pageAlign k → alloc fuel size pageAlign k = some (p, k') → Q k → Q k' := by
  intro fuel
  induction fuel with
  | zero => exact fun _ _ _ _ _ _ _ _ _ _ hr => by simp [alloc] at hr
  | succ fuel ih =>
    intro size pageAlign k holes blocks p k' h hok hgrows hr hq
    rcases alloc_cases (alloc_sound A fuel) h hok hr with
      ⟨q, holes', m, a, -, rfl, -⟩ | ⟨k₀, k₂, extra, hg, hr⟩
    · exact htag m a hq
    · obtain ⟨hG, hnext⟩ := hgrows hg.miss
      obtain ⟨holes₂, h₂⟩ := hg.grown
      obtain ⟨hle, hlt⟩ := hg.growOk.noWrap
      obtain ⟨m, a, hk₂⟩ := growHole_retag hg.grow
      have hq₂ : Q k₂ := by
        rw [hk₂]
        exact htag m a (hgrow h.start hlt (by omega) hq hG hg.expand)
      exact ih _ _ _ _ _ _ _ h₂ hg.again (hnext _ hg.expand _ hg.grow) hr hq₂

end Tabled

end Kernel

end OsImplement.Memory
