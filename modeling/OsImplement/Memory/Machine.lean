import OsImplement.Memory.HeapPages
import OsImplement.Memory.Clone

/-!
The machine behind `init_paging`: directories are cloned with memory from the heap, the heap grows,
and frames are taken for other pages, in any order.

Which calls of `alloc` a run may make is a condition `ok`; `System` is what holds throughout as
long as they are sound, and `Stable` says which properties of the kernel come along with it.
-/

namespace OsImplement.Memory

open Lib.Word Lib.Bytes Lib.Interval Lib.Loop Lib.Step

/-! ### Runs -/

/-- The kernel, and the directories that `clone_dir` has made. -/
structure Machine where
  kernel : Kernel
  clones : List ℕ

inductive PageOp where
  | alloc (size : ℕ) (pageAlign : Bool) (ptr : ℕ)
  | clone (src newdir : ℕ)
  | switch (dir : ℕ)
  /-- `alloc_frame(get_page(addr, 1, cur_vm_page_dir), ..)` -/
  | map (addr : ℕ) (isKernel isWritable : Bool)

/-- One call that returns. -/
inductive PageStep : Machine → PageOp → Machine → Prop
  | alloc {k k' : Kernel} {ds : List ℕ} {fuel size ptr : ℕ} {pageAlign : Bool}
      (h : Kernel.alloc fuel size pageAlign k = some (ptr, k')) :
      PageStep ⟨k, ds⟩ (.alloc size pageAlign ptr) ⟨k', ds⟩
  | clone {k k' : Kernel} {ds : List ℕ} {fuel src newdir : ℕ}
      (hs : src = k.vmPageDir ∨ src ∈ ds)
      (h : k.cloneDir (Kernel.mallocAp (Kernel.alloc fuel)) src = some (newdir, k')) :
      PageStep ⟨k, ds⟩ (.clone src newdir) ⟨k', newdir :: ds⟩
  | switch {k : Kernel} {ds : List ℕ} {dir : ℕ} (hd : dir ∈ ds) :
      PageStep ⟨k, ds⟩ (.switch dir) ⟨{ k with curVmPageDir := dir }, ds⟩
  | map {k k' : Kernel} {ds : List ℕ} {fuel addr : ℕ} {isKernel isWritable : Bool} {r : PageRef}
      (ha : addr < 2 ^ 32)
      (h : k.getPage (Kernel.mallocAp (Kernel.alloc fuel)) addr true k.curVmPageDir =
        some (some r, k')) :
      PageStep ⟨k, ds⟩ (.map addr isKernel isWritable)
        ⟨k'.allocFrame (some r) isKernel isWritable, ds⟩

namespace Kernel

/-- The rounds of `clone_dir` from `i` on, with `n` left, call `_malloc_ap` only when `ok`. -/
def SlotsOk (inner : HeapAlloc) (ok : ℕ → Bool → Kernel → Prop) (src newdir : ℕ) :
    ℕ → ℕ → Kernel → Prop
  | 0, _, _ => True
  | n + 1, i, k =>
    (k.tableOf src i ≠ 0 → k.tableOf k.vmPageDir i ≠ k.tableOf src i → ok 4096 true k) ∧
    ∀ k', cloneSlot (mallocAp inner) src newdir k i = some k' →
      SlotsOk inner ok src newdir n (i + 1) k'

/-- `clone_dir(src)` calls `_malloc_ap` only when `ok`. -/
def CloneOk (inner : HeapAlloc) (ok : ℕ → Bool → Kernel → Prop) (src : ℕ) (k : Kernel) : Prop :=
  ok 8196 true k ∧ ∀ newdir phy k₁, mallocAp inner 8196 k = some (newdir, phy, k₁) →
    SlotsOk inner ok src newdir 1024 0
      (k₁.setDir newdir { PageDir.zero with pageDirPhy := add32 phy 0x1000 })

end Kernel

/-- A call makes its calls of `alloc` only when `ok`, and maps pages only when `okMap`. -/
def Machine.CallsOk (ok : ℕ → Bool → Kernel → Prop) (okMap : ℕ → Prop) (s : Machine) :
    PageOp → Prop
  | .alloc size pageAlign _ => ok size pageAlign s.kernel
  | .clone src _ => ∀ fuel, s.kernel.CloneOk (Kernel.alloc fuel) ok src
  | .switch _ => True
  | .map addr _ _ => okMap addr ∧
    (s.kernel.lookupPage addr s.kernel.curVmPageDir = none → ok 4096 true s.kernel)

/-! ### The invariant -/

/-- The table in a slot, if it is one of the boot, below the heap. -/
def Kernel.bootTable (A : ℕ) (k : Kernel) (d i : ℕ) : ℕ :=
  if k.tableOf d i < A then k.tableOf d i else 0

/-- The machine in a sound heap at `A`, with `vm_page_dir` and the tables of the boot below. Every
clone lies in a block of its own and has the tables of the boot, and no other tables down there. -/
structure System (A : ℕ) (holes blocks : List (ℕ × ℕ)) (s : Machine) : Prop where
  heap : HeapInv A holes blocks s.kernel
  kheap : s.kernel.kheap ≠ 0
  vm : s.kernel.vmPageDir < A
  cur : s.kernel.curVmPageDir ∈ s.clones
  clone : ∀ d ∈ s.clones, (d, d + 8196) ∈ blocks
  shares : ∀ d ∈ s.clones, ∀ i < 1024,
    s.kernel.bootTable A d i = s.kernel.bootTable A s.kernel.vmPageDir i

/-- The heap, the kernel directory and the tables of the boot are the same. -/
structure SameKernel (A : ℕ) (k k' : Kernel) : Prop where
  mem : k'.mem = k.mem
  heap : k'.heap = k.heap
  kheap : k'.kheap = k.kheap
  vm : k'.vmPageDir = k.vmPageDir
  dir : k'.dirs k.vmPageDir = k.dirs k.vmPageDir
  tables : ∀ t < A, k'.tables t = k.tables t

/-- A property of the heap, the kernel directory and the tables of the boot that calls of `alloc`
keep when they are sound and `ok`, and that a frame for a page of a clone keeps when `okMap`. -/
structure Stable (A : ℕ) (ok : ℕ → Bool → Kernel → Prop) (okMap : ℕ → Prop)
    (J : Kernel → Prop) : Prop where
  sound : ∀ {size pageAlign k}, ok size pageAlign k → k.AllocOk size pageAlign
  alloc : ∀ {fuel size pageAlign k holes blocks p k'}, HeapInv A holes blocks k →
    ok size pageAlign k → Kernel.alloc fuel size pageAlign k = some (p, k') → J k → J k'
  congr : ∀ {k k'}, SameKernel A k k' → J k → J k'
  map : ∀ {k addr isKernel isWritable}, okMap addr →
    k.bootTable A k.vmPageDir (addr / 0x1000 / 1024) ≠ 0 → J k →
      J (k.allocFrame (some ⟨k.tableOf k.vmPageDir (addr / 0x1000 / 1024), addr / 0x1000 % 1024⟩)
        isKernel isWritable)

/-! ### One call of `alloc` -/

section Steps

variable {A i n size t phy newdir src dirPhy : ℕ} {pageAlign : Bool} {holes blocks : List (ℕ × ℕ)}
  {ds : List ℕ} {ok : ℕ → Bool → Kernel → Prop} {okMap : ℕ → Prop} {J : Kernel → Prop}
  {k k' k₀ : Kernel} {s s' : Machine}

namespace Kernel

lemma bootTable_congr {d d' i' : ℕ} (h : k'.tableOf d' i' = k.tableOf d i) :
    k'.bootTable A d' i' = k.bootTable A d i := by
  rw [bootTable, h, bootTable]

lemma bootTable_zero {d : ℕ} (h : k.tableOf d i = 0) : k.bootTable A d i = 0 := by
  unfold bootTable
  rw [h, ite_self]

lemma bootTable_heap {d : ℕ} (h : A ≤ k.tableOf d i) : k.bootTable A d i = 0 :=
  if_neg (by omega)

lemma PagesKept.bootTable (h : PagesKept A k k') (d i : ℕ) :
    k'.bootTable A d i = k.bootTable A d i := by
  by_cases hd : d = k.vmPageDir
  · subst hd
    rcases h.slots i with hs | ⟨h0, hA⟩
    · exact bootTable_congr hs
    · rw [bootTable_heap hA, bootTable_zero h0]
  · exact bootTable_congr (h.tableOf_ne hd)

end Kernel

lemma SameKernel.heapInv (h : SameKernel A k k') (hi : HeapInv A holes blocks k) :
    HeapInv A holes blocks k' := hi.congr h.mem h.heap

lemma SameKernel.trans {k'' : Kernel} (h : SameKernel A k k') (h' : SameKernel A k' k'') :
    SameKernel A k k'' :=
  ⟨h'.mem.trans h.mem, h'.heap.trans h.heap, h'.kheap.trans h.kheap, h'.vm.trans h.vm,
    (h.vm ▸ h'.dir).trans h.dir, fun t ht => (h'.tables t ht).trans (h.tables t ht)⟩

lemma SameKernel.bootTable (h : SameKernel A k k') (i : ℕ) :
    k'.bootTable A k'.vmPageDir i = k.bootTable A k.vmPageDir i := by
  rw [h.vm]
  refine Kernel.bootTable_congr ?_
  rw [Kernel.tableOf, h.dir, Kernel.tableOf]

/-- What `_malloc_ap` does under `ok`: a new block, and nothing to the page structures but growth. -/
lemma Stable.mallocAp (hJ : Stable A ok okMap J) {fuel : ℕ} (h : HeapInv A holes blocks k)
    (hk : k.kheap ≠ 0) (hok : ok size true k) (hj : J k)
    (hm : Kernel.mallocAp (Kernel.alloc fuel) size k = some (t, phy, k')) :
    ∃ holes' extra, HeapInv A holes' ((t, t + size) :: extra ++ blocks) k' ∧
      k.PagesKept A k' ∧ J k' := by
  obtain ⟨hr, -⟩ := Kernel.mallocAp_cases hk hm
  have hokAt := hJ.sound hok fuel
  obtain ⟨holes', extra, h', -⟩ := alloc_sound A fuel _ _ _ _ _ _ _ h hokAt hr
  exact ⟨holes', extra, h', Kernel.alloc_keeps A fuel _ _ _ _ _ _ _ h hk hokAt hr,
    hJ.alloc h hok hr hj⟩

/-! ### The loop of `clone_dir` -/

/-- The loop of `clone_dir` after `n` rounds: `k₀` is the state before it. -/
structure CloneLoop (A : ℕ) (J : Kernel → Prop) (blocks : List (ℕ × ℕ)) (newdir dirPhy : ℕ)
    (k₀ : Kernel) (n : ℕ) (k : Kernel) : Prop where
  heap : ∃ holes extra, HeapInv A holes (extra ++ blocks) k
  kheap : k.kheap ≠ 0
  vm : k.vmPageDir = k₀.vmPageDir
  cur : k.curVmPageDir = k₀.curVmPageDir
  dirs : ∀ d ≠ k₀.vmPageDir, d ≠ newdir → k.dirs d = k₀.dirs d
  phy : (k.dirs newdir).pageDirPhy = dirPhy
  boot : ∀ i, k.bootTable A k.vmPageDir i = k₀.bootTable A k₀.vmPageDir i
  prop : J k
  done : ∀ i < n, k.bootTable A newdir i = k.bootTable A k.vmPageDir i
  rest : ∀ i, n ≤ i → k.tableOf newdir i = 0

lemma cur_cloneEntries (src t n : ℕ) (k : Kernel) :
    ((List.range n).foldl (Kernel.cloneEntry src t) k).curVmPageDir = k.curVmPageDir := by
  refine foldl_range_inv (P := fun _ (k' : Kernel) => k'.curVmPageDir = k.curVmPageDir) rfl
    fun i _ k' h => ?_
  rw [← h]
  unfold Kernel.cloneEntry
  split <;> rfl

lemma sameKernel_cloneEntries (ht : A ≤ t) (src : ℕ) (k : Kernel) :
    SameKernel A k ((List.range 1024).foldl (Kernel.cloneEntry src t)
      (k.setTable t fun _ => .zero)) := by
  have ho := Kernel.onlyTable_cloneEntries src t 1024 (k.setTable t fun _ => .zero)
  obtain ⟨h1, h2, h3, -⟩ := ho.records
  refine ⟨h1, h2, h3, ho.vm, congrFun ho.dirs _, fun t' ht' => ?_⟩
  rw [ho.others t' (by omega), Kernel.tables_setTable, if_neg (by omega)]

lemma CloneLoop.next {k₁ : Kernel} (hvm : newdir ≠ k₀.vmPageDir)
    (h : CloneLoop A J blocks newdir dirPhy k₀ n k) (hkept : k.PagesKept A k₁)
    (hs : SameKernel A k₁ k') (hcur : k'.curVmPageDir = k₁.curVmPageDir)
    (hdirs : ∀ d ≠ newdir, k'.dirs d = k₁.dirs d)
    (hphy : (k'.dirs newdir).pageDirPhy = (k₁.dirs newdir).pageDirPhy)
    (hnew : ∀ i ≠ n, k'.tableOf newdir i = k₁.tableOf newdir i)
    (hheap : ∃ holes extra, HeapInv A holes (extra ++ blocks) k') (hj : J k')
    (hdone : k'.bootTable A newdir n = k.bootTable A k.vmPageDir n) :
    CloneLoop A J blocks newdir dirPhy k₀ (n + 1) k' := by
  have hboot (i : ℕ) : k'.bootTable A k'.vmPageDir i = k.bootTable A k.vmPageDir i := by
    rw [hs.bootTable, hkept.vm, hkept.bootTable]
  have hnv : newdir ≠ k.vmPageDir := by
    rw [h.vm]
    exact hvm
  refine ⟨hheap, ?_, hs.vm.trans (hkept.vm.trans h.vm), hcur.trans (hkept.cur.trans h.cur),
    fun d hd hn => ?_, ?_, fun i => (hboot i).trans (h.boot i), hj, fun i hi => ?_, fun i hi => ?_⟩
  · rw [hs.kheap, hkept.kheap]
    exact h.kheap
  · rw [hdirs d hn, hkept.dirs d (by rw [h.vm]; exact hd), h.dirs d hd hn]
  · rw [hphy, hkept.dirs newdir hnv, h.phy]
  · rw [hboot]
    rcases Nat.lt_succ_iff_lt_or_eq.mp hi with hi | rfl
    · rw [Kernel.bootTable_congr (hnew i (by omega)), hkept.bootTable, h.done i hi]
    · exact hdone
  · rw [hnew i (by omega), hkept.tableOf_ne hnv]
    exact h.rest i (by omega)

lemma CloneLoop.step (hJ : Stable A ok okMap J) {fuel : ℕ} (hvm : newdir ≠ k₀.vmPageDir)
    (hsrc : src ≠ newdir) (hn : n < 1024)
    (hshare : ∀ i < 1024, k₀.bootTable A src i = k₀.bootTable A k₀.vmPageDir i)
    (h : CloneLoop A J blocks newdir dirPhy k₀ n k)
    (hok : k.tableOf src n ≠ 0 → k.tableOf k.vmPageDir n ≠ k.tableOf src n → ok 4096 true k)
    (hr : k.cloneSlot (Kernel.mallocAp (Kernel.alloc fuel)) src newdir n = some k') :
    CloneLoop A J blocks newdir dirPhy k₀ (n + 1) k' := by
  have hvn : k.vmPageDir ≠ newdir := by
    rw [h.vm]
    exact hvm.symm
  -- the source has the tables of the boot
  have hfrom : k.bootTable A src n = k.bootTable A k.vmPageDir n := by
    by_cases hsv : src = k.vmPageDir
    · rw [hsv]
    · rw [h.boot, ← hshare n hn]
      refine Kernel.bootTable_congr ?_
      rw [Kernel.tableOf, h.dirs src (by rwa [← h.vm]) hsrc, Kernel.tableOf]
  unfold Kernel.cloneSlot at hr
  split at hr
  · next h0 =>
    obtain rfl := Option.some.inj hr
    refine h.next hvm (.refl A k) ⟨rfl, rfl, rfl, rfl, rfl, fun _ _ => rfl⟩ rfl (fun _ _ => rfl)
      rfl (fun _ _ => rfl) h.heap h.prop ?_
    rw [← hfrom, Kernel.bootTable_zero h0, Kernel.bootTable_zero (h.rest n le_rfl)]
  · split at hr
    · next hshared =>
      obtain rfl := Option.some.inj hr
      have hslot (i : ℕ) := @Kernel.tableOf_setSlot k newdir n (k.tableOf src n)
        ((k.dirs src).pageTablePhy n) newdir i
      have hs : SameKernel A k (k.setSlot newdir n (k.tableOf src n)
          ((k.dirs src).pageTablePhy n)) :=
        ⟨rfl, rfl, rfl, rfl, Function.update_of_ne hvn _ _, fun _ _ => rfl⟩
      obtain ⟨holes, extra, hheap⟩ := h.heap
      refine h.next hvm (.refl A k) hs rfl (fun d hd => Function.update_of_ne hd _ _) ?_
        (fun i hi => ?_) ⟨holes, extra, hs.heapInv hheap⟩ (hJ.congr hs h.prop) ?_
      · simp [Kernel.setSlot, Kernel.setDir]
      · rw [hslot, if_neg fun he => hi he.2]
      · rw [← hfrom]
        exact Kernel.bootTable_congr (by rw [hslot, if_pos ⟨rfl, rfl⟩])
    · next hne hpriv =>
      obtain ⟨⟨t, phy, k₂⟩, hm, hr⟩ := Option.bind_eq_some_iff.mp hr
      obtain rfl := Option.some.inj hr
      obtain ⟨k₁, hm, hk₂⟩ := Kernel.cloneTable_cases hm
      obtain ⟨holes, extra, hheap⟩ := h.heap
      obtain ⟨holes₁, extra₁, h₁, hkept, hj₁⟩ :=
        hJ.mallocAp hheap h.kheap (hok hne hpriv) h.prop hm
      have ht : A ≤ t := by
        have := (h₁.block (t, t + 4096) (by simp)).1
        omega
      have hv₁ : newdir ≠ k₁.vmPageDir := by
        rw [hkept.vm]
        exact hvn.symm
      have hs₂ := sameKernel_cloneEntries ht (k.tableOf src n) k₁
      have hdirs₂ := (Kernel.onlyTable_cloneEntries (k.tableOf src n) t 1024
        (k₁.setTable t fun _ => .zero)).dirs
      have hcur₂ := cur_cloneEntries (k.tableOf src n) t 1024 (k₁.setTable t fun _ => .zero)
      rw [← hk₂] at hs₂ hdirs₂ hcur₂
      have hs : SameKernel A k₁ (k₂.setSlot newdir n t (phy ||| 7)) := by
        refine hs₂.trans ⟨rfl, rfl, rfl, rfl, Function.update_of_ne ?_ _ _, fun _ _ => rfl⟩
        rw [hs₂.vm]
        exact hv₁.symm
      refine h.next hvm hkept hs hcur₂ (fun d hd => ?_) ?_ (fun i hi => ?_)
        ⟨holes₁, (t, t + 4096) :: extra₁ ++ extra, ?_⟩ (hJ.congr hs hj₁) ?_
      · exact (Function.update_of_ne hd _ _).trans (congrFun hdirs₂ d)
      · simp only [Kernel.setSlot, Kernel.setDir, Function.update_self]
        rw [hdirs₂]
        rfl
      · rw [Kernel.tableOf_setSlot, if_neg fun he => hi he.2, Kernel.tableOf, hdirs₂]
        rfl
      · rw [List.append_assoc]
        exact hs.heapInv h₁
      · -- a table of the boot would have been shared
        have hnew : (k₂.setSlot newdir n t (phy ||| 7)).tableOf newdir n = t := by
          rw [Kernel.tableOf_setSlot, if_pos ⟨rfl, rfl⟩]
        rw [Kernel.bootTable_heap (show A ≤ _ by rw [hnew]; exact ht)]
        unfold Kernel.bootTable at hfrom ⊢
        by_cases hlow : k.tableOf k.vmPageDir n < A
        · rw [if_pos hlow] at hfrom ⊢
          by_cases hlow' : k.tableOf src n < A
          · rw [if_pos hlow'] at hfrom
            exact absurd hfrom.symm hpriv
          · rw [if_neg hlow'] at hfrom
            exact hfrom
        · rw [if_neg hlow]

lemma Kernel.slotsOk_of {inner : HeapAlloc} {P : ℕ → Kernel → Prop}
    (h : ∀ i < 1024, ∀ k, P i k →
      (k.tableOf src i ≠ 0 → k.tableOf k.vmPageDir i ≠ k.tableOf src i → ok 4096 true k) ∧
      ∀ k', Kernel.cloneSlot (Kernel.mallocAp inner) src newdir k i = some k' → P (i + 1) k') :
    ∀ (n i : ℕ) (k : Kernel), i + n = 1024 → P i k →
      Kernel.SlotsOk inner ok src newdir n i k := by
  intro n
  induction n with
  | zero => exact fun _ _ _ _ => trivial
  | succ n ih =>
    intro i k hi hP
    obtain ⟨hok, hnext⟩ := h i (by omega) k hP
    exact ⟨hok, fun k' hk' => ih _ _ (by omega) (hnext k' hk')⟩

/-! ### Steps -/

lemma System.clone_low (h : System A holes blocks ⟨k, ds⟩) {d : ℕ} (hd : d ∈ ds) :
    A + 4 * HEAP_INDEX_SIZE ≤ d ∧ d ≠ k.vmPageDir := by
  have hlo := (h.heap.block _ (h.clone d hd)).1
  have hvm := h.vm
  simp only at hlo hvm
  exact ⟨hlo, by omega⟩

lemma System.source (h : System A holes blocks ⟨k, ds⟩) (hs : src = k.vmPageDir ∨ src ∈ ds)
    (hi : i < 1024) : k.bootTable A src i = k.bootTable A k.vmPageDir i := by
  rcases hs with rfl | hs
  · rfl
  · exact h.shares src hs i hi

lemma System.keep {holes' blocks' : List (ℕ × ℕ)} (h : System A holes blocks ⟨k, ds⟩)
    (hheap : HeapInv A holes' blocks' k') (hsub : blocks ⊆ blocks') (hkept : k.PagesKept A k') :
    System A holes' blocks' ⟨k', ds⟩ := by
  refine ⟨hheap, ?_, ?_, ?_, fun d hd => hsub (h.clone d hd), fun d hd i hi => ?_⟩
  · show k'.kheap ≠ 0
    rw [hkept.kheap]
    exact h.kheap
  · show k'.vmPageDir < A
    rw [hkept.vm]
    exact h.vm
  · show k'.curVmPageDir ∈ ds
    rw [hkept.cur]
    exact h.cur
  · show k'.bootTable A d i = k'.bootTable A k'.vmPageDir i
    rw [hkept.bootTable, hkept.vm, hkept.bootTable]
    exact h.shares d hd i hi

lemma System.alloc (hJ : Stable A ok okMap J) {fuel p : ℕ} (h : System A holes blocks ⟨k, ds⟩)
    (hj : J k) (hok : ok size pageAlign k)
    (hr : Kernel.alloc fuel size pageAlign k = some (p, k')) :
    ∃ holes' extra, System A holes' ((p, p + size) :: extra ++ blocks) ⟨k', ds⟩ ∧ J k' := by
  have hokAt := hJ.sound hok fuel
  obtain ⟨holes', extra, h', -⟩ := alloc_sound A fuel _ _ _ _ _ _ _ h.heap hokAt hr
  have hkept := Kernel.alloc_keeps A fuel _ _ _ _ _ _ _ h.heap h.kheap hokAt hr
  exact ⟨holes', extra, h.keep h' (List.subset_append_right _ _) hkept, hJ.alloc h.heap hok hr hj⟩

lemma HeapInv.fresh {p n n' : ℕ} (h : HeapInv A holes ((p, p + n) :: blocks) k) (hn : 0 < n)
    (hn' : 0 < n') : (p, p + n') ∉ blocks := by
  intro hp
  have hap := (List.pairwise_cons.mp (List.pairwise_append.mp h.apart).2.1).1 _ hp
  unfold Apart at hap
  simp only at hap
  omega

lemma System.mallocAp (hJ : Stable A ok okMap J) {fuel : ℕ} (h : System A holes blocks ⟨k, ds⟩)
    (hj : J k) (hok : ok size true k)
    (hm : Kernel.mallocAp (Kernel.alloc fuel) size k = some (t, phy, k')) :
    ∃ holes' extra, System A holes' ((t, t + size) :: extra ++ blocks) ⟨k', ds⟩ ∧
      k.PagesKept A k' ∧ J k' ∧ A + 4 * HEAP_INDEX_SIZE ≤ t ∧ (0 < size → t ∉ ds) := by
  obtain ⟨holes', extra, h', hkept, hj'⟩ := hJ.mallocAp h.heap h.kheap hok hj hm
  have hlo := (h'.block (t, t + size) (by simp)).1
  refine ⟨holes', extra, h.keep h' (fun b hb => by simp [hb]) hkept, hkept, hj', hlo,
    fun hpos hd => ?_⟩
  rw [List.cons_append] at h'
  exact h'.fresh hpos (by decide) (List.mem_append_right _ (h.clone t hd))

theorem System.cloneDir (hJ : Stable A ok okMap J) {fuel : ℕ} (h : System A holes blocks ⟨k, ds⟩)
    (hj : J k) (hs : src = k.vmPageDir ∨ src ∈ ds)
    (hok : k.CloneOk (Kernel.alloc fuel) ok src)
    (hr : k.cloneDir (Kernel.mallocAp (Kernel.alloc fuel)) src = some (newdir, k')) :
    ∃ phy k₁ holes₁ extra₁ holes' extra',
      Kernel.mallocAp (Kernel.alloc fuel) 8196 k = some (newdir, phy, k₁) ∧
      System A holes₁ ((newdir, newdir + 8196) :: extra₁ ++ blocks) ⟨k₁, ds⟩ ∧ J k₁ ∧
      System A holes' (extra' ++ ((newdir, newdir + 8196) :: extra₁ ++ blocks))
        ⟨k', newdir :: ds⟩ ∧ J k' ∧ k'.vmPageDir = k.vmPageDir ∧
      k'.curVmPageDir = k.curVmPageDir ∧ (k'.dirs newdir).pageDirPhy = add32 phy 0x1000 := by
  obtain ⟨phy, k₁, hm, hf⟩ := Kernel.cloneDir_cases hr
  obtain ⟨holes₁, extra₁, h₁, hkept, hj₁, hlo, hnew⟩ := h.mallocAp hJ hj hok.1 hm
  have hvm₁ : k₁.vmPageDir < A := h₁.vm
  have hnv : newdir ≠ k₁.vmPageDir := by omega
  have hnd : newdir ∉ ds := hnew (by decide)
  have hsrc₁ : src = k₁.vmPageDir ∨ src ∈ ds := by
    rw [hkept.vm]
    exact hs
  have hsn : src ≠ newdir := by
    rcases hsrc₁ with rfl | hs
    · exact hnv.symm
    · exact fun e => hnd (e ▸ hs)
  set k₂ := k₁.setDir newdir { PageDir.zero with pageDirPhy := add32 phy 0x1000 } with hk₂
  have hself : k₂.dirs newdir = { PageDir.zero with pageDirPhy := add32 phy 0x1000 } :=
    Function.update_self ..
  have hother {d : ℕ} (hd : d ≠ newdir) : k₂.dirs d = k₁.dirs d := Function.update_of_ne hd _ _
  have hs₂ : SameKernel A k₁ k₂ := ⟨rfl, rfl, rfl, rfl, hother hnv.symm, fun _ _ => rfl⟩
  have hstart : CloneLoop A J ((newdir, newdir + 8196) :: extra₁ ++ blocks) newdir
      (add32 phy 0x1000) k₂ 0 k₂ := by
    refine ⟨⟨holes₁, [], hs₂.heapInv h₁.heap⟩, h₁.kheap, rfl, rfl, fun _ _ _ => rfl, ?_,
      fun _ => rfl, hJ.congr hs₂ hj₁, fun i hi => absurd hi (by omega), fun i _ => ?_⟩
    · rw [hself]
    · rw [Kernel.tableOf, hself]
      rfl
  have hrun := foldlM_range_inv (P := fun n t =>
      CloneLoop A J ((newdir, newdir + 8196) :: extra₁ ++ blocks) newdir (add32 phy 0x1000) k₂ n t ∧
        t.SlotsOk (Kernel.alloc fuel) ok src newdir (1024 - n) n)
    ⟨hstart, hok.2 _ _ _ hm⟩ (fun n hn t t' hround ht => ?_) hf
  · obtain ⟨hloop, -⟩ := hrun
    obtain ⟨holes', extra', hheap⟩ := hloop.heap
    have hv : k'.vmPageDir = k₁.vmPageDir := hloop.vm
    have hcur : k'.curVmPageDir = k₁.curVmPageDir := hloop.cur
    refine ⟨phy, k₁, holes₁, extra₁, holes', extra', hm, h₁, hj₁, ⟨hheap, hloop.kheap, ?_, ?_,
      fun d hd => ?_, fun d hd i hi => ?_⟩, hloop.prop, hv.trans hkept.vm, hcur.trans hkept.cur,
      hloop.phy⟩
    · show k'.vmPageDir < A
      rw [hv]
      exact hvm₁
    · show k'.curVmPageDir ∈ newdir :: ds
      rw [hcur]
      exact List.mem_cons_of_mem _ h₁.cur
    · rcases List.mem_cons.mp hd with rfl | hd
      · simp
      · simp [h.clone d hd]
    · show k'.bootTable A d i = k'.bootTable A k'.vmPageDir i
      rcases List.mem_cons.mp hd with rfl | hd
      · exact hloop.done i hi
      · have hdn : d ≠ newdir := fun e => hnd (e ▸ hd)
        rw [hloop.boot, Kernel.bootTable_congr (show k'.tableOf d i = k₂.tableOf d i by
          rw [Kernel.tableOf, hloop.dirs d (h₁.clone_low hd).2 hdn, Kernel.tableOf])]
        rw [hs₂.bootTable, Kernel.bootTable_congr (show k₂.tableOf d i = k₁.tableOf d i by
          rw [Kernel.tableOf, hother hdn, Kernel.tableOf])]
        exact h₁.shares d hd i hi
  · obtain ⟨hloop, hslots⟩ := hround
    obtain ⟨left, hleft⟩ : ∃ left, 1024 - n = left + 1 := ⟨1024 - n - 1, by omega⟩
    rw [hleft] at hslots
    refine ⟨hloop.step hJ hnv hsn hn (fun i hi => ?_) hslots.1 ht, ?_⟩
    · rw [hs₂.bootTable, Kernel.bootTable_congr (show k₂.tableOf src i = k₁.tableOf src i by
        rw [Kernel.tableOf, hother hsn, Kernel.tableOf])]
      exact h₁.source hsrc₁ hi
    · rw [show 1024 - (n + 1) = left by omega]
      exact hslots.2 t' ht

lemma System.map (hJ : Stable A ok okMap J) {fuel addr : ℕ} {isKernel isWritable : Bool}
    {r : PageRef} (h : System A holes blocks ⟨k, ds⟩) (hj : J k) (ha : addr < 2 ^ 32)
    (hmap : okMap addr) (hok : k.lookupPage addr k.curVmPageDir = none → ok 4096 true k)
    (hr : k.getPage (Kernel.mallocAp (Kernel.alloc fuel)) addr true k.curVmPageDir =
      some (some r, k')) :
    ∃ holes' blocks', blocks ⊆ blocks' ∧
      System A holes' blocks' ⟨k'.allocFrame (some r) isKernel isWritable, ds⟩ ∧
      J (k'.allocFrame (some r) isKernel isWritable) := by
  set i := addr / 0x1000 / 1024 with hi
  have hi' : i < 1024 := by omega
  have hshare := h.shares _ h.cur i hi'
  have hframe {k₁ : Kernel} {holes' blocks' : List (ℕ × ℕ)} (h₁ : System A holes' blocks' ⟨k₁, ds⟩) :
      System A holes' blocks' ⟨k₁.allocFrame (some r) isKernel isWritable, ds⟩ :=
    h₁.keep (h₁.heap.congr Kernel.mem_allocFrame Kernel.heap_allocFrame) (List.Subset.refl _)
      ((Kernel.onlyFrames_allocFrame k₁ r isKernel isWritable).pagesKept A)
  have hsame {k₁ : Kernel} (hA : A ≤ r.table) :
      SameKernel A k₁ (k₁.allocFrame (some r) isKernel isWritable) :=
    ⟨rfl, rfl, rfl, rfl, rfl, fun t ht => Kernel.tables_allocFrame_of_ne (by omega)⟩
  rcases Kernel.getPage_cases hr with ⟨h0, rfl, hr'⟩ | ⟨h0, t, phy, k₁, hm, rfl, hr'⟩
  · obtain rfl := Option.some.inj hr'
    refine ⟨holes, blocks, List.Subset.refl _, hframe h, ?_⟩
    by_cases hlow : k'.tableOf k'.curVmPageDir i < A
    · -- the table is one of the boot
      rw [Kernel.bootTable, if_pos hlow] at hshare
      have hvm : k'.tableOf k'.vmPageDir i = k'.tableOf k'.curVmPageDir i := by
        unfold Kernel.bootTable at hshare
        split_ifs at hshare
        · exact hshare.symm
        · exact absurd hshare h0
      have := @Stable.map _ _ _ _ hJ _ _ isKernel isWritable hmap
        (show k'.bootTable A k'.vmPageDir i ≠ 0 by rw [← hshare]; exact h0) hj
      rwa [hvm] at this
    · exact hJ.congr (hsame (not_lt.mp hlow)) hj
  · obtain rfl := Option.some.inj hr'
    obtain ⟨holes', extra, h₁, hkept, hj₁, hlo, hnew⟩ :=
      h.mallocAp hJ hj (hok (Kernel.lookupPage_none h0)) hm
    have hcur : k₁.curVmPageDir = k.curVmPageDir := hkept.cur
    have hcv : k₁.vmPageDir ≠ k.curVmPageDir := by
      rw [← hcur]
      exact (h₁.clone_low h₁.cur).2.symm
    set k₂ := (k₁.setSlot k.curVmPageDir i t (phy ||| 7)).setTable t fun _ => .zero with hk₂
    have hs₂ : SameKernel A k₁ k₂ :=
      ⟨rfl, rfl, rfl, rfl, Function.update_of_ne hcv _ _, fun t' ht' => by
        rw [hk₂, Kernel.tables_setTable, if_neg (by omega), Kernel.tables_setSlot]⟩
    have hslot (d i' : ℕ) : k₂.tableOf d i' = if d = k.curVmPageDir ∧ i' = i then t
        else k₁.tableOf d i' := Kernel.tableOf_setSlot
    have hboot (d i' : ℕ) (hi' : i' < 1024) (hd : d ∈ ds) :
        k₂.bootTable A d i' = k₁.bootTable A d i' := by
      by_cases he : d = k.curVmPageDir ∧ i' = i
      · obtain ⟨rfl, rfl⟩ := he
        rw [Kernel.bootTable_heap (by rw [hslot, if_pos ⟨rfl, rfl⟩]; omega), hkept.bootTable,
          Kernel.bootTable_zero h0]
      · exact Kernel.bootTable_congr (by rw [hslot, if_neg he])
    have h₂ : System A holes' ((t, t + 4096) :: extra ++ blocks) ⟨k₂, ds⟩ :=
      ⟨hs₂.heapInv h₁.heap, h₁.kheap, h₁.vm, h₁.cur, h₁.clone, fun d hd i' hi' => by
        show k₂.bootTable A d i' = k₂.bootTable A k₂.vmPageDir i'
        rw [hboot d i' hi' hd, hs₂.bootTable]
        exact h₁.shares d hd i' hi'⟩
    exact ⟨holes', _, List.subset_append_right _ _, hframe h₂,
      hJ.congr (hsame (show A ≤ t by omega)) (hJ.congr hs₂ hj₁)⟩

theorem PageStep.system (hJ : Stable A ok okMap J) {op : PageOp} (h : System A holes blocks s)
    (hj : J s.kernel) (hok : s.CallsOk ok okMap op) (hr : PageStep s op s') :
    ∃ holes' blocks', blocks ⊆ blocks' ∧ System A holes' blocks' s' ∧ J s'.kernel := by
  cases hr with
  | alloc hc =>
    obtain ⟨holes', extra, h', hj'⟩ := h.alloc hJ hj hok hc
    exact ⟨holes', _, List.subset_append_right _ _, h', hj'⟩
  | clone hs hc =>
    obtain ⟨_, _, _, _, holes', _, _, _, _, h', hj', -⟩ := h.cloneDir hJ hj hs (hok _) hc
    exact ⟨holes', _, fun b hb => by simp [hb], h', hj'⟩
  | @switch k ds dir hd =>
    have hsame : SameKernel A k { k with curVmPageDir := dir } :=
      ⟨rfl, rfl, rfl, rfl, rfl, fun _ _ => rfl⟩
    exact ⟨holes, blocks, List.Subset.refl _,
      ⟨h.heap.congr rfl rfl, h.kheap, h.vm, hd, h.clone, h.shares⟩, hJ.congr hsame hj⟩
  | map ha hc => exact h.map hJ hj ha hok.1 hok.2 hc

lemma PageStep.kept (hJ : Stable A ok okMap J) {op : PageOp} (h : System A holes blocks s)
    (hj : J s.kernel) (hok : s.CallsOk ok okMap op) (hr : PageStep s op s') :
    s.clones ⊆ s'.clones ∧
      ((∀ dir, op ≠ .switch dir) → s'.kernel.curVmPageDir = s.kernel.curVmPageDir) := by
  cases hr with
  | alloc hc =>
    exact ⟨List.Subset.refl _, fun _ =>
      (Kernel.alloc_keeps A _ _ _ _ _ _ _ _ h.heap h.kheap (hJ.sound hok _) hc).cur⟩
  | clone hs hc =>
    obtain ⟨_, _, _, _, _, _, -, -, -, -, -, -, hcur, -⟩ := h.cloneDir hJ hj hs (hok _) hc
    exact ⟨List.subset_cons_self _ _, fun _ => hcur⟩
  | switch hd => exact ⟨List.Subset.refl _, fun hne => absurd rfl (hne _)⟩
  | map ha hc =>
    refine ⟨List.Subset.refl _, fun _ => ?_⟩
    rcases Kernel.getPage_cases hc with ⟨-, rfl, -⟩ | ⟨h0, t, phy, k₁, hm, rfl, -⟩
    · rfl
    · obtain ⟨_, _, -, hkept, -⟩ :=
        hJ.mallocAp h.heap h.kheap (hok.2 (Kernel.lookupPage_none h0)) hj hm
      exact hkept.cur

lemma PageStep.clone_fresh (hJ : Stable A ok okMap J) (h : System A holes blocks s)
    (hj : J s.kernel) (hok : s.CallsOk ok okMap (.clone src newdir))
    (hr : PageStep s (.clone src newdir) s') : newdir ∉ s.clones ∧ newdir ∈ s'.clones := by
  cases hr with
  | clone hs hc =>
    obtain ⟨_, _, _, _, _, _, -, hsys, -⟩ := h.cloneDir hJ hj hs (hok _) hc
    refine ⟨fun hd => ?_, List.mem_cons_self ..⟩
    have hheap := hsys.heap
    rw [List.cons_append] at hheap
    exact hheap.fresh (by decide) (by decide) (List.mem_append_right _ (h.clone _ hd))

lemma PageStep.alloc_block (hJ : Stable A ok okMap J) {p : ℕ} (h : System A holes blocks s)
    (hj : J s.kernel) (hok : s.CallsOk ok okMap (.alloc size pageAlign p))
    (hr : PageStep s (.alloc size pageAlign p) s') :
    ∃ holes' extra, System A holes' ((p, p + size) :: (extra ++ blocks)) s' ∧ J s'.kernel := by
  cases hr with
  | alloc hc => exact h.alloc hJ hj hok hc

theorem Machine.run_system {s₀ : Machine} {ops : List PageOp} (hJ : Stable A ok okMap J)
    (h : ∃ holes blocks, System A holes blocks s₀) (hj : J s₀.kernel)
    (hr : Run (fun s op s' => PageStep s op s' ∧ s.CallsOk ok okMap op) s₀ ops s) :
    (∃ holes blocks, System A holes blocks s) ∧ J s.kernel := by
  refine hr.inv (I := fun _ s => (∃ holes blocks, System A holes blocks s) ∧ J s.kernel) ⟨h, hj⟩ ?_
  rintro _ s op s' ⟨⟨holes, blocks, h⟩, hj⟩ ⟨hstep, hok⟩
  obtain ⟨holes', blocks', -, h', hj'⟩ := hstep.system hJ h hj hok
  exact ⟨⟨holes', blocks', h'⟩, hj'⟩

/-! ### A clone of `vm_page_dir` -/

lemma Kernel.slotsOk_vm {inner : HeapAlloc} : ∀ (n i : ℕ) (k : Kernel), k.vmPageDir = src →
    SlotsOk inner ok src newdir n i k := by
  intro n
  induction n with
  | zero => exact fun _ _ _ => trivial
  | succ n ih =>
    intro i k hvm
    subst hvm
    refine ⟨fun _ hne => absurd rfl hne, fun k' hk' => ih _ _ ?_⟩
    unfold cloneSlot at hk'
    rw [if_pos rfl] at hk'
    split at hk'
    · rw [← Option.some.inj hk']
    · rw [← Option.some.inj hk']
      rfl

lemma System.cloneOk_vm {fuel : ℕ} (h : System A holes blocks ⟨k, ds⟩) (hok : ok 8196 true k)
    (hal : k.AllocOk 8196 true) : k.CloneOk (Kernel.alloc fuel) ok k.vmPageDir := by
  refine ⟨hok, fun newdir phy k₁ hm => Kernel.slotsOk_vm _ _ _ ?_⟩
  obtain ⟨hr, -⟩ := Kernel.mallocAp_cases h.kheap hm
  exact (Kernel.alloc_keeps A fuel _ _ _ _ _ _ _ h.heap h.kheap (hal fuel) hr).vm

end Steps

end OsImplement.Memory
