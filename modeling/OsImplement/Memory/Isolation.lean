import OsImplement.Memory.Clone
import OsImplement.Lib.Step

/-!
Address-space isolation over whole runs: any existing directory is cloned, clones of clones
included, and frames are allocated for empty private entries, in any order.
-/

namespace OsImplement.Memory

open Lib.Step Lib.Word

/-! ### Runs -/

/-- The kernel and the directories that exist. -/
structure Spaces where
  kernel : Kernel
  dirs : List ℕ

inductive SpaceOp where
  | clone (src newdir : ℕ)
  | alloc (d i j : ℕ) (isKernel isWritable : Bool)

/-- Entry `j` of a private table of `d` that no other slot of a directory leads to. -/
def Spaces.PrivateEntry (s : Spaces) (d i j : ℕ) : Prop :=
  d ∈ s.dirs ∧ s.kernel.PrivateSlot d i ∧ j < 1024 ∧
    ∀ d' ∈ s.dirs, ∀ i' < 1024, s.kernel.tableOf d' i' = s.kernel.tableOf d i → d' = d ∧ i' = i

/-- One call, while free frames remain: the warning of `alloc_frame` is not printed. -/
inductive SpaceStep (mallocAp : MallocAp) : Spaces → SpaceOp → Spaces → Prop
  | clone {k k' : Kernel} {ds : List ℕ} {src newdir : ℕ} (hs : src ∈ ds)
      (h : k.cloneDir mallocAp src = some (newdir, k')) (hc : k'.console = k.console) :
      SpaceStep mallocAp ⟨k, ds⟩ (.clone src newdir) ⟨k', newdir :: ds⟩
  | alloc {k : Kernel} {ds : List ℕ} {d i j : ℕ} {isKernel isWritable : Bool}
      (hp : Spaces.PrivateEntry ⟨k, ds⟩ d i j) (h0 : k.frameAt d i j = 0)
      (hc : (k.allocFrame (some ⟨k.tableOf d i, j⟩) isKernel isWritable).console = k.console) :
      SpaceStep mallocAp ⟨k, ds⟩ (.alloc d i j isKernel isWritable)
        ⟨k.allocFrame (some ⟨k.tableOf d i, j⟩) isKernel isWritable, ds⟩

/-- What a clone shares: at every index the source's table if `vm_page_dir` has it too, and else a
table that no directory had. -/
structure Spaces.SharesKernel (s s' : Spaces) (src newdir : ℕ) : Prop where
  empty : ∀ i < 1024, s'.kernel.tableOf src i = 0 → s'.kernel.tableOf newdir i = 0
  shared : ∀ i < 1024, s'.kernel.tableOf src i ≠ 0 →
    s'.kernel.tableOf src i = s'.kernel.tableOf s'.kernel.vmPageDir i →
    s'.kernel.tableOf newdir i = s'.kernel.tableOf src i
  fresh : ∀ i < 1024, s'.kernel.tableOf src i ≠ 0 →
    s'.kernel.tableOf src i ≠ s'.kernel.tableOf s'.kernel.vmPageDir i →
    s'.kernel.tableOf newdir i ≠ 0 ∧
      ∀ d ∈ s.dirs, ∀ i' < 1024, s'.kernel.tableOf d i' ≠ s'.kernel.tableOf newdir i

/-- The directory `src` is unchanged. What may differ is the doing of an allocator that `grows`:
new tables of `vm_page_dir` itself, and frames in empty entries of its tables. -/
structure Spaces.SourceKept (grows : Prop) (s s' : Spaces) (src : ℕ) : Prop where
  slots : ∀ i < 1024, s'.kernel.tableOf src i = s.kernel.tableOf src i ∨
    grows ∧ src = s.kernel.vmPageDir ∧ s.kernel.tableOf src i = 0
  entries : ∀ i < 1024, s.kernel.tableOf src i ≠ 0 → ∀ j < 1024,
    s'.kernel.tables (s.kernel.tableOf src i) j = s.kernel.tables (s.kernel.tableOf src i) j ∨
      grows ∧ s.kernel.tableOf src i = s.kernel.tableOf s.kernel.vmPageDir i ∧
        s.kernel.frameAt src i j = 0

/-! ### Steps -/

section Steps

variable {grows : Prop} {live : Kernel → Set ℕ} {mallocAp : MallocAp} {k : Kernel} {s s' : Spaces}
  {o : SpaceOp}

lemma Kernel.Inv.alloc {ds : List ℕ} {d i j : ℕ} {isKernel isWritable : Bool}
    (hA : Kernel.FreshAlloc grows live mallocAp) (hi : k.Inv grows live ds)
    (hp : Spaces.PrivateEntry ⟨k, ds⟩ d i j) (h0 : k.frameAt d i j = 0)
    (hc : (k.allocFrame (some ⟨k.tableOf d i, j⟩) isKernel isWritable).console = k.console) :
    (k.allocFrame (some ⟨k.tableOf d i, j⟩) isKernel isWritable).Inv grows live ds := by
  obtain ⟨hd, hslot, hj, honly⟩ := hp
  obtain ⟨hnew, -, hmap, hpage⟩ :=
    Kernel.allocFrame_spec (r := ⟨k.tableOf d i, j⟩) hi.size h0 hc
  set k' := k.allocFrame (some ⟨k.tableOf d i, j⟩) isKernel isWritable with hk'
  have hslots (d' i' : ℕ) : k'.PrivateSlot d' i' ↔ k.PrivateSlot d' i' := Iff.rfl
  have hself : k'.frameAt d i j = firstFrame k.map := by
    have h := congrArg PageStruct.frame hpage
    exact h
  have hother {d' i' j' : ℕ} (hd' : d' ∈ ds) (hi' : i' < 1024)
      (hne : ¬ (d' = d ∧ i' = i ∧ j' = j)) : k'.frameAt d' i' j' = k.frameAt d' i' j' := by
    refine congrArg PageStruct.frame (Kernel.tables_allocFrame_ne ?_)
    rintro ⟨ht, rfl⟩
    obtain ⟨rfl, rfl⟩ := honly d' hd' i' hi' ht
    exact hne ⟨rfl, rfl, rfl⟩
  have hvne : ¬ k.vmPageDir = d := fun e => hslot.2.2 (by rw [e])
  have hker (f : ℕ) : k'.KernelFrame f ↔ k.KernelFrame f := by
    refine exists_congr fun i' => and_congr_right fun hi' => exists_congr fun j' =>
      and_congr_right fun _ => and_congr_right fun _ => ?_
    rw [show k'.frameAt k'.vmPageDir i' j' = k.frameAt k.vmPageDir i' j' from
      hother hi.vm hi' fun e => hvne e.1]
  have hmark (f : ℕ) : Used k'.map f ↔ f = firstFrame k.map ∨ Used k.map f := by
    rw [hmap, used_setFrame]
  constructor
  · constructor
    · intro d₁ h₁ d₂ h₂ i₁ i₂ hp₁ hp₂ j₁ hj₁ j₂ hj₂ he hne
      by_cases e₁ : d₁ = d ∧ i₁ = i ∧ j₁ = j <;> by_cases e₂ : d₂ = d ∧ i₂ = i ∧ j₂ = j
      · obtain ⟨rfl, rfl, rfl⟩ := e₁
        obtain ⟨rfl, rfl, rfl⟩ := e₂
        exact ⟨rfl, rfl, rfl⟩
      · obtain ⟨rfl, rfl, rfl⟩ := e₁
        rw [hself, hother h₂ hp₂.1 e₂] at he
        rw [hself] at hne
        exact absurd (he ▸ hi.marked d₂ h₂ i₂ hp₂ j₂ hj₂ (he ▸ hne)) hnew
      · obtain ⟨rfl, rfl, rfl⟩ := e₂
        rw [hself, hother h₁ hp₁.1 e₁] at he
        rw [hother h₁ hp₁.1 e₁] at hne
        exact absurd (he ▸ hi.marked d₁ h₁ i₁ hp₁ j₁ hj₁ hne) hnew
      · rw [hother h₁ hp₁.1 e₁] at he hne
        rw [hother h₂ hp₂.1 e₂] at he
        exact hi.distinct d₁ h₁ d₂ h₂ i₁ i₂ hp₁ hp₂ j₁ hj₁ j₂ hj₂ he hne
    · intro d' hd' i' hp' j' hj' hne
      rw [hmark]
      by_cases e : d' = d ∧ i' = i ∧ j' = j
      · obtain ⟨rfl, rfl, rfl⟩ := e
        exact Or.inl hself
      · rw [hother hd' hp'.1 e] at hne ⊢
        exact Or.inr (hi.marked d' hd' i' hp' j' hj' hne)
    · intro d' hd' i' hp' j' hj' hne
      rw [hker]
      by_cases e : d' = d ∧ i' = i ∧ j' = j
      · obtain ⟨rfl, rfl, rfl⟩ := e
        rw [hself] at hne ⊢
        exact fun hk => hnew (hi.kernelMarked _ hk hne)
      · rw [hother hd' hp'.1 e] at hne ⊢
        exact hi.apart d' hd' i' hp' j' hj' hne
  · exact fun f hf hne => (hmark f).mpr (Or.inr (hi.kernelMarked f ((hker f).mp hf) hne))
  · exact (hmark 0).mpr (Or.inr hi.zero)
  · rw [hmap, size_setFrame]
    exact hi.size
  · exact hi.vm
  · rw [hA.records k k' ⟨rfl, rfl, rfl, rfl⟩]
    exact hi.dirLive
  · rw [hA.records k k' ⟨rfl, rfl, rfl, rfl⟩]
    exact hi.tableLive
  · exact hi.own

lemma SpaceStep.inv (hA : Kernel.FreshAlloc grows live mallocAp)
    (hi : s.kernel.Inv grows live s.dirs) (h : SpaceStep mallocAp s o s') :
    s'.kernel.Inv grows live s'.dirs := by
  cases h with
  | clone hs h hc => exact (Kernel.cloneDir_spec hA hi hs h hc).1
  | alloc hp h0 hc => exact hi.alloc hA hp h0 hc

lemma SpaceStep.sharesKernel {src newdir : ℕ} (hA : Kernel.FreshAlloc grows live mallocAp)
    (hi : s.kernel.Inv grows live s.dirs) (h : SpaceStep mallocAp s (.clone src newdir) s') :
    s.SharesKernel s' src newdir := by
  cases h with
  | @clone k k' ds _ _ hs h hc =>
    obtain ⟨hi', hk, hslot⟩ := Kernel.cloneDir_spec hA hi hs h hc
    refine ⟨fun i hi => (hslot i hi).empty, fun i hi => (hslot i hi).shared,
      fun i hil hne hpriv => ?_⟩
    obtain ⟨hne', hL, hv⟩ := (hslot i hil).fresh hne hpriv
    refine ⟨hne', fun d hd i' _ he => ?_⟩
    rcases hk.slots d (hi.dirLive d hd) i' with hsame | ⟨-, rfl, -, -⟩
    · -- a table of the start was in use
      refine hL ?_
      rw [← he, hsame]
      exact hi.tableLive d hd i' (by rw [← hsame, he]; exact hne')
    · -- a table that the allocator added is the kernel's
      exact hv i' (hk.vm ▸ he)

lemma SpaceStep.sourceKept {src newdir : ℕ} (hA : Kernel.FreshAlloc grows live mallocAp)
    (hi : s.kernel.Inv grows live s.dirs) (h : SpaceStep mallocAp s (.clone src newdir) s') :
    s.SourceKept grows s' src := by
  cases h with
  | @clone k k' ds _ _ hs h hc =>
    obtain ⟨-, hk, -⟩ := Kernel.cloneDir_spec hA hi hs h hc
    refine ⟨fun i _ => ?_, fun i hil hne j _ => ?_⟩
    · rcases hk.slots src (hi.dirLive _ hs) i with h | ⟨hg, hv, h0, -⟩
      · exact Or.inl h
      · exact Or.inr ⟨hg, hv, h0⟩
    · rcases hk.entries _ (hi.tableLive _ hs i hne) j with h | ⟨hg, ⟨i', hi', he⟩, h0⟩
      · exact Or.inl h
      · refine Or.inr ⟨hg, ?_, h0⟩
        -- a private table of the source is no table of the kernel
        by_contra hpriv
        exact hi.own hg src hs i ⟨hil, hne, hpriv⟩ i' hi' he

end Steps

/-! ### The result -/

/-- **Isolation.** In every run of clones and allocations, private frames stay distinct, marked and
apart from the kernel's; every clone shares exactly what its source shares with the kernel, and
leaves its source unchanged. -/
theorem spaces_isolated {grows : Prop} {live : Kernel → Set ℕ} {mallocAp : MallocAp}
    (hA : Kernel.FreshAlloc grows live mallocAp) {k : Kernel} {ds : List ℕ}
    (hi : k.Inv grows live ds) {os : List SpaceOp} {s : Spaces}
    (hr : Run (SpaceStep mallocAp) ⟨k, ds⟩ os s) :
    s.kernel.Isolated s.dirs ∧
      ∀ src newdir s', SpaceStep mallocAp s (.clone src newdir) s' →
        s.SharesKernel s' src newdir ∧ s.SourceKept grows s' src := by
  have hinv : s.kernel.Inv grows live s.dirs :=
    hr.inv (I := fun _ s => s.kernel.Inv grows live s.dirs) hi fun _ _ _ _ hi h => h.inv hA hi
  exact ⟨hinv.toIsolated, fun src newdir s' h => ⟨h.sharesKernel hA hinv, h.sourceKept hA hinv⟩⟩

/-! ### Before the heap -/

/-- `_malloc_ap` before the heap is set up, while memory lasts. -/
def placeAp : MallocAp := fun size k =>
  if k.kheap = 0 ∧ 0 < k.placementAddress ∧ 0 < size ∧
      k.placementAddress + 0x1000 + size < 2 ^ 32 then
    k.malloc (fun _ _ _ => none) size true
  else none

/-- What has been handed out lies below `placement_address`. -/
def placeLive (k : Kernel) : Set ℕ := {p | p < k.placementAddress}

lemma placeAp_eq {size p phy : ℕ} {k k' : Kernel} (h : placeAp size k = some (p, phy, k')) :
    0 < p ∧ 0 < size ∧ k.placementAddress ≤ p ∧
      k' = { k with placementAddress := p + size } := by
  unfold placeAp at h
  split at h
  · next hk =>
    rw [Kernel.malloc_place hk.1 hk.2.2.2] at h
    simp only [Option.some.injEq, Prod.mk.injEq] at h
    obtain ⟨rfl, -, rfl⟩ := h
    have hle : k.placementAddress ≤ k.place true := Kernel.le_place
    exact ⟨by omega, hk.2.2.1, hle, rfl⟩
  · exact absurd h (by simp)

theorem freshAlloc_placeAp : Kernel.FreshAlloc False placeLive placeAp where
  records k k' h := by
    unfold placeLive
    rw [h.2.2.2]
  fresh := by
    intro size k p phy k' h
    obtain ⟨hpos, hsize, hle, rfl⟩ := placeAp_eq h
    exact ⟨by omega, ⟨show p < p + size by omega, show ¬ p < k.placementAddress by omega⟩,
      fun _ h => h⟩
  grown := by
    intro size k p phy k' h
    obtain ⟨hpos, hsize, hle, rfl⟩ := placeAp_eq h
    refine ⟨fun q (hq : q < k.placementAddress) => show q < p + size by omega, rfl,
      fun _ _ => rfl, fun _ => Or.inl rfl, fun _ _ _ => rfl, fun _ _ _ => Or.inl rfl,
      fun _ hk _ => Or.inl hk, fun _ h => h, rfl, List.prefix_rfl⟩

namespace Kernel

section Empty

variable {mallocAp : MallocAp} {k : Kernel} {src table newdir i : ℕ} {l : List ℕ}

lemma cloneEntry_empty (hs : (k.tables src i).frame = 0) : cloneEntry src table k i = k := if_pos hs

lemma console_cloneEntry (hfree : firstFrame k.map ≠ NO_FRAME) :
    (cloneEntry src table k i).console = k.console := by
  have halloc : (k.allocFrame (some ⟨table, i⟩) false false).console = k.console :=
    if_neg fun hw => hfree hw.2
  unfold cloneEntry
  split
  · rfl
  · exact halloc

lemma foldl_cloneEntry_empty (h : ∀ j ∈ l, (k.tables src j).frame = 0) :
    l.foldl (cloneEntry src table) k = k := by
  induction l with
  | nil => rfl
  | cons j l ih =>
    rw [List.foldl_cons, cloneEntry_empty (h j (by simp))]
    exact ih fun j hj => h j (by simp [hj])

lemma foldlM_cloneSlot_empty (h : ∀ i ∈ l, k.tableOf src i = 0) :
    l.foldlM (cloneSlot mallocAp src newdir) k = some k := by
  induction l with
  | nil => rfl
  | cons i l ih =>
    rw [List.foldlM_cons, cloneSlot, if_pos (h i (by simp))]
    exact ih fun i hi => h i (by simp [hi])

lemma cloneDir_of_loop {phy : ℕ} {k₁ k' : Kernel} (hm : mallocAp 8196 k = some (newdir, phy, k₁))
    (hl : (List.range 1024).foldlM (cloneSlot mallocAp src newdir)
      (k₁.setDir newdir { PageDir.zero with pageDirPhy := Lib.Word.add32 phy 0x1000 }) = some k') :
    cloneDir mallocAp src k = some (newdir, k') := by
  unfold cloneDir
  simp only [hm, hl, Option.bind_eq_bind, Option.bind_some]

end Empty

lemma placeAp_place {k : Kernel} {size a : ℕ} (h0 : k.kheap = 0) (hp : 0 < k.placementAddress)
    (hs : 0 < size) (htop : k.placementAddress + 0x1000 + size < 2 ^ 32) (ha : k.place true = a) :
    placeAp size k = some (a, a, { k with placementAddress := a + size }) := by
  rw [placeAp, if_pos ⟨h0, hp, hs, htop⟩, malloc_place h0 htop, ha]

end Kernel

/-- A kernel directory at `0x2000` with frame 1, and a task at `0x6000` that shares its table and
has a table of its own with frame 2. -/
def twoSpaces : Kernel where
  mem := fun _ => 0
  heap := ⟨⟨0, 0, 0, fun _ _ _ => 0⟩, 0, 0, 0, false, false⟩
  kheap := 0
  placementAddress := 0x10000
  map := ⟨fun i => if i = 0 then 0xE0 else 0, 512⟩
  tables := fun t j => { PageStruct.zero with
    frame := if t = 0x5000 ∧ j = 0 then 1 else if t = 0x9000 ∧ j = 0 then 2 else 0 }
  dirs := fun d => { PageDir.zero with
    pageTable := fun i => if i = 0 then 0x5000 else if d = 0x6000 ∧ i = 1 then 0x9000 else 0 }
  vmPageDir := 0x2000
  curVmPageDir := 0x6000
  phys := fun _ => 0
  console := []

lemma twoSpaces_private {d i : ℕ} (h : twoSpaces.PrivateSlot d i) : d = 0x6000 ∧ i = 1 := by
  obtain ⟨-, h0, hv⟩ := h
  simp only [Kernel.tableOf, twoSpaces] at h0 hv
  split_ifs at h0 hv with h1 h2 h3 <;> simp_all

lemma twoSpaces_frame {j : ℕ} (h : twoSpaces.frameAt 0x6000 1 j ≠ 0) :
    j = 0 ∧ twoSpaces.frameAt 0x6000 1 j = 2 := by
  simp only [Kernel.frameAt, Kernel.tableOf, twoSpaces] at h ⊢
  split_ifs at h ⊢ <;> simp_all

lemma twoSpaces_kernelFrame {f : ℕ} (h : twoSpaces.KernelFrame f) : f = 0 ∨ f = 1 := by
  obtain ⟨i, -, j, -, -, rfl⟩ := h
  simp only [Kernel.frameAt, Kernel.tableOf, twoSpaces]
  split_ifs <;> simp_all

lemma twoSpaces_inv : twoSpaces.Inv False placeLive [0x6000, 0x2000] := by
  constructor
  · constructor
    · intro d _ d' _ i i' hp hp' j _ j' _ he hne
      obtain ⟨rfl, rfl⟩ := twoSpaces_private hp
      obtain ⟨rfl, rfl⟩ := twoSpaces_private hp'
      exact ⟨rfl, rfl, (twoSpaces_frame hne).1.trans (twoSpaces_frame (he ▸ hne)).1.symm⟩
    · intro d _ i hp j _ hne
      obtain ⟨rfl, rfl⟩ := twoSpaces_private hp
      rw [(twoSpaces_frame hne).2]
      decide
    · intro d _ i hp j _ hne hk
      obtain ⟨rfl, rfl⟩ := twoSpaces_private hp
      rw [(twoSpaces_frame hne).2] at hk
      simpa using twoSpaces_kernelFrame hk
  · intro f hf hne
    obtain rfl := (twoSpaces_kernelFrame hf).resolve_left hne
    decide
  · decide
  · decide
  · decide
  · intro d hd
    show d < 0x10000
    simp only [List.mem_cons, List.not_mem_nil, or_false] at hd
    omega
  · intro d _ i _
    show (if i = 0 then 0x5000 else if d = 0x6000 ∧ i = 1 then 0x9000 else 0) < 0x10000
    split_ifs <;> omega
  · exact fun h => h.elim

/-- A directory as the task's is cloned: one table is shared, and one with at most `n` frames is
copied. -/
lemma Kernel.cloneDir_task {k : Kernel} {n : ℕ} (hkheap : k.kheap = 0)
    (hp : k.placementAddress = 0x10000) (hvm : k.vmPageDir = 0x2000) (hdirs : k.dirs = twoSpaces.dirs)
    (hn : n ≤ 1024) (hempty : ∀ j, n ≤ j → (k.tables 0x9000 j).frame = 0)
    (hcon : ∀ k₁ : Kernel, k₁.map = k.map → k₁.tables 0x9000 = k.tables 0x9000 →
      k₁.tables 0x13000 = (fun _ => .zero) → k₁.console = k.console →
        ((List.range n).foldl (cloneEntry 0x9000 0x13000) k₁).console = k.console) :
    ∃ k', k.cloneDir placeAp 0x6000 = some (0x10000, k') ∧ k'.console = k.console := by
  set k₁ : Kernel := { k with placementAddress := 0x12004 } with hk₁
  set k₂ := k₁.setDir 0x10000
    { PageDir.zero with pageDirPhy := Lib.Word.add32 0x10000 0x1000 } with hk₂
  set k₃ := k₂.setSlot 0x10000 0 0x5000 0 with hk₃
  set k₄ : Kernel := ({ k₃ with placementAddress := 0x14000 } : Kernel).setTable 0x13000
    fun _ => .zero with hk₄
  set k₅ := (List.range n).foldl (cloneEntry 0x9000 0x13000) k₄ with hk₅
  set k₆ := k₅.setSlot 0x10000 1 0x13000 (0x13000 ||| 7) with hk₆
  have hdirs₂ : k₂.dirs 0x6000 = twoSpaces.dirs 0x6000 := by
    rw [hk₂, dirs_setDir_of_ne (by decide), ← hdirs]
  have hvm₂ : k₂.dirs k₂.vmPageDir = twoSpaces.dirs 0x2000 := by
    show k₂.dirs k.vmPageDir = _
    rw [hvm, hk₂, dirs_setDir_of_ne (by decide), ← hdirs]
  have hm : placeAp 8196 k = some (0x10000, 0x10000, k₁) := by
    refine placeAp_place hkheap (by omega) (by omega) (by omega) ?_
    rw [Kernel.place, hp, if_neg (by decide)]
  have hm4 : placeAp 4096 k₃ =
      some (0x13000, 0x13000, { k₃ with placementAddress := 0x14000 }) := by
    have hp3 : k₃.placementAddress = 0x12004 := rfl
    refine placeAp_place hkheap (by omega) (by omega) (by omega) ?_
    rw [Kernel.place, hp3, if_pos (by decide)]
  have htable := onlyTable_cloneEntries 0x9000 0x13000 n k₄
  have hsrc : k₄.tables 0x9000 = k.tables 0x9000 := by
    rw [hk₄, tables_setTable, if_neg (by decide)]
    rfl
  have hloop : (List.range 1024).foldl (cloneEntry 0x9000 0x13000) k₄ = k₅ := by
    rw [show 1024 = n + (1024 - n) by omega, List.range_add, List.foldl_append, ← hk₅]
    refine foldl_cloneEntry_empty fun j hj => ?_
    obtain ⟨j, -, rfl⟩ := List.mem_map.mp hj
    rw [htable.others 0x9000 (by decide), hsrc]
    exact hempty _ (Nat.le_add_right n j)
  have hs0 : cloneSlot placeAp 0x6000 0x10000 k₂ 0 = some k₃ := by
    have ht : k₂.tableOf 0x6000 0 = 0x5000 := by rw [Kernel.tableOf, hdirs₂]; rfl
    have hv : k₂.tableOf k₂.vmPageDir 0 = 0x5000 := by rw [Kernel.tableOf, hvm₂]; rfl
    rw [cloneSlot, ht, hv, if_neg (by decide), if_pos rfl, hdirs₂]
    rfl
  have hs1 : cloneSlot placeAp 0x6000 0x10000 k₃ 1 = some k₆ := by
    have ht : k₃.tableOf 0x6000 1 = 0x9000 := by
      rw [hk₃, tableOf_setSlot, if_neg (by simp), Kernel.tableOf, hdirs₂]
      rfl
    have hv : k₃.tableOf k₃.vmPageDir 1 = 0 := by
      show k₃.tableOf k₂.vmPageDir 1 = 0
      rw [hk₃, tableOf_setSlot, if_neg (by simp), Kernel.tableOf, hvm₂]
      rfl
    rw [cloneSlot, ht, hv, if_neg (by decide), if_neg (by decide), cloneTable, hm4]
    simp only [Option.bind_eq_bind, Option.bind_some, ← hk₄, hloop, ← hk₆]
  have hslot : ∀ i, 2 ≤ i → k₆.tableOf 0x6000 i = 0 := by
    intro i hi
    rw [hk₆, tableOf_setSlot, if_neg (by simp), Kernel.tableOf, htable.dirs]
    show k₃.tableOf 0x6000 i = 0
    rw [hk₃, tableOf_setSlot, if_neg (by simp), Kernel.tableOf, hdirs₂]
    show (if i = 0 then 0x5000 else if 0x6000 = 0x6000 ∧ i = 1 then 0x9000 else 0) = 0
    rw [if_neg (by omega), if_neg (by omega)]
  have hrun : (List.range 1024).foldlM (cloneSlot placeAp 0x6000 0x10000) k₂ = some k₆ := by
    rw [List.range_eq_range', List.range'_succ, List.range'_succ, List.foldlM_cons, hs0,
      Option.bind_eq_bind, Option.bind_some, List.foldlM_cons, hs1, Option.bind_eq_bind,
      Option.bind_some]
    refine foldlM_cloneSlot_empty fun i hi => hslot i ?_
    exact (List.mem_range'_1.mp hi).1
  refine ⟨k₆, cloneDir_of_loop hm hrun, ?_⟩
  rw [hk₆, console_setSlot]
  exact hcon k₄ rfl hsrc (by rw [hk₄, tables_setTable, if_pos rfl]) rfl

theorem spaces_isolated_two : ∃ s : Spaces,
    Run (SpaceStep placeAp) ⟨twoSpaces, [0x6000, 0x2000]⟩
      [.alloc 0x6000 1 1 false true, .clone 0x6000 0x10000] s ∧
    s.kernel.Isolated s.dirs ∧
      ∀ src newdir s', SpaceStep placeAp s (.clone src newdir) s' →
        s.SharesKernel s' src newdir ∧ s.SourceKept False s' src := by
  set k := twoSpaces.allocFrame (some ⟨0x9000, 1⟩) false true with hk
  have halloc : SpaceStep placeAp ⟨twoSpaces, [0x6000, 0x2000]⟩
      (.alloc 0x6000 1 1 false true) ⟨k, [0x6000, 0x2000]⟩ := by
    refine .alloc ⟨by simp, ⟨by decide, by decide, by decide⟩, by decide, fun d _ i _ h => ?_⟩
      (by decide) (by decide +kernel)
    simp only [Kernel.tableOf, twoSpaces] at h
    split_ifs at h <;> simp_all
  have hfirst : firstFrame k.map = 4 := by decide +kernel
  have hsecond : firstFrame (setFrame (4 * 0x1000) k.map) = 5 := by decide +kernel
  have hempty (j : ℕ) (hj : 2 ≤ j) : (k.tables 0x9000 j).frame = 0 := by
    rw [hk, Kernel.tables_allocFrame_ne fun h => absurd h.2 (by simp; omega)]
    show (if 0x9000 = 0x5000 ∧ j = 0 then 1 else if 0x9000 = 0x9000 ∧ j = 0 then 2 else 0) = 0
    rw [if_neg (by omega), if_neg (by omega)]
  obtain ⟨k', hk', hcon'⟩ := @Kernel.cloneDir_task k 2 rfl rfl rfl rfl (by decide) hempty
    fun k₁ hmap hsrc htab hcon => by
      have hne : (k₁.tables 0x9000 0).frame ≠ 0 := by
        rw [hsrc]
        decide +kernel
      have hmap₁ : (Kernel.cloneEntry 0x9000 0x13000 k₁ 0).map =
          setFrame (4 * 0x1000) k.map := by
        rw [Kernel.cloneEntry, if_neg hne, ← hfirst, ← hmap]
        refine (@Kernel.allocFrame_free k₁ ⟨0x13000, 0⟩ false false ?_ ?_ ⟨4, ?_⟩).1
        · rw [hmap]
          decide
        · rw [htab]
          rfl
        · rw [hmap]
          decide +kernel
      refine ((Kernel.console_cloneEntry ?_).trans (Kernel.console_cloneEntry ?_)).trans hcon
      · show firstFrame (Kernel.cloneEntry 0x9000 0x13000 k₁ 0).map ≠ NO_FRAME
        rw [hmap₁, hsecond]
        decide
      · rw [hmap, hfirst]
        decide
  have hr := (Run.single halloc).snoc (.clone (by simp) hk' hcon')
  exact ⟨_, hr, spaces_isolated freshAlloc_placeAp twoSpaces_inv hr⟩

end OsImplement.Memory
