import OsImplement.Memory.HeapPages

/-!
The pages under the heap, along calls of `expand` and `contract`.

Seen from `vm_page_dir` a page has a frame or none, and each round of the two loops gives one page a
frame or takes one away. `expand` never takes one away, and `contract` leaves the first page behind
the new end alone; and both round odd sizes only.
-/

namespace OsImplement.Memory

open Lib.Word Lib.Bytes Lib.Step

namespace Kernel

/-- The frame of page `p` in the directory, and 0 when it has none. -/
def pageFrame (k : Kernel) (dir p : ℕ) : ℕ :=
  if k.tableOf dir (p / 1024) = 0 then 0 else (k.entryOf dir p).frame

/-- No table is in two slots. -/
def TablesApart (k : Kernel) (dir : ℕ) : Prop :=
  ∀ i j, k.tableOf dir i = k.tableOf dir j → k.tableOf dir i ≠ 0 → i = j

section Frames

variable {k k' : Kernel} {dir p q addr : ℕ}

lemma tableOf_of_pageFrame (h : k.pageFrame dir p ≠ 0) : k.tableOf dir (p / 1024) ≠ 0 := by
  intro h0
  rw [pageFrame, if_pos h0] at h
  exact h rfl

lemma lookupPage_of_table (h : k.tableOf dir (addr / 0x1000 / 1024) ≠ 0) :
    k.lookupPage addr dir = some (k.refOf dir (addr / 0x1000)) :=
  if_pos h

lemma pageFrame_of_ne (hd : k'.dirs = k.dirs) (hap : k.TablesApart dir) (hne : p ≠ q)
    (ht : ∀ t j, ¬ (t = k.tableOf dir (q / 1024) ∧ j = q % 1024) → k'.tables t j = k.tables t j) :
    k'.pageFrame dir p = k.pageFrame dir p := by
  have htab : k'.tableOf dir (p / 1024) = k.tableOf dir (p / 1024) := by
    rw [Kernel.tableOf, hd, Kernel.tableOf]
  unfold pageFrame entryOf
  rw [htab]
  split_ifs with h0
  · rfl
  · rw [ht _ _ fun h => ?_]
    have := hap _ _ h.1 h0
    omega

lemma pageFrame_allocFrame (hap : k.TablesApart dir) (ht : k.tableOf dir (q / 1024) ≠ 0)
    (isKernel isWritable : Bool) :
    (k.allocFrame (some (k.refOf dir q)) isKernel isWritable).pageFrame dir p =
      if p = q ∧ k.pageFrame dir q = 0 then firstFrame k.map % 2 ^ 20 else k.pageFrame dir p := by
  by_cases hpq : p = q
  · subst hpq
    have htab : (k.allocFrame (some (k.refOf dir p)) isKernel isWritable).tableOf dir (p / 1024) =
        k.tableOf dir (p / 1024) := rfl
    simp only [pageFrame, htab, if_neg ht, true_and, entryOf]
    simp only [allocFrame, page, setPage, refOf, Function.update_self, Memory.allocFrame]
    split_ifs <;> simp_all
  · rw [if_neg fun h => hpq h.1]
    exact pageFrame_of_ne dirs_allocFrame hap hpq fun t j h => tables_allocFrame_ne h

lemma pageFrame_freeFrame (hap : k.TablesApart dir) (ht : k.tableOf dir (q / 1024) ≠ 0) :
    (k.freeFrame (some (k.refOf dir q))).pageFrame dir p =
      if p = q then 0 else k.pageFrame dir p := by
  have hd : (k.freeFrame (some (k.refOf dir q))).dirs = k.dirs := rfl
  by_cases hpq : p = q
  · subst hpq
    have htab : (k.freeFrame (some (k.refOf dir p))).tableOf dir (p / 1024) =
        k.tableOf dir (p / 1024) := rfl
    simp only [pageFrame, htab, if_neg ht, if_true, entryOf]
    simp only [freeFrame, page, setPage, refOf, Function.update_self, Memory.freeFrame]
    split_ifs <;> simp_all
  · rw [if_neg hpq]
    refine pageFrame_of_ne hd hap hpq fun t j h => ?_
    simp only [freeFrame, setPage, refOf]
    by_cases ht' : t = k.tableOf dir (q / 1024)
    · subst ht'
      rw [Function.update_self, Function.update_of_ne fun hj => h ⟨rfl, hj⟩]
    · rw [Function.update_of_ne ht']

end Frames

/-! ### New tables -/

section NewTable

variable {k k₁ : Kernel} {dir i j p t phy : ℕ}

lemma tableOf_newTable (hd : k₁.dirs = k.dirs) :
    ((k₁.setSlot dir i t phy).setTable t fun _ => .zero).tableOf dir j =
      if j = i then t else k.tableOf dir j := by
  have h1 : (k₁.setSlot dir i t phy).tableOf dir j =
      if dir = dir ∧ j = i then t else k₁.tableOf dir j := tableOf_setSlot
  rw [show k₁.tableOf dir j = k.tableOf dir j by
    rw [Kernel.tableOf, hd, Kernel.tableOf]] at h1
  simp only [true_and] at h1
  exact h1

lemma entryOf_newTable (hd : k₁.dirs = k.dirs) (ht : k₁.tables = k.tables)
    (hfresh : ∀ i, k.tableOf dir i ≠ t) :
    ((k₁.setSlot dir i t phy).setTable t fun _ => .zero).entryOf dir p =
      if p / 1024 = i then .zero else k.entryOf dir p := by
  unfold entryOf
  rw [tableOf_newTable hd]
  by_cases hp : p / 1024 = i
  · rw [if_pos hp, if_pos hp, tables_setTable, if_pos rfl]
  · rw [if_neg hp, if_neg hp, tables_setTable, if_neg (hfresh _), tables_setSlot, ht]

lemma TablesApart.newTable (h : k.TablesApart dir) (hd : k₁.dirs = k.dirs)
    (hfresh : ∀ i, k.tableOf dir i ≠ t) :
    ((k₁.setSlot dir i t phy).setTable t fun _ => .zero).TablesApart dir := by
  intro a b hab hne
  rw [tableOf_newTable hd, tableOf_newTable hd] at hab
  rw [tableOf_newTable hd] at hne
  split_ifs at hab hne with ha hb hb
  · rw [ha, hb]
  · exact absurd hab.symm (hfresh b)
  · exact absurd hab (hfresh a)
  · exact h a b hab hne

end NewTable

/-- `_malloc_ap` has returned room for a table: the page structures and the bounds of the heap are
as they were, and no slot has this table. -/
structure FreshTable (k k' : Kernel) (t : ℕ) : Prop where
  start : k'.heap.startAddress = k.heap.startAddress
  vm : k'.vmPageDir = k.vmPageDir
  dirs : k'.dirs = k.dirs
  tables : k'.tables = k.tables
  null : t ≠ 0
  fresh : ∀ i, k.tableOf k.vmPageDir i ≠ t

/-- From `k` to `k'` the frames of the pages changed by `f`. -/
structure PagesTo (k k' : Kernel) (f : ℕ → ℕ) : Prop where
  start : k'.heap.startAddress = k.heap.startAddress
  vm : k'.vmPageDir = k.vmPageDir
  apart : k'.TablesApart k'.vmPageDir
  frames : ∀ p, k'.pageFrame k'.vmPageDir p = f p

section Rounds

variable {k k' k₁ : Kernel} {mallocAp : MallocAp} {addr t newSize n i : ℕ} {r : PageRef}

lemma PagesTo.refl (h : k.TablesApart k.vmPageDir) :
    PagesTo k k (k.pageFrame k.vmPageDir) :=
  ⟨rfl, rfl, h, fun _ => rfl⟩

lemma FreshTable.pages {i phy : ℕ} (h : FreshTable k k₁ t) (hap : k.TablesApart k.vmPageDir)
    (h0 : k.tableOf k.vmPageDir i = 0) :
    PagesTo k ((k₁.setSlot k.vmPageDir i t phy).setTable t fun _ => .zero)
      (k.pageFrame k.vmPageDir) := by
  set k' := (k₁.setSlot k.vmPageDir i t phy).setTable t fun _ => .zero with hk'
  have hvm : k'.vmPageDir = k.vmPageDir := h.vm
  refine ⟨h.start, h.vm, ?_, fun p => ?_⟩
  · rw [hvm]
    exact hap.newTable h.dirs h.fresh
  · rw [hvm]
    unfold pageFrame
    rw [hk', tableOf_newTable h.dirs, entryOf_newTable h.dirs h.tables h.fresh]
    by_cases hp : p / 1024 = i
    · rw [if_pos hp, if_neg h.null, hp, if_pos h0, if_pos rfl]
      rfl
    · rw [if_neg hp, if_neg hp]

lemma getPage_pages (hap : k.TablesApart k.vmPageDir)
    (hfresh : k.lookupPage addr k.vmPageDir = none → ∀ t phy k₁, mallocAp 4096 k = some (t, phy, k₁) →
      FreshTable k k₁ t)
    {r : Option PageRef} (hr : k.getPage mallocAp addr true k.vmPageDir = some (r, k')) :
    PagesTo k k' (k.pageFrame k.vmPageDir) ∧
      r = some (k'.refOf k'.vmPageDir (addr / 0x1000)) ∧
      k'.tableOf k'.vmPageDir (addr / 0x1000 / 1024) ≠ 0 := by
  rcases getPage_cases hr with ⟨h0, rfl, rfl⟩ | ⟨h0, t, phy, k₁, hm, rfl, rfl⟩
  · exact ⟨.refl hap, rfl, h0⟩
  · have hnew := hfresh (lookupPage_none h0) t phy k₁ hm
    have htab : ((k₁.setSlot k.vmPageDir (addr / 0x1000 / 1024) t (phy ||| 7)).setTable t
        fun _ => .zero).tableOf k₁.vmPageDir (addr / 0x1000 / 1024) = t := by
      rw [hnew.vm]
      exact tableOf_setSlot.trans (if_pos ⟨rfl, rfl⟩)
    refine ⟨hnew.pages hap h0, ?_, ?_⟩
    · simp only [refOf, vmPageDir_setTable, vmPageDir_setSlot, htab]
    · simp only [vmPageDir_setTable, vmPageDir_setSlot, htab]
      exact hnew.null

/-- The rounds of `expand` find their tables, or fresh ones, and frames other than frame 0. -/
def RoundsOk (mallocAp : MallocAp) (newSize : ℕ) : ℕ → ℕ → Kernel → Prop
  | 0, _, _ => True
  | n + 1, i, k => i < newSize →
    (k.lookupPage (add32 k.heap.startAddress i) k.vmPageDir = none →
      ∀ t phy k₁, mallocAp 4096 k = some (t, phy, k₁) → FreshTable k k₁ t) ∧
    ∀ r k₁, k.getPage mallocAp (add32 k.heap.startAddress i) true k.vmPageDir = some (some r, k₁) →
      ((k₁.tables r.table r.idx).frame = 0 → firstFrame k₁.map % 2 ^ 20 ≠ 0) ∧
      RoundsOk mallocAp newSize n (add32 i 0x1000)
        (k₁.allocFrame (some r) k₁.heap.supervisor (!k₁.heap.readonly))

lemma roundsOk_done (h : newSize ≤ i) : RoundsOk mallocAp newSize n i k := by
  cases n with
  | zero => trivial
  | succ n => exact fun hlt => absurd hlt (by omega)

theorem expandPages_backed (hsize : newSize % 0x1000 = 0) : ∀ (n i : ℕ) (k k' : Kernel),
    RoundsOk mallocAp newSize n i k → expandPages mallocAp newSize n i k = some k' →
    i % 0x1000 = 0 → k.heap.startAddress % 0x1000 = 0 → k.heap.startAddress + newSize < 2 ^ 32 →
    k.TablesApart k.vmPageDir →
    ∃ f, PagesTo k k' f ∧
      (∀ p, k.heap.startAddress + i ≤ p * 0x1000 → p * 0x1000 < k.heap.startAddress + newSize →
        f p ≠ 0) ∧
      ∀ p, k.pageFrame k.vmPageDir p ≠ 0 ∨ p * 0x1000 < k.heap.startAddress + i ∨
        k.heap.startAddress + newSize ≤ p * 0x1000 → f p = k.pageFrame k.vmPageDir p := by
  intro n
  induction n with
  | zero => exact fun _ _ _ _ hr => by simp [expandPages] at hr
  | succ n ih =>
    intro i k k' hok hr hi hstart htop hap
    unfold expandPages at hr
    split at hr
    · next hlt =>
      simp only [Option.bind_eq_bind, Option.bind_eq_some_iff, Prod.exists] at hr
      obtain ⟨r, k₁, hg, hr⟩ := hr
      obtain ⟨hfresh, hnext⟩ := hok hlt
      have haddr : add32 k.heap.startAddress i = k.heap.startAddress + i := add32_eq (by omega)
      have hi' : add32 i 0x1000 = i + 0x1000 := add32_eq (by omega)
      obtain ⟨hpages, rfl, htab⟩ := getPage_pages hap hfresh hg
      obtain ⟨hframe, hnext⟩ := hnext _ _ hg
      set q := add32 k.heap.startAddress i / 0x1000 with hq
      have hq4 : q * 0x1000 = k.heap.startAddress + i := by omega
      set k₂ := k₁.allocFrame (some (k₁.refOf k₁.vmPageDir q)) k₁.heap.supervisor
        (!k₁.heap.readonly) with hk₂
      have hvm₂ : k₂.vmPageDir = k.vmPageDir := hpages.vm
      have hstart₂ : k₂.heap.startAddress = k.heap.startAddress := hpages.start
      have hf₂ (p : ℕ) : k₂.pageFrame k₂.vmPageDir p =
          if p = q ∧ k.pageFrame k.vmPageDir q = 0 then firstFrame k₁.map % 2 ^ 20
          else k.pageFrame k.vmPageDir p := by
        rw [← hpages.frames, ← hpages.frames]
        exact pageFrame_allocFrame hpages.apart htab _ _
      have hq₂ : k₂.pageFrame k₂.vmPageDir q ≠ 0 := by
        rw [hf₂]
        split_ifs with h
        · refine hframe ?_
          have h0 := hpages.frames q
          rw [h.2, pageFrame, if_neg htab] at h0
          exact h0
        · exact fun h0 => h ⟨rfl, h0⟩
      rw [hi'] at hr hnext
      obtain ⟨f, hto, hin, hout⟩ := ih (i + 0x1000) k₂ k' hnext hr (by omega)
        (by rw [hstart₂]; exact hstart) (by rw [hstart₂]; exact htop) hpages.apart
      rw [hstart₂] at hin hout
      refine ⟨f, ⟨hto.start.trans hstart₂, hto.vm.trans hvm₂, hto.apart, hto.frames⟩, fun p h1 h2 => ?_,
        fun p hp => ?_⟩
      · by_cases hpq : p = q
        · rw [hpq, hout q (.inl hq₂)]
          exact hq₂
        · exact hin p (by omega) h2
      · have hsame : k₂.pageFrame k₂.vmPageDir p = k.pageFrame k.vmPageDir p := by
          rw [hf₂, if_neg]
          rintro ⟨rfl, h0⟩
          rcases hp with hp | hp | hp
          · exact hp h0
          · omega
          · omega
        rw [← hsame]
        refine hout p ?_
        rw [hsame]
        rcases hp with hp | hp | hp
        · exact .inl hp
        · exact .inr (.inl (by omega))
        · exact .inr (.inr hp)
    · obtain rfl : k = k' := by simpa using hr
      exact ⟨_, .refl hap, fun p h1 h2 => by omega, fun _ _ => rfl⟩

theorem contractPages_released (hsize : newSize % 0x1000 = 0) : ∀ (n i : ℕ) (k k' : Kernel),
    contractPages newSize n i k = some k' → i % 0x1000 = 0 → k.heap.startAddress % 0x1000 = 0 →
    k.heap.startAddress + i < 2 ^ 32 → k.TablesApart k.vmPageDir →
    (∀ p, k.heap.startAddress + newSize < p * 0x1000 → p * 0x1000 ≤ k.heap.startAddress + i →
      k.tableOf k.vmPageDir (p / 1024) ≠ 0) →
    PagesTo k k' fun p => if k.heap.startAddress + newSize < p * 0x1000 ∧
      p * 0x1000 ≤ k.heap.startAddress + i then 0 else k.pageFrame k.vmPageDir p := by
  intro n
  induction n with
  | zero => exact fun _ _ _ hr => by simp [contractPages] at hr
  | succ n ih =>
    intro i k k' hr hi hstart htop hap htab
    unfold contractPages at hr
    split at hr
    · next hlt =>
      have haddr : add32 k.heap.startAddress i = k.heap.startAddress + i := add32_eq (by omega)
      have hi' : sub32 i 0x1000 = i - 0x1000 := sub32_eq (by omega) (by omega)
      set q := (k.heap.startAddress + i) / 0x1000 with hq
      have hq4 : q * 0x1000 = k.heap.startAddress + i := by omega
      have htq : k.tableOf k.vmPageDir (q / 1024) ≠ 0 := htab q (by omega) (by omega)
      rw [haddr, lookupPage_of_table htq, hi'] at hr
      set k₁ := k.freeFrame (some (k.refOf k.vmPageDir q)) with hk₁
      have hto := ih (i - 0x1000) k₁ k' hr (by omega) hstart
        (by show k.heap.startAddress + (i - 0x1000) < 2 ^ 32; omega) hap
        fun p h1 h2 => htab p h1 (by
          have h2' : p * 0x1000 ≤ k.heap.startAddress + (i - 0x1000) := h2
          omega)
      refine ⟨hto.start, hto.vm, hto.apart, fun p => ?_⟩
      have hf := pageFrame_freeFrame hap htq (p := p)
      rw [hto.frames]
      show (if k.heap.startAddress + newSize < p * 0x1000 ∧
        p * 0x1000 ≤ k.heap.startAddress + (i - 0x1000) then 0 else
          k₁.pageFrame k.vmPageDir p) = _
      rw [hk₁, hf]
      by_cases hpq : p = q
      · rw [if_pos hpq, ite_self, if_pos (by omega)]
      · rw [if_neg hpq]
        refine if_congr ?_ rfl rfl
        omega
    · obtain rfl : k = k' := by simpa using hr
      refine ⟨rfl, rfl, hap, fun p => ?_⟩
      rw [if_neg (by omega)]

end Rounds

end Kernel

open Kernel

/-! ### Sequences of calls -/

/-- A call of one of the two, with the size it requests. -/
inductive SizeCall where
  | expand (newSize : ℕ)
  | contract (newSize : ℕ)

/-- The kernel behind some calls, what the last one has requested, and the pages that they walked to
back them. -/
structure Backing where
  kernel : Kernel
  request : ℕ
  backed : ℕ → Prop

namespace Backing

/-- Before the first call. -/
def init (k : Kernel) : Backing := ⟨k, 0, fun _ => False⟩

/-- The pages that `expand` walks for a request. -/
def Walked (k : Kernel) (newSize p : ℕ) : Prop :=
  ∃ j, k.heapLen + 0x1000 * j < roundSize newSize ∧
    p = add32 k.heap.startAddress (k.heapLen + 0x1000 * j) / 0x1000

/-- One call; `none` when it does not return. -/
def step (mallocAp : MallocAp) (s : Backing) : SizeCall → Option Backing
  | .expand newSize => do
    let k ← s.kernel.expand mallocAp newSize
    some ⟨k, newSize, fun p => s.backed p ∨ Walked s.kernel newSize p⟩
  | .contract newSize => do
    let (_, k) ← s.kernel.contract newSize
    some ⟨k, newSize, s.backed⟩

/-- The frame of a page in `vm_page_dir`. -/
def frame (s : Backing) (p : ℕ) : ℕ := s.kernel.pageFrame s.kernel.vmPageDir p

/-- **The heap is backed**: its length is a multiple of `0x1000`, and what was requested; its pages
have frames; and those behind it that a call had backed have none. -/
structure Backed (s : Backing) : Prop where
  whole : s.kernel.heapLen % 0x1000 = 0
  enough : s.request ≤ s.kernel.heapLen
  pages : ∀ p, s.kernel.heap.startAddress < (p + 1) * 0x1000 →
    p * 0x1000 < s.kernel.heap.endAddress → s.frame p ≠ 0
  released : ∀ p, s.backed p → s.kernel.heap.endAddress ≤ p * 0x1000 → s.frame p = 0

/-- The length that a call of `contract` leaves. -/
def contracted (newSize : ℕ) : ℕ :=
  if roundSize newSize < HEAP_MIN_SIZE then HEAP_MIN_SIZE else roundSize newSize

/-- What a call must meet. -/
def Ok (mallocAp : MallocAp) (s : Backing) : SizeCall → Prop
  | .expand newSize =>
    -- the size is rounded to pages, and up
    roundSize newSize % 0x1000 = 0 ∧ newSize ≤ roundSize newSize ∧
    s.kernel.heap.startAddress + roundSize newSize < 2 ^ 32 ∧
    RoundsOk mallocAp (roundSize newSize) (2 ^ 20) s.kernel.heapLen s.kernel ∧
    -- a smaller size leaves no page behind that a call has backed
    ∀ p, s.backed p → s.kernel.heap.startAddress + roundSize newSize ≤ p * 0x1000 →
      s.kernel.heap.endAddress ≤ p * 0x1000
  | .contract newSize =>
    contracted newSize % 0x1000 = 0 ∧ newSize ≤ contracted newSize ∧
    s.kernel.heap.startAddress + contracted newSize < 2 ^ 32 ∧ 0x1000 ≤ s.kernel.heapLen ∧
    -- no call has backed the first page behind the new end, if the heap shrinks
    (contracted newSize < s.kernel.heapLen →
      ¬ s.backed ((s.kernel.heap.startAddress + contracted newSize) / 0x1000)) ∧
    -- a larger size takes in pages that have frames already
    ∀ p, s.kernel.heap.endAddress ≤ p * 0x1000 →
      p * 0x1000 < s.kernel.heap.startAddress + contracted newSize → s.frame p ≠ 0

/-- A heap with page-aligned bounds, all of whose pages have frames. -/
structure Whole (k : Kernel) : Prop where
  start : k.heap.startAddress % 0x1000 = 0
  end_ : k.heap.endAddress % 0x1000 = 0
  le : k.heap.startAddress ≤ k.heap.endAddress
  lt : k.heap.endAddress < 2 ^ 32
  apart : k.TablesApart k.vmPageDir
  pages : ∀ p, k.heap.startAddress ≤ p * 0x1000 → p * 0x1000 < k.heap.endAddress →
    k.pageFrame k.vmPageDir p ≠ 0

/-- What the calls keep. -/
structure Kept (s : Backing) : Prop where
  whole : Whole s.kernel
  enough : s.request ≤ s.kernel.heapLen
  released : ∀ p, s.backed p → s.kernel.heap.endAddress ≤ p * 0x1000 → s.frame p = 0

variable {s s' : Backing} {mallocAp : MallocAp} {k k' : Kernel} {newSize n : ℕ} {f : ℕ → ℕ}

lemma Whole.heapLen (h : Whole k) : k.heap.startAddress + k.heapLen = k.heap.endAddress := by
  have := h.le
  have hlen : k.heapLen = k.heap.endAddress - k.heap.startAddress := sub32_eq h.le h.lt
  omega

lemma Kept.backed (h : s.Kept) : s.Backed where
  whole := by
    have hlen := h.whole.heapLen
    have hstart := h.whole.start
    have hend := h.whole.end_
    omega
  enough := h.enough
  pages p h1 h2 := by
    have hstart := h.whole.start
    exact h.whole.pages p (by omega) h2
  released := h.released

lemma Kept.init (h : Whole k) : (Backing.init k).Kept :=
  ⟨h, Nat.zero_le _, fun _ hp => hp.elim⟩

lemma Whole.setEnd (h : Whole k) (hto : PagesTo k k' f) (hn : n % 0x1000 = 0)
    (htop : k.heap.startAddress + n < 2 ^ 32)
    (hf : ∀ p, k.heap.startAddress ≤ p * 0x1000 → p * 0x1000 < k.heap.startAddress + n → f p ≠ 0) :
    Whole (k'.setEnd (add32 k'.heap.startAddress n)) := by
  have hstart := h.start
  have hend : add32 k'.heap.startAddress n = k.heap.startAddress + n := by
    rw [hto.start, add32_eq htop]
  rw [hend]
  refine ⟨?_, ?_, ?_, htop, hto.apart, fun p h1 h2 => ?_⟩
  · show k'.heap.startAddress % 0x1000 = 0
    rw [hto.start]
    exact hstart
  · show (k.heap.startAddress + n) % 0x1000 = 0
    omega
  · show k'.heap.startAddress ≤ k.heap.startAddress + n
    rw [hto.start]
    omega
  · have h1' : k'.heap.startAddress ≤ p * 0x1000 := h1
    rw [hto.start] at h1'
    have hframe := hto.frames p
    exact fun h0 => hf p h1' h2 (hframe.symm.trans h0)

lemma heapLen_setEnd (hto : PagesTo k k' f) (htop : k.heap.startAddress + n < 2 ^ 32) :
    (k'.setEnd (add32 k'.heap.startAddress n)).heapLen = n := by
  show sub32 (add32 k'.heap.startAddress n) k'.heap.startAddress = n
  rw [hto.start]
  unfold add32 sub32
  omega

lemma step_expand (h : s.Kept) (hok : s.Ok mallocAp (.expand newSize))
    (hs : s.step mallocAp (.expand newSize) = some s') : s'.Kept := by
  obtain ⟨hround, hle, htop, hrounds, hbehind⟩ := hok
  have hstart := h.whole.start
  have hend := h.whole.end_
  have hlen := h.whole.heapLen
  simp only [step, expand, Option.bind_eq_bind, Option.bind_eq_some_iff, Option.some.injEq] at hs
  obtain ⟨_, ⟨k₁, hpages, rfl⟩, rfl⟩ := hs
  obtain ⟨f, hto, hin, hout⟩ := expandPages_backed hround _ _ _ _ hrounds hpages (by omega) hstart
    htop h.whole.apart
  have hlen' := heapLen_setEnd hto htop
  refine ⟨h.whole.setEnd hto hround htop fun p h1 h2 => ?_, ?_, fun p hp hbe => ?_⟩
  · by_cases hlt : p * 0x1000 < s.kernel.heap.endAddress
    · have hframe := h.whole.pages p h1 hlt
      rw [hout p (.inl hframe)]
      exact hframe
    · exact hin p (by omega) h2
  · show newSize ≤ _
    exact hle.trans_eq hlen'.symm
  · have hbe' : add32 k₁.heap.startAddress (roundSize newSize) ≤ p * 0x1000 := hbe
    rw [hto.start, add32_eq htop] at hbe'
    refine (hto.frames p).trans ?_
    rw [hout p (.inr (.inr hbe'))]
    rcases hp with hp | ⟨j, hj, rfl⟩
    · exact h.released p hp (hbehind p hp hbe')
    · rw [add32_eq (by omega)] at hbe'
      omega

lemma step_contract (h : s.Kept) (hok : s.Ok mallocAp (.contract newSize))
    (hs : s.step mallocAp (.contract newSize) = some s') : s'.Kept := by
  obtain ⟨hround, hle, htop, hmin, hfirst, hlarger⟩ := hok
  have hstart := h.whole.start
  have hend := h.whole.end_
  have hlen := h.whole.heapLen
  have hlt := h.whole.lt
  simp only [step, contract, Option.bind_eq_bind, Option.bind_eq_some_iff, Option.some.injEq,
    Prod.exists, Prod.mk.injEq] at hs
  obtain ⟨_, _, ⟨k₁, hpages, rfl, rfl⟩, rfl⟩ := hs
  have hpages : contractPages (contracted newSize) (2 ^ 20) (sub32 s.kernel.heapLen 0x1000)
      s.kernel = some k₁ := hpages
  set n := contracted newSize with hn
  have hsub : sub32 s.kernel.heapLen 0x1000 = s.kernel.heapLen - 0x1000 :=
    sub32_eq hmin (by omega)
  rw [hsub] at hpages
  have hto := contractPages_released hround _ _ _ _ hpages (by omega) hstart (by omega)
    h.whole.apart fun p h1 h2 =>
      tableOf_of_pageFrame (h.whole.pages p (by omega) (by omega))
  have hlen' := @heapLen_setEnd _ _ n _ hto htop
  refine ⟨@Whole.setEnd _ _ n _ h.whole hto hround htop fun p h1 h2 => ?_, ?_,
    fun p hp hbe => ?_⟩
  · rw [if_neg (by omega)]
    by_cases hlt : p * 0x1000 < s.kernel.heap.endAddress
    · exact h.whole.pages p h1 hlt
    · exact hlarger p (by omega) h2
  · show newSize ≤ _
    exact hle.trans_eq hlen'.symm
  · have hbe' : add32 k₁.heap.startAddress n ≤ p * 0x1000 := hbe
    rw [hto.start, add32_eq htop] at hbe'
    refine (hto.frames p).trans ?_
    split_ifs with hwalked
    · rfl
    · by_cases hbehind : s.kernel.heap.endAddress ≤ p * 0x1000
      · exact h.released p hp hbehind
      · -- the first page behind the new end is the one that is not walked
        have hpn : p = (s.kernel.heap.startAddress + n) / 0x1000 := by omega
        exact absurd (hpn ▸ hp) (hfirst (by omega))

/-- **The heap stays backed** along calls that meet `Ok`. -/
theorem backed_of_ok (h : Whole k) {calls : List SizeCall}
    (hrun : Run (fun s c s' => s.Ok mallocAp c ∧ s.step mallocAp c = some s') (Backing.init k)
      calls s) : s.Backed := by
  refine Kept.backed (hrun.inv (I := fun _ s => s.Kept) (.init h) fun _ s c s' hs hr => ?_)
  cases c with
  | expand newSize => exact step_expand hs hr.1 hr.2
  | contract newSize => exact step_contract hs hr.1 hr.2

/-! ### A heap of one page -/

/-- A heap that is page 0, in a directory with one table, at 1. -/
def onePage : Kernel where
  mem := fun _ => 0
  heap :=
    { index := ⟨0, 0, 0, fun _ _ _ => 0⟩, startAddress := 0, endAddress := 0x1000
      maxAddress := 0xCFFFF000, supervisor := false, readonly := false }
  kheap := 0
  placementAddress := 0
  map := ⟨fun i => if i = 0 then 0xFF else 0, 2⟩
  tables := fun _ j => if j = 0 then { PageStruct.zero with frame := 1 } else .zero
  dirs := fun _ => { PageDir.zero with pageTable := fun i => if i = 0 then 1 else 0 }
  vmPageDir := 0
  curVmPageDir := 0
  phys := fun _ => 0
  console := []

lemma tableOf_onePage (i : ℕ) : onePage.tableOf 0 i = if i = 0 then 1 else 0 := rfl

lemma whole_onePage : Whole onePage where
  start := rfl
  end_ := rfl
  le := by decide
  lt := by decide
  apart i j heq hne := by
    simp only [show onePage.vmPageDir = 0 from rfl, tableOf_onePage] at heq hne
    split_ifs at heq hne <;> simp_all
  pages p h1 h2 := by
    obtain rfl : p = 0 := by
      have : p * 0x1000 < 0x1000 := h2
      omega
    decide

/-- Half a page is asked for behind the first: the new length is no multiple of `0x1000`. -/
theorem backed_fails : Whole onePage ∧
    ∃ s, Run (fun s c s' => s.step (fun _ _ => none) c = some s') (Backing.init onePage)
      [.expand 0x1800] s ∧ ¬ s.Backed := by
  refine ⟨whole_onePage, ?_⟩
  have hlen : ((Backing.init onePage).step (fun _ _ => none) (.expand 0x1800)).map
      (fun s => s.kernel.heapLen) = some 0x1800 := by decide +kernel
  obtain ⟨s, hs, hlen⟩ := Option.map_eq_some_iff.mp hlen
  refine ⟨s, .single hs, fun h => ?_⟩
  have hwhole := h.whole
  rw [hlen] at hwhole
  cases hwhole

theorem backed_of_ok_one :
    ∃ s, (Backing.init onePage).step (fun _ _ => none) (.expand 0x2000) = some s ∧ s.Backed := by
  have hok : (Backing.init onePage).Ok (fun _ _ => none) (.expand 0x2000) := by
    refine ⟨by decide, by decide, by decide, ?_, fun p hp => hp.elim⟩
    refine fun _ => ⟨fun hnone => ?_, fun r k₁ hg => ⟨fun _ => ?_, roundsOk_done (by decide)⟩⟩
    · exact absurd hnone (by decide)
    · rcases getPage_cases hg with ⟨-, rfl, -⟩ | ⟨h0, -⟩
      · decide
      · exact absurd h0 (by decide)
  obtain ⟨s, hs⟩ := Option.isSome_iff_exists.mp (show ((Backing.init onePage).step
    (fun _ _ => none) (.expand 0x2000)).isSome by decide +kernel)
  exact ⟨s, hs, backed_of_ok whole_onePage (.single ⟨hok, hs⟩)⟩

end Backing

end OsImplement.Memory
