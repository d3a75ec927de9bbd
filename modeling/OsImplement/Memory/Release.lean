import OsImplement.Memory.Started

/-!
Pages that are given up: `free_all_page` (`page.c`) and `kfree` (`kernel_malloc.c`).

`free_all_page` goes through all slots of a directory, whatever they hold. A table that
`vm_page_dir` has too is emptied like any other, and a slot without a table leads to the words at
NULL. `kfree` reaches the pages through `contract`, which may empty some more entries. Neither fills
one, and no directory changes.

Every clone has the tables of the boot, and there are frames in them as long as nothing is given up.
So `free_all_page` of a clone always takes frames from `vm_page_dir`.
-/

namespace OsImplement.Memory

open Lib.Word Lib.Bytes Lib.Loop Lib.Interval

namespace Kernel

/-! ### The code -/

/-- `p_table->pages[j]`; behind NULL, a word of low memory. -/
def pageAt (pTable j : ℕ) (k : Kernel) : PageStruct :=
  if pTable = 0 then .ofWord (read32 k.mem (4 * j)) else k.page (some ⟨pTable, j⟩)

/-- `p_table->pages[j] = p` -/
def setPageAt (pTable j : ℕ) (p : PageStruct) (k : Kernel) : Kernel :=
  if pTable = 0 then k.write fun m => write32 m (4 * j) (p.toWord (read32 m (4 * j)))
  else k.setPage (some ⟨pTable, j⟩) p

/-- `free_frame(&(p_table->pages[j]))` -/
def freePage (pTable : ℕ) (k : Kernel) (j : ℕ) : Kernel :=
  let (page, map) := Memory.freeFrame (k.pageAt pTable j) k.map
  { k.setPageAt pTable j page with map := map }

/-- `free_all_page`, its inner loop. -/
def freeTable (pTable : ℕ) (k : Kernel) : Kernel := (List.range 1024).foldl (freePage pTable) k

/-- `free_all_page` -/
def freeAllPage (dir : ℕ) (k : Kernel) : Kernel :=
  (List.range 1024).foldl (fun k i => k.freeTable (k.tableOf dir i)) k

/-- `kfree` -/
def kfree (addr : ℕ) (k : Kernel) : Option Kernel := k.free addr

/-- A frame in a private table of directory `d`. -/
def PrivateFrame (k : Kernel) (d f : ℕ) : Prop :=
  ∃ i, k.PrivateSlot d i ∧ ∃ j < 1024, k.frameAt d i j = f ∧ f ≠ 0

/-! ### No entry is filled -/

/-- Entries have been emptied, at most. -/
structure OnlyEmpties (k k' : Kernel) : Prop where
  dirs : k'.dirs = k.dirs
  vm : k'.vmPageDir = k.vmPageDir
  empty : ∀ t j, (k.tables t j).frame = 0 → (k'.tables t j).frame = 0

section OnlyEmpties

variable {k k' k'' : Kernel}

lemma OnlyEmpties.refl (k : Kernel) : OnlyEmpties k k := ⟨rfl, rfl, fun _ _ => id⟩

lemma OnlyEmpties.trans (h : OnlyEmpties k k') (h' : OnlyEmpties k' k'') : OnlyEmpties k k'' :=
  ⟨h'.dirs.trans h.dirs, h'.vm.trans h.vm, fun t j hj => h'.empty t j (h.empty t j hj)⟩

lemma OnlyEmpties.tableOf (h : OnlyEmpties k k') (d i : ℕ) : k'.tableOf d i = k.tableOf d i := by
  rw [Kernel.tableOf, h.dirs, Kernel.tableOf]

lemma OnlyEmpties.of_tables (hd : k'.dirs = k.dirs) (hv : k'.vmPageDir = k.vmPageDir)
    (ht : k'.tables = k.tables) : OnlyEmpties k k' :=
  ⟨hd, hv, fun t j hj => by rw [ht]; exact hj⟩

lemma onlyEmpties_write (f : Mem → Mem) (k : Kernel) : OnlyEmpties k (k.write f) :=
  .of_tables rfl rfl rfl

lemma onlyEmpties_setPage {r : PageRef} {p : PageStruct}
    (hp : (k.tables r.table r.idx).frame = 0 → p.frame = 0) :
    OnlyEmpties k (k.setPage (some r) p) := by
  refine ⟨rfl, rfl, fun t j hj => ?_⟩
  simp only [setPage]
  by_cases ht : t = r.table
  · subst ht
    rw [Function.update_self]
    by_cases hj' : j = r.idx
    · subst hj'
      rw [Function.update_self]
      exact hp hj
    · rwa [Function.update_of_ne hj']
  · rwa [Function.update_of_ne ht]

lemma frame_freeFrame (p : PageStruct) (f : FrameMap) : (Memory.freeFrame p f).1.frame = 0 := by
  by_cases h : p.frame = 0
  · rw [freeFrame_empty h]
    exact h
  · rw [freeFrame_held h]

lemma onlyEmpties_freeFrame (r : Option PageRef) (k : Kernel) : OnlyEmpties k (k.freeFrame r) := by
  cases r with
  | none => exact .of_tables rfl rfl rfl
  | some r =>
    have h : OnlyEmpties k (k.setPage (some r) (Memory.freeFrame (k.page (some r)) k.map).1) :=
      onlyEmpties_setPage fun _ => frame_freeFrame _ _
    exact h.trans (.of_tables rfl rfl rfl)

/-! ### `kfree` -/

lemma onlyEmpties_insertHole (header : ℕ) (k : Kernel) : OnlyEmpties k (k.insertHole header) :=
  .of_tables rfl rfl rfl

lemma onlyEmpties_removeHole {iter : ℕ} (h : k.removeHole iter = some k') : OnlyEmpties k k' := by
  simp only [removeHole, Option.bind_eq_bind, Option.bind_eq_some_iff, Prod.exists,
    Option.some.injEq] at h
  obtain ⟨_, _, -, rfl⟩ := h
  exact .of_tables rfl rfl rfl

lemma onlyEmpties_contractPages {newSize : ℕ} : ∀ (n i : ℕ) (k : Kernel),
    contractPages newSize n i k = some k' → OnlyEmpties k k' := by
  intro n
  induction n with
  | zero => exact fun _ _ h => by simp [contractPages] at h
  | succ n ih =>
    intro i k h
    unfold contractPages at h
    split at h
    · exact (onlyEmpties_freeFrame _ _).trans (ih _ _ h)
    · obtain rfl := Option.some.inj h
      exact .refl k

lemma onlyEmpties_contract {newSize newLen : ℕ} (h : k.contract newSize = some (newLen, k')) :
    OnlyEmpties k k' := by
  simp only [contract, Option.bind_eq_bind, Option.bind_eq_some_iff, Option.some.injEq,
    Prod.mk.injEq] at h
  obtain ⟨k₁, hk₁, -, rfl⟩ := h
  exact (onlyEmpties_contractPages _ _ _ hk₁).trans (.of_tables rfl rfl rfl)

lemma onlyEmpties_mergeBefore (header footer : ℕ) (k : Kernel) :
    OnlyEmpties k (k.mergeBefore header footer).2.2 := by
  simp only [mergeBefore]
  split
  · exact (onlyEmpties_write _ _).trans (onlyEmpties_write _ _)
  · exact .refl k

lemma onlyEmpties_mergeAfter {header footer : ℕ} {doAdd : Bool} {r : ℕ × Bool × Kernel}
    (h : k.mergeAfter header footer doAdd = some r) : OnlyEmpties k r.2.2 := by
  simp only [mergeAfter] at h
  split at h
  · simp only [Option.bind_eq_bind, Option.bind_eq_some_iff, Option.some.injEq] at h
    obtain ⟨iter, -, k₁, hk₁, rfl⟩ := h
    exact ((onlyEmpties_write _ _).trans (onlyEmpties_write _ _)).trans (onlyEmpties_removeHole hk₁)
  · obtain rfl := Option.some.inj h
    exact .refl k

lemma onlyEmpties_shrinkHeap {header footer testHeader : ℕ}
    (h : k.shrinkHeap header footer testHeader = some k') : OnlyEmpties k k' := by
  unfold shrinkHeap at h
  split at h
  · simp only [Option.bind_eq_bind, Option.bind_eq_some_iff, Prod.exists] at h
    obtain ⟨newLen, k₁, hk₁, h⟩ := h
    refine (onlyEmpties_contract hk₁).trans ?_
    split at h
    · obtain rfl := Option.some.inj h
      exact (onlyEmpties_write _ _).trans (onlyEmpties_write _ _)
    · simp only [Option.bind_eq_some_iff] at h
      obtain ⟨iter, -, h⟩ := h
      split at h
      · exact onlyEmpties_removeHole h
      · obtain rfl := Option.some.inj h
        exact .refl _
  · obtain rfl := Option.some.inj h
    exact .refl k

lemma onlyEmpties_freeWith {before : ℕ → ℕ → Kernel → ℕ × Bool × Kernel}
    {after : ℕ → ℕ → Bool → Kernel → Option (ℕ × Bool × Kernel)}
    {shrink : ℕ → ℕ → ℕ → Kernel → Option Kernel} {header : ℕ}
    (hbefore : ∀ h f k, OnlyEmpties k (before h f k).2.2)
    (hafter : ∀ h f doAdd k r, after h f doAdd k = some r → OnlyEmpties k r.2.2)
    (hshrink : ∀ h f t k k', shrink h f t k = some k' → OnlyEmpties k k')
    (h : freeWith before after shrink header k = some k') : OnlyEmpties k k' := by
  unfold freeWith at h
  simp only [Option.bind_eq_bind, Option.bind_eq_some_iff, Option.some.injEq] at h
  obtain ⟨r, hr, k₁, hk₁, rfl⟩ := h
  refine (onlyEmpties_write _ k).trans ((hbefore _ _ _).trans ((hafter _ _ _ _ _ hr).trans
    ((hshrink _ _ _ _ _ hk₁).trans ?_)))
  split
  · exact onlyEmpties_insertHole _ _
  · exact .refl _

/-- **`kfree` fills no entry.** -/
lemma onlyEmpties_kfree {addr : ℕ} (h : k.kfree addr = some k') : OnlyEmpties k k' := by
  unfold kfree free at h
  rw [freeBlock_with] at h
  exact onlyEmpties_freeWith onlyEmpties_mergeBefore (fun _ _ _ _ _ => onlyEmpties_mergeAfter)
    (fun _ _ _ _ _ => onlyEmpties_shrinkHeap) h

/-! ### `free_all_page` -/

variable {dir i j pTable : ℕ}

lemma onlyEmpties_freePage (pTable j : ℕ) (k : Kernel) : OnlyEmpties k (k.freePage pTable j) := by
  by_cases ht : pTable = 0
  · refine .of_tables ?_ ?_ ?_ <;> simp only [freePage, setPageAt, if_pos ht, write]
  · have h : OnlyEmpties k (k.setPage (some ⟨pTable, j⟩)
        (Memory.freeFrame (k.pageAt pTable j) k.map).1) :=
      onlyEmpties_setPage fun _ => frame_freeFrame _ _
    refine h.trans (.of_tables ?_ ?_ ?_) <;> simp only [freePage, setPageAt, if_neg ht]

lemma freePage_empty (ht : pTable ≠ 0) (j : ℕ) (k : Kernel) :
    ((k.freePage pTable j).tables pTable j).frame = 0 := by
  unfold freePage setPageAt
  simp only [if_neg ht, setPage, Function.update_self]
  exact frame_freeFrame _ _

lemma freeTable_empties (pTable : ℕ) (k : Kernel) : OnlyEmpties k (k.freeTable pTable) ∧
    (pTable ≠ 0 → ∀ j < 1024, ((k.freeTable pTable).tables pTable j).frame = 0) := by
  unfold freeTable
  refine foldl_range_inv (N := 1024) (f := freePage pTable) (P := fun n k' => OnlyEmpties k k' ∧
    (pTable ≠ 0 → ∀ j < n, (k'.tables pTable j).frame = 0))
    ⟨.refl k, fun _ j hj => absurd hj (by omega)⟩ fun n _ k' ⟨hk, hdone⟩ => ?_
  have hstep := onlyEmpties_freePage pTable n k'
  refine ⟨hk.trans hstep, fun ht j hj => ?_⟩
  rcases Nat.lt_succ_iff_lt_or_eq.mp hj with hj | rfl
  · exact hstep.empty _ _ (hdone ht j hj)
  · exact freePage_empty ht j k'

lemma freeSlots_empties (dir n : ℕ) (k : Kernel) :
    OnlyEmpties k ((List.range n).foldl (fun k i => k.freeTable (k.tableOf dir i)) k) ∧
    ∀ i < n, k.tableOf dir i ≠ 0 → ∀ j < 1024,
      (((List.range n).foldl (fun k i => k.freeTable (k.tableOf dir i)) k).tables
        (k.tableOf dir i) j).frame = 0 := by
  refine foldl_range_inv (P := fun n k' => OnlyEmpties k k' ∧ ∀ i < n, k.tableOf dir i ≠ 0 →
    ∀ j < 1024, (k'.tables (k.tableOf dir i) j).frame = 0)
    ⟨.refl k, fun i hi => absurd hi (by omega)⟩ fun n _ k' ⟨hk, hdone⟩ => ?_
  obtain ⟨hstep, hnew⟩ := freeTable_empties (k'.tableOf dir n) k'
  rw [hk.tableOf] at hstep hnew ⊢
  refine ⟨hk.trans hstep, fun i hi hne j hj => ?_⟩
  rcases Nat.lt_succ_iff_lt_or_eq.mp hi with hi | rfl
  · exact hstep.empty _ _ (hdone i hi hne j hj)
  · exact hnew hne j hj

/-- **`free_all_page` empties every table of the directory**, its own or not. -/
theorem freeAllPage_empties (dir : ℕ) (k : Kernel) : OnlyEmpties k (k.freeAllPage dir) ∧
    ∀ i < 1024, k.tableOf dir i ≠ 0 → ∀ j < 1024,
      ((k.freeAllPage dir).tables (k.tableOf dir i) j).frame = 0 := by
  rw [freeAllPage]
  exact freeSlots_empties dir 1024 k

end OnlyEmpties

/-! ### Tables of the boot -/

/-- There is a frame in a table of the boot. -/
structure BootFramed (A : ℕ) (k : Kernel) : Prop where
  kheap : k.kheap ≠ 0
  framed : ∃ i < 1024, ∃ j < 1024, k.bootTable A k.vmPageDir i ≠ 0 ∧
    (k.tables (k.bootTable A k.vmPageDir i) j).frame ≠ 0

section Boot

variable {A : ℕ} {k k' : Kernel}

lemma bootTable_lt {d i : ℕ} (h : k.bootTable A d i ≠ 0) :
    k.bootTable A d i < A ∧ k.tableOf d i = k.bootTable A d i := by
  unfold bootTable at h ⊢
  split_ifs at h ⊢ with hlt
  · exact ⟨hlt, rfl⟩
  · exact absurd rfl h

lemma PagesKept.bootFramed (hk : PagesKept A k k') (h : BootFramed A k) : BootFramed A k' := by
  obtain ⟨i, hi, j, hj, hne, hframe⟩ := h.framed
  refine ⟨by rw [hk.kheap]; exact h.kheap, i, hi, j, hj, ?_⟩
  rw [hk.vm, hk.bootTable, hk.entries _ (bootTable_lt hne).1 j hframe]
  exact ⟨hne, hframe⟩

theorem stable_bootFramed (A : ℕ) : Stable A AllocOk (fun _ => True) (BootFramed A) where
  sound h := h
  alloc hi hok hr h :=
    (alloc_keeps A _ _ _ _ _ _ _ _ hi h.kheap (hok _) hr).bootFramed h
  congr := by
    intro k k' hs h
    obtain ⟨i, hi, j, hj, hne, hframe⟩ := h.framed
    refine ⟨by rw [hs.kheap]; exact h.kheap, i, hi, j, hj, ?_⟩
    rw [hs.bootTable, hs.tables _ (bootTable_lt hne).1]
    exact ⟨hne, hframe⟩
  map _ _ h := ((onlyFrames_allocFrame _ _ _ _).pagesKept A).bootFramed h

end Boot

end Kernel

open Kernel

/-- A machine that has been started has such a frame, that of the second page of its heap. -/
lemma Started.bootFramed {k k₀ : Kernel} {b : Boot} {K : ℕ} (hlow : b.Low k K) (hfit : b.Fits)
    (h : Started b.kernel k₀) : BootFramed KHEAP_START k₀ := by
  have hA : KHEAP_START = 0xC0000000 := rfl
  have hloop := hlow.frames hfit
  have htab : k₀.tableOf k₀.vmPageDir 768 ≠ 0 := by
    rw [h.tableOf]
    exact (hlow.present (by decide)).mpr rfl
  have hboot : k₀.bootTable KHEAP_START k₀.vmPageDir 768 = k₀.tableOf k₀.vmPageDir 768 := by
    refine if_pos ?_
    rw [h.tableOf]
    exact hlow.table_lt 768
  have hentry : k₀.entryOf k₀.vmPageDir (heapPage 1) = k₀.tables (k₀.tableOf k₀.vmPageDir 768) 1 :=
    rfl
  refine ⟨h.system.kheap, 768, by decide, 1, by decide, by rwa [hboot], ?_⟩
  rw [hboot, ← hentry, h.entryOf, (hloop.mapped 1 (by decide)).2]
  omega

/-- **Every clone has a frame of `vm_page_dir`**, in a table of the boot. -/
theorem System.sharedFrame {A : ℕ} {holes blocks : List (ℕ × ℕ)} {k : Kernel} {ds : List ℕ}
    (h : System A holes blocks ⟨k, ds⟩) (hb : BootFramed A k) {d : ℕ} (hd : d ∈ ds) :
    ∃ i < 1024, ∃ j < 1024, k.tableOf d i = k.tableOf k.vmPageDir i ∧
      k.tableOf k.vmPageDir i ≠ 0 ∧ k.frameAt k.vmPageDir i j ≠ 0 := by
  obtain ⟨i, hi, j, hj, hne, hframe⟩ := hb.framed
  have hvm := (bootTable_lt hne).2
  have hshare := h.shares d hd i hi
  have hown := (bootTable_lt (hshare.trans_ne hne)).2
  refine ⟨i, hi, j, hj, hown.trans (hshare.trans hvm.symm), ?_, ?_⟩
  · rw [hvm]
    exact hne
  · rw [frameAt, hvm]
    exact hframe

end OsImplement.Memory
