import OsImplement.Memory.FirstFit
import OsImplement.Memory.HeapBacking
import OsImplement.Task.Stack

/-!
The pages of the new stack.

The first loop of `move_stack` asks for the page of `new_stack` and for those of the addresses a
multiple of `0x1000` below it, down to its bound. While page tables and frames last, what it leaves
mapped is what was mapped before and these pages.
-/

namespace OsImplement.Task

open Lib.Word Lib.Bytes Memory

/-! ### Page tables -/

/-- `_malloc_ap` has returned room for a table: the page structures are as they were, and the running
directory does not have this table. -/
structure StackTable (k k₁ : Kernel) (t : ℕ) : Prop where
  cur : k₁.curVmPageDir = k.curVmPageDir
  dirs : k₁.dirs = k.dirs
  tables : k₁.tables = k.tables
  map : k₁.map = k.map
  null : t ≠ 0
  fresh : ∀ i, k.tableOf k.curVmPageDir i ≠ t

/-- `_malloc_ap` hands out page tables: `n` of them are to be had in a state that is `ready n`. -/
structure TableAlloc (ready : ℕ → Kernel → Prop) (mallocAp : MallocAp) : Prop where
  less : ∀ {n k}, ready (n + 1) k → ready n k
  made : ∀ {n k}, ready (n + 1) k → ∃ t phy k₁, mallocAp 4096 k = some (t, phy, k₁) ∧
    StackTable k k₁ t ∧
    ∀ i, ready n ((k₁.setSlot k.curVmPageDir i t (phy ||| 7)).setTable t fun _ => .zero)
  frames : ∀ {n k r isKernel isWritable}, ready n k →
    ready n (k.allocFrame (some r) isKernel isWritable)

/-- Paging is on, with the tables and frames for `n` more pages. -/
structure Room (ready : ℕ → Kernel → Prop) (n : ℕ) (k : Kernel) : Prop where
  tables : ready n k
  frames : n ≤ (freeFrames k.map).length
  size : 8 * k.map.framesBitmapSize ≤ 2 ^ 20
  apart : k.TablesApart k.curVmPageDir
  paging : k.curVmPageDir ≠ 0

/-- The page at `p` is mapped in the running directory, to a frame that is there. -/
def PageMapped (p : ℕ) (k : Kernel) : Prop :=
  k.tableOf k.curVmPageDir (p / 1024) ≠ 0 ∧ (k.entryOf k.curVmPageDir p).valid = true ∧
    (k.entryOf k.curVmPageDir p).frame < 8 * k.map.framesBitmapSize

instance (p : ℕ) (k : Kernel) : Decidable (PageMapped p k) := by unfold PageMapped; infer_instance

/-- The page has no frame. -/
def PageEmpty (p : ℕ) (k : Kernel) : Prop := k.pageFrame k.curVmPageDir p = 0

/-! ### One round -/

section Round

variable {ready : ℕ → Kernel → Prop} {mallocAp : MallocAp} {k k₁ : Kernel} {t phy p q i n a : ℕ}

lemma PageMapped.mapped (h : PageMapped p k) (ha : a < 2 ^ 32) (hp : a / 0x1000 = p) :
    k.Mapped a := by
  subst hp
  exact Kernel.mapped_of_entry ha rfl h.1 h.2.1 h.2.2

lemma mapped_iff (h : k.curVmPageDir ≠ 0) : k.Mapped a ↔ PageMapped (a % 2 ^ 32 / 0x1000) k := by
  constructor
  · rintro (h0 | ⟨x, hx, hlt⟩)
    · exact absurd h0 h
    · generalize a % 2 ^ 32 = b at hx ⊢
      unfold Kernel.translate Kernel.lookupPage at hx
      by_cases h0 : k.tableOf k.curVmPageDir (b / 0x1000 / 1024) = 0
      · simp [h0] at hx
      · simp only [ne_eq, h0, not_false_eq_true, if_true, Kernel.page, Option.mem_def] at hx
        obtain ⟨hv, hx⟩ := Option.ite_none_right_eq_some.mp hx
        obtain rfl := Option.some.inj hx
        refine ⟨h0, hv, ?_⟩
        unfold PAGE_SIZE at hlt
        unfold Kernel.entryOf
        omega
  · intro hp
    have hmapped := hp.mapped (Nat.mod_lt a (by decide)) rfl
    unfold Kernel.Mapped at hmapped ⊢
    rwa [Nat.mod_mod] at hmapped

/-- A new table has no pages. -/
lemma StackTable.pages (h : StackTable k k₁ t) (h0 : k.tableOf k.curVmPageDir i = 0) {k₂ : Kernel}
    (hk₂ : k₂ = (k₁.setSlot k.curVmPageDir i t phy).setTable t fun _ => .zero) :
    (PageMapped p k₂ ↔ PageMapped p k) ∧ (PageEmpty p k₂ ↔ PageEmpty p k) := by
  have hcur : k₂.curVmPageDir = k.curVmPageDir := by
    rw [hk₂]
    exact h.cur
  have hsize : k₂.map = k.map := by
    rw [hk₂]
    exact h.map
  have htab : k₂.tableOf k₂.curVmPageDir (p / 1024) =
      if p / 1024 = i then t else k.tableOf k.curVmPageDir (p / 1024) := by
    rw [hcur, hk₂, Kernel.tableOf_newTable h.dirs]
  have hentry : k₂.entryOf k₂.curVmPageDir p =
      if p / 1024 = i then .zero else k.entryOf k.curVmPageDir p := by
    rw [hcur, hk₂, Kernel.entryOf_newTable h.dirs h.tables h.fresh]
  unfold PageMapped PageEmpty Kernel.pageFrame
  rw [htab, hentry, hsize]
  by_cases hp : p / 1024 = i
  · simp [hp, h0, PageStruct.zero]
  · rw [if_neg hp, if_neg hp]
    exact ⟨.rfl, .rfl⟩

/-- `get_page` finds a table or makes one, and maps no page. -/
lemma Room.table (hA : TableAlloc ready mallocAp) (h : Room ready (n + 1) k) (addr : ℕ) :
    ∃ k₁, k.getPage mallocAp addr true k.curVmPageDir =
        some (some (k₁.refOf k₁.curVmPageDir (addr / 0x1000)), k₁) ∧
      (ready n k₁ ∧ k₁.curVmPageDir = k.curVmPageDir ∧ k₁.map = k.map ∧
        k₁.TablesApart k₁.curVmPageDir ∧
        k₁.tableOf k₁.curVmPageDir (addr / 0x1000 / 1024) ≠ 0) ∧
      ∀ p, (PageMapped p k₁ ↔ PageMapped p k) ∧ (PageEmpty p k₁ ↔ PageEmpty p k) := by
  by_cases h0 : k.tableOf k.curVmPageDir (addr / 0x1000 / 1024) = 0
  · obtain ⟨t, phy, k₁, hm, hnew, hready⟩ := hA.made h.tables
    have htab : ((k₁.setSlot k.curVmPageDir (addr / 0x1000 / 1024) t (phy ||| 7)).setTable t
        fun _ => .zero).tableOf k.curVmPageDir (addr / 0x1000 / 1024) = t := by
      rw [Kernel.tableOf_newTable hnew.dirs, if_pos rfl]
    have hcur : ((k₁.setSlot k.curVmPageDir (addr / 0x1000 / 1024) t (phy ||| 7)).setTable t
        fun _ => .zero).curVmPageDir = k.curVmPageDir := hnew.cur
    refine ⟨_, ?_, ⟨hready _, hcur, hnew.map, ?_, ?_⟩, fun p => hnew.pages h0 rfl⟩
    · rw [Kernel.getPage, Kernel.lookupPage_none h0, if_pos rfl, hm, Kernel.refOf, hcur, htab]
      rfl
    · rw [hcur]
      exact h.apart.newTable hnew.dirs hnew.fresh
    · rw [hcur, htab]
      exact hnew.null
  · refine ⟨k, ?_, ⟨hA.less h.tables, rfl, rfl, h.apart, h0⟩, fun p => ⟨.rfl, .rfl⟩⟩
    rw [Kernel.getPage, Kernel.lookupPage_of_table h0]

/-- A page with a table gets a frame, if it has none. -/
lemma allocFrame_maps (hfree : freeFrames k.map ≠ []) (hsize : 8 * k.map.framesBitmapSize ≤ 2 ^ 20)
    (hap : k.TablesApart k.curVmPageDir) (htab : k.tableOf k.curVmPageDir (q / 1024) ≠ 0)
    {k' : Kernel} (hk' : k' = k.allocFrame (some (k.refOf k.curVmPageDir q)) false true) :
    k'.map.framesBitmapSize = k.map.framesBitmapSize ∧
      (freeFrames k.map).length ≤ (freeFrames k'.map).length + 1 ∧
      ∀ p, (PageMapped p k' ↔ PageMapped p k ∨ p = q ∧ PageEmpty p k) ∧
        (p ≠ q → (PageEmpty p k' ↔ PageEmpty p k)) := by
  have hslot (j : ℕ) : k'.tableOf k'.curVmPageDir j = k.tableOf k.curVmPageDir j := by
    rw [hk']
    rfl
  have hempty : PageEmpty q k ↔ (k.entryOf k.curVmPageDir q).frame = 0 := by
    unfold PageEmpty Kernel.pageFrame
    rw [if_neg htab]
  by_cases h0 : (k.entryOf k.curVmPageDir q).frame = 0
  · -- the first free frame
    obtain ⟨g, rest, hcons⟩ := List.exists_cons_of_ne_nil hfree
    have hg := (mem_freeFrames.mp (hcons ▸ List.mem_cons_self : g ∈ freeFrames k.map)).1
    obtain ⟨hmap, hpage⟩ := @Kernel.allocFrame_free k (k.refOf k.curVmPageDir q) false true hsize
      h0 (exists_free_iff.mpr hfree)
    rw [← hk', firstFrame_cons hcons] at hmap hpage
    have hsize' : k'.map.framesBitmapSize = k.map.framesBitmapSize := by rw [hmap, size_setFrame]
    -- the other pages keep their entries
    have hother (p : ℕ) (hp : p ≠ q) :
        (PageMapped p k' ↔ PageMapped p k) ∧ (PageEmpty p k' ↔ PageEmpty p k) := by
      unfold PageMapped PageEmpty Kernel.pageFrame
      rw [hslot, hsize']
      by_cases ht : k.tableOf k.curVmPageDir (p / 1024) = 0
      · simp [ht]
      · have hentry : k'.entryOf k'.curVmPageDir p = k.entryOf k.curVmPageDir p := by
          unfold Kernel.entryOf
          rw [hslot, hk']
          refine Kernel.tables_allocFrame_ne fun he => hp ?_
          have hidx := hap _ _ he.1 ht
          have hmod : p % 1024 = q % 1024 := he.2
          omega
        rw [hentry]
        exact ⟨.rfl, .rfl⟩
    refine ⟨hsize', ?_, fun p => ⟨?_, fun hp => (hother p hp).2⟩⟩
    · rw [hmap, freeFrames_setFrame hcons, hcons, List.length_cons]
    · by_cases hp : p = q
      · subst hp
        refine iff_of_true ⟨?_, ?_, ?_⟩ (.inr ⟨rfl, hempty.mpr h0⟩)
        · rw [hslot]
          exact htab
        · unfold Kernel.entryOf
          rw [hslot]
          exact congrArg PageStruct.valid hpage
        · unfold Kernel.entryOf
          rw [hslot, hsize']
          exact (congrArg PageStruct.frame hpage).trans_lt hg
      · rw [(hother p hp).1]
        simp [hp]
  · -- the frame that it has
    obtain rfl : k' = k := by
      rw [hk']
      exact Kernel.allocFrame_of_frame h0
    refine ⟨rfl, Nat.le_succ _, fun p => ⟨⟨.inl, ?_⟩, fun _ => .rfl⟩⟩
    rintro (h | ⟨rfl, h⟩)
    · exact h
    · exact absurd (hempty.mp h) h0

end Round

/-! ### The whole loop -/

section Loop

variable {ready : ℕ → Kernel → Prop} {mallocAp : MallocAp} {k : Kernel}
  {newStack size initialEsp esp ebp : ℕ}

/-- The loop asks for page `p`, on the way from `i` down to `low`. -/
def Visited (low i p : ℕ) : Prop := low ≤ p * 0x1000 + i % 0x1000 ∧ p ≤ i / 0x1000

/-- **The first loop** ends, and it has mapped the pages it asks for that had no frame. -/
theorem mapStack_maps (hA : TableAlloc ready mallocAp) {n i : ℕ} (h : Room ready n k)
    (hi : i < 2 ^ 32) (hlow : i % 0x1000 < sub32 newStack size)
    (hn : i < sub32 newStack size + n * 0x1000) :
    ∃ k', mapStack mallocAp newStack size (n + 1) i k = some k' ∧
      k'.curVmPageDir = k.curVmPageDir ∧
      ∀ p, PageMapped p k' ↔ PageMapped p k ∨ Visited (sub32 newStack size) i p ∧ PageEmpty p k := by
  induction n generalizing i k with
  | zero =>
    refine ⟨k, if_neg (by omega), rfl, fun p => ⟨.inl, ?_⟩⟩
    rintro (h | ⟨⟨h1, h2⟩, -⟩)
    · exact h
    · omega
  | succ n ih =>
    unfold mapStack
    by_cases hgo : sub32 newStack size ≤ i
    · rw [if_pos hgo]
      obtain ⟨k₁, hget, ⟨hready, hcur, hmap, hap, htab⟩, hpages⟩ := h.table hA i
      have hframes : n + 1 ≤ (freeFrames k₁.map).length := by
        rw [hmap]
        exact h.frames
      set k₂ := k₁.allocFrame (some (k₁.refOf k₁.curVmPageDir (i / 0x1000))) false true with hk₂
      obtain ⟨hsize, hless, hpages₂⟩ := allocFrame_maps (List.ne_nil_of_length_pos (by omega))
        (by rw [hmap]; exact h.size) hap htab hk₂
      have hcur₂ : k₂.curVmPageDir = k.curVmPageDir := hcur
      have hroom : Room ready n k₂ := ⟨hA.frames hready, by omega, by rw [hsize, hmap]; exact h.size,
        hap, by rw [hcur₂]; exact h.paging⟩
      have hsub : sub32 i 0x1000 = i - 0x1000 := sub32_eq (by omega) hi
      obtain ⟨k', hk', hcur', hpages'⟩ := ih (i := i - 0x1000) hroom (by omega) (by omega) (by omega)
      refine ⟨k', ?_, hcur'.trans hcur₂, fun p => ?_⟩
      · rw [hget, hsub]
        exact hk'
      · -- the pages below are asked for later, and the rounds leave each other's pages alone
        rw [hpages', (hpages₂ p).1, (hpages p).1, (hpages p).2]
        by_cases hp : p = i / 0x1000
        · have hnot : ¬ Visited (sub32 newStack size) (i - 0x1000) p := fun hv => by
            have := hv.2
            omega
          have hyes : Visited (sub32 newStack size) i p := ⟨by omega, by omega⟩
          simp [hp ▸ hnot, hp ▸ hyes, hp]
        · rw [(hpages₂ p).2 hp, (hpages p).2]
          have hsame : Visited (sub32 newStack size) (i - 0x1000) p ↔
              Visited (sub32 newStack size) i p := by
            unfold Visited
            omega
          simp [hp, hsame]
    · rw [if_neg hgo]
      refine ⟨k, rfl, rfl, fun p => ⟨.inl, ?_⟩⟩
      rintro (h | ⟨⟨h1, h2⟩, -⟩)
      · exact h
      · omega

/-- Page `p` will be mapped when the loop is done. -/
def PageReady (newStack size p : ℕ) (k : Kernel) : Prop :=
  PageMapped p k ∨ Visited (newStack - size) newStack p ∧ PageEmpty p k

/-- The first loop ends before it wraps around, and what is moved and scanned lies on pages that are
mapped, or that the loop asks for and that have no frame yet. -/
structure StackReady (newStack size initialEsp esp : ℕ) (k : Kernel) : Prop where
  ends : newStack % 0x1000 < newStack - size
  old : ∀ i < initialEsp - esp, PageReady newStack size ((esp + i) / 0x1000) k
  copied : ∀ i < initialEsp - esp,
    PageReady newStack size ((newStack - (initialEsp - esp) + i) / 0x1000) k
  scanned : ∀ b, newStack - size < b → b ≤ newStack → b % 4 = newStack % 4 → ∀ i < 4,
    PageReady newStack size ((b + i) % 2 ^ 32 / 0x1000) k

/-- With tables and frames for the new stack, its pages can be told before the call. -/
lemma stackOk_iff (hA : TableAlloc ready mallocAp) (h : Room ready (size / 0x1000 + 1) k)
    (hinit : initialEsp < 2 ^ 32) (hnew : newStack < 2 ^ 32) (hesp : esp ≤ initialEsp)
    (hsize : initialEsp - esp < size) (hwrap : size ≤ newStack) :
    StackOk mallocAp newStack size initialEsp esp k ↔ StackReady newStack size initialEsp esp k := by
  have hbound : sub32 newStack size = newStack - size := sub32_eq hwrap hnew
  -- what the loop leaves, whatever fuel it has
  have hloop (hends : newStack % 0x1000 < newStack - size) : ∃ k₁,
      mapStack mallocAp newStack size (size / 0x1000 + 2) newStack k = some k₁ ∧
        ∀ a, k₁.Mapped a ↔ PageReady newStack size (a % 2 ^ 32 / 0x1000) k := by
    obtain ⟨k₁, hk₁, hcur, hpages⟩ := @mapStack_maps ready mallocAp k newStack size hA
      (size / 0x1000 + 1) newStack h hnew (by omega) (by omega)
    refine ⟨k₁, hk₁, fun a => ?_⟩
    rw [mapped_iff (by rw [hcur]; exact h.paging), hpages, hbound, PageReady]
  have hmod {a i : ℕ} (hi : i < initialEsp - esp) (ha : a + (initialEsp - esp) ≤ 2 ^ 32) :
      (a + i) % 2 ^ 32 = a + i := Nat.mod_eq_of_lt (by omega)
  constructor
  · rintro ⟨hends, fuel, k₂, hk₂, hold, hcopied, hscanned⟩
    obtain ⟨k₁, hk₁, hmapped⟩ := hloop hends
    obtain rfl : k₁ = k₂ := Option.some.inj
      ((mapStack_mono hk₁ (le_max_left _ fuel)).symm.trans (mapStack_mono hk₂ (le_max_right _ fuel)))
    refine ⟨hends, fun i hi => ?_, fun i hi => ?_, fun b h1 h2 h4 i hi => ?_⟩
    · rw [← hmod hi (by omega), ← hmapped]
      exact hold i hi
    · rw [← hmod hi (by omega), ← hmapped]
      exact hcopied i hi
    · rw [← hmapped]
      exact hscanned b (by omega) h2 h4 i hi
  · rintro ⟨hends, hold, hcopied, hscanned⟩
    obtain ⟨k₁, hk₁, hmapped⟩ := hloop hends
    refine ⟨hends, _, k₁, hk₁, fun i hi => ?_, fun i hi => ?_, fun b h1 h2 h4 i hi => ?_⟩
    · rw [hmapped, hmod hi (by omega)]
      exact hold i hi
    · rw [hmapped, hmod hi (by omega)]
      exact hcopied i hi
    · rw [hmapped]
      exact hscanned b (by omega) h2 h4 i hi

/-- **`move_stack` moves the stack** exactly when its first loop ends and leaves both stacks mapped.
While tables and frames last, that shows before the call. -/
theorem moveStack_moves (hinit : initialEsp < 2 ^ 32) (hnew : newStack < 2 ^ 32)
    (hesp : esp ≤ initialEsp) (hsize : initialEsp - esp < size) (hwrap : size ≤ newStack)
    (hapart : newStack ≤ esp ∨ initialEsp ≤ newStack - (initialEsp - esp)) :
    (StackMoved mallocAp newStack size initialEsp esp ebp k ↔
      StackOk mallocAp newStack size initialEsp esp k) ∧
    ∀ ready, TableAlloc ready mallocAp → Room ready (size / 0x1000 + 1) k →
      (StackMoved mallocAp newStack size initialEsp esp ebp k ↔
        StackReady newStack size initialEsp esp k) := by
  have hiff : StackMoved mallocAp newStack size initialEsp esp ebp k ↔
      StackOk mallocAp newStack size initialEsp esp k :=
    stackMoved_iff hinit hnew hesp hsize hwrap hapart
  refine ⟨hiff, fun ready hA h => ?_⟩
  rw [hiff]
  exact stackOk_iff hA h hinit hnew hesp hsize hwrap

/-- With `new_stack` and `size` multiples of a page the loop passes over no page. -/
lemma visited_of_aligned {a : ℕ} (hnew : newStack % 0x1000 = 0) (hsize : size % 0x1000 = 0)
    (hwrap : size ≤ newStack) (hlo : newStack - size ≤ a) (hhi : a < newStack + 0x1000) :
    Visited (newStack - size) newStack (a / 0x1000) := by
  unfold Visited
  omega

end Loop

/-! ### Before the heap -/

/-- Page tables are placed, as `_malloc_ap` does before `kheap` is set. -/
abbrev placeTables : MallocAp := Kernel.mallocAp (Kernel.alloc 0)

/-- There is room for `n` tables behind those of the running directory. -/
structure PlaceReady (n : ℕ) (k : Kernel) : Prop where
  kheap : k.kheap = 0
  pos : 0 < k.placementAddress
  top : k.placementAddress + n * 0x2000 < 2 ^ 32
  tables : ∀ i, k.tableOf k.curVmPageDir i < k.placementAddress

lemma PlaceReady.room {n : ℕ} {k : Kernel} (h : PlaceReady (n + 1) k) :
    k.placementAddress + 0x2000 + n * 0x2000 < 2 ^ 32 := by
  have htop := h.top
  rw [Nat.succ_mul] at htop
  omega

lemma tableAlloc_place : TableAlloc PlaceReady placeTables where
  less {n k} h := ⟨h.kheap, h.pos, by have := h.room; omega, h.tables⟩
  made {n k} h := by
    have hpos := h.pos
    have htop := h.room
    have hle : k.placementAddress ≤ k.place true := Kernel.le_place
    have hlt : k.place true < k.placementAddress + 0x1000 := Kernel.place_lt
    have hm : placeTables 4096 k = some (k.place true, k.place true,
        { k with placementAddress := k.place true + 4096 }) := by
      show k.malloc (Kernel.alloc 0) 4096 true = _
      rw [Kernel.malloc_place h.kheap (by omega)]
    have hnew : StackTable k { k with placementAddress := k.place true + 4096 } (k.place true) :=
      ⟨rfl, rfl, rfl, rfl, by omega, fun i => by have := h.tables i; omega⟩
    refine ⟨_, _, _, hm, hnew, fun i => ⟨h.kheap, ?_, ?_, fun j => ?_⟩⟩
    · show 0 < k.place true + 4096
      omega
    · show k.place true + 4096 + n * 0x2000 < 2 ^ 32
      omega
    · have htab := @Kernel.tableOf_newTable k _ k.curVmPageDir i j (k.place true)
        (k.place true ||| 7) hnew.dirs
      refine htab.trans_lt ?_
      show _ < k.place true + 4096
      have := h.tables j
      split_ifs <;> omega
  frames h := ⟨h.kheap, h.pos, h.top, h.tables⟩

/-! ### Two stacks that begin at `0x90000` -/

/-- Paging is on. The first 640 KiB are mapped to themselves, and their frames are taken. -/
def lowMapped : Kernel :=
  { zeroedKernel with
    placementAddress := 0x80000
    map := ⟨fun n => if n < 20 then 0xFF else 0, 512⟩
    tables := fun t j => if t = 0x3000 ∧ j < 160 then
      { PageStruct.zero with valid := true, frame := j } else .zero
    dirs := fun d => if d = 0x1000 then
      { PageDir.zero with pageTable := fun i => if i = 0 then 0x3000 else 0 } else .zero
    vmPageDir := 0x1000
    curVmPageDir := 0x1000 }

lemma lowMapped_tableOf (i : ℕ) :
    lowMapped.tableOf lowMapped.curVmPageDir i = if i = 0 then 0x3000 else 0 := rfl

lemma lowMapped_room {n : ℕ} (hn : n ≤ 3) : Room PlaceReady n lowMapped where
  tables := ⟨rfl, by decide, by show 0x80000 + n * 0x2000 < 2 ^ 32; omega, fun i => by
    rw [lowMapped_tableOf]
    show _ < 0x80000
    split_ifs <;> omega⟩
  frames := hn.trans (by decide +kernel)
  size := by decide
  apart i j hij hne := by
    rw [lowMapped_tableOf, lowMapped_tableOf] at hij
    rw [lowMapped_tableOf] at hne
    split_ifs at hij hne <;> simp_all
  paging := by decide

lemma lowMapped_high {p : ℕ} (hp : 1024 ≤ p) : ¬ PageMapped p lowMapped ∧ PageEmpty p lowMapped := by
  unfold PageMapped PageEmpty Kernel.pageFrame
  rw [lowMapped_tableOf, if_neg (by omega)]
  simp

/-- 6148 bytes of the stack are in use, and `size` is 6400: the loop maps the pages `0xE0000` and
`0xDFFFF`, and steps over the one that the copy begins in. -/
theorem moveStack_fails : lowMapped.MappedFrom 0x8E7FC 0x1804 ∧
    (∃ k₁, mapStack placeTables 0xE0000000 0x1900 3 0xE0000000 lowMapped = some k₁) ∧
    ∀ ebp, ¬ StackMoved placeTables 0xE0000000 0x1900 0x90000 0x8E7FC ebp lowMapped := by
  have hroom := @lowMapped_room 2 (by decide)
  refine ⟨fun i hi => ?_, ?_, fun ebp hmoved => ?_⟩
  · have h1 : PageMapped 0x8E lowMapped := by decide
    have h2 : PageMapped 0x8F lowMapped := by decide
    rcases (show (0x8E7FC + i) / 0x1000 = 0x8E ∨ (0x8E7FC + i) / 0x1000 = 0x8F by omega) with h | h
    · exact h1.mapped (by omega) h
    · exact h2.mapped (by omega) h
  · obtain ⟨k₁, hk₁, -⟩ := @mapStack_maps PlaceReady placeTables lowMapped 0xE0000000 0x1900
      tableAlloc_place 2 0xE0000000 hroom (by decide) (by decide) (by decide)
    exact ⟨k₁, hk₁⟩
  · have hok := hmoved.ok (by decide) (by decide) (by decide) (by decide) (by decide)
    have hready := (stackOk_iff tableAlloc_place hroom (by decide) (by decide) (by decide)
      (by decide) (by decide)).mp hok
    -- the first byte of the copy lies on page `0xDFFFE`
    rcases hready.copied 0 (by decide) with hmapped | ⟨⟨hlo, -⟩, -⟩
    · exact (lowMapped_high (by decide)).1 hmapped
    · exact absurd hlo (by decide)

/-- The call that `init_multitask` makes, with 16 bytes in use. -/
theorem moveStack_moves_boot :
    StackMoved placeTables 0xE0000000 0x2000 0x90000 0x8FFF0 0x8FFF4 lowMapped := by
  have hnew {a : ℕ} (hlo : 0xE0000000 - 0x2000 ≤ a) (hhi : a < 0xE0000000 + 0x1000) :
      PageReady 0xE0000000 0x2000 (a / 0x1000) lowMapped :=
    .inr ⟨visited_of_aligned (by decide) (by decide) (by decide) hlo hhi,
      (lowMapped_high (by omega)).2⟩
  refine ((moveStack_moves (by decide) (by decide) (by decide) (by decide) (by decide)
    (by decide)).2 PlaceReady tableAlloc_place (lowMapped_room (by decide))).mpr
      ⟨by decide, fun i hi => ?_, fun i hi => ?_, fun b h1 h2 h4 i hi => ?_⟩
  · have hpage : (0x8FFF0 + i) / 0x1000 = 0x8F := by omega
    rw [hpage]
    exact .inl (by decide)
  · exact hnew (by omega) (by omega)
  · exact hnew (by omega) (by omega)

end OsImplement.Task
