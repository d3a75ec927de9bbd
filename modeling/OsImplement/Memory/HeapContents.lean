import OsImplement.Memory.HeapCalls

/-!
What the blocks of the heap hold.

The heap keeps its tags between the blocks of its clients and its index below them, and one call of
`alloc` may grow the heap and place page tables in it on the way. None of this touches a byte of a
block that has been handed out: what a client reads is what it has stored last.
-/

namespace OsImplement.Memory

open Lib.Word Lib.Bytes Lib.Interval Lib.Step Kernel

/-! ### One call -/

section Calls

variable {A addr newSize : ℕ} {holes blocks : List (ℕ × ℕ)} {k k' : Kernel} {inner : HeapAlloc}
  {ok : ℕ → Bool → Kernel → Prop}

/-- An allocator that leaves the blocks that are there, under the condition `ok`. -/
def LeavesBlocks (A : ℕ) (inner : HeapAlloc) (ok : ℕ → Bool → Kernel → Prop) : Prop :=
  ∀ size pageAlign k holes blocks p k', HeapInv A holes blocks k → ok size pageAlign k →
    inner size pageAlign k = some (p, k') → Untouched blocks k.mem k'.mem

/-- A page of the heap is asked for: a new table is a block of its own. -/
lemma getPage_untouched (h : HeapInv A holes blocks k) (hleaves : LeavesBlocks A inner ok)
    (hok : k.lookupPage addr k.vmPageDir = none → k.kheap ≠ 0 → ok 4096 true k)
    {r : Option PageRef} (hr : k.getPage (mallocAp inner) addr true k.vmPageDir = some (r, k')) :
    Untouched blocks k.mem k'.mem := by
  rcases getPage_cases hr with ⟨-, rfl, -⟩ | ⟨h0, t, phy, k₁, hm, rfl, -⟩
  · exact .refl blocks k'.mem
  · rw [mem_setTable, mem_setSlot]
    by_cases hk : k.kheap = 0
    · -- the heap is not in use yet
      unfold Kernel.mallocAp Kernel.malloc at hm
      rw [if_pos hk] at hm
      obtain ⟨-, -, rfl⟩ : _ ∧ _ ∧ _ = k₁ := by simpa using hm
      exact .refl blocks k.mem
    · obtain ⟨hin, -⟩ := mallocAp_cases hk hm
      exact hleaves _ _ _ _ _ _ _ h (hok (lookupPage_none h0) hk) hin

lemma expandPages_untouched (hinner : Sound A inner ok) (hleaves : LeavesBlocks A inner ok) :
    ∀ (n i : ℕ) (k : Kernel) (holes blocks : List (ℕ × ℕ)) (k' : Kernel),
      HeapInv A holes blocks k → PagesOk inner ok newSize n i k →
      expandPages (mallocAp inner) newSize n i k = some k' → Untouched blocks k.mem k'.mem := by
  intro n
  induction n with
  | zero => exact fun _ _ _ _ _ _ _ hr => by simp [expandPages] at hr
  | succ n ih =>
    intro i k holes blocks k' h hok hr
    unfold expandPages at hr
    split at hr
    · next hi =>
      simp only [Option.bind_eq_bind, Option.bind_eq_some_iff, Prod.exists] at hr
      obtain ⟨r, k₁, hg, hr⟩ := hr
      obtain ⟨hmalloc, hnext⟩ := hok hi
      have hfirst := getPage_untouched h hleaves hmalloc hg
      obtain ⟨⟨r', rfl⟩, holes₁, extra₁, h₁, -⟩ := getPage_sound h hinner hmalloc hg
      have h₁' : HeapInv A holes₁ (extra₁ ++ blocks)
          (k₁.allocFrame (some r') k₁.heap.supervisor (!k₁.heap.readonly)) :=
        h₁.congr mem_allocFrame heap_allocFrame
      have hrest := ih _ _ holes₁ (extra₁ ++ blocks) k' h₁' (hnext _ _ hg) hr
      rw [mem_allocFrame] at hrest
      exact hfirst.trans hrest.of_append
    · obtain rfl : k = k' := by simpa using hr
      exact .refl blocks k.mem

/-- **`alloc` leaves the blocks that are there**, however often it grows the heap. -/
theorem alloc_untouched (A : ℕ) : ∀ fuel, LeavesBlocks A (alloc fuel) (OkAt fuel) := by
  intro fuel
  induction fuel with
  | zero => exact fun _ _ _ _ _ _ _ _ _ hr => by simp [alloc] at hr
  | succ fuel ih =>
    intro size pageAlign k holes blocks p k' h hok hr
    have hsound := alloc_sound A fuel
    rcases alloc_cases hsound h hok hr with ⟨q, holes', m, a, -, rfl, -, hu⟩ | ⟨k₀, k₂, extra, hg, hr⟩
    · exact hu
    · obtain ⟨holes₀, h₀⟩ := hg.expanded
      obtain ⟨holes₂, h₂⟩ := hg.grown
      have hpages : Untouched blocks k.mem k₀.mem :=
        expandPages_untouched hsound ih _ _ _ _ _ _ h hg.pages hg.expand
      have hgrow : Untouched (extra ++ blocks) k₀.mem k₂.mem := by
        have hstart : k₀.heap.startAddress = k.heap.startAddress := h₀.start.trans h.start.symm
        have hlen : k.heapLen = sub32 k.heap.endAddress k₀.heap.startAddress := by
          rw [heapLen, hstart]
        have hgrow : (k₀.setEnd (k.heap.startAddress + roundSize (add32 k.heapLen (size + 20)))).growHole
            k.heap.endAddress (sub32 k.heap.endAddress k₀.heap.startAddress) = some k₂ := by
          rw [← hlen]
          exact hg.grow
        obtain ⟨-, -, -, -, -, hu⟩ := growHole_sound h₀ hg.growOk (Nat.le_add_left 20 size) hgrow
        exact hu
      have hagain : Untouched (extra ++ blocks) k₂.mem k'.mem := ih _ _ _ _ _ _ _ h₂ hg.again hr
      exact hpages.trans (hgrow.trans hagain).of_append

end Calls

/-! ### Clients -/

/-- What a client of the heap does: it allocates a block, or it stores a byte. -/
inductive Use where
  | call (c : Call)
  | store (x : ℕ) (v : UInt8)
  deriving DecidableEq

/-- The kernel, and the calls that have returned, the last one first. -/
structure Clients where
  kernel : Kernel
  calls : List Call

namespace Clients

/-- `x` is a byte of some block. -/
def Owns (s : Clients) (x : ℕ) : Prop := ∃ c ∈ s.calls, x ∈ Set.Ico c.payload.1 c.payload.2

/-- Calls are sound, and clients store in their blocks only. -/
inductive Step : Clients → Use → Clients → Prop
  | call {s : Clients} {c : Call} {k' : Kernel} (h : AllocStep s.kernel c k')
      (hok : AllocOk c.size c.pageAlign s.kernel) : Step s (.call c) ⟨k', c :: s.calls⟩
  | store {s : Clients} {x : ℕ} {v : UInt8} (h : s.Owns x) :
      Step s (.store x v) ⟨s.kernel.write fun m => write8 m x v, s.calls⟩

end Clients

/-- What has been stored last at `x`. -/
def lastStore (x : ℕ) (uses : List Use) : Option UInt8 :=
  uses.foldl (fun last u => match u with
    | .call _ => last
    | .store y v => if y = x then some v else last) none

section LastStore

variable {x y : ℕ} {v : UInt8} {c : Call} {uses : List Use}

@[simp] lemma lastStore_call : lastStore x (uses ++ [.call c]) = lastStore x uses := by
  simp [lastStore, List.foldl_append]

@[simp] lemma lastStore_store :
    lastStore x (uses ++ [.store y v]) = if y = x then some v else lastStore x uses := by
  simp [lastStore, List.foldl_append]

end LastStore

section Store

variable {A x : ℕ} {v : UInt8} {b : ℕ × ℕ} {holes blocks : List (ℕ × ℕ)} {k : Kernel}

lemma HeapInv.writes_store (h : HeapInv A holes blocks k) (hb : b ∈ blocks)
    (hx : x ∈ Set.Ico b.1 b.2) : Writes k.mem (write8 k.mem x v) (Set.Ico b.1 b.2) := by
  have hend := h.endLt
  have hhi := (h.block b hb).2
  have hlt := hx.2
  apply Writes.write8
  rw [Nat.mod_eq_of_lt (by omega)]
  exact hx

lemma HeapInv.headerSize_store (h : HeapInv A holes blocks k) (hb : b ∈ blocks)
    (hx : x ∈ Set.Ico b.1 b.2) {y : ℕ × ℕ} (hy : y ∈ holes) :
    headerSize (write8 k.mem x v) y.1 = headerSize k.mem y.1 := by
  obtain ⟨-, hheader, hword, -, -⟩ := h.hole y hy
  have hapart := (List.pairwise_append.mp h.apart).2.2 y hy b hb
  apply headerSize_of_writes (h.writes_store hb hx) hword
  intro z hz
  have h1 := hz.1
  have h2 := hz.2
  unfold Apart at hapart
  omega

lemma HeapInv.store (h : HeapInv A holes blocks k) (hb : b ∈ blocks) (hx : x ∈ Set.Ico b.1 b.2) :
    HeapInv A holes blocks (k.write fun m => write8 m x v) := by
  have hlo := (h.block b hb).1
  refine ⟨h.listed.frame (h.writes_store hb hx) fun z hz => Or.inr (hlo.trans hz.1), h.start,
    h.endLt, h.startLe, fun y hy => ?_, h.block, h.apart⟩
  obtain ⟨h1, h2, h3, h4, h5⟩ := h.hole y hy
  rw [← h.headerSize_store (v := v) hb hx hy] at h4 h5
  exact ⟨h1, h2, h3, h4, h5⟩

end Store

/-! ### Runs -/

/-- The invariant of a run: the payloads are among the blocks of a sound heap, and what was stored
last is there, in a byte of some block. -/
structure Held (A : ℕ) (uses : List Use) (s : Clients) : Prop where
  heap : ∃ holes blocks, HeapInv A holes blocks s.kernel ∧ ∀ c ∈ s.calls, c.payload ∈ blocks
  stored : ∀ x v, lastStore x uses = some v → s.Owns x ∧ s.kernel.mem x = v

section Runs

variable {A start end_ max : ℕ} {supervisor readonly : Bool} {k₀ : Kernel} {uses : List Use}
  {s s' : Clients} {c : Call} {k' : Kernel} {x : ℕ} {v : UInt8}

lemma Held.call (h : Held A uses s) (hc : AllocStep s.kernel c k')
    (hok : AllocOk c.size c.pageAlign s.kernel) :
    Held A (uses ++ [.call c]) ⟨k', c :: s.calls⟩ := by
  obtain ⟨⟨holes, blocks, hinv, hcalls⟩, hstored⟩ := h
  obtain ⟨fuel, hc⟩ := hc
  obtain ⟨holes', extra, hinv', -⟩ := alloc_sound A fuel _ _ _ _ _ _ _ hinv (hok fuel) hc
  have huntouched := alloc_untouched A fuel _ _ _ _ _ _ _ hinv (hok fuel) hc
  refine ⟨⟨holes', _, hinv', fun d hd => ?_⟩, fun x v hl => ?_⟩
  · rcases List.mem_cons.mp hd with rfl | hd
    · exact List.mem_append_left _ List.mem_cons_self
    · exact List.mem_append_right _ (hcalls d hd)
  · rw [lastStore_call] at hl
    obtain ⟨⟨d, hd, hx⟩, hv⟩ := hstored x v hl
    exact ⟨⟨d, List.mem_cons_of_mem c hd, hx⟩, (huntouched _ (hcalls d hd) hx).trans hv⟩

lemma Held.store (h : Held A uses s) (hx : s.Owns x) :
    Held A (uses ++ [.store x v]) ⟨s.kernel.write fun m => write8 m x v, s.calls⟩ := by
  obtain ⟨⟨holes, blocks, hinv, hcalls⟩, hstored⟩ := h
  obtain ⟨c, hc, hxc⟩ := hx
  have hend := hinv.endLt
  have hblock := (hinv.block _ (hcalls c hc)).2
  have hmod : x % 2 ^ 32 = x := Nat.mod_eq_of_lt (by
    have := hxc.2
    omega)
  refine ⟨⟨holes, blocks, hinv.store (hcalls c hc) hxc, hcalls⟩, fun y w hl => ?_⟩
  rw [lastStore_store] at hl
  change s.Owns y ∧ (if y = x % 2 ^ 32 then v else s.kernel.mem y) = w
  rw [hmod]
  split_ifs at hl with hxy
  · obtain rfl : v = w := by simpa using hl
    exact ⟨⟨c, hc, hxy ▸ hxc⟩, if_pos hxy.symm⟩
  · obtain ⟨howns, hmem⟩ := hstored y w hl
    rw [if_neg (Ne.symm hxy)]
    exact ⟨howns, hmem⟩

lemma held_step : Held A uses s → ∀ {u : Use}, s.Step u s' → Held A (uses ++ [u]) s' := by
  intro h u hs
  cases hs with
  | call hc hok => exact h.call hc hok
  | store hx => exact h.store hx

/-- **Blocks hold what their clients store.** In every run of sound calls of `alloc` and of stores
in the blocks that they return, a byte is what has been stored there last. -/
theorem stored_of_run (h0 : 0 < start) (halign : start % 0x1000 = 0)
    (htop : start + 4 * HEAP_INDEX_SIZE + 12 ≤ 2 ^ 32) (hend : end_ < 2 ^ 32)
    (hr : Run Clients.Step ⟨createHeap start end_ max supervisor readonly k₀, []⟩ uses s)
    (hl : lastStore x uses = some v) : read8 s.kernel.mem x = v := by
  obtain ⟨hinv, -⟩ := @heapInv_createHeap start end_ max supervisor readonly k₀ h0 halign htop hend
  have hheld : Held start uses s := by
    apply hr.inv (I := Held start) ⟨⟨_, _, hinv, by simp⟩, fun x v hl => by simp [lastStore] at hl⟩
    intro uses s u s' h hs
    exact held_step h hs
  obtain ⟨⟨holes, blocks, hinv', hcalls⟩, hstored⟩ := hheld
  obtain ⟨⟨c, hc, hx⟩, hv⟩ := hstored x v hl
  have hlt := hinv'.endLt
  have hblock := (hinv'.block _ (hcalls c hc)).2
  have hmod : x % 2 ^ 32 = x := Nat.mod_eq_of_lt (by
    have := hx.2
    omega)
  rw [read8, hmod]
  exact hv

end Runs

/-- A byte of the first block, and a second block. -/
theorem stored_of_run_two : ∃ s, Run Clients.Step ⟨zeroedHeap, []⟩
    [.call ⟨100, false, 0xC008000C⟩, .store 0xC0080010 65, .call ⟨50, false, 0xC0080084⟩] s ∧
      read8 s.kernel.mem 0xC0080010 = 65 := by
  obtain ⟨hinv, hsize, -, hend, hcur, -⟩ := @heapInv_createHeap 0xC0000000 0xC0100000 0xCFFFF000 false
    false zeroedKernel (by decide) (by decide) (by decide) (by decide)
  -- the first block, in the hole of `create_heap`
  have hfit : holeFits (100 + 20) false zeroedHeap.mem 0xC0080000 = true := by
    rw [holeFits_even (by decide)]
    exact hsize ▸ by decide
  have hplace : PlaceOk 0xC0080000 0x80000 zeroedHeap.heap.endAddress zeroedHeap.heap.index.cur
      (100 + 20) false := by
    rw [show zeroedHeap.heap.endAddress = _ from hend, show zeroedHeap.heap.index.cur = _ from hcur]
    exact ⟨by decide, by decide, by decide, by decide, by decide, by decide⟩
  obtain ⟨m, a, hal, h', hrest, -, -, -, hcur'⟩ := @alloc_first _ _ _ 0x80000 0 120 0x7FF88 100 0 _ _
    _ _ hinv (by decide) hsize.symm rfl rfl rfl hfit hplace
  have hok := allocOk_first hinv (by decide) hfit (hsize ▸ hplace)
  have hfirst : Clients.Step ⟨zeroedHeap, []⟩ (.call ⟨100, false, 0xC008000C⟩)
      ⟨zeroedHeap.retag m a, [⟨100, false, 0xC008000C⟩]⟩ := .call ⟨1, hal⟩ hok
  -- the byte
  have hx : 0xC0080010 ∈ Set.Ico 0xC008000C (0xC008000C + 100) := ⟨by decide, by decide⟩
  have hstore : Clients.Step ⟨zeroedHeap.retag m a, [⟨100, false, 0xC008000C⟩]⟩
      (.store 0xC0080010 65) ⟨(zeroedHeap.retag m a).write fun m => write8 m 0xC0080010 65, _⟩ :=
    .store ⟨_, List.mem_cons_self, hx⟩
  have hinv' := h'.store (v := 65) List.mem_cons_self hx
  set k := (zeroedHeap.retag m a).write fun m => write8 m 0xC0080010 65 with hk
  have hsize' : headerSize k.mem 0xC0080078 = 0x7FF88 :=
    (h'.headerSize_store (v := 65) List.mem_cons_self hx List.mem_cons_self).trans
      (hrest (by decide))
  -- the second block, in what is left of the hole
  have hfit' : holeFits (50 + 20) false k.mem 0xC0080078 = true := by
    rw [holeFits_even (by decide), hsize']
    decide
  have hcur₂ : k.heap.index.cur ≤ 2 := hcur'.trans_eq (by rw [show _ = 1 from hcur])
  have hplace' : PlaceOk 0xC0080078 0x7FF88 k.heap.endAddress k.heap.index.cur (50 + 20) false := by
    rw [show k.heap.endAddress = _ from hend]
    apply PlaceOk.used _ hcur₂
    exact ⟨by decide, by decide, by decide, by decide, by decide, by decide⟩
  obtain ⟨m', a', hal', -⟩ := @alloc_first _ _ _ 0x7FF88 0 70 0x7FF42 50 0 _ _ _ _ hinv' (by decide)
    hsize'.symm rfl rfl rfl hfit' hplace'
  have hok' : k.AllocOk 50 false := allocOk_first hinv' (by decide) hfit' (hsize' ▸ hplace')
  have hsecond : Clients.Step ⟨k, [⟨100, false, 0xC008000C⟩]⟩ (.call ⟨50, false, 0xC0080084⟩)
      ⟨k.retag m' a', _⟩ := .call ⟨1, hal'⟩ hok'
  have hr := ((Run.single hfirst).snoc hstore).snoc hsecond
  exact ⟨_, hr, stored_of_run (by decide) (by decide) (by decide) (by decide) hr (by decide)⟩


end OsImplement.Memory
