import OsImplement.Memory.Paging
import OsImplement.Lib.Step

/-!
Memory before there is a heap (`_malloc` while `kheap` is NULL).

The bitmap of frames, the first page directory with its tables and the `heap_t` are never freed, and
`_malloc` hands them out upwards. A page-aligned object skips the rest of a page.
-/

namespace OsImplement.Memory

open Lib.Word Lib.Step Kernel

/-- A call of `_malloc` that has returned. -/
structure Placed where
  size : ℕ
  isAlign : Bool
  addr : ℕ
  phyAddress : ℕ
  deriving DecidableEq

/-- `_malloc` returns. -/
def PlaceStep (alloc : HeapAlloc) (k : Kernel) (c : Placed) (k' : Kernel) : Prop :=
  k.malloc alloc c.size c.isAlign = some (c.addr, c.phyAddress, k')

/-- Where an object goes when everything below `e` is taken. -/
def placeAt (e : ℕ) (isAlign : Bool) : ℕ :=
  if isAlign ∧ e % 0x1000 ≠ 0 then e / 0x1000 * 0x1000 + 0x1000 else e

/-- What is taken after the calls, in numbers that do not wrap. -/
def placedEnd (e : ℕ) (calls : List Placed) : ℕ :=
  calls.foldl (fun e c => placeAt e c.isAlign + c.size) e

/-- The objects lie one behind another, from `e` on, each at an address that is also its physical
address, and at a page where it was asked to. -/
structure InOrder (e : ℕ) (calls : List Placed) : Prop where
  apart : calls.Pairwise fun c d => c.addr + c.size ≤ d.addr
  lower : ∀ c ∈ calls, e ≤ c.addr
  upper : ∀ c ∈ calls, c.addr + c.size ≤ placedEnd e calls
  phyAddress : ∀ c ∈ calls, c.phyAddress = c.addr
  aligned : ∀ c ∈ calls, c.isAlign = true → c.addr % 0x1000 = 0

section Placement

variable {alloc : HeapAlloc} {e size : ℕ} {isAlign : Bool} {k k' k₀ : Kernel} {c : Placed}
  {calls : List Placed}

lemma place_eq : k.place isAlign = placeAt k.placementAddress isAlign := rfl

lemma le_placeAt : e ≤ placeAt e isAlign := by
  unfold placeAt
  split <;> omega

lemma placedEnd_concat :
    placedEnd e (calls ++ [c]) = placeAt (placedEnd e calls) c.isAlign + c.size := by
  unfold placedEnd
  rw [List.foldl_append]
  rfl

lemma InOrder.concat (h : InOrder e calls) (haddr : c.addr = placeAt (placedEnd e calls) c.isAlign)
    (hphy : c.phyAddress = c.addr) (hle : e ≤ placedEnd e calls) : InOrder e (calls ++ [c]) := by
  have hplace := @le_placeAt (placedEnd e calls) c.isAlign
  have hend : placedEnd e (calls ++ [c]) = c.addr + c.size := by rw [placedEnd_concat, haddr]
  refine ⟨?_, ?_, ?_, ?_, ?_⟩
  · refine List.pairwise_append.mpr ⟨h.apart, List.pairwise_singleton _ _, fun d hd d' hd' => ?_⟩
    obtain rfl := List.mem_singleton.mp hd'
    have := h.upper d hd
    omega
  · rw [List.forall_mem_append, List.forall_mem_singleton]
    exact ⟨h.lower, by omega⟩
  · rw [List.forall_mem_append, List.forall_mem_singleton, hend]
    refine ⟨fun d hd => ?_, le_rfl⟩
    have := h.upper d hd
    omega
  · rw [List.forall_mem_append, List.forall_mem_singleton]
    exact ⟨h.phyAddress, hphy⟩
  · rw [List.forall_mem_append, List.forall_mem_singleton]
    refine ⟨h.aligned, fun halign => ?_⟩
    rw [haddr, halign]
    unfold placeAt
    split
    · omega
    · next hmod => simpa using hmod

/-- **What is handed out before the heap** lies in order: in every run of `_malloc` that stays a page
below the top of memory the objects are apart and keep to the sizes and the alignment asked for, and
nothing but `placement_address` changes. -/
theorem placed_of_run (h0 : k₀.kheap = 0) (hr : Run (PlaceStep alloc) k₀ calls k)
    (hend : placedEnd k₀.placementAddress calls + 0x1000 < 2 ^ 32) :
    InOrder k₀.placementAddress calls ∧
      k = { k₀ with placementAddress := placedEnd k₀.placementAddress calls } := by
  have hrun : placedEnd k₀.placementAddress calls + 0x1000 < 2 ^ 32 →
      InOrder k₀.placementAddress calls ∧
        k₀.placementAddress ≤ placedEnd k₀.placementAddress calls ∧
        k = { k₀ with placementAddress := placedEnd k₀.placementAddress calls } := by
    apply hr.inv (I := fun calls k => placedEnd k₀.placementAddress calls + 0x1000 < 2 ^ 32 →
      InOrder k₀.placementAddress calls ∧
        k₀.placementAddress ≤ placedEnd k₀.placementAddress calls ∧
        k = { k₀ with placementAddress := placedEnd k₀.placementAddress calls })
    · intro _
      exact ⟨⟨List.Pairwise.nil, by simp, by simp, by simp, by simp⟩, le_rfl, rfl⟩
    · intro calls k c k' ih hs hlt
      rw [placedEnd_concat] at hlt ⊢
      have hplace := @le_placeAt (placedEnd k₀.placementAddress calls) c.isAlign
      obtain ⟨horder, hle, rfl⟩ := ih (by omega)
      have hmalloc := hs.symm.trans (malloc_place h0 (by
        change placedEnd k₀.placementAddress calls + 0x1000 + c.size < 2 ^ 32
        omega))
      simp only [place_eq, Option.some.injEq, Prod.mk.injEq] at hmalloc
      obtain ⟨haddr, hphy, rfl⟩ := hmalloc
      exact ⟨horder.concat haddr (hphy.trans haddr.symm) hle, by omega, rfl⟩
  obtain ⟨horder, -, hk⟩ := hrun hend
  exact ⟨horder, hk⟩

end Placement

theorem placed_of_run_two : ∃ k, Run (PlaceStep fun _ _ _ => none) zeroedKernel
    [⟨512, false, 0x2000, 0x2000⟩, ⟨8196, true, 0x3000, 0x3000⟩] k ∧
      InOrder 0x2000 [⟨512, false, 0x2000, 0x2000⟩, ⟨8196, true, 0x3000, 0x3000⟩] := by
  have hfirst : PlaceStep (fun _ _ _ => none) zeroedKernel ⟨512, false, 0x2000, 0x2000⟩
      { zeroedKernel with placementAddress := 0x2200 } := malloc_place rfl (by decide)
  have hsecond : PlaceStep (fun _ _ _ => none) { zeroedKernel with placementAddress := 0x2200 }
      ⟨8196, true, 0x3000, 0x3000⟩ { zeroedKernel with placementAddress := 0x5004 } :=
    malloc_place rfl (by decide)
  have hr := (Run.single hfirst).snoc hsecond
  exact ⟨_, hr, (placed_of_run rfl hr (by decide)).1⟩

end OsImplement.Memory
