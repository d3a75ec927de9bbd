import OsImplement.Memory.HeapCoalesce

/-!
The heap after `free`.

A block with a tile on both sides is freed well when there is no hole behind it, or one on each
side. In the other cases an entry of the index is lost or left behind, or a tag is read where none
is.
-/

namespace OsImplement.Memory

open Lib.Word Lib.Bytes Lib.Tiling Kernel

section Freed

variable {A b e e' e₀ l r : ℕ} {pre post L L' L₁ : List ℕ} {k k' : Kernel} {m : Mem}
  {a : SortedArray}

lemma WellFormed.kept (hw : WellFormed A k (pre ++ [l] ++ b :: r :: post) L)
    (he : Tagged k.mem r [r] e) (hpost : Tagged k.mem e post k.heap.endAddress) :
    Tagged k.mem k.heap.startAddress (keptBefore k.mem (pre ++ [l]))
        (if headerIsHole k.mem l = 1 then l else b) ∧
      Tagged k.mem (if headerIsHole k.mem r = 1 then e else r) (keptAfter k.mem (r :: post))
        k.heap.endAddress := by
  obtain ⟨-, hpre, hl, -, -, -⟩ := hw.around
  rw [keptBefore_concat, keptAfter_cons]
  constructor
  · split_ifs
    · exact hpre
    · exact tagged_append.mpr ⟨l, hpre, hl⟩
  · split_ifs
    · exact hpost
    · exact (@tagged_append _ _ _ [r] post).mpr ⟨e, he, hpost⟩

lemma Joined.fix {h : ℕ} (hj : Joined A k m h e)
    (hbelow : A + 4 * HEAP_INDEX_SIZE ≤ k.heap.startAddress) (x : ℕ)
    (hx : k.heap.startAddress ≤ x ∧ x < h ∨ e ≤ x ∧ x < k.heap.endAddress)
    (hstart : k.heap.startAddress ≤ e) : m x = k.mem x := by
  apply hj.writes
  rintro (⟨h1, h2⟩ | ⟨h1, h2⟩) <;> omega

/-- **The hole stays**, up to the end of the heap or to where it ended. -/
lemma coalesced_hole (hw : WellFormed A k (pre ++ [l] ++ b :: r :: post) L)
    (he : Tagged k.mem r [r] e) (hpost : Tagged k.mem e post k.heap.endAddress)
    (hfix : ∀ x, k.heap.startAddress ≤ x ∧ x < (if headerIsHole k.mem l = 1 then l else b) ∨
      (if headerIsHole k.mem r = 1 then e else r) ≤ x ∧ x < k.heap.endAddress →
        k'.mem x = k.mem x)
    (hstart : k'.heap.startAddress = k.heap.startAddress)
    (hle : k'.heap.endAddress ≤ k.heap.endAddress)
    (ht : Tagged k'.mem (if headerIsHole k.mem l = 1 then l else b)
      [if headerIsHole k.mem l = 1 then l else b] e')
    (hhole : headerIsHole k'.mem (if headerIsHole k.mem l = 1 then l else b) = 1)
    (hend : e' = (if headerIsHole k.mem r = 1 then e else r) ∧
        k'.heap.endAddress = k.heap.endAddress ∨
      keptAfter k.mem (r :: post) = [] ∧ k'.heap.endAddress = e')
    (hl : Listed A k'.heap.index k'.mem L')
    (hperm : L'.Perm (((keptBefore k.mem (pre ++ [l])).filter fun x => headerIsHole k.mem x = 1) ++
      (if headerIsHole k.mem l = 1 then l else b) ::
        (keptAfter k.mem (r :: post)).filter fun x => headerIsHole k.mem x = 1))
    (hfirst : headerIsHole k.mem l ≠ 1 → headerIsHole k.mem r ≠ 1 →
      k.heap.index.cur ≠ 0 → L ≠ []) :
    Coalesced A k k' (pre ++ [l]) b (r :: post) := by
  obtain ⟨hP, hQ⟩ := hw.kept he hpost
  have hlt := hw.endLt
  have hhe : (if headerIsHole k.mem l = 1 then l else b) ≤ k.heap.endAddress := by
    have := hpost.tiled.le
    obtain ⟨-, -, hl, hb, -, -⟩ := hw.around
    obtain ⟨-, hl20, -⟩ := tagged_singleton.mp hl
    obtain ⟨-, hb20, -⟩ := tagged_singleton.mp hb
    obtain ⟨-, hr20, -⟩ := tagged_singleton.mp he
    split_ifs <;> omega
  have hwf := wellFormed_join hw hP hQ hhe hw.sides hfix hstart ht hhole hend (by omega) hl hperm
  refine ⟨hstart, hle, ⟨_, L', hwf, ?_⟩, others_of_fix hw he hpost hfix, reads_inside hw hfirst⟩
  left
  rw [joinedHeader_concat]
  exact ⟨rfl, hhole⟩

/-- **The hole goes**, and the heap ends where the block began. -/
lemma coalesced_gone (hw : WellFormed A k (pre ++ [l] ++ b :: r :: []) L)
    (hlb : headerIsHole k.mem l ≠ 1) (hr : headerIsHole k.mem r = 1)
    (hfix : ∀ x, k.heap.startAddress ≤ x → x < b → k'.mem x = k.mem x)
    (hstart : k'.heap.startAddress = k.heap.startAddress) (hend : k'.heap.endAddress = b)
    (hl : Listed A k'.heap.index k'.mem L')
    (hperm : L'.Perm ((pre ++ [l]).filter fun x => headerIsHole k.mem x = 1)) :
    Coalesced A k k' (pre ++ [l]) b [r] := by
  obtain ⟨e, hpre, hl', hb, he, hpost⟩ := hw.around
  obtain ⟨hP, -⟩ := hw.kept he hpost
  have hsides := hw.sides
  rw [keptBefore_concat, if_neg hlb] at hP hsides
  rw [if_neg hlb] at hP
  obtain ⟨-, hb20, -⟩ := tagged_singleton.mp hb
  obtain ⟨-, hr20, -⟩ := tagged_singleton.mp he
  have hle := hpost.tiled.le
  have htail : e = k.heap.endAddress := hpost.tiled
  have hwf := wellFormed_cut hw hP (by omega) hsides hfix hstart hend hl hperm
  have hkept : keptAfter k.mem [r] = [] := by rw [keptAfter_cons, if_pos hr]
  refine ⟨hstart, by omega, ⟨[], L', ?_, .inr ⟨rfl, hkept⟩⟩, ?_,
    reads_inside hw fun _ hrb => absurd hr hrb⟩
  · rw [keptBefore_concat, if_neg hlb, hkept, List.append_nil, List.append_nil]
    exact hwf
  · refine others_of_fix hw he hpost fun x hx => ?_
    rw [if_neg hlb, if_pos hr] at hx
    exact hfix x (by omega) (by omega)

lemma coalesced_before (hw : WellFormed A k (pre ++ [l] ++ b :: r :: post) L)
    (hb : headerIsHole k.mem b ≠ 1) (hr : headerIsHole k.mem r ≠ 1)
    (hcur : headerIsHole k.mem l ≠ 1 → k.heap.index.cur + 1 < HEAP_INDEX_SIZE ∧
      (k.heap.index.cur = 0 ∨ L ≠ [])) :
    ∃ k', freeBlock b k = some k' ∧ Coalesced A k k' (pre ++ [l]) b (r :: post) := by
  obtain ⟨e, hpre, hl, hbt, he, hpost⟩ := hw.around
  have hend := hw.endLt
  have hbelow := hw.below
  have hstart := hpre.tiled.le
  have htail := hpost.tiled.le
  obtain ⟨-, hl20, -⟩ := tagged_singleton.mp hl
  obtain ⟨-, hb20, -⟩ := tagged_singleton.mp hbt
  obtain ⟨-, hr20, -⟩ := tagged_singleton.mp he
  obtain ⟨m, a, L₁, hfree, hj, hl₁, hacur, hL₁⟩ := freeBlock_joined hw he htail
  have hperm := hw.perm_around hb
  rw [if_neg hr] at hL₁
  subst hL₁
  have hfix := fun x hx => hj.fix hbelow x hx (by split_ifs <;> omega)
  simp only [if_neg hr] at hfree hj hfix hperm
  rw [@shrinkHeap_skip r _ _ (k.retag m a) (by omega) (by omega) (by rw [endAddress_retag]; omega),
    Option.bind_some] at hfree
  by_cases hlh : headerIsHole k.mem l = 1
  · -- the hole in front has grown, and is listed already
    simp only [hlh, ne_eq, not_true_eq_false, false_and, if_false, if_true] at hfree hj hfix hperm
    refine ⟨_, hfree, coalesced_hole hw he hpost ?_ rfl le_rfl ?_ ?_ (.inl ⟨rfl, rfl⟩) hl₁ ?_ ?_⟩
    · simpa only [if_pos hlh, if_neg hr, mem_retag] using hfix
    · rw [if_pos hlh, if_neg hr]
      exact hj.tags
    · rw [if_pos hlh]
      exact hj.hole
    · rw [if_pos hlh]
      exact hperm
    · exact fun hlb => absurd hlh hlb
  · -- a new hole, which goes into the index
    simp only [hlh, hr, ne_eq, not_false_eq_true, and_self, if_true, if_false] at hfree hj hfix hperm
    obtain ⟨hl', hw'⟩ := hl₁.insert (by rw [hacur]; exact (hcur hlh).1) (show b < 2 ^ 32 by omega)
    have hout {x : ℕ} (hx : k.heap.startAddress ≤ x) :
        x ∉ Set.Ico A (A + 4 * HEAP_INDEX_SIZE) := fun hmem => by
      have := hmem.2
      omega
    obtain ⟨ht', hflag⟩ := hj.tags.frame hw' (by omega) fun x h1 h2 => hout (by omega)
    refine ⟨_, hfree, coalesced_hole hw he hpost ?_ rfl le_rfl ?_ ?_ (.inl ⟨rfl, rfl⟩) hl' ?_ ?_⟩
    · intro x hx
      rw [if_neg hlh, if_neg hr] at hx
      exact (hw' (hout (by omega))).trans (hfix x hx)
    · rw [if_neg hlh, if_neg hr]
      exact ht'
    · rw [if_neg hlh]
      exact (hflag b (List.mem_singleton.mpr rfl)).trans hj.hole
    · rw [if_neg hlh]
      exact (hperm.cons b).trans List.perm_middle.symm
    · exact fun _ _ hused => (hcur hlh).2.resolve_left hused

lemma WellFormed.nodup {hs : List ℕ} (hw : WellFormed A k hs L) : L.Nodup :=
  hw.holes.nodup_iff.mpr (hw.tags.tiled.tiles.nodup.filter _)

lemma freeBlock_inner (hw : WellFormed A k (pre ++ [l] ++ b :: r :: post) L)
    (he : Tagged k.mem r [r] e) (hpost : Tagged k.mem e post k.heap.endAddress)
    (hr : headerIsHole k.mem r = 1) (hnil : post ≠ []) :
    ∃ m a L₁, freeBlock b k = some (k.retag m a) ∧
      Joined A k m (if headerIsHole k.mem l = 1 then l else b) e ∧ Listed A a m L₁ ∧
      L.Perm (r :: L₁) := by
  have hend := hw.endLt
  have htail := hpost.tiled.le
  obtain ⟨-, hr20, -⟩ := tagged_singleton.mp he
  have hne : e ≠ k.heap.endAddress := by
    cases post with
    | nil => exact absurd rfl hnil
    | cons t post =>
      have := hpost.tiled.mem (List.mem_cons_self ..)
      omega
  obtain ⟨m, a, L₁, hfree, hj, hl₁, -, hL₁⟩ := freeBlock_joined hw he htail
  simp only [if_pos hr] at hfree hj hL₁
  rw [@shrinkHeap_skip e _ _ (k.retag m a) (by omega) (by omega) (by rw [endAddress_retag]; omega),
    Option.bind_some, if_neg (by simp [hr])] at hfree
  exact ⟨m, a, L₁, hfree, hj, hl₁, hL₁⟩

lemma coalesced_both (hw : WellFormed A k (pre ++ [l] ++ b :: r :: post) L)
    (hb : headerIsHole k.mem b ≠ 1) (hlh : headerIsHole k.mem l = 1)
    (hr : headerIsHole k.mem r = 1) (hnil : post ≠ []) :
    ∃ k', freeBlock b k = some k' ∧ Coalesced A k k' (pre ++ [l]) b (r :: post) := by
  obtain ⟨e, hpre, hl, hbt, he, hpost⟩ := hw.around
  have hbelow := hw.below
  have hstart := hpre.tiled.le
  obtain ⟨-, hl20, -⟩ := tagged_singleton.mp hl
  obtain ⟨-, hb20, -⟩ := tagged_singleton.mp hbt
  obtain ⟨-, hr20, -⟩ := tagged_singleton.mp he
  obtain ⟨m, a, L₁, hfree, hj, hl₁, hL₁⟩ := freeBlock_inner hw he hpost hr hnil
  have hperm := hw.perm_around hb
  rw [if_pos hlh, if_pos hr] at hperm
  rw [if_pos hlh] at hj
  refine ⟨_, hfree, coalesced_hole hw he hpost ?_ rfl le_rfl ?_ ?_ (.inl ⟨rfl, rfl⟩) hl₁ ?_ fun hlb =>
    absurd hlh hlb⟩
  · intro x hx
    rw [if_pos hlh, if_pos hr] at hx
    exact hj.fix hbelow x hx (by omega)
  · rw [if_pos hlh, if_pos hr]
    exact hj.tags
  · rw [if_pos hlh]
    exact hj.hole
  · rw [if_pos hlh]
    exact perm_both hperm hL₁

theorem freeBlock_last {h : ℕ} (hw : WellFormed A k (pre ++ [l] ++ b :: [r]) L)
    (hr : headerIsHole k.mem r = 1) (hhd : h = if headerIsHole k.mem l = 1 then l else b)
    (hle : contractedLen h k ≤ k.heapLen)
    (hh : h ≤ k.heap.startAddress + contractedLen h k) :
    ∃ k' L₁, freeBlock b k = some k' ∧ k'.heap.startAddress = k.heap.startAddress ∧
      k'.heap.endAddress = k.heap.startAddress + contractedLen h k ∧
      Listed A k'.heap.index k'.mem L₁ ∧ L.Perm (r :: L₁) ∧
      (∀ x, k.heap.startAddress ≤ x → x < h - 8 → k'.mem x = k.mem x) ∧
      (k.heap.startAddress + contractedLen h k = h ∨
        h + 20 ≤ k.heap.startAddress + contractedLen h k →
          ∀ x, k.heap.startAddress ≤ x → x < h → k'.mem x = k.mem x) ∧
      (h + 20 ≤ k.heap.startAddress + contractedLen h k →
        Tagged k'.mem h [h] (k.heap.startAddress + contractedLen h k) ∧
          headerIsHole k'.mem h = 1) := by
  obtain ⟨e, hpre, hl, hbt, he, hpost⟩ := hw.around
  obtain rfl : e = k.heap.endAddress := hpost.tiled
  have hend := hw.endLt
  have hbelow := hw.below
  have hnull := hw.null
  have hstart := hpre.tiled.le
  obtain ⟨-, hl20, -⟩ := tagged_singleton.mp hl
  obtain ⟨-, hb20, -⟩ := tagged_singleton.mp hbt
  obtain ⟨-, hr20, -⟩ := tagged_singleton.mp he
  obtain ⟨m, a, L₁, hfree, hj, hl₁, -, hL₁⟩ := freeBlock_joined hw he le_rfl
  have hfix := fun x hx => hj.fix hbelow x hx (by split_ifs; omega)
  simp only [if_pos hr, ← hhd] at hfree hj hfix hL₁
  have hrL : r ∉ L₁ := (List.nodup_cons.mp (hL₁.nodup_iff.mp hw.nodup)).1
  have hN : HEAP_INDEX_SIZE = 0x20000 := rfl
  have hMIN : HEAP_MIN_SIZE = 0x70000 := rfl
  obtain ⟨hmin, -⟩ := contractedLen_bounds h k
  have hlo : k.heap.startAddress ≤ h := by
    rw [hhd]
    split_ifs <;> omega
  obtain ⟨k₁, hk₁, hheap, hw₁, hgone, hroom⟩ := @shrinkHeap_spec A h r L₁ (k.retag m a) hj.tags
    hend hlo (show 8 ≤ k.heap.startAddress by omega) hle hh hl₁ hnull hrL (by omega)
  rw [show k.heap.endAddress = (k.retag m a).heap.endAddress from rfl, hk₁, Option.bind_some,
    if_neg (by simp [hr])] at hfree
  have hlen : contractedLen h (k.retag m a) = contractedLen h k := rfl
  rw [hlen] at hheap hgone hroom
  simp only [startAddress_retag, endAddress_retag, mem_retag] at hheap hgone hroom hw₁
  set n := contractedLen h k with hn
  -- what is written lies at the hole, or it is the word at NULL
  have hout : ∃ S, Writes m k₁.mem S ∧ ∀ x ∈ S, x < A ∨ k.heap.startAddress ≤ x := by
    by_cases hsome : k.heap.startAddress + n = h ∨ h + 20 ≤ k.heap.startAddress + n
    · refine ⟨Set.Ico 0 4 ∪ Set.Ico h k.heap.endAddress, ?_, ?_⟩
      · rcases hsome with h0 | h20
        · exact (hgone h0).mono Set.subset_union_left
        · exact (hroom h20).2.2
      · rintro x (⟨-, hx⟩ | ⟨hx, -⟩)
        · exact .inl (by omega)
        · exact .inr (by omega)
    · refine ⟨_, hw₁, ?_⟩
      rintro x (⟨-, hx⟩ | ⟨hx, -⟩)
      · exact .inl (by omega)
      · exact .inr (by omega)
  obtain ⟨S, hS, hSout⟩ := hout
  refine ⟨k₁, L₁, hfree, by rw [hheap], by rw [hheap], ?_, hL₁, ?_, ?_, ?_⟩
  · have hindex : k₁.heap.index = a := by rw [hheap]; rfl
    rw [hindex]
    exact hl₁.frame hS fun x hx => (hSout x hx).imp_right fun h1 => by omega
  · intro x h1 h2
    rw [← hfix x (.inl ⟨h1, by omega⟩)]
    refine hw₁ ?_
    rintro (⟨-, hx⟩ | ⟨hx, -⟩) <;> omega
  · intro hsome x h1 h2
    rw [← hfix x (.inl ⟨h1, h2⟩)]
    rcases hsome with h0 | h20
    · refine hgone h0 ?_
      rintro ⟨-, hx⟩
      omega
    · refine (hroom h20).2.2 ?_
      rintro (⟨-, hx⟩ | ⟨hx, -⟩) <;> omega
  · intro h20
    obtain ⟨ht, hflag, -⟩ := hroom h20
    exact ⟨ht, hflag.trans hj.hole⟩

lemma coalesced_last (hw : WellFormed A k (pre ++ [l] ++ b :: [r]) L)
    (hb : headerIsHole k.mem b ≠ 1) (hlh : headerIsHole k.mem l = 1)
    (hr : headerIsHole k.mem r = 1) (hle : contractedLen l k ≤ k.heapLen)
    (hroom : l + 20 ≤ k.heap.startAddress + contractedLen l k) :
    ∃ k', freeBlock b k = some k' ∧ Coalesced A k k' (pre ++ [l]) b [r] := by
  obtain ⟨e, hpre, hl, hbt, he, hpost⟩ := hw.around
  obtain ⟨k', L₁, hfree, hstart, hend', hl₁, hL₁, -, hfix, hhole⟩ := freeBlock_last hw hr
    (if_pos hlh).symm hle (by omega)
  obtain rfl : e = k.heap.endAddress := hpost.tiled
  obtain ⟨ht, hh⟩ := hhole hroom
  have hend := hw.endLt
  have h1 := hpre.tiled.le
  obtain ⟨-, hl20, -⟩ := tagged_singleton.mp hl
  obtain ⟨-, hb20, -⟩ := tagged_singleton.mp hbt
  obtain ⟨-, hr20, -⟩ := tagged_singleton.mp he
  have hlen : k.heapLen = k.heap.endAddress - k.heap.startAddress := sub32_eq (by omega) hend
  have hkept : keptAfter k.mem [r] = [] := by rw [keptAfter_cons, if_pos hr]
  have hperm := hw.perm_around hb
  rw [if_pos hlh, if_pos hr] at hperm
  refine ⟨k', hfree, coalesced_hole hw he hpost ?_ hstart (by omega) ?_ ?_ (.inr ⟨hkept, hend'⟩)
    hl₁ ?_ fun hlb => absurd hlh hlb⟩
  · rw [if_pos hlh, if_pos hr]
    rintro x (⟨h2, h3⟩ | ⟨h2, h3⟩)
    · exact hfix (.inr hroom) x h2 h3
    · omega
  · rw [if_pos hlh]
    exact ht
  · rw [if_pos hlh]
    exact hh
  · rw [if_pos hlh]
    exact perm_both hperm hL₁

lemma coalesced_back (hw : WellFormed A k (pre ++ [l] ++ b :: [r]) L)
    (hb : headerIsHole k.mem b ≠ 1) (hlh : headerIsHole k.mem l ≠ 1)
    (hr : headerIsHole k.mem r = 1) (hgone : k.heap.startAddress + contractedLen b k = b) :
    ∃ k', freeBlock b k = some k' ∧ Coalesced A k k' (pre ++ [l]) b [r] := by
  obtain ⟨e, hpre, hl, hbt, he, hpost⟩ := hw.around
  have hend := hw.endLt
  have h1 := hpre.tiled.le
  have h2 := hpost.tiled.le
  obtain ⟨-, hl20, -⟩ := tagged_singleton.mp hl
  obtain ⟨-, hb20, -⟩ := tagged_singleton.mp hbt
  obtain ⟨-, hr20, -⟩ := tagged_singleton.mp he
  have hlen : k.heapLen = k.heap.endAddress - k.heap.startAddress := sub32_eq (by omega) hend
  obtain ⟨k', L₁, hfree, hstart, hend', hl₁, hL₁, -, hfix, -⟩ := freeBlock_last hw hr
    (if_neg hlh).symm (by omega) (by omega)
  have hperm := hw.perm_around hb
  rw [if_neg hlh, if_pos hr] at hperm
  have hkept : keptAfter k.mem [r] = [] := by rw [keptAfter_cons, if_pos hr]
  have hbefore : keptBefore k.mem (pre ++ [l]) = pre ++ [l] := by rw [keptBefore_concat, if_neg hlh]
  refine ⟨k', hfree, coalesced_gone hw hlh hr (hfix (.inl hgone)) hstart (by omega) hl₁ ?_⟩
  have := perm_behind hperm hL₁
  rwa [hkept, hbefore, List.filter_nil, List.append_nil] at this

lemma freeOk_concat : FreeOk k (pre ++ [l]) b (r :: post) ↔
    if headerIsHole k.mem r = 1 then
      if headerIsHole k.mem l = 1 then post = [] →
        contractedLen l k ≤ k.heapLen ∧ l + 20 ≤ k.heap.startAddress + contractedLen l k
      else post = [] ∧ k.heap.startAddress + contractedLen b k = b
    else headerIsHole k.mem l ≠ 1 → k.heap.index.cur + 1 < HEAP_INDEX_SIZE ∧
      (k.heap.index.cur = 0 ∨ ∃ t ∈ (pre ++ [l]) ++ r :: post, headerIsHole k.mem t = 1) := by
  unfold FreeOk
  rw [holeBefore_concat, holeAfter_cons, joinedHeader_concat]
  by_cases hl : headerIsHole k.mem l = 1 <;> by_cases hr : headerIsHole k.mem r = 1 <;>
    simp [hl, hr]

lemma WellFormed.listed_iff (hw : WellFormed A k (pre ++ b :: post) L)
    (hb : headerIsHole k.mem b ≠ 1) : L ≠ [] ↔ ∃ t ∈ pre ++ post, headerIsHole k.mem t = 1 := by
  rw [ne_eq, List.eq_nil_iff_forall_not_mem, not_forall]
  refine exists_congr fun t => ?_
  rw [not_not]
  rw [hw.mem_iff, List.mem_append, List.mem_append, List.mem_cons]
  constructor
  · rintro ⟨ht | rfl | ht, hhole⟩
    · exact ⟨.inl ht, hhole⟩
    · exact absurd hhole hb
    · exact ⟨.inr ht, hhole⟩
  · rintro ⟨ht | ht, hhole⟩
    · exact ⟨.inl ht, hhole⟩
    · exact ⟨.inr (.inr ht), hhole⟩

theorem coalesced_of_ok (hw : WellFormed A k (pre ++ b :: post) L)
    (hb : headerIsHole k.mem b ≠ 1) (hok : FreeOk k pre b post) :
    ∃ k', freeBlock b k = some k' ∧ Coalesced A k k' pre b post := by
  obtain rfl | ⟨pre, l, rfl⟩ := List.eq_nil_or_concat pre
  · exact absurd rfl hok.1
  cases post with
  | nil => exact absurd rfl hok.2.1
  | cons r post =>
    rw [List.concat_eq_append] at hw hok ⊢
    rw [freeOk_concat] at hok
    by_cases hr : headerIsHole k.mem r = 1
    · rw [if_pos hr] at hok
      by_cases hl : headerIsHole k.mem l = 1
      · rw [if_pos hl] at hok
        by_cases hpost : post = []
        · subst hpost
          exact coalesced_last hw hb hl hr (hok rfl).1 (hok rfl).2
        · exact coalesced_both hw hb hl hr hpost
      · rw [if_neg hl] at hok
        obtain ⟨rfl, hgone⟩ := hok
        exact coalesced_back hw hb hl hr hgone
    · rw [if_neg hr] at hok
      refine coalesced_before hw hb hr fun hl => ?_
      rw [hw.listed_iff hb]
      exact hok hl

/-! ### Where it fails -/

lemma freeBlock_end {h : ℕ} (hw : WellFormed A k (pre ++ [l] ++ b :: [r]) L)
    (hr : headerIsHole k.mem r = 1) (hhd : h = if headerIsHole k.mem l = 1 then l else b)
    (hfree : freeBlock b k = some k') :
    k'.heap.endAddress = add32 k.heap.startAddress (contractedLen h k) := by
  obtain ⟨e, hpre, hl, hbt, he, hpost⟩ := hw.around
  obtain rfl : e = k.heap.endAddress := hpost.tiled
  have hend := hw.endLt
  have hstart := hpre.tiled.le
  obtain ⟨-, hr20, -⟩ := tagged_singleton.mp he
  obtain ⟨m, a, L₁, hfree', -, -, -, -⟩ := freeBlock_joined hw he le_rfl
  rw [hfree', if_pos hr, ← hhd] at hfree
  obtain ⟨k₁, hk₁, hk'⟩ := Option.bind_eq_some_iff.mp hfree
  rw [if_neg (by simp [hr])] at hk'
  obtain rfl := Option.some.inj hk'
  exact (@shrinkHeap_end h r (k.retag m a) k₁ (show 8 ≤ k.heap.endAddress by omega) hend hk₁).2

lemma contractedLen_le {h : ℕ} (hw : WellFormed A k (pre ++ [l] ++ b :: [r]) L)
    (hr : headerIsHole k.mem r = 1) (hhd : h = if headerIsHole k.mem l = 1 then l else b)
    (hfree : freeBlock b k = some k') (hc : Coalesced A k k' (pre ++ [l]) b [r]) :
    contractedLen h k ≤ k.heapLen := by
  have hend' := freeBlock_end hw hr hhd hfree
  obtain ⟨hole, L', hw', -⟩ := hc.wellFormed
  have hup := hw'.tags.tiled.le
  have hstart := hc.start
  have hle := hc.le
  have hend := hw.endLt
  obtain ⟨-, hlt⟩ := contractedLen_bounds h k
  have hlen : k.heapLen = k.heap.endAddress - k.heap.startAddress := sub32_eq (by omega) hend
  unfold add32 at hend'
  omega

/-- When the tiles in front fill the heap afterwards, it ends where the hole began. -/
lemma end_of_kept {h : ℕ} {P : List ℕ} (hP : Tagged k.mem k.heap.startAddress P h)
    (hlow : h ≤ 2 ^ 32) (hP' : Tagged k'.mem k.heap.startAddress P e')
    (hfix : ∀ x, k.heap.startAddress ≤ x → x < h - 8 → k'.mem x = k.mem x) : e' = h := by
  refine hP'.tiled.tiles.end_unique (hP.tiled.congr fun t ht => ?_).tiles
  obtain ⟨h1, h2, h3⟩ := hP.tiled.mem ht
  have hws : Writes k.mem k'.mem {x | k'.mem x ≠ k.mem x} := fun x hx => by simpa using hx
  refine headerSize_of_writes hws (by omega) fun x hx => ?_
  by_contra hin
  exact hx (hfix x (by omega) (by omega))

lemma Coalesced.listed {hs : List ℕ} (hw' : WellFormed A k' hs L')
    (hl : Listed A k'.heap.index k'.mem L₁) (t : ℕ) :
    t ∈ L₁ ↔ t ∈ hs ∧ headerIsHole k'.mem t = 1 := by
  rw [hl.unique hw'.listed]
  exact hw'.mem_iff

lemma ok_of_last (hw : WellFormed A k (pre ++ [l] ++ b :: [r]) L)
    (hlh : headerIsHole k.mem l = 1) (hr : headerIsHole k.mem r = 1)
    (hfree : freeBlock b k = some k') (hc : Coalesced A k k' (pre ++ [l]) b [r]) :
    contractedLen l k ≤ k.heapLen ∧ l + 20 ≤ k.heap.startAddress + contractedLen l k := by
  obtain ⟨e, hpre, hl, hbt, he, hpost⟩ := hw.around
  have hend := hw.endLt
  have hbelow := hw.below
  have hN : HEAP_INDEX_SIZE = 0x20000 := rfl
  have h1 := hpre.tiled.le
  have h2 := hpost.tiled.le
  obtain ⟨-, hl20, -⟩ := tagged_singleton.mp hl
  obtain ⟨-, hb20, -⟩ := tagged_singleton.mp hbt
  obtain ⟨-, hr20, -⟩ := tagged_singleton.mp he
  have hhd := (@if_pos _ (instDecidableEqNat _ _) hlh _ l b).symm
  have hle := contractedLen_le hw hr hhd hfree hc
  have hh : l ≤ k.heap.startAddress + contractedLen l k := le_contractedLen h1 (by omega) (by omega)
  refine ⟨hle, ?_⟩
  by_contra hroom
  obtain ⟨k₁, L₁, hfree', hstart, hend', hl₁, hL₁, hfix, -, -⟩ := freeBlock_last hw hr hhd hle hh
  obtain rfl := Option.some.inj (hfree'.symm.trans hfree)
  obtain ⟨hole, L', hw', hcase⟩ := hc.wellFormed
  rw [keptBefore_concat, if_pos hlh, keptAfter_cons, if_pos hr, List.append_nil] at hw'
  have htags := hw'.tags
  rw [hstart, hend'] at htags
  rcases hcase with ⟨rfl, -⟩ | ⟨rfl, -⟩
  · -- the hole has no room for its tags
    rw [joinedHeader_concat, if_pos hlh] at htags
    obtain ⟨mid, -, hlast⟩ := tagged_append.mp htags
    exact hroom (tagged_singleton.mp hlast).2.1
  · -- the hole is gone, but the one in front is listed still
    rw [List.append_nil] at hw' htags
    have heq := end_of_kept hpre (by omega) htags hfix
    have hmem : l ∈ L := hw.mem_iff.mpr ⟨by simp, hlh⟩
    have hmem₁ : l ∈ L₁ := by
      rcases List.mem_cons.mp (hL₁.mem_iff.mp hmem) with hlr | hmem₁
      · omega
      · exact hmem₁
    obtain ⟨hpl, -⟩ := (Coalesced.listed hw' hl₁ l).mp hmem₁
    have := hpre.tiled.mem hpl
    omega

lemma ok_of_behind (hw : WellFormed A k (pre ++ [l] ++ b :: r :: post) L)
    (hb : headerIsHole k.mem b ≠ 1) (hlh : headerIsHole k.mem l ≠ 1)
    (hr : headerIsHole k.mem r = 1) (hfree : freeBlock b k = some k')
    (hc : Coalesced A k k' (pre ++ [l]) b (r :: post)) :
    post = [] ∧ k.heap.startAddress + contractedLen b k = b := by
  obtain ⟨e, hpre, hl, hbt, he, hpost⟩ := hw.around
  have hend := hw.endLt
  have hbelow := hw.below
  have hN : HEAP_INDEX_SIZE = 0x20000 := rfl
  have h1 := hpre.tiled.le
  have h2 := hpost.tiled.le
  obtain ⟨-, hl20, -⟩ := tagged_singleton.mp hl
  obtain ⟨-, hb20, -⟩ := tagged_singleton.mp hbt
  obtain ⟨-, hr20, -⟩ := tagged_singleton.mp he
  -- the merged hole is not listed
  have hlost {L₁ : List ℕ} (hl₁ : Listed A k'.heap.index k'.mem L₁) (hL₁ : L.Perm (r :: L₁)) :
      ∃ L', WellFormed A k' (pre ++ [l] ++ post) L' ∧ post = [] := by
    obtain ⟨hole, L', hw', hcase⟩ := hc.wellFormed
    rw [keptBefore_concat, if_neg hlh, keptAfter_cons, if_pos hr] at hw'
    rcases hcase with ⟨rfl, hhole⟩ | ⟨rfl, hnil⟩
    · rw [joinedHeader_concat, if_neg hlh] at hw' hhole
      have hmem : b ∈ L₁ := (Coalesced.listed hw' hl₁ b).mpr ⟨by simp, hhole⟩
      exact absurd (hw.mem_iff.mp (hL₁.mem_iff.mpr (List.mem_cons_of_mem r hmem))).2 hb
    · rw [keptAfter_cons, if_pos hr] at hnil
      rw [List.append_nil] at hw'
      exact ⟨L', hw', hnil⟩
  by_cases hnil : post = []
  · subst hnil
    refine ⟨rfl, ?_⟩
    have hhd := (@if_neg _ (instDecidableEqNat _ _) hlh _ l b).symm
    have hle := contractedLen_le hw hr hhd hfree hc
    have hh : b ≤ k.heap.startAddress + contractedLen b k :=
      le_contractedLen (by omega) (by omega) (by omega)
    obtain ⟨k₁, L₁, hfree', hstart, hend', hl₁, hL₁, hfix, -, -⟩ := freeBlock_last hw hr hhd hle hh
    obtain rfl := Option.some.inj (hfree'.symm.trans hfree)
    obtain ⟨L', hw', -⟩ := hlost hl₁ hL₁
    have htags := hw'.tags
    rw [hstart, hend', List.append_nil] at htags
    exact end_of_kept (tagged_append.mpr ⟨l, hpre, hl⟩) (by omega) htags hfix
  · -- the end of the heap is not reached
    obtain ⟨m, a, L₁, hfree', -, hl₁, hL₁⟩ := freeBlock_inner hw he hpost hr hnil
    obtain rfl := Option.some.inj (hfree'.symm.trans hfree)
    obtain ⟨-, -, hnil'⟩ := hlost hl₁ hL₁
    exact absurd hnil' hnil

/-- An index that has been emptied holds NULL, and the new hole is compared with that. -/
lemma null_compared (hw : WellFormed A k (pre ++ [l] ++ b :: r :: post) [])
    (hlh : headerIsHole k.mem l ≠ 1) (hr : headerIsHole k.mem r ≠ 1)
    (hused : k.heap.index.cur ≠ 0) : (0, 12) ∈ tagsRead b k := by
  obtain ⟨htest, hnext, howner, -, -⟩ := hw.tests
  have hslot : slot k.heap.index.array k.mem 0 = 0 := hw.slot_zero
  unfold tagsRead tagsCompared
  simp [htest, hnext, howner, hlh, hr, hused, hslot]

/-- Without holes beside the block, its hole is a new entry of the index. -/
lemma ok_of_alone (hw : WellFormed A k (pre ++ [l] ++ b :: r :: post) L)
    (hlh : headerIsHole k.mem l ≠ 1) (hr : headerIsHole k.mem r ≠ 1)
    (hfree : freeBlock b k = some k') (hc : Coalesced A k k' (pre ++ [l]) b (r :: post)) :
    k.heap.index.cur + 1 < HEAP_INDEX_SIZE ∧ (k.heap.index.cur = 0 ∨ L ≠ []) := by
  obtain ⟨e, hpre, hl, hbt, he, hpost⟩ := hw.around
  have hend := hw.endLt
  have h2 := hpost.tiled.le
  obtain ⟨-, hr20, -⟩ := tagged_singleton.mp he
  obtain ⟨-, hb20, -⟩ := tagged_singleton.mp hbt
  obtain ⟨m, a, L₁, hfree', -, -, hcur, -⟩ := freeBlock_joined hw he h2
  simp only [if_neg hr, if_neg hlh] at hfree'
  rw [@shrinkHeap_skip r _ _ (k.retag m a) (by omega) (by omega) (by rw [endAddress_retag]; omega),
    Option.bind_some, if_pos ⟨hlh, hr⟩] at hfree'
  obtain rfl := Option.some.inj (hfree'.symm.trans hfree)
  obtain ⟨hole, L', hw', -⟩ := hc.wellFormed
  have hlt := hw'.listed.cur
  have hbound := hw.listed.cur
  have hcur' : ((k.retag m a).insertHole b).heap.index.cur = add32 a.cur 1 :=
    Listed.cur_insertSortedArray b a m
  have hN : HEAP_INDEX_SIZE = 0x20000 := rfl
  rw [hcur', hcur, add32_eq (by omega)] at hlt
  refine ⟨hlt, ?_⟩
  by_contra hempty
  rw [not_or, not_not] at hempty
  obtain ⟨hused, rfl⟩ := hempty
  -- the entry is compared with the header at NULL
  obtain ⟨h0, -⟩ := hc.reads (0, 12) (null_compared hw hlh hr hused)
  have hbelow := hw.below
  omega

/-- The tags beside the first and the last block lie outside of the heap. -/
lemma neighbours_of_reads (hw : WellFormed A k (pre ++ b :: post) L)
    (hreads : ∀ x ∈ tagsRead b k, k.heap.startAddress ≤ x.1 ∧ x.2 ≤ k.heap.endAddress) :
    pre ≠ [] ∧ post ≠ [] := by
  obtain ⟨b', hpre, hrest⟩ := tagged_append.mp hw.tags
  obtain ⟨r, hbt, hpost⟩ := (@tagged_append _ _ _ [b] post).mp hrest
  obtain rfl := (tagged_singleton.mp hbt).1
  obtain ⟨-, hb20, -, hbsize, -⟩ := tagged_singleton.mp hbt
  have hend := hw.endLt
  have hbelow := hw.below
  have hN : HEAP_INDEX_SIZE = 0x20000 := rfl
  have h1 := hpre.tiled.le
  have h2 := hpost.tiled.le
  unfold tagsRead at hreads
  simp only [List.forall_mem_cons] at hreads
  obtain ⟨-, hfront, -, hback, -⟩ := hreads
  constructor
  · rintro rfl
    have hpre : k.heap.startAddress = b := hpre.tiled
    rw [sub32_eq (by omega) (by omega)] at hfront
    omega
  · rintro rfl
    have hpost : r = k.heap.endAddress := hpost.tiled
    have hsum : add32 b (r - b) = r := by
      rw [add32_eq (by omega)]
      omega
    rw [hbsize, hsum, sub32_eq (by omega) (by omega), add32_eq (by omega)] at hback
    omega

theorem ok_of_coalesced (hw : WellFormed A k (pre ++ b :: post) L)
    (hb : headerIsHole k.mem b ≠ 1) (hfree : freeBlock b k = some k')
    (hc : Coalesced A k k' pre b post) : FreeOk k pre b post := by
  obtain ⟨hpre, hpost⟩ := neighbours_of_reads hw hc.reads
  obtain rfl | ⟨pre, l, rfl⟩ := List.eq_nil_or_concat pre
  · exact absurd rfl hpre
  cases post with
  | nil => exact absurd rfl hpost
  | cons r post =>
    rw [List.concat_eq_append] at hw hc ⊢
    rw [freeOk_concat]
    split_ifs with hr hl
    · rintro rfl
      exact ok_of_last hw hl hr hfree hc
    · exact ok_of_behind hw hb hl hr hfree hc
    · intro hl
      rw [← hw.listed_iff hb]
      exact ok_of_alone hw hl hr hfree hc

end Freed

/-- **A freed block is joined with the holes beside it**, and the heap is well formed again, exactly
under the condition. -/
theorem coalesced_iff {A b : ℕ} {pre post L : List ℕ} {k : Kernel}
    (hw : WellFormed A k (pre ++ b :: post) L) (hb : headerIsHole k.mem b ≠ 1) :
    (∃ k', freeBlock b k = some k' ∧ Coalesced A k k' pre b post) ↔ FreeOk k pre b post := by
  constructor
  · rintro ⟨k', hfree, hc⟩
    exact ok_of_coalesced hw hb hfree hc
  · exact coalesced_of_ok hw hb

/-! ### A heap of four tiles -/

/-- The tags of a tile of 32 bytes. -/
def tagTile (h isHole : ℕ) (m : Mem) : Mem :=
  writeFooter (h + 24) h (writeHeader h isHole 32 m)

lemma writes_tagTile {h isHole : ℕ} {m : Mem} (hlo : 0x81000 ≤ h) (htop : h + 32 ≤ 2 ^ 32) :
    Writes m (tagTile h isHole m) (Set.Ici 0x81000) := by
  have hsub : Set.Ico h (h + 32) ⊆ Set.Ici 0x81000 := fun x hx => hlo.trans hx.1
  exact ((writes_writeHeader le_rfl (by omega) (by omega)).mono hsub).trans
    ((writes_writeFooter (by omega) le_rfl (by omega)).mono hsub)

/-- Four tiles of 32 bytes. The third is a hole, or else the first, and the others are blocks. -/
def fourTiles (behind : Bool) : Kernel :=
  { oneHoleKernel 0 0 0 with
    mem := tagTile 0x81000 (!behind).toNat (tagTile 0x81020 0 (tagTile 0x81040 behind.toNat
      (tagTile 0x81060 0 (writeSlot 0x1000 (fun _ => 0) 0 (if behind then 0x81040 else 0x81000)))))
    heap := { oneHoleHeap HEAP_INDEX_SIZE 1 0x81080 with startAddress := 0x81000 } }

lemma listed_fourTiles (behind : Bool) : Listed 0x1000 (fourTiles behind).heap.index
    (fourTiles behind).mem [if behind then 0x81040 else 0x81000] := by
  have htop : 0x1000 + 4 * HEAP_INDEX_SIZE ≤ 2 ^ 32 := by decide
  have hlt : (if behind then 0x81040 else 0x81000) < 2 ^ 32 := by cases behind <;> decide
  have hbase : Listed 0x1000 (fourTiles behind).heap.index
      (writeSlot 0x1000 (fun _ => 0) 0 (if behind then 0x81040 else 0x81000))
      [if behind then 0x81040 else 0x81000] := by
    refine ⟨rfl, by decide, htop, rfl, show 1 < HEAP_INDEX_SIZE by decide, le_rfl, rfl, fun i hi => ?_⟩
    rw [slot_writeSlot htop (by decide) hi hlt]
    cases i with
    | zero => rfl
    | succ i =>
      rw [if_neg (Nat.succ_ne_zero i), slot_eq htop hi]
      rfl
  refine hbase.frame (((writes_tagTile (by decide) (by decide)).trans
    (writes_tagTile (by decide) (by decide))).trans ((writes_tagTile (by decide) (by decide)).trans
    (writes_tagTile (by decide) (by decide)))) fun x hx => Or.inr hx

lemma wellFormed_fourTiles (behind : Bool) : WellFormed 0x1000 (fourTiles behind)
    ([0x81000] ++ 0x81020 :: [0x81040, 0x81060]) [if behind then 0x81040 else 0x81000] where
  tags :=
    { tiled := by
        cases behind <;> exact ⟨rfl, by decide +kernel, by decide +kernel, by decide +kernel,
          by decide +kernel, by decide +kernel, by decide +kernel, by decide +kernel,
          by unfold Tiled; decide +kernel⟩
      magic := by cases behind <;> decide +kernel
      footer := by
        unfold IsFooter
        cases behind <;> decide +kernel }
  listed := listed_fourTiles behind
  holes := by cases behind <;> decide +kernel
  sparse := by cases behind <;> decide +kernel
  null := by decide
  below := by cases behind <;> decide
  endLt := by cases behind <;> decide

/-- The hole behind the block leaves the index, and the joined one is not put there. -/
theorem coalesced_fails : WellFormed 0x1000 (fourTiles true)
      ([0x81000] ++ 0x81020 :: [0x81040, 0x81060]) [0x81040] ∧
    headerIsHole (fourTiles true).mem 0x81020 ≠ 1 ∧
    ∃ k', freeBlock 0x81020 (fourTiles true) = some k' ∧
      ¬ Coalesced 0x1000 (fourTiles true) k' [0x81000] 0x81020 [0x81040, 0x81060] := by
  have hw := wellFormed_fourTiles true
  have hb : headerIsHole (fourTiles true).mem 0x81020 ≠ 1 := by decide +kernel
  obtain ⟨e, -, -, -, he, hpost⟩ := @WellFormed.around 0x1000 0x81020 0x81000 0x81040 [] [0x81060] _
    _ hw
  obtain ⟨m, a, -, hfree, -⟩ := @freeBlock_inner 0x1000 0x81020 e 0x81000 0x81040 [] [0x81060] _ _ hw
    he hpost (by decide +kernel) (List.cons_ne_nil _ _)
  refine ⟨hw, hb, _, hfree, fun hc => ?_⟩
  have hok := @freeOk_concat 0x81020 0x81000 0x81040 [] [0x81060] _ |>.mp (ok_of_coalesced hw hb hfree hc)
  rw [if_pos (by decide +kernel), if_neg (by decide +kernel)] at hok
  exact absurd hok.1 (List.cons_ne_nil _ _)

theorem coalesced_one : ∃ k', freeBlock 0x81020 (fourTiles false) = some k' ∧
    Coalesced 0x1000 (fourTiles false) k' [0x81000] 0x81020 [0x81040, 0x81060] := by
  refine (coalesced_iff (wellFormed_fourTiles false) (by decide +kernel)).mpr ?_
  refine @freeOk_concat 0x81020 0x81000 0x81040 [] [0x81060] _ |>.mpr ?_
  rw [if_neg (by decide +kernel)]
  exact fun hl => absurd (by decide +kernel) hl

end OsImplement.Memory
