import OsImplement.Fs.Initrd

/-!
What `initialise_initrd` makes of an image: one node for each header, and addresses in place of the
offsets.
-/

namespace OsImplement.Fs

open Lib.Word Lib.Bytes Lib.Loop

/-- An image that lies in memory, with a table of nodes that can be allocated. -/
structure Image (loc : ℕ) (m : Mem) : Prop where
  top : loc + 4 + 76 * nfiles loc m ≤ 2 ^ 32
  table : 184 * nfiles loc m < 2 ^ 32

/-- The offset fields of the first `n` headers. -/
def offsetFields (loc n : ℕ) : Set ℕ :=
  {x | ∃ i < n, fileHeader loc i + 68 ≤ x ∧ x < fileHeader loc i + 72}

section Fields

variable {loc n i : ℕ} {m m' : Mem} {S : Set ℕ}

lemma headerName_congr (h : Writes m m' (offsetFields loc n)) (htop : loc + 4 + 76 * (i + 1) ≤ 2 ^ 32) :
    headerName loc i m' = headerName loc i m := by
  refine List.map_congr_left fun k hk => ?_
  have hk := List.mem_range.mp hk
  refine h.read8 ?_
  rintro ⟨j, -, h1, h2⟩
  unfold fileHeader at h1 h2
  rw [Nat.mod_eq_of_lt (by omega)] at h1 h2
  omega

lemma headerLength_congr (h : Writes m m' (offsetFields loc n))
    (htop : loc + 4 + 76 * (i + 1) ≤ 2 ^ 32) : headerLength loc i m' = headerLength loc i m := by
  unfold headerLength
  refine h.read32 (by unfold fileHeader; omega) ?_
  rintro x hx hx' ⟨j, -, h1, h2⟩
  unfold fileHeader at *
  omega

lemma nfiles_congr (h : Writes m m' (offsetFields loc n)) (htop : loc + 4 ≤ 2 ^ 32) :
    nfiles loc m' = nfiles loc m := by
  refine h.read32 htop ?_
  rintro x hx hx' ⟨j, -, h1, h2⟩
  unfold fileHeader at *
  omega

end Fields

section Initialise

variable {loc : ℕ} {m : Mem} {root dev : FsNode} {table : ℕ → FsNode}

/-- The state after `k` rounds of the loop. -/
structure Initialised (loc : ℕ) (m : Mem) (root dev : FsNode) (table : ℕ → FsNode) (k : ℕ)
    (s : Initrd) : Prop where
  initrdHeader : s.initrdHeader = loc
  initrdRoot : s.initrdRoot = directoryNode Initrd.initrdName root
  initrdDev : s.initrdDev = directoryNode Initrd.devName dev
  nrootNodes : s.nrootNodes = nfiles loc m
  capacity : s.capacity = nfiles loc m
  file : ∀ i < k, s.rootNodes i =
    fileNode (headerName loc i m) (headerLength loc i m) i (table i)
  behind : ∀ i, k ≤ i → s.rootNodes i = table i
  relocated : ∀ i < k, headerOffset loc i s.mem = add32 (headerOffset loc i m) loc
  writes : Writes m s.mem (offsetFields loc k)

lemma Initialised.initFile {k : ℕ} {s : Initrd} (h : Initialised loc m root dev table k s)
    (htop : loc + 4 + 76 * (k + 1) ≤ 2 ^ 32) :
    Initialised loc m root dev table (k + 1) (s.initFile k) := by
  have hloc := h.initrdHeader
  have hoff : headerOffset loc k s.mem = headerOffset loc k m := by
    unfold headerOffset
    refine h.writes.read32 (by unfold fileHeader; omega) ?_
    rintro x hx hx' ⟨j, hj, h1, h2⟩
    unfold fileHeader at *
    omega
  set m' := write32 s.mem (fileHeader loc k + 68) (add32 (headerOffset loc k m) loc) with hm'
  have hw' : Writes s.mem m' (Set.Ico (fileHeader loc k + 68) (fileHeader loc k + 68 + 4)) :=
    Writes.write32 le_rfl le_rfl (by unfold fileHeader; omega)
  have hmono : offsetFields loc k ⊆ offsetFields loc (k + 1) := by
    rintro x ⟨j, hj, hx⟩
    exact ⟨j, by omega, hx⟩
  have hw : Writes m m' (offsetFields loc (k + 1)) := by
    refine (h.writes.mono hmono).trans (hw'.mono ?_)
    rintro x ⟨h1, h2⟩
    exact ⟨k, by omega, h1, by omega⟩
  have hmem : (s.initFile k).mem = m' := by
    unfold Initrd.initFile
    simp only [hloc, hoff, hm']
  have hnode : (s.initFile k).rootNodes = Function.update s.rootNodes k
      (fileNode (headerName loc k m) (headerLength loc k m) k (table k)) := by
    unfold Initrd.initFile
    simp only [hloc, hoff, ← hm']
    rw [headerName_congr hw htop, headerLength_congr hw htop, h.behind k le_rfl]
  refine ⟨hloc, h.initrdRoot, h.initrdDev, h.nrootNodes, h.capacity, fun i hi => ?_,
    fun i hi => ?_, fun i hi => ?_, hmem ▸ hw⟩
  · rw [hnode, Function.update_apply]
    by_cases hik : i = k
    · rw [if_pos hik, hik]
    · rw [if_neg hik, h.file i (by omega)]
  · rw [hnode, Function.update_of_ne (by omega), h.behind i (by omega)]
  · rw [hmem]
    by_cases hik : i = k
    · rw [hik]
      exact read32_write32 (add32_lt _ _)
    · rw [← h.relocated i (by omega)]
      refine read32_write32_ne (by unfold fileHeader; omega) (by unfold fileHeader; omega) ?_
      unfold fileHeader
      omega

theorem initialised (h : Image loc m) :
    Initialised loc m root dev table (nfiles loc m)
      (Initrd.initialiseInitrd loc m root dev table) := by
  have hsmall : nfiles loc m < 2 ^ 31 := by
    have := h.table
    omega
  have hint : toInt (nfiles loc m) = nfiles loc m := if_pos hsmall
  unfold Initrd.initialiseInitrd
  simp only
  rw [hint, Int.toNat_natCast]
  refine foldl_range_inv (P := Initialised loc m root dev table) ?_ fun k hk s hs => ?_
  · refine ⟨rfl, rfl, rfl, rfl, ?_, fun i hi => absurd hi (by omega), fun _ _ => rfl,
      fun i hi => absurd hi (by omega), Writes.refl _ _⟩
    have := h.table
    show 184 * nfiles loc m % 2 ^ 32 / 184 = nfiles loc m
    omega
  · have := h.top
    exact hs.initFile (by omega)

end Initialise

end OsImplement.Fs
