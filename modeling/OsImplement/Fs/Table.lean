import OsImplement.Fs.Image

/-!
The table of nodes under `open_fs` and `close_fs`: what one call does to it.
-/

namespace OsImplement.Fs

open Lib.Word Lib.Bytes

section Nodes

variable {node : FsNode} {nodes : ℕ → FsNode} {name : List UInt8} {s : Initrd} {n i j length inode : ℕ}

lemma strcmp_nameBytes (h : node.mask = 0) (hs : ∀ c ∈ name, c ≠ 0) :
    strcmp (name ++ [0]) node.nameBytes = 0 ↔ node.string = name := by
  refine strcmp_eq_zero_iff hs ?_
  unfold FsNode.nameBytes
  rw [h]
  exact List.mem_append_right _ (List.mem_singleton.mpr rfl)

lemma string_fileNode (src : List UInt8) (length inode : ℕ) (node : FsNode) :
    (fileNode src length inode node).string =
      cstr ((List.range NAME_SIZE).map (strcpy src node.name) ++ [0]) := rfl

/-- **The search** stops at the first node with the name. -/
lemma findNode_spec (h : ∀ k < i + n, (s.rootNodes k).mask = 0) (hs : ∀ c ∈ name, c ≠ 0) :
    match s.findNode name n i with
    | some j => i ≤ j ∧ j < i + n ∧ (s.rootNodes j).string = name ∧
        ∀ k, i ≤ k → k < j → (s.rootNodes k).string ≠ name
    | none => ∀ k, i ≤ k → k < i + n → (s.rootNodes k).string ≠ name := by
  induction n generalizing i with
  | zero => exact fun k h1 h2 => absurd h2 (by omega)
  | succ n ih =>
    have hcmp := strcmp_nameBytes (h i (by omega)) hs
    unfold Initrd.findNode
    by_cases hi : strcmp (name ++ [0]) (s.rootNodes i).nameBytes = 0
    · rw [if_pos hi]
      exact ⟨le_rfl, by omega, hcmp.mp hi, fun k h1 h2 => absurd h2 (by omega)⟩
    · rw [if_neg hi]
      have hne : (s.rootNodes i).string ≠ name := fun h0 => hi (hcmp.mpr h0)
      have ih := ih (i := i + 1) fun k hk => h k (by omega)
      cases hfind : s.findNode name n (i + 1) with
      | none =>
        rw [hfind] at ih
        intro k h1 h2
        rcases Nat.eq_or_lt_of_le h1 with rfl | h1
        · exact hne
        · exact ih k h1 (by omega)
      | some j =>
        rw [hfind] at ih
        obtain ⟨h1, h2, h3, h4⟩ := ih
        refine ⟨by omega, by omega, h3, fun k hk hkj => ?_⟩
        rcases Nat.eq_or_lt_of_le hk with rfl | hk
        · exact hne
        · exact h4 k hk hkj

lemma shiftNodes_apply (n i : ℕ) (nodes : ℕ → FsNode) (j : ℕ) :
    Initrd.shiftNodes n i nodes j = if i ≤ j ∧ j < i + n then nodes (j + 1) else nodes j := by
  induction n generalizing i nodes with
  | zero => rw [Initrd.shiftNodes, if_neg (by omega)]
  | succ n ih =>
    rw [Initrd.shiftNodes, ih, Function.update_apply, Function.update_apply]
    split_ifs <;> first | rfl | omega | (congr 1; omega)

end Nodes

/-! ### Calls -/

/-- A table of `n` nodes, with the count in its two places. -/
structure Ready (s : Initrd) (n : ℕ) : Prop where
  live : s.nrootNodes = n
  count : nfiles s.initrdHeader s.mem = n
  mask : ∀ i < n, (s.rootNodes i).mask = 0
  opn : s.initrdRoot.opn = .initrdOpen
  close : s.initrdRoot.close = .initrdClose

section Calls

variable {s : Initrd} {n loc : ℕ} {name : List UInt8} {m : Mem} {root dev : FsNode}
  {table : ℕ → FsNode}

lemma ready_initialise (h : Image loc m) :
    Ready (Initrd.initialiseInitrd loc m root dev table) (nfiles loc m) := by
  have hs := @initialised loc m root dev table h
  have htop := h.top
  refine ⟨hs.nrootNodes, ?_, fun i hi => ?_, ?_, ?_⟩
  · rw [hs.initrdHeader]
    exact nfiles_congr hs.writes (by omega)
  · rw [hs.file i hi]
    rfl
  · rw [hs.initrdRoot]
    rfl
  · rw [hs.initrdRoot]
    rfl

lemma Ready.openFs (h : Ready s n) (name : List UInt8) (hn : n + 1 < 2 ^ 31) :
    (s.openFs .root name).2 =
        { s with
          mem := write32 s.mem s.initrdHeader (n + 1)
          nrootNodes := (n + 1 : ℕ)
          rootNodes := Function.update s.rootNodes n
            (fileNode (name ++ [0]) 0 n (s.rootNodes n)) } ∧
      Ready (s.openFs .root name).2 (n + 1) := by
  have hcount : add32 (nfiles s.initrdHeader s.mem) 1 = n + 1 := by
    rw [h.count, add32_eq (by omega)]
  have hread : nfiles s.initrdHeader (write32 s.mem s.initrdHeader (n + 1)) = n + 1 :=
    read32_write32 (by omega)
  have hint : toInt (n + 1) = (n + 1 : ℕ) := if_pos hn
  have hlast : (((n + 1 : ℕ) : ℤ) - 1).toNat = n := by omega
  have heq : (s.openFs .root name).2 =
      { s with
        mem := write32 s.mem s.initrdHeader (n + 1)
        nrootNodes := (n + 1 : ℕ)
        rootNodes := Function.update s.rootNodes n
          (fileNode (name ++ [0]) 0 n (s.rootNodes n)) } := by
    unfold Initrd.openFs
    rw [show (s.node .root).opn = .initrdOpen from h.opn, if_pos rfl]
    unfold Initrd.initrdOpen
    simp only [hcount, hread, hint, hlast]
  refine ⟨heq, ?_⟩
  rw [heq]
  refine ⟨rfl, hread, fun i hi => ?_, h.opn, h.close⟩
  show (Function.update s.rootNodes n _ i).mask = 0
  rw [Function.update_apply]
  split_ifs
  · rfl
  · exact h.mask i (by omega)

lemma Ready.closeFs (h : Ready s (n + 1)) (name : List UInt8) (hn : n + 1 < 2 ^ 31) :
    let i := (s.findNode name (n + 1) 0).getD (n + 1)
    ∃ s', s.closeFs .root name = some s' ∧ Ready s' n ∧
      s' = { s with
        mem := write32 s.mem s.initrdHeader n
        nrootNodes := n
        rootNodes := Initrd.shiftNodes (n - i) i s.rootNodes } := by
  intro i
  have hcount : sub32 (nfiles s.initrdHeader s.mem) 1 = n := by
    rw [h.count, sub32_eq (by omega) (by omega)]
    omega
  have hread : nfiles s.initrdHeader (write32 s.mem s.initrdHeader n) = n :=
    read32_write32 (by omega)
  have hint : toInt n = (n : ℤ) := if_pos (by omega)
  have hne : nfiles s.initrdHeader s.mem ≠ 0 := by
    rw [h.count]
    omega
  refine ⟨_, ?_, ?_, rfl⟩
  · unfold Initrd.closeFs
    rw [show (s.node .root).close = .initrdClose from h.close, if_pos rfl]
    unfold Initrd.initrdClose
    rw [if_neg hne]
    simp only [hcount, hread, hint, h.live, Int.toNat_natCast, Nat.add_sub_cancel]
    rfl
  · refine ⟨rfl, hread, fun j hj => ?_, h.opn, h.close⟩
    show (Initrd.shiftNodes (n - i) i s.rootNodes j).mask = 0
    rw [shiftNodes_apply]
    split_ifs
    · exact h.mask (j + 1) (by omega)
    · exact h.mask j (by omega)

/-- For an empty table it does not come back. -/
lemma Ready.closeFs_empty (h : Ready s 0) : s.closeFs .root name = none := by
  unfold Initrd.closeFs
  rw [show (s.node .root).close = .initrdClose from h.close, if_pos rfl]
  exact if_pos h.count

end Calls

end OsImplement.Fs
