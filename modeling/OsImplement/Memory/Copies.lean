import OsImplement.Memory.Isolation

/-!
What a clone is a copy of (`page.c`).

`clone_table` calls `alloc_frame` for the new entry, which makes it valid and open to user mode, and
then sets the flags that the source's entry has. No flag is ever cleared, so the copy of an entry
that is not present, or that is the kernel's alone, is present and open to all.

A *guest* is a marked frame that the kernel does not hold: a private frame of some directory. Its
bytes stay the same for as long as it is one.
-/

namespace OsImplement.Memory

open Lib.Loop

lemma PageStruct.raised_eq {s : PageStruct} {f : ℕ} (hv : s.valid = true) (hu : s.user = true) :
    { s with valid := true, user := true, frame := f } = { s with frame := f } := by
  cases s
  simp_all

namespace Kernel

/-! ### Frames and their bytes -/

/-- Frame `g` has in `k'` the bytes that frame `f` had in `k`. -/
def SameBytes (k : Kernel) (f : ℕ) (k' : Kernel) (g : ℕ) : Prop :=
  ∀ x < 0x1000, k'.phys (g * 0x1000 + x) = k.phys (f * 0x1000 + x)

/-- A marked frame that the kernel's tables do not hold. -/
def Guest (k : Kernel) (f : ℕ) : Prop := f ≠ 0 ∧ Used k.map f ∧ ¬ k.KernelFrame f

/-- From `k` to `k'` guests stay guests and keep their bytes. -/
def Steady (k k' : Kernel) : Prop := ∀ f, k.Guest f → k'.Guest f ∧ SameBytes k f k' f

lemma SameBytes.trans {k k' k'' : Kernel} {f g h : ℕ} (h₁ : SameBytes k f k' g)
    (h₂ : SameBytes k' g k'' h) : SameBytes k f k'' h :=
  fun x hx => (h₂ x hx).trans (h₁ x hx)

lemma Steady.refl (k : Kernel) : Steady k k := fun _ hf => ⟨hf, fun _ _ => rfl⟩

lemma Steady.trans {k k' k'' : Kernel} (h : Steady k k') (h' : Steady k' k'') : Steady k k'' := by
  intro f hf
  obtain ⟨hg, hb⟩ := h f hf
  obtain ⟨hg', hb'⟩ := h' f hg
  exact ⟨hg', hb.trans hb'⟩

/-- `_malloc_ap` writes to memory of the kernel: the bytes of guests stay. -/
def KeepsGuests (mallocAp : MallocAp) : Prop :=
  ∀ {size k p phy k'}, mallocAp size k = some (p, phy, k') →
    ∀ f, k.Guest f → SameBytes k f k' f

/-- What `clone_table` makes of an entry `s` with a frame: valid and open to user mode whatever `s`
says, its other flags those of `s`, and the bytes in another frame. -/
structure EntryCloned (k k' : Kernel) (s p : PageStruct) : Prop where
  flags : p = { s with valid := true, user := true, frame := p.frame }
  other : p.frame ≠ s.frame
  bytes : SameBytes k s.frame k' p.frame

/-! ### One table -/

section Table

variable {src table i n : ℕ} {k : Kernel}

lemma cloneEntry_copy (hsize : 8 * k.map.framesBitmapSize ≤ 2 ^ 20) (hne : src ≠ table)
    (h0 : k.tables table i = .zero) (hs : (k.tables src i).frame ≠ 0)
    (hc : (cloneEntry src table k i).console = k.console) :
    ¬ Used k.map (firstFrame k.map) ∧
      (cloneEntry src table k i).map = setFrame (firstFrame k.map * 0x1000) k.map ∧
      (cloneEntry src table k i).tables table i =
        { k.tables src i with valid := true, user := true, frame := firstFrame k.map } ∧
      (cloneEntry src table k i).phys = fun x =>
        if firstFrame k.map * 0x1000 ≤ x ∧ x < firstFrame k.map * 0x1000 + 0x1000 then
          k.phys ((k.tables src i).frame * 0x1000 + (x - firstFrame k.map * 0x1000))
        else k.phys x := by
  have hc' : (k.allocFrame (some ⟨table, i⟩) false false).console = k.console := by
    rwa [cloneEntry, if_neg hs] at hc
  obtain ⟨hnew, -, hmap, hpage⟩ := allocFrame_spec (r := ⟨table, i⟩) hsize (by rw [h0]; rfl) hc'
  have hsrc : (k.allocFrame (some ⟨table, i⟩) false false).tables src i = k.tables src i :=
    tables_allocFrame_ne fun h => hne h.1
  simp only [h0] at hpage
  refine ⟨hnew, ?_, ?_, ?_⟩
  · rw [cloneEntry, if_neg hs]
    exact hmap
  · simp [cloneEntry, if_neg hs, copyPagePhy, setPage, hpage, hsrc, PageStruct.zero]
  · rw [cloneEntry, if_neg hs]
    simp only [copyPagePhy, setPage, hpage, hsrc]
    rfl

lemma sameBytes_of_write {k k' : Kernel} {f g s : ℕ} (hne : f ≠ g)
    (hphys : k'.phys = fun x => if g * 0x1000 ≤ x ∧ x < g * 0x1000 + 0x1000 then
      k.phys (s * 0x1000 + (x - g * 0x1000)) else k.phys x) : SameBytes k f k' f := by
  intro x hx
  rw [hphys]
  exact if_neg (by omega)

/-- The loop of `clone_table` after `n` rounds. -/
structure Copied (src table n : ℕ) (k k' : Kernel) : Prop where
  used : ∀ f, Used k.map f → Used k'.map f ∧ SameBytes k f k' f
  size : k'.map.framesBitmapSize = k.map.framesBitmapSize
  done : ∀ j < n, (k.tables src j).frame ≠ 0 →
    EntryCloned k k' (k.tables src j) (k'.tables table j) ∧
      ¬ Used k.map (k'.tables table j).frame ∧ Used k'.map (k'.tables table j).frame
  rest : ∀ j, n ≤ j ∨ (k.tables src j).frame = 0 → k'.tables table j = .zero

lemma copied_cloneEntries (hsize : 8 * k.map.framesBitmapSize ≤ 2 ^ 20) (hne : src ≠ table)
    (h0 : k.tables table = fun _ => .zero)
    (hmarked : ∀ j < n, (k.tables src j).frame ≠ 0 → Used k.map (k.tables src j).frame)
    (hc : ((List.range n).foldl (cloneEntry src table) k).console = k.console) :
    Copied src table n k ((List.range n).foldl (cloneEntry src table) k) := by
  induction n with
  | zero =>
    exact ⟨fun f hf => ⟨hf, fun _ _ => rfl⟩, rfl, fun j hj => absurd hj (by omega),
      fun j _ => by rw [List.range_zero, List.foldl_nil, h0]⟩
  | succ n ih =>
    rw [List.range_succ, List.foldl_append] at hc ⊢
    simp only [List.foldl_cons, List.foldl_nil] at hc ⊢
    obtain ⟨hc1, hc2⟩ := prefix_squeeze (onlyTable_cloneEntries src table n k).console
      (onlyTable_cloneEntry src table _ n).console hc
    have hp := ih (fun j hj => hmarked j (by omega)) hc1
    have hsrc : ((List.range n).foldl (cloneEntry src table) k).tables src = k.tables src :=
      (onlyTable_cloneEntries src table n k).others src hne
    set kn := (List.range n).foldl (cloneEntry src table) k with hkn
    by_cases hs : (k.tables src n).frame = 0
    · rw [cloneEntry_empty (by rw [hsrc]; exact hs)]
      refine ⟨hp.used, hp.size, fun j hj hf => ?_, fun j hj => ?_⟩
      · exact hp.done j (by grind) hf
      · exact hp.rest j (by grind)
    · obtain ⟨hnew, hmap, hpage, hphys⟩ := cloneEntry_copy (by rw [hp.size]; exact hsize) hne
        (hp.rest n (Or.inl le_rfl)) (by rw [hsrc]; exact hs) hc2
      rw [hsrc] at hpage hphys
      set g := firstFrame kn.map
      have hkeep {f : ℕ} (hf : Used kn.map f) :
          SameBytes kn f (cloneEntry src table kn n) f :=
        sameBytes_of_write (show f ≠ g from fun e => hnew (e ▸ hf)) hphys
      have hmark {f : ℕ} : Used (cloneEntry src table kn n).map f ↔ f = g ∨ Used kn.map f := by
        rw [hmap, used_setFrame]
      have hother {j : ℕ} (hj : j ≠ n) :
          (cloneEntry src table kn n).tables table j = kn.tables table j := by
        rw [cloneEntry, if_neg (by rw [hsrc]; exact hs)]
        simp only [copyPagePhy, setPage, Function.update_self, Function.update_of_ne hj]
        exact tables_allocFrame_ne fun h => hj h.2
      have hsused := hp.used _ (hmarked n (by omega) hs)
      refine ⟨fun f hf => ?_, ?_, fun j hj hf => ?_, fun j hj => ?_⟩
      · obtain ⟨hu, hb⟩ := hp.used f hf
        exact ⟨hmark.mpr (Or.inr hu), hb.trans (hkeep hu)⟩
      · rw [hmap, size_setFrame, hp.size]
      · by_cases hjn : j = n
        · subst hjn
          rw [hpage]
          refine ⟨⟨rfl, fun e => hnew ?_, ?_⟩, fun hu => hnew (hp.used g hu).1,
            hmark.mpr (Or.inl rfl)⟩
          · rw [show g = (k.tables src j).frame from e]
            exact hsused.1
          · refine SameBytes.trans hsused.2 fun x hx => ?_
            rw [hphys]
            simp only
            rw [if_pos (by omega)]
            congr 1
            omega
        · obtain ⟨hcl, hfree, hu⟩ := hp.done j (by omega) hf
          rw [hother hjn]
          exact ⟨⟨hcl.flags, hcl.other, hcl.bytes.trans (hkeep hu)⟩, hfree,
            hmark.mpr (Or.inr hu)⟩
      · have hjn : j ≠ n := by
          rintro rfl
          rcases hj with hj | hj
          · omega
          · exact hs hj
        rw [hother hjn]
        exact hp.rest j (by rcases hj with hj | hj; exacts [Or.inl (by omega), Or.inr hj])

end Table

/-! ### Guests, step by step -/

section Steps

variable {grows : Prop} {live : Kernel → Set ℕ} {mallocAp : MallocAp} {k k' k₀ : Kernel}
  {ds : List ℕ} {L L' : Set ℕ} {d i src newdir t phy n : ℕ}

lemma Guest.grown {f : ℕ} (hf : k.Guest f) (h : Grown grows L L' k k') : k'.Guest f := by
  obtain ⟨h0, hu, hk⟩ := hf
  refine ⟨h0, h.used f hu, fun hk' => ?_⟩
  rcases h.frames f hk' h0 with hk' | ⟨hnew, -⟩
  · exact hk hk'
  · exact hnew hu

lemma steady_setDir {dir : PageDir} (hd : d ≠ k.vmPageDir) : Steady k (k.setDir d dir) := by
  have hvm (i : ℕ) : (k.setDir d dir).tableOf k.vmPageDir i = k.tableOf k.vmPageDir i := by
    unfold Kernel.tableOf setDir
    simp only [Function.update_of_ne hd.symm]
  intro f hf
  refine ⟨⟨hf.1, hf.2.1, fun hk => hf.2.2 ?_⟩, fun _ _ => rfl⟩
  obtain ⟨i, hi, j, hj, hne, he⟩ := hk
  rw [show (k.setDir d dir).vmPageDir = k.vmPageDir from rfl] at hne he
  rw [hvm] at hne
  rw [Kernel.frameAt, hvm] at he
  exact ⟨i, hi, j, hj, hne, he⟩

lemma Inv.guest {j : ℕ} (hi : k.Inv grows live ds) (hd : d ∈ ds) (hp : k.PrivateSlot d i)
    (hj : j < 1024) (hf : (k.tables (k.tableOf d i) j).frame ≠ 0) :
    k.Guest (k.tables (k.tableOf d i) j).frame :=
  ⟨hf, hi.marked d hd i hp j hj hf, hi.apart d hd i hp j hj hf⟩

/-- What slot `i` of the clone has for the private slot `i` of the source. -/
def SlotCopied (k k' : Kernel) (src newdir i : ℕ) : Prop :=
  ∀ j < 1024,
    ((k.tables (k.tableOf src i) j).frame ≠ 0 →
      EntryCloned k k' (k.tables (k.tableOf src i) j) (k'.tables (k'.tableOf newdir i) j) ∧
        k'.Guest (k'.tables (k'.tableOf newdir i) j).frame) ∧
    ((k.tables (k.tableOf src i) j).frame = 0 → k'.tables (k'.tableOf newdir i) j = .zero)

lemma SlotCopied.steady {k'' : Kernel} (h : SlotCopied k k' src newdir i) (hs : Steady k' k'')
    (ht : k''.tables (k''.tableOf newdir i) = k'.tables (k'.tableOf newdir i)) :
    SlotCopied k k'' src newdir i := by
  intro j hj
  obtain ⟨hf, hz⟩ := h j hj
  rw [ht]
  refine ⟨fun hne => ?_, hz⟩
  obtain ⟨hcl, hg⟩ := hf hne
  obtain ⟨hg', hb⟩ := hs _ hg
  exact ⟨⟨hcl.flags, hcl.other, hcl.bytes.trans hb⟩, hg'⟩

lemma cloneTable_copied (hA : FreshAlloc grows live mallocAp) (hK : KeepsGuests mallocAp)
    (hi : k.Inv grows live ds) (hd : d ∈ ds) (hp : k.PrivateSlot d i)
    (h : cloneTable mallocAp (k.tableOf d i) k = some (t, phy, k'))
    (hc : k'.console = k.console) :
    Steady k k' ∧ ∀ j < 1024,
      ((k.tables (k.tableOf d i) j).frame ≠ 0 →
        EntryCloned k k' (k.tables (k.tableOf d i) j) (k'.tables t j) ∧
          k'.Guest (k'.tables t j).frame) ∧
      ((k.tables (k.tableOf d i) j).frame = 0 → k'.tables t j = .zero) := by
  obtain ⟨hgrown, -, -, -, hlink⟩ := cloneTable_spec hA hi h hc
  obtain ⟨k₁, hm, hk'⟩ := cloneTable_cases h
  have hg := hA.grown hm
  obtain ⟨-, hfresh, -⟩ := hA.fresh hm
  have hne : k.tableOf d i ≠ t := fun e => hfresh.2 (e ▸ hi.tableLive d hd i hp.2.1)
  set k₂ := k₁.setTable t fun _ => .zero with hk₂
  have hsrc : k₂.tables (k.tableOf d i) = k.tables (k.tableOf d i) := by
    have htab := hg.tables_private hi hd hp
    rw [hg.tableOf hp.2.1] at htab
    rw [hk₂, tables_setTable, if_neg hne, htab]
  have ho := onlyTable_cloneEntries (k.tableOf d i) t 1024 k₂
  rw [← hk'] at ho
  have hc2 := (prefix_squeeze hg.console ho.console hc).2
  have hcopy : Copied (k.tableOf d i) t 1024 k₂ k' := by
    rw [hk'] at hc2 ⊢
    refine copied_cloneEntries ?_ hne ?_ (fun j hj hf => ?_) hc2
    · rw [hk₂, map_setTable, hg.size]
      exact hi.size
    · rw [hk₂, tables_setTable, if_pos rfl]
    · rw [hsrc] at hf ⊢
      exact hg.used _ (hi.marked d hd i hp j hj hf)
  -- the bytes of a guest, through the allocator and through the loop
  have hsteady : Steady k k' := by
    intro f hf
    refine ⟨hf.grown hgrown, ?_⟩
    exact SameBytes.trans (hK hm f hf) (hcopy.used f (hg.used f hf.2.1)).2
  refine ⟨hsteady, fun j hj => ⟨fun hf => ?_, fun hf => ?_⟩⟩
  · obtain ⟨hcl, hfree, hu⟩ := hcopy.done j hj (by rw [hsrc]; exact hf)
    rw [hsrc] at hcl
    have hbytes : SameBytes k (k.tables (k.tableOf d i) j).frame k₂
        (k.tables (k.tableOf d i) j).frame := hK hm _ (hi.guest hd hp hj hf)
    have hpf : (k'.tables t j).frame ≠ 0 := fun h0 => hfree (h0 ▸ hg.used 0 hi.zero)
    exact ⟨⟨hcl.flags, hcl.other, hbytes.trans hcl.bytes⟩, hpf, hu, hlink.apart j hj hpf⟩
  · exact hcopy.rest j (Or.inr (by rw [hsrc]; exact hf))

/-! ### One directory -/

lemma Kept.privateSlot (hi : k₀.Inv grows live ds) (hd : d ∈ ds) (h : Kept grows (live k₀) k₀ k) :
    k.PrivateSlot d i ↔ k₀.PrivateSlot d i := by
  unfold PrivateSlot
  rw [h.vm]
  by_cases hdv : d = k₀.vmPageDir
  · simp [hdv]
  · have hslot : k.tableOf d i = k₀.tableOf d i := by
      rcases h.slots d (hi.dirLive d hd) i with hs | ⟨-, hv, -⟩
      · exact hs
      · exact absurd hv hdv
    rw [hslot]
    rcases h.slots _ (hi.dirLive _ hi.vm) i with hs | ⟨-, -, h0, hnew⟩
    · rw [hs]
    · rw [h0]
      refine and_congr_right fun _ => and_congr_right fun hne => iff_of_true ?_ hne
      exact fun e => hnew (e ▸ hi.tableLive d hd i hne)

lemma Kept.tables_private (hi : k₀.Inv grows live ds) (hd : d ∈ ds)
    (h : Kept grows (live k₀) k₀ k) (hp : k₀.PrivateSlot d i) :
    k.tables (k.tableOf d i) = k₀.tables (k₀.tableOf d i) := by
  have hslot : k.tableOf d i = k₀.tableOf d i := by
    rcases h.slots d (hi.dirLive d hd) i with hs | ⟨-, -, h0, -⟩
    · exact hs
    · exact absurd h0 hp.2.1
  rw [hslot]
  funext j
  rcases h.entries _ (hi.tableLive d hd i hp.2.1) j with he | ⟨hg, ⟨i', hi', ht⟩, -⟩
  · exact he
  · exact absurd ht (hi.own hg d hd i hp i' hi')

/-- The copies that the loop of `clone_dir` has made after `n` rounds. -/
structure CopiedBelow (src newdir n : ℕ) (k₀ k : Kernel) : Prop where
  steady : Steady k₀ k
  below : ∀ i < n, k₀.PrivateSlot src i → SlotCopied k₀ k src newdir i

/-- A round that links a table into a slot of the new directory which the source does not have to
itself. -/
lemma CopiedBelow.link (h : CopiedBelow src newdir n k₀ k) (hv : newdir ≠ k.vmPageDir)
    (hn : ¬ k₀.PrivateSlot src n) :
    CopiedBelow src newdir (n + 1) k₀ (k.setSlot newdir n t phy) := by
  have hs : Steady k (k.setSlot newdir n t phy) := steady_setDir hv
  refine ⟨h.steady.trans hs, fun i hi hp => ?_⟩
  have hin : i ≠ n := fun e => hn (e ▸ hp)
  refine (h.below i (by omega) hp).steady hs ?_
  rw [tableOf_setSlot, if_neg fun e => hin e.2, tables_setSlot]

lemma copiedBelow_cloneSlot (hA : FreshAlloc grows live mallocAp) (hK : KeepsGuests mallocAp)
    (hi : k₀.Inv grows live ds) (hs : src ∈ ds) (hnew : newdir ∉ live k₀) (hn : n < 1024)
    (hc : Cloning grows live ds (live k₀) src newdir n k₀ k)
    (hb : CopiedBelow src newdir n k₀ k) (h : cloneSlot mallocAp src newdir k n = some k')
    (hcon : k'.console = k.console) : CopiedBelow src newdir (n + 1) k₀ k' := by
  have hv : newdir ≠ k.vmPageDir := fun e => hnew (e ▸ hc.kept.vm ▸ hi.dirLive _ hi.vm)
  have hpriv {i : ℕ} : k.PrivateSlot src i ↔ k₀.PrivateSlot src i := hc.kept.privateSlot hi hs
  unfold cloneSlot at h
  split at h
  · next h0 =>
    obtain rfl : k = k' := by simpa using h
    refine ⟨hb.steady, fun i hin hp => hb.below i ?_ hp⟩
    have : i ≠ n := fun e => (hpriv.mpr hp).2.1 (e ▸ h0)
    omega
  · next h0 =>
    split at h
    · next hshare =>
      obtain rfl := Option.some.inj h
      exact hb.link hv fun hp => (hpriv.mpr hp).2.2 hshare.symm
    · next hown =>
      have hp : k.PrivateSlot src n := ⟨hn, h0, fun e => hown e.symm⟩
      obtain ⟨⟨t, phy, k₁⟩, hm, h⟩ := Option.bind_eq_some_iff.mp h
      obtain rfl := Option.some.inj h
      obtain ⟨hst, hcopy⟩ := cloneTable_copied hA hK hc.inv (by simp [hs]) hp hm hcon
      obtain ⟨hg, -⟩ := cloneTable_spec hA hc.inv hm hcon
      have hlink : Steady k₁ (k₁.setSlot newdir n t (phy ||| 7)) :=
        steady_setDir (by rw [hg.vm]; exact hv)
      refine ⟨(hb.steady.trans hst).trans hlink, fun i hin hpi => ?_⟩
      by_cases hie : i = n
      · subst hie
        have hself : (k₁.setSlot newdir i t (phy ||| 7)).tableOf newdir i = t := by
          rw [tableOf_setSlot, if_pos ⟨rfl, rfl⟩]
        intro j hj
        obtain ⟨hf, hz⟩ := hcopy j hj
        rw [hc.kept.tables_private hi hs hpi] at hf hz
        rw [hself, tables_setSlot]
        refine ⟨fun hne => ?_, hz⟩
        obtain ⟨hcl, hgu⟩ := hf hne
        have hold := (hb.steady _ (hi.guest hs hpi hj hne)).2
        exact ⟨⟨hcl.flags, hcl.other, hold.trans hcl.bytes⟩, (hlink _ hgu).1⟩
      · have hslot := (hb.below i (by omega) hpi)
        have hps : k.PrivateSlot newdir i := by
          obtain ⟨hne, -, hvm⟩ := (hc.below i (by omega)).fresh (hpriv.mpr hpi).2.1
            (hpriv.mpr hpi).2.2
          exact ⟨hpi.1, hne, fun e => hvm i e.symm⟩
        have htab := hg.tables_private hc.inv (by simp) hps
        refine (hslot.steady hst htab).steady hlink ?_
        rw [tableOf_setSlot, if_neg fun e => hie e.2, tables_setSlot]

theorem cloneDir_copied (hA : FreshAlloc grows live mallocAp) (hK : KeepsGuests mallocAp)
    (hi : k.Inv grows live ds) (hs : src ∈ ds)
    (h : cloneDir mallocAp src k = some (newdir, k')) (hcon : k'.console = k.console)
    (hp : k.PrivateSlot src i) : SlotCopied k k' src newdir i := by
  obtain ⟨phy, k₁, hm, hf⟩ := cloneDir_cases h
  have hg := hA.grown hm
  obtain ⟨-, hfresh, -⟩ := hA.fresh hm
  have hv := hi.dirLive _ hi.vm
  set k₂ := k₁.setDir newdir { PageDir.zero with pageDirPhy := Lib.Word.add32 phy 0x1000 } with hk₂
  have hsteady : Steady k k₂ := by
    refine Steady.trans (fun f hf => ⟨hf.grown hg, hK hm f hf⟩) (steady_setDir ?_)
    rw [hg.vm]
    exact fun e => hfresh.2 (e ▸ hv)
  have hstart : Cloning grows live ds (live k) src newdir 0 k k₂ ∧ CopiedBelow src newdir 0 k k₂ :=
    ⟨cloning_start hA hi hm rfl, hsteady, fun i hi => absurd hi (by omega)⟩
  have hrun := foldlM_range_inv (P := fun n t => k₂.console <+: t.console ∧
      (t.console = k₂.console →
        Cloning grows live ds (live k) src newdir n k t ∧ CopiedBelow src newdir n k t))
    ⟨List.prefix_rfl, fun _ => hstart⟩ (fun n hn t t' hP ht => ?_) hf
  · have hc := (prefix_squeeze hg.console hrun.1 hcon).2
    exact (hrun.2 hc).2.below i hp.1 hp
  · have hct := console_cloneSlot hA ht
    refine ⟨hP.1.trans hct, fun hc => ?_⟩
    obtain ⟨hc1, hc2⟩ := prefix_squeeze hP.1 hct hc
    obtain ⟨hcl, hb⟩ := hP.2 hc1
    exact ⟨cloning_cloneSlot hA hfresh.2 hv hs (hi.dirLive _ hs) hcl ht hc2,
      copiedBelow_cloneSlot hA hK hi hs hfresh.2 hn hcl hb ht hc2⟩

/-! ### The result -/

/-- A faithful clone of the private tables: the flags of every entry with a frame, its bytes in
another frame, and zeros for the entries without one. -/
structure FaithfulClone (k k' : Kernel) (src newdir : ℕ) : Prop where
  flags : ∀ i, k.PrivateSlot src i → ∀ j < 1024, k.frameAt src i j ≠ 0 →
    k'.tables (k'.tableOf newdir i) j =
      { k.tables (k.tableOf src i) j with frame := k'.frameAt newdir i j }
  other : ∀ i, k.PrivateSlot src i → ∀ j < 1024, k.frameAt src i j ≠ 0 →
    k'.frameAt newdir i j ≠ k.frameAt src i j
  bytes : ∀ i, k.PrivateSlot src i → ∀ j < 1024, k.frameAt src i j ≠ 0 →
    SameBytes k (k.frameAt src i j) k' (k'.frameAt newdir i j)
  empty : ∀ i, k.PrivateSlot src i → ∀ j < 1024, k.frameAt src i j = 0 →
    k'.tables (k'.tableOf newdir i) j = .zero

/-- **Faithful clones.** While free frames remain, a clone is faithful exactly when every private
entry of the source that has a frame is valid and open to user mode. -/
theorem cloneDir_faithful_iff (hA : FreshAlloc grows live mallocAp) (hK : KeepsGuests mallocAp)
    (hi : k.Inv grows live ds) (hs : src ∈ ds)
    (h : cloneDir mallocAp src k = some (newdir, k')) (hcon : k'.console = k.console) :
    FaithfulClone k k' src newdir ↔
      ∀ i, k.PrivateSlot src i → ∀ j < 1024, k.frameAt src i j ≠ 0 →
        (k.tables (k.tableOf src i) j).valid = true ∧
          (k.tables (k.tableOf src i) j).user = true := by
  have hcopy {i : ℕ} (hp : k.PrivateSlot src i) : SlotCopied k k' src newdir i :=
    cloneDir_copied hA hK hi hs h hcon hp
  constructor
  · intro hf i hp j hj hne
    have hflags := (((hcopy hp) j hj).1 hne).1.flags
    rw [hf.flags i hp j hj hne] at hflags
    exact ⟨congrArg PageStruct.valid hflags, congrArg PageStruct.user hflags⟩
  · intro hflags
    refine ⟨fun i hp j hj hne => ?_, fun i hp j hj hne => (((hcopy hp) j hj).1 hne).1.other,
      fun i hp j hj hne => (((hcopy hp) j hj).1 hne).1.bytes,
      fun i hp j hj => ((hcopy hp) j hj).2⟩
    have hcl := (((hcopy hp) j hj).1 hne).1.flags
    obtain ⟨hv, hu⟩ := hflags i hp j hj hne
    exact hcl.trans (PageStruct.raised_eq hv hu)

end Steps

/-! ### Two clones -/

lemma keepsGuests_placeAp : KeepsGuests placeAp := by
  intro size k p phy k' h f _ x _
  obtain ⟨-, -, -, rfl⟩ := placeAp_eq h
  rfl

/-- `twoSpaces`, with two flags the same in all entries. -/
def flaggedSpaces (b : Bool) : Kernel :=
  { twoSpaces with tables := fun t j => { twoSpaces.tables t j with valid := b, user := b } }

lemma flaggedSpaces_inv (b : Bool) : (flaggedSpaces b).Inv False placeLive [0x6000, 0x2000] := by
  have h := twoSpaces_inv
  exact ⟨⟨h.distinct, h.marked, h.apart⟩, h.kernelMarked, h.zero, h.size, h.vm, h.dirLive,
    h.tableLive, h.own⟩

lemma flaggedSpaces_frame {b : Bool} {j : ℕ} (hj : j ≠ 0) :
    ((flaggedSpaces b).tables 0x9000 j).frame = 0 := by
  show (if 0x9000 = 0x5000 ∧ j = 0 then 1 else if 0x9000 = 0x9000 ∧ j = 0 then 2 else 0) = 0
  simp [hj]

lemma clone_flaggedSpaces (b : Bool) : ∃ k',
    (flaggedSpaces b).cloneDir placeAp 0x6000 = some (0x10000, k') ∧
      k'.console = (flaggedSpaces b).console := by
  refine cloneDir_task rfl rfl rfl rfl (show 1 ≤ 1024 by decide)
    (fun j hj => flaggedSpaces_frame (by omega)) fun k₁ hmap _ _ hcon => ?_
  have hfree : firstFrame k₁.map ≠ NO_FRAME := by
    rw [hmap]
    show firstFrame twoSpaces.map ≠ NO_FRAME
    decide +kernel
  exact (console_cloneEntry hfree).trans hcon

theorem cloneDir_faithful_present : ∃ k',
    (flaggedSpaces true).cloneDir placeAp 0x6000 = some (0x10000, k') ∧
      FaithfulClone (flaggedSpaces true) k' 0x6000 0x10000 := by
  obtain ⟨k', h, hcon⟩ := clone_flaggedSpaces true
  exact ⟨k', h, (cloneDir_faithful_iff freshAlloc_placeAp keepsGuests_placeAp
    (flaggedSpaces_inv true) (by simp) h hcon).mpr fun _ _ _ _ _ => ⟨rfl, rfl⟩⟩

/-- A page of the task at `0x6000` has frame 2, is not present and not open to user mode; in the
clone it is both. -/
theorem cloneDir_faithful_fails :
    ¬ ∀ (k k' : Kernel) (ds : List ℕ) (src newdir : ℕ), k.Inv False placeLive ds → src ∈ ds →
      cloneDir placeAp src k = some (newdir, k') → k'.console = k.console →
        FaithfulClone k k' src newdir := by
  intro h
  obtain ⟨k', hk', hcon⟩ := clone_flaggedSpaces false
  have hf := h _ k' [0x6000, 0x2000] 0x6000 0x10000 (flaggedSpaces_inv false) (by simp) hk' hcon
  have hp : (flaggedSpaces false).PrivateSlot 0x6000 1 := ⟨by decide, by decide, by decide⟩
  have hne : (flaggedSpaces false).frameAt 0x6000 1 0 ≠ 0 := by decide
  have hcl := ((cloneDir_copied freshAlloc_placeAp keepsGuests_placeAp (flaggedSpaces_inv false)
    (by simp) hk' hcon hp 0 (by decide)).1 hne).1.flags
  rw [hf.flags 1 hp 0 (by decide) hne] at hcl
  exact Bool.false_ne_true (congrArg PageStruct.valid hcl)

end Kernel

end OsImplement.Memory
