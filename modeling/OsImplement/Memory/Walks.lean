import OsImplement.Memory.Copies

/-!
The two walks through a directory (`page.c`, `page.h`).

A directory has two arrays. `page_table` holds the pointers that `get_page` follows, and
`page_table_phy` the entries that the processor follows. They are filled in three places: by
`get_page` with `make`, and by the two branches of `clone_dir`. `Mirrored` says that the arrays name
the same tables, and no table twice; each of the three places keeps it, and with it both walks end
at the same entry.
-/

namespace OsImplement.Memory

open Lib.Step Lib.Loop Lib.Word

/-! ### Physical addresses -/

/-- The physical address of kernel memory, when page `q` lies in frame `frameOf q`. -/
def physOf (frameOf : ℕ → ℕ) (a : ℕ) : ℕ := frameOf (a / 0x1000) * 0x1000 + a % 0x1000

/-- `&table->pages[idx]` -/
def PageRef.addr (r : PageRef) : ℕ := r.table + 4 * r.idx

section Phys

variable {frameOf : ℕ → ℕ} {t j : ℕ}

lemma physOf_aligned (h : t % 0x1000 = 0) : physOf frameOf t % 0x1000 = 0 := by
  unfold physOf
  omega

/-- A table lies in one page, so its entries follow one another in physical memory too. -/
lemma physOf_entry (h : t % 0x1000 = 0) (hj : j < 1024) :
    physOf frameOf (t + 4 * j) = physOf frameOf t + 4 * j := by
  have hpage : (t + 4 * j) / 0x1000 = t / 0x1000 := by omega
  unfold physOf
  rw [hpage]
  omega

end Phys

namespace Kernel

/-- The physical address of the entry that the processor reads for `addr`: the top ten bits choose
the entry of the directory, the next ten the entry of the table that it names. -/
def walkEntry (k : Kernel) (dir addr : ℕ) : Option ℕ :=
  let pde := (k.dirs dir).pageTablePhy (addr / 0x400000)
  if pde &&& 1 = 0 then none
  else some ((pde &&& 0xFFFFF000) + 4 * (addr / 0x1000 % 1024))

/-! ### Directories whose arrays agree -/

/-- Slot `i` names its table twice: by its address, and by its physical address and three flags. -/
structure TrueSlot (frameOf : ℕ → ℕ) (k : Kernel) (d i : ℕ) : Prop where
  aligned : k.tableOf d i % 0x1000 = 0
  word : physOf frameOf (k.tableOf d i) < 2 ^ 32
  phy : (k.dirs d).pageTablePhy i = physOf frameOf (k.tableOf d i) ||| 7

/-- The arrays of directory `d` agree, and no table stands at two indexes. -/
structure Mirrored (frameOf : ℕ → ℕ) (k : Kernel) (d : ℕ) : Prop where
  empty : ∀ i < 1024, k.tableOf d i = 0 → (k.dirs d).pageTablePhy i = 0
  full : ∀ i < 1024, k.tableOf d i ≠ 0 → TrueSlot frameOf k d i
  inj : ∀ i < 1024, ∀ i' < 1024, k.tableOf d i ≠ 0 → k.tableOf d i = k.tableOf d i' → i = i'

/-- `_malloc_ap` returns page-aligned memory with its true physical address. The tables that it adds
to `vm_page_dir` on the way are such memory too, each for one index. -/
structure TrueAlloc (frameOf : ℕ → ℕ) (mallocAp : MallocAp) : Prop where
  memory : ∀ {size k p phy k'}, mallocAp size k = some (p, phy, k') →
    p % 0x1000 = 0 ∧ phy = physOf frameOf p ∧ phy < 2 ^ 32
  slots : ∀ {size k p phy k'}, mallocAp size k = some (p, phy, k') → ∀ i < 1024,
    k'.tableOf k.vmPageDir i = k.tableOf k.vmPageDir i ∧
        (k'.dirs k.vmPageDir).pageTablePhy i = (k.dirs k.vmPageDir).pageTablePhy i ∨
      k.tableOf k.vmPageDir i = 0 ∧ k'.tableOf k.vmPageDir i ≠ 0 ∧
        TrueSlot frameOf k' k.vmPageDir i ∧
        ∀ i' < 1024, k'.tableOf k.vmPageDir i' = k'.tableOf k.vmPageDir i → i' = i

section Mirrored

variable {frameOf : ℕ → ℕ} {grows : Prop} {live : Kernel → Set ℕ} {mallocAp : MallocAp}
  {k k' : Kernel} {size p phy d d' i i' t addr a b : ℕ} {r : PageRef}

lemma TrueSlot.congr (h : TrueSlot frameOf k d i) (ht : k'.tableOf d i = k.tableOf d i)
    (hp : (k'.dirs d).pageTablePhy i = (k.dirs d).pageTablePhy i) : TrueSlot frameOf k' d i :=
  ⟨by rw [ht]; exact h.aligned, by rw [ht]; exact h.word, by rw [hp, ht]; exact h.phy⟩

lemma Mirrored.congr (h : Mirrored frameOf k d) (hd : k'.dirs d = k.dirs d) :
    Mirrored frameOf k' d := by
  have ht (i : ℕ) : k'.tableOf d i = k.tableOf d i := by rw [Kernel.tableOf, hd, Kernel.tableOf]
  refine ⟨fun i hi h0 => ?_, fun i hi hne => ?_, fun i hi i' hi' hne he => ?_⟩
  · rw [hd]
    exact h.empty i hi (by rwa [← ht])
  · exact (h.full i hi (by rwa [← ht])).congr (ht i) (by rw [hd])
  · rw [ht] at hne
    rw [ht, ht] at he
    exact h.inj i hi i' hi' hne he

lemma Mirrored.malloc (hA : FreshAlloc grows live mallocAp) (hT : TrueAlloc frameOf mallocAp)
    (h : Mirrored frameOf k d) (hm : mallocAp size k = some (p, phy, k')) :
    Mirrored frameOf k' d := by
  by_cases hd : d = k.vmPageDir
  · subst hd
    refine ⟨fun i hi h0 => ?_, fun i hi hne => ?_, fun i hi i' hi' hne he => ?_⟩
    · rcases hT.slots hm i hi with ⟨ht, hp⟩ | ⟨-, hne, -⟩
      · rw [hp]
        exact h.empty i hi (by rwa [← ht])
      · exact absurd h0 hne
    · rcases hT.slots hm i hi with ⟨ht, hp⟩ | ⟨-, -, htrue, -⟩
      · exact (h.full i hi (by rwa [← ht])).congr ht hp
      · exact htrue
    · rcases hT.slots hm i' hi' with ⟨ht', -⟩ | ⟨-, -, -, honly⟩
      · rcases hT.slots hm i hi with ⟨ht, -⟩ | ⟨-, -, -, honly⟩
        · rw [ht] at hne
          rw [ht, ht'] at he
          exact h.inj i hi i' hi' hne he
        · exact (honly i' hi' he.symm).symm
      · exact honly i hi he
  · exact h.congr ((hA.grown hm).dirs d hd)

lemma pageTablePhy_setSlot : ((k.setSlot d i t phy).dirs d').pageTablePhy i' =
    if d' = d ∧ i' = i then phy else (k.dirs d').pageTablePhy i' := by
  unfold setSlot setDir
  by_cases hd : d' = d
  · subst hd
    by_cases hi : i' = i
    · subst hi
      simp
    · simp [hi]
  · simp [hd]

lemma Mirrored.setSlot (h : Mirrored frameOf k d) (hal : t % 0x1000 = 0)
    (hw : physOf frameOf t < 2 ^ 32) (hphy : phy = physOf frameOf t ||| 7) (ht : t ≠ 0)
    (hother : ∀ i' < 1024, i' ≠ i → k.tableOf d i' ≠ t) :
    Mirrored frameOf (k.setSlot d i t phy) d := by
  have hold {i' : ℕ} (hi : i' ≠ i) : (k.setSlot d i t phy).tableOf d i' = k.tableOf d i' ∧
      ((k.setSlot d i t phy).dirs d).pageTablePhy i' = (k.dirs d).pageTablePhy i' := by
    rw [tableOf_setSlot, pageTablePhy_setSlot, if_neg (fun e => hi e.2), if_neg (fun e => hi e.2)]
    exact ⟨rfl, rfl⟩
  have hself : (k.setSlot d i t phy).tableOf d i = t := by
    rw [tableOf_setSlot, if_pos ⟨rfl, rfl⟩]
  refine ⟨fun i' hi' h0 => ?_, fun i' hi' hne => ?_, fun i₁ h₁ i₂ h₂ hne he => ?_⟩
  · by_cases hi : i' = i
    · exact absurd (hself.symm.trans (hi ▸ h0)) ht
    · rw [(hold hi).2]
      exact h.empty i' hi' (by rw [← (hold hi).1]; exact h0)
  · by_cases hi : i' = i
    · subst hi
      refine ⟨by rw [hself]; exact hal, by rw [hself]; exact hw, ?_⟩
      rw [hself, pageTablePhy_setSlot, if_pos ⟨rfl, rfl⟩, hphy]
    · exact (h.full i' hi' (by rw [← (hold hi).1]; exact hne)).congr (hold hi).1 (hold hi).2
  · by_cases e₁ : i₁ = i <;> by_cases e₂ : i₂ = i
    · rw [e₁, e₂]
    · rw [e₁, hself, (hold e₂).1] at he
      exact absurd he.symm (hother i₂ h₂ e₂)
    · rw [e₂, hself, (hold e₁).1] at he
      exact absurd he (hother i₁ h₁ e₁)
    · rw [(hold e₁).1] at hne
      rw [(hold e₁).1, (hold e₂).1] at he
      exact h.inj i₁ h₁ i₂ h₂ hne he

/-! ### Both walks -/

lemma lookupPage_eq_some (h : lookupPage addr d k = some r) :
    r = ⟨k.tableOf d (addr / 0x1000 / 1024), addr / 0x1000 % 1024⟩ ∧
      k.tableOf d (addr / 0x1000 / 1024) ≠ 0 := by
  unfold lookupPage at h
  simp only at h
  split at h
  · next hne => exact ⟨(Option.some.inj h).symm, hne⟩
  · exact absurd h (by simp)

lemma lookupPage_table (h : k.tableOf d (addr / 0x1000 / 1024) ≠ 0) :
    lookupPage addr d k = some ⟨k.tableOf d (addr / 0x1000 / 1024), addr / 0x1000 % 1024⟩ := by
  unfold lookupPage
  exact if_pos h

/-- **Both walks end at the same entry.** -/
lemma Mirrored.walkEntry (h : Mirrored frameOf k d) (ha : addr < 2 ^ 32) :
    k.walkEntry d addr = (lookupPage addr d k).map fun r => physOf frameOf r.addr := by
  have hi : addr / 0x1000 / 1024 < 1024 := by omega
  have hdiv : addr / 0x400000 = addr / 0x1000 / 1024 := by omega
  unfold Kernel.walkEntry
  simp only [hdiv]
  by_cases h0 : k.tableOf d (addr / 0x1000 / 1024) = 0
  · rw [h.empty _ hi h0, lookupPage]
    simp [h0]
  · obtain ⟨hal, hw, hphy⟩ := h.full _ hi h0
    have hpa := @physOf_aligned frameOf _ hal
    have hround : (physOf frameOf (k.tableOf d (addr / 0x1000 / 1024)) + 7) / 0x1000 * 0x1000 =
        physOf frameOf (k.tableOf d (addr / 0x1000 / 1024)) := by omega
    rw [lookupPage_table h0, hphy, or_7 hpa, if_neg (by rw [Nat.and_one_is_mod]; omega),
      and_pages (by omega), hround, Option.map_some, PageRef.addr,
      physOf_entry hal (Nat.mod_lt _ (by decide))]

lemma Mirrored.lookupPage_iff (h : Mirrored frameOf k d) (ha : a < 2 ^ 32) (hb : b < 2 ^ 32)
    (hr : lookupPage a d k = some r) :
    lookupPage b d k = some r ↔ a / 0x1000 = b / 0x1000 := by
  obtain ⟨rfl, hne⟩ := lookupPage_eq_some hr
  constructor
  · intro hs
    have he := (lookupPage_eq_some hs).1
    rw [PageRef.mk.injEq] at he
    have hidx := h.inj (a / 0x1000 / 1024) (by omega) (b / 0x1000 / 1024) (by omega) hne he.1
    omega
  · intro hp
    rw [hp] at hne ⊢
    exact lookupPage_table hne

end Mirrored

/-! ### Steps -/

/-- The invariant of runs: what the directories lead to is in use, and their arrays agree. -/
structure Walks (frameOf : ℕ → ℕ) (live : Kernel → Set ℕ) (k : Kernel) (ds : List ℕ) : Prop where
  vmLive : k.vmPageDir ∈ live k
  dirLive : ∀ d ∈ ds, d ∈ live k
  tableLive : ∀ d ∈ ds, ∀ i, k.tableOf d i ≠ 0 → k.tableOf d i ∈ live k
  mirrored : ∀ d ∈ ds, Mirrored frameOf k d

section Steps

variable {frameOf : ℕ → ℕ} {grows : Prop} {live : Kernel → Set ℕ} {mallocAp : MallocAp}
  {k k' : Kernel} {ds : List ℕ} {size p phy d i t addr src newdir n : ℕ} {r : Option PageRef}

lemma Walks.malloc (hA : FreshAlloc grows live mallocAp) (hT : TrueAlloc frameOf mallocAp)
    (h : Walks frameOf live k ds) (hm : mallocAp size k = some (p, phy, k')) :
    Walks frameOf live k' ds := by
  have hg := hA.grown hm
  refine ⟨?_, fun d hd => hg.live (h.dirLive d hd), fun d hd i hne => ?_,
    fun d hd => (h.mirrored d hd).malloc hA hT hm⟩
  · rw [hg.vm]
    exact hg.live h.vmLive
  · by_cases hdv : d = k.vmPageDir
    · subst hdv
      rcases hg.slots i with hs | ⟨-, -, hnew⟩
      · rw [hs] at hne ⊢
        exact hg.live (h.tableLive _ hd i hne)
      · exact hnew.1
    · rw [hg.tableOf_ne hdv] at hne ⊢
      exact hg.live (h.tableLive d hd i hne)

lemma Walks.setSlot (h : Walks frameOf live k ds) (hl : live (k.setSlot d i t phy) = live k)
    (htl : t ∈ live k) (hm : d ∈ ds → Mirrored frameOf (k.setSlot d i t phy) d) :
    Walks frameOf live (k.setSlot d i t phy) ds := by
  refine ⟨by rw [hl]; exact h.vmLive, fun d hd => by rw [hl]; exact h.dirLive d hd,
    fun d' hd' i' hne => ?_, fun d' hd' => ?_⟩
  · rw [hl]
    rw [tableOf_setSlot] at hne ⊢
    split_ifs at hne ⊢
    · exact htl
    · exact h.tableLive d' hd' i' hne
  · by_cases hdd : d' = d
    · subst hdd
      exact hm hd'
    · exact (h.mirrored d' hd').congr (Function.update_of_ne hdd _ _)

lemma Walks.congr (h : Walks frameOf live k ds) (hd : k'.dirs = k.dirs)
    (hv : k'.vmPageDir = k.vmPageDir) (hl : live k' = live k) : Walks frameOf live k' ds := by
  have ht (d i : ℕ) : k'.tableOf d i = k.tableOf d i := by rw [Kernel.tableOf, hd, Kernel.tableOf]
  refine ⟨by rw [hv, hl]; exact h.vmLive, fun d hd => by rw [hl]; exact h.dirLive d hd,
    fun d hd' i hne => ?_, fun d hd' => (h.mirrored d hd').congr (by rw [hd])⟩
  rw [ht] at hne
  rw [hl, ht]
  exact h.tableLive d hd' i hne

lemma Walks.fresh (hA : FreshAlloc grows live mallocAp) (h : Walks frameOf live k ds)
    (hm : mallocAp size k = some (p, phy, k')) (hd : d ∈ ds) (i : ℕ) : k'.tableOf d i ≠ p := by
  obtain ⟨hne, hfresh, hvm⟩ := hA.fresh hm
  intro he
  have hold : k.tableOf d i = p := by
    by_cases hdv : d = k.vmPageDir
    · subst hdv
      exact hvm i he
    · rw [← (hA.grown hm).tableOf_ne hdv]
      exact he
  exact hfresh.2 (hold ▸ h.tableLive d hd i (hold ▸ hne))

lemma Walks.getPage (hA : FreshAlloc grows live mallocAp) (hT : TrueAlloc frameOf mallocAp)
    (h : Walks frameOf live k ds) (hd : d ∈ ds)
    (hg : k.getPage mallocAp addr true d = some (r, k')) : Walks frameOf live k' ds := by
  rcases getPage_cases hg with ⟨-, rfl, -⟩ | ⟨-, table, phy, k₁, hm, rfl, -⟩
  · exact h
  · obtain ⟨hne, hfresh, -⟩ := hA.fresh hm
    obtain ⟨hal, rfl, hw⟩ := hT.memory hm
    have h₁ := h.malloc hA hT hm
    have hl : live (k₁.setSlot d (addr / 0x1000 / 1024) table (physOf frameOf table ||| 7)) =
        live k₁ := hA.records _ _ ⟨rfl, rfl, rfl, rfl⟩
    have hslot := h₁.setSlot hl hfresh.1 fun _ =>
      (h₁.mirrored d hd).setSlot hal hw rfl hne fun i' _ _ => h.fresh hA hm hd i'
    exact hslot.congr rfl rfl (hA.records _ _ ⟨rfl, rfl, rfl, rfl⟩)

/-- **`get_page` changes no translation**: the slots that were in use lead to the same entries, by
both walks, and an entry with a frame is as it was. -/
lemma Walks.getPage_keeps {r' : PageRef} {d' a : ℕ} (hA : FreshAlloc grows live mallocAp)
    (hT : TrueAlloc frameOf mallocAp) (h : Walks frameOf live k ds) (hd' : d' ∈ ds)
    (ha : a < 2 ^ 32) (hg : k.getPage mallocAp addr true d = some (r, k'))
    (hr : lookupPage a d' k = some r') :
    lookupPage a d' k' = some r' ∧ k'.walkEntry d' a = k.walkEntry d' a ∧
      ((k.page (some r')).frame ≠ 0 → k'.page (some r') = k.page (some r')) := by
  rcases getPage_cases hg with ⟨-, rfl, -⟩ | ⟨h0, table, phy, k₁, hm, rfl, -⟩
  · exact ⟨hr, rfl, fun _ => rfl⟩
  · obtain ⟨rfl, hne⟩ := lookupPage_eq_some hr
    have hi : a / 0x1000 / 1024 < 1024 := by omega
    have hgr := hA.grown hm
    have hlive := h.tableLive d' hd' _ hne
    -- the slot of `a` is not the one that gets the table
    have hslot : ¬ (d' = d ∧ a / 0x1000 / 1024 = addr / 0x1000 / 1024) := by
      rintro ⟨rfl, he⟩
      exact hne (he ▸ h0)
    have htab : ((k₁.setSlot d (addr / 0x1000 / 1024) table (phy ||| 7)).setTable table
        fun _ => .zero).tableOf d' (a / 0x1000 / 1024) = k.tableOf d' (a / 0x1000 / 1024) := by
      rw [show ∀ K : Kernel, (K.setTable table fun _ => .zero).tableOf d' (a / 0x1000 / 1024) =
        K.tableOf d' (a / 0x1000 / 1024) from fun _ => rfl, tableOf_setSlot, if_neg hslot,
        hgr.tableOf hne]
    have hphy : (k₁.dirs d').pageTablePhy (a / 0x1000 / 1024) =
        (k.dirs d').pageTablePhy (a / 0x1000 / 1024) := by
      by_cases hdv : d' = k.vmPageDir
      · subst hdv
        rcases hT.slots hm _ hi with ⟨-, hp⟩ | ⟨hz, -⟩
        · exact hp
        · exact absurd hz hne
      · rw [hgr.dirs d' hdv]
    refine ⟨?_, ?_, fun hf => ?_⟩
    · rw [← htab] at hne ⊢
      exact lookupPage_table hne
    · have hdiv : a / 0x400000 = a / 0x1000 / 1024 := by omega
      unfold walkEntry
      rw [hdiv, dirs_setTable, pageTablePhy_setSlot, if_neg hslot, hphy]
    · have hnt : k.tableOf d' (a / 0x1000 / 1024) ≠ table := fun e =>
        (hA.fresh hm).2.1.2 (e ▸ hlive)
      simp only [page, tables_setTable, if_neg hnt, tables_setSlot]
      exact (hgr.entries _ hlive _).resolve_right fun he => hf he.2

/-- The loop of `clone_dir` after `n` rounds. A table of the new directory is the source's at the
same index, or none of the source's. -/
structure CloningWalks (frameOf : ℕ → ℕ) (live : Kernel → Set ℕ) (ds : List ℕ) (src newdir n : ℕ)
    (k : Kernel) : Prop where
  walks : Walks frameOf live k (newdir :: ds)
  notVm : newdir ≠ k.vmPageDir
  above : ∀ i, n ≤ i → k.tableOf newdir i = 0
  below : ∀ i < n, k.tableOf newdir i ≠ 0 →
    k.tableOf newdir i = k.tableOf src i ∨ ∀ i' < 1024, k.tableOf src i' ≠ k.tableOf newdir i

lemma cloningWalks_cloneSlot (hA : FreshAlloc grows live mallocAp)
    (hT : TrueAlloc frameOf mallocAp) (hs : src ∈ ds) (hne : src ≠ newdir) (hn : n < 1024)
    (hc : CloningWalks frameOf live ds src newdir n k)
    (h : cloneSlot mallocAp src newdir k n = some k') :
    CloningWalks frameOf live ds src newdir (n + 1) k' := by
  have hsrc := hc.walks.mirrored src (by simp [hs])
  have hnew := hc.walks.mirrored newdir (by simp)
  unfold cloneSlot at h
  split at h
  · next h0 =>
    obtain rfl : k = k' := by simpa using h
    refine ⟨hc.walks, hc.notVm, fun i hi => hc.above i (by omega), fun i hi hne' => ?_⟩
    by_cases hin : i = n
    · exact absurd (hc.above i (by omega)) hne'
    · exact hc.below i (by omega) hne'
  · next h0 =>
    split at h
    · -- the table is shared: both arrays get what the source has
      obtain rfl := Option.some.inj h
      have htl := hc.walks.tableLive src (by simp [hs]) n h0
      obtain ⟨hal, hw, hphy⟩ := hsrc.full n hn h0
      have hother : ∀ i' < 1024, i' ≠ n → k.tableOf newdir i' ≠ k.tableOf src n := by
        intro i' hi' hin he
        have hz : k.tableOf newdir i' ≠ 0 := he ▸ h0
        have hlt : i' < n := by
          by_contra hge
          exact hz (hc.above i' (by omega))
        rcases hc.below i' hlt hz with hb | hb
        · exact hin (hsrc.inj i' hi' n hn (hb ▸ hz) (hb ▸ he))
        · exact hb n hn he.symm
      have hl := hA.records k (k.setSlot newdir n (k.tableOf src n) ((k.dirs src).pageTablePhy n))
        ⟨rfl, rfl, rfl, rfl⟩
      have htab (d i : ℕ) (hd : ¬ (d = newdir ∧ i = n)) :
          (k.setSlot newdir n (k.tableOf src n) ((k.dirs src).pageTablePhy n)).tableOf d i =
            k.tableOf d i := by rw [tableOf_setSlot, if_neg hd]
      refine ⟨hc.walks.setSlot hl htl fun _ => hnew.setSlot hal hw hphy h0 hother, hc.notVm,
        fun i hi => ?_, fun i hi hz => ?_⟩
      · rw [htab _ _ (by omega)]
        exact hc.above i (by omega)
      · by_cases hin : i = n
        · subst hin
          rw [tableOf_setSlot, if_pos ⟨rfl, rfl⟩, htab src i fun e => hne e.1]
          exact Or.inl rfl
        · rw [htab _ _ fun e => hin e.2] at hz ⊢
          simp only [htab src _ fun e => hne e.1]
          exact hc.below i (by omega) hz
    · -- the table is cloned into fresh memory
      obtain ⟨⟨t, phy, k₂⟩, hclone, h⟩ := Option.bind_eq_some_iff.mp h
      obtain rfl := Option.some.inj h
      obtain ⟨k₁, hm, hk₂⟩ := cloneTable_cases hclone
      have ho := onlyTable_cloneEntries (k.tableOf src n) t 1024 (k₁.setTable t fun _ => .zero)
      rw [← hk₂] at ho
      obtain ⟨ht0, hfresh, -⟩ := hA.fresh hm
      obtain ⟨hal, rfl, hw⟩ := hT.memory hm
      have hg := hA.grown hm
      have hfr {d : ℕ} (hd : d ∈ newdir :: ds) := hc.walks.fresh hA hm hd
      have hw₁ := hc.walks.malloc hA hT hm
      have hl₂ : live k₂ = live k₁ := hA.records _ _ ho.records
      have htab₂ (d i : ℕ) : k₂.tableOf d i = k₁.tableOf d i := by
        rw [Kernel.tableOf, ho.dirs]
        rfl
      have hw₂ : Walks frameOf live k₂ (newdir :: ds) := hw₁.congr ho.dirs ho.vm hl₂
      have hnv₂ : newdir ≠ k₂.vmPageDir := by
        rw [ho.vm, vmPageDir_setTable, hg.vm]
        exact hc.notVm
      have hnew₁ (i : ℕ) : k₁.tableOf newdir i = k.tableOf newdir i := hg.tableOf_ne hc.notVm
      have hl := hA.records k₂ (k₂.setSlot newdir n t (physOf frameOf t ||| 7))
        ⟨rfl, rfl, rfl, rfl⟩
      have htab (d i : ℕ) (hd : ¬ (d = newdir ∧ i = n)) :
          (k₂.setSlot newdir n t (physOf frameOf t ||| 7)).tableOf d i = k₁.tableOf d i := by
        rw [tableOf_setSlot, if_neg hd, htab₂]
      refine ⟨hw₂.setSlot hl (hl₂ ▸ hfresh.1) fun _ =>
        (hw₂.mirrored newdir (by simp)).setSlot hal hw rfl ht0 fun i' _ _ => ?_, hnv₂,
        fun i hi => ?_, fun i hi hz => ?_⟩
      · rw [htab₂]
        exact hfr (by simp) i'
      · rw [htab _ _ (by omega), hnew₁]
        exact hc.above i (by omega)
      · have hsame (i' : ℕ) : (k₂.setSlot newdir n t (physOf frameOf t ||| 7)).tableOf src i' =
            k₁.tableOf src i' := htab src i' fun e => hne e.1
        by_cases hin : i = n
        · subst hin
          right
          intro i' _
          rw [hsame, tableOf_setSlot, if_pos ⟨rfl, rfl⟩]
          exact hfr (by simp [hs]) i'
        · rw [htab _ _ fun e => hin e.2, hnew₁] at hz ⊢
          have hlz := hc.walks.tableLive newdir (by simp) i hz
          rcases hc.below i (by omega) hz with hb | hb
          · left
            rw [hsame, hg.tableOf (hb ▸ hz)]
            exact hb
          · right
            intro i' hi'
            rw [hsame]
            by_cases hsv : src = k.vmPageDir
            · subst hsv
              rcases hg.slots i' with hsl | ⟨-, -, hout⟩
              · rw [hsl]
                exact hb i' hi'
              · exact fun e => hout.2 (e ▸ hlz)
            · rw [hg.tableOf_ne hsv]
              exact hb i' hi'

lemma mirrored_zero (ht : ∀ i, k.tableOf d i = 0) (hp : ∀ i, (k.dirs d).pageTablePhy i = 0) :
    Mirrored frameOf k d :=
  ⟨fun i _ _ => hp i, fun i _ hne => absurd (ht i) hne, fun i _ _ _ hne => absurd (ht i) hne⟩

lemma Walks.cloneDir (hA : FreshAlloc grows live mallocAp) (hT : TrueAlloc frameOf mallocAp)
    (h : Walks frameOf live k ds) (hs : src ∈ ds)
    (hc : k.cloneDir mallocAp src = some (newdir, k')) :
    Walks frameOf live k' (newdir :: ds) := by
  obtain ⟨phy, k₁, hm, hf⟩ := cloneDir_cases hc
  obtain ⟨-, hfresh, -⟩ := hA.fresh hm
  have hg := hA.grown hm
  have hne : src ≠ newdir := fun e => hfresh.2 (e ▸ h.dirLive src hs)
  have hw₁ := h.malloc hA hT hm
  set dir : PageDir := { PageDir.zero with pageDirPhy := add32 phy 0x1000 } with hdir
  set k₂ := k₁.setDir newdir dir with hk₂
  have hl : live k₂ = live k₁ := hA.records _ _ ⟨rfl, rfl, rfl, rfl⟩
  have hself : k₂.dirs newdir = dir := Function.update_self _ _ _
  have hzero (i : ℕ) : k₂.tableOf newdir i = 0 := by
    rw [Kernel.tableOf, hself]
    rfl
  have hold {d : ℕ} (hd : d ∈ ds) : k₂.dirs d = k₁.dirs d :=
    Function.update_of_ne (show d ≠ newdir from fun e => hfresh.2 (e ▸ h.dirLive d hd)) _ _
  have hstart : CloningWalks frameOf live ds src newdir 0 k₂ := by
    refine ⟨⟨?_, fun d hd => ?_, fun d hd i hz => ?_, fun d hd => ?_⟩, ?_, fun i _ => hzero i,
      fun i hi => absurd hi (by omega)⟩
    · rw [hl]
      exact hw₁.vmLive
    · rw [hl]
      rcases List.mem_cons.mp hd with rfl | hd
      · exact hfresh.1
      · exact hw₁.dirLive d hd
    · rcases List.mem_cons.mp hd with rfl | hd
      · exact absurd (hzero i) hz
      · rw [Kernel.tableOf, hold hd] at hz ⊢
        rw [hl]
        exact hw₁.tableLive d hd i hz
    · rcases List.mem_cons.mp hd with rfl | hd
      · exact mirrored_zero hzero fun i => by rw [hself]; rfl
      · exact (hw₁.mirrored d hd).congr (hold hd)
    · show newdir ≠ k₁.vmPageDir
      rw [hg.vm]
      exact fun e => hfresh.2 (e ▸ h.vmLive)
  refine (foldlM_range_inv hstart (fun n hn t t' ht hstep => ?_) hf).walks
  exact cloningWalks_cloneSlot hA hT hs hne hn ht hstep

end Steps

end Kernel

/-! ### Runs -/

inductive WalkOp where
  | make (addr dir : ℕ)
  | clone (src newdir : ℕ)

/-- One call on the directories made so far: `get_page` with `make`, or `clone_dir`. -/
inductive WalkStep (mallocAp : MallocAp) : Spaces → WalkOp → Spaces → Prop
  | make {k k' : Kernel} {ds : List ℕ} {addr d : ℕ} {r : Option PageRef} (hd : d ∈ ds)
      (ha : addr < 2 ^ 32) (h : k.getPage mallocAp addr true d = some (r, k')) :
      WalkStep mallocAp ⟨k, ds⟩ (.make addr d) ⟨k', ds⟩
  | clone {k k' : Kernel} {ds : List ℕ} {src newdir : ℕ} (hs : src ∈ ds)
      (h : k.cloneDir mallocAp src = some (newdir, k')) :
      WalkStep mallocAp ⟨k, ds⟩ (.clone src newdir) ⟨k', newdir :: ds⟩

section Runs

variable {frameOf : ℕ → ℕ} {grows : Prop} {live : Kernel → Set ℕ} {mallocAp : MallocAp}
  {k₀ : Kernel} {d₀ : ℕ} {s s' : Spaces} {o : WalkOp}

lemma WalkStep.walks (hA : Kernel.FreshAlloc grows live mallocAp)
    (hT : Kernel.TrueAlloc frameOf mallocAp) (h : s.kernel.Walks frameOf live s.dirs)
    (hs : WalkStep mallocAp s o s') : s'.kernel.Walks frameOf live s'.dirs := by
  cases hs with
  | make hd _ hg => exact h.getPage hA hT hd hg
  | clone hs hc => exact h.cloneDir hA hT hs hc

/-- **The walks agree.** In every run from a zeroed directory, and for every directory that exists
then: a slot of `page_table` is NULL exactly when that of `page_table_phy` is 0, which else is the
physical address of the table with flags 7; for every address `get_page` returns the entry that the
processor reaches; two addresses share an entry exactly when they lie in one page; and a further
`get_page` with `make` changes no translation of any directory. -/
theorem walks_agree (hA : Kernel.FreshAlloc grows live mallocAp)
    (hT : Kernel.TrueAlloc frameOf mallocAp) (hvm : k₀.vmPageDir ∈ live k₀) (hd₀ : d₀ ∈ live k₀)
    (hzero : ∀ i, (k₀.dirs d₀).pageTable i = 0 ∧ (k₀.dirs d₀).pageTablePhy i = 0)
    {os : List WalkOp} (hr : Run (WalkStep mallocAp) ⟨k₀, [d₀]⟩ os s) :
    (∀ d ∈ s.dirs,
      (∀ i < 1024, (s.kernel.tableOf d i = 0 ↔ (s.kernel.dirs d).pageTablePhy i = 0) ∧
        (s.kernel.tableOf d i ≠ 0 → physOf frameOf (s.kernel.tableOf d i) % 0x1000 = 0 ∧
          (s.kernel.dirs d).pageTablePhy i =
            physOf frameOf (s.kernel.tableOf d i) ||| 7)) ∧
      (∀ addr < 2 ^ 32, ∃ r, s.kernel.getPage mallocAp addr false d = some (r, s.kernel) ∧
        s.kernel.walkEntry d addr = r.map fun r => physOf frameOf r.addr) ∧
      ∀ a < 2 ^ 32, ∀ b < 2 ^ 32, ∀ r, Kernel.lookupPage a d s.kernel = some r →
        (Kernel.lookupPage b d s.kernel = some r ↔ a / 0x1000 = b / 0x1000)) ∧
    ∀ addr d s', WalkStep mallocAp s (.make addr d) s' →
      ∀ d' ∈ s.dirs, ∀ a < 2 ^ 32, ∀ r, Kernel.lookupPage a d' s.kernel = some r →
        Kernel.lookupPage a d' s'.kernel = some r ∧
        s'.kernel.walkEntry d' a = s.kernel.walkEntry d' a ∧
        ((s.kernel.page (some r)).frame ≠ 0 →
          s'.kernel.page (some r) = s.kernel.page (some r)) := by
  have hstart : k₀.Walks frameOf live [d₀] := by
    refine ⟨hvm, fun d hd => ?_, fun d hd i hne => ?_, fun d hd => ?_⟩
    · rwa [List.mem_singleton.mp hd]
    · exact absurd (List.mem_singleton.mp hd ▸ (hzero i).1) hne
    · rw [List.mem_singleton.mp hd]
      exact Kernel.mirrored_zero (fun i => (hzero i).1) fun i => (hzero i).2
  have hw : s.kernel.Walks frameOf live s.dirs :=
    hr.inv (I := fun _ s => s.kernel.Walks frameOf live s.dirs) hstart
      fun _ _ _ _ h hs => hs.walks hA hT h
  refine ⟨fun d hd => ⟨fun i hi => ⟨⟨fun h0 => ?_, fun h0 => ?_⟩, fun hne => ?_⟩,
    fun addr ha => ?_, fun a ha b hb r hr => ?_⟩, fun addr d s' hs d' hd' a ha r hlook => ?_⟩
  · exact (hw.mirrored d hd).empty i hi h0
  · by_contra hne
    have hslot := (hw.mirrored d hd).full i hi hne
    have hphy := hslot.phy
    rw [h0, or_7 (physOf_aligned hslot.aligned)] at hphy
    omega
  · have hslot := (hw.mirrored d hd).full i hi hne
    exact ⟨physOf_aligned hslot.aligned, hslot.phy⟩
  · refine ⟨Kernel.lookupPage addr d s.kernel, ?_, (hw.mirrored d hd).walkEntry ha⟩
    unfold Kernel.getPage
    cases Kernel.lookupPage addr d s.kernel <;> rfl
  · exact (hw.mirrored d hd).lookupPage_iff ha hb hr
  · cases hs with
    | make _ _ hg => exact hw.getPage_keeps hA hT hd' ha hg hlook

end Runs

/-! ### A run -/

lemma trueAlloc_placeAp : Kernel.TrueAlloc id placeAp where
  memory := by
    intro size k p phy k' h
    unfold placeAp at h
    split at h
    · next hk =>
      rw [Kernel.malloc_place hk.1 hk.2.2.2] at h
      simp only [Option.some.injEq, Prod.mk.injEq] at h
      obtain ⟨rfl, rfl, -⟩ := h
      have hlt : k.place true < k.placementAddress + 0x1000 := Kernel.place_lt
      have hal : k.place true % 0x1000 = 0 := Kernel.place_aligned
      refine ⟨hal, ?_, by omega⟩
      simp only [physOf, id]
      omega
    · exact absurd h (by simp)
  slots := by
    intro size k p phy k' h i _
    obtain ⟨-, -, -, rfl⟩ := placeAp_eq h
    exact Or.inl ⟨rfl, rfl⟩

/-- Zeroed directories. -/
def zeroDirs : Kernel := { twoSpaces with dirs := fun _ => .zero }

theorem walks_agree_two : ∃ (s : Spaces) (r : PageRef),
    Run (WalkStep placeAp) ⟨zeroDirs, [0x6000]⟩
      [.clone 0x6000 0x10000, .make 0xE0001234 0x10000] s ∧
    Kernel.lookupPage 0xE0001234 0x10000 s.kernel = some r ∧
    s.kernel.walkEntry 0x10000 0xE0001234 = some (physOf id r.addr) ∧
    Kernel.lookupPage 0xE0001FFF 0x10000 s.kernel = some r := by
  set k₁ : Kernel := { zeroDirs with placementAddress := 0x12004 } with hk₁
  set k₂ := k₁.setDir 0x10000
    { PageDir.zero with pageDirPhy := add32 0x10000 0x1000 } with hk₂
  have hp : zeroDirs.placementAddress = 0x10000 := rfl
  have hp₂ : k₂.placementAddress = 0x12004 := rfl
  have hm : placeAp 8196 zeroDirs = some (0x10000, 0x10000, k₁) := by
    refine Kernel.placeAp_place rfl (by omega) (by omega) (by omega) ?_
    rw [Kernel.place, hp, if_neg (by decide)]
  have hm₂ : placeAp 4096 k₂ =
      some (0x13000, 0x13000, { k₂ with placementAddress := 0x14000 }) := by
    refine Kernel.placeAp_place rfl (by omega) (by omega) (by omega) ?_
    rw [Kernel.place, hp₂, if_pos (by decide)]
  have hclone : zeroDirs.cloneDir placeAp 0x6000 = some (0x10000, k₂) :=
    Kernel.cloneDir_of_loop hm (Kernel.foldlM_cloneSlot_empty fun i _ => rfl)
  set k₃ := (({ k₂ with placementAddress := 0x14000 } : Kernel).setSlot 0x10000 896 0x13000
    (0x13000 ||| 7)).setTable 0x13000 fun _ => .zero with hk₃
  have hget : k₂.getPage placeAp 0xE0001234 true 0x10000 = some (some ⟨0x13000, 1⟩, k₃) := by
    have hnone : Kernel.lookupPage 0xE0001234 0x10000 k₂ = none := rfl
    unfold Kernel.getPage
    simp only [hnone, if_true, hm₂, Option.bind_eq_bind, Option.bind_some]
    rfl
  have hlook : Kernel.lookupPage 0xE0001234 0x10000 k₃ = some ⟨0x13000, 1⟩ := rfl
  have hrun : Run (WalkStep placeAp) ⟨zeroDirs, [0x6000]⟩
      [.clone 0x6000 0x10000, .make 0xE0001234 0x10000] ⟨k₃, [0x10000, 0x6000]⟩ :=
    (Run.single (.clone (by simp) hclone)).snoc (.make (by simp) (by decide) hget)
  have hvm : zeroDirs.vmPageDir ∈ placeLive zeroDirs := show 0x2000 < 0x10000 by decide
  have hd : 0x6000 ∈ placeLive zeroDirs := show 0x6000 < 0x10000 by decide
  obtain ⟨-, hwalk, hshare⟩ := (walks_agree freshAlloc_placeAp trueAlloc_placeAp hvm hd
    (fun _ => ⟨rfl, rfl⟩) hrun).1 0x10000 (by simp)
  refine ⟨_, ⟨0x13000, 1⟩, hrun, hlook, ?_, ?_⟩
  · obtain ⟨r, hr, hw⟩ := hwalk 0xE0001234 (by decide)
    have hfound : k₃.getPage placeAp 0xE0001234 false 0x10000 =
        some (some ⟨0x13000, 1⟩, k₃) := by
      unfold Kernel.getPage
      rw [hlook]
    rw [hfound, Option.some.injEq, Prod.mk.injEq] at hr
    rw [hw, ← hr.1]
    rfl
  · exact (hshare 0xE0001234 (by decide) 0xE0001FFF (by decide) _ hlook).mpr (by decide)

end OsImplement.Memory
