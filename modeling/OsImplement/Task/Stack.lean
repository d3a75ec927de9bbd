import OsImplement.Memory.Faults

/-!
The move of the stack (`move_stack` in `task.c`).

The words from `esp` up to `initial_esp` are copied to end at `new_stack`, and a scan downwards over
the new stack adds the distance to every word that looks like an address in the old one. Nothing in
the scan knows which words are saved base pointers. That the base pointers come out right is a fact
about all words of the grid that the scan visits.

The pages of the new stack are mapped from `new_stack` downwards, in steps of a page. When `size` is
not a multiple of a page, the step over the last bytes may leave their page out, and the copy or the
scan faults there.
-/

namespace OsImplement.Task

open Lib.Word Lib.Bytes Memory

/-! ### The code -/

/-- The first loop of `move_stack`, from `i` downwards. -/
def mapStack (mallocAp : MallocAp) (newStack size : ℕ) : ℕ → ℕ → Kernel → Option Kernel
  | 0, _, _ => none
  | fuel + 1, i, k =>
    if sub32 newStack size ≤ i then do
      let (page, k) ← k.getPage mallocAp i true k.curVmPageDir
      mapStack mallocAp newStack size fuel (sub32 i 0x1000) (k.allocFrame page false true)
    else some k

/-- What the second loop does to a word. -/
def relocated (oldStackP initialEsp offset tmp : ℕ) : ℕ :=
  if oldStackP < tmp ∧ tmp < initialEsp then add32 tmp offset else tmp

/-- The second loop of `move_stack`, from `i` downwards. -/
def relocate (newStack size oldStackP initialEsp : ℕ) : ℕ → ℕ → Kernel → Option Kernel
  | 0, _, _ => none
  | fuel + 1, i, k =>
    if sub32 newStack size < i then do
      let k ← k.touch i 4
      let tmp := read32 k.mem i
      let k := if oldStackP < tmp ∧ tmp < initialEsp then
        k.write fun m => write32 m i (add32 tmp (sub32 newStack initialEsp)) else k
      relocate newStack size oldStackP initialEsp fuel (sub32 i 4) k
    else some k

/-- `move_stack`, with the registers that it reads: the new `esp` and `ebp`, and the state. A page
that is not mapped ends the copy or the scan. -/
def moveStack (mallocAp : MallocAp) (fuel newStack size initialEsp oldStackP oldBaseP : ℕ)
    (k : Kernel) : Option (ℕ × ℕ × Kernel) := do
  let k ← mapStack mallocAp newStack size fuel newStack k
  let offset := sub32 newStack initialEsp
  let newStackP := add32 oldStackP offset
  let newBaseP := add32 oldBaseP offset
  let count := sub32 initialEsp oldStackP
  let k ← k.touch oldStackP count
  let k ← k.store newStackP count fun m => copy m newStackP oldStackP count
  let k ← relocate newStack size oldStackP initialEsp fuel newStack k
  some (newStackP, newBaseP, k)

/-- The frames found from `ebp` on by following the saved base pointers: the address of each, and
the return address above it. -/
def frames (m : Mem) : ℕ → ℕ → List (ℕ × ℕ)
  | 0, _ => []
  | n + 1, ebp => (ebp, read32 m (add32 ebp 4)) :: frames m n (read32 m ebp)

/-! ### The first loop -/

section MapStack

variable {mallocAp : MallocAp} {newStack size fuel fuel' i : ℕ} {k k₁ k' : Kernel}

/-- The loop ends below its bound, on the page offset it began with. -/
lemma mapStack_offset (h : mapStack mallocAp newStack size fuel i k = some k') :
    i % 0x1000 < sub32 newStack size := by
  induction fuel generalizing i k with
  | zero => cases h
  | succ fuel ih =>
    unfold mapStack at h
    split at h
    · obtain ⟨⟨page, k₁⟩, -, h⟩ := Option.bind_eq_some_iff.mp h
      have hnext := ih h
      have hmod : sub32 i 0x1000 % 0x1000 = i % 0x1000 := by
        unfold sub32
        omega
      rwa [hmod] at hnext
    · omega

lemma mapStack_mono (h : mapStack mallocAp newStack size fuel i k = some k')
    (hle : fuel ≤ fuel') : mapStack mallocAp newStack size fuel' i k = some k' := by
  induction fuel generalizing fuel' i k with
  | zero => cases h
  | succ fuel ih =>
    obtain ⟨fuel', rfl⟩ : ∃ n, fuel' = n + 1 := ⟨fuel' - 1, by omega⟩
    unfold mapStack at h ⊢
    split at h
    · next hi =>
      rw [if_pos hi]
      obtain ⟨⟨page, k₁⟩, hget, h⟩ := Option.bind_eq_some_iff.mp h
      exact Option.bind_eq_some_iff.mpr ⟨_, hget, ih h (by omega)⟩
    · next hi =>
      rw [if_neg hi]
      exact h

lemma getPage_make {S : Set ℕ} {addr dir : ℕ} {page : Option PageRef}
    (hap : ∀ n k r, mallocAp n k = some r → Writes k.mem r.2.2.mem S)
    (h : k.getPage mallocAp addr true dir = some (page, k₁)) :
    (∃ r, page = some r) ∧ Writes k.mem k₁.mem S := by
  rcases Kernel.getPage_cases h with ⟨-, rfl, rfl⟩ | ⟨-, table, phys, k₂, hmalloc, rfl, rfl⟩
  · exact ⟨⟨_, rfl⟩, .refl _ _⟩
  · exact ⟨⟨_, rfl⟩, hap 4096 k _ hmalloc⟩

lemma mapStack_writes {S : Set ℕ}
    (hap : ∀ n k r, mallocAp n k = some r → Writes k.mem r.2.2.mem S)
    (h : mapStack mallocAp newStack size fuel i k = some k') : Writes k.mem k'.mem S := by
  induction fuel generalizing i k with
  | zero => cases h
  | succ fuel ih =>
    unfold mapStack at h
    split at h
    · obtain ⟨⟨page, k₁⟩, hget, h⟩ := Option.bind_eq_some_iff.mp h
      obtain ⟨⟨r, rfl⟩, hw⟩ := getPage_make hap hget
      have hrest : Writes (k₁.allocFrame (some r) false true).mem k'.mem S := ih h
      exact hw.trans hrest
    · obtain rfl := Option.some.inj h
      exact .refl _ _

end MapStack

/-! ### The second loop -/

section Relocate

/-- The words that the scan reads are mapped. -/
def Scanned (newStack size i : ℕ) (k : Kernel) : Prop :=
  ∀ b, sub32 newStack size < b → b ≤ i → b % 4 = i % 4 → k.MappedFrom b 4

variable {newStack size oldStackP initialEsp : ℕ} {k k' : Kernel}

/-- One round of the scan, without its fault. -/
def relocateWord (newStack oldStackP initialEsp i : ℕ) (k : Kernel) : Kernel :=
  if oldStackP < read32 k.mem i ∧ read32 k.mem i < initialEsp then
    k.write fun m => write32 m i (add32 (read32 m i) (sub32 newStack initialEsp)) else k

lemma mappedFrom_relocateWord {i a n : ℕ} :
    (relocateWord newStack oldStackP initialEsp i k).MappedFrom a n ↔ k.MappedFrom a n := by
  unfold relocateWord
  split <;> exact Iff.rfl

lemma relocateWord_words {i b : ℕ} (hi : i < 2 ^ 32) (hb : b < 2 ^ 32) (h4 : b % 4 = i % 4) :
    read32 (relocateWord newStack oldStackP initialEsp i k).mem b =
      if b = i then relocated oldStackP initialEsp (sub32 newStack initialEsp) (read32 k.mem i)
      else read32 k.mem b := by
  unfold relocateWord relocated
  by_cases hbi : b = i
  · subst hbi
    rw [if_pos rfl]
    split
    · exact read32_write32 (add32_lt _ _)
    · rfl
  · rw [if_neg hbi]
    split
    · exact read32_write32_grid hb hi h4 hbi
    · rfl

lemma relocate_round {fuel i : ℕ} (hgo : sub32 newStack size < i) :
    relocate newStack size oldStackP initialEsp (fuel + 1) i k =
      (k.touch i 4).bind fun k => relocate newStack size oldStackP initialEsp fuel (sub32 i 4)
        (relocateWord newStack oldStackP initialEsp i k) := by
  rw [relocate, if_pos hgo]
  rfl

theorem relocate_spec (newStack size oldStackP initialEsp fuel : ℕ) {i : ℕ} (k : Kernel)
    (hi : i < 2 ^ 32) (hlow : i % 4 < sub32 newStack size) (hfuel : i < fuel)
    (hs : Scanned newStack size i k) :
    ∃ k', relocate newStack size oldStackP initialEsp fuel i k = some k' ∧
      ∀ b < 2 ^ 32, b % 4 = i % 4 → read32 k'.mem b =
        if sub32 newStack size < b ∧ b ≤ i then
          relocated oldStackP initialEsp (sub32 newStack initialEsp) (read32 k.mem b)
        else read32 k.mem b := by
  induction fuel generalizing i k with
  | zero => omega
  | succ fuel ih =>
    by_cases hgo : sub32 newStack size < i
    · have hsub : sub32 i 4 = i - 4 := sub32_eq (by omega) hi
      rw [relocate_round hgo, Kernel.touch_eq (hs i hgo le_rfl rfl), Option.bind_some, hsub]
      obtain ⟨k', hk', hwords⟩ := ih (i := i - 4) (relocateWord newStack oldStackP initialEsp i k)
        (by omega) (by omega) (by omega) fun b h1 h2 h4 =>
          mappedFrom_relocateWord.mpr (hs b h1 (by omega) (by omega))
      refine ⟨k', hk', fun b hb h4 => ?_⟩
      rw [hwords b hb (by omega), relocateWord_words hi hb h4]
      by_cases hbi : b = i
      · subst hbi
        rw [if_neg (by omega), if_pos rfl, if_pos ⟨hgo, le_rfl⟩]
      · rw [if_neg hbi]
        by_cases hin : sub32 newStack size < b ∧ b ≤ i
        · rw [if_pos hin, if_pos (by omega)]
        · rw [if_neg hin, if_neg (by omega)]
    · rw [relocate, if_neg hgo]
      refine ⟨k, rfl, fun b _ _ => ?_⟩
      rw [if_neg (by omega)]

lemma relocate_scanned {fuel i : ℕ} (hi : i < 2 ^ 32) (hlow : i % 4 < sub32 newStack size)
    (h : relocate newStack size oldStackP initialEsp fuel i k = some k') :
    Scanned newStack size i k := by
  induction fuel generalizing i k with
  | zero => cases h
  | succ fuel ih =>
    intro b h1 h2 h4
    have hgo : sub32 newStack size < i := by omega
    have hsub : sub32 i 4 = i - 4 := sub32_eq (by omega) hi
    rw [relocate_round hgo, hsub] at h
    obtain ⟨k₁, htouch, hrest⟩ := Option.bind_eq_some_iff.mp h
    obtain ⟨hmap, rfl⟩ := Kernel.touch_some.mp htouch
    by_cases hbi : b = i
    · rw [hbi]
      exact hmap
    · exact mappedFrom_relocateWord.mp (ih (by omega) (by omega) hrest b h1 (by omega) (by omega))

end Relocate

/-! ### The moved stack -/

section MoveStack

variable {mallocAp : MallocAp} {fuel newStack size initialEsp esp ebp : ℕ} {k k₁ : Kernel}

/-- Every word of the old stack, on the grid of its top, is found relocated in the new one. -/
def Moved (m m' : Mem) (esp initialEsp offset : ℕ) : Prop :=
  ∀ a, esp ≤ a → a < initialEsp → a % 4 = initialEsp % 4 →
    read32 m' (add32 a offset) = relocated esp initialEsp offset (read32 m a)

/-- A frame lies in the old stack, on its grid, and returns to code outside it. -/
def InStack (esp initialEsp : ℕ) (f : ℕ × ℕ) : Prop :=
  esp < f.1 ∧ f.1 + 8 ≤ initialEsp ∧ f.1 % 4 = initialEsp % 4 ∧ (f.2 < esp ∨ initialEsp ≤ f.2)

/-- The frames of the old stack are found again in the new one. -/
lemma Moved.frames {m m' : Mem} {offset n : ℕ} (h : Moved m m' esp initialEsp offset)
    (htop : initialEsp < 2 ^ 32) (hin : ∀ f ∈ frames m n ebp, InStack esp initialEsp f) :
    Task.frames m' n (add32 ebp offset) =
      (Task.frames m n ebp).map fun f => (add32 f.1 offset, f.2) := by
  induction n generalizing ebp with
  | zero => rfl
  | succ n ih =>
    unfold Task.frames at hin ⊢
    rw [List.forall_mem_cons] at hin
    obtain ⟨⟨hlo, hhi, h4, hret⟩, hrest⟩ := hin
    have hlo : esp < ebp := hlo
    have hhi : ebp + 8 ≤ initialEsp := hhi
    have h4 : ebp % 4 = initialEsp % 4 := h4
    have hup : add32 ebp 4 = ebp + 4 := add32_eq (by omega)
    have hmoved : add32 (add32 ebp offset) 4 = add32 (ebp + 4) offset := by
      unfold add32
      omega
    -- the return address is a word outside the old stack, and stays
    have hreturn : read32 m' (add32 (add32 ebp offset) 4) = read32 m (add32 ebp 4) := by
      rw [hmoved, h (ebp + 4) (by omega) (by omega) (by omega), hup]
      rw [hup] at hret
      unfold relocated
      exact if_neg (by omega)
    rw [List.map_cons, hreturn]
    congr 1
    cases n with
    | zero => rfl
    | succ n =>
      -- the saved base pointer is the next frame, inside the old stack
      have hnext : InStack esp initialEsp (read32 m ebp, _) := hrest _ List.mem_cons_self
      have hsaved : read32 m' (add32 ebp offset) = add32 (read32 m ebp) offset := by
        rw [h ebp (by omega) (by omega) h4]
        unfold relocated
        exact if_pos ⟨hnext.1, by have := hnext.2.1; simp only at this; omega⟩
      rw [hsaved]
      exact ih hrest

/-- The stack has moved: from some fuel on `move_stack` returns, once its first loop has left `k₁`,
with every word of the old stack relocated in the new one. A chain of saved base pointers is followed
there frame by frame, with the same return addresses. -/
def StackMoved (mallocAp : MallocAp) (newStack size initialEsp esp ebp : ℕ) (k : Kernel) : Prop :=
  ∃ F k₁, ∀ fuel ≥ F, mapStack mallocAp newStack size fuel newStack k = some k₁ ∧ ∃ k',
    moveStack mallocAp fuel newStack size initialEsp esp ebp k =
      some (add32 esp (sub32 newStack initialEsp), add32 ebp (sub32 newStack initialEsp), k') ∧
    Moved k₁.mem k'.mem esp initialEsp (sub32 newStack initialEsp) ∧
    ∀ n e, (∀ f ∈ frames k₁.mem n e, InStack esp initialEsp f) →
      frames k'.mem n (add32 e (sub32 newStack initialEsp)) =
        (frames k₁.mem n e).map fun f => (add32 f.1 (sub32 newStack initialEsp), f.2)

/-- Both stacks are mapped once the first loop is done: the old one, what is copied into the new one,
and the words that are scanned. -/
structure StackMapped (newStack size initialEsp esp : ℕ) (k : Kernel) : Prop where
  old : k.MappedFrom esp (initialEsp - esp)
  copied : k.MappedFrom (newStack - (initialEsp - esp)) (initialEsp - esp)
  scanned : Scanned newStack size newStack k

/-- The first loop ends before it wraps around, the page tables that it asks for can be had, and it
leaves the stacks mapped. -/
structure StackOk (mallocAp : MallocAp) (newStack size initialEsp esp : ℕ) (k : Kernel) : Prop where
  ends : newStack % 0x1000 < newStack - size
  mapped : ∃ fuel k₁, mapStack mallocAp newStack size fuel newStack k = some k₁ ∧
    StackMapped newStack size initialEsp esp k₁

/-- An address of the old stack, moved, lies as far below the top as before. -/
lemma add_offset {a : ℕ} (hnew : newStack < 2 ^ 32) (hle : a ≤ initialEsp)
    (hwrap : initialEsp - a ≤ newStack) :
    add32 a (sub32 newStack initialEsp) = newStack - (initialEsp - a) := by
  unfold add32 sub32
  omega

lemma moveStack_mapped (hmap : mapStack mallocAp newStack size fuel newStack k = some k₁)
    (hinit : initialEsp < 2 ^ 32) (hnew : newStack < 2 ^ 32) (hesp : esp ≤ initialEsp)
    (hwrap : initialEsp - esp ≤ newStack) :
    moveStack mallocAp fuel newStack size initialEsp esp ebp k =
      ((k₁.touch esp (initialEsp - esp)).bind fun k₂ =>
        (k₂.store (newStack - (initialEsp - esp)) (initialEsp - esp) fun m =>
          copy m (newStack - (initialEsp - esp)) esp (initialEsp - esp)).bind fun k₃ =>
            (relocate newStack size esp initialEsp fuel newStack k₃).map fun k' =>
              (newStack - (initialEsp - esp), add32 ebp (sub32 newStack initialEsp), k')) := by
  have hcount : sub32 initialEsp esp = initialEsp - esp := sub32_eq hesp hinit
  have hplace := add_offset hnew hesp hwrap
  unfold moveStack
  rw [hmap]
  simp only [Option.bind_eq_bind, Option.bind_some, hcount, hplace, Option.map_eq_bind]
  rfl

/-- **The stack is moved** when both stacks are mapped. -/
lemma StackOk.moved (h : StackOk mallocAp newStack size initialEsp esp k)
    (hinit : initialEsp < 2 ^ 32) (hnew : newStack < 2 ^ 32) (hesp : esp ≤ initialEsp)
    (hsize : initialEsp - esp < size) (hwrap : size ≤ newStack)
    (hapart : newStack ≤ esp ∨ initialEsp ≤ newStack - (initialEsp - esp)) :
    StackMoved mallocAp newStack size initialEsp esp ebp k := by
  obtain ⟨hoffset, fuel, k₁, hmap, hold, hcopied, hscanned⟩ := h
  have hbound : sub32 newStack size = newStack - size := sub32_eq hwrap hnew
  refine ⟨max fuel (newStack + 1), k₁, fun fuel' hfuel => ?_⟩
  have hmap' : mapStack mallocAp newStack size fuel' newStack k = some k₁ :=
    mapStack_mono hmap (by omega)
  set k₂ := k₁.write fun m => copy m (newStack - (initialEsp - esp)) esp (initialEsp - esp) with hk₂
  obtain ⟨k', hk', hwords⟩ :=
    relocate_spec newStack size esp initialEsp fuel' k₂ hnew (by omega) (by omega) hscanned
  have hmoved : Moved k₁.mem k'.mem esp initialEsp (sub32 newStack initialEsp) := by
    intro a h1 h2 h4
    have hplace := @add_offset newStack initialEsp a hnew h2.le (by omega)
    have hword : read32 k₂.mem (newStack - (initialEsp - a)) = read32 k₁.mem a := by
      have hcopy : read32 (copy k₁.mem (newStack - (initialEsp - esp)) esp (initialEsp - esp))
          (newStack - (initialEsp - esp) + (a - esp)) = read32 k₁.mem (esp + (a - esp)) :=
        read32_copy (by omega) (by omega) (by omega) (by omega)
      rw [← show newStack - (initialEsp - a) = newStack - (initialEsp - esp) + (a - esp) by omega,
        show esp + (a - esp) = a by omega] at hcopy
      exact hcopy
    rw [hplace, hwords _ (by omega) (by omega), hword, if_pos (by omega)]
  refine ⟨hmap', k', ?_, hmoved, fun n e hin => hmoved.frames hinit hin⟩
  rw [moveStack_mapped hmap' hinit hnew hesp (by omega), Kernel.touch_eq hold, Option.bind_some,
    Kernel.store_eq hcopied, Option.bind_some, ← hk₂, hk',
    add_offset hnew hesp (by omega)]
  rfl

lemma StackMoved.ok (h : StackMoved mallocAp newStack size initialEsp esp ebp k)
    (hinit : initialEsp < 2 ^ 32) (hnew : newStack < 2 ^ 32) (hesp : esp ≤ initialEsp)
    (hsize : initialEsp - esp < size) (hwrap : size ≤ newStack) :
    StackOk mallocAp newStack size initialEsp esp k := by
  obtain ⟨F, k₁, h⟩ := h
  obtain ⟨hmap, k', hr, -⟩ := h F le_rfl
  have hbound : sub32 newStack size = newStack - size := sub32_eq hwrap hnew
  have hoffset := mapStack_offset hmap
  rw [moveStack_mapped hmap hinit hnew hesp (by omega)] at hr
  obtain ⟨k₂, h2, hr⟩ := Option.bind_eq_some_iff.mp hr
  obtain ⟨k₃, h3, hr⟩ := Option.bind_eq_some_iff.mp hr
  obtain ⟨k₄, h4, -⟩ := Option.map_eq_some_iff.mp hr
  obtain ⟨hold, rfl⟩ := Kernel.touch_some.mp h2
  obtain ⟨hcopied, rfl⟩ := Kernel.store_some.mp h3
  have hscanned := relocate_scanned hnew (by omega) h4
  exact ⟨by omega, F, k₂, hmap, hold, hcopied, hscanned⟩

lemma stackMoved_iff (hinit : initialEsp < 2 ^ 32) (hnew : newStack < 2 ^ 32)
    (hesp : esp ≤ initialEsp) (hsize : initialEsp - esp < size) (hwrap : size ≤ newStack)
    (hapart : newStack ≤ esp ∨ initialEsp ≤ newStack - (initialEsp - esp)) :
    StackMoved mallocAp newStack size initialEsp esp ebp k ↔
      StackOk mallocAp newStack size initialEsp esp k :=
  ⟨fun h => h.ok hinit hnew hesp hsize hwrap, fun h => h.moved hinit hnew hesp hsize hwrap hapart⟩

/-- The words moved are those before the call, where `_malloc_ap` leaves the old stack alone. -/
theorem moved_before {S : Set ℕ} {m' : Mem} {offset : ℕ}
    (hap : ∀ n k r, mallocAp n k = some r → Writes k.mem r.2.2.mem S)
    (hS : ∀ x, esp ≤ x → x < initialEsp → x ∉ S) (htop : initialEsp < 2 ^ 32)
    (hmap : mapStack mallocAp newStack size fuel newStack k = some k₁) :
    Moved k₁.mem m' esp initialEsp offset ↔ Moved k.mem m' esp initialEsp offset := by
  have hword : ∀ a, esp ≤ a → a < initialEsp → a % 4 = initialEsp % 4 →
      read32 k₁.mem a = read32 k.mem a := by
    intro a h1 h2 h4
    exact (mapStack_writes hap hmap).read32 (by omega) fun x hx hx' => hS x (by omega) (by omega)
  constructor
  · intro h a h1 h2 h4
    rw [h a h1 h2 h4, hword a h1 h2 h4]
  · intro h a h1 h2 h4
    rw [h a h1 h2 h4, hword a h1 h2 h4]

end MoveStack

end OsImplement.Task
