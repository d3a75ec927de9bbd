import OsImplement.Memory.Frames
import OsImplement.Lib.Step

/-!
Who owns a frame.

A run allocates and releases frames through a family of page entries. `Owned` couples the bitmap
with the frame fields: a frame that was free at the start is marked exactly while some entry holds
it, no frame has two holders, and frame 0 stays out of the game. A release breaks it at once:
`free_frame` gives `clear_frame` a frame number where an address is expected, so the bit that is
cleared is the one of frame `k / 4096`, which for every frame of the machine is frame 0.
-/

namespace OsImplement.Memory

open Lib.Step

variable {ι : Type*}

/-! ### Runs over a family of entries -/

/-- The bitmap, the entries, and the frames `alloc_frame` handed out so far. -/
structure Ownership (ι : Type*) where
  map : FrameMap
  entries : ι → PageStruct
  granted : List ℕ

/-- A call on one entry. -/
inductive FrameOp (ι : Type*) where
  | alloc (e : ι) (isKernel isWritable : Bool)
  | free (e : ι)

/-- One call. A frame is handed out when the entry had none. -/
def Ownership.step [DecidableEq ι] (s : Ownership ι) : FrameOp ι → Ownership ι
  | .alloc e isKernel isWritable =>
    let (page, map) := allocFrame (s.entries e) isKernel isWritable s.map
    { map := map
      entries := Function.update s.entries e page
      granted := if (s.entries e).frame = 0 then s.granted ++ [firstFrame s.map] else s.granted }
  | .free e =>
    let (page, map) := freeFrame (s.entries e) s.map
    { s with map := map, entries := Function.update s.entries e page }

/-- **Ownership**, against the bitmap `f₀` of the start. -/
structure Ownership.Owned (f₀ : FrameMap) (s : Ownership ι) : Prop where
  marked : ∀ k, 1 ≤ k → k < 8 * f₀.framesBitmapSize → ¬ Used f₀ k →
    (Used s.map k ↔ ∃ e, (s.entries e).frame = k)
  unique : ∀ e e', (s.entries e).frame = (s.entries e').frame → (s.entries e).frame ≠ 0 → e = e'
  zero : Used s.map 0
  never : 0 ∉ s.granted

/-- At an allocation a frame is free. -/
def Ownership.Supplied (s : Ownership ι) (o : FrameOp ι) : Prop :=
  ∀ e isKernel isWritable, o = .alloc e isKernel isWritable →
    ∃ k < 8 * s.map.framesBitmapSize, ¬ Used s.map k

/-- The call releases no frame: a `free_frame` finds an entry without one. -/
def Ownership.KeepsFrames (s : Ownership ι) (o : FrameOp ι) : Prop :=
  ∀ e, o = .free e → (s.entries e).frame = 0

/-! ### The invariant -/

/-- Ownership, with what it takes to keep it: frames in hand were free at the start, and no mark
is ever lost. -/
structure Ownership.Inv (f₀ : FrameMap) (s : Ownership ι) : Prop extends s.Owned f₀ where
  size : s.map.framesBitmapSize = f₀.framesBitmapSize
  held : ∀ e, (s.entries e).frame ≠ 0 →
    (s.entries e).frame < 8 * f₀.framesBitmapSize ∧ ¬ Used f₀ (s.entries e).frame
  keeps : ∀ k, Used f₀ k → Used s.map k

section Steps

variable {f₀ : FrameMap} {s : Ownership ι}

lemma Ownership.inv_init (h0 : Used f₀ 0) {entries : ι → PageStruct}
    (he : ∀ e, (entries e).frame = 0) : (⟨f₀, entries, []⟩ : Ownership ι).Inv f₀ where
  marked k h1 _ hk := by
    refine ⟨fun h => absurd h hk, ?_⟩
    rintro ⟨e, rfl⟩
    rw [he e] at h1
    omega
  unique e _ _ h := absurd (he e) h
  zero := h0
  never := by simp
  size := rfl
  held e h := absurd (he e) h
  keeps _ h := h

variable [DecidableEq ι]

lemma Ownership.inv_alloc (hsize : 8 * f₀.framesBitmapSize ≤ 2 ^ 20) (hi : s.Inv f₀) {e : ι}
    {isKernel isWritable : Bool} (h0 : (s.entries e).frame = 0)
    (hfree : ∃ k < 8 * s.map.framesBitmapSize, ¬ Used s.map k) :
    (s.step (.alloc e isKernel isWritable)).Inv f₀ := by
  obtain ⟨hlt, hfresh, -⟩ := firstFrame_spec hfree
  have hstart : ¬ Used f₀ (firstFrame s.map) := fun h => hfresh (hi.keeps _ h)
  have hne0 : firstFrame s.map ≠ 0 := fun h => hfresh (h ▸ hi.zero)
  rw [hi.size] at hlt
  -- nobody holds the frame that is handed out
  have hnew : ∀ e', (s.entries e').frame ≠ firstFrame s.map := fun e' he' =>
    hfresh ((hi.marked _ (by omega) hlt hstart).mpr ⟨e', he'⟩)
  have hframe : ∀ e', ((s.step (.alloc e isKernel isWritable)).entries e').frame =
      if e' = e then firstFrame s.map else (s.entries e').frame := by
    intro e'
    simp only [step, allocFrame_eq (by rw [hi.size]; exact hsize) h0 hfree]
    by_cases h : e' = e
    · subst h; simp
    · simp [h]
  have hmap : (s.step (.alloc e isKernel isWritable)).map =
      setFrame (firstFrame s.map * 0x1000) s.map := by
    simp only [step, allocFrame_eq (by rw [hi.size]; exact hsize) h0 hfree]
  constructor
  · constructor
    · intro k h1 hk hkf
      rw [hmap, used_setFrame, hi.marked k h1 hk hkf]
      simp only [hframe]
      constructor
      · rintro (rfl | ⟨e', he'⟩)
        · exact ⟨e, if_pos rfl⟩
        · refine ⟨e', ?_⟩
          rw [if_neg, he']
          rintro rfl
          omega
      · rintro ⟨e', he'⟩
        split at he'
        · exact Or.inl he'.symm
        · exact Or.inr ⟨e', he'⟩
    · intro e₁ e₂ heq hne
      simp only [hframe] at heq hne
      split_ifs at heq hne with h1 h2 h2
      · rw [h1, h2]
      · exact absurd heq.symm (hnew e₂)
      · exact absurd heq (hnew e₁)
      · exact hi.unique e₁ e₂ heq hne
    · rw [hmap, used_setFrame]
      exact Or.inr hi.zero
    · simp only [step, if_pos h0, List.mem_append, List.mem_singleton, not_or]
      exact ⟨hi.never, hne0.symm⟩
  · rw [hmap, size_setFrame, hi.size]
  · intro e' hne
    rw [hframe] at hne ⊢
    split_ifs at hne ⊢
    · exact ⟨hlt, hstart⟩
    · exact hi.held e' hne
  · intro k hk
    rw [hmap, used_setFrame]
    exact Or.inr (hi.keeps k hk)

lemma Ownership.step_same_alloc {e : ι} {isKernel isWritable : Bool}
    (h : (s.entries e).frame ≠ 0) : s.step (.alloc e isKernel isWritable) = s := by
  simp [step, allocFrame_held h, h]

lemma Ownership.step_same_free {e : ι} (h : (s.entries e).frame = 0) : s.step (.free e) = s := by
  simp [step, freeFrame_empty h]

lemma Ownership.inv_step (hsize : 8 * f₀.framesBitmapSize ≤ 2 ^ 20) (hi : s.Inv f₀)
    {o : FrameOp ι} (hs : s.Supplied o) (hk : s.KeepsFrames o) : (s.step o).Inv f₀ := by
  cases o with
  | alloc e isKernel isWritable =>
    by_cases h : (s.entries e).frame = 0
    · exact inv_alloc hsize hi h (hs e isKernel isWritable rfl)
    · rwa [step_same_alloc h]
  | free e => rwa [step_same_free (hk e rfl)]

/-- **The slip.** A release leaves the bit of its frame set and clears another. -/
lemma Ownership.not_owned_release (hi : s.Inv f₀) {o : FrameOp ι} (hk : ¬ s.KeepsFrames o) :
    ¬ (s.step o).Owned f₀ := by
  simp only [KeepsFrames, not_forall] at hk
  obtain ⟨e, rfl, hne⟩ := hk
  obtain ⟨hlt, hstart⟩ := hi.held e hne
  set k := (s.entries e).frame with hkdef
  have hused : Used s.map k := (hi.marked k (by omega) hlt hstart).mpr ⟨e, rfl⟩
  have hmap : (s.step (.free e)).map = clearFrame k s.map := by
    simp only [step, freeFrame_held hne]; rw [hkdef]
  have hframe : ∀ e', ((s.step (.free e)).entries e').frame =
      if e' = e then 0 else (s.entries e').frame := by
    intro e'
    simp only [step, freeFrame_held hne]
    by_cases h : e' = e
    · subst h; simp
    · simp [h]
  intro ho
  by_cases hbig : k / 0x1000 = 0
  · -- every frame below 4096: the bit of frame 0 goes
    have hz := ho.zero
    rw [hmap, used_clearFrame] at hz
    exact hz.1 hbig.symm
  · -- the bit of `k` itself stays, with no entry left to hold it
    have hstill : Used (s.step (.free e)).map k := by
      rw [hmap, used_clearFrame]
      exact ⟨by omega, hused⟩
    obtain ⟨e', he'⟩ := (ho.marked k (by omega) hlt hstart).mp hstill
    rw [hframe] at he'
    split_ifs at he' with h
    · omega
    · exact h (hi.unique e' e he' (by omega))

end Steps

/-- **Ownership holds in every state of a run exactly when the run releases no frame.** -/
theorem owned_iff_keepsFrames [DecidableEq ι] (f₀ : FrameMap) (hsize : 8 * f₀.framesBitmapSize ≤ 2 ^ 20)
    (h0 : Used f₀ 0) (entries : ι → PageStruct) (he : ∀ e, (entries e).frame = 0)
    (os : List (FrameOp ι))
    (hs : Guarded Ownership.step Ownership.Supplied ⟨f₀, entries, []⟩ os) :
    Always Ownership.step (Ownership.Owned f₀) ⟨f₀, entries, []⟩ os ↔
      Guarded Ownership.step Ownership.KeepsFrames ⟨f₀, entries, []⟩ os :=
  always_iff_guarded_of (fun _ hi => hi.toOwned)
    (fun _ _ hi hs hk => Ownership.inv_step hsize hi hs hk)
    (fun _ _ hi _ hk => Ownership.not_owned_release hi hk) (Ownership.inv_init h0 he) hs

/-- The bitmap of the machine, 4096 frames, with only frame 0 marked. -/
def onlyZero : FrameMap := ⟨fun i => if i = 0 then 0x80 else 0, 512⟩

theorem owned_iff_keepsFrames_two :
    Always Ownership.step (Ownership.Owned onlyZero) ⟨onlyZero, fun _ : Bool => .zero, []⟩
        [.alloc true false true, .alloc false false true] ↔
      Guarded Ownership.step Ownership.KeepsFrames ⟨onlyZero, fun _ : Bool => .zero, []⟩
        [.alloc true false true, .alloc false false true] :=
  owned_iff_keepsFrames onlyZero (by decide) (by decide) (fun _ => .zero) (fun _ => rfl) _
    ⟨fun _ _ _ _ => ⟨1, by decide, by decide⟩,
      ⟨fun _ _ _ _ => ⟨2, by decide +kernel, by decide +kernel⟩, trivial⟩⟩

/-- One entry takes a frame and gives it back, with every other frame free: the mark of frame 0 is
gone. -/
theorem owned_fails_release :
    Guarded Ownership.step Ownership.Supplied ⟨onlyZero, fun _ : Unit => .zero, []⟩
        [.alloc () false true, .free ()] ∧
      ¬ Always Ownership.step (Ownership.Owned onlyZero) ⟨onlyZero, fun _ : Unit => .zero, []⟩
        [.alloc () false true, .free ()] := by
  refine ⟨⟨fun _ _ _ _ => ⟨1, by decide, by decide⟩, ⟨fun _ _ _ h => (nomatch h), trivial⟩⟩,
    fun h => ?_⟩
  have hz := h.last.zero
  revert hz
  decide +kernel

end OsImplement.Memory
