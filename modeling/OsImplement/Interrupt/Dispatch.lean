import OsImplement.Lib.Pic
import OsImplement.Lib.Step
import OsImplement.Interrupt.Descriptors

/-!
The dispatch of interrupts (`isr.c`).

`irq_handler` tells the controllers that the interrupt has ended before it calls the handler that is
registered. Devices raise their lines at any time, between its two `outb` included; the processor
takes interrupts while `irq_handler` does not run. Whatever the order, nothing is left in service,
so that no line is blocked (`accept_of_run`), and no request is lost or served twice
(`balanced_of_run`).
-/

namespace OsImplement.Interrupt

open Lib.Pic Lib.Step

/-! ### The code -/

/-- `outb` in `irq_handler` -/
def irqWrites (intNo : ℕ) : List (UInt16 × UInt8) :=
  (if intNo > 39 then [(0xA0, 0x20)] else []) ++ [(0x20, 0x20)]

/-- `interrupt_handler` -/
abbrev Handlers (H : Type) := ℕ → Option H

/-- `register_interrupt_handler` -/
def registerInterruptHandler {H : Type} (n : ℕ) (h : H) (table : Handlers H) : Handlers H :=
  Function.update table n (some h)

/-! ### Interrupts and devices -/

inductive Phase where
  /-- Interrupts may be taken. -/
  | idle
  /-- In `irq_handler`, with `todo` still to go out. -/
  | serving (intNo : ℕ) (todo : List (UInt16 × UInt8))

structure Irqs (H : Type) where
  pics : Pair
  table : Handlers H
  phase : Phase
  /-- The vectors that `irq_handler` has served, and what it called. -/
  calls : List (ℕ × Option H)
  /-- How often a line was raised that was down. -/
  asked : ℕ → ℕ
  /-- How often a line was withdrawn that was up. -/
  dropped : ℕ → ℕ

inductive Event (H : Type) where
  | raise (k : ℕ)
  | withdraw (k : ℕ)
  | accept
  | spurious
  | spuriousSlave
  /-- The next `outb` of `irq_handler`. -/
  | port
  /-- The end of `irq_handler`: the handler is called. -/
  | call
  | register (n : ℕ) (h : H)

/-- Line 2 belongs to the slave. -/
def IsLine (k : ℕ) : Prop := k < 16 ∧ k ≠ 2

instance (k : ℕ) : Decidable (IsLine k) := inferInstanceAs (Decidable (_ ∧ _))

namespace Irqs

variable {H : Type} (s : Irqs H)

def take : ℕ × Pair → Irqs H := fun (v, p) =>
  { s with pics := p, phase := .serving v (irqWrites v) }

def step : Event H → Option (Irqs H)
  | .raise k =>
    if IsLine k then
      some (if s.pics.line k then s else
        { s with
            pics := s.pics.setLine k true
            asked := Function.update s.asked k (s.asked k + 1) })
    else none
  | .withdraw k =>
    if IsLine k then
      some (if s.pics.line k then
        { s with
            pics := s.pics.setLine k false
            dropped := Function.update s.dropped k (s.dropped k + 1) }
        else s)
    else none
  | .accept =>
    match s.phase with
    | .idle => s.pics.inta.map s.take
    | .serving _ _ => none
  | .spurious =>
    match s.phase with
    | .idle => some (s.take s.pics.spurious)
    | .serving _ _ => none
  | .spuriousSlave =>
    match s.phase with
    | .idle => some (s.take s.pics.spuriousSlave)
    | .serving _ _ => none
  | .port =>
    match s.phase with
    | .serving v ((port, b) :: todo) =>
      some { s with pics := s.pics.out port b, phase := .serving v todo }
    | _ => none
  | .call =>
    match s.phase with
    | .serving v [] => some { s with phase := .idle, calls := s.calls ++ [(v, s.table v)] }
    | _ => none
  | .register n h => some { s with table := registerInterruptHandler n h s.table }

/-- The system behind `idt_init`, whatever state the controllers were in. -/
def boot (p : Pair) : Irqs H where
  pics := picInit.foldl (fun p w => p.out w.1 w.2) p
  table := fun _ => none
  phase := .idle
  calls := []
  asked := fun _ => 0
  dropped := fun _ => 0

end Irqs

/-! ### One controller -/

/-- Nothing is in service. -/
def Quiet (c : Controller) : Prop := ∀ i, c.isr i = false

/-- At most one line is in service. -/
def Single (c : Controller) : Prop := ∃ k < 8, ∀ i, c.isr i = true → i = k

/-- The controller delivers vectors from `base` on, masks nothing and waits for the end of
interrupts. -/
structure Settled (c : Controller) (base : ℕ) : Prop where
  base : c.base = base
  imr : ∀ i, c.imr i = false
  autoEoi : c.autoEoi = false
  setup : c.setup = .ready

section Controllers

variable {c : Controller} {k : ℕ} {p : Pair} {v : ℕ}

lemma Quiet.single (h : Quiet c) : Single c :=
  ⟨0, by decide, fun i hi => absurd hi (by simp [h i])⟩

lemma Quiet.single_ack (h : Quiet c) (hk : k < 8) : Single (c.ack k) := by
  refine ⟨k, hk, fun i hi => ?_⟩
  by_contra hik
  have hi : Function.update c.isr k (!c.autoEoi) i = true := hi
  rw [Function.update_of_ne hik, h i] at hi
  exact Bool.false_ne_true hi

/-- **The end of an interrupt names no line**: it empties a controller with one line in service. -/
lemma Single.quiet_eoi (h : Single c) : Quiet c.eoi := by
  obtain ⟨k, hk, hone⟩ := h
  intro i
  unfold Controller.eoi
  cases hfirst : first c.isr with
  | none =>
    by_contra hi
    have hi : c.isr i = true := by simpa using hi
    obtain rfl := hone i hi
    exact absurd hi (by simp [first_eq_none.mp hfirst i hk])
  | some j =>
    obtain ⟨-, hj, -⟩ := first_eq_some.mp hfirst
    show Function.update c.isr j false i = false
    by_cases hij : i = j
    · rw [hij, Function.update_self]
    · rw [Function.update_of_ne hij]
      by_contra hi
      exact hij ((hone i (by simpa using hi)).trans (hone j hj).symm)

lemma eoi_rest (c : Controller) :
    c.eoi.irr = c.irr ∧ c.eoi.imr = c.imr ∧ c.eoi.base = c.base ∧ c.eoi.autoEoi = c.autoEoi ∧
      c.eoi.setup = c.setup := by
  unfold Controller.eoi
  split <;> exact ⟨rfl, rfl, rfl, rfl, rfl⟩

lemma Settled.eoi {b : ℕ} (h : Settled c b) : Settled c.eoi b := by
  obtain ⟨-, himr, hbase, hauto, hsetup⟩ := eoi_rest c
  exact ⟨hbase.trans h.base, fun i => by rw [himr, h.imr], hauto.trans h.autoEoi,
    hsetup.trans h.setup⟩

lemma Settled.ack {b : ℕ} (h : Settled c b) (k : ℕ) : Settled (c.ack k) b :=
  ⟨h.base, h.imr, h.autoEoi, h.setup⟩

/-- A controller is set up by the words that `idt_init` sends, whatever state it was in. -/
lemma settled_setup (c : Controller) {b w : UInt8} (hb : b.toNat % 8 = 0) :
    let d := ((((c.command 0x11).data b).data w).data 0x01).data 0x0
    Settled d b.toNat ∧ Quiet d ∧ ∀ i, d.irr i = false := by
  intro d
  refine ⟨⟨?_, fun i => Nat.zero_testBit i, rfl, rfl⟩, fun i => rfl, fun i => rfl⟩
  show b.toNat / 8 * 8 = b.toNat
  omega

lemma Settled.pending {b : ℕ} (h : Settled c b) (hq : Quiet c) : c.pending = first c.irr := by
  rw [pending_of_idle hq]
  congr 1
  funext i
  rw [h.imr, Bool.not_false, Bool.and_true]

end Controllers

/-! ### Runs -/

section Runs

variable {H : Type} {s s' : Irqs H} {as : List (Event H)} {e : Event H} {k v : ℕ} {p p' : Pair}

/-- The vector that is being served. -/
def Phase.vector : Phase → Option ℕ
  | .idle => none
  | .serving v _ => some v

/-- What may be in service: nothing while interrupts may be taken, and in `irq_handler` one line of
each controller that has still to be told of the end. -/
def Serving (p : Pair) : Phase → Prop
  | .idle => Quiet p.master ∧ Quiet p.slave
  | .serving v todo =>
    todo = irqWrites v ∧ Single p.master ∧ Single p.slave ∧ (v ≤ 39 → Quiet p.slave) ∨
      todo = [(0x20, 0x20)] ∧ Single p.master ∧ Quiet p.slave ∨
      todo = [] ∧ Quiet p.master ∧ Quiet p.slave

/-- A vector without a request, at the last line of a controller. -/
def Event.spuriousAt (k : ℕ) : Event H → Bool
  | .spurious => k == 7
  | .spuriousSlave => k == 15
  | _ => false

/-- How often the vector of line `k` was served. -/
def Irqs.served (s : Irqs H) (k : ℕ) : ℕ := s.calls.countP fun c => c.1 == 32 + k

def Irqs.Balanced (s : Irqs H) (as : List (Event H)) (k : ℕ) : Prop :=
  s.served k + (if s.phase.vector = some (32 + k) then 1 else 0) +
      (if s.pics.line k then 1 else 0) + s.dropped k =
    s.asked k + as.countP (Event.spuriousAt k)

structure Irqs.Inv (as : List (Event H)) (s : Irqs H) : Prop where
  master : Settled s.pics.master 0x20
  slave : Settled s.pics.slave 0x28
  serving : Serving s.pics s.phase
  balanced : ∀ k, IsLine k → s.Balanced as k

/-- The lines, the one that goes first in front: the slave's are in the place of line 2. -/
def order : List ℕ := [0, 1] ++ (List.range 8).map (8 + ·) ++ [3, 4, 5, 6, 7]

lemma mem_order : k ∈ order ↔ IsLine k := by
  simp only [order, IsLine, List.mem_append, List.mem_map, List.mem_range, List.mem_cons,
    List.not_mem_nil, or_false]
  constructor
  · rintro ((h | ⟨j, hj, rfl⟩) | h) <;> omega
  · intro h
    by_cases h8 : k < 8
    · omega
    · exact .inl (.inr ⟨k - 8, by omega, by omega⟩)

/-- The controllers behind an interrupt of line `k`. -/
def takeLine (p : Pair) (k : ℕ) : Pair :=
  if k < 8 then { p with master := p.master.ack k }
  else ⟨p.master.ack 2, p.slave.ack (k - 8)⟩

/-- **What the processor is told**, with nothing in service: the vector of the first line that
waits, of the two controllers together. -/
theorem inta_eq (hm : Settled p.master 0x20) (hs : Settled p.slave 0x28) (hqm : Quiet p.master)
    (hqs : Quiet p.slave) :
    p.inta = (order.find? p.line).map fun k => (32 + k, takeLine p k) := by
  have hslave : p.slave.pending = first p.slave.irr := hs.pending hqs
  have hjoined : p.joined.pending = (([0, 1].find? p.line).or
      (if (first p.slave.irr).isSome then some 2 else none)).or ([3, 4, 5, 6, 7].find? p.line) := by
    have hsettled : Settled p.joined 0x20 := ⟨hm.base, hm.imr, hm.autoEoi, hm.setup⟩
    rw [hsettled.pending hqm, first, show List.range 8 = [0, 1] ++ [2] ++ [3, 4, 5, 6, 7] from rfl,
      List.find?_append, List.find?_append]
    simp only [Pair.joined, hslave]
    congr 1
    congr 1
    simp [List.find?]
    cases (first p.slave.irr).isSome <;> rfl
  have horder : order.find? p.line = (([0, 1].find? p.line).or
      ((first p.slave.irr).map (8 + ·))).or ([3, 4, 5, 6, 7].find? p.line) := by
    rw [order, List.find?_append, List.find?_append, List.find?_map]
    congr 3
  unfold Pair.inta
  rw [horder, hjoined, hslave]
  cases hfront : [0, 1].find? p.line with
  | some k =>
    have hk : k = 0 ∨ k = 1 := by simpa using List.mem_of_find?_eq_some hfront
    rcases hk with rfl | rfl <;> simp [takeLine, hm.base]
  | none =>
    cases hmiddle : first p.slave.irr with
    | some j =>
      simp [takeLine, hs.base]
      omega
    | none =>
      cases hback : [3, 4, 5, 6, 7].find? p.line with
      | none => rfl
      | some k =>
        have hk : k = 3 ∨ k = 4 ∨ k = 5 ∨ k = 6 ∨ k = 7 := by
          simpa using List.mem_of_find?_eq_some hback
        rcases hk with rfl | rfl | rfl | rfl | rfl <;> simp [takeLine, hm.base]

lemma line_setLine (b : Bool) (l : ℕ) :
    (p.setLine k b).line l = if l = k then b else p.line l := by
  unfold Pair.setLine Pair.line
  by_cases hk : k < 8
  · rw [if_pos hk]
    by_cases hl : l < 8
    · simp [hl, Function.update_apply]
    · simp [hl, show l ≠ k by omega]
  · rw [if_neg hk]
    by_cases hl : l < 8
    · simp [hl, show l ≠ k by omega]
    · simp [hl, Function.update_apply, show l - 8 = k - 8 ↔ l = k by omega]

lemma line_takeLine (hk : IsLine k) {l : ℕ} (hl : IsLine l) :
    (takeLine p k).line l = if l = k then false else p.line l := by
  obtain ⟨-, hk2⟩ := hk
  obtain ⟨-, hl2⟩ := hl
  unfold takeLine Pair.line Controller.ack
  by_cases hk8 : k < 8
  · rw [if_pos hk8]
    by_cases hl8 : l < 8
    · simp [hl8, Function.update_apply]
    · simp [hl8, show l ≠ k by omega]
  · rw [if_neg hk8]
    by_cases hl8 : l < 8
    · simp [hl8, show l ≠ k by omega, Function.update_of_ne hl2]
    · simp [hl8, Function.update_apply, show l - 8 = k - 8 ↔ l = k by omega]

lemma irqWrites_of_le (h : v ≤ 39) : irqWrites v = [(0x20, 0x20)] := by
  simp [irqWrites, h]

lemma irqWrites_of_lt (h : 39 < v) : irqWrites v = [(0xA0, 0x20), (0x20, 0x20)] := by
  simp [irqWrites, h]

/-- **One `outb` of `irq_handler`**: each controller is told of the end when one line of it is in
service, or none. -/
lemma serving_out {port : UInt16} {b : UInt8} {todo : List (UInt16 × UInt8)}
    (h : Serving p (.serving v ((port, b) :: todo))) :
    Serving (p.out port b) (.serving v todo) ∧
      (p.out port b = { p with master := p.master.eoi } ∨
        p.out port b = { p with slave := p.slave.eoi }) := by
  have hlast (hs : Quiet p.slave) (hm : Single p.master) (he : (port, b) :: todo = [(0x20, 0x20)]) :
      Serving (p.out port b) (.serving v todo) ∧
        (p.out port b = { p with master := p.master.eoi } ∨
          p.out port b = { p with slave := p.slave.eoi }) := by
    obtain ⟨⟨rfl, rfl⟩, rfl⟩ : (port = 0x20 ∧ b = 0x20) ∧ todo = [] := by simpa using he
    exact ⟨.inr (.inr ⟨rfl, hm.quiet_eoi, hs⟩), .inl rfl⟩
  rcases h with ⟨he, hm, hs, hquiet⟩ | ⟨he, hm, hs⟩ | ⟨he, -⟩
  · by_cases hv : v ≤ 39
    · rw [irqWrites_of_le hv] at he
      exact hlast (hquiet hv) hm he
    · rw [irqWrites_of_lt (by omega)] at he
      obtain ⟨⟨rfl, rfl⟩, rfl⟩ : (port = 0xA0 ∧ b = 0x20) ∧ todo = [(0x20, 0x20)] := by
        simpa using he
      exact ⟨.inr (.inl ⟨rfl, hm, hs.quiet_eoi⟩), .inr rfl⟩
  · exact hlast hs hm he
  · exact absurd he (List.cons_ne_nil _ _)

lemma balanced_congr (h : s.Balanced as k) (he : e.spuriousAt k = false)
    (hserved : s'.served k = s.served k) (hvector : s'.phase.vector = s.phase.vector)
    (hline : s'.pics.line k = s.pics.line k) (hasked : s'.asked k = s.asked k)
    (hdropped : s'.dropped k = s.dropped k) : s'.Balanced (as ++ [e]) k := by
  unfold Irqs.Balanced at h ⊢
  rw [hserved, hvector, hline, hasked, hdropped, List.countP_append, List.countP_singleton, he]
  simpa using h

lemma inv_take {q : Pair} (h : s.Inv as) (hidle : s.phase = .idle) (hv : v = 32 + k)
    (hm : Settled q.master 0x20) (hs : Settled q.slave 0x28)
    (hserving : Serving q (.serving v (irqWrites v)))
    (hline : ∀ l, IsLine l → (if q.line l then 1 else 0) + (if l = k then 1 else 0) =
      (if s.pics.line l then 1 else 0) + if e.spuriousAt l then 1 else 0) :
    (s.take (v, q)).Inv (as ++ [e]) := by
  refine ⟨hm, hs, hserving, fun l hl => ?_⟩
  have hbal := h.balanced l hl
  have hsum := hline l hl
  unfold Irqs.Balanced at hbal ⊢
  rw [hidle] at hbal
  rw [List.countP_append, List.countP_singleton]
  have hvector : ((s.take (v, q)).phase.vector = some (32 + l)) ↔ l = k := by
    show some v = some (32 + l) ↔ _
    rw [hv]
    simp
    omega
  simp only [hvector]
  simp only [Phase.vector, reduceCtorEq, if_false] at hbal
  show s.served l + _ + (if q.line l then 1 else 0) + s.dropped l = s.asked l + _
  omega

lemma settled_setLine {a b : ℕ} {c : Bool} (hm : Settled p.master a) (hs : Settled p.slave b) :
    Settled (p.setLine k c).master a ∧ Settled (p.setLine k c).slave b := by
  unfold Pair.setLine
  split
  · exact ⟨⟨hm.base, hm.imr, hm.autoEoi, hm.setup⟩, hs⟩
  · exact ⟨hm, hs.base, hs.imr, hs.autoEoi, hs.setup⟩

lemma serving_setLine {c : Bool} {ph : Phase} (h : Serving p ph) : Serving (p.setLine k c) ph := by
  unfold Pair.setLine
  split <;> exact h

lemma serving_takeLine (hqm : Quiet p.master) (hqs : Quiet p.slave) (hk : IsLine k) :
    Serving (takeLine p k) (.serving (32 + k) (irqWrites (32 + k))) := by
  obtain ⟨hk16, -⟩ := hk
  unfold takeLine
  split
  · exact .inl ⟨rfl, hqm.single_ack (by omega), hqs.single, fun _ => hqs⟩
  · exact .inl ⟨rfl, hqm.single_ack (by decide), hqs.single_ack (by omega), fun _ => by omega⟩

/-- **A line changes**: it is raised once more, or withdrawn once more. -/
lemma inv_setLine {c : Bool} (h : s.Inv as) (he : ∀ l, e.spuriousAt l = false)
    (hpics : s'.pics = s.pics.setLine k c) (hphase : s'.phase = s.phase) (hcalls : s'.calls = s.calls)
    (hsum : ∀ l, (if s'.pics.line l then 1 else 0) + s'.dropped l + s.asked l =
      (if s.pics.line l then 1 else 0) + s.dropped l + s'.asked l) : s'.Inv (as ++ [e]) := by
  obtain ⟨hm, hs⟩ := settled_setLine (k := k) (c := c) h.master h.slave
  refine ⟨by rwa [hpics], by rwa [hpics], ?_, fun l hl => ?_⟩
  · rw [hpics, hphase]
    exact serving_setLine h.serving
  · have hbal := h.balanced l hl
    have hl' := hsum l
    unfold Irqs.Balanced Irqs.served at hbal ⊢
    rw [hphase, hcalls, List.countP_append, List.countP_singleton, he]
    simp only [Bool.false_eq_true, if_false, Nat.add_zero]
    omega

lemma inv_raise (h : s.Inv as) (hline : s.pics.line k = false) :
    Irqs.Inv (as ++ [.raise k]) { s with
      pics := s.pics.setLine k true
      asked := Function.update s.asked k (s.asked k + 1) } := by
  refine inv_setLine h (fun _ => rfl) rfl rfl rfl fun l => ?_
  dsimp only
  rw [line_setLine]
  by_cases hlk : l = k
  · rw [hlk, Function.update_self, hline]
    simp only [if_true, Bool.false_eq_true, if_false]
    omega
  · rw [Function.update_of_ne hlk, if_neg hlk]

lemma inv_withdraw (h : s.Inv as) (hline : s.pics.line k = true) :
    Irqs.Inv (as ++ [.withdraw k]) { s with
      pics := s.pics.setLine k false
      dropped := Function.update s.dropped k (s.dropped k + 1) } := by
  refine inv_setLine h (fun _ => rfl) rfl rfl rfl fun l => ?_
  dsimp only
  rw [line_setLine]
  by_cases hlk : l = k
  · rw [hlk, Function.update_self, hline]
    simp only [if_true, Bool.false_eq_true, if_false]
    omega
  · rw [Function.update_of_ne hlk, if_neg hlk]

lemma inv_accept (h : s.Inv as) (hphase : s.phase = .idle)
    (htake : s.pics.inta.map s.take = some s') : s'.Inv (as ++ [.accept]) := by
  have hserving := h.serving
  rw [hphase] at hserving
  obtain ⟨hqm, hqs⟩ := hserving
  rw [inta_eq h.master h.slave hqm hqs, Option.map_map] at htake
  obtain ⟨k, hfind, rfl⟩ := Option.map_eq_some_iff.mp htake
  have hk : IsLine k := mem_order.mp (List.mem_of_find?_eq_some hfind)
  have hup : s.pics.line k = true := List.find?_some hfind
  refine inv_take h hphase rfl ?_ ?_ (serving_takeLine hqm hqs hk) fun l hl => ?_
  · unfold takeLine
    split <;> exact h.master.ack _
  · unfold takeLine
    split
    · exact h.slave
    · exact h.slave.ack _
  · rw [line_takeLine hk hl]
    by_cases hlk : l = k
    · simp [hlk, hup, Event.spuriousAt]
    · simp [hlk, Event.spuriousAt]

lemma inv_spurious (h : s.Inv as) (hphase : s.phase = .idle) :
    (s.take s.pics.spurious).Inv (as ++ [.spurious]) := by
  have hserving := h.serving
  rw [hphase] at hserving
  refine inv_take (k := 7) h hphase ?_ h.master h.slave ?_ fun l _ => ?_
  · rw [h.master.base]
  · exact .inl ⟨rfl, hserving.1.single, hserving.2.single, fun _ => hserving.2⟩
  · simp [Event.spuriousAt]

/-- The slave has nothing in service, and the master believes that it has. -/
lemma inv_spuriousSlave (h : s.Inv as) (hphase : s.phase = .idle) :
    (s.take s.pics.spuriousSlave).Inv (as ++ [.spuriousSlave]) := by
  have hserving := h.serving
  rw [hphase] at hserving
  refine inv_take (k := 15) h hphase ?_ (h.master.ack 2) h.slave ?_ fun l hl => ?_
  · rw [h.slave.base]
  · exact .inl ⟨rfl, hserving.1.single_ack (by decide), hserving.2.single, fun _ => hserving.2⟩
  · have hline : ({ s.pics with master := s.pics.master.ack 2 } : Pair).line l = s.pics.line l := by
      unfold Pair.line Controller.ack
      simp [Function.update_of_ne hl.2]
    rw [hline]
    simp [Event.spuriousAt]

lemma inv_port {port : UInt16} {b : UInt8} {todo : List (UInt16 × UInt8)} (h : s.Inv as)
    (hphase : s.phase = .serving v ((port, b) :: todo)) :
    Irqs.Inv (as ++ [.port]) { s with pics := s.pics.out port b, phase := .serving v todo } := by
  have hserving := h.serving
  rw [hphase] at hserving
  obtain ⟨hserving', hout⟩ := serving_out hserving
  have hline : (s.pics.out port b).line = s.pics.line := by
    unfold Pair.line
    rcases hout with he | he <;> simp [he, eoi_rest]
  refine ⟨?_, ?_, hserving', fun k hk => ?_⟩
  · rcases hout with he | he <;> simp only [he]
    exacts [h.master.eoi, h.master]
  · rcases hout with he | he <;> simp only [he]
    exacts [h.slave, h.slave.eoi]
  · refine balanced_congr (h.balanced k hk) rfl rfl ?_ (congrFun hline k) rfl rfl
    rw [hphase]
    rfl

lemma inv_call (h : s.Inv as) (hphase : s.phase = .serving v []) :
    Irqs.Inv (as ++ [.call])
      { s with phase := .idle, calls := s.calls ++ [(v, s.table v)] } := by
  have hserving := h.serving
  rw [hphase] at hserving
  refine ⟨h.master, h.slave, ?_, fun k hk => ?_⟩
  · rcases hserving with ⟨he, -⟩ | ⟨he, -⟩ | ⟨-, hq⟩
    · simp [irqWrites] at he
    · simp at he
    · exact hq
  · have hbal := h.balanced k hk
    unfold Irqs.Balanced at hbal ⊢
    rw [hphase] at hbal
    rw [List.countP_append, List.countP_singleton]
    simp only [Irqs.served, List.countP_append, List.countP_singleton, Phase.vector,
      Option.some.injEq, reduceCtorEq, if_false, Event.spuriousAt, Bool.false_eq_true,
      beq_iff_eq] at hbal ⊢
    omega

lemma inv_same (h : s.Inv as) (he : ∀ l, e.spuriousAt l = false) : s.Inv (as ++ [e]) :=
  ⟨h.master, h.slave, h.serving, fun l hl =>
    balanced_congr (h.balanced l hl) (he l) rfl rfl rfl rfl rfl⟩

theorem inv_step (h : s.Inv as) (hstep : s.step e = some s') : s'.Inv (as ++ [e]) := by
  cases e with
  | raise k =>
    simp only [Irqs.step] at hstep
    split_ifs at hstep with hk hline
    · obtain rfl := Option.some.inj hstep
      exact inv_same h fun _ => rfl
    · obtain rfl := Option.some.inj hstep
      exact inv_raise h (by simpa using hline)
  | withdraw k =>
    simp only [Irqs.step] at hstep
    split_ifs at hstep with hk hline
    · obtain rfl := Option.some.inj hstep
      exact inv_withdraw h hline
    · obtain rfl := Option.some.inj hstep
      exact inv_same h fun _ => rfl
  | accept =>
    simp only [Irqs.step] at hstep
    split at hstep
    · rename_i hphase
      exact inv_accept h hphase hstep
    · exact absurd hstep (by simp)
  | spurious =>
    simp only [Irqs.step] at hstep
    split at hstep
    · rename_i hphase
      obtain rfl := Option.some.inj hstep
      exact inv_spurious h hphase
    · exact absurd hstep (by simp)
  | spuriousSlave =>
    simp only [Irqs.step] at hstep
    split at hstep
    · rename_i hphase
      obtain rfl := Option.some.inj hstep
      exact inv_spuriousSlave h hphase
    · exact absurd hstep (by simp)
  | port =>
    simp only [Irqs.step] at hstep
    split at hstep
    · rename_i v port b todo hphase
      obtain rfl := Option.some.inj hstep
      exact inv_port h hphase
    · exact absurd hstep (by simp)
  | call =>
    simp only [Irqs.step] at hstep
    split at hstep
    · rename_i v hphase
      obtain rfl := Option.some.inj hstep
      exact inv_call h hphase
    · exact absurd hstep (by simp)
  | register n g =>
    obtain rfl : _ = s' := Option.some.inj hstep
    have hsame := inv_same (e := .register n g) h fun _ => rfl
    exact ⟨hsame.master, hsame.slave, hsame.serving, hsame.balanced⟩

lemma inv_boot (p : Pair) : (Irqs.boot p : Irqs H).Inv [] := by
  obtain ⟨hm, hqm, hidle⟩ := settled_setup p.master (b := 0x20) (w := 0x04) rfl
  obtain ⟨hs, hqs, hidle'⟩ := settled_setup p.slave (b := 0x28) (w := 0x02) rfl
  refine ⟨hm, hs, ⟨hqm, hqs⟩, fun k _ => ?_⟩
  have hline : (Irqs.boot p : Irqs H).pics.line k = false := by
    unfold Pair.line
    split
    · exact hidle k
    · exact hidle' (k - 8)
  unfold Irqs.Balanced
  rw [hline]
  rfl

/-- What the system can do. -/
def Irqs.Step (s : Irqs H) (e : Event H) (s' : Irqs H) : Prop := s.step e = some s'

lemma inv_of_run (h : Run Irqs.Step (.boot p) as s) : s.Inv as :=
  Run.inv (I := fun as (s : Irqs H) => s.Inv as) (inv_boot p)
    (fun _ _ _ _ hinv hstep => inv_step hinv hstep) h

/-- **No line is ever blocked.** In every run, with lines raised and withdrawn at any time, the
controllers have nothing in service while interrupts may be taken: the processor can take the
first line that waits, and is told vector 32 and on for lines 0 and on. -/
theorem accept_of_run (h : Run Irqs.Step (.boot p) as s) (hidle : s.phase = .idle) :
    Quiet s.pics.master ∧ Quiet s.pics.slave ∧
      s.step .accept =
        (order.find? s.pics.line).map fun k => s.take (32 + k, takeLine s.pics k) := by
  have hinv := inv_of_run h
  have hquiet := hinv.serving
  rw [hidle] at hquiet
  refine ⟨hquiet.1, hquiet.2, ?_⟩
  simp only [Irqs.step, hidle, inta_eq hinv.master hinv.slave hquiet.1 hquiet.2, Option.map_map]
  rfl

/-- A run in which the slave's line 4 is raised and served, from controllers without power. -/
def mouseRun : List (Event Unit) := [.raise 12, .accept, .port, .port, .call]

def unpowered : Pair :=
  let c : Controller := ⟨fun _ => false, fun _ => true, fun _ => true, 0, false, .ready⟩
  ⟨c, c⟩

lemma run_mouse : ∃ s, Run Irqs.Step (.boot unpowered) mouseRun s ∧ s.phase = .idle ∧
    s.calls = [(44, none)] :=
  ⟨_, Run.of_foldlM rfl, rfl, rfl⟩

theorem accept_of_run_mouse : ∃ s, Run Irqs.Step (.boot unpowered) mouseRun s ∧
    Quiet s.pics.slave := by
  obtain ⟨s, hrun, hidle, -⟩ := run_mouse
  exact ⟨s, hrun, (accept_of_run hrun hidle).2.1⟩

/-- **No request is lost or served twice.** In every run, a line was raised as often as
`irq_handler` has served its vector, or is serving it, or the line waits, or was withdrawn; the
vectors of lines 7 and 15 are served once more for every spurious interrupt. -/
theorem balanced_of_run (h : Run Irqs.Step (.boot p) as s) (hk : IsLine k) :
    s.served k + (if s.phase.vector = some (32 + k) then 1 else 0) +
        (if s.pics.line k then 1 else 0) + s.dropped k =
      s.asked k + as.countP (Event.spuriousAt k) :=
  (inv_of_run h).balanced k hk

theorem balanced_of_run_mouse : ∃ s, Run Irqs.Step (.boot unpowered) mouseRun s ∧
    s.asked 12 = 1 + (if s.pics.line 12 then 1 else 0) + s.dropped 12 := by
  obtain ⟨s, hrun, hidle, hcalls⟩ := run_mouse
  have hbal := balanced_of_run hrun (k := 12) (by decide)
  have hserved : s.served 12 = 1 := by
    unfold Irqs.served
    rw [hcalls]
    rfl
  rw [hserved, hidle] at hbal
  exact ⟨s, hrun, hbal.symm⟩

end Runs

end OsImplement.Interrupt
