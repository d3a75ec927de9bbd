import OsImplement.Interrupt.Stubs

/-!
The functions that load the two tables (`gdt_w.s`, `idt_w.s`), and what `init_descriptor_tables`
leaves the processor with.

The C code writes a table and its record, and calls the function that loads it. `gdt_w` moves the
kernel's data segment to five of the segment registers, and its far jump the code segment to the
sixth. All of this is before paging.
-/

namespace OsImplement.Interrupt

open Lib.Bytes Lib.X86

/-! ### The text -/

inductive LoaderLabel where
  | w

abbrev LoaderCode := List (Instr LoaderLabel Empty)

def loaderText : LoaderLabel → LoaderCode
  | .w => [.ret]

/-- What precedes the far jump. -/
def gdtWStart : LoaderCode :=
  [.load .eax .esp 4, .lgdt .eax, .movLow .eax 0x10, .movToSeg .ds .eax, .movToSeg .es .eax,
    .movToSeg .fs .eax, .movToSeg .gs .eax, .movToSeg .ss .eax]

/-- `gdt_w` -/
def gdtW : LoaderCode := gdtWStart ++ .jmpFar 0x08 .w :: loaderText .w

/-- `idt_w` -/
def idtW : LoaderCode := [.load .eax .esp 4, .lidt .eax, .ret]

/-! ### What they do -/

section Loaders

variable {s c t : Cpu} {a : BitVec 32}

/-- The argument of a function of one argument, at its call. -/
def argument (c : Cpu) : BitVec 32 := c.load (c.regs .esp + 4)

/-- The return in `t` from the call in `c`, with what the caller relies on. -/
structure Back (c t : Cpu) : Prop where
  eip : t.eip = c.top
  esp : t.regs .esp = c.regs .esp + 4
  regs : ∀ q ∈ [Reg.ebx, .ebp, .esi, .edi], t.regs q = c.regs q
  eflags : t.eflags = c.eflags
  cr0 : t.cr0 = c.cr0
  walk : t.walk = c.walk
  mem : t.mem = c.mem

/-- A function that has changed `eax`, the segment registers and the registers of the tables returns
with what its caller relies on. -/
lemma Back.ret {b : Cpu} (hregs : ∀ q ≠ Reg.eax, b.regs q = c.regs q) (heflags : b.eflags = c.eflags)
    (hcr0 : b.cr0 = c.cr0) (hwalk : b.walk = c.walk) (hmem : b.mem = c.mem) :
    Back c (b.exec (.ret : Instr LoaderLabel Empty)) := by
  have hesp : b.regs .esp = c.regs .esp := hregs .esp (by decide)
  have htop : b.top = c.top := by
    unfold Cpu.top
    rw [hesp]
    exact Cpu.load_congr fun i _ => by unfold Cpu.phys; rw [hcr0, hwalk, hmem]
  refine ⟨htop, ?_, fun q hq => ?_, heflags, hcr0, hwalk, hmem⟩
  · rw [← hesp]
    exact b.regs_setReg_self .esp (b.regs .esp + 4)
  · have hq' : q ≠ .esp ∧ q ≠ .eax := by
      constructor <;> rintro rfl <;> simp at hq
    exact (Function.update_of_ne hq'.1 _ _).trans (hregs q hq'.2)

theorem returns_gdtW (callee : Empty → Cpu → Cpu) (c : Cpu) :
    ∃ t, Returns loaderText callee gdtW c t ∧ Back c t ∧ t.gdtr = c.record (argument c) ∧
      t.idtr = c.idtr ∧ ∀ g, t.segs g = if g = .cs then 0x08 else 0x10 := by
  set b := gdtWStart.foldl (fun s i => s.exec i) c
  refine ⟨(b.setSeg .cs 0x08).exec (.ret : Instr LoaderLabel Empty),
    .block (by simp [gdtWStart, Instr.Straight]) (.jmpFar .ret), ?_, rfl, rfl, fun g => ?_⟩
  · refine .ret (fun q hq => ?_) rfl rfl rfl rfl
    show Function.update (Function.update c.regs .eax _) .eax _ q = _
    rw [Function.update_of_ne hq, Function.update_of_ne hq]
  · cases g
    case cs => rfl
    all_goals exact setWidth_withLow _ _

theorem returns_idtW (callee : Empty → Cpu → Cpu) (c : Cpu) :
    ∃ t, Returns loaderText callee idtW c t ∧ Back c t ∧ t.idtr = c.record (argument c) ∧
      t.gdtr = c.gdtr ∧ t.segs = c.segs := by
  refine ⟨_, ⟨3, rfl⟩, .ret (fun q hq => ?_) rfl rfl rfl rfl, rfl, rfl, rfl⟩
  exact Function.update_of_ne hq _ _

lemma record_eq_tablePtrAt (h : c.cr0.getLsbD PG = false) :
    c.record a = tablePtrAt c.mem a.toNat := by
  have hview (x : ℕ) : read8 c.view x = read8 c.mem x := by
    show c.mem (c.phys (x % 2 ^ 32)) = c.mem (x % 2 ^ 32)
    rw [Cpu.phys_of_not_paging h, Nat.mod_mod]
  unfold Cpu.record tablePtrAt
  rw [hview, hview, read32_congr fun i _ => hview (a.toNat + 2 + i)]

end Loaders

/-! ### Both tables -/

/-- The C code leads from `s` to the call in `c` of one of the functions, with `ptr`: it makes `m`
of memory, but for the bytes in `σ`, those of its stack among them. -/
structure Between (m : Mem) (σ : Set ℕ) (ptr : ℕ) (s c : Cpu) : Prop where
  mem : Writes m c.mem σ
  argument : argument c = BitVec.ofNat 32 ptr
  gdtr : c.gdtr = s.gdtr
  segs : c.segs = s.segs
  cr0 : c.cr0 = s.cr0

/-- The selector `sel` names a segment of the kernel that is flat, with the access byte `access`. -/
structure NamesFlat (m : Mem) (gdtr : ℕ × ℕ) (sel : BitVec 16) (access : UInt8) : Prop where
  kernel : sel.toNat % 8 = 0
  inside : sel.toNat + 7 ≤ gdtr.1
  base : (segmentAt m gdtr.2 (sel.toNat / 8)).base = 0
  last : (segmentAt m gdtr.2 (sel.toNat / 8)).last = 2 ^ 32 - 1
  access : (segmentAt m gdtr.2 (sel.toNat / 8)).access = access

section Init

variable {stub : ℕ → ℕ} {gdt gdtPtr idt idtPtr : ℕ} {σ : Set ℕ} {s c₁ : Cpu}

/-- **The processor after `init_descriptor_tables`**, called before paging. Both functions return
to their caller. All segment registers name flat segments of the kernel, `cs` the one for code and
the others the one for data, and the vectors below 48 and no others are delivered, each to its
stub. -/
theorem processor_of_init (callee : Empty → Cpu → Cpu) (h : TablesApart gdt gdtPtr idt idtPtr)
    (hgdt : gdt < 2 ^ 32) (hgdtPtr : gdtPtr < 2 ^ 32) (hidt : idt < 2 ^ 32)
    (hidtPtr : idtPtr < 2 ^ 32) (hstub : ∀ n < 48, stub n < 2 ^ 32)
    (hσ : ∀ x ∈ span gdt 40 ∪ span gdtPtr 6 ∪ (span idt 2048 ∪ span idtPtr 6), x ∉ σ)
    (hpg : s.cr0.getLsbD PG = false) (h₁ : Between (gdtInit gdt gdtPtr s.mem) σ gdtPtr s c₁) :
    ∃ t₁, Returns loaderText callee gdtW c₁ t₁ ∧ Back c₁ t₁ ∧
      ∀ c₂, Between (idtInit stub idt idtPtr t₁.mem).1 σ idtPtr t₁ c₂ →
        ∃ t₂, Returns loaderText callee idtW c₂ t₂ ∧ Back c₂ t₂ ∧
          (∀ g, NamesFlat t₂.mem t₂.gdtr (t₂.segs g) (if g = .cs then 0x9A else 0x92)) ∧
          ∀ n target, Delivers t₂.mem t₂.gdtr t₂.idtr n target ↔ n < 48 ∧ target = stub n := by
  obtain ⟨t₁, hr₁, hb₁, hgdtr₁, -, hsegs₁⟩ := returns_gdtW callee c₁
  refine ⟨t₁, hr₁, hb₁, fun c₂ h₂ => ?_⟩
  obtain ⟨t₂, hr₂, hb₂, hidtr₂, hgdtr₂, hsegs₂⟩ := returns_idtW callee c₂
  refine ⟨t₂, hr₂, hb₂, ?_⟩
  obtain ⟨hptr, -, hsegments⟩ := segmentAt_gdtInit hgdt h.gdtRecord s.mem
  obtain ⟨hgates, hidtr, hw⟩ := gateAt_idtInit hidt hstub h.idtRecord t₁.mem
  have hg : t₂.gdtr = (39, gdt) := by
    rw [hgdtr₂, h₂.gdtr, hgdtr₁, record_eq_tablePtrAt (by rw [h₁.cr0, hpg]), h₁.argument,
      BitVec.toNat_ofNat, Nat.mod_eq_of_lt hgdtPtr,
      tablePtrAt_of_writes h₁.mem fun x hx => hσ x (.inl (.inr hx)), hptr]
  have hi : t₂.idtr = (2047, idt) := by
    rw [hidtr₂, record_eq_tablePtrAt (by rw [h₂.cr0, hb₁.cr0, h₁.cr0, hpg]), h₂.argument,
      BitVec.toNat_ofNat, Nat.mod_eq_of_lt hidtPtr,
      tablePtrAt_of_writes h₂.mem fun x hx => hσ x (.inr (.inr hx)), hidtr]
  -- the segments are not written after `gdt_init`, and the gates not after `idt_init`
  have hsegment (i : ℕ) (hi : i < 5) :
      segmentAt t₂.mem gdt i = segmentAt (gdtInit gdt gdtPtr s.mem) gdt i := by
    rw [hb₂.mem, segmentAt_of_writes h₂.mem (fun x hx => hσ x (.inl (.inl hx))) hi,
      segmentAt_of_writes hw (fun x hx => h.others x (.inl hx)) hi, hb₁.mem,
      segmentAt_of_writes h₁.mem (fun x hx => hσ x (.inl (.inl hx))) hi]
  have hgate (n : ℕ) (hn : n < 256) : gateAt t₂.mem idt n =
      if n < 48 then ⟨stub n, 0x08, true, 0, 14⟩ else ⟨0, 0, false, 0, 0⟩ := by
    rw [hb₂.mem, gateAt_of_writes h₂.mem (fun x hx => hσ x (.inr (.inl hx))) hn, hgates n hn]
  obtain ⟨code, hcode, hcodeBase, hcodeLast, hcodeAccess⟩ := hsegments 0 (by decide)
  obtain ⟨data, hdata, hdataBase, hdataLast, hdataAccess⟩ := hsegments 1 (by decide)
  have hcode' : segmentAt t₂.mem gdt 1 = code := (hsegment 1 (by decide)).trans hcode
  have hdata' : segmentAt t₂.mem gdt 2 = data := (hsegment 2 (by decide)).trans hdata
  rw [hg, hi, hsegs₂, h₂.segs]
  refine ⟨fun g => ?_, fun n target => ?_⟩
  · rw [hsegs₁ g]
    by_cases hcs : g = .cs
    · rw [if_pos hcs, if_pos hcs]
      have hseg : segmentAt t₂.mem gdt ((0x08 : BitVec 16).toNat / 8) = code := hcode'
      exact ⟨by decide, show (0x08 : BitVec 16).toNat + 7 ≤ 39 by decide, by rw [hseg, hcodeBase],
        by rw [hseg, hcodeLast], by rw [hseg, hcodeAccess]; rfl⟩
    · rw [if_neg hcs, if_neg hcs]
      have hseg : segmentAt t₂.mem gdt ((0x10 : BitVec 16).toNat / 8) = data := hdata'
      exact ⟨by decide, show (0x10 : BitVec 16).toNat + 7 ≤ 39 by decide, by rw [hseg, hdataBase],
        by rw [hseg, hdataLast], by rw [hseg, hdataAccess]; rfl⟩
  · exact delivers_of_tables hgate (by rw [hcode', hcodeBase]) (by rw [hcode', hcodeLast])
      (by rw [hcode', hcodeAccess]; rfl) hstub

/-- The call of a function with `ptr`, with a stack at `0x9000`. -/
def callWith (m : Mem) (ptr : ℕ) (s : Cpu) : Cpu :=
  (({ s with mem := m } : Cpu).setReg .esp 0x9000).store 0x9004 (BitVec.ofNat 32 ptr)

lemma between_callWith {m : Mem} {ptr : ℕ} (hpg : s.cr0.getLsbD PG = false) :
    Between m (span 0x9004 4) ptr s (callWith m ptr s) := by
  have hphys (x : ℕ) : (({ s with mem := m } : Cpu).setReg .esp 0x9000).phys x = x % 2 ^ 32 :=
    Cpu.phys_of_not_paging hpg x
  refine ⟨fun x hx => ?_, ?_, rfl, rfl, rfl⟩
  · refine Cpu.mem_store_of_ne fun i hi he => hx ⟨i, hi, ?_⟩
    rw [he, hphys]
    rfl
  · refine Cpu.load_store_self fun i hi j hj he => ?_
    rw [hphys, hphys, show BitVec.toNat (0x9004 : BitVec 32) = 0x9004 from rfl] at he
    omega

theorem processor_of_init_pageFault : ∃ t : Cpu,
    NamesFlat t.mem t.gdtr (t.segs .ss) 0x92 ∧ Delivers t.mem t.gdtr t.idtr 14 0x1000E0 := by
  have hσ : ∀ x ∈ span 0x1000 40 ∪ span 0x1100 6 ∪ (span 0x2000 2048 ∪ span 0x3000 6),
      x ∉ span 0x9004 4 := by
    rintro x ((⟨k, hk, rfl⟩ | ⟨k, hk, rfl⟩) | (⟨k, hk, rfl⟩ | ⟨k, hk, rfl⟩)) ⟨l, hl, h⟩
    all_goals omega
  obtain ⟨t₁, -, hb, hrest⟩ := @processor_of_init (fun n => 0x100000 + 16 * n) 0x1000 0x1100 0x2000
    0x3000 (span 0x9004 4) bare _ nofun tablesApart_bare (by decide) (by decide) (by decide)
    (by decide) (fun n hn => by omega) hσ rfl (between_callWith rfl)
  obtain ⟨t₂, -, -, hsegs, hvectors⟩ := hrest _ (between_callWith (by rw [hb.cr0]; rfl))
  exact ⟨t₂, hsegs .ss, (hvectors 14 0x1000E0).mpr ⟨by decide, by decide⟩⟩

end Init

end OsImplement.Interrupt
