import OsImplement.Lib.X86
import OsImplement.Memory.Kernel

/-!
The functions that are written in assembly (`process.s`).

`copy_page_phy` turns paging off and copies 1024 words, and the kernel's model of it is one
assignment to physical memory. The two agree (`returns_copyPagePhy`) when both addresses are those
of frames and the words of the stack that are read later are not in the frame that is written.
-/

namespace OsImplement.Memory

open Lib.Bytes Lib.X86

/-! ### The text -/

inductive ProcessLabel where
  | loop

abbrev ProcessCode := List (Instr ProcessLabel Empty)

/-- `read_eip` -/
def readEip : ProcessCode := [.pop .eax, .jmpReg .eax]

def copyWord : ProcessCode :=
  [.load .eax .ebx 0, .store .ecx .eax, .add .ebx 4, .add .ecx 4, .dec .edx]

/-- What follows the loop. -/
def copyEnd : ProcessCode :=
  [.movFromCr0 .edx, .or .edx 0x80000000, .movToCr0 .edx, .popf, .pop .ebx, .ret]

def processText : ProcessLabel → ProcessCode
  | .loop => copyWord ++ .jnz .loop :: copyEnd

/-- What precedes the loop. -/
def copyStart : ProcessCode :=
  [.push .ebx, .pushf, .cli, .load .ebx .esp 12, .load .ecx .esp 16, .movFromCr0 .edx,
    .and .edx 0x7fffffff, .movToCr0 .edx, .movImm .edx 1024]

/-- `copy_page_phy` -/
def copyPagePhyCode : ProcessCode := copyStart ++ processText .loop

/-! ### The loop -/

section Copy

variable {s s₀ t : Cpu} {src dst n m : ℕ}

/-- After `n` words, from the state `s₀` before the loop. -/
structure Copying (s₀ : Cpu) (src dst n : ℕ) (s : Cpu) : Prop where
  ebx : s.regs .ebx = BitVec.ofNat 32 (src + 4 * n)
  ecx : s.regs .ecx = BitVec.ofNat 32 (dst + 4 * n)
  edx : s.regs .edx = BitVec.ofNat 32 (1024 - n)
  regs : ∀ q ∈ [Reg.esp, .ebp, .esi, .edi], s.regs q = s₀.regs q
  segs : s.segs = s₀.segs
  walk : s.walk = s₀.walk
  cr0 : s.cr0 = s₀.cr0 &&& 0x7fffffff
  mem : ∀ x, s.mem x =
    if dst ≤ x ∧ x < dst + 4 * n then s₀.mem (src + (x - dst)) else s₀.mem x

lemma Copying.phys (h : Copying s₀ src dst n s) (x : ℕ) : s.phys x = x % 2 ^ 32 := by
  refine Cpu.phys_of_not_paging ?_ x
  rw [h.cr0]
  simp [PG]

/-- The addresses of two frames, the same or apart. -/
structure FramePair (src dst : ℕ) : Prop where
  src_page : src % 0x1000 = 0
  dst_page : dst % 0x1000 = 0
  src_lt : src < 2 ^ 32
  dst_lt : dst < 2 ^ 32

lemma mem_store_flat {a v : BitVec 32} (hphys : ∀ x, s.phys x = x % 2 ^ 32)
    (ha : a.toNat + 4 ≤ 2 ^ 32) (x : ℕ) : (s.store a v).mem x =
      if a.toNat ≤ x ∧ x < a.toNat + 4 then byteOf v.toNat (x - a.toNat) else s.mem x := by
  have hflat (i : ℕ) (hi : i < 4) : s.phys (a.toNat + i) = a.toNat + i := by
    rw [hphys, Nat.mod_eq_of_lt (by omega)]
  by_cases hx : a.toNat ≤ x ∧ x < a.toNat + 4
  · obtain ⟨i, rfl⟩ := Nat.exists_eq_add_of_le hx.1
    have hi : i < 4 := by omega
    rw [if_pos hx, Nat.add_sub_cancel_left, Cpu.mem_store]
    have h0 := hflat 0 (by decide)
    rw [Nat.add_zero] at h0
    rw [h0, hflat 1 (by decide), hflat 2 (by decide), hflat 3 (by decide)]
    rcases (show i = 0 ∨ i = 1 ∨ i = 2 ∨ i = 3 by omega) with rfl | rfl | rfl | rfl <;>
      simp
  · rw [if_neg hx]
    refine Cpu.mem_store_of_ne fun i hi he => hx ?_
    rw [he, hflat i hi]
    omega

lemma copying_copyWord (hf : FramePair src dst) (hn : n < 1024) (h : Copying s₀ src dst n s) :
    let t := copyWord.foldl (fun s i => s.exec i) s
    Copying s₀ src dst (n + 1) t ∧ t.eflags.getLsbD ZF = decide (n + 1 = 1024) := by
  intro t
  obtain ⟨hsrc, hdst, hsrc_lt, hdst_lt⟩ := hf
  obtain ⟨v, hv⟩ : ∃ v, s.load (s.regs .ebx + 0#32) = v := ⟨_, rfl⟩
  have hecx : (s.regs .ecx).toNat = dst + 4 * n := by
    rw [h.ecx, BitVec.toNat_ofNat]
    omega
  have hload (i : ℕ) (hi : i < 4) : byteOf v.toNat i = s₀.mem (src + 4 * n + i) := by
    rw [← hv, BitVec.add_zero, Cpu.byteOf_load s _ hi, h.phys, h.ebx, BitVec.toNat_ofNat,
      Nat.mod_eq_of_lt (show src + 4 * n < 2 ^ 32 by omega),
      Nat.mod_eq_of_lt (show src + 4 * n + i < 2 ^ 32 by omega), h.mem]
    -- the source is the destination, or apart from it
    exact if_neg (by omega)
  have hregs : t.regs = Function.update (Function.update (Function.update (Function.update s.regs
      .eax v) .ebx (s.regs .ebx + 4)) .ecx (s.regs .ecx + 4)) .edx (s.regs .edx - 1) := by
    rw [← hv]
    rfl
  have hmem : t.mem = (s.store (s.regs .ecx) v).mem := by
    rw [← hv]
    rfl
  have hzf : t.eflags.getLsbD ZF = decide (s.regs .edx - 1 = 0) := zf_resultFlags _ _ _ _
  have hnext (x : ℕ) : BitVec.ofNat 32 (x + 4 * n) + 4 = BitVec.ofNat 32 (x + 4 * (n + 1)) := by
    bv_omega
  have hcount : s.regs .edx - 1 = BitVec.ofNat 32 (1024 - (n + 1)) := by
    rw [h.edx]
    bv_omega
  refine ⟨⟨?_, ?_, ?_, fun q hq => ?_, h.segs, h.walk, h.cr0, fun x => ?_⟩, ?_⟩
  · rw [← hnext, ← h.ebx, hregs]
    rfl
  · rw [← hnext, ← h.ecx, hregs]
    rfl
  · rw [← hcount, hregs]
    rfl
  · rw [← h.regs q hq, hregs]
    simp only [List.mem_cons, List.not_mem_nil, or_false] at hq
    rcases hq with rfl | rfl | rfl | rfl <;> rfl
  · rw [hmem, mem_store_flat h.phys (by omega), hecx, h.mem]
    by_cases hx : dst + 4 * n ≤ x ∧ x < dst + 4 * n + 4
    · rw [if_pos hx, if_pos (by omega), hload _ (by omega)]
      congr 1
      omega
    · rw [if_neg hx]
      by_cases hx' : dst ≤ x ∧ x < dst + 4 * n
      · rw [if_pos hx', if_pos (by omega)]
      · rw [if_neg hx', if_neg (by omega)]
  · rw [hzf, hcount]
    congr 1
    refine propext ⟨fun h0 => ?_, fun h0 => by rw [h0]; rfl⟩
    bv_omega

lemma returns_loop (callee : Empty → Cpu → Cpu) {Q : Cpu → Prop} (hf : FramePair src dst)
    (hend : ∀ t, Copying s₀ src dst 1024 t → ∃ r, Returns processText callee copyEnd t r ∧ Q r) :
    ∀ m n, n + m = 1024 → 0 < m → ∀ s, Copying s₀ src dst n s →
      ∃ r, Returns processText callee (processText .loop) s r ∧ Q r := by
  intro m
  induction m with
  | zero => exact fun n _ h0 => absurd h0 (lt_irrefl 0)
  | succ m ih =>
    intro n hnm _ s h
    obtain ⟨hcopy, hzf⟩ := copying_copyWord hf (by omega) h
    have hstraight : ∀ i ∈ copyWord, i.Straight := by simp [copyWord, Instr.Straight]
    set t := copyWord.foldl (fun s i => s.exec i) s with ht
    by_cases hlast : n + 1 = 1024
    · rw [hlast] at hcopy
      obtain ⟨r, hr, hQ⟩ := hend t hcopy
      refine ⟨r, .block hstraight (.jnz ?_), hQ⟩
      rw [← ht, hzf, hlast]
      exact hr
    · obtain ⟨r, hr, hQ⟩ := ih (n + 1) (by omega) (by omega) t hcopy
      refine ⟨r, .block hstraight (.jnz ?_), hQ⟩
      rw [← ht, hzf, decide_eq_false hlast]
      exact hr

/-! ### The call -/

/-- The registers and the stack before the loop. -/
def pushed (s : Cpu) : Cpu := (s.push (s.regs .ebx)).push s.eflags

lemma load_copying (h : Copying s₀ src dst 1024 t) {u : Cpu} (hphys : u.phys = s₀.phys)
    (hmem : u.mem = t.mem) {a : BitVec 32}
    (hapart : ∀ i < 4, s₀.phys (a.toNat + i) ∉ Set.Ico dst (dst + 0x1000)) :
    u.load a = s₀.load a := by
  refine Cpu.load_congr fun i hi => ?_
  rw [hphys, hmem, h.mem]
  exact if_neg fun hx => hapart i hi ⟨hx.1, by omega⟩

lemma pg_and_or {c : BitVec 32} (h : c.getLsbD PG = true) :
    (c &&& 0x7fffffff) ||| 0x80000000 = c := by
  have hmask : ∀ i < 32, (0x7fffffff#32).getLsbD i = decide (i ≠ PG) := by decide
  have hbit : ∀ i < 32, (0x80000000#32).getLsbD i = decide (i = PG) := by decide
  refine BitVec.eq_of_getLsbD_eq fun i hi => ?_
  rw [BitVec.getLsbD_or, BitVec.getLsbD_and]
  show (c.getLsbD i && (0x7fffffff#32).getLsbD i || (0x80000000#32).getLsbD i) = _
  rw [hmask i hi, hbit i hi]
  by_cases hi31 : i = PG
  · simp [hi31, h]
  · simp [hi31]

lemma copying_prepare {src dst : BitVec 32} (hsrc : s.load (s.regs .esp + 12) = src)
    (hdst : s.load (s.regs .esp + 16) = dst) :
    Copying s src.toNat dst.toNat 0 ((copyStart.drop 2).foldl (fun s i => s.exec i) s) := by
  refine ⟨?_, ?_, rfl, fun q hq => ?_, rfl, rfl, rfl, fun x => ?_⟩
  · show s.load (s.regs .esp + 12) = _
    rw [hsrc, Nat.mul_zero, Nat.add_zero, BitVec.ofNat_toNat, BitVec.setWidth_eq]
  · show s.load (s.regs .esp + 16) = _
    rw [hdst, Nat.mul_zero, Nat.add_zero, BitVec.ofNat_toNat, BitVec.setWidth_eq]
  · simp only [List.mem_cons, List.not_mem_nil, or_false] at hq
    rcases hq with rfl | rfl | rfl | rfl <;> rfl
  · rw [if_neg (by omega)]
    rfl

lemma copyStart_foldl (s : Cpu) : copyStart.foldl (fun s i => s.exec i) s =
    (copyStart.drop 2).foldl (fun s i => s.exec i) (pushed s) := by
  have hsplit : copyStart = [.push .ebx, .pushf] ++ copyStart.drop 2 := rfl
  have heflags : (s.push (s.regs .ebx)).eflags = s.eflags := rfl
  conv_lhs => rw [hsplit, List.foldl_append]
  simp only [List.foldl_cons, List.foldl_nil, Cpu.exec, heflags, pushed]

lemma popf_pop_ret (u : Cpu) :
    let r := (([.popf, .pop .ebx] : ProcessCode).foldl (fun s i => s.exec i) u).exec
      (.ret : Instr ProcessLabel Empty)
    r.eflags = u.load (u.regs .esp + BitVec.ofNat 32 0) ∧
      r.regs .ebx = u.load (u.regs .esp + BitVec.ofNat 32 4) ∧
      r.eip = u.load (u.regs .esp + BitVec.ofNat 32 8) ∧ r.regs .esp = u.regs .esp + 12 ∧
      (∀ q ∈ [Reg.ebp, .esi, .edi], r.regs q = u.regs q) ∧ r.mem = u.mem ∧ r.cr0 = u.cr0 ∧
      r.segs = u.segs ∧ r.walk = u.walk := by
  have haddr : u.regs .esp + 4 + 4 = u.regs .esp + BitVec.ofNat 32 8 := by
    rw [BitVec.add_assoc]
    rfl
  refine ⟨?_, rfl, ?_, ?_, fun q hq => ?_, rfl, rfl, rfl, rfl⟩
  · exact congrArg u.load (BitVec.add_zero _).symm
  · exact congrArg u.load haddr
  · show u.regs .esp + 4 + 4 + 4 = _
    rw [haddr, BitVec.add_assoc]
    rfl
  · simp only [List.mem_cons, List.not_mem_nil, or_false] at hq
    rcases hq with rfl | rfl | rfl <;> rfl

lemma returns_copyEnd (callee : Empty → Cpu → Cpu) {ret src dst : BitVec 32} (hpg : s.cr0.getLsbD PG = true)
    (hwords : Stack (pushed s) 0 [s.eflags, s.regs .ebx, ret, src, dst])
    (hapart : ∀ i < 12, (pushed s).phys (((pushed s).regs .esp).toNat + i) ∉
      Set.Ico dst.toNat (dst.toNat + 0x1000))
    (ht : Copying (pushed s) src.toNat dst.toNat 1024 t) :
    ∃ r, Returns processText callee copyEnd t r ∧ r.mem = t.mem ∧ r.eip = ret ∧
      r.eflags = s.eflags ∧ r.cr0 = s.cr0 ∧ r.segs = s.segs ∧ r.walk = s.walk ∧
      r.regs .esp = s.regs .esp + 4 ∧ ∀ q ∈ [Reg.ebx, .ebp, .esi, .edi], r.regs q = s.regs q := by
  set u := ([.movFromCr0 .edx, .or .edx 0x80000000, .movToCr0 .edx] : ProcessCode).foldl
    (fun s i => s.exec i) t with hu
  have hesp : u.regs .esp = (pushed s).regs .esp := ht.regs .esp (by simp)
  have hcr0 : u.cr0 = s.cr0 := by
    show t.cr0 ||| 0x80000000 = s.cr0
    rw [ht.cr0]
    exact pg_and_or hpg
  have hphys : u.phys = (pushed s).phys := by
    funext x
    unfold Cpu.phys
    rw [hcr0, show u.walk = s.walk from ht.walk]
    rfl
  have hword (i : ℕ) (hi : i < 3) : u.load ((pushed s).regs .esp + BitVec.ofNat 32 (4 * i)) =
      (pushed s).load ((pushed s).regs .esp + BitVec.ofNat 32 (4 * i)) := by
    refine load_copying ht hphys rfl fun j hj => ?_
    rw [show (pushed s).phys (((pushed s).regs .esp + BitVec.ofNat 32 (4 * i)).toNat + j) =
      (pushed s).phys (((pushed s).regs .esp).toNat + (4 * i + j)) from ?_]
    · exact hapart _ (by omega)
    · refine Cpu.phys_congr ?_
      rw [BitVec.toNat_add, BitVec.toNat_ofNat]
      omega
  have h0 := (hword 0 (by decide)).trans (hwords.words 0 (by simp))
  have h1 := (hword 1 (by decide)).trans (hwords.words 1 (by simp))
  have h2 := (hword 2 (by decide)).trans (hwords.words 2 (by simp))
  rw [← hesp] at h0 h1 h2
  obtain ⟨heflags, hebx, heip, hesp', hregs, hmem, hcr0', hsegs, hwalk⟩ := popf_pop_ret u
  have hpaging : ∀ i ∈ ([.movFromCr0 .edx, .or .edx 0x80000000, .movToCr0 .edx] : ProcessCode),
      i.Straight := by simp [Instr.Straight]
  have hpops : ∀ i ∈ ([.popf, .pop .ebx] : ProcessCode), i.Straight := by simp [Instr.Straight]
  refine ⟨_, Returns.block hpaging (Returns.block hpops Returns.ret), hmem, heip.trans h2, heflags.trans h0,
    hcr0'.trans hcr0, hsegs.trans ht.segs, hwalk.trans ht.walk, ?_, fun q hq => ?_⟩
  · rw [hesp', hesp]
    show s.regs .esp - 4 - 4 + 12 = _
    bv_omega
  · rw [List.mem_cons] at hq
    rcases hq with rfl | hq
    · exact hebx.trans h1
    · rw [hregs q hq]
      simp only [List.mem_cons, List.not_mem_nil, or_false] at hq
      rcases hq with rfl | rfl | rfl
      · exact ht.regs .ebp (by simp)
      · exact ht.regs .esi (by simp)
      · exact ht.regs .edi (by simp)

/-- **`copy_page_phy` copies a frame**, as its model does, and returns to its caller: with the
registers that the caller relies on, the flags, the interrupt flag among them, and paging as they
were. -/
theorem returns_copyPagePhy {ret src dst : BitVec 32} (callee : Empty → Cpu → Cpu)
    (hpg : s.cr0.getLsbD PG = true) (hstack : Stack s 8 [ret, src, dst])
    (hf : FramePair src.toNat dst.toNat)
    (hapart : ∀ i < 12, s.phys ((s.regs .esp - 8).toNat + i) ∉
      Set.Ico dst.toNat (dst.toNat + 0x1000)) :
    ∃ r m', Returns processText callee copyPagePhyCode s r ∧ Writes s.mem m' (s.below 8) ∧
      (∀ k : Kernel, r.mem = ({ k with phys := m' }.copyPagePhy src.toNat dst.toNat).phys) ∧
      r.eip = ret ∧ r.eflags = s.eflags ∧ r.cr0 = s.cr0 ∧ r.segs = s.segs ∧ r.walk = s.walk ∧
      r.regs .esp = s.regs .esp + 4 ∧ ∀ q ∈ [Reg.ebx, .ebp, .esi, .edi], r.regs q = s.regs q := by
  have hwords : Stack (pushed s) 0 [s.eflags, s.regs .ebx, ret, src, dst] := .push (.push hstack)
  have hesp : (pushed s).regs .esp = s.regs .esp - 8 := by
    show s.regs .esp - 4 - 4 = _
    bv_omega
  have hphys : (pushed s).phys = s.phys := rfl
  have hsrc : (pushed s).load ((pushed s).regs .esp + 12) = src := hwords.words 3 (by simp)
  have hdst : (pushed s).load ((pushed s).regs .esp + 16) = dst := hwords.words 4 (by simp)
  have hstart := copying_prepare hsrc hdst
  rw [← copyStart_foldl] at hstart
  obtain ⟨r, hr, hmem, hrest⟩ := returns_loop callee
    (Q := fun r => r.mem = _ ∧ r.eip = ret ∧ r.eflags = s.eflags ∧ r.cr0 = s.cr0 ∧
      r.segs = s.segs ∧ r.walk = s.walk ∧ r.regs .esp = s.regs .esp + 4 ∧
      ∀ q ∈ [Reg.ebx, .ebp, .esi, .edi], r.regs q = s.regs q) hf
    (fun t ht => by
      obtain ⟨r, hr, hmem, hrest⟩ := returns_copyEnd callee hpg hwords
        (by rw [hesp, hphys]; exact hapart) ht
      exact ⟨r, hr, hmem.trans (funext ht.mem), hrest⟩) 1024 0 rfl (by decide) _ hstart
  refine ⟨r, (pushed s).mem, .block (by simp [copyStart, Instr.Straight]) hr, ?_, fun k => hmem,
    hrest⟩
  have hroom : 4 * [s.regs .ebx, s.eflags].length ≤ 2 ^ 32 := by simp
  exact Cpu.mem_pushAll hroom

/-- Paging with every page in its own frame, and a call of `copy_page_phy` on the stack: from
`0x5000` to `0x6000`, back to `0x10`. -/
def calling : Cpu where
  regs := fun _ => 0x9000
  segs := fun _ => 0x10
  eip := 0
  eflags := 0x202
  cr0 := 0x80000001
  gdtr := (0, 0)
  idtr := (0, 0)
  walk := id
  mem := fun x => if x = 0x9000 then 0x10 else if x = 0x9005 then 0x50 else
    if x = 0x9009 then 0x60 else 0

theorem returns_copyPagePhy_calling : ∃ r,
    Returns processText (fun f _ => nomatch f) copyPagePhyCode calling r ∧ r.eip = 0x10 ∧
      r.eflags = 0x202 := by
  have hphys (i : ℕ) (hi : i < 20) :
      calling.phys ((calling.regs .esp - BitVec.ofNat 32 8).toNat + i) = 0x9000 - 8 + i := by
    show (0x9000 - 8 + i) % 2 ^ 32 = _
    omega
  have hstack : Stack calling 8 [0x10, 0x5000, 0x6000] := by
    refine ⟨by simp, fun i hi j hj he => ?_, fun i hi => ?_⟩
    · rw [hphys i hi, hphys j hj] at he
      omega
    · have hi : i < 3 := hi
      rcases (show i = 0 ∨ i = 1 ∨ i = 2 by omega) with rfl | rfl | rfl <;> rfl
  obtain ⟨r, -, hr, -, -, heip, heflags, -⟩ := returns_copyPagePhy (fun f _ => nomatch f) rfl hstack
    ⟨rfl, rfl, by decide, by decide⟩ fun i hi h => by
      have h1 : calling.phys ((calling.regs .esp - BitVec.ofNat 32 8).toNat + i) < 0x7000 := h.2
      rw [hphys i (by omega)] at h1
      omega
  exact ⟨r, hr, heip, heflags⟩

end Copy

/-- `read_eip` returns the address behind its call, and goes on there. -/
lemma returns_readEip {callee : Empty → Cpu → Cpu} {s : Cpu} {room : ℕ} {ret : BitVec 32}
    {ws : List (BitVec 32)} (hstack : Stack s room (ret :: ws)) :
    ∃ r, Returns processText callee readEip s r ∧ r.eip = ret ∧ r.regs .eax = ret ∧
      Stack r (room + 4) ws := by
  have htop := hstack.top
  refine ⟨((s.drop 4).setReg .eax s.top).exec (.jmpReg .eax : Instr ProcessLabel Empty),
    ⟨2, rfl⟩, ?_, ?_, ?_⟩
  · show ((s.drop 4).setReg .eax s.top).regs .eax = ret
    rw [Cpu.regs_setReg_self, htop]
  · show ((s.drop 4).setReg .eax s.top).regs .eax = ret
    rw [Cpu.regs_setReg_self, htop]
  · have hrest : Stack (s.drop 4) (room + 4) ws := by
      have hwords : Stack s room ([ret] ++ ws) := hstack
      exact hwords.drop
    exact hrest.congr rfl rfl rfl

end OsImplement.Memory
