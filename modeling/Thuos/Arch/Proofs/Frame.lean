/-
The frame between a stub and the C function that it calls.

Up to the call a stub only pushes: what the processor pushes first and
what the stub pushes then are one run of pushes (`enter_stack`), so the
words on the stack are those of a `registers_t` with the argument in front
(`enter_spec`), and the C function reads in its fields what the interrupted
code had in its registers (`enter_reads`). Behind the call a stub only
takes words off: it goes on with the registers that the frame then holds
(`leave_inner`, `leave_outer`).
-/
import Thuos.Arch.Stubs

namespace Thuos.Arch

open ByteMem I386

-- ============================================================ up to the call

section Enter

variable (tss : Tss) (gate : Gate) (h : Hw) (err : Bool) (v n : UInt32)

/-- What the processor pushes behind the frame for an error code. -/
def errWords (err : Bool) (v : UInt32) : List UInt32 := if err then [v] else []

/-- The error code in the frame. -/
def errCode (err : Bool) (v : UInt32) : UInt32 := if err then v else 0

/-- The state at the call. -/
def atCall : Hw :=
  sysRun (interrupt tss gate (errWords err v) h) (stubHead err n ++ commonEntry)

/-- The stack pointer that `pusha` finds. -/
def atPusha : UInt32 :=
  (pushAll (trapStack tss h) (trapFrame h ++ [errCode err v, n])).2

/-- The argument of the C function. -/
def framePtr : UInt32 :=
  (pushAll (trapStack tss h) (trapFrame h ++ [errCode err v, n]
    ++ [h.reg .eax, h.reg .ecx, h.reg .edx, h.reg .ebx,
      atPusha tss h err v n, h.reg .ebp, h.reg .esi, h.reg .edi,
      (h.seg .ds).toUInt32])).2

theorem common_stack (g : Hw) :
    (sysRun g commonEntry).cpu.stack
      = pushAll g.cpu.stack (allRegs g ++ [low16 0 (g.seg .ds),
        (pushAll g.cpu.stack (allRegs g ++ [low16 0 (g.seg .ds)])).2]) := rfl

theorem head_stack :
    (sysRun (interrupt tss gate (errWords err v) h) (stubHead err n)).cpu.stack
      = pushAll (trapStack tss h) (trapFrame h ++ [errCode err v, n]) := by
  cases err with
  | true =>
      show pushAll (pushAll _ (trapFrame h ++ [v])) [n] = _
      rw [← pushAll_append, List.append_assoc]
      rfl
  | false =>
      show pushAll (pushAll _ (trapFrame h ++ [])) [0, n] = _
      rw [← pushAll_append, List.append_nil]
      rfl

/-- Before the call, the registers other than the stack pointer are those of
the interrupted code, and so is `ds`. -/
theorem head_regs :
    (sysRun (interrupt tss gate (errWords err v) h) (stubHead err n)).seg .ds
        = h.seg .ds
      ∧ allRegs (sysRun (interrupt tss gate (errWords err v) h)
          (stubHead err n))
        = [h.reg .eax, h.reg .ecx, h.reg .edx, h.reg .ebx,
          atPusha tss h err v n, h.reg .ebp, h.reg .esi, h.reg .edi] := by
  have hesp : (sysRun (interrupt tss gate (errWords err v) h)
      (stubHead err n)).reg .esp = atPusha tss h err v n :=
    congrArg Prod.snd (head_stack tss gate h err v n)
  constructor
  · have hseg : (interrupt tss gate (errWords err v) h).seg .ds
        = h.seg .ds := by
      unfold interrupt
      by_cases hring : h.ring = 0
      · simp [hring]
      · simp [hring]
    cases err with
    | true => exact hseg
    | false => exact hseg
  · unfold allRegs
    rw [hesp]
    cases err with
    | true => rfl
    | false => rfl

/-- One run of pushes. -/
theorem enter_stack :
    (atCall tss gate h err v n).cpu.stack
      = pushAll (trapStack tss h) (trapFrame h ++ [errCode err v, n]
        ++ [h.reg .eax, h.reg .ecx, h.reg .edx, h.reg .ebx,
          atPusha tss h err v n, h.reg .ebp, h.reg .esi, h.reg .edi,
          (h.seg .ds).toUInt32]
        ++ [framePtr tss h err v n]) := by
  obtain ⟨hds, hregs⟩ := head_regs tss gate h err v n
  unfold atCall framePtr
  rw [sysRun_append, common_stack, hds, hregs, low16_zero,
    head_stack]
  simp only [← pushAll_append, List.append_assoc, List.cons_append,
    List.nil_append]

/-- The size of the frame. -/
def frameBytes (h : Hw) : Nat := if h.ring = 0 then 56 else 64

theorem trapStack_mem : (trapStack tss h).1 = h.mem := by
  unfold trapStack
  by_cases hring : h.ring = 0
  · simp only [hring, if_true]
    rfl
  · simp only [hring, if_false]

/-- What is pushed before the argument, the last word first. -/
theorem pushed_eq :
    (trapFrame h ++ [errCode err v, n]
      ++ [h.reg .eax, h.reg .ecx, h.reg .edx, h.reg .ebx,
        atPusha tss h err v n, h.reg .ebp, h.reg .esi, h.reg .edi,
        (h.seg .ds).toUInt32]).reverse
      = (savedRegs h n (errCode err v) (atPusha tss h err v n)).words
        h.ring := by
  unfold trapFrame Registers.words Registers.inner
  by_cases hring : h.ring = 0
  · simp [hring, savedRegs]
  · simp [hring, savedRegs]

theorem words_length (r : Registers) :
    4 * (r.words h.ring).length = frameBytes h := by
  unfold Registers.words frameBytes Registers.inner
  by_cases hring : h.ring = 0
  · simp [hring]
  · simp [hring]

/-- At the call the frame is on the stack, and nothing but its place has
changed. -/
theorem enter_spec {top : Nat} (htop : (trapStack tss h).2.toNat = top)
    (hroom : frameBytes h + 4 ≤ top) :
    ((atCall tss gate h err v n).reg .esp).toNat = top - (frameBytes h + 4)
      ∧ (framePtr tss h err v n).toNat = top - frameBytes h
      ∧ Stack (atCall tss gate h err v n).mem (top - (frameBytes h + 4))
        (framePtr tss h err v n
          :: (savedRegs h n (errCode err v) (atPusha tss h err v n)).words
            h.ring)
      ∧ ∀ x, x < top - (frameBytes h + 4) ∨ top ≤ x →
        (atCall tss gate h err v n).mem x = h.mem x := by
  have hlen := words_length h
    (savedRegs h n (errCode err v) (atPusha tss h err v n))
  rw [← pushed_eq tss h err v n, List.length_reverse] at hlen
  have hstack := enter_stack tss gate h err v n
  rw [← pushed_eq tss h err v n]
  unfold framePtr at hstack ⊢
  generalize trapFrame h ++ [errCode err v, n] ++ [h.reg .eax, h.reg .ecx,
    h.reg .edx, h.reg .ebx, atPusha tss h err v n, h.reg .ebp, h.reg .esi,
    h.reg .edi, (h.seg .ds).toUInt32] = ws at hlen hstack ⊢
  have hmem := trapStack_mem tss h
  generalize trapStack tss h = p at htop hmem hstack ⊢
  obtain ⟨m, e⟩ := p
  subst htop
  dsimp only at hroom ⊢
  obtain ⟨hptr, -, -⟩ := pushAll_eq (m := m) (e := e) ws (by omega)
  obtain ⟨hesp, hwords, hframe⟩ := pushAll_eq (m := m) (e := e)
    (ws ++ [(pushAll (m, e) ws).2])
    (by rw [List.length_append, List.length_singleton]; omega)
  rw [List.length_append, List.length_singleton, Nat.mul_add, Nat.mul_one,
    hlen] at hesp hwords hframe
  rw [List.reverse_append] at hwords
  have hm : (atCall tss gate h err v n).mem
      = (pushAll (m, e) (ws ++ [(pushAll (m, e) ws).2])).1 :=
    congrArg Prod.fst hstack
  have hr : (atCall tss gate h err v n).reg .esp
      = (pushAll (m, e) (ws ++ [(pushAll (m, e) ws).2])).2 :=
    congrArg Prod.snd hstack
  rw [hm, hr]
  refine ⟨hesp, ?_, hwords, fun x hx => (hframe x hx).trans ?_⟩
  · rw [hptr, hlen]
  · exact congrFun hmem x

/-- The segments at the call: the kernel's. -/
theorem enter_seg :
    (atCall tss gate h err v n).seg .cs = gate.selector
      ∧ (atCall tss gate h err v n).seg .ss
        = if h.ring = 0 then h.seg .ss else tss.ss0 := by
  have hss : (interrupt tss gate (errWords err v) h).seg .ss
      = if h.ring = 0 then h.seg .ss else tss.ss0 := by
    unfold interrupt
    by_cases hring : h.ring = 0
    · simp [hring]
    · simp [hring]
  cases err with
  | true => exact ⟨rfl, hss⟩
  | false => exact ⟨rfl, hss⟩

end Enter

-- ============================================================== the C struct

section Read

variable {m : Mem} {a : UInt32} {r : Registers} {vs : List UInt32}

/-- The fields of the structure at a frame are its words. -/
theorem registersAt_inner (hs : Stack m a.toNat (r.inner ++ vs))
    (hfit : a.toNat + 56 < 2 ^ 32) :
    registersAt m a
      = { r with useresp := word m (a + 56), ss := word m (a + 60) } := by
  have hword : ∀ {k : UInt32} {i : Nat} (hi : i < 14), k.toNat = 4 * i →
      word m (a + k) = (r.inner ++ vs).get ⟨i, by
        simp only [List.length_append, Registers.inner, List.length_cons]
        omega⟩ :=
    fun hi hk => hs.get _ hk (by omega)
  have hds : word m a = r.ds := hs.head
  have hedi : word m (a + 4) = r.edi := hword (i := 1) (by omega) rfl
  have hesi : word m (a + 8) = r.esi := hword (i := 2) (by omega) rfl
  have hebp : word m (a + 12) = r.ebp := hword (i := 3) (by omega) rfl
  have hesp : word m (a + 16) = r.esp := hword (i := 4) (by omega) rfl
  have hebx : word m (a + 20) = r.ebx := hword (i := 5) (by omega) rfl
  have hedx : word m (a + 24) = r.edx := hword (i := 6) (by omega) rfl
  have hecx : word m (a + 28) = r.ecx := hword (i := 7) (by omega) rfl
  have heax : word m (a + 32) = r.eax := hword (i := 8) (by omega) rfl
  have hnum : word m (a + 36) = r.intNo := hword (i := 9) (by omega) rfl
  have herr : word m (a + 40) = r.errCode := hword (i := 10) (by omega) rfl
  have heip : word m (a + 44) = r.eip := hword (i := 11) (by omega) rfl
  have hcs : word m (a + 48) = r.cs := hword (i := 12) (by omega) rfl
  have hfl : word m (a + 52) = r.eflags := hword (i := 13) (by omega) rfl
  unfold registersAt
  simp only [hds, hedi, hesi, hebp, hesp, hebx, hedx, hecx, heax, hnum, herr,
    heip, hcs, hfl]

end Read

-- ============================================================ behind the call

/-- The general registers in a frame. -/
def Registers.gpr (r : Registers) (esp : UInt32) : Reg → UInt32
  | .eax => r.eax
  | .ecx => r.ecx
  | .edx => r.edx
  | .ebx => r.ebx
  | .esp => esp
  | .ebp => r.ebp
  | .esi => r.esi
  | .edi => r.edi

/-- The data segments as a stub leaves them: all are `ds`. -/
def dataSegs (seg : Seg → UInt16) (ds : UInt16) : Seg → UInt16 :=
  Function.update (Function.update (Function.update (Function.update seg
    .ds ds) .es ds) .fs ds) .gs ds

/-- The registers as `popa` finds them. -/
def beforePopa (h : Hw) : Cpu :=
  ((h.cpu.setReg .esp (h.reg .esp + 4)).setReg .esp
    (h.reg .esp + 4 + 4)).setReg .eax (word h.mem (h.reg .esp + 4))

theorem exit_eq (h : Hw) :
    sysRun h commonExit
      = iret
        { cpu := (popAll (beforePopa h)).setReg .esp
            ((popAll (beforePopa h)).reg .esp + 8)
          seg := dataSegs h.seg (word h.mem (h.reg .esp + 4)).toUInt16
          eflags := h.eflags ||| FLAG_IF } := rfl

/-- The stack pointer of the frame's registers, replaced. -/
theorem setGpr (r : Registers) (m : Mem) (e e' : UInt32) {eip eip' esp : UInt32}
    (hesp : esp = e') :
    { Cpu.setReg ⟨r.gpr e, eip', m⟩ .esp esp with eip := eip }
      = (⟨r.gpr e', eip, m⟩ : Cpu) := by
  subst hesp
  unfold Cpu.setReg
  dsimp only
  congr 1
  funext q
  cases q <;> rfl

/-- The state at `iret`. -/
def atIret (h : Hw) (r : Registers) : Hw where
  cpu :=
    { reg := r.gpr (h.reg .esp + 48)
      eip := h.cpu.eip
      mem := h.mem }
  seg := dataSegs h.seg r.ds.toUInt16
  eflags := h.eflags ||| FLAG_IF

section Leave

variable {h : Hw} {r : Registers} {p : UInt32} {vs : List UInt32}

/-- At `iret` the registers are those of the frame, and the rest of it is
on the stack. -/
theorem exit_spec
    (hs : Stack h.mem (h.reg .esp).toNat (p :: (r.inner ++ vs)))
    (hfit : (h.reg .esp).toNat + 60 < 2 ^ 32) :
    sysRun h commonExit = iret (atIret h r)
      ∧ (h.reg .esp + 48).toNat = (h.reg .esp).toNat + 48
      ∧ Stack h.mem ((h.reg .esp).toNat + 48)
        (r.eip :: r.cs :: r.eflags :: vs) := by
  have hds : word h.mem (h.reg .esp + 4) = r.ds :=
    hs.get (i := 1) (by simp [Registers.inner]) rfl (by omega)
  have h4 := toNat_add_four (a := h.reg .esp) (by omega)
  have h8 := toNat_add_four (a := h.reg .esp + 4) (by omega)
  have hesp : (beforePopa h).reg .esp = h.reg .esp + 4 + 4 := rfl
  have hpop := popAll_spec (c := beforePopa h)
    (r.intNo :: r.errCode :: r.eip :: r.cs :: r.eflags :: vs)
    ((hs.tail (by omega)).tail (by omega)) (by rw [hesp]; omega)
  have hend : h.reg .esp + 4 + 4 + 32 + 8 = h.reg .esp + 48 := by
    simp only [UInt32.add_assoc]
    rfl
  refine ⟨?_, toNat_add (show _ + 48 < _ by omega), ?_⟩
  · rw [exit_eq, hpop, hesp, hds]
    unfold atIret
    congr 2
    unfold Cpu.setReg
    dsimp only
    rw [hend]
    congr 1
    funext q
    cases q with
    | eax => rfl
    | ecx => rfl
    | edx => rfl
    | ebx => rfl
    | esp => rfl
    | ebp => rfl
    | esi => rfl
    | edi => rfl
  · exact hs.2.2.2.2.2.2.2.2.2.2.2.2

/-- The way back into the ring that the stub runs in. -/
theorem leave_inner {cs : UInt16}
    (hs : Stack h.mem (h.reg .esp).toNat (p :: (r.inner ++ vs)))
    (hfit : (h.reg .esp).toNat + 60 < 2 ^ 32)
    (hcs : r.cs = cs.toUInt32) (hring : cs &&& 3 = h.ring) :
    sysRun h commonExit
      = { cpu :=
            { reg := r.gpr (h.reg .esp + 60)
              eip := r.eip
              mem := h.mem }
          seg := Function.update (dataSegs h.seg r.ds.toUInt16) .cs cs
          eflags := r.eflags } := by
  obtain ⟨hexit, hesp, hwords⟩ := exit_spec hs hfit
  rw [hcs, ← hesp] at hwords
  have hback : ¬ cs &&& 3 > h.ring := by
    rw [hring]
    exact UInt16.lt_irrefl _
  rw [hexit, iret_inner (h := atIret h r) hwords
    (show (h.reg .esp + 48).toNat + 12 < _ by omega) hback]
  congr 1
  have hend : h.reg .esp + 48 + 12 = h.reg .esp + 60 := by
    rw [UInt32.add_assoc]
    rfl
  exact setGpr r _ _ _ hend

/-- The way back to an outer ring. -/
theorem leave_outer {cs ss : UInt16} {ws : List UInt32}
    (hs : Stack h.mem (h.reg .esp).toNat
      (p :: (r.inner ++ r.useresp :: r.ss :: ws)))
    (hfit : (h.reg .esp).toNat + 68 < 2 ^ 32)
    (hcs : r.cs = cs.toUInt32) (hss : r.ss = ss.toUInt32)
    (hring : cs &&& 3 > h.ring) :
    sysRun h commonExit
      = { cpu :=
            { reg := r.gpr r.useresp
              eip := r.eip
              mem := h.mem }
          seg := outerSegs (cs &&& 3)
            (Function.update (Function.update
              (dataSegs h.seg r.ds.toUInt16) .cs cs) .ss ss)
          eflags := r.eflags } := by
  obtain ⟨hexit, hesp, hwords⟩ := exit_spec hs (by omega)
  rw [hcs, hss, ← hesp] at hwords
  rw [hexit, iret_outer (h := atIret h r) hwords
    (show (h.reg .esp + 48).toNat + 20 < _ by omega) hring]
  congr 1
  exact setGpr r _ _ _ rfl

end Leave

-- =============================================================== whole traps

/-- Interrupted code as the kernel has it: one data segment in all four
registers, in ring 0 or in ring 3 with a segment of that ring. -/
structure Flat (h : Hw) : Prop where
  es : h.seg .es = h.seg .ds
  fs : h.seg .fs = h.seg .ds
  gs : h.seg .gs = h.seg .ds
  ring : h.ring = 0 ∨ h.ring = 3 ∧ h.seg .ds &&& 3 = 3

/-- Going on after a trap, with a value in `eax`. -/
def resumed (h : Hw) (v : UInt32) (m : Mem) : Hw :=
  { h with cpu := { h.cpu.setReg .eax v with mem := m } }

/-- A frame with another `eax`. -/
def Registers.withEax (r : Registers) (v : UInt32) : Registers :=
  { r with eax := v }

theorem savedRegs_gpr (h : Hw) (n err e v : UInt32) :
    ((savedRegs h n err e).withEax v).gpr (h.reg .esp)
      = (h.cpu.setReg .eax v).reg := by
  funext q
  cases q with
  | eax => rfl
  | ecx => rfl
  | edx => rfl
  | ebx => rfl
  | esp => rfl
  | ebp => rfl
  | esi => rfl
  | edi => rfl

/-- The segments of interrupted code, put together again. -/
theorem flat_segs {h : Hw} (hflat : Flat h) {seg : Seg → UInt16}
    (hss : seg .ss = h.seg .ss) :
    Function.update (dataSegs seg (h.seg .ds)) .cs (h.seg .cs) = h.seg := by
  funext s
  cases s with
  | cs => rfl
  | ss => exact hss
  | ds => rfl
  | es => exact hflat.es.symm
  | fs => exact hflat.fs.symm
  | gs => exact hflat.gs.symm

theorem outer_segs {h : Hw} (hflat : Flat h) (seg : Seg → UInt16) :
    Function.update (Function.update (dataSegs seg (h.seg .ds)) .cs
      (h.seg .cs)) .ss (h.seg .ss) = h.seg := by
  funext s
  cases s with
  | cs => rfl
  | ss => rfl
  | ds => rfl
  | es => exact hflat.es.symm
  | fs => exact hflat.fs.symm
  | gs => exact hflat.gs.symm

/-- In ring 3 none of them is taken away. -/
theorem outerSegs_flat {h : Hw} (hflat : Flat h)
    (hds : h.seg .ds &&& 3 = 3) : outerSegs 3 h.seg = h.seg := by
  have hkeep : ¬ h.seg .ds &&& 3 < 3 := by
    rw [hds]
    exact UInt16.lt_irrefl 3
  funext s
  cases s with
  | cs => rfl
  | ss => rfl
  | ds => exact if_neg hkeep
  | es => exact if_neg (by rw [hflat.es]; exact hkeep)
  | fs => exact if_neg (by rw [hflat.fs]; exact hkeep)
  | gs => exact if_neg (by rw [hflat.gs]; exact hkeep)

section Trap

variable {tss : Tss} {gate : Gate} {h : Hw} {err : Bool} {v n : UInt32}
  (handler : Hw → Hw) {top : Nat} {e w : UInt32}

/-- A trap ends where it began, with the memory of the C function and what
it has put into the frame's `eax`, if it has left the rest of the frame
alone. -/
theorem trap_eq (hflat : Flat h) (hgate : gate.selector &&& 3 = 0)
    (htop : (trapStack tss h).2.toNat = top) (hroom : frameBytes h + 4 ≤ top)
    (hesp : (handler (atCall tss gate h err v n)).reg .esp
      = (atCall tss gate h err v n).reg .esp)
    (hseg : (handler (atCall tss gate h err v n)).seg
      = (atCall tss gate h err v n).seg)
    (hwords : Stack (handler (atCall tss gate h err v n)).mem
      (top - frameBytes h)
      (((savedRegs h n (errCode err v) e).withEax w).words h.ring)) :
    trap tss gate (errWords err v) (stubHead err n ++ commonEntry) handler h
      = resumed h w (handler (atCall tss gate h err v n)).mem := by
  obtain ⟨hat, -, -, -⟩ := enter_spec tss gate h err v n htop hroom
  obtain ⟨hcs, hss⟩ := enter_seg tss gate h err v n
  have htop' := (trapStack tss h).2.toNat_lt
  rw [← hesp] at hat
  rw [← hseg] at hcs hss
  unfold trap
  rw [← atCall]
  generalize handler (atCall tss gate h err v n) = g at hat hcs hss hwords ⊢
  have hinner : g.ring = 0 := by
    unfold Hw.ring
    rw [hcs]
    exact hgate
  have hkept : ((savedRegs h n (errCode err v) e).withEax w).ds.toUInt16
      = h.seg .ds :=
    toUInt16_toUInt32 _
  -- the argument, whatever the C function has made of it
  have hstack : Stack g.mem (g.reg .esp).toNat (word g.mem (g.reg .esp)
      :: ((savedRegs h n (errCode err v) e).withEax w).words h.ring) := by
    refine ⟨(toNat_word ..).symm, ?_⟩
    rw [hat, show top - (frameBytes h + 4) + 4 = top - frameBytes h by omega]
    exact hwords
  rcases hflat.ring with hring | ⟨hring, hds⟩
  · have hbytes : frameBytes h = 56 := if_pos hring
    have hesp' : g.reg .esp + 60 = h.reg .esp := by
      apply UInt32.toNat_inj.mp
      rw [toNat_add (show _ + 60 < _ by omega), hat, hbytes]
      have : (trapStack tss h).2 = h.reg .esp := by
        unfold trapStack
        rw [if_pos hring]
        rfl
      rw [this] at htop
      rw [htop]
      show top - (56 + 4) + 60 = top
      omega
    rw [Registers.words, if_pos hring] at hstack
    rw [if_pos hring] at hss
    rw [leave_inner hstack (by omega) rfl (hring.trans hinner.symm), hesp',
      savedRegs_gpr, hkept, flat_segs hflat hss]
    rfl
  · have hne : h.ring ≠ 0 := by
      rw [hring]
      decide
    have hbytes : frameBytes h = 64 := if_neg hne
    rw [Registers.words, if_neg hne] at hstack
    have hback : h.seg .cs &&& 3 > g.ring := by
      rw [hinner]
      show h.ring > 0
      rw [hring]
      decide
    rw [leave_outer hstack (by omega) rfl rfl hback, hkept,
      outer_segs hflat g.seg]
    show (⟨⟨((savedRegs h n (errCode err v) e).withEax w).gpr (h.reg .esp),
      h.cpu.eip, g.mem⟩, outerSegs h.ring h.seg, h.eflags⟩ : Hw) = _
    rw [savedRegs_gpr, hring, outerSegs_flat hflat hds]
    rfl

end Trap

end Thuos.Arch
