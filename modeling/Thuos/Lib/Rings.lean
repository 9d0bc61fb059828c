/-
The i386 with its segment registers, its flags and its rings: what an
interrupt does, what `iret` undoes, and the instructions that handlers are
entered and left by.

The instructions that code uses everywhere are those of `I386`. The
arithmetic flags are left out: `xorl`, `addl`, `andl` and `orl` change the
registers only, for code whose flags an `iret` reloads before anything
reads them. Of the descriptors, the privilege level of a segment is that
in its selector.

An interrupt pushes a frame, onto the stack it finds in ring 0 and onto the
stack of the task state segment otherwise (`interrupt`); `iret` takes one
off, with a stack in it if it goes to an outer ring (`iret_inner`,
`iret_outer`).
-/
import Thuos.Lib.I386

namespace I386

open ByteMem

inductive Seg
  | cs | ss | ds | es | fs | gs
  deriving DecidableEq, Repr

/-- The processor with its segment registers and `eflags`. -/
structure Hw where
  cpu : Cpu
  seg : Seg → UInt16
  eflags : UInt32

/-- The interrupt, trap and nested-task flags. -/
def FLAG_IF : UInt32 := 0x200

def FLAG_TF : UInt32 := 0x100

def FLAG_NT : UInt32 := 0x4000

/-- The low half of a register, replaced. -/
def low16 (old : UInt32) (v : UInt16) : UInt32 :=
  (old &&& 0xFFFF0000) ||| v.toUInt32

namespace Hw

def reg (h : Hw) (r : Reg) : UInt32 := h.cpu.reg r

def mem (h : Hw) : Mem := h.cpu.mem

/-- The current privilege level. -/
def ring (h : Hw) : UInt16 := h.seg .cs &&& 3

def setReg (h : Hw) (r : Reg) (v : UInt32) : Hw :=
  { h with cpu := h.cpu.setReg r v }

def setStack (h : Hw) (p : Mem × UInt32) : Hw :=
  { h with cpu := h.cpu.setStack p }

def setSeg (h : Hw) (s : Seg) (v : UInt16) : Hw :=
  { h with seg := Function.update h.seg s v }

end Hw

-- ============================================================= instructions

inductive SysInstr
  | plain (i : Instr)
  /-- `pushl $v` -/
  | pushImm (v : UInt32)
  | pusha
  | popa
  | pushf
  /-- `movl $v, dst` -/
  | movImm (v : UInt32) (dst : Reg)
  /-- `movw $v, dst` -/
  | movImm16 (v : UInt16) (dst : Reg)
  /-- `xorl dst, dst` -/
  | clear (dst : Reg)
  /-- `movw s, dst` -/
  | readSeg (s : Seg) (dst : Reg)
  /-- `movw src, s` -/
  | loadSeg (s : Seg) (src : Reg)
  /-- `addl $v, dst` -/
  | add (v : UInt32) (dst : Reg)
  /-- `andl $v, dst` -/
  | and (v : UInt32) (dst : Reg)
  /-- `orl $v, dst` -/
  | or (v : UInt32) (dst : Reg)
  /-- `movl src, a` -/
  | storeAbs (src : Reg) (a : UInt32)
  /-- `movl a, dst` -/
  | loadAbs (a : UInt32) (dst : Reg)
  | cli
  | sti
  | iret
  deriving DecidableEq, Repr

/-- The registers that `pusha` pushes, the first one first. -/
def allRegs (h : Hw) : List UInt32 :=
  [h.reg .eax, h.reg .ecx, h.reg .edx, h.reg .ebx, h.reg .esp, h.reg .ebp,
    h.reg .esi, h.reg .edi]

/-- `popa`: the stack pointer among the words is skipped. -/
def popAll (c : Cpu) : Cpu :=
  let e := c.reg .esp
  let w := fun i : UInt32 => word c.mem (e + 4 * i)
  ((((((((c.setReg .edi (w 0)).setReg .esi (w 1)).setReg .ebp (w 2)).setReg
    .ebx (w 4)).setReg .edx (w 5)).setReg .ecx (w 6)).setReg .eax (w 7)).setReg
    .esp (e + 32))

/-- The segment registers after a return to ring `r`: what an inner ring
has left in the data segments is taken away. -/
def outerSegs (r : UInt16) (seg : Seg → UInt16) : Seg → UInt16
  | .cs => seg .cs
  | .ss => seg .ss
  | s => if seg s &&& 3 < r then 0 else seg s

/-- `iret`, in ring 0. -/
def iret (h : Hw) : Hw :=
  let e := h.reg .esp
  let cs := (word h.mem (e + 4)).toUInt16
  let h' : Hw :=
    { h with
      cpu := { h.cpu with eip := word h.mem e }
      eflags := word h.mem (e + 8) }
  if cs &&& 3 > h.ring then
    let seg := Function.update
      (Function.update h.seg .cs cs) .ss (word h.mem (e + 16)).toUInt16
    { h'.setReg .esp (word h.mem (e + 12)) with
      seg := outerSegs (cs &&& 3) seg }
  else (h'.setReg .esp (e + 12)).setSeg .cs cs

def sysStep (h : Hw) : SysInstr → Hw
  | .plain i => { h with cpu := step h.cpu i }
  | .pushImm v => h.setStack (pushWord h.cpu.stack v)
  | .pusha => h.setStack (pushAll h.cpu.stack (allRegs h))
  | .popa => { h with cpu := popAll h.cpu }
  | .pushf => h.setStack (pushWord h.cpu.stack h.eflags)
  | .movImm v dst => h.setReg dst v
  | .movImm16 v dst => h.setReg dst (low16 (h.reg dst) v)
  | .clear dst => h.setReg dst 0
  | .readSeg s dst => h.setReg dst (low16 (h.reg dst) (h.seg s))
  | .loadSeg s src => h.setSeg s (h.reg src).toUInt16
  | .add v dst => h.setReg dst (h.reg dst + v)
  | .and v dst => h.setReg dst (h.reg dst &&& v)
  | .or v dst => h.setReg dst (h.reg dst ||| v)
  | .storeAbs src a =>
      { h with cpu := { h.cpu with mem := setWord h.mem a (h.reg src) } }
  | .loadAbs a dst => h.setReg dst (word h.mem a)
  | .cli => { h with eflags := h.eflags &&& ~~~FLAG_IF }
  | .sti => { h with eflags := h.eflags ||| FLAG_IF }
  | .iret => iret h

/-- A straight line of code. -/
def sysRun (h : Hw) (code : List SysInstr) : Hw :=
  Machine.exec sysStep h code

theorem sysRun_append (h : Hw) (xs ys : List SysInstr) :
    sysRun h (xs ++ ys) = sysRun (sysRun h xs) ys :=
  Machine.exec_append sysStep h xs ys

-- =============================================================== interrupts

/-- The stack for ring 0 in the task state segment. -/
structure Tss where
  esp0 : UInt32
  ss0 : UInt16

/-- An interrupt gate. -/
structure Gate where
  offset : UInt32
  selector : UInt16

/-- The stack that an interrupt pushes onto. -/
def trapStack (tss : Tss) (h : Hw) : Mem × UInt32 :=
  if h.ring = 0 then h.cpu.stack else (h.mem, tss.esp0)

/-- What it pushes, the first word first. -/
def trapFrame (h : Hw) : List UInt32 :=
  (if h.ring = 0 then []
    else [(h.seg .ss).toUInt32, h.reg .esp])
    ++ [h.eflags, (h.seg .cs).toUInt32, h.cpu.eip]

/-- An interrupt or exception through a gate, with its error code if it has
one. -/
def interrupt (tss : Tss) (gate : Gate) (err : List UInt32) (h : Hw) : Hw :=
  { cpu :=
      { h.cpu.setStack (pushAll (trapStack tss h) (trapFrame h ++ err)) with
        eip := gate.offset }
    seg := Function.update
      (if h.ring = 0 then h.seg else Function.update h.seg .ss tss.ss0)
      .cs gate.selector
    eflags := h.eflags &&& ~~~(FLAG_IF ||| FLAG_TF ||| FLAG_NT) }

-- ==================================================================== words

theorem toUInt16_toUInt32 (v : UInt16) : v.toUInt32.toUInt16 = v := by
  apply UInt16.toNat_inj.mp
  simp

theorem pushAll_append (p : Mem × UInt32) (vs ws : List UInt32) :
    pushAll p (vs ++ ws) = pushAll (pushAll p vs) ws :=
  List.foldl_append

/-- Clearing a register makes room for the low half. -/
theorem low16_zero (v : UInt16) : low16 0 v = v.toUInt32 := by
  unfold low16
  simp

/-- The words of a stack by their place. -/
theorem Stack.load {m : Mem} {a : Nat} {vs : List UInt32} (h : Stack m a vs)
    {i : Nat} (hi : i < vs.length) : m.load32 (a + 4 * i) = vs[i].toNat := by
  induction vs generalizing a i with
  | nil => exact absurd hi (Nat.not_lt_zero _)
  | cons v vs ih =>
      cases i with
      | zero => exact h.1
      | succ i =>
          have hrest := ih h.2 (Nat.lt_of_succ_lt_succ hi)
          rw [List.getElem_cons_succ, ← hrest]
          congr 1
          omega

theorem Stack.get {m : Mem} {a k : UInt32} {vs : List UInt32}
    (h : Stack m a.toNat vs) {i : Nat} (hi : i < vs.length)
    (hk : k.toNat = 4 * i) (hfit : a.toNat + 4 * i < 2 ^ 32) :
    word m (a + k) = vs[i] := by
  apply word_eq
  rw [toNat_add (by omega), hk]
  exact h.load hi

/-- One word of a stack, replaced. -/
theorem Stack.set {m : Mem} {a : Nat} {b : UInt32} {vs : List UInt32}
    (h : Stack m a vs) (v : UInt32) {i : Nat} (hb : b.toNat = a + 4 * i)
    (hi : i < vs.length) : Stack (setWord m b v) a (vs.set i v) := by
  induction vs generalizing a i with
  | nil => exact absurd hi (Nat.not_lt_zero _)
  | cons w vs ih =>
      cases i with
      | zero =>
          refine ⟨?_, h.2.congr fun x hx _ => setWord_outside m v (by omega)⟩
          rw [show a = b.toNat by omega]
          exact load32_setWord m b v
      | succ i =>
          refine ⟨?_, ih h.2 (by omega) (Nat.lt_of_succ_lt_succ hi)⟩
          rw [← h.1]
          exact Mem.load32_congr fun x _ _ => setWord_outside m v (by omega)

-- ======================================================= returning from traps

section Iret

variable {h : Hw} {eip fl esp : UInt32} {cs ss : UInt16}

/-- A return within a ring. -/
theorem iret_inner {vs : List UInt32}
    (hs : Stack h.mem (h.reg .esp).toNat (eip :: cs.toUInt32 :: fl :: vs))
    (hfit : (h.reg .esp).toNat + 12 < 2 ^ 32) (hring : ¬ cs &&& 3 > h.ring) :
    iret h
      = { cpu := { h.cpu.setReg .esp (h.reg .esp + 12) with eip := eip }
          seg := Function.update h.seg .cs cs
          eflags := fl } := by
  have heip : word h.mem (h.reg .esp) = eip := hs.head
  have hcs : word h.mem (h.reg .esp + 4) = cs.toUInt32 :=
    hs.get (i := 1) (by simp) rfl (by omega)
  have hfl : word h.mem (h.reg .esp + 8) = fl :=
    hs.get (i := 2) (by simp) rfl (by omega)
  unfold iret
  simp only [heip, hcs, hfl, toUInt16_toUInt32, if_neg hring]
  rfl

/-- A return to an outer ring, onto its own stack. -/
theorem iret_outer {vs : List UInt32}
    (hs : Stack h.mem (h.reg .esp).toNat
      (eip :: cs.toUInt32 :: fl :: esp :: ss.toUInt32 :: vs))
    (hfit : (h.reg .esp).toNat + 20 < 2 ^ 32) (hring : cs &&& 3 > h.ring) :
    iret h
      = { cpu := { h.cpu.setReg .esp esp with eip := eip }
          seg := outerSegs (cs &&& 3)
            (Function.update (Function.update h.seg .cs cs) .ss ss)
          eflags := fl } := by
  have heip : word h.mem (h.reg .esp) = eip := hs.head
  have hcs : word h.mem (h.reg .esp + 4) = cs.toUInt32 :=
    hs.get (i := 1) (by simp) rfl (by omega)
  have hfl : word h.mem (h.reg .esp + 8) = fl :=
    hs.get (i := 2) (by simp) rfl (by omega)
  have hesp : word h.mem (h.reg .esp + 12) = esp :=
    hs.get (i := 3) (by simp) rfl (by omega)
  have hss : word h.mem (h.reg .esp + 16) = ss.toUInt32 :=
    hs.get (i := 4) (by simp) rfl (by omega)
  unfold iret
  simp only [heip, hcs, hfl, hesp, hss, toUInt16_toUInt32, if_pos hring]
  rfl

end Iret

/-- The pushes of some words, onto any stack. -/
theorem pushAll_eq {m : Mem} {e : UInt32} (ws : List UInt32)
    (hroom : 4 * ws.length ≤ e.toNat) :
    (pushAll (m, e) ws).2.toNat = e.toNat - 4 * ws.length
      ∧ Stack (pushAll (m, e) ws).1 (e.toNat - 4 * ws.length) ws.reverse
      ∧ ∀ x, x < e.toNat - 4 * ws.length ∨ e.toNat ≤ x →
        (pushAll (m, e) ws).1 x = m x := by
  obtain ⟨hesp, hwords, hframe⟩ := pushAll_spec hroom (Stack.nil m e.toNat)
  rw [List.append_nil] at hwords
  exact ⟨hesp, hwords, hframe⟩

/-- `popa` takes off what `pusha` has put on, but for the stack pointer. -/
theorem popAll_spec {c : Cpu} {eax ecx edx ebx e ebp esi edi : UInt32}
    (vs : List UInt32)
    (hs : Stack c.mem (c.reg .esp).toNat
      (edi :: esi :: ebp :: e :: ebx :: edx :: ecx :: eax :: vs))
    (hfit : (c.reg .esp).toNat + 32 < 2 ^ 32) :
    popAll c
      = { reg := fun r => match r with
            | .eax => eax | .ecx => ecx | .edx => edx | .ebx => ebx
            | .esp => c.reg .esp + 32 | .ebp => ebp | .esi => esi | .edi => edi
          eip := c.eip
          mem := c.mem } := by
  have hedi : word c.mem (c.reg .esp + 4 * 0) = edi :=
    hs.get (i := 0) (by simp) rfl (by omega)
  have hesi : word c.mem (c.reg .esp + 4 * 1) = esi :=
    hs.get (i := 1) (by simp) rfl (by omega)
  have hebp : word c.mem (c.reg .esp + 4 * 2) = ebp :=
    hs.get (i := 2) (by simp) rfl (by omega)
  have hebx : word c.mem (c.reg .esp + 4 * 4) = ebx :=
    hs.get (i := 4) (by simp) rfl (by omega)
  have hedx : word c.mem (c.reg .esp + 4 * 5) = edx :=
    hs.get (i := 5) (by simp) rfl (by omega)
  have hecx : word c.mem (c.reg .esp + 4 * 6) = ecx :=
    hs.get (i := 6) (by simp) rfl (by omega)
  have heax : word c.mem (c.reg .esp + 4 * 7) = eax :=
    hs.get (i := 7) (by simp) rfl (by omega)
  unfold popAll
  simp only [hedi, hesi, hebp, hebx, hedx, hecx, heax]
  unfold Cpu.setReg
  congr 1
  funext r
  cases r with
  | eax => rfl
  | ecx => rfl
  | edx => rfl
  | ebx => rfl
  | esp => rfl
  | ebp => rfl
  | esi => rfl
  | edi => rfl

end I386
