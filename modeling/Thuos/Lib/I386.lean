/-
A small i386: the general registers, the memory, and straight-line code
of moves, pushes, pops and a return.

Words are `UInt32`, so that an address wraps as it does on the machine;
memory is the byte memory of `ByteMem`. Code is a list of instructions
with no addresses of its own: `eip` is where the last transfer went.

What proofs use is the stack as a list. `Stack m a vs` says that the words
from `a` on are `vs`; a run of pushes puts its words in front
(`pushAll_spec`), a pop takes the one in front (`Stack.head`, `Stack.tail`),
and a stack is kept by whatever leaves its bytes alone (`Stack.congr`).
-/
import Thuos.Lib.ByteMem
import Thuos.Lib.Machine

namespace I386

open ByteMem

inductive Reg
  | eax | ecx | edx | ebx | esp | ebp | esi | edi
  deriving DecidableEq, Repr

structure Cpu where
  reg : Reg → UInt32
  eip : UInt32
  mem : Mem

inductive Instr
  /-- `movl disp(base), dst` -/
  | load (disp : UInt32) (base dst : Reg)
  /-- `movl src, (base)` -/
  | store (src base : Reg)
  /-- `movl src, dst` -/
  | mov (src dst : Reg)
  /-- `pushl src` -/
  | push (src : Reg)
  /-- `popl dst` -/
  | pop (dst : Reg)
  | ret
  deriving DecidableEq, Repr

/-- The word at an address. -/
def word (m : Mem) (a : UInt32) : UInt32 := UInt32.ofNat (m.load32 a.toNat)

def setWord (m : Mem) (a v : UInt32) : Mem := m.store32 a.toNat v.toNat

/-- Memory and stack pointer after a push. -/
def pushWord (p : Mem × UInt32) (v : UInt32) : Mem × UInt32 :=
  (setWord p.1 (p.2 - 4) v, p.2 - 4)

/-- A run of pushes, the first word first. -/
def pushAll (p : Mem × UInt32) (vs : List UInt32) : Mem × UInt32 :=
  vs.foldl pushWord p

namespace Cpu

def setReg (c : Cpu) (r : Reg) (v : UInt32) : Cpu :=
  { c with reg := Function.update c.reg r v }

/-- The stack pointer and the memory under it. -/
def stack (c : Cpu) : Mem × UInt32 := (c.mem, c.reg .esp)

def setStack (c : Cpu) (p : Mem × UInt32) : Cpu :=
  { c.setReg .esp p.2 with mem := p.1 }

end Cpu

def step (c : Cpu) : Instr → Cpu
  | .load disp base dst => c.setReg dst (word c.mem (c.reg base + disp))
  | .store src base =>
      { c with mem := setWord c.mem (c.reg base) (c.reg src) }
  | .mov src dst => c.setReg dst (c.reg src)
  | .push src => c.setStack (pushWord c.stack (c.reg src))
  | .pop dst =>
      (c.setReg .esp (c.reg .esp + 4)).setReg dst (word c.mem (c.reg .esp))
  | .ret =>
      { c.setReg .esp (c.reg .esp + 4) with eip := word c.mem (c.reg .esp) }

/-- A straight line of code. -/
def run (c : Cpu) (code : List Instr) : Cpu := Machine.exec step c code

/-- A program that is run in two parts is run as a whole. -/
theorem run_append (c : Cpu) (xs ys : List Instr) :
    run c (xs ++ ys) = run (run c xs) ys :=
  Machine.exec_append step c xs ys

-- =============================================================== registers

namespace Cpu

/-- The register that was written holds the value. -/
@[simp] theorem setReg_self (c : Cpu) (r : Reg) (v : UInt32) :
    (c.setReg r v).reg r = v :=
  Function.update_self ..

/-- Every other register holds what it held. -/
@[simp] theorem setReg_ne (c : Cpu) {r q : Reg} (v : UInt32) (h : q ≠ r) :
    (c.setReg r v).reg q = c.reg q :=
  Function.update_of_ne h ..

/-- A write to a register leaves memory alone. -/
@[simp] theorem setReg_mem (c : Cpu) (r : Reg) (v : UInt32) :
    (c.setReg r v).mem = c.mem := rfl

/-- A write to a register leaves the instruction pointer alone. -/
@[simp] theorem setReg_eip (c : Cpu) (r : Reg) (v : UInt32) :
    (c.setReg r v).eip = c.eip := rfl

/-- With a new stack comes its memory. -/
@[simp] theorem setStack_mem (c : Cpu) (p : Mem × UInt32) :
    (c.setStack p).mem = p.1 := rfl

/-- With a new stack comes its pointer. -/
@[simp] theorem setStack_esp (c : Cpu) (p : Mem × UInt32) :
    (c.setStack p).reg .esp = p.2 :=
  setReg_self c .esp p.2

/-- A new stack is in no register but the stack pointer. -/
@[simp] theorem setStack_ne (c : Cpu) (p : Mem × UInt32) {q : Reg}
    (h : q ≠ .esp) : (c.setStack p).reg q = c.reg q :=
  setReg_ne c p.2 h

end Cpu

-- =================================================================== words

/-- A push that has room for its word moves the pointer down by four bytes.
-/
theorem toNat_sub_four {a : UInt32} (h : 4 ≤ a.toNat) :
    (a - 4).toNat = a.toNat - 4 :=
  UInt32.toNat_sub_of_le a 4 (UInt32.le_iff_toNat_le.mpr h)

/-- An address that does not go over the end of memory is the sum of its
parts. -/
theorem toNat_add {a b : UInt32} (h : a.toNat + b.toNat < 2 ^ 32) :
    (a + b).toNat = a.toNat + b.toNat := by
  rw [UInt32.toNat_add]
  exact Nat.mod_eq_of_lt h

/-- A pop that stays in memory moves the pointer up by four bytes. -/
theorem toNat_add_four {a : UInt32} (h : a.toNat + 4 < 2 ^ 32) :
    (a + 4).toNat = a.toNat + 4 :=
  toNat_add h

/-- A word is known by its four bytes. -/
theorem word_eq {m : Mem} {a v : UInt32} (h : m.load32 a.toNat = v.toNat) :
    word m a = v := by
  unfold word
  rw [h, UInt32.ofNat_toNat]

/-- The word at an address is the number that its four bytes spell. -/
theorem toNat_word (m : Mem) (a : UInt32) :
    (word m a).toNat = m.load32 a.toNat := by
  unfold word
  rw [UInt32.toNat_ofNat']
  exact Nat.mod_eq_of_lt (Mem.load32_lt m _)

/-- A word that was stored is loaded again. -/
theorem load32_setWord (m : Mem) (a v : UInt32) :
    (setWord m a v).load32 a.toNat = v.toNat := by
  unfold setWord
  rw [Mem.load32_store32]
  exact Nat.mod_eq_of_lt v.toNat_lt

/-- A store of a word changes its four bytes and nothing else. -/
theorem setWord_outside (m : Mem) {a : UInt32} (v : UInt32) {x : Nat}
    (h : x < a.toNat ∨ a.toNat + 4 ≤ x) : setWord m a v x = m x :=
  Mem.store32_outside m _ h

-- =================================================================== stacks

/-- The words from `a` on are `vs`. -/
def Stack (m : Mem) (a : Nat) : List UInt32 → Prop
  | [] => True
  | v :: vs => m.load32 a = v.toNat ∧ Stack m (a + 4) vs

/-- No words are on the stack anywhere. -/
theorem Stack.nil (m : Mem) (a : Nat) : Stack m a [] := trivial

/-- The words on a stack are there as long as its own bytes are as they were.
-/
theorem Stack.congr {m m' : Mem} {a : Nat} {vs : List UInt32}
    (h : Stack m a vs)
    (heq : ∀ x, a ≤ x → x < a + 4 * vs.length → m' x = m x) :
    Stack m' a vs := by
  induction vs generalizing a with
  | nil => trivial
  | cons v vs ih =>
      rw [List.length_cons] at heq
      refine ⟨?_, ih h.2 fun x hx hx' => heq x (by omega) (by omega)⟩
      rw [← h.1]
      exact Mem.load32_congr fun x hx hx' => heq x hx (by omega)

/-- A run of pushes: the words are in front of the stack, the last one
first, and nothing but their place has changed. -/
theorem pushAll_spec {m : Mem} {e : UInt32} {ws vs : List UInt32}
    (hroom : 4 * ws.length ≤ e.toNat) (hs : Stack m e.toNat vs) :
    (pushAll (m, e) ws).2.toNat = e.toNat - 4 * ws.length
      ∧ Stack (pushAll (m, e) ws).1 (e.toNat - 4 * ws.length)
          (ws.reverse ++ vs)
      ∧ ∀ x, x < e.toNat - 4 * ws.length ∨ e.toNat ≤ x →
          (pushAll (m, e) ws).1 x = m x := by
  induction ws generalizing m e vs with
  | nil => exact ⟨rfl, hs, fun _ _ => rfl⟩
  | cons w ws ih =>
      rw [List.length_cons] at hroom ⊢
      have he : (e - 4).toNat = e.toNat - 4 := toNat_sub_four (by omega)
      have hpush : Stack (setWord m (e - 4) w) (e - 4).toNat (w :: vs) := by
        refine ⟨load32_setWord .., ?_⟩
        rw [he, show e.toNat - 4 + 4 = e.toNat by omega]
        exact hs.congr fun x hx _ => setWord_outside m w (by omega)
      obtain ⟨hesp, hstack, hframe⟩ := ih (by omega) hpush
      have hlen : (e - 4).toNat - 4 * ws.length
          = e.toNat - 4 * (ws.length + 1) := by omega
      rw [hlen] at hesp hstack hframe
      rw [List.reverse_cons, List.append_assoc]
      refine ⟨hesp, hstack, fun x hx => ?_⟩
      refine (hframe x (by omega)).trans ?_
      exact setWord_outside m w (by omega)

/-- The words of a stack, one after the other. -/
theorem Stack.head {m : Mem} {a : UInt32} {v : UInt32} {vs : List UInt32}
    (h : Stack m a.toNat (v :: vs)) : word m a = v :=
  word_eq h.1

/-- Behind the word on top lie the others, four bytes further up. -/
theorem Stack.tail {m : Mem} {a : UInt32} {v : UInt32} {vs : List UInt32}
    (h : Stack m a.toNat (v :: vs)) (hfit : a.toNat + 4 < 2 ^ 32) :
    Stack m (a + 4).toNat vs := by
  rw [toNat_add_four hfit]
  exact h.2

end I386
