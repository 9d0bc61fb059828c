/-
Interrupts are invisible to the code that they interrupt.

Below its stack pointer, code owns nothing: there an interrupt puts its
frame, and there the handler runs. What the interrupted code sees is
everything else, but for the kernel's own data. A taken interrupt leaves
that as it was (`deliver_same`), so a run in which interrupts come at any
place is, for the code, a run of its own steps, and for the devices a run
of their handlers (`interrupts_invisible`). Code in ring 0 and in ring 3
is the same in this; only the stack of the frame is another.
-/
import Thuos.Arch.Irq

namespace Thuos.Arch

open Machine ByteMem I386

/-- Two states of the processor that differ in the bytes `P` only. -/
structure SameBut (P : Nat → Prop) (h h' : Hw) : Prop where
  reg : h'.cpu.reg = h.cpu.reg
  eip : h'.cpu.eip = h.cpu.eip
  seg : h'.seg = h.seg
  eflags : h'.eflags = h.eflags
  mem : ∀ x, ¬ P x → h'.mem x = h.mem x

/-- What an interrupt may write: the kernel's data `K`, and the stack from
`lo` up to where it finds the stack pointer. -/
def Hidden (tss : Tss) (lo : Nat) (K : Nat → Prop) (h : Hw) (x : Nat) : Prop :=
  K x ∨ lo ≤ x ∧ x < (trapStack tss h).2.toNat

/-- The stack has room for a frame, and is not among the kernel's data. -/
structure Ready (tss : Tss) (lo hi : Nat) (h : Hw) : Prop where
  flat : Flat h
  room : lo + (frameBytes h + 4) ≤ (trapStack tss h).2.toNat
  fits : (trapStack tss h).2.toNat ≤ hi

/-- Gates into ring 0, and a compiled handler that keeps to the rules. -/
structure Setup.Sound (k : Setup) (lo hi : Nat) (K : Nat → Prop) : Prop where
  gates : ∀ v, (k.gate v).selector &&& 3 = 0
  compiled : ∀ h, CCall lo K h (k.compiled h)
  apart : ∀ x, K x → x < lo ∨ hi ≤ x

/-- The step of a program depends on nothing that interrupts write. -/
def Blind (tss : Tss) (lo hi : Nat) (K : Nat → Prop) (prog : Hw → Hw) :
    Prop :=
  ∀ h h', Ready tss lo hi h → SameBut (Hidden tss lo K h) h h' →
    SameBut (Hidden tss lo K (prog h)) (prog h) (prog h')

-- ============================================================= one interrupt

namespace SameBut

variable {P Q : Nat → Prop} {h h' h'' : Hw}

/-- A state differs from itself nowhere. -/
theorem refl (P : Nat → Prop) (h : Hw) : SameBut P h h :=
  ⟨rfl, rfl, rfl, rfl, fun _ _ => rfl⟩

/-- States that differ in certain bytes one by one differ in no others from
the first to the last. -/
theorem trans (h₁ : SameBut P h h') (h₂ : SameBut P h' h'') :
    SameBut P h h'' :=
  ⟨h₂.reg.trans h₁.reg, h₂.eip.trans h₁.eip, h₂.seg.trans h₁.seg,
    h₂.eflags.trans h₁.eflags,
    fun x hx => (h₂.mem x hx).trans (h₁.mem x hx)⟩

/-- The code segment is not in memory, so the ring is the same. -/
theorem ring (hs : SameBut P h h') : h'.ring = h.ring :=
  congrArg (· .cs &&& 3) hs.seg

/-- The trap stack begins at the same place: its pointer is a register or in
the task state. -/
theorem top (hs : SameBut P h h') (tss : Tss) :
    (trapStack tss h').2 = (trapStack tss h).2 := by
  have hesp : h'.cpu.reg .esp = h.cpu.reg .esp := congrFun hs.reg .esp
  unfold trapStack
  rw [hs.ring]
  by_cases hring : h.ring = 0
  · rw [if_pos hring, if_pos hring]
    exact hesp
  · rw [if_neg hring, if_neg hring]

/-- What an interrupt may write is the same in both states, since the stack
pointer is. -/
theorem hidden (hs : SameBut P h h') (tss : Tss) (lo : Nat) (K : Nat → Prop) :
    Hidden tss lo K h' = Hidden tss lo K h := by
  unfold Hidden
  rw [hs.top tss]

end SameBut

/-- Room and segments are found in the registers, so a state that differs in
memory only has them. -/
theorem Ready.congr {tss : Tss} {lo hi : Nat} {P : Nat → Prop} {h h' : Hw}
    (hr : Ready tss lo hi h) (hs : SameBut P h h') : Ready tss lo hi h' := by
  have hbytes : frameBytes h' = frameBytes h := by
    unfold frameBytes
    rw [hs.ring]
  refine ⟨⟨?_, ?_, ?_, ?_⟩, ?_, ?_⟩
  · rw [hs.seg]
    exact hr.flat.es
  · rw [hs.seg]
    exact hr.flat.fs
  · rw [hs.seg]
    exact hr.flat.gs
  · rw [hs.ring, hs.seg]
    exact hr.flat.ring
  · rw [hs.top tss, hbytes]
    exact hr.room
  · rw [hs.top tss]
    exact hr.fits

section Deliver

variable {δ : Type*} {k : Setup} {lo hi : Nat} {K : Nat → Prop}

/-- A value is put into `eax` that is there. -/
theorem resumed_self (h : Hw) (m : ByteMem.Mem) :
    resumed h (h.reg .eax) m = { h with cpu := { h.cpu with mem := m } } := by
  unfold resumed Cpu.setReg Hw.reg
  rw [Function.update_eq_self]

/-- What the C function finds at the call, and what the code finds when it
goes on. -/
theorem trap_same (hk : k.Sound lo hi K) {h : Hw} (hr : Ready k.tss lo hi h)
    (gate : Gate) (hgate : gate.selector &&& 3 = 0) (n : UInt32) :
    (registersAt (atCall k.tss gate h false 0 n).mem
        (word (atCall k.tss gate h false 0 n).mem
          ((atCall k.tss gate h false 0 n).reg .esp))).intNo = n
      ∧ SameBut (Hidden k.tss lo K h) h
        (sysRun (k.compiled (atCall k.tss gate h false 0 n)) commonExit) := by
  obtain ⟨hflat, hroom, hfits⟩ := hr
  have htop := (trapStack k.tss h).2.toNat_lt
  have hbytes : 56 ≤ frameBytes h := by
    unfold frameBytes
    split <;> omega
  obtain ⟨hesp, hptr, hstack, hframe⟩ := enter_spec k.tss gate h false 0 n rfl
    (by omega)
  have hcall := hk.compiled (atCall k.tss gate h false 0 n)
  have hbelow : (trapStack k.tss h).2.toNat - (frameBytes h + 4) + 4
      = (trapStack k.tss h).2.toNat - frameBytes h := by omega
  constructor
  · have harg : word (atCall k.tss gate h false 0 n).mem
        ((atCall k.tss gate h false 0 n).reg .esp)
        = framePtr k.tss h false 0 n := by
      rw [← hesp] at hstack
      exact hstack.head
    have hwords := hstack.2
    rw [hbelow, ← hptr, Registers.words] at hwords
    rw [harg, registersAt_inner hwords (by omega)]
    rfl
  · -- the frame is above what the C function may write, and no kernel data
    have hwords : Stack (k.compiled (atCall k.tss gate h false 0 n)).mem
        ((trapStack k.tss h).2.toNat - frameBytes h)
        (((savedRegs h n (errCode false 0) (atPusha k.tss h false 0 n)).withEax
          (h.reg .eax)).words h.ring) := by
      rw [← hbelow]
      refine hstack.2.congr fun x hx hx' => hcall.mem x ?_ ?_
      · have hlen := words_length h
          (savedRegs h n (errCode false 0) (atPusha k.tss h false 0 n))
        intro hK
        have := hk.apart x hK
        omega
      · right
        omega
    have htrap := trap_eq k.compiled hflat hgate rfl (by omega) hcall.esp
      hcall.seg hwords
    rw [resumed_self] at htrap
    have hrun : sysRun (k.compiled (atCall k.tss gate h false 0 n)) commonExit
        = { h with
            cpu :=
              { h.cpu with
                mem := (k.compiled (atCall k.tss gate h false 0 n)).mem } } :=
      htrap
    rw [hrun]
    generalize atCall k.tss gate h false 0 n = s at hesp hframe hcall
    refine ⟨rfl, rfl, rfl, rfl, fun x hx => ?_⟩
    have hK : ¬ K x := fun hK => hx (Or.inl hK)
    have hout : x < lo ∨ (trapStack k.tss h).2.toNat ≤ x := by
      by_contra hno
      exact hx (Or.inr (by omega))
    show (k.compiled s).mem x = h.mem x
    rw [hcall.mem x hK (by omega), hframe x (by omega)]

/-- The system beside the one that it is meant to be. -/
structure Matches (k : Setup) (lo : Nat) (K : Nat → Prop) (a b : Board δ) :
    Prop where
  hw : SameBut (Hidden k.tss lo K a.hw) a.hw b.hw
  irqs : b.irqs = a.irqs
  latched : b.latched = a.latched
  served : b.served = a.served

variable {prog : Hw → Hw} {a b : Board δ}

/-- The way of an interrupt, with the state at the call of the C function by
its name. -/
theorem deliver_eq (b : Board δ) (pics : Pics) (vector : UInt8) :
    deliver k b pics vector
      = { hw := sysRun (k.compiled (atCall k.tss (k.gate vector) b.hw false 0
            (UInt32.ofNat (32 + lineOf vector)))) commonExit
          irqs := irqHandler { b.irqs with pics := pics }
            (registersAt (atCall k.tss (k.gate vector) b.hw false 0
                (UInt32.ofNat (32 + lineOf vector))).mem
              (word (atCall k.tss (k.gate vector) b.hw false 0
                  (UInt32.ofNat (32 + lineOf vector))).mem
                ((atCall k.tss (k.gate vector) b.hw false 0
                  (UInt32.ofNat (32 + lineOf vector))).reg .esp))).intNo
          latched := b.latched
          served := b.served ++ [lineOf vector] } := rfl

/-- An interrupt leaves the processor as it was for the code, and does to the
devices what the handler does at once. -/
theorem deliver_matches (hk : k.Sound lo hi K) (hr : Ready k.tss lo hi a.hw)
    (hm : Matches k lo K a b) (pics : Pics) (vector : UInt8) :
    Matches k lo K
      { a with
        irqs := irqHandler { a.irqs with pics := pics }
          (UInt32.ofNat (32 + lineOf vector))
        served := a.served ++ [lineOf vector] }
      (deliver k b pics vector) := by
  obtain ⟨hnum, hsame⟩ := trap_same hk (hr.congr hm.hw) (k.gate vector)
    (hk.gates vector) (UInt32.ofNat (32 + lineOf vector))
  rw [hm.hw.hidden] at hsame
  rw [deliver_eq, hnum, hm.irqs, hm.latched, hm.served]
  generalize sysRun (k.compiled _) commonExit = g at hsame ⊢
  exact ⟨hm.hw.trans hsame, rfl, rfl, rfl⟩

/-- One turn. -/
theorem turn_matches (hk : k.Sound lo hi K) (hprog : Blind k.tss lo hi K prog)
    (hr : Ready k.tss lo hi a.hw) (hm : Matches k lo K a b) (t : Turn) :
    Matches k lo K (atOnce k prog a t) (turn k prog b t) := by
  cases t with
  | work => exact ⟨hprog _ _ hr hm.hw, hm.irqs, hm.latched, hm.served⟩
  | edge n =>
      refine ⟨hm.hw, ?_, ?_, hm.served⟩
      · show ({ b.irqs with pics := b.irqs.pics.raise n } : Irqs δ) = _
        rw [hm.irqs]
        rfl
      · show (if n.val = 2 ∨ b.irqs.pics.pending n then b.latched
          else b.latched ++ [n.val]) = _
        rw [hm.irqs, hm.latched]
        rfl
  | mask m1 m2 =>
      refine ⟨hm.hw, ?_, hm.latched, hm.served⟩
      show ({ b.irqs with
        pics := (b.irqs.pics.outb PIC1_DATA m1).outb PIC2_DATA m2 } :
          Irqs δ) = _
      rw [hm.irqs]
      rfl
  | take =>
      unfold turn atOnce
      dsimp only
      rw [hm.hw.eflags, hm.irqs]
      by_cases hflag : a.hw.eflags &&& FLAG_IF = 0
      · rw [if_pos hflag, if_pos hflag]
        exact hm
      · rw [if_neg hflag, if_neg hflag]
        cases a.irqs.pics.intAck with
        | none => exact hm
        | some r => exact deliver_matches hk hr hm r.1 r.2

/-- The code that is meant to be alone is. -/
theorem atOnce_hw (k : Setup) (prog : Hw → Hw) (a : Board δ)
    (turns : List Turn) :
    (exec (atOnce k prog) a turns).hw = prog^[turns.count .work] a.hw := by
  induction turns generalizing a with
  | nil => rfl
  | cons t turns ih =>
      rw [exec_cons, ih]
      cases t with
      | work => simp [atOnce, turn]
      | edge n => simp [atOnce, turn]
      | mask m1 m2 => simp [atOnce, turn]
      | take =>
          have hsame : (atOnce k prog a .take).hw = a.hw := by
            unfold atOnce
            dsimp only
            split
            · rfl
            · split <;> rfl
          simp [hsame]

/-- In a whole run the system stays beside the one that it is meant to be. -/
theorem run_matches (hk : k.Sound lo hi K) (hprog : Blind k.tss lo hi K prog)
    (hready : ∀ n, Ready k.tss lo hi (prog^[n] a.hw))
    (hm : Matches k lo K a b) (turns : List Turn) :
    Matches k lo K (exec (atOnce k prog) a turns)
      (exec (turn k prog) b turns) := by
  induction turns generalizing a b with
  | nil => exact hm
  | cons t turns ih =>
      refine ih (fun n => ?_) (turn_matches hk hprog (hready 0) hm t)
      have hstep := atOnce_hw k prog a [t]
      rw [exec_cons, exec_nil] at hstep
      rw [hstep, ← Function.iterate_add_apply]
      exact hready _

end Deliver

/-- Interrupts that come at any place in a run, from any device and however
often, leave the interrupted code where its own steps alone lead it, but for
what it cannot see; and the devices, the controllers and the order of
service are those of a system in which an interrupt is nothing but the
handler of its line. -/
theorem interrupts_invisible {δ : Type*} {k : Setup} {lo hi : Nat}
    {K : Nat → Prop} (hk : k.Sound lo hi K) {prog : Hw → Hw}
    (hprog : Blind k.tss lo hi K prog) (b : Board δ)
    (hready : ∀ n, Ready k.tss lo hi (prog^[n] b.hw)) (turns : List Turn) :
    SameBut
        (Hidden k.tss lo K (prog^[turns.count .work] b.hw))
        (prog^[turns.count .work] b.hw) (exec (turn k prog) b turns).hw
      ∧ (exec (turn k prog) b turns).irqs
        = (exec (atOnce k prog) b turns).irqs
      ∧ (exec (turn k prog) b turns).latched
        = (exec (atOnce k prog) b turns).latched
      ∧ (exec (turn k prog) b turns).served
        = (exec (atOnce k prog) b turns).served := by
  have hm := run_matches hk hprog hready
    ⟨SameBut.refl _ b.hw, rfl, rfl, rfl⟩ turns
  rw [← atOnce_hw (k := k)]
  exact ⟨hm.hw, hm.irqs, hm.latched, hm.served⟩

-- ================================================================ an instance

/-- A handler that counts in memory, on the stack of whatever it
interrupts. -/
def countingSetup : Setup where
  tss := ⟨0x9000, 0x10⟩
  gate := fun _ => ⟨0, 0x08⟩
  compiled := fun h =>
    { h with
      cpu := { h.cpu with mem := h.mem.set 0x100 (h.mem 0x100 + 1) } }

/-- A program that counts in a register. -/
def countingProg (h : Hw) : Hw := h.setReg .eax (h.reg .eax + 1)

def countingHw : Hw where
  cpu := { reg := fun _ => 0x2000, eip := 0, mem := fun _ => 0 }
  seg := fun s => if s = .cs then 0x08 else 0x10
  eflags := 0x202

/-- The counting handler writes one byte, which is among the kernel's data.
-/
theorem countingSetup_sound (lo hi : Nat) (hlo : 0x100 < lo) :
    countingSetup.Sound lo hi fun x => x = 0x100 := by
  refine ⟨fun _ => show (0x08 : UInt16) &&& 3 = 0 by decide,
    fun h => ⟨rfl, rfl, fun x hx _ => ?_⟩, ?_⟩
  · exact if_neg hx
  · intro x hx
    omega

/-- To count in a register does not move the trap stack. -/
theorem countingProg_trapStack (tss : Tss) (h : Hw) :
    (trapStack tss (countingProg h)).2 = (trapStack tss h).2 := by
  unfold trapStack
  by_cases hring : h.ring = 0
  · rw [if_pos hring, if_pos (show (countingProg h).ring = 0 from hring)]
    rfl
  · rw [if_neg hring, if_neg (show ¬ (countingProg h).ring = 0 from hring)]

/-- The counting program reads no memory, so it is blind to all of it. -/
theorem countingProg_blind (lo hi : Nat) (K : Nat → Prop) :
    Blind countingSetup.tss lo hi K countingProg := by
  intro h h' _ hs
  have heax : h'.reg .eax = h.reg .eax := congrFun hs.reg .eax
  refine ⟨?_, hs.eip, hs.seg, hs.eflags, fun x hx => hs.mem x ?_⟩
  · show Function.update h'.cpu.reg _ (h'.reg .eax + 1) = _
    rw [hs.reg, heax]
    rfl
  · unfold Hidden at hx ⊢
    rw [countingProg_trapStack] at hx
    exact hx

/-- The counting program keeps its stack pointer and its segments. -/
theorem countingProg_keeps {lo hi : Nat} {h : Hw}
    (hr : Ready countingSetup.tss lo hi h) :
    Ready countingSetup.tss lo hi (countingProg h) := by
  have htop := countingProg_trapStack countingSetup.tss h
  obtain ⟨hflat, hroom, hfits⟩ := hr
  refine ⟨⟨hflat.es, hflat.fs, hflat.gs, hflat.ring⟩, ?_, ?_⟩
  · rw [htop]
    exact hroom
  · rw [htop]
    exact hfits

/-- The counting program has room for an interrupt after any number of its
steps. -/
theorem countingProg_ready (n : Nat) :
    Ready countingSetup.tss 0x1000 0x2000 (countingProg^[n] countingHw) := by
  induction n with
  | zero =>
      exact ⟨⟨rfl, rfl, rfl, Or.inl rfl⟩, by decide, by decide⟩
  | succ n ih =>
      rw [Function.iterate_succ_apply']
      exact countingProg_keeps ih

/-- Chips that have not been set up. -/
def rawChip : Chip := ⟨fun _ => false, fun _ => false, 0, 0, 0, 0⟩

/-- The timer counts its ticks. -/
def tickHandlers : Nat → Option (Nat → Nat) :=
  fun n => if n = 0 then some (· + 1) else none

def countingBoard : Board Nat :=
  boardStart countingHw ⟨rawChip, rawChip⟩ tickHandlers 0

def countingTurns : List Turn :=
  [.edge Pics.MOUSE_LINE, .work, .edge Pics.TIMER_LINE, .take, .work,
    .edge Pics.TIMER_LINE, .take]

/-- The counting program beside a timer that interrupts it twice and a mouse
that waits. -/
theorem interrupts_invisible_counting :
    SameBut
      (Hidden countingSetup.tss 0x1000 (fun x => x = 0x100)
        (countingProg^[countingTurns.count .work] countingBoard.hw))
      (countingProg^[countingTurns.count .work] countingBoard.hw)
      (exec (turn countingSetup countingProg) countingBoard countingTurns).hw :=
  (interrupts_invisible (countingSetup_sound _ _ (by decide))
    (countingProg_blind _ _ _) countingBoard countingProg_ready
    countingTurns).1

end Thuos.Arch
