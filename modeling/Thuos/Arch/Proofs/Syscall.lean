/-
A system call changes `eax`, and nothing else that the caller sees.

The dispatcher reads the number and the arguments in the frame, where they
are the caller's registers, and stores its result there, in the word that
the way back pops into `eax`. So `int $0x80` is the call of the table's
function on the registers (`int80_spec`), from ring 0 and from ring 3.
-/
import Thuos.Arch.Proofs.Invisible
import Thuos.Arch.Syscall

namespace Thuos.Arch

open Machine ByteMem I386 Gui Thuos.Core

section Int80

variable {k : Setup} {kresume : UInt32} {lo hi : Nat}
  {K : Nat → Prop} {u : UserRun}

/-- The call that the registers ask for. -/
def callOf (glyph : Glyphs) (m : Mem) (u : UserRun) : SysState × Outcome :=
  let s := { u.sys with lastCs := (u.hw.seg .cs).toUInt32 }
  syscallCall s.table SYS_MAX (u.hw.reg .eax)
    (SysFn.call glyph m s (u.hw.reg .ebx) (u.hw.reg .ecx) (u.hw.reg .edx))
    (s, .returns SYS_ENOSYS)

/-- The state at the call of the dispatcher. -/
def atDispatch (k : Setup) (h : Hw) : Hw :=
  atCall k.tss (k.gate 0x80) h false 0 0x80

theorem atDispatch_frame (glyph : Glyphs) (hr : Ready k.tss lo hi u.hw) :
    ∃ p, word (atDispatch k u.hw).mem ((atDispatch k u.hw).reg .esp) = p
      ∧ p.toNat = (trapStack k.tss u.hw).2.toNat - frameBytes u.hw
      ∧ ((atDispatch k u.hw).reg .esp).toNat + 4 = p.toNat
      ∧ Stack (atDispatch k u.hw).mem p.toNat
        ((savedRegs u.hw 0x80 (errCode false 0)
          (atPusha k.tss u.hw false 0 0x80)).words u.hw.ring)
      ∧ syscallDispatch glyph (atDispatch k u.hw).mem u.sys
          (registersAt (atDispatch k u.hw).mem p)
        = callOf glyph (atDispatch k u.hw).mem u := by
  obtain ⟨hflat, hroom, hfits⟩ := hr
  have htop := (trapStack k.tss u.hw).2.toNat_lt
  have hbytes : 56 ≤ frameBytes u.hw := by
    unfold frameBytes
    split <;> omega
  obtain ⟨hesp, hptr, hstack, -⟩ := enter_spec k.tss (k.gate 0x80) u.hw false 0
    0x80 rfl (by omega)
  rw [← atDispatch] at hesp hstack
  have hwords := hstack.2
  rw [show (trapStack k.tss u.hw).2.toNat - (frameBytes u.hw + 4) + 4
    = (trapStack k.tss u.hw).2.toNat - frameBytes u.hw by omega, ← hptr]
    at hwords
  refine ⟨framePtr k.tss u.hw false 0 0x80, ?_, hptr, by omega, hwords, ?_⟩
  · rw [← hesp] at hstack
    exact hstack.head
  · rw [Registers.words] at hwords
    rw [registersAt_inner hwords (by omega)]
    rfl

theorem syscallStub_eq (k : Setup) (h : Hw) :
    sysRun (interrupt k.tss (k.gate 0x80) [] h) syscallStub
      = atDispatch k h := rfl

/-- The way back, with a result in the frame. -/
theorem resume_eax (hk : k.Sound lo hi K) (hr : Ready k.tss lo hi u.hw)
    (v : UInt32) :
    SameBut (Hidden k.tss lo K u.hw) (u.hw.setReg .eax v)
      (sysRun (storeEax
        (word (atDispatch k u.hw).mem ((atDispatch k u.hw).reg .esp)) v
        (k.compiled (atDispatch k u.hw))) commonExit) := by
  obtain ⟨p, harg, hptr, hesp, hwords, -⟩ := atDispatch_frame
    (fun _ _ => 0) hr
  obtain ⟨hflat, hroom, hfits⟩ := hr
  obtain ⟨-, -, -, hframe⟩ := enter_spec k.tss (k.gate 0x80) u.hw false 0 0x80
    rfl (by omega)
  rw [← atDispatch] at hframe
  have hcall := hk.compiled (atDispatch k u.hw)
  have hlen := words_length u.hw (savedRegs u.hw 0x80 (errCode false 0)
    (atPusha k.tss u.hw false 0 0x80))
  have hbytes : 56 ≤ frameBytes u.hw := by
    unfold frameBytes
    split <;> omega
  have hstore : (p + 32).toNat = p.toNat + 4 * 8 :=
    toNat_add (show p.toNat + 32 < _ by
      have := (trapStack k.tss u.hw).2.toNat_lt
      omega)
  -- the frame is above what the C function may write, and no kernel data
  have hkept : Stack (k.compiled (atDispatch k u.hw)).mem p.toNat
      ((savedRegs u.hw 0x80 (errCode false 0)
        (atPusha k.tss u.hw false 0 0x80)).words u.hw.ring) := by
    refine hwords.congr fun x hx hx' => hcall.mem x ?_ (Or.inr (by omega))
    intro hK
    have := hk.apart x hK
    omega
  have hset := hkept.set v hstore (by omega)
  rw [hptr] at hset
  have hrun : sysRun (storeEax p v (k.compiled (atDispatch k u.hw))) commonExit
      = resumed u.hw v (storeEax p v (k.compiled (atDispatch k u.hw))).mem :=
    trap_eq (fun s => storeEax p v (k.compiled s)) hflat (hk.gates 0x80) rfl
      (by omega) hcall.esp hcall.seg hset
  rw [harg, hrun]
  generalize atDispatch k u.hw = s at hframe hcall hesp
  refine ⟨rfl, rfl, rfl, rfl, fun x hx => ?_⟩
  have hK : ¬ K x := fun hK => hx (Or.inl hK)
  have hout : x < lo ∨ (trapStack k.tss u.hw).2.toNat ≤ x := by
    by_contra hno
    exact hx (Or.inr (by omega))
  show setWord (k.compiled s).mem (p + 32) v x = u.hw.mem x
  rw [setWord_outside _ v (by omega), hcall.mem x hK (by omega),
    hframe x (by omega)]

/-- The trap, by the call that the registers ask for. -/
theorem int80_eq (glyph : Glyphs) (kresume : UInt32)
    (hr : Ready k.tss lo hi u.hw) :
    int80 glyph k kresume u
      = match callOf glyph (atDispatch k u.hw).mem u with
        | (sys, .returns v) =>
            { u with
              hw := sysRun (storeEax
                (word (atDispatch k u.hw).mem ((atDispatch k u.hw).reg .esp))
                v.toUInt32 (k.compiled (atDispatch k u.hw))) commonExit
              sys := sys }
        | (sys, .resumes) =>
            { u with
              hw := sysRun (k.compiled (atDispatch k u.hw))
                (usermodeResumeKernel kresume)
              sys := sys } := by
  obtain ⟨p, harg, -, -, -, hcall⟩ := atDispatch_frame glyph hr
  unfold int80
  rw [syscallStub_eq]
  cases hout : callOf glyph (atDispatch k u.hw).mem u with
  | mk sys out =>
      cases out with
      | returns v => simp only [harg, hcall, hout]
      | resumes => simp only [harg, hcall, hout]

/-- What the dispatcher finds in memory is what the caller left there, but
for the frame below the stack pointer. -/
theorem atDispatch_mem (hr : Ready k.tss lo hi u.hw) {x : Nat}
    (hx : ¬ Hidden k.tss lo K u.hw x) :
    (atDispatch k u.hw).mem x = u.hw.mem x := by
  obtain ⟨hflat, hroom, hfits⟩ := hr
  obtain ⟨-, -, -, hframe⟩ := enter_spec k.tss (k.gate 0x80) u.hw false 0 0x80
    rfl (by omega)
  refine hframe x ?_
  by_contra hno
  exact hx (Or.inr (by omega))

end Int80

/-- `int $0x80`, from any state with a flat segment in ring 0 or ring 3 and
with room for the frame: the call that `eax` asks for is made with `ebx`,
`ecx` and `edx`, on the memory that the caller sees; if it returns, the
caller goes on with the result in `eax` and with everything else as it was,
but for what it cannot see. The buffer that `SYS_WRITE` reads is mapped:
page faults are left out. -/
theorem int80_spec (glyph : Glyphs) {k : Setup} (kresume : UInt32)
    {lo hi : Nat} {K : Nat → Prop} (hk : k.Sound lo hi K) (u : UserRun)
    (hr : Ready k.tss lo hi u.hw) :
    ∃ m : Mem, (∀ x, ¬ Hidden k.tss lo K u.hw x → m x = u.hw.mem x)
      ∧ (int80 glyph k kresume u).sys = (callOf glyph m u).1
      ∧ ∀ v, (callOf glyph m u).2 = .returns v →
        SameBut (Hidden k.tss lo K u.hw) (u.hw.setReg .eax v.toUInt32)
          (int80 glyph k kresume u).hw := by
  refine ⟨(atDispatch k u.hw).mem, fun x => atDispatch_mem hr, ?_, ?_⟩
  · rw [int80_eq glyph kresume hr]
    obtain ⟨sys, out⟩ := callOf glyph (atDispatch k u.hw).mem u
    cases out with
    | returns v => rfl
    | resumes => rfl
  · intro v hv
    rw [int80_eq glyph kresume hr]
    generalize callOf glyph (atDispatch k u.hw).mem u = r at hv ⊢
    obtain ⟨sys, out⟩ := r
    cases hv
    exact resume_eax hk hr v.toUInt32

/-- A caller in ring 0 that asks for the version. -/
def versionRun : UserRun where
  hw := countingHw.setReg .eax 3
  sys := ⟨sysTable, 0, 0, 0, ⟨Sinks.boot, fun _ => 0, 0⟩⟩
  halted := false

theorem versionRun_ready :
    Ready countingSetup.tss 0x1000 0x2000 versionRun.hw :=
  ⟨⟨rfl, rfl, rfl, Or.inl rfl⟩, by decide, by decide⟩

theorem int80_spec_version :
    SameBut (Hidden countingSetup.tss 0x1000 (fun x => x = 0x100) versionRun.hw)
      (versionRun.hw.setReg .eax 0x0011)
      (int80 (fun _ _ => 0) countingSetup 0x200 versionRun).hw := by
  obtain ⟨m, -, -, hret⟩ := int80_spec (fun _ _ => 0) 0x200
    (countingSetup_sound _ _ (by decide)) versionRun versionRun_ready
  exact hret 0x0011 rfl

end Thuos.Arch
