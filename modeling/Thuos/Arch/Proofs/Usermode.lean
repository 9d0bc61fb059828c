/-
The way into ring 3 has one way back.

`usermode_enter` leaves five words on the kernel's stack and their address
in `g_um_kresume_esp`, and drops to ring 3 (`enter_user`). Whatever code
runs there and whatever interrupts and calls it, these stay (`Held`): the
traps use another stack. The exit call takes the five words off again, so
that it comes out where `usermode_enter` would have returned
(`usermode_returns`). An exception is the other end: it is reported with
the registers of the code that raised it, and the processor halts
(`fault_spec`).
-/
import Thuos.Arch.Proofs.Syscall

namespace Thuos.Arch

open Machine ByteMem I386 Gui Thuos.Core

-- ================================================================ the way in

/-- A call of `usermode_enter`: return address, entry point and stack for
ring 3. -/
structure Called (kresume : UInt32) (h : Hw) (ret entry top : UInt32) :
    Prop where
  ring : h.ring = 0
  args : Stack h.mem (h.reg .esp).toNat [ret, entry, top]
  room : 36 ≤ (h.reg .esp).toNat
  fits : (h.reg .esp).toNat + 12 < 2 ^ 32
  apart : kresume.toNat + 4 ≤ (h.reg .esp).toNat - 36
    ∨ (h.reg .esp).toNat + 12 ≤ kresume.toNat

/-- The registers that a C function gives back, the first one pushed
first. -/
def calleeSaved (h : Hw) : List UInt32 :=
  [h.reg .ebp, h.reg .ebx, h.reg .esi, h.reg .edi]

/-- Where `usermode_enter` keeps its stack pointer. -/
def resumeEsp (h : Hw) : UInt32 := (pushAll h.cpu.stack (calleeSaved h)).2

/-- Memory and stack of `usermode_enter` behind its four pushes and the
store. -/
def savedStack (kresume : UInt32) (h : Hw) : Mem × UInt32 :=
  (setWord (pushAll h.cpu.stack (calleeSaved h)).1 kresume (resumeEsp h),
    resumeEsp h)

/-- The flags for ring 3. -/
def userFlags (fl : UInt32) : UInt32 := (fl &&& 0xFFFFBFFF) ||| 0x00000200

/-- The assembly computes the flags of `um_user_eflags`, but for bit 1, which
reads as 1 in any case. -/
theorem userFlags_core (fl : UInt32) :
    umUserEflags fl = userFlags fl ||| UM_EFLAGS_RSVD1 := rfl

-- and it pushes the selectors of `um_selector`
example : umSelector UM_UCODE_IDX 3 = 0x1B ∧ umSelector UM_UDATA_IDX 3 = 0x23
    ∧ umSelector UM_KDATA_IDX 0 = 0x10 := by decide

/-- The code of `usermode_enter` up to its `iret`. -/
theorem enter_eq (kresume : UInt32) (h : Hw) :
    let p := savedStack kresume h
    let q := pushWord (pushAll p [0x23, word p.1 (p.2 + 24)]) h.eflags
    ∃ g : Hw, sysRun h (usermodeEnter kresume) = iret g
      ∧ g.cpu.stack = pushAll (q.1, q.2 + 4)
        [userFlags (word q.1 q.2), 0x1B, word p.1 (p.2 + 20)]
      ∧ g.seg = dataSegs h.seg 0x23 := by
  intro p q
  exact ⟨_, rfl, rfl, rfl⟩

section Enter

variable {kresume : UInt32} {h : Hw} {ret entry top : UInt32}

/-- What `usermode_enter` leaves on the stack, and where. -/
theorem savedStack_spec (hc : Called kresume h ret entry top) :
    (resumeEsp h).toNat = (h.reg .esp).toNat - 16
      ∧ Stack (savedStack kresume h).1 (resumeEsp h).toNat
        ((calleeSaved h).reverse ++ [ret, entry, top])
      ∧ word (savedStack kresume h).1 kresume = resumeEsp h := by
  obtain ⟨-, hargs, hroom, hfits, hapart⟩ := hc
  obtain ⟨hesp, hwords, -⟩ := @pushAll_spec h.mem (h.reg .esp)
    (calleeSaved h) _ (show 4 * 4 ≤ _ by omega) hargs
  have hresume : (resumeEsp h).toNat = (h.reg .esp).toNat - 16 := hesp
  refine ⟨hresume, ?_, word_eq (load32_setWord ..)⟩
  rw [hresume]
  refine hwords.congr fun x hx hx' => setWord_outside _ _ ?_
  have hx4 : (h.reg .esp).toNat - 16 ≤ x := hx
  have hx7 : x < (h.reg .esp).toNat - 16 + 28 := hx'
  omega

/-- The frame for ring 3, on top of what was saved. -/
theorem frame_spec {m : Mem} {e : UInt32} {vs : List UInt32}
    (entry top fl : UInt32) (hs : Stack m e.toNat vs) (hroom : 20 ≤ e.toNat) :
    let q := pushWord (pushAll (m, e) [0x23, top]) fl
    let w := pushAll (q.1, q.2 + 4) [userFlags (word q.1 q.2), 0x1B, entry]
    w.2.toNat = e.toNat - 20
      ∧ Stack w.1 w.2.toNat
        (entry :: 0x1B :: userFlags fl :: top :: 0x23 :: vs)
      ∧ ∀ x, x < e.toNat - 20 ∨ e.toNat ≤ x → w.1 x = m x := by
  intro q w
  obtain ⟨hesp, hwords, hframe⟩ := @pushAll_spec m e [0x23, top, fl] _
    (show 4 * 3 ≤ _ by omega) hs
  have hq : q = pushAll (m, e) [0x23, top, fl] := rfl
  rw [← hq] at hesp hwords hframe
  clear_value q
  have hfit := e.toNat_lt
  have hq2 : q.2.toNat = e.toNat - 12 := hesp
  have hflags : word q.1 q.2 = fl := by
    rw [← hesp] at hwords
    exact hwords.head
  have hback : (q.2 + 4).toNat = e.toNat - 8 := by
    rw [toNat_add_four (by omega)]
    omega
  have hrest : Stack q.1 (q.2 + 4).toNat (top :: 0x23 :: vs) := by
    rw [← hesp] at hwords
    exact hwords.tail (by omega)
  obtain ⟨hesp', hwords', hframe'⟩ := @pushAll_spec q.1 (q.2 + 4)
    [userFlags (word q.1 q.2), 0x1B, entry] _
    (show 4 * 3 ≤ _ by omega) hrest
  have hw : w = pushAll (q.1, q.2 + 4)
    [userFlags (word q.1 q.2), 0x1B, entry] := rfl
  rw [← hw, hback] at hesp' hwords' hframe'
  clear_value w
  have hw2 : w.2.toNat = e.toNat - 20 := by
    rw [hesp']
    show e.toNat - 8 - 12 = _
    omega
  refine ⟨hw2, ?_, fun x hx => ?_⟩
  · rw [← hesp', hflags] at hwords'
    exact hwords'
  · have hx' : x < e.toNat - 8 - 12 ∨ e.toNat - 8 ≤ x := by omega
    have hx'' : x < e.toNat - 12 ∨ e.toNat ≤ x := by omega
    exact (hframe' x hx').trans (hframe x hx'')

/-- The data segment of ring 3 is not taken away. -/
theorem enter_segs (seg : Seg → UInt16) :
    outerSegs 3 (Function.update (Function.update (dataSegs seg 0x23) .cs
      0x1B) .ss 0x23) = fun s => if s = .cs then 0x1B else 0x23 := by
  have hkeep : ¬ (0x23 : UInt16) &&& 3 < 3 := by decide
  funext s
  cases s with
  | cs => rfl
  | ss => rfl
  | ds => exact if_neg hkeep
  | es => exact if_neg hkeep
  | fs => exact if_neg hkeep
  | gs => exact if_neg hkeep

/-- Ring 3 begins at the entry point, on the stack that it was given, with
the segments of ring 3 and with interrupts; the way back is kept. -/
theorem enter_user (hc : Called kresume h ret entry top) :
    let g := sysRun h (usermodeEnter kresume)
    g.cpu.eip = entry ∧ g.reg .esp = top
      ∧ (g.seg = fun s => if s = .cs then 0x1B else 0x23)
      ∧ g.eflags = userFlags h.eflags
      ∧ Stack g.mem (resumeEsp h).toNat ((calleeSaved h).reverse ++ [ret])
      ∧ word g.mem kresume = resumeEsp h := by
  obtain ⟨hresume, hsaved, hkept⟩ := savedStack_spec hc
  obtain ⟨g, hrun, hstack, hseg⟩ := enter_eq kresume h
  obtain ⟨hring, -, hroom, hfits, hapart⟩ := hc
  have hentry : word (savedStack kresume h).1 (resumeEsp h + 20) = entry :=
    hsaved.get (i := 5) (by simp [calleeSaved]) rfl (by omega)
  have htop : word (savedStack kresume h).1 (resumeEsp h + 24) = top :=
    hsaved.get (i := 6) (by simp [calleeSaved]) rfl (by omega)
  have hsnd : savedStack kresume h = ((savedStack kresume h).1, resumeEsp h) :=
    rfl
  rw [hsnd] at hstack
  dsimp only at hstack
  rw [hentry, htop] at hstack
  obtain ⟨hesp, hwords, hframe⟩ := frame_spec entry top h.eflags hsaved
    (by omega)
  rw [← hstack] at hesp hwords hframe
  have hcpl : (0x1B : UInt16) &&& 3 > g.ring := by
    have : g.ring = h.ring := by
      unfold Hw.ring
      rw [hseg]
      rfl
    rw [this, hring]
    decide
  have hg : (g.reg .esp).toNat = (resumeEsp h).toNat - 20 := hesp
  have hframed : Stack g.mem (g.reg .esp).toNat
      (entry :: (0x1B : UInt16).toUInt32 :: userFlags h.eflags :: top
        :: (0x23 : UInt16).toUInt32 :: _) := hwords
  dsimp only
  rw [hrun, iret_outer hframed (by omega) hcpl, hseg]
  refine ⟨rfl, Cpu.setReg_self g.cpu .esp top, ?_, rfl, ?_, ?_⟩
  · exact enter_segs h.seg
  · have hsub : Stack (savedStack kresume h).1 (resumeEsp h).toNat
        ((calleeSaved h).reverse ++ [ret]) :=
      ⟨hsaved.1, hsaved.2.1, hsaved.2.2.1, hsaved.2.2.2.1, hsaved.2.2.2.2.1,
        trivial⟩
    exact hsub.congr fun x hx _ => hframe x (Or.inr hx)
  · rw [← hkept]
    unfold word
    congr 1
    exact Mem.load32_congr fun x hx hx' => hframe x (by omega)

end Enter

-- =============================================================== the way out

/-- The kernel's own context, as the exit call brings it back. -/
structure Resumed (h g : Hw) : Prop where
  point : Sched.point g.cpu = Sched.returnPoint h.cpu
  cs : g.ring = 0
  data : ∀ s, s = .ds ∨ s = .es ∨ s = .fs ∨ s = .gs → g.seg s = 0x10
  flags : g.eflags &&& FLAG_IF = 0

/-- The code of `usermode_resume_kernel`. -/
theorem resume_eq (kresume : UInt32) (g : Hw) :
    let g' := sysRun g (usermodeResumeKernel kresume)
    let e := word g.mem kresume
    Sched.point g'.cpu
        = { eip := word g.mem (e + 4 + 4 + 4 + 4)
            ebx := word g.mem (e + 4 + 4)
            esi := word g.mem (e + 4)
            edi := word g.mem e
            ebp := word g.mem (e + 4 + 4 + 4)
            esp := e + 4 + 4 + 4 + 4 + 4 }
      ∧ g'.seg = dataSegs g.seg 0x10
      ∧ g'.eflags = g.eflags &&& ~~~FLAG_IF := ⟨rfl, rfl, rfl⟩

theorem resume_kernel {kresume : UInt32} {h g : Hw} {ret entry top : UInt32}
    (hc : Called kresume h ret entry top) (hring : g.ring = 0)
    (hs : Stack g.mem (resumeEsp h).toNat ((calleeSaved h).reverse ++ [ret]))
    (hk : word g.mem kresume = resumeEsp h) :
    Resumed h (sysRun g (usermodeResumeKernel kresume)) := by
  obtain ⟨hresume, -, -⟩ := savedStack_spec hc
  obtain ⟨-, hargs, hroom, hfits, -⟩ := hc
  obtain ⟨hpoint, hseg, hflags⟩ := resume_eq kresume g
  rw [hk] at hpoint
  generalize sysRun g (usermodeResumeKernel kresume) = g'
    at hpoint hseg hflags ⊢
  have hedi : word g.mem (resumeEsp h) = h.reg .edi := hs.head
  have hs₁ := hs.tail (by omega)
  have h₁ := toNat_add_four (a := resumeEsp h) (by omega)
  have hesi : word g.mem (resumeEsp h + 4) = h.reg .esi := hs₁.head
  have hs₂ := hs₁.tail (by omega)
  have h₂ := toNat_add_four (a := resumeEsp h + 4) (by omega)
  have hebx : word g.mem (resumeEsp h + 4 + 4) = h.reg .ebx := hs₂.head
  have hs₃ := hs₂.tail (by omega)
  have h₃ := toNat_add_four (a := resumeEsp h + 4 + 4) (by omega)
  have hebp : word g.mem (resumeEsp h + 4 + 4 + 4) = h.reg .ebp := hs₃.head
  have hs₄ := hs₃.tail (by omega)
  have h₄ := toNat_add_four (a := resumeEsp h + 4 + 4 + 4) (by omega)
  have hret : word g.mem (resumeEsp h + 4 + 4 + 4 + 4) = ret := hs₄.head
  have h₅ := toNat_add_four (a := resumeEsp h + 4 + 4 + 4 + 4) (by omega)
  have hesp : resumeEsp h + 4 + 4 + 4 + 4 + 4 = h.reg .esp + 4 := by
    apply UInt32.toNat_inj.mp
    rw [h₅, toNat_add_four (a := h.reg .esp) (by omega)]
    omega
  have hout : word h.mem (h.reg .esp) = ret := hargs.head
  refine ⟨?_, ?_, ?_, ?_⟩
  · rw [hpoint, hedi, hesi, hebx, hebp, hret, hesp, ← hout]
    rfl
  · unfold Hw.ring
    rw [hseg]
    exact hring
  · intro s hsg
    rw [hseg]
    rcases hsg with rfl | rfl | rfl | rfl
    · rfl
    · rfl
    · rfl
    · rfl
  · rw [hflags, UInt32.and_assoc, UInt32.not_and_self, UInt32.and_zero]

-- ============================================================= an exception

/-- Every call of `kprintf` in the report has the arguments that its format
asks for. -/
theorem crashReport_prints (r : Registers) :
    ∀ p ∈ crashReport r, (kprintf p.1 p.2).isSome := by
  simp only [crashReport, List.forall_mem_cons, List.not_mem_nil,
    IsEmpty.forall_iff, implies_true, and_true]
  exact ⟨rfl, rfl, rfl, rfl, rfl, rfl, rfl, rfl⟩

/-- The report reads the number and the error code, and these registers of
what was interrupted; where `pusha` found the stack is not in it. -/
theorem isrHandler_saved (glyph : Glyphs) (kout : Kout) (h : Hw)
    (n err e e' sp s : UInt32) :
    isrHandler glyph kout
        { savedRegs h n err e with useresp := sp, ss := s }
      = isrHandler glyph kout (savedRegs h n err e') := rfl

section Fault

variable {k : Setup} {lo hi : Nat} {K : Nat → Prop} {u : UserRun}

/-- The stub of an exception finds the error code of the processor, or
pushes its dummy. -/
theorem fault_eq (glyph : Glyphs) (num : Fin 32) (v : UInt32) :
    fault glyph k u num v
      = { hw := atCall k.tss (k.gate (UInt8.ofNat num)) u.hw
            (decide (num.val ∈ ISR_ERR)) v (UInt32.ofNat num)
          sys :=
            { u.sys with
              kout := isrHandler glyph u.sys.kout
                (registersAt (atCall k.tss (k.gate (UInt8.ofNat num)) u.hw
                    (decide (num.val ∈ ISR_ERR)) v (UInt32.ofNat num)).mem
                  (word (atCall k.tss (k.gate (UInt8.ofNat num)) u.hw
                      (decide (num.val ∈ ISR_ERR)) v (UInt32.ofNat num)).mem
                    ((atCall k.tss (k.gate (UInt8.ofNat num)) u.hw
                      (decide (num.val ∈ ISR_ERR)) v
                      (UInt32.ofNat num)).reg .esp))) }
          halted := true } := by
  have herr : errWords (decide (num.val ∈ ISR_ERR)) v
      = if num.val ∈ ISR_ERR then [v] else [] := by
    simp [errWords]
  unfold fault atCall
  rw [herr]
  rfl

/-- A stub runs with interrupts disabled. -/
theorem atCall_if (tss : Tss) (gate : Gate) (h : Hw) (err : Bool)
    (v n : UInt32) : (atCall tss gate h err v n).eflags &&& FLAG_IF = 0 := by
  have hcli : (atCall tss gate h err v n).eflags
      = (interrupt tss gate (errWords err v) h).eflags &&& ~~~FLAG_IF := by
    cases err with
    | true => rfl
    | false => rfl
  rw [hcli, UInt32.and_assoc, UInt32.not_and_self, UInt32.and_zero]

/-- An exception, from any state with room for the frame: it is reported
with the number, the error code and the registers of the code that raised
it, and the processor halts in ring 0 with interrupts disabled. -/
theorem fault_spec (glyph : Glyphs) (hk : k.Sound lo hi K)
    (hr : Ready k.tss lo hi u.hw) (num : Fin 32) (v : UInt32) :
    (fault glyph k u num v).halted = true
      ∧ (fault glyph k u num v).hw.ring = 0
      ∧ (fault glyph k u num v).hw.eflags &&& FLAG_IF = 0
      ∧ (fault glyph k u num v).sys
        = { u.sys with
            kout := isrHandler glyph u.sys.kout
              (savedRegs u.hw (UInt32.ofNat num)
                (if num.val ∈ ISR_ERR then v else 0) 0) } := by
  obtain ⟨hflat, hroom, hfits⟩ := hr
  have htop := (trapStack k.tss u.hw).2.toNat_lt
  have hbytes : 56 ≤ frameBytes u.hw := by
    unfold frameBytes
    split <;> omega
  obtain ⟨hesp, hptr, hstack, -⟩ := enter_spec k.tss
    (k.gate (UInt8.ofNat num)) u.hw (decide (num.val ∈ ISR_ERR)) v
    (UInt32.ofNat num) rfl (by omega)
  obtain ⟨hcs, -⟩ := enter_seg k.tss (k.gate (UInt8.ofNat num)) u.hw
    (decide (num.val ∈ ISR_ERR)) v (UInt32.ofNat num)
  have hif := atCall_if k.tss (k.gate (UInt8.ofNat num)) u.hw
    (decide (num.val ∈ ISR_ERR)) v (UInt32.ofNat num)
  have herr : errCode (decide (num.val ∈ ISR_ERR)) v
      = if num.val ∈ ISR_ERR then v else 0 := by
    simp [errCode]
  have hwords := hstack.2
  rw [show (trapStack k.tss u.hw).2.toNat - (frameBytes u.hw + 4) + 4
    = (trapStack k.tss u.hw).2.toNat - frameBytes u.hw by omega, ← hptr,
    Registers.words] at hwords
  have harg := hstack
  rw [← hesp] at harg
  rw [fault_eq, harg.head, registersAt_inner hwords (by omega), herr]
  generalize atCall k.tss (k.gate (UInt8.ofNat num)) u.hw _ v _ = s
    at hcs hif ⊢
  refine ⟨rfl, ?_, hif, rfl⟩
  show s.seg .cs &&& 3 = 0
  rw [hcs]
  exact hk.gates _

end Fault

-- ================================================================= in between

/-- The call that leaves ring 3. -/
def IsExit (u : UserRun) : UserOp → Prop
  | .int80 => u.hw.reg .eax = 4
  | _ => False

/-- An exception. -/
def IsFault : UserOp → Prop
  | .exception _ _ => True
  | _ => False

/-- One entry of the table is the exit. -/
theorem sysTable_exit (n : Nat) :
    sysTable.getD n none = some .sysExit ↔ n = 4 := by
  by_cases hn : n < 16
  · have hall : ∀ n < 16, sysTable.getD n none = some .sysExit ↔ n = 4 := by
      decide
    exact hall n hn
  · have hlen : sysTable.length ≤ n := by
      show 16 ≤ n
      omega
    rw [List.getD_eq_getElem?_getD, List.getElem?_eq_none hlen]
    constructor
    · intro h
      cases h
    · intro h
      omega

section Call

variable (glyph : Glyphs) (m : Mem) (u : UserRun)

theorem call_table (s : SysState) (a b c : UInt32) (f : SysFn) :
    (f.call glyph m s a b c).1.table = s.table := by
  cases f <;> rfl

/-- A call leaves the table as it is. -/
theorem callOf_table : (callOf glyph m u).1.table = u.sys.table := by
  unfold callOf syscallCall
  dsimp only
  split
  · rfl
  · split
    · rfl
    · exact call_table glyph m _ _ _ _ _

/-- The exit sets the code, and any other call returns. -/
theorem callOf_exit (ht : u.sys.table = sysTable)
    (heax : u.hw.reg .eax = 4) :
    callOf glyph m u
      = ({ u.sys with
            lastCs := (u.hw.seg .cs).toUInt32
            umExitCode := (u.hw.reg .ebx).toInt32 }, .resumes) := by
  unfold callOf syscallCall
  dsimp only
  rw [ht, heax]
  rfl

theorem callOf_returns (ht : u.sys.table = sysTable)
    (heax : u.hw.reg .eax ≠ 4) :
    ∃ s v, callOf glyph m u = (s, .returns v) := by
  have hne : sysTable.getD (u.hw.reg .eax).toNat none ≠ some .sysExit := by
    intro h
    exact heax (UInt32.toNat_inj.mp ((sysTable_exit _).mp h))
  unfold callOf syscallCall
  dsimp only
  rw [ht]
  split
  · exact ⟨_, _, rfl⟩
  · cases hfn : sysTable.getD (u.hw.reg .eax).toNat none with
    | none => exact ⟨_, _, rfl⟩
    | some f =>
        cases f with
        | sysExit => exact absurd hfn hne
        | sysUptime => exact ⟨_, _, rfl⟩
        | sysWrite => exact ⟨_, _, rfl⟩
        | sysGetpid => exact ⟨_, _, rfl⟩
        | sysVersion => exact ⟨_, _, rfl⟩

end Call

/-- In ring 3, with the kernel's way back in memory. -/
structure Held (kresume e : UInt32) (vs : List UInt32) (h : Hw) : Prop where
  ring : h.ring = 3
  flat : Flat h
  saved : Stack h.mem e.toNat vs
  kept : word h.mem kresume = e

section Step

variable {glyph : Glyphs} {k : Setup} {kresume e : UInt32} {lo hi : Nat}
  {K : Nat → Prop} {vs : List UInt32} {h g : Hw}

/-- What leaves the way back alone keeps it. -/
theorem Held.congr (hh : Held kresume e vs h) (hlen : vs.length = 5)
    (hring : g.ring = 3) (hflat : Flat g)
    (hmem : ∀ x, WayBack kresume e x → g.mem x = h.mem x) :
    Held kresume e vs g := by
  refine ⟨hring, hflat, ?_, ?_⟩
  · exact hh.saved.congr fun x hx hx' => hmem x (Or.inl ⟨hx, by omega⟩)
  · rw [← hh.kept]
    unfold word
    congr 1
    exact Mem.load32_congr fun x hx hx' => hmem x (Or.inr ⟨hx, hx'⟩)

/-- In ring 3 a trap finds room. -/
theorem Held.ready (hh : Held kresume e vs h)
    (hroom : lo + 68 ≤ k.tss.esp0.toNat) (hfits : k.tss.esp0.toNat ≤ hi) :
    (trapStack k.tss h).2 = k.tss.esp0 ∧ Ready k.tss lo hi h := by
  have hne : h.ring ≠ 0 := by
    rw [hh.ring]
    decide
  have htop : (trapStack k.tss h).2 = k.tss.esp0 := by
    unfold trapStack
    rw [if_neg hne]
  have hbytes : frameBytes h = 64 := if_neg hne
  refine ⟨htop, hh.flat, ?_, ?_⟩
  · rw [hbytes, htop]
    exact hroom
  · rw [htop]
    exact hfits

/-- What the code is resumed with, it is resumed with the way back. -/
theorem Held.same {P : Nat → Prop} (hh : Held kresume e vs h)
    (hlen : vs.length = 5) (hr : Ready k.tss lo hi h)
    (hway : ∀ x, WayBack kresume e x → ¬ P x) (hs : SameBut P h g) :
    Held kresume e vs g :=
  hh.congr hlen (hs.ring.trans hh.ring) (hr.congr hs).flat
    fun x hx => hs.mem x (hway x hx)

/-- A register does not matter. -/
theorem Held.setReg (hh : Held kresume e vs h) (r : Reg) (v : UInt32) :
    Held kresume e vs (h.setReg r v) :=
  ⟨hh.ring, ⟨hh.flat.es, hh.flat.fs, hh.flat.gs, hh.flat.ring⟩, hh.saved,
    hh.kept⟩

/-- The system in ring 3: the way back is in memory, and the exit is in the
table. -/
structure Inside (kresume e : UInt32) (vs : List UInt32) (u : UserRun) :
    Prop where
  held : Held kresume e vs u.hw
  table : u.sys.table = sysTable
  running : u.halted = false

/-- Nothing runs on a processor that has halted. -/
theorem userStep_halted {u : UserRun} (hu : u.halted = true)
    (ops : List UserOp) : exec (userStep glyph k kresume) u ops = u := by
  induction ops with
  | nil => rfl
  | cons op ops ih =>
      have hstep : userStep glyph k kresume u op = u := if_pos hu
      rw [exec_cons, hstep, ih]

/-- A processor that has not halted makes its step. -/
theorem userStep_running {u : UserRun} (hu : u.halted = false)
    (op : UserOp) :
    userStep glyph k kresume u op
      = match op with
        | .user h => { u with hw := h }
        | .irq num =>
            { u with
              hw := trap k.tss (k.gate (UInt8.ofNat (32 + num))) []
                (irqStub num) k.compiled u.hw }
        | .int80 => int80 glyph k kresume u
        | .exception num v => fault glyph k u num v :=
  if_neg (by rw [hu]; exact Bool.false_ne_true)

/-- One step: all but the exit and an exception stay inside. -/
theorem userStep_inside (hk : k.Sound lo hi K)
    (hroom : lo + 68 ≤ k.tss.esp0.toNat) (hfits : k.tss.esp0.toNat ≤ hi)
    (hway : ∀ x, WayBack kresume e x →
      ¬ K x ∧ (x < lo ∨ k.tss.esp0.toNat ≤ x))
    (hlen : vs.length = 5) {u : UserRun} (hu : Inside kresume e vs u)
    {op : UserOp} (hlegal : Legal kresume e u op) (hno : ¬ IsExit u op)
    (hfault : ¬ IsFault op) :
    Inside kresume e vs (userStep glyph k kresume u op) := by
  rw [userStep_running hu.running]
  obtain ⟨hheld, htable, hrunning⟩ := hu
  obtain ⟨htop, hready⟩ := hheld.ready hroom hfits
  have hseen : ∀ x, WayBack kresume e x → ¬ Hidden k.tss lo K u.hw x := by
    intro x hx hhid
    obtain ⟨hK, hout⟩ := hway x hx
    rcases hhid with hin | hin
    · exact hK hin
    · rw [htop] at hin
      omega
  cases op with
  | user g =>
      obtain ⟨-, hring, hflat, hmem⟩ := hlegal
      exact ⟨hheld.congr hlen hring hflat hmem, htable, hrunning⟩
  | irq num =>
      obtain ⟨-, hsame⟩ := trap_same hk hready
        (k.gate (UInt8.ofNat (32 + num))) (hk.gates _)
        (UInt32.ofNat (32 + num))
      exact ⟨hheld.same hlen hready hseen hsame, htable, hrunning⟩
  | int80 =>
      obtain ⟨sys, v, hcall⟩ := callOf_returns glyph (atDispatch k u.hw).mem u
        htable hno
      have hkeep := callOf_table glyph (atDispatch k u.hw).mem u
      rw [hcall, htable] at hkeep
      have hsame := resume_eax hk hready v.toUInt32
      show Inside kresume e vs (int80 glyph k kresume u)
      rw [int80_eq glyph kresume hready, hcall]
      have hset := hheld.setReg .eax v.toUInt32
      exact ⟨hset.same hlen (hset.ready hroom hfits).2 hseen hsame, hkeep,
        hrunning⟩
  | exception num v => exact absurd trivial hfault

/-- The exit, from inside: the kernel goes on. -/
theorem int80_resumed (glyph : Glyphs) (hk : k.Sound lo hi K)
    (hroom : lo + 68 ≤ k.tss.esp0.toNat) (hfits : k.tss.esp0.toNat ≤ hi)
    (hway : ∀ x, WayBack kresume (resumeEsp h) x →
      ¬ K x ∧ (x < lo ∨ k.tss.esp0.toNat ≤ x))
    {ret entry top : UInt32} (hc : Called kresume h ret entry top)
    {u : UserRun}
    (hu : Inside kresume (resumeEsp h) ((calleeSaved h).reverse ++ [ret]) u)
    (heax : u.hw.reg .eax = 4) :
    Resumed h (int80 glyph k kresume u).hw
      ∧ (int80 glyph k kresume u).sys
        = { u.sys with
            lastCs := (u.hw.seg .cs).toUInt32
            umExitCode := (u.hw.reg .ebx).toInt32 } := by
  obtain ⟨hheld, htable, -⟩ := hu
  obtain ⟨htop, hready⟩ := hheld.ready hroom hfits
  have hbytes : frameBytes u.hw = 64 := by
    refine if_neg ?_
    rw [hheld.ring]
    decide
  obtain ⟨hesp, -, -, hframe⟩ := enter_spec k.tss (k.gate 0x80) u.hw false 0
    0x80 rfl (by rw [hbytes, htop]; omega)
  obtain ⟨hcs, -⟩ := enter_seg k.tss (k.gate 0x80) u.hw false 0 0x80
  have hcall := hk.compiled (atDispatch k u.hw)
  rw [hbytes, htop] at hesp hframe
  rw [← atDispatch] at hesp hframe hcs
  rw [int80_eq glyph kresume hready, callOf_exit glyph _ u htable heax]
  generalize atDispatch k u.hw = s at hesp hframe hcs hcall ⊢
  -- neither the frame nor the compiled code is where the way back is
  have hmem : ∀ x, WayBack kresume (resumeEsp h) x →
      (k.compiled s).mem x = u.hw.mem x := by
    intro x hx
    obtain ⟨hK, hout⟩ := hway x hx
    rw [hcall.mem x hK (by omega), hframe x (by omega)]
  have hring : (k.compiled s).ring = 0 := by
    unfold Hw.ring
    rw [hcall.seg, hcs]
    exact hk.gates 0x80
  refine ⟨resume_kernel hc hring ?_ ?_, rfl⟩
  · exact hheld.saved.congr fun x hx hx' => hmem x (Or.inl ⟨hx, hx'⟩)
  · have hword : word (k.compiled s).mem kresume = word u.hw.mem kresume := by
      unfold word
      congr 1
      exact Mem.load32_congr fun x hx hx' => hmem x (Or.inr ⟨hx, hx'⟩)
    rw [hword]
    exact hheld.kept

theorem Legal.ring {u : UserRun} {op : UserOp} (hl : Legal kresume e u op) :
    u.hw.ring = 3 := by
  cases op with
  | user g => exact hl.1
  | irq num => exact hl
  | int80 => exact hl
  | exception num v => exact hl

/-- A run that has left ring 3 has no further step. -/
theorem userStep_inv (hk : k.Sound lo hi K)
    (hroom : lo + 68 ≤ k.tss.esp0.toNat) (hfits : k.tss.esp0.toNat ≤ hi)
    (hway : ∀ x, WayBack kresume (resumeEsp h) x →
      ¬ K x ∧ (x < lo ∨ k.tss.esp0.toNat ≤ x))
    {ret entry top : UInt32} (hc : Called kresume h ret entry top)
    {u : UserRun} {op : UserOp}
    (hu : Inside kresume (resumeEsp h) ((calleeSaved h).reverse ++ [ret]) u
      ∨ u.hw.ring = 0)
    (hlegal : Legal kresume (resumeEsp h) u op) :
    Inside kresume (resumeEsp h) ((calleeSaved h).reverse ++ [ret])
        (userStep glyph k kresume u op)
      ∨ (userStep glyph k kresume u op).hw.ring = 0 := by
  rcases hu with hin | hout
  · by_cases hstays : ¬ IsExit u op ∧ ¬ IsFault op
    · exact Or.inl (userStep_inside hk hroom hfits hway rfl hin hlegal
        hstays.1 hstays.2)
    · right
      rw [userStep_running hin.running]
      cases op with
      | user g => exact absurd ⟨id, id⟩ hstays
      | irq num => exact absurd ⟨id, id⟩ hstays
      | int80 =>
          have hexit : IsExit u .int80 := by
            by_contra hno
            exact hstays ⟨hno, id⟩
          exact (int80_resumed glyph hk hroom hfits hway hc hin hexit).1.cs
      | exception num v =>
          have hready := (hin.held.ready hroom hfits).2
          exact (fault_spec glyph hk hready num v).2.1
  · have hlegal' := hlegal.ring
    rw [hout] at hlegal'
    cases hlegal'

end Step

/-- Interrupts are enabled in ring 3. -/
theorem userFlags_if (fl : UInt32) : userFlags fl &&& FLAG_IF ≠ 0 := by
  have hset : userFlags fl &&& FLAG_IF = FLAG_IF := by
    unfold userFlags FLAG_IF
    apply UInt32.toBitVec_inj.mp
    rw [UInt32.toBitVec_and, UInt32.toBitVec_or, BitVec.and_or_distrib_right,
      BitVec.and_self]
    ext i hi
    rw [BitVec.getElem_or, BitVec.getElem_and]
    cases (UInt32.toBitVec 0x200)[i] <;> simp
  rw [hset]
  decide

theorem ring_toUInt32 {h : Hw} (hring : h.ring = 3) :
    (h.seg .cs).toUInt32 &&& 3 = 3 := by
  have := congrArg UInt16.toUInt32 hring
  unfold Hw.ring at this
  rw [UInt16.toUInt32_and] at this
  exact this

/-- From a call of `usermode_enter` on, ring 3 runs from the entry point on
its own stack with interrupts enabled; and whatever its code does, whatever
interrupts it and whatever calls it makes, every step but the exit call and
an exception ends in ring 3. The exit call returns from `usermode_enter`: to
its caller, with the caller's registers, on the caller's stack, in ring 0
with the kernel's segments, with interrupts disabled, and with the code that
`ebx` held. An exception is reported with the registers that the code had,
and is the last thing that happens: the kernel is never resumed behind it. -/
theorem usermode_returns (glyph : Glyphs) {k : Setup} {kresume : UInt32}
    {lo hi : Nat} {K : Nat → Prop} (hk : k.Sound lo hi K)
    (hroom : lo + 68 ≤ k.tss.esp0.toNat) (hfits : k.tss.esp0.toNat ≤ hi)
    {h : Hw} {ret entry top : UInt32} (hc : Called kresume h ret entry top)
    (hway : ∀ x, WayBack kresume (resumeEsp h) x →
      ¬ K x ∧ (x < lo ∨ k.tss.esp0.toNat ≤ x))
    {sys : SysState} (hsys : sys.table = sysTable) (ops : List UserOp)
    (op : UserOp)
    (hlegal : Along (userStep glyph k kresume) (Legal kresume (resumeEsp h))
      ⟨sysRun h (usermodeEnter kresume), sys, false⟩ (ops ++ [op])) :
    let u₀ : UserRun := ⟨sysRun h (usermodeEnter kresume), sys, false⟩
    let u := exec (userStep glyph k kresume) u₀ ops
    let u' := userStep glyph k kresume u op
    u₀.hw.cpu.eip = entry ∧ u₀.hw.reg .esp = top ∧ u₀.hw.ring = 3
      ∧ u₀.hw.eflags &&& FLAG_IF ≠ 0
      ∧ (¬ IsExit u op → ¬ IsFault op → u'.hw.ring = 3)
      ∧ (IsExit u op →
        Resumed h u'.hw ∧ u'.sys.umExitCode = (u.hw.reg .ebx).toInt32
          ∧ u'.sys.lastCs &&& 3 = 3)
      ∧ ∀ num v, op = .exception num v →
        u'.sys.kout = isrHandler glyph u.sys.kout
            (savedRegs u.hw (UInt32.ofNat num)
              (if num.val ∈ ISR_ERR then v else 0) 0)
          ∧ u'.hw.ring = 0 ∧ u'.hw.eflags &&& FLAG_IF = 0
          ∧ ∀ more, exec (userStep glyph k kresume) u' more = u' := by
  intro u₀ u u'
  obtain ⟨heip, hesp, hseg, hflags, hsaved, hkept⟩ := enter_user hc
  have hring : u₀.hw.ring = 3 := by
    unfold Hw.ring
    rw [hseg]
    rfl
  have hstart : Inside kresume (resumeEsp h)
      ((calleeSaved h).reverse ++ [ret]) u₀ := by
    refine ⟨⟨hring, ⟨?_, ?_, ?_, Or.inr ⟨hring, ?_⟩⟩, hsaved, hkept⟩, hsys,
      rfl⟩
    · rw [hseg]
      rfl
    · rw [hseg]
      rfl
    · rw [hseg]
      rfl
    · rw [hseg]
      rfl
  obtain ⟨hbefore, hlast, -⟩ := along_append.mp hlegal
  have hrun : Inside kresume (resumeEsp h)
      ((calleeSaved h).reverse ++ [ret]) u ∨ u.hw.ring = 0 :=
    exec_inv (fun v => Inside kresume (resumeEsp h)
        ((calleeSaved h).reverse ++ [ret]) v ∨ v.hw.ring = 0)
      (fun _ _ => userStep_inv hk hroom hfits hway hc) (Or.inl hstart) hbefore
  have hin : Inside kresume (resumeEsp h)
      ((calleeSaved h).reverse ++ [ret]) u := by
    refine hrun.resolve_right fun hout => ?_
    have hlegal' : u.hw.ring = 3 := hlast.ring
    rw [hout] at hlegal'
    cases hlegal'
  have hstep : userStep glyph k kresume u op = _ :=
    userStep_running hin.running op
  refine ⟨heip, hesp, hring, ?_, fun hno hfault => ?_, fun hexit => ?_,
    fun num v hop => ?_⟩
  · rw [hflags]
    exact userFlags_if h.eflags
  · exact (userStep_inside hk hroom hfits hway rfl hin hlast hno
      hfault).held.ring
  · cases op with
    | user g => cases hexit
    | irq num => cases hexit
    | exception num v => cases hexit
    | int80 =>
        obtain ⟨hback, hcode⟩ :=
          int80_resumed glyph hk hroom hfits hway hc hin hexit
        have hu' : u' = int80 glyph k kresume u := hstep
        rw [hu', hcode]
        exact ⟨hback, rfl, ring_toUInt32 hin.held.ring⟩
  · subst hop
    have hready := (hin.held.ready hroom hfits).2
    obtain ⟨hhalted, hout, hoff, hreport⟩ := fault_spec glyph hk hready num v
    have hu' : u' = fault glyph k u num v := hstep
    rw [hu', hreport]
    exact ⟨rfl, hout, hoff, userStep_halted hhalted⟩

/-- The kernel calls `usermode_enter`, with the stack at `0x2000`. -/
def shellHw : Hw where
  cpu :=
    { reg := fun _ => 0x2000
      eip := 0
      mem := (pushAll (fun _ => 0, 0x200C) [0x9000, 0x500, 0x700]).1 }
  seg := fun s => if s = .cs then 0x08 else 0x10
  eflags := 0x202

theorem shellHw_called : Called 0x200 shellHw 0x700 0x500 0x9000 := by
  obtain ⟨-, hwords, -⟩ := pushAll_eq (m := fun _ => 0) (e := 0x200C)
    [0x9000, 0x500, 0x700] (by decide)
  exact ⟨rfl, hwords, by decide, by decide, by decide⟩

theorem shellHw_wayBack (x : Nat) (hx : WayBack 0x200 (resumeEsp shellHw) x) :
    ¬ x = 0x100 ∧ (x < 0x8000 ∨ countingSetup.tss.esp0.toNat ≤ x) := by
  have hesp : (resumeEsp shellHw).toNat = 0x2000 - 16 :=
    (savedStack_spec shellHw_called).1
  rcases hx with ⟨hx, hx'⟩ | ⟨hx, hx'⟩
  · rw [hesp] at hx hx'
    omega
  · have hx₂ : x < 0x200 + 4 := hx'
    have hx₁ : 0x200 ≤ x := hx
    omega

/-- The code in ring 3 has put its exit code together. -/
def aboutToExit : Hw :=
  ((sysRun shellHw (usermodeEnter 0x200)).setReg .eax 4).setReg .ebx 7

def exitRun : UserRun :=
  exec (userStep (fun _ _ => 0) countingSetup 0x200)
    ⟨sysRun shellHw (usermodeEnter 0x200), versionRun.sys, false⟩ [.user aboutToExit]

theorem exitRun_legal :
    Along (userStep (fun _ _ => 0) countingSetup 0x200)
      (Legal 0x200 (resumeEsp shellHw))
      ⟨sysRun shellHw (usermodeEnter 0x200), versionRun.sys, false⟩
      ([.user aboutToExit] ++ [.int80]) := by
  obtain ⟨-, -, hseg, -⟩ := enter_user shellHw_called
  have hring : (sysRun shellHw (usermodeEnter 0x200)).ring = 3 := by
    unfold Hw.ring
    rw [hseg]
    rfl
  have hsame : aboutToExit.seg
      = (sysRun shellHw (usermodeEnter 0x200)).seg := rfl
  have hflat : Flat aboutToExit := by
    refine ⟨?_, ?_, ?_, Or.inr ⟨hring, ?_⟩⟩
    · rw [hsame, hseg]
      rfl
    · rw [hsame, hseg]
      rfl
    · rw [hsame, hseg]
      rfl
    · rw [hsame, hseg]
      rfl
  exact ⟨⟨hring, hring, hflat, fun _ _ => rfl⟩, hring, trivial⟩

theorem usermode_returns_exit :
    Resumed shellHw
      (userStep (fun _ _ => 0) countingSetup 0x200 exitRun .int80).hw := by
  obtain ⟨-, -, -, -, -, hexit, -⟩ := usermode_returns (fun _ _ => 0)
    (countingSetup_sound 0x8000 0x9000 (by decide)) (by decide)
    (by decide) shellHw_called shellHw_wayBack rfl [.user aboutToExit] .int80
    exitRun_legal
  exact (hexit rfl).1

end Thuos.Arch
