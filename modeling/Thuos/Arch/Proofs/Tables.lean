/-
The descriptor tables say what the kernel meant them to say.

A descriptor that `gdt_set_gate` has packed, and a gate that `idt_set_gate`
has, read back as what was put in (`segmentOf_set`, `gateOf_set`). So every
vector leads to its stub after the kernel has started, and the segments and
the stack that the way there needs are in place.
-/
import Thuos.Arch.Tables

namespace Thuos.Arch

open Loop ByteMem ByteMem.Mem I386

-- ================================================================== the words

theorem toNat_low16 (x : UInt32) :
    (x &&& 0xFFFF).toUInt16.toNat = x.toNat % 2 ^ 16 := by
  simp [Nat.and_two_pow_sub_one_eq_mod _ 16]

theorem toNat_high16 (x : UInt32) :
    ((x >>> 16) &&& 0xFFFF).toUInt16.toNat = x.toNat / 2 ^ 16 := by
  have hx := x.toNat_lt
  simp [Nat.shiftRight_eq_div_pow, Nat.and_two_pow_sub_one_eq_mod _ 16]
  omega

theorem toNat_byte (x : UInt32) {k : UInt32} (hk : k < 32) :
    ((x >>> k) &&& 0xFF).toUInt8.toNat = x.toNat / 2 ^ k.toNat % 2 ^ 8 := by
  have hmod : k.toNat % 32 = k.toNat := Nat.mod_eq_of_lt hk
  simp [Nat.shiftRight_eq_div_pow, Nat.and_two_pow_sub_one_eq_mod _ 8, hmod]

/-- The granularity byte: the flags above the rest of the limit. -/
theorem toNat_granularity (limit : UInt32) (gran : UInt8) :
    (((limit >>> 16) &&& 0x0F) ||| (gran.toUInt32 &&& 0xF0)).toUInt8.toNat
      = 2 ^ 4 * (gran.toNat / 16) + limit.toNat / 2 ^ 16 % 2 ^ 4 := by
  have hhigh : ∀ n < 256, n &&& 0xF0 = 2 ^ 4 * (n / 16) := by decide +kernel
  have hgran := hhigh gran.toNat gran.toNat_lt
  have hlow : limit.toNat / 2 ^ 16 % 2 ^ 4 < 2 ^ 4 := Nat.mod_lt _ (by decide)
  rw [Nat.two_pow_add_eq_or_of_lt hlow, ← hgran, Nat.or_comm]
  have hlt := gran.toNat_lt
  simp [Nat.shiftRight_eq_div_pow, Nat.and_two_pow_sub_one_eq_mod _ 4]

theorem ofBytes_le16 (v : UInt16) (bs : List UInt8) :
    ofBytes (le16 v ++ bs) = v.toNat + 2 ^ 16 * ofBytes bs := by
  have hv := v.toNat_lt
  simp [ofBytes, le16, Nat.shiftRight_eq_div_pow]
  omega

theorem segmentOf_bytes (e : GdtEntry) :
    segmentOf e.bytes
      = ⟨e.baseLow.toNat + 2 ^ 16 * e.baseMid.toNat + 2 ^ 24 * e.baseHigh.toNat,
        e.limitLow.toNat + 2 ^ 16 * (e.granularity.toNat % 16), e.access,
        e.granularity.toNat / 16⟩ := by
  have hread : segmentOf e.bytes
      = ⟨ofBytes (le16 e.baseLow ++ [e.baseMid, e.baseHigh]),
        ofBytes (le16 e.limitLow ++ []) + 2 ^ 16 * (e.granularity.toNat % 16),
        e.access, e.granularity.toNat / 16⟩ := rfl
  rw [hread, ofBytes_le16, ofBytes_le16]
  simp only [ofBytes]
  congr 1
  omega

theorem gateOf_bytes (e : IdtEntry) :
    gateOf e.bytes
      = if e.flags.toNat / 128 = 1 ∧ e.flags.toNat % 32 = 14 then
          some (⟨UInt32.ofNat (e.baseLow.toNat + 2 ^ 16 * e.baseHigh.toNat),
            e.selector⟩, e.flags.toNat / 32 % 4)
        else none := by
  have hread : gateOf e.bytes
      = if e.flags.toNat / 128 = 1 ∧ e.flags.toNat % 32 = 14 then
          some (⟨UInt32.ofNat (ofBytes (le16 e.baseLow ++ le16 e.baseHigh)),
            UInt16.ofNat (ofBytes (le16 e.selector ++ []))⟩,
            e.flags.toNat / 32 % 4)
        else none := rfl
  have hhigh : ofBytes (le16 e.baseHigh) = e.baseHigh.toNat := by
    have hle := ofBytes_le16 e.baseHigh []
    rw [List.append_nil] at hle
    exact hle
  rw [hread, ofBytes_le16, ofBytes_le16, hhigh]
  simp [ofBytes]

-- ================================================================ round trips

/-- A descriptor reads back as it was set. -/
theorem segmentOf_set (gdt : Nat → GdtEntry) (n : Nat) (base limit : UInt32)
    (access gran : UInt8) :
    segmentOf (gdtSetGate gdt n base limit access gran n).bytes
      = ⟨base.toNat, limit.toNat % 2 ^ 20, access, gran.toNat / 16⟩ := by
  have hbase := base.toNat_lt
  have hmid := toNat_byte base (k := 16) (by decide)
  have hhigh := toNat_byte base (k := 24) (by decide)
  unfold gdtSetGate
  rw [Function.update_self, segmentOf_bytes]
  dsimp only
  rw [toNat_granularity, toNat_low16, toNat_low16, hmid, hhigh]
  congr 1
  · show base.toNat % 2 ^ 16 + 2 ^ 16 * (base.toNat / 2 ^ 16 % 2 ^ 8)
      + 2 ^ 24 * (base.toNat / 2 ^ 24 % 2 ^ 8) = base.toNat
    omega
  · omega
  · omega

/-- A present interrupt gate reads back as it was set; any other set of
flags is no gate. -/
theorem gateOf_set (idt : Nat → IdtEntry) (num : UInt8) (handler : UInt32)
    (selector : UInt16) (flags : UInt8) :
    gateOf (idtSetGate idt num handler selector flags num.toNat).bytes
      = if flags.toNat / 128 = 1 ∧ flags.toNat % 32 = 14 then
          some (⟨handler, selector⟩, flags.toNat / 32 % 4)
        else none := by
  have hsum : handler.toNat % 2 ^ 16 + 2 ^ 16 * (handler.toNat / 2 ^ 16)
      = handler.toNat := Nat.mod_add_div _ _
  unfold idtSetGate
  rw [Function.update_self, gateOf_bytes]
  dsimp only
  rw [toNat_low16, toNat_high16, hsum, UInt32.ofNat_toNat]

theorem le16_low16 (x : UInt32) :
    le16 (x &&& 0xFFFF).toUInt16
      = [(x &&& 0xFF).toUInt8, ((x >>> 8) &&& 0xFF).toUInt8] := by
  have hbyte := toNat_byte x (k := 8) (by decide)
  have hlow := toNat_low16 x
  unfold le16
  congr 1
  · apply UInt8.toNat_inj.mp
    simp [Nat.and_two_pow_sub_one_eq_mod _ 8]
  · congr 1
    apply UInt8.toNat_inj.mp
    rw [hbyte]
    show ((x &&& 0xFFFF).toUInt16 >>> 8).toNat % 2 ^ 8
      = x.toNat / 2 ^ 8 % 2 ^ 8
    rw [UInt16.toNat_shiftRight, hlow]
    simp [Nat.shiftRight_eq_div_pow]
    omega

/-- The bytes of the descriptor that `gdt_init` sets for the task state
segment are those of `um_tss_descriptor`. -/
theorem umTssDescriptor_eq (gdt : Nat → GdtEntry) (n : Nat)
    (base limit : UInt32) :
    (gdtSetGate gdt n base limit 0x89 0x00 n).bytes
      = umTssDescriptor base limit := by
  unfold gdtSetGate
  rw [Function.update_self]
  unfold GdtEntry.bytes umTssDescriptor
  dsimp only
  rw [le16_low16, le16_low16]
  simp

-- ================================================================= the start

/-- The entry that `idt_set_gate` writes. -/
def idtGate (handler : UInt32) (selector : UInt16) (flags : UInt8) :
    IdtEntry where
  baseLow := (handler &&& 0xFFFF).toUInt16
  selector := selector
  always0 := 0
  flags := flags
  baseHigh := ((handler >>> 16) &&& 0xFFFF).toUInt16

/-- Gates set for a row of vectors. -/
theorem gates_row (idt : Nat → IdtEntry) {a n : Nat} (h : a + n ≤ 256)
    (handler : Nat → UInt32) (selector : UInt16) (flags : UInt8) (v : Nat) :
    upTo n (fun idt i =>
        idtSetGate idt (UInt8.ofNat (a + i)) (handler i) selector flags) idt v
      = if a ≤ v ∧ v < a + n then
          idtGate (handler (v - a)) selector flags
        else idt v := by
  rw [← upTo_update idt a n fun i => idtGate (handler i) selector flags]
  refine congrFun ?_ v
  refine upTo_congr (fun _ => True) trivial (fun _ _ _ _ => trivial) ?_
  intro i hi t _
  have hnum : (UInt8.ofNat (a + i)).toNat = a + i := by
    rw [UInt8.toNat_ofNat']
    exact Nat.mod_eq_of_lt (by omega)
  unfold idtSetGate
  rw [hnum]
  rfl

/-- The entry of each vector after the start. -/
theorem bootIdt_entry (isr irq : Nat → UInt32) (stub : UInt32)
    (idt : Nat → IdtEntry) {v : Nat} (hv : v < 256) :
    bootIdt isr irq stub idt v
      = if v < 32 then idtGate (isr v) 0x08 0x8E
        else if v < 48 then idtGate (irq (v - 32)) 0x08 0x8E
        else if v = 0x80 then idtGate stub 0x08 0xEE
        else idtGate 0 0 0 := by
  have hinit := gates_row idt (a := 0) (n := 256) (by decide) (fun _ => 0) 0 0 v
  have hisr := gates_row (idtInit idt) (a := 0) (n := 32) (by decide) isr 0x08
    0x8E v
  have hirq := gates_row (isrInit isr (idtInit idt)) (a := 32) (n := 16)
    (by decide) irq 0x08 0x8E v
  simp only [Nat.zero_add, Nat.zero_le, true_and, Nat.sub_zero] at hinit hisr
  unfold bootIdt syscallGate idtSetGate
  have hnum : (0x80 : UInt8).toNat = 0x80 := rfl
  rw [hnum]
  by_cases hcall : v = 0x80
  · rw [hcall, Function.update_self, if_neg (by decide), if_neg (by decide),
      if_pos rfl]
    rfl
  · rw [Function.update_of_ne hcall, if_neg hcall]
    refine hirq.trans ?_
    by_cases hlow : v < 32
    · rw [if_neg (by omega), if_pos hlow]
      refine hisr.trans ?_
      rw [if_pos (by omega)]
    · rw [if_neg hlow]
      by_cases hmid : v < 48
      · rw [if_pos (by omega), if_pos hmid]
      · rw [if_neg (by omega), if_neg hmid]
        refine hisr.trans ?_
        rw [if_neg (by omega)]
        refine hinit.trans ?_
        rw [if_pos (by omega)]

/-- How an entry that was set reads back. -/
theorem gateOf_idtGate (handler : UInt32) (selector : UInt16)
    (flags : UInt8) :
    gateOf (idtGate handler selector flags).bytes
      = if flags.toNat / 128 = 1 ∧ flags.toNat % 32 = 14 then
          some (⟨handler, selector⟩, flags.toNat / 32 % 4)
        else none := by
  have hset := gateOf_set (fun _ => idtGate 0 0 0) 0 handler selector flags
  unfold idtSetGate at hset
  rw [Function.update_self] at hset
  exact hset

/-- What each vector leads to. -/
theorem bootIdt_gate (isr irq : Nat → UInt32) (stub : UInt32)
    (idt : Nat → IdtEntry) (v : UInt8) :
    gateOf (bootIdt isr irq stub idt v.toNat).bytes
      = if v.toNat < 32 then some (⟨isr v.toNat, 0x08⟩, 0)
        else if v.toNat < 48 then some (⟨irq (v.toNat - 32), 0x08⟩, 0)
        else if v.toNat = 0x80 then some (⟨stub, 0x08⟩, 3)
        else none := by
  rw [bootIdt_entry isr irq stub idt v.toNat_lt]
  split
  · exact gateOf_idtGate _ _ _
  split
  · exact gateOf_idtGate _ _ _
  split
  · exact gateOf_idtGate _ _ _
  · exact gateOf_idtGate _ _ _

/-- A descriptor that `gdt_set_gate` has not set. -/
theorem gdtSetGate_ne (gdt : Nat → GdtEntry) {n i : Nat} (h : i ≠ n)
    (base limit : UInt32) (access gran : UInt8) :
    gdtSetGate gdt n base limit access gran i = gdt i :=
  Function.update_of_ne h _ _

/-- The segments after the start. -/
theorem gdtInit_segment (gdt : Nat → GdtEntry) (tssBase : UInt32) :
    segmentOf (gdtInit gdt tssBase 0).bytes = ⟨0, 0, 0, 0⟩
      ∧ segmentOf (gdtInit gdt tssBase 1).bytes = ⟨0, 0xFFFFF, 0x9A, 12⟩
      ∧ segmentOf (gdtInit gdt tssBase 2).bytes = ⟨0, 0xFFFFF, 0x92, 12⟩
      ∧ segmentOf (gdtInit gdt tssBase 3).bytes = ⟨0, 0xFFFFF, 0xFA, 12⟩
      ∧ segmentOf (gdtInit gdt tssBase 4).bytes = ⟨0, 0xFFFFF, 0xF2, 12⟩
      ∧ segmentOf (gdtInit gdt tssBase 5).bytes
        = ⟨tssBase.toNat, 103, 0x89, 0⟩ := by
  unfold gdtInit
  refine ⟨?_, ?_, ?_, ?_, ?_, ?_⟩
  · rw [gdtSetGate_ne _ (by decide), gdtSetGate_ne _ (by decide),
      gdtSetGate_ne _ (by decide), gdtSetGate_ne _ (by decide),
      gdtSetGate_ne _ (by decide), segmentOf_set]
    rfl
  · rw [gdtSetGate_ne _ (by decide), gdtSetGate_ne _ (by decide),
      gdtSetGate_ne _ (by decide), gdtSetGate_ne _ (by decide), segmentOf_set]
    rfl
  · rw [gdtSetGate_ne _ (by decide), gdtSetGate_ne _ (by decide),
      gdtSetGate_ne _ (by decide), segmentOf_set]
    rfl
  · rw [gdtSetGate_ne _ (by decide), gdtSetGate_ne _ (by decide),
      segmentOf_set]
    rfl
  · rw [gdtSetGate_ne _ (by decide), segmentOf_set]
    rfl
  · rw [segmentOf_set]
    rfl

/-- The task state segment after `tss_init`. -/
theorem tssInit_words (m : Mem) (base : Nat) {top : Nat} (h : top < 2 ^ 32) :
    (tssInit m base top).load32 (base + 4) = top
      ∧ (tssInit m base top).load32 (base + 8) = 0x10
      ∧ ofBytes [tssInit m base top (base + 102),
        tssInit m base top (base + 103)] = TSS_SIZE := by
  unfold tssInit
  dsimp only
  generalize upTo TSS_SIZE (fun m i => m.set (base + i) 0) m = z
  have hmap : ∀ {m : Mem} {a : Nat}, a + 4 ≤ base + 102 →
      (m.write (base + 102) (le16 (UInt16.ofNat TSS_SIZE))).load32 a
        = m.load32 a :=
    fun ha => load32_congr fun x _ hx => write_outside (by omega)
  refine ⟨?_, ?_, ?_⟩
  · rw [hmap (by omega), load32_store32]
    exact Nat.mod_eq_of_lt h
  · rw [hmap (by omega), load32_store32_of_disjoint _ _ (by omega),
      load32_store32]
    rfl
  · generalize (z.store32 (base + 8) 0x10).store32 (base + 4) top = y
    have hlow : y.write (base + 102) (le16 (UInt16.ofNat TSS_SIZE))
        (base + 102) = 104 := by
      have hin := @write_inside (le16 (UInt16.ofNat TSS_SIZE)) y (base + 102) 0
        (by decide)
      exact hin
    have hhigh : y.write (base + 102) (le16 (UInt16.ofNat TSS_SIZE))
        (base + 103) = 0 := by
      have hin := @write_inside (le16 (UInt16.ofNat TSS_SIZE)) y (base + 102) 1
        (by decide)
      exact hin
    rw [hlow, hhigh]
    rfl

-- =============================================================== the results

/-- What the processor finds in the tables after the start. -/
structure Started (gdt : Nat → GdtEntry) (idt : Nat → IdtEntry) (m : Mem)
    (isr irq : Nat → UInt32) (stub tssBase top : UInt32) : Prop where
  /-- a vector leads to the stub that was written for it, in the kernel's
  code segment, and from ring 3 only the system call does -/
  vector : ∀ v : UInt8, gateOf (idt v.toNat).bytes
    = if v.toNat < 32 then some (⟨isr v.toNat, 0x08⟩, 0)
      else if v.toNat < 48 then some (⟨irq (v.toNat - 32), 0x08⟩, 0)
      else if v.toNat = 0x80 then some (⟨stub, 0x08⟩, 3)
      else none
  null : (segmentOf (gdt 0).bytes).present = false
  /-- the kernel's and the user's segments are flat -/
  flat : ∀ i, 1 ≤ i → i ≤ 4 → (segmentOf (gdt i).bytes).present = true
    ∧ (segmentOf (gdt i).bytes).base = 0
    ∧ (segmentOf (gdt i).bytes).last = 2 ^ 32 - 1
  /-- the ring of a selector is that of its descriptor -/
  rings : ∀ sel ∈ [0x08, 0x10, 0x1B, 0x23],
    (segmentOf (gdt (sel / 8)).bytes).dpl = sel % 4
  /-- the task state segment, and the stack for ring 0 in it -/
  tss : (segmentOf (gdt 5).bytes).base = tssBase.toNat
    ∧ (gdt 5).bytes = umTssDescriptor tssBase tssLimit
  stack : m.load32 (tssBase.toNat + 4) = top.toNat
    ∧ m.load32 (tssBase.toNat + 8) = 0x10
  /-- it has no bitmap of ports -/
  ports : (segmentOf (gdt 5).bytes).last
    < ofBytes [m (tssBase.toNat + 102), m (tssBase.toNat + 103)]

/-- Whatever the tables and the memory held before, and wherever the stubs
and the task state segment are. -/
theorem boot_tables (gdt : Nat → GdtEntry) (idt : Nat → IdtEntry) (m : Mem)
    (isr irq : Nat → UInt32) (stub tssBase top : UInt32) :
    Started (gdtInit gdt tssBase) (bootIdt isr irq stub idt)
      (tssInit m tssBase.toNat top.toNat) isr irq stub tssBase top := by
  obtain ⟨h0, h1, h2, h3, h4, h5⟩ := gdtInit_segment gdt tssBase
  obtain ⟨hesp, hss, hmap⟩ := tssInit_words m tssBase.toNat top.toNat_lt
  refine ⟨bootIdt_gate isr irq stub idt, ?_, ?_, ?_, ⟨?_, ?_⟩, ⟨hesp, hss⟩, ?_⟩
  · rw [h0]
    rfl
  · intro i hi hi'
    have hcases : i = 1 ∨ i = 2 ∨ i = 3 ∨ i = 4 := by omega
    rcases hcases with rfl | rfl | rfl | rfl
    · rw [h1]
      decide
    · rw [h2]
      decide
    · rw [h3]
      decide
    · rw [h4]
      decide
  · intro sel hsel
    simp only [List.mem_cons, List.not_mem_nil, or_false] at hsel
    rcases hsel with rfl | rfl | rfl | rfl
    · rw [h1]
      rfl
    · rw [h2]
      rfl
    · rw [h3]
      rfl
    · rw [h4]
      rfl
  · rw [h5]
  · exact umTssDescriptor_eq _ 5 tssBase tssLimit
  · have hlast : (⟨tssBase.toNat, 103, 0x89, 0⟩ : Segment).last = 103 := by
      simp [Segment.last]
    rw [hmap, h5, hlast]
    decide

/-- Every descriptor and every gate reads back as it was set, and setting
one leaves the others alone. -/
theorem descriptors_read_back (gdt : Nat → GdtEntry) (idt : Nat → IdtEntry)
    (n : Nat) (base limit : UInt32) (access gran : UInt8) (num : UInt8)
    (handler : UInt32) (selector : UInt16) (flags : UInt8) :
    (∀ i, segmentOf (gdtSetGate gdt n base limit access gran i).bytes
      = if i = n then
          ⟨base.toNat, limit.toNat % 2 ^ 20, access, gran.toNat / 16⟩
        else segmentOf (gdt i).bytes)
      ∧ ∀ v, gateOf (idtSetGate idt num handler selector flags v).bytes
        = if v = num.toNat then
            if flags.toNat / 128 = 1 ∧ flags.toNat % 32 = 14 then
              some (⟨handler, selector⟩, flags.toNat / 32 % 4)
            else none
          else gateOf (idt v).bytes := by
  refine ⟨fun i => ?_, fun v => ?_⟩
  · by_cases hi : i = n
    · rw [if_pos hi, hi]
      exact segmentOf_set gdt n base limit access gran
    · rw [if_neg hi, gdtSetGate_ne gdt hi]
  · by_cases hv : v = num.toNat
    · rw [if_pos hv, hv]
      exact gateOf_set idt num handler selector flags
    · rw [if_neg hv]
      unfold idtSetGate
      rw [Function.update_of_ne hv]

end Thuos.Arch
