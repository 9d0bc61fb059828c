/-
Reservation and protection.

`reserve_range` is handed byte ranges. It reserves the frames they
overlap, rounding outward, and records the bytes; `pmm_is_protected` asks
whether an address lies among the recorded bytes, and `pmm_free_frame`
asks it about the first byte of a frame. The two agree on every frame of a
range but its first: a range that begins in mid-frame reserves a frame
whose base it does not hold.

So they agree throughout exactly when every range that begins in mid-frame
does so in a frame whose base another range holds (`protection_agrees_iff`).
The low megabyte and the kernel image begin on frame boundaries; the info
structure and the map lie where the boot loader put them.
-/
import Thuos.Mm.Proofs.PmmRun

namespace Thuos.Mm

open Machine ByteMem

variable {img : KernelImage} {fuel magic mbInfoAddr : Nat} {bm mem : Mem}
  {s : Pmm}

/-- The ranges `pmm_init` passed to `reserve_range`. -/
def passedRanges (img : KernelImage) (mbInfoAddr : Nat) (s : Pmm) :
    List (Nat × Nat) :=
  protectedRanges img mbInfoAddr s.mmapAddrSaved s.mmapLenSaved

/-- A frame overlaps one of the ranges exactly when its base is protected,
and then it cannot be freed. -/
structure ProtectionAgrees (rs : List (Nat × Nat)) (s : Pmm) : Prop where
  agrees : ∀ f < s.totalFrames,
    (∃ r ∈ rs, Overlaps r.1 r.2 f)
      ↔ pmmIsProtected s (f * PAGE_SIZE) = true
  refused : ∀ f < s.totalFrames, (∃ r ∈ rs, Overlaps r.1 r.2 f) →
    pmmFreeFrame s (f * PAGE_SIZE) = (s, -2)

/-- The frame in which the range begins, if it counts, has its base in one
of the ranges. -/
def BeginsHeld (rs : List (Nat × Nat)) (total : Nat) (r : Nat × Nat) :
    Prop :=
  r.1 < r.2 → r.1 / PAGE_SIZE < total →
    ∃ r' ∈ rs, r'.1 ≤ r.1 / PAGE_SIZE * PAGE_SIZE
      ∧ r.1 / PAGE_SIZE * PAGE_SIZE < r'.2

instance (rs : List (Nat × Nat)) (total : Nat) (r : Nat × Nat) :
    Decidable (BeginsHeld rs total r) :=
  inferInstanceAs (Decidable (_ → _ → ∃ r' ∈ rs, _ ∧ _))

-- ======================================================== the recorded bytes

theorem isProtected_iff {rs : List (Nat × Nat)} {a : Nat}
    (h : s.prot = rs.filter fun r => r.1 < r.2) :
    pmmIsProtected s a = true ↔ ∃ r ∈ rs, r.1 ≤ a ∧ a < r.2 := by
  unfold pmmIsProtected
  rw [h, List.any_eq_true]
  constructor
  · rintro ⟨r, hr, hin⟩
    rw [Bool.and_eq_true, decide_eq_true_eq, decide_eq_true_eq] at hin
    exact ⟨r, (List.mem_filter.mp hr).1, hin⟩
  · rintro ⟨r, hr, hlo, hhi⟩
    refine ⟨r, List.mem_filter.mpr ⟨hr, ?_⟩, ?_⟩
    · exact decide_eq_true (Nat.lt_of_le_of_lt hlo hhi)
    · rw [Bool.and_eq_true, decide_eq_true_eq, decide_eq_true_eq]
      exact ⟨hlo, hhi⟩

/-- A range that holds the base of a frame overlaps it. -/
theorem overlaps_of_holds {r : Nat × Nat} {f : Nat}
    (hlo : r.1 ≤ f * PAGE_SIZE) (hhi : f * PAGE_SIZE < r.2) :
    Overlaps r.1 r.2 f := by
  unfold PAGE_SIZE at hlo hhi
  unfold Overlaps PAGE_SIZE
  omega

/-- A range overlaps the frame in which it begins. -/
theorem overlaps_first {r : Nat × Nat} (h : r.1 < r.2) :
    Overlaps r.1 r.2 (r.1 / PAGE_SIZE) := by
  unfold Overlaps PAGE_SIZE
  omega

/-- A range holds the base of every frame it overlaps, but for the one in
which it begins. -/
theorem holds_of_overlaps {r : Nat × Nat} {f : Nat}
    (h : Overlaps r.1 r.2 f) :
    (r.1 ≤ f * PAGE_SIZE ∧ f * PAGE_SIZE < r.2) ∨ r.1 / PAGE_SIZE = f := by
  obtain ⟨hlt, hlo, hhi⟩ := h
  unfold PAGE_SIZE at hlo hhi ⊢
  omega

/-- With the ranges recorded, agreement is a matter of where they begin. -/
theorem agrees_iff {rs : List (Nat × Nat)}
    (h : s.prot = rs.filter fun r => r.1 < r.2) :
    ProtectionAgrees rs s
      ↔ ∀ r ∈ rs, BeginsHeld rs s.totalFrames r := by
  constructor
  · intro hagrees r hr hlt htotal
    have hfirst := (hagrees.agrees _ htotal).mp ⟨r, hr, overlaps_first hlt⟩
    exact (isProtected_iff h).mp hfirst
  · intro hbegins
    have hagrees : ∀ f < s.totalFrames,
        (∃ r ∈ rs, Overlaps r.1 r.2 f)
          ↔ pmmIsProtected s (f * PAGE_SIZE) = true := by
      intro f hf
      rw [isProtected_iff h]
      constructor
      · rintro ⟨r, hr, hover⟩
        rcases holds_of_overlaps hover with hholds | rfl
        · exact ⟨r, hr, hholds⟩
        · exact hbegins r hr hover.1 hf
      · rintro ⟨r, hr, hlo, hhi⟩
        exact ⟨r, hr, overlaps_of_holds hlo hhi⟩
    refine ⟨hagrees, fun f hf hover => ?_⟩
    have hbase : f * PAGE_SIZE / PAGE_SIZE = f :=
      Nat.mul_div_cancel f (by decide)
    unfold pmmFreeFrame
    rw [if_neg (not_not.mpr (Nat.mul_mod_left ..)), hbase,
      if_neg (Nat.not_le.mpr hf), if_pos ((hagrees f hf).mp hover)]

-- ============================================================== after init

theorem reserveRanges_saved (rs : List (Nat × Nat)) (s : Pmm) :
    (reserveRanges s rs).mmapAddrSaved = s.mmapAddrSaved
      ∧ (reserveRanges s rs).mmapLenSaved = s.mmapLenSaved := by
  induction rs generalizing s with
  | nil => exact ⟨rfl, rfl⟩
  | cons r rs ih =>
      obtain ⟨-, haddr, hlen, -⟩ := reserveRange_spec s r.1 r.2
      obtain ⟨iaddr, ilen⟩ := ih (reserveRange s r.1 r.2)
      exact ⟨iaddr.trans haddr, ilen.trans hlen⟩

theorem passedRanges_reserveAll (s : Pmm) :
    passedRanges img mbInfoAddr (reserveAll img mbInfoAddr s)
      = passedRanges img mbInfoAddr s := by
  obtain ⟨haddr, hlen⟩ := reserveRanges_saved
    (protectedRanges img mbInfoAddr s.mmapAddrSaved s.mmapLenSaved) s
  unfold passedRanges
  rw [reserveAll_eq, haddr, hlen]

/-- `pmm_init` records the ranges it passed, or leaves no frames. -/
theorem pmmInit_records
    (h : pmmInit fuel img bm mem magic mbInfoAddr = some s) :
    s.totalFrames = 0
      ∨ s.prot = (passedRanges img mbInfoAddr s).filter fun r => r.1 < r.2 := by
  unfold pmmInit at h
  split at h
  · obtain rfl := Option.some.inj h
    exact Or.inl rfl
  · obtain ⟨r, hr, rfl⟩ := Option.map_eq_some_iff.mp h
    have hfresh : (setTotals r.1 r.2).prot = [] := (findMemory_fresh hr).1
    rw [passedRanges_reserveAll]
    exact Or.inr (reserveAll_spec img mbInfoAddr hfresh).2.1

/-- No call changes the ranges or the number of frames. -/
theorem step_keeps (l : Ledger) (op : PmmOp) :
    (l.step op).pmm.prot = l.pmm.prot
      ∧ (l.step op).pmm.totalFrames = l.pmm.totalFrames := by
  cases op with
  | alloc =>
      show (pmmAllocFrame l.pmm).1.prot = _
        ∧ (pmmAllocFrame l.pmm).1.totalFrames = _
      unfold pmmAllocFrame
      dsimp only
      split
      · exact ⟨rfl, rfl⟩
      · split <;> exact ⟨rfl, rfl⟩
  | free a =>
      show (pmmFreeFrame l.pmm a).1.prot = _
        ∧ (pmmFreeFrame l.pmm a).1.totalFrames = _
      rcases pmmFreeFrame_spec l.pmm a with ⟨-, hr⟩ | ⟨-, hkeep, -⟩
      · rw [hr]
        exact ⟨rfl, rfl⟩
      · rw [hkeep]
        exact ⟨rfl, rfl⟩

theorem run_keeps (s : Pmm) (ops : List PmmOp) :
    (exec Ledger.step (Ledger.fresh s) ops).pmm.prot = s.prot
      ∧ (exec Ledger.step (Ledger.fresh s) ops).pmm.totalFrames
        = s.totalFrames := by
  refine exec_inv'
    (fun l : Ledger => l.pmm.prot = s.prot
      ∧ l.pmm.totalFrames = s.totalFrames)
    (fun l op hl => ?_) ⟨rfl, rfl⟩
  obtain ⟨hprot, htotal⟩ := step_keeps l op
  exact ⟨hprot.trans hl.1, htotal.trans hl.2⟩

/-- In every state that calls lead to after `pmm_init`, reservation and
protection agree exactly when each range passed that begins below the
total begins in a frame whose base one of the ranges holds. -/
theorem protection_agrees_iff
    (h : pmmInit fuel img bm mem magic mbInfoAddr = some s)
    (ops : List PmmOp) :
    ProtectionAgrees (passedRanges img mbInfoAddr s)
        (exec Ledger.step (Ledger.fresh s) ops).pmm
      ↔ ∀ r ∈ passedRanges img mbInfoAddr s,
          BeginsHeld (passedRanges img mbInfoAddr s) s.totalFrames r := by
  obtain ⟨hprot, htotal⟩ := run_keeps s ops
  rcases pmmInit_records h with hzero | hrec
  · -- no frames: nothing to agree on
    rw [hzero] at htotal ⊢
    refine iff_of_true ⟨fun f hf => ?_, fun f hf => ?_⟩ ?_
    · rw [htotal] at hf
      exact absurd hf (Nat.not_lt_zero f)
    · rw [htotal] at hf
      exact absurd hf (Nat.not_lt_zero f)
    · exact fun r _ _ hlt => absurd hlt (Nat.not_lt_zero _)
  · rw [agrees_iff (hprot.trans hrec), htotal]

-- =================================================== a boot without a map

/-- Memory in which the info structure at `a` names no map, but 4 MiB of
memory above the first. -/
def infoAt (a : Nat) : Mem :=
  let m : Mem := fun _ => 0
  let m := m.store32 a MB_FLAG_MEM
  m.store32 (a + 8) 4096

/-- Such a boot counts 0x500 frames, and passes three ranges. -/
theorem boots_infoAt {a : Nat} (ha : a ≠ 0) :
    ∃ s, pmmInit 0 smallImage (fun _ => 0) (infoAt a)
        MULTIBOOT_BOOTLOADER_MAGIC a = some s
      ∧ s.totalFrames = 0x500
      ∧ passedRanges smallImage a s
        = [(0, LOW_MEMORY), (0x100000, 0x180000),
            (a, (a + MBI_SIZE) % 2 ^ 32)]
      ∧ ∀ f < 0x500, (∃ r ∈ passedRanges smallImage a s, Covers r.1 r.2 f) →
          fbTest s.bitmap f = true := by
  have hzero : ∀ a, Mem.load32 (fun _ => 0) a = 0 := fun a => rfl
  have hinfo : readInfo (infoAt a) a
      = { flags := MB_FLAG_MEM, memLower := 0, memUpper := 4096
          mmapLength := 0, mmapAddr := 0 } := by
    unfold readInfo infoAt MB_FLAG_MEM
    simp (disch := omega) only [Mem.load32_store32,
      Mem.load32_store32_of_disjoint, hzero]
    rfl
  have hguard : ¬ (MULTIBOOT_BOOTLOADER_MAGIC ≠ MULTIBOOT_BOOTLOADER_MAGIC
      ∨ a = 0) := by
    simp [ha]
  obtain ⟨found, highest, hfound, hhighest, hprot, hlen, haddr⟩ :
      ∃ found highest, findMemory 0 (fun _ => 0) (infoAt a)
          (readInfo (infoAt a) a) = some (found, highest)
        ∧ highest = 0x500000 ∧ found.prot = [] ∧ found.mmapLenSaved = 0
        ∧ found.mmapAddrSaved = 0 := by
    rw [hinfo]
    exact ⟨_, _, rfl, rfl, rfl, rfl, rfl⟩
  have hranges : passedRanges smallImage a (setTotals found highest)
      = [(0, LOW_MEMORY), (0x100000, 0x180000),
          (a, (a + MBI_SIZE) % 2 ^ 32)] := by
    show protectedRanges smallImage a found.mmapAddrSaved
      found.mmapLenSaved = _
    rw [hlen, haddr]
    rfl
  have htotal : (setTotals found highest).totalFrames = 0x500 := by
    rw [hhighest]
    rfl
  obtain ⟨htot, -, -, htest⟩ := reserveAll_spec smallImage a
    (s := setTotals found highest) hprot
  refine ⟨reserveAll smallImage a (setTotals found highest), ?_,
    htot.trans htotal, ?_, fun f hf hcover => ?_⟩
  · unfold pmmInit
    rw [if_neg hguard, hfound]
    rfl
  · rw [passedRanges_reserveAll]
    exact hranges
  · rw [passedRanges_reserveAll] at hcover
    exact (htest f).mpr (Or.inr ⟨by rw [htotal]; exact hf, hcover⟩)

/-- An info structure in low memory begins in a protected frame. -/
theorem protection_agrees_iff_low :
    ∃ s, pmmInit 0 smallImage (fun _ => 0) (infoAt 0x9100)
        MULTIBOOT_BOOTLOADER_MAGIC 0x9100 = some s
      ∧ ProtectionAgrees (passedRanges smallImage 0x9100 s)
        (exec Ledger.step (Ledger.fresh s) [.alloc, .free 0x300000]).pmm := by
  obtain ⟨s, hs, htotal, hranges, -⟩ := boots_infoAt (a := 0x9100) (by decide)
  refine ⟨s, hs, (protection_agrees_iff hs _).mpr ?_⟩
  rw [hranges, htotal]
  decide

/-- An info structure at 0x300100: frame 0x300 is reserved, its base is
not protected, and it is freed. -/
theorem info_frame_freed :
    ∃ s, pmmInit 0 smallImage (fun _ => 0) (infoAt 0x300100)
        MULTIBOOT_BOOTLOADER_MAGIC 0x300100 = some s
      ∧ (0x300100, 0x300174) ∈ passedRanges smallImage 0x300100 s
      ∧ 0x300 < s.totalFrames ∧ Overlaps 0x300100 0x300174 0x300
      ∧ fbTest s.bitmap 0x300 = true
      ∧ pmmIsProtected s 0x300000 = false
      ∧ (pmmFreeFrame s 0x300000).2 = 0
      ∧ fbTest (pmmFreeFrame s 0x300000).1.bitmap 0x300 = false
      ∧ ¬ ProtectionAgrees (passedRanges smallImage 0x300100 s) s := by
  obtain ⟨s, hs, htotal, hranges, hcovered⟩ :=
    boots_infoAt (a := 0x300100) (by decide)
  have hover : Overlaps 0x300100 0x300174 0x300 := by
    unfold Overlaps PAGE_SIZE
    omega
  have hmem : (0x300100, 0x300174) ∈ passedRanges smallImage 0x300100 s := by
    rw [hranges]
    decide
  have hused : fbTest s.bitmap 0x300 = true := by
    refine hcovered 0x300 (by decide) ⟨_, hmem, ?_⟩
    unfold Covers PAGE_SIZE
    decide
  have hrec := (pmmInit_records hs).resolve_left (by rw [htotal]; decide)
  have hprot : pmmIsProtected s 0x300000 = false := by
    rw [← Bool.not_eq_true, isProtected_iff hrec, hranges]
    decide
  have hlt : 0x300 < s.totalFrames := by
    rw [htotal]
    decide
  have hrel : Releasable s 0x300000 := ⟨by decide, hlt, hprot, hused⟩
  rcases pmmFreeFrame_spec s 0x300000 with ⟨-, hr⟩ | ⟨hno, -⟩
  · refine ⟨s, hs, hmem, hlt, hover, hused, hprot, by rw [hr], ?_,
      fun hagrees => ?_⟩
    · rw [hr]
      show fbTest (fbMarkFree s.bitmap 0x300) 0x300 = false
      rw [fbTest_markFree]
      rfl
    · have htrue := (hagrees.agrees 0x300 hlt).mp ⟨_, hmem, hover⟩
      exact Bool.noConfusion (hprot.symm.trans htrue)
  · exact absurd hrel hno

end Thuos.Mm
