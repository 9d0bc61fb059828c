/-
Which memory maps `pmm_init` handles correctly.

# Soundness

A free frame should be RAM throughout and overlap nothing that is
reserved. Three things break it: the first frame of a region is rounded
down, its number is narrowed to 32 bits, and the round-up in
`reserve_range` overflows for an end in the last page of the address
space. `SoundMap` excludes exactly these (`free_frames_sound_iff`;
`partial_frame_free` is the first of them at work).

# Completeness

`highest` is capped to 4 GiB and then cast to 32 bits, so an AVAILABLE
region that reaches 4 GiB sets it to 0 and memory is lost
(`memory_lost`). Without such a region nothing is, and the order of the
entries does not matter (`init_complete_iff`).
-/
import Thuos.Mm.Proofs.ScanMap

namespace Thuos.Mm

open ByteMem

variable {fuel : Nat} {img : KernelImage} {bm mem : Mem} {mbInfoAddr : Nat}
  {mbi : MultibootInfo} {es : List MmapEntry}

-- ================================================ a boot with one region

/-- Memory in which the info structure at 0x9000 names a map of one
AVAILABLE region, at 0x9100. -/
def oneRegionMem (addr len : Nat) : Mem :=
  let m : Mem := fun _ => 0
  let m := m.store32 0x9000 MB_FLAG_MMAP
  let m := m.store32 0x902C 24
  let m := m.store32 0x9030 0x9100
  let m := m.store32 0x9100 20
  let m := m.store64 0x9104 addr
  let m := m.store64 0x910C len
  m.store32 0x9114 MB_MEMORY_AVAILABLE

def oneRegionInfo : MultibootInfo :=
  { flags := MB_FLAG_MMAP, memLower := 0, memUpper := 0
    mmapLength := 24, mmapAddr := 0x9100 }

def oneRegion (addr len : Nat) : List MmapEntry :=
  [{ size := 20, addr := addr, len := len, type := MB_MEMORY_AVAILABLE }]

/-- A kernel image of half a megabyte. -/
def smallImage : KernelImage :=
  { start := 0x100000, fin := 0x180000, start_eq := rfl
    start_lt := by decide, fin_le := by decide }

theorem boots_oneRegion (addr len : Nat) (h : addr + len < 2 ^ 64) :
    BootsWith (oneRegionMem addr len) 0x9000 oneRegionInfo
      (oneRegion addr len) := by
  have hzero : ∀ a, Mem.load32 (fun _ => 0) a = 0 := fun a => rfl
  have hinfo : readInfo (oneRegionMem addr len) 0x9000 = oneRegionInfo := by
    unfold readInfo oneRegionMem Mem.store64 oneRegionInfo MB_FLAG_MMAP
    simp (disch := omega) only [Mem.load32_store32,
      Mem.load32_store32_of_disjoint, hzero]
    rfl
  have hentry : readEntry (oneRegionMem addr len) 0x9100
      = { size := 20, addr := addr, len := len
          type := MB_MEMORY_AVAILABLE } := by
    unfold readEntry oneRegionMem Mem.store64 Mem.load64 MB_MEMORY_AVAILABLE
    simp (disch := omega) only [Mem.load32_store32,
      Mem.load32_store32_of_disjoint]
    rw [MmapEntry.mk.injEq]
    omega
  exact ⟨by decide, hinfo, by decide, by decide, hentry.symm,
    Nat.le_refl 20, Nat.le_refl 24, h, rfl⟩

theorem spanned_oneRegion {addr len f : Nat} :
    Spanned (oneRegion addr len) f
      ↔ PAGE_SIZE * (f + 1) ≤ addr + len ∧ addr + len < 2 ^ 32 := by
  simp [oneRegion, Spanned, MmapEntry.Available]

/-- After a boot with one region below 4 GiB, past the kernel image: the
frames up to the region's end count, those from its start on are free. -/
theorem free_oneRegion {addr len f : Nat} {s : Pmm}
    (hinit : InitFrom smallImage 0x9000 oneRegionInfo (oneRegion addr len) s)
    (hlen : addr + len < 2 ^ 32) (himg : 0x180 ≤ f)
    (hf : PAGE_SIZE * (f + 1) ≤ addr + len) :
    f < s.totalFrames
      ∧ (fbTest s.bitmap f = false ↔ addr / PAGE_SIZE ≤ f) := by
  have hes : scannedEntries oneRegionInfo (oneRegion addr len)
      = oneRegion addr len := if_pos (by decide)
  have hlt : f < s.totalFrames := by
    rw [hinit.spanned, hes, spanned_oneRegion]
    exact ⟨hf, hlen⟩
  have hcover : ∀ r ∈ protectedRanges smallImage 0x9000
      oneRegionInfo.mmapAddr oneRegionInfo.mmapLength,
      ¬ Covers r.1 r.2 f := by
    intro r hr hc
    have hend : ∀ r ∈ protectedRanges smallImage 0x9000
        oneRegionInfo.mmapAddr oneRegionInfo.mmapLength,
        (r.2 + PAGE_SIZE - 1) % 2 ^ 32 / PAGE_SIZE ≤ 0x180 := by decide
    have := hend r hr
    have := hc.2.2
    omega
  refine ⟨hlt, (hinit.free_iff f hlt).trans ?_⟩
  rw [hes, and_iff_left hcover]
  simp only [oneRegion, List.mem_singleton, exists_eq_left, Frees,
    regionEnd, MmapEntry.Available, true_and]
  unfold PAGE_SIZE at hf ⊢
  omega

-- ================================================== regions and overlaps

/-- The byte lies in an AVAILABLE region. -/
def InAvailable (es : List MmapEntry) (b : Nat) : Prop :=
  ∃ e ∈ es, e.Available ∧ e.addr ≤ b ∧ b < e.addr + e.len

/-- Frame `f` and the bytes from `start` up to `fin` share a byte. -/
def Overlaps (start fin f : Nat) : Prop :=
  start < fin ∧ start < PAGE_SIZE * (f + 1) ∧ PAGE_SIZE * f < fin

/-- The memory that must not be handed out: the low megabyte, the kernel
image, the info structure and the map. -/
def bootRegions (img : KernelImage) (mbInfoAddr : Nat)
    (mbi : MultibootInfo) : List (Nat × Nat) :=
  [(0, LOW_MEMORY), (img.start, img.fin),
    (mbInfoAddr, mbInfoAddr + MBI_SIZE),
    (mbi.mmapAddr, mbi.mmapAddr + mbi.mmapLength)]

/-- The start of the last page below 4 GiB: the round-up in
`reserve_range` overflows for a range that ends above it. -/
def LAST_PAGE : Nat := 0xFFFFF000

/-- Away from the last page a range covers the frames it overlaps. -/
theorem covers_of_overlaps {start fin f : Nat} (hfin : fin ≤ LAST_PAGE)
    (h : Overlaps start fin f) : Covers start (fin % 2 ^ 32) f := by
  obtain ⟨hlt, hlo, hhi⟩ := h
  unfold LAST_PAGE at hfin
  unfold PAGE_SIZE at hlo hhi
  unfold Covers PAGE_SIZE
  omega

/-- A range never covers a frame it does not overlap. -/
theorem overlaps_of_covers {start fin f : Nat}
    (h : Covers start (fin % 2 ^ 32) f) : Overlaps start fin f := by
  obtain ⟨hlt, hlo, hhi⟩ := h
  unfold PAGE_SIZE at hlo hhi
  unfold Overlaps PAGE_SIZE
  omega

theorem mem_protectedRanges {r : Nat × Nat} :
    r ∈ protectedRanges img mbInfoAddr mbi.mmapAddr mbi.mmapLength
      ↔ r = (0, LOW_MEMORY) ∨ r = (img.start, img.fin)
        ∨ r = (mbInfoAddr, (mbInfoAddr + MBI_SIZE) % 2 ^ 32)
        ∨ (mbi.mmapLength ≠ 0 ∧ r = (mbi.mmapAddr,
            (mbi.mmapAddr + mbi.mmapLength) % 2 ^ 32)) := by
  unfold protectedRanges
  by_cases hlen : mbi.mmapLength ≠ 0
  · simp [hlen]
  · simp [hlen]

/-- Every reserved range is a boot region, its end cut to 32 bits. -/
theorem bootRegion_of_covers {f : Nat}
    (h : ∃ r ∈ protectedRanges img mbInfoAddr mbi.mmapAddr mbi.mmapLength,
      Covers r.1 r.2 f) :
    ∃ r ∈ bootRegions img mbInfoAddr mbi, Overlaps r.1 r.2 f := by
  obtain ⟨r, hr, hc⟩ := h
  have himg := img.fin_le
  unfold bootRegions
  rcases mem_protectedRanges.mp hr with rfl | rfl | rfl | ⟨-, rfl⟩
  · have hc : Covers 0 (LOW_MEMORY % 2 ^ 32) f := hc
    exact ⟨(0, LOW_MEMORY), by simp, overlaps_of_covers hc⟩
  · refine ⟨(img.start, img.fin), by simp, overlaps_of_covers ?_⟩
    rw [Nat.mod_eq_of_lt (by omega)]
    exact hc
  · exact ⟨(mbInfoAddr, mbInfoAddr + MBI_SIZE), by simp,
      overlaps_of_covers hc⟩
  · exact ⟨(mbi.mmapAddr, mbi.mmapAddr + mbi.mmapLength), by simp,
      overlaps_of_covers hc⟩

/-- Every boot region that stays out of the last page is reserved. -/
theorem covers_of_bootRegion {f : Nat} {r : Nat × Nat}
    (hr : r ∈ bootRegions img mbInfoAddr mbi) (hfin : r.2 ≤ LAST_PAGE)
    (h : Overlaps r.1 r.2 f) :
    ∃ r' ∈ protectedRanges img mbInfoAddr mbi.mmapAddr mbi.mmapLength,
      Covers r'.1 r'.2 f := by
  have hc := covers_of_overlaps hfin h
  unfold bootRegions at hr
  simp only [List.mem_cons, List.not_mem_nil, or_false] at hr
  rcases hr with rfl | rfl | rfl | rfl
  · exact ⟨_, mem_protectedRanges.mpr (Or.inl rfl), hc⟩
  · refine ⟨_, mem_protectedRanges.mpr (Or.inr (Or.inl rfl)), ?_⟩
    have himg := img.fin_le
    rw [Nat.mod_eq_of_lt (by show img.fin < _; omega)] at hc
    exact hc
  · exact ⟨_, mem_protectedRanges.mpr (Or.inr (Or.inr (Or.inl rfl))), hc⟩
  · refine ⟨_, mem_protectedRanges.mpr (Or.inr (Or.inr (Or.inr
      ⟨?_, rfl⟩))), hc⟩
    have hlt : mbi.mmapAddr < mbi.mmapAddr + mbi.mmapLength := h.1
    omega

-- ============================================================= soundness

/-- Every free frame is RAM throughout and overlaps no boot region. -/
def FreeFramesSound (img : KernelImage) (mbInfoAddr : Nat)
    (mbi : MultibootInfo) (es : List MmapEntry) (s : Pmm) : Prop :=
  ∀ f < s.totalFrames, fbTest s.bitmap f = false →
    (∀ b, PAGE_SIZE * f ≤ b → b < PAGE_SIZE * (f + 1) → InAvailable es b)
      ∧ ∀ r ∈ bootRegions img mbInfoAddr mbi, ¬ Overlaps r.1 r.2 f

/-- Frame `f` counts and no reservation covers it: it is free as soon as
an entry frees it. -/
def Exposed (img : KernelImage) (mbInfoAddr : Nat) (mbi : MultibootInfo)
    (es : List MmapEntry) (f : Nat) : Prop :=
  Spanned es f
    ∧ ∀ r ∈ protectedRanges img mbInfoAddr mbi.mmapAddr mbi.mmapLength,
        ¬ Covers r.1 r.2 f

/-- The maps that `pmm_init` gets right: no exposed frame is freed for
one of the three wrong reasons. -/
structure SoundMap (img : KernelImage) (mbInfoAddr : Nat)
    (mbi : MultibootInfo) (es : List MmapEntry) : Prop where
  /-- Where a region starts inside an exposed frame, the bytes before it
  are RAM as well. -/
  starts : ∀ e ∈ es, e.Available → e.addr < 2 ^ 44 →
    e.addr / PAGE_SIZE < regionEnd e / PAGE_SIZE →
    Exposed img mbInfoAddr mbi es (e.addr / PAGE_SIZE) →
    ∀ b, PAGE_SIZE * (e.addr / PAGE_SIZE) ≤ b → b < e.addr →
      InAvailable es b
  /-- A region from 2^44 on, whose first frame number is narrowed, frees
  only RAM. -/
  narrow : ∀ e ∈ es, e.Available → 2 ^ 44 ≤ e.addr →
    ∀ f, e.addr / PAGE_SIZE % 2 ^ 32 ≤ f →
    Exposed img mbInfoAddr mbi es f →
    ∀ b, PAGE_SIZE * f ≤ b → b < PAGE_SIZE * (f + 1) → InAvailable es b
  /-- No entry frees a frame of a boot region whose reservation
  overflows. -/
  tops : ∀ r ∈ bootRegions img mbInfoAddr mbi, LAST_PAGE < r.2 →
    ∀ f, Overlaps r.1 r.2 f → Exposed img mbInfoAddr mbi es f →
    ∀ e ∈ es, ¬ Frees e f

/-- Regions that start at page boundaries below 2^44, with boot structures
that end at or below the last page, make a sound map. -/
theorem soundMap_of_aligned {img : KernelImage} {mbInfoAddr : Nat}
    {mbi : MultibootInfo} {es : List MmapEntry}
    (halign : ∀ e ∈ es, e.Available →
      e.addr % PAGE_SIZE = 0 ∧ e.addr < 2 ^ 44)
    (htop : ∀ r ∈ bootRegions img mbInfoAddr mbi, r.2 ≤ LAST_PAGE) :
    SoundMap img mbInfoAddr mbi es where
  starts e he havail _ _ _ b hlo hhi := by
    -- no byte of the first frame lies before the region
    obtain ⟨hpage, -⟩ := halign e he havail
    unfold PAGE_SIZE at hpage hlo
    omega
  narrow e he havail hbig :=
    absurd hbig (Nat.not_le.mpr (halign e he havail).2)
  tops r hr hlast := absurd hlast (Nat.not_lt.mpr (htop r hr))

theorem spanned_lt {es : List MmapEntry} {f : Nat}
    (h : Spanned es f) : f + 1 < MAX_FRAMES := by
  induction es with
  | nil => exact False.elim h
  | cons e es ih =>
      rcases h with h | ⟨he, hend, hsmall⟩
      · exact ih h
      · have := hsmall e List.mem_cons_self he
        unfold PAGE_SIZE at hend
        unfold MAX_FRAMES
        omega

/-- A region that frees an exposed frame holds all of its bytes from the
region's start on. -/
theorem inAvailable_of_frees {e : MmapEntry} {f b : Nat} (he : e ∈ es)
    (hwrap : e.addr + e.len < 2 ^ 64) (hfrees : Frees e f)
    (hb : e.addr ≤ b) (hbf : b < PAGE_SIZE * (f + 1)) : InAvailable es b := by
  obtain ⟨havail, -, hhi⟩ := hfrees
  unfold regionEnd PAGE_SIZE at hhi
  unfold PAGE_SIZE at hbf
  exact ⟨e, he, havail, hb, by omega⟩

/-- What `SoundMap` says, at the frames the loop frees. -/
theorem soundMap_iff (hwrap : ∀ e ∈ es, e.addr + e.len < 2 ^ 64) :
    SoundMap img mbInfoAddr mbi es
      ↔ ∀ f, Exposed img mbInfoAddr mbi es f → (∃ e ∈ es, Frees e f) →
          (∀ b, PAGE_SIZE * f ≤ b → b < PAGE_SIZE * (f + 1) →
              InAvailable es b)
            ∧ ∀ r ∈ bootRegions img mbInfoAddr mbi, ¬ Overlaps r.1 r.2 f := by
  refine ⟨fun h f hf hfrees => ⟨fun b hlo hhi => ?_, fun r hr hover => ?_⟩,
    fun h => ⟨?_, ?_, ?_⟩⟩
  · obtain ⟨e, he, hfe⟩ := hfrees
    by_cases hbe : e.addr ≤ b
    · exact inAvailable_of_frees he (hwrap e he) hfe hbe hhi
    -- the byte lies below the region that freed its frame
    obtain ⟨havail, hnarrow, hend⟩ := hfe
    by_cases hsmall : e.addr < 2 ^ 44
    · have hfirst : e.addr / PAGE_SIZE = f := by
        unfold PAGE_SIZE at hnarrow hlo ⊢
        omega
      subst hfirst
      exact h.starts e he havail hsmall hend hf b hlo (by omega)
    · exact h.narrow e he havail (by omega) f hnarrow hf b hlo hhi
  · obtain ⟨e, he, hfe⟩ := hfrees
    by_cases hfin : r.2 ≤ LAST_PAGE
    · obtain ⟨r', hr', hc⟩ := covers_of_bootRegion hr hfin hover
      exact hf.2 r' hr' hc
    · exact h.tops r hr (by omega) f hover hf e he hfe
  · intro e he havail hsmall hend hf b hlo hhi
    have hfe : Frees e (e.addr / PAGE_SIZE) := by
      refine ⟨havail, ?_, hend⟩
      unfold PAGE_SIZE
      omega
    refine (h _ hf ⟨e, he, hfe⟩).1 b hlo ?_
    unfold PAGE_SIZE at hlo ⊢
    omega
  · intro e he havail hbig f hnarrow hf b hlo hhi
    have hlt := spanned_lt hf.1
    have hw := hwrap e he
    have hfe : Frees e f := by
      refine ⟨havail, hnarrow, ?_⟩
      unfold MAX_FRAMES at hlt
      unfold regionEnd PAGE_SIZE
      omega
    exact (h f hf ⟨e, he, hfe⟩).1 b hlo hhi
  · intro r hr hfin f hover hf e he hfe
    exact (h f hf ⟨e, he, hfe⟩).2 r hr hover

/-- `pmm_init` leaves only sound free frames exactly on sound maps; a map
that ends at the very top of the address space is not read at all. -/
theorem free_frames_sound_iff (hb : BootsWith mem mbInfoAddr mbi es)
    (hfuel : es.length < fuel) :
    (∃ s, pmmInit fuel img bm mem MULTIBOOT_BOOTLOADER_MAGIC mbInfoAddr
        = some s ∧ FreeFramesSound img mbInfoAddr mbi es s)
      ↔ mbi.mmapAddr + mbi.mmapLength = 2 ^ 32
        ∨ SoundMap img mbInfoAddr mbi es := by
  obtain ⟨s, hs, hinit⟩ := pmmInit_initFrom fuel img bm hb hfuel
  have hwrap := hb.map.no_wrap
  have hfits := hb.fits
  have hsound : (∃ s', pmmInit fuel img bm mem MULTIBOOT_BOOTLOADER_MAGIC
      mbInfoAddr = some s' ∧ FreeFramesSound img mbInfoAddr mbi es s')
        ↔ FreeFramesSound img mbInfoAddr mbi es s := by
    rw [hs]
    refine ⟨fun h => ?_, fun h => ⟨s, rfl, h⟩⟩
    obtain ⟨s', heq, h'⟩ := h
    exact Option.some.inj heq ▸ h'
  rw [hsound]
  by_cases htop : mbi.mmapAddr + mbi.mmapLength = 2 ^ 32
  · refine ⟨fun _ => Or.inl htop, fun _ f hf => ?_⟩
    have hspan := (hinit.spanned f).mp hf
    rw [scannedEntries, if_neg (by omega)] at hspan
    exact False.elim hspan
  have hes : scannedEntries mbi es = es := if_pos (by omega)
  rw [or_iff_right htop, soundMap_iff hwrap]
  refine ⟨fun h f hf hfrees => ?_, fun h f hf hfree => ?_⟩
  · have hlt := (hinit.spanned f).mpr (hes.symm ▸ hf.1)
    exact h f hlt ((hinit.free_iff f hlt).mpr ⟨hes.symm ▸ hfrees, hf.2⟩)
  · obtain ⟨hfrees, hcover⟩ := (hinit.free_iff f hf).mp hfree
    have hspan := (hinit.spanned f).mp hf
    rw [hes] at hfrees hspan
    exact h f ⟨hspan, hcover⟩ hfrees

/-- An aligned region is a sound map. -/
theorem aligned_region_sound :
    ∃ s, pmmInit 2 smallImage (fun _ => 0) (oneRegionMem 0x200000 0x200000)
        MULTIBOOT_BOOTLOADER_MAGIC 0x9000 = some s
      ∧ FreeFramesSound smallImage 0x9000 oneRegionInfo
          (oneRegion 0x200000 0x200000) s := by
  refine (free_frames_sound_iff (boots_oneRegion _ _ (by decide))
    (by decide)).mpr (Or.inr ⟨?_, ?_, ?_⟩)
  · intro e he _ _ _ _ b hlo hhi
    rw [oneRegion, List.mem_singleton] at he
    subst he
    dsimp only [PAGE_SIZE] at hlo hhi
    omega
  · intro e he _ hbig
    rw [oneRegion, List.mem_singleton] at he
    subst he
    exact absurd hbig (by decide)
  · intro r hr hbig
    have hends : ∀ r ∈ bootRegions smallImage 0x9000 oneRegionInfo,
        ¬ LAST_PAGE < r.2 := by decide
    exact absurd hbig (hends r hr)

/-- A region that starts at 0x200800 leaves frame 0x200 free, whose first
half is not RAM. -/
theorem partial_frame_free :
    BootsWith (oneRegionMem 0x200800 0x1FF800) 0x9000 oneRegionInfo
        (oneRegion 0x200800 0x1FF800)
      ∧ ∃ s, pmmInit 2 smallImage (fun _ => 0)
            (oneRegionMem 0x200800 0x1FF800) MULTIBOOT_BOOTLOADER_MAGIC
            0x9000 = some s
          ∧ 0x200 < s.totalFrames ∧ fbTest s.bitmap 0x200 = false
          ∧ ¬ InAvailable (oneRegion 0x200800 0x1FF800) (PAGE_SIZE * 0x200)
          ∧ ¬ FreeFramesSound smallImage 0x9000 oneRegionInfo
              (oneRegion 0x200800 0x1FF800) s := by
  have hb := boots_oneRegion 0x200800 0x1FF800 (by decide)
  obtain ⟨s, hs, hinit⟩ := pmmInit_initFrom 2 smallImage (fun _ => 0) hb
    (by decide)
  obtain ⟨hlt, hfree⟩ := free_oneRegion (f := 0x200) hinit (by decide)
    (by decide) (by decide)
  have hfree := hfree.mpr (by decide)
  have hhole : ¬ InAvailable (oneRegion 0x200800 0x1FF800)
      (PAGE_SIZE * 0x200) := by
    intro h
    obtain ⟨e, he, -, hlo, -⟩ := h
    rw [oneRegion, List.mem_singleton] at he
    subst he
    exact absurd hlo (by decide)
  refine ⟨hb, s, hs, hlt, hfree, hhole, fun h => hhole ?_⟩
  exact (h 0x200 hlt hfree).1 _ (by decide) (by decide)

-- ========================================================== completeness

/-- The largest end of an AVAILABLE region. -/
def maxEnd (es : List MmapEntry) : Nat :=
  es.foldr (fun e m => if e.Available then max (e.addr + e.len) m else m) 0

/-- `pmm_init` found all the memory there is: the total reaches the
highest AVAILABLE end below 4 GiB, a frame that lies in one AVAILABLE
region and overlaps no boot region is free, and the entries may come in
any order. -/
structure InitComplete (fuel : Nat) (img : KernelImage) (bm : Mem)
    (mbInfoAddr : Nat) (mbi : MultibootInfo) (es : List MmapEntry)
    (s : Pmm) : Prop where
  total : s.totalFrames = min (2 ^ 32) (maxEnd es) / PAGE_SIZE
  found : ∀ f < MAX_FRAMES, ∀ e ∈ es, e.Available →
    e.addr ≤ PAGE_SIZE * f → PAGE_SIZE * (f + 1) ≤ e.addr + e.len →
    (∀ r ∈ bootRegions img mbInfoAddr mbi, ¬ Overlaps r.1 r.2 f) →
    f < s.totalFrames ∧ fbTest s.bitmap f = false
  order : ∀ mem' es', es'.Perm es → BootsWith mem' mbInfoAddr mbi es' →
    pmmInit fuel img bm mem' MULTIBOOT_BOOTLOADER_MAGIC mbInfoAddr = some s

theorem le_maxEnd {e : MmapEntry} (he : e ∈ es) (havail : e.Available) :
    e.addr + e.len ≤ maxEnd es := by
  unfold maxEnd
  induction es with
  | nil => exact absurd he List.not_mem_nil
  | cons x es ih =>
      rw [List.foldr_cons]
      rcases List.mem_cons.mp he with rfl | he
      · rw [if_pos havail]
        exact Nat.le_max_left ..
      · split
        · exact (ih he).trans (Nat.le_max_right ..)
        · exact ih he

/-- Below 4 GiB the frames that count are those below the largest end. -/
theorem spanned_iff_maxEnd {f : Nat}
    (hsmall : ∀ e ∈ es, e.Available → e.addr + e.len < 2 ^ 32) :
    Spanned es f ↔ PAGE_SIZE * (f + 1) ≤ maxEnd es := by
  induction es with
  | nil =>
      refine ⟨False.elim, fun h => ?_⟩
      change PAGE_SIZE * (f + 1) ≤ 0 at h
      unfold PAGE_SIZE at h
      omega
  | cons e es ih =>
      have ih := ih fun x hx => hsmall x (List.mem_cons_of_mem _ hx)
      have hcons : maxEnd (e :: es)
          = if e.Available then max (e.addr + e.len) (maxEnd es)
            else maxEnd es := rfl
      rw [Spanned, ih, hcons]
      by_cases he : e.Available
      · rw [if_pos he, le_max_iff, and_iff_right he, and_iff_left hsmall]
        exact or_comm
      · rw [if_neg he]
        simp [he]

theorem maxEnd_lt {n : Nat} (hn : 0 < n)
    (h : ∀ e ∈ es, e.Available → e.addr + e.len < n) : maxEnd es < n := by
  unfold maxEnd
  induction es with
  | nil => exact hn
  | cons e es ih =>
      have ih := ih fun x hx => h x (List.mem_cons_of_mem _ hx)
      rw [List.foldr_cons]
      split
      · next he =>
        exact max_lt (h e List.mem_cons_self he) ih
      · exact ih

/-- Two bitmaps with the same bits are the same. -/
theorem bitmap_ext {bm bm' : Mem} (h : ∀ f, fbTest bm f = fbTest bm' f) :
    bm = bm' := by
  funext b
  apply Bits.ext_bit
  intro k hk
  have := h (b * 8 + k)
  rw [fbTest_eq, fbTest_eq, show (b * 8 + k) / 8 = b from by omega,
    show (b * 8 + k) % 8 = k from by omega] at this
  exact this

/-- The accumulated numbers after an entry that ends below 4 GiB. -/
theorem scanEntry_below {e : MmapEntry}
    (he : e.Available → e.addr + e.len < 2 ^ 32) (acc : Scan) :
    (scanEntry acc e).highest
        = (if e.Available then max acc.highest (e.addr + e.len)
          else acc.highest)
      ∧ (scanEntry acc e).usableBytes
        = if e.Available then (acc.usableBytes + e.len % 2 ^ 32) % 2 ^ 32
          else acc.usableBytes := by
  by_cases havail : e.Available
  · have he := he havail
    have hend : regionEnd e = e.addr + e.len := by
      unfold regionEnd
      omega
    rw [scanEntry_available havail, hend, if_pos havail, if_pos havail]
    refine ⟨?_, rfl⟩
    show (if acc.highest < e.addr + e.len then (e.addr + e.len) % 2 ^ 32
      else acc.highest) = _
    split <;> omega
  · rw [scanEntry_other havail, if_neg havail, if_neg havail]
    exact ⟨rfl, rfl⟩

/-- Two entries that end below 4 GiB may be scanned in either order. -/
theorem scanEntry_comm {x y : MmapEntry}
    (hx : x.Available → x.addr + x.len < 2 ^ 32)
    (hy : y.Available → y.addr + y.len < 2 ^ 32) (acc : Scan) :
    scanEntry (scanEntry acc x) y = scanEntry (scanEntry acc y) x := by
  refine Scan.ext (bitmap_ext fun f => ?_) ?_ ?_
  · simp only [fbTest_scanEntry]
    exact Bool.and_left_comm ..
  · rw [(scanEntry_below hy _).1, (scanEntry_below hx _).1,
      (scanEntry_below hx _).1, (scanEntry_below hy _).1]
    split <;> split <;> omega
  · rw [(scanEntry_below hy _).2, (scanEntry_below hx _).2,
      (scanEntry_below hx _).2, (scanEntry_below hy _).2]
    split <;> split <;> omega

theorem scanned_perm {es' : List MmapEntry} (hperm : es'.Perm es)
    (hsmall : ∀ e ∈ es, e.Available → e.addr + e.len < 2 ^ 32) :
    scanned bm mbi es' = scanned bm mbi es := by
  unfold scanned scannedEntries
  split
  · refine hperm.foldl_eq' (fun x hx y hy z => ?_) _
    exact scanEntry_comm (hsmall x (hperm.mem_iff.mp hx))
      (hsmall y (hperm.mem_iff.mp hy)) z
  · rfl

/-- A region that reached 4 GiB would make the very last frame count. -/
theorem InitComplete.ends_below {s : Pmm}
    (hinit : InitFrom img mbInfoAddr mbi es s)
    (h : InitComplete fuel img bm mbInfoAddr mbi es s) :
    ∀ e ∈ es, e.Available → e.addr + e.len < 2 ^ 32 := by
  intro e he havail
  by_contra hbig
  have hmax := le_maxEnd he havail
  have hlast : MAX_FRAMES - 1 < s.totalFrames := by
    rw [h.total]
    unfold MAX_FRAMES PAGE_SIZE
    omega
  have := spanned_lt ((hinit.spanned _).mp hlast)
  unfold MAX_FRAMES at this
  omega

/-- Of a map that is not read nothing is found. -/
theorem InitComplete.nothing_unread {s : Pmm}
    (hinit : InitFrom img mbInfoAddr mbi es s)
    (h : InitComplete fuel img bm mbInfoAddr mbi es s)
    (htop : mbi.mmapAddr + mbi.mmapLength = 2 ^ 32) :
    ∀ e ∈ es, e.Available → e.addr + e.len < PAGE_SIZE := by
  intro e he havail
  have hnone : ¬ 0 < s.totalFrames := by
    rw [hinit.spanned, scannedEntries, if_neg (by omega)]
    exact id
  have hmax := le_maxEnd he havail
  rw [h.total] at hnone
  unfold PAGE_SIZE at hnone ⊢
  omega

/-- The frames that count are those below the largest end. -/
theorem InitFrom.lt_total_iff {s : Pmm}
    (hinit : InitFrom img mbInfoAddr mbi es s)
    (hfits : mbi.mmapAddr + mbi.mmapLength ≤ 2 ^ 32)
    (hsmall : ∀ e ∈ es, e.Available → e.addr + e.len < 2 ^ 32)
    (htop : mbi.mmapAddr + mbi.mmapLength = 2 ^ 32 →
      ∀ e ∈ es, e.Available → e.addr + e.len < PAGE_SIZE) (f : Nat) :
    f < s.totalFrames ↔ PAGE_SIZE * (f + 1) ≤ maxEnd es := by
  rw [hinit.spanned, scannedEntries]
  split
  · exact spanned_iff_maxEnd hsmall
  · next hlen =>
    have := maxEnd_lt (by decide) (htop (by omega))
    refine ⟨False.elim, fun h => ?_⟩
    unfold PAGE_SIZE at h this
    omega

/-- A number with exactly these frames below it is the quotient. -/
theorem eq_div_of_lt_iff {n m : Nat}
    (h : ∀ f, f < n ↔ PAGE_SIZE * (f + 1) ≤ m) : n = m / PAGE_SIZE := by
  refine Nat.le_antisymm (Nat.not_lt.mp fun hlt => ?_)
    (Nat.not_lt.mp fun hlt => ?_)
  · have := (h _).mp hlt
    unfold PAGE_SIZE at this
    omega
  · have := (h n).mpr (by unfold PAGE_SIZE at hlt ⊢; omega)
    omega

/-- A frame inside one AVAILABLE region that is scanned, and beside every
boot region, is free. -/
theorem InitFrom.free_of_inside {s : Pmm}
    (hinit : InitFrom img mbInfoAddr mbi es s) {e : MmapEntry} {f : Nat}
    (he : e ∈ scannedEntries mbi es) (havail : e.Available)
    (hsmall : e.addr + e.len < 2 ^ 32) (hlt : f < s.totalFrames)
    (hlo : e.addr ≤ PAGE_SIZE * f)
    (hhi : PAGE_SIZE * (f + 1) ≤ e.addr + e.len)
    (hbeside : ∀ r ∈ bootRegions img mbInfoAddr mbi, ¬ Overlaps r.1 r.2 f) :
    fbTest s.bitmap f = false := by
  have hfrees : Frees e f := by
    refine ⟨havail, ?_, ?_⟩
    · unfold PAGE_SIZE at hlo ⊢
      omega
    · unfold PAGE_SIZE at hhi
      unfold regionEnd PAGE_SIZE
      omega
  refine (hinit.free_iff f hlt).mpr ⟨⟨e, he, hfrees⟩, fun r hr hc => ?_⟩
  obtain ⟨r', hr', hover⟩ := bootRegion_of_covers ⟨r, hr, hc⟩
  exact hbeside r' hr' hover

/-- `pmm_init` is complete exactly when no AVAILABLE region reaches 4 GiB
and the map does not end at the very top of the address space (unless
there is nothing to find). -/
theorem init_complete_iff (hb : BootsWith mem mbInfoAddr mbi es)
    (hfuel : es.length < fuel) :
    (∃ s, pmmInit fuel img bm mem MULTIBOOT_BOOTLOADER_MAGIC mbInfoAddr
        = some s ∧ InitComplete fuel img bm mbInfoAddr mbi es s)
      ↔ (∀ e ∈ es, e.Available → e.addr + e.len < 2 ^ 32)
        ∧ (mbi.mmapAddr + mbi.mmapLength = 2 ^ 32 →
            ∀ e ∈ es, e.Available → e.addr + e.len < PAGE_SIZE) := by
  obtain ⟨s, hs, hinit⟩ := pmmInit_initFrom fuel img bm hb hfuel
  have hfits := hb.fits
  refine ⟨fun h => ?_, fun h => ⟨s, hs, ?_⟩⟩
  · obtain ⟨s', heq, hcomp⟩ := h
    obtain rfl := Option.some.inj (hs.symm.trans heq)
    exact ⟨hcomp.ends_below hinit, hcomp.nothing_unread hinit⟩
  · obtain ⟨hsmall, htop⟩ := h
    have hmax := maxEnd_lt (by decide) hsmall
    have hcount := hinit.lt_total_iff hfits hsmall htop
    refine ⟨?_, fun f _ e he havail hlo hhi hbeside => ?_,
      fun mem' es' hperm hb' => ?_⟩
    · rw [Nat.min_eq_right (by omega)]
      exact eq_div_of_lt_iff hcount
    · have hlt := (hcount f).mpr (hhi.trans (le_maxEnd he havail))
      have hread : mbi.mmapAddr + mbi.mmapLength < 2 ^ 32 := by
        by_contra hlen
        have := htop (by omega) e he havail
        unfold PAGE_SIZE at hhi this
        omega
      have hscan : e ∈ scannedEntries mbi es := by
        rw [scannedEntries, if_pos hread]
        exact he
      exact ⟨hlt, hinit.free_of_inside hscan havail (hsmall e he havail) hlt
        hlo hhi hbeside⟩
    · have hfuel' : es'.length < fuel := hperm.length_eq ▸ hfuel
      rw [← hs, pmmInit_boot hb' hfuel', pmmInit_boot hb hfuel,
        scanned_perm hperm hsmall]

/-- A map that stays below 4 GiB. -/
theorem init_complete_below :
    ∃ s, pmmInit 2 smallImage (fun _ => 0) (oneRegionMem 0x200000 0x200000)
        MULTIBOOT_BOOTLOADER_MAGIC 0x9000 = some s
      ∧ InitComplete 2 smallImage (fun _ => 0) 0x9000 oneRegionInfo
          (oneRegion 0x200000 0x200000) s :=
  (init_complete_iff (boots_oneRegion _ _ (by decide)) (by decide)).mpr
    ⟨by decide, by decide⟩

/-- One region from 1 MiB to 4 GiB: no memory at all is found. -/
theorem memory_lost :
    BootsWith (oneRegionMem 0x100000 0xFFF00000) 0x9000 oneRegionInfo
        (oneRegion 0x100000 0xFFF00000)
      ∧ ∃ s, pmmInit 2 smallImage (fun _ => 0)
            (oneRegionMem 0x100000 0xFFF00000) MULTIBOOT_BOOTLOADER_MAGIC
            0x9000 = some s
          ∧ s.totalFrames = 0
          ∧ ¬ InitComplete 2 smallImage (fun _ => 0) 0x9000 oneRegionInfo
              (oneRegion 0x100000 0xFFF00000) s := by
  have hb := boots_oneRegion 0x100000 0xFFF00000 (by decide)
  obtain ⟨s, hs, hinit⟩ := pmmInit_initFrom 2 smallImage (fun _ => 0) hb
    (by decide)
  have htotal : s.totalFrames = 0 := by
    refine Nat.eq_zero_of_not_pos fun hpos => ?_
    rw [hinit.spanned, scannedEntries, if_pos (by decide),
      spanned_oneRegion] at hpos
    exact absurd hpos.2 (by decide)
  refine ⟨hb, s, hs, htotal, fun h => ?_⟩
  have := h.total
  rw [htotal] at this
  exact absurd this (by decide)

end Thuos.Mm
