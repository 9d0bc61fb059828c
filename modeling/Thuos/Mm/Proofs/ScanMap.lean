/-
What the map branch of `pmm_init` computes: which frames the entry loop
frees (`fbTest_foldl_scanEntry`), how far `highest` reaches
(`highest_foldl_scanEntry`), and, after the reservations, which frames
are left free (`pmmInit_initFrom`).

The loop runs on fuel; on a well-formed map it ends after one round for
each entry (`scanMap_boot`), so the fuel is no assumption on the code.
-/
import Thuos.Mm.Proofs.Reserve

namespace Thuos.Mm

open ByteMem

-- ========================================================== memory maps

def MmapEntry.Available (e : MmapEntry) : Prop :=
  e.type = MB_MEMORY_AVAILABLE

instance (e : MmapEntry) : Decidable e.Available :=
  inferInstanceAs (Decidable (e.type = MB_MEMORY_AVAILABLE))

/-- The entries of a well-formed map: they tile the `len` bytes from `a`
on, each has a size of at least 20, and no region wraps. -/
def MapAt (mem : Mem) : Nat → Nat → List MmapEntry → Prop
  | _, len, [] => len = 0
  | a, len, e :: es =>
      e = readEntry mem a ∧ 20 ≤ e.size ∧ e.size + 4 ≤ len
        ∧ e.addr + e.len < 2 ^ 64
        ∧ MapAt mem (a + (e.size + 4)) (len - (e.size + 4)) es

instance decidableMapAt (mem : Mem) :
    ∀ a len es, Decidable (MapAt mem a len es)
  | _, len, [] => inferInstanceAs (Decidable (len = 0))
  | a, len, e :: es =>
      have := decidableMapAt mem (a + (e.size + 4)) (len - (e.size + 4)) es
      inferInstanceAs (Decidable (e = readEntry mem a ∧ 20 ≤ e.size
        ∧ e.size + 4 ≤ len ∧ e.addr + e.len < 2 ^ 64 ∧ MapAt mem _ _ es))

/-- A boot with a well-formed memory map: `pmm_init` is called with the
Multiboot magic and an info structure that names a map of entries `es`
inside the 32-bit address space. -/
structure BootsWith (mem : Mem) (mbInfoAddr : Nat) (mbi : MultibootInfo)
    (es : List MmapEntry) : Prop where
  addr_ne : mbInfoAddr ≠ 0
  info : readInfo mem mbInfoAddr = mbi
  hasMap : mbi.flags &&& MB_FLAG_MMAP ≠ 0
  fits : mbi.mmapAddr + mbi.mmapLength ≤ 2 ^ 32
  map : MapAt mem mbi.mmapAddr mbi.mmapLength es

theorem MapAt.no_wrap {mem : Mem} {es : List MmapEntry} :
    ∀ {a len : Nat}, MapAt mem a len es →
      ∀ e ∈ es, e.addr + e.len < 2 ^ 64 := by
  induction es with
  | nil => intro a len _ e he; exact absurd he List.not_mem_nil
  | cons x es ih =>
      intro a len h e he
      obtain ⟨-, -, -, hx, hes⟩ := h
      rcases List.mem_cons.mp he with rfl | he
      · exact hx
      · exact ih hes e he

-- ======================================================= the entry loop

/-- `rend`: the end of a region, capped to 4 GiB. -/
def regionEnd (e : MmapEntry) : Nat := min ((e.addr + e.len) % 2 ^ 64) (2 ^ 32)

/-- The entry makes the loop free frame `f`. -/
def Frees (e : MmapEntry) (f : Nat) : Prop :=
  e.Available ∧ e.addr / PAGE_SIZE % 2 ^ 32 ≤ f ∧ f < regionEnd e / PAGE_SIZE

instance (e : MmapEntry) (f : Nat) : Decidable (Frees e f) :=
  inferInstanceAs (Decidable (_ ∧ _ ∧ _))

theorem scanEntry_available {e : MmapEntry} (he : e.Available) (acc : Scan) :
    scanEntry acc e
      = { highest := if acc.highest < regionEnd e then regionEnd e % 2 ^ 32
            else acc.highest
          usableBytes := (acc.usableBytes + e.len % 2 ^ 32) % 2 ^ 32
          bitmap := markFreeFrames acc.bitmap (e.addr / PAGE_SIZE % 2 ^ 32)
            (regionEnd e / PAGE_SIZE) } := by
  have hend : (if 0x100000000 < (e.addr + e.len) % 2 ^ 64 then 0x100000000
      else (e.addr + e.len) % 2 ^ 64) = regionEnd e := by
    unfold regionEnd
    split <;> omega
  have hdiv : regionEnd e / PAGE_SIZE % 2 ^ 32 = regionEnd e / PAGE_SIZE := by
    unfold regionEnd PAGE_SIZE
    omega
  unfold scanEntry
  rw [if_pos (show e.type = MB_MEMORY_AVAILABLE from he)]
  simp only [hend, hdiv]

theorem scanEntry_other {e : MmapEntry} (he : ¬ e.Available) (acc : Scan) :
    scanEntry acc e = acc := if_neg he

theorem fbTest_scanEntry (acc : Scan) (e : MmapEntry) (f : Nat) :
    fbTest (scanEntry acc e).bitmap f
      = (decide (¬ Frees e f) && fbTest acc.bitmap f) := by
  by_cases he : e.Available
  · rw [scanEntry_available he]
    show fbTest (markFreeFrames acc.bitmap _ _) f = _
    unfold markFreeFrames
    rw [fbTest_foldl_markFree]
    congr 1
    rw [decide_eq_decide, not_iff_not, List.mem_range'_1]
    unfold Frees regionEnd MAX_FRAMES PAGE_SIZE
    refine ⟨fun h => ⟨he, by omega, by omega⟩, fun h => ?_⟩
    obtain ⟨-, hlo, hhi⟩ := h
    omega
  · rw [scanEntry_other he]
    have hfrees : ¬ Frees e f := fun h => he h.1
    simp [hfrees]

/-- The loop clears exactly the bits some entry frees. -/
theorem fbTest_foldl_scanEntry (es : List MmapEntry) (acc : Scan) (f : Nat) :
    fbTest (es.foldl scanEntry acc).bitmap f = true
      ↔ fbTest acc.bitmap f = true ∧ ∀ e ∈ es, ¬ Frees e f := by
  induction es generalizing acc with
  | nil => simp
  | cons e es ih =>
      rw [List.foldl_cons, ih, fbTest_scanEntry, List.forall_mem_cons,
        Bool.and_eq_true, decide_eq_true_eq]
      refine ⟨fun h => ⟨h.1.2, h.1.1, h.2⟩, fun h => ⟨⟨h.2.1, h.1⟩, h.2.2⟩⟩

/-- On a well-formed map that ends below the top of the address space,
the loop ends and reads its entries in order. -/
theorem scanMap_eq {mem : Mem} {es : List MmapEntry} :
    ∀ {a len fuel : Nat} (acc : Scan), MapAt mem a len es →
      a + len < 2 ^ 32 → es.length < fuel →
      scanMap mem (a + len) fuel a acc = some (es.foldl scanEntry acc) := by
  induction es with
  | nil =>
      intro a len fuel acc h hlen hfuel
      obtain ⟨fuel, rfl⟩ : ∃ n, fuel = n + 1 := ⟨fuel - 1, by omega⟩
      obtain rfl : len = 0 := h
      exact if_neg (by omega)
  | cons e es ih =>
      intro a len fuel acc h hlen hfuel
      obtain ⟨he, hsize, hle, -, hes⟩ := h
      rw [List.length_cons] at hfuel
      obtain ⟨fuel, rfl⟩ : ∃ n, fuel = n + 1 := ⟨fuel - 1, by omega⟩
      have hnext : (a + (e.size + 4) % 2 ^ 32) % 2 ^ 32
          = a + (e.size + 4) := by omega
      have hend : a + len = a + (e.size + 4) + (len - (e.size + 4)) := by
        omega
      rw [scanMap, if_pos (by omega), ← he]
      show scanMap mem (a + len) fuel ((a + (e.size + 4) % 2 ^ 32) % 2 ^ 32)
        (scanEntry acc e) = _
      rw [List.foldl_cons, hnext, hend]
      exact ih _ hes (by omega) (by omega)

-- ===================================================== the highest end

/-- `highest` reaches past frame `f`: some AVAILABLE region does, and
neither it nor any AVAILABLE region after it ends at 4 GiB or above. -/
def Spanned : List MmapEntry → Nat → Prop
  | [], _ => False
  | e :: es, f =>
      Spanned es f
        ∨ (e.Available ∧ PAGE_SIZE * (f + 1) ≤ e.addr + e.len
          ∧ ∀ e' ∈ e :: es, e'.Available → e'.addr + e'.len < 2 ^ 32)

theorem highest_scanEntry {e : MmapEntry} (hwrap : e.addr + e.len < 2 ^ 64)
    {acc : Scan} (hacc : acc.highest < 2 ^ 32) :
    (scanEntry acc e).highest
      = if e.Available then
          if e.addr + e.len < 2 ^ 32 then max acc.highest (e.addr + e.len)
          else 0
        else acc.highest := by
  by_cases he : e.Available
  · rw [scanEntry_available he, if_pos he]
    show (if acc.highest < regionEnd e then regionEnd e % 2 ^ 32
      else acc.highest) = _
    unfold regionEnd
    split <;> split <;> omega
  · rw [scanEntry_other he, if_neg he]

theorem highest_foldl_scanEntry {es : List MmapEntry} :
    ∀ (acc : Scan) (f : Nat), (∀ e ∈ es, e.addr + e.len < 2 ^ 64) →
      acc.highest < 2 ^ 32 →
      ((es.foldl scanEntry acc).highest < 2 ^ 32)
        ∧ (PAGE_SIZE * (f + 1) ≤ (es.foldl scanEntry acc).highest
          ↔ Spanned es f ∨ (PAGE_SIZE * (f + 1) ≤ acc.highest
            ∧ ∀ e ∈ es, e.Available → e.addr + e.len < 2 ^ 32)) := by
  induction es with
  | nil =>
      intro acc f _ hacc
      exact ⟨hacc, by simp [Spanned]⟩
  | cons e es ih =>
      intro acc f hwrap hacc
      have hnext := highest_scanEntry (hwrap e List.mem_cons_self) hacc
      have hlt : (scanEntry acc e).highest < 2 ^ 32 := by
        rw [hnext]
        split
        · split <;> omega
        · exact hacc
      obtain ⟨ihlt, ihiff⟩ := ih (scanEntry acc e) f
        (fun x hx => hwrap x (List.mem_cons_of_mem _ hx)) hlt
      rw [List.foldl_cons]
      refine ⟨ihlt, ihiff.trans ?_⟩
      rw [hnext, Spanned, List.forall_mem_cons, or_assoc]
      refine or_congr_right ?_
      by_cases he : e.Available
      · rw [if_pos he]
        by_cases hsmall : e.addr + e.len < 2 ^ 32
        · rw [if_pos hsmall, le_max_iff, or_and_right]
          simp only [he, hsmall, true_and, forall_const]
          exact or_comm
        · rw [if_neg hsmall]
          simp only [he, hsmall, forall_const, false_and, and_false, or_false,
            iff_false]
          exact fun h => absurd h.1 (by unfold PAGE_SIZE; omega)
      · rw [if_neg he]
        simp only [he, false_and, false_or, false_implies, true_and]

-- ================================================= the state after init

/-- The entries the loop reads: when the map ends exactly at the top of
the address space, `end` is 0 and the loop reads nothing. -/
def scannedEntries (mbi : MultibootInfo) (es : List MmapEntry) :
    List MmapEntry :=
  if mbi.mmapAddr + mbi.mmapLength < 2 ^ 32 then es else []

/-- The outcome of the entry loop. -/
def scanned (bm : Mem) (mbi : MultibootInfo) (es : List MmapEntry) : Scan :=
  (scannedEntries mbi es).foldl scanEntry
    { bitmap := fbInit bm MAX_FRAMES, highest := 0, usableBytes := 0 }

variable {fuel : Nat} {img : KernelImage} {bm mem : Mem} {mbInfoAddr : Nat}
  {mbi : MultibootInfo} {es : List MmapEntry}

/-- The loop ends on every well-formed map. -/
theorem scanMap_boot (hb : BootsWith mem mbInfoAddr mbi es)
    (hfuel : es.length < fuel) :
    scanMap mem ((mbi.mmapAddr + mbi.mmapLength) % 2 ^ 32) fuel mbi.mmapAddr
        { bitmap := fbInit bm MAX_FRAMES, highest := 0, usableBytes := 0 }
      = some (scanned bm mbi es) := by
  unfold scanned scannedEntries
  by_cases hlt : mbi.mmapAddr + mbi.mmapLength < 2 ^ 32
  · rw [if_pos hlt, Nat.mod_eq_of_lt hlt]
    exact scanMap_eq _ hb.map hlt hfuel
  · have hfits := hb.fits
    have hzero : (mbi.mmapAddr + mbi.mmapLength) % 2 ^ 32 = 0 := by omega
    obtain ⟨fuel, rfl⟩ : ∃ n, fuel = n + 1 := ⟨fuel - 1, by omega⟩
    rw [if_neg hlt, hzero]
    exact if_neg (Nat.not_lt_zero _)

/-- The state the map branch of `pmm_init` reaches before the totals. -/
def mapState (bm : Mem) (mbi : MultibootInfo) (acc : Scan) : Pmm :=
  let s :=
    if mbi.flags &&& MB_FLAG_MEM ≠ 0 then
      { pmmReset bm with memLowerKb := mbi.memLower
                         memUpperKb := mbi.memUpper }
    else pmmReset bm
  { s with haveMap := true
           mmapAddrSaved := mbi.mmapAddr
           mmapLenSaved := mbi.mmapLength
           bitmap := acc.bitmap
           usableBytes := acc.usableBytes }

theorem mapState_fields (bm : Mem) (mbi : MultibootInfo) (acc : Scan) :
    (mapState bm mbi acc).bitmap = acc.bitmap
      ∧ (mapState bm mbi acc).prot = []
      ∧ (mapState bm mbi acc).mmapAddrSaved = mbi.mmapAddr
      ∧ (mapState bm mbi acc).mmapLenSaved = mbi.mmapLength := by
  unfold mapState
  dsimp only
  split <;> exact ⟨rfl, rfl, rfl, rfl⟩

/-- `pmm_init` reads a well-formed map only through the outcome of the
entry loop. -/
theorem pmmInit_boot (hb : BootsWith mem mbInfoAddr mbi es)
    (hfuel : es.length < fuel) :
    pmmInit fuel img bm mem MULTIBOOT_BOOTLOADER_MAGIC mbInfoAddr
      = some (reserveAll img mbInfoAddr
          (setTotals (mapState bm mbi (scanned bm mbi es))
            (scanned bm mbi es).highest)) := by
  have hbit : (if mbi.flags &&& MB_FLAG_MEM ≠ 0 then
      { pmmReset bm with memLowerKb := mbi.memLower
                         memUpperKb := mbi.memUpper }
      else pmmReset bm).bitmap = fbInit bm MAX_FRAMES := by
    split <;> simp only [pmmReset]
  have hguard : ¬ (MULTIBOOT_BOOTLOADER_MAGIC ≠ MULTIBOOT_BOOTLOADER_MAGIC
      ∨ mbInfoAddr = 0) := by
    have := hb.addr_ne
    simp [this]
  unfold pmmInit findMemory
  rw [if_neg hguard, hb.info]
  dsimp only
  rw [if_pos hb.hasMap, hbit, scanMap_boot hb hfuel]
  rfl

/-- What `pmm_init` leaves for a map of entries `es`. -/
structure InitFrom (img : KernelImage) (mbInfoAddr : Nat)
    (mbi : MultibootInfo) (es : List MmapEntry) (s : Pmm) : Prop where
  spanned : ∀ f, f < s.totalFrames ↔ Spanned (scannedEntries mbi es) f
  free_iff : ∀ f < s.totalFrames, fbTest s.bitmap f = false
    ↔ (∃ e ∈ scannedEntries mbi es, Frees e f)
      ∧ ∀ r ∈ protectedRanges img mbInfoAddr mbi.mmapAddr mbi.mmapLength,
          ¬ Covers r.1 r.2 f
  prot : s.prot = (protectedRanges img mbInfoAddr mbi.mmapAddr
    mbi.mmapLength).filter (fun r => r.1 < r.2)

/-- What `pmm_init` leaves, in one statement. -/
theorem pmmInit_initFrom (fuel : Nat) (img : KernelImage) (bm : Mem)
    (hb : BootsWith mem mbInfoAddr mbi es)
    (hfuel : es.length < fuel) :
    ∃ s, pmmInit fuel img bm mem MULTIBOOT_BOOTLOADER_MAGIC mbInfoAddr
        = some s ∧ InitFrom img mbInfoAddr mbi es s := by
  refine ⟨_, pmmInit_boot hb hfuel, ?_⟩
  obtain ⟨hbit, hprot, haddr, hlen⟩ :=
    mapState_fields bm mbi (scanned bm mbi es)
  have hwrap : ∀ e ∈ scannedEntries mbi es, e.addr + e.len < 2 ^ 64 := by
    intro e he
    unfold scannedEntries at he
    split at he
    · exact hb.map.no_wrap e he
    · exact absurd he List.not_mem_nil
  obtain ⟨htot, hrec, -, htest⟩ := reserveAll_spec img mbInfoAddr
    (s := setTotals (mapState bm mbi (scanned bm mbi es))
      (scanned bm mbi es).highest) hprot
  have hhigh : ∀ f, (scanned bm mbi es).highest < 2 ^ 32
      ∧ (PAGE_SIZE * (f + 1) ≤ (scanned bm mbi es).highest
        ↔ Spanned (scannedEntries mbi es) f) := by
    intro f
    obtain ⟨hlt, hiff⟩ := highest_foldl_scanEntry
      { bitmap := fbInit bm MAX_FRAMES, highest := 0, usableBytes := 0 } f
      hwrap (Nat.two_pow_pos 32)
    refine ⟨hlt, hiff.trans ⟨fun h => ?_, Or.inl⟩⟩
    rcases h with h | ⟨h, -⟩
    · exact h
    · change PAGE_SIZE * (f + 1) ≤ 0 at h
      unfold PAGE_SIZE at h
      omega
  have htotal : ∀ f, f < (setTotals (mapState bm mbi (scanned bm mbi es))
      (scanned bm mbi es).highest).totalFrames
        ↔ PAGE_SIZE * (f + 1) ≤ (scanned bm mbi es).highest := by
    intro f
    have hlt := (hhigh f).1
    show f < (if MAX_FRAMES < (scanned bm mbi es).highest / PAGE_SIZE
      then MAX_FRAMES else (scanned bm mbi es).highest / PAGE_SIZE) ↔ _
    rw [if_neg (by unfold MAX_FRAMES PAGE_SIZE; omega)]
    unfold PAGE_SIZE
    omega
  have hbound := setTotals_le (mapState bm mbi (scanned bm mbi es))
    (scanned bm mbi es).highest
  refine ⟨fun f => ?_, fun f hf => ?_, ?_⟩
  · rw [htot, htotal]
    exact (hhigh f).2
  · rw [htot] at hf
    rw [← Bool.not_eq_true, htest]
    show ¬ (fbTest (mapState bm mbi (scanned bm mbi es)).bitmap f = true
      ∨ (_ ∧ ∃ r ∈ protectedRanges img mbInfoAddr
          (mapState bm mbi (scanned bm mbi es)).mmapAddrSaved
          (mapState bm mbi (scanned bm mbi es)).mmapLenSaved, _)) ↔ _
    have hinit : fbTest (fbInit bm MAX_FRAMES) f = true :=
      fbTest_init (by decide) (by omega)
    rw [and_iff_right hf, hbit, haddr, hlen, scanned, fbTest_foldl_scanEntry]
    simp only [hinit, true_and, not_or, not_exists, not_and,
      Classical.not_forall, not_not, exists_prop]
  · rw [hrec]
    show (protectedRanges img mbInfoAddr
      (mapState bm mbi (scanned bm mbi es)).mmapAddrSaved
      (mapState bm mbi (scanned bm mbi es)).mmapLenSaved).filter _ = _
    rw [haddr, hlen]

end Thuos.Mm
