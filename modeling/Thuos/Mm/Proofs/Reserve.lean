/-
What the reservations at the end of `pmm_init` do: the frames they cover
become used, the counters stay balanced, and the ranges are recorded for
`pmm_is_protected`. `reserveRange_spec` is one call, `reserveRanges_spec`
a list of them, and `pmmInit_guarded` what holds of every state that
`pmm_init` leaves.
-/
import Thuos.Mm.Pmm

namespace Thuos.Mm

open ByteMem

-- ============================================================ one range

/-- The frames `reserve_range` marks, before the total cuts them off. -/
def Covers (start fin f : Nat) : Prop :=
  start < fin ∧ start / PAGE_SIZE ≤ f
    ∧ f < (fin + PAGE_SIZE - 1) % 2 ^ 32 / PAGE_SIZE

/-- What the memory manager keeps true while it reserves: every frame it
counted as usable is still free or counted as reserved. -/
def Balanced (s : Pmm) : Prop :=
  s.usableFrames
      = s.reservedFrames + (freeSet s.bitmap s.totalFrames).card
    ∧ s.usableFrames ≤ MAX_FRAMES

theorem reserveFrame_keeps (s : Pmm) (f : Nat) :
    (reserveFrame s f).totalFrames = s.totalFrames
      ∧ (reserveFrame s f).usableFrames = s.usableFrames
      ∧ (reserveFrame s f).prot = s.prot
      ∧ (reserveFrame s f).mmapAddrSaved = s.mmapAddrSaved
      ∧ (reserveFrame s f).mmapLenSaved = s.mmapLenSaved := by
  unfold reserveFrame
  split <;> exact ⟨rfl, rfl, rfl, rfl, rfl⟩

theorem fbTest_reserveFrame (s : Pmm) (f g : Nat) :
    fbTest (reserveFrame s f).bitmap g
      = (decide (g = f) || fbTest s.bitmap g) := by
  unfold reserveFrame
  split
  · next h =>
    by_cases hg : g = f
    · rw [hg, h, Bool.or_true]
    · simp [hg]
  · exact fbTest_markUsed ..

theorem balanced_reserveFrame {s : Pmm} {f : Nat} (hf : f < s.totalFrames)
    (h : Balanced s) : Balanced (reserveFrame s f) := by
  obtain ⟨heq, hle⟩ := h
  unfold reserveFrame
  split
  · exact ⟨heq, hle⟩
  · next ht =>
    have hmem : f ∈ freeSet s.bitmap s.totalFrames :=
      mem_freeSet.mpr ⟨hf, by simpa using ht⟩
    have hpos := Finset.card_pos.mpr ⟨f, hmem⟩
    refine ⟨?_, hle⟩
    show s.usableFrames = s.reservedFrames + 1
      + (freeSet (fbMarkUsed s.bitmap f) s.totalFrames).card
    rw [freeSet_markUsed, Finset.card_erase_of_mem hmem]
    omega

/-- Reserving a list of frames below the total. -/
theorem foldl_reserveFrame (fs : List Nat) (s : Pmm)
    (hfs : ∀ f ∈ fs, f < s.totalFrames) :
    (fs.foldl reserveFrame s).totalFrames = s.totalFrames
      ∧ (fs.foldl reserveFrame s).prot = s.prot
      ∧ (fs.foldl reserveFrame s).mmapAddrSaved = s.mmapAddrSaved
      ∧ (fs.foldl reserveFrame s).mmapLenSaved = s.mmapLenSaved
      ∧ (Balanced s → Balanced (fs.foldl reserveFrame s))
      ∧ ∀ g, fbTest (fs.foldl reserveFrame s).bitmap g
          = (decide (g ∈ fs) || fbTest s.bitmap g) := by
  induction fs generalizing s with
  | nil => exact ⟨rfl, rfl, rfl, rfl, id, fun g => by simp⟩
  | cons f fs ih =>
      obtain ⟨htot, -, hprot, haddr, hlen⟩ := reserveFrame_keeps s f
      have hf := hfs f List.mem_cons_self
      obtain ⟨itot, iprot, iaddr, ilen, ibal, itest⟩ :=
        ih (reserveFrame s f) fun x hx => by
          rw [htot]
          exact hfs x (List.mem_cons_of_mem _ hx)
      rw [List.foldl_cons]
      refine ⟨itot.trans htot, iprot.trans hprot, iaddr.trans haddr,
        ilen.trans hlen, fun h => ibal (balanced_reserveFrame hf h),
        fun g => ?_⟩
      rw [itest, fbTest_reserveFrame, ← Bool.or_assoc]
      congr 1
      rw [Bool.eq_iff_iff]
      simp only [Bool.or_eq_true, decide_eq_true_eq, List.mem_cons]
      exact Or.comm

/-- `reserve_range`, in one statement: the frames it covers become used,
the counters stay balanced, and the range is recorded while there is
room. -/
theorem reserveRange_spec (s : Pmm) (start fin : Nat) :
    (reserveRange s start fin).totalFrames = s.totalFrames
      ∧ (reserveRange s start fin).mmapAddrSaved = s.mmapAddrSaved
      ∧ (reserveRange s start fin).mmapLenSaved = s.mmapLenSaved
      ∧ (s.prot.length < MAX_PROT →
          (reserveRange s start fin).prot
            = s.prot ++ if start < fin then [(start, fin)] else [])
      ∧ (Balanced s → Balanced (reserveRange s start fin))
      ∧ ∀ g, fbTest (reserveRange s start fin).bitmap g = true
          ↔ fbTest s.bitmap g = true
            ∨ (g < s.totalFrames ∧ Covers start fin g) := by
  unfold reserveRange Covers
  by_cases hle : fin ≤ start
  · rw [if_pos hle]
    refine ⟨rfl, rfl, rfl, fun _ => ?_, id, fun g => ?_⟩
    · rw [if_neg (by omega), List.append_nil]
    · refine ⟨Or.inl, fun h => ?_⟩
      rcases h with h | ⟨-, h, -⟩
      · exact h
      · omega
  rw [if_neg hle]
  dsimp only
  generalize (fin + PAGE_SIZE - 1) % 2 ^ 32 / PAGE_SIZE = f1
  generalize start / PAGE_SIZE = f0
  obtain ⟨htot, hprot, haddr, hlen, hbal, htest⟩ :=
    foldl_reserveFrame (List.range' f0 (min f1 s.totalFrames - f0)) s
      fun f hf => by
        have := List.mem_range'_1.mp hf
        omega
  have hmem : ∀ g, g ∈ List.range' f0 (min f1 s.totalFrames - f0)
      ↔ g < s.totalFrames ∧ f0 ≤ g ∧ g < f1 := by
    intro g
    rw [List.mem_range'_1]
    omega
  generalize (List.range' f0 (min f1 s.totalFrames - f0)).foldl
    reserveFrame s = t at htot hprot haddr hlen hbal htest ⊢
  have htest' : ∀ g, fbTest t.bitmap g = true
      ↔ fbTest s.bitmap g = true
        ∨ (g < s.totalFrames ∧ start < fin ∧ f0 ≤ g ∧ g < f1) := by
    intro g
    rw [htest, Bool.or_eq_true, decide_eq_true_eq, hmem]
    refine ⟨fun h => ?_, fun h => ?_⟩
    · rcases h with ⟨h1, h2⟩ | h
      · exact Or.inr ⟨h1, by omega, h2⟩
      · exact Or.inl h
    · rcases h with h | ⟨h1, -, h2⟩
      · exact Or.inr h
      · exact Or.inl ⟨h1, h2⟩
  split
  · refine ⟨htot, haddr, hlen, fun _ => ?_, hbal, htest'⟩
    show t.prot ++ _ = _
    rw [hprot, if_pos (by omega)]
  · next hfull =>
    refine ⟨htot, haddr, hlen, fun hroom => ?_, hbal, htest'⟩
    rw [hprot] at hfull
    exact absurd hroom hfull

-- ===================================================== a list of ranges

/-- The ranges `pmm_init` reserves, in order. -/
def protectedRanges (img : KernelImage) (mbInfoAddr mmapAddr mmapLen : Nat) :
    List (Nat × Nat) :=
  [(0, LOW_MEMORY), (img.start, img.fin),
      (mbInfoAddr, (mbInfoAddr + MBI_SIZE) % 2 ^ 32)]
    ++ if mmapLen ≠ 0 then [(mmapAddr, (mmapAddr + mmapLen) % 2 ^ 32)]
      else []

def reserveRanges (s : Pmm) (rs : List (Nat × Nat)) : Pmm :=
  rs.foldl (fun s r => reserveRange s r.1 r.2) s

theorem reserveAll_eq (img : KernelImage) (mbInfoAddr : Nat) (s : Pmm) :
    reserveAll img mbInfoAddr s
      = reserveRanges s (protectedRanges img mbInfoAddr s.mmapAddrSaved
          s.mmapLenSaved) := by
  have haddr : ∀ s a b, (reserveRange s a b).mmapAddrSaved
      = s.mmapAddrSaved := fun s a b => (reserveRange_spec s a b).2.1
  have hlen : ∀ s a b, (reserveRange s a b).mmapLenSaved
      = s.mmapLenSaved := fun s a b => (reserveRange_spec s a b).2.2.1
  unfold reserveAll reserveRanges protectedRanges
  simp only [haddr, hlen]
  by_cases hz : s.mmapLenSaved ≠ 0
  · rw [if_pos hz, if_pos hz]
    rfl
  · rw [if_neg hz, if_neg hz]
    rfl

/-- `reserveRange_spec` over a list of ranges that fits the table. -/
theorem reserveRanges_spec (rs : List (Nat × Nat)) (s : Pmm)
    (hroom : s.prot.length + rs.length ≤ MAX_PROT) :
    (reserveRanges s rs).totalFrames = s.totalFrames
      ∧ (reserveRanges s rs).prot
          = s.prot ++ rs.filter (fun r => r.1 < r.2)
      ∧ (Balanced s → Balanced (reserveRanges s rs))
      ∧ ∀ g, fbTest (reserveRanges s rs).bitmap g = true
          ↔ fbTest s.bitmap g = true
            ∨ (g < s.totalFrames ∧ ∃ r ∈ rs, Covers r.1 r.2 g) := by
  induction rs generalizing s with
  | nil => exact ⟨rfl, by simp [reserveRanges], id, fun g => by
      simp [reserveRanges]⟩
  | cons r rs ih =>
      obtain ⟨htot, -, -, hprot, hbal, htest⟩ :=
        reserveRange_spec s r.1 r.2
      rw [List.length_cons] at hroom
      have hprot := hprot (by omega)
      have hlen : (reserveRange s r.1 r.2).prot.length + rs.length
          ≤ MAX_PROT := by
        rw [hprot, List.length_append]
        split <;> simp <;> omega
      obtain ⟨itot, iprot, ibal, itest⟩ := ih _ hlen
      show (reserveRanges (reserveRange s r.1 r.2) rs).totalFrames = _ ∧ _
      refine ⟨itot.trans htot, ?_, fun h => ibal (hbal h), fun g => ?_⟩
      · show (reserveRanges (reserveRange s r.1 r.2) rs).prot = _
        rw [iprot, hprot, List.append_assoc, List.filter_cons]
        congr 1
        by_cases hlt : r.1 < r.2
        · simp [hlt]
        · simp [hlt]
      · show fbTest (reserveRanges (reserveRange s r.1 r.2) rs).bitmap g = _
          ↔ _
        rw [itest, htest, htot, List.exists_mem_cons_iff]
        refine ⟨fun h => ?_, fun h => ?_⟩
        · rcases h with (h | ⟨hg, hc⟩) | ⟨hg, hc⟩
          · exact Or.inl h
          · exact Or.inr ⟨hg, Or.inl hc⟩
          · exact Or.inr ⟨hg, Or.inr hc⟩
        · rcases h with h | ⟨hg, hc | hc⟩
          · exact Or.inl (Or.inl h)
          · exact Or.inl (Or.inr ⟨hg, hc⟩)
          · exact Or.inr ⟨hg, hc⟩

theorem length_protectedRanges (img : KernelImage) (mbInfoAddr mmapAddr
    mmapLen : Nat) :
    (protectedRanges img mbInfoAddr mmapAddr mmapLen).length ≤ MAX_PROT := by
  unfold protectedRanges MAX_PROT
  split <;> simp

-- ===================================================== after pmm_init

/-- Once there is memory, the low megabyte and the kernel image are
recorded as protected and hold no free frame. -/
structure Guarded (img : KernelImage) (s : Pmm) : Prop where
  total_le : s.totalFrames ≤ MAX_FRAMES
  prot : 0 < s.totalFrames →
    (0, LOW_MEMORY) ∈ s.prot ∧ (img.start, img.fin) ∈ s.prot
  low : ∀ f < s.totalFrames, fbTest s.bitmap f = false →
    ¬ Covers 0 LOW_MEMORY f
  image : ∀ f < s.totalFrames, fbTest s.bitmap f = false →
    ¬ Covers img.start img.fin f

theorem findMemory_fresh {fuel : Nat} {bm mem : Mem} {mbi : MultibootInfo}
    {r : Pmm × Nat} (h : findMemory fuel bm mem mbi = some r) :
    r.1.prot = [] ∧ r.1.reservedFrames = 0 := by
  unfold findMemory at h
  dsimp only at h
  split at h
  · obtain ⟨acc, -, rfl⟩ := Option.map_eq_some_iff.mp h
    split <;> exact ⟨rfl, rfl⟩
  · split at h
    · obtain rfl := Option.some.inj h
      exact ⟨rfl, rfl⟩
    · obtain rfl := Option.some.inj h
      exact ⟨rfl, rfl⟩

theorem setTotals_le (s : Pmm) (highest : Nat) :
    (setTotals s highest).totalFrames ≤ MAX_FRAMES := by
  show (if MAX_FRAMES < highest / PAGE_SIZE then MAX_FRAMES
    else highest / PAGE_SIZE) ≤ MAX_FRAMES
  split <;> omega

theorem balanced_setTotals {s : Pmm} (h : s.reservedFrames = 0)
    (highest : Nat) : Balanced (setTotals s highest) := by
  have husable : (setTotals s highest).usableFrames
      = (freeSet s.bitmap (setTotals s highest).totalFrames).card :=
    fbCountFree_eq_card ..
  have hcard := Finset.card_filter_le
    (Finset.range (setTotals s highest).totalFrames)
    (fun f => fbTest s.bitmap f = false)
  rw [Finset.card_range] at hcard
  refine ⟨?_, ?_⟩
  · rw [husable]
    show _ = s.reservedFrames + _
    rw [h, Nat.zero_add]
    rfl
  · rw [husable]
    exact hcard.trans (setTotals_le s highest)

/-- The reservations, from a state that has recorded none. -/
theorem reserveAll_spec (img : KernelImage) (mbInfoAddr : Nat) {s : Pmm}
    (h : s.prot = []) :
    (reserveAll img mbInfoAddr s).totalFrames = s.totalFrames
      ∧ (reserveAll img mbInfoAddr s).prot
          = (protectedRanges img mbInfoAddr s.mmapAddrSaved
              s.mmapLenSaved).filter (fun r => r.1 < r.2)
      ∧ (Balanced s → Balanced (reserveAll img mbInfoAddr s))
      ∧ ∀ g, fbTest (reserveAll img mbInfoAddr s).bitmap g = true
          ↔ fbTest s.bitmap g = true
            ∨ (g < s.totalFrames
              ∧ ∃ r ∈ protectedRanges img mbInfoAddr s.mmapAddrSaved
                  s.mmapLenSaved, Covers r.1 r.2 g) := by
  rw [reserveAll_eq]
  have hspec := reserveRanges_spec
    (protectedRanges img mbInfoAddr s.mmapAddrSaved s.mmapLenSaved) s
    (by
      rw [h, List.length_nil, Nat.zero_add]
      exact length_protectedRanges ..)
  rw [h, List.nil_append] at hspec
  exact hspec

theorem guarded_reserveAll (img : KernelImage) (mbInfoAddr : Nat)
    {s : Pmm} (hprot : s.prot = []) (htotal : s.totalFrames ≤ MAX_FRAMES) :
    Guarded img (reserveAll img mbInfoAddr s) := by
  obtain ⟨htot, hrec, -, htest⟩ := reserveAll_spec img mbInfoAddr hprot
  have hmem : (0, LOW_MEMORY) ∈ protectedRanges img mbInfoAddr
        s.mmapAddrSaved s.mmapLenSaved
      ∧ (img.start, img.fin) ∈ protectedRanges img mbInfoAddr
        s.mmapAddrSaved s.mmapLenSaved := by
    unfold protectedRanges
    exact ⟨by simp, by simp⟩
  have hfree : ∀ r ∈ protectedRanges img mbInfoAddr s.mmapAddrSaved
      s.mmapLenSaved, ∀ f < s.totalFrames,
      fbTest (reserveAll img mbInfoAddr s).bitmap f = false →
        ¬ Covers r.1 r.2 f := by
    intro r hr f hf hfree hc
    rw [(htest f).mpr (Or.inr ⟨hf, r, hr, hc⟩)] at hfree
    exact Bool.noConfusion hfree
  refine ⟨htot ▸ htotal, fun _ => ?_, ?_, ?_⟩
  · rw [hrec]
    refine ⟨List.mem_filter.mpr ⟨hmem.1, by decide⟩,
      List.mem_filter.mpr ⟨hmem.2, ?_⟩⟩
    exact decide_eq_true img.start_lt
  · rw [htot]
    exact hfree _ hmem.1
  · rw [htot]
    exact hfree _ hmem.2

/-- Every state `pmm_init` leaves is guarded and balanced. -/
theorem pmmInit_guarded {fuel : Nat} {img : KernelImage} {bm mem : Mem}
    {magic mbInfoAddr : Nat} {s : Pmm}
    (h : pmmInit fuel img bm mem magic mbInfoAddr = some s) :
    Guarded img s ∧ Balanced s := by
  unfold pmmInit at h
  split at h
  · obtain rfl := Option.some.inj h
    refine ⟨⟨Nat.zero_le _, fun h => ?_, fun f hf => ?_, fun f hf => ?_⟩,
      rfl, Nat.zero_le _⟩
    · exact absurd h (Nat.lt_irrefl 0)
    · exact absurd hf (Nat.not_lt_zero f)
    · exact absurd hf (Nat.not_lt_zero f)
  · obtain ⟨r, hr, rfl⟩ := Option.map_eq_some_iff.mp h
    obtain ⟨hprot, hres⟩ := findMemory_fresh hr
    have hbal := (reserveAll_spec img mbInfoAddr (s := setTotals r.1 r.2)
      hprot).2.2.1
    exact ⟨guarded_reserveAll img mbInfoAddr hprot (setTotals_le ..),
      hbal (balanced_setTotals hres r.2)⟩

end Thuos.Mm
