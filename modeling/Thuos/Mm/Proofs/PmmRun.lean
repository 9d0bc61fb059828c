/-
Runs of `pmm_alloc_frame` and `pmm_free_frame` after `pmm_init`.

# The ledger

`Ledger` pairs the manager with the frames it has handed out: the
addresses `pmm_alloc_frame` returned that no `pmm_free_frame` has
released since. Whatever is freed, an allocation takes a frame nobody
holds (`exclusive_ownership`): a frame on the ledger has its bit set,
and the low megabyte and the kernel image never come free because
`pmm_free_frame` checks the recorded ranges.

# What one bit cannot say

A set bit also stands for a frame that is no RAM and for a frame of a
boot structure that is only partly in a recorded range. `pmm_free_frame`
accepts both (`hole_freed`). Runs that never name such a frame,
`Releasable` right after `pmm_init`, free only what was allocated and
keep the counters right (`only_allocated_freed`).
-/
import Thuos.Lib.Machine
import Thuos.Mm.Proofs.PmmInit

namespace Thuos.Mm

open Machine ByteMem

-- =========================================================== one call

/-- `pmm_alloc_frame`, in one statement. -/
theorem pmmAllocFrame_spec {s : Pmm} (h : s.totalFrames ≤ MAX_FRAMES) :
    (∃ f < s.totalFrames, fbTest s.bitmap f = false
        ∧ pmmAllocFrame s
          = ({ s with bitmap := fbMarkUsed s.bitmap f }, f * PAGE_SIZE))
      ∨ ((∀ f < s.totalFrames, fbTest s.bitmap f = true)
        ∧ pmmAllocFrame s = (s, 0)) := by
  unfold MAX_FRAMES at h
  unfold pmmAllocFrame
  by_cases hz : s.totalFrames = 0
  · rw [if_pos hz]
    exact Or.inr ⟨fun f hf => by omega, rfl⟩
  rw [if_neg hz]
  dsimp only
  rcases fbAlloc_spec s.bitmap s.totalFrames (by omega) with
    ⟨f, hf, hfree, -, hr⟩ | ⟨hall, hr⟩
  · rw [hr]
    have hne : f ≠ FB_NONE := by unfold FB_NONE; omega
    have hmod : f * PAGE_SIZE % 2 ^ 32 = f * PAGE_SIZE := by
      unfold PAGE_SIZE
      omega
    rw [if_neg hne, hmod]
    exact Or.inl ⟨f, hf, hfree, rfl⟩
  · rw [hr, if_pos rfl]
    exact Or.inr ⟨hall, rfl⟩

/-- The address passes every check of `pmm_free_frame`. -/
def Releasable (s : Pmm) (a : Nat) : Prop :=
  a % PAGE_SIZE = 0 ∧ a / PAGE_SIZE < s.totalFrames
    ∧ pmmIsProtected s a = false ∧ fbTest s.bitmap (a / PAGE_SIZE) = true

instance (s : Pmm) (a : Nat) : Decidable (Releasable s a) :=
  inferInstanceAs (Decidable (_ ∧ _ ∧ _ ∧ _))

/-- `pmm_free_frame`, in one statement. -/
theorem pmmFreeFrame_spec (s : Pmm) (a : Nat) :
    (Releasable s a ∧ pmmFreeFrame s a
        = ({ s with bitmap := fbMarkFree s.bitmap (a / PAGE_SIZE) }, 0))
      ∨ (¬ Releasable s a ∧ (pmmFreeFrame s a).1 = s
        ∧ (pmmFreeFrame s a).2 ≠ 0) := by
  unfold pmmFreeFrame Releasable
  by_cases halign : a % PAGE_SIZE ≠ 0
  · rw [if_pos halign]
    exact Or.inr ⟨fun h => halign h.1, rfl, (by decide : (-1 : Int) ≠ 0)⟩
  rw [if_neg halign]
  by_cases hrange : s.totalFrames ≤ a / PAGE_SIZE
  · rw [if_pos hrange]
    exact Or.inr ⟨fun h => absurd h.2.1 (by omega), rfl,
      (by decide : (-1 : Int) ≠ 0)⟩
  rw [if_neg hrange]
  cases hprot : pmmIsProtected s a with
  | true =>
      rw [if_pos rfl]
      exact Or.inr ⟨fun h => Bool.noConfusion h.2.2.1, rfl,
        (by decide : (-2 : Int) ≠ 0)⟩
  | false =>
      rw [if_neg Bool.false_ne_true]
      cases htest : fbTest s.bitmap (a / PAGE_SIZE) with
      | false =>
          exact Or.inr ⟨fun h => Bool.noConfusion h.2.2.2, rfl,
            (by decide : (-3 : Int) ≠ 0)⟩
      | true => exact Or.inl ⟨⟨not_not.mp halign, by omega, rfl, rfl⟩, rfl⟩

theorem pmmFreeFrames_eq (s : Pmm) :
    pmmFreeFrames s = (freeSet s.bitmap s.totalFrames).card :=
  fbCountFree_eq_card ..

/-- Taking a free frame lowers the count by one. -/
theorem card_free_markUsed {bm : Mem} {total f : Nat} (hf : f < total)
    (hfree : fbTest bm f = false) :
    (freeSet (fbMarkUsed bm f) total).card + 1 = (freeSet bm total).card := by
  rw [freeSet_markUsed]
  exact Finset.card_erase_add_one (mem_freeSet.mpr ⟨hf, hfree⟩)

/-- Releasing a used frame raises the count by one. -/
theorem card_free_markFree {bm : Mem} {total f : Nat} (hf : f < total)
    (hused : fbTest bm f = true) :
    (freeSet (fbMarkFree bm f) total).card = (freeSet bm total).card + 1 := by
  rw [freeSet_markFree hf]
  refine Finset.card_insert_of_notMem fun h => ?_
  rw [(mem_freeSet.mp h).2] at hused
  exact Bool.noConfusion hused

-- ============================================================== the ledger

/-- A call on the memory manager, with any address freed. -/
inductive PmmOp
  | alloc
  | free (addr : Nat)
  deriving DecidableEq, Repr

/-- The manager and the addresses it returned that have not been released
since. -/
structure Ledger where
  pmm : Pmm
  out : List Nat

def Ledger.step (l : Ledger) : PmmOp → Ledger
  | .alloc =>
      let r := pmmAllocFrame l.pmm
      { pmm := r.1, out := if r.2 = 0 then l.out else r.2 :: l.out }
  | .free a =>
      let r := pmmFreeFrame l.pmm a
      { pmm := r.1, out := if r.2 = 0 then l.out.erase a else l.out }

/-- The state after `pmm_init`: nothing is handed out. -/
def Ledger.fresh (s : Pmm) : Ledger := { pmm := s, out := [] }

variable {img : KernelImage}

/-- Frame 0 is never free: it lies in the low megabyte. -/
theorem Guarded.free_pos {s : Pmm} (h : Guarded img s) {f : Nat}
    (hf : f < s.totalFrames) (hfree : fbTest s.bitmap f = false) :
    LOW_MEMORY ≤ f * PAGE_SIZE := by
  have := h.low f hf hfree
  unfold Covers LOW_MEMORY PAGE_SIZE at this
  unfold LOW_MEMORY PAGE_SIZE
  omega

/-- Every call does one of three things to the ledger. -/
theorem ledger_step {l : Ledger} (h : Guarded img l.pmm) (op : PmmOp) :
    (∃ f < l.pmm.totalFrames, op = .alloc ∧ fbTest l.pmm.bitmap f = false
        ∧ l.step op
          = { pmm := { l.pmm with bitmap := fbMarkUsed l.pmm.bitmap f }
              out := f * PAGE_SIZE :: l.out })
      ∨ (∃ f, op = .free (f * PAGE_SIZE) ∧ Releasable l.pmm (f * PAGE_SIZE)
        ∧ l.step op
          = { pmm := { l.pmm with bitmap := fbMarkFree l.pmm.bitmap f }
              out := l.out.erase (f * PAGE_SIZE) })
      ∨ l.step op = l := by
  cases op with
  | alloc =>
      unfold Ledger.step
      dsimp only
      rcases pmmAllocFrame_spec h.total_le with ⟨f, hf, hfree, hr⟩ | ⟨-, hr⟩
      · refine Or.inl ⟨f, hf, rfl, hfree, ?_⟩
        have hpos := h.free_pos hf hfree
        unfold LOW_MEMORY at hpos
        rw [hr]
        show Ledger.mk _ (if f * PAGE_SIZE = 0 then _ else _) = _
        rw [if_neg (by omega)]
      · refine Or.inr (Or.inr ?_)
        rw [hr]
        rfl
  | free a =>
      unfold Ledger.step
      dsimp only
      rcases pmmFreeFrame_spec l.pmm a with ⟨hrel, hr⟩ | ⟨-, hkeep, hcode⟩
      · have ha : a / PAGE_SIZE * PAGE_SIZE = a :=
          Nat.div_mul_cancel (Nat.dvd_of_mod_eq_zero hrel.1)
        refine Or.inr (Or.inl ⟨a / PAGE_SIZE, ?_, ?_, ?_⟩)
        · rw [ha]
        · rw [ha]
          exact hrel
        · rw [hr, ha]
          rfl
      · refine Or.inr (Or.inr ?_)
        rw [hkeep, if_neg hcode]

-- ================================================== exclusive ownership

/-- The recorded ranges keep their frames: a releasable frame lies in
neither the low megabyte nor the kernel image. -/
theorem Guarded.not_covers {s : Pmm} (h : Guarded img s) {f : Nat}
    (hrel : Releasable s (f * PAGE_SIZE)) :
    ¬ Covers 0 LOW_MEMORY f ∧ ¬ Covers img.start img.fin f := by
  obtain ⟨-, hrange, hprot, -⟩ := hrel
  obtain ⟨hlow, himg⟩ := h.prot ((Nat.zero_le _).trans_lt hrange)
  have hout : ∀ r ∈ s.prot, ¬ (r.1 ≤ f * PAGE_SIZE ∧ f * PAGE_SIZE < r.2) := by
    intro r hr hin
    unfold pmmIsProtected at hprot
    rw [List.any_eq_false] at hprot
    exact hprot r hr (by simpa using hin)
  have hlow := hout _ hlow
  have himg := hout _ himg
  have hstart := img.start_eq
  have hfin := img.fin_le
  unfold LOW_MEMORY at hlow
  unfold PAGE_SIZE at hlow himg
  unfold Covers LOW_MEMORY PAGE_SIZE
  dsimp only at hlow himg
  omega

/-- Taking a frame leaves no guarded frame free. -/
theorem Guarded.markUsed {s : Pmm} (h : Guarded img s) (f : Nat) :
    Guarded img { s with bitmap := fbMarkUsed s.bitmap f } := by
  have hkept : ∀ g, fbTest (fbMarkUsed s.bitmap f) g = false →
      fbTest s.bitmap g = false := by
    intro g hg
    rw [fbTest_markUsed, Bool.or_eq_false_iff] at hg
    exact hg.2
  exact ⟨h.total_le, h.prot, fun g hg hgf => h.low g hg (hkept g hgf),
    fun g hg hgf => h.image g hg (hkept g hgf)⟩

/-- Nor does releasing one that passes the checks. -/
theorem Guarded.markFree {s : Pmm} (h : Guarded img s) {f : Nat}
    (hrel : Releasable s (f * PAGE_SIZE)) :
    Guarded img { s with bitmap := fbMarkFree s.bitmap f } := by
  obtain ⟨hlow, himg⟩ := h.not_covers hrel
  have hcases : ∀ g, fbTest (fbMarkFree s.bitmap f) g = false →
      g = f ∨ fbTest s.bitmap g = false := by
    intro g hg
    rw [fbTest_markFree, Bool.and_eq_false_iff, decide_eq_false_iff_not,
      not_not] at hg
    exact hg
  refine ⟨h.total_le, h.prot, fun g hg hgf => ?_, fun g hg hgf => ?_⟩
  · rcases hcases g hgf with rfl | hgf
    · exact hlow
    · exact h.low g hg hgf
  · rcases hcases g hgf with rfl | hgf
    · exact himg
    · exact h.image g hg hgf

/-- The invariant of every run: what is handed out is used, and the
guarded frames stay used. -/
structure Exclusive (img : KernelImage) (l : Ledger) : Prop where
  guarded : Guarded img l.pmm
  nodup : l.out.Nodup
  held : ∀ a ∈ l.out, ∃ f, a = f * PAGE_SIZE
    ∧ fbTest l.pmm.bitmap f = true

theorem mul_PAGE_SIZE_inj {f g : Nat} :
    f * PAGE_SIZE = g * PAGE_SIZE ↔ f = g := by
  unfold PAGE_SIZE
  omega

/-- Nobody holds a free frame. -/
theorem Exclusive.not_held {l : Ledger} (h : Exclusive img l) {f : Nat}
    (hfree : fbTest l.pmm.bitmap f = false) : f * PAGE_SIZE ∉ l.out := by
  intro hmem
  obtain ⟨g, hg, hused⟩ := h.held _ hmem
  rw [mul_PAGE_SIZE_inj.mp hg, hused] at hfree
  exact Bool.noConfusion hfree

theorem exclusive_step {l : Ledger} (op : PmmOp) (h : Exclusive img l) :
    Exclusive img (l.step op) := by
  rcases ledger_step h.guarded op with
    ⟨f, hf, -, hfree, hstep⟩ | ⟨f, -, hrel, hstep⟩ | hstep
  · rw [hstep]
    refine ⟨h.guarded.markUsed f,
      List.nodup_cons.mpr ⟨h.not_held hfree, h.nodup⟩, fun a ha => ?_⟩
    rcases List.mem_cons.mp ha with rfl | ha
    · exact ⟨f, rfl, by simp [fbTest_markUsed]⟩
    · obtain ⟨g, hg, hused⟩ := h.held a ha
      exact ⟨g, hg, by simp [fbTest_markUsed, hused]⟩
  · rw [hstep]
    refine ⟨h.guarded.markFree hrel, h.nodup.erase _, fun a ha => ?_⟩
    obtain ⟨hne, hmem⟩ := (List.Nodup.mem_erase_iff h.nodup).mp ha
    obtain ⟨g, rfl, hused⟩ := h.held a hmem
    refine ⟨g, rfl, ?_⟩
    have hgf : g ≠ f := fun h => hne (by rw [h])
    show fbTest (fbMarkFree l.pmm.bitmap f) g = true
    rw [fbTest_markFree, hused, decide_eq_true hgf]
    rfl
  · rw [hstep]
    exact h

/-- What the next call does for a caller that respects the ledger. -/
structure OwnsExclusively (img : KernelImage) (l : Ledger) : Prop where
  /-- A frame handed out is a whole frame below the total, outside the
  low megabyte and the kernel image, and nobody else holds it. -/
  fresh : ∀ a, (pmmAllocFrame l.pmm).2 = a → a ≠ 0 →
    a % PAGE_SIZE = 0 ∧ a < l.pmm.totalFrames * PAGE_SIZE ∧ LOW_MEMORY ≤ a
      ∧ (a + PAGE_SIZE ≤ img.start ∨ img.fin ≤ a) ∧ a ∉ l.out
  /-- 0 means that nothing is free, and changes nothing. -/
  none_iff : (pmmAllocFrame l.pmm).2 = 0
    ↔ ∀ f < l.pmm.totalFrames, fbTest l.pmm.bitmap f = true
  none_keeps : (pmmAllocFrame l.pmm).2 = 0 →
    (pmmAllocFrame l.pmm).1.bitmap = l.pmm.bitmap
  alloc_count : (pmmAllocFrame l.pmm).2 ≠ 0 →
    pmmFreeFrames (pmmAllocFrame l.pmm).1 + 1 = pmmFreeFrames l.pmm
  free_count : ∀ a, (pmmFreeFrame l.pmm a).2 = 0 →
    pmmFreeFrames (pmmFreeFrame l.pmm a).1 = pmmFreeFrames l.pmm + 1

theorem Exclusive.owns {l : Ledger} (h : Exclusive img l) :
    OwnsExclusively img l := by
  have hguard := h.guarded
  have hfreed : ∀ a, (pmmFreeFrame l.pmm a).2 = 0 →
      pmmFreeFrames (pmmFreeFrame l.pmm a).1 = pmmFreeFrames l.pmm + 1 := by
    intro a hcode
    rcases pmmFreeFrame_spec l.pmm a with ⟨hrel, hr⟩ | ⟨-, -, hne⟩
    · rw [hr, pmmFreeFrames_eq, pmmFreeFrames_eq]
      exact card_free_markFree hrel.2.1 hrel.2.2.2
    · exact absurd hcode hne
  rcases pmmAllocFrame_spec hguard.total_le with
    ⟨f, hf, hfree, hr⟩ | ⟨hall, hr⟩
  · have hpos := hguard.free_pos hf hfree
    have hne : f * PAGE_SIZE ≠ 0 := by
      unfold LOW_MEMORY at hpos
      omega
    refine ⟨?_, ?_, ?_, ?_, hfreed⟩
    · intro a ha _
      rw [hr] at ha
      change f * PAGE_SIZE = a at ha
      subst ha
      have himg := hguard.image f hf hfree
      have hfin := img.fin_le
      have hstart := img.start_eq
      have hlt := img.start_lt
      refine ⟨Nat.mul_mod_left .., ?_, hpos, ?_, h.not_held hfree⟩
      · unfold PAGE_SIZE
        omega
      · unfold Covers PAGE_SIZE at himg
        unfold PAGE_SIZE
        omega
    · rw [hr]
      refine ⟨fun h => absurd h hne, fun h => ?_⟩
      rw [h f hf] at hfree
      exact Bool.noConfusion hfree
    · intro h
      rw [hr] at h
      exact absurd h hne
    · intro _
      rw [hr, pmmFreeFrames_eq, pmmFreeFrames_eq]
      exact card_free_markUsed hf hfree
  · refine ⟨?_, ?_, ?_, ?_, hfreed⟩
    · intro a ha hne
      rw [hr] at ha
      exact absurd ha.symm hne
    · rw [hr]
      exact ⟨fun _ => hall, fun _ => rfl⟩
    · intro _
      rw [hr]
    · intro h
      rw [hr] at h
      exact absurd rfl h

/-- Exclusive frame ownership, after any calls and any addresses freed. -/
theorem exclusive_ownership {fuel magic mbInfoAddr : Nat} {bm mem : Mem}
    {s : Pmm} (h : pmmInit fuel img bm mem magic mbInfoAddr = some s)
    (ops : List PmmOp) :
    OwnsExclusively img (exec Ledger.step (Ledger.fresh s) ops) := by
  have hinit : Exclusive img (Ledger.fresh s) :=
    ⟨(pmmInit_guarded h).1, List.nodup_nil,
      fun a ha => absurd ha List.not_mem_nil⟩
  exact (exec_inv' (Exclusive img) (fun l op => exclusive_step op)
    hinit).owns

/-- A machine with memory from 2 MiB to 4 MiB: two frames are taken, one
is given back, and so is an address that was never taken. -/
theorem exclusive_ownership_two :
    ∃ s, pmmInit 2 smallImage (fun _ => 0)
        (oneRegionMem 0x200000 0x200000) MULTIBOOT_BOOTLOADER_MAGIC 0x9000
          = some s
      ∧ OwnsExclusively smallImage (exec Ledger.step (Ledger.fresh s)
          [.alloc, .alloc, .free 0x200000, .free 0x1F0000]) := by
  obtain ⟨s, hs, -⟩ := pmmInit_initFrom 2 smallImage (fun _ => 0)
    (boots_oneRegion 0x200000 0x200000 (by decide)) (by decide)
  exact ⟨s, hs, exclusive_ownership hs _⟩

-- ======================================================= only what is held

/-- The call does not free an address that `pmm_free_frame` would accept
right after `pmm_init`, when nothing is handed out. -/
def SparesHoles (s : Pmm) : PmmOp → Prop
  | .alloc => True
  | .free a => ¬ Releasable s a

/-- The ledger accounts for every frame that was free after
`pmm_init`. -/
structure Accounted (s : Pmm) (l : Ledger) : Prop where
  total : l.pmm.totalFrames = s.totalFrames
  prot : l.pmm.prot = s.prot
  usable : l.pmm.usableFrames = s.usableFrames
  reserved : l.pmm.reservedFrames = s.reservedFrames
  free_iff : ∀ f < s.totalFrames, fbTest l.pmm.bitmap f = false
    ↔ fbTest s.bitmap f = false ∧ f * PAGE_SIZE ∉ l.out
  count : l.out.length + pmmFreeFrames l.pmm = pmmFreeFrames s

/-- What a free releases, if it spares the holes: a frame that was free
after `pmm_init` and is handed out. -/
theorem Accounted.held {s : Pmm} {l : Ledger} (h : Accounted s l) {a : Nat}
    (hrel : Releasable l.pmm a) (hspare : ¬ Releasable s a) :
    fbTest s.bitmap (a / PAGE_SIZE) = false ∧ a ∈ l.out := by
  obtain ⟨halign, hrange, hprot, hused⟩ := hrel
  rw [h.total] at hrange
  have ha : a / PAGE_SIZE * PAGE_SIZE = a :=
    Nat.div_mul_cancel (Nat.dvd_of_mod_eq_zero halign)
  have hfree : fbTest s.bitmap (a / PAGE_SIZE) = false := by
    rw [← Bool.not_eq_true]
    intro hused'
    refine hspare ⟨halign, hrange, ?_, hused'⟩
    unfold pmmIsProtected at hprot ⊢
    rw [← h.prot]
    exact hprot
  refine ⟨hfree, ?_⟩
  by_contra hout
  rw [← ha] at hout
  rw [(h.free_iff _ hrange).mpr ⟨hfree, hout⟩] at hused
  exact Bool.noConfusion hused

theorem accounted_step {s : Pmm} {l : Ledger} {op : PmmOp}
    (hex : Exclusive img l) (h : Accounted s l) (hspare : SparesHoles s op) :
    Accounted s (l.step op) := by
  have hcount := h.count
  rw [pmmFreeFrames_eq] at hcount
  rcases ledger_step hex.guarded op with
    ⟨f, hf, -, hfree, hstep⟩ | ⟨f, hop, hrel, hstep⟩ | hstep
  · rw [hstep]
    refine ⟨h.total, h.prot, h.usable, h.reserved, fun g hg => ?_, ?_⟩
    · show fbTest (fbMarkUsed l.pmm.bitmap f) g = false
        ↔ _ ∧ g * PAGE_SIZE ∉ f * PAGE_SIZE :: l.out
      rw [fbTest_markUsed, Bool.or_eq_false_iff, decide_eq_false_iff_not,
        h.free_iff g hg, List.mem_cons, mul_PAGE_SIZE_inj, not_or]
      exact and_left_comm
    · have := card_free_markUsed hf hfree
      rw [pmmFreeFrames_eq]
      show l.out.length + 1
        + (freeSet (fbMarkUsed l.pmm.bitmap f) l.pmm.totalFrames).card = _
      omega
  · rw [hstep]
    subst hop
    obtain ⟨hwas, hmem⟩ := h.held hrel hspare
    have hdiv : f * PAGE_SIZE / PAGE_SIZE = f :=
      Nat.mul_div_cancel f (by decide)
    obtain ⟨-, hrange, -, hused⟩ := hrel
    rw [hdiv] at hrange hused hwas
    refine ⟨h.total, h.prot, h.usable, h.reserved, fun g hg => ?_, ?_⟩
    · show fbTest (fbMarkFree l.pmm.bitmap f) g = false
        ↔ _ ∧ g * PAGE_SIZE ∉ l.out.erase (f * PAGE_SIZE)
      rw [fbTest_markFree, Bool.and_eq_false_iff, decide_eq_false_iff_not,
        h.free_iff g hg, hex.nodup.mem_erase_iff]
      simp only [ne_eq, mul_PAGE_SIZE_inj]
      by_cases hgf : g = f
      · subst hgf
        simp [hwas]
      · simp [hgf]
    · have hcard := card_free_markFree hrange hused
      have hlen := List.length_erase_of_mem hmem
      have hpos := List.length_pos_of_mem hmem
      rw [pmmFreeFrames_eq]
      show (l.out.erase (f * PAGE_SIZE)).length
        + (freeSet (fbMarkFree l.pmm.bitmap f) l.pmm.totalFrames).card = _
      omega
  · rw [hstep]
    exact h

/-- Only allocated frames are released, and the counters agree. -/
structure OnlyAllocatedFreed (s : Pmm) (l : Ledger) : Prop where
  was_free : ∀ f < l.pmm.totalFrames, fbTest l.pmm.bitmap f = false →
    fbTest s.bitmap f = false
  was_out : ∀ a, SparesHoles s (.free a) → (pmmFreeFrame l.pmm a).2 = 0 →
    a ∈ l.out
  used : pmmUsedFrames l.pmm = l.pmm.reservedFrames + l.out.length

theorem Accounted.onlyAllocatedFreed {s : Pmm} {l : Ledger}
    (hbal : Balanced s) (h : Accounted s l) : OnlyAllocatedFreed s l := by
  refine ⟨fun f hf hfree => ?_, fun a hspare hcode => ?_, ?_⟩
  · exact ((h.free_iff f (h.total ▸ hf)).mp hfree).1
  · rcases pmmFreeFrame_spec l.pmm a with ⟨hrel, -⟩ | ⟨-, -, hne⟩
    · exact (h.held hrel hspare).2
    · exact absurd hcode hne
  · have hcount := h.count
    obtain ⟨heq, hle⟩ := hbal
    rw [← pmmFreeFrames_eq] at heq
    unfold MAX_FRAMES at hle
    unfold pmmUsedFrames
    rw [h.usable, h.reserved]
    omega

/-- Only allocated frames are released, in every run that spares the
holes of the memory map. -/
theorem only_allocated_freed {fuel magic mbInfoAddr : Nat} {bm mem : Mem}
    {s : Pmm} (h : pmmInit fuel img bm mem magic mbInfoAddr = some s)
    {ops : List PmmOp}
    (hops : Along Ledger.step (fun _ op => SparesHoles s op)
      (Ledger.fresh s) ops) :
    OnlyAllocatedFreed s (exec Ledger.step (Ledger.fresh s) ops) := by
  obtain ⟨hguard, hbal⟩ := pmmInit_guarded h
  have hex : Exclusive img (Ledger.fresh s) :=
    ⟨hguard, List.nodup_nil, fun a ha => absurd ha List.not_mem_nil⟩
  have hacc : Accounted s (Ledger.fresh s) := by
    refine ⟨rfl, rfl, rfl, rfl, fun f _ => ?_, ?_⟩
    · exact (and_iff_left List.not_mem_nil).symm
    · exact Nat.zero_add _
  have hrun := exec_inv (fun l => Exclusive img l ∧ Accounted s l)
    (fun l op hl hspare =>
      ⟨exclusive_step op hl.1, accounted_step hl.1 hl.2 hspare⟩)
    ⟨hex, hacc⟩ hops
  exact hrun.2.onlyAllocatedFreed hbal

/-- A frame that is taken and given back. -/
theorem only_allocated_freed_two :
    ∃ s, pmmInit 2 smallImage (fun _ => 0)
        (oneRegionMem 0x400000 0x100000) MULTIBOOT_BOOTLOADER_MAGIC 0x9000
          = some s
      ∧ OnlyAllocatedFreed s (exec Ledger.step (Ledger.fresh s)
          [.alloc, .free 0x400000, .alloc]) := by
  obtain ⟨s, hs, hinit⟩ := pmmInit_initFrom 2 smallImage (fun _ => 0)
    (boots_oneRegion 0x400000 0x100000 (by decide)) (by decide)
  have hfree := (free_oneRegion (f := 0x400) hinit (by decide) (by decide)
    (by decide)).2.mpr (by decide)
  have hspare : ¬ Releasable s 0x400000 := by
    intro hrel
    exact absurd (hfree.symm.trans hrel.2.2.2) Bool.false_ne_true
  exact ⟨s, hs, only_allocated_freed hs ⟨trivial, hspare, trivial, trivial⟩⟩

/-- With memory from 4 MiB to 5 MiB only, 0x300000 is no RAM and was
never handed out, but freeing it succeeds, and the counters wrap. -/
theorem hole_freed :
    ∃ s, pmmInit 2 smallImage (fun _ => 0)
        (oneRegionMem 0x400000 0x100000) MULTIBOOT_BOOTLOADER_MAGIC 0x9000
          = some s
      ∧ fbTest s.bitmap 0x300 = true
      ∧ (pmmFreeFrame s 0x300000).2 = 0
      ∧ 0x300000 ∉ (Ledger.fresh s).out
      ∧ ¬ OnlyAllocatedFreed s
          (exec Ledger.step (Ledger.fresh s) [.free 0x300000])
      ∧ pmmUsedFrames (pmmFreeFrame s 0x300000).1
          ≠ (pmmFreeFrame s 0x300000).1.reservedFrames := by
  obtain ⟨s, hs, hinit⟩ := pmmInit_initFrom 2 smallImage (fun _ => 0)
    (boots_oneRegion 0x400000 0x100000 (by decide)) (by decide)
  obtain ⟨hlt, hfree⟩ := free_oneRegion (f := 0x300) hinit (by decide)
    (by decide) (by decide)
  have hused : fbTest s.bitmap 0x300 = true := by
    rw [← Bool.not_eq_false, hfree]
    decide
  have hprot : pmmIsProtected s 0x300000 = false := by
    unfold pmmIsProtected
    rw [hinit.prot]
    decide
  have hrel : Releasable s 0x300000 := ⟨by decide, hlt, hprot, hused⟩
  obtain ⟨-, hbal, hle⟩ := pmmInit_guarded hs
  rcases pmmFreeFrame_spec s 0x300000 with ⟨-, hr⟩ | ⟨hno, -⟩
  · have hnow : fbTest (fbMarkFree s.bitmap 0x300) 0x300 = false := by
      rw [fbTest_markFree]
      rfl
    have hpmm : (exec Ledger.step (Ledger.fresh s) [.free 0x300000]).pmm
        = { s with bitmap := fbMarkFree s.bitmap 0x300 } :=
      congrArg Prod.fst hr
    refine ⟨s, hs, hused, by rw [hr], List.not_mem_nil, fun h => ?_, ?_⟩
    · have hbad := h.was_free 0x300 (by rw [hpmm]; exact hlt)
        (by rw [hpmm]; exact hnow)
      exact absurd (hbad.symm.trans hused) Bool.false_ne_true
    · have hcard := card_free_markFree hlt hused
      rw [hr]
      unfold pmmUsedFrames
      rw [pmmFreeFrames_eq]
      show (s.usableFrames + 2 ^ 32 - (freeSet (fbMarkFree s.bitmap 0x300)
        s.totalFrames).card) % 2 ^ 32 ≠ s.reservedFrames
      unfold MAX_FRAMES at hle
      omega
  · exact absurd hrel hno

end Thuos.Mm
