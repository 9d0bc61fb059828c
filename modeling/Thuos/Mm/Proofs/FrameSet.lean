/-
The frame bitmap as a set of frames.

`usedSet` reads the bitmap bit by bit, and every operation is one on the
set it reads: marking inserts or removes one frame, a region is a
half-open interval cut off at the total, counting and allocating look at
what is missing below the total.

The two region loops add a 32-bit counter to a 32-bit start. The sum
could wrap, but on its way to 2^32 it passes the total, where the loop
ends: `markRegion_eq` is the loop as a row of marks.
-/
import Thuos.Mm.FrameBitmap

namespace Thuos.Mm

open ByteMem Bits

-- ================================================================ the set

/-- The frames whose bit is set. -/
def usedSet (bm : Mem) : Set Nat := {f | bit (bm (f / 8)) (f % 8) = true}

/-- The frames below the total that are not used. -/
def missing (bm : Mem) (total : Nat) : Set Nat :=
  {f | f < total ∧ f ∉ usedSet bm}

variable {bm : Mem} {total f : Nat}

theorem mem_usedSet : f ∈ usedSet bm ↔ fbTest bm f = true := by
  rw [fbTest_eq]
  rfl

theorem mem_missing :
    f ∈ missing bm total ↔ f < total ∧ fbTest bm f = false := by
  rw [← Bool.not_eq_true, ← mem_usedSet]
  rfl

theorem usedSet_markUsed (bm : Mem) (f : Nat) :
    usedSet (fbMarkUsed bm f) = insert f (usedSet bm) := by
  ext g
  rw [Set.mem_insert_iff, mem_usedSet, mem_usedSet, fbTest_markUsed,
    Bool.or_eq_true, decide_eq_true_eq]

theorem usedSet_markFree (bm : Mem) (f : Nat) :
    usedSet (fbMarkFree bm f) = usedSet bm \ {f} := by
  ext g
  rw [Set.mem_sdiff_singleton, mem_usedSet, mem_usedSet, fbTest_markFree,
    Bool.and_eq_true, decide_eq_true_eq]
  exact And.comm

-- ============================================================== the regions

/-- The frames of a region, as far as they lie below the total. -/
def region (total first count : Nat) : Set Nat :=
  {f | first ≤ f ∧ f < first + count ∧ f < total}

/-- The loop ends at the total, before its index wraps. -/
theorem markRegion_eq (mark : Mem → Nat → Mem) {first : Nat}
    (htotal : total < 2 ^ 32) (count : Nat) :
    ∀ (i : Nat) (bm : Mem), first + i < 2 ^ 32 →
      markRegion mark total first count i bm
        = (List.range' (first + i) (min count (total - (first + i)))).foldl
            mark bm := by
  induction count with
  | zero =>
      intro i bm _
      rw [Nat.zero_min]
      rfl
  | succ count ih =>
      intro i bm hi
      rw [markRegion, Nat.mod_eq_of_lt hi]
      by_cases hin : first + i < total
      · have hlen : min (count + 1) (total - (first + i))
            = min count (total - (first + (i + 1))) + 1 := by omega
        rw [if_pos hin, hlen, List.range'_succ, List.foldl_cons]
        exact ih (i + 1) _ (by omega)
      · have hlen : min (count + 1) (total - (first + i)) = 0 := by omega
        rw [if_neg hin, hlen]
        rfl

theorem mem_region_iff {first count : Nat} :
    f ∈ List.range' first (min count (total - first))
      ↔ f ∈ region total first count := by
  rw [List.mem_range'_1]
  unfold region
  rw [Set.mem_ofPred_eq]
  omega

theorem usedSet_markRegionUsed (bm : Mem) {first : Nat}
    (htotal : total < 2 ^ 32) (hfirst : first < 2 ^ 32) (count : Nat) :
    usedSet (fbMarkRegionUsed bm total first count)
      = usedSet bm ∪ region total first count := by
  ext g
  unfold fbMarkRegionUsed
  rw [markRegion_eq _ htotal count 0 bm hfirst, Nat.add_zero, Set.mem_union,
    ← mem_region_iff, mem_usedSet, mem_usedSet, fbTest_foldl_markUsed,
    Bool.or_eq_true, decide_eq_true_eq]
  exact Or.comm

theorem usedSet_markRegionFree (bm : Mem) {first : Nat}
    (htotal : total < 2 ^ 32) (hfirst : first < 2 ^ 32) (count : Nat) :
    usedSet (fbMarkRegionFree bm total first count)
      = usedSet bm \ region total first count := by
  ext g
  unfold fbMarkRegionFree
  rw [markRegion_eq _ htotal count 0 bm hfirst, Nat.add_zero, Set.mem_sdiff,
    ← mem_region_iff, mem_usedSet, mem_usedSet, fbTest_foldl_markFree,
    Bool.and_eq_true, decide_eq_true_eq]
  exact And.comm

-- ==================================================== counting, allocating

theorem fbCountFree_eq_ncard (bm : Mem) (total : Nat) :
    fbCountFree bm total = (missing bm total).ncard := by
  have hset : missing bm total = ↑(freeSet bm total) := by
    ext f
    rw [mem_missing, Finset.mem_coe, mem_freeSet]
  rw [fbCountFree_eq_card, hset, Set.ncard_coe_finset]

/-- `fb_alloc` adds the least frame that is missing. -/
theorem fbAlloc_least (htotal : total ≤ 0xFFFFFFF8)
    (hf : IsLeast (missing bm total) f) :
    (fbAlloc bm total).2 = f
      ∧ usedSet (fbAlloc bm total).1 = insert f (usedSet bm) := by
  obtain ⟨hmem, hleast⟩ := hf
  obtain ⟨hlt, hfree⟩ := mem_missing.mp hmem
  rcases fbAlloc_spec bm total htotal with
    ⟨g, hg, hgfree, hbelow, hr⟩ | ⟨hall, -⟩
  · have hgf : g = f := by
      refine Nat.le_antisymm ?_ (hleast (mem_missing.mpr ⟨hg, hgfree⟩))
      by_contra hlt'
      rw [hbelow f (by omega)] at hfree
      exact Bool.noConfusion hfree
    rw [hr, hgf]
    exact ⟨rfl, usedSet_markUsed bm f⟩
  · rw [hall f hlt] at hfree
    exact Bool.noConfusion hfree

/-- With none missing it changes nothing. -/
theorem fbAlloc_full (htotal : total ≤ 0xFFFFFFF8)
    (hnone : missing bm total = ∅) : fbAlloc bm total = (bm, FB_NONE) := by
  rcases fbAlloc_spec bm total htotal with ⟨g, hg, hgfree, -, -⟩ | ⟨-, hr⟩
  · have hmem : g ∈ missing bm total := mem_missing.mpr ⟨hg, hgfree⟩
    rw [hnone] at hmem
    exact absurd hmem (Set.notMem_empty g)
  · exact hr

-- =============================================================== the claim

/-- Every operation on a bitmap of `total` frames, as one on the set it
stands for. -/
structure RefinesFrameSet (bm : Mem) (total : Nat) : Prop where
  test : ∀ f, fbTest bm f = true ↔ f ∈ usedSet bm
  mark_used : ∀ f, usedSet (fbMarkUsed bm f) = insert f (usedSet bm)
  mark_free : ∀ f, usedSet (fbMarkFree bm f) = usedSet bm \ {f}
  free : ∀ f, usedSet (fbFree bm f) = usedSet bm \ {f}
  region_used : ∀ first count : UInt32,
    usedSet (fbMarkRegionUsed bm total first.toNat count.toNat)
      = usedSet bm ∪ region total first.toNat count.toNat
  region_free : ∀ first count : UInt32,
    usedSet (fbMarkRegionFree bm total first.toNat count.toNat)
      = usedSet bm \ region total first.toNat count.toNat
  count_free : fbCountFree bm total = (missing bm total).ncard
  alloc_least : ∀ f, IsLeast (missing bm total) f →
    (fbAlloc bm total).2 = f
      ∧ usedSet (fbAlloc bm total).1 = insert f (usedSet bm)
  alloc_full : missing bm total = ∅ → fbAlloc bm total = (bm, FB_NONE)

/-- The bitmap is a set of frames, for every total for which the number
of bytes does not wrap and whatever the bits past the total are. -/
theorem frame_bitmap_is_set (bm : Mem) {total : Nat}
    (htotal : total ≤ 0xFFFFFFF8) : RefinesFrameSet bm total where
  test := fun _ => mem_usedSet.symm
  mark_used := usedSet_markUsed bm
  mark_free := usedSet_markFree bm
  free := usedSet_markFree bm
  region_used := fun first count =>
    usedSet_markRegionUsed bm (by omega) first.toNat_lt count.toNat
  region_free := fun first count =>
    usedSet_markRegionFree bm (by omega) first.toNat_lt count.toNat
  count_free := fbCountFree_eq_ncard bm total
  alloc_least := fun _ => fbAlloc_least htotal
  alloc_full := fbAlloc_full htotal

/-- Thirteen frames in two bytes, the bits past them clear. -/
theorem frame_bitmap_is_set_thirteen :
    RefinesFrameSet (fun b => if b = 0 then 0xFF else 0x0F) 13 :=
  frame_bitmap_is_set _ (by decide)

end Thuos.Mm
