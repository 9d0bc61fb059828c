/-
The page-frame bitmap (kernel/mm/frame_bitmap.c): one bit per frame, set
when the frame is used.

The bitmap is a byte memory indexed from `bm`. `fbTest` is the view every
other operation is described through: marking moves one frame
(`fbTest_markUsed`, `fbTest_markFree`), allocation takes the least free
frame (`fbAlloc_spec`), and counting counts the set of free frames
(`fbCountFree_eq_card`), which is how the allocator above it reasons.
-/
import Mathlib
import Thuos.Lib.ByteMem
import Thuos.Lib.Bits

namespace Thuos.Mm

open ByteMem Bits

-- ======================================================= the operations

/-- `FB_NONE`: returned by `fb_alloc` when nothing is free. -/
def FB_NONE : Nat := 0xFFFFFFFF

/-- `byte_index`. -/
def byteIndex (frame : Nat) : Nat := frame >>> 3

/-- `bit_mask`. -/
def bitMask (frame : Nat) : UInt8 := mask (frame &&& 7)

/-- `fb_init`: all frames used. -/
def fbInit (bm : Mem) (totalFrames : Nat) : Mem :=
  (List.range ((totalFrames + 7) % 2 ^ 32 / 8)).foldl
    (fun bm i => bm.set i 0xFF) bm

/-- `fb_mark_used`. -/
def fbMarkUsed (bm : Mem) (frame : Nat) : Mem :=
  bm.set (byteIndex frame) (bm (byteIndex frame) ||| bitMask frame)

/-- `fb_mark_free`. -/
def fbMarkFree (bm : Mem) (frame : Nat) : Mem :=
  bm.set (byteIndex frame) (bm (byteIndex frame) &&& ~~~bitMask frame)

/-- `fb_test`: the frame is used. -/
def fbTest (bm : Mem) (frame : Nat) : Bool :=
  bm (byteIndex frame) &&& bitMask frame ≠ 0

/-- The loop of `fb_mark_region_used` and `fb_mark_region_free` from turn
`i` on, with `count` turns left: `first + i` is a `uint32_t` sum. -/
def markRegion (mark : Mem → Nat → Mem) (total first : Nat) :
    Nat → Nat → Mem → Mem
  | 0, _, bm => bm
  | count + 1, i, bm =>
      if (first + i) % 2 ^ 32 < total then
        markRegion mark total first count (i + 1)
          (mark bm ((first + i) % 2 ^ 32))
      else bm

/-- `fb_mark_region_used`. -/
def fbMarkRegionUsed (bm : Mem) (total first count : Nat) : Mem :=
  markRegion fbMarkUsed total first count 0 bm

/-- `fb_mark_region_free`. -/
def fbMarkRegionFree (bm : Mem) (total first count : Nat) : Mem :=
  markRegion fbMarkFree total first count 0 bm

/-- The inner loop of `fb_alloc`, from bit `bit` of byte `b` on: `none`
when the byte is exhausted without a return. -/
def fbAllocBits (bm : Mem) (totalFrames b : Nat) :
    List Nat → Option (Mem × Nat)
  | [] => none
  | bit :: bits =>
      if totalFrames ≤ b * 8 + bit then some (bm, FB_NONE)
      else if bm b &&& mask bit = 0 then
        some (bm.set b (bm b ||| mask bit), b * 8 + bit)
      else fbAllocBits bm totalFrames b bits

/-- The outer loop of `fb_alloc` over the bytes still to scan. -/
def fbAllocBytes (bm : Mem) (totalFrames : Nat) : List Nat → Mem × Nat
  | [] => (bm, FB_NONE)
  | b :: bs =>
      if bm b = 0xFF then fbAllocBytes bm totalFrames bs
      else
        match fbAllocBits bm totalFrames b (List.range' 0 8) with
        | some r => r
        | none => fbAllocBytes bm totalFrames bs

/-- `fb_alloc`: the bitmap after the call and the frame, or `FB_NONE`. -/
def fbAlloc (bm : Mem) (totalFrames : Nat) : Mem × Nat :=
  fbAllocBytes bm totalFrames
    (List.range' 0 ((totalFrames + 7) % 2 ^ 32 / 8))

/-- `fb_free`. -/
def fbFree (bm : Mem) (frame : Nat) : Mem := fbMarkFree bm frame

/-- `fb_count_free`. -/
def fbCountFree (bm : Mem) (totalFrames : Nat) : Nat :=
  (List.range totalFrames).foldl
    (fun count f => if fbTest bm f then count else count + 1) 0

-- ===================================================== one frame at a time

theorem byteIndex_eq (f : Nat) : byteIndex f = f / 8 := by
  unfold byteIndex
  rw [Nat.shiftRight_eq_div_pow]

theorem bitMask_eq (f : Nat) : bitMask f = mask (f % 8) := by
  unfold bitMask
  rw [show (7 : Nat) = 2 ^ 3 - 1 from rfl, Nat.and_two_pow_sub_one_eq_mod]

theorem fbTest_eq (bm : Mem) (f : Nat) :
    fbTest bm f = bit (bm (f / 8)) (f % 8) := by
  unfold fbTest
  rw [byteIndex_eq, bitMask_eq]
  rfl

theorem fbTest_markUsed (bm : Mem) (f g : Nat) :
    fbTest (fbMarkUsed bm f) g = (decide (g = f) || fbTest bm g) := by
  have hg : g % 8 < 8 := Nat.mod_lt g (by omega)
  have hf : f % 8 < 8 := Nat.mod_lt f (by omega)
  unfold fbMarkUsed
  rw [fbTest_eq, fbTest_eq, byteIndex_eq, bitMask_eq]
  by_cases hb : g / 8 = f / 8
  · rw [hb, Mem.set_self, bit_or _ hg hf]
    have : g % 8 = f % 8 ↔ g = f := by omega
    simp only [this]
  · rw [Mem.set_ne _ _ hb]
    have : g ≠ f := fun h => hb (by rw [h])
    simp [this]

theorem fbTest_markFree (bm : Mem) (f g : Nat) :
    fbTest (fbMarkFree bm f) g = (decide (g ≠ f) && fbTest bm g) := by
  have hg : g % 8 < 8 := Nat.mod_lt g (by omega)
  have hf : f % 8 < 8 := Nat.mod_lt f (by omega)
  unfold fbMarkFree
  rw [fbTest_eq, fbTest_eq, byteIndex_eq, bitMask_eq]
  by_cases hb : g / 8 = f / 8
  · rw [hb, Mem.set_self, bit_andNot _ hg hf]
    have : g % 8 = f % 8 ↔ g = f := by omega
    simp only [ne_eq, this]
  · rw [Mem.set_ne _ _ hb]
    have : g ≠ f := fun h => hb (by rw [h])
    simp [this]

/-- Marking a list of frames used sets exactly their bits. -/
theorem fbTest_foldl_markUsed (fs : List Nat) (bm : Mem) (g : Nat) :
    fbTest (fs.foldl fbMarkUsed bm) g = (decide (g ∈ fs) || fbTest bm g) := by
  induction fs generalizing bm with
  | nil => simp
  | cons f fs ih =>
      rw [List.foldl_cons, ih, fbTest_markUsed, ← Bool.or_assoc]
      congr 1
      rw [Bool.eq_iff_iff]
      simp only [Bool.or_eq_true, decide_eq_true_eq, List.mem_cons]
      exact Or.comm

/-- Freeing a list of frames clears exactly their bits. -/
theorem fbTest_foldl_markFree (fs : List Nat) (bm : Mem) (g : Nat) :
    fbTest (fs.foldl fbMarkFree bm) g = (decide (g ∉ fs) && fbTest bm g) := by
  induction fs generalizing bm with
  | nil => simp
  | cons f fs ih =>
      rw [List.foldl_cons, ih, fbTest_markFree, ← Bool.and_assoc]
      congr 1
      rw [Bool.eq_iff_iff]
      simp only [Bool.and_eq_true, decide_eq_true_eq, List.mem_cons, not_or]
      exact And.comm

/-- After `fb_init` every frame it covers is used. -/
theorem fbTest_init {bm : Mem} {total f : Nat} (htotal : total ≤ 0xFFFFFFF8)
    (hf : f < total) : fbTest (fbInit bm total) f = true := by
  have hinit : ∀ (n : Nat) (bm : Mem) (b : Nat), b < n →
      (List.range n).foldl (fun (bm : Mem) i => bm.set i 0xFF) bm b = 0xFF := by
    intro n
    induction n with
    | zero => intro bm b hb; omega
    | succ n ih =>
        intro bm b hb
        rw [List.range_succ, List.foldl_append]
        show Mem.set _ n 0xFF b = 0xFF
        by_cases hbn : b = n
        · rw [hbn, Mem.set_self]
        · rw [Mem.set_ne _ _ hbn]
          exact ih bm b (by omega)
  rw [fbTest_eq]
  unfold fbInit
  rw [hinit _ _ _ (by omega)]
  exact bit_ones (Nat.mod_lt f (by omega))

-- ============================================================ allocation

/-- The result of a scan for a free frame: the least one, now marked, or
`FB_NONE` with nothing changed when there is none. -/
def Allocated (bm : Mem) (total : Nat) (r : Mem × Nat) : Prop :=
  (∃ f < total, fbTest bm f = false ∧ (∀ g < f, fbTest bm g = true)
      ∧ r = (fbMarkUsed bm f, f))
    ∨ ((∀ f < total, fbTest bm f = true) ∧ r = (bm, FB_NONE))

/-- One byte: with every earlier frame used, the inner loop returns an
allocation, or leaves every frame of the byte used. -/
theorem fbAllocBits_spec {bm : Mem} {b : Nat} (total n : Nat) :
    ∀ k, k + n = 8 → (∀ f < b * 8 + k, fbTest bm f = true) →
      (∃ r, fbAllocBits bm total b (List.range' k n) = some r
          ∧ Allocated bm total r)
        ∨ (fbAllocBits bm total b (List.range' k n) = none
          ∧ ∀ f < b * 8 + 8, fbTest bm f = true) := by
  induction n with
  | zero =>
      intro k hk hused
      refine Or.inr ⟨rfl, fun f hf => hused f (by omega)⟩
  | succ n ih =>
      intro k hk hused
      rw [List.range'_succ, fbAllocBits]
      by_cases htot : total ≤ b * 8 + k
      · rw [if_pos htot]
        exact Or.inl ⟨_, rfl, Or.inr ⟨fun f hf => hused f (by omega), rfl⟩⟩
      rw [if_neg htot]
      have hdiv : (b * 8 + k) / 8 = b := by omega
      have hmod : (b * 8 + k) % 8 = k := by omega
      have htest : fbTest bm (b * 8 + k) = bit (bm b) k := by
        rw [fbTest_eq, hdiv, hmod]
      by_cases hbit : bm b &&& mask k = 0
      · rw [if_pos hbit]
        refine Or.inl ⟨_, rfl, Or.inl ⟨b * 8 + k, by omega, ?_, hused, ?_⟩⟩
        · rw [htest, bit, decide_eq_false_iff_not, not_not]
          exact hbit
        · unfold fbMarkUsed
          rw [byteIndex_eq, bitMask_eq, hdiv, hmod]
      · rw [if_neg hbit]
        refine ih (k + 1) (by omega) fun f hf => ?_
        by_cases hfk : f = b * 8 + k
        · rw [hfk, htest, bit, decide_eq_true_eq]
          exact hbit
        · exact hused f (by omega)

theorem fbAllocBytes_spec {bm : Mem} {total : Nat} (n : Nat) :
    ∀ b, total ≤ (b + n) * 8 → (∀ f < b * 8, fbTest bm f = true) →
      Allocated bm total (fbAllocBytes bm total (List.range' b n)) := by
  induction n with
  | zero =>
      intro b htot hused
      exact Or.inr ⟨fun f hf => hused f (by omega), rfl⟩
  | succ n ih =>
      intro b htot hused
      rw [List.range'_succ, fbAllocBytes]
      by_cases hfull : bm b = 0xFF
      · rw [if_pos hfull]
        refine ih (b + 1) (by omega) fun f hf => ?_
        by_cases hfb : f < b * 8
        · exact hused f hfb
        · rw [fbTest_eq, show f / 8 = b from by omega]
          exact eq_ones_iff.mp hfull _ (Nat.mod_lt f (by omega))
      · rw [if_neg hfull]
        rcases fbAllocBits_spec total 8 0 rfl hused with
          ⟨r, hr, halloc⟩ | ⟨hr, hall⟩
        · rw [hr]
          exact halloc
        · rw [hr]
          exact ih (b + 1) (by omega) fun f hf => hall f (by omega)

/-- `fb_alloc` returns and marks the least free frame below the total, or
`FB_NONE` with the bitmap unchanged when there is none. -/
theorem fbAlloc_spec (bm : Mem) (total : Nat) (h : total ≤ 0xFFFFFFF8) :
    Allocated bm total (fbAlloc bm total) := by
  unfold fbAlloc
  exact fbAllocBytes_spec _ 0 (by omega) fun f hf => by omega

-- ======================================================== the free frames

/-- The free frames below the total. -/
def freeSet (bm : Mem) (total : Nat) : Finset Nat :=
  (Finset.range total).filter fun f => fbTest bm f = false

theorem mem_freeSet {bm : Mem} {total f : Nat} :
    f ∈ freeSet bm total ↔ f < total ∧ fbTest bm f = false := by
  unfold freeSet
  rw [Finset.mem_filter, Finset.mem_range]

theorem fbCountFree_eq_card (bm : Mem) (total : Nat) :
    fbCountFree bm total = (freeSet bm total).card := by
  unfold fbCountFree freeSet
  induction total with
  | zero => rfl
  | succ n ih =>
      rw [List.range_succ, List.foldl_append, ih, Finset.range_add_one,
        Finset.filter_insert]
      cases hn : fbTest bm n with
      | true => simp [hn]
      | false => simp [hn]

theorem freeSet_markUsed (bm : Mem) (total f : Nat) :
    freeSet (fbMarkUsed bm f) total = (freeSet bm total).erase f := by
  ext g
  rw [Finset.mem_erase, mem_freeSet, mem_freeSet, fbTest_markUsed,
    Bool.or_eq_false_iff, decide_eq_false_iff_not]
  exact and_left_comm

theorem freeSet_markFree {bm : Mem} {total f : Nat} (hf : f < total) :
    freeSet (fbMarkFree bm f) total = insert f (freeSet bm total) := by
  ext g
  rw [Finset.mem_insert, mem_freeSet, mem_freeSet, fbTest_markFree,
    Bool.and_eq_false_iff, decide_eq_false_iff_not, not_not]
  refine ⟨fun h => ?_, fun h => ?_⟩
  · rcases h with ⟨hg, heq | hfree⟩
    · exact Or.inl heq
    · exact Or.inr ⟨hg, hfree⟩
  · rcases h with heq | ⟨hg, hfree⟩
    · exact ⟨heq ▸ hf, Or.inl heq⟩
    · exact ⟨hg, Or.inr hfree⟩

end Thuos.Mm
