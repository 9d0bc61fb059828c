/-
The integrity checker on a corrupt heap.

`heap_check` walks a list it does not trust: `nextBlock` is its step, from
a block that passes every test to the block its header names, and the
checker answers 1 when that walk ends at NULL (`checkLoop_eq_trail`).

Two things are not tested. A size may be so large that the end of a block
wraps, and a block that ends where it starts, or before, is a way back:
the walk need not end. And the last block need not end where the arena
does: a list that was cut short passes. `check_sound_iff` says that these
are the only two, over every content of memory: the checker terminates
and is sound exactly when its walk comes back to no block and, should it
end at NULL, no block on it wraps and the last ends with the arena.
-/
import Thuos.Lib.Walk
import Thuos.Mm.Proofs.HeapHistory

namespace Thuos.Mm

open ByteMem FirstFit Relation Walk Word32

-- ============================================================= the checker

/-- The heap that `heap_init` set up, over memory that holds anything. -/
def corrupted (mem m : Mem) (base size : Nat) : Heap :=
  { heapInit mem base size with mem := m }

/-- The tests of `heap_check` on the block at `b`. -/
structure Passes (lo hi : Nat) (m : Mem) (b : Nat) : Prop where
  magic : blkMagic m b = KH_MAGIC
  lo : lo ≤ b
  hi : add32 (add32 b HDR) (blkSize m b) ≤ hi
  next : blkNext m b = 0
    ∨ blkNext m b = add32 (add32 b HDR) (blkSize m b)

instance (lo hi : Nat) (m : Mem) (b : Nat) :
    Decidable (Passes lo hi m b) :=
  decidable_of_iff (blkMagic m b = KH_MAGIC ∧ lo ≤ b
      ∧ add32 (add32 b HDR) (blkSize m b) ≤ hi
      ∧ (blkNext m b = 0
        ∨ blkNext m b = add32 (add32 b HDR) (blkSize m b)))
    ⟨fun h => ⟨h.1, h.2.1, h.2.2.1, h.2.2.2⟩,
      fun h => ⟨h.magic, h.lo, h.hi, h.next⟩⟩

/-- The step of the checker. -/
def nextBlock (lo hi : Nat) (m : Mem) (b : Nat) : Option Nat :=
  if b ≠ 0 ∧ Passes lo hi m b then some (blkNext m b) else none

/-- What a caller may rely on: the checker returns, and when it returns 1
the blocks on the list are intact and tile the arena. An arena that is
too small for a block has none. -/
structure CheckSound (base size : Nat) (h : Heap) : Prop where
  returns : ∃ fuel r, heapCheck fuel h = some r
  sound : ∀ fuel, heapCheck fuel h = some 1 →
    ∃ bs, Linked h.mem h.head bs ∧ (∀ b ∈ bs, b.magic = KH_MAGIC)
      ∧ ((bs = [] ∧ size < arenaStart base - base + HDR + KH_ALIGN)
        ∨ (bs ≠ [] ∧ Tiles (arenaStart base) (base + size) bs))

variable {base size lo hi : Nat} {m : Mem}

theorem nextBlock_eq_some {b q : Nat} :
    nextBlock lo hi m b = some q
      ↔ b ≠ 0 ∧ Passes lo hi m b ∧ blkNext m b = q := by
  unfold nextBlock
  split
  · next h => simp [h]
  · next h =>
      rw [not_and] at h
      simp only [reduceCtorEq, false_iff, not_and]
      intro hb hpass
      exact absurd hpass (h hb)

theorem nextBlock_zero : nextBlock lo hi m 0 = none :=
  if_neg fun h => h.1 rfl

/-- The checker answers 1 when its walk ends at NULL, and 0 when a block
stops it. -/
theorem checkLoop_eq_trail (fuel : Nat) :
    ∀ b, checkLoop lo hi fuel m b
      = (trail (nextBlock lo hi m) fuel b).map fun r =>
          if r.2 = 0 then 1 else 0 := by
  induction fuel with
  | zero => intro b; rfl
  | succ fuel ih =>
      intro b
      rw [checkLoop]
      by_cases hb : b = 0
      · subst hb
        rw [if_pos rfl, trail_none nextBlock_zero]
        rfl
      by_cases hpass : Passes lo hi m b
      · have hnext : nextBlock lo hi m b = some (blkNext m b) :=
          if_pos ⟨hb, hpass⟩
        have hlink := hpass.next
        rw [if_neg hb, if_neg (not_not.mpr hpass.magic)]
        dsimp only
        rw [if_neg (not_or.mpr ⟨Nat.not_lt.mpr hpass.lo,
            Nat.not_lt.mpr hpass.hi⟩), if_neg (by tauto), ih,
          trail_some hnext, Option.map_map]
        rfl
      · have hnone : nextBlock lo hi m b = none :=
          if_neg fun h => hpass h.2
        have hfails : (if blkMagic m b ≠ KH_MAGIC then some 0
            else if b < lo ∨ hi < add32 (add32 b HDR) (blkSize m b) then
              some 0
            else if blkNext m b ≠ 0
                ∧ blkNext m b ≠ add32 (add32 b HDR) (blkSize m b) then
              some 0
            else checkLoop lo hi fuel m (blkNext m b)) = some 0 := by
          by_contra hne
          apply hpass
          split at hne
          · exact absurd rfl hne
          split at hne
          · exact absurd rfl hne
          split at hne
          · exact absurd rfl hne
          · next hmagic hin hlink =>
            exact ⟨not_not.mp hmagic, by omega, by omega, by tauto⟩
        rw [if_neg hb, trail_none hnone, Option.map_some, if_neg hb]
        exact hfails

-- ============================================== the list of a passing walk

/-- A walk to NULL goes along the block list, through blocks that pass. -/
theorem linked_of_trail {p last : Nat} {l : List Nat}
    (h : Trail (nextBlock lo hi m) p l last) (hnull : last = 0) :
    Linked m p (l.map (readBlock m))
      ∧ ∀ b ∈ l, b ≠ 0 ∧ blkMagic m b = KH_MAGIC := by
  induction h with
  | stop h => exact ⟨hnull, fun b hb => absurd hb List.not_mem_nil⟩
  | go h rest ih =>
      obtain ⟨hne, hpass, rfl⟩ := nextBlock_eq_some.mp h
      obtain ⟨hlinked, hall⟩ := ih hnull
      refine ⟨⟨hne, rfl, hlinked⟩, fun b hb => ?_⟩
      rcases List.mem_cons.mp hb with rfl | hb
      · exact ⟨hne, hpass.magic⟩
      · exact hall b hb

/-- The next block of a block that passes starts at its end, taken modulo
`2 ^ 32`. -/
theorem Passes.next_eq {b : Nat} (h : Passes lo hi m b)
    (hne : blkNext m b ≠ 0) :
    blkNext m b = (b + HDR + blkSize m b) % 2 ^ 32 := by
  have hnext := h.next.resolve_left hne
  unfold add32 at hnext
  omega

/-- The blocks of a walk to NULL tile up to `fin` exactly when none of
them wraps and the last ends there: the links are checked. -/
theorem tiles_iff_of_trail {fin p last : Nat} {l : List Nat}
    (hfin : fin < 2 ^ 32) (h : Trail (nextBlock lo hi m) p l last)
    (hnull : last = 0) (hp : p ≠ 0) :
    Tiles p fin (l.map (readBlock m))
      ↔ ∀ b ∈ l, b + HDR + blkSize m b < 2 ^ 32
        ∧ (blkNext m b = 0 → b + HDR + blkSize m b = fin) := by
  induction h with
  | stop h => exact absurd hnull hp
  | @go p q last l h rest ih =>
      obtain ⟨-, hpass, rfl⟩ := nextBlock_eq_some.mp h
      rw [List.forall_mem_cons, List.map_cons]
      show (p = p ∧ Tiles (p + HDR + blkSize m p) fin _) ↔ _
      rw [and_iff_right rfl]
      by_cases hq : blkNext m p = 0
      · -- the last block
        have hnil : l = [] := by
          rw [hq] at rest
          cases rest with
          | stop h => rfl
          | go h rest => exact absurd rfl (nextBlock_eq_some.mp h).1
        subst hnil
        have hend : Tiles (p + HDR + blkSize m p) fin []
            ↔ p + HDR + blkSize m p = fin := Iff.rfl
        rw [List.map_nil, hend]
        constructor
        · intro hfits
          refine ⟨⟨by omega, fun _ => hfits⟩, fun b hb => ?_⟩
          exact absurd hb List.not_mem_nil
        · exact fun hall => hall.1.2 hq
      · have hstart := hpass.next_eq hq
        have htail := ih hnull hq
        obtain ⟨l', rfl⟩ := rest.head (hnull ▸ hq)
        constructor
        · intro htiles
          have hmeet : blkNext m p = p + HDR + blkSize m p := htiles.1
          rw [← hmeet] at htiles
          exact ⟨⟨by omega, fun h0 => absurd h0 hq⟩, htail.mp htiles⟩
        · rintro ⟨⟨hlt, -⟩, hall⟩
          rw [Nat.mod_eq_of_lt hlt] at hstart
          rw [← hstart]
          exact htail.mpr hall

-- ============================================================== the result

/-- `heap_init` leaves the aligned start as the head, or NULL when no
block fits. -/
theorem corrupted_eq (hend : base + size < 2 ^ 32) (mem m : Mem) :
    corrupted mem m base size
      = { base := base, size := size, mem := m
          head := if size < arenaStart base - base + HDR + KH_ALIGN then 0
            else arenaStart base } := by
  unfold corrupted
  rw [heapInit_eq hend]
  split
  · rfl
  · rfl

theorem heapCheck_corrupted (hend : base + size < 2 ^ 32) (mem m : Mem)
    (fuel : Nat) :
    heapCheck fuel (corrupted mem m base size)
      = (trail (nextBlock base (base + size) m) fuel
          (corrupted mem m base size).head).map fun r =>
            if r.2 = 0 then 1 else 0 := by
  have hhi : add32 base size = base + size := add32_eq hend
  rw [corrupted_eq hend]
  unfold heapCheck
  dsimp only
  rw [hhi]
  exact checkLoop_eq_trail fuel _

theorem finite_blocks (hend : base + size < 2 ^ 32) (mem m : Mem) :
    {b | Reaches (nextBlock base (base + size) m)
      (corrupted mem m base size).head b}.Finite := by
  refine finite_reaches (n := 2 ^ 32) ?_ fun a b hab => ?_
  · rw [corrupted_eq hend]
    dsimp only
    unfold HDR KH_ALIGN
    split <;> omega
  · obtain ⟨-, -, rfl⟩ := nextBlock_eq_some.mp hab
    exact Mem.load32_lt m _

/-- What the walk finds is sound exactly when its blocks tile. -/
theorem sound_iff_of_trail (hbase : base ≠ 0) (hend : base + size < 2 ^ 32)
    {mem m : Mem} {l : List Nat}
    (htrail : Trail (nextBlock base (base + size) m)
      (corrupted mem m base size).head l 0) :
    (∃ bs, Linked m (corrupted mem m base size).head bs
        ∧ (∀ b ∈ bs, b.magic = KH_MAGIC)
        ∧ ((bs = [] ∧ size < arenaStart base - base + HDR + KH_ALIGN)
          ∨ (bs ≠ [] ∧ Tiles (arenaStart base) (base + size) bs)))
      ↔ ∀ b ∈ l, b + HDR + blkSize m b < 2 ^ 32
        ∧ (blkNext m b = 0 → b + HDR + blkSize m b = base + size) := by
  have hstart := le_arenaStart base
  have hhead : (corrupted mem m base size).head
      = if size < arenaStart base - base + HDR + KH_ALIGN then 0
        else arenaStart base := by
    rw [corrupted_eq hend]
  obtain ⟨hlinked, hall⟩ := linked_of_trail htrail rfl
  by_cases hsmall : size < arenaStart base - base + HDR + KH_ALIGN
  · -- no list: nothing to tile and nothing on the walk
    rw [if_pos hsmall] at hhead
    have hnil : l = [] := by
      cases l with
      | nil => rfl
      | cons b l =>
          rw [hhead] at hlinked
          exact absurd rfl hlinked.1
    subst hnil
    refine iff_of_true ⟨[], hlinked, ?_, Or.inl ⟨rfl, hsmall⟩⟩ ?_
    · exact fun b hb => absurd hb List.not_mem_nil
    · exact fun b hb => absurd hb List.not_mem_nil
  · rw [if_neg hsmall] at hhead
    rw [hhead] at htrail hlinked ⊢
    have hne : arenaStart base ≠ 0 := by omega
    rw [← tiles_iff_of_trail hend htrail rfl hne]
    constructor
    · rintro ⟨bs, hbs, -, htiles⟩
      obtain rfl := linked_unique hlinked hbs
      rcases htiles with ⟨-, hlt⟩ | ⟨-, htiles⟩
      · exact absurd hlt hsmall
      · exact htiles
    · intro htiles
      obtain ⟨l', rfl⟩ := htrail.head hne
      refine ⟨_, hlinked, fun b hb => ?_, Or.inr ⟨List.cons_ne_nil _ _, htiles⟩⟩
      obtain ⟨x, hx, rfl⟩ := List.mem_map.mp hb
      exact (hall x hx).2

/-- Over every content of memory, the checker terminates and is sound
exactly when the walk from the head through blocks that pass comes back
to none of them and, if it gets to NULL, passes no block whose end wraps
and no last block that ends elsewhere than the arena. -/
theorem check_sound_iff (hbase : base ≠ 0) (hend : base + size < 2 ^ 32)
    (mem m : Mem) :
    CheckSound base size (corrupted mem m base size)
      ↔ (∀ b, Reaches (nextBlock base (base + size) m)
            (corrupted mem m base size).head b →
          ¬ Returns (nextBlock base (base + size) m) b)
        ∧ (Reaches (nextBlock base (base + size) m)
            (corrupted mem m base size).head 0 →
          ∀ b, Reaches (nextBlock base (base + size) m)
              (corrupted mem m base size).head b → b ≠ 0 →
            b + HDR + blkSize m b < 2 ^ 32
              ∧ (blkNext m b = 0 →
                b + HDR + blkSize m b = base + size)) := by
  rw [← stops_iff_acyclic (finite_blocks hend mem m)]
  have hcheck := heapCheck_corrupted hend mem m
  constructor
  · rintro ⟨⟨fuel, r, hr⟩, hsound⟩
    rw [hcheck] at hr
    obtain ⟨⟨l, last⟩, htrail, -⟩ := Option.map_eq_some_iff.mp hr
    have hmade := trail_made htrail
    refine ⟨⟨fuel, _, htrail⟩, fun hnull b hb hb0 => ?_⟩
    -- NULL has no successor, so the walk ends there
    have hlast : last = 0 := by
      rcases hmade.reaches_iff.mp hnull with hin | hin
      · obtain ⟨y, hy⟩ := hmade.exists_next hin
        exact nomatch nextBlock_zero.symm.trans hy
      · exact hin.symm
    subst hlast
    have hone : heapCheck fuel (corrupted mem m base size) = some 1 := by
      rw [hcheck, htrail]
      rfl
    refine (sound_iff_of_trail hbase hend hmade).mp (hsound fuel hone) b ?_
    exact (hmade.reaches_iff.mp hb).resolve_right hb0
  · rintro ⟨⟨fuel, r, htrail⟩, hcond⟩
    refine ⟨⟨fuel, if r.2 = 0 then 1 else 0, ?_⟩, fun fuel hone => ?_⟩
    · rw [hcheck, htrail]
      rfl
    · rw [hcheck] at hone
      obtain ⟨⟨l, last⟩, htrail, hlast⟩ := Option.map_eq_some_iff.mp hone
      obtain rfl : last = 0 := by
        by_contra hne
        rw [if_neg hne] at hlast
        exact absurd hlast (by decide)
      have hmade := trail_made htrail
      have hnull := hmade.reaches_iff.mpr (Or.inr rfl)
      refine (sound_iff_of_trail hbase hend hmade).mpr fun b hb => ?_
      refine hcond hnull b (hmade.reaches_iff.mpr (Or.inl hb)) ?_
      exact ((linked_of_trail hmade rfl).2 b hb).1

/-- The header that `heap_init` wrote. -/
def freshHeader : Mem := writeHeader (fun _ => 0) 64 240 0 1

/-- On a new heap the walk is one step, to NULL. -/
theorem check_sound_iff_fresh :
    CheckSound 64 256 (corrupted (fun _ => 0) freshHeader 64 256) := by
  have hhead : (corrupted (fun _ => 0) freshHeader 64 256).head = 64 := by
    decide +kernel
  have hnext : nextBlock 64 (64 + 256) freshHeader 64 = some 0 := by
    decide +kernel
  have hreach : ∀ b, Reaches (nextBlock 64 (64 + 256) freshHeader) 64 b →
      b = 64 ∨ b = 0 := by
    intro b hb
    rw [reaches_iff hnext, reaches_of_none nextBlock_zero] at hb
    exact hb
  refine (check_sound_iff (by decide) (by decide) _ _).mpr ?_
  rw [hhead]
  have hstops : Stops (nextBlock 64 (64 + 256) freshHeader) 64 :=
    ⟨2, ([64], 0), by rw [trail_some hnext, trail_none nextBlock_zero]; rfl⟩
  refine ⟨fun b hb => (hstops.of_reaches hb).not_returns,
    fun _ b hb hb0 => ?_⟩
  obtain rfl := (hreach b hb).resolve_right hb0
  decide +kernel

-- ================================================== two corrupt headers

/-- A header whose size takes the end of its block back to its start. -/
def loopedHeader : Mem := writeHeader (fun _ => 0) 64 (2 ^ 32 - 16) 64 1

/-- The header of a list that was cut after eight bytes. -/
def cutHeader : Mem := writeHeader (fun _ => 0) 64 8 0 1

/-- On the one the checker never returns; the other it calls consistent,
though its one block covers 24 bytes of 256. -/
theorem corrupt_headers_missed :
    (∀ fuel, heapCheck fuel (corrupted (fun _ => 0) loopedHeader 64 256)
        = none)
      ∧ heapCheck 2 (corrupted (fun _ => 0) cutHeader 64 256) = some 1
      ∧ ∃ bs, Linked cutHeader
          (corrupted (fun _ => 0) cutHeader 64 256).head bs
        ∧ ¬ Tiles (arenaStart 64) (64 + 256) bs := by
  refine ⟨fun fuel => ?_, by decide +kernel, ?_⟩
  · have hself : nextBlock 64 (64 + 256) loopedHeader 64 = some 64 := by
      decide +kernel
    have hhead : (corrupted (fun _ => 0) loopedHeader 64 256).head = 64 := by
      decide +kernel
    have hend : 64 + 256 < 2 ^ 32 := by decide
    have hcheck := heapCheck_corrupted hend (fun _ => 0) loopedHeader fuel
    rw [hhead] at hcheck
    rw [hcheck]
    cases htrail : trail (nextBlock 64 (64 + 256) loopedHeader) fuel 64 with
    | none => rfl
    | some r =>
        have hstops : Stops (nextBlock 64 (64 + 256) loopedHeader) 64 :=
          ⟨fuel, r, htrail⟩
        have hreturns : Returns (nextBlock 64 (64 + 256) loopedHeader) 64 :=
          TransGen.single hself
        exact absurd hreturns hstops.not_returns
  · refine ⟨[readBlock cutHeader 64], ⟨?_, ?_, ?_⟩, ?_⟩
    · decide +kernel
    · rfl
    · show blkNext cutHeader 64 = 0
      decide +kernel
    · intro htiles
      have hend : 64 + HDR + blkSize cutHeader 64 = 64 + 256 := htiles.2
      exact absurd hend (by decide +kernel)

end Thuos.Mm
