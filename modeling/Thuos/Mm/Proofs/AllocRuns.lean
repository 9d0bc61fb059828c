/-
When `heap_alloc` fails, and what it returns when it does not, in terms of
the bytes of the arena.

The bytes that belong to no block in use fall into maximal runs, and in
every heap a run of calls reaches these are its free blocks, header
included: no two free blocks are neighbours (`Reached.separated`), and the
blocks tile the arena. The library's `maximalRun_iff` is that step;
`alloc_first_run` reads it off memory.
-/
import Thuos.Lib.FreeRuns
import Thuos.Mm.Proofs.HeapHistory

namespace Thuos.Mm

open Machine ByteMem FirstFit Word32

variable {base size fuel : Nat} {c : Client} {cs : List Cell}

-- ========================================================== what is stated

/-- The byte `x` lies in the header or the payload of a block in use. -/
def InUseByte (bs : List Block) (x : Nat) : Prop :=
  ∃ b ∈ bs, b.free = 0 ∧ b.addr ≤ x ∧ x < b.addr + HDR + b.size

/-- A maximal run of bytes of the aligned arena that belong to no block in
use. -/
def FreeRun (base size : Nat) (bs : List Block) (a b : Nat) : Prop :=
  MaximalRun (fun x => ¬ InUseByte bs x) (arenaStart base) (base + size) a b

/-- A size rounded up to the alignment. -/
def roundedUp (n : Nat) : Nat := (n + 7) / 8 * 8

/-- The call returns the payload behind the header at `a`, of `s` bytes,
and keeps the other blocks in use. -/
def Hands (fuel : Nat) (h : Heap) (bs : List Block) (n a s : Nat) : Prop :=
  ∃ h' bs', heapAlloc fuel h n = some (h', a + HDR)
    ∧ Linked h'.mem h'.head bs'
    ∧ ∀ q, q ∈ usedBlocks bs' ↔ q = (a + HDR, s) ∨ q ∈ usedBlocks bs

/-- `heap_alloc` fails only when it must, and takes the lowest run that is
long enough otherwise. -/
structure TakesFirstRun (fuel base size : Nat) (h : Heap) (bs : List Block)
    (n : Nat) : Prop where
  fails_iff : (∃ h', heapAlloc fuel h n = some (h', 0))
    ↔ ∀ a b, FreeRun base size bs a b → b - a < HDR + roundedUp n
  keeps : ∀ h', heapAlloc fuel h n = some (h', 0) → h' = h
  lowest : (∃ a b, FreeRun base size bs a b ∧ HDR + roundedUp n ≤ b - a) →
    ∃ a b, FreeRun base size bs a b ∧ HDR + roundedUp n ≤ b - a
      ∧ (∀ a' b', FreeRun base size bs a' b' →
        HDR + roundedUp n ≤ b' - a' → a ≤ a')
      ∧ ∃ s, roundedUp n ≤ s ∧ s < roundedUp n + HDR + KH_ALIGN
        ∧ Hands fuel h bs n a s

-- ================================================================== bytes

/-- Bytes in use are the bytes of the payloads in use and their headers. -/
theorem inUseByte_iff {bs : List Block} {x : Nat} :
    InUseByte bs x ↔ Taken HDR (usedBlocks bs) x := by
  unfold InUseByte Taken usedBlocks
  constructor
  · rintro ⟨b, hb, hfree, hlo, hhi⟩
    refine ⟨_, List.mem_map_of_mem (List.mem_filter.mpr
      ⟨hb, decide_eq_true hfree⟩), ?_, hhi⟩
    exact Nat.add_le_add_right hlo HDR
  · rintro ⟨q, hq, hlo, hhi⟩
    obtain ⟨b, hb, rfl⟩ := List.mem_map.mp hq
    obtain ⟨hb, hfree⟩ := List.mem_filter.mp hb
    exact ⟨b, hb, of_decide_eq_true hfree, Nat.add_le_add_iff_right.mp hlo,
      hhi⟩

/-- Without cells the arena is one run, too short for a block. -/
theorem freeRun_of_no_cells (h : HeapInv base size c []) {a b : Nat}
    (hrun : FreeRun base size
      (blocksOf c.heap.mem (arenaStart base) []) a b) :
    b - a < HDR + KH_ALIGN := by
  have hsmall := h.spans.small rfl
  have hnonempty := hrun.nonempty
  have hlo := hrun.lo_le
  have hhi := hrun.le_hi
  have hstart := le_arenaStart base
  omega

/-- The free runs of a reached heap are its free cells. -/
theorem Reached.freeRun_iff (h : Reached base size c cs) (hne : cs ≠ [])
    {a b : Nat} :
    FreeRun base size (blocksOf c.heap.mem (arenaStart base) cs) a b
      ↔ a ≤ b ∧ (a, b - a) ∈ freeCells HDR (arenaStart base) cs := by
  have hspan := h.inv.spans.span hne
  unfold FreeRun
  simp only [inUseByte_iff, usedBlocks_blocksOf h.inv.holds.chain]
  rw [← hspan]
  exact maximalRun_iff (by decide) h.separated

theorem roundedUp_eq {n : Nat} (hn : n ≤ 0xFFFFFFF8) :
    alignUp n KH_ALIGN = roundedUp n := by
  rw [alignUp_eq, Nat.mod_eq_of_lt (by omega)]
  rfl

-- =============================================================== the call

/-- A run that holds a header and a block is a free cell. -/
theorem Reached.cell_of_run (h : Reached base size c cs) {a b r : Nat}
    (hr : KH_ALIGN ≤ r)
    (hrun : FreeRun base size (blocksOf c.heap.mem (arenaStart base) cs) a b)
    (hlen : HDR + r ≤ b - a) :
    (a, b - a) ∈ freeCells HDR (arenaStart base) cs := by
  by_cases hne : cs = []
  · subst hne
    have hsmall := freeRun_of_no_cells h.inv hrun
    omega
  · exact ((h.freeRun_iff hne).mp hrun).2

/-- A free cell is a run. -/
theorem Reached.run_of_cell (h : Reached base size c cs) {u : Nat × Nat}
    (hu : u ∈ freeCells HDR (arenaStart base) cs) :
    FreeRun base size (blocksOf c.heap.mem (arenaStart base) cs) u.1
      (u.1 + u.2) := by
  have hne : cs ≠ [] := by
    rintro rfl
    exact absurd hu List.not_mem_nil
  apply (h.freeRun_iff hne).mpr
  rw [Nat.add_sub_cancel_left]
  exact ⟨Nat.le_add_right _ _, hu⟩

theorem answer_eq {h h₁ h₂ : Heap} {n p q : Nat}
    (hp : heapAlloc fuel h n = some (h₁, p))
    (hq : heapAlloc fuel h n = some (h₂, q)) : h₁ = h₂ ∧ p = q :=
  Prod.mk.inj (Option.some.inj (hp.symm.trans hq))

/-- No free cell fits, and the call fails. -/
theorem Reached.takes_none (h : Reached base size c cs) {n : Nat}
    (hr : KH_ALIGN ≤ roundedUp n)
    (hcells : ∀ u ∈ freeCells HDR (arenaStart base) cs,
      u.2 < HDR + roundedUp n)
    (hfail : heapAlloc fuel c.heap n = some (c.heap, 0)) :
    TakesFirstRun fuel base size c.heap
      (blocksOf c.heap.mem (arenaStart base) cs) n := by
  have hshort : ∀ a b,
      FreeRun base size (blocksOf c.heap.mem (arenaStart base) cs) a b →
      b - a < HDR + roundedUp n := by
    intro a b hrun
    by_contra hlen
    exact hlen (hcells _ (h.cell_of_run hr hrun (Nat.not_lt.mp hlen)))
  refine ⟨iff_of_true ⟨c.heap, hfail⟩ hshort, fun h' hfail' => ?_, ?_⟩
  · exact (answer_eq hfail' hfail).1
  · rintro ⟨a, b, hrun, hlen⟩
    exact absurd (hshort a b hrun) (Nat.not_lt.mpr hlen)

/-- The call is served from the free cell `u`, the lowest that fits. -/
theorem Reached.takes_cell (h : Reached base size c cs) {n s : Nat}
    {u : Nat × Nat} (hr : KH_ALIGN ≤ roundedUp n)
    (hu : u ∈ freeCells HDR (arenaStart base) cs)
    (hroom : HDR + roundedUp n ≤ u.2)
    (hlow : ∀ v ∈ freeCells HDR (arenaStart base) cs,
      HDR + roundedUp n ≤ v.2 → u.1 ≤ v.1)
    (hs : roundedUp n ≤ s) (hslack : s < roundedUp n + HDR + KH_ALIGN)
    (hands : Hands fuel c.heap (blocksOf c.heap.mem (arenaStart base) cs) n
      u.1 s) :
    TakesFirstRun fuel base size c.heap
      (blocksOf c.heap.mem (arenaStart base) cs) n := by
  have hrun := h.run_of_cell hu
  have hlen : HDR + roundedUp n ≤ u.1 + u.2 - u.1 := by
    rw [Nat.add_sub_cancel_left]
    exact hroom
  -- an answer behind a header is not NULL
  have hsome : ∀ h', heapAlloc fuel c.heap n ≠ some (h', 0) := by
    intro h' hnull
    obtain ⟨h₁, bs, hserved, -⟩ := hands
    have hzero := (answer_eq hserved hnull).2
    unfold HDR at hzero
    omega
  refine ⟨iff_of_false ?_ ?_, fun h' hnull => absurd hnull (hsome h'), ?_⟩
  · rintro ⟨h', hnull⟩
    exact hsome h' hnull
  · intro hshort
    exact absurd hlen (Nat.not_le.mpr (hshort _ _ hrun))
  · intro _
    refine ⟨u.1, u.1 + u.2, hrun, hlen, fun a' b' hrun' hlen' => ?_, s, hs,
      hslack, hands⟩
    exact hlow _ (h.cell_of_run hr hrun' hlen') hlen'

theorem Reached.takesFirstRun (hbase : base ≠ 0) (hfuel : size < fuel)
    (h : Reached base size c cs) {n : Nat} (hn : 1 ≤ n)
    (hle : n ≤ 0xFFFFFFF8) :
    TakesFirstRun fuel base size c.heap
      (blocksOf c.heap.mem (arenaStart base) cs) n := by
  have hr : KH_ALIGN ≤ roundedUp n := by
    unfold KH_ALIGN roundedUp
    omega
  rcases heapAlloc_spec fuel h.inv.holds (h.inv.length_lt hfuel) n with
    ⟨hfail, hrun⟩ | ⟨cs', p, h', hn0, halloc, hrun, hholds, -⟩
  · have hcells := alloc_none_iff_cells.mp (hfail.resolve_left (by omega))
    rw [roundedUp_eq hle] at hcells
    exact h.takes_none hr hcells hrun
  · obtain ⟨u, hu, rfl, hroom, hlow, s, hs, hslack, hmem⟩ :=
      alloc_lowest (by decide) halloc
    rw [roundedUp_eq hle] at hroom hlow hs hslack
    refine h.takes_cell hr hu hroom hlow hs hslack
      ⟨h', blocksOf h'.mem (arenaStart base) cs', hrun, ?_, fun q => ?_⟩
    · have hlo := le_arenaStart base
      rw [hholds.head]
      exact linked_blocksOf hholds.chain (by omega)
    · rw [usedBlocks_blocksOf hholds.chain,
        usedBlocks_blocksOf h.inv.holds.chain]
      exact hmem q

/-- In every heap a run reaches, a request of 1 to `0xFFFFFFF8` bytes fails
exactly when no run of free bytes can hold a header and the rounded size,
and is served from the lowest one that can. -/
theorem alloc_first_run (hbase : base ≠ 0) (hend : base + size < 2 ^ 32)
    (hfuel : size < fuel) (mem : Mem) {ops : List HeapOp}
    (hlegal : AlongM (Client.step fuel) Legal
      { heap := heapInit mem base size, live := [] } ops) :
    ∃ c bs, execM (Client.step fuel)
        { heap := heapInit mem base size, live := [] } ops = some c
      ∧ Linked c.heap.mem c.heap.head bs
      ∧ ∀ n, 1 ≤ n → n ≤ 0xFFFFFFF8 →
        TakesFirstRun fuel base size c.heap bs n := by
  obtain ⟨c, hrun, cs, h⟩ := reached_run hbase hend hfuel mem hlegal
  exact ⟨c, _, hrun, h.inv.linked hbase,
    fun n hn hle => h.takesFirstRun hbase hfuel hn hle⟩

/-- A heap with a hole between two blocks. -/
theorem alloc_first_run_hole :
    ∃ c bs, execM (Client.step 257)
        { heap := heapInit (fun _ => 0) 60 256, live := [] }
        [.alloc 10, .alloc 24, .alloc 8, .free 112] = some c
      ∧ Linked c.heap.mem c.heap.head bs
      ∧ ∀ n, 1 ≤ n → n ≤ 0xFFFFFFF8 →
        TakesFirstRun 257 60 256 c.heap bs n :=
  alloc_first_run (by decide) (by decide) (by decide) _ (by decide +kernel)

end Thuos.Mm
