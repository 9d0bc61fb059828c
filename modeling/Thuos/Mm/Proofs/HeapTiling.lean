/-
The heap tiles its arena, in every run.

`Client` is the heap together with the pointers its clients hold: those
returned and neither freed nor moved since. A step is a call, or a byte
stored by a client; `Legal` is what clients promise (only NULL or a held
pointer is freed or reallocated, and bytes are stored inside held
payloads only). `HeapInv` says that memory holds a list of cells that
spans the aligned arena, and that the held pointers are exactly its
payloads in use. Every legal step returns, does to the cells what
`cellStep` says, and keeps it (`step_cells`), so it holds after every
legal run (`heap_tiling`).

What a reader can check against memory is `Tiled`: the blocks that are
reached through `next`, as they were read.
-/
import Mathlib
import Thuos.Lib.Machine
import Thuos.Mm.Proofs.HeapRefine

namespace Thuos.Mm

open Machine ByteMem FirstFit Word32

-- ============================================================= statistics

/-- Adding up a figure of each header. -/
theorem sumLoop_spec {f : Mem → Nat → Nat} {g : Cell → Nat}
    (hf : ∀ m b c next, HeaderAt m b c next → f m b = g c)
    {cs : List Cell} :
    ∀ {m : Mem} {b : Nat} (fuel acc : Nat), Chain m b cs → 0 < b →
      cs.length < fuel → acc + (cs.map g).sum < 2 ^ 32 →
      sumLoop f fuel m (ptr b cs) acc = some (acc + (cs.map g).sum) := by
  induction cs with
  | nil =>
      intro m b fuel acc _ _ hfuel _
      obtain ⟨fuel, rfl⟩ : ∃ k, fuel = k + 1 := ⟨fuel - 1, by omega⟩
      rfl
  | cons c cs ih =>
      intro m b fuel acc h hb hfuel hsum
      rw [List.length_cons] at hfuel
      obtain ⟨fuel, rfl⟩ : ∃ k, fuel = k + 1 := ⟨fuel - 1, by omega⟩
      rw [List.map_cons, List.sum_cons] at hsum ⊢
      show sumLoop f (fuel + 1) m b acc = _
      rw [sumLoop, if_neg (by omega), h.1.next, hf m b c _ h.1,
        add32_eq (by omega), ih _ _ h.2 (by omega) (by omega) (by omega),
        Nat.add_assoc]

/-- The headers pass every check of `heap_check`. -/
theorem checkLoop_spec {lo hi : Nat} (hhi : hi < 2 ^ 32) {cs : List Cell} :
    ∀ {m : Mem} {b fuel : Nat}, Chain m b cs → 0 < b → lo ≤ b →
      (cs ≠ [] → b + extent HDR cs ≤ hi) → cs.length < fuel →
      checkLoop lo hi fuel m (ptr b cs) = some 1 := by
  induction cs with
  | nil =>
      intro m b fuel _ _ _ _ hfuel
      obtain ⟨fuel, rfl⟩ : ∃ k, fuel = k + 1 := ⟨fuel - 1, by omega⟩
      rfl
  | cons c cs ih =>
      intro m b fuel h hb hlo hfits hfuel
      have hend := hfits (List.cons_ne_nil c cs)
      rw [List.length_cons] at hfuel
      obtain ⟨fuel, rfl⟩ : ∃ k, fuel = k + 1 := ⟨fuel - 1, by omega⟩
      rw [extent] at hend
      have he : add32 (add32 b HDR) (blkSize m b) = b + HDR + c.size := by
        have hpay : add32 b HDR = b + HDR := add32_eq (by omega)
        rw [h.1.size, hpay]
        exact add32_eq (by omega)
      have hnext : ¬ (ptr (b + HDR + c.size) cs ≠ 0
          ∧ ptr (b + HDR + c.size) cs ≠ b + HDR + c.size) := by
        cases cs with
        | nil => exact fun h => h.1 rfl
        | cons d cs => exact fun h => h.2 rfl
      show checkLoop lo hi (fuel + 1) m b = _
      rw [checkLoop, if_neg (by omega), if_neg (not_not.mpr h.1.magic)]
      dsimp only
      rw [he, h.1.next, if_neg (by omega), if_neg hnext]
      exact ih h.2 (by omega) (by omega) (fun _ => by omega) (by omega)

/-- Used bytes, free bytes and headers make up the extent. -/
theorem extent_eq_sums (cs : List Cell) :
    (cs.map fun c => if c.free then 0 else c.size).sum
        + (cs.map fun c => if c.free then c.size else 0).sum
        + HDR * (cs.map fun _ => 1).sum
      = extent HDR cs := by
  induction cs with
  | nil => rfl
  | cons c cs ih =>
      rw [List.map_cons, List.map_cons, List.map_cons, List.sum_cons,
        List.sum_cons, List.sum_cons, extent, Nat.mul_add]
      split <;> omega

/-- `heap_used`, `heap_free_bytes` and `heap_blocks` of a list of
cells. -/
theorem statistics_spec (fuel : Nat) {lo : Nat} {h : Heap} {cs : List Cell}
    (hh : Holds lo h cs) (hlo : 0 < lo) (hfuel : cs.length < fuel)
    (hext : extent HDR cs < 2 ^ 32) :
    heapUsed fuel h
        = some (cs.map fun c => if c.free then 0 else c.size).sum
      ∧ heapFreeBytes fuel h
        = some (cs.map fun c => if c.free then c.size else 0).sum
      ∧ heapBlocks fuel h = some (cs.map fun _ => 1).sum := by
  have hsums := extent_eq_sums cs
  unfold HDR at hsums hext
  have hsum : ∀ (f : Mem → Nat → Nat) (g : Cell → Nat),
      (∀ m b c next, HeaderAt m b c next → f m b = g c) →
      (cs.map g).sum < 2 ^ 32 →
      sumLoop f fuel h.mem h.head 0 = some (cs.map g).sum := by
    intro f g hf hlt
    have := sumLoop_spec hf fuel 0 hh.chain hlo hfuel
      (by rw [Nat.zero_add]; exact hlt)
    rw [Nat.zero_add, ← hh.head] at this
    exact this
  refine ⟨hsum _ _ (fun m b c next hc => ?_) (by omega),
    hsum _ _ (fun m b c next hc => ?_) (by omega),
    hsum _ _ (fun _ _ _ _ _ => rfl) (by omega)⟩
  · rw [hc.free, hc.size]
    cases c.free <;> rfl
  · rw [hc.free, hc.size]
    cases c.free <;> rfl

-- ================================================= the list, as it is read

/-- A block header, as read from memory. -/
structure Block where
  addr : Nat
  size : Nat
  next : Nat
  free : Nat
  magic : Nat

def readBlock (m : Mem) (b : Nat) : Block :=
  { addr := b, size := blkSize m b, next := blkNext m b
    free := blkFree m b, magic := blkMagic m b }

/-- The blocks reached from pointer `p` through `next`, up to NULL. -/
def Linked (m : Mem) : Nat → List Block → Prop
  | p, [] => p = 0
  | p, b :: bs => p ≠ 0 ∧ b = readBlock m p ∧ Linked m b.next bs

/-- The blocks follow each other from `lo` to `hi`, without gap or
overlap. -/
def Tiles : Nat → Nat → List Block → Prop
  | lo, hi, [] => lo = hi
  | lo, hi, b :: bs => b.addr = lo ∧ Tiles (lo + HDR + b.size) hi bs

/-- The headers of a chain, as they are read. -/
def blocksOf (m : Mem) : Nat → List Cell → List Block
  | _, [] => []
  | b, c :: cs => readBlock m b :: blocksOf m (b + HDR + c.size) cs

/-- The headers of a chain are linked from each to the next, and the last one
to nothing. -/
theorem linked_blocksOf {m : Mem} {cs : List Cell} :
    ∀ {b : Nat}, Chain m b cs → 0 < b →
      Linked m (ptr b cs) (blocksOf m b cs) := by
  induction cs with
  | nil => intro b _ _; exact rfl
  | cons c cs ih =>
      intro b h hb
      refine ⟨Nat.ne_of_gt hb, rfl, ?_⟩
      show Linked m (blkNext m b) _
      rw [h.1.next]
      exact ih h.2 (by omega)

/-- The blocks of a chain lie end to end, from its start to its extent. -/
theorem tiles_blocksOf {m : Mem} {cs : List Cell} :
    ∀ {b : Nat}, Chain m b cs →
      Tiles b (b + extent HDR cs) (blocksOf m b cs) := by
  induction cs with
  | nil => intro b _; exact rfl
  | cons c cs ih =>
      intro b h
      refine ⟨rfl, ?_⟩
      show Tiles (b + HDR + blkSize m b) _ _
      have hend : b + extent HDR (c :: cs)
          = b + HDR + c.size + extent HDR cs := by
        rw [extent]
        omega
      rw [h.1.size, hend]
      exact ih h.2

/-- Every block of a chain is intact and aligned. -/
theorem mem_blocksOf {m : Mem} {al : Nat} {blk : Block} {cs : List Cell} :
    ∀ {b : Nat}, Chain m b cs → Aligned HDR al b cs →
      blk ∈ blocksOf m b cs →
      blk = readBlock m blk.addr ∧ blk.magic = KH_MAGIC ∧ al ∣ blk.addr := by
  induction cs with
  | nil => intro b _ _ hblk; exact absurd hblk List.not_mem_nil
  | cons c cs ih =>
      intro b h hal hblk
      rcases List.mem_cons.mp hblk with rfl | hblk
      · exact ⟨rfl, h.1.magic, hal.1⟩
      · exact ih h.2 hal.2 hblk

/-- No block of a chain begins before the chain does. -/
theorem le_addr_of_mem {m : Mem} {blk : Block} {cs : List Cell} :
    ∀ {b : Nat}, blk ∈ blocksOf m b cs → b ≤ blk.addr := by
  induction cs with
  | nil => intro b h; exact absurd h List.not_mem_nil
  | cons c cs ih =>
      intro b h
      rcases List.mem_cons.mp h with rfl | h
      · exact Nat.le_refl b
      · have := ih h
        omega

/-- The blocks of a chain stand in the order of their addresses. -/
theorem blocksOf_pairwise (m : Mem) (cs : List Cell) :
    ∀ b, (blocksOf m b cs).Pairwise fun x y => x.addr < y.addr := by
  induction cs with
  | nil => intro b; exact List.Pairwise.nil
  | cons c cs ih =>
      intro b
      refine List.pairwise_cons.mpr ⟨fun y hy => ?_, ih _⟩
      have := le_addr_of_mem hy
      show b < y.addr
      unfold HDR at this
      omega

/-- A payload in use lies beside every header. -/
theorem header_beside {m : Mem} {blk : Block} {p s : Nat}
    {cs : List Cell} :
    ∀ {b : Nat}, (p, s) ∈ inUse HDR b cs → blk ∈ blocksOf m b cs →
      p + s ≤ blk.addr ∨ blk.addr + HDR ≤ p := by
  induction cs with
  | nil => intro b hp; exact absurd hp List.not_mem_nil
  | cons c cs ih =>
      intro b hp hblk
      rw [inUse] at hp
      rcases List.mem_cons.mp hblk with rfl | hblk
      · refine Or.inr ?_
        show b + HDR ≤ p
        split at hp
        · have := (inUse_bounds hp).1
          dsimp only at this
          omega
        · rcases List.mem_cons.mp hp with heq | hp
          · exact Nat.le_of_eq (Prod.mk.inj heq).1.symm
          · have := (inUse_bounds hp).1
            dsimp only at this
            omega
      · split at hp
        · exact ih hp hblk
        · rcases List.mem_cons.mp hp with heq | hp
          · obtain ⟨rfl, rfl⟩ := Prod.mk.inj heq
            exact Or.inl (le_addr_of_mem hblk)
          · exact ih hp hblk

/-- The block in front of a payload in use is on the list. -/
theorem blocksOf_inUse {m : Mem} {p s : Nat} {cs : List Cell} :
    ∀ {b : Nat}, Chain m b cs → (p, s) ∈ inUse HDR b cs →
      ∃ blk ∈ blocksOf m b cs, blk.free = 0 ∧ blk.addr + HDR = p
        ∧ blk.size = s := by
  induction cs with
  | nil => intro b _ hp; exact absurd hp List.not_mem_nil
  | cons c cs ih =>
      intro b h hp
      rw [inUse] at hp
      split at hp
      · obtain ⟨blk, hmem, hblk⟩ := ih h.2 hp
        exact ⟨blk, List.mem_cons_of_mem _ hmem, hblk⟩
      · next hfree =>
        rcases List.mem_cons.mp hp with heq | hp
        · obtain ⟨rfl, rfl⟩ := Prod.mk.inj heq
          refine ⟨readBlock m b, List.mem_cons_self, ?_, rfl, h.1.size⟩
          show blkFree m b = 0
          rw [h.1.free, if_neg hfree]
        · obtain ⟨blk, hmem, hblk⟩ := ih h.2 hp
          exact ⟨blk, List.mem_cons_of_mem _ hmem, hblk⟩

-- ============================================================ the clients

/-- A call on the heap, or a byte that a client stores. -/
inductive HeapOp
  | alloc (n : UInt32)
  | free (p : Nat)
  | realloc (p : Nat) (n : UInt32)
  | write (a : Nat) (v : UInt8)

/-- The heap and the pointers its clients hold. -/
structure Client where
  heap : Heap
  live : List Nat

def Client.step (fuel : Nat) (c : Client) : HeapOp → Option Client
  | .alloc n =>
      (heapAlloc fuel c.heap n.toNat).map fun r =>
        { heap := r.1, live := if r.2 = 0 then c.live else r.2 :: c.live }
  | .free p =>
      (heapFree fuel c.heap p).map fun h =>
        { heap := h, live := c.live.erase p }
  | .realloc p n =>
      (heapRealloc fuel c.heap p n.toNat).map fun r =>
        { heap := r.1
          live :=
            if r.2 ≠ 0 then r.2 :: c.live.erase p
            else if n.toNat = 0 then c.live.erase p
            else c.live }
  | .write a v =>
      some { c with heap := { c.heap with mem := c.heap.mem.set a v } }

/-- The pointer an operation returns. -/
def Client.result (fuel : Nat) (c : Client) : HeapOp → Option Nat
  | .alloc n => (heapAlloc fuel c.heap n.toNat).map Prod.snd
  | .free p => (heapFree fuel c.heap p).map fun _ => 0
  | .realloc p n => (heapRealloc fuel c.heap p n.toNat).map Prod.snd
  | .write _ _ => some 0

/-- An operation on the cells: those after it, and the pointer
returned. -/
def cellStep (lo : Nat) (cs : List Cell) : HeapOp → List Cell × Nat
  | .alloc n => cellAlloc lo cs n.toNat
  | .free p => (cellFree lo cs p, 0)
  | .realloc p n => cellRealloc lo cs p n.toNat
  | .write _ _ => (cs, 0)

/-- What clients promise: they free and reallocate NULL or a pointer they
hold, and store bytes inside the payloads they hold. -/
def Legal (c : Client) : HeapOp → Prop
  | .alloc _ => True
  | .free p => p = 0 ∨ p ∈ c.live
  | .realloc p _ => p = 0 ∨ p ∈ c.live
  | .write a _ =>
      ∃ p ∈ c.live, p ≤ a ∧ a < p + blkSize c.heap.mem (p - HDR)

instance (c : Client) : ∀ op, Decidable (Legal c op)
  | .alloc _ => inferInstanceAs (Decidable True)
  | .free p => inferInstanceAs (Decidable (p = 0 ∨ p ∈ c.live))
  | .realloc p _ => inferInstanceAs (Decidable (p = 0 ∨ p ∈ c.live))
  | .write a _ => inferInstanceAs (Decidable (∃ p ∈ c.live,
      p ≤ a ∧ a < p + blkSize c.heap.mem (p - HDR)))

/-- The first aligned address of the arena. -/
def arenaStart (base : Nat) : Nat := (base + 7) / 8 * 8

-- =========================================================== the invariant

/-- The cells span the aligned arena, or there are none because it is too
small, and the pointers held are the payloads in use. -/
structure Spans (base size : Nat) (cs : List Cell) (live : List Nat) :
    Prop where
  span : cs ≠ [] → arenaStart base + extent HDR cs = base + size
  small : cs = [] → size < arenaStart base - base + HDR + KH_ALIGN
  aligned : Aligned HDR KH_ALIGN (arenaStart base) cs
  nodup : live.Nodup
  live_iff : ∀ p, p ∈ live
    ↔ p ∈ (inUse HDR (arenaStart base) cs).map Prod.fst

variable {base size fuel : Nat} {cs : List Cell} {live : List Nat}

/-- The arena begins at its base, or behind it where that is not aligned. -/
theorem le_arenaStart (base : Nat) : base ≤ arenaStart base := by
  unfold arenaStart
  omega

/-- The cells do not go beyond the end of the arena. -/
theorem Spans.extent_le (h : Spans base size cs live) :
    extent HDR cs ≤ size := by
  have hlo := le_arenaStart base
  by_cases hne : cs = []
  · rw [hne]
    exact Nat.zero_le _
  · have := h.span hne
    omega

/-- A pointer held is a payload in use. -/
theorem Spans.inUse (h : Spans base size cs live) {p : Nat}
    (hp : p ∈ live) : ∃ s, (p, s) ∈ inUse HDR (arenaStart base) cs := by
  obtain ⟨q, hq, rfl⟩ := List.mem_map.mp ((h.live_iff p).mp hp)
  exact ⟨q.2, hq⟩

/-- The null pointer is no live block. -/
theorem Spans.zero_notMem (h : Spans base size cs live) : 0 ∉ live := by
  intro h0
  obtain ⟨s, hs⟩ := h.inUse h0
  have := (inUse_bounds hs).1
  unfold HDR at this
  omega

/-- The same cells with other sizes and flags still span. -/
theorem Spans.of_extent {cs' : List Cell} {live' : List Nat}
    (h : Spans base size cs live) (hne : cs ≠ [])
    (hext : extent HDR cs' = extent HDR cs)
    (hal : Aligned HDR KH_ALIGN (arenaStart base) cs')
    (hnodup : live'.Nodup)
    (hlive : ∀ p, p ∈ live'
      ↔ p ∈ (FirstFit.inUse HDR (arenaStart base) cs').map Prod.fst) :
    Spans base size cs' live' := by
  have hspan := h.span hne
  refine ⟨fun _ => by rw [hext]; exact hspan, fun hnil => ?_, hal, hnodup,
    hlive⟩
  rw [hnil, extent] at hext
  cases cs with
  | nil => exact absurd rfl hne
  | cons c cs =>
      rw [extent] at hext
      unfold HDR at hext
      omega

/-- An allocation adds its payload to those that live, and the cells still
fill the arena. -/
theorem Spans.alloc {n p : Nat} {cs' : List Cell}
    (h : Spans base size cs live) (hn : KH_ALIGN ∣ n)
    (ha : Placed HDR n (arenaStart base) cs cs' p) :
    Spans base size cs' (p :: live) := by
  obtain ⟨r, -, -, hmem⟩ := ha.mem_iff
  have hfresh : p ∉ live := mt (h.live_iff p).mp (ha.fresh (by decide))
  have hne : cs ≠ [] := by
    intro hnil
    have hp : (p, r) ∈ FirstFit.inUse HDR (arenaStart base) cs' :=
      (hmem _).mpr (Or.inl rfl)
    have hbounds := inUse_bounds hp
    rw [ha.extent_eq, hnil, extent] at hbounds
    unfold HDR at hbounds
    dsimp only at hbounds
    omega
  refine h.of_extent hne ha.extent_eq
    (ha.aligned _ (by decide) hn h.aligned)
    (List.nodup_cons.mpr ⟨hfresh, h.nodup⟩) fun q => ?_
  rw [List.mem_cons, h.live_iff, List.mem_map, List.mem_map]
  refine ⟨fun hq => ?_, fun hq => ?_⟩
  · rcases hq with rfl | ⟨u, hu, rfl⟩
    · exact ⟨_, (hmem _).mpr (Or.inl rfl), rfl⟩
    · exact ⟨u, (hmem u).mpr (Or.inr hu), rfl⟩
  · obtain ⟨u, hu, rfl⟩ := hq
    rcases (hmem u).mp hu with rfl | hu
    · exact Or.inl rfl
    · exact Or.inr ⟨u, hu, rfl⟩

/-- A free takes its payload away, joins what is free, and the cells still
fill the arena. -/
theorem Spans.free {p : Nat} (h : Spans base size cs live)
    (hp : p ∈ live) :
    Spans base size (coalesce HDR (release HDR p (arenaStart base) cs))
      (live.erase p) := by
  obtain ⟨s, hs⟩ := h.inUse hp
  refine h.of_extent (ne_nil_of_inUse hs)
    ((extent_coalesce _).trans (extent_release ..))
    (aligned_coalesce (aligned_release h.aligned)) (h.nodup.erase p)
    fun q => ?_
  rw [inUse_coalesce, inUse_release (by decide), h.nodup.mem_erase_iff,
    h.live_iff, List.mem_map, List.mem_map]
  refine ⟨fun hq => ?_, fun hq => ?_⟩
  · obtain ⟨hne, u, hu, rfl⟩ := hq
    exact ⟨u, List.mem_filter.mpr ⟨hu, decide_eq_true hne⟩, rfl⟩
  · obtain ⟨u, hu, rfl⟩ := hq
    obtain ⟨hu, hne⟩ := List.mem_filter.mp hu
    exact ⟨of_decide_eq_true hne, u, hu, rfl⟩

/-- The invariant of every run. -/
structure HeapInv (base size : Nat) (c : Client) (cs : List Cell) :
    Prop where
  base_eq : c.heap.base = base
  size_eq : c.heap.size = size
  holds : Holds (arenaStart base) c.heap cs
  spans : Spans base size cs c.live

/-- `heap_init`, its arithmetic done: no list, if no header with a minimal
payload fits, or one free block from the aligned start to the end. -/
theorem heapInit_eq (hend : base + size < 2 ^ 32) (mem : Mem) :
    heapInit mem base size
      = if size < arenaStart base - base + HDR + KH_ALIGN then
          { base := base, size := size, head := 0, mem := mem }
        else
          { base := base, size := size, head := arenaStart base
            mem := writeHeader mem (arenaStart base)
              (size - (arenaStart base - base) - HDR) 0 1 } := by
  have hle := le_arenaStart base
  have hstart : base + 7 < 2 ^ 32 → alignUp base KH_ALIGN = arenaStart base := by
    intro hlt
    rw [alignUp_eq, Nat.mod_eq_of_lt hlt]
    rfl
  have hadj : sub32 (alignUp base KH_ALIGN) base = arenaStart base - base := by
    by_cases hlt : base + 7 < 2 ^ 32
    · rw [hstart hlt]
      unfold arenaStart at hle ⊢
      exact sub32_eq hle (by omega)
    · rw [alignUp_eq]
      unfold sub32 arenaStart
      omega
  have hpad : arenaStart base - base < 8 := by
    unfold arenaStart
    omega
  have hmin : add32 (add32 (arenaStart base - base) HDR) KH_ALIGN
      = arenaStart base - base + HDR + KH_ALIGN := by
    unfold add32 HDR KH_ALIGN
    omega
  unfold heapInit
  dsimp only
  rw [hadj, hmin]
  split
  · rfl
  · next hfits =>
    unfold HDR KH_ALIGN at hfits
    have hlt : base + 7 < 2 ^ 32 := by
      unfold arenaStart at hfits
      omega
    have hpay : sub32 (sub32 size (arenaStart base - base)) HDR
        = size - (arenaStart base - base) - HDR := by
      have hrest : sub32 size (arenaStart base - base)
          = size - (arenaStart base - base) := by
        exact sub32_eq (by omega) (by omega)
      rw [hrest]
      exact sub32_eq (by unfold HDR; omega) (by omega)
    rw [hpay, hstart hlt]
    rfl

/-- The cells of a new heap: one free cell, if a header and a minimal
payload fit. -/
def initCells (base size : Nat) : List Cell :=
  if size < arenaStart base - base + HDR + KH_ALIGN then []
  else [{ size := size - (arenaStart base - base) - HDR, free := true }]

/-- In a new arena nothing is in use. -/
theorem inUse_initCells (base size lo : Nat) :
    FirstFit.inUse HDR lo (initCells base size) = [] := by
  unfold initCells
  split <;> rfl

/-- In a new arena there is one free cell, so there are no free neighbours.
-/
theorem separated_initCells (base size : Nat) :
    Separated (initCells base size) := by
  unfold initCells
  split
  · exact List.isChain_nil
  · exact List.isChain_singleton _

/-- `heap_init` lays out the first cells. -/
theorem heapInit_inv (hbase : base ≠ 0) (hend : base + size < 2 ^ 32)
    (mem : Mem) :
    HeapInv base size { heap := heapInit mem base size, live := [] }
      (initCells base size) := by
  have hle := le_arenaStart base
  have hlive : ∀ p, p ∈ [] ↔ p ∈ (FirstFit.inUse HDR (arenaStart base)
      (initCells base size)).map Prod.fst := by
    rw [inUse_initCells]
    exact fun p => Iff.rfl
  rw [heapInit_eq hend]
  unfold initCells at hlive ⊢
  by_cases hsmall : size < arenaStart base - base + HDR + KH_ALIGN
  · rw [if_pos hsmall] at hlive ⊢
    rw [if_pos hsmall]
    exact ⟨rfl, rfl, ⟨rfl, trivial, fun h => absurd rfl h⟩,
      fun h => absurd rfl h, fun _ => hsmall, trivial, List.nodup_nil, hlive⟩
  · rw [if_neg hsmall] at hlive ⊢
    rw [if_neg hsmall]
    unfold HDR KH_ALIGN at hsmall
    have hspan : arenaStart base
        + (HDR + (size - (arenaStart base - base) - HDR) + 0) = base + size := by
      unfold HDR
      omega
    refine ⟨rfl, rfl, ⟨rfl, ⟨?_, trivial⟩, fun _ => ⟨?_, ?_⟩⟩,
      fun _ => hspan, fun h => absurd h (List.cons_ne_nil _ _),
      ⟨?_, trivial⟩, List.nodup_nil, hlive⟩
    · exact headerAt_writeHeader mem (arenaStart base) (by omega)
        (Nat.two_pow_pos 32)
    · unfold arenaStart KH_ALIGN
      omega
    · show arenaStart base
        + (HDR + (size - (arenaStart base - base) - HDR) + 0) < 2 ^ 32
      rw [hspan]
      exact hend
    · exact Nat.dvd_mul_left ..

/-- A size that was rounded up is a multiple of the alignment. -/
theorem dvd_alignUp (n : Nat) : KH_ALIGN ∣ alignUp n KH_ALIGN := by
  rw [alignUp_eq]
  exact Nat.dvd_mul_left ..

variable {c : Client}

/-- There are fewer cells than bytes, so a loop over them ends in time. -/
theorem HeapInv.length_lt (h : HeapInv base size c cs)
    (hfuel : size < fuel) : cs.length < fuel := by
  have := length_le_extent cs
  have := h.spans.extent_le
  omega

/-- `heap_alloc` returns what it returns on the cells, and keeps the
invariant. -/
theorem alloc_inv (hfuel : size < fuel) (h : HeapInv base size c cs)
    (n : Nat) :
    ∃ h', heapAlloc fuel c.heap n
          = some (h', (cellAlloc (arenaStart base) cs n).2)
      ∧ HeapInv base size
          { heap := h'
            live :=
              if (cellAlloc (arenaStart base) cs n).2 = 0 then c.live
              else (cellAlloc (arenaStart base) cs n).2 :: c.live }
          (cellAlloc (arenaStart base) cs n).1
      ∧ Keeps (arenaStart base) cs c.heap h' := by
  unfold cellAlloc
  rcases heapAlloc_spec fuel h.holds (h.length_lt hfuel) n with
    ⟨hfail, hnone⟩ | ⟨cs', p, h', hn, halloc, hsome, hholds, hkeep⟩
  · have hcells : (if n = 0 then (cs, 0) else
        (alloc HDR KH_ALIGN (alignUp n KH_ALIGN) (arenaStart base) cs).getD
          (cs, 0)) = (cs, 0) := by
      rcases hfail with hn | hfail
      · exact if_pos hn
      · rw [hfail, Option.getD_none, ite_self]
    rw [hcells]
    exact ⟨c.heap, hnone, h, Keeps.refl ..⟩
  · rw [if_neg hn, halloc, Option.getD_some]
    have hspans := h.spans.alloc (dvd_alignUp n) (alloc_spec halloc)
    have hp : p ≠ 0 := by
      intro h0
      exact hspans.zero_notMem (h0 ▸ List.mem_cons_self)
    refine ⟨h', hsome, ⟨hkeep.base.trans h.base_eq,
      hkeep.size.trans h.size_eq, hholds, ?_⟩, hkeep⟩
    rw [if_neg hp]
    exact hspans

/-- `heap_free` of NULL or of a pointer held returns, and keeps the
invariant. -/
theorem free_inv (hfuel : size < fuel) (h : HeapInv base size c cs)
    {p : Nat} (hp : p = 0 ∨ p ∈ c.live) :
    ∃ h', heapFree fuel c.heap p = some h'
      ∧ HeapInv base size { heap := h', live := c.live.erase p }
          (cellFree (arenaStart base) cs p)
      ∧ Keeps (arenaStart base) cs c.heap h' := by
  unfold cellFree
  rcases hp with rfl | hp
  · refine ⟨c.heap, if_pos rfl, ⟨h.base_eq, h.size_eq, h.holds, ?_⟩,
      Keeps.refl ..⟩
    rw [List.erase_of_not_mem h.spans.zero_notMem]
    exact h.spans
  · have hp0 : p ≠ 0 := fun h0 => h.spans.zero_notMem (h0 ▸ hp)
    obtain ⟨s, hs⟩ := h.spans.inUse hp
    obtain ⟨h', hfree, hholds, hkeep⟩ :=
      heapFree_spec fuel h.holds (h.length_lt hfuel) hs
    rw [if_neg hp0]
    exact ⟨h', hfree, ⟨hkeep.base.trans h.base_eq,
      hkeep.size.trans h.size_eq, hholds, h.spans.free hp⟩, hkeep⟩

/-- `heap_realloc` of NULL or of a pointer held returns what it returns
on the cells, and keeps the invariant. -/
theorem realloc_inv (hfuel : size < fuel) (h : HeapInv base size c cs)
    {p : Nat} (n : Nat) (hp : p = 0 ∨ p ∈ c.live) :
    ∃ h', heapRealloc fuel c.heap p n
          = some (h', (cellRealloc (arenaStart base) cs p n).2)
      ∧ HeapInv base size
          { heap := h'
            live :=
              if (cellRealloc (arenaStart base) cs p n).2 ≠ 0 then
                (cellRealloc (arenaStart base) cs p n).2 :: c.live.erase p
              else if n = 0 then c.live.erase p
              else c.live }
          (cellRealloc (arenaStart base) cs p n).1
      ∧ Keeps (arenaStart base) cs c.heap h' := by
  unfold cellRealloc
  by_cases hnull : p = 0
  · -- NULL: an allocation
    subst hnull
    obtain ⟨h', halloc, hinv, hkeep⟩ := alloc_inv hfuel h n
    rw [if_pos rfl]
    refine ⟨h', (if_pos rfl).trans halloc, ?_, hkeep⟩
    rw [List.erase_of_not_mem h.spans.zero_notMem, ite_self, ite_not]
    exact hinv
  rw [if_neg hnull]
  by_cases hn : n = 0
  · -- size 0: a release
    obtain ⟨h', hfree, hinv, hkeep⟩ := free_inv hfuel h hp
    rw [if_pos hn]
    refine ⟨h', ?_, ?_, hkeep⟩
    · unfold heapRealloc
      rw [if_neg hnull, if_pos hn, hfree]
      rfl
    · rw [if_neg (not_not.mpr rfl), if_pos hn]
      exact hinv
  have hlive := hp.resolve_left hnull
  obtain ⟨s, hs⟩ := h.spans.inUse hlive
  have hext := h.spans.extent_le
  rw [if_neg hn, payloadSize_eq hs]
  rcases heapRealloc_spec fuel h.holds (by omega) hs hn with
    ⟨hroom, hsame⟩ | ⟨hroom, hnone, hfail⟩
      | ⟨cs', q, h', hroom, halloc, hmove, hholds, hkeep, -⟩
  · -- in place
    rw [if_pos hroom]
    refine ⟨c.heap, hsame, ⟨h.base_eq, h.size_eq, h.holds, ?_⟩,
      Keeps.refl ..⟩
    rw [if_pos hnull]
    have hperm := List.perm_cons_erase hlive
    refine ⟨h.spans.span, h.spans.small, h.spans.aligned,
      hperm.nodup_iff.mp h.spans.nodup, fun r => ?_⟩
    exact hperm.mem_iff.symm.trans (h.spans.live_iff r)
  · -- no room
    rw [if_neg (by omega), hnone]
    refine ⟨c.heap, hfail, ?_, Keeps.refl ..⟩
    rw [if_neg (not_not.mpr rfl), if_neg hn]
    exact h
  · -- moved
    have hgrown := h.spans.alloc (dvd_alignUp n) (alloc_spec halloc)
    have hq : q ≠ 0 := fun h0 =>
      hgrown.zero_notMem (h0 ▸ List.mem_cons_self)
    have hqp : q ≠ p := fun heq =>
      (List.nodup_cons.mp hgrown.nodup).1 (heq ▸ hlive)
    have hfreed := hgrown.free (List.mem_cons_of_mem q hlive)
    rw [List.erase_cons_tail (by simpa using hqp)] at hfreed
    have hcells : cellFree (arenaStart base) cs' p
        = coalesce HDR (release HDR p (arenaStart base) cs') := if_neg hnull
    rw [if_neg (by omega), halloc]
    dsimp only
    rw [if_pos hq, hcells]
    exact ⟨h', hmove, ⟨hkeep.base.trans h.base_eq,
      hkeep.size.trans h.size_eq, hholds, hfreed⟩, hkeep⟩

/-- What a client writes inside a payload in use keeps the invariant. -/
theorem HeapInv.write (h : HeapInv base size c cs) {p s : Nat} {m : Mem}
    (hp : (p, s) ∈ FirstFit.inUse HDR (arenaStart base) cs)
    (hm : ∀ x, (x < p ∨ p + s ≤ x) → m x = c.heap.mem x) :
    HeapInv base size { c with heap := { c.heap with mem := m } } cs :=
  ⟨h.base_eq, h.size_eq, h.holds.write hp hm, h.spans⟩

/-- The step lemma: every legal step is a step of the cells, and keeps the
invariant. -/
theorem step_cells (hfuel : size < fuel) {op : HeapOp}
    (h : HeapInv base size c cs) (hlegal : Legal c op) :
    ∃ c', c.step fuel op = some c'
      ∧ c.result fuel op = some (cellStep (arenaStart base) cs op).2
      ∧ HeapInv base size c' (cellStep (arenaStart base) cs op).1 := by
  cases op with
  | alloc n =>
      obtain ⟨h', hrun, hinv, -⟩ := alloc_inv hfuel h n.toNat
      refine ⟨_, ?_, ?_, hinv⟩
      · unfold Client.step
        dsimp only
        rw [hrun]
        rfl
      · unfold Client.result
        dsimp only
        rw [hrun]
        rfl
  | free p =>
      obtain ⟨h', hrun, hinv, -⟩ := free_inv hfuel h hlegal
      refine ⟨_, ?_, ?_, hinv⟩
      · unfold Client.step
        dsimp only
        rw [hrun]
        rfl
      · unfold Client.result
        dsimp only
        rw [hrun]
        rfl
  | realloc p n =>
      obtain ⟨h', hrun, hinv, -⟩ := realloc_inv hfuel h n.toNat hlegal
      refine ⟨_, ?_, ?_, hinv⟩
      · unfold Client.step
        dsimp only
        rw [hrun]
        rfl
      · unfold Client.result
        dsimp only
        rw [hrun]
        rfl
  | write a v =>
      obtain ⟨p, hp, hlo, hhi⟩ := hlegal
      obtain ⟨s, hs⟩ := h.spans.inUse hp
      obtain ⟨⟨next, hhead⟩, -⟩ := h.holds.chain.headerAt hs
      rw [hhead.size] at hhi
      dsimp only at hhi
      refine ⟨_, rfl, rfl, h.write hs fun x hx => Mem.set_ne _ _ ?_⟩
      omega

/-- Every legal call returns, and the heap behind it is well formed again. -/
theorem step_inv (hfuel : size < fuel) (op : HeapOp)
    (h : ∃ cs, HeapInv base size c cs) (hlegal : Legal c op) :
    ∃ c', c.step fuel op = some c' ∧ ∃ cs, HeapInv base size c' cs := by
  obtain ⟨cs, h⟩ := h
  obtain ⟨c', hstep, -, hinv⟩ := step_cells hfuel h hlegal
  exact ⟨c', hstep, _, hinv⟩

-- ============================================================== the result

/-- The blocks `bs` of the heap, as read from memory, tile its arena, the
statistics and the checker agree, and each pointer held is one payload,
apart from every other and from every header. -/
structure Tiled (fuel base size : Nat) (c : Client) (bs : List Block) :
    Prop where
  linked : Linked c.heap.mem c.heap.head bs
  magic : ∀ b ∈ bs, b.magic = KH_MAGIC
  aligned : ∀ b ∈ bs, KH_ALIGN ∣ b.addr
  increasing : bs.Pairwise fun x y => x.addr < y.addr
  tiles : (bs = [] ∧ size < arenaStart base - base + HDR + KH_ALIGN)
    ∨ (bs ≠ [] ∧ Tiles (arenaStart base) (base + size) bs)
  check : heapCheck fuel c.heap = some 1
  total : bs ≠ [] → ∃ used free blocks, heapUsed fuel c.heap = some used
    ∧ heapFreeBytes fuel c.heap = some free
    ∧ heapBlocks fuel c.heap = some blocks
    ∧ used + free + HDR * blocks = base + size - arenaStart base
  held : ∀ p ∈ c.live, ∃! b, b ∈ bs ∧ b.free = 0 ∧ b.addr + HDR = p
  held_nodup : c.live.Nodup
  apart : ∀ p ∈ c.live, ∀ q ∈ c.live, p ≠ q →
    p + blkSize c.heap.mem (p - HDR) ≤ q
      ∨ q + blkSize c.heap.mem (q - HDR) ≤ p
  headers : ∀ p ∈ c.live, ∀ b ∈ bs,
    p + blkSize c.heap.mem (p - HDR) ≤ b.addr ∨ b.addr + HDR ≤ p

/-- A heap that is well formed is tiled by its blocks, as the arena in memory
spells them. -/
theorem HeapInv.tiled (hbase : base ≠ 0) (hend : base + size < 2 ^ 32)
    (hfuel : size < fuel) (h : HeapInv base size c cs) :
    ∃ bs, Tiled fuel base size c bs := by
  obtain ⟨hheapBase, hheapSize, hholds, hspans⟩ := h
  have hlen := length_le_extent cs
  have hext := hspans.extent_le
  have hlo := le_arenaStart base
  have hpos : 0 < arenaStart base := by omega
  have hchain := hholds.chain
  have hsize : ∀ {p s}, (p, s) ∈ inUse HDR (arenaStart base) cs →
      blkSize c.heap.mem (p - HDR) = s := by
    intro p s hp
    obtain ⟨⟨next, hhead⟩, -⟩ := hchain.headerAt hp
    exact hhead.size
  have hnil : blocksOf c.heap.mem (arenaStart base) cs = [] ↔ cs = [] := by
    cases cs with
    | nil => exact iff_of_true rfl rfl
    | cons x xs =>
        exact iff_of_false (List.cons_ne_nil _ _) (List.cons_ne_nil _ _)
  have hpair := blocksOf_pairwise c.heap.mem cs (arenaStart base)
  refine ⟨blocksOf c.heap.mem (arenaStart base) cs, ?_,
    fun b hb => (mem_blocksOf hchain hspans.aligned hb).2.1,
    fun b hb => (mem_blocksOf hchain hspans.aligned hb).2.2, hpair, ?_, ?_,
    fun hne => ?_, fun p hp => ?_, hspans.nodup, fun p hp q hq hne => ?_,
    fun p hp b hb => ?_⟩
  · rw [hholds.head]
    exact linked_blocksOf hchain hpos
  · by_cases hcs : cs = []
    · exact Or.inl ⟨hnil.mpr hcs, hspans.small hcs⟩
    · rw [← hspans.span hcs]
      exact Or.inr ⟨mt hnil.mp hcs, tiles_blocksOf hchain⟩
  · unfold heapCheck
    have hhi : add32 base size = base + size := add32_eq hend
    rw [hheapBase, hheapSize, hhi, hholds.head]
    exact checkLoop_spec hend hchain hpos hlo
      (fun hne => Nat.le_of_eq (hspans.span hne)) (by omega)
  · have hspan := hspans.span (mt hnil.mpr hne)
    have hsums := extent_eq_sums cs
    obtain ⟨hused, hfree, hblocks⟩ := statistics_spec fuel hholds
      hpos (by omega) (by omega)
    exact ⟨_, _, _, hused, hfree, hblocks, by omega⟩
  · obtain ⟨s, hs⟩ := hspans.inUse hp
    obtain ⟨blk, hblk, hfree, haddr, -⟩ := blocksOf_inUse hchain hs
    refine ⟨blk, ⟨hblk, hfree, haddr⟩, fun blk' hblk' => ?_⟩
    obtain ⟨hmem', -, haddr'⟩ := hblk'
    have hsame : blk'.addr = blk.addr := by omega
    rw [(mem_blocksOf hchain hspans.aligned hmem').1,
      (mem_blocksOf hchain hspans.aligned hblk).1, hsame]
  · obtain ⟨s, hs⟩ := hspans.inUse hp
    obtain ⟨t, ht⟩ := hspans.inUse hq
    rw [hsize hs, hsize ht]
    exact inUse_disjoint hs ht fun heq => hne (Prod.mk.inj heq).1
  · obtain ⟨s, hs⟩ := hspans.inUse hp
    rw [hsize hs]
    exact header_beside hs hb

/-- After every run of calls in which clients keep their promises the
heap tiles its arena. An arena never lies at NULL, which the list takes
for its end. -/
theorem heap_tiling (hbase : base ≠ 0) (hend : base + size < 2 ^ 32)
    (hfuel : size < fuel) (mem : Mem) {ops : List HeapOp}
    (hlegal : AlongM (Client.step fuel) Legal
      { heap := heapInit mem base size, live := [] } ops) :
    ∃ c, execM (Client.step fuel)
        { heap := heapInit mem base size, live := [] } ops = some c
      ∧ ∃ bs, Tiled fuel base size c bs := by
  obtain ⟨c, hrun, cs, hinv⟩ := execM_inv
    (fun c => ∃ cs, HeapInv base size c cs)
    (fun _ _ hc hop => step_inv hfuel _ hc hop)
    ⟨_, heapInit_inv hbase hend mem⟩ hlegal
  exact ⟨c, hrun, hinv.tiled hbase hend hfuel⟩

/-- Two allocations, one stored to and moved, the other given back. -/
theorem heap_tiling_two :
    ∃ c, execM (Client.step 257)
        { heap := heapInit (fun _ => 0) 60 256, live := [] }
        [.alloc 10, .alloc 24, .write 80 7, .realloc 80 60, .free 112]
          = some c
      ∧ ∃ bs, Tiled 257 60 256 c bs :=
  heap_tiling (by decide) (by decide) (by decide) _ (by decide +kernel)

end Thuos.Mm
