/-
How large a block kmalloc, krealloc and kcalloc hand out.

`align_up` rounds in 32 bits, so the last seven sizes round to 0, and any
free block is then large enough. `alloc_sized` and `realloc_sized` say for
every size whether the block returned has it: below the wrap always,
above it only when there is nothing to return. `kcalloc` checks its
product, but hands it to the same rounding; there the loop that zeroes
the block runs on over the rest of the memory.

`kheap_sizes` states this for every heap that a run of kernel calls
reaches. In such a run no `kcalloc` may take the path that overwrites the
heap (`CallocFits`).
-/
import Thuos.Mm.Kheap
import Thuos.Mm.Proofs.HeapPayload

namespace Thuos.Mm

open Machine ByteMem FirstFit Word32

-- ========================================================== what is stated

/-- A block in use with payload `p` has room for `n` bytes. -/
structure Sized (h : Heap) (p n : Nat) : Prop where
  inUse : InUse h p
  room : n ≤ blkSize h.mem (p - HDR)

/-- `kcalloc` of `nmemb` times `size` bytes at `p`: the block has the size
of the exact product, and the loop that zeroes it stays inside. -/
structure Cleared (h : Heap) (p nmemb size : Nat) : Prop where
  sized : Sized h p (nmemb * size)
  inside : ∀ i < mul32 nmemb size,
    p ≤ add32 p i ∧ add32 p i < p + blkSize h.mem (p - HDR)

/-- No block on the list is free. -/
def NoneFree (h : Heap) : Prop :=
  ∃ bs, Linked h.mem h.head bs ∧ ∀ b ∈ bs, b.free = 0

-- ============================================================== the kernel

/-- A call of the kernel's heap, or a byte that the kernel stores. -/
inductive KheapOp
  | kmalloc (n : UInt32)
  | kcalloc (nmemb size : UInt32)
  | krealloc (p : Nat) (n : UInt32)
  | kfree (p : Nat)
  | store (a : Nat) (v : UInt8)

/-- A step of the kernel: as `Client.step`, and `kcalloc`. -/
def Client.kstep (fuel : Nat) (c : Client) : KheapOp → Option Client
  | .kmalloc n =>
      (kmalloc fuel c.heap n.toNat).map fun r =>
        { heap := r.1, live := if r.2 = 0 then c.live else r.2 :: c.live }
  | .kcalloc nmemb size =>
      (kcalloc fuel c.heap nmemb.toNat size.toNat).map fun r =>
        { heap := r.1, live := if r.2 = 0 then c.live else r.2 :: c.live }
  | .krealloc p n =>
      (krealloc fuel c.heap p n.toNat).map fun r =>
        { heap := r.1
          live :=
            if r.2 ≠ 0 then r.2 :: c.live.erase p
            else if n.toNat = 0 then c.live.erase p
            else c.live }
  | .kfree p =>
      (kfree fuel c.heap p).map fun h =>
        { heap := h, live := c.live.erase p }
  | .store a v =>
      some { c with heap := { c.heap with mem := c.heap.mem.set a v } }

/-- The kernel frees and reallocates NULL or a pointer it holds, and
stores bytes inside the payloads it holds. -/
def KLegal (c : Client) : KheapOp → Prop
  | .kmalloc _ => True
  | .kcalloc _ _ => True
  | .krealloc p _ => p = 0 ∨ p ∈ c.live
  | .kfree p => p = 0 ∨ p ∈ c.live
  | .store a _ =>
      ∃ p ∈ c.live, p ≤ a ∧ a < p + blkSize c.heap.mem (p - HDR)

/-- The product is out of the range that wraps when it is rounded, or
there is no block to hand out. -/
def ProductFits (h : Heap) (nmemb size : Nat) : Prop :=
  nmemb * size ≤ 0xFFFFFFF8 ∨ 2 ^ 32 ≤ nmemb * size ∨ NoneFree h

/-- The condition on the steps of a run: only `kcalloc` has one. -/
def CallocFits (c : Client) : KheapOp → Prop
  | .kcalloc nmemb size => ProductFits c.heap nmemb.toNat size.toNat
  | _ => True

-- ====================================================== rounding and room

variable {base size fuel : Nat} {c : Client} {cs : List Cell}

theorem alignUp_wraps {n : Nat} (hn : 0xFFFFFFF8 < n) (hlt : n < 2 ^ 32) :
    alignUp n KH_ALIGN = 0 := by
  rw [alignUp_eq]
  omega

theorem free_blocksOf {m : Mem} {cs : List Cell} :
    ∀ {b : Nat}, Chain m b cs →
      ((∀ blk ∈ blocksOf m b cs, blk.free = 0)
        ↔ ∀ d ∈ cs, d.free = false) := by
  induction cs with
  | nil =>
      intro b _
      exact iff_of_true (fun _ h => absurd h List.not_mem_nil)
        (fun _ h => absurd h List.not_mem_nil)
  | cons d cs ih =>
      intro b h
      have hflag : (readBlock m b).free = if d.free then 1 else 0 := h.1.free
      rw [blocksOf, List.forall_mem_cons, List.forall_mem_cons, ih h.2, hflag]
      cases d.free with
      | true => simp
      | false => simp

theorem noneFree_iff (hbase : base ≠ 0) (h : HeapInv base size c cs) :
    NoneFree c.heap ↔ ∀ d ∈ cs, d.free = false := by
  have hlinked := h.linked hbase
  constructor
  · rintro ⟨bs, hbs, hnone⟩
    rw [linked_unique hbs hlinked] at hnone
    exact (free_blocksOf h.holds.chain).mp hnone
  · intro hnone
    exact ⟨_, hlinked, (free_blocksOf h.holds.chain).mpr hnone⟩

/-- A size that wraps is refused only when no block is free. -/
theorem wrapped_alloc_iff (hbase : base ≠ 0) (h : HeapInv base size c cs) :
    alloc HDR KH_ALIGN 0 (arenaStart base) cs = none ↔ NoneFree c.heap := by
  rw [alloc_eq_none_iff, noneFree_iff hbase h]
  simp

theorem sized_iff (hbase : base ≠ 0) (h : HeapInv base size c cs)
    {p r n : Nat} (hp : (p, r) ∈ inUse HDR (arenaStart base) cs) :
    Sized c.heap p n ↔ n ≤ r := by
  have hsize := h.blkSize_eq hp
  have hlive : p ∈ c.live :=
    (h.spans.live_iff p).mpr (List.mem_map_of_mem hp)
  constructor
  · intro hs
    rw [← hsize]
    exact hs.room
  · intro hn
    refine ⟨h.inUse_of_live hbase hlive, ?_⟩
    rw [hsize]
    exact hn

/-- Payloads are smaller than the arena. -/
theorem HeapInv.payload_le (h : HeapInv base size c cs) {p r : Nat}
    (hp : (p, r) ∈ inUse HDR (arenaStart base) cs) : p ≠ 0 ∧ r ≤ size := by
  have hbounds := inUse_bounds hp
  have hext := h.spans.extent_le
  unfold HDR at hbounds
  dsimp only at hbounds
  unfold HDR at hext
  omega

theorem cellAlloc_eq_zero_iff (h : HeapInv base size c cs) {n : Nat}
    (hn : n ≠ 0) :
    (cellAlloc (arenaStart base) cs n).2 = 0
      ↔ alloc HDR KH_ALIGN (alignUp n KH_ALIGN) (arenaStart base) cs
        = none := by
  unfold cellAlloc
  rw [if_neg hn]
  cases halloc : alloc HDR KH_ALIGN (alignUp n KH_ALIGN)
      (arenaStart base) cs with
  | none => exact iff_of_true rfl rfl
  | some res =>
      have hgrown := h.spans.alloc (dvd_alignUp n) (alloc_spec halloc)
      refine iff_of_false (fun hp => hgrown.zero_notMem ?_) (by simp)
      rw [← show res.2 = 0 from hp]
      exact List.mem_cons_self

/-- The size contract of `heap_alloc`. -/
theorem alloc_sized (hbase : base ≠ 0) (hsize : size < 0xFFFFFFF8)
    (hfuel : size < fuel) (h : HeapInv base size c cs) {n : Nat}
    (hn : n ≠ 0) (hlt : n < 2 ^ 32) :
    ∃ h' p, heapAlloc fuel c.heap n = some (h', p)
      ∧ ((p ≠ 0 → Sized h' p n) ↔ n ≤ 0xFFFFFFF8 ∨ NoneFree c.heap) := by
  obtain ⟨h', hrun, hinv, -⟩ := alloc_inv hfuel h n
  refine ⟨h', _, hrun, ?_⟩
  by_cases hle : n ≤ 0xFFFFFFF8
  · refine iff_of_true (fun hp => ?_) (Or.inl hle)
    obtain ⟨r, hr, hmem⟩ := cellAlloc_inUse _ cs n hp
    exact (sized_iff hbase hinv hmem).mpr (Nat.le_trans (le_alignUp hle) hr)
  · have hwrap := alignUp_wraps (Nat.lt_of_not_le hle) hlt
    have hnull := cellAlloc_eq_zero_iff h hn
    rw [hwrap, wrapped_alloc_iff hbase h] at hnull
    rw [or_iff_right hle, ← hnull]
    constructor
    · intro hsized
      by_contra hp
      obtain ⟨r, -, hmem⟩ := cellAlloc_inUse _ cs n hp
      have hroom := (sized_iff hbase hinv hmem).mp (hsized hp)
      have := (hinv.payload_le hmem).2
      omega
    · intro hp hp'
      exact absurd hp hp'

/-- The size contract of `heap_realloc`: what is held already is never
large enough for a size that wraps, and is returned all the same. -/
theorem realloc_sized (hbase : base ≠ 0) (hsize : size < 0xFFFFFFF8)
    (hfuel : size < fuel) (h : HeapInv base size c cs) {p n : Nat}
    (hn : n ≠ 0) (hlt : n < 2 ^ 32) (hp : p = 0 ∨ p ∈ c.live) :
    ∃ h' q, heapRealloc fuel c.heap p n = some (h', q)
      ∧ ((q ≠ 0 → Sized h' q n)
        ↔ n ≤ 0xFFFFFFF8 ∨ (p = 0 ∧ NoneFree c.heap)) := by
  by_cases hnull : p = 0
  · -- NULL: an allocation
    obtain ⟨h', q, hrun, hiff⟩ := alloc_sized hbase hsize hfuel h hn hlt
    refine ⟨h', q, (if_pos hnull).trans hrun, ?_⟩
    rw [hiff, and_iff_right hnull]
  have hlive := hp.resolve_left hnull
  obtain ⟨s, hs⟩ := h.spans.inUse hlive
  obtain ⟨h', hrun, hinv, -⟩ := realloc_inv hfuel h n hp
  refine ⟨h', _, hrun, ?_⟩
  by_cases hle : n ≤ 0xFFFFFFF8
  · refine iff_of_true (fun hq => ?_) (Or.inl hle)
    obtain ⟨r, hr, hmem⟩ := cellRealloc_inUse hn (Or.inr ⟨s, hs⟩) hq
    exact (sized_iff hbase hinv hmem).mpr (Nat.le_trans (le_alignUp hle) hr)
  · refine iff_of_false (fun hsized => ?_)
      (not_or.mpr ⟨hle, fun hfree => hnull hfree.1⟩)
    have hwrap := alignUp_wraps (Nat.lt_of_not_le hle) hlt
    have hplace : cellRealloc (arenaStart base) cs p n = (cs, p) := by
      unfold cellRealloc
      rw [if_neg hnull, if_neg hn, hwrap, if_pos (Nat.zero_le _)]
    rw [hplace] at hsized hinv
    have hroom := (sized_iff hbase hinv hs).mp (hsized hnull)
    have := (hinv.payload_le hs).2
    omega

-- ============================================================== the product

/-- The division check of `kcalloc` catches every product that is too
large. -/
theorem product_check {m s : Nat} :
    (m ≠ 0 ∧ mul32 m s / m ≠ s) ↔ 2 ^ 32 ≤ m * s := by
  unfold mul32
  constructor
  · rintro ⟨hm, hne⟩
    by_contra hlt
    rw [Nat.mod_eq_of_lt (Nat.lt_of_not_le hlt)] at hne
    exact hne (Nat.mul_div_cancel_left s (Nat.pos_of_ne_zero hm))
  · intro hle
    have hm : m ≠ 0 := by
      rintro rfl
      rw [Nat.zero_mul] at hle
      exact absurd hle (by decide)
    refine ⟨hm, Nat.ne_of_lt ?_⟩
    have hlt : m * s % 2 ^ 32 < m * s :=
      Nat.lt_of_lt_of_le (Nat.mod_lt _ (by decide)) hle
    exact Nat.div_lt_of_lt_mul hlt

/-- The loop of `kcalloc` stays inside a payload that is large enough, and
the heap with it. -/
theorem zeroFill_inside (hend : base + size < 2 ^ 32)
    (h : HeapInv base size c cs) {p r n : Nat}
    (hp : (p, r) ∈ inUse HDR (arenaStart base) cs) (hn : n ≤ r) :
    (∀ i < n, add32 p i = p + i)
      ∧ HeapInv base size { c with
          heap := { c.heap with mem := zeroFill c.heap.mem p n } } cs := by
  have hbounds := inUse_bounds hp
  have hspan := h.spans.span (ne_nil_of_inUse hp)
  dsimp only at hbounds
  have haddr : ∀ i < n, add32 p i = p + i := fun i hi => add32_eq (by omega)
  refine ⟨haddr, h.write hp fun x hx => zeroFill_outside fun i hi => ?_⟩
  rw [haddr i hi]
  omega

/-- The size contract of `kcalloc`, and the heap it leaves where the
product fits. -/
theorem kcalloc_sized (hbase : base ≠ 0) (hend : base + size < 2 ^ 32)
    (hsize : size < 0xFFFFFFF8) (hfuel : size < fuel)
    (h : HeapInv base size c cs) (m s : Nat) :
    ∃ h' p, kcalloc fuel c.heap m s = some (h', p)
      ∧ ((p ≠ 0 → Cleared h' p m s) ↔ ProductFits c.heap m s)
      ∧ (ProductFits c.heap m s → ∃ cs', HeapInv base size
          { heap := h', live := if p = 0 then c.live else p :: c.live }
          cs') := by
  unfold kcalloc ProductFits
  dsimp only
  by_cases hover : 2 ^ 32 ≤ m * s
  · -- refused
    rw [if_pos (product_check.mpr hover)]
    exact ⟨c.heap, 0, rfl, iff_of_true (fun h0 => absurd rfl h0)
      (Or.inr (Or.inl hover)), fun _ => ⟨cs, h⟩⟩
  have htotal : mul32 m s = m * s :=
    Nat.mod_eq_of_lt (Nat.lt_of_not_le hover)
  rw [if_neg (mt product_check.mp hover), htotal]
  by_cases hzero : m * s = 0
  · -- nothing asked for
    refine ⟨c.heap, 0, ?_, iff_of_true (fun h0 => absurd rfl h0)
      (Or.inl (by omega)), fun _ => ⟨cs, h⟩⟩
    unfold heapAlloc
    rw [if_pos hzero]
    rfl
  obtain ⟨h₁, hrun, hinv, -⟩ := alloc_inv hfuel h (m * s)
  obtain ⟨h₁', p, hrun', hsized⟩ := alloc_sized hbase hsize hfuel h hzero
    (Nat.lt_of_not_le hover)
  have hblock := cellAlloc_inUse (arenaStart base) cs (m * s)
  obtain ⟨rfl, rfl⟩ :=
    Prod.mk.inj (Option.some.inj (hrun.symm.trans hrun'))
  generalize (cellAlloc (arenaStart base) cs (m * s)).2 = p at *
  generalize (cellAlloc (arenaStart base) cs (m * s)).1 = cs' at *
  rw [or_iff_right hover, hrun, Option.map_some]
  dsimp only
  by_cases hp : p = 0
  · -- no room
    rw [if_neg (not_not.mpr hp)]
    exact ⟨h₁, p, rfl, iff_of_true (fun h0 => absurd hp h0)
      (hsized.mp fun h0 => absurd hp h0), fun _ => ⟨cs', hinv⟩⟩
  obtain ⟨r, -, hmem⟩ := hblock hp
  rw [if_pos hp]
  refine ⟨_, p, rfl, ?_⟩
  by_cases hfits : m * s ≤ 0xFFFFFFF8 ∨ NoneFree c.heap
  · have hroom := (sized_iff hbase hinv hmem).mp (hsized.mpr hfits hp)
    obtain ⟨haddr, hinv'⟩ := zeroFill_inside hend hinv hmem hroom
    refine ⟨iff_of_true (fun _ => ⟨(sized_iff hbase hinv' hmem).mpr hroom,
      fun i hi => ?_⟩) hfits, fun _ => ⟨cs', hinv'⟩⟩
    have hpayload := hinv'.blkSize_eq hmem
    dsimp only at hpayload
    rw [htotal] at hi
    rw [haddr i hi, hpayload]
    omega
  · -- the loop comes round to the block's own header
    refine ⟨iff_of_false (fun hcleared => ?_) hfits,
      fun hfits' => absurd hfits' hfits⟩
    have hbounds := inUse_bounds hmem
    have hspan := hinv.spans.span (ne_nil_of_inUse hmem)
    unfold HDR at hbounds
    dsimp only at hbounds
    have hinside := ((hcleared hp).inside (2 ^ 32 - 16) (by omega)).1
    unfold add32 at hinside
    omega

-- ============================================================== the result

variable {arena : Nat}

/-- The step lemma: a step of the kernel is one of the client, or a
`kcalloc` that fits. -/
theorem kstep_inv (harena : arena ≠ 0)
    (hend : arena + KHEAP_SIZE < 2 ^ 32) (hfuel : KHEAP_SIZE < fuel)
    {op : KheapOp} (h : ∃ cs, HeapInv arena KHEAP_SIZE c cs)
    (hlegal : KLegal c op) (hfits : CallocFits c op) :
    ∃ c', c.kstep fuel op = some c'
      ∧ ∃ cs, HeapInv arena KHEAP_SIZE c' cs := by
  cases op with
  | kmalloc n => exact step_inv hfuel (.alloc n) h hlegal
  | kcalloc nmemb size =>
      obtain ⟨cs, h⟩ := h
      obtain ⟨h', p, hrun, -, hinv⟩ := kcalloc_sized harena hend (by decide)
        hfuel h nmemb.toNat size.toNat
      refine ⟨_, ?_, hinv hfits⟩
      unfold Client.kstep
      dsimp only
      rw [hrun]
      rfl
  | krealloc p n => exact step_inv hfuel (.realloc p n) h hlegal
  | kfree p => exact step_inv hfuel (.free p) h hlegal
  | store a v => exact step_inv hfuel (.write a v) h hlegal

/-- After every run of kernel calls whose `kcalloc` products fit: a block
that `kmalloc` or `krealloc` returns has the size asked for exactly when
the size does not wrap, or there was nothing to return; a block that
`kcalloc` returns has the size of the product, and is zeroed inside,
exactly when the product fits. -/
theorem kheap_sizes (harena : arena ≠ 0)
    (hend : arena + KHEAP_SIZE < 2 ^ 32) (hfuel : KHEAP_SIZE < fuel)
    (mem : Mem) {ops : List KheapOp}
    (hlegal : AlongM (Client.kstep fuel)
      (fun c op => KLegal c op ∧ CallocFits c op)
      { heap := kheapInit mem arena, live := [] } ops) :
    ∃ c, execM (Client.kstep fuel)
        { heap := kheapInit mem arena, live := [] } ops = some c
      ∧ (∀ n : UInt32, 1 ≤ n.toNat →
        ∃ h' p, kmalloc fuel c.heap n.toNat = some (h', p)
          ∧ ((p ≠ 0 → Sized h' p n.toNat)
            ↔ n.toNat ≤ 0xFFFFFFF8 ∨ NoneFree c.heap))
      ∧ (∀ p (n : UInt32), p = 0 ∨ p ∈ c.live → 1 ≤ n.toNat →
        ∃ h' q, krealloc fuel c.heap p n.toNat = some (h', q)
          ∧ ((q ≠ 0 → Sized h' q n.toNat)
            ↔ n.toNat ≤ 0xFFFFFFF8 ∨ (p = 0 ∧ NoneFree c.heap)))
      ∧ ∀ nmemb size : UInt32,
        ∃ h' p, kcalloc fuel c.heap nmemb.toNat size.toNat = some (h', p)
          ∧ ((p ≠ 0 → Cleared h' p nmemb.toNat size.toNat)
            ↔ ProductFits c.heap nmemb.toNat size.toNat) := by
  have hsize : KHEAP_SIZE < 0xFFFFFFF8 := by decide
  obtain ⟨c, hrun, cs, h⟩ := execM_inv
    (fun c => ∃ cs, HeapInv arena KHEAP_SIZE c cs)
    (fun _ _ hc hop => kstep_inv harena hend hfuel hc hop.1 hop.2)
    ⟨_, heapInit_inv harena hend mem⟩ hlegal
  refine ⟨c, hrun, fun n hn => ?_, fun p n hp hn => ?_,
    fun nmemb size => ?_⟩
  · exact alloc_sized harena hsize hfuel h (by omega) n.toNat_lt
  · exact realloc_sized harena hsize hfuel h (by omega) n.toNat_lt hp
  · obtain ⟨h', p, hcalloc, hiff, -⟩ :=
      kcalloc_sized harena hend hsize hfuel h nmemb.toNat size.toNat
    exact ⟨h', p, hcalloc, hiff⟩

/-- The arena at 2 MiB, after an array of three and a block. -/
theorem kheap_sizes_two :
    ∃ c, execM (Client.kstep (2 ^ 20 + 1))
        { heap := kheapInit (fun _ => 0) 0x200000, live := [] }
        [.kcalloc 3 5, .kmalloc 7] = some c
      ∧ (∀ n : UInt32, 1 ≤ n.toNat →
        ∃ h' p, kmalloc (2 ^ 20 + 1) c.heap n.toNat = some (h', p)
          ∧ ((p ≠ 0 → Sized h' p n.toNat)
            ↔ n.toNat ≤ 0xFFFFFFF8 ∨ NoneFree c.heap))
      ∧ (∀ p (n : UInt32), p = 0 ∨ p ∈ c.live → 1 ≤ n.toNat →
        ∃ h' q, krealloc (2 ^ 20 + 1) c.heap p n.toNat = some (h', q)
          ∧ ((q ≠ 0 → Sized h' q n.toNat)
            ↔ n.toNat ≤ 0xFFFFFFF8 ∨ (p = 0 ∧ NoneFree c.heap)))
      ∧ ∀ nmemb size : UInt32, ∃ h' p,
        kcalloc (2 ^ 20 + 1) c.heap nmemb.toNat size.toNat = some (h', p)
          ∧ ((p ≠ 0 → Cleared h' p nmemb.toNat size.toNat)
            ↔ ProductFits c.heap nmemb.toNat size.toNat) :=
  kheap_sizes (by decide) (by decide) (by decide) _
    ⟨⟨trivial, Or.inl (by decide)⟩,
      fun _ _ => ⟨⟨trivial, trivial⟩, fun _ _ => trivial⟩⟩

/-- On a new heap `kmalloc(0xFFFFFFFF)` returns a block of no bytes. -/
theorem kmalloc_wraps :
    ∃ h' p, kmalloc (2 ^ 20 + 1) (kheapInit (fun _ => 0) 0x200000) 0xFFFFFFFF
        = some (h', p)
      ∧ p ≠ 0 ∧ blkSize h'.mem (p - HDR) = 0
      ∧ ¬ Sized h' p 0xFFFFFFFF := by
  have hsize : ∃ h', kmalloc (2 ^ 20 + 1)
      (kheapInit (fun _ => 0) 0x200000) 0xFFFFFFFF = some (h', 0x200010)
        ∧ blkSize h'.mem 0x200000 = 0 := ⟨_, rfl, by decide +kernel⟩
  obtain ⟨h', hrun, hzero⟩ := hsize
  refine ⟨h', 0x200010, hrun, by decide, hzero, fun hsized => ?_⟩
  have hroom : 0xFFFFFFFF ≤ blkSize h'.mem 0x200000 := hsized.room
  rw [hzero] at hroom
  exact absurd hroom (by decide)

end Thuos.Mm
