/-
The heap remembers nothing but what is in use.

Two runs from `heap_init` that end with the same payloads in use end with
the same block list, and no later call tells them apart
(`heap_history`). The invariant that carries this is `Reached`: on top
of `HeapInv`, no two neighbouring blocks are both free, which every
operation keeps on the cells (`reshapes_cellStep`), and the cells never
lose or gain a byte. Such cells are determined by the payloads in use
(the library's `eq_of_inUse_eq`), and what a call does to memory and
what it returns is a function of the cells (`step_cells`).
-/
import Thuos.Mm.Proofs.HeapTiling

namespace Thuos.Mm

open Machine ByteMem FirstFit Word32

-- ===================================================== shape of the cells

/-- From `cs` to `cs'` the extent is kept, and so is separation. -/
structure Reshapes (cs cs' : List Cell) : Prop where
  extent_eq : extent HDR cs' = extent HDR cs
  separated : Separated cs → Separated cs'

theorem Reshapes.refl (cs : List Cell) : Reshapes cs cs := ⟨rfl, id⟩

theorem Reshapes.trans {cs cs' cs'' : List Cell} (h : Reshapes cs cs')
    (h' : Reshapes cs' cs'') : Reshapes cs cs'' :=
  ⟨h'.extent_eq.trans h.extent_eq, h'.separated ∘ h.separated⟩

theorem reshapes_alloc {n a p : Nat} {cs cs' : List Cell}
    (h : alloc HDR KH_ALIGN n a cs = some (cs', p)) : Reshapes cs cs' :=
  ⟨(alloc_spec h).extent_eq, separated_alloc h⟩

theorem reshapes_cellAlloc (lo : Nat) (cs : List Cell) (n : Nat) :
    Reshapes cs (cellAlloc lo cs n).1 := by
  unfold cellAlloc
  split
  · exact Reshapes.refl cs
  · cases h : alloc HDR KH_ALIGN (alignUp n KH_ALIGN) lo cs with
    | none => exact Reshapes.refl cs
    | some r => exact reshapes_alloc h

/-- A release may leave free neighbours; the pass after it merges them. -/
theorem reshapes_cellFree (lo : Nat) (cs : List Cell) (p : Nat) :
    Reshapes cs (cellFree lo cs p) := by
  unfold cellFree
  split
  · exact Reshapes.refl cs
  · exact ⟨(extent_coalesce _).trans (extent_release ..),
      fun _ => separated_coalesce _⟩

theorem reshapes_cellRealloc (lo : Nat) (cs : List Cell) (p n : Nat) :
    Reshapes cs (cellRealloc lo cs p n).1 := by
  unfold cellRealloc
  split
  · exact reshapes_cellAlloc lo cs n
  split
  · exact reshapes_cellFree lo cs p
  split
  · exact Reshapes.refl cs
  cases h : alloc HDR KH_ALIGN (alignUp n KH_ALIGN) lo cs with
  | none => exact Reshapes.refl cs
  | some r => exact (reshapes_alloc h).trans (reshapes_cellFree lo r.1 p)

/-- No operation moves the end of the heap or leaves two free
neighbours. -/
theorem reshapes_cellStep (lo : Nat) (cs : List Cell) (op : HeapOp) :
    Reshapes cs (cellStep lo cs op).1 := by
  cases op with
  | alloc n => exact reshapes_cellAlloc lo cs n.toNat
  | free p => exact reshapes_cellFree lo cs p
  | realloc p n => exact reshapes_cellRealloc lo cs p n.toNat
  | write a v => exact Reshapes.refl cs

-- ====================================================== reachable heaps

variable {base size fuel : Nat} {c c' : Client} {cs cs' : List Cell}

/-- What holds of a heap that a run has reached. -/
structure Reached (base size : Nat) (c : Client) (cs : List Cell) :
    Prop where
  inv : HeapInv base size c cs
  reshapes : Reshapes (initCells base size) cs

theorem Reached.separated (h : Reached base size c cs) : Separated cs :=
  h.reshapes.separated (separated_initCells base size)

/-- The step lemma. -/
theorem Reached.step (hfuel : size < fuel) {op : HeapOp}
    (h : Reached base size c cs) (hlegal : Legal c op) :
    ∃ c', c.step fuel op = some c'
      ∧ c.result fuel op = some (cellStep (arenaStart base) cs op).2
      ∧ Reached base size c' (cellStep (arenaStart base) cs op).1 := by
  obtain ⟨c', hstep, hresult, hinv⟩ := step_cells hfuel h.inv hlegal
  exact ⟨c', hstep, hresult, hinv,
    h.reshapes.trans (reshapes_cellStep _ cs op)⟩

/-- The run lemma. -/
theorem reached_run (hbase : base ≠ 0) (hend : base + size < 2 ^ 32)
    (hfuel : size < fuel) (mem : Mem) {ops : List HeapOp}
    (hlegal : AlongM (Client.step fuel) Legal
      { heap := heapInit mem base size, live := [] } ops) :
    ∃ c, execM (Client.step fuel)
        { heap := heapInit mem base size, live := [] } ops = some c
      ∧ ∃ cs, Reached base size c cs := by
  refine execM_inv (fun c => ∃ cs, Reached base size c cs)
    (fun c op hc hop => ?_)
    ⟨_, heapInit_inv hbase hend mem, Reshapes.refl _⟩ hlegal
  obtain ⟨cs, hc⟩ := hc
  obtain ⟨c', hstep, -, hc'⟩ := hc.step hfuel hop
  exact ⟨c', hstep, _, hc'⟩

/-- Reachable heaps with the same payloads in use have the same cells. -/
theorem Reached.cells_eq (h : Reached base size c cs)
    (h' : Reached base size c' cs')
    (hsame : ∀ q, q ∈ inUse HDR (arenaStart base) cs
      ↔ q ∈ inUse HDR (arenaStart base) cs') : cs = cs' :=
  eq_of_inUse_eq (by decide) h.separated h'.separated
    (h.reshapes.extent_eq.trans h'.reshapes.extent_eq.symm)
    (inUse_ext (by decide) hsame)

-- ============================================================ as it is read

/-- The blocks in use on a list: payload address and size. -/
def usedBlocks (bs : List Block) : List (Nat × Nat) :=
  (bs.filter fun b => b.free = 0).map fun b => (b.addr + HDR, b.size)

/-- A list in memory is reached in one way only. -/
theorem linked_unique {m : Mem} {bs : List Block} :
    ∀ {bs' : List Block} {p : Nat}, Linked m p bs → Linked m p bs' →
      bs = bs' := by
  induction bs with
  | nil =>
      intro bs' p h h'
      cases bs' with
      | nil => rfl
      | cons b' bs' => exact absurd h h'.1
  | cons b bs ih =>
      intro bs' p h h'
      cases bs' with
      | nil => exact absurd h' h.1
      | cons b' bs' =>
          obtain ⟨-, hb, hrest⟩ := h
          obtain ⟨-, hb', hrest'⟩ := h'
          subst hb hb'
          rw [ih hrest hrest']

theorem usedBlocks_blocksOf {m : Mem} {cs : List Cell} :
    ∀ {b : Nat}, Chain m b cs →
      usedBlocks (blocksOf m b cs) = inUse HDR b cs := by
  induction cs with
  | nil => intro b _; rfl
  | cons c cs ih =>
      intro b h
      have hrest := ih h.2
      unfold usedBlocks at hrest ⊢
      have hflag : (readBlock m b).free = if c.free then 1 else 0 := h.1.free
      have hsize : (readBlock m b).size = c.size := h.1.size
      rw [blocksOf, inUse, List.filter_cons, hflag]
      cases c.free with
      | true => exact hrest
      | false =>
          rw [if_pos (by decide), if_neg Bool.false_ne_true, List.map_cons,
            hrest, hsize]
          rfl

/-- The headers of a chain say nothing but its cells. -/
theorem blocksOf_eq {m m' : Mem} {cs : List Cell} :
    ∀ {b : Nat}, Chain m b cs → Chain m' b cs →
      blocksOf m b cs = blocksOf m' b cs := by
  induction cs with
  | nil => intro b _ _; rfl
  | cons c cs ih =>
      intro b h h'
      have hfirst : readBlock m b = readBlock m' b := by
        unfold readBlock
        rw [h.1.size, h.1.next, h.1.free, h.1.magic, h'.1.size, h'.1.next,
          h'.1.free, h'.1.magic]
      rw [blocksOf, blocksOf, hfirst, ih h.2 h'.2]

/-- The block list of a heap, as it is read. -/
theorem HeapInv.linked (hbase : base ≠ 0) (h : HeapInv base size c cs) :
    Linked c.heap.mem c.heap.head
      (blocksOf c.heap.mem (arenaStart base) cs) := by
  have hlo := le_arenaStart base
  rw [h.holds.head]
  exact linked_blocksOf h.holds.chain (by omega)

-- =================================================== the same from here on

/-- The pointers returned along a run. -/
def Client.results (fuel : Nat) : Client → List HeapOp → Option (List Nat)
  | _, [] => some []
  | c, op :: ops =>
      (c.result fuel op).bind fun p =>
        (c.step fuel op).bind fun c =>
          (Client.results fuel c ops).map fun ps => p :: ps

/-- The two heaps read the same: block list, `heap_free_bytes` and
`heap_blocks`. -/
structure ReadsAlike (fuel : Nat) (c c' : Client) : Prop where
  blocks : ∃ bs, Linked c.heap.mem c.heap.head bs
    ∧ Linked c'.heap.mem c'.heap.head bs
  free_bytes : ∃ n, heapFreeBytes fuel c.heap = some n
    ∧ heapFreeBytes fuel c'.heap = some n
  count : ∃ n, heapBlocks fuel c.heap = some n
    ∧ heapBlocks fuel c'.heap = some n

theorem readsAlike (hbase : base ≠ 0) (hend : base + size < 2 ^ 32)
    (hfuel : size < fuel) (h : HeapInv base size c cs)
    (h' : HeapInv base size c' cs) : ReadsAlike fuel c c' := by
  have hlo := le_arenaStart base
  have hext := h.spans.extent_le
  have hlen := h.length_lt hfuel
  obtain ⟨-, hfree, hblocks⟩ :=
    statistics_spec fuel h.holds (by omega) hlen (by omega)
  obtain ⟨-, hfree', hblocks'⟩ :=
    statistics_spec fuel h'.holds (by omega) hlen (by omega)
  refine ⟨⟨_, h.linked hbase, ?_⟩, ⟨_, hfree, hfree'⟩,
    ⟨_, hblocks, hblocks'⟩⟩
  rw [blocksOf_eq h.holds.chain h'.holds.chain]
  exact h'.linked hbase

/-- Clients of heaps with the same cells may do the same. -/
theorem legal_of_cells (h : HeapInv base size c cs)
    (h' : HeapInv base size c' cs) {op : HeapOp} (hop : Legal c op) :
    Legal c' op := by
  have hlive : ∀ p, p ∈ c.live ↔ p ∈ c'.live := fun p =>
    (h.spans.live_iff p).trans (h'.spans.live_iff p).symm
  cases op with
  | alloc n => trivial
  | free p => exact hop.imp id (hlive p).mp
  | realloc p n => exact hop.imp id (hlive p).mp
  | write a v =>
      obtain ⟨p, hp, hlo, hhi⟩ := hop
      obtain ⟨s, hs⟩ := h.spans.inUse hp
      obtain ⟨⟨next, hhead⟩, -⟩ := h.holds.chain.headerAt hs
      obtain ⟨⟨next', hhead'⟩, -⟩ := h'.holds.chain.headerAt hs
      refine ⟨p, (hlive p).mp hp, hlo, ?_⟩
      rw [hhead'.size]
      rw [hhead.size] at hhi
      exact hhi

/-- Whatever clients of `c` may do, clients of `c'` may do as well, with
the same pointers returned, and the heaps read the same afterwards. -/
def SameFromHere (fuel : Nat) (c c' : Client) : Prop :=
  ∀ ops, AlongM (Client.step fuel) Legal c ops →
    AlongM (Client.step fuel) Legal c' ops
      ∧ ∃ ps d d', Client.results fuel c ops = some ps
        ∧ Client.results fuel c' ops = some ps
        ∧ execM (Client.step fuel) c ops = some d
        ∧ execM (Client.step fuel) c' ops = some d'
        ∧ ReadsAlike fuel d d'

/-- No run tells two heaps with the same cells apart. -/
theorem same_from_here (hbase : base ≠ 0) (hend : base + size < 2 ^ 32)
    (hfuel : size < fuel) (h : HeapInv base size c cs)
    (h' : HeapInv base size c' cs) : SameFromHere fuel c c' := by
  intro ops hlegal
  induction ops generalizing c c' cs with
  | nil =>
      exact ⟨trivial, [], c, c', rfl, rfl, rfl, rfl,
        readsAlike hbase hend hfuel h h'⟩
  | cons op ops ih =>
      obtain ⟨hop, hrest⟩ := hlegal
      have hop' := legal_of_cells h h' hop
      obtain ⟨d, hstep, hresult, hd⟩ := step_cells hfuel h hop
      obtain ⟨d', hstep', hresult', hd'⟩ := step_cells hfuel h' hop'
      obtain ⟨hlater, ps, e, e', hps, hps', he, he', halike⟩ :=
        ih hd hd' (hrest d hstep)
      refine ⟨⟨hop', fun t ht => ?_⟩,
        (cellStep (arenaStart base) cs op).2 :: ps, e, e',
        ?_, ?_, ?_, ?_, halike⟩
      · rw [← Option.some.inj (hstep'.symm.trans ht)]
        exact hlater
      · rw [Client.results, hresult, Option.bind_some, hstep,
          Option.bind_some, hps]
        rfl
      · rw [Client.results, hresult', Option.bind_some, hstep',
          Option.bind_some, hps']
        rfl
      · rw [execM_cons, hstep, Option.bind_some, he]
      · rw [execM_cons, hstep', Option.bind_some, he']

-- ============================================================== the result

/-- With nothing in use the heap is what `heap_init` made. -/
theorem Reached.cells_of_unused (h : Reached base size c cs)
    (hlive : c.live = []) : cs = initCells base size := by
  have hnone : inUse HDR (arenaStart base) cs = [] := by
    refine List.eq_nil_iff_forall_not_mem.mpr fun q hq => ?_
    have := (h.inv.spans.live_iff q.1).mpr (List.mem_map_of_mem hq)
    rw [hlive] at this
    exact absurd this List.not_mem_nil
  refine eq_of_inUse_eq (a := arenaStart base) (by decide) h.separated
    (separated_initCells base size) h.reshapes.extent_eq ?_
  rw [hnone, inUse_initCells]

/-- A new heap has at most one block, and it is free. -/
theorem blocksOf_initCells {m : Mem}
    (h : Chain m (arenaStart base) (initCells base size)) :
    (blocksOf m (arenaStart base) (initCells base size)).length ≤ 1
      ∧ ∀ b ∈ blocksOf m (arenaStart base) (initCells base size),
        b.free = 1 := by
  unfold initCells at h ⊢
  by_cases hsmall : size < arenaStart base - base + HDR + KH_ALIGN
  · rw [if_pos hsmall]
    exact ⟨Nat.zero_le 1, fun b hb => absurd hb List.not_mem_nil⟩
  · rw [if_neg hsmall] at h ⊢
    refine ⟨Nat.le_refl 1, fun b hb => ?_⟩
    obtain rfl := List.mem_singleton.mp hb
    exact h.1.free

/-- The heap after two runs of calls, in which clients keep their
promises, depends on the payloads in use alone: where these agree the
block lists are equal and stay so, whatever is called next. When all has
been freed the list is the one `heap_init` made. -/
theorem heap_history (hbase : base ≠ 0) (hend : base + size < 2 ^ 32)
    (hfuel : size < fuel) (mem mem' : Mem) {ops ops' : List HeapOp}
    (hlegal : AlongM (Client.step fuel) Legal
      { heap := heapInit mem base size, live := [] } ops)
    (hlegal' : AlongM (Client.step fuel) Legal
      { heap := heapInit mem' base size, live := [] } ops') :
    ∃ c c' bs bs', execM (Client.step fuel)
        { heap := heapInit mem base size, live := [] } ops = some c
      ∧ execM (Client.step fuel)
        { heap := heapInit mem' base size, live := [] } ops' = some c'
      ∧ Linked c.heap.mem c.heap.head bs
      ∧ Linked c'.heap.mem c'.heap.head bs'
      ∧ ((∀ q, q ∈ usedBlocks bs ↔ q ∈ usedBlocks bs') →
        bs = bs' ∧ ReadsAlike fuel c c' ∧ SameFromHere fuel c c')
      ∧ (c.live = [] →
        Linked (heapInit mem base size).mem (heapInit mem base size).head bs
          ∧ bs.length ≤ 1 ∧ ∀ b ∈ bs, b.free = 1) := by
  obtain ⟨c, hrun, cs, h⟩ := reached_run hbase hend hfuel mem hlegal
  obtain ⟨c', hrun', cs', h'⟩ := reached_run hbase hend hfuel mem' hlegal'
  refine ⟨c, c', _, _, hrun, hrun', h.inv.linked hbase,
    h'.inv.linked hbase, fun hsame => ?_, fun hlive => ?_⟩
  · rw [usedBlocks_blocksOf h.inv.holds.chain,
      usedBlocks_blocksOf h'.inv.holds.chain] at hsame
    obtain rfl := h.cells_eq h' hsame
    exact ⟨blocksOf_eq h.inv.holds.chain h'.inv.holds.chain,
      readsAlike hbase hend hfuel h.inv h'.inv,
      same_from_here hbase hend hfuel h.inv h'.inv⟩
  · obtain rfl := h.cells_of_unused hlive
    have hinit := heapInit_inv hbase hend mem
    refine ⟨?_, blocksOf_initCells h.inv.holds.chain⟩
    rw [blocksOf_eq h.inv.holds.chain hinit.holds.chain]
    exact hinit.linked hbase

/-- Two blocks freed in either order, one of them moved before. -/
theorem heap_history_two :
    ∃ c c' bs bs', execM (Client.step 257)
        { heap := heapInit (fun _ => 0) 64 256, live := [] }
        [.alloc 10, .alloc 24, .free 80, .free 112] = some c
      ∧ execM (Client.step 257)
        { heap := heapInit (fun _ => 1) 64 256, live := [] }
        [.alloc 10, .alloc 24, .realloc 80 60, .free 152, .free 112]
          = some c'
      ∧ Linked c.heap.mem c.heap.head bs
      ∧ Linked c'.heap.mem c'.heap.head bs'
      ∧ ((∀ q, q ∈ usedBlocks bs ↔ q ∈ usedBlocks bs') →
        bs = bs' ∧ ReadsAlike 257 c c' ∧ SameFromHere 257 c c')
      ∧ (c.live = [] →
        Linked (heapInit (fun _ => 0) 64 256).mem
            (heapInit (fun _ => 0) 64 256).head bs
          ∧ bs.length ≤ 1 ∧ ∀ b ∈ bs, b.free = 1) :=
  heap_history (by decide) (by decide) (by decide) _ _ (by decide +kernel)
    (by decide +kernel)

end Thuos.Mm
