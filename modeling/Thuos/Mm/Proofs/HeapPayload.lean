/-
Calls on the heap keep what clients have stored.

Headers and payloads share one memory, so a call could overwrite either.
It writes managed bytes only (`Keeps`), and no byte of a payload in use
is managed (`KeepsPayloads.of_keeps`). `heap_realloc` moves the bytes of
its payload along (`realloc_moved`). `payload_preserved` states both for
every heap that a run reaches, payloads being what the headers in memory
say they are.
-/
import Thuos.Mm.Proofs.HeapHistory

namespace Thuos.Mm

open Machine ByteMem FirstFit Word32

variable {base size fuel : Nat} {c : Client} {cs : List Cell}

/-- Every byte of the payloads of `ps` is kept from `h` to `h'`. -/
def KeepsPayloads (ps : List Nat) (h h' : Heap) : Prop :=
  ∀ p ∈ ps, ∀ x, p ≤ x → x < p + blkSize h.mem (p - HDR) →
    h'.mem x = h.mem x

/-- The payload `p` is that of a used block on the list of `h`. -/
def InUse (h : Heap) (p : Nat) : Prop :=
  ∃ bs, Linked h.mem h.head bs ∧ p ∈ (usedBlocks bs).map Prod.fst

/-- The payload `p` is that of no used block on the list of `h`. -/
def NotInUse (h : Heap) (p : Nat) : Prop :=
  ∃ bs, Linked h.mem h.head bs ∧ p ∉ (usedBlocks bs).map Prod.fst

/-- What `heap_realloc` of `p` to `n` bytes promises about the bytes
stored: `q` holds them, as far as they fit, and has room for `n`; or the
heap is as before. -/
structure Moved (h : Heap) (p n : Nat) (h' : Heap) (q : Nat) : Prop where
  copied : q ≠ 0 → ∀ i < min (blkSize h.mem (p - HDR)) n,
    h'.mem (q + i) = h.mem (p + i)
  room : q ≠ 0 → n ≤ blkSize h'.mem (q - HDR)
  gone : q ≠ 0 → q ≠ p → NotInUse h' p
  failed : q = 0 → h' = h ∧ InUse h' p

/-- The size of a pointer held, as its header says. -/
theorem HeapInv.blkSize_eq (h : HeapInv base size c cs) {p s : Nat}
    (hp : (p, s) ∈ inUse HDR (arenaStart base) cs) :
    blkSize c.heap.mem (p - HDR) = s := by
  obtain ⟨⟨next, hhead⟩, -⟩ := h.holds.chain.headerAt hp
  exact hhead.size

theorem KeepsPayloads.of_keeps (h : HeapInv base size c cs) {h' : Heap}
    (hkeep : Keeps (arenaStart base) cs c.heap h') :
    KeepsPayloads c.live c.heap h' := by
  intro p hp x hlo hhi
  obtain ⟨s, hs⟩ := h.spans.inUse hp
  rw [h.blkSize_eq hs] at hhi
  exact hkeep.mem x (not_managed_of_inUse hs hlo hhi)

theorem KeepsPayloads.mono {ps qs : List Nat} {h h' : Heap}
    (hsub : qs ⊆ ps) (hkeep : KeepsPayloads ps h h') :
    KeepsPayloads qs h h' :=
  fun p hp => hkeep p (hsub hp)

theorem HeapInv.inUse_of_live (hbase : base ≠ 0)
    (h : HeapInv base size c cs) {p : Nat} (hp : p ∈ c.live) :
    InUse c.heap p := by
  refine ⟨_, h.linked hbase, ?_⟩
  rw [usedBlocks_blocksOf h.holds.chain]
  exact (h.spans.live_iff p).mp hp

theorem HeapInv.notInUse_of_not_live (hbase : base ≠ 0)
    (h : HeapInv base size c cs) {p : Nat} (hp : p ∉ c.live) :
    NotInUse c.heap p := by
  refine ⟨_, h.linked hbase, ?_⟩
  rw [usedBlocks_blocksOf h.holds.chain]
  exact mt (h.spans.live_iff p).mpr hp

/-- Rounding up does not wrap below the last eight sizes. -/
theorem le_alignUp {n : Nat} (hn : n ≤ 0xFFFFFFF8) :
    n ≤ alignUp n KH_ALIGN := by
  rw [alignUp_eq, Nat.mod_eq_of_lt (by omega)]
  omega

/-- `heap_realloc` of a pointer held moves its bytes along. -/
theorem realloc_moved (hbase : base ≠ 0) (hfuel : size < fuel)
    (h : HeapInv base size c cs) {p n : Nat} (hp : p ∈ c.live) (hn : n ≠ 0)
    (hle : n ≤ 0xFFFFFFF8) :
    ∃ h' q, heapRealloc fuel c.heap p n = some (h', q)
      ∧ Moved c.heap p n h' q := by
  obtain ⟨s, hs⟩ := h.spans.inUse hp
  have hext := h.spans.extent_le
  have hround := le_alignUp hle
  obtain ⟨h', hrun, hinv, -⟩ := realloc_inv hfuel h n (Or.inr hp)
  have hroom := cellRealloc_inUse hn (Or.inr ⟨s, hs⟩)
  generalize (cellRealloc (arenaStart base) cs p n).2 = q at *
  generalize (cellRealloc (arenaStart base) cs p n).1 = cs' at *
  refine ⟨h', q, hrun, fun hq => ?_, fun hq => ?_, fun hq hqp => ?_,
    fun hq => ?_⟩
  · -- the bytes: in place, or copied
    rw [h.blkSize_eq hs]
    intro i hi
    rcases heapRealloc_spec fuel h.holds (by omega) hs hn with
      ⟨-, hsame⟩ | ⟨-, -, hfail⟩ | ⟨-, r, h'', -, -, hmove, -, -, hcopied⟩
    · obtain ⟨rfl, rfl⟩ := Prod.mk.inj (Option.some.inj (hrun.symm.trans hsame))
      rfl
    · exact absurd (Prod.mk.inj (Option.some.inj (hrun.symm.trans hfail))).2 hq
    · obtain ⟨rfl, rfl⟩ := Prod.mk.inj (Option.some.inj (hrun.symm.trans hmove))
      exact hcopied i (by omega)
  · obtain ⟨r, hr, hmem⟩ := hroom hq
    have hsize : blkSize h'.mem (q - HDR) = r := hinv.blkSize_eq hmem
    omega
  · rw [if_pos hq] at hinv
    refine hinv.notInUse_of_not_live hbase fun hlive => ?_
    rcases List.mem_cons.mp hlive with heq | hlive
    · exact hqp heq.symm
    · exact List.Nodup.not_mem_erase h.spans.nodup hlive
  · rw [if_neg (not_not.mpr hq), if_neg hn] at hinv
    refine ⟨?_, hinv.inUse_of_live hbase hp⟩
    rcases heapRealloc_spec fuel h.holds (by omega) hs hn with
      ⟨-, hsame⟩ | ⟨-, -, hfail⟩ | ⟨cs'', r, h'', -, halloc, hmove, -, -, -⟩
    · exact (Prod.mk.inj (Option.some.inj (hrun.symm.trans hsame))).1
    · exact (Prod.mk.inj (Option.some.inj (hrun.symm.trans hfail))).1
    · have hgrown := h.spans.alloc (dvd_alignUp n) (alloc_spec halloc)
      have hqr := (Prod.mk.inj (Option.some.inj (hrun.symm.trans hmove))).2
      rw [← hqr, hq] at hgrown
      exact absurd List.mem_cons_self hgrown.zero_notMem

/-- Whatever clients have stored in the payloads they hold, a call keeps
it, and `heap_realloc` takes it along. -/
theorem payload_preserved (hbase : base ≠ 0) (hend : base + size < 2 ^ 32)
    (hfuel : size < fuel) (mem : Mem) {ops : List HeapOp}
    (hlegal : AlongM (Client.step fuel) Legal
      { heap := heapInit mem base size, live := [] } ops) :
    ∃ c, execM (Client.step fuel)
        { heap := heapInit mem base size, live := [] } ops = some c
      ∧ (∀ n : UInt32, ∃ h' q, heapAlloc fuel c.heap n.toNat = some (h', q)
        ∧ KeepsPayloads c.live c.heap h')
      ∧ (∀ p, p = 0 ∨ p ∈ c.live → ∃ h', heapFree fuel c.heap p = some h'
        ∧ KeepsPayloads (c.live.erase p) c.heap h')
      ∧ ∀ p (n : UInt32), p = 0 ∨ p ∈ c.live →
        ∃ h' q, heapRealloc fuel c.heap p n.toNat = some (h', q)
          ∧ KeepsPayloads (c.live.erase p) c.heap h'
          ∧ (p ≠ 0 → 1 ≤ n.toNat → n.toNat ≤ 0xFFFFFFF8 →
            Moved c.heap p n.toNat h' q) := by
  obtain ⟨c, hrun, cs, ⟨h, -⟩⟩ := reached_run hbase hend hfuel mem hlegal
  refine ⟨c, hrun, fun n => ?_, fun p hp => ?_, fun p n hp => ?_⟩
  · obtain ⟨h', halloc, -, hkeep⟩ := alloc_inv hfuel h n.toNat
    exact ⟨h', _, halloc, .of_keeps h hkeep⟩
  · obtain ⟨h', hfree, -, hkeep⟩ := free_inv hfuel h hp
    exact ⟨h', hfree, (KeepsPayloads.of_keeps h hkeep).mono
      List.erase_subset⟩
  · obtain ⟨h', hrealloc, -, hkeep⟩ := realloc_inv hfuel h n.toNat hp
    refine ⟨h', _, hrealloc, (KeepsPayloads.of_keeps h hkeep).mono
      List.erase_subset, fun hnull hn hle => ?_⟩
    obtain ⟨h'', q, hrealloc', hmoved⟩ := realloc_moved hbase hfuel h
      (hp.resolve_left hnull) (by omega) hle
    obtain ⟨rfl, rfl⟩ := Prod.mk.inj (Option.some.inj
      (hrealloc.symm.trans hrealloc'))
    exact hmoved

/-- A byte stored at 80 in the first of two blocks. -/
theorem payload_preserved_two :
    ∃ c, execM (Client.step 257)
        { heap := heapInit (fun _ => 0) 64 256, live := [] }
        [.alloc 10, .alloc 24, .write 80 7] = some c
      ∧ (∀ n : UInt32, ∃ h' q, heapAlloc 257 c.heap n.toNat = some (h', q)
        ∧ KeepsPayloads c.live c.heap h')
      ∧ (∀ p, p = 0 ∨ p ∈ c.live → ∃ h', heapFree 257 c.heap p = some h'
        ∧ KeepsPayloads (c.live.erase p) c.heap h')
      ∧ ∀ p (n : UInt32), p = 0 ∨ p ∈ c.live →
        ∃ h' q, heapRealloc 257 c.heap p n.toNat = some (h', q)
          ∧ KeepsPayloads (c.live.erase p) c.heap h'
          ∧ (p ≠ 0 → 1 ≤ n.toNat → n.toNat ≤ 0xFFFFFFF8 →
            Moved c.heap p n.toNat h' q) :=
  payload_preserved (by decide) (by decide) (by decide) _ (by decide +kernel)

end Thuos.Mm
