/-
The double-free guard of `heap_free`.

The guard reads two words of the header in front of the pointer: the
magic and the free flag. A header stays where it was when its block is
merged away, marked free, and so the guard holds for as long as these
eight bytes are left alone. They need not be: once the space is handed
out again they lie in a client's payload, and a client that stores the
four zero bytes of a used flag there has spelled a used header. A stale
pointer to it is then freed for good: the flag of the spelled header is
set, in the payload of whoever owns the bytes.

`guarded_iff` says so for every run, double frees that the guard caught
among its calls, and every pointer returned in it and since given up. The
word the call writes is no list header's word (`spelled_apart`): the only
aligned headers that overlap it are the block's own, which is not in use,
and one eight bytes up, whose link would be the magic, an odd number. So
the list survives, and the byte that changed stays changed.
-/
import Thuos.Mm.Proofs.HeapPayload

namespace Thuos.Mm

open Machine ByteMem FirstFit Word32

variable {base size fuel : Nat} {c c' : Client} {cs : List Cell}

-- ========================================================== what is stated

/-- A call of `heap_free` on `p` that has no effect: the block list and
every byte of the arena stay as they are, and the heap is consistent. -/
def Ignored (fuel : Nat) (h : Heap) (p : Nat) : Prop :=
  ∃ h', heapFree fuel h p = some h'
    ∧ (∃ bs, Linked h.mem h.head bs ∧ Linked h'.mem h'.head bs)
    ∧ (∀ x, h.base ≤ x → x < h.base + h.size → h'.mem x = h.mem x)
    ∧ heapCheck fuel h' = some 1

/-- The bytes below `p` read as the header of a used block. -/
def Spelled (m : Mem) (p : Nat) : Prop :=
  blkMagic m (p - HDR) = KH_MAGIC ∧ blkFree m (p - HDR) = 0

instance (m : Mem) (p : Nat) : Decidable (Spelled m p) :=
  inferInstanceAs (Decidable (_ ∧ _))

/-- A payload address of the arena: aligned, with a header in front. -/
structure PayloadAddr (base size p : Nat) : Prop where
  aligned : KH_ALIGN ∣ p
  lo : arenaStart base + HDR ≤ p
  hi : p ≤ base + size

instance (base size p : Nat) : Decidable (PayloadAddr base size p) :=
  decidable_of_iff (KH_ALIGN ∣ p ∧ arenaStart base + HDR ≤ p
      ∧ p ≤ base + size)
    ⟨fun h => ⟨h.1, h.2.1, h.2.2⟩, fun h => ⟨h.aligned, h.lo, h.hi⟩⟩

/-- What clients do in the runs considered: what they promise, and frees
of payload addresses they do not hold that the guard catches. -/
def Admitted (base size : Nat) (c : Client) : HeapOp → Prop
  | .free p => Legal c (.free p)
      ∨ (PayloadAddr base size p ∧ p ∉ c.live ∧ ¬ Spelled c.heap.mem p)
  | op => Legal c op

instance (base size : Nat) (c : Client) :
    ∀ op, Decidable (Admitted base size c op)
  | .alloc n => inferInstanceAs (Decidable (Legal c (.alloc n)))
  | .free p => inferInstanceAs (Decidable (Legal c (.free p) ∨ _ ∧ _ ∧ _))
  | .realloc p n => inferInstanceAs (Decidable (Legal c (.realloc p n)))
  | .write a v => inferInstanceAs (Decidable (Legal c (.write a v)))

-- ====================================================== pointers returned

/-- A pointer that a call returns is held after it. -/
theorem mem_live_of_result {op : HeapOp} {r : Nat}
    (hstep : c.step fuel op = some c') (hres : c.result fuel op = some r)
    (hr : r ≠ 0) : r ∈ c'.live := by
  cases op with
  | alloc n =>
      obtain ⟨⟨h', q⟩, hrun, rfl⟩ := Option.map_eq_some_iff.mp hres
      obtain ⟨res, hrun', rfl⟩ := Option.map_eq_some_iff.mp hstep
      obtain rfl := Option.some.inj (hrun.symm.trans hrun')
      dsimp only at hr ⊢
      rw [if_neg hr]
      exact List.mem_cons_self
  | free p =>
      obtain ⟨-, -, rfl⟩ := Option.map_eq_some_iff.mp hres
      exact absurd rfl hr
  | realloc p n =>
      obtain ⟨⟨h', q⟩, hrun, rfl⟩ := Option.map_eq_some_iff.mp hres
      obtain ⟨res, hrun', rfl⟩ := Option.map_eq_some_iff.mp hstep
      obtain rfl := Option.some.inj (hrun.symm.trans hrun')
      dsimp only at hr ⊢
      rw [if_pos hr]
      exact List.mem_cons_self
  | write a v => exact absurd (Option.some.inj hres).symm hr

theorem aligned_inUse {al : Nat} (hal : al ∣ HDR) {cs : List Cell}
    {q : Nat × Nat} :
    ∀ {a : Nat}, Aligned HDR al a cs → q ∈ inUse HDR a cs → al ∣ q.1 := by
  induction cs with
  | nil => intro a _ hq; exact absurd hq List.not_mem_nil
  | cons d cs ih =>
      intro a h hq
      rw [inUse] at hq
      split at hq
      · exact ih h.2 hq
      · rcases List.mem_cons.mp hq with rfl | hq
        · exact Nat.dvd_add h.1 hal
        · exact ih h.2 hq

theorem HeapInv.payloadAddr (h : HeapInv base size c cs) {p : Nat}
    (hp : p ∈ c.live) : PayloadAddr base size p := by
  obtain ⟨s, hs⟩ := h.spans.inUse hp
  have hspan := h.spans.span (ne_nil_of_inUse hs)
  obtain ⟨hlo, hhi⟩ := inUse_bounds hs
  dsimp only at hlo hhi
  exact ⟨aligned_inUse (by decide) h.spans.aligned hs, hlo, by omega⟩

/-- The guard holds: nothing happens. -/
theorem heapFree_guarded {h : Heap} {p : Nat} (hp16 : HDR ≤ p)
    (hp : p < 2 ^ 32) (hnot : ¬ Spelled h.mem p) :
    heapFree fuel h p = some h := by
  have hb : sub32 p HDR = p - HDR := sub32_eq hp16 hp
  unfold heapFree
  split
  · rfl
  rw [hb]
  dsimp only
  split
  · rfl
  · next hmagic =>
    rw [not_not] at hmagic
    rw [if_pos fun hflag => hnot ⟨hmagic, hflag⟩]

/-- The step lemma: every call considered returns and keeps the
invariant. -/
theorem step_guarded (hend : base + size < 2 ^ 32) (hfuel : size < fuel)
    {op : HeapOp} (h : HeapInv base size c cs)
    (hop : Admitted base size c op) :
    ∃ c' r, c.step fuel op = some c' ∧ c.result fuel op = some r
      ∧ ∃ cs', HeapInv base size c' cs' := by
  have hlegal : Legal c op →
      ∃ c' r, c.step fuel op = some c' ∧ c.result fuel op = some r
        ∧ ∃ cs', HeapInv base size c' cs' := by
    intro hop
    obtain ⟨c', hstep, hresult, hinv⟩ := step_cells hfuel h hop
    exact ⟨c', _, hstep, hresult, _, hinv⟩
  cases op with
  | free p =>
      rcases hop with hop | ⟨hp, hnot, hspelled⟩
      · exact hlegal hop
      · have hle := hp.lo
        have hhi := hp.hi
        have hsame : heapFree fuel c.heap p = some c.heap :=
          heapFree_guarded (by omega) (by omega) hspelled
        refine ⟨c, 0, ?_, ?_, cs, h⟩
        · unfold Client.step
          dsimp only
          rw [hsame, List.erase_of_not_mem hnot]
          rfl
        · unfold Client.result
          dsimp only
          rw [hsame]
          rfl
  | alloc n => exact hlegal hop
  | realloc p n => exact hlegal hop
  | write a v => exact hlegal hop

/-- The run lemma: every run returns and keeps the invariant, and every
pointer it returns is a payload address. -/
theorem run_guarded (hend : base + size < 2 ^ 32) (hfuel : size < fuel)
    {ops : List HeapOp} (h : HeapInv base size c cs)
    (hops : AlongM (Client.step fuel) (Admitted base size) c ops) :
    ∃ c' ps, execM (Client.step fuel) c ops = some c'
      ∧ Client.results fuel c ops = some ps
      ∧ (∃ cs', HeapInv base size c' cs')
      ∧ ∀ p ∈ ps, p ≠ 0 → PayloadAddr base size p := by
  induction ops generalizing c cs with
  | nil =>
      exact ⟨c, [], rfl, rfl, ⟨cs, h⟩,
        fun p hp => absurd hp List.not_mem_nil⟩
  | cons op ops ih =>
      obtain ⟨hop, hrest⟩ := hops
      obtain ⟨d, r, hstep, hresult, ds, hd⟩ := step_guarded hend hfuel h hop
      obtain ⟨c', ps, hrun, hps, hinv, haddr⟩ := ih hd (hrest d hstep)
      refine ⟨c', r :: ps, ?_, ?_, hinv, fun p hp hp0 => ?_⟩
      · rw [execM_cons, hstep, Option.bind_some, hrun]
      · rw [Client.results, hresult, Option.bind_some, hstep,
          Option.bind_some, hps]
        rfl
      · rcases List.mem_cons.mp hp with rfl | hp
        · exact hd.payloadAddr (mem_live_of_result hstep hresult hp0)
        · exact haddr p hp hp0

-- ====================================================== the guard misses

/-- The magic is odd, so it is no link. -/
theorem ptr_ne_magic {a : Nat} {cs : List Cell}
    (h : Aligned HDR KH_ALIGN a cs) : ptr a cs ≠ KH_MAGIC := by
  cases cs with
  | nil =>
      intro heq
      have h0 : 0 = KH_MAGIC := heq
      exact absurd h0 (by decide)
  | cons d cs =>
      intro heq
      obtain ⟨k, hk⟩ := h.1
      have ha : a = KH_MAGIC := heq
      unfold KH_ALIGN at hk
      unfold KH_MAGIC at ha
      omega

/-- The flag of a spelled header lies outside every header of the list. -/
theorem spelled_apart {m : Mem} {p : Nat} (hal : KH_ALIGN ∣ p)
    (hp : HDR ≤ p) (hspelled : Spelled m p) {cs : List Cell} :
    ∀ {a : Nat}, Chain m a cs → Aligned HDR KH_ALIGN a cs →
      p ∉ (inUse HDR a cs).map Prod.fst →
      ∀ x, p - HDR + 8 ≤ x → x < p - HDR + 12 → ¬ InHeader HDR a cs x := by
  obtain ⟨b, rfl⟩ : ∃ b, p = b + HDR := ⟨p - HDR, by omega⟩
  obtain ⟨hmagic, hflag⟩ := hspelled
  rw [Nat.add_sub_cancel] at *
  have hb : KH_ALIGN ∣ b := (Nat.dvd_add_left (by decide)).mp hal
  induction cs with
  | nil => intro a _ _ _ x _ _ hx; exact hx
  | cons d cs ih =>
      intro a h haligned hfree x hlo hhi hx
      rcases hx with ⟨hxlo, hxhi⟩ | hx
      · -- one of two aligned headers overlaps the flag
        obtain ⟨i, hi⟩ := hb
        obtain ⟨j, hj⟩ := haligned.1
        unfold KH_ALIGN at hi hj
        unfold HDR at hxhi
        have hcases : a = b ∨ a = b + 8 := by omega
        rcases hcases with rfl | rfl
        · have hused : d.free = false := by
            have hflag' := h.1.free
            rw [hflag] at hflag'
            cases hd : d.free with
            | false => rfl
            | true =>
                rw [hd, if_pos rfl] at hflag'
                exact absurd hflag' (by decide)
          apply hfree
          rw [inUse, if_neg (by rw [hused]; decide), List.map_cons]
          exact List.mem_cons_self
        · have hlink : blkMagic m b = ptr (b + 8 + HDR + d.size) cs :=
            h.1.next
          rw [hmagic] at hlink
          exact ptr_ne_magic haligned.2 hlink.symm
      · refine ih h.2 haligned.2 (fun hmem => hfree ?_) x hlo hhi hx
        rw [inUse]
        split
        · exact hmem
        · rw [List.map_cons]
          exact List.mem_cons_of_mem _ hmem

/-- Joining returns, and writes in headers of the list only. -/
theorem HeapInv.coalesces (h : HeapInv base size c cs) (hfuel : size < fuel)
    {m : Mem} (hchain : Chain m (arenaStart base) cs) :
    ∃ m', coalesceLoop fuel m c.heap.head = some m'
      ∧ ∀ x, ¬ InHeader HDR (arenaStart base) cs x → m' x = m x := by
  rw [h.holds.head]
  by_cases hne : cs = []
  · obtain ⟨fuel, rfl⟩ : ∃ k, fuel = k + 1 := ⟨fuel - 1, by omega⟩
    rw [hne]
    exact ⟨_, if_pos (Or.inl rfl), fun x _ => rfl⟩
  · obtain ⟨hlo8, hfits⟩ := h.holds.inside hne
    obtain ⟨m', hm', -, hframe⟩ :=
      coalesce_spec fuel hchain hlo8 hfits (h.length_lt hfuel)
    exact ⟨m', hm', hframe⟩

/-- Freeing behind a spelled header returns, and has set its flag. -/
theorem heapFree_spelled (hfuel : size < fuel)
    (h : HeapInv base size c cs) (hend : base + size < 2 ^ 32) {p : Nat}
    (hp : PayloadAddr base size p) (hnot : p ∉ c.live)
    (hspelled : Spelled c.heap.mem p) :
    ∃ h', heapFree fuel c.heap p = some h'
      ∧ blkFree h'.mem (p - HDR) = 1 := by
  obtain ⟨hal, hlo, hhi⟩ := hp
  have hfree := mt (h.spans.live_iff p).mpr hnot
  have hp16 : HDR ≤ p := by omega
  have hapart := spelled_apart hal hp16 hspelled h.holds.chain
    h.spans.aligned hfree
  obtain ⟨hmagic, hflag⟩ := hspelled
  have hset : ∀ x, ¬(p - HDR + 8 ≤ x ∧ x < p - HDR + 12) →
      setFree c.heap.mem (p - HDR) 1 x = c.heap.mem x :=
    fun x hx => Mem.store32_outside _ _ (by omega)
  have hchain : Chain (setFree c.heap.mem (p - HDR) 1) (arenaStart base) cs :=
    h.holds.chain.congr fun x hx =>
      hset x fun hin => hapart x hin.1 hin.2 hx
  have hb : sub32 p HDR = p - HDR := sub32_eq hp16 (by omega)
  have hp0 : p ≠ 0 := by
    unfold HDR at hp16
    omega
  obtain ⟨m', hm', hframe⟩ := h.coalesces hfuel hchain
  refine ⟨{ c.heap with mem := m' }, ?_, ?_⟩
  · unfold heapFree
    rw [if_neg hp0, hb]
    dsimp only
    rw [if_neg (not_not.mpr hmagic), if_neg (not_not.mpr hflag), hm']
    rfl
  · have hword : Mem.load32 m' (p - HDR + 8)
        = Mem.load32 (setFree c.heap.mem (p - HDR) 1) (p - HDR + 8) :=
      Mem.load32_congr fun x hxlo hxhi => hframe x (hapart x hxlo (by omega))
    show Mem.load32 m' (p - HDR + 8) = 1
    rw [hword]
    exact Mem.load32_store32 ..

/-- What a call on a payload address does that is not held. -/
theorem HeapInv.ignored_iff (hbase : base ≠ 0) (hend : base + size < 2 ^ 32)
    (hfuel : size < fuel) (h : HeapInv base size c cs) {p : Nat}
    (hp : PayloadAddr base size p) (hnot : p ∉ c.live) :
    Ignored fuel c.heap p ↔ ¬ Spelled c.heap.mem p := by
  have hle := hp.lo
  have hhi := hp.hi
  have hlo := le_arenaStart base
  constructor
  · rintro ⟨h', hfree, -, hsame, -⟩ hspelled
    obtain ⟨h'', hfree', hset⟩ :=
      heapFree_spelled hfuel h hend hp hnot hspelled
    obtain rfl := Option.some.inj (hfree.symm.trans hfree')
    have hword : blkFree h'.mem (p - HDR) = blkFree c.heap.mem (p - HDR) := by
      refine Mem.load32_congr fun x hxlo hxhi => hsame x ?_ ?_
      · rw [h.base_eq]
        omega
      · rw [h.base_eq, h.size_eq]
        unfold HDR at hle hxhi
        omega
    rw [hset, hspelled.2] at hword
    exact absurd hword (by decide)
  · intro hspelled
    obtain ⟨bs, htiled⟩ := h.tiled hbase hend hfuel
    refine ⟨c.heap, heapFree_guarded (by omega) (by omega) hspelled,
      ⟨bs, htiled.linked, htiled.linked⟩, fun x _ _ => rfl, htiled.check⟩

-- ============================================================== the result

/-- In every heap a run reaches, a call of `heap_free` on a pointer that
was returned and is not in use any more is ignored exactly when the bytes
below it do not spell a used header. -/
theorem guarded_iff (hbase : base ≠ 0) (hend : base + size < 2 ^ 32)
    (hfuel : size < fuel) (mem : Mem) {ops : List HeapOp}
    (hops : AlongM (Client.step fuel) (Admitted base size)
      { heap := heapInit mem base size, live := [] } ops) :
    ∃ c ps, execM (Client.step fuel)
        { heap := heapInit mem base size, live := [] } ops = some c
      ∧ Client.results fuel
        { heap := heapInit mem base size, live := [] } ops = some ps
      ∧ ∀ p ∈ ps, p ≠ 0 → NotInUse c.heap p →
        (Ignored fuel c.heap p ↔ ¬ Spelled c.heap.mem p) := by
  obtain ⟨c, ps, hrun, hps, ⟨cs, h⟩, haddr⟩ :=
    run_guarded hend hfuel (heapInit_inv hbase hend mem) hops
  refine ⟨c, ps, hrun, hps, fun p hp hp0 hstale => ?_⟩
  refine h.ignored_iff hbase hend hfuel (haddr p hp hp0) fun hlive => ?_
  obtain ⟨bs, hbs, hin⟩ := h.inUse_of_live hbase hlive
  obtain ⟨bs', hbs', hout⟩ := hstale
  rw [linked_unique hbs' hbs] at hout
  exact hout hin

/-- Two frees of one block, and a third to come. -/
theorem guarded_iff_twice :
    ∃ c ps, execM (Client.step 257)
        { heap := heapInit (fun _ => 0) 64 256, live := [] }
        [.alloc 8, .alloc 8, .free 80, .free 80] = some c
      ∧ Client.results 257
        { heap := heapInit (fun _ => 0) 64 256, live := [] }
        [.alloc 8, .alloc 8, .free 80, .free 80] = some ps
      ∧ ∀ p ∈ ps, p ≠ 0 → NotInUse c.heap p →
        (Ignored 257 c.heap p ↔ ¬ Spelled c.heap.mem p) :=
  guarded_iff (by decide) (by decide) (by decide) _ (by decide +kernel)

/-- The pointer 104 is returned and freed, its space handed out again
inside a larger payload, and one zero byte stored there. -/
def reusedOps : List HeapOp :=
  [.alloc 8, .alloc 8, .free 80, .free 104, .alloc 100, .write 96 0]

/-- Freeing 104 once more overwrites that byte. -/
theorem spelled_header_freed :
    AlongM (Client.step 257) Legal
        { heap := heapInit (fun _ => 0) 64 256, live := [] } reusedOps
      ∧ Client.results 257
        { heap := heapInit (fun _ => 0) 64 256, live := [] } reusedOps
        = some [80, 104, 0, 0, 80, 0]
      ∧ ∃ c, execM (Client.step 257)
          { heap := heapInit (fun _ => 0) 64 256, live := [] } reusedOps
          = some c
        ∧ NotInUse c.heap 104
        ∧ ¬ Ignored 257 c.heap 104
        ∧ c.heap.mem 96 = 0
        ∧ (heapFree 257 c.heap 104).map (fun h => h.mem 96) = some 1 := by
  have hlegal : AlongM (Client.step 257) Legal
      { heap := heapInit (fun _ => 0) 64 256, live := [] } reusedOps := by
    decide +kernel
  have hbase : 64 ≠ 0 := by decide
  have hend : 64 + 256 < 2 ^ 32 := by decide
  obtain ⟨c, hrun, cs, ⟨h, -⟩⟩ :=
    reached_run hbase hend (by decide) _ hlegal
  have hreads : (execM (Client.step 257)
      { heap := heapInit (fun _ => 0) 64 256, live := [] } reusedOps).map
        (fun c => (c.live, c.heap.mem 96, decide (Spelled c.heap.mem 104)))
      = some ([80], 0, true) := by
    decide +kernel
  have hfreed : ((execM (Client.step 257)
      { heap := heapInit (fun _ => 0) 64 256, live := [] } reusedOps).bind
        fun c => (heapFree 257 c.heap 104).map fun h => h.mem 96)
      = some 1 := by
    decide +kernel
  rw [hrun] at hreads hfreed
  obtain ⟨hlive, hbyte, hspelled⟩ : c.live = [80] ∧ c.heap.mem 96 = 0
      ∧ decide (Spelled c.heap.mem 104) = true := by
    simpa using hreads
  have hnot : 104 ∉ c.live := by
    rw [hlive]
    decide
  have haddr : PayloadAddr 64 256 104 :=
    ⟨by decide, by decide, by decide⟩
  refine ⟨hlegal, by decide +kernel, c, hrun,
    h.notInUse_of_not_live (by decide) hnot, ?_, hbyte, hfreed⟩
  rw [h.ignored_iff (by decide) (by decide) (by decide) haddr hnot, not_not]
  exact of_decide_eq_true hspelled

end Thuos.Mm
