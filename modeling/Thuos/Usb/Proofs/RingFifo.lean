/-
A producer ring is a FIFO: between `ring_push` and a consumer that
follows the controller's rules, for any interleaving of the two.

Pushes and reads are numbered by free-running counts. On `n - 1` slots
(the last one is the Link) push `k` lies at `k % (n - 1)` under the bit
of its lap, and the invariant `Agrees` ties both parties to their counts:

- the producer stands at the slot and bit of the next push;
- the consumer stands at the slot and bit of the next read, or, at the
  end of a lap, still before the Link with the bit of the lap it ends;
- the Link carries the bit of the last lap the producer finished, so it
  always lets the consumer through.
-/
import Thuos.Lib.CycleRing
import Thuos.Lib.Machine
import Thuos.Usb.Ring

namespace Thuos.Usb

open CycleRing Machine

-- ======================================================= the two parties

/-- The consumer: its index, its cycle state, and the blocks it has read
so far. -/
structure Consumer where
  idx : Nat
  ccs : Nat
  reads : List Trb

/-- A step of the consumer: it takes the block at its index if the cycle
bit is its own; a Link sends it back to the start and toggles its
state. -/
def consume (ring : Nat → Trb) (c : Consumer) : Consumer :=
  let t := ring c.idx
  if t.cycle = c.ccs then
    if t.type = TRB_LINK then { c with idx := 0, ccs := c.ccs ^^^ 1 }
    else { c with idx := c.idx + 1, reads := c.reads ++ [t.body] }
  else c

/-- A ring in use; `pushed` records the requests so far. -/
structure Traffic where
  ring : Ring
  consumer : Consumer
  pushed : List Request

inductive RingTurn where
  | push (q : Request)
  | consume

namespace Traffic

/-- `ring_link(ring, n, 1)` with `enq = 0` and `cyc = 1`, and a consumer
before its first step. -/
def start (phys n : Nat) (mem : Nat → Trb) : Traffic where
  ring := { trb := ringLink phys n 1 mem, enq := 0, cyc := 1 }
  consumer := { idx := 0, ccs := 1, reads := [] }
  pushed := []

def step (n : Nat) (s : Traffic) : RingTurn → Traffic
  | .push q => { s with ring := ringPush n s.ring q, pushed := s.pushed ++ [q] }
  | .consume => { s with consumer := consume s.ring.trb s.consumer }

def unread (s : Traffic) : Nat := s.pushed.length - s.consumer.reads.length

/-- `ring_push` is called only when fewer than `n - 2` blocks are
unread. -/
def Allowed (n : Nat) (s : Traffic) : RingTurn → Prop
  | .push _ => s.unread < n - 2
  | .consume => True

instance (n : Nat) (s : Traffic) : ∀ t, Decidable (Allowed n s t)
  | .push _ => inferInstanceAs (Decidable (s.unread < n - 2))
  | .consume => isTrue trivial

-- ========================================================== the invariant

/-- A slot that holds request `q` under the bit `b`. -/
def put (q : Request) (b : Nat) : Trb := q.toTrb.stamp b

theorem cycle_put (q : Request) (b : Nat) (hb : b < 2) :
    (put q b).cycle = b :=
  Trb.cycle_stamp q.cycle_clear hb

/-- Where the consumer stands after `c` reads on a ring of `m` slots. -/
inductive Stands (m c : Nat) (k : Consumer) : Prop where
  | atSlot (hidx : k.idx = c % m) (hccs : k.ccs = lap m c)
  | atLink (hpos : 0 < c) (hend : c % m = 0) (hidx : k.idx = m)
      (hccs : k.ccs = 1 - lap m c)

/-- The invariant, on `m` slots before the Link. -/
structure Agrees (m : Nat) (s : Traffic) : Prop where
  laid : Laid m put Trb.cycle s.ring.trb s.pushed
  enq : s.ring.enq = s.pushed.length % m
  cyc : s.ring.cyc = lap m s.pushed.length
  link : (s.ring.trb m).type = TRB_LINK
  linkBit : m ≤ s.pushed.length →
    (s.ring.trb m).cycle = 1 - lap m s.pushed.length
  reads : s.consumer.reads
    = (s.pushed.take s.consumer.reads.length).map Request.toTrb
  le : s.consumer.reads.length ≤ s.pushed.length
  room : s.pushed.length < s.consumer.reads.length + m
  stands : Stands m s.consumer.reads.length s.consumer

theorem start_agrees (phys : Nat) {n : Nat} (hn : 3 ≤ n) (mem : Nat → Trb) :
    Agrees (n - 1) (start phys n mem) where
  laid := by
    refine laid_nil fun i hi => ?_
    show (ringLink phys n 1 mem i).cycle = 0
    unfold ringLink
    dsimp only
    rw [Function.update_of_ne (by omega), if_pos (by omega), Trb.cycle_zero]
  enq := rfl
  cyc := (lap_of_lt (k := 0) (by omega)).symm
  link := by
    show (ringLink phys n 1 mem (n - 1)).type = TRB_LINK
    unfold ringLink
    dsimp only
    rw [Function.update_self]
    exact (linkControl_bits 1 (by decide)).2
  linkBit h := by
    have : n - 1 ≤ 0 := h
    omega
  reads := rfl
  le := Nat.le_refl 0
  room := by
    show 0 < 0 + (n - 1)
    omega
  stands := .atSlot (Nat.zero_mod _).symm (lap_of_lt (k := 0) (by omega)).symm

-- ========================================================== the producer

section Push

variable {n : Nat} {s : Traffic}

/-- What `ring_push` leaves in the ring. -/
theorem ringPush_trb (r : Ring) (q : Request) {i : Nat} (hi : i < n - 1) :
    (ringPush n r q).trb i = Function.update r.trb r.enq (put q r.cyc) i := by
  unfold ringPush
  dsimp only
  split
  · exact Function.update_of_ne (by omega) _ _
  · rfl

/-- The Link after a push: refreshed at the end of a lap, kept inside. -/
theorem ringPush_link (r : Ring) (q : Request) (henq : r.enq < n - 1) :
    (ringPush n r q).trb (n - 1)
      = if r.enq + 1 = n - 1 then
          { r.trb (n - 1) with control := linkControl r.cyc }
        else r.trb (n - 1) := by
  have hold : Function.update r.trb r.enq (q.toTrb.stamp r.cyc) (n - 1)
      = r.trb (n - 1) := Function.update_of_ne (by omega) _ _
  unfold ringPush
  dsimp only
  split
  · dsimp only
    rw [Function.update_self, hold]
  · exact hold

theorem ringPush_index (r : Ring) (q : Request) :
    ((ringPush n r q).enq, (ringPush n r q).cyc)
      = if r.enq + 1 = n - 1 then (0, r.cyc ^^^ 1) else (r.enq + 1, r.cyc) := by
  unfold ringPush
  dsimp only
  split
  · rfl
  · rfl

theorem push_agrees (hn : 3 ≤ n) (h : Agrees (n - 1) s) (q : Request)
    (hroom : s.unread < n - 2) : Agrees (n - 1) (step n s (.push q)) := by
  have hm : 0 < n - 1 := by omega
  have henq : s.ring.enq < n - 1 := h.enq ▸ Nat.mod_lt _ hm
  have hlen : (s.pushed ++ [q]).length = s.pushed.length + 1 := by
    rw [List.length_append, List.length_singleton]
  have hcyc : s.ring.cyc < 2 := h.cyc ▸ lap_lt _ _
  -- the producer's index and bit are those of the next push
  have hindex : ((ringPush n s.ring q).enq, (ringPush n s.ring q).cyc)
      = ((s.pushed.length + 1) % (n - 1), lap (n - 1) (s.pushed.length + 1)) := by
    rw [ringPush_index, h.enq, h.cyc]
    exact step_index hm
  obtain ⟨henq', hcyc'⟩ := Prod.mk.inj hindex
  have hlink := ringPush_link (n := n) s.ring q henq
  have hle := h.le
  exact {
    laid := by
      refine h.laid.push hm q ?_ fun i hi hne => ?_
      · show (ringPush n s.ring q).trb (s.pushed.length % (n - 1)) = _
        rw [← h.enq, ringPush_trb _ _ henq, Function.update_self, h.cyc]
      · show (ringPush n s.ring q).trb i = _
        rw [ringPush_trb _ _ hi]
        exact Function.update_of_ne (h.enq ▸ hne) _ _
    enq := by
      show (ringPush n s.ring q).enq = (s.pushed ++ [q]).length % (n - 1)
      rw [henq', hlen]
    cyc := by
      show (ringPush n s.ring q).cyc = lap (n - 1) (s.pushed ++ [q]).length
      rw [hcyc', hlen]
    link := by
      show ((ringPush n s.ring q).trb (n - 1)).type = TRB_LINK
      rw [hlink]
      split
      · exact (linkControl_bits _ hcyc).2
      · exact h.link
    linkBit := fun hlap => by
      show ((ringPush n s.ring q).trb (n - 1)).cycle
        = 1 - lap (n - 1) (s.pushed ++ [q]).length
      have hlap' : n - 1 ≤ s.pushed.length + 1 := by rw [← hlen]; exact hlap
      rw [hlink, hlen]
      split
      · next hend =>
          -- the producer goes over the Link: its bit is the lap's that ends
          rw [h.enq] at hend
          rw [(index_wrap hm hend).2]
          have hbit := (linkControl_bits _ hcyc).1
          have := lap_lt (n - 1) s.pushed.length
          show linkControl s.ring.cyc &&& 1 = _
          rw [hbit, h.cyc]
          omega
      · next hne =>
          rw [h.enq] at hne
          rw [(index_succ hm hne).2]
          refine h.linkBit ?_
          by_contra hlt
          have heq : s.pushed.length = n - 2 := by omega
          rw [heq, Nat.mod_eq_of_lt (by omega)] at hne
          omega
    reads := by
      show s.consumer.reads = _
      rw [show (step n s (.push q)).pushed = s.pushed ++ [q] from rfl,
        show (step n s (.push q)).consumer = s.consumer from rfl,
        List.take_append_of_le_length h.le]
      exact h.reads
    le := by
      show s.consumer.reads.length ≤ (s.pushed ++ [q]).length
      omega
    room := by
      show (s.pushed ++ [q]).length < s.consumer.reads.length + (n - 1)
      unfold unread at hroom
      omega
    stands := h.stands }

end Push

-- ========================================================== the consumer

section Consume

variable {m : Nat} {s : Traffic}

/-- Before the Link the consumer goes on to the start of the ring. -/
theorem consume_link (h : Agrees m s) (hm : 0 < m)
    (hpos : 0 < s.consumer.reads.length)
    (hend : s.consumer.reads.length % m = 0) (hidx : s.consumer.idx = m)
    (hccs : s.consumer.ccs = 1 - lap m s.consumer.reads.length) :
    consume s.ring.trb s.consumer
      = { s.consumer with idx := 0, ccs := lap m s.consumer.reads.length } := by
  have hle := h.le
  have hroom := h.room
  -- producer and consumer are in the same lap
  have hlap : m ≤ s.consumer.reads.length :=
    Nat.le_of_dvd hpos (Nat.dvd_of_mod_eq_zero hend)
  have hsame : lap m s.pushed.length = lap m s.consumer.reads.length := by
    obtain ⟨k, hk⟩ := Nat.dvd_of_mod_eq_zero hend
    obtain ⟨j, hj⟩ : ∃ j, s.pushed.length = j + m * k :=
      ⟨s.pushed.length - m * k, by omega⟩
    refine lap_eq_of_div ?_
    rw [hk, hj, Nat.add_mul_div_left _ _ hm, Nat.div_eq_of_lt (by omega),
      Nat.mul_div_cancel_left _ hm, Nat.zero_add]
  have hbit : (s.ring.trb s.consumer.idx).cycle = s.consumer.ccs := by
    rw [hidx, h.linkBit (by omega), hsame, hccs]
  have htype : (s.ring.trb s.consumer.idx).type = TRB_LINK := by
    rw [hidx]
    exact h.link
  have hflip : s.consumer.ccs ^^^ 1 = lap m s.consumer.reads.length := by
    rw [hccs, ← flip_lap, Nat.xor_assoc, Nat.xor_self, Nat.xor_zero]
  unfold consume
  dsimp only
  rw [if_pos hbit, if_pos htype, hflip]

/-- At a slot with nothing unread the consumer waits. -/
theorem consume_none (h : Agrees m s) (hm : 0 < m)
    (hidx : s.consumer.idx = s.consumer.reads.length % m)
    (hccs : s.consumer.ccs = lap m s.consumer.reads.length)
    (hall : s.pushed.length ≤ s.consumer.reads.length) :
    consume s.ring.trb s.consumer = s.consumer := by
  have hroom := h.room
  have hiff := h.laid.bit_iff hm cycle_put h.le (by omega)
  have hbit : (s.ring.trb s.consumer.idx).cycle ≠ s.consumer.ccs := by
    rw [hidx, hccs]
    exact fun hbit => absurd (hiff.mp hbit) (by omega)
  unfold consume
  dsimp only
  rw [if_neg hbit]

/-- At a slot with a request unread the consumer reads it. -/
theorem consume_some (h : Agrees m s) (hm : 0 < m)
    (hidx : s.consumer.idx = s.consumer.reads.length % m)
    (hccs : s.consumer.ccs = lap m s.consumer.reads.length)
    (hlt : s.consumer.reads.length < s.pushed.length) :
    consume s.ring.trb s.consumer
      = { s.consumer with
          idx := s.consumer.idx + 1
          reads := s.consumer.reads
            ++ [(s.pushed[s.consumer.reads.length]).toTrb] } := by
  have hroom := h.room
  have hiff := h.laid.bit_iff hm cycle_put h.le (by omega)
  have hget := h.laid.get hlt (by omega)
  have hb := lap_lt m s.consumer.reads.length
  have hclear := (s.pushed[s.consumer.reads.length]).cycle_clear
  have hbit : (s.ring.trb s.consumer.idx).cycle = s.consumer.ccs := by
    rw [hidx, hccs]
    exact hiff.mpr hlt
  have htype : (s.ring.trb s.consumer.idx).type ≠ TRB_LINK := by
    rw [hidx, hget, put, Trb.type_stamp hclear hb]
    exact (s.pushed[s.consumer.reads.length]).not_link
  have hbody : (s.ring.trb s.consumer.idx).body
      = (s.pushed[s.consumer.reads.length]).toTrb := by
    rw [hidx, hget, put, Trb.body_stamp hclear hb]
  unfold consume
  dsimp only
  rw [if_pos hbit, if_neg htype, hbody]

theorem consume_agrees {n : Nat} (h : Agrees m s) (hm : 0 < m) :
    Agrees m (step n s .consume) := by
  rcases h.stands with ⟨hidx, hccs⟩ | ⟨hpos, hend, hidx, hccs⟩
  · by_cases hlt : s.consumer.reads.length < s.pushed.length
    · have hstep := consume_some h hm hidx hccs hlt
      have hlen : (step n s .consume).consumer.reads.length
          = s.consumer.reads.length + 1 := by
        show (consume s.ring.trb s.consumer).reads.length = _
        rw [hstep, List.length_append, List.length_singleton]
      have hroom := h.room
      refine ⟨h.laid, h.enq, h.cyc, h.link, h.linkBit, ?_, ?_, ?_, ?_⟩
      · rw [hlen]
        show (consume s.ring.trb s.consumer).reads
          = (s.pushed.take (s.consumer.reads.length + 1)).map _
        rw [hstep, List.take_succ_eq_append_getElem hlt, List.map_append,
          ← h.reads]
        rfl
      · rw [hlen]
        exact hlt
      · rw [hlen]
        show s.pushed.length < s.consumer.reads.length + 1 + m
        omega
      · rw [hlen]
        show Stands m _ (consume s.ring.trb s.consumer)
        rw [hstep]
        by_cases hend : s.consumer.reads.length % m + 1 = m
        · -- the lap ends here: the Link comes next
          obtain ⟨hzero, hflip⟩ := index_wrap hm hend
          have := lap_lt m s.consumer.reads.length
          refine .atLink (Nat.succ_pos _) hzero ?_ ?_
          · show s.consumer.idx + 1 = m
            omega
          · show s.consumer.ccs = 1 - lap m (s.consumer.reads.length + 1)
            omega
        · obtain ⟨hnext, hsame⟩ := index_succ hm hend
          refine .atSlot ?_ ?_
          · show s.consumer.idx + 1 = _
            omega
          · show s.consumer.ccs = _
            omega
    · have hstep := consume_none h hm hidx hccs (by omega)
      have hkeep : step n s .consume = s := by
        show { s with consumer := consume s.ring.trb s.consumer } = s
        rw [hstep]
      rw [hkeep]
      exact h
  · have hstep := consume_link h hm hpos hend hidx hccs
    have hreads : (step n s .consume).consumer.reads = s.consumer.reads := by
      show (consume s.ring.trb s.consumer).reads = _
      rw [hstep]
    refine ⟨h.laid, h.enq, h.cyc, h.link, h.linkBit, ?_, ?_, ?_, ?_⟩
    · rw [hreads]
      exact h.reads
    · rw [hreads]
      exact h.le
    · rw [hreads]
      exact h.room
    · rw [hreads]
      show Stands m _ (consume s.ring.trb s.consumer)
      rw [hstep]
      exact .atSlot hend.symm rfl

end Consume

-- =============================================================== the runs

theorem step_agrees {n : Nat} (hn : 3 ≤ n) (s : Traffic) (t : RingTurn)
    (h : Agrees (n - 1) s) (ht : Allowed n s t) :
    Agrees (n - 1) (step n s t) := by
  cases t with
  | push q => exact push_agrees hn h q ht
  | consume => exact consume_agrees h (by omega)

theorem run_agrees {phys n : Nat} (hn : 3 ≤ n) {mem : Nat → Trb}
    {turns : List RingTurn}
    (hturns : Along (step n) (Allowed n) (start phys n mem) turns) :
    Agrees (n - 1) (exec (step n) (start phys n mem) turns) :=
  exec_inv (Agrees (n - 1)) (step_agrees hn) (start_agrees phys hn mem) hturns

/-- With nothing unread the consumer reads nothing. -/
theorem reads_nothing {m n : Nat} {s : Traffic} (h : Agrees m s) (hm : 0 < m)
    (hall : s.pushed.length ≤ s.consumer.reads.length) :
    (step n s .consume).consumer.reads = s.consumer.reads := by
  show (consume s.ring.trb s.consumer).reads = s.consumer.reads
  rcases h.stands with ⟨hidx, hccs⟩ | ⟨hpos, hend, hidx, hccs⟩
  · rw [consume_none h hm hidx hccs hall]
  · rw [consume_link h hm hpos hend hidx hccs]

/-- With something unread the consumer reads the oldest unread request,
at once or after going over the Link. -/
theorem reads_next {m n : Nat} {s : Traffic} (h : Agrees m s) (hm : 0 < m)
    (hlt : s.consumer.reads.length < s.pushed.length) :
    (step n s .consume).consumer.reads
        = s.consumer.reads ++ [(s.pushed[s.consumer.reads.length]).toTrb]
      ∨ (step n s .consume).consumer.reads = s.consumer.reads
        ∧ (step n (step n s .consume) .consume).consumer.reads
          = s.consumer.reads ++ [(s.pushed[s.consumer.reads.length]).toTrb] := by
  rcases h.stands with ⟨hidx, hccs⟩ | ⟨hpos, hend, hidx, hccs⟩
  · refine Or.inl ?_
    show (consume s.ring.trb s.consumer).reads = _
    rw [consume_some h hm hidx hccs hlt]
  · have hlink : (step n s .consume).consumer
        = { s.consumer with
            idx := 0, ccs := lap m s.consumer.reads.length } :=
      consume_link h hm hpos hend hidx hccs
    have hreads : (step n s .consume).consumer.reads = s.consumer.reads := by
      rw [hlink]
    have hlt' : (step n s .consume).consumer.reads.length
        < (step n s .consume).pushed.length := by
      rw [hreads]
      exact hlt
    have hagain := consume_some (consume_agrees (n := n) h hm) hm
      (by rw [hlink]; exact hend.symm) (by rw [hlink]) hlt'
    refine Or.inr ⟨hreads, ?_⟩
    show (consume (step n s .consume).ring.trb
      (step n s .consume).consumer).reads = _
    rw [hagain]
    simp only [hreads]
    rfl

/-- The requests that a run pushes. -/
def requests (turns : List RingTurn) : List Request :=
  turns.filterMap fun
    | .push q => some q
    | .consume => none

theorem exec_pushed (n : Nat) (turns : List RingTurn) :
    ∀ s, (exec (step n) s turns).pushed = s.pushed ++ requests turns := by
  induction turns with
  | nil => intro s; exact (List.append_nil _).symm
  | cons t turns ih =>
      intro s
      rw [exec_cons, ih]
      cases t with
      | push q => exact List.append_assoc _ _ _
      | consume => rfl

end Traffic

open Traffic in
/-- For every interleaving of pushes and consumer steps in which a push
finds fewer than `n - 2` blocks unread, the consumer has read the pushed
blocks up to some point, each once and in order. With none unread its
next step reads nothing; otherwise it reads the oldest unread one in its
next two steps. -/
theorem ring_fifo (phys n : Nat) (hn : 3 ≤ n) (mem : Nat → Trb)
    (turns : List RingTurn)
    (hturns : Along (step n) (Allowed n) (start phys n mem) turns) :
    let s := exec (step n) (start phys n mem) turns
    let s' := step n s .consume
    let s'' := step n s' .consume
    ∃ unread, (requests turns).map Request.toTrb = s.consumer.reads ++ unread
      ∧ (unread = [] → s'.consumer.reads = s.consumer.reads)
      ∧ ∀ t rest, unread = t :: rest →
          s'.consumer.reads = s.consumer.reads ++ [t]
          ∨ s'.consumer.reads = s.consumer.reads
            ∧ s''.consumer.reads = s.consumer.reads ++ [t] := by
  intro s s' s''
  have hm : 0 < n - 1 := by omega
  have h : Agrees (n - 1) s := run_agrees hn hturns
  have hpushed : s.pushed = requests turns := exec_pushed n turns _
  refine ⟨(s.pushed.drop s.consumer.reads.length).map Request.toTrb,
    ?_, ?_, ?_⟩
  · calc (requests turns).map Request.toTrb
        = (s.pushed.take s.consumer.reads.length
            ++ s.pushed.drop s.consumer.reads.length).map Request.toTrb := by
          rw [List.take_append_drop, hpushed]
      _ = _ := by rw [List.map_append, ← h.reads]
  · intro hnil
    exact reads_nothing h hm (List.drop_eq_nil_iff.mp (List.map_eq_nil_iff.mp hnil))
  · intro t rest hcons
    have hlt : s.consumer.reads.length < s.pushed.length := by
      by_contra hge
      rw [List.drop_eq_nil_of_le (by omega)] at hcons
      cases hcons
    rw [List.drop_eq_getElem_cons hlt, List.map_cons] at hcons
    obtain ⟨rfl, -⟩ := List.cons.inj hcons
    exact reads_next h hm hlt

/-- The No-Op command. -/
def noopRequest : Request where
  toTrb := ⟨0, 0, 0, TRB_NOOP_CMD <<< 10⟩
  cycle_clear := by decide
  not_link := by decide

open Traffic in
theorem ring_fifo_laps :
    (exec (step 3) (start 0 3 fun _ => Trb.zero)
      [.push noopRequest, .consume, .push noopRequest, .consume, .consume,
        .push noopRequest, .consume]).consumer.reads
      <+: List.replicate 3 noopRequest.toTrb := by
  obtain ⟨unread, h, -⟩ := ring_fifo 0 3 (by decide) (fun _ => Trb.zero)
    [.push noopRequest, .consume, .push noopRequest, .consume, .consume,
      .push noopRequest, .consume] (by decide)
  exact ⟨unread, h.symm⟩

end Thuos.Usb
