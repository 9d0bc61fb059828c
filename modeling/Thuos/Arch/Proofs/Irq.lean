/-
No interrupt is lost, made up or left hanging.

Between two turns nothing is in service on either chip (`Idle`): the end of
interrupt that `irq_handler` sends takes out of service what the
acknowledgement has put there, on both chips for a line of the second. So
the chips always pass on the first line by priority that has a request and
is not masked (`intAck_eq`), with the vector that the stub of the line is
behind; and each latched edge is either pending or has been served, once
(`Ledger`).
-/
import Thuos.Arch.Proofs.Invisible

namespace Thuos.Arch

open Machine I386

-- =================================================================== the chips

/-- Remapped, with nothing in service. -/
structure Idle (p : Pics) : Prop where
  isr1 : p.pic1.isr = fun _ => false
  isr2 : p.pic2.isr = fun _ => false
  irr2 : p.pic1.irr 2 = false
  icw1 : p.pic1.icw = 0
  icw2 : p.pic2.icw = 0
  offset1 : p.pic1.offset = PIC1_OFFSET
  offset2 : p.pic2.offset = PIC2_OFFSET
  cascade1 : p.pic1.cascade = 0x04
  cascade2 : p.pic2.cascade = 0x02

section Ports

variable (p : Pics) (v : UInt8)

/-- The command port of the first chip takes a command, and the second chip
is not concerned. -/
theorem outb_cmd1 :
    p.outb PIC1_CMD v = { p with pic1 := p.pic1.command v } := rfl

/-- The command port of the second chip takes a command, and the first chip
is not concerned. -/
theorem outb_cmd2 :
    p.outb PIC2_CMD v = { p with pic2 := p.pic2.command v } := rfl

/-- The data port of the first chip takes a mask, or a word of the set-up
that is under way. -/
theorem outb_data1 :
    p.outb PIC1_DATA v = { p with pic1 := p.pic1.data v } := rfl

/-- The data port of the second chip takes a mask, or a word of the set-up
that is under way. -/
theorem outb_data2 :
    p.outb PIC2_DATA v = { p with pic2 := p.pic2.data v } := rfl

end Ports

/-- `pic_remap` sets up both chips from whatever state they were in. -/
theorem picRemap_idle (p : Pics) : Idle (picRemap p) :=
  ⟨rfl, rfl, rfl, rfl, rfl, rfl, rfl, rfl, rfl⟩

/-- The masks are put back, and every request is gone. -/
theorem picRemap_eq (p : Pics) :
    (picRemap p).pic1.imr = p.pic1.imr ∧ (picRemap p).pic2.imr = p.pic2.imr
      ∧ ∀ n, (picRemap p).pending n = false := by
  refine ⟨rfl, rfl, fun n => ?_⟩
  unfold Pics.pending
  split
  · rfl
  · split <;> rfl

/-- With nothing in service, only masks hold requests back. -/
theorem nextOf_idle {c : Chip} (h : c.isr = fun _ => false)
    (irr : Fin 8 → Bool) :
    c.nextOf irr = (List.finRange 8).find? fun i => irr i && !c.masked i := by
  have hserved : c.served = none := by
    unfold Chip.served
    rw [h]
    exact List.find?_eq_none.mpr fun _ _ => Bool.false_ne_true
  unfold Chip.nextOf
  simp [hserved]

/-- The number of a line on the second chip. -/
theorem second_lt {n : Nat} (h : n < 16) : n - 8 < 8 := by omega

/-- The acknowledgement of a line. -/
def Pics.ackLine (p : Pics) (n : Nat) : Pics :=
  if h : n < 8 then { p with pic1 := p.pic1.acknowledge ⟨n, h⟩ }
  else if h : n < 16 then
    ⟨p.pic1.acknowledge Pics.SECOND_LINE,
      p.pic2.acknowledge ⟨n - 8, second_lt h⟩⟩
  else p

section Ack

variable {p : Pics}

/-- The lines of the second chip, one after another. -/
theorem second_find (hp : Idle p) :
    [8, 9, 10, 11, 12, 13, 14, 15].find? p.wants
      = if p.maskBit 2 then none
        else (p.pic2.nextOf p.pic2.irr).map fun j => 8 + j.val := by
  have hwants : ∀ j : Fin 8, p.wants (8 + j.val)
      = (p.pic2.irr j && !p.pic2.masked j && !p.maskBit 2) := by
    intro j
    unfold Pics.wants Pics.pending Pics.maskBit Chip.masked
    have hj := j.isLt
    simp [show ¬ 8 + j.val < 8 by omega, show 8 + j.val < 16 by omega]
  have hlist : [8, 9, 10, 11, 12, 13, 14, 15]
      = (List.finRange 8).map fun j => 8 + j.val := rfl
  rw [hlist, List.find?_map, nextOf_idle hp.isr2]
  cases hmask : p.maskBit 2 with
  | true =>
      rw [if_pos rfl, Option.map_eq_none_iff, List.find?_eq_none]
      intro j _
      simp [hwants, hmask]
  | false =>
      rw [if_neg Bool.false_ne_true]
      congr 2
      funext j
      simp [hwants, hmask]

/-- The first chip passes on its own lines in order, and the second chip's
between lines 1 and 3. -/
theorem first_next (hp : Idle p) :
    p.pic1.nextOf p.requests
      = ([0, 1].find? fun i : Fin 8 => p.wants i).or
        ((if (p.pic2.nextOf p.pic2.irr).isSome && !p.maskBit 2 then some 2
          else none).or
          ([3, 4, 5, 6, 7].find? fun i : Fin 8 => p.wants i)) := by
  have hwants : ∀ i : Fin 8, i ≠ 2 →
      (p.requests i && !p.pic1.masked i) = p.wants i := by
    intro i hi
    unfold Pics.wants Pics.pending Pics.maskBit Chip.masked Pics.requests
    simp [hi]
  have htwo : (p.requests 2 && !p.pic1.masked 2)
      = ((p.pic2.nextOf p.pic2.irr).isSome && !p.maskBit 2) := rfl
  have hlist : List.finRange 8 = [0, 1] ++ ([2] ++ [3, 4, 5, 6, 7]) := rfl
  rw [nextOf_idle hp.isr1, hlist, List.find?_append, List.find?_append]
  congr 1
  · simp [List.find?_cons, hwants]
  · congr 1
    · rw [List.find?_cons, htwo]
      cases (p.pic2.nextOf p.pic2.irr).isSome && !p.maskBit 2 with
      | true => rfl
      | false => rfl
    · simp [List.find?_cons, hwants]

/-- The chips after the acknowledgement, and the vector: those of the first
line that wants to be served. -/
theorem intAck_eq (hp : Idle p) :
    p.intAck = (priority.find? p.wants).map fun n =>
      (p.ackLine n, UInt8.ofNat (32 + n)) := by
  have hlist : priority
      = [0, 1] ++ ([8, 9, 10, 11, 12, 13, 14, 15] ++ [3, 4, 5, 6, 7]) := rfl
  rw [hlist, List.find?_append, List.find?_append, second_find hp]
  have hlow : ∀ l : List (Fin 8), (l.map Fin.val).find? p.wants
      = (l.find? fun i : Fin 8 => p.wants i.val).map Fin.val :=
    fun l => List.find?_map ..
  have hself : ∀ i : Fin 8, i ≠ 2 →
      ¬ (p.pic1.cascade.toNat.testBit i ∧ p.pic2.cascade.toNat = i) := by
    intro i hi hcas
    rw [hp.cascade2] at hcas
    exact hi (Fin.ext hcas.2.symm)
  have hdirect : ∀ i : Fin 8, i ≠ 2 → p.pic1.nextOf p.requests = some i →
      p.intAck = some (p.ackLine i, UInt8.ofNat (32 + i)) := by
    intro i hi hnext
    unfold Pics.intAck
    rw [hnext]
    dsimp only
    rw [if_neg (hself i hi), hp.offset1]
    unfold Pics.ackLine
    rw [dif_pos i.isLt]
    fin_cases i <;> rfl
  have hnext := first_next hp
  rw [show [0, 1] = ([0, 1] : List (Fin 8)).map Fin.val from rfl, hlow,
    show [3, 4, 5, 6, 7] = ([3, 4, 5, 6, 7] : List (Fin 8)).map Fin.val
      from rfl, hlow]
  cases hA : ([0, 1] : List (Fin 8)).find? fun i => p.wants i.val with
  | some i =>
      rw [hA] at hnext
      have hi : i ≠ 2 := by
        have := List.mem_of_find?_eq_some hA
        rintro rfl
        simp at this
      exact hdirect i hi hnext
  | none =>
      rw [hA] at hnext
      -- what is left once the second chip has nothing to pass on
      have hrest : p.pic1.nextOf p.requests
          = ([3, 4, 5, 6, 7] : List (Fin 8)).find?
            (fun i => p.wants i.val) →
          p.intAck = ((([3, 4, 5, 6, 7] : List (Fin 8)).find? fun i =>
            p.wants i.val).map Fin.val).map fun n =>
              (p.ackLine n, UInt8.ofNat (32 + n)) := by
        intro hC
        cases hfind : ([3, 4, 5, 6, 7] : List (Fin 8)).find? fun i =>
            p.wants i.val with
        | some i =>
            have hi : i ≠ 2 := by
              have := List.mem_of_find?_eq_some hfind
              rintro rfl
              simp at this
            exact hdirect i hi (hC.trans hfind)
        | none =>
            unfold Pics.intAck
            rw [hC, hfind]
            rfl
      cases hB : p.pic2.nextOf p.pic2.irr with
      | none =>
          rw [hB] at hnext
          cases p.maskBit 2 with
          | true => exact hrest hnext
          | false => exact hrest hnext
      | some j =>
          rw [hB] at hnext
          cases hmask : p.maskBit 2 with
          | true =>
              rw [hmask] at hnext
              exact hrest hnext
          | false =>
              rw [hmask] at hnext
              have htwo : p.pic1.nextOf p.requests = some 2 := hnext
              have hcas : p.pic1.cascade.toNat.testBit (2 : Fin 8)
                  ∧ p.pic2.cascade.toNat = (2 : Fin 8) := by
                rw [hp.cascade1, hp.cascade2]
                decide
              unfold Pics.intAck
              rw [htwo]
              dsimp only
              rw [if_pos hcas, hB, hp.offset2]
              fin_cases j <;> rfl

/-- A line that is first by priority is a line of a device. -/
theorem priority_mem {n : Nat} (hn : n ∈ priority) : n < 16 ∧ n ≠ 2 := by
  unfold priority at hn
  simp at hn
  omega

/-- The acknowledgement, and then the end of interrupt, on one chip. -/
theorem ack_eoi {c : Chip} (h : c.isr = fun _ => false) (i : Fin 8) :
    (c.acknowledge i).command PIC_EOI
      = { c with irr := Function.update c.irr i false } := by
  have hserved : (c.acknowledge i).served = some i := by
    unfold Chip.served Chip.acknowledge
    rw [h]
    fin_cases i <;> rfl
  have hcommand : (c.acknowledge i).command PIC_EOI
      = { c.acknowledge i with
          isr := Function.update (c.acknowledge i).isr i false } := by
    unfold Chip.command
    rw [if_neg (by decide), if_pos (by decide), hserved]
  rw [hcommand]
  unfold Chip.acknowledge
  dsimp only
  rw [Function.update_idem, h, Function.update_eq_self]

/-- What is left after the service of a line. -/
def Pics.drop (p : Pics) (n : Nat) : Pics :=
  if h : n < 8 then
    { p with
      pic1 := { p.pic1 with irr := Function.update p.pic1.irr ⟨n, h⟩ false } }
  else if h : n < 16 then
    { pic1 :=
        { p.pic1 with
          irr := Function.update p.pic1.irr Pics.SECOND_LINE false }
      pic2 :=
        { p.pic2 with
          irr := Function.update p.pic2.irr ⟨n - 8, second_lt h⟩ false } }
  else p

/-- The end of interrupt takes out of service what the acknowledgement has
put there, on both chips for a line of the second. -/
theorem eoi_eq (hp : Idle p) {n : Nat} (hn : n < 16) :
    picSendEoi (p.ackLine n) (UInt8.ofNat n) = p.drop n := by
  have hle : UInt8.ofNat n ≥ 8 ↔ 8 ≤ n := by
    rw [ge_iff_le, UInt8.le_iff_toNat_le, UInt8.toNat_ofNat',
      Nat.mod_eq_of_lt (by omega)]
    rfl
  unfold picSendEoi Pics.ackLine Pics.drop
  by_cases hlow : n < 8
  · rw [if_neg (by rw [hle]; omega), dif_pos hlow, dif_pos hlow]
    rw [outb_cmd1, ack_eoi hp.isr1]
  · rw [if_pos (by rw [hle]; omega), dif_neg hlow, dif_neg hlow, dif_pos hn,
      dif_pos hn]
    rw [outb_cmd2, outb_cmd1, ack_eoi hp.isr1, ack_eoi hp.isr2]

/-- After the service of a line nothing is in service again. -/
theorem drop_idle (hp : Idle p) {n : Nat} (hn : n ∈ priority) :
    Idle (p.drop n) := by
  obtain ⟨hn, hne⟩ := priority_mem hn
  unfold Pics.drop
  split
  · next hlow =>
    have htwo : (2 : Fin 8) ≠ ⟨n, hlow⟩ := fun h =>
      hne (congrArg Fin.val h).symm
    exact ⟨hp.isr1, hp.isr2, (Function.update_of_ne htwo ..).trans hp.irr2,
      hp.icw1, hp.icw2, hp.offset1, hp.offset2, hp.cascade1, hp.cascade2⟩
  · exact ⟨hp.isr1, hp.isr2, Function.update_self 2 false p.pic1.irr,
      hp.icw1, hp.icw2,
      hp.offset1, hp.offset2, hp.cascade1, hp.cascade2⟩

/-- The service of a line takes its own request away and leaves the others.
-/
theorem drop_pending (hp : Idle p) {n : Nat} (hn : n ∈ priority) (i : Nat) :
    (p.drop n).pending i = if i = n then false else p.pending i := by
  obtain ⟨hn, hne⟩ := priority_mem hn
  unfold Pics.pending Pics.drop
  by_cases hi : i < 8
  · rw [dif_pos hi, dif_pos hi]
    by_cases hlow : n < 8
    · rw [dif_pos hlow]
      simp only [Function.update_apply, Fin.mk.injEq]
    · rw [dif_neg hlow, dif_pos hn, if_neg (by omega)]
      dsimp only
      rw [Function.update_apply]
      split
      · next h =>
        rw [h]
        exact hp.irr2.symm
      · rfl
  · rw [dif_neg hi, dif_neg hi]
    by_cases hi' : i < 16
    · rw [dif_pos hi', dif_pos hi']
      by_cases hlow : n < 8
      · rw [dif_pos hlow, if_neg (by omega)]
      · rw [dif_neg hlow, dif_pos hn]
        simp only [Function.update_apply, Fin.mk.injEq]
        have : i - 8 = n - 8 ↔ i = n := by omega
        simp only [this]
    · rw [dif_neg hi', dif_neg hi']
      simp

end Ack

-- ================================================================ the ledger

section Ledger

variable {δ : Type*}

/-- The handler of a line, if it has one. -/
def serve (hs : Nat → Option (δ → δ)) (d : δ) (n : Nat) : δ :=
  match hs n with
  | some f => f d
  | none => d

/-- `irq_handler` behind the acknowledgement of a line. -/
theorem irqHandler_eq (k : Irqs δ) {p : Pics} (hp : Idle p) {n : Nat}
    (hn : n < 16) :
    irqHandler { k with pics := p.ackLine n } (UInt32.ofNat (32 + n))
      = { pics := p.drop n
          irqHandlers := k.irqHandlers
          dev := serve k.irqHandlers k.dev n } := by
  have hirq : (UInt32.ofNat (32 + n) - 32).toUInt8 = UInt8.ofNat n := by
    interval_cases n <;> rfl
  have hlt : UInt8.ofNat n < 16 := by
    rw [UInt8.lt_iff_toNat_lt, UInt8.toNat_ofNat', Nat.mod_eq_of_lt (by omega)]
    exact hn
  have hnat : (UInt8.ofNat n).toNat = n := by
    rw [UInt8.toNat_ofNat', Nat.mod_eq_of_lt (by omega)]
  unfold irqHandler
  dsimp only
  rw [hirq, if_pos hlt, hnat, ← eoi_eq hp hn]
  unfold serve
  cases k.irqHandlers n with
  | none => rfl
  | some f => rfl

/-- What holds between two turns. -/
structure Ledger (hs : Nat → Option (δ → δ)) (dev : δ) (b : Board δ) :
    Prop where
  idle : Idle b.irqs.pics
  handlers : b.irqs.irqHandlers = hs
  dev : b.irqs.dev = b.served.foldl (serve hs) dev
  count : ∀ n, b.latched.count n
    = b.served.count n + if b.irqs.pics.pending n then 1 else 0

variable {hs : Nat → Option (δ → δ)} {dev : δ} {k : Setup} {prog : Hw → Hw}
  {b : Board δ}

/-- An edge on a line requests, and puts nothing into service. -/
theorem raise_idle {p : Pics} (hp : Idle p) (n : Fin 16) :
    Idle (p.raise n) := by
  unfold Pics.raise
  split
  · next hlow =>
    split
    · exact hp
    · next hne =>
      have htwo : (2 : Fin 8) ≠ ⟨n, hlow⟩ := fun h =>
        hne (Fin.ext (congrArg Fin.val h).symm)
      exact ⟨hp.isr1, hp.isr2, (Function.update_of_ne htwo ..).trans hp.irr2,
        hp.icw1, hp.icw2, hp.offset1, hp.offset2, hp.cascade1, hp.cascade2⟩
  · exact ⟨hp.isr1, hp.isr2, hp.irr2, hp.icw1, hp.icw2, hp.offset1,
      hp.offset2, hp.cascade1, hp.cascade2⟩

/-- An edge makes its own line pending, but for the line that the second chip
is on. -/
theorem raise_pending (p : Pics) (n : Fin 16) (i : Nat) :
    (p.raise n).pending i
      = if i = n.val ∧ n ≠ 2 then true else p.pending i := by
  unfold Pics.raise Pics.pending Chip.request
  by_cases hlow : n.val < 8
  · rw [dif_pos hlow]
    by_cases htwo : n = 2
    · simp [htwo]
    · rw [if_neg htwo]
      by_cases hi : i < 8
      · simp [hi, htwo, Function.update_apply]
      · simp [hi, htwo, show i ≠ n.val by omega]
  · have htwo : n ≠ 2 := by
      rintro rfl
      exact hlow (by decide)
    rw [dif_neg hlow]
    by_cases hi : i < 8
    · simp [hi, show i ≠ n.val by omega]
    · by_cases hi' : i < 16
      · have heq : i - 8 = n.val - 8 ↔ i = n.val := by omega
        simp [hi, hi', htwo, Function.update_apply, heq]
      · simp [hi, hi', show i ≠ n.val by omega]

/-- With no set-up under way, what the data port takes is the mask. -/
theorem data_mask {c : Chip} (h : c.icw = 0) (v : UInt8) :
    c.data v = { c with imr := v } := by
  simp [Chip.data, h]

/-- Both masks are written, and requests and what is in service stay. -/
theorem mask_eq {p : Pics} (hp : Idle p) (m1 m2 : UInt8) :
    (p.outb PIC1_DATA m1).outb PIC2_DATA m2
      = ⟨{ p.pic1 with imr := m1 }, { p.pic2 with imr := m2 }⟩ := by
  rw [outb_data1, outb_data2, data_mask hp.icw1, data_mask hp.icw2]

/-- The next line to be served. -/
theorem take_eq (hb : Ledger hs dev b) (hflag : b.hw.eflags &&& FLAG_IF ≠ 0) :
    atOnce k prog b .take
      = match priority.find? b.irqs.pics.wants with
        | none => b
        | some n =>
            { b with
              irqs :=
                { pics := b.irqs.pics.drop n
                  irqHandlers := b.irqs.irqHandlers
                  dev := serve b.irqs.irqHandlers b.irqs.dev n }
              served := b.served ++ [n] } := by
  unfold atOnce
  dsimp only
  rw [if_neg hflag, intAck_eq hb.idle]
  cases hfind : priority.find? b.irqs.pics.wants with
  | none => rfl
  | some n =>
      have hn := (priority_mem (List.mem_of_find?_eq_some hfind)).1
      have hline : lineOf (UInt8.ofNat (32 + n)) = n := by
        unfold lineOf
        rw [UInt8.toNat_ofNat', Nat.mod_eq_of_lt (by omega)]
        omega
      dsimp only [Option.map_some]
      rw [hline, irqHandler_eq b.irqs hb.idle hn]

/-- One turn keeps the ledger. -/
theorem turn_ledger (hb : Ledger hs dev b) (t : Turn) :
    Ledger hs dev (atOnce k prog b t) := by
  cases t with
  | work => exact ⟨hb.idle, hb.handlers, hb.dev, hb.count⟩
  | edge n =>
      refine ⟨raise_idle hb.idle n, hb.handlers, hb.dev, fun i => ?_⟩
      have hcount := hb.count i
      show (if n.val = 2 ∨ b.irqs.pics.pending n then b.latched
          else b.latched ++ [n.val]).count i
        = b.served.count i
          + if (b.irqs.pics.raise n).pending i then 1 else 0
      rw [raise_pending]
      by_cases htwo : n = 2
      · simpa [htwo] using hcount
      · have hval : n.val ≠ 2 := fun h => htwo (Fin.ext h)
        cases hpend : b.irqs.pics.pending n with
        | true =>
            rw [if_pos (Or.inr rfl), hcount]
            by_cases hi : i = n.val
            · simp [hi, htwo, hpend]
            · simp [hi]
        | false =>
            rw [if_neg (by simp [hval]), List.count_append, hcount]
            by_cases hi : i = n.val
            · simp [hi, htwo, hpend]
            · simp [hi, Ne.symm hi]
  | mask m1 m2 =>
      have hpics : (atOnce k prog b (.mask m1 m2)).irqs.pics
          = ⟨{ b.irqs.pics.pic1 with imr := m1 },
            { b.irqs.pics.pic2 with imr := m2 }⟩ := mask_eq hb.idle m1 m2
      refine ⟨?_, hb.handlers, hb.dev, fun i => ?_⟩
      · rw [hpics]
        obtain ⟨h1, h2, h3, h4, h5, h6, h7, h8, h9⟩ := hb.idle
        exact ⟨h1, h2, h3, h4, h5, h6, h7, h8, h9⟩
      · rw [hpics]
        exact hb.count i
  | take =>
      by_cases hflag : b.hw.eflags &&& FLAG_IF = 0
      · have hstay : atOnce k prog b .take = b := by
          unfold atOnce
          dsimp only
          rw [if_pos hflag]
        rw [hstay]
        exact hb
      · rw [take_eq hb hflag]
        cases hfind : priority.find? b.irqs.pics.wants with
        | none => exact hb
        | some n =>
            have hn := List.mem_of_find?_eq_some hfind
            have hwants : b.irqs.pics.pending n = true := by
              have := List.find?_some hfind
              unfold Pics.wants at this
              simp only [Bool.and_eq_true] at this
              exact this.1.1
            refine ⟨drop_idle hb.idle hn, hb.handlers, ?_, fun i => ?_⟩
            · show serve b.irqs.irqHandlers b.irqs.dev n = _
              rw [List.foldl_append, ← hb.dev, hb.handlers]
              rfl
            · have hcount := hb.count i
              show b.latched.count i = (b.served ++ [n]).count i
                + if (b.irqs.pics.drop n).pending i then 1 else 0
              rw [drop_pending hb.idle hn, List.count_append, hcount]
              by_cases hi : i = n
              · simp [hi, hwants]
              · simp [hi, Ne.symm hi]

/-- An interrupt may be taken here only where the trap stack has room for
the frame and the segments are flat. -/
def RoomToTake (k : Setup) (lo hi : Nat) (b : Board δ) (t : Turn) : Prop :=
  t = .take → b.hw.eflags &&& FLAG_IF ≠ 0 → Ready k.tss lo hi b.hw

section Served

variable {lo hi : Nat} {K : Nat → Prop} {a : Board δ}

/-- The ledger is about the controllers, the devices and the two records,
and not about the processor. -/
theorem Ledger.congr (hb : Ledger hs dev b) (hirqs : a.irqs = b.irqs)
    (hlatched : a.latched = b.latched) (hserved : a.served = b.served) :
    Ledger hs dev a := by
  obtain ⟨hidle, hhandlers, hdev, hcount⟩ := hb
  refine ⟨?_, ?_, ?_, fun n => ?_⟩
  · rw [hirqs]
    exact hidle
  · rw [hirqs]
    exact hhandlers
  · rw [hirqs, hserved]
    exact hdev
  · rw [hlatched, hserved, hirqs]
    exact hcount n

/-- Where the frame has room, the way through the gate, the stub and the C
function and back is, for the controllers and the devices, the handler of
the line: whatever the code was that it interrupts. -/
theorem turn_irqs (hk : k.Sound lo hi K) (t : Turn)
    (hroom : RoomToTake k lo hi b t) :
    (turn k prog b t).irqs = (atOnce k prog b t).irqs
      ∧ (turn k prog b t).latched = (atOnce k prog b t).latched
      ∧ (turn k prog b t).served = (atOnce k prog b t).served := by
  cases t with
  | work => exact ⟨rfl, rfl, rfl⟩
  | edge n => exact ⟨rfl, rfl, rfl⟩
  | mask m1 m2 => exact ⟨rfl, rfl, rfl⟩
  | take =>
      unfold turn atOnce
      dsimp only
      by_cases hflag : b.hw.eflags &&& FLAG_IF = 0
      · rw [if_pos hflag, if_pos hflag]
        exact ⟨rfl, rfl, rfl⟩
      · rw [if_neg hflag, if_neg hflag]
        cases b.irqs.pics.intAck with
        | none => exact ⟨rfl, rfl, rfl⟩
        | some r =>
            have hm := deliver_matches hk (hroom rfl hflag)
              ⟨SameBut.refl _ b.hw, rfl, rfl, rfl⟩ r.1 r.2
            exact ⟨hm.irqs, hm.latched, hm.served⟩

/-- One turn of the system itself keeps the ledger. -/
theorem turn_keeps (hk : k.Sound lo hi K) (hb : Ledger hs dev b) (t : Turn)
    (hroom : RoomToTake k lo hi b t) : Ledger hs dev (turn k prog b t) := by
  obtain ⟨hirqs, hlatched, hserved⟩ := turn_irqs hk t hroom
  exact (turn_ledger hb t).congr hirqs hlatched hserved

/-- A program that keeps its room has it on in every turn: an interrupt
gives back the stack pointer and the segments that it found. -/
theorem turn_ready (hk : k.Sound lo hi K)
    (hprog : ∀ h, Ready k.tss lo hi h → Ready k.tss lo hi (prog h))
    (hr : Ready k.tss lo hi b.hw) (t : Turn) :
    Ready k.tss lo hi (turn k prog b t).hw := by
  cases t with
  | work => exact hprog _ hr
  | edge n => exact hr
  | mask m1 m2 => exact hr
  | take =>
      unfold turn
      dsimp only
      split
      · exact hr
      · cases b.irqs.pics.intAck with
        | none => exact hr
        | some r =>
            have hm := deliver_matches hk hr
              ⟨SameBut.refl _ b.hw, rfl, rfl, rfl⟩ r.1 r.2
            exact hr.congr hm.hw

end Served

end Ledger

/-- In every run after `irq_init`, of any code, from controllers in any state
and with any handlers, in which the trap stack has room for the frame and
the segments are flat wherever an interrupt may be taken: nothing is in
service between two turns; the edges latched on a line are those that were
served and the one that is pending, if one is; the devices are as the
handlers of the lines served, in their order, have left them; and the next
interrupt taken is that of the first line by priority that has a request
and is not masked. The code may read whatever the handlers write. -/
theorem irqs_served_once {δ : Type*} {k : Setup} {lo hi : Nat}
    {K : Nat → Prop} (hk : k.Sound lo hi K) (prog : Hw → Hw) (hw : Hw)
    (pics : Pics) (hs : Nat → Option (δ → δ)) (dev : δ) (turns : List Turn)
    (hroom : Along (turn k prog) (RoomToTake k lo hi)
      (boardStart hw pics hs dev) (turns ++ [.take])) :
    let b := exec (turn k prog) (boardStart hw pics hs dev) turns
    (∀ i, b.irqs.pics.pic1.isr i = false ∧ b.irqs.pics.pic2.isr i = false)
      ∧ (∀ n, b.latched.count n = b.served.count n
        + if b.irqs.pics.pending n then 1 else 0)
      ∧ b.irqs.dev = b.served.foldl (serve hs) dev
      ∧ (b.hw.eflags &&& FLAG_IF ≠ 0 →
        (turn k prog b .take).served
          = b.served ++ (priority.find? b.irqs.pics.wants).toList) := by
  intro b
  have hstart : Ledger hs dev (boardStart hw pics hs dev) := by
    refine ⟨picRemap_idle pics, rfl, rfl, fun n => ?_⟩
    show 0 = 0 + if (picRemap pics).pending n then 1 else 0
    rw [(picRemap_eq pics).2.2 n]
    rfl
  obtain ⟨hbefore, hlast, -⟩ := along_append.mp hroom
  have hb : Ledger hs dev b :=
    exec_inv (Ledger hs dev) (fun _ t ha hc => turn_keeps hk ha t hc) hstart
      hbefore
  change RoomToTake k lo hi b .take at hlast
  clear_value b
  refine ⟨fun i => ?_, hb.count, hb.dev, fun hflag => ?_⟩
  · rw [hb.idle.isr1, hb.idle.isr2]
    exact ⟨rfl, rfl⟩
  · obtain ⟨-, -, hserved⟩ := turn_irqs hk .take hlast
    rw [hserved, take_eq hb hflag]
    cases priority.find? b.irqs.pics.wants with
    | none => exact (List.append_nil _).symm
    | some n => rfl

/-- The counting program has room wherever it is interrupted. -/
theorem countingRoom :
    Along (turn countingSetup countingProg) (RoomToTake countingSetup 0x1000
      0x2000) countingBoard (countingTurns ++ [.take]) :=
  along_imp
    (fun b : Board Nat => Ready countingSetup.tss 0x1000 0x2000 b.hw)
    (fun _ t hr _ => ⟨turn_ready (countingSetup_sound 0x1000 0x2000 (by decide))
      (fun _ => countingProg_keeps) hr t, fun _ _ => hr⟩)
    (countingProg_ready 0)
    (along_of_mem (P := fun _ => True) fun _ _ => trivial)

theorem irqs_served_once_counting :
    (exec (turn countingSetup countingProg) countingBoard
        countingTurns).irqs.dev
      = (exec (turn countingSetup countingProg) countingBoard
        countingTurns).served.foldl (serve tickHandlers) 0 :=
  (irqs_served_once (countingSetup_sound 0x1000 0x2000 (by decide))
    countingProg countingHw ⟨rawChip, rawChip⟩ tickHandlers 0 countingTurns
    countingRoom).2.2.1

end Thuos.Arch
