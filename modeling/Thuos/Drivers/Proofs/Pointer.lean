/-
The mouse driver moves a pointer.

A `Pointer` is what the driver is for: a place on the screen, the buttons,
and whether anything has happened since last asked. Its place cannot be
off the screen. The bytes of the port are read as packets: what arrives
between two packets and is no first byte is noise, and every third byte
that is not noise completes a motion (`decode`). The driver is where the
pointer is after the motions of its bytes and reports
(`mouseStep_matches`), and the packets of a mouse decode to its motions
(`decode_sent`).
-/
import Thuos.Drivers.Mouse

namespace Thuos.Drivers

open Machine

-- ================================================================ the pointer

/-- A place on a screen of `W` by `H`, the buttons that are down, and
whether there is something to report. -/
structure Pointer (W H : Nat) where
  x : Fin W
  y : Fin H
  buttons : Fin 8
  moved : Bool
deriving DecidableEq

/-- A coordinate moved, as far as the edge. -/
def shift {n : Nat} (i : Fin n) (d : Int) : Fin n :=
  ⟨(max 0 (min (i + d) (n - 1))).toNat, by have := i.isLt; omega⟩

inductive PtrOp
  | move (dx dy : Int) (buttons : Fin 8)
  | take
deriving DecidableEq

def Pointer.step {W H : Nat} (p : Pointer W H) : PtrOp → Pointer W H
  | .move dx dy buttons => ⟨shift p.x dx, shift p.y dy, buttons, true⟩
  | .take => { p with moved := false }

/-- The middle of a screen is on it. -/
theorem half_lt {n : Nat} (h : 0 < n) : n / 2 < n := by omega

/-- That no button is down is one of the eight states of the three. -/
theorem noButtons_lt : 0 < 8 := by decide

/-- Three bits are left of whatever is injected. -/
theorem buttons_lt (buttons : Int) : (buttons % 8).toNat < 8 := by omega

/-- The pointer after `mouse_init`. -/
def Pointer.middle {W H : Nat} (hW : 0 < W) (hH : 0 < H) : Pointer W H where
  x := ⟨W / 2, half_lt hW⟩
  y := ⟨H / 2, half_lt hH⟩
  buttons := ⟨0, noButtons_lt⟩
  moved := true

-- ================================================================ the packets

/-- The bytes of a packet that is not complete. -/
inductive Pending
  | nothing
  | one (b0 : UInt8)
  | two (b0 b1 : UInt8)

/-- A count of nine bits: the sign is in the first byte. -/
def deltaOf (sign : Bool) (b : UInt8) : Int :=
  b.toNat - if sign then 256 else 0

def buttonsOf (b : UInt8) : Fin 8 :=
  ⟨(b &&& 0x07).toNat, by
    have : b &&& 0x07 ≤ 0x07 := UInt8.and_le_right
    exact Nat.lt_succ_of_le (UInt8.le_iff_toNat_le.mp this)⟩

/-- The motion of a packet: the screen's rows count downwards. -/
def packetMove (b0 b1 b2 : UInt8) : PtrOp :=
  .move (deltaOf (b0 &&& 0x10 ≠ 0) b1) (-deltaOf (b0 &&& 0x20 ≠ 0) b2)
    (buttonsOf b0)

/-- The motion that a byte completes, and what is pending then. -/
def decodeByte (b : UInt8) : Pending → List PtrOp × Pending
  | .nothing => if b &&& 0x08 = 0 then ([], .nothing) else ([], .one b)
  | .one b0 => ([], .two b0 b)
  | .two b0 b1 => ([packetMove b0 b1 b], .nothing)

def decodeOp (pend : Pending) : MouseOp → List PtrOp × Pending
  | .byte b => decodeByte b pend
  | .inject dx dy buttons =>
      ([.move dx dy ⟨(buttons % 8).toNat, buttons_lt buttons⟩], pend)
  | .take => ([.take], pend)

/-- What the operations do to the pointer. -/
def decode : Pending → List MouseOp → List PtrOp
  | _, [] => []
  | pend, op :: ops => (decodeOp pend op).1 ++ decode (decodeOp pend op).2 ops

-- ================================================================= refinement

/-- The bytes that the driver holds. -/
def Pending.held (m : Mouse) : Pending → Prop
  | .nothing => m.idx = 0
  | .one b0 => m.idx = 1 ∧ m.pkt 0 = b0
  | .two b0 b1 => m.idx = 2 ∧ m.pkt 0 = b0 ∧ m.pkt 1 = b1

/-- The driver, beside the pointer. -/
structure Shows {W H : Nat} (p : Pointer W H) (m : Mouse) : Prop where
  sw : m.sw = W
  sh : m.sh = H
  gx : m.gx = p.x
  gy : m.gy = p.y
  gbtn : m.gbtn = p.buttons
  gdirty : m.gdirty = p.moved

section Refine

variable {W H : Nat} {p : Pointer W H} {m : Mouse}

/-- A count of nine bits is its byte, less 256 where the sign bit is set. -/
theorem deltaOf_decide (P : Prop) [Decidable P] (b : UInt8) :
    deltaOf P b = b.toNat - if P then 256 else 0 := by
  unfold deltaOf
  simp only [decide_eq_true_eq]

/-- To bring a sum back to the screen is to move within it. -/
theorem clampTo_shift {n : Nat} (i : Fin n) (d : Int) :
    clampTo n (i + d) = shift i d := by
  have := i.isLt
  unfold clampTo shift
  dsimp only
  split
  · split <;> omega
  · split <;> omega

/-- The end of the two functions. -/
theorem mouseMoved_shows (hs : Shows p m) (dx dy : Int) (buttons : Fin 8) :
    Shows (p.step (.move dx dy buttons))
      (mouseMoved m (m.gx + dx) (m.gy + dy) buttons) := by
  refine ⟨hs.sw, hs.sh, ?_, ?_, rfl, rfl⟩
  · show clampTo m.sw (m.gx + dx) = _
    rw [hs.sw, hs.gx, clampTo_shift]
    rfl
  · show clampTo m.sh (m.gy + dy) = _
    rw [hs.sh, hs.gy, clampTo_shift]
    rfl

/-- The bytes of a packet that is under way are in the buffer, and the rest
of the driver does not matter. -/
theorem Pending.held_congr {m m' : Mouse} {pend : Pending}
    (h : pend.held m) (hidx : m'.idx = m.idx) (hpkt : m'.pkt = m.pkt) :
    pend.held m' := by
  cases pend with
  | nothing => exact hidx.trans h
  | one b0 => exact ⟨hidx.trans h.1, hpkt ▸ h.2⟩
  | two b0 b1 => exact ⟨hidx.trans h.1, hpkt ▸ h.2⟩

/-- One byte. -/
theorem mouseCb_matches (hs : Shows p m) {pend : Pending} (hp : pend.held m)
    (b : UInt8) :
    Shows (exec Pointer.step p (decodeByte b pend).1) (mouseCb m b)
      ∧ (decodeByte b pend).2.held (mouseCb m b) := by
  cases pend with
  | nothing =>
      have hidx : m.idx = 0 := hp
      unfold mouseCb decodeByte
      by_cases hb : b &&& 0x08 = 0
      · rw [if_pos hb, if_pos ⟨hidx, hb⟩]
        exact ⟨hs, hidx⟩
      · have hone : m.idx + 1 < 3 := by omega
        have hfirst : ¬ (m.idx = 0 ∧ b &&& 0x08 = 0) := fun h => hb h.2
        rw [if_neg hb, if_neg hfirst]
        dsimp only
        rw [if_pos hone]
        refine ⟨⟨hs.sw, hs.sh, hs.gx, hs.gy, hs.gbtn, hs.gdirty⟩, ?_, ?_⟩
        · show m.idx + 1 = 1
          omega
        · show Function.update m.pkt m.idx b 0 = b
          rw [hidx]
          exact Function.update_self ..
  | one b0 =>
      obtain ⟨hidx, h0⟩ := hp
      have hne : ¬ (m.idx = 0 ∧ b &&& 0x08 = 0) := fun h => by omega
      have htwo : m.idx + 1 < 3 := by omega
      unfold mouseCb decodeByte
      rw [if_neg hne]
      dsimp only
      rw [if_pos htwo]
      refine ⟨⟨hs.sw, hs.sh, hs.gx, hs.gy, hs.gbtn, hs.gdirty⟩, ?_, ?_, ?_⟩
      · show m.idx + 1 = 2
        omega
      · show Function.update m.pkt m.idx b 0 = b0
        rw [hidx]
        exact (Function.update_of_ne (by decide) ..).trans h0
      · show Function.update m.pkt m.idx b 1 = b
        rw [hidx]
        exact Function.update_self ..
  | two b0 b1 =>
      obtain ⟨hidx, h0, h1⟩ := hp
      have hne : ¬ (m.idx = 0 ∧ b &&& 0x08 = 0) := fun h => by omega
      have hthree : ¬ m.idx + 1 < 3 := by omega
      unfold mouseCb decodeByte
      rw [if_neg hne]
      dsimp only
      rw [if_neg hthree, hidx]
      have hpkt0 : Function.update m.pkt 2 b 0 = b0 :=
        (Function.update_of_ne (by decide) ..).trans h0
      have hpkt1 : Function.update m.pkt 2 b 1 = b1 :=
        (Function.update_of_ne (by decide) ..).trans h1
      have hpkt2 : Function.update m.pkt 2 b 2 = b := Function.update_self ..
      simp only [hpkt0, hpkt1, hpkt2]
      have hmoved := mouseMoved_shows (m := { m with
        pkt := Function.update m.pkt 2 b, idx := 0 })
        ⟨hs.sw, hs.sh, hs.gx, hs.gy, hs.gbtn, hs.gdirty⟩
        (deltaOf (b0 &&& 0x10 ≠ 0) b1) (-deltaOf (b0 &&& 0x20 ≠ 0) b)
        (buttonsOf b0)
      rw [← Int.sub_eq_add_neg] at hmoved
      have hmove : packetMove b0 b1 b
          = .move (deltaOf (b0 &&& 0x10 ≠ 0) b1)
            (-deltaOf (b0 &&& 0x20 ≠ 0) b) (buttonsOf b0) := rfl
      rw [deltaOf_decide, deltaOf_decide] at hmoved hmove
      show Shows (p.step (packetMove b0 b1 b)) _ ∧ _
      rw [hmove]
      exact ⟨hmoved, rfl⟩

/-- One operation. -/
theorem mouseStep_matches (hs : Shows p m) {pend : Pending}
    (hp : pend.held m) (op : MouseOp) :
    Shows (exec Pointer.step p (decodeOp pend op).1) (mouseStep m op)
      ∧ (decodeOp pend op).2.held (mouseStep m op) := by
  cases op with
  | byte b => exact mouseCb_matches hs hp b
  | inject dx dy buttons =>
      have hW := p.x.isLt
      have hH := p.y.isLt
      have hscreen : ¬ (m.sw ≤ 0 ∨ m.sh ≤ 0) := by
        rw [hs.sw, hs.sh]
        omega
      have hbuttons : buttons % 8
          = ((⟨(buttons % 8).toNat, buttons_lt buttons⟩ : Fin 8) : Nat) := by
        show buttons % 8 = ((buttons % 8).toNat : Int)
        omega
      have hstep : mouseStep m (.inject dx dy buttons)
          = mouseMoved m (m.gx + dx) (m.gy + dy)
            ((⟨(buttons % 8).toNat, buttons_lt buttons⟩ : Fin 8) : Nat) := by
        rw [← hbuttons]
        exact if_neg hscreen
      rw [hstep]
      exact ⟨mouseMoved_shows hs dx dy _, Pending.held_congr hp rfl rfl⟩
  | take =>
      show Shows _ (mouseTakeEvent m).1 ∧ pend.held (mouseTakeEvent m).1
      unfold mouseTakeEvent
      cases hdirty : m.gdirty with
      | false =>
          refine ⟨⟨hs.sw, hs.sh, hs.gx, hs.gy, hs.gbtn, hdirty⟩, hp⟩
      | true =>
          exact ⟨⟨hs.sw, hs.sh, hs.gx, hs.gy, hs.gbtn, rfl⟩,
            Pending.held_congr hp rfl rfl⟩

/-- A run of operations. -/
theorem exec_matches (hs : Shows p m) {pend : Pending} (hp : pend.held m)
    (ops : List MouseOp) :
    Shows (exec Pointer.step p (decode pend ops)) (exec mouseStep m ops) := by
  induction ops generalizing p m pend with
  | nil => exact hs
  | cons op ops ih =>
      obtain ⟨hs', hp'⟩ := mouseStep_matches hs hp op
      rw [decode, exec_append]
      exact ih hs' hp'

end Refine

/-- `mouse_init` puts the pointer in the middle, with no packet under way. -/
theorem mouseInit_shows (m : Mouse) {W H : Nat} (hW : 0 < W) (hH : 0 < H) :
    Shows (Pointer.middle hW hH) (mouseInit m W H)
      ∧ Pending.nothing.held (mouseInit m W H) :=
  ⟨⟨rfl, rfl, rfl, rfl, rfl, rfl⟩, rfl⟩

-- ================================================================== the mouse

/-- What a mouse sends: a packet, or a byte between two packets that is no
first byte. -/
inductive Sent
  | packet (dx dy : Int) (buttons : Fin 8)
  | noise (b : UInt8)

/-- The counts of a packet have nine bits, and noise has bit 3 clear. -/
def Sent.Valid : Sent → Prop
  | .packet dx dy _ => (-256 ≤ dx ∧ dx < 256) ∧ -256 ≤ dy ∧ dy < 256
  | .noise b => b &&& 0x08 = 0

/-- The first byte of a packet. -/
def header (left down : Bool) (buttons : Fin 8) : UInt8 :=
  0x08 ||| UInt8.ofNat buttons ||| (if left then 0x10 else 0)
    ||| if down then 0x20 else 0

/-- The bytes. -/
def Sent.bytes : Sent → List UInt8
  | .packet dx dy buttons =>
      [header (dx < 0) (dy < 0) buttons, UInt8.ofNat (dx % 256).toNat,
        UInt8.ofNat (dy % 256).toNat]
  | .noise b => [b]

/-- The motion: the mouse counts upwards. -/
def Sent.moves : Sent → List PtrOp
  | .packet dx dy buttons => [.move dx (-dy) buttons]
  | .noise _ => []

/-- The first byte of a packet says where its signs are and which buttons are
down. -/
theorem header_spec : ∀ (left down : Bool) (buttons : Fin 8),
    header left down buttons &&& 0x08 ≠ 0
      ∧ (decide (header left down buttons &&& 0x10 ≠ 0) = left)
      ∧ (decide (header left down buttons &&& 0x20 ≠ 0) = down)
      ∧ buttonsOf (header left down buttons) = buttons := by
  decide

/-- The nine bits of a count. -/
theorem deltaOf_low {d : Int} (hlow : -256 ≤ d) (hhigh : d < 256) :
    deltaOf (d < 0) (UInt8.ofNat (d % 256).toNat) = d := by
  have hbyte : (UInt8.ofNat (d % 256).toNat).toNat = (d % 256).toNat := by
    rw [UInt8.toNat_ofNat']
    exact Nat.mod_eq_of_lt (by omega)
  unfold deltaOf
  rw [hbyte]
  by_cases hneg : d < 0
  · rw [decide_eq_true hneg, if_pos rfl]
    omega
  · rw [decide_eq_false hneg, if_neg Bool.false_ne_true]
    omega

/-- Between two packets, what a mouse sends is its motions. -/
theorem decode_sent (sent : List Sent) (hv : ∀ s ∈ sent, s.Valid)
    (ops : List MouseOp) :
    decode .nothing ((sent.flatMap Sent.bytes).map MouseOp.byte ++ ops)
      = sent.flatMap Sent.moves ++ decode .nothing ops := by
  induction sent with
  | nil => rfl
  | cons s sent ih =>
      obtain ⟨hs, hrest⟩ := List.forall_mem_cons.mp hv
      have ih := ih hrest
      cases s with
      | noise b =>
          have hb : b &&& 0x08 = 0 := hs
          have hstep : decodeOp .nothing (.byte b) = ([], .nothing) :=
            if_pos hb
          rw [List.flatMap_cons, List.flatMap_cons]
          show decode .nothing (.byte b :: _) = _
          rw [decode, hstep]
          exact ih
      | packet dx dy buttons =>
          obtain ⟨⟨hdx, hdx'⟩, hdy, hdy'⟩ := hs
          obtain ⟨hfirst, hleft, hdown, hbuttons⟩ :=
            header_spec (dx < 0) (dy < 0) buttons
          have hone : decodeOp .nothing
              (.byte (header (dx < 0) (dy < 0) buttons))
              = ([], .one (header (dx < 0) (dy < 0) buttons)) :=
            if_neg hfirst
          have hmove : packetMove (header (dx < 0) (dy < 0) buttons)
              (UInt8.ofNat (dx % 256).toNat) (UInt8.ofNat (dy % 256).toNat)
              = .move dx (-dy) buttons := by
            unfold packetMove
            rw [hleft, hdown, hbuttons, deltaOf_low hdx hdx',
              deltaOf_low hdy hdy']
          rw [List.flatMap_cons, List.flatMap_cons]
          show decode .nothing (.byte _ :: .byte _ :: .byte _ :: _) = _
          rw [decode, hone]
          show packetMove _ _ _ :: decode .nothing _ = _
          rw [hmove]
          exact congrArg _ ih

-- ================================================================ whole runs

/-- For every run of bytes, reports and questions from `mouse_init` on: the
driver is where the pointer is, and reports what the pointer reports. A
count of a packet, or of a report of `xhci.c`, is a byte or nine bits, so on
a screen with room for it the sums that the driver makes next are `int`s. -/
theorem mouse_points (m : Mouse) {W H : Nat} (hW : 0 < W) (hH : 0 < H)
    (ops : List MouseOp) :
    let p := exec Pointer.step (Pointer.middle hW hH) (decode .nothing ops)
    let m' := exec mouseStep (mouseInit m W H) ops
    Shows p m'
      ∧ (0 ≤ m'.gx ∧ m'.gx < W) ∧ (0 ≤ m'.gy ∧ m'.gy < H)
      ∧ (mouseTakeEvent m').2 = (if p.moved then 1 else 0)
      ∧ (W + 256 ≤ 2 ^ 31 → H + 256 ≤ 2 ^ 31 → ∀ d : Int, -256 ≤ d → d ≤ 256 →
        (-2 ^ 31 ≤ m'.gx + d ∧ m'.gx + d < 2 ^ 31)
          ∧ -2 ^ 31 ≤ m'.gy + d ∧ m'.gy + d < 2 ^ 31) := by
  intro p m'
  obtain ⟨hstart, hpend⟩ := mouseInit_shows m hW hH
  have hs : Shows p m' := exec_matches hstart hpend ops
  have hx := p.x.isLt
  have hy := p.y.isLt
  have hgx := hs.gx
  have hgy := hs.gy
  refine ⟨hs, by omega, by omega, ?_, fun _ _ d _ _ => by omega⟩
  unfold mouseTakeEvent
  rw [hs.gdirty]
  cases p.moved with
  | false => rfl
  | true => rfl

/-- The statics at boot. -/
def Mouse.boot : Mouse := ⟨0, 0, 0, false, 0, 0, fun _ => 0, 0⟩

/-- A byte out of step is dropped, and the two behind it begin a packet. -/
theorem mouse_points_packet :
    Shows
      (exec Pointer.step (Pointer.middle (W := 1024) (H := 768) (by decide)
        (by decide)) (decode .nothing [.byte 0x40, .byte 0x18, .byte 0xFE]))
      (exec mouseStep (mouseInit Mouse.boot 1024 768)
        [.byte 0x40, .byte 0x18, .byte 0xFE]) :=
  (mouse_points Mouse.boot (by decide) (by decide) _).1

/-- What reaches the driver: the mouse sends, a report is injected, or the
desktop asks. -/
inductive MouseEvent
  | sent (s : Sent)
  | inject (dx dy buttons : Int)
  | take

def MouseEvent.ops : MouseEvent → List MouseOp
  | .sent s => s.bytes.map MouseOp.byte
  | .inject dx dy buttons => [.inject dx dy buttons]
  | .take => [.take]

def MouseEvent.moves : MouseEvent → List PtrOp
  | .sent s => s.moves
  | .inject dx dy buttons =>
      [.move dx dy ⟨(buttons % 8).toNat, buttons_lt buttons⟩]
  | .take => [.take]

def MouseEvent.Valid : MouseEvent → Prop
  | .sent s => s.Valid
  | _ => True

/-- The decoder finds the packets again, with noise between them and reports
in between. -/
theorem decode_events (events : List MouseEvent) (hv : ∀ e ∈ events, e.Valid) :
    decode .nothing (events.flatMap MouseEvent.ops)
      = events.flatMap MouseEvent.moves := by
  induction events with
  | nil => rfl
  | cons e events ih =>
      obtain ⟨he, hrest⟩ := List.forall_mem_cons.mp hv
      rw [List.flatMap_cons, List.flatMap_cons, ← ih hrest]
      cases e with
      | sent s =>
          have hs : ∀ t ∈ [s], t.Valid := by
            intro t ht
            rw [List.mem_singleton.mp ht]
            exact he
          have hsent := decode_sent [s] hs (events.flatMap MouseEvent.ops)
          rw [List.flatMap_singleton, List.flatMap_singleton] at hsent
          exact hsent
      | inject dx dy buttons => rfl
      | take => rfl

/-- The pointer makes every motion that the mouse has sent or that was
injected, in their order, with no byte lost or taken twice, whatever noise
there is between the packets. -/
theorem mouse_follows (m : Mouse) {W H : Nat} (hW : 0 < W) (hH : 0 < H)
    (events : List MouseEvent) (hv : ∀ e ∈ events, e.Valid) :
    Shows
      (exec Pointer.step (Pointer.middle hW hH)
        (events.flatMap MouseEvent.moves))
      (exec mouseStep (mouseInit m W H) (events.flatMap MouseEvent.ops)) := by
  have hrun := (mouse_points m hW hH (events.flatMap MouseEvent.ops)).1
  rw [decode_events events hv] at hrun
  exact hrun

/-- A byte that is out of place, a packet, a question and a report. -/
def noisyEvents : List MouseEvent :=
  [.sent (.noise 0xF2), .sent (.packet (-3) 200 (buttonsOf 1)), .take,
    .inject 4 4 9]

/-- The noise of the example has no synchronisation bit. -/
theorem noisyEvents_valid : ∀ e ∈ noisyEvents, e.Valid := by
  have hnoise : (0xF2 : UInt8) &&& 0x08 = 0 := by decide
  simp [noisyEvents, MouseEvent.Valid, Sent.Valid, hnoise]

/-- Noise, a packet, a question of the desktop, and a report that is
injected. -/
theorem mouse_follows_noise :
    Shows
      (exec Pointer.step (Pointer.middle (W := 1024) (H := 768) (by decide)
        (by decide)) (noisyEvents.flatMap MouseEvent.moves))
      (exec mouseStep (mouseInit Mouse.boot 1024 768)
        (noisyEvents.flatMap MouseEvent.ops)) :=
  mouse_follows Mouse.boot (by decide) (by decide) noisyEvents
    noisyEvents_valid

end Thuos.Drivers
