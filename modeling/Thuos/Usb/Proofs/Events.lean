/-
The event ring as a queue: what the controller has posted and the driver
has not taken yet is `unread`, and a read of the ring takes its head.

`EventsOk` is the invariant behind it: the ring holds the posted events
(`CycleRing.Laid`), controller and driver stand at the slots and bits of
their counts, and the dequeue pointer that the driver last reported is
the slot it reads next, so that the controller stays less than a lap
ahead. Every step of either party keeps it.

The second half turns the driver's loops into rules: an assertion that
the surroundings and a skipped event keep holds when `wait_event` returns
(`holds_waitEvent`), and one that the surroundings keep holds across
`port_reset` (`holds_portReset`).
-/
import Thuos.Lib.CycleRing
import Thuos.Usb.Xhci

namespace Thuos.Usb

open CycleRing Coroutine Word32

-- ==================================================== the words of an event

namespace Event

/-- The low word of a Transfer Event: the endpoint and the type. -/
theorem transfer_word (target : Nat) :
    ((target % 32) <<< 16) ||| (TRB_TRANSFER_EVT <<< 10)
      = target % 32 * 2 ^ 16 + 2 ^ 15 := by
  rw [Nat.shiftLeft_eq]
  exact or_low _ (by decide)

/-- The fields of a Command Completion Event. -/
theorem command_fields (wk : Work) (cc : UInt8) (slot : Nat) :
    (command wk cc slot).trb.slot = slot % 256
      ∧ (command wk cc slot).trb.type = TRB_CMD_COMPLETE
      ∧ (command wk cc slot).trb.cycle = 0 := by
  obtain ⟨hslot, htype, hcycle⟩ := Trb.fields_of_control
    (t := (command wk cc slot).trb) rfl (by decide)
  exact ⟨hslot.trans (Nat.mod_mod slot 256), htype, hcycle⟩

/-- The fields of a Transfer Event. -/
theorem transfer_fields (wk : Work) (cc : UInt8) :
    (transfer wk cc).trb.slot = wk.slot % 256
      ∧ (transfer wk cc).trb.type = TRB_TRANSFER_EVT
      ∧ (transfer wk cc).trb.cycle = 0 := by
  have hword := transfer_word wk.target
  have hlt := Nat.mod_lt wk.target (show 32 > 0 by decide)
  obtain ⟨hslot, htype, hcycle⟩ := Trb.fields_of_control
    (t := (transfer wk cc).trb) rfl (by omega)
  rw [hword] at htype hcycle
  refine ⟨hslot.trans (Nat.mod_mod _ 256), ?_, ?_⟩
  · rw [htype]
    show _ = 32
    omega
  · rw [hcycle]
    omega

/-- The event that reports a command is a command completion. -/
@[simp] theorem command_type (wk : Work) (cc : UInt8) (slot : Nat) :
    (command wk cc slot).trb.type = TRB_CMD_COMPLETE :=
  (command_fields wk cc slot).2.1

/-- The event that reports a command carries the slot, as the byte that it
has room for. -/
@[simp] theorem command_slot (wk : Work) (cc : UInt8) (slot : Nat) :
    (command wk cc slot).trb.slot = slot % 256 :=
  (command_fields wk cc slot).1

/-- The event that reports a transfer is a transfer event. -/
@[simp] theorem transfer_type (wk : Work) (cc : UInt8) :
    (transfer wk cc).trb.type = TRB_TRANSFER_EVT :=
  (transfer_fields wk cc).2.1

/-- The event that reports a transfer carries the slot of the work. -/
@[simp] theorem transfer_slot (wk : Work) (cc : UInt8) :
    (transfer wk cc).trb.slot = wk.slot % 256 :=
  (transfer_fields wk cc).1

/-- The event that reports a transfer carries the completion code. -/
@[simp] theorem transfer_code (wk : Work) (cc : UInt8) :
    (transfer wk cc).trb.code = cc.toNat := by
  have hlt := cc.toNat_lt
  rw [Trb.code_eq]
  show cc.toNat <<< 24 / 2 ^ 24 % 2 ^ 8 = cc.toNat
  rw [Nat.shiftLeft_eq]
  omega

/-- The controller writes an event under its own cycle bit. -/
theorem cycle_clear : ∀ e : Event, e.trb.cycle = 0
  | .notice n => n.cycle_clear
  | .command wk cc slot => (command_fields wk cc slot).2.2
  | .transfer wk cc => (transfer_fields wk cc).2.2

/-- Whether an event is of a transfer is seen from its type. -/
theorem isTransfer_iff (e : Event) :
    e.isTransfer = true ↔ e.trb.type = TRB_TRANSFER_EVT := by
  cases e with
  | notice n =>
      exact ⟨fun h => Bool.noConfusion h, fun h => absurd h n.not_transfer⟩
  | command wk cc slot =>
      rw [command_type]
      exact ⟨fun h => Bool.noConfusion h, fun h => absurd h (by decide)⟩
  | transfer wk cc => exact ⟨fun _ => transfer_type wk cc, fun _ => rfl⟩

/-- What a reader of the ring sees of an event. -/
theorem stamp_fields (e : Event) {c : Nat} (hc : c < 2) :
    (e.trb.stamp c).type = e.trb.type ∧ (e.trb.stamp c).code = e.trb.code
      ∧ (e.trb.stamp c).slot = e.trb.slot := by
  refine ⟨Trb.type_stamp e.cycle_clear hc, rfl, ?_⟩
  have hctl := Trb.stamp_control e.cycle_clear hc
  have hclear := e.cycle_clear
  rw [Trb.cycle_eq] at hclear
  rw [Trb.slot_eq, Trb.slot_eq, hctl]
  omega

end Event

-- ================================================ the steps of the controller

namespace Controller

variable {l : Layout}

/-- An event that is posted is the last of those posted. -/
@[simp] theorem post_posted (hc : Controller) (e : Event) :
    (hc.post e).posted = hc.posted ++ [e] := by
  unfold post; dsimp only; split <;> rfl

/-- To post an event takes no work away. -/
@[simp] theorem post_outstanding (hc : Controller) (e : Event) :
    (hc.post e).outstanding = hc.outstanding := by
  unfold post; dsimp only; split <;> rfl

/-- To post an event enables no slot. -/
@[simp] theorem post_enabled (hc : Controller) (e : Event) :
    (hc.post e).enabled = hc.enabled := by
  unfold post; dsimp only; split <;> rfl

/-- To post an event writes to the event ring and to no buffer. -/
@[simp] theorem post_mem (hc : Controller) (e : Event) :
    (hc.post e).mem = hc.mem := by
  unfold post; dsimp only; split <;> rfl

/-- To post an event is not to send a report. -/
@[simp] theorem post_reports (hc : Controller) (e : Event) :
    (hc.post e).reports = hc.reports := by
  unfold post; dsimp only; split <;> rfl

/-- ERDP is written by the driver only. -/
@[simp] theorem post_erdp (hc : Controller) (e : Event) :
    (hc.post e).erdp = hc.erdp := by
  unfold post; dsimp only; split <;> rfl

/-- The event is written to the slot where the controller stands, with its
cycle bit. -/
@[simp] theorem post_evtRing (hc : Controller) (e : Event) :
    (hc.post e).evtRing
      = Function.update hc.evtRing hc.enq (e.trb.stamp hc.pcs) := by
  unfold post; dsimp only; split <;> rfl

/-- Behind the last slot the controller goes back to the first and turns its
bit over. -/
theorem post_index (hc : Controller) (e : Event) :
    ((hc.post e).enq, (hc.post e).pcs)
      = if hc.enq + 1 = EVT_TRBS then (0, hc.pcs ^^^ 1)
        else (hc.enq + 1, hc.pcs) := by
  unfold post; dsimp only; split <;> rfl

/-- The bytes that a transfer leaves in the buffers. -/
def landed (hc : Controller) (wk : Work) (data : List UInt8) : ByteMem.Mem :=
  match wk.window with
  | some (a, len) => hc.mem.write a (data.take len)
  | none => hc.mem

/-- The report that a completed transfer delivers. -/
def delivered (hc : Controller) (l : Layout) (wk : Work)
    (data : List UInt8) : List Report :=
  match wk.ring with
  | .epi i => [(i, (hc.landed wk data).read (l.hidBufAt i) 8)]
  | _ => []

/-- Everything a step of the controller can do. -/
inductive Steps (l : Layout) (hc : Controller) : Controller → Prop
  | stays : Steps l hc hc
  | portsc (port value : Nat) :
      Steps l hc { hc with portsc := Function.update hc.portsc port value }
  | notice (n : Notice) (room : hc.Room l) : Steps l hc (hc.post (.notice n))
  | granted (wk : Work) (slot : Nat) (mem : wk ∈ hc.outstanding)
      (room : hc.Room l) (enables : wk.enables = true) (pos : 0 < slot)
      (lt : slot < 64) (fresh : slot ∉ hc.enabled) :
      Steps l hc ({ hc.finish wk with enabled := slot :: hc.enabled }.post
        (.command wk 1 slot))
  | refused (wk : Work) (cc : UInt8) (mem : wk ∈ hc.outstanding)
      (room : hc.Room l) (enables : wk.enables = true) (fails : cc ≠ 1) :
      Steps l hc ((hc.finish wk).post (.command wk cc 0))
  | replied (wk : Work) (cc : UInt8) (mem : wk ∈ hc.outstanding)
      (room : hc.Room l) (cmd : wk.ring = .cmd)
      (other : wk.enables = false) :
      Steps l hc ((hc.finish wk).post (.command wk cc wk.cmdSlot))
  | transferred (wk : Work) (cc : UInt8) (data : List UInt8)
      (mem : wk ∈ hc.outstanding) (room : hc.Room l)
      (transfer : wk.ring ≠ .cmd) :
      Steps l hc ({ hc.finish wk with
        mem := hc.landed wk data
        reports := hc.reports ++ hc.delivered l wk data }.post
          (.transfer wk cc))

/-- A transfer that is complete has its data in the buffer, its report
recorded and its event posted. -/
theorem completeTransfer_eq (hc : Controller) (wk : Work) (cc : UInt8)
    (data : List UInt8) :
    (hc.finish wk).completeTransfer l wk cc data
      = { hc.finish wk with
          mem := hc.landed wk data
          reports := hc.reports ++ hc.delivered l wk data }.post
            (.transfer wk cc) := by
  unfold completeTransfer delivered
  dsimp only
  cases wk.ring with
  | cmd => rw [List.append_nil]; rfl
  | ep0 i => rw [List.append_nil]; rfl
  | epi i => rfl

/-- A move of the controller is one of the small steps that the invariants
are about. -/
theorem act_steps (hc : Controller) (m : Move) : Steps l hc (hc.act l m) := by
  cases m with
  | portsc port value => exact .portsc port value
  | notice n =>
      unfold act
      dsimp only
      split
      · next hroom => exact .notice n hroom
      · exact .stays
  | complete id cc slot data =>
      unfold act
      dsimp only
      split
      · exact .stays
      · next wk hwk =>
          have hmem : wk ∈ hc.outstanding := List.mem_of_find?_eq_some hwk
          split
          · next hallows =>
              obtain ⟨hroom, hgrant⟩ := hallows
              split
              · next hcmd =>
                  unfold completeCommand
                  cases hen : wk.enables with
                  | true =>
                      rw [if_pos rfl]
                      by_cases hcc : cc = 1
                      · obtain ⟨hpos, hlt, hfresh⟩ := hgrant hen hcc
                        rw [if_pos hcc, hcc]
                        exact .granted wk slot hmem hroom hen hpos hlt hfresh
                      · rw [if_neg hcc]
                        exact .refused wk cc hmem hroom hen hcc
                  | false =>
                      rw [if_neg Bool.false_ne_true]
                      exact .replied wk cc hmem hroom hcmd hen
              · next hcmd =>
                  rw [completeTransfer_eq]
                  exact .transferred wk cc data hmem hroom hcmd
          · exact .stays

end Controller

-- ============================================================ the invariant

/-- The events posted and not taken. -/
def World.unread (w : World) : List Event := w.hc.posted.drop w.drv.taken

/-- A slot of the event ring that holds `e` under the bit `b`. -/
def putEvent (e : Event) (b : Nat) : Trb := e.trb.stamp b

/-- The cycle bit that an event is written with is the one that is read. -/
theorem cycle_putEvent (e : Event) (b : Nat) (hb : b < 2) :
    (putEvent e b).cycle = b :=
  Trb.cycle_stamp e.cycle_clear hb

structure EventsOk (l : Layout) (w : World) : Prop where
  laid : Laid EVT_TRBS putEvent Trb.cycle w.hc.evtRing w.hc.posted
  enq : w.hc.enq = w.hc.posted.length % EVT_TRBS
  pcs : w.hc.pcs = lap EVT_TRBS w.hc.posted.length
  deq : w.drv.evtDeq = w.drv.taken % EVT_TRBS
  cyc : w.drv.evtCyc = lap EVT_TRBS w.drv.taken
  erdp : w.hc.dequeue l = w.drv.taken % EVT_TRBS
  le : w.drv.taken ≤ w.hc.posted.length
  room : w.hc.posted.length < w.drv.taken + EVT_TRBS

section Invariant

variable {l : Layout} {w : World}

/-- After the set-up the event ring is empty on both sides. -/
theorem start_events (l : Layout) (scratch : Nat) :
    EventsOk l (World.start l scratch) where
  laid := laid_nil fun _ _ => Trb.cycle_zero
  enq := rfl
  pcs := (lap_of_lt (k := 0) (by decide)).symm
  deq := rfl
  cyc := (lap_of_lt (k := 0) (by decide)).symm
  erdp := by
    have halign := Nat.div_mul_cancel (Dvd.dvd.trans (by decide) l.evtRing_aligned
      : 16 ∣ l.evtRing)
    show (l.evtRing / 16 * 16 - l.evtRing) / 16 = 0
    rw [halign, Nat.sub_self]
  le := Nat.le_refl 0
  room := show 0 < 0 + EVT_TRBS by decide

/-- A step that leaves the ring and both parties' places alone. -/
theorem EventsOk.congr {v : World} (h : EventsOk l w)
    (hring : v.hc.evtRing = w.hc.evtRing) (henq : v.hc.enq = w.hc.enq)
    (hpcs : v.hc.pcs = w.hc.pcs) (herdp : v.hc.erdp = w.hc.erdp)
    (hposted : v.hc.posted = w.hc.posted)
    (hdeq : v.drv.evtDeq = w.drv.evtDeq) (hcyc : v.drv.evtCyc = w.drv.evtCyc)
    (htaken : v.drv.taken = w.drv.taken) : EventsOk l v where
  laid := by rw [hring, hposted]; exact h.laid
  enq := by rw [henq, hposted]; exact h.enq
  pcs := by rw [hpcs, hposted]; exact h.pcs
  deq := by rw [hdeq, htaken]; exact h.deq
  cyc := by rw [hcyc, htaken]; exact h.cyc
  erdp := by
    show (v.hc.erdp / 16 * 16 - l.evtRing) / 16 = _
    rw [herdp, htaken]
    exact h.erdp
  le := by rw [htaken, hposted]; exact h.le
  room := by rw [htaken, hposted]; exact h.room

/-- The controller posts an event where there is room. -/
theorem EventsOk.post {hc : Controller} (h : EventsOk l { w with hc := hc })
    (hroom : hc.Room l) (e : Event) :
    EventsOk l { w with hc := hc.post e } := by
  have hindex : ((hc.post e).enq, (hc.post e).pcs)
      = ((hc.posted.length + 1) % EVT_TRBS,
          lap EVT_TRBS (hc.posted.length + 1)) := by
    rw [Controller.post_index, show hc.enq = _ from h.enq,
      show hc.pcs = _ from h.pcs]
    exact step_index (by decide)
  obtain ⟨henq, hpcs⟩ := Prod.mk.inj hindex
  have hlen : (hc.post e).posted.length = hc.posted.length + 1 := by
    rw [Controller.post_posted, List.length_append, List.length_singleton]
  have hle : w.drv.taken ≤ hc.posted.length := h.le
  have hlt : hc.posted.length < w.drv.taken + EVT_TRBS := h.room
  exact {
    laid := by
      show Laid EVT_TRBS putEvent Trb.cycle (hc.post e).evtRing
        (hc.post e).posted
      rw [Controller.post_posted, Controller.post_evtRing]
      refine h.laid.push (by decide) e ?_ fun i _ hne => ?_
      · show Function.update hc.evtRing hc.enq _ (hc.posted.length % EVT_TRBS)
          = _
        rw [show hc.enq = hc.posted.length % EVT_TRBS from h.enq,
          show hc.pcs = _ from h.pcs, Function.update_self]
        rfl
      · exact Function.update_of_ne
          (show i ≠ hc.enq from h.enq ▸ hne) _ _
    enq := by
      show (hc.post e).enq = (hc.post e).posted.length % EVT_TRBS
      rw [hlen, henq]
    pcs := by
      show (hc.post e).pcs = lap EVT_TRBS (hc.post e).posted.length
      rw [hlen, hpcs]
    deq := h.deq
    cyc := h.cyc
    erdp := by
      show ((hc.post e).erdp / 16 * 16 - l.evtRing) / 16 = _
      rw [Controller.post_erdp]
      exact h.erdp
    le := by
      show w.drv.taken ≤ (hc.post e).posted.length
      omega
    room := by
      show (hc.post e).posted.length < w.drv.taken + EVT_TRBS
      rw [hlen]
      -- the ring is full exactly when the next slot is the dequeue slot
      by_contra hfull
      refine hroom ?_
      have heq : hc.posted.length + 1 = w.drv.taken + EVT_TRBS := by omega
      show (hc.enq + 1) % EVT_TRBS = hc.dequeue l
      rw [show hc.dequeue l = w.drv.taken % EVT_TRBS from h.erdp,
        show hc.enq = hc.posted.length % EVT_TRBS from h.enq,
        Nat.mod_add_mod, heq, Nat.add_mod_right] }

/-- The driver is less than a lap behind. -/
theorem EventsOk.unread_lt (h : EventsOk l w) :
    w.unread.length < EVT_TRBS := by
  have hle := h.le
  have hlt := h.room
  unfold World.unread
  rw [List.length_drop]
  omega

/-- A posted event is unread, after those that were. -/
theorem EventsOk.post_unread (h : EventsOk l w) {hc : Controller} (e : Event)
    (hposted : hc.posted = w.hc.posted) :
    ({ w with hc := hc.post e } : World).unread = w.unread ++ [e] := by
  show (hc.post e).posted.drop w.drv.taken = _
  rw [Controller.post_posted, hposted]
  exact List.drop_append_of_le_length h.le

/-- A step of the controller. -/
theorem EventsOk.steps (h : EventsOk l w) {hc : Controller}
    (hsteps : w.hc.Steps l hc) : EventsOk l { w with hc := hc } := by
  cases hsteps with
  | stays => exact h
  | portsc port value => exact h.congr rfl rfl rfl rfl rfl rfl rfl rfl
  | notice n room => exact h.post room _
  | granted wk slot mem room enables pos lt fresh =>
      have hquiet : EventsOk l { w with
          hc := { w.hc.finish wk with enabled := slot :: w.hc.enabled } } :=
        h.congr rfl rfl rfl rfl rfl rfl rfl rfl
      exact hquiet.post room _
  | refused wk cc mem room enables fails =>
      have hquiet : EventsOk l { w with hc := w.hc.finish wk } :=
        h.congr rfl rfl rfl rfl rfl rfl rfl rfl
      exact hquiet.post room _
  | replied wk cc mem room cmd other =>
      have hquiet : EventsOk l { w with hc := w.hc.finish wk } :=
        h.congr rfl rfl rfl rfl rfl rfl rfl rfl
      exact hquiet.post room _
  | transferred wk cc data mem room transfer =>
      have hquiet : EventsOk l { w with
          hc := { w.hc.finish wk with
            mem := w.hc.landed wk data
            reports := w.hc.reports ++ w.hc.delivered l wk data } } :=
        h.congr rfl rfl rfl rfl rfl rfl rfl rfl
      exact hquiet.post room _

-- =========================================================== taking an event

/-- With nothing unread the driver sees no new event. -/
theorem peek_none (h : EventsOk l w) (hnil : w.unread = []) :
    w.peek = none := by
  have hall : w.hc.posted.length ≤ w.drv.taken := List.drop_eq_nil_iff.mp hnil
  have hroom := h.room
  have hiff := h.laid.bit_iff (by decide) cycle_putEvent h.le (by omega)
  unfold World.peek
  dsimp only
  rw [h.deq, h.cyc, if_neg fun hbit => absurd (hiff.mp hbit) (by omega)]

/-- The event that waits first is the one behind those taken, and the others
follow it. -/
theorem unread_cons {e : Event} {es : List Event} (hcons : w.unread = e :: es) :
    ∃ hlt : w.drv.taken < w.hc.posted.length,
      w.hc.posted[w.drv.taken] = e
        ∧ w.hc.posted.drop (w.drv.taken + 1) = es := by
  have hlt : w.drv.taken < w.hc.posted.length := by
    by_contra hge
    rw [World.unread, List.drop_eq_nil_of_le (by omega)] at hcons
    cases hcons
  rw [World.unread, List.drop_eq_getElem_cons hlt] at hcons
  obtain ⟨hhead, htail⟩ := List.cons.inj hcons
  exact ⟨hlt, hhead, htail⟩

/-- With an event unread the driver sees the oldest one. -/
theorem peek_some (h : EventsOk l w) {e : Event} {es : List Event}
    (hcons : w.unread = e :: es) :
    w.peek = some (e.trb.stamp (lap EVT_TRBS w.drv.taken)) := by
  obtain ⟨hlt, rfl, -⟩ := unread_cons hcons
  have hroom := h.room
  have hiff := h.laid.bit_iff (by decide) cycle_putEvent h.le (by omega)
  unfold World.peek
  dsimp only
  rw [h.deq, h.cyc, if_pos (hiff.mpr hlt), h.laid.get hlt (by omega)]
  rfl

/-- A taking counts one event more. -/
@[simp] theorem take_taken (w : World) :
    (w.take l).drv.taken = w.drv.taken + 1 := rfl

/-- A taking leaves the record of what was posted alone. -/
@[simp] theorem take_posted (w : World) :
    (w.take l).hc.posted = w.hc.posted := rfl

/-- After a taking, the events that wait are those behind the first. -/
theorem take_unread {e : Event} {es : List Event}
    (hcons : w.unread = e :: es) : (w.take l).unread = es :=
  (unread_cons hcons).2.2

/-- The word that the driver writes to ERDP, without its flags, addresses
a slot of the ring. -/
theorem Layout.erdp_pointer (l : Layout) (k : Nat) :
    ((l.evtRing + 16 * k) ||| (1 <<< 3)) / 16 * 16 = l.evtRing + 16 * k := by
  obtain ⟨j, hj⟩ : 16 ∣ l.evtRing := Dvd.dvd.trans (by decide) l.evtRing_aligned
  have hor : (j + k) * 2 ^ 4 ||| (1 <<< 3) = (j + k) * 2 ^ 4 + (1 <<< 3) :=
    or_low _ (by decide)
  rw [hj, show 16 * j + 16 * k = (j + k) * 2 ^ 4 from by omega, hor]
  show ((j + k) * 2 ^ 4 + 8) / 16 * 16 = (j + k) * 2 ^ 4
  omega

/-- The driver takes an event and reports its new place. -/
theorem EventsOk.take (h : EventsOk l w) {e : Event} {es : List Event}
    (hcons : w.unread = e :: es) : EventsOk l (w.take l) := by
  obtain ⟨hlt, -, -⟩ := unread_cons hcons
  have hroom := h.room
  have hindex : ((w.take l).drv.evtDeq, (w.take l).drv.evtCyc)
      = ((w.drv.taken + 1) % EVT_TRBS, lap EVT_TRBS (w.drv.taken + 1)) := by
    show (if w.drv.evtDeq + 1 = EVT_TRBS then (0, w.drv.evtCyc ^^^ 1)
      else (w.drv.evtDeq + 1, w.drv.evtCyc)) = _
    rw [h.deq, h.cyc]
    exact step_index (by decide)
  obtain ⟨hdeq, hcyc⟩ := Prod.mk.inj hindex
  exact {
    laid := h.laid
    enq := h.enq
    pcs := h.pcs
    deq := hdeq
    cyc := hcyc
    erdp := by
      have hpointer : (w.take l).hc.erdp / 16 * 16
          = l.evtRing + 16 * (w.take l).drv.evtDeq := l.erdp_pointer _
      show ((w.take l).hc.erdp / 16 * 16 - l.evtRing) / 16
        = (w.drv.taken + 1) % EVT_TRBS
      rw [hpointer, ← hdeq]
      omega
    le := hlt
    room := by
      show w.hc.posted.length < w.drv.taken + 1 + EVT_TRBS
      omega }

end Invariant

-- =================================================== rules for the loops

section Rules

variable {l : Layout} {I : World → Prop} {R : World → World → Prop}
  {C : Site → World → Prop} {J : World → Prop}

/-- The driver's look at the ring gives nothing when nothing waits, and else
takes the first event. -/
theorem holds_nextEvent {s : World} {Q : Option Trb → World → Prop}
    (h : EventsOk l s) (hnone : s.unread = [] → Q none s)
    (hsome : ∀ e es t, s.unread = e :: es → t.type = e.trb.type →
      t.code = e.trb.code → t.slot = e.trb.slot → Q (some t) (s.take l)) :
    Holds I R C (nextEvent l) Q s := by
  unfold nextEvent
  rw [holds_bind, holds_read]
  cases hun : s.unread with
  | nil =>
      rw [peek_none h hun]
      exact hnone hun
  | cons e es =>
      obtain ⟨htype, hcode, hslot⟩ := e.stamp_fields (lap_lt EVT_TRBS s.drv.taken)
      rw [peek_some h hun]
      exact hsome e es _ hun htype hcode hslot

/-- The loop of `wait_event`: `J` is kept by the surroundings and by an
event that is skipped. -/
theorem holds_waitEvent {want : Nat} {Q : Option (Nat × Nat) → World → Prop}
    (hI : ∀ s, J s → I s) (hev : ∀ s, J s → EventsOk l s)
    (hstable : ∀ s t, J s → R s t → I t → J t)
    (hskip : ∀ s e es, J s → C (.wait want) s → s.unread = e :: es →
      e.trb.type ≠ want → J (s.take l))
    (hgot : ∀ s e es, J s → C (.wait want) s → s.unread = e :: es →
      e.trb.type = want → Q (some (e.trb.code, e.trb.slot)) (s.take l))
    (hnone : ∀ s, J s → Q none s) :
    ∀ n s, J s → Holds I R C (waitEvent l want n) Q s := by
  intro n
  induction n with
  | zero => exact hnone
  | succ n ih =>
      intro s hs
      unfold waitEvent
      rw [holds_bind, holds_yield]
      refine ⟨hI s hs, fun t hR hIt hC => ?_⟩
      have ht := hstable s t hs hR hIt
      rw [holds_bind]
      refine holds_nextEvent (hev t ht) (fun _ => ih t ht) ?_
      intro e es b hun htype hcode hslot
      dsimp only
      split
      · next heq =>
          rw [hcode, hslot]
          exact hgot t e es ht hC hun (htype ▸ heq)
      · next hne => exact ih _ (hskip t e es ht hC hun (htype ▸ hne))

/-- A read of a port register, whatever the port says, keeps what the
controller keeps. -/
theorem holds_readPortsc {port : Nat} {Q : Nat → World → Prop}
    (hI : ∀ s, J s → I s) (hstable : ∀ s t, J s → R s t → I t → J t)
    (hQ : ∀ v s, J s → Q v s) {s : World} (hs : J s) :
    Holds I R C (readPortsc port) Q s := by
  unfold readPortsc
  rw [holds_bind, holds_yield]
  exact ⟨hI s hs, fun t hR hIt _ => hQ _ t (hstable s t hs hR hIt)⟩

/-- The wait for a port to be enabled keeps what the controller keeps,
however it ends. -/
theorem holds_waitEnabled {port : Nat} {Q : Unit → World → Prop}
    (hI : ∀ s, J s → I s) (hstable : ∀ s t, J s → R s t → I t → J t)
    (hQ : ∀ s, J s → Q () s) :
    ∀ n s, J s → Holds I R C (waitEnabled port n) Q s := by
  intro n
  induction n with
  | zero => exact hQ
  | succ n ih =>
      intro s hs
      unfold waitEnabled
      rw [holds_bind]
      refine holds_readPortsc hI hstable (fun v t ht => ?_) hs
      split
      · exact hQ t ht
      · exact ih t ht

/-- `port_reset` touches the port only. -/
theorem holds_portReset {port : Nat} {Q : Nat → World → Prop}
    (hI : ∀ s, J s → I s) (hstable : ∀ s t, J s → R s t → I t → J t)
    (hwrite : ∀ s v, J s → J (writePortsc port v s))
    (hQ : ∀ v s, J s → Q v s) {s : World} (hs : J s) :
    Holds I R C (portReset port) Q s := by
  have hlast : ∀ t, J t → Holds I R C (do
      let sc ← readPortsc port
      pure (if sc &&& P_PED = 0 then 0 else (sc >>> 10) &&& 0xF)) Q t := by
    intro t ht
    rw [holds_bind]
    exact holds_readPortsc hI hstable (fun v u hu => hQ _ u hu) ht
  unfold portReset
  rw [holds_bind]
  refine holds_readPortsc hI hstable (fun v t ht => ?_) hs
  split
  · simp only [holds_bind, holds_modify]
    refine holds_waitEnabled hI hstable (fun u hu => ?_) _ _ (hwrite t _ ht)
    refine holds_readPortsc hI hstable (fun v' u' hu' => ?_) hu
    exact hlast _ (hwrite u' _ hu')
  · exact hlast t ht

end Rules

end Thuos.Usb
