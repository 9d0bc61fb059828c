/-
Two loops read one event ring: however the controller's posts fall
between the accesses of `wait_event` and `usb_poll`, the driver steps
over the posted events one by one, in order, and ERDP addresses the slot
after the last one it has reported.

`Order` is the invariant. It holds at every access, also between the step
over an event and the write to ERDP: there the index and the bit are one
ahead of what ERDP says, by the event in `held`. `Waiting` and `Holding`
are the two stages of one taking, `holds_takeEvent` its rule, and both
loops are inductions over that rule.
-/
import Thuos.Usb.EventPoll
import Thuos.Usb.Proofs.Events

namespace Thuos.Usb.EventPoll

open Coroutine CycleRing Machine

variable {l : Layout} {s t : Watch}

-- ============================================================ the invariant

/-- The world with the driver's place at what it has reported. -/
def settled (w : World) : World :=
  { w with drv := { w.drv with
      evtDeq := w.drv.taken % EVT_TRBS
      evtCyc := lap EVT_TRBS w.drv.taken } }

structure Order (l : Layout) (s : Watch) : Prop where
  events : EventsOk l (settled s.world)
  taken : s.world.drv.taken = s.consumed.length
  deq : s.world.drv.evtDeq = s.stepped.length % EVT_TRBS
  cyc : s.world.drv.evtCyc = lap EVT_TRBS s.stepped.length
  low : s.world.hc.erdp / 16 * 16
    = l.evtRing + 16 * (s.consumed.length % EVT_TRBS)
  high : s.erdpHigh = 0
  order : s.stepped
    = (s.posted.take s.stepped.length).map fun e => seen e.trb
  looks : ∀ k ∈ s.looks, k.new = true ↔ k.consumed < k.posted
  due : s.due ≤ s.posted.length

/-- What the driver counts on while it pauses: only the controller moves,
and it posts. -/
structure Rely (s t : Watch) : Prop where
  rest : t = { s with world.hc := t.world.hc }
  posts : ∃ new, t.posted = s.posted ++ new

/-- The driver may count on a state that has not changed. -/
theorem Rely.refl (s : Watch) : Rely s s := ⟨rfl, [], by simp⟩

/-- What the controller does in two stretches is what it may do in one. -/
theorem Rely.trans {u : Watch} (hst : Rely s t) (htu : Rely t u) :
    Rely s u := by
  obtain ⟨new, hnew⟩ := hst.posts
  obtain ⟨later, hlater⟩ := htu.posts
  refine ⟨?_, new ++ later, ?_⟩
  · rw [htu.rest, hst.rest]
  · rw [hlater, hnew, List.append_assoc]

namespace Rely

variable (h : Rely s t)

include h

/-- The controller does not write to the driver's statics. -/
theorem drv : t.world.drv = s.world.drv := by rw [h.rest]

/-- The controller consumes no event for the driver. -/
theorem consumed : t.consumed = s.consumed := by rw [h.rest]

/-- The event that the driver holds is its own, and stays. -/
theorem held : t.held = s.held := by rw [h.rest]

/-- What a `usb_poll` is due to find was fixed when it started. -/
theorem due : t.due = s.due := by rw [h.rest]

end Rely

/-- ERDP addresses the slot behind the last event that was reported. -/
theorem Order.pointer (h : Order l s) :
    s.pointer = l.evtRing + 16 * (s.consumed.length % EVT_TRBS) := by
  unfold Watch.pointer
  rw [h.high, h.low, Nat.zero_mul, Nat.zero_add]

/-- The driver has not stepped over more events than were posted. -/
theorem Order.le (h : Order l s) : s.stepped.length ≤ s.posted.length := by
  have hlen := congrArg List.length h.order
  rw [List.length_map, List.length_take] at hlen
  omega

-- ===================================================== steps of both parties

/-- A change that is no business of the event ring. -/
theorem Order.quiet (h : Order l s) {w : World}
    (hring : w.hc.evtRing = s.world.hc.evtRing)
    (henq : w.hc.enq = s.world.hc.enq) (hpcs : w.hc.pcs = s.world.hc.pcs)
    (herdp : w.hc.erdp = s.world.hc.erdp)
    (hposted : w.hc.posted = s.world.hc.posted)
    (hdeq : w.drv.evtDeq = s.world.drv.evtDeq)
    (hcyc : w.drv.evtCyc = s.world.drv.evtCyc)
    (htaken : w.drv.taken = s.world.drv.taken) :
    Order l { s with world := w } where
  events := by
    refine h.events.congr hring henq hpcs herdp hposted ?_ ?_ htaken
    · show w.drv.taken % EVT_TRBS = s.world.drv.taken % EVT_TRBS
      rw [htaken]
    · show lap EVT_TRBS w.drv.taken = lap EVT_TRBS s.world.drv.taken
      rw [htaken]
  taken := htaken.trans h.taken
  deq := hdeq.trans h.deq
  cyc := hcyc.trans h.cyc
  low := by
    show w.hc.erdp / 16 * 16 = _
    rw [herdp]
    exact h.low
  high := h.high
  order := by
    show s.stepped = (w.hc.posted.take s.stepped.length).map _
    rw [hposted]
    exact h.order
  looks := h.looks
  due := by
    show s.due ≤ w.hc.posted.length
    rw [hposted]
    exact h.due

/-- The controller posts an event where ERDP says there is room. -/
theorem Order.post (h : Order l s) (hroom : Room l s) (e : Event) :
    Order l { s with world.hc := s.world.hc.post e } where
  events := by
    have hevents : EventsOk l { settled s.world with hc := s.world.hc } :=
      h.events
    refine hevents.post ?_ e
    unfold Room Watch.pointer at hroom
    rw [h.high, Nat.zero_mul, Nat.zero_add] at hroom
    exact hroom
  taken := h.taken
  deq := h.deq
  cyc := h.cyc
  low := by
    show (s.world.hc.post e).erdp / 16 * 16 = _
    rw [Controller.post_erdp]
    exact h.low
  high := h.high
  order := by
    have hle : s.stepped.length ≤ s.world.hc.posted.length := h.le
    show s.stepped = ((s.world.hc.post e).posted.take s.stepped.length).map _
    rw [Controller.post_posted, List.take_append_of_le_length hle]
    exact h.order
  looks := h.looks
  due := by
    show s.due ≤ (s.world.hc.post e).posted.length
    rw [Controller.post_posted, List.length_append]
    exact Nat.le_add_right_of_le h.due

/-- A move of the controller keeps the order of the events. -/
theorem Order.act (h : Order l s) (m : Move) : Order l (act l s m) := by
  cases m with
  | post e =>
      unfold EventPoll.act
      dsimp only
      split
      · next hroom => exact h.post hroom e
      · exact h
  | other hc => exact h.quiet rfl rfl rfl rfl rfl rfl rfl rfl

/-- A move of the controller is one that the driver may count on. -/
theorem Rely.act (s : Watch) (m : Move) : Rely s (act l s m) := by
  cases m with
  | post e =>
      unfold EventPoll.act
      dsimp only
      split
      · exact ⟨rfl, [e], Controller.post_posted _ _⟩
      · exact Rely.refl s
  | other hc => exact ⟨rfl, [], (List.append_nil _).symm⟩

/-- A step of the controller of `Usb.Xhci`, as moves of this one. -/
theorem act_moves (h : Order l s) (m : Usb.Move) :
    ∃ moves : List Move,
      moves.foldl (act l) s = { s with world := s.world.act l m } := by
  have hroom : s.world.hc.Room l → Room l s := by
    intro hroom
    unfold Room Watch.pointer
    rw [h.high, Nat.zero_mul, Nat.zero_add]
    exact hroom
  -- a completion settles its work first, and then posts its event
  have hpost : ∀ (hc : Controller) (e : Event),
      { hc with
        evtRing := s.world.hc.evtRing, enq := s.world.hc.enq
        pcs := s.world.hc.pcs, erdp := s.world.hc.erdp
        posted := s.world.hc.posted } = hc → s.world.hc.Room l →
      [Move.other hc, Move.post e].foldl (act l) s
        = { s with world.hc := hc.post e } := by
    intro hc e hhc hhas
    show act l { s with world.hc := _ } (.post e) = _
    rw [hhc]
    have hring : hc.enq = s.world.hc.enq ∧ hc.erdp = s.world.hc.erdp := by
      rw [← hhc]
      exact ⟨rfl, rfl⟩
    have hmay : Room l { s with world.hc := hc } := by
      have hmay := hroom hhas
      unfold Room Watch.pointer at hmay ⊢
      dsimp only
      rw [hring.1, hring.2]
      exact hmay
    exact if_pos hmay
  unfold World.act
  generalize s.world.hc.act l m = hc, s.world.hc.act_steps (l := l) m = hsteps
  cases hsteps with
  | stays => exact ⟨[], rfl⟩
  | portsc port value =>
      exact ⟨[.other { s.world.hc with
        portsc := Function.update s.world.hc.portsc port value }], rfl⟩
  | notice n room => exact ⟨[.post _], if_pos (hroom room)⟩
  | granted wk slot mem room enables pos lt fresh =>
      exact ⟨_, hpost _ _ rfl room⟩
  | refused wk cc mem room enables fails => exact ⟨_, hpost _ _ rfl room⟩
  | replied wk cc mem room cmd other => exact ⟨_, hpost _ _ rfl room⟩
  | transferred wk cc data mem room transfer =>
      exact ⟨_, hpost _ _ rfl room⟩

/-- Before the first event nothing is posted, and nothing is out of order. -/
theorem Order.start (l : Layout) (w : World) : Order l (initEvents l w) where
  events := {
    laid := laid_nil fun i hi => by
      show (if i < EVT_TRBS then Trb.zero else w.hc.evtRing i).cycle = 0
      rw [if_pos hi]
      rfl
    enq := rfl
    pcs := (lap_of_lt (k := 0) (by decide)).symm
    deq := rfl
    cyc := rfl
    erdp := by
      have halign := Nat.div_mul_cancel (Dvd.dvd.trans (by decide)
        l.evtRing_aligned : 16 ∣ l.evtRing)
      show (l.evtRing / 16 * 16 - l.evtRing) / 16 = 0
      rw [halign, Nat.sub_self]
    le := Nat.le_refl 0
    room := show 0 < 0 + EVT_TRBS by decide }
  taken := rfl
  deq := rfl
  cyc := (lap_of_lt (k := 0) (by decide)).symm
  low := Nat.div_mul_cancel (Dvd.dvd.trans (by decide) l.evtRing_aligned)
  high := rfl
  order := rfl
  looks := by simp [initEvents]
  due := Nat.le_refl 0

-- ========================================================= taking an event

/-- Between two takings. -/
structure Idle (l : Layout) (s : Watch) : Prop where
  order : Order l s
  held : s.held = none

/-- The driver has found a new event at its place, and reads it. -/
structure Waiting (l : Layout) (e : Event) (s : Watch) : Prop where
  idle : Idle l s
  next : s.posted[s.consumed.length]? = some e

/-- The driver has stepped over an event, and not written ERDP. -/
structure Holding (l : Layout) (e : Event) (s : Watch) : Prop where
  order : Order l s
  held : s.held = some (seen e.trb)

/-- With no event in hand, what was stepped over is what was consumed. -/
theorem Idle.stepped (h : Idle l s) : s.stepped = s.consumed := by
  unfold Watch.stepped
  rw [h.held, Option.toList_none, List.append_nil]

/-- A driver that is idle stays idle whatever the controller posts. -/
theorem Idle.rely (h : Idle l s) (hR : Rely s t) (ht : Order l t) :
    Idle l t :=
  ⟨ht, hR.held.trans h.held⟩

/-- An event that waits in its slot stays there until it is taken. -/
theorem Waiting.rely {e : Event} (h : Waiting l e s) (hR : Rely s t)
    (ht : Order l t) : Waiting l e t where
  idle := h.idle.rely hR ht
  next := by
    obtain ⟨new, hnew⟩ := hR.posts
    obtain ⟨hlt, -⟩ := List.getElem?_eq_some_iff.mp h.next
    rw [hnew, hR.consumed, List.getElem?_append_left hlt]
    exact h.next

/-- An event in hand stays in hand whatever the controller posts. -/
theorem Holding.rely {e : Event} (h : Holding l e s) (hR : Rely s t)
    (ht : Order l t) : Holding l e t :=
  ⟨ht, hR.held.trans h.held⟩

/-- The place of an idle driver is that of its count. -/
theorem Idle.place (h : Idle l s) :
    s.world.drv.evtDeq = s.consumed.length % EVT_TRBS
      ∧ s.world.drv.evtCyc = lap EVT_TRBS s.consumed.length := by
  have hdeq := h.order.deq
  have hcyc := h.order.cyc
  rw [h.stepped] at hdeq hcyc
  exact ⟨hdeq, hcyc⟩

/-- The controller is less than a lap ahead of what is reported. -/
theorem Order.room (h : Order l s) :
    s.posted.length < s.consumed.length + EVT_TRBS := by
  have hroom := h.events.room
  rw [show (settled s.world).drv.taken = _ from h.taken] at hroom
  exact hroom

/-- The driver finds its own bit exactly when an event waits. -/
theorem Idle.new_iff (h : Idle l s) :
    s.head.cycle = s.world.drv.evtCyc
      ↔ s.consumed.length < s.posted.length := by
  obtain ⟨hdeq, hcyc⟩ := h.place
  have hle := h.order.le
  have hroom := h.order.room
  rw [h.stepped] at hle
  unfold Watch.head
  rw [hdeq, hcyc]
  exact h.order.events.laid.bit_iff (by decide) cycle_putEvent hle hroom.le

/-- What waits is the next event. -/
theorem Waiting.head {e : Event} (h : Waiting l e s) :
    s.head.type = e.trb.type ∧ s.head.code = e.trb.code
      ∧ s.head.slot = e.trb.slot := by
  obtain ⟨hdeq, -⟩ := h.idle.place
  have hroom := h.idle.order.room
  obtain ⟨hlt, hget⟩ := List.getElem?_eq_some_iff.mp h.next
  have hslot := h.idle.order.events.laid.get hlt hroom.le
  have hhead : s.head
      = e.trb.stamp (lap EVT_TRBS s.consumed.length) := by
    unfold Watch.head
    rw [hdeq, ← hget]
    exact hslot
  rw [hhead]
  exact e.stamp_fields (lap_lt _ _)

/-- A look that is true to the slot belongs into the record of the looks. -/
theorem Order.looked (h : Idle l s) {new : Bool}
    (hnew : new = true ↔ s.head.cycle = s.world.drv.evtCyc) :
    Order l (s.looked new) :=
  { h.order with
    looks := by
      intro k hk
      rcases List.mem_append.mp hk with hk | hk
      · exact h.order.looks k hk
      · obtain rfl := List.mem_singleton.mp hk
        exact hnew.trans h.new_iff }

/-- The driver steps over the event it has read. -/
theorem Waiting.advance {e : Event} (h : Waiting l e s) :
    Holding l e (s.advance (seen e.trb)) where
  held := rfl
  order := by
    obtain ⟨hdeq, hcyc⟩ := h.idle.place
    have hlen : (s.consumed ++ [seen e.trb]).length = s.consumed.length + 1 := by
      simp
    have hindex : ((s.advance (seen e.trb)).world.drv.evtDeq,
        (s.advance (seen e.trb)).world.drv.evtCyc)
          = ((s.consumed.length + 1) % EVT_TRBS,
              lap EVT_TRBS (s.consumed.length + 1)) := by
      show (if s.world.drv.evtDeq + 1 = EVT_TRBS then (0, s.world.drv.evtCyc ^^^ 1)
        else (s.world.drv.evtDeq + 1, s.world.drv.evtCyc)) = _
      rw [hdeq, hcyc]
      exact step_index (by decide)
    obtain ⟨hnextDeq, hnextCyc⟩ := Prod.mk.inj hindex
    have horder := h.idle.order.order
    rw [h.idle.stepped] at horder
    exact { h.idle.order with
      deq := by
        show _ = (s.consumed ++ [seen e.trb]).length % EVT_TRBS
        rw [hlen]
        exact hnextDeq
      cyc := by
        show _ = lap EVT_TRBS (s.consumed ++ [seen e.trb]).length
        rw [hlen]
        exact hnextCyc
      order := by
        show s.consumed ++ [seen e.trb] = (s.posted.take
          (s.consumed ++ [seen e.trb]).length).map fun e => seen e.trb
        rw [hlen, List.take_add_one, h.next, List.map_append, ← horder]
        rfl }

/-- The event in hand has been stepped over, and is not consumed yet. -/
theorem Holding.stepped {e : Event} (h : Holding l e s) :
    s.stepped = s.consumed ++ [seen e.trb] := by
  unfold Watch.stepped
  rw [h.held, Option.toList_some]

/-- The write to ERDP: the event counts as consumed, and its slot is the
controller's again. -/
theorem Holding.report {e : Event} (h : Holding l e s) :
    Idle l (s.reportLow l (seen e.trb)) where
  held := rfl
  order := by
    have hlen : s.stepped.length = s.consumed.length + 1 := by
      rw [h.stepped, List.length_append, List.length_singleton]
    have hstepped : (s.reportLow l (seen e.trb)).stepped = s.stepped := by
      rw [h.stepped]
      exact List.append_nil _
    have hconsumed : (s.reportLow l (seen e.trb)).consumed = s.stepped :=
      h.stepped.symm
    have hlt : s.consumed.length < s.posted.length := by
      have hle := h.order.le
      omega
    have hunread : (settled s.world).unread
        = s.posted[s.consumed.length] :: s.posted.drop (s.consumed.length + 1) := by
      show s.posted.drop s.world.drv.taken = _
      rw [h.order.taken]
      exact List.drop_eq_getElem_cons hlt
    have htake := h.order.events.take hunread
    -- `take` moves the settled place to where the driver already stands
    have hplace : ((settled s.world).take l).drv.evtDeq = s.world.drv.evtDeq := by
      rw [htake.deq, h.order.deq, hlen, ← h.order.taken]
      rfl
    exact {
      events := by
        refine htake.congr rfl rfl rfl ?_ rfl htake.deq.symm htake.cyc.symm rfl
        show (l.evtRing + 16 * s.world.drv.evtDeq) ||| (1 <<< 3) = _
        rw [← hplace]
        rfl
      taken := by
        show s.world.drv.taken + 1 = _
        rw [hconsumed, hlen, h.order.taken]
      deq := by
        rw [hstepped]
        exact h.order.deq
      cyc := by
        rw [hstepped]
        exact h.order.cyc
      low := by
        show ((l.evtRing + 16 * s.world.drv.evtDeq) ||| (1 <<< 3)) / 16 * 16 = _
        rw [l.erdp_pointer, hconsumed, h.order.deq]
      high := h.order.high
      order := by
        rw [hstepped]
        exact h.order.order
      looks := h.order.looks
      due := h.order.due }

/-- The high half of ERDP is zero before it is written. -/
theorem Idle.reportHigh (h : Idle l s) : Idle l s.reportHigh where
  held := h.held
  order := { h.order with high := rfl }

-- ====================================================== rules for the loops

/-- A program of the driver, under the surroundings that `Rely` allows. -/
abbrev Runs {α : Type} (l : Layout) (p : Code α) (Q : α → Watch → Prop) :
    Watch → Prop :=
  Holds (Order l) Rely (fun _ _ => True) p Q

/-- How far the driver has come, which no move of the controller changes. -/
structure Marks (due : Nat) (consumed : List Seen) (s : Watch) : Prop where
  due : s.due = due
  consumed : s.consumed = consumed

/-- What a poll has found so far is not changed by the controller. -/
theorem Marks.rely {d : Nat} {es : List Seen} (h : Marks d es s)
    (hR : Rely s t) : Marks d es t :=
  ⟨hR.due.trans h.due, hR.consumed.trans h.consumed⟩

/-- An event that is reported is one more that the poll has found. -/
theorem Marks.report {d : Nat} {es : List Seen} (h : Marks d es s)
    (e : Seen) : Marks d (es ++ [e]) (s.reportLow l e) :=
  ⟨h.due, congrArg (fun es => es ++ [e]) h.consumed⟩

/-- One taking: there was no event, or the next one is consumed. -/
theorem runs_takeEvent {Q : Option Seen → Watch → Prop} (h : Idle l s)
    (hnone : ∀ t, Idle l t → Marks s.due s.consumed t →
      t.posted.length ≤ t.consumed.length → Q none t)
    (hsome : ∀ e t, Idle l t → Marks s.due (s.consumed ++ [e]) t →
      Q (some e) t) :
    Runs l (takeEvent l) Q s := by
  unfold takeEvent
  simp only [holds_bind, holds_yield, holds_read, holds_modify]
  refine ⟨h.order, fun t hR hI _ => ?_⟩
  have ht := h.rely hR hI
  have hmarks : Marks s.due s.consumed t := Marks.rely ⟨rfl, rfl⟩ hR
  by_cases hbit : t.head.cycle = t.world.drv.evtCyc
  · -- a new event: each access finds it still in its slot
    have hlt := ht.new_iff.mp hbit
    have hlook : Waiting l t.posted[t.consumed.length] (t.looked true) :=
      ⟨⟨Order.looked ht (by simp [hbit]), ht.held⟩,
        List.getElem?_eq_getElem hlt⟩
    have hmarked : Marks s.due s.consumed (t.looked true) :=
      ⟨hmarks.due, hmarks.consumed⟩
    rw [decide_eq_true hbit, if_pos rfl]
    simp only [holds_bind, holds_yield, holds_read, holds_modify, holds_pure]
    generalize t.posted[t.consumed.length] = e at hlook
    refine ⟨hlook.idle.order, fun t₁ hR₁ hI₁ _ => ?_⟩
    have h₁ := hlook.rely hR₁ hI₁
    refine ⟨h₁.idle.order, fun t₂ hR₂ hI₂ _ => ?_⟩
    have h₂ := h₁.rely hR₂ hI₂
    refine ⟨h₂.idle.order, fun t₃ hR₃ hI₃ _ => ?_⟩
    have h₃ := h₂.rely hR₃ hI₃
    have hseen : (⟨t₁.head.type, t₂.head.code, t₃.head.slot⟩ : Seen)
        = seen e.trb := by
      rw [h₁.head.1, h₂.head.2.1, h₃.head.2.2]
      rfl
    have hread := ((hmarked.rely hR₁).rely hR₂).rely hR₃
    have hstepped : Marks s.due s.consumed (t₃.advance (seen e.trb)) :=
      ⟨hread.due, hread.consumed⟩
    rw [hseen]
    have hstep := h₃.advance
    refine ⟨hstep.order, fun t₄ hR₄ hI₄ _ => ?_⟩
    have h₄ := hstep.rely hR₄ hI₄
    refine ⟨h₄.report.order, fun t₅ hR₅ hI₅ _ => ?_⟩
    have h₅ := h₄.report.rely hR₅ hI₅
    have hdone := ((hstepped.rely hR₄).report (seen e.trb)).rely hR₅
    exact hsome _ _ h₅.reportHigh ⟨hdone.due, hdone.consumed⟩
  · have hall : t.posted.length ≤ t.consumed.length := by
      by_contra hlt
      exact hbit (ht.new_iff.mpr (by omega))
    rw [decide_eq_false hbit, if_neg Bool.false_ne_true, holds_pure]
    exact hnone _ ⟨Order.looked ht (by simp [hbit]), ht.held⟩
      ⟨hmarks.due, hmarks.consumed⟩ hall

/-- The driver is between two calls, and has consumed what `usb_poll` was
to find. -/
structure Rest (l : Layout) (s : Watch) : Prop where
  idle : Idle l s
  due : s.due ≤ s.consumed.length

/-- Between two calls the controller may do what it likes. -/
theorem Rest.rely (h : Rest l s) (hR : Rely s t) (ht : Order l t) :
    Rest l t := by
  refine ⟨h.idle.rely hR ht, ?_⟩
  rw [hR.due, hR.consumed]
  exact h.due

/-- The wait for an event keeps the driver in step, whether it finds the
event or gives up. -/
theorem runs_waitEvent (want : Nat) :
    ∀ n s, Rest l s → Runs l (waitEvent l want n) (fun _ t => Rest l t) s := by
  intro n
  induction n with
  | zero => exact fun s h => h
  | succ n ih =>
      intro s h
      have hdue := h.due
      unfold waitEvent
      rw [Runs, holds_bind]
      refine runs_takeEvent h.idle ?_ ?_
      · intro t ht hmarks _
        refine ih t ⟨ht, ?_⟩
        rw [hmarks.due, hmarks.consumed]
        exact hdue
      · intro e t ht hmarks
        have hrest : Rest l t := by
          refine ⟨ht, ?_⟩
          rw [hmarks.due, hmarks.consumed, List.length_append]
          omega
        dsimp only
        split
        · exact hrest
        · exact ih t hrest

/-- What `usb_poll` does with an event, if anything. -/
theorem serve_cases (l : Layout) (e : Seen) (w : World) :
    serve l e w = w ∨ ∃ i, serve l e w = armInterrupt l i (hidHandle l i w) := by
  unfold serve
  split
  · split
    · exact Or.inl rfl
    · next i _ => exact Or.inr ⟨i, rfl⟩
  · exact Or.inl rfl

/-- To serve an event that was reported touches neither the ring nor its
place. -/
theorem Idle.serve (h : Idle l s) (e : Seen) :
    Idle l { s with world := serve l e s.world } := by
  refine ⟨?_, h.held⟩
  rcases serve_cases l e s.world with heq | ⟨i, heq⟩
  · rw [heq]
    exact h.order
  · rw [heq]
    exact h.order.quiet rfl rfl rfl rfl rfl rfl rfl rfl

/-- The loop of `usb_poll`: with `n` events to go, no more than `n` of
those it is to find are left. -/
theorem runs_pollEvents :
    ∀ n s, Idle l s → s.due ≤ s.consumed.length + n →
      Runs l (pollEvents l n) (fun _ t => Rest l t) s := by
  intro n
  induction n with
  | zero => exact fun s h hdue => ⟨h, hdue⟩
  | succ n ih =>
      intro s h hdue
      unfold pollEvents
      rw [Runs, holds_bind]
      refine runs_takeEvent h ?_ ?_
      · intro t ht _ hall
        exact ⟨ht, Nat.le_trans ht.order.due hall⟩
      · intro e t ht hmarks
        simp only [holds_bind, holds_yield, holds_modify]
        refine ⟨ht.order, fun u hR hI _ => ?_⟩
        refine ih _ ((ht.rely hR hI).serve e) ?_
        show u.due ≤ u.consumed.length + n
        rw [hR.due, hR.consumed, hmarks.due, hmarks.consumed,
          List.length_append, List.length_singleton]
        omega

/-- Whatever is called, the driver is in step again when it returns. -/
theorem runs_body (k : Call) (h : Rest l s) :
    Runs l (body l k) (fun _ t => Rest l t) s := by
  cases k with
  | wait want =>
      unfold body
      rw [Runs, holds_bind]
      exact (runs_waitEvent want _ s h).mono fun _ t ht => ht
  | poll =>
      unfold body usbPoll
      rw [Runs, holds_bind, holds_read]
      split
      · simp only [holds_bind, holds_modify]
        have hroom := h.idle.order.room
        refine runs_pollEvents 64 _ ⟨?_, h.idle.held⟩ hroom.le
        exact { h.idle.order with due := Nat.le_refl _ }
      · exact h
  | rest d =>
      unfold body
      rw [Runs, holds_modify]
      exact ⟨⟨h.idle.order.quiet rfl rfl rfl rfl rfl rfl rfl rfl, h.idle.held⟩,
        h.due⟩

-- ================================================================= every run

/-- A configuration in which the ring is in order, and the driver's
program keeps it so. -/
abbrev Kept (l : Layout) : Sys → Prop :=
  Safe (Order l) Rely (fun _ _ => True) fun _ t => Rest l t

/-- In the state after `xhci_init` has set up the ring the driver is in step.
-/
theorem Kept.start (l : Layout) (w : World) : Kept l (Sys.start l w) where
  rest := trivial
  inv := Order.start l w
  holds := ⟨⟨Order.start l w, rfl⟩, Nat.le_refl 0⟩

/-- The run lemma. -/
theorem run_kept {c : Sys} (h : Kept l c) (turns : List (Turn Move Call)) :
    Kept l (exec (sysStep l) c turns) := by
  have hmeets : Along (sysStep l) (Meets (fun _ _ => True) fun _ _ => True)
      c turns := along_of_forall meets_true
  have hmove : ∀ (u : Watch) (m : Move), Order l u → True →
      Order l (act l u m) ∧ Rely u (act l u m) :=
    fun u m hu _ => ⟨hu.act m, Rely.act u m⟩
  exact run_safe (fun _ _ _ hst htu => hst.trans htu) Rely.refl
    (fun _ _ ht => ht.idle.order) (fun _ _ _ ht hR hI => ht.rely hR hI)
    hmove (fun call _ _ ht => runs_body call ht) h hmeets

/-- This model of the event ring and that of `Usb.Xhci` are of one driver
and one controller: what the controller does there is a sequence of moves
here, the steps of a taking with nothing in between are the taking there,
and an event that was read is served as it is there. -/
theorem xhci_events (l : Layout) :
    (∀ s, Order l s → ∀ m : Usb.Move, ∃ moves : List Move,
        moves.foldl (act l) s = { s with world := s.world.act l m })
      ∧ (∀ (e : Seen) (s : Watch),
        (((s.advance e).reportLow l e).reportHigh).world = s.world.take l)
      ∧ ∀ (e : Trb) (w : World), serve l (seen e) w = Usb.serve l e w :=
  ⟨fun _ h m => act_moves h m, fun _ _ => rfl, fun _ _ => rfl⟩

/-- However the controller's posts fall between the driver's accesses,
and whatever is called: the driver steps over the posted events once each
and in order; it takes a slot for new exactly when an event waits there;
ERDP addresses the slot after the last event it has reported, which is
its own place unless it holds an event; and a `usb_poll` that has
returned has consumed all that was there when it started. -/
theorem event_ring_in_order (l : Layout) (w : World)
    (turns : List (Turn Move Call)) :
    let c := exec (sysStep l) (Sys.start l w) turns
    let s := c.state
    s.stepped = (s.posted.take s.stepped.length).map (fun e => seen e.trb)
      ∧ (∀ k ∈ s.looks, k.new = true ↔ k.consumed < k.posted)
      ∧ s.pointer = l.evtRing + 16 * (s.consumed.length % EVT_TRBS)
      ∧ (s.held = none → s.pointer = l.evtRing + 16 * s.world.drv.evtDeq)
      ∧ (c.prog = .ret () → s.held = none ∧ s.due ≤ s.consumed.length) := by
  have hkept := run_kept (Kept.start l w) turns
  have horder := hkept.inv
  have hholds := hkept.holds
  dsimp only
  refine ⟨horder.order, horder.looks, horder.pointer, fun hheld => ?_,
    fun hret => ?_⟩
  · have hidle : Idle l _ := ⟨horder, hheld⟩
    rw [horder.pointer, ← hidle.place.1]
  · rw [hret] at hholds
    exact ⟨hholds.idle.held, hholds.due⟩

end Thuos.Usb.EventPoll
