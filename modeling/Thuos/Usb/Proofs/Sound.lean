/-
What holds of every state of every run, with no condition on it: the
event ring is in order, and every completion on it is that of work the
driver handed over, under the number it was given.
-/
import Thuos.Usb.Proofs.Phases

namespace Thuos.Usb

open Coroutine Machine

/-- Outstanding and completed work is work that was sent. -/
structure WorkOk (w : World) : Prop where
  outstanding : ∀ wk ∈ w.hc.outstanding, w.drv.sent[wk.id]? = some wk
  posted : ∀ e ∈ w.hc.posted, ∀ wk, e.source = some wk →
    w.drv.sent[wk.id]? = some wk ∧ (e.isTransfer = true ↔ wk.ring ≠ .cmd)

structure Sound (l : Layout) (w : World) : Prop where
  events : EventsOk l w
  works : WorkOk w

section Steps

variable {l : Layout} {w v : World}

/-- What the controller does between two steps of the driver keeps the work
in order. -/
theorem WorkOk.rely (h : WorkOk w) (hR : Rely w v) : WorkOk v := by
  obtain ⟨new, hnew, harise⟩ := hR.posts
  refine ⟨fun wk hwk => ?_, fun e he wk hwk => ?_⟩
  · rw [hR.drv]
    exact h.outstanding wk (hR.outstanding hwk)
  · rw [hR.drv]
    rw [hnew] at he
    rcases List.mem_append.mp he with he | he
    · exact h.posted e he wk hwk
    · obtain ⟨hmem, hkind⟩ := harise e he wk hwk
      exact ⟨h.outstanding wk hmem, hkind⟩

/-- Work is known by its number. -/
theorem WorkOk.unique (h : WorkOk w) {o wk : Work} (ho : o ∈ w.hc.outstanding)
    (hwk : wk ∈ w.hc.outstanding) (hid : o.id = wk.id) : o = wk := by
  have hsent := h.outstanding o ho
  rw [hid, h.outstanding wk hwk] at hsent
  exact (Option.some.inj hsent).symm

/-- The work that is still to be done was handed over, so its number is one
of those given out. -/
theorem WorkOk.id_lt (h : WorkOk w) {wk : Work} (hwk : wk ∈ w.hc.outstanding) :
    wk.id < w.drv.sent.length :=
  (List.getElem?_eq_some_iff.mp (h.outstanding wk hwk)).1

/-- An event that waits reports work that was handed over. -/
theorem WorkOk.source_lt (h : WorkOk w) {e : Event} (he : e ∈ w.unread)
    {wk : Work} (hwk : e.source = some wk) : wk.id < w.drv.sent.length :=
  (List.getElem?_eq_some_iff.mp
    (h.posted e (List.mem_of_mem_drop he) wk hwk).1).1

/-- A move of the controller, whichever it is, keeps the statics and the
rings sound. -/
theorem Sound.act (h : Sound l w) (m : Move) : Sound l (w.act l m) := by
  refine ⟨?_, h.works.rely (Rely.act w m)⟩
  exact h.events.steps (w.hc.act_steps m)

/-- A change of the statics that the event ring and the work are not
about. -/
theorem Sound.statics (h : Sound l w) {d : Driver}
    (hdeq : d.evtDeq = w.drv.evtDeq) (hcyc : d.evtCyc = w.drv.evtCyc)
    (htaken : d.taken = w.drv.taken) (hsent : d.sent = w.drv.sent) :
    Sound l { w with drv := d } where
  events := h.events.congr rfl rfl rfl rfl rfl hdeq hcyc htaken
  works := by
    refine ⟨fun wk hwk => ?_, fun e he wk hwk => ?_⟩
    · show d.sent[wk.id]? = some wk
      rw [hsent]
      exact h.works.outstanding wk hwk
    · show d.sent[wk.id]? = some wk ∧ _
      rw [hsent]
      exact h.works.posted e he wk hwk

/-- What `submit` hands over. -/
def handed (w : World) (r : RingId) (qs : List Request) (slot target : Nat) :
    Work :=
  ⟨w.drv.sent.length, r, slot, target, qs.map Request.toTrb⟩

/-- What the driver submits is put behind all that it has sent. -/
theorem submit_sent (w : World) (r : RingId) (qs : List Request)
    (slot target : Nat) :
    (w.submit r qs slot target).drv.sent
      = w.drv.sent ++ [handed w r qs slot target] := rfl

/-- What the driver submits is outstanding until the controller gets to it.
-/
theorem submit_outstanding (w : World) (r : RingId) (qs : List Request)
    (slot target : Nat) :
    (w.submit r qs slot target).hc.outstanding
      = w.hc.outstanding ++ [handed w r qs slot target] := rfl

/-- To submit work adds no event to those that wait. -/
theorem submit_unread (w : World) (r : RingId) (qs : List Request)
    (slot target : Nat) :
    (w.submit r qs slot target).unread = w.unread := rfl

/-- The driver may put work on any ring in any state that is sound. -/
theorem Sound.submit (h : Sound l w) (r : RingId) (qs : List Request)
    (slot target : Nat) : Sound l (w.submit r qs slot target) where
  events := h.events.congr rfl rfl rfl rfl rfl rfl rfl rfl
  works := by
    have hkeep : ∀ wk : Work, w.drv.sent[wk.id]? = some wk →
        (w.drv.sent ++ [handed w r qs slot target])[wk.id]? = some wk := by
      intro wk hwk
      rw [List.getElem?_append_left (List.getElem?_eq_some_iff.mp hwk).1]
      exact hwk
    refine ⟨fun wk hwk => ?_, fun e he wk hwk => ?_⟩
    · rw [submit_sent]
      rw [submit_outstanding] at hwk
      rcases List.mem_append.mp hwk with hwk | hwk
      · exact hkeep wk (h.works.outstanding wk hwk)
      · obtain rfl := List.mem_singleton.mp hwk
        exact List.getElem?_concat_length
    · obtain ⟨hsent, hkind⟩ := h.works.posted e he wk hwk
      exact ⟨hkeep wk hsent, hkind⟩

/-- To take the event that waits next, and to report the place behind it,
keeps the state sound. -/
theorem Sound.take (h : Sound l w) {e : Event} {es : List Event}
    (hcons : w.unread = e :: es) : Sound l (w.take l) :=
  ⟨h.events.take hcons, h.works.outstanding, h.works.posted⟩

/-- An entry of the table of devices has no part in the rings, so it may be
written at any time. -/
theorem Sound.setDev (h : Sound l w) (idx : Nat) (f : Dev → Dev) :
    Sound l (w.setDev idx f) :=
  h.statics rfl rfl rfl rfl

/-- `enumerate` opens a slot in a sound state, and leaves a sound state. -/
theorem Sound.openSlot (h : Sound l w) (idx port spd slot : Nat) :
    Sound l (openSlot l idx port spd slot w) :=
  h.statics rfl rfl rfl rfl

/-- The interrupt endpoint is set up in a sound state, and leaves a sound
state. -/
theorem Sound.openEndpoint (h : Sound l w) (idx port spd : Nat) :
    Sound l (openEndpoint l idx port spd w) :=
  h.statics rfl rfl rfl rfl

/-- A request for the next report keeps the state sound. -/
theorem Sound.armInterrupt (h : Sound l w) (idx : Nat) :
    Sound l (armInterrupt l idx w) :=
  h.submit _ _ _ _

/-- A report that is handled changes the device and no ring. -/
theorem Sound.hidHandle (h : Sound l w) (idx : Nat) :
    Sound l (hidHandle l idx w) :=
  h.statics rfl rfl rfl rfl

/-- What `usb_poll` does with an event: nothing, or it handles a report
of the device it finds and arms it again. -/
theorem serve_cases (t : Trb) (w : World) :
    serve l t w = w ∧ (t.type = TRB_TRANSFER_EVT → w.deviceOf t.slot = none)
      ∨ ∃ i, t.type = TRB_TRANSFER_EVT ∧ w.deviceOf t.slot = some i
        ∧ serve l t w = armInterrupt l i (hidHandle l i w) := by
  unfold serve
  split
  · next htype =>
      split
      · next hnone => exact Or.inl ⟨rfl, fun _ => hnone⟩
      · next i hsome => exact Or.inr ⟨i, htype, hsome, rfl⟩
  · next htype => exact Or.inl ⟨rfl, fun h => absurd h htype⟩

/-- Whatever event is served, of a command, a transfer or a port, the state
stays sound. -/
theorem Sound.serve (h : Sound l w) (t : Trb) : Sound l (serve l t w) := by
  rcases serve_cases (l := l) t w with ⟨heq, -⟩ | ⟨i, -, -, heq⟩
  · rw [heq]
    exact h
  · rw [heq]
    exact (h.hidHandle i).armInterrupt i

/-- After the set-up of `xhci_init` the rings are empty, and the state is
sound. -/
theorem start_sound (l : Layout) (scratch : Nat) :
    Sound l (World.start l scratch) :=
  ⟨start_events l scratch, fun _ h => absurd h List.not_mem_nil,
    fun _ h => absurd h List.not_mem_nil⟩

end Steps

/-- No step of the driver disturbs the ring or the work. -/
theorem sound_carries (l : Layout) :
    Carries l (Sound l) (fun _ _ => True) fun _ => Sound l where
  inv _ _ h := h
  events _ _ h := h.events
  stable _ _ _ _ _ h := h
  take _ _ _ _ _ h _ hun := h.take hun
  noop _ h := h.submit _ _ _ _
  present _ h := h.statics rfl rfl rfl rfl
  choose _ _ h _ _ := h
  port _ _ _ _ h := h.statics rfl rfl rfl rfl
  ask _ _ h := h.submit _ _ _ _
  drop _ _ h := h.elim id id
  grant _ _ _ _ _ _ h _ hun _ _ _ := (h.take hun).openSlot _ _ _ _
  command _ _ _ _ h _ := h.submit _ _ _ _
  control _ _ _ _ _ _ _ _ _ h _ := h.submit _ _ _ _
  parsed _ _ _ _ h := h.setDev _ _
  endpoint _ _ _ _ _ h := h.openEndpoint _ _ _
  giveUp _ _ _ h := h.setDev _ _
  ready idx _ s h _ _ := by
    have hmark : Sound l
        { s with drv.ready := Function.update s.drv.ready idx true } :=
      h.statics rfl rfl rfl rfl
    exact hmark.armInterrupt idx
  serve _ _ _ _ h _ hun _ _ := (h.take hun).serve _

/-- Every run, with no condition. -/
theorem run_sound (l : Layout) (scratch : Nat) (turns : List (Turn Move Call)) :
    Sound l (exec (sysStep l) (Sys.start l scratch) turns).state :=
  run_carries (sound_carries l) (fun _ m h => h.act m) (start_sound l scratch)
    (along_of_forall meets_true)

-- ================================================================ scenes

def sampleLayout : Layout where
  cmdRing := 0x100000
  evtRing := 0x101000
  devCtx := 0x102000
  inCtx := 0x104000
  ep0Ring := 0x107000
  epiRing := 0x108000
  ctlBuf := 0x109000
  hidBuf := 0x10A000
  devCtx_pos := by decide
  evtRing_aligned := by decide
  buffers_apart := by decide

/-- The controller completes request `id` with a success, and the driver
goes on. -/
def answer (id slot : Nat) (data : List UInt8) : List (Turn Move Call) :=
  [.move (.complete id 1 slot data), .go]

/-- A device appears at `port` and is enumerated up to the point where it
is addressed, under `slot`; `id` numbers the first request. -/
def addressTurns (id port slot : Nat) : List (Turn Move Call) :=
  [.move (.portsc port (P_CCS ||| P_PED ||| (3 <<< 10))),
    .call (.enumerate port), .go, .go, .go]
    ++ answer id slot [] ++ answer (id + 1) 0 []

/-- The control transfers of an enumeration, each with what the device
sends. -/
def controlTurns : Nat → List (List UInt8) → List (Turn Move Call)
  | _, [] => []
  | id, data :: rest => .go :: answer id 0 data ++ controlTurns (id + 1) rest

/-- The configuration of a boot keyboard: its interface, its HID
descriptor, and the endpoint 1-IN. -/
def keyboardConfig : List UInt8 :=
  [9, 2, 34, 0, 1, 1, 0, 0xA0, 50, 9, 4, 0, 0, 1, 3, 1, 1, 0, 9, 0x21, 0x11,
    1, 0, 1, 0x22, 63, 0, 7, 5, 0x81, 3, 8, 0, 10]

/-- A keyboard is enumerated and declared ready: requests `id` to
`id + 8`, the last of them its first interrupt transfer. -/
def keyboardTurns (id port slot : Nat) : List (Turn Move Call) :=
  addressTurns id port slot
    ++ controlTurns (id + 2) [List.replicate 18 0, keyboardConfig.take 9,
      keyboardConfig, [], []]
    ++ answer (id + 7) 0 []

end Thuos.Usb
