/-
When no HID endpoint goes silent.

A ready device has one interrupt transfer on its ring, until it
completes; then it has one event on the event ring, until `usb_poll`
takes that, handles the report and arms the device again. Two steps break
this, both because an event is not compared with what it completes
(`HidCond`): a wait of `enumerate` takes the event of a ready device, or
`usb_poll` takes the event of another transfer for one.

`HidInv` counts, for every entry of the table, the interrupt transfers
outstanding and the events unread: their sum is one for a ready device,
else zero. The controller moves one from the first count to the second
(`HidInv.post`), and `usb_poll` back (`HidInv.serve`).
-/
import Thuos.Usb.Proofs.Sound

namespace Thuos.Usb

open ByteMem Coroutine Machine

-- ============================================================== the property

/-- The entry whose interrupt transfer an event completes. -/
def Event.device : Event → Option Nat
  | .transfer wk _ =>
      match wk.ring with
      | .epi i => some i
      | _ => none
  | _ => none

/-- The interrupt transfers of entry `i` that are outstanding. -/
def World.armed (w : World) (i : Nat) : Nat :=
  w.hc.outstanding.countP fun wk => wk.ring = .epi i

/-- The events of such transfers that are unread. -/
def World.pending (w : World) (i : Nat) : Nat :=
  w.unread.countP fun e => e.device = some i

def reportsOf (i : Nat) (rs : List Report) : List (List UInt8) :=
  (rs.filter fun r => r.1 = i).map Prod.snd

/-- Every ready device has one interrupt transfer outstanding or one event
unread, and its reports were handled once each, in order, but for the one
whose event is unread. -/
def Attended (w : World) : Prop :=
  ∀ i, w.drv.ready i = true →
    w.armed i + w.pending i = 1
      ∧ ∃ rest, reportsOf i w.hc.reports = reportsOf i w.drv.handled ++ rest
        ∧ rest.length = w.pending i

/-- The condition on the driver's steps: a wait takes no event of an
interrupt transfer, and where `usb_poll` finds a device for an event, it
is the one whose interrupt transfer has completed. -/
def HidCond : Site → World → Prop
  | .wait _, w => w.unread.head?.bind Event.device = none
  | .serve, w =>
      match w.unread.head? with
      | some e => e.isTransfer = true → w.deviceOf e.trb.slot = none
          ∨ w.deviceOf e.trb.slot = e.device
      | none => True
  | _, _ => True

instance : ∀ site w, Decidable (HidCond site w)
  | .wait _, w =>
      inferInstanceAs (Decidable (w.unread.head?.bind Event.device = none))
  | .serve, w => by
      unfold HidCond
      dsimp only
      cases w.unread.head? with
      | none => exact isTrue trivial
      | some e => infer_instance
  | .control, _ => isTrue trivial
  | .port, _ => isTrue trivial
  | .enumerate, _ => isTrue trivial

-- =============================================================== the windows

section Windows

variable {l : Layout}

/-- What is known of work by its ring: where a transfer writes, and that
interrupt transfers are those of ready devices. -/
def Fits (l : Layout) (d : Driver) (wk : Work) : Prop :=
  match wk.ring with
  | .cmd => True
  | .ep0 i => ∀ a n, wk.window = some (a, n) →
      i < MAX_DEV ∧ a = l.ctlBufAt i ∧ n ≤ 512
  | .epi i => d.ready i = true ∧ wk.slot = (d.devs i).slot
      ∧ ∀ a n, wk.window = some (a, n) → a = l.hidBufAt i ∧ n ≤ 8

/-- A window is that of one of the blocks. -/
theorem window_block {wk : Work} {a n : Nat} (h : wk.window = some (a, n)) :
    ∃ t ∈ wk.td, (t.type = TRB_NORMAL ∨ t.type = TRB_DATA)
      ∧ t.lo = a ∧ t.status &&& 0x1FFFF = n := by
  unfold Work.window at h
  obtain ⟨t, hfind, ht⟩ := Option.map_eq_some_iff.mp h
  have hkind := List.find?_some hfind
  refine ⟨t, List.mem_of_find?_eq_some hfind, ?_, congrArg Prod.fst ht,
    congrArg Prod.snd ht⟩
  simp only [Bool.or_eq_true, Bool.and_eq_true, decide_eq_true_eq] at hkind
  exact hkind.imp id And.left

/-- The first stage of a control transfer is a setup TRB. -/
theorem setup_type (bmRT bReq wVal wIdx wLen : Nat) (dirIn : Bool) :
    (setupStage bmRT bReq wVal wIdx wLen dirIn).toTrb.type = TRB_SETUP :=
  request_type (by decide)

/-- The last stage of a control transfer is a status TRB. -/
theorem status_type (wLen : Nat) (dirIn : Bool) :
    (statusStage wLen dirIn).toTrb.type = TRB_STATUS :=
  request_type (by decide)

/-- A control transfer writes to its control buffer. -/
theorem control_fits (d : Driver) (w : World) {idx wLen : Nat}
    (hidx : idx < MAX_DEV) (hlen : wLen ≤ 512) (bmRT bReq wVal wIdx : Nat)
    (dirIn : Bool) (slot target : Nat) :
    Fits l d (handed w (.ep0 idx)
      (controlTd l idx bmRT bReq wVal wIdx wLen dirIn) slot target) := by
  intro a n hwin
  obtain ⟨t, hmem, hkind, rfl, rfl⟩ := window_block hwin
  obtain ⟨q, hq, rfl⟩ := List.mem_map.mp hmem
  have hq : q ∈ _ :: (_ ++ _) := hq
  rcases List.mem_cons.mp hq with rfl | hq
  · rw [setup_type] at hkind
    exact absurd hkind (by decide)
  rcases List.mem_append.mp hq with hq | hq
  · split at hq
    · obtain rfl := List.mem_singleton.mp hq
      exact ⟨hidx, rfl, Nat.le_trans Nat.and_le_left hlen⟩
    · exact absurd hq List.not_mem_nil
  · obtain rfl := List.mem_singleton.mp hq
    rw [status_type] at hkind
    exact absurd hkind (by decide)

/-- An interrupt transfer writes to its report buffer. -/
theorem interrupt_fits {d : Driver} (w : World) {idx len slot : Nat}
    (hready : d.ready idx = true) (hslot : slot = (d.devs idx).slot)
    (hlen : len ≤ 8) (target : Nat) :
    Fits l d (handed w (.epi idx) [normalTrb l idx len] slot target) := by
  refine ⟨hready, hslot, fun a n hwin => ?_⟩
  obtain ⟨t, hmem, -, rfl, rfl⟩ := window_block hwin
  obtain rfl := List.mem_singleton.mp hmem
  exact ⟨rfl, Nat.le_trans Nat.and_le_left hlen⟩

/-- A transfer leaves the report buffers of other entries alone. -/
theorem landed_keeps {d : Driver} {wk : Work} (hfit : Fits l d wk)
    (htransfer : wk.ring ≠ .cmd) {i : Nat} (hi : i < MAX_DEV)
    (hother : wk.ring ≠ .epi i) (hc : Controller) (data : List UInt8) :
    (hc.landed wk data).read (l.hidBufAt i) 8
      = hc.mem.read (l.hidBufAt i) 8 := by
  unfold Controller.landed
  cases hwin : wk.window with
  | none => rfl
  | some p =>
      obtain ⟨a, n⟩ := p
      have hlen : (data.take n).length ≤ n := List.length_take_le n data
      have hapart := l.buffers_apart
      refine Mem.read_congr fun x hx hx' => Mem.write_outside ?_
      unfold Layout.hidBufAt at hx hx'
      unfold Fits at hfit
      cases hring : wk.ring with
      | cmd => exact absurd hring htransfer
      | ep0 j =>
          rw [hring] at hfit
          obtain ⟨hj, ha, hn⟩ := hfit a n hwin
          unfold Layout.ctlBufAt at ha
          omega
      | epi j =>
          rw [hring] at hfit
          obtain ⟨-, -, hbuf⟩ := hfit
          obtain ⟨ha, hn⟩ := hbuf a n hwin
          have hne : j ≠ i := fun h => hother (hring.trans (congrArg _ h))
          unfold Layout.hidBufAt at ha
          omega

end Windows

-- ============================================================= the invariant

/-- What is fixed for a device while it is in use. -/
def Dev.place (d : Dev) : Bool × Nat × Nat × Nat :=
  (d.used, d.slot, d.epDci, d.epLen)

/-- `usb_poll` finds the entry, and its transfers fit the buffer. -/
structure Usable (idx : Nat) (d : Dev) : Prop where
  lt : idx < MAX_DEV
  used : d.used = true
  slot : d.slot < 256
  dci : d.epDci ≠ 0
  len : d.epLen ≤ 8

structure HidInv (l : Layout) (w : World) : Prop where
  sound : Sound l w
  usable : ∀ i, w.drv.ready i = true → Usable i (w.drv.devs i)
  fits : ∀ wk ∈ w.drv.sent, Fits l w.drv wk
  owed : ∀ i, w.armed i + w.pending i = if w.drv.ready i then 1 else 0
  /-- The report whose event is unread still lies in the buffer. -/
  reports : ∀ i, reportsOf i w.hc.reports = reportsOf i w.drv.handled
    ++ List.replicate (w.pending i) (w.hc.mem.read (l.hidBufAt i) 8)

/-- Under the invariant every usable device has its request or its report. -/
theorem HidInv.attended {l : Layout} {w : World} (h : HidInv l w) :
    Attended w := by
  intro i hi
  refine ⟨?_, _, h.reports i, List.length_replicate ..⟩
  rw [h.owed i, if_pos hi]

section Counts

/-- The reports of a device are those of the first part and then those of the
second. -/
theorem reportsOf_append (i : Nat) (rs rs' : List Report) :
    reportsOf i (rs ++ rs') = reportsOf i rs ++ reportsOf i rs' := by
  simp [reportsOf]

/-- A report of the device itself is among its reports. -/
@[simp] theorem reportsOf_self (i : Nat) (r : List UInt8) :
    reportsOf i [(i, r)] = [r] := by
  simp [reportsOf]

/-- A report of another device is not. -/
theorem reportsOf_other {i j : Nat} (h : j ≠ i) (r : List UInt8) :
    reportsOf i [(j, r)] = [] := by
  simp [reportsOf, h]

/-- The entry of a transfer's event is that of its ring. -/
theorem Event.device_transfer (wk : Work) (cc : UInt8) (i : Nat) :
    (Event.transfer wk cc).device = some i ↔ wk.ring = .epi i := by
  unfold Event.device
  cases hring : wk.ring with
  | cmd => simp [hring]
  | ep0 j => simp [hring]
  | epi j => simp [hring]

/-- An event that belongs to a device is of a transfer. -/
theorem Event.transfer_of_device {e : Event} {i : Nat}
    (h : e.device = some i) : ∃ wk cc, e = .transfer wk cc := by
  cases e with
  | notice n => cases h
  | command wk cc slot => cases h
  | transfer wk cc => exact ⟨wk, cc, rfl⟩

/-- What waits for a device is what waits behind the first event, and that
event if it is its own. -/
theorem pending_cons {w : World} {e : Event} {es : List Event}
    (hun : w.unread = e :: es) (i : Nat) :
    w.pending i
      = es.countP (fun o => o.device = some i)
        + if e.device = some i then 1 else 0 := by
  unfold World.pending
  rw [hun, List.countP_cons]
  simp

/-- Work that is finished is gone from the count of its ring only. -/
theorem countP_finish {w : World} (h : WorkOk w) {wk : Work}
    (hmem : wk ∈ w.hc.outstanding) (i : Nat) (hone : w.armed i ≤ 1) :
    (w.hc.finish wk).outstanding.countP (fun o => o.ring = .epi i)
      + (if wk.ring = .epi i then 1 else 0) = w.armed i := by
  unfold Controller.finish
  dsimp only
  unfold World.armed at hone ⊢
  by_cases hring : wk.ring = .epi i
  · have hpos : 0 < w.hc.outstanding.countP fun o => o.ring = .epi i :=
      List.countP_pos_iff.mpr ⟨wk, hmem, decide_eq_true hring⟩
    have hlone : w.hc.outstanding.countP (fun o => o.ring = .epi i) = 1 := by
      omega
    rw [if_pos hring, hlone, Nat.add_eq_right, List.countP_eq_zero]
    intro o ho hepi
    obtain ⟨ho, hid⟩ := List.mem_filter.mp ho
    rw [List.countP_eq_length_filter] at hlone
    obtain ⟨x, hx⟩ := List.length_eq_one_iff.mp hlone
    have hox : o ∈ [x] := hx ▸ List.mem_filter.mpr ⟨ho, hepi⟩
    have hwx : wk ∈ [x] :=
      hx ▸ List.mem_filter.mpr ⟨hmem, decide_eq_true hring⟩
    rw [List.mem_singleton.mp hox, List.mem_singleton.mp hwx] at hid
    simp at hid
  · rw [if_neg hring, Nat.add_zero, List.countP_filter]
    refine List.countP_congr fun o ho => ?_
    have hkeep : o.ring = .epi i → o.id ≠ wk.id := by
      intro hepi hid
      exact hring (h.unique ho hmem hid ▸ hepi)
    simpa using hkeep

end Counts

section Steps

variable {l : Layout} {w : World}

/-- A device has no more than one request outstanding. -/
theorem HidInv.armed_le (h : HidInv l w) (i : Nat) : w.armed i ≤ 1 := by
  have := h.owed i
  split at this
  · omega
  · omega

/-- What an entry that is not ready has: nothing. -/
theorem HidInv.quiet (h : HidInv l w) {i : Nat} (hi : w.drv.ready i = false) :
    w.armed i = 0 ∧ w.pending i = 0 := by
  have := h.owed i
  rw [if_neg (by simp [hi])] at this
  omega

/-- Outstanding work fits. -/
theorem HidInv.fits_outstanding (h : HidInv l w) {wk : Work}
    (hmem : wk ∈ w.hc.outstanding) : Fits l w.drv wk :=
  h.fits wk (List.mem_of_getElem? (h.sound.works.outstanding wk hmem))

/-- The controller posts `e`: the device it is for, if it is for one, has
one transfer less outstanding, and its report is in the buffer. -/
theorem HidInv.post (h : HidInv l w) {hc : Controller} {e : Event}
    (hsound : Sound l { w with hc := hc.post e })
    (hposted : hc.posted = w.hc.posted)
    (harmed : ∀ i, hc.outstanding.countP (fun o => o.ring = .epi i)
      + (if e.device = some i then 1 else 0) = w.armed i)
    (hreports : ∀ i, reportsOf i hc.reports = reportsOf i w.hc.reports
      ++ if e.device = some i then [hc.mem.read (l.hidBufAt i) 8] else [])
    (hmem : ∀ i, w.drv.ready i = true → e.device ≠ some i →
      hc.mem.read (l.hidBufAt i) 8 = w.hc.mem.read (l.hidBufAt i) 8) :
    HidInv l { w with hc := hc.post e } := by
  have hpending : ∀ i, ({ w with hc := hc.post e } : World).pending i
      = w.pending i + if e.device = some i then 1 else 0 := by
    intro i
    unfold World.pending
    rw [h.sound.events.post_unread e hposted, List.countP_append,
      List.countP_singleton]
    simp
  have hcount : ∀ i, ({ w with hc := hc.post e } : World).armed i
      = hc.outstanding.countP fun o => o.ring = .epi i := by
    intro i
    unfold World.armed
    rw [Controller.post_outstanding]
  refine ⟨hsound, h.usable, h.fits, fun i => ?_, fun i => ?_⟩
  · rw [hcount, hpending, ← h.owed i, ← harmed i]
    omega
  · show reportsOf i (hc.post e).reports = reportsOf i w.drv.handled
      ++ List.replicate _ ((hc.post e).mem.read (l.hidBufAt i) 8)
    rw [hpending, Controller.post_reports, Controller.post_mem, hreports,
      h.reports i]
    have harm := harmed i
    have howed := h.owed i
    by_cases hdev : e.device = some i
    · -- the transfer was outstanding, so no event was unread
      have hnone : w.pending i = 0 := by
        rw [if_pos hdev] at harm
        split at howed
        · omega
        · omega
      rw [if_pos hdev, if_pos hdev, hnone]
      simp
    · rw [if_neg hdev, if_neg hdev, List.append_nil, Nat.add_zero]
      cases hready : w.drv.ready i with
      | true => rw [hmem i hready hdev]
      | false => rw [(h.quiet hready).2, List.replicate_zero, List.replicate_zero]

/-- A completion of a command, or a notice, is for no device. -/
theorem HidInv.post_other (h : HidInv l w) {hc : Controller} {e : Event}
    (hsound : Sound l { w with hc := hc.post e })
    (hposted : hc.posted = w.hc.posted) (hdev : e.device = none)
    (harmed : ∀ i, hc.outstanding.countP (fun o => o.ring = .epi i) = w.armed i)
    (hreports : hc.reports = w.hc.reports) (hmem : hc.mem = w.hc.mem) :
    HidInv l { w with hc := hc.post e } := by
  refine h.post hsound hposted (fun i => ?_) (fun i => ?_) (fun i _ _ => ?_)
  · simp [hdev, harmed i]
  · simp [hdev, hreports]
  · rw [hmem]

/-- A move of the controller keeps the invariant: a request that is done has
become a report that waits. -/
theorem HidInv.act (h : HidInv l w) (m : Move) : HidInv l (w.act l m) := by
  have hsound := h.sound.act m
  have hfinish : ∀ wk ∈ w.hc.outstanding, wk.ring = .cmd → ∀ i,
      (w.hc.finish wk).outstanding.countP (fun o => o.ring = .epi i)
        = w.armed i := by
    intro wk hmem hcmd i
    have hcount := countP_finish h.sound.works hmem i (h.armed_le i)
    simpa [hcmd] using hcount
  unfold World.act at hsound ⊢
  generalize hgen : w.hc.act l m = hc at hsound ⊢
  have hsteps : w.hc.Steps l hc := hgen ▸ w.hc.act_steps m
  cases hsteps with
  | stays => exact h
  | portsc port value => exact ⟨hsound, h.usable, h.fits, h.owed, h.reports⟩
  | notice n room => exact h.post_other hsound rfl rfl (fun _ => rfl) rfl rfl
  | granted wk slot mem room enables pos lt fresh =>
      exact h.post_other hsound rfl rfl (hfinish wk mem (enables_cmd enables))
        rfl rfl
  | refused wk cc mem room enables fails =>
      exact h.post_other hsound rfl rfl (hfinish wk mem (enables_cmd enables))
        rfl rfl
  | replied wk cc mem room cmd other =>
      exact h.post_other hsound rfl rfl (hfinish wk mem cmd) rfl rfl
  | transferred wk cc data mem room transfer =>
      have hfit := h.fits_outstanding mem
      refine h.post hsound rfl (fun i => ?_) (fun i => ?_) fun i hready hdev => ?_
      · have hcount := countP_finish h.sound.works mem i (h.armed_le i)
        simpa only [Event.device_transfer] using hcount
      · simp only [Event.device_transfer]
        show reportsOf i (w.hc.reports ++ w.hc.delivered l wk data) = _
        rw [reportsOf_append]
        unfold Controller.delivered
        cases hring : wk.ring with
        | cmd => exact absurd hring transfer
        | ep0 j => simp [reportsOf]
        | epi j =>
            by_cases hji : j = i
            · subst hji
              simp
            · rw [if_neg fun heq => hji (RingId.epi.inj heq)]
              exact congrArg _ (reportsOf_other hji _)
      · rw [Ne, Event.device_transfer] at hdev
        exact landed_keeps hfit transfer (h.usable i hready).lt hdev w.hc data

/-- The driver takes an event that is for no device. -/
theorem HidInv.take (h : HidInv l w) {e : Event} {es : List Event}
    (hun : w.unread = e :: es) (hdev : e.device = none) :
    HidInv l (w.take l) := by
  have hpending : ∀ i, (w.take l).pending i = w.pending i := by
    intro i
    rw [pending_cons hun i]
    unfold World.pending
    rw [take_unread hun, hdev]
    simp
  refine ⟨h.sound.take hun, h.usable, h.fits, fun i => ?_, fun i => ?_⟩
  · rw [hpending]
    exact h.owed i
  · rw [hpending]
    exact h.reports i

/-- Whether a device can be used depends on its place in the table of slots
and endpoints. -/
theorem Usable.congr {d d' : Dev} {i : Nat} (h : Usable i d)
    (hplace : d'.place = d.place) : Usable i d' := by
  simp only [Dev.place, Prod.mk.injEq] at hplace
  obtain ⟨hused, hslot, hdci, hlen⟩ := hplace
  exact ⟨h.lt, hused.trans h.used, hslot ▸ h.slot, hdci ▸ h.dci, hlen ▸ h.len⟩

/-- Work fits as long as ready devices stay ready, in their slots. -/
theorem Fits.mono {d d' : Driver} {wk : Work} (h : Fits l d wk)
    (hready : ∀ i, d.ready i = true →
      d'.ready i = true ∧ (d'.devs i).place = (d.devs i).place) :
    Fits l d' wk := by
  unfold Fits at h ⊢
  cases hring : wk.ring with
  | cmd => trivial
  | ep0 i =>
      rw [hring] at h
      exact h
  | epi i =>
      rw [hring] at h
      obtain ⟨hi, hslot, hwin⟩ := h
      obtain ⟨hi', hplace⟩ := hready i hi
      simp only [Dev.place, Prod.mk.injEq] at hplace
      exact ⟨hi', hslot.trans hplace.2.1.symm, hwin⟩

/-- A change of the statics that leaves ready devices in their place. -/
theorem HidInv.statics (h : HidInv l w) {d : Driver}
    (hsound : Sound l { w with drv := d })
    (hplace : ∀ i, w.drv.ready i = true →
      (d.devs i).place = (w.drv.devs i).place)
    (hready : d.ready = w.drv.ready) (hhandled : d.handled = w.drv.handled)
    (hsent : d.sent = w.drv.sent) (htaken : d.taken = w.drv.taken) :
    HidInv l { w with drv := d } := by
  have hpending : ∀ i, ({ w with drv := d } : World).pending i
      = w.pending i := by
    intro i
    show (w.hc.posted.drop d.taken).countP _ = _
    rw [htaken]
    rfl
  refine ⟨hsound, fun i hi => ?_, fun wk hwk => ?_, fun i => ?_, fun i => ?_⟩
  · have hi : w.drv.ready i = true := hready ▸ hi
    exact (h.usable i hi).congr (hplace i hi)
  · have hwk : wk ∈ w.drv.sent := hsent ▸ hwk
    exact (h.fits wk hwk).mono fun i hi => ⟨hready ▸ hi, hplace i hi⟩
  · show w.armed i + _ = if d.ready i then 1 else 0
    rw [hpending, hready]
    exact h.owed i
  · show _ = reportsOf i d.handled ++ _
    rw [hpending, hhandled]
    exact h.reports i

/-- A change of an entry that is not ready. -/
theorem HidInv.setDev (h : HidInv l w) {idx : Nat}
    (hidx : w.drv.ready idx = false) (f : Dev → Dev) :
    HidInv l (w.setDev idx f) := by
  refine h.statics (h.sound.setDev idx f) (fun i hi => ?_) rfl rfl rfl rfl
  have hne : i ≠ idx := fun heq => by
    rw [heq, hidx] at hi
    cases hi
  exact congrArg Dev.place (Function.update_of_ne hne _ _)

/-- A request on an interrupt ring arms its device, and other work arms none.
-/
theorem armed_submit (w : World) (r : RingId) (qs : List Request)
    (slot target i : Nat) :
    (w.submit r qs slot target).armed i
      = w.armed i + if r = .epi i then 1 else 0 := by
  unfold World.armed
  rw [submit_outstanding, List.countP_append, List.countP_singleton]
  exact congrArg (_ + ·) (if_congr decide_eq_true_iff rfl rfl)

/-- Work other than an interrupt transfer. -/
theorem HidInv.submit (h : HidInv l w) {r : RingId} {qs : List Request}
    {slot target : Nat} (hr : ∀ i, r ≠ .epi i)
    (hfit : Fits l w.drv (handed w r qs slot target)) :
    HidInv l (w.submit r qs slot target) := by
  refine ⟨h.sound.submit r qs slot target, h.usable, fun wk hwk => ?_,
    fun i => ?_, h.reports⟩
  · rw [submit_sent] at hwk
    rcases List.mem_append.mp hwk with hwk | hwk
    · exact h.fits wk hwk
    · obtain rfl := List.mem_singleton.mp hwk
      exact hfit
  · rw [armed_submit, if_neg (hr i), Nat.add_zero]
    exact h.owed i

/-- What arming a device needs: the count of its entry is one short. -/
theorem HidInv.armInterrupt {idx : Nat} (hsound : Sound l w)
    (husable : ∀ i, w.drv.ready i = true → Usable i (w.drv.devs i))
    (hfits : ∀ wk ∈ w.drv.sent, Fits l w.drv wk)
    (hready : w.drv.ready idx = true)
    (howed : ∀ i, w.armed i + w.pending i
      + (if i = idx then 1 else 0) = if w.drv.ready i then 1 else 0)
    (hreports : ∀ i, reportsOf i w.hc.reports = reportsOf i w.drv.handled
      ++ List.replicate (w.pending i) (w.hc.mem.read (l.hidBufAt i) 8)) :
    HidInv l (armInterrupt l idx w) := by
  refine ⟨hsound.armInterrupt idx, husable, fun wk hwk => ?_, fun i => ?_,
    hreports⟩
  · have hwk : wk ∈ (w.submit _ _ _ _).drv.sent := hwk
    rw [submit_sent] at hwk
    rcases List.mem_append.mp hwk with hwk | hwk
    · exact hfits wk hwk
    · obtain rfl := List.mem_singleton.mp hwk
      exact interrupt_fits w hready rfl (husable idx hready).len _
  · show (w.submit _ _ _ _).armed i + w.pending i
      = if w.drv.ready i then 1 else 0
    rw [armed_submit, ← howed i]
    by_cases hi : i = idx
    · subst hi
      simp
      omega
    · rw [if_neg fun heq => hi (RingId.epi.inj heq).symm, if_neg hi]
      omega

/-- A device is declared ready: it gets its first transfer. -/
theorem HidInv.declareReady (h : HidInv l w) {idx : Nat}
    (hidx : w.drv.ready idx = false) (husable : Usable idx (w.drv.devs idx)) :
    HidInv l (declareReady l idx w) := by
  have hsame : Function.update w.drv.ready idx true idx = true :=
    Function.update_self ..
  have hother : ∀ i, i ≠ idx →
      Function.update w.drv.ready idx true i = w.drv.ready i :=
    fun i hi => Function.update_of_ne hi _ _
  unfold Thuos.Usb.declareReady
  refine HidInv.armInterrupt (h.sound.statics rfl rfl rfl rfl)
    (fun i hi => ?_) (fun wk hwk => ?_) hsame (fun i => ?_) h.reports
  · by_cases heq : i = idx
    · exact heq ▸ husable
    · exact h.usable i ((hother i heq).symm.trans hi)
  · refine (h.fits wk hwk).mono fun i hi => ⟨?_, rfl⟩
    by_cases heq : i = idx
    · exact heq ▸ hsame
    · exact (hother i heq).trans hi
  · show w.armed i + w.pending i + (if i = idx then 1 else 0)
      = if Function.update w.drv.ready idx true i then 1 else 0
    by_cases heq : i = idx
    · subst heq
      obtain ⟨harmed, hpending⟩ := h.quiet hidx
      rw [hsame, harmed, hpending, if_pos rfl, if_pos rfl]
    · rw [hother i heq, if_neg heq]
      exact h.owed i

/-- The table has an entry for the slot of an interrupt transfer. -/
theorem Usable.found {i : Nat} (h : Usable i (w.drv.devs i)) :
    w.deviceOf ((w.drv.devs i).slot % 256) ≠ none := by
  intro hnone
  unfold World.deviceOf at hnone
  have hno := List.find?_eq_none.mp hnone i (List.mem_range.mpr h.lt)
  simp [h.used, h.dci, Nat.mod_eq_of_lt h.slot] at hno

/-- The event of a ready device, taken, leaves its count one short, and
its report to be handled. -/
theorem HidInv.took (h : HidInv l w) {e : Event} {es : List Event} {idx : Nat}
    (hun : w.unread = e :: es) (hdev : e.device = some idx) (i : Nat) :
    w.armed i + (w.take l).pending i + (if i = idx then 1 else 0)
        = (if w.drv.ready i then 1 else 0)
      ∧ List.replicate (w.pending i) (w.hc.mem.read (l.hidBufAt i) 8)
        = (if i = idx then [w.hc.mem.read (l.hidBufAt i) 8] else [])
          ++ List.replicate ((w.take l).pending i)
            (w.hc.mem.read (l.hidBufAt i) 8) := by
  have hpending : w.pending i
      = (w.take l).pending i + if i = idx then 1 else 0 := by
    rw [pending_cons hun i]
    unfold World.pending
    rw [take_unread hun, hdev]
    exact congrArg (_ + ·) (if_congr
      ⟨fun heq => (Option.some.inj heq).symm, fun heq => heq ▸ rfl⟩ rfl rfl)
  have howed := h.owed i
  constructor
  · omega
  · by_cases hi : i = idx
    · -- the event was the only one of its device
      have hlast : (w.take l).pending i = 0 := by
        rw [if_pos hi] at hpending
        split at howed
        · omega
        · omega
      rw [hpending, hlast, if_pos hi, if_pos hi]
      rfl
    · rw [hpending, if_neg hi, if_neg hi]
      rfl

/-- `usb_poll` handles the report and arms the device. -/
theorem HidInv.handle (h : HidInv l w) {e : Event} {es : List Event}
    {idx : Nat} (hun : w.unread = e :: es) (hdev : e.device = some idx)
    (hready : w.drv.ready idx = true) :
    HidInv l (Thuos.Usb.armInterrupt l idx (hidHandle l idx (w.take l))) := by
  have hplace : ∀ i, ((hidHandle l idx (w.take l)).drv.devs i).place
      = (w.drv.devs i).place := by
    intro i
    show (Function.update w.drv.devs idx { w.drv.devs idx with prev := _ } i).place
      = _
    by_cases hi : i = idx
    · rw [hi, Function.update_self]
      rfl
    · rw [Function.update_of_ne hi]
  refine HidInv.armInterrupt ((h.sound.take hun).hidHandle idx)
    (fun i hi => (h.usable i hi).congr (hplace i))
    (fun wk hwk => (h.fits wk hwk).mono fun i hi => ⟨hi, hplace i⟩) hready
    (fun i => (h.took hun hdev i).1) fun i => ?_
  show reportsOf i w.hc.reports
    = reportsOf i (w.drv.handled ++ [(idx, w.hc.mem.read (l.hidBufAt idx) 8)])
      ++ List.replicate ((w.take l).pending i) _
  rw [h.reports i, (h.took hun hdev i).2, reportsOf_append, List.append_assoc]
  by_cases hi : i = idx
  · subst hi
    rw [if_pos rfl, reportsOf_self]
    rfl
  · rw [if_neg hi, reportsOf_other (Ne.symm hi)]
    rfl

/-- `usb_poll` takes an event and serves it. -/
theorem HidInv.serve (h : HidInv l w) (hC : HidCond .serve w) {e : Event}
    {es : List Event} (hun : w.unread = e :: es) {t : Trb}
    (htype : t.type = e.trb.type) (hslot : t.slot = e.trb.slot) :
    HidInv l (Thuos.Usb.serve l t (w.take l)) := by
  have hC : e.isTransfer = true → w.deviceOf e.trb.slot = none
      ∨ w.deviceOf e.trb.slot = e.device := by
    unfold HidCond at hC
    dsimp only at hC
    rw [hun] at hC
    exact hC
  -- an interrupt transfer is that of a ready device, which is found
  have hready : ∀ i, e.device = some i → w.drv.ready i = true
      ∧ w.deviceOf e.trb.slot ≠ none := by
    intro i hdev
    obtain ⟨wk, cc, rfl⟩ := Event.transfer_of_device hdev
    have hposted : Event.transfer wk cc ∈ w.hc.posted :=
      List.mem_of_mem_drop (hun ▸ List.mem_cons_self)
    have hsent := (h.sound.works.posted _ hposted wk rfl).1
    have hfit := h.fits wk (List.mem_of_getElem? hsent)
    unfold Fits at hfit
    rw [(Event.device_transfer wk cc i).mp hdev] at hfit
    obtain ⟨hi, hslot, -⟩ := hfit
    rw [Event.transfer_slot, hslot]
    exact ⟨hi, (h.usable i hi).found⟩
  rcases serve_cases (l := l) t (w.take l) with
    ⟨heq, hnone⟩ | ⟨i, hkind, hsome, heq⟩
  · rw [heq]
    refine h.take hun ?_
    cases hdev : e.device with
    | none => rfl
    | some i =>
        obtain ⟨wk, cc, rfl⟩ := Event.transfer_of_device hdev
        have hmiss := hnone (htype.trans (Event.transfer_type wk cc))
        rw [hslot] at hmiss
        exact absurd hmiss (hready i hdev).2
  · rw [heq]
    have hfound : w.deviceOf e.trb.slot = some i := hslot ▸ hsome
    have hdev : e.device = some i := by
      rcases hC (e.isTransfer_iff.mpr (htype ▸ hkind)) with hno | hyes
      · rw [hfound] at hno
        cases hno
      · exact hyes ▸ hfound
    exact h.handle hun hdev (hready i hdev).1

end Steps

-- ================================================================ the phases

/-- The entry is opened for the slot, and not ready yet. -/
structure Opened (idx slot : Nat) (ready : Nat → Bool) (d : Dev) : Prop where
  lt : idx < MAX_DEV
  waiting : ready idx = false
  used : d.used = true
  slot_eq : d.slot = slot
  slot_lt : slot < 256

/-- The assertions about reports, phase by phase. -/
def HidPhase (l : Layout) : Phase → World → Prop
  | .idle, w => HidInv l w
  | .chosen idx, w => HidInv l w ∧ w.freeEntry = some idx
  | .asked idx, w => HidInv l w ∧ w.freeEntry = some idx
  | .opened idx slot, w =>
      HidInv l w ∧ Opened idx slot w.drv.ready (w.drv.devs idx)

section Phases

variable {l : Layout}

theorem HidPhase.inv : ∀ {p : Phase} {w : World}, HidPhase l p w → HidInv l w
  | .idle, _, h => h
  | .chosen _, _, h => h.1
  | .asked _, _, h => h.1
  | .opened _ _, _, h => h.1

/-- A phase asks, beside the invariant, about the table only. -/
theorem HidPhase.of_inv {p : Phase} {w v : World} (h : HidPhase l p w)
    (hv : HidInv l v) (hdevs : v.drv.devs = w.drv.devs)
    (hready : v.drv.ready = w.drv.ready) : HidPhase l p v := by
  have hfree := freeEntry_congr hdevs
  cases p with
  | idle => exact hv
  | chosen idx => exact ⟨hv, hfree.trans h.2⟩
  | asked idx => exact ⟨hv, hfree.trans h.2⟩
  | opened idx slot =>
      obtain ⟨-, hlt, hwait, hused, hslot, hslot'⟩ := h
      exact ⟨hv, hlt, hready ▸ hwait, hdevs ▸ hused, hdevs ▸ hslot, hslot'⟩

/-- A free entry is not ready. -/
theorem HidInv.free {w : World} (h : HidInv l w) {idx : Nat}
    (hidx : w.freeEntry = some idx) :
    idx < MAX_DEV ∧ w.drv.ready idx = false := by
  unfold World.freeEntry at hidx
  have hfree := List.find?_some hidx
  refine ⟨List.mem_range.mp (List.mem_of_find?_eq_some hidx), ?_⟩
  cases hready : w.drv.ready idx with
  | false => rfl
  | true =>
      rw [(h.usable idx hready).used] at hfree
      cases hfree

/-- The slot field of a TRB is a byte. -/
theorem slot_lt (t : Trb) : t.slot < 256 :=
  Nat.lt_of_le_of_lt Nat.and_le_right (by decide)

/-- A free entry is opened for a slot. -/
theorem HidInv.openSlot {w : World} (h : HidInv l w) {idx : Nat}
    (hidx : w.freeEntry = some idx) (port spd : Nat) (t : Trb) :
    HidInv l (openSlot l idx port spd t.slot w)
      ∧ Opened idx t.slot w.drv.ready
        ((openSlot l idx port spd t.slot w).drv.devs idx) := by
  obtain ⟨hlt, hwait⟩ := h.free hidx
  have hself : (Thuos.Usb.openSlot l idx port spd t.slot w).drv.devs idx
      = { w.drv.devs idx with slot := t.slot, port := port, used := true } :=
    Function.update_self ..
  refine ⟨h.statics (h.sound.openSlot idx port spd t.slot) (fun i hi => ?_)
    rfl rfl rfl rfl, hlt, hwait, ?_, ?_, slot_lt t⟩
  · have hne : i ≠ idx := fun heq => by
      rw [heq, hwait] at hi
      cases hi
    exact congrArg Dev.place (Function.update_of_ne hne _ _)
  · rw [hself]
  · rw [hself]

/-- Every step of the driver keeps the invariant, in each phase of
`enumerate`. -/
theorem hid_carries (l : Layout) :
    Carries l (HidInv l) HidCond (HidPhase l) where
  inv _ _ h := h.inv
  events _ _ h := h.inv.sound.events
  stable _ s t h hR ht :=
    h.of_inv ht (congrArg Driver.devs hR.drv) (congrArg Driver.ready hR.drv)
  take p want s e es h hC hun := by
    have hdev : s.unread.head?.bind Event.device = none := hC
    rw [hun] at hdev
    exact h.of_inv (h.inv.take hun hdev) rfl rfl
  noop s h := HidInv.submit h (fun _ hr => by cases hr) trivial
  present s h := HidInv.statics h (h.sound.statics rfl rfl rfl rfl)
    (fun _ _ => rfl) rfl rfl rfl rfl
  choose s idx h _ hidx := ⟨h, hidx⟩
  port idx s port value h := by
    have hinv : HidInv l (writePortsc port value s) :=
      HidInv.statics h.1 (h.1.sound.statics rfl rfl rfl rfl)
        (fun _ _ => rfl) rfl rfl rfl rfl
    exact HidPhase.of_inv (p := .chosen idx) h hinv rfl rfl
  ask idx s h := ⟨h.1.submit (fun _ hr => by cases hr) trivial, h.2⟩
  drop idx s h := by
    rcases h with h | h
    · exact h.1
    · exact h.1
  grant idx port spd s e es h hC hun _ _ _ := by
    have hdev : s.unread.head?.bind Event.device = none := hC
    rw [hun] at hdev
    exact (h.1.take hun hdev).openSlot h.2 port spd e.trb
  command idx slot s q h _ :=
    ⟨h.1.submit (fun _ hr => by cases hr) trivial, h.2⟩
  control idx slot s _ _ _ _ _ _ h hlen :=
    ⟨h.1.submit (fun _ hr => by cases hr)
      (control_fits s.drv s h.2.lt hlen _ _ _ _ _ _ _), h.2⟩
  parsed idx slot s p h := by
    have hself : (keepParsed idx p s).drv.devs idx = _ := Function.update_self ..
    refine ⟨h.1.setDev h.2.waiting _, h.2.lt, h.2.waiting, ?_, ?_, h.2.slot_lt⟩
    · rw [hself]
      exact h.2.used
    · rw [hself]
      exact h.2.slot_eq
  endpoint idx slot port spd s h :=
    ⟨h.1.statics (h.1.sound.openEndpoint idx port spd) (fun _ _ => rfl)
      rfl rfl rfl rfl, h.2⟩
  giveUp idx slot s h := h.1.setDev h.2.waiting _
  ready idx slot s h hdci hlen := by
    obtain ⟨hinv, hlt, hwait, hused, hslot, hslot'⟩ := h
    exact hinv.declareReady hwait ⟨hlt, hused, hslot ▸ hslot', hdci, hlen⟩
  serve s e es t h hC hun htype hslot := HidInv.serve h hC hun htype hslot

/-- After the set-up no device is usable, and nothing is asked of any. -/
theorem start_hid (l : Layout) (scratch : Nat) :
    HidInv l (World.start l scratch) where
  sound := start_sound l scratch
  usable _ h := by cases h
  fits _ h := absurd h List.not_mem_nil
  owed _ := rfl
  reports _ := rfl

end Phases

-- ================================================================ the result

/-- In every run in which no wait takes the event of a ready device, and
`usb_poll` takes no other event for one, ready devices are attended to in
every state. -/
theorem hid_attended (l : Layout) (scratch : Nat)
    (turns : List (Turn Move Call))
    (hturns : Along (sysStep l) (Meets HidCond fun _ _ => True)
      (Sys.start l scratch) turns) :
    Attended (exec (sysStep l) (Sys.start l scratch) turns).state :=
  (run_carries (hid_carries l) (fun _ m h => h.act m) (start_hid l scratch)
    hturns).attended

/-- A key is pressed: the interrupt transfer `id` completes. -/
def pressTurn (id : Nat) : Turn Move Call :=
  .move (.complete id 1 0 [0, 0, 4, 0, 0, 0, 0, 0])

/-- The controller is brought up, a keyboard enumerated; a key is pressed
and polled, and pressed again. -/
def typingTurns : List (Turn Move Call) :=
  (.call (.bringUp 0) :: answer 0 0 [] ++ keyboardTurns 1 1 1)
    ++ (pressTurn 9 :: .call .poll :: .go :: .go :: pressTurn 10 :: [])

/-- A keyboard that was enumerated and has typed has its next request on the
ring. -/
theorem keyboard_attended :
    Attended (exec (sysStep sampleLayout) (Sys.start sampleLayout 0)
      typingTurns).state :=
  hid_attended sampleLayout 0 typingTurns (by decide +kernel)

/-- A key is pressed while a second device is asked for its descriptor. -/
def interruptedTurns : List (Turn Move Call) :=
  (keyboardTurns 0 1 1 ++ addressTurns 9 2 2)
    ++ (.go :: pressTurn 8 :: .go :: [])

/-- The wait takes the keyboard's event, and no transfer is armed for the
keyboard again. -/
theorem keyboard_silent :
    ¬ Attended (exec (sysStep sampleLayout) (Sys.start sampleLayout 0)
      interruptedTurns).state := by
  intro hall
  obtain ⟨hone, -⟩ := hall 0 (by decide +kernel)
  exact absurd hone (by decide +kernel)

end Thuos.Usb
