/-
When enabled slots keep device contexts of their own.

`enumerate` gives entry `idx` of the device table the context
`dev_ctx[idx]` and the ring `ep0_ring[idx]`, and zeroes both. A slot that
was granted stays enabled, for the driver never issues Disable Slot; but
seven exits of `enumerate` mark the entry free again. What is left behind
is harmless until the entry is opened for another slot. So the condition
is on that step only (`SlotCond`): the entry that `enumerate` opens is
not the context of another enabled slot.

The invariant `SlotInv` says that DCBAA entries belong to enabled slots
and differ, and that the slot numbers in completions of commands are of
enabled slots: a slot number that `enumerate` reads from an event, even
from a stale one, is not one that the controller could grant later.
-/
import Thuos.Usb.Proofs.Sound

namespace Thuos.Usb

open Coroutine Machine Word32

-- ============================================================ the commands

section Commands

/-- The slot that a command's control word carries. -/
theorem command_slot (lo low slot : Nat) (hlow : low < 2 ^ 24) :
    (⟨lo, 0, 0, low ||| slot <<< 24⟩ : Trb).slot = slot % 256 := by
  have hctl : low ||| slot <<< 24 = slot <<< 24 ||| low := Nat.lor_comm ..
  exact (Trb.fields_of_control hctl hlow).1

/-- The commands of `enumerate` after Enable Slot name the slot. -/
theorem slot_command {l : Layout} {idx slot : Nat} {q : Request}
    (hq : q = addressDeviceCmd l idx slot ∨ q = configureEpCmd l idx slot) :
    q.toTrb.slot = slot % 256 := by
  rcases hq with rfl | rfl
  · exact command_slot (l.inCtxAt idx) (TRB_ADDRESS_DEV <<< 10) slot (by decide)
  · exact command_slot (l.inCtxAt idx) (TRB_CONFIG_EP <<< 10) slot (by decide)

/-- Work enables a slot when it is an Enable Slot command. -/
theorem enables_handed (w : World) (q : Request) (slot target : Nat) :
    (handed w .cmd [q] slot target).enables = true
      ↔ q.toTrb.type = TRB_ENABLE_SLOT := by
  unfold Work.enables handed
  simp

/-- The slot that a command is for is the one in its TRB. -/
theorem cmdSlot_handed (w : World) (q : Request) (slot target : Nat) :
    (handed w .cmd [q] slot target).cmdSlot = q.toTrb.slot := rfl

end Commands

-- =========================================================== the invariant

/-- A slot number that the driver may meet: none, or that of an enabled
slot. -/
def Known (w : World) (slot : Nat) : Prop := slot = 0 ∨ slot ∈ w.hc.enabled

structure SlotInv (l : Layout) (w : World) : Prop where
  sound : Sound l w
  range : ∀ s ∈ w.hc.enabled, 0 < s ∧ s < 64
  entries : ∀ s, s ≠ 0 → w.drv.dcbaa s ≠ 0 → s ∈ w.hc.enabled
  apart : ∀ s s', s ≠ 0 → s' ≠ 0 → w.drv.dcbaa s ≠ 0 →
    w.drv.dcbaa s = w.drv.dcbaa s' → s = s'
  events : ∀ wk cc slot, Event.command wk cc slot ∈ w.unread → Known w slot
  works : ∀ wk ∈ w.hc.outstanding, wk.ring = .cmd → wk.enables = false →
    Known w wk.cmdSlot
  wiped : ∀ z ∈ w.drv.wiped, ∀ s ∈ z.owners, s = z.slot

/-- What the claim of exclusive contexts says: enabled slots have
different contexts, and what was zeroed had no other owner. -/
def Separate (l : Layout) (w : World) : Prop :=
  (∀ s ∈ w.hc.enabled, ∀ s' ∈ w.hc.enabled, ∀ i,
      w.drv.dcbaa s = l.devCtxAt i → w.drv.dcbaa s' = l.devCtxAt i → s = s')
    ∧ ∀ z ∈ w.drv.wiped, ∀ s ∈ z.owners, s = z.slot

/-- The slot that the next event grants to `enumerate`, if it waits for
one. -/
def World.granted (w : World) : Option Nat :=
  match w.drv.sent.getLast?, w.unread.head? with
  | some wk, some e =>
      if wk.enables ∧ e.trb.type = TRB_CMD_COMPLETE ∧ e.trb.code ≤ 1
          ∧ e.trb.slot ≠ 0 then some e.trb.slot
      else none
  | _, _ => none

/-- The condition on the driver's steps: the entry that a slot is opened
with is not the context of another enabled slot. -/
def SlotCond (l : Layout) : Site → World → Prop
  | .wait _, w =>
      match w.granted, w.freeEntry with
      | some slot, some idx =>
          ∀ s ∈ w.hc.enabled, s ≠ slot → w.drv.dcbaa s ≠ l.devCtxAt idx
      | _, _ => True
  | _, _ => True

instance (l : Layout) : ∀ site w, Decidable (SlotCond l site w)
  | .wait _, w => by
      unfold SlotCond
      dsimp only
      cases w.granted with
      | none => exact isTrue trivial
      | some slot =>
          cases w.freeEntry with
          | none => exact isTrue trivial
          | some idx => infer_instance
  | .control, _ => isTrue trivial
  | .serve, _ => isTrue trivial
  | .port, _ => isTrue trivial
  | .enumerate, _ => isTrue trivial

section Steps

variable {l : Layout} {w v : World}

/-- No device context is at address 0, so an entry of the DCBAA that is in
use is not empty. -/
theorem devCtxAt_ne_zero (l : Layout) (i : Nat) : l.devCtxAt i ≠ 0 := by
  have := l.devCtx_pos
  unfold Layout.devCtxAt
  omega

/-- Under the invariant the slots are apart. -/
theorem SlotInv.separate (h : SlotInv l w) : Separate l w := by
  refine ⟨fun s hs s' hs' i heq heq' => ?_, h.wiped⟩
  apply h.apart s s' (Nat.ne_of_gt (h.range s hs).1)
    (Nat.ne_of_gt (h.range s' hs').1)
  · rw [heq]
    exact devCtxAt_ne_zero l i
  · rw [heq, heq']

/-- The controller posts one event and may enable a slot. -/
theorem SlotInv.post (h : SlotInv l w) {hc : Controller} {e : Event}
    (hsound : Sound l { w with hc := hc.post e })
    (hposted : hc.posted = w.hc.posted)
    (hworks : hc.outstanding ⊆ w.hc.outstanding)
    (henabled : w.hc.enabled ⊆ hc.enabled)
    (hrange : ∀ s ∈ hc.enabled, 0 < s ∧ s < 64)
    (hslot : ∀ wk cc slot, e = .command wk cc slot →
      slot = 0 ∨ slot ∈ hc.enabled) :
    SlotInv l { w with hc := hc.post e } where
  sound := hsound
  range := by
    show ∀ s ∈ (hc.post e).enabled, _
    rw [Controller.post_enabled]
    exact hrange
  entries s hs hne := by
    show s ∈ (hc.post e).enabled
    rw [Controller.post_enabled]
    exact henabled (h.entries s hs hne)
  apart := h.apart
  events wk cc slot hmem := by
    show slot = 0 ∨ slot ∈ (hc.post e).enabled
    rw [Controller.post_enabled]
    rw [h.sound.events.post_unread e hposted] at hmem
    rcases List.mem_append.mp hmem with hmem | hmem
    · exact (h.events wk cc slot hmem).imp id fun hs => henabled hs
    · exact hslot wk cc slot (List.mem_singleton.mp hmem).symm
  works wk hmem hring hno := by
    show wk.cmdSlot = 0 ∨ wk.cmdSlot ∈ (hc.post e).enabled
    rw [Controller.post_enabled]
    have hmem : wk ∈ (hc.post e).outstanding := hmem
    rw [Controller.post_outstanding] at hmem
    exact (h.works wk (hworks hmem) hring hno).imp id fun hs => henabled hs
  wiped := h.wiped

/-- A move of the controller keeps the invariant. -/
theorem SlotInv.act (h : SlotInv l w) (m : Move) : SlotInv l (w.act l m) := by
  have hsound := h.sound.act m
  unfold World.act at hsound ⊢
  generalize hgen : w.hc.act l m = hc at hsound ⊢
  have hsteps : w.hc.Steps l hc := hgen ▸ w.hc.act_steps m
  cases hsteps with
  | stays => exact h
  | portsc port value =>
      exact ⟨hsound, h.range, h.entries, h.apart, h.events, h.works, h.wiped⟩
  | notice n room =>
      apply h.post hsound rfl (fun _ h => h) (fun _ h => h) h.range
      intro wk cc slot heq
      cases heq
  | granted wk slot mem room enables pos lt fresh =>
      apply h.post hsound rfl (finish_subset _ wk)
        (fun s hs => List.mem_cons_of_mem slot hs)
      · intro s hs
        rcases List.mem_cons.mp hs with rfl | hs
        · exact ⟨pos, lt⟩
        · exact h.range s hs
      · intro wk' cc' slot' heq
        cases heq
        exact Or.inr List.mem_cons_self
  | refused wk cc mem room enables fails =>
      apply h.post hsound rfl (finish_subset _ wk) (fun _ h => h) h.range
      intro wk' cc' slot' heq
      cases heq
      exact Or.inl rfl
  | replied wk cc mem room cmd other =>
      apply h.post hsound rfl (finish_subset _ wk) (fun _ h => h) h.range
      intro wk' cc' slot' heq
      cases heq
      exact h.works wk mem cmd other
  | transferred wk cc data mem room transfer =>
      apply h.post hsound rfl (finish_subset _ wk) (fun _ h => h) h.range
      intro wk' cc' slot' heq
      cases heq

/-- An event that is taken leaves its slot known, and the invariant in place.
-/
theorem SlotInv.take (h : SlotInv l w) {e : Event} {es : List Event}
    (hcons : w.unread = e :: es) : SlotInv l (w.take l) where
  sound := h.sound.take hcons
  range := h.range
  entries := h.entries
  apart := h.apart
  events wk cc slot hmem := by
    rw [take_unread hcons] at hmem
    exact h.events wk cc slot (hcons ▸ List.mem_cons_of_mem e hmem)
  works := h.works
  wiped := h.wiped

/-- A change of the statics that slots are not about. -/
theorem SlotInv.statics (h : SlotInv l w) {d : Driver}
    (hsound : Sound l { w with drv := d }) (htaken : d.taken = w.drv.taken)
    (hdcbaa : d.dcbaa = w.drv.dcbaa) (hwiped : d.wiped = w.drv.wiped) :
    SlotInv l { w with drv := d } where
  sound := hsound
  range := h.range
  entries := by
    show ∀ s, s ≠ 0 → d.dcbaa s ≠ 0 → _
    rw [hdcbaa]
    exact h.entries
  apart := by
    show ∀ s s', s ≠ 0 → s' ≠ 0 → d.dcbaa s ≠ 0 →
      d.dcbaa s = d.dcbaa s' → _
    rw [hdcbaa]
    exact h.apart
  events := by
    show ∀ wk cc slot, _ ∈ w.hc.posted.drop d.taken → _
    rw [htaken]
    exact h.events
  works := h.works
  wiped := by
    show ∀ z ∈ d.wiped, _
    rw [hwiped]
    exact h.wiped

/-- The table of devices may be written without touching a context. -/
theorem SlotInv.setDev (h : SlotInv l w) (idx : Nat) (f : Dev → Dev) :
    SlotInv l (w.setDev idx f) :=
  h.statics (h.sound.setDev idx f) rfl rfl rfl

/-- Work may be handed over if a command is for a slot that is known. -/
theorem SlotInv.submit (h : SlotInv l w) (r : RingId) (qs : List Request)
    (slot target : Nat)
    (hnew : r = .cmd → (handed w r qs slot target).enables = false →
      Known w (handed w r qs slot target).cmdSlot) :
    SlotInv l (w.submit r qs slot target) where
  sound := h.sound.submit r qs slot target
  range := h.range
  entries := h.entries
  apart := h.apart
  events := h.events
  works wk hmem hring hno := by
    rw [submit_outstanding] at hmem
    rcases List.mem_append.mp hmem with hmem | hmem
    · exact h.works wk hmem hring hno
    · obtain rfl := List.mem_singleton.mp hmem
      exact hnew hring hno
  wiped := h.wiped

/-- The slot has the context of `idx`. -/
def Owned (l : Layout) (idx slot : Nat) (d : Driver) : Prop :=
  slot ≠ 0 ∧ d.dcbaa slot = l.devCtxAt idx

/-- A slot that an entry of the table owns is known to the driver. -/
theorem SlotInv.known (h : SlotInv l w) {idx slot : Nat}
    (hown : Owned l idx slot w.drv) : slot < 64 ∧ Known w slot := by
  have hmem : slot ∈ w.hc.enabled := by
    apply h.entries slot hown.1
    rw [hown.2]
    exact devCtxAt_ne_zero l idx
  exact ⟨(h.range slot hmem).2, Or.inr hmem⟩

/-- A slot is opened with a context that no other slot has. -/
theorem SlotInv.openSlot (h : SlotInv l w) {idx slot : Nat} (port spd : Nat)
    (hfree : ∀ s ∈ w.hc.enabled, s ≠ slot → w.drv.dcbaa s ≠ l.devCtxAt idx)
    (hne : slot ≠ 0) (hknown : Known w slot) :
    SlotInv l (openSlot l idx port spd slot w)
      ∧ Owned l idx slot (openSlot l idx port spd slot w).drv := by
  have hsame : Function.update w.drv.dcbaa slot (l.devCtxAt idx) slot
      = l.devCtxAt idx := Function.update_self ..
  have hother : ∀ s, s ≠ slot →
      Function.update w.drv.dcbaa slot (l.devCtxAt idx) s = w.drv.dcbaa s :=
    fun s hs => Function.update_of_ne hs _ _
  have hfree : ∀ s, s ≠ 0 → s ≠ slot → w.drv.dcbaa s ≠ l.devCtxAt idx := by
    intro s hs hslot heq
    refine hfree s (h.entries s hs ?_) hslot heq
    rw [heq]
    exact devCtxAt_ne_zero l idx
  refine ⟨⟨h.sound.openSlot idx port spd slot, h.range, ?_, ?_, h.events,
    h.works, ?_⟩, hne, hsame⟩
  · intro s hs hentry
    by_cases heq : s = slot
    · rcases hknown with hzero | hmem
      · exact absurd hzero hne
      · exact heq ▸ hmem
    · exact h.entries s hs (hother s heq ▸ hentry)
  · intro s s' hs hs' hentry heq
    have hentry : Function.update w.drv.dcbaa slot (l.devCtxAt idx) s ≠ 0 :=
      hentry
    have heq : Function.update w.drv.dcbaa slot (l.devCtxAt idx) s
        = Function.update w.drv.dcbaa slot (l.devCtxAt idx) s' := heq
    by_cases hslot : s = slot
    · by_cases hslot' : s' = slot
      · rw [hslot, hslot']
      · rw [hslot, hsame, hother s' hslot'] at heq
        exact absurd heq.symm (hfree s' hs' hslot')
    · by_cases hslot' : s' = slot
      · rw [hslot', hsame, hother s hslot] at heq
        exact absurd heq (hfree s hs hslot)
      · rw [hother s hslot] at hentry heq
        rw [hother s' hslot'] at heq
        exact h.apart s s' hs hs' hentry heq
  · -- what is zeroed had no other owner
    intro z hz s hs
    have hz : z ∈ w.drv.wiped ++ [_] := hz
    rcases List.mem_append.mp hz with hz | hz
    · exact h.wiped z hz s hs
    · obtain rfl := List.mem_singleton.mp hz
      obtain ⟨hmem, hown⟩ := List.mem_filter.mp hs
      by_contra hslot
      exact hfree s (Nat.ne_of_gt (h.range s hmem).1) hslot
        (of_decide_eq_true hown)

end Steps

-- ================================================================ the phases

/-- The last request is an Enable Slot command. -/
def Asking (d : Driver) : Prop :=
  ∃ wk, d.sent.getLast? = some wk ∧ wk.enables = true

/-- The assertions about slots, phase by phase. -/
def SlotPhase (l : Layout) : Phase → World → Prop
  | .idle, w => SlotInv l w
  | .chosen idx, w => SlotInv l w ∧ w.freeEntry = some idx
  | .asked idx, w => SlotInv l w ∧ w.freeEntry = some idx ∧ Asking w.drv
  | .opened idx slot, w => SlotInv l w ∧ Owned l idx slot w.drv

variable {l : Layout}

theorem SlotPhase.inv : ∀ {p : Phase} {w : World}, SlotPhase l p w →
    SlotInv l w
  | .idle, _, h => h
  | .chosen _, _, h => h.1
  | .asked _, _, h => h.1
  | .opened _ _, _, h => h.1

/-- A phase asks, beside the invariant, about the table, the DCBAA and
the requests only. -/
theorem SlotPhase.of_inv {p : Phase} {w v : World} (h : SlotPhase l p w)
    (hv : SlotInv l v) (hdevs : v.drv.devs = w.drv.devs)
    (hdcbaa : v.drv.dcbaa = w.drv.dcbaa) (hsent : v.drv.sent = w.drv.sent) :
    SlotPhase l p v := by
  have hfree := freeEntry_congr hdevs
  cases p with
  | idle => exact hv
  | chosen idx => exact ⟨hv, hfree.trans h.2⟩
  | asked idx =>
      refine ⟨hv, hfree.trans h.2.1, ?_⟩
      unfold Asking
      rw [hsent]
      exact h.2.2
  | opened idx slot => exact ⟨hv, h.2.1, hdcbaa ▸ h.2.2⟩

/-- A No-Op command is for no slot in particular. -/
theorem known_noop (w : World) :
    Known w (handed w .cmd [noopCmd] 0 0).cmdSlot :=
  Or.inl (by rw [cmdSlot_handed]; decide)

/-- Every step of the driver that meets the condition keeps the invariant, in
each phase of `enumerate`. -/
theorem slot_carries (l : Layout) :
    Carries l (SlotInv l) (SlotCond l) (SlotPhase l) where
  inv _ _ h := h.inv
  events _ _ h := h.inv.sound.events
  stable _ s t h hR ht :=
    h.of_inv ht (congrArg Driver.devs hR.drv) (congrArg Driver.dcbaa hR.drv)
      (congrArg Driver.sent hR.drv)
  take _ _ _ _ _ h _ hun := h.of_inv (h.inv.take hun) rfl rfl rfl
  noop s h := SlotInv.submit h _ _ _ _ fun _ _ => known_noop s
  present s h := SlotInv.statics h (h.sound.statics rfl rfl rfl rfl) rfl rfl rfl
  choose s idx h _ hidx := ⟨h, hidx⟩
  port idx s port value h := by
    have hinv : SlotInv l (writePortsc port value s) :=
      SlotInv.statics h.1 (h.1.sound.statics rfl rfl rfl rfl) rfl rfl rfl
    exact SlotPhase.of_inv (p := .chosen idx) h hinv rfl rfl rfl
  ask idx s h := by
    have hyes := (enables_handed s enableSlotCmd 0 0).mpr (by decide)
    refine ⟨h.1.submit _ _ _ _ fun _ hno => ?_, h.2, _,
      List.getLast?_concat, hyes⟩
    rw [hyes] at hno
    cases hno
  drop idx s h := by
    rcases h with h | h
    · exact h.1
    · exact h.1
  grant idx port spd s e es h hC hun htype hcode hne := by
    obtain ⟨hinv, hidx, wk, hlast, hyes⟩ := h
    have hgranted : s.granted = some e.trb.slot := by
      unfold World.granted
      rw [hlast, hun]
      exact if_pos ⟨hyes, htype, hcode, hne⟩
    have hfree : ∀ s' ∈ s.hc.enabled, s' ≠ e.trb.slot →
        s.drv.dcbaa s' ≠ l.devCtxAt idx := by
      unfold SlotCond at hC
      dsimp only at hC
      rw [hgranted, hidx] at hC
      exact hC
    cases e with
    | notice n => exact absurd htype n.not_command
    | transfer wk cc => exact absurd (Event.transfer_type wk cc ▸ htype) (by decide)
    | command wk cc slot =>
        have hknown : Known s slot :=
          hinv.events wk cc slot (hun ▸ List.mem_cons_self)
        rw [Event.command_slot] at hne hfree ⊢
        have hsmall : slot % 256 = slot := by
          rcases hknown with rfl | hmem
          · rfl
          · have := (hinv.range slot hmem).2
            omega
        rw [hsmall] at hne hfree ⊢
        exact (hinv.take hun).openSlot port spd hfree hne hknown
  command idx slot s q h hq := by
    obtain ⟨hlt, hknown⟩ := h.1.known h.2
    refine ⟨h.1.submit _ _ _ _ fun _ _ => ?_, h.2⟩
    rw [cmdSlot_handed, slot_command hq, Nat.mod_eq_of_lt (by omega)]
    exact hknown
  control idx slot s _ _ _ _ _ _ h _ :=
    ⟨h.1.submit _ _ _ _ (fun hr => by cases hr), h.2⟩
  parsed _ _ _ _ h := ⟨h.1.setDev _ _, h.2⟩
  endpoint idx slot port spd s h :=
    ⟨h.1.statics (h.1.sound.openEndpoint _ _ _) rfl rfl rfl, h.2⟩
  giveUp _ _ _ h := h.1.setDev _ _
  ready idx slot s h _ _ := by
    have hmark : SlotInv l
        { s with drv.ready := Function.update s.drv.ready idx true } :=
      h.1.statics (h.1.sound.statics rfl rfl rfl rfl) rfl rfl rfl
    exact hmark.submit _ _ _ _ fun hr => by cases hr
  serve s e es t h _ hun _ _ := by
    have htake : SlotInv l (s.take l) := SlotInv.take h hun
    show SlotInv l (serve l t (s.take l))
    rcases serve_cases (l := l) t (s.take l) with ⟨heq, -⟩ | ⟨i, -, -, heq⟩
    · rw [heq]
      exact htake
    · rw [heq]
      have hhandle : SlotInv l (hidHandle l i (s.take l)) :=
        htake.statics (htake.sound.hidHandle i) rfl rfl rfl
      exact hhandle.submit _ _ _ _ fun hr => by cases hr

/-- After the set-up no slot is enabled. -/
theorem start_slots (l : Layout) (scratch : Nat) :
    SlotInv l (World.start l scratch) where
  sound := start_sound l scratch
  range _ h := absurd h List.not_mem_nil
  entries _ hs hne := absurd (if_neg hs) hne
  apart _ _ hs _ hne _ := absurd (if_neg hs) hne
  events _ _ _ h := absurd h List.not_mem_nil
  works _ h := absurd h List.not_mem_nil
  wiped _ h := absurd h List.not_mem_nil

-- ================================================================ the result

/-- In every run in which `enumerate` only opens entries that are no other
enabled slot's context, enabled slots have contexts of their own and no
context or EP0 ring of another slot is zeroed, in every state. -/
theorem slots_separate (l : Layout) (scratch : Nat)
    (turns : List (Turn Move Call))
    (hturns : Along (sysStep l) (Meets (SlotCond l) fun _ _ => True)
      (Sys.start l scratch) turns) :
    Separate l (exec (sysStep l) (Sys.start l scratch) turns).state :=
  (run_carries (slot_carries l) (fun _ m h => h.act m) (start_slots l scratch)
    hturns).separate

/-- Two keyboards, one after the other. -/
theorem two_keyboards_separate :
    Separate sampleLayout (exec (sysStep sampleLayout)
      (Sys.start sampleLayout 0)
      (keyboardTurns 0 1 1 ++ keyboardTurns 9 2 2)).state :=
  slots_separate sampleLayout 0 _ (by decide +kernel)

/-- The configuration of a memory stick: one interface of class 8. -/
def stickConfig : List UInt8 :=
  [9, 2, 18, 0, 1, 1, 0, 0x80, 50, 9, 4, 0, 0, 2, 8, 6, 0x50, 0]

/-- A stick is given up after its descriptors are read, and a second
device takes its entry: both slots are enabled, with one context. -/
theorem stick_then_keyboard_shared :
    ¬ Separate sampleLayout (exec (sysStep sampleLayout)
      (Sys.start sampleLayout 0)
      (addressTurns 0 1 1
        ++ controlTurns 2 [List.replicate 18 0, stickConfig.take 9, stickConfig]
        ++ addressTurns 5 2 2)).state := by
  intro hsep
  have hshared := hsep.1 1 (by decide +kernel) 2 (by decide +kernel) 0
    (by decide +kernel) (by decide +kernel)
  exact absurd hshared (by decide)

end Thuos.Usb
