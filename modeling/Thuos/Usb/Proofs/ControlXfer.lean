/-
When a control transfer is answered by its own completion.

`wait_event` takes the first Transfer Event on the ring, whatever slot
and endpoint it is for. So `control_xfer` can return a success for its
own transfer only, in every interleaving, exactly if no other transfer
can get in first (`Undisturbed`): the next Transfer Event on the ring
carries a failure, or none is there and no transfer is outstanding.

Forward this is an invariant of the wait (`Expects`): the first Transfer
Event is a failure or the call's own, and none but its own can come.
Backward the controller is made to post the other completion first
(`Coroutine.May`).
-/
import Thuos.Usb.Proofs.Sound

namespace Thuos.Usb

open Coroutine CycleRing Machine

-- ============================================================== a call's runs

/-- The runs of one call of `control_xfer` in the world `w`. -/
def xferRun (l : Layout) (idx bmRT bReq wVal wIdx wLen : Nat) (dirIn : Bool)
    (w : World) (turns : List (Turn Move Empty)) : Conf Site World Nat :=
  exec (Coroutine.step (World.act l) Empty.elim)
    (launch (controlXfer l idx bmRT bReq wVal wIdx wLen dirIn) w) turns

/-- The event that was taken last. -/
def World.lastTaken (w : World) : Option Event :=
  w.hc.posted[w.drv.taken - 1]?

/-- The last event is the completion of the transfer that a call for entry
`idx` in the world `w` hands over, on the slot of that entry. -/
def Own (idx : Nat) (w s : World) : Prop :=
  ∃ wk cc, s.lastTaken = some (.transfer wk cc) ∧ wk.id = w.drv.sent.length
    ∧ wk.ring = .ep0 idx ∧ wk.slot = (w.drv.devs idx).slot

/-- If the call has returned a success, it took its own completion. -/
def Matched (idx : Nat) (w : World) (c : Conf Site World Nat) : Prop :=
  c.prog.result = some 1 → Own idx w c.state

/-- The first Transfer Event on the ring. -/
def World.nextTransfer (w : World) : Option Event :=
  w.unread.find? Event.isTransfer

/-- No other transfer can answer a call made now. -/
def Undisturbed (w : World) : Prop :=
  match w.nextTransfer with
  | some e => 1 < e.trb.code
  | none => ∀ wk ∈ w.hc.outstanding, wk.ring = .cmd

-- ================================================================= forward

/-- The first Transfer Event fails or completes `own`, and before one is
there only `own` can produce it. -/
def Expects (own : Work) (s : World) : Prop :=
  match s.nextTransfer with
  | some e => 1 < e.trb.code ∨ e.source = some own
  | none => ∀ wk ∈ s.hc.outstanding, wk.ring ≠ .cmd → wk = own

section Forward

variable {l : Layout} {s t : World}

theorem nextTransfer_take {e : Event} {es : List Event}
    (hcons : s.unread = e :: es) (he : e.isTransfer = false) :
    (s.take l).nextTransfer = s.nextTransfer := by
  unfold World.nextTransfer
  rw [take_unread hcons, hcons, List.find?_cons_of_neg (by simp [he])]

/-- What comes first stays first; where nothing has come, an event of
outstanding work may. -/
theorem nextTransfer_rely (hev : EventsOk l s) (hR : Rely s t) :
    (∃ e, s.nextTransfer = some e ∧ t.nextTransfer = some e)
      ∨ s.nextTransfer = none
        ∧ ∀ e, t.nextTransfer = some e →
          ∃ wk cc, e = .transfer wk cc ∧ wk ∈ s.hc.outstanding
            ∧ wk.ring ≠ .cmd := by
  obtain ⟨new, hnew, harise⟩ := hR.unread hev.le
  unfold World.nextTransfer
  rw [hnew, List.find?_append]
  cases hs : s.unread.find? Event.isTransfer with
  | some e => exact Or.inl ⟨e, rfl, rfl⟩
  | none =>
      refine Or.inr ⟨rfl, fun e he => ?_⟩
      have hfind : new.find? Event.isTransfer = some e := he
      have hkind := List.find?_some hfind
      have hnew := harise e (List.mem_of_find?_eq_some hfind)
      cases e with
      | notice n => cases hkind
      | command wk cc slot => cases hkind
      | transfer wk cc =>
          obtain ⟨hmem, hring⟩ := hnew wk rfl
          exact ⟨wk, cc, rfl, hmem, hring.mp rfl⟩

theorem Expects.rely {own : Work} (h : Expects own s) (hev : EventsOk l s)
    (hR : Rely s t) : Expects own t := by
  unfold Expects at h ⊢
  rcases nextTransfer_rely hev hR with ⟨e, hs, ht⟩ | ⟨hs, ht⟩
  · rw [hs] at h
    rw [ht]
    exact h
  · rw [hs] at h
    cases hnext : t.nextTransfer with
    | none => exact fun wk hwk => h wk (hR.outstanding hwk)
    | some e =>
        obtain ⟨wk, cc, rfl, hmem, hring⟩ := ht e hnext
        have hown : wk = own := h wk hmem hring
        exact Or.inr (congrArg some hown)

theorem Undisturbed.rely (h : Undisturbed s) (hev : EventsOk l s)
    (hR : Rely s t) : Undisturbed t := by
  unfold Undisturbed at h ⊢
  rcases nextTransfer_rely hev hR with ⟨e, hs, ht⟩ | ⟨hs, ht⟩
  · rw [hs] at h
    rw [ht]
    exact h
  · rw [hs] at h
    cases hnext : t.nextTransfer with
    | none => exact fun wk hwk => h wk (hR.outstanding hwk)
    | some e =>
        obtain ⟨wk, cc, rfl, hmem, hring⟩ := ht e hnext
        exact absurd (h wk hmem) hring

/-- Handing over the call's own transfer. -/
theorem Undisturbed.submit (h : Undisturbed s) (r : RingId)
    (qs : List Request) (slot target : Nat) :
    Expects (handed s r qs slot target) (s.submit r qs slot target) := by
  unfold Undisturbed at h
  unfold Expects
  have hsame : (s.submit r qs slot target).nextTransfer = s.nextTransfer := rfl
  rw [hsame]
  cases hnext : s.nextTransfer with
  | some e =>
      rw [hnext] at h
      exact Or.inl h
  | none =>
      rw [hnext] at h
      intro wk hwk hring
      rw [submit_outstanding] at hwk
      rcases List.mem_append.mp hwk with hwk | hwk
      · exact absurd (h wk hwk) hring
      · exact List.mem_singleton.mp hwk

/-- A taken event is the last one taken. -/
theorem lastTaken_take {e : Event} {es : List Event}
    (hcons : s.unread = e :: es) : (s.take l).lastTaken = some e := by
  obtain ⟨hlt, hget, -⟩ := unread_cons hcons
  show s.hc.posted[s.drv.taken + 1 - 1]? = some e
  rw [Nat.add_sub_cancel, List.getElem?_eq_getElem hlt, hget]

/-- What the call returns on: a failure, or its own completion. -/
theorem Expects.taken {own : Work} (h : Expects own s) {e : Event}
    {es : List Event} (hcons : s.unread = e :: es)
    (htype : e.trb.type = TRB_TRANSFER_EVT) (hcode : e.trb.code ≤ 1) :
    ∃ cc, (s.take l).lastTaken = some (.transfer own cc) := by
  have hkind : e.isTransfer = true := e.isTransfer_iff.mpr htype
  have hnext : s.nextTransfer = some e := by
    unfold World.nextTransfer
    rw [hcons, List.find?_cons_of_pos hkind]
  have hlast : (s.take l).lastTaken = some e := lastTaken_take hcons
  unfold Expects at h
  rw [hnext] at h
  rcases h with h | h
  · omega
  · cases e with
    | notice n => cases hkind
    | command wk cc slot => cases hkind
    | transfer wk cc =>
        obtain rfl : wk = own := Option.some.inj h
        exact ⟨cc, hlast⟩

theorem Own.rely {idx : Nat} {w : World} (h : Own idx w s) (hR : Rely s t) :
    Own idx w t := by
  obtain ⟨wk, cc, hlast, hown⟩ := h
  obtain ⟨new, hnew, -⟩ := hR.posts
  refine ⟨wk, cc, ?_, hown⟩
  unfold World.lastTaken at hlast ⊢
  have hlt := (List.getElem?_eq_some_iff.mp hlast).1
  rw [hR.drv, hnew, List.getElem?_append_left hlt, hlast]

variable {w : World}

/-- From an undisturbed state the call returns a success on its own
completion only. -/
theorem controlXfer_holds (hev : EventsOk l w) (h : Undisturbed w)
    (idx bmRT bReq wVal wIdx wLen : Nat) (dirIn : Bool) :
    Holds (EventsOk l) Rely (fun _ _ => True)
      (controlXfer l idx bmRT bReq wVal wIdx wLen dirIn)
      (fun r s => EventsOk l s ∧ (r = 1 → Own idx w s)) w := by
  unfold controlXfer
  simp only [holds_bind, holds_yield, holds_modify]
  refine ⟨hev, fun v hR hv _ => ?_⟩
  have hsub := (h.rely hev hR).submit (.ep0 idx)
    (controlTd l idx bmRT bReq wVal wIdx wLen dirIn) (v.drv.devs idx).slot 1
  generalize hown : handed v (.ep0 idx)
    (controlTd l idx bmRT bReq wVal wIdx wLen dirIn)
    (v.drv.devs idx).slot 1 = own at hsub
  have hid : own.id = w.drv.sent.length ∧ own.ring = .ep0 idx
      ∧ own.slot = (w.drv.devs idx).slot := by
    subst hown
    rw [← hR.drv]
    exact ⟨rfl, rfl, rfl⟩
  refine holds_waitEvent (J := fun s => EventsOk l s ∧ Expects own s)
    (fun s hs => hs.1) (fun s hs => hs.1)
    (fun s t hs hR' ht => ⟨ht, hs.2.rely hs.1 hR'⟩) ?_ ?_ ?_ _ _
    ⟨hv.congr rfl rfl rfl rfl rfl rfl rfl rfl, hsub⟩
  · intro s e es hs _ hcons htype
    refine ⟨hs.1.take hcons, ?_⟩
    have hkind : e.isTransfer = false := by
      rw [← Bool.not_eq_true]
      exact fun h => htype (e.isTransfer_iff.mp h)
    unfold Expects
    rw [nextTransfer_take hcons hkind]
    exact hs.2
  · intro s e es hs _ hcons htype
    rw [holds_pure]
    refine ⟨hs.1.take hcons, fun hr => ?_⟩
    have hcode : e.trb.code ≤ 1 := by
      by_contra hbig
      rw [if_pos (by omega)] at hr
      omega
    obtain ⟨cc, hlast⟩ := hs.2.taken (l := l) hcons htype hcode
    exact ⟨own, cc, hlast, hid⟩
  · intro s hs
    rw [holds_pure]
    exact ⟨hs.1, fun h => absurd h (by decide)⟩

theorem matched_of_undisturbed (hev : EventsOk l w) (h : Undisturbed w)
    (idx bmRT bReq wVal wIdx wLen : Nat) (dirIn : Bool)
    (turns : List (Turn Move Empty)) :
    Matched idx w (xferRun l idx bmRT bReq wVal wIdx wLen dirIn w turns) := by
  have hstart : Safe (EventsOk l) Rely (fun _ _ => True)
      (fun r s => EventsOk l s ∧ (r = 1 → Own idx w s))
      (launch (controlXfer l idx bmRT bReq wVal wIdx wLen dirIn) w) :=
    launch_safe (fun _ _ hs => hs.1)
      (controlXfer_holds hev h idx bmRT bReq wVal wIdx wLen dirIn)
  have hsafe : Safe (EventsOk l) Rely (fun _ _ => True)
      (fun r s => EventsOk l s ∧ (r = 1 → Own idx w s))
      (xferRun l idx bmRT bReq wVal wIdx wLen dirIn w turns) :=
    run_safe (fun _ _ _ hst htu => hst.trans htu) Rely.refl
      (fun _ _ hs => hs.1)
      (fun _ s t hs hR ht => ⟨ht, fun hr => (hs.2 hr).rely hR⟩)
      (fun s m hs _ => ⟨hs.steps (s.hc.act_steps m), Rely.act s m⟩)
      (fun k => k.elim) hstart (along_of_forall meets_true)
  intro hresult
  have hholds := hsafe.holds
  generalize xferRun l idx bmRT bReq wVal wIdx wLen dirIn w turns = c at *
  obtain ⟨s, p⟩ := c
  cases p with
  | ret r => exact hholds.2 (Option.some.inj hresult)
  | get k => cases hresult
  | put u p => cases hresult
  | pause l p => cases hresult

end Forward

-- ================================================================ backward

section Backward

variable {l : Layout} {s w : World}

theorem may_nextEvent {P : Option Trb → World → Prop} (h : EventsOk l s)
    {e : Event} {es : List Event} (hcons : s.unread = e :: es)
    (hP : ∀ t, t.type = e.trb.type → t.code = e.trb.code →
      t.slot = e.trb.slot → P (some t) (s.take l)) :
    May (World.act l) (nextEvent l) P s := by
  obtain ⟨htype, hcode, hslot⟩ := e.stamp_fields (lap_lt EVT_TRBS s.drv.taken)
  unfold nextEvent
  rw [may_bind, may_read, peek_some h hcons]
  exact hP _ htype hcode hslot

/-- `wait_event` skips an event that is no Transfer Event. -/
theorem may_skip {P : Option (Nat × Nat) → World → Prop} {n : Nat}
    (moves : List Move) (hev : EventsOk l (moves.foldl (World.act l) s))
    {x : Event} {xs : List Event}
    (hun : (moves.foldl (World.act l) s).unread = x :: xs)
    (hx : x.isTransfer = false)
    (hrest : May (World.act l) (waitEvent l TRB_TRANSFER_EVT n) P
      ((moves.foldl (World.act l) s).take l)) :
    May (World.act l) (waitEvent l TRB_TRANSFER_EVT (n + 1)) P s := by
  unfold waitEvent
  rw [may_bind, may_yield]
  refine ⟨moves, ?_⟩
  rw [may_bind]
  apply may_nextEvent hev hun
  intro t htype _ _
  have hne : t.type ≠ TRB_TRANSFER_EVT := by
    rw [htype]
    intro htr
    rw [x.isTransfer_iff.mpr htr] at hx
    cases hx
  dsimp only
  rw [if_neg hne]
  exact hrest

/-- `wait_event` comes to the first Transfer Event on the ring, if the
moves at its first pause put it there. -/
theorem may_wait {P : Option (Nat × Nat) → World → Prop} {e : Event}
    (he : e.isTransfer = true)
    (hP : ∀ t, t.lastTaken = some e → P (some (e.trb.code, e.trb.slot)) t) :
    ∀ (pre post : List Event) (n : Nat) (moves : List Move) (s : World),
      EventsOk l (moves.foldl (World.act l) s) →
      (moves.foldl (World.act l) s).unread = pre ++ e :: post →
      (∀ x ∈ pre, x.isTransfer = false) → pre.length < n →
      May (World.act l) (waitEvent l TRB_TRANSFER_EVT n) P s := by
  intro pre
  induction pre with
  | nil =>
      intro post n moves s hev hun _ hn
      obtain ⟨n, rfl⟩ := Nat.exists_eq_succ_of_ne_zero (Nat.ne_of_gt hn)
      unfold waitEvent
      rw [may_bind, may_yield]
      refine ⟨moves, ?_⟩
      rw [may_bind]
      apply may_nextEvent hev hun
      intro t htype hcode hslot
      dsimp only
      rw [if_pos (htype.trans (e.isTransfer_iff.mp he)), hcode, hslot]
      exact hP _ (lastTaken_take hun)
  | cons x pre ih =>
      intro post n moves s hev hun hpre hn
      obtain ⟨n, rfl⟩ := Nat.exists_eq_succ_of_ne_zero (Nat.ne_of_gt
        (Nat.lt_of_le_of_lt (Nat.zero_le _) hn))
      apply may_skip moves hev hun (hpre x List.mem_cons_self)
      apply ih post n [] _ (hev.take hun) (take_unread hun)
      · exact fun y hy => hpre y (List.mem_cons_of_mem x hy)
      · rw [List.length_cons] at hn
        omega

theorem room_of_unread (h : EventsOk l s)
    (hlen : s.unread.length + 1 < EVT_TRBS) : s.hc.Room l := by
  have hle := h.le
  unfold World.unread at hlen
  rw [List.length_drop] at hlen
  unfold Controller.Room
  rw [h.erdp, h.enq, Nat.mod_add_mod]
  exact (slot_ne (by omega) (by omega)).symm

/-- With room on the ring the controller may complete any transfer. -/
theorem complete_unread (h : Sound l s) {wk : Work}
    (hwk : wk ∈ s.hc.outstanding) (hring : wk.ring ≠ .cmd)
    (hlen : s.unread.length + 1 < EVT_TRBS) :
    (s.act l (.complete wk.id 1 0 [])).unread
      = s.unread ++ [.transfer wk 1] := by
  have hfind : s.hc.outstanding.find? (fun o => o.id = wk.id) = some wk := by
    cases hf : s.hc.outstanding.find? (fun o => o.id = wk.id) with
    | none =>
        have hnone := List.find?_eq_none.mp hf wk hwk
        simp at hnone
    | some o =>
        have hid : o.id = wk.id := by simpa using List.find?_some hf
        exact congrArg some
          (h.works.unique (List.mem_of_find?_eq_some hf) hwk hid)
  have hno : wk.enables = false := by
    cases hen : wk.enables with
    | false => rfl
    | true => exact absurd (enables_cmd hen) hring
  have hallows : s.hc.Allows l wk 1 0 :=
    ⟨room_of_unread h.events hlen, fun hen => by rw [hno] at hen; cases hen⟩
  have hact : s.hc.act l (.complete wk.id 1 0 [])
      = (s.hc.finish wk).completeTransfer l wk 1 [] := by
    unfold Controller.act
    dsimp only
    rw [hfind]
    dsimp only
    rw [if_pos hallows, if_neg hring]
  show (s.hc.act l _).posted.drop s.drv.taken = _
  rw [hact, Controller.completeTransfer_eq, Controller.post_posted]
  exact List.drop_append_of_le_length h.events.le

/-- With no Transfer Event on the ring, `wait_event` comes to that of any
outstanding transfer. -/
theorem may_wait_other {P : Option (Nat × Nat) → World → Prop} {n : Nat}
    (h : Sound l s) (hnone : ∀ x ∈ s.unread, x.isTransfer = false)
    {wk : Work} (hwk : wk ∈ s.hc.outstanding) (hring : wk.ring ≠ .cmd)
    (hn : EVT_TRBS < n)
    (hP : ∀ t slot, t.lastTaken = some (.transfer wk 1) →
      P (some (1, slot)) t) :
    May (World.act l) (waitEvent l TRB_TRANSFER_EVT n) P s := by
  have hroomy : ∀ (v : World) (m : Nat), Sound l v →
      (∀ x ∈ v.unread, x.isTransfer = false) → wk ∈ v.hc.outstanding →
      v.unread.length + 1 < EVT_TRBS → EVT_TRBS ≤ m →
      May (World.act l) (waitEvent l TRB_TRANSFER_EVT m) P v := by
    intro v m hv hnv hwv hlen hm
    have hun := complete_unread hv hwv hring hlen
    refine may_wait rfl (fun t ht => ?_) v.unread [] m
      [.complete wk.id 1 0 []] v (hv.act _).events hun hnv (by omega)
    rw [Event.transfer_code]
    exact hP t _ ht
  have hlen := h.events.unread_lt
  by_cases hroom : s.unread.length + 1 < EVT_TRBS
  · exact hroomy s n h hnone hwk hroom (by omega)
  · -- the ring is full: the driver first takes an event off
    cases hun : s.unread with
    | nil =>
        rw [hun] at hroom
        exact absurd (by decide) hroom
    | cons x xs =>
        obtain ⟨n, rfl⟩ := Nat.exists_eq_succ_of_ne_zero
          (Nat.ne_of_gt (Nat.lt_of_le_of_lt (Nat.zero_le _) hn))
        have hx : x.isTransfer = false :=
          hnone x (hun ▸ List.mem_cons_self)
        refine may_skip [] h.events hun hx ?_
        rw [hun, List.length_cons] at hlen
        apply hroomy _ n (h.take hun) _ hwk
        · rw [take_unread hun]
          omega
        · omega
        · rw [take_unread hun]
          exact fun y hy => hnone y (hun ▸ List.mem_cons_of_mem x hy)

/-- A disturbed call may return a success on another transfer. -/
theorem not_matched (h : Sound l w) (hdis : ¬ Undisturbed w)
    (idx bmRT bReq wVal wIdx wLen : Nat) (dirIn : Bool) :
    ∃ turns,
      ¬ Matched idx w (xferRun l idx bmRT bReq wVal wIdx wLen dirIn w turns) := by
  -- the call returns 1 on work that was handed over before
  have hmay : May (World.act l)
      (controlXfer l idx bmRT bReq wVal wIdx wLen dirIn)
      (fun r t => r = 1 ∧ ∃ e wk, t.lastTaken = some e
        ∧ e.source = some wk ∧ wk.id < w.drv.sent.length) w := by
    unfold controlXfer
    simp only [may_bind, may_yield, may_modify]
    refine ⟨[], ?_⟩
    show May (World.act l) (waitEvent l TRB_TRANSFER_EVT WAIT_POLLS) _
      (w.submit (.ep0 idx) _ (w.drv.devs idx).slot 1)
    have hsub := h.submit (.ep0 idx)
      (controlTd l idx bmRT bReq wVal wIdx wLen dirIn)
      (w.drv.devs idx).slot 1
    have hun := submit_unread w (.ep0 idx)
      (controlTd l idx bmRT bReq wVal wIdx wLen dirIn)
      (w.drv.devs idx).slot 1
    unfold Undisturbed World.nextTransfer at hdis
    cases hfind : w.unread.find? Event.isTransfer with
    | some e =>
        rw [hfind] at hdis
        have hkind : e.isTransfer = true := List.find?_some hfind
        obtain ⟨-, pre, post, hsplit, hpre⟩ :=
          List.find?_eq_some_iff_append.mp hfind
        have hlen := h.events.unread_lt
        have hprelen : pre.length < WAIT_POLLS := by
          rw [hsplit, List.length_append, List.length_cons] at hlen
          exact Nat.lt_trans (by omega : pre.length < EVT_TRBS) (by decide)
        refine may_wait hkind (fun t ht => ?_) pre post _ [] _ hsub.events
          (hun.trans hsplit) (fun x hx => by simpa using hpre x hx) hprelen
        rw [may_pure]
        refine ⟨by split <;> omega, ?_⟩
        cases e with
        | notice n => cases hkind
        | command wk cc slot => cases hkind
        | transfer wk cc =>
            exact ⟨_, wk, ht, rfl, h.works.source_lt
              (hsplit ▸ List.mem_append_right pre List.mem_cons_self) rfl⟩
    | none =>
        rw [hfind] at hdis
        obtain ⟨wk, hwk, hring⟩ : ∃ wk ∈ w.hc.outstanding, wk.ring ≠ .cmd := by
          by_contra hall
          exact hdis fun wk hwk => by
            by_contra hring
            exact hall ⟨wk, hwk, hring⟩
        refine may_wait_other hsub (fun x hx => ?_)
          (List.mem_append_left _ hwk) hring (by decide) (fun t slot ht => ?_)
        · simpa using List.find?_eq_none.mp hfind x (hun ▸ hx)
        · rw [may_pure]
          exact ⟨rfl, _, wk, ht, rfl, h.works.id_lt hwk⟩
  obtain ⟨turns, r, t, hrun, hr, e, wk, hlast, hsource, hid⟩ :=
    hmay.run (Empty.elim : Empty → Code Nat)
  refine ⟨turns, fun hmatch => ?_⟩
  have hconf : xferRun l idx bmRT bReq wVal wIdx wLen dirIn w turns
      = ⟨t, .ret r⟩ := hrun
  rw [hconf] at hmatch
  obtain ⟨wk', cc, hown, hid', -⟩ := hmatch (congrArg some hr)
  have hown : t.lastTaken = some (.transfer wk' cc) := hown
  obtain rfl : e = .transfer wk' cc := Option.some.inj (hlast.symm.trans hown)
  obtain rfl : wk' = wk := Option.some.inj hsource
  omega

end Backward

-- =============================================================== the result

/-- In every reachable state, a call of `control_xfer` returns a success
only on the completion of its own transfer, in every interleaving with
the controller, exactly if no other transfer can answer it. -/
theorem control_xfer_matched_iff (l : Layout) (scratch : Nat)
    (turns : List (Turn Move Call)) (idx bmRT bReq wVal wIdx wLen : Nat)
    (dirIn : Bool) :
    let w := (exec (sysStep l) (Sys.start l scratch) turns).state
    (∀ more, Matched idx w
        (xferRun l idx bmRT bReq wVal wIdx wLen dirIn w more))
      ↔ Undisturbed w := by
  intro w
  have hsound : Sound l w := run_sound l scratch turns
  constructor
  · intro hall
    by_contra hdis
    obtain ⟨more, hmore⟩ := not_matched hsound hdis idx bmRT bReq wVal wIdx
      wLen dirIn
    exact hmore (hall more)
  · intro hundis more
    exact matched_of_undisturbed hsound.events hundis idx bmRT bReq wVal wIdx
      wLen dirIn more

/-- A keyboard is ready in slot 1. While a second device, in slot 2, is
asked for its descriptor, a key is pressed: the driver takes the
keyboard's event for the answer. -/
theorem control_xfer_mismatched :
    let w := (exec (sysStep sampleLayout) (Sys.start sampleLayout 0)
      (keyboardTurns 0 1 1 ++ addressTurns 9 2 2)).state
    ¬ Matched 1 w (xferRun sampleLayout 1 0x80 6 0x0100 0 18 true w
      [.go, .move (.complete 8 1 0 [0, 0, 4, 0, 0, 0, 0, 0]), .go]) := by
  intro w hmatch
  obtain ⟨wk, cc, hlast, hid, -⟩ := hmatch (by decide +kernel)
  have hother : ((xferRun sampleLayout 1 0x80 6 0x0100 0 18 true w
      [.go, .move (.complete 8 1 0 [0, 0, 4, 0, 0, 0, 0, 0]),
        .go]).state.lastTaken.bind Event.source).map Work.id = some 8 := by
    decide +kernel
  have hown : w.drv.sent.length = 11 := by decide +kernel
  rw [hlast] at hother
  have heq : wk.id = 8 := Option.some.inj hother
  rw [hid, hown] at heq
  omega

end Thuos.Usb
