/-
The driver's thread, phase by phase.

While the driver waits, the controller acts; `Rely` is all the driver may
count on then. An invariant of the whole system is proved from a family
of assertions, one for each `Phase` of the thread: `Carries` lists what
the family has to keep, one obligation for each kind of step that the
sources contain, and `holds_body` walks through `enumerate`, `usb_poll`
and `xhci_init` once for all of them. `run_carries` is the rule for runs.
-/
import Thuos.Usb.Proofs.Events

namespace Thuos.Usb

open Coroutine Machine

-- ================================================================= the rely

/-- An event that completes work on the list `works`. -/
def Event.Arises (works : List Work) (e : Event) : Prop :=
  ∀ wk, e.source = some wk →
    wk ∈ works ∧ (e.isTransfer = true ↔ wk.ring ≠ .cmd)

/-- What the controller may do to the world while the driver waits. -/
structure Rely (s t : World) : Prop where
  drv : t.drv = s.drv
  posts : ∃ new, t.hc.posted = s.hc.posted ++ new
    ∧ ∀ e ∈ new, e.Arises s.hc.outstanding
  outstanding : t.hc.outstanding ⊆ s.hc.outstanding

section Rely

variable {l : Layout} {s t u : World}

/-- The driver may count on a state that has not changed. -/
theorem Rely.refl (s : World) : Rely s s :=
  ⟨rfl, ⟨[], (List.append_nil _).symm,
    fun _ he => absurd he List.not_mem_nil⟩, fun _ h => h⟩

/-- What the controller does in two stretches is what it may do in one. -/
theorem Rely.trans (h : Rely s t) (h' : Rely t u) : Rely s u := by
  obtain ⟨new, hnew, harise⟩ := h.posts
  obtain ⟨new', hnew', harise'⟩ := h'.posts
  refine ⟨h'.drv.trans h.drv, ⟨new ++ new', ?_, fun e he wk hwk => ?_⟩,
    fun _ hmem => h.outstanding (h'.outstanding hmem)⟩
  · rw [hnew', hnew, List.append_assoc]
  · rcases List.mem_append.mp he with he | he
    · exact harise e he wk hwk
    · obtain ⟨hmem, hkind⟩ := harise' e he wk hwk
      exact ⟨h.outstanding hmem, hkind⟩

/-- To finish work is to take it away from what is outstanding. -/
theorem finish_subset (hc : Controller) (wk : Work) :
    (hc.finish wk).outstanding ⊆ hc.outstanding :=
  fun _ h => List.mem_of_mem_filter h

/-- The event of completed work. -/
theorem Event.arises_command {works : List Work} {wk : Work} (cc : UInt8)
    (slot : Nat) (hmem : wk ∈ works) (hcmd : wk.ring = .cmd) :
    (Event.command wk cc slot).Arises works := by
  intro o ho
  obtain rfl : wk = o := Option.some.inj ho
  exact ⟨hmem, fun h => Bool.noConfusion h, fun h => absurd hcmd h⟩

/-- A transfer that was outstanding may be reported. -/
theorem Event.arises_transfer {works : List Work} {wk : Work} (cc : UInt8)
    (hmem : wk ∈ works) (hring : wk.ring ≠ .cmd) :
    (Event.transfer wk cc).Arises works := by
  intro o ho
  obtain rfl : wk = o := Option.some.inj ho
  exact ⟨hmem, fun _ => hring, fun _ => rfl⟩

/-- Only work on the command ring can enable a slot. -/
theorem enables_cmd {wk : Work} (h : wk.enables = true) : wk.ring = .cmd := by
  unfold Work.enables at h
  exact of_decide_eq_true (Bool.and_eq_true_iff.mp h).1

/-- Every step of the controller is allowed. -/
theorem Rely.act (s : World) (m : Move) : Rely s (s.act l m) := by
  have hone : ∀ (hc : Controller) (e : Event),
      hc.posted = s.hc.posted → hc.outstanding ⊆ s.hc.outstanding →
      e.Arises s.hc.outstanding → Rely s { s with hc := hc.post e } := by
    intro hc e hposted hsub harise
    refine ⟨rfl, ⟨[e], ?_, fun e' he' => ?_⟩, ?_⟩
    · show (hc.post e).posted = _
      rw [Controller.post_posted, hposted]
    · obtain rfl := List.mem_singleton.mp he'
      exact harise
    · show (hc.post e).outstanding ⊆ _
      rw [Controller.post_outstanding]
      exact hsub
  unfold World.act
  generalize hgen : s.hc.act l m = hc
  have hsteps : s.hc.Steps l hc := hgen ▸ s.hc.act_steps m
  cases hsteps with
  | stays => exact Rely.refl s
  | portsc port value =>
      exact ⟨rfl, (Rely.refl s).posts, (Rely.refl s).outstanding⟩
  | notice n room =>
      exact hone _ _ rfl (fun _ h => h) fun wk hwk => by cases hwk
  | granted wk slot mem room enables pos lt fresh =>
      exact hone _ _ rfl (finish_subset _ wk)
        (Event.arises_command 1 slot mem (enables_cmd enables))
  | refused wk cc mem room enables fails =>
      exact hone _ _ rfl (finish_subset _ wk)
        (Event.arises_command cc 0 mem (enables_cmd enables))
  | replied wk cc mem room cmd other =>
      exact hone _ _ rfl (finish_subset _ wk)
        (Event.arises_command cc _ mem cmd)
  | transferred wk cc data mem room transfer =>
      exact hone _ _ rfl (finish_subset _ wk)
        (Event.arises_transfer cc mem transfer)

/-- What is unread stays unread, and comes first. -/
theorem Rely.unread (h : Rely s t) (hle : s.drv.taken ≤ s.hc.posted.length) :
    ∃ new, t.unread = s.unread ++ new
      ∧ ∀ e ∈ new, e.Arises s.hc.outstanding := by
  obtain ⟨new, hnew, harise⟩ := h.posts
  refine ⟨new, ?_, harise⟩
  show t.hc.posted.drop t.drv.taken = s.hc.posted.drop s.drv.taken ++ new
  rw [hnew, h.drv, List.drop_append_of_le_length hle]

end Rely

-- =============================================================== the phases

/-- Where the thread is: between calls; with a free entry chosen; with a
slot asked for; with a slot granted. -/
inductive Phase where
  | idle
  | chosen (idx : Nat)
  | asked (idx : Nat)
  | opened (idx slot : Nat)

/-- Which entry is free is a matter of the table. -/
theorem freeEntry_congr {w v : World} (h : v.drv.devs = w.drv.devs) :
    v.freeEntry = w.freeEntry := by
  unfold World.freeEntry
  rw [h]

/-- What a family of assertions has to keep. -/
structure Carries (l : Layout) (I : World → Prop)
    (C : Site → World → Prop) (J : Phase → World → Prop) : Prop where
  inv : ∀ p s, J p s → I s
  events : ∀ p s, J p s → EventsOk l s
  stable : ∀ p s t, J p s → Rely s t → I t → J p t
  /-- `wait_event` takes an event, wanted or not. -/
  take : ∀ p want s e es, J p s → C (.wait want) s → s.unread = e :: es →
    J p (s.take l)
  noop : ∀ s, J .idle s → J .idle (s.submit .cmd [noopCmd] 0 0)
  present : ∀ s, J .idle s →
    J .idle { s with drv.present := true }
  choose : ∀ s idx, J .idle s → C .enumerate s → s.freeEntry = some idx →
    J (.chosen idx) s
  port : ∀ idx s port value, J (.chosen idx) s →
    J (.chosen idx) (writePortsc port value s)
  ask : ∀ idx s, J (.chosen idx) s →
    J (.asked idx) (s.submit .cmd [enableSlotCmd] 0 0)
  /-- Enumeration ends before a slot is in use. -/
  drop : ∀ idx s, J (.chosen idx) s ∨ J (.asked idx) s → J .idle s
  /-- The completion of Enable Slot is taken, and the slot opened. -/
  grant : ∀ idx port spd s e es, J (.asked idx) s →
    C (.wait TRB_CMD_COMPLETE) s → s.unread = e :: es →
    e.trb.type = TRB_CMD_COMPLETE → e.trb.code ≤ 1 → e.trb.slot ≠ 0 →
    J (.opened idx e.trb.slot)
      (openSlot l idx port spd e.trb.slot (s.take l))
  command : ∀ idx slot s q, J (.opened idx slot) s →
    q = addressDeviceCmd l idx slot ∨ q = configureEpCmd l idx slot →
    J (.opened idx slot) (s.submit .cmd [q] 0 0)
  control : ∀ idx slot s bmRT bReq wVal wIdx wLen dirIn,
    J (.opened idx slot) s → wLen ≤ 512 →
    J (.opened idx slot) (s.submit (.ep0 idx)
      (controlTd l idx bmRT bReq wVal wIdx wLen dirIn)
      (s.drv.devs idx).slot 1)
  parsed : ∀ idx slot s p, J (.opened idx slot) s →
    J (.opened idx slot) (keepParsed idx p s)
  endpoint : ∀ idx slot port spd s, J (.opened idx slot) s →
    J (.opened idx slot) (openEndpoint l idx port spd s)
  giveUp : ∀ idx slot s, J (.opened idx slot) s → J .idle (giveUp idx s)
  ready : ∀ idx slot s, J (.opened idx slot) s →
    (s.drv.devs idx).epDci ≠ 0 → (s.drv.devs idx).epLen ≤ 8 →
    J .idle (declareReady l idx s)
  /-- `usb_poll` takes an event and serves it. -/
  serve : ∀ s e es t, J .idle s → C .serve s → s.unread = e :: es →
    t.type = e.trb.type → t.slot = e.trb.slot →
    J .idle (serve l t (s.take l))

-- ============================================================ the descriptors

/-- An endpoint that the walk selects gets a length of 1 to 8. -/
theorem parseOne_len (cfg : Nat → Nat) (o : Nat) {p : Parsed}
    (h : p.epDci ≠ 0 → p.epLen ≤ 8) :
    (parseOne cfg o p).epDci ≠ 0 → (parseOne cfg o p).epLen ≤ 8 := by
  unfold parseOne
  dsimp only
  split
  · split
    · split
      · exact h
      · split
        · exact h
        · exact h
    · exact h
  · split
    · split
      · intro _
        dsimp only
        split
        · exact Nat.le_refl 8
        · omega
      · exact h
    · exact h

/-- An endpoint that was parsed has a buffer of at most 8 bytes, whatever the
bytes of the configuration are. -/
theorem parseConfig_len (cfg : Nat → Nat) (total : Nat) :
    ∀ n o p, (p.epDci ≠ 0 → p.epLen ≤ 8) →
      (parseConfig cfg total n o p).epDci ≠ 0 →
      (parseConfig cfg total n o p).epLen ≤ 8 := by
  intro n
  induction n with
  | zero => exact fun _ _ h => h
  | succ n ih =>
      intro o p h
      unfold parseConfig
      split
      · split
        · exact h
        · exact ih _ _ (parseOne_len cfg o h)
      · exact h

/-- So has the endpoint that `enumerate` has parsed. -/
theorem parsed_len (l : Layout) (idx total : Nat) (w : World)
    (h : (parsed l idx total w).epDci ≠ 0) : (parsed l idx total w).epLen ≤ 8 :=
  parseConfig_len _ _ _ _ _ (fun h => absurd rfl h) h

-- ================================================================= the walk

section Walk

variable {l : Layout} {I : World → Prop} {C : Site → World → Prop}
  {J : Phase → World → Prop}

/-- Waiting in a phase, with a fact `F` about the statics beside it. -/
theorem Carries.wait (h : Carries l I C J) (p : Phase) (F : Driver → Prop)
    (hF : ∀ s : World, F s.drv → F (s.take l).drv) {want : Nat}
    {Q : Option (Nat × Nat) → World → Prop}
    (hsome : ∀ s e es, J p s → F s.drv → C (.wait want) s →
      s.unread = e :: es → e.trb.type = want →
      Q (some (e.trb.code, e.trb.slot)) (s.take l))
    (hnone : ∀ s, J p s → F s.drv → Q none s) (n : Nat) {s : World}
    (hs : J p s) (hFs : F s.drv) :
    Holds I Rely C (waitEvent l want n) Q s := by
  refine holds_waitEvent (J := fun s => J p s ∧ F s.drv)
    (fun s hs => h.inv p s hs.1) (fun s hs => h.events p s hs.1)
    (fun s t hs hR hI => ⟨h.stable p s t hs.1 hR hI, hR.drv ▸ hs.2⟩)
    (fun s e es hs hC hun _ => ⟨h.take p want s e es hs.1 hC hun, hF s hs.2⟩)
    (fun s e es hs hC hun htype => hsome s e es hs.1 hs.2 hC hun htype)
    (fun s hs => hnone s hs.1 hs.2) n s ⟨hs, hFs⟩

/-- A command while a slot is open. -/
theorem Carries.cmdSubmit (h : Carries l I C J) {idx slot : Nat}
    (F : Driver → Prop) (hF : ∀ s : World, F s.drv → F (s.take l).drv)
    {q : Request}
    (hq : q = addressDeviceCmd l idx slot ∨ q = configureEpCmd l idx slot)
    {Q : Nat × Nat → World → Prop}
    (hQ : ∀ r s, J (.opened idx slot) s → F s.drv → Q r s) {s : World}
    (hs : J (.opened idx slot) s) (hFs : F (s.submit .cmd [q] 0 0).drv) :
    Holds I Rely C (cmdSubmit l q) Q s := by
  unfold Thuos.Usb.cmdSubmit
  simp only [holds_bind, holds_modify]
  refine h.wait (.opened idx slot) F hF ?_ ?_ _
    (h.command idx slot s q hs hq) hFs
  · intro t e es ht hFt hC hun _
    exact hQ _ _ (h.take _ _ t e es ht hC hun) (hF t hFt)
  · intro t ht hFt
    exact hQ _ t ht hFt

/-- A control transfer while a slot is open. -/
theorem Carries.controlXfer (h : Carries l I C J) {idx slot : Nat}
    (F : Driver → Prop) (hF : ∀ s : World, F s.drv → F (s.take l).drv)
    {bmRT bReq wVal wIdx wLen : Nat} {dirIn : Bool} (hlen : wLen ≤ 512)
    {Q : Nat → World → Prop}
    (hQ : ∀ r s, J (.opened idx slot) s → F s.drv → Q r s) {s : World}
    (hs : J (.opened idx slot) s)
    (hsubmit : ∀ (w : World) r qs slot target, F w.drv →
      F (w.submit r qs slot target).drv) (hFs : F s.drv) :
    Holds I Rely C (controlXfer l idx bmRT bReq wVal wIdx wLen dirIn) Q s := by
  unfold Thuos.Usb.controlXfer
  simp only [holds_bind, holds_yield, holds_modify]
  refine ⟨h.inv _ s hs, fun w hR hI _ => ?_⟩
  refine h.wait (.opened idx slot) F hF ?_ ?_ _
    (h.control idx slot w _ _ _ _ _ _ (h.stable _ s w hs hR hI) hlen)
    (hsubmit w _ _ _ _ (hR.drv ▸ hFs))
  · intro t e es ht hFt hC hun _
    exact hQ _ _ (h.take _ _ t e es ht hC hun) (hF t hFt)
  · intro t ht hFt
    exact hQ _ t ht hFt

/-- The endpoint of entry `idx` is one that can be armed. -/
def Armable (idx : Nat) (d : Driver) : Prop :=
  (d.devs idx).epDci ≠ 0 ∧ (d.devs idx).epLen ≤ 8

/-- The descriptors are fetched in the phase of an open slot, and whatever
they say, the phase goes on. -/
theorem Carries.describe (h : Carries l I C J) {idx slot : Nat}
    {Q : Option (Parsed × Nat) → World → Prop}
    (hnone : ∀ s, J (.opened idx slot) s → Q none s)
    (hsome : ∀ p cfgval s, J (.opened idx slot) s →
      (p.epDci ≠ 0 → Armable idx s.drv) → Q (some (p, cfgval)) s)
    {s : World} (hs : J (.opened idx slot) s) :
    Holds I Rely C (describe l idx) Q s := by
  unfold Thuos.Usb.describe
  rw [holds_bind]
  refine h.controlXfer (fun _ => True) (fun _ h => h) (by decide)
    (fun r t ht _ => ?_) hs (fun _ _ _ _ _ h => h) trivial
  split
  · exact hnone t ht
  rw [holds_bind]
  refine h.controlXfer (fun _ => True) (fun _ h => h) (by decide)
    (fun r t ht _ => ?_) ht (fun _ _ _ _ _ h => h) trivial
  split
  · exact hnone t ht
  rw [holds_bind, holds_read]
  dsimp only
  rw [holds_bind]
  refine h.controlXfer (fun _ => True) (fun _ h => h) (Nat.min_le_right _ _)
    (fun r u hu _ => ?_) ht (fun _ _ _ _ _ h => h) trivial
  split
  · exact hnone u hu
  simp only [holds_bind, holds_read, holds_modify, holds_pure]
  refine hsome _ _ _ (h.parsed idx slot u _ hu) fun hdci => ?_
  have hlen := parsed_len l idx _ u hdci
  show ((keepParsed idx _ u).drv.devs idx).epDci ≠ 0
    ∧ ((keepParsed idx _ u).drv.devs idx).epLen ≤ 8
  unfold keepParsed World.setDev
  dsimp only
  rw [Function.update_self]
  exact ⟨hdci, hlen⟩

/-- The endpoint is configured in the phase of an open slot, and the device
may then be armed. -/
theorem Carries.configure (h : Carries l I C J) {idx slot : Nat}
    (port spd cfgval : Nat) (p : Parsed) {Q : Bool → World → Prop}
    (hQ : ∀ b s, J (.opened idx slot) s → Armable idx s.drv → Q b s)
    {s : World} (hs : J (.opened idx slot) s) (harm : Armable idx s.drv) :
    Holds I Rely C (configure l idx port spd slot cfgval p) Q s := by
  unfold Thuos.Usb.configure
  rw [holds_bind]
  refine h.controlXfer (Armable idx) (fun _ h => h) (by decide)
    (fun r t ht hFt => ?_) hs (fun _ _ _ _ _ h => h) harm
  split
  · exact hQ _ t ht hFt
  rw [holds_bind]
  refine h.controlXfer (Armable idx) (fun _ h => h) (by decide)
    (fun r u hu hFu => ?_) ht (fun _ _ _ _ _ h => h) hFt
  simp only [holds_bind, holds_modify]
  refine h.cmdSubmit (Armable idx) (fun _ h => h) (Or.inr rfl)
    (fun r v hv hFv => ?_) (h.endpoint idx slot port spd u hu) hFu
  exact hQ _ v hv hFv

/-- A slot that was opened is set up, or given up, and the driver is idle
again. -/
theorem Carries.setUp (h : Carries l I C J) {idx slot : Nat} (port spd : Nat)
    {s : World} (hs : J (.opened idx slot) (openSlot l idx port spd slot s)) :
    Holds I Rely C (setUp l idx port spd slot) (fun _ => J .idle) s := by
  unfold Thuos.Usb.setUp
  simp only [holds_bind, holds_modify]
  refine h.cmdSubmit (fun _ => True) (fun _ h => h) (Or.inl rfl)
    (fun r t ht _ => ?_) hs trivial
  split
  · exact h.giveUp idx slot t ht
  rw [holds_bind]
  refine h.describe (fun u hu => ?_) (fun p cfgval u hu harm => ?_) ht
  · exact h.giveUp idx slot u hu
  dsimp only
  split
  · exact h.giveUp idx slot u hu
  next hdci =>
    rw [holds_bind]
    refine h.configure port spd cfgval p (fun b v hv hFv => ?_) hu (harm hdci)
    split
    · exact h.ready idx slot v hv hFv.1 hFv.2
    · exact h.giveUp idx slot v hv

/-- `enumerate` takes an idle driver to an idle one, at whatever point it
gives up. -/
theorem Carries.enumerate (h : Carries l I C J) (port : Nat) {s : World}
    (hs : J .idle s) :
    Holds I Rely C (enumerate l port) (fun _ => J .idle) s := by
  unfold Thuos.Usb.enumerate
  rw [holds_bind, holds_yield]
  refine ⟨h.inv _ s hs, fun t hR hI hC => ?_⟩
  have ht := h.stable _ s t hs hR hI
  rw [holds_bind, holds_read]
  split
  · exact ht
  next idx hidx =>
    rw [holds_bind]
    refine holds_portReset (J := J (.chosen idx)) (h.inv _) (h.stable _)
      (fun u v hu => h.port idx u port v hu) (fun spd u hu => ?_)
      (h.choose t idx ht hC hidx)
    split
    · exact h.drop idx u (Or.inl hu)
    unfold Thuos.Usb.cmdSubmit
    simp only [holds_bind, holds_modify]
    refine h.wait (.asked idx) (fun _ => True) (fun _ h => h) ?_ ?_ _
      (h.ask idx u hu) trivial
    · intro v e es hv _ hCv hun htype
      rw [holds_pure]
      dsimp only
      generalize hcc : (if e.trb.code ≠ 0 then e.trb.code else 1) = cc
      split
      · exact h.drop idx _ (Or.inr (h.take _ _ v e es hv hCv hun))
      next hok =>
        have hcode : e.trb.code ≤ 1 := by
          by_contra hbig
          rw [if_pos (by omega)] at hcc
          exact hok (Or.inl (by omega))
        exact h.setUp port spd (h.grant idx port spd v e es hv hCv hun htype
          hcode fun hzero => hok (Or.inr hzero))
    · intro v hv _
      rw [holds_pure]
      dsimp only
      rw [if_pos (Or.inl (by decide))]
      exact h.drop idx v (Or.inr hv)

/-- The loop of `usb_poll` serves its events one by one, and is idle between
them. -/
theorem Carries.pollEvents (h : Carries l I C J) :
    ∀ n s, J .idle s →
      Holds I Rely C (pollEvents l n) (fun _ => J .idle) s := by
  intro n
  induction n with
  | zero => exact fun s hs => hs
  | succ n ih =>
      intro s hs
      unfold Thuos.Usb.pollEvents
      rw [holds_bind, holds_yield]
      refine ⟨h.inv _ s hs, fun t hR hI hC => ?_⟩
      have ht := h.stable _ s t hs hR hI
      rw [holds_bind]
      refine holds_nextEvent (h.events _ t ht) (fun _ => ht) ?_
      intro e es b hun htype _ hslot
      simp only [holds_bind, holds_modify]
      exact ih _ (h.serve t e es b ht hC hun htype hslot)

/-- The ports are enumerated one by one, and the driver is idle between them.
-/
theorem Carries.enumeratePorts (h : Carries l I C J) :
    ∀ ports s, J .idle s →
      Holds I Rely C (enumeratePorts l ports) (fun _ => J .idle) s := by
  intro ports
  induction ports with
  | nil => exact fun s hs => hs
  | cons p ports ih =>
      intro s hs
      unfold Thuos.Usb.enumeratePorts
      rw [holds_bind]
      refine holds_readPortsc (J := J .idle) (h.inv _) (h.stable _)
        (fun sc t ht => ?_) hs
      split
      · rw [holds_bind]
        exact (h.enumerate p ht).mono fun _ u hu => ih u hu
      · exact ih t ht

/-- Every call keeps the family, from idle to idle. -/
theorem Carries.body (h : Carries l I C J) (call : Call) {s : World}
    (hs : J .idle s) :
    Holds I Rely C (body l call) (fun _ => J .idle) s := by
  cases call with
  | bringUp maxports =>
      show Holds I Rely C (bringUp l maxports) _ s
      unfold bringUp Thuos.Usb.cmdSubmit
      simp only [holds_bind, holds_modify]
      refine h.wait .idle (fun _ => True) (fun _ h => h) ?_ ?_ _
        (h.noop s hs) trivial
      · intro t e es ht _ hC hun _
        have hnext := h.take _ _ t e es ht hC hun
        rw [holds_pure]
        dsimp only
        generalize (if e.trb.code ≠ 0 then e.trb.code else 1) = cc
        split
        · exact hnext
        · rw [holds_bind, holds_modify]
          exact h.enumeratePorts _ _ (h.present _ hnext)
      · intro t ht _
        rw [holds_pure]
        exact ht
  | enumerate port => exact h.enumerate port hs
  | poll =>
      show Holds I Rely C (usbPoll l) _ s
      unfold usbPoll
      rw [holds_bind, holds_read]
      split
      · exact h.pollEvents 64 s hs
      · exact hs

end Walk

-- ================================================================= the runs

/-- The rule for runs: a family that carries holds of every state of
every run whose steps meet the condition. -/
theorem run_carries {l : Layout} {I : World → Prop}
    {C : Site → World → Prop} {J : Phase → World → Prop}
    (h : Carries l I C J) (hact : ∀ s m, I s → I (s.act l m))
    {scratch : Nat} (hstart : J .idle (World.start l scratch))
    {turns : List (Turn Move Call)}
    (hturns : Along (sysStep l) (Meets C fun _ _ => True)
      (Sys.start l scratch) turns) :
    I (exec (sysStep l) (Sys.start l scratch) turns).state := by
  have hsafe : Safe I Rely C (fun _ => J .idle) (Sys.start l scratch) :=
    ⟨trivial, h.inv _ _ hstart, hstart⟩
  exact (run_safe (fun _ _ _ hst htu => hst.trans htu) Rely.refl
    (fun _ s hs => h.inv _ s hs) (fun _ s t hs hR hI => h.stable _ s t hs hR hI)
    (fun s m hI _ => ⟨hact s m hI, Rely.act s m⟩)
    (fun call _ s hs => h.body call hs) hsafe hturns).inv

end Thuos.Usb
