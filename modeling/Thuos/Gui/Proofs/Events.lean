/-
Which keys and clicks the desktop handles.

`Watch` keeps beside a run the characters that went into the buffer of the
keyboard, those that `route_key` got, the states of the left button that
the loop saw, and how often it called `handle_click`. The keys are the
machine of the keyboard driver, with `desktop_run` as its reader
(`Watched.step`). A click is handled for each state that is down after one
that was up.
-/
import Thuos.Drivers.Proofs.KeyFifo
import Thuos.Gui.DesktopRun

namespace Thuos.Gui

open Video Drivers Machine

-- ================================================================= history

section History

variable {α : Type*}

/-- The operation on the keyboard driver in a turn. -/
def keyOp (r : Run α) : Turn → Option KeyOp
  | .key scancode => some (.callback scancode)
  | .usbKey c => if r.pc = .usb then some (.inject c) else none
  | .go => if r.pc = .key then some .trygetchar else none
  | _ => none

/-- The character that `route_key` gets in a turn. -/
def routedBy (r : Run α) : Turn → Option UInt8
  | .go => if r.pc = .key then some (keyboardTrygetchar r.kbd).1 else none
  | _ => none

/-- The state of the button that the loop sees in a turn. -/
def sampledBy (r : Run α) : Turn → Option Int
  | .go => if r.pc = .button then some (mouseLeft r.mouse) else none
  | _ => none

/-- The loop is at the point of a click. -/
def Pc.Clicks : Pc → Bool
  | .second .click _ => true
  | _ => false

/-- The number of calls of `handle_click` in a turn. -/
def clicksBy (r : Run α) : Turn → Nat
  | .go => if r.pc.Clicks then 1 else 0
  | _ => 0

/-- A run and its history. -/
structure Watch (α : Type*) where
  run : Run α
  keys : KeyLog
  routed : List UInt8
  samples : List Int
  clicks : Nat

variable (glyph : UInt8 → Nat → UInt8) (k : UInt32 → Apps α)
variable (hz : UInt32) (yFirst : Bool)

def Watch.step (w : Watch α) (t : Turn) : Watch α where
  run := w.run.step glyph k hz yFirst true t
  keys := ((keyOp w.run t).map w.keys.step).getD w.keys
  routed := w.routed ++ (routedBy w.run t).toList
  samples := w.samples ++ (sampledBy w.run t).toList
  clicks := w.clicks + clicksBy w.run t

/-- The start of `desktop_run`, with a keyboard that has been in use. -/
def Watch.start (d : Desk α) (mouse : Mouse) (keys : KeyLog)
    (ticks : UInt32) : Watch α where
  run := Run.start glyph k d mouse keys.kbd ticks
  keys := keys
  routed := []
  samples := []
  clicks := 0

end History

-- =============================================================== the pieces

/-- The loop is on its way to a click. -/
def Pc.ToClick : Pc → Bool
  | .first .click => true
  | .second .click _ => true
  | _ => false

/-- The loop has seen the button and not yet remembered it. -/
def Pc.Holds : Pc → Bool
  | .first site => site ≠ .cursor
  | .second site _ => site ≠ .cursor
  | _ => false

/-- A move that takes no character, does not look at the button and does
not click. -/
structure Idle (p p' : Pc) : Prop where
  key : p ≠ .key
  key' : p' ≠ .key
  button : p ≠ .button
  clicks : p.Clicks = false
  toClick : p'.ToClick = p.ToClick
  holds : p'.Holds = p.Holds

section Pieces

variable {α : Type*} {glyph : UInt8 → Nat → UInt8} {k : UInt32 → Apps α}
variable {hz : UInt32} {yFirst : Bool} {shown : Bool} {r : Run α}

/-- The keyboard and what the loop knows of the button. -/
structure SameInput (r r' : Run α) : Prop where
  kbd : r'.kbd = r.kbd
  l : r'.l = r.l
  prevl : r'.prevl = r.prevl

/-- A run has its own input. -/
theorem SameInput.refl (r : Run α) : SameInput r r := ⟨rfl, rfl, rfl⟩

/-- Input that agrees one by one agrees from the first run to the last. -/
theorem SameInput.trans {r' r'' : Run α} (h : SameInput r r')
    (h' : SameInput r' r'') : SameInput r r'' where
  kbd := h'.kbd.trans h.kbd
  l := h'.l.trans h.l
  prevl := h'.prevl.trans h.prevl

/-- To go on to another point of the loop takes no input. -/
theorem sameInput_goTo (pc : Pc) (r : Run α) : SameInput r (r.goTo pc) :=
  ⟨rfl, rfl, rfl⟩

/-- To read the mouse takes no key. -/
theorem sameInput_withMouse (m : Mouse) (r : Run α) :
    SameInput r (r.withMouse m) := ⟨rfl, rfl, rfl⟩

/-- To note that nothing has happened takes no input. -/
theorem sameInput_quiet (r : Run α) : SameInput r r.quiet := ⟨rfl, rfl, rfl⟩

/-- To draw the cursor takes no input. -/
theorem sameInput_withCursor (f : Cursor → Lfb → Cursor × Lfb) (r : Run α) :
    SameInput r (r.withCursor f) := ⟨rfl, rfl, rfl⟩

/-- To note that something has happened takes no input. -/
theorem sameInput_raise (r : Run α) : SameInput r r.raise := by
  have hraised : ∀ r : Run α, SameInput r { r with evt := true } :=
    fun _ => ⟨rfl, rfl, rfl⟩
  unfold Run.raise
  split
  · exact (sameInput_withCursor cursorHide r).trans (hraised _)
  · exact SameInput.refl r

/-- What a piece of the loop does to the keyboard and the button. -/
inductive Goes (r r' : Run α) : Prop
  | idle (same : SameInput r r') (pc : Idle r.pc r'.pc)
  | toKey (same : SameInput r r') (pc : r.pc = .keys) (pc' : r'.pc = .key)
      (has : keyboardHaskey r.kbd ≠ 0)
  | key (pc : r.pc = .key) (pc' : r'.pc = .keys)
      (kbd : r'.kbd = (keyboardTrygetchar r.kbd).2) (l : r'.l = r.l)
      (prevl : r'.prevl = r.prevl)
  | look (pc : r.pc = .button) (pc' : r'.pc ≠ .key)
      (holds : r'.pc.Holds = true) (kbd : r'.kbd = r.kbd)
      (l : r'.l = mouseLeft r.mouse) (prevl : r'.prevl = r.prevl)
      (toClick : r'.pc.ToClick = true ↔ r'.l ≠ 0 ∧ r.prevl = 0)
  | up (pc : r.pc = .button) (pc' : r'.pc = .done) (kbd : r'.kbd = r.kbd)
      (prevl : r'.prevl = mouseLeft r.mouse)
      (no : ¬ (mouseLeft r.mouse ≠ 0 ∧ r.prevl = 0))
  | settle (pc : r.pc.Holds = true) (pc' : r'.pc = .done)
      (clicks : r.pc.Clicks = r.pc.ToClick) (kbd : r'.kbd = r.kbd)
      (prevl : r'.prevl = r.l)

/-- What is done at a point. -/
theorem reach_goes (site : Site) (v x y : Int) (hpc : r.pc = .second site v) :
    Goes r (r.reach glyph k shown site x y) := by
  cases site with
  | click =>
      refine .settle ?_ rfl ?_ rfl rfl
      · rw [hpc]
        rfl
      · rw [hpc]
        rfl
  | panel =>
      unfold Run.reach
      dsimp only
      split
      · refine .idle (sameInput_goTo _ r) ?_
        rw [hpc]
        exact ⟨nofun, nofun, nofun, rfl, rfl, rfl⟩
      · refine .settle ?_ rfl ?_ rfl rfl
        · rw [hpc]
          rfl
        · rw [hpc]
          rfl
  | motion =>
      refine .settle ?_ rfl ?_ rfl rfl
      · rw [hpc]
        rfl
      · rw [hpc]
        rfl
  | cursor =>
      unfold Run.reach
      dsimp only
      refine .idle ?_ ?_
      · refine SameInput.trans ?_
          ((sameInput_quiet _).trans (sameInput_goTo _ _))
        split
        · exact sameInput_withCursor (cursorShow x y) r
        · exact SameInput.refl r
      · rw [hpc]
        exact ⟨nofun, nofun, nofun, rfl, rfl, rfl⟩

/-- Each piece of the loop goes on as one of the cases of `Goes` says. -/
theorem go_goes (r : Run α) : Goes r (r.go glyph k hz yFirst shown) := by
  cases hpc : r.pc with
  | hlt =>
      unfold Run.go
      rw [hpc]
      refine .idle (sameInput_goTo _ r) ?_
      rw [hpc]
      exact ⟨nofun, nofun, nofun, rfl, rfl, rfl⟩
  | usb =>
      unfold Run.go
      rw [hpc]
      dsimp only
      split
      · have h := (sameInput_quiet r).trans (sameInput_raise r.quiet)
        refine .idle ⟨h.kbd, h.l, h.prevl⟩ ?_
        rw [hpc]
        exact ⟨nofun, nofun, nofun, rfl, rfl, rfl⟩
      · refine .idle ((sameInput_quiet r).trans (sameInput_goTo _ _)) ?_
        rw [hpc]
        exact ⟨nofun, nofun, nofun, rfl, rfl, rfl⟩
  | clock =>
      unfold Run.go
      rw [hpc]
      refine .idle ⟨rfl, rfl, rfl⟩ ?_
      rw [hpc]
      exact ⟨nofun, nofun, nofun, rfl, rfl, rfl⟩
  | keys =>
      unfold Run.go
      rw [hpc]
      dsimp only
      split
      case isTrue hkey =>
        exact .toKey ((sameInput_raise r).trans (sameInput_goTo _ _)) hpc rfl
          hkey
      case isFalse =>
        refine .idle (sameInput_goTo _ r) ?_
        rw [hpc]
        exact ⟨nofun, nofun, nofun, rfl, rfl, rfl⟩
  | key =>
      unfold Run.go
      rw [hpc]
      exact .key hpc rfl rfl rfl rfl
  | mouse =>
      unfold Run.go
      rw [hpc]
      dsimp only
      split
      · refine .idle ((sameInput_withMouse _ r).trans
          ((sameInput_raise _).trans (sameInput_goTo _ _))) ?_
        rw [hpc]
        exact ⟨nofun, nofun, nofun, rfl, rfl, rfl⟩
      · refine .idle ((sameInput_withMouse _ r).trans (sameInput_goTo _ _)) ?_
        rw [hpc]
        exact ⟨nofun, nofun, nofun, rfl, rfl, rfl⟩
  | button =>
      unfold Run.go
      rw [hpc]
      dsimp only
      split
      case isTrue hclick =>
        exact .look hpc nofun rfl rfl rfl rfl ⟨fun _ => hclick, fun _ => rfl⟩
      case isFalse hno =>
        split
        · refine .look hpc nofun rfl rfl rfl rfl ⟨nofun, ?_⟩
          exact fun hclick => absurd hclick hno
        · exact .up hpc rfl rfl rfl hno
  | first site =>
      unfold Run.go
      rw [hpc]
      refine .idle (sameInput_goTo _ r) ?_
      rw [hpc]
      refine ⟨nofun, nofun, nofun, rfl, ?_, rfl⟩
      cases site with
      | click => rfl
      | panel => rfl
      | motion => rfl
      | cursor => rfl
  | second site v =>
      unfold Run.go
      rw [hpc]
      dsimp only
      split
      · exact reach_goes site v _ _ hpc
      · exact reach_goes site v _ _ hpc
  | done =>
      unfold Run.go
      rw [hpc]
      dsimp only
      split
      · refine .idle (sameInput_goTo _ r) ?_
        rw [hpc]
        exact ⟨nofun, nofun, nofun, rfl, rfl, rfl⟩
      · refine .idle (sameInput_goTo _ r) ?_
        rw [hpc]
        exact ⟨nofun, nofun, nofun, rfl, rfl, rfl⟩

end Pieces

-- ================================================================= the keys

section Keys

variable {α : Type*} {glyph : UInt8 → Nat → UInt8} {k : UInt32 → Apps α}
variable {hz : UInt32} {yFirst : Bool} {w : Watch α} {before : List UInt8}

/-- The keyboard is that of the run, and what has been read was read before
or routed. The loop takes a character only if there is one. -/
structure Keys (before : List UInt8) (w : Watch α) : Prop where
  kbd : w.keys.kbd = w.run.kbd
  linked : Linked w.keys
  reads : w.keys.reads = before ++ w.routed
  key : w.run.pc = .key → w.keys.reads.length < w.keys.accepted.length
  nonzero : ∀ c ∈ w.routed, c ≠ 0

/-- Characters are pending when fewer were read than were accepted. -/
theorem pending_ne_nil {l : KeyLog} :
    l.pending ≠ [] ↔ l.reads.length < l.accepted.length := by
  unfold KeyLog.pending
  rw [Ne, List.drop_eq_nil_iff]
  exact Nat.not_le

/-- A turn that reads nothing and may push. -/
theorem Keys.push (h : Keys before w) {t : Turn} {op : KeyOp}
    (hop : keyOp w.run t = some op) (hrouted : routedBy w.run t = none)
    (hnone : (keyStep w.keys.kbd op).2 = none)
    (hkbd : (w.run.step glyph k hz yFirst true t).kbd
      = (keyStep w.run.kbd op).1)
    (hpc : (w.run.step glyph k hz yFirst true t).pc = w.run.pc) :
    Keys before (w.step glyph k hz yFirst t) := by
  have hkeys : (w.step glyph k hz yFirst t).keys = w.keys.step op := by
    unfold Watch.step
    rw [hop]
    rfl
  have hsame : (w.step glyph k hz yFirst t).routed = w.routed := by
    unfold Watch.step
    rw [hrouted]
    exact List.append_nil _
  have hreads : (w.keys.step op).reads = w.keys.reads := by
    unfold KeyLog.step
    rw [hnone]
    exact List.append_nil _
  refine ⟨?_, ?_, ?_, fun hkey => ?_, ?_⟩
  · rw [hkeys]
    show (keyStep w.keys.kbd op).1 = _
    rw [h.kbd]
    exact hkbd.symm
  · rw [hkeys]
    exact h.linked.step op
  · rw [hkeys, hsame, hreads]
    exact h.reads
  · rw [hkeys, hreads]
    refine lt_of_lt_of_le (h.key (hpc.symm.trans hkey)) ?_
    unfold KeyLog.step
    rw [List.length_append]
    exact Nat.le_add_right _ _
  · rw [hsame]
    exact h.nonzero

/-- A turn that leaves the keyboard alone. -/
theorem Keys.idle (h : Keys before w) {t : Turn}
    (hop : keyOp w.run t = none) (hrouted : routedBy w.run t = none)
    (hkbd : (w.run.step glyph k hz yFirst true t).kbd = w.run.kbd)
    (hsome : (w.run.step glyph k hz yFirst true t).pc = .key →
      w.keys.reads.length < w.keys.accepted.length) :
    Keys before (w.step glyph k hz yFirst t) := by
  have hkeys : (w.step glyph k hz yFirst t).keys = w.keys := by
    unfold Watch.step
    rw [hop]
    rfl
  have hsame : (w.step glyph k hz yFirst t).routed = w.routed := by
    unfold Watch.step
    rw [hrouted]
    exact List.append_nil _
  refine ⟨?_, ?_, ?_, ?_, ?_⟩
  · rw [hkeys, h.kbd]
    exact hkbd.symm
  · rw [hkeys]
    exact h.linked
  · rw [hkeys, hsame]
    exact h.reads
  · rw [hkeys]
    exact hsome
  · rw [hsame]
    exact h.nonzero

/-- The piece that takes a character. -/
theorem Keys.take (h : Keys before w) (hpc : w.run.pc = .key)
    (hpc' : (w.run.go glyph k hz yFirst true).pc ≠ .key)
    (hkbd : (w.run.go glyph k hz yFirst true).kbd
      = (keyboardTrygetchar w.run.kbd).2) :
    Keys before (w.step glyph k hz yFirst .go) := by
  have hkeys : (w.step glyph k hz yFirst .go).keys
      = w.keys.step .trygetchar := by
    unfold Watch.step keyOp
    dsimp only
    rw [if_pos hpc]
    rfl
  have hrouted : (w.step glyph k hz yFirst .go).routed
      = w.routed ++ [(keyboardTrygetchar w.run.kbd).1] := by
    unfold Watch.step routedBy
    dsimp only
    rw [if_pos hpc]
    rfl
  have hne : (keyboardTrygetchar w.run.kbd).1 ≠ 0 := by
    rw [← h.kbd]
    exact h.linked.fifo.nonzero (pending_ne_nil.mpr (h.key hpc))
  have hreads : (w.keys.step .trygetchar).reads
      = w.keys.reads ++ [(keyboardTrygetchar w.run.kbd).1] := by
    unfold KeyLog.step keyStep
    rw [h.kbd]
    simp [hne]
  refine ⟨?_, ?_, ?_, fun hkey => absurd hkey hpc', ?_⟩
  · rw [hkeys]
    show (keyboardTrygetchar w.keys.kbd).2 = _
    rw [h.kbd]
    exact hkbd.symm
  · rw [hkeys]
    exact h.linked.step _
  · rw [hkeys, hrouted, hreads, h.reads, List.append_assoc]
  · rw [hrouted]
    intro c hc
    cases List.mem_append.mp hc with
    | inl hc => exact h.nonzero c hc
    | inr hc =>
        rw [List.mem_singleton.mp hc]
        exact hne

/-- Every turn keeps the count of the keys, whether it is the loop's or an
interrupt's. -/
theorem Keys.step (h : Keys before w) (t : Turn) :
    Keys before (w.step glyph k hz yFirst t) := by
  cases t with
  | key scancode => exact h.push rfl rfl rfl rfl rfl
  | mouse v => exact h.idle rfl rfl rfl h.key
  | tick => exact h.idle rfl rfl rfl h.key
  | usbKey c =>
      by_cases hpc : w.run.pc = .usb
      · have hstep : w.run.step glyph k hz yFirst true (.usbKey c)
            = { w.run with kbd := keyboardInject w.run.kbd c } := if_pos hpc
        refine h.push (if_pos hpc) rfl rfl ?_ ?_
        · rw [hstep]
          rfl
        · rw [hstep]
      · have hstep : w.run.step glyph k hz yFirst true (.usbKey c) = w.run :=
          if_neg hpc
        refine h.idle (if_neg hpc) rfl ?_ ?_
        · rw [hstep]
        · rw [hstep]
          exact h.key
  | usbMouse dx dy buttons =>
      have hstep : (w.run.step glyph k hz yFirst true
            (.usbMouse dx dy buttons)).kbd = w.run.kbd
          ∧ (w.run.step glyph k hz yFirst true
            (.usbMouse dx dy buttons)).pc = w.run.pc := by
        unfold Run.step
        dsimp only
        split
        · exact ⟨rfl, rfl⟩
        · exact ⟨rfl, rfl⟩
      refine h.idle rfl rfl hstep.1 fun hkey => h.key ?_
      rw [← hstep.2]
      exact hkey
  | go =>
      have hidle : w.run.pc ≠ .key → keyOp w.run .go = none
          ∧ routedBy w.run .go = none :=
        fun hpc => ⟨if_neg hpc, if_neg hpc⟩
      cases @go_goes α glyph k hz yFirst true w.run with
      | idle same pc =>
          obtain ⟨hop, hrouted⟩ := hidle pc.key
          exact h.idle hop hrouted same.kbd fun hkey => absurd hkey pc.key'
      | toKey same pc pc' has =>
          obtain ⟨hop, hrouted⟩ := hidle (by rw [pc]; nofun)
          refine h.idle hop hrouted same.kbd fun _ => ?_
          apply pending_ne_nil.mp
          intro hempty
          have hhas := h.linked.fifo.haskey
          rw [hempty, h.kbd] at hhas
          exact has hhas
      | key pc pc' kbd l prevl =>
          exact h.take pc (by rw [pc']; nofun) kbd
      | look pc pc' holds kbd l prevl toClick =>
          obtain ⟨hop, hrouted⟩ := hidle (by rw [pc]; nofun)
          exact h.idle hop hrouted kbd fun hkey => absurd hkey pc'
      | up pc pc' kbd prevl no =>
          obtain ⟨hop, hrouted⟩ := hidle (by rw [pc]; nofun)
          refine h.idle hop hrouted kbd fun hkey => ?_
          cases pc'.symm.trans hkey
      | settle pc pc' clicks kbd prevl =>
          have hne : w.run.pc ≠ .key := by
            intro hkey
            rw [hkey] at pc
            cases pc
          obtain ⟨hop, hrouted⟩ := hidle hne
          refine h.idle hop hrouted kbd fun hkey => ?_
          cases pc'.symm.trans hkey

end Keys

-- =============================================================== the clicks

/-- How often the button goes down in a sequence of states, after `prev`. -/
def rises : Int → List Int → Nat
  | _, [] => 0
  | prev, l :: ls => (if l ≠ 0 ∧ prev = 0 then 1 else 0) + rises l ls

/-- One more sample is one more press if it is down after one that was up. -/
theorem rises_concat (ls : List Int) (prev l : Int) :
    rises prev (ls ++ [l])
      = rises prev ls + if l ≠ 0 ∧ ls.getLastD prev = 0 then 1 else 0 := by
  induction ls generalizing prev with
  | nil => simp [rises]
  | cons m ls ih =>
      rw [List.cons_append, rises, ih, rises, Nat.add_assoc, List.getLastD_cons]

section Clicks

variable {α : Type*} {glyph : UInt8 → Nat → UInt8} {k : UInt32 → Apps α}
variable {hz : UInt32} {yFirst : Bool} {w : Watch α}

/-- Each press that the loop has seen was handled, or is about to be; and
the loop remembers the last state that it saw. -/
structure Presses (w : Watch α) : Prop where
  count : w.clicks + (if w.run.pc.ToClick then 1 else 0) = rises 0 w.samples
  last : (if w.run.pc.Holds then w.run.l else w.run.prevl)
    = w.samples.getLastD 0

/-- The history of a turn that is not a look at the button. -/
theorem Presses.of_same (h : Presses w) {t : Turn}
    (hsample : sampledBy w.run t = none)
    (hcount : clicksBy w.run t
        + (if (w.run.step glyph k hz yFirst true t).pc.ToClick then 1 else 0)
      = if w.run.pc.ToClick then 1 else 0)
    (hlast : (if (w.run.step glyph k hz yFirst true t).pc.Holds then
          (w.run.step glyph k hz yFirst true t).l
        else (w.run.step glyph k hz yFirst true t).prevl)
      = if w.run.pc.Holds then w.run.l else w.run.prevl) :
    Presses (w.step glyph k hz yFirst t) := by
  have hsame : (w.step glyph k hz yFirst t).samples = w.samples := by
    unfold Watch.step
    rw [hsample]
    exact List.append_nil _
  refine ⟨?_, ?_⟩
  · rw [hsame, ← h.count, ← hcount]
    exact Nat.add_assoc _ _ _
  · rw [hsame, ← h.last]
    exact hlast

/-- A look at the button. -/
theorem Presses.look (h : Presses w) (hpc : w.run.pc = .button)
    (hcount : (w.run.go glyph k hz yFirst true).pc.ToClick = true
      ↔ mouseLeft w.run.mouse ≠ 0 ∧ w.run.prevl = 0)
    (hlast : (if (w.run.go glyph k hz yFirst true).pc.Holds then
          (w.run.go glyph k hz yFirst true).l
        else (w.run.go glyph k hz yFirst true).prevl)
      = mouseLeft w.run.mouse) :
    Presses (w.step glyph k hz yFirst .go) := by
  have hsamples : (w.step glyph k hz yFirst .go).samples
      = w.samples ++ [mouseLeft w.run.mouse] := by
    unfold Watch.step sampledBy
    dsimp only
    rw [if_pos hpc]
    rfl
  have hclicks : (w.step glyph k hz yFirst .go).clicks = w.clicks := by
    unfold Watch.step clicksBy
    dsimp only
    rw [hpc]
    rfl
  have hprev := h.last
  have hold := h.count
  rw [hpc] at hprev hold
  have hprev : w.run.prevl = w.samples.getLastD 0 := hprev
  have hold : w.clicks + 0 = rises 0 w.samples := hold
  refine ⟨?_, ?_⟩
  · rw [hsamples, hclicks, rises_concat, ← hold, ← hprev, Nat.add_zero]
    congr 1
    exact if_congr hcount rfl rfl
  · rw [hsamples, List.getLastD_concat]
    exact hlast

/-- Every turn keeps the count of the presses. -/
theorem Presses.step (h : Presses w) (t : Turn) :
    Presses (w.step glyph k hz yFirst t) := by
  cases t with
  | key scancode => exact h.of_same rfl (Nat.zero_add _) rfl
  | mouse v => exact h.of_same rfl (Nat.zero_add _) rfl
  | tick => exact h.of_same rfl (Nat.zero_add _) rfl
  | usbKey c =>
      have hstep : w.run.step glyph k hz yFirst true (.usbKey c) = w.run
          ∨ w.run.step glyph k hz yFirst true (.usbKey c)
            = { w.run with kbd := keyboardInject w.run.kbd c } := by
        unfold Run.step
        dsimp only
        split
        · exact Or.inr rfl
        · exact Or.inl rfl
      apply h.of_same rfl
      · rcases hstep with hstep | hstep
        · rw [hstep]
          exact Nat.zero_add _
        · rw [hstep]
          exact Nat.zero_add _
      · rcases hstep with hstep | hstep
        · rw [hstep]
        · rw [hstep]
  | usbMouse dx dy buttons =>
      have hstep : w.run.step glyph k hz yFirst true (.usbMouse dx dy buttons)
            = w.run
          ∨ w.run.step glyph k hz yFirst true (.usbMouse dx dy buttons)
            = w.run.withMouse (mouseInject w.run.mouse dx dy buttons) := by
        unfold Run.step
        dsimp only
        split
        · exact Or.inr rfl
        · exact Or.inl rfl
      apply h.of_same rfl
      · rcases hstep with hstep | hstep
        · rw [hstep]
          exact Nat.zero_add _
        · rw [hstep]
          exact Nat.zero_add _
      · rcases hstep with hstep | hstep
        · rw [hstep]
        · rw [hstep]
          rfl
  | go =>
      have hno : w.run.pc ≠ .button → sampledBy w.run .go = none :=
        fun hpc => if_neg hpc
      cases @go_goes α glyph k hz yFirst true w.run with
      | idle same pc =>
          apply h.of_same (hno pc.button)
          · unfold clicksBy Run.step
            dsimp only
            rw [pc.clicks, pc.toClick]
            exact Nat.zero_add _
          · unfold Run.step
            dsimp only
            rw [pc.holds, same.l, same.prevl]
      | toKey same pc pc' has =>
          apply h.of_same (hno (by rw [pc]; nofun))
          · unfold clicksBy Run.step
            dsimp only
            rw [pc, pc']
            rfl
          · unfold Run.step
            dsimp only
            rw [pc, pc', same.prevl]
            rfl
      | key pc pc' kbd l prevl =>
          apply h.of_same (hno (by rw [pc]; nofun))
          · unfold clicksBy Run.step
            dsimp only
            rw [pc, pc']
            rfl
          · unfold Run.step
            dsimp only
            rw [pc, pc', prevl]
            rfl
      | look pc pc' holds kbd l prevl toClick =>
          refine h.look pc ?_ ?_
          · rw [toClick, l]
          · rw [if_pos holds, l]
      | up pc pc' kbd prevl no =>
          refine h.look pc ?_ ?_
          · rw [pc']
            exact ⟨nofun, fun hclick => absurd hclick no⟩
          · rw [pc']
            exact prevl
      | settle pc pc' clicks kbd prevl =>
          have hne : w.run.pc ≠ .button := by
            intro hbutton
            rw [hbutton] at pc
            cases pc
          apply h.of_same (hno hne)
          · unfold clicksBy Run.step
            dsimp only
            rw [pc', clicks]
            rfl
          · unfold Run.step
            dsimp only
            rw [pc', if_pos pc]
            exact prevl

end Clicks

-- ============================================================== the results

section Calls

variable {α : Type*} (glyph : UInt8 → Nat → UInt8) (k : UInt32 → Apps α)
variable (hz : UInt32) (yFirst shown : Bool) (r : Run α)

/-- The character that is recorded as routed is the one that `route_key` is
called with in that turn. -/
theorem routed_call {t : Turn} {c : UInt8} (h : routedBy r t = some c) :
    (r.step glyph k hz yFirst shown t).desk
      = routeKey glyph (k r.ticks) c r.desk := by
  cases t with
  | go =>
      unfold routedBy at h
      dsimp only at h
      by_cases hpc : r.pc = .key
      · rw [if_pos hpc] at h
        unfold Run.step Run.go
        dsimp only
        rw [hpc, ← Option.some.inj h]
      · rw [if_neg hpc] at h
        cases h
  | _ => cases h

/-- The turn that is counted as a click is a call of `handle_click`, at the
two coordinates that the loop has read. -/
theorem click_call {t : Turn} (h : clicksBy r t = 1) :
    ∃ v, r.pc = .second .click v
      ∧ (r.step glyph k hz yFirst shown t).desk
        = handleClick glyph (k r.ticks) (if yFirst then r.mouse.gx else v)
          (if yFirst then v else r.mouse.gy) r.desk := by
  cases t with
  | go =>
      unfold clicksBy at h
      dsimp only at h
      have hclicks : r.pc.Clicks = true := by
        by_contra hno
        rw [if_neg hno] at h
        cases h
      obtain ⟨v, hpc⟩ : ∃ v, r.pc = .second .click v := by
        unfold Pc.Clicks at hclicks
        split at hclicks
        · next v heq => exact ⟨v, heq⟩
        · cases hclicks
      refine ⟨v, hpc, ?_⟩
      unfold Run.step Run.go
      dsimp only
      rw [hpc]
      cases yFirst with
      | true => rfl
      | false => rfl
  | _ => cases h

end Calls

section Results

variable {α : Type*} (glyph : UInt8 → Nat → UInt8) (k : UInt32 → Apps α)
variable (hz : UInt32) (yFirst : Bool)

/-- In every run the characters that the buffer took reach `route_key`,
each once and in order, and no other character does. -/
theorem keys_routed (kbd : Keyboard) (ops : List KeyOp) (d : Desk α)
    (mouse : Mouse) (ticks : UInt32) (turns : List Turn) :
    let before := exec KeyLog.step (KeyLog.start kbd) ops
    let w := exec (Watch.step glyph k hz yFirst)
      (Watch.start glyph k d mouse before ticks) turns
    w.keys.kbd = w.run.kbd
      ∧ w.keys.accepted = before.reads ++ w.routed ++ w.keys.pending
      ∧ w.keys.pending.length ≤ 127 ∧ ∀ c ∈ w.routed, c ≠ 0 := by
  intro before w
  have hlinked : Linked before :=
    exec_inv' Linked (fun _ op h => h.step op) (linked_start kbd)
  have hstart : Keys before.reads
      (Watch.start glyph k d mouse before ticks) := by
    refine ⟨rfl, hlinked, (List.append_nil _).symm, nofun, ?_⟩
    intro c hc
    cases hc
  have h : Keys before.reads w :=
    exec_inv' (Keys before.reads) (fun _ t h => h.step t) hstart
  refine ⟨h.kbd, ?_, h.linked.length_le, h.nonzero⟩
  rw [← h.reads]
  exact h.linked.order

/-- In every run the desktop handles one click for each press of the left
button that it has seen, but for one that it is about to handle. -/
theorem presses_clicked (keys : KeyLog) (d : Desk α) (mouse : Mouse)
    (ticks : UInt32) (turns : List Turn) :
    let w := exec (Watch.step glyph k hz yFirst)
      (Watch.start glyph k d mouse keys ticks) turns
    w.clicks + (if w.run.pc.ToClick then 1 else 0) = rises 0 w.samples := by
  intro w
  have hstart : Presses (Watch.start glyph k d mouse keys ticks) := ⟨rfl, rfl⟩
  have h : Presses w := exec_inv' Presses (fun _ t h => h.step t) hstart
  exact h.count

end Results

end Thuos.Gui
