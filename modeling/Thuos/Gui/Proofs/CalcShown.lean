/-
The calculator shows its number.

Whatever keys and clicks have come, the picture is that of the calculator as
it was opened, with its display drawn once for the number that it has now
(`calc_shows`): nothing of what was displayed before shows through, and the
buttons that a click draws again look as before. The display repaints its
box, the buttons theirs, and the boxes do not meet.
-/
import Thuos.Gui.CalcPanel
import Thuos.Gui.Proofs.Wrapped
import Thuos.Lib.Machine
import Thuos.Video.Proofs.Regions

namespace Thuos.Gui

open Loop Machine Numeral Video

-- ============================================================== the boxes

/-- The rows of a box with round corners. -/
def InBox (x y w h r : Int) (col row : Int) : Prop :=
  ∃ j < h.toNat,
    InRect (x + cornerInset j h r) (y + j) (w - 2 * cornerInset j h r) 1 col row

/-- Behind the corners a row has its full width. -/
theorem cornerInset_middle {j h r : Int} (hr : r ≤ j) (hj : j < h - r) :
    cornerInset j h r = 0 := by
  have hdy : (if j < r then r - j
      else if j ≥ h - r then r - (h - 1 - j) else -1) = -1 := by
    rw [if_neg (by omega), if_neg (by omega)]
  unfold cornerInset
  dsimp only
  rw [hdy]
  rfl

section Box

variable {x y w h r : Int} {glyph : UInt8 → Nat → UInt8}

/-- A rounded rectangle covers its box, but for the corners that it leaves
out. -/
theorem roundFill_repaints (rgb : UInt32) (hh : r * 2 ≤ h) (hw : r * 2 ≤ w) :
    Repaints (InBox x y w h r) fun s => lfbRoundFill s x y w h r rgb := by
  unfold lfbRoundFill
  dsimp only
  rw [if_neg (by omega), if_neg (by omega)]
  exact Repaints.upTo fun j _ => Repaints.fill ..

/-- A pixel of a box is in its rows. -/
theorem InBox.rows {col row : Int} (hin : InBox x y w h r col row) :
    y ≤ row ∧ row < y + h := by
  obtain ⟨j, hj, -, -, hlow, hhigh⟩ := hin
  omega

/-- A rectangle away from the corners. -/
theorem InBox.of_middle {x' y' w' h' : Int} (hx : x ≤ x')
    (hw : x' + w' ≤ x + w) (hr : 0 ≤ r) (hy : y + r ≤ y')
    (hh : y' + h' ≤ y + h - r) {col row : Int}
    (hin : InRect x' y' w' h' col row) : InBox x y w h r col row := by
  obtain ⟨hleft, hright, htop, hbottom⟩ := hin
  refine ⟨(row - y).toNat, by omega, ?_⟩
  rw [cornerInset_middle (by omega) (by omega)]
  refine ⟨by omega, by omega, by omega, by omega⟩

/-- A box with a text in its middle. -/
theorem boxText_repaints (bg fg : UInt32) {x' y' : Int} (str : CStr)
    (hr : 0 ≤ r) (hh : r * 2 ≤ h) (hw : r * 2 ≤ w) (hx : x ≤ x')
    (hx' : x' + 16 * str.length ≤ x + w) (hy : y + r ≤ y')
    (hy' : y' + 32 ≤ y + h - r) :
    Repaints (InBox x y w h r) fun s =>
      lfbText glyph (lfbRoundFill s x y w h r bg) x' y' str fg (-1) 2 := by
  refine (roundFill_repaints bg hh hw).andThen (lfbText_overlays ..) fun s => ?_
  have hchars := @drawChars_within glyph fg 2 (by decide) s x' y' str.chars
  refine hchars.mono fun col row hin => ⟨?_, hin.2⟩
  exact InBox.of_middle hx hx' hr hy hy' hin.1

end Box

-- ============================================================ the drawings

/-- A number has at most 10 digits and a sign. -/
theorem length_itoaL (v : Int32) : (itoaL v).length ≤ 11 := by
  have hdigits : ∀ u : UInt32,
      (divided (fun d => 0x30 + UInt8.ofNat d) 10 24 u.toNat).length ≤ 10 := by
    intro u
    have hlt := u.toNat_lt
    rw [divided_eq _ (by decide) (by omega), List.length_map,
      Nat.digits_length_le_iff (by decide)]
    omega
  unfold itoaL
  dsimp only
  rw [List.length_append, List.length_reverse]
  have hsign : (if v < 0 then [0x2D] else [] : List UInt8).length ≤ 1 := by
    split
    · exact Nat.le_refl 1
    · exact Nat.zero_le 1
  have hnumber : ∀ u : UInt32, (if u = 0 then [0x30]
      else divided (fun d => 0x30 + UInt8.ofNat d) 10 24 u.toNat).length
        ≤ 10 := by
    intro u
    split
    · decide
    · exact hdigits u
  have hboth := hnumber
    (if v < 0 then (-(v + 1)).toUInt32 + 1 else v.toUInt32)
  omega

/-- The text of some bytes is no longer than they are. -/
theorem length_textOf (bs : List UInt8) : (textOf bs).length ≤ bs.length :=
  (List.takeWhile_sublist _).length_le

/-- Where `app_calc_open` puts the parts. -/
structure CalcPlaced (p : CalcPanel) : Prop where
  w : p.ccW = 300
  top : p.ccBy = p.ccY + 84
  cw : p.ccCw = 60
  ch : p.ccCh = 68
  gap : p.ccGap = 10

section Parts

variable {glyph : UInt8 → Nat → UInt8} {p : CalcPanel}

def displayBox (p : CalcPanel) : Int → Int → Prop :=
  InBox (p.ccX + 14) (p.ccY + 14) (p.ccW - 28) 56 8

def buttonsBox (p : CalcPanel) (col row : Int) : Prop :=
  ∃ r < 4, ∃ c < 4,
    InBox (p.buttonX c) (p.buttonY r) p.ccCw p.ccCh 8 col row

/-- The display is drawn anew whatever was in its box. -/
theorem display_repaints (hp : CalcPlaced p) :
    Repaints (displayBox p) (calcDrawDisplay glyph p) := by
  have hlen := length_itoaL p.keys.disp
  have hlen' := length_textOf (itoaL p.keys.disp)
  have hw := hp.w
  unfold calcDrawDisplay displayBox
  dsimp only
  exact boxText_repaints _ _ _ (by omega) (by omega) (by omega) (by omega)
    (by omega) (by omega) (by omega)

/-- The buttons are drawn anew whatever was in their box. -/
theorem buttons_repaints (hp : CalcPlaced p) :
    Repaints (buttonsBox p) (calcDrawButtons glyph p) := by
  refine Repaints.upTo fun r hr => Repaints.upTo fun c hc => ?_
  have hlen := length_textOf [calcLabel r c]
  have hcw := hp.cw
  have hch := hp.ch
  have hx : (p.ccCw - 16).tdiv 2 = 22 := by
    rw [hcw]
    rfl
  have hy : (p.ccCh - 32).tdiv 2 = 18 := by
    rw [hch]
    rfl
  unfold drawButton
  dsimp only
  rw [List.length_singleton] at hlen
  exact boxText_repaints _ _ _ (by omega) (by omega) (by omega) (by omega)
    (by omega) (by omega) (by omega)

/-- The buttons are below the display. -/
theorem boxes_apart (hp : CalcPlaced p) (col row : Int)
    (hdisplay : displayBox p col row) : ¬ buttonsBox p col row := by
  rintro ⟨r, -, c, -, hbutton⟩
  have hlow := (InBox.rows hdisplay).2
  have hhigh := (InBox.rows hbutton).1
  have hby := hp.top
  have hch := hp.ch
  have hgap := hp.gap
  have hrow : 0 ≤ (r : Int) * (p.ccCh + p.ccGap) :=
    Int.mul_nonneg (Int.natCast_nonneg r) (by omega)
  unfold CalcPanel.buttonY at hhigh
  omega

end Parts

-- =============================================================== the events

/-- A click hits the button that it is on. -/
theorem buttonAt_iff {p : CalcPanel} (hp : CalcPlaced p) (mx my : Int)
    (r c : Nat) :
    buttonAt p mx my = some (r, c)
      ↔ r < 4 ∧ c < 4 ∧ onButton p mx my r c = true := by
  have hmem : ∀ rc : Nat × Nat,
      rc ∈ ((List.range 4).flatMap fun r =>
        (List.range 4).map fun c => (r, c)) ↔ rc.1 < 4 ∧ rc.2 < 4 := by
    rintro ⟨r, c⟩
    simp
  have hsame : ∀ {r c r' c' : Nat}, onButton p mx my r c = true →
      onButton p mx my r' c' = true → r = r' ∧ c = c' := by
    intro r c r' c' hon hon'
    unfold onButton CalcPanel.buttonX CalcPanel.buttonY at hon hon'
    rw [hp.cw, hp.ch, hp.gap, decide_eq_true_eq] at hon hon'
    omega
  unfold buttonAt
  constructor
  · intro hfind
    obtain ⟨hr, hc⟩ := (hmem _).mp (List.mem_of_find?_eq_some hfind)
    have hon := List.find?_some hfind
    exact ⟨hr, hc, hon⟩
  · rintro ⟨hr, hc, hon⟩
    cases hfind : ((List.range 4).flatMap fun r =>
        (List.range 4).map fun c => (r, c)).find?
          fun rc => onButton p mx my rc.1 rc.2 with
    | none =>
        have hno := List.find?_eq_none.mp hfind (r, c)
          ((hmem (r, c)).mpr ⟨hr, hc⟩)
        exact absurd hon hno
    | some rc =>
        have hon' := List.find?_some hfind
        obtain ⟨hr', hc'⟩ := hsame hon' hon
        rw [← hr', ← hc']

/-- A key that is none of the calculator's changes nothing. -/
theorem appCalcKey_other {s : Calc} {c : UInt8} (hc : ¬ IsCalcKey c) :
    appCalcKey s c = some s := by
  unfold IsCalcKey at hc
  obtain ⟨hdigit, hc⟩ := not_or.mp hc
  obtain ⟨hop, hc⟩ := not_or.mp hc
  obtain ⟨hequals, hclear⟩ := not_or.mp hc
  unfold appCalcKey
  rw [if_neg hdigit, if_neg hop, if_neg hequals, if_neg hclear]

/-- The keys that an event presses. -/
def pressed (p : CalcPanel) : CalcOp → List UInt8
  | .key c => [c]
  | .click mx my =>
      (buttonAt p mx my).toList.map fun rc => calcLabel rc.1 rc.2

/-- A calculator as it was opened. -/
structure CalcOpened (glyph : UInt8 → Nat → UInt8) (p : CalcPanel) : Prop
    extends CalcPlaced p where
  pitch : p.lfb.W ≤ p.lfb.pitchPx
  /-- the buttons are drawn -/
  buttons : SamePicture p.lfb (calcDrawButtons glyph p p.lfb)

/-- What is on the screen later. -/
structure ShowsNumber (glyph : UInt8 → Nat → UInt8) (p₀ p : CalcPanel) :
    Prop where
  fields : p = { p₀ with keys := p.keys, lfb := p.lfb }
  picture : SamePicture (calcDrawDisplay glyph p p₀.lfb) p.lfb

section Events

variable {glyph : UInt8 → Nat → UInt8} {p₀ p q : CalcPanel}

/-- After a key the display shows the present number, and the key went to the
calculator. -/
theorem ShowsNumber.key (ho : CalcOpened glyph p₀) (hs : ShowsNumber glyph p₀ p)
    {c : UInt8} (hq : calcKey glyph p c = some q) :
    ShowsNumber glyph p₀ q ∧ appCalcKey p.keys c = some q.keys := by
  obtain ⟨keys, hkeys, rfl⟩ := Option.map_eq_some_iff.mp hq
  dsimp only
  split
  · refine ⟨⟨?_, ?_⟩, hkeys⟩
    · rw [hs.fields]
    · -- the old number is under the new one
      have hp : CalcPlaced p := by
        rw [hs.fields]
        exact ⟨ho.w, ho.top, ho.cw, ho.ch, ho.gap⟩
      have hp' : CalcPlaced { p with keys := keys } :=
        ⟨hp.w, hp.top, hp.cw, hp.ch, hp.gap⟩
      have hnew := @display_repaints glyph _ hp'
      have hold := @display_repaints glyph _ hp
      exact (hnew.last hold p₀.lfb).trans (hnew.overlays.same hs.picture)
  · next hc =>
      rw [appCalcKey_other hc, Option.some.injEq] at hkeys
      subst hkeys
      exact ⟨hs, appCalcKey_other hc⟩

/-- After a key or a click the display shows the present number. -/
theorem ShowsNumber.step (ho : CalcOpened glyph p₀)
    (hs : ShowsNumber glyph p₀ p) {op : CalcOp}
    (hq : calcStep glyph p op = some q) :
    ShowsNumber glyph p₀ q
      ∧ execM appCalcKey p.keys (pressed p₀ op) = some q.keys := by
  cases op with
  | key c =>
      obtain ⟨hshows, hkeys⟩ := hs.key ho hq
      refine ⟨hshows, ?_⟩
      show (appCalcKey p.keys c).bind some = _
      rw [hkeys]
      rfl
  | click mx my =>
      have hsame : buttonAt p mx my = buttonAt p₀ mx my := by
        rw [hs.fields]
        rfl
      have hclick : appCalcClick glyph p mx my = some q := hq
      unfold appCalcClick at hclick
      show _ ∧ execM appCalcKey p.keys
        ((buttonAt p₀ mx my).toList.map fun rc => calcLabel rc.1 rc.2) = _
      rw [← hsame]
      cases hat : buttonAt p mx my with
      | none =>
          rw [hat, Option.some.injEq] at hclick
          subst hclick
          exact ⟨hs, rfl⟩
      | some rc =>
          rw [hat] at hclick
          obtain ⟨r, hr, rfl⟩ := Option.map_eq_some_iff.mp hclick
          obtain ⟨hshows, hkeys⟩ := hs.key ho hr
          refine ⟨⟨?_, ?_⟩, ?_⟩
          · rw [hshows.fields]
          · have hp : CalcPlaced r := by
              rw [hshows.fields]
              exact ⟨ho.w, ho.top, ho.cw, ho.ch, ho.gap⟩
            have hsamebuttons : calcDrawButtons glyph r
                = calcDrawButtons glyph p₀ := by
              rw [hshows.fields]
              rfl
            have hdisplay := @display_repaints glyph _ hp
            have hbuttons := @buttons_repaints glyph _ hp
            have hagain := hdisplay.overlays.same ho.buttons
            rw [← hsamebuttons] at hagain
            exact (hagain.trans (hdisplay.comm hbuttons ho.pitch
              (boxes_apart hp))).trans
                (hbuttons.overlays.same hshows.picture)
          · show (appCalcKey p.keys _).bind some = _
            rw [hkeys]
            rfl

/-- A run of events. -/
theorem ShowsNumber.run (ho : CalcOpened glyph p₀) {ops : List CalcOp}
    (hs : ShowsNumber glyph p₀ p)
    (hq : execM (calcStep glyph) p ops = some q) :
    ShowsNumber glyph p₀ q
      ∧ execM appCalcKey p.keys (ops.flatMap (pressed p₀)) = some q.keys := by
  induction ops generalizing p with
  | nil =>
      cases hq
      exact ⟨hs, rfl⟩
  | cons op ops ih =>
      rw [execM_cons] at hq
      obtain ⟨r, hr, hrest⟩ := Option.bind_eq_some_iff.mp hq
      obtain ⟨hshows, hkeys⟩ := hs.step ho hr
      obtain ⟨hend, hmore⟩ := ih hshows hrest
      refine ⟨hend, ?_⟩
      rw [List.flatMap_cons, execM_append, hkeys]
      exact hmore

end Events

-- ================================================================= opening

section Open

variable (glyph : UInt8 → Nat → UInt8) (p : CalcPanel) (x y w h : Int)

/-- The places that are computed at the start are those of the calculator. -/
theorem placeCalc_places : CalcPlaced (placeCalc p x y w h) :=
  ⟨rfl, rfl, rfl, rfl, rfl⟩

/-- What is drawn before the display. -/
def calcCard : Lfb :=
  let q := placeCalc p x y w h
  let s := lfbFill p.lfb x y w h PANEL_BG
  let s := lfbRoundFill s q.ccX q.ccY q.ccW q.ccH 14 CARD
  lfbText glyph s (q.ccX + 14) (q.ccY - 26) (CStr.ofString "Calculator") TXT_LO
    (-1) 1

/-- The card is drawn on a screen of the same size. -/
theorem calcCard_size : SameSize p.lfb (calcCard glyph p x y w h) :=
  (((lfbFill_overlays ..).roundFill).text).size p.lfb

/-- To open the calculator is to place it and to draw its card, its display
and its buttons. -/
theorem appCalcOpen_eq :
    appCalcOpen glyph p x y w h
      = { placeCalc p x y w h with
          lfb := calcDrawButtons glyph (placeCalc p x y w h)
            (calcDrawDisplay glyph (placeCalc p x y w h)
              (calcCard glyph p x y w h)) } := rfl

/-- The calculator shows its number when it is opened. -/
theorem appCalcOpen_opened (hpitch : p.lfb.W ≤ p.lfb.pitchPx) :
    CalcOpened glyph (appCalcOpen glyph p x y w h)
      ∧ ShowsNumber glyph (appCalcOpen glyph p x y w h)
        (appCalcOpen glyph p x y w h) := by
  have hp := placeCalc_places p x y w h
  have hdisplay := @display_repaints glyph _ hp
  have hbuttons := @buttons_repaints glyph _ hp
  have hcard := calcCard_size glyph p x y w h
  rw [appCalcOpen_eq]
  generalize calcCard glyph p x y w h = s at hcard
  have hsize := hcard.trans (hdisplay.overlays.size s)
  have hall := hsize.trans (hbuttons.overlays.size _)
  have hwide : (calcDrawDisplay glyph (placeCalc p x y w h) s).W
      ≤ (calcDrawDisplay glyph (placeCalc p x y w h) s).pitchPx := by
    rw [hsize.W, hsize.pitch]
    exact hpitch
  refine ⟨⟨⟨hp.w, hp.top, hp.cw, hp.ch, hp.gap⟩, ?_, ?_⟩, ⟨rfl, ?_⟩⟩
  · show (calcDrawButtons ..).W ≤ (calcDrawButtons ..).pitchPx
    rw [hall.W, hall.pitch]
    exact hpitch
  · exact hbuttons.last hbuttons _
  · exact (hdisplay.comm hbuttons hwide (boxes_apart hp)).trans
      (hbuttons.overlays.same (hdisplay.last hdisplay s)).symm

end Open

-- ================================================================== the result

/-- In every run of keys and clicks from `app_calc_open` on that no division
ends: the keys are those pressed, a click pressing the button that it is on;
and the picture is that of the calculator as it was opened, with its display
drawn once for the number that it has now. -/
theorem calc_shows (glyph : UInt8 → Nat → UInt8) (p : CalcPanel)
    (hpitch : p.lfb.W ≤ p.lfb.pitchPx) (x y w h : Int) {ops : List CalcOp}
    {q : CalcPanel}
    (hq : execM (calcStep glyph) (appCalcOpen glyph p x y w h) ops = some q) :
    let p₀ := appCalcOpen glyph p x y w h
    q = { p₀ with keys := q.keys, lfb := q.lfb }
      ∧ execM appCalcKey calcOpen (ops.flatMap (pressed p₀)) = some q.keys
      ∧ (∀ mx my r c, buttonAt p₀ mx my = some (r, c)
        ↔ r < 4 ∧ c < 4 ∧ onButton p₀ mx my r c = true)
      ∧ SamePicture (calcDrawDisplay glyph q p₀.lfb) q.lfb := by
  intro p₀
  obtain ⟨ho, hs⟩ := appCalcOpen_opened glyph p x y w h hpitch
  obtain ⟨hshows, hkeys⟩ := hs.run ho hq
  exact ⟨hshows.fields, hkeys, buttonAt_iff ho.toCalcPlaced, hshows.picture⟩

/-- The statics at boot, with a framebuffer. -/
def calcBoot : CalcPanel := ⟨0, 0, 0, 0, 0, 0, 0, 0, 0, calcOpen, paddedLfb⟩

/-- A 7, and a click on the division. -/
theorem calc_shows_seven :
    let p₀ := appCalcOpen (fun _ _ => 0) calcBoot 0 0 300 424
    ∃ q, execM (calcStep fun _ _ => 0) p₀ [.key 0x37, .click 230 110] = some q
      ∧ SamePicture (calcDrawDisplay (fun _ _ => 0) q p₀.lfb) q.lfb := by
  intro p₀
  have hends : (execM (calcStep fun _ _ => 0) p₀
      [.key 0x37, .click 230 110]).isSome = true := rfl
  obtain ⟨q, hq⟩ := Option.isSome_iff_exists.mp hends
  have hshows := calc_shows (fun _ _ => 0) calcBoot (by decide) 0 0 300 424 hq
  exact ⟨q, hq, hshows.2.2.2⟩

end Thuos.Gui
