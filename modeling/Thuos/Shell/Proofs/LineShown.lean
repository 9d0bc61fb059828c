/-
What the user sees is what is executed, or not.

The shell keeps the line that is typed, and prints each character, and a
backspace for one that is taken back. On the console that is a line edited
at its end (`Edits`), as long as the character that is taken back is in
the row of the cursor: at the start of a row the console takes no
backspace, and shows the character still (`Edits.stuck`).

A prompt is printed where the cursor is at the start of a row with nothing
behind it (`Fresh`): on any console, set up and written on without a
carriage return, that is where the cursor is in column 0 (`SetUp.fresh`).
-/
import Thuos.Core.Proofs.Display
import Thuos.Core.Proofs.Emitted
import Thuos.Gui.Proofs.Painted
import Thuos.Shell.Shell

namespace Thuos.Shell

open Gui Machine Terminal Thuos.Core Video

-- ============================================================== the property

/-- `thuos> `. -/
def promptText : List UInt8 := (CStr.ofString "thuos> ").chars

/-- The console shows the prompt and the line. -/
def Shown (s : ShellState) : Prop :=
  s.kout.sinks.display.ShowsLine (promptText ++ s.line)

/-- The console shows a screen with the cursor at the start of a row and
nothing behind it, at least 8 columns wide, with room for the prompt and
128 more cells. -/
def Fresh (s : Sinks) : Prop :=
  ∃ (rows cols : Nat) (t : Terminal rows cols UInt8), Displays s t
    ∧ t.col.val = 0 ∧ t.Ahead 0x20
    ∧ 8 ≤ cols ∧ promptText.length + LINE_MAX ≤ rows * cols

/-- A backspace that takes a character back finds it in the row of the
cursor, in a console of `cols` columns. -/
def InRow (cols : Nat) (s : ShellState) (c : UInt8) : Prop :=
  c = 8 → s.line ≠ [] → (promptText.length + s.line.length) % cols ≠ 0

instance (cols : Nat) (s : ShellState) (c : UInt8) :
    Decidable (InRow cols s c) :=
  inferInstanceAs (Decidable (_ → _ → _))

-- ================================================================== the steps

section Steps

variable {rows cols : Nat} {glyph : Glyphs}
  {other : CStr → CStr → ShellState → ShellState} {s : ShellState}

/-- The line is on the console, with the cursor behind it. -/
structure Edits (rows cols : Nat) (s : ShellState) : Prop where
  shows : ∃ (t : Terminal rows cols UInt8) (start : Nat),
    Displays s.kout.sinks t ∧ t.HasLine 0x20 start (promptText ++ s.line)
  fits : s.line.length ≤ LINE_MAX - 1

theorem Edits.shown (h : Edits rows cols s) : Shown s := by
  obtain ⟨t, start, hdisplays, hline⟩ := h.shows
  exact hdisplays.reads.showsLine hline

/-- What is no control character is written. -/
theorem feed_put {t : Terminal rows cols UInt8} {c : UInt8}
    (hc : c.toInt8 ≥ 0x20) :
    c ≠ 9 ∧ t.feed 0x20 id c = t.put 0x20 c := by
  have hne : ∀ k : UInt8, ¬ k.toInt8 ≥ 0x20 → c ≠ k := by
    rintro k hk rfl
    exact hk hc
  refine ⟨hne 9 (by decide), ?_⟩
  unfold feed
  rw [if_neg (hne 10 (by decide)), if_neg (hne 13 (by decide)),
    if_neg (hne 9 (by decide)), if_neg (hne 8 (by decide))]
  rfl

/-- A character that is put into the line. -/
theorem Edits.typed (h : Edits rows cols s)
    (hroom : promptText.length + LINE_MAX ≤ rows * cols) {c : UInt8}
    (hlen : s.line.length < LINE_MAX - 1) (hc : c.toInt8 ≥ 0x20) :
    Edits rows cols
      { s with line := s.line ++ [c], kout := kputc glyph s.kout c } := by
  obtain ⟨t, start, hdisplays, hline⟩ := h.shows
  obtain ⟨htab, hput⟩ := feed_put (t := t) hc
  have hnext := hdisplays.rawPutc glyph fun heq => absurd heq htab
  rw [hput] at hnext
  have hmax : LINE_MAX = 128 := rfl
  have htext : (promptText ++ s.line).length
      = promptText.length + s.line.length := List.length_append
  obtain ⟨start', hline'⟩ := hline.put c (by omega)
  rw [List.append_assoc] at hline'
  refine ⟨⟨t.put 0x20 c, start', hnext, hline'⟩, ?_⟩
  show (s.line ++ [c]).length ≤ LINE_MAX - 1
  rw [List.length_append]
  exact hlen

theorem feed_backspace (t : Terminal rows cols UInt8) :
    t.feed 0x20 id 8 = t.backspace 0x20 := rfl

/-- A character that is taken back. -/
theorem Edits.erased (h : Edits rows cols s) (hne : s.line ≠ [])
    (hrow : (promptText.length + s.line.length) % cols ≠ 0) :
    Edits rows cols
      { s with line := s.line.dropLast, kout := kputc glyph s.kout 8 } := by
  obtain ⟨t, start, hdisplays, hline⟩ := h.shows
  have hnext := hdisplays.rawPutc glyph (c := 8) fun heq => by cases heq
  rw [feed_backspace] at hnext
  have hcol : t.col.val ≠ 0 := by
    rw [hline.col_eq, List.length_append]
    exact hrow
  rw [← List.dropLast_concat_getLast hne, ← List.append_assoc] at hline
  refine ⟨⟨t.backspace 0x20, start, hnext, hline.backspace hcol⟩, ?_⟩
  show s.line.dropLast.length ≤ LINE_MAX - 1
  rw [List.length_dropLast]
  exact Nat.le_trans (Nat.sub_le ..) h.fits

/-- A character that is taken back at the start of a row is shown still. -/
theorem Edits.stuck (h : Edits rows cols s) (hcols : 8 ≤ cols)
    (hne : s.line ≠ [])
    (hrow : (promptText.length + s.line.length) % cols = 0) :
    ¬ Shown
      { s with line := s.line.dropLast, kout := kputc glyph s.kout 8 } := by
  intro hshown
  obtain ⟨t, start, hdisplays, hline⟩ := h.shows
  have hnext := hdisplays.rawPutc glyph (c := 8) fun heq => by cases heq
  have hzero : t.col.val = 0 := by
    rw [hline.col_eq, List.length_append]
    exact hrow
  have hstays : t.backspace 0x20 = t := if_pos hzero
  rw [feed_backspace, hstays] at hnext
  have hcol := hnext.reads.col_eq hshown
  have hpos : 0 < s.line.length := List.length_pos_iff.mpr hne
  have hshort : (promptText ++ s.line.dropLast).length + 1
      = promptText.length + s.line.length := by
    rw [List.length_append, List.length_dropLast]
    omega
  rw [hzero] at hcol
  -- two lengths in a row would be multiples of the width
  have hdvd := Nat.dvd_of_mod_eq_zero hrow
  rw [← hshort, Nat.dvd_add_right (Nat.dvd_of_mod_eq_zero hcol.symm)] at hdvd
  have hone := Nat.le_of_dvd Nat.one_pos hdvd
  omega

/-- What a key does, if it is not Enter. -/
theorem shellFeedChar_cases (glyph : Glyphs)
    (other : CStr → CStr → ShellState → ShellState) (s : ShellState)
    {c : UInt8} (hc : c ≠ 10) :
    (c = 8 ∧ s.line ≠ [] ∧ shellFeedChar glyph other s c
        = { s with line := s.line.dropLast, kout := kputc glyph s.kout 8 })
      ∨ (s.line.length < LINE_MAX - 1 ∧ c.toInt8 ≥ 0x20
        ∧ shellFeedChar glyph other s c
          = { s with line := s.line ++ [c], kout := kputc glyph s.kout c })
      ∨ (¬ (c = 8 ∧ s.line ≠ []) ∧ shellFeedChar glyph other s c = s) := by
  unfold shellFeedChar
  rw [if_neg hc]
  by_cases hback : c = 8
  · rw [if_pos hback]
    by_cases hne : s.line = []
    · rw [hne]
      right
      right
      exact ⟨fun h => h.2 rfl, if_neg (Nat.lt_irrefl 0)⟩
    · left
      rw [if_pos (List.length_pos_iff.mpr hne)]
      exact ⟨hback, hne, rfl⟩
  · rw [if_neg hback]
    right
    split
    · next htyped =>
        left
        exact ⟨htyped.1, htyped.2, rfl⟩
    · right
      exact ⟨fun h => hback h.1, rfl⟩

theorem Edits.feed (h : Edits rows cols s)
    (hroom : promptText.length + LINE_MAX ≤ rows * cols) {c : UInt8}
    (hc : c ≠ 10) (hrow : InRow cols s c) :
    Edits rows cols (shellFeedChar glyph other s c) := by
  rcases shellFeedChar_cases glyph other s hc with
    ⟨hback, hne, heq⟩ | ⟨hlen, htyped, heq⟩ | ⟨-, heq⟩
  · rw [heq]
    exact h.erased hne (hrow hback hne)
  · rw [heq]
    exact h.typed hroom hlen htyped
  · rw [heq]
    exact h

theorem Edits.lost (h : Edits rows cols s) (hcols : 8 ≤ cols) {c : UInt8}
    (hrow : ¬ InRow cols s c) : ¬ Shown (shellFeedChar glyph other s c) := by
  unfold InRow at hrow
  rw [Classical.not_imp, Classical.not_imp, not_not] at hrow
  obtain ⟨rfl, hne, hzero⟩ := hrow
  rcases shellFeedChar_cases glyph other s (c := 8) (by decide) with
    ⟨-, -, heq⟩ | ⟨-, htyped, -⟩ | ⟨hno, -⟩
  · rw [heq]
    exact h.stuck hcols hne hzero
  · exact absurd htyped (by decide)
  · exact absurd ⟨rfl, hne⟩ hno

end Steps

-- ================================================================= the prompt

section Prompt

variable {rows cols : Nat} {t : Terminal rows cols UInt8}

/-- The prompt is a text that is printed. -/
theorem shellPrompt_eq (glyph : Glyphs) (s : ShellState) :
    shellPrompt glyph s = s.print glyph promptText := by
  have hsay : say "thuos> " [] = promptText := by decide
  unfold shellPrompt
  rw [hsay]

/-- A text of characters that are written, behind a line. -/
theorem hasLine_text {start : Nat} {line text : List UInt8}
    (h : t.HasLine 0x20 start line) (htext : ∀ c ∈ text, c.toInt8 ≥ 0x20)
    (hroom : line.length + text.length < rows * cols) :
    ∃ start, (exec (feed 0x20 id) t text).HasLine 0x20 start
      (line ++ text) := by
  induction text generalizing t start line with
  | nil =>
      rw [List.append_nil]
      exact ⟨start, h⟩
  | cons c text ih =>
      rw [List.length_cons] at hroom
      obtain ⟨hc, htext⟩ := List.forall_mem_cons.mp htext
      obtain ⟨-, hput⟩ := feed_put (t := t) hc
      obtain ⟨start', hline⟩ := h.put c (by omega)
      have hlen : (line ++ [c]).length = line.length + 1 := by simp
      have hrest := ih hline htext (by omega)
      rw [List.append_assoc, List.singleton_append] at hrest
      rw [exec_cons, hput]
      exact hrest

/-- A prompt on a fresh console. -/
theorem prompt_edits (glyph : Glyphs) (s : ShellState)
    (h : Displays s.kout.sinks t) (hcol : t.col.val = 0)
    (hahead : t.Ahead 0x20)
    (hroom : promptText.length + LINE_MAX ≤ rows * cols) :
    Edits rows cols (shellPrompt glyph { s with line := [] }) := by
  have htyped : ∀ c ∈ promptText, c.toInt8 ≥ 0x20 := by decide +kernel
  have htab : 9 ∉ promptText := by decide
  have hmax : LINE_MAX = 128 := rfl
  obtain ⟨start, hline⟩ := hasLine_text (hahead.hasLine hcol) htyped
    (by rw [List.length_nil]; omega)
  have hdisplays := h.rawPutcs glyph fun hmem => absurd hmem htab
  rw [← kputc_sinks] at hdisplays
  rw [shellPrompt_eq]
  refine ⟨⟨_, start, hdisplays, ?_⟩, Nat.zero_le _⟩
  show HasLine 0x20 start (promptText ++ []) _
  rw [List.append_nil]
  exact hline

end Prompt

-- ============================================================== the consoles

section Consoles

variable {s : Sinks} {rows cols : Nat} {t : Terminal rows cols UInt8}

/-- A console just set up: the text console cleared, or the graphical one
opened with enough room, all of it on the screen. -/
inductive SetUp (s : Sinks) : Prop
  | text (v : Vga) (hoff : s.gcon.gcon.active = false)
      (hvga : s.vga = vgaClear v)
  | graphical (r : Traced) (rows cols : Nat) (x y scale : Int)
      (f b : UInt32) (harea : ContainedAs rows cols r.gcon.lfb x y scale)
      (hcols : 8 ≤ cols)
      (hroom : promptText.length + LINE_MAX ≤ rows * cols)
      (hgcon : s.gcon = r.init x y cols rows scale f b)

/-- A text without a carriage return leaves nothing behind the cursor. -/
theorem ahead_text (h : t.Ahead 0x20) {text : List UInt8}
    (hcr : 13 ∉ text) : (exec (feed 0x20 id) t text).Ahead 0x20 := by
  induction text generalizing t with
  | nil => exact h
  | cons c text ih =>
      rw [List.mem_cons, not_or] at hcr
      exact ih (h.feed id (Ne.symm hcr.1)) hcr.2

theorem fresh_text (h : Displays s t) (hahead : t.Ahead 0x20)
    (hcols : 8 ≤ cols) (hroom : promptText.length + LINE_MAX ≤ rows * cols)
    (glyph : Glyphs) {text : List UInt8} (hcr : 13 ∉ text)
    (htab : 9 ∈ text → s.display.cols ≤ 80) {y : Nat}
    (hat : (exec (rawPutc glyph) s text).display.cursorAt y 0) :
    Fresh (exec (rawPutc glyph) s text) := by
  rw [h.reads.width] at htab
  have hdisplays := h.rawPutcs glyph htab
  obtain ⟨-, hcol⟩ := (hdisplays.reads.cursor y 0).mp hat
  exact ⟨rows, cols, _, hdisplays, hcol.symm, ahead_text hahead hcr, hcols,
    hroom⟩

/-- On a console that was set up, whatever text without a carriage return
was printed, a prompt in column 0 is a fresh one. -/
theorem SetUp.fresh (h : SetUp s) (glyph : Glyphs) {text : List UInt8}
    (hcr : 13 ∉ text) (htab : 9 ∈ text → s.display.cols ≤ 80) {y : Nat}
    (hat : (exec (rawPutc glyph) s text).display.cursorAt y 0) :
    Fresh (exec (rawPutc glyph) s text) := by
  cases h with
  | text v hoff hvga =>
      have hdisplays : Displays s Screen.cleared := by
        unfold Displays
        rw [hoff, hvga]
        exact vgaClear_displays v
      exact fresh_text hdisplays (fun _ _ _ => rfl) (by decide) (by decide)
        glyph hcr htab hat
  | graphical r rows cols x y scale f b harea hcols hroom hgcon =>
      have hrows : 0 < rows := by
        apply Nat.pos_of_ne_zero
        rintro rfl
        rw [Nat.zero_mul] at hroom
        cases hroom
      have hpos : 0 < cols := Nat.zero_lt_of_lt hcols
      have hfollows := r.init_followsAs f b hrows hpos harea
      let t : Terminal rows cols UInt8 := clear 0x20 hrows hpos
      have hdisplays : Displays s t := by
        unfold Displays
        rw [hgcon, if_pos hfollows.active]
        exact hfollows
      exact fresh_text hdisplays (ahead_clear hrows hpos) hcols hroom glyph
        hcr htab hat

end Consoles

-- =============================================================== the pixels

/-- The graphical console's framebuffer has the glyphs of a screen of this
size. -/
def Pictured (glyph : Glyphs) (rows cols : Nat) (s : ShellState) : Prop :=
  ∃ t : Terminal rows cols UInt8, s.kout.sinks.gcon.Draws glyph t

section Pictures

variable {glyph : Glyphs} {rows cols : Nat} {k : Kout} {s : ShellState}

/-- A character that is no tab is drawn where the screen has it. -/
theorem kputc_pictured
    (h : ∃ t : Terminal rows cols UInt8, k.sinks.gcon.Draws glyph t)
    {c : UInt8} (hc : c ≠ 9) :
    ∃ t : Terminal rows cols UInt8, (kputc glyph k c).sinks.gcon.Draws glyph t
      := by
  obtain ⟨t, ht⟩ := h
  have htab : c.toInt8 = 9 → cols ≤ 80 := fun h9 =>
    absurd ((toInt8_eq_iff c 9).mp h9) hc
  refine ⟨t.feed 0x20 id c.toInt8.toUInt8, ?_⟩
  show (rawPutc glyph k.sinks c).gcon.Draws glyph _
  rw [rawPutc_eq, if_pos ht.follows.active]
  exact ht.putc htab

/-- So is a text. -/
theorem kputsAll_pictured {text : List UInt8} (htext : 9 ∉ text)
    (h : ∃ t : Terminal rows cols UInt8, k.sinks.gcon.Draws glyph t) :
    ∃ t : Terminal rows cols UInt8,
      (kputsAll glyph k text).sinks.gcon.Draws glyph t := by
  induction text generalizing k with
  | nil => exact h
  | cons c text ih =>
      obtain ⟨hc, hrest⟩ := not_or.mp (mt List.mem_cons.mpr htext)
      exact ih hrest (kputc_pictured h (Ne.symm hc))

/-- A key other than Enter prints a backspace, what was typed, or
nothing. -/
theorem Pictured.feed (h : Pictured glyph rows cols s)
    (other : CStr → CStr → ShellState → ShellState) {c : UInt8}
    (hc : c ≠ 10) :
    Pictured glyph rows cols (shellFeedChar glyph other s c) := by
  rcases shellFeedChar_cases glyph other s hc with
    ⟨-, -, heq⟩ | ⟨-, htyped, heq⟩ | ⟨-, heq⟩
  · rw [heq]
    exact kputc_pictured h (by decide)
  · rw [heq]
    have hscreen : Terminal 1 1 UInt8 := clear 0x20 one_pos one_pos
    exact kputc_pictured h (@feed_put 1 1 hscreen c htyped).1
  · rw [heq]
    exact h

end Pictures

-- ================================================================= the result

/-- After a fresh prompt, for all keys but Enter: the console shows the
prompt and the line after each of them exactly when no character is taken
back at the start of a row. On the graphical console, where its pixels were
the glyphs of its screen before the prompt, they are that after each key. -/
theorem line_shown_iff (glyph : Glyphs)
    (other : CStr → CStr → ShellState → ShellState) (s : ShellState)
    (hfresh : Fresh s.kout.sinks) (keys : List UInt8)
    (hkeys : ∀ c ∈ keys, c ≠ 10) :
    let s₀ := shellPrompt glyph { s with line := [] }
    ((∀ pre, pre <+: keys → Shown (exec (shellFeedChar glyph other) s₀ pre))
        ↔ Along (shellFeedChar glyph other)
          (InRow s.kout.sinks.display.cols) s₀ keys)
      ∧ ∀ rows cols, Pictured glyph rows cols s → ∀ pre, pre <+: keys →
        Pictured glyph rows cols (exec (shellFeedChar glyph other) s₀ pre) := by
  intro s₀
  refine ⟨?_, fun rows cols hpictured pre hpre => ?_⟩
  rotate_left
  · have hprompt : Pictured glyph rows cols s₀ :=
      @kputsAll_pictured glyph rows cols s.kout promptText (by decide)
        hpictured
    exact exec_inv (Pictured glyph rows cols)
      (fun _ c h hc => h.feed other hc) hprompt
      (along_of_mem fun c hc => hkeys c (hpre.subset hc))
  obtain ⟨rows, cols, t, hdisplays, hcol, hahead, hcols, hroom⟩ := hfresh
  have hedits : Edits rows cols s₀ :=
    prompt_edits glyph s hdisplays hcol hahead hroom
  rw [hdisplays.reads.width]
  apply prefixes_iff (Edits rows cols)
  · intro u hu
    exact hu.shown
  · intro u c hu hc hrow
    exact hu.feed hroom hc hrow
  · intro u c hu _ hrow
    exact hu.lost hcols hrow
  · exact hedits
  · exact hkeys

/-- The shell on the text console, cleared. -/
def clearedState : ShellState where
  kout := ⟨{ Sinks.boot with vga := vgaClear Sinks.boot.vga }, fun _ => 0, 0⟩
  kfs := Fs.ramfsInit [] (fun _ => 0) 0
  hist := ⟨fun _ => CStr.empty, 0⟩
  line := []

theorem clearedState_fresh : Fresh clearedState.kout.sinks := by
  have hsetUp : SetUp clearedState.kout.sinks := .text Sinks.boot.vga rfl rfl
  have hat : clearedState.kout.sinks.display.cursorAt 0 0 :=
    ⟨rfl, rfl, by decide +kernel⟩
  exact hsetUp.fresh (fun _ _ => 0) List.not_mem_nil
    (fun h => absurd h List.not_mem_nil) hat

/-- Two characters, and one taken back. -/
theorem line_shown_short :
    Shown (exec (shellFeedChar (fun _ _ => 0) fun _ _ s => s)
      (shellPrompt (fun _ _ => 0) { clearedState with line := [] })
      [0x68, 0x69, 8]) := by
  refine (line_shown_iff (fun _ _ => 0) (fun _ _ s => s) clearedState
    clearedState_fresh [0x68, 0x69, 8] (by decide +kernel)).1.mpr ?_ _
    (List.prefix_refl _)
  decide +kernel

/-- The characters that fill a row behind the prompt. -/
def rowText : List UInt8 := List.replicate 73 0x61

/-- The line fills its row; its last character is taken back, and stays on
the screen. -/
theorem full_row_stuck :
    ¬ ∀ pre, pre <+: rowText ++ [8] →
      Shown (exec (shellFeedChar (fun _ _ => 0) fun _ _ s => s)
        (shellPrompt (fun _ _ => 0) { clearedState with line := [] }) pre) := by
  intro hall
  obtain ⟨rows, cols, t, hdisplays, hcol, hahead, hcols, hroom⟩ :=
    clearedState_fresh
  obtain rfl : 80 = cols := hdisplays.reads.width
  have hedits := prompt_edits (fun _ _ => 0) clearedState hdisplays hcol
    hahead hroom
  have htyped : ∀ c ∈ rowText, c ≠ 10 ∧ c ≠ 8 := by
    intro c hc
    rw [List.eq_of_mem_replicate hc]
    decide
  let step := shellFeedChar (fun _ _ => 0) fun _ _ s => s
  have hrun : Edits rows 80 (exec step _ rowText) :=
    exec_inv (Edits rows 80)
      (fun u c hu hc => hu.feed hroom hc.1 fun heq => absurd heq hc.2)
      hedits (along_of_mem htyped)
  have hshown := hall _ (List.prefix_refl _)
  rw [exec_append, exec_cons, exec_nil] at hshown
  exact hrun.lost hcols (by decide +kernel) hshown

end Thuos.Shell
