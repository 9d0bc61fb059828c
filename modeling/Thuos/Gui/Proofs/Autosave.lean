/-
When the autosave of the Notes editor saves.

On the editor's side a key edits a text (`edit`), whatever the buffer's
stale bytes are. On the store's side a write that fits is stored and any
other is dropped (`KfsRoom`). The two are joined by `InSync`: the file is
the text, and no file is the empty text. From a state in sync, an accepted
key saves exactly when its text fits the arena or is the text that the
file holds already (`key_saved_iff`), and the saved states are in sync
again; so the runs whose keys all save are those whose keys all have room.

Every key takes its whole text from the arena, and nothing gives it back:
a text of `n` bytes typed key by key has used `n (n + 1) / 2` of it
(`letters_room`).
-/
import Thuos.Gui.Notes
import Thuos.Fs.Proofs.KfsRoom

namespace Thuos.Gui

open Machine ByteMem Fs

-- ========================================================== what is stated

/-- The characters the editor takes: a backspace, a newline, a character
from the space on. -/
def Accepted (c : Int8) : Prop := c = 8 ∨ c = 10 ∨ 32 ≤ c

instance (c : Int8) : Decidable (Accepted c) :=
  inferInstanceAs (Decidable (_ ∨ _ ∨ _))

/-- After the step, if it is an accepted key, the file is the text on the
screen, and opening the editor again shows it. -/
def Saved (s : Notes) : NotesOp → Prop
  | .open => True
  | .key c => Accepted c →
      kfsRead (appNotesKey s c).kfs notesTxt
          = some (buffer (appNotesKey s c))
        ∧ buffer (appNotesOpen (appNotesKey s c)) = buffer (appNotesKey s c)

/-- The arena has room for the text that the key leaves, or the buffer is
full and the key leaves it as it is. -/
def Room (s : Notes) : NotesOp → Prop
  | .open => True
  | .key c => Accepted c →
      if c = 8 then s.kfs.arenaUsed + (s.noLen - 1) ≤ KFS_ARENA
      else s.noLen = NO_BUF_SIZE - 1
        ∨ s.kfs.arenaUsed + (s.noLen + 1) ≤ KFS_ARENA

-- =============================================================== the editor

/-- What an accepted key does to a text. -/
def edit (text : List UInt8) (c : Int8) : List UInt8 :=
  if c = 8 then text.dropLast
  else if text.length < NO_BUF_SIZE - 1 then text ++ [c.toUInt8] else text

section Editor

variable {s : Notes}

/-- The text in the buffer is as long as the counter says. -/
@[simp] theorem length_buffer (s : Notes) : (buffer s).length = s.noLen :=
  Mem.length_read ..

/-- A read that ends at a written byte. -/
theorem read_set_append (m : Mem) (n : Nat) (b : UInt8) :
    (m.set n b).read 0 (n + 1) = m.read 0 n ++ [b] := by
  have hfront : (m.set n b).read 0 n = m.read 0 n :=
    Mem.read_congr fun x _ hx => m.set_ne b (by omega)
  rw [← hfront]
  unfold Mem.read
  rw [List.range_succ, List.map_append]
  simp

/-- A read one byte shorter. -/
theorem read_pred (m : Mem) (n : Nat) :
    m.read 0 (n - 1) = (m.read 0 n).dropLast := by
  cases n with
  | zero => rfl
  | succ n =>
      unfold Mem.read
      rw [List.range_succ, List.map_append]
      simp

/-- To draw the text leaves the text alone. -/
@[simp] theorem buffer_render (s : Notes) :
    buffer (notesRender s) = buffer s := by
  show (s.noBuf.set s.noLen 0).read 0 s.noLen = s.noBuf.read 0 s.noLen
  exact Mem.read_congr fun x _ hx => s.noBuf.set_ne 0 (by omega)

/-- To draw the text leaves the files alone. -/
@[simp] theorem kfs_render (s : Notes) : (notesRender s).kfs = s.kfs := rfl

/-- A byte is put behind the text while there is room for it. -/
theorem buffer_push (s : Notes) (b : UInt8) :
    buffer (notesPush s b)
      = if s.noLen < NO_BUF_SIZE - 1 then buffer s ++ [b] else buffer s := by
  unfold notesPush
  split
  · exact read_set_append ..
  · rfl

/-- A byte that is put behind the text is not saved yet. -/
@[simp] theorem kfs_push (s : Notes) (b : UInt8) :
    (notesPush s b).kfs = s.kfs := by
  unfold notesPush
  split
  · rfl
  · rfl

/-- A file that fits is loaded behind the text. -/
theorem buffer_load {d : List UInt8} (s : Notes)
    (h : s.noLen + d.length ≤ NO_BUF_SIZE - 1) :
    buffer (notesLoad s d) = buffer s ++ d := by
  induction d generalizing s with
  | nil => rw [notesLoad, List.append_nil]
  | cons b d ih =>
      rw [List.length_cons] at h
      have hlt : s.noLen < NO_BUF_SIZE - 1 := by omega
      have hpush := buffer_push s b
      rw [if_pos hlt] at hpush
      have hlen : (notesPush s b).noLen = s.noLen + 1 := by
        rw [← length_buffer, hpush, List.length_append, length_buffer]
        rfl
      rw [notesLoad, if_pos hlt, ih _ (by omega), hpush, List.append_assoc]
      rfl

/-- To load a text reads a file, and writes none. -/
theorem kfs_load (d : List UInt8) (s : Notes) :
    (notesLoad s d).kfs = s.kfs := by
  induction d generalizing s with
  | nil => rfl
  | cons b d ih =>
      rw [notesLoad]
      split
      · rw [ih, kfs_push]
      · rfl

/-- Opening shows the file, and an absent file as no text. -/
theorem buffer_open
    (h : ((kfsRead s.kfs notesTxt).getD []).length ≤ NO_BUF_SIZE - 1) :
    buffer (appNotesOpen s) = (kfsRead s.kfs notesTxt).getD [] := by
  unfold appNotesOpen
  dsimp only
  rw [buffer_render]
  cases hfile : kfsRead s.kfs notesTxt with
  | none => rfl
  | some d =>
      rw [hfile, Option.getD_some] at h
      exact buffer_load _ (by simpa using h)

/-- To open the application reads the file of the notes, and writes none. -/
@[simp] theorem kfs_open (s : Notes) : (appNotesOpen s).kfs = s.kfs := by
  unfold appNotesOpen
  dsimp only
  rw [kfs_render]
  cases kfsRead s.kfs notesTxt with
  | none => rfl
  | some d => exact kfs_load d _

/-- An accepted key edits the text and writes it. -/
theorem key_spec {c : Int8} (hc : Accepted c) :
    buffer (appNotesKey s c) = edit (buffer s) c
      ∧ (appNotesKey s c).kfs
        = (kfsWrite s.kfs notesTxt (edit (buffer s) c)).1 := by
  unfold appNotesKey edit
  by_cases hback : c = 8
  · rw [if_pos hback, if_pos hback]
    have hbuf : buffer (if 0 < s.noLen then { s with noLen := s.noLen - 1 }
        else s) = (buffer s).dropLast := by
      split
      · exact read_pred ..
      · next hzero =>
          unfold buffer
          rw [show s.noLen = 0 by omega]
          rfl
    have hkfs : (if 0 < s.noLen then { s with noLen := s.noLen - 1 }
        else s).kfs = s.kfs := by
      split
      · rfl
      · rfl
    constructor
    · rw [notesSave, buffer_render, ← hbuf]
      rfl
    · rw [notesSave, kfs_render, hbuf, hkfs]
  · rw [if_neg hback, if_neg hback, if_pos (hc.resolve_left hback),
      length_buffer, ← buffer_push]
    constructor
    · rw [notesSave, buffer_render]
      rfl
    · rw [notesSave, kfs_render, kfs_push]

/-- Any other key does nothing. -/
theorem key_rejected {c : Int8} (hc : ¬ Accepted c) : appNotesKey s c = s := by
  unfold appNotesKey
  rw [if_neg fun h => hc (Or.inl h), if_neg fun h => hc (Or.inr h)]

end Editor

-- ================================================================= in sync

/-- The names in use. -/
def notesNames : List CStr := [welcomeTxt, readmeTxt, notesTxt]

/-- The file is the text, which is no longer than the buffer. -/
structure InSync (s : Notes) (log : Log) : Prop where
  kfs : KfsOf notesNames s.kfs log
  len : s.noLen ≤ NO_BUF_SIZE - 1
  file : (kfsRead s.kfs notesTxt).getD [] = buffer s

section Step

variable {s : Notes} {log : Log}

/-- A backspace makes the text shorter by one, and any other key longer by
one, if there is room. -/
theorem length_edit (text : List UInt8) (c : Int8) :
    (edit text c).length
      = if c = 8 then text.length - 1
        else if text.length < NO_BUF_SIZE - 1 then text.length + 1
        else text.length := by
  unfold edit
  split
  · rw [List.length_dropLast]
  · split
    · rw [List.length_append]
      rfl
    · rfl

/-- No key makes the text longer than the buffer. -/
theorem length_edit_le {text : List UInt8} (c : Int8)
    (h : text.length ≤ NO_BUF_SIZE - 1) :
    (edit text c).length ≤ NO_BUF_SIZE - 1 := by
  rw [length_edit]
  split
  · omega
  · split
    · omega
    · exact h

/-- The room condition, by the text that the key leaves. -/
theorem room_iff (h : InSync s log) {c : Int8} (hc : Accepted c) :
    Room s (.key c)
      ↔ s.kfs.arenaUsed + (edit (buffer s) c).length ≤ KFS_ARENA
        ∨ edit (buffer s) c = buffer s := by
  have hlen := h.len
  have hused := arenaUsed_le h.kfs
  have hroom : Room s (.key c)
      ↔ if c = 8 then s.kfs.arenaUsed + (s.noLen - 1) ≤ KFS_ARENA
        else s.noLen = NO_BUF_SIZE - 1
          ∨ s.kfs.arenaUsed + (s.noLen + 1) ≤ KFS_ARENA :=
    ⟨fun hr => hr hc, fun hr _ => hr⟩
  have hlenEdit := length_edit (buffer s) c
  rw [length_buffer] at hlenEdit
  rw [hroom]
  by_cases hback : c = 8
  · rw [if_pos hback] at hlenEdit ⊢
    rw [hlenEdit]
    refine ⟨Or.inl, fun hor => hor.elim id fun hsame => ?_⟩
    -- a backspace that changes nothing finds no text
    have hl := congrArg List.length hsame
    rw [hlenEdit, length_buffer] at hl
    omega
  · rw [if_neg hback] at hlenEdit ⊢
    by_cases hfull : s.noLen < NO_BUF_SIZE - 1
    · rw [if_pos hfull] at hlenEdit
      rw [hlenEdit]
      refine ⟨fun hor => Or.inl (hor.resolve_left (by omega)), fun hor => ?_⟩
      refine Or.inr (hor.resolve_right fun hsame => ?_)
      have hl := congrArg List.length hsame
      rw [hlenEdit, length_buffer] at hl
      omega
    · refine iff_of_true (Or.inl (by omega)) (Or.inr ?_)
      unfold edit
      rw [if_neg hback, length_buffer, if_neg hfull]

theorem notesNames_lt : notesNames.length < KFS_MAX_FILES := by decide

/-- The name of the file of the notes fits into the table. -/
theorem notesTxt_length : 1 ≤ notesTxt.length ∧ notesTxt.length ≤ 31 := by
  decide +kernel

/-- After a key the text still fits into the buffer. -/
theorem length_key_le (h : InSync s log) (c : Int8) :
    (edit (buffer s) c).length ≤ NO_BUF_SIZE - 1 := by
  apply length_edit_le
  rw [length_buffer]
  exact h.len

/-- The key has saved if the file is the text that it leaves. -/
theorem saved_key_iff (h : InSync s log) {c : Int8} (hc : Accepted c) :
    Saved s (.key c)
      ↔ kfsRead (appNotesKey s c).kfs notesTxt
        = some (edit (buffer s) c) := by
  obtain ⟨hbuf, -⟩ := key_spec (s := s) hc
  unfold Saved
  dsimp only
  rw [hbuf]
  refine ⟨fun hs => (hs hc).1, fun hfile _ => ⟨hfile, ?_⟩⟩
  rw [buffer_open, hfile]
  · rfl
  · rw [hfile]
    exact length_key_le h c

/-- A text that fits in the arena is the file. -/
theorem key_stored (h : InSync s log) {c : Int8} (hc : Accepted c)
    (hfits : s.kfs.arenaUsed + (edit (buffer s) c).length ≤ KFS_ARENA) :
    ∃ log', KfsOf notesNames (appNotesKey s c).kfs log'
      ∧ kfsRead (appNotesKey s c).kfs notesTxt
        = some (edit (buffer s) c) := by
  obtain ⟨-, hkfs⟩ := key_spec (s := s) hc
  have hstored := (kfsWrite_fits h.kfs notesNames_lt (by simp [notesNames])
    notesTxt_length hfits).1
  rw [← hkfs] at hstored
  refine ⟨_, hstored, ?_⟩
  rw [kfsRead_eq hstored notesTxt, List.lookup_cons_self]

/-- Any other is dropped. -/
theorem key_dropped (h : InSync s log) {c : Int8} (hc : Accepted c)
    (hfull : ¬ s.kfs.arenaUsed + (edit (buffer s) c).length ≤ KFS_ARENA) :
    (appNotesKey s c).kfs = s.kfs := by
  obtain ⟨-, hkfs⟩ := key_spec (s := s) hc
  rw [hkfs]
  refine kfsWrite_full h.kfs notesNames_lt notesTxt_length.1 ?_ (by omega)
  exact Nat.lt_of_le_of_lt (length_key_le h c) (by decide)

/-- Where the text that a key leaves does not fit, it is the file if it is
the text of before. -/
theorem file_iff_same (h : InSync s log) {c : Int8}
    (hfull : ¬ s.kfs.arenaUsed + (edit (buffer s) c).length ≤ KFS_ARENA) :
    kfsRead s.kfs notesTxt = some (edit (buffer s) c)
      ↔ edit (buffer s) c = buffer s := by
  have hold := h.file
  constructor
  · intro hfile
    rw [hfile] at hold
    exact hold
  · intro hedit
    rw [hedit]
    cases hread : kfsRead s.kfs notesTxt with
    | some d =>
        rw [hread] at hold
        exact congrArg some hold
    | none =>
        -- no file, no text: nothing is dropped
        rw [hread, Option.getD_none] at hold
        have hused := arenaUsed_le h.kfs
        rw [hedit, ← hold] at hfull
        exact absurd hused hfull

/-- One accepted key: it saves exactly when it has room. -/
theorem key_saved_iff (h : InSync s log) {c : Int8} (hc : Accepted c) :
    (Saved s (.key c) ↔ Room s (.key c))
      ∧ (Room s (.key c) → ∃ log', InSync (appNotesKey s c) log') := by
  obtain ⟨hbuf, -⟩ := key_spec (s := s) hc
  have hlen : (appNotesKey s c).noLen ≤ NO_BUF_SIZE - 1 := by
    rw [← length_buffer, hbuf]
    exact length_key_le h c
  rw [saved_key_iff h hc, room_iff h hc]
  by_cases hfits : s.kfs.arenaUsed + (edit (buffer s) c).length ≤ KFS_ARENA
  · obtain ⟨log', hkfs, hfile⟩ := key_stored h hc hfits
    refine ⟨iff_of_true hfile (Or.inl hfits), fun _ => ⟨log', hkfs, hlen, ?_⟩⟩
    rw [hfile, hbuf]
    rfl
  · -- the write is dropped, and the file is the text of before
    rw [key_dropped h hc hfits, or_iff_right hfits]
    refine ⟨file_iff_same h hfits, fun hedit => ⟨log, ?_, hlen, ?_⟩⟩
    · rw [key_dropped h hc hfits]
      exact h.kfs
    · rw [key_dropped h hc hfits, hbuf, hedit]
      exact h.file

/-- When the application is opened, the buffer and the file agree. -/
theorem open_inSync (h : InSync s log) : InSync (appNotesOpen s) log := by
  have hlen : ((kfsRead s.kfs notesTxt).getD []).length
      ≤ NO_BUF_SIZE - 1 := by
    rw [h.file, length_buffer]
    exact h.len
  have hbuf := buffer_open hlen
  refine ⟨?_, ?_, ?_⟩
  · rw [kfs_open]
    exact h.kfs
  · rw [← length_buffer, hbuf]
    exact hlen
  · rw [kfs_open, hbuf]

/-- The step lemma. -/
theorem step_saved_iff (h : InSync s log) (op : NotesOp) :
    (Saved s op ↔ Room s op)
      ∧ (Room s op → ∃ log', InSync (notesStep s op) log') := by
  cases op with
  | «open» => exact ⟨Iff.rfl, fun _ => ⟨log, open_inSync h⟩⟩
  | key c =>
      by_cases hc : Accepted c
      · exact key_saved_iff h hc
      · refine ⟨iff_of_true (fun h => absurd h hc) fun h => absurd h hc,
          fun _ => ⟨log, ?_⟩⟩
        show InSync (appNotesKey s c) log
        rw [key_rejected hc]
        exact h

/-- The run lemma. -/
theorem run_saved_iff (h : InSync s log) (ops : List NotesOp) :
    Along notesStep Saved s ops ↔ Along notesStep Room s ops := by
  induction ops generalizing s log with
  | nil => exact Iff.rfl
  | cons op ops ih =>
      obtain ⟨hop, hnext⟩ := step_saved_iff h op
      rw [Along, Along, hop]
      refine and_congr_right fun hroom => ?_
      obtain ⟨log', h'⟩ := hnext hroom
      exact ih h'

end Step

-- =============================================================== the claim

/-- The filesystem of `kfs_init` has no notes, and the editor no text. -/
theorem notesBoot_inSync (kfiles : Vector RFile KFS_MAX_FILES)
    (karena noBuf : Mem) :
    ∃ log, InSync (notesBoot kfiles karena noBuf) log := by
  obtain ⟨hkfs, -⟩ := kfsInit_of kfiles karena notesNames_lt
    (by simp [notesNames]) (by simp [notesNames])
  have hr : (notesTxt == readmeTxt) = false := by decide +kernel
  have hw : (notesTxt == welcomeTxt) = false := by decide +kernel
  have hfile := kfsRead_eq hkfs notesTxt
  rw [List.lookup_cons, hr, List.lookup_cons, hw, List.lookup_nil] at hfile
  have hboot : (notesBoot kfiles karena noBuf).kfs
      = kfsInit kfiles karena := by
    simp only [notesBoot]
  rw [← hboot] at hkfs hfile
  refine ⟨_, hkfs, Nat.zero_le _, ?_⟩
  rw [hfile]
  rfl

/-- From the filesystem of `kfs_init` on, over any opens and keys: every
accepted key leaves the text on the screen in the file, and opening the
editor again shows it, exactly when every accepted key finds room in the
arena or is one that a full buffer leaves out. -/
theorem notes_autosave_iff (kfiles : Vector RFile KFS_MAX_FILES)
    (karena noBuf : Mem) (ops : List NotesOp) :
    Along notesStep Saved (notesBoot kfiles karena noBuf) ops
      ↔ Along notesStep Room (notesBoot kfiles karena noBuf) ops := by
  obtain ⟨log, h⟩ := notesBoot_inSync kfiles karena noBuf
  exact run_saved_iff h ops

/-- A text typed letter by letter, each with room, has taken the sum of
its lengths from the arena. -/
theorem letters_room {n : Nat} {s : Notes} {log : Log} (h : InSync s log)
    (hlen : s.noLen + n ≤ NO_BUF_SIZE - 1)
    (hroom : Along notesStep Room s (List.replicate n (.key 97))) :
    2 * s.kfs.arenaUsed + (2 * n * s.noLen + n * (n + 1)) ≤ 2 * KFS_ARENA := by
  induction n generalizing s log with
  | zero =>
      have hused := arenaUsed_le h.kfs
      omega
  | succ n ih =>
      rw [List.replicate_succ] at hroom
      obtain ⟨hfirst, hrest⟩ := hroom
      have hc : Accepted 97 := by decide
      obtain ⟨log', h'⟩ := (key_saved_iff h hc).2 hfirst
      have hfits : s.kfs.arenaUsed + (s.noLen + 1) ≤ KFS_ARENA :=
        (hfirst hc).resolve_left (by omega)
      obtain ⟨hbuf, hkfs⟩ := key_spec (s := s) hc
      have hedit : (edit (buffer s) 97).length = s.noLen + 1 := by
        rw [length_edit, length_buffer, if_neg (by decide), if_pos (by omega)]
      have hlen' : (appNotesKey s 97).noLen = s.noLen + 1 := by
        rw [← length_buffer, hbuf, hedit]
      have hused' : (appNotesKey s 97).kfs.arenaUsed
          = s.kfs.arenaUsed + (s.noLen + 1) := by
        rw [hkfs, ← hedit]
        refine (kfsWrite_fits h.kfs notesNames_lt (by simp [notesNames])
          notesTxt_length ?_).2
        rw [hedit]
        exact hfits
      have hih := ih h' (by omega) hrest
      rw [hlen', hused'] at hih
      calc 2 * s.kfs.arenaUsed
            + (2 * (n + 1) * s.noLen + (n + 1) * (n + 1 + 1))
          = 2 * (s.kfs.arenaUsed + (s.noLen + 1))
              + (2 * n * (s.noLen + 1) + n * (n + 1)) := by ring
        _ ≤ 2 * KFS_ARENA := hih

/-- Typing `a` 362 times, a text of less than half the buffer. -/
theorem notes_unsaved_362 :
    ¬ Along notesStep Saved
      (notesBoot (Vector.replicate KFS_MAX_FILES noFile) (fun _ => 0)
        fun _ => 0)
      (List.replicate 362 (.key 97)) := by
  obtain ⟨log, h⟩ := notesBoot_inSync
    (Vector.replicate KFS_MAX_FILES noFile) (fun _ => 0) fun _ => 0
  intro hsaved
  have hroom := (run_saved_iff h _).mp hsaved
  have hsum := letters_room h (by decide) hroom
  unfold KFS_ARENA at hsum
  omega

end Thuos.Gui
