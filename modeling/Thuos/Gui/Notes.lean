/-
The Notes editor (kernel/gui/apps.c, `app_notes_open` and
`app_notes_key`): a buffer of 1024 bytes that every key writes back to
the file notes.txt.

The state is the editor's and the filesystem it saves to. What
`notes_render` draws is left out; the terminator it puts after the text is
not. A `char` is signed, so a byte from 0x80 on is below the space and is
no character to the editor.
-/
import Thuos.Fs.Kfs

namespace Thuos.Gui

open ByteMem Fs

structure Notes where
  kfs : Ramfs
  /-- `static char no_buf[1024]` -/
  noBuf : Mem
  noLen : Nat

/-- `sizeof no_buf`. -/
def NO_BUF_SIZE : Nat := 1024

def notesTxt : CStr := CStr.ofString "notes.txt"

/-- The text on the screen, `no_buf[0..no_len)`. -/
def buffer (s : Notes) : List UInt8 := s.noBuf.read 0 s.noLen

/-- `no_buf[no_len++] = b` behind its guard. -/
def notesPush (s : Notes) (b : UInt8) : Notes :=
  if s.noLen < NO_BUF_SIZE - 1 then
    { s with noBuf := s.noBuf.set s.noLen b, noLen := s.noLen + 1 }
  else s

/-- `notes_render`: the terminator. -/
def notesRender (s : Notes) : Notes :=
  { s with noBuf := s.noBuf.set s.noLen 0 }

/-- The loading loop of `app_notes_open`: it ends with the file or with
the first byte that finds no room. -/
def notesLoad (s : Notes) : List UInt8 → Notes
  | [] => s
  | b :: bs =>
      if s.noLen < NO_BUF_SIZE - 1 then notesLoad (notesPush s b) bs else s

def appNotesOpen (s : Notes) : Notes :=
  let s := { s with noLen := 0 }
  notesRender (match kfsRead s.kfs notesTxt with
    | some d => notesLoad s d
    | none => s)

/-- The end of `app_notes_key`: the autosave, whose result is not looked
at. -/
def notesSave (s : Notes) : Notes :=
  notesRender { s with kfs := (kfsWrite s.kfs notesTxt (buffer s)).1 }

def appNotesKey (s : Notes) (c : Int8) : Notes :=
  if c = 8 then
    notesSave (if 0 < s.noLen then { s with noLen := s.noLen - 1 } else s)
  else if c = 10 ∨ 32 ≤ c then notesSave (notesPush s c.toUInt8)
  else s

/-- What the desktop does with the editor. -/
inductive NotesOp
  | open
  | key (c : Int8)
  deriving DecidableEq, Repr

def notesStep (s : Notes) : NotesOp → Notes
  | .open => appNotesOpen s
  | .key c => appNotesKey s c

/-- The editor as it is when `kfs_init` has run: no text yet. -/
def notesBoot (kfiles : Vector RFile KFS_MAX_FILES) (karena noBuf : Mem) :
    Notes :=
  { kfs := kfsInit kfiles karena, noBuf := noBuf, noLen := 0 }

end Thuos.Gui
