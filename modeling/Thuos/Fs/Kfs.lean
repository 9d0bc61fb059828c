/-
The kernel's filesystem (kernel/fs/fs.c): one ramfs over a table of 32
files and an arena of 64 KiB, with two files to start with. The table and
the arena are static, and a call may find anything in them: `kfs_init`
resets the one and overwrites the other as it goes.
-/
import Thuos.Fs.Core

namespace Thuos.Fs

open ByteMem

def KFS_MAX_FILES : Nat := 32

def KFS_ARENA : Nat := 64 * 1024

def welcomeTxt : CStr := CStr.ofString "welcome.txt"

def readmeTxt : CStr := CStr.ofString "readme"

def welcome : CStr :=
  CStr.ofString ("Welcome to the THUOS RAM filesystem.\n"
    ++ "These are real files living in kernel memory.\n"
    ++ "Try:  ls   |   cat readme   |   write notes hello there\n")

def readme : CStr :=
  CStr.ofString ("THUOS local-first ramfs (milestone 0.10).\n"
    ++ "Host-tested core + boot-verified in QEMU.\n"
    ++ "Files are in-memory for now; persistence comes later.\n")

/-- `kfs_write`. -/
def kfsWrite (kfs : Ramfs) (name : CStr) (data : List UInt8) : Ramfs × Int :=
  ramfsWrite kfs name data

/-- `kfs_read`, and the bytes at the pointer it returns. -/
def kfsRead (kfs : Ramfs) (name : CStr) : Option (List UInt8) :=
  readBytes kfs name

/-- `kfs_init`, over what the static table and arena hold. -/
def kfsInit (kfiles : Vector RFile KFS_MAX_FILES) (karena : Mem) : Ramfs :=
  let kfs := ramfsInit kfiles.toList karena KFS_ARENA
  let kfs := (kfsWrite kfs welcomeTxt welcome.chars).1
  (kfsWrite kfs readmeTxt readme.chars).1

end Thuos.Fs
