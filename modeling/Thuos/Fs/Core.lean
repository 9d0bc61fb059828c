/-
The in-memory filesystem (kernel/fs/ramfs_core.c): a fixed table of file
entries over a byte arena, written by bump allocation.

A name is a C string; `rfile_t.name` holds the string its buffer
contains, which `rfs_ncopy` has cut to `RFS_NAME_MAX - 1` bytes. The
arena is a byte memory indexed from `fs->arena`, and the caller's data is
the list of the `len` bytes it points to. `uint32_t` sums carry their
`% 2 ^ 32`, and `ramfs_write` returns the `int` the source casts `len`
to, so a success and the `-1` of a failure are values of one type here
as there.
-/
import Thuos.Lib.Machine
import Thuos.Lib.Table
import Thuos.Lib.ByteMem
import Thuos.Lib.CStr

namespace Thuos.Fs

open Machine ByteMem

-- ============================================================ the state

/-- `RFS_NAME_MAX`. -/
def RFS_NAME_MAX : Nat := 32

/-- `rfile_t`. -/
structure RFile where
  name : CStr
  /-- offset into the arena -/
  off : Nat
  /-- content length in bytes -/
  size : Nat
  used : Bool
  deriving DecidableEq, Repr

/-- What a table read outside the table yields. -/
def noFile : RFile := { name := CStr.empty, off := 0, size := 0, used := false }

/-- `ramfs_t`, with the table and the arena it points to;
`fs->max_files` is the length of the table. The arena and the table are
taken to be apart in memory, and the arena's bytes to be the only ones
that `ramfs_write` copies to: a copy that runs off the end of the arena is
in `arena` past `arenaSz`, and is not seen to reach the table. -/
structure Ramfs where
  files : List RFile
  count : Nat
  arena : Mem
  arenaSz : Nat
  arenaUsed : Nat

namespace Ramfs

def maxFiles (fs : Ramfs) : Nat := fs.files.length

/-- `fs->files[i]`. -/
def file (fs : Ramfs) (i : Nat) : RFile := Table.slot noFile fs.files i

end Ramfs

-- ======================================================= the operations

/-- `rfs_streq`, on the bytes of the two strings. -/
def rfsStreq : List UInt8 → List UInt8 → Bool
  | x :: xs, y :: ys => if x = y then rfsStreq xs ys else false
  | [], [] => true
  | _, _ => false

/-- `rfs_ncopy`: at most `max - 1` bytes and a terminator. -/
def rfsNcopy (src : CStr) (max : Nat) : CStr := src.take (max - 1)

/-- `ramfs_init` over the caller's table and arena. -/
def ramfsInit (files : List RFile) (arena : Mem) (arenaSz : Nat) : Ramfs :=
  { files := files.map fun f => { f with used := false, name := CStr.empty }
    count := 0
    arena := arena
    arenaSz := arenaSz
    arenaUsed := 0 }

/-- `ramfs_find`: `none` is the source's `-1`. -/
def ramfsFind (fs : Ramfs) (name : CStr) : Option Nat :=
  fs.files.findIdx? fun f => f.used && rfsStreq f.name.chars name.chars

/-- `ramfs_alloc_slot`: the slot that holds `name`, or the first free one
named after it. -/
def ramfsAllocSlot (fs : Ramfs) (name : CStr) : Ramfs × Option Nat :=
  match ramfsFind fs name with
  | some idx => (fs, some idx)
  | none =>
      match fs.files.findIdx? fun f => !f.used with
      | some i =>
          ({ fs with
              files := fs.files.set i
                { name := rfsNcopy name RFS_NAME_MAX, off := 0, size := 0,
                  used := true }
              count := fs.count + 1 }, some i)
      | none => (fs, none)

/-- The copy loop of `ramfs_write`: `arena[off + i] = src[i]`. -/
def copyIn (arena : Mem) (off : Nat) : List UInt8 → Mem
  | [] => arena
  | b :: bs => copyIn (arena.set (off % 2 ^ 32) b) (off + 1) bs

/-- The conversion `(int)len` of a `uint32_t`. -/
def toInt32 (n : Nat) : Int := if n < 2 ^ 31 then n else n - 2 ^ 32

/-- `ramfs_write`: the state after the call and the value returned. -/
def ramfsWrite (fs : Ramfs) (name : CStr) (data : List UInt8) : Ramfs × Int :=
  if name.chars = [] then (fs, -1)
  else if fs.arenaSz < (fs.arenaUsed + data.length) % 2 ^ 32 then (fs, -1)
  else
    match ramfsAllocSlot fs name with
    | (fs, none) => (fs, -1)
    | (fs, some idx) =>
        let off := fs.arenaUsed
        ({ fs with
            arena := copyIn fs.arena off data
            arenaUsed := (fs.arenaUsed + data.length) % 2 ^ 32
            files := fs.files.set idx
              { fs.file idx with off := off, size := data.length } },
          toInt32 data.length)

/-- `ramfs_read`: offset into the arena and length, `none` for NULL. -/
def ramfsRead (fs : Ramfs) (name : CStr) : Option (Nat × Nat) :=
  (ramfsFind fs name).map fun idx => ((fs.file idx).off, (fs.file idx).size)

/-- The bytes a reader finds at the pointer `ramfs_read` returns, over
the length it reports. -/
def readBytes (fs : Ramfs) (name : CStr) : Option (List UInt8) :=
  (ramfsRead fs name).map fun p => fs.arena.read p.1 p.2

/-- `ramfs_name`: `none` for NULL. -/
def ramfsName (fs : Ramfs) (i : Nat) : Option CStr :=
  if i < fs.maxFiles ∧ (fs.file i).used = true then some (fs.file i).name
  else none

-- ============================================== what each call does

theorem rfsStreq_iff {xs ys : List UInt8} :
    rfsStreq xs ys = true ↔ xs = ys := by
  induction xs generalizing ys with
  | nil =>
      cases ys with
      | nil => simp [rfsStreq]
      | cons y ys => simp [rfsStreq]
  | cons x xs ih =>
      cases ys with
      | nil => simp [rfsStreq]
      | cons y ys =>
          rw [rfsStreq]
          split
          · next hxy => rw [ih, hxy, List.cons.injEq, eq_self, true_and]
          · next hxy => simp [hxy]

theorem ramfsFind_eq_some {fs : Ramfs} {name : CStr} {i : Nat}
    (h : ramfsFind fs name = some i) :
    i < fs.maxFiles ∧ (fs.file i).used = true ∧ (fs.file i).name = name := by
  obtain ⟨hi, hp, -⟩ := Table.findIdx_eq_some_iff (d := noFile).mp h
  rw [Bool.and_eq_true, rfsStreq_iff] at hp
  exact ⟨hi, hp.1, CStr.ext_chars hp.2⟩

theorem ramfsFind_eq_none_iff {fs : Ramfs} {name : CStr} :
    ramfsFind fs name = none
      ↔ ∀ i < fs.maxFiles, (fs.file i).used = true →
          (fs.file i).name ≠ name := by
  unfold ramfsFind
  rw [Table.findIdx_eq_none_iff (d := noFile)]
  refine ⟨fun h i hi hu hn => ?_, fun h i hi => ?_⟩
  · have := h i hi
    rw [show Table.slot noFile fs.files i = fs.file i from rfl, hu, hn,
      Bool.true_and, rfsStreq_iff.mpr rfl] at this
    exact absurd this (by decide)
  · rw [Bool.eq_false_iff]
    intro hp
    rw [Bool.and_eq_true, rfsStreq_iff] at hp
    exact h i hi hp.1 (CStr.ext_chars hp.2)

/-- Without wrap-around the copy loop is one write. -/
theorem copyIn_eq_write {bs : List UInt8} {arena : Mem} {off : Nat}
    (h : off + bs.length ≤ 2 ^ 32) :
    copyIn arena off bs = arena.write off bs := by
  induction bs generalizing arena off with
  | nil => rfl
  | cons b bs ih =>
      rw [List.length_cons] at h
      rw [copyIn, Nat.mod_eq_of_lt (by omega), ih (by omega)]
      rfl

/-- The slot a write of `name` goes to: the one that holds the name, or a
free one when none does. -/
def SlotFor (fs : Ramfs) (name : CStr) (idx : Nat) : Prop :=
  idx < fs.maxFiles
    ∧ (ramfsFind fs name = some idx
      ∨ (ramfsFind fs name = none ∧ (fs.file idx).used = false))

/-- The state a successful write leaves. -/
def written (fs : Ramfs) (name : CStr) (data : List UInt8) (idx : Nat) :
    Ramfs :=
  { files := fs.files.set idx
      { name := if ramfsFind fs name = none then rfsNcopy name RFS_NAME_MAX
          else name
        off := fs.arenaUsed
        size := data.length
        used := true }
    count := if ramfsFind fs name = none then fs.count + 1 else fs.count
    arena := fs.arena.write fs.arenaUsed data
    arenaSz := fs.arenaSz
    arenaUsed := fs.arenaUsed + data.length }

/-- The write finds no room: the arena is too small, or the name is new
and the table is full. -/
def NoRoom (fs : Ramfs) (name : CStr) (data : List UInt8) : Prop :=
  fs.arenaSz < fs.arenaUsed + data.length
    ∨ (ramfsFind fs name = none
      ∧ ∀ i < fs.maxFiles, (fs.file i).used = true)

/-- The state any write that got a slot leaves: `written`, but the copy and
the fill level wrap where the code's sums do. -/
def stored (fs : Ramfs) (name : CStr) (data : List UInt8) (idx : Nat) :
    Ramfs :=
  { written fs name data idx with
    arena := copyIn fs.arena fs.arenaUsed data
    arenaUsed := (fs.arenaUsed + data.length) % 2 ^ 32 }

theorem stored_eq_written {fs : Ramfs} {name : CStr} {data : List UInt8}
    {idx : Nat} (hwrap : fs.arenaUsed + data.length < 2 ^ 32) :
    stored fs name data idx = written fs name data idx := by
  unfold stored written
  rw [copyIn_eq_write (by omega), Nat.mod_eq_of_lt hwrap]

/-- What makes `ramfs_write` refuse a call: an empty name, the arena check
on the wrapped sum, or a new name and a full table. -/
def Refused (fs : Ramfs) (name : CStr) (data : List UInt8) : Prop :=
  name.chars = []
    ∨ fs.arenaSz < (fs.arenaUsed + data.length) % 2 ^ 32
    ∨ (ramfsFind fs name = none
      ∧ ∀ i < fs.maxFiles, (fs.file i).used = true)

instance (fs : Ramfs) (name : CStr) (data : List UInt8) :
    Decidable (Refused fs name data) :=
  inferInstanceAs (Decidable (_ ∨ _ ∨ (_ ∧ ∀ i < fs.maxFiles, _)))

/-- A slot for the name is found or free, so the table is not full of other
names. -/
theorem SlotFor.not_full {fs : Ramfs} {name : CStr} {idx : Nat}
    (h : SlotFor fs name idx) :
    ¬(ramfsFind fs name = none
      ∧ ∀ i < fs.maxFiles, (fs.file i).used = true) := by
  rintro ⟨hnone, hfull⟩
  obtain ⟨hi, hfind | ⟨-, hfree⟩⟩ := h
  · rw [hfind] at hnone
    exact nomatch hnone
  · rw [hfull idx hi] at hfree
    exact nomatch hfree

/-- The slot search: a full table, the slot that holds the name, or a free
one named after it. -/
theorem ramfsAllocSlot_cases (fs : Ramfs) (name : CStr) :
    ((ramfsFind fs name = none ∧ ∀ i < fs.maxFiles, (fs.file i).used = true)
        ∧ ramfsAllocSlot fs name = (fs, none))
      ∨ ∃ idx, SlotFor fs name idx
        ∧ ((ramfsFind fs name = some idx
            ∧ ramfsAllocSlot fs name = (fs, some idx))
          ∨ (ramfsFind fs name = none
            ∧ ramfsAllocSlot fs name
              = ({ fs with
                  files := fs.files.set idx
                    { name := rfsNcopy name RFS_NAME_MAX, off := 0, size := 0,
                      used := true }
                  count := fs.count + 1 }, some idx))) := by
  unfold ramfsAllocSlot
  cases hfind : ramfsFind fs name with
  | some idx =>
      obtain ⟨hi, -, -⟩ := ramfsFind_eq_some hfind
      exact Or.inr ⟨idx, ⟨hi, Or.inl hfind⟩, Or.inl ⟨rfl, rfl⟩⟩
  | none =>
      cases hfree : fs.files.findIdx? fun f => !f.used with
      | some i =>
          obtain ⟨hi, hu, -⟩ := Table.findIdx_eq_some_iff (d := noFile).mp hfree
          have hu' : (fs.file i).used = false := by
            simpa [Ramfs.file] using hu
          exact Or.inr ⟨i, ⟨hi, Or.inr ⟨hfind, hu'⟩⟩, Or.inr ⟨rfl, rfl⟩⟩
      | none =>
          have hfull := Table.findIdx_eq_none_iff (d := noFile).mp hfree
          refine Or.inl ⟨⟨rfl, fun i hi => ?_⟩, rfl⟩
          simpa [Ramfs.file] using hfull i hi

/-- What `ramfs_write` does, for every name and every length: it refuses
and changes nothing, or it stores the data in a slot for the name. -/
theorem ramfsWrite_any (fs : Ramfs) (name : CStr) (data : List UInt8) :
    (Refused fs name data ∧ ramfsWrite fs name data = (fs, -1))
      ∨ (¬Refused fs name data ∧ ∃ idx, SlotFor fs name idx
          ∧ ramfsWrite fs name data
            = (stored fs name data idx, toInt32 data.length)) := by
  unfold ramfsWrite
  by_cases hname : name.chars = []
  · rw [if_pos hname]
    exact Or.inl ⟨Or.inl hname, rfl⟩
  rw [if_neg hname]
  by_cases harena : fs.arenaSz < (fs.arenaUsed + data.length) % 2 ^ 32
  · rw [if_pos harena]
    exact Or.inl ⟨Or.inr (Or.inl harena), rfl⟩
  rw [if_neg harena]
  rcases ramfsAllocSlot_cases fs name with
    ⟨hfull, halloc⟩ | ⟨idx, hslot, halloc⟩
  · rw [halloc]
    exact Or.inl ⟨Or.inr (Or.inr hfull), rfl⟩
  · have hno : ¬Refused fs name data := by
      rintro (h | h | h)
      · exact hname h
      · exact harena h
      · exact hslot.not_full h
    refine Or.inr ⟨hno, idx, hslot, ?_⟩
    rcases halloc with ⟨hfind, halloc⟩ | ⟨hfind, halloc⟩
    · obtain ⟨-, hu, hn⟩ := ramfsFind_eq_some hfind
      simp only [halloc, stored, written, hfind, reduceCtorEq, if_false]
      simp only [← hn, ← hu]
    · simp only [halloc, stored, written, hfind, if_true, List.set_set]
      simp only [Ramfs.file, Table.slot_set_self hslot.1]

/-- What `ramfs_write` does with a non-empty name and no wrap-around: it
refuses and changes nothing, or it stores the data in a slot for the
name. -/
theorem ramfsWrite_spec {fs : Ramfs} {name : CStr} {data : List UInt8}
    (hname : name.chars ≠ []) (hwrap : fs.arenaUsed + data.length < 2 ^ 32) :
    (NoRoom fs name data ∧ ramfsWrite fs name data = (fs, -1))
      ∨ (¬NoRoom fs name data ∧ ∃ idx, SlotFor fs name idx
          ∧ ramfsWrite fs name data
            = (written fs name data idx, toInt32 data.length)) := by
  rcases ramfsWrite_any fs name data with
    ⟨hno, hw⟩ | ⟨hno, idx, hslot, hw⟩
  · refine Or.inl ⟨?_, hw⟩
    rcases hno with h | h | h
    · exact absurd h hname
    · rw [Nat.mod_eq_of_lt hwrap] at h
      exact Or.inl h
    · exact Or.inr h
  · rw [stored_eq_written hwrap] at hw
    refine Or.inr ⟨fun h => hno ?_, idx, hslot, hw⟩
    rcases h with h | h
    · rw [← Nat.mod_eq_of_lt hwrap] at h
      exact Or.inr (Or.inl h)
    · exact Or.inr (Or.inr h)

end Thuos.Fs
