/-
The physical memory manager (kernel/mm/pmm.c): a static bitmap of 4 KiB
frames, filled from the Multiboot memory map and handed out frame by
frame.

`pmm_init` reads the Multiboot structures out of physical memory (a byte
memory, `readInfo` and `readEntry`), so its input is what the loader
left there. The static variables of the file are the fields of `Pmm`;
they lie in the kernel image, where the loader puts no boot structure,
so the bitmap is a memory of its own.
The entry loop moves its pointer by a size it reads from memory and need
not end, so it runs on fuel and `pmmInit` is an `Option`. The bounds of
the kernel image come from the linker script, which is not C code:
`KernelImage` records what it fixes.

`uint32_t` and `uint64_t` sums and casts carry their `%`.
-/
import Thuos.Lib.Machine
import Thuos.Mm.FrameBitmap

namespace Thuos.Mm

open ByteMem

-- ============================================== constants and boot data

/-- `PMM_PAGE_SIZE`. -/
def PAGE_SIZE : Nat := 4096

/-- 4 GiB / 4 KiB. -/
def MAX_FRAMES : Nat := 0x100000

/-- The first 1 MiB is always protected. -/
def LOW_MEMORY : Nat := 0x100000

def MAX_PROT : Nat := 6

def MULTIBOOT_BOOTLOADER_MAGIC : Nat := 0x2BADB002

def MB_FLAG_MEM : Nat := 0x00000001

def MB_FLAG_MMAP : Nat := 0x00000040

def MB_MEMORY_AVAILABLE : Nat := 1

def MB_MEMORY_ACPI_RECLAIMABLE : Nat := 3

def MB_MEMORY_NVS : Nat := 4

def MB_MEMORY_BADRAM : Nat := 5

/-- `sizeof(multiboot_info_t)`, a packed struct. -/
def MBI_SIZE : Nat := 116

/-- `thuos_kernel_start` and `thuos_kernel_end`. The linker script loads
the image at 1 MiB and ends it after `.bss`; an image that reached the
last page of the address space could not be loaded. -/
structure KernelImage where
  start : Nat
  fin : Nat
  start_eq : start = 0x100000
  start_lt : start < fin
  fin_le : fin ≤ 0xFFFFF000

/-- The fields of `multiboot_info_t` that the memory manager reads. -/
structure MultibootInfo where
  flags : Nat
  memLower : Nat
  memUpper : Nat
  mmapLength : Nat
  mmapAddr : Nat

/-- `multiboot_info_t` at a physical address. -/
def readInfo (mem : Mem) (a : Nat) : MultibootInfo :=
  { flags := mem.load32 a
    memLower := mem.load32 (a + 4)
    memUpper := mem.load32 (a + 8)
    mmapLength := mem.load32 (a + 44)
    mmapAddr := mem.load32 (a + 48) }

/-- `multiboot_mmap_entry_t`. -/
structure MmapEntry where
  size : Nat
  addr : Nat
  len : Nat
  type : Nat
  deriving DecidableEq, Repr

/-- `multiboot_mmap_entry_t` at a physical address. -/
def readEntry (mem : Mem) (a : Nat) : MmapEntry :=
  { size := mem.load32 a
    addr := mem.load64 (a + 4)
    len := mem.load64 (a + 12)
    type := mem.load32 (a + 20) }

-- ============================================================ the state

/-- The static variables of pmm.c; `prot` holds the `prot_count` recorded
ranges. -/
structure Pmm where
  bitmap : Mem
  totalFrames : Nat
  usableFrames : Nat
  reservedFrames : Nat
  usableBytes : Nat
  memLowerKb : Nat
  memUpperKb : Nat
  mmapAddrSaved : Nat
  mmapLenSaved : Nat
  haveMap : Bool
  prot : List (Nat × Nat)

-- ======================================================= initialisation

/-- `for (f = f0; f < f1 && f < MAX_FRAMES; f++) fb_mark_free(...)`. -/
def markFreeFrames (bm : Mem) (f0 f1 : Nat) : Mem :=
  (List.range' f0 (min f1 MAX_FRAMES - f0)).foldl fbMarkFree bm

/-- What the entry loop of `pmm_init` accumulates. -/
@[ext]
structure Scan where
  bitmap : Mem
  highest : Nat
  usableBytes : Nat

/-- The body of the entry loop of `pmm_init`. -/
def scanEntry (acc : Scan) (e : MmapEntry) : Scan :=
  if e.type = MB_MEMORY_AVAILABLE then
    let rstart := e.addr
    let rend := (e.addr + e.len) % 2 ^ 64
    let rend := if 0x100000000 < rend then 0x100000000 else rend
    { highest := if acc.highest < rend then rend % 2 ^ 32 else acc.highest
      usableBytes := (acc.usableBytes + e.len % 2 ^ 32) % 2 ^ 32
      bitmap := markFreeFrames acc.bitmap (rstart / PAGE_SIZE % 2 ^ 32)
        (rend / PAGE_SIZE % 2 ^ 32) }
  else acc

/-- The entry loop of `pmm_init`: `none` when the fuel runs out. -/
def scanMap (mem : Mem) (fin : Nat) : Nat → Nat → Scan → Option Scan
  | 0, _, _ => none
  | fuel + 1, ptr, acc =>
      if ptr < fin then
        let e := readEntry mem ptr
        scanMap mem fin fuel ((ptr + (e.size + 4) % 2 ^ 32) % 2 ^ 32)
          (scanEntry acc e)
      else some acc

/-- The loop body of `reserve_range`: a free frame is flipped to used. -/
def reserveFrame (s : Pmm) (f : Nat) : Pmm :=
  if fbTest s.bitmap f then s
  else { s with bitmap := fbMarkUsed s.bitmap f
                reservedFrames := s.reservedFrames + 1 }

/-- `reserve_range`. -/
def reserveRange (s : Pmm) (start fin : Nat) : Pmm :=
  if fin ≤ start then s
  else
    let f0 := start / PAGE_SIZE
    let f1 := (fin + PAGE_SIZE - 1) % 2 ^ 32 / PAGE_SIZE
    let s :=
      (List.range' f0 (min f1 s.totalFrames - f0)).foldl reserveFrame s
    if s.prot.length < MAX_PROT then
      { s with prot := s.prot ++ [(start, fin)] }
    else s

/-- The state at the top of `pmm_init`: everything zero, every frame
used. -/
def pmmReset (bm : Mem) : Pmm :=
  { bitmap := fbInit bm MAX_FRAMES
    totalFrames := 0
    usableFrames := 0
    reservedFrames := 0
    usableBytes := 0
    memLowerKb := 0
    memUpperKb := 0
    mmapAddrSaved := 0
    mmapLenSaved := 0
    haveMap := false
    prot := [] }

/-- The part of `pmm_init` that finds memory: the state and `highest`
before the totals are set. -/
def findMemory (fuel : Nat) (bm mem : Mem) (mbi : MultibootInfo) :
    Option (Pmm × Nat) :=
  let s := pmmReset bm
  let s :=
    if mbi.flags &&& MB_FLAG_MEM ≠ 0 then
      { s with memLowerKb := mbi.memLower, memUpperKb := mbi.memUpper }
    else s
  if mbi.flags &&& MB_FLAG_MMAP ≠ 0 then
    let fin := (mbi.mmapAddr + mbi.mmapLength) % 2 ^ 32
    (scanMap mem fin fuel mbi.mmapAddr
        { bitmap := s.bitmap, highest := 0, usableBytes := 0 }).map fun acc =>
      ({ s with haveMap := true
                mmapAddrSaved := mbi.mmapAddr
                mmapLenSaved := mbi.mmapLength
                bitmap := acc.bitmap
                usableBytes := acc.usableBytes }, acc.highest)
  else if mbi.flags &&& MB_FLAG_MEM ≠ 0 then
    -- contiguous RAM from 1 MiB up to mem_upper
    let highest := (LOW_MEMORY + mbi.memUpper * 1024 % 2 ^ 32) % 2 ^ 32
    some ({ s with usableBytes := mbi.memUpper * 1024 % 2 ^ 32
                   bitmap := markFreeFrames s.bitmap (LOW_MEMORY / PAGE_SIZE)
                     (highest / PAGE_SIZE) }, highest)
  else some (s, 0)

/-- `total_frames` and `usable_frames`. -/
def setTotals (s : Pmm) (highest : Nat) : Pmm :=
  let total :=
    if MAX_FRAMES < highest / PAGE_SIZE then MAX_FRAMES
    else highest / PAGE_SIZE
  { s with totalFrames := total
           usableFrames := fbCountFree s.bitmap total }

/-- The reservations at the end of `pmm_init`. -/
def reserveAll (img : KernelImage) (mbInfoAddr : Nat) (s : Pmm) : Pmm :=
  let s := reserveRange s 0 LOW_MEMORY
  let s := reserveRange s img.start img.fin
  let s := reserveRange s mbInfoAddr ((mbInfoAddr + MBI_SIZE) % 2 ^ 32)
  if s.mmapLenSaved ≠ 0 then
    reserveRange s s.mmapAddrSaved
      ((s.mmapAddrSaved + s.mmapLenSaved) % 2 ^ 32)
  else s

/-- `pmm_init`, over whatever the bitmap held before. -/
def pmmInit (fuel : Nat) (img : KernelImage) (bm mem : Mem)
    (magic mbInfoAddr : Nat) : Option Pmm :=
  if magic ≠ MULTIBOOT_BOOTLOADER_MAGIC ∨ mbInfoAddr = 0 then
    some (pmmReset bm)
  else
    (findMemory fuel bm mem (readInfo mem mbInfoAddr)).map fun r =>
      reserveAll img mbInfoAddr (setTotals r.1 r.2)

-- ============================================= allocation and statistics

/-- `pmm_alloc_frame`: the state after the call and the address, 0 for
"no memory". -/
def pmmAllocFrame (s : Pmm) : Pmm × Nat :=
  if s.totalFrames = 0 then (s, 0)
  else
    let r := fbAlloc s.bitmap s.totalFrames
    if r.2 = FB_NONE then ({ s with bitmap := r.1 }, 0)
    else ({ s with bitmap := r.1 }, r.2 * PAGE_SIZE % 2 ^ 32)

/-- `pmm_is_protected`. -/
def pmmIsProtected (s : Pmm) (a : Nat) : Bool :=
  s.prot.any fun r => r.1 ≤ a && a < r.2

/-- `pmm_free_frame`: the state after the call and the code returned. -/
def pmmFreeFrame (s : Pmm) (a : Nat) : Pmm × Int :=
  if a % PAGE_SIZE ≠ 0 then (s, -1)
  else if s.totalFrames ≤ a / PAGE_SIZE then (s, -1)
  else if pmmIsProtected s a then (s, -2)
  else if !fbTest s.bitmap (a / PAGE_SIZE) then (s, -3)
  else ({ s with bitmap := fbMarkFree s.bitmap (a / PAGE_SIZE) }, 0)

/-- `pmm_free_frames`. -/
def pmmFreeFrames (s : Pmm) : Nat := fbCountFree s.bitmap s.totalFrames

/-- `pmm_used_frames`: a `uint32_t` difference. -/
def pmmUsedFrames (s : Pmm) : Nat :=
  (s.usableFrames + 2 ^ 32 - pmmFreeFrames s) % 2 ^ 32

-- ============================================================ diagnostics

/-- `mmap_type_name`. -/
def mmapTypeName (type : Nat) : String :=
  if type = MB_MEMORY_AVAILABLE then "available"
  else if type = MB_MEMORY_ACPI_RECLAIMABLE then "ACPI-reclaim"
  else if type = MB_MEMORY_NVS then "ACPI-NVS"
  else if type = MB_MEMORY_BADRAM then "bad RAM"
  else "reserved"

/-- The arguments of the line `"  0x%08x  0x%08x  %s"` that
`pmm_print_mmap` prints for an entry. -/
structure MmapLine where
  base : Nat
  length : Nat
  type : String
  deriving DecidableEq, Repr

def mmapLine (e : MmapEntry) : MmapLine :=
  { base := e.addr % 2 ^ 32
    length := e.len % 2 ^ 32
    type := mmapTypeName e.type }

/-- The entry loop of `pmm_print_mmap`: the lines printed so far, and
those of the entries from `ptr` on. -/
def printEntries (mem : Mem) (fin : Nat) :
    Nat → Nat → List MmapLine → Option (List MmapLine)
  | 0, _, _ => none
  | fuel + 1, ptr, out =>
      if ptr < fin then
        let e := readEntry mem ptr
        printEntries mem fin fuel ((ptr + (e.size + 4) % 2 ^ 32) % 2 ^ 32)
          (out ++ [mmapLine e])
      else some out

/-- What `pmm_print_mmap` prints: that there is no map, with the low and
high KiB of the fallback hint if there is one, or a line for each
entry. -/
inductive MmapReport
  | noMap (hint : Option (Nat × Nat))
  | entries (lines : List MmapLine)
  deriving DecidableEq, Repr

/-- `pmm_print_mmap`. -/
def pmmPrintMmap (fuel : Nat) (mem : Mem) (s : Pmm) : Option MmapReport :=
  if s.mmapLenSaved = 0 then
    some (.noMap
      (if s.memUpperKb ≠ 0 then some (s.memLowerKb, s.memUpperKb) else none))
  else
    (printEntries mem ((s.mmapAddrSaved + s.mmapLenSaved) % 2 ^ 32) fuel
      s.mmapAddrSaved []).map .entries

end Thuos.Mm
