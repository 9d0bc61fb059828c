/-
The kernel's page tables (kernel/mm/vmm.c): the low identity map and the
two windows above it, one for the framebuffer and one for device
registers.

The directory and the three pools of tables are static arrays;
`VmmLayout` is where the linker put them. The state is the memory and the
flag `ready`. Reloading CR3 after a call flushes cached translations and
stores nothing.
-/
import Thuos.Mm.VmmCore

namespace Thuos.Mm

open ByteMem Word32

def VMM_IDMAP_BYTES : Nat := 8 * 1024 * 1024

def VMM_NPTS : Nat := 2

def VMM_LFB_NPTS : Nat := 8

def VMM_MMIO_NPTS : Nat := 2

def FOURMB : Nat := 4 * 1024 * 1024

/-- Two arrays of so many bytes have no byte in common. -/
def Apart (a n b k : Nat) : Prop := a + n ≤ b ∨ b + k ≤ a

instance (a n b k : Nat) : Decidable (Apart a n b k) :=
  inferInstanceAs (Decidable (a + n ≤ b ∨ b + k ≤ a))

/-- The static arrays: 4 KiB aligned, in the 32-bit space, apart. -/
structure VmmLayout where
  pageDir : Nat
  pageTabs : Nat
  lfbTabs : Nat
  mmioTabs : Nat
  aligned : 4096 ∣ pageDir ∧ 4096 ∣ pageTabs ∧ 4096 ∣ lfbTabs
    ∧ 4096 ∣ mmioTabs
  inside : pageDir + 4096 ≤ 2 ^ 32 ∧ pageTabs + 4096 * 2 ≤ 2 ^ 32
    ∧ lfbTabs + 4096 * 8 ≤ 2 ^ 32 ∧ mmioTabs + 4096 * 2 ≤ 2 ^ 32
  dir_apart : Apart pageDir 4096 pageTabs (4096 * 2)
    ∧ Apart pageDir 4096 lfbTabs (4096 * 8)
    ∧ Apart pageDir 4096 mmioTabs (4096 * 2)
  pools_apart : Apart pageTabs (4096 * 2) lfbTabs (4096 * 8)
    ∧ Apart pageTabs (4096 * 2) mmioTabs (4096 * 2)
    ∧ Apart lfbTabs (4096 * 8) mmioTabs (4096 * 2)

/-- The statics of vmm.c, in memory, and `ready`. -/
structure Vmm where
  mem : Mem
  ready : Bool

/-- `vmm_init`. -/
def vmmInit (L : VmmLayout) (mem : Mem) : Vmm :=
  let r := vmmIdentityMap mem L.pageDir L.pageTabs L.pageTabs VMM_NPTS
    VMM_IDMAP_BYTES (PTE_RW ||| PTE_USER)
  { mem := r.1, ready := r.2 = VMM_NPTS }

/-- The 4 MiB slot a range starts in: `phys & ~(FOURMB - 1)`. -/
def windowBase (phys : Nat) : Nat := phys &&& not32 (FOURMB - 1)

/-- The number of tables a range needs, as both calls compute it. -/
def windowNpts (phys bytes : Nat) : Nat :=
  sub32 (add32 (sub32 (add32 phys bytes) (windowBase phys)) FOURMB) 1 / FOURMB

/-- The loop of both calls, tables `0 .. n-1` of the pool at `tabs`. -/
def mapTables (m : Mem) (pageDir tabs base flags : Nat) : Nat → Mem
  | 0 => m
  | t + 1 =>
      let m := mapTables m pageDir tabs base flags t
      let va := add32 base (mul32 t FOURMB)
      let pt := tabs + 4096 * t
      let m := m.store32 (pageDir + 4 * (va >>> 22))
        (vmmMakeEntry pt (PTE_RW ||| PTE_PRESENT))
      m.storeWords pt
        (fun e => vmmMakeEntry (add32 va (mul32 e VMM_PAGE_SIZE)) flags) 1024

/-- `vmm_map_lfb`: maps the first 32 MiB of a longer range. -/
def vmmMapLfb (L : VmmLayout) (s : Vmm) (phys bytes : Nat) : Vmm × Nat :=
  if ¬ s.ready then (s, 0)
  else
    let base := windowBase phys
    let npts := windowNpts phys bytes
    if npts = 0 then (s, 0)
    else
      let npts := if VMM_LFB_NPTS < npts then VMM_LFB_NPTS else npts
      let mem := mapTables s.mem L.pageDir L.lfbTabs base
        (PTE_RW ||| PTE_PRESENT) npts
      ({ s with mem := mem }, 1)

/-- `vmm_map_mmio`: refuses a range that needs more than its tables. -/
def vmmMapMmio (L : VmmLayout) (s : Vmm) (phys bytes : Nat) : Vmm × Nat :=
  if ¬ s.ready then (s, 0)
  else
    let base := windowBase phys
    let npts := windowNpts phys bytes
    if npts = 0 ∨ VMM_MMIO_NPTS < npts then (s, 0)
    else
      let mem := mapTables s.mem L.pageDir L.mmioTabs base
        (PTE_PCD ||| PTE_RW ||| PTE_PRESENT) npts
      ({ s with mem := mem }, 1)

end Thuos.Mm
