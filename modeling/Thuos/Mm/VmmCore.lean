/-
i386 two-level paging (kernel/mm/vmm_core.c): the entries, the builder of
an identity map and the walk.

A page directory and a page table are arrays of 1024 words in a byte
memory; an entry is a word with a frame address in its high 20 bits and
flags below. All values are 32-bit. The loops end after a known number of
turns and are recursions on that number.
-/
import Thuos.Lib.ByteMem
import Thuos.Lib.Word32

namespace Thuos.Mm

open ByteMem Word32

-- ============================================================ the entries

def PTE_PRESENT : Nat := 0x001

def PTE_RW : Nat := 0x002

def PTE_USER : Nat := 0x004

def PTE_PCD : Nat := 0x010

def VMM_PAGE_SIZE : Nat := 4096

def ADDR_MASK : Nat := 0xFFFFF000

def FLAG_MASK : Nat := 0x00000FFF

def vmmPdeIndex (va : Nat) : Nat := va >>> 22

def vmmPteIndex (va : Nat) : Nat := (va >>> 12) &&& 0x3FF

def vmmOffset (va : Nat) : Nat := va &&& 0xFFF

def vmmMakeEntry (phys flags : Nat) : Nat :=
  (phys &&& ADDR_MASK) ||| (flags &&& FLAG_MASK)

def vmmEntryAddr (entry : Nat) : Nat := entry &&& ADDR_MASK

def vmmEntryPresent (entry : Nat) : Bool := entry &&& PTE_PRESENT ≠ 0

/-- `vmm_set_pde`. -/
def vmmSetPde (m : Mem) (pd va ptPhys flags : Nat) : Mem :=
  m.store32 (pd + 4 * vmmPdeIndex va) (vmmMakeEntry ptPhys flags)

/-- `vmm_set_pte`. -/
def vmmSetPte (m : Mem) (pt va phys flags : Nat) : Mem :=
  m.store32 (pt + 4 * vmmPteIndex va) (vmmMakeEntry phys flags)

-- ============================================================ the builder

/-- Entry `e` of table `t`: a page of the range, or nothing. -/
def identityEntry (pages flags t e : Nat) : Nat :=
  if t * 1024 + e < pages then
    vmmMakeEntry ((t * 1024 + e) <<< 12) (flags ||| PTE_PRESENT)
  else 0

/-- The outer loop of `vmm_identity_map`, tables `0 .. n-1`. -/
def identityTables (m : Mem) (pd pts ptsPhys pages flags : Nat) : Nat → Mem
  | 0 => m
  | t + 1 =>
      let m := identityTables m pd pts ptsPhys pages flags t
      let ptPhys := add32 ptsPhys (mul32 t VMM_PAGE_SIZE)
      let m := m.store32 (pd + 4 * t)
        (vmmMakeEntry ptPhys (flags ||| PTE_PRESENT))
      m.storeWords (pts + 4 * (t * 1024)) (identityEntry pages flags t) 1024

/-- `vmm_identity_map`: the memory afterwards and the number of tables
used. The directory lies at `pd`, the pool of tables at `pts`. -/
def vmmIdentityMap (m : Mem) (pd pts ptsPhys nPts bytes flags : Nat) :
    Mem × Nat :=
  let pages := (sub32 (add32 bytes VMM_PAGE_SIZE) 1) >>> 12
  let needPts := (add32 pages 1023) >>> 10
  if nPts < needPts then (m, 0)
  else
    let m := m.storeWords pd (fun _ => 0) 1024
    (identityTables m pd pts ptsPhys pages flags needPts, needPts)

-- =============================================================== the walk

/-- The table entry that the walk of `vmm_translate` ends at. -/
def vmmWalk (m : Mem) (pd pts ptsPhys va : Nat) : Option Nat :=
  let pde := m.load32 (pd + 4 * vmmPdeIndex va)
  if vmmEntryPresent pde then
    let ptPhys := vmmEntryAddr pde
    let pt := pts + 4 * (sub32 ptPhys ptsPhys / 4)
    let pte := m.load32 (pt + 4 * vmmPteIndex va)
    if vmmEntryPresent pte then some pte else none
  else none

/-- `vmm_translate`: the physical address, if the page is mapped. -/
def vmmTranslate (m : Mem) (pd pts ptsPhys va : Nat) : Option Nat :=
  (vmmWalk m pd pts ptsPhys va).map fun pte =>
    vmmEntryAddr pte ||| vmmOffset va

-- ============================================================= arithmetic

theorem vmmPdeIndex_eq (va : Nat) : vmmPdeIndex va = va / 2 ^ 22 :=
  Nat.shiftRight_eq_div_pow va 22

theorem vmmPteIndex_eq (va : Nat) : vmmPteIndex va = va / 2 ^ 12 % 2 ^ 10 := by
  unfold vmmPteIndex
  rw [Nat.shiftRight_eq_div_pow]
  exact Nat.and_two_pow_sub_one_eq_mod _ 10

theorem vmmOffset_eq (va : Nat) : vmmOffset va = va % 2 ^ 12 :=
  Nat.and_two_pow_sub_one_eq_mod _ 12

theorem vmmEntryAddr_eq {entry : Nat} (h : entry < 2 ^ 32) :
    vmmEntryAddr entry = entry / 2 ^ 12 * 2 ^ 12 :=
  and_high (k := 12) (by decide) h

theorem vmmMakeEntry_eq {phys : Nat} (h : phys < 2 ^ 32) (flags : Nat) :
    vmmMakeEntry phys flags = phys / 2 ^ 12 * 2 ^ 12 + flags % 2 ^ 12 := by
  have hflags : flags &&& FLAG_MASK = flags % 2 ^ 12 :=
    Nat.and_two_pow_sub_one_eq_mod _ 12
  have haddr : phys &&& ADDR_MASK = phys / 2 ^ 12 * 2 ^ 12 :=
    vmmEntryAddr_eq h
  unfold vmmMakeEntry
  rw [hflags, haddr]
  exact or_low _ (Nat.mod_lt _ (by decide))

theorem vmmEntryPresent_iff (entry : Nat) :
    vmmEntryPresent entry = true ↔ entry % 2 = 1 := by
  have hlow : entry &&& PTE_PRESENT = entry % 2 :=
    Nat.and_two_pow_sub_one_eq_mod _ 1
  unfold vmmEntryPresent
  rw [hlow, decide_eq_true_eq]
  omega

/-- An entry made with `PTE_PRESENT` is present, and carries its address
and exactly the low 12 bits of its flags. -/
theorem vmmMakeEntry_present {phys : Nat} (h : phys < 2 ^ 32) (flags : Nat) :
    vmmMakeEntry phys (flags ||| PTE_PRESENT) < 2 ^ 32
      ∧ vmmEntryPresent (vmmMakeEntry phys (flags ||| PTE_PRESENT)) = true
      ∧ vmmEntryAddr (vmmMakeEntry phys (flags ||| PTE_PRESENT))
        = phys / 2 ^ 12 * 2 ^ 12
      ∧ vmmMakeEntry phys (flags ||| PTE_PRESENT) &&& FLAG_MASK
        = (flags ||| PTE_PRESENT) &&& FLAG_MASK := by
  have hodd : (flags ||| PTE_PRESENT) % 2 = 1 := by
    have hbit : (flags ||| PTE_PRESENT).testBit 0 = true := by
      rw [Nat.testBit_or]
      exact Bool.or_true _
    simpa [Nat.testBit_zero] using hbit
  have hmask : ∀ x, x &&& FLAG_MASK = x % 2 ^ 12 :=
    fun x => Nat.and_two_pow_sub_one_eq_mod x 12
  have heq := vmmMakeEntry_eq h (flags ||| PTE_PRESENT)
  generalize flags ||| PTE_PRESENT = f at *
  have hlt : vmmMakeEntry phys f < 2 ^ 32 := by omega
  rw [vmmEntryPresent_iff, vmmEntryAddr_eq hlt, hmask, hmask, heq]
  omega

theorem not_vmmEntryPresent_zero : vmmEntryPresent 0 = false := by decide

end Thuos.Mm
