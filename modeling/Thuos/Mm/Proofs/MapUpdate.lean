/-
One entry written, one page or one slot moved.

`TablePool` is what `vmm_translate` walks: a directory and a pool of
tables, each found in the pool by its physical address. A table of the
pool may be reached from several directory entries, so what an entry of
it decides is a set of addresses, one in each slot that points to it
(`Reaches`). The walk reads one word of the directory and one of a table
(`translate_eq`), and both updates store one word, so everything follows
from where words overlap: tables are aligned, hence equal or apart
(`load32_table_setPte`), and the directory lies outside the pool.
-/
import Thuos.Mm.VmmCore

namespace Thuos.Mm

open ByteMem Word32

-- =============================================================== the pool

/-- A page directory at `pd` and a pool of `words` entries at `pts`, with
the physical address of the pool. -/
structure TablePool where
  pd : Nat
  pts : Nat
  ptsPhys : Nat
  words : Nat
  dir_apart : pd + 4096 ≤ pts ∨ pts + 4 * words ≤ pd
  inside : ptsPhys + 4 * words ≤ 2 ^ 32

namespace TablePool

variable (P : TablePool)

/-- `t` is the physical address of a 4 KiB-aligned table of the pool. -/
structure IsTable (t : Nat) : Prop where
  aligned : 4096 ∣ t
  first : P.ptsPhys ≤ t
  last : t + 4096 ≤ P.ptsPhys + 4 * P.words
  entry : 4 ∣ t - P.ptsPhys

/-- The pointer to the table at physical address `t`. -/
def tableAt (t : Nat) : Nat := P.pts + (t - P.ptsPhys)

/-- The directory entry of an address. -/
def pde (m : Mem) (w : Nat) : Nat := m.load32 (P.pd + 4 * vmmPdeIndex w)

/-- Every present directory entry points to a table of the pool. -/
def Sound (m : Mem) : Prop :=
  ∀ w < 2 ^ 32, vmmEntryPresent (P.pde m w) = true →
    P.IsTable (vmmEntryAddr (P.pde m w))

/-- The directory entry of `w` points to the table `t`. -/
def Reaches (m : Mem) (w t : Nat) : Prop :=
  vmmEntryPresent (P.pde m w) = true ∧ vmmEntryAddr (P.pde m w) = t

/-- `vmm_translate`. -/
def translate (m : Mem) (w : Nat) : Option Nat :=
  vmmTranslate m P.pd P.pts P.ptsPhys w

end TablePool

/-- The address that a table entry makes of `w`. -/
def pageOf (pte w : Nat) : Option Nat :=
  if vmmEntryPresent pte then some (vmmEntryAddr pte ||| vmmOffset w)
  else none

-- =============================================================== the walk

variable {P : TablePool} {m : Mem} {t u w va phys flags : Nat}

theorem vmmPdeIndex_lt (hw : w < 2 ^ 32) : vmmPdeIndex w < 1024 := by
  rw [vmmPdeIndex_eq]
  omega

theorem vmmPteIndex_lt (w : Nat) : vmmPteIndex w < 1024 := by
  rw [vmmPteIndex_eq]
  omega

/-- The entry's place in the pool is the table's. -/
theorem TablePool.IsTable.walk (ht : P.IsTable t) :
    P.pts + 4 * (sub32 t P.ptsPhys / 4) = P.tableAt t := by
  have hin := P.inside
  have hfirst := ht.first
  have hlast := ht.last
  have hdiff : sub32 t P.ptsPhys = t - P.ptsPhys :=
    sub32_eq hfirst (by omega)
  unfold TablePool.tableAt
  rw [hdiff, Nat.mul_div_cancel' ht.entry]

/-- Through a table of the pool: what its entry says. -/
theorem translate_of_reaches (ht : P.IsTable t) (hw : P.Reaches m w t) :
    P.translate m w
      = pageOf (m.load32 (P.tableAt t + 4 * vmmPteIndex w)) w := by
  obtain ⟨hpresent, haddr⟩ := hw
  unfold TablePool.pde at hpresent haddr
  unfold TablePool.translate vmmTranslate vmmWalk pageOf
  dsimp only
  rw [if_pos hpresent, haddr, ht.walk]
  split <;> rfl

theorem translate_of_absent
    (hw : vmmEntryPresent (P.pde m w) = false) : P.translate m w = none := by
  unfold TablePool.pde at hw
  unfold TablePool.translate vmmTranslate vmmWalk
  dsimp only
  rw [hw, if_neg Bool.false_ne_true]
  rfl

/-- Two memories with the same directory entry for `w`, and the same table
entry where there is one, translate `w` alike. -/
theorem translate_congr {m' : Mem} (hm : P.Sound m) (hw : w < 2 ^ 32)
    (hpde : P.pde m' w = P.pde m w)
    (hpte : ∀ t, P.IsTable t → P.Reaches m w t →
      m'.load32 (P.tableAt t + 4 * vmmPteIndex w)
        = m.load32 (P.tableAt t + 4 * vmmPteIndex w)) :
    P.translate m' w = P.translate m w := by
  cases hpresent : vmmEntryPresent (P.pde m w) with
  | false =>
      rw [translate_of_absent hpresent,
        translate_of_absent (hpde ▸ hpresent)]
  | true =>
      have ht := hm w hw hpresent
      have hreach : P.Reaches m w (vmmEntryAddr (P.pde m w)) :=
        ⟨hpresent, rfl⟩
      have hreach' : P.Reaches m' w (vmmEntryAddr (P.pde m w)) := by
        unfold TablePool.Reaches
        rw [hpde]
        exact hreach
      rw [translate_of_reaches ht hreach, translate_of_reaches ht hreach',
        hpte _ ht hreach]

-- ============================================================ the updates

/-- Flags with PRESENT set. -/
theorem or_present (hflags : vmmEntryPresent flags = true) :
    flags ||| PTE_PRESENT = flags := by
  have hodd := (vmmEntryPresent_iff flags).mp hflags
  refine Nat.eq_of_testBit_eq fun i => ?_
  cases i with
  | zero =>
      have hbit : flags.testBit 0 = true := by
        rw [Nat.testBit_zero, hodd]
        rfl
      rw [Nat.testBit_or, hbit, Bool.true_or]
  | succ i =>
      have hzero : PTE_PRESENT.testBit (i + 1) = false := by
        rw [Nat.testBit_succ]
        exact Nat.zero_testBit i
      rw [Nat.testBit_or, hzero, Bool.or_false]

/-- An entry made with PRESENT set for an aligned address. -/
theorem vmmMakeEntry_aligned (hphys : phys < 2 ^ 32) (hal : 4096 ∣ phys)
    (hflags : vmmEntryPresent flags = true) :
    vmmMakeEntry phys flags % 2 ^ 32 = vmmMakeEntry phys flags
      ∧ vmmEntryPresent (vmmMakeEntry phys flags) = true
      ∧ vmmEntryAddr (vmmMakeEntry phys flags) = phys := by
  have hentry := vmmMakeEntry_present hphys flags
  rw [or_present hflags] at hentry
  obtain ⟨hlt, hpresent, haddr, -⟩ := hentry
  exact ⟨Nat.mod_eq_of_lt hlt, hpresent,
    haddr.trans (Nat.div_mul_cancel hal)⟩

/-- Such an entry, read back. -/
theorem pageOf_makeEntry (hphys : phys < 2 ^ 32) (hal : 4096 ∣ phys)
    (hflags : vmmEntryPresent flags = true) (w : Nat) :
    pageOf (vmmMakeEntry phys flags % 2 ^ 32) w
      = some (phys + vmmOffset w) := by
  obtain ⟨hmod, hpresent, haddr⟩ := vmmMakeEntry_aligned hphys hal hflags
  have hpage : phys / 2 ^ 12 * 2 ^ 12 = phys := Nat.div_mul_cancel hal
  have hjoin : phys ||| vmmOffset w = phys + vmmOffset w := by
    rw [vmmOffset_eq, ← hpage]
    exact or_low _ (Nat.mod_lt _ (by decide))
  unfold pageOf
  rw [hmod, if_pos hpresent, haddr, hjoin]

/-- The word that `vmm_set_pte` stores lies outside the directory. -/
theorem pde_setPte (ht : P.IsTable t) (hw : w < 2 ^ 32)
    (va phys flags : Nat) :
    P.pde (vmmSetPte m (P.tableAt t) va phys flags) w = P.pde m w := by
  have hdir := P.dir_apart
  have hfirst := ht.first
  have hlast := ht.last
  have hslot := vmmPdeIndex_lt hw
  have hpage := vmmPteIndex_lt va
  unfold TablePool.pde vmmSetPte TablePool.tableAt
  exact Mem.load32_store32_of_disjoint m _ (by omega)

/-- It is one entry of one table. -/
theorem load32_table_setPte (ht : P.IsTable t) (hu : P.IsTable u)
    (hne : ¬(u = t ∧ vmmPteIndex w = vmmPteIndex va)) (phys flags : Nat) :
    (vmmSetPte m (P.tableAt t) va phys flags).load32
        (P.tableAt u + 4 * vmmPteIndex w)
      = m.load32 (P.tableAt u + 4 * vmmPteIndex w) := by
  have hpage := vmmPteIndex_lt va
  have hpage' := vmmPteIndex_lt w
  have hfirst := ht.first
  have hfirst' := hu.first
  -- aligned tables are the same or a whole page apart
  have hapart : u = t ∨ u + 4096 ≤ t ∨ t + 4096 ≤ u := by
    obtain ⟨i, hi⟩ := ht.aligned
    obtain ⟨j, hj⟩ := hu.aligned
    omega
  unfold vmmSetPte TablePool.tableAt
  refine Mem.load32_store32_of_disjoint m _ ?_
  rcases hapart with heq | hlow | hhigh
  · have hindex : vmmPteIndex w ≠ vmmPteIndex va :=
      fun h => hne ⟨heq, h⟩
    omega
  · omega
  · omega

/-- `vmm_set_pde` stores one directory entry. -/
theorem pde_setPde_ne (hne : vmmPdeIndex w ≠ vmmPdeIndex va)
    (t flags : Nat) :
    P.pde (vmmSetPde m P.pd va t flags) w = P.pde m w := by
  unfold TablePool.pde vmmSetPde
  exact Mem.load32_store32_of_disjoint m _ (by omega)

theorem load32_table_setPde (hu : P.IsTable u) (hva : va < 2 ^ 32)
    (t flags w : Nat) :
    (vmmSetPde m P.pd va t flags).load32 (P.tableAt u + 4 * vmmPteIndex w)
      = m.load32 (P.tableAt u + 4 * vmmPteIndex w) := by
  have hdir := P.dir_apart
  have hfirst := hu.first
  have hlast := hu.last
  have hslot := vmmPdeIndex_lt hva
  have hpage := vmmPteIndex_lt w
  unfold vmmSetPde TablePool.tableAt
  exact Mem.load32_store32_of_disjoint m _ (by omega)

/-- The slot points to the table afterwards. -/
theorem reaches_setPde (ht : P.IsTable t)
    (hflags : vmmEntryPresent flags = true)
    (hw : vmmPdeIndex w = vmmPdeIndex va) :
    P.Reaches (vmmSetPde m P.pd va t flags) w t := by
  have hin := P.inside
  have hlast := ht.last
  obtain ⟨hmod, hpresent, haddr⟩ := vmmMakeEntry_aligned
    (show t < 2 ^ 32 by omega) ht.aligned hflags
  have hpde : P.pde (vmmSetPde m P.pd va t flags) w
      = vmmMakeEntry t flags := by
    unfold TablePool.pde vmmSetPde
    rw [hw, Mem.load32_store32, hmod]
  unfold TablePool.Reaches
  rw [hpde]
  exact ⟨hpresent, haddr⟩

-- =============================================================== the claim

/-- Both updates are exact and local, for every directory and pool, every
table and every address. -/
theorem mapping_update_local (hm : P.Sound m) (ht : P.IsTable t)
    (hva : va < 2 ^ 32) (hphys : phys < 2 ^ 32) (hal : 4096 ∣ phys)
    (hflags : vmmEntryPresent flags = true) :
    (∀ w < 2 ^ 32, P.Reaches m w t → vmmPteIndex w = vmmPteIndex va →
      P.translate (vmmSetPte m (P.tableAt t) va phys flags) w
        = some (phys + vmmOffset w))
    ∧ (∀ w < 2 ^ 32, ¬(P.Reaches m w t ∧ vmmPteIndex w = vmmPteIndex va) →
      P.translate (vmmSetPte m (P.tableAt t) va phys flags) w
        = P.translate m w)
    ∧ (∀ w < 2 ^ 32, vmmPdeIndex w ≠ vmmPdeIndex va →
      P.translate (vmmSetPde m P.pd va t flags) w = P.translate m w)
    ∧ ∀ w < 2 ^ 32, vmmPdeIndex w = vmmPdeIndex va →
      P.translate (vmmSetPde m P.pd va t flags) w
        = pageOf (m.load32 (P.tableAt t + 4 * vmmPteIndex w)) w := by
  refine ⟨fun w hw hreach hindex => ?_, fun w hw hother => ?_,
    fun w hw hslot => ?_, fun w _ hslot => ?_⟩
  · have hreach' : P.Reaches (vmmSetPte m (P.tableAt t) va phys flags) w t := by
      unfold TablePool.Reaches
      rw [pde_setPte ht hw]
      exact hreach
    rw [translate_of_reaches ht hreach', hindex]
    unfold vmmSetPte
    rw [Mem.load32_store32]
    exact pageOf_makeEntry hphys hal hflags w
  · refine translate_congr hm hw (pde_setPte ht hw ..) fun u hu hreach => ?_
    refine load32_table_setPte ht hu ?_ phys flags
    rintro ⟨rfl, hindex⟩
    exact hother ⟨hreach, hindex⟩
  · exact translate_congr hm hw (pde_setPde_ne hslot ..) fun u hu _ =>
      load32_table_setPde hu hva ..
  · rw [translate_of_reaches ht (reaches_setPde ht hflags hslot),
      load32_table_setPde ht hva]

/-- A directory at 0x1000 and a pool of two tables at 0x2000, whose
physical address is 1 MiB. -/
def twoTables : TablePool where
  pd := 0x1000
  pts := 0x2000
  ptsPhys := 0x100000
  words := 2048
  dir_apart := by decide
  inside := by decide

/-- The second table entered for 0xC0000000, and 0x200000 mapped there: the
offset is kept. -/
theorem mapping_update_local_offset :
    twoTables.translate
        (vmmSetPte (vmmSetPde (fun _ => 0) twoTables.pd 0xC0000000 0x101000 3)
          (twoTables.tableAt 0x101000) 0xC0000000 0x200000 3) 0xC0000123
      = some 0x200123 := by
  have ht : twoTables.IsTable 0x101000 :=
    ⟨by decide, by decide, by decide, by decide⟩
  have hempty : ∀ w, twoTables.pde (fun _ => 0) w = 0 := fun _ => rfl
  have hsound : twoTables.Sound
      (vmmSetPde (fun _ => 0) twoTables.pd 0xC0000000 0x101000 3) := by
    intro w _ hpresent
    by_cases hw : vmmPdeIndex w = vmmPdeIndex 0xC0000000
    · rw [(reaches_setPde ht (by decide) hw).2]
      exact ht
    · rw [pde_setPde_ne hw, hempty] at hpresent
      exact absurd hpresent (by decide)
  exact (mapping_update_local hsound ht (by decide) (by decide) (by decide)
    (by decide)).1 0xC0000123 (by decide)
    (reaches_setPde ht (by decide) (by decide)) (by decide)

end Thuos.Mm
