/-
What `vmm_identity_map` builds, `vmm_translate` reads.

`Built` says which words the two loops have stored after `n` tables, for
any memory they start from: every directory entry and every table entry
is accounted for, stale or not. One turn of the outer loop keeps it
(`built_step`), so the whole map is known word by word, and the walk is
arithmetic on two indices (`identity_map_correct`).
-/
import Thuos.Mm.VmmCore

namespace Thuos.Mm

open ByteMem Word32

-- ============================================================ the builder

/-- The words of the map after the tables `0 .. n-1`: directory at `pd`,
pool at `pts`, starting from memory `m`. -/
structure Built (m m' : Mem) (pd pts ptsPhys pages flags n : Nat) :
    Prop where
  pde : ∀ k < n, m'.load32 (pd + 4 * k)
    = vmmMakeEntry (ptsPhys + 4096 * k) (flags ||| PTE_PRESENT)
  pde_above : ∀ k, n ≤ k → k < 1024 →
    m'.load32 (pd + 4 * k) = m.load32 (pd + 4 * k)
  pte : ∀ t < n, ∀ e < 1024, m'.load32 (pts + 4096 * t + 4 * e)
    = identityEntry pages flags t e
  outside : ∀ x, (x < pd ∨ pd + 4096 ≤ x) →
    (x < pts ∨ pts + 4096 * n ≤ x) → m' x = m x

variable {m m' : Mem} {pd pts ptsPhys pages flags n : Nat}

theorem vmmMakeEntry_lt {phys : Nat} (h : phys < 2 ^ 32) (flags : Nat) :
    vmmMakeEntry phys flags < 2 ^ 32 := by
  rw [vmmMakeEntry_eq h]
  omega

/-- The address of a page below 2^20. -/
theorem page_shift {page : Nat} (h : page < 2 ^ 20) :
    page <<< 12 = page * 2 ^ 12 ∧ page <<< 12 < 2 ^ 32 := by
  rw [Nat.shiftLeft_eq]
  omega

theorem identityEntry_lt (hpages : pages ≤ 2 ^ 20) (flags t e : Nat) :
    identityEntry pages flags t e < 2 ^ 32 := by
  unfold identityEntry
  split
  · exact vmmMakeEntry_lt (page_shift (by omega)).2 _
  · exact Nat.two_pow_pos 32

/-- One turn of the outer loop. -/
theorem built_step (hpages : pages ≤ 2 ^ 20) (hn : n < 1024)
    (hpool : ptsPhys + 4096 * (n + 1) ≤ 2 ^ 32)
    (hapart : pd + 4096 ≤ pts ∨ pts + 4096 * (n + 1) ≤ pd)
    (h : Built m m' pd pts ptsPhys pages flags n) :
    Built m ((m'.store32 (pd + 4 * n)
        (vmmMakeEntry (add32 ptsPhys (mul32 n VMM_PAGE_SIZE))
          (flags ||| PTE_PRESENT))).storeWords (pts + 4 * (n * 1024))
        (identityEntry pages flags n) 1024)
      pd pts ptsPhys pages flags (n + 1) := by
  have hphys : add32 ptsPhys (mul32 n VMM_PAGE_SIZE) = ptsPhys + 4096 * n := by
    unfold add32 mul32 VMM_PAGE_SIZE
    omega
  have htab : pts + 4 * (n * 1024) = pts + 4096 * n := by omega
  have hlow : ptsPhys + 4096 * n < 2 ^ 32 := by omega
  have hentry := vmmMakeEntry_lt hlow (flags ||| PTE_PRESENT)
  rw [hphys, htab]
  refine ⟨fun k hk => ?_, fun k hk hk' => ?_, fun t ht e he => ?_,
    fun x hx hx' => ?_⟩
  · rw [Mem.load32_storeWords_of_disjoint (by omega)]
    by_cases hkn : k = n
    · rw [hkn, Mem.load32_store32, Nat.mod_eq_of_lt hentry]
    · rw [Mem.load32_store32_of_disjoint _ _ (by omega)]
      exact h.pde k (by omega)
  · rw [Mem.load32_storeWords_of_disjoint (by omega),
      Mem.load32_store32_of_disjoint _ _ (by omega)]
    exact h.pde_above k (by omega) hk'
  · by_cases htn : t = n
    · rw [htn, Mem.load32_storeWords he]
      exact Nat.mod_eq_of_lt (identityEntry_lt hpages flags n e)
    · rw [Mem.load32_storeWords_of_disjoint (by omega),
        Mem.load32_store32_of_disjoint _ _ (by omega)]
      exact h.pte t (by omega) e he
  · rw [Mem.storeWords_outside (by omega),
      Mem.store32_outside _ _ (by omega)]
    exact h.outside x hx (by omega)

/-- The outer loop, all turns. -/
theorem built_identityTables (hpages : pages ≤ 2 ^ 20) (hn : n ≤ 1024)
    (hpool : ptsPhys + 4096 * n ≤ 2 ^ 32)
    (hapart : pd + 4096 ≤ pts ∨ pts + 4096 * n ≤ pd) :
    Built m (identityTables m pd pts ptsPhys pages flags n)
      pd pts ptsPhys pages flags n := by
  induction n with
  | zero =>
      exact ⟨fun k hk => absurd hk (Nat.not_lt_zero k), fun _ _ _ => rfl,
        fun t ht => absurd ht (Nat.not_lt_zero t), fun _ _ _ => rfl⟩
  | succ n ih =>
      exact built_step hpages (by omega) hpool hapart
        (ih (by omega) (by omega) (by omega))

/-- `vmm_identity_map`, its arithmetic done. -/
theorem vmmIdentityMap_eq {nPts bytes : Nat} (m : Mem)
    (hbytes : bytes ≤ 0xFFFFF000) :
    vmmIdentityMap m pd pts ptsPhys nPts bytes flags
      = if nPts < ((bytes + 4095) / 4096 + 1023) / 1024 then (m, 0)
        else
          (identityTables (m.storeWords pd (fun _ => 0) 1024) pd pts ptsPhys
            ((bytes + 4095) / 4096) flags
            (((bytes + 4095) / 4096 + 1023) / 1024),
          ((bytes + 4095) / 4096 + 1023) / 1024) := by
  have hpages : sub32 (add32 bytes VMM_PAGE_SIZE) 1 >>> 12
      = (bytes + 4095) / 4096 := by
    rw [Nat.shiftRight_eq_div_pow]
    unfold sub32 add32 VMM_PAGE_SIZE
    omega
  have hneed : add32 ((bytes + 4095) / 4096) 1023 >>> 10
      = ((bytes + 4095) / 4096 + 1023) / 1024 := by
    rw [Nat.shiftRight_eq_div_pow]
    unfold add32
    omega
  unfold vmmIdentityMap
  dsimp only
  rw [hpages, hneed]

-- =============================================================== the walk

/-- The walk through a directory entry and a table entry that are both
known. -/
theorem vmmWalk_of_entries {va pde pte : Nat}
    (hpde : m.load32 (pd + 4 * (va / 2 ^ 22)) = pde)
    (hpresent : vmmEntryPresent pde = true)
    (hpte : m.load32 (pts + 4 * (sub32 (vmmEntryAddr pde) ptsPhys / 4)
      + 4 * (va / 2 ^ 12 % 2 ^ 10)) = pte) :
    vmmWalk m pd pts ptsPhys va
      = if vmmEntryPresent pte then some pte else none := by
  unfold vmmWalk
  dsimp only
  rw [vmmPdeIndex_eq, hpde, if_pos hpresent, vmmPteIndex_eq, hpte]

/-- No table for a slot, no mapping. -/
theorem vmmWalk_of_not_present {va : Nat}
    (hpde : vmmEntryPresent (m.load32 (pd + 4 * (va / 2 ^ 22))) = false) :
    vmmWalk m pd pts ptsPhys va = none := by
  unfold vmmWalk
  dsimp only
  rw [vmmPdeIndex_eq, hpde, if_neg Bool.false_ne_true]

/-- The address that a present entry and an offset make. -/
theorem translate_of_walk {va phys : Nat} (hphys : phys < 2 ^ 32)
    (hwalk : vmmWalk m pd pts ptsPhys va
      = some (vmmMakeEntry phys (flags ||| PTE_PRESENT))) :
    vmmTranslate m pd pts ptsPhys va
      = some (phys / 2 ^ 12 * 2 ^ 12 + va % 2 ^ 12) := by
  unfold vmmTranslate
  rw [hwalk, Option.map_some, (vmmMakeEntry_present hphys flags).2.2.1,
    vmmOffset_eq, or_low _ (Nat.mod_lt _ (by decide))]

/-- The walk in a finished map: the table entry of the page. -/
theorem Built.walk (h : Built m m' pd pts ptsPhys pages flags n)
    (hpages : pages ≤ 2 ^ 20) (hal : 4096 ∣ ptsPhys)
    (hpool : ptsPhys + 4096 * n ≤ 2 ^ 32) (va : Nat)
    (hslot : va / 2 ^ 22 < n) :
    vmmWalk m' pd pts ptsPhys va
      = if va / 2 ^ 12 < pages then
          some (vmmMakeEntry (va / 2 ^ 12 * 2 ^ 12) (flags ||| PTE_PRESENT))
        else none := by
  have hphys : ptsPhys + 4096 * (va / 2 ^ 22) < 2 ^ 32 := by omega
  obtain ⟨-, hpresent, haddr, -⟩ := vmmMakeEntry_present hphys flags
  -- the pool is aligned, so the entry's address is the table's
  have htab : pts + 4 * (sub32 (vmmEntryAddr (vmmMakeEntry
      (ptsPhys + 4096 * (va / 2 ^ 22)) (flags ||| PTE_PRESENT))) ptsPhys / 4)
        = pts + 4096 * (va / 2 ^ 22) := by
    rw [haddr]
    unfold sub32
    omega
  have hpage : va / 2 ^ 22 * 1024 + va / 2 ^ 12 % 2 ^ 10 = va / 2 ^ 12 := by
    omega
  have hpte := h.pte _ hslot (va / 2 ^ 12 % 2 ^ 10) (by omega)
  rw [← htab] at hpte
  rw [vmmWalk_of_entries (h.pde _ hslot) hpresent hpte]
  unfold identityEntry
  rw [hpage]
  by_cases hin : va / 2 ^ 12 < pages
  · obtain ⟨hshift, hlt⟩ := page_shift (Nat.lt_of_lt_of_le hin hpages)
    rw [if_pos hin, if_pos hin, hshift,
      if_pos (vmmMakeEntry_present (hshift ▸ hlt) flags).2.1]
  · rw [if_neg hin, if_neg hin, not_vmmEntryPresent_zero,
      if_neg Bool.false_ne_true]

-- ============================================================== the result

/-- For any contents of the directory and the tables, any flags and any
pool of tables: either the pool is too small and nothing changes, or
exactly the pages of the range are mapped, each to itself. -/
theorem identity_map_correct (m : Mem) {pd pts ptsPhys nPts bytes : Nat}
    (flags : Nat) (hbytes : 1 ≤ bytes) (hbytes' : bytes ≤ 0xFFFFF000)
    (hal : 4096 ∣ ptsPhys) (hpool : ptsPhys + 4096 * nPts ≤ 2 ^ 32)
    (hapart : pd + 4096 ≤ pts ∨ pts + 4096 * nPts ≤ pd) :
    let pages := (bytes + 4095) / 4096
    let need := (pages + 1023) / 1024
    (need ≤ nPts → ∃ m',
      vmmIdentityMap m pd pts ptsPhys nPts bytes flags = (m', need)
        ∧ (∀ va < pages * 4096, vmmTranslate m' pd pts ptsPhys va = some va
          ∧ m'.load32 (pd + 4 * vmmPdeIndex va) &&& FLAG_MASK
            = (flags ||| PTE_PRESENT) &&& FLAG_MASK
          ∧ ∃ pte, vmmWalk m' pd pts ptsPhys va = some pte
            ∧ pte &&& FLAG_MASK = (flags ||| PTE_PRESENT) &&& FLAG_MASK)
        ∧ ∀ va < 2 ^ 32, pages * 4096 ≤ va →
          vmmTranslate m' pd pts ptsPhys va = none)
      ∧ (nPts < need →
        vmmIdentityMap m pd pts ptsPhys nPts bytes flags = (m, 0)) := by
  dsimp only
  rw [vmmIdentityMap_eq m hbytes']
  have hpages : (bytes + 4095) / 4096 < 2 ^ 20 := by omega
  generalize (bytes + 4095) / 4096 = pages at *
  refine ⟨fun hfits => ?_, fun hsmall => if_pos hsmall⟩
  rw [if_neg (Nat.not_lt.mpr hfits)]
  have hbuilt : Built (m.storeWords pd (fun _ => 0) 1024)
      (identityTables (m.storeWords pd (fun _ => 0) 1024) pd pts ptsPhys pages
        flags ((pages + 1023) / 1024))
      pd pts ptsPhys pages flags ((pages + 1023) / 1024) :=
    built_identityTables (Nat.le_of_lt hpages) (by omega) (by omega) (by omega)
  generalize identityTables _ pd pts ptsPhys pages flags _ = m' at *
  have hwalk := hbuilt.walk (Nat.le_of_lt hpages) hal (by omega)
  refine ⟨m', rfl, fun va hva => ?_, fun va hva hlo => ?_⟩
  · have hslot : va / 2 ^ 22 < (pages + 1023) / 1024 := by omega
    have hphys : va / 2 ^ 12 * 2 ^ 12 < 2 ^ 32 := by omega
    have hentry := hwalk va hslot
    rw [if_pos (by omega)] at hentry
    refine ⟨?_, ?_, _, hentry, (vmmMakeEntry_present hphys flags).2.2.2⟩
    · rw [translate_of_walk hphys hentry]
      refine congrArg some ?_
      omega
    · rw [vmmPdeIndex_eq, hbuilt.pde _ hslot]
      exact (vmmMakeEntry_present (by omega) flags).2.2.2
  · have hnone : vmmWalk m' pd pts ptsPhys va = none := by
      by_cases hslot : va / 2 ^ 22 < (pages + 1023) / 1024
      · -- behind the last page of the last table
        rw [hwalk va hslot, if_neg (by omega)]
      · -- behind the last table: the cleared directory
        refine vmmWalk_of_not_present ?_
        rw [hbuilt.pde_above _ (by omega) (by omega),
          Mem.load32_storeWords (by omega)]
        exact not_vmmEntryPresent_zero
    unfold vmmTranslate
    rw [hnone]
    rfl

/-- Three pages from a pool of two tables, the memory full of ones. -/
theorem identity_map_correct_three :
    let pages := (10000 + 4095) / 4096
    let need := (pages + 1023) / 1024
    (need ≤ 2 → ∃ m',
      vmmIdentityMap (fun _ => 0xFF) 0x1000 0x2000 0x100000 2 10000 PTE_RW
          = (m', need)
        ∧ (∀ va < pages * 4096,
          vmmTranslate m' 0x1000 0x2000 0x100000 va = some va
          ∧ m'.load32 (0x1000 + 4 * vmmPdeIndex va) &&& FLAG_MASK
            = (PTE_RW ||| PTE_PRESENT) &&& FLAG_MASK
          ∧ ∃ pte, vmmWalk m' 0x1000 0x2000 0x100000 va = some pte
            ∧ pte &&& FLAG_MASK = (PTE_RW ||| PTE_PRESENT) &&& FLAG_MASK)
        ∧ ∀ va < 2 ^ 32, pages * 4096 ≤ va →
          vmmTranslate m' 0x1000 0x2000 0x100000 va = none)
      ∧ (2 < need →
        vmmIdentityMap (fun _ => 0xFF) 0x1000 0x2000 0x100000 2 10000 PTE_RW
          = ((fun _ => 0xFF), 0)) :=
  identity_map_correct _ PTE_RW (by decide) (by decide) (by decide)
    (by decide) (by decide)

end Thuos.Mm
