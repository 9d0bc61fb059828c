/-
What one `vmm_map_lfb` call maps, whatever the tables held before.

The call fills at most eight tables, one for each 4 MiB slot from the one
the range starts in, and wraps to slot 0 past the top of the address
space. Eight slots in a row are distinct, so no turn of the loop undoes an
earlier one (`mapTables_words`), and every address in one of the slots is
present afterwards and goes to itself (`InWindow.translate`). A page in no
such slot is one that the call did not map.
-/
import Thuos.Mm.Proofs.PageSlots

namespace Thuos.Mm

open ByteMem Word32

/-- The number of tables that `vmm_map_lfb` fills. -/
def lfbTables (phys bytes : Nat) : Nat :=
  min (windowNpts phys bytes) VMM_LFB_NPTS

/-- The slot of table `t`. -/
def windowSlot (phys t : Nat) : Nat := (phys / 2 ^ 22 + t) % 1024

/-- The call maps the page of `va`. -/
def InWindow (phys bytes va : Nat) : Prop :=
  ∃ t < lfbTables phys bytes, va / 2 ^ 22 = windowSlot phys t

theorem windowSlot_eq (phys t : Nat) :
    add32 (phys / 2 ^ 22 * 2 ^ 22) (mul32 t FOURMB)
      = windowSlot phys t * 2 ^ 22 := by
  unfold add32 mul32 FOURMB windowSlot
  omega

theorem windowSlot_ne {phys t u : Nat} (ht : t < u) (hu : u < 1024) :
    windowSlot phys t ≠ windowSlot phys u := by
  unfold windowSlot
  omega

section Window

variable {L : VmmLayout} {m : Mem} {phys : Nat}

/-- The directory entries and the tables after `n` turns. -/
theorem mapTables_words (L : VmmLayout) (m : Mem) (phys : Nat) {n : Nat}
    (hn : n ≤ 8) :
    ∀ t < n,
      (mapTables m L.pageDir L.lfbTabs (phys / 2 ^ 22 * 2 ^ 22)
          (PTE_RW ||| PTE_PRESENT) n).load32
        (L.pageDir + 4 * windowSlot phys t)
        = vmmMakeEntry (L.lfbTabs + 4096 * t) (PTE_RW ||| PTE_PRESENT)
      ∧ ∀ e < 1024,
        (mapTables m L.pageDir L.lfbTabs (phys / 2 ^ 22 * 2 ^ 22)
            (PTE_RW ||| PTE_PRESENT) n).load32
          (L.lfbTabs + 4096 * t + 4 * e)
          = vmmMakeEntry ((windowSlot phys t * 1024 + e) * 4096)
            (PTE_RW ||| PTE_PRESENT) := by
  obtain ⟨-, -, hin, -⟩ := L.inside
  obtain ⟨-, hdir, -⟩ := L.dir_apart
  unfold Apart at hdir
  have hslot : ∀ t, windowSlot phys t < 1024 := fun t =>
    Nat.mod_lt _ (by decide)
  induction n with
  | zero => exact fun t ht => absurd ht (Nat.not_lt_zero t)
  | succ n ih =>
      intro t ht
      have hprev := ih (by omega)
      have hn' := hslot n
      have ht' := hslot t
      have hshift : (windowSlot phys n * 2 ^ 22) >>> 22
          = windowSlot phys n := by
        rw [Nat.shiftRight_eq_div_pow]
        omega
      unfold mapTables
      dsimp only
      rw [windowSlot_eq, hshift]
      by_cases htn : t = n
      · rw [htn]
        have hentry : L.lfbTabs + 4096 * n < 2 ^ 32 := by omega
        refine ⟨?_, fun e he => ?_⟩
        · rw [Mem.load32_storeWords_of_disjoint (by omega),
            Mem.load32_store32,
            Nat.mod_eq_of_lt (vmmMakeEntry_lt hentry _)]
        · have hpage : add32 (windowSlot phys n * 2 ^ 22)
              (mul32 e VMM_PAGE_SIZE)
              = (windowSlot phys n * 1024 + e) * 4096 := by
            unfold add32 mul32 VMM_PAGE_SIZE
            omega
          rw [Mem.load32_storeWords he, hpage]
          exact Nat.mod_eq_of_lt (vmmMakeEntry_lt (by omega) _)
      · have hne : windowSlot phys t ≠ windowSlot phys n :=
          windowSlot_ne (by omega) (by omega)
        obtain ⟨hpde, hpte⟩ := hprev t (by omega)
        refine ⟨?_, fun e he => ?_⟩
        · rw [Mem.load32_storeWords_of_disjoint (by omega),
            Mem.load32_store32_of_disjoint _ _ (by omega)]
          exact hpde
        · rw [Mem.load32_storeWords_of_disjoint (by omega),
            Mem.load32_store32_of_disjoint _ _ (by omega)]
          exact hpte e he

/-- A page in the window of a call is present after it, and goes to
itself. -/
theorem InWindow.translate {s : Vmm} (hready : s.ready = true)
    (hphys : phys < 2 ^ 32) {bytes va : Nat} (hva : va < 2 ^ 32)
    (hwindow : InWindow phys bytes va) :
    vmmTranslate (vmmMapLfb L s phys bytes).1.mem L.pageDir 0 0 va
      = some va := by
  obtain ⟨t, ht, hslot⟩ := hwindow
  have hn : lfbTables phys bytes ≤ 8 := Nat.min_le_right ..
  have hal : 4096 ∣ L.lfbTabs + 4096 * t := Table.addr_aligned L (.lfb t)
  obtain ⟨-, -, hin, -⟩ := L.inside
  have htab : L.lfbTabs + 4096 * t < 2 ^ 32 := by omega
  rw [vmmMapLfb_eq (n := lfbTables phys bytes) hready hphys rfl,
    if_neg (by omega)]
  obtain ⟨hpde, hpte⟩ := mapTables_words L s.mem phys hn t ht
  obtain ⟨-, hpresent, haddr, -⟩ := vmmMakeEntry_present htab PTE_RW
  rw [← hslot] at hpde
  have hplace : 0 + 4 * (sub32 (vmmEntryAddr (vmmMakeEntry
      (L.lfbTabs + 4096 * t) (PTE_RW ||| PTE_PRESENT))) 0 / 4)
      = L.lfbTabs + 4096 * t := by
    rw [haddr]
    unfold sub32
    omega
  have hword := hpte (va / 2 ^ 12 % 2 ^ 10) (by omega)
  rw [← hplace] at hword
  have hframe : (windowSlot phys t * 1024 + va / 2 ^ 12 % 2 ^ 10) * 4096
      < 2 ^ 32 := by omega
  have hwalk := vmmWalk_of_entries hpde hpresent hword
  rw [if_pos (vmmMakeEntry_present hframe PTE_RW).2.1] at hwalk
  refine (translate_of_walk hframe hwalk).trans (congrArg some ?_)
  omega

end Window

end Thuos.Mm
