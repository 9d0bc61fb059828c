/-
The walk over the Multiboot memory map, on anything that may lie there.

`pmm_init` and `pmm_print_mmap` move a pointer from entry to entry in the
same way, by a size they read: `nextEntry` is that step, and both loops
are folds over the trail it leaves (`scanMap_eq_trail`,
`printEntries_eq_trail`). So both end or neither does, and both read the
same entries.

The size is data and the sum wraps, so the pointer may come back to an
entry, the same one for a size of `2^32 - 4`; and the guard looks at the
first byte of an entry only, so the last one may stick out of the buffer.
`map_walk_iff` says when none of this happens, for every buffer: every
size the loop comes to leads past the end or to a place with 24 bytes
left, and never back. The library's `stops_iff_acyclic` is the half about
termination.
-/
import Thuos.Lib.Walk
import Thuos.Mm.Pmm

namespace Thuos.Mm

open ByteMem Relation Walk

/-- `sizeof(multiboot_mmap_entry_t)`. -/
def ENTRY_SIZE : Nat := 24

/-- The step of the entry loops: `ptr += e->size + 4` while `ptr` is below
the end. -/
def nextEntry (mem : Mem) (fin ptr : Nat) : Option Nat :=
  if ptr < fin then
    some ((ptr + ((readEntry mem ptr).size + 4) % 2 ^ 32) % 2 ^ 32)
  else none

variable {mem : Mem} {fin : Nat}

theorem nextEntry_eq_some {p q : Nat} :
    nextEntry mem fin p = some q
      ↔ p < fin ∧ q = (p + ((readEntry mem p).size + 4) % 2 ^ 32) % 2 ^ 32 := by
  unfold nextEntry
  split
  · next h => simp [h, eq_comm]
  · next h => simp [h]

theorem nextEntry_eq_none {p : Nat} :
    nextEntry mem fin p = none ↔ fin ≤ p := by
  unfold nextEntry
  split
  · next h => simp [h]
  · next h => simpa using h

-- ============================================================== the loops

theorem scanMap_eq_loop (fuel : Nat) :
    ∀ ptr acc, scanMap mem fin fuel ptr acc
      = loop (nextEntry mem fin)
          (fun acc p => scanEntry acc (readEntry mem p)) fuel ptr acc := by
  induction fuel with
  | zero => intro ptr acc; rfl
  | succ fuel ih =>
      intro ptr acc
      rw [scanMap, loop, nextEntry]
      by_cases h : ptr < fin
      · rw [if_pos h, if_pos h]
        exact ih _ _
      · rw [if_neg h, if_neg h]

theorem printEntries_eq_loop (fuel : Nat) :
    ∀ ptr out, printEntries mem fin fuel ptr out
      = loop (nextEntry mem fin)
          (fun out p => out ++ [mmapLine (readEntry mem p)]) fuel ptr out := by
  induction fuel with
  | zero => intro ptr out; rfl
  | succ fuel ih =>
      intro ptr out
      rw [printEntries, loop, nextEntry]
      by_cases h : ptr < fin
      · rw [if_pos h, if_pos h]
        exact ih _ _
      · rw [if_neg h, if_neg h]

/-- `pmm_init` folds its body over the entries on the trail. -/
theorem scanMap_eq_trail (fuel ptr : Nat) (acc : Scan) :
    scanMap mem fin fuel ptr acc
      = (trail (nextEntry mem fin) fuel ptr).map fun r =>
          (r.1.map (readEntry mem)).foldl scanEntry acc := by
  rw [scanMap_eq_loop, loop_eq_trail]
  simp only [List.foldl_map]

/-- `pmm_print_mmap` prints a line for each of them. -/
theorem printEntries_eq_trail (fuel ptr : Nat) :
    printEntries mem fin fuel ptr []
      = (trail (nextEntry mem fin) fuel ptr).map fun r =>
          (r.1.map (readEntry mem)).map mmapLine := by
  have hfold : ∀ (l : List Nat) (out : List MmapLine),
      l.foldl (fun out p => out ++ [mmapLine (readEntry mem p)]) out
        = out ++ (l.map (readEntry mem)).map mmapLine := by
    intro l
    induction l with
    | nil => intro out; simp
    | cons p l ih => intro out; simp [ih]
  rw [printEntries_eq_loop, loop_eq_trail]
  simp only [hfold, List.nil_append]

-- ============================================================== the result

/-- The walk over the buffer of `len` bytes at `addr` is in order: both
loops end, at the same entries, and every entry they read lies in the
buffer. -/
def WalksInside (mem : Mem) (addr len : Nat) : Prop :=
  ∃ (fuel : Nat) (ptrs : List Nat),
    (∀ acc, scanMap mem ((addr + len) % 2 ^ 32) fuel addr acc
      = some ((ptrs.map (readEntry mem)).foldl scanEntry acc))
    ∧ printEntries mem ((addr + len) % 2 ^ 32) fuel addr []
      = some ((ptrs.map (readEntry mem)).map mmapLine)
    ∧ (∀ p, p ∈ ptrs ↔ Reaches (nextEntry mem ((addr + len) % 2 ^ 32)) addr p
        ∧ p < (addr + len) % 2 ^ 32)
    ∧ ∀ p ∈ ptrs, addr ≤ p ∧ p + ENTRY_SIZE ≤ addr + len

/-- The size at `p` leads past the end of the buffer, or to a place in it
with room for an entry. -/
def LeadsOn (mem : Mem) (addr fin p : Nat) : Prop :=
  ∀ q, nextEntry mem fin p = some q →
    fin ≤ q ∨ (addr ≤ q ∧ q + ENTRY_SIZE ≤ fin)

/-- When every size leads on, every entry is whole. -/
theorem inside_of_leadsOn {addr p : Nat} (haddr : addr + ENTRY_SIZE ≤ fin)
    (h : ∀ p, Reaches (nextEntry mem fin) addr p → LeadsOn mem addr fin p)
    (hp : Reaches (nextEntry mem fin) addr p) :
    fin ≤ p ∨ (addr ≤ p ∧ p + ENTRY_SIZE ≤ fin) := by
  cases hp with
  | refl => exact Or.inr ⟨Nat.le_refl _, haddr⟩
  | tail hinit hlast => exact h _ hinit _ hlast

theorem finite_entries {addr : Nat} (haddr : addr < 2 ^ 32) :
    {p | Reaches (nextEntry mem fin) addr p}.Finite := by
  refine finite_reaches haddr fun a b hab => ?_
  obtain ⟨-, rfl⟩ := nextEntry_eq_some.mp hab
  exact Nat.mod_lt _ (Nat.two_pow_pos 32)

/-- Of the trail only its entries are looked at. -/
theorem walksInside_iff {addr len : Nat} :
    WalksInside mem addr len
      ↔ Stops (nextEntry mem ((addr + len) % 2 ^ 32)) addr
        ∧ ∀ p, Reaches (nextEntry mem ((addr + len) % 2 ^ 32)) addr p →
          p < (addr + len) % 2 ^ 32 →
          addr ≤ p ∧ p + ENTRY_SIZE ≤ addr + len := by
  constructor
  · rintro ⟨fuel, ptrs, hscan, -, hptrs, hin⟩
    constructor
    · have hsome := hscan
        { bitmap := fun _ => 0, highest := 0, usableBytes := 0 }
      rw [scanMap_eq_trail] at hsome
      obtain ⟨r, hr, -⟩ := Option.map_eq_some_iff.mp hsome
      exact ⟨fuel, r, hr⟩
    · exact fun p hp hlt => hin p ((hptrs p).mpr ⟨hp, hlt⟩)
  · rintro ⟨⟨fuel, ⟨ptrs, last⟩, htrail⟩, hin⟩
    have hmade := trail_made htrail
    have hptrs : ∀ p, p ∈ ptrs
        ↔ Reaches (nextEntry mem ((addr + len) % 2 ^ 32)) addr p
          ∧ p < (addr + len) % 2 ^ 32 := by
      intro p
      have hlast := nextEntry_eq_none.mp hmade.next_last
      rw [hmade.reaches_iff]
      constructor
      · intro hp
        obtain ⟨q, hq⟩ := hmade.exists_next hp
        exact ⟨Or.inl hp, (nextEntry_eq_some.mp hq).1⟩
      · rintro ⟨hp | rfl, hlt⟩
        · exact hp
        · omega
    refine ⟨fuel, ptrs, fun acc => ?_, ?_, hptrs, fun p hp => ?_⟩
    · rw [scanMap_eq_trail, htrail]
      rfl
    · rw [printEntries_eq_trail, htrail]
      rfl
    · obtain ⟨hreach, hlt⟩ := (hptrs p).mp hp
      exact hin p hreach hlt

/-- For every buffer, whatever lies there: both loops end and read whole
entries of the buffer only, exactly when there is nothing to read, or room
for a first entry and every size the pointer comes to leads on and never
back. -/
theorem map_walk_iff (mem : Mem) {addr len : Nat} (haddr : addr < 2 ^ 32)
    (hlen : len < 2 ^ 32) :
    WalksInside mem addr len
      ↔ len = 0 ∨ 2 ^ 32 ≤ addr + len
        ∨ (ENTRY_SIZE ≤ len
          ∧ ∀ p, Reaches (nextEntry mem (addr + len)) addr p →
            LeadsOn mem addr (addr + len) p
              ∧ ¬ Returns (nextEntry mem (addr + len)) p) := by
  rw [walksInside_iff]
  by_cases hempty : (addr + len) % 2 ^ 32 ≤ addr
  · -- the loops are not entered
    have hnone : nextEntry mem ((addr + len) % 2 ^ 32) addr = none :=
      nextEntry_eq_none.mpr hempty
    have hcases : len = 0 ∨ 2 ^ 32 ≤ addr + len := by omega
    refine iff_of_true ⟨⟨1, _, trail_none hnone⟩, fun p hp hlt => ?_⟩ ?_
    · obtain rfl := (reaches_of_none hnone).mp hp
      omega
    · exact hcases.imp id Or.inl
  · have hwrap : (addr + len) % 2 ^ 32 = addr + len := by omega
    rw [hwrap, stops_iff_acyclic (finite_entries haddr)]
    constructor
    · rintro ⟨hacyclic, hin⟩
      refine Or.inr (Or.inr ⟨?_, fun p hp => ⟨fun q hq => ?_, hacyclic p hp⟩⟩)
      · have := (hin addr ReflTransGen.refl (by omega)).2
        omega
      · by_cases hlt : q < addr + len
        · exact Or.inr (hin q (hp.tail hq) hlt)
        · exact Or.inl (Nat.not_lt.mp hlt)
    · rintro (hzero | hover | ⟨hroom, hall⟩)
      · omega
      · omega
      · refine ⟨fun p hp => (hall p hp).2, fun p hp hlt => ?_⟩
        rcases inside_of_leadsOn (by omega) (fun p hp => (hall p hp).1) hp with
          hge | hin
        · omega
        · exact hin

/-- A buffer at 4096 whose first entry has size `n`. -/
def firstSize (n : Nat) : Mem := Mem.store32 (fun _ => 0) 4096 n

/-- One entry of the usual size that fills its buffer. -/
theorem map_walk_iff_one : WalksInside (firstSize 20) 4096 24 := by
  refine (map_walk_iff (firstSize 20) (by decide) (by decide)).mpr
    (Or.inr (Or.inr ⟨by decide, ?_⟩))
  have hnext : nextEntry (firstSize 20) (4096 + 24) 4096 = some 4120 := by
    decide +kernel
  have hlast : nextEntry (firstSize 20) (4096 + 24) 4120 = none := by
    decide +kernel
  have hstops : Stops (nextEntry (firstSize 20) (4096 + 24)) 4096 :=
    ⟨2, ([4096], 4120), by rw [trail_some hnext, trail_none hlast]; rfl⟩
  intro p hp
  refine ⟨fun q hq => ?_, (hstops.of_reaches hp).not_returns⟩
  rw [reaches_iff hnext, reaches_of_none hlast] at hp
  rcases hp with rfl | rfl
  · obtain rfl := Option.some.inj (hnext.symm.trans hq)
    exact Or.inl (Nat.le_refl _)
  · exact nomatch hlast.symm.trans hq

/-- A size of `2^32 - 4` leads back to its own entry: the loops never end.
And a buffer of 25 bytes with one entry makes them read a second one, of
which it holds a single byte. -/
theorem map_walk_astray :
    (∀ fuel acc, scanMap (firstSize 0xFFFFFFFC) (4096 + 24) fuel 4096 acc
        = none)
      ∧ ¬ WalksInside (firstSize 0xFFFFFFFC) 4096 24
      ∧ Reaches (nextEntry (firstSize 20) (4096 + 25)) 4096 4120
      ∧ ¬ WalksInside (firstSize 20) 4096 25 := by
  have hself : nextEntry (firstSize 0xFFFFFFFC) (4096 + 24) 4096
      = some 4096 := by
    decide +kernel
  have hreturns : Returns (nextEntry (firstSize 0xFFFFFFFC) (4096 + 24))
      4096 := TransGen.single hself
  have hnext : nextEntry (firstSize 20) (4096 + 25) 4096 = some 4120 := by
    decide +kernel
  have hreach : Reaches (nextEntry (firstSize 20) (4096 + 25)) 4096 4120 :=
    ReflTransGen.single hnext
  refine ⟨fun fuel acc => ?_, fun h => ?_, hreach, fun h => ?_⟩
  · rw [scanMap_eq_trail]
    cases htrail : trail (nextEntry (firstSize 0xFFFFFFFC) (4096 + 24)) fuel
        4096 with
    | none => rfl
    | some r =>
        have hstops : Stops (nextEntry (firstSize 0xFFFFFFFC) (4096 + 24))
            4096 := ⟨fuel, r, htrail⟩
        exact absurd hreturns hstops.not_returns
  · exact (walksInside_iff.mp h).1.not_returns hreturns
  · have hout := ((walksInside_iff.mp h).2 4120 hreach (by decide)).2
    exact absurd hout (by decide)

end Thuos.Mm
