/-
The page tables as a two-level map from 4 MiB slots.

`Describes L m d` says that the words in memory are the two-level map `d`:
directory entry `k` points to the table `d.root k`, and a table filled
for slot `k` holds the 1024 pages of that slot. Over it the walk is
`lookup` (`Describes.walk`), one turn of the loop in `vmm_map_lfb` and
`vmm_map_mmio` is `bind` (`Describes.bind`), the loop is `assign`
(`Describes.mapTables`), and `vmm_init` makes `lowMap`
(`vmmInit_describes`).
-/
import Thuos.Lib.TwoLevel
import Thuos.Mm.Vmm
import Thuos.Mm.Proofs.IdentityMap

namespace Thuos.Mm

open ByteMem Word32

-- ============================================================= the tables

/-- A page table: its pool, and its place there. -/
inductive Table
  | low (t : Nat)
  | lfb (t : Nat)
  | mmio (t : Nat)
  deriving DecidableEq

/-- The table exists. -/
def Table.Valid : Table → Prop
  | .low t => t < 2
  | .lfb t => t < 8
  | .mmio t => t < 2

def Table.addr (L : VmmLayout) : Table → Nat
  | .low t => L.pageTabs + 4096 * t
  | .lfb t => L.lfbTabs + 4096 * t
  | .mmio t => L.mmioTabs + 4096 * t

variable {L : VmmLayout}

/-- A page table begins at a page. -/
theorem Table.addr_aligned (L : VmmLayout) (t : Table) : 4096 ∣ t.addr L := by
  obtain ⟨-, hlow, hlfb, hmmio⟩ := L.aligned
  cases t with
  | low t => exact Nat.dvd_add hlow (Nat.dvd_mul_right ..)
  | lfb t => exact Nat.dvd_add hlfb (Nat.dvd_mul_right ..)
  | mmio t => exact Nat.dvd_add hmmio (Nat.dvd_mul_right ..)

/-- A page table lies below the end of memory. -/
theorem Table.addr_inside (L : VmmLayout) {t : Table} (h : t.Valid) :
    t.addr L + 4096 ≤ 2 ^ 32 := by
  obtain ⟨-, hlow, hlfb, hmmio⟩ := L.inside
  cases t with
  | low t =>
      have h : t < 2 := h
      show L.pageTabs + 4096 * t + 4096 ≤ _
      omega
  | lfb t =>
      have h : t < 8 := h
      show L.lfbTabs + 4096 * t + 4096 ≤ _
      omega
  | mmio t =>
      have h : t < 2 := h
      show L.mmioTabs + 4096 * t + 4096 ≤ _
      omega

/-- A table lies apart from the directory. -/
theorem Table.dir_apart (L : VmmLayout) {t : Table} (h : t.Valid) :
    Apart L.pageDir 4096 (t.addr L) 4096 := by
  obtain ⟨hlow, hlfb, hmmio⟩ := L.dir_apart
  unfold Apart at *
  cases t with
  | low t =>
      have h : t < 2 := h
      show _ ≤ L.pageTabs + 4096 * t ∨ L.pageTabs + 4096 * t + 4096 ≤ _
      omega
  | lfb t =>
      have h : t < 8 := h
      show _ ≤ L.lfbTabs + 4096 * t ∨ L.lfbTabs + 4096 * t + 4096 ≤ _
      omega
  | mmio t =>
      have h : t < 2 := h
      show _ ≤ L.mmioTabs + 4096 * t ∨ L.mmioTabs + 4096 * t + 4096 ≤ _
      omega

/-- Two tables lie apart. -/
theorem Table.apart (L : VmmLayout) {t u : Table} (ht : t.Valid)
    (hu : u.Valid) (hne : t ≠ u) :
    Apart (t.addr L) 4096 (u.addr L) 4096 := by
  obtain ⟨hll, hlm, hfm⟩ := L.pools_apart
  cases t <;> cases u
  all_goals
    simp only [Table.Valid] at ht hu
    simp only [ne_eq, Table.low.injEq, Table.lfb.injEq, Table.mmio.injEq,
      reduceCtorEq, not_false_eq_true] at hne
    unfold Apart at *
    unfold Table.addr
    dsimp only
    omega

/-- Two page tables are at two addresses. -/
theorem Table.addr_ne (L : VmmLayout) {t u : Table} (ht : t.Valid)
    (hu : u.Valid) (hne : t ≠ u) : t.addr L ≠ u.addr L := by
  have hapart := Table.apart L ht hu hne
  unfold Apart at hapart
  omega

-- ============================================================ the relation

/-- The words in memory are the two-level map `d` from slots to tables,
with the flags of the entries as attribute. -/
structure Describes (L : VmmLayout) (m : Mem) (d : TwoLevel Nat Table Nat) :
    Prop where
  root_none : ∀ k < 1024, d.root k = none →
    vmmEntryPresent (m.load32 (L.pageDir + 4 * k)) = false
  root_some : ∀ k < 1024, ∀ t, d.root k = some t → t.Valid ∧ ∃ flags,
    m.load32 (L.pageDir + 4 * k)
      = vmmMakeEntry (t.addr L) (flags ||| PTE_PRESENT)
  leaf : ∀ t k a, t.Valid → d.leaf t = some (k, a) → k < 1024
    ∧ ∀ e < 1024, m.load32 (t.addr L + 4 * e)
      = vmmMakeEntry ((k * 1024 + e) * 4096) (a ||| PTE_PRESENT)
  filled : d.Filled

variable {m : Mem} {d : TwoLevel Nat Table Nat}

/-- A directory entry points to the table of its slot. -/
theorem Describes.entryAddr (h : Describes L m d) {k : Nat} (hk : k < 1024)
    {t : Table} (ht : d.root k = some t) :
    vmmEntryPresent (m.load32 (L.pageDir + 4 * k)) = true
      ∧ vmmEntryAddr (m.load32 (L.pageDir + 4 * k)) = t.addr L := by
  obtain ⟨hvalid, flags, hentry⟩ := h.root_some k hk t ht
  have hal := Table.addr_aligned L t
  have hin := Table.addr_inside L hvalid
  have hlt : t.addr L < 2 ^ 32 := by omega
  obtain ⟨-, hpresent, haddr, -⟩ := vmmMakeEntry_present hlt flags
  rw [hentry]
  refine ⟨hpresent, haddr.trans ?_⟩
  omega

/-- The walk reads the two-level map. Tables are found by their physical
address, as the processor finds them. -/
theorem Describes.walk (h : Describes L m d) {va : Nat}
    (hva : va < 2 ^ 32) :
    vmmWalk m L.pageDir 0 0 va = (d.lookup (va / 2 ^ 22)).map fun x =>
      vmmMakeEntry ((x.1 * 1024 + va / 2 ^ 12 % 2 ^ 10) * 4096)
        (x.2 ||| PTE_PRESENT) := by
  have hslot : va / 2 ^ 22 < 1024 := by omega
  unfold TwoLevel.lookup
  cases hroot : d.root (va / 2 ^ 22) with
  | none =>
      rw [vmmWalk_of_not_present (h.root_none _ hslot hroot)]
      rfl
  | some t =>
      obtain ⟨hpresent, haddr⟩ := h.entryAddr hslot hroot
      have hvalid := (h.root_some _ hslot t hroot).1
      have hal := Table.addr_aligned L t
      have hin := Table.addr_inside L hvalid
      have htab : 0 + 4 * (sub32 (vmmEntryAddr
          (m.load32 (L.pageDir + 4 * (va / 2 ^ 22)))) 0 / 4) = t.addr L := by
        rw [haddr]
        unfold sub32
        omega
      obtain ⟨⟨k, a⟩, hleaf⟩ := Option.isSome_iff_exists.mp
        (h.filled _ t hroot)
      obtain ⟨hk, hwords⟩ := h.leaf t k a hvalid hleaf
      have hpte := hwords (va / 2 ^ 12 % 2 ^ 10) (by omega)
      rw [← htab] at hpte
      rw [vmmWalk_of_entries rfl hpresent hpte, Option.bind_some, hleaf,
        if_pos (vmmMakeEntry_present (by omega) a).2.1]
      rfl

/-- The slot that a lookup gives is one of the 1024 of its table. -/
theorem Describes.slot_lt (h : Describes L m d) {k j a : Nat}
    (hk : k < 1024) (hlookup : d.lookup k = some (j, a)) : j < 1024 := by
  obtain ⟨t, hroot, hleaf⟩ := Option.bind_eq_some_iff.mp hlookup
  exact (h.leaf t j a (h.root_some k hk t hroot).1 hleaf).1

/-- An address goes to the same place in the slot that its own slot
reads. -/
theorem Describes.translate (h : Describes L m d) {va : Nat}
    (hva : va < 2 ^ 32) :
    vmmTranslate m L.pageDir 0 0 va = (d.lookup (va / 2 ^ 22)).map fun x =>
      x.1 * 2 ^ 22 + va % 2 ^ 22 := by
  have hwalk := h.walk hva
  cases hlookup : d.lookup (va / 2 ^ 22) with
  | none =>
      rw [hlookup] at hwalk
      unfold vmmTranslate
      rw [hwalk]
      rfl
  | some x =>
      have hx := h.slot_lt (by omega) hlookup
      rw [hlookup, Option.map_some] at hwalk
      rw [translate_of_walk (by omega) hwalk, Option.map_some]
      refine congrArg some ?_
      omega

-- ================================================================ the loop

/-- One turn of the loop: table `t` is filled for slot `k`, and the slot
pointed to it. -/
theorem Describes.bind (h : Describes L m d) {k : Nat} (hk : k < 1024)
    {t : Table} (ht : t.Valid) (a : Nat) :
    Describes L
      ((m.store32 (L.pageDir + 4 * k)
          (vmmMakeEntry (t.addr L) (PTE_RW ||| PTE_PRESENT))).storeWords
        (t.addr L) (fun e => vmmMakeEntry
          (add32 (k * 2 ^ 22) (mul32 e VMM_PAGE_SIZE)) (a ||| PTE_PRESENT))
        1024)
      (d.bind k t a) := by
  have hin := Table.addr_inside L ht
  have hdir := Table.dir_apart L ht
  unfold Apart at hdir
  have haddr : t.addr L < 2 ^ 32 := by omega
  have hlt := vmmMakeEntry_lt haddr (PTE_RW ||| PTE_PRESENT)
  -- the directory afterwards
  have hpde : ∀ j < 1024, ((m.store32 (L.pageDir + 4 * k)
      (vmmMakeEntry (t.addr L) (PTE_RW ||| PTE_PRESENT))).storeWords
        (t.addr L) (fun e => vmmMakeEntry
          (add32 (k * 2 ^ 22) (mul32 e VMM_PAGE_SIZE)) (a ||| PTE_PRESENT))
        1024).load32 (L.pageDir + 4 * j)
      = if j = k then vmmMakeEntry (t.addr L) (PTE_RW ||| PTE_PRESENT)
        else m.load32 (L.pageDir + 4 * j) := by
    intro j hj
    rw [Mem.load32_storeWords_of_disjoint (by omega)]
    by_cases hjk : j = k
    · rw [if_pos hjk, hjk, Mem.load32_store32, Nat.mod_eq_of_lt hlt]
    · rw [if_neg hjk, Mem.load32_store32_of_disjoint _ _ (by omega)]
  have hfilled : (d.assign (fun _ => k) (fun _ => t) a 1).Filled :=
    TwoLevel.filled_assign h.filled
  refine ⟨fun j hj hnone => ?_, fun j hj u hu => ?_,
    fun u j b hu hleaf => ?_, hfilled⟩
  · have hnone : (if j = k then some t else d.root j) = none := hnone
    by_cases hjk : j = k
    · rw [if_pos hjk] at hnone
      exact absurd hnone (Option.some_ne_none t)
    · rw [if_neg hjk] at hnone
      rw [hpde j hj, if_neg hjk]
      exact h.root_none j hj hnone
  · have hu : (if j = k then some t else d.root j) = some u := hu
    rw [hpde j hj]
    by_cases hjk : j = k
    · rw [if_pos hjk] at hu ⊢
      obtain rfl := Option.some.inj hu
      exact ⟨ht, PTE_RW, rfl⟩
    · rw [if_neg hjk] at hu ⊢
      exact h.root_some j hj u hu
  · have hleaf : (if u = t then some (k, a) else d.leaf u) = some (j, b) :=
      hleaf
    by_cases hut : u = t
    · rw [if_pos hut] at hleaf
      obtain ⟨rfl, rfl⟩ := Prod.mk.inj (Option.some.inj hleaf)
      refine ⟨hk, fun e he => ?_⟩
      have haddr : add32 (k * 2 ^ 22) (mul32 e VMM_PAGE_SIZE)
          = (k * 1024 + e) * 4096 := by
        unfold add32 mul32 VMM_PAGE_SIZE
        omega
      rw [hut, Mem.load32_storeWords he, haddr]
      exact Nat.mod_eq_of_lt (vmmMakeEntry_lt (by omega) _)
    · rw [if_neg hut] at hleaf
      obtain ⟨hj, hwords⟩ := h.leaf u j b hu hleaf
      have hapart := Table.apart L hu ht hut
      have hdir' := Table.dir_apart L hu
      unfold Apart at hapart hdir'
      refine ⟨hj, fun e he => ?_⟩
      rw [Mem.load32_storeWords_of_disjoint (by omega),
        Mem.load32_store32_of_disjoint _ _ (by omega)]
      exact hwords e he

/-- The loop: the slots from `b` on are bound to the tables of the pool. -/
theorem Describes.mapTables (h : Describes L m d) {tabs b n a : Nat}
    {tab : Nat → Table} (hb : b + n ≤ 1024)
    (htab : ∀ t < n, (tab t).Valid ∧ (tab t).addr L = tabs + 4096 * t) :
    Describes L
      (mapTables m L.pageDir tabs (b * 2 ^ 22) (a ||| PTE_PRESENT) n)
      (d.assign (fun t => b + t) tab a n) := by
  induction n with
  | zero => exact h
  | succ n ih =>
      obtain ⟨hvalid, haddr⟩ := htab n (Nat.lt_succ_self n)
      have hva : add32 (b * 2 ^ 22) (mul32 n FOURMB) = (b + n) * 2 ^ 22 := by
        unfold add32 mul32 FOURMB
        omega
      have hslot : ((b + n) * 2 ^ 22) >>> 22 = b + n := by
        rw [Nat.shiftRight_eq_div_pow]
        omega
      have hprev := ih (by omega) fun t ht =>
        htab t (Nat.lt_succ_of_lt ht)
      have hstep := hprev.bind (k := b + n) (by omega) hvalid a
      unfold Mm.mapTables
      dsimp only
      rw [hva, hslot, ← haddr]
      exact hstep

-- =============================================================== the start

/-- The low 8 MiB, reachable from ring 3. -/
def lowMap : TwoLevel Nat Table Nat where
  root := fun k => if k < 2 then some (.low k) else none
  leaf
    | .low t => some (t, PTE_RW ||| PTE_USER)
    | .lfb _ => none
    | .mmio _ => none

/-- `vmm_init` succeeds, and maps the low 8 MiB. -/
theorem vmmInit_describes (L : VmmLayout) (mem : Mem) :
    (vmmInit L mem).ready = true ∧ Describes L (vmmInit L mem).mem lowMap := by
  obtain ⟨-, hlow, -, -⟩ := L.inside
  obtain ⟨hapart, -, -⟩ := L.dir_apart
  unfold Apart at hapart
  have hbuilt : Built (mem.storeWords L.pageDir (fun _ => 0) 1024)
      (identityTables (mem.storeWords L.pageDir (fun _ => 0) 1024)
        L.pageDir L.pageTabs L.pageTabs 2048 (PTE_RW ||| PTE_USER) 2)
      L.pageDir L.pageTabs L.pageTabs 2048 (PTE_RW ||| PTE_USER) 2 :=
    built_identityTables (by decide) (by decide) hlow hapart
  have hinit : vmmInit L mem
      = { mem := identityTables (mem.storeWords L.pageDir (fun _ => 0) 1024)
            L.pageDir L.pageTabs L.pageTabs 2048 (PTE_RW ||| PTE_USER) 2
          ready := true } := by
    unfold vmmInit
    rw [vmmIdentityMap_eq mem (by decide)]
    rfl
  rw [hinit]
  refine ⟨rfl, fun k hk hroot => ?_, fun k hk t hroot => ?_,
    fun t k a ht hleaf => ?_, fun k t hroot => ?_⟩
  · have hroot : (if k < 2 then some (Table.low k) else none) = none := hroot
    have hk2 : ¬ k < 2 := fun hlt => by
      rw [if_pos hlt] at hroot
      exact absurd hroot (Option.some_ne_none _)
    rw [hbuilt.pde_above k (by omega) hk, Mem.load32_storeWords hk]
    exact not_vmmEntryPresent_zero
  · have hroot : (if k < 2 then some (Table.low k) else none) = some t := hroot
    split at hroot
    · next hk2 =>
      obtain rfl := Option.some.inj hroot
      exact ⟨hk2, _, hbuilt.pde k hk2⟩
    · exact absurd hroot.symm (Option.some_ne_none t)
  · cases t with
    | low t =>
        have ht : t < 2 := ht
        obtain ⟨rfl, rfl⟩ := Prod.mk.inj (Option.some.inj hleaf)
        refine ⟨by omega, fun e he => ?_⟩
        have hword := hbuilt.pte t ht e he
        unfold identityEntry at hword
        rw [if_pos (by omega), (page_shift (by omega)).1] at hword
        exact hword
    | lfb t => exact absurd hleaf.symm (Option.some_ne_none _)
    | mmio t => exact absurd hleaf.symm (Option.some_ne_none _)
  · have hroot : (if k < 2 then some (Table.low k) else none) = some t := hroot
    split at hroot
    · obtain rfl := Option.some.inj hroot
      rfl
    · exact absurd hroot.symm (Option.some_ne_none t)

-- =============================================================== the calls

/-- A call that maps a window. -/
inductive MapOp
  | lfb (phys bytes : UInt32)
  | mmio (phys bytes : UInt32)

namespace MapOp

def call (L : VmmLayout) (s : Vmm) : MapOp → Vmm × Nat
  | .lfb phys bytes => vmmMapLfb L s phys.toNat bytes.toNat
  | .mmio phys bytes => vmmMapMmio L s phys.toNat bytes.toNat

def phys : MapOp → Nat
  | .lfb phys _ => phys.toNat
  | .mmio phys _ => phys.toNat

def bytes : MapOp → Nat
  | .lfb _ bytes => bytes.toNat
  | .mmio _ bytes => bytes.toNat

/-- The range does not pass 4 GiB. -/
def Legal (op : MapOp) : Prop := op.phys + op.bytes ≤ 2 ^ 32

instance (op : MapOp) : Decidable op.Legal :=
  inferInstanceAs (Decidable (op.phys + op.bytes ≤ 2 ^ 32))

/-- The slot the range starts in. -/
def first (op : MapOp) : Nat := op.phys / 2 ^ 22

/-- The number of tables the call fills. -/
def tables : MapOp → Nat
  | .lfb phys bytes => min (windowNpts phys.toNat bytes.toNat) VMM_LFB_NPTS
  | .mmio phys bytes =>
      if VMM_MMIO_NPTS < windowNpts phys.toNat bytes.toNat then 0
      else windowNpts phys.toNat bytes.toNat

def table : MapOp → Nat → Table
  | .lfb _ _ => .lfb
  | .mmio _ _ => .mmio

def attr : MapOp → Nat
  | .lfb _ _ => PTE_RW
  | .mmio _ _ => PTE_PCD ||| PTE_RW

/-- The call maps slot `k`. -/
def Maps (op : MapOp) (k : Nat) : Prop :=
  op.first ≤ k ∧ k < op.first + op.tables

instance (op : MapOp) (k : Nat) : Decidable (op.Maps k) :=
  inferInstanceAs (Decidable (op.first ≤ k ∧ k < op.first + op.tables))

/-- The two-level map after the call. -/
def applied (op : MapOp) (d : TwoLevel Nat Table Nat) :
    TwoLevel Nat Table Nat :=
  d.assign (fun t => op.first + t) op.table op.attr op.tables

/-- A mapping takes a table of its own for each entry of the directory. -/
theorem table_injective (op : MapOp) : op.table.Injective := by
  cases op with
  | lfb phys bytes => exact fun t u h => Table.lfb.inj h
  | mmio phys bytes => exact fun t u h => Table.mmio.inj h

/-- The address that is mapped is a word. -/
theorem phys_lt (op : MapOp) : op.phys < 2 ^ 32 := by
  cases op with
  | lfb phys bytes => exact phys.toNat_lt
  | mmio phys bytes => exact phys.toNat_lt

end MapOp

/-- The base of a window is the address rounded down to four megabytes. -/
theorem windowBase_eq {phys : Nat} (h : phys < 2 ^ 32) :
    windowBase phys = phys / 2 ^ 22 * 2 ^ 22 :=
  and_high (k := 22) (by decide) h

/-- The number of tables: enough to hold the range, in 1024 slots. Where
its sum wraps it is 0, which both calls refuse. -/
theorem windowNpts_spec {phys bytes : Nat} (hphys : phys < 2 ^ 32)
    (hlegal : phys + bytes ≤ 2 ^ 32) :
    phys / 2 ^ 22 + windowNpts phys bytes ≤ 1024
      ∧ (windowNpts phys bytes ≠ 0 →
        phys + bytes ≤ (phys / 2 ^ 22 + windowNpts phys bytes) * 2 ^ 22) := by
  unfold windowNpts
  rw [windowBase_eq hphys]
  unfold sub32 add32 FOURMB
  omega

/-- A mapping needs no more tables than its window has. -/
theorem MapOp.tables_le (op : MapOp) :
    op.tables ≤ windowNpts op.phys op.bytes := by
  cases op with
  | lfb phys bytes => exact Nat.min_le_left ..
  | mmio phys bytes =>
      show (if _ then 0 else _) ≤ _
      split
      · exact Nat.zero_le _
      · exact Nat.le_refl _

/-- The entries of a legal mapping are in the directory. -/
theorem MapOp.first_add_tables {op : MapOp} (h : op.Legal) :
    op.first + op.tables ≤ 1024 := by
  have hspec := (windowNpts_spec op.phys_lt h).1
  have hle := op.tables_le
  unfold MapOp.first
  omega

/-- A call for device registers that succeeds maps the whole range. -/
theorem MapOp.mmio_covers {phys bytes : UInt32} {va : Nat}
    (h : (MapOp.mmio phys bytes).Legal)
    (hok : (MapOp.mmio phys bytes).tables ≠ 0) (hlo : phys.toNat ≤ va)
    (hhi : va < phys.toNat + bytes.toNat) :
    (MapOp.mmio phys bytes).Maps (va / 2 ^ 22) := by
  have hspec := (windowNpts_spec (MapOp.phys_lt _) h).2
  have htables : (MapOp.mmio phys bytes).tables
      = windowNpts phys.toNat bytes.toNat := by
    unfold MapOp.tables at hok ⊢
    dsimp only at hok ⊢
    split at hok
    · exact absurd rfl hok
    · next hfits => rw [if_neg hfits]
  rw [htables] at hok
  have hcover := hspec hok
  unfold MapOp.phys MapOp.bytes at hcover
  dsimp only at hcover
  unfold MapOp.Maps MapOp.first MapOp.phys
  rw [htables]
  dsimp only
  omega

/-- `vmm_map_lfb` once the low map is built. -/
theorem vmmMapLfb_eq {s : Vmm} (hready : s.ready = true) {phys bytes n : Nat}
    (hphys : phys < 2 ^ 32)
    (hn : n = min (windowNpts phys bytes) VMM_LFB_NPTS) :
    vmmMapLfb L s phys bytes
      = if n = 0 then (s, 0)
        else
          ({ s with
              mem := mapTables s.mem L.pageDir L.lfbTabs
                (phys / 2 ^ 22 * 2 ^ 22) (PTE_RW ||| PTE_PRESENT) n }, 1) := by
  have hclamp : (if VMM_LFB_NPTS < windowNpts phys bytes then VMM_LFB_NPTS
      else windowNpts phys bytes) = n := by
    rw [hn]
    split <;> omega
  have hzero : windowNpts phys bytes = 0 ↔ n = 0 := by
    rw [hn]
    unfold VMM_LFB_NPTS
    omega
  unfold vmmMapLfb
  dsimp only
  rw [if_neg (not_not.mpr hready), hclamp, windowBase_eq hphys]
  by_cases hn0 : n = 0
  · rw [if_pos hn0, if_pos (hzero.mpr hn0)]
  · rw [if_neg hn0, if_neg (mt hzero.mp hn0)]

/-- `vmm_map_mmio` once the low map is built. -/
theorem vmmMapMmio_eq {s : Vmm} (hready : s.ready = true)
    {phys bytes n : Nat} (hphys : phys < 2 ^ 32)
    (hn : n = if VMM_MMIO_NPTS < windowNpts phys bytes then 0
      else windowNpts phys bytes) :
    vmmMapMmio L s phys bytes
      = if n = 0 then (s, 0)
        else
          ({ s with
              mem := mapTables s.mem L.pageDir L.mmioTabs
                (phys / 2 ^ 22 * 2 ^ 22)
                (PTE_PCD ||| PTE_RW ||| PTE_PRESENT) n }, 1) := by
  unfold vmmMapMmio
  dsimp only
  rw [if_neg (not_not.mpr hready), windowBase_eq hphys]
  by_cases hfits : VMM_MMIO_NPTS < windowNpts phys bytes
  · rw [if_pos hfits] at hn
    rw [if_pos hn, if_pos (Or.inr hfits)]
  · rw [if_neg hfits] at hn
    rw [← hn] at hfits ⊢
    by_cases hn0 : n = 0
    · rw [if_pos hn0, if_pos (Or.inl hn0)]
    · rw [if_neg hn0, if_neg (not_or.mpr ⟨hn0, hfits⟩)]

/-- What a call does once the low map is built. -/
theorem call_describes {s : Vmm} (hready : s.ready = true)
    (h : Describes L s.mem d) {op : MapOp} (hlegal : op.Legal) :
    (op.call L s).1.ready = true
      ∧ (op.call L s).2 = (if op.tables = 0 then 0 else 1)
      ∧ Describes L (op.call L s).1.mem (op.applied d) := by
  have hbound := MapOp.first_add_tables hlegal
  -- the call, as its loop
  have hcall : ∃ tabs, op.call L s = (if op.tables = 0 then (s, 0) else
      ({ s with
          mem := mapTables s.mem L.pageDir tabs (op.first * 2 ^ 22)
            (op.attr ||| PTE_PRESENT) op.tables }, 1))
      ∧ ∀ t < op.tables, (op.table t).Valid
        ∧ (op.table t).addr L = tabs + 4096 * t := by
    cases op with
    | lfb phys bytes =>
        exact ⟨L.lfbTabs, vmmMapLfb_eq hready phys.toNat_lt rfl,
          fun t ht => ⟨Nat.lt_of_lt_of_le ht (Nat.min_le_right ..), rfl⟩⟩
    | mmio phys bytes =>
        refine ⟨L.mmioTabs, vmmMapMmio_eq hready phys.toNat_lt rfl,
          fun t ht => ⟨?_, rfl⟩⟩
        have ht : t < if VMM_MMIO_NPTS < windowNpts phys.toNat bytes.toNat
          then 0 else windowNpts phys.toNat bytes.toNat := ht
        show t < 2
        unfold VMM_MMIO_NPTS at ht
        split at ht <;> omega
  obtain ⟨tabs, hcall, htable⟩ := hcall
  have hloop := h.mapTables (a := op.attr) hbound htable
  unfold MapOp.applied
  rw [hcall]
  by_cases hzero : op.tables = 0
  · rw [if_pos hzero, if_pos hzero, hzero]
    exact ⟨hready, rfl, h⟩
  · rw [if_neg hzero, if_neg hzero]
    exact ⟨hready, rfl, hloop⟩

/-- Every table that a mapping uses is one that the kernel has set aside. -/
theorem MapOp.table_valid {op : MapOp} {t : Nat} (ht : t < op.tables) :
    (op.table t).Valid := by
  cases op with
  | lfb phys bytes => exact Nat.lt_of_lt_of_le ht (Nat.min_le_right ..)
  | mmio phys bytes =>
      have ht : t < if VMM_MMIO_NPTS < windowNpts phys.toNat bytes.toNat
        then 0 else windowNpts phys.toNat bytes.toNat := ht
      show t < 2
      unfold VMM_MMIO_NPTS at ht
      split at ht <;> omega

-- ==================================================== what the slots read

/-- The slots that a call maps read themselves afterwards. -/
theorem lookup_applied_of_maps {op : MapOp} {k : Nat} (h : op.Maps k) :
    (op.applied d).lookup k = some (k, op.attr) := by
  obtain ⟨hlo, hhi⟩ := h
  have hkey : Function.Injective fun t => op.first + t :=
    fun t u h => Nat.add_left_cancel h
  have := TwoLevel.lookup_assign (d := d) (a := op.attr) hkey
    op.table_injective (show k - op.first < op.tables by omega)
  rwa [show op.first + (k - op.first) = k from by omega] at this

/-- An entry that is not mapped is none of those that the mapping writes. -/
theorem not_key_of_not_maps {op : MapOp} {k : Nat} (h : ¬ op.Maps k) :
    ∀ t < op.tables, k ≠ op.first + t := by
  intro t ht heq
  refine h ⟨?_, ?_⟩ <;> omega

/-- Another slot reads what it read, unless its table is refilled. -/
theorem lookup_applied_of_not_maps {op : MapOp} {k : Nat}
    (h : ¬ op.Maps k)
    (hkept : ∀ t < op.tables, d.root k ≠ some (op.table t)) :
    (op.applied d).lookup k = d.lookup k :=
  TwoLevel.lookup_assign_outside (not_key_of_not_maps h) hkept

/-- The arrays from 2 MiB on. -/
def layoutAt2M : VmmLayout where
  pageDir := 0x200000
  pageTabs := 0x201000
  lfbTabs := 0x203000
  mmioTabs := 0x20B000
  aligned := by decide
  inside := by decide
  dir_apart := by decide
  pools_apart := by decide

end Thuos.Mm
