/-
The framebuffer's window and the device window, side by side.

Device registers are mapped cache-disabled, the framebuffer is not. Both
calls work in slots of 4 MiB, while the ranges end anywhere, so two ranges
that have no byte in common can still meet in a slot; the later call then
decides for both. `windows_independent_iff` says for either order when
each range keeps its own flag: the slots that a call maps must hold no
byte of the other range, except that the slots of the framebuffer may when
the device registers are mapped over them afterwards.
-/
import Thuos.Mm.Proofs.PageSlots

namespace Thuos.Mm

open ByteMem Word32

variable {L : VmmLayout} {m : Mem} {d : TwoLevel Nat Table Nat}

-- ========================================================== what is stated

/-- A byte of the range lies in slot `k`. -/
def MapOp.HasByte (op : MapOp) (k : Nat) : Prop :=
  ∃ va, op.phys ≤ va ∧ va < op.phys + op.bytes ∧ va / 2 ^ 22 = k

/-- Every page of the device's range is mapped cache-disabled, and no
mapped page of the framebuffer's range is. -/
structure Independent (L : VmmLayout) (m : Mem) (fb dev : MapOp) : Prop where
  device : ∀ va, dev.phys ≤ va → va < dev.phys + dev.bytes →
    ∃ pte, vmmWalk m L.pageDir 0 0 va = some pte ∧ pte &&& PTE_PCD ≠ 0
  framebuffer : ∀ va, fb.phys ≤ va → va < fb.phys + fb.bytes →
    ∀ pte, vmmWalk m L.pageDir 0 0 va = some pte → pte &&& PTE_PCD = 0

-- ================================================================ the flag

theorem pcd_eq_zero_iff (x : Nat) :
    x &&& PTE_PCD = 0 ↔ x / 2 ^ 4 % 2 = 0 := by
  have hbit : x &&& PTE_PCD = (x.testBit 4).toNat * 2 ^ 4 :=
    Nat.and_two_pow x 4
  rw [hbit, Nat.testBit_eq_decide_div_mod_eq]
  by_cases h : x / 2 ^ 4 % 2 = 1
  · rw [decide_eq_true h]
    exact iff_of_false (by decide) (by omega)
  · rw [decide_eq_false h]
    exact iff_of_true rfl (by omega)

/-- An entry has the flag that it was made with. -/
theorem pcd_makeEntry {phys : Nat} (h : phys < 2 ^ 32) (flags : Nat) :
    vmmMakeEntry phys flags &&& PTE_PCD = 0 ↔ flags &&& PTE_PCD = 0 := by
  rw [pcd_eq_zero_iff, pcd_eq_zero_iff, vmmMakeEntry_eq h]
  omega

/-- The flag that the walk finds is the attribute of the slot. -/
theorem Describes.pcd (h : Describes L m d) {va : Nat} (hva : va < 2 ^ 32)
    {k a : Nat} (hlookup : d.lookup (va / 2 ^ 22) = some (k, a)) :
    ∃ pte, vmmWalk m L.pageDir 0 0 va = some pte
      ∧ (pte &&& PTE_PCD = 0 ↔ (a ||| PTE_PRESENT) &&& PTE_PCD = 0) := by
  have hk := h.slot_lt (by omega) hlookup
  have hphys : (k * 1024 + va / 2 ^ 12 % 2 ^ 10) * 4096 < 2 ^ 32 := by omega
  refine ⟨_, ?_, pcd_makeEntry hphys _⟩
  rw [h.walk hva, hlookup]
  rfl

/-- What the walk finds lies in a slot that is bound. -/
theorem Describes.pcd_of_walk (h : Describes L m d) {va pte : Nat}
    (hva : va < 2 ^ 32) (hwalk : vmmWalk m L.pageDir 0 0 va = some pte) :
    ∃ x, d.lookup (va / 2 ^ 22) = some x
      ∧ (pte &&& PTE_PCD = 0 ↔ (x.2 ||| PTE_PRESENT) &&& PTE_PCD = 0) := by
  cases hlookup : d.lookup (va / 2 ^ 22) with
  | none =>
      have hnone := h.walk hva
      rw [hlookup, hwalk] at hnone
      exact absurd hnone (Option.some_ne_none pte)
  | some x =>
      obtain ⟨pte', hwalk', hiff⟩ := h.pcd hva hlookup
      obtain rfl := Option.some.inj (hwalk.symm.trans hwalk')
      exact ⟨x, rfl, hiff⟩

/-- `Independent`, in terms of what the slots read. -/
theorem independent_iff (h : Describes L m d) {fb dev : MapOp}
    (hfb : fb.Legal) (hdev : dev.Legal) :
    Independent L m fb dev
      ↔ (∀ k, dev.HasByte k → ∃ x, d.lookup k = some x
          ∧ (x.2 ||| PTE_PRESENT) &&& PTE_PCD ≠ 0)
        ∧ ∀ k, fb.HasByte k → ∀ x, d.lookup k = some x →
          (x.2 ||| PTE_PRESENT) &&& PTE_PCD = 0 := by
  unfold MapOp.Legal at hfb hdev
  constructor
  · intro hind
    refine ⟨fun k hk => ?_, fun k hk x hx => ?_⟩
    · obtain ⟨va, hlo, hhi, rfl⟩ := hk
      obtain ⟨pte, hwalk, hpcd⟩ := hind.device va hlo hhi
      obtain ⟨x, hlookup, hiff⟩ := h.pcd_of_walk (by omega) hwalk
      exact ⟨x, hlookup, mt hiff.mpr hpcd⟩
    · obtain ⟨va, hlo, hhi, rfl⟩ := hk
      obtain ⟨pte, hwalk, hiff⟩ := h.pcd (by omega) hx
      exact hiff.mp (hind.framebuffer va hlo hhi pte hwalk)
  · rintro ⟨hdevice, hframe⟩
    refine ⟨fun va hlo hhi => ?_, fun va hlo hhi pte hwalk => ?_⟩
    · obtain ⟨x, hx, hpcd⟩ := hdevice _ ⟨va, hlo, hhi, rfl⟩
      obtain ⟨pte, hwalk, hiff⟩ := h.pcd (by omega) hx
      exact ⟨pte, hwalk, mt hiff.mp hpcd⟩
    · obtain ⟨x, hlookup, hiff⟩ := h.pcd_of_walk (by omega) hwalk
      exact hiff.mpr (hframe _ ⟨va, hlo, hhi, rfl⟩ x hlookup)

-- =============================================================== two calls

/-- The calls fill different pools. -/
def OtherPool (op op' : MapOp) : Prop := ∀ t u, op.table t ≠ op'.table u

/-- `vmm_init` uses neither pool. -/
theorem root_lowMap (op : MapOp) (k t : Nat) :
    lowMap.root k ≠ some (op.table t) := by
  intro hroot
  have hlow : (if k < 2 then some (Table.low k) else none)
      = some (op.table t) := hroot
  split at hlow
  · cases op with
    | lfb phys bytes => exact Table.noConfusion (Option.some.inj hlow)
    | mmio phys bytes => exact Table.noConfusion (Option.some.inj hlow)
  · exact absurd hlow.symm (Option.some_ne_none _)

/-- After `vmm_init` and one call no slot points to the other pool. -/
theorem root_applied_lowMap {op op' : MapOp} (hpool : OtherPool op op')
    (k t : Nat) : (op.applied lowMap).root k ≠ some (op'.table t) := by
  intro hroot
  by_cases hmaps : op.Maps k
  · obtain ⟨hlo, hhi⟩ := hmaps
    have hkey : Function.Injective fun t => op.first + t :=
      fun t u h => Nat.add_left_cancel h
    have hown : (op.applied lowMap).root (op.first + (k - op.first))
        = some (op.table (k - op.first)) :=
      TwoLevel.root_assign hkey (show k - op.first < op.tables by omega)
    rw [show op.first + (k - op.first) = k from by omega] at hown
    exact hpool _ _ (Option.some.inj (hown.symm.trans hroot))
  · have hkept : (op.applied lowMap).root k = lowMap.root k :=
      TwoLevel.root_assign_outside (not_key_of_not_maps hmaps)
    exact root_lowMap op' k t (hkept.symm.trans hroot)

/-- A slot that only the first call maps reads the first call's entries. -/
theorem lookup_two_first {op op' : MapOp} (hpool : OtherPool op op')
    {k : Nat} (hk : op.Maps k) (hk' : ¬ op'.Maps k) :
    (op'.applied (op.applied lowMap)).lookup k = some (k, op.attr) := by
  rw [lookup_applied_of_not_maps hk'
    fun t _ => root_applied_lowMap hpool k t]
  exact lookup_applied_of_maps hk

/-- A slot that neither call maps reads the low map. -/
theorem lookup_two_none {op op' : MapOp} (hpool : OtherPool op op')
    {k : Nat} (hk : ¬ op.Maps k) (hk' : ¬ op'.Maps k) :
    (op'.applied (op.applied lowMap)).lookup k = lowMap.lookup k := by
  rw [lookup_applied_of_not_maps hk'
    fun t _ => root_applied_lowMap hpool k t]
  exact lookup_applied_of_not_maps hk fun t _ => root_lowMap op k t

/-- The low map is cached. -/
theorem lowMap_cached {k : Nat} {x : Nat × Nat}
    (h : lowMap.lookup k = some x) :
    (x.2 ||| PTE_PRESENT) &&& PTE_PCD = 0 := by
  obtain ⟨t, hroot, hleaf⟩ := Option.bind_eq_some_iff.mp h
  have hroot : (if k < 2 then some (Table.low k) else none) = some t := hroot
  split at hroot
  · obtain rfl := Option.some.inj hroot
    obtain rfl := Option.some.inj hleaf
    show (PTE_RW ||| PTE_USER ||| PTE_PRESENT) &&& PTE_PCD = 0
    decide
  · exact absurd hroot.symm (Option.some_ne_none t)

/-- Two successful calls after `vmm_init`. -/
theorem two_calls_describe (L : VmmLayout) (mem : Mem) {op op' : MapOp}
    (h : op.Legal) (h' : op'.Legal) :
    Describes L (op'.call L (op.call L (vmmInit L mem)).1).1.mem
      (op'.applied (op.applied lowMap)) := by
  obtain ⟨hready, hinit⟩ := vmmInit_describes L mem
  obtain ⟨hready', -, hfirst⟩ := call_describes hready hinit h
  exact (call_describes hready' hfirst h').2.2

theorem tables_ne_zero {s : Vmm} (hready : s.ready = true)
    (h : Describes L s.mem d) {op : MapOp} (hlegal : op.Legal)
    (hok : (op.call L s).2 = 1) : op.tables ≠ 0 := by
  intro hzero
  rw [(call_describes hready h hlegal).2.1, if_pos hzero] at hok
  exact absurd hok (by decide)

/-- A device range with tables is mapped wherever it has a byte. -/
theorem maps_of_hasByte {phys bytes : UInt32} {k : Nat}
    (h : (MapOp.mmio phys bytes).Legal)
    (hok : (MapOp.mmio phys bytes).tables ≠ 0)
    (hk : (MapOp.mmio phys bytes).HasByte k) :
    (MapOp.mmio phys bytes).Maps k := by
  obtain ⟨va, hlo, hhi, rfl⟩ := hk
  exact MapOp.mmio_covers h hok hlo hhi

-- ========================================================== the last call

section Last

variable {fbPhys fbBytes devPhys devBytes : UInt32}

theorem mmio_uncached (phys bytes : UInt32) :
    ((MapOp.mmio phys bytes).attr ||| PTE_PRESENT) &&& PTE_PCD ≠ 0 := by
  show (PTE_PCD ||| PTE_RW ||| PTE_PRESENT) &&& PTE_PCD ≠ 0
  decide

theorem lfb_cached (phys bytes : UInt32) :
    ((MapOp.lfb phys bytes).attr ||| PTE_PRESENT) &&& PTE_PCD = 0 := by
  show (PTE_RW ||| PTE_PRESENT) &&& PTE_PCD = 0
  decide

/-- The framebuffer last: its window must leave the device's pages alone,
and the device's window what is behind the framebuffer's. -/
theorem lfb_last_iff (L : VmmLayout) (mem : Mem)
    (hfb : (MapOp.lfb fbPhys fbBytes).Legal)
    (hdev : (MapOp.mmio devPhys devBytes).Legal)
    (hok : ((MapOp.mmio devPhys devBytes).call L (vmmInit L mem)).2 = 1) :
    Independent L
        ((MapOp.lfb fbPhys fbBytes).call L
          ((MapOp.mmio devPhys devBytes).call L (vmmInit L mem)).1).1.mem
        (MapOp.lfb fbPhys fbBytes) (MapOp.mmio devPhys devBytes)
      ↔ (∀ k, (MapOp.lfb fbPhys fbBytes).Maps k →
            ¬ (MapOp.mmio devPhys devBytes).HasByte k)
          ∧ ∀ k, (MapOp.mmio devPhys devBytes).Maps k →
            ¬ (MapOp.lfb fbPhys fbBytes).Maps k →
              ¬ (MapOp.lfb fbPhys fbBytes).HasByte k := by
  have hset := mmio_uncached devPhys devBytes
  have hclear := lfb_cached fbPhys fbBytes
  obtain ⟨hready, hinit⟩ := vmmInit_describes L mem
  have htables := tables_ne_zero hready hinit hdev hok
  have hpool : OtherPool (MapOp.mmio devPhys devBytes)
      (MapOp.lfb fbPhys fbBytes) := fun t u h => Table.noConfusion h
  rw [independent_iff (two_calls_describe L mem hdev hfb) hfb hdev]
  constructor
  · intro hind
    obtain ⟨hdevice, hframe⟩ := hind
    refine ⟨fun k hmaps hbyte => ?_, fun k hmaps hmaps' hbyte => ?_⟩
    · obtain ⟨x, hx, hpcd⟩ := hdevice k hbyte
      rw [lookup_applied_of_maps hmaps] at hx
      obtain rfl := Option.some.inj hx
      exact hpcd hclear
    · exact hset (hframe k hbyte _ (lookup_two_first hpool hmaps hmaps'))
  · intro hapart
    obtain ⟨hover, hrest⟩ := hapart
    refine ⟨fun k hbyte => ?_, fun k hbyte x hx => ?_⟩
    · have hmaps := maps_of_hasByte hdev htables hbyte
      exact ⟨_, lookup_two_first hpool hmaps fun hmaps' =>
        hover k hmaps' hbyte, hset⟩
    · by_cases hmaps' : (MapOp.lfb fbPhys fbBytes).Maps k
      · rw [lookup_applied_of_maps hmaps'] at hx
        obtain rfl := Option.some.inj hx
        exact hclear
      · by_cases hmaps : (MapOp.mmio devPhys devBytes).Maps k
        · exact absurd hbyte (hrest k hmaps hmaps')
        · rw [lookup_two_none hpool hmaps hmaps'] at hx
          exact lowMap_cached hx

/-- The device last: its window must leave the framebuffer alone. -/
theorem mmio_last_iff (L : VmmLayout) (mem : Mem)
    (hfb : (MapOp.lfb fbPhys fbBytes).Legal)
    (hdev : (MapOp.mmio devPhys devBytes).Legal)
    (hok : ((MapOp.mmio devPhys devBytes).call L
      ((MapOp.lfb fbPhys fbBytes).call L (vmmInit L mem)).1).2 = 1) :
    Independent L
        ((MapOp.mmio devPhys devBytes).call L
          ((MapOp.lfb fbPhys fbBytes).call L (vmmInit L mem)).1).1.mem
        (MapOp.lfb fbPhys fbBytes) (MapOp.mmio devPhys devBytes)
      ↔ ∀ k, (MapOp.mmio devPhys devBytes).Maps k →
          ¬ (MapOp.lfb fbPhys fbBytes).HasByte k := by
  have hset := mmio_uncached devPhys devBytes
  obtain ⟨hready, hinit⟩ := vmmInit_describes L mem
  obtain ⟨hready', -, hfirst⟩ := call_describes hready hinit hfb
  have htables := tables_ne_zero hready' hfirst hdev hok
  have hpool : OtherPool (MapOp.lfb fbPhys fbBytes)
      (MapOp.mmio devPhys devBytes) := fun t u h => Table.noConfusion h
  rw [independent_iff (two_calls_describe L mem hfb hdev) hfb hdev]
  constructor
  · intro hind k hmaps hbyte
    exact hset (hind.2 k hbyte _ (lookup_applied_of_maps hmaps))
  · intro hrest
    refine ⟨fun k hbyte => ?_, fun k hbyte x hx => ?_⟩
    · have hmaps := maps_of_hasByte hdev htables hbyte
      exact ⟨_, lookup_applied_of_maps hmaps, hset⟩
    · have hmaps : ¬ (MapOp.mmio devPhys devBytes).Maps k :=
        fun hmaps => hrest k hmaps hbyte
      by_cases hmaps' : (MapOp.lfb fbPhys fbBytes).Maps k
      · rw [lookup_two_first hpool hmaps' hmaps] at hx
        obtain rfl := Option.some.inj hx
        exact lfb_cached fbPhys fbBytes
      · rw [lookup_two_none hpool hmaps' hmaps] at hx
        exact lowMap_cached hx

end Last

-- ============================================================== the result

/-- After `vmm_init`, one successful `vmm_map_mmio` and one successful
`vmm_map_lfb`, in either order: when the two ranges have their own flags.
The framebuffer's window is the first 32 MiB of its range. -/
theorem windows_independent_iff (L : VmmLayout) (mem : Mem)
    {fbPhys fbBytes devPhys devBytes : UInt32}
    (hfb : fbPhys.toNat + fbBytes.toNat ≤ 2 ^ 32)
    (hdev : devPhys.toNat + devBytes.toNat ≤ 2 ^ 32) :
    let fb := MapOp.lfb fbPhys fbBytes
    let dev := MapOp.mmio devPhys devBytes
    let s := vmmInit L mem
    ((dev.call L s).2 = 1 → (fb.call L (dev.call L s).1).2 = 1 →
        (Independent L (fb.call L (dev.call L s).1).1.mem fb dev
          ↔ (∀ k, fb.Maps k → ¬ dev.HasByte k)
            ∧ ∀ k, dev.Maps k → ¬ fb.Maps k → ¬ fb.HasByte k))
      ∧ ((fb.call L s).2 = 1 → (dev.call L (fb.call L s).1).2 = 1 →
        (Independent L (dev.call L (fb.call L s).1).1.mem fb dev
          ↔ ∀ k, dev.Maps k → ¬ fb.HasByte k)) := by
  intro fb dev s
  exact ⟨fun hok _ => lfb_last_iff L mem hfb hdev hok,
    fun _ hok => mmio_last_iff L mem hfb hdev hok⟩

/-- A framebuffer at 0xE0000000 and registers at 0xFEBF0000. -/
theorem windows_independent_iff_apart :
    let fb := MapOp.lfb 0xE0000000 0x300000
    let dev := MapOp.mmio 0xFEBF0000 0x10000
    let s := vmmInit layoutAt2M fun _ => 0
    ((dev.call layoutAt2M s).2 = 1 →
        (fb.call layoutAt2M (dev.call layoutAt2M s).1).2 = 1 →
        (Independent layoutAt2M
            (fb.call layoutAt2M (dev.call layoutAt2M s).1).1.mem fb dev
          ↔ (∀ k, fb.Maps k → ¬ dev.HasByte k)
            ∧ ∀ k, dev.Maps k → ¬ fb.Maps k → ¬ fb.HasByte k))
      ∧ ((fb.call layoutAt2M s).2 = 1 →
        (dev.call layoutAt2M (fb.call layoutAt2M s).1).2 = 1 →
        (Independent layoutAt2M
            (dev.call layoutAt2M (fb.call layoutAt2M s).1).1.mem fb dev
          ↔ ∀ k, dev.Maps k → ¬ fb.HasByte k)) :=
  windows_independent_iff layoutAt2M (fun _ => 0) (by decide) (by decide)

/-- A framebuffer of 3 MiB and registers right behind it, in one slot: the
call made last decides for both. -/
theorem windows_collide :
    let fb := MapOp.lfb 0xE0000000 0x300000
    let dev := MapOp.mmio 0xE0300000 0x10000
    let s := vmmInit layoutAt2M fun _ => 0
    ((dev.call layoutAt2M s).2 = 1
        ∧ (fb.call layoutAt2M (dev.call layoutAt2M s).1).2 = 1
        ∧ ¬ Independent layoutAt2M
          (fb.call layoutAt2M (dev.call layoutAt2M s).1).1.mem fb dev)
      ∧ (fb.call layoutAt2M s).2 = 1
        ∧ (dev.call layoutAt2M (fb.call layoutAt2M s).1).2 = 1
        ∧ ¬ Independent layoutAt2M
          (dev.call layoutAt2M (fb.call layoutAt2M s).1).1.mem fb dev := by
  intro fb dev s
  have hfb : fb.Legal := by decide
  have hdev : dev.Legal := by decide
  have hmapsFb : fb.Maps 896 := by decide
  have hmapsDev : dev.Maps 896 := by decide
  have hbyteFb : fb.HasByte 896 :=
    ⟨0xE0000000, by decide, by decide, by decide⟩
  have hbyteDev : dev.HasByte 896 :=
    ⟨0xE0300000, by decide, by decide, by decide⟩
  obtain ⟨hready, hinit⟩ := vmmInit_describes layoutAt2M fun _ => 0
  obtain ⟨hreadyDev, hokDev, hafterDev⟩ := call_describes hready hinit hdev
  obtain ⟨hreadyFb, hokFb, hafterFb⟩ := call_describes hready hinit hfb
  have hokFb' := (call_describes hreadyDev hafterDev hfb).2.1
  have hokDev' := (call_describes hreadyFb hafterFb hdev).2.1
  have hone : ∀ op : MapOp, op.Maps 896 →
      (if op.tables = 0 then 0 else 1) = 1 := by
    intro op hmaps
    obtain ⟨hlo, hhi⟩ := hmaps
    rw [if_neg (by omega)]
  refine ⟨⟨hokDev.trans (hone dev hmapsDev), hokFb'.trans (hone fb hmapsFb),
    fun hind => ?_⟩, hokFb.trans (hone fb hmapsFb),
    hokDev'.trans (hone dev hmapsDev), fun hind => ?_⟩
  · rw [independent_iff (two_calls_describe _ _ hdev hfb) hfb hdev] at hind
    obtain ⟨x, hx, hpcd⟩ := hind.1 896 hbyteDev
    rw [lookup_applied_of_maps hmapsFb] at hx
    obtain rfl := Option.some.inj hx
    exact hpcd (by decide)
  · rw [independent_iff (two_calls_describe _ _ hfb hdev) hfb hdev] at hind
    have hclear := hind.2 896 hbyteFb _ (lookup_applied_of_maps hmapsDev)
    exact absurd hclear (by decide)

end Thuos.Mm
