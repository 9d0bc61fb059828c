/-
Virtual equals physical for everything promised, and until when.

`Paging` keeps a ledger beside the page tables: the low 8 MiB and every
range that a `vmm_map_mmio` call reported as mapped. Each kind of call
fills its own pool of tables from the first table on, whatever earlier
calls have used them for, and directory entries are never cleared. So a
promise breaks exactly when a call refills a table that the directory
entry of another promised slot still points to (`identity_step_iff`); in
every run of calls that do not, every promise holds (`promised_identity`).
-/
import Thuos.Lib.Machine
import Thuos.Mm.Proofs.PageSlots

namespace Thuos.Mm

open Machine ByteMem Word32

-- ============================================================== the ledger

/-- The page tables and the ranges promised, `(start, length)`. -/
structure Paging where
  vmm : Vmm
  promised : List (Nat × Nat)

/-- After `vmm_init`. -/
def Paging.start (L : VmmLayout) (mem : Mem) : Paging :=
  { vmm := vmmInit L mem, promised := [(0, VMM_IDMAP_BYTES)] }

def Paging.step (L : VmmLayout) (s : Paging) (op : MapOp) : Paging :=
  let r := op.call L s.vmm
  { vmm := r.1
    promised :=
      match op with
      | .lfb _ _ => s.promised
      | .mmio phys bytes =>
          if r.2 = 1 then (phys.toNat, bytes.toNat) :: s.promised
          else s.promised }

/-- Address `va` lies in a promised range. -/
def Promised (s : Paging) (va : Nat) : Prop :=
  ∃ r ∈ s.promised, r.1 ≤ va ∧ va < r.1 + r.2

/-- Every promised address translates to itself. The walk takes tables by
their physical address, from `page_dir` on. -/
def IdentityHolds (L : VmmLayout) (s : Paging) : Prop :=
  ∀ va, Promised s va → vmmTranslate s.vmm.mem L.pageDir 0 0 va = some va

/-- The call refills no table that the directory entry of a promised
address in a slot it does not map points to. -/
def Harmless (L : VmmLayout) (s : Paging) (op : MapOp) : Prop :=
  ∀ va, Promised s va → ¬ op.Maps (va / 2 ^ 22) → ∀ t < op.tables,
    vmmEntryAddr (s.vmm.mem.load32 (L.pageDir + 4 * vmmPdeIndex va))
      ≠ (op.table t).addr L

-- =========================================================== the invariant

variable {L : VmmLayout} {s : Paging} {d : TwoLevel Nat Table Nat}

/-- The memory is the two-level map `d`, and each promised address lies in
a slot that reads itself. -/
structure Kept (L : VmmLayout) (s : Paging) (d : TwoLevel Nat Table Nat) :
    Prop where
  ready : s.vmm.ready = true
  describes : Describes L s.vmm.mem d
  own : ∀ va, Promised s va → va < 2 ^ 32
    ∧ ∃ a, d.lookup (va / 2 ^ 22) = some (va / 2 ^ 22, a)

/-- An address translates to itself exactly when its slot reads itself. -/
theorem translate_self_iff {m : Mem} (h : Describes L m d) {va : Nat}
    (hva : va < 2 ^ 32) :
    vmmTranslate m L.pageDir 0 0 va = some va
      ↔ ∃ a, d.lookup (va / 2 ^ 22) = some (va / 2 ^ 22, a) := by
  rw [h.translate hva]
  cases d.lookup (va / 2 ^ 22) with
  | none => simp
  | some x =>
      obtain ⟨k, a⟩ := x
      simp only [Option.map_some, Option.some.injEq, Prod.mk.injEq]
      constructor
      · intro heq
        exact ⟨a, by omega, rfl⟩
      · rintro ⟨b, rfl, -⟩
        omega

theorem Kept.identity (h : Kept L s d) : IdentityHolds L s := by
  intro va hva
  obtain ⟨hlt, hown⟩ := h.own va hva
  exact (translate_self_iff h.describes hlt).mpr hown

/-- The low 8 MiB read themselves. -/
theorem kept_start (L : VmmLayout) (mem : Mem) :
    Kept L (Paging.start L mem) lowMap := by
  obtain ⟨hready, hdescribes⟩ := vmmInit_describes L mem
  refine ⟨hready, hdescribes, fun va hva => ?_⟩
  obtain ⟨r, hr, hlo, hhi⟩ := hva
  obtain rfl := List.mem_singleton.mp hr
  unfold VMM_IDMAP_BYTES at hhi
  have hslot : va / 2 ^ 22 < 2 := by omega
  refine ⟨by omega, PTE_RW ||| PTE_USER, ?_⟩
  have hroot : lowMap.root (va / 2 ^ 22) = some (.low (va / 2 ^ 22)) :=
    if_pos hslot
  unfold TwoLevel.lookup
  rw [hroot]
  rfl

/-- What is promised after a call: what was, and the range of a call for
device registers that succeeded. -/
theorem promised_step {op : MapOp} {va : Nat}
    (hresult : (op.call L s.vmm).2 = if op.tables = 0 then 0 else 1)
    (hlegal : op.Legal) (h : Promised (s.step L op) va) :
    Promised s va ∨ (op.Maps (va / 2 ^ 22) ∧ va < 2 ^ 32) := by
  obtain ⟨r, hr, hlo, hhi⟩ := h
  unfold Paging.step at hr
  cases op with
  | lfb phys bytes => exact Or.inl ⟨r, hr, hlo, hhi⟩
  | mmio phys bytes =>
      dsimp only at hr
      rw [hresult] at hr
      by_cases hzero : (MapOp.mmio phys bytes).tables = 0
      · rw [if_pos hzero, if_neg (by decide)] at hr
        exact Or.inl ⟨r, hr, hlo, hhi⟩
      · rw [if_neg hzero, if_pos rfl] at hr
        rcases List.mem_cons.mp hr with rfl | hr
        · have hend : phys.toNat + bytes.toNat ≤ 2 ^ 32 := hlegal
          exact Or.inr ⟨MapOp.mmio_covers hlegal hzero hlo hhi, by
            dsimp only at hhi
            omega⟩
        · exact Or.inl ⟨r, hr, hlo, hhi⟩

/-- No promise is taken back. -/
theorem Promised.step {va : Nat} (h : Promised s va) (op : MapOp) :
    Promised (s.step L op) va := by
  obtain ⟨r, hr, hin⟩ := h
  refine ⟨r, ?_, hin⟩
  unfold Paging.step
  cases op with
  | lfb phys bytes => exact hr
  | mmio phys bytes =>
      dsimp only
      split
      · exact List.mem_cons_of_mem _ hr
      · exact hr

/-- The address in the directory entry of a promised address, and the
table it is. -/
theorem Kept.refilled_iff (h : Kept L s d) {va : Nat} (hva : Promised s va)
    {t : Table} (ht : t.Valid) :
    vmmEntryAddr (s.vmm.mem.load32 (L.pageDir + 4 * vmmPdeIndex va))
        = t.addr L
      ↔ d.root (va / 2 ^ 22) = some t := by
  obtain ⟨hlt, a, hown⟩ := h.own va hva
  have hslot : va / 2 ^ 22 < 1024 := by omega
  obtain ⟨u, hroot, -⟩ := Option.bind_eq_some_iff.mp hown
  have haddr := (h.describes.entryAddr hslot hroot).2
  have hu := (h.describes.root_some _ hslot u hroot).1
  rw [vmmPdeIndex_eq, haddr, hroot]
  constructor
  · intro heq
    by_contra hne
    exact Table.addr_ne L hu ht (fun h => hne (congrArg some h)) heq
  · intro heq
    rw [Option.some.inj heq]

/-- The step lemma: a harmless call keeps every promise and adds its
own. -/
theorem Kept.step (h : Kept L s d) {op : MapOp} (hlegal : op.Legal)
    (hharmless : Harmless L s op) : Kept L (s.step L op) (op.applied d) := by
  obtain ⟨hready, hresult, hdescribes⟩ :=
    call_describes h.ready h.describes hlegal
  refine ⟨hready, hdescribes, fun va hva => ?_⟩
  rcases promised_step hresult hlegal hva with hold | ⟨hmaps, hlt⟩
  · obtain ⟨hlt, a, hown⟩ := h.own va hold
    refine ⟨hlt, ?_⟩
    by_cases hmaps : op.Maps (va / 2 ^ 22)
    · exact ⟨op.attr, lookup_applied_of_maps hmaps⟩
    · refine ⟨a, ?_⟩
      rw [lookup_applied_of_not_maps hmaps
        fun t ht hroot => hharmless va hold hmaps t ht ?_]
      · exact hown
      · exact (h.refilled_iff hold (MapOp.table_valid ht)).mpr hroot
  · exact ⟨hlt, op.attr, lookup_applied_of_maps hmaps⟩

/-- After a call every promise holds exactly when the call was
harmless. -/
theorem identity_step_iff (h : Kept L s d) {op : MapOp}
    (hlegal : op.Legal) :
    IdentityHolds L (s.step L op) ↔ Harmless L s op := by
  constructor
  · intro hident va hva hmaps t ht haddr
    obtain ⟨-, -, hdescribes⟩ := call_describes h.ready h.describes hlegal
    obtain ⟨hlt, -⟩ := h.own va hva
    have hroot := (h.refilled_iff hva (MapOp.table_valid ht)).mp haddr
    -- the slot now reads the slot that its table was refilled for
    have hkey := not_key_of_not_maps hmaps
    have hread := TwoLevel.lookup_assign_refilled (a := op.attr)
      op.table_injective hkey ht hroot
    obtain ⟨b, hself⟩ := (translate_self_iff hdescribes hlt).mp
      (hident va (hva.step op))
    have := Prod.mk.inj (Option.some.inj (hself.symm.trans hread))
    exact hkey t ht this.1
  · exact fun hharmless => (h.step hlegal hharmless).identity

-- ============================================================== the result

/-- In every run of calls after `vmm_init`, with ranges that do not pass
4 GiB and each harmless when it is made, every promised address translates
to itself; and the next call leaves it so exactly when it is harmless. -/
theorem promised_identity (L : VmmLayout) (mem : Mem) {ops : List MapOp}
    (hops : Along (Paging.step L)
      (fun s op => op.Legal ∧ Harmless L s op) (Paging.start L mem) ops) :
    IdentityHolds L (exec (Paging.step L) (Paging.start L mem) ops)
      ∧ ∀ op : MapOp, op.Legal →
        (IdentityHolds L
            ((exec (Paging.step L) (Paging.start L mem) ops).step L op)
          ↔ Harmless L (exec (Paging.step L) (Paging.start L mem) ops)
            op) := by
  obtain ⟨d, h⟩ := exec_inv (fun s => ∃ d, Kept L s d)
    (fun s op hs hop => by
      obtain ⟨d, hs⟩ := hs
      exact ⟨_, hs.step hop.1 hop.2⟩)
    ⟨lowMap, kept_start L mem⟩ hops
  exact ⟨h.identity, fun op hlegal => identity_step_iff h hlegal⟩

/-- The first call for device registers is harmless: no slot points to its
tables. -/
theorem harmless_first (L : VmmLayout) (mem : Mem) (phys bytes : UInt32) :
    Harmless L (Paging.start L mem) (.mmio phys bytes) := by
  have h := kept_start L mem
  intro va hva _ t ht haddr
  have hroot := (h.refilled_iff hva (MapOp.table_valid ht)).mp haddr
  have hroot : (if va / 2 ^ 22 < 2 then some (Table.low (va / 2 ^ 22))
    else none) = some (Table.mmio t) := hroot
  split at hroot
  · exact Table.noConfusion (Option.some.inj hroot)
  · exact absurd hroot.symm (Option.some_ne_none _)

/-- One device at 0xFEBF0000. -/
theorem promised_identity_one :
    IdentityHolds layoutAt2M (exec (Paging.step layoutAt2M)
        (Paging.start layoutAt2M fun _ => 0) [.mmio 0xFEBF0000 0x10000])
      ∧ ∀ op : MapOp, op.Legal →
        (IdentityHolds layoutAt2M ((exec (Paging.step layoutAt2M)
            (Paging.start layoutAt2M fun _ => 0)
            [.mmio 0xFEBF0000 0x10000]).step layoutAt2M op)
          ↔ Harmless layoutAt2M (exec (Paging.step layoutAt2M)
            (Paging.start layoutAt2M fun _ => 0) [.mmio 0xFEBF0000 0x10000])
            op) :=
  promised_identity layoutAt2M (fun _ => 0)
    ⟨⟨by decide, harmless_first _ _ _ _⟩, trivial⟩

/-- Two devices in different slots: the second call refills the table of
the first, whose registers now read the second's. -/
theorem first_device_lost :
    let s := exec (Paging.step layoutAt2M)
      (Paging.start layoutAt2M fun _ => 0)
      [.mmio 0xE0000000 0x1000, .mmio 0xF0000000 0x1000]
    Promised s 0xE0000000
      ∧ vmmTranslate s.vmm.mem layoutAt2M.pageDir 0 0 0xE0000000
        = some 0xF0000000 := by
  have h := kept_start layoutAt2M fun _ => 0
  have hlegal : (MapOp.mmio 0xE0000000 0x1000).Legal := by decide
  have hlegal' : (MapOp.mmio 0xF0000000 0x1000).Legal := by decide
  obtain ⟨hready, hok, hfirst⟩ := call_describes h.ready h.describes hlegal
  obtain ⟨-, -, hsecond⟩ := call_describes hready hfirst hlegal'
  refine ⟨?_, ?_⟩
  · refine Promised.step ⟨(0xE0000000, 0x1000), ?_, by decide, by decide⟩ _
    unfold Paging.step
    dsimp only
    rw [if_pos (hok.trans (by decide))]
    exact List.mem_cons_self
  · have hva : 0xE0000000 < 2 ^ 32 := by decide
    have hread := hsecond.translate hva
    exact hread

end Thuos.Mm
