/-
Free space as runs of bytes.

A client sees an arena as bytes: `Taken` are those of the headers and
payloads in use, and what is left falls into maximal runs (`MaximalRun`).
The allocator sees cells. Where no two neighbouring cells are free the two
views agree: the maximal runs of free bytes are the free cells, header
included (`maximalRun_iff`). So first fit over the cells is first fit over
the runs (`alloc_lowest`), and it fails only when every run is too short
(`alloc_none_iff_runs`).
-/
import Thuos.Lib.FirstFit

namespace FirstFit

-- ================================================================== runs

/-- `[a, b)` is a longest run of `P` between `lo` and `hi`. -/
structure MaximalRun (P : Nat → Prop) (lo hi a b : Nat) : Prop where
  nonempty : a < b
  lo_le : lo ≤ a
  le_hi : b ≤ hi
  all : ∀ x, a ≤ x → x < b → P x
  first : a = lo ∨ ¬ P (a - 1)
  last : b = hi ∨ ¬ P b

/-- A run of `P` lies within the maximal one it meets. -/
theorem MaximalRun.subrun {P : Nat → Prop} {lo hi a b u v : Nat}
    (h : MaximalRun P lo hi a b) (hlo : lo ≤ u) (hhi : v ≤ hi)
    (hall : ∀ x, u ≤ x → x < v → P x) (hau : a < v) (hub : u < b) :
    a ≤ u ∧ v ≤ b := by
  constructor
  · by_contra hlt
    rcases h.first with heq | hout
    · omega
    · exact hout (hall (a - 1) (by omega) (by omega))
  · by_contra hlt
    rcases h.last with heq | hout
    · omega
    · exact hout (hall b (by omega) (by omega))

/-- Two maximal runs that meet are the same. -/
theorem MaximalRun.eq_of_meet {P : Nat → Prop} {lo hi a b u v : Nat}
    (h : MaximalRun P lo hi a b) (h' : MaximalRun P lo hi u v)
    (hau : a < v) (hub : u < b) : a = u ∧ b = v := by
  obtain ⟨hau', hvb⟩ := h.subrun h'.lo_le h'.le_hi h'.all hau hub
  obtain ⟨hua, hbv⟩ := h'.subrun h.lo_le h.le_hi h.all hub hau
  exact ⟨Nat.le_antisymm hau' hua, Nat.le_antisymm hbv hvb⟩

-- ============================================================ free cells

section Layout

variable (hdr : Nat)

/-- `x` lies in one of the payloads, or in the header in front of it. -/
def Taken (used : List (Nat × Nat)) (x : Nat) : Prop :=
  ∃ q ∈ used, q.1 ≤ x + hdr ∧ x < q.1 + q.2

/-- Where the free cells start, and the bytes they take. -/
def freeCells : Nat → List Cell → List (Nat × Nat)
  | _, [] => []
  | a, c :: cs =>
      if c.free then (a, hdr + c.size) :: freeCells (a + hdr + c.size) cs
      else freeCells (a + hdr + c.size) cs

end Layout

variable {hdr : Nat}

theorem freeCells_bounds {cs : List Cell} {u : Nat × Nat} :
    ∀ {a : Nat}, u ∈ freeCells hdr a cs →
      a ≤ u.1 ∧ u.1 + u.2 ≤ a + extent hdr cs ∧ hdr ≤ u.2 := by
  induction cs with
  | nil => intro a h; exact absurd h List.not_mem_nil
  | cons c cs ih =>
      intro a h
      rw [freeCells] at h
      rw [extent]
      split at h
      · rcases List.mem_cons.mp h with rfl | h
        · dsimp only
          omega
        · have := ih h
          omega
      · have := ih h
        omega

theorem taken_bounds {cs : List Cell} {a x : Nat}
    (h : Taken hdr (inUse hdr a cs) x) :
    a ≤ x ∧ x < a + extent hdr cs := by
  obtain ⟨q, hq, hlo, hhi⟩ := h
  have := inUse_bounds hq
  omega

/-- The bytes of a used first cell, and those behind it. -/
theorem taken_cons_used {c : Cell} {cs : List Cell} {a x : Nat}
    (hc : c.free = false) :
    Taken hdr (inUse hdr a (c :: cs)) x
      ↔ (a ≤ x ∧ x < a + hdr + c.size)
        ∨ Taken hdr (inUse hdr (a + hdr + c.size) cs) x := by
  rw [inUse, if_neg (by rw [hc]; exact Bool.false_ne_true)]
  unfold Taken
  rw [List.exists_mem_cons_iff]
  exact or_congr_left (and_congr_left' Nat.add_le_add_iff_right)

theorem taken_cons_free {c : Cell} {cs : List Cell} {a x : Nat}
    (hc : c.free = true) :
    Taken hdr (inUse hdr a (c :: cs)) x
      ↔ Taken hdr (inUse hdr (a + hdr + c.size) cs) x := by
  rw [inUse, if_pos hc]

/-- Every byte of the arena is taken or lies in a free cell. -/
theorem taken_or_free {cs : List Cell} {x : Nat} :
    ∀ {a : Nat}, a ≤ x → x < a + extent hdr cs →
      Taken hdr (inUse hdr a cs) x
        ∨ ∃ u ∈ freeCells hdr a cs, u.1 ≤ x ∧ x < u.1 + u.2 := by
  induction cs with
  | nil =>
      intro a hlo hhi
      rw [extent] at hhi
      omega
  | cons c cs ih =>
      intro a hlo hhi
      rw [extent] at hhi
      rw [freeCells]
      cases hc : c.free with
      | true =>
          rw [if_pos rfl, taken_cons_free hc, List.exists_mem_cons_iff]
          by_cases hin : x < a + hdr + c.size
          · exact Or.inr (Or.inl ⟨hlo, by dsimp only; omega⟩)
          · exact (ih (by omega) (by omega)).imp_right Or.inr
      | false =>
          rw [if_neg Bool.false_ne_true, taken_cons_used hc, or_assoc]
          by_cases hin : x < a + hdr + c.size
          · exact Or.inl ⟨hlo, hin⟩
          · exact Or.inr (ih (by omega) (by omega))

/-- No byte of a free cell is taken. -/
theorem not_taken_of_free {cs : List Cell} {u : Nat × Nat} {x : Nat} :
    ∀ {a : Nat}, u ∈ freeCells hdr a cs → u.1 ≤ x → x < u.1 + u.2 →
      ¬ Taken hdr (inUse hdr a cs) x := by
  induction cs with
  | nil => intro a h; exact absurd h List.not_mem_nil
  | cons c cs ih =>
      intro a h hlo hhi
      rw [freeCells] at h
      cases hc : c.free with
      | true =>
          rw [hc, if_pos rfl] at h
          rw [taken_cons_free hc]
          rcases List.mem_cons.mp h with rfl | h
          · intro htaken
            have := taken_bounds htaken
            dsimp only at hhi
            omega
          · exact ih h hlo hhi
      | false =>
          rw [hc, if_neg Bool.false_ne_true] at h
          rw [taken_cons_used hc, not_or]
          have := freeCells_bounds h
          exact ⟨by omega, ih h hlo hhi⟩

/-- Where a free cell starts, the cells do or a taken byte ends. -/
theorem taken_before {cs : List Cell} {u : Nat × Nat} (hpos : 0 < hdr) :
    ∀ {a : Nat}, Separated cs → u ∈ freeCells hdr a cs →
      u.1 = a ∨ Taken hdr (inUse hdr a cs) (u.1 - 1) := by
  induction cs with
  | nil => intro a _ h; exact absurd h List.not_mem_nil
  | cons c cs ih =>
      intro a hsep h
      rw [freeCells] at h
      cases hc : c.free with
      | true =>
          rw [hc, if_pos rfl] at h
          rw [taken_cons_free hc]
          rcases List.mem_cons.mp h with rfl | h
          · exact Or.inl rfl
          · refine Or.inr ((ih hsep.tail h).resolve_left fun hstart => ?_)
            -- the cell behind a free one is used
            cases cs with
            | nil => exact absurd h List.not_mem_nil
            | cons d cs =>
                have hd := (separated_cons.mp hsep).1
                rw [hc, Bool.true_and] at hd
                rw [freeCells, hd, if_neg Bool.false_ne_true] at h
                have := freeCells_bounds h
                omega
      | false =>
          rw [hc, if_neg Bool.false_ne_true] at h
          rw [taken_cons_used hc]
          rcases ih hsep.tail h with hstart | htaken
          · exact Or.inr (Or.inl ⟨by omega, by omega⟩)
          · exact Or.inr (Or.inr htaken)

/-- Where a free cell ends, the cells do or a taken byte starts. -/
theorem taken_after {cs : List Cell} {u : Nat × Nat} (hpos : 0 < hdr) :
    ∀ {a : Nat}, Separated cs → u ∈ freeCells hdr a cs →
      u.1 + u.2 = a + extent hdr cs
        ∨ Taken hdr (inUse hdr a cs) (u.1 + u.2) := by
  induction cs with
  | nil => intro a _ h; exact absurd h List.not_mem_nil
  | cons c cs ih =>
      intro a hsep h
      rw [freeCells] at h
      rw [extent]
      cases hc : c.free with
      | true =>
          rw [hc, if_pos rfl] at h
          rw [taken_cons_free hc]
          rcases List.mem_cons.mp h with rfl | h
          · dsimp only
            cases cs with
            | nil =>
                rw [extent]
                exact Or.inl (by omega)
            | cons d cs =>
                have hd := (separated_cons.mp hsep).1
                rw [hc, Bool.true_and] at hd
                rw [taken_cons_used hd]
                exact Or.inr (Or.inl ⟨by omega, by omega⟩)
          · exact (ih hsep.tail h).imp_left (by omega)
      | false =>
          rw [hc, if_neg Bool.false_ne_true] at h
          rw [taken_cons_used hc]
          exact (ih hsep.tail h).imp (by omega) Or.inr

/-- Of separated cells the maximal runs of free bytes are the free
cells. -/
theorem maximalRun_iff (hpos : 0 < hdr) {cs : List Cell} {lo a b : Nat}
    (hsep : Separated cs) :
    MaximalRun (fun x => ¬ Taken hdr (inUse hdr lo cs) x) lo
        (lo + extent hdr cs) a b
      ↔ a ≤ b ∧ (a, b - a) ∈ freeCells hdr lo cs := by
  have hcell : ∀ u ∈ freeCells hdr lo cs,
      MaximalRun (fun x => ¬ Taken hdr (inUse hdr lo cs) x) lo
        (lo + extent hdr cs) u.1 (u.1 + u.2) := by
    intro u hu
    obtain ⟨hlo, hhi, hsize⟩ := freeCells_bounds hu
    refine ⟨by omega, hlo, hhi, fun x => not_taken_of_free hu, ?_, ?_⟩
    · exact (taken_before hpos hsep hu).imp id not_not.mpr
    · exact (taken_after hpos hsep hu).imp id not_not.mpr
  constructor
  · intro h
    have hnonempty := h.nonempty
    have hle := h.le_hi
    obtain ⟨u, hu, hulo, huhi⟩ :=
      (taken_or_free h.lo_le (by omega)).resolve_left
        (h.all a (Nat.le_refl a) h.nonempty)
    obtain ⟨rfl, rfl⟩ := h.eq_of_meet (hcell u hu) huhi (by omega)
    rw [Nat.add_sub_cancel_left]
    exact ⟨Nat.le_add_right _ _, hu⟩
  · rintro ⟨hab, hu⟩
    have hrun := hcell _ hu
    dsimp only at hrun
    rw [Nat.add_sub_cancel' hab] at hrun
    exact hrun

-- ============================================================= first fit

variable {slack n : Nat}

theorem alloc_none_iff_cells {cs : List Cell} :
    ∀ {a : Nat}, alloc hdr slack n a cs = none
      ↔ ∀ u ∈ freeCells hdr a cs, u.2 < hdr + n := by
  induction cs with
  | nil => intro a; simp [alloc, freeCells]
  | cons c cs ih =>
      intro a
      rw [alloc, freeCells]
      cases hc : c.free with
      | true =>
          rw [if_pos rfl, List.forall_mem_cons]
          by_cases hfit : n ≤ c.size
          · rw [if_pos ⟨rfl, hfit⟩]
            refine iff_of_false (by simp) fun h => ?_
            have := h.1
            dsimp only at this
            omega
          · rw [if_neg (fun h => hfit h.2), Option.map_eq_none_iff, ih,
              and_iff_right (by dsimp only; omega)]
      | false =>
          rw [if_neg (fun h => Bool.false_ne_true h.1),
            if_neg Bool.false_ne_true, Option.map_eq_none_iff, ih]

/-- What first fit takes: the lowest free cell that is long enough, with
at most a header and the slack more than was asked for. -/
def Lowest (hdr slack n a : Nat) (cs cs' : List Cell) (p : Nat) : Prop :=
  ∃ u ∈ freeCells hdr a cs, p = u.1 + hdr ∧ hdr + n ≤ u.2
    ∧ (∀ v ∈ freeCells hdr a cs, hdr + n ≤ v.2 → u.1 ≤ v.1)
    ∧ ∃ r, n ≤ r ∧ r < n + hdr + slack
      ∧ ∀ q, q ∈ inUse hdr a cs' ↔ q = (p, r) ∨ q ∈ inUse hdr a cs

theorem carve_lowest {a : Nat} {c : Cell} (cs : List Cell)
    (hpos : 0 < hdr) (hc : c.free = true) (hn : n ≤ c.size) :
    Lowest hdr slack n a (c :: cs) (carve hdr slack n c ++ cs) (a + hdr) := by
  have hcells : freeCells hdr a (c :: cs)
      = (a, hdr + c.size) :: freeCells hdr (a + hdr + c.size) cs := by
    rw [freeCells, if_pos hc]
  have hused : inUse hdr a (c :: cs) = inUse hdr (a + hdr + c.size) cs := by
    rw [inUse, if_pos hc]
  refine ⟨(a, hdr + c.size), ?_, rfl, Nat.add_le_add_left hn hdr,
    fun v hv _ => ?_, ?_⟩
  · rw [hcells]
    exact List.mem_cons_self
  · exact (freeCells_bounds hv).1
  · rw [hused]
    unfold carve
    by_cases hsplit : n + hdr + slack ≤ c.size
    · have hend : a + hdr + n + hdr + (c.size - n - hdr)
          = a + hdr + c.size := by omega
      refine ⟨n, Nat.le_refl n, by omega, fun q => ?_⟩
      rw [if_pos hsplit]
      show q ∈ (a + hdr, n)
        :: inUse hdr (a + hdr + n + hdr + (c.size - n - hdr)) cs ↔ _
      rw [hend, List.mem_cons]
    · refine ⟨c.size, hn, by omega, fun q => ?_⟩
      rw [if_neg hsplit]
      show q ∈ (a + hdr, c.size) :: inUse hdr (a + hdr + c.size) cs ↔ _
      rw [List.mem_cons]

theorem alloc_lowest (hpos : 0 < hdr) {p : Nat} {cs cs' : List Cell} :
    ∀ {a : Nat}, alloc hdr slack n a cs = some (cs', p) →
      Lowest hdr slack n a cs cs' p := by
  induction cs generalizing cs' with
  | nil => intro a h; exact absurd h (by simp [alloc])
  | cons c cs ih =>
      intro a h
      rw [alloc] at h
      by_cases hfit : c.free ∧ n ≤ c.size
      · rw [if_pos hfit] at h
        obtain ⟨rfl, rfl⟩ := Prod.mk.inj (Option.some.inj h)
        exact carve_lowest cs hpos hfit.1 hfit.2
      · rw [if_neg hfit] at h
        obtain ⟨⟨ds, q⟩, hds, heq⟩ := Option.map_eq_some_iff.mp h
        obtain ⟨rfl, rfl⟩ := Prod.mk.inj heq
        obtain ⟨u, hu, hp, hroom, hlow, r, hr, hslack, hmem⟩ := ih hds
        -- the cell that was skipped is used, or too short
        have hskip : ∀ v, v ∈ freeCells hdr a (c :: cs) → hdr + n ≤ v.2 →
            v ∈ freeCells hdr (a + hdr + c.size) cs := by
          intro v hv hlong
          rw [freeCells] at hv
          split at hv
          · next hc =>
            rcases List.mem_cons.mp hv with rfl | hv
            · exact absurd ⟨hc, by dsimp only at hlong; omega⟩ hfit
            · exact hv
          · exact hv
        refine ⟨u, ?_, hp, hroom, fun v hv hlong => ?_, r, hr, hslack,
          fun x => ?_⟩
        · rw [freeCells]
          split
          · exact List.mem_cons_of_mem _ hu
          · exact hu
        · exact hlow v (hskip v hv hlong) hlong
        · rw [inUse, inUse]
          split
          · exact hmem x
          · rw [List.mem_cons, List.mem_cons, hmem]
            exact or_left_comm

end FirstFit
