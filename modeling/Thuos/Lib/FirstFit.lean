/-
First-fit allocation over a tiled arena.

An arena is a list of cells, each a header of `hdr` bytes followed by a
payload. A cell has no address of its own: it starts where its
predecessor ends, so a list of cells tiles by construction, and what an
operation has to keep is the total `extent` (and the alignment of the
starts). What clients see is `inUse`, the payloads that are handed out
with their sizes, in address order:

- `alloc` inserts one (`alloc_spec`),
- `release` removes one (`inUse_release`),
- `coalesce` keeps them all (`inUse_coalesce`).

`Managed` are the bytes that belong to the allocator: headers and free
payloads. An allocator that writes managed bytes only never touches a
client's data (`not_managed_of_inUse`).

`alloc` keeps and `coalesce` makes cells `Separated`: no two neighbours
are both free. Such cells are determined by their extent and the payloads
in use (`eq_of_inUse_eq`), so an arena remembers nothing else of the
calls that led to it.
-/
import Mathlib

namespace FirstFit

-- ================================================================= cells

@[ext]
structure Cell where
  size : Nat
  free : Bool
  deriving DecidableEq, Repr

section Layout

variable (hdr : Nat)

/-- The bytes the cells take, headers included. -/
def extent : List Cell → Nat
  | [] => 0
  | c :: cs => hdr + c.size + extent cs

/-- The payloads in use, `(address, size)`, of the cells that start at
`a`. -/
def inUse : Nat → List Cell → List (Nat × Nat)
  | _, [] => []
  | a, c :: cs =>
      if c.free then inUse (a + hdr + c.size) cs
      else (a + hdr, c.size) :: inUse (a + hdr + c.size) cs

/-- `x` lies in a header. -/
def InHeader : Nat → List Cell → Nat → Prop
  | _, [], _ => False
  | a, c :: cs, x =>
      (a ≤ x ∧ x < a + hdr) ∨ InHeader (a + hdr + c.size) cs x

/-- `x` lies in a header or in a free payload. -/
def Managed : Nat → List Cell → Nat → Prop
  | _, [], _ => False
  | a, c :: cs, x =>
      (a ≤ x ∧ x < a + hdr + if c.free then c.size else 0)
        ∨ Managed (a + hdr + c.size) cs x

/-- Every cell starts at a multiple of `al`. -/
def Aligned (al : Nat) : Nat → List Cell → Prop
  | _, [] => True
  | a, c :: cs => al ∣ a ∧ Aligned al (a + hdr + c.size) cs

end Layout

variable {hdr : Nat}

/-- The headers alone fit into the extent of the cells. -/
theorem length_mul_le_extent (hdr : Nat) (cs : List Cell) :
    cs.length * hdr ≤ extent hdr cs := by
  induction cs with
  | nil => exact Nat.le_of_eq (Nat.zero_mul hdr)
  | cons c cs ih =>
      rw [List.length_cons, Nat.succ_mul, extent]
      omega

/-- A header is among the bytes that the list of cells manages. -/
theorem managed_of_inHeader {cs : List Cell} {x : Nat} :
    ∀ {a : Nat}, InHeader hdr a cs x → Managed hdr a cs x := by
  induction cs with
  | nil => intro a h; exact h
  | cons c cs ih =>
      intro a h
      rcases h with ⟨hlo, hhi⟩ | h
      · exact Or.inl ⟨hlo, by omega⟩
      · exact Or.inr (ih h)

/-- What the cells manage lies between their start and their end. -/
theorem managed_bounds {cs : List Cell} {x : Nat} :
    ∀ {a : Nat}, Managed hdr a cs x → a ≤ x ∧ x < a + extent hdr cs := by
  induction cs with
  | nil => intro a h; exact False.elim h
  | cons c cs ih =>
      intro a h
      rw [extent]
      rcases h with ⟨hlo, hhi⟩ | h
      · split at hhi <;> omega
      · have := ih h
        omega

/-- A header lies between the start of the cells and their end. -/
theorem inHeader_bounds {cs : List Cell} {a x : Nat}
    (h : InHeader hdr a cs x) : a ≤ x ∧ x < a + extent hdr cs :=
  managed_bounds (managed_of_inHeader h)

/-- A payload in use lies behind a header, and ends before the cells do. -/
theorem inUse_bounds {cs : List Cell} {q : Nat × Nat} :
    ∀ {a : Nat}, q ∈ inUse hdr a cs →
      a + hdr ≤ q.1 ∧ q.1 + q.2 ≤ a + extent hdr cs := by
  induction cs with
  | nil => intro a h; exact absurd h List.not_mem_nil
  | cons c cs ih =>
      intro a h
      rw [extent]
      rw [inUse] at h
      split at h
      · have := ih h
        omega
      · rcases List.mem_cons.mp h with rfl | h
        · dsimp only
          omega
        · have := ih h
          omega

/-- Payloads in use come in address order, a header apart. -/
theorem inUse_pairwise (cs : List Cell) :
    ∀ a, (inUse hdr a cs).Pairwise fun q r => q.1 + q.2 + hdr ≤ r.1 := by
  induction cs with
  | nil => intro a; exact List.Pairwise.nil
  | cons c cs ih =>
      intro a
      rw [inUse]
      split
      · exact ih _
      · refine List.pairwise_cons.mpr ⟨fun r hr => ?_, ih _⟩
        have := inUse_bounds hr
        dsimp only
        omega

/-- Two payloads in use do not overlap. -/
theorem inUse_disjoint {a : Nat} {cs : List Cell} {q r : Nat × Nat}
    (hq : q ∈ inUse hdr a cs) (hr : r ∈ inUse hdr a cs) (hne : q ≠ r) :
    q.1 + q.2 ≤ r.1 ∨ r.1 + r.2 ≤ q.1 := by
  have hpair : (inUse hdr a cs).Pairwise fun q r =>
      q.1 + q.2 ≤ r.1 ∨ r.1 + r.2 ≤ q.1 :=
    (inUse_pairwise cs a).imp fun h => Or.inl (by omega)
  have : Std.Symm fun q r : Nat × Nat =>
      q.1 + q.2 ≤ r.1 ∨ r.1 + r.2 ≤ q.1 := ⟨fun _ _ h => h.symm⟩
  exact hpair.forall hq hr hne

/-- No two payloads in use begin at one address. -/
theorem inUse_nodup (hpos : 0 < hdr) (a : Nat) (cs : List Cell) :
    ((inUse hdr a cs).map Prod.fst).Nodup := by
  refine List.Pairwise.map _ (fun q r h => ?_) (inUse_pairwise cs a)
  omega

/-- Payloads in use with the same members are the same list. -/
theorem inUse_ext (hpos : 0 < hdr) {a : Nat} {cs ds : List Cell}
    (h : ∀ q, q ∈ inUse hdr a cs ↔ q ∈ inUse hdr a ds) :
    inUse hdr a cs = inUse hdr a ds := by
  have hperm : (inUse hdr a cs).Perm (inUse hdr a ds) :=
    (List.perm_ext_iff_of_nodup (inUse_nodup hpos a cs).of_map
      (inUse_nodup hpos a ds).of_map).mpr h
  refine hperm.eq_of_pairwise (fun q r _ _ hqr hrq => ?_)
    (inUse_pairwise cs a) (inUse_pairwise ds a)
  omega

/-- In a list without repeated keys, what is in it is found by its key. -/
theorem lookup_of_mem {l : List (Nat × Nat)} {q : Nat × Nat}
    (hnodup : (l.map Prod.fst).Nodup) (hq : q ∈ l) :
    l.lookup q.1 = some q.2 := by
  induction l with
  | nil => exact absurd hq List.not_mem_nil
  | cons r l ih =>
      obtain ⟨hhead, htail⟩ := List.nodup_cons.mp hnodup
      rcases List.mem_cons.mp hq with rfl | hq
      · exact List.lookup_cons_self
      · have hne : (q.1 == r.1) = false := by
          refine beq_eq_false_iff_ne.mpr fun heq => hhead ?_
          rw [← heq]
          exact List.mem_map_of_mem hq
        rw [List.lookup_cons, hne]
        exact ih htail hq

/-- A payload in use is found under its address. -/
theorem lookup_inUse (hpos : 0 < hdr) {a p s : Nat} {cs : List Cell}
    (h : (p, s) ∈ inUse hdr a cs) : (inUse hdr a cs).lookup p = some s :=
  lookup_of_mem (inUse_nodup hpos a cs) h

/-- A byte of a payload in use is not the allocator's. -/
theorem not_managed_of_inUse {cs : List Cell} {q : Nat × Nat} {x : Nat} :
    ∀ {a : Nat}, q ∈ inUse hdr a cs → q.1 ≤ x → x < q.1 + q.2 →
      ¬ Managed hdr a cs x := by
  induction cs with
  | nil => intro a h; exact absurd h List.not_mem_nil
  | cons c cs ih =>
      intro a h hlo hhi hx
      rw [inUse] at h
      cases hfree : c.free with
      | true =>
          rw [hfree, if_pos rfl] at h
          have hq := inUse_bounds h
          rcases hx with ⟨-, hx⟩ | hx
          · rw [hfree, if_pos rfl] at hx
            omega
          · exact ih h hlo hhi hx
      | false =>
          rw [hfree, if_neg Bool.false_ne_true] at h
          rcases List.mem_cons.mp h with rfl | h
          · rcases hx with ⟨-, hx⟩ | hx
            · rw [hfree, if_neg Bool.false_ne_true] at hx
              dsimp only at hlo
              omega
            · have := managed_bounds hx
              dsimp only at hhi
              omega
          · have hq := inUse_bounds h
            rcases hx with ⟨-, hx⟩ | hx
            · rw [hfree, if_neg Bool.false_ne_true] at hx
              omega
            · exact ih h hlo hhi hx

-- ============================================================ allocation

section Alloc

variable (hdr) (slack : Nat)

/-- A free cell taken for `n` bytes: split when the rest can hold a header
and `slack` bytes. -/
def carve (n : Nat) (c : Cell) : List Cell :=
  if n + hdr + slack ≤ c.size then
    [{ size := n, free := false }, { size := c.size - n - hdr, free := true }]
  else [{ size := c.size, free := false }]

/-- Take the first free cell that is large enough. -/
def alloc (n : Nat) : Nat → List Cell → Option (List Cell × Nat)
  | _, [] => none
  | a, c :: cs =>
      if c.free ∧ n ≤ c.size then some (carve hdr slack n c ++ cs, a + hdr)
      else
        (alloc n (a + hdr + c.size) cs).map fun r => (c :: r.1, r.2)

end Alloc

variable {slack : Nat}

/-- First fit fails only when nothing fits. -/
theorem alloc_eq_none_iff {n : Nat} {cs : List Cell} :
    ∀ {a : Nat}, alloc hdr slack n a cs = none
      ↔ ∀ c ∈ cs, ¬ (c.free ∧ n ≤ c.size) := by
  induction cs with
  | nil => intro a; simp [alloc]
  | cons c cs ih =>
      intro a
      rw [alloc, List.forall_mem_cons]
      split
      · next hfit => simp [hfit]
      · next hfit => rw [Option.map_eq_none_iff, ih, and_iff_right hfit]

/-- What an allocation at `p` does: it keeps the extent and the
alignment, and turns managed bytes into one payload of at least `n`
bytes. -/
structure Placed (hdr n a : Nat) (cs cs' : List Cell) (p : Nat) :
    Prop where
  extent_eq : extent hdr cs' = extent hdr cs
  aligned : ∀ al, al ∣ hdr → al ∣ n → Aligned hdr al a cs →
    Aligned hdr al a cs'
  managed : ∀ x, Managed hdr a cs' x → Managed hdr a cs x
  inserted : ∃ r pre post, n ≤ r ∧ inUse hdr a cs = pre ++ post
    ∧ inUse hdr a cs' = pre ++ (p, r) :: post
    ∧ ∀ x, p ≤ x → x < p + r → Managed hdr a cs x

/-- A free cell that is large enough is carved into the payload asked for and
a free rest, if there is one. -/
theorem carve_spec {n a : Nat} {c : Cell} (cs : List Cell)
    (hfree : c.free = true) (hn : n ≤ c.size) :
    Placed hdr n a (c :: cs) (carve hdr slack n c ++ cs) (a + hdr) := by
  unfold carve
  by_cases hsplit : n + hdr + slack ≤ c.size
  · rw [if_pos hsplit]
    have hend : a + hdr + n + hdr + (c.size - n - hdr)
        = a + hdr + c.size := by omega
    refine ⟨?_, fun al hh hal h => ?_, fun x hx => ?_, n, [],
      inUse hdr (a + hdr + c.size) cs, Nat.le_refl n, ?_, ?_,
      fun x hlo hhi => Or.inl ⟨by omega, ?_⟩⟩
    · show hdr + n + (hdr + (c.size - n - hdr) + extent hdr cs)
        = hdr + c.size + extent hdr cs
      omega
    · refine ⟨h.1, Nat.dvd_add (Nat.dvd_add h.1 hh) hal, ?_⟩
      show Aligned hdr al (a + hdr + n + hdr + (c.size - n - hdr)) cs
      rw [hend]
      exact h.2
    · rcases hx with ⟨hlo, hhi⟩ | ⟨hlo, hhi⟩ | hx
      · rw [if_neg Bool.false_ne_true] at hhi
        exact Or.inl ⟨hlo, by omega⟩
      · rw [if_pos rfl] at hhi
        dsimp only at hlo hhi
        refine Or.inl ⟨by omega, ?_⟩
        rw [hfree, if_pos rfl]
        omega
      · dsimp only at hx
        rw [hend] at hx
        exact Or.inr hx
    · show (if c.free then _ else _) = _
      rw [hfree, if_pos rfl]
      rfl
    · show (a + hdr, n)
          :: inUse hdr (a + hdr + n + hdr + (c.size - n - hdr)) cs = _
      rw [hend]
      rfl
    · rw [hfree, if_pos rfl]
      omega
  · rw [if_neg hsplit]
    refine ⟨rfl, fun al _ _ h => h, fun x hx => ?_, c.size, [],
      inUse hdr (a + hdr + c.size) cs, hn, ?_, rfl,
      fun x hlo hhi => Or.inl ⟨by omega, ?_⟩⟩
    · rcases hx with ⟨hlo, hhi⟩ | hx
      · rw [if_neg Bool.false_ne_true] at hhi
        exact Or.inl ⟨hlo, by omega⟩
      · exact Or.inr hx
    · show (if c.free then _ else _) = _
      rw [hfree, if_pos rfl]
      rfl
    · rw [hfree, if_pos rfl]
      exact hhi

/-- Skipping a cell. -/
theorem Placed.cons {n a p : Nat} {cs cs' : List Cell} {c : Cell}
    (h : Placed hdr n (a + hdr + c.size) cs cs' p) :
    Placed hdr n a (c :: cs) (c :: cs') p := by
  obtain ⟨hext, halign, hman, r, pre, post, hr, hold, hnew, hmanaged⟩ := h
  refine ⟨?_, fun al hh hal h => ⟨h.1, halign al hh hal h.2⟩,
    fun x hx => hx.imp id (hman x), r,
    (if c.free then [] else [(a + hdr, c.size)]) ++ pre, post, hr, ?_, ?_,
    fun x hlo hhi => Or.inr (hmanaged x hlo hhi)⟩
  · rw [extent, hext, extent]
  · rw [inUse, hold]
    split <;> rfl
  · rw [inUse, hnew]
    split <;> rfl

/-- The payload that is allocated comes from one free cell, and the cells
before and behind it stay. -/
theorem alloc_spec {n p : Nat} {cs cs' : List Cell} :
    ∀ {a : Nat}, alloc hdr slack n a cs = some (cs', p) →
      Placed hdr n a cs cs' p := by
  induction cs generalizing cs' with
  | nil => intro a h; exact nomatch h
  | cons c cs ih =>
      intro a h
      rw [alloc] at h
      by_cases hfit : c.free ∧ n ≤ c.size
      · rw [if_pos hfit] at h
        obtain ⟨rfl, rfl⟩ := Prod.mk.inj (Option.some.inj h)
        exact carve_spec cs hfit.1 hfit.2
      · rw [if_neg hfit] at h
        obtain ⟨⟨ds, q⟩, hds, heq⟩ := Option.map_eq_some_iff.mp h
        obtain ⟨rfl, rfl⟩ := Prod.mk.inj heq
        exact (ih hds).cons

/-- The payload handed out was not in use. -/
theorem Placed.fresh (hpos : 0 < hdr) {n a p : Nat} {cs cs' : List Cell}
    (h : Placed hdr n a cs cs' p) : p ∉ (inUse hdr a cs).map Prod.fst := by
  obtain ⟨-, -, -, r, pre, post, -, hold, hnew, -⟩ := h
  have hnodup := inUse_nodup hpos a cs'
  rw [hnew, List.map_append, List.map_cons] at hnodup
  rw [hold, List.map_append]
  exact (List.nodup_cons.mp (List.nodup_middle.mp hnodup)).1

/-- Afterwards it is in use, and so is all that was. -/
theorem Placed.mem_iff {n a p : Nat} {cs cs' : List Cell}
    (h : Placed hdr n a cs cs' p) :
    ∃ r, n ≤ r ∧ (∀ x, p ≤ x → x < p + r → Managed hdr a cs x)
      ∧ ∀ q, q ∈ inUse hdr a cs' ↔ q = (p, r) ∨ q ∈ inUse hdr a cs := by
  obtain ⟨-, -, -, r, pre, post, hr, hold, hnew, hfresh⟩ := h
  refine ⟨r, hr, hfresh, fun q => ?_⟩
  rw [hold, hnew, List.mem_append, List.mem_append, List.mem_cons]
  exact or_left_comm

-- =============================================================== release

section Release

variable (hdr)

/-- Mark the cell with payload `p` free. -/
def release (p : Nat) : Nat → List Cell → List Cell
  | _, [] => []
  | a, c :: cs =>
      if a + hdr = p then { c with free := true } :: cs
      else c :: release p (a + hdr + c.size) cs

/-- Merge each free cell, from `c` on, with the free cells after it. -/
def coalesceFrom (c : Cell) : List Cell → List Cell
  | [] => [c]
  | d :: cs =>
      if c.free && d.free then
        coalesceFrom { size := c.size + (hdr + d.size), free := true } cs
      else c :: coalesceFrom d cs

/-- Merge neighbouring free cells. -/
def coalesce : List Cell → List Cell
  | [] => []
  | c :: cs => coalesceFrom hdr c cs

end Release

/-- To release a payload removes no cell. -/
theorem length_release (p : Nat) (cs : List Cell) :
    ∀ a, (release hdr p a cs).length = cs.length := by
  induction cs with
  | nil => intro a; rfl
  | cons c cs ih =>
      intro a
      rw [release]
      split
      · rfl
      · rw [List.length_cons, ih, List.length_cons]

/-- To release a payload moves no cell. -/
theorem extent_release (p : Nat) (cs : List Cell) :
    ∀ a, extent hdr (release hdr p a cs) = extent hdr cs := by
  induction cs with
  | nil => intro a; rfl
  | cons c cs ih =>
      intro a
      rw [release]
      split
      · rfl
      · rw [extent, ih, extent]

/-- The headers stay where they are. -/
theorem inHeader_release {p x : Nat} {cs : List Cell} :
    ∀ {a : Nat}, InHeader hdr a (release hdr p a cs) x
      ↔ InHeader hdr a cs x := by
  induction cs with
  | nil => intro a; exact Iff.rfl
  | cons c cs ih =>
      intro a
      rw [release]
      split
      · exact Iff.rfl
      · exact or_congr_right ih

/-- To release a payload keeps every cell aligned. -/
theorem aligned_release {al p : Nat} {cs : List Cell} :
    ∀ {a : Nat}, Aligned hdr al a cs →
      Aligned hdr al a (release hdr p a cs) := by
  induction cs with
  | nil => intro a h; exact h
  | cons c cs ih =>
      intro a h
      rw [release]
      split
      · exact h
      · exact ⟨h.1, ih h.2⟩

/-- Releasing takes one payload out of use. -/
theorem inUse_release (hpos : 0 < hdr) (p : Nat) (cs : List Cell) :
    ∀ a, inUse hdr a (release hdr p a cs)
      = (inUse hdr a cs).filter fun q => q.1 ≠ p := by
  have hkeep : ∀ (cs : List Cell) (b : Nat), p < b + hdr →
      (inUse hdr b cs).filter (fun q => q.1 ≠ p) = inUse hdr b cs := by
    intro cs b hb
    refine List.filter_eq_self.mpr fun q hq => ?_
    have := inUse_bounds hq
    exact decide_eq_true (by omega)
  induction cs with
  | nil => intro a; rfl
  | cons c cs ih =>
      intro a
      rw [release]
      by_cases hp : a + hdr = p
      · rw [if_pos hp, inUse, inUse, if_pos rfl]
        split
        · exact (hkeep cs _ (by omega)).symm
        · rw [List.filter_cons_of_neg (by simp [hp]),
            hkeep cs _ (by omega)]
      · rw [if_neg hp, inUse, inUse, ih]
        split
        · rfl
        · rw [List.filter_cons_of_pos (by simp [hp])]

/-- Cells that are joined take up the room that they had apart. -/
theorem extent_coalesceFrom (cs : List Cell) :
    ∀ c, extent hdr (coalesceFrom hdr c cs) = extent hdr (c :: cs) := by
  induction cs with
  | nil => intro c; rfl
  | cons d cs ih =>
      intro c
      rw [coalesceFrom]
      split
      · rw [ih, extent, extent, extent]
        dsimp only
        omega
      · rw [extent, ih]
        rfl

/-- Only free cells are joined, so what is in use stays where it is. -/
theorem inUse_coalesceFrom (cs : List Cell) :
    ∀ a c, inUse hdr a (coalesceFrom hdr c cs) = inUse hdr a (c :: cs) := by
  induction cs with
  | nil => intro a c; rfl
  | cons d cs ih =>
      intro a c
      rw [coalesceFrom]
      by_cases hboth : (c.free && d.free) = true
      · obtain ⟨hc, hd⟩ := Bool.and_eq_true_iff.mp hboth
        have hend : a + hdr + (c.size + (hdr + d.size))
            = a + hdr + c.size + hdr + d.size := by omega
        rw [if_pos hboth, ih, inUse, inUse, inUse, hc, hd, if_pos rfl,
          if_pos rfl, if_pos rfl]
        dsimp only
        rw [hend]
      · rw [if_neg hboth, inUse, ih]
        rfl

/-- A cell that was joined begins where the first of its parts did, so it is
aligned. -/
theorem aligned_coalesceFrom {al : Nat} {cs : List Cell} :
    ∀ {a : Nat} {c : Cell}, Aligned hdr al a (c :: cs) →
      Aligned hdr al a (coalesceFrom hdr c cs) := by
  induction cs with
  | nil => intro a c h; exact h
  | cons d cs ih =>
      intro a c h
      rw [coalesceFrom]
      split
      · refine ih ⟨h.1, ?_⟩
        show Aligned hdr al (a + hdr + (c.size + (hdr + d.size))) cs
        rw [show a + hdr + (c.size + (hdr + d.size))
          = a + hdr + c.size + hdr + d.size from by omega]
        exact h.2.2
      · exact ⟨h.1, ih h.2⟩

/-- All cells together take up the same room after the free ones are joined.
-/
theorem extent_coalesce (cs : List Cell) :
    extent hdr (coalesce hdr cs) = extent hdr cs := by
  cases cs with
  | nil => rfl
  | cons c cs => exact extent_coalesceFrom cs c

/-- Merging keeps every payload in use, in place. -/
theorem inUse_coalesce (a : Nat) (cs : List Cell) :
    inUse hdr a (coalesce hdr cs) = inUse hdr a cs := by
  cases cs with
  | nil => rfl
  | cons c cs => exact inUse_coalesceFrom cs a c

/-- Every cell is aligned after the free ones are joined. -/
theorem aligned_coalesce {al a : Nat} {cs : List Cell}
    (h : Aligned hdr al a cs) : Aligned hdr al a (coalesce hdr cs) := by
  cases cs with
  | nil => exact h
  | cons c cs => exact aligned_coalesceFrom h

-- ============================================================ separation

/-- No two neighbouring cells are both free. -/
def Separated (cs : List Cell) : Prop :=
  cs.IsChain fun c d => (c.free && d.free) = false

/-- No two free cells are neighbours if the first two are not and the rest
has none. -/
theorem separated_cons {c d : Cell} {cs : List Cell} :
    Separated (c :: d :: cs)
      ↔ (c.free && d.free) = false ∧ Separated (d :: cs) :=
  List.isChain_cons_cons

/-- Behind a used cell anything separated may stand. -/
theorem Separated.used {c : Cell} {cs : List Cell} (hc : c.free = false)
    (h : Separated cs) : Separated (c :: cs) := by
  cases cs with
  | nil => exact List.isChain_singleton c
  | cons d cs =>
      refine separated_cons.mpr ⟨?_, h⟩
      rw [hc, Bool.false_and]

/-- Only the flag of the first cell counts for what stands before it. -/
theorem Separated.head {c c' : Cell} {cs : List Cell}
    (h : Separated (c :: cs)) (hflag : c'.free = c.free) :
    Separated (c' :: cs) := by
  cases cs with
  | nil => exact List.isChain_singleton c'
  | cons d cs =>
      obtain ⟨hfirst, hrest⟩ := separated_cons.mp h
      refine separated_cons.mpr ⟨?_, hrest⟩
      rw [hflag]
      exact hfirst

/-- Behind the first cell there are no free neighbours either. -/
theorem Separated.tail {c : Cell} {cs : List Cell}
    (h : Separated (c :: cs)) : Separated cs :=
  List.IsChain.tail h

/-- To carve a free cell puts what is in use in front of its rest, so no two
free cells meet. -/
theorem separated_carve {n : Nat} {c : Cell} {cs : List Cell}
    (hfree : c.free = true) (h : Separated (c :: cs)) :
    Separated (carve hdr slack n c ++ cs) := by
  unfold carve
  split
  · exact Separated.used rfl (h.head hfree.symm)
  · exact Separated.used rfl h.tail

/-- The first cell stays as it is, or is taken. -/
theorem head_alloc {n a p : Nat} {c : Cell} {cs cs' : List Cell}
    (h : alloc hdr slack n a (c :: cs) = some (cs', p)) :
    ∃ d ds, cs' = d :: ds ∧ (d.free = false ∨ d.free = c.free) := by
  rw [alloc] at h
  split at h
  · obtain ⟨rfl, -⟩ := Prod.mk.inj (Option.some.inj h)
    unfold carve
    split
    · exact ⟨_, _, rfl, Or.inl rfl⟩
    · exact ⟨_, _, rfl, Or.inl rfl⟩
  · obtain ⟨⟨ds, q⟩, -, heq⟩ := Option.map_eq_some_iff.mp h
    obtain ⟨rfl, -⟩ := Prod.mk.inj heq
    exact ⟨c, ds, rfl, Or.inr rfl⟩

/-- An allocation makes no free neighbours. -/
theorem separated_alloc {n p : Nat} {cs cs' : List Cell} :
    ∀ {a : Nat}, alloc hdr slack n a cs = some (cs', p) → Separated cs →
      Separated cs' := by
  induction cs generalizing cs' with
  | nil => intro a h; exact absurd h (by simp [alloc])
  | cons c cs ih =>
      intro a h hsep
      rw [alloc] at h
      by_cases hfit : c.free ∧ n ≤ c.size
      · rw [if_pos hfit] at h
        obtain ⟨rfl, -⟩ := Prod.mk.inj (Option.some.inj h)
        exact separated_carve hfit.1 hsep
      · rw [if_neg hfit] at h
        obtain ⟨⟨ds, q⟩, hds, heq⟩ := Option.map_eq_some_iff.mp h
        obtain ⟨rfl, rfl⟩ := Prod.mk.inj heq
        have hrest := ih hds hsep.tail
        cases cs with
        | nil => exact absurd hds (by simp [alloc])
        | cons d cs =>
            obtain ⟨e, es, rfl, hflag⟩ := head_alloc hds
            refine separated_cons.mpr ⟨?_, hrest⟩
            rcases hflag with hused | hsame
            · rw [hused, Bool.and_false]
            · rw [hsame]
              exact (separated_cons.mp hsep).1

/-- What is joined with the first cell does not change whether it is free. -/
theorem head_coalesceFrom (hdr : Nat) (cs : List Cell) :
    ∀ c, ∃ d ds, coalesceFrom hdr c cs = d :: ds ∧ d.free = c.free := by
  induction cs with
  | nil => intro c; exact ⟨c, [], rfl, rfl⟩
  | cons d cs ih =>
      intro c
      rw [coalesceFrom]
      split
      · next hboth =>
        obtain ⟨e, es, heq, hflag⟩ :=
          ih { size := c.size + (hdr + d.size), free := true }
        exact ⟨e, es, heq, hflag.trans (Bool.and_eq_true_iff.mp hboth).1.symm⟩
      · exact ⟨c, _, rfl, rfl⟩

/-- After the free cells are joined, none of them has a free neighbour. -/
theorem separated_coalesceFrom (cs : List Cell) :
    ∀ c, Separated (coalesceFrom hdr c cs) := by
  induction cs with
  | nil => intro c; exact List.isChain_singleton c
  | cons d cs ih =>
      intro c
      rw [coalesceFrom]
      split
      · exact ih _
      · next hboth =>
        obtain ⟨e, es, heq, hflag⟩ := head_coalesceFrom hdr cs d
        have hrest := ih d
        rw [heq] at hrest ⊢
        refine separated_cons.mpr ⟨?_, hrest⟩
        rw [hflag]
        exact Bool.not_eq_true _ ▸ hboth

/-- One forward pass merges every run of free cells. -/
theorem separated_coalesce (cs : List Cell) :
    Separated (coalesce hdr cs) := by
  cases cs with
  | nil => exact List.isChain_nil
  | cons c cs => exact separated_coalesceFrom cs c

/-- Behind a free cell comes a payload in use, or nothing. -/
theorem inUse_of_separated_free {a : Nat} {c : Cell} {cs : List Cell}
    (hfree : c.free = true) (h : Separated (c :: cs)) :
    cs = [] ∨ ∃ d ds, cs = d :: ds ∧ d.free = false
      ∧ inUse hdr a cs = (a + hdr, d.size) :: inUse hdr (a + hdr + d.size) ds := by
  cases cs with
  | nil => exact Or.inl rfl
  | cons d ds =>
      have hused := (separated_cons.mp h).1
      rw [hfree, Bool.true_and] at hused
      refine Or.inr ⟨d, ds, rfl, hused, ?_⟩
      rw [inUse, hused, if_neg Bool.false_ne_true]

/-- A used first cell shows in the payloads in use. -/
theorem used_of_inUse_eq (hpos : 0 < hdr) {a : Nat} {c d : Cell}
    {cs ds : List Cell} (hc : c.free = false)
    (hsame : inUse hdr a (c :: cs) = inUse hdr a (d :: ds)) :
    d.free = false ∧ d.size = c.size := by
  rw [inUse, inUse, hc, if_neg Bool.false_ne_true] at hsame
  cases hd : d.free with
  | true =>
      rw [hd, if_pos rfl] at hsame
      have hmem : (a + hdr, c.size) ∈ inUse hdr (a + hdr + d.size) ds :=
        hsame ▸ List.mem_cons_self
      have := (inUse_bounds hmem).1
      dsimp only at this
      omega
  | false =>
      rw [hd, if_neg Bool.false_ne_true] at hsame
      exact ⟨rfl, (Prod.mk.inj (List.cons.inj hsame).1).2.symm⟩

/-- A free first cell reaches to the first payload in use, or to the
end. -/
theorem size_eq_of_inUse_eq {a : Nat} {c d : Cell} {cs ds : List Cell}
    (hc : c.free = true) (hd : d.free = true) (hcs : Separated (c :: cs))
    (hds : Separated (d :: ds))
    (hext : extent hdr (c :: cs) = extent hdr (d :: ds))
    (hsame : inUse hdr a (c :: cs) = inUse hdr a (d :: ds)) :
    c.size = d.size := by
  rw [inUse, inUse, hc, hd, if_pos rfl, if_pos rfl] at hsame
  rw [extent, extent] at hext
  rcases inUse_of_separated_free (a := a + hdr + c.size) hc hcs with
    rfl | ⟨c', cs', rfl, -, hfirst⟩
  · rcases inUse_of_separated_free (a := a + hdr + d.size) hd hds with
      rfl | ⟨d', ds', rfl, -, hfirst'⟩
    · omega
    · rw [hfirst'] at hsame
      exact absurd hsame.symm (List.cons_ne_nil _ _)
  · rcases inUse_of_separated_free (a := a + hdr + d.size) hd hds with
      rfl | ⟨d', ds', rfl, -, hfirst'⟩
    · rw [hfirst] at hsame
      exact absurd hsame (List.cons_ne_nil _ _)
    · rw [hfirst, hfirst'] at hsame
      have := (Prod.mk.inj (List.cons.inj hsame).1).1
      omega

/-- Separated cells have one shape only for given payloads in use: what
lies between two of them is one free cell or none. -/
theorem eq_of_inUse_eq (hpos : 0 < hdr) {cs : List Cell} :
    ∀ {ds : List Cell} {a : Nat}, Separated cs → Separated ds →
      extent hdr cs = extent hdr ds → inUse hdr a cs = inUse hdr a ds →
      cs = ds := by
  induction cs with
  | nil =>
      intro ds a _ _ hext _
      cases ds with
      | nil => rfl
      | cons d ds =>
          rw [extent, extent] at hext
          omega
  | cons c cs ih =>
      intro ds a hcs hds hext hsame
      cases ds with
      | nil =>
          rw [extent, extent] at hext
          omega
      | cons d ds =>
          have hfirst : c = d := by
            cases hc : c.free with
            | false =>
                obtain ⟨hd, hsize⟩ := used_of_inUse_eq hpos hc hsame
                exact Cell.ext hsize.symm (hc.trans hd.symm)
            | true =>
                have hd : d.free = true := by
                  by_contra hd
                  have := used_of_inUse_eq hpos (Bool.not_eq_true _ ▸ hd)
                    hsame.symm
                  exact Bool.noConfusion (hc.symm.trans this.1)
                exact Cell.ext
                  (size_eq_of_inUse_eq hc hd hcs hds hext hsame)
                  (hc.trans hd.symm)
          subst hfirst
          rw [extent, extent] at hext
          rw [inUse, inUse] at hsame
          refine congrArg _ (ih (a := a + hdr + c.size) hcs.tail hds.tail
            (by omega) ?_)
          split at hsame
          · exact hsame
          · exact (List.cons.inj hsame).2

end FirstFit
