/-
The heap's memory as a list of cells.

`Chain m b cs` says that the headers of the cells `cs` lie in memory one
after the other from `b` on, each linked to the next. Over it every
operation of kheap_core.c is an operation of the first-fit library:
`heap_alloc` is `alloc` (`heapAlloc_spec`), `heap_free` is `release` and
`coalesce` (`heapFree_spec`), and `heap_realloc` one after the other
(`heapRealloc_spec`).

Each of these also has a frame: only managed bytes change, so a live
payload keeps its bytes. The frame is what lets an induction over the
list put the header it skipped back in front.
-/
import Thuos.Lib.FirstFit
import Thuos.Mm.KheapCore

namespace Thuos.Mm

open ByteMem FirstFit Word32

-- ================================================================ headers

/-- The header of cell `c` lies at `b` and links to `next`. -/
structure HeaderAt (m : Mem) (b : Nat) (c : Cell) (next : Nat) : Prop where
  size : blkSize m b = c.size
  next : blkNext m b = next
  free : blkFree m b = if c.free then 1 else 0
  magic : blkMagic m b = KH_MAGIC

/-- A header is what its bytes say, so it stays while they do. -/
theorem HeaderAt.congr {m m' : Mem} {b next : Nat} {c : Cell}
    (h : HeaderAt m b c next)
    (hm : ∀ x, b ≤ x → x < b + HDR → m' x = m x) :
    HeaderAt m' b c next := by
  have hword : ∀ k, k + 4 ≤ HDR → m'.load32 (b + k) = m.load32 (b + k) :=
    fun k hk => Mem.load32_congr fun x hlo hhi => hm x (by omega) (by omega)
  obtain ⟨hsize, hnext, hfree, hmagic⟩ := h
  exact ⟨(hword 0 (by decide)).trans hsize,
    (hword 4 (by decide)).trans hnext, (hword 8 (by decide)).trans hfree,
    (hword 12 (by decide)).trans hmagic⟩

/-- A field of the header at `b`, written: the bytes outside are kept. -/
theorem store_outside {m : Mem} {b k v x : Nat} (hk : k + 4 ≤ HDR)
    (hx : x < b ∨ b + HDR ≤ x) : m.store32 (b + k) v x = m x := by
  unfold HDR at hk hx
  exact Mem.store32_outside m v (by omega)

/-- A store to the size of a header stays in the header. -/
theorem setSize_outside {m : Mem} {b v x : Nat}
    (hx : x < b ∨ b + HDR ≤ x) : setSize m b v x = m x :=
  store_outside (k := 0) (by decide) hx

/-- A store to the link of a header stays in the header. -/
theorem setNext_outside {m : Mem} {b v x : Nat}
    (hx : x < b ∨ b + HDR ≤ x) : setNext m b v x = m x :=
  store_outside (k := 4) (by decide) hx

/-- A store to the free flag of a header stays in the header. -/
theorem setFree_outside {m : Mem} {b v x : Nat}
    (hx : x < b ∨ b + HDR ≤ x) : setFree m b v x = m x :=
  store_outside (k := 8) (by decide) hx

/-- A store to the magic of a header stays in the header. -/
theorem setMagic_outside {m : Mem} {b v x : Nat}
    (hx : x < b ∨ b + HDR ≤ x) : setMagic m b v x = m x :=
  store_outside (k := 12) (by decide) hx

/-- The four fields, written in the order of the source. -/
def writeHeader (m : Mem) (b size next free : Nat) : Mem :=
  setMagic (setFree (setNext (setSize m b size) b next) b free) b KH_MAGIC

/-- A header is written to its own bytes only. -/
theorem writeHeader_outside {m : Mem} {b size next free x : Nat}
    (hx : x < b ∨ b + HDR ≤ x) : writeHeader m b size next free x = m x := by
  unfold writeHeader
  rw [setMagic_outside hx, setFree_outside hx, setNext_outside hx,
    setSize_outside hx]

/-- The header that was written is read back, if its size and its link are
words. -/
theorem headerAt_writeHeader (m : Mem) (b : Nat) {size next : Nat}
    (hsize : size < 2 ^ 32) (hnext : next < 2 ^ 32) :
    HeaderAt (writeHeader m b size next 1) b
      { size := size, free := true } next := by
  unfold writeHeader setMagic setFree setNext setSize
  refine ⟨?_, ?_, ?_, ?_⟩
  · unfold blkSize
    simp (disch := omega) only [Mem.load32_store32_of_disjoint,
      Mem.load32_store32, Nat.mod_eq_of_lt]
  · unfold blkNext
    simp (disch := omega) only [Mem.load32_store32_of_disjoint,
      Mem.load32_store32, Nat.mod_eq_of_lt]
  · unfold blkFree
    simp (disch := omega) only [Mem.load32_store32_of_disjoint,
      Mem.load32_store32, Nat.mod_eq_of_lt]
    rfl
  · unfold blkMagic KH_MAGIC
    simp (disch := omega) only [Mem.load32_store32, Nat.mod_eq_of_lt]

/-- Writing the size and the link of a header. -/
theorem HeaderAt.resize {m : Mem} {b next size next' : Nat} {c : Cell}
    (h : HeaderAt m b c next) (hsize : size < 2 ^ 32)
    (hnext : next' < 2 ^ 32) :
    HeaderAt (setNext (setSize m b size) b next') b
      { c with size := size } next' := by
  obtain ⟨-, -, hfree, hmagic⟩ := h
  unfold setNext setSize
  refine ⟨?_, ?_, ?_, ?_⟩
  · unfold blkSize
    simp (disch := omega) only [Mem.load32_store32_of_disjoint,
      Mem.load32_store32, Nat.mod_eq_of_lt]
  · unfold blkNext
    simp (disch := omega) only [Mem.load32_store32, Nat.mod_eq_of_lt]
  · unfold blkFree at hfree ⊢
    simp (disch := omega) only [Mem.load32_store32_of_disjoint]
    exact hfree
  · unfold blkMagic at hmagic ⊢
    simp (disch := omega) only [Mem.load32_store32_of_disjoint]
    exact hmagic

/-- Writing the free flag of a header. -/
theorem HeaderAt.flag {m : Mem} {b next : Nat} {c : Cell}
    (h : HeaderAt m b c next) (free : Bool) :
    HeaderAt (setFree m b (if free then 1 else 0)) b
      { c with free := free } next := by
  obtain ⟨hsize, hnext, -, hmagic⟩ := h
  unfold setFree
  refine ⟨?_, ?_, ?_, ?_⟩
  · unfold blkSize at hsize ⊢
    simp (disch := omega) only [Mem.load32_store32_of_disjoint]
    exact hsize
  · unfold blkNext at hnext ⊢
    simp (disch := omega) only [Mem.load32_store32_of_disjoint]
    exact hnext
  · unfold blkFree
    rw [Mem.load32_store32]
    cases free <;> rfl
  · unfold blkMagic at hmagic ⊢
    simp (disch := omega) only [Mem.load32_store32_of_disjoint]
    exact hmagic

-- ============================================================== the chain

/-- The pointer to the first of the cells at `b`: NULL if there is
none. -/
def ptr (b : Nat) : List Cell → Nat
  | [] => 0
  | _ :: _ => b

/-- The cells lie in memory from `b` on, linked in order. -/
def Chain (m : Mem) : Nat → List Cell → Prop
  | _, [] => True
  | b, c :: cs =>
      HeaderAt m b c (ptr (b + HDR + c.size) cs)
        ∧ Chain m (b + HDR + c.size) cs

/-- The pointer depends on the cells only through their extent. -/
theorem ptr_congr {cs cs' : List Cell} (b : Nat)
    (h : extent HDR cs' = extent HDR cs) : ptr b cs' = ptr b cs := by
  unfold HDR at h
  cases cs with
  | nil =>
      cases cs' with
      | nil => rfl
      | cons c' cs' =>
          rw [extent, extent] at h
          omega
  | cons c cs =>
      cases cs' with
      | nil =>
          rw [extent, extent] at h
          omega
      | cons c' cs' => rfl

/-- A chain reads headers only. -/
theorem Chain.congr {m m' : Mem} {cs : List Cell} :
    ∀ {b : Nat}, Chain m b cs → (∀ x, InHeader HDR b cs x → m' x = m x) →
      Chain m' b cs := by
  induction cs with
  | nil => intro b _ _; trivial
  | cons c cs ih =>
      intro b h hm
      refine ⟨h.1.congr fun x hlo hhi => hm x (Or.inl ⟨hlo, hhi⟩),
        ih h.2 fun x hx => hm x (Or.inr hx)⟩

/-- Prepending the header that was skipped: it lies before everything the
rest of the chain may have changed. -/
theorem Chain.cons {m m' : Mem} {b : Nat} {c : Cell} {cs cs' : List Cell}
    (h : Chain m b (c :: cs)) (hcs' : Chain m' (b + HDR + c.size) cs')
    (hext : extent HDR cs' = extent HDR cs)
    (hm : ∀ x, x < b + HDR + c.size → m' x = m x) :
    Chain m' b (c :: cs') := by
  refine ⟨?_, hcs'⟩
  rw [ptr_congr _ hext]
  exact h.1.congr fun x _ hx => hm x (by omega)

/-- The header in front of a payload in use. -/
theorem Chain.headerAt {m : Mem} {cs : List Cell} {p s : Nat} :
    ∀ {b : Nat}, Chain m b cs → (p, s) ∈ inUse HDR b cs →
      (∃ next, HeaderAt m (p - HDR) { size := s, free := false } next)
        ∧ ∀ x, p - HDR ≤ x → x < p → InHeader HDR b cs x := by
  induction cs with
  | nil => intro b _ hp; exact absurd hp List.not_mem_nil
  | cons c cs ih =>
      intro b h hp
      rw [inUse] at hp
      cases hfree : c.free with
      | true =>
          rw [hfree, if_pos rfl] at hp
          obtain ⟨hhead, hin⟩ := ih h.2 hp
          exact ⟨hhead, fun x hlo hhi => Or.inr (hin x hlo hhi)⟩
      | false =>
          rw [hfree, if_neg Bool.false_ne_true] at hp
          rcases List.mem_cons.mp hp with heq | hp
          · obtain ⟨rfl, rfl⟩ := Prod.mk.inj heq
            have hc : { size := c.size, free := false } = c := by
              rw [← hfree]
            rw [Nat.add_sub_cancel, hc]
            exact ⟨⟨_, h.1⟩, fun x hlo hhi => Or.inl ⟨hlo, hhi⟩⟩
          · obtain ⟨hhead, hin⟩ := ih h.2 hp
            exact ⟨hhead, fun x hlo hhi => Or.inr (hin x hlo hhi)⟩

-- ============================================================ allocation

/-- Splitting the first block: its header shrinks to `n` bytes, and the
rest is a free block behind it. -/
theorem splitBlock_spec {m : Mem} {b n : Nat} {c : Cell} {cs : List Cell}
    (h : Chain m b (c :: cs)) (hend : b + extent HDR (c :: cs) < 2 ^ 32)
    (hsplit : n + HDR + KH_ALIGN ≤ c.size) :
    Chain (splitBlock m b n) b
        ({ c with size := n }
          :: { size := c.size - n - HDR, free := true } :: cs)
      ∧ ∀ x, (x < b ∨ b + HDR + c.size ≤ x) → splitBlock m b n x = m x := by
  rw [extent] at hend
  unfold KH_ALIGN HDR at hsplit
  unfold HDR at hend
  have hnb : add32 (add32 b HDR) n = b + HDR + n := by
    unfold add32 HDR
    omega
  have hrest : sub32 (sub32 (blkSize m b) n) HDR = c.size - n - HDR := by
    have hsize : sub32 (blkSize m b) n = c.size - n := by
      rw [h.1.size]
      exact sub32_eq (by omega) (by omega)
    rw [hsize]
    exact sub32_eq (by unfold HDR; omega) (by omega)
  have hnext : blkNext (setSize m (b + HDR + n) (c.size - n - HDR)) b
      = ptr (b + HDR + c.size) cs :=
    (h.1.congr fun x _ hx => setSize_outside (Or.inl (by omega))).next
  have hsame : splitBlock m b n
      = setNext (setSize (writeHeader m (b + HDR + n) (c.size - n - HDR)
          (ptr (b + HDR + c.size) cs) 1) b n) b (b + HDR + n) := by
    unfold splitBlock
    simp only [hnb, hrest, hnext]
    rfl
  have hlink : ptr (b + HDR + c.size) cs < 2 ^ 32 := by
    unfold ptr HDR
    split <;> omega
  have hframe : ∀ x, (x < b ∨ b + HDR + c.size ≤ x) →
      splitBlock m b n x = m x := by
    intro x hx
    unfold HDR at hx
    rw [hsame, setNext_outside (by unfold HDR; omega),
      setSize_outside (by unfold HDR; omega),
      writeHeader_outside (by unfold HDR; omega)]
  have hfirst : HeaderAt (splitBlock m b n) b { c with size := n }
      (b + HDR + n) := by
    rw [hsame]
    have hkept : HeaderAt (writeHeader m (b + HDR + n) (c.size - n - HDR)
        (ptr (b + HDR + c.size) cs) 1) b c (ptr (b + HDR + c.size) cs) :=
      h.1.congr fun x _ hx => writeHeader_outside (by omega)
    exact hkept.resize (by omega) (by unfold HDR; omega)
  have hsecond : HeaderAt (splitBlock m b n) (b + HDR + n)
      { size := c.size - n - HDR, free := true }
      (ptr (b + HDR + c.size) cs) := by
    rw [hsame]
    refine HeaderAt.congr (headerAt_writeHeader m (b + HDR + n) (by omega)
      hlink) fun x hx _ => ?_
    rw [setNext_outside (by omega), setSize_outside (by omega)]
  have hskip : b + HDR + n + HDR + (c.size - n - HDR)
      = b + HDR + c.size := by
    unfold HDR
    omega
  refine ⟨⟨hfirst, ?_, ?_⟩, hframe⟩
  · show HeaderAt _ (b + HDR + n) _
      (ptr (b + HDR + n + HDR + (c.size - n - HDR)) cs)
    rw [hskip]
    exact hsecond
  · show Chain _ (b + HDR + n + HDR + (c.size - n - HDR)) cs
    rw [hskip]
    exact h.2.congr fun x hx => hframe x (Or.inr (inHeader_bounds hx).1)

/-- Flipping the free flag of the first block. -/
theorem Chain.flag {m : Mem} {b : Nat} {c : Cell} {cs : List Cell}
    (h : Chain m b (c :: cs)) (free : Bool) :
    Chain (setFree m b (if free then 1 else 0)) b
      ({ c with free := free } :: cs) := by
  refine ⟨h.1.flag free, h.2.congr fun x hx => setFree_outside (Or.inr ?_)⟩
  have := (inHeader_bounds hx).1
  omega

/-- A fitting first block is carved as the library carves its cell. -/
theorem carve_chain {m : Mem} {b n : Nat} {c : Cell} {cs : List Cell}
    (h : Chain m b (c :: cs)) (hb : KH_ALIGN ≤ b)
    (hend : b + extent HDR (c :: cs) < 2 ^ 32) (hfree : c.free = true)
    (hn : n ≤ c.size) (hal : KH_ALIGN ∣ n) :
    ∃ m', setFree (if add32 (add32 n HDR) KH_ALIGN ≤ blkSize m b then
          splitBlock m b n else m) b 0 = m'
      ∧ Chain m' b (carve HDR KH_ALIGN n c ++ cs)
      ∧ ∀ x, ¬ Managed HDR b (c :: cs) x → m' x = m x := by
  have hroom := hend
  rw [extent] at hroom
  unfold KH_ALIGN at hb hal
  unfold HDR at hroom
  -- the arena starts at 8 at the earliest, so the sum does not wrap
  have hsum : add32 (add32 n HDR) KH_ALIGN = n + HDR + KH_ALIGN := by
    unfold add32 HDR KH_ALIGN
    omega
  have hout : ∀ x, ¬ Managed HDR b (c :: cs) x →
      x < b ∨ b + HDR + c.size ≤ x := by
    intro x hx
    by_contra hin
    refine hx (Or.inl ?_)
    rw [hfree, if_pos rfl]
    omega
  refine ⟨_, rfl, ?_⟩
  rw [hsum, h.1.size]
  unfold carve
  by_cases hsplit : n + HDR + KH_ALIGN ≤ c.size
  · obtain ⟨hchain, hframe⟩ := splitBlock_spec h hend hsplit
    rw [if_pos hsplit, if_pos hsplit]
    refine ⟨hchain.flag false, fun x hx => ?_⟩
    rw [setFree_outside (by have := hout x hx; omega)]
    exact hframe x (hout x hx)
  · rw [if_neg hsplit, if_neg hsplit]
    refine ⟨h.flag false, fun x hx => ?_⟩
    exact setFree_outside (by have := hout x hx; omega)

/-- The loop of `heap_alloc` is the library's first fit. -/
theorem allocLoop_spec {n : Nat} (hal : KH_ALIGN ∣ n) {cs : List Cell} :
    ∀ {m : Mem} {b : Nat} (fuel : Nat), Chain m b cs →
      (cs ≠ [] → KH_ALIGN ≤ b ∧ b + extent HDR cs < 2 ^ 32) →
      cs.length < fuel →
      (alloc HDR KH_ALIGN n b cs = none
          ∧ allocLoop n fuel m (ptr b cs) = some (m, 0))
        ∨ ∃ cs' p m', alloc HDR KH_ALIGN n b cs = some (cs', p)
          ∧ allocLoop n fuel m (ptr b cs) = some (m', p)
          ∧ Chain m' b cs'
          ∧ ∀ x, ¬ Managed HDR b cs x → m' x = m x := by
  induction cs with
  | nil =>
      intro m b fuel _ _ hfuel
      obtain ⟨fuel, rfl⟩ : ∃ k, fuel = k + 1 := ⟨fuel - 1, by omega⟩
      exact Or.inl ⟨rfl, rfl⟩
  | cons c cs ih =>
      intro m b fuel h hin hfuel
      obtain ⟨hb, hend⟩ := hin (List.cons_ne_nil c cs)
      rw [List.length_cons] at hfuel
      obtain ⟨fuel, rfl⟩ : ∃ k, fuel = k + 1 := ⟨fuel - 1, by omega⟩
      have hend' := hend
      rw [extent] at hend'
      have hne : b ≠ 0 := by
        unfold KH_ALIGN at hb
        omega
      have hfit : ¬ (blkFree m b = 0 ∨ blkSize m b < n)
          ↔ c.free = true ∧ n ≤ c.size := by
        rw [h.1.free, h.1.size]
        cases c.free with
        | true => simp
        | false => simp
      show (_ ∧ allocLoop n (fuel + 1) m b = _)
        ∨ ∃ cs' p m', _ ∧ allocLoop n (fuel + 1) m b = _ ∧ _
      rw [allocLoop, if_neg hne, alloc]
      by_cases htake : c.free = true ∧ n ≤ c.size
      · rw [if_pos htake, if_neg (hfit.mpr htake)]
        obtain ⟨m', hm', hchain, hframe⟩ :=
          carve_chain h hb hend htake.1 htake.2 hal
        have hp : add32 b HDR = b + HDR := add32_eq (by omega)
        refine Or.inr ⟨_, _, m', rfl, ?_, hchain, hframe⟩
        rw [← hm', hp]
      · have hskip := not_not.mp (mt hfit.mp htake)
        rw [if_neg htake, if_pos hskip, h.1.next]
        rcases ih fuel h.2 (fun _ => by omega) (by omega) with
          ⟨hnone, hloop⟩ | ⟨cs', p, m', hsome, hloop, hchain, hframe⟩
        · rw [hnone, hloop]
          exact Or.inl ⟨rfl, rfl⟩
        · rw [hsome, hloop]
          have hlow : ∀ x, x < b + HDR + c.size → m' x = m x := by
            intro x hx
            refine hframe x fun hmanaged => ?_
            have := (managed_bounds hmanaged).1
            omega
          refine Or.inr ⟨c :: cs', p, m', rfl, rfl,
            h.cons hchain (alloc_spec hsome).extent_eq hlow, fun x hx => ?_⟩
          exact hframe x fun hmanaged => hx (Or.inr hmanaged)

-- =============================================================== release

/-- Marking the block of a payload in use free. -/
theorem Chain.release {m : Mem} {cs : List Cell} {p s : Nat} :
    ∀ {b : Nat}, Chain m b cs → (p, s) ∈ inUse HDR b cs →
      Chain (setFree m (p - HDR) 1) b (release HDR p b cs) := by
  induction cs with
  | nil => intro b _ hp; exact absurd hp List.not_mem_nil
  | cons c cs ih =>
      intro b h hp
      rw [FirstFit.release]
      by_cases hfirst : b + HDR = p
      · rw [if_pos hfirst, ← hfirst, Nat.add_sub_cancel]
        exact h.flag true
      · rw [if_neg hfirst]
        have htail : (p, s) ∈ inUse HDR (b + HDR + c.size) cs := by
          rw [inUse] at hp
          split at hp
          · exact hp
          · rcases List.mem_cons.mp hp with heq | hp
            · exact absurd (Prod.mk.inj heq).1.symm hfirst
            · exact hp
        have hlow := (inUse_bounds htail).1
        dsimp only at hlow
        refine h.cons (ih h.2 htail) (extent_release ..) fun x hx => ?_
        exact setFree_outside (Or.inl (by omega))

/-- Merging the first block with the second. -/
theorem merge_chain {m : Mem} {b : Nat} {c d : Cell} {cs : List Cell}
    (h : Chain m b (c :: d :: cs))
    (hend : b + extent HDR (c :: d :: cs) < 2 ^ 32) (hc : c.free = true) :
    let m₁ := setSize m b
      (add32 (blkSize m b) (add32 HDR (blkSize m (blkNext m b))))
    Chain (setNext m₁ b (blkNext m₁ (blkNext m₁ b))) b
        ({ size := c.size + (HDR + d.size), free := true } :: cs) := by
  rw [extent, extent] at hend
  have hnext : blkNext m b = b + HDR + c.size := h.1.next
  have hsize : add32 (blkSize m b) (add32 HDR (blkSize m (blkNext m b)))
      = c.size + (HDR + d.size) := by
    have hsecond : add32 HDR d.size = HDR + d.size := add32_eq (by omega)
    rw [hnext, h.1.size, h.2.1.size, hsecond]
    exact add32_eq (by omega)
  have hlink : b + HDR + (c.size + (HDR + d.size))
      = b + HDR + c.size + HDR + d.size := by omega
  have hnext₁ : blkNext (setSize m b (c.size + (HDR + d.size))) b
      = b + HDR + c.size := by
    rw [← hnext]
    exact Mem.load32_store32_of_disjoint m _ (Or.inl (Nat.le_refl _))
  have hnext₂ : blkNext (setSize m b (c.size + (HDR + d.size)))
      (b + HDR + c.size) = ptr (b + HDR + (c.size + (HDR + d.size))) cs := by
    rw [hlink]
    refine (h.2.1.congr fun x hx _ => setSize_outside (Or.inr ?_)).next
    omega
  have hptr : ptr (b + HDR + (c.size + (HDR + d.size))) cs < 2 ^ 32 := by
    unfold ptr
    split <;> omega
  have hcell : { c with size := c.size + (HDR + d.size) }
      = { size := c.size + (HDR + d.size), free := true : Cell } := by
    rw [hc]
  dsimp only
  rw [hsize, hnext₁, hnext₂]
  refine ⟨?_, ?_⟩
  · rw [← hcell]
    exact h.1.resize (by omega) hptr
  · rw [hlink]
    refine h.2.2.congr fun x hx => ?_
    have := (inHeader_bounds hx).1
    rw [setNext_outside (by omega), setSize_outside (by omega)]

/-- The loop of `coalesce` is the library's. -/
theorem coalesceLoop_spec {cs : List Cell} :
    ∀ {c : Cell} {m : Mem} {b : Nat} (fuel : Nat), Chain m b (c :: cs) → 0 < b →
      b + extent HDR (c :: cs) < 2 ^ 32 → cs.length < fuel →
      ∃ m', coalesceLoop fuel m b = some m'
        ∧ Chain m' b (coalesceFrom HDR c cs)
        ∧ ∀ x, ¬ InHeader HDR b (c :: cs) x → m' x = m x := by
  induction cs with
  | nil =>
      intro c m b fuel h _ _ hfuel
      obtain ⟨fuel, rfl⟩ : ∃ k, fuel = k + 1 := ⟨fuel - 1, by omega⟩
      refine ⟨m, ?_, h, fun x _ => rfl⟩
      have hlast : blkNext m b = 0 := h.1.next
      rw [coalesceLoop, if_pos (Or.inr hlast)]
  | cons d cs ih =>
      intro c m b fuel h hb hend hfuel
      rw [List.length_cons] at hfuel
      obtain ⟨fuel, rfl⟩ : ∃ k, fuel = k + 1 := ⟨fuel - 1, by omega⟩
      have hnext : blkNext m b = b + HDR + c.size := h.1.next
      have hmore : ¬ (b = 0 ∨ blkNext m b = 0) := by
        rw [hnext]
        omega
      have hboth : (blkFree m b ≠ 0 ∧ blkFree m (blkNext m b) ≠ 0)
          ↔ (c.free && d.free) = true := by
        rw [hnext, h.1.free, h.2.1.free]
        cases c.free <;> cases d.free <;> decide
      have hend' := hend
      rw [extent, extent] at hend'
      rw [coalesceLoop, if_neg hmore, coalesceFrom]
      by_cases hfree : (c.free && d.free) = true
      · rw [if_pos (hboth.mpr hfree), if_pos hfree]
        have hc := (Bool.and_eq_true_iff.mp hfree).1
        have hmerged := merge_chain h hend hc
        obtain ⟨m', hm', hchain, hframe⟩ := ih fuel hmerged hb
          (by rw [extent]; dsimp only; omega) (by omega)
        refine ⟨m', hm', hchain, fun x hx => ?_⟩
        have hout : x < b ∨ b + HDR ≤ x := by
          by_contra hin
          exact hx (Or.inl (by omega))
        rw [hframe x ?_, setNext_outside hout, setSize_outside hout]
        intro hin
        rcases hin with hin | hin
        · exact hx (Or.inl hin)
        · refine hx (Or.inr (Or.inr ?_))
          rw [show b + HDR + c.size + HDR + d.size
            = b + HDR + (c.size + (HDR + d.size)) from by omega]
          exact hin
      · rw [if_neg (mt hboth.mp hfree), if_neg hfree, hnext]
        obtain ⟨m', hm', hchain, hframe⟩ := ih fuel h.2 (by omega)
          (by rw [extent]; omega) (by omega)
        refine ⟨m', hm', h.cons hchain (extent_coalesceFrom ..)
          fun x hx => hframe x fun hin => ?_, fun x hx => hframe x
          fun hin => hx (Or.inr hin)⟩
        have := (inHeader_bounds hin).1
        omega

-- ========================================================= the operations

/-- The heap holds the cells `cs` from `lo` on. -/
structure Holds (lo : Nat) (h : Heap) (cs : List Cell) : Prop where
  head : h.head = ptr lo cs
  chain : Chain h.mem lo cs
  inside : cs ≠ [] → KH_ALIGN ≤ lo ∧ lo + extent HDR cs < 2 ^ 32

/-- From `h` to `h'` only managed bytes change. -/
structure Keeps (lo : Nat) (cs : List Cell) (h h' : Heap) : Prop where
  base : h'.base = h.base
  size : h'.size = h.size
  mem : ∀ x, ¬ Managed HDR lo cs x → h'.mem x = h.mem x

variable {lo : Nat} {h : Heap} {cs : List Cell}

/-- Where a payload is in use there are cells. -/
theorem ne_nil_of_inUse {q : Nat × Nat} (hq : q ∈ inUse HDR lo cs) :
    cs ≠ [] := by
  intro hnil
  rw [hnil] at hq
  exact absurd hq List.not_mem_nil

/-- Cells of the same extent, in the same place. -/
theorem Holds.of_extent {cs' : List Cell} {m : Mem} (hh : Holds lo h cs)
    (hchain : Chain m lo cs') (hext : extent HDR cs' = extent HDR cs) :
    Holds lo { h with mem := m } cs' := by
  refine ⟨hh.head.trans (ptr_congr lo hext).symm, hchain, fun hne => ?_⟩
  rw [hext]
  refine hh.inside fun hnil => hne ?_
  have hlen := length_mul_le_extent HDR cs'
  rw [hext, hnil, extent] at hlen
  unfold HDR at hlen
  exact List.length_eq_zero_iff.mp (by omega)

/-- `heap_alloc`: it fails and changes nothing, or it is a first-fit
allocation of the rounded size. -/
theorem heapAlloc_spec (fuel : Nat) (hh : Holds lo h cs) (hfuel : cs.length < fuel)
    (n : Nat) :
    ((n = 0 ∨ alloc HDR KH_ALIGN (alignUp n KH_ALIGN) lo cs = none)
        ∧ heapAlloc fuel h n = some (h, 0))
      ∨ ∃ cs' p h', n ≠ 0
        ∧ alloc HDR KH_ALIGN (alignUp n KH_ALIGN) lo cs = some (cs', p)
        ∧ heapAlloc fuel h n = some (h', p)
        ∧ Holds lo h' cs' ∧ Keeps lo cs h h' := by
  unfold heapAlloc
  by_cases hn : n = 0
  · rw [if_pos hn]
    exact Or.inl ⟨Or.inl hn, rfl⟩
  have hal : KH_ALIGN ∣ alignUp n KH_ALIGN := by
    rw [alignUp_eq]
    exact Nat.dvd_mul_left ..
  rw [if_neg hn]
  rcases allocLoop_spec hal fuel hh.chain hh.inside hfuel with
    ⟨hnone, hloop⟩ | ⟨cs', p, m', hsome, hloop, hchain, hframe⟩
  · rw [← hh.head] at hloop
    rw [hloop]
    exact Or.inl ⟨Or.inr hnone, rfl⟩
  · rw [← hh.head] at hloop
    rw [hloop]
    have hext := (alloc_spec hsome).extent_eq
    exact Or.inr ⟨cs', p, _, hn, hsome, rfl, hh.of_extent hchain hext,
      rfl, rfl, hframe⟩

/-- `coalesce` from the head of the list. -/
theorem coalesce_spec {m : Mem} (fuel : Nat) (hchain : Chain m lo cs)
    (hlo : KH_ALIGN ≤ lo) (hfits : lo + extent HDR cs < 2 ^ 32)
    (hfuel : cs.length < fuel) :
    ∃ m', coalesceLoop fuel m (ptr lo cs) = some m'
      ∧ Chain m' lo (coalesce HDR cs)
      ∧ ∀ x, ¬ InHeader HDR lo cs x → m' x = m x := by
  cases cs with
  | nil =>
      obtain ⟨fuel, rfl⟩ : ∃ k, fuel = k + 1 := ⟨fuel - 1, by omega⟩
      exact ⟨m, if_pos (Or.inl rfl), hchain, fun x _ => rfl⟩
  | cons c cs =>
      rw [List.length_cons] at hfuel
      unfold KH_ALIGN at hlo
      obtain ⟨m', hm', hchain', hframe⟩ :=
        coalesceLoop_spec fuel hchain (by omega) hfits (by omega)
      exact ⟨m', hm', hchain', hframe⟩

/-- `heap_free` of a payload in use. -/
theorem heapFree_spec (fuel : Nat) (hh : Holds lo h cs) (hfuel : cs.length < fuel)
    {p s : Nat} (hp : (p, s) ∈ inUse HDR lo cs) :
    ∃ h', heapFree fuel h p = some h'
      ∧ Holds lo h' (coalesce HDR (release HDR p lo cs))
      ∧ Keeps lo cs h h' := by
  obtain ⟨hlo, hfits⟩ := hh.inside (ne_nil_of_inUse hp)
  unfold KH_ALIGN at hlo
  obtain ⟨hbounds, hend⟩ := inUse_bounds hp
  dsimp only at hbounds hend
  obtain ⟨⟨next, hhead⟩, hin⟩ := hh.chain.headerAt hp
  have hb : sub32 p HDR = p - HDR := sub32_eq (by omega) (by omega)
  have hext : extent HDR (release HDR p lo cs) = extent HDR cs :=
    extent_release p cs lo
  obtain ⟨m', hm', hchain, hframe⟩ :=
    coalesce_spec fuel (hh.chain.release hp) hlo
      (by rw [hext]; exact hfits) (by rw [length_release]; exact hfuel)
  have hfree : heapFree fuel h p = some { h with mem := m' } := by
    unfold heapFree
    dsimp only
    rw [ptr_congr lo hext, ← hh.head] at hm'
    have hused : blkFree h.mem (p - HDR) = 0 := hhead.free
    rw [if_neg (by omega), hb, if_neg (not_not.mpr hhead.magic),
      if_neg (not_not.mpr hused), hm']
    rfl
  refine ⟨_, hfree, hh.of_extent hchain
    ((extent_coalesce _).trans hext), rfl, rfl, fun x hx => ?_⟩
  have hout : ¬ InHeader HDR lo cs x := mt managed_of_inHeader hx
  have hside : x < p - HDR ∨ p - HDR + HDR ≤ x := by
    by_contra hx'
    exact hout (hin x (by omega) (by omega))
  show m' x = h.mem x
  rw [hframe x (mt inHeader_release.mp hout), setFree_outside hside]

/-- `kh_memcpy` writes to the bytes of its destination and to no others. -/
theorem khMemcpy_outside {n x : Nat} :
    ∀ {m : Mem} {d s : Nat}, (x < d ∨ d + n ≤ x) →
      khMemcpy m d s n x = m x := by
  induction n with
  | zero => intro m d s _; rfl
  | succ n ih =>
      intro m d s hx
      rw [khMemcpy, ih (by omega)]
      exact Mem.set_ne m _ (by omega)

/-- Between ranges apart, the copy arrives. -/
theorem khMemcpy_inside {n i : Nat} :
    ∀ {m : Mem} {d s : Nat}, (d + n ≤ s ∨ s + n ≤ d) → i < n →
      khMemcpy m d s n (d + i) = m (s + i) := by
  induction n generalizing i with
  | zero => intro m d s _ hi; exact absurd hi (Nat.not_lt_zero i)
  | succ n ih =>
      intro m d s hapart hi
      rw [khMemcpy]
      cases i with
      | zero =>
          rw [Nat.add_zero, khMemcpy_outside (by omega)]
          exact Mem.set_self ..
      | succ i =>
          rw [← Nat.add_assoc, Nat.add_right_comm d i 1,
            ih (by omega) (by omega), Mem.set_ne m _ (by omega)]
          congr 1
          omega

/-- A write inside a payload in use, byte for byte. -/
theorem Holds.write {m : Mem} (hh : Holds lo h cs) {p s : Nat}
    (hp : (p, s) ∈ inUse HDR lo cs)
    (hm : ∀ x, (x < p ∨ p + s ≤ x) → m x = h.mem x) :
    Holds lo { h with mem := m } cs := by
  refine ⟨hh.head, hh.chain.congr fun x hx => hm x ?_, hh.inside⟩
  by_contra hin
  exact not_managed_of_inUse hp (show p ≤ x by omega)
    (show x < p + s by omega) (managed_of_inHeader hx)

/-- There are no more cells than bytes. -/
theorem length_le_extent (cs : List Cell) : cs.length ≤ extent HDR cs := by
  have := length_mul_le_extent HDR cs
  unfold HDR at this ⊢
  omega

/-- `heap_realloc` of a payload in use to a new size: the payload is large
enough, or there is no room, or a larger payload takes its place, with
the bytes of the old one in front. -/
theorem heapRealloc_spec (fuel : Nat) (hh : Holds lo h cs)
    (hfuel : extent HDR cs < fuel)
    {p s n : Nat} (hp : (p, s) ∈ inUse HDR lo cs) (hn : n ≠ 0) :
    (alignUp n KH_ALIGN ≤ s ∧ heapRealloc fuel h p n = some (h, p))
      ∨ (s < alignUp n KH_ALIGN
        ∧ alloc HDR KH_ALIGN (alignUp n KH_ALIGN) lo cs = none
        ∧ heapRealloc fuel h p n = some (h, 0))
      ∨ ∃ cs' q h', s < alignUp n KH_ALIGN
        ∧ alloc HDR KH_ALIGN (alignUp n KH_ALIGN) lo cs = some (cs', q)
        ∧ heapRealloc fuel h p n = some (h', q)
        ∧ Holds lo h' (coalesce HDR (release HDR p lo cs'))
        ∧ Keeps lo cs h h'
        ∧ ∀ i < s, h'.mem (q + i) = h.mem (p + i) := by
  obtain ⟨hlo, hfits⟩ := hh.inside (ne_nil_of_inUse hp)
  unfold KH_ALIGN at hlo
  obtain ⟨hbounds, hend⟩ := inUse_bounds hp
  dsimp only at hbounds hend
  obtain ⟨⟨next, hhead⟩, -⟩ := hh.chain.headerAt hp
  have hb : sub32 p HDR = p - HDR := sub32_eq (by omega) (by omega)
  unfold heapRealloc
  dsimp only
  rw [if_neg (by omega), if_neg hn, hb, if_neg (not_not.mpr hhead.magic),
    hhead.size]
  by_cases hroom : alignUp n KH_ALIGN ≤ s
  · rw [if_pos hroom]
    exact Or.inl ⟨hroom, rfl⟩
  rw [if_neg hroom]
  have hlen := length_le_extent cs
  rcases heapAlloc_spec fuel hh (by omega) n with
    ⟨hfail, hnone⟩ | ⟨cs', q, h₁, -, halloc, hsome, hh₁, hkeep₁⟩
  · rw [hnone]
    exact Or.inr (Or.inl ⟨by omega, hfail.resolve_left hn, rfl⟩)
  rw [hsome]
  have hplaced := alloc_spec halloc
  have hext := hplaced.extent_eq
  have hmanaged := hplaced.managed
  obtain ⟨r, hr, hfresh, hmem⟩ := hplaced.mem_iff
  have hq : (q, r) ∈ inUse HDR lo cs' := (hmem _).mpr (Or.inl rfl)
  have hp' : (p, s) ∈ inUse HDR lo cs' := (hmem _).mpr (Or.inr hp)
  have hqlo := (inUse_bounds hq).1
  dsimp only at hqlo
  obtain ⟨⟨next', hhead'⟩, -⟩ := hh₁.chain.headerAt hp'
  -- the copy stays inside the new payload, which was the allocator's
  have hcopy : ∀ x, (x < q ∨ q + r ≤ x) →
      khMemcpy h₁.mem q p s x = h₁.mem x :=
    fun x hx => khMemcpy_outside (by omega)
  have hh₂ := hh₁.write hq hcopy
  have hfuel' := length_le_extent cs'
  obtain ⟨h', hfree, hh', hkeep'⟩ := heapFree_spec fuel hh₂
    (by omega) hp'
  refine Or.inr (Or.inr ⟨cs', q, h', by omega, halloc, ?_, hh', ?_,
    fun i hi => ?_⟩)
  · show (if q = 0 then _ else _) = _
    rw [if_neg (by omega)]
    dsimp only
    rw [hhead'.size, hfree]
    rfl
  · refine ⟨hkeep'.base.trans hkeep₁.base, hkeep'.size.trans hkeep₁.size,
      fun x hx => ?_⟩
    have hx' : ¬ Managed HDR lo cs' x := mt (hmanaged x) hx
    rw [hkeep'.mem x hx', ← hkeep₁.mem x hx]
    refine hcopy x ?_
    by_contra hin
    exact hx (hfresh x (by omega) (by omega))
  · have hpq : (p, s) ≠ (q, r) := by
      intro heq
      obtain ⟨rfl, rfl⟩ := Prod.mk.inj heq
      omega
    have hapart := inUse_disjoint hp' hq hpq
    dsimp only at hapart
    have hold : ¬ Managed HDR lo cs (p + i) :=
      not_managed_of_inUse hp (Nat.le_add_right p i)
        (Nat.add_lt_add_left hi p)
    have hnew : ¬ Managed HDR lo cs' (q + i) :=
      not_managed_of_inUse hq (Nat.le_add_right q i)
        (Nat.add_lt_add_left (by omega) q)
    rw [hkeep'.mem _ hnew, ← hkeep₁.mem _ hold]
    exact khMemcpy_inside (by omega) hi

-- ================================================== the calls on the cells

/-- `heap_alloc` on cells: the cells after the call and the pointer
returned. -/
def cellAlloc (lo : Nat) (cs : List Cell) (n : Nat) : List Cell × Nat :=
  if n = 0 then (cs, 0)
  else (alloc HDR KH_ALIGN (alignUp n KH_ALIGN) lo cs).getD (cs, 0)

/-- `heap_free` on cells. -/
def cellFree (lo : Nat) (cs : List Cell) (p : Nat) : List Cell :=
  if p = 0 then cs else coalesce HDR (release HDR p lo cs)

/-- The size of payload `p`. -/
def payloadSize (lo : Nat) (cs : List Cell) (p : Nat) : Nat :=
  ((inUse HDR lo cs).lookup p).getD 0

/-- `heap_realloc` on cells. -/
def cellRealloc (lo : Nat) (cs : List Cell) (p n : Nat) : List Cell × Nat :=
  if p = 0 then cellAlloc lo cs n
  else if n = 0 then (cellFree lo cs p, 0)
  else if alignUp n KH_ALIGN ≤ payloadSize lo cs p then (cs, p)
  else
    match alloc HDR KH_ALIGN (alignUp n KH_ALIGN) lo cs with
    | none => (cs, 0)
    | some (cs', q) => (cellFree lo cs' p, q)

/-- The size of a payload in use is the one that its cell has. -/
theorem payloadSize_eq {p s : Nat} (hp : (p, s) ∈ inUse HDR lo cs) :
    payloadSize lo cs p = s := by
  unfold payloadSize
  rw [lookup_inUse (by decide) hp, Option.getD_some]

/-- An allocation returns a payload of at least the rounded size. -/
theorem cellAlloc_inUse (lo : Nat) (cs : List Cell) (n : Nat)
    (hsome : (cellAlloc lo cs n).2 ≠ 0) :
    ∃ r, alignUp n KH_ALIGN ≤ r
      ∧ ((cellAlloc lo cs n).2, r) ∈ inUse HDR lo (cellAlloc lo cs n).1 := by
  unfold cellAlloc at hsome ⊢
  split at hsome
  · exact absurd rfl hsome
  · next hn =>
    rw [if_neg hn]
    cases halloc : alloc HDR KH_ALIGN (alignUp n KH_ALIGN) lo cs with
    | none =>
        rw [halloc] at hsome
        exact absurd rfl hsome
    | some res =>
        obtain ⟨r, hr, -, hmem⟩ := (alloc_spec halloc).mem_iff
        exact ⟨r, hr, (hmem _).mpr (Or.inl rfl)⟩

/-- So does a reallocation of NULL or of a payload in use. -/
theorem cellRealloc_inUse {p n : Nat} (hn : n ≠ 0)
    (hp : p = 0 ∨ ∃ s, (p, s) ∈ inUse HDR lo cs)
    (hsome : (cellRealloc lo cs p n).2 ≠ 0) :
    ∃ r, alignUp n KH_ALIGN ≤ r
      ∧ ((cellRealloc lo cs p n).2, r)
        ∈ inUse HDR lo (cellRealloc lo cs p n).1 := by
  unfold cellRealloc at hsome ⊢
  by_cases hnull : p = 0
  · rw [if_pos hnull] at hsome ⊢
    exact cellAlloc_inUse lo cs n hsome
  obtain ⟨s, hs⟩ := hp.resolve_left hnull
  rw [if_neg hnull, if_neg hn] at hsome ⊢
  rw [payloadSize_eq hs] at hsome ⊢
  by_cases hroom : alignUp n KH_ALIGN ≤ s
  · rw [if_pos hroom]
    exact ⟨s, hroom, hs⟩
  rw [if_neg hroom] at hsome ⊢
  cases halloc : alloc HDR KH_ALIGN (alignUp n KH_ALIGN) lo cs with
  | none =>
      rw [halloc] at hsome
      exact absurd rfl hsome
  | some res =>
      have hplaced := alloc_spec halloc
      obtain ⟨r, hr, -, hmem⟩ := hplaced.mem_iff
      have hfree : cellFree lo res.1 p
          = coalesce HDR (release HDR p lo res.1) := if_neg hnull
      -- the payload released is another one, for the new one is fresh
      have hne : res.2 ≠ p := by
        intro heq
        refine hplaced.fresh (by decide) ?_
        rw [heq]
        exact List.mem_map_of_mem hs
      refine ⟨r, hr, ?_⟩
      show (res.2, r) ∈ inUse HDR lo (cellFree lo res.1 p)
      rw [hfree, inUse_coalesce, inUse_release (by decide)]
      exact List.mem_filter.mpr
        ⟨(hmem _).mpr (Or.inl rfl), decide_eq_true hne⟩

/-- A heap that nobody has written to keeps all its payloads. -/
theorem Keeps.refl (lo : Nat) (cs : List Cell) (h : Heap) :
    Keeps lo cs h h := ⟨rfl, rfl, fun _ _ => rfl⟩

end Thuos.Mm
