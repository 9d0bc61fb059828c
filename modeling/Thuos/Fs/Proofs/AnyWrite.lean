/-
ramfs under arbitrary writes: names of any length, data of any length a
`uint32_t` can say. `ramfsWrite_any` is the case split everything here
starts from: a call is refused and changes nothing, or it stores.

Names. The table keeps 31 bytes of a name and the search compares all of
it, so a stored name is found again exactly when it was stored whole.
`Unique` is the invariant of the runs that store whole names only
(`unique_step`); a run that stores a longer one breaks the lookup at that
very write, since every name in the table is short (`short_step`). All of
this is about runs whose copies stay in the arena (`InRoom`): one that runs
off its end may overwrite the table.

Space. The arena check adds in 32 bits. A sum that wraps lands below the
fill level, so it always passes the check, and the copy runs off the end
of the arena; a sum that does not wrap is checked exactly. Either way the
fill level stays inside the arena (`arenaUsed_step`).
-/
import Mathlib
import Thuos.Fs.Proofs.Map

namespace Thuos.Fs

open Machine ByteMem

/-- One call of `ramfs_write`. -/
def writeStep (fs : Ramfs) (w : Write) : Ramfs :=
  (ramfsWrite fs w.name w.data).1

theorem writeStep_cases (fs : Ramfs) (w : Write) :
    (Refused fs w.name w.data ∧ writeStep fs w = fs)
      ∨ (¬Refused fs w.name w.data ∧ ∃ idx, SlotFor fs w.name idx
          ∧ writeStep fs w = stored fs w.name w.data idx) := by
  unfold writeStep
  rcases ramfsWrite_any fs w.name w.data with ⟨hno, hw⟩ | ⟨hok, idx, hs, hw⟩
  · rw [hw]
    exact Or.inl ⟨hno, rfl⟩
  · rw [hw]
    exact Or.inr ⟨hok, idx, hs, rfl⟩

-- ============================================================ the table

@[simp] theorem maxFiles_stored (fs : Ramfs) (w : Write) (idx : Nat) :
    (stored fs w.name w.data idx).maxFiles = fs.maxFiles :=
  List.length_set

/-- The name a write leaves in its slot. -/
def keptName (fs : Ramfs) (name : CStr) : CStr :=
  if ramfsFind fs name = none then rfsNcopy name RFS_NAME_MAX else name

theorem keptName_of_short {fs : Ramfs} {name : CStr}
    (h : name.length ≤ 31) : keptName fs name = name := by
  have hcopy : rfsNcopy name RFS_NAME_MAX = name := CStr.take_of_length_le h
  rw [keptName, hcopy, ite_self]

/-- The table after any write that got a slot: one entry replaced. -/
theorem file_stored {fs : Ramfs} {w : Write} {idx : Nat}
    (hidx : idx < fs.maxFiles) (j : Nat) :
    (stored fs w.name w.data idx).file j
      = if j = idx then
          { name := keptName fs w.name, off := fs.arenaUsed,
            size := w.data.length, used := true }
        else fs.file j := by
  unfold stored written Ramfs.file
  by_cases hj : j = idx
  · rw [if_pos hj, hj]
    exact Table.slot_set_self hidx _
  · rw [if_neg hj]
    exact Table.slot_set_ne hj _

/-- Every name in the table has been cut to its buffer. -/
def Short (fs : Ramfs) : Prop :=
  ∀ i < fs.maxFiles, (fs.file i).used = true → (fs.file i).name.length ≤ 31

theorem short_step {fs : Ramfs} (w : Write) (h : Short fs) :
    Short (writeStep fs w) := by
  rcases writeStep_cases fs w with ⟨-, hw⟩ | ⟨-, idx, hslot, hw⟩
  · rw [hw]
    exact h
  rw [hw]
  intro i hi hu
  rw [maxFiles_stored] at hi
  rw [file_stored hslot.1] at hu ⊢
  by_cases hii : i = idx
  · rw [if_pos hii]
    -- a name that was found is a stored name already
    rcases hslot.2 with hfind | ⟨hnone, -⟩
    · obtain ⟨hidx, huidx, hname⟩ := ramfsFind_eq_some hfind
      have hshort := h idx hidx huidx
      rw [hname] at hshort
      rw [keptName_of_short hshort]
      exact hshort
    · rw [keptName, if_pos hnone, rfsNcopy, CStr.take, CStr.length,
        List.length_take]
      exact Nat.min_le_left ..
  · rw [if_neg hii] at hu ⊢
    exact h i hi hu

/-- No two files of the table have one name. -/
def Unique (fs : Ramfs) : Prop :=
  ∀ i < fs.maxFiles, ∀ j < fs.maxFiles, (fs.file i).used = true →
    (fs.file j).used = true → (fs.file i).name = (fs.file j).name → i = j

/-- A slot the search did not choose holds another name. -/
theorem Unique.name_ne {fs : Ramfs} (h : Unique fs) {n : CStr} {idx j : Nat}
    (hs : SlotFor fs n idx) (hj : j < fs.maxFiles)
    (hu : (fs.file j).used = true) (hne : j ≠ idx) :
    (fs.file j).name ≠ n := by
  intro hn
  rcases hs with ⟨hidx, hfind | ⟨hnone, -⟩⟩
  · obtain ⟨-, huidx, hnidx⟩ := ramfsFind_eq_some hfind
    exact hne (h j hj idx hidx hu huidx (by rw [hn, hnidx]))
  · exact ramfsFind_eq_none_iff.mp hnone j hj hu hn

/-- A write whose name fits keeps the names different. -/
theorem unique_step {fs : Ramfs} {w : Write} (h : Unique fs)
    (hfits : ¬Refused fs w.name w.data → w.name.length ≤ 31) :
    Unique (writeStep fs w) := by
  rcases writeStep_cases fs w with ⟨-, hw⟩ | ⟨hok, idx, hslot, hw⟩
  · rw [hw]
    exact h
  rw [hw]
  intro i hi j hj hui huj hn
  rw [maxFiles_stored] at hi hj
  rw [file_stored hslot.1] at hui hn
  rw [file_stored hslot.1] at huj hn
  rw [keptName_of_short (hfits hok)] at hn hui huj
  by_cases hii : i = idx
  · by_cases hjj : j = idx
    · exact hii.trans hjj.symm
    · rw [if_pos hii, if_neg hjj] at hn
      rw [if_neg hjj] at huj
      exact absurd hn.symm (h.name_ne hslot hj huj hjj)
  · rw [if_neg hii] at hui
    by_cases hjj : j = idx
    · rw [if_neg hii, if_pos hjj] at hn
      exact absurd hn (h.name_ne hslot hi hui hii)
    · rw [if_neg hii, if_neg hjj] at hn
      rw [if_neg hjj] at huj
      exact h i hi j hj hui huj hn

/-- What callers expect of the table: every file is found under the name
the table gives for it, and no other file has that name. -/
structure Findable (fs : Ramfs) : Prop where
  unique : ∀ i j n, ramfsName fs i = some n → ramfsName fs j = some n → i = j
  found : ∀ i n, ramfsName fs i = some n → ramfsFind fs n = some i

theorem ramfsName_eq_some {fs : Ramfs} {i : Nat} {n : CStr} :
    ramfsName fs i = some n
      ↔ i < fs.maxFiles ∧ (fs.file i).used = true ∧ (fs.file i).name = n := by
  unfold ramfsName
  split
  · next h => simp [h]
  · next h =>
      rw [not_and] at h
      simp only [reduceCtorEq, false_iff, not_and]
      intro hi hu
      exact absurd hu (h hi)

theorem findable_of_unique {fs : Ramfs} (h : Unique fs) : Findable fs := by
  constructor
  · intro i j n hi hj
    obtain ⟨hi, hui, hni⟩ := ramfsName_eq_some.mp hi
    obtain ⟨hj, huj, hnj⟩ := ramfsName_eq_some.mp hj
    exact h i hi j hj hui huj (hni.trans hnj.symm)
  · intro i n hin
    obtain ⟨hi, hu, hn⟩ := ramfsName_eq_some.mp hin
    cases hf : ramfsFind fs n with
    | none => exact absurd hn (ramfsFind_eq_none_iff.mp hf i hi hu)
    | some j =>
        obtain ⟨hj, huj, hnj⟩ := ramfsFind_eq_some hf
        rw [h i hi j hj hu huj (hn.trans hnj.symm)]

-- ======================================================= the data stored

/-- Slot `i` holds `data`: its length, and its bytes in the arena. -/
def HoldsData (fs : Ramfs) (i : Nat) (data : List UInt8) : Prop :=
  (fs.file i).size = data.length
    ∧ ∀ k (h : k < data.length),
        fs.arena (((fs.file i).off + k) % 2 ^ 32) = data[k]

instance (fs : Ramfs) (i : Nat) (data : List UInt8) :
    Decidable (HoldsData fs i data) :=
  inferInstanceAs (Decidable (_ ∧ _))

theorem copyIn_outside {bs : List UInt8} {arena : Mem} {off x : Nat}
    (h : ∀ k < bs.length, (off + k) % 2 ^ 32 ≠ x) :
    copyIn arena off bs x = arena x := by
  induction bs generalizing arena off with
  | nil => rfl
  | cons b bs ih =>
      have hx : x ≠ off % 2 ^ 32 := (h 0 (by simp)).symm
      rw [copyIn, ih, Mem.set_ne _ _ hx]
      intro k hk
      have hk' := h (k + 1) (by simpa using hk)
      rw [Nat.add_right_comm, Nat.add_assoc]
      exact hk'

/-- Fewer than `2 ^ 32` bytes land in different cells, wherever the copy
wraps. -/
theorem copyIn_inside {bs : List UInt8} {arena : Mem} {off k : Nat}
    (hlen : bs.length ≤ 2 ^ 32) (h : k < bs.length) :
    copyIn arena off bs ((off + k) % 2 ^ 32) = bs[k] := by
  induction bs generalizing arena off k with
  | nil => exact absurd h (Nat.not_lt_zero k)
  | cons b bs ih =>
      rw [List.length_cons] at hlen h
      rw [copyIn]
      cases k with
      | zero =>
          rw [copyIn_outside, Nat.add_zero]
          · exact Mem.set_self ..
          · intro j hj
            omega
      | succ k =>
          have hplace : off + (k + 1) = off + 1 + k := by omega
          rw [hplace]
          exact ih (by omega) (by omega)

/-- A write that went through is found at the slot that holds its data. -/
def FoundAfter (fs : Ramfs) (w : Write) : Prop :=
  ¬Refused fs w.name w.data →
    ∃ i, ramfsFind (writeStep fs w) w.name = some i
      ∧ HoldsData (writeStep fs w) i w.data

/-- A write that goes through and whose sum does not wrap: its copy ends
in the arena, and not behind it in the memory of others. -/
def InRoom (fs : Ramfs) (w : Write) : Prop :=
  ¬Refused fs w.name w.data → fs.arenaUsed + w.data.length < 2 ^ 32

instance (fs : Ramfs) (w : Write) : Decidable (InRoom fs w) :=
  inferInstanceAs (Decidable (¬_ → _))

/-- The data a write has stored is in its slot. -/
theorem holdsData_stored {fs : Ramfs} {w : Write} {idx : Nat}
    (hidx : idx < fs.maxFiles) (hlen : w.data.length < 2 ^ 32) :
    HoldsData (stored fs w.name w.data idx) idx w.data := by
  unfold HoldsData
  rw [file_stored hidx, if_pos rfl]
  exact ⟨rfl, fun k hk => copyIn_inside (Nat.le_of_lt hlen) hk⟩

theorem foundAfter_of_short {fs : Ramfs} {w : Write} (h : Unique fs)
    (hroom : InRoom fs w)
    (hfits : ¬Refused fs w.name w.data → w.name.length ≤ 31) :
    FoundAfter fs w := by
  intro hok
  have hfind := (findable_of_unique (unique_step h hfits)).found
  rcases writeStep_cases fs w with ⟨hno, -⟩ | ⟨-, idx, hslot, hw⟩
  · exact absurd hno hok
  rw [hw] at hfind ⊢
  have hlen : w.data.length < 2 ^ 32 :=
    Nat.lt_of_le_of_lt (Nat.le_add_left ..) (hroom hok)
  refine ⟨idx, hfind idx w.name ?_, holdsData_stored hslot.1 hlen⟩
  rw [ramfsName_eq_some, file_stored hslot.1, if_pos rfl, maxFiles_stored]
  exact ⟨hslot.1, rfl, keptName_of_short (hfits hok)⟩

/-- A name that is found is in the table, so it is short. -/
theorem short_of_foundAfter {fs : Ramfs} {w : Write} (h : Short fs)
    (hfound : FoundAfter fs w) (hok : ¬Refused fs w.name w.data) :
    w.name.length ≤ 31 := by
  obtain ⟨i, hfind, -⟩ := hfound hok
  obtain ⟨hi, hu, hn⟩ := ramfsFind_eq_some hfind
  have hshort := short_step w h i hi hu
  rw [hn] at hshort
  exact hshort

-- ================================================================= names

/-- Over a whole run in which no write runs off the end of the arena, names
are unique and findable, and every write that goes through is found where
it was stored, exactly when no write that goes through has a name of 32
bytes or more. -/
theorem names_findable_iff (files : List RFile) (arena : Mem) (sz : Nat)
    (ops : List Write)
    (hroom : Along writeStep InRoom (ramfsInit files arena sz) ops) :
    ((∀ pre, pre <+: ops →
        Findable (exec writeStep (ramfsInit files arena sz) pre))
      ∧ Along writeStep FoundAfter (ramfsInit files arena sz) ops)
      ↔ Along writeStep
        (fun fs w => ¬Refused fs w.name w.data → w.name.length ≤ 31)
        (ramfsInit files arena sz) ops := by
  have hunused := unused_init files arena sz
  constructor
  · rintro ⟨-, hfound⟩
    refine along_imp Short (fun fs w h hC => ?_) ?_ hfound
    · exact ⟨short_step w h, short_of_foundAfter h hC⟩
    · intro i _ hu
      rw [hunused i] at hu
      exact nomatch hu
  · intro hfits
    have hinit : Unique (ramfsInit files arena sz) := by
      intro i _ _ _ hu
      rw [hunused i] at hu
      exact nomatch hu
    constructor
    · rintro pre ⟨post, rfl⟩
      apply findable_of_unique
      refine exec_inv Unique (fun fs w h hC => unique_step h hC) hinit ?_
      exact (along_append.mp hfits).1
    · refine along_imp Unique (fun fs w h hC => ?_) hinit
        (along_and hfits hroom)
      exact ⟨unique_step h hC.1, foundAfter_of_short h hC.2 hC.1⟩

/-- Two writes of one short name: found, in one slot. -/
theorem names_findable_iff_two :
    Along writeStep FoundAfter (ramfsInit [noFile, noFile] (fun _ => 0) 16)
      [⟨nameA, [1, 2]⟩, ⟨nameA, [3]⟩] := by
  refine ((names_findable_iff [noFile, noFile] (fun _ => 0) 16
    [⟨nameA, [1, 2]⟩, ⟨nameA, [3]⟩] (by decide)).mpr ?_).2
  decide

/-- A name of 32 bytes, one more than the table keeps. -/
def name32 : CStr := ⟨List.replicate 32 97, by decide⟩

/-- Two writes of a name of 32 bytes both succeed and are not found, and
the second one makes a second file of the same stored name. -/
theorem long_name_lost :
    (ramfsWrite (ramfsInit [noFile, noFile] (fun _ => 0) 16) name32 [1]).2 = 1
      ∧ ramfsFind
        (exec writeStep (ramfsInit [noFile, noFile] (fun _ => 0) 16)
          [⟨name32, [1]⟩]) name32 = none
      ∧ ramfsName
        (exec writeStep (ramfsInit [noFile, noFile] (fun _ => 0) 16)
          [⟨name32, [1]⟩, ⟨name32, [2]⟩]) 0
        = some (name32.take 31)
      ∧ ramfsName
        (exec writeStep (ramfsInit [noFile, noFile] (fun _ => 0) 16)
          [⟨name32, [1]⟩, ⟨name32, [2]⟩]) 1
        = some (name32.take 31) := by
  decide

-- ================================================================= space

/-- What the arena check is there for: a call that does not fit fails and
changes nothing, and any call writes in the free part of the arena only
and leaves the fill level inside it. -/
structure Bounded (fs : Ramfs) (w : Write) : Prop where
  fails : fs.arenaSz - fs.arenaUsed < w.data.length →
    ramfsWrite fs w.name w.data = (fs, -1)
  frame : ∀ x, x < fs.arenaUsed ∨ fs.arenaSz ≤ x →
    (writeStep fs w).arena x = fs.arena x
  used_le : (writeStep fs w).arenaUsed ≤ (writeStep fs w).arenaSz

/-- The check is on the very sum that becomes the fill level. -/
theorem arenaUsed_step {fs : Ramfs} (w : Write)
    (h : fs.arenaUsed ≤ fs.arenaSz) :
    (writeStep fs w).arenaUsed ≤ (writeStep fs w).arenaSz
      ∧ (writeStep fs w).arenaSz = fs.arenaSz := by
  rcases writeStep_cases fs w with ⟨-, hw⟩ | ⟨hok, idx, -, hw⟩
  · rw [hw]
    exact ⟨h, rfl⟩
  · rw [hw]
    exact ⟨Nat.not_lt.mp fun hlt => hok (Or.inr (Or.inl hlt)), rfl⟩

theorem arenaUsed_run (files : List RFile) (arena : Mem) (sz : Nat)
    (ops : List Write) :
    (exec writeStep (ramfsInit files arena sz) ops).arenaUsed ≤ sz
      ∧ (exec writeStep (ramfsInit files arena sz) ops).arenaSz = sz := by
  refine exec_inv' (fun fs : Ramfs => fs.arenaUsed ≤ sz ∧ fs.arenaSz = sz)
    (fun fs w h => ?_) ⟨Nat.zero_le _, rfl⟩
  obtain ⟨hused, hsz⟩ := h
  rw [← hsz] at hused
  obtain ⟨hused', hsz'⟩ := arenaUsed_step w hused
  rw [hsz', hsz] at hused'
  exact ⟨hused', hsz'.trans hsz⟩

/-- Without wrap-around the check is exact and the copy stays in the free
part. -/
theorem bounded_of_no_wrap {fs : Ramfs} {w : Write}
    (hused : fs.arenaUsed ≤ fs.arenaSz)
    (hwrap : fs.arenaUsed + w.data.length < 2 ^ 32) : Bounded fs w := by
  refine ⟨fun hbig => ?_, fun x hx => ?_, (arenaUsed_step w hused).1⟩
  · rcases ramfsWrite_any fs w.name w.data with ⟨-, hw⟩ | ⟨hok, -⟩
    · exact hw
    · refine absurd (Or.inr (Or.inl ?_)) hok
      rw [Nat.mod_eq_of_lt hwrap]
      omega
  · rcases writeStep_cases fs w with ⟨-, hw⟩ | ⟨hok, idx, -, hw⟩
    · rw [hw]
    · rw [hw]
      apply copyIn_outside
      have hfits : ¬fs.arenaSz < (fs.arenaUsed + w.data.length) % 2 ^ 32 :=
        fun h => hok (Or.inr (Or.inl h))
      rw [Nat.mod_eq_of_lt hwrap] at hfits
      intro k hk
      omega

theorem bounded_of_refused {fs : Ramfs} {w : Write}
    (hused : fs.arenaUsed ≤ fs.arenaSz)
    (hno : Refused fs w.name w.data) : Bounded fs w := by
  rcases ramfsWrite_any fs w.name w.data with ⟨-, hw⟩ | ⟨hok, -⟩
  · refine ⟨fun _ => hw, fun x _ => ?_, (arenaUsed_step w hused).1⟩
    unfold writeStep
    rw [hw]
  · exact absurd hno hok

/-- A sum that wraps is below the fill level: it passes the check, and the
call that should have failed stores its data. -/
theorem not_bounded_of_wrap {fs : Ramfs} {w : Write}
    (hused : fs.arenaUsed ≤ fs.arenaSz) (hsz : fs.arenaSz < 2 ^ 32)
    (hlen : w.data.length < 2 ^ 32)
    (hwrap : 2 ^ 32 ≤ fs.arenaUsed + w.data.length)
    (hother : w.name.chars ≠ []
      ∧ ¬(ramfsFind fs w.name = none
        ∧ ∀ i < fs.maxFiles, (fs.file i).used = true)) :
    ¬Bounded fs w := by
  intro hb
  have hfail := hb.fails (by omega)
  rcases ramfsWrite_any fs w.name w.data with ⟨hno, -⟩ | ⟨-, idx, -, hw⟩
  · rcases hno with h | h | h
    · exact hother.1 h
    · omega
    · exact hother.2 h
  · rw [hw] at hfail
    have hfill : (fs.arenaUsed + w.data.length) % 2 ^ 32 = fs.arenaUsed :=
      congrArg Ramfs.arenaUsed (congrArg Prod.fst hfail)
    omega

/-- In every state a run reaches, the arena bound holds of a call exactly
when the sum of the arena check does not wrap, or the call is refused on
other grounds: an empty name, or a new one and a full table. -/
theorem arena_bound_iff (files : List RFile) (arena : Mem) (sz : Nat)
    (ops : List Write) (w : Write) (hsz : sz < 2 ^ 32)
    (hlen : w.data.length < 2 ^ 32) :
    let fs := exec writeStep (ramfsInit files arena sz) ops
    Bounded fs w
      ↔ fs.arenaUsed + w.data.length < 2 ^ 32
        ∨ w.name.chars = []
        ∨ (ramfsFind fs w.name = none
          ∧ ∀ i < fs.maxFiles, (fs.file i).used = true) := by
  intro fs
  obtain ⟨hused', harena⟩ := arenaUsed_run files arena sz ops
  have hused : fs.arenaUsed ≤ fs.arenaSz := hused'.trans harena.ge
  constructor
  · intro hb
    by_contra hnot
    rw [not_or, not_or, Nat.not_lt] at hnot
    obtain ⟨hwrap, hname, hslot⟩ := hnot
    refine not_bounded_of_wrap hused (harena.trans_lt hsz) hlen hwrap ?_ hb
    exact ⟨hname, hslot⟩
  · rintro (hwrap | hname | hslot)
    · exact bounded_of_no_wrap hused hwrap
    · exact bounded_of_refused hused (Or.inl hname)
    · exact bounded_of_refused hused (Or.inr (Or.inr hslot))

/-- Twenty bytes do not fit an arena of 16: refused. -/
theorem arena_bound_iff_twenty :
    Bounded (exec writeStep (ramfsInit [noFile] (fun _ => 0) 16) [])
      ⟨nameA, List.replicate 20 1⟩ :=
  (arena_bound_iff [noFile] (fun _ => 0) 16 [] ⟨nameA, List.replicate 20 1⟩
    (by decide) (by decide)).mpr (Or.inl (by decide))

/-- Two bytes into an arena of 16, a write of `2^32 - 2` bytes goes
through: it overwrites the byte after the arena and empties the fill
level, so that the next write lands on the first file. -/
theorem wrapped_length_accepted :
    ∃ data : List UInt8, data.length = 2 ^ 32 - 2
      ∧ (exec writeStep (ramfsInit [noFile] (fun _ => 0) 16)
          [⟨nameA, [1, 2]⟩]).arenaUsed = 2
      ∧ (ramfsWrite (exec writeStep (ramfsInit [noFile] (fun _ => 0) 16)
          [⟨nameA, [1, 2]⟩]) nameA data).2 = -2
      ∧ (exec writeStep (ramfsInit [noFile] (fun _ => 0) 16)
          [⟨nameA, [1, 2]⟩, ⟨nameA, data⟩]).arena 16 = 255
      ∧ (exec writeStep (ramfsInit [noFile] (fun _ => 0) 16)
          [⟨nameA, [1, 2]⟩, ⟨nameA, data⟩]).arenaUsed = 0 := by
  obtain ⟨data, hlen, hdata⟩ : ∃ data : List UInt8,
      data.length = 2 ^ 32 - 2 ∧ ∀ k (h : k < data.length), data[k] = 255 :=
    ⟨List.replicate _ 255, List.length_replicate,
      fun k h => List.getElem_replicate h⟩
  have hfs : (exec writeStep (ramfsInit [noFile] (fun _ => 0) 16)
      [⟨nameA, [1, 2]⟩]).arenaUsed = 2 := by decide
  have hsz : (exec writeStep (ramfsInit [noFile] (fun _ => 0) 16)
      [⟨nameA, [1, 2]⟩]).arenaSz = 16 := by decide
  have hfind : ramfsFind (exec writeStep
      (ramfsInit [noFile] (fun _ => 0) 16) [⟨nameA, [1, 2]⟩]) nameA
        = some 0 := by decide
  refine ⟨data, hlen, hfs, ?_⟩
  rw [show ([⟨nameA, [1, 2]⟩, ⟨nameA, data⟩] : List Write)
    = [⟨nameA, [1, 2]⟩] ++ [⟨nameA, data⟩] from rfl, exec_append]
  generalize exec writeStep (ramfsInit [noFile] (fun _ => 0) 16)
    [⟨nameA, [1, 2]⟩] = fs at hfs hsz hfind
  show (ramfsWrite fs nameA data).2 = -2
    ∧ (ramfsWrite fs nameA data).1.arena 16 = 255
    ∧ (ramfsWrite fs nameA data).1.arenaUsed = 0
  have hok : ¬Refused fs nameA data := by
    rintro (h | h | h)
    · exact absurd h (by decide)
    · rw [hfs, hsz, hlen] at h
      exact absurd h (by decide)
    · rw [hfind] at h
      exact nomatch h.1
  rcases ramfsWrite_any fs nameA data with ⟨hno, -⟩ | ⟨-, idx, hslot, hw⟩
  · exact absurd hno hok
  · rw [hw]
    refine ⟨?_, ?_, ?_⟩
    · show toInt32 data.length = -2
      rw [hlen]
      decide
    · have h16 := @copyIn_inside data fs.arena fs.arenaUsed 14
        (by rw [hlen]; decide) (by rw [hlen]; decide)
      rw [hdata, hfs] at h16
      show copyIn fs.arena fs.arenaUsed data 16 = 255
      rw [hfs]
      exact h16
    · show (fs.arenaUsed + data.length) % 2 ^ 32 = 0
      rw [hfs, hlen]
      decide

end Thuos.Fs
