/-
ramfs is a finite map. The abstract side is a log of the successful
writes, newest first: the contents of a name are its first entry
(`List.lookup`), the files are the distinct names. `Stores` relates a
filesystem to its log, and `stores_step` shows every write keeps the
relation, whatever slot it lands in.

The three failure points of `ramfs_write` (empty name, arena, table) are
atomic by `ramfsWrite_spec`. What is not sound is the return value: a
write of `2^32 - 1` bytes succeeds with `(int)len = -1`, the failure
code. `Sound` excludes exactly the successful writes of that length,
which need an arena of `2^32 - 1` bytes; `failure_code_on_success` is the
run that has one.
-/
import Mathlib
import Thuos.Fs.Core

namespace Thuos.Fs

open Machine ByteMem

-- ============================================================= the log

/-- One call of `ramfs_write`. -/
structure Write where
  name : CStr
  data : List UInt8

/-- The writes that returned success, newest first. -/
abbrev Log := List (CStr × List UInt8)

/-- A call on the filesystem, recorded in the log unless it returned
`-1`. -/
def logStep (st : Ramfs × Log) (w : Write) : Ramfs × Log :=
  ((ramfsWrite st.1 w.name w.data).1,
    if (ramfsWrite st.1 w.name w.data).2 = -1 then st.2
    else (w.name, w.data) :: st.2)

/-- What the callers promise: a name of 1 to 31 bytes, and a length that
does not wrap the arena's fill level. -/
def InDomain (fs : Ramfs) (w : Write) : Prop :=
  1 ≤ w.name.length ∧ w.name.length ≤ 31
    ∧ fs.arenaUsed + w.data.length < 2 ^ 32

/-- The call is not a successful write of `2^32 - 1` bytes. -/
def Sound (fs : Ramfs) (w : Write) : Prop :=
  w.data.length = 2 ^ 32 - 1 → NoRoom fs w.name w.data

instance (fs : Ramfs) (w : Write) : Decidable (InDomain fs w) :=
  inferInstanceAs (Decidable (_ ∧ _ ∧ _))

instance (fs : Ramfs) (w : Write) : Decidable (Sound fs w) :=
  inferInstanceAs (Decidable (_ → _ ∨ (_ ∧ ∀ i < fs.maxFiles, _)))

/-- The filesystem holds what the log says. -/
structure Stores (sz : Nat) (fs : Ramfs) (log : Log) : Prop where
  size_eq : fs.arenaSz = sz
  used_le : fs.arenaUsed ≤ fs.arenaSz
  extent : ∀ i < fs.maxFiles, (fs.file i).used = true →
    (fs.file i).off + (fs.file i).size ≤ fs.arenaUsed
  disjoint : ∀ i < fs.maxFiles, ∀ j < fs.maxFiles, i ≠ j →
    (fs.file i).used = true → (fs.file j).used = true →
    (fs.file i).off + (fs.file i).size ≤ (fs.file j).off
      ∨ (fs.file j).off + (fs.file j).size ≤ (fs.file i).off
  unique : ∀ i < fs.maxFiles, ∀ j < fs.maxFiles,
    (fs.file i).used = true → (fs.file j).used = true →
    (fs.file i).name = (fs.file j).name → i = j
  stored : ∀ i < fs.maxFiles, (fs.file i).used = true →
    log.lookup (fs.file i).name
      = some (fs.arena.read (fs.file i).off (fs.file i).size)
  named : ∀ n ∈ log.map Prod.fst,
    ∃ i < fs.maxFiles, (fs.file i).used = true ∧ (fs.file i).name = n
  count_eq : fs.count = (log.map Prod.fst).dedup.length

theorem unused_init (files : List RFile) (arena : Mem) (sz i : Nat) :
    ((ramfsInit files arena sz).file i).used = false := by
  unfold ramfsInit Ramfs.file
  by_cases hi : i < files.length
  · rw [Table.slot_eq_getElem (by rw [List.length_map]; exact hi),
      List.getElem_map]
  · rw [Table.slot_of_le (by rw [List.length_map]; omega)]
    rfl

theorem stores_init (files : List RFile) (arena : Mem) (sz : Nat) :
    Stores sz (ramfsInit files arena sz) [] := by
  have hcontra : ∀ {P : Prop} i,
      ((ramfsInit files arena sz).file i).used = true → P := by
    intro P i hu
    rw [unused_init files arena sz i] at hu
    exact nomatch hu
  exact ⟨rfl, Nat.zero_le _, fun i _ hu => hcontra i hu,
    fun i _ _ _ _ hu => hcontra i hu, fun i _ _ _ hu => hcontra i hu,
    fun i _ hu => hcontra i hu, fun n hn => (nomatch hn), rfl⟩

-- ======================================================== reading back

/-- Reading a name is looking it up in the log. -/
theorem readBytes_eq_lookup {sz : Nat} {fs : Ramfs} {log : Log}
    (h : Stores sz fs log) (n : CStr) : readBytes fs n = log.lookup n := by
  unfold readBytes ramfsRead
  cases hf : ramfsFind fs n with
  | some i =>
      obtain ⟨hi, hu, hn⟩ := ramfsFind_eq_some hf
      have := h.stored i hi hu
      rw [hn] at this
      rw [this]
      rfl
  | none =>
      have hnone := ramfsFind_eq_none_iff.mp hf
      cases hl : log.lookup n with
      | none => rfl
      | some d =>
          have hmem : n ∈ log.map Prod.fst := by
            obtain ⟨l₁, l₂, hlog, -⟩ := List.lookup_eq_some_iff.mp hl
            rw [hlog]
            simp
          obtain ⟨i, hi, hu, hn⟩ := h.named n hmem
          exact absurd hn (hnone i hi hu)

-- ====================================================== one write, stored

/-- The table after a successful write: one entry replaced. -/
theorem file_written {fs : Ramfs} {w : Write} {idx : Nat}
    (hidx : idx < fs.maxFiles) (hlen : w.name.length ≤ 31) (j : Nat) :
    (written fs w.name w.data idx).file j
      = if j = idx then
          { name := w.name, off := fs.arenaUsed, size := w.data.length,
            used := true }
        else fs.file j := by
  have hname : rfsNcopy w.name RFS_NAME_MAX = w.name :=
    CStr.take_of_length_le hlen
  unfold written Ramfs.file
  rw [hname, ite_self]
  by_cases hj : j = idx
  · rw [if_pos hj, hj]
    exact Table.slot_set_self hidx _
  · rw [if_neg hj]
    exact Table.slot_set_ne hj _

/-- No used slot but the one written carries the written name. -/
theorem name_ne_of_ne_slot {sz : Nat} {fs : Ramfs} {log : Log}
    (h : Stores sz fs log) {n : CStr} {idx j : Nat} (hs : SlotFor fs n idx)
    (hj : j < fs.maxFiles) (hu : (fs.file j).used = true) (hne : j ≠ idx) :
    (fs.file j).name ≠ n := by
  intro hn
  rcases hs with ⟨hidx, hfind | ⟨hnone, -⟩⟩
  · obtain ⟨-, huidx, hnidx⟩ := ramfsFind_eq_some hfind
    exact hne (h.unique j hj idx hidx hu huidx (by rw [hn, hnidx]))
  · exact ramfsFind_eq_none_iff.mp hnone j hj hu hn

/-- A used entry of the table after a successful write is the entry
written, or an entry that was there before under another name. -/
theorem file_written_cases {sz : Nat} {fs : Ramfs} {log : Log}
    (h : Stores sz fs log) {w : Write} {idx j : Nat}
    (hs : SlotFor fs w.name idx) (hlen : w.name.length ≤ 31)
    (hj : j < (written fs w.name w.data idx).maxFiles)
    (hu : ((written fs w.name w.data idx).file j).used = true) :
    (j = idx ∧ (written fs w.name w.data idx).file j
        = { name := w.name, off := fs.arenaUsed, size := w.data.length,
            used := true })
      ∨ (j ≠ idx ∧ (written fs w.name w.data idx).file j = fs.file j
        ∧ j < fs.maxFiles ∧ (fs.file j).used = true
        ∧ (fs.file j).name ≠ w.name) := by
  have hmax : (written fs w.name w.data idx).maxFiles = fs.maxFiles :=
    List.length_set
  rw [hmax] at hj
  rw [file_written hs.1 hlen] at hu ⊢
  by_cases hji : j = idx
  · rw [if_pos hji]
    exact Or.inl ⟨hji, rfl⟩
  · rw [if_neg hji] at hu ⊢
    exact Or.inr ⟨hji, rfl, hj, hu, name_ne_of_ne_slot h hs hj hu hji⟩

/-- A name is in the log exactly when a slot is found for it. -/
theorem mem_log_iff {sz : Nat} {fs : Ramfs} {log : Log}
    (h : Stores sz fs log) {n : CStr} :
    n ∈ log.map Prod.fst ↔ ramfsFind fs n ≠ none := by
  rw [Ne, ramfsFind_eq_none_iff]
  refine ⟨fun hmem hnone => ?_, fun hsome => ?_⟩
  · obtain ⟨i, hi, hu, hn⟩ := h.named n hmem
    exact hnone i hi hu hn
  · by_contra hmem
    refine hsome fun i hi hu hn => hmem ?_
    have hst := h.stored i hi hu
    rw [hn] at hst
    obtain ⟨l₁, l₂, hlog, -⟩ := List.lookup_eq_some_iff.mp hst
    rw [hlog]
    simp

/-- Every name in the log, the one written included, has its slot. -/
theorem written_named {sz : Nat} {fs : Ramfs} {log : Log}
    (h : Stores sz fs log) {w : Write} {idx : Nat}
    (hs : SlotFor fs w.name idx) (hlen : w.name.length ≤ 31) {n : CStr}
    (hn : n = w.name ∨ n ∈ log.map Prod.fst) :
    ∃ i < fs.maxFiles, ((written fs w.name w.data idx).file i).used = true
      ∧ ((written fs w.name w.data idx).file i).name = n := by
  have hfile := file_written (w := w) hs.1 hlen
  by_cases hnw : n = w.name
  · refine ⟨idx, hs.1, ?_, ?_⟩
    · rw [hfile idx, if_pos rfl]
    · rw [hfile idx, if_pos rfl, hnw]
  · obtain ⟨i, hi, hu, hni⟩ := h.named n (hn.resolve_left hnw)
    have hii : i ≠ idx := by
      intro hii
      rw [hii] at hu hni
      rcases hs.2 with hfind | ⟨-, hfree⟩
      · exact hnw (hni.symm.trans (ramfsFind_eq_some hfind).2.2)
      · rw [hfree] at hu
        exact Bool.noConfusion hu
    refine ⟨i, hi, ?_, ?_⟩
    · rw [hfile i, if_neg hii]
      exact hu
    · rw [hfile i, if_neg hii]
      exact hni

/-- The count goes up exactly with a new name. -/
theorem written_count {sz : Nat} {fs : Ramfs} {log : Log}
    (h : Stores sz fs log) (n : CStr) :
    (if ramfsFind fs n = none then fs.count + 1 else fs.count)
      = (n :: log.map Prod.fst).dedup.length := by
  by_cases hfind : ramfsFind fs n = none
  · have hmem : n ∉ log.map Prod.fst := fun hmem =>
      (mem_log_iff h).mp hmem hfind
    rw [if_pos hfind, List.dedup_cons_of_notMem hmem, List.length_cons,
      h.count_eq]
  · rw [if_neg hfind, List.dedup_cons_of_mem ((mem_log_iff h).mpr hfind)]
    exact h.count_eq

/-- A successful write stores its data under its name and keeps every
other file. -/
theorem stores_written {sz : Nat} {fs : Ramfs} {log : Log}
    (h : Stores sz fs log) {w : Write} {idx : Nat}
    (hs : SlotFor fs w.name idx) (hlen : w.name.length ≤ 31)
    (hroom : fs.arenaUsed + w.data.length ≤ fs.arenaSz) :
    Stores sz (written fs w.name w.data idx)
      ((w.name, w.data) :: log) := by
  have hmax : (written fs w.name w.data idx).maxFiles = fs.maxFiles :=
    List.length_set
  refine ⟨h.size_eq, hroom, fun i hi hu => ?_,
    fun i hi j hj hij hui huj => ?_, fun i hi j hj hui huj hn => ?_,
    fun i hi hu => ?_, fun n hn => ?_, written_count h w.name⟩
  · -- the extents stay below the new fill level
    show _ ≤ fs.arenaUsed + w.data.length
    rcases file_written_cases h hs hlen hi hu with
      ⟨-, hfile⟩ | ⟨-, hfile, hi, hu, -⟩
    · rw [hfile]
    · rw [hfile]
      have := h.extent i hi hu
      omega
  · -- the new extent starts where all the old ones have ended
    rcases file_written_cases h hs hlen hi hui with
      ⟨hii, hfi⟩ | ⟨-, hfi, hi, hui, -⟩
    · rcases file_written_cases h hs hlen hj huj with
        ⟨hjj, -⟩ | ⟨-, hfj, hj, huj, -⟩
      · exact absurd (hii.trans hjj.symm) hij
      · rw [hfi, hfj]
        exact Or.inr (h.extent j hj huj)
    · rcases file_written_cases h hs hlen hj huj with
        ⟨-, hfj⟩ | ⟨-, hfj, hj, huj, -⟩
      · rw [hfi, hfj]
        exact Or.inl (h.extent i hi hui)
      · rw [hfi, hfj]
        exact h.disjoint i hi j hj hij hui huj
  · -- the written name is on no other slot
    rcases file_written_cases h hs hlen hi hui with
      ⟨hii, hfi⟩ | ⟨-, hfi, hi, hui, hni⟩
    · rcases file_written_cases h hs hlen hj huj with
        ⟨hjj, -⟩ | ⟨-, hfj, -, -, hnj⟩
      · exact hii.trans hjj.symm
      · rw [hfi, hfj] at hn
        exact absurd hn.symm hnj
    · rcases file_written_cases h hs hlen hj huj with
        ⟨-, hfj⟩ | ⟨-, hfj, hj, huj, -⟩
      · rw [hfi, hfj] at hn
        exact absurd hn hni
      · rw [hfi, hfj] at hn
        exact h.unique i hi j hj hui huj hn
  · -- the copy touches no old extent
    show _ = some ((fs.arena.write fs.arenaUsed w.data).read _ _)
    rcases file_written_cases h hs hlen hi hu with
      ⟨-, hfile⟩ | ⟨-, hfile, hi, hu, hne⟩
    · rw [hfile, List.lookup_cons_self]
      exact congrArg some (Mem.read_write_self _ _ _).symm
    · rw [hfile, List.lookup_cons, beq_eq_false_iff_ne.mpr hne]
      show log.lookup _ = _
      rw [h.stored i hi hu]
      refine congrArg some (Mem.read_congr fun x _ hx => ?_)
      have := h.extent i hi hu
      exact (Mem.write_outside (by omega)).symm
  · rw [hmax]
    exact written_named h hs hlen (List.mem_cons.mp hn)

-- ============================================================== one call

theorem toInt32_eq_neg_one_iff {n : Nat} (h : n < 2 ^ 32) :
    toInt32 n = -1 ↔ n = 2 ^ 32 - 1 := by
  unfold toInt32
  split <;> omega

/-- A call under the two conditions: refused with nothing changed, or
stored and reported as a success. -/
theorem ramfsWrite_cases {fs : Ramfs} {w : Write} (hd : InDomain fs w)
    (hs : Sound fs w) :
    (ramfsWrite fs w.name w.data = (fs, -1))
      ∨ (∃ idx, SlotFor fs w.name idx
          ∧ fs.arenaUsed + w.data.length ≤ fs.arenaSz
          ∧ (ramfsWrite fs w.name w.data).1 = written fs w.name w.data idx
          ∧ (ramfsWrite fs w.name w.data).2 ≠ -1) := by
  obtain ⟨hpos, -, hwrap⟩ := hd
  have hname : w.name.chars ≠ [] := List.ne_nil_of_length_pos hpos
  rcases ramfsWrite_spec hname hwrap with ⟨-, hw⟩ | ⟨hroom, idx, hslot, hw⟩
  · exact Or.inl hw
  · refine Or.inr ⟨idx, hslot, ?_, by rw [hw], ?_⟩
    · by_contra hlt
      exact hroom (Or.inl (by omega))
    · rw [hw]
      intro hret
      exact hroom (hs ((toInt32_eq_neg_one_iff (by omega)).mp hret))

theorem stores_step {sz : Nat} {st : Ramfs × Log} {w : Write}
    (h : Stores sz st.1 st.2) (hd : InDomain st.1 w) (hs : Sound st.1 w) :
    Stores sz (logStep st w).1 (logStep st w).2 := by
  unfold logStep
  rcases ramfsWrite_cases hd hs with hw | ⟨idx, hslot, hroom, hw, hret⟩
  · rw [hw, if_pos rfl]
    exact h
  · rw [hw, if_neg hret]
    exact stores_written h hslot hd.2.1 hroom

/-- A write to one name changes what is read for no other. -/
theorem readBytes_ramfsWrite_ne {sz : Nat} {fs : Ramfs} {log : Log}
    (h : Stores sz fs log) {w : Write} (hd : InDomain fs w)
    (hs : Sound fs w) {n : CStr} (hne : n ≠ w.name) :
    readBytes (ramfsWrite fs w.name w.data).1 n = readBytes fs n := by
  rcases ramfsWrite_cases hd hs with hw | ⟨idx, hslot, hroom, hw, -⟩
  · rw [hw]
  · rw [hw, readBytes_eq_lookup (stores_written h hslot hd.2.1 hroom),
      readBytes_eq_lookup h, List.lookup_cons, beq_eq_false_iff_ne.mpr hne]

-- ================================================================= runs

/-- ramfs is a finite map over every run of writes with names of 1 to 31
bytes and lengths that do not wrap, none of them a successful write of
`2^32 - 1` bytes. -/
theorem ramfs_is_map (files : List RFile) (arena : Mem) (sz : Nat)
    (ops : List Write)
    (hdom : Along logStep (fun st w => InDomain st.1 w)
      (ramfsInit files arena sz, []) ops)
    (hsound : Along logStep (fun st w => Sound st.1 w)
      (ramfsInit files arena sz, []) ops) :
    let st := exec logStep (ramfsInit files arena sz, []) ops
    (∀ n, readBytes st.1 n = st.2.lookup n)
      ∧ (∀ w, InDomain st.1 w → Sound st.1 w →
          (∀ n, n ≠ w.name →
            readBytes (ramfsWrite st.1 w.name w.data).1 n
              = readBytes st.1 n)
          ∧ ((ramfsWrite st.1 w.name w.data).2 = -1 →
            (ramfsWrite st.1 w.name w.data).1 = st.1))
      ∧ st.1.count = (st.2.map Prod.fst).dedup.length
      ∧ (∀ i < st.1.maxFiles, (st.1.file i).used = true →
          (st.1.file i).off + (st.1.file i).size ≤ st.1.arenaUsed)
      ∧ st.1.arenaUsed ≤ sz
      ∧ (∀ i < st.1.maxFiles, ∀ j < st.1.maxFiles, i ≠ j →
          (st.1.file i).used = true → (st.1.file j).used = true →
          (st.1.file i).off + (st.1.file i).size ≤ (st.1.file j).off
            ∨ (st.1.file j).off + (st.1.file j).size
              ≤ (st.1.file i).off) := by
  intro st
  have h : Stores sz st.1 st.2 :=
    exec_inv (fun st => Stores sz st.1 st.2)
      (fun _ _ hst hC => stores_step hst hC.1 hC.2)
      (stores_init files arena sz) (along_and hdom hsound)
  refine ⟨readBytes_eq_lookup h, fun w hd hs => ⟨fun n hne =>
    readBytes_ramfsWrite_ne h hd hs hne, fun hret => ?_⟩, h.count_eq,
    h.extent, ?_, h.disjoint⟩
  · rcases ramfsWrite_cases hd hs with hw | ⟨idx, -, -, -, hne⟩
    · rw [hw]
    · exact absurd hret hne
  · rw [← h.size_eq]
    exact h.used_le

/-- The file name `"a"`. -/
def nameA : CStr := ⟨[97], by decide⟩

/-- The file name `"b"`. -/
def nameB : CStr := ⟨[98], by decide⟩

/-- Two files, one of them replaced: each name reads back its last
write. -/
theorem ramfs_is_map_two :
    readBytes (exec logStep (ramfsInit [noFile, noFile] (fun _ => 0) 16, [])
        [⟨nameA, [1, 2]⟩, ⟨nameB, [3]⟩, ⟨nameA, [4]⟩]).1 nameA = some [4]
      ∧ readBytes
        (exec logStep (ramfsInit [noFile, noFile] (fun _ => 0) 16, [])
          [⟨nameA, [1, 2]⟩, ⟨nameB, [3]⟩, ⟨nameA, [4]⟩]).1 nameB
        = some [3] := by
  have h := ramfs_is_map [noFile, noFile] (fun _ => 0) 16
    [⟨nameA, [1, 2]⟩, ⟨nameB, [3]⟩, ⟨nameA, [4]⟩] (by decide) (by decide)
  exact ⟨(h.1 nameA).trans (by decide), (h.1 nameB).trans (by decide)⟩

-- ============================================ the failure code as success

/-- A first write that fills an arena of `2^32 - 1` bytes succeeds, and
returns the failure code. -/
theorem fill_arena {data : List UInt8} (hlen : data.length = 2 ^ 32 - 1) :
    ramfsWrite (ramfsInit [noFile] (fun _ => 0) (2 ^ 32 - 1)) nameA data
      = (written (ramfsInit [noFile] (fun _ => 0) (2 ^ 32 - 1)) nameA data 0,
          -1) := by
  have hused : (ramfsInit [noFile] (fun _ => 0) (2 ^ 32 - 1)).arenaUsed = 0 :=
    rfl
  have hname : nameA.chars ≠ [] := by decide
  have hwrap : (ramfsInit [noFile] (fun _ => 0) (2 ^ 32 - 1)).arenaUsed
      + data.length < 2 ^ 32 := by
    rw [hused, hlen]
    decide
  rcases ramfsWrite_spec hname hwrap with
    ⟨hroom, -⟩ | ⟨-, idx, hslot, hw⟩
  · rcases hroom with hroom | ⟨-, hfull⟩
    · rw [hused, hlen] at hroom
      exact absurd hroom (by decide)
    · exact absurd (hfull 0 (by decide)) (by decide)
  · have hidx : idx = 0 := by
      have : idx < 1 := hslot.1
      omega
    rw [hw, hidx, (toInt32_eq_neg_one_iff (by rw [hlen]; decide)).mpr hlen]

/-- A write within the callers' promises that returns `-1` and does
change the filesystem: `2^32 - 1` bytes into an empty arena of that size
create the file. -/
theorem failure_code_on_success :
    ∃ data : List UInt8, data.length = 2 ^ 32 - 1
      ∧ InDomain (ramfsInit [noFile] (fun _ => 0) (2 ^ 32 - 1)) ⟨nameA, data⟩
      ∧ (ramfsWrite (ramfsInit [noFile] (fun _ => 0) (2 ^ 32 - 1)) nameA
          data).2 = -1
      ∧ (ramfsInit [noFile] (fun _ => 0) (2 ^ 32 - 1)).count = 0
      ∧ (ramfsWrite (ramfsInit [noFile] (fun _ => 0) (2 ^ 32 - 1)) nameA
          data).1.count = 1 := by
  obtain ⟨data, hlen⟩ : ∃ data : List UInt8, data.length = 2 ^ 32 - 1 :=
    ⟨List.replicate _ 0, List.length_replicate⟩
  have hname : 1 ≤ nameA.length ∧ nameA.length ≤ 31 := by decide
  refine ⟨data, hlen, ⟨hname.1, hname.2, ?_⟩, ?_, rfl, ?_⟩
  · show 0 + data.length < 2 ^ 32
    rw [hlen]
    decide
  · rw [fill_arena hlen]
  · have hfind : ramfsFind (ramfsInit [noFile] (fun _ => 0) (2 ^ 32 - 1))
        nameA = none := by decide
    rw [fill_arena hlen]
    simp only [written, hfind, if_true]
    rfl

end Thuos.Fs
