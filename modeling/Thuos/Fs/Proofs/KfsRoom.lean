/-
When a `kfs_write` succeeds. A filesystem whose writers use fewer names
than the table has slots never runs out of slots (`exists_free`), so what
decides is the arena alone: a write that fits is stored, any other changes
nothing (`kfsWrite_fits`, `kfsWrite_full`).
-/
import Thuos.Fs.Kfs
import Thuos.Fs.Proofs.Map

namespace Thuos.Fs

open ByteMem

/-- The kernel's filesystem after the writes of `log`, all of them under
names from a list. -/
structure KfsOf (names : List CStr) (kfs : Ramfs) (log : Log) : Prop where
  stores : Stores KFS_ARENA kfs log
  maxFiles : kfs.maxFiles = KFS_MAX_FILES
  named : log.map Prod.fst ⊆ names

variable {names : List CStr} {kfs : Ramfs} {log : Log} {n : CStr}
  {data : List UInt8}

/-- The names of a full table are different names of the list. -/
theorem exists_free (h : KfsOf names kfs log)
    (hlt : names.length < KFS_MAX_FILES) :
    ¬ ∀ i < kfs.maxFiles, (kfs.file i).used = true := by
  intro hfull
  have hnodup : ((List.range kfs.maxFiles).map fun i =>
      (kfs.file i).name).Nodup := by
    refine List.Nodup.map_on (fun i hi j hj hij => ?_) List.nodup_range
    have hi := List.mem_range.mp hi
    have hj := List.mem_range.mp hj
    exact h.stores.unique i hi j hj (hfull i hi) (hfull j hj) hij
  have hsub : ((List.range kfs.maxFiles).map fun i => (kfs.file i).name)
      ⊆ names := by
    intro m hm
    obtain ⟨i, hi, rfl⟩ := List.mem_map.mp hm
    have hi := List.mem_range.mp hi
    have hst := h.stores.stored i hi (hfull i hi)
    obtain ⟨l₁, l₂, hlog, -⟩ := List.lookup_eq_some_iff.mp hst
    apply h.named
    rw [hlog]
    simp
  have hle := (List.subperm_of_subset hnodup hsub).length_le
  rw [List.length_map, List.length_range, h.maxFiles] at hle
  omega

/-- A read is the last write of the log under the name. -/
theorem kfsRead_eq (h : KfsOf names kfs log) (n : CStr) :
    kfsRead kfs n = log.lookup n :=
  readBytes_eq_lookup h.stores n

theorem arenaUsed_le (h : KfsOf names kfs log) : kfs.arenaUsed ≤ KFS_ARENA := by
  have hused := h.stores.used_le
  rw [h.stores.size_eq] at hused
  exact hused

theorem noRoom_iff (h : KfsOf names kfs log)
    (hlt : names.length < KFS_MAX_FILES) :
    NoRoom kfs n data ↔ KFS_ARENA < kfs.arenaUsed + data.length := by
  unfold NoRoom
  rw [h.stores.size_eq]
  refine ⟨fun hno => hno.resolve_right fun hfull => ?_, Or.inl⟩
  exact exists_free h hlt hfull.2

/-- A write that fits is stored. -/
theorem kfsWrite_fits (h : KfsOf names kfs log)
    (hlt : names.length < KFS_MAX_FILES) (hn : n ∈ names)
    (hname : 1 ≤ n.length ∧ n.length ≤ 31)
    (hfits : kfs.arenaUsed + data.length ≤ KFS_ARENA) :
    KfsOf names (kfsWrite kfs n data).1 ((n, data) :: log)
      ∧ (kfsWrite kfs n data).1.arenaUsed
        = kfs.arenaUsed + data.length := by
  have hwrap : kfs.arenaUsed + data.length < 2 ^ 32 :=
    Nat.lt_of_le_of_lt hfits (by decide)
  have hchars : n.chars ≠ [] := List.ne_nil_of_length_pos hname.1
  rcases ramfsWrite_spec hchars hwrap with ⟨hno, -⟩ | ⟨-, idx, hslot, hw⟩
  · exact absurd ((noRoom_iff h hlt).mp hno) (by omega)
  · have hstores := stores_written (w := ⟨n, data⟩) h.stores hslot hname.2
      (by rw [h.stores.size_eq]; exact hfits)
    unfold kfsWrite
    rw [hw]
    refine ⟨⟨hstores, ?_, ?_⟩, rfl⟩
    · exact (List.length_set).trans h.maxFiles
    · intro m hm
      cases List.mem_cons.mp hm with
      | inl heq => rw [heq]; exact hn
      | inr hmem => exact h.named hmem

/-- A write that does not fit changes nothing. -/
theorem kfsWrite_full (h : KfsOf names kfs log)
    (hlt : names.length < KFS_MAX_FILES) (hpos : 1 ≤ n.length)
    (hlen : data.length < 2 ^ 31)
    (hfull : KFS_ARENA < kfs.arenaUsed + data.length) :
    (kfsWrite kfs n data).1 = kfs := by
  have hused := arenaUsed_le h
  have hwrap : kfs.arenaUsed + data.length < 2 ^ 32 := by
    unfold KFS_ARENA at hused
    omega
  have hchars : n.chars ≠ [] := List.ne_nil_of_length_pos hpos
  rcases ramfsWrite_spec hchars hwrap with ⟨-, hw⟩ | ⟨hroom, -⟩
  · exact congrArg Prod.fst hw
  · exact absurd ((noRoom_iff h hlt).mpr hfull) hroom

-- ============================================================== the start

/-- The two files of `kfs_init`, and the arena they leave. -/
theorem kfsInit_of (kfiles : Vector RFile KFS_MAX_FILES) (karena : Mem)
    {names : List CStr} (hlt : names.length < KFS_MAX_FILES)
    (hw : welcomeTxt ∈ names) (hr : readmeTxt ∈ names) :
    KfsOf names (kfsInit kfiles karena)
        [(readmeTxt, readme.chars), (welcomeTxt, welcome.chars)]
      ∧ (kfsInit kfiles karena).arenaUsed
        = welcome.chars.length + readme.chars.length := by
  have htexts : welcome.chars.length + readme.chars.length ≤ KFS_ARENA := by
    decide +kernel
  have hwname : 1 ≤ welcomeTxt.length ∧ welcomeTxt.length ≤ 31 := by
    decide +kernel
  have hrname : 1 ≤ readmeTxt.length ∧ readmeTxt.length ≤ 31 := by
    decide +kernel
  have h0 : KfsOf names (ramfsInit kfiles.toList karena KFS_ARENA) [] := by
    refine ⟨stores_init .., ?_, List.nil_subset _⟩
    show (List.map _ _).length = _
    rw [List.length_map, Vector.length_toList]
  have hused0 : (ramfsInit kfiles.toList karena KFS_ARENA).arenaUsed = 0 := rfl
  have hfits0 : (ramfsInit kfiles.toList karena KFS_ARENA).arenaUsed
      + welcome.chars.length ≤ KFS_ARENA := by
    rw [hused0, Nat.zero_add]
    exact Nat.le_of_add_right_le htexts
  obtain ⟨h1, hused1⟩ := kfsWrite_fits h0 hlt hw hwname hfits0
  rw [hused0, Nat.zero_add] at hused1
  rw [← hused1] at htexts
  obtain ⟨h2, hused2⟩ := kfsWrite_fits h1 hlt hr hrname htexts
  rw [hused1] at hused2
  unfold kfsInit
  dsimp only
  exact ⟨h2, hused2⟩

end Thuos.Fs
