/-
A click in the list opens the file that is shown there.

The list is drawn, and a click is looked up, by two loops over the table
that skip the free slots and count the others. Both come to the list of the
names: the name with number `k` is drawn in row `k` (`listFile_rows`), and a
click in that row finds it (`fileInRow_eq`).

What a click shows is what the filesystem has under the name in the row. A
name that two files share is looked up as the first one's, so the file that
is shown is the one in the row if the names differ (`slot_found`).

The quotient that says which row a click is in is rounded toward zero, so a
click less than a row above the list counts as one in the first row.
-/
import Thuos.Fs.Proofs.AnyWrite
import Thuos.Gui.Files
import Thuos.Video.Proofs.Clip

namespace Thuos.Gui

open Fs Video

-- ================================================================= the names

section Names

variable {kfs : Ramfs}

/-- The names of the files, in the order of the table. -/
def fileNames (kfs : Ramfs) : List CStr :=
  (List.range kfs.maxFiles).filterMap (ramfsName kfs)

/-- The slots in use, in the order of the table. -/
def fileSlots (kfs : Ramfs) : List Nat :=
  (List.range kfs.maxFiles).filter fun i => (ramfsName kfs i).isSome

/-- The slot with number `k` has the name with number `k`. -/
theorem slot_name (is : List Nat) {k i : Nat}
    (h : (is.filter fun i => (ramfsName kfs i).isSome)[k]? = some i) :
    ∃ nm, ramfsName kfs i = some nm
      ∧ (is.filterMap (ramfsName kfs))[k]? = some nm := by
  induction is generalizing k with
  | nil => cases h
  | cons j is ih =>
      cases hname : ramfsName kfs j with
      | none =>
          rw [List.filter_cons_of_neg (by simp [hname])] at h
          rw [List.filterMap_cons_none hname]
          exact ih h
      | some nm =>
          rw [List.filter_cons_of_pos (by simp [hname])] at h
          rw [List.filterMap_cons_some hname]
          cases k with
          | zero =>
              obtain rfl : j = i := Option.some.inj h
              exact ⟨nm, hname, rfl⟩
          | succ k => exact ih h

/-- Where the names differ, the name with number `k` leads to the slot with
number `k`. -/
theorem slot_found (hunique : Unique kfs) {k i : Nat}
    (h : (fileSlots kfs)[k]? = some i) :
    ∃ nm, (fileNames kfs)[k]? = some nm
      ∧ kfsRead kfs nm
        = some (kfs.arena.read (kfs.file i).off (kfs.file i).size) := by
  obtain ⟨nm, hname, hnm⟩ := slot_name (List.range kfs.maxFiles) h
  have hfound := (findable_of_unique hunique).found i nm hname
  refine ⟨nm, hnm, ?_⟩
  unfold kfsRead readBytes ramfsRead
  rw [hfound]
  rfl

/-- The lookup, when `shown` files have been passed. -/
theorem fileInRow_eq (is : List Nat) {shown row : Nat} (h : shown ≤ row) :
    fileInRow kfs row is shown
      = (is.filterMap (ramfsName kfs))[row - shown]? := by
  induction is generalizing shown with
  | nil => rfl
  | cons i is ih =>
      unfold fileInRow
      cases hname : ramfsName kfs i with
      | none =>
          rw [List.filterMap_cons_none hname]
          exact ih h
      | some nm =>
          rw [List.filterMap_cons_some hname]
          dsimp only
          by_cases hrow : shown = row
          · rw [if_pos (by omega), hrow, Nat.sub_self]
            rfl
          · have hindex : row - shown = row - (shown + 1) + 1 := by omega
            rw [if_neg (by omega), ih (by omega), hindex,
              List.getElem?_cons_succ]

/-- The list that the loop draws. -/
theorem listFile_rows (glyph : UInt8 → Nat → UInt8) (p : Files)
    (is : List Nat) (s : Lfb) (shown : Nat) :
    is.foldl (listFile glyph p) (s, shown)
      = (((is.filterMap (ramfsName p.kfs)).zipIdx shown).foldl
          (fun s nk => drawRow glyph p s nk.2 nk.1) s,
        shown + (is.filterMap (ramfsName p.kfs)).length) := by
  induction is generalizing s shown with
  | nil => rfl
  | cons i is ih =>
      rw [List.foldl_cons]
      unfold listFile
      dsimp only
      cases hname : ramfsName p.kfs i with
      | none =>
          rw [List.filterMap_cons_none hname]
          exact ih s shown
      | some nm =>
          rw [List.filterMap_cons_some hname, List.zipIdx_cons,
            List.foldl_cons, List.length_cons]
          refine (ih _ (shown + 1)).trans ?_
          rw [Nat.add_assoc, Nat.add_comm 1]

end Names

-- ================================================================== the rows

/-- The row that a click is in. -/
theorem row_eq {d : Int} (h : 0 ≤ d.tdiv 28) :
    ∃ k : Nat, d.tdiv 28 = k ∧ k * 28 - (if k = 0 then 27 else 0) ≤ d
      ∧ d < (k + 1) * 28 := by
  refine ⟨(d.tdiv 28).toNat, (Int.toNat_of_nonneg h).symm, ?_⟩
  by_cases hd : 0 ≤ d
  · rw [Int.tdiv_eq_ediv_of_nonneg hd] at h ⊢
    split
    · omega
    · omega
  · have hneg : d.tdiv 28 = -((-d) / 28) := by
      rw [← Int.tdiv_eq_ediv_of_nonneg (by omega), Int.neg_tdiv, Int.neg_neg]
    rw [hneg] at h ⊢
    split
    · omega
    · omega

theorem row_of {d : Int} {k : Nat} (hlow : k * 28 ≤ d)
    (hhigh : d < (k + 1) * 28) : d.tdiv 28 = k := by
  rw [Int.tdiv_eq_ediv_of_nonneg (by omega)]
  omega

/-- What is drawn at first, if there are files. -/
theorem open_lfb (glyph : UInt8 → Nat → UInt8) (p : Files) (x y w h : Int)
    (hshown : 0 + (fileNames p.kfs).length ≠ 0) :
    (appFilesOpen glyph p x y w h).lfb
      = filesView glyph (placeFiles p x y w h)
          ((fileNames p.kfs).zipIdx.foldl
            (fun s nk => drawRow glyph (placeFiles p x y w h) s nk.2 nk.1)
            (filesHeading glyph (placeFiles p x y w h))) := by
  have hkfs : (placeFiles p x y w h).kfs = p.kfs := rfl
  unfold appFilesOpen
  generalize placeFiles p x y w h = q at *
  dsimp only
  rw [listFile_rows, hkfs]
  unfold fileNames at hshown
  dsimp only
  rw [if_neg hshown]
  rfl

/-- A click in row `k` opens the file with that number, if there is one. -/
theorem click_row (glyph : UInt8 → Nat → UInt8) {p : Files} {mx my : Int}
    {k : Nat} (hrowh : p.faRowh = 28) (hleft : p.faListx ≤ mx)
    (hright : mx ≤ p.faListx + p.faListw)
    (hk : (my - p.faRowy).tdiv 28 = k) :
    appFilesClick glyph p mx my
      = ((fileNames p.kfs)[k]?.map (showFile glyph p)).getD p := by
  have hfound : fileInRow p.kfs k (List.range p.kfs.maxFiles) 0
      = (fileNames p.kfs)[k]? := fileInRow_eq _ (Nat.zero_le k)
  unfold appFilesClick
  rw [if_neg (by omega), hrowh]
  dsimp only
  rw [hk, if_neg (by omega), hfound]
  cases (fileNames p.kfs)[k]? with
  | none => rfl
  | some nm => rfl

/-- Any other click does nothing. -/
theorem click_outside (glyph : UInt8 → Nat → UInt8) {p : Files} {mx my : Int}
    (hrowh : p.faRowh = 28)
    (h : ¬ (p.faListx ≤ mx ∧ mx ≤ p.faListx + p.faListw
      ∧ 0 ≤ (my - p.faRowy).tdiv 28)) :
    appFilesClick glyph p mx my = p := by
  unfold appFilesClick
  by_cases hcolumn : mx < p.faListx ∨ mx > p.faListx + p.faListw
  · rw [if_pos hcolumn]
  · rw [if_neg hcolumn, hrowh]
    dsimp only
    rw [if_pos (by omega)]

/-- Every file has a row, and a click on what is drawn there shows what the
filesystem has under the name in it, which is that file if no two files have
one name. A click that shows a file is in its row, or above the list and less
than a row away from it. -/
theorem files_click_opens (glyph : UInt8 → Nat → UInt8) (p₀ : Files)
    (x y w h : Int) :
    let q := placeFiles p₀ x y w h
    let p := appFilesOpen glyph p₀ x y w h
    let names := fileNames p₀.kfs
    (names ≠ [] →
        p.lfb = filesView glyph q (names.zipIdx.foldl
          (fun s nk => drawRow glyph q s nk.2 nk.1) (filesHeading glyph q)))
      ∧ (∀ (k : Nat) (nm : CStr) (mx my : Int), names[k]? = some nm →
        InRect p.faListx (p.faRowy + k * p.faRowh) p.faListw (p.faRowh - 6)
          mx my →
        appFilesClick glyph p mx my = showFile glyph p nm)
      ∧ (Unique p₀.kfs → ∀ k i : Nat, (fileSlots p₀.kfs)[k]? = some i →
        ∃ nm, names[k]? = some nm
          ∧ kfsRead p.kfs nm
            = some (p.kfs.arena.read (p.kfs.file i).off (p.kfs.file i).size))
      ∧ ∀ mx my : Int, appFilesClick glyph p mx my = p
        ∨ ∃ (k : Nat) (nm : CStr), names[k]? = some nm
          ∧ appFilesClick glyph p mx my = showFile glyph p nm
          ∧ p.faListx ≤ mx ∧ mx ≤ p.faListx + p.faListw
          ∧ p.faRowy + k * 28 - (if k = 0 then 27 else 0) ≤ my
          ∧ my < p.faRowy + (k + 1) * 28 := by
  have hrowh : (appFilesOpen glyph p₀ x y w h).faRowh = 28 := rfl
  have hkfs : (appFilesOpen glyph p₀ x y w h).kfs = p₀.kfs := rfl
  refine ⟨fun hnames => ?_, ?_, fun hunique k i => slot_found hunique, ?_⟩
  · have hshown : 0 + (fileNames p₀.kfs).length ≠ 0 := by
      rw [Nat.zero_add]
      exact fun hzero => hnames (List.length_eq_zero_iff.mp hzero)
    exact open_lfb glyph p₀ x y w h hshown
  · intro k nm mx my hnm hin
    generalize appFilesOpen glyph p₀ x y w h = p at *
    obtain ⟨hl, hr, ht, hb⟩ := hin
    rw [hrowh] at ht hb
    have hk : (my - p.faRowy).tdiv 28 = k := row_of (by omega) (by omega)
    rw [click_row glyph hrowh hl (by omega) hk, hkfs, hnm]
    rfl
  · intro mx my
    generalize appFilesOpen glyph p₀ x y w h = p at *
    by_cases hlist : p.faListx ≤ mx ∧ mx ≤ p.faListx + p.faListw
        ∧ 0 ≤ (my - p.faRowy).tdiv 28
    · obtain ⟨hl, hr, hrow⟩ := hlist
      obtain ⟨k, hk, hlow, hhigh⟩ := row_eq hrow
      have hclick := click_row glyph hrowh hl hr hk
      rw [hkfs] at hclick
      cases hnm : (fileNames p₀.kfs)[k]? with
      | none =>
          rw [hnm] at hclick
          exact .inl hclick
      | some nm =>
          rw [hnm] at hclick
          exact .inr ⟨k, nm, hnm, hclick, hl, hr, by omega, by omega⟩
    · exact .inl (click_outside glyph hrowh hlist)

end Thuos.Gui
