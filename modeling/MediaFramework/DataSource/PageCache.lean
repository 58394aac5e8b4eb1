import MediaFramework.DataSource.CallbackDataSource
import Mathlib.Data.List.Basic
import Mathlib.Algebra.Ring.Nat

/-!
# The page cache

`PageCache` of `NuCachedSource2.cpp`. A page is its contents; the pages that are free are left out,
as only their storage is used again.
-/

namespace MediaFramework.DataSource

/-- A number as a `size_t`. -/
def toSize (x : Int) : Nat := (x % 2 ^ 64).toNat

structure PageCache where
  mActivePages : List (List Byte) := []
  mTotalSize : Nat := 0

namespace PageCache

/-- The loop of `releaseFromStart`: the pages that stay, and the bytes released. -/
def releasePages : Nat → List (List Byte) → List (List Byte) × Nat
  | _, [] => ([], 0)
  | maxBytes, page :: pages =>
    if maxBytes > 0 then
      if maxBytes < page.length then (page :: pages, 0)
      else
        let (pages, bytesReleased) := releasePages (maxBytes - page.length) pages
        (pages, page.length + bytesReleased)
    else (page :: pages, 0)

/-- The loop of `copy` that looks for the first page. -/
def findPage : Nat → List (List Byte) → Option (Nat × List Byte × List (List Byte))
  | _, [] => none
  | start, page :: pages =>
    if start ≥ page.length then findPage (start - page.length) pages
    else some (start, page, pages)

/-- The loop of `copy` that goes on with the pages that follow. -/
def copyPages : Nat → List (List Byte) → Option (List Byte)
  | 0, _ => some []
  | _, [] => none
  | size, page :: pages =>
    let copy := if page.length > size then size else page.length
    (copyPages (size - copy) pages).map (page.take copy ++ ·)

variable (c : PageCache)

def appendPage (page : List Byte) : PageCache :=
  { mActivePages := c.mActivePages ++ [page], mTotalSize := c.mTotalSize + page.length }

def releaseFromStart (maxBytes : Nat) : PageCache × Nat :=
  let (pages, bytesReleased) := releasePages maxBytes c.mActivePages
  ({ mActivePages := pages, mTotalSize := c.mTotalSize - bytesReleased }, bytesReleased)

/-- A `CHECK` that fails and a page behind the last give nothing. -/
def copy (start size : Nat) : Option (List Byte) :=
  if size = 0 then some []
  else if ¬(start + size) % 2 ^ 64 ≤ c.mTotalSize then none
  else
    (findPage start c.mActivePages).bind fun (delta, page, pages) =>
      let avail := page.length - delta
      if avail ≥ size then some ((page.drop delta).take size)
      else (copyPages (size - avail) pages).map (page.drop delta ++ ·)

/-! ### Contents -/

def contents : List Byte := c.mActivePages.flatten

/-- The size is that of the pages, none of which is empty. -/
structure Valid (c : PageCache) : Prop where
  size : c.mTotalSize = c.contents.length
  nonempty : ∀ page ∈ c.mActivePages, page ≠ []

variable {c} {start size maxBytes : Nat} {pages : List (List Byte)}

theorem releasePages_spec (maxBytes : Nat) (pages : List (List Byte)) :
    ∃ front, pages = front ++ (releasePages maxBytes pages).1 ∧
      (releasePages maxBytes pages).2 = front.flatten.length := by
  induction pages generalizing maxBytes with
  | nil => exact ⟨[], rfl, rfl⟩
  | cons page pages ih =>
    rw [releasePages]
    split
    · split
      · exact ⟨[], rfl, rfl⟩
      · obtain ⟨front, hpages, hbytes⟩ := ih (maxBytes - page.length)
        refine ⟨page :: front, congrArg (page :: ·) hpages, ?_⟩
        rw [List.flatten_cons, List.length_append, ← hbytes]
    · exact ⟨[], rfl, rfl⟩

/-- No more is released than was asked for. -/
theorem releasePages_le (maxBytes : Nat) (pages : List (List Byte)) :
    (releasePages maxBytes pages).2 ≤ maxBytes := by
  induction pages generalizing maxBytes with
  | nil => exact Nat.zero_le _
  | cons page pages ih =>
    rw [releasePages]
    split
    · split
      · exact Nat.zero_le _
      · have hle := ih (maxBytes - page.length)
        dsimp only
        omega
    · exact Nat.zero_le _

theorem releaseFromStart_le (c : PageCache) (maxBytes : Nat) :
    (c.releaseFromStart maxBytes).2 ≤ maxBytes := releasePages_le maxBytes c.mActivePages

theorem releasePages_all (h : pages.flatten.length ≤ maxBytes) (hne : ∀ page ∈ pages, page ≠ []) :
    releasePages maxBytes pages = ([], pages.flatten.length) := by
  induction pages generalizing maxBytes with
  | nil => rfl
  | cons page pages ih =>
    obtain ⟨hpage, hne⟩ := List.forall_mem_cons.mp hne
    have hpos := List.length_pos_iff.mpr hpage
    rw [List.flatten_cons, List.length_append] at h ⊢
    rw [releasePages, if_pos (by omega), if_neg (by omega), ih (by omega) hne]

theorem findPage_spec (start : Nat) (pages : List (List Byte)) (h : start < pages.flatten.length) :
    ∃ delta page rest, findPage start pages = some (delta, page, rest) ∧ delta < page.length ∧
      pages.flatten.drop start = page.drop delta ++ rest.flatten := by
  induction pages generalizing start with
  | nil => exact absurd h (Nat.not_lt_zero _)
  | cons page pages ih =>
    rw [List.flatten_cons, List.length_append] at h
    rw [findPage, List.flatten_cons]
    split
    · next hbehind =>
      obtain ⟨delta, other, rest, hfind, hdelta, hdrop⟩ := ih (start - page.length) (by omega)
      refine ⟨delta, other, rest, hfind, hdelta, ?_⟩
      rw [← hdrop, List.drop_append, List.drop_eq_nil_of_le hbehind, List.nil_append]
    · next hbefore =>
      refine ⟨start, page, pages, rfl, by omega, ?_⟩
      rw [List.drop_append_of_le_length (by omega)]

theorem copyPages_spec (h : size ≤ pages.flatten.length) :
    copyPages size pages = some (pages.flatten.take size) := by
  induction pages generalizing size with
  | nil =>
    obtain rfl : size = 0 := Nat.le_zero.mp h
    rfl
  | cons page pages ih =>
    cases size with
    | zero => rfl
    | succ size =>
      rw [List.flatten_cons, List.length_append] at h
      rw [copyPages.eq_3 _ _ _ (Nat.succ_ne_zero size), List.flatten_cons, List.take_append]
      split
      · next hlarge =>
        have hnone : size + 1 - page.length = 0 := by omega
        rw [Nat.sub_self, ih (Nat.zero_le _), Option.map_some, List.take_zero, hnone, List.take_zero]
      · next hsmall =>
        have hpage : page.take (size + 1) = page := List.take_of_length_le (by omega)
        rw [ih (by omega), Option.map_some, List.take_length, hpage]

/-- A copy of bytes that the pages have. -/
theorem copy_spec (hc : c.Valid) (hfits : c.contents.length < 2 ^ 64)
    (h : start + size ≤ c.contents.length) :
    c.copy start size = some ((c.contents.drop start).take size) := by
  rw [copy]
  split
  · next hzero => rw [hzero, List.take_zero]
  · rw [if_neg (by rw [hc.size, Nat.mod_eq_of_lt (by omega)]; omega)]
    obtain ⟨delta, page, rest, hfind, hdelta, hdrop⟩ :=
      findPage_spec start c.mActivePages (by rw [contents] at h; omega)
    have hlength : (page.drop delta ++ rest.flatten).length = c.contents.length - start := by
      rw [← hdrop, List.length_drop]
      rfl
    rw [List.length_append, List.length_drop] at hlength
    rw [hfind, Option.bind_some, contents, hdrop]
    dsimp only
    split
    · next havail =>
      rw [List.take_append_of_le_length (by rw [List.length_drop]; omega)]
    · next havail =>
      have hpage : (page.drop delta).take size = page.drop delta :=
        List.take_of_length_le (by rw [List.length_drop]; omega)
      rw [copyPages_spec (by omega), Option.map_some, List.take_append, List.length_drop, hpage]

theorem Valid.appendPage (hc : c.Valid) {page : List Byte} (hpage : page ≠ []) :
    (c.appendPage page).Valid where
  size := by
    rw [contents, PageCache.appendPage, List.flatten_concat, List.length_append]
    exact congrArg (· + page.length) hc.size
  nonempty := by
    intro other hother
    rcases List.mem_append.mp hother with hother | hother
    · exact hc.nonempty other hother
    · rw [List.mem_singleton.mp hother]
      exact hpage

/-- The pages in front go. -/
theorem Valid.releaseFromStart (hc : c.Valid) (maxBytes : Nat) :
    (c.releaseFromStart maxBytes).1.Valid ∧
      ∃ front, c.contents = front ++ (c.releaseFromStart maxBytes).1.contents ∧
        (c.releaseFromStart maxBytes).2 = front.length := by
  obtain ⟨front, hpages, hbytes⟩ := releasePages_spec maxBytes c.mActivePages
  have hcontents : c.contents = front.flatten ++ (c.releaseFromStart maxBytes).1.contents := by
    rw [contents, hpages, List.flatten_append]
    rfl
  refine ⟨⟨?_, ?_⟩, front.flatten, hcontents, hbytes⟩
  · have hsize := hc.size
    rw [hcontents, List.length_append] at hsize
    show c.mTotalSize - (releasePages maxBytes c.mActivePages).2 = _
    omega
  · intro page hpage
    exact hc.nonempty page (hpages ▸ List.mem_append_right _ hpage)

theorem Valid.releaseAll (hc : c.Valid) :
    c.releaseFromStart c.mTotalSize = (⟨[], 0⟩, c.mTotalSize) := by
  have hall := releasePages_all (Nat.le_of_eq hc.size.symm) hc.nonempty
  rw [PageCache.releaseFromStart, hall]
  have hsize : c.mActivePages.flatten.length = c.mTotalSize := hc.size.symm
  rw [hsize]
  dsimp only
  rw [Nat.sub_self]

end PageCache

end MediaFramework.DataSource
