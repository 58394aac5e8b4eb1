import MediaFramework.Mp4.ItemBuilding
import MediaFramework.Lib.Machine
import Mathlib.Algebra.Ring.Int.Defs

/-!
# Item tables of hostile files

Calls with any boxes of any file, also after errors: which ones are safe, and what keeps them from
it. The locations of items are the only thing that is not checked well enough.
-/

namespace MediaFramework.Mp4.Heif

namespace ItemTable

inductive Request
  | parse (b : Box)
  | getImageOffsetAndSize (itemIndex : Option Nat)

/-- The offset and the size of a box are 64-bit values. -/
def Request.Typed : Request → Prop
  | .parse b => -2^63 ≤ b.offset ∧ b.offset < 2^63 ∧ b.size < 2^64
  | .getImageOffsetAndSize _ => True

def exec (source : DataSource) (t : ItemTable) : Request → Option ItemTable
  | .parse b => (t.parse source b).map Prod.fst
  | .getImageOffsetAndSize itemIndex =>
    (t.getImageOffsetAndSize itemIndex).map fun r => { t with toImages := r.1 }

def next (source : DataSource) (t : ItemTable) (r : Request) : ItemTable :=
  (t.exec source r).getD t

/-- `P` holds of each item that the loop over the item infos comes to, and of the table then. -/
def EachItem (source : DataSource) (P : ItemTable → ItemInfo → Prop) :
    ItemTable → List ItemInfo → Prop
  | _, [] => True
  | t, info :: infos =>
    P t info ∧ ∀ t', t.addItem source info = some (t', .OK) → EachItem source P t' infos

/-- The table of a call that goes on to build the images, with its box seen. -/
def withSeen (t : ItemTable) (type : Nat) : ItemTable :=
  { t with mBoxesSeen := insert type t.mBoxesSeen }

/-- `P` holds of each item that a call comes to. -/
def EachItemOf (source : DataSource) (P : ItemTable → ItemInfo → Prop) (t : ItemTable) :
    Request → Prop
  | .parse b =>
    let t' := (t.read source b).1.withSeen b.type
    (t.read source b).2 = .OK → t.mImageItemsValid = false → t'.mRequiredBoxes ⊆ t'.mBoxesSeen →
      EachItem source P t' t'.mItemInfos
  | .getImageOffsetAndSize _ => True

/-! ### What is safe -/

/-- An item is located without a failed `CHECK`, in the `idat` box if that is where it is said to be,
and what is read of a grid fits into the buffer. -/
def LocatedSafely (t : ItemTable) (info : ItemInfo) : Prop :=
  ∀ loc, t.locOf info = some loc →
    (loc.getLoc t.mIdatOffset t.mIdatSize).isSome ∧
      ∀ offset size, loc.getLoc t.mIdatOffset t.mIdatSize = some (.ok (offset, size)) →
        (loc.constructionMethod = 1 →
          t.mIdatOffset ≤ offset ∧ offset + size ≤ t.mIdatOffset + t.mIdatSize) ∧
        ∀ n, gridBytes size = some n → 8 ≤ n ∧ n ≤ 12

/-- The range of the Exif data is a part of the range of its item. -/
def ExifInside (source : DataSource) (im : Images) : Prop :=
  ∀ exif offset size, im.primaryExif = .ok exif → im.getExifOffsetAndSize source = .ok (offset, size) →
    ∃ skipped, offset = off64 (exif.offset + skipped) ∧ skipped + size = exif.size

def IndicesValid (im : Images) : Prop :=
  im.mImageItemsValid = true →
    (∀ i ∈ im.mDisplayables, i < im.mItemIdToItemMap.size) ∧
      im.mCurrentItemIndex < im.mItemIdToItemMap.size

structure Safe (source : DataSource) (t : ItemTable) (r : Request) : Prop where
  checks : (t.exec source r).isSome
  located : t.EachItemOf source LocatedSafely r
  exif : ExifInside source (t.next source r).toImages
  indices : IndicesValid (t.next source r).toImages

/-- An item has one extent and, if it passes for one in the `idat` box, the sums of its offset and its
length with the others do not wrap around. -/
def Sound (t : ItemTable) (info : ItemInfo) : Prop :=
  ∀ loc, t.locOf info = some loc →
    ∃ extent, loc.extents = [extent] ∧
      (loc.constructionMethod = 1 →
        (loc.baseOffset + extent.extentOffset + extent.extentLength) % 2^64 ≤ t.mIdatSize →
          (loc.baseOffset + extent.extentOffset) % 2^64 + extent.extentLength < 2^64 ∧
            t.mIdatOffset + ((loc.baseOffset + extent.extentOffset) % 2^64 : Nat) < 2^63)

variable {source : DataSource} {t t' : ItemTable} {info : ItemInfo} {err : Status}

/-- The `idat` box is at a 64-bit offset and has a 64-bit size. -/
def IdatTyped (t : ItemTable) : Prop :=
  -2^63 ≤ t.mIdatOffset ∧ t.mIdatOffset < 2^63 ∧ t.mIdatSize < 2^64

/-- Each image is at its identifier. -/
def Keyed (items : KeyedVector Nat ImageItem) : Prop :=
  ∀ id image, items.find? id = some image → image.itemId = id

theorem Keyed.set {items : KeyedVector Nat ImageItem} (h : Keyed items) (image : ImageItem) :
    Keyed (items.set image.itemId image) := by
  intro id image' himage
  rw [KeyedVector.find?_set] at himage
  split at himage
  · next heq =>
    cases himage
    exact heq.symm
  · exact h id image' himage

theorem Keyed.alter {items : KeyedVector Nat ImageItem} (h : Keyed items) (id : Nat)
    {f : ImageItem → ImageItem} (hf : ∀ image, (f image).itemId = image.itemId) :
    Keyed (items.alter id f) := by
  intro id' image himage
  rw [KeyedVector.find?_alter] at himage
  split at himage
  · next heq =>
    obtain ⟨image', himage', rfl⟩ := Option.map_eq_some_iff.mp himage
    rw [hf, heq]
    exact h id image' himage'
  · exact h id' image himage

theorem Keyed.foldl_alter {items : KeyedVector Nat ImageItem} (h : Keyed items) (ids : List Nat)
    {f : ImageItem → ImageItem} (hf : ∀ image, (f image).itemId = image.itemId) :
    Keyed (ids.foldl (fun items id => items.alter id f) items) := by
  induction ids generalizing items with
  | nil => exact h
  | cons id ids ih => exact ih (h.alter id hf)

theorem withSize_itemId (image : ImageItem) (width height : Int) :
    (image.withSize width height).itemId = image.itemId := rfl

theorem attachTo_itemId (property : ItemProperty) (image : ImageItem) :
    (property.attachTo image).itemId = image.itemId := by
  cases property
  case ispe => exact withSize_itemId image _ _
  all_goals rfl

theorem Keyed.apply {items : KeyedVector Nat ImageItem} (h : Keyed items) (ref : ItemReference)
    (exifs : KeyedVector Nat ExifItem) : Keyed (ref.apply items exifs) := by
  rw [ItemReference.apply]
  split_ifs
  · exact h
  · refine Keyed.foldl_alter (Keyed.alter h _ ?_) _ ?_ <;> exact fun _ => rfl
  · exact h
  · refine Keyed.foldl_alter (Keyed.alter h _ ?_) _ ?_ <;> exact fun _ => rfl
  · exact h
  · refine Keyed.foldl_alter h _ ?_
    exact fun _ => rfl
  · refine Keyed.alter h _ ?_
    exact fun _ => rfl
  · exact h

theorem keyed_attach (h : Keyed t.mItemIdToItemMap) : Keyed t.attach.mItemIdToItemMap := by
  have hproperties : ∀ (associations : List AssociationEntry) (t : ItemTable),
      Keyed t.mItemIdToItemMap →
        Keyed (associations.foldl attachProperty t).mItemIdToItemMap := by
    intro associations
    induction associations with
    | nil => exact fun _ h => h
    | cons association associations ih =>
      intro t h
      refine ih _ ?_
      rw [attachProperty]
      split
      · exact h
      · exact h.alter _ (attachTo_itemId _)
  have hreferences : ∀ (refs : List ItemReference) (t : ItemTable),
      Keyed t.mItemIdToItemMap → Keyed (refs.foldl applyReference t).mItemIdToItemMap := by
    intro refs
    induction refs with
    | nil => exact fun _ h => h
    | cons ref refs ih => exact fun t h => ih _ (h.apply ref _)
  exact hreferences _ _ (hproperties _ _ h)

theorem keyed_addItems {infos : List ItemInfo} (h : Keyed t.mItemIdToItemMap)
    (hitems : t.addItems source infos = some (t', err)) : Keyed t'.mItemIdToItemMap := by
  induction infos generalizing t with
  | nil =>
    cases hitems
    exact h
  | cons info infos ih =>
    rw [addItems_cons, Option.bind_eq_some_iff] at hitems
    obtain ⟨⟨t₁, err₁⟩, hitem, hitems⟩ := hitems
    have hfirst : Keyed t₁.mItemIdToItemMap := by
      obtain rfl | ⟨-, _, rfl⟩ | ⟨image, -, rfl⟩ := addItem_cases hitem
      · exact h
      · exact h
      · exact h.set image
    split at hitems
    · exact ih hfirst hitems
    · cases hitems
      exact hfirst

structure Inv (t : ItemTable) : Prop where
  keyed : Keyed t.mItemIdToItemMap
  idat : t.IdatTyped
  pending : t.mImageItemsValid = false → t.mDisplayables = [] ∧ t.mCurrentItemIndex = 0
  indices : IndicesValid t.toImages

theorem Inv.start : Inv {} where
  keyed := fun _ _ h => by cases h
  idat := ⟨by decide, by decide, by decide⟩
  pending := fun _ => ⟨rfl, rfl⟩
  indices := fun h => by cases h

theorem displayables_lt {i : Nat} (h : i ∈ t.displayables) : i < t.mItemIdToItemMap.size := by
  obtain ⟨⟨image, i'⟩, himage, rfl⟩ := List.mem_map.mp h
  have hmem := List.mem_zipIdx (List.mem_of_mem_filter himage)
  have hlength : t.mItemIdToItemMap.values.length = t.mItemIdToItemMap.size := List.length_map _
  omega

/-- The end of building the images finds a valid index for the primary one. -/
theorem display_inv (hkeyed : Keyed t.mItemIdToItemMap) (hidat : t.IdatTyped)
    (hvalid : t.mImageItemsValid = false) (hnone : t.mDisplayables = [])
    (hcurrent : t.mCurrentItemIndex = 0) : ∃ t' err, t.display = some (t', err) ∧ Inv t' := by
  rw [display, hnone, List.nil_append]
  cases hdisplayables : t.displayables with
  | nil =>
    refine ⟨_, _, rfl, hkeyed, hidat, fun _ => ⟨rfl, hcurrent⟩, fun h => ?_⟩
    rw [show t.mImageItemsValid = true from h] at hvalid
    cases hvalid
  | cons first rest =>
    have hlt : ∀ i ∈ first :: rest, i < t.mItemIdToItemMap.size := by
      rw [← hdisplayables]
      exact fun i => displayables_lt
    have hfirst := hlt first List.mem_cons_self
    obtain ⟨image, himage⟩ := t.mItemIdToItemMap.valueAt_of_lt hfirst
    have hprimary : ∃ id, t.primaryOr first = some id := by
      rw [primaryOr]
      split
      · exact ⟨_, rfl⟩
      · rw [himage]
        exact ⟨_, rfl⟩
    obtain ⟨id, hid⟩ := hprimary
    dsimp only
    rw [hid]
    refine ⟨_, _, rfl, hkeyed, hidat, fun h => (by cases h), fun _ => ⟨hlt, ?_⟩⟩
    show t.mCurrentItemIndex < t.mItemIdToItemMap.size
    omega

theorem idatTyped_read (ht : t.IdatTyped) {b : Box} (hb : (Request.parse b).Typed) :
    (t.read source b).1.IdatTyped := by
  rw [read]
  split_ifs
  · exact ht
  · exact ht
  · exact ht
  · rw [readPitm]
    split <;> exact ht
  · exact hb
  · exact ht
  · exact ht

theorem Inv.read (ht : t.Inv) {b : Box} (hb : (Request.parse b).Typed) :
    (t.read source b).1.Inv := by
  obtain ⟨himages, -⟩ := read_images t source b
  have hidat : (t.read source b).1.IdatTyped := idatTyped_read ht.idat hb
  generalize (t.read source b).1 = t₁ at himages hidat ⊢
  constructor
  case keyed =>
    rw [himages]
    exact ht.keyed
  case idat => exact hidat
  case pending =>
    rw [himages]
    exact ht.pending
  case indices =>
    rw [himages]
    exact ht.indices

/-- A table that is not valid yet, before the properties and references are attached. -/
structure Unbuilt (t : ItemTable) : Prop where
  keyed : Keyed t.mItemIdToItemMap
  idat : t.IdatTyped
  invalid : t.mImageItemsValid = false
  displayables : t.mDisplayables = []
  current : t.mCurrentItemIndex = 0

theorem Unbuilt.inv (h : t.Unbuilt) : t.Inv where
  keyed := h.keyed
  idat := h.idat
  pending := fun _ => ⟨h.displayables, h.current⟩
  indices := fun hvalid => absurd (h.invalid.symm.trans hvalid) Bool.false_ne_true

theorem Unbuilt.addItems (h : t.Unbuilt) {infos : List ItemInfo}
    (hitems : t.addItems source infos = some (t', err)) : t'.Unbuilt := by
  have hkept := addItems_kept hitems
  refine ⟨keyed_addItems h.keyed hitems, ?_, hkept.valid.trans h.invalid,
    hkept.displayables.trans h.displayables, hkept.current.trans h.current⟩
  rw [IdatTyped, hkept.contents]
  exact h.idat

theorem Unbuilt.attach (h : t.Unbuilt) : t.attach.Unbuilt := by
  have hkept := attach_kept t
  refine ⟨keyed_attach h.keyed, ?_, hkept.valid.trans h.invalid,
    hkept.displayables.trans h.displayables, hkept.current.trans h.current⟩
  rw [IdatTyped, hkept.contents]
  exact h.idat

theorem Unbuilt.display (h : t.Unbuilt) : ∃ t' err, t.display = some (t', err) ∧ Inv t' :=
  display_inv h.keyed h.idat h.invalid h.displayables h.current

theorem Unbuilt.build (h : t.Unbuilt) (hbuild : t.build source = some (t', err)) : t'.Inv := by
  rw [build_eq, Option.bind_eq_some_iff] at hbuild
  obtain ⟨⟨t₀, err₀⟩, hitems, hbuild⟩ := hbuild
  have h₀ := h.addItems hitems
  split at hbuild
  · obtain ⟨t₁, err₁, hdisplay, hinv⟩ := h₀.attach.display
    rw [show t₀.attach.display = some (t', err) from hbuild] at hdisplay
    cases hdisplay
    exact hinv
  · cases hbuild
    exact h₀.inv

theorem Inv.unbuilt (ht : t.Inv) (hvalid : t.mImageItemsValid = false) (type : Nat) :
    (t.withSeen type).Unbuilt :=
  ⟨ht.keyed, ht.idat, hvalid, (ht.pending hvalid).1, (ht.pending hvalid).2⟩

theorem buildImageItemsIfPossible_eq (t : ItemTable) (source : DataSource) (type : Nat)
    (hvalid : t.mImageItemsValid = false) : t.buildImageItemsIfPossible source type =
      if (t.withSeen type).mRequiredBoxes ⊆ (t.withSeen type).mBoxesSeen then
        (t.withSeen type).build source
      else some (t.withSeen type, .OK) := by
  rw [buildImageItemsIfPossible, hvalid, if_neg Bool.false_ne_true]
  rfl

theorem read_valid (t : ItemTable) (source : DataSource) (b : Box) :
    (t.read source b).1.mImageItemsValid = t.mImageItemsValid := by
  rw [(read_images t source b).1]

theorem Inv.parse (ht : t.Inv) {b : Box} (hb : (Request.parse b).Typed)
    (hparse : t.parse source b = some (t', err)) : t'.Inv := by
  have hread : (t.read source b).1.Inv := ht.read hb
  have heq : t.parse source b = if (t.read source b).2 = .OK then
      (t.read source b).1.buildImageItemsIfPossible source b.type
    else some (t.read source b) := rfl
  rw [heq] at hparse
  split at hparse
  · cases hvalid : (t.read source b).1.mImageItemsValid with
    | true =>
      rw [buildImageItemsIfPossible, if_pos hvalid] at hparse
      cases hparse
      exact hread
    | false =>
      have hunbuilt := hread.unbuilt hvalid b.type
      rw [buildImageItemsIfPossible_eq _ _ _ hvalid] at hparse
      split at hparse
      · exact hunbuilt.build hparse
      · cases hparse
        exact hunbuilt.inv
  · rw [Option.some.inj hparse] at hread
    exact hread

/-- A request for the place of an image leaves a valid index. -/
theorem Inv.getImageOffsetAndSize (ht : t.Inv) (itemIndex : Option Nat) :
    ∃ im r, t.getImageOffsetAndSize itemIndex = some (im, r) ∧ Inv { t with toImages := im } := by
  have hsame : ∀ r : Except Status (Int × Nat), ∃ im r',
      some (t.toImages, r) = some (im, r') ∧ Inv { t with toImages := im } :=
    fun r => ⟨_, r, rfl, ht⟩
  rw [Images.getImageOffsetAndSize]
  split
  · exact hsame _
  · next hvalid =>
    have hvalid : t.mImageItemsValid = true := by simpa using hvalid
    split
    · exact hsame _
    · next hindex =>
      obtain ⟨hdisplayables, hcurrent⟩ := ht.indices hvalid
      have hlt : itemIndex.getD t.mCurrentItemIndex < t.mItemIdToItemMap.size := by
        cases itemIndex with
        | none => exact hcurrent
        | some i => simpa using hindex
      obtain ⟨image, himage⟩ := t.mItemIdToItemMap.valueAt_of_lt hlt
      -- the index has been stored, whatever comes of the request
      have hcurrent' : ∀ r : Except Status (Int × Nat), ∃ im r',
          some ({ t.toImages with mCurrentItemIndex := itemIndex.getD t.mCurrentItemIndex }, r) =
            some (im, r') ∧ Inv { t with toImages := im } := fun r =>
        ⟨_, r, rfl, ht.keyed, ht.idat,
          fun hinvalid => absurd (hvalid.symm.trans hinvalid) Bool.false_ne_true.symm,
          fun _ => ⟨hdisplayables, hlt⟩⟩
      simp only [himage, Option.bind_eq_bind, Option.bind_some]
      split
      · obtain ⟨k, hk⟩ := t.mItemIdToItemMap.valueAt_eq_some himage
        have hkey := ht.keyed k image hk
        have hnext : (Images.getNextTileItemId image itemIndex.isSome).1.itemId = image.itemId := by
          rw [Images.getNextTileItemId]
          split <;> rfl
        generalize Images.getNextTileItemId image itemIndex.isSome = tile at hnext ⊢
        -- the next tile is kept with the image
        have hset : ∀ r : Except Status (Int × Nat), ∃ im r',
            some ({ t.toImages with
              mCurrentItemIndex := itemIndex.getD t.mCurrentItemIndex
              mItemIdToItemMap := t.mItemIdToItemMap.set tile.1.itemId tile.1 }, r) =
                some (im, r') ∧ Inv { t with toImages := im } := by
          intro r
          have hsize : (t.mItemIdToItemMap.set tile.1.itemId tile.1).size =
              t.mItemIdToItemMap.size :=
            t.mItemIdToItemMap.size_set (by rw [hnext, hkey]; exact hk)
          refine ⟨_, r, rfl, ht.keyed.set _, ht.idat,
            fun hinvalid => absurd (hvalid.symm.trans hinvalid) Bool.false_ne_true.symm, fun _ => ?_⟩
          dsimp only
          rw [hsize]
          exact ⟨hdisplayables, hlt⟩
        split
        · exact hset _
        · split
          · exact hset _
          · exact hset _
      · split
        · exact hcurrent' _
        · exact hcurrent' _

theorem Inv.next (ht : t.Inv) {r : Request} (hr : r.Typed) : (t.next source r).Inv := by
  rw [ItemTable.next]
  cases r with
  | parse b =>
    cases hparse : t.parse source b with
    | none =>
      rw [exec, hparse]
      exact ht
    | some p =>
      rw [exec, hparse]
      exact ht.parse hr hparse
  | getImageOffsetAndSize itemIndex =>
    obtain ⟨im, r, hget, hinv⟩ := ht.getImageOffsetAndSize itemIndex
    rw [exec, hget]
    exact hinv

instance decidableSound (t : ItemTable) (info : ItemInfo) : Decidable (Sound t info) :=
  match hloc : t.locOf info with
  | none => .isTrue fun loc h => by rw [hloc] at h; cases h
  | some loc =>
    match hextents : loc.extents with
    | [extent] =>
      decidable_of_iff (loc.constructionMethod = 1 →
          (loc.baseOffset + extent.extentOffset + extent.extentLength) % 2^64 ≤ t.mIdatSize →
            (loc.baseOffset + extent.extentOffset) % 2^64 + extent.extentLength < 2^64 ∧
              t.mIdatOffset + ((loc.baseOffset + extent.extentOffset) % 2^64 : Nat) < 2^63)
        ⟨fun h loc' hloc' => by
            cases hloc.symm.trans hloc'
            exact ⟨extent, hextents, h⟩,
          fun h => by
            obtain ⟨extent', hextents', h⟩ := h loc hloc
            cases hextents.symm.trans hextents'
            exact h⟩
    | [] => .isFalse fun h => by
        obtain ⟨extent, hextents', -⟩ := h loc hloc
        cases hextents.symm.trans hextents'
    | _ :: _ :: _ => .isFalse fun h => by
        obtain ⟨extent, hextents', -⟩ := h loc hloc
        cases hextents.symm.trans hextents'

instance decidableAdded {P : ItemTable → Prop} [∀ t, Decidable (P t)]
    (res : Option (ItemTable × Status)) : Decidable (∀ t', res = some (t', .OK) → P t') :=
  match res with
  | none => .isTrue fun t' h => by cases h
  | some (t, err) => decidable_of_iff (err = .OK → P t)
      ⟨fun h t' heq => by cases heq; exact h rfl, fun h herr => h t (by rw [herr])⟩

instance decidableEachItem (source : DataSource) {P : ItemTable → ItemInfo → Prop}
    [∀ t info, Decidable (P t info)] : ∀ t infos, Decidable (EachItem source P t infos)
  | _, [] => .isTrue trivial
  | t, info :: infos =>
    have : ∀ t', Decidable (EachItem source P t' infos) := fun t' => decidableEachItem source t' infos
    inferInstanceAs (Decidable (P t info ∧ ∀ t', _ = _ → EachItem source P t' infos))

instance decidableEachItemOf (source : DataSource) {P : ItemTable → ItemInfo → Prop}
    [∀ t info, Decidable (P t info)] (t : ItemTable) :
    (r : Request) → Decidable (t.EachItemOf source P r)
  | .parse _ => inferInstanceAs (Decidable (_ → _ → _ → EachItem source P _ _))
  | .getImageOffsetAndSize _ => .isTrue trivial

end ItemTable

end MediaFramework.Mp4.Heif
