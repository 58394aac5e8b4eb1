import MediaFramework.Mp4.ItemBoxes

/-!
# HEIF item table

`ItemTable` (`media/extractors/mp4`): boxes are read one after another, and the images are put
together as soon as all the boxes are there that are known to be required. `none` is a failed `CHECK`
or an index that is out of range.
-/

namespace MediaFramework.Mp4.Heif

open Heif.Status

structure ImageItem where
  type : Nat
  itemId : Nat
  hidden : Bool
  rows : Nat := 0
  columns : Nat := 0
  width : Int := 0
  height : Int := 0
  rotation : Nat := 0
  offset : Int := 0
  size : Nat := 0
  hvcc : Option (List (BitVec 8)) := none
  icc : Option (List (BitVec 8)) := none
  thumbnails : List Nat := []
  dimgRefs : List Nat := []
  cdscRefs : List Nat := []
  nextTileIndex : Nat := 0
  deriving DecidableEq

def ImageItem.isGrid (image : ImageItem) : Bool := image.type = FOURCC 'g' 'r' 'i' 'd'

def ImageItem.hide (image : ImageItem) : ImageItem := { image with hidden := true }

def ImageItem.withSize (image : ImageItem) (width height : Int) : ImageItem :=
  { image with width, height }

structure ExifItem where
  offset : Int
  size : Nat
  deriving DecidableEq

/-- What the boxes hold, and which of them are required. -/
structure Contents where
  mItemLocs : KeyedVector Nat ItemLoc := .empty
  mItemInfos : List ItemInfo := []
  mAssociations : List AssociationEntry := []
  mItemProperties : List ItemProperty := []
  mItemReferences : List ItemReference := []
  mIdatOffset : Int := 0
  mIdatSize : Nat := 0
  mRequiredBoxes : Finset Nat :=
    {FOURCC 'i' 'p' 'r' 'p', FOURCC 'i' 'l' 'o' 'c', FOURCC 'p' 'i' 't' 'm', FOURCC 'i' 'i' 'n' 'f'}

/-- What requests look at. -/
structure Images where
  mPrimaryItemId : Nat := 0
  mImageItemsValid : Bool := false
  mCurrentItemIndex : Nat := 0
  mItemIdToItemMap : KeyedVector Nat ImageItem := .empty
  mItemIdToExifMap : KeyedVector Nat ExifItem := .empty
  mDisplayables : List Nat := []

structure ItemTable extends Contents, Images where
  mBoxesSeen : Finset Nat := ∅

/-! ### Building the images -/

/-- Where an item is, `none` if the item does not have one extent. -/
def ItemLoc.getLoc (loc : ItemLoc) (idatOffset : Int) (idatSize : Nat) :
    Option (Except Status (Int × Nat)) :=
  match loc.extents with
  | [extent] =>
    if loc.constructionMethod = 0 then
      some (.ok (off64 (loc.baseOffset + extent.extentOffset), extent.extentLength))
    else if loc.constructionMethod = 1 then
      if (loc.baseOffset + extent.extentOffset + extent.extentLength) % 2^64 > idatSize then
        some (.error .ERROR_MALFORMED)
      else
        some (.ok (off64 (loc.baseOffset + extent.extentOffset + idatOffset), extent.extentLength))
    else some (.error .ERROR_UNSUPPORTED)
  | _ => none

def ItemProperty.attachTo (property : ItemProperty) (image : ImageItem) : ImageItem :=
  match property with
  | .unrecognized => image
  | .ispe mWidth mHeight => image.withSize ((mWidth : Int).bmod (2^32)) ((mHeight : Int).bmod (2^32))
  | .hvcC mHVCC => { image with hvcc := some mHVCC }
  | .irot mAngle => { image with rotation := mAngle * 90 }
  | .colr mICCData => { image with icc := mICCData }

/-- Images and Exif items are distinguished by their maps. -/
def ItemReference.apply (ref : ItemReference) (items : KeyedVector Nat ImageItem)
    (exifs : KeyedVector Nat ExifItem) : KeyedVector Nat ImageItem :=
  if ref.type = FOURCC 'd' 'i' 'm' 'g' then
    if (items.find? ref.mItemId).isNone then items
    else
      ref.mRefs.foldl (fun items id => items.alter id ImageItem.hide)
        (items.alter ref.mItemId fun image => { image with dimgRefs := image.dimgRefs ++ ref.mRefs })
  else if ref.type = FOURCC 't' 'h' 'm' 'b' then
    if (items.find? ref.mItemId).isNone then items
    else
      ref.mRefs.foldl
        (fun items id => items.alter id fun image =>
          { image with thumbnails := image.thumbnails ++ [ref.mItemId] })
        (items.alter ref.mItemId ImageItem.hide)
  else if ref.type = FOURCC 'c' 'd' 's' 'c' then
    if (exifs.find? ref.mItemId).isNone then items
    else
      ref.mRefs.foldl
        (fun items id => items.alter id fun image =>
          { image with cdscRefs := image.cdscRefs ++ [ref.mItemId] })
        items
  else if ref.type = FOURCC 'a' 'u' 'x' 'l' then items.alter ref.mItemId ImageItem.hide
  else items

namespace ItemTable

variable (t : ItemTable)

def handled (info : ItemInfo) : Prop :=
  info.itemType = FOURCC 'g' 'r' 'i' 'd' ∨ info.itemType = FOURCC 'h' 'v' 'c' '1' ∨
    info.itemType = FOURCC 'E' 'x' 'i' 'f'

instance (info : ItemInfo) : Decidable (handled info) := inferInstanceAs (Decidable (_ ∨ _ ∨ _))

def addImage (image : ImageItem) : ItemTable :=
  { t with mItemIdToItemMap := t.mItemIdToItemMap.set image.itemId image }

/-- How many bytes of a grid item of some size are read into the buffer of 12 bytes. -/
def gridBytes (size : Nat) : Option Nat := if size < 8 ∨ size > 12 then none else some size

/-- An item that is not an Exif item, at its place in the file. -/
def addLocated (source : DataSource) (info : ItemInfo) (offset : Int) (size : Nat) :
    ItemTable × Status :=
  let image : ImageItem := { type := info.itemType, itemId := info.itemId, hidden := info.hidden }
  if image.isGrid then
    match gridBytes size with
    | none => (t, .ERROR_MALFORMED)
    | some size =>
      let buf := source.readAt offset size
      if buf.1 = 0 then (t, ERROR_IO)
      else
        (t.addImage { image with rows := (buf.2 2).toNat + 1, columns := (buf.2 3).toNat + 1 }, .OK)
  else (t.addImage { image with offset, size }, .OK)

/-- The location of an item that comes to be one of the table, where it has one. -/
def locOf (info : ItemInfo) : Option ItemLoc :=
  if handled info ∧ (t.mItemIdToItemMap.find? info.itemId).isNone then
    t.mItemLocs.find? info.itemId
  else none

/-- A turn of the loop over the item infos. -/
def addItem (source : DataSource) (info : ItemInfo) : Option (ItemTable × Status) :=
  match t.locOf info with
  | none => some (t, .OK)
  | some iloc => do
    match ← iloc.getLoc t.mIdatOffset t.mIdatSize with
    | .error _ => return (t, .ERROR_MALFORMED)
    | .ok (offset, size) =>
      if info.itemType = FOURCC 'E' 'x' 'i' 'f' then
        if size > 4 then
          return ({ t with
            mItemIdToExifMap := t.mItemIdToExifMap.set info.itemId ⟨offset, size⟩ }, .OK)
        else return (t, .OK)
      else return t.addLocated source info offset size

/-- The loop over the item infos ends at an error. -/
def addItems (source : DataSource) : ItemTable → List ItemInfo → Option (ItemTable × Status)
  | t, [] => some (t, .OK)
  | t, info :: infos => do
    let (t, err) ← t.addItem source info
    if err = .OK then t.addItems source infos else return (t, err)

def attachProperty (association : AssociationEntry) : ItemTable :=
  match t.mItemProperties[association.index]? with
  | none => t
  | some property =>
    { t with mItemIdToItemMap := t.mItemIdToItemMap.alter association.itemId property.attachTo }

def applyReference (ref : ItemReference) : ItemTable :=
  { t with mItemIdToItemMap := ref.apply t.mItemIdToItemMap t.mItemIdToExifMap }

def isPrimary (image : ImageItem) : Bool := image.itemId = t.mPrimaryItemId

/-- The indices of the images that are not hidden, and of the primary image. -/
def displayables : List Nat :=
  (t.mItemIdToItemMap.values.zipIdx.filter
    fun image => !image.1.hidden || t.isPrimary image.1).map Prod.snd

/-- The primary image, or else the first displayable one. -/
def primaryOr (first : Nat) : Option Nat :=
  if t.mItemIdToItemMap.values.any t.isPrimary then some t.mPrimaryItemId
  else (t.mItemIdToItemMap.valueAt first).map ImageItem.itemId

/-- The end of `buildImageItemsIfPossible`, once properties and references are attached. -/
def display : Option (ItemTable × Status) :=
  let mDisplayables := t.mDisplayables ++ t.displayables
  match mDisplayables with
  | [] => some ({ t with mDisplayables }, .ERROR_MALFORMED)
  | first :: _ =>
    (t.primaryOr first).map fun mPrimaryItemId =>
      ({ t with mDisplayables, mPrimaryItemId, mImageItemsValid := true }, .OK)

def attach : ItemTable :=
  t.mItemReferences.foldl applyReference (t.mAssociations.foldl attachProperty t)

/-- The part of `buildImageItemsIfPossible` behind its guards. -/
def build (source : DataSource) : Option (ItemTable × Status) := do
  let (t, err) ← t.addItems source t.mItemInfos
  if err = .OK then t.attach.display else return (t, err)

def buildImageItemsIfPossible (source : DataSource) (type : Nat) : Option (ItemTable × Status) :=
  if t.mImageItemsValid then some (t, .OK)
  else
    let t := { t with mBoxesSeen := insert type t.mBoxesSeen }
    if t.mRequiredBoxes ⊆ t.mBoxesSeen then t.build source else some (t, .OK)

end ItemTable

/-! ### Reading a box -/

def statusOf {α : Type} : Except Status α → Status
  | .error err => err
  | .ok _ => .OK

namespace Contents

variable (c : Contents) (source : DataSource)

def parseIlocBox (offset : Int) (size : Nat) : Contents × Status :=
  let r := (IlocBox.parse source offset size).run.run { mItemLocs := c.mItemLocs }
  let err := statusOf r.1
  ({ c with
      mItemLocs := r.2.mItemLocs
      mRequiredBoxes :=
        if err = .OK ∧ r.2.mHasConstructMethod1 then
          insert (FOURCC 'i' 'd' 'a' 't') c.mRequiredBoxes
        else c.mRequiredBoxes },
    err)

def parseIinfBox (offset : Int) (size : Nat) : Contents × Status :=
  let r := (IinfBox.parse source offset size).run.run { mItemInfos := c.mItemInfos }
  let err := statusOf r.1
  ({ c with
      mItemInfos := r.2.mItemInfos
      mRequiredBoxes :=
        if err = .OK ∧ (FOURCC 'g' 'r' 'i' 'd' ∈ r.2.mFourCCSeen ∨
            FOURCC 'E' 'x' 'i' 'f' ∈ r.2.mFourCCSeen) then
          insert (FOURCC 'i' 'r' 'e' 'f') c.mRequiredBoxes
        else c.mRequiredBoxes },
    err)

def parseIprpBox (offset : Int) (size : Nat) : Contents × Status :=
  let r := (IprpBox.parse source offset size).run.run ⟨c.mItemProperties, c.mAssociations⟩
  ({ c with mItemProperties := r.2.mProperties, mAssociations := r.2.mAssociations }, statusOf r.1)

def parseIdatBox (offset : Int) (size : Nat) : Contents × Status :=
  ({ c with mIdatOffset := offset, mIdatSize := size }, .OK)

def parseIrefBox (offset : Int) (size : Nat) : Contents × Status :=
  let r := (IrefBox.parse source offset size).run.run c.mItemReferences
  ({ c with mItemReferences := r.2 }, statusOf r.1)

end Contents

/-- The arguments of a call of `ItemTable::parse`. -/
structure Box where
  type : Nat
  offset : Int
  size : Nat
  deriving DecidableEq

namespace ItemTable

variable (t : ItemTable) (source : DataSource)

def withContents (r : Contents × Status) : ItemTable × Status := ({ t with toContents := r.1 }, r.2)

def readPitm (b : Box) : ItemTable × Status :=
  match ((PitmBox.parse source b.offset b.size : Parsing Unit Nat).run.run ()).1 with
  | .ok itemId => ({ t with mPrimaryItemId := itemId }, .OK)
  | .error err => (t, err)

/-- The part of `ItemTable::parse` that comes before `buildImageItemsIfPossible`. -/
def read (b : Box) : ItemTable × Status :=
  if b.type = FOURCC 'i' 'l' 'o' 'c' then
    t.withContents (t.toContents.parseIlocBox source b.offset b.size)
  else if b.type = FOURCC 'i' 'i' 'n' 'f' then
    t.withContents (t.toContents.parseIinfBox source b.offset b.size)
  else if b.type = FOURCC 'i' 'p' 'r' 'p' then
    t.withContents (t.toContents.parseIprpBox source b.offset b.size)
  else if b.type = FOURCC 'p' 'i' 't' 'm' then t.readPitm source b
  else if b.type = FOURCC 'i' 'd' 'a' 't' then
    t.withContents (t.toContents.parseIdatBox b.offset b.size)
  else if b.type = FOURCC 'i' 'r' 'e' 'f' then
    t.withContents (t.toContents.parseIrefBox source b.offset b.size)
  else (t, .ERROR_UNSUPPORTED)

def parse (b : Box) : Option (ItemTable × Status) :=
  let (t, err) := t.read source b
  if err = .OK then t.buildImageItemsIfPossible source b.type else some (t, err)

end ItemTable

/-! ### Requests -/

namespace Images

variable (im : Images)

def findImageItem (imageIndex : Nat) : Except Status Nat :=
  if ¬im.mImageItemsValid then .error .INVALID_OPERATION
  else
    match im.mDisplayables[imageIndex]? with
    | none => .error .BAD_VALUE
    | some itemIndex => .ok itemIndex

def findThumbnailItem (imageIndex : Nat) : Option (Except Status Nat) :=
  if ¬im.mImageItemsValid then some (.error .INVALID_OPERATION)
  else
    match im.mDisplayables[imageIndex]? with
    | none => some (.error .BAD_VALUE)
    | some masterItemIndex => do
      let masterImage ← im.mItemIdToItemMap.valueAt masterItemIndex
      match masterImage.thumbnails with
      | [] => return .ok masterItemIndex
      | thumbnail :: _ =>
        match im.mItemIdToItemMap.indexOfKey thumbnail with
        | none => return .error .INVALID_OPERATION
        | some thumbItemIndex => return .ok thumbItemIndex

/-- The next tile of a grid. -/
def getNextTileItemId (image : ImageItem) (reset : Bool) : ImageItem × Except Status Nat :=
  let nextTileIndex := if reset then 0 else image.nextTileIndex
  match image.dimgRefs[nextTileIndex]? with
  | none => ({ image with nextTileIndex }, .error .ERROR_END_OF_STREAM)
  | some nextTileItemId => ({ image with nextTileIndex := nextTileIndex + 1 }, .ok nextTileItemId)

/-- Without an index, it is about the current item. -/
def getImageOffsetAndSize (itemIndex : Option Nat) : Option (Images × Except Status (Int × Nat)) :=
  if ¬im.mImageItemsValid then some (im, .error .INVALID_OPERATION)
  else if itemIndex.any fun i => i ≥ im.mItemIdToItemMap.size then some (im, .error .BAD_VALUE)
  else do
    let im := { im with mCurrentItemIndex := itemIndex.getD im.mCurrentItemIndex }
    let image ← im.mItemIdToItemMap.valueAt im.mCurrentItemIndex
    if image.isGrid then
      let (image, tile) := getNextTileItemId image itemIndex.isSome
      let im := { im with mItemIdToItemMap := im.mItemIdToItemMap.set image.itemId image }
      match tile with
      | .error err => return (im, .error err)
      | .ok tileItemId =>
        match im.mItemIdToItemMap.find? tileItemId with
        | none => return (im, .error .ERROR_END_OF_STREAM)
        | some tileItem => return (im, .ok (tileItem.offset, tileItem.size))
    else if itemIndex.isNone then return (im, .error .ERROR_END_OF_STREAM)
    else return (im, .ok (image.offset, image.size))

/-- The Exif item of the primary image. -/
def primaryExif : Except Status ExifItem :=
  if ¬im.mImageItemsValid then .error .INVALID_OPERATION
  else
    match im.mItemIdToItemMap.find? im.mPrimaryItemId with
    | none => .error .INVALID_OPERATION
    | some image =>
      match image.cdscRefs with
      | [] => .error .NAME_NOT_FOUND
      | ref :: _ =>
        match im.mItemIdToExifMap.find? ref with
        | none => .error .NAME_NOT_FOUND
        | some exif => .ok exif

def getExifOffsetAndSize (source : DataSource) : Except Status (Int × Nat) := do
  let exif ← im.primaryExif
  let buf := source.readAt exif.offset 4
  let tiffOffset := DataSource.bigEndian buf.2 4
  if buf.1 = 0 then .error ERROR_IO
  else if tiffOffset < 6 then .error .ERROR_MALFORMED
  else if exif.size ≤ 4 ∨ tiffOffset > exif.size - 4 then .error .ERROR_MALFORMED
  else
    -- the sum of the source wraps around where the difference does not
    let exifOffset := 4 + tiffOffset - 6
    .ok (off64 (exif.offset + exifOffset), exif.size - exifOffset)

end Images

end MediaFramework.Mp4.Heif
