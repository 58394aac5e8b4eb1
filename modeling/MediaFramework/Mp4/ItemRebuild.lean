import MediaFramework.Mp4.ItemEffects
import MediaFramework.Mp4.ItemOrder

/-!
# Building the images again

What an attempt to build the images has left is kept by the next one: an image that is in the map
already is not made again, and its lists grow. So the images are those of a single attempt exactly if
what was left is as it would be made now, and nothing has been added to the lists.
-/

namespace MediaFramework.Mp4.Heif

namespace ItemTable

open ImageItem

variable {t t' u u' : ItemTable} {source : DataSource} {info : ItemInfo} {infos : List ItemInfo}
  {err : Status} {id : Nat}

/-! ### What is made of an item -/

/-- Where the data of an item is. -/
def placeOf (t : ItemTable) (id : Nat) : Option (Int × Nat) :=
  (t.mItemLocs.find? id).bind fun iloc =>
    match iloc.getLoc t.mIdatOffset t.mIdatSize with
    | some (.ok place) => some place
    | _ => none

/-- An item of one of the two types of images. -/
def IsImage (info : ItemInfo) : Prop := handled info ∧ info.itemType ≠ FOURCC 'E' 'x' 'i' 'f'

instance (info : ItemInfo) : Decidable (IsImage info) := inferInstanceAs (Decidable (_ ∧ _))

/-- The first image item of an identifier. -/
def firstImage (infos : List ItemInfo) (id : Nat) : Option ItemInfo :=
  infos.find? fun info => decide (IsImage info ∧ info.itemId = id)

/-- The image of an item with its data at some place. -/
def imageAt (source : DataSource) (info : ItemInfo) (place : Int × Nat) : Option ImageItem :=
  let image : ImageItem := { type := info.itemType, itemId := info.itemId, hidden := info.hidden }
  if image.isGrid then
    (gridBytes place.2).bind fun size =>
      let buf := source.readAt place.1 size
      if buf.1 = 0 then none
      else some { image with rows := (buf.2 2).toNat + 1, columns := (buf.2 3).toNat + 1 }
  else some { image with offset := place.1, size := place.2 }

/-- The image that an identifier has, if the items are tried in their order. -/
def imageIn (t : ItemTable) (source : DataSource) (infos : List ItemInfo) (id : Nat) :
    Option ImageItem :=
  (t.placeOf id).bind fun place => (firstImage infos id).bind fun info => imageAt source info place

/-- Exif data, unless there is an image item of the identifier before. -/
def exifIn (t : ItemTable) (infos : List ItemInfo) (id : Nat) : Option ExifItem :=
  (t.placeOf id).bind fun place =>
    (infos.find? fun info => decide (handled info ∧ info.itemId = id)).bind fun info =>
      if info.itemType = FOURCC 'E' 'x' 'i' 'f' ∧ 4 < place.2 then some ⟨place.1, place.2⟩ else none

def imageOf (t : ItemTable) (source : DataSource) (id : Nat) : Option ImageItem :=
  t.imageIn source t.mItemInfos id

def exifOf (t : ItemTable) (id : Nat) : Option ExifItem := t.exifIn t.mItemInfos id

theorem addLocated_eq (t : ItemTable) (source : DataSource) (info : ItemInfo) (offset : Int)
    (size : Nat) :
    (∃ image, imageAt source info (offset, size) = some image ∧
        t.addLocated source info offset size = (t.addImage image, .OK)) ∨
      imageAt source info (offset, size) = none ∧
        (t.addLocated source info offset size).2 ≠ .OK := by
  rw [addLocated, imageAt]
  dsimp only
  split
  · cases gridBytes size with
    | none => exact .inr ⟨rfl, fun hok => by cases hok⟩
    | some size =>
      dsimp only [Option.bind_some]
      split
      · exact .inr ⟨rfl, fun hok => by cases hok⟩
      · exact .inl ⟨_, rfl, rfl⟩
  · exact .inl ⟨_, rfl, rfl⟩

theorem imageAt_base {image : ImageItem} {place : Int × Nat}
    (h : imageAt source info place = some image) :
    image.itemId = info.itemId ∧ image.type = info.itemType ∧ image.hidden = info.hidden ∧
      image.bare = image ∧ image.nextTileIndex = 0 ∧ image.dimgRefs = [] ∧ image.thumbnails = [] ∧
      image.cdscRefs = [] := by
  rw [imageAt] at h
  dsimp only at h
  split at h
  · obtain ⟨size, -, h⟩ := Option.bind_eq_some_iff.mp h
    split at h
    · cases h
    · cases h
      exact ⟨rfl, rfl, rfl, rfl, rfl, rfl, rfl, rfl⟩
  · cases h
    exact ⟨rfl, rfl, rfl, rfl, rfl, rfl, rfl, rfl⟩

/-- Exif data comes to its map if there is any besides the offset in front of it. -/
def addExif (t : ItemTable) (id : Nat) (place : Int × Nat) : ItemTable :=
  if 4 < place.2 then
    { t with mItemIdToExifMap := t.mItemIdToExifMap.set id ⟨place.1, place.2⟩ }
  else t

/-- The turns of the loop that do not end it. -/
inductive Added (t : ItemTable) (source : DataSource) (info : ItemInfo) : ItemTable → Prop
  | skipped : t.locOf info = none → Added t source info t
  | exif {place : Int × Nat} : (t.locOf info).isSome → t.placeOf info.itemId = some place →
      info.itemType = FOURCC 'E' 'x' 'i' 'f' → Added t source info (t.addExif info.itemId place)
  | image {place : Int × Nat} {image : ImageItem} : (t.locOf info).isSome →
      t.placeOf info.itemId = some place → IsImage info → imageAt source info place = some image →
      Added t source info (t.addImage image)

theorem addItem_eq_ok_iff :
    t.addItem source info = some (t', .OK) ↔ Added t source info t' := by
  constructor
  · intro h
    rw [addItem] at h
    cases hloc : t.locOf info with
    | none =>
      rw [hloc] at h
      cases h
      exact .skipped hloc
    | some iloc =>
      obtain ⟨hhandled, -, hfind⟩ := locOf_eq_some hloc
      have hsome : (t.locOf info).isSome := by rw [hloc, Option.isSome_some]
      have hplace : ∀ place, iloc.getLoc t.mIdatOffset t.mIdatSize = some (.ok place) →
          t.placeOf info.itemId = some place := by
        intro place hget
        rw [placeOf, hfind, Option.bind_some, hget]
      simp only [hloc, Option.bind_eq_bind, Option.bind_eq_some_iff] at h
      obtain ⟨r, hget, h⟩ := h
      cases r with
      | error e => cases h
      | ok place =>
        obtain ⟨offset, size⟩ := place
        have hplace := hplace (offset, size) hget
        dsimp only at h
        split at h
        · next hexif =>
          have hadd : t' = t.addExif info.itemId (offset, size) := by
            rw [addExif]
            split at h
            · next hlong =>
              rw [if_pos hlong]
              exact (Prod.mk.inj (Option.some.inj h)).1.symm
            · next hshort =>
              rw [if_neg hshort]
              exact (Prod.mk.inj (Option.some.inj h)).1.symm
          rw [hadd]
          exact .exif hsome hplace hexif
        · next hexif =>
          have hadd := Option.some.inj h
          obtain ⟨image, himage, heq⟩ | ⟨-, hbad⟩ := t.addLocated_eq source info offset size
          · rw [heq] at hadd
            obtain rfl := (Prod.mk.inj hadd).1
            exact .image hsome hplace ⟨hhandled, hexif⟩ himage
          · rw [hadd] at hbad
            exact absurd rfl hbad
  · intro h
    have hget : ∀ {place : Int × Nat}, (t.locOf info).isSome → t.placeOf info.itemId = some place →
        ∃ iloc, t.locOf info = some iloc ∧
          iloc.getLoc t.mIdatOffset t.mIdatSize = some (.ok place) := by
      intro place hsome hplace
      obtain ⟨iloc, hloc⟩ := Option.isSome_iff_exists.mp hsome
      rw [placeOf, (locOf_eq_some hloc).2.2, Option.bind_some] at hplace
      split at hplace
      · next hget =>
        cases hplace
        exact ⟨iloc, hloc, hget⟩
      · cases hplace
    rw [addItem]
    cases h with
    | skipped hloc => rw [hloc]
    | exif hsome hplace hexif =>
      obtain ⟨iloc, hloc, hget⟩ := hget hsome hplace
      simp only [hloc, hget, Option.bind_eq_bind, Option.bind_some, if_pos hexif, addExif]
      split
      · rfl
      · rfl
    | image hsome hplace hinfo himage =>
      obtain ⟨iloc, hloc, hget⟩ := hget hsome hplace
      obtain ⟨image', himage', heq⟩ | ⟨hnone, -⟩ := t.addLocated_eq source info _ _
      · rw [himage] at himage'
        obtain rfl := Option.some.inj himage'
        simp only [hloc, hget, Option.bind_eq_bind, Option.bind_some, if_neg hinfo.2]
        exact congrArg some heq
      · rw [himage] at hnone
        cases hnone

theorem addExif_contents (t : ItemTable) (id : Nat) (place : Int × Nat) :
    (t.addExif id place).toContents = t.toContents := by
  rw [addExif]
  split <;> rfl

theorem addExif_items (t : ItemTable) (id : Nat) (place : Int × Nat) :
    (t.addExif id place).mItemIdToItemMap = t.mItemIdToItemMap := by
  rw [addExif]
  split <;> rfl

theorem find?_addExif (t : ItemTable) (id id' : Nat) (place : Int × Nat) :
    (t.addExif id place).mItemIdToExifMap.find? id' =
      if id' = id ∧ 4 < place.2 then some ⟨place.1, place.2⟩ else t.mItemIdToExifMap.find? id' := by
  rw [addExif]
  split
  · next hlong =>
    refine (t.mItemIdToExifMap.find?_set _ _ _).trans ?_
    by_cases hid : id' = id
    · rw [if_pos hid, if_pos ⟨hid, hlong⟩]
    · rw [if_neg hid, if_neg (fun h => hid h.1)]
  · next hshort => rw [if_neg (fun h => hshort h.2)]

theorem Added.contents (h : Added t source info t') : t'.toContents = t.toContents := by
  cases h with
  | skipped => rfl
  | exif => exact t.addExif_contents _ _
  | image => rfl

theorem placeOf_congr (h : t'.toContents = t.toContents) (id : Nat) : t'.placeOf id = t.placeOf id := by
  rw [placeOf, placeOf, h]

theorem imageIn_congr (h : t'.toContents = t.toContents) (source : DataSource)
    (infos : List ItemInfo) (id : Nat) : t'.imageIn source infos id = t.imageIn source infos id := by
  rw [imageIn, imageIn, placeOf_congr h]

theorem exifIn_congr (h : t'.toContents = t.toContents) (infos : List ItemInfo) (id : Nat) :
    t'.exifIn infos id = t.exifIn infos id := by
  rw [exifIn, exifIn, placeOf_congr h]

/-- An item that is passed over does not count. -/
theorem imageIn_cons_of_not (t : ItemTable) (source : DataSource) (infos : List ItemInfo)
    (h : ¬ (IsImage info ∧ info.itemId = id)) :
    t.imageIn source (info :: infos) id = t.imageIn source infos id := by
  rw [imageIn, imageIn, firstImage, List.find?_cons_of_neg (by rw [decide_eq_true_iff]; exact h),
    firstImage]

theorem exifIn_cons_of_not (t : ItemTable) (infos : List ItemInfo)
    (h : ¬ (handled info ∧ info.itemId = id)) : t.exifIn (info :: infos) id = t.exifIn infos id := by
  rw [exifIn, exifIn, List.find?_cons_of_neg (by rw [decide_eq_true_iff]; exact h)]

theorem imageIn_cons (t : ItemTable) (source : DataSource) (infos : List ItemInfo)
    (h : IsImage info) : t.imageIn source (info :: infos) info.itemId =
      (t.placeOf info.itemId).bind fun place => imageAt source info place := by
  have hfirst : firstImage (info :: infos) info.itemId = some info :=
    List.find?_cons_of_pos (decide_eq_true ⟨h, rfl⟩)
  rw [imageIn, hfirst]
  rfl

theorem exifIn_cons (t : ItemTable) (infos : List ItemInfo) (h : handled info) :
    t.exifIn (info :: infos) info.itemId = (t.placeOf info.itemId).bind fun place =>
      if info.itemType = FOURCC 'E' 'x' 'i' 'f' ∧ 4 < place.2 then some ⟨place.1, place.2⟩
      else none := by
  have hfirst : (info :: infos).find? (fun i => decide (handled i ∧ i.itemId = info.itemId)) =
      some info := List.find?_cons_of_pos (decide_eq_true ⟨h, rfl⟩)
  rw [exifIn, hfirst]
  rfl

/-- Items without a place are passed over, so that there is none of them in either map. -/
theorem imageIn_of_noPlace (source : DataSource) (infos : List ItemInfo) (h : t.placeOf id = none) :
    t.imageIn source infos id = none := by
  rw [imageIn, h, Option.bind_none]

theorem placeOf_of_skipped (h : t.locOf info = none) (hhandled : handled info)
    (hnew : t.mItemIdToItemMap.find? info.itemId = none) : t.placeOf info.itemId = none := by
  rw [locOf, if_pos ⟨hhandled, by rw [hnew, Option.isNone_none]⟩] at h
  rw [placeOf, h, Option.bind_none]

theorem exifIn_cases {place : Int × Nat} (infos : List ItemInfo) (h : t.placeOf id = some place) :
    t.exifIn infos id = none ∨ 4 < place.2 ∧ t.exifIn infos id = some ⟨place.1, place.2⟩ := by
  rw [exifIn, h, Option.bind_some]
  cases infos.find? fun info => decide (handled info ∧ info.itemId = id) with
  | none => exact .inl rfl
  | some info =>
    rw [Option.bind_some]
    split
    · next hexif => exact .inr ⟨hexif.2, rfl⟩
    · exact .inl rfl

theorem find?_of_locOf (h : (t.locOf info).isSome) :
    handled info ∧ t.mItemIdToItemMap.find? info.itemId = none := by
  obtain ⟨iloc, hloc⟩ := Option.isSome_iff_exists.mp h
  exact ⟨(locOf_eq_some hloc).1, (locOf_eq_some hloc).2.1⟩

/-- The image that an identifier comes to have does not change from one turn to the next. -/
theorem Added.items (h : Added t source info t') (infos : List ItemInfo) (id : Nat) :
    (t'.mItemIdToItemMap.find? id).or (t.imageIn source infos id) =
      (t.mItemIdToItemMap.find? id).or (t.imageIn source (info :: infos) id) := by
  cases h with
  | skipped hloc =>
    by_cases hmine : IsImage info ∧ info.itemId = id
    · obtain ⟨hinfo, rfl⟩ := hmine
      cases hnew : t.mItemIdToItemMap.find? info.itemId with
      | some image => rfl
      | none =>
        have hplace := placeOf_of_skipped hloc hinfo.1 hnew
        rw [imageIn_of_noPlace source _ hplace, imageIn_of_noPlace source _ hplace]
    · rw [imageIn_cons_of_not t source infos hmine]
  | exif hsome hplace hexif =>
    rw [addExif_items, imageIn_cons_of_not t source infos fun h => h.1.2 hexif]
  | @image place image hsome hplace hinfo himage =>
    have hid := (imageAt_base himage).1
    show ((t.mItemIdToItemMap.set image.itemId image).find? id).or _ = _
    rw [KeyedVector.find?_set, hid]
    by_cases hmine : id = info.itemId
    · rw [if_pos hmine, hmine, (find?_of_locOf hsome).2, Option.none_or, imageIn_cons t source infos hinfo,
        hplace, Option.bind_some, himage]
      rfl
    · rw [if_neg hmine, imageIn_cons_of_not t source infos fun h => hmine h.2.symm]

/-- Nor does the Exif data. -/
theorem Added.exifs (h : Added t source info t') (infos : List ItemInfo) (id : Nat) :
    (if (t'.mItemIdToItemMap.find? id).isSome then t'.mItemIdToExifMap.find? id
      else (t.exifIn infos id).or (t'.mItemIdToExifMap.find? id)) =
    if (t.mItemIdToItemMap.find? id).isSome then t.mItemIdToExifMap.find? id
    else (t.exifIn (info :: infos) id).or (t.mItemIdToExifMap.find? id) := by
  cases h with
  | skipped hloc =>
    by_cases hmine : handled info ∧ info.itemId = id
    · obtain ⟨hhandled, rfl⟩ := hmine
      cases hnew : t.mItemIdToItemMap.find? info.itemId with
      | some image => rfl
      | none =>
        have hplace := placeOf_of_skipped hloc hhandled hnew
        rw [exifIn, exifIn, hplace, Option.bind_none, Option.bind_none]
    · rw [exifIn_cons_of_not t infos hmine]
  | @exif place hsome hplace hexif =>
    obtain ⟨hhandled, hnew⟩ := find?_of_locOf hsome
    rw [addExif_items, find?_addExif]
    by_cases hmine : id = info.itemId
    · subst hmine
      rw [hnew, Option.isSome_none, if_neg Bool.false_ne_true, if_neg Bool.false_ne_true,
        exifIn_cons t infos hhandled, hplace, Option.bind_some]
      obtain hnone | ⟨hlong, hsame⟩ := exifIn_cases infos hplace
      · rw [hnone, Option.none_or]
        by_cases hlong : 4 < place.2
        · simp only [hexif, hlong, and_self, if_true, Option.some_or]
        · simp only [hlong, and_false, if_false, Option.none_or]
      · simp only [hsame, hexif, hlong, and_self, if_true, Option.some_or]
    · have hother : ¬ (id = info.itemId ∧ 4 < place.2) := fun h => hmine h.1
      rw [if_neg hother, exifIn_cons_of_not t infos fun h => hmine h.2.symm]
  | @image place image hsome hplace hinfo himage =>
    obtain ⟨hhandled, hnew⟩ := find?_of_locOf hsome
    have hid := (imageAt_base himage).1
    show (if ((t.mItemIdToItemMap.set image.itemId image).find? id).isSome then
      t.mItemIdToExifMap.find? id else _) = _
    rw [KeyedVector.find?_set, hid]
    by_cases hmine : id = info.itemId
    · rw [if_pos hmine, hmine, Option.isSome_some, if_pos rfl, hnew, Option.isSome_none,
        if_neg Bool.false_ne_true, exifIn_cons t infos hhandled, hplace, Option.bind_some,
        if_neg (fun h => hinfo.2 h.1), Option.none_or]
    · rw [if_neg hmine, exifIn_cons_of_not t infos fun h => hmine h.2.symm]
      rfl

/-- The turns of the loop up to the first that ends it. -/
theorem addItems_cons_ok (h : t.addItems source (info :: infos) = some (t', .OK)) :
    ∃ t₁, Added t source info t₁ ∧ t₁.addItems source infos = some (t', .OK) := by
  rw [addItems_cons, Option.bind_eq_some_iff] at h
  obtain ⟨⟨t₁, err₁⟩, hitem, h⟩ := h
  have hok : err₁ = .OK := by
    by_contra hbad
    rw [if_neg hbad] at h
    exact hbad (Prod.mk.inj (Option.some.inj h)).2
  subst hok
  rw [if_pos rfl] at h
  exact ⟨t₁, addItem_eq_ok_iff.mp hitem, h⟩

theorem addItems_of_added {t₁ : ItemTable} (h : Added t source info t₁) (infos : List ItemInfo) :
    t.addItems source (info :: infos) = t₁.addItems source infos := by
  rw [addItems_cons, addItem_eq_ok_iff.mpr h, Option.bind_some, if_pos rfl]

/-- The images after the loop: those that were there, else what the first items say. -/
theorem addItems_items (h : t.addItems source infos = some (t', .OK)) (id : Nat) :
    t'.mItemIdToItemMap.find? id =
      (t.mItemIdToItemMap.find? id).or (t.imageIn source infos id) := by
  induction infos generalizing t with
  | nil =>
    cases h
    have hnone : t'.imageIn source [] id = none := by
      rw [imageIn]
      cases t'.placeOf id <;> rfl
    rw [hnone, Option.or_none]
  | cons info infos ih =>
    obtain ⟨t₁, hadded, h⟩ := addItems_cons_ok h
    rw [ih h, imageIn_congr hadded.contents, hadded.items]

theorem addItems_exifs (h : t.addItems source infos = some (t', .OK)) (id : Nat) :
    t'.mItemIdToExifMap.find? id =
      if (t.mItemIdToItemMap.find? id).isSome then t.mItemIdToExifMap.find? id
      else (t.exifIn infos id).or (t.mItemIdToExifMap.find? id) := by
  induction infos generalizing t with
  | nil =>
    cases h
    have hnone : t'.exifIn [] id = none := by
      rw [exifIn]
      cases t'.placeOf id <;> rfl
    rw [hnone, Option.none_or, ite_self]
  | cons info infos ih =>
    obtain ⟨t₁, hadded, h⟩ := addItems_cons_ok h
    rw [ih h, exifIn_congr hadded.contents, hadded.exifs]

/-- A turn that one table makes is made by another one that comes to have the same images. -/
theorem Added.transfer (h : Added t source info t') (hsame : u.toContents = t.toContents)
    (hcover : (t.mItemIdToItemMap.find? info.itemId).isSome →
      ((u.mItemIdToItemMap.find? info.itemId).or
        (u.imageIn source (info :: infos) info.itemId)).isSome) :
    ∃ u', Added u source info u' := by
  cases hloc : u.locOf info with
  | none => exact ⟨u, .skipped hloc⟩
  | some iloc =>
    obtain ⟨hhandled, hnew, hfind⟩ := locOf_eq_some hloc
    have hsome : (u.locOf info).isSome := by rw [hloc, Option.isSome_some]
    cases hold : t.mItemIdToItemMap.find? info.itemId with
    | none =>
      have hlocT : t.locOf info = u.locOf info := by
        rw [locOf, locOf, hold, hnew, hsame]
      cases h with
      | skipped hskip =>
        rw [hlocT, hloc] at hskip
        cases hskip
      | exif _ hplace hexif => exact ⟨_, .exif hsome ((placeOf_congr hsame _).trans hplace) hexif⟩
      | image _ hplace hinfo himage =>
        exact ⟨_, .image hsome ((placeOf_congr hsame _).trans hplace) hinfo himage⟩
    | some image =>
      rw [hold, hnew, Option.none_or] at hcover
      obtain ⟨image, himage⟩ := Option.isSome_iff_exists.mp (hcover rfl)
      obtain ⟨place, hplace, hrest⟩ := Option.bind_eq_some_iff.mp himage
      by_cases hexif : info.itemType = FOURCC 'E' 'x' 'i' 'f'
      · exact ⟨_, .exif hsome hplace hexif⟩
      · rw [imageIn_cons u source infos ⟨hhandled, hexif⟩, hplace, Option.bind_some] at himage
        exact ⟨_, .image hsome hplace ⟨hhandled, hexif⟩ himage⟩

theorem addItems_transfer (h : t.addItems source infos = some (t', .OK))
    (hsame : u.toContents = t.toContents)
    (hcover : ∀ id, ((t.mItemIdToItemMap.find? id).or (t.imageIn source infos id)).isSome →
      ((u.mItemIdToItemMap.find? id).or (u.imageIn source infos id)).isSome) :
    ∃ u', u.addItems source infos = some (u', .OK) := by
  induction infos generalizing t u with
  | nil => exact ⟨u, rfl⟩
  | cons info infos ih =>
    obtain ⟨t₁, hadded, h⟩ := addItems_cons_ok h
    obtain ⟨u₁, hadded'⟩ : ∃ u₁, Added u source info u₁ := by
      refine hadded.transfer hsame fun hold => hcover _ ?_
      rw [Option.isSome_or, hold, Bool.true_or]
    rw [addItems_of_added hadded']
    refine ih h (hadded'.contents.trans (hsame.trans hadded.contents.symm)) fun id => ?_
    rw [imageIn_congr hadded.contents, imageIn_congr hadded'.contents, hadded.items,
      hadded'.items]
    exact hcover id

/-! ### What an attempt makes -/

theorem build_ok_iff : t.build source = some (t', .OK) ↔
    ∃ t₀, t.addItems source t.mItemInfos = some (t₀, .OK) ∧ t₀.attach.display = some (t', .OK) := by
  rw [build_eq, Option.bind_eq_some_iff]
  constructor
  · rintro ⟨⟨t₀, err₀⟩, hitems, h⟩
    split at h
    · next hok =>
      dsimp only at hok
      subst hok
      exact ⟨t₀, hitems, h⟩
    · next hbad =>
      cases h
      exact absurd rfl hbad
  · rintro ⟨t₀, hitems, h⟩
    exact ⟨_, hitems, (if_pos rfl).trans h⟩

/-- What makes an attempt succeed after the loop, and what it then leaves. -/
theorem display_ok_iff : t.display = some (t', .OK) ↔ t.mDisplayables ++ t.displayables ≠ [] ∧
    ∃ primary, t.primaryOr ((t.mDisplayables ++ t.displayables).headD 0) = some primary ∧
      t' = { t with
        mDisplayables := t.mDisplayables ++ t.displayables
        mPrimaryItemId := primary
        mImageItemsValid := true } := by
  rw [display]
  cases hdisp : t.mDisplayables ++ t.displayables with
  | nil =>
    constructor
    · intro h
      cases h
    · rintro ⟨hne, -⟩
      exact absurd rfl hne
  | cons first rest =>
    dsimp only
    rw [Option.map_eq_some_iff]
    constructor
    · rintro ⟨primary, hprimary, h⟩
      cases h
      exact ⟨fun h => (List.cons_ne_nil _ _ h), primary, hprimary, rfl⟩
    · rintro ⟨-, primary, hprimary, rfl⟩
      exact ⟨primary, hprimary, rfl⟩

theorem display_congr (h : t.display = some (t', .OK))
    (hitems : u.mItemIdToItemMap = t.mItemIdToItemMap)
    (hexifs : u.mItemIdToExifMap = t.mItemIdToExifMap)
    (hprimary : u.mPrimaryItemId = t.mPrimaryItemId)
    (hdisplayables : u.mDisplayables = t.mDisplayables) :
    ∃ u', u.display = some (u', .OK) ∧ t'.mItemIdToItemMap = u'.mItemIdToItemMap ∧
      t'.mItemIdToExifMap = u'.mItemIdToExifMap ∧ t'.mDisplayables = u'.mDisplayables := by
  obtain ⟨hne, primary, hfirst, rfl⟩ := display_ok_iff.mp h
  have his : u.isPrimary = t.isPrimary := by
    funext image
    rw [isPrimary, isPrimary, hprimary]
  have hdisp : u.displayables = t.displayables := by
    rw [displayables, displayables, hitems, his]
  have hor : u.primaryOr = t.primaryOr := by
    funext first
    rw [primaryOr, primaryOr, hitems, hprimary, his]
  refine ⟨_, display_ok_iff.mpr ⟨?_, primary, ?_, rfl⟩, hitems.symm, hexifs.symm, ?_⟩
  · rw [hdisplayables, hdisp]
    exact hne
  · rw [hdisplayables, hdisp, hor]
    exact hfirst
  · show t.mDisplayables ++ t.displayables = u.mDisplayables ++ u.displayables
    rw [hdisplayables, hdisp]

theorem keysOf_attach (t : ItemTable) :
    keysOf t.attach.mItemIdToItemMap = keysOf t.mItemIdToItemMap := by
  funext id
  rw [keysOf, find?_attach, Option.isSome_map]
  rfl

theorem attach_exif (t : ItemTable) : t.attach.mItemIdToExifMap = t.mItemIdToExifMap := by
  have hreferences : ∀ (refs : List ItemReference) (t : ItemTable),
      (refs.foldl applyReference t).mItemIdToExifMap = t.mItemIdToExifMap := by
    intro refs
    induction refs with
    | nil => exact fun _ => rfl
    | cons ref refs ih => exact fun t => ih (t.applyReference ref)
  exact (hreferences _ _).trans (foldl_attachProperty_exif _ _)

/-- The images after an attempt, by what was there before it and which identifiers come to have an
image. -/
structure Outcome (source : DataSource) (t t' : ItemTable) : Prop where
  contents : t'.toContents = t.toContents
  items : ∀ id, t'.mItemIdToItemMap.find? id =
    ((t.mItemIdToItemMap.find? id).or (t.imageOf source id)).map fun image =>
      (attachAll (t.propertiesOf id) image).affect (t'.effects id)
  exifs : ∀ id, t'.mItemIdToExifMap.find? id =
    if (t.mItemIdToItemMap.find? id).isSome then t.mItemIdToExifMap.find? id
    else (t.exifOf id).or (t.mItemIdToExifMap.find? id)

theorem outcome_attach {t₀ : ItemTable} (h : t.addItems source t.mItemInfos = some (t₀, .OK)) :
    Outcome source t t₀.attach := by
  have hkept := addItems_kept h
  have hsame : t₀.attach.toContents = t₀.toContents := (attach_kept t₀).contents
  refine ⟨hsame.trans hkept.contents, fun id => ?_, fun id => ?_⟩
  · have heffects : t₀.attach.effects id = t₀.effects id := by
      rw [effects, effects, keysOf_attach, attach_exif, hsame]
    have hproperties : t₀.propertiesOf id = t.propertiesOf id := by
      rw [propertiesOf, propertiesOf, hkept.contents]
    rw [find?_attach, addItems_items h, heffects, hproperties]
    rfl
  · rw [attach_exif, addItems_exifs h]
    rfl

theorem outcome_display {t₀ : ItemTable} (h : Outcome source t t₀)
    (hdisplay : t₀.display = some (t', .OK)) : Outcome source t t' := by
  obtain ⟨-, primary, -, rfl⟩ := display_ok_iff.mp hdisplay
  exact ⟨h.contents, h.items, h.exifs⟩

theorem build_outcome (h : t.build source = some (t', .OK)) : Outcome source t t' := by
  obtain ⟨t₀, hitems, hdisplay⟩ := build_ok_iff.mp h
  exact outcome_display (outcome_attach hitems) hdisplay

theorem effects_congr (hcontents : u.toContents = t.toContents)
    (hitems : keysOf u.mItemIdToItemMap = keysOf t.mItemIdToItemMap)
    (hexifs : keysOf u.mItemIdToExifMap = keysOf t.mItemIdToExifMap) (id : Nat) :
    u.effects id = t.effects id := by
  rw [effects, effects, hcontents, hitems, hexifs]

end ItemTable

namespace ImageItem

/-- Where an image is made again, it is the same as the one left if their own fields are the same and
the lists of the one left are empty. -/
theorem attachAll_eq_iff {ps gs : List ItemProperty} {e : Effect} {left image : ImageItem}
    (hgs : ∀ p ∈ gs, p ∈ ps) (hleft : left = attachAll gs left.bare) (himage : image.bare = image)
    (htype : left.type = image.type) (hid : left.itemId = image.itemId)
    (htile : left.nextTileIndex = image.nextTileIndex)
    (hhidden : (left.hidden || e.hide) = (image.hidden || e.hide))
    (hlists : image.dimgRefs = [] ∧ image.thumbnails = [] ∧ image.cdscRefs = []) :
    (attachAll ps left).affect e = (attachAll ps image).affect e ↔
      left.rows = image.rows ∧ left.columns = image.columns ∧ left.offset = image.offset ∧
        left.size = image.size ∧ left.dimgRefs = [] ∧ left.thumbnails = [] ∧ left.cdscRefs = [] := by
  have hbare : ∀ image : ImageItem,
      ((attachAll ps image).affect e).bare = image.bare.affect e := by
    intro image
    rw [← bare_attachAll ps image]
    rfl
  obtain ⟨hdimg, hthmb, hcdsc⟩ := hlists
  constructor
  · intro h
    have hsame : left.bare.affect e = image.bare.affect e := by
      rw [← hbare, ← hbare, h]
    rw [himage] at hsame
    have hlist : ∀ {xs ys zs : List Nat}, xs ++ zs = ys ++ zs → ys = [] → xs = [] :=
      fun h hnil => (List.append_cancel_right h).trans hnil
    have hfield : ∀ {α : Type} (field : ImageItem → α),
        field (left.bare.affect e) = field (image.affect e) := fun field => congrArg field hsame
    exact ⟨hfield rows, hfield columns, hfield offset, hfield size, hlist (hfield dimgRefs) hdimg,
      hlist (hfield thumbnails) hthmb, hlist (hfield cdscRefs) hcdsc⟩
  · rintro ⟨hrows, hcolumns, hoffset, hsize, hdimg', hthmb', hcdsc'⟩
    have hsame : left.bare.affect e = image.affect e := by
      rw [← himage]
      simp only [affect, bare, htype, hid, htile, hhidden, hrows, hcolumns, hoffset, hsize, hdimg,
        hthmb, hcdsc, hdimg', hthmb', hcdsc']
    calc (attachAll ps left).affect e
        = (attachAll ps left.bare).affect e := by
          rw [hleft, attachAll_attachAll hgs, bare_attachAll]
          rfl
      _ = attachAll ps (left.bare.affect e) := (attachAll_affect ps e _).symm
      _ = (attachAll ps image).affect e := by rw [hsame, attachAll_affect]

end ImageItem

end MediaFramework.Mp4.Heif
