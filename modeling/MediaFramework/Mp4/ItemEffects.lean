import MediaFramework.Mp4.ItemBuilding
import MediaFramework.Lib.Folds

/-!
# What properties and references do to an image

Associations overwrite the properties of an image. References hide images and add to their lists,
and what they do depends on which identifiers have an image and which have Exif data.
-/

namespace MediaFramework.Mp4.Heif

/-! ### Properties -/

/-- The image without its properties. -/
def ImageItem.bare (image : ImageItem) : ImageItem :=
  { image with width := 0, height := 0, rotation := 0, hvcc := none, icc := none }

def ImageItem.attachAll (properties : List ItemProperty) (image : ImageItem) : ImageItem :=
  properties.foldl (fun image property => property.attachTo image) image

namespace ItemProperty

open ImageItem

/-- A property sets one kind of fields, if any. -/
inductive Sets : (ImageItem → ImageItem) → Prop
  | nothing : Sets fun image => image
  | size (width height : Int) : Sets fun image => image.withSize width height
  | hvcc (hvcc : Option (List (BitVec 8))) : Sets fun image => { image with hvcc }
  | rotation (rotation : Nat) : Sets fun image => { image with rotation }
  | icc (icc : Option (List (BitVec 8))) : Sets fun image => { image with icc }

theorem sets_attachTo (property : ItemProperty) : Sets property.attachTo := by
  cases property with
  | unrecognized => exact .nothing
  | ispe => exact .size _ _
  | hvcC => exact .hvcc _
  | irot => exact .rotation _
  | colr => exact .icc _

theorem attachTo_self (property : ItemProperty) (image : ImageItem) :
    property.attachTo (property.attachTo image) = property.attachTo image := by
  have h := property.sets_attachTo
  generalize property.attachTo = f at h ⊢
  cases h <;> rfl

/-- A property takes the place of another one of its kind. -/
theorem attachTo_attachTo (p q : ItemProperty) (image : ImageItem) :
    q.attachTo (p.attachTo image) = q.attachTo image ∨
      q.attachTo (p.attachTo image) = p.attachTo (q.attachTo image) := by
  have hp := p.sets_attachTo
  have hq := q.sets_attachTo
  generalize p.attachTo = f at hp ⊢
  generalize q.attachTo = g at hq ⊢
  cases hp <;> cases hq <;> first | exact .inl rfl | exact .inr rfl

theorem bare_attachTo (property : ItemProperty) (image : ImageItem) :
    (property.attachTo image).bare = image.bare := by
  have h := property.sets_attachTo
  generalize property.attachTo = f at h ⊢
  cases h <;> rfl

end ItemProperty

namespace ImageItem

/-- Properties that are attached again have been attached before to no effect. -/
theorem attachAll_attachAll {ps qs : List ItemProperty} (h : ∀ q ∈ qs, q ∈ ps) (image : ImageItem) :
    attachAll ps (attachAll qs image) = attachAll ps image :=
  Folds.foldl_absorb_all (fun p s => p.attachTo_self s) (fun p q s => p.attachTo_attachTo q s) h image

theorem bare_attachAll (ps : List ItemProperty) (image : ImageItem) :
    (attachAll ps image).bare = image.bare := by
  induction ps generalizing image with
  | nil => rfl
  | cons p ps ih => exact (ih _).trans (p.bare_attachTo image)

/-! ### References -/

/-- What references do to an image. -/
structure Effect where
  hide : Bool := false
  tiles : List Nat := []
  thumbnails : List Nat := []
  exifs : List Nat := []

def Effect.then (e e' : Effect) : Effect where
  hide := e.hide || e'.hide
  tiles := e.tiles ++ e'.tiles
  thumbnails := e.thumbnails ++ e'.thumbnails
  exifs := e.exifs ++ e'.exifs

def affect (e : Effect) (image : ImageItem) : ImageItem :=
  { image with
    hidden := image.hidden || e.hide
    dimgRefs := image.dimgRefs ++ e.tiles
    thumbnails := image.thumbnails ++ e.thumbnails
    cdscRefs := image.cdscRefs ++ e.exifs }

theorem affect_none (image : ImageItem) : image.affect {} = image := by
  simp only [affect, Bool.or_false, List.append_nil]

theorem affect_affect (e e' : Effect) (image : ImageItem) :
    (image.affect e).affect e' = image.affect (e.then e') := by
  simp only [affect, Effect.then, Bool.or_assoc, List.append_assoc]

theorem attachTo_affect (property : ItemProperty) (e : Effect) (image : ImageItem) :
    property.attachTo (image.affect e) = (property.attachTo image).affect e := by
  have h := property.sets_attachTo
  generalize property.attachTo = f at h ⊢
  cases h <;> rfl

theorem attachAll_affect (ps : List ItemProperty) (e : Effect) (image : ImageItem) :
    attachAll ps (image.affect e) = (attachAll ps image).affect e := by
  induction ps generalizing image with
  | nil => rfl
  | cons p ps ih =>
    show attachAll ps (p.attachTo (image.affect e)) = _
    rw [attachTo_affect, ih]
    rfl

end ImageItem

open ImageItem

/-- What a reference does to the image of an identifier. -/
def ItemReference.effect (ref : ItemReference) (isImage isExif : Nat → Bool) (id : Nat) : Effect :=
  if ref.type = FOURCC 'd' 'i' 'm' 'g' then
    if isImage ref.mItemId then
      { hide := id ∈ ref.mRefs, tiles := if id = ref.mItemId then ref.mRefs else [] }
    else {}
  else if ref.type = FOURCC 't' 'h' 'm' 'b' then
    if isImage ref.mItemId then
      { hide := id = ref.mItemId, thumbnails := List.replicate (ref.mRefs.count id) ref.mItemId }
    else {}
  else if ref.type = FOURCC 'c' 'd' 's' 'c' then
    if isExif ref.mItemId then { exifs := List.replicate (ref.mRefs.count id) ref.mItemId } else {}
  else if ref.type = FOURCC 'a' 'u' 'x' 'l' then { hide := id = ref.mItemId }
  else {}

def effectOf (refs : List ItemReference) (isImage isExif : Nat → Bool) (id : Nat) : Effect :=
  refs.foldr (fun ref e => (ref.effect isImage isExif id).then e) {}

/-- Which identifiers have a value. -/
def keysOf {α : Type} (m : KeyedVector Nat α) (id : Nat) : Bool := (m.find? id).isSome

variable {items : KeyedVector Nat ImageItem} {exifs : KeyedVector Nat ExifItem} {id : Nat}

theorem find?_foldl_alter (f : ImageItem → ImageItem) (ids : List Nat)
    (items : KeyedVector Nat ImageItem) (id : Nat) :
    (ids.foldl (fun items id => items.alter id f) items).find? id =
      (items.find? id).map f^[ids.count id] := by
  induction ids generalizing items with
  | nil => exact (Option.map_id_apply).symm
  | cons k ids ih =>
    rw [List.foldl_cons, ih, KeyedVector.find?_alter, List.count_cons]
    by_cases hk : id = k
    · rw [if_pos hk, hk, beq_self_eq_true, if_pos rfl, Option.map_map]
      rfl
    · rw [if_neg hk, if_neg (fun h => hk (beq_iff_eq.mp h).symm)]
      rfl

theorem iterate_hide (n : Nat) (image : ImageItem) :
    hide^[n] image = image.affect { hide := decide (0 < n) } := by
  cases n with
  | zero => exact (affect_none image).symm
  | succ n =>
    have hhide : ∀ image : ImageItem, hide^[n] image.hide = image.hide := by
      intro image
      induction n with
      | zero => rfl
      | succ n ih => exact ih
    have hpos : decide (0 < n + 1) = true := decide_eq_true (Nat.succ_pos n)
    rw [Function.iterate_succ_apply, hhide, hpos, affect, Bool.or_true, hide]
    simp only [List.append_nil]

theorem iterate_thumbnails (k n : Nat) (image : ImageItem) :
    (fun image : ImageItem => { image with thumbnails := image.thumbnails ++ [k] })^[n] image =
      image.affect { thumbnails := List.replicate n k } := by
  induction n generalizing image with
  | zero => exact (affect_none image).symm
  | succ n ih =>
    rw [Function.iterate_succ_apply, ih, List.replicate_succ]
    simp only [affect, List.append_nil, List.append_assoc, List.singleton_append]

theorem iterate_exifs (k n : Nat) (image : ImageItem) :
    (fun image : ImageItem => { image with cdscRefs := image.cdscRefs ++ [k] })^[n] image =
      image.affect { exifs := List.replicate n k } := by
  induction n generalizing image with
  | zero => exact (affect_none image).symm
  | succ n ih =>
    rw [Function.iterate_succ_apply, ih, List.replicate_succ]
    simp only [affect, List.append_nil, List.append_assoc, List.singleton_append]

theorem hide_eq_affect (image : ImageItem) : image.hide = image.affect { hide := true } :=
  iterate_hide 1 image

theorem map_affect_none (image : Option ImageItem) : image.map (affect {}) = image := by
  cases image with
  | none => rfl
  | some image => exact congrArg some (affect_none image)

/-- A change to the image of one identifier, and then one for each occurrence in a list. -/
theorem find?_alter_each (items : KeyedVector Nat ImageItem) (k id : Nat) (f g : ImageItem → ImageItem)
    (ids : List Nat) :
    (ids.foldl (fun items id => items.alter id g) (items.alter k f)).find? id =
      (items.find? id).map fun image => g^[ids.count id] (if id = k then f image else image) := by
  rw [find?_foldl_alter, KeyedVector.find?_alter]
  by_cases hk : id = k
  · simp only [hk, if_true, Option.map_map]
    rfl
  · simp only [hk, if_false]

/-- What a reference does to an image does not depend on the other images. -/
theorem find?_apply (ref : ItemReference) (items : KeyedVector Nat ImageItem)
    (exifs : KeyedVector Nat ExifItem) (id : Nat) :
    (ref.apply items exifs).find? id =
      (items.find? id).map (affect (ref.effect (keysOf items) (keysOf exifs) id)) := by
  have hmem : decide (0 < ref.mRefs.count id) = decide (id ∈ ref.mRefs) :=
    decide_eq_decide.mpr List.count_pos_iff
  have hkeys : (items.find? ref.mItemId).isNone = !keysOf items ref.mItemId := by
    rw [keysOf, Option.not_isSome]
  have hexif : (exifs.find? ref.mItemId).isNone = !keysOf exifs ref.mItemId := by
    rw [keysOf, Option.not_isSome]
  rw [ItemReference.apply, ItemReference.effect, hkeys, hexif]
  split
  · cases keysOf items ref.mItemId with
    | false => exact (map_affect_none _).symm
    | true =>
      refine (find?_alter_each items ref.mItemId id _ _ _).trans ?_
      congr 1
      funext image
      rw [iterate_hide, hmem]
      by_cases hid : id = ref.mItemId
      · simp only [hid, if_true, affect, List.append_nil]
      · simp only [hid, if_false, if_true]
  · split
    · cases keysOf items ref.mItemId with
      | false => exact (map_affect_none _).symm
      | true =>
        refine (find?_alter_each items ref.mItemId id _ _ _).trans ?_
        congr 1
        funext image
        rw [iterate_thumbnails]
        by_cases hid : id = ref.mItemId
        · simp only [hid, if_true, hide_eq_affect, affect_affect, decide_true]
          rfl
        · simp only [hid, if_false, decide_false]
          rfl
    · split
      · cases keysOf exifs ref.mItemId with
        | false => exact (map_affect_none _).symm
        | true =>
          refine (find?_foldl_alter _ _ _ _).trans ?_
          congr 1
          funext image
          exact iterate_exifs _ _ _
      · split
        · rw [KeyedVector.find?_alter]
          by_cases hid : id = ref.mItemId
          · simp only [hid, if_true, decide_true]
            congr 1
            funext image
            exact hide_eq_affect image
          · simp only [hid, if_false, decide_false]
            exact (map_affect_none _).symm
        · exact (map_affect_none _).symm

theorem keysOf_apply (ref : ItemReference) (items : KeyedVector Nat ImageItem)
    (exifs : KeyedVector Nat ExifItem) : keysOf (ref.apply items exifs) = keysOf items := by
  funext id
  rw [keysOf, find?_apply, Option.isSome_map]
  rfl

/-! ### All of them -/

namespace ItemTable

variable {t : ItemTable}

/-- The properties associated with an item. -/
def propertiesOf (t : ItemTable) (id : Nat) : List ItemProperty :=
  t.mAssociations.filterMap fun association =>
    if association.itemId = id then t.mItemProperties[association.index]? else none

/-- What the references do to the image of an item. -/
def effects (t : ItemTable) (id : Nat) : Effect :=
  effectOf t.mItemReferences (keysOf t.mItemIdToItemMap) (keysOf t.mItemIdToExifMap) id

theorem find?_attachProperty (t : ItemTable) (association : AssociationEntry) (id : Nat) :
    (t.attachProperty association).mItemIdToItemMap.find? id =
      (t.mItemIdToItemMap.find? id).map (attachAll (if association.itemId = id then
        t.mItemProperties[association.index]?.toList else [])) := by
  have hsame : (t.mItemIdToItemMap.find? id).map (attachAll []) = t.mItemIdToItemMap.find? id :=
    Option.map_id_apply
  rw [attachProperty]
  cases t.mItemProperties[association.index]? with
  | none => rw [Option.toList_none, ite_self, hsame]
  | some property =>
    show (t.mItemIdToItemMap.alter association.itemId property.attachTo).find? id = _
    rw [KeyedVector.find?_alter]
    by_cases hid : association.itemId = id
    · rw [if_pos hid.symm, if_pos hid, hid]
      rfl
    · rw [if_neg (Ne.symm hid), if_neg hid, hsame]

theorem attachProperty_properties (t : ItemTable) (association : AssociationEntry) :
    (t.attachProperty association).mItemProperties = t.mItemProperties := by
  rw [attachProperty]
  split <;> rfl

theorem find?_foldl_attachProperty (t : ItemTable) (associations : List AssociationEntry) (id : Nat) :
    (associations.foldl attachProperty t).mItemIdToItemMap.find? id =
      (t.mItemIdToItemMap.find? id).map (attachAll (associations.filterMap fun association =>
        if association.itemId = id then t.mItemProperties[association.index]? else none)) := by
  induction associations generalizing t with
  | nil => exact (Option.map_id_apply).symm
  | cons association associations ih =>
    rw [List.foldl_cons, ih, find?_attachProperty, attachProperty_properties, Option.map_map,
      List.filterMap_cons]
    congr 1
    funext image
    by_cases hid : association.itemId = id
    · rw [if_pos hid, if_pos hid]
      cases t.mItemProperties[association.index]? <;> rfl
    · rw [if_neg hid, if_neg hid]
      rfl

theorem find?_foldl_applyReference (t : ItemTable) (refs : List ItemReference) (id : Nat) :
    (refs.foldl applyReference t).mItemIdToItemMap.find? id =
      (t.mItemIdToItemMap.find? id).map (affect (effectOf refs (keysOf t.mItemIdToItemMap)
        (keysOf t.mItemIdToExifMap) id)) := by
  induction refs generalizing t with
  | nil => exact (map_affect_none _).symm
  | cons ref refs ih =>
    have hkeys : keysOf (t.applyReference ref).mItemIdToItemMap = keysOf t.mItemIdToItemMap :=
      keysOf_apply ref _ _
    have hfirst : (t.applyReference ref).mItemIdToItemMap.find? id = _ :=
      find?_apply ref t.mItemIdToItemMap t.mItemIdToExifMap id
    rw [List.foldl_cons, ih, hkeys, hfirst, Option.map_map]
    congr 1
    funext image
    exact affect_affect _ _ image

/-- What is attached to an image. -/
theorem find?_attach (t : ItemTable) (id : Nat) :
    t.attach.mItemIdToItemMap.find? id =
      (t.mItemIdToItemMap.find? id).map fun image =>
        (attachAll (t.propertiesOf id) image).affect (t.effects id) := by
  have hkeys : keysOf (t.mAssociations.foldl attachProperty t).mItemIdToItemMap =
      keysOf t.mItemIdToItemMap := by
    funext id
    rw [keysOf, find?_foldl_attachProperty, Option.isSome_map]
    rfl
  rw [attach, find?_foldl_applyReference, hkeys, foldl_attachProperty_exif,
    find?_foldl_attachProperty, Option.map_map]
  rfl

end ItemTable

end MediaFramework.Mp4.Heif
