import MediaFramework.Mp4.ItemReadings

/-!
# What the images of an item table depend on

The images that are built do not depend on an `idat` box that no item is in, nor on references that
no image makes.
-/

namespace MediaFramework.Mp4.Heif

namespace ItemTable

variable {t t' : ItemTable} {source : DataSource} {info : ItemInfo} {err : Status}

/-! ### One table with some contents of another -/

/-- With the `idat` box, the references and the set of required boxes of another table. -/
def other (t u : ItemTable) : ItemTable :=
  { t with
    mItemReferences := u.mItemReferences
    mIdatOffset := u.mIdatOffset
    mIdatSize := u.mIdatSize
    mRequiredBoxes := u.mRequiredBoxes
    mBoxesSeen := u.mBoxesSeen }

theorem other_eq {u : ItemTable} (hsame : ∀ k, k ≠ .idat → k ≠ .iref → t.Same u k)
    (himages : t.toImages = u.toImages) : t.other u = u := by
  have hiloc : t.mItemLocs = u.mItemLocs := hsame .iloc (by decide) (by decide)
  have hiinf : t.mItemInfos = u.mItemInfos := hsame .iinf (by decide) (by decide)
  obtain ⟨hprop, hassoc⟩ : t.mItemProperties = u.mItemProperties ∧
      t.mAssociations = u.mAssociations := hsame .iprp (by decide) (by decide)
  rw [other, himages, hiloc, hiinf, hprop, hassoc]

/-- No item of the table is in the `idat` box. -/
def NoIdat (t : ItemTable) : Prop :=
  ∀ id loc, t.mItemLocs.find? id = some loc → loc.constructionMethod ≠ 1

theorem locOf_eq_some {loc : ItemLoc} (h : t.locOf info = some loc) :
    handled info ∧ t.mItemIdToItemMap.find? info.itemId = none ∧
      t.mItemLocs.find? info.itemId = some loc := by
  rw [locOf] at h
  split at h
  · next hhandled => exact ⟨hhandled.1, Option.isNone_iff_eq_none.mp hhandled.2, h⟩
  · cases h

theorem getLoc_of_ne {loc : ItemLoc} (h : loc.constructionMethod ≠ 1) (offset offset' : Int)
    (size size' : Nat) : loc.getLoc offset size = loc.getLoc offset' size' := by
  rw [ItemLoc.getLoc, ItemLoc.getLoc]
  split
  · rw [if_neg h, if_neg h]
  · rfl

theorem addLocated_other (u : ItemTable) (source : DataSource) (info : ItemInfo) (offset : Int)
    (size : Nat) : (t.other u).addLocated source info offset size =
      ((t.addLocated source info offset size).1.other u,
        (t.addLocated source info offset size).2) := by
  rw [addLocated, addLocated]
  split
  · cases gridBytes size with
    | none => rfl
    | some size =>
      dsimp only
      split <;> rfl
  · rfl

theorem addItem_other {u : ItemTable}
    (hidat : t.mIdatOffset = u.mIdatOffset ∧ t.mIdatSize = u.mIdatSize ∨ t.NoIdat) :
    (t.other u).addItem source info =
      (t.addItem source info).map fun r => (r.1.other u, r.2) := by
  have hloc : (t.other u).locOf info = t.locOf info := rfl
  rw [addItem, addItem, hloc]
  cases h : t.locOf info with
  | none => rfl
  | some loc =>
    have hget : loc.getLoc (t.other u).mIdatOffset (t.other u).mIdatSize =
        loc.getLoc t.mIdatOffset t.mIdatSize := by
      obtain ⟨hoffset, hsize⟩ | hno := hidat
      · rw [hoffset, hsize]
        rfl
      · exact getLoc_of_ne (hno _ _ (locOf_eq_some h).2.2) _ _ _ _
    dsimp only
    rw [hget]
    cases loc.getLoc t.mIdatOffset t.mIdatSize with
    | none => rfl
    | some r =>
      cases r with
      | error e => rfl
      | ok place =>
        obtain ⟨offset, size⟩ := place
        simp only [Option.bind_eq_bind, Option.bind_some]
        split
        · split <;> rfl
        · rw [addLocated_other]
          rfl

theorem addLocated_cases {offset : Int} {size : Nat}
    (h : t.addLocated source info offset size = (t', err)) :
    t' = t ∨ ∃ image : ImageItem, image.itemId = info.itemId ∧ t' = t.addImage image := by
  rw [addLocated] at h
  split at h
  · split at h
    · cases h
      exact .inl rfl
    · dsimp only at h
      split at h
      · cases h
        exact .inl rfl
      · cases h
        exact .inr ⟨_, rfl, rfl⟩
  · cases h
    exact .inr ⟨_, rfl, rfl⟩

/-- An item comes to one of the two maps, if at all. -/
theorem addItem_cases (h : t.addItem source info = some (t', err)) :
    t' = t ∨
      (info.itemType = FOURCC 'E' 'x' 'i' 'f' ∧
        ∃ exif, t' = { t with mItemIdToExifMap := t.mItemIdToExifMap.set info.itemId exif }) ∨
      ∃ image : ImageItem, image.itemId = info.itemId ∧ t' = t.addImage image := by
  rw [addItem] at h
  cases hloc : t.locOf info with
  | none =>
    rw [hloc] at h
    cases h
    exact .inl rfl
  | some loc =>
    simp only [hloc, Option.bind_eq_bind, Option.bind_eq_some_iff] at h
    obtain ⟨r, -, h⟩ := h
    cases r with
    | error e =>
      cases h
      exact .inl rfl
    | ok place =>
      dsimp only at h
      split at h
      · next hexif =>
        split at h
        · cases h
          exact .inr (.inl ⟨hexif, _, rfl⟩)
        · cases h
          exact .inl rfl
      · obtain rfl | himage := addLocated_cases (Option.some.inj h)
        · exact .inl rfl
        · exact .inr (.inr himage)

/-- What the loop over the item infos does not change. -/
structure Kept (t t' : ItemTable) : Prop where
  contents : t'.toContents = t.toContents
  primary : t'.mPrimaryItemId = t.mPrimaryItemId
  valid : t'.mImageItemsValid = t.mImageItemsValid
  current : t'.mCurrentItemIndex = t.mCurrentItemIndex
  displayables : t'.mDisplayables = t.mDisplayables
  seen : t'.mBoxesSeen = t.mBoxesSeen

theorem Kept.refl (t : ItemTable) : Kept t t := ⟨rfl, rfl, rfl, rfl, rfl, rfl⟩

theorem Kept.trans {t'' : ItemTable} (h : Kept t t') (h' : Kept t' t'') : Kept t t'' :=
  ⟨h'.contents.trans h.contents, h'.primary.trans h.primary, h'.valid.trans h.valid,
    h'.current.trans h.current, h'.displayables.trans h.displayables, h'.seen.trans h.seen⟩

theorem addItem_kept (h : t.addItem source info = some (t', err)) : Kept t t' := by
  obtain rfl | ⟨-, _, rfl⟩ | ⟨_, -, rfl⟩ := addItem_cases h
  · exact Kept.refl t'
  · exact ⟨rfl, rfl, rfl, rfl, rfl, rfl⟩
  · exact ⟨rfl, rfl, rfl, rfl, rfl, rfl⟩

theorem addItems_cons (t : ItemTable) (source : DataSource) (info : ItemInfo)
    (infos : List ItemInfo) : t.addItems source (info :: infos) =
      (t.addItem source info).bind fun r =>
        if r.2 = .OK then r.1.addItems source infos else some r := rfl

theorem addItems_kept {infos : List ItemInfo} (h : t.addItems source infos = some (t', err)) :
    Kept t t' := by
  induction infos generalizing t with
  | nil =>
    cases h
    exact Kept.refl t'
  | cons info infos ih =>
    rw [addItems_cons, Option.bind_eq_some_iff] at h
    obtain ⟨⟨t₁, err₁⟩, hitem, h⟩ := h
    split at h
    · exact (addItem_kept hitem).trans (ih h)
    · cases h
      exact addItem_kept hitem

theorem addItems_other {u : ItemTable} (infos : List ItemInfo)
    (hidat : t.mIdatOffset = u.mIdatOffset ∧ t.mIdatSize = u.mIdatSize ∨ t.NoIdat) :
    (t.other u).addItems source infos =
      (t.addItems source infos).map fun r => (r.1.other u, r.2) := by
  induction infos generalizing t with
  | nil => rfl
  | cons info infos ih =>
    rw [addItems_cons, addItems_cons, addItem_other hidat]
    cases hitem : t.addItem source info with
    | none => rfl
    | some r =>
      obtain ⟨t₁, err₁⟩ := r
      have hkept := addItem_kept hitem
      simp only [Option.map_some, Option.bind_some]
      split
      · apply ih
        rw [NoIdat, hkept.contents]
        exact hidat
      · rfl

/-- Without Exif items, there is nothing in their map. -/
theorem addItems_exif {infos : List ItemInfo}
    (hinfos : ∀ info ∈ infos, info.itemType ≠ FOURCC 'E' 'x' 'i' 'f')
    (h : t.addItems source infos = some (t', err)) : t'.mItemIdToExifMap = t.mItemIdToExifMap := by
  induction infos generalizing t with
  | nil =>
    cases h
    rfl
  | cons info infos ih =>
    obtain ⟨hfirst, hinfos⟩ := List.forall_mem_cons.mp hinfos
    rw [addItems_cons, Option.bind_eq_some_iff] at h
    obtain ⟨⟨t₁, err₁⟩, hitem, h⟩ := h
    have hsame : t₁.mItemIdToExifMap = t.mItemIdToExifMap := by
      obtain rfl | ⟨hexif, -⟩ | ⟨_, -, rfl⟩ := addItem_cases hitem
      · rfl
      · exact absurd hexif hfirst
      · rfl
    split at h
    · exact (ih hinfos h).trans hsame
    · cases h
      exact hsame

/-! ### Properties and references -/

theorem attachProperty_other (t u : ItemTable) (association : AssociationEntry) :
    (t.other u).attachProperty association = (t.attachProperty association).other u := by
  have hproperty : (t.other u).mItemProperties = t.mItemProperties := rfl
  rw [attachProperty, attachProperty, hproperty]
  split <;> rfl

theorem foldl_attachProperty_other (t u : ItemTable) (associations : List AssociationEntry) :
    associations.foldl attachProperty (t.other u) =
      (associations.foldl attachProperty t).other u := by
  induction associations generalizing t with
  | nil => rfl
  | cons association associations ih =>
    rw [List.foldl_cons, List.foldl_cons, attachProperty_other, ih]

theorem foldl_applyReference_other (t u : ItemTable) (refs : List ItemReference) :
    refs.foldl applyReference (t.other u) = (refs.foldl applyReference t).other u := by
  induction refs generalizing t with
  | nil => rfl
  | cons ref refs ih =>
    have hfirst : (t.other u).applyReference ref = (t.applyReference ref).other u := rfl
    rw [List.foldl_cons, List.foldl_cons, hfirst, ih]

theorem foldl_attachProperty_exif (t : ItemTable) (associations : List AssociationEntry) :
    (associations.foldl attachProperty t).mItemIdToExifMap = t.mItemIdToExifMap := by
  induction associations generalizing t with
  | nil => rfl
  | cons association associations ih =>
    rw [List.foldl_cons, ih, attachProperty]
    split <;> rfl

/-- What attaching properties and references does not change. -/
theorem attach_kept (t : ItemTable) : Kept t t.attach := by
  have hproperties : ∀ (associations : List AssociationEntry) (t : ItemTable),
      Kept t (associations.foldl attachProperty t) := by
    intro associations
    induction associations with
    | nil => exact Kept.refl
    | cons association associations ih =>
      intro t
      have hfirst : Kept t (t.attachProperty association) := by
        rw [attachProperty]
        split
        · exact Kept.refl t
        · exact ⟨rfl, rfl, rfl, rfl, rfl, rfl⟩
      exact hfirst.trans (ih (t.attachProperty association))
  have hreferences : ∀ (refs : List ItemReference) (t : ItemTable),
      Kept t (refs.foldl applyReference t) := by
    intro refs
    induction refs with
    | nil => exact Kept.refl
    | cons ref refs ih =>
      intro t
      have hfirst : Kept t (t.applyReference ref) := ⟨rfl, rfl, rfl, rfl, rfl, rfl⟩
      exact hfirst.trans (ih (t.applyReference ref))
  exact (hproperties _ t).trans (hreferences _ _)

/-- A reference that no image makes, in a table without Exif items. -/
def Idle (ref : ItemReference) (items : KeyedVector Nat ImageItem) : Prop :=
  ref.type = FOURCC 'd' 'i' 'm' 'g' ∨ ref.type = FOURCC 't' 'h' 'm' 'b' ∨
    ref.type = FOURCC 'a' 'u' 'x' 'l' → items.find? ref.mItemId = none

theorem applyReference_of_idle {ref : ItemReference} (h : Idle ref t.mItemIdToItemMap)
    (hexif : ∀ id, t.mItemIdToExifMap.find? id = none) : t.applyReference ref = t := by
  have hsame : ref.apply t.mItemIdToItemMap t.mItemIdToExifMap = t.mItemIdToItemMap := by
    rw [ItemReference.apply]
    split
    · next hdimg => rw [if_pos (by rw [h (.inl hdimg)]; rfl)]
    · split
      · next hthmb => rw [if_pos (by rw [h (.inr (.inl hthmb))]; rfl)]
      · split
        · rw [if_pos (by rw [hexif]; rfl)]
        · split
          · next hauxl =>
            rw [KeyedVector.alter, h (.inr (.inr hauxl))]
            rfl
          · rfl
  rw [applyReference, hsame]

theorem foldl_applyReference_of_idle {refs : List ItemReference}
    (h : ∀ ref ∈ refs, Idle ref t.mItemIdToItemMap)
    (hexif : ∀ id, t.mItemIdToExifMap.find? id = none) : refs.foldl applyReference t = t := by
  induction refs with
  | nil => rfl
  | cons ref refs ih =>
    obtain ⟨hfirst, hrefs⟩ := List.forall_mem_cons.mp h
    rw [List.foldl_cons, applyReference_of_idle hfirst hexif, ih hrefs]

/-! ### The same items -/

/-- The same identifiers have an image. -/
def SameKeys (items items' : KeyedVector Nat ImageItem) : Prop :=
  ∀ id, items'.find? id = none ↔ items.find? id = none

theorem SameKeys.refl (items : KeyedVector Nat ImageItem) : SameKeys items items := fun _ => Iff.rfl

theorem SameKeys.trans {items items' items'' : KeyedVector Nat ImageItem}
    (h : SameKeys items items') (h' : SameKeys items' items'') : SameKeys items items'' :=
  fun id => (h' id).trans (h id)

theorem sameKeys_alter (items : KeyedVector Nat ImageItem) (id : Nat) (f : ImageItem → ImageItem) :
    SameKeys items (items.alter id f) := fun id' => items.find?_alter_eq_none id id' f

theorem sameKeys_foldl_alter (f : ImageItem → ImageItem) (ids : List Nat)
    (items : KeyedVector Nat ImageItem) :
    SameKeys items (ids.foldl (fun items id => items.alter id f) items) := by
  induction ids generalizing items with
  | nil => exact SameKeys.refl items
  | cons id ids ih => exact (sameKeys_alter items id f).trans (ih _)

theorem sameKeys_apply (ref : ItemReference) (items : KeyedVector Nat ImageItem)
    (exifs : KeyedVector Nat ExifItem) : SameKeys items (ref.apply items exifs) := by
  rw [ItemReference.apply]
  split_ifs
  · exact SameKeys.refl items
  · exact (sameKeys_alter _ _ _).trans (sameKeys_foldl_alter _ _ _)
  · exact SameKeys.refl items
  · exact (sameKeys_alter _ _ _).trans (sameKeys_foldl_alter _ _ _)
  · exact SameKeys.refl items
  · exact sameKeys_foldl_alter _ _ _
  · exact sameKeys_alter _ _ _
  · exact SameKeys.refl items

theorem sameKeys_attachProperty (t : ItemTable) (association : AssociationEntry) :
    SameKeys t.mItemIdToItemMap (t.attachProperty association).mItemIdToItemMap := by
  rw [attachProperty]
  split
  · exact SameKeys.refl _
  · exact sameKeys_alter _ _ _

theorem sameKeys_foldl_attachProperty (t : ItemTable) (associations : List AssociationEntry) :
    SameKeys t.mItemIdToItemMap
      (associations.foldl attachProperty t).mItemIdToItemMap := by
  induction associations generalizing t with
  | nil => exact SameKeys.refl _
  | cons association associations ih =>
    exact (sameKeys_attachProperty t association).trans (ih _)

theorem sameKeys_foldl_applyReference (t : ItemTable) (refs : List ItemReference) :
    SameKeys t.mItemIdToItemMap (refs.foldl applyReference t).mItemIdToItemMap := by
  induction refs generalizing t with
  | nil => exact SameKeys.refl _
  | cons ref refs ih => exact (sameKeys_apply ref _ _).trans (ih _)

theorem display_items (h : t.display = some (t', err)) :
    t'.mItemIdToItemMap = t.mItemIdToItemMap := by
  rw [display] at h
  split at h
  · cases h
    rfl
  · obtain ⟨id, -, h⟩ := Option.map_eq_some_iff.mp h
    cases h
    rfl

theorem build_eq (t : ItemTable) (source : DataSource) : t.build source =
    (t.addItems source t.mItemInfos).bind fun r =>
      if r.2 = .OK then r.1.attach.display else some r := rfl

/-- The images are those that the loop over the item infos has added. -/
theorem build_sameKeys (h : t.build source = some (t', .OK)) :
    ∃ t₀, t.addItems source t.mItemInfos = some (t₀, .OK) ∧
      SameKeys t₀.mItemIdToItemMap t'.mItemIdToItemMap := by
  rw [build_eq, Option.bind_eq_some_iff] at h
  obtain ⟨⟨t₀, err₀⟩, hitems, h⟩ := h
  split at h
  · next hok =>
    dsimp only at hok
    subst hok
    refine ⟨t₀, hitems, ?_⟩
    rw [display_items h]
    exact (sameKeys_foldl_attachProperty _ _).trans (sameKeys_foldl_applyReference _ _)
  · next hbad =>
    cases h
    exact absurd rfl hbad

/-! ### The images -/

theorem display_other (t u : ItemTable) :
    (t.other u).display = t.display.map fun r => (r.1.other u, r.2) := by
  have hdisplayables : (t.other u).mDisplayables ++ (t.other u).displayables =
      t.mDisplayables ++ t.displayables := rfl
  have hprimary : (t.other u).primaryOr = t.primaryOr := rfl
  rw [display, display]
  rw [hdisplayables, hprimary]
  split
  · rfl
  · rw [Option.map_map]
    rfl

/-- What the references of two tables may differ in. -/
def SameReferences (source : DataSource) (t u : ItemTable) : Prop :=
  t.mItemReferences = u.mItemReferences ∨
    ((∀ id, t.mItemIdToExifMap.find? id = none) ∧
      (∀ info ∈ t.mItemInfos, info.itemType ≠ FOURCC 'E' 'x' 'i' 'f') ∧
      ∀ t₀, t.addItems source t.mItemInfos = some (t₀, .OK) →
        ∀ ref, ref ∈ t.mItemReferences ∨ ref ∈ u.mItemReferences → Idle ref t₀.mItemIdToItemMap)

theorem attach_other {u t₀ : ItemTable} (h : t.addItems source t.mItemInfos = some (t₀, .OK))
    (hrefs : SameReferences source t u) : (t₀.other u).attach = t₀.attach.other u := by
  have hkept := addItems_kept h
  have hrefs₀ : t₀.mItemReferences = t.mItemReferences := by rw [hkept.contents]
  show u.mItemReferences.foldl applyReference
      (t₀.mAssociations.foldl attachProperty (t₀.other u)) =
    (t₀.mItemReferences.foldl applyReference (t₀.mAssociations.foldl attachProperty t₀)).other u
  rw [foldl_attachProperty_other, foldl_applyReference_other, hrefs₀]
  obtain hsame | ⟨hnone, hinfos, hidle⟩ := hrefs
  · rw [hsame]
  · have hkeys := sameKeys_foldl_attachProperty t₀ t₀.mAssociations
    have hstill : ∀ ref, ref ∈ t.mItemReferences ∨ ref ∈ u.mItemReferences →
        Idle ref (t₀.mAssociations.foldl attachProperty t₀).mItemIdToItemMap :=
      fun ref href htype => (hkeys _).mpr (hidle t₀ h ref href htype)
    have hexif : ∀ id,
        (t₀.mAssociations.foldl attachProperty t₀).mItemIdToExifMap.find? id = none := by
      intro id
      rw [foldl_attachProperty_exif, addItems_exif hinfos h]
      exact hnone id
    rw [foldl_applyReference_of_idle (fun ref href => hstill ref (.inr href)) hexif,
      foldl_applyReference_of_idle (fun ref href => hstill ref (.inl href)) hexif]

theorem build_other {u : ItemTable}
    (hidat : t.mIdatOffset = u.mIdatOffset ∧ t.mIdatSize = u.mIdatSize ∨ t.NoIdat)
    (hrefs : SameReferences source t u) :
    (t.other u).build source = (t.build source).map fun r => (r.1.other u, r.2) := by
  have hinfos : (t.other u).mItemInfos = t.mItemInfos := rfl
  rw [build_eq, build_eq, hinfos, addItems_other _ hidat]
  cases hitems : t.addItems source t.mItemInfos with
  | none => rfl
  | some r =>
    obtain ⟨t₀, err⟩ := r
    simp only [Option.map_some, Option.bind_some]
    split
    · next hok =>
      subst hok
      rw [attach_other hitems hrefs, display_other]
    · rfl

end ItemTable

end MediaFramework.Mp4.Heif
