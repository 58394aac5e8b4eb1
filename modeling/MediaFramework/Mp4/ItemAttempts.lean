import MediaFramework.Mp4.ItemRebuild
import MediaFramework.Mp4.ItemSafety

/-!
# Attempts to build the images

Boxes add to the vectors of a table, so what an attempt has left can be told from the boxes of a later
one. Where the images are built after failed attempts, they are those of a single attempt exactly if
what was left is as it would be made now, and nothing has been added to the lists.
-/

namespace MediaFramework.Mp4.Heif

/-! ### Boxes add to the vectors -/

section

variable {σ : Type} {P : σ → Prop} (source : DataSource)

theorem partway_parseChunks {onChunkData : Nat → Int → Nat → Parsing σ Unit}
    (h : ∀ type offset size, Partway P (onChunkData type offset size) (fun _ => P) P)
    (offset : Int) (size : Nat) :
    Partway P (parseChunks source onChunkData offset size) (fun _ => P) P :=
  (partway_parseChunksTo h _ _ _).bind fun _ => partway_demand _ _

theorem partway_parseProperty (type : Nat) (offset : Int) (size : Nat) :
    Partway P (IprpBox.parseProperty source type offset size) (fun _ => P) P := by
  refine .ite (fun _ => ?hvcc) fun _ => .ite (fun _ => ?ispe) fun _ => .ite (fun _ => ?irot) fun _ =>
    .ite (fun _ => ?colr) fun _ => .pure fun _ hs => hs
  case hvcc =>
    exact (partway_demand _ _).bind fun _ => (partway_expect _).bind fun _ => .pure fun _ hs => hs
  case ispe =>
    exact (partway_header _ _ _).bind fun _ => (partway_demand _ _).bind fun _ =>
      (partway_expect _).bind fun _ => (partway_expect _).bind fun _ => .pure fun _ hs => hs
  case irot =>
    exact (partway_demand _ _).bind fun _ => (partway_expect _).bind fun _ => .pure fun _ hs => hs
  case colr =>
    refine (partway_demand _ _).bind fun _ => (partway_expect _).bind fun _ => ?_
    refine .ite (fun _ => .pure fun _ hs => hs) fun _ => ?_
    exact (partway_demand _ _).bind fun _ => (partway_demand _ _).bind fun _ =>
      (partway_demand _ _).bind fun _ => .pure fun _ hs => hs

theorem partway_parseRefs (mRefIdSize n : Nat) (offset : Int) :
    Partway P (IrefBox.parseRefs source mRefIdSize n offset) (fun _ => P) P := by
  induction n generalizing offset with
  | zero => exact .pure fun _ hs => hs
  | succ n ih =>
    exact (partway_expect _).bind fun _ => (ih _).bind fun _ => .pure fun _ hs => hs

end

theorem IrefBox.partway_parse (source : DataSource) (refs : List ItemReference) (offset : Int)
    (size : Nat) : Partway (fun st => refs <+: st) (parse source offset size)
      (fun _ st => refs <+: st) fun st => refs <+: st := by
  refine (partway_header _ _ _).bind fun _ => partway_parseChunks source (fun _ _ _ => ?_) _ _
  refine Partway.bind (Q := fun _ st => refs <+: st) ?_ fun _ =>
    .modify fun st h => h.trans (List.prefix_append _ _)
  exact (partway_demand _ _).bind fun _ => (partway_expect _).bind fun _ =>
    (partway_expect _).bind fun _ => (partway_demand _ _).bind fun _ =>
      (partway_parseRefs source _ _ _).bind fun _ => .pure fun _ hs => hs

namespace IinfBox

theorem partway_grows (source : DataSource) (infos : List ItemInfo) (offset : Int) (size : Nat) :
    Partway (fun st => infos <+: st.mItemInfos) (parse source offset size)
      (fun _ st => infos <+: st.mItemInfos) fun st => infos <+: st.mItemInfos := by
  refine (partway_header _ _ _).bind fun _ => (partway_demand _ _).bind fun _ =>
    (partway_expect _).bind fun _ =>
      (partway_parseChunksTo (fun _ _ _ => ?_) _ _ _).bind fun _ => partway_demand _ _
  refine .ite (fun _ => ?_) fun _ => .pure fun _ hst => hst
  split
  · exact .modify fun st h => h.trans (List.prefix_append _ _)
  · exact partway_demand _ _

end IinfBox

namespace IprpBox

/-- What was there still comes first. -/
def Grows (properties : List ItemProperty) (associations : List AssociationEntry) (st : State) :
    Prop := properties <+: st.mProperties ∧ associations <+: st.mAssociations

variable {properties : List ItemProperty} {associations : List AssociationEntry}
  (source : DataSource)

theorem partway_parseAssociations (propIndexSize itemId n : Nat) (offset : Int) (size : Nat) :
    Partway (Grows properties associations)
      (parseAssociations source propIndexSize itemId n offset size)
      (fun _ => Grows properties associations) (Grows properties associations) := by
  induction n generalizing offset size with
  | zero => exact .pure fun _ hst => hst
  | succ n ih =>
    refine (partway_demand _ _).bind fun _ => (partway_expect _).bind fun _ => ?_
    exact Partway.bind (Q := fun _ => Grows properties associations)
      (.modify fun st hst => ⟨hst.1, hst.2.trans (List.prefix_append _ _)⟩) fun _ => ih _ _

theorem partway_parseEntries (box : FullBox) (n : Nat) (offset : Int) (size : Nat) :
    Partway (Grows properties associations) (parseEntries source box n offset size)
      (fun _ => Grows properties associations) (Grows properties associations) := by
  induction n generalizing offset size with
  | zero => exact .pure fun _ hst => hst
  | succ n ih =>
    exact (partway_demand _ _).bind fun _ => (partway_expect _).bind fun _ =>
      (partway_expect _).bind fun _ =>
        (partway_parseAssociations source _ _ _ _ _).bind fun _ => ih _ _

theorem partway_parse (offset : Int) (size : Nat) :
    Partway (Grows properties associations) (parse source offset size)
      (fun _ => Grows properties associations) (Grows properties associations) := by
  refine partway_parseChunks source (fun _ offset size => ?_) _ _
  refine .ite (fun _ => ?ipco) fun _ => .ite (fun _ => ?ipma) fun _ => .pure fun _ hst => hst
  case ipco =>
    have hadd : ∀ property, Partway (Grows properties associations)
        (modify fun st => { st with mProperties := st.mProperties ++ [property] } :
          Parsing State Unit)
        (fun _ => Grows properties associations) (Grows properties associations) :=
      fun _ => .modify fun st hst => ⟨hst.1.trans (List.prefix_append _ _), hst.2⟩
    exact (hadd _).bind fun _ => partway_parseChunks source
      (fun _ _ _ => (partway_parseProperty source _ _ _).bind fun _ => hadd _) _ _
  case ipma =>
    exact (partway_header _ _ _).bind fun _ => (partway_demand _ _).bind fun _ =>
      (partway_expect _).bind fun _ => partway_parseEntries source _ _ _ _

end IprpBox

namespace ItemTable

open ImageItem

variable {t t' u : ItemTable} {source : DataSource} {infos : List ItemInfo} {err : Status} {id : Nat}

/-- The vectors have been added to. -/
structure Grown (t t' : ItemTable) : Prop where
  infos : t.mItemInfos <+: t'.mItemInfos
  properties : t.mItemProperties <+: t'.mItemProperties
  associations : t.mAssociations <+: t'.mAssociations
  references : t.mItemReferences <+: t'.mItemReferences

theorem Grown.of_contents (h : t'.toContents = t.toContents) : Grown t t' := by
  refine ⟨?_, ?_, ?_, ?_⟩ <;> rw [h]

theorem read_grown (t : ItemTable) (source : DataSource) (b : Box) :
    Grown t (t.read source b).1 := by
  have hrefl : ∀ {α : Type} (l : List α), l <+: l := fun l => List.prefix_refl l
  rw [read]
  split_ifs
  · exact ⟨hrefl _, hrefl _, hrefl _, hrefl _⟩
  · exact ⟨(IinfBox.partway_grows source t.mItemInfos _ _).ends _ (hrefl _), hrefl _, hrefl _,
      hrefl _⟩
  · have hgrows := (@IprpBox.partway_parse t.mItemProperties t.mAssociations source b.offset
      b.size).ends ⟨t.mItemProperties, t.mAssociations⟩ ⟨hrefl _, hrefl _⟩
    obtain ⟨hproperties, hassociations⟩ := hgrows
    exact ⟨hrefl _, hproperties, hassociations, hrefl _⟩
  · refine Grown.of_contents ?_
    rw [readPitm]
    split <;> rfl
  · exact ⟨hrefl _, hrefl _, hrefl _, hrefl _⟩
  · exact ⟨hrefl _, hrefl _, hrefl _,
      (IrefBox.partway_parse source t.mItemReferences _ _).ends _ (hrefl _)⟩
  · exact Grown.of_contents rfl

/-! ### What an attempt leaves -/

/-- The table as it would be before the first attempt. -/
def fresh (t : ItemTable) : ItemTable :=
  { t with mItemIdToItemMap := .empty, mItemIdToExifMap := .empty, mDisplayables := [] }

/-- The maps and the displayable images are those of a single attempt. -/
def AsFirst (source : DataSource) (t t' : ItemTable) : Prop :=
  ∃ u, t.fresh.build source = some (u, .OK) ∧ t'.mItemIdToItemMap = u.mItemIdToItemMap ∧
    t'.mItemIdToExifMap = u.mItemIdToExifMap ∧ t'.mDisplayables = u.mDisplayables

/-- What was left is as it would be made now, and nothing has been added to the lists of an image. -/
structure Current (source : DataSource) (t : ItemTable) : Prop where
  images : ∀ id left, t.mItemIdToItemMap.find? id = some left → ∃ image,
    t.imageOf source id = some image ∧ left.rows = image.rows ∧ left.columns = image.columns ∧
      left.offset = image.offset ∧ left.size = image.size ∧ left.dimgRefs = [] ∧
      left.thumbnails = [] ∧ left.cdscRefs = []
  exifs : ∀ id, (t.mItemIdToItemMap.find? id).isSome →
    t.mItemIdToExifMap.find? id = t.exifOf id
  noOther : ∀ id, (t.mItemIdToExifMap.find? id).isSome → (t.exifOf id).isSome

/-- An image that an attempt has left, where its properties and references are still there. -/
structure Left (t : ItemTable) (id : Nat) (left : ImageItem) : Prop where
  info : ∃ info, firstImage t.mItemInfos id = some info ∧ left.type = info.itemType ∧
    left.itemId = info.itemId ∧ (info.hidden = true → left.hidden = true) ∧
    (left.hidden = true → info.hidden = true ∨ (t.effects id).hide = true)
  tile : left.nextTileIndex = 0
  properties : ∃ ps, (∀ p ∈ ps, p ∈ t.propertiesOf id) ∧ left = attachAll ps left.bare

theorem firstImage_of_prefix {infos' : List ItemInfo} {info : ItemInfo} (hgrown : infos <+: infos')
    (h : firstImage infos id = some info) : firstImage infos' id = some info := by
  obtain ⟨rest, rfl⟩ := hgrown
  rw [firstImage] at h
  rw [firstImage, List.find?_append, h, Option.some_or]

theorem mem_propertiesOf {property : ItemProperty} : property ∈ t.propertiesOf id ↔
    ∃ association ∈ t.mAssociations, association.itemId = id ∧
      t.mItemProperties[association.index]? = some property := by
  rw [propertiesOf, List.mem_filterMap]
  refine exists_congr fun association => and_congr_right fun _ => ?_
  by_cases hid : association.itemId = id
  · rw [if_pos hid, and_iff_right hid]
  · rw [if_neg hid]
    exact ⟨fun h => (by cases h), fun h => absurd h.1 hid⟩

theorem Grown.mem_propertiesOf (h : Grown t t') {property : ItemProperty}
    (hmem : property ∈ t.propertiesOf id) : property ∈ t'.propertiesOf id := by
  obtain ⟨association, hassociation, hid, hproperty⟩ := ItemTable.mem_propertiesOf.mp hmem
  refine ItemTable.mem_propertiesOf.mpr ⟨association, h.associations.subset hassociation, hid, ?_⟩
  obtain ⟨rest, hrest⟩ := h.properties
  obtain ⟨hlt, -⟩ := List.getElem?_eq_some_iff.mp hproperty
  rw [← hrest, List.getElem?_append_left hlt]
  exact hproperty

theorem effectOf_hide {refs : List ItemReference} {isImage isExif : Nat → Bool} :
    (effectOf refs isImage isExif id).hide = true ↔
      ∃ ref ∈ refs, (ref.effect isImage isExif id).hide = true := by
  induction refs with
  | nil => exact ⟨fun h => (by cases h), fun ⟨_, hmem, _⟩ => (by cases hmem)⟩
  | cons ref refs ih =>
    rw [List.exists_mem_cons_iff, ← ih]
    exact Bool.or_eq_true_iff

/-- With more images, references hide more of them. -/
theorem effect_hide_mono {ref : ItemReference} {isImage isImage' isExif isExif' : Nat → Bool}
    (hmore : ∀ k, isImage k = true → isImage' k = true)
    (h : (ref.effect isImage isExif id).hide = true) :
    (ref.effect isImage' isExif' id).hide = true := by
  rw [ItemReference.effect] at h ⊢
  split at h
  · next hdimg =>
    split at h
    · next himage => rwa [if_pos hdimg, if_pos (hmore _ himage)]
    · cases h
  · next hdimg =>
    rw [if_neg hdimg]
    split at h
    · next hthmb =>
      split at h
      · next himage => rwa [if_pos hthmb, if_pos (hmore _ himage)]
      · cases h
    · next hthmb =>
      rw [if_neg hthmb]
      split at h
      · split at h <;> cases h
      · next hcdsc => rwa [if_neg hcdsc]

theorem Grown.effects_hide (h : Grown t t')
    (hkeys : ∀ k, keysOf t.mItemIdToItemMap k = true → keysOf t'.mItemIdToItemMap k = true)
    (hhide : (t.effects id).hide = true) : (t'.effects id).hide = true := by
  obtain ⟨ref, href, hhide⟩ := effectOf_hide.mp hhide
  exact effectOf_hide.mpr ⟨ref, h.references.subset href, effect_hide_mono hkeys hhide⟩

/-- An image that was left stays as it is when boxes are read and other images are added. -/
theorem Left.mono {left : ImageItem} (h : Left t id left) (hgrown : Grown t t')
    (hkeys : ∀ k, keysOf t.mItemIdToItemMap k = true → keysOf t'.mItemIdToItemMap k = true) :
    Left t' id left := by
  obtain ⟨info, hfirst, htype, hid, hshown, hhidden⟩ := h.info
  obtain ⟨ps, hps, hleft⟩ := h.properties
  exact ⟨⟨info, firstImage_of_prefix hgrown.infos hfirst, htype, hid, hshown,
      fun hhide => (hhidden hhide).imp_right (hgrown.effects_hide hkeys)⟩,
    h.tile, ps, fun p hp => hgrown.mem_propertiesOf (hps p hp), hleft⟩

/-- A new image. -/
theorem Left.new {image : ImageItem} (hfirst : t.imageIn source infos id = some image)
    (hinfos : infos <+: t.mItemInfos) : Left t id image := by
  obtain ⟨place, -, hfirst⟩ := Option.bind_eq_some_iff.mp hfirst
  obtain ⟨info, hfirst, himage⟩ := Option.bind_eq_some_iff.mp hfirst
  obtain ⟨hid, htype, hhidden, hbare, htile, -⟩ := imageAt_base himage
  refine ⟨⟨info, firstImage_of_prefix hinfos hfirst, htype, hid, fun h => hhidden.trans h,
    fun h => .inl (hhidden.symm.trans h)⟩, htile, [], fun p hp => (by cases hp), hbare.symm⟩

/-- Attaching its properties and references. -/
theorem Left.attach {left : ImageItem} (h : Left t id left) :
    Left t id ((attachAll (t.propertiesOf id) left).affect (t.effects id)) := by
  obtain ⟨info, hfirst, htype, hid, hshown, hhidden⟩ := h.info
  obtain ⟨ps, hps, hleft⟩ := h.properties
  have hbare : (attachAll (t.propertiesOf id) left).bare = left.bare := bare_attachAll _ _
  have hfield : ∀ {α : Type} (field : ImageItem → α),
      field (attachAll (t.propertiesOf id) left).bare = field left.bare := fun field =>
    congrArg field hbare
  refine ⟨⟨info, hfirst, (hfield type).trans htype, (hfield itemId).trans hid, fun h => ?_,
    fun h => ?_⟩, (hfield nextTileIndex).trans h.tile, t.propertiesOf id, fun p hp => hp, ?_⟩
  · have hsame : (attachAll (t.propertiesOf id) left).hidden = left.hidden := hfield ImageItem.hidden
    exact Bool.or_eq_true_iff.mpr (.inl (hsame.trans (hshown h)))
  · have hsame : (attachAll (t.propertiesOf id) left).hidden = left.hidden := hfield ImageItem.hidden
    obtain hold | hnew := Bool.or_eq_true_iff.mp h
    · exact hhidden (hsame.symm.trans hold)
    · exact .inr hnew
  · calc (attachAll (t.propertiesOf id) left).affect (t.effects id)
        = (attachAll (t.propertiesOf id) left.bare).affect (t.effects id) := by
          rw [hleft, attachAll_attachAll hps, bare_attachAll]
          rfl
      _ = attachAll (t.propertiesOf id) (left.bare.affect (t.effects id)) :=
        (attachAll_affect _ _ _).symm
      _ = _ := by
        rw [← hbare]
        rfl

/-- Only images with their properties and references, as long as there are no valid ones. -/
structure Waiting (t : ItemTable) : Prop where
  displayables : t.mDisplayables = []
  items : ∀ id left, t.mItemIdToItemMap.find? id = some left → Left t id left

theorem Waiting.of_grown (h : Waiting t) (hgrown : Grown t t')
    (hitems : t'.mItemIdToItemMap = t.mItemIdToItemMap) (hnone : t'.mDisplayables = []) :
    Waiting t' := by
  refine ⟨hnone, fun id left hleft => ?_⟩
  rw [hitems] at hleft
  refine (h.items id left hleft).mono hgrown fun k hk => ?_
  rw [hitems]
  exact hk

/-- A turn of the loop that ends it changes nothing. -/
theorem addItem_error {info : ItemInfo} (h : t.addItem source info = some (t', err))
    (herr : err ≠ .OK) : t' = t := by
  rw [addItem] at h
  cases hloc : t.locOf info with
  | none =>
    rw [hloc] at h
    cases h
    exact absurd rfl herr
  | some iloc =>
    simp only [hloc, Option.bind_eq_bind, Option.bind_eq_some_iff] at h
    obtain ⟨r, -, h⟩ := h
    cases r with
    | error e =>
      cases h
      rfl
    | ok place =>
      dsimp only at h
      split at h
      · split at h <;> cases h <;> exact absurd rfl herr
      · have h := Option.some.inj h
        rw [addLocated] at h
        dsimp only at h
        split at h
        · split at h
          · cases h
            rfl
          · split at h <;> cases h
            · rfl
            · exact absurd rfl herr
        · cases h
          exact absurd rfl herr

/-- What the loop does until an error is what it does for the items before. -/
theorem addItems_before (h : t.addItems source infos = some (t', err)) :
    ∃ done, done <+: infos ∧ t.addItems source done = some (t', .OK) := by
  induction infos generalizing t with
  | nil =>
    cases h
    exact ⟨[], List.prefix_refl _, rfl⟩
  | cons info infos ih =>
    rw [addItems_cons, Option.bind_eq_some_iff] at h
    obtain ⟨⟨t₁, err₁⟩, hitem, h⟩ := h
    split at h
    · next hok =>
      dsimp only at hok
      subst hok
      obtain ⟨done, hdone, hrun⟩ := ih h
      refine ⟨info :: done, List.cons_prefix_cons.mpr ⟨rfl, hdone⟩, ?_⟩
      rw [addItems_of_added (addItem_eq_ok_iff.mp hitem)]
      exact hrun
    · next hbad =>
      cases h
      refine ⟨[], List.nil_prefix, ?_⟩
      rw [addItem_error hitem hbad]
      rfl

theorem Waiting.addItems (h : Waiting t) (hrun : t.addItems source t.mItemInfos = some (t', err)) :
    Waiting t' := by
  have hkept := addItems_kept hrun
  obtain ⟨done, hdone, hrun⟩ := addItems_before hrun
  refine ⟨hkept.displayables.trans h.displayables, fun id left hleft => ?_⟩
  have hgrown : Grown t t' := Grown.of_contents hkept.contents
  have hkeys : ∀ k, keysOf t.mItemIdToItemMap k = true → keysOf t'.mItemIdToItemMap k = true := by
    intro k hk
    rw [keysOf, addItems_items hrun, Option.isSome_or]
    exact Bool.or_eq_true_iff.mpr (.inl hk)
  rw [addItems_items hrun] at hleft
  obtain hold | ⟨-, hnew⟩ := Option.or_eq_some_iff.mp hleft
  · exact (h.items id left hold).mono hgrown hkeys
  · rw [← imageIn_congr hkept.contents] at hnew
    refine Left.new hnew ?_
    rw [hkept.contents]
    exact hdone

theorem Waiting.attach (h : Waiting t) : Waiting t.attach := by
  have hkept := attach_kept t
  refine ⟨hkept.displayables.trans h.displayables, fun id left hleft => ?_⟩
  rw [find?_attach] at hleft
  obtain ⟨image, himage, rfl⟩ := Option.map_eq_some_iff.mp hleft
  refine (h.items id image himage).attach.mono (Grown.of_contents hkept.contents) fun k hk => ?_
  rw [keysOf_attach]
  exact hk

/-- A failed attempt leaves images without displayable ones. -/
theorem Waiting.build (h : Waiting t) (hbuild : t.build source = some (t', err)) :
    t'.mImageItemsValid = true ∨ Waiting t' := by
  rw [build_eq, Option.bind_eq_some_iff] at hbuild
  obtain ⟨⟨t₀, err₀⟩, hitems, hbuild⟩ := hbuild
  have h₀ := h.addItems hitems
  split at hbuild
  · have h₁ := h₀.attach
    dsimp only at hbuild
    rw [display] at hbuild
    split at hbuild
    · next hnone =>
      cases hbuild
      exact .inr (h₁.of_grown (Grown.of_contents rfl) rfl hnone)
    · obtain ⟨primary, -, hbuild⟩ := Option.map_eq_some_iff.mp hbuild
      cases hbuild
      exact .inl rfl
  · cases hbuild
    exact .inr h₀

theorem parse_cases {b : Box} (hinvalid : t.mImageItemsValid = false)
    (hparse : t.parse source b = some (t', err)) :
    t' = (t.read source b).1 ∨ t' = (t.read source b).1.withSeen b.type ∨
      ((t.read source b).1.withSeen b.type).build source = some (t', err) := by
  have hread := (read_valid t source b).trans hinvalid
  rw [parse_eq] at hparse
  split at hparse
  · rw [buildImageItemsIfPossible_eq _ _ _ hread] at hparse
    split at hparse
    · exact .inr (.inr hparse)
    · cases hparse
      exact .inr (.inl rfl)
  · exact .inl (congrArg Prod.fst (Option.some.inj hparse)).symm

theorem Waiting.read (h : Waiting t) (source : DataSource) (b : Box) :
    Waiting (t.read source b).1 := by
  have himages := (read_images t source b).1
  refine h.of_grown (read_grown t source b) ?_ ?_ <;> rw [himages]
  exact h.displayables

theorem Waiting.withSeen (h : Waiting t) (type : Nat) : Waiting (t.withSeen type) :=
  h.of_grown (Grown.of_contents rfl) rfl h.displayables

theorem Waiting.parse {b : Box} (h : t.mImageItemsValid = true ∨ Waiting t)
    (hparse : t.parse source b = some (t', err)) : t'.mImageItemsValid = true ∨ Waiting t' := by
  cases hvalid : t.mImageItemsValid with
  | true =>
    have hread := (read_valid t source b).trans hvalid
    rw [parse_eq, buildImageItemsIfPossible, if_pos hread] at hparse
    refine .inl ?_
    split at hparse
    · cases hparse
      exact hread
    · rw [Option.some.inj hparse] at hread
      exact hread
  | false =>
    have h := (h.resolve_left (by rw [hvalid]; exact Bool.false_ne_true)).read source b
    obtain rfl | rfl | hbuild := parse_cases hvalid hparse
    · exact .inr h
    · exact .inr (h.withSeen b.type)
    · exact (h.withSeen b.type).build hbuild

/-! ### After failed attempts -/

theorem fresh_outcome (h : Outcome source t.fresh u) (id : Nat) :
    u.mItemIdToItemMap.find? id = (t.imageOf source id).map (fun image =>
      (attachAll (t.propertiesOf id) image).affect (u.effects id)) ∧
    u.mItemIdToExifMap.find? id = t.exifOf id := by
  have hitems := h.items id
  have hexifs := h.exifs id
  have hnone : t.fresh.mItemIdToItemMap.find? id = none := KeyedVector.find?_empty id
  have hnone' : t.fresh.mItemIdToExifMap.find? id = none := KeyedVector.find?_empty id
  rw [hnone, Option.none_or] at hitems
  rw [hnone, hnone', Option.isSome_none, if_neg Bool.false_ne_true, Option.or_none] at hexifs
  exact ⟨hitems, hexifs⟩


theorem Left.again {left image : ImageItem} {e : Effect} (h : Left t id left)
    (himage : t.imageOf source id = some image)
    (hhide : (t.effects id).hide = true → e.hide = true) :
    (attachAll (t.propertiesOf id) left).affect e = (attachAll (t.propertiesOf id) image).affect e ↔
      left.rows = image.rows ∧ left.columns = image.columns ∧ left.offset = image.offset ∧
        left.size = image.size ∧ left.dimgRefs = [] ∧ left.thumbnails = [] ∧ left.cdscRefs = [] := by
  obtain ⟨place, -, hfirst⟩ := Option.bind_eq_some_iff.mp himage
  obtain ⟨info, hfirst, himage⟩ := Option.bind_eq_some_iff.mp hfirst
  obtain ⟨hid, htype, hhidden, hbare, htile, hlists⟩ := imageAt_base himage
  obtain ⟨info', hfirst', htype', hid', hshown', hhidden'⟩ := h.info
  rw [hfirst] at hfirst'
  obtain rfl := Option.some.inj hfirst'
  obtain ⟨ps, hps, hleft⟩ := h.properties
  refine attachAll_eq_iff hps hleft hbare (htype'.trans htype.symm) (hid'.trans hid.symm)
    (h.tile.trans htile.symm) ?_ hlists
  rw [hhidden, Bool.eq_iff_iff, Bool.or_eq_true_iff, Bool.or_eq_true_iff]
  constructor
  · rintro (hold | he)
    · exact (hhidden' hold).imp_right hhide
    · exact .inr he
  · rintro (hold | he)
    · exact .inl (hshown' hold)
    · exact .inr he

/-- References hide no less with the images that an attempt adds. -/
theorem Outcome.effects_hide (h : Outcome source t t') (id : Nat)
    (hhide : (t.effects id).hide = true) : (t'.effects id).hide = true := by
  refine (Grown.of_contents h.contents).effects_hide (fun k hk => ?_) hhide
  rw [keysOf, h.items, Option.isSome_map, Option.isSome_or]
  exact Bool.or_eq_true_iff.mpr (.inl hk)

theorem current_of_asFirst (h : Waiting t) (hbuild : t.build source = some (t', .OK))
    (hfirst : AsFirst source t t') : Current source t := by
  obtain ⟨u, hfresh, hitems, hexifs, -⟩ := hfirst
  have hT := build_outcome hbuild
  have hfreshU := build_outcome hfresh
  have hU := fresh_outcome hfreshU
  have heffects : ∀ id, u.effects id = t'.effects id := by
    refine effects_congr (hfreshU.contents.trans hT.contents.symm) ?_ ?_
    · rw [hitems]
    · rw [hexifs]
  have hexif : ∀ id, t.exifOf id =
      if (t.mItemIdToItemMap.find? id).isSome then t.mItemIdToExifMap.find? id
      else (t.exifOf id).or (t.mItemIdToExifMap.find? id) := by
    intro id
    rw [← hT.exifs, hexifs, (hU id).2]
  refine ⟨fun id left hleft => ?_, fun id hsome => ?_, fun id hsome => ?_⟩
  · have hsame := hT.items id
    rw [hleft, Option.some_or, Option.map_some, hitems, (hU id).1] at hsame
    obtain ⟨image, himage, hsame⟩ := Option.map_eq_some_iff.mp hsame
    rw [heffects] at hsame
    exact ⟨image, himage,
      ((h.items id left hleft).again himage (hT.effects_hide id)).mp hsame.symm⟩
  · rw [hexif, if_pos hsome]
  · rw [hexif]
    split
    · exact hsome
    · rw [Option.isSome_or, hsome, Bool.or_true]

theorem asFirst_of_current (h : Waiting t) (hbuild : t.build source = some (t', .OK))
    (hcurrent : Current source t) : AsFirst source t t' := by
  obtain ⟨t₀, hitems, hdisplay⟩ := build_ok_iff.mp hbuild
  have hsome : ∀ id, (t.mItemIdToItemMap.find? id).isSome → (t.imageOf source id).isSome := by
    intro id hold
    obtain ⟨left, hleft⟩ := Option.isSome_iff_exists.mp hold
    obtain ⟨image, himage, -⟩ := hcurrent.images id left hleft
    rw [himage, Option.isSome_some]
  obtain ⟨u₀, hitems'⟩ : ∃ u₀, t.fresh.addItems source t.mItemInfos = some (u₀, .OK) := by
    refine addItems_transfer hitems rfl fun id hany => ?_
    show (t.imageOf source id).isSome
    rw [Option.isSome_or, Bool.or_eq_true_iff] at hany
    exact hany.elim (hsome id) fun hnew => hnew
  have hT := outcome_attach hitems
  have hfreshU : Outcome source t.fresh u₀.attach := outcome_attach hitems'
  have hU := fresh_outcome hfreshU
  have hexifs : u₀.attach.mItemIdToExifMap = t₀.attach.mItemIdToExifMap := by
    refine KeyedVector.ext_find? fun id => ?_
    rw [(hU id).2, hT.exifs]
    split
    · next hold => exact (hcurrent.exifs id hold).symm
    · cases hold : t.mItemIdToExifMap.find? id with
      | none => rw [Option.or_none]
      | some exif =>
        obtain ⟨exif', hexif'⟩ :=
          Option.isSome_iff_exists.mp (hcurrent.noOther id (by rw [hold, Option.isSome_some]))
        rw [hexif', Option.some_or]
  have hkeys : keysOf u₀.attach.mItemIdToItemMap = keysOf t₀.attach.mItemIdToItemMap := by
    funext id
    rw [keysOf, keysOf, (hU id).1, hT.items, Option.isSome_map, Option.isSome_map, Option.isSome_or]
    cases hold : (t.mItemIdToItemMap.find? id).isSome with
    | false => rw [Bool.false_or]
    | true => rw [hsome id hold, Bool.or_self]
  have heffects : ∀ id, u₀.attach.effects id = t₀.attach.effects id :=
    effects_congr (hfreshU.contents.trans hT.contents.symm) hkeys (by rw [hexifs])
  have himages : u₀.attach.mItemIdToItemMap = t₀.attach.mItemIdToItemMap := by
    refine KeyedVector.ext_find? fun id => ?_
    rw [(hU id).1, hT.items, heffects]
    cases hold : t.mItemIdToItemMap.find? id with
    | none => rw [Option.none_or]
    | some left =>
      obtain ⟨image, himage, hsame⟩ := hcurrent.images id left hold
      have hagain := ((h.items id left hold).again himage (hT.effects_hide id)).mpr hsame
      rw [Option.some_or, himage, Option.map_some, Option.map_some, hagain]
  have hkeptT := (addItems_kept hitems).trans (attach_kept t₀)
  have hkeptU := (addItems_kept hitems').trans (attach_kept u₀)
  obtain ⟨u, hdisplay', hsame⟩ := display_congr hdisplay himages hexifs
    (hkeptU.primary.trans hkeptT.primary.symm)
    (hkeptU.displayables.trans (hkeptT.displayables.trans h.displayables).symm)
  exact ⟨u, build_ok_iff.mpr ⟨u₀, hitems', hdisplay'⟩, hsame⟩

/-! ### Runs -/

/-- The table after calls of `parse`, whatever they return. -/
def parseAny (source : DataSource) : ItemTable → List Box → Option ItemTable
  | t, [] => some t
  | t, b :: bs => (t.parse source b).bind fun r => parseAny source r.1 bs

/-- The table of a call that goes on to build the images, once its box has been read. -/
def received (source : DataSource) (t : ItemTable) (b : Box) : ItemTable :=
  (t.read source b).1.withSeen b.type

theorem waiting_parseAny {bs : List Box} (h : t.mImageItemsValid = true ∨ Waiting t)
    (hrun : parseAny source t bs = some t') : t'.mImageItemsValid = true ∨ Waiting t' := by
  induction bs generalizing t with
  | nil =>
    cases hrun
    exact h
  | cons b bs ih =>
    obtain ⟨⟨t₁, err⟩, hparse, hrun⟩ := Option.bind_eq_some_iff.mp hrun
    exact ih (Waiting.parse h hparse) hrun

/-- Where a call makes the images valid, they are those of a single attempt on what the table has then
exactly if what earlier attempts have left is current. -/
theorem asFirst_iff_current {bs : List Box} {b : Box} (hrun : parseAny source {} bs = some t)
    (hinvalid : t.mImageItemsValid = false) (hparse : t.parse source b = some (t', .OK))
    (hvalid : t'.mImageItemsValid = true) :
    AsFirst source (t.received source b) t' ↔ Current source (t.received source b) := by
  have hstart : Waiting {} := ⟨rfl, fun id left hleft => (by cases hleft)⟩
  have hwaiting : Waiting t := (waiting_parseAny (.inr hstart) hrun).resolve_left (by
    rw [hinvalid]
    exact Bool.false_ne_true)
  have hread := (read_valid t source b).trans hinvalid
  have hbuild : (t.received source b).build source = some (t', .OK) := by
    obtain rfl | rfl | hbuild := parse_cases hinvalid hparse
    · exact absurd (hread.symm.trans hvalid) Bool.false_ne_true
    · exact absurd (hread.symm.trans hvalid) Bool.false_ne_true
    · exact hbuild
  have hready := (hwaiting.read source b).withSeen b.type
  exact ⟨current_of_asFirst hready hbuild, asFirst_of_current hready hbuild⟩

/-! ### A thumbnail that is added twice -/

/-- Two hidden images, the second of which is the thumbnail of the first, and two primary items. The
one at the end is not there. -/
def hiddenImages : DataSource := fileOf
  [0, 0, 0, 0, 0, 1,
    0, 0, 0, 0, 0, 0, 0, 2, 0, 1, 0, 0, 0, 1, 0, 2, 0, 0, 0, 1,
    0, 0, 0, 0, 0, 2,
    0, 0, 0, 21, 105, 110, 102, 101, 2, 0, 0, 1, 0, 1, 0, 0, 104, 118, 99, 49, 0,
    0, 0, 0, 21, 105, 110, 102, 101, 2, 0, 0, 1, 0, 2, 0, 0, 104, 118, 99, 49, 0,
    0, 0, 0, 0, 0, 0, 0, 14, 116, 104, 109, 98, 0, 2, 0, 1, 0, 1,
    0, 0, 0, 0, 0, 3]

def wrongPrimary : List Box :=
  [boxOf .pitm 92 6, boxOf .iref 74 18, boxOf .iloc 6 20, boxOf .iinf 26 48, boxOf .iprp 74 0]

def thumbnailsOf (t : ItemTable) : Option (List Nat) :=
  (t.mItemIdToItemMap.find? 1).map fun image => image.thumbnails

/-- The attempt without a displayable image has added the thumbnail, and the next one adds it again. -/
theorem hiddenImages_run : ∃ t t', parseAny hiddenImages {} wrongPrimary = some t ∧
    t.mImageItemsValid = false ∧ t.parse hiddenImages (boxOf .pitm 0 6) = some (t', .OK) ∧
    t'.mImageItemsValid = true ∧ thumbnailsOf t' = some [2, 2] ∧
    ((t.received hiddenImages (boxOf .pitm 0 6)).fresh.build hiddenImages).map
      (fun r => thumbnailsOf r.1) = some (some [2]) := by
  have hrun : (parseAny hiddenImages {} wrongPrimary).any (fun t =>
      !t.mImageItemsValid && (t.parse hiddenImages (boxOf .pitm 0 6)).any (fun r =>
        r.2 == .OK && r.1.mImageItemsValid && thumbnailsOf r.1 == some [2, 2]) &&
      ((t.received hiddenImages (boxOf .pitm 0 6)).fresh.build hiddenImages).map
        (fun r => thumbnailsOf r.1) == some (some [2])) = true := by
    decide +kernel
  obtain ⟨t, ht, hrun⟩ := (Option.any_eq_true _ _).mp hrun
  simp only [Bool.and_eq_true, Bool.not_eq_true', beq_iff_eq] at hrun
  obtain ⟨⟨hinvalid, hparse⟩, hfresh⟩ := hrun
  obtain ⟨⟨t', err⟩, hparse, hend⟩ := (Option.any_eq_true _ _).mp hparse
  simp only [Bool.and_eq_true, beq_iff_eq] at hend
  obtain ⟨⟨rfl, hvalid⟩, hthumbnails⟩ := hend
  exact ⟨t, t', ht, hinvalid, hparse, hvalid, hthumbnails, hfresh⟩

/-- Without the reference a second attempt finds the images as the first one has made them. -/
theorem asFirst_iff_current_hiddenImages :
    (∃ t t', parseAny hiddenImages {}
          [boxOf .pitm 92 6, boxOf .iloc 6 20, boxOf .iinf 26 48, boxOf .iprp 74 0] = some t ∧
        t.mItemIdToItemMap.size = 2 ∧ t.parse hiddenImages (boxOf .pitm 0 6) = some (t', .OK) ∧
        Current hiddenImages (t.received hiddenImages (boxOf .pitm 0 6))) ∧
      ∃ t t', parseAny hiddenImages {} wrongPrimary = some t ∧
        t.parse hiddenImages (boxOf .pitm 0 6) = some (t', .OK) ∧
        ¬Current hiddenImages (t.received hiddenImages (boxOf .pitm 0 6)) := by
  constructor
  · have hrun : (parseAny hiddenImages {}
        [boxOf .pitm 92 6, boxOf .iloc 6 20, boxOf .iinf 26 48, boxOf .iprp 74 0]).any (fun t =>
        decide (t.mImageItemsValid = false ∧ t.mItemIdToItemMap.size = 2) &&
          (t.parse hiddenImages (boxOf .pitm 0 6)).any fun r =>
            decide (r.2 = .OK ∧ r.1.mImageItemsValid = true) &&
            ((t.received hiddenImages (boxOf .pitm 0 6)).fresh.build hiddenImages).any fun u =>
              decide (u.2 = .OK ∧ r.1.mItemIdToItemMap = u.1.mItemIdToItemMap ∧
                r.1.mItemIdToExifMap = u.1.mItemIdToExifMap ∧
                r.1.mDisplayables = u.1.mDisplayables)) = true := by
      decide +kernel
    simp only [Option.any_eq_true, Bool.and_eq_true, decide_eq_true_eq, Prod.exists] at hrun
    obtain ⟨t, ht, ⟨hinvalid, hsize⟩, t', err, hparse, ⟨rfl, hvalid⟩, u, err, hbuild, rfl, hsame⟩ :=
      hrun
    exact ⟨t, t', ht, hsize, hparse,
      (asFirst_iff_current ht hinvalid hparse hvalid).mp ⟨u, hbuild, hsame⟩⟩
  · obtain ⟨t, t', hrun, hinvalid, hparse, hvalid, htwice, hfresh⟩ := hiddenImages_run
    refine ⟨t, t', hrun, hparse, fun hcurrent => ?_⟩
    obtain ⟨u, hbuild, hitems, -⟩ := (asFirst_iff_current hrun hinvalid hparse hvalid).mpr hcurrent
    rw [hbuild, Option.map_some] at hfresh
    rw [thumbnailsOf, hitems] at htwice
    have hsame : some [2] = some [2, 2] := (Option.some.inj hfresh).symm.trans htwice
    exact absurd hsame (by decide)

theorem thumbnail_twice :
    ((parseAny hiddenImages {} wrongPrimary.dropLast).bind fun t =>
      t.parse hiddenImages (boxOf .iprp 74 0)).map Prod.snd = some .ERROR_MALFORMED ∧
    ∃ t t', parseAny hiddenImages {} wrongPrimary = some t ∧
    t.mImageItemsValid = false ∧ t.parse hiddenImages (boxOf .pitm 0 6) = some (t', .OK) ∧
    t'.mImageItemsValid = true ∧
    ¬ AsFirst hiddenImages (t.received hiddenImages (boxOf .pitm 0 6)) t' := by
  obtain ⟨t, t', hrun, hinvalid, hparse, hvalid, htwice, hfresh⟩ := hiddenImages_run
  refine ⟨by decide +kernel, t, t', hrun, hinvalid, hparse, hvalid, ?_⟩
  rintro ⟨u, hbuild, hitems, -⟩
  rw [hbuild, Option.map_some] at hfresh
  rw [thumbnailsOf, hitems] at htwice
  have hsame : some [2] = some [2, 2] := (Option.some.inj hfresh).symm.trans htwice
  exact absurd hsame (by decide)

end ItemTable

end MediaFramework.Mp4.Heif
