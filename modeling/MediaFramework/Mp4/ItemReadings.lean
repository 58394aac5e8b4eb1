import MediaFramework.Mp4.ItemTable
import MediaFramework.Lib.Partway
import Mathlib.Data.Finset.Lattice.Lemmas

/-!
# What the boxes of an item table say of themselves

The boxes that `iloc` and `iinf` make required are those that the items need, and each box fills its
own part of the table.
-/

namespace MediaFramework.Mp4.Heif

section

variable {σ α : Type} {P : σ → Prop}

theorem partway_demand (c : Prop) [Decidable c] (err : Status) :
    Partway P (demand c err) (fun _ => P) P :=
  .ite (fun _ => .pure fun _ hs => hs) fun _ => .throw fun _ hs => hs

theorem partway_expect (x : Option α) : Partway P (expect x) (fun _ => P) P := by
  cases x with
  | none => exact .throw fun _ hs => hs
  | some a => exact .pure fun _ hs => hs

theorem partway_header (source : DataSource) (offset : Int) (size : Nat) :
    Partway P (parseFullBoxHeader source offset size) (fun _ => P) P :=
  (partway_demand _ _).bind fun _ => (partway_expect _).bind fun _ =>
    (partway_expect _).bind fun _ => .pure fun _ hs => hs

/-- A chunk and the next chunks keep what the handler of their data keeps. -/
theorem partway_parseChunk {source : DataSource} {onChunkData : Nat → Int → Nat → Parsing σ Unit}
    (h : ∀ type offset size, Partway P (onChunkData type offset size) (fun _ => P) P)
    (offset : Int) : Partway P (parseChunk source onChunkData offset) (fun _ => P) P := by
  refine (partway_demand _ _).bind fun _ => (partway_demand _ _).bind fun _ => ?_
  refine Partway.bind (Q := fun _ => P) ?_ fun _ => (partway_demand _ _).bind fun _ =>
    (h _ _ _).bind fun _ => .pure fun _ hs => hs
  split
  · exact .throw fun _ hs => hs
  · exact (partway_demand _ _).bind fun _ => (partway_demand _ _).bind fun _ => .pure fun _ hs => hs
  · exact (partway_demand _ _).bind fun _ => .pure fun _ hs => hs

theorem partway_parseChunksTo {source : DataSource} {onChunkData : Nat → Int → Nat → Parsing σ Unit}
    (h : ∀ type offset size, Partway P (onChunkData type offset size) (fun _ => P) P)
    (stopOffset : Int) (n : Nat) (offset : Int) :
    Partway P (parseChunksTo source onChunkData stopOffset n offset) (fun _ => P) P := by
  induction n generalizing offset with
  | zero => exact .pure fun _ hs => hs
  | succ n ih =>
    refine .ite (fun _ => ?_) fun _ => .pure fun _ hs => hs
    exact (partway_parseChunk h offset).bind fun offset => ih offset

end

/-! ### `iloc` -/

namespace IlocBox

/-- Unless the box has said so, no item has construction method 1. -/
def Said (st : State) : Prop :=
  st.mHasConstructMethod1 = false →
    ∀ id loc, st.mItemLocs.find? id = some loc → loc.constructionMethod ≠ 1

def SaidOf (construction_method : Nat) (st : State) : Prop :=
  Said st ∧ (construction_method = 1 → st.mHasConstructMethod1 = true)

theorem SaidOf.set {m : Nat} {st : State} (h : SaidOf m st) {item : ItemLoc}
    (hitem : item.constructionMethod = m) (id : Nat) :
    SaidOf m { st with mItemLocs := st.mItemLocs.set id item } := by
  refine ⟨fun hflag id' loc hloc hone => ?_, h.2⟩
  rw [KeyedVector.find?_set] at hloc
  split at hloc
  · cases hloc
    rw [h.2 (hitem ▸ hone)] at hflag
    cases hflag
  · exact h.1 hflag id' loc hloc hone

variable {P E : State → Prop} (source : DataSource) (s : Sizes)

theorem partway_field (hE : ∀ st, P st → E st) (default size : Nat) (offset : Int) :
    Partway P (field source default size offset) (fun _ => P) E :=
  .ite (fun _ => ((partway_expect _).weaken (fun _ h => h) (fun _ _ h => h) hE).bind fun _ =>
    .pure fun _ hs => hs) fun _ => .pure fun _ hs => hs

theorem partway_parseExtents {m : Nat} (item : ItemLoc) (hitem : item.constructionMethod = m)
    (n : Nat) (offset : Int) :
    Partway (SaidOf m) (parseExtents source s item n offset) (fun _ => Said) Said := by
  have hsaid : ∀ st, SaidOf m st → Said st := fun _ h => h.1
  induction n generalizing item offset with
  | zero => exact .pure hsaid
  | succ n ih =>
    refine (partway_field source hsaid _ _ _).bind fun _ => ?_
    refine (partway_field source hsaid _ _ _).bind fun _ => ?_
    refine (partway_field source hsaid _ _ _).bind fun _ => ?_
    refine Partway.bind (Q := fun _ => SaidOf m) (.modify fun st hst => hst.set ?_ _) fun _ =>
      ih _ ?_ _
    · exact hitem
    · exact hitem

theorem partway_parseItem (offset : Int) :
    Partway Said (parseItem source s offset) (fun _ => Said) Said := by
  refine (partway_expect _).bind fun item_id => ?_
  have hmethod : ∀ offset, Partway Said (parseConstructionMethod source s offset)
      (fun r => SaidOf r.1) Said := by
    intro offset
    refine .ite (fun _ => ?_) fun _ => .pure fun st hst => ⟨hst, fun hone => (by cases hone)⟩
    refine (partway_demand _ _).bind fun _ => ?_
    refine Partway.bind (Q := fun _ => SaidOf (((source.readAt offset 2).2 1).toNat % 16))
      (.modify fun st hst => ⟨fun hflag id loc hloc => ?_, fun hone => ?_⟩) fun _ =>
        .pure fun _ hst => hst
    · exact hst (Bool.or_eq_false_iff.mp hflag).1 id loc hloc
    · simp [hone]
  refine (hmethod _).bind fun r => ?_
  have hsaid : ∀ st, SaidOf r.1 st → Said st := fun _ h => h.1
  have hexpect : ∀ {α : Type} (x : Option α),
      Partway (SaidOf r.1) (expect x) (fun _ => SaidOf r.1) Said := fun x =>
    (partway_expect x).weaken (fun _ h => h) (fun _ _ h => h) hsaid
  have hdemand : ∀ (c : Prop) [Decidable c] (err : Status),
      Partway (SaidOf r.1) (demand c err) (fun _ => SaidOf r.1) Said := fun c _ err =>
    (partway_demand c err).weaken (fun _ h => h) (fun _ _ h => h) hsaid
  refine (hexpect _).bind fun _ => (hdemand _ _).bind fun _ => ?_
  refine (partway_field source hsaid _ _ _).bind fun _ => ?_
  refine Partway.bind (Q := fun _ => SaidOf r.1) (.modify fun st hst => hst.set ?_ _) fun _ => ?_
  · rfl
  · refine (hexpect _).bind fun _ => (hdemand _ _).bind fun _ => ?_
    refine partway_parseExtents source s _ ?_ _ _
    rfl

theorem partway_parseItems (n : Nat) (offset : Int) :
    Partway Said (parseItems source s n offset) (fun _ => Said) Said := by
  induction n generalizing offset with
  | zero => exact .pure fun _ hst => hst
  | succ n ih => exact (partway_parseItem source s offset).bind fun _ => ih _

theorem partway_parse (offset : Int) (size : Nat) :
    Partway Said (parse source offset size) (fun _ => Said) Said :=
  (partway_header _ _ _).bind fun _ => (partway_demand _ _).bind fun _ =>
    (partway_demand _ _).bind fun _ => (partway_expect _).bind fun _ =>
      (partway_expect _).bind fun _ => (partway_demand _ _).bind fun _ =>
        (partway_demand _ _).bind fun _ => (partway_expect _).bind fun _ =>
          partway_parseItems source _ _ _

end IlocBox

/-! ### `iinf` -/

namespace IinfBox

def Seen (st : State) : Prop := ∀ info ∈ st.mItemInfos, info.itemType ∈ st.mFourCCSeen

theorem partway_onChunkData (source : DataSource) (type : Nat) (offset : Int) (size : Nat) :
    Partway Seen (onChunkData source type offset size) (fun _ => Seen) Seen := by
  refine .ite (fun _ => ?_) fun _ => .pure fun _ hst => hst
  split
  · refine .modify fun st hst info hinfo => ?_
    obtain hinfo | hinfo := List.mem_append.mp hinfo
    · exact Finset.mem_insert_of_mem (hst info hinfo)
    · rw [List.mem_singleton.mp hinfo]
      exact Finset.mem_insert_self _ _
  · exact partway_demand _ _

theorem partway_parse (source : DataSource) (offset : Int) (size : Nat) :
    Partway Seen (parse source offset size) (fun _ => Seen) Seen :=
  (partway_header _ _ _).bind fun _ => (partway_demand _ _).bind fun _ =>
    (partway_expect _).bind fun _ =>
      (partway_parseChunksTo (partway_onChunkData source) _ _ _).bind fun _ => partway_demand _ _

end IinfBox

/-! ### One box -/

inductive BoxKind
  | iloc
  | iinf
  | iprp
  | pitm
  | idat
  | iref
  deriving DecidableEq

def BoxKind.type : BoxKind → Nat
  | .iloc => FOURCC 'i' 'l' 'o' 'c'
  | .iinf => FOURCC 'i' 'i' 'n' 'f'
  | .iprp => FOURCC 'i' 'p' 'r' 'p'
  | .pitm => FOURCC 'p' 'i' 't' 'm'
  | .idat => FOURCC 'i' 'd' 'a' 't'
  | .iref => FOURCC 'i' 'r' 'e' 'f'

theorem BoxKind.type_injective : Function.Injective BoxKind.type := by
  intro k k' h
  cases k <;> cases k' <;> first | rfl | (revert h; decide)

def boxOf (k : BoxKind) (offset : Int) (size : Nat) : Box := ⟨k.type, offset, size⟩

/-- A file in memory. -/
def fileOf (bytes : List (BitVec 8)) : DataSource where
  readAt offset size :=
    (min size (bytes.length - offset.toNat : Nat), fun i => bytes.getD (offset.toNat + i) 0)
  hasMemory _ := true

namespace ItemTable

/-- Two tables have the same from the boxes of a kind. -/
def Same (t t' : ItemTable) : BoxKind → Prop
  | .iloc => t.mItemLocs = t'.mItemLocs
  | .iinf => t.mItemInfos = t'.mItemInfos
  | .iprp => t.mItemProperties = t'.mItemProperties ∧ t.mAssociations = t'.mAssociations
  | .pitm => t.mPrimaryItemId = t'.mPrimaryItemId
  | .idat => t.mIdatOffset = t'.mIdatOffset ∧ t.mIdatSize = t'.mIdatSize
  | .iref => t.mItemReferences = t'.mItemReferences

theorem Same.refl (t : ItemTable) (k : BoxKind) : t.Same t k := by
  cases k
  case iprp => exact ⟨rfl, rfl⟩
  case idat => exact ⟨rfl, rfl⟩
  all_goals rfl

theorem Same.trans {t t' t'' : ItemTable} {k : BoxKind} (h : t.Same t' k) (h' : t'.Same t'' k) :
    t.Same t'' k := by
  cases k
  case iprp => exact ⟨h.1.trans h'.1, h.2.trans h'.2⟩
  case idat => exact ⟨h.1.trans h'.1, h.2.trans h'.2⟩
  all_goals exact Eq.trans h h'

theorem Same.symm {t t' : ItemTable} {k : BoxKind} (h : t.Same t' k) : t'.Same t k := by
  cases k
  case iprp => exact ⟨h.1.symm, h.2.symm⟩
  case idat => exact ⟨h.1.symm, h.2.symm⟩
  all_goals exact Eq.symm h

/-- `read`, by the kind of box. -/
def readAs (t : ItemTable) (source : DataSource) (b : Box) : BoxKind → ItemTable × Status
  | .iloc => t.withContents (t.toContents.parseIlocBox source b.offset b.size)
  | .iinf => t.withContents (t.toContents.parseIinfBox source b.offset b.size)
  | .iprp => t.withContents (t.toContents.parseIprpBox source b.offset b.size)
  | .pitm => t.readPitm source b
  | .idat => t.withContents (t.toContents.parseIdatBox b.offset b.size)
  | .iref => t.withContents (t.toContents.parseIrefBox source b.offset b.size)

variable {t : ItemTable} {source : DataSource} {b : Box} {k : BoxKind}

theorem read_eq (hb : b.type = k.type) : t.read source b = t.readAs source b k := by
  have hne : ∀ k' : BoxKind, k ≠ k' → b.type ≠ k'.type := by
    rintro k' hk heq
    exact hk (BoxKind.type_injective (hb.symm.trans heq))
  rw [read]
  by_cases hiloc : k = .iloc
  · subst hiloc
    exact if_pos hb
  refine (if_neg (hne .iloc hiloc)).trans ?_
  by_cases hiinf : k = .iinf
  · subst hiinf
    exact if_pos hb
  refine (if_neg (hne .iinf hiinf)).trans ?_
  by_cases hiprp : k = .iprp
  · subst hiprp
    exact if_pos hb
  refine (if_neg (hne .iprp hiprp)).trans ?_
  by_cases hpitm : k = .pitm
  · subst hpitm
    exact if_pos hb
  refine (if_neg (hne .pitm hpitm)).trans ?_
  by_cases hidat : k = .idat
  · subst hidat
    exact if_pos hb
  refine (if_neg (hne .idat hidat)).trans ?_
  by_cases hiref : k = .iref
  · subst hiref
    exact if_pos hb
  cases k <;> contradiction

/-- What a box gives to a table that has nothing else. -/
def alone (source : DataSource) (b : Box) : ItemTable := (({} : ItemTable).read source b).1

theorem read_same (hb : b.type = k.type) (h : t.Same {} k) :
    (t.read source b).1.Same (alone source b) k ∧
      (t.read source b).2 = (({} : ItemTable).read source b).2 := by
  rw [alone, read_eq hb, read_eq hb]
  cases k with
  | iloc =>
    have h : t.mItemLocs = .empty := h
    simp only [readAs, withContents, Contents.parseIlocBox, Same, h, and_self]
  | iinf =>
    have h : t.mItemInfos = [] := h
    simp only [readAs, withContents, Contents.parseIinfBox, Same, h, and_self]
  | iprp =>
    have h : t.mItemProperties = [] ∧ t.mAssociations = [] := h
    simp only [readAs, withContents, Contents.parseIprpBox, Same, h, and_self]
  | pitm =>
    have h : t.mPrimaryItemId = 0 := h
    simp only [readAs, readPitm, Same]
    split <;> simp [h]
  | idat => exact ⟨⟨rfl, rfl⟩, rfl⟩
  | iref =>
    have h : t.mItemReferences = [] := h
    simp only [readAs, withContents, Contents.parseIrefBox, Same, h, and_self]

theorem read_other (hb : b.type = k.type) {k' : BoxKind} (hk : k' ≠ k) :
    (t.read source b).1.Same t k' := by
  rw [read_eq hb]
  by_cases hpitm : k = .pitm
  · subst hpitm
    rw [readAs, readPitm]
    split
    · cases k'
      case pitm => contradiction
      all_goals simp only [Same, and_self]
    · exact Same.refl t k'
  · cases k <;> cases k' <;> first
      | contradiction
      | simp only [readAs, withContents, Contents.parseIlocBox, Contents.parseIinfBox,
          Contents.parseIprpBox, Contents.parseIdatBox, Contents.parseIrefBox, Same, and_self]

/-- Reading leaves the images alone, but for the identifier of the primary one. -/
theorem read_images (t : ItemTable) (source : DataSource) (b : Box) :
    (t.read source b).1.toImages =
        { t.toImages with mPrimaryItemId := (t.read source b).1.mPrimaryItemId } ∧
      (t.read source b).1.mBoxesSeen = t.mBoxesSeen := by
  have hsame : ∀ r : Contents × Status, (t.withContents r).1.toImages =
      { t.toImages with mPrimaryItemId := (t.withContents r).1.mPrimaryItemId } ∧
        (t.withContents r).1.mBoxesSeen = t.mBoxesSeen := fun _ => ⟨rfl, rfl⟩
  have hpitm : (t.readPitm source b).1.toImages =
      { t.toImages with mPrimaryItemId := (t.readPitm source b).1.mPrimaryItemId } ∧
        (t.readPitm source b).1.mBoxesSeen = t.mBoxesSeen := by
    rw [readPitm]
    split <;> exact ⟨rfl, rfl⟩
  rw [read]
  split_ifs
  · exact hsame _
  · exact hsame _
  · exact hsame _
  · exact hpitm
  · exact hsame _
  · exact hsame _
  · exact ⟨rfl, rfl⟩

theorem read_required (hb : b.type = k.type) (h : t.Same {} k)
    (hbase : ({} : Contents).mRequiredBoxes ⊆ t.mRequiredBoxes) :
    (t.read source b).1.mRequiredBoxes = t.mRequiredBoxes ∪ (alone source b).mRequiredBoxes := by
  have hunion : t.mRequiredBoxes ∪ ({} : Contents).mRequiredBoxes = t.mRequiredBoxes :=
    Finset.union_eq_left.mpr hbase
  rw [alone, read_eq hb, read_eq hb]
  cases k with
  | iloc =>
    have h : t.mItemLocs = .empty := h
    simp only [readAs, withContents, Contents.parseIlocBox, h]
    split
    · rw [Finset.union_insert, hunion]
    · exact hunion.symm
  | iinf =>
    have h : t.mItemInfos = [] := h
    simp only [readAs, withContents, Contents.parseIinfBox, h]
    split
    · rw [Finset.union_insert, hunion]
    · exact hunion.symm
  | pitm =>
    simp only [readAs, readPitm]
    split <;> exact hunion.symm
  | iprp => exact hunion.symm
  | idat => exact hunion.symm
  | iref => exact hunion.symm

/-- Unless the box makes `idat` required, none of its items is in it. -/
theorem alone_iloc (hb : b.type = BoxKind.iloc.type)
    (hok : (({} : ItemTable).read source b).2 = .OK)
    (hidat : BoxKind.idat.type ∉ (alone source b).mRequiredBoxes) {id : Nat} {loc : ItemLoc}
    (hloc : (alone source b).mItemLocs.find? id = some loc) : loc.constructionMethod ≠ 1 := by
  rw [alone, read_eq hb, readAs, withContents, Contents.parseIlocBox] at hidat hloc
  rw [read_eq hb, readAs, withContents, Contents.parseIlocBox] at hok
  have hsaid : IlocBox.Said ((IlocBox.parse source b.offset b.size).run.run
      { mItemLocs := ({} : Contents).mItemLocs }).2 :=
    (IlocBox.partway_parse source b.offset b.size).ends _ fun _ _ _ hnone => by cases hnone
  refine hsaid ?_ id loc hloc
  cases hflag : ((IlocBox.parse source b.offset b.size).run.run
      { mItemLocs := ({} : Contents).mItemLocs }).2.mHasConstructMethod1 with
  | false => rfl
  | true =>
    refine absurd ?_ hidat
    simp only [hflag, and_true]
    rw [if_pos hok]
    exact Finset.mem_insert_self _ _

/-- Unless the box makes `iref` required, it has no grid and no Exif item. -/
theorem alone_iinf (hb : b.type = BoxKind.iinf.type)
    (hok : (({} : ItemTable).read source b).2 = .OK)
    (hiref : BoxKind.iref.type ∉ (alone source b).mRequiredBoxes) {info : ItemInfo}
    (hinfo : info ∈ (alone source b).mItemInfos) :
    info.itemType ≠ FOURCC 'g' 'r' 'i' 'd' ∧ info.itemType ≠ FOURCC 'E' 'x' 'i' 'f' := by
  rw [alone, read_eq hb, readAs, withContents, Contents.parseIinfBox] at hiref hinfo
  rw [read_eq hb, readAs, withContents, Contents.parseIinfBox] at hok
  have hseen : IinfBox.Seen ((IinfBox.parse source b.offset b.size).run.run
      { mItemInfos := ({} : Contents).mItemInfos }).2 :=
    (IinfBox.partway_parse source b.offset b.size).ends _ fun _ hnone => by cases hnone
  have hmem := hseen info hinfo
  have hnone : ¬(FOURCC 'g' 'r' 'i' 'd' ∈ ((IinfBox.parse source b.offset b.size).run.run
        { mItemInfos := ({} : Contents).mItemInfos }).2.mFourCCSeen ∨
      FOURCC 'E' 'x' 'i' 'f' ∈ ((IinfBox.parse source b.offset b.size).run.run
        { mItemInfos := ({} : Contents).mItemInfos }).2.mFourCCSeen) := by
    intro hany
    refine hiref ?_
    rw [if_pos ⟨hok, hany⟩]
    exact Finset.mem_insert_self _ _
  exact ⟨fun heq => hnone (.inl (heq ▸ hmem)), fun heq => hnone (.inr (heq ▸ hmem))⟩

end ItemTable

end MediaFramework.Mp4.Heif
