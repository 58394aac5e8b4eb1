import MediaFramework.Hls.ParsingSteps
import MediaFramework.Lib.Flat

/-!
# Selecting the tracks of a playlist

The media groups of an `M3UParser` number their items through, in the order of the group identifiers.
Each group keeps its selected item.
-/

namespace MediaFramework.Hls

open Text
open MediaGroup.GroupType

inductive MediaTrackType
  | MEDIA_TRACK_TYPE_UNKNOWN
  | MEDIA_TRACK_TYPE_VIDEO
  | MEDIA_TRACK_TYPE_AUDIO
  | MEDIA_TRACK_TYPE_TIMEDTEXT
  | MEDIA_TRACK_TYPE_SUBTITLE
  | MEDIA_TRACK_TYPE_METADATA
  deriving DecidableEq, Repr

open MediaTrackType

inductive SelectStatus
  | OK
  | INVALID_OPERATION
  | BAD_VALUE
  deriving DecidableEq, Repr

open SelectStatus

/-- What only a subtitle track tells. -/
structure SubtitleInfo where
  mime : AString
  auto : Bool
  default : Bool
  forced : Bool
  deriving DecidableEq, Repr

structure TrackInfo where
  type : MediaTrackType
  language : AString
  subtitle : Option SubtitleInfo
  deriving DecidableEq, Repr

namespace MediaGroup

variable (group : MediaGroup)

def countTracks : Nat := group.mMediaItems.length

/-- `media.httplive.audio-index` is not set. Of closed captions, where the source would trespass, no
group is made. -/
def pickRandomMediaItems : MediaGroup :=
  match group.mType with
  | TYPE_AUDIO => { group with mSelectedIndex := 0 }
  | TYPE_VIDEO => { group with mSelectedIndex := 0 }
  | TYPE_SUBS => { group with mSelectedIndex := -1 }
  | TYPE_CC => group

def selectTrack (index : Nat) (select : Bool) : SelectStatus × MediaGroup :=
  if group.mType ≠ TYPE_SUBS ∧ group.mType ≠ TYPE_AUDIO then (INVALID_OPERATION, group)
  else if select then
    if group.mMediaItems.length ≤ index then (INVALID_OPERATION, group)
    else if group.mSelectedIndex = index then (BAD_VALUE, group)
    else (OK, { group with mSelectedIndex := index })
  else if group.mSelectedIndex ≠ index then (BAD_VALUE, group)
  else (OK, { group with mSelectedIndex := -1 })

def trackType : GroupType → MediaTrackType
  | TYPE_AUDIO => MEDIA_TRACK_TYPE_AUDIO
  | TYPE_VIDEO => MEDIA_TRACK_TYPE_VIDEO
  | TYPE_SUBS => MEDIA_TRACK_TYPE_SUBTITLE
  | TYPE_CC => MEDIA_TRACK_TYPE_UNKNOWN

def getTrackInfo (index : Nat) : Option TrackInfo :=
  group.mMediaItems[index]?.map fun item =>
    { type := trackType group.mType
      language := if item.mLanguage = [] then "und".toList else item.mLanguage
      subtitle :=
        if group.mType = TYPE_SUBS then
          some
            { mime := "text/vtt".toList
              auto := item.mFlags &&& FLAG_AUTOSELECT ≠ 0
              default := item.mFlags &&& FLAG_DEFAULT ≠ 0
              forced := item.mFlags &&& FLAG_FORCED ≠ 0 }
        else none }

end MediaGroup

open MediaGroup (GroupType)

namespace M3UParser

variable (p : M3UParser)

def groups : List MediaGroup := p.mMediaGroups.values

def counts : List Nat := p.groups.map MediaGroup.countTracks

def pickRandomMediaItems : M3UParser :=
  { p with mMediaGroups := p.mMediaGroups.mapValues MediaGroup.pickRandomMediaItems }

def selectTrack (index : Nat) (select : Bool) : SelectStatus × M3UParser :=
  match Flat.locate p.counts index with
  | none => (INVALID_OPERATION, p)
  | some (i, ii) =>
    match p.groups[i]? with
    | none => (INVALID_OPERATION, p)
    | some group =>
      let r := group.selectTrack ii select
      let groups := p.mMediaGroups.modifyAt i fun _ => r.2
      if r.1 = OK then
        (OK, { p with mMediaGroups := groups, mSelectedIndex := if select then index else -1 })
      else (r.1, { p with mMediaGroups := groups })

def getTrackCount : Nat := p.counts.sum

def getTrackInfo (index : Nat) : Option TrackInfo :=
  (Flat.locate p.counts index).bind fun r => p.groups[r.1]?.bind (·.getTrackInfo r.2)

def groupTypeOf : MediaTrackType → Option GroupType
  | MEDIA_TRACK_TYPE_VIDEO => some TYPE_VIDEO
  | MEDIA_TRACK_TYPE_AUDIO => some TYPE_AUDIO
  | MEDIA_TRACK_TYPE_SUBTITLE => some TYPE_SUBS
  | MEDIA_TRACK_TYPE_UNKNOWN | MEDIA_TRACK_TYPE_TIMEDTEXT | MEDIA_TRACK_TYPE_METADATA => none

/-- The loop of `getSelectedTrack`. It does not count the tracks of a group of the type that it looks
for, where nothing is selected. -/
def selectedFrom (groupType : GroupType) : List MediaGroup → Nat → Int
  | [], _ => -1
  | group :: groups, ii =>
    if groupType ≠ group.mType then selectedFrom groupType groups (ii + group.countTracks)
    else if 0 ≤ group.mSelectedIndex then ii + group.mSelectedIndex
    else selectedFrom groupType groups ii

def getSelectedTrack (type : MediaTrackType) : Int :=
  match groupTypeOf type with
  | none => -1
  | some groupType => selectedFrom groupType p.groups 0

end M3UParser

/-! ## Groups -/

/-- There is an item, and the selected one is one of them. -/
structure MediaGroup.Sound (group : MediaGroup) : Prop where
  nonempty : 0 < group.countTracks
  low : -1 ≤ group.mSelectedIndex
  high : group.mSelectedIndex < group.countTracks

/-- A group of the type has a selected item. -/
def Selects (groupType : GroupType) (group : MediaGroup) : Prop :=
  group.mType = groupType ∧ 0 ≤ group.mSelectedIndex

/-- The number of a selected item of the type. -/
def IsSelected (groupType : GroupType) (groups : List MediaGroup) (t : Nat) : Prop :=
  ∃ i group, groups[i]? = some group ∧ Selects groupType group
    ∧ t = Flat.number (groups.map MediaGroup.countTracks) i group.mSelectedIndex.toNat

/-- Where a group of the type has a selection, the first group of the type has one. -/
def SelectedFirst (groupType : GroupType) (groups : List MediaGroup) : Prop :=
  (∃ group ∈ groups, Selects groupType group) →
    ∃ group, groups.find? (·.mType = groupType) = some group ∧ 0 ≤ group.mSelectedIndex

namespace M3UParser

variable {groupType : GroupType} {groups : List MediaGroup} {n t : Nat}

theorem exists_first {group : MediaGroup} (hmem : group ∈ groups) (htype : group.mType = groupType) :
    ∃ first, groups.find? (·.mType = groupType) = some first ∧ first ∈ groups
      ∧ first.mType = groupType := by
  have hsome : (groups.find? (·.mType = groupType)).isSome := by
    rw [List.find?_isSome]
    exact ⟨group, hmem, by simpa using htype⟩
  obtain ⟨first, hfirst⟩ := Option.isSome_iff_exists.mp hsome
  have hfirsttype := List.find?_some hfirst
  rw [decide_eq_true_iff] at hfirsttype
  exact ⟨first, hfirst, List.mem_of_find?_eq_some hfirst, hfirsttype⟩

theorem selectedFrom_eq_neg (groupType : GroupType) (groups : List MediaGroup) (n : Nat) :
    selectedFrom groupType groups n = -1 ↔ ¬∃ group ∈ groups, Selects groupType group := by
  induction groups generalizing n with
  | nil => simp [selectedFrom]
  | cons group groups ih =>
    have hcons : (∃ g ∈ group :: groups, Selects groupType g) ↔
        Selects groupType group ∨ ∃ g ∈ groups, Selects groupType g :=
      List.exists_mem_cons_iff _ _ _
    rw [selectedFrom, hcons]
    split
    · rename_i hne
      rw [ih]
      have hnot : ¬Selects groupType group := fun h => hne h.1.symm
      simp [hnot]
    · rename_i heq
      split
      · rename_i hsel
        have hself : Selects groupType group := ⟨(not_not.mp heq).symm, hsel⟩
        simp only [hself, true_or, not_true_eq_false, iff_false]
        omega
      · rename_i hsel
        rw [ih]
        have hnot : ¬Selects groupType group := fun h => hsel h.2
        simp [hnot]

/-- The number that is returned is never behind a selected item, and in front of all of them if the
first group of the type has no selection. -/
theorem selectedFrom_le (hsound : ∀ group ∈ groups, group.Sound) (h : IsSelected groupType groups t) :
    selectedFrom groupType groups n ≤ n + t ∧
      ((∃ group, groups.find? (·.mType = groupType) = some group ∧ group.mSelectedIndex < 0) →
        selectedFrom groupType groups n < n + t) := by
  obtain ⟨i, group, hi, ⟨htype, hsel⟩, rfl⟩ := h
  induction groups generalizing n i with
  | nil => cases hi
  | cons first groups ih =>
    obtain ⟨hfirst, hgroups⟩ := List.forall_mem_cons.mp hsound
    rw [selectedFrom, List.map_cons]
    by_cases hne : groupType ≠ first.mType
    · have hfind : (first :: groups).find? (·.mType = groupType)
          = groups.find? (·.mType = groupType) := by simp [Ne.symm hne]
      cases i with
      | zero =>
        obtain rfl : first = group := Option.some.inj hi
        exact absurd htype.symm hne
      | succ i =>
        obtain ⟨hle, hlt⟩ := ih hgroups i hi (n := n + first.countTracks)
        rw [if_pos hne, hfind, Flat.number_succ]
        push_cast at hle hlt ⊢
        rw [← Int.add_assoc]
        exact ⟨hle, hlt⟩
    · have heq : first.mType = groupType := (not_not.mp hne).symm
      have hfind : (first :: groups).find? (·.mType = groupType) = some first := by simp [heq]
      have hnonempty := hfirst.nonempty
      have hhigh := hfirst.high
      rw [if_neg hne, hfind]
      by_cases hself : 0 ≤ first.mSelectedIndex
      · rw [if_pos hself]
        have hle : (n : Int) + first.mSelectedIndex ≤ n + (Flat.number
            (first.countTracks :: groups.map MediaGroup.countTracks) i group.mSelectedIndex.toNat : Nat) := by
          cases i with
          | zero =>
            obtain rfl : first = group := Option.some.inj hi
            rw [Flat.number_zero]
            omega
          | succ i =>
            rw [Flat.number_succ]
            omega
        refine ⟨hle, ?_⟩
        rintro ⟨g, hg, hneg⟩
        obtain rfl := Option.some.inj hg
        omega
      · rw [if_neg hself]
        have hlt : selectedFrom groupType groups n < n + (Flat.number
            (first.countTracks :: groups.map MediaGroup.countTracks) i group.mSelectedIndex.toNat : Nat) := by
          cases i with
          | zero =>
            obtain rfl : first = group := Option.some.inj hi
            exact absurd hsel hself
          | succ i =>
            have hrest := (ih hgroups i hi (n := n)).1
            rw [Flat.number_succ]
            omega
        exact ⟨by omega, fun _ => hlt⟩

theorem selectedFrom_first (hsound : ∀ group ∈ groups, group.Sound)
    (h : ∃ group, groups.find? (·.mType = groupType) = some group ∧ 0 ≤ group.mSelectedIndex) :
    ∃ t, IsSelected groupType groups t ∧ selectedFrom groupType groups n = n + t := by
  induction groups generalizing n with
  | nil =>
    obtain ⟨group, hfind, -⟩ := h
    cases hfind
  | cons first groups ih =>
    obtain ⟨hfirst, hgroups⟩ := List.forall_mem_cons.mp hsound
    rw [selectedFrom]
    by_cases hne : groupType ≠ first.mType
    · have hfind : (first :: groups).find? (·.mType = groupType)
          = groups.find? (·.mType = groupType) := by simp [Ne.symm hne]
      rw [hfind] at h
      obtain ⟨t, ⟨i, group, hi, hsel, rfl⟩, heq⟩ := ih hgroups h (n := n + first.countTracks)
      refine ⟨_, ⟨i + 1, group, hi, hsel, rfl⟩, ?_⟩
      rw [if_pos hne, heq, List.map_cons, Flat.number_succ]
      push_cast
      omega
    · have heq : first.mType = groupType := (not_not.mp hne).symm
      have hfind : (first :: groups).find? (·.mType = groupType) = some first := by simp [heq]
      rw [hfind] at h
      obtain ⟨group, hgroup, hsel⟩ := h
      obtain rfl := Option.some.inj hgroup
      refine ⟨_, ⟨0, first, rfl, ⟨heq, hsel⟩, rfl⟩, ?_⟩
      rw [if_neg hne, if_pos hsel, Flat.number_zero]
      omega

/-! ## One state -/

/-- The selected track of a type is the one that is returned. -/
structure Consistent (p : M3UParser) (type : MediaTrackType) (groupType : GroupType) : Prop where
  unselected : p.getSelectedTrack type = -1 ↔ ¬∃ group ∈ p.groups, Selects groupType group
  selected : p.getSelectedTrack type ≠ -1 → ∃ t : Nat, p.getSelectedTrack type = t ∧ t < p.getTrackCount
    ∧ (∃ info, p.getTrackInfo t = some info ∧ info.type = type) ∧ IsSelected groupType p.groups t

variable {p : M3UParser} {type : MediaTrackType}

theorem getSelectedTrack_eq (htype : groupTypeOf type = some groupType) :
    p.getSelectedTrack type = selectedFrom groupType p.groups 0 := by
  rw [getSelectedTrack, htype]

theorem trackType_groupTypeOf (htype : groupTypeOf type = some groupType) :
    MediaGroup.trackType groupType = type := by
  cases type with
  | MEDIA_TRACK_TYPE_VIDEO =>
    obtain rfl := Option.some.inj htype
    rfl
  | MEDIA_TRACK_TYPE_AUDIO =>
    obtain rfl := Option.some.inj htype
    rfl
  | MEDIA_TRACK_TYPE_SUBTITLE =>
    obtain rfl := Option.some.inj htype
    rfl
  | MEDIA_TRACK_TYPE_UNKNOWN => cases htype
  | MEDIA_TRACK_TYPE_TIMEDTEXT => cases htype
  | MEDIA_TRACK_TYPE_METADATA => cases htype

theorem getTrackInfo_number {i j : Nat} {group : MediaGroup} (hi : p.groups[i]? = some group)
    (hj : j < group.countTracks) :
    Flat.number p.counts i j < p.getTrackCount ∧ ∃ info,
      p.getTrackInfo (Flat.number p.counts i j) = some info
        ∧ info.type = MediaGroup.trackType group.mType := by
  have hcount : p.counts[i]? = some group.countTracks := by
    rw [counts, List.getElem?_map, hi, Option.map_some]
  refine ⟨Flat.number_lt_sum hcount hj, ?_⟩
  rw [getTrackInfo, Flat.locate_number hcount hj, Option.bind_some, hi, Option.bind_some,
    MediaGroup.getTrackInfo, List.getElem?_eq_getElem hj]
  exact ⟨_, rfl, rfl⟩

/-- Exactly when the first group of the type has a selection where one of them has, the answer is
right. -/
theorem consistent_iff (hsound : ∀ group ∈ p.groups, group.Sound)
    (htype : groupTypeOf type = some groupType) :
    p.Consistent type groupType ↔ SelectedFirst groupType p.groups := by
  have hnone := selectedFrom_eq_neg groupType p.groups 0
  rw [← getSelectedTrack_eq htype] at hnone
  constructor
  · intro h hselected
    obtain ⟨t, ht, -, -, hselect⟩ := h.selected fun heq => (hnone.mp heq) hselected
    obtain ⟨group, hmem, hgroup⟩ := hselected
    obtain ⟨first, hfirst, -, -⟩ := exists_first hmem hgroup.1
    refine ⟨first, hfirst, ?_⟩
    by_contra hneg
    have hlt := (selectedFrom_le hsound hselect (n := 0)).2 ⟨first, hfirst, by omega⟩
    rw [getSelectedTrack_eq htype] at ht
    omega
  · intro h
    refine ⟨hnone, fun hne => ?_⟩
    obtain ⟨t, hselect, ht⟩ := selectedFrom_first hsound
      (h (not_not.mp (mt hnone.mpr hne))) (n := 0)
    obtain ⟨i, group, hi, hgroup, heq⟩ := hselect
    have hj : group.mSelectedIndex.toNat < group.countTracks := by
      have hhigh := (hsound group (List.mem_of_getElem? hi)).high
      have hlow := hgroup.2
      omega
    obtain ⟨hlt, info, hinfo, hinfotype⟩ := getTrackInfo_number hi hj
    refine ⟨t, ?_, heq ▸ hlt, ⟨info, heq ▸ hinfo, ?_⟩, i, group, hi, hgroup, heq⟩
    · rw [getSelectedTrack_eq htype, ht]
      simp
    · rw [hinfotype, hgroup.1, trackType_groupTypeOf htype]

end M3UParser

end MediaFramework.Hls
