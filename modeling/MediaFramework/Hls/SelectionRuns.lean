import MediaFramework.Hls.TrackSelection

/-!
# Runs of track selection

What the groups of an accepted playlist keep under any calls, and when `getSelectedTrack` can be
relied on.
-/

namespace MediaFramework.Hls

open Text
open MediaGroup.GroupType
open MediaTrackType
open SelectStatus
open MediaGroup (GroupType)

/-! ## One group -/

namespace MediaGroup

variable {group : MediaGroup} {index : Nat} {select : Bool}

/-- Selecting changes nothing, or in a group of audio or subtitles the selected item. -/
theorem selectTrack_cases (group : MediaGroup) (index : Nat) (select : Bool) :
    (group.selectTrack index select).2 = group ∧ (group.selectTrack index select).1 ≠ OK
      ∨ ∃ selected : Int, group.selectTrack index select
          = (OK, { group with mSelectedIndex := selected }) ∧ group.mType ≠ TYPE_VIDEO
        ∧ (select = true ∧ selected = index ∧ index < group.countTracks
          ∨ select = false ∧ selected = -1) := by
  rw [selectTrack]
  split
  · exact .inl ⟨rfl, by simp⟩
  · rename_i htype
    have hvideo : group.mType ≠ TYPE_VIDEO := by
      intro heq
      rw [heq] at htype
      exact htype ⟨by decide, by decide⟩
    cases select with
    | true =>
      rw [if_pos rfl]
      split
      · exact .inl ⟨rfl, by simp⟩
      · rename_i hlength
        split
        · exact .inl ⟨rfl, by simp⟩
        · exact .inr ⟨index, rfl, hvideo, .inl ⟨rfl, rfl, Nat.lt_of_not_le hlength⟩⟩
    | false =>
      rw [if_neg (by decide)]
      split
      · exact .inl ⟨rfl, by simp⟩
      · exact .inr ⟨-1, rfl, hvideo, .inr ⟨rfl, rfl⟩⟩

theorem mType_selectTrack : (group.selectTrack index select).2.mType = group.mType := by
  rcases selectTrack_cases group index select with ⟨heq, -⟩ | ⟨selected, heq, -, -⟩
  · rw [heq]
  · rw [heq]

theorem mType_pickRandomMediaItems : group.pickRandomMediaItems.mType = group.mType := by
  rw [pickRandomMediaItems]
  split
  · rfl
  · rfl
  · rfl
  · rfl

/-- A group of a playlist that has just been parsed. -/
structure Fresh (group : MediaGroup) : Prop where
  nonempty : 0 < group.countTracks
  unselected : group.mSelectedIndex = -1
  noCaptions : group.mType ≠ TYPE_CC

theorem Sound.selectTrack (h : group.Sound) : (group.selectTrack index select).2.Sound := by
  rcases selectTrack_cases group index select with ⟨heq, -⟩ | ⟨selected, heq, -, hselected⟩
  · rw [heq]
    exact h
  · rw [heq]
    rcases hselected with ⟨-, rfl, hlt⟩ | ⟨-, rfl⟩
    · exact ⟨h.nonempty, by dsimp only; omega, Int.ofNat_lt.mpr hlt⟩
    · exact ⟨h.nonempty, Int.le_refl _, by dsimp only; omega⟩

theorem Sound.pickRandomMediaItems (h : group.Sound) : group.pickRandomMediaItems.Sound := by
  have hpos : (0 : Int) < group.countTracks := Int.ofNat_lt.mpr h.nonempty
  rw [MediaGroup.pickRandomMediaItems]
  split
  · exact ⟨h.nonempty, by dsimp only; omega, hpos⟩
  · exact ⟨h.nonempty, by dsimp only; omega, hpos⟩
  · exact ⟨h.nonempty, Int.le_refl _, by dsimp only; omega⟩
  · exact h

end MediaGroup

/-! ## Runs -/

inductive Call
  | pickRandomMediaItems
  | selectTrack (index : Nat) (select : Bool)
  deriving DecidableEq, Repr

namespace M3UParser

variable {p : M3UParser} {groupType : GroupType} {type : MediaTrackType}

def call (p : M3UParser) : Call → M3UParser
  | .pickRandomMediaItems => p.pickRandomMediaItems
  | .selectTrack index select => (p.selectTrack index select).2

def run (p : M3UParser) (calls : List Call) : M3UParser := calls.foldl call p

/-- What holds of the groups after any calls. -/
structure GroupsSound (p : M3UParser) : Prop where
  sound : ∀ group ∈ p.groups, group.Sound
  noCaptions : ∀ group ∈ p.groups, group.mType ≠ TYPE_CC
  /-- The groups of videos have the same selection. -/
  videos : ∀ group ∈ p.groups, ∀ group' ∈ p.groups, group.mType = TYPE_VIDEO →
    group'.mType = TYPE_VIDEO → group.mSelectedIndex = group'.mSelectedIndex

/-- What a call to `selectTrack` does: it fails and changes nothing, or one group changes. -/
theorem selectTrack_cases (p : M3UParser) (index : Nat) (select : Bool) :
    ((p.selectTrack index select).1 ≠ OK ∧ (p.selectTrack index select).2 = p) ∨
    ∃ i ii group, Flat.locate p.counts index = some (i, ii) ∧ p.groups[i]? = some group
      ∧ (group.selectTrack ii select).1 = OK
      ∧ p.selectTrack index select = (OK, { p with
        mMediaGroups := p.mMediaGroups.modifyAt i fun _ => (group.selectTrack ii select).2
        mSelectedIndex := if select then index else -1 }) := by
  rw [selectTrack]
  cases hlocate : Flat.locate p.counts index with
  | none => exact .inl ⟨by simp, rfl⟩
  | some r =>
    obtain ⟨i, ii⟩ := r
    dsimp only
    cases hgroup : p.groups[i]? with
    | none => exact .inl ⟨by simp, rfl⟩
    | some group =>
      dsimp only
      split
      · rename_i hok
        exact .inr ⟨i, ii, group, rfl, hgroup, hok, rfl⟩
      · rename_i hfail
        refine .inl ⟨hfail, ?_⟩
        rcases MediaGroup.selectTrack_cases group ii select with ⟨heq, -⟩ | ⟨selected, heq, -⟩
        · have hsame : (p.mMediaGroups.modifyAt i fun _ => (group.selectTrack ii select).2)
              = p.mMediaGroups := KeyedVector.modifyAt_eq_self hgroup heq
          rw [hsame]
        · exact absurd (congrArg Prod.fst heq) hfail

theorem groups_pickRandomMediaItems (p : M3UParser) :
    p.pickRandomMediaItems.groups = p.groups.map MediaGroup.pickRandomMediaItems :=
  p.mMediaGroups.values_mapValues _

theorem mem_modify {α : Type*} {l : List α} {i : Nat} {a a' b : α} (hi : l[i]? = some a)
    (h : b ∈ l.modify i fun _ => a') : b ∈ l ∨ b = a' := by
  obtain ⟨j, hj⟩ := List.mem_iff_getElem?.mp h
  rw [List.getElem?_modify] at hj
  split at hj
  · rename_i heq
    rw [← heq, hi] at hj
    exact .inr (Option.some.inj hj).symm
  · rw [id_map'] at hj
    exact .inl (List.mem_of_getElem? hj)

theorem map_modify {α β : Type*} {f : α → β} {l : List α} {i : Nat} {a a' : α} (hi : l[i]? = some a)
    (h : f a' = f a) : (l.modify i fun _ => a').map f = l.map f := by
  refine List.ext_getElem? fun j => ?_
  rw [List.getElem?_map, List.getElem?_map, List.getElem?_modify]
  split
  · rename_i hij
    rw [← hij, hi]
    exact congrArg some h
  · simp

theorem modify_append_cons {α : Type*} (f : α → α) (l : List α) (a : α) (l' : List α) :
    (l ++ a :: l').modify l.length f = l ++ f a :: l' := by
  induction l with
  | nil => rfl
  | cons b l ih => simp [ih]

theorem GroupsSound.call (h : p.GroupsSound) (c : Call) : (p.call c).GroupsSound := by
  cases c with
  | pickRandomMediaItems =>
    have hgroups : ∀ group ∈ (p.call .pickRandomMediaItems).groups,
        ∃ g ∈ p.groups, group = g.pickRandomMediaItems := by
      intro group hmem
      have hmem : group ∈ p.groups.map MediaGroup.pickRandomMediaItems :=
        groups_pickRandomMediaItems p ▸ hmem
      obtain ⟨g, hg, rfl⟩ := List.mem_map.mp hmem
      exact ⟨g, hg, rfl⟩
    refine ⟨fun group hmem => ?_, fun group hmem => ?_, fun group hmem group' hmem' htype htype' => ?_⟩
    · obtain ⟨g, hg, rfl⟩ := hgroups group hmem
      exact (h.sound g hg).pickRandomMediaItems
    · obtain ⟨g, hg, rfl⟩ := hgroups group hmem
      rw [MediaGroup.mType_pickRandomMediaItems]
      exact h.noCaptions g hg
    · obtain ⟨g, hg, rfl⟩ := hgroups group hmem
      obtain ⟨g', hg', rfl⟩ := hgroups group' hmem'
      rw [MediaGroup.mType_pickRandomMediaItems] at htype htype'
      simp [MediaGroup.pickRandomMediaItems, htype, htype']
  | selectTrack index select =>
    rcases selectTrack_cases p index select with ⟨-, heq⟩ | ⟨i, ii, group, -, hi, hok, heq⟩
    · rw [M3UParser.call, heq]
      exact h
    · have hgroup := List.mem_of_getElem? hi
      have hgroups : ∀ g ∈ (p.call (.selectTrack index select)).groups,
          g ∈ p.groups ∨ g = (group.selectTrack ii select).2 := by
        intro g hmem
        rw [M3UParser.call, heq, groups, KeyedVector.values_modifyAt] at hmem
        exact mem_modify hi hmem
      have hvideo : (group.selectTrack ii select).2.mType ≠ TYPE_VIDEO := by
        rw [MediaGroup.mType_selectTrack]
        rcases MediaGroup.selectTrack_cases group ii select with ⟨-, hfail⟩ | ⟨selected, -, hvideo, -⟩
        · exact absurd hok hfail
        · exact hvideo
      refine ⟨fun g hmem => ?_, fun g hmem => ?_, fun g hmem g' hmem' htype htype' => ?_⟩
      · rcases hgroups g hmem with hg | rfl
        · exact h.sound g hg
        · exact (h.sound group hgroup).selectTrack
      · rcases hgroups g hmem with hg | rfl
        · exact h.noCaptions g hg
        · rw [MediaGroup.mType_selectTrack]
          exact h.noCaptions group hgroup
      · rcases hgroups g hmem with hg | rfl
        · rcases hgroups g' hmem' with hg' | rfl
          · exact h.videos g hg g' hg' htype htype'
          · exact absurd htype' hvideo
        · exact absurd htype hvideo

theorem mTypes_call (p : M3UParser) (c : Call) :
    (p.call c).groups.map (·.mType) = p.groups.map (·.mType) := by
  cases c with
  | pickRandomMediaItems =>
    have hgroups : (p.call .pickRandomMediaItems).groups
        = p.groups.map MediaGroup.pickRandomMediaItems := groups_pickRandomMediaItems p
    rw [hgroups, List.map_map]
    exact List.map_congr_left fun g _ => MediaGroup.mType_pickRandomMediaItems
  | selectTrack index select =>
    rcases selectTrack_cases p index select with ⟨-, heq⟩ | ⟨i, ii, group, -, hi, -, heq⟩
    · rw [call, heq]
    · rw [call, heq, groups, KeyedVector.values_modifyAt]
      exact map_modify hi MediaGroup.mType_selectTrack

theorem GroupsSound.run (h : p.GroupsSound) (calls : List Call) : (p.run calls).GroupsSound := by
  induction calls generalizing p with
  | nil => exact h
  | cons c calls ih => exact ih (h.call c)

theorem mTypes_run (p : M3UParser) (calls : List Call) :
    (p.run calls).groups.map (·.mType) = p.groups.map (·.mType) := by
  induction calls generalizing p with
  | nil => rfl
  | cons c calls ih => exact (ih (p.call c)).trans (mTypes_call p c)

/-! ## Accepted playlists -/

theorem fresh_putMedia {values values' : KeyedVector AString MediaGroup} {m : MediaAttributes}
    {groupID groupName : AString} (h : putMedia values m groupType groupID groupName = some values')
    (hcaptions : groupType ≠ TYPE_CC) (hfresh : ∀ k group, values.find? k = some group → group.Fresh) :
    ∀ k group, values'.find? k = some group → group.Fresh := by
  rw [putMedia] at h
  split at h
  · cases h
  · dsimp only at h
    split at h
    · cases h
    · rename_i htype
      obtain rfl := Option.some.inj h
      intro k group hgroup
      rw [KeyedVector.find?_set] at hgroup
      split at hgroup
      · obtain rfl := Option.some.inj hgroup
        have hunselected : ((values.find? (cstr groupID)).getD { mType := groupType }).mSelectedIndex
            = -1 := by
          cases hold : values.find? (cstr groupID) with
          | none => rfl
          | some old => exact (hfresh _ _ hold).unselected
        refine ⟨?_, hunselected, ?_⟩
        · simp [MediaGroup.addMedia, MediaGroup.countTracks]
        · exact (not_not.mp htype).symm ▸ hcaptions
      · exact hfresh k group hgroup

theorem fresh_parseMedia {line : AString} {values values' : KeyedVector AString MediaGroup}
    (h : parseMedia line values = some values')
    (hfresh : ∀ k group, values.find? k = some group → group.Fresh) :
    ∀ k group, values'.find? k = some group → group.Fresh := by
  obtain ⟨attrs, -, h⟩ := Option.bind_eq_some_iff.mp h
  obtain ⟨m, -, h⟩ := Option.bind_eq_some_iff.mp h
  obtain ⟨groupType, -, h⟩ := Option.bind_eq_some_iff.mp h
  obtain ⟨groupID, -, h⟩ := Option.bind_eq_some_iff.mp h
  obtain ⟨groupName, -, h⟩ := Option.bind_eq_some_iff.mp h
  split at h
  · exact Option.some.inj h ▸ hfresh
  · rename_i hcaptions
    exact fresh_putMedia h hcaptions hfresh

theorem mMediaGroups_parseTag {p q : Parsing} {line : AString} {tag : Tag}
    (h : p.parseTag line tag = some q) :
    q.mMediaGroups = p.mMediaGroups ∨ parseMedia line p.mMediaGroups = some q.mMediaGroups := by
  cases tag with
  | streamInf =>
    rw [Parsing.parseTag] at h
    split at h
    · cases h
    · obtain ⟨message, -, rfl⟩ := Option.map_eq_some_iff.mp h
      exact .inl rfl
  | endlist => exact Option.some.inj h ▸ .inl rfl
  | playlistTypeEvent => exact Option.some.inj h ▸ .inl rfl
  | discontinuity => exact Option.some.inj h ▸ .inl rfl
  | media =>
    obtain ⟨groups, hgroups, rfl⟩ := Option.map_eq_some_iff.mp h
    exact .inr hgroups
  | targetDuration | mediaSequence | key | inf | discontinuitySequence | byterange =>
    obtain ⟨r, -, rfl⟩ := Option.map_eq_some_iff.mp h
    exact .inl rfl

/-- The groups of a playlist that has been accepted: none of them has a selection. -/
theorem fresh_parse {baseURI : AString} {data : List Char} (h : parse baseURI data = some p) :
    ∀ group ∈ p.groups, group.Fresh := by
  obtain ⟨r, hrun, hfinish⟩ := Option.bind_eq_some_iff.mp h
  let I : Parsing → Prop := fun p => ∀ k group, p.mMediaGroups.find? k = some group → group.Fresh
  have hr : I r := by
    refine Folds.invariant (P := I) (fun line _ p q hp h => ?_) hrun fun k group hgroup => ?_
    · refine Parsing.parseLine_rule (I := I) (J := I) ?_ ?_ ?_ ?_ ?_ h hp
      · exact fun p hp => hp
      · exact fun p n hp => hp
      · exact fun p hp => hp
      · intro p q tag hp _ _ h
        rcases mMediaGroups_parseTag h with heq | hmedia
        · exact fun k group hgroup => hp k group (heq ▸ hgroup)
        · exact fresh_parseMedia hmedia hp
      · intro p q hp _ _ h
        obtain ⟨message, -, ⟨-, rfl⟩ | ⟨-, -, rfl⟩⟩ := Parsing.parseUri_cases h
        · exact hp
        · exact hp
    · exact nomatch hgroup
  have hsame : p.mMediaGroups = r.mMediaGroups := by
    obtain ⟨-, hnumber, -⟩ := finish_cases hfinish
    rcases number_cases hnumber with ⟨-, rfl⟩ | ⟨-, m, secs, -, -, rfl⟩
    · rfl
    · rfl
  intro group hgroup
  rw [groups, hsame, KeyedVector.mem_values] at hgroup
  obtain ⟨k, hk⟩ := hgroup
  exact hr k group hk

theorem groupsSound_parse {baseURI : AString} {data : List Char} (h : parse baseURI data = some p) :
    p.GroupsSound := by
  have hfresh := fresh_parse h
  refine ⟨fun group hmem => ?_, fun group hmem => (hfresh group hmem).noCaptions,
    fun group hmem group' hmem' _ _ => ?_⟩
  · have hunselected := (hfresh group hmem).unselected
    exact ⟨(hfresh group hmem).nonempty, by omega, by omega⟩
  · rw [(hfresh group hmem).unselected, (hfresh group' hmem').unselected]

/-! ## The selected track -/

/-- What is expected of a state: the selected tracks are the ones returned, a track that has just been
selected as the only one of its type among them, and a call that fails changes nothing. -/
structure SelectionHolds (p : M3UParser) : Prop where
  consistent : ∀ type groupType, groupTypeOf type = some groupType → p.Consistent type groupType
  selects : ∀ index q, p.selectTrack index true = (OK, q) → ∀ type groupType,
    groupTypeOf type = some groupType →
    (∃ info, p.getTrackInfo index = some info ∧ info.type = type) →
    (∀ t, IsSelected groupType q.groups t → t = index) → q.getSelectedTrack type = index
  refuses : ∀ index select, (p.selectTrack index select).1 ≠ OK → (p.selectTrack index select).2 = p

def AtMostOne (groupType : GroupType) (p : M3UParser) : Prop :=
  (p.groups.filter (·.mType = groupType)).length ≤ 1

instance (groupType : GroupType) (p : M3UParser) : Decidable (AtMostOne groupType p) :=
  inferInstanceAs (Decidable (_ ≤ _))

theorem refuses (p : M3UParser) (index : Nat) (select : Bool)
    (h : (p.selectTrack index select).1 ≠ OK) : (p.selectTrack index select).2 = p := by
  rcases selectTrack_cases p index select with ⟨-, heq⟩ | ⟨i, ii, group, -, -, -, heq⟩
  · exact heq
  · exact absurd (congrArg Prod.fst heq) h

theorem groupTypeOf_trackType {t : GroupType}
    (h : groupTypeOf (MediaGroup.trackType t) = some groupType) : t = groupType := by
  cases t with
  | TYPE_AUDIO => exact Option.some.inj h
  | TYPE_VIDEO => exact Option.some.inj h
  | TYPE_SUBS => exact Option.some.inj h
  | TYPE_CC => cases h

/-- A selected track is the selected item of its group. -/
theorem isSelected_selectTrack {q : M3UParser} {index : Nat}
    (h : p.selectTrack index true = (OK, q)) (htype : groupTypeOf type = some groupType)
    (hinfo : ∃ info, p.getTrackInfo index = some info ∧ info.type = type) :
    IsSelected groupType q.groups index := by
  obtain ⟨info, hinfo, rfl⟩ := hinfo
  rcases selectTrack_cases p index true with ⟨hfail, -⟩ | ⟨i, ii, group, hlocate, hi, hok, heq⟩
  · rw [h] at hfail
    exact absurd rfl hfail
  · obtain ⟨n, -, -, hnumber⟩ := Flat.locate_eq_some hlocate
    have hgroup : group.mType = groupType := by
      rw [getTrackInfo, hlocate, Option.bind_some, hi, Option.bind_some] at hinfo
      obtain ⟨item, -, rfl⟩ := Option.map_eq_some_iff.mp hinfo
      exact groupTypeOf_trackType htype
    rcases MediaGroup.selectTrack_cases group ii true with ⟨-, hfail⟩ | ⟨selected, hset, -, hselected⟩
    · exact absurd hok hfail
    obtain ⟨-, rfl, -⟩ | ⟨hfalse, -⟩ := hselected
    · obtain rfl : _ = q := (Prod.mk.inj (heq.symm.trans h)).2
      have hgroups : M3UParser.groups { p with
          mMediaGroups := p.mMediaGroups.modifyAt i fun _ => (group.selectTrack ii true).2
          mSelectedIndex := if true then index else -1 }
          = p.groups.modify i fun _ => { group with mSelectedIndex := ii } := by
        rw [groups, KeyedVector.values_modifyAt, hset]
        rfl
      have hcounts : (p.groups.modify i fun _ => { group with mSelectedIndex := (ii : Int) }).map
          MediaGroup.countTracks = p.counts := by
        rw [counts]
        exact map_modify hi rfl
      rw [hgroups]
      refine ⟨i, { group with mSelectedIndex := ii }, ?_, ⟨hgroup, Int.natCast_nonneg ii⟩, ?_⟩
      · rw [List.getElem?_modify, hi]
        simp
      · rw [hcounts]
        exact hnumber
    · cases hfalse

theorem atMostOne_iff (p : M3UParser) :
    AtMostOne groupType p ↔ (p.groups.map (·.mType)).count groupType ≤ 1 := by
  rw [AtMostOne, List.count_eq_countP, List.countP_map, List.countP_eq_length_filter]
  rfl

theorem AtMostOne.run (h : AtMostOne groupType p) (calls : List Call) : AtMostOne groupType (p.run calls) := by
  rw [atMostOne_iff] at h ⊢
  rw [mTypes_run]
  exact h

theorem AtMostOne.selectedFirst (h : AtMostOne groupType p) : SelectedFirst groupType p.groups := by
  rintro ⟨group, hmem, htype, hsel⟩
  have hfilter : group ∈ p.groups.filter (·.mType = groupType) := by simp [hmem, htype]
  obtain ⟨first, hfirst, hfirstmem, hfirsttype⟩ := exists_first hmem htype
  have hfirstfilter : first ∈ p.groups.filter (·.mType = groupType) := by simp [hfirstmem, hfirsttype]
  refine ⟨first, hfirst, ?_⟩
  obtain hnil | ⟨g, hg⟩ := (Nat.le_one_iff_eq_zero_or_eq_one.mp h).imp
    List.eq_nil_of_length_eq_zero List.length_eq_one_iff.mp
  · rw [hnil] at hfilter
    cases hfilter
  · rw [hg, List.mem_singleton] at hfilter hfirstfilter
    rw [hfirstfilter, ← hfilter]
    exact hsel

theorem GroupsSound.selectedFirst_video (h : p.GroupsSound) : SelectedFirst TYPE_VIDEO p.groups := by
  rintro ⟨group, hmem, htype, hsel⟩
  obtain ⟨first, hfirst, hfirstmem, hfirsttype⟩ := exists_first hmem htype
  refine ⟨first, hfirst, ?_⟩
  rw [h.videos first hfirstmem group hmem hfirsttype htype]
  exact hsel

theorem GroupsSound.selectionHolds (h : p.GroupsSound) (haudio : AtMostOne TYPE_AUDIO p)
    (hsubs : AtMostOne TYPE_SUBS p) : p.SelectionHolds := by
  have hconsistent : ∀ {p : M3UParser}, p.GroupsSound → AtMostOne TYPE_AUDIO p → AtMostOne TYPE_SUBS p →
      ∀ type groupType, groupTypeOf type = some groupType → p.Consistent type groupType := by
    intro p hp ha hs type groupType htype
    refine (consistent_iff hp.sound htype).mpr ?_
    cases groupType with
    | TYPE_AUDIO => exact ha.selectedFirst
    | TYPE_VIDEO => exact hp.selectedFirst_video
    | TYPE_SUBS => exact hs.selectedFirst
    | TYPE_CC => exact absurd htype (by cases type <;> simp [groupTypeOf])
  refine ⟨hconsistent h haudio hsubs, fun index q hq type groupType htype hinfo honly => ?_, refuses p⟩
  have hcall : p.call (.selectTrack index true) = q := congrArg Prod.snd hq
  have hsound := hcall ▸ h.call (.selectTrack index true)
  have hq' := hconsistent hsound (hcall ▸ haudio.run [.selectTrack index true])
    (hcall ▸ hsubs.run [.selectTrack index true]) type groupType htype
  obtain ⟨i, group, hi, hgroup, -⟩ := isSelected_selectTrack hq htype hinfo
  have hne : q.getSelectedTrack type ≠ -1 := fun heq =>
    hq'.unselected.mp heq ⟨group, List.mem_of_getElem? hi, hgroup⟩
  obtain ⟨t, ht, -, -, hselected⟩ := hq'.selected hne
  rw [ht, honly t hselected]

/-- Of two groups of a type in which items can be selected, the later one can be the only one with a
selection. -/
theorem exists_not_selectedFirst (hfresh : ∀ group ∈ p.groups, group.Fresh)
    (htype : groupType = TYPE_AUDIO ∨ groupType = TYPE_SUBS) (hmany : ¬AtMostOne groupType p) :
    ∃ index, ¬SelectedFirst groupType (p.run [.selectTrack index true]).groups := by
  obtain ⟨g, g', rest', hfilter⟩ : ∃ g g' rest',
      p.groups.filter (·.mType = groupType) = g :: g' :: rest' := by
    rw [AtMostOne] at hmany
    cases hfilter : p.groups.filter (·.mType = groupType) with
    | nil => simp [hfilter] at hmany
    | cons g rest =>
      cases rest with
      | nil => simp [hfilter] at hmany
      | cons g' rest' => exact ⟨g, g', rest', rfl⟩
  obtain ⟨pre, rest, hgroups, hpre, hg, hrest⟩ := List.filter_eq_cons_iff.mp hfilter
  obtain ⟨mid, post, rfl, -, hg', -⟩ := List.filter_eq_cons_iff.mp hrest
  rw [decide_eq_true_iff] at hg hg'
  have hgroups : p.groups = (pre ++ g :: mid) ++ g' :: post := by simp [hgroups]
  have hgfresh := hfresh g (by simp [hgroups])
  have hgfresh' := hfresh g' (by simp [hgroups])
  have hi : p.groups[(pre ++ g :: mid).length]? = some g' := by simp [hgroups]
  have hcount : p.counts[(pre ++ g :: mid).length]? = some g'.countTracks := by
    rw [counts, List.getElem?_map, hi, Option.map_some]
  have hset : g'.selectTrack 0 true = (OK, { g' with mSelectedIndex := 0 }) := by
    have hlength := hgfresh'.nonempty
    rw [MediaGroup.countTracks] at hlength
    have hsubs : ¬(g'.mType ≠ TYPE_SUBS ∧ g'.mType ≠ TYPE_AUDIO) := by
      rw [hg']
      rcases htype with rfl | rfl <;> simp
    rw [MediaGroup.selectTrack, if_neg hsubs, if_pos rfl, if_neg (by omega), hgfresh'.unselected,
      if_neg (by decide)]
    rfl
  have hafter : (p.run [.selectTrack (Flat.number p.counts (pre ++ g :: mid).length 0) true]).groups
      = (pre ++ g :: mid) ++ { g' with mSelectedIndex := 0 } :: post := by
    rw [run, List.foldl_cons, List.foldl_nil, call, selectTrack,
      Flat.locate_number hcount hgfresh'.nonempty]
    dsimp only
    rw [hi]
    dsimp only
    rw [hset, if_pos rfl, groups, KeyedVector.values_modifyAt, ← groups, hgroups,
      modify_append_cons]
  refine ⟨Flat.number p.counts (pre ++ g :: mid).length 0, fun h => ?_⟩
  rw [hafter] at h
  obtain ⟨first, hfirst, hsel⟩ := h ⟨{ g' with mSelectedIndex := 0 }, by simp, hg', Int.le_refl 0⟩
  have hfind : pre.find? (·.mType = groupType) = none := by
    rw [List.find?_eq_none]
    exact hpre
  rw [List.append_assoc, List.find?_append, hfind, Option.none_or, List.cons_append,
    List.find?_cons_of_pos (by simpa using hg)] at hfirst
  obtain rfl := Option.some.inj hfirst
  rw [hgfresh.unselected] at hsel
  exact absurd hsel (by decide)

/-- Two groups of audio, each of one item. -/
def twoAudios : List Char :=
  ("#EXTM3U\n#EXT-X-MEDIA:TYPE=AUDIO,GROUP-ID=\"a\",NAME=\"n\"\n"
    ++ "#EXT-X-MEDIA:TYPE=AUDIO,GROUP-ID=\"b\",NAME=\"n\"\n#EXT-X-STREAM-INF:AUDIO=\"b\"\nu").toList

/-- A group of two audio items, and one of subtitles. -/
def audioAndSubtitles : List Char :=
  ("#EXTM3U\n#EXT-X-MEDIA:TYPE=AUDIO,GROUP-ID=\"a\",NAME=\"n\",URI=\"n\"\n"
    ++ "#EXT-X-MEDIA:TYPE=AUDIO,GROUP-ID=\"a\",NAME=\"m\",URI=\"m\"\n"
    ++ "#EXT-X-MEDIA:TYPE=SUBTITLES,GROUP-ID=\"s\",NAME=\"e\",URI=\"e\"\n"
    ++ "#EXT-X-STREAM-INF:AUDIO=\"a\",SUBTITLES=\"s\"\nu").toList

/-- Of an accepted playlist: a state is right about the selected tracks exactly when the first group of
each type has a selection if any has, and all states are, exactly when there are no two groups of audio
and no two of subtitles. -/
theorem getSelectedTrack_consistent {p₀ : M3UParser} (baseURI : AString) (data : List Char)
    (h : parse baseURI data = some p₀) :
    (∀ calls type groupType, groupTypeOf type = some groupType →
      ((p₀.run calls).Consistent type groupType ↔ SelectedFirst groupType (p₀.run calls).groups)) ∧
    ((∀ calls, (p₀.run calls).SelectionHolds) ↔ AtMostOne TYPE_AUDIO p₀ ∧ AtMostOne TYPE_SUBS p₀) := by
  have hsound := groupsSound_parse h
  have hiff : ∀ calls type groupType, groupTypeOf type = some groupType →
      ((p₀.run calls).Consistent type groupType ↔ SelectedFirst groupType (p₀.run calls).groups) :=
    fun calls type groupType htype => consistent_iff (hsound.run calls).sound htype
  refine ⟨hiff, fun hall => ?_, fun ⟨haudio, hsubs⟩ calls =>
    (hsound.run calls).selectionHolds (haudio.run calls) (hsubs.run calls)⟩
  have hone : ∀ type groupType, groupTypeOf type = some groupType →
      groupType = TYPE_AUDIO ∨ groupType = TYPE_SUBS → AtMostOne groupType p₀ := by
    intro type groupType htype hgroup
    by_contra hmany
    obtain ⟨index, hnot⟩ := exists_not_selectedFirst (fresh_parse h) hgroup hmany
    exact hnot ((hiff _ type groupType htype).mp ((hall _).consistent type groupType htype))
  exact ⟨hone MEDIA_TRACK_TYPE_AUDIO _ rfl (.inl rfl), hone MEDIA_TRACK_TYPE_SUBTITLE _ rfl (.inr rfl)⟩

theorem getSelectedTrack_consistent_twoPlaylists :
    (∃ p₀, parse [] audioAndSubtitles = some p₀ ∧ (∀ calls, (p₀.run calls).SelectionHolds) ∧
        (p₀.run [.selectTrack 1 true, .selectTrack 2 true]).groups.map (·.mSelectedIndex) = [1, 0] ∧
        (p₀.run [.selectTrack 1 true, .selectTrack 2 true]).Consistent MEDIA_TRACK_TYPE_AUDIO
          TYPE_AUDIO) ∧
      ∃ p₀, parse [] twoAudios = some p₀ ∧ ¬∀ calls, (p₀.run calls).SelectionHolds := by
  constructor
  · have hany : ((parse [] audioAndSubtitles).any fun p₀ => AtMostOne TYPE_AUDIO p₀ ∧
        AtMostOne TYPE_SUBS p₀ ∧
        (p₀.run [.selectTrack 1 true, .selectTrack 2 true]).groups.map (·.mSelectedIndex) =
          [1, 0]) = true := by
      decide +kernel
    obtain ⟨p₀, hp₀, hall⟩ := (Option.any_eq_true _ _).mp hany
    obtain ⟨haudio, hsubs, hselected⟩ := of_decide_eq_true hall
    have hholds := (getSelectedTrack_consistent [] audioAndSubtitles hp₀).2.mpr ⟨haudio, hsubs⟩
    exact ⟨p₀, hp₀, hholds, hselected, (hholds _).consistent MEDIA_TRACK_TYPE_AUDIO _ rfl⟩
  · have hany : ((parse [] twoAudios).any fun p₀ => ¬AtMostOne TYPE_AUDIO p₀) = true := by
      decide +kernel
    obtain ⟨p₀, hp₀, hall⟩ := (Option.any_eq_true _ _).mp hany
    refine ⟨p₀, hp₀, fun hholds => of_decide_eq_true hall ?_⟩
    exact ((getSelectedTrack_consistent [] twoAudios hp₀).2.mp hholds).1

/-- The second audio track has just been selected, as the only one, and the first one is returned. -/
theorem not_getSelectedTrack_secondGroup : ∃ p₀ q, parse [] twoAudios = some p₀ ∧
    p₀.selectTrack 1 true = (OK, q) ∧ q.groups.map (·.mSelectedIndex) = [-1, 0] ∧
    q.getSelectedTrack MEDIA_TRACK_TYPE_AUDIO = 0 ∧ ¬q.SelectionHolds := by
  have hany : ((parse [] twoAudios).any fun p₀ => (p₀.selectTrack 1 true).1 = OK
      ∧ (p₀.selectTrack 1 true).2.groups.map (·.mSelectedIndex) = [-1, 0]
      ∧ (p₀.selectTrack 1 true).2.groups.map (·.countTracks) = [1, 1]
      ∧ (p₀.selectTrack 1 true).2.groups.map (·.mType) = [ TYPE_AUDIO, TYPE_AUDIO]
      ∧ (p₀.selectTrack 1 true).2.getSelectedTrack MEDIA_TRACK_TYPE_AUDIO = 0) = true := by
    decide +kernel
  obtain ⟨p₀, hp₀, hall⟩ := (Option.any_eq_true _ _).mp hany
  obtain ⟨hok, hselected, hcounts, htypes, htrack⟩ := of_decide_eq_true hall
  refine ⟨p₀, (p₀.selectTrack 1 true).2, hp₀, Prod.ext hok rfl, hselected, htrack, fun h => ?_⟩
  obtain ⟨t, ht, -, -, i, group, hi, ⟨-, hsel⟩, hnumber⟩ :=
    (h.consistent MEDIA_TRACK_TYPE_AUDIO _ rfl).selected (by rw [htrack]; decide)
  rw [hcounts] at hnumber
  have hindex : ([-1, 0] : List Int)[i]? = some group.mSelectedIndex := by
    rw [← hselected, List.getElem?_map, hi, Option.map_some]
  rcases i with _ | _ | i
  · obtain hneg : -1 = group.mSelectedIndex := Option.some.inj hindex
    omega
  · obtain hzero : 0 = group.mSelectedIndex := Option.some.inj hindex
    rw [← hzero] at hnumber
    have hone : t = 1 := hnumber
    omega
  · cases hindex

end M3UParser

end MediaFramework.Hls
