import MediaFramework.Hls.AttributeLists
import MediaFramework.Lib.Folds

/-!
# Written media

A media item as the attributes of `EXT-X-MEDIA`, in any order and with attributes of other names
between them, and what `M3UParser` makes of it.
-/

namespace MediaFramework.Hls

open Text
open MediaGroup (GroupType Media)
open MediaGroup.GroupType

/-! ## Media -/

/-- An attribute of `EXT-X-MEDIA`. -/
inductive MediaAttr
  | type (groupType : GroupType)
  | groupID (text : AString)
  | name (text : AString)
  | language (text : AString)
  | uri (text : AString)
  | autoselect (yes : Bool)
  | default (yes : Bool)
  | forced (yes : Bool)
  | unknown (attr : Attribute)
  deriving DecidableEq

namespace MediaAttr

def typeText : GroupType → AString
  | TYPE_AUDIO => "AUDIO".toList
  | TYPE_VIDEO => "VIDEO".toList
  | TYPE_SUBS => "SUBTITLES".toList
  | TYPE_CC => "CLOSED-CAPTIONS".toList

def yesText (yes : Bool) : AString := if yes then "YES".toList else "NO".toList

def written : MediaAttr → Attribute
  | type groupType => ⟨"TYPE".toList, .token (typeText groupType)⟩
  | groupID text => ⟨"GROUP-ID".toList, .quotedString text⟩
  | name text => ⟨"NAME".toList, .quotedString text⟩
  | language text => ⟨"LANGUAGE".toList, .quotedString text⟩
  | uri text => ⟨"URI".toList, .quotedString text⟩
  | autoselect yes => ⟨"AUTOSELECT".toList, .token (yesText yes)⟩
  | default yes => ⟨"DEFAULT".toList, .token (yesText yes)⟩
  | forced yes => ⟨"FORCED".toList, .token (yesText yes)⟩
  | unknown attr => attr

/-- The names that are not unknown. -/
def names : List AString :=
  ["type", "group-id", "name", "language", "uri", "autoselect", "default", "forced"].map String.toList

def Valid : MediaAttr → Prop
  | unknown attr => ∀ known ∈ names, strcaseeq known attr.name = false
  | _ => True

instance : DecidablePred Valid
  | unknown attr => inferInstanceAs (Decidable (∀ known ∈ names, strcaseeq known attr.name = false))
  | type _ | groupID _ | name _ | language _ | uri _ | autoselect _ | default _ | forced _ =>
    inferInstanceAs (Decidable True)

def known : MediaAttr → Bool
  | unknown _ => false
  | _ => true

/-- Attributes of different kinds set different variables. -/
def kind : MediaAttr → Nat
  | type _ => 0
  | groupID _ => 1
  | name _ => 2
  | language _ => 3
  | uri _ => 4
  | autoselect _ => 5
  | default _ => 6
  | forced _ => 7
  | unknown _ => 8

def set (a : MediaAttr) (m : MediaAttributes) : MediaAttributes :=
  match a with
  | type groupType => { m with groupType := some groupType }
  | groupID text => { m with groupID := some text }
  | name text => { m with groupName := some text }
  | language text => { m with groupLanguage := some text }
  | uri text => { m with groupURI := some text }
  | autoselect yes => { m with groupAutoselect := some yes }
  | default yes => { m with groupDefault := some yes }
  | forced yes => { m with groupForced := some yes }
  | unknown _ => m

variable {m : MediaAttributes} {a : MediaAttr}

theorem yesOrNo_yesText (yes : Bool) : yesOrNo (yesText yes) = some yes := by
  cases yes <;> decide

theorem groupTypeOf_typeText (groupType : GroupType) :
    groupTypeOf (typeText groupType) = some groupType := by
  cases groupType <;> decide

theorem mediaAttribute_unknown {key val : AString}
    (h : ∀ known ∈ names, strcaseeq known key = false) : mediaAttribute m (key, val) = some m := by
  have hnames : ∀ known ∈ names, ¬strcaseeq known key = true := fun known hknown =>
    Bool.eq_false_iff.mp (h known hknown)
  rw [names, List.forall_mem_map] at hnames
  rw [mediaAttribute]
  rw [if_neg (hnames "type" (by simp)), if_neg (hnames "group-id" (by simp)),
    if_neg (hnames "language" (by simp)), if_neg (hnames "name" (by simp)),
    if_neg (hnames "autoselect" (by simp)), if_neg (hnames "default" (by simp)),
    if_neg (hnames "forced" (by simp)), if_neg (hnames "uri" (by simp))]

theorem mediaAttribute_written (h : a.Valid) :
    mediaAttribute m (a.written.name, a.written.value.text) = some (a.set m) := by
  cases a with
  | type groupType => exact congrArg (Option.map _) (groupTypeOf_typeText groupType)
  | groupID text => exact congrArg (Option.map _) (quoted_text text)
  | name text => exact congrArg (Option.map _) (quoted_text text)
  | language text => exact congrArg (Option.map _) (quoted_text text)
  | uri text => exact congrArg (Option.map _) (quoted_text text)
  | autoselect yes => exact congrArg (Option.map _) (yesOrNo_yesText yes)
  | default yes => exact congrArg (Option.map _) (yesOrNo_yesText yes)
  | forced yes => exact congrArg (Option.map _) (yesOrNo_yesText yes)
  | unknown attr => exact mediaAttribute_unknown h

theorem set_comm {x y : MediaAttr} (m : MediaAttributes) (h : x.kind ≠ y.kind) :
    y.set (x.set m) = x.set (y.set m) := by
  cases x <;> cases y <;> first | exact absurd rfl h | rfl

end MediaAttr

/-- What `EXT-X-MEDIA` says of a media item. Closed captions are ignored, and only subtitles may be
forced. -/
structure MediaValues where
  groupType : GroupType
  groupID : AString
  name : AString
  language : Option AString
  uri : Option AString
  autoselect : Option Bool
  default : Option Bool
  forced : Option Bool
  kept : groupType ≠ TYPE_CC
  forced_subs : forced.isSome = true → groupType = TYPE_SUBS

namespace MediaValues

variable (v : MediaValues)

def attrs : List MediaAttr :=
  [.type v.groupType, .groupID v.groupID, .name v.name] ++
    (v.language.toList.map .language ++ (v.uri.toList.map .uri ++
      (v.autoselect.toList.map .autoselect ++ (v.default.toList.map .default ++
        v.forced.toList.map .forced))))

/-- The attributes in some order, and unknown ones between them. -/
structure Written (as : List (Padded MediaAttr)) : Prop where
  clean : ∀ a ∈ as, a.Clean MediaAttr.written
  valid : ∀ a ∈ as, a.attr.Valid
  attrs : ((as.map Padded.attr).filter MediaAttr.known).Perm v.attrs

instance : DecidablePred v.Written := fun as =>
  decidable_of_iff ((∀ a ∈ as, a.Clean MediaAttr.written) ∧ (∀ a ∈ as, a.attr.Valid) ∧
      ((as.map Padded.attr).filter MediaAttr.known).Perm v.attrs)
    ⟨fun h => ⟨h.1, h.2.1, h.2.2⟩, fun h => ⟨h.clean, h.valid, h.attrs⟩⟩

def flags : Nat :=
  (if v.autoselect = some true then MediaGroup.FLAG_AUTOSELECT else 0) +
    (if v.default = some true then MediaGroup.FLAG_DEFAULT else 0) +
      (if v.forced = some true then MediaGroup.FLAG_FORCED else 0) +
        (if v.language.isSome then MediaGroup.FLAG_HAS_LANGUAGE else 0) +
          (if v.uri.isSome then MediaGroup.FLAG_HAS_URI else 0)

def media : Media := ⟨v.name, v.uri.getD [], v.language.getD [], v.flags⟩

/-- The variables that are set. -/
def assigned : MediaAttributes where
  groupType := some v.groupType
  groupID := some v.groupID
  groupLanguage := v.language
  groupName := some v.name
  groupAutoselect := v.autoselect
  groupDefault := v.default
  groupForced := v.forced
  groupURI := v.uri

variable {v : MediaValues} {as : List (Padded MediaAttr)}

theorem optional_kind {α : Type} (o : Option α) (f : α → MediaAttr) (k : Nat)
    (h : ∀ x, (f x).kind = k) : ((o.toList.map f).map MediaAttr.kind).Sublist [k] := by
  cases o with
  | none => exact List.nil_sublist _
  | some x =>
    simp only [Option.toList_some, List.map_cons, List.map_nil, h]
    exact List.Sublist.refl _

theorem nodup_kinds (v : MediaValues) : (v.attrs.map MediaAttr.kind).Nodup := by
  have hall : ([0, 1, 2] ++ ([3] ++ ([4] ++ ([5] ++ ([6] ++ [7]))))).Nodup := by decide
  refine List.Sublist.nodup ?_ hall
  rw [attrs, List.map_append, List.map_append, List.map_append, List.map_append, List.map_append]
  refine (List.Sublist.refl _).append ?_
  refine (optional_kind v.language .language 3 fun _ => rfl).append ?_
  refine (optional_kind v.uri .uri 4 fun _ => rfl).append ?_
  refine (optional_kind v.autoselect .autoselect 5 fun _ => rfl).append ?_
  refine (optional_kind v.default .default 6 fun _ => rfl).append ?_
  exact optional_kind v.forced .forced 7 fun _ => rfl

theorem foldl_attrs (v : MediaValues) :
    v.attrs.foldl (fun m a => a.set m) {} = v.assigned := by
  obtain ⟨groupType, groupID, name, language, uri, autoselect, default, forced, -, -⟩ := v
  cases language <;> cases uri <;> cases autoselect <;> cases default <;> cases forced <;> rfl

/-- In every order the variables are set to the values. -/
theorem Written.foldlM (h : v.Written as) :
    (as.map fun a => (a.attr.written.name, a.attr.written.value.text)).foldlM mediaAttribute {} =
      some v.assigned := by
  have hstep : ∀ a ∈ as, ∀ m, mediaAttribute m (a.attr.written.name, a.attr.written.value.text) =
      some (a.attr.set m) := fun a ha m => MediaAttr.mediaAttribute_written (h.valid a ha)
  have hall : (as.map Padded.attr).foldl (fun m a => a.set m) {} =
      v.attrs.foldl (fun m a => a.set m) {} := by
    refine Folds.foldl_filter_perm (fun m a ha => ?_) (fun m x y => MediaAttr.set_comm m) h.attrs
      v.nodup_kinds _
    cases a <;> first | rfl | cases ha
  rw [List.foldl_map] at hall
  rw [List.foldlM_map, Folds.foldlM_some hstep, hall, foldl_attrs]

theorem flags_assigned (v : MediaValues) : mediaFlags v.assigned = v.flags := by
  rw [mediaFlags, flags, assigned]
  dsimp only [MediaGroup.FLAG_AUTOSELECT, MediaGroup.FLAG_DEFAULT, MediaGroup.FLAG_FORCED,
    MediaGroup.FLAG_HAS_LANGUAGE, MediaGroup.FLAG_HAS_URI]
  split_ifs <;> rfl

theorem mem_attr (h : v.Written as) {a : MediaAttr} (ha : a ∈ v.attrs) : a.written.Clean := by
  have hmem := h.attrs.mem_iff.mpr ha
  obtain ⟨b, hb, rfl⟩ := List.mem_map.mp (List.mem_filter.mp hmem).1
  exact (h.clean b hb).attr

/-- The texts have no NUL. -/
theorem Written.cstr_texts (h : v.Written as) : cstr v.groupID = v.groupID ∧
    cstr v.name = v.name ∧ cstr (v.uri.getD []) = v.uri.getD [] ∧
      cstr (v.language.getD []) = v.language.getD [] := by
  have htext : ∀ {text : AString}, (AttributeValue.quotedString text).Clean → cstr text = text :=
    fun hclean => cstr_eq fun hnul => (hclean _ hnul).2.2.2 rfl
  refine ⟨?_, ?_, ?_, ?_⟩
  · exact htext (mem_attr h (show MediaAttr.groupID v.groupID ∈ v.attrs by simp [MediaValues.attrs])).value
  · exact htext (mem_attr h (show MediaAttr.name v.name ∈ v.attrs by simp [MediaValues.attrs])).value
  · cases huri : v.uri with
    | none => rfl
    | some text =>
      exact htext (mem_attr h (show MediaAttr.uri text ∈ v.attrs by
        simp [MediaValues.attrs, huri])).value
  · cases hlanguage : v.language with
    | none => rfl
    | some text =>
      exact htext (mem_attr h (show MediaAttr.language text ∈ v.attrs by
        simp [MediaValues.attrs, hlanguage])).value

end MediaValues

/-! ## The groups that are left -/

/-- The tag of a media item. -/
def mediaLine (as : List (Padded MediaAttr)) : AString :=
  Tag.media.text ++ ':' :: attributeList MediaAttr.written as

/-- From the search for the group on: what `parseMedia` returns, `false` for `ERROR_MALFORMED`, and
the groups that it leaves. -/
def putMediaState (groups : KeyedVector AString MediaGroup) (m : MediaAttributes)
    (groupType : GroupType) (groupID groupName : AString) :
    Bool × KeyedVector AString MediaGroup :=
  if m.groupForced.isSome ∧ groupType ≠ TYPE_SUBS then (false, groups)
  else
    match groups.find? (cstr groupID) with
    | none =>
      let group : MediaGroup := { mType := groupType }
      (true, groups.set (cstr groupID)
        (group.addMedia groupName m.groupURI m.groupLanguage (mediaFlags m)))
    | some group =>
      if group.mType ≠ groupType then (false, groups)
      else (true, groups.set (cstr groupID)
        (group.addMedia groupName m.groupURI m.groupLanguage (mediaFlags m)))

/-- `parseMedia` with the groups that it leaves where it fails. -/
def parseMediaState (line : AString) (groups : KeyedVector AString MediaGroup) :
    Bool × KeyedVector AString MediaGroup :=
  match (attributes line).bind fun attrs => attrs.foldlM mediaAttribute {} with
  | none => (false, groups)
  | some m =>
    match m.groupType, m.groupID, m.groupName with
    | some groupType, some groupID, some groupName =>
      if groupType = TYPE_CC then (true, groups)
      else putMediaState groups m groupType groupID groupName
    | _, _, _ => (false, groups)

/-- What is left is what `parseMedia` makes, or what there was. -/
theorem parseMediaState_eq (line : AString) (groups : KeyedVector AString MediaGroup) :
    parseMediaState line groups =
      ((parseMedia line groups).isSome, (parseMedia line groups).getD groups) := by
  have hput : ∀ (m : MediaAttributes) (groupType : GroupType) (groupID groupName : AString),
      putMediaState groups m groupType groupID groupName =
        ((putMedia groups m groupType groupID groupName).isSome,
          (putMedia groups m groupType groupID groupName).getD groups) := by
    intro m groupType groupID groupName
    rw [putMediaState, putMedia]
    split
    · rfl
    · cases groups.find? (cstr groupID) with
      | none =>
        rw [Option.getD_none, if_neg (not_not.mpr rfl)]
        rfl
      | some group =>
        rw [Option.getD_some]
        dsimp only
        split <;> rfl
  rw [parseMediaState, parseMedia]
  cases attributes line with
  | none => rfl
  | some attrs =>
    rw [Option.bind_some, Option.bind_some]
    cases attrs.foldlM mediaAttribute {} with
    | none => rfl
    | some m =>
      rw [Option.bind_some]
      dsimp only
      cases m.groupType with
      | none => rfl
      | some groupType =>
        cases m.groupID with
        | none => rfl
        | some groupID =>
          cases m.groupName with
          | none => rfl
          | some groupName =>
            dsimp only [Option.bind_some]
            split
            · rfl
            · exact hput m groupType groupID groupName

namespace MediaValues

variable {v : MediaValues} {as : List (Padded MediaAttr)} {groups : KeyedVector AString MediaGroup}

/-- There is a group of the identifier with another type. -/
def Conflicts (v : MediaValues) (groups : KeyedVector AString MediaGroup) : Prop :=
  ∃ group, groups.find? v.groupID = some group ∧ group.mType ≠ v.groupType

/-- One more item in the group of the identifier, and nothing else is changed. -/
structure Added (v : MediaValues) (groups groups' : KeyedVector AString MediaGroup) : Prop where
  group : ∃ group, groups'.find? v.groupID = some group ∧ group.mType = v.groupType ∧
    group.mMediaItems =
      ((groups.find? v.groupID).map MediaGroup.mMediaItems).getD [] ++ [v.media] ∧
    group.mSelectedIndex = ((groups.find? v.groupID).map MediaGroup.mSelectedIndex).getD (-1)
  others : ∀ id, id ≠ v.groupID → groups'.find? id = groups.find? id

theorem Written.parseMedia (h : v.Written as) : parseMedia (mediaLine as) groups =
    let group := (groups.find? v.groupID).getD { mType := v.groupType }
    if group.mType ≠ v.groupType then none
    else some (groups.set v.groupID { group with mMediaItems := group.mMediaItems ++ [v.media] }) := by
  obtain ⟨hid, hname, huri, hlanguage⟩ := h.cstr_texts
  have hforced : ¬(v.assigned.groupForced.isSome = true ∧ v.groupType ≠ TYPE_SUBS) :=
    fun hboth => hboth.2 (v.forced_subs hboth.1)
  have hitem : ∀ group : MediaGroup,
      group.addMedia v.name v.assigned.groupURI v.assigned.groupLanguage (mediaFlags v.assigned) =
        { group with mMediaItems := group.mMediaItems ++ [v.media] } := by
    intro group
    rw [MediaGroup.addMedia, flags_assigned, hname]
    show { group with
      mMediaItems := group.mMediaItems ++ [(⟨v.name, cstr (v.uri.getD []), cstr (v.language.getD []), v.flags⟩ : Media)] } = _
    rw [huri, hlanguage]
    rfl
  rw [Hls.parseMedia, mediaLine, attributes_list (by decide) h.clean, Option.bind_some, h.foldlM,
    Option.bind_some]
  show (if v.groupType = TYPE_CC then some groups
    else putMedia groups v.assigned v.groupType v.groupID v.name) = _
  rw [if_neg v.kept, putMedia, if_neg hforced, hid]
  dsimp only
  rw [hitem]

theorem Written.added (h : v.Written as) (hgroup : ¬v.Conflicts groups) :
    ∃ groups', Hls.parseMedia (mediaLine as) groups = some groups' ∧ v.Added groups groups' := by
  have htype : ((groups.find? v.groupID).getD { mType := v.groupType }).mType = v.groupType := by
    cases hfound : groups.find? v.groupID with
    | none => rfl
    | some group =>
      by_contra hne
      exact hgroup ⟨group, hfound, hne⟩
  rw [h.parseMedia]
  dsimp only
  rw [if_neg (not_not.mpr htype)]
  refine ⟨_, rfl, ⟨_, (KeyedVector.find?_set _ _ _ _).trans (if_pos rfl), htype, ?_, ?_⟩, ?_⟩
  · cases groups.find? v.groupID <;> rfl
  · cases groups.find? v.groupID <;> rfl
  · intro id hid
    rw [KeyedVector.find?_set, if_neg hid]

theorem Written.refused (h : v.Written as) (hgroup : v.Conflicts groups) :
    Hls.parseMedia (mediaLine as) groups = none := by
  obtain ⟨group, hfound, hne⟩ := hgroup
  rw [h.parseMedia, hfound]
  exact if_pos hne

/-- A line with a media item in a playlist. -/
theorem Written.parseLine (h : v.Written as) {p : Parsing} (hmarked : p.mIsExtM3U = true) :
    (v.Conflicts p.mMediaGroups → p.parseLine (mediaLine as) = none ∧
      parseMediaState (mediaLine as) p.mMediaGroups = (false, p.mMediaGroups)) ∧
    (¬v.Conflicts p.mMediaGroups → ∃ groups, v.Added p.mMediaGroups groups ∧
      p.parseLine (mediaLine as) =
        some { p with mMediaGroups := groups, lineNo := p.lineNo + 1 } ∧
      parseMediaState (mediaLine as) p.mMediaGroups = (true, groups)) := by
  have hline : p.parseLine (mediaLine as) =
      ((Hls.parseMedia (mediaLine as) p.mMediaGroups).map fun groups =>
        { p with mMediaGroups := groups }).map fun q => { q with lineNo := q.lineNo + 1 } :=
    Parsing.parseLine_marked hmarked (Tag.head_text .media _) (Tag.of_colon .media _)
      fun hboth => Bool.false_ne_true hboth.1
  rw [hline, parseMediaState_eq]
  refine ⟨fun hgroup => ?_, fun hgroup => ?_⟩
  · rw [h.refused hgroup]
    exact ⟨rfl, rfl⟩
  · obtain ⟨groups, hparse, hadded⟩ := h.added hgroup
    rw [hparse]
    exact ⟨groups, hadded, rfl, rfl⟩

end MediaValues

end MediaFramework.Hls
