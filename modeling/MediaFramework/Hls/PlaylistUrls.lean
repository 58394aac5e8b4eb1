import MediaFramework.Hls.SelectionRuns

/-!
# The URLs of a playlist

The URLs that an `M3UParser` returns of its items and of the selected items of its groups. They are
stored as the playlist has them and only made absolute here, in a `CHECK`. In the results `none` is a
failed `CHECK`.
-/

namespace MediaFramework.Hls

open Text
open MediaGroup (GroupType Media)

/-! ## The URLs -/

def schemeEnd (baseURL : AString) : Nat := (strstr (cstr baseURL) "//".toList).getD 0 + 2

/-- `MakeURL` in the `CHECK` of its callers, with its own. -/
def makeURL (mURI baseURL : AString) : Option AString :=
  (MakeURL baseURL mURI).bind fun out =>
    if schemeEnd baseURL = 7 ∨ schemeEnd baseURL = 8 then some out else none

def Item.makeURL (item : Item) (baseURL : AString) : Option AString :=
  Hls.makeURL item.mURI baseURL

def MediaGroup.Media.makeURL (item : Media) (baseURL : AString) : Option AString :=
  Hls.makeURL item.mURI baseURL

namespace MediaGroup

variable (group : MediaGroup)

/-- The item that the loop of `getActiveURI` stops at. -/
def active : Option Media :=
  if 0 ≤ group.mSelectedIndex then group.mMediaItems[group.mSelectedIndex.toNat]? else none

/-- The URL, if there is an active item. -/
def getActiveURI (baseURL : AString) : Option (Option AString) :=
  match group.active with
  | none => some none
  | some item => if item.mURI = [] then some (some []) else (item.makeURL baseURL).map some

end MediaGroup

/-! ## Types -/

def audioCodecs : List String :=
  ["ac-3", "alac", "dra1", "dtsc", "dtse", "dtsh", "dtsl", "ec-3", "enca", "g719", "g726", "m4ae",
    "mlpa", "mp4a", "raw ", "samr", "sawb", "sawp", "sevc", "sqcp", "ssmv", "twos", "agsm", "alaw",
    "dvi ", "fl32", "fl64", "ima4", "in24", "in32", "lpcm", "Qclp", "QDM2", "QDMC", "ulaw", "vdva",
    "ac-4", "Opus", "a3ds", "dts+", "dts-", "dtsx", "dtsy", "ec+3", "mha1", "mha2", "mhm1", "mhm2",
    "sevs"]

def videoCodecs : List String :=
  ["avc1", "avc2", "avcp", "drac", "encv", "mjp2", "mp4v", "mvc1", "mvc2", "resv", "s263", "svc1",
    "vc-1", "CFHD", "civd", "DV10", "dvh5", "dvh6", "dvhp", "DVOO", "DVOR", "DVTV", "DVVT", "flic",
    "gif ", "h261", "h263", "HD10", "jpeg", "M105", "mjpa", "mjpb", "png ", "PNTG", "rle ", "rpza",
    "Shr0", "Shr1", "Shr2", "Shr3", "Shr4", "SVQ1", "SVQ3", "tga ", "tiff", "WRLE", "a3d1", "a3d2",
    "a3d3", "a3d4", "avc3", "avc4", "dva1", "dvav", "dvh1", "dvhe", "hev1", "hev2", "hvc1", "hvc2",
    "hvt1", "lhe1", "lht1", "lhv1", "mjpg", "mvc3", "mvc4", "mvd1", "mvd2", "mvd3", "mvd4", "rv60",
    "svc2", "vp08", "vp09"]

def codecIsType (codec type : AString) : Bool :=
  if codec.length < 4 then false
  else if String.ofList (codec.take 4) ∈ audioCodecs then type = "audio".toList
  else if String.ofList (codec.take 4) ∈ videoCodecs then type = "video".toList
  else false

/-- The codecs of a list with commas between them. -/
def codecList (codecs : AString) : List AString :=
  (pieces (fun _ c => if c = ',' then none else some ()) () () (codecs ++ [','])).map trim

def ItemMeta.findString (m : ItemMeta) (key : AString) : Option AString :=
  if key = "audio".toList then m.audio
  else if key = "video".toList then m.video
  else if key = "subtitles".toList then m.subtitles
  else if key = "codecs".toList then m.codecs
  else if key = "cipher-method".toList then m.cipherMethod
  else if key = "cipher-uri".toList then m.cipherUri
  else if key = "cipher-iv".toList then m.cipherIv
  else none

namespace M3UParser

variable (p : M3UParser)

def size : Nat := p.mItems.length

def itemAt (index : Nat) : Option (Bool × AString × Option ItemMeta) :=
  match p.mItems[index]? with
  | none => some (false, [], none)
  | some item => (item.makeURL p.mBaseURI).map fun uri => (true, uri, some item.mMeta)

/-- What is asked for. -/
def keys : List AString := ["audio".toList, "video".toList, "subtitles".toList]

/-- What is returned, and what is written to `uri`. It is not wanted if the pointer is null. -/
def getTypeURI (index : Nat) (key : AString) (wanted : Bool) : Option (Bool × Option AString) :=
  -- media without any more specific attribute has audio and video
  let assumed : Bool := key = "audio".toList ∨ key = "video".toList
  if p.mIsVariantPlaylist then
    p.mItems[index]?.bind fun item =>
      match item.mMeta.findString key with
      | none =>
        (if wanted then (item.makeURL p.mBaseURI).map some else some none).map fun uri =>
          match item.mMeta.findString "codecs".toList with
          | none => (assumed, uri)
          | some codecs => ((codecList codecs).any fun codec => codecIsType codec key, uri)
      | some groupID =>
        if wanted then
          (p.mMediaGroups.find? (cstr groupID)).bind fun group =>
            (group.getActiveURI p.mBaseURI).bind fun uri =>
              match uri with
              | none => some (false, none)
              | some [] => (item.makeURL p.mBaseURI).map fun uri => (true, some uri)
              | some uri => some (true, some uri)
        else some (true, none)
  else some (assumed, if wanted then some p.mBaseURI else none)

end M3UParser

/-! ## Making a URL -/

/-- What `MakeURL` takes as a base. -/
def IsBase (baseURL : AString) : Prop :=
  startsWithIgnoreCase baseURL "http://".toList ∨ startsWithIgnoreCase baseURL "https://".toList
    ∨ startsWithIgnoreCase baseURL "file://".toList

def IsHttp (url : AString) : Prop :=
  startsWithIgnoreCase url "http://".toList ∨ startsWithIgnoreCase url "https://".toList

def IsData (url : AString) : Prop := startsWithIgnoreCase url "data:".toList

instance (url : AString) : Decidable (IsData url) := inferInstanceAs (Decidable (_ = true))

def inAuthority (c : Char) : Bool := c ≠ '/' ∧ c ≠ '?' ∧ c ≠ '#'

/-- The scheme and the authority of an absolute URL. -/
def origin (baseURL : AString) : AString :=
  (cstr baseURL).take (schemeEnd baseURL)
    ++ ((cstr baseURL).drop (schemeEnd baseURL)).takeWhile inAuthority

section MakeURL

variable {baseURL mURI out : AString}

theorem schemeEnd_of_scheme {scheme : AString} (hscheme : '/' ∉ scheme)
    (h : startsWithIgnoreCase baseURL (scheme ++ "://".toList)) :
    schemeEnd baseURL = scheme.length + 3 := by
  rw [schemeEnd, strstr_scheme hscheme ((startsWithIgnoreCase_cstr _ _).trans h)]
  rfl

theorem schemeEnd_eq (h : IsBase baseURL) : schemeEnd baseURL = 7 ∨ schemeEnd baseURL = 8 := by
  rcases h with h | h | h
  · exact .inl (schemeEnd_of_scheme (by decide : '/' ∉ "http".toList) h)
  · exact .inr (schemeEnd_of_scheme (by decide : '/' ∉ "https".toList) h)
  · exact .inl (schemeEnd_of_scheme (by decide : '/' ∉ "file".toList) h)

theorem takeWhile_prefix_take {α : Type*} {keep : α → Bool} {l : List α} {n : Nat}
    (h : ∀ a, l[n]? = some a → keep a = false) : l.takeWhile keep <+: l.take n := by
  induction l generalizing n with
  | nil => simp
  | cons a l ih =>
    cases n with
    | zero =>
      have ha : keep a = false := h a rfl
      simp [ha]
    | succ n =>
      rw [List.take_succ_cons]
      cases ha : keep a with
      | true =>
        rw [List.takeWhile_cons_of_pos ha]
        exact List.cons_prefix_cons.mpr ⟨rfl, ih fun b hb => h b hb⟩
      | false =>
        rw [List.takeWhile_cons_of_neg (by simp [ha])]
        exact List.nil_prefix

/-- Where a base can be cut. -/
theorem origin_le_take {n : Nat} (hn : schemeEnd baseURL ≤ n)
    (h : ∀ c, (cstr baseURL)[n]? = some c → inAuthority c = false) :
    origin baseURL <+: (cstr baseURL).take n := by
  have htake : (cstr baseURL).take n = (cstr baseURL).take (schemeEnd baseURL)
      ++ ((cstr baseURL).drop (schemeEnd baseURL)).take (n - schemeEnd baseURL) := by
    rw [← List.take_add, Nat.add_sub_cancel' hn]
  rw [htake, origin, List.prefix_append_right_inj]
  refine takeWhile_prefix_take fun c hc => h c ?_
  rwa [List.getElem?_drop, Nat.add_sub_cancel' hn] at hc

/-- The end of the path of a base: its last slash in front of a query, or else the query. -/
theorem not_inAuthority_pathEnd {url : AString} {qsPos : Nat} {slash : Option Nat} {c : Char}
    (hqs : (find url '?' 0).getD url.length = qsPos)
    (hslash : ((url.take qsPos).reverse.idxOf? '/').map (fun i => qsPos - 1 - i) = slash)
    (hc : url[slash.getD qsPos]? = some c) : inAuthority c = false := by
  have hquery : qsPos ≤ url.length ∧ ∀ c, url[qsPos]? = some c → c = '?' := by
    cases hfind : find url '?' 0 with
    | none =>
      rw [hfind, Option.getD_none] at hqs
      subst hqs
      exact ⟨Nat.le_refl _, fun c hc => by simp at hc⟩
    | some i =>
      rw [hfind, Option.getD_some] at hqs
      subst hqs
      obtain ⟨-, hget⟩ := find_eq_some hfind
      exact ⟨Nat.le_of_lt (List.getElem?_eq_some_iff.mp hget).1,
        fun c hc => (Option.some.inj (hget.symm.trans hc)).symm⟩
  obtain ⟨hlength, hquery⟩ := hquery
  cases hidx : (url.take qsPos).reverse.idxOf? '/' with
  | none =>
    rw [hidx, Option.map_none] at hslash
    subst hslash
    obtain rfl := hquery c hc
    rfl
  | some i =>
    rw [hidx, Option.map_some] at hslash
    subst hslash
    obtain ⟨hlt, heq, -⟩ := List.idxOf?_eq_some_iff.mp hidx
    rw [List.length_reverse, List.length_take, Nat.min_eq_left hlength] at hlt
    rw [List.getElem_reverse, List.getElem_take] at heq
    obtain ⟨hin, heq'⟩ := List.getElem?_eq_some_iff.mp hc
    have hpos : (url.take qsPos).length - 1 - i = qsPos - 1 - i := by
      rw [List.length_take, Nat.min_eq_left hlength]
    simp only [hpos] at heq
    obtain rfl : c = '/' := heq'.symm.trans heq
    rfl

theorem origin_le : origin baseURL <+: cstr baseURL := by
  rw [origin]
  nth_rw 3 [← List.take_append_drop (schemeEnd baseURL) (cstr baseURL)]
  exact (List.prefix_append_right_inj _).mpr (List.takeWhile_prefix _)

theorem MakeURL_eq_none (h : IsBase baseURL) : MakeURL baseURL mURI = none ↔ IsData mURI := by
  rw [IsBase, ← startsWithIgnoreCase_cstr, ← startsWithIgnoreCase_cstr baseURL "https://".toList,
    ← startsWithIgnoreCase_cstr baseURL "file://".toList] at h
  rw [IsData, ← startsWithIgnoreCase_cstr]
  have hbase := fun hnot => not_or.mpr ⟨And.left hnot, not_or.mpr (And.right hnot)⟩ h
  simp only [MakeURL]
  rw [if_neg hbase]
  split
  · rename_i hdata
    exact ⟨fun _ => hdata, fun _ => rfl⟩
  · rename_i hdata
    refine ⟨fun heq => ?_, fun heq => absurd heq hdata⟩
    split at heq
    · cases heq
    · split at heq
      · split at heq
        · cases heq
        · cases heq
      · cases heq

/-- A URL is made of an `http` URL itself or of the base up to a place behind its authority. -/
theorem MakeURL_cases (h : MakeURL baseURL mURI = some out) :
    (IsHttp out ∧ out = cstr mURI) ∨ origin baseURL <+: out := by
  simp only [MakeURL] at h
  split at h
  · cases h
  · split at h
    · cases h
    · split at h
      · rename_i hhttp
        obtain rfl := Option.some.inj h
        exact .inl ⟨hhttp, rfl⟩
      · refine .inr ?_
        split at h
        · split at h
          · rename_i pathStart hfind
            obtain rfl := Option.some.inj h
            obtain ⟨hle, hget⟩ := find_eq_some hfind
            refine (origin_le_take hle fun c hc => ?_).trans (List.prefix_append _ _)
            obtain rfl := Option.some.inj (hget.symm.trans hc)
            rfl
          · obtain rfl := Option.some.inj h
            exact origin_le.trans (List.prefix_append _ _)
        · obtain rfl := Option.some.inj h
          refine List.IsPrefix.trans ?_ (List.prefix_append _ _)
          split
          · rename_i hle
            exact origin_le_take hle fun c hc => not_inAuthority_pathEnd rfl rfl hc
          · exact origin_le

theorem makeURL_eq (h : IsBase baseURL) : makeURL mURI baseURL = MakeURL baseURL mURI := by
  rw [makeURL, funext fun out => if_pos (schemeEnd_eq h), Option.bind_fun_some]

end MakeURL

/-! ## The texts of an accepted playlist -/

theorem quoted_eq_some {val text : AString} (h : quoted val = some text) :
    text = unquoteString val := by
  rw [quoted] at h
  split at h
  · exact (Option.some.inj h).symm
  · cases h

/-- An attribute leaves the URI alone or is the URI. -/
theorem mediaAttribute_groupURI {m m' : MediaAttributes} {attr : AString × AString}
    (h : mediaAttribute m attr = some m') :
    m'.groupURI = m.groupURI ∨ m'.groupURI = some (unquoteString attr.2) := by
  simp only [mediaAttribute] at h
  repeat' split at h
  all_goals first
    | (obtain ⟨_, -, rfl⟩ := Option.map_eq_some_iff.mp h; exact .inl rfl)
    | (obtain ⟨text, htext, rfl⟩ := Option.map_eq_some_iff.mp h
       exact .inr (congrArg some (quoted_eq_some htext)))
    | exact Option.some.inj h ▸ .inl rfl

theorem infix_unquoteString (s : AString) : unquoteString s <:+: s := by
  rw [unquoteString]
  split
  · exact (List.dropLast_prefix _).isInfix.trans (List.tail_suffix s).isInfix
  · exact List.infix_rfl

theorem infix_attributes {line : AString} {attrs : List (AString × AString)}
    (h : attributes line = some attrs) : ∀ attr ∈ attrs, attr.2 <:+: line := by
  obtain ⟨text, htext, rfl⟩ := Option.map_eq_some_iff.mp h
  obtain ⟨colonPos, -, rfl⟩ := Option.map_eq_some_iff.mp htext
  intro attr hattr
  obtain ⟨piece, hpiece, hattr⟩ := List.mem_filterMap.mp hattr
  obtain ⟨equalPos, -, rfl⟩ := Option.map_eq_some_iff.mp hattr
  refine (infix_trim _).trans ((List.drop_suffix _ _).isInfix.trans ((infix_trim piece).trans ?_))
  exact ((infix_pieces false _).1 piece hpiece).trans (List.drop_suffix _ line).isInfix

/-- The URIs of all media items stand in the text. -/
def MediaIn (groups : KeyedVector AString MediaGroup) (data : List Char) : Prop :=
  ∀ group ∈ groups.values, ∀ media ∈ group.mMediaItems, media.mURI <:+: data

theorem mediaIn_parseMedia {line : AString} {values values' : KeyedVector AString MediaGroup}
    {data : List Char} (h : parseMedia line values = some values') (hline : line <:+: data)
    (hin : MediaIn values data) : MediaIn values' data := by
  obtain ⟨attrs, hattrs, h⟩ := Option.bind_eq_some_iff.mp h
  obtain ⟨m, hm, h⟩ := Option.bind_eq_some_iff.mp h
  obtain ⟨groupType, -, h⟩ := Option.bind_eq_some_iff.mp h
  obtain ⟨groupID, -, h⟩ := Option.bind_eq_some_iff.mp h
  obtain ⟨groupName, -, h⟩ := Option.bind_eq_some_iff.mp h
  have huri : ∀ uri ∈ m.groupURI, uri <:+: line := by
    refine Folds.invariant (P := fun m : MediaAttributes => ∀ uri ∈ m.groupURI, uri <:+: line)
      (fun attr hattr m m' hm h => ?_) hm fun uri huri => by cases huri
    rcases mediaAttribute_groupURI h with heq | heq
    · rw [heq]
      exact hm
    · intro uri huri
      rw [heq] at huri
      obtain rfl := Option.some.inj huri
      exact (infix_unquoteString _).trans (infix_attributes hattrs attr hattr)
  split at h
  · exact Option.some.inj h ▸ hin
  · rw [putMedia] at h
    split at h
    · cases h
    · dsimp only at h
      split at h
      · cases h
      · obtain rfl := Option.some.inj h
        intro group hgroup media hmedia
        obtain ⟨k, hk⟩ := (KeyedVector.mem_values _).mp hgroup
        rw [KeyedVector.find?_set] at hk
        split at hk
        · obtain rfl := Option.some.inj hk
          obtain hold | hnew := List.mem_append.mp hmedia
          · cases hfind : values.find? (cstr groupID) with
            | none =>
              rw [hfind] at hold
              cases hold
            | some old =>
              rw [hfind] at hold
              exact hin old ((KeyedVector.mem_values _).mpr ⟨_, hfind⟩) media hold
          · obtain rfl := List.mem_singleton.mp hnew
            refine (prefix_cstr _).isInfix.trans ?_
            cases hgroupURI : m.groupURI with
            | none => exact List.nil_infix
            | some uri => exact (huri uri hgroupURI).trans hline
        · exact hin group ((KeyedVector.mem_values _).mpr ⟨k, hk⟩) media hmedia

theorem parseTag_keeps {p q : Parsing} {line : AString} {tag : Tag}
    (h : p.parseTag line tag = some q) : q.mBaseURI = p.mBaseURI ∧ q.mItems = p.mItems := by
  cases tag with
  | streamInf =>
    rw [Parsing.parseTag] at h
    split at h
    · cases h
    · obtain ⟨message, -, rfl⟩ := Option.map_eq_some_iff.mp h
      exact ⟨rfl, rfl⟩
  | endlist => exact Option.some.inj h ▸ ⟨rfl, rfl⟩
  | playlistTypeEvent => exact Option.some.inj h ▸ ⟨rfl, rfl⟩
  | discontinuity => exact Option.some.inj h ▸ ⟨rfl, rfl⟩
  | targetDuration | mediaSequence | key | inf | discontinuitySequence | byterange | media =>
    obtain ⟨r, -, rfl⟩ := Option.map_eq_some_iff.mp h
    exact ⟨rfl, rfl⟩

theorem MediaGroup.mem_of_active {group : MediaGroup} {media : Media} (h : group.active = some media) :
    media ∈ group.mMediaItems := by
  rw [active] at h
  split at h
  · exact List.mem_of_getElem? h
  · cases h

theorem MediaGroup.mMediaItems_pickRandomMediaItems (group : MediaGroup) :
    group.pickRandomMediaItems.mMediaItems = group.mMediaItems := by
  rw [pickRandomMediaItems]
  split
  · rfl
  · rfl
  · rfl
  · rfl

theorem MediaGroup.mMediaItems_selectTrack (group : MediaGroup) (index : Nat) (select : Bool) :
    (group.selectTrack index select).2.mMediaItems = group.mMediaItems := by
  rcases selectTrack_cases group index select with ⟨heq, -⟩ | ⟨selected, heq, -, -⟩
  · rw [heq]
  · rw [heq]

namespace M3UParser

variable {p : M3UParser} {baseURI : AString} {data : List Char}

/-- What an accepted playlist has of its text and of its groups. -/
structure Accepted (baseURI : AString) (data : List Char) (p : M3UParser) : Prop where
  base : p.mBaseURI = baseURI
  items : ∀ item ∈ p.mItems, item.mURI <:+: data
  media : MediaIn p.mMediaGroups data
  groups : ∀ item ∈ p.mItems, ∀ groupID ∈ groupsOf item.mMeta,
    (p.mMediaGroups.find? (cstr groupID)).isSome = true

theorem accepted_parse (h : parse baseURI data = some p) : Accepted baseURI data p := by
  obtain ⟨r, hrun, hfinish⟩ := Option.bind_eq_some_iff.mp h
  let I : Parsing → Prop := fun p => p.mBaseURI = baseURI ∧ (∀ item ∈ p.mItems, item.mURI <:+: data)
    ∧ MediaIn p.mMediaGroups data
  have hr : I r := by
    refine Folds.invariant (P := I) (fun line hline p q hp h => ?_) hrun
      ⟨rfl, (fun item hitem => by cases hitem), fun group hgroup => by cases hgroup⟩
    have hline : line <:+: data := by
      obtain ⟨l, hl, rfl⟩ := List.mem_map.mp hline
      refine List.IsInfix.trans ?_ (infix_lines hl)
      rw [stripCR]
      split
      · exact (List.dropLast_prefix l).isInfix
      · exact List.infix_rfl
    refine Parsing.parseLine_rule (I := I) (J := I) ?_ ?_ ?_ ?_ ?_ h hp
    · exact fun p hp => hp
    · exact fun p n hp => hp
    · exact fun p hp => hp
    · intro p q tag hp _ _ h
      obtain ⟨hbase, hitems⟩ := parseTag_keeps h
      refine ⟨hbase.trans hp.1, hitems ▸ hp.2.1, ?_⟩
      rcases mMediaGroups_parseTag h with heq | hmedia
      · exact heq ▸ hp.2.2
      · exact mediaIn_parseMedia hmedia hline hp.2.2
    · intro p q hp _ _ h
      have hitem : ∀ m : ItemMeta, ∀ item ∈ p.mItems ++ [⟨line, m⟩], item.mURI <:+: data := by
        intro m item hitem
        obtain hold | hnew := List.mem_append.mp hitem
        · exact hp.2.1 item hold
        · obtain rfl := List.mem_singleton.mp hnew
          exact hline
      obtain ⟨message, -, ⟨-, rfl⟩ | ⟨-, -, rfl⟩⟩ := Parsing.parseUri_cases h
      · exact ⟨hp.1, hitem _, hp.2.2⟩
      · exact ⟨hp.1, hitem _, hp.2.2⟩
  obtain ⟨-, hnumber, hgroups⟩ := finish_cases hfinish
  obtain ⟨hbase, hitems, hmedia⟩ := hr
  rcases number_cases hnumber with ⟨-, rfl⟩ | ⟨-, m, secs, -, -, rfl⟩
  · exact ⟨hbase, hitems, hmedia, hgroups⟩
  · exact ⟨hbase, hitems, hmedia, hgroups⟩

/-- A call changes nothing but the selected items. -/
theorem Accepted.call (h : Accepted baseURI data p) (c : Call) :
    Accepted baseURI data (p.call c) := by
  cases c with
  | pickRandomMediaItems =>
    refine ⟨h.base, h.items, fun group hmem => ?_, fun item hitem groupID hgroup => ?_⟩
    · have hmem : group ∈ p.groups.map MediaGroup.pickRandomMediaItems :=
        groups_pickRandomMediaItems p ▸ hmem
      obtain ⟨old, hold, rfl⟩ := List.mem_map.mp hmem
      rw [MediaGroup.mMediaItems_pickRandomMediaItems]
      exact h.media old hold
    · exact (KeyedVector.isSome_find?_mapValues _ _ _).trans (h.groups item hitem groupID hgroup)
  | selectTrack index select =>
    rcases selectTrack_cases p index select with ⟨-, heq⟩ | ⟨i, ii, group, -, hi, -, heq⟩
    · rw [M3UParser.call, heq]
      exact h
    · rw [M3UParser.call, heq]
      refine ⟨h.base, h.items, fun g hmem => ?_, fun item hitem groupID hgroup => ?_⟩
      · rw [KeyedVector.values_modifyAt] at hmem
        obtain hold | rfl := mem_modify hi hmem
        · exact h.media g hold
        · rw [MediaGroup.mMediaItems_selectTrack]
          exact h.media group (List.mem_of_getElem? hi)
      · exact (KeyedVector.isSome_find?_modifyAt _ _ _ _).trans (h.groups item hitem groupID hgroup)

theorem Accepted.run (h : Accepted baseURI data p) (calls : List Call) :
    Accepted baseURI data (p.run calls) := by
  induction calls generalizing p with
  | nil => exact h
  | cons c calls ih => exact ih (h.call c)

/-! ## What is returned -/

/-- An `http` URL of the playlist as it stands there, or a URL that begins with the scheme and the
authority of the base. -/
def Belongs (baseURI : AString) (data : List Char) (p : M3UParser) (url : AString) : Prop :=
  (IsHttp url ∧ url <:+: data
      ∧ ((∃ item ∈ p.mItems, url = cstr item.mURI)
        ∨ ∃ group ∈ p.groups, ∃ media ∈ group.mMediaItems, url = cstr media.mURI))
    ∨ origin baseURI <+: url

/-- The call completes, and the URL it returns belongs to the playlist. -/
def Served (baseURI : AString) (data : List Char) (p : M3UParser) (index : Nat) : Prop :=
  (∃ found uri message, p.itemAt index = some (found, uri, message) ∧ Belongs baseURI data p uri) ∧
  ∀ key ∈ keys, ∃ found uri, p.getTypeURI index key true = some (found, uri) ∧
    ∀ url ∈ uri, Belongs baseURI data p url

/-- No item, and of a variant playlist no active item of a group that one of its items names, has a
`data` URL. -/
def NoData (p : M3UParser) : Prop :=
  (∀ item ∈ p.mItems, ¬IsData item.mURI) ∧
  (p.mIsVariantPlaylist = true → ∀ item ∈ p.mItems, ∀ groupID ∈ groupsOf item.mMeta,
    ∀ group, p.mMediaGroups.find? (cstr groupID) = some group →
    ∀ media ∈ group.active, ¬IsData media.mURI)

instance (p : M3UParser) : Decidable (NoData p) :=
  have : ∀ groupID, Decidable (∀ group, p.mMediaGroups.find? (cstr groupID) = some group →
      ∀ media ∈ group.active, ¬IsData media.mURI) := fun groupID =>
    inferInstanceAs (Decidable (∀ group ∈ p.mMediaGroups.find? (cstr groupID),
      ∀ media ∈ group.active, ¬IsData media.mURI))
  inferInstanceAs (Decidable (_ ∧ (_ → _)))

theorem mem_groupsOf {m : ItemMeta} {groupID : AString} :
    groupID ∈ groupsOf m ↔ ∃ key ∈ keys, m.findString key = some groupID := by
  have hkeys : (∃ key ∈ keys, m.findString key = some groupID) ↔
      m.audio = some groupID ∨ m.video = some groupID ∨ m.subtitles = some groupID := by
    simp only [keys, List.mem_cons, List.not_mem_nil, or_false, exists_eq_or_imp, exists_eq_left]
    rfl
  rw [hkeys]
  simp [groupsOf]

section Served

variable (hbase : IsBase baseURI) (h : Accepted baseURI data p)

include hbase h

theorem Accepted.item {item : Item} (hitem : item ∈ p.mItems) :
    (item.makeURL p.mBaseURI = none ↔ IsData item.mURI) ∧
      ∀ url, item.makeURL p.mBaseURI = some url → Belongs baseURI data p url := by
  rw [h.base, Item.makeURL, makeURL_eq hbase]
  refine ⟨MakeURL_eq_none hbase, fun url hurl => ?_⟩
  rcases MakeURL_cases hurl with ⟨hhttp, rfl⟩ | horigin
  · exact .inl ⟨hhttp, (prefix_cstr _).isInfix.trans (h.items item hitem), .inl ⟨item, hitem, rfl⟩⟩
  · exact .inr horigin

theorem Accepted.activeURI {group : MediaGroup} (hgroup : group ∈ p.groups) :
    (group.getActiveURI p.mBaseURI = none ↔ ∃ media ∈ group.active, IsData media.mURI) ∧
      ∀ url, group.getActiveURI p.mBaseURI = some (some url) → url ≠ [] →
        Belongs baseURI data p url := by
  rw [MediaGroup.getActiveURI]
  cases hactive : group.active with
  | none => exact ⟨by simp, by simp⟩
  | some media =>
    have hmedia := MediaGroup.mem_of_active hactive
    dsimp only
    split
    · rename_i hempty
      have hdata : ¬IsData media.mURI := by
        rw [hempty]
        exact Bool.noConfusion
      refine ⟨⟨fun heq => (by cases heq), ?_⟩, fun url hurl hne => ?_⟩
      · rintro ⟨_, hmem, hisData⟩
        obtain rfl := Option.some.inj hmem
        exact absurd hisData hdata
      · exact absurd (Option.some.inj (Option.some.inj hurl)).symm hne
    · rw [h.base, MediaGroup.Media.makeURL, makeURL_eq hbase, Option.map_eq_none_iff,
        MakeURL_eq_none hbase]
      refine ⟨⟨fun hdata => ⟨media, rfl, hdata⟩, ?_⟩, fun url hurl _ => ?_⟩
      · rintro ⟨_, hmem, hisData⟩
        obtain rfl := Option.some.inj hmem
        exact hisData
      · obtain ⟨out, hout, heq⟩ := Option.map_eq_some_iff.mp hurl
        obtain rfl := Option.some.inj heq
        rcases MakeURL_cases hout with ⟨hhttp, rfl⟩ | horigin
        · refine .inl ⟨hhttp, (prefix_cstr _).isInfix.trans (h.media group hgroup media hmedia),
            .inr ⟨group, hgroup, media, hmedia, rfl⟩⟩
        · exact .inr horigin

omit hbase h in
/-- Without a group the URL is that of the item. -/
theorem getTypeURI_item {index : Nat} {item : Item} {key : AString}
    (hindex : p.mItems[index]? = some item) (hvariant : p.mIsVariantPlaylist = true)
    (hkey : item.mMeta.findString key = none) : ∃ found : Bool, p.getTypeURI index key true
      = (item.makeURL p.mBaseURI).map fun uri => (found, some uri) := by
  rw [getTypeURI, if_pos hvariant, hindex, Option.bind_some, hkey]
  dsimp only
  rw [if_pos rfl, Option.map_map]
  cases item.mMeta.findString "codecs".toList with
  | none => exact ⟨_, rfl⟩
  | some codecs => exact ⟨_, rfl⟩

/-- Of a type that is asked for the call fails where the active item of its group has a `data` URL. -/
theorem Accepted.typeURI {index : Nat} {item : Item} (hindex : p.mItems[index]? = some item)
    (hitem : ¬IsData item.mURI) (hvariant : p.mIsVariantPlaylist = true) {key : AString}
    (hkey : key ∈ keys) :
    (p.getTypeURI index key true = none ↔
      ∃ groupID ∈ item.mMeta.findString key, ∃ group, p.mMediaGroups.find? (cstr groupID) = some group
        ∧ ∃ media ∈ group.active, IsData media.mURI) ∧
    ∀ found uri, p.getTypeURI index key true = some (found, uri) → ∀ url ∈ uri,
      Belongs baseURI data p url := by
  have hmem := List.mem_of_getElem? hindex
  obtain ⟨hnone, hbelongs⟩ := h.item hbase hmem
  obtain ⟨itemURL, hitemURL⟩ := Option.ne_none_iff_exists'.mp (mt hnone.mp hitem)
  cases hgroupID : item.mMeta.findString key with
  | none =>
    obtain ⟨found, heq⟩ := getTypeURI_item hindex hvariant hgroupID
    rw [heq, hitemURL, Option.map_some]
    refine ⟨by simp, fun found' uri hsome url hurl => ?_⟩
    obtain ⟨-, rfl⟩ := Prod.mk.inj (Option.some.inj hsome)
    obtain rfl := Option.some.inj hurl
    exact hbelongs itemURL hitemURL
  | some groupID =>
    have hin : groupID ∈ groupsOf item.mMeta := mem_groupsOf.mpr ⟨key, hkey, hgroupID⟩
    obtain ⟨group, hgroup⟩ := Option.isSome_iff_exists.mp (h.groups item hmem groupID hin)
    obtain ⟨hfails, hactive⟩ := h.activeURI hbase ((KeyedVector.mem_values _).mpr ⟨_, hgroup⟩)
    have hgroups : (∃ groupID' ∈ some groupID, ∃ group,
        p.mMediaGroups.find? (cstr groupID') = some group ∧ ∃ media ∈ group.active, IsData media.mURI)
          ↔ group.getActiveURI p.mBaseURI = none := by
      rw [hfails]
      constructor
      · rintro ⟨_, hmem', group', hgroup', hdata⟩
        obtain rfl := Option.some.inj hmem'
        obtain rfl := Option.some.inj (hgroup.symm.trans hgroup')
        exact hdata
      · exact fun hdata => ⟨groupID, rfl, group, hgroup, hdata⟩
    rw [hgroups, getTypeURI, if_pos hvariant, hindex, Option.bind_some, hgroupID]
    dsimp only
    rw [if_pos rfl, hgroup, Option.bind_some]
    cases huri : group.getActiveURI p.mBaseURI with
    | none => exact ⟨by simp, by simp⟩
    | some uri =>
      rw [Option.bind_some]
      rcases uri with _ | _ | ⟨c, cs⟩
      · exact ⟨by simp, fun found uri hsome url hurl => by
          obtain ⟨-, rfl⟩ := Prod.mk.inj (Option.some.inj hsome)
          cases hurl⟩
      · rw [hitemURL]
        refine ⟨by simp, fun found uri hsome url hurl => ?_⟩
        obtain ⟨-, rfl⟩ := Prod.mk.inj (Option.some.inj hsome)
        obtain rfl := Option.some.inj hurl
        exact hbelongs itemURL hitemURL
      · refine ⟨by simp, fun found uri hsome url hurl => ?_⟩
        obtain ⟨-, rfl⟩ := Prod.mk.inj (Option.some.inj hsome)
        obtain rfl := Option.some.inj hurl
        exact hactive _ huri (List.cons_ne_nil c cs)

/-- An item that a state serves, and the groups that it names. -/
theorem Accepted.served {index : Nat} {item : Item} (hindex : p.mItems[index]? = some item) :
    Served baseURI data p index ↔ ¬IsData item.mURI ∧
      (p.mIsVariantPlaylist = true → ∀ groupID ∈ groupsOf item.mMeta, ∀ group,
        p.mMediaGroups.find? (cstr groupID) = some group → ∀ media ∈ group.active,
          ¬IsData media.mURI) := by
  obtain ⟨hnone, hbelongs⟩ := h.item hbase (List.mem_of_getElem? hindex)
  rw [Served, itemAt, hindex]
  dsimp only
  constructor
  · rintro ⟨⟨found, uri, message, hitem, -⟩, htypes⟩
    obtain ⟨url, hurl, -⟩ := Option.map_eq_some_iff.mp hitem
    have hdata : ¬IsData item.mURI := fun hdata => by
      rw [hnone.mpr hdata] at hurl
      cases hurl
    refine ⟨hdata, fun hvariant groupID hgroupID group hgroup media hmedia hmediaData => ?_⟩
    obtain ⟨key, hkey, hfind⟩ := mem_groupsOf.mp hgroupID
    obtain ⟨found, uri, htype, -⟩ := htypes key hkey
    have hfails := (h.typeURI hbase hindex hdata hvariant hkey).1.mpr
      ⟨groupID, hfind, group, hgroup, media, hmedia, hmediaData⟩
    rw [hfails] at htype
    cases htype
  · rintro ⟨hdata, hgroups⟩
    obtain ⟨url, hurl⟩ := Option.ne_none_iff_exists'.mp (mt hnone.mp hdata)
    refine ⟨⟨true, url, some item.mMeta, by rw [hurl, Option.map_some], hbelongs url hurl⟩,
      fun key hkey => ?_⟩
    cases hvariant : p.mIsVariantPlaylist with
    | false =>
      refine ⟨_, some p.mBaseURI, by rw [getTypeURI, hvariant]; rfl, fun url hurl => ?_⟩
      obtain rfl := Option.some.inj hurl
      exact .inr (h.base ▸ origin_le.trans (prefix_cstr _))
    | true =>
      obtain ⟨hfails, htypeBelongs⟩ := h.typeURI hbase hindex hdata hvariant hkey
      cases htype : p.getTypeURI index key true with
      | none =>
        obtain ⟨groupID, hfind, group, hgroup, media, hmedia, hmediaData⟩ := hfails.mp htype
        exact absurd hmediaData
          (hgroups hvariant groupID (mem_groupsOf.mpr ⟨key, hkey, hfind⟩) group hgroup media hmedia)
      | some r => exact ⟨r.1, r.2, rfl, htypeBelongs r.1 r.2 htype⟩

end Served

/-- After any calls all items of an accepted playlist are served exactly when no `data` URL is in the
way. -/
theorem served_iff_noData {baseURI : AString} {data : List Char} {p : M3UParser}
    (hbase : IsBase baseURI) (h : parse baseURI data = some p) (calls : List Call) :
    (∀ index < (p.run calls).size, Served baseURI data (p.run calls) index)
      ↔ NoData (p.run calls) := by
  have haccepted := (accepted_parse h).run calls
  constructor
  · intro hserved
    have hitem : ∀ item ∈ (p.run calls).mItems, ∃ index, (p.run calls).mItems[index]? = some item
        ∧ Served baseURI data (p.run calls) index := by
      intro item hitem
      obtain ⟨index, hindex⟩ := List.mem_iff_getElem?.mp hitem
      exact ⟨index, hindex, hserved index (List.getElem?_eq_some_iff.mp hindex).1⟩
    refine ⟨fun item hmem => ?_, fun hvariant item hmem => ?_⟩
    · obtain ⟨index, hindex, hone⟩ := hitem item hmem
      exact ((haccepted.served hbase hindex).mp hone).1
    · obtain ⟨index, hindex, hone⟩ := hitem item hmem
      exact ((haccepted.served hbase hindex).mp hone).2 hvariant
  · rintro ⟨hitems, hgroups⟩ index hindex
    have hget := List.getElem?_eq_getElem hindex
    have hmem := List.mem_of_getElem? hget
    exact (haccepted.served hbase hget).mpr
      ⟨hitems _ hmem, fun hvariant => hgroups hvariant _ hmem⟩

/-- Two streams, the first with a group of two audio items. -/
def rootedStreams : List Char :=
  ("#EXTM3U\n#EXT-X-MEDIA:TYPE=AUDIO,GROUP-ID=\"a\",NAME=\"n\",URI=\"https://m/b\"\n"
    ++ "#EXT-X-MEDIA:TYPE=AUDIO,GROUP-ID=\"a\",NAME=\"d\",URI=\"data:x\"\n"
    ++ "#EXT-X-STREAM-INF:AUDIO=\"a\",CODECS=\"avc1.4,mp4a\"\n/u\n"
    ++ "#EXT-X-STREAM-INF:BANDWIDTH=5\nv?w\n").toList

/-- With its first item the group is in nobody's way, with its second one it is. -/
theorem served_iff_noData_rootedStreams : ∃ p, parse "HTTP://h/d?q".toList rootedStreams = some p ∧
    (p.run [.selectTrack 0 true]).size = 2 ∧
    (∀ index < (p.run [.selectTrack 0 true]).size,
      Served "HTTP://h/d?q".toList rootedStreams (p.run [.selectTrack 0 true]) index) ∧
    ¬∀ index < (p.run [.selectTrack 1 true]).size,
      Served "HTTP://h/d?q".toList rootedStreams (p.run [.selectTrack 1 true]) index := by
  have hany : ((parse "HTTP://h/d?q".toList rootedStreams).any fun p =>
      (p.run [.selectTrack 0 true]).size = 2 ∧ NoData (p.run [.selectTrack 0 true]) ∧
        ¬NoData (p.run [.selectTrack 1 true])) = true := by
    decide +kernel
  have hbase : IsBase "HTTP://h/d?q".toList := .inl (by decide +kernel)
  obtain ⟨p, hp, hall⟩ := (Option.any_eq_true _ _).mp hany
  obtain ⟨hsize, hfirst, hsecond⟩ := of_decide_eq_true hall
  refine ⟨p, hp, hsize, (served_iff_noData hbase hp _).mpr hfirst, ?_⟩
  rw [served_iff_noData hbase hp]
  exact hsecond

/-- A stream whose URL is a `data` URL: the playlist is accepted, and `itemAt` fails in the `CHECK`. -/
theorem not_served_dataStream : ∃ p,
    IsBase "http://h/".toList ∧
    parse "http://h/".toList "#EXTM3U\n#EXT-X-STREAM-INF:BANDWIDTH=1\ndata:x".toList = some p ∧
    (p.run []).size = 1 ∧ (p.run []).itemAt 0 = none ∧
    ¬Served "http://h/".toList "#EXTM3U\n#EXT-X-STREAM-INF:BANDWIDTH=1\ndata:x".toList (p.run []) 0 := by
  have hany : ((parse "http://h/".toList
      "#EXTM3U\n#EXT-X-STREAM-INF:BANDWIDTH=1\ndata:x".toList).any fun p =>
        p.size = 1 ∧ p.itemAt 0 = none) = true := by decide +kernel
  obtain ⟨p, hp, hall⟩ := (Option.any_eq_true _ _).mp hany
  obtain ⟨hsize, hitem⟩ := of_decide_eq_true hall
  refine ⟨p, .inl (by decide +kernel), hp, hsize, hitem, fun hserved => ?_⟩
  obtain ⟨⟨found, uri, message, hsome, -⟩, -⟩ := hserved
  exact nomatch hitem.symm.trans hsome

end M3UParser

end MediaFramework.Hls
