import MediaFramework.Hls.RenderedMedia

/-!
# Written streams

A stream as the attributes of `EXT-X-STREAM-INF`, in any order and with attributes of other names
between them, behind the media items of its groups.
-/

namespace MediaFramework.Hls

open Text

/-- An attribute of `EXT-X-STREAM-INF`. -/
inductive StreamAttr
  | bandwidth (n : Nat)
  | codecs (text : AString)
  | resolution (width height : Nat)
  | audio (text : AString)
  | video (text : AString)
  | subtitles (text : AString)
  | unknown (attr : Attribute)
  deriving DecidableEq

namespace StreamAttr

def written : StreamAttr → Attribute
  | bandwidth n => ⟨"BANDWIDTH".toList, .token (decimal n)⟩
  | codecs text => ⟨"CODECS".toList, .quotedString text⟩
  | resolution width height => ⟨"RESOLUTION".toList, .token (decimal width ++ 'x' :: decimal height)⟩
  | audio text => ⟨"AUDIO".toList, .quotedString text⟩
  | video text => ⟨"VIDEO".toList, .quotedString text⟩
  | subtitles text => ⟨"SUBTITLES".toList, .quotedString text⟩
  | unknown attr => attr

/-- The names that are not unknown. -/
def names : List AString :=
  ["bandwidth", "codecs", "resolution", "audio", "video", "subtitles"].map String.toList

def Valid : StreamAttr → Prop
  | unknown attr => ∀ known ∈ names, strcaseeq known attr.name = false
  | _ => True

instance : DecidablePred Valid
  | unknown attr => inferInstanceAs (Decidable (∀ known ∈ names, strcaseeq known attr.name = false))
  | bandwidth _ | codecs _ | resolution _ _ | audio _ | video _ | subtitles _ =>
    inferInstanceAs (Decidable True)

/-- What `strtoul` can return. -/
def Fits : StreamAttr → Prop
  | bandwidth n => n < 2^64
  | resolution width height => width < 2^64 ∧ height < 2^64
  | _ => True

def known : StreamAttr → Bool
  | unknown _ => false
  | _ => true

/-- Attributes of different kinds set different entries. -/
def kind : StreamAttr → Nat
  | bandwidth _ => 0
  | codecs _ => 1
  | resolution _ _ => 2
  | audio _ => 3
  | video _ => 4
  | subtitles _ => 5
  | unknown _ => 6

def set (a : StreamAttr) (message : Option ItemMeta) : Option ItemMeta :=
  match a with
  | bandwidth n => edit {} message fun m => { m with bandwidth := some (int32 n) }
  | codecs text => edit {} message fun m => { m with codecs := some text }
  | resolution width height => edit {} message fun m =>
    { m with width := some (int32 width), height := some (int32 height) }
  | audio text => edit {} message fun m => { m with audio := some text }
  | video text => edit {} message fun m => { m with video := some text }
  | subtitles text => edit {} message fun m => { m with subtitles := some text }
  | unknown _ => message

variable {message : Option ItemMeta} {a : StreamAttr}

theorem cstr_unquoted {text : AString} (h : (AttributeValue.quotedString text).Clean) :
    cstr (unquoteString ('"' :: text ++ ['"'])) = text := by
  rw [unquoteString_text]
  exact cstr_eq fun hnul => (h _ hnul).2.2.2 rfl

theorem streamAttribute_unknown {key val : AString}
    (h : ∀ known ∈ names, strcaseeq known key = false) :
    streamAttribute message (key, val) = some message := by
  have hnames : ∀ known ∈ names, ¬strcaseeq known key = true := fun known hknown =>
    Bool.eq_false_iff.mp (h known hknown)
  rw [names, List.forall_mem_map] at hnames
  rw [streamAttribute]
  rw [if_neg (hnames "bandwidth" (by simp)), if_neg (hnames "codecs" (by simp)),
    if_neg (hnames "resolution" (by simp)), if_neg (hnames "audio" (by simp)),
    if_neg (hnames "video" (by simp)), if_neg (hnames "subtitles" (by simp))]

theorem streamAttribute_bandwidth {val : AString} {n : Nat} (h : strtoul val = some (n, [])) :
    streamAttribute message ("BANDWIDTH".toList, val) = some ((bandwidth n).set message) := by
  rw [streamAttribute]
  rw [if_pos (by decide), h]
  rfl

theorem streamAttribute_resolution {width height : Nat} (hwidth : width < 2^64)
    (hheight : height < 2^64) :
    streamAttribute message ("RESOLUTION".toList, decimal width ++ 'x' :: decimal height) =
      some ((resolution width height).set message) := by
  have hrest : ∀ c ∈ ('x' :: decimal height).head?, c.isDigit = false := by
    rintro c hc
    obtain rfl := Option.some.inj hc
    rfl
  have hnul : '\x00' ∉ 'x' :: decimal height := by
    rw [List.mem_cons, not_or]
    exact ⟨by decide, notMem_decimal (by decide)⟩
  rw [streamAttribute]
  rw [if_neg (by decide), if_neg (by decide), if_pos (by decide), strtoul_append hwidth hrest hnul]
  simp only [strtoul_decimal hheight]
  rfl

theorem streamAttribute_quoted {key : String} {text : AString}
    {f : AString → StreamAttr} (hclean : (AttributeValue.quotedString text).Clean)
    (hf : ∀ val, isQuotedString val = true →
      streamAttribute message (key.toList, val) =
        some ((f (cstr (unquoteString val))).set message)) :
    streamAttribute message (key.toList, '"' :: text ++ ['"']) = some ((f text).set message) := by
  rw [hf _ (isQuotedString_text text), cstr_unquoted hclean]

theorem streamAttribute_written (h : a.Valid) (hfits : a.Fits) (hclean : a.written.Clean) :
    streamAttribute message (a.written.name, a.written.value.text) = some (a.set message) := by
  cases a with
  | bandwidth n => exact streamAttribute_bandwidth (strtoul_decimal hfits)
  | codecs text => exact streamAttribute_quoted hclean.value fun val hval => if_pos hval
  | resolution width height => exact streamAttribute_resolution hfits.1 hfits.2
  | audio text => exact streamAttribute_quoted hclean.value fun val hval => if_pos hval
  | video text => exact streamAttribute_quoted hclean.value fun val hval => if_pos hval
  | subtitles text => exact streamAttribute_quoted hclean.value fun val hval => if_pos hval
  | unknown attr => exact streamAttribute_unknown h

theorem set_comm {x y : StreamAttr} (message : Option ItemMeta) (h : x.kind ≠ y.kind) :
    y.set (x.set message) = x.set (y.set message) := by
  cases x <;> cases y <;> first | exact absurd rfl h | rfl

end StreamAttr

/-- What `EXT-X-STREAM-INF` says of a stream. -/
structure StreamValues where
  bandwidth : Option Nat
  codecs : Option AString
  resolution : Option (Nat × Nat)
  audio : Option AString
  video : Option AString
  subtitles : Option AString

namespace StreamValues

variable (v : StreamValues)

def attrs : List StreamAttr :=
  v.bandwidth.toList.map .bandwidth ++ (v.codecs.toList.map .codecs ++
    (v.resolution.toList.map (fun r => .resolution r.1 r.2) ++ (v.audio.toList.map .audio ++
      (v.video.toList.map .video ++ v.subtitles.toList.map .subtitles))))

/-- The attributes in some order, and unknown ones between them. -/
structure Written (as : List (Padded StreamAttr)) : Prop where
  clean : ∀ a ∈ as, a.Clean StreamAttr.written
  valid : ∀ a ∈ as, a.attr.Valid
  attrs : ((as.map Padded.attr).filter StreamAttr.known).Perm v.attrs

instance : DecidablePred v.Written := fun as =>
  decidable_of_iff ((∀ a ∈ as, a.Clean StreamAttr.written) ∧ (∀ a ∈ as, a.attr.Valid) ∧
      ((as.map Padded.attr).filter StreamAttr.known).Perm v.attrs)
    ⟨fun h => ⟨h.1, h.2.1, h.2.2⟩, fun h => ⟨h.clean, h.valid, h.attrs⟩⟩

/-- The numbers have their values as entries of 32 bits. -/
structure Fits : Prop where
  bandwidth : ∀ n ∈ v.bandwidth, n < 2^31
  resolution : ∀ r ∈ v.resolution, r.1 < 2^31 ∧ r.2 < 2^31

/-- The metadata that say the same. -/
def entries : ItemMeta where
  bandwidth := v.bandwidth.map fun n : Nat => (n : Int)
  codecs := v.codecs
  width := v.resolution.map fun r => (r.1 : Int)
  height := v.resolution.map fun r => (r.2 : Int)
  audio := v.audio
  video := v.video
  subtitles := v.subtitles

/-- The entries that are made. -/
def entries32 : ItemMeta where
  bandwidth := v.bandwidth.map fun n : Nat => int32 n
  codecs := v.codecs
  width := v.resolution.map fun r => int32 r.1
  height := v.resolution.map fun r => int32 r.2
  audio := v.audio
  video := v.video
  subtitles := v.subtitles

variable {v : StreamValues} {as : List (Padded StreamAttr)}

theorem optional_kind {α : Type} (o : Option α) (f : α → StreamAttr) (k : Nat)
    (h : ∀ x, (f x).kind = k) : ((o.toList.map f).map StreamAttr.kind).Sublist [k] := by
  cases o with
  | none => exact List.nil_sublist _
  | some x =>
    simp only [Option.toList_some, List.map_cons, List.map_nil, h]
    exact List.Sublist.refl _

theorem nodup_kinds (v : StreamValues) : (v.attrs.map StreamAttr.kind).Nodup := by
  have hall : ([0] ++ ([1] ++ ([2] ++ ([3] ++ ([4] ++ [5]))))).Nodup := by decide
  refine List.Sublist.nodup ?_ hall
  rw [attrs, List.map_append, List.map_append, List.map_append, List.map_append, List.map_append]
  refine (optional_kind v.bandwidth .bandwidth 0 fun _ => rfl).append ?_
  refine (optional_kind v.codecs .codecs 1 fun _ => rfl).append ?_
  refine (optional_kind v.resolution _ 2 fun _ => rfl).append ?_
  refine (optional_kind v.audio .audio 3 fun _ => rfl).append ?_
  refine (optional_kind v.video .video 4 fun _ => rfl).append ?_
  exact optional_kind v.subtitles .subtitles 5 fun _ => rfl

theorem foldl_attrs (h : v.attrs ≠ []) :
    v.attrs.foldl (fun m a => a.set m) none = some v.entries32 := by
  obtain ⟨bandwidth, codecs, resolution, audio, video, subtitles⟩ := v
  cases bandwidth <;> cases codecs <;> cases resolution <;> cases audio <;> cases video <;>
    cases subtitles <;> first | exact absurd rfl h | rfl

theorem Fits.entries32_eq (h : v.Fits) : v.entries32 = v.entries := by
  have hsmall : ∀ n : Nat, n < 2^31 → int32 (n : Int) = (n : Int) := fun n hn =>
    int32_eq (by omega) (by omega)
  have hbandwidth : (v.bandwidth.map fun n : Nat => int32 (n : Int)) =
      v.bandwidth.map fun n : Nat => (n : Int) :=
    Option.map_congr fun n hn => hsmall n (h.bandwidth n hn)
  have hwidth : (v.resolution.map fun r => int32 (r.1 : Int)) =
      v.resolution.map fun r => (r.1 : Int) :=
    Option.map_congr fun r hr => hsmall r.1 (h.resolution r hr).1
  have hheight : (v.resolution.map fun r => int32 (r.2 : Int)) =
      v.resolution.map fun r => (r.2 : Int) :=
    Option.map_congr fun r hr => hsmall r.2 (h.resolution r hr).2
  rw [entries32, entries, hbandwidth, hwidth, hheight]

/-- Each number that is written is a number of the values. -/
theorem fits_attrs (hbandwidth : ∀ n ∈ v.bandwidth, n < 2^64)
    (hresolution : ∀ r ∈ v.resolution, r.1 < 2^64 ∧ r.2 < 2^64) : ∀ a ∈ v.attrs, a.Fits := by
  intro a ha
  simp only [attrs, List.mem_append, List.mem_map, Option.mem_toList] at ha
  obtain ⟨n, hn, rfl⟩ | ⟨text, -, rfl⟩ | ⟨r, hr, rfl⟩ | ⟨text, -, rfl⟩ | ⟨text, -, rfl⟩ |
    ⟨text, -, rfl⟩ := ha
  · exact hbandwidth n hn
  · trivial
  · exact hresolution r hr
  · trivial
  · trivial
  · trivial

/-- In every order the entries are made. -/
theorem Written.foldlM (h : v.Written as) (hfits : ∀ a ∈ v.attrs, a.Fits) (hne : v.attrs ≠ []) :
    (as.map fun a => (a.attr.written.name, a.attr.written.value.text)).foldlM streamAttribute none =
      some (some v.entries32) := by
  have hfit : ∀ a ∈ as, a.attr.Fits := by
    rintro a ha
    cases hknown : a.attr.known with
    | true =>
      exact hfits _ (h.attrs.mem_iff.mp (List.mem_filter.mpr ⟨List.mem_map_of_mem ha, hknown⟩))
    | false =>
      cases hattr : a.attr with
      | unknown attr => trivial
      | _ =>
        rw [hattr] at hknown
        cases hknown
  have hstep : ∀ a ∈ as, ∀ message,
      streamAttribute message (a.attr.written.name, a.attr.written.value.text) =
        some (a.attr.set message) := fun a ha _ =>
    StreamAttr.streamAttribute_written (h.valid a ha) (hfit a ha) (h.clean a ha).attr
  have hall : (as.map Padded.attr).foldl (fun message a => a.set message) none =
      v.attrs.foldl (fun message a => a.set message) none := by
    refine Folds.foldl_filter_perm (fun message a ha => ?_)
      (fun message x y => StreamAttr.set_comm message) h.attrs v.nodup_kinds _
    cases a <;> first | rfl | cases ha
  rw [List.foldl_map] at hall
  rw [List.foldlM_map, Folds.foldlM_some hstep, hall, foldl_attrs hne]

end StreamValues

/-- The tag of a stream. -/
def streamLine (as : List (Padded StreamAttr)) : AString :=
  Tag.streamInf.text ++ ':' :: attributeList StreamAttr.written as

namespace StreamValues

variable {v : StreamValues} {as : List (Padded StreamAttr)}

theorem Written.parseStreamInf (h : v.Written as) (hfits : ∀ a ∈ v.attrs, a.Fits)
    (hne : v.attrs ≠ []) : parseStreamInf (streamLine as) none = some (some v.entries32) := by
  rw [Hls.parseStreamInf, streamLine, attributes_list (by decide) h.clean, Option.bind_some,
    h.foldlM hfits hne]
  rfl

theorem Written.parseStreamInf_entries (h : v.Written as) (hfits : v.Fits) (hne : v.attrs ≠ []) :
    Hls.parseStreamInf (streamLine as) none = some (some v.entries) := by
  have hall : ∀ a ∈ v.attrs, a.Fits := by
    refine fits_attrs (fun n hn => ?_) fun r hr => ?_
    · have hlt := hfits.bandwidth n hn
      omega
    · have hlt := hfits.resolution r hr
      omega
  rw [h.parseStreamInf hall hne, hfits.entries32_eq]

/-- A line with a stream in a playlist that is no media playlist. -/
theorem Written.parseLine (h : v.Written as) (hfits : v.Fits) (hne : v.attrs ≠ []) {p : Parsing}
    (hmarked : p.mIsExtM3U = true) (hmeta : p.mMeta = none) (hitem : p.itemMeta = none) :
    p.parseLine (streamLine as) = some { p with
      mIsVariantPlaylist := true
      itemMeta := some v.entries
      lineNo := p.lineNo + 1 } := by
  have hparse := h.parseStreamInf_entries hfits hne
  have hallowed : ¬(Tag.streamInf.mediaOnly = true ∧ p.mIsVariantPlaylist = true) :=
    fun hboth => Bool.false_ne_true hboth.1
  have htag : p.parseTag (streamLine as) .streamInf =
      some { p with mIsVariantPlaylist := true, itemMeta := some v.entries } := by
    rw [Parsing.parseTag, hmeta, Option.isSome_none, if_neg Bool.false_ne_true, hitem, hparse]
    rfl
  have hline : p.parseLine (streamLine as) =
      (p.parseTag (streamLine as) .streamInf).map fun q => { q with lineNo := q.lineNo + 1 } :=
    Parsing.parseLine_marked hmarked (Tag.head_text .streamInf _) (Tag.of_colon .streamInf _)
      hallowed
  rw [hline, htag]
  rfl

end StreamValues

/-- The URI behind a stream makes the item. -/
theorem Parsing.parseLine_variant {p : Parsing} {uri : AString} {message : ItemMeta}
    (hmarked : p.mIsExtM3U = true) (hvariant : p.mIsVariantPlaylist = true)
    (hitem : p.itemMeta = some message) (hne : uri ≠ []) (hhead : uri.head? ≠ some '#') :
    p.parseLine uri = some { p with
      mItems := p.mItems ++ [⟨uri, message⟩]
      itemMeta := none
      lineNo := p.lineNo + 1 } := by
  have huri : p.parseUri uri =
      some { p with mItems := p.mItems ++ [⟨uri, message⟩], itemMeta := none } := by
    rw [parseUri, hitem, Option.bind_some, if_pos hvariant]
  have hext : p.parseExtLine uri = some p := by
    rw [parseExtLine, Tag.of_eq_none hhead]
  rw [parseLine, if_neg hne, readMark_eq hmarked]
  dsimp only
  rw [if_pos hmarked, hext, Option.bind_some, if_neg hhead, huri, Option.map_some]

/-- Both lines are lines of their text. A media item is added to its group alone, unless that group
has another type, which is refused with nothing added. A stream becomes the metadata of the item whose
URI comes next. -/
theorem writtenLines_parsed {media : MediaValues} {as : List (Padded MediaAttr)}
    (hmedia : media.Written as) {stream : StreamValues} {bs : List (Padded StreamAttr)}
    (hstream : stream.Written bs) (hfits : stream.Fits) (hne : stream.attrs ≠ []) :
    (∀ rest, (lines (mediaLine as ++ '\n' :: rest)).map stripCR =
        mediaLine as :: (lines rest).map stripCR ∧
      (lines (streamLine bs ++ '\n' :: rest)).map stripCR =
        streamLine bs :: (lines rest).map stripCR) ∧
    (∀ p : Parsing, p.mIsExtM3U = true →
      (media.Conflicts p.mMediaGroups → p.parseLine (mediaLine as) = none ∧
        parseMediaState (mediaLine as) p.mMediaGroups = (false, p.mMediaGroups)) ∧
      (¬media.Conflicts p.mMediaGroups → ∃ groups, media.Added p.mMediaGroups groups ∧
        p.parseLine (mediaLine as) =
          some { p with mMediaGroups := groups, lineNo := p.lineNo + 1 } ∧
        parseMediaState (mediaLine as) p.mMediaGroups = (true, groups))) ∧
    parseStreamInf (streamLine bs) none = some (some stream.entries) ∧
    (∀ p : Parsing, p.mIsExtM3U = true → p.mMeta = none → p.itemMeta = none →
      p.parseLine (streamLine bs) = some { p with
        mIsVariantPlaylist := true
        itemMeta := some stream.entries
        lineNo := p.lineNo + 1 } ∧
      ∀ uri : AString, uri ≠ [] → uri.head? ≠ some '#' →
        [streamLine bs, uri].foldlM Parsing.parseLine p = some { p with
          mIsVariantPlaylist := true
          mItems := p.mItems ++ [⟨uri, stream.entries⟩]
          itemMeta := none
          lineNo := p.lineNo + 1 + 1 }) := by
  refine ⟨fun rest => ⟨lines_attributeList .media hmedia.clean rest,
    lines_attributeList .streamInf hstream.clean rest⟩, fun p hmarked => hmedia.parseLine hmarked,
    hstream.parseStreamInf_entries hfits hne, fun p hmarked hmeta hitem => ?_⟩
  have hline := hstream.parseLine hfits hne hmarked hmeta hitem
  refine ⟨hline, fun uri huri hhead => ?_⟩
  have hnext := @Parsing.parseLine_variant { p with
    mIsVariantPlaylist := true
    itemMeta := some stream.entries
    lineNo := p.lineNo + 1 } uri stream.entries hmarked rfl rfl huri hhead
  rw [List.foldlM_cons, hline, Option.bind_eq_bind, Option.bind_some, List.foldlM_cons, hnext]
  rfl

def subtitledMedia : MediaValues where
  groupType := .TYPE_SUBS
  groupID := "s,1".toList
  name := "x = y".toList
  language := some "en".toList
  uri := none
  autoselect := none
  default := some false
  forced := some true
  kept := by decide
  forced_subs := fun _ => rfl

def subtitledMediaList : List (Padded MediaAttr) :=
  [⟨[], .type .TYPE_SUBS, []⟩, ⟨[' '], .groupID "s,1".toList, [' ', '\t']⟩,
    ⟨[], .unknown ⟨"X-ID".toList, .quotedString "a=b, NAME=c".toList⟩, []⟩, ⟨[], .forced true, []⟩,
    ⟨[], .name "x = y".toList, []⟩, ⟨[], .default false, []⟩, ⟨[], .language "en".toList, []⟩]

def subtitledStream : StreamValues where
  bandwidth := some 1280000
  codecs := some "avc1, wvtt".toList
  resolution := some (640, 360)
  audio := none
  video := none
  subtitles := some "s,1".toList

def subtitledStreamList : List (Padded StreamAttr) :=
  [⟨[], .unknown ⟨"PROGRAM-ID".toList, .token "1".toList⟩, [' ']⟩, ⟨[], .bandwidth 1280000, []⟩,
    ⟨[], .resolution 640 360, []⟩, ⟨[' '], .subtitles "s,1".toList, []⟩,
    ⟨[], .codecs "avc1, wvtt".toList, []⟩]

theorem writtenLines_parsed_subtitled :
    (∃ groups, subtitledMedia.Added .empty groups ∧
      parseMediaState (mediaLine subtitledMediaList) .empty = (true, groups)) ∧
      parseStreamInf (streamLine subtitledStreamList) none =
        some (some subtitledStream.entries) := by
  have hfits : subtitledStream.Fits := ⟨by decide, by decide⟩
  have hne : subtitledStream.attrs ≠ [] := by decide
  obtain ⟨-, hmedia, hstream, -⟩ := writtenLines_parsed
    (show subtitledMedia.Written subtitledMediaList by decide +kernel)
    (show subtitledStream.Written subtitledStreamList by decide +kernel) hfits hne
  have hfree : ¬subtitledMedia.Conflicts .empty := by
    rintro ⟨group, hgroup, -⟩
    cases hgroup
  obtain ⟨groups, hadded, -, hstate⟩ := (hmedia { mBaseURI := [], mIsExtM3U := true } rfl).2 hfree
  exact ⟨⟨groups, hadded, hstate⟩, hstream⟩

def wideStream : StreamValues where
  bandwidth := some 1280000
  codecs := none
  resolution := some (2147483648, 1)
  audio := none
  video := none
  subtitles := none

def wideStreamList : List (Padded StreamAttr) :=
  [⟨[], .bandwidth 1280000, []⟩, ⟨[], .resolution 2147483648 1, []⟩]

/-- The width has an entry of 32 bits. -/
theorem not_writtenLines_wide : wideStream.Written wideStreamList ∧
    (∀ n ∈ wideStream.bandwidth, n < 2^31) ∧
      parseStreamInf (streamLine wideStreamList) none ≠ some (some wideStream.entries) := by
  have hwritten : wideStream.Written wideStreamList := by decide +kernel
  refine ⟨hwritten, by decide, ?_⟩
  have hfits : ∀ a ∈ wideStream.attrs, a.Fits :=
    StreamValues.fits_attrs (by decide) (by decide)
  rw [hwritten.parseStreamInf hfits (by decide)]
  decide +kernel

end MediaFramework.Hls
