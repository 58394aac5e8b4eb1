import MediaFramework.Lib.Double
import MediaFramework.Lib.KeyedVector
import Mathlib.Data.Char
import Mathlib.Data.List.Lex

/-!
# Parsing an HLS playlist

`M3UParser` (`media/libstagefright/httplive`): what it makes of a text. `none` is `ERROR_MALFORMED`,
the one error there is. The messages with the properties of the playlist and of an item have one field
for each name that the parser sets.
-/

namespace MediaFramework.Hls

open Text

abbrev AString := List Char

def int32 (x : Int) : Int := x.bmod (2^32)

def int64 (x : Int) : Int := x.bmod (2^64)

/-- `mMeta` of the playlist. -/
structure Meta where
  targetDuration : Option Int := none
  mediaSequence : Option Int := none
  deriving DecidableEq, Repr

/-- `mMeta` of an item. -/
structure ItemMeta where
  durationUs : Option Int := none
  discontinuity : Option Int := none
  discontinuitySequence : Option Int := none
  rangeOffset : Option Int := none
  rangeLength : Option Int := none
  cipherMethod : Option AString := none
  cipherUri : Option AString := none
  cipherIv : Option AString := none
  bandwidth : Option Int := none
  codecs : Option AString := none
  width : Option Int := none
  height : Option Int := none
  audio : Option AString := none
  video : Option AString := none
  subtitles : Option AString := none
  deriving DecidableEq, Repr

structure Item where
  mURI : AString
  mMeta : ItemMeta
  deriving DecidableEq, Repr

namespace MediaGroup

inductive GroupType
  | TYPE_AUDIO
  | TYPE_VIDEO
  | TYPE_SUBS
  | TYPE_CC
  deriving DecidableEq, Repr

def FLAG_AUTOSELECT : Nat := 1
def FLAG_DEFAULT : Nat := 2
def FLAG_FORCED : Nat := 4
def FLAG_HAS_LANGUAGE : Nat := 8
def FLAG_HAS_URI : Nat := 16

structure Media where
  mName : AString
  mURI : AString
  mLanguage : AString
  mFlags : Nat
  deriving DecidableEq, Repr

end MediaGroup

open MediaGroup (GroupType Media)
open MediaGroup.GroupType

structure MediaGroup where
  mType : GroupType
  mMediaItems : List Media := []
  mSelectedIndex : Int := -1
  deriving DecidableEq, Repr

/-- The texts are copied from pointers, so each ends at a NUL. -/
def MediaGroup.addMedia (group : MediaGroup) (name : AString) (uri language : Option AString)
    (flags : Nat) : MediaGroup :=
  let item : Media := ⟨cstr name, cstr (uri.getD []), cstr (language.getD []), flags⟩
  { group with mMediaItems := group.mMediaItems ++ [item] }

structure M3UParser where
  mBaseURI : AString
  mIsExtM3U : Bool := false
  mIsVariantPlaylist : Bool := false
  mIsComplete : Bool := false
  mIsEvent : Bool := false
  mFirstSeqNumber : Int := -1
  mLastSeqNumber : Int := -1
  mTargetDurationUs : Int := -1
  mDiscontinuitySeq : Nat := 0
  mDiscontinuityCount : Int := 0
  mMeta : Option Meta := none
  mItems : List Item := []
  mSelectedIndex : Int := -1
  /-- Keyed by group identifier, in the order of `strcmp`. -/
  mMediaGroups : KeyedVector AString MediaGroup := .empty

/-- A parser with the local variables of `parse`. -/
structure Parsing extends M3UParser where
  lineNo : Nat := 0
  itemMeta : Option ItemMeta := none
  segmentRangeOffset : Nat := 0

/-- A property is set in a message that is made if there is none. -/
def edit {α : Type} (fresh : α) (message : Option α) (set : α → α) : Option α :=
  some (set (message.getD fresh))

/-! ## Numbers and quotes -/

def ParseInt32 (s : AString) : Option Int :=
  (strtol s).bind fun r => if r.2 = [] ∨ r.2.head? = some ',' then some (int32 r.1) else none

def ParseDouble (s : AString) : Option Double :=
  (Double.strtod s).bind fun r => if r.2 = [] ∨ r.2.head? = some ',' then some r.1 else none

def isQuotedString (str : AString) : Bool :=
  2 ≤ str.length ∧ str.head? = some '"' ∧ str.getLast? = some '"'

def unquoteString (str : AString) : AString :=
  if isQuotedString str then str.tail.dropLast else str

/-- What follows the first colon of a line. -/
def afterColon (line : AString) : Option AString :=
  (find line ':' 0).map fun colonPos => line.drop (colonPos + 1)

/-! ## Tags with one value -/

def parseMetaData (line : AString) (message : Option Meta) (key : Int → Meta → Meta) :
    Option (Option Meta) :=
  (afterColon line).bind fun text => (ParseInt32 text).map fun x => edit {} message (key x)

def parseMetaDataDuration (line : AString) (message : Option ItemMeta) : Option (Option ItemMeta) :=
  (afterColon line).bind fun text => (ParseDouble text).map fun x =>
    edit {} message fun m => { m with durationUs := some (x.mulNat 1000000).toInt64 }

def parseDiscontinuitySequence (line : AString) : Option Nat :=
  (afterColon line).bind fun text => (ParseInt32 text).bind fun x =>
    if x < 0 then none else some x.toNat

/-- All of a trimmed text is a number. -/
def wholeNumber (s : AString) : Option Nat :=
  (strtoul (trim s)).bind fun r => if r.2 = [] then some r.1 else none

/-- The length and the offset. -/
def parseByteRange (line : AString) (curOffset : Nat) : Option (Nat × Nat) :=
  (find line ':' 0).bind fun colonPos =>
    match find line '@' (colonPos + 1) with
    | none => (wholeNumber (line.drop (colonPos + 1))).map fun length => (length, curOffset)
    | some atPos =>
      (wholeNumber ((line.drop (colonPos + 1)).take (atPos - colonPos - 1))).bind fun length =>
        (wholeNumber (line.drop (atPos + 1))).map fun offset => (length, offset)

/-! ## Attribute lists -/

/-- One step of `FindNextUnquoted` for a comma: the state says that the position is between
quotation marks. -/
def unquotedComma (quoted : Bool) (c : Char) : Option Bool :=
  if c = '"' then some (!quoted) else if c = ',' ∧ quoted = false then none else some quoted

/-- The key and the value of an attribute, where it has an equals sign. -/
def keyAndValue (attr : AString) : Option (AString × AString) :=
  let attr := trim attr
  (find attr '=' 0).map fun equalPos =>
    (trim (attr.take equalPos), trim (attr.drop (equalPos + 1)))

/-- The attributes behind the colon of a line, in order. -/
def attributes (line : AString) : Option (List (AString × AString)) :=
  (afterColon line).map fun text => (pieces unquotedComma false false text).filterMap keyAndValue

def MakeURL (baseURL url : AString) : Option AString :=
  let baseURL := cstr baseURL
  let url := cstr url
  if ¬startsWithIgnoreCase baseURL "http://".toList ∧ ¬startsWithIgnoreCase baseURL "https://".toList
      ∧ ¬startsWithIgnoreCase baseURL "file://".toList then none
  else if startsWithIgnoreCase url "data:".toList then none
  else
    let schemeEnd := (strstr baseURL "//".toList).getD 0 + 2
    if startsWithIgnoreCase url "http://".toList ∨ startsWithIgnoreCase url "https://".toList then
      some url
    else if url.head? = some '/' then
      match find baseURL '/' schemeEnd with
      | some pathStart => some (baseURL.take pathStart ++ url)
      | none => some (baseURL ++ url)
    else
      let qsPos := (find baseURL '?' 0).getD baseURL.length
      -- the last slash before a query string, if there is one
      let slash := ((baseURL.take qsPos).reverse.idxOf? '/').map fun i => qsPos - 1 - i
      let pathEnd := slash.getD qsPos
      some ((if schemeEnd ≤ pathEnd then baseURL.take pathEnd else baseURL) ++ '/' :: url)

def streamAttribute (message : Option ItemMeta) (attr : AString × AString) :
    Option (Option ItemMeta) :=
  let (key, val) := attr
  if strcaseeq "bandwidth".toList key then
    match strtoul val with
    | some (x, []) => some (edit {} message fun m => { m with bandwidth := some (int32 x) })
    | _ => some message
  else if strcaseeq "codecs".toList key then
    if isQuotedString val then
      some (edit {} message fun m => { m with codecs := some (cstr (unquoteString val)) })
    else none
  else if strcaseeq "resolution".toList key then
    match strtoul val with
    | some (width, 'x' :: s) =>
      match strtoul s with
      | some (height, []) =>
        some (edit {} message fun m =>
          { m with width := some (int32 width), height := some (int32 height) })
      | _ => some message
    | _ => some message
  else if strcaseeq "audio".toList key then
    if isQuotedString val then
      some (edit {} message fun m => { m with audio := some (cstr (unquoteString val)) })
    else none
  else if strcaseeq "video".toList key then
    if isQuotedString val then
      some (edit {} message fun m => { m with video := some (cstr (unquoteString val)) })
    else none
  else if strcaseeq "subtitles".toList key then
    if isQuotedString val then
      some (edit {} message fun m => { m with subtitles := some (cstr (unquoteString val)) })
    else none
  else some message

def parseStreamInf (line : AString) (message : Option ItemMeta) : Option (Option ItemMeta) :=
  (attributes line).bind fun attrs => (attrs.foldlM streamAttribute message).bind fun message =>
    if message.isNone then none else some message

def cipherAttribute (baseURI : AString) (message : Option ItemMeta) (attr : AString × AString) :
    Option ItemMeta :=
  let key := attr.1.map Char.toLower
  let val := attr.2
  if key = "method".toList then edit {} message fun m => { m with cipherMethod := some val }
  else if key = "uri".toList then
    let val := unquoteString val
    edit {} message fun m => { m with cipherUri := some ((MakeURL baseURI val).getD val) }
  else if key = "iv".toList then edit {} message fun m => { m with cipherIv := some val }
  else message

def parseCipherInfo (line : AString) (message : Option ItemMeta) (baseURI : AString) :
    Option (Option ItemMeta) :=
  (attributes line).map fun attrs => attrs.foldl (cipherAttribute baseURI) message

/-- The local variables of `parseMedia` that its attributes set. -/
structure MediaAttributes where
  groupType : Option GroupType := none
  groupID : Option AString := none
  groupLanguage : Option AString := none
  groupName : Option AString := none
  groupAutoselect : Option Bool := none
  groupDefault : Option Bool := none
  groupForced : Option Bool := none
  groupURI : Option AString := none

def yesOrNo (val : AString) : Option Bool :=
  if strcaseeq "YES".toList val then some true
  else if strcaseeq "NO".toList val then some false
  else none

def quoted (val : AString) : Option AString :=
  if isQuotedString val then some (unquoteString val) else none

def groupTypeOf (val : AString) : Option GroupType :=
  if strcaseeq "subtitles".toList val then some TYPE_SUBS
  else if strcaseeq "audio".toList val then some TYPE_AUDIO
  else if strcaseeq "video".toList val then some TYPE_VIDEO
  else if strcaseeq "closed-captions".toList val then some TYPE_CC
  else none

def mediaAttribute (m : MediaAttributes) (attr : AString × AString) : Option MediaAttributes :=
  let (key, val) := attr
  if strcaseeq "type".toList key then
    (groupTypeOf val).map fun type => { m with groupType := some type }
  else if strcaseeq "group-id".toList key then
    (quoted val).map fun text => { m with groupID := some text }
  else if strcaseeq "language".toList key then
    (quoted val).map fun text => { m with groupLanguage := some text }
  else if strcaseeq "name".toList key then
    (quoted val).map fun text => { m with groupName := some text }
  else if strcaseeq "autoselect".toList key then
    (yesOrNo val).map fun yes => { m with groupAutoselect := some yes }
  else if strcaseeq "default".toList key then
    (yesOrNo val).map fun yes => { m with groupDefault := some yes }
  else if strcaseeq "forced".toList key then
    (yesOrNo val).map fun yes => { m with groupForced := some yes }
  else if strcaseeq "uri".toList key then
    (quoted val).map fun text => { m with groupURI := some text }
  else some m

def mediaFlags (m : MediaAttributes) : Nat :=
  (if m.groupAutoselect = some true then MediaGroup.FLAG_AUTOSELECT else 0)
  ||| (if m.groupDefault = some true then MediaGroup.FLAG_DEFAULT else 0)
  ||| (if m.groupForced = some true then MediaGroup.FLAG_FORCED else 0)
  ||| (if m.groupLanguage.isSome then MediaGroup.FLAG_HAS_LANGUAGE else 0)
  ||| (if m.groupURI.isSome then MediaGroup.FLAG_HAS_URI else 0)

/-- A media item is put under its group, which is made if there is none. -/
def putMedia (groups : KeyedVector AString MediaGroup) (m : MediaAttributes) (groupType : GroupType)
    (groupID groupName : AString) : Option (KeyedVector AString MediaGroup) :=
  if m.groupForced.isSome ∧ groupType ≠ TYPE_SUBS then none
  else
    let group := (groups.find? (cstr groupID)).getD { mType := groupType }
    if group.mType ≠ groupType then none
    else some (groups.set (cstr groupID)
      (group.addMedia groupName m.groupURI m.groupLanguage (mediaFlags m)))

def parseMedia (line : AString) (groups : KeyedVector AString MediaGroup) :
    Option (KeyedVector AString MediaGroup) :=
  (attributes line).bind fun attrs => (attrs.foldlM mediaAttribute {}).bind fun m =>
    m.groupType.bind fun groupType => m.groupID.bind fun groupID => m.groupName.bind fun groupName =>
      if groupType = TYPE_CC then some groups else putMedia groups m groupType groupID groupName

/-! ## Lines -/

/-- What `parse` looks for at the start of a line. -/
inductive Tag
  | targetDuration
  | mediaSequence
  | key
  | endlist
  | playlistTypeEvent
  | inf
  | discontinuitySequence
  | discontinuity
  | streamInf
  | byterange
  | media
  deriving DecidableEq, Repr

namespace Tag

def text : Tag → AString
  | targetDuration => "#EXT-X-TARGETDURATION".toList
  | mediaSequence => "#EXT-X-MEDIA-SEQUENCE".toList
  | key => "#EXT-X-KEY".toList
  | endlist => "#EXT-X-ENDLIST".toList
  | playlistTypeEvent => "#EXT-X-PLAYLIST-TYPE:EVENT".toList
  | inf => "#EXTINF".toList
  | discontinuitySequence => "#EXT-X-DISCONTINUITY-SEQUENCE".toList
  | discontinuity => "#EXT-X-DISCONTINUITY".toList
  | streamInf => "#EXT-X-STREAM-INF".toList
  | byterange => "#EXT-X-BYTERANGE".toList
  | media => "#EXT-X-MEDIA".toList

/-- All of them, in the order in which `parse` tries them. -/
def inOrder : List Tag :=
  [targetDuration, mediaSequence, key, endlist, playlistTypeEvent, inf, discontinuitySequence,
    discontinuity, streamInf, byterange, media]

/-- The tag of a line. -/
def of (line : AString) : Option Tag := inOrder.find? fun tag => tag.text.isPrefixOf line

/-- A tag that only a media playlist may have. -/
def mediaOnly : Tag → Bool
  | targetDuration | mediaSequence | key | inf | discontinuitySequence | discontinuity | byterange =>
    true
  | endlist | playlistTypeEvent | streamInf | media => false

end Tag

namespace Parsing

variable (p : Parsing) (line : AString)

def parseTag : Tag → Option Parsing
  | .targetDuration =>
    (parseMetaData line p.mMeta fun x m => { m with targetDuration := some x }).map fun message =>
      { p with mMeta := message }
  | .mediaSequence =>
    (parseMetaData line p.mMeta fun x m => { m with mediaSequence := some x }).map fun message =>
      { p with mMeta := message }
  | .key => (parseCipherInfo line p.itemMeta p.mBaseURI).map fun message =>
      { p with itemMeta := message }
  | .endlist => some { p with mIsComplete := true }
  | .playlistTypeEvent => some { p with mIsEvent := true }
  | .inf => (parseMetaDataDuration line p.itemMeta).map fun message => { p with itemMeta := message }
  | .discontinuitySequence =>
    (parseDiscontinuitySequence line).map fun seq => { p with mDiscontinuitySeq := seq }
  | .discontinuity =>
    some { p with
      itemMeta := edit {} p.itemMeta fun m => { m with discontinuity := some 1 }
      mDiscontinuityCount := int32 (p.mDiscontinuityCount + 1) }
  | .streamInf =>
    if p.mMeta.isSome then none
    else (parseStreamInf line p.itemMeta).map fun message =>
      { p with mIsVariantPlaylist := true, itemMeta := message }
  | .byterange => (parseByteRange line p.segmentRangeOffset).map fun r =>
      { p with
        itemMeta := edit {} p.itemMeta fun m =>
          { m with rangeOffset := some (int64 r.2), rangeLength := some (int64 r.1) }
        segmentRangeOffset := (r.2 + r.1) % 2^64 }
  | .media => (parseMedia line p.mMediaGroups).map fun groups => { p with mMediaGroups := groups }

def parseExtLine : Option Parsing :=
  match Tag.of line with
  | none => some p
  | some tag => if tag.mediaOnly ∧ p.mIsVariantPlaylist then none else p.parseTag line tag

/-- A line that does not start with `#`. -/
def parseUri : Option Parsing :=
  p.itemMeta.bind fun message =>
    if p.mIsVariantPlaylist then
      some { p with mItems := p.mItems ++ [⟨line, message⟩], itemMeta := none }
    else if message.durationUs.isNone then none
    else
      let message := { message with
        discontinuitySequence := some (int32 (p.mDiscontinuitySeq + p.mDiscontinuityCount)) }
      some { p with mItems := p.mItems ++ [⟨line, message⟩], itemMeta := none }

/-- `#EXTM3U` counts in the first line that is not empty. -/
def readMark : Parsing :=
  if p.lineNo = 0 ∧ line = "#EXTM3U".toList then { p with mIsExtM3U := true } else p

def parseLine : Option Parsing :=
  if line = [] then some p
  else
    let p := p.readMark line
    (if p.mIsExtM3U then p.parseExtLine line else some p).bind fun p =>
      (if line.head? = some '#' then some p else p.parseUri line).map fun p =>
        { p with lineNo := p.lineNo + 1 }

end Parsing

/-- A line without the CR in front of its LF. -/
def stripCR (line : AString) : AString := if line.getLast? = some '\r' then line.dropLast else line

namespace M3UParser

variable (p : M3UParser)

/-- The numbers of a media playlist, which must have a target duration. -/
def number : Option M3UParser :=
  if p.mIsVariantPlaylist then some p
  else p.mMeta.bind fun m => m.targetDuration.map fun secs =>
    let first := m.mediaSequence.getD 0
    { p with
      mTargetDurationUs := secs * 1000000
      mFirstSeqNumber := first
      mLastSeqNumber := int32 (first + p.mItems.length - 1) }

def groupsOf (m : ItemMeta) : List AString :=
  m.audio.toList ++ m.video.toList ++ m.subtitles.toList

def finish : Option M3UParser :=
  if p.mItems = [] then none
  else p.number.bind fun p =>
    if p.mItems.all fun item => (groupsOf item.mMeta).all fun groupID =>
      (p.mMediaGroups.find? (cstr groupID)).isSome
    then some p else none

/-- The parser of a text, if `initCheck` returns `OK`. -/
def parse (baseURI : AString) (data : List Char) : Option M3UParser :=
  (((lines data).map stripCR).foldlM Parsing.parseLine { mBaseURI := baseURI }).bind fun p =>
    p.toM3UParser.finish

def getSeqNumberRange : Int × Int := (p.mFirstSeqNumber, p.mLastSeqNumber)

end M3UParser

end MediaFramework.Hls
