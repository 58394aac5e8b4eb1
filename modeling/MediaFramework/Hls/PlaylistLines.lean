import MediaFramework.Hls.ParsingSteps
import Mathlib.Data.List.Find

/-!
# The lines of a media playlist

The lines that a media playlist is written in, and what `M3UParser` makes of each: the tags of the
whole playlist change one message, the other lines everything else.
-/

namespace MediaFramework.Hls

open Text

/-- A line about the whole playlist. -/
inductive HeadLine
  | targetDuration (x : Int)
  | mediaSequence (x : Int)
  deriving DecidableEq

inductive BodyLine
  | discontinuitySequence (n : Nat)
  | discontinuity
  | byterange (n : Nat) (o : Option Nat)
  | inf (duration : AString)
  | uri (line : AString)
  deriving DecidableEq

namespace HeadLine

def text : HeadLine → AString
  | targetDuration x => Tag.targetDuration.text ++ ':' :: signed x
  | mediaSequence x => Tag.mediaSequence.text ++ ':' :: signed x

def value : HeadLine → Int
  | targetDuration x | mediaSequence x => x

def apply (message : Option Meta) : HeadLine → Option Meta
  | targetDuration x => edit {} message fun m => { m with targetDuration := some x }
  | mediaSequence x => edit {} message fun m => { m with mediaSequence := some x }

end HeadLine

/-- What the lines about items change. -/
structure Body where
  itemMeta : Option ItemMeta := none
  segmentRangeOffset : Nat := 0
  mDiscontinuitySeq : Nat := 0
  mDiscontinuityCount : Int := 0
  mItems : List Item := []

namespace BodyLine

def text : BodyLine → AString
  | discontinuitySequence n => Tag.discontinuitySequence.text ++ ':' :: decimal n
  | discontinuity => Tag.discontinuity.text
  | byterange n none => Tag.byterange.text ++ ':' :: decimal n
  | byterange n (some o) => Tag.byterange.text ++ ':' :: (decimal n ++ '@' :: decimal o)
  | inf duration => Tag.inf.text ++ ':' :: duration
  | uri line => line

/-- The line says what the parser can read. -/
def Valid : BodyLine → Prop
  | discontinuitySequence n => n < 2^31
  | discontinuity => True
  | byterange n o => n < 2^64 ∧ ∀ o' ∈ o, o' < 2^64
  | inf duration => '\n' ∉ duration ∧ '\r' ∉ duration ∧ (ParseDouble duration).isSome
  | uri line => '\n' ∉ line ∧ '\r' ∉ line ∧ line ≠ [] ∧ line.head? ≠ some '#'

def durationUs (duration : AString) : Option Int :=
  (ParseDouble duration).map fun x => (x.mulNat 1000000).toInt64

/-- The change of a tag. -/
def tag (b : Body) : BodyLine → Body
  | discontinuitySequence n => { b with mDiscontinuitySeq := n }
  | discontinuity =>
    { b with
      itemMeta := edit {} b.itemMeta fun m => { m with discontinuity := some 1 }
      mDiscontinuityCount := int32 (b.mDiscontinuityCount + 1) }
  | byterange n o =>
    let start := o.getD b.segmentRangeOffset
    { b with
      itemMeta := edit {} b.itemMeta fun m =>
        { m with rangeOffset := some (int64 start), rangeLength := some (int64 n) }
      segmentRangeOffset := (start + n) % 2^64 }
  | inf duration =>
    { b with itemMeta := edit {} b.itemMeta fun m => { m with durationUs := durationUs duration } }
  | uri _ => b

/-- The item that ends with a URI. -/
def addItem (b : Body) (line : AString) : Option Body :=
  b.itemMeta.bind fun message =>
    if message.durationUs.isNone then none
    else
      let sequence := int32 (b.mDiscontinuitySeq + b.mDiscontinuityCount)
      some { b with
        mItems := b.mItems ++ [⟨line, { message with discontinuitySequence := some sequence }⟩]
        itemMeta := none }

def apply (b : Body) : BodyLine → Option Body
  | uri line => addItem b line
  | line => some (tag b line)

end BodyLine

/-! ## Reading what has been written -/

theorem int32_eq {x : Int} (hlow : -2^31 ≤ x) (hhigh : x < 2^31) : int32 x = x :=
  Int.bmod_eq_of_le (by omega) (by omega)

theorem ParseInt32_signed {x : Int} (hlow : -2^31 ≤ x) (hhigh : x < 2^31) :
    ParseInt32 (signed x) = some x := by
  simp [ParseInt32, strtol_signed (z := x) (by omega) (by omega), int32_eq hlow hhigh]

theorem ParseInt32_decimal {n : Nat} (h : n < 2^31) : ParseInt32 (decimal n) = some (n : Int) := by
  have hsigned := ParseInt32_signed (x := (n : Int)) (by omega) (by omega)
  rwa [signed, if_neg (by omega), Int.natAbs_natCast] at hsigned

theorem wholeNumber_decimal {n : Nat} (h : n < 2^64) : wholeNumber (decimal n) = some n := by
  have htrim : trim (decimal n) = decimal n := trim_eq fun c hc => isspace_of_mem_decimal hc
  simp [wholeNumber, htrim, strtoul_decimal h]

/-- A tag has no character that ends a line or a text. -/
theorem Tag.clean : ∀ tag ∈ inOrder, '\x00' ∉ tag.text ∧ '\n' ∉ tag.text ∧ '\r' ∉ tag.text := by
  decide +kernel

theorem Tag.find_colon (tag : Tag) (rest : AString) (h : ':' ∉ tag.text) :
    find (tag.text ++ ':' :: rest) ':' 0 = some tag.text.length :=
  find_append (Tag.clean tag tag.mem_inOrder).1 h (by decide)

theorem drop_length_succ {α : Type} (s : List α) (a : α) (t : List α) :
    (s ++ a :: t).drop (s.length + 1) = t := by
  rw [← List.drop_drop, List.drop_left]
  rfl

theorem afterColon_text {tag : Tag} (rest : AString) (h : ':' ∉ tag.text) :
    afterColon (tag.text ++ ':' :: rest) = some rest := by
  rw [afterColon, tag.find_colon rest h, Option.map_some, drop_length_succ]

theorem parseMetaData_text {tag : Tag} {x : Int} (h : ':' ∉ tag.text) (hlow : -2^31 ≤ x)
    (hhigh : x < 2^31) (message : Option Meta) (key : Int → Meta → Meta) :
    parseMetaData (tag.text ++ ':' :: signed x) message key = some (edit {} message (key x)) := by
  rw [parseMetaData, afterColon_text _ h, Option.bind_some, ParseInt32_signed hlow hhigh,
    Option.map_some]

theorem parseMetaDataDuration_text {duration : AString} {x : Double}
    (h : ParseDouble duration = some x) (message : Option ItemMeta) :
    parseMetaDataDuration (Tag.inf.text ++ ':' :: duration) message
      = some (edit {} message fun m => { m with durationUs := BodyLine.durationUs duration }) := by
  rw [parseMetaDataDuration, afterColon_text _ (by decide), Option.bind_some, BodyLine.durationUs, h,
    Option.map_some]
  rfl

theorem parseDiscontinuitySequence_text {n : Nat} (h : n < 2^31) :
    parseDiscontinuitySequence (Tag.discontinuitySequence.text ++ ':' :: decimal n) = some n := by
  have hneg : ¬(n : Int) < 0 := by omega
  rw [parseDiscontinuitySequence, afterColon_text _ (by decide), Option.bind_some,
    ParseInt32_decimal h, Option.bind_some, if_neg hneg, Int.toNat_natCast]

theorem parseByteRange_plain {n : Nat} (h : n < 2^64) (curOffset : Nat) :
    parseByteRange (Tag.byterange.text ++ ':' :: decimal n) curOffset = some (n, curOffset) := by
  have hat : find (Tag.byterange.text ++ ':' :: decimal n) '@' (Tag.byterange.text.length + 1)
      = none := by
    refine find_eq_none ?_
    rw [List.mem_append, List.mem_cons, not_or, not_or]
    exact ⟨by decide, by decide, notMem_decimal (by decide)⟩
  have hcolon := Tag.find_colon .byterange (decimal n) (by decide)
  simp [parseByteRange, hcolon, hat, drop_length_succ, wholeNumber_decimal h]

theorem parseByteRange_offset {n o : Nat} (hn : n < 2^64) (ho : o < 2^64) (curOffset : Nat) :
    parseByteRange (Tag.byterange.text ++ ':' :: (decimal n ++ '@' :: decimal o)) curOffset
      = some (n, o) := by
  have hafter : find (Tag.byterange.text ++ ':' :: (decimal n ++ '@' :: decimal o)) '@'
      (Tag.byterange.text.length + 1) = some (Tag.byterange.text.length + 1 + (decimal n).length) := by
    rw [find, drop_length_succ]
    have hfind : find (decimal n ++ '@' :: decimal o) '@' 0 = some (decimal n).length :=
      find_append (notMem_decimal (by decide)) (notMem_decimal (by decide)) (by decide)
    rw [find, List.drop_zero, Option.map_eq_some_iff] at hfind
    obtain ⟨i, hidx, hi⟩ := hfind
    rw [hidx, Option.map_some]
    exact congrArg some (by omega)
  have hlength : Tag.byterange.text.length + 1 + (decimal n).length - Tag.byterange.text.length - 1
      = (decimal n).length := by omega
  have hoffset : (Tag.byterange.text ++ ':' :: (decimal n ++ '@' :: decimal o)).drop
      (Tag.byterange.text.length + 1 + (decimal n).length + 1) = decimal o := by
    rw [Nat.add_assoc, ← List.drop_drop, drop_length_succ, drop_length_succ]
  have hcolon := Tag.find_colon .byterange (decimal n ++ '@' :: decimal o) (by decide)
  simp only [parseByteRange, hcolon, Option.bind_some, hafter, drop_length_succ, hlength,
    List.take_left, wholeNumber_decimal hn, hoffset, wholeNumber_decimal ho, Option.map_some]

/-- More behind a line changes its tag only where the line is the beginning of another tag. -/
theorem Tag.of_append {line rest : AString}
    (h : ∀ tag ∈ inOrder, tag.text <+: line ∨ ¬line <+: tag.text) :
    Tag.of (line ++ rest) = Tag.of line := by
  have hfit : ∀ tag ∈ inOrder, tag.text.isPrefixOf (line ++ rest) = tag.text.isPrefixOf line := by
    intro tag htag
    by_cases hstart : tag.text <+: line
    · rw [List.isPrefixOf_iff_prefix.mpr hstart,
        List.isPrefixOf_iff_prefix.mpr (hstart.trans (List.prefix_append line rest))]
    · rw [not_isPrefixOf_append hstart ((h tag htag).resolve_left hstart), eq_comm,
        Bool.eq_false_iff, ne_eq, List.isPrefixOf_iff_prefix]
      exact hstart
  exact List.find?_congr hfit

/-- With the colon no tag is the beginning of another one. -/
theorem Tag.apart : ∀ tag ∈ inOrder, Tag.of (tag.text ++ [':']) = some tag ∧
    ∀ t ∈ inOrder, t.text <+: tag.text ++ [':'] ∨ ¬tag.text ++ [':'] <+: t.text := by
  decide +kernel

theorem Tag.of_colon (tag : Tag) (rest : AString) : Tag.of (tag.text ++ ':' :: rest) = some tag := by
  obtain ⟨hself, hothers⟩ := Tag.apart tag tag.mem_inOrder
  have hcolon : tag.text ++ ':' :: rest = (tag.text ++ [':']) ++ rest := by simp
  rw [hcolon, Tag.of_append hothers, hself]

/-! ## One line -/

namespace Parsing

variable {p q : Parsing} {m : Option Meta} {b b' : Body}

def body (p : Parsing) : Body where
  itemMeta := p.itemMeta
  segmentRangeOffset := p.segmentRangeOffset
  mDiscontinuitySeq := p.mDiscontinuitySeq
  mDiscontinuityCount := p.mDiscontinuityCount
  mItems := p.mItems

/-- A media playlist is being parsed, with this message and this body. -/
structure Shows (p : Parsing) (m : Option Meta) (b : Body) : Prop where
  marked : p.mIsExtM3U = true
  media : p.mIsVariantPlaylist = false
  message : p.mMeta = m
  body : p.body = b

theorem readMark_eq (h : p.mIsExtM3U = true) (line : AString) : p.readMark line = p := by
  rw [readMark, ← h]
  exact ite_self p

/-- A line with a tag that is allowed. -/
theorem parseLine_marked {line : AString} {tag : Tag} (hmarked : p.mIsExtM3U = true)
    (hhead : line.head? = some '#') (htag : Tag.of line = some tag)
    (hallowed : ¬(tag.mediaOnly = true ∧ p.mIsVariantPlaylist = true)) :
    p.parseLine line = (p.parseTag line tag).map fun q => { q with lineNo := q.lineNo + 1 } := by
  have hne : line ≠ [] := by
    rintro rfl
    simp at hhead
  rw [parseLine, if_neg hne]
  simp only [readMark_eq hmarked, hmarked, parseExtLine, htag, hallowed, hhead, if_true, if_false]
  cases p.parseTag line tag with
  | none => rfl
  | some q => rfl

theorem parseLine_tag {line : AString} {tag : Tag} (h : p.Shows m b) (hhead : line.head? = some '#')
    (htag : Tag.of line = some tag) (hparse : p.parseTag line tag = some q) :
    p.parseLine line = some { q with lineNo := q.lineNo + 1 } := by
  have hallowed : ¬(tag.mediaOnly = true ∧ p.mIsVariantPlaylist = true) := by
    rw [h.media]
    exact fun hboth => Bool.false_ne_true hboth.2
  rw [parseLine_marked h.marked hhead htag hallowed, hparse, Option.map_some]

theorem parseLine_comment {line : AString} (h : p.Shows m b) (hhead : line.head? = some '#')
    (htag : Tag.of line = none) : ∃ q, p.parseLine line = some q ∧ q.Shows m b := by
  have hne : line ≠ [] := by
    rintro rfl
    simp at hhead
  refine ⟨{ p with lineNo := p.lineNo + 1 }, ?_, h.marked, h.media, h.message, h.body⟩
  rw [parseLine, if_neg hne]
  simp [readMark_eq h.marked, h.marked, parseExtLine, htag, hhead]

theorem parseLine_empty : p.parseLine [] = some p := by simp [parseLine]

theorem parseLine_head (h : p.Shows m b) {l : HeadLine} (hlow : -2^31 ≤ l.value)
    (hhigh : l.value < 2^31) : ∃ q, p.parseLine l.text = some q ∧ q.Shows (l.apply m) b := by
  have happly : HeadLine.apply p.mMeta l = HeadLine.apply m l := by rw [h.message]
  cases l with
  | targetDuration x =>
    have hparse : p.parseTag (HeadLine.targetDuration x).text .targetDuration
        = some { p with mMeta := (HeadLine.targetDuration x).apply p.mMeta } := by
      rw [parseTag, HeadLine.text, parseMetaData_text (x := x) (by decide) hlow hhigh]
      rfl
    exact ⟨_, parseLine_tag h (Tag.head_text _ _) (Tag.of_colon _ _) hparse, h.marked, h.media, happly,
      h.body⟩
  | mediaSequence x =>
    have hparse : p.parseTag (HeadLine.mediaSequence x).text .mediaSequence
        = some { p with mMeta := (HeadLine.mediaSequence x).apply p.mMeta } := by
      rw [parseTag, HeadLine.text, parseMetaData_text (x := x) (by decide) hlow hhigh]
      rfl
    exact ⟨_, parseLine_tag h (Tag.head_text _ _) (Tag.of_colon _ _) hparse, h.marked, h.media, happly,
      h.body⟩

/-- A line about items other than a URI. -/
theorem parseLine_bodyTag (h : p.Shows m b) {l : BodyLine} (hvalid : l.Valid)
    (huri : ∀ line, l ≠ .uri line) :
    ∃ q, p.parseLine l.text = some q ∧ q.Shows m (l.tag b) := by
  have happly : BodyLine.tag p.body l = BodyLine.tag b l := by rw [h.body]
  cases l with
  | discontinuitySequence n =>
    have hparse : p.parseTag (BodyLine.discontinuitySequence n).text .discontinuitySequence
        = some { p with mDiscontinuitySeq := n } := by
      rw [parseTag, BodyLine.text, parseDiscontinuitySequence_text hvalid]
      rfl
    exact ⟨_, parseLine_tag h (Tag.head_text _ _) (Tag.of_colon _ _) hparse, h.marked, h.media,
      h.message, happly⟩
  | discontinuity =>
    have htag : Tag.of BodyLine.discontinuity.text = some .discontinuity := by decide +kernel
    exact ⟨_, parseLine_tag h rfl htag rfl, h.marked, h.media, h.message, happly⟩
  | byterange n o =>
    obtain ⟨hn, ho⟩ := hvalid
    cases o with
    | none =>
      have hparse := congrArg (Option.map fun r : Nat × Nat =>
        { p with
          itemMeta := edit {} p.itemMeta fun m =>
            { m with rangeOffset := some (int64 r.2), rangeLength := some (int64 r.1) }
          segmentRangeOffset := (r.2 + r.1) % 2^64 })
        (parseByteRange_plain hn p.segmentRangeOffset)
      exact ⟨_, parseLine_tag h (Tag.head_text _ _) (Tag.of_colon .byterange _) hparse, h.marked,
        h.media, h.message, happly⟩
    | some o =>
      have hparse := congrArg (Option.map fun r : Nat × Nat =>
        { p with
          itemMeta := edit {} p.itemMeta fun m =>
            { m with rangeOffset := some (int64 r.2), rangeLength := some (int64 r.1) }
          segmentRangeOffset := (r.2 + r.1) % 2^64 })
        (parseByteRange_offset hn (ho o rfl) p.segmentRangeOffset)
      exact ⟨_, parseLine_tag h (Tag.head_text _ _) (Tag.of_colon .byterange _) hparse, h.marked,
        h.media, h.message, happly⟩
  | inf duration =>
    obtain ⟨x, hx⟩ := Option.isSome_iff_exists.mp hvalid.2.2
    have hparse : p.parseTag (BodyLine.inf duration).text .inf
        = some { p with itemMeta := edit {} p.itemMeta fun m =>
            { m with durationUs := BodyLine.durationUs duration } } := by
      rw [parseTag, BodyLine.text, parseMetaDataDuration_text hx]
      rfl
    exact ⟨_, parseLine_tag h (Tag.head_text _ _) (Tag.of_colon _ _) hparse, h.marked, h.media,
      h.message, happly⟩
  | uri line => exact absurd rfl (huri line)

theorem parseLine_uri {line : AString} (h : p.Shows m b) (hvalid : (BodyLine.uri line).Valid)
    (happly : BodyLine.addItem b line = some b') :
    ∃ q, p.parseLine line = some q ∧ q.Shows m b' := by
  obtain ⟨-, -, hne, hhead⟩ := hvalid
  have htag := Tag.of_eq_none hhead
  obtain ⟨message, hmessage, happly⟩ := Option.bind_eq_some_iff.mp happly
  split at happly
  · cases happly
  · rename_i hduration
    rw [← h.body] at hmessage happly
    have hpending : p.itemMeta = some message := hmessage
    have hline : p.parseLine line = (p.parseUri line).map fun q =>
        { q with lineNo := q.lineNo + 1 } := by
      rw [parseLine, if_neg hne]
      simp [readMark_eq h.marked, h.marked, parseExtLine, htag, hhead]
    have huri : p.parseUri line = some { p with
        mItems := p.mItems ++ [⟨line, { message with
          discontinuitySequence := some (int32 (p.mDiscontinuitySeq + p.mDiscontinuityCount)) }⟩]
        itemMeta := none } := by
      rw [parseUri, hpending, Option.bind_some, h.media, if_neg (by decide), if_neg hduration]
    rw [hline, huri, Option.map_some]
    exact ⟨_, rfl, h.marked, h.media, h.message, Option.some.inj happly⟩

theorem parseLine_body (h : p.Shows m b) {l : BodyLine} (hvalid : l.Valid)
    (happly : l.apply b = some b') : ∃ q, p.parseLine l.text = some q ∧ q.Shows m b' := by
  cases l with
  | uri line => exact parseLine_uri h hvalid happly
  | discontinuitySequence n =>
    exact Option.some.inj happly ▸ parseLine_bodyTag h hvalid fun line => nofun
  | discontinuity => exact Option.some.inj happly ▸ parseLine_bodyTag h hvalid fun line => nofun
  | byterange n o => exact Option.some.inj happly ▸ parseLine_bodyTag h hvalid fun line => nofun
  | inf duration => exact Option.some.inj happly ▸ parseLine_bodyTag h hvalid fun line => nofun

end Parsing

end MediaFramework.Hls
