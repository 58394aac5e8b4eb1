import MediaFramework.Hls.PlaylistLines

/-!
# Media playlists

What a media playlist says, the texts it is written as, and that `M3UParser` reads it back from each
of them.
-/

namespace MediaFramework.Hls

open Text

structure MediaItem where
  uri : AString
  duration : AString
  discontinuity : Bool
  /-- The length, and the offset where it is given. -/
  range : Option (Nat × Option Nat)
  uri_valid : (BodyLine.uri uri).Valid
  duration_valid : (BodyLine.inf duration).Valid

namespace MediaItem

variable (item : MediaItem)

/-- The end of the latest byte range, from the end of the latest one before the item. -/
def rangeEnd (previous : Nat) : Nat :=
  match item.range with
  | none => previous
  | some (n, o) => o.getD previous + n

def marks : Nat := if item.discontinuity then 1 else 0

def tags : List BodyLine :=
  .inf item.duration :: ((if item.discontinuity then [.discontinuity] else [])
    ++ item.range.toList.map fun r => .byterange r.1 r.2)

/-- What the parser makes of the item. -/
def toItem (previous : Nat) (sequence : Int) : Item where
  mURI := item.uri
  mMeta :=
    { durationUs := BodyLine.durationUs item.duration
      discontinuity := if item.discontinuity then some 1 else none
      discontinuitySequence := some (int32 sequence)
      rangeOffset := item.range.map fun r => (r.2.getD previous : Int)
      rangeLength := item.range.map fun r => (r.1 : Int) }

end MediaItem

/-- The ends of the byte ranges are below 2^63, from the end of the latest one before the items. -/
def RangesFit : Nat → List MediaItem → Prop
  | _, [] => True
  | previous, item :: items => item.rangeEnd previous < 2^63 ∧ RangesFit (item.rangeEnd previous) items

structure MediaPlaylist where
  targetDuration : Int
  mediaSequence : Option Int
  discontinuitySequence : Option Nat
  items : List MediaItem
  targetDuration_fits : -2^31 ≤ targetDuration ∧ targetDuration < 2^31
  mediaSequence_fits : ∀ x ∈ mediaSequence, -2^31 ≤ x ∧ x < 2^31
  items_ne_nil : items ≠ []
  ranges_fit : RangesFit 0 items

/-! ## Texts -/

abbrev Line := HeadLine ⊕ BodyLine

def Line.text : Line → AString := Sum.elim HeadLine.text BodyLine.text

/-- The tags and URIs of some items: the tags of one item in any order. -/
inductive ItemLines : List MediaItem → List BodyLine → Prop
  | nil : ItemLines [] []
  | cons {item : MediaItem} {items : List MediaItem} {tags lines : List BodyLine} :
      tags.Perm item.tags → ItemLines items lines →
      ItemLines (item :: items) (tags ++ .uri item.uri :: lines)

namespace MediaPlaylist

variable (pl : MediaPlaylist)

def headLines : List HeadLine :=
  .targetDuration pl.targetDuration :: pl.mediaSequence.toList.map .mediaSequence

/-- The lines of a playlist: those about all of it stand anywhere, a discontinuity sequence in front of
the items. -/
structure Lines (ls : List Line) : Prop where
  head : (ls.filterMap Sum.getLeft?).Perm pl.headLines
  body : ∃ items, ItemLines pl.items items ∧ ls.filterMap Sum.getRight?
    = pl.discontinuitySequence.toList.map .discontinuitySequence ++ items

end MediaPlaylist

/-- What ends a line; the last one may go without. -/
def LineEnd (eol rest : List Char) : Prop := eol = ['\n'] ∨ eol = ['\r', '\n'] ∨ (eol = [] ∧ rest = [])

/-- Lines with blank lines and comments anywhere. -/
inductive Written : List Line → List Char → Prop
  | done : Written [] []
  | blank {ls : List Line} {eol rest : List Char} :
      LineEnd eol rest → Written ls rest → Written ls (eol ++ rest)
  | comment {ls : List Line} {c : AString} {eol rest : List Char} :
      c.head? = some '#' → '\n' ∉ c → Tag.of c = none → LineEnd eol rest → Written ls rest →
      Written ls (c ++ eol ++ rest)
  | line {l : Line} {ls : List Line} {eol rest : List Char} :
      LineEnd eol rest → Written ls rest → Written (l :: ls) (l.text ++ eol ++ rest)

/-- A text that starts with `#EXTM3U`, blank lines apart. -/
inductive Document (ls : List Line) : List Char → Prop
  | mark {eol rest : List Char} :
      LineEnd eol rest → Written ls rest → Document ls ("#EXTM3U".toList ++ eol ++ rest)
  | blank {eol rest : List Char} : LineEnd eol rest → Document ls rest → Document ls (eol ++ rest)

/-- The lines with an LF each and nothing between them. -/
def plainText (ls : List Line) : List Char :=
  "#EXTM3U".toList ++ ['\n'] ++ ls.flatMap fun l => l.text ++ ['\n']

theorem written_plain (ls : List Line) : Written ls (ls.flatMap fun l => l.text ++ ['\n']) := by
  induction ls with
  | nil => exact .done
  | cons l ls ih => exact .line (.inl rfl) ih

theorem document_plainText (ls : List Line) : Document ls (plainText ls) :=
  .mark (.inl rfl) (written_plain ls)

namespace MediaPlaylist

def bodyLines (pl : MediaPlaylist) : List BodyLine :=
  pl.discontinuitySequence.toList.map .discontinuitySequence
    ++ pl.items.flatMap fun item => item.tags ++ [.uri item.uri]

/-- The lines of a playlist in the order of its parts. -/
def plainLines (pl : MediaPlaylist) : List Line :=
  pl.headLines.map .inl ++ pl.bodyLines.map .inr

theorem lines_plainLines (pl : MediaPlaylist) : pl.Lines pl.plainLines := by
  have hitems : ∀ items : List MediaItem,
      ItemLines items (items.flatMap fun item => item.tags ++ [.uri item.uri]) := by
    intro items
    induction items with
    | nil => exact .nil
    | cons item items ih =>
      rw [List.flatMap_cons, List.append_assoc]
      exact .cons (List.Perm.refl _) ih
  constructor
  · simp [plainLines, List.filterMap_append, List.filterMap_map, Function.comp_def]
  · refine ⟨_, hitems pl.items, ?_⟩
    simp [plainLines, bodyLines, List.filterMap_append, List.filterMap_map, Function.comp_def]

end MediaPlaylist

/-! ## Runs of the parser -/

namespace Parsing

variable {p q : Parsing} {m : Option Meta} {b b' : Body}

def parseText (p : Parsing) (data : List Char) : Option Parsing :=
  ((lines data).map stripCR).foldlM parseLine p

theorem stripCR_eq {line : AString} (h : '\r' ∉ line) : stripCR line = line :=
  if_neg fun hlast => h (List.mem_of_getLast? hlast)

theorem parseText_line (p : Parsing) {line : AString} {eol rest : List Char} (hend : LineEnd eol rest)
    (hlf : '\n' ∉ line) : ∃ read, (read = line ∨ read = stripCR line) ∧
      p.parseText (line ++ eol ++ rest) = (p.parseLine read).bind fun q => q.parseText rest := by
  obtain rfl | rfl | ⟨rfl, rfl⟩ := hend
  · refine ⟨stripCR line, .inr rfl, ?_⟩
    rw [parseText, List.append_assoc, List.singleton_append, lines_append hlf, List.map_cons,
      List.foldlM_cons]
    rfl
  · have hcr : '\n' ∉ line ++ ['\r'] := by simp [hlf]
    have hstrip : stripCR (line ++ ['\r']) = line := by simp [stripCR]
    have hsplit : line ++ ['\r', '\n'] ++ rest = (line ++ ['\r']) ++ '\n' :: rest := by simp
    refine ⟨line, .inl rfl, ?_⟩
    rw [parseText, hsplit, lines_append hcr, List.map_cons, List.foldlM_cons, hstrip]
    rfl
  · refine ⟨stripCR line, .inr rfl, ?_⟩
    rw [List.append_nil, List.append_nil]
    by_cases hne : line = []
    · subst hne
      have hempty : stripCR [] = [] := rfl
      rw [hempty, parseLine_empty, Option.bind_some]
    · rw [parseText, lines_last hlf hne, List.map_singleton, List.foldlM_cons]
      rfl

theorem parseText_blank (p : Parsing) {eol rest : List Char} (hend : LineEnd eol rest) :
    p.parseText (eol ++ rest) = p.parseText rest := by
  obtain ⟨read, hread, heq⟩ := p.parseText_line hend (List.not_mem_nil : '\n' ∉ ([] : AString))
  have hempty : read = [] := by
    rcases hread with rfl | rfl
    · rfl
    · rfl
  rw [List.nil_append, hempty, parseLine_empty, Option.bind_some] at heq
  exact heq

theorem notMem_text {l : Line} {c : Char} (hdigit : c.isDigit = false) (hminus : c ≠ '-')
    (hat : c ≠ '@') (hcolon : c ≠ ':') (htag : ∀ tag : Tag, c ∉ tag.text)
    (hbody : ∀ b, l = .inr b → (∀ d, b = .inf d → c ∉ d) ∧ ∀ u, b = .uri u → c ∉ u) :
    c ∉ l.text := by
  have hsigned : ∀ x, c ∉ signed x := fun x => notMem_signed hdigit hminus
  have hdecimal : ∀ n, c ∉ decimal n := fun n => notMem_decimal hdigit
  rcases l with (x | x) | (n | _ | ⟨n, _ | o⟩ | d | u)
  · simp [Line.text, HeadLine.text, htag, hcolon, hsigned]
  · simp [Line.text, HeadLine.text, htag, hcolon, hsigned]
  · simp [Line.text, BodyLine.text, htag, hcolon, hdecimal]
  · simp [Line.text, BodyLine.text, htag]
  · simp [Line.text, BodyLine.text, htag, hcolon, hdecimal]
  · simp [Line.text, BodyLine.text, htag, hcolon, hdecimal, hat]
  · simp [Line.text, BodyLine.text, htag, hcolon, ((hbody _ rfl).1 d rfl)]
  · simpa [Line.text, BodyLine.text] using (hbody _ rfl).2 u rfl

/-- The line says what the parser can read. -/
def LineValid : Line → Prop
  | .inl l => -2^31 ≤ l.value ∧ l.value < 2^31
  | .inr l => l.Valid

theorem oneLine {l : Line} (h : LineValid l) : '\n' ∉ l.text ∧ '\r' ∉ l.text := by
  have hvalid : ∀ b, l = .inr b → b.Valid := by
    rintro b rfl
    exact h
  constructor
  · refine notMem_text (by decide) (by decide) (by decide) (by decide)
      (fun tag => (Tag.clean tag tag.mem_inOrder).2.1) fun b hb => ⟨?_, ?_⟩
    · rintro d rfl
      exact (hvalid _ hb).1
    · rintro u rfl
      exact (hvalid _ hb).1
  · refine notMem_text (by decide) (by decide) (by decide) (by decide)
      (fun tag => (Tag.clean tag tag.mem_inOrder).2.2) fun b hb => ⟨?_, ?_⟩
    · rintro d rfl
      exact (hvalid _ hb).2.1
    · rintro u rfl
      exact (hvalid _ hb).2.1

theorem comment_stripCR {c : AString} (hhead : c.head? = some '#') (htag : Tag.of c = none) :
    (stripCR c).head? = some '#' ∧ Tag.of (stripCR c) = none := by
  rw [stripCR]
  split
  · rename_i hlast
    obtain ⟨init, rfl⟩ : ∃ init, c = init ++ ['\r'] := List.getLast?_eq_some_iff.mp hlast
    rw [List.dropLast_concat]
    constructor
    · cases init with
      | nil => exact absurd hhead (by decide)
      | cons a as => exact hhead
    · refine List.find?_eq_none.mpr fun tag hmem hfit => ?_
      refine List.find?_eq_none.mp htag tag hmem ?_
      rw [List.isPrefixOf_iff_prefix] at hfit ⊢
      exact hfit.trans (List.prefix_append _ _)
  · exact ⟨hhead, htag⟩

/-- The run lemma: the lines about the playlist and the lines about items are read independently of
each other. -/
theorem parseText_written {ls : List Line} {data : List Char} (h : Written ls data)
    (hvalid : ∀ l ∈ ls, LineValid l) (hp : p.Shows m b)
    (hrun : (ls.filterMap Sum.getRight?).foldlM BodyLine.apply b = some b') :
    ∃ q, p.parseText data = some q
      ∧ q.Shows ((ls.filterMap Sum.getLeft?).foldl HeadLine.apply m) b' := by
  induction h generalizing p m b with
  | done =>
    obtain rfl : b = b' := Option.some.inj hrun
    exact ⟨p, rfl, hp⟩
  | blank hend _ ih =>
    rw [parseText_blank p hend]
    exact ih hvalid hp hrun
  | comment hhead hlf htag hend _ ih =>
    obtain ⟨read, hread, heq⟩ := p.parseText_line hend hlf
    have hcomment : read.head? = some '#' ∧ Tag.of read = none := by
      rcases hread with rfl | rfl
      · exact ⟨hhead, htag⟩
      · exact comment_stripCR hhead htag
    obtain ⟨q, hq, hshows⟩ := parseLine_comment hp hcomment.1 hcomment.2
    rw [heq, hq, Option.bind_some]
    exact ih hvalid hshows hrun
  | @line l ls eol rest hend _ ih =>
    obtain ⟨hl, hls⟩ := List.forall_mem_cons.mp hvalid
    obtain ⟨read, hread, heq⟩ := p.parseText_line hend (oneLine hl).1
    have hline : read = l.text := by
      rcases hread with rfl | rfl
      · rfl
      · exact stripCR_eq (oneLine hl).2
    rw [heq, hline]
    cases l with
    | inl l =>
      obtain ⟨q, hq, hshows⟩ := parseLine_head hp hl.1 hl.2
      obtain ⟨q', hq', hshows'⟩ := ih hls hshows hrun
      refine ⟨q', ?_, hshows'⟩
      rw [← hq']
      exact congrArg (Option.bind · fun q => q.parseText rest) hq
    | inr l =>
      obtain ⟨b₁, hb₁, hrun⟩ := Option.bind_eq_some_iff.mp
        ((List.foldlM_cons (f := BodyLine.apply) ..).symm.trans hrun)
      obtain ⟨q, hq, hshows⟩ := parseLine_body hp hl hb₁
      obtain ⟨q', hq', hshows'⟩ := ih hls hshows hrun
      refine ⟨q', ?_, hshows'⟩
      rw [← hq']
      exact congrArg (Option.bind · fun q => q.parseText rest) hq

end Parsing

/-! ## Items -/

/-- What an item leaves behind. -/
def Body.addMediaItem (b : Body) (item : MediaItem) : Body where
  itemMeta := none
  segmentRangeOffset := item.rangeEnd b.segmentRangeOffset
  mDiscontinuitySeq := b.mDiscontinuitySeq
  mDiscontinuityCount :=
    if item.discontinuity then int32 (b.mDiscontinuityCount + 1) else b.mDiscontinuityCount
  mItems := b.mItems ++
    [item.toItem b.segmentRangeOffset (b.mDiscontinuitySeq + (b.mDiscontinuityCount + item.marks))]

theorem int32_add_int32 (x y : Int) : int32 (x + int32 y) = int32 (x + y) := Int.add_bmod_bmod

theorem int32_int32_add (x y : Int) : int32 (int32 x + y) = int32 (x + y) := Int.bmod_add_bmod

theorem int64_eq {n : Nat} (h : n < 2^63) : int64 n = n := Int.bmod_eq_of_le (by omega) (by omega)

namespace MediaItem

variable {item : MediaItem} {tags : List BodyLine}

theorem mem_tags {l : BodyLine} (h : l ∈ item.tags) :
    l = .inf item.duration ∨ l = .discontinuity ∨ ∃ r ∈ item.range, l = .byterange r.1 r.2 := by
  rcases List.mem_cons.mp h with h | h
  · exact .inl h
  · rcases List.mem_append.mp h with h | h
    · split at h
      · exact .inr (.inl (List.mem_singleton.mp h))
      · exact absurd h List.not_mem_nil
    · obtain ⟨r, hr, rfl⟩ := List.mem_map.mp h
      exact .inr (.inr ⟨r, Option.mem_toList.mp hr, rfl⟩)

/-- The tags of an item set different properties. -/
theorem tag_comm {x y : BodyLine} (hx : x ∈ item.tags) (hy : y ∈ item.tags) (b : Body) :
    (BodyLine.tag (BodyLine.tag b x) y) = BodyLine.tag (BodyLine.tag b y) x := by
  rcases mem_tags hx with rfl | rfl | ⟨r, hr, rfl⟩
  · rcases mem_tags hy with rfl | rfl | ⟨r', hr', rfl⟩
    · rfl
    · rfl
    · rfl
  · rcases mem_tags hy with rfl | rfl | ⟨r', hr', rfl⟩
    · rfl
    · rfl
    · rfl
  · rcases mem_tags hy with rfl | rfl | ⟨r', hr', rfl⟩
    · rfl
    · rfl
    · rw [Option.mem_unique hr hr']

theorem foldlM_tags (htags : tags.Perm item.tags) (rest : List BodyLine) (b : Body) :
    (tags ++ rest).foldlM BodyLine.apply b
      = rest.foldlM BodyLine.apply (item.tags.foldl BodyLine.tag b) := by
  have happly : ∀ l ∈ tags, ∀ b, BodyLine.apply b l = some (BodyLine.tag b l) := by
    intro l hl b
    rcases mem_tags (htags.mem_iff.mp hl) with rfl | rfl | ⟨r, -, rfl⟩
    · rfl
    · rfl
    · rfl
  have hfold : ∀ (ls : List BodyLine), (∀ l ∈ ls, ∀ b, BodyLine.apply b l = some (BodyLine.tag b l)) →
      ∀ b, ls.foldlM BodyLine.apply b = some (ls.foldl BodyLine.tag b) := by
    intro ls hls
    induction ls with
    | nil => exact fun b => rfl
    | cons l ls ih =>
      intro b
      obtain ⟨hl, hls⟩ := List.forall_mem_cons.mp hls
      rw [List.foldlM_cons, hl b]
      exact ih hls _
  have hcomm : ∀ x ∈ tags, ∀ y ∈ tags, ∀ b,
      BodyLine.tag (BodyLine.tag b x) y = BodyLine.tag (BodyLine.tag b y) x := fun x hx y hy =>
    tag_comm (htags.mem_iff.mp hx) (htags.mem_iff.mp hy)
  rw [List.foldlM_append, hfold tags happly b, htags.foldl_eq' hcomm]
  rfl

theorem foldl_tags {b : Body} (hb : b.itemMeta = none)
    (hfit : item.rangeEnd b.segmentRangeOffset < 2^63) :
    item.tags.foldl BodyLine.tag b =
      { b.addMediaItem item with
        itemMeta := some { (item.toItem b.segmentRangeOffset 0).mMeta with discontinuitySequence := none }
        mItems := b.mItems } := by
  obtain ⟨uri, duration, discontinuity, range, huri, hduration⟩ := item
  obtain ⟨itemMeta, offset, seq, count, items⟩ := b
  obtain rfl : itemMeta = none := hb
  rcases range with - | ⟨n, o⟩
  · cases discontinuity with
    | false => rfl
    | true => rfl
  · have hend : o.getD offset + n < 2^63 := hfit
    have hmod : o.getD offset + n < 18446744073709551616 := by omega
    have hstart : int64 ((o.getD offset : Nat) : Int) = (o.getD offset : Nat) := int64_eq (by omega)
    have hlength : int64 (n : Int) = n := int64_eq (by omega)
    cases discontinuity with
    | false =>
      simp [tags, BodyLine.tag, Body.addMediaItem, edit, toItem, rangeEnd, hmod, hstart, hlength]
    | true =>
      simp [tags, BodyLine.tag, Body.addMediaItem, edit, toItem, rangeEnd, hmod, hstart, hlength]

theorem addItem_tags {b : Body} (hb : b.itemMeta = none)
    (hfit : item.rangeEnd b.segmentRangeOffset < 2^63) :
    BodyLine.addItem (item.tags.foldl BodyLine.tag b) item.uri = some (b.addMediaItem item) := by
  obtain ⟨x, hx⟩ := Option.isSome_iff_exists.mp item.duration_valid.2.2
  have hus : (BodyLine.durationUs item.duration).isNone = false := by
    rw [BodyLine.durationUs, hx]
    rfl
  have hcount : int32 (b.mDiscontinuitySeq + (b.addMediaItem item).mDiscontinuityCount)
      = int32 (b.mDiscontinuitySeq + (b.mDiscontinuityCount + item.marks)) := by
    rw [Body.addMediaItem, marks]
    split
    · exact int32_add_int32 _ _
    · simp
  rw [foldl_tags hb hfit, BodyLine.addItem, Option.bind_some]
  refine (if_neg (by simp [toItem, hus])).trans ?_
  exact congrArg (fun sequence => some { b.addMediaItem item with
    mItems := b.mItems ++ [(⟨item.uri, { (item.toItem b.segmentRangeOffset 0).mMeta with
      discontinuitySequence := some sequence }⟩ : Item)] }) hcount

end MediaItem

/-- The items one after the other: each URI ends its item. -/
theorem ItemLines.run {items : List MediaItem} {ls : List BodyLine} (h : ItemLines items ls) {b : Body}
    (hb : b.itemMeta = none) (hfit : RangesFit b.segmentRangeOffset items) :
    ls.foldlM BodyLine.apply b = some (items.foldl Body.addMediaItem b) := by
  induction h generalizing b with
  | nil => rfl
  | @cons item items tags lines htags _ ih =>
    rw [MediaItem.foldlM_tags htags, List.foldlM_cons, List.foldl_cons, ← ih rfl hfit.2]
    exact congrArg (Option.bind · fun b => lines.foldlM BodyLine.apply b)
      (MediaItem.addItem_tags hb hfit.1)

theorem ItemLines.valid {items : List MediaItem} {ls : List BodyLine} (h : ItemLines items ls)
    (hranges : ∀ item ∈ items, ∀ r ∈ item.range, r.1 < 2^64 ∧ ∀ o ∈ r.2, o < 2^64) :
    ∀ l ∈ ls, l.Valid := by
  induction h with
  | nil => exact fun l hl => absurd hl List.not_mem_nil
  | @cons item items tags lines htags _ ih =>
    obtain ⟨hitem, hitems⟩ := List.forall_mem_cons.mp hranges
    intro l hl
    rcases List.mem_append.mp hl with hl | hl
    · rcases MediaItem.mem_tags (htags.mem_iff.mp hl) with rfl | rfl | ⟨r, hr, rfl⟩
      · exact item.duration_valid
      · trivial
      · exact hitem r hr
    · rcases List.mem_cons.mp hl with rfl | hl
      · exact item.uri_valid
      · exact ih hitems l hl

/-- What the parser makes of items: behind a byte range that ends at `previous`, and `count`
discontinuities. -/
def readItems (base : Int) : Int → Nat → List MediaItem → List Item
  | _, _, [] => []
  | count, previous, item :: items =>
    item.toItem previous (base + (count + item.marks))
      :: readItems base (count + item.marks) (item.rangeEnd previous) items

theorem readItems_congr {base count count' : Int} (h : int32 (base + count) = int32 (base + count'))
    (previous : Nat) (items : List MediaItem) :
    readItems base count previous items = readItems base count' previous items := by
  induction items generalizing count count' previous with
  | nil => rfl
  | cons item items ih =>
    have hnext : int32 (base + (count + item.marks)) = int32 (base + (count' + item.marks)) := by
      rw [← Int.add_assoc, ← Int.add_assoc, ← int32_int32_add, h, int32_int32_add]
    rw [readItems, readItems, ih hnext, MediaItem.toItem, MediaItem.toItem, hnext]

theorem mItems_foldl (items : List MediaItem) (b : Body) :
    (items.foldl Body.addMediaItem b).mItems = b.mItems
      ++ readItems b.mDiscontinuitySeq b.mDiscontinuityCount b.segmentRangeOffset items := by
  induction items generalizing b with
  | nil => simp [readItems]
  | cons item items ih =>
    have hcount : int32 (b.mDiscontinuitySeq + (b.addMediaItem item).mDiscontinuityCount)
        = int32 (b.mDiscontinuitySeq + (b.mDiscontinuityCount + item.marks)) := by
      rw [Body.addMediaItem, MediaItem.marks]
      split
      · exact int32_add_int32 _ _
      · simp
    have hrest := readItems_congr hcount (item.rangeEnd b.segmentRangeOffset) items
    rw [List.foldl_cons, ih, readItems, ← hrest]
    exact List.append_assoc b.mItems [_] _

theorem length_readItems (base count : Int) (previous : Nat) (items : List MediaItem) :
    (readItems base count previous items).length = items.length := by
  induction items generalizing count previous with
  | nil => rfl
  | cons item items ih => rw [readItems, List.length_cons, ih, List.length_cons]

theorem getElem?_readItems (base count : Int) (previous : Nat) (items : List MediaItem) (i : Nat) :
    (readItems base count previous items)[i]? = items[i]?.map fun item =>
      item.toItem ((items.take i).foldl (fun previous item => item.rangeEnd previous) previous)
        (base + (count + (items.take (i + 1)).countP (·.discontinuity))) := by
  induction items generalizing count previous i with
  | nil => simp [readItems]
  | cons item items ih =>
    have hmarks : ((item :: items.take i).countP (·.discontinuity) : Int)
        = item.marks + (items.take i).countP (·.discontinuity) := by
      rw [List.countP_cons, MediaItem.marks]
      push_cast
      omega
    cases i with
    | zero => simp [readItems, MediaItem.marks, List.countP_cons]
    | succ i =>
      have hnext : ((item :: items.take (i + 1)).countP (·.discontinuity) : Int)
          = item.marks + (items.take (i + 1)).countP (·.discontinuity) := by
        rw [List.countP_cons, MediaItem.marks]
        push_cast
        omega
      rw [readItems, List.getElem?_cons_succ, List.getElem?_cons_succ, ih, List.take_succ_cons,
        List.take_succ_cons, List.foldl_cons, hnext, Int.add_assoc]

theorem groupsOf_readItems {base count : Int} {previous : Nat} {items : List MediaItem} {item : Item}
    (h : item ∈ readItems base count previous items) : M3UParser.groupsOf item.mMeta = [] := by
  induction items generalizing count previous with
  | nil => exact absurd h List.not_mem_nil
  | cons a as ih =>
    rcases List.mem_cons.mp h with rfl | h
    · rfl
    · exact ih h

/-! ## The round trip -/

namespace MediaPlaylist

variable (pl : MediaPlaylist)

def base : Nat := pl.discontinuitySequence.getD 0

/-- The number of discontinuity marks up to and including an item. -/
def marksUpTo (i : Nat) : Nat := (pl.items.take (i + 1)).countP (·.discontinuity)

/-- The end of the latest byte range before an item. -/
def latestEnd (i : Nat) : Nat :=
  (pl.items.take i).foldl (fun previous item => item.rangeEnd previous) 0

def firstSequence : Int := pl.mediaSequence.getD 0

/-- An item as the playlist has it at a position. -/
structure ItemReadAs (i : Nat) (item : MediaItem) (it : Item) : Prop where
  uri : it.mURI = item.uri
  duration : ∃ x, ParseDouble item.duration = some x
    ∧ it.mMeta.durationUs = some (x.mulNat 1000000).toInt64
  rangeLength : it.mMeta.rangeLength = item.range.map fun r => (r.1 : Int)
  rangeOffset : it.mMeta.rangeOffset = item.range.map fun r => (r.2.getD (pl.latestEnd i) : Int)
  discontinuitySequence : pl.base + pl.marksUpTo i < 2^31 →
    it.mMeta.discontinuitySequence = some ((pl.base + pl.marksUpTo i : Nat) : Int)

/-- The parser has read the playlist. -/
structure ReadAs (p : M3UParser) : Prop where
  media : p.mIsVariantPlaylist = false
  targetDuration : p.mTargetDurationUs = pl.targetDuration * 1000000
  size : p.mItems.length = pl.items.length
  items : ∀ i item, pl.items[i]? = some item → ∃ it, p.mItems[i]? = some it ∧ pl.ItemReadAs i item it
  sequence : p.getSeqNumberRange
    = (pl.firstSequence, int32 (pl.firstSequence + pl.items.length - 1))
  sequence_exact : pl.firstSequence + pl.items.length ≤ 2^31 →
    p.getSeqNumberRange = (pl.firstSequence, pl.firstSequence + pl.items.length - 1)

variable {pl} {ls : List Line} {p : Parsing}

theorem Lines.valid (h : pl.Lines ls) (hseq : ∀ n ∈ pl.discontinuitySequence, n < 2^31)
    (hranges : ∀ item ∈ pl.items, ∀ r ∈ item.range, r.1 < 2^64 ∧ ∀ o ∈ r.2, o < 2^64) :
    ∀ l ∈ ls, Parsing.LineValid l := by
  intro l hl
  cases l with
  | inl l =>
    have hmem : l ∈ ls.filterMap Sum.getLeft? := List.mem_filterMap.mpr ⟨.inl l, hl, rfl⟩
    rcases List.mem_cons.mp (h.head.mem_iff.mp hmem) with rfl | hmem
    · exact pl.targetDuration_fits
    · obtain ⟨x, hx, rfl⟩ := List.mem_map.mp hmem
      exact pl.mediaSequence_fits x (Option.mem_toList.mp hx)
  | inr l =>
    have hmem : l ∈ ls.filterMap Sum.getRight? := List.mem_filterMap.mpr ⟨.inr l, hl, rfl⟩
    obtain ⟨items, hitems, hbody⟩ := h.body
    rw [hbody, List.mem_append] at hmem
    rcases hmem with hmem | hmem
    · obtain ⟨n, hn, rfl⟩ := List.mem_map.mp hmem
      exact hseq n (Option.mem_toList.mp hn)
    · exact hitems.valid hranges l hmem

theorem Lines.foldl_head (h : pl.Lines ls) :
    (ls.filterMap Sum.getLeft?).foldl HeadLine.apply none
      = some { targetDuration := some pl.targetDuration, mediaSequence := pl.mediaSequence } := by
  have hcomm : ∀ x ∈ pl.headLines, ∀ y ∈ pl.headLines, ∀ m,
      HeadLine.apply (HeadLine.apply m x) y = HeadLine.apply (HeadLine.apply m y) x := by
    intro x hx y hy m
    rcases List.mem_cons.mp hx with rfl | hx
    · rcases List.mem_cons.mp hy with rfl | hy
      · rfl
      · obtain ⟨n, -, rfl⟩ := List.mem_map.mp hy
        rfl
    · obtain ⟨n, hn, rfl⟩ := List.mem_map.mp hx
      rcases List.mem_cons.mp hy with rfl | hy
      · rfl
      · obtain ⟨n', hn', rfl⟩ := List.mem_map.mp hy
        rw [Option.mem_unique (Option.mem_toList.mp hn) (Option.mem_toList.mp hn')]
  rw [← h.head.symm.foldl_eq' hcomm, headLines]
  cases pl.mediaSequence with
  | none => rfl
  | some x => rfl

theorem Lines.run (h : pl.Lines ls) : ∃ b, (ls.filterMap Sum.getRight?).foldlM BodyLine.apply {} = some b
    ∧ b.mItems = readItems pl.base 0 0 pl.items := by
  obtain ⟨items, hitems, hbody⟩ := h.body
  have hseq : (pl.discontinuitySequence.toList.map BodyLine.discontinuitySequence ++ items).foldlM
      BodyLine.apply {} = items.foldlM BodyLine.apply { mDiscontinuitySeq := pl.base } := by
    rw [base]
    cases pl.discontinuitySequence with
    | none => rfl
    | some n => rfl
  refine ⟨_, (congrArg (List.foldlM BodyLine.apply {}) hbody).trans
    (hseq.trans (hitems.run rfl pl.ranges_fit)), ?_⟩
  rw [mItems_foldl, List.nil_append]

/-- The whole text. -/
theorem parseText_document {data : List Char} {b : Body} (hdoc : Document ls data)
    (hvalid : ∀ l ∈ ls, Parsing.LineValid l)
    (hrun : (ls.filterMap Sum.getRight?).foldlM BodyLine.apply {} = some b) (baseURI : AString) :
    ∃ q, ({ mBaseURI := baseURI } : Parsing).parseText data = some q
      ∧ q.Shows ((ls.filterMap Sum.getLeft?).foldl HeadLine.apply none) b := by
  induction hdoc with
  | blank hend _ ih =>
    rw [Parsing.parseText_blank _ hend]
    exact ih
  | mark hend hwritten =>
    have hmark : Parsing.parseLine { mBaseURI := baseURI } "#EXTM3U".toList
        = some { mBaseURI := baseURI, mIsExtM3U := true, lineNo := 1 } := by
      have htag : Tag.of "#EXTM3U".toList = none := by decide +kernel
      have hread : Parsing.readMark { mBaseURI := baseURI } "#EXTM3U".toList
          = { mBaseURI := baseURI, mIsExtM3U := true } := rfl
      rw [Parsing.parseLine, if_neg (by decide), hread]
      simp only [if_true, Parsing.parseExtLine, htag]
      rfl
    obtain ⟨read, hread, heq⟩ := Parsing.parseText_line { mBaseURI := baseURI } hend
      (by decide : '\n' ∉ "#EXTM3U".toList)
    have hread : read = "#EXTM3U".toList := by
      rcases hread with rfl | rfl
      · rfl
      · exact Parsing.stripCR_eq (by decide)
    rw [heq, hread, hmark, Option.bind_some]
    exact Parsing.parseText_written hwritten hvalid ⟨rfl, rfl, rfl, rfl⟩ hrun

theorem ranges_bound : ∀ item ∈ pl.items, ∀ r ∈ item.range, r.1 < 2^64 ∧ ∀ o ∈ r.2, o < 2^64 := by
  have hbound : ∀ (items : List MediaItem) (previous : Nat), RangesFit previous items →
      ∀ item ∈ items, ∀ r ∈ item.range, r.1 < 2^64 ∧ ∀ o ∈ r.2, o < 2^64 := by
    intro items
    induction items with
    | nil => exact fun _ _ item hitem => absurd hitem List.not_mem_nil
    | cons a as ih =>
      rintro previous ⟨hfit, hrest⟩
      refine List.forall_mem_cons.mpr ⟨fun r hr => ?_, ih _ hrest⟩
      rw [MediaItem.rangeEnd, Option.mem_def.mp hr] at hfit
      have hend : r.2.getD previous + r.1 < 2^63 := hfit
      refine ⟨by omega, fun o ho => ?_⟩
      rw [Option.mem_def.mp ho, Option.getD_some] at hend
      omega
  exact hbound pl.items 0 pl.ranges_fit

theorem readAs_finish {q : Parsing} {b : Body} (hitems : b.mItems = readItems pl.base 0 0 pl.items)
    (hshows : q.Shows
      (some { targetDuration := some pl.targetDuration, mediaSequence := pl.mediaSequence }) b) :
    ∃ p, q.toM3UParser.finish = some p ∧ pl.ReadAs p := by
  have hmItems : q.mItems = readItems pl.base 0 0 pl.items := by
    rw [← hitems, ← hshows.body]
    rfl
  have hlength : q.mItems.length = pl.items.length := by rw [hmItems, length_readItems]
  have hne : q.mItems ≠ [] := fun hnil => pl.items_ne_nil (List.length_eq_zero_iff.mp
    (by rw [← hlength, hnil, List.length_nil]))
  let last := int32 (pl.firstSequence + q.mItems.length - 1)
  let p : M3UParser := { q.toM3UParser with
    mTargetDurationUs := pl.targetDuration * 1000000
    mFirstSeqNumber := pl.firstSequence
    mLastSeqNumber := last }
  have hnumber : q.toM3UParser.number = some p := by
    have hmedia : ¬q.mIsVariantPlaylist = true := by simp [hshows.media]
    rw [M3UParser.number, if_neg hmedia]
    exact Option.bind_eq_some_iff.mpr ⟨_, hshows.message, rfl⟩
  have hgroups : (p.mItems.all fun item => (M3UParser.groupsOf item.mMeta).all fun groupID =>
      (p.mMediaGroups.find? (cstr groupID)).isSome) = true := by
    rw [List.all_eq_true]
    intro item hitem
    rw [groupsOf_readItems (hmItems ▸ hitem)]
    rfl
  refine ⟨p, ?_, hshows.media, rfl, hlength, ?_, ?_, ?_⟩
  · rw [M3UParser.finish, if_neg hne, hnumber, Option.bind_some, if_pos hgroups]
  · intro i item hi
    refine ⟨item.toItem (pl.latestEnd i) (pl.base + pl.marksUpTo i), ?_, rfl, ?_, rfl, rfl, ?_⟩
    · have hread := getElem?_readItems pl.base 0 0 pl.items i
      rw [hi, Option.map_some, Int.zero_add] at hread
      exact (congrArg (·[i]?) hmItems).trans hread
    · obtain ⟨x, hx⟩ := Option.isSome_iff_exists.mp item.duration_valid.2.2
      refine ⟨x, hx, ?_⟩
      rw [MediaItem.toItem, BodyLine.durationUs, hx, Option.map_some]
    · intro hfit
      exact congrArg some (int32_eq (by omega) (by omega))
  · rw [M3UParser.getSeqNumberRange, ← hlength]
  · intro hfit
    have hpos : 0 < pl.items.length := List.length_pos_of_ne_nil pl.items_ne_nil
    have hlow : -2^31 ≤ pl.firstSequence := by
      rw [firstSequence]
      cases hsequence : pl.mediaSequence with
      | none => decide
      | some x => exact (pl.mediaSequence_fits x hsequence).1
    rw [M3UParser.getSeqNumberRange, ← hlength]
    exact congrArg (Prod.mk pl.firstSequence) (int32_eq (by omega) (by omega))

/-- Every text that a media playlist is written as is read back, if the discontinuity sequence fits
into 31 bits. -/
theorem parse_document (pl : MediaPlaylist) (hseq : ∀ n ∈ pl.discontinuitySequence, n < 2^31)
    {ls : List Line} (hlines : pl.Lines ls) {data : List Char} (hdoc : Document ls data)
    (baseURI : AString) : ∃ p, M3UParser.parse baseURI data = some p ∧ pl.ReadAs p := by
  obtain ⟨b, hrun, hitems⟩ := hlines.run
  obtain ⟨q, hq, hshows⟩ := parseText_document hdoc (hlines.valid hseq ranges_bound) hrun baseURI
  rw [hlines.foldl_head] at hshows
  obtain ⟨p, hp, hread⟩ := readAs_finish hitems hshows
  refine ⟨p, ?_, hread⟩
  rw [← hp]
  exact congrArg (Option.bind · fun q => q.toM3UParser.finish) hq

/-- Two items behind a discontinuity each, and byte ranges that go on where the latest one ends. -/
def threeItems : MediaPlaylist where
  targetDuration := 10
  mediaSequence := some 7
  discontinuitySequence := some 3
  items := [
    { uri := "a.ts".toList
      duration := "6.006,".toList
      discontinuity := true
      range := some (500, none)
      uri_valid := ⟨by decide, by decide, by decide, by decide⟩
      duration_valid := ⟨by decide, by decide, by decide +kernel⟩ },
    { uri := "b.ts".toList
      duration := "10,".toList
      discontinuity := false
      range := some (300, some 900)
      uri_valid := ⟨by decide, by decide, by decide, by decide⟩
      duration_valid := ⟨by decide, by decide, by decide +kernel⟩ },
    { uri := "c.ts".toList
      duration := "4,".toList
      discontinuity := true
      range := some (100, none)
      uri_valid := ⟨by decide, by decide, by decide, by decide⟩
      duration_valid := ⟨by decide, by decide, by decide +kernel⟩ }]
  targetDuration_fits := by decide
  mediaSequence_fits := by decide
  items_ne_nil := by decide
  ranges_fit := ⟨by decide, by decide, by decide, trivial⟩

/-- A blank line and a comment stand in front of the playlist's lines. -/
theorem parse_document_threeItems : ∃ p, M3UParser.parse "http://host/".toList
      ("#EXTM3U".toList ++ ['\r', '\n'] ++ (['\n'] ++ ("# three".toList ++ ['\r', '\n'] ++
        threeItems.plainLines.flatMap fun l => l.text ++ ['\n']))) = some p ∧
    threeItems.ReadAs p ∧ p.getSeqNumberRange = (7, 9) ∧
    p.mItems.map (fun it => (it.mURI, it.mMeta.rangeOffset, it.mMeta.discontinuitySequence)) =
      [("a.ts".toList, some 0, some 4), ("b.ts".toList, some 900, some 4),
        ("c.ts".toList, some 1200, some 5)] := by
  have hdoc : Document threeItems.plainLines _ := .mark (.inr (.inl rfl))
    (.blank (.inl rfl) (.comment (c := "# three".toList) rfl (by decide) (by decide) (.inr (.inl rfl))
      (written_plain _)))
  obtain ⟨p, hp, hread⟩ :=
    parse_document threeItems (by decide) (lines_plainLines _) hdoc "http://host/".toList
  refine ⟨p, hp, hread, hread.sequence_exact (by decide), ?_⟩
  have hitems : (M3UParser.parse "http://host/".toList _).map (fun p => p.mItems.map fun it =>
      (it.mURI, it.mMeta.rangeOffset, it.mMeta.discontinuitySequence)) = _ :=
    congrArg (Option.map _) hp
  refine Option.some.inj (hitems.symm.trans ?_)
  decide +kernel

/-- A playlist with one item. -/
def single (discontinuitySequence : Option Nat) : MediaPlaylist where
  targetDuration := 10
  mediaSequence := some 7
  discontinuitySequence
  items := [{
    uri := "a.ts".toList
    duration := "6.006,".toList
    discontinuity := true
    range := some (500, none)
    uri_valid := ⟨by decide, by decide, by decide, by decide⟩
    duration_valid := ⟨by decide, by decide, by decide +kernel⟩ }]
  targetDuration_fits := by decide
  mediaSequence_fits := by decide
  items_ne_nil := by decide
  ranges_fit := ⟨by decide, trivial⟩

/-- A discontinuity sequence of 2^31 comes out of `ParseInt32` as a negative number. -/
theorem not_parse_document : ¬∀ (pl : MediaPlaylist) (ls : List Line), pl.Lines ls →
    ∀ data, Document ls data → ∀ baseURI, ∃ p, M3UParser.parse baseURI data = some p ∧ pl.ReadAs p := by
  intro h
  obtain ⟨p, hp, -⟩ := h (single (some (2^31))) _ (lines_plainLines _) _ (document_plainText _) []
  have hnone : (M3UParser.parse [] (plainText (single (some (2^31))).plainLines)).isNone := by
    decide +kernel
  rw [hp] at hnone
  exact absurd hnone (by simp)

end MediaPlaylist

end MediaFramework.Hls
