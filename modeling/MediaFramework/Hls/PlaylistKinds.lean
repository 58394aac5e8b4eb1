import MediaFramework.Hls.ParsingSteps

/-!
# The two kinds of playlists

A text that `M3UParser` accepts is a media playlist or a variant playlist. What its items have follows
from its kind as far as `parse` looks at the kind when it meets a tag.
-/

namespace MediaFramework.Hls

open Text

/-! ## Media playlists -/

namespace Parsing

variable {p q : Parsing} {line : AString}

def SequenceFits (m : Meta) : Prop := ∀ x ∈ m.mediaSequence, -2^31 ≤ x ∧ x < 2^31

/-- As long as there is no stream, nothing is about one. -/
structure Segments (p : Parsing) : Prop where
  sequence : ∀ m ∈ p.mMeta, SequenceFits m
  pending : p.mIsVariantPlaylist = false → ∀ m ∈ p.itemMeta, m.NoStream
  items : p.mIsVariantPlaylist = false → ∀ item ∈ p.mItems, item.mMeta.NoStream
    ∧ item.mMeta.durationUs.isSome = true ∧ item.mMeta.discontinuitySequence.isSome = true

theorem int32_bounds (x : Int) : -2^31 ≤ int32 x ∧ int32 x < 2^31 := by
  have hlow := Int.le_bmod (x := x) (m := 2^32) (by decide)
  have hhigh := Int.bmod_lt (x := x) (m := 2^32) (by decide)
  rw [int32]
  exact ⟨by omega, by omega⟩

theorem ParseInt32_bounds {s : AString} {x : Int} (h : ParseInt32 s = some x) :
    -2^31 ≤ x ∧ x < 2^31 := by
  obtain ⟨r, -, h⟩ := Option.bind_eq_some_iff.mp h
  split at h
  · exact Option.some.inj h ▸ int32_bounds _
  · cases h

theorem parseMetaData_cases {message message' : Option Meta} {key : Int → Meta → Meta}
    (h : parseMetaData line message key = some message') :
    ∃ x, -2^31 ≤ x ∧ x < 2^31 ∧ message' = edit {} message (key x) := by
  obtain ⟨text, -, h⟩ := Option.bind_eq_some_iff.mp h
  obtain ⟨x, hx, rfl⟩ := Option.map_eq_some_iff.mp h
  obtain ⟨hlow, hhigh⟩ := ParseInt32_bounds hx
  exact ⟨x, hlow, hhigh, rfl⟩

theorem Segments.parseTag {tag : Tag} (hp : p.Segments)
    (h : p.parseTag line tag = some q) : q.Segments := by
  have hset : ∀ {set : ItemMeta → ItemMeta}, (∀ m : ItemMeta, m.NoStream → (set m).NoStream) →
      p.mIsVariantPlaylist = false → ∀ m ∈ edit {} p.itemMeta set, m.NoStream := fun hset hvariant =>
    forall_mem_edit (hset _ ItemMeta.noStream_empty) fun m hm => hset m (hp.pending hvariant m hm)
  cases tag with
  | targetDuration =>
    obtain ⟨message, hmessage, rfl⟩ := Option.map_eq_some_iff.mp h
    obtain ⟨x, -, -, rfl⟩ := parseMetaData_cases hmessage
    refine ⟨fun m hm => ?_, hp.pending, hp.items⟩
    dsimp only at hm
    refine forall_mem_edit (P := SequenceFits) ?_ ?_ m hm
    · intro x' hx'
      cases hx'
    · exact hp.sequence
  | mediaSequence =>
    obtain ⟨message, hmessage, rfl⟩ := Option.map_eq_some_iff.mp h
    obtain ⟨x, hlow, hhigh, rfl⟩ := parseMetaData_cases hmessage
    have hfits : ∀ m : Meta, SequenceFits { m with mediaSequence := some x } := fun m x' hx' =>
      Option.some.inj hx' ▸ ⟨hlow, hhigh⟩
    refine ⟨fun m hm => ?_, hp.pending, hp.items⟩
    dsimp only at hm
    exact forall_mem_edit (P := SequenceFits) (hfits {}) (fun m _ => hfits m) m hm
  | key =>
    obtain ⟨message, hmessage, rfl⟩ := Option.map_eq_some_iff.mp h
    exact ⟨hp.sequence, fun hvariant => noStream_parseCipherInfo hmessage (hp.pending hvariant),
      hp.items⟩
  | endlist => exact Option.some.inj h ▸ ⟨hp.sequence, hp.pending, hp.items⟩
  | playlistTypeEvent => exact Option.some.inj h ▸ ⟨hp.sequence, hp.pending, hp.items⟩
  | inf =>
    obtain ⟨message, hmessage, rfl⟩ := Option.map_eq_some_iff.mp h
    obtain ⟨text, -, hmessage⟩ := Option.bind_eq_some_iff.mp hmessage
    obtain ⟨x, -, rfl⟩ := Option.map_eq_some_iff.mp hmessage
    refine ⟨hp.sequence, fun hvariant m hm => ?_, hp.items⟩
    dsimp only at hm
    refine hset ?_ hvariant m hm
    rintro m ⟨h₁, h₂, h₃, h₄, h₅, h₆, h₇⟩
    exact ⟨h₁, h₂, h₃, h₄, h₅, h₆, h₇⟩
  | discontinuitySequence =>
    obtain ⟨seq, -, rfl⟩ := Option.map_eq_some_iff.mp h
    exact ⟨hp.sequence, hp.pending, hp.items⟩
  | discontinuity =>
    obtain rfl := Option.some.inj h
    refine ⟨hp.sequence, fun hvariant m hm => ?_, hp.items⟩
    dsimp only at hm
    refine hset ?_ hvariant m hm
    rintro m ⟨h₁, h₂, h₃, h₄, h₅, h₆, h₇⟩
    exact ⟨h₁, h₂, h₃, h₄, h₅, h₆, h₇⟩
  | streamInf =>
    rw [Parsing.parseTag] at h
    split at h
    · cases h
    · obtain ⟨message, -, rfl⟩ := Option.map_eq_some_iff.mp h
      exact ⟨hp.sequence, fun hvariant => (by cases hvariant), fun hvariant => by cases hvariant⟩
  | byterange =>
    obtain ⟨r, -, rfl⟩ := Option.map_eq_some_iff.mp h
    refine ⟨hp.sequence, fun hvariant m hm => ?_, hp.items⟩
    dsimp only at hm
    refine hset ?_ hvariant m hm
    rintro m ⟨h₁, h₂, h₃, h₄, h₅, h₆, h₇⟩
    exact ⟨h₁, h₂, h₃, h₄, h₅, h₆, h₇⟩
  | media =>
    obtain ⟨groups, -, rfl⟩ := Option.map_eq_some_iff.mp h
    exact ⟨hp.sequence, hp.pending, hp.items⟩

theorem Segments.parseUri (hp : p.Segments) (h : p.parseUri line = some q) : q.Segments := by
  obtain ⟨message, hmessage, ⟨hvariant, rfl⟩ | ⟨hvariant, hduration, rfl⟩⟩ := parseUri_cases h
  · exact ⟨hp.sequence, fun hmedia => absurd (hvariant.symm.trans hmedia) (by decide),
      fun hmedia => absurd (hvariant.symm.trans hmedia) (by decide)⟩
  · refine ⟨hp.sequence, fun _ m hm => (nomatch hm), fun _ item hitem => ?_⟩
    rcases List.mem_append.mp hitem with hitem | hitem
    · exact hp.items hvariant item hitem
    · obtain ⟨h₁, h₂, h₃, h₄, h₅, h₆, h₇⟩ := hp.pending hvariant message hmessage
      obtain rfl := List.mem_singleton.mp hitem
      exact ⟨⟨h₁, h₂, h₃, h₄, h₅, h₆, h₇⟩, hduration, rfl⟩

theorem Segments.parseLine (hp : p.Segments) (h : p.parseLine line = some q) : q.Segments := by
  refine parseLine_rule (I := Segments) ?_ ?_ (fun _ hp => hp) ?_ ?_ h hp
  · exact fun p hp => ⟨hp.sequence, hp.pending, hp.items⟩
  · exact fun p n hp => ⟨hp.sequence, hp.pending, hp.items⟩
  · exact fun p q tag hp _ _ h => hp.parseTag h
  · exact fun p q hp _ _ h => hp.parseUri h

/-! ## Variant playlists -/

/-- The line gives the next item a property of a segment. -/
def startsItem (baseURI line : AString) : Bool :=
  match Tag.of line with
  | some .inf | some .discontinuity | some .byterange => true
  | some .key => ((parseCipherInfo line none baseURI).join).isSome
  | _ => false

/-- Until there is a stream there is no item and no message of an item, and then nothing is about a
segment. -/
structure Streams (p : Parsing) : Prop where
  before : p.mIsVariantPlaylist = false → p.itemMeta = none ∧ p.mItems = []
  pending : ∀ m ∈ p.itemMeta, m.NoSegment
  items : ∀ item ∈ p.mItems, item.mMeta.NoSegment

theorem Streams.parseTag {tag : Tag} (hp : p.Streams) (htag : Tag.of line = some tag)
    (hkind : tag.mediaOnly = true → p.mIsVariantPlaylist = false)
    (hstart : p.mIsVariantPlaylist = false → startsItem p.mBaseURI line = false)
    (h : p.parseTag line tag = some q) : q.Streams := by
  have hnot : tag.mediaOnly = true → startsItem p.mBaseURI line = true → False := fun hmedia hstarts =>
    absurd (hstarts.symm.trans (hstart (hkind hmedia))) (by decide)
  cases tag with
  | targetDuration =>
    obtain ⟨message, -, rfl⟩ := Option.map_eq_some_iff.mp h
    exact ⟨hp.before, hp.pending, hp.items⟩
  | mediaSequence =>
    obtain ⟨message, -, rfl⟩ := Option.map_eq_some_iff.mp h
    exact ⟨hp.before, hp.pending, hp.items⟩
  | key =>
    obtain ⟨message, hmessage, rfl⟩ := Option.map_eq_some_iff.mp h
    obtain ⟨hpending, hitems⟩ := hp.before (hkind rfl)
    have hnone : message = none := by
      have hstarts := hstart (hkind rfl)
      rw [hpending] at hmessage
      rw [startsItem, htag] at hstarts
      simpa [hmessage] using hstarts
    rw [hnone]
    exact ⟨fun _ => ⟨rfl, hitems⟩, fun m hm => (nomatch hm), hp.items⟩
  | endlist => exact Option.some.inj h ▸ ⟨hp.before, hp.pending, hp.items⟩
  | playlistTypeEvent => exact Option.some.inj h ▸ ⟨hp.before, hp.pending, hp.items⟩
  | inf => exact (hnot rfl (by rw [startsItem, htag])).elim
  | discontinuitySequence =>
    obtain ⟨seq, -, rfl⟩ := Option.map_eq_some_iff.mp h
    exact ⟨hp.before, hp.pending, hp.items⟩
  | discontinuity => exact (hnot rfl (by rw [startsItem, htag])).elim
  | streamInf =>
    rw [Parsing.parseTag] at h
    split at h
    · cases h
    · obtain ⟨message, hmessage, rfl⟩ := Option.map_eq_some_iff.mp h
      exact ⟨(nofun), noSegment_parseStreamInf hmessage hp.pending, hp.items⟩
  | byterange => exact (hnot rfl (by rw [startsItem, htag])).elim
  | media =>
    obtain ⟨groups, -, rfl⟩ := Option.map_eq_some_iff.mp h
    exact ⟨hp.before, hp.pending, hp.items⟩

theorem Streams.parseUri (hp : p.Streams) (h : p.parseUri line = some q) : q.Streams := by
  obtain ⟨message, hmessage, ⟨hvariant, rfl⟩ | ⟨hvariant, -, rfl⟩⟩ := parseUri_cases h
  · refine ⟨fun hmedia => absurd (hvariant.symm.trans hmedia) (by decide), fun m hm => (nomatch hm),
      fun item hitem => ?_⟩
    rcases List.mem_append.mp hitem with hitem | hitem
    · exact hp.items item hitem
    · obtain rfl := List.mem_singleton.mp hitem
      exact hp.pending message hmessage
  · exact absurd ((hp.before hvariant).1.symm.trans hmessage) (by simp)

theorem mBaseURI_parseTag {tag : Tag} (h : p.parseTag line tag = some q) :
    q.mBaseURI = p.mBaseURI := by
  cases tag with
  | streamInf =>
    rw [parseTag] at h
    split at h
    · cases h
    · obtain ⟨message, -, rfl⟩ := Option.map_eq_some_iff.mp h
      rfl
  | endlist => exact Option.some.inj h ▸ rfl
  | playlistTypeEvent => exact Option.some.inj h ▸ rfl
  | discontinuity => exact Option.some.inj h ▸ rfl
  | targetDuration | mediaSequence | key | inf | discontinuitySequence | byterange | media =>
    obtain ⟨r, -, rfl⟩ := Option.map_eq_some_iff.mp h
    rfl

theorem variant_parseTag {tag : Tag} (h : p.parseTag line tag = some q)
    (hstream : tag = .streamInf ∨ p.mIsVariantPlaylist = true) : q.mIsVariantPlaylist = true := by
  cases tag with
  | streamInf =>
    rw [parseTag] at h
    split at h
    · cases h
    · obtain ⟨message, -, rfl⟩ := Option.map_eq_some_iff.mp h
      rfl
  | endlist => exact Option.some.inj h ▸ hstream.resolve_left (by decide)
  | playlistTypeEvent => exact Option.some.inj h ▸ hstream.resolve_left (by decide)
  | discontinuity => exact Option.some.inj h ▸ hstream.resolve_left (by decide)
  | targetDuration | mediaSequence | key | inf | discontinuitySequence | byterange | media =>
    obtain ⟨r, -, rfl⟩ := Option.map_eq_some_iff.mp h
    exact hstream.resolve_left (by decide)

/-- Up to the first stream no line gives an item a property of a segment. -/
def StreamsFirst (baseURI : AString) (ls : List AString) : Prop :=
  ∀ line ∈ ls.takeWhile fun line => Tag.of line ≠ some .streamInf, startsItem baseURI line = false

theorem Streams.parseLine {baseURI : AString} (hp : p.Streams ∧ p.mBaseURI = baseURI)
    (hstart : p.mIsVariantPlaylist = false → startsItem baseURI line = false)
    (h : p.parseLine line = some q) : q.Streams ∧ q.mBaseURI = baseURI := by
  refine parseLine_rule (I := fun p => (p.Streams ∧ p.mBaseURI = baseURI)
      ∧ (p.mIsVariantPlaylist = false → startsItem baseURI line = false))
    (J := fun q => q.Streams ∧ q.mBaseURI = baseURI) ?_ ?_ ?_ ?_ ?_ h ⟨hp, hstart⟩
  · exact fun p ⟨⟨hp, hbase⟩, hstart⟩ => ⟨⟨⟨hp.before, hp.pending, hp.items⟩, hbase⟩, hstart⟩
  · exact fun p n ⟨hp, hbase⟩ => ⟨⟨hp.before, hp.pending, hp.items⟩, hbase⟩
  · exact fun p hp => hp.1
  · intro p q tag ⟨⟨hs, hbase⟩, hstart⟩ htag hkind h
    exact ⟨hs.parseTag htag hkind (hbase ▸ hstart) h, (mBaseURI_parseTag h).trans hbase⟩
  · intro p q ⟨⟨hs, hbase⟩, _⟩ _ _ h
    have hkept : q.mBaseURI = p.mBaseURI := by
      obtain ⟨message, -, ⟨-, rfl⟩ | ⟨-, -, rfl⟩⟩ := parseUri_cases h
      · rfl
      · rfl
    exact ⟨hs.parseUri h, hkept.trans hbase⟩

theorem variant_parseLine (hp : p.mIsVariantPlaylist = true) (h : p.parseLine line = some q) :
    q.mIsVariantPlaylist = true := by
  refine parseLine_rule (I := fun p => p.mIsVariantPlaylist = true)
    (J := fun q => q.mIsVariantPlaylist = true) ?_ ?_ ?_ ?_ ?_ h hp
  · exact fun p hp => hp
  · exact fun p n hp => hp
  · exact fun p hp => hp
  · exact fun p q tag hp _ _ h => variant_parseTag h (.inr hp)
  · intro p q hp _ _ h
    obtain ⟨message, -, ⟨-, rfl⟩ | ⟨-, -, rfl⟩⟩ := parseUri_cases h
    · exact hp
    · exact hp

/-- The text has started without the mark, so no line of it counts. -/
structure Unmarked (p : Parsing) : Prop where
  mark : p.mIsExtM3U = false
  lineNo : 0 < p.lineNo
  pending : p.itemMeta = none
  items : p.mItems = []

theorem Unmarked.parseLine (hp : p.Unmarked) (h : p.parseLine line = some q) : q.Unmarked := by
  have hread : p.readMark line = p := if_neg fun hmark => absurd hmark.1 hp.lineNo.ne'
  rw [Parsing.parseLine, hread] at h
  split at h
  · exact Option.some.inj h ▸ hp
  · simp only [hp.mark, Bool.false_eq_true, if_false, Option.bind_some] at h
    obtain ⟨r, hr, rfl⟩ := Option.map_eq_some_iff.mp h
    split at hr
    · obtain rfl := Option.some.inj hr
      exact ⟨hp.mark, Nat.succ_pos _, hp.pending, hp.items⟩
    · rw [parseUri, hp.pending] at hr
      cases hr

/-- The first stream makes a variant playlist. -/
theorem Streams.parseLine_stream (hp : p.Streams) (htag : Tag.of line = some .streamInf)
    (h : p.parseLine line = some q) : q.mIsVariantPlaylist = true ∨ q.Unmarked := by
  by_cases hvariant : p.mIsVariantPlaylist = true
  · exact .inl (variant_parseLine hvariant h)
  · have hhead : line.head? = some '#' := by
      by_contra hhead
      rw [Tag.of_eq_none hhead] at htag
      cases htag
    have hmark : line ≠ "#EXTM3U".toList := by
      rintro rfl
      exact absurd htag (by decide +kernel)
    have hread : p.readMark line = p := if_neg fun h => hmark h.2
    have hne : line ≠ [] := by
      rintro rfl
      cases hhead
    rw [Parsing.parseLine, if_neg hne, hread] at h
    obtain ⟨r, hr, h⟩ := Option.bind_eq_some_iff.mp h
    rw [if_pos hhead, Option.map_some] at h
    obtain rfl := Option.some.inj h
    split at hr
    · rw [parseExtLine, htag] at hr
      have hparse : p.parseTag line .streamInf = some r := by simpa [Tag.mediaOnly] using hr
      exact .inl (variant_parseTag (q := r) hparse (.inl rfl))
    · rename_i hunmarked
      obtain rfl := Option.some.inj hr
      obtain ⟨hpending, hitems⟩ := hp.before (by simpa using hvariant)
      exact .inr ⟨by simpa using hunmarked, Nat.succ_pos _, hpending, hitems⟩

theorem Unmarked.run {ls : List AString} (hp : p.Unmarked)
    (h : ls.foldlM Parsing.parseLine p = some q) : q.Unmarked :=
  Folds.invariant (P := Unmarked) (fun _ _ _ _ hp h => hp.parseLine h) h hp

theorem Unmarked.streams (hp : p.Unmarked) : p.Streams where
  before _ := ⟨hp.pending, hp.items⟩
  pending _ hm := nomatch hp.pending.symm.trans hm
  items _ hitem := absurd (hp.items ▸ hitem) List.not_mem_nil

/-- The run lemma of variant playlists. -/
theorem Streams.run {baseURI : AString} {ls : List AString} (hp : p.Streams ∧ p.mBaseURI = baseURI)
    (hfirst : p.mIsVariantPlaylist = true ∨ StreamsFirst baseURI ls)
    (h : ls.foldlM Parsing.parseLine p = some q) : q.Streams := by
  induction ls generalizing p with
  | nil => exact Option.some.inj h ▸ hp.1
  | cons line ls ih =>
    obtain ⟨r, hline, hrest⟩ := Folds.cons_eq_some.mp h
    rcases hfirst with hvariant | hfirst
    · have hr := Streams.parseLine hp (fun hmedia => absurd (hvariant.symm.trans hmedia) (by decide)) hline
      exact ih hr (.inl (variant_parseLine hvariant hline)) hrest
    · by_cases hstream : Tag.of line = some .streamInf
      · have hstart : startsItem baseURI line = false := by rw [startsItem, hstream]
        have hr := Streams.parseLine hp (fun _ => hstart) hline
        rcases hp.1.parseLine_stream hstream hline with hvariant | hunmarked
        · exact ih hr (.inl hvariant) hrest
        · exact (hunmarked.run hrest).streams
      · have htake : (line :: ls).takeWhile (fun line => Tag.of line ≠ some .streamInf)
            = line :: ls.takeWhile fun line => Tag.of line ≠ some .streamInf := by
          simp [hstream]
        rw [StreamsFirst, htake, List.forall_mem_cons] at hfirst
        have hr := Streams.parseLine hp (fun _ => hfirst.1) hline
        exact ih hr (.inr hfirst.2) hrest

end Parsing

/-! ## Accepted playlists -/

namespace M3UParser

variable {p : M3UParser}

/-- A media playlist: the number of its last item is counted in 32 bits. -/
structure IsMedia (p : M3UParser) : Prop where
  kind : p.mIsVariantPlaylist = false
  targetDuration : ∃ m secs, p.mMeta = some m ∧ m.targetDuration = some secs
    ∧ p.mTargetDurationUs = secs * 1000000
  items : ∀ item ∈ p.mItems, item.mMeta.NoStream ∧ item.mMeta.durationUs.isSome = true
    ∧ item.mMeta.discontinuitySequence.isSome = true
  sequence : p.getSeqNumberRange.2 = int32 (p.getSeqNumberRange.1 + p.mItems.length - 1)
  consecutive : p.getSeqNumberRange.2 = p.getSeqNumberRange.1 + p.mItems.length - 1
    ↔ p.getSeqNumberRange.1 + p.mItems.length ≤ 2^31

/-- A variant playlist of a text: the groups that it names exist, and there is nothing about a segment
if the first stream comes before what is about one. -/
structure IsVariant (baseURI : AString) (data : List Char) (p : M3UParser) : Prop where
  kind : p.mIsVariantPlaylist = true
  items : Parsing.StreamsFirst baseURI ((lines data).map stripCR) →
    ∀ item ∈ p.mItems, item.mMeta.NoSegment
  groups : ∀ item ∈ p.mItems, ∀ groupID ∈ groupsOf item.mMeta,
    (p.mMediaGroups.find? (cstr groupID)).isSome = true

/-- The number of the second item wraps. -/
def wrapping : List Char :=
  "#EXTM3U\n#EXT-X-TARGETDURATION:9\n#EXT-X-MEDIA-SEQUENCE:2147483647\n#EXTINF:9,\na\n#EXTINF:9,\nb".toList

/-- A duration stands in front of the stream. -/
def mixed : List Char := "#EXTM3U\n#EXTINF:9,\n#EXT-X-STREAM-INF:BANDWIDTH=1\na".toList

/-- The audio group is one of videos. -/
def mistyped : List Char :=
  "#EXTM3U\n#EXT-X-MEDIA:TYPE=VIDEO,GROUP-ID=\"g\",NAME=\"n\"\n#EXT-X-STREAM-INF:AUDIO=\"g\"\na".toList

/-- What is accepted is a media playlist or a variant playlist. -/
theorem accepted_kind {baseURI : AString} {data : List Char} (h : parse baseURI data = some p) :
    p.IsMedia ∨ IsVariant baseURI data p := by
  obtain ⟨r, hrun, hfinish⟩ := Option.bind_eq_some_iff.mp h
  obtain ⟨hne, hnumber, hgroups⟩ := finish_cases hfinish
  rcases number_cases hnumber with ⟨hvariant, rfl⟩ | ⟨hmedia, m, secs, hm, hsecs, rfl⟩
  · refine .inr ⟨hvariant, fun hfirst => ?_, hgroups⟩
    have hinit : Parsing.Streams { mBaseURI := baseURI } :=
      ⟨fun _ => ⟨rfl, rfl⟩, fun m hm => (nomatch hm), fun item hitem => absurd hitem List.not_mem_nil⟩
    exact (Parsing.Streams.run ⟨hinit, rfl⟩ (.inr hfirst) hrun).items
  · have hinit : Parsing.Segments { mBaseURI := baseURI } :=
      ⟨fun m hm => (nomatch hm), fun _ m hm => (nomatch hm),
        fun _ item hitem => absurd hitem List.not_mem_nil⟩
    have hr : r.Segments := Folds.invariant (P := Parsing.Segments)
      (fun _ _ _ _ hp h => hp.parseLine h) hrun hinit
    have hlength : 0 < r.mItems.length := List.length_pos_of_ne_nil hne
    have hlow : -2^31 ≤ m.mediaSequence.getD 0 := by
      cases hsequence : m.mediaSequence with
      | none => decide
      | some x => exact (hr.sequence m hm x hsequence).1
    refine .inl ⟨hmedia, ⟨m, secs, hm, hsecs, rfl⟩, hr.items hmedia, rfl, ?_⟩
    generalize m.mediaSequence.getD 0 = first at hlow
    change int32 (first + r.mItems.length - 1) = first + r.mItems.length - 1
      ↔ first + r.mItems.length ≤ 2^31
    constructor
    · intro heq
      have hhigh := (Parsing.int32_bounds (first + r.mItems.length - 1)).2
      omega
    · intro hfits
      exact Int.bmod_eq_of_le (by omega) (by omega)

/-- Two streams with an audio group, the first with subtitles too. -/
def twoStreams : List Char :=
  ("#EXTM3U\n#EXT-X-MEDIA:TYPE=AUDIO,GROUP-ID=\"g\",NAME=\"n\",URI=\"n\"\n"
    ++ "#EXT-X-MEDIA:TYPE=SUBTITLES,GROUP-ID=\"s\",NAME=\"e\",URI=\"e\"\n"
    ++ "#EXT-X-STREAM-INF:BANDWIDTH=1,AUDIO=\"g\",SUBTITLES=\"s\"\na\n"
    ++ "#EXT-X-STREAM-INF:AUDIO=\"g\"\nb\n").toList

/-- Two segments, the second behind a discontinuity. -/
def twoSegments : List Char :=
  ("#EXTM3U\n#EXT-X-TARGETDURATION:10\n#EXT-X-MEDIA-SEQUENCE:5\n"
    ++ "#EXTINF:9.5,\n#EXT-X-BYTERANGE:100@20\na.ts\n"
    ++ "#EXT-X-DISCONTINUITY\n#EXTINF:8,\nb.ts\n").toList

theorem accepted_kind_twoStreams_twoSegments :
    (∃ p, parse "http://h/".toList twoStreams = some p ∧ p.mItems.length = 2 ∧
        IsVariant "http://h/".toList twoStreams p) ∧
      ∃ p, parse "http://h/".toList twoSegments = some p ∧ p.IsMedia ∧
        p.getSeqNumberRange = (5, 6) := by
  have hvariant : (parse "http://h/".toList twoStreams).map
      (fun p => (p.mIsVariantPlaylist, p.mItems.length)) = some (true, 2) := by decide +kernel
  have hmedia : (parse "http://h/".toList twoSegments).map
      (fun p => (p.mIsVariantPlaylist, p.getSeqNumberRange)) = some (false, 5, 6) := by
    decide +kernel
  obtain ⟨p, hp, hp'⟩ := Option.map_eq_some_iff.mp hvariant
  obtain ⟨q, hq, hq'⟩ := Option.map_eq_some_iff.mp hmedia
  rw [Prod.mk.injEq] at hp' hq'
  refine ⟨⟨p, hp, hp'.2, (accepted_kind hp).resolve_left fun h => ?_⟩,
    q, hq, (accepted_kind hq).resolve_right fun h => ?_, hq'.2⟩
  · exact Bool.false_ne_true (h.kind.symm.trans hp'.1)
  · exact Bool.false_ne_true (hq'.1.symm.trans h.kind)

open MediaGroup.GroupType

/-- The groups that an item names, with the type of the attribute that names each. -/
def namedGroups (m : ItemMeta) : List (AString × MediaGroup.GroupType) :=
  m.audio.toList.map (fun groupID => (groupID, TYPE_AUDIO))
    ++ m.video.toList.map (fun groupID => (groupID, TYPE_VIDEO))
    ++ m.subtitles.toList.map (fun groupID => (groupID, TYPE_SUBS))

/-- Nothing of one kind of playlist is in the other, the numbers of the items do not wrap, and a group
has the type that an item expects. -/
def OneKind (p : M3UParser) : Prop :=
  (p.mIsVariantPlaylist = false ∧ (p.mMeta.bind (·.targetDuration)).isSome = true
    ∧ (∀ item ∈ p.mItems, item.mMeta.bandwidth = none ∧ item.mMeta.codecs = none
      ∧ groupsOf item.mMeta = [] ∧ item.mMeta.durationUs.isSome = true
      ∧ item.mMeta.discontinuitySequence.isSome = true)
    ∧ p.getSeqNumberRange.2 = p.getSeqNumberRange.1 + p.mItems.length - 1)
  ∨ (p.mIsVariantPlaylist = true
    ∧ (∀ item ∈ p.mItems, item.mMeta.durationUs = none ∧ item.mMeta.discontinuity = none
      ∧ item.mMeta.rangeOffset = none ∧ item.mMeta.rangeLength = none
      ∧ item.mMeta.cipherMethod = none ∧ item.mMeta.cipherUri = none ∧ item.mMeta.cipherIv = none)
    ∧ ∀ item ∈ p.mItems, ∀ group ∈ namedGroups item.mMeta,
      (p.mMediaGroups.find? (cstr group.1)).map (·.mType) = some group.2)

instance (p : M3UParser) : Decidable p.OneKind := inferInstanceAs (Decidable (_ ∨ _))

theorem not_oneKind : (∃ p, parse [] wrapping = some p ∧ ¬p.OneKind) ∧
    (∃ p, parse [] mixed = some p ∧ ¬p.OneKind) ∧
    ∃ p, parse [] mistyped = some p ∧ ¬p.OneKind := by
  have hany : ∀ data ∈ [wrapping, mixed, mistyped],
      ((parse [] data).any fun p => ¬p.OneKind) = true := by decide +kernel
  have hkind : ∀ data ∈ [wrapping, mixed, mistyped], ∃ p, parse [] data = some p ∧ ¬p.OneKind := by
    intro data hdata
    obtain ⟨p, hp, hkind⟩ := (Option.any_eq_true _ _).mp (hany data hdata)
    exact ⟨p, hp, of_decide_eq_true hkind⟩
  exact ⟨hkind _ (by simp), hkind _ (by simp), hkind _ (by simp)⟩

end M3UParser

end MediaFramework.Hls
