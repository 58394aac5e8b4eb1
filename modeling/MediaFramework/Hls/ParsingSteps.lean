import MediaFramework.Hls.M3UParser
import MediaFramework.Lib.Folds

/-!
# What a line can do to a parser

The rule for one line of a playlist and the rule for all of them, and what the tags can change in the
message of an item.
-/

namespace MediaFramework.Hls

open Text

theorem Tag.mem_inOrder (tag : Tag) : tag ∈ inOrder := by cases tag <;> decide

theorem Tag.head_text (tag : Tag) (rest : AString) : (tag.text ++ rest).head? = some '#' := by
  have hhead : ∀ tag ∈ inOrder, tag.text.head? = some '#' := by decide +kernel
  rw [List.head?_append, hhead tag tag.mem_inOrder, Option.some_or]

/-- A line that does not start with `#` has no tag. -/
theorem Tag.of_eq_none {line : AString} (h : line.head? ≠ some '#') : Tag.of line = none := by
  refine List.find?_eq_none.mpr fun tag _ hfit => ?_
  obtain ⟨rest, rfl⟩ := List.isPrefixOf_iff_prefix.mp hfit
  exact h (tag.head_text rest)

theorem forall_mem_edit {α : Type} {P : α → Prop} {fresh : α} {message : Option α} {set : α → α}
    (hfresh : P (set fresh)) (hset : ∀ m ∈ message, P (set m)) : ∀ m ∈ edit fresh message set, P m := by
  intro m hm
  cases message with
  | none => exact Option.some.inj hm ▸ hfresh
  | some m' => exact Option.some.inj hm ▸ hset m' rfl

namespace Parsing

variable {p q : Parsing} {line : AString}

/-- A line that has been parsed keeps `J`, if its tag does or, without a tag, the URI that it is, and
if counting the line and the mark of the playlist do. -/
theorem parseLine_rule {I J : Parsing → Prop}
    (hmark : ∀ p, I p → I { p with mIsExtM3U := true })
    (hcount : ∀ p n, J p → J { p with lineNo := n })
    (hnone : ∀ p, I p → J p)
    (htag : ∀ p q tag, I p → Tag.of line = some tag →
      (tag.mediaOnly = true → p.mIsVariantPlaylist = false) → p.parseTag line tag = some q → J q)
    (huri : ∀ p q, I p → line ≠ [] → line.head? ≠ some '#' → p.parseUri line = some q → J q)
    (h : p.parseLine line = some q) (hp : I p) : J q := by
  rw [parseLine] at h
  split at h
  · exact Option.some.inj h ▸ hnone p hp
  · rename_i hne
    have hread : I (p.readMark line) := by
      rw [readMark]
      split
      · exact hmark p hp
      · exact hp
    generalize p.readMark line = r at h hread
    obtain ⟨s, hs, h⟩ := Option.bind_eq_some_iff.mp h
    obtain ⟨t, ht, rfl⟩ := Option.map_eq_some_iff.mp h
    refine hcount t _ ?_
    split at ht
    · obtain rfl : s = t := Option.some.inj ht
      split at hs
      · rw [parseExtLine] at hs
        split at hs
        · exact Option.some.inj hs ▸ hnone r hread
        · rename_i tag htagged
          split at hs
          · cases hs
          · rename_i hkind
            exact htag r s tag hread htagged (fun hmedia => by simpa [hmedia] using hkind) hs
      · exact Option.some.inj hs ▸ hnone r hread
    · rename_i hhead
      have hsame : s = r := by
        split at hs
        · rw [parseExtLine, Tag.of_eq_none hhead] at hs
          exact (Option.some.inj hs).symm
        · exact (Option.some.inj hs).symm
      exact huri r t hread hne hhead (hsame ▸ ht)

/-- The item that a URI ends. -/
theorem parseUri_cases (h : p.parseUri line = some q) : ∃ message, p.itemMeta = some message ∧
    ((p.mIsVariantPlaylist = true
        ∧ q = { p with mItems := p.mItems ++ [⟨line, message⟩], itemMeta := none })
      ∨ (p.mIsVariantPlaylist = false ∧ message.durationUs.isSome = true
        ∧ q = { p with
          mItems := p.mItems ++ [⟨line, { message with
            discontinuitySequence := some (int32 (p.mDiscontinuitySeq + p.mDiscontinuityCount)) }⟩]
          itemMeta := none })) := by
  obtain ⟨message, hmessage, h⟩ := Option.bind_eq_some_iff.mp h
  refine ⟨message, hmessage, ?_⟩
  split at h
  · rename_i hvariant
    exact .inl ⟨hvariant, (Option.some.inj h).symm⟩
  · rename_i hvariant
    split at h
    · cases h
    · rename_i hduration
      exact .inr ⟨by simpa using hvariant, by simpa [Option.isSome_iff_ne_none] using hduration,
        (Option.some.inj h).symm⟩

end Parsing

/-! ## The whole text -/

namespace M3UParser

variable {p q : M3UParser}

theorem finish_cases (h : p.finish = some q) : p.mItems ≠ [] ∧ p.number = some q ∧
    ∀ item ∈ q.mItems, ∀ groupID ∈ groupsOf item.mMeta,
      (q.mMediaGroups.find? (cstr groupID)).isSome = true := by
  rw [finish] at h
  split at h
  · cases h
  · rename_i hne
    obtain ⟨r, hr, h⟩ := Option.bind_eq_some_iff.mp h
    split at h
    · rename_i hgroups
      obtain rfl := Option.some.inj h
      refine ⟨hne, hr, fun item hitem groupID hgroup => ?_⟩
      exact List.all_eq_true.mp (List.all_eq_true.mp hgroups item hitem) groupID hgroup
    · cases h

theorem number_cases (h : p.number = some q) : (p.mIsVariantPlaylist = true ∧ q = p) ∨
    (p.mIsVariantPlaylist = false ∧ ∃ m secs, p.mMeta = some m ∧ m.targetDuration = some secs
      ∧ q = { p with
        mTargetDurationUs := secs * 1000000
        mFirstSeqNumber := m.mediaSequence.getD 0
        mLastSeqNumber := int32 (m.mediaSequence.getD 0 + p.mItems.length - 1) }) := by
  rw [number] at h
  split at h
  · rename_i hvariant
    exact .inl ⟨hvariant, (Option.some.inj h).symm⟩
  · rename_i hvariant
    obtain ⟨m, hm, h⟩ := Option.bind_eq_some_iff.mp h
    obtain ⟨secs, hsecs, rfl⟩ := Option.map_eq_some_iff.mp h
    exact .inr ⟨by simpa using hvariant, m, secs, hm, hsecs, rfl⟩

end M3UParser

/-! ## The message of an item -/

namespace ItemMeta

/-- No property that a stream has. -/
structure NoStream (m : ItemMeta) : Prop where
  bandwidth : m.bandwidth = none
  codecs : m.codecs = none
  width : m.width = none
  height : m.height = none
  audio : m.audio = none
  video : m.video = none
  subtitles : m.subtitles = none

/-- No property that a media segment has. -/
structure NoSegment (m : ItemMeta) : Prop where
  durationUs : m.durationUs = none
  discontinuity : m.discontinuity = none
  discontinuitySequence : m.discontinuitySequence = none
  rangeOffset : m.rangeOffset = none
  rangeLength : m.rangeLength = none
  cipherMethod : m.cipherMethod = none
  cipherUri : m.cipherUri = none
  cipherIv : m.cipherIv = none

instance (m : ItemMeta) : Decidable m.NoStream :=
  decidable_of_iff (m.bandwidth = none ∧ m.codecs = none ∧ m.width = none ∧ m.height = none
      ∧ m.audio = none ∧ m.video = none ∧ m.subtitles = none)
    ⟨fun ⟨h₁, h₂, h₃, h₄, h₅, h₆, h₇⟩ => ⟨h₁, h₂, h₃, h₄, h₅, h₆, h₇⟩,
      fun ⟨h₁, h₂, h₃, h₄, h₅, h₆, h₇⟩ => ⟨h₁, h₂, h₃, h₄, h₅, h₆, h₇⟩⟩

instance (m : ItemMeta) : Decidable m.NoSegment :=
  decidable_of_iff (m.durationUs = none ∧ m.discontinuity = none ∧ m.discontinuitySequence = none
      ∧ m.rangeOffset = none ∧ m.rangeLength = none ∧ m.cipherMethod = none ∧ m.cipherUri = none
      ∧ m.cipherIv = none)
    ⟨fun ⟨h₁, h₂, h₃, h₄, h₅, h₆, h₇, h₈⟩ => ⟨h₁, h₂, h₃, h₄, h₅, h₆, h₇, h₈⟩,
      fun ⟨h₁, h₂, h₃, h₄, h₅, h₆, h₇, h₈⟩ => ⟨h₁, h₂, h₃, h₄, h₅, h₆, h₇, h₈⟩⟩

theorem noStream_empty : NoStream {} := ⟨rfl, rfl, rfl, rfl, rfl, rfl, rfl⟩

theorem noSegment_empty : NoSegment {} := ⟨rfl, rfl, rfl, rfl, rfl, rfl, rfl, rfl⟩

end ItemMeta

/-- An attribute of a key sets a property of segments or nothing. -/
theorem cipherAttribute_cases (baseURI : AString) (message : Option ItemMeta)
    (attr : AString × AString) : cipherAttribute baseURI message attr = message ∨
      ∃ set, cipherAttribute baseURI message attr = edit {} message set
        ∧ ∀ m : ItemMeta, m.NoStream → (set m).NoStream := by
  simp only [cipherAttribute]
  split
  · exact .inr ⟨_, rfl, fun m ⟨h₁, h₂, h₃, h₄, h₅, h₆, h₇⟩ => ⟨h₁, h₂, h₃, h₄, h₅, h₆, h₇⟩⟩
  · split
    · exact .inr ⟨_, rfl, fun m ⟨h₁, h₂, h₃, h₄, h₅, h₆, h₇⟩ => ⟨h₁, h₂, h₃, h₄, h₅, h₆, h₇⟩⟩
    · split
      · exact .inr ⟨_, rfl, fun m ⟨h₁, h₂, h₃, h₄, h₅, h₆, h₇⟩ => ⟨h₁, h₂, h₃, h₄, h₅, h₆, h₇⟩⟩
      · exact .inl rfl

theorem noStream_parseCipherInfo {line baseURI : AString} {message message' : Option ItemMeta}
    (h : parseCipherInfo line message baseURI = some message') (hm : ∀ m ∈ message, m.NoStream) :
    ∀ m ∈ message', m.NoStream := by
  obtain ⟨attrs, -, rfl⟩ := Option.map_eq_some_iff.mp h
  clear h
  induction attrs generalizing message with
  | nil => exact hm
  | cons attr attrs ih =>
    refine ih ?_
    rcases cipherAttribute_cases baseURI message attr with heq | ⟨set, heq, hset⟩
    · rw [heq]
      exact hm
    · rw [heq]
      exact forall_mem_edit (hset _ ItemMeta.noStream_empty) fun m hmem => hset m (hm m hmem)

/-- An attribute of a stream sets a property of streams or nothing. -/
theorem streamAttribute_cases {message message' : Option ItemMeta} {attr : AString × AString}
    (h : streamAttribute message attr = some message') : message' = message ∨
      ∃ set, message' = edit {} message set ∧ ∀ m : ItemMeta, m.NoSegment → (set m).NoSegment := by
  have hkeep : ∀ {set : ItemMeta → ItemMeta}, some (edit {} message set) = some message' →
      (∀ m, m.NoSegment → (set m).NoSegment) → message' = message ∨
        ∃ set, message' = edit {} message set ∧ ∀ m : ItemMeta, m.NoSegment → (set m).NoSegment :=
    fun {set} heq hset => .inr ⟨set, (Option.some.inj heq).symm, hset⟩
  simp only [streamAttribute] at h
  repeat' split at h
  all_goals first
    | exact .inl (Option.some.inj h).symm
    | exact hkeep h fun m ⟨h₁, h₂, h₃, h₄, h₅, h₆, h₇, h₈⟩ => ⟨h₁, h₂, h₃, h₄, h₅, h₆, h₇, h₈⟩
    | exact nomatch h

theorem noSegment_parseStreamInf {line : AString} {message message' : Option ItemMeta}
    (h : parseStreamInf line message = some message') (hm : ∀ m ∈ message, m.NoSegment) :
    ∀ m ∈ message', m.NoSegment := by
  obtain ⟨attrs, -, h⟩ := Option.bind_eq_some_iff.mp h
  obtain ⟨last, hlast, h⟩ := Option.bind_eq_some_iff.mp h
  have hstep : ∀ attr ∈ attrs, ∀ message message', (∀ m ∈ message, m.NoSegment) →
      streamAttribute message attr = some message' → ∀ m ∈ message', m.NoSegment := by
    intro attr _ message message' hm h
    rcases streamAttribute_cases h with rfl | ⟨set, rfl, hset⟩
    · exact hm
    · exact forall_mem_edit (hset _ ItemMeta.noSegment_empty) fun m hmem => hset m (hm m hmem)
  split at h
  · cases h
  · exact Option.some.inj h ▸ Folds.invariant hstep hlast hm

end MediaFramework.Hls
