import MediaFramework.ImgUtils.TiffPlaces

/-!
# Several IFDs in one entry

What a run of calls that all succeed makes of the IFDs that it adds to others, and what a reader finds in
the entry of a parent that holds several of them.
-/

namespace MediaFramework.ImgUtils

open Endian (encode encodeAll read readAll)
open KeyedVector (isSome_find?_set)
open Status
open TagType

def TiffEntry.OfLongs : TiffEntry → Prop
  | values _ => True
  | ifds mType _ _ => mType = LONG

/-- An entry of at least one value, under a tag of 16 bits. -/
structure SoundEntry (tag : Nat) (entry : TiffEntry) : Prop where
  tag_lt : tag < 2^16
  sound : entry.Sound
  longs : entry.OfLongs

def Call.Sound : Call → Prop
  | addEntry tag entry _ => SoundEntry tag (.values entry)
  | _ => True

/-- The IFDs that a sequence of calls adds to the entry for sub-IFDs of a parent, in order. -/
def attached (parent : Nat) (calls : List Call) : List Nat :=
  calls.filterMap fun
    | .addSubIfd parentIfd ifd .SUBIFD => if parentIfd = parent then some ifd else none
    | _ => none

theorem SubIfdType.tag_lt (type : SubIfdType) : type.tag < 2^16 := by cases type <;> decide

namespace TiffWriter

/-- A call that returns `OK`. -/
def callOk (w : TiffWriter) : Call → Option TiffWriter
  | .addIfd ifd => if (w.addIfd ifd).1 = OK then some (w.addIfd ifd).2 else none
  | .addSubIfd parentIfd ifd type =>
    (w.addSubIfd parentIfd ifd type).bind fun r => if r.1 = OK then some r.2 else none
  | .addEntry tag entry ifd =>
    if (w.addEntry tag (.values entry) ifd).1 = OK then some (w.addEntry tag (.values entry) ifd).2 else none

def runOk (tagMaps : List (KeyedVector Nat TagDefinition)) (calls : List Call) : Option TiffWriter :=
  calls.foldlM callOk { mTagMaps := tagMaps }

/-- The entry of a named IFD. -/
def entryIn (named : KeyedVector Nat TiffIfd) (ifd tag : Nat) : Option TiffEntry :=
  (named.find? ifd).bind (·.getEntry tag)

/-- The IFDs that it holds. -/
def subsIn (named : KeyedVector Nat TiffIfd) (ifd tag : Nat) : List Nat :=
  (entryIn named ifd tag).elim [] TiffEntry.subs

variable {w w' : TiffWriter} {rank : Nat → Nat} {named : KeyedVector Nat TiffIfd} {id k tag t : Nat}
  {ifd : TiffIfd} {entry : TiffEntry} {c : Call} {parent : Nat} {calls : List Call} {ids : List Nat}

/-! ## Steps -/

theorem call_of_callOk (h : w.callOk c = some w') : w.call c = some w' := by
  cases c with
  | addIfd ifd =>
    rw [callOk] at h
    split at h
    · exact h
    · cases h
  | addSubIfd parentIfd ifd type =>
    obtain ⟨r, hr, h⟩ := Option.bind_eq_some_iff.mp h
    split at h
    · rw [call, hr, Option.map_some, Option.some.inj h]
    · cases h
  | addEntry tag entry ifd =>
    rw [callOk] at h
    split at h
    · exact h
    · cases h

theorem entryIn_set_new (hnew : named.find? id = none) (k t : Nat) :
    entryIn (named.set id {}) k t = entryIn named k t := by
  rw [entryIn, entryIn, KeyedVector.find?_set]
  split
  · next hk =>
    rw [hk, hnew]
    rfl
  · rfl

theorem entryIn_setEntry (hifd : named.find? id = some ifd) (tag : Nat) (entry : TiffEntry) (k t : Nat) :
    entryIn (named.set id { ifd with mEntries := ifd.mEntries.set tag entry }) k t =
      if k = id ∧ t = tag then some entry else entryIn named k t := by
  rw [entryIn, entryIn, KeyedVector.find?_set]
  by_cases hk : k = id
  · rw [if_pos hk, Option.bind_some, hk, hifd, Option.bind_some, TiffIfd.getEntry, KeyedVector.find?_set]
    exact if_congr (by rw [eq_self, true_and]) rfl rfl
  · rw [if_neg hk, if_neg fun h => hk h.1]

/-- What `addIfd` does. -/
theorem addIfd_ok (h : w.callOk (.addIfd id) = some w') :
    w.mNamedIfds.find? id = none ∧ w'.mIfd = w.mIfd ++ [id] ∧ w'.mNamedIfds = w.mNamedIfds.set id {} := by
  rw [callOk, addIfd] at h
  split at h
  · cases h
  · next hnew =>
    obtain rfl := Option.some.inj h
    rw [Bool.not_eq_true, Option.isSome_eq_false_iff, Option.isNone_iff_eq_none] at hnew
    exact ⟨hnew, rfl, rfl⟩

theorem addEntry_ok {v : Values} (h : w.callOk (.addEntry tag v id) = some w') :
    ∃ ifd, w.mNamedIfds.find? id = some ifd ∧ w'.mIfd = w.mIfd ∧
      w'.mNamedIfds = w.mNamedIfds.set id { ifd with mEntries := ifd.mEntries.set tag (.values v) } := by
  rw [callOk, addEntry] at h
  split at h
  · cases h
  · split at h
    · cases h
    · next ifd hifd =>
      rcases addEntry_cases ifd tag (.values v) with ⟨hfail, -⟩ | ⟨-, hadd⟩
      · rw [if_neg hfail] at h
        cases h
      · rw [hadd] at h
        obtain rfl := Option.some.inj h
        exact ⟨ifd, hifd, rfl, rfl⟩

theorem addSubIfd_ok {type : SubIfdType} (h : w.callOk (.addSubIfd parent id type) = some w') :
    ∃ ifd, w.mNamedIfds.find? id = none ∧ w.mNamedIfds.find? parent = some ifd ∧
      (∀ v, ifd.getEntry type.tag ≠ some (.values v)) ∧ w'.mIfd = w.mIfd ∧
      w'.mNamedIfds = (w.mNamedIfds.set id {}).set parent { ifd with
        mEntries := ifd.mEntries.set type.tag (.ifds LONG (held ifd type.tag ++ [id]).length
          (held ifd type.tag ++ [id])) } := by
  obtain ⟨r, hr, h⟩ := Option.bind_eq_some_iff.mp h
  rcases addSubIfd_cases hr with ⟨hfail, -⟩ | ⟨ifd, hnew, hparent, hplain, -, heq⟩
  · rw [if_neg hfail] at h
    cases h
  · split at h
    · obtain rfl := Option.some.inj h
      rw [heq]
      exact ⟨ifd, hnew, hparent, hplain, rfl, rfl⟩
    · cases h

/-- The entry of a parent with one more IFD, of which the others do not change. -/
theorem entryIn_addSubIfd (hnew : w.mNamedIfds.find? id = none)
    (hparent : w.mNamedIfds.find? parent = some ifd) (tag : Nat) (entry : TiffEntry) (k t : Nat) :
    entryIn ((w.mNamedIfds.set id {}).set parent { ifd with mEntries := ifd.mEntries.set tag entry }) k t =
      if k = parent ∧ t = tag then some entry else entryIn w.mNamedIfds k t := by
  have hne : parent ≠ id := by
    rintro rfl
    rw [hnew] at hparent
    cases hparent
  rw [entryIn_setEntry (by rw [KeyedVector.find?_set, if_neg hne, hparent]), entryIn_set_new hnew]

/-- In a sound entry all IFDs count. -/
theorem held_eq (h : w.Ranked SoundEntry rank) (hparent : w.mNamedIfds.find? parent = some ifd)
    (tag : Nat) : held ifd tag = subsIn w.mNamedIfds parent tag := by
  rw [subsIn, entryIn, hparent, Option.bind_some, held]
  cases hentry : ifd.getEntry tag with
  | none => rfl
  | some entry =>
    cases entry with
    | values v => rfl
    | ifds mType mCount mData =>
      have hsound := h.entries parent ifd hparent _ (ifd.mEntries.find?_eq_some.mp hentry)
      have hcount : mCount = mData.length := hsound.sound.1
      show mData.take mCount = mData
      rw [hcount, List.take_length]

/-! ## Trees -/

/-- An IFD that is in the chain or in an entry. -/
def Held (w : TiffWriter) (id : Nat) : Prop := id ∈ w.mIfd ∨ ∃ k t, id ∈ subsIn w.mNamedIfds k t

/-- Every IFD is in the chain or in one entry, and there once. -/
structure Tree (w : TiffWriter) : Prop where
  named : ∀ id, w.Held id → (w.mNamedIfds.find? id).isSome
  chain : w.mIfd.Nodup
  apart : ∀ id ∈ w.mIfd, ∀ k t, id ∉ subsIn w.mNamedIfds k t
  once : ∀ k t, (subsIn w.mNamedIfds k t).Nodup
  single : ∀ id k t k' t', id ∈ subsIn w.mNamedIfds k t → id ∈ subsIn w.mNamedIfds k' t' → k = k' ∧ t = t'

theorem Tree.not_held (h : w.Tree) (hnew : w.mNamedIfds.find? id = none) : ¬w.Held id := by
  intro hheld
  have hsome := h.named id hheld
  rw [hnew] at hsome
  cases hsome

/-- An IFD whose entry holds others, which it held before or which nothing held. -/
theorem Tree.setEntry (h : w.Tree) (hchain : w'.mIfd = w.mIfd) {new : List Nat}
    (hsubs : ∀ k t, subsIn w'.mNamedIfds k t =
      if k = id ∧ t = tag then new else subsIn w.mNamedIfds k t)
    (hmono : ∀ k, (w.mNamedIfds.find? k).isSome → (w'.mNamedIfds.find? k).isSome)
    (hnew : ∀ k ∈ new, (w'.mNamedIfds.find? k).isSome) (hnodup : new.Nodup)
    (hfrom : ∀ k ∈ new, k ∈ subsIn w.mNamedIfds id tag ∨ ¬w.Held k) : w'.Tree := by
  have hmem : ∀ x k t, x ∈ subsIn w'.mNamedIfds k t →
      (k = id ∧ t = tag) ∧ x ∈ new ∨ x ∈ subsIn w.mNamedIfds k t := by
    intro x k t hx
    rw [hsubs] at hx
    split at hx
    · next heq => exact .inl ⟨heq, hx⟩
    · exact .inr hx
  -- an IFD of the entry that something held before was held by this entry
  have hin : ∀ x k t k' t', (k = id ∧ t = tag) ∧ x ∈ new → x ∈ subsIn w.mNamedIfds k' t' →
      k = k' ∧ t = t' := by
    rintro x k t k' t' ⟨⟨rfl, rfl⟩, hx⟩ hold
    rcases hfrom x hx with hsame | hnot
    · exact h.single x k t k' t' hsame hold
    · exact absurd (.inr ⟨k', t', hold⟩) hnot
  refine ⟨?_, by rw [hchain]; exact h.chain, ?_, fun k t => ?_, ?_⟩
  · rintro x (hx | ⟨k, t, hx⟩)
    · rw [hchain] at hx
      exact hmono x (h.named x (.inl hx))
    · rcases hmem x k t hx with ⟨-, hx⟩ | hx
      · exact hnew x hx
      · exact hmono x (h.named x (.inr ⟨k, t, hx⟩))
  · intro x hx k t hsub
    rw [hchain] at hx
    rcases hmem x k t hsub with ⟨-, hsub⟩ | hsub
    · rcases hfrom x hsub with hold | hnot
      · exact h.apart x hx _ _ hold
      · exact hnot (.inl hx)
    · exact h.apart x hx k t hsub
  · rw [hsubs]
    split
    · exact hnodup
    · exact h.once k t
  · intro x k t k' t' hx hx'
    rcases hmem x k t hx with hx | hx
    · rcases hmem x k' t' hx' with ⟨⟨rfl, rfl⟩, -⟩ | hx'
      · exact hx.1
      · exact hin x k t k' t' hx hx'
    · rcases hmem x k' t' hx' with hx' | hx'
      · obtain ⟨hk, ht⟩ := hin x k' t' k t hx' hx
        exact ⟨hk.symm, ht.symm⟩
      · exact h.single x k t k' t' hx hx'

theorem Tree.addIfd (h : w.Tree) (hcall : w.callOk (.addIfd id) = some w') : w'.Tree := by
  obtain ⟨hnew, hchain, hnamed⟩ := addIfd_ok hcall
  have hsubs : ∀ k t, subsIn w'.mNamedIfds k t = subsIn w.mNamedIfds k t := by
    intro k t
    rw [subsIn, hnamed, entryIn_set_new hnew, ← subsIn]
  have hfree := h.not_held hnew
  have hmem : ∀ x ∈ w'.mIfd, x ∈ w.mIfd ∨ x = id := by
    intro x hx
    rw [hchain] at hx
    exact (List.mem_append.mp hx).imp_right List.mem_singleton.mp
  refine ⟨?_, ?_, ?_, fun k t => by rw [hsubs]; exact h.once k t, ?_⟩
  · rintro x (hx | ⟨k, t, hx⟩)
    · rw [hnamed]
      rcases hmem x hx with hx | rfl
      · exact isSome_find?_set (h.named x (.inl hx)) _ _
      · rw [KeyedVector.find?_set, if_pos rfl]
        rfl
    · rw [hsubs] at hx
      rw [hnamed]
      exact isSome_find?_set (h.named x (.inr ⟨k, t, hx⟩)) _ _
  · rw [hchain, List.nodup_append_comm]
    exact List.nodup_cons.mpr ⟨fun hx => hfree (.inl hx), h.chain⟩
  · intro x hx k t hsub
    rw [hsubs] at hsub
    rcases hmem x hx with hx | rfl
    · exact h.apart x hx k t hsub
    · exact hfree (.inr ⟨k, t, hsub⟩)
  · intro x k t k' t' hx hx'
    rw [hsubs] at hx hx'
    exact h.single x k t k' t' hx hx'

theorem subsIn_addEntry {v : Values} (hcall : w.callOk (.addEntry tag v id) = some w') (k t : Nat) :
    subsIn w'.mNamedIfds k t = if k = id ∧ t = tag then [] else subsIn w.mNamedIfds k t := by
  obtain ⟨ifd, hifd, -, hnamed⟩ := addEntry_ok hcall
  rw [subsIn, hnamed, entryIn_setEntry hifd]
  split
  · rfl
  · rfl

theorem subsIn_addSubIfd (h : w.Ranked SoundEntry rank) {type : SubIfdType}
    (hcall : w.callOk (.addSubIfd parent id type) = some w') (k t : Nat) :
    subsIn w'.mNamedIfds k t = if k = parent ∧ t = type.tag
      then subsIn w.mNamedIfds parent type.tag ++ [id] else subsIn w.mNamedIfds k t := by
  obtain ⟨ifd, hnew, hparent, -, -, hnamed⟩ := addSubIfd_ok hcall
  rw [subsIn, hnamed, entryIn_addSubIfd hnew hparent]
  split
  · exact congrArg (· ++ [id]) (held_eq h hparent type.tag)
  · rfl

theorem Tree.callOk (h : w.Tree) (hranked : w.Ranked SoundEntry rank) (hcall : w.callOk c = some w') :
    w'.Tree := by
  cases c with
  | addIfd id => exact h.addIfd hcall
  | addSubIfd parent id type =>
    obtain ⟨ifd, hnew, hparent, -, hchain, hnamed⟩ := addSubIfd_ok hcall
    have hfree := h.not_held hnew
    have hmono : ∀ k, (w.mNamedIfds.find? k).isSome → (w'.mNamedIfds.find? k).isSome := by
      intro k hk
      rw [hnamed]
      exact isSome_find?_set (isSome_find?_set hk _ _) _ _
    have hid : (w'.mNamedIfds.find? id).isSome := by
      rw [hnamed]
      refine isSome_find?_set ?_ _ _
      rw [KeyedVector.find?_set, if_pos rfl]
      rfl
    refine h.setEntry hchain (subsIn_addSubIfd hranked hcall) hmono ?_ ?_ ?_
    · intro k hk
      rcases List.mem_append.mp hk with hk | hk
      · exact hmono k (h.named k (.inr ⟨_, _, hk⟩))
      · rwa [List.mem_singleton.mp hk]
    · rw [List.nodup_append_comm]
      exact List.nodup_cons.mpr ⟨fun hx => hfree (.inr ⟨_, _, hx⟩), h.once _ _⟩
    · intro k hk
      rcases List.mem_append.mp hk with hk | hk
      · exact .inl hk
      · rw [List.mem_singleton.mp hk]
        exact .inr hfree
  | addEntry tag v id =>
    obtain ⟨ifd, hifd, hchain, hnamed⟩ := addEntry_ok hcall
    refine h.setEntry hchain (subsIn_addEntry hcall) (fun k hk => ?_) (fun _ hk => by cases hk)
      List.nodup_nil fun _ hk => by cases hk
    rw [hnamed]
    exact isSome_find?_set hk _ _

theorem subsIn_of_entries {before after : List (Nat × TiffEntry)}
    (hifd : w.mNamedIfds.find? parent = some ifd)
    (hentries : ifd.mEntries.entries = before ++ (tag, entry) :: after) :
    subsIn w.mNamedIfds parent tag = entry.subs := by
  have hentry : ifd.getEntry tag = some entry := by
    refine ifd.mEntries.find?_eq_some.mpr ?_
    rw [hentries]
    exact List.mem_append_right _ List.mem_cons_self
  rw [subsIn, entryIn, hifd, Option.bind_some, hentry, Option.elim_some]

theorem mem_subsIn {before after : List (Nat × TiffEntry)} {ids' : List Nat}
    (hifd : w.mNamedIfds.find? parent = some ifd)
    (hentries : ifd.mEntries.entries = before ++ (tag, entry) :: after)
    (hsubs : entry.subs = ids ++ id :: ids') : id ∈ subsIn w.mNamedIfds parent tag := by
  rw [subsIn_of_entries hifd hentries, hsubs]
  exact List.mem_append_right _ List.mem_cons_self

theorem mem_chain {before after : List Nat} (h : w.mIfd = before ++ id :: after) : id ∈ w.mIfd := by
  rw [h]
  exact List.mem_append_right _ List.mem_cons_self

theorem Placed.held {at' : Nat} (h : w.Placed id at') : w.Held id := by
  cases h with
  | chain hchain => exact .inl (mem_chain hchain)
  | sub _ hifd hentries hsubs => exact .inr ⟨_, _, mem_subsIn hifd hentries hsubs⟩

/-- An IFD is written once. -/
theorem Placed.unique {p q : Nat} (htree : w.Tree) (h : w.Placed id p) (h' : w.Placed id q) : p = q := by
  induction h generalizing q with
  | @chain before after id hchain =>
    cases h' with
    | chain hchain' =>
      have hnodup : (w.mIfd.map fun id : Nat => id).Nodup := by
        rw [List.map_id']
        exact htree.chain
      obtain ⟨rfl, -, -⟩ := KeyedVector.split_unique hnodup hchain hchain' rfl
      rfl
    | sub _ hifd hentries hsubs =>
      exact absurd (mem_subsIn hifd hentries hsubs) (htree.apart id (mem_chain hchain) _ _)
  | @sub parent at' tag id ifd entry ids ids' before after _ hifd hentries hsubs ih =>
    have hmem := mem_subsIn hifd hentries hsubs
    cases h' with
    | chain hchain' => exact absurd hmem (htree.apart id (mem_chain hchain') _ _)
    | @sub parent' at'' tag' id' ifd' entry' ids₂ ids₂' before' after' hplaced hifd' hentries' hsubs' =>
      obtain ⟨rfl, rfl⟩ := htree.single id parent tag parent' tag' hmem
        (mem_subsIn hifd' hentries' hsubs')
      obtain rfl : ifd = ifd' := Option.some.inj (hifd.symm.trans hifd')
      obtain ⟨rfl, hentry, -⟩ := KeyedVector.split_unique ifd.mEntries.nodup_keys hentries hentries' rfl
      obtain ⟨-, rfl⟩ := Prod.mk.inj hentry
      have hnodup : (entry.subs.map fun id : Nat => id).Nodup := by
        rw [List.map_id', ← subsIn_of_entries hifd hentries]
        exact htree.once parent tag
      obtain ⟨rfl, -, -⟩ := KeyedVector.split_unique hnodup hsubs hsubs' rfl
      rw [ih hplaced]

/-! ## Runs -/

/-- What the IFDs that have been added to a parent have become: they are those of its entry, in order,
unless another value took the place of the entry. Nothing else holds them. -/
structure Added (w : TiffWriter) (parent : Nat) (ids : List Nat) : Prop where
  entry : subsIn w.mNamedIfds parent TAG_SUBIFDS = ids ∨
    ∃ v, entryIn w.mNamedIfds parent TAG_SUBIFDS = some (.values v)
  named : ∀ id ∈ ids, (w.mNamedIfds.find? id).isSome
  chain : ∀ id ∈ ids, id ∉ w.mIfd
  home : ∀ id ∈ ids, ∀ k t, id ∈ subsIn w.mNamedIfds k t → k = parent ∧ t = TAG_SUBIFDS

theorem attached_concat (parent : Nat) (calls : List Call) (c : Call) :
    attached parent (calls ++ [c]) = attached parent calls ++ attached parent [c] :=
  List.filterMap_append

theorem entryIn_congr (h : entryIn w'.mNamedIfds k t = entryIn w.mNamedIfds k t) :
    subsIn w'.mNamedIfds k t = subsIn w.mNamedIfds k t := by
  rw [subsIn, h, subsIn]

theorem Added.mono (h : w.Added parent ids)
    (hentry : entryIn w'.mNamedIfds parent TAG_SUBIFDS = entryIn w.mNamedIfds parent TAG_SUBIFDS ∨
      ∃ v, entryIn w'.mNamedIfds parent TAG_SUBIFDS = some (.values v))
    (hnamed : ∀ k, (w.mNamedIfds.find? k).isSome → (w'.mNamedIfds.find? k).isSome)
    (hchain : ∀ k ∈ w'.mIfd, k ∈ w.mIfd ∨ w.mNamedIfds.find? k = none)
    (hsubs : ∀ x k t, x ∈ subsIn w'.mNamedIfds k t →
      x ∈ subsIn w.mNamedIfds k t ∨ w.mNamedIfds.find? x = none) : w'.Added parent ids := by
  have hold : ∀ x ∈ ids, w.mNamedIfds.find? x ≠ none := by
    intro x hx hnone
    have hsome := h.named x hx
    rw [hnone] at hsome
    cases hsome
  refine ⟨?_, fun x hx => hnamed x (h.named x hx), fun x hx hmem => ?_, fun x hx k t hmem => ?_⟩
  · rcases hentry with hsame | hvalues
    · rw [entryIn_congr hsame, hsame]
      exact h.entry
    · exact .inr hvalues
  · rcases hchain x hmem with hmem | hnone
    · exact h.chain x hx hmem
    · exact hold x hx hnone
  · rcases hsubs x k t hmem with hmem | hnone
    · exact h.home x hx k t hmem
    · exact absurd hnone (hold x hx)

theorem find?_mono_addSubIfd {type : SubIfdType} (hcall : w.callOk (.addSubIfd parent id type) = some w') :
    (w'.mNamedIfds.find? id).isSome ∧
      ∀ k, (w.mNamedIfds.find? k).isSome → (w'.mNamedIfds.find? k).isSome := by
  obtain ⟨ifd, -, -, -, -, hnamed⟩ := addSubIfd_ok hcall
  rw [hnamed]
  refine ⟨isSome_find?_set ?_ _ _, fun k hk => isSome_find?_set (isSome_find?_set hk _ _) _ _⟩
  rw [KeyedVector.find?_set, if_pos rfl]
  rfl

/-- A parent to which an IFD is added. -/
theorem Added.concat (h : w.Added parent ids) (htree : w.Tree) (hranked : w.Ranked SoundEntry rank)
    (hcall : w.callOk (.addSubIfd parent id .SUBIFD) = some w') : w'.Added parent (ids ++ [id]) := by
  obtain ⟨ifd, hnew, hparent, hplain, hchain, hnamed⟩ := addSubIfd_ok hcall
  obtain ⟨hsome, hmono⟩ := find?_mono_addSubIfd hcall
  have hfree := htree.not_held hnew
  have hsubs := subsIn_addSubIfd hranked hcall
  have hids : subsIn w.mNamedIfds parent TAG_SUBIFDS = ids := by
    rcases h.entry with hsame | ⟨v, hv⟩
    · exact hsame
    · rw [entryIn, hparent] at hv
      exact absurd hv (hplain v)
  have hmem : ∀ x k t, x ∈ subsIn w'.mNamedIfds k t →
      k = parent ∧ t = TAG_SUBIFDS ∨ x ∈ subsIn w.mNamedIfds k t := by
    intro x k t hx
    rw [hsubs] at hx
    split at hx
    · next heq => exact .inl heq
    · exact .inr hx
  refine ⟨.inl ?_, ?_, ?_, ?_⟩
  · rw [hsubs, if_pos ⟨rfl, rfl⟩]
    exact congrArg (· ++ [id]) hids
  · refine List.forall_mem_append.mpr ⟨fun x hx => hmono x (h.named x hx), ?_⟩
    exact List.forall_mem_singleton.mpr hsome
  · rw [hchain]
    refine List.forall_mem_append.mpr ⟨h.chain, ?_⟩
    exact List.forall_mem_singleton.mpr fun hx => hfree (.inl hx)
  · refine List.forall_mem_append.mpr ⟨fun x hx k t hsub => ?_, ?_⟩
    · exact (hmem x k t hsub).elim (fun heq => heq) (h.home x hx k t)
    · refine List.forall_mem_singleton.mpr fun k t hsub => ?_
      exact (hmem id k t hsub).elim (fun heq => heq) fun hold => absurd (.inr ⟨k, t, hold⟩) hfree

theorem Added.callOk (h : w.Added parent (attached parent calls)) (htree : w.Tree)
    (hranked : w.Ranked SoundEntry rank) (hcall : w.callOk c = some w') :
    w'.Added parent (attached parent (calls ++ [c])) := by
  rw [attached_concat]
  cases c with
  | addIfd id =>
    obtain ⟨hnew, hchain, hnamed⟩ := addIfd_ok hcall
    have hentry : ∀ k t, entryIn w'.mNamedIfds k t = entryIn w.mNamedIfds k t := by
      intro k t
      rw [hnamed, entryIn_set_new hnew]
    rw [show attached parent [Call.addIfd id] = [] from rfl, List.append_nil]
    refine h.mono (.inl (hentry _ _)) (fun k hk => ?_) (fun k hk => ?_) fun x k t hx => ?_
    · rw [hnamed]
      exact isSome_find?_set hk _ _
    · rw [hchain] at hk
      refine (List.mem_append.mp hk).imp_right fun hk => ?_
      rw [List.mem_singleton.mp hk, hnew]
    · rw [entryIn_congr (hentry k t)] at hx
      exact .inl hx
  -- the entry may take the place of the sub-IFDs
  | addEntry tag v id =>
    obtain ⟨ifd, hifd, hchain, hnamed⟩ := addEntry_ok hcall
    rw [show attached parent [Call.addEntry tag v id] = [] from rfl, List.append_nil]
    refine h.mono ?_ (fun k hk => ?_) (fun k hk => .inl (hchain ▸ hk)) fun x k t hx => ?_
    · rw [hnamed, entryIn_setEntry hifd]
      split
      · exact .inr ⟨v, rfl⟩
      · exact .inl rfl
    · rw [hnamed]
      exact isSome_find?_set hk _ _
    · rw [subsIn_addEntry hcall] at hx
      split at hx
      · cases hx
      · exact .inl hx
  | addSubIfd parent' id type =>
    -- only a sub-IFD of this parent comes behind those of its entry
    by_cases hsame : parent' = parent ∧ type = .SUBIFD
    · obtain ⟨rfl, rfl⟩ := hsame
      rw [show attached parent' [Call.addSubIfd parent' id .SUBIFD] = [id] from by simp [attached]]
      exact h.concat htree hranked hcall
    · have hnone : attached parent [Call.addSubIfd parent' id type] = [] := by
        cases type with
        | SUBIFD => simpa [attached] using hsame
        | GPSINFO => rfl
      obtain ⟨ifd, hnew, hparent, -, hchain, hnamed⟩ := addSubIfd_ok hcall
      have hother : ¬(parent = parent' ∧ TAG_SUBIFDS = type.tag) := by
        rintro ⟨rfl, htag⟩
        cases type with
        | SUBIFD => exact hsame ⟨rfl, rfl⟩
        | GPSINFO => cases htag
      rw [hnone, List.append_nil]
      refine h.mono (.inl ?_) (find?_mono_addSubIfd hcall).2 (fun k hk => .inl (hchain ▸ hk))
        fun x k t hx => ?_
      · rw [hnamed, entryIn_addSubIfd hnew hparent, if_neg hother]
      · rw [subsIn_addSubIfd hranked hcall] at hx
        split at hx
        · next heq =>
          obtain ⟨rfl, rfl⟩ := heq
          refine (List.mem_append.mp hx).imp_right fun hx => ?_
          rw [List.mem_singleton.mp hx, hnew]
        · exact .inl hx

/-- What calls that all succeed leave. -/
theorem of_runOk {tagMaps : List (KeyedVector Nat TagDefinition)} (hcalls : ∀ c ∈ calls, c.Sound)
    (h : runOk tagMaps calls = some w) :
    w.Tree ∧ (∃ rank, w.Ranked SoundEntry rank) ∧ ∀ parent, w.Added parent (attached parent calls) := by
  induction calls using List.reverseRecOn generalizing w with
  | nil =>
    obtain rfl := Option.some.inj h
    have hnone : ∀ k t, subsIn (KeyedVector.empty : KeyedVector Nat TiffIfd) k t = [] := fun _ _ => rfl
    refine ⟨⟨?_, List.nodup_nil, nofun, fun _ _ => List.nodup_nil, nofun⟩,
      ⟨fun _ => 0, ⟨nofun, nofun, nofun, nofun, nofun⟩⟩, fun parent => ⟨.inl rfl, nofun, nofun, nofun⟩⟩
    rintro id (hid | ⟨k, t, hid⟩)
    · cases hid
    · cases hid
  | append_singleton calls c ih =>
    obtain ⟨hcalls, hc⟩ := List.forall_mem_append.mp hcalls
    rw [runOk, List.foldlM_append] at h
    obtain ⟨w₁, hrun, hlast⟩ := Option.bind_eq_some_iff.mp h
    obtain ⟨w₂, hstep, hnil⟩ := Folds.cons_eq_some.mp hlast
    obtain rfl : w₂ = w := Option.some.inj hnil
    obtain ⟨htree, ⟨rank, hranked⟩, hadded⟩ := ih hcalls hrun
    have hsound : c.Sound := List.forall_mem_singleton.mp hc
    refine ⟨htree.callOk hranked hstep, ?_, fun parent => (hadded parent).callOk htree hranked hstep⟩
    refine hranked.call (fun type ids hne => ⟨type.tag_lt, ⟨rfl, hne⟩, rfl⟩) ?_ (call_of_callOk hstep)
    rintro tag entry ifd rfl
    exact hsound

/-! ## What is written -/

/-- Every IFD that is written has an entry. -/
def Filled (w : TiffWriter) : Prop :=
  ∀ id at' ifd, w.Placed id at' → w.mNamedIfds.find? id = some ifd → 0 < ifd.mEntries.size

theorem Ranked.soundIfd {fuel at' : Nat} (h : w.Ranked SoundEntry rank) (htree : w.Tree)
    (hfilled : w.Filled) (hplaced : w.Placed id at') (hfuel : rank id < fuel) : w.SoundIfd fuel id := by
  induction fuel generalizing id at' with
  | zero => omega
  | succ fuel ih =>
    obtain ⟨ifd, hifd⟩ := Option.isSome_iff_exists.mp (htree.named id hplaced.held)
    refine ⟨ifd, hifd, ⟨fun entry hentry => ?_, hfilled id at' ifd hplaced hifd, h.few id ifd hifd⟩,
      fun sub hsub => ?_⟩
    · obtain ⟨e, he, rfl⟩ := List.mem_map.mp hentry
      exact (h.entries id ifd hifd e he).sound
    · obtain ⟨⟨tag, entry⟩, he, hin⟩ := mem_subs.mp hsub
      obtain ⟨before, after, hentries⟩ := List.append_of_mem he
      obtain ⟨ids, ids', hids⟩ := List.append_of_mem hin
      have hlt := (h.subs id ifd hifd sub hsub).2
      exact ih (.sub hplaced hifd hentries hids) (by omega)

theorem Ranked.sound (h : w.Ranked SoundEntry rank) (htree : w.Tree) (hfilled : w.Filled)
    (hne : w.mIfd ≠ []) : w.Sound := by
  refine ⟨hne, fun id hid => ?_⟩
  obtain ⟨before, after, hchain⟩ := List.append_of_mem hid
  obtain ⟨ifd, hifd⟩ := Option.isSome_iff_exists.mp (h.chain id hid)
  exact h.soundIfd htree hfilled (.chain hchain) (h.rank_lt id ifd hifd)

section

variable {at' : Nat} {before after : List (Nat × TiffEntry)}

/-- The offset that the entry tells. -/
def entryOffset (w : TiffWriter) (ifd : TiffIfd) (before : List (Nat × TiffEntry)) (at' : Nat) : Nat :=
  ifd.valueOffset at' + TiffIfd.roomOf w.full before

/-- An entry of an IFD that is written, as a reader finds it. -/
theorem Placed.readsEntry (h : w.Placed parent at') (hsound : w.Sound) (big : Bool)
    (hifd : w.mNamedIfds.find? parent = some ifd)
    (hentries : ifd.mEntries.entries = before ++ (tag, entry) :: after) :
    read big (w.bytes big) at' 2 = some ifd.mEntries.size ∧
      Window (w.bytes big) (at' + 2 + 12 * before.length)
        (entry.infoField big tag (w.entryOffset ifd before at')) ∧
      Window (w.bytes big) (w.entryOffset ifd before at')
        (entry.outside w.full (w.subBytes big) big (w.entryOffset ifd before at')) ∧
      w.entryOffset ifd before at' ≤ (w.bytes big).length := by
  obtain ⟨hsoundIfd, hasNext, hwindow⟩ := h.window hsound big
  obtain ⟨ifd', hifd', hiSound, hall, hfull, hbytes⟩ := hsoundIfd.unfold
  obtain rfl : ifd' = ifd := Option.some.inj (hifd'.symm.trans hifd)
  have hlength := hwindow.length_le
  rw [hsoundIfd.length_ifdBytes, ← full, hfull] at hlength
  rw [hbytes] at hwindow
  have hvalues := bytes_window hiSound hall hentries hwindow
  rw [TiffIfd.bytes, TiffIfd.table, List.append_assoc] at hwindow
  have hinfos := hwindow.right.left.left
  rw [Endian.length_encode, hentries, TiffIfd.infosOf_append] at hinfos
  have hbefore : ∀ e ∈ before, e.2.Sound := by
    intro e he
    refine hiSound.entries_sound e ?_
    rw [hentries]
    exact List.mem_append_left _ he
  have hinfo := hinfos.right.left
  rw [TiffIfd.length_infosOf hbefore] at hinfo
  have hroom : TiffIfd.roomOf w.full before ≤ TiffIfd.roomOf w.full ifd'.mEntries.entries := by
    rw [hentries, TiffIfd.roomOf_append]
    exact Nat.le_add_right _ _
  refine ⟨Endian.read_window hwindow.left (by decide) hiSound.size_lt, hinfo, hvalues, ?_⟩
  rw [TiffIfd.full] at hlength
  have htable := le_aligned (tableSize ifd'.mEntries.size)
  have hsize : tableSize ifd'.mEntries.size = 2 + 12 * ifd'.mEntries.size + 4 := rfl
  rw [entryOffset, TiffIfd.valueOffset]
  omega

theorem read_tag {bytes : List Byte} {start : Nat} (h : Window bytes at' (entry.infoField big tag start))
    (htag : tag < 2^16) : read big bytes at' 2 = some tag := by
  cases entry with
  | values v => exact Endian.read_window h.left.left (by decide) htag
  | ifds mType mCount mData => exact Endian.read_window h.left.left (by decide) htag

/-- The IFDs of an entry are written where the offsets say that follow from their sizes. -/
theorem Placed.starts (h : w.Placed parent at') (hifd : w.mNamedIfds.find? parent = some ifd)
    (hentries : ifd.mEntries.entries = before ++ (tag, entry) :: after) :
    List.Forall₂ w.Placed entry.subs
      (TiffEntry.startsOf w.full entry.subs (w.entryOffset ifd before at')) := by
  have hfrom : ∀ ids ids' : List Nat, entry.subs = ids ++ ids' → List.Forall₂ w.Placed ids'
      (TiffEntry.startsOf w.full ids' (w.entryOffset ifd before at' + (ids.map w.full).sum)) := by
    intro ids ids' hids
    induction ids' generalizing ids with
    | nil => exact .nil
    | cons id ids' ih =>
      refine .cons (.sub h hifd hentries hids) ?_
      have hrest := ih (ids ++ [id]) (by rw [hids, List.append_assoc, List.singleton_append])
      rw [List.map_append, List.sum_append, List.map_singleton, List.sum_singleton, ← Nat.add_assoc]
        at hrest
      exact hrest
  exact hfrom [] entry.subs rfl

theorem Placed.eq_of_forall₂ {positions positions' : List Nat} (htree : w.Tree)
    (h : List.Forall₂ w.Placed ids positions) (h' : List.Forall₂ w.Placed ids positions') :
    positions = positions' := by
  induction h generalizing positions' with
  | nil =>
    cases h'
    rfl
  | cons hid _ ih =>
    cases h' with
    | cons hid' hids' => rw [hid.unique htree hid', ih hids']

theorem four_mul_le_sum (h : ∀ id ∈ ids, w.SoundIfd w.mNamedIfds.size id) :
    4 * ids.length ≤ (ids.map w.full).sum := by
  induction ids with
  | nil => exact Nat.le_refl 0
  | cons id ids ih =>
    obtain ⟨hid, hids⟩ := List.forall_mem_cons.mp h
    have hlarge := (@correct false w _ id hid false).large
    have hrest := ih hids
    rw [List.length_cons, List.map_cons, List.sum_cons, full]
    omega

end

/-! ## What is read -/

/-- A reader of TIFF 6.0 finds that the entry of the parent for sub-IFDs has as many values as IFDs have
been added to it, and that these, read from the offset in the entry, are where the IFDs are. -/
def Designates (w : TiffWriter) (big : Bool) (bytes : List Byte) (parent : Nat) (ids : List Nat) : Prop :=
  ∃ p k i offset positions, w.Placed parent p ∧ read big bytes p 2 = some k ∧ i < k ∧
    read big bytes (p + 2 + 12 * i) 2 = some TAG_SUBIFDS ∧
    (read big bytes (p + 2 + 12 * i + 2) 2).bind TagType.ofCode = some LONG ∧
    read big bytes (p + 2 + 12 * i + 4) 4 = some ids.length ∧
    read big bytes (p + 2 + 12 * i + 8) 4 = some offset ∧
    readAll big bytes offset 4 ids.length = some positions ∧ List.Forall₂ w.Placed ids positions

/-- The parent is written and holds the IFDs that have been added to it, and they begin with numbers that
happen to be the offsets at which they are. -/
def Coincides (w : TiffWriter) (big : Bool) (parent : Nat) (ids : List Nat) : Prop :=
  ∃ p ifd before entry after, w.Placed parent p ∧ w.mNamedIfds.find? parent = some ifd ∧
    ifd.mEntries.entries = before ++ (TAG_SUBIFDS, entry) :: after ∧ entry.subs = ids ∧
    readAll big (TiffEntry.ifdsBytes w.full (w.subBytes big) ids (w.entryOffset ifd before p)) 0 4
      ids.length = some (TiffEntry.startsOf w.full ids (w.entryOffset ifd before p))

section

variable {p : Nat} {before after : List (Nat × TiffEntry)}

/-- The IFDs of an entry, where the entry says that its values are. -/
theorem Placed.ifds (h : w.Placed parent p) (hsound : w.Sound) (big : Bool)
    (hifd : w.mNamedIfds.find? parent = some ifd)
    (hentries : ifd.mEntries.entries = before ++ (tag, entry) :: after) (hne : entry.subs ≠ []) :
    Window (w.bytes big) (w.entryOffset ifd before p)
        (TiffEntry.ifdsBytes w.full (w.subBytes big) entry.subs (w.entryOffset ifd before p)) ∧
      4 * entry.subs.length ≤ (TiffEntry.ifdsBytes w.full (w.subBytes big) entry.subs
        (w.entryOffset ifd before p)).length := by
  obtain ⟨-, -, hvalues, -⟩ := h.readsEntry hsound big hifd hentries
  have hall : ∀ id ∈ entry.subs, w.SoundIfd w.mNamedIfds.size id := by
    intro id hid
    obtain ⟨ids, ids', hids⟩ := List.append_of_mem hid
    exact (Placed.window (.sub h hifd hentries hids) hsound big).1
  cases entry with
  | values v => exact absurd rfl hne
  | ifds mType mCount mData =>
    refine ⟨hvalues, ?_⟩
    rw [TiffEntry.length_ifdsBytes fun id hid => (hall id hid).length_subBytes]
    exact four_mul_le_sum hall

/-- What a reader finds in an entry for IFDs. -/
theorem read_ifds {bytes : List Byte} {at' start : Nat} (hsound : SoundEntry tag entry)
    (hne : entry.subs ≠ []) (h : Window bytes at' (entry.infoField big tag start))
    (hcount : entry.subs.length < 2^32) (hstart : start < 2^32) :
    read big bytes at' 2 = some tag ∧
      (read big bytes (at' + 2) 2).bind TagType.ofCode = some LONG ∧
      read big bytes (at' + 4) 4 = some entry.subs.length ∧
      read big bytes (at' + 8) 4 = some start := by
  cases entry with
  | values v => exact absurd rfl hne
  | ifds mType mCount mData =>
    obtain rfl : mType = LONG := hsound.longs
    obtain ⟨rfl, -⟩ := hsound.sound
    obtain ⟨hreads, htype, hlength⟩ := read_info h.left hsound.tag_lt (by decide) hcount
    have hfield := h.right
    rw [length_info] at hfield
    exact ⟨hreads, htype, hlength, Endian.read_window hfield (by decide) hstart⟩

end

theorem exists_entry (h : subsIn w.mNamedIfds parent tag = ids) (hne : ids ≠ []) :
    ∃ ifd entry before after, w.mNamedIfds.find? parent = some ifd ∧
      ifd.mEntries.entries = before ++ (tag, entry) :: after ∧ entry.subs = ids := by
  cases hentry : entryIn w.mNamedIfds parent tag with
  | none =>
    rw [subsIn, hentry] at h
    exact absurd h.symm hne
  | some entry =>
    obtain ⟨ifd, hifd, hget⟩ := Option.bind_eq_some_iff.mp hentry
    obtain ⟨before, after, hentries⟩ := List.append_of_mem (ifd.mEntries.find?_eq_some.mp hget)
    rw [subsIn, hentry] at h
    exact ⟨ifd, entry, before, after, hifd, hentries, h⟩

/-- The IFDs that have been added are in the entry for sub-IFDs, since nothing else can hold them. -/
theorem Added.subsIn_eq (h : w.Added parent ids) (hne : ids ≠ []) {positions : List Nat}
    (hplaced : List.Forall₂ w.Placed ids positions) : subsIn w.mNamedIfds parent TAG_SUBIFDS = ids := by
  rcases h.entry with hsame | ⟨v, hv⟩
  · exact hsame
  · cases hplaced with
    | nil => exact absurd rfl hne
    | @cons id _ _ _ hid _ =>
      rcases hid.held with hchain | ⟨k, t, hsub⟩
      · exact absurd hchain (h.chain id List.mem_cons_self)
      · obtain ⟨rfl, rfl⟩ := h.home id List.mem_cons_self k t hsub
        rw [subsIn, hv] at hsub
        cases hsub

/-- The parent has one place and one entry for sub-IFDs. -/
theorem coincides_iff (htree : w.Tree) {p : Nat} {before after : List (Nat × TiffEntry)} {big : Bool}
    (hp : w.Placed parent p) (hifd : w.mNamedIfds.find? parent = some ifd)
    (hentries : ifd.mEntries.entries = before ++ (TAG_SUBIFDS, entry) :: after) :
    w.Coincides big parent entry.subs ↔
      readAll big (TiffEntry.ifdsBytes w.full (w.subBytes big) entry.subs (w.entryOffset ifd before p))
        0 4 entry.subs.length =
          some (TiffEntry.startsOf w.full entry.subs (w.entryOffset ifd before p)) := by
  constructor
  · rintro ⟨p', ifd', before', entry', after', hp', hifd', hentries', -, hread⟩
    obtain rfl := hp'.unique htree hp
    cases hifd.symm.trans hifd'
    obtain ⟨rfl, -, -⟩ := KeyedVector.split_unique ifd.mEntries.nodup_keys hentries' hentries rfl
    exact hread
  · exact fun hread => ⟨p, ifd, before, entry, after, hp, hifd, hentries, rfl, hread⟩

theorem designates_iff (hsound : w.Sound) (htree : w.Tree) (hranked : w.Ranked SoundEntry rank)
    (hadded : w.Added parent ids) (hne : ids ≠ []) {big : Bool} (hend : w.headerFull < 2^32) :
    w.Designates big (w.bytes big) parent ids ↔ w.Coincides big parent ids := by
  have hlength : (w.bytes big).length < 2^32 := by rwa [length_bytes hsound]
  constructor
  · rintro ⟨p, k, i, offset, positions, hp, hk, hi, htag, -, -, hoffset, hread, hpositions⟩
    obtain ⟨ifd, entry, before, after, hifd, hentries, rfl⟩ :=
      exists_entry (hadded.subsIn_eq hne hpositions) hne
    obtain ⟨hsize, hinfo, -, hstart⟩ := hp.readsEntry hsound big hifd hentries
    obtain ⟨hwindow, hfits⟩ := hp.ifds hsound big hifd hentries hne
    have hle := hwindow.length_le
    have hfew : entry.subs.length < 2^32 := by omega
    have hall := hranked.entries parent ifd hifd
    have hmem : (TAG_SUBIFDS, entry) ∈ ifd.mEntries.entries := by
      rw [hentries]
      exact List.mem_append_right _ List.mem_cons_self
    obtain rfl : ifd.mEntries.size = k := Option.some.inj (hsize.symm.trans hk)
    -- no other entry has the tag
    obtain rfl : before.length = i := by
      have hsplit : ifd.mEntries.entries = ifd.mEntries.entries.take i ++
          ifd.mEntries.entries[i] :: ifd.mEntries.entries.drop (i + 1) := by
        rw [← List.drop_eq_getElem_cons hi, List.take_append_drop]
      have htake : (ifd.mEntries.entries.take i).length = i :=
        List.length_take_of_le (Nat.le_of_lt hi)
      obtain ⟨-, hother, -, -⟩ := hp.readsEntry hsound big hifd hsplit
      rw [htake] at hother
      have hreads := read_tag hother (hall _ (List.getElem_mem hi)).tag_lt
      obtain ⟨hfront, -, -⟩ := KeyedVector.split_unique ifd.mEntries.nodup_keys hentries hsplit
        (Option.some.inj (htag.symm.trans hreads))
      rw [hfront, htake]
    obtain ⟨-, -, -, hfield⟩ := read_ifds (hall _ hmem) hne hinfo hfew (by omega)
    obtain rfl : w.entryOffset ifd before p = offset := Option.some.inj (hfield.symm.trans hoffset)
    obtain rfl := Placed.eq_of_forall₂ htree hpositions (hp.starts hifd hentries)
    refine ⟨p, ifd, before, entry, after, hp, hifd, hentries, rfl, ?_⟩
    have hpos := List.length_pos_iff.mpr hne
    rw [← Endian.readAll_front hwindow hfits (by omega)]
    exact hread
  · rintro ⟨p, ifd, before, entry, after, hp, hifd, hentries, rfl, hread⟩
    obtain ⟨hsize, hinfo, -, hstart⟩ := hp.readsEntry hsound big hifd hentries
    obtain ⟨hwindow, hfits⟩ := hp.ifds hsound big hifd hentries hne
    have hle := hwindow.length_le
    have hfew : entry.subs.length < 2^32 := by omega
    have hmem : (TAG_SUBIFDS, entry) ∈ ifd.mEntries.entries := by
      rw [hentries]
      exact List.mem_append_right _ List.mem_cons_self
    obtain ⟨htag, htype, hcount, hfield⟩ := read_ifds (hranked.entries parent ifd hifd _ hmem) hne hinfo
      hfew (by omega)
    have hpos := List.length_pos_iff.mpr hne
    have hi : before.length < ifd.mEntries.size := by
      rw [KeyedVector.size, hentries, List.length_append, List.length_cons]
      omega
    refine ⟨p, _, before.length, _, _, hp, hsize, hi, htag, htype, hcount, hfield, ?_,
      hp.starts hifd hentries⟩
    rw [Endian.readAll_front hwindow hfits (by omega)]
    exact hread

/-! ## Written runs -/

section

variable {tagMaps : List (KeyedVector Nat TagDefinition)} {big : Bool} {out : EndianOutput}

theorem Filled.of_named (h : ∀ e ∈ w.mNamedIfds.entries, 0 < e.2.mEntries.size) : w.Filled :=
  fun _ _ _ _ hifd => h _ (w.mNamedIfds.find?_eq_some.mp hifd)

theorem sound_of_write (hcalls : ∀ c ∈ calls, c.Sound) (hrun : runOk tagMaps calls = some w)
    (hfilled : w.Filled) (hend : w.headerFull < 2^32)
    (hwrite : w.write (if big then .BIG else .LITTLE) = some out) :
    w.Sound ∧ w.Tree ∧ (∃ rank, w.Ranked SoundEntry rank) ∧ out.written = w.bytes big := by
  obtain ⟨htree, ⟨rank, hranked⟩, -⟩ := of_runOk hcalls hrun
  have hne : w.mIfd ≠ [] := by
    intro hnil
    rw [write, if_pos hnil] at hwrite
    cases hwrite
  have hsound := hranked.sound htree hfilled hne
  rw [write_eq hsound hend] at hwrite
  exact ⟨hsound, htree, ⟨rank, hranked⟩, congrArg EndianOutput.written (Option.some.inj hwrite).symm⟩

/-- Several IFDs that have been added to a parent. -/
theorem write_designates_iff (hcalls : ∀ c ∈ calls, c.Sound) (hrun : runOk tagMaps calls = some w)
    (hmany : 2 ≤ (attached parent calls).length) (hfilled : w.Filled) (hend : w.headerFull < 2^32)
    (hwrite : w.write (if big then .BIG else .LITTLE) = some out) :
    w.Designates big out.written parent (attached parent calls) ↔
      w.Coincides big parent (attached parent calls) := by
  obtain ⟨hsound, htree, ⟨rank, hranked⟩, hwritten⟩ := sound_of_write hcalls hrun hfilled hend hwrite
  have hne : attached parent calls ≠ [] := by
    intro hnil
    rw [hnil] at hmany
    cases hmany
  rw [hwritten]
  exact designates_iff hsound htree hranked ((of_runOk hcalls hrun).2.2 parent) hne hend

end

/-- Three IFDs in another one that has an entry of its own, and an IFD behind that one. -/
def threeCalls : List Call :=
  [.addIfd 0, .addEntry 0x0100 (width 4000) 0, .addSubIfd 0 1 .SUBIFD, .addSubIfd 0 2 .SUBIFD,
    .addSubIfd 0 3 .SUBIFD, .addEntry 0x0100 (width 640) 1, .addEntry 0x011A (resolution 72 1) 1,
    .addEntry 0x0100 (width 64) 2, .addEntry 0x011A (resolution 300 1) 3, .addIfd 4,
    .addEntry 0x0100 (width 16) 4]

/-- Two IFDs of one entry each in another one. -/
def twoCalls : List Call :=
  [.addIfd 0, .addSubIfd 0 1 .SUBIFD, .addSubIfd 0 2 .SUBIFD, .addEntry 0x0100 (width 640) 1,
    .addEntry 0x0100 (width 64) 2]

theorem calls_sound : (∀ c ∈ threeCalls, c.Sound) ∧ ∀ c ∈ twoCalls, c.Sound := by
  have hwidth : ∀ n, SoundEntry 0x0100 (.values (width n)) := fun n =>
    ⟨by decide, ⟨(by decide : 0 < 4), (by decide : 0 < 1), rfl⟩, trivial⟩
  have hresolution : ∀ n d, SoundEntry 0x011A (.values (resolution n d)) := fun n d =>
    ⟨by decide, ⟨(by decide : 0 < 4), (by decide : 0 < 1), rfl⟩, trivial⟩
  simp only [threeCalls, twoCalls, List.forall_mem_cons]
  exact ⟨⟨trivial, hwidth 4000, trivial, trivial, trivial, hwidth 640, hresolution 72 1, hwidth 64,
    hresolution 300 1, trivial, hwidth 16, nofun⟩, trivial, trivial, trivial, hwidth 640, hwidth 64, nofun⟩

def writerOf (calls : List Call) : TiffWriter := (runOk [someTags] calls).getD { mTagMaps := [] }

/-- Four bytes of the first sub-IFD are a number of entries and a tag, and not where it is. -/
theorem write_designates_iff_threeCalls :
    ∃ out, (writerOf threeCalls).write .BIG = some out ∧ attached 0 threeCalls = [1, 2, 3] ∧
      ¬(writerOf threeCalls).Coincides true 0 [1, 2, 3] ∧
      ¬(writerOf threeCalls).Designates true out.written 0 [1, 2, 3] := by
  have hrun : runOk [someTags] threeCalls = some (writerOf threeCalls) := rfl
  have hfilled : (writerOf threeCalls).Filled := Filled.of_named (by decide +kernel)
  have hend : (writerOf threeCalls).headerFull < 2^32 := by decide +kernel
  obtain ⟨out, hwrite⟩ : ∃ out, (writerOf threeCalls).write (if true then .BIG else .LITTLE) = some out :=
    Option.isSome_iff_exists.mp (by decide +kernel)
  obtain ⟨htree, -, -⟩ := of_runOk calls_sound.1 hrun
  have hcoincides : ¬(writerOf threeCalls).Coincides true 0 (TiffEntry.ifds LONG 3 [1, 2, 3]).subs := by
    have hchain : (writerOf threeCalls).mIfd = [] ++ 0 :: [4] := rfl
    obtain ⟨ifd, hifd⟩ : ∃ ifd, (writerOf threeCalls).mNamedIfds.find? 0 = some ifd := ⟨_, rfl⟩
    have hentries : ifd.mEntries.entries =
        [(0x0100, .values (width 4000))] ++ (TAG_SUBIFDS, .ifds LONG 3 [1, 2, 3]) :: [] := by
      cases hifd
      rfl
    rw [coincides_iff htree (.chain hchain) hifd hentries]
    cases hifd
    decide +kernel
  refine ⟨out, hwrite, rfl, hcoincides, fun hdesignates => hcoincides ?_⟩
  exact (write_designates_iff calls_sound.1 hrun (by decide) hfilled hend hwrite).mp hdesignates

/-- The entry of the first IFD counts two IFDs, and what it points to are their entries. -/
theorem not_designates_twoCalls :
    ∃ out, (writerOf twoCalls).write .BIG = some out ∧ attached 0 twoCalls = [1, 2] ∧
      ¬(writerOf twoCalls).Designates true out.written 0 [1, 2] := by
  have hrun : runOk [someTags] twoCalls = some (writerOf twoCalls) := rfl
  have hfilled : (writerOf twoCalls).Filled := Filled.of_named (by decide +kernel)
  have hend : (writerOf twoCalls).headerFull < 2^32 := by decide +kernel
  obtain ⟨out, hwrite⟩ : ∃ out, (writerOf twoCalls).write (if true then .BIG else .LITTLE) = some out :=
    Option.isSome_iff_exists.mp (by decide +kernel)
  obtain ⟨hsound, htree, ⟨rank, hranked⟩, hwritten⟩ :=
    sound_of_write calls_sound.2 hrun hfilled hend hwrite
  have hadded : (writerOf twoCalls).Added 0 (TiffEntry.ifds LONG 2 [1, 2]).subs :=
    (of_runOk calls_sound.2 hrun).2.2 0
  have hchain : (writerOf twoCalls).mIfd = [] ++ 0 :: [] := rfl
  obtain ⟨ifd, hifd⟩ : ∃ ifd, (writerOf twoCalls).mNamedIfds.find? 0 = some ifd := ⟨_, rfl⟩
  have hentries : ifd.mEntries.entries = [] ++ (TAG_SUBIFDS, .ifds LONG 2 [1, 2]) :: [] := by
    cases hifd
    rfl
  have hcoincides : ¬(writerOf twoCalls).Coincides true 0 (TiffEntry.ifds LONG 2 [1, 2]).subs := by
    rw [coincides_iff htree (.chain hchain) hifd hentries]
    cases hifd
    decide +kernel
  refine ⟨out, hwrite, rfl, fun hdesignates => hcoincides ?_⟩
  rw [hwritten] at hdesignates
  exact (designates_iff hsound htree hranked hadded (List.cons_ne_nil _ _) hend).mp hdesignates

end TiffWriter

end MediaFramework.ImgUtils
