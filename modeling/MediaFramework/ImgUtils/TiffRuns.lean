import MediaFramework.ImgUtils.TiffContent
import MediaFramework.Lib.Folds

/-!
# Building and writing a header

Writers that have been built by any calls hold trees of IFDs, and what they write is read back.
-/

namespace MediaFramework.ImgUtils

open Endianness
open TagType
open Status

inductive Call
  | addIfd (ifd : Nat)
  | addSubIfd (parentIfd ifd : Nat) (type : SubIfdType)
  | addEntry (tag : Nat) (entry : Values) (ifd : Nat)
  deriving DecidableEq, Repr

/-- An entry of plain values of a type of the format, in the byte order of the file. -/
def Call.Proper : Call → Prop
  | addEntry tag entry _ => (TiffEntry.values entry).Proper tag
  | _ => True

namespace TiffWriter

def call (w : TiffWriter) : Call → Option TiffWriter
  | .addIfd ifd => some (w.addIfd ifd).2
  | .addSubIfd parentIfd ifd type => (w.addSubIfd parentIfd ifd type).map Prod.snd
  | .addEntry tag entry ifd => some (w.addEntry tag (.values entry) ifd).2

def run (tagMaps : List (KeyedVector Nat TagDefinition)) (calls : List Call) : Option TiffWriter :=
  calls.foldlM call { mTagMaps := tagMaps }

/-- The entries satisfy `P`, and an IFD ranks above those that it holds. -/
structure Ranked (P : Nat → TiffEntry → Prop) (w : TiffWriter) (rank : Nat → Nat) : Prop where
  entries : ∀ id ifd, w.mNamedIfds.find? id = some ifd → ∀ e ∈ ifd.mEntries.entries, P e.1 e.2
  few : ∀ id ifd, w.mNamedIfds.find? id = some ifd → ifd.mEntries.size ≤ MAX_IFD_ENTRIES
  rank_lt : ∀ id ifd, w.mNamedIfds.find? id = some ifd → rank id < w.mNamedIfds.size
  subs : ∀ id ifd, w.mNamedIfds.find? id = some ifd → ∀ sub ∈ ifd.subs,
    (w.mNamedIfds.find? sub).isSome ∧ rank sub < rank id
  chain : ∀ id ∈ w.mIfd, (w.mNamedIfds.find? id).isSome

/-- The entries are proper. -/
abbrev Built (w : TiffWriter) (rank : Nat → Nat) : Prop :=
  w.Ranked (fun tag entry => entry.Proper tag) rank

variable {w w' : TiffWriter} {rank : Nat → Nat} {P : Nat → TiffEntry → Prop}

/-! ## Entries -/

theorem mem_set {m : KeyedVector Nat TiffEntry} {tag : Nat} {entry : TiffEntry} {e : Nat × TiffEntry}
    (h : e ∈ (m.set tag entry).entries) : e = (tag, entry) ∨ e ∈ m.entries := KeyedVector.mem_place h

theorem size_set_le (m : KeyedVector Nat TiffEntry) (tag : Nat) (entry : TiffEntry) :
    (m.set tag entry).size ≤ m.size + 1 := by
  cases h : m.find? tag with
  | none => exact Nat.le_of_eq (m.size_set_new h)
  | some old =>
    rw [m.size_set h]
    exact Nat.le_succ _

theorem mem_subs {ifd : TiffIfd} {sub : Nat} :
    sub ∈ ifd.subs ↔ ∃ e ∈ ifd.mEntries.entries, sub ∈ e.2.subs := by
  rw [TiffIfd.subs, List.mem_flatMap]
  constructor
  · rintro ⟨entry, hmem, hsub⟩
    obtain ⟨e, he, rfl⟩ := List.mem_map.mp hmem
    exact ⟨e, he, hsub⟩
  · rintro ⟨e, he, hsub⟩
    exact ⟨e.2, List.mem_map_of_mem he, hsub⟩

/-- An entry is added, or nothing changes. -/
theorem addEntry_cases (ifd : TiffIfd) (tag : Nat) (entry : TiffEntry) :
    (ifd.addEntry tag entry).1 ≠ OK ∧ (ifd.addEntry tag entry).2 = ifd ∨
      ifd.mEntries.size < MAX_IFD_ENTRIES ∧
        ifd.addEntry tag entry = (OK, { ifd with mEntries := ifd.mEntries.set tag entry }) := by
  rw [TiffIfd.addEntry]
  split
  · exact .inl ⟨by simp, rfl⟩
  · rename_i h
    exact .inr ⟨Nat.lt_of_not_le h, rfl⟩

/-- An IFD that takes an entry, for which the IFDs in the entry are named and rank below it. -/
theorem Ranked.setEntry (h : w.Ranked P rank) {id tag : Nat} {ifd : TiffIfd} {entry : TiffEntry}
    (hifd : w.mNamedIfds.find? id = some ifd) (hfew : ifd.mEntries.size < MAX_IFD_ENTRIES)
    (hentry : P tag entry)
    (hsubs : ∀ sub ∈ entry.subs, (w.mNamedIfds.find? sub).isSome ∧ rank sub < rank id) :
    Ranked P { w with mNamedIfds :=
      w.mNamedIfds.set id { ifd with mEntries := ifd.mEntries.set tag entry } } rank := by
  have hfind : ∀ k i, (w.mNamedIfds.set id { ifd with mEntries := ifd.mEntries.set tag entry }).find? k
      = some i → k = id ∧ i = { ifd with mEntries := ifd.mEntries.set tag entry }
        ∨ w.mNamedIfds.find? k = some i := by
    intro k i hk
    rw [KeyedVector.find?_set] at hk
    split at hk
    · rename_i heq
      exact .inl ⟨heq, (Option.some.inj hk).symm⟩
    · exact .inr hk
  have hnamed : ∀ k, (w.mNamedIfds.find? k).isSome →
      ((w.mNamedIfds.set id { ifd with mEntries := ifd.mEntries.set tag entry }).find? k).isSome :=
    fun _ hk => KeyedVector.isSome_find?_set hk _ _
  -- the IFD that takes the entry, and every other one
  refine ⟨fun k i hk => ?_, fun k i hk => ?_, fun k i hk => ?_, fun k i hk => ?_,
    fun k hk => hnamed k (h.chain k hk)⟩
  · rcases hfind k i hk with ⟨rfl, rfl⟩ | hk
    · intro e he
      rcases mem_set he with rfl | he
      · exact hentry
      · exact h.entries k ifd hifd e he
    · exact h.entries k i hk
  · rcases hfind k i hk with ⟨rfl, rfl⟩ | hk
    · exact Nat.le_trans (size_set_le _ _ _) hfew
    · exact h.few k i hk
  · rw [KeyedVector.size_set _ hifd]
    rcases hfind k i hk with ⟨rfl, rfl⟩ | hk
    · exact h.rank_lt k ifd hifd
    · exact h.rank_lt k i hk
  · rcases hfind k i hk with ⟨rfl, rfl⟩ | hk
    · intro sub hsub
      obtain ⟨e, he, hsub⟩ := mem_subs.mp hsub
      rcases mem_set he with rfl | he
      · exact ⟨hnamed sub (hsubs sub hsub).1, (hsubs sub hsub).2⟩
      · obtain ⟨hsome, hlt⟩ := h.subs k ifd hifd sub (mem_subs.mpr ⟨e, he, hsub⟩)
        exact ⟨hnamed sub hsome, hlt⟩
    · intro sub hsub
      obtain ⟨hsome, hlt⟩ := h.subs k i hk sub hsub
      exact ⟨hnamed sub hsome, hlt⟩

/-- A new IFD ranks below all others. -/
theorem Ranked.newIfd (h : w.Ranked P rank) {id : Nat} (hnew : w.mNamedIfds.find? id = none)
    (chain : List Nat) (hchain : ∀ k ∈ chain, k = id ∨ k ∈ w.mIfd) :
    Ranked P { w with mIfd := chain, mNamedIfds := w.mNamedIfds.set id {} }
      (fun k => if k = id then 0 else rank k + 1) := by
  have hfind : ∀ k i, (w.mNamedIfds.set id {}).find? k = some i →
      k = id ∧ i = {} ∨ k ≠ id ∧ w.mNamedIfds.find? k = some i := by
    intro k i hk
    rw [KeyedVector.find?_set] at hk
    split at hk
    · rename_i heq
      exact .inl ⟨heq, (Option.some.inj hk).symm⟩
    · rename_i hne
      exact .inr ⟨hne, hk⟩
  have hnamed : ∀ k, (w.mNamedIfds.find? k).isSome → ((w.mNamedIfds.set id {}).find? k).isSome ∧ k ≠ id := by
    intro k hk
    have hne : k ≠ id := by
      rintro rfl
      rw [hnew] at hk
      cases hk
    rw [KeyedVector.find?_set, if_neg hne]
    exact ⟨hk, hne⟩
  refine ⟨fun k i hk => ?_, fun k i hk => ?_, fun k i hk => ?_, fun k i hk => ?_, fun k hk => ?_⟩
  · rcases hfind k i hk with ⟨-, rfl⟩ | ⟨-, hk⟩
    · exact nofun
    · exact h.entries k i hk
  · rcases hfind k i hk with ⟨-, rfl⟩ | ⟨-, hk⟩
    · exact Nat.zero_le _
    · exact h.few k i hk
  -- all ranks have gone up by one to make room
  · rw [KeyedVector.size_set_new _ hnew]
    rcases hfind k i hk with ⟨rfl, -⟩ | ⟨hne, hk⟩
    · rw [if_pos rfl]
      exact Nat.succ_pos _
    · rw [if_neg hne]
      exact Nat.succ_lt_succ (h.rank_lt k i hk)
  · rcases hfind k i hk with ⟨-, rfl⟩ | ⟨hne, hk⟩
    · exact nofun
    · intro sub hsub
      obtain ⟨hsome, hlt⟩ := h.subs k i hk sub hsub
      obtain ⟨hsome, hsubne⟩ := hnamed sub hsome
      refine ⟨hsome, ?_⟩
      rw [if_neg hsubne, if_neg hne]
      exact Nat.succ_lt_succ hlt
  · rcases hchain k hk with rfl | hk
    · rw [KeyedVector.find?_set, if_pos rfl]
      rfl
    · exact (hnamed k (h.chain k hk)).1

/-! ## Calls -/

theorem buildIfdEntry_ok {tag : Nat} {data : List Nat} {entry : TiffEntry}
    (h : w.buildIfdEntry tag data = .ok entry) : entry = .ifds LONG data.length data := by
  rw [buildIfdEntry] at h
  split at h
  · cases h
  · split at h
    · cases h
    · split at h
      · cases h
      · rename_i htype
        rw [not_not.mp htype] at h
        exact (Except.ok.inj h).symm

theorem isIfdTag_tag (type : SubIfdType) : IsIfdTag type.tag := by
  cases type with
  | SUBIFD => exact .inl rfl
  | GPSINFO => exact .inr rfl

/-- The IFDs that the entry holds to which another one is added. -/
def held (parent : TiffIfd) (tag : Nat) : List Nat :=
  match parent.getEntry tag with
  | some (.ifds _ mCount mData) => mData.take mCount
  | _ => []

theorem mem_held {parent : TiffIfd} {tag sub : Nat} (h : sub ∈ held parent tag) : sub ∈ parent.subs := by
  rw [held] at h
  split at h
  · next mType mCount mData hentry =>
    exact mem_subs.mpr ⟨_, parent.mEntries.find?_eq_some.mp hentry, List.mem_of_mem_take h⟩
  · cases h

theorem buildSubIfds_ok {parent : TiffIfd} {ifd : Nat} {type : SubIfdType} {entry : TiffEntry}
    (h : w.buildSubIfds parent ifd type = some (.ok entry)) :
    entry = .ifds LONG (held parent type.tag ++ [ifd]).length (held parent type.tag ++ [ifd])
      ∧ ∀ v, parent.getEntry type.tag ≠ some (.values v) := by
  rw [buildSubIfds] at h
  rw [held]
  cases hentry : parent.getEntry type.tag with
  | none =>
    rw [hentry] at h
    exact ⟨buildIfdEntry_ok (Option.some.inj h), nofun⟩
  | some subIfds =>
    rw [hentry] at h
    dsimp only at h
    split at h
    · cases h
    · cases subIfds with
      | values v => cases h
      | ifds mType mCount mData => exact ⟨buildIfdEntry_ok (Option.some.inj h), nofun⟩

/-- What `addSubIfd` does: nothing, or the parent has one more IFD. -/
theorem addSubIfd_cases {parentIfd ifd : Nat} {type : SubIfdType} {r : Status × TiffWriter}
    (h : w.addSubIfd parentIfd ifd type = some r) :
    r.1 ≠ OK ∧ r.2 = w ∨ ∃ parent, w.mNamedIfds.find? ifd = none ∧
      w.mNamedIfds.find? parentIfd = some parent ∧
      (∀ v, parent.getEntry type.tag ≠ some (.values v)) ∧ parent.mEntries.size < MAX_IFD_ENTRIES
      ∧ r.2 = { w with mNamedIfds := (w.mNamedIfds.set ifd {}).set parentIfd { parent with
        mEntries := parent.mEntries.set type.tag (.ifds LONG (held parent type.tag ++ [ifd]).length
          (held parent type.tag ++ [ifd])) } } := by
  rw [addSubIfd] at h
  split at h
  · obtain rfl := Option.some.inj h
    exact .inl ⟨(by decide : BAD_VALUE ≠ OK), rfl⟩
  · rename_i hnew
    rw [Bool.not_eq_true, Option.isSome_eq_false_iff, Option.isNone_iff_eq_none] at hnew
    cases hparent : w.mNamedIfds.find? parentIfd with
    | none =>
      rw [hparent] at h
      obtain rfl := Option.some.inj h
      exact .inl ⟨(by decide : BAD_VALUE ≠ OK), rfl⟩
    | some parent =>
      rw [hparent] at h
      obtain ⟨built, hbuilt, rfl⟩ := Option.map_eq_some_iff.mp h
      cases built with
      | error status => exact .inl ⟨(by decide : BAD_VALUE ≠ OK), rfl⟩
      | ok entry =>
        obtain ⟨rfl, hplain⟩ := buildSubIfds_ok hbuilt
        rcases addEntry_cases parent type.tag (.ifds LONG (held parent type.tag ++ [ifd]).length
          (held parent type.tag ++ [ifd])) with ⟨hfail, -⟩ | ⟨hfew, hadd⟩
        · dsimp only
          rw [if_pos hfail]
          exact .inl ⟨(by decide : BAD_VALUE ≠ OK), rfl⟩
        · refine .inr ⟨parent, hnew, rfl, hplain, hfew, ?_⟩
          dsimp only
          rw [hadd, if_neg (by simp)]

/-- `P` holds of the entries for IFDs and of those that are added. -/
theorem Ranked.call (h : w.Ranked P rank) {c : Call}
    (hifds : ∀ (type : SubIfdType) ids, ids ≠ [] → P type.tag (.ifds LONG ids.length ids))
    (hvalues : ∀ tag entry ifd, c = .addEntry tag entry ifd → P tag (.values entry))
    (hcall : w.call c = some w') : ∃ rank', w'.Ranked P rank' := by
  cases c with
  | addIfd ifd =>
    obtain rfl := Option.some.inj hcall
    rw [addIfd]
    split
    · exact ⟨rank, h⟩
    · rename_i hnew
      rw [Bool.not_eq_true, Option.isSome_eq_false_iff, Option.isNone_iff_eq_none] at hnew
      refine ⟨_, h.newIfd hnew _ fun k hk => ?_⟩
      rcases List.mem_append.mp hk with hk | hk
      · exact .inr hk
      · exact .inl (List.mem_singleton.mp hk)
  | addSubIfd parentIfd ifd type =>
    obtain ⟨r, hr, rfl⟩ := Option.map_eq_some_iff.mp hcall
    rcases addSubIfd_cases hr with ⟨-, heq⟩ | ⟨parent, hnew, hparent, -, hfew, heq⟩
    · rw [heq]
      exact ⟨rank, h⟩
    · have hne : parentIfd ≠ ifd := by
        rintro rfl
        rw [hnew] at hparent
        cases hparent
      have hgrown := h.newIfd hnew w.mIfd fun k hk => .inr hk
      have hparent' : (w.mNamedIfds.set ifd {}).find? parentIfd = some parent := by
        rw [KeyedVector.find?_set, if_neg hne, hparent]
      have hentry := hifds type (held parent type.tag ++ [ifd]) (List.append_ne_nil_of_right_ne_nil _ (by simp))
      refine ⟨_, heq ▸ hgrown.setEntry hparent' hfew hentry fun sub hsub => ?_⟩
      rcases List.mem_append.mp hsub with hsub | hsub
      · exact hgrown.subs parentIfd parent hparent' sub (mem_held hsub)
      · obtain rfl := List.mem_singleton.mp hsub
        rw [KeyedVector.find?_set, if_pos rfl, if_pos rfl, if_neg hne]
        exact ⟨rfl, Nat.succ_pos _⟩
  | addEntry tag entry ifd =>
    obtain rfl := Option.some.inj hcall
    rw [addEntry]
    split
    · exact ⟨rank, h⟩
    · split
      · exact ⟨rank, h⟩
      · rename_i i hi
        rcases addEntry_cases i tag (.values entry) with ⟨-, hsame⟩ | ⟨hfew, hadd⟩
        · dsimp only
          rw [hsame, KeyedVector.set_eq_self hi]
          exact ⟨rank, h⟩
        · dsimp only
          rw [hadd]
          exact ⟨rank, h.setEntry hi hfew (hvalues _ _ _ rfl) nofun⟩

theorem Built.call (h : w.Built rank) {c : Call} (hc : c.Proper) (hcall : w.call c = some w') :
    ∃ rank', w'.Built rank' := by
  exact Ranked.call h (fun type ids hne => ⟨isIfdTag_tag type, rfl, rfl, hne⟩)
    (fun tag entry ifd heq => by rw [heq] at hc; exact hc) hcall

theorem built_run {tagMaps : List (KeyedVector Nat TagDefinition)} {calls : List Call}
    (hcalls : ∀ c ∈ calls, c.Proper) (h : run tagMaps calls = some w) : ∃ rank, w.Built rank := by
  refine Folds.invariant (P := fun w => ∃ rank, w.Built rank)
    (fun c hc w w' hbuilt hcall => ?_) h ⟨fun _ => 0, nofun, nofun, nofun, nofun, nofun⟩
  obtain ⟨rank, hbuilt⟩ := hbuilt
  exact hbuilt.call (hcalls c hc) hcall

/-! ## Writing -/

/-- Every IFD has an entry, and no entry holds more than one IFD. -/
structure Plain (w : TiffWriter) : Prop where
  nonempty : w.mIfd ≠ []
  entries : ∀ id ifd, w.mNamedIfds.find? id = some ifd → 0 < ifd.mEntries.size
  single : ∀ id ifd, w.mNamedIfds.find? id = some ifd →
    ∀ e ∈ ifd.mEntries.entries, e.2.subs.length ≤ 1

variable {fuel id : Nat}

theorem Built.soundIfd (h : w.Built rank) (hplain : w.Plain) (hid : (w.mNamedIfds.find? id).isSome)
    (hfuel : rank id < fuel) : w.SoundIfd fuel id := by
  induction fuel generalizing id with
  | zero => omega
  | succ fuel ih =>
    obtain ⟨ifd, hifd⟩ := Option.isSome_iff_exists.mp hid
    refine ⟨ifd, hifd, ⟨fun entry hentry => ?_, hplain.entries id ifd hifd, h.few id ifd hifd⟩,
      fun sub hsub => ?_⟩
    · obtain ⟨e, he, rfl⟩ := List.mem_map.mp hentry
      exact (h.entries id ifd hifd e he).sound
    · obtain ⟨hsome, hlt⟩ := h.subs id ifd hifd sub hsub
      exact ih hsome (by omega)

theorem Built.sound (h : w.Built rank) (hplain : w.Plain) : w.Sound := by
  refine ⟨hplain.nonempty, fun id hid => ?_⟩
  obtain ⟨ifd, hifd⟩ := Option.isSome_iff_exists.mp (h.chain id hid)
  exact h.soundIfd hplain (h.chain id hid) (h.rank_lt id ifd hifd)

theorem contentOf_isSome {sub : Nat → Option Directory} {entries : List (Nat × TiffEntry)}
    (hproper : ∀ e ∈ entries, e.2.Proper e.1) (hsingle : ∀ e ∈ entries, e.2.subs.length ≤ 1)
    (hsub : ∀ e ∈ entries, ∀ id ∈ e.2.subs, ∃ d, sub id = some d) :
    ∃ d, contentOf sub entries = some d := by
  induction entries with
  | nil => exact ⟨.nil, rfl⟩
  | cons e entries ih =>
    obtain ⟨tag, entry⟩ := e
    obtain ⟨hentry, hproper⟩ := List.forall_mem_cons.mp hproper
    obtain ⟨hone, hsingle⟩ := List.forall_mem_cons.mp hsingle
    obtain ⟨hhead, hsub⟩ := List.forall_mem_cons.mp hsub
    obtain ⟨rest, hrest⟩ := ih hproper hsingle hsub
    cases entry with
    | values v => exact ⟨_, by rw [contentOf, hrest, Option.map_some]⟩
    | ifds mType mCount mData =>
      rcases mData with _ | ⟨ifd, _ | ⟨ifd', ifds⟩⟩
      · exact absurd rfl hentry.2.2.2
      · obtain ⟨d, hd⟩ := hhead ifd (List.mem_singleton_self ifd)
        exact ⟨_, by rw [contentOf, hd, Option.bind_some, hrest, Option.map_some]⟩
      · exact absurd hone (by simp [TiffEntry.subs])

theorem Built.ifdContent_isSome (h : w.Built rank) (hplain : w.Plain)
    (hid : (w.mNamedIfds.find? id).isSome) (hfuel : rank id < fuel) :
    ∃ d, w.ifdContent fuel id = some d := by
  induction fuel generalizing id with
  | zero => omega
  | succ fuel ih =>
    obtain ⟨ifd, hifd⟩ := Option.isSome_iff_exists.mp hid
    rw [ifdContent, hifd, Option.bind_some]
    refine contentOf_isSome (h.entries id ifd hifd) (hplain.single id ifd hifd) fun e he sub hsub => ?_
    obtain ⟨hsome, hlt⟩ := h.subs id ifd hifd sub (mem_subs.mpr ⟨e, he, hsub⟩)
    exact ih hsome (by omega)

theorem mapM_isSome {α β : Type*} {f : α → Option β} {l : List α} (h : ∀ a ∈ l, ∃ b, f a = some b) :
    ∃ bs, l.mapM f = some bs := by
  induction l with
  | nil => exact ⟨[], rfl⟩
  | cons a l ih =>
    obtain ⟨⟨b, hb⟩, hl⟩ := List.forall_mem_cons.mp h
    obtain ⟨bs, hbs⟩ := ih hl
    exact ⟨b :: bs, by simp [List.mapM_cons, hb, hbs]⟩

theorem Built.content_isSome (h : w.Built rank) (hplain : w.Plain) : ∃ ds, w.content = some ds := by
  refine mapM_isSome fun id hid => ?_
  obtain ⟨ifd, hifd⟩ := Option.isSome_iff_exists.mp (h.chain id hid)
  exact h.ifdContent_isSome hplain (h.chain id hid) (h.rank_lt id ifd hifd)

/-- A header of less than `2^32` bytes is written and read back: in all it has the size that the writer
tells, and the IFDs and the values outside of them are on words and do not overlap. -/
theorem write_roundTrip (tagMaps : List (KeyedVector Nat TagDefinition)) (calls : List Call)
    (hcalls : ∀ c ∈ calls, c.Proper) (hrun : run tagMaps calls = some w) (hplain : w.Plain) :
    ∃ ds, w.content = some ds ∧ (fileSize ds < 2 ^ 32 → ∀ big : Bool, ∃ out regions,
      w.write (if big then BIG else LITTLE) = some out ∧
      out.written.length = w.getTotalSize ∧
      readFile out.written = some (ds, regions) ∧
      (∀ r ∈ regions, r.start % 4 = 0 ∧ FILE_HEADER_SIZE ≤ r.start ∧ r.stop ≤ out.written.length) ∧
      regions.Pairwise (fun r r' => r.stop ≤ r'.start) ∧
      ∀ d ∈ ds, d.Sorted) := by
  obtain ⟨rank, hbuilt⟩ := built_run hcalls hrun
  have hsound := hbuilt.sound hplain
  obtain ⟨ds, hds⟩ := hbuilt.content_isSome hplain
  refine ⟨ds, hds, fun hsize big => ?_⟩
  obtain ⟨hlength, hfull, hbytes, hall⟩ := @chain_holds big w ds hbuilt.entries w.mIfd hsound.ifds hds
  have hheader : w.headerFull = fileSize ds := congrArg (FILE_HEADER_SIZE + ·) hfull
  have hwritten : w.bytes big = fileBytes big ds := congrArg (headerBytes big ++ ·) (hbytes _)
  have hproper : ∀ d ∈ ds, d.Proper := fun d hd => (hall d hd).1
  have hne : ds ≠ [] := by
    rintro rfl
    exact hplain.nonempty (List.eq_nil_of_length_eq_zero hlength.symm)
  have hlaid := chain_laid ds (show FILE_HEADER_SIZE % 4 = 0 by decide)
  refine ⟨output big (fileBytes big ds), chainRegions ds FILE_HEADER_SIZE, ?_, ?_, ?_,
    fun r hr => ⟨hlaid.words r hr, (hlaid.within r hr).1, ?_⟩, hlaid.behind, fun d hd => (hall d hd).2.1⟩
  · rw [write_eq hsound (by omega), hwritten]
  · rw [getTotalSize_eq hsound (by omega), hheader]
    exact length_fileBytes hproper
  · exact readFile_fileBytes hne (fun d hd => ⟨(hall d hd).1, (hall d hd).2.2⟩) hsize
  · have hstop := (hlaid.within r hr).2
    have hend : (output big (fileBytes big ds)).written.length = fileSize ds := length_fileBytes hproper
    rw [hend]
    exact hstop

/-- Definitions of a width, a resolution and the entry for sub-IFDs. -/
def someTags : KeyedVector Nat TagDefinition :=
  ((KeyedVector.empty.set 0x0100 ⟨LONG, 1, UNDEFINED_ENDIAN⟩).set 0x011A
    ⟨RATIONAL, 1, UNDEFINED_ENDIAN⟩).set TAG_SUBIFDS ⟨LONG, 0, UNDEFINED_ENDIAN⟩

def width (n : Nat) : Values := ⟨LONG, 1, UNDEFINED_ENDIAN, 4, [n]⟩

def resolution (n d : Nat) : Values := ⟨RATIONAL, 1, UNDEFINED_ENDIAN, 4, [n, d]⟩

/-- Two chained IFDs, the first of which holds another one. -/
def someCalls : List Call :=
  [.addIfd 0, .addEntry 0x011A (resolution 72 1) 0, .addSubIfd 0 7 .SUBIFD, .addEntry 0x0100 (width 640) 0,
    .addEntry 0x011A (resolution 300 1) 7, .addIfd 3, .addEntry 0x0100 (width 16) 3]

theorem someCalls_proper : ∀ c ∈ someCalls, c.Proper := by
  have hwidth : ∀ n, n < 2 ^ 32 → (TiffEntry.values (width n)).Proper 0x0100 := by
    intro n hn
    refine ⟨⟨by decide, by decide, by simp [width], Nat.one_pos, Nat.one_lt_two_pow (by decide), rfl, ?_⟩,
      rfl, rfl⟩
    exact List.forall_mem_singleton.mpr hn
  have hresolution : ∀ n, n < 2 ^ 32 → (TiffEntry.values (resolution n 1)).Proper 0x011A := by
    intro n hn
    refine ⟨⟨by decide, by decide, by simp [resolution], Nat.one_pos, Nat.one_lt_two_pow (by decide), rfl,
      ?_⟩, rfl, rfl⟩
    exact List.forall_mem_cons.mpr ⟨hn, List.forall_mem_singleton.mpr (show 1 < 256 ^ 4 by decide)⟩
  simp only [someCalls, List.forall_mem_cons]
  exact ⟨trivial, hresolution 72 (by decide), trivial, hwidth 640 (by decide), hresolution 300 (by decide),
    trivial, hwidth 16 (by decide), nofun⟩

def someContent : List Directory :=
  [.values 0x0100 LONG 1 [640] (.values 0x011A RATIONAL 1 [72, 1]
      (.sub TAG_SUBIFDS (.values 0x011A RATIONAL 1 [300, 1] .nil) .nil)),
    .values 0x0100 LONG 1 [16] .nil]

theorem write_roundTrip_someCalls : ∃ w out regions, run [someTags] someCalls = some w ∧
    w.write LITTLE = some out ∧ out.written.length = w.getTotalSize ∧
    readFile out.written = some (someContent, regions) ∧
    (∀ r ∈ regions, r.start % 4 = 0 ∧ FILE_HEADER_SIZE ≤ r.start ∧ r.stop ≤ out.written.length) ∧
    regions.Pairwise fun r r' => r.stop ≤ r'.start := by
  have hany : ((run [someTags] someCalls).any fun w => (w.mIfd ≠ [] ∧ ∀ e ∈ w.mNamedIfds.entries,
      0 < e.2.mEntries.size ∧ ∀ e' ∈ e.2.mEntries.entries, e'.2.subs.length ≤ 1) ∧
        w.content = some someContent) = true := by
    decide +kernel
  obtain ⟨w, hw, hplain⟩ := (Option.any_eq_true _ _).mp hany
  obtain ⟨⟨hne, hall⟩, hcontent⟩ := of_decide_eq_true hplain
  obtain ⟨ds, hds, h⟩ := write_roundTrip [someTags] someCalls someCalls_proper hw
    ⟨hne, fun id ifd hifd => (hall _ (w.mNamedIfds.find?_eq_some.mp hifd)).1,
      fun id ifd hifd => (hall _ (w.mNamedIfds.find?_eq_some.mp hifd)).2⟩
  obtain rfl : someContent = ds := Option.some.inj (hcontent.symm.trans hds)
  obtain ⟨out, regions, hwrite, hsize, hread, hwords, hbehind, -⟩ := h (by decide +kernel) false
  exact ⟨w, out, regions, hw, hwrite, hsize, hread, hwords, hbehind⟩

end TiffWriter

end MediaFramework.ImgUtils
