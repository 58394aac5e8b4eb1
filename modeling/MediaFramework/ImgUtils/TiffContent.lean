import MediaFramework.ImgUtils.TiffLayout

/-!
# The content of writers

What a writer holds, as a reader is expected to recover it, and that its layout is that of the format.
-/

namespace MediaFramework.ImgUtils

open Endianness
open TagType

/-! ## Content -/

/-- The entries of an IFD. Several IFDs in one entry have no place in the format. -/
def contentOf (sub : Nat → Option Directory) : List (Nat × TiffEntry) → Option Directory
  | [] => some .nil
  | (tag, .values v) :: entries =>
    (contentOf sub entries).map (.values tag v.mType v.mCount v.mData)
  | (tag, .ifds _ _ [ifd]) :: entries =>
    (sub ifd).bind fun d => (contentOf sub entries).map (.sub tag d)
  | (_, .ifds _ _ _) :: _ => none

namespace TiffWriter

variable (w : TiffWriter)

def ifdContent : Nat → Nat → Option Directory
  | 0, _ => none
  | fuel + 1, ifd => (w.mNamedIfds.find? ifd).bind fun ifd =>
    contentOf (ifdContent fuel) ifd.mEntries.entries

/-- The IFDs of the chain. -/
def content : Option (List Directory) := w.mIfd.mapM (w.ifdContent w.mNamedIfds.size)

end TiffWriter

/-- An entry of a type of the format, in the byte order of the file. -/
def TiffEntry.Proper (tag : Nat) : TiffEntry → Prop
  | values v => ProperValues tag v.mType v.mCount v.mData ∧ v.size = v.mType.elementSize
    ∧ v.mEnd = UNDEFINED_ENDIAN
  | ifds mType mCount mData => IsIfdTag tag ∧ mType = LONG ∧ mCount = mData.length ∧ mData ≠ []

variable {sub : Nat → Option Directory} {subFull : Nat → Nat} {subBytes : Nat → Nat → List Byte}
  {tag : Nat} {entry : TiffEntry} {entries : List (Nat × TiffEntry)} {d : Directory} {big : Bool}

theorem TiffEntry.Proper.sound (h : entry.Proper tag) : entry.Sound := by
  cases entry with
  | values v =>
    obtain ⟨hvalues, hsize, -⟩ := h
    refine ⟨?_, hvalues.count_pos, hvalues.length⟩
    rw [hsize]
    exact elementSize_pos hvalues.type_ne
  | ifds mType mCount mData => exact ⟨h.2.2.1, h.2.2.2⟩

theorem contentOf_cons (h : contentOf sub ((tag, entry) :: entries) = some d) :
    (∃ v rest, entry = .values v ∧ contentOf sub entries = some rest
      ∧ d = .values tag v.mType v.mCount v.mData rest) ∨
    ∃ mType mCount ifd d' rest, entry = .ifds mType mCount [ifd] ∧ sub ifd = some d'
      ∧ contentOf sub entries = some rest ∧ d = .sub tag d' rest := by
  cases entry with
  | values v =>
    obtain ⟨rest, hrest, rfl⟩ := Option.map_eq_some_iff.mp h
    exact .inl ⟨v, rest, rfl, hrest, rfl⟩
  | ifds mType mCount mData =>
    rcases mData with _ | ⟨ifd, _ | ⟨ifd', ifds⟩⟩
    · cases h
    · obtain ⟨d', hd', h⟩ := Option.bind_eq_some_iff.mp h
      obtain ⟨rest, hrest, rfl⟩ := Option.map_eq_some_iff.mp h
      exact .inr ⟨mType, mCount, ifd, d', rest, rfl, hd', hrest, rfl⟩
    · cases h

/-! ## Layout -/

/-- The offset of the next IFD. -/
def Directory.next (d : Directory) (hasNext : Bool) (offset : Nat) : Nat :=
  if hasNext then offset + d.size else 0

/-- An IFD whose layout is that of a directory. -/
structure IfdHolds (big hasNext : Bool) (full : Nat) (bytes : Nat → List Byte) (d : Directory) :
    Prop where
  full : full = d.size
  bytes : ∀ offset, bytes offset = d.bytes big (d.next hasNext offset) offset
  proper : d.Proper
  sorted : d.Sorted
  pos : 0 < d.length
  few : d.length < 2 ^ 16

structure EntriesHold (big : Bool) (subFull : Nat → Nat) (subBytes : Nat → Nat → List Byte)
    (entries : List (Nat × TiffEntry)) (d : Directory) : Prop where
  length : entries.length = d.length
  tags : entries.map Prod.fst = d.tags
  room : TiffIfd.roomOf subFull entries = d.valuesSize
  infos : ∀ at', TiffIfd.infosOf subFull big entries at' = d.infos big at'
  outside : ∀ at', TiffIfd.outsideOf subFull subBytes big entries at' = d.data big at'
  proper : d.Proper
  sorted : d.Sorted

theorem Values.full_eq {v : Values} (hsize : v.size = v.mType.elementSize) :
    v.full = valueLength v.mType v.mCount := by
  rw [full, hsize, valueLength]

theorem entriesHold (hproper : ∀ e ∈ entries, e.2.Proper e.1)
    (hsorted : (entries.map Prod.fst).Pairwise (· < ·))
    (hsub : ∀ e ∈ entries, ∀ id ∈ e.2.subs, ∀ d', sub id = some d' →
      IfdHolds big false (subFull id) (subBytes id) d')
    (h : contentOf sub entries = some d) : EntriesHold big subFull subBytes entries d := by
  induction entries generalizing d with
  | nil =>
    obtain rfl := Option.some.inj h
    exact ⟨rfl, rfl, rfl, fun _ => rfl, fun _ => rfl, trivial, trivial⟩
  | cons e entries ih =>
    obtain ⟨tag, entry⟩ := e
    obtain ⟨hentry, hentries⟩ := List.forall_mem_cons.mp hproper
    obtain ⟨htag, hrest⟩ := List.pairwise_cons.mp hsorted
    obtain ⟨hsub, hsubs⟩ := List.forall_mem_cons.mp hsub
    rcases contentOf_cons h with ⟨v, rest, rfl, hcontent, rfl⟩ |
      ⟨mType, mCount, ifd, d', rest, rfl, hd', hcontent, rfl⟩
    · have hold := ih hentries hrest hsubs hcontent
      obtain ⟨hvalues, hsize, hend⟩ := hentry
      have hfull := Values.full_eq hsize
      have hroom : v.room = valueSize v.mType v.mCount := by
        rw [Values.room, hfull, valueSize]
      refine ⟨?_, ?_, ?_, fun at' => ?_, fun at' => ?_, ⟨hvalues, hold.proper⟩, ?_, hold.sorted⟩
      · exact congrArg (· + 1) hold.length
      · exact congrArg (tag :: ·) hold.tags
      · rw [Directory.valuesSize, ← hold.room, ← hroom]
        exact List.sum_cons
      · rw [TiffIfd.infosOf, TiffEntry.infoField, TiffEntry.room, hold.infos, hroom, Directory.infos,
          Values.field, hfull, hsize, List.append_assoc]
        rfl
      · have horder : v.order big = big := by rw [Values.order, hend]
        rw [TiffIfd.outsideOf, TiffEntry.outside, TiffEntry.room, hold.outside, hroom, Directory.data,
          Values.outside, hfull, hsize, horder]
        rfl
      · rw [← hold.tags]
        exact htag
    · have hold := ih hentries hrest hsubs hcontent
      have hd := hsub ifd (List.mem_singleton_self ifd) d' hd'
      obtain ⟨hifd, rfl, rfl, -⟩ := hentry
      have hroom : (TiffEntry.ifds LONG [ifd].length [ifd]).room subFull = d'.size := by
        rw [TiffEntry.room, ← hd.full]
        exact Nat.add_zero _
      refine ⟨?_, ?_, ?_, fun at' => ?_, fun at' => ?_, ⟨hifd, ⟨hd.pos, hd.few⟩, hd.proper, hold.proper⟩,
        ?_, hd.sorted, hold.sorted⟩
      · exact congrArg (· + 1) hold.length
      · exact congrArg (tag :: ·) hold.tags
      · rw [Directory.valuesSize, ← hold.room, ← Directory.size, ← hroom]
        exact List.sum_cons
      · rw [TiffIfd.infosOf, TiffEntry.infoField, hold.infos, hroom, Directory.infos, List.append_assoc]
        rfl
      · have hbytes : subBytes ifd at' = d'.bytes big 0 at' := hd.bytes at'
        rw [TiffIfd.outsideOf, hold.outside, hroom, Directory.data, TiffEntry.outside,
          TiffEntry.ifdsBytes, TiffEntry.ifdsBytes, List.append_nil, hbytes]
        rfl
      · rw [← hold.tags]
        exact htag

theorem TiffIfd.holds {ifd : TiffIfd} (hsound : ifd.Sound)
    (hproper : ∀ e ∈ ifd.mEntries.entries, e.2.Proper e.1)
    (hsub : ∀ id ∈ ifd.subs, ∀ d', sub id = some d' →
      IfdHolds big false (subFull id) (subBytes id) d')
    (h : contentOf sub ifd.mEntries.entries = some d) (hasNext : Bool) :
    IfdHolds big hasNext (ifd.full subFull) (ifd.bytes subFull subBytes big hasNext) d := by
  have hold := entriesHold hproper ifd.mEntries.sorted (fun e he id hid =>
    hsub id (List.mem_flatMap_of_mem (List.mem_map_of_mem he) hid)) h
  have hlength : ifd.mEntries.size = d.length := hold.length
  have hfull : ifd.full subFull = d.size := by
    rw [full, hold.room, hlength, Directory.size]
  have hpos := hsound.nonempty
  have hfew := hsound.size_lt
  rw [hlength] at hpos hfew
  refine ⟨hfull, fun offset => ?_, hold.proper, hold.sorted, hpos, hfew⟩
  rw [bytes, table, valueOffset, hold.infos, hold.outside, hfull, hlength]
  rfl

namespace TiffWriter

variable {w : TiffWriter} {fuel ifd : Nat} {ds : List Directory}

/-- The entries of all IFDs are proper. -/
def ProperEntries (w : TiffWriter) : Prop :=
  ∀ id ifd, w.mNamedIfds.find? id = some ifd → ∀ e ∈ ifd.mEntries.entries, e.2.Proper e.1

theorem ifdHolds (hproper : w.ProperEntries) (hsound : w.SoundIfd fuel ifd)
    (h : w.ifdContent fuel ifd = some d) (hasNext : Bool) :
    IfdHolds big hasNext (w.ifdFull fuel ifd) (w.ifdBytes big fuel hasNext ifd) d := by
  induction fuel generalizing ifd d hasNext with
  | zero => cases h
  | succ fuel ih =>
    obtain ⟨i, hi, hiSound, hsubs⟩ := hsound
    rw [ifdContent, hi, Option.bind_some] at h
    have hfull : w.ifdFull (fuel + 1) ifd = i.full (w.ifdFull fuel) := by
      rw [ifdFull, hi, Option.elim_some]
    have hbytes : w.ifdBytes big (fuel + 1) hasNext ifd
        = i.bytes (w.ifdFull fuel) (w.ifdBytes big fuel false) big hasNext := by
      funext offset
      rw [ifdBytes, hi, Option.elim_some]
    rw [hfull, hbytes]
    exact TiffIfd.holds hiSound (hproper ifd i hi) (fun id hid d' hd' => ih (hsubs id hid) hd' false)
      h hasNext

theorem chain_holds (hproper : w.ProperEntries) {ifds : List Nat}
    (hsound : ∀ ifd ∈ ifds, w.SoundIfd w.mNamedIfds.size ifd)
    (h : ifds.mapM (w.ifdContent w.mNamedIfds.size) = some ds) :
    ds.length = ifds.length ∧ w.chainFull ifds = chainSize ds ∧
      (∀ offset, w.chainBytes big ifds offset = ImgUtils.chainBytes big ds offset) ∧
      ∀ d ∈ ds, d.Proper ∧ d.Sorted ∧ 0 < d.length ∧ d.length < 2 ^ 16 := by
  induction ifds generalizing ds with
  | nil =>
    obtain rfl := Option.some.inj h
    exact ⟨rfl, rfl, fun _ => rfl, nofun⟩
  | cons ifd ifds ih =>
    obtain ⟨hifd, hifds⟩ := List.forall_mem_cons.mp hsound
    rw [List.mapM_cons] at h
    obtain ⟨d, hd, h⟩ := Option.bind_eq_some_iff.mp h
    obtain ⟨ds', hds', h⟩ := Option.bind_eq_some_iff.mp h
    obtain rfl := Option.some.inj h
    obtain ⟨hlength, hfull, hbytes, hall⟩ := ih hifds hds'
    have hold : IfdHolds big (!ifds.isEmpty) _ _ d := ifdHolds hproper hifd hd (!ifds.isEmpty)
    have hsize : w.full ifd = d.size := hold.full
    refine ⟨congrArg (· + 1) hlength, ?_, fun offset => ?_, List.forall_mem_cons.mpr
      ⟨⟨hold.proper, hold.sorted, hold.pos, hold.few⟩, hall⟩⟩
    · have hsum : w.chainFull (ifd :: ifds) = w.full ifd + w.chainFull ifds := List.sum_cons
      rw [hsum, hsize, hfull]
      exact List.sum_cons.symm
    · have hnext : d.next (!ifds.isEmpty) offset = if ds'.isEmpty then 0 else offset + d.size := by
        cases ifds with
        | nil =>
          obtain rfl := List.eq_nil_of_length_eq_zero hlength
          rfl
        | cons ifd' ifds =>
          cases ds' with
          | nil => cases hlength
          | cons d' ds' => rfl
      rw [chainBytes, hold.bytes, hsize, hbytes, ImgUtils.chainBytes, hnext]

end TiffWriter

end MediaFramework.ImgUtils
