import MediaFramework.ImgUtils.TiffRuns

/-!
# Where IFDs are written

The places of the IFDs of a header, as the sizes of all that is in front of them tell, and that the bytes
of an IFD are at its place.
-/

namespace MediaFramework.ImgUtils

open Endian (encode)

variable {f g : Nat → Nat} {b c : Nat → Nat → List Byte} {big : Bool} {entry : TiffEntry}
  {entries before after : List (Nat × TiffEntry)} {ids : List Nat}

/-! ## IFDs that an entry holds -/

namespace TiffEntry

theorem room_congr (h : ∀ id ∈ entry.subs, f id = g id) : entry.room f = entry.room g := by
  cases entry with
  | values v => rfl
  | ifds mType mCount mData => exact congrArg List.sum (List.map_congr_left h)

theorem ifdsBytes_congr (h : ∀ id ∈ ids, f id = g id) (hb : ∀ id ∈ ids, b id = c id) (at' : Nat) :
    ifdsBytes f b ids at' = ifdsBytes g c ids at' := by
  induction ids generalizing at' with
  | nil => rfl
  | cons id ids ih =>
    obtain ⟨hid, hids⟩ := List.forall_mem_cons.mp h
    obtain ⟨hbid, hbids⟩ := List.forall_mem_cons.mp hb
    rw [ifdsBytes, ifdsBytes, hid, hbid, ih hids hbids]

theorem outside_congr (h : ∀ id ∈ entry.subs, f id = g id) (hb : ∀ id ∈ entry.subs, b id = c id)
    (at' : Nat) : entry.outside f b big at' = entry.outside g c big at' := by
  cases entry with
  | values v => rfl
  | ifds mType mCount mData => exact ifdsBytes_congr h hb at'

/-- Where IFDs begin that follow each other from an offset on. -/
def startsOf (f : Nat → Nat) : List Nat → Nat → List Nat
  | [], _ => []
  | id :: ids, at' => at' :: startsOf f ids (at' + f id)

theorem ifdsBytes_append (ids ids' : List Nat) (at' : Nat) :
    ifdsBytes f b (ids ++ ids') at' =
      ifdsBytes f b ids at' ++ ifdsBytes f b ids' (at' + (ids.map f).sum) := by
  induction ids generalizing at' with
  | nil => rfl
  | cons id ids ih =>
    rw [List.cons_append, ifdsBytes, ih, ifdsBytes, List.append_assoc, List.map_cons, List.sum_cons,
      Nat.add_assoc]

end TiffEntry

namespace TiffIfd

variable {ifd : TiffIfd}

theorem roomOf_append (before after : List (Nat × TiffEntry)) :
    roomOf f (before ++ after) = roomOf f before + roomOf f after := by
  rw [roomOf, List.map_append, List.sum_append]
  rfl

theorem infosOf_append (before after : List (Nat × TiffEntry)) (at' : Nat) :
    infosOf f big (before ++ after) at' =
      infosOf f big before at' ++ infosOf f big after (at' + roomOf f before) := by
  induction before generalizing at' with
  | nil => rfl
  | cons e before ih =>
    have hroom : roomOf f (e :: before) = e.2.room f + roomOf f before := List.sum_cons
    rw [List.cons_append, infosOf, ih, infosOf, List.append_assoc, hroom, Nat.add_assoc]

theorem outsideOf_append (before after : List (Nat × TiffEntry)) (at' : Nat) :
    outsideOf f b big (before ++ after) at' =
      outsideOf f b big before at' ++ outsideOf f b big after (at' + roomOf f before) := by
  induction before generalizing at' with
  | nil => rfl
  | cons e before ih =>
    have hroom : roomOf f (e :: before) = e.2.room f + roomOf f before := List.sum_cons
    rw [List.cons_append, outsideOf, ih, outsideOf, List.append_assoc, hroom, Nat.add_assoc]

theorem roomOf_congr (h : ∀ e ∈ entries, ∀ id ∈ e.2.subs, f id = g id) :
    roomOf f entries = roomOf g entries :=
  congrArg List.sum (List.map_congr_left fun e he => TiffEntry.room_congr (h e he))

theorem infosOf_congr (h : ∀ e ∈ entries, ∀ id ∈ e.2.subs, f id = g id) (at' : Nat) :
    infosOf f big entries at' = infosOf g big entries at' := by
  induction entries generalizing at' with
  | nil => rfl
  | cons e entries ih =>
    obtain ⟨he, hentries⟩ := List.forall_mem_cons.mp h
    rw [infosOf, infosOf, TiffEntry.room_congr he, ih hentries]

theorem outsideOf_congr (h : ∀ e ∈ entries, ∀ id ∈ e.2.subs, f id = g id)
    (hb : ∀ e ∈ entries, ∀ id ∈ e.2.subs, b id = c id) (at' : Nat) :
    outsideOf f b big entries at' = outsideOf g c big entries at' := by
  induction entries generalizing at' with
  | nil => rfl
  | cons e entries ih =>
    obtain ⟨he, hentries⟩ := List.forall_mem_cons.mp h
    obtain ⟨hbe, hbentries⟩ := List.forall_mem_cons.mp hb
    rw [outsideOf, outsideOf, TiffEntry.room_congr he, TiffEntry.outside_congr he hbe,
      ih hentries hbentries]

section

variable (h : ∀ id ∈ ifd.subs, f id = g id)
include h

theorem entries_congr : ∀ e ∈ ifd.mEntries.entries, ∀ id ∈ e.2.subs, f id = g id :=
  fun _ he id hid => h id (List.mem_flatMap_of_mem (List.mem_map_of_mem he) hid)

theorem full_congr : ifd.full f = ifd.full g := by
  rw [full, full, roomOf_congr (entries_congr h)]

theorem bytes_congr (hb : ∀ id ∈ ifd.subs, b id = c id) (hasNext : Bool) :
    ifd.bytes f b big hasNext = ifd.bytes g c big hasNext := by
  funext offset
  rw [bytes, bytes, table, table, infosOf_congr (entries_congr h), full_congr h,
    outsideOf_congr (entries_congr h) fun e he id hid =>
      hb id (List.mem_flatMap_of_mem (List.mem_map_of_mem he) hid)]

end

end TiffIfd

/-! ## Levels -/

namespace TiffWriter

variable {w : TiffWriter} {fuel fuel' id : Nat}

theorem SoundIfd.mono (h : w.SoundIfd fuel id) (hle : fuel ≤ fuel') : w.SoundIfd fuel' id := by
  induction fuel generalizing fuel' id with
  | zero => exact absurd h not_false
  | succ fuel ih =>
    obtain ⟨ifd, hifd, hsound, hsubs⟩ := h
    obtain ⟨fuel', rfl⟩ := Nat.exists_eq_add_of_le' (Nat.le_trans (Nat.le_add_left 1 fuel) hle)
    exact ⟨ifd, hifd, hsound, fun sub hsub => ih (hsubs sub hsub) (Nat.le_of_succ_le_succ hle)⟩

/-- More levels than there are make no difference. -/
theorem SoundIfd.stable (h : w.SoundIfd fuel id) (hle : fuel ≤ fuel') :
    w.ifdFull fuel' id = w.ifdFull fuel id ∧
      ∀ big hasNext, w.ifdBytes big fuel' hasNext id = w.ifdBytes big fuel hasNext id := by
  induction fuel generalizing fuel' id with
  | zero => exact absurd h not_false
  | succ fuel ih =>
    obtain ⟨ifd, hifd, -, hsubs⟩ := h
    obtain ⟨fuel', rfl⟩ := Nat.exists_eq_add_of_le' (Nat.le_trans (Nat.le_add_left 1 fuel) hle)
    have hsame := fun sub hsub => ih (hsubs sub hsub) (Nat.le_of_succ_le_succ hle)
    have hfull : ∀ sub ∈ ifd.subs, w.ifdFull fuel' sub = w.ifdFull fuel sub := fun sub hsub =>
      (hsame sub hsub).1
    refine ⟨?_, fun big hasNext => ?_⟩
    · rw [ifdFull, ifdFull, hifd, Option.elim_some, Option.elim_some, TiffIfd.full_congr hfull]
    · funext offset
      rw [ifdBytes, ifdBytes, hifd, Option.elim_some, Option.elim_some,
        TiffIfd.bytes_congr hfull fun sub hsub => (hsame sub hsub).2 big false]

/-- The bytes of an IFD without one behind it, at an offset. -/
def subBytes (w : TiffWriter) (big : Bool) : Nat → Nat → List Byte :=
  w.ifdBytes big w.mNamedIfds.size false

/-- An IFD that is written, by those that it holds. -/
theorem SoundIfd.unfold (h : w.SoundIfd w.mNamedIfds.size id) :
    ∃ ifd, w.mNamedIfds.find? id = some ifd ∧ ifd.Sound ∧
      (∀ sub ∈ ifd.subs, w.SoundIfd w.mNamedIfds.size sub) ∧ w.full id = ifd.full w.full ∧
      ∀ big hasNext, w.ifdBytes big w.mNamedIfds.size hasNext id =
        ifd.bytes w.full (w.subBytes big) big hasNext := by
  cases hsize : w.mNamedIfds.size with
  | zero =>
    rw [hsize] at h
    exact absurd h not_false
  | succ fuel =>
    rw [hsize] at h
    obtain ⟨ifd, hifd, hsound, hsubs⟩ := h
    have hsame := fun sub hsub => (hsubs sub hsub).stable (Nat.le_succ fuel)
    have hfull : ∀ sub ∈ ifd.subs, w.ifdFull fuel sub = w.full sub := by
      intro sub hsub
      rw [full, hsize]
      exact (hsame sub hsub).1.symm
    refine ⟨ifd, hifd, hsound, fun sub hsub => (hsubs sub hsub).mono (Nat.le_succ fuel), ?_,
      fun big hasNext => ?_⟩
    · rw [full, hsize, ifdFull, hifd, Option.elim_some, TiffIfd.full_congr hfull]
    · funext offset
      rw [ifdBytes, hifd, Option.elim_some]
      refine congrFun (TiffIfd.bytes_congr hfull (fun sub hsub => ?_) hasNext) offset
      rw [subBytes, hsize]
      exact ((hsame sub hsub).2 big false).symm

/-! ## Places -/

/-- Where an IFD is written: behind the file header and the IFDs that are in front of it in the chain, or
behind the table of the IFD that holds it and all that is in front of it there. -/
inductive Placed (w : TiffWriter) : Nat → Nat → Prop
  | chain {before after : List Nat} {id : Nat} (hchain : w.mIfd = before ++ id :: after) :
    Placed w id (FILE_HEADER_SIZE + w.chainFull before)
  | sub {parent at' tag id : Nat} {ifd : TiffIfd} {entry : TiffEntry} {ids ids' : List Nat}
      {before after : List (Nat × TiffEntry)} (hparent : Placed w parent at')
      (hifd : w.mNamedIfds.find? parent = some ifd)
      (hentries : ifd.mEntries.entries = before ++ (tag, entry) :: after)
      (hsubs : entry.subs = ids ++ id :: ids') :
    Placed w id (ifd.valueOffset at' + TiffIfd.roomOf w.full before + (ids.map w.full).sum)

variable {bytes : List Byte} {at' tag : Nat} {chain chain' : List Nat}

theorem SoundIfd.length_ifdBytes (h : w.SoundIfd fuel id) (hasNext : Bool) (at' : Nat) :
    (w.ifdBytes big fuel hasNext id at').length = w.ifdFull fuel id := (correct h hasNext).length at'

theorem SoundIfd.length_subBytes (h : w.SoundIfd w.mNamedIfds.size id) (at' : Nat) :
    (w.subBytes big id at').length = w.full id := h.length_ifdBytes false at'

theorem chain_window (hsound : ∀ id ∈ chain, w.SoundIfd w.mNamedIfds.size id)
    (h : Window bytes at' (w.chainBytes big (chain ++ id :: chain') at')) :
    ∃ hasNext, Window bytes (at' + w.chainFull chain)
      (w.ifdBytes big w.mNamedIfds.size hasNext id (at' + w.chainFull chain)) := by
  induction chain generalizing at' with
  | nil => exact ⟨_, h.left⟩
  | cons first chain ih =>
    obtain ⟨hfirst, hchain⟩ := List.forall_mem_cons.mp hsound
    have hsum : w.chainFull (first :: chain) = w.full first + w.chainFull chain := List.sum_cons
    rw [List.cons_append, chainBytes] at h
    have hrest := h.right
    rw [hfirst.length_ifdBytes, ← full] at hrest
    rw [hsum, ← Nat.add_assoc]
    exact ih hchain hrest

/-- The table of an IFD, and the values of an entry. -/
theorem bytes_window {ifd : TiffIfd} {hasNext : Bool} (hsound : ifd.Sound)
    (hsubs : ∀ sub ∈ ifd.subs, w.SoundIfd w.mNamedIfds.size sub)
    (hentries : ifd.mEntries.entries = before ++ (tag, entry) :: after)
    (h : Window bytes at' (ifd.bytes w.full (w.subBytes big) big hasNext at')) :
    Window bytes (ifd.valueOffset at' + TiffIfd.roomOf w.full before)
      (entry.outside w.full (w.subBytes big) big (ifd.valueOffset at' + TiffIfd.roomOf w.full before)) := by
  have hall : ∀ e ∈ before, e ∈ ifd.mEntries.entries := by
    intro e he
    rw [hentries]
    exact List.mem_append_left _ he
  have hlength : (TiffIfd.outsideOf w.full (w.subBytes big) big before (ifd.valueOffset at')).length =
      TiffIfd.roomOf w.full before :=
    TiffIfd.length_outsideOf (fun e he => hsound.entries_sound e (hall e he))
      (fun e he id hid => (hsubs id (mem_subs.mpr ⟨e, hall e he, hid⟩)).length_subBytes) _
  rw [TiffIfd.bytes, hentries, TiffIfd.outsideOf_append] at h
  have hvalues := h.right
  rw [hsound.length_table] at hvalues
  have hentry := hvalues.right
  rw [hlength] at hentry
  exact hentry.left

theorem ifds_window {ids' : List Nat} (hsound : ∀ id ∈ ids, w.SoundIfd w.mNamedIfds.size id)
    (h : Window bytes at' (TiffEntry.ifdsBytes w.full (w.subBytes big) (ids ++ id :: ids') at')) :
    Window bytes (at' + (ids.map w.full).sum) (w.subBytes big id (at' + (ids.map w.full).sum)) := by
  rw [TiffEntry.ifdsBytes_append] at h
  have hlength : (TiffEntry.ifdsBytes w.full (w.subBytes big) ids at').length = (ids.map w.full).sum :=
    TiffEntry.length_ifdsBytes (fun id hid => (hsound id hid).length_subBytes) at'
  have hrest := h.right
  rw [hlength] at hrest
  exact hrest.left

/-- What is written at the place of an IFD. -/
theorem Placed.window (hplaced : w.Placed id at') (h : w.Sound) (big : Bool) :
    w.SoundIfd w.mNamedIfds.size id ∧
      ∃ hasNext, Window (w.bytes big) at' (w.ifdBytes big w.mNamedIfds.size hasNext id at') := by
  induction hplaced with
  | @chain before after id hchain =>
    have hall := h.ifds
    rw [hchain] at hall
    refine ⟨hall id (List.mem_append_right _ List.mem_cons_self), ?_⟩
    have hfile : Window (w.bytes big) 0 (headerBytes big ++ w.chainBytes big w.mIfd FILE_HEADER_SIZE) :=
      List.prefix_refl _
    have hbytes := hfile.right
    rw [length_headerBytes, Nat.zero_add, hchain] at hbytes
    exact chain_window (fun id hid => hall id (List.mem_append_left _ hid)) hbytes
  | @sub parent at' tag id ifd entry ids ids' before after _ hifd hentries hsubs ih =>
    obtain ⟨hsound, hasNext, hwindow⟩ := ih
    obtain ⟨ifd', hifd', hiSound, hall, -, hbytes⟩ := hsound.unfold
    obtain rfl : ifd' = ifd := Option.some.inj (hifd'.symm.trans hifd)
    have hmem : ∀ sub ∈ entry.subs, sub ∈ ifd'.subs := by
      intro sub hsub
      rw [mem_subs, hentries]
      exact ⟨(tag, entry), List.mem_append_right _ List.mem_cons_self, hsub⟩
    rw [hbytes] at hwindow
    have hvalues := bytes_window hiSound hall hentries hwindow
    cases entry with
    | values v => exact absurd hsubs.symm (List.append_ne_nil_of_right_ne_nil _ (List.cons_ne_nil _ _))
    | ifds mType mCount mData =>
      have hdata : mData = ids ++ id :: ids' := hsubs
      rw [TiffEntry.outside, hdata] at hvalues
      rw [hsubs] at hmem
      refine ⟨hall id (hmem id (List.mem_append_right _ List.mem_cons_self)), false, ?_⟩
      exact ifds_window (fun id hid => hall id (hmem id (List.mem_append_left _ hid))) hvalues

end TiffWriter

end MediaFramework.ImgUtils
