import MediaFramework.Foundation.MessageParcel

/-!
# Messages read back from parcels

What `FromParcel` makes of the data that `writeToParcel` has written.
-/

namespace MediaFramework.Foundation

variable {F : ParcelFormat} {level : Nat} {m : AMessage} {items : List Item}

/-! ### Messages that cross process boundaries -/

/-- A value of the types of parcels other than messages; strings have no NUL. -/
def Value.Simple : Value → Prop
  | .int32Value _ => True
  | .int64Value _ => True
  | .sizeValue _ => True
  | .floatValue _ _ => True
  | .doubleValue _ => True
  | .stringValue v => 0 ∉ v
  | _ => False

/-- Messages of such values and messages, nested at most so deep. -/
inductive AMessage.Parcelable : Nat → AMessage → Prop
  | intro {level : Nat} {m : AMessage} (fits : m.mItems.length ≤ AMessage.kMaxNumItems)
      (kinds : ∀ item ∈ m.mItems, item.2.Simple ∨ ∃ m', item.2 = .messageValue (some m'))
      (deep : ∀ item ∈ m.mItems, ∀ m', item.2 = .messageValue (some m') → 0 < level)
      (nested : ∀ item ∈ m.mItems, ∀ m', item.2 = .messageValue (some m') →
        Parcelable (level - 1) m') :
      Parcelable level m

theorem AMessage.Parcelable.simple {what : BitVec 32} (fits : items.length ≤ AMessage.kMaxNumItems)
    (h : ∀ item ∈ items, item.2.Simple) : (AMessage.mk what items).Parcelable level := by
  have hnone : ∀ item ∈ items, ∀ m', item.2 ≠ .messageValue (some m') := by
    intro item hitem m' hm'
    have hsimple := h item hitem
    rw [hm'] at hsimple
    exact hsimple
  exact .intro fits (fun item hitem => .inl (h item hitem))
    (fun item hitem m' hm' => absurd hm' (hnone item hitem m'))
    (fun item hitem m' hm' => absurd hm' (hnone item hitem m'))

/-! ### What is read back -/

mutual

/-- The message with the sizes that are read back, and with floats that leave the rest of their
union at zero. -/
def AMessage.readBack : AMessage → AMessage
  | .mk mWhat mItems => .mk mWhat (readBackItems mItems)

def readBackItems : List Item → List Item
  | [] => []
  | (mName, value) :: items => (mName, value.readBack) :: readBackItems items

def Value.readBack : Value → Value
  | .sizeValue v => .sizeValue ((v.setWidth 32).signExtend 64)
  | .floatValue v _ => .floatValue v 0
  | .messageValue (some m) => .messageValue (some m.readBack)
  | v => v

end

mutual

/-- The message without what its floats leave of their union. -/
def AMessage.visible : AMessage → AMessage
  | .mk mWhat mItems => .mk mWhat (visibleItems mItems)

def visibleItems : List Item → List Item
  | [] => []
  | (mName, value) :: items => (mName, value.visible) :: visibleItems items

def Value.visible : Value → Value
  | .floatValue v _ => .floatValue v 0
  | .messageValue (some m) => .messageValue (some m.visible)
  | v => v

end

mutual

/-- Each size is that of a 32-bit number with its sign. -/
def AMessage.SizesFit : AMessage → Prop
  | .mk _ mItems => SizesFitItems mItems

def SizesFitItems : List Item → Prop
  | [] => True
  | (_, value) :: items => value.SizesFit ∧ SizesFitItems items

def Value.SizesFit : Value → Prop
  | .sizeValue v => v.toNat < 2 ^ 31 ∨ 2 ^ 64 - 2 ^ 31 ≤ v.toNat
  | .messageValue (some m) => m.SizesFit
  | _ => True

end

theorem signExtend_setWidth_iff (v : BitVec 64) :
    (v.setWidth 32).signExtend 64 = v ↔ v.toNat < 2 ^ 31 ∨ 2 ^ 64 - 2 ^ 31 ≤ v.toNat := by
  have hv := v.isLt
  rw [← BitVec.toInt_inj, BitVec.toInt_signExtend_of_le (by decide), BitVec.toInt_eq_toNat_cond,
    BitVec.toInt_eq_toNat_cond, BitVec.toNat_setWidth]
  split <;> split <;> omega

mutual

theorem AMessage.visible_readBack_iff : ∀ m : AMessage,
    m.readBack.visible = m.visible ↔ m.SizesFit
  | .mk mWhat mItems => by
    rw [AMessage.readBack, AMessage.visible, AMessage.visible, AMessage.mk.injEq,
      eq_self_iff_true, true_and, AMessage.SizesFit, visibleItems_readBack_iff]

theorem visibleItems_readBack_iff : ∀ items : List Item,
    visibleItems (readBackItems items) = visibleItems items ↔ SizesFitItems items
  | [] => iff_of_true rfl trivial
  | (mName, value) :: items => by
    rw [readBackItems, visibleItems, visibleItems, List.cons.injEq, Prod.mk.injEq,
      eq_self_iff_true, true_and, SizesFitItems, Value.visible_readBack_iff,
      visibleItems_readBack_iff]

theorem Value.visible_readBack_iff : ∀ value : Value,
    value.readBack.visible = value.visible ↔ value.SizesFit
  | .sizeValue v => by
    simp only [Value.readBack, Value.visible, Value.sizeValue.injEq, Value.SizesFit,
      signExtend_setWidth_iff]
  | .messageValue (some m) => by
    rw [Value.readBack, Value.visible, Value.visible, Value.messageValue.injEq, Option.some.injEq,
      Value.SizesFit, AMessage.visible_readBack_iff]
  | .messageValue none => iff_of_true rfl trivial
  | .int32Value _ => iff_of_true rfl trivial
  | .int64Value _ => iff_of_true rfl trivial
  | .floatValue _ _ => iff_of_true rfl trivial
  | .doubleValue _ => iff_of_true rfl trivial
  | .ptrValue _ => iff_of_true rfl trivial
  | .stringValue _ => iff_of_true rfl trivial
  | .objectValue _ => iff_of_true rfl trivial
  | .rectValue _ _ _ _ => iff_of_true rfl trivial
  | .bufferValue _ => iff_of_true rfl trivial

end

/-! ### Reading what has been written -/

namespace AMessage

/-- The reading of the messages that a message has, one level further down. -/
def subReader (F : ParcelFormat) : Nat → Option (Reading → Option RawMessage × Reading)
  | 0 => none
  | level + 1 => some (fromParcel F level)

theorem fromParcel_eq : fromParcel F level = readMessage F (subReader F level) := by
  cases level <;> rfl

/-- Written data from which a message of the level is read back. -/
def Restores (F : ParcelFormat) (level : Nat) (m : AMessage) : Prop :=
  ∃ data, m.writeToParcel F = some data ∧ ∀ s rest, s.parcel = data ++ rest →
    ∃ msg s', fromParcel F level s = (some msg, s') ∧ s'.parcel = rest ∧
      msg.message = m.readBack

/-- The same for the value of an item. -/
def RestoresValue (F : ParcelFormat) (level : Nat) (value : Value) : Prop :=
  ∃ data, writeValue F value = some data ∧ ∀ s rest, s.parcel = data ++ rest →
    ∃ u s', readValue F (subReader F level) value.mType.number s = (.value u, s') ∧
      s'.parcel = rest ∧ u.value = value.readBack

theorem restoresValue_plain {α : Type} (read : List (BitVec 8) → α × List (BitVec 8))
    (make : α → Value) {value : Value} {data : List (BitVec 8)} {v : α}
    (hread : ∀ s, readValue F (subReader F level) value.mType.number s = readPlain read make s)
    (hwrite : writeValue F value = some data) (hdata : ∀ rest, read (data ++ rest) = (v, rest))
    (hback : make v = value.readBack) : RestoresValue F level value := by
  refine ⟨data, hwrite, fun s rest hs =>
    ⟨.plain (make v), { s with parcel := rest }, ?_, rfl, hback⟩⟩
  rw [hread, readPlain, hs, hdata]

theorem bytes_ofBytes {v : List (BitVec 8)} (h : 0 ∉ v) : (CString.ofBytes v).bytes = v := by
  refine List.takeWhile_eq_self_iff.mpr fun b hb => ?_
  rw [decide_eq_true_eq]
  rintro rfl
  exact h hb

theorem restoresValue_simple (hF : F.ReadsWritten) {value : Value} (h : value.Simple) :
    RestoresValue F level value := by
  cases value with
  | int32Value v =>
    exact restoresValue_plain F.readInt32 .int32Value (fun _ => rfl) rfl (hF.int32 v) rfl
  | int64Value v =>
    exact restoresValue_plain F.readInt64 .int64Value (fun _ => rfl) rfl (hF.int64 v) rfl
  | sizeValue v =>
    exact restoresValue_plain F.readInt32 (fun v => .sizeValue (v.signExtend 64)) (fun _ => rfl) rfl
      (hF.int32 (v.setWidth 32)) rfl
  | floatValue v upper =>
    exact restoresValue_plain F.readFloat (fun v => .floatValue v 0) (fun _ => rfl) rfl
      (hF.float v) rfl
  | doubleValue v =>
    exact restoresValue_plain F.readDouble .doubleValue (fun _ => rfl) rfl (hF.double v) rfl
  | stringValue v =>
    refine ⟨_, rfl, fun s rest hs => ⟨.string s.allocated (.ofBytes v),
      { s with parcel := rest, allocated := s.allocated + 1 }, ?_, rfl, ?_⟩⟩
    · change readString F s = _
      rw [readString, hs, hF.cString]
    · exact congrArg Value.stringValue (bytes_ofBytes h)
  | _ => exact absurd h id

theorem restoresValue_message {m' : AMessage} (hlevel : 0 < level) (h : Restores F (level - 1) m') :
    RestoresValue F level (.messageValue (some m')) := by
  obtain ⟨data, hdata, hread⟩ := h
  obtain ⟨l, rfl⟩ := Nat.exists_eq_add_of_lt hlevel
  rw [Nat.zero_add, Nat.add_sub_cancel] at hread
  rw [Nat.zero_add]
  refine ⟨data, by rw [writeValue, hdata], fun s rest hs => ?_⟩
  obtain ⟨msg, s', hmsg, hrest, hback⟩ := hread s rest hs
  refine ⟨.message msg.ref msg.message, s', ?_, hrest, ?_⟩
  · change readSubMessage (some (fromParcel F l)) s = _
    rw [readSubMessage, hmsg]
  · rw [Contents.value, hback, Value.readBack]

/-- The loop appends the items that have been written. -/
theorem readItems_written (hF : F.ReadsWritten) (h : ∀ item ∈ items, RestoresValue F level item.2) :
    ∃ data, writeItems F items = some data ∧ ∀ msg s rest, s.parcel = data ++ rest →
      ∃ msg' s', readItems F (subReader F level) items.length msg s = (true, msg', s') ∧
        s'.parcel = rest ∧ msg'.mWhat = msg.mWhat ∧ msg'.mNumItems = msg.mNumItems ∧
        msg'.mItems.length = msg.mItems.length + items.length ∧
        msg'.mItems.filterMap Slot.item = msg.mItems.filterMap Slot.item ++ readBackItems items := by
  induction items with
  | nil =>
    refine ⟨[], rfl, fun msg s rest hs => ⟨msg, s, rfl, hs, rfl, rfl, rfl, ?_⟩⟩
    rw [readBackItems, List.append_nil]
  | cons item items ih =>
    obtain ⟨name, value⟩ := item
    obtain ⟨⟨data, hdata, hvalue⟩, h⟩ := List.forall_mem_cons.mp h
    obtain ⟨tail, htail, ih⟩ := ih h
    refine ⟨F.writeCString name ++ (F.writeInt32 value.mType.number ++ (data ++ tail)), ?_, ?_⟩
    · rw [writeItems, hdata, htail]
      rfl
    · intro msg s rest hs
      obtain ⟨u, s₁, hread, hs₁, hu⟩ := hvalue { s with parcel := data ++ (tail ++ rest) } (tail ++ rest) rfl
      obtain ⟨msg', s', hitems, hrest, hwhat, hnum, hlength, hback⟩ :=
        ih { msg with mItems := msg.mItems ++ [⟨some (s₁.allocated, name), value.mType.number, some u⟩] }
          { s₁ with allocated := s₁.allocated + 1 } rest hs₁
      refine ⟨msg', s', ?_, hrest, hwhat, hnum, ?_, ?_⟩
      · simp only [List.length_cons, readItems, hs, List.append_assoc, hF.cString, hF.int32, hread]
        exact hitems
      · rw [hlength, List.length_append, List.length_singleton, List.length_cons]
        omega
      · rw [hback, List.filterMap_append, List.append_assoc, readBackItems]
        congr 1
        simp [Slot.item, hu]

theorem itemCount_ofNat {n : Nat} (h : n ≤ kMaxNumItems) : itemCount (.ofNat 32 n) = n := by
  have hmax : kMaxNumItems = 64 := rfl
  have hmsb : (BitVec.ofNat 32 n).msb = false := by
    rw [BitVec.msb_eq_decide, BitVec.toNat_ofNat]
    simp
    omega
  rw [itemCount, BitVec.signExtend_eq_setWidth_of_msb_false hmsb, BitVec.toNat_setWidth,
    BitVec.toNat_ofNat]
  omega

theorem restores (hF : F.ReadsWritten) (hm : m.Parcelable level) : Restores F level m := by
  induction hm with
  | @intro level m fits kinds deep nested ih =>
    obtain ⟨mWhat, mItems⟩ := m
    have hvalues : ∀ item ∈ mItems, RestoresValue F level item.2 := by
      intro item hitem
      obtain hsimple | ⟨m', hm'⟩ := kinds item hitem
      · exact restoresValue_simple hF hsimple
      · rw [hm']
        exact restoresValue_message (deep item hitem m' hm') (ih item hitem m' hm')
    obtain ⟨data, hdata, hread⟩ := readItems_written hF hvalues
    refine ⟨F.writeInt32 mWhat ++ (F.writeInt32 (.ofNat 32 mItems.length) ++ data), ?_, ?_⟩
    · rw [writeToParcel, hdata]
      rfl
    · intro s rest hs
      obtain ⟨msg, s', hitems, hrest, hwhat, hnum, hlength, hback⟩ :=
        hread ⟨s.allocated, mWhat, [], mItems.length⟩ ⟨data ++ rest, s.allocated + 1, s.created⟩
          rest rfl
      refine ⟨msg, { s' with created := s'.created ++ [msg] }, ?_, hrest, ?_⟩
      · have hcount : itemCount (.ofNat 32 mItems.length) = mItems.length := itemCount_ofNat fits
        rw [fromParcel_eq]
        simp only [readMessage, hs, List.append_assoc, hF.int32, hcount, hitems]
        rfl
      · have htake : msg.mItems.take msg.mNumItems = msg.mItems := by
          refine List.take_of_length_le ?_
          rw [hlength, hnum]
          simp
        rw [RawMessage.message, htake, hback, hwhat, readBack]
        rfl

/-! ### Messages one behind the other -/

def writeAll (F : ParcelFormat) : List AMessage → Option (List (BitVec 8))
  | [] => some []
  | m :: ms => do
    let data ← m.writeToParcel F
    let rest ← writeAll F ms
    return data ++ rest

def fromParcelAll (F : ParcelFormat) (level : Nat) : Nat → Reading → List (Option RawMessage) × Reading
  | 0, s => ([], s)
  | n + 1, s =>
    let (msg, s) := fromParcel F level s
    let (msgs, s) := fromParcelAll F level n s
    (msg :: msgs, s)

/-- Reading as many messages as have been written gives the same ones, with their items in order,
and uses up just their data. -/
def ReadsBack (F : ParcelFormat) (level : Nat) (ms : List AMessage) : Prop :=
  ∃ data, writeAll F ms = some data ∧ ∀ s rest, s.parcel = data ++ rest →
    ∃ (msgs : List RawMessage) (s' : Reading), fromParcelAll F level ms.length s = (msgs.map some, s') ∧ s'.parcel = rest ∧
      msgs.map (fun msg => msg.message.visible) = ms.map visible

theorem readsAll (hF : F.ReadsWritten) {ms : List AMessage} (hms : ∀ m ∈ ms, m.Parcelable level) :
    ∃ data, writeAll F ms = some data ∧ ∀ s rest, s.parcel = data ++ rest →
      ∃ (msgs : List RawMessage) (s' : Reading), fromParcelAll F level ms.length s = (msgs.map some, s') ∧ s'.parcel = rest ∧
        msgs.map RawMessage.message = ms.map readBack := by
  induction ms with
  | nil => exact ⟨[], rfl, fun s rest hs => ⟨[], s, rfl, hs, rfl⟩⟩
  | cons m ms ih =>
    obtain ⟨hm, hms⟩ := List.forall_mem_cons.mp hms
    obtain ⟨data, hdata, hread⟩ := restores hF hm
    obtain ⟨tail, htail, ih⟩ := ih hms
    refine ⟨data ++ tail, by rw [writeAll, hdata, htail]; rfl, fun s rest hs => ?_⟩
    rw [List.append_assoc] at hs
    obtain ⟨msg, s₁, hmsg, hs₁, hback⟩ := hread s _ hs
    obtain ⟨msgs, s', hmsgs, hrest, hbacks⟩ := ih s₁ rest hs₁
    refine ⟨msg :: msgs, s', ?_, hrest, by rw [List.map_cons, List.map_cons, hback, hbacks]⟩
    simp only [List.length_cons, fromParcelAll, hmsg, hmsgs, List.map_cons]

theorem readsBack_iff (hF : F.ReadsWritten) {ms : List AMessage}
    (hms : ∀ m ∈ ms, m.Parcelable level) : ReadsBack F level ms ↔ ∀ m ∈ ms, m.SizesFit := by
  obtain ⟨data, hdata, hread⟩ := readsAll hF hms
  have hvisible : ∀ msgs : List RawMessage, msgs.map RawMessage.message = ms.map readBack →
      (msgs.map (fun msg => msg.message.visible) = ms.map visible ↔ ∀ m ∈ ms, m.SizesFit) := by
    intro msgs hmsgs
    have hmap : msgs.map (fun msg => msg.message.visible) = ms.map fun m => m.readBack.visible := by
      have := congrArg (List.map visible) hmsgs
      rwa [List.map_map, List.map_map] at this
    rw [hmap, List.map_inj_left]
    exact forall₂_congr fun m _ => visible_readBack_iff m
  constructor
  · rintro ⟨data', hdata', hback⟩
    obtain rfl := Option.some.inj (hdata.symm.trans hdata')
    obtain ⟨msgs, s, hmsgs, -, heq⟩ := hread ⟨data, 0, []⟩ [] (List.append_nil _).symm
    obtain ⟨msgs', s', hmsgs', -, hsame⟩ := hback ⟨data, 0, []⟩ [] (List.append_nil _).symm
    have hmap := (Prod.mk.inj (hmsgs.symm.trans hmsgs')).1
    obtain rfl := List.map_injective_iff.mpr (Option.some_injective _) hmap
    exact (hvisible msgs heq).mp hsame
  · intro hfit
    refine ⟨data, hdata, fun s rest hs => ?_⟩
    obtain ⟨msgs, s', hmsgs, hrest, heq⟩ := hread s rest hs
    exact ⟨msgs, s', hmsgs, hrest, (hvisible msgs heq).mpr hfit⟩

/-- Two messages, the first with another message in it. -/
theorem readsBack_two :
    ReadsBack .padded 1
      [mk 1 [(.ofBytes [97], .int32Value 5),
          (.ofBytes [98], .messageValue (some (mk 2 [(.ofBytes [99], .sizeValue 3)])))],
        mk 3 [(.ofBytes [97], .stringValue [104, 105])]] := by
  have hinner : (mk 2 [(.ofBytes [99], .sizeValue 3)]).Parcelable 0 :=
    .simple (by decide) (List.forall_mem_singleton.mpr trivial)
  rw [readsBack_iff ParcelFormat.padded_readsWritten]
  · refine List.forall_mem_cons.mpr ⟨⟨trivial, ⟨.inl (by decide), trivial⟩, trivial⟩, ?_⟩
    exact List.forall_mem_singleton.mpr ⟨trivial, trivial⟩
  · refine List.forall_mem_cons.mpr ⟨.intro (by decide) ?_ (fun _ _ _ _ => Nat.one_pos) ?_, ?_⟩
    · exact List.forall_mem_cons.mpr ⟨.inl trivial, List.forall_mem_singleton.mpr (.inr ⟨_, rfl⟩)⟩
    · refine List.forall_mem_cons.mpr ⟨?_, List.forall_mem_singleton.mpr ?_⟩
      · rintro m' ⟨⟩
      rintro m' h
      obtain rfl := Option.some.inj (Value.messageValue.inj h)
      exact hinner
    · refine List.forall_mem_singleton.mpr (.simple (by decide) (List.forall_mem_singleton.mpr ?_))
      show 0 ∉ [104, 105]
      decide

/-- A size of `2 ^ 31` comes back with its upper half set. -/
theorem size_not_read_back : ¬ReadsBack .padded 255 [mk 1 [(.ofBytes [97], .sizeValue 0x80000000)]] := by
  have hm : ∀ m ∈ [mk 1 [(.ofBytes [97], .sizeValue 0x80000000)]], m.Parcelable 255 :=
    List.forall_mem_singleton.mpr (.simple (by decide) (List.forall_mem_singleton.mpr trivial))
  obtain ⟨data, hdata, hread⟩ := readsAll ParcelFormat.padded_readsWritten hm
  rintro ⟨data', hdata', hback⟩
  obtain rfl := Option.some.inj (hdata.symm.trans hdata')
  obtain ⟨msgs, s, hmsgs, -, heq⟩ := hread ⟨data, 0, []⟩ [] (List.append_nil _).symm
  obtain ⟨msgs', s', hmsgs', -, hsame⟩ := hback ⟨data, 0, []⟩ [] (List.append_nil _).symm
  have hmap := (Prod.mk.inj (hmsgs.symm.trans hmsgs')).1
  obtain rfl := List.map_injective_iff.mpr (Option.some_injective _) hmap
  have hvisible := congrArg (List.map visible) heq
  rw [List.map_map] at hvisible
  have hfits := (visible_readBack_iff _).mp (List.cons.inj (hvisible.symm.trans hsame)).1
  revert hfits
  rintro ⟨h | h, -⟩ <;> revert h <;> decide

end AMessage

end MediaFramework.Foundation
