import MediaFramework.Foundation.MessageParcel

/-!
# Hostile parcels

What the messages that `FromParcel` has created look like when they are destroyed, for any content
of the parcel and any behaviour of its readers.
-/

namespace MediaFramework.Foundation

/-- The types whose values an item owns. -/
def ItemType.owned : ItemType → Bool
  | kTypeString => true
  | kTypeObject => true
  | kTypeMessage => true
  | kTypeBuffer => true
  | _ => false

namespace AMessage

variable {F : ParcelFormat} {subMessage : Option (Reading → Option RawMessage × Reading)}
  {sub : List (BitVec 8) → List (BitVec 8) → Prop} {level n : Nat} {mType : BitVec 32}
  {msg msg' : RawMessage} {s s' s₁ s₂ : Reading} {refs refs' : List Nat} {u : Contents}

/-! ### What destruction needs -/

/-- What has been allocated for the contents. -/
def Contents.allocations : Contents → List Nat
  | plain _ => []
  | string ref _ => [ref]
  | message ref _ => [ref]

/-- Contents that have been created for an item of the type. -/
def Contents.MadeFor (type : ItemType) : Contents → Prop
  | plain _ => False
  | string _ _ => type = .kTypeString
  | message _ _ => type = .kTypeMessage

/-- An item with a name and, where it owns a value, with one that was created for it. -/
structure Slot.Complete (slot : Slot) : Prop where
  name : slot.mName.isSome
  value : ∀ type, ItemType.ofNumber slot.mType = some type → type.owned →
    ∃ u, slot.u = some u ∧ u.MadeFor type

def RawMessage.Complete (msg : RawMessage) : Prop :=
  ∀ i < msg.mNumItems, ∃ slot, msg.mItems[i]? = some slot ∧ slot.Complete

/-- What `freeItemValue` releases. -/
def Slot.valueRefs (slot : Slot) : List Nat :=
  match ItemType.ofNumber slot.mType, slot.u with
  | some type, some u => if type.owned then u.allocations else []
  | _, _ => []

/-- What `clear` releases. -/
def Slot.releases (slot : Slot) : List Nat :=
  (slot.mName.map Prod.fst).toList ++ slot.valueRefs

def RawMessage.releases (msg : RawMessage) : List Nat :=
  (msg.mItems.take msg.mNumItems).flatMap Slot.releases

/-- After a reading from the start, each item of each message can be destroyed, and all that was
allocated is released once: the message itself, and what the messages release. -/
structure Reading.Safe (s : Reading) : Prop where
  complete : ∀ msg ∈ s.created, msg.Complete
  once : (0 :: s.created.flatMap RawMessage.releases).Perm (List.range s.allocated)

/-! ### The parcels that can be read

The data of a message, up to where it ends; `sub` is that of the messages it has. -/

inductive ReadsValue (F : ParcelFormat) (sub : List (BitVec 8) → List (BitVec 8) → Prop) :
    BitVec 32 → List (BitVec 8) → List (BitVec 8) → Prop
  | int32 (p) : ReadsValue F sub ItemType.kTypeInt32.number p (F.readInt32 p).2
  | int64 (p) : ReadsValue F sub ItemType.kTypeInt64.number p (F.readInt64 p).2
  | size (p) : ReadsValue F sub ItemType.kTypeSize.number p (F.readInt32 p).2
  | float (p) : ReadsValue F sub ItemType.kTypeFloat.number p (F.readFloat p).2
  | double (p) : ReadsValue F sub ItemType.kTypeDouble.number p (F.readDouble p).2
  | string {p v p'} (h : F.readCString p = (some v, p')) :
      ReadsValue F sub ItemType.kTypeString.number p p'
  | message {p p'} (h : sub p p') : ReadsValue F sub ItemType.kTypeMessage.number p p'

inductive ReadsItems (F : ParcelFormat) (sub : List (BitVec 8) → List (BitVec 8) → Prop) :
    Nat → List (BitVec 8) → List (BitVec 8) → Prop
  | done (p) : ReadsItems F sub 0 p p
  | noName {n p p'} (h : F.readCString p = (none, p')) : ReadsItems F sub (n + 1) p p'
  | noString {n p name p₁ p₂ p'} (hname : F.readCString p = (some name, p₁))
      (htype : F.readInt32 p₁ = (ItemType.kTypeString.number, p₂))
      (hvalue : F.readCString p₂ = (none, p')) : ReadsItems F sub (n + 1) p p'
  | item {n p name p₁ mType p₂ p₃ p'} (hname : F.readCString p = (some name, p₁))
      (htype : F.readInt32 p₁ = (mType, p₂)) (hvalue : ReadsValue F sub mType p₂ p₃)
      (hitems : ReadsItems F sub n p₃ p') : ReadsItems F sub (n + 1) p p'

def ReadsMessage (F : ParcelFormat) (sub : List (BitVec 8) → List (BitVec 8) → Prop)
    (p p' : List (BitVec 8)) : Prop :=
  ReadsItems F sub (itemCount (F.readInt32 (F.readInt32 p).2).1) (F.readInt32 (F.readInt32 p).2).2 p'

/-- All types are known, and messages nested no deeper than `maxNestingLevel`, as far as the
reading goes. -/
def Readable (F : ParcelFormat) : Nat → List (BitVec 8) → List (BitVec 8) → Prop
  | 0 => ReadsMessage F fun _ _ => False
  | maxNestingLevel + 1 => ReadsMessage F (Readable F maxNestingLevel)

/-! ### One step after the other -/

/-- Messages that have been created are complete, and they and `refs` release what has been
allocated. -/
def Sound (s s' : Reading) (refs : List Nat) : Prop :=
  ∃ new n, s'.created = s.created ++ new ∧ (∀ msg ∈ new, msg.Complete) ∧
    s'.allocated = s.allocated + n ∧
    (refs ++ new.flatMap RawMessage.releases).Perm (List.range' s.allocated n)

theorem sound_parcel (s : Reading) (parcel : List (BitVec 8)) : Sound s { s with parcel } [] :=
  ⟨[], 0, (List.append_nil _).symm, fun _ h => absurd h List.not_mem_nil, rfl, .refl _⟩

theorem sound_allocate (s : Reading) (parcel : List (BitVec 8)) :
    Sound s { s with parcel, allocated := s.allocated + 1 } [s.allocated] :=
  ⟨[], 1, (List.append_nil _).symm, fun _ h => absurd h List.not_mem_nil, rfl, .refl _⟩

theorem Sound.trans (h : Sound s s₁ refs) (h' : Sound s₁ s₂ refs') :
    Sound s s₂ (refs ++ refs') := by
  obtain ⟨new, n, hcreated, hcomplete, hallocated, hperm⟩ := h
  obtain ⟨new', n', hcreated', hcomplete', hallocated', hperm'⟩ := h'
  refine ⟨new ++ new', n + n', ?_, ?_, ?_, ?_⟩
  · rw [hcreated', hcreated, List.append_assoc]
  · intro msg hmsg
    exact (List.mem_append.mp hmsg).elim (hcomplete msg) (hcomplete' msg)
  · rw [hallocated', hallocated, Nat.add_assoc]
  · rw [hallocated] at hperm'
    have hrange : List.range' s.allocated n ++ List.range' (s.allocated + n) n' =
        List.range' s.allocated (n + n') := by simp
    rw [List.flatMap_append, ← hrange]
    refine List.Perm.trans ?_ (hperm.append hperm')
    rw [List.append_assoc, List.append_assoc]
    refine .append_left _ ?_
    rw [← List.append_assoc, ← List.append_assoc]
    exact List.perm_append_comm.append_right _

theorem Sound.perm (h : Sound s s' refs) (hperm : refs'.Perm refs) : Sound s s' refs' := by
  obtain ⟨new, n, hcreated, hcomplete, hallocated, hrefs⟩ := h
  exact ⟨new, n, hcreated, hcomplete, hallocated, (hperm.append_right _).trans hrefs⟩

/-- What is known of the reading of the messages of a message. -/
def SubSound (subMessage : Option (Reading → Option RawMessage × Reading)) : Prop :=
  ∀ read ∈ subMessage, ∀ {s msg s'}, read s = (some msg, s') → Sound s s' [msg.ref]

/-- A value that is read is one for the type, and it owns what has been allocated for it. -/
theorem readValue_sound (hsub : SubSound subMessage)
    (h : readValue F subMessage mType s = (.value u, s')) :
    Sound s s' u.allocations ∧ ∃ type, ItemType.ofNumber mType = some type ∧
      (type.owned → u.MadeFor type) ∧ (type.owned = false → u.allocations = []) := by
  rw [readValue] at h
  split at h
  case h_6 htype =>
    rw [readString] at h
    split at h
    · cases h
    · next v parcel hread =>
      obtain ⟨hu, rfl⟩ := Prod.mk.inj h
      obtain rfl := ValueRead.value.inj hu
      exact ⟨sound_allocate s parcel, _, htype, fun _ => rfl, fun h => by cases h⟩
  case h_7 htype =>
    cases subMessage with
    | none => cases h
    | some read =>
      rw [readSubMessage] at h
      split at h
      · cases h
      · next subMsg s₁ hread =>
        obtain ⟨hu, rfl⟩ := Prod.mk.inj h
        obtain rfl := ValueRead.value.inj hu
        exact ⟨hsub read rfl hread, _, htype, fun _ => rfl, fun h => by cases h⟩
  case h_8 => cases h
  all_goals
    next htype =>
    obtain ⟨hu, rfl⟩ := Prod.mk.inj h
    obtain rfl := ValueRead.value.inj hu
    exact ⟨sound_parcel s _, _, htype, (fun h => by cases h), fun _ => rfl⟩

theorem readValue_noString (h : readValue F subMessage mType s = (.noString, s')) :
    Sound s s' [] := by
  rw [readValue] at h
  split at h
  case h_6 =>
    rw [readString] at h
    split at h
    · obtain ⟨-, rfl⟩ := Prod.mk.inj h
      exact sound_parcel s _
    · cases (Prod.mk.inj h).1
  case h_7 =>
    cases subMessage with
    | none => cases h
    | some read =>
      rw [readSubMessage] at h
      split at h <;> cases (Prod.mk.inj h).1
  all_goals cases (Prod.mk.inj h).1

theorem complete_slot (name : Nat × CString) (h : Sound s s' u.allocations ∧
    ∃ type, ItemType.ofNumber mType = some type ∧
      (type.owned → u.MadeFor type) ∧ (type.owned = false → u.allocations = [])) :
    Slot.Complete ⟨some name, mType, some u⟩ ∧
      Slot.releases ⟨some name, mType, some u⟩ = name.1 :: u.allocations := by
  obtain ⟨-, type, htype, hmade, hnone⟩ := h
  refine ⟨⟨rfl, fun type' htype' howned => ⟨u, rfl, ?_⟩⟩, ?_⟩
  · obtain rfl := Option.some.inj (htype.symm.trans htype')
    exact hmade howned
  · rw [Slot.releases, Slot.valueRefs]
    dsimp only
    rw [htype]
    cases howned : type.owned with
    | false => simp [howned, hnone howned]
    | true => simp [howned]

/-- The items that the loop appends are complete, where it does not return `NULL`. -/
theorem readItems_sound (hsub : SubSound subMessage) (hn : msg.mItems.length + n = msg.mNumItems)
    (h : readItems F subMessage n msg s = (true, msg', s')) :
    ∃ added, msg'.mItems.take msg'.mNumItems = msg.mItems ++ added ∧
      msg'.mNumItems = msg.mItems.length + added.length ∧ msg'.ref = msg.ref ∧
      (∀ slot ∈ added, slot.Complete) ∧ Sound s s' (added.flatMap Slot.releases) := by
  induction n generalizing msg s with
  | zero =>
    obtain ⟨rfl, rfl⟩ := Prod.mk.inj (Prod.mk.inj h).2
    refine ⟨[], ?_, hn.symm, rfl, fun _ h => absurd h List.not_mem_nil, sound_parcel s s.parcel⟩
    rw [List.append_nil, List.take_of_length_le (by omega)]
  | succ n ih =>
    rw [readItems] at h
    split at h
    · obtain ⟨rfl, rfl⟩ := Prod.mk.inj (Prod.mk.inj h).2
      refine ⟨[], ?_, rfl, rfl, fun _ h => absurd h List.not_mem_nil, sound_parcel s _⟩
      rw [List.append_nil, List.take_length]
    · next name parcel hname =>
      dsimp only at h
      split at h
      · next s₁ hvalue =>
        obtain ⟨rfl, rfl⟩ := Prod.mk.inj (Prod.mk.inj h).2
        refine ⟨[], ?_, rfl, rfl, fun _ h => absurd h List.not_mem_nil,
          (sound_parcel s _).trans (readValue_noString hvalue)⟩
        rw [List.append_nil, List.take_left]
      · cases (Prod.mk.inj h).1
      · next u s₁ hvalue =>
        have hread := readValue_sound hsub hvalue
        obtain ⟨hcomplete, hreleases⟩ := complete_slot (s₁.allocated, name) hread
        obtain ⟨added, htake, hnum, href, hadded, hsound⟩ := ih (by simp; omega) h
        refine ⟨_ :: added, ?_, ?_, href, List.forall_mem_cons.mpr ⟨hcomplete, hadded⟩, ?_⟩
        · rw [htake, List.append_assoc, List.singleton_append]
        · rw [hnum, List.length_append, List.length_singleton, List.length_cons]
          omega
        · have hall := ((sound_parcel s _).trans hread.1).trans
            ((sound_allocate s₁ s₁.parcel).trans hsound)
          have hperm : (s₁.allocated :: u.allocations ++ added.flatMap Slot.releases).Perm
              ([] ++ u.allocations ++ ([s₁.allocated] ++ added.flatMap Slot.releases)) := by
            rw [List.nil_append, ← List.append_assoc]
            exact (List.perm_append_singleton _ _).symm.append_right _
          rw [List.flatMap_cons, hreleases]
          exact hall.perm hperm

theorem readItems_null (hn : msg.mItems.length + n = msg.mNumItems)
    (h : readItems F subMessage n msg s = (false, msg', s')) : ¬msg'.Complete := by
  induction n generalizing msg s with
  | zero => cases (Prod.mk.inj h).1
  | succ n ih =>
    rw [readItems] at h
    split at h
    · cases (Prod.mk.inj h).1
    · next name parcel hname =>
      dsimp only at h
      split at h
      · cases (Prod.mk.inj h).1
      · obtain ⟨rfl, rfl⟩ := Prod.mk.inj (Prod.mk.inj h).2
        -- the item that was begun has no name
        intro hcomplete
        obtain ⟨slot, hslot, hname, -⟩ := hcomplete msg.mItems.length (by dsimp only; omega)
        rw [List.getElem?_concat_length] at hslot
        obtain rfl := Option.some.inj hslot
        cases hname
      · exact ih (by simp; omega) h

/-! ### Messages -/

/-- The parcel behind the numbers that a message begins with. -/
def behindCount (F : ParcelFormat) (parcel : List (BitVec 8)) : Nat × List (BitVec 8) :=
  (itemCount (F.readInt32 (F.readInt32 parcel).2).1, (F.readInt32 (F.readInt32 parcel).2).2)

theorem readMessage_eq {ok : Bool} (h : readItems F subMessage (behindCount F s.parcel).1
      ⟨s.allocated, (F.readInt32 s.parcel).1, [], (behindCount F s.parcel).1⟩
      { s with parcel := (behindCount F s.parcel).2, allocated := s.allocated + 1 } =
        (ok, msg, s₁)) :
    readMessage F subMessage s =
      (if ok then some msg else none, { s₁ with created := s₁.created ++ [msg] }) := by
  rw [readMessage]
  dsimp only [behindCount] at h ⊢
  rw [h]

theorem readMessage_cases (F : ParcelFormat)
    (subMessage : Option (Reading → Option RawMessage × Reading)) (s : Reading) :
    ∃ ok msg s₁, readItems F subMessage (behindCount F s.parcel).1
      ⟨s.allocated, (F.readInt32 s.parcel).1, [], (behindCount F s.parcel).1⟩
      { s with parcel := (behindCount F s.parcel).2, allocated := s.allocated + 1 } =
        (ok, msg, s₁) :=
  ⟨_, _, _, rfl⟩

theorem Sound.created (h : Sound s s₁ (refs ++ msg.releases)) (hcomplete : msg.Complete) :
    Sound s { s₁ with created := s₁.created ++ [msg] } refs := by
  obtain ⟨new, n, hcreated, hnew, hallocated, hperm⟩ := h
  refine ⟨new ++ [msg], n, ?_, ?_, hallocated, ?_⟩
  · rw [hcreated, List.append_assoc]
  · intro msg' hmsg'
    obtain h | h := List.mem_append.mp hmsg'
    · exact hnew msg' h
    · obtain rfl := List.mem_singleton.mp h
      exact hcomplete
  · rw [List.flatMap_append, List.flatMap_singleton]
    refine List.Perm.trans ?_ hperm
    rw [List.append_assoc]
    exact .append_left _ List.perm_append_comm

theorem readMessage_sound (hsub : SubSound subMessage)
    (h : readMessage F subMessage s = (some msg, s')) :
    Sound s s' [msg.ref] ∧ msg.ref = s.allocated := by
  obtain ⟨ok, msg', s₁, hitems⟩ := readMessage_cases F subMessage s
  rw [readMessage_eq hitems] at h
  cases ok with
  | false => cases (Prod.mk.inj h).1
  | true =>
    obtain ⟨hmsg, rfl⟩ := Prod.mk.inj h
    obtain rfl := Option.some.inj hmsg
    obtain ⟨added, htake, hnum, href, hadded, hsound⟩ :=
      readItems_sound hsub (Nat.zero_add _) hitems
    rw [List.nil_append] at htake
    rw [List.length_nil, Nat.zero_add] at hnum
    have hcomplete : msg'.Complete := by
      intro i hi
      have hadd : i < added.length := hnum ▸ hi
      have hget : msg'.mItems[i]? = some added[i] := by
        rw [← List.getElem?_eq_getElem hadd, ← htake, List.getElem?_take_of_lt hi]
      exact ⟨_, hget, hadded _ (List.getElem_mem hadd)⟩
    refine ⟨Sound.created ?_ hcomplete, href⟩
    rw [RawMessage.releases, htake, href]
    exact (sound_allocate s _).trans hsound

theorem readMessage_null (h : readMessage F subMessage s = (none, s')) :
    ∃ msg ∈ s'.created, ¬msg.Complete := by
  obtain ⟨ok, msg', s₁, hitems⟩ := readMessage_cases F subMessage s
  rw [readMessage_eq hitems] at h
  cases ok with
  | true => cases (Prod.mk.inj h).1
  | false =>
    obtain ⟨-, rfl⟩ := Prod.mk.inj h
    exact ⟨msg', List.mem_append_right _ (List.mem_singleton_self _),
      readItems_null (Nat.zero_add _) hitems⟩

theorem fromParcel_sound (h : fromParcel F level s = (some msg, s')) :
    Sound s s' [msg.ref] ∧ msg.ref = s.allocated := by
  induction level generalizing s msg s' with
  | zero => exact readMessage_sound (fun _ hread => by cases hread) h
  | succ level ih =>
    refine readMessage_sound (fun read hread s msg s' h => ?_) h
    obtain rfl := Option.some.inj hread
    exact (ih h).1

theorem fromParcel_null (h : fromParcel F level s = (none, s')) :
    ∃ msg ∈ s'.created, ¬msg.Complete := by
  cases level with
  | zero => exact readMessage_null h
  | succ level => exact readMessage_null h

/-! ### Which parcels can be read -/

/-- The reading of a message of the next level, where there is one, goes as far as `sub` says. -/
def SubReads (subMessage : Option (Reading → Option RawMessage × Reading))
    (sub : List (BitVec 8) → List (BitVec 8) → Prop) : Prop :=
  ∀ s rest, (∃ read ∈ subMessage, ∃ msg s', read s = (some msg, s') ∧ s'.parcel = rest) ↔
    sub s.parcel rest

theorem readsValue_of_value (hsub : SubReads subMessage sub)
    (h : readValue F subMessage mType s = (.value u, s')) :
    ReadsValue F sub mType s.parcel s'.parcel := by
  rw [readValue] at h
  split at h
  case h_6 htype =>
    obtain rfl := ItemType.number_of_ofNumber htype
    rw [readString] at h
    split at h
    · cases h
    · next v parcel hread =>
      obtain ⟨-, rfl⟩ := Prod.mk.inj h
      exact .string hread
  case h_7 htype =>
    obtain rfl := ItemType.number_of_ofNumber htype
    cases subMessage with
    | none => cases h
    | some read =>
      rw [readSubMessage] at h
      split at h
      · cases h
      · next subMsg s₁ hread =>
        obtain ⟨-, rfl⟩ := Prod.mk.inj h
        exact .message ((hsub s _).mp ⟨read, rfl, subMsg, _, hread, rfl⟩)
  case h_8 => cases h
  all_goals
    next htype =>
    obtain rfl := ItemType.number_of_ofNumber htype
    obtain ⟨-, rfl⟩ := Prod.mk.inj h
    constructor

theorem value_of_readsValue (hsub : SubReads subMessage sub) {rest : List (BitVec 8)}
    (h : ReadsValue F sub mType s.parcel rest) :
    ∃ u s', readValue F subMessage mType s = (.value u, s') ∧ s'.parcel = rest := by
  generalize hparcel : s.parcel = p at h
  cases h with
  | @string _ v _ h =>
    subst hparcel
    refine ⟨.string s.allocated v, { s with parcel := rest, allocated := s.allocated + 1 }, ?_, rfl⟩
    change readString F s = _
    rw [readString, h]
  | message h =>
    subst hparcel
    obtain ⟨read, hread, msg, s', hmsg, hrest⟩ := (hsub s rest).mpr h
    obtain rfl := Option.mem_def.mp hread
    refine ⟨.message msg.ref msg.message, s', ?_, hrest⟩
    change readSubMessage (some read) s = _
    rw [readSubMessage, hmsg]
  | _ =>
    subst hparcel
    exact ⟨_, _, rfl, rfl⟩

theorem noString_of_readCString
    (subMessage : Option (Reading → Option RawMessage × Reading)) {rest : List (BitVec 8)}
    (h : F.readCString s.parcel = (none, rest)) :
    readValue F subMessage ItemType.kTypeString.number s = (.noString, { s with parcel := rest }) := by
  change readString F s = _
  rw [readString, h]

theorem readCString_of_noString (h : readValue F subMessage mType s = (.noString, s')) :
    mType = ItemType.kTypeString.number ∧ F.readCString s.parcel = (none, s'.parcel) := by
  rw [readValue] at h
  split at h
  case h_6 htype =>
    refine ⟨(ItemType.number_of_ofNumber htype).symm, ?_⟩
    rw [readString] at h
    split at h
    · next parcel hread =>
      obtain ⟨-, rfl⟩ := Prod.mk.inj h
      exact hread
    · cases (Prod.mk.inj h).1
  case h_7 =>
    cases subMessage with
    | none => cases h
    | some read =>
      rw [readSubMessage] at h
      split at h <;> cases (Prod.mk.inj h).1
  all_goals cases (Prod.mk.inj h).1

theorem readItems_iff (hsub : SubReads subMessage sub) (msg : RawMessage)
    {rest : List (BitVec 8)} :
    (∃ msg' s', readItems F subMessage n msg s = (true, msg', s') ∧ s'.parcel = rest) ↔
      ReadsItems F sub n s.parcel rest := by
  induction n generalizing msg s with
  | zero =>
    constructor
    · rintro ⟨msg', s', h, rfl⟩
      obtain ⟨rfl, rfl⟩ := Prod.mk.inj (Prod.mk.inj h).2
      exact .done _
    · intro h
      generalize hparcel : s.parcel = p at h
      cases h
      exact ⟨msg, s, rfl, hparcel⟩
  | succ n ih =>
    constructor
    · rintro ⟨msg', s', h, rfl⟩
      rw [readItems] at h
      split at h
      · next parcel hname =>
        obtain ⟨rfl, rfl⟩ := Prod.mk.inj (Prod.mk.inj h).2
        exact .noName hname
      · next name parcel hname =>
        dsimp only at h
        split at h
        · next s₁ hvalue =>
          obtain ⟨rfl, rfl⟩ := Prod.mk.inj (Prod.mk.inj h).2
          obtain ⟨htype, hread⟩ := readCString_of_noString hvalue
          exact .noString hname (Prod.ext htype rfl) hread
        · cases (Prod.mk.inj h).1
        · next u s₁ hvalue =>
          have hitems := (ih _ (s := { s₁ with allocated := s₁.allocated + 1 })).mp
            ⟨msg', s', h, rfl⟩
          exact .item hname rfl (readsValue_of_value hsub hvalue) hitems
    · intro h
      generalize hparcel : s.parcel = p at h
      cases h with
      | noName h =>
        subst hparcel
        exact ⟨{ msg with mNumItems := msg.mItems.length }, { s with parcel := rest }, by rw [readItems, h], rfl⟩
      | @noString _ _ name p₁ p₂ _ hname htype hvalue =>
        subst hparcel
        have hnoString := noString_of_readCString subMessage
          (s := { s with parcel := p₂ }) hvalue
        refine ⟨{ msg with
          mItems := msg.mItems ++ [{ mType := ItemType.kTypeString.number }]
          mNumItems := msg.mItems.length }, { s with parcel := rest }, ?_, rfl⟩
        simp only [readItems, hname, htype, hnoString]
      | @item _ _ name p₁ mType p₂ p₃ _ hname htype hvalue hitems =>
        subst hparcel
        obtain ⟨u, s₁, hread, hs₁⟩ := value_of_readsValue hsub (s := { s with parcel := p₂ }) hvalue
        obtain ⟨msg', s', h, hrest⟩ :=
          (ih { msg with mItems := msg.mItems ++ [⟨some (s₁.allocated, name), mType, some u⟩] }
            (s := { s₁ with allocated := s₁.allocated + 1 })).mpr (hs₁ ▸ hitems)
        refine ⟨msg', s', ?_, hrest⟩
        simp only [readItems, hname, htype, hread]
        exact h

theorem readMessage_iff (hsub : SubReads subMessage sub) {rest : List (BitVec 8)} :
    (∃ msg s', readMessage F subMessage s = (some msg, s') ∧ s'.parcel = rest) ↔
      ReadsMessage F sub s.parcel rest := by
  obtain ⟨ok, msg, s₁, hitems⟩ := readMessage_cases F subMessage s
  rw [readMessage_eq hitems]
  change _ ↔ ReadsItems F sub (behindCount F s.parcel).1 (behindCount F s.parcel).2 rest
  rw [← readItems_iff hsub ⟨s.allocated, (F.readInt32 s.parcel).1, [], (behindCount F s.parcel).1⟩
    (s := { s with parcel := (behindCount F s.parcel).2, allocated := s.allocated + 1 }), hitems]
  constructor
  · rintro ⟨msg', s', h, rfl⟩
    obtain ⟨hmsg, rfl⟩ := Prod.mk.inj h
    cases ok with
    | false => cases hmsg
    | true => exact ⟨msg, s₁, rfl, rfl⟩
  · rintro ⟨msg', s', h, rfl⟩
    obtain ⟨rfl, hmsg⟩ := Prod.mk.inj h
    obtain ⟨rfl, rfl⟩ := Prod.mk.inj hmsg
    exact ⟨_, _, rfl, rfl⟩

theorem fromParcel_iff {rest : List (BitVec 8)} :
    (∃ msg s', fromParcel F level s = (some msg, s') ∧ s'.parcel = rest) ↔
      Readable F level s.parcel rest := by
  induction level generalizing s rest with
  | zero =>
    refine readMessage_iff fun s rest => iff_of_false ?_ id
    rintro ⟨read, hread, -⟩
    cases hread
  | succ level ih =>
    refine readMessage_iff fun s rest => ?_
    rw [← ih]
    simp

/-- Exactly when the parcel can be read, every item of every message that has been created can be
destroyed. -/
theorem safe_iff (F : ParcelFormat) (level : Nat) (parcel : List (BitVec 8)) :
    (fromParcel F level { parcel }).2.Safe ↔ ∃ rest, Readable F level parcel rest := by
  constructor
  · intro hsafe
    rcases hread : fromParcel F level { parcel } with ⟨result, s'⟩
    cases result with
    | none =>
      obtain ⟨msg, hmsg, hincomplete⟩ := fromParcel_null hread
      rw [hread] at hsafe
      exact absurd (hsafe.complete msg hmsg) hincomplete
    | some msg =>
      exact ⟨_, fromParcel_iff.mp ⟨msg, s', hread, rfl⟩⟩
  · rintro ⟨rest, hrest⟩
    obtain ⟨msg, s', hread, -⟩ := (fromParcel_iff (s := { parcel })).mpr hrest
    obtain ⟨⟨new, n, hcreated, hcomplete, hallocated, hperm⟩, href⟩ := fromParcel_sound hread
    rw [hread]
    rw [List.nil_append] at hcreated
    rw [Nat.zero_add] at hallocated
    refine ⟨hcreated ▸ hcomplete, ?_⟩
    rw [href] at hperm
    rw [hcreated, hallocated, List.range_eq_range']
    exact hperm

/-- A message with one item, of a type that is not known: `FromParcel` returns `NULL`, and what it
destroys has an item with no name. -/
theorem unknown_type_not_safe :
    ¬(fromParcel .padded 255
      { parcel := [1, 0, 0, 0, 1, 0, 0, 0, 97, 0, 0, 0, 5, 0, 0, 0] }).2.Safe := by
  intro h
  obtain ⟨slot, hslot, hname, -⟩ := h.complete _ (List.mem_singleton_self _) 0 (by decide)
  obtain rfl := Option.some.inj hslot
  cases hname

end AMessage

end MediaFramework.Foundation
