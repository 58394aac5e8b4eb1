import MediaFramework.Foundation.AMessage

/-!
# Differences of messages

What `changesFrom` is for: a message extended by its difference from another has the items of the
other, and keeps its own items of other names. A deep difference is merged: where it has a message
and the extended one as well, the one is merged into the other.
-/

namespace MediaFramework.Foundation

open Assoc

/-! ### Well-formed messages -/

/-- Each name is that of one item, in a message and in those it refers to, and the items fit. -/
inductive AMessage.WellFormed : AMessage → Prop
  | intro {m : AMessage} (names : (keys m.mItems).Nodup)
      (fits : m.mItems.length ≤ AMessage.kMaxNumItems)
      (nested : ∀ item ∈ m.mItems, ∀ m', item.2 = .messageValue (some m') → WellFormed m') :
      WellFormed m

/-! ### Equality by entries -/

mutual

/-- Equal values, messages by their entries. -/
def Value.Same : Value → Value → Prop
  | .messageValue (some (.mk _ items)), w => ∃ o, w = .messageValue (some o) ∧ SameItems items o ∧
      ∀ name ∈ keys o.mItems, name ∈ keys items
  | .floatValue v _, w => ∃ upper, w = .floatValue v upper
  | v, w => v = w

def SameItems : List Item → AMessage → Prop
  | [], _ => True
  | (name, v) :: items, o => (∃ w, (name, w) ∈ o.mItems ∧ v.Same w) ∧ SameItems items o

end

/-! ### Merging -/

mutual

def AMessage.mergeItems : List Item → List Item → Option (List Item)
  | mItems, [] => some mItems
  | mItems, (name, value) :: items => do
    let v ← mergeValue value (mItems.lookup name)
    let mItems ← AMessage.setItem mItems name v
    AMessage.mergeItems mItems items

def AMessage.mergeValue : Value → Option Value → Option Value
  | .messageValue (some (.mk what items)), old =>
    match old.bind Value.message with
    | some o => (AMessage.mergeItems o.mItems items).map fun merged => .messageValue (some (.mk o.mWhat merged))
    | none => some (.messageValue (some (.mk what items)))
  | v, _ => some v

end

def AMessage.merge (m diff : AMessage) : Option AMessage :=
  (mergeItems m.mItems diff.mItems).map (mk m.mWhat)

/-! ### The laws -/

/-- `r` has the items of `m`, and the items of `o` of other names. -/
structure AMessage.Updated (m o r : AMessage) : Prop where
  has : ∀ item ∈ m.mItems, ∃ w, (item.1, w) ∈ r.mItems ∧ item.2.Same w
  keeps : ∀ item ∈ o.mItems, item.1 ∉ keys m.mItems → item ∈ r.mItems

mutual

/-- The same, where a message that both have stands for their merger. -/
def AMessage.Merged : AMessage → AMessage → AMessage → Prop
  | .mk _ items, o, r => MergedItems items o r ∧
      ∀ item ∈ o.mItems, item.1 ∉ keys items → item ∈ r.mItems

def MergedItems : List Item → AMessage → AMessage → Prop
  | [], _, _ => True
  | (name, v) :: items, o, r => (∃ w, (name, w) ∈ r.mItems ∧ v.Merged (o.mItems.lookup name) w) ∧
      MergedItems items o r

def Value.Merged : Value → Option Value → Value → Prop
  | .messageValue (some m), old, w =>
    match old.bind Value.message with
    | some o => ∃ r, w = .messageValue (some r) ∧ m.Merged o r
    | none => Value.Same (.messageValue (some m)) w
  | v, _, w => v.Same w

end

def AMessage.ExtendLaw (m o : AMessage) : Prop :=
  ∃ diff r, m.changesFrom (some o) false = some diff ∧ o.extend (some diff) = some r ∧ m.Updated o r

def AMessage.MergeLaw (m o : AMessage) : Prop :=
  ∃ diff r, m.changesFrom (some o) true = some diff ∧ o.merge diff = some r ∧ m.Merged o r

/-! ### The comparison of the source -/

mutual

/-- No item of a message differs from that of the other. A message that the other does not have is
compared like one with no entries. -/
def AMessage.Unchanged : AMessage → AMessage → Prop
  | .mk _ items, o => UnchangedItems items o

def UnchangedItems : List Item → AMessage → Prop
  | [], _ => True
  | (name, v) :: items, o => v.Unchanged (o.findItem name v.mType) ∧ UnchangedItems items o

def Value.Unchanged : Value → Option Value → Prop
  | .messageValue (some m), oitem =>
    match oitem.bind Value.message with
    | some o => m.Unchanged o
    | none => m.mItems = []
  | v, oitem => ∃ w ∈ oitem, v.same w

end

/-! ### The conditions -/

/-- A value that is not a message comes out right: a value that compares equal is the same, or none
does and the copy is. Numbers that compare equal may be zeros of different signs. -/
def Value.Settled (v : Value) (oitem : Option Value) : Prop :=
  (∃ w ∈ oitem, v.same w ∧ v.Same w) ∨ (∀ w ∈ oitem, ¬v.same w) ∧ v.Same v.copied

/-- A value that the difference has, if it has to, and has right. -/
def Value.Replaceable : Value → Option Value → Prop
  | .messageValue (some m), oitem =>
    match oitem.bind Value.message with
    | some o => m.Unchanged o → Value.Same (.messageValue (some m)) (.messageValue (some o))
    | none => m.mItems ≠ []
  | v, oitem => v.Settled oitem

/-- The names of both messages fit in one. -/
def AMessage.Fits (items : List Item) (o : AMessage) : Prop :=
  ((keys o.mItems).toFinset ∪ (keys items).toFinset).card ≤ kMaxNumItems

instance (items : List Item) (o : AMessage) : Decidable (AMessage.Fits items o) :=
  inferInstanceAs (Decidable (_ ≤ _))

def AMessage.Replaceable (m o : AMessage) : Prop :=
  (∀ item ∈ m.mItems, item.2.Replaceable (o.findItem item.1 item.2.mType)) ∧ Fits m.mItems o

mutual

def AMessage.Mergeable : AMessage → AMessage → Prop
  | .mk _ items, o => MergeableItems items o ∧ AMessage.Fits items o

def MergeableItems : List Item → AMessage → Prop
  | [], _ => True
  | (name, v) :: items, o => v.Mergeable (o.findItem name v.mType) ∧ MergeableItems items o

def Value.Mergeable : Value → Option Value → Prop
  | .messageValue (some m), oitem =>
    match oitem.bind Value.message with
    | some o => m.Mergeable o
    | none => m.mItems ≠ []
  | v, oitem => v.Settled oitem

end

mutual

/-- No float and no double is a NaN, in a message and in those it refers to. -/
def AMessage.NoNaN : AMessage → Prop
  | .mk _ items => NoNaNItems items

def NoNaNItems : List Item → Prop
  | [] => True
  | (_, v) :: items => v.NoNaN ∧ NoNaNItems items

def Value.NoNaN : Value → Prop
  | .messageValue (some m) => m.NoNaN
  | .floatValue v _ => AMessage.isNaN AMessage.floatInfinity v = false
  | .doubleValue v => AMessage.isNaN AMessage.doubleInfinity v = false
  | _ => True

end

end MediaFramework.Foundation
