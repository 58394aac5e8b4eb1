import MediaFramework.Foundation.MessageMemory
import Mathlib.Logic.Function.Basic

/-!
# Messages as maps

What the items of a message are for: a map from names to values. Calls by an index are calls by the
name that is there.
-/

namespace MediaFramework.Foundation.MessageMemory

abbrev Map := CString → Option Cell

namespace Map

def put (map : Map) (name : CString) (value : Cell) : Map := Function.update map name (some value)

def remove (map : Map) (name : CString) : Map := Function.update map name none

/-- A name that is there already is not given again. -/
def rename (map : Map) (name name' : CString) : Map :=
  if (map name').isSome then map else Function.update (map.remove name) name' (map name)

def extend (map other : Map) : Map := fun name => (other name).or (map name)

end Map

/-- The items answer as the map does. -/
structure Answers (mItems : List Item) (map : Map) : Prop where
  distinct : (Assoc.keys mItems).Nodup
  few : mItems.length ≤ AMessage.kMaxNumItems
  contains : ∀ name, MessageMemory.contains mItems name = (map name).isSome
  findItem : ∀ name type,
    MessageMemory.findItem mItems name type = (map name).filter fun value => value.mType = type
  findAny : ∀ name, MessageMemory.findAny mItems (some name) = map name
  entries : ∀ i name type, getEntryNameAt mItems i = some (name, type) →
    getEntryAt mItems i = map name ∧ (map name).map Cell.mType = some type

/-- The items hold what is in the map. -/
structure Represents (mItems : List Item) (map : Map) : Prop where
  distinct : (Assoc.keys mItems).Nodup
  few : mItems.length ≤ AMessage.kMaxNumItems
  lookup : ∀ name, mItems.lookup name = map name

variable {mItems : List Item} {map : Map} {name : CString} {value : Cell} {low : Cell → BitVec 32}

theorem findAny_eq (mItems : List Item) (name : CString) :
    findAny mItems (some name) = mItems.lookup name := Assoc.getElem?_index

theorem contains_eq (mItems : List Item) (name : CString) :
    contains mItems name = (mItems.lookup name).isSome := by
  rw [Bool.eq_iff_iff, contains, decide_eq_true_iff, Option.isSome_iff_ne_none, Ne,
    Assoc.lookup_eq_none, Decidable.not_not]
  exact Assoc.index_lt

theorem findItem_eq (mItems : List Item) (name : CString) (type : ItemType) :
    findItem mItems name type = (mItems.lookup name).filter fun value => value.mType = type := by
  rw [findItem, ← findAny_eq, findAny, getEntryAt, findEntryByName]
  cases mItems[findItemIndex mItems name]? with
  | none => rfl
  | some item =>
    rw [Option.map_some, Option.filter_some]
    simp only [decide_eq_true_eq]

theorem lookup_of_getElem? (hdistinct : (Assoc.keys mItems).Nodup) {i : Nat} {item : Item}
    (h : mItems[i]? = some item) : mItems.lookup item.1 = some item.2 :=
  Assoc.lookup_of_mem hdistinct (List.mem_of_getElem? h)

/-- Finding is enough to tell what the items hold. -/
theorem answers_iff : Answers mItems map ↔ Represents mItems map := by
  constructor
  · intro h
    exact ⟨h.distinct, h.few, fun name => (findAny_eq mItems name).symm.trans (h.findAny name)⟩
  · intro h
    refine ⟨h.distinct, h.few, fun name => ?_, fun name type => ?_, fun name => ?_,
      fun i name type hname => ?_⟩
    · rw [contains_eq, h.lookup]
    · rw [findItem_eq, h.lookup]
    · rw [findAny_eq, h.lookup]
    · obtain ⟨item, hitem, heq⟩ := Option.map_eq_some_iff.mp hname
      cases heq
      rw [← h.lookup, lookup_of_getElem? h.distinct hitem, getEntryAt, hitem]
      exact ⟨rfl, rfl⟩

/-! ### Calls that are by a name -/

theorem allocateItem_eq (low : Cell → BitVec 32) (mItems : List Item) (name : CString) :
    allocateItem low mItems name =
      (Assoc.putWithin AMessage.kMaxNumItems name
        ((mItems.lookup name).elim (.int32Value 0) (freeItemValue low)) mItems).map
        fun mItems' => (mItems', Assoc.index name mItems) := by
  have hindex : findItemIndex mItems name = Assoc.index name mItems := rfl
  rw [allocateItem, Assoc.putWithin, hindex]
  by_cases hname : name ∈ Assoc.keys mItems
  · obtain ⟨value, hvalue⟩ := Option.ne_none_iff_exists'.mp fun hnone =>
      Assoc.lookup_eq_none.mp hnone hname
    have hroom : name ∈ Assoc.keys mItems ∨ mItems.length < AMessage.kMaxNumItems := .inl hname
    rw [Assoc.getElem?_index_of_lookup hvalue, hvalue, if_pos hroom, Option.map_some,
      ← Assoc.set_index hname]
    rfl
  · have hnone : mItems[Assoc.index name mItems]? = none := by
      rw [Assoc.index_of_notMem hname, List.getElem?_eq_none (Nat.le_refl _)]
    rw [hnone, Assoc.lookup_eq_none.mpr hname, Assoc.put_of_notMem hname]
    simp only [hname, false_or, Assoc.index_of_notMem hname, Option.elim_none]
    split <;> rfl

theorem setEntryAt_eq {i : Nat} {item : Item} (h : mItems[i]? = some item) (value : Cell) :
    (setEntryAt mItems i (some value)).1 = mItems.set i (item.1, value) := by
  rw [setEntryAt, h]

theorem setItem_eq (low : Cell → BitVec 32) (mItems : List Item) (name : CString) (value : Cell) :
    setItem low mItems name (some value) =
      Assoc.putWithin AMessage.kMaxNumItems name value mItems := by
  rw [setItem, allocateItem_eq, Assoc.putWithin, Assoc.putWithin]
  split
  · rw [Option.map_some, Option.map_some, setEntryAt_eq Assoc.getElem?_put, Assoc.set_put]
  · rfl

theorem set_eq (low : Cell → BitVec 32) (mItems : List Item) (name : CString) (value : Cell) :
    set low mItems name value = Assoc.putWithin AMessage.kMaxNumItems name value mItems := by
  rw [set, allocateItem_eq, Assoc.putWithin, Assoc.putWithin]
  split
  · rw [Option.map_some, Option.map_some, List.modify_eq_set_getElem?, Assoc.getElem?_put]
    exact congrArg some Assoc.set_put
  · rfl

theorem Represents.put {mItems' : List Item} (h : Represents mItems map)
    (hput : Assoc.putWithin AMessage.kMaxNumItems name value mItems = some mItems') :
    Represents mItems' (map.put name value) := by
  obtain ⟨rfl, hfew⟩ := Assoc.putWithin_some hput
  refine ⟨Assoc.nodup_put h.distinct, hfew h.few, fun name' => ?_⟩
  rw [Assoc.lookup_put, h.lookup, Map.put, Function.update_apply]

theorem Represents.nil : Represents [] fun _ => none :=
  ⟨List.nodup_nil, Nat.zero_le _, fun _ => rfl⟩

/-! ### Calls that are by an index -/

theorem Represents.setEntryAt {i : Nat} {item : Item} (h : Represents mItems map)
    (hitem : mItems[i]? = some item) (value : Cell) :
    Represents (setEntryAt mItems i (some value)).1 (map.put item.1 value) := by
  have hindex := Assoc.index_of_getElem? h.distinct hitem
  have hmem := Assoc.key_mem (List.mem_of_getElem? hitem)
  rw [setEntryAt_eq hitem, ← hindex, Assoc.set_index hmem]
  refine h.put (if_pos (.inl hmem))

theorem Represents.removeEntryAt {i : Nat} {item : Item} (h : Represents mItems map)
    (hitem : mItems[i]? = some item) :
    Represents (removeEntryAt mItems i).1 (map.remove item.1) := by
  obtain ⟨hlt, -⟩ := List.getElem?_eq_some_iff.mp hitem
  have hindex := Assoc.index_of_getElem? h.distinct hitem
  have hmem := Assoc.key_mem (List.mem_of_getElem? hitem)
  have hlength := (Assoc.removeAt_perm hlt).length_eq
  rw [MessageMemory.removeEntryAt, if_neg (Nat.not_le_of_lt hlt)]
  refine ⟨Assoc.nodup_removeAt h.distinct hlt, ?_, fun name => ?_⟩
  · have hfew := h.few
    rw [hlength, List.length_cons] at hfew
    exact Nat.le_of_succ_le hfew
  · rw [← hindex, Assoc.lookup_removeAt_index h.distinct hmem, h.lookup, Map.remove,
      Function.update_apply]

theorem Represents.setEntryNameAt {i : Nat} {item : Item} (h : Represents mItems map)
    (hitem : mItems[i]? = some item) (name : CString) :
    Represents (setEntryNameAt mItems i (some name)).1 (map.rename item.1 name) := by
  have hfound : findItemIndex mItems name < mItems.length ↔ name ∈ Assoc.keys mItems :=
    Assoc.index_lt
  have hvalue : map item.1 = some item.2 := by
    rw [← h.lookup, lookup_of_getElem? h.distinct hitem]
  rw [MessageMemory.setEntryNameAt, hitem, Map.rename]
  dsimp only
  by_cases hname : name ∈ Assoc.keys mItems
  · have hsome : (map name).isSome = true := by
      rw [← h.lookup, Option.isSome_iff_ne_none]
      exact fun hnone => Assoc.lookup_eq_none.mp hnone hname
    rw [if_pos hsome, if_pos (hfound.mpr hname)]
    split <;> exact h
  · have hne : name ≠ item.1 := by
      rintro rfl
      exact hname (Assoc.key_mem (List.mem_of_getElem? hitem))
    have hnone : map name = none := by rw [← h.lookup, Assoc.lookup_eq_none.mpr hname]
    rw [if_neg hne, if_neg (mt hfound.mp hname), hnone, Option.isSome_none,
      if_neg Bool.false_ne_true]
    refine ⟨Assoc.nodup_rename h.distinct hname _ _, by rw [List.length_set]; exact h.few,
      fun name' => ?_⟩
    rw [Assoc.lookup_rename h.distinct hitem hname, h.lookup, Function.update_apply, Map.remove,
      Function.update_apply, hvalue]

/-! ### Extending -/

theorem extendItems_succ {theirs : Option (List Item)} {n ix : Nat} {item : Item}
    (h : (theirs.getD mItems)[ix]? = some item) : extendItems low theirs (n + 1) ix mItems =
      (allocateItem low mItems item.1).bind fun r => extendItems low theirs n (ix + 1)
        (MessageMemory.setEntryAt r.1 r.2 (getEntryAt (theirs.getD r.1) ix)).1 := by
  rw [extendItems, h]
  rfl

/-- The items of another message are put one after another. -/
theorem extendItems_other {theirs : List Item} {n ix : Nat} (h : ix + n = theirs.length) :
    extendItems low (some theirs) n ix mItems = Assoc.updateAll (fun value _ => some value)
      AMessage.kMaxNumItems mItems (theirs.drop ix) := by
  induction n generalizing ix mItems with
  | zero =>
    rw [List.drop_of_length_le (by omega)]
    rfl
  | succ n ih =>
    have hlt : ix < theirs.length := by omega
    have hget : theirs[ix]? = some theirs[ix] := List.getElem?_eq_getElem hlt
    rw [extendItems_succ hget, List.drop_eq_getElem_cons hlt, Assoc.updateAll, Option.bind_some,
      ← setItem_eq low, setItem, Option.bind_map]
    refine congrArg _ (funext fun r => ?_)
    rw [ih (by omega), Option.getD_some, getEntryAt, hget]
    rfl

theorem Represents.extend {theirs mItems' : List Item} {other : Map} (h : Represents mItems map)
    (hother : Represents theirs other)
    (hrun : extendItems low (some theirs) theirs.length 0 mItems = some mItems') :
    Represents mItems' (map.extend other) := by
  rw [extendItems_other (Nat.zero_add _), List.drop_zero] at hrun
  refine ⟨Assoc.nodup_updateAll hrun h.distinct, Assoc.length_updateAll hrun h.few, fun name => ?_⟩
  rw [Map.extend, ← hother.lookup]
  cases hname : theirs.lookup name with
  | none => rw [Assoc.lookup_updateAll_of_none hrun hname, h.lookup, Option.none_or]
  | some value => rw [Assoc.lookup_updateAll hrun hother.distinct hname, Option.some_or]

/-- A message that is extended by itself frees each value before it reads it. -/
theorem extendItems_self {n ix : Nat} (hdistinct : (Assoc.keys mItems).Nodup)
    (h : ix + n = mItems.length) : extendItems low none n ix mItems =
      some (mItems.take ix ++ (mItems.drop ix).map fun item =>
        (item.1, freeItemValue low item.2)) := by
  induction n generalizing ix mItems with
  | zero =>
    rw [List.drop_of_length_le (by omega), List.take_of_length_le (by omega), List.map_nil,
      List.append_nil]
    rfl
  | succ n ih =>
    have hlt : ix < mItems.length := by omega
    have hget : mItems[ix]? = some mItems[ix] := List.getElem?_eq_getElem hlt
    have hindex := Assoc.index_of_getElem? hdistinct hget
    have hmem := Assoc.key_mem (List.getElem_mem hlt)
    have hlookup := lookup_of_getElem? hdistinct hget
    have hset : Assoc.put mItems[ix].1 (freeItemValue low mItems[ix].2) mItems =
        mItems.set ix (mItems[ix].1, freeItemValue low mItems[ix].2) := by
      rw [← Assoc.set_index hmem, hindex]
    have hnodup : (Assoc.keys (mItems.set ix (mItems[ix].1, freeItemValue low mItems[ix].2))).Nodup := by
      rw [← hset]
      exact Assoc.nodup_put hdistinct
    have hthere : (mItems.set ix (mItems[ix].1, freeItemValue low mItems[ix].2))[ix]? =
        some (mItems[ix].1, freeItemValue low mItems[ix].2) := List.getElem?_set_self hlt
    have hself : ((none : Option (List Item)).getD mItems)[ix]? = some mItems[ix] := hget
    rw [extendItems_succ hself, allocateItem_eq, Assoc.putWithin,
      if_pos (.inl hmem), Option.map_some, Option.bind_some, hindex, hlookup, Option.elim_some, hset,
      Option.getD_none, getEntryAt, hthere, Option.map_some, setEntryAt_eq hthere, List.set_set,
      ih hnodup (by rw [List.length_set]; omega)]
    congr 1
    rw [List.drop_set_of_lt (Nat.lt_succ_self ix), List.drop_eq_getElem_cons hlt, List.map_cons,
      List.take_add_one, List.take_set_of_le (Nat.le_refl ix), hthere]
    simp only [Option.toList_some, List.append_assoc, List.singleton_append]

/-! ### All the messages -/

/-- The messages, and the maps they are for. -/
structure State where
  memory : Memory
  maps : Nat → Map

namespace State

def nameAt (s : State) (a index : Nat) : Option CString :=
  s.memory[a]?.bind fun m => (getEntryNameAt m.mItems index).map Prod.fst

/-- What a call does to the map of the message at `a`. -/
def onMap (s : State) (a : Nat) (c : Change) (map : Map) : Map :=
  match c with
  | .set name value => map.put name value
  | .setItem name item => item.elim map (map.put name)
  | .setEntryAt index item =>
    (s.nameAt a index).elim map fun name => item.elim map (map.put name)
  | .setEntryNameAt index name' =>
    (s.nameAt a index).elim map fun name => name'.elim map (map.rename name)
  | .removeEntryAt index => (s.nameAt a index).elim map map.remove
  | .extend other => other.elim map fun b => map.extend (s.maps b)
  | .clear => fun _ => none
  | .senderAwaitsResponse =>
    match map replyID with
    | some (.objectValue _) => map.put replyID (.objectValue none)
    | _ => map

def onMaps (s : State) : Call → Nat → Map
  | .new _ => s.maps
  | .setWhat _ _ => s.maps
  | .change a c => Function.update s.maps a (s.onMap a c (s.maps a))

/-- A call that fails changes nothing here. -/
def next (low : Cell → BitVec 32) (s : State) (c : Call) : State :=
  match s.memory.exec low c with
  | none => s
  | some memory => ⟨memory, s.onMaps c⟩

/-- The messages hold what is in their maps. -/
def Represents (s : State) : Prop :=
  ∀ a m, s.memory[a]? = some m → MessageMemory.Represents m.mItems (s.maps a)

end State

/-- A message is extended by itself only where there is nothing but `int32_t` in it. -/
def NotSpoiled (s : State) (c : Call) : Prop :=
  ∀ a, c = .change a (.extend (some a)) → ∀ m, s.memory[a]? = some m →
    ∀ item ∈ m.mItems, item.2.mType = .kTypeInt32

variable {s : State} {mem' : Memory} {a b : Nat} {c : Change} {m m' : Message}

theorem nameAt_eq (h : s.memory[a]? = some m) (index : Nat) :
    s.nameAt a index = m.mItems[index]?.map Prod.fst := by
  rw [State.nameAt, h, Option.bind_some, getEntryNameAt, Option.map_map]
  rfl

theorem senderAwaitsResponse_eq (h : Represents mItems map) :
    (senderAwaitsResponse low mItems).map Prod.fst =
      match map replyID with
      | some (.objectValue _) => set low mItems replyID (.objectValue none)
      | _ => some mItems := by
  rw [senderAwaitsResponse, findItem_eq, h.lookup]
  cases map replyID with
  | none => rfl
  | some value =>
    cases value with
    | objectValue token =>
      show ((set low mItems replyID (.objectValue none)).map fun mItems => (mItems, token)).map
        Prod.fst = set low mItems replyID (.objectValue none)
      rw [Option.map_map]
      exact Option.map_id_apply
    | _ => rfl

theorem freeItemValue_of_int32 {value : Cell} (h : value.mType = .kTypeInt32) :
    freeItemValue low value = value := by
  cases value with
  | int32Value => rfl
  | _ => cases h

theorem State.Represents.apply {mItems' : List Item} (h : s.Represents) (hm : s.memory[a]? = some m)
    (hspoiled : NotSpoiled s (.change a c))
    (hrun : s.memory.apply low a c m.mItems = some mItems') :
    MessageMemory.Represents mItems' (s.onMap a c (s.maps a)) := by
  have hrep := h a m hm
  cases c with
  | set name value =>
    rw [Memory.apply, set_eq] at hrun
    exact hrep.put hrun
  | setItem name item =>
    cases item with
    | none =>
      cases hrun
      exact hrep
    | some value =>
      rw [Memory.apply, setItem_eq] at hrun
      exact hrep.put hrun
  | setEntryAt index item =>
    cases hrun
    rw [State.onMap, nameAt_eq hm]
    cases hitem : m.mItems[index]? with
    | none =>
      rw [MessageMemory.setEntryAt, hitem]
      exact hrep
    | some dst =>
      cases item with
      | none =>
        rw [MessageMemory.setEntryAt, hitem]
        exact hrep
      | some value => exact hrep.setEntryAt hitem value
  | setEntryNameAt index name' =>
    cases hrun
    rw [State.onMap, nameAt_eq hm]
    cases hitem : m.mItems[index]? with
    | none =>
      rw [MessageMemory.setEntryNameAt, hitem]
      exact hrep
    | some dst =>
      cases name' with
      | none =>
        rw [MessageMemory.setEntryNameAt, hitem]
        exact hrep
      | some name' => exact hrep.setEntryNameAt hitem name'
  | removeEntryAt index =>
    cases hrun
    rw [State.onMap, nameAt_eq hm]
    cases hitem : m.mItems[index]? with
    | none =>
      rw [MessageMemory.removeEntryAt, if_pos (List.getElem?_eq_none_iff.mp hitem)]
      exact hrep
    | some dst => exact hrep.removeEntryAt hitem
  | extend other =>
    cases other with
    | none =>
      cases hrun
      exact hrep
    | some b =>
      obtain ⟨theirs, htheirs, hrun⟩ := Option.bind_eq_some_iff.mp hrun
      by_cases hself : b = a
      · subst hself
        rw [hm] at htheirs
        obtain rfl := Option.some.inj htheirs
        have hsame : (m.mItems.map fun item => (item.1, freeItemValue low item.2)) = m.mItems := by
          refine List.map_congr_left (g := id) (fun item hitem => ?_) |>.trans (List.map_id _)
          rw [freeItemValue_of_int32 (hspoiled b rfl m hm item hitem)]
          rfl
        have hmap : (s.maps b).extend (s.maps b) = s.maps b := by
          funext name
          exact Option.or_self
        rw [if_pos rfl, extendItems_self hrep.distinct (Nat.zero_add _), List.take_zero,
          List.nil_append, List.drop_zero, hsame] at hrun
        obtain rfl := Option.some.inj hrun
        rw [State.onMap, Option.elim_some, hmap]
        exact hrep
      · rw [if_neg hself] at hrun
        exact hrep.extend (h b theirs htheirs) hrun
  | clear =>
    cases hrun
    exact MessageMemory.Represents.nil
  | senderAwaitsResponse =>
    rw [Memory.apply, senderAwaitsResponse_eq hrep] at hrun
    rw [State.onMap]
    split at hrun
    · rw [set_eq] at hrun
      exact hrep.put hrun
    · cases hrun
      exact hrep

theorem exec_change_eq_some {mem : Memory} (h : mem.exec low (.change a c) = some mem') :
    ∃ m mItems, mem[a]? = some m ∧ mem.apply low a c m.mItems = some mItems ∧
      mem' = List.set mem a { m with mItems } := by
  simp only [Memory.exec, Option.bind_eq_bind, Option.bind_eq_some_iff] at h
  obtain ⟨m, hm, mItems, hitems, h⟩ := h
  exact ⟨m, mItems, hm, hitems, (Option.some.inj h).symm⟩

/-- A message that is replaced, and the others. -/
theorem getElem?_set_cases {mem : Memory} (h : (List.set mem a m)[b]? = some m') :
    b = a ∧ m' = m ∨ b ≠ a ∧ mem[b]? = some m' := by
  rw [List.getElem?_set] at h
  split at h
  · next hab =>
    split at h
    · exact .inl ⟨hab.symm, (Option.some.inj h).symm⟩
    · cases h
  · next hab => exact .inr ⟨Ne.symm hab, h⟩

/-- A new message comes after the others. -/
theorem getElem?_append_cases {mem : Memory} (h : (mem ++ [m])[b]? = some m') :
    mem[b]? = some m' ∨ b = mem.length ∧ m' = m := by
  rw [List.getElem?_append] at h
  split at h
  · exact .inl h
  · next hge =>
    obtain ⟨hlt, hm⟩ := List.getElem?_eq_some_iff.mp h
    rw [List.length_singleton] at hlt
    rw [List.getElem_singleton] at hm
    exact .inr ⟨by omega, hm.symm⟩

/-- Calls keep what the messages hold, as long as none of them spoils it. -/
theorem State.Represents.exec {call : Call} (h : s.Represents)
    (hunused : s.maps s.memory.length = fun _ => none) (hspoiled : NotSpoiled s call)
    (hrun : s.memory.exec low call = some mem') : State.Represents ⟨mem', s.onMaps call⟩ := by
  intro b m' hb
  cases call with
  | new mWhat =>
    cases hrun
    obtain hold | ⟨rfl, rfl⟩ := getElem?_append_cases hb
    · exact h b m' hold
    · rw [State.onMaps, hunused]
      exact MessageMemory.Represents.nil
  | setWhat a mWhat =>
    obtain ⟨m, hm, rfl⟩ := Option.map_eq_some_iff.mp hrun
    obtain ⟨rfl, rfl⟩ | ⟨-, hold⟩ := getElem?_set_cases hb
    · exact h b m hm
    · exact h b m' hold
  | change a c =>
    obtain ⟨m, mItems, hm, hitems, rfl⟩ := exec_change_eq_some hrun
    rw [State.onMaps]
    dsimp only
    obtain ⟨rfl, rfl⟩ | ⟨hne, hold⟩ := getElem?_set_cases hb
    · rw [Function.update_self]
      exact h.apply hm hspoiled hitems
    · rw [Function.update_of_ne hne]
      exact h b m' hold

/-- Where a call spoils a message, the message does not answer as its map. -/
theorem not_answers_of_spoiled {call : Call} (h : s.Represents) (hspoiled : ¬ NotSpoiled s call)
    (hrun : s.memory.exec low call = some mem') :
    ∃ a m, mem'[a]? = some m ∧ ¬ Answers m.mItems (s.onMaps call a) := by
  simp only [NotSpoiled, not_forall] at hspoiled
  obtain ⟨a, rfl, m, hm, item, hitem, htype⟩ := hspoiled
  have hrep := h a m hm
  obtain ⟨m', mItems, hm', hitems, rfl⟩ := exec_change_eq_some hrun
  rw [hm] at hm'
  obtain rfl := Option.some.inj hm'
  have hset : (List.set s.memory a { m with mItems })[a]? = some { m with mItems } :=
    List.getElem?_set_self (List.getElem?_eq_some_iff.mp hm).1
  refine ⟨a, _, hset, fun hanswers => ?_⟩
  rw [Memory.apply, hm, Option.bind_some, if_pos rfl,
    extendItems_self hrep.distinct (Nat.zero_add _), List.take_zero, List.nil_append,
    List.drop_zero] at hitems
  obtain rfl := Option.some.inj hitems
  have hvalue : s.maps a item.1 = some item.2 := by
    rw [← hrep.lookup, Assoc.lookup_of_mem hrep.distinct hitem]
  have hnew := (answers_iff.mp hanswers)
  have hfreed := Assoc.lookup_of_mem hnew.distinct
    (List.mem_map_of_mem (f := fun item => (item.1, freeItemValue low item.2)) hitem)
  rw [hnew.lookup, State.onMaps, Function.update_self, State.onMap, Option.elim_some, Map.extend,
    hvalue, Option.some_or] at hfreed
  refine htype ?_
  rw [Option.some.inj hfreed]
  cases item.2 <;> rfl

/-! ### What messages refer to -/

/-- Some item refers to the message at `b`. -/
def RefersTo (mItems : List Item) (b : Nat) : Prop :=
  ∃ item ∈ mItems, item.2 = .messageValue (some b)

def Change.given : Change → Option Cell
  | .set _ value => some value
  | .setItem _ item => item
  | .setEntryAt _ item => item
  | _ => none

theorem refersTo_put {mItems' : List Item}
    (h : Assoc.putWithin AMessage.kMaxNumItems name value mItems = some mItems')
    (hb : RefersTo mItems' b) : RefersTo mItems b ∨ value = .messageValue (some b) := by
  obtain ⟨item, hitem, hvalue⟩ := hb
  rw [(Assoc.putWithin_some h).1] at hitem
  obtain rfl | hitem := Assoc.mem_put hitem
  · exact .inr hvalue
  · exact .inl ⟨item, hitem, hvalue⟩

theorem refersTo_set {i : Nat} {item : Item} (h : RefersTo (mItems.set i item) b) :
    RefersTo mItems b ∨ item.2 = .messageValue (some b) := by
  obtain ⟨item', hitem, hvalue⟩ := h
  obtain hitem | rfl := List.mem_or_eq_of_mem_set hitem
  · exact .inl ⟨item', hitem, hvalue⟩
  · exact .inr hvalue

/-- A message refers to what some message has referred to, or to the one that the call gives. -/
theorem refersTo_apply {mItems' : List Item} (h : s.Represents) (hm : s.memory[a]? = some m)
    (hrun : s.memory.apply low a c m.mItems = some mItems') (hb : RefersTo mItems' b) :
    (∃ m ∈ s.memory, RefersTo m.mItems b) ∨ c.given = some (.messageValue (some b)) := by
  have hself : RefersTo m.mItems b → ∃ m ∈ s.memory, RefersTo m.mItems b := fun hold =>
    ⟨m, List.mem_of_getElem? hm, hold⟩
  cases c with
  | set name value =>
    rw [Memory.apply, set_eq] at hrun
    exact (refersTo_put hrun hb).imp hself fun hvalue => congrArg some hvalue
  | setItem name item =>
    cases item with
    | none =>
      cases hrun
      exact .inl (hself hb)
    | some value =>
      rw [Memory.apply, setItem_eq] at hrun
      exact (refersTo_put hrun hb).imp hself fun hvalue => congrArg some hvalue
  | setEntryAt index item =>
    cases hrun
    rw [MessageMemory.setEntryAt] at hb
    split at hb
    · exact .inl (hself hb)
    · split at hb
      · exact .inl (hself hb)
      · exact (refersTo_set hb).imp hself fun hvalue => congrArg some hvalue
  | setEntryNameAt index name' =>
    cases hrun
    refine .inl (hself ?_)
    rw [MessageMemory.setEntryNameAt] at hb
    split at hb
    · exact hb
    · next item hitem =>
      split at hb
      · exact hb
      · split at hb
        · exact hb
        · split at hb
          · exact hb
          · exact (refersTo_set hb).elim (fun hold => hold) fun hvalue =>
              ⟨item, List.mem_of_getElem? hitem, hvalue⟩
  | removeEntryAt index =>
    cases hrun
    refine .inl (hself ?_)
    rw [MessageMemory.removeEntryAt] at hb
    split at hb
    · exact hb
    · next hlt =>
      obtain ⟨item, hitem, hvalue⟩ := hb
      exact ⟨item, (Assoc.removeAt_perm (Nat.lt_of_not_le hlt)).mem_iff.mpr
        (List.mem_cons_of_mem _ hitem), hvalue⟩
  | extend other =>
    refine .inl ?_
    cases other with
    | none =>
      cases hrun
      exact hself hb
    | some b' =>
      obtain ⟨theirs, htheirs, hrun⟩ := Option.bind_eq_some_iff.mp hrun
      obtain ⟨item, hitem, hvalue⟩ := hb
      by_cases hsame : b' = a
      · subst hsame
        rw [hm] at htheirs
        obtain rfl := Option.some.inj htheirs
        rw [if_pos rfl, extendItems_self (h _ m hm).distinct (Nat.zero_add _), List.take_zero,
          List.nil_append, List.drop_zero] at hrun
        obtain rfl := Option.some.inj hrun
        obtain ⟨item', -, rfl⟩ := List.mem_map.mp hitem
        revert hvalue
        cases item'.2 <;> intro hvalue <;> cases hvalue
      · rw [if_neg hsame, extendItems_other (Nat.zero_add _), List.drop_zero] at hrun
        obtain hitem | ⟨d, hd, -, hd'⟩ := Assoc.mem_updateAll hrun hitem
        · exact hself ⟨item, hitem, hvalue⟩
        · exact ⟨theirs, List.mem_of_getElem? htheirs, d, hd, (Option.some.inj hd').trans hvalue⟩
  | clear =>
    cases hrun
    obtain ⟨item, hitem, -⟩ := hb
    cases hitem
  | senderAwaitsResponse =>
    rw [Memory.apply, senderAwaitsResponse_eq (h a m hm)] at hrun
    refine .inl (hself ?_)
    split at hrun
    · rw [set_eq] at hrun
      exact (refersTo_put hrun hb).elim (fun hold => hold) fun hvalue => (by cases hvalue)
    · cases hrun
      exact hb

/-- The messages that items refer to are there. -/
def Closed (mem : Memory) : Prop := ∀ m ∈ mem, ∀ b, RefersTo m.mItems b → b < mem.length

/-- So is a message that is given to a call. -/
def Call.Typed (mem : Memory) : Call → Prop
  | .change _ c => ∀ b, c.given = some (.messageValue (some b)) → b < mem.length
  | _ => True

theorem Closed.exec {call : Call} (hclosed : Closed s.memory) (h : s.Represents)
    (htyped : call.Typed s.memory) (hrun : s.memory.exec low call = some mem') : Closed mem' := by
  cases call with
  | new mWhat =>
    cases hrun
    intro m' hm' b hb
    rw [List.length_append]
    obtain hm' | hm' := List.mem_append.mp hm'
    · exact Nat.lt_of_lt_of_le (hclosed m' hm' b hb) (Nat.le_add_right _ _)
    · obtain ⟨item, hitem, -⟩ := hb
      rw [List.mem_singleton.mp hm'] at hitem
      cases hitem
  | setWhat a mWhat =>
    obtain ⟨m, hm, rfl⟩ := Option.map_eq_some_iff.mp hrun
    intro m' hm' b hb
    rw [List.length_set]
    obtain hm' | rfl := List.mem_or_eq_of_mem_set hm'
    · exact hclosed m' hm' b hb
    · exact hclosed m (List.mem_of_getElem? hm) b hb
  | change a c =>
    obtain ⟨m, mItems, hm, hitems, rfl⟩ := exec_change_eq_some hrun
    intro m' hm' b hb
    rw [List.length_set]
    obtain hm' | rfl := List.mem_or_eq_of_mem_set hm'
    · exact hclosed m' hm' b hb
    · obtain ⟨m', hm', hb⟩ | hvalue := refersTo_apply h hm hitems hb
      · exact hclosed m' hm' b hb
      · exact htyped b hvalue

end MediaFramework.Foundation.MessageMemory
