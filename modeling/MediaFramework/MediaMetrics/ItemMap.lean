import MediaFramework.Lib.Machine
import MediaFramework.MediaMetrics.PropLayout

/-!
# Media analytics items as maps

An item stands for the map from its names to their values as long as no `filter` takes out a property
whose slot is not the last one in use.
-/

namespace MediaFramework.MediaMetrics

/-- What an item is for. -/
abbrev PropMap := CString → Option (PropValue CString)

namespace PropMap

def set (m : PropMap) (name : CString) (value : PropValue CString) : PropMap :=
  Function.update m name (some value)

/-- The sum with a value of the type, if there is one. -/
def add (m : PropMap) (sum : PropValue CString → Option (PropValue CString)) (name : CString)
    (value : PropValue CString) : PropMap :=
  m.set name (((m name).bind sum).getD value)

def call (plus : BitVec 64 → BitVec 64 → BitVec 64) (m : PropMap) : Call → PropMap
  | .setInt32 name value => m.set name (.int32Value value)
  | .setInt64 name value => m.set name (.int64Value value)
  | .setDouble name value => m.set name (.doubleValue value)
  | .setCString name value => m.set name (.CStringValue value)
  | .setRate name count duration => m.set name (.rate count duration)
  | .addInt32 name value => m.add (PropValue.plusInt32 value) name (.int32Value value)
  | .addInt64 name value => m.add (PropValue.plusInt64 value) name (.int64Value value)
  | .addDouble name value => m.add (PropValue.plusDouble plus value) name (.doubleValue value)
  | .addRate name count duration =>
    m.add (PropValue.plusRate count duration) name (.rate count duration)
  | .removeProp name => Function.update m name none
  | .filter attrs => fun name => if name ∈ attrs then none else m name
  | .clear => fun _ => none

end PropMap

namespace MediaAnalyticsItem

/-- The names in the slots in use. -/
def names (item : MediaAnalyticsItem) : List (Option CString) :=
  (item.mProps.take item.mPropCount).map fun prop => prop.mName.bind item.heap.blocks

/-- The slots in use have distinct names, the others are cleared, and no string has two owners. -/
structure Tidy (item : MediaAnalyticsItem) : Prop where
  size : item.mPropCount ≤ item.mProps.length
  named : none ∉ item.names
  distinct : item.names.Nodup
  cleared : ∀ prop ∈ item.mProps.drop item.mPropCount, prop.mName = none ∧ prop.u = .kTypeNone
  apart : ∀ (i j : Nat) (prop prop' : Property), item.mProps[i]? = some prop →
    item.mProps[j]? = some prop' → i ≠ j → ∀ p ∈ prop.pointers, p ∉ prop'.pointers

/-- The item reads as the map. -/
structure Agrees (item : MediaAnalyticsItem) (m : PropMap) : Prop where
  int32 : ∀ name, item.getInt32 name = some ((m name).bind PropValue.int32?)
  int64 : ∀ name, item.getInt64 name = some ((m name).bind PropValue.int64?)
  double : ∀ name, item.getDouble name = some ((m name).bind PropValue.double?)
  rate : ∀ name, item.getRate name = some ((m name).bind PropValue.rate?)
  CString : ∀ name, item.getCString name = some ((m name).bind PropValue.CString?)

end MediaAnalyticsItem

/-- An item, unless a call was undefined, and the map that it should stand for. -/
abbrev ItemAndMap := Option MediaAnalyticsItem × PropMap

namespace ItemAndMap

def start : ItemAndMap := (some {}, fun _ => none)

def next (plus : BitVec 64 → BitVec 64 → BitVec 64) (s : ItemAndMap) (call : Call) : ItemAndMap :=
  (s.1.bind fun item => item.call plus call, s.2.call plus call)

def Right (s : ItemAndMap) : Prop := ∃ item, s.1 = some item ∧ item.Tidy ∧ item.Agrees s.2

end ItemAndMap

/-- The item is right after each of the calls. -/
def IsMap (plus : BitVec 64 → BitVec 64 → BitVec 64) (calls : List Call) : Prop :=
  Along (ItemAndMap.next plus) (fun s call => (s.next plus call).Right) .start calls

/-- One of the names, taken out in order, is found before the last place. -/
def removesMiddle : List (Option CString) → List CString → Prop
  | _, [] => False
  | names, name :: attrs =>
    if names.length ≤ names.idxOf (some name) then removesMiddle names attrs
    else if names.idxOf (some name) + 1 = names.length then removesMiddle names.dropLast attrs
    else True

def FiltersMiddle : Option MediaAnalyticsItem → Call → Prop
  | some item, .filter attrs => removesMiddle item.names attrs
  | _, _ => False

variable {item item' : MediaAnalyticsItem} {entries : List Entry} {m : PropMap} {name : CString}
  {v' : PropValue CString} {u : PropValue Nat} {attrs : List CString}

/-! ### Reading -/

theorem get_spec {α : Type} {field : Heap CString → PropValue Nat → Option (Option α)}
    {field' : PropValue CString → Option α}
    (hfield : ∀ heap u v, u.read heap = some v → field heap u = some (field' v))
    (h : Layout item entries) :
    MediaAnalyticsItem.get field item name = some ((entries.lookup name).bind field') := by
  rw [MediaAnalyticsItem.get, MediaAnalyticsItem.findProp, h.findPropIndex]
  simp only [Option.bind_eq_bind, Option.bind_some, h.count, Assoc.index_lt]
  split
  · next hmem =>
    obtain ⟨v, hv⟩ := Option.ne_none_iff_exists'.mp fun hnone => Assoc.lookup_eq_none.mp hnone hmem
    obtain ⟨prop, hprop, hholds⟩ := h.holds (Assoc.getElem?_index_of_lookup hv)
    rw [hprop, hv]
    exact hfield item.heap prop.u v hholds.value
  · next hmem =>
    rw [Assoc.lookup_eq_none.mpr hmem]
    rfl

/-- The item stands for the map. -/
def Represents (item : MediaAnalyticsItem) (m : PropMap) : Prop :=
  ∃ entries, Layout item entries ∧ ∀ name, m name = entries.lookup name

theorem Represents.agrees (h : Represents item m) : item.Agrees m := by
  obtain ⟨entries, hlayout, hm⟩ := h
  obtain rfl : m = fun name => entries.lookup name := funext hm
  constructor
  · exact fun name => get_spec (fun _ _ _ h => congrArg some (PropValue.read_plain h).1) hlayout
  · exact fun name => get_spec (fun _ _ _ h => congrArg some (PropValue.read_plain h).2.1) hlayout
  · exact fun name => get_spec (fun _ _ _ h => congrArg some (PropValue.read_plain h).2.2.1) hlayout
  · exact fun name => get_spec (fun _ _ _ h => congrArg some (PropValue.read_plain h).2.2.2) hlayout
  · refine fun name => get_spec (fun heap u v h => ?_) hlayout
    cases u with
    | CStringValue p =>
      obtain ⟨s, hs, rfl⟩ := Option.map_eq_some_iff.mp h
      exact congrArg (Option.map some) hs
    | _ =>
      obtain rfl := Option.some.inj h
      rfl

/-! ### Slots -/

theorem names_eq {heap : Heap CString} {props : List Property}
    (h : List.Forall₂ (Property.Holds heap) props entries) :
    (props.map fun prop => prop.mName.bind heap.blocks) = (Assoc.keys entries).map some := by
  induction h with
  | nil => rfl
  | cons hholds _ ih =>
    obtain ⟨p, hp, hblock⟩ := hholds.name
    rw [List.map_cons, ih, hp, Option.bind_some, hblock]
    rfl

theorem Layout.names (h : Layout item entries) : item.names = (Assoc.keys entries).map some :=
  names_eq h.forall₂

theorem Layout.names_dropLast {i : Nat} (h : Layout item (Assoc.removeAt i entries))
    (hlast : i + 1 = entries.length) : item.names = ((Assoc.keys entries).map some).dropLast := by
  rw [h.names, Assoc.removeAt_last hlast, ← List.map_dropLast, Assoc.keys, List.map_dropLast,
    Assoc.keys]

theorem Represents.tidy (h : Represents item m) : item.Tidy := by
  obtain ⟨entries, hlayout, -⟩ := h
  refine ⟨?_, ?_, ?_, fun prop hprop => ?_, hlayout.memory.apart⟩
  · rw [hlayout.count]
    exact hlayout.room
  · rw [hlayout.names]
    simp
  · rw [hlayout.names]
    exact hlayout.nodup.map (Option.some_injective _)
  · obtain ⟨i, hi⟩ := List.mem_iff_getElem?.mp hprop
    rw [List.getElem?_drop, hlayout.count] at hi
    have hnone : entries[entries.length + i]? = none := List.getElem?_eq_none (by omega)
    have hcleared := hlayout.memory.cleared (List.getElem?_eq_some_iff.mp hi).1 hnone
    obtain rfl := Option.some.inj (hi.symm.trans hcleared)
    exact ⟨rfl, rfl⟩

/-! ### Sets and additions -/

theorem Represents.update {f : Heap CString → Property → Option (Heap CString × Property)}
    {g : PropValue CString → PropValue CString} (hf : Updates f g) (h : Represents item m)
    (name : CString) :
    ∃ item', item.update name f = some item' ∧
      Represents item' (m.set name (g ((m name).getD .kTypeNone))) := by
  obtain ⟨entries, hlayout, hm⟩ := h
  obtain ⟨item', entries', hitem, hlayout', hlookup⟩ := update_spec hf hlayout name
  refine ⟨item', hitem, entries', hlayout', fun key => ?_⟩
  rw [hlookup, PropMap.set, Function.update_apply, hm, hm]

theorem Represents.setValue {make : Heap CString → Heap CString × PropValue Nat}
    (hmake : ∀ heap, Property.Makes heap (make heap).1 (make heap).2 v') (h : Represents item m)
    (name : CString) :
    ∃ item', item.update name (MediaAnalyticsItem.setValue make) = some item' ∧
      Represents item' (m.set name v') :=
  h.update (g := fun _ => v') (fun _ _ _ _ hholds => Property.setValue_spec hmake hholds) name

theorem Represents.addValue {sum : PropValue Nat → Option (PropValue Nat)}
    {sum' : PropValue CString → Option (PropValue CString)} (hsum : Property.Sums sum sum')
    (hnone : sum' .kTypeNone = none) (hu : u.pointers = []) (hread : ∀ heap, u.read heap = some v')
    (h : Represents item m) (name : CString) :
    ∃ item', item.update name (MediaAnalyticsItem.addValue sum u) = some item' ∧
      Represents item' (m.add sum' name v') := by
  have hadd : ((m name).bind sum').getD v' = (sum' ((m name).getD .kTypeNone)).getD v' := by
    cases m name with
    | none => rw [Option.bind_none, Option.getD_none, Option.getD_none, hnone, Option.getD_none]
    | some v => rfl
  rw [PropMap.add, hadd]
  exact h.update (fun _ _ _ _ hholds => Property.addValue_spec hsum hu hread hholds) name

/-! ### Filters -/

theorem idxOf_keys : ((Assoc.keys entries).map some).idxOf (some name) = Assoc.index name entries := by
  induction entries with
  | nil => rfl
  | cons e entries ih =>
    rw [Assoc.keys_cons, List.map_cons, List.idxOf_cons, Assoc.index_cons, ih]
    by_cases h : e.1 = name
    · simp [h]
    · simp [h, beq_false_of_ne h]

/-- One round that removes the name, and the others. -/
theorem lookup_filter {entries' entries'' : List Entry} {key : CString}
    (h : entries'.lookup key = if key = name then none else entries.lookup key)
    (h' : entries''.lookup key = if key ∈ attrs then none else entries'.lookup key) :
    entries''.lookup key = if key ∈ name :: attrs then none else entries.lookup key := by
  rw [h', h]
  by_cases hname : key = name
  · simp [hname]
  · simp [hname]

theorem filterLoop_spec (zapped : Int) (h : Layout item entries)
    (hmiddle : ¬removesMiddle item.names attrs) :
    ∃ z item' entries', item.filterLoop zapped attrs = some (z, item') ∧ Layout item' entries' ∧
      ∀ key, entries'.lookup key = if key ∈ attrs then none else entries.lookup key := by
  induction attrs generalizing item entries zapped with
  | nil => exact ⟨zapped, item, entries, rfl, h, fun key => by simp⟩
  | cons name attrs ih =>
    rw [h.names, removesMiddle, List.length_map, Assoc.length_keys, idxOf_keys] at hmiddle
    split at hmiddle
    · next hle =>
      have hmem : name ∉ Assoc.keys entries := mt Assoc.index_lt.mpr (Nat.not_lt.mpr hle)
      rw [← h.names] at hmiddle
      obtain ⟨z, item', entries', hloop, hlayout, hlookup⟩ := ih zapped h hmiddle
      refine ⟨z, item', entries', ?_, hlayout, fun key => lookup_filter ?_ (hlookup key)⟩
      · rw [MediaAnalyticsItem.filterLoop, filterOne_notMem h hmem]
        exact hloop
      · split
        · next hkey => rw [hkey, Assoc.lookup_eq_none.mpr hmem]
        · rfl
    · next hlt =>
      split at hmiddle
      · next hlast =>
        have hmem : name ∈ Assoc.keys entries := Assoc.index_lt.mp (Nat.not_le.mp hlt)
        obtain ⟨item₁, hone, hlayout₁⟩ := filterOne_last h hlast
        rw [← hlayout₁.names_dropLast hlast] at hmiddle
        obtain ⟨z, item', entries', hloop, hlayout, hlookup⟩ := ih (zapped + 1) hlayout₁ hmiddle
        refine ⟨z, item', entries', ?_, hlayout, fun key => lookup_filter ?_ (hlookup key)⟩
        · rw [MediaAnalyticsItem.filterLoop, hone]
          exact hloop
        · exact Assoc.lookup_removeAt_index h.nodup hmem
      · exact absurd trivial hmiddle

theorem Represents.filter (h : Represents item m) (hmiddle : ¬removesMiddle item.names attrs) :
    ∃ n item', item.filter attrs = some (n, item') ∧
      Represents item' fun name => if name ∈ attrs then none else m name := by
  obtain ⟨entries, hlayout, hm⟩ := h
  by_cases hnil : attrs = []
  · refine ⟨-1, item, if_pos hnil, entries, hlayout, fun name => ?_⟩
    simp only [hnil, if_neg List.not_mem_nil, hm]
  · obtain ⟨z, item', entries', hloop, hlayout', hlookup⟩ := filterLoop_spec 0 hlayout hmiddle
    refine ⟨z, item', (if_neg hnil).trans hloop, entries', hlayout', fun name => ?_⟩
    simp only [hlookup, hm]

/-! ### A filter that goes wrong -/

/-- A slot behind those in use has a name. -/
def Stale (item : MediaAnalyticsItem) : Prop :=
  ∃ k prop, item.mPropCount ≤ k ∧ item.mProps[k]? = some prop ∧ prop.mName ≠ none

theorem Stale.not_tidy (h : Stale item) : ¬item.Tidy := by
  rintro htidy
  obtain ⟨k, prop, hk, hprop, hname⟩ := h
  have hmem : prop ∈ item.mProps.drop item.mPropCount := by
    refine List.mem_iff_getElem?.mpr ⟨k - item.mPropCount, ?_⟩
    rw [List.getElem?_drop, Nat.add_sub_cancel' hk, hprop]
  exact hname (htidy.cleared prop hmem).1

/-- The other slots are as before. -/
theorem clearAt_other {i k : Nat} (h : item.clearAt i = some item') (hne : i ≠ k) :
    item'.mPropCount = item.mPropCount ∧ item'.mProps[k]? = item.mProps[k]? := by
  obtain ⟨prop, -, h⟩ := Option.bind_eq_some_iff.mp h
  obtain ⟨⟨heap', prop'⟩, -, h⟩ := Option.bind_eq_some_iff.mp h
  obtain rfl := Option.some.inj h
  exact ⟨rfl, List.getElem?_set_ne hne⟩

/-- A round changes slots in use only. -/
theorem filterOne_other {found : Bool} {k : Nat} (h : item.filterOne name = some (found, item'))
    (hk : item.mPropCount ≤ k) :
    item'.mPropCount ≤ item.mPropCount ∧ item'.mProps[k]? = item.mProps[k]? := by
  obtain ⟨j, -, h⟩ := Option.bind_eq_some_iff.mp h
  split at h
  · cases h
    exact ⟨Nat.le_refl _, rfl⟩
  · next hj =>
    split at h
    · obtain ⟨item₁, hclear, h⟩ := Option.bind_eq_some_iff.mp h
      obtain ⟨hcount, hslot⟩ := clearAt_other hclear (by omega : j ≠ k)
      cases h
      exact ⟨by simp only [hcount]; omega, hslot⟩
    · obtain ⟨item₁, hclear, h⟩ := Option.bind_eq_some_iff.mp h
      obtain ⟨last, -, h⟩ := Option.bind_eq_some_iff.mp h
      obtain ⟨hcount, hslot⟩ := clearAt_other hclear (by omega : j ≠ k)
      cases h
      exact ⟨by simp only [hcount]; omega, (List.getElem?_set_ne (by omega)).trans hslot⟩

theorem Stale.filterLoop {zapped z : Int} (h : Stale item)
    (hloop : item.filterLoop zapped attrs = some (z, item')) : Stale item' := by
  induction attrs generalizing item zapped with
  | nil =>
    cases hloop
    exact h
  | cons name attrs ih =>
    obtain ⟨⟨found, item₁⟩, hone, hloop⟩ := Option.bind_eq_some_iff.mp hloop
    obtain ⟨k, prop, hk, hprop, hname⟩ := h
    obtain ⟨hcount, hslot⟩ := filterOne_other hone hk
    exact ih ⟨k, prop, Nat.le_trans hcount hk, hslot.trans hprop, hname⟩ hloop

/-- The slot that was brought down is not cleared. -/
theorem filterOne_middle {found : Bool} (h : Layout item entries)
    (hlt : Assoc.index name entries < entries.length)
    (hmiddle : Assoc.index name entries + 1 ≠ entries.length)
    (hone : item.filterOne name = some (found, item')) : Stale item' := by
  obtain ⟨prop, hprop, hholds⟩ := h.holds (i := entries.length - 1)
    (List.getElem?_eq_getElem (by omega))
  obtain ⟨p, hname, -⟩ := hholds.name
  rw [MediaAnalyticsItem.filterOne, h.findPropIndex] at hone
  simp only [Option.bind_eq_bind, Option.bind_some, h.count, if_neg (Nat.not_le.mpr hlt),
    if_neg hmiddle] at hone
  obtain ⟨item₁, hclear, hone⟩ := Option.bind_eq_some_iff.mp hone
  obtain ⟨last, -, hone⟩ := Option.bind_eq_some_iff.mp hone
  obtain ⟨hcount, hslot⟩ := clearAt_other hclear
    (by omega : Assoc.index name entries ≠ entries.length - 1)
  cases hone
  refine ⟨entries.length - 1, prop, ?_, ?_, by simp [hname]⟩
  · simp only [hcount, h.count]
    exact Nat.le_refl _
  · rw [List.getElem?_set_ne (by omega), hslot, hprop]

theorem filterLoop_middle {zapped z : Int} (h : Layout item entries)
    (hmiddle : removesMiddle item.names attrs)
    (hloop : item.filterLoop zapped attrs = some (z, item')) : Stale item' := by
  induction attrs generalizing item entries zapped with
  | nil => cases hmiddle
  | cons name attrs ih =>
    rw [h.names, removesMiddle, List.length_map, Assoc.length_keys, idxOf_keys] at hmiddle
    obtain ⟨⟨found, item₁⟩, hone, hloop⟩ := Option.bind_eq_some_iff.mp hloop
    split at hmiddle
    · next hle =>
      rw [filterOne_notMem h (mt Assoc.index_lt.mpr (Nat.not_lt.mpr hle))] at hone
      cases hone
      rw [← h.names] at hmiddle
      exact ih h hmiddle hloop
    · next hlt =>
      split at hmiddle
      · next hlast =>
        obtain ⟨item₂, hone₂, hlayout⟩ := filterOne_last h hlast
        rw [hone₂] at hone
        cases hone
        rw [← hlayout.names_dropLast hlast] at hmiddle
        exact ih hlayout hmiddle hloop
      · next hne => exact (filterOne_middle h (Nat.not_le.mp hlt) hne hone).filterLoop hloop

/-! ### Runs -/

theorem call_spec (plus : BitVec 64 → BitVec 64 → BitVec 64) (h : Represents item m) (call : Call)
    (hmiddle : ¬FiltersMiddle (some item) call) :
    ∃ item', item.call plus call = some item' ∧ Represents item' (m.call plus call) := by
  cases call with
  | setInt32 name value =>
    exact h.setValue (fun _ => Property.makes_plain rfl rfl) name
  | setInt64 name value =>
    exact h.setValue (fun _ => Property.makes_plain rfl rfl) name
  | setDouble name value =>
    exact h.setValue (fun _ => Property.makes_plain rfl rfl) name
  | setCString name value =>
    exact h.setValue (fun heap => Property.makes_malloc heap value) name
  | setRate name count duration =>
    exact h.setValue (fun _ => Property.makes_plain rfl rfl) name
  | addInt32 name value =>
    refine h.addValue (Property.sums_map ?_ (fun _ => rfl) fun _ _ => rfl) rfl rfl (fun _ => rfl) name
    exact fun _ _ _ hread => (PropValue.read_plain hread).1
  | addInt64 name value =>
    refine h.addValue (Property.sums_map ?_ (fun _ => rfl) fun _ _ => rfl) rfl rfl (fun _ => rfl) name
    exact fun _ _ _ hread => (PropValue.read_plain hread).2.1
  | addDouble name value =>
    refine h.addValue (Property.sums_map ?_ (fun _ => rfl) fun _ _ => rfl) rfl rfl (fun _ => rfl) name
    exact fun _ _ _ hread => (PropValue.read_plain hread).2.2.1
  | addRate name count duration =>
    refine h.addValue (Property.sums_map ?_ (fun _ => rfl) fun _ _ => rfl) rfl rfl (fun _ => rfl) name
    exact fun _ _ _ hread => (PropValue.read_plain hread).2.2.2
  | removeProp name =>
    obtain ⟨entries, hlayout, hm⟩ := h
    obtain ⟨found, item', entries', hremove, hlayout', hlookup⟩ := removeProp_spec hlayout
    refine ⟨item', congrArg (Option.map Prod.snd) hremove, entries', hlayout', fun key => ?_⟩
    rw [hlookup, PropMap.call, Function.update_apply, hm]
  | filter attrs =>
    obtain ⟨n, item', hfilter, hrepresents⟩ := h.filter hmiddle
    exact ⟨item', congrArg (Option.map Prod.snd) hfilter, hrepresents⟩
  | clear =>
    obtain ⟨entries, hlayout, -⟩ := h
    obtain ⟨item', hclear, hlayout'⟩ := clear_spec hlayout
    exact ⟨item', hclear, [], hlayout', fun _ => rfl⟩

theorem right_next (plus : BitVec 64 → BitVec 64 → BitVec 64) (h : Represents item m) (call : Call) :
    (ItemAndMap.next plus (some item, m) call).Right ↔ ¬FiltersMiddle (some item) call := by
  constructor
  · rintro ⟨item', hitem, htidy, -⟩ hmiddle
    cases call with
    | filter attrs =>
      obtain ⟨⟨n, item''⟩, hfilter, rfl⟩ := Option.map_eq_some_iff.mp hitem
      obtain ⟨entries, hlayout, -⟩ := h
      have hne : attrs ≠ [] := by
        rintro rfl
        exact hmiddle
      rw [MediaAnalyticsItem.filter, if_neg hne] at hfilter
      exact (filterLoop_middle hlayout hmiddle hfilter).not_tidy htidy
    | _ => exact hmiddle
  · intro hmiddle
    obtain ⟨item', hitem, hrepresents⟩ := call_spec plus h call hmiddle
    exact ⟨item', hitem, hrepresents.tidy, hrepresents.agrees⟩

/-- In a run, the item is right after each call exactly if no `filter` takes a name out of the
middle. -/
theorem isMap_iff (plus : BitVec 64 → BitVec 64 → BitVec 64) (calls : List Call) :
    IsMap plus calls ↔
      Along (ItemAndMap.next plus) (fun s call => ¬FiltersMiddle s.1 call) .start calls := by
  have hok : ∀ call ∈ calls, (fun _ : Call => True) call := fun _ _ => trivial
  refine Along.iff_while (I := fun s => ∃ item, s.1 = some item ∧ Represents item s.2) ?_ hok ?_
  · rintro ⟨_, m⟩ call ⟨item, rfl, h⟩ -
    refine ⟨right_next plus h call, fun hmiddle => ?_⟩
    obtain ⟨item', hitem, hrepresents⟩ := call_spec plus h call hmiddle
    exact ⟨item', hitem, hrepresents⟩
  · exact ⟨_, rfl, [], layout_nil _, fun _ => rfl⟩

/-- The property that `filter` brings down stays in its old slot too, where the next one to come
adds to its value. -/
theorem add_after_filter :
    let call : List Call := [.setInt32 (CString.ofBytes [97]) 1, .setInt32 (CString.ofBytes [98, 98]) 2,
      .filter [CString.ofBytes [97]], .addInt32 (CString.ofBytes [99]) 5]
    (call.foldlM (MediaAnalyticsItem.call fun _ _ => 0) {}).bind
        (fun item => item.getInt32 (CString.ofBytes [99])) = some (some 7) ∧
      ¬IsMap (fun _ _ => 0) call := by
  refine ⟨by decide, ?_⟩
  rintro ⟨-, -, -, ⟨item, hitem, -, hagrees⟩, -⟩
  have hread := hagrees.int32 (CString.ofBytes [99])
  cases hitem
  revert hread
  decide

end MediaFramework.MediaMetrics
