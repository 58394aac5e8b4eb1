import MediaFramework.MediaMetrics.PropLayout

/-!
# Filters of media analytics items

`filter` takes out the properties of the names, and so does `filterNot`, which is to keep them.
-/

namespace MediaFramework.MediaMetrics

/-! ### The functions -/

namespace Property

/-- The name as `strcmp` reads it. -/
def name? (heap : Heap CString) (prop : Property) : Option CString := prop.mName.bind heap.blocks

end Property

namespace MediaAnalyticsItem

/-- One round of the outer loop of `filterNot`. The slot is one of a name on the list, or it stays. -/
def filterNotOne (item : MediaAnalyticsItem) (attrs : List CString) (i : Nat) :
    Option (Bool × MediaAnalyticsItem) := do
  let prop ← item.mProps[i]?
  let mName ← prop.name? item.heap
  if mName ∈ attrs then
    let item ← item.clearAt i
    let last ← item.mProps[item.mPropCount - 1]?
    let mProps := if i ≠ item.mPropCount - 1 then item.mProps.set i last else item.mProps
    return (true, { item with
      mProps := mProps.set (item.mPropCount - 1) {}
      mPropCount := item.mPropCount - 1 })
  else return (false, item)

/-- The slots below `i` are still to come, from the last to the first. -/
def filterNotFrom (attrs : List CString) (item : MediaAnalyticsItem) (zapped : Int) :
    Nat → Option (Int × MediaAnalyticsItem)
  | 0 => some (zapped, item)
  | i + 1 => do
    let (found, item) ← item.filterNotOne attrs i
    filterNotFrom attrs item (if found then zapped + 1 else zapped) i

def filterNot (item : MediaAnalyticsItem) (attrs : List CString) :
    Option (Int × MediaAnalyticsItem) :=
  if attrs = [] then some (-1, item) else filterNotFrom attrs item 0 item.mPropCount

/-- The names and the values of the slots in use. -/
def properties (item : MediaAnalyticsItem) : List (Option Entry) :=
  (item.mProps.take item.mPropCount).map fun prop => do
    let name ← prop.name? item.heap
    let value ← prop.u.read item.heap
    return (name, value)

/-- A call has left the properties that are to be kept, with their values, and says how many it has
removed. -/
def Leaves (keep : CString → Bool) (item : MediaAnalyticsItem)
    (res : Option (Int × MediaAnalyticsItem)) : Prop :=
  ∃ n item', res = some (n, item') ∧
    item'.properties.Perm (item.properties.filter fun entry => entry.any fun e => keep e.1) ∧
    item'.mPropCount = (item.properties.filter fun entry => entry.any fun e => keep e.1).length ∧
    n = (item.properties.filter fun entry => entry.any fun e => !keep e.1).length

/-- `filter` removes the properties of the names, and `filterNot` the others. -/
def Complementary (item : MediaAnalyticsItem) (attrs : List CString) : Prop :=
  item.Leaves (fun name => name ∉ attrs) (item.filter attrs) ∧
    item.Leaves (fun name => name ∈ attrs) (item.filterNot attrs)

end MediaAnalyticsItem

variable {item item' : MediaAnalyticsItem} {entries : List Entry} {heap heap' : Heap CString}
  {name : CString} {attrs : List CString} {i : Nat}

/-! ### Slots in use -/

/-- The slots in use hold the entries, whatever the others hold. -/
structure Slots (item : MediaAnalyticsItem) (entries : List Entry) : Prop where
  holds : ∀ (i : Nat) (entry : Entry), entries[i]? = some entry →
    ∃ prop : Property, item.mProps[i]? = some prop ∧ prop.Holds item.heap entry
  apart : ∀ (i j : Nat) (prop prop' : Property), i < entries.length → j < entries.length →
    item.mProps[i]? = some prop → item.mProps[j]? = some prop' → i ≠ j →
      ∀ p ∈ prop.pointers, p ∉ prop'.pointers
  count : item.mPropCount = entries.length
  nodup : (Assoc.keys entries).Nodup

theorem Layout.slots (h : Layout item entries) : Slots item entries where
  holds _ _ hi := h.holds hi
  apart i j prop prop' _ _ hi hj hne := h.memory.apart i j prop prop' hi hj hne
  count := h.count
  nodup := h.nodup

theorem Slots.forall₂ (h : Slots item entries) :
    List.Forall₂ (Property.Holds item.heap) (item.mProps.take item.mPropCount) entries := by
  have hget : ∀ i (hi : i < entries.length), ∃ hi' : i < item.mProps.length,
      item.mProps[i].Holds item.heap entries[i] := by
    intro i hi
    obtain ⟨prop, hprop, hholds⟩ := h.holds i _ (List.getElem?_eq_getElem hi)
    obtain ⟨hi', rfl⟩ := List.getElem?_eq_some_iff.mp hprop
    exact ⟨hi', hholds⟩
  have hroom : entries.length ≤ item.mProps.length := by
    by_contra hless
    obtain ⟨hi, -⟩ := hget item.mProps.length (Nat.lt_of_not_le hless)
    exact Nat.lt_irrefl _ hi
  have hlength : (item.mProps.take item.mPropCount).length = entries.length := by
    rw [List.length_take, h.count, Nat.min_eq_left hroom]
  refine List.forall₂_iff_get.mpr ⟨hlength, fun i hi hi' => ?_⟩
  obtain ⟨_, hholds⟩ := hget i hi'
  simpa using hholds

theorem properties_eq {props : List Property}
    (h : List.Forall₂ (Property.Holds heap) props entries) :
    (props.map fun prop => do
      let name ← prop.name? heap
      let value ← prop.u.read heap
      return (name, value)) = entries.map some := by
  induction h with
  | nil => rfl
  | cons hholds _ ih =>
    obtain ⟨p, hp, hblock⟩ := hholds.name
    rw [List.map_cons, List.map_cons, ih, Property.name?, hp, Option.bind_some, hblock,
      hholds.value]
    rfl

theorem Slots.properties (h : Slots item entries) : item.properties = entries.map some :=
  properties_eq h.forall₂

theorem Slots.findPropIndex (h : Slots item entries) :
    item.findPropIndex name = some (Assoc.index name entries) :=
  findIndex_eq h.forall₂

theorem Slots.clearAt (h : Slots item entries) (hi : i < entries.length) :
    ∃ prop heap', item.mProps[i]? = some prop ∧ item.heap.Keeps prop.pointers heap' ∧
      item.clearAt i = some { item with mProps := item.mProps.set i {}, heap := heap' } := by
  obtain ⟨prop, hprop, hholds⟩ := h.holds i _ (List.getElem?_eq_getElem hi)
  obtain ⟨heap', hclear, hkeeps⟩ := Property.clearProp_spec hholds
  refine ⟨prop, heap', hprop, hkeeps, ?_⟩
  rw [MediaAnalyticsItem.clearAt, MediaAnalyticsItem.onProp, hprop]
  simp only [Option.bind_eq_bind, Option.bind_some, hclear, Option.pure_def]

/-- A slot is cleared, and the last one is in its place. -/
theorem Slots.removeAt (h : Slots item entries) (hi : i < entries.length) {prop : Property}
    (hprop : item.mProps[i]? = some prop) (hkeeps : item.heap.Keeps prop.pointers heap')
    {mProps : List Property} (hslots : ∀ j < entries.length - 1,
      mProps[j]? = item.mProps[if j = i then entries.length - 1 else j]?) :
    Slots ⟨mProps, entries.length - 1, heap'⟩ (Assoc.removeAt i entries) := by
  have hlength : (Assoc.removeAt i entries).length = entries.length - 1 := by
    have hperm := (Assoc.removeAt_perm hi).length_eq
    rw [List.length_cons] at hperm
    omega
  -- where a slot has been before
  have hmove : ∀ j < entries.length - 1, (if j = i then entries.length - 1 else j) ≠ i ∧
      (if j = i then entries.length - 1 else j) < entries.length := by
    intro j hj
    split <;> omega
  refine ⟨fun j entry hj => ?_, fun j k prop₁ prop₂ hj hk hprop₁ hprop₂ hne => ?_, hlength.symm,
    Assoc.nodup_removeAt h.nodup hi⟩
  · have hlt : j < entries.length - 1 := by
      rw [← hlength]
      exact (List.getElem?_eq_some_iff.mp hj).1
    obtain ⟨hother, hinside⟩ := hmove j hlt
    have hentry : entries[if j = i then entries.length - 1 else j]? = some entry := by
      rw [Assoc.getElem?_removeAt hi, if_neg (Nat.ne_of_lt hlt)] at hj
      rw [← hj]
      split <;> rfl
    obtain ⟨prop', hprop', hholds⟩ := h.holds _ _ hentry
    refine ⟨prop', (hslots j hlt).trans hprop', hholds.keeps hkeeps ?_⟩
    exact h.apart _ _ prop' prop hinside hi hprop' hprop hother
  · rw [hlength] at hj hk
    rw [hslots j hj] at hprop₁
    rw [hslots k hk] at hprop₂
    refine h.apart _ _ prop₁ prop₂ (hmove j hj).2 (hmove k hk).2 hprop₁ hprop₂ ?_
    split <;> split <;> omega

/-! ### One round -/

theorem Slots.filterOne (h : Slots item entries) (hmem : name ∈ Assoc.keys entries) :
    ∃ item', item.filterOne name = some (true, item') ∧
      Slots item' (Assoc.removeAt (Assoc.index name entries) entries) := by
  have hi := Assoc.index_lt.mpr hmem
  obtain ⟨prop, heap', hprop, hkeeps, hclear⟩ := h.clearAt hi
  rw [MediaAnalyticsItem.filterOne, h.findPropIndex]
  simp only [Option.bind_eq_bind, Option.bind_some, h.count, if_neg (Nat.not_le.mpr hi), hclear,
    Option.pure_def]
  generalize Assoc.index name entries = i at hi hprop
  split
  · next hlast =>
    refine ⟨_, rfl, h.removeAt hi hprop hkeeps fun j hj => ?_⟩
    rw [List.getElem?_set_ne (by omega), if_neg (by omega)]
  · next hlast =>
    obtain ⟨last, hlastProp, -⟩ := h.holds (entries.length - 1) _
      (List.getElem?_eq_getElem (by omega))
    rw [List.getElem?_set_ne (by omega), hlastProp]
    refine ⟨_, rfl, h.removeAt hi hprop hkeeps fun j hj => ?_⟩
    rw [List.set_set, List.getElem?_set]
    by_cases hj : i = j
    · rw [if_pos hj, if_pos hj.symm, hlastProp, if_pos (List.getElem?_eq_some_iff.mp hprop).1]
    · rw [if_neg hj, if_neg (Ne.symm hj)]

theorem Slots.filterOne_absent (h : Slots item entries) (hmem : name ∉ Assoc.keys entries) :
    item.filterOne name = some (false, item) := by
  rw [MediaAnalyticsItem.filterOne, h.findPropIndex, Assoc.index_of_notMem hmem]
  simp only [Option.bind_eq_bind, Option.bind_some, h.count, if_pos (Nat.le_refl _), Option.pure_def]

theorem Slots.filterNotOne (h : Slots item entries) (attrs : List CString) (hi : i < entries.length) :
    if entries[i].1 ∈ attrs then
      ∃ item', item.filterNotOne attrs i = some (true, item') ∧
        Slots item' (Assoc.removeAt i entries)
    else item.filterNotOne attrs i = some (false, item) := by
  obtain ⟨prop, heap', hprop, hkeeps, hclear⟩ := h.clearAt hi
  obtain ⟨prop', hprop', hholds⟩ := h.holds i _ (List.getElem?_eq_getElem hi)
  obtain rfl := Option.some.inj (hprop.symm.trans hprop')
  obtain ⟨p, hp, hblock⟩ := hholds.name
  have hname : prop.name? item.heap = some entries[i].1 := by
    rw [Property.name?, hp, Option.bind_some, hblock]
  rw [MediaAnalyticsItem.filterNotOne, hprop]
  simp only [Option.bind_eq_bind, Option.bind_some, hname]
  split
  · obtain ⟨last, hlastProp, -⟩ := h.holds (entries.length - 1) _
      (List.getElem?_eq_getElem (by omega))
    have hlength := (List.getElem?_eq_some_iff.mp hlastProp).1
    obtain ⟨last', hlast'⟩ : ∃ last', (item.mProps.set i {})[entries.length - 1]? = some last' :=
      ⟨_, List.getElem?_eq_getElem (by rw [List.length_set]; exact hlength)⟩
    simp only [hclear, Option.bind_some, h.count, hlast', Option.pure_def]
    refine ⟨_, rfl, h.removeAt hi hprop hkeeps fun j hj => ?_⟩
    rw [List.getElem?_set_ne (by omega)]
    by_cases hlast : i = entries.length - 1
    · rw [if_neg (not_not.mpr hlast), List.getElem?_set_ne (by omega), if_neg (by omega)]
    · rw [List.getElem?_set_ne (Ne.symm (Ne.symm hlast)), hlastProp] at hlast'
      rw [if_pos hlast, List.set_set, List.getElem?_set, ← Option.some.inj hlast']
      by_cases hj : i = j
      · rw [if_pos hj, if_pos hj.symm, hlastProp, if_pos (List.getElem?_eq_some_iff.mp hprop).1]
      · rw [if_neg hj, if_neg (Ne.symm hj)]
  · rfl

/-! ### The loops -/

theorem filter_removeAt (hnodup : (Assoc.keys entries).Nodup) (hmem : name ∈ Assoc.keys entries) :
    (entries.filter fun e => e.1 ∉ name :: attrs).Perm
      ((Assoc.removeAt (Assoc.index name entries) entries).filter fun e => e.1 ∉ attrs) := by
  have hi := Assoc.index_lt.mpr hmem
  have hname := Assoc.key_getElem_index hi
  have hperm := Assoc.removeAt_perm hi
  have hothers : name ∉ Assoc.keys (Assoc.removeAt (Assoc.index name entries) entries) := by
    have hkeys := (hperm.map Prod.fst).nodup_iff.mp hnodup
    rw [List.map_cons, hname] at hkeys
    exact (List.nodup_cons.mp hkeys).1
  have hfilter := hperm.filter fun e => e.1 ∉ name :: attrs
  rw [List.filter_cons_of_neg (by simp [hname])] at hfilter
  have hsame : (Assoc.removeAt (Assoc.index name entries) entries).filter
      (fun e => e.1 ∉ name :: attrs) =
        (Assoc.removeAt (Assoc.index name entries) entries).filter fun e => e.1 ∉ attrs := by
    refine List.filter_congr fun e he => ?_
    have hne : e.1 ≠ name := ne_of_mem_of_not_mem (Assoc.key_mem he) hothers
    simp [hne]
  rwa [hsame] at hfilter

theorem Slots.filterLoop (h : Slots item entries) (zapped : Int) (attrs : List CString) :
    ∃ z item' entries', item.filterLoop zapped attrs = some (z, item') ∧ Slots item' entries' ∧
      entries'.Perm (entries.filter fun e => e.1 ∉ attrs) ∧
      z + entries'.length = zapped + entries.length := by
  induction attrs generalizing item entries zapped with
  | nil =>
    have hall : (entries.filter fun e => e.1 ∉ ([] : List CString)) = entries :=
      List.filter_eq_self.mpr fun e _ => by simp
    exact ⟨zapped, item, entries, rfl, h, by rw [hall], rfl⟩
  | cons name attrs ih =>
    rw [MediaAnalyticsItem.filterLoop]
    by_cases hmem : name ∈ Assoc.keys entries
    · obtain ⟨item₁, hone, hslots₁⟩ := h.filterOne hmem
      obtain ⟨z, item', entries', hloop, hslots', hperm, hcount⟩ := ih hslots₁ (zapped + 1)
      refine ⟨z, item', entries', ?_, hslots',
        hperm.trans (filter_removeAt h.nodup hmem).symm, ?_⟩
      · rw [hone]
        exact hloop
      · have hlength := (Assoc.removeAt_perm (Assoc.index_lt.mpr hmem)).length_eq
        rw [List.length_cons] at hlength
        omega
    · obtain ⟨z, item', entries', hloop, hslots', hperm, hcount⟩ := ih h zapped
      have hsame : (entries.filter fun e => e.1 ∉ name :: attrs) =
          entries.filter fun e => e.1 ∉ attrs := by
        refine List.filter_congr fun e he => ?_
        have hne : e.1 ≠ name := ne_of_mem_of_not_mem (Assoc.key_mem he) hmem
        simp [hne]
      refine ⟨z, item', entries', ?_, hslots', by rw [hsame]; exact hperm, hcount⟩
      rw [h.filterOne_absent hmem]
      exact hloop

/-- The slots that the loop has passed hold properties that are not on the list. -/
theorem Slots.filterNotFrom (h : Slots item entries) (attrs : List CString) (hi : i ≤ entries.length)
    (hpassed : ∀ j entry, i ≤ j → entries[j]? = some entry → entry.1 ∉ attrs) (zapped : Int) :
    ∃ z item' entries', MediaAnalyticsItem.filterNotFrom attrs item zapped i = some (z, item') ∧
      Slots item' entries' ∧ entries'.Perm (entries.filter fun e => e.1 ∉ attrs) ∧
      z + entries'.length = zapped + entries.length := by
  induction i generalizing item entries zapped with
  | zero =>
    have hall : (entries.filter fun e => e.1 ∉ attrs) = entries := by
      refine List.filter_eq_self.mpr fun e he => ?_
      obtain ⟨j, hj⟩ := List.mem_iff_getElem?.mp he
      exact decide_eq_true (hpassed j e (Nat.zero_le j) hj)
    exact ⟨zapped, item, entries, rfl, h, by rw [hall], rfl⟩
  | succ i ih =>
    have hone := h.filterNotOne attrs hi
    rw [MediaAnalyticsItem.filterNotFrom]
    split at hone
    · next hlisted =>
      obtain ⟨item₁, hone, hslots₁⟩ := hone
      have hperm₁ := Assoc.removeAt_perm hi
      have hlength := hperm₁.length_eq
      rw [List.length_cons] at hlength
      have hpassed₁ : ∀ j entry, i ≤ j → (Assoc.removeAt i entries)[j]? = some entry →
          entry.1 ∉ attrs := by
        intro j entry hj hentry
        rw [Assoc.getElem?_removeAt hi] at hentry
        split at hentry
        · cases hentry
        split at hentry
        · exact hpassed _ entry (by omega) hentry
        · exact hpassed _ entry (by omega) hentry
      obtain ⟨z, item', entries', hloop, hslots', hperm, hcount⟩ :=
        ih hslots₁ (by omega) hpassed₁ (zapped + 1)
      have hfilter := hperm₁.filter fun e => e.1 ∉ attrs
      rw [List.filter_cons_of_neg (by simpa using hlisted)] at hfilter
      refine ⟨z, item', entries', ?_, hslots', hperm.trans hfilter.symm, by omega⟩
      rw [hone]
      exact hloop
    · next hkept =>
      have hpassed₁ : ∀ j entry, i ≤ j → entries[j]? = some entry → entry.1 ∉ attrs := by
        intro j entry hj hentry
        obtain rfl | hlt := Nat.eq_or_lt_of_le hj
        · rw [List.getElem?_eq_getElem hi] at hentry
          rwa [← Option.some.inj hentry]
        · exact hpassed j entry hlt hentry
      obtain ⟨z, item', entries', hloop, hslots', hperm, hcount⟩ :=
        ih h (Nat.le_of_succ_le hi) hpassed₁ zapped
      refine ⟨z, item', entries', ?_, hslots', hperm, hcount⟩
      rw [hone]
      exact hloop

/-! ### Calls -/

theorem Slots.leaves {keep : CString → Bool} {z : Int} {entries' : List Entry}
    (h : Slots item entries) (h' : Slots item' entries')
    (hperm : entries'.Perm (entries.filter fun e => keep e.1))
    (hcount : z + entries'.length = 0 + entries.length) : item.Leaves keep (some (z, item')) := by
  have hmap : ∀ keep : CString → Bool, ((entries.map some).filter fun entry => entry.any fun e => keep e.1) =
      (entries.filter fun e => keep e.1).map some := by
    intro keep
    rw [List.filter_map]
    rfl
  have hlength := hperm.length_eq
  have hsum := List.length_eq_length_filter_add (l := entries) fun e => keep e.1
  refine ⟨z, item', rfl, ?_, ?_, ?_⟩
  · rw [h.properties, h'.properties, hmap]
    exact hperm.map some
  · rw [h.properties, hmap, List.length_map, h'.count, hlength]
  · rw [h.properties, hmap fun name => !keep name, List.length_map]
    omega

theorem Slots.filter (h : Slots item entries) (hattrs : attrs ≠ []) :
    item.Leaves (fun name => name ∉ attrs) (item.filter attrs) := by
  obtain ⟨z, item', entries', hloop, hslots', hperm, hcount⟩ := h.filterLoop 0 attrs
  rw [MediaAnalyticsItem.filter, if_neg hattrs, hloop]
  exact h.leaves hslots' hperm hcount

/-- What `filterNot` leaves is what `filter` leaves. -/
theorem Slots.filterNot (h : Slots item entries) (hattrs : attrs ≠ []) :
    item.Leaves (fun name => name ∉ attrs) (item.filterNot attrs) := by
  obtain ⟨z, item', entries', hloop, hslots', hperm, hcount⟩ :=
    h.filterNotFrom attrs (i := item.mPropCount) (Nat.le_of_eq h.count)
      (fun j entry hj hentry => absurd (List.getElem?_eq_some_iff.mp hentry).1
        (Nat.not_lt.mpr (h.count ▸ hj))) 0
  rw [MediaAnalyticsItem.filterNot, if_neg hattrs, hloop]
  exact h.leaves hslots' hperm hcount

/-- No property is both on the list and not on it. -/
theorem Slots.not_complementary (h : Slots item entries) (hattrs : attrs ≠ [])
    (hentries : entries ≠ []) : ¬item.Complementary attrs := by
  rintro ⟨-, z, item', hres, hperm, -, -⟩
  obtain ⟨z', item'', hres', hperm', -, -⟩ := h.filterNot hattrs
  obtain ⟨rfl, rfl⟩ := Prod.mk.inj (Option.some.inj (hres.symm.trans hres'))
  obtain ⟨e, rest, rfl⟩ := List.exists_cons_of_ne_nil hentries
  have hboth := (hperm.symm.trans hperm').mem_iff (a := some e)
  rw [h.properties] at hboth
  by_cases hlisted : e.1 ∈ attrs
  · simp [hlisted] at hboth
  · simp [hlisted] at hboth

/-- The two functions are complementary for items without properties only. -/
theorem complementary_iff (h : Slots item entries) (hattrs : attrs ≠ []) :
    item.Complementary attrs ↔ item.mPropCount = 0 := by
  constructor
  · intro hboth
    by_contra hcount
    refine h.not_complementary hattrs ?_ hboth
    rintro rfl
    exact hcount h.count
  · intro hcount
    obtain rfl := List.eq_nil_of_length_eq_zero (h.count.symm.trans hcount)
    refine ⟨h.filter hattrs, ?_⟩
    obtain ⟨z, item', hres, hperm, hcount', hz⟩ := h.filterNot hattrs
    rw [h.properties] at hperm hcount' hz
    refine ⟨z, item', hres, ?_⟩
    rw [h.properties]
    exact ⟨hperm, hcount', hz⟩

/-- An `int32` property, in an item that keeps its properties well. -/
theorem Layout.setInt32 (h : Layout item entries) (name : CString) (value : BitVec 32) :
    ∃ item' entries', item.setInt32 name value = some item' ∧ Layout item' entries' ∧
      entries' ≠ [] := by
  have hupdates : Updates (MediaAnalyticsItem.setValue fun heap => (heap, .int32Value value))
      fun _ => .int32Value value := fun _ _ _ _ hholds =>
    Property.setValue_spec (fun _ => Property.makes_plain rfl rfl) hholds
  obtain ⟨item', entries', hitem, hlayout, hlookup⟩ := update_spec hupdates h name
  refine ⟨item', entries', hitem, hlayout, ?_⟩
  rintro rfl
  have hnone := hlookup name
  rw [if_pos rfl] at hnone
  cases hnone

/-- Of `a`, `b` and `c`, only `b` is on the list. The item without properties is the exception. -/
theorem complementary_iff_threeProps :
    let attrs := [CString.ofBytes [98], CString.ofBytes [100]]
    (∃ item', ((MediaAnalyticsItem.setInt32 {} (CString.ofBytes [97]) 1).bind fun item =>
          (item.setInt32 (CString.ofBytes [98]) 2).bind fun item =>
            item.setInt32 (CString.ofBytes [99]) 3) = some item' ∧
        item'.mPropCount = 3 ∧ ¬item'.Complementary attrs) ∧
      MediaAnalyticsItem.Complementary {} attrs := by
  intro attrs
  have hattrs : attrs ≠ [] := List.cons_ne_nil _ _
  obtain ⟨item₁, _, hitem₁, hlayout₁, -⟩ :=
    (layout_nil .empty).setInt32 (CString.ofBytes [97]) 1
  obtain ⟨item₂, _, hitem₂, hlayout₂, -⟩ := hlayout₁.setInt32 (CString.ofBytes [98]) 2
  obtain ⟨item₃, _, hitem₃, hlayout₃, -⟩ := hlayout₂.setInt32 (CString.ofBytes [99]) 3
  have hthree : ((MediaAnalyticsItem.setInt32 {} (CString.ofBytes [97]) 1).bind fun item =>
      (item.setInt32 (CString.ofBytes [98]) 2).bind fun item =>
        item.setInt32 (CString.ofBytes [99]) 3) = some item₃ := by
    rw [hitem₁, Option.bind_some, hitem₂, Option.bind_some, hitem₃]
  have hcount : item₃.mPropCount = 3 := by
    have hmap := congrArg (Option.map (·.mPropCount)) hthree
    exact Option.some.inj (hmap.symm.trans (by decide +kernel))
  refine ⟨⟨item₃, hthree, hcount, fun hboth => ?_⟩,
    (complementary_iff (layout_nil .empty).slots hattrs).mpr rfl⟩
  rw [complementary_iff hlayout₃.slots hattrs, hcount] at hboth
  cases hboth

/-- The only property, which is on the list, does not stay. -/
theorem filterNot_removes_listed :
    ∃ item', MediaAnalyticsItem.setInt32 {} (CString.ofBytes [97]) 1 = some item' ∧
      ¬item'.Complementary [CString.ofBytes [97]] := by
  obtain ⟨item', entries', hitem, hlayout, hentries⟩ :=
    (layout_nil .empty).setInt32 (CString.ofBytes [97]) 1
  exact ⟨item', hitem, hlayout.slots.not_complementary (List.cons_ne_nil _ _) hentries⟩

end MediaFramework.MediaMetrics
