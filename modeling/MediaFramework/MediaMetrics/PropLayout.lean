import MediaFramework.MediaMetrics.PropMemory

/-!
# The slots of an item

The invariant of a media analytics item: the slots in use hold entries with distinct names, the others
are cleared, and no memory is owned twice. Each operation, the removal of a property in the middle by
`filter` excepted, keeps it.
-/

namespace MediaFramework.MediaMetrics

variable {heap heap' : Heap CString} {prop prop' : Property} {props : List Property} {name : CString}
  {v : PropValue CString} {entries : List Entry} {item : MediaAnalyticsItem} {i : Nat}
  {contents : Nat → Option Entry} {content : Option Entry}

/-! ### Memory -/

/-- Slots with their contents, of which none owns the memory of another. -/
structure Memory (heap : Heap CString) (props : List Property) (contents : Nat → Option Entry) :
    Prop where
  is : ∀ (i : Nat) (prop : Property), props[i]? = some prop → prop.Is heap (contents i)
  apart : ∀ (i j : Nat) (prop prop' : Property), props[i]? = some prop → props[j]? = some prop' → i ≠ j →
    ∀ p ∈ prop.pointers, p ∉ prop'.pointers

theorem Memory.set (h : Memory heap props contents) (hprop : props[i]? = some prop)
    (hstep : Property.Step heap prop heap' prop') (his : prop'.Is heap' content) :
    Memory heap' (props.set i prop') (Function.update contents i content) := by
  have hother : ∀ j other, i ≠ j → (props.set i prop')[j]? = some other → props[j]? = some other := by
    intro j other hne hj
    rwa [List.getElem?_set_ne hne] at hj
  have hself : ∀ other, (props.set i prop')[i]? = some other → other = prop' := by
    intro other hi
    rw [List.getElem?_set_self (List.getElem?_eq_some_iff.mp hprop).1] at hi
    exact (Option.some.inj hi).symm
  -- what the slot owns now is its own, or new
  have hnew : ∀ j other, i ≠ j → props[j]? = some other →
      ∀ p ∈ prop'.pointers, p ∉ other.pointers := by
    intro j other hne hj p hp hmem
    obtain hold | hfresh := hstep.pointers p hp
    · exact h.apart i j prop other hprop hj hne p hold hmem
    · have hlt := (h.is j other hj).lt_next p hmem
      omega
  constructor
  · intro j other hj
    by_cases hne : i = j
    · subst hne
      rw [hself other hj, Function.update_self]
      exact his
    · have hj' := hother j other hne hj
      rw [Function.update_of_ne (Ne.symm hne)]
      exact (h.is j other hj').keeps hstep.keeps (h.apart j i other prop hj' hprop (Ne.symm hne))
  · intro j k a b hj hk hne
    by_cases hij : i = j
    · subst hij
      rw [hself a hj]
      exact hnew k b hne (hother k b hne hk)
    · by_cases hik : i = k
      · subst hik
        rw [hself b hk]
        exact fun p hp hmem => hnew j a hij (hother j a hij hj) p hmem hp
      · exact h.apart j k a b (hother j a hij hj) (hother k b hik hk) hne

theorem Memory.holds (h : Memory heap props contents) (hi : i < props.length) {entry : Entry}
    (hcontent : contents i = some entry) :
    ∃ prop, props[i]? = some prop ∧ prop.Holds heap entry := by
  have hprop := List.getElem?_eq_getElem hi
  have his := h.is i _ hprop
  rw [hcontent] at his
  exact ⟨_, hprop, his⟩

theorem Memory.cleared (h : Memory heap props contents) (hi : i < props.length)
    (hcontent : contents i = none) : props[i]? = some {} := by
  have hprop := List.getElem?_eq_getElem hi
  have his := h.is i _ hprop
  rw [hcontent] at his
  rw [hprop, show props[i] = {} from his]

/-! ### Operations on the slots of an item -/

/-- The item has as many slots as before, with these contents. -/
structure Rewritten (item : MediaAnalyticsItem) (contents : Nat → Option Entry)
    (item' : MediaAnalyticsItem) : Prop where
  memory : Memory item'.heap item'.mProps contents
  count : item'.mPropCount = item.mPropCount
  length : item'.mProps.length = item.mProps.length

theorem Rewritten.trans {item₁ item₂ : MediaAnalyticsItem} {contents' : Nat → Option Entry}
    (h : Rewritten item contents item₁) (h' : Rewritten item₁ contents' item₂) :
    Rewritten item contents' item₂ :=
  ⟨h'.memory, h'.count.trans h.count, h'.length.trans h.length⟩

theorem onProp_spec {f : Heap CString → Property → Option (Heap CString × Property)}
    (h : Memory item.heap item.mProps contents) (hprop : item.mProps[i]? = some prop)
    (hf : f item.heap prop = some (heap', prop')) (hstep : Property.Step item.heap prop heap' prop')
    (his : prop'.Is heap' content) :
    ∃ item', item.onProp i f = some item' ∧
      Rewritten item (Function.update contents i content) item' := by
  refine ⟨{ item with mProps := item.mProps.set i prop', heap := heap' }, ?_, ?_⟩
  · rw [MediaAnalyticsItem.onProp, hprop]
    simp only [Option.bind_eq_bind, Option.bind_some, hf, Option.pure_def]
  · exact ⟨h.set hprop hstep his, rfl, List.length_set⟩

theorem clearAt_spec (h : Memory item.heap item.mProps contents) (hi : i < item.mProps.length)
    {entry : Entry} (hcontent : contents i = some entry) :
    ∃ item', item.clearAt i = some item' ∧ Rewritten item (Function.update contents i none) item' := by
  obtain ⟨prop, hprop, hholds⟩ := h.holds hi hcontent
  obtain ⟨heap', hclear, hk⟩ := Property.clearProp_spec hholds
  refine onProp_spec h hprop hclear ⟨hk, fun _ hp => absurd hp List.not_mem_nil⟩ ?_
  rfl

/-! ### Layout -/

/-- The slots in use hold the entries, in their order. -/
structure Layout (item : MediaAnalyticsItem) (entries : List Entry) : Prop where
  memory : Memory item.heap item.mProps fun i => entries[i]?
  count : item.mPropCount = entries.length
  room : entries.length ≤ item.mProps.length
  nodup : (Assoc.keys entries).Nodup

theorem layout_nil (heap : Heap CString) : Layout { heap } [] where
  memory := ⟨fun _ _ h => (Option.some_ne_none _ h.symm).elim,
    fun _ _ _ _ h => (Option.some_ne_none _ h.symm).elim⟩
  count := rfl
  room := Nat.le_refl 0
  nodup := List.nodup_nil

theorem Layout.holds (h : Layout item entries) {entry : Entry} (hi : entries[i]? = some entry) :
    ∃ prop, item.mProps[i]? = some prop ∧ prop.Holds item.heap entry :=
  h.memory.holds (Nat.lt_of_lt_of_le (List.getElem?_eq_some_iff.mp hi).1 h.room) hi

theorem findIndex_eq (h : List.Forall₂ (Property.Holds heap) props entries) :
    findIndex heap name props = some (Assoc.index name entries) := by
  induction h with
  | nil => rfl
  | @cons prop entry props entries hholds _ ih =>
    rw [findIndex, hholds.named, ih, Assoc.index_cons]
    by_cases hname : entry.1 = name
    · simp [hname]
    · simp [hname]

theorem Layout.forall₂ (h : Layout item entries) :
    List.Forall₂ (Property.Holds item.heap) (item.mProps.take item.mPropCount) entries := by
  have hlength : (item.mProps.take item.mPropCount).length = entries.length := by
    rw [List.length_take, h.count, Nat.min_eq_left h.room]
  refine List.forall₂_iff_get.mpr ⟨hlength, fun i hi hi' => ?_⟩
  obtain ⟨prop, hprop, hholds⟩ := h.holds (List.getElem?_eq_getElem hi')
  have hget : item.mProps[i]? = some (item.mProps.take item.mPropCount)[i] := by
    rw [List.getElem_take, List.getElem?_eq_getElem]
  rw [hget] at hprop
  obtain rfl := Option.some.inj hprop
  exact hholds

theorem Layout.findPropIndex (h : Layout item entries) :
    item.findPropIndex name = some (Assoc.index name entries) :=
  findIndex_eq h.forall₂

theorem Layout.growProps (h : Layout item entries) : Layout item.growProps entries := by
  have hnew : ∀ (i : Nat) (prop : Property), item.growProps.mProps[i]? = some prop →
      item.mProps[i]? = some prop ∨ prop = {} ∧ entries[i]? = none := by
    intro i prop hi
    rw [MediaAnalyticsItem.growProps, List.getElem?_append] at hi
    split at hi
    · exact .inl hi
    · next hge =>
      have hroom := h.room
      exact .inr ⟨List.eq_of_mem_replicate (List.mem_of_getElem? hi),
        List.getElem?_eq_none (by omega)⟩
  constructor
  · constructor
    · intro i prop hi
      obtain hi | ⟨rfl, hnone⟩ := hnew i prop hi
      · exact h.memory.is i prop hi
      · rw [hnone]
        rfl
    · intro i j prop prop' hi hj hne p hp
      obtain hi | ⟨rfl, -⟩ := hnew i prop hi
      · obtain hj | ⟨rfl, -⟩ := hnew j prop' hj
        · exact h.memory.apart i j prop prop' hi hj hne p hp
        · exact List.not_mem_nil
      · exact absurd hp List.not_mem_nil
  · exact h.count
  · have hroom := h.room
    simp only [MediaAnalyticsItem.growProps, List.length_append]
    omega
  · exact h.nodup

theorem Rewritten.layout {item' : MediaAnalyticsItem} {entries' : List Entry} {n : Nat}
    (h : Rewritten item contents item') (hcontents : ∀ j, contents j = entries'[j]?)
    (hcount : n = entries'.length) (hroom : entries'.length ≤ item.mProps.length)
    (hnodup : (Assoc.keys entries').Nodup) : Layout { item' with mPropCount := n } entries' := by
  have heq : (fun i => entries'[i]?) = contents := by
    funext j
    exact (hcontents j).symm
  refine ⟨?_, hcount, ?_, hnodup⟩
  · rw [heq]
    exact h.memory
  · exact Nat.le_trans hroom (Nat.le_of_eq h.length.symm)

theorem allocateProp_spec (h : Layout item entries) (name : CString) :
    ∃ item', item.allocateProp name =
        some (Assoc.index name (Assoc.put name ((entries.lookup name).getD .kTypeNone) entries), item') ∧
      Layout item' (Assoc.put name ((entries.lookup name).getD .kTypeNone) entries) := by
  by_cases hmem : name ∈ Assoc.keys entries
  · have hlt := Assoc.index_lt.mpr hmem
    obtain ⟨v, hv⟩ := Option.ne_none_iff_exists'.mp fun hnone => Assoc.lookup_eq_none.mp hnone hmem
    rw [hv, Option.getD_some, Assoc.put_lookup hv]
    refine ⟨item, ?_, h⟩
    rw [MediaAnalyticsItem.allocateProp, h.findPropIndex]
    simp only [Option.bind_eq_bind, Option.bind_some, h.count, if_pos hlt, Option.pure_def]
  · rw [Assoc.lookup_eq_none.mpr hmem, Option.getD_none, Assoc.put_of_notMem hmem,
      Assoc.index_concat hmem]
    -- a slot is made where there is none
    obtain ⟨grown, hgrown, hlayout, hroom⟩ : ∃ grown,
        (if entries.length = item.mProps.length then item.growProps else item) = grown ∧
          Layout grown entries ∧ entries.length < grown.mProps.length := by
      refine ⟨_, rfl, ?_⟩
      split
      · next hfull =>
        refine ⟨h.growProps, ?_⟩
        simp [MediaAnalyticsItem.growProps, MediaAnalyticsItem.kGrowProps, hfull]
      · next hfull => exact ⟨h, Nat.lt_of_le_of_ne h.room hfull⟩
    have hnone : entries[entries.length]? = none := List.getElem?_eq_none (Nat.le_refl _)
    obtain ⟨heap', prop', hset, hstep, hholds⟩ := Property.setName_spec grown.heap name
    obtain ⟨item', hitem, hrewritten⟩ := onProp_spec
      (f := fun heap prop => prop.setName heap name) hlayout.memory
      (hlayout.memory.cleared hroom hnone) hset hstep
      (show prop'.Is heap' (some (name, .kTypeNone)) from hholds)
    refine ⟨{ item' with mPropCount := entries.length + 1 }, ?_, hrewritten.layout ?_ ?_ ?_ ?_⟩
    · rw [MediaAnalyticsItem.allocateProp, h.findPropIndex, Assoc.index_of_notMem hmem]
      simp only [Option.bind_eq_bind, Option.bind_some, h.count, if_neg (Nat.lt_irrefl _), hgrown,
        hlayout.count, hitem, hrewritten.count, Option.pure_def]
    · intro j
      rw [Function.update_apply, List.getElem?_append]
      obtain hlt | rfl | hgt := Nat.lt_trichotomy j entries.length
      · rw [if_neg (Nat.ne_of_lt hlt), if_pos hlt]
      · simp
      · rw [if_neg (Nat.ne_of_gt hgt), if_neg (Nat.lt_asymm hgt), List.getElem?_eq_none (by omega),
          List.getElem?_eq_none (by simp; omega)]
    · rw [List.length_append, List.length_singleton]
    · rw [List.length_append, List.length_singleton]
      exact hroom
    · rw [← Assoc.put_of_notMem hmem]
      exact Assoc.nodup_put h.nodup

/-- An operation on a slot that takes the value of its entry to another. -/
def Updates (f : Heap CString → Property → Option (Heap CString × Property))
    (g : PropValue CString → PropValue CString) : Prop :=
  ∀ heap prop name v, prop.Holds heap (name, v) →
    ∃ heap' prop', f heap prop = some (heap', prop') ∧ Property.Step heap prop heap' prop' ∧
      prop'.Holds heap' (name, g v)

theorem update_spec {f : Heap CString → Property → Option (Heap CString × Property)}
    {g : PropValue CString → PropValue CString} (hf : Updates f g) (h : Layout item entries)
    (name : CString) :
    ∃ item' entries', item.update name f = some item' ∧ Layout item' entries' ∧
      ∀ key, entries'.lookup key =
        if key = name then some (g ((entries.lookup name).getD .kTypeNone)) else entries.lookup key := by
  obtain ⟨item₁, halloc, hlayout⟩ := allocateProp_spec h name
  generalize hv : (entries.lookup name).getD PropValue.kTypeNone = v at halloc hlayout ⊢
  have hmem : name ∈ Assoc.keys (Assoc.put name v entries) := Assoc.mem_keys_put.mpr (.inl rfl)
  have hlt := Assoc.index_lt.mpr hmem
  have hget : (Assoc.put name v entries)[Assoc.index name (Assoc.put name v entries)]? =
      some (name, v) :=
    Assoc.getElem?_index_of_lookup (Assoc.lookup_put.trans (if_pos rfl))
  obtain ⟨prop, hprop, hholds⟩ := hlayout.holds hget
  obtain ⟨heap', prop', hf, hstep, hholds'⟩ := hf item₁.heap prop name v hholds
  obtain ⟨item', hitem, hrewritten⟩ := onProp_spec hlayout.memory hprop hf hstep
    (show prop'.Is heap' (some (name, g v)) from hholds')
  refine ⟨item', Assoc.put name (g v) (Assoc.put name v entries), ?_, ?_, fun key => ?_⟩
  · rw [MediaAnalyticsItem.update, halloc]
    exact hitem
  · refine hrewritten.layout (n := item'.mPropCount) (fun j => ?_) ?_ ?_ (Assoc.nodup_put hlayout.nodup)
    · rw [← Assoc.set_index hmem, List.getElem?_set, Function.update_apply, if_pos hlt]
      exact if_congr eq_comm rfl rfl
    · rw [hrewritten.count, hlayout.count, Assoc.length_put_of_mem hmem]
    · rw [Assoc.length_put_of_mem hmem]
      exact hlayout.room
  · rw [Assoc.lookup_put, Assoc.lookup_put]
    split <;> rfl

/-! ### Removal -/

/-- The item without the entry at `i`, whose place the last one takes. -/
theorem Rewritten.layout_removeAt {item' : MediaAnalyticsItem} (h : Layout item entries)
    (hi : i < entries.length) (hr : Rewritten item contents item')
    (hcontents : ∀ j, contents j = if j = entries.length - 1 then none
      else if j = i then entries[entries.length - 1]? else entries[j]?) :
    Layout { item' with mPropCount := entries.length - 1 } (Assoc.removeAt i entries) := by
  have hlength : (Assoc.removeAt i entries).length = entries.length - 1 := by
    have := (Assoc.removeAt_perm hi).length_eq
    rw [List.length_cons] at this
    omega
  refine hr.layout (fun j => ?_) hlength.symm ?_ (Assoc.nodup_removeAt h.nodup hi)
  · rw [hcontents, Assoc.getElem?_removeAt hi]
  · have hroom := h.room
    omega

theorem removeLast_spec (h : Layout item entries) (hlast : i + 1 = entries.length) :
    ∃ item', item.clearAt i = some item' ∧ item'.mPropCount = entries.length ∧
      Layout { item' with mPropCount := entries.length - 1 } (Assoc.removeAt i entries) := by
  have hi : i < entries.length := by omega
  obtain ⟨item', hclear, hr⟩ := clearAt_spec h.memory (Nat.lt_of_lt_of_le hi h.room)
    (List.getElem?_eq_getElem hi)
  refine ⟨item', hclear, hr.count.trans h.count, hr.layout_removeAt h hi fun j => ?_⟩
  have hindex : i = entries.length - 1 := by omega
  rw [Function.update_apply, hindex]
  split <;> rfl

/-- The last slot is copied to one that has been cleared, and then cleared too. -/
theorem removeMiddle_spec (h : Layout item entries) (hindex : Assoc.index name entries = i)
    (hmiddle : i + 1 < entries.length) :
    ∃ item', item.removeProp name = some (true, item') ∧
      Layout item' (Assoc.removeAt i entries) := by
  have hroom := h.room
  have hi : i < entries.length := by omega
  have hlast : entries.length - 1 < entries.length := by omega
  have hne : entries.length - 1 ≠ i := by omega
  obtain ⟨entry, hentry⟩ : ∃ entry, entries[entries.length - 1]? = some entry :=
    ⟨_, List.getElem?_eq_getElem hlast⟩
  obtain ⟨item₁, hclear, hr₁⟩ := clearAt_spec h.memory (Nat.lt_of_lt_of_le hi hroom)
    (List.getElem?_eq_getElem hi)
  have hlength₁ := hr₁.length
  obtain ⟨last, hprop, hholds⟩ := hr₁.memory.holds (i := entries.length - 1) (by omega)
    ((Function.update_of_ne hne ..).trans hentry)
  have hcleared := hr₁.memory.cleared (i := i) (by omega) (Function.update_self ..)
  obtain ⟨heap', prop', hcopy, hstep, hholds'⟩ := Property.copyProp_spec hholds
  obtain ⟨item₂, hitem₂, hr₂⟩ := onProp_spec (f := fun heap prop => prop.copyProp heap last)
    hr₁.memory hcleared hcopy hstep (show prop'.Is heap' (some entry) from hholds')
  have hlength₂ := hr₂.length
  obtain ⟨item₃, hclear₃, hr₃⟩ := clearAt_spec (i := entries.length - 1) hr₂.memory (by omega)
    ((Function.update_of_ne hne ..).trans ((Function.update_of_ne hne ..).trans hentry))
  refine ⟨{ item₃ with mPropCount := entries.length - 1 }, ?_,
    ((hr₁.trans hr₂).trans hr₃).layout_removeAt h hi fun j => ?_⟩
  · rw [MediaAnalyticsItem.removeProp, h.findPropIndex, hindex]
    simp only [Option.bind_eq_bind, Option.bind_some, h.count, if_pos hi, if_pos hne.symm, hclear,
      hr₁.count, hprop, hitem₂, hr₂.count, hclear₃, hr₃.count, Option.pure_def]
  · rw [Function.update_apply, Function.update_apply, Function.update_apply, hentry]
    split
    · rfl
    · split <;> rfl

theorem removeProp_spec (h : Layout item entries) :
    ∃ found item' entries', item.removeProp name = some (found, item') ∧ Layout item' entries' ∧
      ∀ key, entries'.lookup key = if key = name then none else entries.lookup key := by
  by_cases hmem : name ∈ Assoc.keys entries
  · have hlt := Assoc.index_lt.mpr hmem
    generalize hi : Assoc.index name entries = i at hlt
    have hlookup : ∀ key, (Assoc.removeAt i entries).lookup key =
        if key = name then none else entries.lookup key := by
      intro key
      rw [← hi, Assoc.lookup_removeAt_index h.nodup hmem]
    by_cases hlast : i + 1 = entries.length
    · obtain ⟨item', hclear, hcount, hlayout⟩ := removeLast_spec h hlast
      refine ⟨true, _, _, ?_, hlayout, hlookup⟩
      rw [MediaAnalyticsItem.removeProp, h.findPropIndex, hi]
      simp only [Option.bind_eq_bind, Option.bind_some, h.count, if_pos hlt, hclear, hcount,
        Option.pure_def]
      rw [if_neg (by omega)]
    · obtain ⟨item', hremove, hlayout⟩ := removeMiddle_spec h hi (by omega)
      exact ⟨true, item', _, hremove, hlayout, hlookup⟩
  · refine ⟨false, item, entries, ?_, h, fun key => ?_⟩
    · rw [MediaAnalyticsItem.removeProp, h.findPropIndex, Assoc.index_of_notMem hmem]
      simp only [Option.bind_eq_bind, Option.bind_some, h.count, if_neg (Nat.lt_irrefl _),
        Option.pure_def]
    · split
      · next hkey => rw [hkey, Assoc.lookup_eq_none.mpr hmem]
      · rfl

theorem filterOne_notMem (h : Layout item entries) (hmem : name ∉ Assoc.keys entries) :
    item.filterOne name = some (false, item) := by
  rw [MediaAnalyticsItem.filterOne, h.findPropIndex, Assoc.index_of_notMem hmem]
  simp only [Option.bind_eq_bind, Option.bind_some, h.count, if_pos (Nat.le_refl _), Option.pure_def]

theorem filterOne_last (h : Layout item entries)
    (hlast : Assoc.index name entries + 1 = entries.length) :
    ∃ item', item.filterOne name = some (true, item') ∧
      Layout item' (Assoc.removeAt (Assoc.index name entries) entries) := by
  obtain ⟨item', hclear, hcount, hlayout⟩ := removeLast_spec h hlast
  refine ⟨_, ?_, hlayout⟩
  rw [MediaAnalyticsItem.filterOne, h.findPropIndex]
  simp only [Option.bind_eq_bind, Option.bind_some, h.count, if_pos hlast, hclear, hcount,
    Option.pure_def]
  rw [if_neg (by omega)]

theorem clear_spec (h : Layout item entries) :
    ∃ item', item.clear = some item' ∧ Layout item' [] := by
  have hclears : ∀ n ≤ entries.length, ∃ item' contents,
      (List.range n).foldlM MediaAnalyticsItem.clearAt item = some item' ∧
        Rewritten item contents item' ∧ ∀ i, n ≤ i → contents i = entries[i]? := by
    intro n
    induction n with
    | zero => exact fun _ => ⟨item, _, rfl, ⟨h.memory, rfl, rfl⟩, fun _ _ => rfl⟩
    | succ n ih =>
      intro hn
      obtain ⟨item₁, contents, hfold, hr, hcontents⟩ := ih (by omega)
      have hlength := hr.length
      have hroom := h.room
      obtain ⟨item₂, hclear, hr'⟩ := clearAt_spec (i := n) hr.memory (by omega)
        ((hcontents n (Nat.le_refl n)).trans (List.getElem?_eq_getElem (by omega)))
      refine ⟨item₂, _, ?_, hr.trans hr', fun i hi => ?_⟩
      · rw [List.range_succ, List.foldlM_append, hfold]
        simp [hclear]
      · rw [Function.update_of_ne (by omega), hcontents i (by omega)]
  obtain ⟨item', contents, hfold, hr, -⟩ := hclears entries.length (Nat.le_refl _)
  refine ⟨_, ?_, layout_nil item'.heap⟩
  rw [MediaAnalyticsItem.clear, h.count, hfold]
  rfl

end MediaFramework.MediaMetrics
