import MediaFramework.Foundation.Differences

/-!
# The laws of differences

Where a difference, as an extension or merged, gives the items of the message it comes from.
-/

namespace MediaFramework.Foundation

open Assoc

variable {m o r diff : AMessage} {items : List Item} {name : CString} {v w : Value}
  {oitem old : Option Value} {deep : Bool}

/-! ### Well-formed messages -/

namespace AMessage

theorem WellFormed.nil (what : BitVec 32) : (mk what []).WellFormed :=
  ⟨List.nodup_nil, Nat.zero_le _, fun _ h => absurd h List.not_mem_nil⟩

/-- A new item keeps the names distinct. -/
theorem WellFormed.setItem {what : BitVec 32} (hm : (mk what items).WellFormed)
    (hv : ∀ m, v = .messageValue (some m) → m.WellFormed) {items' : List Item}
    (h : setItem items name v = some items') : (mk what items').WellFormed := by
  obtain ⟨names, fits, nested⟩ := hm
  rw [setItem_eq] at h
  obtain ⟨rfl, hfits⟩ := putWithin_some h
  refine ⟨nodup_put names, hfits fits, fun item hitem m' hm' => ?_⟩
  obtain rfl | hitem := mem_put hitem
  · exact hv m' hm'
  · exact nested item hitem m' hm'

/-- A message that takes on the items of a well-formed one is well-formed. -/
theorem WellFormed.extend (hm : m.WellFormed) (ho : o.WellFormed) (h : m.extend (some o) = some r) :
    r.WellFormed := by
  obtain ⟨mWhat, mItems⟩ := m
  obtain ⟨oWhat, oItems⟩ := o
  obtain ⟨-, -, nested⟩ := ho
  obtain ⟨rItems, hr, rfl⟩ := Option.map_eq_some_iff.mp h
  clear h
  dsimp only [mItems_mk, mWhat_mk] at nested hr ⊢
  induction oItems generalizing mItems with
  | nil =>
    obtain rfl := Option.some.inj hr
    exact hm
  | cons item oItems ih =>
    obtain ⟨hfirst, nested⟩ := List.forall_mem_cons.mp nested
    obtain ⟨mItems', hset, hr⟩ := Option.bind_eq_some_iff.mp hr
    exact ih mItems' (hm.setItem hfirst hset) nested hr

end AMessage

/-! ### Items of a list -/

theorem sameItems_iff : SameItems items o ↔
    ∀ item ∈ items, ∃ w, (item.1, w) ∈ o.mItems ∧ item.2.Same w := by
  induction items with
  | nil => simp [SameItems]
  | cons item items ih => rw [SameItems, ih, List.forall_mem_cons]

theorem mergedItems_iff : MergedItems items o r ↔
    ∀ item ∈ items, ∃ w, (item.1, w) ∈ r.mItems ∧
      item.2.Merged (o.mItems.lookup item.1) w := by
  induction items with
  | nil => simp [MergedItems]
  | cons item items ih => rw [MergedItems, ih, List.forall_mem_cons]

theorem unchangedItems_iff : UnchangedItems items o ↔
    ∀ item ∈ items, item.2.Unchanged (o.findItem item.1 item.2.mType) := by
  induction items with
  | nil => simp [UnchangedItems]
  | cons item items ih => rw [UnchangedItems, ih, List.forall_mem_cons]

theorem mergeableItems_iff : MergeableItems items o ↔
    ∀ item ∈ items, item.2.Mergeable (o.findItem item.1 item.2.mType) := by
  induction items with
  | nil => simp [MergeableItems]
  | cons item items ih => rw [MergeableItems, ih, List.forall_mem_cons]

theorem noNaNItems_iff : NoNaNItems items ↔ ∀ item ∈ items, item.2.NoNaN := by
  induction items with
  | nil => simp [NoNaNItems]
  | cons item items ih => rw [NoNaNItems, ih, List.forall_mem_cons]

theorem mergeItems_eq {mItems : List Item} : AMessage.mergeItems mItems items =
    updateAll AMessage.mergeValue AMessage.kMaxNumItems mItems items := by
  induction items generalizing mItems with
  | nil => rfl
  | cons item items ih =>
    rw [AMessage.mergeItems, updateAll]
    refine congrArg _ (funext fun v => ?_)
    rw [AMessage.setItem_eq]
    exact congrArg _ (funext fun _ => ih)

/-! ### Values -/

/-- A value that is not a message, or a null one. -/
def Value.Plain (v : Value) : Prop := ∀ m, v ≠ .messageValue (some m)

theorem Value.plain_or_message (v : Value) : v.Plain ∨ ∃ m, v = .messageValue (some m) := by
  by_cases h : ∃ m, v = .messageValue (some m)
  · exact .inr h
  · exact .inl fun m hm => h ⟨m, hm⟩

theorem ABuffer.differs_eq_false {myBuf oBuf : ABuffer} :
    myBuf.differs oBuf = false ↔ myBuf = oBuf := by
  obtain ⟨myData, mySize, hmy⟩ := myBuf
  obtain ⟨oData, oSize, ho⟩ := oBuf
  rw [ABuffer.mk.injEq]
  cases myData <;> cases oData <;> simp [ABuffer.differs]
  tauto

namespace Value

/-- A value that is not a number compares equal to the same value. -/
theorem Plain.same_iff (h : v.Plain) (hfloat : v.mType ≠ .kTypeFloat)
    (hdouble : v.mType ≠ .kTypeDouble) : v.same w = true ↔ v.Same w := by
  cases v with
  | messageValue refValue =>
    cases refValue with
    | none =>
      cases w with
      | messageValue refValue' => cases refValue' <;> simp [same, Same]
      | _ => simp [same, Same]
    | some m => exact absurd rfl (h m)
  | bufferValue refValue =>
    cases w with
    | bufferValue refValue' =>
      cases refValue <;> cases refValue' <;> simp [same, Same, ABuffer.differs_eq_false]
    | _ => simp [same, Same]
  | rectValue => cases w <;> simp [same, Same, and_assoc]
  | floatValue v upper => exact absurd rfl hfloat
  | doubleValue v => exact absurd rfl hdouble
  | _ => cases w <;> simp [same, Same]

theorem Plain.same_self (h : v.Plain) : v.Same v := by
  cases v with
  | messageValue refValue =>
    cases refValue with
    | none => rw [Same] <;> rintro _ _ ⟨⟩
    | some m => exact absurd rfl (h m)
  | floatValue v upper => exact ⟨upper, rfl⟩
  | _ => rw [Same] <;> intros <;> contradiction

theorem Same.message (h : Same (.messageValue (some m)) w) : ∃ o, w = .messageValue (some o) := by
  obtain ⟨mWhat, mItems⟩ := m
  rw [Same] at h
  obtain ⟨o, ho, -⟩ := h
  exact ⟨o, ho⟩

/-- All values but NaNs compare equal to themselves. -/
theorem Plain.noNaN_iff (h : v.Plain) : v.NoNaN ↔ v.same v = true := by
  cases v with
  | floatValue v upper => simp [NoNaN, same, AMessage.numberEq_self]
  | doubleValue v => simp [NoNaN, same, AMessage.numberEq_self]
  | messageValue refValue =>
    cases refValue with
    | none => simp [NoNaN, same]
    | some m => exact absurd rfl (h m)
  | bufferValue refValue => cases refValue <;> simp [NoNaN, same, ABuffer.differs_eq_false]
  | _ => simp [NoNaN, same]

theorem any_same_iff : oitem.any v.same = true ↔ ∃ w ∈ oitem, v.same w := by
  cases oitem <;> simp

theorem Plain.change_eq (h : v.Plain) : AMessage.change deep v oitem =
    some (if oitem.any v.same then none else some v.copied) := by
  rw [AMessage.change]
  exact h

theorem Plain.unchanged_iff (h : v.Plain) : v.Unchanged oitem ↔ ∃ w ∈ oitem, v.same w := by
  rw [Unchanged]
  exact h

theorem Plain.replaceable_iff (h : v.Plain) : v.Replaceable oitem ↔ v.Settled oitem := by
  rw [Replaceable]
  exact h

theorem Plain.mergeable_iff (h : v.Plain) : v.Mergeable oitem ↔ v.Settled oitem := by
  rw [Mergeable]
  exact h

theorem Plain.merged_iff (h : v.Plain) : v.Merged old w ↔ v.Same w := by
  rw [Merged]
  exact h

theorem Plain.copied (h : v.Plain) : v.copied.Plain := by
  cases v with
  | messageValue refValue => exact h
  | _ => exact fun m hm => by cases hm

theorem Plain.mergeValue_eq (h : v.Plain) : AMessage.mergeValue v old = some v := by
  cases v with
  | messageValue refValue =>
    cases refValue with
    | none => rfl
    | some m => exact absurd rfl (h m)
  | _ => rfl

/-- A plain value is there in the end when that of the other message was the same, if it compares
equal, and when the copy is right otherwise. -/
theorem settled_iff (old : Option Value) (hold : ∀ w ∈ oitem, old = some w) :
    (∃ w, (if oitem.any v.same then none else some v.copied).or old = some w ∧ v.Same w) ↔
      v.Settled oitem := by
  rw [Settled]
  by_cases hany : ∃ w ∈ oitem, v.same w
  · rw [if_pos (any_same_iff.mpr hany)]
    obtain ⟨w, hw, hsame⟩ := hany
    have hlast : ¬∀ w ∈ oitem, ¬v.same w := fun hnone => hnone w hw hsame
    rw [Option.none_or, hold w hw]
    constructor
    · rintro ⟨w', hw', hequal⟩
      obtain rfl := Option.some.inj hw'
      exact .inl ⟨w, hw, hsame, hequal⟩
    · rintro (⟨w', hw', -, hequal⟩ | ⟨hnone, -⟩)
      · obtain rfl := Option.some.inj (hw.symm.trans hw')
        exact ⟨w, rfl, hequal⟩
      · exact absurd hnone hlast
  · rw [if_neg (mt any_same_iff.mp hany), Option.some_or]
    have hnone : ∀ w ∈ oitem, ¬v.same w := fun w hw hsame => hany ⟨w, hw, hsame⟩
    constructor
    · rintro ⟨w, hw, hequal⟩
      obtain rfl := Option.some.inj hw
      exact .inr ⟨hnone, hequal⟩
    · rintro (⟨w, hw, hsame, -⟩ | ⟨-, hequal⟩)
      · exact absurd hsame (hnone w hw)
      · exact ⟨_, rfl, hequal⟩

/-- A value that compares equal to the same values only, and whose copy is right, always comes out
right. -/
theorem settled_of_exact (hexact : ∀ w, v.same w → v.Same w) (hcopied : v.Same v.copied) :
    v.Settled oitem := by
  by_cases hany : ∃ w ∈ oitem, v.same w
  · obtain ⟨w, hw, hsame⟩ := hany
    exact .inl ⟨w, hw, hsame, hexact w hsame⟩
  · exact .inr ⟨fun w hw hsame => hany ⟨w, hw, hsame⟩, hcopied⟩

end Value

namespace AMessage

/-! ### The difference -/

theorem change_message : change deep (.messageValue (some m)) oitem =
    (m.changesFrom (oitem.bind Value.message) deep).map fun diff =>
      if diff.countEntries ≠ 0 then some (.messageValue (some (if deep then diff else m)))
      else none := by
  rw [change]
  cases m.changesFrom (oitem.bind Value.message) deep <;> rfl

/-- As the names are distinct, each item that differs is a new one of the difference. -/
theorem changes_eq {c : Item → Option Value}
    (hc : ∀ item ∈ items,
      change deep item.2 (o.findItem item.1 item.2.mType) = some (c item))
    (diff : List Item) (hnodup : (keys items).Nodup)
    (hnew : ∀ item ∈ items, item.1 ∉ keys diff)
    (hfits : diff.length + items.length ≤ kMaxNumItems) :
    changes o deep items diff = some (diff ++ select c items) := by
  induction items generalizing diff with
  | nil => rw [changes, select, List.filterMap_nil, List.append_nil]
  | cons item items ih =>
    obtain ⟨name, value⟩ := item
    obtain ⟨hfirst, hnodup⟩ := List.nodup_cons.mp hnodup
    obtain ⟨hvalue, hc⟩ := List.forall_mem_cons.mp hc
    obtain ⟨hname, hnew⟩ := List.forall_mem_cons.mp hnew
    rw [List.length_cons] at hfits
    rw [changes, hvalue, select_cons]
    cases c (name, value) with
    | none => exact ih hc diff hnodup hnew (by omega)
    | some v =>
      -- the name is new, so the item comes behind those of the difference
      have hset : setItem diff name v = some (diff ++ [(name, v)]) := by
        rw [setItem_eq, putWithin, if_pos (.inr (by omega)), put_of_notMem hname]
      have hnew' : ∀ item ∈ items, item.1 ∉ keys (diff ++ [(name, v)]) := by
        intro item hitem
        rw [keys_append, List.mem_append, not_or]
        exact ⟨hnew item hitem, mt List.mem_singleton.mp
          (ne_of_mem_of_not_mem (key_mem hitem) hfirst)⟩
      have hlength : (diff ++ [(name, v)]).length + items.length ≤ kMaxNumItems := by
        rw [List.length_append, List.length_singleton]
        omega
      rw [Option.elim_some, List.append_cons, ← ih hc _ hnodup hnew' hlength]
      show (setItem diff name v).bind _ = _
      rw [hset, Option.bind_some]

/-- For each item of a message, what `change` gives. -/
structure IsDifference (deep : Bool) (m o diff : AMessage) : Prop where
  nodup : (keys diff.mItems).Nodup
  item : ∀ {name v}, m.mItems.lookup name = some v →
    change deep v (o.findItem name v.mType) = some (diff.mItems.lookup name)
  other : ∀ {name}, m.mItems.lookup name = none → diff.mItems.lookup name = none

theorem changesFrom_spec (deep : Bool) (hm : m.WellFormed) (o : AMessage) :
    ∃ diff, m.changesFrom (some o) deep = some diff ∧ IsDifference deep m o diff := by
  induction hm generalizing o with
  | @intro m names fits nested ih =>
    have hchange : ∀ item ∈ m.mItems, ∃ c,
        change deep item.2 (o.findItem item.1 item.2.mType) = some c := by
      intro item hitem
      -- only the change of a nested message needs the induction
      obtain hplain | ⟨m', hm'⟩ := item.2.plain_or_message
      · exact ⟨_, hplain.change_eq⟩
      · rw [hm', change_message]
        cases (o.findItem item.1 (Value.messageValue (some m')).mType).bind Value.message with
        | none =>
          rw [changesFrom]
          exact ⟨_, rfl⟩
        | some o' =>
          obtain ⟨diff, hdiff, -⟩ := ih item hitem m' hm' o'
          rw [hdiff]
          exact ⟨_, rfl⟩
    choose! c hc using hchange
    obtain ⟨mWhat, mItems⟩ := m
    rw [mItems_mk] at hc names fits
    have heq := changes_eq hc [] names (fun _ _ => List.not_mem_nil) (by simpa using fits)
    refine ⟨.mk (if mWhat ≠ o.mWhat then mWhat else 0) (select c mItems), ?_,
      names.sublist keys_select_sublist, ?_, ?_⟩
    · rw [changesFrom, heq]
      rfl
    · intro name v hv
      rw [mItems_mk] at hv
      rw [hc (name, v) (mem_of_lookup hv), mItems_mk, lookup_select names, hv, Option.bind_some]
    · intro name hname
      rw [mItems_mk] at hname
      rw [mItems_mk, lookup_select names, hname, Option.bind_none]

/-! ### No difference -/

theorem unchanged_iff : m.Unchanged o ↔
    ∀ item ∈ m.mItems, item.2.Unchanged (o.findItem item.1 item.2.mType) := by
  obtain ⟨mWhat, mItems⟩ := m
  rw [Unchanged, unchangedItems_iff, mItems_mk]

theorem entries_eq_none_iff {m : AMessage} :
    (if m.countEntries ≠ 0 then some w else none) = none ↔ m.mItems = [] := by
  rw [countEntries]
  cases m.mItems <;> simp

theorem countEntries_ne_zero (h : m.mItems ≠ []) : m.countEntries ≠ 0 :=
  mt List.length_eq_zero_iff.mp h

theorem eq_nil_iff_unchanged (hm : m.WellFormed) (hdiff : IsDifference deep m o diff) :
    diff.mItems = [] ↔ m.Unchanged o := by
  induction hm generalizing o diff with
  | @intro m names fits nested ih =>
    -- an item of the message has none in the difference when it is unchanged
    have hitem : ∀ item ∈ m.mItems, diff.mItems.lookup item.1 = none ↔
        item.2.Unchanged (o.findItem item.1 item.2.mType) := by
      rintro ⟨name, v⟩ hmem
      have hchange := hdiff.item (lookup_of_mem names hmem)
      obtain hplain | ⟨m', rfl⟩ := v.plain_or_message
      · rw [hplain.change_eq] at hchange
        rw [← Option.some.inj hchange, hplain.unchanged_iff, ← Value.any_same_iff]
        split
        · next hany => exact iff_of_true rfl hany
        · next hany => exact iff_of_false (Option.some_ne_none _) hany
      · rw [change_message] at hchange
        dsimp only
        rw [Value.Unchanged]
        cases ho : (o.findItem name (Value.messageValue (some m')).mType).bind Value.message with
        | none =>
          rw [ho, changesFrom, Option.map_some] at hchange
          rw [← Option.some.inj hchange, entries_eq_none_iff]
        | some o' =>
          obtain ⟨diff', hdiff', hspec⟩ := changesFrom_spec deep (nested _ hmem m' rfl) o'
          rw [ho, hdiff', Option.map_some] at hchange
          rw [← Option.some.inj hchange, entries_eq_none_iff, ih _ hmem m' rfl hspec]
    rw [unchanged_iff, eq_nil_iff]
    constructor
    · intro hnone item hmem
      exact (hitem item hmem).mp (hnone item.1)
    · intro hunchanged name
      cases hname : m.mItems.lookup name with
      | none => exact hdiff.other hname
      | some v => exact (hitem _ (mem_of_lookup hname)).mpr (hunchanged _ (mem_of_lookup hname))

theorem bind_message_findItem {refValue : Option AMessage} :
    (o.findItem name (Value.messageValue refValue).mType).bind Value.message =
      (o.mItems.lookup name).bind Value.message := by
  rw [findItem_eq, Value.mType]
  cases o.mItems.lookup name with
  | none => rfl
  | some v => cases v <;> rfl

theorem bind_message_eq_some : old.bind Value.message = some m ↔
    old = some (.messageValue (some m)) := by
  cases old with
  | none => simp
  | some v => cases v <;> simp [Value.message]

theorem findItem_self (names : (keys m.mItems).Nodup) {item : Item} (hitem : item ∈ m.mItems) :
    m.findItem item.1 item.2.mType = some item.2 := by
  rw [findItem_eq, lookup_of_mem names hitem, Option.filter_some, if_pos (decide_eq_true rfl)]

theorem same_self (hm : m.WellFormed) :
    Value.Same (.messageValue (some m)) (.messageValue (some m)) := by
  induction hm with
  | @intro m names fits nested ih =>
    obtain ⟨mWhat, mItems⟩ := m
    rw [Value.Same]
    refine ⟨_, rfl, sameItems_iff.mpr fun item hitem => ⟨item.2, hitem, ?_⟩, fun _ h => h⟩
    obtain hplain | ⟨m', hm'⟩ := item.2.plain_or_message
    · exact hplain.same_self
    · rw [hm']
      exact ih item hitem m' hm'

theorem noNaN_iff : m.NoNaN ↔ ∀ item ∈ m.mItems, item.2.NoNaN := by
  obtain ⟨mWhat, mItems⟩ := m
  rw [NoNaN, noNaNItems_iff, mItems_mk]

theorem unchanged_self_iff (hm : m.WellFormed) : m.Unchanged m ↔ m.NoNaN := by
  induction hm with
  | @intro m names fits nested ih =>
    rw [unchanged_iff, noNaN_iff]
    refine forall₂_congr fun item hitem => ?_
    rw [findItem_self names hitem]
    obtain hplain | ⟨m', hm'⟩ := item.2.plain_or_message
    · rw [hplain.unchanged_iff, hplain.noNaN_iff]
      simp
    · rw [hm', Value.Unchanged, Option.bind_some, Value.NoNaN]
      exact ih item hitem m' hm'

/-! ### What an update by the difference leaves -/

/-- The items of an update are right when each value that comes out of it is, and there is room. -/
theorem updateAll_difference_iff {f : Value → Option Value → Option Value}
    {R : Value → Option Value → Value → Prop} {Q : Value → Option Value → Prop}
    (ho : o.WellFormed) (hdiff : IsDifference deep m o diff)
    (hvalue : ∀ item ∈ m.mItems,
      (∃ w, (diff.mItems.lookup item.1).elim (o.mItems.lookup item.1)
          (fun v => f v (o.mItems.lookup item.1)) = some w ∧
        R item.2 (o.mItems.lookup item.1) w) ↔ Q item.2 (o.findItem item.1 item.2.mType)) :
    (∃ r, updateAll f kMaxNumItems o.mItems diff.mItems = some r ∧
        (∀ item ∈ m.mItems, ∃ w, (item.1, w) ∈ r ∧ R item.2 (o.mItems.lookup item.1) w) ∧
        ∀ item ∈ o.mItems, item.1 ∉ keys m.mItems → item ∈ r) ↔
      (∀ item ∈ m.mItems, Q item.2 (o.findItem item.1 item.2.mType)) ∧ Fits m.mItems o := by
  obtain ⟨honames, hofits, -⟩ := ho
  have hlookup : ∀ {r}, updateAll f kMaxNumItems o.mItems diff.mItems = some r → ∀ name,
      r.lookup name = (diff.mItems.lookup name).elim (o.mItems.lookup name)
        fun v => f v (o.mItems.lookup name) := by
    intro r hr name
    cases hname : diff.mItems.lookup name with
    | none => exact lookup_updateAll_of_none hr hname
    | some v => exact lookup_updateAll hr hdiff.nodup hname
  constructor
  · rintro ⟨r, hr, hhas, -⟩
    have hrnodup := nodup_updateAll hr honames
    refine ⟨fun item hitem => (hvalue item hitem).mp ?_, ?_⟩
    · obtain ⟨w, hw, hR⟩ := hhas item hitem
      exact ⟨w, by rw [← hlookup hr, lookup_of_mem hrnodup hw], hR⟩
    · -- all names are names of the result
      have hsubset : (keys o.mItems).toFinset ∪ (keys m.mItems).toFinset ⊆ (keys r).toFinset := by
        intro name hname
        rw [Finset.mem_union, List.mem_toFinset, List.mem_toFinset] at hname
        rw [List.mem_toFinset]
        obtain hname | hname := hname
        · exact (mem_keys_updateAll hr).mpr (.inl hname)
        · obtain ⟨item, hitem, rfl⟩ := List.mem_map.mp hname
          obtain ⟨w, hw, -⟩ := hhas item hitem
          have hkey := key_mem hw
          exact hkey
      calc ((keys o.mItems).toFinset ∪ (keys m.mItems).toFinset).card
          ≤ (keys r).toFinset.card := Finset.card_le_card hsubset
        _ = r.length := card_keys hrnodup
        _ ≤ kMaxNumItems := length_updateAll hr hofits
  · rintro ⟨hQ, hfits⟩
    -- an item of the difference comes from one of the message
    have hfrom : ∀ d ∈ diff.mItems, ∃ v, m.mItems.lookup d.1 = some v := by
      intro d hd
      rw [← Option.isSome_iff_exists, Option.isSome_iff_ne_none]
      intro hnone
      have := hdiff.other hnone
      rw [lookup_of_mem hdiff.nodup hd] at this
      cases this
    obtain ⟨r, hr⟩ : ∃ r, updateAll f kMaxNumItems o.mItems diff.mItems = some r := by
      refine exists_updateAll honames hdiff.nodup (fun d hd => ?_)
        ((Finset.card_le_card ?_).trans hfits)
      · obtain ⟨v, hv⟩ := hfrom d hd
        obtain ⟨w, hw, -⟩ := (hvalue _ (mem_of_lookup hv)).mpr (hQ _ (mem_of_lookup hv))
        dsimp only at hw
        rw [lookup_of_mem hdiff.nodup hd] at hw
        exact ⟨w, hw⟩
      · refine Finset.union_subset_union_right fun name hname => ?_
        rw [List.mem_toFinset] at hname ⊢
        obtain ⟨d, hd, rfl⟩ := List.mem_map.mp hname
        obtain ⟨v, hv⟩ := hfrom d hd
        have hkey := key_mem (mem_of_lookup hv)
        exact hkey
    refine ⟨r, hr, fun item hitem => ?_, fun item hitem hname => ?_⟩
    · obtain ⟨w, hw, hR⟩ := (hvalue item hitem).mpr (hQ item hitem)
      exact ⟨w, mem_of_lookup ((hlookup hr _).trans hw), hR⟩
    · refine mem_of_lookup ((hlookup hr _).trans ?_)
      rw [hdiff.other (lookup_eq_none.mpr hname), Option.elim_none, lookup_of_mem honames hitem]

/-- A message that the other does not have is in the difference itself. -/
theorem change_message_none (h : oitem.bind Value.message = none) :
    change deep (.messageValue (some m)) oitem =
      some (if m.countEntries ≠ 0 then some (.messageValue (some m)) else none) := by
  rw [change_message, h, changesFrom, Option.map_some]
  cases deep <;> rfl

theorem settled_none_iff (hm : m.WellFormed) (h : old.bind Value.message = none) :
    (∃ w, (if m.countEntries ≠ 0 then some (.messageValue (some m)) else none).or old = some w ∧
        Value.Same (.messageValue (some m)) w) ↔ m.mItems ≠ [] := by
  by_cases hnil : m.mItems = []
  · refine iff_of_false ?_ (not_not.mpr hnil)
    rintro ⟨w, hw, hsame⟩
    rw [entries_eq_none_iff.mpr hnil, Option.none_or] at hw
    obtain ⟨o', rfl⟩ := hsame.message
    rw [hw] at h
    cases h
  · rw [if_pos (countEntries_ne_zero hnil)]
    exact iff_of_true ⟨_, rfl, same_self hm⟩ hnil

/-! ### Extending -/

theorem extend_eq_some : o.extend (some diff) = some r ↔
    ∃ items, updateAll (fun v _ => some v) kMaxNumItems o.mItems diff.mItems = some items ∧
      mk o.mWhat items = r := by
  rw [extend, extendItems_eq, Option.map_eq_some_iff]

theorem extendLaw_iff (hm : m.WellFormed) (ho : o.WellFormed) :
    m.ExtendLaw o ↔ m.Replaceable o := by
  obtain ⟨diff, hchanges, hdiff⟩ := changesFrom_spec false hm o
  obtain ⟨names, -, nested⟩ := hm
  rw [Replaceable, ← updateAll_difference_iff (f := fun v _ => some v)
    (R := fun v _ w => v.Same w) ho hdiff]
  · constructor
    · rintro ⟨diff', r, hdiff', hr, hhas, hkeeps⟩
      obtain rfl := Option.some.inj (hchanges.symm.trans hdiff')
      obtain ⟨items, hitems, rfl⟩ := extend_eq_some.mp hr
      exact ⟨items, hitems, hhas, hkeeps⟩
    · rintro ⟨items, hitems, hhas, hkeeps⟩
      exact ⟨diff, mk o.mWhat items, hchanges, extend_eq_some.mpr ⟨items, hitems, rfl⟩, hhas, hkeeps⟩
  · rintro ⟨name, v⟩ hitem
    have hchange := hdiff.item (lookup_of_mem names hitem)
    have helim : (diff.mItems.lookup name).elim (o.mItems.lookup name) some =
        (diff.mItems.lookup name).or (o.mItems.lookup name) := by
      cases diff.mItems.lookup name <;> rfl
    dsimp only
    rw [helim]
    -- a plain value is settled by `Value.settled_iff`, a nested message by its own difference
    obtain hplain | ⟨m', rfl⟩ := v.plain_or_message
    · rw [hplain.change_eq] at hchange
      rw [← Option.some.inj hchange, hplain.replaceable_iff]
      refine Value.settled_iff _ fun w hw => ?_
      rw [findItem_eq] at hw
      exact (Option.mem_filter_iff.mp hw).1
    · have hm' := nested _ hitem m' rfl
      rw [Value.Replaceable, bind_message_findItem]
      -- a difference that has no entries is left out
      cases hold : (o.mItems.lookup name).bind Value.message with
      | none =>
        rw [change_message_none (bind_message_findItem.trans hold)] at hchange
        rw [← Option.some.inj hchange]
        exact settled_none_iff hm' hold
      | some o' =>
        obtain ⟨diff', hchanges', hdiff'⟩ := changesFrom_spec false hm' o'
        rw [change_message, bind_message_findItem, hold, hchanges', Option.map_some] at hchange
        rw [← Option.some.inj hchange, bind_message_eq_some.mp hold]
        have hnil := eq_nil_iff_unchanged hm' hdiff'
        by_cases hunchanged : m'.Unchanged o'
        · rw [entries_eq_none_iff.mpr (hnil.mpr hunchanged), Option.none_or]
          simp [hunchanged]
        · rw [if_pos (countEntries_ne_zero (mt hnil.mp hunchanged))]
          exact iff_of_true ⟨_, rfl, same_self hm'⟩ fun h => absurd h hunchanged

/-! ### Merging -/

theorem merge_eq_some : o.merge diff = some r ↔
    ∃ items, updateAll mergeValue kMaxNumItems o.mItems diff.mItems = some items ∧
      mk o.mWhat items = r := by
  rw [merge, mergeItems_eq, Option.map_eq_some_iff]

theorem merge_nil (h : diff.mItems = []) : o.merge diff = some o := by
  obtain ⟨mWhat, mItems⟩ := o
  rw [merge, h, mergeItems, Option.map_some]
  rfl

theorem mergeValue_message {o' : AMessage} (h : old.bind Value.message = some o') :
    mergeValue (.messageValue (some diff)) old =
      (o'.merge diff).map fun r => .messageValue (some r) := by
  obtain ⟨what, items⟩ := diff
  rw [mergeValue, h, merge, Option.map_map]
  rfl

theorem mergeValue_none (h : old.bind Value.message = none) :
    mergeValue (.messageValue (some m)) old = some (.messageValue (some m)) := by
  obtain ⟨what, items⟩ := m
  rw [mergeValue, h]

theorem merged_iff : m.Merged o r ↔
    (∀ item ∈ m.mItems, ∃ w, (item.1, w) ∈ r.mItems ∧
      item.2.Merged (o.mItems.lookup item.1) w) ∧
    ∀ item ∈ o.mItems, item.1 ∉ keys m.mItems → item ∈ r.mItems := by
  obtain ⟨mWhat, mItems⟩ := m
  rw [Merged, mergedItems_iff, mItems_mk]

theorem mergeable_iff : m.Mergeable o ↔
    (∀ item ∈ m.mItems, item.2.Mergeable (o.findItem item.1 item.2.mType)) ∧
      Fits m.mItems o := by
  obtain ⟨mWhat, mItems⟩ := m
  rw [Mergeable, mergeableItems_iff, mItems_mk]

theorem mergeLaw_iff (hm : m.WellFormed) (ho : o.WellFormed) : m.MergeLaw o ↔ m.Mergeable o := by
  induction hm generalizing o with
  | @intro m names fits nested ih =>
    obtain ⟨diff, hchanges, hdiff⟩ := changesFrom_spec true ⟨names, fits, nested⟩ o
    rw [mergeable_iff, ← updateAll_difference_iff (f := mergeValue) (R := Value.Merged) ho hdiff]
    · constructor
      · rintro ⟨diff', r, hdiff', hr, hmerged⟩
        obtain rfl := Option.some.inj (hchanges.symm.trans hdiff')
        obtain ⟨items, hitems, rfl⟩ := merge_eq_some.mp hr
        obtain ⟨hhas, hkeeps⟩ := merged_iff.mp hmerged
        exact ⟨items, hitems, hhas, hkeeps⟩
      · rintro ⟨items, hitems, hhas, hkeeps⟩
        exact ⟨diff, mk o.mWhat items, hchanges, merge_eq_some.mpr ⟨items, hitems, rfl⟩,
          merged_iff.mpr ⟨hhas, hkeeps⟩⟩
    · rintro ⟨name, v⟩ hitem
      have hchange := hdiff.item (lookup_of_mem names hitem)
      dsimp only
      obtain hplain | ⟨m', rfl⟩ := v.plain_or_message
      · rw [hplain.change_eq] at hchange
        simp only [hplain.merged_iff]
        rw [← Option.some.inj hchange, hplain.mergeable_iff,
          ← Value.settled_iff (o.mItems.lookup name)]
        · split
          · rfl
          · rw [Option.elim_some, hplain.copied.mergeValue_eq]
            rfl
        · intro w hw
          rw [findItem_eq] at hw
          exact (Option.mem_filter_iff.mp hw).1
      · have hm' := nested _ hitem m' rfl
        rw [Value.Mergeable, bind_message_findItem]
        simp only [Value.Merged]
        cases hold : (o.mItems.lookup name).bind Value.message with
        | none =>
          rw [change_message_none (bind_message_findItem.trans hold)] at hchange
          rw [← Option.some.inj hchange, ← settled_none_iff hm' hold]
          split
          · rw [Option.elim_some, mergeValue_none hold]
            rfl
          · rfl
        | some o' =>
          have ho' : o'.WellFormed := by
            obtain ⟨-, -, honested⟩ := ho
            exact honested _ (mem_of_lookup (bind_message_eq_some.mp hold)) o' rfl
          obtain ⟨diff', hchanges', hdiff'⟩ := changesFrom_spec true hm' o'
          rw [change_message, bind_message_findItem, hold, hchanges', Option.map_some] at hchange
          -- no entries leave the message as it is, and so does merging them
          have helim : (diff.mItems.lookup name).elim (o.mItems.lookup name)
              (fun v => mergeValue v (o.mItems.lookup name)) =
                (o'.merge diff').map fun r => .messageValue (some r) := by
            rw [← Option.some.inj hchange]
            by_cases hnil : diff'.mItems = []
            · rw [entries_eq_none_iff.mpr hnil, Option.elim_none, bind_message_eq_some.mp hold,
                merge_nil hnil, Option.map_some]
            · rw [if_pos (countEntries_ne_zero hnil), Option.elim_some]
              exact mergeValue_message hold
          dsimp only
          rw [helim, ← ih _ hitem m' rfl ho']
          constructor
          · rintro ⟨w, hw, r, rfl, hmerged⟩
            obtain ⟨r', hr', heq⟩ := Option.map_eq_some_iff.mp hw
            obtain rfl := Option.some.inj (Value.messageValue.inj heq)
            exact ⟨diff', r', hchanges', hr', hmerged⟩
          · rintro ⟨diff'', r, hdiff'', hr, hmerged⟩
            obtain rfl := Option.some.inj (hchanges'.symm.trans hdiff'')
            exact ⟨_, by rw [hr, Option.map_some], r, rfl, hmerged⟩

/-! ### The law -/

/-- Extended by the difference, or with it merged, the other message has the items of `m`, and it
keeps those of other names; from itself no message differs. -/
structure DifferenceLaw (m o : AMessage) : Prop where
  extend : m.ExtendLaw o
  merge : m.MergeLaw o
  self : ∀ deep, ∃ diff, m.changesFrom (some m) deep = some diff ∧ diff.countEntries = 0

theorem changesFrom_self_iff (hm : m.WellFormed) (deep : Bool) :
    (∃ diff, m.changesFrom (some m) deep = some diff ∧ diff.countEntries = 0) ↔ m.NoNaN := by
  obtain ⟨diff, hchanges, hdiff⟩ := changesFrom_spec deep hm m
  rw [← unchanged_self_iff hm, ← eq_nil_iff_unchanged hm hdiff]
  constructor
  · rintro ⟨diff', hdiff', hnone⟩
    obtain rfl := Option.some.inj (hchanges.symm.trans hdiff')
    exact List.length_eq_zero_iff.mp hnone
  · intro hnil
    exact ⟨diff, hchanges, by rw [countEntries, hnil, List.length_nil]⟩

/-- The law holds exactly when the copies of floats and doubles and the messages that a difference
leaves out are right, no zero is replaced by one of the other sign, there is room, and there is no
NaN. -/
theorem differenceLaw_iff (hm : m.WellFormed) (ho : o.WellFormed) :
    m.DifferenceLaw o ↔ m.Replaceable o ∧ m.Mergeable o ∧ m.NoNaN := by
  constructor
  · rintro ⟨hextend, hmerge, hself⟩
    exact ⟨(extendLaw_iff hm ho).mp hextend, (mergeLaw_iff hm ho).mp hmerge,
      (changesFrom_self_iff hm false).mp (hself false)⟩
  · rintro ⟨hreplaceable, hmergeable, hnumbers⟩
    exact ⟨(extendLaw_iff hm ho).mpr hreplaceable, (mergeLaw_iff hm ho).mpr hmergeable,
      fun deep => (changesFrom_self_iff hm deep).mpr hnumbers⟩

/-- A number that differs, a double that does not, and a message with a number. -/
theorem differenceLaw_two :
    DifferenceLaw
      (mk 1 [(.ofBytes [97], .int32Value 1),
        (.ofBytes [98], .messageValue (some (mk 2 [(.ofBytes [97], .int32Value 1)]))),
        (.ofBytes [99], .doubleValue 0x3ff0000000000000)])
      (mk 1 [(.ofBytes [97], .int32Value 2),
        (.ofBytes [98], .messageValue (some (mk 2 [(.ofBytes [97], .int32Value 2)]))),
        (.ofBytes [99], .doubleValue 0x3ff0000000000000)]) := by
  have hinner : ∀ v, WellFormed (mk 2 [(.ofBytes [97], .int32Value v)]) := fun v =>
    (WellFormed.nil 2).setItem (fun _ h => by cases h) rfl
  have houter : ∀ v w, WellFormed (mk 1 [(.ofBytes [97], .int32Value v),
      (.ofBytes [98], .messageValue (some (mk 2 [(.ofBytes [97], .int32Value w)]))),
      (.ofBytes [99], .doubleValue 0x3ff0000000000000)]) := by
    intro v w
    have hfirst : WellFormed (mk 1 [(.ofBytes [97], .int32Value v)]) :=
      (WellFormed.nil 1).setItem (fun _ h => by cases h) rfl
    have hset : setItem [(.ofBytes [97], .int32Value v)] (.ofBytes [98])
        (.messageValue (some (mk 2 [(.ofBytes [97], .int32Value w)]))) =
          some [(.ofBytes [97], .int32Value v),
            (.ofBytes [98], .messageValue (some (mk 2 [(.ofBytes [97], .int32Value w)])))] := rfl
    have hsecond := hfirst.setItem (fun m' h => by
      obtain rfl := Option.some.inj (Value.messageValue.inj h)
      exact hinner w) hset
    have hlast : setItem [(.ofBytes [97], .int32Value v),
        (.ofBytes [98], .messageValue (some (mk 2 [(.ofBytes [97], .int32Value w)])))]
        (.ofBytes [99]) (.doubleValue 0x3ff0000000000000) =
          some [(.ofBytes [97], .int32Value v),
            (.ofBytes [98], .messageValue (some (mk 2 [(.ofBytes [97], .int32Value w)]))),
            (.ofBytes [99], .doubleValue 0x3ff0000000000000)] := rfl
    exact hsecond.setItem (fun _ h => by cases h) hlast
  have hnumber : ∀ (v : BitVec 32) oitem, (Value.int32Value v).Settled oitem := by
    intro v oitem
    have hplain : (Value.int32Value v).Plain := fun _ h => by cases h
    exact Value.settled_of_exact
      (fun _ => (hplain.same_iff (by simp [Value.mType]) (by simp [Value.mType])).mp) hplain.same_self
  have hdouble : (Value.doubleValue 0x3ff0000000000000).Settled
      (some (.doubleValue 0x3ff0000000000000)) := .inl ⟨_, rfl, by decide, rfl⟩
  rw [differenceLaw_iff (houter 1 1) (houter 2 2)]
  refine ⟨⟨List.forall_mem_cons.mpr ⟨hnumber _ _, List.forall_mem_cons.mpr ⟨?_,
    List.forall_mem_singleton.mpr hdouble⟩⟩, by decide⟩, ?_, ?_⟩
  · -- the inner messages differ
    rintro ⟨⟨w, hw, hsame⟩, -⟩
    obtain rfl := Option.some.inj hw
    cases hsame
  · exact ⟨⟨hnumber _ _, ⟨⟨hnumber _ _, trivial⟩, by decide⟩, hdouble, trivial⟩, by decide⟩
  · have hone : isNaN doubleInfinity (0x3ff0000000000000 : BitVec 64) = false := by decide
    exact ⟨trivial, ⟨trivial, trivial⟩, hone, trivial⟩

/-- The double `1.0` is copied as the number that its bits are. -/
theorem double_not_extended :
    ¬DifferenceLaw (mk 0 [(.ofBytes [97], .doubleValue 0x3ff0000000000000)]) (mk 0 []) := by
  rintro ⟨⟨diff, r, hdiff, hr, hhas, -⟩, -, -⟩
  have hcopied : (mk 0 [(.ofBytes [97], .doubleValue 0x3ff0000000000000)]).changesFrom
      (some (mk 0 [])) false =
        some (mk 0 [(.ofBytes [97], .doubleValue (doubleOfSize 0x3ff0000000000000))]) := rfl
  obtain rfl := Option.some.inj (hcopied.symm.trans hdiff)
  obtain rfl := Option.some.inj hr
  obtain ⟨w, hw, hsame⟩ := hhas _ List.mem_cons_self
  obtain rfl := (Prod.mk.inj (List.mem_singleton.mp hw)).2
  have hbits := Value.doubleValue.inj hsame
  revert hbits
  decide

end AMessage

end MediaFramework.Foundation
