import MediaFramework.Lib.Assoc
import MediaFramework.MediaMetrics.MediaAnalyticsItem

/-!
# The memory of properties

What the slots of a media analytics item own, and what the operations on one slot leave of the
others.
-/

namespace MediaFramework.MediaMetrics

variable {heap heap' heap'' : Heap CString} {prop prop' : Property} {props : List Property}
  {name : CString} {v v' : PropValue CString} {u u' : PropValue Nat} {i : Nat}

/-- A name with its value. -/
abbrev Entry := CString × PropValue CString

namespace PropValue

def pointers : PropValue Nat → List Nat
  | CStringValue p => [p]
  | _ => []

/-- The value with its string. -/
def read (heap : Heap CString) : PropValue Nat → Option (PropValue CString)
  | kTypeNone => some kTypeNone
  | int32Value v => some (int32Value v)
  | int64Value v => some (int64Value v)
  | doubleValue v => some (doubleValue v)
  | CStringValue p => (heap.blocks p).map CStringValue
  | rate count duration => some (rate count duration)

theorem read_keeps {ps : List Nat} (hk : heap.Keeps ps heap') (hps : ∀ p ∈ u.pointers, p ∉ ps)
    (h : u.read heap = some v) : u.read heap' = some v := by
  cases u with
  | CStringValue p =>
    obtain ⟨s, hs, rfl⟩ := Option.map_eq_some_iff.mp h
    rw [read, hk.read hs (hps p (List.mem_singleton_self p)), Option.map_some]
  | _ => exact h

theorem lt_next (h : u.read heap = some v) : ∀ p ∈ u.pointers, p < heap.next := by
  cases u with
  | CStringValue p =>
    obtain ⟨s, hs, -⟩ := Option.map_eq_some_iff.mp h
    exact List.forall_mem_singleton.mpr (Heap.lt_next hs)
  | _ => exact fun _ hp => absurd hp List.not_mem_nil

/-- Plain values are read in the slot. -/
theorem read_plain (h : u.read heap = some v) :
    u.int32? = v.int32? ∧ u.int64? = v.int64? ∧ u.double? = v.double? ∧ u.rate? = v.rate? := by
  cases u with
  | CStringValue p =>
    obtain ⟨s, -, rfl⟩ := Option.map_eq_some_iff.mp h
    exact ⟨rfl, rfl, rfl, rfl⟩
  | _ =>
    obtain rfl := Option.some.inj h
    exact ⟨rfl, rfl, rfl, rfl⟩

end PropValue

namespace Property

/-- What a slot owns. -/
def pointers (prop : Property) : List Nat := prop.mName.toList ++ prop.u.pointers

/-- The slot holds the entry: its name and its value are allocated, each for itself. -/
structure Holds (heap : Heap CString) (prop : Property) (entry : Entry) : Prop where
  name : ∃ p, prop.mName = some p ∧ heap.blocks p = some entry.1
  length : prop.mNameLen = entry.1.bytes.length
  value : prop.u.read heap = some entry.2
  nodup : prop.pointers.Nodup

/-- The content of a slot: nothing when it is cleared. -/
def Is (heap : Heap CString) (prop : Property) : Option Entry → Prop
  | none => prop = {}
  | some entry => prop.Holds heap entry

theorem Holds.named {entry : Entry} (h : prop.Holds heap entry) :
    prop.named heap name = some (decide (entry.1 = name)) := by
  obtain ⟨p, hp, hblock⟩ := h.name
  rw [Property.named, h.length]
  split
  · next hlength =>
    rw [decide_eq_false]
    rintro rfl
    exact hlength rfl
  · rw [hp, Option.bind_eq_bind, Option.bind_some, hblock]
    rfl

theorem Holds.keeps {ps : List Nat} {entry : Entry} (h : prop.Holds heap entry)
    (hk : heap.Keeps ps heap') (hps : ∀ p ∈ prop.pointers, p ∉ ps) : prop.Holds heap' entry := by
  obtain ⟨p, hp, hblock⟩ := h.name
  have hname : p ∉ ps := hps p (List.mem_append_left _ (by simp [hp]))
  exact ⟨⟨p, hp, hk.read hblock hname⟩, h.length,
    PropValue.read_keeps hk (fun q hq => hps q (List.mem_append_right _ hq)) h.value, h.nodup⟩

theorem Is.keeps {ps : List Nat} {content : Option Entry} (h : prop.Is heap content)
    (hk : heap.Keeps ps heap') (hps : ∀ p ∈ prop.pointers, p ∉ ps) : prop.Is heap' content := by
  cases content with
  | none => exact h
  | some entry => exact Holds.keeps h hk hps

theorem Is.lt_next {content : Option Entry} (h : prop.Is heap content) :
    ∀ p ∈ prop.pointers, p < heap.next := by
  cases content with
  | none =>
    obtain rfl : prop = {} := h
    exact fun _ hp => absurd hp List.not_mem_nil
  | some entry =>
    obtain ⟨⟨q, hq, hblock⟩, -, hvalue, -⟩ : prop.Holds heap entry := h
    intro p hp
    obtain hp | hp := List.mem_append.mp hp
    · rw [hq] at hp
      obtain rfl := List.mem_singleton.mp hp
      exact Heap.lt_next hblock
    · exact PropValue.lt_next hvalue p hp

/-! ### Operations on a slot -/

/-- An operation on a slot that leaves all other memory, and takes new memory only. -/
structure Step (heap : Heap CString) (prop : Property) (heap' : Heap CString) (prop' : Property) :
    Prop where
  keeps : heap.Keeps prop.pointers heap'
  pointers : ∀ p ∈ prop'.pointers, p ∈ prop.pointers ∨ heap.next ≤ p

theorem clearPropValue_spec (h : prop.u.read heap = some v) :
    ∃ heap', prop.clearPropValue heap = some (heap', { prop with u := .kTypeNone }) ∧
      heap.Keeps prop.u.pointers heap' := by
  obtain ⟨u, mName, mNameLen⟩ := prop
  cases u with
  | CStringValue p =>
    obtain ⟨s, hs, -⟩ := Option.map_eq_some_iff.mp h
    obtain ⟨heap', hfree, hk⟩ := Heap.free_some hs
    exact ⟨heap', by simp only [clearPropValue, hfree, Option.map_some], hk⟩
  | _ => exact ⟨heap, rfl, .refl heap⟩

theorem clearProp_spec (h : prop.Holds heap (name, v)) :
    ∃ heap', prop.clearProp heap = some (heap', {}) ∧ heap.Keeps prop.pointers heap' := by
  obtain ⟨u, mName, mNameLen⟩ := prop
  obtain ⟨p, rfl, hblock⟩ := h.name
  obtain ⟨heap₁, hfree, hk₁⟩ := Heap.free_some hblock
  have hapart : ∀ q ∈ u.pointers, q ∉ [p] := by
    intro q hq hmem
    obtain rfl := List.mem_singleton.mp hmem
    exact (List.nodup_cons.mp h.nodup).1 hq
  have hvalue : (Property.mk u none 0).u.read heap₁ = some v :=
    PropValue.read_keeps hk₁ hapart h.value
  obtain ⟨heap₂, hclear, hk₂⟩ := clearPropValue_spec hvalue
  refine ⟨heap₂, ?_, ?_⟩
  · simp only [clearProp, hfree]
    exact hclear
  · exact (hk₁.mono fun q hq => List.mem_append_left _ hq).trans hk₂
      fun q hq => .inl (List.mem_append_right _ hq)

theorem setName_spec (heap : Heap CString) (name : CString) :
    ∃ heap' prop', setName heap {} name = some (heap', prop') ∧ Step heap {} heap' prop' ∧
      prop'.Holds heap' (name, .kTypeNone) := by
  refine ⟨_, _, rfl, ⟨Heap.malloc_keeps heap name, fun p hp => .inr ?_⟩, ?_⟩
  · exact Nat.le_of_eq (List.mem_singleton.mp hp).symm
  · exact ⟨⟨heap.next, rfl, Heap.malloc_read heap name⟩, rfl, rfl, List.nodup_singleton _⟩

/-- A value that is made in new memory. -/
structure Makes (heap heap' : Heap CString) (u : PropValue Nat) (v : PropValue CString) : Prop where
  keeps : heap.Keeps [] heap'
  read : u.read heap' = some v
  pointers : ∀ p ∈ u.pointers, heap.next ≤ p
  nodup : u.pointers.Nodup

theorem setValue_spec {make : Heap CString → Heap CString × PropValue Nat}
    (hmake : ∀ heap, Makes heap (make heap).1 (make heap).2 v') (h : prop.Holds heap (name, v)) :
    ∃ heap' prop', MediaAnalyticsItem.setValue make heap prop = some (heap', prop') ∧
      Step heap prop heap' prop' ∧ prop'.Holds heap' (name, v') := by
  obtain ⟨u, mName, mNameLen⟩ := prop
  obtain ⟨p, rfl, hblock⟩ := h.name
  obtain ⟨heap₁, hclear, hk₁⟩ := clearPropValue_spec h.value
  have hm := hmake heap₁
  have hnotMem : p ∉ u.pointers := (List.nodup_cons.mp h.nodup).1
  have hblock₁ : heap₁.blocks p = some name := hk₁.read hblock hnotMem
  refine ⟨(make heap₁).1, ⟨(make heap₁).2, some p, mNameLen⟩, ?_, ⟨?_, ?_⟩, ?_⟩
  · rw [MediaAnalyticsItem.setValue, hclear]
    rfl
  · exact (hk₁.mono fun q hq => List.mem_append_right _ hq).trans hm.keeps
      fun q hq => absurd hq List.not_mem_nil
  · intro q hq
    obtain hq | hq := List.mem_append.mp hq
    · exact .inl (List.mem_append_left _ hq)
    · exact .inr (Nat.le_trans hk₁.next (hm.pointers q hq))
  · refine ⟨⟨p, rfl, hm.keeps.read hblock₁ List.not_mem_nil⟩, h.length, hm.read, ?_⟩
    refine List.nodup_cons.mpr ⟨fun hp => ?_, hm.nodup⟩
    have hold := Heap.lt_next hblock₁
    have hnew := hm.pointers p hp
    omega

theorem makes_malloc (heap : Heap CString) (s : CString) :
    Makes heap (heap.malloc s).2 (.CStringValue (heap.malloc s).1) (.CStringValue s) where
  keeps := Heap.malloc_keeps heap s
  read := congrArg (Option.map _) (Heap.malloc_read heap s)
  pointers := List.forall_mem_singleton.mpr (Nat.le_refl _)
  nodup := List.nodup_singleton _

/-- A value without a string needs no memory. -/
theorem makes_plain (hu : u.pointers = []) (h : u.read heap = some v) : Makes heap heap u v where
  keeps := .refl heap
  read := h
  pointers := by simp [hu]
  nodup := by simp [hu]

theorem copyValue_spec (h : u.read heap = some v) :
    ∃ heap' u', copyValue heap u = some (heap', u') ∧ Makes heap heap' u' v := by
  cases u with
  | CStringValue p =>
    obtain ⟨s, hs, rfl⟩ := Option.map_eq_some_iff.mp h
    refine ⟨_, _, ?_, makes_malloc heap s⟩
    rw [copyValue, hs]
    rfl
  | _ => exact ⟨heap, _, rfl, makes_plain rfl h⟩

theorem copyProp_spec (h : prop.Holds heap (name, v)) :
    ∃ heap' prop', copyProp heap {} prop = some (heap', prop') ∧ Step heap {} heap' prop' ∧
      prop'.Holds heap' (name, v) := by
  obtain ⟨u, mName, mNameLen⟩ := prop
  obtain ⟨p, rfl, hblock⟩ := h.name
  have hk₁ := Heap.malloc_keeps heap name
  have hread₁ := Heap.malloc_read heap name
  obtain ⟨heap₂, u', hcopy, hm⟩ := copyValue_spec
    (PropValue.read_keeps hk₁ (fun _ _ => List.not_mem_nil) h.value)
  refine ⟨heap₂, ⟨u', some heap.next, mNameLen⟩, ?_, ⟨?_, ?_⟩, ?_⟩
  · simp only [copyProp, clearProp, clearPropValue, copyName, hblock, Option.bind_eq_bind,
      Option.bind_some, Option.pure_def]
    rw [hcopy]
    rfl
  · exact hk₁.trans hm.keeps fun q hq => absurd hq List.not_mem_nil
  · intro q hq
    obtain rfl | hq := List.mem_cons.mp hq
    · exact .inr (Nat.le_refl _)
    · exact .inr (Nat.le_trans hk₁.next (hm.pointers q hq))
  · refine ⟨⟨heap.next, rfl, hm.keeps.read hread₁ List.not_mem_nil⟩, h.length, hm.read, ?_⟩
    refine List.nodup_cons.mpr ⟨fun hp => ?_, hm.nodup⟩
    have hnew := hm.pointers _ hp
    have hold := Heap.lt_next hread₁
    omega

/-- A sum, of plain values only, on the values of the slots and on what they read as. -/
def Sums (sum : PropValue Nat → Option (PropValue Nat))
    (sum' : PropValue CString → Option (PropValue CString)) : Prop :=
  ∀ heap u v, u.read heap = some v →
    (sum u = none ∧ sum' v = none) ∨
      ∃ u' v', sum u = some u' ∧ sum' v = some v' ∧ u'.pointers = [] ∧ u'.read heap = some v'

theorem sums_map {α : Type} {part : PropValue Nat → Option α} {part' : PropValue CString → Option α}
    {f : α → PropValue Nat} {f' : α → PropValue CString}
    (hpart : ∀ heap u v, u.read heap = some v → part u = part' v)
    (hplain : ∀ a, (f a).pointers = []) (hread : ∀ heap a, (f a).read heap = some (f' a)) :
    Sums (fun u => (part u).map f) (fun v => (part' v).map f') := by
  intro heap u v h
  simp only [hpart heap u v h]
  cases part' v with
  | none => exact .inl ⟨rfl, rfl⟩
  | some a => exact .inr ⟨f a, f' a, rfl, rfl, hplain a, hread heap a⟩

theorem addValue_spec {sum : PropValue Nat → Option (PropValue Nat)}
    {sum' : PropValue CString → Option (PropValue CString)} (hsum : Sums sum sum')
    (hu : u.pointers = []) (hread : ∀ heap, u.read heap = some v') (h : prop.Holds heap (name, v)) :
    ∃ heap' prop', MediaAnalyticsItem.addValue sum u heap prop = some (heap', prop') ∧
      Step heap prop heap' prop' ∧ prop'.Holds heap' (name, (sum' v).getD v') := by
  obtain ⟨hnone, hnone'⟩ | ⟨w, w', hsome, hsome', hplain, hw⟩ := hsum heap prop.u v h.value
  · simp only [MediaAnalyticsItem.addValue, hnone, hnone', Option.getD_none]
    exact setValue_spec (fun heap => makes_plain hu (hread heap)) h
  · simp only [MediaAnalyticsItem.addValue, hsome, hsome', Option.getD_some]
    obtain ⟨p, hp, hblock⟩ := h.name
    have hpointers : Property.pointers { prop with u := w } = [p] := by
      simp [Property.pointers, hp, hplain]
    refine ⟨heap, _, rfl, ⟨(Heap.Keeps.refl heap).mono (by simp), ?_⟩, ?_⟩
    · intro q hq
      rw [hpointers] at hq
      exact .inl (List.mem_append_left _ (by simpa [hp] using hq))
    · exact ⟨⟨p, hp, hblock⟩, h.length, hw, hpointers ▸ List.nodup_singleton p⟩

end Property

end MediaFramework.MediaMetrics
