import MediaFramework.Camera.BufferCounts
import MediaFramework.Lib.Machine

/-!
# Camera buffer manager: runs

Calls one after another, beside the buffers that the streams have been handed out. A stream that is
unregistered starts again with none.
-/

namespace MediaFramework.Camera

variable {σ β : Type}

/-- A call, with what the allocator and the streams do meanwhile. -/
inductive Call (σ β : Type)
  | registerStream (stream : σ) (streamInfo : StreamInfo)
  | unregisterStream (streamId streamSetId : Int)
  | getBufferForStream (streamId streamSetId : Int) (noFreeBufferAtConsumer : Bool)
      (allocate : StreamInfo → Except Int β) (detach₁ detach₂ : σ → Option Bool)
  | onBufferReleased (streamId streamSetId : Int) (hasPlace : Bool)
  | onBuffersRemoved (streamId streamSetId : Int) (count : Nat)
  | notifyBufferRemoved (streamId streamSetId : Int)

namespace BufferManager

variable (m : BufferManager σ)

def exec : Call σ β → Option (BufferManager σ × Status)
  | .registerStream stream streamInfo => some (m.registerStream stream streamInfo)
  | .unregisterStream streamId streamSetId => some (m.unregisterStream streamId streamSetId)
  | .getBufferForStream streamId streamSetId noFreeBufferAtConsumer allocate detach₁ detach₂ =>
    (m.getBufferForStream allocate detach₁ detach₂ streamId streamSetId
      noFreeBufferAtConsumer).map fun r => (r.1, r.2.1)
  | .onBufferReleased streamId streamSetId hasPlace =>
    (m.onBufferReleased streamId streamSetId hasPlace).map fun r => (r.1, r.2.1)
  | .onBuffersRemoved streamId streamSetId count => m.onBuffersRemoved streamId streamSetId count
  | .notifyBufferRemoved streamId streamSetId =>
    (m.notifyBufferRemoved streamId streamSetId).map fun m => (m, .OK)

/-- `checkIfStreamRegisteredLocked`. -/
def Registered (streamId streamSetId : Int) : Prop := (m.registeredSet streamId streamSetId).isSome

def handoutCount (streamId streamSetId : Int) : Option Nat :=
  (m.mStreamSetMap.find? streamSetId).bind fun set => set.handoutBufferCountMap.find? streamId

def attachedCount (streamId streamSetId : Int) : Option Nat :=
  (m.mStreamSetMap.find? streamSetId).bind fun set => set.attachedBufferCountMap.find? streamId

instance (streamId streamSetId : Int) : Decidable (m.Registered streamId streamSetId) :=
  inferInstanceAs (Decidable (_ = true))

end BufferManager

/-- The manager, and how many buffers each stream of each set has been handed out since it was
registered and has not released or removed. -/
structure Ledger (σ : Type) where
  manager : BufferManager σ := {}
  handedOut : Int → Int → Nat := fun _ _ => 0

namespace Ledger

def count (h : Int → Int → Nat) (streamId streamSetId : Int) (n : Nat) : Int → Int → Nat :=
  Function.update h streamSetId (Function.update (h streamSetId) streamId n)

def record (h : Int → Int → Nat) (res : Status) : Call σ β → Int → Int → Nat
  | .registerStream _ _ => h
  | .unregisterStream s ss => if res = .OK then count h s ss 0 else h
  | .getBufferForStream s ss _ _ _ _ =>
    if res = .OK ∨ res = .ALREADY_EXISTS then count h s ss (h ss s + 1) else h
  | .onBufferReleased s ss _ => if res = .OK then count h s ss (h ss s - 1) else h
  | .onBuffersRemoved s ss n => if res = .OK then count h s ss (h ss s - n) else h
  | .notifyBufferRemoved _ _ => h

def step (w : Ledger σ) (c : Call σ β) : Ledger σ :=
  (w.manager.exec c).elim w fun r => ⟨r.1, record w.handedOut r.2 c⟩

/-- What a caller keeps to. Only buffers that were handed out are released or removed, a removal is
only notified of a free attached buffer, and the other streams of the set are alive where they have
a free attached buffer, which the manager may want to detach. -/
def Disciplined (w : Ledger σ) : Call σ β → Prop
  | .registerStream _ _ => True
  | .unregisterStream _ _ => True
  | .getBufferForStream s ss _ _ detach₁ detach₂ =>
    ∀ s' x n, s' ≠ s → w.manager.mStreamMap.find? s' = some x →
      w.manager.attachedCount s' ss = some n → w.handedOut ss s' < n →
        (detach₁ x).isSome ∧ (detach₂ x).isSome
  | .onBufferReleased s ss _ => w.manager.Registered s ss → 0 < w.handedOut ss s
  | .onBuffersRemoved s ss n => w.manager.Registered s ss → n ≤ w.handedOut ss s
  | .notifyBufferRemoved s ss =>
    w.manager.Registered s ss ∧
      ∃ n, w.manager.attachedCount s ss = some n ∧ w.handedOut ss s < n

/-- The counts are those of the ledger. -/
def Balanced (w : Ledger σ) : Prop :=
  ∀ s ss, w.manager.Registered s ss →
    w.manager.handoutCount s ss = some (w.handedOut ss s) ∧
      ∃ n, w.manager.attachedCount s ss = some n ∧ w.handedOut ss s ≤ n

/-- What a call that gets no buffer leaves: all counts, but for the attached count of a stream whose
consumer has no free buffer. -/
def Untouched (m m' : BufferManager σ) : Call σ β → Status → Prop
  | .getBufferForStream s ss noFreeBufferAtConsumer _ _ _, res =>
    res ≠ .OK → res ≠ .ALREADY_EXISTS → ∀ s' ss',
      m'.handoutCount s' ss' = m.handoutCount s' ss' ∧
        (m'.attachedCount s' ss' = m.attachedCount s' ss' ∨
          (s' = s ∧ ss' = ss ∧ noFreeBufferAtConsumer ∧
            m'.attachedCount s ss = m'.handoutCount s ss))
  | _, _ => True

/-- A call ends with no count below zero, the counts are right after it, and they are untouched if it
gets no buffer. -/
def Accounted (w : Ledger σ) (c : Call σ β) : Prop :=
  ∃ m res, w.manager.exec c = some (m, res) ∧ (w.step c).Balanced ∧ Untouched w.manager m c res

/-! ### The invariant -/

structure Inv (w : Ledger σ) : Prop where
  counted : ∀ ss set, w.manager.mStreamSetMap.find? ss = some set → set.Counted ss (w.handedOut ss)
  idle : ∀ ss, w.manager.mStreamSetMap.find? ss = none → ∀ s, w.handedOut ss s = 0
  alone : ∀ ss ss' set set' s, w.manager.mStreamSetMap.find? ss = some set →
    w.manager.mStreamSetMap.find? ss' = some set' → set.Has s → set'.Has s → ss = ss'
  streams : ∀ ss set s, w.manager.mStreamSetMap.find? ss = some set → set.Has s →
    (w.manager.mStreamMap.find? s).isSome

theorem count_self (h : Int → Int → Nat) (s ss : Int) : count h s ss (h ss s) = h := by
  rw [count, Function.update_eq_self, Function.update_eq_self]

namespace Inv

variable {w : Ledger σ} {m : BufferManager σ} {h : Int → Int → Nat} {set set' : StreamSet}
  {s ss : Int}

theorem start : Inv ({} : Ledger σ) where
  counted := fun _ _ hset => by cases hset
  idle := fun _ _ _ => rfl
  alone := fun _ _ _ _ _ hset => by cases hset
  streams := fun _ _ _ hset => by cases hset

theorem registeredSet (hi : Inv ⟨m, h⟩) :
    m.registeredSet s ss = some set ↔ m.mStreamSetMap.find? ss = some set ∧ set.Has s := by
  constructor
  · intro hset
    simp only [BufferManager.registeredSet, Option.bind_eq_bind, Option.bind_eq_some_iff] at hset
    obtain ⟨set', hset', i, hi', hset⟩ := hset
    split at hset
    · cases hset
    · cases hset
      exact ⟨hset', Option.isSome_iff_exists.mpr ⟨i, hi'⟩⟩
  · rintro ⟨hset, hs⟩
    have hc := hi.counted ss set hset
    obtain ⟨i, hi'⟩ := Option.isSome_iff_exists.mp hs
    have hpos := hc.max_pos hs
    have hle := hc.bounded
    simp only [BufferManager.registeredSet, hset, hi', Option.bind_eq_bind, Option.bind_some]
    rw [if_neg (by omega)]
    rfl

/-- A stream that is not registered has not been handed out any buffer. -/
theorem idle_of_none (hi : Inv ⟨m, h⟩) (hnone : m.registeredSet s ss = none) : h ss s = 0 := by
  cases hset : m.mStreamSetMap.find? ss with
  | none => exact hi.idle ss hset s
  | some set =>
    refine (hi.counted ss set hset).idle s (Option.not_isSome_iff_eq_none.mp fun hs => ?_)
    rw [hi.registeredSet.mpr ⟨hset, hs⟩] at hnone
    cases hnone

theorem balanced (hi : Inv w) : w.Balanced := by
  intro s ss hreg
  obtain ⟨set, hset⟩ := Option.isSome_iff_exists.mp hreg
  obtain ⟨hset, hs⟩ := hi.registeredSet.mp hset
  have hc := hi.counted ss set hset
  rw [BufferManager.handoutCount, BufferManager.attachedCount, hset]
  exact ⟨hc.handout_of_has hs, hc.attached_of_has hs⟩

/-- One set changes, or goes, with its part of the ledger. -/
theorem change {m' : BufferManager σ} {h' : Int → Int → Nat} (hi : Inv ⟨m, h⟩) (ss : Int)
    (hother : ∀ ss₁, ss₁ ≠ ss →
      m'.mStreamSetMap.find? ss₁ = m.mStreamSetMap.find? ss₁ ∧ h' ss₁ = h ss₁)
    (hnone : m'.mStreamSetMap.find? ss = none → ∀ s, h' ss s = 0)
    (hcounted : ∀ set', m'.mStreamSetMap.find? ss = some set' → set'.Counted ss (h' ss))
    (halone : ∀ set' s, m'.mStreamSetMap.find? ss = some set' → set'.Has s →
      ∀ ss₁ set₁, m.mStreamSetMap.find? ss₁ = some set₁ → set₁.Has s → ss₁ = ss)
    (hstreams : ∀ ss₁ set₁ s, m'.mStreamSetMap.find? ss₁ = some set₁ → set₁.Has s →
      (m'.mStreamMap.find? s).isSome) :
    Inv ⟨m', h'⟩ := by
  constructor
  case counted =>
    intro ss₁ set₁ hset₁
    by_cases heq : ss₁ = ss
    · subst heq
      exact hcounted set₁ hset₁
    · obtain ⟨hfind, hh⟩ := hother ss₁ heq
      show set₁.Counted ss₁ (h' ss₁)
      rw [hh]
      exact hi.counted ss₁ set₁ (hfind ▸ hset₁)
  case idle =>
    intro ss₁ hset₁ s
    by_cases heq : ss₁ = ss
    · subst heq
      exact hnone hset₁ s
    · obtain ⟨hfind, hh⟩ := hother ss₁ heq
      show h' ss₁ s = 0
      rw [hh]
      exact hi.idle ss₁ (hfind ▸ hset₁) s
  case alone =>
    intro ss₁ ss₂ set₁ set₂ s hset₁ hset₂ hs₁ hs₂
    by_cases heq₁ : ss₁ = ss
    · subst heq₁
      by_cases heq₂ : ss₂ = ss₁
      · exact heq₂.symm
      · exact (halone set₁ s hset₁ hs₁ ss₂ set₂ ((hother ss₂ heq₂).1 ▸ hset₂) hs₂).symm
    · have hset₁ := (hother ss₁ heq₁).1 ▸ hset₁
      by_cases heq₂ : ss₂ = ss
      · subst heq₂
        exact halone set₂ s hset₂ hs₂ ss₁ set₁ hset₁ hs₁
      · exact hi.alone ss₁ ss₂ set₁ set₂ s hset₁ ((hother ss₂ heq₂).1 ▸ hset₂) hs₁ hs₂
  case streams => exact hstreams

/-- Counts of one set change. -/
theorem setStreamSet (hi : Inv ⟨m, h⟩) (hset : m.mStreamSetMap.find? ss = some set)
    (hinfo : set'.streamInfoMap = set.streamInfoMap) {g : Int → Nat} (hc : set'.Counted ss g) :
    Inv ⟨m.setStreamSet ss set', Function.update h ss g⟩ := by
  have hhas : ∀ s, set'.Has s → set.Has s := fun s hs => by rwa [StreamSet.Has, hinfo] at hs
  have hfind : (m.setStreamSet ss set').mStreamSetMap.find? ss = some set' := by
    rw [BufferManager.setStreamSet, KeyedVector.find?_set, if_pos rfl]
  have hkept : ∀ ss₁, ss₁ ≠ ss →
      (m.setStreamSet ss set').mStreamSetMap.find? ss₁ = m.mStreamSetMap.find? ss₁ := by
    intro ss₁ hne
    rw [BufferManager.setStreamSet, KeyedVector.find?_set, if_neg hne]
  apply hi.change ss
  · exact fun ss₁ hne => ⟨hkept ss₁ hne, Function.update_of_ne hne _ _⟩
  · intro hnone
    rw [hfind] at hnone
    cases hnone
  · intro set₁ hset₁
    rw [hfind] at hset₁
    cases hset₁
    rwa [Function.update_self]
  · intro set₁ s hset₁ hs ss₁ set₂ hset₂ hs₂
    rw [hfind] at hset₁
    cases hset₁
    exact hi.alone ss₁ ss set₂ set s hset₂ hset hs₂ (hhas s hs)
  · intro ss₁ set₁ s hset₁ hs
    by_cases heq : ss₁ = ss
    · rw [heq, hfind] at hset₁
      cases hset₁
      exact hi.streams ss set s hset (hhas s hs)
    · exact hi.streams ss₁ set₁ s (hkept ss₁ heq ▸ hset₁) hs

theorem not_elsewhere (hi : Inv ⟨m, h⟩) (helse : m.registeredElsewhere s ss = false) {ss' : Int}
    (hset : m.mStreamSetMap.find? ss' = some set) (hs : set.Has s) : ss' = ss := by
  obtain ⟨i, hi'⟩ := Option.isSome_iff_exists.mp hs
  have hmem : set ∈ m.mStreamSetMap.values := (KeyedVector.mem_values _).mpr ⟨ss', hset⟩
  rw [BufferManager.registeredElsewhere, List.any_eq_false] at helse
  have hsame := helse set hmem
  rw [hi', Option.any_some, decide_eq_true_iff, not_not] at hsame
  exact ((hi.counted ss' set hset).info s i hi').2.1.symm.trans hsame

/-- The set of a stream to come, new if there is none. -/
theorem current (hi : Inv ⟨m, h⟩) (ss : Int) :
    ((m.mStreamSetMap.find? ss).getD {}).Counted ss (h ss) := by
  cases hset : m.mStreamSetMap.find? ss with
  | none =>
    have hzero : h ss = fun _ => 0 := funext fun s => hi.idle ss hset s
    rw [hzero]
    exact StreamSet.Counted.empty
  | some set => exact hi.counted ss set hset

/-- A stream that is in no set comes to one. -/
theorem addStream (hi : Inv ⟨m, h⟩) (stream : σ) {i : StreamInfo}
    (helse : m.registeredElsewhere i.streamId i.streamSetId = false)
    (hnew : ¬((m.mStreamSetMap.find? i.streamSetId).getD {}).Has i.streamId)
    (hpos : 0 < i.totalBufferCount) (hle : i.totalBufferCount ≤ kMaxBufferCount) :
    Inv ⟨{ mStreamSetMap := m.mStreamSetMap.set i.streamSetId
             (((m.mStreamSetMap.find? i.streamSetId).getD {}).addStream i)
           mStreamMap := m.mStreamMap.set i.streamId stream }, h⟩ := by
  have hadded := (hi.current i.streamSetId).addStream rfl hnew hpos hle
  have hhas : ∀ s, (((m.mStreamSetMap.find? i.streamSetId).getD {}).addStream i).Has s →
      s = i.streamId ∨ ∃ set, m.mStreamSetMap.find? i.streamSetId = some set ∧ set.Has s := by
    intro s hs
    simp only [StreamSet.Has, StreamSet.addStream, KeyedVector.find?_set] at hs
    split at hs
    · next heq => exact .inl heq
    · cases hset : m.mStreamSetMap.find? i.streamSetId with
      | none =>
        rw [hset] at hs
        cases hs
      | some set =>
        rw [hset] at hs
        exact .inr ⟨set, rfl, hs⟩
  have hstream : ∀ s, (m.mStreamMap.find? s).isSome →
      ((m.mStreamMap.set i.streamId stream).find? s).isSome :=
    fun _ hs => KeyedVector.isSome_find?_set hs _ _
  apply hi.change i.streamSetId
  · exact fun ss₁ hne => ⟨by simp only [KeyedVector.find?_set, if_neg hne], rfl⟩
  · intro hnone
    simp only [KeyedVector.find?_set, if_true] at hnone
    cases hnone
  · intro set₁ hset₁
    simp only [KeyedVector.find?_set, if_true] at hset₁
    cases hset₁
    exact hadded
  · intro set₁ s hset₁ hs ss₁ set₂ hset₂ hs₂
    simp only [KeyedVector.find?_set, if_true] at hset₁
    cases hset₁
    obtain rfl | ⟨set, hset, hs⟩ := hhas s hs
    · exact hi.not_elsewhere helse hset₂ hs₂
    · exact hi.alone ss₁ i.streamSetId set₂ set s hset₂ hset hs₂ hs
  · intro ss₁ set₁ s hset₁ hs
    simp only [KeyedVector.find?_set] at hset₁
    split at hset₁
    · cases hset₁
      obtain rfl | ⟨set, hset, hs⟩ := hhas s hs
      · simp only [KeyedVector.find?_set, if_true, Option.isSome_some]
      · exact hstream s (hi.streams i.streamSetId set s hset hs)
    · exact hstream s (hi.streams ss₁ set₁ s hset₁ hs)

theorem registerStream (hi : Inv ⟨m, h⟩) (stream : σ) (i : StreamInfo) :
    Inv ⟨(m.registerStream stream i).1, h⟩ := by
  rw [BufferManager.registerStream]
  split
  · exact hi
  · split
    · exact hi
    · next hcount =>
      split
      · exact hi
      · split
        · exact hi
        · next helse =>
          dsimp only
          split
          · next hhas =>
            cases hset : m.mStreamSetMap.find? i.streamSetId with
            | none =>
              rw [hset] at hhas
              cases hhas
            | some set =>
              have hsame := hi.setStreamSet hset rfl (hi.counted _ set hset)
              rwa [Function.update_eq_self] at hsame
          · next hnew => exact hi.addStream stream (by simpa using helse) hnew (by omega) (by omega)

theorem unregisterStream (hi : Inv ⟨m, h⟩) (hreg : m.registeredSet s ss = some set) :
    Inv ⟨(m.unregisterStream s ss).1, count h s ss 0⟩ := by
  obtain ⟨hset, hs⟩ := hi.registeredSet.mp hreg
  have hremoved := (hi.counted ss set hset).removeStream s
  have hhas : ∀ s', (set.removeStream s).Has s' → s' ≠ s ∧ set.Has s' := by
    intro s' hs'
    simp only [StreamSet.Has, StreamSet.removeStream, KeyedVector.find?_remove] at hs'
    split at hs'
    · cases hs'
    · next hne => exact ⟨hne, hs'⟩
  have hempty : (set.removeStream s).streamInfoMap.values.length = 0 →
      ∀ s', (set.removeStream s).streamInfoMap.find? s' = none := by
    intro hlength s'
    cases hs' : (set.removeStream s).streamInfoMap.find? s' with
    | none => rfl
    | some i =>
      have hmem := (KeyedVector.mem_values _).mpr ⟨s', hs'⟩
      rw [List.eq_nil_of_length_eq_zero hlength] at hmem
      cases hmem
  -- the set goes with its last stream
  have hwhen : ∀ ss₁, (m.unregisterStream s ss).1.mStreamSetMap.find? ss₁ =
      if ss₁ = ss then
        if (set.removeStream s).handoutBufferCountMap.values.length = 0 ∧
            (set.removeStream s).streamInfoMap.values.length = 0 then none
        else some (set.removeStream s)
      else m.mStreamSetMap.find? ss₁ := by
    intro ss₁
    rw [BufferManager.unregisterStream, hreg]
    dsimp only
    split
    · rw [KeyedVector.find?_remove]
    · rw [KeyedVector.find?_set]
  have hsome : ∀ set₁, (m.unregisterStream s ss).1.mStreamSetMap.find? ss = some set₁ →
      set₁ = set.removeStream s := by
    intro set₁ hset₁
    rw [hwhen, if_pos rfl] at hset₁
    split at hset₁
    · cases hset₁
    · exact (Option.some.inj hset₁).symm
  have hstreams : (m.unregisterStream s ss).1.mStreamMap = m.mStreamMap.remove s := by
    rw [BufferManager.unregisterStream, hreg]
  apply hi.change ss
  · intro ss₁ hne
    rw [hwhen, if_neg hne]
    exact ⟨rfl, Function.update_of_ne hne _ _⟩
  · intro hnone s'
    rw [hwhen, if_pos rfl] at hnone
    split at hnone
    · next hlength =>
      rw [count, Function.update_self]
      exact hremoved.idle s' (hempty hlength.2 s')
    · cases hnone
  · intro set₁ hset₁
    rw [hsome set₁ hset₁, count, Function.update_self]
    exact hremoved
  · intro set₁ s' hset₁ hs' ss₁ set₂ hset₂ hs₂
    rw [hsome set₁ hset₁] at hs'
    exact hi.alone ss₁ ss set₂ set s' hset₂ hset hs₂ (hhas s' hs').2
  -- a stream of another set is another stream
  · intro ss₁ set₁ s' hset₁ hs'
    have hkept : s' ≠ s ∧ (m.mStreamMap.find? s').isSome := by
      by_cases heq : ss₁ = ss
      · subst heq
        rw [hsome set₁ hset₁] at hs'
        exact ⟨(hhas s' hs').1, hi.streams ss₁ set s' hset (hhas s' hs').2⟩
      · rw [hwhen, if_neg heq] at hset₁
        refine ⟨?_, hi.streams ss₁ set₁ s' hset₁ hs'⟩
        rintro rfl
        exact heq (hi.alone ss₁ ss set₁ set s' hset₁ hset hs' hs)
    rw [hstreams, KeyedVector.find?_remove, if_neg hkept.1]
    exact hkept.2

/-! ### Calls -/

/-- What a disciplined call comes to. -/
def Goes (w : Ledger σ) (c : Call σ β) : Prop :=
  ∃ m res, w.manager.exec c = some (m, res) ∧ Inv ⟨m, record w.handedOut res c⟩ ∧
    Untouched w.manager m c res

theorem goes_unregisterStream (hi : Inv ⟨m, h⟩) (s ss : Int) :
    Goes ⟨m, h⟩ (.unregisterStream s ss : Call σ β) := by
  cases hreg : m.registeredSet s ss with
  | none =>
    refine ⟨m, .BAD_VALUE, ?_, hi, trivial⟩
    simp only [BufferManager.exec, BufferManager.unregisterStream, hreg]
  | some set =>
    refine ⟨_, .OK, ?_, hi.unregisterStream hreg, trivial⟩
    simp only [BufferManager.exec, BufferManager.unregisterStream, hreg]

theorem goes_getBufferForStream (hi : Inv ⟨m, h⟩) (s ss : Int) (noFreeBufferAtConsumer : Bool)
    (allocate : StreamInfo → Except Int β) (detach₁ detach₂ : σ → Option Bool)
    (halive : ∀ s' x n, s' ≠ s → m.mStreamMap.find? s' = some x →
      m.attachedCount s' ss = some n → h ss s' < n → (detach₁ x).isSome ∧ (detach₂ x).isSome) :
    Goes ⟨m, h⟩ (.getBufferForStream s ss noFreeBufferAtConsumer allocate detach₁ detach₂) := by
  cases hreg : m.registeredSet s ss with
  | none =>
    refine ⟨m, .BAD_VALUE, ?_, hi, fun _ _ _ _ => ⟨rfl, .inl rfl⟩⟩
    simp only [BufferManager.exec, BufferManager.getBufferForStream, hreg, Option.map_some]
  | some set =>
    obtain ⟨hset, hs⟩ := hi.registeredSet.mp hreg
    have hc := hi.counted ss set hset
    -- a stream of the set with a free attached buffer is alive
    have hpromote : ∀ s' n, s' ≠ s → set.Has s' → set.attachedBufferCountMap.find? s' = some n →
        h ss s' < n → ∃ x, m.mStreamMap.find? s' = some x ∧
          (detach₁ x).isSome ∧ (detach₂ x).isSome := by
      intro s' n hne hs' hn hlt
      obtain ⟨x, hx⟩ := Option.isSome_iff_exists.mp (hi.streams ss set s' hset hs')
      have hattached : m.attachedCount s' ss = some n := by
        rw [BufferManager.attachedCount, hset]
        exact hn
      exact ⟨x, hx, halive s' x n hne hx hattached hlt⟩
    obtain ⟨set', res, gb, hget, hinfo, hres⟩ := hc.getBuffer allocate hs
      (fun s' n hne hs' hn hlt => (hpromote s' n hne hs' hn hlt).imp fun _ hx => ⟨hx.1, hx.2.1⟩)
      (fun s' n hne hs' hn hlt => (hpromote s' n hne hs' hn hlt).imp fun _ hx => ⟨hx.1, hx.2.2⟩)
      noFreeBufferAtConsumer
    refine ⟨m.setStreamSet ss set', res, ?_, ?_, ?_⟩
    · simp only [BufferManager.exec, BufferManager.getBufferForStream, hreg, hget,
        Option.bind_eq_bind, Option.bind_some]
      rfl
    · rw [record]
      split at hres
      · next hgot =>
        rw [if_pos hgot]
        exact hi.setStreamSet hset hinfo hres
      · next hnot =>
        rw [if_neg hnot]
        have hsame := hi.setStreamSet hset hinfo hres.1
        rwa [Function.update_eq_self] at hsame
    -- a call that fails may have set the attached count to that of the consumer
    · intro hok hexists s' ss'
      rw [if_neg (by rintro (heq | heq) <;> contradiction)] at hres
      obtain ⟨hc', hhow⟩ := hres
      simp only [BufferManager.handoutCount, BufferManager.attachedCount,
        BufferManager.setStreamSet, KeyedVector.find?_set, if_true]
      by_cases heq : ss' = ss
      · rw [if_pos heq, heq, hset]
        obtain rfl | ⟨hno, rfl⟩ := hhow
        · exact ⟨rfl, .inl rfl⟩
        · refine ⟨rfl, ?_⟩
          by_cases heq' : s' = s
          · refine .inr ⟨heq', rfl, hno, ?_⟩
            simp only [Option.bind_some, StreamSet.setAttached, KeyedVector.find?_set, if_true]
            exact (hc.handout_of_has hs).symm
          · refine .inl ?_
            simp only [Option.bind_some, StreamSet.setAttached, KeyedVector.find?_set, if_neg heq']
      · rw [if_neg heq]
        exact ⟨rfl, .inl rfl⟩

theorem goes_onBufferReleased (hi : Inv ⟨m, h⟩) (s ss : Int) (hasPlace : Bool)
    (hout : m.Registered s ss → 0 < h ss s) :
    Goes ⟨m, h⟩ (.onBufferReleased s ss hasPlace : Call σ β) := by
  cases hasPlace with
  | false => exact ⟨m, .BAD_VALUE, rfl, hi, trivial⟩
  | true =>
    cases hreg : m.registeredSet s ss with
    | none =>
      refine ⟨m, .OK, ?_, ?_, trivial⟩
      · simp only [BufferManager.exec, BufferManager.onBufferReleased, hreg]
        rfl
      · have hzero := hi.idle_of_none hreg
        have hsame := count_self h s ss
        rw [hzero] at hsame
        simp only [record, if_true, hzero, Nat.zero_sub, hsame]
        exact hi
    | some set =>
      obtain ⟨hset, hs⟩ := hi.registeredSet.mp hreg
      obtain ⟨set', shouldFreeBuffer, hreleased, hinfo, hc⟩ :=
        (hi.counted ss set hset).bufferReleased hs (hout (Option.isSome_iff_exists.mpr ⟨set, hreg⟩))
      refine ⟨m.setStreamSet ss set', .OK, ?_, hi.setStreamSet hset hinfo hc, trivial⟩
      simp only [BufferManager.exec, BufferManager.onBufferReleased, hreg, hreleased,
        Option.bind_eq_bind, Option.bind_some]
      rfl

theorem goes_onBuffersRemoved (hi : Inv ⟨m, h⟩) (s ss : Int) (n : Nat)
    (hout : m.Registered s ss → n ≤ h ss s) :
    Goes ⟨m, h⟩ (.onBuffersRemoved s ss n : Call σ β) := by
  cases hreg : m.registeredSet s ss with
  | none =>
    refine ⟨m, .OK, ?_, ?_, trivial⟩
    · simp only [BufferManager.exec, BufferManager.onBuffersRemoved, hreg]
    · have hzero := hi.idle_of_none hreg
      have hsame := count_self h s ss
      rw [hzero] at hsame
      simp only [record, if_true, hzero, Nat.zero_sub, hsame]
      exact hi
  | some set =>
    obtain ⟨hset, hs⟩ := hi.registeredSet.mp hreg
    obtain ⟨set', hremoved, hinfo, hc⟩ :=
      (hi.counted ss set hset).buffersRemoved hs (hout (Option.isSome_iff_exists.mpr ⟨set, hreg⟩))
    refine ⟨m.setStreamSet ss set', .OK, ?_, hi.setStreamSet hset hinfo hc, trivial⟩
    simp only [BufferManager.exec, BufferManager.onBuffersRemoved, hreg, hremoved,
      Option.bind_eq_bind, Option.bind_some]
    rfl

theorem goes_notifyBufferRemoved (hi : Inv ⟨m, h⟩) (s ss : Int) (hreg : m.Registered s ss)
    (hfree : ∃ n, m.attachedCount s ss = some n ∧ h ss s < n) :
    Goes ⟨m, h⟩ (.notifyBufferRemoved s ss : Call σ β) := by
  obtain ⟨set, hreg⟩ := Option.isSome_iff_exists.mp hreg
  obtain ⟨hset, hs⟩ := hi.registeredSet.mp hreg
  rw [BufferManager.attachedCount, hset] at hfree
  obtain ⟨set', hremoved, hinfo, hc⟩ := (hi.counted ss set hset).bufferRemoved hs hfree
  refine ⟨m.setStreamSet ss set', .OK, ?_, ?_, trivial⟩
  · simp only [BufferManager.exec, BufferManager.notifyBufferRemoved, hset, hremoved,
      Option.bind_eq_bind, Option.bind_some]
    rfl
  · have hsame := hi.setStreamSet hset hinfo hc
    rwa [Function.update_eq_self] at hsame

theorem goes (hi : Inv w) (c : Call σ β) (hc : w.Disciplined c) : Goes w c := by
  cases c with
  | registerStream stream i => exact ⟨_, _, rfl, hi.registerStream stream i, trivial⟩
  | unregisterStream s ss => exact hi.goes_unregisterStream s ss
  | getBufferForStream s ss noFree allocate detach₁ detach₂ =>
    exact hi.goes_getBufferForStream s ss noFree allocate detach₁ detach₂ hc
  | onBufferReleased s ss hasPlace => exact hi.goes_onBufferReleased s ss hasPlace hc
  | onBuffersRemoved s ss n => exact hi.goes_onBuffersRemoved s ss n hc
  | notifyBufferRemoved s ss => exact hi.goes_notifyBufferRemoved s ss hc.1 hc.2

theorem step (hi : Inv w) (c : Call σ β) (hc : w.Disciplined c) :
    w.Accounted c ∧ Inv (w.step c) := by
  obtain ⟨m, res, hexec, hinv, huntouched⟩ := hi.goes c hc
  have hstep : w.step c = ⟨m, record w.handedOut res c⟩ := by rw [Ledger.step, hexec]; rfl
  rw [← hstep] at hinv
  exact ⟨⟨m, res, hexec, hinv.balanced, huntouched⟩, hinv⟩

end Inv

theorem counts_of_run (calls : List (Call σ β))
    (h : Along step Disciplined ({} : Ledger σ) calls) :
    Along step Accounted ({} : Ledger σ) calls :=
  Along.imp (fun _ c hi hc => hi.step c hc) Inv.start h

/-- Two streams of a set. The second gets two buffers and releases them, and when the first has two
more, the manager detaches one that is free. -/
theorem counts_of_run_twoStreams :
    let stream (streamId : Int) : Call Unit Nat := .registerStream ()
      { streamId := streamId, streamSetId := 0, totalBufferCount := 4, isConfigured := true }
    let get (streamId : Int) : Call Unit Nat :=
      .getBufferForStream streamId 0 false (fun _ => .ok 7) (fun _ => some true) fun _ => some true
    let release : Call Unit Nat := .onBufferReleased 1 0 true
    let calls := [stream 0, stream 1, get 1, get 1, release, release, get 0, get 0]
    let w := calls.foldl step ({} : Ledger Unit)
    Along step Accounted ({} : Ledger Unit) calls ∧
      w.manager.attachedCount 0 0 = some 2 ∧ w.manager.attachedCount 1 0 = some 1 ∧
      w.handedOut 0 1 = 0 := by
  intro stream get release calls w
  refine ⟨counts_of_run calls ⟨trivial, trivial, ?_, ?_, ?_, ?_, ?_, ?_, trivial⟩, by decide,
    by decide, by decide⟩
  · exact fun _ _ _ _ _ _ _ => ⟨rfl, rfl⟩
  · exact fun _ _ _ _ _ _ _ => ⟨rfl, rfl⟩
  · exact fun _ => by decide
  · exact fun _ => by decide
  · exact fun _ _ _ _ _ _ _ => ⟨rfl, rfl⟩
  · exact fun _ _ _ _ _ _ _ => ⟨rfl, rfl⟩

/-! ### A buffer that is handed out twice -/

def register : Call Unit Nat := .registerStream ()
  { streamId := 0, streamSetId := 0, totalBufferCount := 2, isConfigured := true }

/-- `res` is what the allocator answers. -/
def get (noFreeBufferAtConsumer : Bool) (res : Except Int Nat) : Call Unit Nat :=
  .getBufferForStream 0 0 noFreeBufferAtConsumer (fun _ => res) (fun _ => some false)
    fun _ => some false

def release : Call Unit Nat := .onBufferReleased 0 0 true

/-- The consumer has no free buffer and there is no memory for another one: the call that fails has set
the attached count. And a buffer from before the stream was registered again cannot be released. -/
theorem attachedCount_after_failure :
    let w := [register, get false (.ok 7), release].foldl step ({} : Ledger Unit)
    let w' := [register, get false (.ok 7), .unregisterStream 0 0, register].foldl step
      ({} : Ledger Unit)
    w.manager.attachedCount 0 0 = some 1 ∧
      (w.manager.exec (get true (.error (-12)))).map
          (fun r => (r.1.attachedCount 0 0, r.2)) = some (some 0, .failed (-12)) ∧
      (w'.manager.exec release).isNone := by
  decide

end Ledger

end MediaFramework.Camera
