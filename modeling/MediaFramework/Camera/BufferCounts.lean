import MediaFramework.Camera.BufferManager
import Mathlib.Logic.Function.Basic

/-!
# The counts of a stream set

What the two counts of each stream of a set have to do with the buffers that the stream has been
handed out, and what each operation makes of that.
-/

namespace MediaFramework.Camera.StreamSet

/-- The counts of a stream set whose streams have been handed out buffers and have not released or
removed them. -/
structure Counted (set : StreamSet) (streamSetId : Int) (handedOut : Int → Nat) : Prop where
  info : ∀ s i, set.streamInfoMap.find? s = some i →
    i.streamId = s ∧ i.streamSetId = streamSetId ∧ 0 < i.totalBufferCount ∧
      i.totalBufferCount ≤ set.maxAllowedBufferCount
  bounded : set.maxAllowedBufferCount ≤ kMaxBufferCount
  handout : ∀ s, set.handoutBufferCountMap.find? s =
    (set.streamInfoMap.find? s).map fun _ => handedOut s
  attached : ∀ s, (set.attachedBufferCountMap.find? s).isSome = (set.streamInfoMap.find? s).isSome
  free : ∀ s n, set.attachedBufferCountMap.find? s = some n → handedOut s ≤ n
  idle : ∀ s, set.streamInfoMap.find? s = none → handedOut s = 0

def Has (set : StreamSet) (streamId : Int) : Prop := (set.streamInfoMap.find? streamId).isSome

namespace Counted

variable {set set' : StreamSet} {ss s s' : Int} {h : Int → Nat} {n : Nat}

theorem handout_of_has (hc : set.Counted ss h) (hs : set.Has s) :
    set.handoutBufferCountMap.find? s = some (h s) := by
  obtain ⟨i, hi⟩ := Option.isSome_iff_exists.mp hs
  rw [hc.handout, hi, Option.map_some]

theorem attached_of_has (hc : set.Counted ss h) (hs : set.Has s) :
    ∃ n, set.attachedBufferCountMap.find? s = some n ∧ h s ≤ n := by
  obtain ⟨n, hn⟩ := Option.isSome_iff_exists.mp ((hc.attached s).trans hs)
  exact ⟨n, hn, hc.free s n hn⟩

theorem max_pos (hc : set.Counted ss h) (hs : set.Has s) : 0 < set.maxAllowedBufferCount := by
  obtain ⟨i, hi⟩ := Option.isSome_iff_exists.mp hs
  obtain ⟨-, -, hpos, hle⟩ := hc.info s i hi
  omega

theorem empty : Counted {} ss fun _ => 0 where
  info := fun _ _ hi => by simp at hi
  bounded := Nat.zero_le _
  handout := fun _ => rfl
  attached := fun _ => rfl
  free := fun _ _ _ => Nat.zero_le _
  idle := fun _ _ => rfl

theorem addStream (hc : set.Counted ss h) {i : StreamInfo} (hset : i.streamSetId = ss)
    (hnew : ¬set.Has i.streamId) (hpos : 0 < i.totalBufferCount)
    (hle : i.totalBufferCount ≤ kMaxBufferCount) : (set.addStream i).Counted ss h := by
  have hnone : set.streamInfoMap.find? i.streamId = none := by simpa [Has] using hnew
  have hmax : (set.addStream i).maxAllowedBufferCount =
      max i.totalBufferCount set.maxAllowedBufferCount := by
    simp only [StreamSet.addStream]
    split <;> omega
  constructor
  case info =>
    intro s j hj
    simp only [StreamSet.addStream, KeyedVector.find?_set] at hj
    split at hj
    · next hs =>
      cases hj
      exact ⟨hs.symm, hset, hpos, hmax ▸ Nat.le_max_left _ _⟩
    · obtain ⟨hid, hsid, hpos, hle⟩ := hc.info s j hj
      exact ⟨hid, hsid, hpos, hmax ▸ hle.trans (Nat.le_max_right _ _)⟩
  case bounded => exact hmax ▸ Nat.max_le.mpr ⟨hle, hc.bounded⟩
  case handout =>
    intro s
    simp only [StreamSet.addStream, KeyedVector.find?_set]
    split
    · next hs => rw [Option.map_some, hs, hc.idle _ hnone]
    · exact hc.handout s
  case attached =>
    intro s
    simp only [StreamSet.addStream, KeyedVector.find?_set]
    split
    · rfl
    · exact hc.attached s
  case free =>
    intro s n hn
    simp only [StreamSet.addStream, KeyedVector.find?_set] at hn
    split at hn
    · next hs => rw [hs, hc.idle _ hnone]; exact Nat.zero_le _
    · exact hc.free s n hn
  case idle =>
    intro s hs
    simp only [StreamSet.addStream, KeyedVector.find?_set] at hs
    split at hs
    · cases hs
    · exact hc.idle s hs

theorem removeStream_max_le (set : StreamSet) (s : Int) (bound : Nat) :
    (set.removeStream s).maxAllowedBufferCount ≤ bound ↔
      ∀ i ∈ (set.streamInfoMap.remove s).values, i.totalBufferCount ≤ bound := by
  have hfold : ∀ (infos : List StreamInfo) (count : Nat),
      infos.foldl
          (fun count info => if info.totalBufferCount > count then info.totalBufferCount else count)
          count ≤ bound ↔
        count ≤ bound ∧ ∀ i ∈ infos, i.totalBufferCount ≤ bound := by
    intro infos
    induction infos with
    | nil => intro count; simp
    | cons info infos ih =>
      intro count
      rw [List.foldl_cons, ih, List.forall_mem_cons]
      split
      · constructor
        · rintro ⟨hinfo, hinfos⟩
          exact ⟨by omega, hinfo, hinfos⟩
        · rintro ⟨-, hinfo, hinfos⟩
          exact ⟨hinfo, hinfos⟩
      · constructor
        · rintro ⟨hcount, hinfos⟩
          exact ⟨hcount, by omega, hinfos⟩
        · rintro ⟨hcount, -, hinfos⟩
          exact ⟨hcount, hinfos⟩
  exact (hfold _ 0).trans (and_iff_right (Nat.zero_le _))

theorem removeStream (hc : set.Counted ss h) (s : Int) :
    (set.removeStream s).Counted ss (Function.update h s 0) := by
  have hkept : ∀ s' i, (set.streamInfoMap.remove s).find? s' = some i →
      s' ≠ s ∧ set.streamInfoMap.find? s' = some i := by
    intro s' i hi
    rw [KeyedVector.find?_remove] at hi
    split at hi
    · cases hi
    · next hne => exact ⟨hne, hi⟩
  constructor
  -- the largest count is taken anew over the streams that stay
  case info =>
    intro s' i hi
    obtain ⟨hid, hsid, hpos, -⟩ := hc.info s' i (hkept s' i hi).2
    exact ⟨hid, hsid, hpos, (removeStream_max_le set s _).mp le_rfl i
      ((KeyedVector.mem_values _).mpr ⟨s', hi⟩)⟩
  case bounded =>
    rw [removeStream_max_le]
    intro i hi
    obtain ⟨s', hs'⟩ := (KeyedVector.mem_values _).mp hi
    obtain ⟨-, -, -, hle⟩ := hc.info s' i (hkept s' i hs').2
    exact hle.trans hc.bounded
  case handout =>
    intro s'
    simp only [StreamSet.removeStream, KeyedVector.find?_remove]
    split
    · rfl
    · next hne => rw [Function.update_of_ne hne, hc.handout]
  case attached =>
    intro s'
    simp only [StreamSet.removeStream, KeyedVector.find?_remove]
    split
    · rfl
    · exact hc.attached s'
  case free =>
    intro s' n hn
    simp only [StreamSet.removeStream, KeyedVector.find?_remove] at hn
    split at hn
    · cases hn
    · next hne =>
      rw [Function.update_of_ne hne]
      exact hc.free s' n hn
  case idle =>
    intro s' hs'
    by_cases hne : s' = s
    · rw [hne, Function.update_self]
    · rw [Function.update_of_ne hne]
      simp only [StreamSet.removeStream, KeyedVector.find?_remove, if_neg hne] at hs'
      exact hc.idle s' hs'

theorem setWaterMark (hc : set.Counted ss h) (waterMark : Nat) :
    { set with allocatedBufferWaterMark := waterMark }.Counted ss h where
  info := hc.info
  bounded := hc.bounded
  handout := hc.handout
  attached := hc.attached
  free := hc.free
  idle := hc.idle

theorem setHandout (hc : set.Counted ss h) (hs : set.Has s) {count : Nat}
    (hle : ∀ n, set.attachedBufferCountMap.find? s = some n → count ≤ n) :
    (set.setHandout s count).Counted ss (Function.update h s count) where
  info := hc.info
  bounded := hc.bounded
  handout s' := by
    simp only [StreamSet.setHandout, KeyedVector.find?_set]
    split
    · next heq =>
      obtain ⟨i, hi⟩ := Option.isSome_iff_exists.mp hs
      rw [heq, hi, Option.map_some, Function.update_self]
    · next hne => rw [Function.update_of_ne hne, hc.handout]
  attached := hc.attached
  free s' n hn := by
    by_cases heq : s' = s
    · rw [heq, Function.update_self]
      exact hle n (heq ▸ hn)
    · rw [Function.update_of_ne heq]
      exact hc.free s' n hn
  idle s' hs' := by
    have hne : s' ≠ s := by
      rintro rfl
      simp only [StreamSet.setHandout] at hs'
      rw [Has, hs'] at hs
      cases hs
    rw [Function.update_of_ne hne]
    exact hc.idle s' hs'

theorem setAttached (hc : set.Counted ss h) (hs : set.Has s) (hle : h s ≤ n) :
    (set.setAttached s n).Counted ss h where
  info := hc.info
  bounded := hc.bounded
  handout := hc.handout
  attached s' := by
    simp only [StreamSet.setAttached, KeyedVector.find?_set]
    split
    · next heq => rw [heq]; exact hs.symm
    · exact hc.attached s'
  free s' k hk := by
    simp only [StreamSet.setAttached, KeyedVector.find?_set] at hk
    split at hk
    · next heq => cases hk; exact heq ▸ hle
    · exact hc.free s' k hk
  idle := hc.idle

/-! ### The operations -/

theorem hasFreeBuffer_of_has (hc : set.Counted ss h) (hs : set.Has s) :
    ∃ n, set.attachedBufferCountMap.find? s = some n ∧
      set.hasFreeBuffer s = some (decide (h s < n)) := by
  obtain ⟨n, hn, -⟩ := hc.attached_of_has hs
  refine ⟨n, hn, ?_⟩
  simp only [hasFreeBuffer, hc.handout_of_has hs, hn, Option.bind_eq_bind, Option.bind_some, gt_iff_lt]
  rfl

theorem firstOtherStream_of_has (hc : set.Counted ss h) (s : Int) (infos : List StreamInfo)
    (hinfos : ∀ i ∈ infos, set.Has i.streamId) :
    ∃ other, firstOtherStream set s infos = some other ∧
      ∀ s', other = some s' →
        s' ≠ s ∧ set.Has s' ∧ ∃ n, set.attachedBufferCountMap.find? s' = some n ∧ h s' < n := by
  induction infos with
  | nil => exact ⟨none, rfl, fun _ hs' => by cases hs'⟩
  | cons i infos ih =>
    obtain ⟨hi, hinfos⟩ := List.forall_mem_cons.mp hinfos
    obtain ⟨other, hother, hfree⟩ := ih hinfos
    rw [firstOtherStream]
    split
    · next hne =>
      obtain ⟨n, hn, hhas⟩ := hc.hasFreeBuffer_of_has hi
      rw [hhas, Option.bind_eq_bind, Option.bind_some]
      by_cases hlt : h i.streamId < n
      · rw [if_pos (decide_eq_true hlt)]
        refine ⟨some i.streamId, rfl, ?_⟩
        rintro s' hs'
        cases hs'
        exact ⟨hne, hi, n, hn, hlt⟩
      · rw [if_neg (by simpa using hlt)]
        exact ⟨other, hother, hfree⟩
    · exact ⟨other, hother, hfree⟩

/-- Each stream of the set that has a free attached buffer, but for `s`, can be promoted. -/
def Promotes {σ : Type} (mStreamMap : KeyedVector Int σ) (detach : σ → Option Bool)
    (set : StreamSet) (h : Int → Nat) (s : Int) : Prop :=
  ∀ s' n, s' ≠ s → set.Has s' → set.attachedBufferCountMap.find? s' = some n → h s' < n →
    ∃ x, mStreamMap.find? s' = some x ∧ (detach x).isSome

/-- No other stream has come by buffers. -/
structure Spared (set set' : StreamSet) (s : Int) : Prop where
  info : set'.streamInfoMap = set.streamInfoMap
  attached : ∀ s' n, s' ≠ s → set'.attachedBufferCountMap.find? s' = some n →
    ∃ n₀, set.attachedBufferCountMap.find? s' = some n₀ ∧ n ≤ n₀

theorem Spared.refl (set : StreamSet) (s : Int) : Spared set set s :=
  ⟨rfl, fun _ n _ hn => ⟨n, hn, le_rfl⟩⟩

theorem Spared.trans {set₁ set₂ : StreamSet} (h₁ : Spared set set₁ s) (h₂ : Spared set₁ set₂ s) :
    Spared set set₂ s := by
  refine ⟨h₂.info.trans h₁.info, fun s' n hne hn => ?_⟩
  obtain ⟨n₁, hn₁, hle₁⟩ := h₂.attached s' n hne hn
  obtain ⟨n₀, hn₀, hle₀⟩ := h₁.attached s' n₁ hne hn₁
  exact ⟨n₀, hn₀, hle₁.trans hle₀⟩

theorem Spared.setAttached (set : StreamSet) (s : Int) (count : Nat) :
    Spared set (set.setAttached s count) s := by
  refine ⟨rfl, fun s' n hne hn => ⟨n, ?_, le_rfl⟩⟩
  rwa [StreamSet.setAttached, KeyedVector.find?_set, if_neg hne] at hn

theorem Promotes.spared {σ : Type} {mStreamMap : KeyedVector Int σ} {detach : σ → Option Bool}
    {set' : StreamSet} {h' : Int → Nat} (hp : Promotes mStreamMap detach set h s)
    (hspared : Spared set set' s) (hsame : ∀ s', s' ≠ s → h' s' = h s') :
    Promotes mStreamMap detach set' h' s := by
  intro s' n hne hs' hn hlt
  obtain ⟨n₀, hn₀, hle⟩ := hspared.attached s' n hne hn
  rw [Has, hspared.info] at hs'
  rw [hsame s' hne] at hlt
  exact hp s' n₀ hne hs' hn₀ (hlt.trans_le hle)

/-- Where the streams can be promoted, at most the attached count of another stream changes. -/
theorem checkAndFree {σ : Type} {mStreamMap : KeyedVector Int σ} {detach : σ → Option Bool}
    (hc : set.Counted ss h) (hpromote : Promotes mStreamMap detach set h s) :
    ∃ set', set.checkAndFreeBufferOnOtherStreams mStreamMap detach s = some (set', .OK) ∧
      Spared set set' s ∧ set'.Counted ss h := by
  have hkeeps : ∃ set', some (set, Status.OK) = some (set', .OK) ∧
      Spared set set' s ∧ set'.Counted ss h := ⟨set, rfl, .refl set s, hc⟩
  have hvalues : ∀ i ∈ set.streamInfoMap.values, set.Has i.streamId := by
    intro i hi
    obtain ⟨s', hs'⟩ := (KeyedVector.mem_values _).mp hi
    rw [(hc.info s' i hs').1, Has, hs']
    rfl
  obtain ⟨other, hother, hfree⟩ := hc.firstOtherStream_of_has s _ hvalues
  rw [checkAndFreeBufferOnOtherStreams]
  split
  · exact hkeeps
  · rw [hother, Option.bind_eq_bind, Option.bind_some]
    cases other with
    | none => exact hkeeps
    | some s' =>
      -- the stream found has a free attached buffer, so that it can be promoted
      obtain ⟨hne, hs', n, hn, hlt⟩ := hfree s' rfl
      obtain ⟨x, hx, hdetach⟩ := hpromote s' n hne hs' hn hlt
      obtain ⟨freed, hfreed⟩ := Option.isSome_iff_exists.mp hdetach
      simp only [hx, Option.bind_eq_bind, Option.bind_some, hfreed]
      split
      · cases freed with
        | false => exact hkeeps
        | true =>
          simp only [hn, Option.bind_some]
          rw [if_neg (by omega)]
          refine ⟨_, rfl, ⟨rfl, fun s₁ n₁ _ hn₁ => ?_⟩, hc.setAttached hs' (by omega)⟩
          rw [StreamSet.setAttached, KeyedVector.find?_set] at hn₁
          split at hn₁
          · next heq =>
            cases hn₁
            exact ⟨n, heq ▸ hn, Nat.sub_le n 1⟩
          · exact ⟨n₁, hn₁, le_rfl⟩
      · exact hkeeps

/-- A call that gets a buffer counts it. One that fails leaves the set as it was, but for what the
caller has said about the consumer. -/
theorem getBuffer {σ β : Type} {mStreamMap : KeyedVector Int σ} {detach₁ detach₂ : σ → Option Bool}
    (hc : set.Counted ss h) (allocate : StreamInfo → Except Int β) (hs : set.Has s)
    (hpromote₁ : Promotes mStreamMap detach₁ set h s)
    (hpromote₂ : Promotes mStreamMap detach₂ set h s) (noFreeBufferAtConsumer : Bool) :
    ∃ set' res gb,
      set.getBuffer mStreamMap allocate detach₁ detach₂ s noFreeBufferAtConsumer =
          some (set', res, gb) ∧
        set'.streamInfoMap = set.streamInfoMap ∧
        if res = .OK ∨ res = .ALREADY_EXISTS then
          set'.Counted ss (Function.update h s (h s + 1))
        else
          set'.Counted ss h ∧
            (set' = set ∨ noFreeBufferAtConsumer ∧ set' = set.setAttached s (h s)) := by
  obtain ⟨n, hn, hle⟩ := hc.attached_of_has hs
  -- the set after the word about the consumer
  obtain ⟨set₁, n₁, hset₁, hc₁, hspared₁, hn₁, hhow⟩ : ∃ set₁ n₁,
      (if noFreeBufferAtConsumer then (set.setAttached s (h s), h s) else (set, n)) = (set₁, n₁) ∧
        set₁.Counted ss h ∧ Spared set set₁ s ∧
        (set₁.attachedBufferCountMap.find? s = some n₁ ∧ h s ≤ n₁) ∧
        (set₁ = set ∨ noFreeBufferAtConsumer ∧ set₁ = set.setAttached s (h s)) := by
    cases noFreeBufferAtConsumer with
    | false => exact ⟨set, n, rfl, hc, .refl set s, ⟨hn, hle⟩, .inl rfl⟩
    | true =>
      refine ⟨set.setAttached s (h s), h s, rfl, hc.setAttached hs le_rfl, .setAttached set s _,
        ⟨?_, le_rfl⟩, .inr ⟨rfl, rfl⟩⟩
      rw [StreamSet.setAttached, KeyedVector.find?_set, if_pos rfl]
  obtain ⟨hn₁, hle₁⟩ := hn₁
  have hinfo₁ := hspared₁.info
  have hs₁ : set₁.Has s := by rw [Has, hinfo₁]; exact hs
  obtain ⟨i, hi⟩ := Option.isSome_iff_exists.mp hs₁
  simp only [StreamSet.getBuffer, hc.handout_of_has hs, hn, Option.bind_eq_bind, Option.bind_some,
    hset₁, hi]
  by_cases hmax : h s ≥ set₁.maxAllowedBufferCount
  · rw [if_pos hmax]
    refine ⟨set₁, .INVALID_OPERATION, none, rfl, hinfo₁, ?_⟩
    rw [if_neg (by decide)]
    exact ⟨hc₁, hhow⟩
  · rw [if_neg hmax]
    by_cases hfree : n₁ > h s
    · rw [if_pos hfree]
      refine ⟨_, .ALREADY_EXISTS, none, rfl, hinfo₁, ?_⟩
      rw [if_pos (.inr rfl)]
      refine hc₁.setHandout hs₁ fun k hk => ?_
      rw [hn₁] at hk
      cases hk
      exact hfree
    · rw [if_neg hfree]
      cases allocate i with
      | error res =>
        refine ⟨set₁, .failed res, none, rfl, hinfo₁, ?_⟩
        rw [if_neg (by rintro (hres | hres) <;> cases hres)]
        exact ⟨hc₁, hhow⟩
      | ok buffer =>
        -- both counts go up, then the water mark, then other streams may lose a buffer each time
        have hcounted : ((set₁.setHandout s (h s + 1)).setAttached s (n₁ + 1)).Counted ss
            (Function.update h s (h s + 1)) := by
          refine (hc₁.setAttached hs₁ (n := n₁ + 1) (by omega)).setHandout hs₁ fun k hk => ?_
          simp only [StreamSet.setAttached, KeyedVector.find?_set, if_true] at hk
          cases hk
          omega
        have hattached := hspared₁.trans (.setAttached set₁ s (n₁ + 1))
        have hspared₂ : Spared set ((set₁.setHandout s (h s + 1)).setAttached s (n₁ + 1)) s :=
          ⟨hattached.info, hattached.attached⟩
        generalize (set₁.setHandout s (h s + 1)).setAttached s (n₁ + 1) = set₂ at hcounted hspared₂
        obtain ⟨set₃, hset₃, hspared₃, hc₃⟩ : ∃ set₃,
            (if h s + 2 > set₂.allocatedBufferWaterMark then
              { set₂ with allocatedBufferWaterMark := h s + 2 } else set₂) = set₃ ∧
              Spared set set₃ s ∧ set₃.Counted ss (Function.update h s (h s + 1)) := by
          split
          · exact ⟨_, rfl, ⟨hspared₂.info, hspared₂.attached⟩, hcounted.setWaterMark _⟩
          · exact ⟨_, rfl, hspared₂, hcounted⟩
        have hsame : ∀ s', s' ≠ s → Function.update h s (h s + 1) s' = h s' :=
          fun s' hne => Function.update_of_ne hne _ _
        obtain ⟨set₄, hset₄, hspared₄, hc₄⟩ := hc₃.checkAndFree (hpromote₁.spared hspared₃ hsame)
        have hspared₄ := hspared₃.trans hspared₄
        obtain ⟨set₅, hset₅, hspared₅, hc₅⟩ := hc₄.checkAndFree (hpromote₂.spared hspared₄ hsame)
        simp only [hset₃, hset₄, hset₅, Option.bind_some]
        refine ⟨set₅, .OK, some buffer, rfl, (hspared₄.trans hspared₅).info, ?_⟩
        rw [if_pos (.inl rfl)]
        exact hc₅

theorem bufferReleased (hc : set.Counted ss h) (hs : set.Has s) (hout : 0 < h s) :
    ∃ set' shouldFreeBuffer, set.bufferReleased s = some (set', shouldFreeBuffer) ∧
      set'.streamInfoMap = set.streamInfoMap ∧
      set'.Counted ss (Function.update h s (h s - 1)) := by
  obtain ⟨n, hn, hle⟩ := hc.attached_of_has hs
  have hcounted : (set.setHandout s (h s - 1)).Counted ss (Function.update h s (h s - 1)) := by
    refine hc.setHandout hs fun k hk => ?_
    rw [hn] at hk
    cases hk
    omega
  have hn₁ : (set.setHandout s (h s - 1)).attachedBufferCountMap.find? s = some n := hn
  have hinfo₁ : (set.setHandout s (h s - 1)).streamInfoMap = set.streamInfoMap := rfl
  simp only [StreamSet.bufferReleased, hc.handout_of_has hs, Option.bind_eq_bind, Option.bind_some]
  rw [if_neg (by omega)]
  generalize set.setHandout s (h s - 1) = set₁ at hcounted hn₁ hinfo₁
  split
  · simp only [hn₁, Option.bind_some]
    exact ⟨_, _, rfl, hinfo₁, hcounted.setWaterMark _⟩
  · simp only [hn₁, Option.bind_some]
    exact ⟨_, _, rfl, hinfo₁, hcounted⟩

theorem buffersRemoved (hc : set.Counted ss h) (hs : set.Has s) {count : Nat} (hout : count ≤ h s) :
    ∃ set', set.buffersRemoved s count = some (set', .OK) ∧
      set'.streamInfoMap = set.streamInfoMap ∧
      set'.Counted ss (Function.update h s (h s - count)) := by
  obtain ⟨n, hn, hle⟩ := hc.attached_of_has hs
  simp only [StreamSet.buffersRemoved, hc.handout_of_has hs, hn, Option.bind_eq_bind,
    Option.bind_some]
  rw [if_neg (by omega), if_neg (by omega)]
  refine ⟨_, rfl, rfl, ?_⟩
  have hcounted : (set.setHandout s (h s - count)).Counted ss
      (Function.update h s (h s - count)) := by
    refine hc.setHandout hs fun k hk => ?_
    rw [hn] at hk
    cases hk
    omega
  refine hcounted.setAttached hs ?_
  rw [Function.update_self]
  omega

theorem bufferRemoved (hc : set.Counted ss h) (hs : set.Has s)
    (hfree : ∃ n, set.attachedBufferCountMap.find? s = some n ∧ h s < n) :
    ∃ set', set.bufferRemoved s = some set' ∧ set'.streamInfoMap = set.streamInfoMap ∧
      set'.Counted ss h := by
  obtain ⟨n, hn, hlt⟩ := hfree
  simp only [StreamSet.bufferRemoved, hn, Option.bind_eq_bind, Option.bind_some]
  rw [if_neg (by omega)]
  exact ⟨_, rfl, rfl, hc.setAttached hs (by omega)⟩

end Counted

end MediaFramework.Camera.StreamSet
