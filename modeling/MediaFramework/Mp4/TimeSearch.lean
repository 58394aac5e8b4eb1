import MediaFramework.Lib.Search
import MediaFramework.Mp4.SampleEntries

/-!
# Finding a sample by its time

`SampleTable::findSampleAtTime` (`media/extractors/mp4/SampleTable.cpp`) searches the table of
composition times for a requested time. Between two entries the closest one is chosen by
differences that `abs_difference` returns as 32-bit words.
-/

namespace MediaFramework.Mp4

inductive FindFlags
  | kFlagBefore
  | kFlagAfter
  | kFlagClosest
  | kFlagFrameIndex
  deriving DecidableEq, Repr

open FindFlags

/-- `abs_difference`, which returns a `uint32_t`. -/
def abs_difference (time1 time2 : Nat) : Nat :=
  (if time2 < time1 then time1 - time2 else time2 - time1) % 2^32

def SampleTimeEntry.zero : SampleTimeEntry := ⟨0, 0⟩

namespace SampleTable

variable (T : SampleTable)

def getSampleTime (entries : List SampleTimeEntry) (scale_num scale_den sample_index : Nat) : Nat :=
  if sample_index < T.mNumSampleSizes.toNat ∧ scale_den ≠ 0 then
    (entries.getD sample_index .zero).mCompositionTime * scale_num % 2^64 / scale_den
  else 0

/-- The entry that the `switch` settles on, from the place of the requested time. -/
def closestEntry (time : Nat → Nat) (req_time closestIndex : Nat) (flags : FindFlags) :
    Except Status Nat :=
  let mNumSampleSizes := T.mNumSampleSizes.toNat
  if closestIndex = mNumSampleSizes ∧ flags = kFlagAfter then .error .ERROR_OUT_OF_RANGE
  else
    let flags :=
      if closestIndex = mNumSampleSizes then kFlagBefore
      else if closestIndex = 0 then kFlagAfter
      else flags
    match flags with
    | kFlagBefore => .ok (closestIndex - 1)
    | kFlagAfter => .ok closestIndex
    | _ =>
      if abs_difference req_time (time (closestIndex - 1)) <
          abs_difference (time closestIndex) req_time then .ok (closestIndex - 1)
      else .ok closestIndex

/-- The index of the entry that `findSampleAtTime` takes the sample from; `none` if the loop
does not come to an end. -/
def findEntry (entries : List SampleTimeEntry) (req_time scale_num scale_den : Nat)
    (flags : FindFlags) : Option (Except Status Nat) :=
  let mNumSampleSizes := T.mNumSampleSizes.toNat
  if flags = kFlagFrameIndex then
    some (if mNumSampleSizes ≤ req_time then .error .ERROR_OUT_OF_RANGE else .ok req_time)
  else
    let time := T.getSampleTime entries scale_num scale_den
    (Bisection.search time req_time (mNumSampleSizes + 1) 0 mNumSampleSizes).map fun
      | .hit center => .ok center
      | .gap left => T.closestEntry time req_time left flags

end SampleTable

/-- The status or the sample found, and the table afterwards. -/
def TimeTable.findSampleAtTime (T : SampleTable)
    (qsort : List SampleTimeEntry → List SampleTimeEntry)
    (memory : Option (Nat → SampleTimeEntry)) (t : TimeTable)
    (req_time scale_num scale_den : Nat) (flags : FindFlags) :
    Option (Except Status Nat) × TimeTable :=
  let t := t.buildSampleEntriesTable T qsort memory
  match t.mSampleTimeEntries with
  | none => (some (.error .ERROR_OUT_OF_RANGE), t)
  | some entries =>
    ((T.findEntry entries req_time scale_num scale_den flags).map fun found =>
      found.map fun i => (entries.getD i .zero).mSampleIndex, t)

/-! ### What is asked for -/

/-- The distance of two times. -/
def distance (a b : Nat) : Nat := ((a : Int) - b).natAbs

/-- The entry found for a requested time among `n` entries with the given times. -/
structure Meets (time : Nat → Nat) (n req_time : Nat) (flags : FindFlags) (r : Except Status Nat) :
    Prop where
  equal : (∃ k < n, time k = req_time) → ∃ k < n, r = .ok k ∧ time k = req_time
  before : (∀ k < n, time k ≠ req_time) → flags = kFlagBefore →
    ∃ k < n, r = .ok k ∧ ((time k < req_time ∧ ∀ j < n, k < j → req_time < time j) ∨
      (k = 0 ∧ ∀ j < n, req_time < time j))
  after : (∀ k < n, time k ≠ req_time) → flags = kFlagAfter →
    (∃ k < n, r = .ok k ∧ req_time < time k ∧ ∀ j < k, time j < req_time) ∨
      (r = .error .ERROR_OUT_OF_RANGE ∧ ∀ j < n, time j < req_time)
  closest : (∀ k < n, time k ≠ req_time) → flags = kFlagClosest →
    ∃ k < n, r = .ok k ∧ ∀ j < n, distance (time k) req_time ≤ distance (time j) req_time

/-- The differences to the two entries around a time compare as 32-bit words as they do in
full. -/
def ComparesInWords (time : Nat → Nat) (n req_time : Nat) : Prop :=
  ∀ k, 0 < k → k < n → time (k - 1) < req_time → req_time < time k →
    ((req_time - time (k - 1)) % 2^32 < (time k - req_time) % 2^32 ↔
      req_time - time (k - 1) < time k - req_time)

variable {T : SampleTable} {time : Nat → Nat} {n req_time left : Nat} {flags : FindFlags}

theorem abs_difference_of_lt {a b : Nat} (h : a < b) :
    abs_difference b a = (b - a) % 2^32 ∧ abs_difference a b = (b - a) % 2^32 := by
  rw [abs_difference, abs_difference, if_pos h, if_neg (Nat.not_lt.mpr h.le)]
  exact ⟨rfl, rfl⟩

theorem distance_of_le {a b : Nat} (h : a ≤ b) : distance a b = b - a := by
  rw [distance]
  omega

theorem distance_of_ge {a b : Nat} (h : b ≤ a) : distance a b = a - b := by
  rw [distance]
  omega

/-- A hit is what every flag asks for. -/
theorem meets_hit {k : Nat} (hk : k < n) (heq : time k = req_time) (flags : FindFlags) :
    Meets time n req_time flags (.ok k) where
  equal _ := ⟨k, hk, rfl, heq⟩
  before hne := absurd heq (hne k hk)
  after hne := absurd heq (hne k hk)
  closest hne := absurd heq (hne k hk)

/-- Where the times of a table split at a requested time that none of them equals. -/
structure Splits (time : Nat → Nat) (n req_time left : Nat) : Prop where
  le : left ≤ n
  below : ∀ j < left, time j < req_time
  above : ∀ j, left ≤ j → j < n → req_time < time j

theorem Splits.ne (h : Splits time n req_time left) : ∀ k < n, time k ≠ req_time := by
  intro k hk
  rcases Nat.lt_or_ge k left with hlt | hge
  · exact (h.below k hlt).ne
  · exact (h.above k hge hk).ne'

/-- With increasing times an entry is closest if its neighbour across the gap is no closer. -/
theorem Splits.closest_below (h : Splits time n req_time left) (hmono : ∀ i j, i ≤ j → j < n → time i ≤ time j)
    (h0 : 0 < left) (hnear : left < n → req_time - time (left - 1) ≤ time left - req_time) :
    ∀ j < n, distance (time (left - 1)) req_time ≤ distance (time j) req_time := by
  intro j hj
  have hle := h.le
  have hbelow := h.below (left - 1) (by omega)
  rw [distance_of_le hbelow.le]
  rcases Nat.lt_or_ge j left with hlt | hge
  · have hj' := h.below j hlt
    have hm := hmono j (left - 1) (by omega) (by omega)
    rw [distance_of_le hj'.le]
    omega
  · have hj' := h.above j hge hj
    have hm := hmono left j hge hj
    have hn := hnear (by omega)
    rw [distance_of_ge hj'.le]
    omega

theorem Splits.closest_above (h : Splits time n req_time left) (hmono : ∀ i j, i ≤ j → j < n → time i ≤ time j)
    (hn : left < n) (hnear : 0 < left → time left - req_time ≤ req_time - time (left - 1)) :
    ∀ j < n, distance (time left) req_time ≤ distance (time j) req_time := by
  intro j hj
  have habove := h.above left le_rfl hn
  rw [distance_of_ge habove.le]
  rcases Nat.lt_or_ge j left with hlt | hge
  · have hj' := h.below j hlt
    have hm := hmono j (left - 1) (by omega) (by omega)
    have hne := hnear (by omega)
    have hb := h.below (left - 1) (by omega)
    rw [distance_of_le hj'.le]
    omega
  · have hm := hmono left j hge hj
    rw [distance_of_ge (h.above j hge hj).le]
    omega

/-- What each flag asks for where no entry has the requested time. -/
theorem Splits.meets_before (h : Splits time n req_time left) {k : Nat} (hk : k < n)
    (hp : (time k < req_time ∧ ∀ j < n, k < j → req_time < time j) ∨
      (k = 0 ∧ ∀ j < n, req_time < time j)) : Meets time n req_time kFlagBefore (.ok k) where
  equal := fun ⟨j, hj, heq⟩ => absurd heq (h.ne j hj)
  before _ _ := ⟨k, hk, rfl, hp⟩
  after _ hf := nomatch hf
  closest _ hf := nomatch hf

theorem Splits.meets_after (h : Splits time n req_time left) {r : Except Status Nat}
    (hp : (∃ k < n, r = .ok k ∧ req_time < time k ∧ ∀ j < k, time j < req_time) ∨
      (r = .error .ERROR_OUT_OF_RANGE ∧ ∀ j < n, time j < req_time)) :
    Meets time n req_time kFlagAfter r where
  equal := fun ⟨j, hj, heq⟩ => absurd heq (h.ne j hj)
  before _ hf := nomatch hf
  after _ _ := hp
  closest _ hf := nomatch hf

theorem Splits.meets_closest_iff (h : Splits time n req_time left) {k : Nat} (hk : k < n) :
    Meets time n req_time kFlagClosest (.ok k) ↔
      ∀ j < n, distance (time k) req_time ≤ distance (time j) req_time := by
  constructor
  · intro hm
    obtain ⟨k', -, heq, hall⟩ := hm.closest h.ne rfl
    obtain rfl := Except.ok.inj heq
    exact hall
  · intro hall
    exact ⟨fun ⟨j, hj, heq⟩ => absurd heq (h.ne j hj), fun _ hf => (nomatch hf),
      fun _ hf => (nomatch hf), fun _ _ => ⟨k, hk, rfl, hall⟩⟩

/-- Only the two entries at the split are around the requested time. -/
theorem Splits.comparesInWords_iff (h : Splits time n req_time left) :
    ComparesInWords time n req_time ↔ (0 < left → left < n →
      ((req_time - time (left - 1)) % 2^32 < (time left - req_time) % 2^32 ↔
        req_time - time (left - 1) < time left - req_time)) := by
  constructor
  · intro hall h0 hn
    exact hall left h0 hn (h.below _ (by omega)) (h.above _ le_rfl hn)
  · intro hleft k h0 hk hlt hgt
    obtain rfl : k = left := by
      by_contra hne
      rcases Nat.lt_or_gt_of_ne hne with hkl | hkl
      · exact absurd hgt (Nat.not_lt.mpr (h.below k hkl).le)
      · exact absurd hlt (Nat.not_lt.mpr (h.above (k - 1) (by omega) (by omega)).le)
    exact hleft h0 hk

/-- The choice between the two entries at the split. -/
theorem Splits.meets_nearest_iff (h : Splits time n req_time left)
    (hmono : ∀ i j, i ≤ j → j < n → time i ≤ time j) (h0 : 0 < left) (hn : left < n) :
    Meets time n req_time kFlagClosest
        (if abs_difference req_time (time (left - 1)) < abs_difference (time left) req_time then
          .ok (left - 1) else .ok left) ↔
      ComparesInWords time n req_time := by
  have hb := h.below (left - 1) (by omega)
  have ha := h.above left le_rfl hn
  rw [h.comparesInWords_iff, (abs_difference_of_lt hb).1, (abs_difference_of_lt ha).1]
  by_cases hw : (req_time - time (left - 1)) % 2^32 < (time left - req_time) % 2^32
  · rw [if_pos hw, h.meets_closest_iff (by omega)]
    constructor
    · intro hall _ _
      have hle := hall left hn
      rw [distance_of_le hb.le, distance_of_ge ha.le] at hle
      refine iff_of_true hw (Nat.lt_of_le_of_ne hle fun heq => ?_)
      rw [heq] at hw
      exact lt_irrefl _ hw
    · intro hiff
      exact h.closest_below hmono h0 fun _ => ((hiff h0 hn).mp hw).le
  · rw [if_neg hw, h.meets_closest_iff hn]
    constructor
    · intro hall _ _
      have hle := hall (left - 1) (by omega)
      rw [distance_of_le hb.le, distance_of_ge ha.le] at hle
      exact iff_of_false hw (Nat.not_lt.mpr hle)
    · intro hiff
      exact h.closest_above hmono hn fun _ => Nat.not_lt.mp fun hlt => hw ((hiff h0 hn).mpr hlt)

/-- Where the requested time lies between entries, the entry settled on is the one asked for,
but for the closest one where the words compare otherwise. -/
theorem closestEntry_meets_iff (h : Splits time T.mNumSampleSizes.toNat req_time left)
    (hmono : ∀ i j, i ≤ j → j < T.mNumSampleSizes.toNat → time i ≤ time j)
    (hn : 0 < T.mNumSampleSizes.toNat) (hf : flags ≠ kFlagFrameIndex) :
    Meets time T.mNumSampleSizes.toNat req_time flags
        (T.closestEntry time req_time left flags) ↔
      (flags = kFlagClosest → ComparesInWords time T.mNumSampleSizes.toNat req_time) := by
  have hle := h.le
  rw [SampleTable.closestEntry]
  dsimp only
  by_cases hend : left = T.mNumSampleSizes.toNat
  · -- beyond the last entry
    have hall : ∀ j < T.mNumSampleSizes.toNat, time j < req_time := fun j hj => h.below j (by omega)
    have hwords : ComparesInWords time T.mNumSampleSizes.toNat req_time :=
      h.comparesInWords_iff.mpr fun _ hlt => absurd hlt (by omega)
    refine iff_of_true ?_ fun _ => hwords
    rw [if_pos hend]
    cases flags with
    | kFlagBefore =>
      rw [if_neg fun hx => nomatch hx.2]
      exact h.meets_before (by omega) (.inl ⟨h.below _ (by omega), fun j hj hlt => by omega⟩)
    | kFlagAfter =>
      rw [if_pos ⟨hend, rfl⟩]
      exact h.meets_after (.inr ⟨rfl, hall⟩)
    | kFlagClosest =>
      rw [if_neg fun hx => nomatch hx.2]
      exact (h.meets_closest_iff (by omega)).mpr
        (h.closest_below hmono (by omega) fun hlt => absurd hlt (by omega))
    | kFlagFrameIndex => exact absurd rfl hf
  rw [if_neg fun hx => hend hx.1, if_neg hend]
  by_cases h0 : left = 0
  · -- before the first entry
    have hall : ∀ j < T.mNumSampleSizes.toNat, req_time < time j :=
      fun j hj => h.above j (by omega) hj
    have hwords : ComparesInWords time T.mNumSampleSizes.toNat req_time :=
      h.comparesInWords_iff.mpr fun hlt => absurd hlt (by omega)
    refine iff_of_true ?_ fun _ => hwords
    rw [if_pos h0]
    cases flags with
    | kFlagBefore => exact h.meets_before (by omega) (.inr ⟨h0, hall⟩)
    | kFlagAfter =>
      exact h.meets_after (.inl ⟨left, by omega, rfl, hall left (by omega), h.below⟩)
    | kFlagClosest =>
      exact (h.meets_closest_iff (by omega)).mpr
        (h.closest_above hmono (by omega) fun hlt => absurd hlt (by omega))
    | kFlagFrameIndex => exact absurd rfl hf
  rw [if_neg h0]
  cases flags with
  | kFlagBefore =>
    refine iff_of_true (h.meets_before (by omega) (.inl ⟨h.below _ (by omega), ?_⟩)) fun hx => nomatch hx
    exact fun j hj hlt => h.above j (by omega) hj
  | kFlagAfter =>
    refine iff_of_true (h.meets_after (.inl ⟨left, by omega, rfl, ?_, h.below⟩)) fun hx => nomatch hx
    exact h.above left le_rfl (by omega)
  | kFlagClosest =>
    rw [forall_prop_of_true rfl]
    exact h.meets_nearest_iff hmono (by omega) (by omega)
  | kFlagFrameIndex => exact absurd rfl hf

/-! ### The search in the table -/

/-- The time of an entry in the scale of the request. -/
def scaledTime (entries : List SampleTimeEntry) (scale_num scale_den k : Nat) : Nat :=
  (entries.getD k .zero).mCompositionTime * scale_num / scale_den

/-- The table holds an entry for every sample, sorted by times that can be scaled. -/
structure Searchable (T : SampleTable) (entries : List SampleTimeEntry) (scale_num : Nat) : Prop where
  length : entries.length = T.mNumSampleSizes.toNat
  nonempty : 0 < T.mNumSampleSizes.toNat
  sorted : entries.Pairwise fun a b => a.mCompositionTime ≤ b.mCompositionTime
  fits : ∀ e ∈ entries, e.mCompositionTime * scale_num < 2^64

variable {entries : List SampleTimeEntry} {scale_num scale_den : Nat}

theorem Searchable.getSampleTime (h : Searchable T entries scale_num) (hden : 0 < scale_den) :
    T.getSampleTime entries scale_num scale_den = scaledTime entries scale_num scale_den := by
  funext k
  rw [SampleTable.getSampleTime, scaledTime]
  by_cases hk : k < T.mNumSampleSizes.toNat
  · have hk' : k < entries.length := h.length ▸ hk
    rw [if_pos ⟨hk, hden.ne'⟩, List.getD_eq_getElem _ _ hk',
      Nat.mod_eq_of_lt (h.fits _ (List.getElem_mem hk'))]
  · have hk' : entries.length ≤ k := h.length ▸ Nat.not_lt.mp hk
    rw [if_neg fun hx => hk hx.1, List.getD_eq_default _ _ hk', SampleTimeEntry.zero, Nat.zero_mul,
      Nat.zero_div]

theorem Searchable.scaledTime_mono (h : Searchable T entries scale_num) (scale_den : Nat) :
    ∀ i j, i ≤ j → j < T.mNumSampleSizes.toNat →
      scaledTime entries scale_num scale_den i ≤ scaledTime entries scale_num scale_den j := by
  intro i j hij hj
  have hj' : j < entries.length := h.length ▸ hj
  have hi' : i < entries.length := Nat.lt_of_le_of_lt hij hj'
  rw [scaledTime, scaledTime, List.getD_eq_getElem _ _ hi', List.getD_eq_getElem _ _ hj']
  refine Nat.div_le_div_right (Nat.mul_le_mul_right _ ?_)
  rcases Nat.eq_or_lt_of_le hij with rfl | hlt
  · exact le_rfl
  · exact List.pairwise_iff_getElem.mp h.sorted i j hi' hj' hlt

/-- A table that is there is searched as it is. -/
theorem findSampleAtTime_of_some {qsort : List SampleTimeEntry → List SampleTimeEntry}
    {memory : Option (Nat → SampleTimeEntry)} {t : TimeTable}
    (h : t.mSampleTimeEntries = some entries) (req_time scale_num scale_den : Nat) (flags : FindFlags) :
    t.findSampleAtTime T qsort memory req_time scale_num scale_den flags =
      ((T.findEntry entries req_time scale_num scale_den flags).map fun found =>
        found.map fun i => (entries.getD i .zero).mSampleIndex, t) := by
  have hbuild : t.buildSampleEntriesTable T qsort memory = t := by
    rw [TimeTable.buildSampleEntriesTable, if_pos (.inl (by rw [h]; rfl))]
  simp only [TimeTable.findSampleAtTime, hbuild, h]

/-- The search of a sorted table comes to an end, and takes the sample from the entry asked
for: always before or after the requested time, and for the closest entry exactly if the
differences on both sides compare as 32-bit words as they do in full. -/
theorem findSampleAtTime_meets_iff {qsort : List SampleTimeEntry → List SampleTimeEntry}
    {memory : Option (Nat → SampleTimeEntry)} {t : TimeTable}
    (ht : t.mSampleTimeEntries = some entries) (h : Searchable T entries scale_num)
    (hden : 0 < scale_den) (req_time : Nat) (hf : flags ≠ kFlagFrameIndex) :
    ∃ r, T.findEntry entries req_time scale_num scale_den flags = some r ∧
      (t.findSampleAtTime T qsort memory req_time scale_num scale_den flags).1 =
        some (r.map fun i => (entries.getD i .zero).mSampleIndex) ∧
      (Meets (scaledTime entries scale_num scale_den) entries.length req_time flags r ↔
        (flags = kFlagClosest →
          ComparesInWords (scaledTime entries scale_num scale_den) entries.length req_time)) := by
  have hmono := h.scaledTime_mono scale_den
  obtain ⟨found, hsearch, hfinds⟩ := Bisection.search_all hmono req_time
  rw [findSampleAtTime_of_some ht, h.length]
  simp only [SampleTable.findEntry, if_neg hf, h.getSampleTime hden, hsearch, Option.map_some]
  cases found with
  | hit k =>
    obtain ⟨hk, heq⟩ := hfinds
    refine ⟨_, rfl, rfl, iff_of_true (meets_hit hk heq flags) fun _ j h0 hj hlt hgt => ?_⟩
    -- between two neighbours there is no entry
    rcases Nat.lt_or_ge k j with hkj | hjk
    · have hm := hmono k (j - 1) (by omega) (by omega)
      omega
    · have hm := hmono j k hjk hk
      omega
  | gap left =>
    obtain ⟨hle, hbelow, habove⟩ := hfinds
    exact ⟨_, rfl, rfl, closestEntry_meets_iff ⟨hle, hbelow, habove⟩ hmono h.nonempty hf⟩

/-- A table of two samples, the first of them at time 0. -/
def twoSamples : SampleTable := { secondEarlier 0 with mNumSampleSizes := 2 }

def nearTable : TimeTable := { mSampleTimeEntries := some [⟨0, 0⟩, ⟨1, 10⟩] }

theorem findSampleAtTime_meets_iff_twoSamples :
    (TimeTable.findSampleAtTime twoSamples sortByTime none nearTable 4 1 1 kFlagClosest).1 =
        some (.ok 0) ∧
      Meets (scaledTime [⟨0, 0⟩, ⟨1, 10⟩] 1 1) 2 4 kFlagClosest (.ok 0) := by
  have hs : Searchable twoSamples [⟨0, 0⟩, ⟨1, 10⟩] 1 := ⟨rfl, by decide, by decide, by decide⟩
  have hclosest : kFlagClosest ≠ kFlagFrameIndex := by decide
  have ht : nearTable.mSampleTimeEntries = some [⟨0, 0⟩, ⟨1, 10⟩] := rfl
  obtain ⟨r, hr, hfind, hiff⟩ := findSampleAtTime_meets_iff ht hs Nat.one_pos 4 hclosest
  obtain rfl : .ok 0 = r := Option.some.inj hr
  refine ⟨hfind, hiff.mpr fun _ k h0 hk _ _ => ?_⟩
  obtain rfl : k = 1 := by
    have hk' : k < 2 := hk
    omega
  decide

/-- An entry that is `2^32` after the requested time counts as being at it. -/
theorem findSampleAtTime_not_closest :
    (TimeTable.findSampleAtTime twoSamples sortByTime none
        { mSampleTimeEntries := some [⟨0, 0⟩, ⟨1, 2^32 + 5⟩] } 5 1 1 kFlagClosest).1 =
      some (.ok 1) ∧ distance 0 5 < distance (2^32 + 5) 5 := by
  decide

end MediaFramework.Mp4
