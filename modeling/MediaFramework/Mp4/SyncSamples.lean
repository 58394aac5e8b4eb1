import MediaFramework.Lib.Machine
import MediaFramework.Mp4.TimeIndex

/-!
# Sync samples and composition offsets by query

`SampleTable::getMetaDataForSample` (`media/extractors/mp4/SampleTable.cpp`) looks a sample up
in the sync-sample table from where the last query ended, and the composition offset lookup
does the same in `ctts`. What they answer does not depend on the queries before.
-/

namespace MediaFramework.Mp4

open RunLength Status

/-- The fields that `setSyncSampleParams` sets; the table holds sample indices. -/
structure SyncSamples where
  mSyncSampleOffset : Int := -1
  mSyncSamples : List Nat := []
  mTotalSize : Nat := 0

namespace SampleTable

variable (T : SampleTable)

/-- The sample numbers of an `stss` box. -/
def syncSampleNumbers (data_offset : Int) : List Nat :=
  let numSyncSamples := U32_AT (T.readAt data_offset 8) 4
  (List.range numSyncSamples).map fun i => U32_AT (T.readAt (data_offset + 8) (numSyncSamples * 4)) (4 * i)

/-- `allocated` says whether the allocation succeeds. A failure ends the parsing of the file,
and nothing is kept of it here. -/
def setSyncSampleParams (allocated : Bool) (s : SyncSamples) (data_offset : Int) (data_size : Nat) :
    Except Status SyncSamples :=
  if 0 ≤ s.mSyncSampleOffset ∨ data_size < 8 then .error .ERROR_MALFORMED
  else
    let header := T.readAt data_offset 8
    if header.length < 8 then .error ERROR_IO
    else if U32_AT header 0 ≠ 0 then .error .ERROR_MALFORMED
    else
      let numSyncSamples := U32_AT header 4
      let allocSize := numSyncSamples * 4
      if kMaxTotalSize < allocSize then .error .ERROR_OUT_OF_RANGE
      else
        let mTotalSize := (s.mTotalSize + allocSize) % 2^64
        if kMaxTotalSize < mTotalSize then .error .ERROR_OUT_OF_RANGE
        else if ¬allocated then .error .ERROR_OUT_OF_RANGE
        else if (T.readAt (data_offset + 8) allocSize).length ≠ allocSize then .error ERROR_IO
        else .ok {
          mSyncSampleOffset := data_offset
          -- a zero in the file is kept
          mSyncSamples := (T.syncSampleNumbers data_offset).map fun x => if x = 0 then x else x - 1
          mTotalSize := mTotalSize }

end SampleTable

/-- The `while` loop of the sync-sample lookup, over the table from index `i` on. -/
def advanceSync (sampleIndex : Nat) : List Nat → Nat → Nat
  | [], i => i
  | x :: rest, i => if x < sampleIndex then advanceSync sampleIndex rest (i + 1) else i

/-- The sync-sample lookup of `getMetaDataForSample`: the answer and `mLastSyncSampleIndex`. -/
def SyncSamples.isSyncSample (S : SyncSamples) (mLastSyncSampleIndex sampleIndex : Nat) : Bool × Nat :=
  if S.mSyncSampleOffset < 0 then (true, mLastSyncSampleIndex)
  else
    let i := if ∃ x ∈ S.mSyncSamples[mLastSyncSampleIndex]?, x ≤ sampleIndex then mLastSyncSampleIndex
      else 0
    let i := advanceSync sampleIndex (S.mSyncSamples.drop i) i
    (S.mSyncSamples[i]? = some sampleIndex, i)

/-- The part of the table that queries change. -/
structure TableReader where
  seeker : Seeker := {}
  mLastSyncSampleIndex : Nat := 0

namespace TableReader

variable (T : SampleTable) (S : SyncSamples)

/-- `SampleTable::getMetaDataForSample`, with the sync flag if it is asked for; `none` if a size
beyond the cached ones is read. -/
def getMetaDataForSample (r : TableReader) (sampleIndex : Nat) (isSyncSample : Bool) :
    Option (Except Status (Sample × Option Bool) × TableReader) :=
  (Seeker.seekTo T r.seeker sampleIndex).map fun
    | (.OK, seeker) =>
      let r := { r with seeker := seeker }
      if isSyncSample then
        let (isSync, i) := S.isSyncSample r.mLastSyncSampleIndex sampleIndex
        (.ok (seeker.it.sample, some isSync), { r with mLastSyncSampleIndex := i })
      else (.ok (seeker.it.sample, none), r)
    | (err, seeker) => (.error err, { r with seeker := seeker })

/-- `SampleTable::getCompositionTimeOffset`. -/
def getCompositionTimeOffset (r : TableReader) (sampleIndex : Nat) : Int × TableReader :=
  let (offset, lookup) := T.getCompositionTimeOffset r.seeker.lookup sampleIndex
  (offset.toInt, { r with seeker.lookup := lookup })

inductive Query
  | getMetaDataForSample (sampleIndex : Nat) (isSyncSample : Bool)
  | getCompositionTimeOffset (sampleIndex : Nat)

/-- Queries in any order. -/
def queries : Machine TableReader Query where
  init := {}
  step r
    | .getMetaDataForSample k isSyncSample => (r.getMetaDataForSample T S k isSyncSample).map (·.2)
    | .getCompositionTimeOffset k => some (r.getCompositionTimeOffset T k).2

end TableReader

variable {T : SampleTable} {S : SyncSamples} {r r' : TableReader} {k : Nat}

/-! ### The sync-sample lookup -/

theorem advanceSync_spec (l : List Nat) (k i : Nat) :
    l[advanceSync k (l.drop i) i]? = ((l.drop i).dropWhile (· < k)).head? := by
  generalize hr : l.drop i = rest
  induction rest generalizing i with
  | nil => rw [advanceSync, List.dropWhile_nil, ← List.head?_drop, hr]
  | cons x rest ih =>
    rw [advanceSync]
    by_cases hx : x < k
    · have hnext : l.drop (i + 1) = rest := by
        rw [← List.drop_drop, hr]
        rfl
      rw [if_pos hx, List.dropWhile_cons_of_pos (by simpa using hx), ih _ hnext]
    · rw [if_neg hx, List.dropWhile_cons_of_neg (by simpa using hx), ← List.head?_drop, hr]

/-- In an increasing table the first entry that is not smaller is the sample, if it is there. -/
theorem head_dropWhile_iff_mem {l : List Nat} (h : l.Pairwise (· ≤ ·)) (k : Nat) :
    (l.dropWhile (· < k)).head? = some k ↔ k ∈ l := by
  induction l with
  | nil => simp
  | cons x l ih =>
    obtain ⟨hx, hl⟩ := List.pairwise_cons.mp h
    by_cases hlt : x < k
    · rw [List.dropWhile_cons_of_pos (by simpa using hlt), ih hl, List.mem_cons,
        or_iff_right hlt.ne']
    · rw [List.dropWhile_cons_of_neg (by simpa using hlt), List.head?_cons, Option.some.injEq]
      constructor
      · rintro rfl
        exact List.mem_cons_self
      · intro hk
        rcases List.mem_cons.mp hk with rfl | hk
        · rfl
        · exact Nat.le_antisymm (hx k hk) (Nat.not_lt.mp hlt)

/-- An entry that is not greater than the sample cuts nothing of the table that matters. -/
theorem mem_drop_iff {l : List Nat} (h : l.Pairwise (· ≤ ·)) {i x : Nat} (hi : l[i]? = some x)
    (hx : x ≤ k) : k ∈ l.drop i ↔ k ∈ l := by
  refine ⟨List.mem_of_mem_drop, fun hk => ?_⟩
  obtain ⟨j, hj, rfl⟩ := List.mem_iff_getElem.mp hk
  obtain ⟨hi', rfl⟩ := List.getElem?_eq_some_iff.mp hi
  rcases Nat.lt_or_ge j i with hlt | hge
  · -- an equal entry before `i` makes that at `i` equal too
    have hle := List.pairwise_iff_getElem.mp h j i hj hi' hlt
    rw [Nat.le_antisymm hle hx]
    exact List.mem_iff_getElem.mpr ⟨0, by rw [List.length_drop]; omega, by simp⟩
  · exact List.mem_drop_iff_getElem.mpr ⟨j - i, by omega, by simp [Nat.add_sub_cancel' hge]⟩

/-- The flag says whether the sample is in the table, wherever the last query ended. -/
theorem isSyncSample_iff (h : S.mSyncSamples.Pairwise (· ≤ ·)) (hoff : 0 ≤ S.mSyncSampleOffset)
    (last k : Nat) : (S.isSyncSample last k).1 = true ↔ k ∈ S.mSyncSamples := by
  simp only [SyncSamples.isSyncSample, if_neg (Int.not_lt.mpr hoff), advanceSync_spec,
    decide_eq_true_eq]
  rw [head_dropWhile_iff_mem (h.sublist (List.drop_sublist _ _))]
  split
  · next hlast =>
    obtain ⟨x, hx, hle⟩ := hlast
    exact mem_drop_iff h hx hle
  · rw [List.drop_zero]

/-- The table holds the sample numbers of the file, counted from 0. -/
theorem mSyncSamples_eq {allocated : Bool} {s : SyncSamples} {data_offset : Int} {data_size : Nat}
    (h : T.setSyncSampleParams allocated s data_offset data_size = .ok S) :
    S.mSyncSampleOffset = data_offset ∧
      S.mSyncSamples = (T.syncSampleNumbers data_offset).map (· - 1) := by
  simp only [SampleTable.setSyncSampleParams] at h
  split_ifs at h
  cases h
  refine ⟨rfl, List.map_congr_left fun x _ => ?_⟩
  split
  · next h0 => rw [h0]
  · rfl

/-! ### The composition offset lookup, through every query -/

theorem findSampleTimeAndDuration_lookup {s s' : Seeker} {status : Status}
    (hf : Seeker.findSampleTimeAndDuration T s k = (status, s')) (h : s.lookup.Parked T) :
    s'.lookup.Parked T := by
  have hpark := (getCompositionTimeOffset_spec h k).2
  simp only [Seeker.findSampleTimeAndDuration] at hf
  split at hf
  · cases hf
    exact h
  split at hf
  · cases hf
    exact h
  split at hf
  · cases hf
    exact h
  split at hf
  · cases hf
    exact hpark
  · cases hf
    exact hpark

theorem seekSample_lookup {s s' : Seeker} {status : Status}
    (hf : Seeker.seekSample T s k = some (status, s')) (h : s.lookup.Parked T) : s'.lookup.Parked T := by
  simp only [Seeker.seekSample] at hf
  split at hf
  · cases hf
  split at hf
  · next hfind =>
    have hpark := findSampleTimeAndDuration_lookup hfind h
    cases hf
    exact hpark
  · next hfind =>
    have hpark := findSampleTimeAndDuration_lookup hfind h
    cases hf
    exact hpark

theorem seekTo_lookup {s s' : Seeker} {status : Status}
    (hf : Seeker.seekTo T s k = some (status, s')) (h : s.lookup.Parked T) : s'.lookup.Parked T := by
  simp only [Seeker.seekTo] at hf
  split at hf
  · cases hf
    exact h
  split at hf
  · cases hf
    exact h
  split at hf
  · cases hf
    exact h
  split at hf
  · split at hf
    · cases hf
      exact h
    split at hf
    · split at hf
      · exact seekSample_lookup hf h
      · cases hf
        exact h
    · exact seekSample_lookup hf h
  · cases hf
    exact h

/-- What a query for metadata changes and answers. -/
theorem getMetaDataForSample_cases {isSyncSample : Bool} {res : Except Status (Sample × Option Bool)}
    (h : r.getMetaDataForSample T S k isSyncSample = some (res, r')) :
    (∃ status, Seeker.seekTo T r.seeker k = some (status, r'.seeker)) ∧
      ∀ sample flag, res = .ok (sample, flag) →
        flag = if isSyncSample then some (S.isSyncSample r.mLastSyncSampleIndex k).1 else none := by
  obtain ⟨⟨status, seeker⟩, hseek, heq⟩ := Option.map_eq_some_iff.mp h
  cases status with
  | OK =>
    cases isSyncSample with
    | true =>
      cases heq
      refine ⟨⟨_, hseek⟩, fun sample flag hres => ?_⟩
      cases hres
      rfl
    | false =>
      cases heq
      refine ⟨⟨_, hseek⟩, fun sample flag hres => ?_⟩
      cases hres
      rfl
  | _ =>
    cases heq
    exact ⟨⟨_, hseek⟩, fun sample flag hres => nomatch hres⟩

theorem parked_of_run (hr : (TableReader.queries T S).Run (fun _ _ => True) r) :
    r.seeker.lookup.Parked T := by
  refine hr.invariant (I := fun r => r.seeker.lookup.Parked T) ⟨_, .start⟩ ?_
  intro r q r' h _ hstep
  cases q with
  | getMetaDataForSample k isSyncSample =>
    obtain ⟨⟨res, r''⟩, hget, rfl⟩ := Option.map_eq_some_iff.mp hstep
    obtain ⟨⟨status, hseek⟩, -⟩ := getMetaDataForSample_cases hget
    exact seekTo_lookup hseek h
  | getCompositionTimeOffset k =>
    cases hstep
    exact (getCompositionTimeOffset_spec h k).2

/-- After queries in any order, a sample that can be sought to is flagged as a sync sample
exactly if the box has its number, and the composition offset of any sample is that of its run.
The numbers count from 1, a zero is the first sample's too, and they are in increasing order. -/
theorem queries_order_independent {allocated : Bool} {s : SyncSamples} {data_offset : Int}
    {data_size : Nat} (hset : T.setSyncSampleParams allocated s data_offset data_size = .ok S)
    (hoff : 0 ≤ data_offset)
    (hsorted : ((T.syncSampleNumbers data_offset).map (· - 1)).Pairwise (· ≤ ·))
    (hr : (TableReader.queries T S).Run (fun _ _ => True) r) :
    (∀ k sample flag r',
        r.getMetaDataForSample T S k true = some (.ok (sample, flag), r') →
          (flag = some true ↔ ∃ x ∈ T.syncSampleNumbers data_offset, x - 1 = k)) ∧
      ∀ k, (r.getCompositionTimeOffset T k).1 = T.compositionOffset k := by
  obtain ⟨hsync, htable⟩ := mSyncSamples_eq hset
  rw [← htable] at hsorted
  constructor
  · intro k sample flag r' hget
    obtain rfl := (getMetaDataForSample_cases hget).2 sample flag rfl
    rw [if_pos rfl, Option.some.injEq, isSyncSample_iff hsorted (hsync ▸ hoff), htable, List.mem_map]
  · intro k
    have hdelta := (getCompositionTimeOffset_spec (parked_of_run hr) k).1
    rw [deltaOf_eq] at hdelta
    exact congrArg BitVec.toInt hdelta

/-- The samples of `missingChunk`, the first and third of which are sync samples. -/
def twoSyncSamples : SampleTable := { missingChunk with
  readAt offset size :=
    if offset < 200 then [0, 0, 0, 100]
    else (([0, 0, 0, 0, 0, 0, 0, 2, 0, 0, 0, 1, 0, 0, 0, 3] : List (BitVec 8)).drop
      (offset - 200).toNat).take size
  mCompositionTimeDeltaEntries := [⟨1, 5⟩] }

theorem queries_order_independent_twoSyncSamples :
    ∃ r sample r', (TableReader.queries twoSyncSamples ⟨200, [0, 2], 8⟩).Run (fun _ _ => True) r ∧
      r.mLastSyncSampleIndex = 1 ∧
      r.getMetaDataForSample twoSyncSamples ⟨200, [0, 2], 8⟩ 0 true =
        some (.ok (sample, some true), r') ∧
      (r.getCompositionTimeOffset twoSyncSamples 0).1 = twoSyncSamples.compositionOffset 0 := by
  have hset : twoSyncSamples.setSyncSampleParams true {} 200 16 = .ok ⟨200, [0, 2], 8⟩ := rfl
  obtain ⟨r, hr, hlast, sample, flag, r', hget⟩ :
      ∃ r, (TableReader.queries twoSyncSamples ⟨200, [0, 2], 8⟩).Run (fun _ _ => True) r ∧
        r.mLastSyncSampleIndex = 1 ∧ ∃ sample flag r', r.getMetaDataForSample twoSyncSamples
          ⟨200, [0, 2], 8⟩ 0 true = some (.ok (sample, flag), r') :=
    ⟨_, Machine.Run.of_exec _ _ [.getMetaDataForSample 0 true, .getCompositionTimeOffset 2,
      .getMetaDataForSample 1 true] (by decide), by decide, _, _, _, rfl⟩
  obtain ⟨hflag, hoffset⟩ := queries_order_independent hset (by decide) (by decide) hr
  obtain rfl := (hflag 0 sample flag r' hget).mpr (by decide)
  exact ⟨r, sample, r', hr, hlast, hget, hoffset 0⟩

end MediaFramework.Mp4
