import MediaFramework.DataSource.CachedReads

/-!
# The prefetcher and the window

Where the last access is in the window of the cache, and what a read by the looper leaves behind when
it is deferred.
-/

namespace MediaFramework.DataSource

open Word

theorem PageCache.findPage_eq_none {start : Nat} {pages : List (List Byte)}
    (h : pages.flatten.length ≤ start) : findPage start pages = none := by
  induction pages generalizing start with
  | nil => rfl
  | cons page pages ih =>
    rw [List.flatten_cons, List.length_append] at h
    rw [findPage, if_pos (by omega), ih (by omega)]

/-- No bytes are copied from behind all pages. -/
theorem PageCache.copy_behind {c : PageCache} {start size : Nat} {data : List Byte}
    (h : c.contents.length ≤ start) (hcopy : c.copy start size = some data) : size = 0 := by
  rw [copy] at hcopy
  split at hcopy
  · next hzero => exact hzero
  · split at hcopy
    · cases hcopy
    · rw [findPage_eq_none h] at hcopy
      cases hcopy

namespace NuCachedSource2

variable {params : CacheParams} {content : List Byte} {s t : NuCachedSource2} {request : Request}
  {result : Int} {data : List Byte}

/-- The last access is in the window of the cache or right behind it. -/
structure Near (content : List Byte) (s : NuCachedSource2) : Prop where
  held : Held content s
  low : s.mCacheOffset ≤ s.mLastAccessPos
  high : s.mLastAccessPos ≤ s.cacheEnd

/-! ### Restarts -/

/-- A restart that is not forced releases nothing in front of the last access but what is farther away
than the grey area. -/
theorem Near.restart (h : Near content s) (hcontent : content.length < 2 ^ 63) (params : CacheParams)
    (ignoreLowWaterThreshold : Bool) :
    s.restartPrefetcherIfNecessary_l params ignoreLowWaterThreshold false = s ∨
      ∃ mCache mCacheOffset, s.restartPrefetcherIfNecessary_l params ignoreLowWaterThreshold false
          = { s with mCache, mCacheOffset, mFetching := true } ∧ ¬s.Final ∧
        s.mCacheOffset ≤ mCacheOffset ∧ mCacheOffset ≤ s.mLastAccessPos - kGrayArea ∧
        mCacheOffset + mCache.mTotalSize = s.cacheEnd ∧
        Held content { s with mCache, mCacheOffset, mFetching := true } := by
  obtain ⟨hoffset, hend, hend_lt⟩ := h.held.cacheEnd_lt hcontent
  have hlow := h.low
  have hhigh := h.high
  rw [restartPrefetcherIfNecessary_l]
  generalize kGrayArea = gray
  split
  · exact .inl rfl
  · next hstart =>
    split
    · exact .inl rfl
    · simp only [Bool.false_eq_true, not_false_eq_true, true_and, if_false]
      split
      · exact .inl rfl
      · next hgray =>
        obtain ⟨hheld, hsum⟩ := h.held.releaseFromStart hcontent
          (toSize (s.mLastAccessPos - s.mCacheOffset) - gray)
        have hmax : (toSize (s.mLastAccessPos - s.mCacheOffset) : Int)
            = s.mLastAccessPos - s.mCacheOffset := toSize_of_nonneg (by omega) (by omega)
        have hle := s.mCache.releaseFromStart_le
          (toSize (s.mLastAccessPos - s.mCacheOffset) - gray)
        refine .inr ⟨_, _, rfl, fun hfinal => hstart (.inr hfinal), ?_, ?_, hsum, hheld⟩
        · exact Int.le_add_of_nonneg_right (Int.natCast_nonneg _)
        · omega

/-- What a restart leaves alone, besides the end of the window. -/
theorem restart_keeps (s : NuCachedSource2) (params : CacheParams)
    (ignoreLowWaterThreshold force : Bool) :
    (s.restartPrefetcherIfNecessary_l params ignoreLowWaterThreshold force).mLastAccessPos
        = s.mLastAccessPos ∧
      ((s.restartPrefetcherIfNecessary_l params ignoreLowWaterThreshold force).Final ↔ s.Final) := by
  rw [restartPrefetcherIfNecessary_l]
  split
  · exact ⟨rfl, Iff.rfl⟩
  · split
    · exact ⟨rfl, Iff.rfl⟩
    · dsimp only
      split
      · exact ⟨rfl, Iff.rfl⟩
      · exact ⟨rfl, Iff.rfl⟩

/-- A restart that is forced starts the prefetcher unless nothing more can be fetched. -/
theorem restart_forced (s : NuCachedSource2) (params : CacheParams)
    (ignoreLowWaterThreshold : Bool) :
    (s.restartPrefetcherIfNecessary_l params ignoreLowWaterThreshold true).mFetching = true ∨
      s.Final := by
  rw [restartPrefetcherIfNecessary_l]
  split
  · next hstop => exact hstop
  · simp only [not_true_eq_false, false_and, and_false, if_false, if_true, true_or]

/-! ### Reads -/

/-- A seek stays in the window, or it starts a new one and the prefetcher. -/
theorem Held.seek_near (h : Held content s) {offset : Int} (hnonneg : 0 ≤ offset)
    (hlt : offset < 2 ^ 63) :
    ∃ t, s.seekInternal_l offset = some t ∧ Moves s t ∧ Near content t ∧ t.mLastAccessPos = offset ∧
      (t = { s with mLastAccessPos := offset } ∨ t.mFetching = true ∧ ¬t.Final) := by
  obtain ⟨t, ht, hmoves, hheld, hbefore⟩ := h.seek offset hnonneg hlt
  refine ⟨t, ht, hmoves, ?_⟩
  rw [seekInternal_l] at ht
  dsimp only at ht
  split at ht
  · next hwithin =>
    obtain rfl := Option.some.inj ht
    exact ⟨⟨hheld, hwithin.1, hwithin.2⟩, rfl, .inl rfl⟩
  · rw [h.valid.releaseAll] at ht
    dsimp only at ht
    rw [if_pos rfl] at ht
    obtain rfl := Option.some.inj ht
    refine ⟨⟨hheld, Int.le_refl _, ?_⟩, rfl, .inr ⟨rfl, fun hfinal => ?_⟩⟩
    · exact Int.le_add_of_nonneg_right (Int.natCast_nonneg _)
    · exact absurd hfinal.2 (by decide : kMaxNumRetries ≠ 0)

/-- A request does not end in front of the last access, or it starts in front of the window. -/
def Ahead (s : NuCachedSource2) (request : Request) : Prop :=
  s.mLastAccessPos ≤ request.offset + request.size ∨ request.offset < s.mCacheOffset

/-- What the start of `readInternal` has made of a state. -/
structure Prepared (content : List Byte) (request : Request) (s t : NuCachedSource2) : Prop where
  moves : Moves s t
  near : Near content t
  before : t.mCacheOffset ≤ request.offset ∨ t.mCacheOffset = 0
  ahead : Ahead s request → Ahead t request
  fetching : t.mFetching = true ∨ t.Final
  final : t.Final → s.Final ∧ t.cacheEnd = s.cacheEnd

theorem Near.prepare (h : Near content s) (hcontent : content.length < 2 ^ 63)
    (hrange : -2 ^ 63 ≤ request.offset ∧ request.offset < 2 ^ 63)
    (hread : s.readInternal params request.offset request.size = some (t, result, data)) :
    (s.mDisconnecting = true ∧ t = s ∧ result = ERROR_END_OF_STREAM) ∨
      (s.mDisconnecting = false ∧ Prepared content request s t ∧
        t.readCached request.offset request.size = some (result, data)) := by
  rw [NuCachedSource2.readInternal] at hread
  split at hread
  · cases hread
  · split at hread
    · next hdisconnecting =>
      obtain ⟨rfl, hpair⟩ := Prod.mk.inj (Option.some.inj hread)
      exact .inl ⟨hdisconnecting, rfl, (Prod.mk.inj hpair).1.symm⟩
    · next hconnected =>
      refine .inr ⟨by simpa using hconnected, ?_⟩
      -- the prefetcher is started unless nothing more can be fetched
      obtain ⟨u, hu, hmoves, hheld, hend, hfinal, hcases⟩ : ∃ u, (if ¬s.mFetching then
          { s with mLastAccessPos := request.offset }.restartPrefetcherIfNecessary_l params false true
        else s) = u ∧ Moves s u ∧ Held content u ∧ u.cacheEnd = s.cacheEnd ∧ (u.Final → s.Final) ∧
          (u = s ∧ u.mFetching = true ∨ u.mLastAccessPos = request.offset ∧
            (u.mFetching = true ∨ u.Final)) := by
        split
        · have haccess : Held content { s with mLastAccessPos := request.offset } :=
            ⟨h.held.valid, h.held.window⟩
          obtain ⟨hmoves, hheld, hend⟩ := haccess.restart hcontent params false true
          obtain ⟨hposition, hfinal⟩ :=
            restart_keeps { s with mLastAccessPos := request.offset } params false true
          exact ⟨_, rfl, .trans ⟨_, _, _, _, _, rfl⟩ hmoves, hheld, hend, hfinal.mp,
            .inr ⟨hposition, (restart_forced _ params false).imp_right hfinal.mpr⟩⟩
        · next hfetching =>
          exact ⟨s, rfl, .refl s, h.held, rfl, id, .inl ⟨rfl, by simpa using hfetching⟩⟩
      have hfetching : u.mFetching = true ∨ u.Final :=
        hcases.elim (fun hsame => .inl hsame.2) fun haccess => haccess.2
      dsimp only at hread
      rw [hu] at hread
      obtain ⟨v, hv, hread⟩ := Option.bind_eq_some_iff.mp hread
      obtain ⟨read, hcached, heq⟩ := Option.map_eq_some_iff.mp hread
      obtain ⟨rfl, rfl⟩ := Prod.mk.inj heq
      refine ⟨?_, hcached⟩
      obtain ⟨hoffset, -, -⟩ := hheld.cacheEnd_lt hcontent
      split at hv
      · next hwithout =>
        have hpadding : kPadding = 262144 := rfl
        generalize hsought : (if request.offset > kPadding then request.offset - kPadding else 0)
          = seekOffset at hv
        have hplace : 0 ≤ seekOffset ∧ seekOffset < 2 ^ 63 ∧
            (seekOffset ≤ request.offset ∨ request.offset < 0 ∧ seekOffset = 0) ∧
            (seekOffset ≤ request.offset ∨ seekOffset = 0) := by
          split at hsought <;> omega
        obtain ⟨hnonneg, hlt, hahead, hbefore⟩ := hplace
        obtain ⟨w, hw, hmoves', hnear, haccess, hseek⟩ := hheld.seek_near hnonneg hlt
        obtain rfl : w = v := Option.some.inj (hw.symm.trans hv)
        obtain ⟨hstart, -, -⟩ := hnear.held.cacheEnd_lt hcontent
        have hlow := hnear.low
        refine ⟨hmoves.trans hmoves', hnear, by omega, fun _ => ?_, ?_, ?_⟩
        · rw [Ahead]
          omega
        · rcases hseek with rfl | ⟨hstarted, -⟩
          · exact hfetching
          · exact .inl hstarted
        · rcases hseek with rfl | ⟨-, hmore⟩
          · exact fun hstop => ⟨hfinal hstop, hend⟩
          · exact fun hstop => absurd hstop hmore
      · next hwithin =>
        obtain rfl := Option.some.inj hv
        rcases hcases with ⟨rfl, -⟩ | ⟨haccess, -⟩
        · exact ⟨hmoves, h, .inl (by omega), id, hfetching, fun hstop => ⟨hstop, rfl⟩⟩
        · refine ⟨hmoves, ⟨hheld, by omega, by omega⟩, .inl (by omega), fun _ => .inl (by omega),
            hfetching, fun hstop => ⟨hfinal hstop, hend⟩⟩

/-- The end of a read: the final status behind the window, bytes of the window, or a read that is
deferred because more can be fetched. -/
theorem Near.readCached (h : Near content t) (hcontent : content.length < 2 ^ 63)
    (hrange : -2 ^ 63 ≤ request.offset ∧ request.offset < 2 ^ 63) (hsize : request.size < 2 ^ 63)
    (hbefore : t.mCacheOffset ≤ request.offset ∨ t.mCacheOffset = 0) (hahead : Ahead t request)
    (hread : t.readCached request.offset request.size = some (result, data)) :
    (t.Final ∧ result = t.mFinalStatus ∧
        (request.offset < 0 ∨ t.cacheEnd ≤ request.offset)) ∨
      (0 ≤ result ∧ result ≤ request.size ∧ t.mLastAccessPos ≤ request.offset + result ∧
        request.offset + result ≤ t.cacheEnd) ∨
      (¬t.Final ∧ result = -EAGAIN) := by
  obtain ⟨hoffset, hend, hend_lt⟩ := h.held.cacheEnd_lt hcontent
  have hhigh := h.high
  have htotal : t.cacheEnd = t.mCacheOffset + t.mCache.mTotalSize := rfl
  have hdelta : (toSize (request.offset - t.mCacheOffset) : Int) = request.offset - t.mCacheOffset ∨
      request.offset < 0 ∧ 2 ^ 63 ≤ toSize (request.offset - t.mCacheOffset) := by
    by_cases hwithin : t.mCacheOffset ≤ request.offset
    · exact .inl (toSize_of_nonneg (by omega) (by omega))
    · exact .inr ⟨by omega, toSize_of_neg (by omega) (by omega)⟩
  rw [Ahead] at hahead
  rw [NuCachedSource2.readCached] at hread
  dsimp only at hread
  split at hread
  · next hfinal =>
    split at hread
    · next hbehind =>
      obtain ⟨rfl, -⟩ := Prod.mk.inj (Option.some.inj hread)
      exact .inl ⟨hfinal, rfl, by omega⟩
    · next havail =>
      obtain ⟨bytes, -, hpair⟩ := Option.map_eq_some_iff.mp hread
      obtain ⟨rfl, -⟩ := Prod.mk.inj hpair
      refine .inr (.inl ?_)
      split
      · omega
      · omega
  · next hmore =>
    split at hread
    · next hcached =>
      obtain ⟨bytes, hcopy, hpair⟩ := Option.map_eq_some_iff.mp hread
      obtain ⟨rfl, -⟩ := Prod.mk.inj hpair
      refine .inr (.inl ?_)
      have hsum : (toSize (request.offset + request.size) : Int) = request.offset + request.size ∨
          request.offset + request.size < 0 ∧ 2 ^ 63 ≤ toSize (request.offset + request.size) := by
        by_cases hneg : 0 ≤ request.offset + request.size
        · exact .inl (toSize_of_nonneg hneg (by omega))
        · exact .inr ⟨by omega, toSize_of_neg (by omega) (by omega)⟩
      rcases hdelta with hdelta | ⟨hneg, hdelta⟩
      · omega
      · -- in front of the content the copy would start behind all pages
        have hlength : t.mCache.contents.length ≤ toSize (request.offset - t.mCacheOffset) := by
          have hvalid := h.held.valid.size
          omega
        have hzero := PageCache.copy_behind hlength hcopy
        omega
    · obtain ⟨rfl, -⟩ := Prod.mk.inj (Option.some.inj hread)
      exact .inr (.inr ⟨hmore, rfl⟩)

end NuCachedSource2

end MediaFramework.DataSource
