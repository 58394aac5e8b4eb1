import MediaFramework.DataSource.NuCachedSource2

/-!
# Reads through the cache

What clients of the caching source get, and what the cache holds.
-/

namespace MediaFramework.DataSource

open Word

/-! ### Numbers -/

theorem toSize_of_nonneg {x : Int} (h : 0 ≤ x) (hlt : x < 2 ^ 64) : (toSize x : Int) = x := by
  rw [toSize, Int.emod_eq_of_lt h hlt, Int.toNat_of_nonneg h]

theorem toSize_of_neg {x : Int} (h : x < 0) (hge : -2 ^ 63 ≤ x) : 2 ^ 63 ≤ toSize x := by
  rw [toSize]
  omega

namespace NuCachedSource2

variable {params : CacheParams} {content : List Byte} {s : NuCachedSource2}

/-! ### What the cache holds -/

/-- The cache holds the content from its offset on. -/
structure Held (content : List Byte) (s : NuCachedSource2) : Prop where
  valid : s.mCache.Valid
  window : ∃ o : Nat, s.mCacheOffset = o ∧ o < 2 ^ 63 ∧ Window content o s.mCache.contents

theorem Held.cacheEnd_lt (h : Held content s) (hcontent : content.length < 2 ^ 63) :
    0 ≤ s.mCacheOffset ∧ s.mCacheOffset ≤ s.cacheEnd ∧ s.cacheEnd < 2 ^ 63 := by
  obtain ⟨hvalid, o, ho, hlt, hwindow⟩ := h
  have hsize := hvalid.size
  have hle := hwindow.length_le
  rw [cacheEnd, ho]
  omega

/-- What a read gives that is in the cache. -/
theorem Held.copy (h : Held content s) (hcontent : content.length < 2 ^ 63) {offset : Int}
    {size : Nat} (hge : s.mCacheOffset ≤ offset) (hle : offset + size ≤ s.cacheEnd) :
    s.mCache.copy (toSize (offset - s.mCacheOffset)) size =
      some ((content.drop offset.toNat).take size) := by
  obtain ⟨hvalid, o, ho, hlt, hwindow⟩ := h
  have hsize := hvalid.size
  have hlength := hwindow.length_le
  rw [cacheEnd, ho] at hle
  rw [ho] at hge ⊢
  have hdelta : toSize (offset - o) = offset.toNat - o := by
    have := toSize_of_nonneg (x := offset - o) (by omega) (by omega)
    omega
  rw [hdelta, PageCache.copy_spec hvalid (by omega) (by omega), hwindow.slice (by omega)]
  congr 3
  omega

theorem Held.releaseFromStart (h : Held content s) (hcontent : content.length < 2 ^ 63)
    (maxBytes : Nat) :
    Held content { s with
      mCache := (s.mCache.releaseFromStart maxBytes).1
      mCacheOffset := s.mCacheOffset + (s.mCache.releaseFromStart maxBytes).2
      mFetching := true } ∧
    s.mCacheOffset + (s.mCache.releaseFromStart maxBytes).2 +
      (s.mCache.releaseFromStart maxBytes).1.mTotalSize = s.cacheEnd := by
  obtain ⟨hvalid, o, ho, hlt, hwindow⟩ := h
  obtain ⟨hvalid', front, hcontents, hbytes⟩ := hvalid.releaseFromStart maxBytes
  have hlength := hwindow.length_le
  rw [hcontents] at hwindow
  have hsize := hvalid.size
  have hsize' := hvalid'.size
  rw [hcontents, List.length_append] at hsize hlength
  refine ⟨⟨hvalid', o + front.length, ?_, ?_, hwindow.right⟩, ?_⟩
  · show s.mCacheOffset + _ = _
    rw [ho, hbytes]
    rfl
  · omega
  · rw [cacheEnd, hbytes]
    omega

/-- The cache and the place of the last access may be others, and the prefetcher may have started. -/
def Moves (s t : NuCachedSource2) : Prop :=
  ∃ mCache mCacheOffset mFetching mNumRetriesLeft mLastAccessPos,
    t = { s with mCache, mCacheOffset, mFetching, mNumRetriesLeft, mLastAccessPos }

theorem Moves.refl (s : NuCachedSource2) : Moves s s := ⟨_, _, _, _, _, rfl⟩

theorem Moves.trans {s t u : NuCachedSource2} (h : Moves s t) (h' : Moves t u) : Moves s u := by
  obtain ⟨_, _, _, _, _, rfl⟩ := h
  obtain ⟨_, _, _, _, _, rfl⟩ := h'
  exact ⟨_, _, _, _, _, rfl⟩

/-- A restart gives pages up from the start of the cache: its end stays. -/
theorem Held.restart (h : Held content s) (hcontent : content.length < 2 ^ 63)
    (params : CacheParams) (ignoreLowWaterThreshold force : Bool) :
    Moves s (s.restartPrefetcherIfNecessary_l params ignoreLowWaterThreshold force) ∧
      Held content (s.restartPrefetcherIfNecessary_l params ignoreLowWaterThreshold force) ∧
      (s.restartPrefetcherIfNecessary_l params ignoreLowWaterThreshold force).cacheEnd =
        s.cacheEnd := by
  rw [restartPrefetcherIfNecessary_l]
  split
  · exact ⟨.refl s, h, rfl⟩
  · split
    · exact ⟨.refl s, h, rfl⟩
    · dsimp only
      split
      · exact ⟨.refl s, h, rfl⟩
      · exact ⟨⟨_, _, _, _, _, rfl⟩, h.releaseFromStart hcontent _⟩

theorem restart_of_final (hfinal : s.Final) (params : CacheParams)
    (ignoreLowWaterThreshold force : Bool) :
    s.restartPrefetcherIfNecessary_l params ignoreLowWaterThreshold force = s :=
  if_pos (.inr hfinal)

/-- After a seek the cache starts at the position or before it. -/
theorem Held.seek (h : Held content s) (offset : Int) (hnonneg : 0 ≤ offset)
    (hlt : offset < 2 ^ 63) :
    ∃ t, s.seekInternal_l offset = some t ∧ Moves s t ∧ Held content t ∧
      t.mCacheOffset ≤ offset := by
  rw [seekInternal_l]
  dsimp only
  split
  · next hwithin => exact ⟨_, rfl, ⟨_, _, _, _, _, rfl⟩, ⟨h.valid, h.window⟩, hwithin.1⟩
  · rw [h.valid.releaseAll]
    dsimp only
    rw [if_pos rfl]
    refine ⟨_, rfl, ⟨_, _, _, _, _, rfl⟩,
      ⟨⟨rfl, fun _ hpage => by cases hpage⟩, offset.toNat, ?_, ?_, ?_⟩, Int.le_refl _⟩
    · exact (Int.toNat_of_nonneg hnonneg).symm
    · omega
    · exact Window.nil _ _

/-! ### Reads -/

/-- What `readAt` may return: where it is no error, the bytes of the content, and fewer than asked for
only when no more can be fetched. -/
def Delivers (content : List Byte) (s : NuCachedSource2) (r : Returned) : Prop :=
  0 < r.result → 0 ≤ r.request.offset ∧ r.result ≤ r.request.size ∧
    r.data = (content.drop r.request.offset.toNat).take r.result.toNat ∧
    (r.result < r.request.size → s.Final)

theorem Delivers.mono {t : NuCachedSource2} {r : Returned} (h : Delivers content s r)
    (hfinal : s.Final → t.Final) : Delivers content t r := fun hpos =>
  let ⟨hoffset, hle, hdata, hshort⟩ := h hpos
  ⟨hoffset, hle, hdata, fun hlt => hfinal (hshort hlt)⟩

theorem delivers_of_nonpos {request : Request} {result : Int} {data : List Byte} (h : result ≤ 0) :
    Delivers content s ⟨request, result, data⟩ := fun hpos => absurd h (Int.not_le.mpr hpos)

/-- The request is met from the cache at once. -/
def Hits (s : NuCachedSource2) (request : Request) : Prop :=
  request.offset ≥ s.mCacheOffset ∧ toSize (request.offset + request.size) ≤ s.cacheEnd

instance (s : NuCachedSource2) (request : Request) : Decidable (Hits s request) :=
  inferInstanceAs (Decidable (_ ∧ _))

/-- A request that does not end up at a position of zero or more when it starts before zero, and whose
result fits in 32 bits. -/
def Readable (request : Request) : Prop :=
  (0 ≤ request.offset ∨ request.offset + request.size < 0) ∧ request.size < 2 ^ 31

/-- A read from a cache that starts at the offset or before it, or at an offset before zero. -/
theorem Held.readCached (h : Held content s) (hcontent : content.length < 2 ^ 63)
    (hstatus : -2 ^ 31 ≤ s.mFinalStatus ∧ s.mFinalStatus ≤ 0) {request : Request}
    (hrange : -2 ^ 63 ≤ request.offset ∧ request.offset < 2 ^ 63) (hreadable : Readable request)
    (hbefore : s.mCacheOffset ≤ request.offset ∨ s.mCacheOffset = 0) :
    ∃ result data, s.readCached request.offset request.size = some (result, data) ∧
      -2 ^ 31 ≤ result ∧ result < 2 ^ 31 ∧ Delivers content s ⟨request, result, data⟩ := by
  obtain ⟨hoffset, hend, hend_lt⟩ := h.cacheEnd_lt hcontent
  obtain ⟨hstart, hsize⟩ := hreadable
  rw [NuCachedSource2.readCached]
  dsimp only
  rcases hstart with hstart | hstart
  · have hdelta : (toSize (request.offset - s.mCacheOffset) : Int) =
        request.offset - s.mCacheOffset := toSize_of_nonneg (by omega) (by omega)
    have hsum : (toSize (request.offset + request.size) : Int) = request.offset + request.size :=
      toSize_of_nonneg (by omega) (by omega)
    have hcopy : ∀ size : Nat, request.offset + size ≤ s.cacheEnd →
        s.mCache.copy (toSize (request.offset - s.mCacheOffset)) size =
          some ((content.drop request.offset.toNat).take size) :=
      fun size hle => h.copy hcontent (by omega) hle
    split
    · next hfinal =>
      split
      · exact ⟨_, _, rfl, hstatus.1, by omega, delivers_of_nonpos hstatus.2⟩
      · next havail =>
        have htotal : s.cacheEnd = s.mCacheOffset + s.mCache.mTotalSize := rfl
        split
        · next hlarge =>
          rw [hcopy _ (by omega)]
          exact ⟨_, _, rfl, by omega, by omega,
            fun _ => ⟨hstart, Int.le_refl _, rfl, fun _ => hfinal⟩⟩
        · next hsmall =>
          rw [hcopy _ (by omega)]
          exact ⟨_, _, rfl, by omega, by omega,
            fun _ => ⟨hstart, by dsimp only; omega, rfl, fun _ => hfinal⟩⟩
    · split
      · rw [hcopy _ (by omega)]
        exact ⟨_, _, rfl, by omega, by omega,
          fun _ => ⟨hstart, Int.le_refl _, rfl, fun hlt => absurd hlt (Int.lt_irrefl _)⟩⟩
      · exact ⟨_, _, rfl, by decide, by decide, delivers_of_nonpos (by decide)⟩
  · -- the differences and sums are behind all that is in the cache
    have hdelta := toSize_of_neg (x := request.offset - s.mCacheOffset) (by omega) (by omega)
    have hsum := toSize_of_neg (x := request.offset + request.size) hstart (by omega)
    have htotal : s.cacheEnd = s.mCacheOffset + s.mCache.mTotalSize := rfl
    split
    · rw [if_pos (by omega)]
      exact ⟨_, _, rfl, hstatus.1, by omega, delivers_of_nonpos hstatus.2⟩
    · rw [if_neg (by omega)]
      exact ⟨_, _, rfl, by decide, by decide, delivers_of_nonpos (by decide)⟩

theorem Held.readInternal (h : Held content s) (hcontent : content.length < 2 ^ 63)
    (hstatus : -2 ^ 31 ≤ s.mFinalStatus ∧ s.mFinalStatus ≤ 0) {request : Request}
    (hrange : -2 ^ 63 ≤ request.offset ∧ request.offset < 2 ^ 63) (hreadable : Readable request)
    (hsize : request.size ≤ params.mHighwaterThresholdBytes) :
    ∃ t result data,
      s.readInternal params request.offset request.size = some (t, result, data) ∧
      Moves s t ∧ Held content t ∧ -2 ^ 31 ≤ result ∧ result < 2 ^ 31 ∧
      Delivers content t ⟨request, result, data⟩ := by
  rw [NuCachedSource2.readInternal, if_neg (by omega)]
  split
  · exact ⟨s, _, _, rfl, .refl s, h, by decide, by decide, delivers_of_nonpos (by decide)⟩
  · -- a restart may give up pages, a seek all of them
    obtain ⟨t, ht, hmoves, hheld⟩ : ∃ t, (if ¬s.mFetching then
        { s with mLastAccessPos := request.offset }.restartPrefetcherIfNecessary_l params false true
      else s) = t ∧ Moves s t ∧ Held content t := by
      split
      · have haccess : Held content { s with mLastAccessPos := request.offset } :=
          ⟨h.valid, h.window⟩
        obtain ⟨hmoves, hheld, -⟩ := haccess.restart hcontent params false true
        exact ⟨_, rfl, .trans ⟨_, _, _, _, _, rfl⟩ hmoves, hheld⟩
      · exact ⟨s, rfl, .refl s, h⟩
    obtain ⟨u, hu, hmoves', hheld', hbefore⟩ : ∃ u,
        (if request.offset < t.mCacheOffset ∨ request.offset ≥ t.cacheEnd then
          t.seekInternal_l (if request.offset > kPadding then request.offset - kPadding else 0)
        else some t) = some u ∧ Moves t u ∧ Held content u ∧
          (u.mCacheOffset ≤ request.offset ∨ u.mCacheOffset = 0) := by
      split
      · have hpadding : kPadding = 262144 := rfl
        obtain ⟨u, hu, hmoves', hheld', hbefore⟩ := hheld.seek
          (if request.offset > kPadding then request.offset - kPadding else 0) (by split <;> omega) (by split <;> omega)
        obtain ⟨hnonneg, -, -⟩ := hheld'.cacheEnd_lt hcontent
        refine ⟨u, hu, hmoves', hheld', ?_⟩
        split at hbefore
        · exact .inl (by omega)
        · exact .inr (by omega)
      · next hwithin => exact ⟨t, rfl, .refl t, hheld, .inl (by omega)⟩
    have hstatus' : u.mFinalStatus = s.mFinalStatus := by
      obtain ⟨_, _, _, _, _, rfl⟩ := hmoves.trans hmoves'
      rfl
    obtain ⟨result, data, hread, hge, hlt, hdelivers⟩ :=
      hheld'.readCached hcontent (hstatus'.symm ▸ hstatus) hrange hreadable hbefore
    dsimp only
    rw [ht, hu, Option.bind_some, hread]
    exact ⟨u, result, data, rfl, hmoves.trans hmoves', hheld', hge, hlt, hdelivers⟩

/-! ### What holds between steps -/

/-- A result for the client that waits. -/
structure Pending (content : List Byte) (s : NuCachedSource2) (r : Returned) : Prop where
  fits : -2 ^ 31 ≤ r.result ∧ r.result < 2 ^ 31
  message : s.message = none
  waiting : s.mDisconnecting ∨ s.waiting = some r.request
  delivers : Delivers content s r

structure Inv (params : CacheParams) (content : List Byte) (s : NuCachedSource2) : Prop where
  held : Held content s
  status : -2 ^ 31 ≤ s.mFinalStatus ∧ s.mFinalStatus ≤ 0
  target : ∀ offset, s.looper = .reading offset → offset = s.cacheEnd
  message : ∀ request, s.message = some request →
    ((-2 ^ 63 ≤ request.offset ∧ request.offset < 2 ^ 63) ∧ Readable request ∧
      request.size ≤ params.mHighwaterThresholdBytes) ∧
    (s.mDisconnecting ∨ s.waiting = some request) ∧ s.mAsyncResult = none
  delivering : ∀ r, s.looper = .delivering r → Pending content s r ∧ s.mAsyncResult = none
  asyncResult : ∀ r, s.mAsyncResult = some r → Pending content s r ∧
    (0 < r.result → r.result < r.request.size → s.looper = .idle)
  waiting : s.waiting = none → ¬s.mDisconnecting → s.message = none ∧ s.mAsyncResult = none ∧
    ∀ r, s.looper ≠ .delivering r
  returned : ∀ r, s.returned = some r → Delivers content s r

namespace Inv

variable {request : Request}

theorem init (params : CacheParams) (content : List Byte) :
    Inv params content (cachedSource params).init where
  held := ⟨⟨rfl, fun _ hpage => by cases hpage⟩, 0, rfl, by decide, Window.nil content 0⟩
  status := ⟨by show (-2 ^ 31 : Int) ≤ 0; decide, Int.le_refl 0⟩
  target := fun _ h => by cases h
  message := fun _ h => by cases h
  delivering := fun _ h => by cases h
  asyncResult := fun _ h => by cases h
  waiting := fun _ _ => ⟨rfl, rfl, fun _ h => by cases h⟩
  returned := fun _ h => by cases h

theorem setReturned (hi : Inv params content s) (mLastAccessPos : Int) {returned : Option Returned}
    (hreturned : ∀ r, returned = some r → Delivers content s r) :
    Inv params content { s with mLastAccessPos, returned } :=
  { hi with
    held := ⟨hi.held.valid, hi.held.window⟩
    delivering := fun r h =>
      let ⟨hpending, hnone⟩ := hi.delivering r h
      ⟨{ hpending with }, hnone⟩
    asyncResult := fun r h =>
      let ⟨hpending, hidle⟩ := hi.asyncResult r h
      ⟨{ hpending with }, hidle⟩
    returned := hreturned }

/-! ### Clients -/

theorem readAt (hi : Inv params content s) (hcontent : content.length < 2 ^ 63)
    (hwaiting : s.waiting = none)
    (hrange : -2 ^ 63 ≤ request.offset ∧ request.offset < 2 ^ 63) (hlarge : request.size < 2 ^ 63)
    (hsize : request.size ≤ params.mHighwaterThresholdBytes)
    (hreadable : Hits s request ∨ Readable request) :
    ∃ t, s.readAt request = some t ∧ Inv params content t := by
  obtain ⟨hoffset, hend, hend_lt⟩ := hi.held.cacheEnd_lt hcontent
  rw [NuCachedSource2.readAt]
  split
  · refine ⟨_, rfl, hi.setReturned s.mLastAccessPos ?_⟩
    rintro r ⟨⟩
    exact delivers_of_nonpos (by decide)
  · next hconnected =>
    split
    · next hhits =>
      have hsum : (toSize (request.offset + request.size) : Int) = request.offset + request.size :=
        toSize_of_nonneg (by omega) (by omega)
      dsimp only
      rw [hi.held.copy hcontent hhits.1 (by omega)]
      refine ⟨_, rfl, hi.setReturned _ ?_⟩
      rintro r ⟨⟩
      exact fun _ => ⟨by dsimp only; omega, Int.le_refl _, rfl,
        fun hlt => absurd hlt (Int.lt_irrefl _)⟩
    · next hmisses =>
      obtain ⟨hmessage, hnone, hdelivering⟩ := hi.waiting hwaiting hconnected
      rw [hnone, if_neg (by decide)]
      refine ⟨_, rfl, { hi with
        held := ⟨hi.held.valid, hi.held.window⟩
        message := ?_
        delivering := fun r hr => absurd hr (hdelivering r)
        asyncResult := fun r hr => by cases hr
        waiting := fun hwait => by cases hwait }⟩
      rintro q ⟨⟩
      exact ⟨⟨hrange, hreadable.resolve_left hmisses, hsize⟩, .inr rfl, rfl⟩

theorem wake (hi : Inv params content s) (hwaiting : s.waiting = some request)
    (hdue : s.mAsyncResult.isSome ∨ s.mDisconnecting) : Inv params content (s.wake request) := by
  rw [NuCachedSource2.wake]
  split
  · next hdisconnecting =>
    exact { hi with
      held := ⟨hi.held.valid, hi.held.window⟩
      message := fun q hq =>
        let ⟨hrequest, _, _⟩ := hi.message q hq
        ⟨hrequest, .inl hdisconnecting, rfl⟩
      delivering := fun r hr =>
        let ⟨hpending, _⟩ := hi.delivering r hr
        ⟨{ hpending with waiting := .inl hdisconnecting }, rfl⟩
      asyncResult := fun r hr => by cases hr
      waiting := fun _ hconnected => absurd hdisconnecting hconnected
      returned := by
        rintro r ⟨⟩
        exact delivers_of_nonpos (by decide) }
  · next hconnected =>
    obtain ⟨r, hr⟩ := Option.isSome_iff_exists.mp (hdue.resolve_right hconnected)
    obtain ⟨hpending, -⟩ := hi.asyncResult r hr
    have hrequest : r.request = request :=
      (Option.some.inj (hwaiting.symm.trans (hpending.waiting.resolve_left hconnected))).symm
    have hdelivering : ∀ r', s.looper ≠ .delivering r' := by
      intro r' hr'
      cases (hi.delivering r' hr').2.symm.trans hr
    rw [hr]
    exact { hi with
      held := ⟨hi.held.valid, hi.held.window⟩
      message := fun q hq => by cases hpending.message.symm.trans hq
      delivering := fun r' hr' => absurd hr' (hdelivering r')
      asyncResult := fun r hr => by cases hr
      waiting := fun _ _ => ⟨hpending.message, rfl, hdelivering⟩
      returned := by
        rintro r' ⟨⟩
        rw [← hrequest]
        exact hpending.delivers }

theorem disconnect (hi : Inv params content s) :
    Inv params content { s with mDisconnecting := true } :=
  { hi with
    held := ⟨hi.held.valid, hi.held.window⟩
    message := fun q hq =>
      let ⟨hrequest, _, hnone⟩ := hi.message q hq
      ⟨hrequest, .inl rfl, hnone⟩
    delivering := fun r hr =>
      let ⟨hpending, hnone⟩ := hi.delivering r hr
      ⟨{ hpending with waiting := .inl rfl }, hnone⟩
    asyncResult := fun r hr =>
      let ⟨hpending, hidle⟩ := hi.asyncResult r hr
      ⟨{ hpending with waiting := .inl rfl }, hidle⟩
    waiting := fun _ hconnected => absurd rfl hconnected }

/-! ### Restarts and fetches -/

/-- A restart of the prefetcher, after which the looper may be elsewhere. -/
theorem restart (hi : Inv params content s) (hcontent : content.length < 2 ^ 63)
    (ignoreLowWaterThreshold force : Bool) :
    Inv params content (s.restartPrefetcherIfNecessary_l params ignoreLowWaterThreshold force) := by
  obtain ⟨hmoves, hheld, hend⟩ := hi.held.restart hcontent params ignoreLowWaterThreshold force
  have hfinal : s.Final →
      (s.restartPrefetcherIfNecessary_l params ignoreLowWaterThreshold force).Final := by
    intro hfinal
    rw [restart_of_final hfinal]
    exact hfinal
  generalize s.restartPrefetcherIfNecessary_l params ignoreLowWaterThreshold force = t at *
  obtain ⟨_, _, _, _, _, rfl⟩ := hmoves
  exact { hi with
    held := hheld
    target := fun offset hoffset => (hi.target offset hoffset).trans hend.symm
    delivering := fun r hr =>
      let ⟨hpending, hnone⟩ := hi.delivering r hr
      ⟨{ hpending with delivers := hpending.delivers.mono hfinal }, hnone⟩
    asyncResult := fun r hr =>
      let ⟨hpending, hidle⟩ := hi.asyncResult r hr
      ⟨{ hpending with delivers := hpending.delivers.mono hfinal }, hidle⟩
    returned := fun r hr => (hi.returned r hr).mono hfinal }

/-- A step of a fetch. No result that is short waits, as the looper would be idle. -/
theorem fetch (hi : Inv params content s) (hreturned : s.returned = none)
    (hshort : ∀ r, s.mAsyncResult = some r → 0 < r.result → ¬r.result < r.request.size)
    {mCache : PageCache} {mFinalStatus : Int} {mFetching : Bool} {mNumRetriesLeft : Nat}
    {looper : Looper}
    (hheld : Held content { s with mCache, mFinalStatus, mFetching, mNumRetriesLeft, looper })
    (hstatus : -2 ^ 31 ≤ mFinalStatus ∧ mFinalStatus ≤ 0)
    (htarget : ∀ offset, looper = .reading offset → offset = s.mCacheOffset + mCache.mTotalSize)
    (hlooper : ∀ r, looper ≠ .delivering r) :
    Inv params content { s with mCache, mFinalStatus, mFetching, mNumRetriesLeft, looper } :=
  { hi with
    held := hheld
    status := hstatus
    target := htarget
    delivering := fun r hr => absurd hr (hlooper r)
    asyncResult := by
      intro r hr
      obtain ⟨hpending, -⟩ := hi.asyncResult r hr
      refine ⟨{ hpending with delivers := ?_ }, fun hpos hlt => absurd hlt (hshort r hr hpos)⟩
      intro hpos
      obtain ⟨hoffset, hle, hdata, -⟩ := hpending.delivers hpos
      exact ⟨hoffset, hle, hdata, fun hlt => absurd hlt (hshort r hr hpos)⟩
    waiting := fun hwaiting hconnected =>
      let ⟨hmessage, hnone, _⟩ := hi.waiting hwaiting hconnected
      ⟨hmessage, hnone, hlooper⟩
    returned := fun r hr => by cases hreturned.symm.trans hr }

theorem not_short (hi : Inv params content s) (hbusy : s.looper ≠ .idle) (r : Returned)
    (hr : s.mAsyncResult = some r) (hpos : 0 < r.result) : ¬r.result < r.request.size :=
  fun hlt => hbusy ((hi.asyncResult r hr).2 hpos hlt)

theorem onFetch (hi : Inv params content s) (hcontent : content.length < 2 ^ 63)
    (hreturned : s.returned = none) (hidle : s.looper = .idle) (due : Bool) :
    ∃ t, s.onFetch params due = some t ∧ Inv params content t := by
  have hdelivering : ∀ r, s.looper ≠ .delivering r := fun r hr => by cases hidle.symm.trans hr
  rw [NuCachedSource2.onFetch]
  by_cases hfinal : s.Final
  · -- nothing more will be fetched
    have hstopped : Inv params content { s with mFetching := false } :=
      { hi with
        held := ⟨hi.held.valid, hi.held.window⟩
        delivering := fun r hr => absurd hr (hdelivering r)
        asyncResult := fun r hr =>
          let ⟨hpending, hsettled⟩ := hi.asyncResult r hr
          ⟨{ hpending with }, hsettled⟩
        returned := fun r hr => by cases hreturned.symm.trans hr }
    rw [if_pos hfinal]
    dsimp only
    rw [if_neg (by simp [hfinal.1])]
    exact ⟨_, rfl, hstopped.restart hcontent false false⟩
  · rw [if_neg hfinal]
    have hshort : ∀ r, s.mAsyncResult = some r → 0 < r.result → ¬r.result < r.request.size := by
      intro r hr hpos hlt
      obtain ⟨-, -, -, hshort⟩ := (hi.asyncResult r hr).1.delivers hpos
      exact hfinal (hshort hlt)
    have hcheck : s.mFinalStatus = OK ∨ s.mNumRetriesLeft > 0 := by
      rw [Final, not_and_or, not_not] at hfinal
      exact hfinal.imp_right Nat.pos_of_ne_zero
    by_cases hfetch : s.mFetching ∨ ¬s.mFetching ∧ s.mFinalStatus = OK ∧ due
    · rw [if_pos hfetch, if_neg (not_not.mpr hcheck)]
      split
      · exact ⟨_, rfl, hi.fetch hreturned hshort ⟨hi.held.valid, hi.held.window⟩
          hi.status (fun _ h => by cases h) (fun _ h => by cases h)⟩
      · exact ⟨_, rfl, hi.fetch hreturned hshort ⟨hi.held.valid, hi.held.window⟩
          hi.status (fun _ h => by cases h) (fun _ h => by cases h)⟩
    · rw [if_neg hfetch]
      exact ⟨_, rfl, hi.restart hcontent false false⟩

theorem reconnected (hi : Inv params content s) (hreturned : s.returned = none)
    (hlooper : s.looper = .reconnecting) (err : Int) : Inv params content (s.reconnected err) := by
  have hshort := hi.not_short (hlooper ▸ fun h => by cases h)
  have hheld : ∀ {mFinalStatus mFetching mNumRetriesLeft looper}, Held content { s with
      mCache := s.mCache, mFinalStatus, mFetching, mNumRetriesLeft, looper } :=
    ⟨hi.held.valid, hi.held.window⟩
  rw [NuCachedSource2.reconnected]
  split
  · exact hi.fetch hreturned hshort hheld (by decide) (fun _ h => by cases h)
      (fun _ h => by cases h)
  · split
    · exact hi.fetch hreturned hshort hheld hi.status (fun _ h => by cases h)
        (fun _ h => by cases h)
    · split
      · exact hi.fetch hreturned hshort hheld hi.status (fun _ h => by cases h)
          (fun _ h => by cases h)
      · exact hi.fetch hreturned hshort hheld hi.status (fun _ h => by cases h)
          (fun _ h => by cases h)

theorem readSource (hi : Inv params content s) (hreturned : s.returned = none)
    (hlooper : s.looper = .fetching) :
    Inv params content { s with looper := .reading s.cacheEnd } :=
  hi.fetch hreturned (hi.not_short (hlooper ▸ fun h => by cases h))
    ⟨hi.held.valid, hi.held.window⟩ hi.status (fun _ h => by cases h; rfl) (fun _ h => by cases h)

theorem append (hi : Inv params content s) (hreturned : s.returned = none) {offset : Int}
    (hlooper : s.looper = .reading offset) {answer : Answer} (hanswer : SourceStep.Answers content offset answer) :
    Inv params content (s.append answer) := by
  have hshort := hi.not_short (hlooper ▸ fun h => by cases h)
  have hheld : ∀ {mFinalStatus mFetching mNumRetriesLeft looper}, Held content { s with
      mCache := s.mCache, mFinalStatus, mFetching, mNumRetriesLeft, looper } :=
    ⟨hi.held.valid, hi.held.window⟩
  rw [NuCachedSource2.append.eq_def]
  dsimp only
  split
  · exact hi.fetch hreturned hshort hheld (by decide) (fun _ h => by cases h) (fun _ h => by cases h)
  · cases answer with
    | status n =>
      obtain ⟨hge, hle, -⟩ := hanswer
      dsimp only
      split
      · exact hi.fetch hreturned hshort hheld (by decide) (fun _ h => by cases h)
          (fun _ h => by cases h)
      · exact hi.fetch hreturned hshort hheld ⟨hge, hle⟩ (fun _ h => by cases h)
          (fun _ h => by cases h)
    | bytes data =>
      obtain ⟨hne, -, hdata⟩ := hanswer
      obtain ⟨hvalid, o, ho, hlt, hwindow⟩ := hi.held
      -- the bytes are those behind the cache: its end has stayed
      have htarget : offset.toNat = o + s.mCache.contents.length := by
        have hsize := hvalid.size
        rw [hi.target offset hlooper, cacheEnd, ho]
        omega
      rw [htarget] at hdata
      have hcontents : (s.mCache.appendPage data).contents = s.mCache.contents ++ data :=
        List.flatten_concat
      exact hi.fetch hreturned hshort
        ⟨hvalid.appendPage hne, o, ho, hlt, hcontents ▸ hwindow.append hdata⟩ (by decide)
        (fun _ h => by cases h) (fun _ h => by cases h)

theorem afterFetch (hi : Inv params content s) (hreturned : s.returned = none)
    (hlooper : s.looper = .fetched) : Inv params content (s.afterFetch params) := by
  have hshort := hi.not_short (hlooper ▸ fun h => by cases h)
  have hheld : ∀ {mFinalStatus mFetching mNumRetriesLeft looper}, Held content { s with
      mCache := s.mCache, mFinalStatus, mFetching, mNumRetriesLeft, looper } :=
    ⟨hi.held.valid, hi.held.window⟩
  rw [NuCachedSource2.afterFetch]
  split
  · refine hi.fetch hreturned hshort hheld ?_ (fun _ h => by cases h) (fun _ h => by cases h)
    split
    · decide
    · exact hi.status
  · exact hi.fetch hreturned hshort hheld hi.status (fun _ h => by cases h) (fun _ h => by cases h)

/-! ### Reads by the looper -/

theorem onRead (hi : Inv params content s) (hcontent : content.length < 2 ^ 63)
    (hreturned : s.returned = none) (hidle : s.looper = .idle) (hmessage : s.message = some request) :
    ∃ t, s.onRead params request = some t ∧ Inv params content t := by
  obtain ⟨⟨hrange, hreadable, hsize⟩, hwaiting, hnone⟩ := hi.message request hmessage
  obtain ⟨t, result, data, hread, hmoves, hheld, hge, hlt, hdelivers⟩ :=
    hi.held.readInternal hcontent hi.status hrange hreadable hsize
  obtain ⟨_, _, _, _, _, rfl⟩ := hmoves
  rw [NuCachedSource2.onRead, hread, Option.map_some]
  refine ⟨_, rfl, ?_⟩
  dsimp only
  split
  · exact { hi with
      held := hheld
      target := fun offset hoffset => by cases hidle.symm.trans hoffset
      delivering := fun r hr => by cases hidle.symm.trans hr
      asyncResult := fun r hr => by cases hnone.symm.trans hr
      returned := fun r hr => by cases hreturned.symm.trans hr }
  · exact { hi with
      held := ⟨hheld.valid, hheld.window⟩
      target := fun offset hoffset => by cases hoffset
      message := fun q hq => by cases hq
      delivering := by
        rintro r ⟨⟩
        exact ⟨⟨⟨hge, hlt⟩, rfl, hwaiting, hdelivers⟩, hnone⟩
      asyncResult := fun r hr => by cases hnone.symm.trans hr
      waiting := by
        intro hnobody hconnected
        cases hnobody.symm.trans (hwaiting.resolve_left hconnected)
      returned := fun r hr => by cases hreturned.symm.trans hr }

theorem deliver (hi : Inv params content s) (hreturned : s.returned = none) {r : Returned}
    (hlooper : s.looper = .delivering r) : ∃ t, s.deliver r = some t ∧ Inv params content t := by
  obtain ⟨hpending, hnone⟩ := hi.delivering r hlooper
  rw [NuCachedSource2.deliver]
  split
  · next hdisconnecting =>
    exact ⟨_, rfl, { hi with
      held := ⟨hi.held.valid, hi.held.window⟩
      target := fun offset hoffset => by cases hoffset
      delivering := fun r hr => by cases hr
      asyncResult := fun r hr => by cases hnone.symm.trans hr
      waiting := fun _ hconnected => absurd hdisconnecting hconnected
      returned := fun r hr => by cases hreturned.symm.trans hr }⟩
  · next hconnected =>
    rw [hnone, if_neg (by decide), toInt32_of_fits hpending.fits]
    exact ⟨_, rfl, { hi with
      held := ⟨hi.held.valid, hi.held.window⟩
      target := fun offset hoffset => by cases hoffset
      message := fun q hq => by cases hpending.message.symm.trans hq
      delivering := fun r hr => by cases hr
      asyncResult := by
        rintro r' ⟨⟩
        exact ⟨{ hpending with }, fun _ _ => rfl⟩
      waiting := by
        intro hnobody _
        cases hnobody.symm.trans (hpending.waiting.resolve_left hconnected)
      returned := fun r hr => by cases hreturned.symm.trans hr }⟩

end Inv

end NuCachedSource2

/-! ### Steps and runs -/

namespace SourceStep

open NuCachedSource2

variable {params : CacheParams} {content : List Byte} {s : NuCachedSource2}

/-- A read that misses the cache does not cross the start of the content, and has a result of 32
bits. -/
def Sound (s : NuCachedSource2) : SourceStep → Prop
  | .readAt request => Hits s request ∨ Readable request
  | _ => True

theorem inv_step (hi : Inv params content s) (hcontent : content.length < 2 ^ 63) {a : SourceStep}
    (hdue : Due params content s a) (hsound : Sound s a) :
    ∃ t, step params s a = some t ∧ Inv params content t := by
  have hclear : Inv params content { s with returned := none } :=
    hi.setReturned s.mLastAccessPos fun _ h => by cases h
  cases a with
  | readAt request =>
    obtain ⟨hwaiting, hrange, hlarge, hsize⟩ := hdue
    exact hclear.readAt hcontent hwaiting hrange hlarge hsize hsound
  | wake =>
    obtain ⟨hwaiting, hready⟩ := hdue
    obtain ⟨request, hrequest⟩ := Option.isSome_iff_exists.mp hwaiting
    refine ⟨_, ?_, hclear.wake hrequest hready⟩
    show s.waiting.map _ = _
    rw [hrequest]
    rfl
  | resumeFetchingIfNecessary => exact ⟨_, rfl, hclear.restart hcontent true false⟩
  | disconnect => exact ⟨_, rfl, hclear.disconnect⟩
  | onFetch due => exact hclear.onFetch hcontent rfl hdue due
  | reconnected err => exact ⟨_, rfl, hclear.reconnected rfl hdue err⟩
  | readSource => exact ⟨_, rfl, hclear.readSource rfl hdue⟩
  | append answer =>
    obtain ⟨offset, hlooper, hanswer⟩ := hdue
    exact ⟨_, rfl, hclear.append rfl hlooper hanswer⟩
  | afterFetch => exact ⟨_, rfl, hclear.afterFetch rfl hdue⟩
  | onRead =>
    obtain ⟨hidle, hmessage⟩ := hdue
    obtain ⟨request, hrequest⟩ := Option.isSome_iff_exists.mp hmessage
    obtain ⟨t, ht, hinv⟩ := hclear.onRead hcontent rfl hidle hrequest
    exact ⟨t, Option.bind_eq_some_iff.mpr ⟨request, hrequest, ht⟩, hinv⟩
  | deliver =>
    obtain ⟨r, hr⟩ := hdue
    obtain ⟨t, ht, hinv⟩ := hclear.deliver rfl hr
    refine ⟨t, ?_, hinv⟩
    rw [step]
    dsimp only
    rw [hr]
    exact ht

theorem inv_run (hcontent : content.length < 2 ^ 63)
    (hrun : (cachedSource params).Run (fun s a => Due params content s a ∧ Sound s a) s) :
    Inv params content s := by
  refine hrun.invariant (Inv.init params content) ?_
  rintro s a s' hi ⟨hdue, hsound⟩ hstep
  obtain ⟨t, ht, hinv⟩ := inv_step hi hcontent hdue hsound
  obtain rfl : t = s' := Option.some.inj (ht.symm.trans hstep)
  exact hinv

/-- The cache holds the content from its offset on, no `CHECK` fails, and reads give the content. -/
theorem transparent (hcontent : content.length < 2 ^ 63)
    (hrun : (cachedSource params).Run (fun s a => Due params content s a ∧ Sound s a) s) :
    (∃ o : Nat, s.mCacheOffset = o ∧
      s.mCache.mActivePages.flatten = (content.drop o).take s.mCache.mTotalSize) ∧
    s.mCache.mTotalSize = (s.mCache.mActivePages.map List.length).sum ∧
    (∀ a, Due params content s a → Sound s a → (step params s a).isSome) ∧
    ∀ r, s.returned = some r → 0 < r.result →
      0 ≤ r.request.offset ∧ r.result ≤ r.request.size ∧
        r.data = (content.drop r.request.offset.toNat).take r.result.toNat ∧
        (r.result < r.request.size → s.mFinalStatus ≠ OK ∧ s.mNumRetriesLeft = 0) := by
  have hi := inv_run hcontent hrun
  obtain ⟨hvalid, o, ho, -, hwindow⟩ := hi.held
  have hsize := hvalid.size
  refine ⟨⟨o, ho, ?_⟩, ?_, ?_, hi.returned⟩
  · rw [hsize]
    exact hwindow.eq_take
  · rw [hsize, PageCache.contents, List.length_flatten]
  · intro a hdue hsound
    obtain ⟨t, ht, -⟩ := inv_step hi hcontent hdue hsound
    rw [ht]
    rfl

/-- The parameters without a configuration. -/
def defaultParams : CacheParams where
  mHighwaterThresholdBytes := 20 * 1024 * 1024
  mLowwaterThresholdBytes := 4 * 1024 * 1024
  mDisconnectAtHighwatermark := false

/-- The source after its first fetch, of the whole content. -/
def fetchedSource : NuCachedSource2 := { mCache := ⟨[[7, 8]], 2⟩ }

theorem fetchedSource_run (P : NuCachedSource2 → SourceStep → Prop)
    (hP : ∀ s a, Sound s a → P s a) :
    (cachedSource defaultParams).Run (fun s a => Due defaultParams [7, 8] s a ∧ P s a)
      fetchedSource := by
  have hfetching : (cachedSource defaultParams).Run
      (fun s a => Due defaultParams [7, 8] s a ∧ P s a) { looper := .fetching } :=
    .step (a := .onFetch false) .init ⟨rfl, hP _ _ trivial⟩ rfl
  have hreading : (cachedSource defaultParams).Run
      (fun s a => Due defaultParams [7, 8] s a ∧ P s a) { looper := .reading 0 } :=
    .step (a := .readSource) hfetching ⟨rfl, hP _ _ trivial⟩ rfl
  have hfetched : (cachedSource defaultParams).Run
      (fun s a => Due defaultParams [7, 8] s a ∧ P s a)
      { mCache := ⟨[[7, 8]], 2⟩, looper := .fetched } :=
    .step (a := .append (.bytes [7, 8])) hreading
      ⟨⟨0, rfl, by decide, by decide, List.prefix_rfl⟩, hP _ _ trivial⟩ rfl
  exact .step (a := .afterFetch) hfetched ⟨rfl, hP _ _ trivial⟩ rfl

theorem transparent_fetched :
    ∃ (s : NuCachedSource2) (r : Returned), s.returned = some r ∧ r.result = 2 ∧ r.data = [7, 8] ∧
      r.result ≤ r.request.size ∧
      s.mCache.mActivePages.flatten = ([7, 8] : List Byte).take s.mCache.mTotalSize := by
  have hrun : (cachedSource defaultParams).Run
      (fun s a => Due defaultParams [7, 8] s a ∧ Sound s a)
      { fetchedSource with mLastAccessPos := 2, returned := some ⟨⟨0, 2⟩, 2, [7, 8]⟩ } :=
    .step (a := .readAt ⟨0, 2⟩) (fetchedSource_run Sound fun _ _ h => h)
      ⟨⟨rfl, by decide, by decide, by decide⟩, .inl (by decide)⟩ rfl
  obtain ⟨⟨o, ho, hheld⟩, -, -, hreturned⟩ := transparent (by decide) hrun
  obtain ⟨-, hle, hdata, -⟩ := hreturned _ rfl (by decide)
  obtain rfl : o = 0 := (Int.natCast_inj.mp ho).symm
  exact ⟨_, _, rfl, rfl, hdata, hle, hheld⟩

/-- A read from the byte before the content: the end of the request is in the cache as an unsigned
number, and the copy looks for its start behind all pages. -/
theorem read_before_start :
    ∃ s, (cachedSource defaultParams).Run (fun s a => Due defaultParams [7, 8] s a ∧ True) s ∧
      Due defaultParams [7, 8] s .onRead ∧ step defaultParams s .onRead = none := by
  have hrun : (cachedSource defaultParams).Run
      (fun s a => Due defaultParams [7, 8] s a ∧ True)
      { fetchedSource with waiting := some ⟨-1, 2⟩, message := some ⟨-1, 2⟩ } :=
    .step (a := .readAt ⟨-1, 2⟩) (fetchedSource_run (fun _ _ => True) fun _ _ _ => trivial)
      ⟨⟨rfl, by decide, by decide, by decide⟩, trivial⟩ rfl
  exact ⟨_, hrun, ⟨rfl, rfl⟩, rfl⟩

end SourceStep

end MediaFramework.DataSource
