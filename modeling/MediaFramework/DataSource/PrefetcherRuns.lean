import MediaFramework.DataSource.Prefetching

/-!
# Readers that wait for the prefetcher

What holds of the last access, of reads that are deferred and of the end of the stream in all states of
a run.
-/

namespace MediaFramework.DataSource

open Word

namespace NuCachedSource2

variable {params : CacheParams} {content : List Byte} {s t : NuCachedSource2} {request : Request}

/-- A status that does not say why nothing more is fetched: that of reads that are deferred, or that of
the end in front of it. -/
def Misleading (content : List Byte) (s : NuCachedSource2) (status : Int) : Prop :=
  status = -EAGAIN ∨ status = ERROR_END_OF_STREAM ∧ s.cacheEnd < content.length

theorem not_misleading_unsupported {n : Int} (h : n = ERROR_UNSUPPORTED ∨ n = -EPIPE) :
    ¬Misleading content s n := by
  rcases h with rfl | rfl
  · rintro (h | ⟨h, -⟩)
    · exact absurd h (by decide)
    · exact absurd h (by decide)
  · rintro (h | ⟨h, -⟩)
    · exact absurd h (by decide)
    · exact absurd h (by decide)

/-- Readers find that nothing more is fetched, with such a status. -/
structure Stranded (content : List Byte) (s : NuCachedSource2) : Prop where
  connected : s.mDisconnecting = false
  final : s.Final
  misleading : Misleading content s s.mFinalStatus

/-- From here on a result of 32 bits may be an end of stream. -/
def resultLimit : Int := 2 ^ 32 + ERROR_END_OF_STREAM

/-- The end of stream is told where the content ends, or to all. -/
def Proper (content : List Byte) (s : NuCachedSource2) (r : Returned) : Prop :=
  r.result = ERROR_END_OF_STREAM → s.mDisconnecting = true ∨
    ¬(0 ≤ r.request.offset ∧ r.request.offset < content.length)

/-- A result for the client that waits. -/
structure Settled (content : List Byte) (s : NuCachedSource2) (r : Returned) : Prop where
  message : s.message = none
  waiting : s.mDisconnecting = true ∨ s.waiting = some r.request
  range : -2 ^ 31 ≤ r.result ∧ r.result < resultLimit
  access : 0 < r.result → s.mLastAccessPos ≤ r.request.offset + r.result ∧
    r.request.offset + r.result ≤ s.cacheEnd
  proper : Proper content s r

/-- The looper is between the steps of a fetch. -/
def Busy : Looper → Prop
  | .reconnecting | .fetching | .reading _ => True
  | .idle | .fetched | .delivering _ => False

structure Attended (content : List Byte) (s : NuCachedSource2) : Prop where
  near : Near content s
  status : -2 ^ 31 ≤ s.mFinalStatus ∧ s.mFinalStatus ≤ 0
  target : ∀ offset, s.looper = .reading offset → offset = s.cacheEnd
  message : ∀ request, s.message = some request →
    ((-2 ^ 63 ≤ request.offset ∧ request.offset < 2 ^ 63) ∧ request.size < resultLimit) ∧
    Ahead s request ∧ (s.mDisconnecting = true ∨ s.waiting = some request) ∧ s.mAsyncResult = none
  delivering : ∀ r, s.looper = .delivering r → Settled content s r ∧ s.mAsyncResult = none
  asyncResult : ∀ r, s.mAsyncResult = some r → Settled content s r
  waiting : s.waiting = none → s.mDisconnecting = false → s.message = none ∧ s.mAsyncResult = none ∧
    ∀ r, s.looper ≠ .delivering r
  attended : Busy s.looper ∨ ¬Stranded content s
  returned : ∀ r, s.returned = some r → Proper content s r

namespace Attended

theorem init (content : List Byte) (params : CacheParams) :
    Attended content (cachedSource params).init where
  near := ⟨⟨⟨rfl, fun _ hpage => by cases hpage⟩, 0, rfl, by decide, Window.nil content 0⟩,
    Int.le_refl 0, Int.le_refl 0⟩
  status := ⟨by show (-2 ^ 31 : Int) ≤ 0; decide, Int.le_refl 0⟩
  target := fun _ h => by cases h
  message := fun _ h => by cases h
  delivering := fun _ h => by cases h
  asyncResult := fun _ h => by cases h
  waiting := fun _ _ => ⟨rfl, rfl, fun _ h => by cases h⟩
  attended := .inr fun h => h.final.1 rfl
  returned := fun _ h => by cases h

/-- A step of the prefetcher: the window may give up bytes at its start and get some at its end, and the
clients notice nothing. -/
theorem fetch (hi : Attended content s) {mCache : PageCache} {mCacheOffset mFinalStatus : Int}
    {mFetching : Bool} {mNumRetriesLeft : Nat} {looper : Looper}
    (hstart : s.mCacheOffset ≤ mCacheOffset)
    (hend : s.cacheEnd ≤ mCacheOffset + mCache.mTotalSize)
    (hnear : Near content
      { s with mCache, mCacheOffset, mFinalStatus, mFetching, mNumRetriesLeft, looper })
    (hstatus : -2 ^ 31 ≤ mFinalStatus ∧ mFinalStatus ≤ 0)
    (htarget : ∀ offset, looper = .reading offset → offset = mCacheOffset + mCache.mTotalSize)
    (hlooper : looper = s.looper ∨ ∀ r, looper ≠ .delivering r)
    (hattended : Busy looper ∨ ¬Stranded content
      { s with mCache, mCacheOffset, mFinalStatus, mFetching, mNumRetriesLeft, looper }) :
    Attended content
      { s with mCache, mCacheOffset, mFinalStatus, mFetching, mNumRetriesLeft, looper } := by
  have hsettled : ∀ r, Settled content s r → Settled content
      { s with mCache, mCacheOffset, mFinalStatus, mFetching, mNumRetriesLeft, looper } r :=
    fun r h =>
      { h with access := fun hpos => ⟨(h.access hpos).1, Int.le_trans (h.access hpos).2 hend⟩ }
  exact
    { hi with
      near := hnear
      status := hstatus
      target := htarget
      message := fun q hq =>
        let ⟨hrange, hahead, hrest⟩ := hi.message q hq
        ⟨hrange, hahead.imp_right fun hlt => Int.lt_of_lt_of_le hlt hstart, hrest⟩
      delivering := fun r hr => by
        rcases hlooper with heq | hnot
        · obtain ⟨hold, hnone⟩ := hi.delivering r (heq ▸ hr)
          exact ⟨hsettled r hold, hnone⟩
        · exact absurd hr (hnot r)
      asyncResult := fun r hr => hsettled r (hi.asyncResult r hr)
      waiting := fun hwaiting hconnected => by
        obtain ⟨hmessage, hnone, hdelivering⟩ := hi.waiting hwaiting hconnected
        refine ⟨hmessage, hnone, ?_⟩
        rcases hlooper with heq | hnot
        · exact heq ▸ hdelivering
        · exact hnot
      attended := hattended }

/-! ### The prefetcher -/

theorem restart (hi : Attended content s) (hcontent : content.length < 2 ^ 63) (params : CacheParams)
    (ignoreLowWaterThreshold : Bool) :
    Attended content (s.restartPrefetcherIfNecessary_l params ignoreLowWaterThreshold false) := by
  rcases hi.near.restart hcontent params ignoreLowWaterThreshold with
    heq | ⟨mCache, mCacheOffset, heq, hmore, hstart, hgray, hend, hheld⟩
  · rw [heq]
    exact hi
  · rw [heq]
    have hgrayArea : (0 : Int) ≤ kGrayArea := Int.natCast_nonneg _
    have hhigh := hi.near.high
    refine hi.fetch hstart (Int.le_of_eq hend.symm) ⟨hheld, ?_, ?_⟩ hi.status
      (fun offset hoffset => (hi.target offset hoffset).trans hend.symm) (.inl rfl)
      (.inr fun hstranded => hmore hstranded.final)
    · show mCacheOffset ≤ s.mLastAccessPos
      omega
    · show s.mLastAccessPos ≤ mCacheOffset + mCache.mTotalSize
      omega

theorem onFetch (hi : Attended content s) (hcontent : content.length < 2 ^ 63)
    (hidle : s.looper = .idle) {due : Bool} (h : s.onFetch params due = some t) :
    Attended content t := by
  have hattended : ¬Stranded content s := hi.attended.resolve_left (hidle ▸ id)
  have hkeep : ∀ {mFetching mNumRetriesLeft looper}, Near content { s with
      mCache := s.mCache, mCacheOffset := s.mCacheOffset, mFinalStatus := s.mFinalStatus, mFetching,
      mNumRetriesLeft, looper } :=
    ⟨⟨hi.near.held.valid, hi.near.held.window⟩, hi.near.low, hi.near.high⟩
  rw [NuCachedSource2.onFetch] at h
  by_cases hfinal : s.Final
  · -- nothing more will be fetched
    rw [if_pos hfinal] at h
    dsimp only at h
    rw [if_neg (by simp [hfinal.1])] at h
    obtain rfl := Option.some.inj h
    have hstopped : Attended content { s with mFetching := false } :=
      hi.fetch (Int.le_refl _) (Int.le_refl _) hkeep hi.status hi.target (.inl rfl)
        (.inr fun hstranded => hattended ⟨hstranded.connected, hfinal, hstranded.misleading⟩)
    exact hstopped.restart hcontent params false
  · rw [if_neg hfinal] at h
    split at h
    · split at h
      · cases h
      · split at h
        · obtain rfl := Option.some.inj h
          exact hi.fetch (Int.le_refl _) (Int.le_refl _) hkeep hi.status (fun _ h => by cases h)
            (.inr fun _ h => by cases h) (.inl trivial)
        · obtain rfl := Option.some.inj h
          exact hi.fetch (Int.le_refl _) (Int.le_refl _) hkeep hi.status (fun _ h => by cases h)
            (.inr fun _ h => by cases h) (.inl trivial)
    · obtain rfl := Option.some.inj h
      exact hi.restart hcontent params false

theorem reconnected (hi : Attended content s) {err : Int}
    (hsteady : s.mDisconnecting = true ∨ err = OK ∨
      (err ≠ ERROR_UNSUPPORTED ∧ err ≠ -EPIPE ∧ 0 < s.mNumRetriesLeft) ∨
      ¬Misleading content s s.mFinalStatus) : Attended content (s.reconnected err) := by
  have hkeep : ∀ {mFinalStatus mNumRetriesLeft looper}, Near content { s with
      mCache := s.mCache, mCacheOffset := s.mCacheOffset, mFinalStatus, mFetching := s.mFetching,
      mNumRetriesLeft, looper } :=
    ⟨⟨hi.near.held.valid, hi.near.held.window⟩, hi.near.low, hi.near.high⟩
  have hstep : ∀ {mFinalStatus mNumRetriesLeft looper}, -2 ^ 31 ≤ mFinalStatus ∧ mFinalStatus ≤ 0 →
      (looper = .fetched ∨ looper = .fetching) → (looper = .fetching ∨ ¬Stranded content
        { s with mFinalStatus, mNumRetriesLeft, looper }) →
      Attended content { s with mFinalStatus, mNumRetriesLeft, looper } := by
    intro mFinalStatus mNumRetriesLeft looper hstatus hlooper hattended
    refine hi.fetch (Int.le_refl _) (Int.le_refl _) hkeep hstatus ?_ (.inr ?_) ?_
    · rcases hlooper with rfl | rfl
      · exact fun _ h => by cases h
      · exact fun _ h => by cases h
    · rcases hlooper with rfl | rfl
      · exact fun _ h => by cases h
      · exact fun _ h => by cases h
    · rcases hattended with rfl | hnot
      · exact .inl trivial
      · exact .inr hnot
  rw [NuCachedSource2.reconnected]
  split
  · next hdisconnecting =>
    exact hstep (by decide) (.inl rfl)
      (.inr fun hstranded => Bool.noConfusion (hdisconnecting.symm.trans hstranded.connected))
  · next hconnected =>
    replace hsteady := hsteady.resolve_left hconnected
    split
    · next hunsupported =>
      refine hstep hi.status (.inl rfl) (.inr fun hstranded => ?_)
      have herr : err ≠ OK := by
        rcases hunsupported with rfl | rfl
        · decide
        · decide
      rcases hsteady with heq | ⟨hsupported, hpipe, -⟩ | hhonest
      · exact herr heq
      · exact hunsupported.elim hsupported hpipe
      · exact hhonest hstranded.misleading
    · split
      · next herr =>
        refine hstep hi.status (.inl rfl) (.inr fun hstranded => ?_)
        rcases hsteady with heq | ⟨-, -, hretries⟩ | hhonest
        · exact herr heq
        · exact absurd hstranded.final.2 (Nat.ne_of_gt hretries)
        · exact hhonest hstranded.misleading
      · exact hstep hi.status (.inr rfl) (.inl rfl)

theorem readSource (hi : Attended content s) :
    Attended content { s with looper := .reading s.cacheEnd } :=
  hi.fetch (Int.le_refl _) (Int.le_refl _)
    ⟨⟨hi.near.held.valid, hi.near.held.window⟩, hi.near.low, hi.near.high⟩ hi.status
    (fun _ h => by cases h; rfl) (.inr fun _ h => by cases h) (.inl trivial)

theorem append (hi : Attended content s) {offset : Int} (hlooper : s.looper = .reading offset)
    {answer : Answer} (hanswer : SourceStep.Answers content offset answer)
    (hsteady : ∀ n, answer = .status n → s.mDisconnecting = true ∨ 0 < s.mNumRetriesLeft ∨
      ¬Misleading content s n) : Attended content (s.append answer) := by
  have hkeep : ∀ {mFinalStatus mNumRetriesLeft looper}, Near content { s with
      mCache := s.mCache, mCacheOffset := s.mCacheOffset, mFinalStatus, mFetching := s.mFetching,
      mNumRetriesLeft, looper } :=
    ⟨⟨hi.near.held.valid, hi.near.held.window⟩, hi.near.low, hi.near.high⟩
  have hstep : ∀ {mFinalStatus mNumRetriesLeft}, -2 ^ 31 ≤ mFinalStatus ∧ mFinalStatus ≤ 0 →
      ¬Stranded content { s with mFinalStatus, mNumRetriesLeft, looper := .fetched } →
      Attended content { s with mFinalStatus, mNumRetriesLeft, looper := .fetched } :=
    fun hstatus hattended => hi.fetch (Int.le_refl _) (Int.le_refl _) hkeep hstatus
      (fun _ h => by cases h) (.inr fun _ h => by cases h) (.inr hattended)
  rw [NuCachedSource2.append.eq_def]
  dsimp only
  split
  · next hdisconnecting =>
    exact hstep (by decide)
      fun hstranded => Bool.noConfusion (hdisconnecting.symm.trans hstranded.connected)
  · next hconnected =>
    cases answer with
    | status n =>
      obtain ⟨hge, hle, hatEnd⟩ := hanswer
      dsimp only
      split
      · next hzero =>
        -- the source has ended
        refine hstep (by decide) fun hstranded => ?_
        have hlength := hatEnd hzero
        rw [hi.target offset hlooper] at hlength
        rcases hstranded.misleading with heq | ⟨-, hlt⟩
        · exact absurd heq (by decide : ERROR_END_OF_STREAM ≠ -EAGAIN)
        · exact absurd hlength (Int.not_le.mpr hlt)
      · refine hstep ⟨hge, hle⟩ fun hstranded => ?_
        rcases (hsteady n rfl).resolve_left hconnected with hretries | hhonest
        · have hnone := hstranded.final.2
          dsimp only at hnone
          split at hnone
          · next hunsupported => exact not_misleading_unsupported hunsupported hstranded.misleading
          · omega
        · exact hhonest hstranded.misleading
    | bytes data =>
      obtain ⟨hne, -, hdata⟩ := hanswer
      obtain ⟨hvalid, o, ho, hlt, hwindow⟩ := hi.near.held
      -- the bytes are those behind the cache: its end has stayed
      have htarget : offset.toNat = o + s.mCache.contents.length := by
        have hsize := hvalid.size
        rw [hi.target offset hlooper, cacheEnd, ho]
        omega
      rw [htarget] at hdata
      have hcontents : (s.mCache.appendPage data).contents = s.mCache.contents ++ data :=
        List.flatten_concat
      have hgrown : s.cacheEnd ≤ s.mCacheOffset + (s.mCache.appendPage data).mTotalSize := by
        rw [cacheEnd, PageCache.appendPage]
        dsimp only
        omega
      refine hi.fetch (Int.le_refl _) hgrown ⟨⟨hvalid.appendPage hne, o, ho, hlt, ?_⟩, hi.near.low,
        Int.le_trans hi.near.high hgrown⟩ (by decide) (fun _ h => by cases h)
        (.inr fun _ h => by cases h) (.inr fun hstranded => hstranded.final.1 rfl)
      exact hcontents ▸ hwindow.append hdata

theorem afterFetch (hi : Attended content s) (hlooper : s.looper = .fetched)
    (hsteady : s.mDisconnecting = true ∨ 0 < s.mNumRetriesLeft ∨
      params.mDisconnectAtHighwatermark = false ∨
      ¬(s.mFetching ∧ s.mCache.mTotalSize ≥ params.mHighwaterThresholdBytes)) :
    Attended content (s.afterFetch params) := by
  have hattended : ¬Stranded content s := hi.attended.resolve_left (hlooper ▸ id)
  have hkeep : ∀ {mFinalStatus mFetching looper}, Near content { s with
      mCache := s.mCache, mCacheOffset := s.mCacheOffset, mFinalStatus, mFetching,
      mNumRetriesLeft := s.mNumRetriesLeft, looper } :=
    ⟨⟨hi.near.held.valid, hi.near.held.window⟩, hi.near.low, hi.near.high⟩
  have hstep : ∀ {mFinalStatus mFetching}, -2 ^ 31 ≤ mFinalStatus ∧ mFinalStatus ≤ 0 →
      ¬Stranded content { s with mFinalStatus, mFetching, looper := .idle } →
      Attended content { s with mFinalStatus, mFetching, looper := .idle } :=
    fun hstatus hattended => hi.fetch (Int.le_refl _) (Int.le_refl _) hkeep hstatus
      (fun _ h => by cases h) (.inr fun _ h => by cases h) (.inr hattended)
  have hsame : ∀ {mFetching}, ¬Stranded content { s with mFetching, looper := .idle } :=
    fun hstranded => hattended ⟨hstranded.connected, hstranded.final, hstranded.misleading⟩
  rw [NuCachedSource2.afterFetch]
  split
  · next hhigh =>
    split
    · next hdisconnects =>
      refine hstep (by decide) fun hstranded => ?_
      rcases hsteady with hdisconnecting | hretries | hstays | hlow
      · exact Bool.noConfusion (hdisconnecting.symm.trans hstranded.connected)
      · exact absurd hstranded.final.2 (Nat.ne_of_gt hretries)
      · exact Bool.noConfusion (hdisconnects.symm.trans hstays)
      · exact hlow hhigh
    · exact hstep hi.status hsame
  · exact hstep hi.status hsame

/-! ### Clients -/

/-- Nobody waits: the place of the last access may be another one in the window. -/
theorem access (hi : Attended content s) (hmessage : s.message = none)
    (hnone : s.mAsyncResult = none) (hdelivering : ∀ r, s.looper ≠ .delivering r)
    {mLastAccessPos : Int} (hlow : s.mCacheOffset ≤ mLastAccessPos)
    (hhigh : mLastAccessPos ≤ s.cacheEnd) {returned : Option Returned}
    (hreturned : ∀ r, returned = some r → Proper content s r) :
    Attended content { s with mLastAccessPos, returned } :=
  { hi with
    near := ⟨⟨hi.near.held.valid, hi.near.held.window⟩, hlow, hhigh⟩
    message := fun q hq => by cases hmessage.symm.trans hq
    delivering := fun r hr => absurd hr (hdelivering r)
    asyncResult := fun r hr => by cases hnone.symm.trans hr
    attended := hi.attended.imp_right fun hnot hstranded =>
      hnot ⟨hstranded.connected, hstranded.final, hstranded.misleading⟩
    returned := hreturned }

/-- Nobody but the client that has just called notices what is returned. -/
theorem setReturned (hi : Attended content s) {returned : Option Returned}
    (hreturned : ∀ r, returned = some r → Proper content s r) :
    Attended content { s with returned } :=
  { hi with
    near := ⟨⟨hi.near.held.valid, hi.near.held.window⟩, hi.near.low, hi.near.high⟩
    delivering := fun r hr =>
      let ⟨hsettled, hnone⟩ := hi.delivering r hr
      ⟨{ hsettled with }, hnone⟩
    asyncResult := fun r hr => { hi.asyncResult r hr with }
    attended := hi.attended.imp_right fun hnot hstranded =>
      hnot ⟨hstranded.connected, hstranded.final, hstranded.misleading⟩
    returned := hreturned }

theorem readAt (hi : Attended content s) (hcontent : content.length < 2 ^ 63)
    (hwaiting : s.waiting = none)
    (hrange : -2 ^ 63 ≤ request.offset ∧ request.offset < 2 ^ 63) (hlarge : request.size < 2 ^ 63)
    (hsteady : Hits s request ∨ request.size < resultLimit) (h : s.readAt request = some t) :
    Attended content t := by
  obtain ⟨hoffset, hend, hend_lt⟩ := hi.near.held.cacheEnd_lt hcontent
  rw [NuCachedSource2.readAt] at h
  split at h
  · next hdisconnecting =>
    obtain rfl := Option.some.inj h
    refine hi.setReturned ?_
    rintro r ⟨⟩
    exact fun _ => .inl hdisconnecting
  · next hconnected =>
    obtain ⟨hmessage, hnone, hdelivering⟩ := hi.waiting hwaiting (by simpa using hconnected)
    split at h
    · next hhits =>
      obtain ⟨data, -, rfl⟩ := Option.map_eq_some_iff.mp h
      have hsum : (toSize (request.offset + request.size) : Int) = request.offset + request.size :=
        toSize_of_nonneg (by omega) (by omega)
      refine hi.access hmessage hnone hdelivering (by omega) (by omega) ?_
      rintro r ⟨⟩
      intro heq
      have hneg : (request.size : Int) = -1011 := heq
      omega
    · next hmisses =>
      rw [hnone, if_neg (by decide)] at h
      obtain rfl := Option.some.inj h
      refine { hi with
        near := ⟨⟨hi.near.held.valid, hi.near.held.window⟩, hi.near.low, hi.near.high⟩
        message := ?_
        delivering := fun r hr => absurd hr (hdelivering r)
        asyncResult := fun r hr => by cases hr
        waiting := fun hwait => by cases hwait
        attended := hi.attended.imp_right fun hnot hstranded =>
          hnot ⟨hstranded.connected, hstranded.final, hstranded.misleading⟩ }
      rintro q ⟨⟩
      refine ⟨⟨hrange, hsteady.resolve_left hmisses⟩, ?_, .inr rfl, rfl⟩
      -- a request that misses ends behind the window or starts in front of it
      by_cases hbefore : request.offset < s.mCacheOffset
      · exact .inr hbefore
      · have hsum : (toSize (request.offset + request.size) : Int) = request.offset + request.size :=
          toSize_of_nonneg (by omega) (by omega)
        have hbehind : ¬(toSize (request.offset + request.size) : Int) ≤ s.cacheEnd :=
          fun hle => hmisses ⟨Int.not_lt.mp hbefore, hle⟩
        have hhigh := hi.near.high
        refine .inl ?_
        show s.mLastAccessPos ≤ _
        omega

theorem disconnect (hi : Attended content s) :
    Attended content { s with mDisconnecting := true } := by
  have hsettled : ∀ r, Settled content s r → Settled content { s with mDisconnecting := true } r :=
    fun r h => { h with waiting := .inl rfl, proper := fun _ => .inl rfl }
  exact { hi with
    near := ⟨⟨hi.near.held.valid, hi.near.held.window⟩, hi.near.low, hi.near.high⟩
    message := by
      intro q hq
      obtain ⟨hrange, hahead, -, hnone⟩ := hi.message q hq
      exact ⟨hrange, hahead, .inl rfl, hnone⟩
    delivering := by
      intro r hr
      obtain ⟨hold, hnone⟩ := hi.delivering r hr
      exact ⟨hsettled r hold, hnone⟩
    asyncResult := fun r hr => hsettled r (hi.asyncResult r hr)
    waiting := fun _ hconnected => by cases hconnected
    attended := .inr fun hstranded => by cases hstranded.connected
    returned := fun r hr _ => .inl rfl }

theorem wake (hi : Attended content s) (hwaiting : s.waiting = some request)
    (hdue : s.mAsyncResult.isSome ∨ s.mDisconnecting) :
    Attended content (s.wake request) := by
  rw [NuCachedSource2.wake]
  split
  · next hdisconnecting =>
    exact { hi with
      near := ⟨⟨hi.near.held.valid, hi.near.held.window⟩, hi.near.low, hi.near.high⟩
      message := by
        intro q hq
        obtain ⟨hrange, hahead, -, -⟩ := hi.message q hq
        exact ⟨hrange, hahead, .inl hdisconnecting, rfl⟩
      delivering := by
        intro r hr
        obtain ⟨hsettled, -⟩ := hi.delivering r hr
        exact ⟨{ hsettled with waiting := .inl hdisconnecting }, rfl⟩
      asyncResult := fun r hr => by cases hr
      waiting := fun _ hconnected => Bool.noConfusion (hdisconnecting.symm.trans hconnected)
      attended := .inr fun hstranded =>
        Bool.noConfusion (hdisconnecting.symm.trans hstranded.connected)
      returned := by
        rintro r ⟨⟩
        exact fun _ => .inl hdisconnecting }
  · next hconnected =>
    obtain ⟨r, hr⟩ := Option.isSome_iff_exists.mp (hdue.resolve_right hconnected)
    have hsettled := hi.asyncResult r hr
    have hrequest : r.request = request :=
      (Option.some.inj (hwaiting.symm.trans (hsettled.waiting.resolve_left hconnected))).symm
    have hdelivering : ∀ r', s.looper ≠ .delivering r' := by
      intro r' hr'
      cases (hi.delivering r' hr').2.symm.trans hr
    have hlow := hi.near.low
    have hhigh := hi.near.high
    have hidle : Attended content { s with mAsyncResult := none, waiting := none } :=
      { hi with
        near := ⟨⟨hi.near.held.valid, hi.near.held.window⟩, hlow, hhigh⟩
        message := fun q hq => by cases hsettled.message.symm.trans hq
        delivering := fun r' hr' => absurd hr' (hdelivering r')
        asyncResult := fun r hr => by cases hr
        waiting := fun _ _ => ⟨hsettled.message, rfl, hdelivering⟩
        attended := hi.attended.imp_right fun hnot hstranded =>
          hnot ⟨hstranded.connected, hstranded.final, hstranded.misleading⟩ }
    rw [hr]
    have haccess : ∀ position, (if r.result > 0 then request.offset + r.result
        else s.mLastAccessPos) = position → s.mCacheOffset ≤ position ∧ position ≤ s.cacheEnd := by
      rintro position rfl
      split
      · next hpos =>
        have hplace := hsettled.access hpos
        rw [hrequest] at hplace
        omega
      · exact ⟨hlow, hhigh⟩
    obtain ⟨hlow', hhigh'⟩ := haccess _ rfl
    refine hidle.access hsettled.message rfl hdelivering hlow' hhigh' ?_
    rintro r' ⟨⟩
    rw [← hrequest]
    exact hsettled.proper

/-! ### Reads by the looper -/

/-- What a read leaves behind: the prefetcher runs if it is deferred, and a result is one that the
client may have. -/
theorem readInternal (hi : Attended content s) (hcontent : content.length < 2 ^ 63)
    (hidle : s.looper = .idle)
    (hrange : -2 ^ 63 ≤ request.offset ∧ request.offset < 2 ^ 63) (hsize : request.size < resultLimit)
    (hahead : Ahead s request) {result : Int} {data : List Byte}
    (h : s.readInternal params request.offset request.size = some (t, result, data)) :
    Moves s t ∧ Near content t ∧ Ahead t request ∧ ¬Stranded content t ∧
      (result = -EAGAIN → t.mFetching = true) ∧
      (-2 ^ 31 ≤ result ∧ result < resultLimit) ∧
      (0 < result → t.mLastAccessPos ≤ request.offset + result ∧
        request.offset + result ≤ t.cacheEnd) ∧
      Proper content t ⟨request, result, data⟩ := by
  have hlimit : resultLimit = 4294966285 := rfl
  have hattended : ¬Stranded content s := hi.attended.resolve_left (hidle ▸ id)
  rcases hi.near.prepare hcontent hrange h with
    ⟨hdisconnecting, rfl, rfl⟩ | ⟨hconnected, hprepared, hread⟩
  · refine ⟨.refl t, hi.near, hahead, hattended, (fun heq => absurd heq (by decide)),
      ⟨by decide, by decide⟩, (fun hpos => absurd hpos (by decide)), fun _ => .inl hdisconnecting⟩
  · have hsame : t.mFinalStatus = s.mFinalStatus ∧ t.mDisconnecting = s.mDisconnecting := by
      obtain ⟨_, _, _, _, _, rfl⟩ := hprepared.moves
      exact ⟨rfl, rfl⟩
    have hhonest : t.Final → ¬Misleading content t t.mFinalStatus := by
      intro hfinal hmisleading
      obtain ⟨hfinal', hend⟩ := hprepared.final hfinal
      rw [Misleading, hsame.1, hend] at hmisleading
      exact hattended ⟨hconnected, hfinal', hmisleading⟩
    have hstatus := hi.status
    rw [← hsame.1] at hstatus
    refine ⟨hprepared.moves, hprepared.near, hprepared.ahead hahead,
      fun hstranded => hhonest hstranded.final hstranded.misleading, ?_⟩
    rcases hprepared.near.readCached hcontent hrange (by omega) hprepared.before
        (hprepared.ahead hahead) hread with
      ⟨hfinal, rfl, hplace⟩ | ⟨hnonneg, hle, hlow, hhigh⟩ | ⟨hmore, rfl⟩
    · refine ⟨fun heq => absurd (.inl heq) (hhonest hfinal), ⟨hstatus.1, by omega⟩,
        fun hpos => absurd hpos (Int.not_lt.mpr hstatus.2), fun heq => .inr fun hbelow => ?_⟩
      refine hhonest hfinal (.inr ⟨heq, ?_⟩)
      have hbelow : 0 ≤ request.offset ∧ request.offset < content.length := hbelow
      omega
    · refine ⟨fun heq => ?_, ⟨by omega, by omega⟩, fun _ => ⟨hlow, hhigh⟩, fun heq => ?_⟩
      · have hneg : result = -11 := heq
        omega
      · have hneg : result = -1011 := heq
        omega
    · exact ⟨fun _ => hprepared.fetching.resolve_right hmore, ⟨by decide, by decide⟩,
        (fun hpos => absurd hpos (by decide)),
        fun heq => absurd heq (by decide : -EAGAIN ≠ ERROR_END_OF_STREAM)⟩

theorem onRead (hi : Attended content s) (hcontent : content.length < 2 ^ 63)
    (hidle : s.looper = .idle) (hmessage : s.message = some request)
    (hreturned : s.returned = none) (h : s.onRead params request = some t) : Attended content t := by
  obtain ⟨⟨hrange, hsize⟩, hahead, hwaiting, hnone⟩ := hi.message request hmessage
  obtain ⟨⟨u, result, data⟩, hread, rfl⟩ := Option.map_eq_some_iff.mp h
  obtain ⟨hmoves, hnear, hahead', hattended, -, hresult, haccess, hproper⟩ :=
    hi.readInternal hcontent hidle hrange hsize hahead hread
  obtain ⟨_, _, _, _, _, rfl⟩ := hmoves
  dsimp only
  split
  · exact { hi with
      near := hnear
      target := fun offset hoffset => by cases hidle.symm.trans hoffset
      message := fun q hq => by
        obtain rfl := Option.some.inj (hmessage.symm.trans hq)
        exact ⟨⟨hrange, hsize⟩, hahead', hwaiting, hnone⟩
      delivering := fun r hr => by cases hidle.symm.trans hr
      asyncResult := fun r hr => by cases hnone.symm.trans hr
      attended := .inr hattended
      returned := fun r hr => by cases hreturned.symm.trans hr }
  · exact { hi with
      near := ⟨⟨hnear.held.valid, hnear.held.window⟩, hnear.low, hnear.high⟩
      target := fun offset hoffset => by cases hoffset
      message := fun q hq => by cases hq
      delivering := by
        rintro r ⟨⟩
        exact ⟨⟨rfl, hwaiting, hresult, haccess, hproper⟩, hnone⟩
      asyncResult := fun r hr => by cases hnone.symm.trans hr
      waiting := by
        intro hnobody hconnected
        rcases hwaiting with hdisconnecting | hsome
        · exact Bool.noConfusion (hdisconnecting.symm.trans hconnected)
        · cases hnobody.symm.trans hsome
      attended := .inr fun hstranded =>
        hattended ⟨hstranded.connected, hstranded.final, hstranded.misleading⟩
      returned := fun r hr => by cases hreturned.symm.trans hr }

/-- The result of a read as a number of 32 bits. -/
theorem toInt32_result {x : Int} (h : -2 ^ 31 ≤ x ∧ x < resultLimit) :
    toInt32 x = x ∨ -2 ^ 31 ≤ toInt32 x ∧ toInt32 x < ERROR_END_OF_STREAM := by
  have hlimit : resultLimit = 4294966285 := rfl
  have hstream : ERROR_END_OF_STREAM = -1011 := rfl
  by_cases hfits : x < 2 ^ 31
  · exact .inl (toInt32_of_fits ⟨h.1, hfits⟩)
  · rw [toInt32, BitVec.toInt_ofInt]
    have hcut : x.bmod (2 ^ 32) = x - 2 ^ 32 := by
      rw [← Int.sub_bmod_right]
      exact Int.bmod_eq_of_le (by omega) (by omega)
    omega

theorem deliver (hi : Attended content s) {r : Returned} (hlooper : s.looper = .delivering r)
    (hreturned : s.returned = none) (h : s.deliver r = some t) : Attended content t := by
  obtain ⟨hsettled, hnone⟩ := hi.delivering r hlooper
  have hattended : ¬Stranded content { s with looper := .idle } := by
    have hold : ¬Stranded content s := hi.attended.resolve_left (hlooper ▸ id)
    exact fun hstranded => hold ⟨hstranded.connected, hstranded.final, hstranded.misleading⟩
  have hidle : Attended content { s with looper := .idle } :=
    hi.fetch (Int.le_refl _) (Int.le_refl _)
      ⟨⟨hi.near.held.valid, hi.near.held.window⟩, hi.near.low, hi.near.high⟩ hi.status
      (fun _ h => by cases h) (.inr fun _ h => by cases h) (.inr hattended)
  rw [NuCachedSource2.deliver] at h
  split at h
  · exact Option.some.inj h ▸ hidle
  · next hconnected =>
    rw [hnone, if_neg (by decide)] at h
    obtain rfl := Option.some.inj h
    have hstream : ERROR_END_OF_STREAM = -1011 := rfl
    exact { hidle with
      near := ⟨⟨hi.near.held.valid, hi.near.held.window⟩, hi.near.low, hi.near.high⟩
      message := fun q hq => by cases hsettled.message.symm.trans hq
      delivering := fun r hr => by cases hr
      asyncResult := by
        rintro r' ⟨⟩
        rcases toInt32_result hsettled.range with heq | hcut
        · rw [heq]
          exact { hsettled with }
        · exact { hsettled with
            range := ⟨hcut.1, Int.lt_trans hcut.2 (by decide)⟩
            access := fun hpos => absurd hpos (Int.not_lt.mpr (by dsimp only; omega))
            proper := fun heq => absurd heq (Int.ne_of_lt hcut.2) }
      waiting := by
        intro hnobody _
        cases hnobody.symm.trans (hsettled.waiting.resolve_left hconnected)
      attended := .inr fun hstranded =>
        hattended ⟨hstranded.connected, hstranded.final, hstranded.misleading⟩
      returned := fun r hr => by cases hreturned.symm.trans hr }

end Attended

end NuCachedSource2

/-! ### Steps and runs -/

namespace SourceStep

open NuCachedSource2

variable {params : CacheParams} {content : List Byte} {s t : NuCachedSource2}

/-- A read that misses the cache has a result that is told from a status, and nothing makes the
prefetcher stop with a status that misleads: no answer of the source and no reconnection that is the
last one, and no disconnection of a source that has no retries left. -/
def Steady (params : CacheParams) (content : List Byte) (s : NuCachedSource2) : SourceStep → Prop
  | .readAt request => Hits s request ∨ request.size < resultLimit
  | .append (.status n) =>
    s.mDisconnecting = true ∨ 0 < s.mNumRetriesLeft ∨ ¬Misleading content s n
  | .reconnected err =>
    s.mDisconnecting = true ∨ err = OK ∨
      (err ≠ ERROR_UNSUPPORTED ∧ err ≠ -EPIPE ∧ 0 < s.mNumRetriesLeft) ∨
      ¬Misleading content s s.mFinalStatus
  | .afterFetch =>
    s.mDisconnecting = true ∨ 0 < s.mNumRetriesLeft ∨ params.mDisconnectAtHighwatermark = false ∨
      ¬(s.mFetching ∧ s.mCache.mTotalSize ≥ params.mHighwaterThresholdBytes)
  | _ => True

theorem attended_step (hi : Attended content s) (hcontent : content.length < 2 ^ 63) {a : SourceStep}
    (hdue : Due params content s a) (hsteady : Steady params content s a)
    (h : step params s a = some t) : Attended content t := by
  have hclear : Attended content { s with returned := none } :=
    hi.setReturned fun _ h => by cases h
  cases a with
  | readAt request =>
    obtain ⟨hwaiting, hrange, hlarge, -⟩ := hdue
    exact hclear.readAt hcontent hwaiting hrange hlarge hsteady h
  | wake =>
    obtain ⟨-, hready⟩ := hdue
    obtain ⟨request, hrequest, rfl⟩ := Option.map_eq_some_iff.mp h
    exact hclear.wake hrequest hready
  | resumeFetchingIfNecessary => exact Option.some.inj h ▸ hclear.restart hcontent params true
  | disconnect => exact Option.some.inj h ▸ hclear.disconnect
  | onFetch due => exact hclear.onFetch hcontent hdue h
  | reconnected err => exact Option.some.inj h ▸ hclear.reconnected hsteady
  | readSource => exact Option.some.inj h ▸ hclear.readSource
  | append answer =>
    obtain ⟨offset, hlooper, hanswer⟩ := hdue
    refine Option.some.inj h ▸ hclear.append hlooper hanswer ?_
    rintro n rfl
    exact hsteady
  | afterFetch => exact Option.some.inj h ▸ hclear.afterFetch hdue hsteady
  | onRead =>
    obtain ⟨hidle, -⟩ := hdue
    obtain ⟨request, hrequest, h⟩ := Option.bind_eq_some_iff.mp h
    exact hclear.onRead hcontent hidle hrequest rfl h
  | deliver =>
    obtain ⟨r, hr⟩ := hdue
    rw [step] at h
    dsimp only at h
    rw [hr] at h
    exact hclear.deliver hr rfl h

theorem attended_run (hcontent : content.length < 2 ^ 63)
    (hrun : (cachedSource params).Run
      (fun s a => Due params content s a ∧ Steady params content s a) s) : Attended content s := by
  refine hrun.invariant (Attended.init content params) ?_
  rintro s a s' hi ⟨hdue, hsteady⟩ hstep
  exact attended_step hi hcontent hdue hsteady hstep

/-- The prefetcher runs while a read is deferred, a restart that is not forced releases only what is far
in front of the last access, and the end of the stream is told in front of the end of the content only
to all. -/
theorem not_stranded (hcontent : content.length < 2 ^ 63)
    (hrun : (cachedSource params).Run
      (fun s a => Due params content s a ∧ Steady params content s a) s) :
    (∀ request t data, Due params content s .onRead → s.message = some request →
      s.readInternal params request.offset request.size = some (t, -EAGAIN, data) →
      t.mFetching = true) ∧
    (s.mCacheOffset ≤ s.mLastAccessPos ∧
      (toSize (s.mLastAccessPos - s.mCacheOffset) : Int) = s.mLastAccessPos - s.mCacheOffset ∧
      ∀ ignoreLowWaterThreshold position, s.mCacheOffset ≤ position →
        position < (s.restartPrefetcherIfNecessary_l params ignoreLowWaterThreshold false).mCacheOffset →
        position < s.mLastAccessPos - 1024 * 1024) ∧
    ∀ r, s.returned = some r → r.result = ERROR_END_OF_STREAM → 0 ≤ r.request.offset →
      r.request.offset < content.length → s.mDisconnecting = true := by
  have hi := attended_run hcontent hrun
  obtain ⟨hoffset, hend, hend_lt⟩ := hi.near.held.cacheEnd_lt hcontent
  have hlow := hi.near.low
  have hhigh := hi.near.high
  refine ⟨?_, ⟨hlow, toSize_of_nonneg (by omega) (by omega), ?_⟩, ?_⟩
  · rintro request t data ⟨hidle, -⟩ hmessage hread
    obtain ⟨⟨hrange, hsize⟩, hahead, -, -⟩ := hi.message request hmessage
    obtain ⟨-, -, -, -, hfetching, -⟩ := hi.readInternal hcontent hidle hrange hsize hahead hread
    exact hfetching rfl
  · intro ignoreLowWaterThreshold position hge hlt
    have hgrayArea : (kGrayArea : Int) = 1024 * 1024 := rfl
    rcases hi.near.restart hcontent params ignoreLowWaterThreshold with
      heq | ⟨mCache, mCacheOffset, heq, -, -, hgray, -, -⟩
    · rw [heq] at hlt
      omega
    · rw [heq] at hlt
      have hlt : position < mCacheOffset := hlt
      omega
  · intro r hr hstream hnonneg hbelow
    exact (hi.returned r hr hstream).resolve_right (not_not.mpr ⟨hnonneg, hbelow⟩)

/-- The marks of 0 and 1 kB, and a source to be disconnected. -/
def smallParams : CacheParams where
  mHighwaterThresholdBytes := 1024
  mLowwaterThresholdBytes := 0
  mDisconnectAtHighwatermark := true

def page : List Byte := List.replicate 1024 0

/-- The source that has been disconnected with its cache full, and could not be connected again for a
read behind the cache. -/
def lostSource : NuCachedSource2 where
  mFinalStatus := -EAGAIN
  mFetching := false
  mNumRetriesLeft := 0
  waiting := some ⟨1024, 1⟩
  message := some ⟨1024, 1⟩

theorem length_page : page.length = 1024 := List.length_replicate

/-- The cache is full, the source has been disconnected, and a client waits for a byte behind it. -/
theorem full_run : (cachedSource smallParams).Run
    (fun s a => Due smallParams (page ++ page) s a ∧ Steady smallParams (page ++ page) s a)
    { mCache := ⟨[page], 1024⟩, mFinalStatus := -EAGAIN, mFetching := false
      waiting := some ⟨1024, 1⟩, message := some ⟨1024, 1⟩ } := by
  have hfetching : (cachedSource smallParams).Run
      (fun s a => Due smallParams (page ++ page) s a ∧ Steady smallParams (page ++ page) s a)
      { looper := .fetching } :=
    .step (a := .onFetch false) .init ⟨rfl, trivial⟩ rfl
  have hreading : (cachedSource smallParams).Run
      (fun s a => Due smallParams (page ++ page) s a ∧ Steady smallParams (page ++ page) s a)
      { looper := .reading 0 } :=
    .step (a := .readSource) hfetching ⟨rfl, trivial⟩ rfl
  have hpage : PageCache.appendPage {} page = ⟨[page], 1024⟩ := by
    rw [PageCache.appendPage, length_page]
    rfl
  have hfetched : (cachedSource smallParams).Run
      (fun s a => Due smallParams (page ++ page) s a ∧ Steady smallParams (page ++ page) s a)
      { mCache := ⟨[page], 1024⟩, looper := .fetched } := by
    refine .step (a := .append (.bytes page)) hreading ⟨⟨0, rfl, ?_, ?_, ?_⟩, trivial⟩ ?_
    · exact List.ne_nil_of_length_pos (length_page ▸ by decide)
    · rw [length_page]
      decide
    · exact List.prefix_append page page
    · rw [← hpage]
      rfl
  have hfull : (cachedSource smallParams).Run
      (fun s a => Due smallParams (page ++ page) s a ∧ Steady smallParams (page ++ page) s a)
      { mCache := ⟨[page], 1024⟩, mFinalStatus := -EAGAIN, mFetching := false } :=
    .step (a := .afterFetch) hfetched ⟨rfl, .inr (.inl (by decide))⟩ rfl
  exact .step (a := .readAt ⟨1024, 1⟩) hfull
    ⟨⟨rfl, by decide, by decide, by decide⟩, .inr (by decide)⟩ rfl

/-- A read behind the full cache gives it up. -/
theorem readInternal_full (waiting message : Option Request) :
    NuCachedSource2.readInternal smallParams
      { mCache := ⟨[page], 1024⟩, mFinalStatus := -EAGAIN, mFetching := false, waiting, message } 1024 1
        = some ({ mFinalStatus := -EAGAIN, waiting, message }, -EAGAIN, []) := by
  have hreleased : PageCache.releaseFromStart ⟨[page], 1024⟩ 1024 = (⟨[], 0⟩, 1024) := by
    simp [PageCache.releaseFromStart, PageCache.releasePages, length_page]
  have hrestarted : NuCachedSource2.restartPrefetcherIfNecessary_l smallParams
      { mCache := ⟨[page], 1024⟩, mFinalStatus := -EAGAIN, mFetching := false, waiting, message,
        mLastAccessPos := 1024 } false true
        = { mCacheOffset := 1024, mFinalStatus := -EAGAIN, waiting, message, mLastAccessPos := 1024 } := by
    simp [restartPrefetcherIfNecessary_l, Final, toSize, hreleased, kMaxNumRetries]
  simp only [NuCachedSource2.readInternal]
  rw [if_neg (by decide), if_neg (by decide), if_pos (by decide : ¬false = true), hrestarted]
  rfl

theorem not_stranded_full : ∃ s t : NuCachedSource2, s.message = some ⟨1024, 1⟩ ∧ s.mFetching = false ∧
    s.readInternal smallParams 1024 1 = some (t, -EAGAIN, []) ∧ t.mFetching = true ∧
    s.mCacheOffset ≤ s.mLastAccessPos := by
  have hlength : (page ++ page).length < 2 ^ 63 := by
    rw [List.length_append, length_page]
    decide
  obtain ⟨hfetching, ⟨hlow, -, -⟩, -⟩ := not_stranded hlength full_run
  have hread := readInternal_full (some ⟨1024, 1⟩) (some ⟨1024, 1⟩)
  exact ⟨_, _, rfl, rfl, hread, hfetching ⟨1024, 1⟩ _ _ ⟨rfl, rfl⟩ rfl hread, hlow⟩

theorem lost_run : (cachedSource smallParams).Run (Due smallParams (page ++ page)) lostSource := by
  have hwaiting := full_run.mono fun s a h => h.1
  have hdeferred : (cachedSource smallParams).Run (Due smallParams (page ++ page))
      { mFinalStatus := -EAGAIN, waiting := some ⟨1024, 1⟩, message := some ⟨1024, 1⟩ } := by
    have hread : (cachedSource smallParams).step
        { mCache := ⟨[page], 1024⟩, mFinalStatus := -EAGAIN, mFetching := false
          waiting := some ⟨1024, 1⟩, message := some ⟨1024, 1⟩ } .onRead = some
        { mFinalStatus := -EAGAIN, waiting := some ⟨1024, 1⟩, message := some ⟨1024, 1⟩ } := by
      simp only [cachedSource, step, Option.bind_some, NuCachedSource2.onRead]
      rw [readInternal_full]
      rfl
    exact .step (a := .onRead) hwaiting ⟨rfl, rfl⟩ hread
  have hreconnecting : (cachedSource smallParams).Run (Due smallParams (page ++ page))
      { mFinalStatus := -EAGAIN, mNumRetriesLeft := 9, looper := .reconnecting
        waiting := some ⟨1024, 1⟩, message := some ⟨1024, 1⟩ } :=
    .step (a := .onFetch false) hdeferred rfl rfl
  have hfailed : (cachedSource smallParams).Run (Due smallParams (page ++ page))
      { mFinalStatus := -EAGAIN, mNumRetriesLeft := 0, looper := .fetched
        waiting := some ⟨1024, 1⟩, message := some ⟨1024, 1⟩ } :=
    .step (a := .reconnected (-EPIPE)) hreconnecting rfl rfl
  have hidle : (cachedSource smallParams).Run (Due smallParams (page ++ page))
      { mFinalStatus := -EAGAIN, mNumRetriesLeft := 0
        waiting := some ⟨1024, 1⟩, message := some ⟨1024, 1⟩ } :=
    .step (a := .afterFetch) hfailed rfl rfl
  exact .step (a := .onFetch false) hidle rfl rfl

/-- The read is deferred again and again: neither it nor the fetches change anything. -/
theorem stranded_lost : ∃ s, (cachedSource smallParams).Run (Due smallParams (page ++ page)) s ∧
    s.message = some ⟨1024, 1⟩ ∧ s.mFetching = false ∧
    s.readInternal smallParams 1024 1 = some (s, -EAGAIN, []) ∧
    step smallParams s .onRead = some s ∧ ∀ due, step smallParams s (.onFetch due) = some s := by
  refine ⟨lostSource, lost_run, rfl, rfl, rfl, rfl, fun due => ?_⟩
  cases due with
  | true => rfl
  | false => rfl

end SourceStep

end MediaFramework.DataSource
