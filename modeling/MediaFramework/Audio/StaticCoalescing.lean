import MediaFramework.Audio.StaticInvariant
import MediaFramework.Audio.StaticSequence

/-!
# Coalescing of static track updates

The state queue of a static track holds one element, so a poll of the server sees only the
latest state of the client. It then applies the last loop and the last position update, in
the order the client issued them, and nothing of the updates before.
-/

namespace MediaFramework.Audio

/-- An update of the client. -/
inductive Update
  | loop (loopStart loopEnd : Nat) (loopCount : BitVec 32)
  | position (pos : Nat)
  deriving DecidableEq

namespace Update

def isLoop : Update → Bool
  | loop .. => true
  | position _ => false

/-- The client drops arguments beyond 32 bits without a trace. -/
def accepted : Update → Bool
  | loop loopStart loopEnd _ => loopStart ≤ UINT32_MAX && loopEnd ≤ UINT32_MAX
  | position pos => pos ≤ UINT32_MAX

/-- A loop valid for the buffer or a loop count of zero, or a position in the buffer. -/
def Valid (mFrameCount : Nat) : Update → Prop
  | loop loopStart loopEnd loopCount => loopCount = 0 ∨ (-1 ≤ loopCount.toInt ∧
      loopStart < loopEnd ∧ loopEnd ≤ mFrameCount ∧ MIN_LOOP ≤ loopEnd - loopStart)
  | position pos => pos ≤ mFrameCount

/-- What an accepted update does to the state of the client. -/
def write (s : StaticAudioTrackState) : Update → StaticAudioTrackState
  | loop loopStart loopEnd loopCount =>
    { s with
      mLoopStart := BitVec.ofNat 32 loopStart
      mLoopEnd := BitVec.ofNat 32 loopEnd
      mLoopCount := loopCount
      mLoopSequence := incrementSequence s.mLoopSequence s.mPositionSequence }
  | position pos =>
    { s with
      mPosition := BitVec.ofNat 32 pos
      mPositionSequence := incrementSequence s.mPositionSequence s.mLoopSequence }

/-- Of updates listed latest first, the latest after the latest of the other kind. -/
def latestOf : List Update → List Update
  | [] => []
  | u :: before => (before.find? fun v => v.isLoop != u.isLoop).toList ++ [u]

/-- The last accepted loop and position updates, in the order they were issued. -/
def latest (us : List Update) : List Update := latestOf (us.filter accepted).reverse

theorem mem_of_mem_latest {us : List Update} {u : Update} (h : u ∈ latest us) :
    u ∈ us ∧ u.accepted = true := by
  rw [← List.mem_filter, ← List.mem_reverse]
  rw [latest] at h
  cases hr : (us.filter accepted).reverse with
  | nil =>
    rw [hr] at h
    cases h
  | cons v before =>
    rw [hr, latestOf, List.mem_append, Option.mem_toList, List.mem_singleton] at h
    rcases h with h | rfl
    · exact List.mem_cons_of_mem v (List.mem_of_find?_eq_some h)
    · exact List.mem_cons_self

end Update

/-- What the server plays: position and loop. -/
structure Playback where
  position : BitVec 32
  loopStart : BitVec 32
  loopEnd : BitVec 32
  loopCount : BitVec 32
  deriving DecidableEq

namespace Playback

variable (p : Playback)

def setLoop (loopStart loopEnd loopCount : BitVec 32) : Playback where
  position := if loopCount ≠ 0 ∧ loopEnd.toNat ≤ p.position.toNat then loopStart else p.position
  loopStart := loopStart
  loopEnd := loopEnd
  loopCount := loopCount

def setPosition (position : BitVec 32) : Playback :=
  { p with
    position := position
    loopCount := if p.loopCount ≠ 0 ∧ p.loopEnd.toNat ≤ position.toNat then 0 else p.loopCount }

/-- What the server makes of an update it sees by itself. -/
def apply : Update → Playback
  | .loop loopStart loopEnd loopCount =>
    p.setLoop (BitVec.ofNat 32 loopStart) (BitVec.ofNat 32 loopEnd) loopCount
  | .position pos => p.setPosition (BitVec.ofNat 32 pos)

end Playback

def StaticAudioTrackState.playback (s : StaticAudioTrackState) : Playback :=
  ⟨s.mPosition, s.mLoopStart, s.mLoopEnd, s.mLoopCount⟩

namespace StaticTrack

variable {mFrameCount : Nat} {t : StaticTrack} {s u : StaticAudioTrackState}

def issue (t : StaticTrack) : Update → StaticTrack
  | .loop loopStart loopEnd loopCount => t.setLoop loopStart loopEnd loopCount
  | .position pos => t.setBufferPosition pos

/-- The whole list, then one poll. -/
def pollOnce (mFrameCount : Nat) (t : StaticTrack) (us : List Update) : StaticTrack :=
  ((us.foldl issue t).pollPosition mFrameCount).2

/-- A poll after every update. -/
def pollAfterEach (mFrameCount : Nat) (t : StaticTrack) (us : List Update) : StaticTrack :=
  us.foldl (fun t u => ((t.issue u).pollPosition mFrameCount).2) t

/-- The server has seen everything the client has pushed. -/
structure InStep (t : StaticTrack) : Prop where
  loopSequence : t.client.mState.mLoopSequence = t.server.mState.mLoopSequence
  positionSequence : t.client.mState.mPositionSequence = t.server.mState.mPositionSequence
  mutator : t.client.mMutator.mSequence = t.cblk.mSingleStateQueue.mSequence
  observer : t.server.mObserver.mSequence = t.cblk.mSingleStateQueue.mSequence
  even : t.cblk.mSingleStateQueue.mSequence &&& 1 = 0

/-! ### The client -/

theorem getBufferPositionAndLoopCount_state (t : StaticTrack) :
    t.getBufferPositionAndLoopCount.client.mState = t.client.mState ∧
      t.getBufferPositionAndLoopCount.client.mMutator = t.client.mMutator ∧
      t.getBufferPositionAndLoopCount.cblk.mSingleStateQueue = t.cblk.mSingleStateQueue := by
  rw [getBufferPositionAndLoopCount]
  split
  · split <;> exact ⟨rfl, rfl, rfl⟩
  · exact ⟨rfl, rfl, rfl⟩

/-- The track after the state `s` has been pushed on top of `t`. -/
structure Pushed (t : StaticTrack) (s : StaticAudioTrackState) (t' : StaticTrack) : Prop where
  server : t'.server = t.server
  state : t'.client.mState = s
  mutator : t'.client.mMutator.mSequence = t.client.mMutator.mSequence + 1 + 1
  sequence : t'.cblk.mSingleStateQueue.mSequence = t'.client.mMutator.mSequence
  value : t'.cblk.mSingleStateQueue.mValue = s

theorem issue_of_not_accepted {u : Update} (hu : u.accepted = false) : t.issue u = t := by
  cases u with
  | loop loopStart loopEnd loopCount =>
    simp only [Update.accepted, Bool.and_eq_false_iff, decide_eq_false_iff_not, not_le] at hu
    rw [issue, setLoop, if_pos hu]
  | position pos =>
    simp only [Update.accepted, decide_eq_false_iff_not, not_le] at hu
    rw [issue, setBufferPosition, if_pos hu]

/-- Both updates end by pushing a state, with some snapshot of position and loop. -/
theorem pushState_pushed {q : StaticTrack} (hserver : q.server = t.server)
    (hstate : q.client.mState = s) (hmutator : q.client.mMutator = t.client.mMutator)
    (posLoop : StaticAudioTrackPosLoop) :
    Pushed t s { q with client.mPosLoop := posLoop }.pushState where
  server := hserver
  state := hstate
  mutator := by simp only [pushState, SingleStateQueue.push, hmutator]
  sequence := rfl
  value := hstate

theorem issue_pushed {u : Update} (hu : u.accepted = true) :
    Pushed t (u.write t.client.mState) (t.issue u) := by
  cases u with
  | loop loopStart loopEnd loopCount =>
    simp only [Update.accepted, Bool.and_eq_true, decide_eq_true_eq] at hu
    have hn : ¬(UINT32_MAX < loopStart ∨ UINT32_MAX < loopEnd) := by omega
    simp only [issue, setLoop, if_neg hn]
    obtain ⟨hs, hm, -⟩ := getBufferPositionAndLoopCount_state
      { t with client.mState := Update.write t.client.mState (.loop loopStart loopEnd loopCount) }
    refine pushState_pushed (t := t) ?_ ?_ ?_ _
    · exact getBufferPositionAndLoopCount_server _
    · exact hs
    · exact hm
  | position pos =>
    simp only [Update.accepted, decide_eq_true_eq] at hu
    have hn : ¬UINT32_MAX < pos := by omega
    simp only [issue, setBufferPosition, if_neg hn]
    split
    · obtain ⟨hs, hm, -⟩ := getBufferPositionAndLoopCount_state
        { t with client.mState := Update.write t.client.mState (.position pos) }
      refine pushState_pushed (t := t) ?_ ?_ ?_ _
      · exact getBufferPositionAndLoopCount_server _
      · exact hs
      · exact hm
    · exact ⟨rfl, rfl, rfl, rfl, rfl⟩

/-! ### The server -/

/-- The loop of a state is one the server accepts. -/
def LoopValid (mFrameCount : Nat) (u : StaticAudioTrackState) : Prop :=
  u.mLoopCount = 0 ∨ (-1 ≤ u.mLoopCount.toInt ∧ u.mLoopStart.toNat < u.mLoopEnd.toNat ∧
    u.mLoopEnd.toNat ≤ mFrameCount ∧ MIN_LOOP ≤ u.mLoopEnd.toNat - u.mLoopStart.toNat)

theorem updateStateWithLoop_eq (hne : s.mLoopSequence ≠ u.mLoopSequence)
    (hv : LoopValid mFrameCount u) (hs : s.mPosition.toNat ≤ mFrameCount) :
    updateStateWithLoop mFrameCount s u = some { s with
      mPosition := (s.playback.setLoop u.mLoopStart u.mLoopEnd u.mLoopCount).position
      mLoopCount := u.mLoopCount
      mLoopEnd := u.mLoopEnd
      mLoopStart := u.mLoopStart
      mLoopSequence := u.mLoopSequence } := by
  have hv' := hv
  rw [LoopValid] at hv'
  simp only [updateStateWithLoop, if_neg hne, hv', not_true, false_or, true_and]
  by_cases hw : u.mLoopCount ≠ 0 ∧ u.mLoopEnd.toNat ≤ s.mPosition.toNat
  · have hle : ¬mFrameCount < u.mLoopStart.toNat := by
      have := hv.resolve_left hw.1
      omega
    have hpos : (s.playback.setLoop u.mLoopStart u.mLoopEnd u.mLoopCount).position = u.mLoopStart :=
      if_pos hw
    simp only [if_pos hw, if_neg hle, hpos, BitVec.ofNat_toNat, BitVec.setWidth_eq]
  · have hle : ¬mFrameCount < s.mPosition.toNat := by omega
    have hpos : (s.playback.setLoop u.mLoopStart u.mLoopEnd u.mLoopCount).position = s.mPosition :=
      if_neg hw
    simp only [if_neg hw, if_neg hle, hpos, BitVec.ofNat_toNat, BitVec.setWidth_eq]

theorem updateStateWithPosition_eq (hne : s.mPositionSequence ≠ u.mPositionSequence)
    (hu : u.mPosition.toNat ≤ mFrameCount) :
    updateStateWithPosition mFrameCount s u = some { s with
      mLoopCount := (s.playback.setPosition u.mPosition).loopCount
      mPosition := u.mPosition
      mPositionSequence := u.mPositionSequence } := by
  have hle : ¬mFrameCount < u.mPosition.toNat := by omega
  simp only [updateStateWithPosition, if_neg hne, if_neg hle]
  rfl

theorem loopValid_write {v : Update} (hv : v.Valid mFrameCount) (ha : v.accepted = true)
    (hl : v.isLoop = true) : LoopValid mFrameCount (v.write s) := by
  cases v with
  | position pos => cases hl
  | loop loopStart loopEnd loopCount =>
    simp only [Update.accepted, Bool.and_eq_true, decide_eq_true_eq] at ha
    have hM : UINT32_MAX = 2^32 - 1 := rfl
    have hs : (BitVec.ofNat 32 loopStart).toNat = loopStart := by
      rw [BitVec.toNat_ofNat]
      omega
    have he : (BitVec.ofNat 32 loopEnd).toNat = loopEnd := by
      rw [BitVec.toNat_ofNat]
      omega
    simp only [LoopValid, Update.write, hs, he]
    exact hv

/-! ### Lists of updates, the latest first -/

/-- The state of the client after accepted updates. -/
def writes (s : StaticAudioTrackState) (rs : List Update) : StaticAudioTrackState :=
  rs.foldr (fun u s => u.write s) s

theorem writes_sequence (s : StaticAudioTrackState) (rs : List Update) :
    ((writes s rs).mLoopSequence, (writes s rs).mPositionSequence) =
      leaps (rs.map Update.isLoop) (s.mLoopSequence, s.mPositionSequence) := by
  induction rs with
  | nil => rfl
  | cons u rs ih =>
    have h₁ := congrArg Prod.fst ih
    have h₂ := congrArg Prod.snd ih
    simp only at h₁ h₂
    cases u with
    | loop loopStart loopEnd loopCount =>
      simp only [List.map_cons, Update.isLoop, leaps, ← ih]
      rfl
    | position pos =>
      simp only [List.map_cons, Update.isLoop, leaps, ← ih]
      rfl

theorem writes_position {rs : List Update} {pos : Nat}
    (h : rs.find? (fun v => v.isLoop != true) = some (.position pos)) :
    (writes s rs).mPosition = BitVec.ofNat 32 pos := by
  induction rs with
  | nil => cases h
  | cons u rs ih =>
    cases u with
    | loop loopStart loopEnd loopCount => exact ih (by simpa [Update.isLoop] using h)
    | position pos' =>
      have heq : pos' = pos := by simpa [Update.isLoop] using h
      rw [← heq]
      rfl

theorem writes_loop {rs : List Update} {loopStart loopEnd : Nat} {loopCount : BitVec 32}
    (h : rs.find? (fun v => v.isLoop != false) = some (.loop loopStart loopEnd loopCount)) :
    (writes s rs).mLoopStart = BitVec.ofNat 32 loopStart ∧
      (writes s rs).mLoopEnd = BitVec.ofNat 32 loopEnd ∧ (writes s rs).mLoopCount = loopCount := by
  induction rs with
  | nil => cases h
  | cons u rs ih =>
    cases u with
    | loop loopStart' loopEnd' loopCount' =>
      have heq : loopStart' = loopStart ∧ loopEnd' = loopEnd ∧ loopCount' = loopCount := by
        simpa [Update.isLoop] using h
      obtain ⟨rfl, rfl, rfl⟩ := heq
      exact ⟨rfl, rfl, rfl⟩
    | position pos => exact ih (by simpa [Update.isLoop] using h)

theorem find_eq_none_iff {rs : List Update} (b : Bool) :
    rs.find? (fun v => v.isLoop != !b) = none ↔ b ∉ rs.map Update.isLoop := by
  cases b <;> simp [List.find?_eq_none]

theorem position_applied {cl : StaticAudioTrackState} {rs : List Update}
    (hv : ∀ v ∈ rs, v.Valid mFrameCount ∧ v.accepted = true)
    (hdet : (writes cl rs).mPositionSequence = s.mPositionSequence ↔ false ∉ rs.map Update.isLoop) :
    ∃ s', updateStateWithPosition mFrameCount s (writes cl rs) = some s' ∧
      s'.playback = (rs.find? fun v => v.isLoop != true).toList.foldl Playback.apply s.playback ∧
      s'.mPositionSequence = (writes cl rs).mPositionSequence ∧
      s'.mLoopSequence = s.mLoopSequence := by
  cases hfind : rs.find? fun v => v.isLoop != true with
  | none =>
    have hsame := hdet.mpr ((find_eq_none_iff false).mp hfind)
    exact ⟨s, if_pos hsame.symm, rfl, hsame.symm, rfl⟩
  | some v =>
    have hne : s.mPositionSequence ≠ (writes cl rs).mPositionSequence := by
      intro hsame
      have hnone := (find_eq_none_iff false).mpr (hdet.mp hsame.symm)
      cases hnone.symm.trans hfind
    obtain ⟨hvalid, hacc⟩ := hv v (List.mem_of_find?_eq_some hfind)
    cases v with
    | loop loopStart loopEnd loopCount => exact absurd (List.find?_some hfind) (by simp [Update.isLoop])
    | position pos =>
      have hpos := writes_position (s := cl) hfind
      have hnat : (BitVec.ofNat 32 pos).toNat = pos := by
        simp only [Update.accepted, decide_eq_true_eq] at hacc
        have hM : UINT32_MAX = 2^32 - 1 := rfl
        rw [BitVec.toNat_ofNat]
        omega
      refine ⟨_, updateStateWithPosition_eq hne (by rw [hpos, hnat]; exact hvalid), ?_, rfl, rfl⟩
      rw [hpos]
      rfl

theorem loop_applied {cl : StaticAudioTrackState} {rs : List Update}
    (hs : s.mPosition.toNat ≤ mFrameCount)
    (hv : ∀ v ∈ rs, v.Valid mFrameCount ∧ v.accepted = true)
    (hdet : (writes cl rs).mLoopSequence = s.mLoopSequence ↔ true ∉ rs.map Update.isLoop) :
    ∃ s', updateStateWithLoop mFrameCount s (writes cl rs) = some s' ∧
      s'.playback = (rs.find? fun v => v.isLoop != false).toList.foldl Playback.apply s.playback ∧
      s'.mPositionSequence = s.mPositionSequence ∧
      s'.mLoopSequence = (writes cl rs).mLoopSequence := by
  cases hfind : rs.find? fun v => v.isLoop != false with
  | none =>
    have hsame := hdet.mpr ((find_eq_none_iff true).mp hfind)
    exact ⟨s, if_pos hsame.symm, rfl, rfl, hsame.symm⟩
  | some v =>
    have hne : s.mLoopSequence ≠ (writes cl rs).mLoopSequence := by
      intro hsame
      have hnone := (find_eq_none_iff true).mpr (hdet.mp hsame.symm)
      cases hnone.symm.trans hfind
    obtain ⟨hvalid, hacc⟩ := hv v (List.mem_of_find?_eq_some hfind)
    cases v with
    | position pos => exact absurd (List.find?_some hfind) (by simp [Update.isLoop])
    | loop loopStart loopEnd loopCount =>
      obtain ⟨h₁, h₂, h₃⟩ := writes_loop (s := cl) hfind
      have hlv : LoopValid mFrameCount (writes cl rs) := by
        have := loopValid_write (s := cl) hvalid hacc rfl
        simp only [LoopValid, Update.write] at this
        rw [LoopValid, h₁, h₂, h₃]
        exact this
      refine ⟨_, updateStateWithLoop_eq hne hlv hs, ?_, rfl, rfl⟩
      rw [h₁, h₂, h₃]
      rfl

/-- One poll applies the latest updates of each kind, in their order. -/
theorem tryUpdate_latest {cl : StaticAudioTrackState} {rs : List Update} (hp : Playable mFrameCount s)
    (hloop : cl.mLoopSequence = s.mLoopSequence)
    (hposition : cl.mPositionSequence = s.mPositionSequence)
    (hv : ∀ v ∈ rs, v.Valid mFrameCount ∧ v.accepted = true) (hne : rs ≠ [])
    (hlen : rs.length < INT32_MAX) :
    ∃ s', tryUpdate mFrameCount s (writes cl rs) = some s' ∧
      s'.playback = (Update.latestOf rs).foldl Playback.apply s.playback ∧
      s'.mLoopSequence = (writes cl rs).mLoopSequence ∧
      s'.mPositionSequence = (writes cl rs).mPositionSequence := by
  have hdet := leaps_detects (rs.map Update.isLoop) (cl.mLoopSequence, cl.mPositionSequence)
    (by simpa using hlen)
  rw [← writes_sequence] at hdet
  obtain ⟨hdl, hdp⟩ := hdet
  simp only [hloop, hposition] at hdl hdp
  -- the kind of the newest update has the sequence that is ahead, and is applied second
  cases rs with
  | nil => exact absurd rfl hne
  | cons u before =>
    cases u with
    | loop loopStart loopEnd loopCount =>
      have hah := (incrementSequence_ahead (writes cl before).mLoopSequence
        (writes cl before).mPositionSequence).1
      obtain ⟨s₁, h₁, hpl₁, hps₁, hls₁⟩ := position_applied hv hdp
      have hp₁ := updateStateWithPosition_playable hp h₁
      obtain ⟨s₂, h₂, hpl₂, hps₂, hls₂⟩ := loop_applied hp₁.position_le hv (by rwa [hls₁])
      refine ⟨s₂, ?_, ?_, hls₂, hps₂.trans hps₁⟩
      · rw [tryUpdate, if_neg, h₁, Option.bind_some, h₂]
        exact not_lt.mpr hah.le
      · rw [hpl₂, hpl₁]
        simp [Update.latestOf, Update.isLoop, List.foldl_append]
    | position pos =>
      have hah := (incrementSequence_ahead (writes cl before).mPositionSequence
        (writes cl before).mLoopSequence).2
      obtain ⟨s₁, h₁, hpl₁, hps₁, hls₁⟩ := loop_applied hp.position_le hv hdl
      obtain ⟨s₂, h₂, hpl₂, hps₂, hls₂⟩ := position_applied hv (by rwa [hps₁])
      refine ⟨s₂, ?_, ?_, hls₂.trans hls₁, hps₂⟩
      · rw [tryUpdate, if_pos, h₁, Option.bind_some, h₂]
        exact hah
      · rw [hpl₂, hpl₁]
        simp [Update.latestOf, Update.isLoop, List.foldl_append]

/-! ### Polling -/

/-- The track after accepted updates, the latest first. -/
structure Issued (t : StaticTrack) (rs : List Update) (t' : StaticTrack) : Prop where
  server : t'.server = t.server
  state : t'.client.mState = writes t.client.mState rs
  mutator : t'.client.mMutator.mSequence = t.client.mMutator.mSequence + BitVec.ofNat 32 (2 * rs.length)
  sequence : rs ≠ [] → t'.cblk.mSingleStateQueue.mSequence = t'.client.mMutator.mSequence
  value : rs ≠ [] → t'.cblk.mSingleStateQueue.mValue = t'.client.mState

theorem foldr_issue_issued {rs : List Update} (ha : ∀ u ∈ rs, u.accepted = true) :
    Issued t rs (rs.foldr (fun u t => t.issue u) t) := by
  induction rs with
  | nil => exact ⟨rfl, rfl, (BitVec.add_zero _).symm, fun h => absurd rfl h, fun h => absurd rfl h⟩
  | cons u rs ih =>
    have h := ih fun v hv => ha v (List.mem_cons_of_mem u hv)
    have hp := issue_pushed (t := rs.foldr (fun u t => t.issue u) t) (ha u List.mem_cons_self)
    refine ⟨hp.server.trans h.server, ?_, ?_, fun _ => hp.sequence, fun _ => ?_⟩
    · rw [List.foldr_cons, hp.state, h.state]
      rfl
    · have htwo : 2 * (u :: rs).length = 2 * rs.length + 1 + 1 := by
        rw [List.length_cons]
        omega
      rw [List.foldr_cons, hp.mutator, h.mutator, htwo, BitVec.ofNat_add, BitVec.ofNat_add,
        ← BitVec.add_assoc, ← BitVec.add_assoc]
      rfl
    · exact hp.value.trans hp.state.symm

theorem foldl_issue_filter (t : StaticTrack) (us : List Update) :
    us.foldl issue t = (us.filter Update.accepted).reverse.foldr (fun u t => t.issue u) t := by
  rw [List.foldr_reverse]
  induction us generalizing t with
  | nil => rfl
  | cons u us ih =>
    cases hu : u.accepted with
    | true => rw [List.filter_cons_of_pos hu, List.foldl_cons, List.foldl_cons, ih]
    | false =>
      rw [List.filter_cons_of_neg (by simp [hu]), List.foldl_cons, issue_of_not_accepted hu, ih]

theorem add_even {x : BitVec 32} (k : Nat) (h : x &&& 1 = 0) :
    (x + BitVec.ofNat 32 (2 * k)) &&& 1 = 0 := by
  have hx : x.toNat % 2 = 0 := by
    have := congrArg BitVec.toNat h
    simpa [Nat.and_one_is_mod] using this
  apply BitVec.eq_of_toNat_eq
  rw [BitVec.toNat_and, BitVec.toNat_add, BitVec.toNat_ofNat]
  change _ &&& 1 = 0
  rw [Nat.and_one_is_mod]
  omega

theorem add_ne_self {x : BitVec 32} {k : Nat} (hpos : 0 < k) (hk : k < 2^31) :
    x + BitVec.ofNat 32 (2 * k) ≠ x := by
  intro h
  have := congrArg BitVec.toNat h
  rw [BitVec.toNat_add, BitVec.toNat_ofNat] at this
  have := x.isLt
  omega

/-- A poll that finds a state it can apply. -/
theorem pollPosition_of_tryUpdate {t' : StaticTrack} {rs : List Update} {s' : StaticAudioTrackState}
    (hs : InStep t) (hi : Issued t rs t') (hne : rs ≠ []) (hlen : rs.length < 2^31)
    (htry : tryUpdate mFrameCount t.server.mState (writes t.client.mState rs) = some s')
    (hloop : s'.mLoopSequence = (writes t.client.mState rs).mLoopSequence)
    (hposition : s'.mPositionSequence = (writes t.client.mState rs).mPositionSequence) :
    (t'.pollPosition mFrameCount).2.server.mState = s' ∧
      InStep (t'.pollPosition mFrameCount).2 := by
  have hseq : t'.cblk.mSingleStateQueue.mSequence =
      t.cblk.mSingleStateQueue.mSequence + BitVec.ofNat 32 (2 * rs.length) := by
    rw [hi.sequence hne, hi.mutator, hs.mutator]
  have hobs : t'.cblk.mSingleStateQueue.mSequence ≠ t'.server.mObserver.mSequence := by
    rw [hseq, hi.server, hs.observer]
    exact add_ne_self (List.length_pos_iff.mpr hne) hlen
  have heven : t'.cblk.mSingleStateQueue.mSequence &&& 1 = 0 := by
    rw [hseq]
    exact add_even _ hs.even
  have hpoll : SingleStateQueue.poll t'.server.mObserver t'.cblk.mSingleStateQueue =
      some (t'.cblk.mSingleStateQueue.mValue, ⟨t'.cblk.mSingleStateQueue.mSequence⟩,
        { t'.cblk.mSingleStateQueue with mAck := t'.cblk.mSingleStateQueue.mSequence }) := by
    simp only [SingleStateQueue.poll, if_neg hobs, heven, ne_eq, not_true, if_false]
  have htry' : tryUpdate mFrameCount t'.server.mState t'.cblk.mSingleStateQueue.mValue = some s' := by
    rw [hi.server, hi.value hne, hi.state]
    exact htry
  simp only [pollPosition, hpoll, htry']
  refine ⟨rfl, ?_⟩
  exact {
    loopSequence := by
      change t'.client.mState.mLoopSequence = s'.mLoopSequence
      rw [hi.state, hloop]
    positionSequence := by
      change t'.client.mState.mPositionSequence = s'.mPositionSequence
      rw [hi.state, hposition]
    mutator := (hi.sequence hne).symm
    observer := rfl
    even := heven }

/-- One poll after a list of updates: the latest of each kind apply, and client and server are
in step again. -/
theorem pollOnce_spec (us : List Update) (hs : InStep t) (hp : Playable mFrameCount t.server.mState)
    (hv : ∀ u ∈ us, u.Valid mFrameCount) (hlen : us.length < INT32_MAX) :
    (pollOnce mFrameCount t us).server.mState.playback =
        (Update.latest us).foldl Playback.apply t.server.mState.playback ∧
      InStep (pollOnce mFrameCount t us) ∧
      Playable mFrameCount (pollOnce mFrameCount t us).server.mState := by
  have hM : INT32_MAX = 2^31 - 1 := rfl
  rw [pollOnce, foldl_issue_filter, Update.latest]
  have hmem : ∀ v ∈ (us.filter Update.accepted).reverse, v.Valid mFrameCount ∧ v.accepted = true := by
    intro v hv'
    rw [List.mem_reverse, List.mem_filter] at hv'
    exact ⟨hv v hv'.1, hv'.2⟩
  have hle : (us.filter Update.accepted).reverse.length ≤ us.length := by
    rw [List.length_reverse]
    exact List.length_filter_le _ _
  generalize (us.filter Update.accepted).reverse = rs at hmem hle
  by_cases hne : rs = []
  · -- nothing was pushed, so the poll finds nothing
    subst hne
    have hpoll : SingleStateQueue.poll t.server.mObserver t.cblk.mSingleStateQueue = none :=
      if_pos hs.observer.symm
    simp only [List.foldr_nil, pollPosition, hpoll]
    exact ⟨rfl, hs, hp⟩
  · have hi := foldr_issue_issued (t := t) fun v hv' => (hmem v hv').2
    obtain ⟨s', htry, hplay, hloop, hposition⟩ :=
      tryUpdate_latest hp hs.loopSequence hs.positionSequence hmem hne (by omega)
    obtain ⟨hstate, hin⟩ := pollPosition_of_tryUpdate hs hi hne (by omega) htry hloop hposition
    rw [hstate]
    exact ⟨hplay, hin, tryUpdate_playable hp htry⟩

theorem pollAfterEach_playback {us : List Update} (hs : InStep t)
    (hp : Playable mFrameCount t.server.mState)
    (hv : ∀ u ∈ us, u.Valid mFrameCount ∧ u.accepted = true) :
    (pollAfterEach mFrameCount t us).server.mState.playback =
      us.foldl Playback.apply t.server.mState.playback := by
  induction us generalizing t with
  | nil => rfl
  | cons u us ih =>
    have hu := hv u List.mem_cons_self
    have hone : Update.latest [u] = [u] := by simp [Update.latest, Update.latestOf, hu.2]
    obtain ⟨hplay, hs', hp'⟩ := pollOnce_spec [u] hs hp
      (fun v hv' => by rw [List.mem_singleton.mp hv']; exact hu.1) (by decide : 1 < INT32_MAX)
    have hrest := ih hs' hp' fun v hv' => hv v (List.mem_cons_of_mem u hv')
    rw [hplay, hone] at hrest
    exact hrest

/-- Pushing a list of updates and polling once gives what polling after each of the last loop
and the last position update gives. -/
theorem pollOnce_eq_pollAfterEach_latest (mFrameCount : Nat) (t : StaticTrack) (us : List Update)
    (hs : InStep t) (hp : Playable mFrameCount t.server.mState)
    (hv : ∀ u ∈ us, u.Valid mFrameCount) (hlen : us.length < 2^31 - 1) :
    (pollOnce mFrameCount t us).server.mState.playback =
      (pollAfterEach mFrameCount t (Update.latest us)).server.mState.playback := by
  rw [(pollOnce_spec us hs hp hv hlen).1, pollAfterEach_playback hs hp]
  intro u hu
  have hmem := Update.mem_of_mem_latest hu
  exact ⟨hv u hmem.1, hmem.2⟩

instance (mFrameCount : Nat) : (u : Update) → Decidable (u.Valid mFrameCount)
  | .loop .. => inferInstanceAs (Decidable (_ ∨ (_ ∧ _ ∧ _ ∧ _)))
  | .position _ => inferInstanceAs (Decidable (_ ≤ _))

theorem fresh_inStep (mFrameCount : Nat) : InStep (fresh mFrameCount) :=
  ⟨rfl, rfl, rfl, rfl, (by decide : (0 : BitVec 32) &&& 1 = 0)⟩

/-- A loop, a position beyond its end and one within. -/
def seekOutAndBack : List Update := [.loop 0 16 5, .position 20, .position 3]

theorem pollOnce_seekOutAndBack :
    Update.latest seekOutAndBack = [.loop 0 16 5, .position 3] ∧
      (pollOnce 32 (fresh 32) seekOutAndBack).server.mState.playback =
        (pollAfterEach 32 (fresh 32) (Update.latest seekOutAndBack)).server.mState.playback :=
  ⟨by decide, pollOnce_eq_pollAfterEach_latest 32 (fresh 32) seekOutAndBack (fresh_inStep 32)
    (fresh_playable 32) (by decide) (by decide)⟩

/-- Polled one by one, the position beyond the loop cancels the loop; coalesced, it is gone
before the server looks, and the loop plays. -/
theorem coalescing_skips_superseded :
    (∀ u ∈ seekOutAndBack, u.Valid 32) ∧
      (pollAfterEach 32 (fresh 32) seekOutAndBack).server.mState.playback = ⟨3, 0, 16, 0⟩ ∧
      (pollOnce 32 (fresh 32) seekOutAndBack).server.mState.playback = ⟨3, 0, 16, 5⟩ := by
  refine ⟨by decide, by decide, by decide⟩

end StaticTrack

end MediaFramework.Audio
