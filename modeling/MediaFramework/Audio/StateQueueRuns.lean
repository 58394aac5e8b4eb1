import MediaFramework.Audio.StateQueue
import Mathlib.Data.List.Infix

/-!
# State queue: runs

What the observer of a state queue gets from its mutator.
-/

namespace MediaFramework.Audio.StateQueue

variable {T : Type*} {s : State T} {h : History T}

/-! ### Slots of pushes -/

/-- The slot of the push with `i` pushes before it. -/
def slot (i : Nat) : Slot := ⟨i % kN, Nat.mod_lt _ (by decide)⟩

/-- What a pointer is that was set by the last of `n` pushes. -/
def slotOf : Nat → Option Slot
  | 0 => none
  | i + 1 => some (slot i)

theorem slot_inj {i j : Nat} (hle : i ≤ j) (hlt : j < i + 4) : slot i = slot j ↔ i = j := by
  rw [slot, slot, Fin.mk.injEq]
  simp only [kN]
  omega

theorem slotOf_inj {i j : Nat} (hle : i ≤ j) (hlt : j < i + 4) : slotOf i = slotOf j ↔ i = j := by
  cases i with
  | zero => cases j <;> simp [slotOf]
  | succ i =>
    cases j with
    | zero => omega
    | succ j =>
      rw [slotOf, slotOf, Option.some.injEq, slot_inj (by omega) (by omega)]
      omega

theorem prefix_concat {l l' : List T} {x : T} (h : l <+: l') (hget : l'[l.length]? = some x) :
    l ++ [x] <+: l' := by
  obtain ⟨rest, rfl⟩ := h
  rw [List.getElem?_append_right (Nat.le_refl _), Nat.sub_self] at hget
  cases rest with
  | nil => cases hget
  | cons y rest =>
    rw [List.getElem?_cons_zero, Option.some.injEq] at hget
    rw [hget]
    exact ⟨rest, by rw [List.append_assoc]; rfl⟩

theorem next_slot (i : Nat) :
    (if h : (slot i).val + 1 < kN then ⟨(slot i).val + 1, h⟩ else 0) = slot (i + 1) := by
  have hval : (slot i).val = i % 4 := rfl
  by_cases h : (slot i).val + 1 < kN
  · rw [dif_pos h]
    apply Fin.ext
    show (slot i).val + 1 = (i + 1) % 4
    simp only [kN] at h
    omega
  · rw [dif_neg h]
    apply Fin.ext
    show 0 = (i + 1) % 4
    simp only [kN] at h
    omega

/-! ### What holds between steps -/

/-- The states that the observer has acknowledged. -/
def acked (s : State T) (h : History T) : Nat :=
  match s.polling with
  | .returning _ => h.seen.length + 1
  | _ => h.seen.length

/-- Where the observer is: it takes at most one state at a time. -/
def PollingInv (s : State T) (h : History T) : Prop :=
  match s.polling with
  | .idle => True
  | .acking next => next = slotOf (h.seen.length + 1) ∧ h.pushed.length = h.seen.length + 1
  | .returning next => next = slotOf (h.seen.length + 1)

/-- Where the mutator is. -/
def PushingInv (s : State T) (h : History T) : Prop :=
  match s.pushing with
  | .idle => s.mStates s.mMutating = h.working
  | .waiting _ => s.mStates s.mMutating = h.working ∧ s.mIsDirty ∧
      s.mExpecting = slotOf h.pushed.length
  | .publishing _ => s.mStates s.mMutating = h.working ∧ s.mIsDirty
  | .copying _ => h.pushed.getLast? = some h.working ∧ s.mExpecting = slotOf h.pushed.length
  | .awaiting => s.mStates s.mMutating = h.working ∧ s.mExpecting = slotOf h.pushed.length

structure Inv (s : State T) (h : History T) : Prop where
  next : s.mNext = slotOf h.pushed.length
  ack : s.mAck = slotOf (acked s h)
  current : s.mCurrent = slotOf h.seen.length
  mutating : s.mMutating = slot h.pushed.length
  acked_le : acked s h ≤ h.pushed.length
  le_acked : h.pushed.length ≤ acked s h + 1
  expecting : s.mExpecting = slotOf h.pushed.length ∨
    s.mExpecting = none ∧ h.pushed.length = acked s h
  polling : PollingInv s h
  pushing : PushingInv s h
  publishing : ∀ block, s.pushing = .publishing block → h.pushed.length = acked s h
  mutation : s.mInMutation → s.pushing = .idle
  /-- The last three states pushed are in their slots. -/
  kept : ∀ i < h.pushed.length, h.pushed.length ≤ i + 3 → h.pushed[i]? = some (s.mStates (slot i))
  seen : h.seen <+: h.pushed
  pending : s.pushing ≠ .idle → s.result = none
  refused : ∀ block, s.result = some (block, false) → block = .BLOCK_NEVER ∧ s.mIsDirty
  taken : s.result = some (.BLOCK_UNTIL_ACKED, true) → h.pushed.length = acked s h

theorem inv_init (mStates : Slot → T) : Inv (queue mStates).init { working := mStates 0 } where
  next := rfl
  ack := rfl
  current := rfl
  mutating := rfl
  acked_le := Nat.le_refl _
  le_acked := Nat.zero_le _
  expecting := .inl rfl
  polling := trivial
  pushing := rfl
  publishing := fun _ hpushing => by cases hpushing
  mutation := fun hmutation => by cases hmutation
  kept := fun _ hlt => absurd hlt (Nat.not_lt_zero _)
  seen := List.nil_prefix
  pending := fun hidle => absurd rfl hidle
  refused := fun _ hresult => by cases hresult
  taken := fun hresult => by cases hresult

theorem seen_le_acked (s : State T) (h : History T) :
    h.seen.length ≤ acked s h ∧ acked s h ≤ h.seen.length + 1 := by
  rw [acked]
  split <;> omega

theorem record_seen (s : State T) (h : History T) (a : Action T) :
    (h.record s a).seen = h.seen ∨ ∃ x, (h.record s a).seen = h.seen ++ [x] := by
  cases a with
  | observer =>
    rw [History.record]
    split
    · exact .inr ⟨_, rfl⟩
    · exact .inl rfl
  | mutator =>
    rw [History.record]
    split <;> exact .inl rfl
  | _ => exact .inl rfl

namespace Inv

/-- A pointer that is not set says that everything has been acknowledged. -/
theorem acked_of_expecting (hi : Inv s h) (hnone : s.mExpecting = none) :
    h.pushed.length = acked s h := by
  rcases hi.expecting with hexpecting | ⟨-, hacked⟩
  · rw [hnone] at hexpecting
    have hzero : h.pushed.length = 0 := by
      cases hlength : h.pushed.length with
      | zero => rfl
      | succ n =>
        rw [hlength] at hexpecting
        cases hexpecting
    have hle := hi.acked_le
    omega
  · exact hacked

theorem expecting_of_ne (hi : Inv s h) (hsome : s.mExpecting ≠ none) :
    s.mExpecting = slotOf h.pushed.length := by
  rcases hi.expecting with hexpecting | ⟨hnone, -⟩
  · exact hexpecting
  · exact absurd hnone hsome

/-- The acknowledgement awaited is that of the last push. -/
theorem acked_of_ack (hi : Inv s h) (hexpecting : s.mExpecting = slotOf h.pushed.length)
    (hack : s.mAck = s.mExpecting) : h.pushed.length = acked s h := by
  have hlt := hi.le_acked
  rw [hi.ack, hexpecting, slotOf_inj hi.acked_le (by omega)] at hack
  exact hack.symm

/-! ### The observer -/

theorem poll (hi : Inv s h) (hidle : s.polling = .idle) : Inv s.poll h := by
  have hacked : acked s h = h.seen.length := by rw [acked, hidle]
  rw [State.poll]
  split
  · next hnext =>
    have hle := hi.acked_le
    have hlt := hi.le_acked
    have hlength : h.pushed.length = h.seen.length + 1 := by
      rw [hi.next, hi.current] at hnext
      have hne : h.pushed.length ≠ h.seen.length := fun heq => hnext (by rw [heq])
      omega
    have hsame : acked { s with polling := .acking s.mNext } h = acked s h := hacked.symm
    exact { hi with
      ack := by rw [hsame]; exact hi.ack
      acked_le := by rw [hsame]; exact hle
      le_acked := by rw [hsame]; exact hlt
      expecting := by rw [hsame]; exact hi.expecting
      polling := ⟨by rw [hi.next, hlength], hlength⟩
      publishing := by rw [hsame]; exact hi.publishing
      taken := by rw [hsame]; exact hi.taken }
  · exact hi

theorem ack_next (hi : Inv s h) {next : Option Slot} (hacking : s.polling = .acking next) :
    Inv (s.ack next) h := by
  have hacked : acked s h = h.seen.length := by rw [acked, hacking]
  have hacked' : acked (s.ack next) h = h.seen.length + 1 := rfl
  have hpolling := hi.polling
  rw [PollingInv, hacking] at hpolling
  obtain ⟨hnext, hlength⟩ := hpolling
  exact { hi with
    ack := by rw [hacked']; exact hnext
    acked_le := by omega
    le_acked := by omega
    expecting := hi.expecting.imp_right fun ⟨hnone, _⟩ => ⟨hnone, by omega⟩
    polling := hnext
    publishing := fun _ _ => by omega
    taken := fun _ => by omega }

theorem pollReturns (hi : Inv s h) {next : Option Slot} (hreturning : s.polling = .returning next) :
    Inv (s.pollReturns next) (h.record s .observer) := by
  have hacked : acked s h = h.seen.length + 1 := by rw [acked, hreturning]
  have hle := hi.acked_le
  have hlt := hi.le_acked
  have hnext : next = some (slot h.seen.length) := by
    have hpolling := hi.polling
    rw [PollingInv, hreturning] at hpolling
    exact hpolling
  have hrecord : h.record s .observer =
      { h with seen := h.seen ++ [s.mStates (slot h.seen.length)] } := by
    rw [History.record, hreturning, hnext]
  have hsame : acked (s.pollReturns next)
      { h with seen := h.seen ++ [s.mStates (slot h.seen.length)] } = acked s h := by
    rw [hacked, acked]
    exact List.length_append
  rw [hrecord]
  exact { hi with
    ack := by rw [hsame]; exact hi.ack
    current := by
      show next = slotOf (h.seen ++ _).length
      rw [hnext, List.length_append]
      rfl
    acked_le := by rw [hsame]; exact hle
    le_acked := by rw [hsame]; exact hlt
    expecting := by rw [hsame]; exact hi.expecting
    polling := trivial
    publishing := by rw [hsame]; exact hi.publishing
    seen := prefix_concat hi.seen (hi.kept _ (by omega) (by omega))
    taken := by rw [hsame]; exact hi.taken }

/-! ### The mutator -/

theorem slot_ne_mutating (hi : Inv s h) {i : Nat} (hlt : i < h.pushed.length)
    (hkept : h.pushed.length ≤ i + 3) : slot i ≠ s.mMutating := by
  rw [hi.mutating]
  intro heq
  rw [slot_inj (by omega) (by omega)] at heq
  omega

theorem kept_update (hi : Inv s h) (x : T) {i : Nat} (hlt : i < h.pushed.length)
    (hkept : h.pushed.length ≤ i + 3) :
    h.pushed[i]? = some (Function.update s.mStates s.mMutating x (slot i)) := by
  rw [Function.update_of_ne (hi.slot_ne_mutating hlt hkept)]
  exact hi.kept i hlt hkept

theorem begin (hi : Inv s h) (hidle : s.pushing = .idle) : Inv s.begin h :=
  { hi with mutation := fun _ => hidle }

theorem modify (hi : Inv s h) (hmutation : s.mInMutation) (write : T → T) :
    Inv (s.modify write) { h with working := write h.working } := by
  have hidle := hi.mutation hmutation
  have hworking := hi.pushing
  rw [PushingInv, hidle] at hworking
  exact { hi with
    pushing := by
      have hpushing : (s.modify write).pushing = .idle := hidle
      rw [PushingInv, hpushing]
      show Function.update s.mStates s.mMutating _ s.mMutating = write h.working
      rw [Function.update_self, hworking]
    kept := fun _ => hi.kept_update _ }

theorem finish (hi : Inv s h) (hmutation : s.mInMutation) (didModify : Bool) :
    Inv (s.finish didModify) h := by
  have hidle := hi.mutation hmutation
  rw [State.finish]
  split
  · exact { hi with
      pushing := by
        have hpushing := hi.pushing
        rw [PushingInv, hidle] at hpushing
        rw [PushingInv]
        simpa [hidle] using hpushing
      mutation := fun hfalse => by cases hfalse
      refused := fun block hresult => ⟨(hi.refused block hresult).1, rfl⟩ }
  · exact { hi with mutation := fun hfalse => by cases hfalse }

/-- What the end of `push` needs: the result of the call is not yet known. -/
theorem pushEnds (hi : Inv s h) (block : block_t) (hidle : s.pushing = .idle)
    (hmutation : ¬s.mInMutation) (hresult : s.result = none) : Inv (s.pushEnds block) h := by
  have hworking := hi.pushing
  rw [PushingInv, hidle] at hworking
  rw [State.pushEnds]
  split
  · next hawait =>
    exact { hi with
      pushing := ⟨hworking, hi.expecting_of_ne hawait.2⟩
      publishing := fun _ hpushing => by cases hpushing
      mutation := fun htrue => absurd htrue hmutation
      pending := fun _ => hresult }
  · next hreturn =>
    exact { hi with
      pushing := hworking
      publishing := fun _ hpushing => by cases hpushing
      mutation := fun _ => rfl
      pending := fun hpushing => absurd rfl hpushing
      refused := fun block hfalse => by cases hfalse
      taken := by
        intro htrue
        have hblock : block = .BLOCK_UNTIL_ACKED := congrArg Prod.fst (Option.some.inj htrue)
        have hnone : s.mExpecting = none := by
          by_contra hsome
          exact hreturn ⟨hblock, hsome⟩
        exact hi.acked_of_expecting hnone }

theorem push (hi : Inv s h) (block : block_t) (hidle : s.pushing = .idle)
    (hmutation : ¬s.mInMutation) : Inv (s.push block) h := by
  have hstart : Inv { s with result := none } h :=
    { hi with
      pending := fun _ => rfl
      refused := fun _ hresult => by cases hresult
      taken := fun hresult => by cases hresult }
  have hworking := hi.pushing
  rw [PushingInv, hidle] at hworking
  rw [State.push]
  dsimp only
  split
  · next hdirty =>
    split
    · next hsome =>
      exact { hstart with
        pushing := ⟨hworking, hdirty, hi.expecting_of_ne hsome⟩
        publishing := fun _ hpushing => by cases hpushing
        mutation := fun htrue => absurd htrue hmutation
        pending := fun _ => rfl }
    · next hnone =>
      rw [ne_eq, not_not] at hnone
      exact { hstart with
        pushing := ⟨hworking, hdirty⟩
        publishing := fun _ _ => hi.acked_of_expecting hnone
        mutation := fun htrue => absurd htrue hmutation
        pending := fun _ => rfl }
  · exact hstart.pushEnds block hidle hmutation rfl

theorem not_mutation (hi : Inv s h) (hbusy : s.pushing ≠ .idle) : ¬s.mInMutation :=
  fun htrue => hbusy (hi.mutation htrue)

theorem wait (hi : Inv s h) {block : block_t} (hwaiting : s.pushing = .waiting block) :
    Inv (s.wait block) h := by
  have hbusy : s.pushing ≠ .idle := by rw [hwaiting]; exact fun h => by cases h
  have hpushing := hi.pushing
  rw [PushingInv, hwaiting] at hpushing
  obtain ⟨hworking, hdirty, hexpecting⟩ := hpushing
  rw [State.wait]
  split
  · next hack =>
    exact { hi with
      pushing := ⟨hworking, hdirty⟩
      publishing := fun _ _ => hi.acked_of_ack hexpecting hack
      mutation := fun htrue => absurd htrue (hi.not_mutation hbusy)
      pending := fun _ => hi.pending hbusy }
  · split
    · next hblock =>
      exact { hi with
        pushing := hworking
        publishing := fun _ hpublishing => by cases hpublishing
        mutation := fun _ => rfl
        pending := fun hidle => absurd rfl hidle
        refused := fun _ hfalse =>
          ⟨(congrArg Prod.fst (Option.some.inj hfalse)).symm.trans hblock, hdirty⟩
        taken := fun htrue => by cases congrArg Prod.snd (Option.some.inj htrue) }
    · exact hi

theorem publish (hi : Inv s h) {block : block_t} (hpublishing : s.pushing = .publishing block) :
    Inv (s.publish block) (h.record s .mutator) := by
  have hbusy : s.pushing ≠ .idle := by rw [hpublishing]; exact fun h => by cases h
  have hacked := hi.publishing block hpublishing
  have hpushing := hi.pushing
  rw [PushingInv, hpublishing] at hpushing
  obtain ⟨hworking, hdirty⟩ := hpushing
  have hrecord : h.record s .mutator = { h with pushed := h.pushed ++ [h.working] } := by
    rw [History.record, hpublishing]
  have hlength : (h.pushed ++ [h.working]).length = h.pushed.length + 1 := List.length_append
  have hslot : some s.mMutating = slotOf (h.pushed ++ [h.working]).length := by
    rw [hlength, hi.mutating]
    rfl
  have hsame : acked (s.publish block) { h with pushed := h.pushed ++ [h.working] } = acked s h :=
    rfl
  rw [hrecord]
  exact { hi with
    next := hslot
    mutating := by
      show (if h : s.mMutating.val + 1 < kN then ⟨s.mMutating.val + 1, h⟩ else 0) = slot _
      rw [hlength, hi.mutating, next_slot]
    acked_le := by rw [hsame, hlength]; omega
    le_acked := by rw [hsame, hlength]; omega
    expecting := .inl hslot
    polling := by
      have hpolling := hi.polling
      have hkeeps : (s.publish block).polling = s.polling := rfl
      rw [PollingInv] at hpolling ⊢
      rw [hkeeps]
      rw [acked] at hacked
      cases hstate : s.polling with
      | idle => trivial
      | acking next =>
        rw [hstate] at hpolling hacked
        have hbehind := hpolling.2
        dsimp only at hacked
        omega
      | returning next =>
        rw [hstate] at hpolling
        exact hpolling
    pushing := ⟨List.getLast?_concat, hslot⟩
    publishing := fun _ hpublishing => by cases hpublishing
    mutation := fun htrue => absurd htrue (hi.not_mutation hbusy)
    kept := by
      intro i hlt hkept
      rw [hlength] at hlt hkept
      rcases Nat.lt_succ_iff_lt_or_eq.mp hlt with hlt | rfl
      · rw [List.getElem?_append_left hlt]
        exact hi.kept i hlt (by omega)
      · rw [List.getElem?_concat_length, ← hi.mutating]
        exact congrArg some hworking.symm
    seen := hi.seen.trans (List.prefix_append _ _)
    pending := fun _ => hi.pending hbusy
    taken := fun htrue => by cases (hi.pending hbusy).symm.trans htrue }

theorem copy (hi : Inv s h) {block : block_t} (hcopying : s.pushing = .copying block) :
    Inv (s.copy block) h := by
  have hbusy : s.pushing ≠ .idle := by rw [hcopying]; exact fun h => by cases h
  have hpushing := hi.pushing
  rw [PushingInv, hcopying] at hpushing
  obtain ⟨hlast, hexpecting⟩ := hpushing
  obtain ⟨before, hpushed⟩ := List.getLast?_eq_some_iff.mp hlast
  have hlength : h.pushed.length = before.length + 1 := by
    rw [hpushed, List.length_append]
    rfl
  -- the slot that was published holds what the mutator goes on with
  have hkept : s.mStates (slot before.length) = h.working := by
    have hget := hi.kept before.length (by omega) (by omega)
    rw [hpushed, List.getElem?_concat_length] at hget
    exact (Option.some.inj hget).symm
  rw [hlength] at hexpecting
  have hcopied : Inv { s with
      mStates := Function.update s.mStates s.mMutating (s.mStates (slot before.length))
      mIsDirty := false
      pushing := .idle } h :=
    { hi with
      pushing := by
        show Function.update s.mStates s.mMutating _ s.mMutating = h.working
        rw [Function.update_self, hkept]
      publishing := fun _ hpublishing => by cases hpublishing
      mutation := fun _ => rfl
      kept := fun _ => hi.kept_update _
      pending := fun hidle => absurd rfl hidle
      refused := fun _ hfalse => by cases (hi.pending hbusy).symm.trans hfalse }
  have hcopy : s.copy block = State.pushEnds { s with
      mStates := Function.update s.mStates s.mMutating (s.mStates (slot before.length))
      mIsDirty := false
      pushing := .idle } block := by
    rw [State.copy, hexpecting]
    rfl
  rw [hcopy]
  exact hcopied.pushEnds block rfl (hi.not_mutation hbusy) (hi.pending hbusy)

theorem await (hi : Inv s h) (hawaiting : s.pushing = .awaiting) : Inv s.await h := by
  have hpushing := hi.pushing
  rw [PushingInv, hawaiting] at hpushing
  obtain ⟨hworking, hexpecting⟩ := hpushing
  rw [State.await]
  split
  · next hack =>
    have hacked := hi.acked_of_ack hexpecting hack
    exact { hi with
      expecting := .inr ⟨rfl, hacked⟩
      pushing := hworking
      publishing := fun _ hpublishing => by cases hpublishing
      mutation := fun _ => rfl
      pending := fun hidle => absurd rfl hidle
      refused := fun _ hfalse => by cases congrArg Prod.snd (Option.some.inj hfalse)
      taken := fun _ => hacked }
  · exact hi

/-! ### Steps and runs -/

theorem step (hi : Inv s h) {a : Action T} {s' : State T} (hstep : StateQueue.step s a = some s') :
    Inv s' (h.record s a) := by
  cases a with
  | poll =>
    obtain ⟨hidle, ⟨⟩⟩ := Option.ite_none_right_eq_some.mp hstep
    exact hi.poll hidle
  | observer =>
    cases hpolling : s.polling with
    | idle => simp [StateQueue.step, hpolling] at hstep
    | acking next =>
      obtain rfl : s.ack next = s' := by simpa [StateQueue.step, hpolling] using hstep
      have hrecord : h.record s .observer = h := by rw [History.record, hpolling]
      rw [hrecord]
      exact hi.ack_next hpolling
    | returning next =>
      obtain rfl : s.pollReturns next = s' := by simpa [StateQueue.step, hpolling] using hstep
      exact hi.pollReturns hpolling
  | begin =>
    obtain ⟨⟨hidle, -⟩, ⟨⟩⟩ := Option.ite_none_right_eq_some.mp hstep
    exact hi.begin hidle
  | modify write =>
    obtain ⟨hmutation, ⟨⟩⟩ := Option.ite_none_right_eq_some.mp hstep
    exact hi.modify hmutation write
  | finish didModify =>
    obtain ⟨⟨hmutation, -⟩, ⟨⟩⟩ := Option.ite_none_right_eq_some.mp hstep
    exact hi.finish hmutation didModify
  | push block =>
    obtain ⟨⟨hidle, hmutation⟩, ⟨⟩⟩ := Option.ite_none_right_eq_some.mp hstep
    exact hi.push block hidle hmutation
  | mutator =>
    cases hpushing : s.pushing with
    | idle => simp [StateQueue.step, hpushing] at hstep
    | waiting block =>
      obtain rfl : s.wait block = s' := by simpa [StateQueue.step, hpushing] using hstep
      have hrecord : h.record s .mutator = h := by rw [History.record, hpushing]
      rw [hrecord]
      exact hi.wait hpushing
    | publishing block =>
      obtain rfl : s.publish block = s' := by simpa [StateQueue.step, hpushing] using hstep
      exact hi.publish hpushing
    | copying block =>
      obtain rfl : s.copy block = s' := by simpa [StateQueue.step, hpushing] using hstep
      have hrecord : h.record s .mutator = h := by rw [History.record, hpushing]
      rw [hrecord]
      exact hi.copy hpushing
    | awaiting =>
      obtain rfl : s.await = s' := by simpa [StateQueue.step, hpushing] using hstep
      have hrecord : h.record s .mutator = h := by rw [History.record, hpushing]
      rw [hrecord]
      exact hi.await hpushing

theorem run {mStates : Slot → T}
    (hrun : Machine.Run (recorded mStates) (fun _ _ => True) (s, h)) : Inv s h :=
  hrun.observe_invariant (inv_init mStates) fun _ _ _ _ hi _ hstep => hi.step hstep

/-- The slot that the observer holds. -/
theorem current_slot (hi : Inv s h) {i : Slot} (hcurrent : s.mCurrent = some i) :
    ∃ n, h.seen.length = n + 1 ∧ slot n = i ∧ n < h.pushed.length ∧ h.pushed.length ≤ n + 3 := by
  have hseen := seen_le_acked s h
  have hle := hi.acked_le
  have hlt := hi.le_acked
  rw [hi.current] at hcurrent
  cases hlength : h.seen.length with
  | zero =>
    rw [hlength] at hcurrent
    cases hcurrent
  | succ n =>
    rw [hlength] at hcurrent
    exact ⟨n, rfl, Option.some.inj hcurrent, by omega, by omega⟩

theorem current_ne_mutating (hi : Inv s h) : s.mCurrent ≠ some s.mMutating := by
  intro hcurrent
  obtain ⟨n, -, hslot, hlt, hkept⟩ := hi.current_slot hcurrent
  exact hi.slot_ne_mutating hlt hkept hslot

/-- The slot that the observer holds has the contents that were returned. -/
theorem current_contents (hi : Inv s h) {i : Slot} (hcurrent : s.mCurrent = some i) :
    h.seen.getLast? = some (s.mStates i) := by
  obtain ⟨n, hlength, rfl, hlt, hkept⟩ := hi.current_slot hcurrent
  have hget := hi.kept n hlt hkept
  obtain ⟨rest, hpushed⟩ := hi.seen
  rw [← hpushed, List.getElem?_append_left (by omega)] at hget
  rw [List.getLast?_eq_getElem?, hlength]
  exact hget

end Inv

/-- What the observer and the mutator can rely on, after any steps of the two. -/
theorem handoff (mStates : Slot → T)
    (hrun : Machine.Run (recorded mStates) (fun _ _ => True) (s, h)) :
    s.mCurrent ≠ some s.mMutating ∧
    (∀ a s', step s a = some s' → s'.mCurrent = s.mCurrent →
      ∀ i, s.mCurrent = some i → s'.mStates i = s.mStates i) ∧
    h.seen <+: h.pushed ∧
    (∀ block, s.pushing = .publishing block → s.mStates s.mMutating = h.working) ∧
    (∀ block, s.result = some (block, false) →
      block = .BLOCK_NEVER ∧ s.mIsDirty ∧ s.mStates s.mMutating = h.working) ∧
    (s.result = some (.BLOCK_UNTIL_ACKED, true) → HasPolled s h) := by
  have hi := Inv.run hrun
  refine ⟨hi.current_ne_mutating, ?_, hi.seen, ?_, ?_, ?_⟩
  · intro a s' hstep hsame i hcurrent
    have hi' := hi.step hstep
    have hbefore := hi.current_contents hcurrent
    have hafter := hi'.current_contents (hsame.trans hcurrent)
    have hseen : (h.record s a).seen = h.seen := by
      rcases record_seen s h a with hseen | ⟨x, hseen⟩
      · exact hseen
      · rw [hi'.current, hi.current, hseen, List.length_append] at hsame
        have hlength := (slotOf_inj (Nat.le_succ _) (by omega)).mp hsame.symm
        omega
    rw [hseen, hbefore] at hafter
    exact (Option.some.inj hafter).symm
  · intro block hpublishing
    have hpushing := hi.pushing
    rw [PushingInv, hpublishing] at hpushing
    exact hpushing.1
  · intro block hresult
    obtain ⟨hblock, hdirty⟩ := hi.refused block hresult
    have hidle : s.pushing = .idle := by
      by_contra hbusy
      cases (hi.pending hbusy).symm.trans hresult
    have hworking := hi.pushing
    rw [PushingInv, hidle] at hworking
    exact ⟨hblock, hdirty, hworking⟩
  · intro hresult
    have htaken := hi.taken hresult
    have hpolling := hi.polling
    rw [PollingInv] at hpolling
    rw [acked] at htaken
    rw [HasPolled]
    cases hstate : s.polling with
    | idle =>
      rw [hstate] at htaken
      exact htaken
    | acking next =>
      rw [hstate] at htaken
      exact htaken
    | returning next =>
      rw [hstate] at htaken hpolling
      refine ⟨?_, htaken⟩
      rw [hpolling, hi.next, htaken]

/-- A second push is refused while the observer has not returned from the poll of the first. -/
def refusal : List (Action Nat) :=
  [.begin, .modify (· + 5), .finish true, .push .BLOCK_NEVER, .mutator, .mutator, .poll, .begin,
    .modify (· + 1), .finish true, .push .BLOCK_NEVER, .mutator, .observer, .observer]

theorem handoff_refusal :
    ∃ (s : State Nat) (h : History Nat), s.mCurrent = some 0 ∧ s.mCurrent ≠ some s.mMutating ∧
      h.seen = [5] ∧ h.seen <+: h.pushed ∧ s.result = some (.BLOCK_NEVER, false) ∧ s.mIsDirty ∧
      s.mStates s.mMutating = 6 := by
  have hrun := Machine.Run.of_exec (recorded fun _ => 0) (fun _ _ => True) refusal rfl
  obtain ⟨hcurrent, -, hseen, -, hrefused, -⟩ := handoff (fun _ => 0) hrun
  obtain ⟨-, hdirty, hworking⟩ := hrefused .BLOCK_NEVER rfl
  exact ⟨_, _, rfl, hcurrent, rfl, hseen, rfl, hdirty, hworking⟩

end MediaFramework.Audio.StateQueue
