import MediaFramework.Audio.SingleStateQueue
import MediaFramework.Lib.Word
import Mathlib.Data.Fin.VecNotation

/-!
# What the observer and the mutator learn

The sequence number is a clock that has come to an even number at the end of each push. While it
stands still the contents do, too.
-/

namespace MediaFramework.Audio.SingleStateSteps

open SingleStateQueue

variable {n : Nat} {W : Type*}

theorem and_one_ne_zero_iff (b : Nat) : BitVec.ofNat 32 b &&& 1 ≠ 0 ↔ b % 2 = 1 := by
  have hmask : (1 : BitVec 32) = Word.lowMask 32 1 := rfl
  have hvalue := Word.and_lowMask_toNat (by decide : 1 ≤ 32) (BitVec.ofNat 32 b)
  rw [← hmask, BitVec.toNat_ofNat] at hvalue
  have hzero : (0 : BitVec 32).toNat = 0 := rfl
  rw [ne_eq, ← BitVec.toNat_inj, hvalue, hzero]
  omega

theorem ofNat_eq_iff {a b : Nat} (hle : a ≤ b) (hgap : b < a + 2 ^ 32) :
    BitVec.ofNat 32 b = BitVec.ofNat 32 a ↔ b = a := by
  rw [← BitVec.toNat_inj, BitVec.toNat_ofNat, BitVec.toNat_ofNat]
  omega

/-- A step of the loop of `poll` gives up, starts over, copies a word or is done. -/
theorem tryStep_cases (shared : Shared (Fin n → W)) (before : BitVec 32) (tries : Nat)
    (temp : List W) :
    tryStep shared before tries temp = .idle ∨
    tryStep shared before tries temp = .trying shared.mSequence (tries + 1) [] ∨
    (∃ h : temp.length < n, ¬before &&& 1 ≠ 0 ∧
      tryStep shared before tries temp =
        .trying before tries (temp ++ [shared.mValue ⟨temp.length, h⟩])) ∨
    (¬before &&& 1 ≠ 0 ∧ n ≤ temp.length ∧ shared.mSequence = before ∧
      tryStep shared before tries temp = .changed before temp) := by
  rw [tryStep]
  split
  · split
    · exact .inl rfl
    · exact .inr (.inl rfl)
  · next heven =>
    split
    · next hlt => exact .inr (.inr (.inl ⟨hlt, heven, rfl⟩))
    · next hge =>
      dsimp only
      split
      · next hsame => exact .inr (.inr (.inr ⟨heven, Nat.le_of_not_lt hge, hsame, rfl⟩))
      · split
        · exact .inl rfl
        · exact .inr (.inl rfl)

/-- The sequence number without its wrap. -/
def clock (s : State n W) (h : History n W) : Nat :=
  match s.pushing with
  | .idle => 2 * h.pushes.length
  | .storing _ _ => 2 * h.pushes.length - 1

/-- The contents are those of the last push, as far as they have been stored. -/
def Storing (shared : Shared (Fin n → W)) (mutator : Mutator) (pushes : List (Fin n → W)) :
    Pushing n W → Prop
  | .idle =>
    mutator.mSequence = BitVec.ofNat 32 (2 * pushes.length) ∧
      ∀ value, pushes.getLast? = some value → shared.mValue = value
  | .storing value stored =>
    mutator.mSequence + 1 + 1 = BitVec.ofNat 32 (2 * pushes.length) ∧
      pushes.getLast? = some value ∧ stored ≤ n ∧
      ∀ j : Fin n, j.val < stored → shared.mValue j = value j

/-- What the observer holds, where `p` is the number of the push it polled last. -/
def Observing (shared : Shared (Fin n → W)) (observer : Observer) (clock p : Nat)
    (called marked : Bool) : Polling W → Prop
  | .idle =>
    observer.mSequence = BitVec.ofNat 32 (2 * p) ∧
      shared.mAck = BitVec.ofNat 32 (2 * p + marked.toNat)
  | .trying before _ temp =>
    observer.mSequence = BitVec.ofNat 32 (2 * p) ∧
      shared.mAck = BitVec.ofNat 32 (2 * p + marked.toNat) ∧
      ∃ b, before = BitVec.ofNat 32 b ∧ 2 * p < b ∧ b ≤ clock ∧ temp.length ≤ n ∧
        (b = clock → clock % 2 = 0 → temp = (List.ofFn shared.mValue).take temp.length)
  | .changed before _ =>
    before = BitVec.ofNat 32 (2 * p) ∧ called = false ∧
      ∃ q d, q < p ∧ p < q + 2 ^ 30 ∧ d ≤ 1 ∧ shared.mAck = BitVec.ofNat 32 (2 * q + d)
  | .marking acked =>
    observer.mSequence = BitVec.ofNat 32 (2 * p) ∧ shared.mAck = BitVec.ofNat 32 (2 * p) ∧
      acked = BitVec.ofNat 32 (2 * p + 1) ∧ called = true ∧ marked = false

structure Inv (s : State n W) (h : History n W) : Prop where
  sequence : s.shared.mSequence = BitVec.ofNat 32 (clock s h)
  storing : Storing s.shared s.mutator h.pushes s.pushing
  observing : Observing s.shared s.observer (clock s h) h.polled h.called h.marked s.polling
  polled : 2 * h.polled ≤ clock s h
  near : h.pushes.length < h.polled + 2 ^ 30
  polls : ∀ poll ∈ h.polls, 0 < poll.1 ∧
    ∃ value, h.pushes[poll.1 - 1]? = some value ∧ poll.2 = List.ofFn value
  increasing : h.polls.Pairwise fun poll poll' => poll.1 < poll'.1
  last : ∀ poll ∈ h.polls, poll.1 ≤ h.polled
  unmarked : h.called = false → h.marked = false

theorem Observing.later {shared shared' : Shared (Fin n → W)} {observer : Observer}
    {now now' p : Nat} {called marked : Bool} {polling : Polling W}
    (h : Observing shared observer now p called marked polling) (hnow : now ≤ now')
    (hack : shared'.mAck = shared.mAck)
    (hvalue : now = now' → now % 2 = 0 → shared'.mValue = shared.mValue) :
    Observing shared' observer now' p called marked polling := by
  cases polling with
  | idle => rwa [Observing, hack]
  | trying before tries temp =>
    obtain ⟨hsequence, hacked, b, hbefore, hp, hb, hlength, htemp⟩ := h
    rw [← hack] at hacked
    refine ⟨hsequence, hacked, b, hbefore, hp, by omega, hlength, ?_⟩
    intro hstill heven
    have hsame : now = now' := by omega
    rw [hvalue hsame (by omega)]
    exact htemp (by omega) (by omega)
  | changed before temp => rwa [Observing, hack]
  | marking acked => rwa [Observing, hack]

namespace Inv

variable {s : State n W} {h : History n W}

theorem clock_idle (hidle : s.pushing = .idle) : clock s h = 2 * h.pushes.length := by
  rw [clock, hidle]

theorem clock_le (s : State n W) (h : History n W) : clock s h ≤ 2 * h.pushes.length := by
  rw [clock]
  split <;> omega

/-- A push starts. -/
theorem push (hinv : Inv s h) (hidle : s.pushing = .idle) (value : Fin n → W)
    (hnear : h.pushes.length + 1 < h.polled + 2 ^ 30) :
    Inv { s with shared.mSequence := s.mutator.mSequence + 1, pushing := .storing value 0 }
      { h with pushes := h.pushes ++ [value] } := by
  have hnow := clock_idle (h := h) hidle
  have hstoring := hinv.storing
  rw [hidle] at hstoring
  obtain ⟨hmutator, -⟩ := hstoring
  have hlength : (h.pushes ++ [value]).length = h.pushes.length + 1 := List.length_append
  have hlater : clock { s with
      shared.mSequence := s.mutator.mSequence + 1, pushing := .storing value 0 }
      { h with pushes := h.pushes ++ [value] } = clock s h + 1 := by
    rw [hnow, clock, hlength]
    dsimp only
    omega
  have hp := hinv.polled
  exact
    { sequence := by
        rw [hlater, hnow]
        show s.mutator.mSequence + 1 = _
        rw [hmutator, BitVec.ofNat_add]
        rfl
      storing := by
        refine ⟨?_, List.getLast?_concat, Nat.zero_le _, by omega⟩
        rw [hmutator, hlength, Nat.mul_add, BitVec.ofNat_add, BitVec.add_assoc]
        rfl
      observing := by
        rw [hlater]
        exact hinv.observing.later (Nat.le_succ _) rfl (by omega)
      polled := by
        rw [hlater]
        exact Nat.le_succ_of_le hp
      near := by
        rw [hlength]
        exact hnear
      polls := by
        intro poll hpoll
        obtain ⟨hpos, v, hv, htemp⟩ := hinv.polls poll hpoll
        refine ⟨hpos, v, ?_, htemp⟩
        rw [List.getElem?_append_left (List.getElem?_eq_some_iff.mp hv).1]
        exact hv
      increasing := hinv.increasing
      last := hinv.last
      unmarked := hinv.unmarked }

/-- A word is stored, or the even sequence number. -/
theorem store (hinv : Inv s h) {value : Fin n → W} {stored : Nat}
    (hpushing : s.pushing = .storing value stored) : Inv (storeStep s value stored) h := by
  have hnow : clock s h = 2 * h.pushes.length - 1 := by rw [clock, hpushing]
  have hstoring := hinv.storing
  rw [hpushing] at hstoring
  obtain ⟨hmutator, hlast, hle, hvalue⟩ := hstoring
  have hpos : 0 < h.pushes.length := by
    apply List.length_pos_iff.mpr
    rintro hnil
    rw [hnil] at hlast
    cases hlast
  have hp := hinv.polled
  rw [storeStep]
  split
  · next hlt =>
    have hsame : clock { s with
        shared.mValue := Function.update s.shared.mValue ⟨stored, hlt⟩ (value ⟨stored, hlt⟩)
        pushing := .storing value (stored + 1) } h = clock s h := by
      rw [hnow, clock]
    exact
      { sequence := by
          rw [hsame]
          exact hinv.sequence
        storing := by
          refine ⟨hmutator, hlast, hlt, ?_⟩
          intro j hj
          dsimp only
          by_cases heq : j = ⟨stored, hlt⟩
          · rw [heq, Function.update_self]
          · have hne : j.val ≠ stored := fun hval => heq (Fin.ext hval)
            rw [Function.update_of_ne heq]
            exact hvalue j (by omega)
        observing := by
          rw [hsame]
          -- the clock is odd here, so nobody relies on the contents
          exact hinv.observing.later le_rfl rfl (by omega)
        polled := by
          rw [hsame]
          exact hp
        near := hinv.near
        polls := hinv.polls
        increasing := hinv.increasing
        last := hinv.last
        unmarked := hinv.unmarked }
  · next hge =>
    have hlater : clock { s with
        shared.mSequence := s.mutator.mSequence + 1 + 1
        mutator := ⟨s.mutator.mSequence + 1 + 1⟩
        pushing := .idle } h = clock s h + 1 := by
      rw [hnow, clock]
      dsimp only
      omega
    exact
      { sequence := by
          rw [hlater, hnow, Nat.sub_add_cancel (by omega)]
          exact hmutator
        storing := by
          refine ⟨hmutator, ?_⟩
          intro v hv
          rw [hlast] at hv
          cases hv
          funext j
          exact hvalue j (by omega)
        observing := by
          rw [hlater]
          exact hinv.observing.later (Nat.le_succ _) rfl (by omega)
        polled := by
          rw [hlater]
          exact Nat.le_succ_of_le hp
        near := hinv.near
        polls := hinv.polls
        increasing := hinv.increasing
        last := hinv.last
        unmarked := hinv.unmarked }

/-- Only what the observer holds has changed. -/
theorem observe (hinv : Inv s h) (mAck : BitVec 32) {observer : Observer} {polling : Polling W}
    {called marked : Bool}
    (hobserving : Observing { s.shared with mAck } observer (clock s h) h.polled called marked
      polling)
    (hunmarked : called = false → marked = false) :
    Inv { s with shared.mAck := mAck, observer, polling } { h with called, marked } :=
  { sequence := hinv.sequence
    storing := by
      have hstoring := hinv.storing
      show Storing { s.shared with mAck } s.mutator h.pushes s.pushing
      cases hpushing : s.pushing with
      | idle =>
        rw [hpushing] at hstoring
        exact hstoring
      | storing value stored =>
        rw [hpushing] at hstoring
        exact hstoring
    observing := hobserving
    polled := hinv.polled
    near := hinv.near
    polls := hinv.polls
    increasing := hinv.increasing
    last := hinv.last
    unmarked := hunmarked }

theorem startPoll (hinv : Inv s h) (hidle : s.polling = .idle)
    (hchanged : s.shared.mSequence ≠ s.observer.mSequence) :
    Inv { s with polling := .trying s.shared.mSequence 0 [] } h := by
  have hobserving := hinv.observing
  rw [hidle] at hobserving
  obtain ⟨hsequence, hack⟩ := hobserving
  have hp := hinv.polled
  apply hinv.observe s.shared.mAck _ hinv.unmarked
  refine ⟨hsequence, hack, clock s h, hinv.sequence, ?_, le_rfl, Nat.zero_le _, fun _ _ => rfl⟩
  by_contra hle
  apply hchanged
  rw [hinv.sequence, hsequence]
  congr 1
  omega

/-- The number is still the one that was loaded first: nothing has been pushed since. -/
theorem matched (hinv : Inv s h) {before : BitVec 32} {tries : Nat} {temp : List W}
    (hpolling : s.polling = .trying before tries temp) (heven : ¬before &&& 1 ≠ 0)
    (hfull : n ≤ temp.length) (hsame : s.shared.mSequence = before) :
    s.pushing = .idle ∧ h.polled < h.pushes.length ∧
      before = BitVec.ofNat 32 (2 * h.pushes.length) ∧
      ∃ value, h.pushes.getLast? = some value ∧ temp = List.ofFn value := by
  have hobserving := hinv.observing
  rw [hpolling] at hobserving
  obtain ⟨-, -, b, rfl, hp, hb, hlength, htemp⟩ := hobserving
  have hle := clock_le s h
  have hnear := hinv.near
  rw [hinv.sequence, ofNat_eq_iff hb (by omega)] at hsame
  rw [and_one_ne_zero_iff] at heven
  have htemp := htemp hsame.symm (by omega)
  have hstoring := hinv.storing
  rw [clock] at hsame
  cases hpushing : s.pushing with
  | storing value stored =>
    rw [hpushing] at hsame
    dsimp only at hsame
    omega
  | idle =>
    rw [hpushing] at hsame hstoring
    dsimp only at hsame
    obtain ⟨-, hvalue⟩ := hstoring
    have hne : h.pushes ≠ [] := by
      rintro hnil
      rw [hnil, List.length_nil] at hsame
      omega
    have hlast := List.getLast?_eq_some_getLast hne
    refine ⟨rfl, by omega, by rw [hsame], _, hlast, ?_⟩
    rw [← hvalue _ hlast, htemp]
    apply List.take_of_length_le
    rw [List.length_ofFn]
    exact hfull

theorem polled_concat (h : History n W) (k : Nat) (temp : List W) :
    { h with polls := h.polls ++ [(k, temp)], called := false, marked := false }.polled = k := by
  rw [History.polled, List.getLast?_concat]

/-- A poll is successful. -/
theorem change (hinv : Inv s h) {before : BitVec 32} {tries : Nat} {temp : List W}
    (hpolling : s.polling = .trying before tries temp) (heven : ¬before &&& 1 ≠ 0)
    (hfull : n ≤ temp.length) (hsame : s.shared.mSequence = before) :
    Inv { s with polling := .changed before temp }
      { h with polls := h.polls ++ [(h.completed s, temp)], called := false, marked := false } := by
  obtain ⟨hidle, hlater, hbefore, value, hlast, htemp⟩ := hinv.matched hpolling heven hfull hsame
  have hcompleted : h.completed s = h.pushes.length := by rw [History.completed, hidle]
  have hobserving := hinv.observing
  rw [hpolling] at hobserving
  obtain ⟨-, hack, -⟩ := hobserving
  have hpolled := polled_concat h h.pushes.length temp
  have hnear := hinv.near
  rw [hcompleted]
  exact
    { sequence := hinv.sequence
      storing := hinv.storing
      observing := by
        rw [hpolled]
        refine ⟨hbefore, rfl, h.polled, h.marked.toNat, hlater, hnear, ?_, hack⟩
        cases h.marked <;> decide
      polled := by
        rw [hpolled]
        exact (clock_idle hidle).ge
      near := by
        rw [hpolled]
        show h.pushes.length < _
        omega
      polls := by
        intro poll hpoll
        obtain hpoll | hpoll := List.mem_append.mp hpoll
        · exact hinv.polls poll hpoll
        · obtain rfl := List.mem_singleton.mp hpoll
          refine ⟨by dsimp only; omega, value, ?_, htemp⟩
          rw [← hlast, List.getLast?_eq_getElem?]
      increasing := by
        apply List.pairwise_append.mpr
        refine ⟨hinv.increasing, List.pairwise_singleton _ _, ?_⟩
        intro poll hpoll poll' hpoll'
        obtain rfl := List.mem_singleton.mp hpoll'
        have hle := hinv.last poll hpoll
        exact Nat.lt_of_le_of_lt hle hlater
      last := by
        intro poll hpoll
        rw [hpolled]
        obtain hpoll | hpoll := List.mem_append.mp hpoll
        · have hle := hinv.last poll hpoll
          omega
        · obtain rfl := List.mem_singleton.mp hpoll
          exact le_rfl
      unmarked := fun _ => rfl }

/-- What a step of the observer does to the history. -/
theorem observer (hinv : Inv s h) {s' : State n W} (hstep : step s .observer = some s') :
    Inv s' (h.record s .observer) := by
  have hobserving := hinv.observing
  rw [step] at hstep
  rw [History.record]
  cases hpolling : s.polling with
  | idle =>
    rw [hpolling] at hstep
    cases hstep
  | trying before tries temp =>
    rw [hpolling] at hstep hobserving
    obtain ⟨hsequence, hack, b, hbefore, hp, hb, hlength, htemp⟩ := hobserving
    cases hstep
    dsimp only
    obtain htry | htry | ⟨hlt, heven, htry⟩ | ⟨heven, hfull, hsame, htry⟩ :=
      tryStep_cases s.shared before tries temp
    · rw [htry]
      exact hinv.observe s.shared.mAck ⟨hsequence, hack⟩ hinv.unmarked
    · rw [htry]
      apply hinv.observe s.shared.mAck _ hinv.unmarked
      exact ⟨hsequence, hack, clock s h, hinv.sequence, by omega, le_rfl, Nat.zero_le _,
        fun _ _ => rfl⟩
    · rw [htry]
      apply hinv.observe s.shared.mAck _ hinv.unmarked
      refine ⟨hsequence, hack, b, hbefore, hp, hb, ?_, ?_⟩
      · rw [List.length_append, List.length_singleton]
        exact hlt
      · intro hstill hnow
        have htemp := htemp hstill hnow
        rw [List.length_append, List.length_singleton, List.take_succ_eq_append_getElem
          (by rw [List.length_ofFn]; exact hlt), List.getElem_ofFn, ← htemp]
    · rw [htry]
      exact hinv.change hpolling heven hfull hsame
  | changed before temp =>
    rw [hpolling] at hstep hobserving
    obtain ⟨hbefore, hcalled, -⟩ := hobserving
    cases hstep
    dsimp only
    apply hinv.observe before _ hinv.unmarked
    refine ⟨hbefore, ?_⟩
    rw [hinv.unmarked hcalled]
    exact hbefore
  | marking acked =>
    rw [hpolling] at hstep hobserving
    obtain ⟨hsequence, -, hack, hcalled, -⟩ := hobserving
    cases hstep
    dsimp only
    refine hinv.observe acked ?_ ?_
    · exact ⟨hsequence, hack⟩
    · intro hnot
      rw [hcalled] at hnot
      cases hnot

/-- Every step that the contract allows keeps the invariant. -/
theorem step {a : Action n W} {s' : State n W} (hinv : Inv s h) (hok : Allowed (s, h) a)
    (hstep : SingleStateSteps.step s a = some s') : Inv s' (h.record s a) := by
  cases a with
  | observer => exact hinv.observer hstep
  | push value =>
    cases hpushing : s.pushing with
    | idle =>
      rw [SingleStateSteps.step, hpushing] at hstep
      cases hstep
      exact hinv.push hpushing value hok
    | storing value stored =>
      rw [SingleStateSteps.step, hpushing] at hstep
      cases hstep
  | mutator =>
    cases hpushing : s.pushing with
    | idle =>
      rw [SingleStateSteps.step, hpushing] at hstep
      cases hstep
    | storing value stored =>
      rw [SingleStateSteps.step, hpushing] at hstep
      cases hstep
      exact hinv.store hpushing
  | poll =>
    cases hpolling : s.polling with
    | idle =>
      rw [SingleStateSteps.step, hpolling] at hstep
      cases hstep
      split
      · exact hinv
      · next hchanged => exact hinv.startPoll hpolling hchanged
    | _ =>
      rw [SingleStateSteps.step, hpolling] at hstep
      cases hstep
  | done =>
    cases hpolling : s.polling with
    | idle =>
      rw [SingleStateSteps.step, hpolling] at hstep
      cases hstep
      have hobserving := hinv.observing
      rw [hpolling] at hobserving
      obtain ⟨hsequence, hack⟩ := hobserving
      have hmarked := hinv.unmarked hok
      rw [hmarked, Bool.toNat_false, Nat.add_zero] at hack
      apply hinv.observe s.shared.mAck _ (fun h => by cases h)
      exact ⟨hsequence, hack, by rw [hack, BitVec.ofNat_add]; rfl, rfl, hmarked⟩
    | _ =>
      rw [SingleStateSteps.step, hpolling] at hstep
      cases hstep

theorem init (mValue : Fin n → W) : Inv (queue mValue).init {} where
  sequence := rfl
  storing := ⟨rfl, fun _ h => by cases h⟩
  observing := ⟨rfl, rfl⟩
  polled := Nat.zero_le _
  near := by
    show 0 < 0 + 2 ^ 30
    decide
  polls := fun _ h => by cases h
  increasing := .nil
  last := fun _ h => by cases h
  unmarked := fun _ => rfl

end Inv

/-- The queue together with its history. -/
def watched (mValue : Fin n → W) : Machine (State n W × History n W) (Action n W) :=
  (queue mValue).observe {} fun s h a => h.record s a

theorem run_inv {mValue : Fin n → W} {sh : State n W × History n W}
    (hrun : (watched mValue).Run Allowed sh) : Inv sh.1 sh.2 := by
  apply Machine.Run.observe_invariant (Inv.init mValue) _ hrun
  intro s h a s' hinv hok hstep
  exact hinv.step hok hstep

/-! ### What is learnt -/

/-- The status that the mutator sees when `q` was the last push to be acknowledged. -/
theorem ack_eq {m : Mutator} {shared : Shared (Fin n → W)} {q d k : Nat}
    (hm : m.mSequence = BitVec.ofNat 32 (2 * k)) (hack : shared.mAck = BitVec.ofNat 32 (2 * q + d))
    (hd : d ≤ 1) (hq : q ≤ k) (hgap : k < q + 2 ^ 31) :
    SingleStateQueue.ack m shared =
      if q = k then (if d = 1 then .SSQ_DONE else .SSQ_READ) else .SSQ_PENDING := by
  have hmask : (1 : BitVec 32) = Word.lowMask 32 1 := rfl
  have hdiffer : (shared.mAck - m.mSequence) &&& ~~~1 ≠ 0 ↔ q ≠ k := by
    have hvalue := Word.and_not_lowMask_toNat (by decide : 1 ≤ 32) (shared.mAck - m.mSequence)
    have hzero : (0 : BitVec 32).toNat = 0 := rfl
    rw [← hmask, BitVec.toNat_sub, hm, hack, BitVec.toNat_ofNat, BitVec.toNat_ofNat] at hvalue
    rw [hm, hack, ne_eq, ← BitVec.toNat_inj, hvalue, hzero]
    omega
  have hodd : shared.mAck &&& 1 ≠ 0 ↔ d = 1 := by
    rw [hack, and_one_ne_zero_iff]
    omega
  rw [SingleStateQueue.ack]
  by_cases heq : q = k
  · rw [if_neg (fun h => hdiffer.mp h heq), if_pos heq]
    by_cases hdone : d = 1
    · rw [if_pos (hodd.mpr hdone), if_pos hdone]
    · rw [if_neg (fun h => hdone (hodd.mp h)), if_neg hdone]
  · rw [if_pos (hdiffer.mpr heq), if_neg heq]

/-- The status tells what has become of the last push. -/
theorem Inv.ack {s : State n W} {h : History n W} (hinv : Inv s h) (hidle : s.pushing = .idle) :
    SingleStateQueue.ack s.mutator s.shared =
        (if h.marked then .SSQ_DONE else .SSQ_READ) ∧ h.polled = h.pushes.length ∨
      SingleStateQueue.ack s.mutator s.shared = .SSQ_PENDING := by
  have hstoring := hinv.storing
  rw [hidle] at hstoring
  obtain ⟨hm, -⟩ := hstoring
  have hp := hinv.polled
  rw [Inv.clock_idle hidle] at hp
  have hnear := hinv.near
  have hbool : h.marked.toNat ≤ 1 := by cases h.marked <;> decide
  have hmark : (if h.marked.toNat = 1 then SSQStatus.SSQ_DONE else .SSQ_READ) =
      if h.marked then .SSQ_DONE else .SSQ_READ := by
    cases h.marked <;> rfl
  have hstatus : ∀ m : Bool, m = h.marked →
      s.shared.mAck = BitVec.ofNat 32 (2 * h.polled + m.toNat) →
      SingleStateQueue.ack s.mutator s.shared =
          (if h.marked then .SSQ_DONE else .SSQ_READ) ∧ h.polled = h.pushes.length ∨
        SingleStateQueue.ack s.mutator s.shared = .SSQ_PENDING := by
    rintro m rfl hack
    rw [ack_eq hm hack hbool (by omega) (by omega), hmark]
    by_cases heq : h.polled = h.pushes.length
    · rw [if_pos heq]
      exact .inl ⟨rfl, heq⟩
    · rw [if_neg heq]
      exact .inr rfl
  have hobserving := hinv.observing
  cases hpolling : s.polling with
  | idle =>
    rw [hpolling] at hobserving
    exact hstatus h.marked rfl hobserving.2
  | trying before tries temp =>
    rw [hpolling] at hobserving
    exact hstatus h.marked rfl hobserving.2.1
  | marking acked =>
    rw [hpolling] at hobserving
    obtain ⟨-, hack, -, -, hmarked⟩ := hobserving
    exact hstatus false hmarked.symm hack
  | changed before temp =>
    -- the number polled last is not stored yet, and the one before it is an older one
    rw [hpolling] at hobserving
    obtain ⟨-, -, q, d, hq, hnear', hd, hack⟩ := hobserving
    rw [ack_eq hm hack hd (by omega) (by omega), if_neg (by omega)]
    exact .inr rfl

instance (sh : State n W × History n W) : (a : Action n W) → Decidable (Allowed sh a)
  | .push _ => inferInstanceAs (Decidable (_ < _))
  | .done => inferInstanceAs (Decidable (_ = _))
  | .poll | .mutator | .observer => .isTrue trivial

theorem exec_cons (mValue : Fin n → W) {s s' : State n W} {h : History n W} {a : Action n W}
    (as : List (Action n W)) (hok : Allowed (s, h) a) (hstep : step s a = some s') :
    (watched mValue).exec Allowed (s, h) (a :: as) =
      (watched mValue).exec Allowed (s', h.record s a) as := by
  have hwatched : (watched mValue).step (s, h) a = some (s', h.record s a) :=
    congrArg (Option.map _) hstep
  rw [Machine.exec, if_pos hok, hwatched, Option.bind_some]

theorem allowed_observer (s : State n W) (h : History n W) : Allowed (s, h) .observer := trivial

/-- The words of a value are copied one after the other. -/
theorem exec_copies (mValue : Fin n → W) {s : State n W} {h : History n W} {before : BitVec 32}
    (heven : ¬before &&& 1 ≠ 0) (as : List (Action n W)) {m k : Nat} (hm : m + k = n)
    (hpolling : s.polling = .trying before 0 ((List.ofFn s.shared.mValue).take m)) :
    (watched mValue).exec Allowed (s, h) (List.replicate k .observer ++ as) =
      (watched mValue).exec Allowed
        ({ s with polling := .trying before 0 (List.ofFn s.shared.mValue) }, h) as := by
  induction k generalizing s m with
  | zero =>
    have hall : (List.ofFn s.shared.mValue).take m = List.ofFn s.shared.mValue := by
      apply List.take_of_length_le
      rw [List.length_ofFn]
      omega
    rw [hall] at hpolling
    rw [← hpolling]
    rfl
  | succ k ih =>
    have hlength : ((List.ofFn s.shared.mValue).take m).length = m := by
      rw [List.length_take, List.length_ofFn]
      omega
    have hlt : m < (List.ofFn s.shared.mValue).length := by
      rw [List.length_ofFn]
      omega
    have hcopy : tryStep s.shared before 0 ((List.ofFn s.shared.mValue).take m) =
        .trying before 0 ((List.ofFn s.shared.mValue).take (m + 1)) := by
      rw [tryStep, if_neg heven, dif_pos (by omega), List.take_succ_eq_append_getElem hlt,
        List.getElem_ofFn]
      congr 3
      exact congrArg s.shared.mValue (Fin.ext hlength)
    have hstep : step s .observer = some { s with
        polling := .trying before 0 ((List.ofFn s.shared.mValue).take (m + 1)) } := by
      rw [step, hpolling]
      dsimp only
      rw [hcopy]
    have hrecord : h.record s .observer = h := by
      rw [History.record, hpolling]
      dsimp only
      rw [hcopy]
    rw [List.replicate_succ, List.cons_append, exec_cons mValue _ (allowed_observer s h) hstep,
      hrecord]
    exact ih (m := m + 1) (by omega) rfl

/-- A poll while nothing is pushed is the atomic one. -/
theorem exec_poll (mValue : Fin n → W) {s : State n W} {h : History n W} (hinv : Inv s h)
    (hpushing : s.pushing = .idle) (hpolling : s.polling = .idle) :
    match poll s.observer s.shared with
    | none =>
      h.polled = h.pushes.length ∧ (watched mValue).exec Allowed (s, h) [.poll] = some (s, h)
    | some (value, observer, shared) =>
      h.polled < h.pushes.length ∧
      (watched mValue).exec Allowed (s, h) (.poll :: List.replicate (n + 2) .observer) =
        some ({ s with shared, observer }, { h with
          polls := h.polls ++ [(h.pushes.length, List.ofFn value)]
          called := false
          marked := false }) := by
  have hclock : clock s h = 2 * h.pushes.length := Inv.clock_idle hpushing
  have hsequence := hinv.sequence
  have hp := hinv.polled
  have hnear := hinv.near
  have hobserving := hinv.observing
  rw [hpolling] at hobserving
  obtain ⟨hobserver, -⟩ := hobserving
  rw [hclock] at hsequence hp
  have heven : ¬s.shared.mSequence &&& 1 ≠ 0 := by
    rw [hsequence, and_one_ne_zero_iff]
    omega
  have hsame : s.shared.mSequence = s.observer.mSequence ↔ h.polled = h.pushes.length := by
    rw [hsequence, hobserver, ofNat_eq_iff hp (by omega)]
    omega
  have hok : Allowed (s, h) .poll := trivial
  rw [poll]
  by_cases hpolled : h.polled = h.pushes.length
  · have hstep : step s .poll = some s := by
      rw [step, hpolling]
      dsimp only
      rw [if_pos (hsame.mpr hpolled)]
    rw [if_pos (hsame.mpr hpolled), exec_cons mValue [] hok hstep]
    exact ⟨hpolled, rfl⟩
  · have hstep : step s .poll =
        some { s with polling := .trying s.shared.mSequence 0 [] } := by
      rw [step, hpolling]
      dsimp only
      rw [if_neg (fun heq => hpolled (hsame.mp heq))]
    have hsplit : List.replicate (n + 2) (Action.observer : Action n W) =
        List.replicate n .observer ++ [.observer, .observer] :=
      List.replicate_append_replicate.symm
    have hmatched : tryStep s.shared s.shared.mSequence 0 (List.ofFn s.shared.mValue) =
        .changed s.shared.mSequence (List.ofFn s.shared.mValue) := by
      rw [tryStep, if_neg heven, dif_neg (by rw [List.length_ofFn]; omega), if_pos rfl]
    have hcopied : step { s with
        polling := .trying s.shared.mSequence 0 (List.ofFn s.shared.mValue) } .observer =
        some { s with polling := .changed s.shared.mSequence (List.ofFn s.shared.mValue) } := by
      rw [step]
      dsimp only
      rw [hmatched]
    have hrecord : h.record { s with
        polling := .trying s.shared.mSequence 0 (List.ofFn s.shared.mValue) } .observer =
        { h with
          polls := h.polls ++ [(h.pushes.length, List.ofFn s.shared.mValue)]
          called := false
          marked := false } := by
      rw [History.record]
      dsimp only
      rw [hmatched]
      dsimp only
      rw [History.completed, hpushing]
    rw [if_neg (fun heq => hpolled (hsame.mp heq)), if_neg heven]
    refine ⟨by omega, ?_⟩
    rw [hsplit]
    refine (exec_cons mValue _ hok hstep).trans ?_
    refine (exec_copies mValue heven _ (Nat.zero_add n) rfl).trans ?_
    refine (exec_cons mValue _ (allowed_observer _ _) hcopied).trans ?_
    have hpoll : h.record s .poll = h := rfl
    rw [hpoll, hrecord]
    refine (exec_cons mValue _ (allowed_observer _ _) rfl).trans ?_
    rw [hpolling]
    rfl

theorem value_of_poll {o o' : Observer} {shared shared' : Shared (Fin n → W)} {value : Fin n → W}
    (h : poll o shared = some (value, o', shared')) : shared.mValue = value := by
  rw [poll] at h
  split at h
  · cases h
  · split at h
    · cases h
    · cases h
      rfl

/-- Whatever the order of steps, polls are whole and in order, a poll on its own sees the last push,
and the status is right about it. -/
theorem run_reads (mValue : Fin n → W) {s : State n W} {h : History n W}
    (hrun : (watched mValue).Run Allowed (s, h)) :
    (∀ poll ∈ h.polls, 0 < poll.1 ∧
      ∃ value, h.pushes[poll.1 - 1]? = some value ∧ poll.2 = List.ofFn value) ∧
    h.polls.Pairwise (fun poll poll' => poll.1 < poll'.1) ∧
    (∀ value, s.pushing = .idle → s.polling = .idle → h.pushes.getLast? = some value →
      h.polled ≠ h.pushes.length →
      ∃ s' h', (watched mValue).exec Allowed (s, h) (.poll :: List.replicate (n + 2) .observer) =
          some (s', h') ∧ s'.polling = .idle ∧
        h'.polls = h.polls ++ [(h.pushes.length, List.ofFn value)]) ∧
    (s.pushing = .idle → h.pushes ≠ [] →
      (SingleStateQueue.ack s.mutator s.shared = .SSQ_DONE → h.polled = h.pushes.length ∧ h.marked = true) ∧
      (SingleStateQueue.ack s.mutator s.shared = .SSQ_READ → h.polled = h.pushes.length ∧ h.marked = false)) := by
  have hinv : Inv s h := run_inv hrun
  refine ⟨hinv.polls, hinv.increasing, ?_, ?_⟩
  · intro value hpushing hpolling hlast hpolled
    have hpoll := exec_poll mValue hinv hpushing hpolling
    have hstoring := hinv.storing
    rw [hpushing] at hstoring
    obtain ⟨-, hvalue⟩ := hstoring
    have hvalue := hvalue value hlast
    split at hpoll
    · exact absurd hpoll.1 hpolled
    · next value' observer shared hsome =>
      obtain ⟨-, hexec⟩ := hpoll
      refine ⟨_, _, hexec, hpolling, ?_⟩
      rw [← value_of_poll hsome, hvalue]
  · intro hpushing hne
    constructor
    · intro hdone
      obtain ⟨hstatus, hpolled⟩ | hpending := hinv.ack hpushing
      · rw [hdone] at hstatus
        refine ⟨hpolled, ?_⟩
        cases hmarked : h.marked with
        | true => rfl
        | false => rw [hmarked] at hstatus; cases hstatus
      · rw [hdone] at hpending
        cases hpending
    · intro hread
      obtain ⟨hstatus, hpolled⟩ | hpending := hinv.ack hpushing
      · rw [hread] at hstatus
        refine ⟨hpolled, ?_⟩
        cases hmarked : h.marked with
        | false => rfl
        | true => rw [hmarked] at hstatus; cases hstatus
      · rw [hread] at hpending
        cases hpending

/-- Two pushes, the second one between the words of a poll, which is then acted upon. -/
def straddled : List (Action 2 Nat) :=
  [.push ![1, 2], .mutator, .mutator, .mutator, .poll, .observer, .push ![3, 4], .mutator, .observer,
    .mutator, .mutator, .observer, .observer, .observer, .observer, .observer, .done, .observer]

theorem run_reads_straddled :
    ∃ s h, (watched ![0, 0]).Run Allowed (s, h) ∧ h.polls = [(2, [3, 4])] ∧
      SingleStateQueue.ack s.mutator s.shared = .SSQ_DONE ∧ h.polled = h.pushes.length ∧ h.marked = true := by
  have hseen : ((watched ![0, 0]).exec Allowed (watched ![0, 0]).init straddled).map
      (fun sh => (sh.2.pushes.length, clock sh.1 sh.2, sh.2.polls, SingleStateQueue.ack sh.1.mutator sh.1.shared)) =
        some (2, 4, [(2, [3, 4])], .SSQ_DONE) := by
    decide +kernel
  obtain ⟨⟨s, h⟩, hexec, hsh⟩ := Option.map_eq_some_iff.mp hseen
  obtain ⟨hlength, hclock, hpolls, hdone⟩ : h.pushes.length = 2 ∧ clock s h = 4 ∧
      h.polls = [(2, [3, 4])] ∧ SingleStateQueue.ack s.mutator s.shared = .SSQ_DONE := by
    injection hsh with hlength hrest
    injection hrest with hclock hrest
    injection hrest with hpolls hdone
    exact ⟨hlength, hclock, hpolls, hdone⟩
  have hidle : s.pushing = .idle := by
    cases hpushing : s.pushing with
    | idle => rfl
    | storing value stored =>
      rw [clock, hpushing] at hclock
      dsimp only at hclock
      omega
  have hne : h.pushes ≠ [] := List.ne_nil_of_length_pos (by omega)
  have hrun : (watched ![0, 0]).Run Allowed (s, h) := Machine.Run.init.exec straddled hexec
  obtain ⟨-, -, -, hack⟩ := run_reads ![0, 0] hrun
  exact ⟨s, h, hrun, hpolls, hdone, (hack hidle hne).1 hdone⟩

end MediaFramework.Audio.SingleStateSteps
