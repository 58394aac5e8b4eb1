import MediaFramework.Codec2.ReorderSegments

/-!
# The end of stream at the end

An entry with the end of stream flag goes through the stash as the last one that ever does. The
flag may change its place in the stash, but it comes out once and last.
-/

namespace MediaFramework.Codec2

variable {β : Type*}

namespace Entry

theorem isEos_setEos (e : Entry β) : e.setEos.isEos := by
  have hflags : (e.flags ||| BUFFER_FLAG_EOS) &&& BUFFER_FLAG_EOS = BUFFER_FLAG_EOS := by
    apply BitVec.eq_of_getLsbD_eq
    intro i hi
    simp only [BitVec.getLsbD_and, BitVec.getLsbD_or]
    cases e.flags.getLsbD i <;> cases BUFFER_FLAG_EOS.getLsbD i <;> rfl
  rw [isEos, setEos, decide_eq_true_iff, hflags]
  decide

theorem isEos_clearEos (e : Entry β) : e.clearEos.isEos = false := by
  have hflags : (e.flags &&& ~~~BUFFER_FLAG_EOS) &&& BUFFER_FLAG_EOS = 0 := by
    apply BitVec.eq_of_getLsbD_eq
    intro i hi
    simp only [BitVec.getLsbD_and, BitVec.getLsbD_not]
    cases e.flags.getLsbD i <;> cases BUFFER_FLAG_EOS.getLsbD i <;> simp
  rw [isEos, clearEos, decide_eq_false_iff_not, hflags, ne_eq, not_not]

end Entry

namespace ReorderStash

/-- No entry is an end of stream. -/
def Unended (entries : List (Entry β)) : Prop := ∀ d ∈ entries, d.isEos = false

/-- The last entry is an end of stream, and no other is. -/
def Ended (entries : List (Entry β)) : Prop :=
  ∃ front last, entries = front ++ [last] ∧ last.isEos ∧ Unended front

variable {s : ReorderStash β} {e : Entry β} {entries : List (Entry β)}

theorem unended_append {l l' : List (Entry β)} : Unended (l ++ l') ↔ Unended l ∧ Unended l' :=
  List.forall_mem_append

theorem Ended.append {l : List (Entry β)} (hl : Unended l) (h : Ended entries) :
    Ended (l ++ entries) := by
  obtain ⟨front, last, rfl, hlast, hfront⟩ := h
  exact ⟨l ++ front, last, (List.append_assoc _ _ _).symm, hlast, unended_append.mpr ⟨hl, hfront⟩⟩

theorem ended_markBack (hne : entries ≠ []) (h : Unended entries) : Ended (markBack entries) := by
  induction entries with
  | nil => exact absurd rfl hne
  | cons a entries ih =>
    obtain ⟨ha, h⟩ := List.forall_mem_cons.mp h
    cases entries with
    | nil => exact ⟨[], a.setEos, rfl, a.isEos_setEos, fun d hd => (List.not_mem_nil hd).elim⟩
    | cons b entries =>
      obtain ⟨front, last, heq, hlast, hfront⟩ := ih (List.cons_ne_nil b entries) h
      refine ⟨a :: front, last, ?_, hlast, List.forall_mem_cons.mpr ⟨ha, hfront⟩⟩
      rw [markBack, heq, List.cons_append]

/-- An entry without its flag, sorted in among entries without one. -/
theorem unended_orderedInsert (hs : Unended s.mStash) : Unended
    (s.mStash.orderedInsert (fun a b => less s.mKey a.ordinal b.ordinal) e.clearEos) := by
  intro d hd
  obtain rfl | hd := (List.mem_orderedInsert _).mp hd
  · exact e.isEos_clearEos
  · exact hs d hd

theorem unended_stashed (hs : Unended s.mStash) (he : e.isEos = false) : Unended (s.stashed e) := by
  have hbare : ¬e.BareEos := by
    rintro ⟨-, heos⟩
    rw [he] at heos
    cases heos
  rw [stashed, if_neg hbare, he]
  exact unended_orderedInsert hs

/-- The end of stream is at the back of the stash, with its own entry or with the largest one. -/
theorem ended_stashed (hs : Unended s.mStash) (he : e.isEos) : Ended (s.stashed e) := by
  by_cases hbare : e.BareEos
  · rw [stashed, if_pos hbare]
    exact ⟨s.mStash, e, rfl, he, hs⟩
  · rw [stashed, if_neg hbare, he]
    have hmem := (List.mem_orderedInsert fun a b : Entry β => less s.mKey a.ordinal b.ordinal).mpr
      (.inl rfl : e.clearEos = e.clearEos ∨ e.clearEos ∈ s.mStash)
    exact ended_markBack (List.ne_nil_of_mem hmem) (unended_orderedInsert hs)

theorem emplace_pending_stash (s : ReorderStash β) (e : Entry β) :
    (s.emplace e).mPending ++ (s.emplace e).mStash = s.mPending ++ s.stashed e := by
  obtain ⟨moved, rest, hstash, hemplace, -, -⟩ := emplace_spec s e
  rw [hemplace, hstash, List.append_assoc]

end ReorderStash

namespace Session

open ReorderStash

variable {r : Session β}

theorem run_append (r : Session β) (calls calls' : List (Call β)) :
    r.run (calls ++ calls') = (r.run calls).run calls' :=
  List.foldl_append

/-- All entries of a session, in the order in which they would be popped without a further
`emplace`. -/
def arranged (r : Session β) : List (Entry β) := r.released ++ r.stash.mStash

theorem arranged_setDepth (r : Session β) (depth : Nat) :
    (r.step (.setDepth depth)).arranged = r.arranged := by
  show r.popped ++ (r.stash.mPending ++ r.stash.mStash) ++ [] = r.popped ++ r.stash.mPending ++ _
  rw [List.append_nil, List.append_assoc]

theorem arranged_emplace (r : Session β) (e : Entry β) :
    (r.step (.emplace e)).arranged = r.released ++ r.stash.stashed e := by
  show r.popped ++ (r.stash.emplace e).mPending ++ (r.stash.emplace e).mStash = _
  rw [List.append_assoc, emplace_pending_stash, ← List.append_assoc]
  rfl

theorem unended_step (h : Unended r.arranged) {call : Call β}
    (hcall : ∀ e, call = .emplace e → e.isEos = false) : Unended (r.step call).arranged := by
  cases call with
  | emplace e =>
    obtain ⟨hreleased, hstash⟩ := unended_append.mp h
    rw [arranged_emplace]
    exact unended_append.mpr ⟨hreleased, unended_stashed hstash (hcall e rfl)⟩
  | pop =>
    obtain ⟨hreleased, hstash, -⟩ := step_pop r
    rw [arranged, hreleased, hstash]
    exact h
  | defer =>
    obtain ⟨hreleased, hstash, -⟩ := step_defer r
    rw [arranged, hreleased, hstash]
    exact h
  | setDepth depth =>
    rw [arranged_setDepth]
    exact h
  | setKey key =>
    have hsame : (r.step (.setKey key)).arranged = r.arranged := arranged_setDepth r 0
    rw [hsame]
    exact h

theorem unended_run (h : Unended r.arranged) {calls : List (Call β)}
    (hcalls : ∀ e ∈ emplacedBy calls, e.isEos = false) : Unended (r.run calls).arranged := by
  induction calls generalizing r with
  | nil => exact h
  | cons call calls ih =>
    refine ih (unended_step h ?_) fun e he => ?_
    · rintro e rfl
      exact hcalls e List.mem_cons_self
    · apply hcalls e
      cases call with
      | emplace e' => exact List.mem_cons_of_mem e' he
      | _ => exact he

/-- Popping and deferring. -/
def Retrying (calls : List (Call β)) : Prop := ∀ call ∈ calls, call = .pop ∨ call = .defer

theorem run_retrying {calls : List (Call β)} (h : Retrying calls) :
    (r.run calls).released = r.released ∧ (r.run calls).stash.mStash = r.stash.mStash ∧
      (r.run calls).emplaced = r.emplaced := by
  induction calls generalizing r with
  | nil => exact ⟨rfl, rfl, rfl⟩
  | cons call calls ih =>
    obtain ⟨hcall, hcalls⟩ := List.forall_mem_cons.mp h
    obtain ⟨hreleased, hstash, hemplaced⟩ := ih (r := r.step call) hcalls
    rw [run, List.foldl_cons, ← run, hreleased, hstash, hemplaced]
    rcases hcall with rfl | rfl
    · obtain ⟨h₁, h₂, h₃, -⟩ := step_pop r
      exact ⟨h₁, h₂, h₃⟩
    · obtain ⟨h₁, h₂, h₃, -⟩ := step_defer r
      exact ⟨h₁, h₂, h₃⟩

theorem length_pending_pop (r : Session β) :
    (r.step .pop).stash.mPending.length = r.stash.mPending.length - 1 := by
  rw [step]
  cases hpending : r.stash.mPending with
  | nil =>
    have hpop : r.stash.pop = none := by rw [pop, hpending]
    rw [hpop, hpending]
    rfl
  | cons entry pending =>
    have hpop : r.stash.pop = some (entry, { r.stash with mPending := pending }) := by
      rw [pop, hpending]
    rw [hpop]
    rfl

/-- Enough pops take everything that is pending. -/
theorem run_pops {n : Nat} (h : r.stash.mPending.length ≤ n) :
    (r.run (List.replicate n .pop)).stash.mPending = [] := by
  induction n generalizing r with
  | zero => exact List.length_eq_zero_iff.mp (Nat.le_zero.mp h)
  | succ n ih =>
    refine ih (r := r.step .pop) ?_
    rw [length_pending_pop]
    omega

/-- When an end of stream goes through the stash and the depth is set to 0, then any pops and
deferrals leave the stash empty, all entries being popped or pending; the last of them is an end
of stream and no other is; and enough further pops take them all. -/
theorem eos_comes_last (D : Nat) (key : OrdinalKey) {history retries : List (Call β)}
    (hhistory : ∀ d ∈ emplacedBy history, d.isEos = false) {e : Entry β} (he : e.isEos)
    (hretries : Retrying retries) :
    let r := (fresh D key).run (history ++ [.emplace e, .setDepth 0] ++ retries)
    r.stash.mStash = [] ∧ Ended r.released ∧
      (view r.released).Perm (view (emplacedBy history ++ [e])) ∧
      ∀ n, r.stash.mPending.length ≤ n →
        (r.run (List.replicate n .pop)).stash.mPending = [] ∧
          (r.run (List.replicate n .pop)).stash.mStash = [] ∧
          (r.run (List.replicate n .pop)).popped = r.released := by
  intro r
  let r₀ := (fresh D key).run history
  let r₁ := (r₀.step (.emplace e)).step (.setDepth 0)
  have hr : r = r₁.run retries := by
    show (fresh D key).run (history ++ [.emplace e, .setDepth 0] ++ retries) = _
    rw [run_append, run_append]
    rfl
  have hr₀ : Unended r₀.arranged := unended_run (fun d hd => (List.not_mem_nil hd).elim) hhistory
  have hr₁ : Ended r₁.released := by
    have harranged : r₁.released ++ [] = r₀.released ++ r₀.stash.stashed e := by
      rw [← arranged_emplace]
      exact arranged_setDepth _ 0
    rw [List.append_nil] at harranged
    rw [harranged]
    exact (ended_stashed (unended_append.mp hr₀).2 he).append (unended_append.mp hr₀).1
  obtain ⟨hreleased, hstash, hemplaced⟩ := run_retrying (r := r₁) hretries
  rw [← hr] at hreleased hstash hemplaced
  refine ⟨hstash, hreleased ▸ hr₁, ?_, fun n hn => ?_⟩
  · have hconserved : r.Conserved := (Conserved.fresh D key).run _
    have hgiven : r.emplaced = emplacedBy history ++ [e] := by
      rw [hemplaced]
      exact congrArg (· ++ [e]) (run_emplaced (fresh D key) history)
    have hnil : r.stash.mStash = [] := hstash
    rw [Conserved, hnil, List.append_nil, hgiven] at hconserved
    exact hconserved
  · have hpops : Retrying (List.replicate n (.pop : Call β)) :=
      fun call hcall => .inl (List.eq_of_mem_replicate hcall)
    obtain ⟨hsame, hsame', -⟩ := run_retrying (r := r) hpops
    have hnil := run_pops hn
    refine ⟨hnil, hsame'.trans hstash, ?_⟩
    rw [released, hnil, List.append_nil] at hsame
    exact hsame

theorem eos_comes_last_moved :
    ∃ r : Session Nat, r.stash.mStash = [] ∧ Ended r.released ∧
      r.popped.map (·.ordinal.frameIndex) = [1, 2] ∧ (r.popped.map (·.isEos)) = [false, true] := by
  have hhistory : ∀ d ∈ emplacedBy [.emplace (anEntry (some 0) 0 2)], d.isEos = false := by decide
  have hretries : Retrying ([.pop, .defer, .pop, .pop] : List (Call Nat)) := by simp [Retrying]
  have hlast := eos_comes_last 3 .ORDINAL hhistory
    (by decide : (anEntry (some 1) BUFFER_FLAG_EOS 1).isEos) hretries
  exact ⟨_, hlast.1, hlast.2.1, by decide, by decide⟩

end Session

/-! ### The channel -/

namespace ReorderStash

/-- A new depth or key moves the stash behind the pending entries. -/
theorem configure_arranged (s : ReorderStash β) (params : List C2Param) :
    (configure s params).mPending ++ (configure s params).mStash = s.mPending ++ s.mStash := by
  induction params generalizing s with
  | nil => rfl
  | cons param params ih =>
    cases param with
    | other => exact ih s
    | reorderDepth value =>
      rw [configure, ih]
      exact List.append_nil _
    | reorderKey value =>
      rw [configure, ih]
      exact List.append_nil _

end ReorderStash

namespace Playback

open ReorderStash

variable {p : Playback β}

theorem sendOutputBuffers_arranged (register : Nat → Bool) (reorder : ReorderStash β)
    (delivered : List (Entry β)) :
    delivered ++ (sendOutputBuffers register reorder 0).2 ++
        (sendOutputBuffers register reorder 0).1.mPending = delivered ++ reorder.mPending ∧
      (sendOutputBuffers register reorder 0).1.mStash = reorder.mStash := by
  obtain ⟨sent, pending, hsplit, hsend⟩ := sendOutputBuffers_spec register reorder 0
  rw [hsend, hsplit, List.append_assoc]
  exact ⟨rfl, rfl⟩

/-- The work with the end of stream leaves nothing in the stash, and the end of stream is the last
one of all that is delivered or waits for a slot. -/
theorem ended_handleWork (h : Unended (p.released ++ p.channel.mReorderStash.mStash))
    {work : C2Work β} {initData : Option Bool} {register : Nat → Bool} {e : Entry β}
    (hout : p.outputOf work initData = some e) (he : e.isEos) :
    (p.step (.handleWork work initData register)).channel.mReorderStash.mStash = [] ∧
      Ended (p.step (.handleWork work initData register)).released := by
  obtain ⟨w, hw, hout⟩ := Option.bind_eq_some_iff.mp hout
  let reorder := configure p.channel.mReorderStash w.configUpdate.reverse
  have harranged : p.delivered ++ (reorder.mPending ++ reorder.mStash) =
      p.released ++ p.channel.mReorderStash.mStash := by
    rw [configure_arranged, released, List.append_assoc]
  rw [← harranged, unended_append, unended_append] at h
  obtain ⟨hdelivered, hpending, hstash⟩ := h
  obtain ⟨hreleased, hnil⟩ := sendOutputBuffers_arranged register
    ((reorder.emplace e).setDepth 0) p.delivered
  have hstep : p.step (.handleWork work initData register) =
      { channel := { p.channel with
          mReorderStash := (sendOutputBuffers register ((reorder.emplace e).setDepth 0) 0).1 }
        outputs := p.outputs ++ [e]
        delivered :=
          p.delivered ++ (sendOutputBuffers register ((reorder.emplace e).setDepth 0) 0).2 } := by
    simp only [step, CCodecBufferChannel.handleWork, outputOf, hw, hout, Option.bind_some, he,
      if_true, Option.toList_some]
    rfl
  rw [hstep, released]
  refine ⟨hnil, ?_⟩
  dsimp only
  rw [hreleased]
  show Ended (p.delivered ++ ((reorder.emplace e).mPending ++ (reorder.emplace e).mStash))
  rw [emplace_pending_stash]
  exact ((ended_stashed hstash he).append hpending).append hdelivered

/-- Sending buffers then, in any number of attempts, delivers the rest in the order in which it
waits. -/
theorem ended_sendOutputBuffers (h : Ended p.released) (hstash : p.channel.mReorderStash.mStash = [])
    (register : Nat → Bool) :
    Ended (p.step (.sendOutputBuffers register)).released ∧
      (p.step (.sendOutputBuffers register)).channel.mReorderStash.mStash = [] := by
  obtain ⟨hreleased, hsame⟩ :=
    sendOutputBuffers_arranged register p.channel.mReorderStash p.delivered
  refine ⟨?_, hsame.trans hstash⟩
  have hkept : (p.step (.sendOutputBuffers register)).released = p.released := hreleased
  rw [hkept]
  exact h

end Playback

end MediaFramework.Codec2
