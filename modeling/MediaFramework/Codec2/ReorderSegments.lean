import MediaFramework.Codec2.BufferChannel

/-!
# Reordering between two flushes

Between two flushes the client gets the output buffers in order, as long as the stash has the
depth of the component. The end of a stream takes the depth away, and a flush does not give it
back.
-/

namespace MediaFramework.Codec2

open ReorderStash ReorderBuffer

variable {β : Type*} {D : Nat} {key : OrdinalKey} {lift : BitVec 64 → Int}

/-- The component reports the depth `D` and the given key, or neither. -/
def C2Param.Repeats (D : Nat) (key : OrdinalKey) : C2Param → Prop
  | .reorderDepth value => value = D
  | .reorderKey value => value = key
  | .other => True

instance (D : Nat) (key : OrdinalKey) (param : C2Param) : Decidable (param.Repeats D key) :=
  match param with
  | .reorderDepth value => inferInstanceAs (Decidable (value = D))
  | .reorderKey value => inferInstanceAs (Decidable (value = key))
  | .other => inferInstanceAs (Decidable True)

/-- Updates that repeat depth and key do nothing else to an empty stash. -/
theorem configure_eq {reorder : ReorderStash β} {params : List C2Param} (hkey : reorder.mKey = key)
    (hrepeats : ∀ param ∈ params, param.Repeats D key)
    (hquiet : reorder.mStash = [] ∨ ∀ param ∈ params, param = .other) :
    configure reorder params =
      { reorder with mDepth := if .reorderDepth D ∈ params then D else reorder.mDepth } := by
  induction params generalizing reorder with
  | nil => rfl
  | cons param params ih =>
    obtain ⟨hparam, hparams⟩ := List.forall_mem_cons.mp hrepeats
    cases param with
    | reorderDepth value =>
      obtain hnil | hother := hquiet
      · obtain rfl : value = D := hparam
        have hset : reorder.setDepth value = { reorder with mDepth := value } := by
          rw [setDepth, hnil, List.append_nil]
        have hrest := @ih { reorder with mDepth := value } hkey hparams (.inl hnil)
        rw [configure, hset, hrest]
        simp
      · exact absurd (hother _ List.mem_cons_self) (by simp)
    | reorderKey value =>
      obtain hnil | hother := hquiet
      · obtain rfl : value = key := hparam
        have hset : reorder.setKey value = reorder := by
          rw [setKey, hnil, List.append_nil]
          cases reorder
          cases hnil
          cases hkey
          rfl
        rw [configure, hset, ih hkey hparams (.inl hnil)]
        simp
      · exact absurd (hother _ List.mem_cons_self) (by simp)
    | other =>
      have hquiet' : reorder.mStash = [] ∨ ∀ param ∈ params, param = .other :=
        hquiet.imp id fun h param hp => h param (List.mem_cons_of_mem _ hp)
      rw [configure, ih hkey hparams hquiet']
      simp

/-- Sending takes entries off the front of the pending list. -/
theorem sendOutputBuffers_spec (register : Nat → Bool) (reorder : ReorderStash β) (n : Nat) :
    ∃ sent pending, reorder.mPending = sent ++ pending ∧
      sendOutputBuffers register reorder n = ({ reorder with mPending := pending }, sent) := by
  obtain ⟨mPending, mStash, mDepth, mKey⟩ := reorder
  induction mPending generalizing n with
  | nil => exact ⟨[], [], rfl, by rw [sendOutputBuffers]⟩
  | cons entry mPending ih =>
    rw [sendOutputBuffers]
    dsimp only
    split
    · obtain ⟨sent, pending, hsplit, hsend⟩ := ih (n + 1)
      refine ⟨entry :: sent, pending, congrArg (entry :: ·) hsplit, ?_⟩
      rw [hsend]
    · exact ⟨[], entry :: mPending, rfl, rfl⟩

namespace Playback

variable {p : Playback β}

/-- All that was put out since the last flush and is not in the stash. -/
def released (p : Playback β) : List (Entry β) := p.delivered ++ p.channel.mReorderStash.mPending

/-- Depth and key as reported by the component stay the same. -/
def Reports (D : Nat) (key : OrdinalKey) : Call β → Prop
  | .handleWork work _ _ => ∀ w ∈ work.worklets, ∀ param ∈ w.configUpdate, param.Repeats D key
  | _ => True

/-- The component reports depth and key only while the stash is empty. When it puts something out,
the stash has its depth, the stream has not ended since the last flush, and an end of stream
without a buffer is not below an earlier output. -/
def Undisturbed (D : Nat) (key : OrdinalKey) (p : Playback β) : Call β → Prop
  | .handleWork work initData _ => ∀ w ∈ p.channel.worklet work,
    (p.channel.mReorderStash.mStash = [] ∨ ∀ param ∈ w.configUpdate, param = .other) ∧
      ∀ e ∈ p.channel.output work w initData,
        (p.channel.mReorderStash.mDepth = D ∨ .reorderDepth D ∈ w.configUpdate) ∧
          (∀ x ∈ p.outputs, ¬x.isEos) ∧
          (e.BareEos → ∀ x ∈ p.outputs, ¬less key e.ordinal x.ordinal)
  | _ => True

/-- What holds between two flushes. -/
structure Kept (D : Nat) (key : OrdinalKey) (p : Playback β) : Prop where
  key_eq : p.channel.mReorderStash.mKey = key
  sorted : NearlySorted key D p.outputs → ∀ lift, Comparable key lift p.outputs →
    (view (p.released ++ p.channel.mReorderStash.mStash)).Pairwise fun a b =>
      rank key lift a ≤ rank key lift b
  sorting : (∀ x ∈ p.outputs, ¬x.isEos) → NearlySorted key D p.outputs →
    ∀ lift, Comparable key lift p.outputs →
      Sorting key lift D p.outputs p.released p.channel.mReorderStash.mStash

theorem NearlySorted.of_append {es es' : List (Entry β)} (h : NearlySorted key D (es ++ es')) :
    NearlySorted key D es := by
  rintro front e back rfl
  exact h front e (back ++ es') (by simp)

/-- Sending moves the boundary between delivered and pending entries. -/
theorem Kept.sendOutputBuffers {q : Playback β} (h : p.Kept D key) (register : Nat → Bool)
    (houtputs : q.outputs = p.outputs)
    (hreorder : q.channel.mReorderStash =
      (Codec2.sendOutputBuffers register p.channel.mReorderStash 0).1)
    (hdelivered : q.delivered =
      p.delivered ++ (Codec2.sendOutputBuffers register p.channel.mReorderStash 0).2) :
    q.Kept D key := by
  obtain ⟨sent, pending, hsplit, hsend⟩ :=
    sendOutputBuffers_spec register p.channel.mReorderStash 0
  rw [hsend] at hreorder hdelivered
  have hreleased : q.released = p.released := by
    rw [released, released, hreorder, hdelivered, hsplit, List.append_assoc]
  have hstash : q.channel.mReorderStash.mStash = p.channel.mReorderStash.mStash := by
    rw [hreorder]
  refine ⟨?_, ?_, ?_⟩
  · rw [hreorder]
    exact h.key_eq
  · rw [hreleased, hstash, houtputs]
    exact h.sorted
  · rw [hreleased, hstash, houtputs]
    exact h.sorting

/-- Updates while the stash is empty leave the order as it is. -/
theorem Kept.withDepth (h : p.Kept D key) (depth : Nat) :
    Kept D key { p with channel := { p.channel with
      mReorderStash := { p.channel.mReorderStash with mDepth := depth } } } :=
  ⟨h.key_eq, h.sorted, h.sorting⟩

/-- A new output, before anything is sent. -/
theorem Kept.output {e : Entry β} (h : p.Kept D key)
    (hdepth : p.channel.mReorderStash.mDepth = D) (heos : ∀ x ∈ p.outputs, ¬x.isEos)
    (htame : e.BareEos → ∀ x ∈ p.outputs, ¬less key e.ordinal x.ordinal) :
    Kept D key
      { p with
        channel := { p.channel with mReorderStash :=
          if e.isEos then (p.channel.mReorderStash.emplace e).setDepth 0
          else p.channel.mReorderStash.emplace e }
        outputs := p.outputs ++ [e] } := by
  have hkey_emplace : (p.channel.mReorderStash.emplace e).mKey = key := by
    obtain ⟨moved, rest, -, hemplace, -, -⟩ := emplace_spec p.channel.mReorderStash e
    rw [hemplace]
    exact h.key_eq
  have hsorting : NearlySorted key D (p.outputs ++ [e]) → ∀ lift,
      Comparable key lift (p.outputs ++ [e]) →
      Sorting key lift D (p.outputs ++ [e])
        (p.delivered ++ (p.channel.mReorderStash.emplace e).mPending)
        (p.channel.mReorderStash.emplace e).mStash := by
    intro hnear lift hcomp
    have hbefore := h.sorting heos (NearlySorted.of_append hnear) lift
      (hcomp.mono (List.subset_append_left _ _))
    obtain ⟨moved, rest, hemplace, hafter⟩ :=
      hbefore.emplace h.key_eq hdepth hcomp (hnear _ _ _ rfl) htame
    rw [hemplace]
    rw [released, List.append_assoc] at hafter
    exact hafter
  by_cases he : e.isEos
  · simp only [if_pos he]
    refine ⟨hkey_emplace, ?_, ?_⟩
    · intro hnear lift hcomp
      have hafter := (hsorting hnear lift hcomp).sorted
      show (view (p.delivered ++ ((p.channel.mReorderStash.emplace e).mPending ++
        (p.channel.mReorderStash.emplace e).mStash) ++ [])).Pairwise _
      rw [List.append_nil, ← List.append_assoc, view_append]
      exact hafter
    · intro hnone
      exact absurd he (hnone e (by simp))
  · simp only [if_neg he]
    refine ⟨hkey_emplace, ?_, fun _ => hsorting⟩
    intro hnear lift hcomp
    rw [view_append]
    exact (hsorting hnear lift hcomp).sorted

theorem worklet_mem {c : CCodecBufferChannel β} {work : C2Work β} {w : C2Worklet β}
    (h : c.worklet work = some w) : w ∈ work.worklets := by
  rw [CCodecBufferChannel.worklet] at h
  split at h
  · cases h
  · split at h
    · cases h
    · split at h
      · next hw =>
        split at h
        · cases h
        · cases h
          rw [hw]
          exact List.mem_singleton_self _
      · cases h

theorem Kept.handleWork (h : p.Kept D key) {work : C2Work β} {initData : Option Bool}
    {register : Nat → Bool} (hreports : Reports D key (.handleWork work initData register))
    (hok : Undisturbed D key p (.handleWork work initData register)) :
    (p.step (.handleWork work initData register)).Kept D key := by
  rw [step]
  simp only [outputOf, CCodecBufferChannel.handleWork]
  cases hw : p.channel.worklet work with
  | none => simpa using h
  | some w =>
    obtain ⟨hquiet, houtput⟩ := hok w hw
    have hconfigure := @configure_eq _ D _ _ w.configUpdate.reverse h.key_eq
      (fun param hp => hreports w (worklet_mem hw) param (List.mem_reverse.mp hp))
      (hquiet.imp id fun hq param hp => hq param (List.mem_reverse.mp hp))
    simp only [Option.bind_some, hconfigure, List.mem_reverse]
    cases he : p.channel.output work w initData with
    | none =>
      simp only [Option.toList_none, List.append_nil]
      exact h.withDepth _
    | some e =>
      obtain ⟨hdepth, heos, htame⟩ := houtput e he
      have hD : (if .reorderDepth D ∈ w.configUpdate then D
          else p.channel.mReorderStash.mDepth) = D := by
        split
        · rfl
        · next hnot => exact hdepth.resolve_right hnot
      exact ((h.withDepth _).output hD heos htame).sendOutputBuffers register rfl rfl rfl

theorem Kept.step (h : p.Kept D key) (call : Call β) (hreports : Reports D key call)
    (hok : Undisturbed D key p call) : (p.step call).Kept D key := by
  cases call with
  | handleWork work initData register => exact h.handleWork hreports hok
  | sendOutputBuffers register => exact h.sendOutputBuffers register rfl rfl rfl
  | flush => exact ⟨h.key_eq, fun _ _ _ => .nil, fun _ _ _ _ => Ordered.nil _ _⟩

/-- In every run in which nothing disturbs the stash, the buffers delivered since the last flush
are in order if the outputs since then are nearly sorted. -/
theorem segment_delivered_in_order
    (h : (machine D key).Run (fun p call => Reports D key call ∧ Undisturbed D key p call) p)
    (hnear : NearlySorted key D p.outputs) (hcomp : Comparable key lift p.outputs) :
    p.delivered.Pairwise fun a b => rank key lift a ≤ rank key lift b := by
  have hkept : p.Kept D key := by
    refine h.invariant ⟨rfl, fun _ _ _ => .nil, fun _ _ _ _ => Ordered.nil _ _⟩ ?_
    rintro p call _ hp ⟨hreports, hok⟩ hs
    cases hs
    exact hp.step call hreports hok
  have hsorted := hkept.sorted hnear lift hcomp
  rw [released, view_append, view_append, List.append_assoc] at hsorted
  have hdelivered := (List.pairwise_append.mp hsorted).1
  rw [view, List.pairwise_map] at hdelivered
  exact hdelivered

instance (D : Nat) (key : OrdinalKey) (call : Call β) : Decidable (Reports D key call) :=
  match call with
  | .handleWork work _ _ => inferInstanceAs (Decidable
      (∀ w ∈ work.worklets, ∀ param ∈ w.configUpdate, param.Repeats D key))
  | .sendOutputBuffers _ => inferInstanceAs (Decidable True)
  | .flush => inferInstanceAs (Decidable True)

instance (D : Nat) (key : OrdinalKey) (p : Playback β) (call : Call β) :
    Decidable (Undisturbed D key p call) :=
  match call with
  | .handleWork work initData _ => inferInstanceAs (Decidable (∀ w ∈ p.channel.worklet work,
      (p.channel.mReorderStash.mStash = [] ∨ ∀ param ∈ w.configUpdate, param = .other) ∧
        ∀ e ∈ p.channel.output work w initData,
          (p.channel.mReorderStash.mDepth = D ∨ .reorderDepth D ∈ w.configUpdate) ∧
            (∀ x ∈ p.outputs, ¬x.isEos) ∧
            (e.BareEos → ∀ x ∈ p.outputs, ¬less key e.ordinal x.ordinal)))
  | .sendOutputBuffers _ => inferInstanceAs (Decidable True)
  | .flush => inferInstanceAs (Decidable True)

/-- Work that puts out a frame; all of it finds a slot. -/
def aFrame (frameIndex : BitVec 64) (endOfStream : Bool) (configUpdate : List C2Param) : Call Nat :=
  .handleWork
    { input := { frameIndex := frameIndex }
      worklets := [{ buffers := [some 0], configUpdate := configUpdate, endOfStream := endOfStream,
                     ordinal := { frameIndex := frameIndex } }] } none fun _ => true

/-- Frames 3 and 2 after an end of stream and a flush, when the component reports its depth
again. -/
theorem segment_delivered_in_order_depthReported :
    ∃ p : Playback Nat, p.delivered.map (·.ordinal.frameIndex) = [2, 3, 4] ∧
      p.delivered.Pairwise fun a b => rank .ORDINAL Session.unwrapped a ≤
        rank .ORDINAL Session.unwrapped b := by
  have hr := Machine.Run.of_exec (machine (β := Nat) 1 .ORDINAL)
    (fun p call => Reports 1 .ORDINAL call ∧ Undisturbed 1 .ORDINAL p call)
    [aFrame 1 true [], .flush, aFrame 3 false [.reorderDepth 1], aFrame 2 false [],
      aFrame 4 true []] (by decide +kernel)
  exact ⟨_, by decide +kernel,
    segment_delivered_in_order hr (by decide +kernel) ⟨by decide +kernel, by decide +kernel⟩⟩

/-- Without a new report of the depth frames 3 and 2 are delivered as they come. -/
theorem segment_out_of_order_after_eos :
    ∃ p : Playback Nat,
      (machine (β := Nat) 1 .ORDINAL).Run (fun _ call => Reports 1 .ORDINAL call) p ∧
      NearlySorted .ORDINAL 1 p.outputs ∧ Comparable .ORDINAL Session.unwrapped p.outputs ∧
      p.delivered.map (·.ordinal.frameIndex) = [3, 2] ∧
      ¬p.delivered.Pairwise fun a b => rank .ORDINAL Session.unwrapped a ≤
        rank .ORDINAL Session.unwrapped b := by
  have hr := Machine.Run.of_exec (machine (β := Nat) 1 .ORDINAL)
    (fun _ call => Reports 1 .ORDINAL call)
    [aFrame 1 true [], .flush, aFrame 3 false [], aFrame 2 false []] (by decide +kernel)
  exact ⟨_, hr, by decide +kernel, ⟨by decide +kernel, by decide +kernel⟩, by decide +kernel,
    by decide +kernel⟩

end Playback

end MediaFramework.Codec2
