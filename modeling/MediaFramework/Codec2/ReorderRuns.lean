import MediaFramework.Lib.ReorderBuffer
import Mathlib.Algebra.Ring.Int.Defs
import Mathlib.Algebra.Ring.Nat

/-!
# Reorder stash of the Codec2 buffer channel

`CCodecBufferChannel::ReorderStash` (`media/codec2/sfplugin/CCodecBufferChannel.cpp`): output
buffers wait in the stash until more than `mDepth` are there, and then in the pending list until
they are popped. A buffer is a shared pointer to any type; a null one is `none`.
-/

namespace MediaFramework.Codec2

/-- `operator<` of `c2_cntr64_t`, a counter that may wrap: through `operator<=`, which takes the
difference for a positive one if it is below `HALF_RANGE`. -/
def cntrLt (a b : BitVec 64) : Prop := (b - a).toNat < 2^63 ∧ a ≠ b

instance (a b : BitVec 64) : Decidable (cntrLt a b) := inferInstanceAs (Decidable (_ ∧ _))

structure C2WorkOrdinalStruct where
  timestamp : BitVec 64 := 0
  frameIndex : BitVec 64 := 0
  customOrdinal : BitVec 64 := 0
  deriving DecidableEq, Repr

/-- `C2Config::ordinal_key_t`. A component may report a value that is none of them. -/
inductive OrdinalKey
  | ORDINAL
  | TIMESTAMP
  | CUSTOM
  | unrecognized (value : BitVec 32)
  deriving DecidableEq, Repr

/-- The counter that a key stands for. -/
def OrdinalKey.counter (mKey : OrdinalKey) (o : C2WorkOrdinalStruct) : BitVec 64 :=
  match mKey with
  | .ORDINAL => o.frameIndex
  | .TIMESTAMP => o.timestamp
  | .CUSTOM => o.customOrdinal
  | .unrecognized _ => o.frameIndex

structure Entry (β : Type*) where
  buffer : Option β
  timestamp : BitVec 64
  flags : BitVec 32
  ordinal : C2WorkOrdinalStruct
  deriving DecidableEq, Repr

def BUFFER_FLAG_SYNCFRAME : BitVec 32 := 1
def BUFFER_FLAG_EOS : BitVec 32 := 4

variable {β : Type*}

namespace Entry

def isEos (e : Entry β) : Bool := e.flags &&& BUFFER_FLAG_EOS ≠ 0

/-- An end of stream without a buffer. -/
def BareEos (e : Entry β) : Prop := e.buffer.isNone ∧ e.isEos

instance (e : Entry β) : Decidable e.BareEos := inferInstanceAs (Decidable (_ ∧ _))

def clearEos (e : Entry β) : Entry β := { e with flags := e.flags &&& ~~~BUFFER_FLAG_EOS }

def setEos (e : Entry β) : Entry β := { e with flags := e.flags ||| BUFFER_FLAG_EOS }

end Entry

structure ReorderStash (β : Type*) where
  mPending : List (Entry β) := []
  mStash : List (Entry β) := []
  mDepth : Nat := 0
  mKey : OrdinalKey := .ORDINAL
  deriving DecidableEq, Repr

namespace ReorderStash

def less (mKey : OrdinalKey) (o1 o2 : C2WorkOrdinalStruct) : Prop :=
  cntrLt (mKey.counter o1) (mKey.counter o2)

instance (mKey : OrdinalKey) (o1 o2 : C2WorkOrdinalStruct) : Decidable (less mKey o1 o2) :=
  inferInstanceAs (Decidable (cntrLt _ _))

def flush (s : ReorderStash β) : ReorderStash β := { s with mPending := [], mStash := [] }

def setDepth (s : ReorderStash β) (depth : Nat) : ReorderStash β :=
  { s with mPending := s.mPending ++ s.mStash, mStash := [], mDepth := depth }

def setKey (s : ReorderStash β) (key : OrdinalKey) : ReorderStash β :=
  { s with mPending := s.mPending ++ s.mStash, mStash := [], mKey := key }

def pop (s : ReorderStash β) : Option (Entry β × ReorderStash β) :=
  match s.mPending with
  | [] => none
  | entry :: pending => some (entry, { s with mPending := pending })

def defer (s : ReorderStash β) (entry : Entry β) : ReorderStash β :=
  { s with mPending := entry :: s.mPending }

/-- Set the end of stream flag of the last entry. -/
def markBack : List (Entry β) → List (Entry β)
  | [] => []
  | [e] => [e.setEos]
  | e :: e' :: stash => e :: markBack (e' :: stash)

/-- The loop at the end of `emplace`, which moves entries from the stash to the pending list. -/
def release (mDepth : Nat) (pending : List (Entry β)) : List (Entry β) → List (Entry β) × List (Entry β)
  | [] => (pending, [])
  | e :: stash =>
    if mDepth < stash.length + 1 then release mDepth (pending ++ [e]) stash
    else (pending, e :: stash)

/-- Where `emplace` puts the entry. An end of stream without a buffer goes to the back whatever
its ordinal; the end of stream flag of any other entry goes to the last one of the stash. -/
def stashed (s : ReorderStash β) (e : Entry β) : List (Entry β) :=
  if e.BareEos then s.mStash ++ [e]
  else
    let stash := s.mStash.orderedInsert (fun a b => less s.mKey a.ordinal b.ordinal) e.clearEos
    if e.isEos then markBack stash else stash

def emplace (s : ReorderStash β) (e : Entry β) : ReorderStash β :=
  let (pending, stash) := release s.mDepth s.mPending (s.stashed e)
  { s with mPending := pending, mStash := stash }

end ReorderStash

end MediaFramework.Codec2

/-!
## Runs of the reorder stash

Whatever the calls, no entry is lost or doubled: up to the end of stream flag, the entries given
to a stash are those taken from it and those still there.
-/

namespace MediaFramework.Codec2

variable {β : Type*}

namespace Entry

@[simp]
theorem clearEos_ordinal (e : Entry β) : e.clearEos.ordinal = e.ordinal := rfl

@[simp]
theorem clearEos_clearEos (e : Entry β) : e.clearEos.clearEos = e.clearEos := by
  simp only [clearEos, BitVec.and_assoc, BitVec.and_self]

@[simp]
theorem clearEos_setEos (e : Entry β) : e.setEos.clearEos = e.clearEos := by
  have hflags : (e.flags ||| BUFFER_FLAG_EOS) &&& ~~~BUFFER_FLAG_EOS =
      e.flags &&& ~~~BUFFER_FLAG_EOS := by
    apply BitVec.eq_of_getLsbD_eq
    intro i hi
    simp only [BitVec.getLsbD_and, BitVec.getLsbD_or, BitVec.getLsbD_not]
    cases e.flags.getLsbD i <;> cases BUFFER_FLAG_EOS.getLsbD i <;> simp
  simp only [clearEos, setEos, hflags]

end Entry

namespace ReorderStash

/-- Entries up to the end of stream flag. -/
def view (entries : List (Entry β)) : List (Entry β) := entries.map Entry.clearEos

@[simp]
theorem view_append (l l' : List (Entry β)) : view (l ++ l') = view l ++ view l' := List.map_append

theorem view_markBack (stash : List (Entry β)) : view (markBack stash) = view stash := by
  induction stash with
  | nil => rfl
  | cons e stash ih =>
    cases stash with
    | nil => simp [markBack, view]
    | cons e' stash =>
      rw [markBack]
      show e.clearEos :: view (markBack (e' :: stash)) = _
      rw [ih]
      rfl

/-- The loop lets go of the first entries, until no more than `mDepth` are left. -/
theorem release_spec (mDepth : Nat) (pending stash : List (Entry β)) :
    ∃ moved rest, stash = moved ++ rest ∧ release mDepth pending stash = (pending ++ moved, rest) ∧
      rest.length ≤ mDepth ∧ (moved ≠ [] → rest.length = mDepth) := by
  induction stash generalizing pending with
  | nil => exact ⟨[], [], rfl, by rw [release, List.append_nil], Nat.zero_le _, fun h => absurd rfl h⟩
  | cons e stash ih =>
    rw [release]
    split
    · next hlt =>
      obtain ⟨moved, rest, hstash, hrelease, hle, hfull⟩ := ih (pending ++ [e])
      refine ⟨e :: moved, rest, by rw [hstash, List.cons_append], ?_, hle, ?_⟩
      · rw [hrelease, List.append_assoc, List.singleton_append]
      · intro _
        by_cases hmoved : moved = []
        · rw [hstash, hmoved, List.nil_append] at hlt
          omega
        · exact hfull hmoved
    · next hle =>
      refine ⟨[], e :: stash, rfl, by rw [List.append_nil], ?_, fun h => absurd rfl h⟩
      rw [List.length_cons]
      omega

/-- What `emplace` does: an entry joins the stash and the first ones leave it. -/
theorem emplace_spec (s : ReorderStash β) (e : Entry β) :
    ∃ moved rest, s.stashed e = moved ++ rest ∧
      s.emplace e = { s with mPending := s.mPending ++ moved, mStash := rest } ∧
      rest.length ≤ s.mDepth ∧ (moved ≠ [] → rest.length = s.mDepth) := by
  obtain ⟨moved, rest, hstash, hrelease, hle, hfull⟩ :=
    release_spec s.mDepth s.mPending (s.stashed e)
  refine ⟨moved, rest, hstash, ?_, hle, hfull⟩
  rw [emplace, hrelease]

theorem view_stashed_of_bareEos {s : ReorderStash β} {e : Entry β} (h : e.BareEos) :
    view (s.stashed e) = view s.mStash ++ [e.clearEos] := by
  rw [stashed, if_pos h, view_append]
  rfl

theorem view_stashed_of_not_bareEos {s : ReorderStash β} {e : Entry β} (h : ¬e.BareEos) :
    view (s.stashed e) =
      view (s.mStash.orderedInsert (fun a b => less s.mKey a.ordinal b.ordinal) e.clearEos) := by
  rw [stashed, if_neg h]
  dsimp only
  split
  · exact view_markBack _
  · rfl

theorem view_stashed_perm (s : ReorderStash β) (e : Entry β) :
    (view (s.stashed e)).Perm (view s.mStash ++ [e.clearEos]) := by
  by_cases h : e.BareEos
  · rw [view_stashed_of_bareEos h]
  · rw [view_stashed_of_not_bareEos h]
    refine ((List.perm_orderedInsert _ _ _).map _).trans ?_
    rw [List.map_cons, Entry.clearEos_clearEos]
    exact (List.perm_append_singleton _ _).symm

end ReorderStash

/-! ### Runs -/

/-- A reorder stash together with the entries given to it and those taken from it, less the ones
handed back. -/
structure Session (β : Type*) where
  stash : ReorderStash β
  emplaced : List (Entry β) := []
  popped : List (Entry β) := []

namespace Session

open ReorderStash

inductive Call (β : Type*)
  | emplace (e : Entry β)
  | pop
  | defer
  | setDepth (depth : Nat)
  | setKey (key : OrdinalKey)

/-- `defer` hands back the entry that was popped last. -/
def step (r : Session β) : Call β → Session β
  | .emplace e => { r with stash := r.stash.emplace e, emplaced := r.emplaced ++ [e] }
  | .pop =>
    match r.stash.pop with
    | none => r
    | some (entry, stash) => { r with stash := stash, popped := r.popped ++ [entry] }
  | .defer =>
    match r.popped.getLast? with
    | none => r
    | some entry => { r with stash := r.stash.defer entry, popped := r.popped.dropLast }
  | .setDepth depth => { r with stash := r.stash.setDepth depth }
  | .setKey key => { r with stash := r.stash.setKey key }

def run (r : Session β) (calls : List (Call β)) : Session β := calls.foldl step r

def emplacedBy (calls : List (Call β)) : List (Entry β) :=
  calls.filterMap fun call =>
    match call with
    | .emplace e => some e
    | _ => none

/-- The entries that the stash has let go, in order. -/
def released (r : Session β) : List (Entry β) := r.popped ++ r.stash.mPending

/-- Popping and deferring only moves the boundary between popped and pending entries. -/
theorem step_pop (r : Session β) :
    (r.step .pop).released = r.released ∧ (r.step .pop).stash.mStash = r.stash.mStash ∧
      (r.step .pop).emplaced = r.emplaced ∧ (r.step .pop).stash.mDepth = r.stash.mDepth ∧
      (r.step .pop).stash.mKey = r.stash.mKey := by
  rw [step]
  cases hpending : r.stash.mPending with
  | nil =>
    have hpop : r.stash.pop = none := by rw [pop, hpending]
    rw [hpop]
    exact ⟨rfl, rfl, rfl, rfl, rfl⟩
  | cons entry pending =>
    have hpop : r.stash.pop = some (entry, { r.stash with mPending := pending }) := by
      rw [pop, hpending]
    rw [hpop]
    refine ⟨?_, rfl, rfl, rfl, rfl⟩
    show r.popped ++ [entry] ++ pending = r.popped ++ r.stash.mPending
    rw [hpending, List.append_assoc, List.singleton_append]

theorem step_defer (r : Session β) :
    (r.step .defer).released = r.released ∧ (r.step .defer).stash.mStash = r.stash.mStash ∧
      (r.step .defer).emplaced = r.emplaced ∧ (r.step .defer).stash.mDepth = r.stash.mDepth ∧
      (r.step .defer).stash.mKey = r.stash.mKey := by
  rw [step]
  cases hlast : r.popped.getLast? with
  | none => exact ⟨rfl, rfl, rfl, rfl, rfl⟩
  | some entry =>
    obtain ⟨popped, hpopped⟩ := List.getLast?_eq_some_iff.mp hlast
    refine ⟨?_, rfl, rfl, rfl, rfl⟩
    show r.popped.dropLast ++ entry :: r.stash.mPending = r.popped ++ r.stash.mPending
    rw [hpopped, List.dropLast_concat, List.append_assoc, List.singleton_append]

theorem run_emplaced (r : Session β) (calls : List (Call β)) :
    (r.run calls).emplaced = r.emplaced ++ emplacedBy calls := by
  induction calls generalizing r with
  | nil => exact (List.append_nil _).symm
  | cons call calls ih =>
    have hrun : (r.run (call :: calls)).emplaced = ((r.step call).run calls).emplaced := rfl
    rw [hrun, ih]
    cases call with
    | emplace e =>
      show r.emplaced ++ [e] ++ emplacedBy calls = r.emplaced ++ e :: emplacedBy calls
      rw [List.append_assoc, List.singleton_append]
    | pop =>
      rw [(step_pop r).2.2.1]
      rfl
    | defer =>
      rw [(step_defer r).2.2.1]
      rfl
    | setDepth depth => rfl
    | setKey key => rfl

/-! ### Nothing is lost or doubled -/

/-- Up to end of stream flags, the entries given are those taken and those still there. -/
def Conserved (r : Session β) : Prop :=
  (view (r.popped ++ r.stash.mPending ++ r.stash.mStash)).Perm (view r.emplaced)

theorem Conserved.emplace {r : Session β} (h : r.Conserved) (e : Entry β) :
    (r.step (.emplace e)).Conserved := by
  obtain ⟨moved, rest, hstash, hemplace, -, -⟩ := emplace_spec r.stash e
  have hview := view_stashed_perm r.stash e
  rw [hstash, view_append] at hview
  show (view (r.popped ++ (r.stash.emplace e).mPending ++ (r.stash.emplace e).mStash)).Perm
    (view (r.emplaced ++ [e]))
  rw [hemplace]
  show (view (r.popped ++ (r.stash.mPending ++ moved) ++ rest)).Perm (view (r.emplaced ++ [e]))
  rw [Conserved, view_append] at h
  simp only [view_append, List.append_assoc] at h ⊢
  refine ((hview.append_left _).append_left _).trans ?_
  rw [← List.append_assoc, ← List.append_assoc, List.append_assoc (view r.popped)]
  exact h.append_right _

theorem Conserved.step {r : Session β} (h : r.Conserved) (call : Call β) :
    (r.step call).Conserved := by
  cases call with
  | emplace e => exact h.emplace e
  | pop =>
    obtain ⟨hreleased, hstash, hemplaced, -, -⟩ := step_pop r
    show (view ((r.step .pop).released ++ (r.step .pop).stash.mStash)).Perm _
    rw [hreleased, hstash, hemplaced]
    exact h
  | defer =>
    obtain ⟨hreleased, hstash, hemplaced, -, -⟩ := step_defer r
    show (view ((r.step .defer).released ++ (r.step .defer).stash.mStash)).Perm _
    rw [hreleased, hstash, hemplaced]
    exact h
  | setDepth depth =>
    show (view (r.popped ++ (r.stash.mPending ++ r.stash.mStash) ++ [])).Perm (view r.emplaced)
    rw [List.append_nil, ← List.append_assoc]
    exact h
  | setKey key =>
    show (view (r.popped ++ (r.stash.mPending ++ r.stash.mStash) ++ [])).Perm (view r.emplaced)
    rw [List.append_nil, ← List.append_assoc]
    exact h

theorem Conserved.run {r : Session β} (h : r.Conserved) (calls : List (Call β)) :
    (r.run calls).Conserved := by
  induction calls generalizing r with
  | nil => exact h
  | cons call calls ih => exact ih (h.step call)

end Session

end MediaFramework.Codec2
