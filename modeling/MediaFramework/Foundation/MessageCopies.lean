import MediaFramework.Foundation.MessageMaps
import MediaFramework.Lib.Machine

/-!
# Copies of messages

`AMessage::dup` copies a message with all the messages that it refers to. It takes each reference for
one that is not null, and comes to an end only where no message refers back to itself.
-/

namespace MediaFramework.Foundation.MessageMemory

namespace Memory

/-- The value of the copy. A null pointer is dereferenced. -/
def dupCell (dup : Memory → Nat → Option (Memory × Nat)) (mem : Memory) :
    Cell → Option (Memory × Cell)
  | .objectValue refValue => refValue.map fun obj => (mem, .objectValue (some obj))
  | .bufferValue refValue => refValue.map fun buffer => (mem, .bufferValue (some buffer))
  | .messageValue refValue => do
    let b ← refValue
    let (mem, copy) ← dup mem b
    return (mem, .messageValue (some copy))
  | value => some (mem, value)

def dupItems (dup : Memory → Nat → Option (Memory × Nat)) :
    Memory → List Item → Option (Memory × List Item)
  | mem, [] => some (mem, [])
  | mem, item :: items => do
    let (mem, value) ← dupCell dup mem item.2
    let (mem, items) ← dupItems dup mem items
    return (mem, (item.1, value) :: items)

/-- The memory with the copy, and its address, for so many messages inside of each other. Nothing refers to the
copy before its items are there. -/
def dup : Nat → Memory → Nat → Option (Memory × Nat)
  | 0, _, _ => none
  | n + 1, mem, a => do
    let m ← mem[a]?
    let (mem, mItems) ← dupItems (dup n) mem m.mItems
    return (mem ++ [{ m with mItems }], mem.length)

end Memory

open MessageMemory.Memory

/-! ### What a copy is -/

/-- A reference to another message becomes one to a copy, anything else stays as it is. -/
def CopiedCell (copied : Nat → Nat → Prop) (value value' : Cell) : Prop :=
  match value with
  | .messageValue (some b) => ∃ b', value' = .messageValue (some b') ∧ copied b b'
  | _ => value' = value

/-- The message at `a'` is a copy of the one at `a`, made of messages from `start` on, with so many
inside of each other. -/
def CopiedWithin (mem : Memory) (start : Nat) : Nat → Nat → Nat → Prop
  | 0, _, _ => False
  | n + 1, a, a' => start ≤ a' ∧ ∃ m m', mem[a]? = some m ∧ mem[a']? = some m' ∧
    m'.mWhat = m.mWhat ∧ List.Forall₂ (fun item item' => item'.1 = item.1 ∧
      CopiedCell (CopiedWithin mem start n) item.2 item'.2) m.mItems m'.mItems

/-- `dup` returns, with new messages for a copy and the others as they were. -/
def Copied (mem : Memory) (a : Nat) : Prop :=
  ∃ n mem' a', dup n mem a = some (mem', a') ∧ mem <+: mem' ∧
    CopiedWithin mem' mem.length n a a'

/-- A reference is not null. -/
def WholeCell (whole : Nat → Prop) : Cell → Prop
  | .objectValue refValue => refValue.isSome
  | .bufferValue refValue => refValue.isSome
  | .messageValue refValue => ∃ b, refValue = some b ∧ whole b
  | _ => True

/-- No reference is null in the message or a message inside of it, and there are no more than so many
inside of each other. -/
def WholeWithin (mem : Memory) : Nat → Nat → Prop
  | 0, _ => False
  | n + 1, a => ∃ m, mem[a]? = some m ∧ ∀ item ∈ m.mItems, WholeCell (WholeWithin mem n) item.2

def Whole (mem : Memory) (a : Nat) : Prop := ∃ n, WholeWithin mem n a

variable {mem mem₁ mem' : Memory} {a a' n : Nat} {m : Message}

theorem getElem?_of_prefix (h : mem <+: mem₁) (ha : mem[a]? = some m) : mem₁[a]? = some m := by
  obtain ⟨rest, rfl⟩ := h
  rw [List.getElem?_append_left (List.getElem?_eq_some_iff.mp ha).1]
  exact ha

theorem CopiedCell.mono {P Q : Nat → Nat → Prop} (h : ∀ b b', P b b' → Q b b') {value value' : Cell}
    (hvalue : CopiedCell P value value') : CopiedCell Q value value' := by
  cases value with
  | messageValue refValue =>
    cases refValue with
    | none => exact hvalue
    | some b =>
      obtain ⟨b', hb', hcopied⟩ := hvalue
      exact ⟨b', hb', h b b' hcopied⟩
  | _ => exact hvalue

/-- A copy stays one while messages come to memory. -/
theorem CopiedWithin.mono {start start₁ : Nat} (hmem : mem <+: mem₁) (hstart : start₁ ≤ start)
    (h : CopiedWithin mem start n a a') : CopiedWithin mem₁ start₁ n a a' := by
  induction n generalizing a a' with
  | zero => exact h
  | succ n ih =>
    obtain ⟨hnew, m, m', hm, hm', hwhat, hitems⟩ := h
    exact ⟨Nat.le_trans hstart hnew, m, m', getElem?_of_prefix hmem hm, getElem?_of_prefix hmem hm',
      hwhat, hitems.imp fun _ _ hitem => ⟨hitem.1, hitem.2.mono fun _ _ => ih⟩⟩

/-! ### What `dup` returns is a copy -/

section

variable {copy : Memory → Nat → Option (Memory × Nat)}

theorem dupCell_copies {value value' : Cell}
    (hcopy : ∀ mem b mem' b', copy mem b = some (mem', b') →
      mem <+: mem' ∧ CopiedWithin mem' mem.length n b b')
    (h : dupCell copy mem value = some (mem', value')) :
    mem <+: mem' ∧ CopiedCell (CopiedWithin mem' mem.length n) value value' := by
  cases value with
  | objectValue refValue =>
    obtain ⟨obj, rfl, h⟩ := Option.map_eq_some_iff.mp h
    cases h
    exact ⟨List.prefix_refl _, rfl⟩
  | bufferValue refValue =>
    obtain ⟨buffer, rfl, h⟩ := Option.map_eq_some_iff.mp h
    cases h
    exact ⟨List.prefix_refl _, rfl⟩
  | messageValue refValue =>
    simp only [dupCell, Option.bind_eq_bind, Option.bind_eq_some_iff] at h
    obtain ⟨b, rfl, ⟨mem₁, b'⟩, hb, h⟩ := h
    cases h
    obtain ⟨hmem, hcopied⟩ := hcopy _ _ _ _ hb
    exact ⟨hmem, b', rfl, hcopied⟩
  | _ =>
    cases h
    exact ⟨List.prefix_refl _, rfl⟩

theorem dupItems_copies {items items' : List Item}
    (hcopy : ∀ mem b mem' b', copy mem b = some (mem', b') →
      mem <+: mem' ∧ CopiedWithin mem' mem.length n b b')
    (h : dupItems copy mem items = some (mem', items')) :
    mem <+: mem' ∧ List.Forall₂ (fun item item' => item'.1 = item.1 ∧
      CopiedCell (CopiedWithin mem' mem.length n) item.2 item'.2) items items' := by
  induction items generalizing mem items' with
  | nil =>
    cases h
    exact ⟨List.prefix_refl _, .nil⟩
  | cons item items ih =>
    simp only [dupItems, Option.bind_eq_bind, Option.bind_eq_some_iff] at h
    obtain ⟨⟨mem₁, value⟩, hcell, ⟨mem₂, items₂⟩, hrest, h⟩ := h
    cases h
    obtain ⟨hmem₁, hvalue⟩ := dupCell_copies hcopy hcell
    obtain ⟨hmem₂, hitems⟩ := ih hrest
    have hlength := hmem₁.length_le
    refine ⟨hmem₁.trans hmem₂, .cons ⟨rfl, ?_⟩ (hitems.imp fun _ _ hitem => ⟨hitem.1, ?_⟩)⟩
    · exact hvalue.mono fun _ _ => CopiedWithin.mono hmem₂ (Nat.le_refl _)
    · exact hitem.2.mono fun _ _ => CopiedWithin.mono (List.prefix_refl _) hlength

end

theorem dup_copies (h : dup n mem a = some (mem', a')) :
    mem <+: mem' ∧ CopiedWithin mem' mem.length n a a' := by
  induction n generalizing mem a mem' a' with
  | zero => cases h
  | succ n ih =>
    simp only [dup, Option.bind_eq_bind, Option.bind_eq_some_iff] at h
    obtain ⟨m, hm, ⟨mem₁, mItems⟩, hitems, h⟩ := h
    cases h
    obtain ⟨hmem, hcopied⟩ := dupItems_copies (fun _ _ _ _ => ih) hitems
    have hlast : mem₁ <+: mem₁ ++ [{ m with mItems }] := List.prefix_append _ _
    refine ⟨hmem.trans hlast, hmem.length_le, m, { m with mItems },
      getElem?_of_prefix (hmem.trans hlast) hm, List.getElem?_concat_length, rfl,
      hcopied.imp fun _ _ hitem => ⟨hitem.1, ?_⟩⟩
    exact hitem.2.mono fun _ _ => CopiedWithin.mono hlast (Nat.le_refl _)

/-! ### When `dup` returns -/

theorem dupCell_returns {copy : Memory → Nat → Option (Memory × Nat)} {value : Cell}
    {whole : Nat → Prop} (hcopy : ∀ b, whole b → ∃ r, copy mem b = some r)
    (h : WholeCell whole value) : ∃ r, dupCell copy mem value = some r := by
  cases value with
  | objectValue refValue =>
    obtain ⟨obj, rfl⟩ := Option.isSome_iff_exists.mp h
    exact ⟨_, rfl⟩
  | bufferValue refValue =>
    obtain ⟨buffer, rfl⟩ := Option.isSome_iff_exists.mp h
    exact ⟨_, rfl⟩
  | messageValue refValue =>
    obtain ⟨b, rfl, hwhole⟩ := h
    obtain ⟨r, hr⟩ := hcopy b hwhole
    refine ⟨(r.1, .messageValue (some r.2)), ?_⟩
    simp only [dupCell, hr, Option.bind_eq_bind, Option.bind_some]
    rfl
  | _ => exact ⟨_, rfl⟩

theorem dup_returns (hmem : mem <+: mem₁) (h : WholeWithin mem n a) :
    ∃ r, dup n mem₁ a = some r := by
  induction n generalizing a mem₁ with
  | zero => exact h.elim
  | succ n ih =>
    obtain ⟨m, hm, hwhole⟩ := h
    have hitems : ∀ (items : List Item) (mem₁ : Memory), mem <+: mem₁ →
        (∀ item ∈ items, WholeCell (WholeWithin mem n) item.2) →
          ∃ r, dupItems (dup n) mem₁ items = some r := by
      intro items
      induction items with
      | nil => exact fun mem₁ _ _ => ⟨_, rfl⟩
      | cons item items ihItems =>
        intro mem₁ hmem hitems
        obtain ⟨hfirst, hrest⟩ := List.forall_mem_cons.mp hitems
        obtain ⟨⟨mem₂, value⟩, hcell⟩ := dupCell_returns (fun b => ih hmem) hfirst
        obtain ⟨hgrown, -⟩ := dupCell_copies (fun _ _ _ _ => dup_copies) hcell
        obtain ⟨r, hr⟩ := ihItems mem₂ (hmem.trans hgrown) hrest
        refine ⟨(r.1, (item.1, value) :: r.2), ?_⟩
        simp only [dupItems, hcell, hr, Option.bind_eq_bind, Option.bind_some]
        rfl
    obtain ⟨r, hr⟩ := hitems m.mItems mem₁ hmem hwhole
    refine ⟨(r.1 ++ [{ m with mItems := r.2 }], r.1.length), ?_⟩
    simp only [dup, getElem?_of_prefix hmem hm, hr, Option.bind_eq_bind, Option.bind_some]
    rfl

theorem dupCell_whole {copy : Memory → Nat → Option (Memory × Nat)} {value value' : Cell}
    {whole : Nat → Prop}
    (hcopy : ∀ b r, value = .messageValue (some b) → copy mem b = some r → whole b)
    (h : dupCell copy mem value = some (mem', value')) : WholeCell whole value := by
  cases value with
  | objectValue refValue =>
    obtain ⟨obj, rfl, -⟩ := Option.map_eq_some_iff.mp h
    exact rfl
  | bufferValue refValue =>
    obtain ⟨buffer, rfl, -⟩ := Option.map_eq_some_iff.mp h
    exact rfl
  | messageValue refValue =>
    simp only [dupCell, Option.bind_eq_bind, Option.bind_eq_some_iff] at h
    obtain ⟨b, rfl, r, hr, -⟩ := h
    exact ⟨b, rfl, hcopy b r rfl hr⟩
  | _ => trivial

theorem whole_of_dup (hclosed : Closed mem) (hmem : mem <+: mem₁) (ha : a < mem.length)
    {r : Memory × Nat} (h : dup n mem₁ a = some r) : WholeWithin mem n a := by
  induction n generalizing a mem₁ r with
  | zero => cases h
  | succ n ih =>
    simp only [dup, Option.bind_eq_bind, Option.bind_eq_some_iff] at h
    obtain ⟨m, hm, ⟨mem₂, mItems⟩, hrun, -⟩ := h
    have hhere : mem[a]? = some m := by
      obtain ⟨rest, rfl⟩ := hmem
      rwa [List.getElem?_append_left ha] at hm
    have hitems : ∀ (items : List Item) (mem₁ : Memory) (r : Memory × List Item), mem <+: mem₁ →
        (∀ b, RefersTo items b → b < mem.length) → dupItems (dup n) mem₁ items = some r →
          ∀ item ∈ items, WholeCell (WholeWithin mem n) item.2 := by
      intro items
      induction items with
      | nil => exact fun _ _ _ _ _ item hitem => (by cases hitem)
      | cons item items ihItems =>
        intro mem₁ r hmem hrange hrun
        simp only [dupItems, Option.bind_eq_bind, Option.bind_eq_some_iff] at hrun
        obtain ⟨⟨mem₂, value⟩, hcell, ⟨mem₃, items₃⟩, hrest, -⟩ := hrun
        obtain ⟨hgrown, -⟩ := dupCell_copies (fun _ _ _ _ => dup_copies) hcell
        refine List.forall_mem_cons.mpr ⟨?_, ?_⟩
        · refine dupCell_whole (fun b r hvalue hr => ih hmem (hrange b ?_) hr) hcell
          exact ⟨item, List.mem_cons_self, hvalue⟩
        · refine ihItems mem₂ _ (hmem.trans hgrown) (fun b hb => hrange b ?_) hrest
          obtain ⟨item', hitem', hvalue⟩ := hb
          exact ⟨item', List.mem_cons_of_mem _ hitem', hvalue⟩
    exact ⟨m, hhere, hitems m.mItems mem₁ _ hmem
      (fun b => hclosed m (List.mem_of_getElem? hhere) b) hrun⟩

/-- A message is copied exactly if no reference in it is null, at any depth, and the depth is bounded. -/
theorem copied_iff (hclosed : Closed mem) (ha : a < mem.length) : Copied mem a ↔ Whole mem a := by
  constructor
  · rintro ⟨n, mem', a', hrun, -⟩
    exact ⟨n, whole_of_dup hclosed (List.prefix_refl _) ha hrun⟩
  · rintro ⟨n, hwhole⟩
    obtain ⟨⟨mem', a'⟩, hrun⟩ := dup_returns (List.prefix_refl _) hwhole
    exact ⟨n, mem', a', hrun, dup_copies hrun⟩

/-! ### Runs -/

/-- Each message answers as its map, and is copied by `dup`. -/
structure Right (s : State) : Prop where
  answers : ∀ a m, s.memory[a]? = some m → Answers m.mItems (s.maps a)
  copied : ∀ a < s.memory.length, Copied s.memory a

/-- The call is about messages that are there, and no `CHECK` fails. -/
def Runs (low : Cell → BitVec 32) (s : State) (call : Call) : Prop :=
  call.Typed s.memory ∧ (s.memory.exec low call).isSome

/-- No message is spoiled by being extended by itself, and each message is whole. -/
def Sound (low : Cell → BitVec 32) (s : State) (call : Call) : Prop :=
  NotSpoiled s call ∧ ∀ a < (s.next low call).memory.length, Whole (s.next low call).memory a

structure Inv (s : State) : Prop where
  represents : s.Represents
  unused : ∀ a, s.memory.length ≤ a → s.maps a = fun _ => none
  closed : Closed s.memory

variable {low : Cell → BitVec 32} {s : State} {call : Call}

theorem next_eq (hrun : s.memory.exec low call = some mem') :
    s.next low call = ⟨mem', s.onMaps call⟩ := by
  rw [State.next, hrun]

/-- No call takes a message out of memory, and what is not there has no map. -/
theorem Inv.unused_exec (h : Inv s) (hrun : s.memory.exec low call = some mem') (b : Nat)
    (hb : mem'.length ≤ b) : s.onMaps call b = fun _ => none := by
  cases call with
  | new mWhat =>
    cases hrun
    rw [List.length_append] at hb
    exact h.unused b (Nat.le_trans (Nat.le_add_right _ _) hb)
  | setWhat a mWhat =>
    obtain ⟨m, -, rfl⟩ := Option.map_eq_some_iff.mp hrun
    rw [List.length_set] at hb
    exact h.unused b hb
  | change a c =>
    obtain ⟨m, mItems, hm, -, rfl⟩ := exec_change_eq_some hrun
    rw [List.length_set] at hb
    have hlt := (List.getElem?_eq_some_iff.mp hm).1
    have hne : b ≠ a := by
      rintro rfl
      exact absurd hlt (Nat.not_lt_of_le hb)
    rw [State.onMaps, Function.update_of_ne hne]
    exact h.unused b hb

theorem right_iff_step (h : Inv s) (hruns : Runs low s call) :
    (Right (s.next low call) ↔ Sound low s call) ∧ (Sound low s call → Inv (s.next low call)) := by
  obtain ⟨htyped, hsome⟩ := hruns
  obtain ⟨mem', hrun⟩ := Option.isSome_iff_exists.mp hsome
  have hclosed := h.closed.exec h.represents htyped hrun
  rw [Sound, next_eq hrun]
  have hcopied : (∀ a < mem'.length, Copied mem' a) ↔ ∀ a < mem'.length, Whole mem' a :=
    forall_congr' fun a => forall_congr' fun ha => copied_iff hclosed ha
  refine ⟨⟨fun hright => ⟨?_, hcopied.mp hright.copied⟩, fun hsound => ⟨?_, ?_⟩⟩, fun hsound => ?_⟩
  · by_contra hspoiled
    obtain ⟨a, m, hm, hnot⟩ := not_answers_of_spoiled h.represents hspoiled hrun
    exact hnot (hright.answers a m hm)
  · intro a m hm
    exact answers_iff.mpr
      (h.represents.exec (h.unused _ (Nat.le_refl _)) hsound.1 hrun a m hm)
  · exact hcopied.mpr hsound.2
  · exact ⟨h.represents.exec (h.unused _ (Nat.le_refl _)) hsound.1 hrun, h.unused_exec hrun, hclosed⟩

/-- No messages. -/
def State.start : State := ⟨[], fun _ _ => none⟩

theorem Inv.start : Inv State.start where
  represents := fun _ _ h => by cases h
  unused := fun _ _ => rfl
  closed := fun _ h => by cases h

/-- Whatever calls are made: all messages answer as maps and are copied after each call exactly if none
of the calls spoils a message and each message is whole after each call. -/
theorem right_iff_sound (low : Cell → BitVec 32) (calls : List Call)
    (hruns : Along (State.next low) (Runs low) State.start calls) :
    Along (State.next low) (fun s call => Right (s.next low call)) State.start calls ↔
      Along (State.next low) (Sound low) State.start calls :=
  Along.iff_given (fun _ _ => right_iff_step) hruns Inv.start

/-- A message with a reply token. -/
def awaiting : List Call := [.new 1, .change 0 (.set replyID (.objectValue (some 7)))]

theorem awaiting_runs : Along (State.next fun _ => 0) (Runs fun _ => 0) State.start awaiting := by
  refine ⟨⟨trivial, rfl⟩, ⟨?_, by decide⟩, trivial⟩
  intro b hb
  cases hb

theorem right_iff_sound_awaiting : Along (State.next fun _ => 0)
    (fun s call => Right (s.next (fun _ => 0) call)) State.start awaiting := by
  refine (right_iff_sound _ awaiting awaiting_runs).mpr ⟨⟨?_, ?_⟩, ⟨?_, ?_⟩, trivial⟩
  · intro a ha
    cases ha
  · intro a ha
    obtain rfl : a = 0 := Nat.lt_one_iff.mp ha
    exact ⟨1, _, rfl, fun item hitem => (by cases hitem)⟩
  · intro a ha
    cases ha
  · intro a ha
    obtain rfl : a = 0 := Nat.lt_one_iff.mp ha
    refine ⟨1, _, rfl, fun item hitem => ?_⟩
    rw [List.mem_singleton.mp hitem]
    exact rfl

def taken : List Call := awaiting ++ [.change 0 .senderAwaitsResponse]

/-- Where the token has been taken out, a null pointer is dereferenced. -/
theorem not_copied_taken :
    Along (State.next fun _ => 0) (Runs fun _ => 0) State.start taken ∧
      ¬ Copied (taken.foldl (State.next fun _ => 0) State.start).memory 0 := by
  refine ⟨⟨⟨trivial, rfl⟩, ⟨?_, by decide⟩, ⟨?_, by decide⟩, trivial⟩, ?_⟩
  · intro b hb
    cases hb
  · intro b hb
    cases hb
  · rintro ⟨n, mem', a', hrun, -⟩
    cases n with
    | zero => cases hrun
    | succ n => cases hrun

end MediaFramework.Foundation.MessageMemory
