import MediaFramework.Codec2.ReorderRuns

/-!
# The order in which a reorder stash lets go of its entries

With a fixed depth and key, entries that come nearly in order are popped in order, except around
an end of stream without a buffer, which the stash does not sort in.
-/

namespace MediaFramework.Codec2

open ReorderBuffer

variable {β : Type*}

section Sorting

variable {key : OrdinalKey} {lift : BitVec 64 → Int} {D : Nat} {es out : List (Entry β)}
  {s : ReorderStash β} {e : Entry β}

open ReorderStash

/-- The position of an entry on the key, when `lift` says which number a counter stands for. -/
def rank (key : OrdinalKey) (lift : BitVec 64 → Int) (e : Entry β) : Int :=
  lift (key.counter e.ordinal)

/-- The counters of the entries stand for numbers within `2 ^ 63` of each other. -/
structure Comparable (key : OrdinalKey) (lift : BitVec 64 → Int) (es : List (Entry β)) : Prop where
  lifts : ∀ e ∈ es, BitVec.ofInt 64 (rank key lift e) = key.counter e.ordinal
  near : ∀ a ∈ es, ∀ b ∈ es, rank key lift a - rank key lift b < 2^63

theorem Comparable.mono {es' : List (Entry β)} (h : Comparable key lift es) (hsub : es' ⊆ es) :
    Comparable key lift es' :=
  ⟨fun e he => h.lifts e (hsub he), fun a ha b hb => h.near a (hsub ha) b (hsub hb)⟩

theorem Comparable.less_iff (h : Comparable key lift es) {a b : Entry β} (ha : a ∈ es)
    (hb : b ∈ es) : less key a.ordinal b.ordinal ↔ rank key lift a < rank key lift b := by
  have hla := h.lifts a ha
  have hlb := h.lifts b hb
  have hab := h.near a ha b hb
  have hba := h.near b hb a ha
  have hne : key.counter a.ordinal ≠ key.counter b.ordinal ↔
      rank key lift a ≠ rank key lift b := by
    constructor
    · intro hne hrank
      rw [hrank] at hla
      exact hne (hla.symm.trans hlb)
    · intro hne hcounter
      exact hne (congrArg lift hcounter)
  rw [less, cntrLt, hne, ← hla, ← hlb, BitVec.toNat_sub, BitVec.toNat_ofInt, BitVec.toNat_ofInt]
  omega

/-- The entries `es` were emplaced and `out` let go, with the rest in the stash, all of it in
order. -/
def Sorting (key : OrdinalKey) (lift : BitVec 64 → Int) (D : Nat) (es out stash : List (Entry β)) :
    Prop :=
  Ordered (rank key lift) D (view es) (view out) (view stash)

/-- What is in the stash was emplaced, perhaps with another end of stream flag. -/
theorem Sorting.exists_emplaced (h : Sorting key lift D es out s.mStash) {a : Entry β}
    (ha : a ∈ s.mStash) : ∃ x ∈ es, x.ordinal = a.ordinal := by
  have hmem : a.clearEos ∈ view es :=
    h.perm.mem_iff.mp (List.mem_append_right _ (List.mem_map_of_mem ha))
  obtain ⟨x, hx, hview⟩ := List.mem_map.mp hmem
  refine ⟨x, hx, ?_⟩
  rw [← Entry.clearEos_ordinal, hview, Entry.clearEos_ordinal]

theorem Sorting.less_iff (h : Sorting key lift D es out s.mStash)
    (hcomp : Comparable key lift (es ++ [e])) {a : Entry β} (ha : a ∈ s.mStash) :
    (less key e.ordinal a.ordinal ↔ rank key lift e < rank key lift a) ∧
      (less key a.ordinal e.ordinal ↔ rank key lift a < rank key lift e) := by
  obtain ⟨x, hx, hord⟩ := h.exists_emplaced ha
  have hx' : x ∈ es ++ [e] := List.mem_append_left _ hx
  have he : e ∈ es ++ [e] := List.mem_append_right _ (List.mem_singleton_self e)
  have hrank : rank key lift a = rank key lift x := by rw [rank, rank, hord]
  rw [hrank, ← hord]
  exact ⟨hcomp.less_iff he hx', hcomp.less_iff hx' he⟩

/-- An entry is sorted in, unless it is an end of stream without a buffer and some earlier entry
is larger. -/
theorem Sorting.view_stashed (h : Sorting key lift D es out s.mStash) (hkey : s.mKey = key)
    (hcomp : Comparable key lift (es ++ [e]))
    (htame : e.BareEos → ∀ x ∈ es, ¬less key e.ordinal x.ordinal) :
    view (s.stashed e) = place (rank key lift) e.clearEos (view s.mStash) := by
  by_cases hbare : e.BareEos
  · -- nothing in the stash is larger, so the back is where it belongs
    rw [view_stashed_of_bareEos hbare, place_of_forall_le]
    intro y hy
    obtain ⟨a, ha, rfl⟩ := List.mem_map.mp hy
    obtain ⟨x, hx, hord⟩ := h.exists_emplaced ha
    have hnot := htame hbare x hx
    rw [hord, (h.less_iff hcomp ha).1] at hnot
    exact not_lt.mp hnot
  · have hmap := List.map_orderedInsert (fun a b : Entry β => less key a.ordinal b.ordinal)
      (fun a b : Entry β => rank key lift a < rank key lift b) Entry.clearEos s.mStash e.clearEos
      (fun a ha => (h.less_iff hcomp ha).2) (fun a ha => (h.less_iff hcomp ha).1)
    rw [view_stashed_of_not_bareEos hbare, hkey, place, view, hmap, Entry.clearEos_clearEos]
    rfl

/-- Counting larger entries by the comparison of the stash. -/
theorem Comparable.length_larger (hcomp : Comparable key lift (es ++ [e])) :
    ((view es).filter (rank key lift e.clearEos < rank key lift ·)).length =
      (es.filter fun x => less key e.ordinal x.ordinal).length := by
  rw [view, List.filter_map, List.length_map]
  congr 1
  apply List.filter_congr
  intro x hx
  have he : e ∈ es ++ [e] := List.mem_append_right _ (List.mem_singleton_self e)
  exact decide_eq_decide.mpr (hcomp.less_iff he (List.mem_append_left _ hx)).symm

theorem Sorting.emplace (h : Sorting key lift D es out s.mStash) (hkey : s.mKey = key)
    (hdepth : s.mDepth = D) (hcomp : Comparable key lift (es ++ [e]))
    (hdisp : (es.filter fun x => less key e.ordinal x.ordinal).length ≤ D)
    (htame : e.BareEos → ∀ x ∈ es, ¬less key e.ordinal x.ordinal) :
    ∃ moved rest, s.emplace e = { s with mPending := s.mPending ++ moved, mStash := rest } ∧
      Sorting key lift D (es ++ [e]) (out ++ moved) rest := by
  obtain ⟨moved, rest, hstash, hemplace, hle, hfull⟩ := emplace_spec s e
  have hplace := h.view_stashed hkey hcomp htame
  rw [hstash, view_append] at hplace
  rw [← hcomp.length_larger] at hdisp
  refine ⟨moved, rest, hemplace, ?_⟩
  rw [Sorting, view_append, view_append]
  refine Ordered.emplace h hdisp hplace.symm ?_ ?_
  · rw [view, List.length_map, ← hdepth]
    exact hle
  · intro hmoved
    rw [view, List.length_map, ← hdepth]
    apply hfull
    rintro rfl
    exact hmoved rfl

/-- An end of stream without a buffer goes to the back of the stash, so only what was there
before is let go. -/
theorem emplace_bareEos (hdepth : s.mDepth = D) (hD : 0 < D) (hbare : e.BareEos) :
    ∃ moved rest, s.emplace e = { s with mPending := s.mPending ++ moved, mStash := rest } ∧
      moved <+: s.mStash := by
  obtain ⟨moved, rest, hstash, hemplace, hle, hfull⟩ := emplace_spec s e
  rw [stashed, if_pos hbare] at hstash
  refine ⟨moved, rest, hemplace, ?_⟩
  by_cases hmoved : moved = []
  · rw [hmoved]
    exact List.nil_prefix
  · have hlen := congrArg List.length hstash
    have hrest := hfull hmoved
    rw [List.length_append, List.length_append, List.length_singleton] at hlen
    have hprefix : moved <+: s.mStash ++ [e] := ⟨rest, hstash.symm⟩
    exact List.prefix_of_prefix_length_le hprefix (List.prefix_append _ _) (by omega)

/-! ### Nearly sorted runs -/

/-- At most `D` larger entries come before any entry. -/
def NearlySorted (key : OrdinalKey) (D : Nat) (es : List (Entry β)) : Prop :=
  ∀ front e back, es = front ++ e :: back →
    (front.filter fun x => less key e.ordinal x.ordinal).length ≤ D

/-- No larger entry comes before an end of stream without a buffer. -/
def TameEos (key : OrdinalKey) (es : List (Entry β)) : Prop :=
  ∀ front e back, es = front ++ e :: back → e.BareEos → ∀ x ∈ front, ¬less key e.ordinal x.ordinal

/-- No larger entry comes before an end of stream without a buffer, if it is not the last. -/
def TameEosUnlessLast (key : OrdinalKey) (es : List (Entry β)) : Prop :=
  ∀ front e back, es = front ++ e :: back → e.BareEos →
    back = [] ∨ ∀ x ∈ front, ¬less key e.ordinal x.ordinal

omit key lift D es out s e in
/-- A property of every place in a list is one of every index. -/
theorem forall_split_iff {α : Type*} {l : List α} {P : List α → α → List α → Prop} :
    (∀ front x back, l = front ++ x :: back → P front x back) ↔
      ∀ i : Fin l.length, P (l.take i) (l.get i) (l.drop (i + 1)) := by
  constructor
  · intro h i
    apply h
    rw [List.get_eq_getElem, ← List.drop_eq_getElem_cons i.isLt, List.take_append_drop]
  · rintro h front x back rfl
    have hi := h ⟨front.length, by simp⟩
    simpa using hi

instance (key : OrdinalKey) (D : Nat) (es : List (Entry β)) : Decidable (NearlySorted key D es) :=
  decidable_of_iff (∀ i : Fin es.length,
      ((es.take i).filter fun x => less key (es.get i).ordinal x.ordinal).length ≤ D)
    (forall_split_iff (P := fun (front : List (Entry β)) e _ =>
      (front.filter fun x => less key e.ordinal x.ordinal).length ≤ D)).symm

instance (key : OrdinalKey) (es : List (Entry β)) : Decidable (TameEosUnlessLast key es) :=
  decidable_of_iff (∀ i : Fin es.length, (es.get i).BareEos →
      (es.drop (i + 1)).isEmpty ∨ ∀ x ∈ es.take i, ¬less key (es.get i).ordinal x.ordinal)
    ((forall_split_iff (P := fun (front : List (Entry β)) e back => e.BareEos →
      back.isEmpty ∨ ∀ x ∈ front, ¬less key e.ordinal x.ordinal)).symm.trans (by
        simp only [List.isEmpty_iff, TameEosUnlessLast]))

/-- Only the last entry may be out of place. -/
theorem TameEosUnlessLast.tameEos {rest : List (Entry β)}
    (h : TameEosUnlessLast key (es ++ e :: rest)) : TameEos key es := by
  rintro front e' back rfl hbare
  obtain hnil | htame := h front e' (back ++ e :: rest) (by simp) hbare
  · exact absurd hnil (by simp)
  · exact htame

theorem Sorting.released_sorted {stash : List (Entry β)} (h : Sorting key lift D es out stash) :
    (view out).Pairwise fun a b => rank key lift a ≤ rank key lift b :=
  (List.pairwise_append.mp h.sorted).1

theorem Sorting.released_stable {stash : List (Entry β)} (h : Sorting key lift D es out stash)
    (k : Int) :
    (view out).filter (rank key lift · = k) <+: (view es).filter (rank key lift · = k) := by
  rw [← h.stable, List.filter_append]
  exact List.prefix_append _ _

/-- Selecting by the counter is selecting by the number it stands for. -/
theorem Comparable.view_filter (hcomp : Comparable key lift es) {x : Entry β} (hx : x ∈ es)
    {l : List (Entry β)} (hl : ∀ a ∈ l, ∃ y ∈ es, y.ordinal = a.ordinal) :
    view (l.filter fun a => key.counter a.ordinal = key.counter x.ordinal) =
      (view l).filter (rank key lift · = rank key lift x) := by
  rw [view, view, List.filter_map]
  congr 1
  apply List.filter_congr
  intro a ha
  obtain ⟨y, hy, hord⟩ := hl a ha
  apply decide_eq_decide.mpr
  show key.counter a.ordinal = key.counter x.ordinal ↔
    lift (key.counter a.ordinal) = lift (key.counter x.ordinal)
  rw [← hord]
  constructor
  · exact congrArg lift
  · intro hrank
    rw [← hcomp.lifts y hy, ← hcomp.lifts x hx, rank, rank, hrank]

namespace Session

/-- A run with fixed depth and key. -/
structure InOrder (key : OrdinalKey) (lift : BitVec 64 → Int) (D : Nat) (r : Session β) :
    Prop where
  depth : r.stash.mDepth = D
  key_eq : r.stash.mKey = key
  sorted : (view r.released).Pairwise fun a b => rank key lift a ≤ rank key lift b
  stable : ∀ k, (view r.released).filter (rank key lift · = k) <+:
    (view r.emplaced).filter (rank key lift · = k)
  sorting : TameEos key r.emplaced → Sorting key lift D r.emplaced r.released r.stash.mStash

variable {r : Session β}

theorem InOrder.emplace (h : r.InOrder key lift D) (hcomp : Comparable key lift (r.emplaced ++ [e]))
    (hdisp : (r.emplaced.filter fun x => less key e.ordinal x.ordinal).length ≤ D)
    (htame : TameEos key r.emplaced) : (r.step (.emplace e)).InOrder key lift D := by
  have hsorting := h.sorting htame
  by_cases he : e.BareEos → ∀ x ∈ r.emplaced, ¬less key e.ordinal x.ordinal
  · obtain ⟨moved, rest, hemplace, hsorting'⟩ := hsorting.emplace h.key_eq h.depth hcomp hdisp he
    have hreleased : (r.step (.emplace e)).released = r.released ++ moved := by
      show r.popped ++ (r.stash.emplace e).mPending = _
      rw [hemplace, released, List.append_assoc]
    have hstash : (r.step (.emplace e)).stash = r.stash.emplace e := rfl
    refine ⟨?_, ?_, ?_, ?_, fun _ => ?_⟩
    · rw [hstash, hemplace]
      exact h.depth
    · rw [hstash, hemplace]
      exact h.key_eq
    · rw [hreleased]
      exact hsorting'.released_sorted
    · intro k
      rw [hreleased]
      exact hsorting'.released_stable k
    · rw [hreleased, hstash, hemplace]
      exact hsorting'
  · -- an end of stream below an earlier entry: nothing may follow it, and it stays behind
    simp only [not_forall, not_not] at he
    obtain ⟨hbare, x, hx, hless⟩ := he
    have hD : 0 < D := by
      have hpos : 0 < (r.emplaced.filter fun x => less key e.ordinal x.ordinal).length :=
        List.length_pos_of_mem (List.mem_filter.mpr ⟨hx, by simpa using hless⟩)
      omega
    obtain ⟨moved, rest, hemplace, hmoved⟩ := emplace_bareEos h.depth hD hbare
    have hreleased : (r.step (.emplace e)).released = r.released ++ moved := by
      show r.popped ++ (r.stash.emplace e).mPending = _
      rw [hemplace, released, List.append_assoc]
    have hstash : (r.step (.emplace e)).stash = r.stash.emplace e := rfl
    have hprefix : view (r.released ++ moved) <+: view r.released ++ view r.stash.mStash := by
      rw [view_append]
      exact (List.prefix_append_right_inj _).mpr (hmoved.map _)
    refine ⟨?_, ?_, ?_, ?_, ?_⟩
    · rw [hstash, hemplace]
      exact h.depth
    · rw [hstash, hemplace]
      exact h.key_eq
    · rw [hreleased]
      exact hsorting.sorted.sublist hprefix.sublist
    · intro k
      rw [hreleased]
      have hview : view (r.step (.emplace e)).emplaced = view r.emplaced ++ view [e] :=
        view_append _ _
      rw [hview, List.filter_append]
      refine List.IsPrefix.trans ?_ (List.prefix_append _ _)
      rw [← hsorting.stable]
      exact hprefix.filter _
    · intro htame'
      exact absurd hless (htame' r.emplaced e [] rfl hbare x hx)

/-- The calls that leave depth and key alone. -/
def Call.Steady : Call β → Prop
  | .emplace _ => True
  | .pop => True
  | .defer => True
  | .setDepth _ => False
  | .setKey _ => False

instance (call : Call β) : Decidable call.Steady :=
  match call with
  | .emplace _ | .pop | .defer => inferInstanceAs (Decidable True)
  | .setDepth _ | .setKey _ => inferInstanceAs (Decidable False)

theorem InOrder.frame {r' : Session β} (h : r.InOrder key lift D)
    (hr' : r'.released = r.released ∧ r'.stash.mStash = r.stash.mStash ∧
      r'.emplaced = r.emplaced ∧ r'.stash.mDepth = r.stash.mDepth ∧
      r'.stash.mKey = r.stash.mKey) : r'.InOrder key lift D := by
  obtain ⟨hreleased, hstash, hemplaced, hdepth, hkey⟩ := hr'
  refine ⟨hdepth.trans h.depth, hkey.trans h.key_eq, ?_, ?_, ?_⟩
  · rw [hreleased]
    exact h.sorted
  · rw [hreleased, hemplaced]
    exact h.stable
  · rw [hreleased, hemplaced, hstash]
    exact h.sorting

theorem InOrder.run (h : r.InOrder key lift D) (calls : List (Call β))
    (hsteady : ∀ call ∈ calls, call.Steady)
    (hcomp : Comparable key lift (r.emplaced ++ emplacedBy calls))
    (hnear : NearlySorted key D (r.emplaced ++ emplacedBy calls))
    (heos : TameEosUnlessLast key (r.emplaced ++ emplacedBy calls)) :
    (r.run calls).InOrder key lift D := by
  induction calls generalizing r with
  | nil => exact h
  | cons call calls ih =>
    obtain ⟨hcall, hcalls⟩ := List.forall_mem_cons.mp hsteady
    cases call with
    | emplace e =>
      have hes : r.emplaced ++ emplacedBy (.emplace e :: calls) =
          r.emplaced ++ [e] ++ emplacedBy calls := by
        rw [List.append_assoc, List.singleton_append]
        rfl
      have hstep : (r.step (.emplace e)).InOrder key lift D := by
        refine h.emplace (hcomp.mono ?_) (hnear _ _ _ rfl) heos.tameEos
        rw [hes]
        exact List.subset_append_left _ _
      rw [hes] at hcomp hnear heos
      exact ih hstep hcalls hcomp hnear heos
    | pop =>
      have hemplaced := (step_pop r).2.2.1
      refine ih (h.frame (step_pop r)) hcalls ?_ ?_ ?_
      · rw [hemplaced]
        exact hcomp
      · rw [hemplaced]
        exact hnear
      · rw [hemplaced]
        exact heos
    | defer =>
      have hemplaced := (step_defer r).2.2.1
      refine ih (h.frame (step_defer r)) hcalls ?_ ?_ ?_
      · rw [hemplaced]
        exact hcomp
      · rw [hemplaced]
        exact hnear
      · rw [hemplaced]
        exact heos
    | setDepth depth => exact absurd hcall id
    | setKey key => exact absurd hcall id

/-- An empty stash with depth `D`. -/
def fresh (D : Nat) (key : OrdinalKey) : Session β := { stash := { mDepth := D, mKey := key } }

theorem InOrder.fresh (key : OrdinalKey) (lift : BitVec 64 → Int) (D : Nat) :
    (Session.fresh D key : Session β).InOrder key lift D where
  depth := rfl
  key_eq := rfl
  sorted := .nil
  stable := fun _ => List.prefix_rfl
  sorting := fun _ => Ordered.nil _ _

theorem Conserved.fresh (D : Nat) (key : OrdinalKey) :
    (Session.fresh D key : Session β).Conserved :=
  List.Perm.refl _

theorem Conserved.exists_emplaced (h : r.Conserved) {a : Entry β} (ha : a ∈ r.popped) :
    ∃ x ∈ r.emplaced, x.ordinal = a.ordinal := by
  have hmem : a.clearEos ∈ view r.emplaced := by
    apply h.mem_iff.mp
    exact List.mem_map_of_mem (List.mem_append_left _ (List.mem_append_left _ ha))
  obtain ⟨x, hx, hview⟩ := List.mem_map.mp hmem
  refine ⟨x, hx, ?_⟩
  rw [← Entry.clearEos_ordinal, hview, Entry.clearEos_ordinal]

/-- The entries popped are those emplaced, whatever the calls. With a fixed depth and key, if at
most `D` larger entries come before any of them and an end of stream without a buffer comes last
or after no larger one, they are popped in order, those with equal keys in the order in which
they came. -/
theorem popped_in_order (D : Nat) (key : OrdinalKey) (calls : List (Call β)) :
    (view (((fresh D key).run calls).popped ++ ((fresh D key).run calls).stash.mPending ++
      ((fresh D key).run calls).stash.mStash)).Perm (view (emplacedBy calls)) ∧
    ∀ lift : BitVec 64 → Int, (∀ call ∈ calls, call.Steady) →
      Comparable key lift (emplacedBy calls) → NearlySorted key D (emplacedBy calls) →
      TameEosUnlessLast key (emplacedBy calls) →
      (((fresh D key).run calls).popped.Pairwise fun a b => rank key lift a ≤ rank key lift b) ∧
      ∀ counter : BitVec 64,
        view (((fresh D key).run calls).popped.filter (key.counter ·.ordinal = counter)) <+:
          view ((emplacedBy calls).filter (key.counter ·.ordinal = counter)) := by
  have hcons : ((fresh D key : Session β).run calls).Conserved :=
    (Conserved.fresh D key).run calls
  have hemplaced : ((fresh D key).run calls).emplaced = emplacedBy calls := run_emplaced _ _
  refine ⟨hemplaced ▸ hcons, ?_⟩
  intro lift hsteady hcomp hnear heos
  have hrun := (InOrder.fresh key lift D).run calls hsteady hcomp hnear heos
  have hsorted := hrun.sorted
  have hstable := hrun.stable
  rw [released, view_append] at hsorted
  rw [hemplaced] at hstable
  constructor
  · have hpopped := (List.pairwise_append.mp hsorted).1
    rw [view, List.pairwise_map] at hpopped
    exact hpopped
  · intro counter
    have hpopped : ∀ a ∈ ((fresh D key).run calls).popped,
        ∃ y ∈ emplacedBy calls, y.ordinal = a.ordinal := by
      intro a ha
      rw [← hemplaced]
      exact hcons.exists_emplaced ha
    by_cases hx : ∃ x ∈ emplacedBy calls, key.counter x.ordinal = counter
    · obtain ⟨x, hx, rfl⟩ := hx
      rw [hcomp.view_filter hx hpopped, hcomp.view_filter hx fun y hy => ⟨y, hy, rfl⟩]
      refine List.IsPrefix.trans ?_ (hstable (rank key lift x))
      rw [released, view_append, List.filter_append]
      exact List.prefix_append _ _
    · have hnone : ((fresh D key).run calls).popped.filter
          (key.counter ·.ordinal = counter) = [] := by
        apply List.filter_eq_nil_iff.mpr
        intro a ha hcounter
        obtain ⟨y, hy, hord⟩ := hpopped a ha
        exact hx ⟨y, hy, by rw [hord]; simpa using hcounter⟩
      rw [hnone]
      exact List.nil_prefix

/-- An entry with the given buffer, flags and frame index. -/
def anEntry (buffer : Option Nat) (flags : BitVec 32) (frameIndex : BitVec 64) : Entry Nat :=
  ⟨buffer, 0, flags, { frameIndex := frameIndex }⟩

/-- A counter that has not wrapped. -/
def unwrapped (counter : BitVec 64) : Int := counter.toNat

/-- Frames 2, 1 and 3 through a stash of depth 1; the first two are popped. -/
theorem popped_in_order_threeFrames :
    ∃ r : Session Nat, r.popped.map (·.ordinal.frameIndex) = [1, 2] ∧
      (view (r.popped ++ r.stash.mPending ++ r.stash.mStash)).Perm
        (view [anEntry (some 0) 0 2, anEntry (some 1) 0 1, anEntry (some 2) BUFFER_FLAG_EOS 3]) ∧
      r.popped.Pairwise fun a b => rank .ORDINAL unwrapped a ≤ rank .ORDINAL unwrapped b := by
  have hrun := popped_in_order 1 .ORDINAL [.emplace (anEntry (some 0) 0 2),
    .emplace (anEntry (some 1) 0 1), .pop, .defer, .emplace (anEntry (some 2) BUFFER_FLAG_EOS 3),
    .pop, .pop, .pop]
  exact ⟨_, by decide, hrun.1, (hrun.2 unwrapped (by decide) ⟨by decide, by decide⟩ (by decide)
    (by decide)).1⟩

/-- With depth 2 frame 5 is popped before frame 3, which comes with the end of stream and without
a buffer. -/
theorem eos_without_buffer_popped_late :
    ∃ calls : List (Call Nat), (∀ call ∈ calls, call.Steady) ∧
      Comparable .ORDINAL unwrapped (emplacedBy calls) ∧
      NearlySorted .ORDINAL 2 (emplacedBy calls) ∧
      ((fresh 2 .ORDINAL).run calls).popped.map (·.ordinal.frameIndex) = [5, 3] ∧
      ¬((fresh 2 .ORDINAL).run calls).popped.Pairwise fun a b =>
        rank .ORDINAL unwrapped a ≤ rank .ORDINAL unwrapped b :=
  ⟨[.emplace (anEntry (some 0) 0 5), .emplace (anEntry none BUFFER_FLAG_EOS 3),
    .emplace (anEntry (some 1) 0 7), .emplace (anEntry (some 2) 0 8), .pop, .pop],
    by decide, ⟨by decide, by decide⟩, by decide, by decide, by decide⟩

end Session

end Sorting

end MediaFramework.Codec2
