import Mathlib.Algebra.Ring.Int.Defs
import Mathlib.Algebra.Ring.Nat
import MediaFramework.Mp4.ItemReadings

/-!
# The boxes in a box

The loop of `Box::parseChunks` goes forward through its parent, or comes to a negative offset and
ends there. Where it succeeds it has handed out boxes that lie one behind the other from the start of
the parent to its end.
-/

namespace MediaFramework.Mp4.Heif

open Heif.Status

variable {σ α : Type} {source : DataSource} {length : Nat}

/-- What is read is inside of the first `length` bytes. -/
def DataSource.EndsAt (source : DataSource) (length : Nat) : Prop :=
  ∀ offset n, 0 < (source.readAt offset n).1 → offset + (source.readAt offset n).1 ≤ length

/-- What has been handed to `onChunkData`. -/
structure Child where
  type : Nat
  offset : Int
  size : Nat
  deriving DecidableEq

/-- `onChunkData` with a record of its calls. -/
def recorded (onChunkData : Nat → Int → Nat → Parsing σ Unit) (type : Nat) (offset : Int)
    (size : Nat) : Parsing (σ × List Child) Unit :=
  ExceptT.mk fun s =>
    let r := (onChunkData type offset size).run.run s.1
    (r.1, (r.2, s.2 ++ [⟨type, offset, size⟩]))

/-- The loop of `parseChunks` and the check behind it, with the offsets at which `parseChunk` is
entered. With too few rounds there is no result. -/
def walk (source : DataSource) (onChunkData : Nat → Int → Nat → Parsing σ Unit) (stopOffset : Int) :
    Nat → Int → σ → Option ((Except Status Unit × σ) × List Int)
  | 0, _, _ => none
  | rounds + 1, offset, s =>
    if offset < stopOffset then
      match (parseChunk source onChunkData offset).run.run s with
      | (.error err, s) => some ((.error err, s), [offset])
      | (.ok next, s) =>
        (walk source onChunkData stopOffset rounds next s).map fun r => (r.1, offset :: r.2)
    else some ((if offset = stopOffset then .ok () else .error ERROR_MALFORMED, s), [])

/-- Boxes one behind the other, each with a header of 8 or of 16 bytes in front of its data. -/
def Tiles (stop : Int) : Int → List Child → Prop
  | offset, [] => offset = stop
  | offset, child :: children =>
    (child.offset = offset + 8 ∨ child.offset = offset + 16) ∧
      Tiles stop (child.offset + child.size) children

theorem Tiles.count {stop offset : Int} {children : List Child} (h : Tiles stop offset children) :
    offset + 8 * children.length ≤ stop := by
  induction children generalizing offset with
  | nil =>
    have hend : offset = stop := h
    rw [hend, List.length_nil]
    omega
  | cons child children ih =>
    obtain ⟨hheader, hrest⟩ := h
    have hle := ih hrest
    rw [List.length_cons]
    omega

/-- The boxes lie in their parent. -/
theorem Tiles.inside {stop offset : Int} {children : List Child} (h : Tiles stop offset children) :
    ∀ child ∈ children, offset + 8 ≤ child.offset ∧ child.offset + child.size ≤ stop := by
  induction children generalizing offset with
  | nil =>
    intro child hmem
    cases hmem
  | cons first children ih =>
    obtain ⟨hheader, hrest⟩ := h
    have hle := hrest.count
    intro child hmem
    obtain rfl | hmem := List.mem_cons.mp hmem
    · exact ⟨by omega, by omega⟩
    · have hinside := ih hrest child hmem
      exact ⟨by omega, hinside.2⟩

/-! ### A chunk -/

theorem partway_demand_bind {P E : σ → Prop} {Q : α → σ → Prop} {c : Prop} [Decidable c]
    {err : Status} {m : Unit → Parsing σ α} (hE : ∀ s, P s → E s)
    (h : c → Partway P (m ()) Q E) : Partway P (demand c err >>= m) Q E := by
  rw [demand]
  split
  · next hc => exact h hc
  · exact (Partway.throw (Q := fun _ _ => False) hE).bind fun _ _ hfalse => hfalse.elim

theorem off64_of_lt {x : Int} (hle : 0 ≤ x) (hlt : x < 2 ^ 63) : off64 x = x :=
  Int.bmod_eq_of_le (by omega) (by omega)

/-- A next offset that is not negative is behind the chunk. -/
theorem off64_next {offset : Int} {header size : Nat} (hoffset : 0 ≤ offset)
    (hdata : offset + header < 2 ^ 63) (hsize : size < 2 ^ 63) :
    off64 (offset + header + size) < 0 ∨
      off64 (offset + header + size) = offset + header + size := by
  by_cases hlt : offset + header + size < 2 ^ 63
  · exact .inr (off64_of_lt (by omega) hlt)
  · left
    rw [off64, Int.bmod_def]
    omega

/-- A chunk that is not an error. -/
structure Chunk (length : Nat) (offset next : Int) (child : Child) : Prop where
  nonneg : 0 ≤ offset
  header : child.offset = offset + 8 ∨ child.offset = offset + 16
  inside : child.offset ≤ length
  size : child.size < 2 ^ 63
  next : next = off64 (child.offset + child.size)

theorem partway_recorded (onChunkData : Nat → Int → Nat → Parsing σ Unit) (type : Nat)
    (offset : Int) (size : Nat) (log : List Child) :
    Partway (fun s => s.2 = log) (recorded onChunkData type offset size)
      (fun _ s => s.2 = log ++ [⟨type, offset, size⟩]) fun s => log <+: s.2 := by
  intro s hs
  have hlog : s.2 ++ [⟨type, offset, size⟩] = log ++ [⟨type, offset, size⟩] := by rw [hs]
  exact ⟨fun _ _ => hlog, fun _ _ => ⟨_, hlog.symm⟩⟩

theorem partway_chunk (hsource : source.EndsAt length) (hlength : length < 2 ^ 63)
    (onChunkData : Nat → Int → Nat → Parsing σ Unit) (offset : Int) (log : List Child) :
    Partway (fun s => s.2 = log) (parseChunk source (recorded onChunkData) offset)
      (fun next s => ∃ child, s.2 = log ++ [child] ∧ Chunk length offset next child)
      fun s => log <+: s.2 := by
  have hsame : ∀ s : σ × List Child, s.2 = log → log <+: s.2 := by
    intro s hs
    rw [hs]
  rw [parseChunk]
  refine partway_demand_bind hsame fun hoffset => ?_
  refine partway_demand_bind hsame fun hread => ?_
  have hhdr : offset + 8 ≤ length := by
    have hend := hsource offset 8 (by omega)
    omega
  refine Partway.bind (Q := fun r s => ((r.2 = 8 ∨ r.2 = 16) ∧ r.2 ≤ r.1 ∧ offset + r.2 ≤ length) ∧
    s.2 = log) ?_ fun r => ?_
  · split
    · exact .throw hsame
    · refine partway_demand_bind hsame fun hlarge => ?_
      refine partway_demand_bind hsame fun hmin => ?_
      refine .pure fun s hs => ⟨⟨.inr rfl, hmin, ?_⟩, hs⟩
      have hoff : off64 (offset + 8) = offset + 8 := off64_of_lt (by omega) (by omega)
      rw [hoff] at hlarge
      have hend := hsource (offset + 8) 8 (by omega)
      show offset + 16 ≤ length
      omega
    · refine partway_demand_bind hsame fun hmin => ?_
      exact .pure fun s hs => ⟨⟨.inl rfl, hmin, hhdr⟩, hs⟩
  · refine partway_demand_bind (fun s hs => hsame s hs.2) fun hsize => ?_
    intro s hs
    obtain ⟨⟨hheader, hle, hdata⟩, hlog⟩ := hs
    have hoff : off64 (offset + r.2) = offset + r.2 := off64_of_lt (by omega) (by omega)
    refine Partway.bind (R := fun next s => ∃ child, s.2 = log ++ [child] ∧
      Chunk length offset next child) (partway_recorded onChunkData _ _ _ log)
      (fun _ => .pure fun s hs => ?_) s hlog
    refine ⟨_, hs, hoffset, ?_, ?_, hsize, ?_⟩
    · show off64 (offset + r.2) = _ ∨ off64 (offset + r.2) = _
      rw [hoff]
      omega
    · show off64 (offset + r.2) ≤ _
      rw [hoff]
      exact hdata
    · show off64 (offset + r.1) = off64 (off64 (offset + r.2) + (r.1 - r.2 : Nat))
      rw [hoff]
      congr 1
      omega

/-- A chunk that is not an error goes forward, or the next offset is negative. -/
theorem Chunk.forward {offset next : Int} {child : Child} (h : Chunk length offset next child)
    (hlength : length < 2 ^ 63) :
    next < 0 ∨ next = child.offset + child.size ∧ offset + 8 ≤ next := by
  have hinside := h.inside
  have hheader := h.header
  obtain ⟨header, hdata⟩ : ∃ header : Nat, child.offset = offset + header := by
    obtain h8 | h16 := hheader
    · exact ⟨8, h8⟩
    · exact ⟨16, h16⟩
  have hnext := @off64_next offset header _ h.nonneg (by omega) h.size
  rw [← hdata, ← h.next] at hnext
  exact hnext.imp_right fun hnext => ⟨hnext, by omega⟩

theorem parseChunk_neg (source : DataSource) (onChunkData : Nat → Int → Nat → Parsing σ Unit)
    {offset : Int} (h : offset < 0) (s : σ) :
    (parseChunk source onChunkData offset).run.run s = (.error ERROR_MALFORMED, s) := by
  rw [parseChunk, demand, if_neg (by omega)]
  rfl

/-! ### The loop -/

/-- The loop ends, and goes forward until it comes to a negative offset. -/
theorem walk_ends (hsource : source.EndsAt length) (hlength : length < 2 ^ 63)
    (onChunkData : Nat → Int → Nat → Parsing σ Unit) {stop : Int} (hstop : 0 ≤ stop) {rounds : Nat}
    {offset : Int} (hpos : 0 < rounds) (hrounds : 0 ≤ offset → stop - offset + 8 < 8 * rounds)
    (s : σ) (log : List Child) :
    ∃ r s' children entered,
      walk source (recorded onChunkData) stop rounds offset (s, log) =
        some ((r, (s', log ++ children)), entered) ∧
      entered.Pairwise (fun a b => 0 ≤ b → a < b) ∧
      (∀ a ∈ entered, 0 ≤ a → 0 ≤ offset ∧ offset ≤ a) ∧
      (r = .ok () → 0 ≤ offset ∧ Tiles stop offset children) := by
  induction rounds generalizing offset s log with
  | zero => omega
  | succ rounds ih =>
  rw [walk]
  by_cases hmore : offset < stop
  · obtain ⟨hok, herror⟩ := partway_chunk hsource hlength onChunkData offset log (s, log) rfl
    rw [if_pos hmore]
    generalize (parseChunk source (recorded onChunkData) offset).run.run (s, log) = t at hok herror ⊢
    obtain ⟨r, s₁, log₁⟩ := t
    cases r with
    | error err =>
      obtain ⟨children, hlog⟩ := herror err rfl
      obtain rfl : log ++ children = log₁ := hlog
      refine ⟨.error err, s₁, children, [offset], rfl, List.pairwise_singleton _ _, ?_,
        fun h => by cases h⟩
      intro a ha hnonneg
      obtain rfl := List.mem_singleton.mp ha
      exact ⟨hnonneg, Int.le_refl _⟩
    | ok next =>
      obtain ⟨child, hlog, hchunk⟩ := hok next rfl
      obtain rfl : log₁ = log ++ [child] := hlog
      have hnonneg := hchunk.nonneg
      have hbound := hrounds hnonneg
      have hforward := hchunk.forward hlength
      obtain ⟨r, s', children, entered, hwalk, hincreasing, hbehind, htiles⟩ :=
        @ih next (by omega) (fun hnext => by omega) s₁ (log ++ [child])
      refine ⟨r, s', child :: children, offset :: entered, ?_, ?_, ?_, fun hr => ?_⟩
      · show (walk source (recorded onChunkData) stop rounds next (s₁, log ++ [child])).map _ = _
        rw [hwalk, List.append_assoc]
        rfl
      · refine List.pairwise_cons.mpr ⟨fun a ha h => ?_, hincreasing⟩
        have hle := hbehind a ha h
        omega
      · intro a ha h
        obtain rfl | ha := List.mem_cons.mp ha
        · exact ⟨h, Int.le_refl _⟩
        · have hle := hbehind a ha h
          omega
      · obtain ⟨hnext, hrest⟩ := htiles hr
        have heq : next = child.offset + child.size := by omega
        rw [heq] at hrest
        exact ⟨hnonneg, hchunk.header, hrest⟩
  · rw [if_neg hmore]
    refine ⟨_, s, [], [], by rw [List.append_nil], .nil, fun a ha => (by cases ha), fun hr => ?_⟩
    split at hr
    · next hend => exact ⟨by omega, hend⟩
    · cases hr

/-- As many rounds as the parent has bytes are enough. -/
theorem parseChunks_of_walk {onChunkData : Nat → Int → Nat → Parsing σ Unit} {stop : Int}
    (hforward : ∀ offset s next s', (parseChunk source onChunkData offset).run.run s = (.ok next, s') →
      0 ≤ offset ∧ (next < 0 ∨ offset + 8 ≤ next))
    {rounds n : Nat} {offset : Int} (hn : 0 ≤ offset → stop - offset ≤ 8 * n) {s : σ}
    {r : Except Status Unit × σ} {entered : List Int}
    (h : walk source onChunkData stop rounds offset s = some (r, entered)) :
    (parseChunksTo source onChunkData stop n offset >>= fun offset =>
      demand (offset = stop) ERROR_MALFORMED).run.run s = r := by
  induction rounds generalizing n offset s entered with
  | zero => cases h
  | succ rounds ih =>
  rw [walk] at h
  by_cases hmore : offset < stop
  · rw [if_pos hmore] at h
    cases n with
    | zero =>
      have hneg : offset < 0 := by omega
      rw [parseChunk_neg source onChunkData hneg] at h
      obtain ⟨rfl, -⟩ := Prod.mk.inj (Option.some.inj h)
      rw [parseChunksTo]
      show (demand (offset = stop) ERROR_MALFORMED).run.run s = _
      rw [demand, if_neg (by omega)]
      rfl
    | succ n =>
      have hstep := hforward offset s
      rw [parseChunksTo, if_pos hmore, bind_assoc, ExceptT.run_bind, StateT.run_bind]
      generalize (parseChunk source onChunkData offset).run.run s = t at h hstep ⊢
      obtain ⟨r₁, s₁⟩ := t
      cases r₁ with
      | error err =>
        obtain ⟨rfl, -⟩ := Prod.mk.inj (Option.some.inj h)
        rfl
      | ok next =>
        obtain ⟨⟨r', entered'⟩, hwalk, hr⟩ := Option.map_eq_some_iff.mp h
        obtain ⟨rfl, -⟩ := Prod.mk.inj hr
        have hnext := hstep next s₁ rfl
        exact ih (fun hnonneg => by omega) hwalk
  · rw [if_neg hmore] at h
    obtain ⟨rfl, -⟩ := Prod.mk.inj (Option.some.inj h)
    have hend : parseChunksTo source onChunkData stop n offset = pure offset := by
      cases n with
      | zero => rfl
      | succ n => rw [parseChunksTo, if_neg hmore]
    rw [hend, pure_bind, demand]
    split
    · rfl
    · rfl

/-- Whatever is in the file and whatever is done with the boxes, `parseChunks` ends, and it does not
come to an offset again. Where it succeeds the boxes fill their parent. -/
theorem parseChunks_fills (hsource : source.EndsAt length) (hlength : length < 2 ^ 63)
    (onChunkData : Nat → Int → Nat → Parsing σ Unit) {offset : Int} {size rounds : Nat}
    (hoffset : 0 ≤ offset) (hsize : offset + size < 2 ^ 63) (hrounds : size + 8 < 8 * rounds)
    (s : σ) :
    ∃ r s' children entered,
      walk source (recorded onChunkData) (offset + size) rounds offset (s, []) =
        some ((r, (s', children)), entered) ∧
      (parseChunks source (recorded onChunkData) offset size).run.run (s, []) = (r, (s', children)) ∧
      entered.Pairwise (fun a b => 0 ≤ b → a < b) ∧
      (r = .ok () → Tiles (offset + size) offset children ∧
        (∀ child ∈ children,
          offset + 8 ≤ child.offset ∧ child.offset + child.size ≤ offset + size) ∧
        children.length ≤ size / 8) := by
  obtain ⟨r, s', children, entered, hwalk, hincreasing, -, htiles⟩ :=
    @walk_ends _ source length hsource hlength onChunkData (offset + size) (by omega) rounds offset
      (by omega) (fun _ => by omega) s []
  refine ⟨r, s', children, entered, hwalk, ?_, hincreasing, fun hr => ?_⟩
  · rw [parseChunks, off64_of_lt (by omega) hsize]
    refine parseChunks_of_walk ?_ (fun _ => by omega) hwalk
    intro offset s next s' hstep
    obtain ⟨hok, -⟩ := partway_chunk hsource hlength onChunkData offset s.2 s rfl
    rw [hstep] at hok
    obtain ⟨child, -, hchunk⟩ := hok next rfl
    exact ⟨hchunk.nonneg, (hchunk.forward hlength).imp_right And.right⟩
  · obtain ⟨-, hfill⟩ := htiles hr
    have hcount := hfill.count
    exact ⟨hfill, hfill.inside, by omega⟩

/-- A `free` box of 10 bytes and a `mdat` box of 18, whose size has 64 bits. -/
def freeAndMdat : DataSource where
  readAt offset n := (max 0 (min n (28 - offset)), fun i =>
    ([0, 0, 0, 10, 0x66, 0x72, 0x65, 0x65, 7, 7, 0, 0, 0, 1, 0x6d, 0x64, 0x61, 0x74,
      0, 0, 0, 0, 0, 0, 0, 18, 9, 9] : List (BitVec 8)).getD (offset.toNat + i) 0)
  hasMemory _ := true

theorem parseChunks_fills_freeAndMdat :
    (parseChunks freeAndMdat (recorded fun _ _ _ => pure ()) 0 28).run.run ((), []) =
        (.ok (), ((), [⟨0x66726565, 8, 2⟩, ⟨0x6d646174, 26, 2⟩])) ∧
      Tiles 28 0 [⟨0x66726565, 8, 2⟩, ⟨0x6d646174, 26, 2⟩] := by
  have hsource : freeAndMdat.EndsAt 28 := by
    intro offset n hread
    simp only [freeAndMdat] at hread ⊢
    omega
  have hwalk : walk freeAndMdat (recorded fun _ _ _ => pure ()) (0 + (28 : Nat)) 5 0 ((), []) =
      some ((.ok (), ((), [⟨0x66726565, 8, 2⟩, ⟨0x6d646174, 26, 2⟩])), [0, 10]) := by
    decide +kernel
  obtain ⟨r, s', children, entered, hends, hparse, -, hfills⟩ :=
    @parseChunks_fills _ freeAndMdat 28 hsource (by decide) (fun _ _ _ => pure ()) 0 28 5
      (Int.le_refl 0) (by decide) (by decide) ()
  cases hwalk.symm.trans hends
  exact ⟨hparse, (hfills rfl).1⟩

end MediaFramework.Mp4.Heif
