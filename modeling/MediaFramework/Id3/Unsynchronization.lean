import MediaFramework.Id3.ID3
import MediaFramework.Lib.Compaction

/-!
# Unsynchronization

Bytes without false synchronisations, the bytes they stand for, and the two loops that put the second
in the place of the first.
-/

namespace MediaFramework.Id3

open Compaction

/-- A zero goes behind each `0xFF` that would be followed by a zero or by three ones, and may go
behind any other. -/
inductive Unsynchronised : List Byte → List Byte → Prop
  | nil : Unsynchronised [] []
  | other {byte : Byte} {bytes encoded : List Byte} (hbyte : byte ≠ 0xFF)
      (h : Unsynchronised bytes encoded) : Unsynchronised (byte :: bytes) (byte :: encoded)
  | kept {bytes encoded : List Byte}
      (hnext : ∀ byte ∈ bytes.head?, byte ≠ 0 ∧ byte &&& 0xE0 ≠ 0xE0)
      (h : Unsynchronised bytes encoded) : Unsynchronised (0xFF :: bytes) (0xFF :: encoded)
  | inserted {bytes encoded : List Byte} (h : Unsynchronised bytes encoded) :
      Unsynchronised (0xFF :: bytes) (0xFF :: 0 :: encoded)

/-- The bytes without the zeros behind `0xFF`, after the byte `prev`. -/
def desync : Byte → List Byte → List Byte
  | _, [] => []
  | prev, byte :: bytes =>
    if prev = 0xFF ∧ byte = 0 then desync byte bytes else byte :: desync byte bytes

theorem Unsynchronised.head? {bytes encoded : List Byte} (h : Unsynchronised bytes encoded) :
    encoded.head? = bytes.head? := by
  cases h <;> rfl

theorem Unsynchronised.desync {bytes encoded : List Byte} (h : Unsynchronised bytes encoded)
    {prev : Byte} (hprev : prev = 0xFF → bytes.head? ≠ some 0) : desync prev encoded = bytes := by
  induction h generalizing prev with
  | nil => rfl
  | @other byte bytes encoded hbyte h ih =>
    rw [Id3.desync, if_neg, ih fun hff => absurd hff hbyte]
    rintro ⟨hff, rfl⟩
    exact hprev hff rfl
  | @kept bytes encoded hnext h ih =>
    rw [Id3.desync, if_neg (fun h => absurd h.2 (by decide)), ih]
    intro _ hzero
    exact (hnext 0 hzero).1 rfl
  | @inserted bytes encoded h ih =>
    rw [Id3.desync, if_neg (fun h => absurd h.2 (by decide)), Id3.desync, if_pos ⟨rfl, rfl⟩,
      ih fun h => absurd h (by decide)]

theorem Unsynchronised.desync_zero {bytes encoded : List Byte} (h : Unsynchronised bytes encoded) :
    Id3.desync 0 encoded = bytes :=
  h.desync fun h => absurd h (by decide)

/-- Nothing is put behind other bytes. -/
theorem Unsynchronised.of_cons {byte : Byte} {bytes encoded : List Byte} (hbyte : byte ≠ 0xFF)
    (h : Unsynchronised (byte :: bytes) encoded) :
    ∃ encoded', encoded = byte :: encoded' ∧ Unsynchronised bytes encoded' := by
  cases h with
  | other _ h => exact ⟨_, rfl, h⟩
  | kept _ h => exact absurd rfl hbyte
  | inserted h => exact absurd rfl hbyte

theorem Unsynchronised.of_append {front bytes encoded : List Byte}
    (hfront : ∀ byte ∈ front, byte ≠ 0xFF) (h : Unsynchronised (front ++ bytes) encoded) :
    ∃ encoded', encoded = front ++ encoded' ∧ Unsynchronised bytes encoded' := by
  induction front generalizing encoded with
  | nil => exact ⟨encoded, rfl, h⟩
  | cons byte front ih =>
    obtain ⟨hbyte, hfront⟩ := List.forall_mem_cons.mp hfront
    obtain ⟨encoded', rfl, hrest⟩ := Unsynchronised.of_cons hbyte h
    obtain ⟨encoded'', rfl, hback⟩ := ih hfront hrest
    exact ⟨encoded'', rfl, hback⟩

theorem length_desync_le (prev : Byte) (bytes : List Byte) :
    (desync prev bytes).length ≤ bytes.length := by
  induction bytes generalizing prev with
  | nil => exact Nat.le_refl _
  | cons byte bytes ih =>
    rw [desync]
    split
    · exact Nat.le_succ_of_le (ih _)
    · exact Nat.succ_le_succ (ih _)

theorem Unsynchronised.length_le {bytes encoded : List Byte} (h : Unsynchronised bytes encoded) :
    bytes.length ≤ encoded.length := by
  conv_lhs => rw [← h.desync_zero]
  exact length_desync_le 0 encoded

theorem desync_zero_cons (byte : Byte) (bytes : List Byte) :
    desync 0 (byte :: bytes) = byte :: desync byte bytes := by
  rw [desync, if_neg fun h => absurd h.1 (by decide)]

/-! ### Whole tags -/

theorem removeUnsynchronizationFrom_spec {mData written rest : List Byte} {writeOffset readOffset : Nat}
    {prev : Byte} (h : Compacting mData writeOffset readOffset written prev rest) :
    ∃ mData' writeOffset',
      removeUnsynchronizationFrom rest.length readOffset writeOffset mData = (mData', writeOffset') ∧
        writeOffset' = writeOffset + (desync prev rest).length ∧
        mData'.take writeOffset' = written ++ desync prev rest ∧ mData'.length = mData.length := by
  induction rest generalizing mData written writeOffset readOffset prev with
  | nil =>
    refine ⟨mData, writeOffset, rfl, rfl, ?_, rfl⟩
    rw [h.take, desync, List.append_nil]
  | cons byte rest ih =>
    rw [List.length_cons, removeUnsynchronizationFrom, h.getD_prev, h.getD_next, desync]
    split
    · exact ih h.skip
    · obtain ⟨mData', writeOffset', hrun, hoffset, htake, hlength⟩ := ih h.move
      refine ⟨mData', writeOffset', hrun, ?_, ?_, ?_⟩
      · rw [hoffset, List.length_cons]
        omega
      · rw [htake, List.append_assoc, List.singleton_append]
      · rw [hlength, List.length_set]

theorem removeUnsynchronization_spec (mData : List Byte) :
    ∃ mData', removeUnsynchronization mData mData.length = (mData', (desync 0 mData).length) ∧
      mData'.take (desync 0 mData).length = desync 0 mData := by
  cases mData with
  | nil => exact ⟨[], rfl, rfl⟩
  | cons byte bytes =>
    have hstart : Compacting ([byte] ++ bytes) 1 1 [byte] byte bytes := Compacting.start rfl
    obtain ⟨mData', writeOffset', hrun, hoffset, htake, hlength⟩ :=
      removeUnsynchronizationFrom_spec hstart
    have hle := length_desync_le byte bytes
    have hsize : (desync 0 (byte :: bytes)).length = writeOffset' := by
      rw [desync_zero_cons, List.length_cons, hoffset, Nat.add_comm]
    refine ⟨mData', ?_, ?_⟩
    · rw [List.singleton_append] at hrun
      rw [removeUnsynchronization, List.length_cons, Nat.add_sub_cancel, hrun, hsize]
      dsimp only
      congr 1
      split <;> omega
    · rw [hsize, htake, desync_zero_cons, List.singleton_append]

/-! ### Frames -/

theorem removeFrameUnsynchronizationFrom_done {i : Nat} {s : FrameLoop} (passes : Nat)
    (h : s.dataSize ≤ i + 1) : removeFrameUnsynchronizationFrom passes i s = s := by
  cases passes with
  | zero => rfl
  | succ passes => rw [removeFrameUnsynchronizationFrom, if_neg (by omega)]

theorem removeFrameUnsynchronizationFrom_spec {passes i : Nat} {s : FrameLoop}
    {written rest post : List Byte} {prev : Byte} (hpasses : rest.length ≤ passes)
    (h : Compacting s.mData s.writeOffset s.readOffset written prev (rest ++ post))
    (hsize : s.dataSize = i + 1 + rest.length) :
    ∃ s' prev', removeFrameUnsynchronizationFrom passes i s = s' ∧
      Compacting s'.mData s'.writeOffset s'.readOffset (written ++ desync prev rest) prev' post ∧
      s'.dataSize = i + 1 + (desync prev rest).length ∧
      s'.mSize = s.mSize - (rest.length - (desync prev rest).length) ∧
      s'.mData.length = s.mData.length := by
  induction passes generalizing i s written rest prev with
  | zero =>
    obtain rfl : rest = [] := List.length_eq_zero_iff.mp (by omega)
    refine ⟨s, prev, rfl, ?_, hsize, rfl, rfl⟩
    rwa [desync, List.append_nil]
  | succ passes ih =>
    cases rest with
    | nil =>
      refine ⟨s, prev, removeFrameUnsynchronizationFrom_done _ hsize.le, ?_, hsize, rfl, rfl⟩
      rwa [desync, List.append_nil]
    | cons byte rest =>
      rw [List.length_cons] at hpasses hsize
      rw [List.cons_append] at h
      rw [removeFrameUnsynchronizationFrom, if_pos (by omega), h.getD_prev, h.getD_next, desync]
      by_cases hskip : prev = 0xFF ∧ byte = 0
      · rw [if_pos hskip, if_pos hskip]
        dsimp only
        cases rest with
        | nil =>
          -- nothing is left to be moved
          rw [List.length_nil] at hsize
          rw [if_neg (by omega)]
          refine ⟨_, byte, removeFrameUnsynchronizationFrom_done _ ?_, ?_, ?_, rfl, rfl⟩
          · show s.dataSize - 1 ≤ i + 1 + 1
            omega
          · rw [desync, List.append_nil]
            exact h.skip
          · show s.dataSize - 1 = i + 1 + 0
            omega
        | cons byte' rest =>
          rw [List.length_cons] at hpasses hsize
          have hmove := h.skip
          rw [List.cons_append] at hmove
          rw [if_pos (by omega), hmove.getD_next, hskip.2, desync_zero_cons]
          obtain ⟨s', prev', hrun, hcompact, hsize', hmSize, hlength⟩ := ih (i := i + 1)
            (s := ⟨s.mData.set s.writeOffset byte', s.mSize - 1, s.dataSize - 1, s.readOffset + 1 + 1,
              s.writeOffset + 1⟩) (by omega) hmove.move (by dsimp only; omega)
          have hle := length_desync_le byte' rest
          refine ⟨s', prev', hrun, ?_, ?_, ?_, ?_⟩
          · rwa [List.append_assoc, List.singleton_append] at hcompact
          · rw [hsize', List.length_cons]
            omega
          · rw [hmSize, List.length_cons, List.length_cons, List.length_cons]
            dsimp only
            omega
          · rw [hlength, List.length_set]
      · rw [if_neg hskip, if_neg hskip]
        dsimp only
        rw [if_pos (by omega), h.getD_next]
        obtain ⟨s', prev', hrun, hcompact, hsize', hmSize, hlength⟩ := ih (i := i + 1)
          (s := ⟨s.mData.set s.writeOffset byte, s.mSize, s.dataSize, s.readOffset + 1,
            s.writeOffset + 1⟩) (by omega) h.move (by dsimp only; omega)
        refine ⟨s', prev', hrun, ?_, ?_, ?_, ?_⟩
        · rwa [List.append_assoc, List.singleton_append] at hcompact
        · rw [hsize', List.length_cons]
          omega
        · rw [hmSize, List.length_cons, List.length_cons, Nat.add_sub_add_right]
        · rw [hlength, List.length_set]

/-- The data of a frame is replaced by what it stands for, and what is behind it moves up. -/
theorem removeFrameUnsynchronization_spec {front data : List Byte} (post : List Byte) {offset : Nat}
    (mSize : Nat) (hfront : front.length = offset + 10) (hdata : data ≠ []) :
    ∃ junk, removeFrameUnsynchronization (front ++ (data ++ post)) mSize
        (front ++ (data ++ post)).length offset data.length =
      (front ++ (desync 0 data ++ (post ++ junk)), mSize - (data.length - (desync 0 data).length),
        (desync 0 data).length) ∧
      junk.length = data.length - (desync 0 data).length := by
  obtain ⟨byte, bytes, rfl⟩ := List.exists_cons_of_ne_nil hdata
  have hoffset : (front ++ [byte]).length = offset + 11 := by
    rw [List.length_append, hfront]
    rfl
  have hstart : Compacting (front ++ [byte] ++ (bytes ++ post)) _ _ (front ++ [byte]) byte
      (bytes ++ post) :=
    Compacting.start List.getLast?_concat
  rw [hoffset, List.append_assoc, List.singleton_append] at hstart
  obtain ⟨s', prev', hrun, hcompact, hsize, hmSize, hlength⟩ :=
    removeFrameUnsynchronizationFrom_spec (i := 0)
      (s := ⟨front ++ (byte :: (bytes ++ post)), mSize, (byte :: bytes).length, offset + 11, offset + 11⟩)
      (show bytes.length ≤ (byte :: bytes).length from Nat.le_succ _) hstart (Nat.add_comm _ _)
  obtain ⟨junk, hclose, hjunk⟩ := hcompact.close
  have hle := length_desync_le byte bytes
  have hread := hcompact.length
  have hwrite := congrArg List.length hcompact.take
  have hbefore := hcompact.le
  dsimp only at hlength hmSize
  rw [hlength] at hread
  have hslice : Ring.slice s'.mData s'.readOffset
      ((front ++ (byte :: (bytes ++ post))).length - s'.readOffset) = post := by
    rw [Ring.slice, hcompact.drop]
    apply List.take_of_length_le
    omega
  rw [List.length_take, List.length_append, List.length_append, hlength] at hwrite
  simp only [List.length_append, List.length_cons, List.length_nil] at hread hwrite hsize hmSize hfront
  refine ⟨junk, ?_, ?_⟩
  · rw [removeFrameUnsynchronization, List.cons_append, hrun, memmove, hslice,
      Ring.poke, hclose, if_pos, desync_zero_cons]
    · congr 1
      · simp
      · rw [hmSize, hsize]
        simp
        omega
    · simp only [List.length_append, List.length_cons]
      omega
  · rw [hjunk, desync_zero_cons, List.length_cons, List.length_cons]
    omega

end MediaFramework.Id3
