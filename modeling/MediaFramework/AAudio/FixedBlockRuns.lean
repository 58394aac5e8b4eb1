import MediaFramework.AAudio.FixedBlockAdapter
import MediaFramework.Lib.Blocks

/-!
# The streams of fixed-block adapters

What the processor of a writer has been given and what is stored is what the client has written,
unless a block fails while more than a block is left behind it. What a client has read and what is
stored is what the processor of a reader has produced.
-/

namespace MediaFramework.AAudio

/-! ### Writing -/

namespace FixedBlockWriter

variable {processor : FixedBlockProcessor} {w : FixedBlockWriter} {buffer : List Byte} {result : Int}

def stored (w : FixedBlockWriter) : List Byte := w.mStorage.take w.mPosition

/-- What the processor has been given, and what is stored. -/
def stream (w : FixedBlockWriter) : List Byte := w.blocks.flatten ++ w.stored

structure Sound (w : FixedBlockWriter) : Prop where
  length : w.mStorage.length = w.mSize
  position : w.mPosition ≤ w.mSize
  blocks : ∀ block ∈ w.blocks, block.length = w.mSize

theorem Sound.length_stored (h : w.Sound) : w.stored.length = w.mPosition :=
  List.length_take_of_le (h.position.trans (Nat.le_of_eq h.length.symm))

/-- What there is room for goes to the end of what is stored. -/
theorem Sound.writeToStorage (h : w.Sound) (buffer : List Byte) :
    ∃ w', w.writeToStorage buffer = (min buffer.length (w.mSize - w.mPosition), w') ∧ w'.Sound ∧
      w'.blocks = w.blocks ∧ w'.mSize = w.mSize ∧
      w'.mPosition = w.mPosition + min buffer.length (w.mSize - w.mPosition) ∧
      w'.stored = (w.stored ++ buffer).take w.mSize := by
  have hposition := h.position
  have htake : (buffer.take (min buffer.length (w.mSize - w.mPosition))).length =
      min buffer.length (w.mSize - w.mPosition) := List.length_take_of_le (Nat.min_le_left _ _)
  refine ⟨_, rfl, ⟨?_, ?_, h.blocks⟩, rfl, rfl, rfl, ?_⟩
  · refine (Ring.length_poke ?_).trans h.length
    rw [htake, h.length]
    omega
  · show w.mPosition + _ ≤ w.mSize
    omega
  · show (Ring.poke w.mStorage w.mPosition _).take (w.mPosition + _) = _
    have hfront : (w.mStorage.take w.mPosition ++
        buffer.take (min buffer.length (w.mSize - w.mPosition))).length =
        w.mPosition + min buffer.length (w.mSize - w.mPosition) := by
      rw [List.length_append, htake]
      exact congrArg (· + _) h.length_stored
    rw [Ring.poke, List.take_left' hfront, List.take_append, h.length_stored,
      List.take_of_length_le (show w.stored.length ≤ w.mSize from h.length_stored ▸ hposition)]
    show w.stored ++ _ = _
    congr 1
    obtain hle | hlt := Nat.le_or_ge buffer.length (w.mSize - w.mPosition)
    · rw [Nat.min_eq_left hle, List.take_length, List.take_of_length_le hle]
    · rw [Nat.min_eq_right hlt]

/-- The blocks that go out directly, and why no more do. -/
theorem writeThrough_spec (processor : FixedBlockProcessor) (w : FixedBlockWriter)
    (buffer : List Byte) (result : Int) :
    ∃ k result', writeThrough processor result buffer w =
        (result', buffer.drop (k * w.mSize),
          { w with blocks := w.blocks ++ Blocks.front w.mSize k buffer }) ∧
      k * w.mSize ≤ buffer.length ∧
      (∀ j, 1 ≤ j → j < k → processor (w.blocks ++ Blocks.front w.mSize j buffer) = 0) ∧
      (0 < k → result = 0) ∧
      (result' = if k = 0 then result else processor (w.blocks ++ Blocks.front w.mSize k buffer)) ∧
      (w.mSize < (buffer.drop (k * w.mSize)).length → result' ≠ 0) := by
  induction hn : buffer.length using Nat.strongRecOn generalizing w buffer result with
  | ind n ih =>
  subst hn
  have hpos := w.pos
  rw [writeThrough]
  by_cases hmore : w.mSize < buffer.length ∧ result = 0
  · rw [dif_pos hmore]
    have hlt : (buffer.drop w.mSize).length < buffer.length := by
      rw [List.length_drop]
      omega
    obtain ⟨k, result', hloop, hle, hzero, hstart, hresult, hend⟩ :=
      ih _ hlt (w.onProcessFixedBlock processor (buffer.take w.mSize)).2 (buffer.drop w.mSize)
        (w.onProcessFixedBlock processor (buffer.take w.mSize)).1 rfl
    have hsize : (w.onProcessFixedBlock processor (buffer.take w.mSize)).2.mSize = w.mSize := rfl
    have hfront : ∀ j, (w.onProcessFixedBlock processor (buffer.take w.mSize)).2.blocks ++
        Blocks.front w.mSize j (buffer.drop w.mSize) =
          w.blocks ++ Blocks.front w.mSize (j + 1) buffer := by
      intro j
      exact List.append_assoc _ _ _
    have hdrop : (buffer.drop w.mSize).drop (k * w.mSize) = buffer.drop ((k + 1) * w.mSize) := by
      rw [List.drop_drop, Nat.succ_mul, Nat.add_comm]
    simp only [hsize, hfront, hdrop] at hloop hle hzero hresult hend
    refine ⟨k + 1, result', hloop, ?_, ?_, fun _ => hmore.2, ?_, hend⟩
    · rw [List.length_drop] at hle
      rw [Nat.succ_mul]
      omega
    · intro j hj hjk
      obtain ⟨j, rfl⟩ := Nat.exists_eq_add_of_le' hj
      obtain rfl | hpos := Nat.eq_zero_or_pos j
      · exact hstart (by omega)
      · exact hzero j hpos (by omega)
    · rw [if_neg (Nat.succ_ne_zero k), hresult]
      split
      · next hk => rw [hk]; rfl
      · rfl
  · rw [dif_neg hmore]
    refine ⟨0, result, ?_, ?_, by omega, fun h => absurd h (Nat.lt_irrefl 0), rfl, ?_⟩
    · rw [Nat.zero_mul, List.drop_zero]
      show _ = (result, buffer, { w with blocks := w.blocks ++ [] })
      rw [List.append_nil]
    · rw [Nat.zero_mul]
      exact Nat.zero_le _
    · intro hlong hzero
      rw [Nat.zero_mul, List.drop_zero] at hlong
      exact hmore ⟨hlong, hzero⟩

theorem stored_nil (h : w.mPosition = 0) : w.stored = [] := by
  rw [stored, h, List.take_zero]

/-- What is left is saved, as far as there is room. -/
theorem Sound.save (h : w.Sound) (buffer : List Byte) :
    ∃ w', (if 0 < buffer.length then (w.writeToStorage buffer).2 else w) = w' ∧ w'.Sound ∧
      w'.blocks = w.blocks ∧ w'.mSize = w.mSize ∧ w'.stored = (w.stored ++ buffer).take w.mSize := by
  obtain ⟨w', hwrite, hsound, hblocks, hsize, -, hstored⟩ := h.writeToStorage buffer
  rw [hwrite]
  by_cases hsome : 0 < buffer.length
  · rw [if_pos hsome]
    exact ⟨w', rfl, hsound, hblocks, hsize, hstored⟩
  · have hnil : buffer = [] := List.length_eq_zero_iff.mp (by omega)
    rw [if_neg hsome, hnil, List.append_nil]
    refine ⟨w, rfl, h, rfl, rfl, (List.take_of_length_le ?_).symm⟩
    rw [h.length_stored]
    exact h.position

/-- What is in the storage is the front of the first block, if there is any. -/
theorem Sound.addToStorage (h : w.Sound) (processor : FixedBlockProcessor) (buffer : List Byte) :
    ∃ result buffer' w', w.addToStorage processor buffer = (result, buffer', w') ∧ w'.Sound ∧
      w'.mSize = w.mSize ∧
      (w'.blocks = w.blocks ∧ result = 0 ∧ w'.stored ++ buffer' = w.stored ++ buffer ∧
          (w'.stored = [] ∨ buffer' = []) ∨
        w.mSize ≤ (w.stored ++ buffer).length ∧
          w'.blocks = w.blocks ++ [(w.stored ++ buffer).take w.mSize] ∧
          result = processor w'.blocks ∧ w'.stored = [] ∧
          buffer' = (w.stored ++ buffer).drop w.mSize) := by
  rw [FixedBlockWriter.addToStorage]
  by_cases hsome : 0 < w.mPosition
  · have hlength := h.length_stored
    have hposition := h.position
    obtain ⟨w', hwrite, hsound, hblocks, hsize, hnew, hstored⟩ := h.writeToStorage buffer
    rw [if_pos hsome, hwrite]
    dsimp only
    by_cases hfull : w'.mPosition = w'.mSize
    · have hroom : w.mSize - w.mPosition ≤ buffer.length := by omega
      have hblock : w'.mStorage.take w'.mSize = (w.stored ++ buffer).take w.mSize := by
        rw [← hstored, stored, hfull]
      rw [if_pos hfull, hblock]
      refine ⟨_, _, _, rfl, ⟨hsound.length, Nat.zero_le _, ?_⟩, hsize, .inr ⟨?_, ?_, rfl, rfl, ?_⟩⟩
      · intro block hmem
        obtain hmem | hmem := List.mem_append.mp hmem
        · exact hsound.blocks block hmem
        · rw [List.mem_singleton.mp hmem, List.length_take_of_le]
          · exact hsize.symm
          · rw [List.length_append]
            omega
      · rw [List.length_append]
        omega
      · show w'.blocks ++ _ = _
        rw [hblocks]
      · rw [Nat.min_eq_right hroom, List.drop_append, hlength,
          List.drop_eq_nil_of_le (show w.stored.length ≤ w.mSize by omega), List.nil_append]
    · have hroom : buffer.length < w.mSize - w.mPosition := by omega
      rw [if_neg hfull]
      refine ⟨_, _, _, rfl, hsound, hsize, .inl ⟨hblocks, rfl, ?_, .inr ?_⟩⟩
      · rw [hstored, List.take_of_length_le, Nat.min_eq_left (Nat.le_of_lt hroom), List.drop_length,
          List.append_nil]
        rw [List.length_append]
        omega
      · rw [Nat.min_eq_left (Nat.le_of_lt hroom), List.drop_length]
  · rw [if_neg hsome]
    exact ⟨0, buffer, w, rfl, h, rfl, .inl ⟨rfl, rfl, rfl, .inl (stored_nil (by omega))⟩⟩

/-- The bytes of a call are those that were stored and the new ones. `k` blocks of them go out, and
what is left is stored, as far as there is room. -/
structure Delivers (processor : FixedBlockProcessor) (w : FixedBlockWriter) (bytes : List Byte)
    (k : Nat) (w' : FixedBlockWriter) : Prop where
  sound : w'.Sound
  size : w'.mSize = w.mSize
  le : k * w.mSize ≤ bytes.length
  blocks : w'.blocks = w.blocks ++ Blocks.front w.mSize k bytes
  stored : w'.stored = (bytes.drop (k * w.mSize)).take w.mSize
  succeeded : ∀ j, 1 ≤ j → j < k → processor (w.blocks ++ Blocks.front w.mSize j bytes) = 0
  failed : w.mSize < (bytes.drop (k * w.mSize)).length →
    1 ≤ k ∧ processor (w.blocks ++ Blocks.front w.mSize k bytes) ≠ 0

theorem Sound.processVariableBlock (h : w.Sound) (processor : FixedBlockProcessor)
    (buffer : List Byte) :
    ∃ k, Delivers processor w (w.stored ++ buffer) k (w.processVariableBlock processor buffer).2 := by
  obtain ⟨result, buffer₁, w₁, hadd, hsound₁, hsize₁, hcases⟩ := h.addToStorage processor buffer
  obtain ⟨k, result', hthrough, hle, hzero, hstart, hresult, hend⟩ :=
    writeThrough_spec processor w₁ buffer₁ result
  rw [FixedBlockWriter.processVariableBlock, hadd]
  dsimp only
  rw [hthrough]
  dsimp only
  rw [hsize₁] at hle hzero hresult hend ⊢
  have hsound₂ : Sound { w₁ with blocks := w₁.blocks ++ Blocks.front w.mSize k buffer₁ } := by
    refine ⟨hsound₁.length, hsound₁.position, fun block hmem => ?_⟩
    obtain hmem | hmem := List.mem_append.mp hmem
    · exact hsound₁.blocks block hmem
    · exact (Blocks.length_of_mem_front hle hmem).trans hsize₁.symm
  obtain ⟨w', hsave, hsound', hblocks', hsize', hstored'⟩ :=
    hsound₂.save (buffer₁.drop (k * w.mSize))
  rw [hsave]
  replace hblocks' : w'.blocks = w₁.blocks ++ Blocks.front w.mSize k buffer₁ := hblocks'
  replace hsize' : w'.mSize = w.mSize := hsize'.trans hsize₁
  replace hstored' : w'.stored = (w₁.stored ++ buffer₁.drop (k * w.mSize)).take w.mSize := by
    rw [← hsize₁]
    rw [← hsize₁] at hstored'
    exact hstored'
  generalize w.stored ++ buffer = bytes at hcases ⊢
  obtain ⟨hblocks₁, rfl, hbytes, hstored₁ | rfl⟩ | ⟨hlong, hblocks₁, rfl, hstored₁, rfl⟩ := hcases
  · -- Nothing was stored.
    rw [hstored₁, List.nil_append] at hbytes hstored'
    rw [hbytes] at hle hzero hresult hend hblocks' hstored'
    rw [hblocks₁] at hzero hresult hblocks'
    refine ⟨k, hsound', hsize', hle, hblocks', hstored', hzero, fun hrest => ?_⟩
    have hne := hend hrest
    rw [hresult] at hne
    split at hne
    · exact absurd rfl hne
    · next hk => exact ⟨Nat.pos_of_ne_zero hk, hne⟩
  · -- All has gone to the storage.
    have hk : k = 0 := by
      have hpos := w.pos
      by_contra hne
      have hmul : 1 * w.mSize ≤ k * w.mSize := Nat.mul_le_mul_right _ (Nat.pos_of_ne_zero hne)
      rw [List.length_nil] at hle
      omega
    subst hk
    rw [List.append_nil] at hbytes
    rw [List.drop_nil, List.append_nil, hbytes] at hstored'
    rw [hblocks₁] at hblocks'
    refine ⟨0, hsound', hsize', by omega, hblocks', ?_, by omega, fun hrest => ?_⟩
    · rw [Nat.zero_mul, List.drop_zero, hstored']
    · have hlength := hsound₁.length_stored
      have hposition := hsound₁.position
      rw [hbytes] at hlength
      rw [Nat.zero_mul, List.drop_zero] at hrest
      omega
  · -- The storage has been flushed.
    have hfront : ∀ j, w₁.blocks ++ Blocks.front w.mSize j (bytes.drop w.mSize) =
        w.blocks ++ Blocks.front w.mSize (j + 1) bytes := by
      intro j
      rw [hblocks₁, List.append_assoc]
      rfl
    have hfirst : w₁.blocks = w.blocks ++ Blocks.front w.mSize 1 bytes := hblocks₁
    have hdrop : (bytes.drop w.mSize).drop (k * w.mSize) = bytes.drop ((k + 1) * w.mSize) := by
      rw [List.drop_drop, Nat.succ_mul, Nat.add_comm]
    rw [hfront] at hresult hblocks'
    rw [hdrop, hstored₁, List.nil_append] at hstored'
    rw [hdrop] at hend
    rw [List.length_drop] at hle
    refine ⟨k + 1, hsound', hsize', ?_, hblocks', hstored', fun j hj hjk => ?_, fun hrest => ?_⟩
    · rw [Nat.succ_mul]
      omega
    · obtain ⟨j, rfl⟩ := Nat.exists_eq_add_of_le' hj
      obtain rfl | hpos := Nat.eq_zero_or_pos j
      · rw [← hfirst]
        exact hstart (by omega)
      · rw [← hfront]
        exact hzero j hpos (by omega)
    · have hne := hend hrest
      rw [hresult] at hne
      refine ⟨Nat.succ_pos k, ?_⟩
      split at hne
      · next hk =>
        rw [hk, ← hfirst]
        exact hne
      · exact hne

/-- The blocks of a call that have more than a block of its bytes behind them do not fail. -/
def Fits (processor : FixedBlockProcessor) (w : FixedBlockWriter) (buffer : List Byte) : Prop :=
  ∀ k, 1 ≤ k → (k + 1) * w.mSize < (w.stored ++ buffer).length →
    processor (w.blocks ++ Blocks.front w.mSize k (w.stored ++ buffer)) = 0

theorem Delivers.stream_iff {bytes : List Byte} {k : Nat} {w' : FixedBlockWriter}
    (h : Delivers processor w bytes k w') :
    w'.stream = w.blocks.flatten ++ bytes ↔ ∀ k, 1 ≤ k → (k + 1) * w.mSize < bytes.length →
      processor (w.blocks ++ Blocks.front w.mSize k bytes) = 0 := by
  have hlength := List.length_drop (l := bytes) (i := k * w.mSize)
  have hle := h.le
  have hstream : w'.stream = w.blocks.flatten ++
      (bytes.take (k * w.mSize) ++ (bytes.drop (k * w.mSize)).take w.mSize) := by
    rw [stream, h.blocks, h.stored, List.flatten_append, Blocks.flatten_front, List.append_assoc]
  have hall : w'.stream = w.blocks.flatten ++ bytes ↔
      (bytes.drop (k * w.mSize)).length ≤ w.mSize := by
    rw [hstream, List.append_cancel_left_eq]
    conv_lhs => rhs; rw [← List.take_append_drop (k * w.mSize) bytes]
    rw [List.append_cancel_left_eq, List.take_eq_self_iff]
  rw [hall]
  constructor
  · intro hshort j hj hlong
    have hjk : j < k := by
      by_contra hge
      have hmul : k * w.mSize ≤ j * w.mSize := Nat.mul_le_mul_right _ (by omega)
      rw [Nat.succ_mul] at hlong
      omega
    exact h.succeeded j hj hjk
  · intro hfits
    by_contra hlong
    obtain ⟨hk, hne⟩ := h.failed (by omega)
    refine hne (hfits k hk ?_)
    rw [Nat.succ_mul]
    omega

/-- The writer after calls with these buffers. -/
def run (processor : FixedBlockProcessor) (w : FixedBlockWriter) (buffers : List (List Byte)) :
    FixedBlockWriter :=
  buffers.foldl (fun w buffer => (w.processVariableBlock processor buffer).2) w

theorem run_append (buffers : List (List Byte)) (buffer : List Byte) :
    w.run processor (buffers ++ [buffer]) =
      ((w.run processor buffers).processVariableBlock processor buffer).2 :=
  List.foldl_append

theorem Sound.run (h : w.Sound) (processor : FixedBlockProcessor) (buffers : List (List Byte)) :
    (w.run processor buffers).Sound ∧ (w.run processor buffers).mSize = w.mSize := by
  induction buffers using List.reverseRecOn with
  | nil => exact ⟨h, rfl⟩
  | append_singleton buffers buffer ih =>
    obtain ⟨k, hnext⟩ := ih.1.processVariableBlock processor buffer
    rw [run_append]
    exact ⟨hnext.sound, hnext.size.trans ih.2⟩

theorem sound_openWith (size : Nat) (pos : 0 < size) (memory : Nat → Byte) :
    (openWith size pos memory).Sound where
  length := (List.length_map _).trans List.length_range
  position := Nat.zero_le _
  blocks := fun _ h => by cases h

/-- What has been written is there after each call. -/
structure Keeps (processor : FixedBlockProcessor) (w : FixedBlockWriter)
    (buffers : List (List Byte)) : Prop where
  blocks : ∀ block ∈ (w.run processor buffers).blocks, block.length = w.mSize
  position : (w.run processor buffers).mPosition ≤ w.mSize
  stream : (w.run processor buffers).stream = buffers.flatten

theorem keeps_iff (h : w.Sound) (hblocks : w.blocks = []) (hposition : w.mPosition = 0)
    (processor : FixedBlockProcessor) (buffers : List (List Byte)) :
    (∀ before, before <+: buffers → Keeps processor w before) ↔
      ∀ before buffer, before ++ [buffer] <+: buffers → Fits processor (w.run processor before) buffer := by
  have hstep : ∀ before buffer, Keeps processor w before →
      (Keeps processor w (before ++ [buffer]) ↔ Fits processor (w.run processor before) buffer) := by
    intro before buffer hkeeps
    obtain ⟨hsound, hsize⟩ := h.run processor before
    obtain ⟨k, hnext⟩ := hsound.processVariableBlock processor buffer
    have hiff := hnext.stream_iff
    rw [← List.append_assoc] at hiff
    change _ = (w.run processor before).stream ++ buffer ↔ _ at hiff
    rw [hkeeps.stream, ← run_append] at hiff
    obtain ⟨hsound', hsize'⟩ := h.run processor (before ++ [buffer])
    constructor
    · intro hnew
      refine hiff.mp ?_
      rw [hnew.stream, List.flatten_append, List.flatten_singleton]
    · intro hfits
      refine ⟨fun block hmem => (hsound'.blocks block hmem).trans hsize',
        hsound'.position.trans (Nat.le_of_eq hsize'), ?_⟩
      rw [hiff.mpr hfits, List.flatten_append, List.flatten_singleton]
  constructor
  · intro hkeeps before buffer hprefix
    exact (hstep before buffer (hkeeps before ((List.prefix_append _ _).trans hprefix))).mp
      (hkeeps _ hprefix)
  · intro hfits before hprefix
    induction before using List.reverseRecOn with
    | nil =>
      refine ⟨fun block hmem => ?_, h.position, ?_⟩
      · rw [run, List.foldl_nil, hblocks] at hmem
        cases hmem
      · rw [run, List.foldl_nil, stream, hblocks, stored_nil hposition]
        rfl
    | append_singleton before buffer ih =>
      exact (hstep before buffer (ih ((List.prefix_append _ _).trans hprefix))).mpr
        (hfits before buffer hprefix)

end FixedBlockWriter

/-! ### Reading -/

namespace FixedBlockReader

variable {source : FixedBlockSource} {r : FixedBlockReader} {out : List Byte}

/-- What has been read, and what is stored, is what has been produced. -/
structure Reads (r : FixedBlockReader) (out : List Byte) : Prop where
  length : r.mStorage.length = r.mSize
  position : r.mPosition ≤ r.mSize
  blocks : ∀ block ∈ r.blocks, block.length = r.mSize
  stream : out ++ r.mStorage.drop r.mPosition = r.blocks.flatten

theorem length_block (source : FixedBlockSource) (call numBytes : Nat) :
    (source.block call numBytes).length = numBytes := by
  rw [FixedBlockSource.block, List.length_map, List.length_range]

theorem Reads.readFromStorage (h : r.Reads out) (numBytes : Nat) :
    (r.readFromStorage numBytes).2.2.Reads (out ++ (r.readFromStorage numBytes).2.1) ∧
      (r.readFromStorage numBytes).2.1.length = (r.readFromStorage numBytes).1 := by
  have hlength := h.length
  have hposition := h.position
  refine ⟨⟨hlength, ?_, h.blocks, ?_⟩, ?_⟩
  · show r.mPosition + min numBytes (r.mSize - r.mPosition) ≤ r.mSize
    omega
  · show out ++ Ring.slice r.mStorage r.mPosition _ ++ r.mStorage.drop (r.mPosition + _) = _
    rw [List.append_assoc, ← List.drop_drop, Ring.slice, List.take_append_drop]
    exact h.stream
  · show (Ring.slice r.mStorage r.mPosition (min numBytes (r.mSize - r.mPosition))).length =
      min numBytes (r.mSize - r.mPosition)
    rw [Ring.slice, List.length_take, List.length_drop]
    omega

/-- A block that is produced for the buffer or for the storage. -/
theorem Reads.length_produced (h : r.Reads out) (source : FixedBlockSource) :
    ∀ block ∈ r.blocks ++ [source.block r.blocks.length r.mSize], block.length = r.mSize := by
  intro block hmem
  obtain hmem | hmem := List.mem_append.mp hmem
  · exact h.blocks block hmem
  · rw [List.mem_singleton.mp hmem, length_block]

/-- The storage has been read where there is nothing in it. -/
theorem Reads.flatten_produced (h : r.Reads out) (hempty : ¬ r.mPosition < r.mSize)
    (block : List Byte) : (r.blocks ++ [block]).flatten = out ++ block := by
  have hdrop : r.mStorage.drop r.mPosition = [] := by
    refine List.drop_eq_nil_of_le ?_
    rw [h.length]
    exact Nat.le_of_not_lt hempty
  rw [List.flatten_append, List.flatten_singleton, ← h.stream, hdrop, List.append_nil]

/-- The loop fills the buffer. -/
theorem Reads.readOn (hresult : ∀ n, source.result n = 0) {buffer : List Byte}
    (h : r.Reads (out ++ buffer)) (bytesLeft : Nat) :
    ∃ buffer' r', readOn source 0 buffer bytesLeft r = (0, buffer', r') ∧ r'.Reads (out ++ buffer') ∧
      r'.mSize = r.mSize ∧ buffer'.length = buffer.length + bytesLeft := by
  induction bytesLeft using Nat.strongRecOn generalizing r buffer with
  | ind bytesLeft ih =>
  -- What is stored makes less left, which is what the induction is on.
  have hstep : ∀ (r : FixedBlockReader) (buffer : List Byte), r.Reads (out ++ buffer) →
      r.mPosition < r.mSize → 0 < bytesLeft →
      ∃ buffer' r', FixedBlockReader.readOn source 0 buffer bytesLeft r = (0, buffer', r') ∧
        r'.Reads (out ++ buffer') ∧ r'.mSize = r.mSize ∧
        buffer'.length = buffer.length + bytesLeft := by
    intro r buffer h hstored hmore
    rw [FixedBlockReader.readOn, dif_pos ⟨hmore, rfl⟩, dif_pos hstored]
    obtain ⟨hnext, hlength⟩ := h.readFromStorage bytesLeft
    have hcount : (r.readFromStorage bytesLeft).1 = min bytesLeft (r.mSize - r.mPosition) := rfl
    rw [List.append_assoc] at hnext
    obtain ⟨buffer', r', hloop, hreads, hsize, hbuffer⟩ :=
      ih (bytesLeft - (r.readFromStorage bytesLeft).1) (by omega) hnext
    refine ⟨buffer', r', hloop, hreads, hsize, ?_⟩
    rw [hbuffer, List.length_append, hlength]
    omega
  by_cases hmore : 0 < bytesLeft
  · by_cases hstored : r.mPosition < r.mSize
    · exact hstep r buffer h hstored hmore
    · have hpos := r.pos
      rw [FixedBlockReader.readOn, dif_pos ⟨hmore, rfl⟩, dif_neg hstored]
      split
      · next hwhole =>
        have hnext : (r.onProcessFixedBlock source r.mSize).2.2.Reads
            (out ++ (buffer ++ (r.onProcessFixedBlock source r.mSize).2.1)) := by
          refine ⟨h.length, h.position, h.length_produced source, ?_⟩
          show _ ++ r.mStorage.drop r.mPosition = (r.blocks ++ [_]).flatten
          rw [h.flatten_produced hstored, List.drop_eq_nil_of_le, List.append_nil,
            List.append_assoc]
          · rfl
          · rw [h.length]
            omega
        rw [show (r.onProcessFixedBlock source r.mSize).1 = 0 from hresult _]
        obtain ⟨buffer', r', hloop, hreads, hsize, hbuffer⟩ :=
          ih (bytesLeft - r.mSize) (by omega) hnext
        refine ⟨buffer', r', hloop, hreads, hsize, ?_⟩
        rw [hbuffer, List.length_append]
        show _ + (source.block _ r.mSize).length + _ = _
        rw [length_block]
        omega
      · rw [show (r.onProcessFixedBlock source r.mSize).1 = 0 from hresult _]
        refine hstep _ buffer ⟨length_block source _ _, Nat.zero_le _, h.length_produced source, ?_⟩
          hpos hmore
        show _ ++ (source.block r.blocks.length r.mSize).drop 0 = (r.blocks ++ [_]).flatten
        rw [h.flatten_produced hstored]
        rfl
  · rw [FixedBlockReader.readOn, dif_neg (by omega)]
    exact ⟨buffer, r, rfl, h, rfl, by omega⟩

/-- The reader, and what is in the buffers, after calls with these sizes. -/
def run (source : FixedBlockSource) (r : FixedBlockReader) (sizes : List Nat) :
    List (List Byte) × FixedBlockReader :=
  sizes.foldl (fun s numBytes =>
    (s.1 ++ [(s.2.processVariableBlock source numBytes).2.1],
      (s.2.processVariableBlock source numBytes).2.2)) ([], r)

/-- What has been produced has been read, or is stored, after each call. -/
structure Keeps (source : FixedBlockSource) (r : FixedBlockReader) (sizes : List Nat) : Prop where
  blocks : ∀ block ∈ (r.run source sizes).2.blocks, block.length = r.mSize
  position : (r.run source sizes).2.mPosition ≤ r.mSize
  filled : (r.run source sizes).1.map List.length = sizes
  stream : (r.run source sizes).1.flatten ++
      (r.run source sizes).2.mStorage.drop (r.run source sizes).2.mPosition =
    (r.run source sizes).2.blocks.flatten

theorem Reads.keeps (hresult : ∀ n, source.result n = 0) (h : r.Reads []) (sizes : List Nat) :
    Keeps source r sizes := by
  have hrun : (r.run source sizes).2.Reads (r.run source sizes).1.flatten ∧
      (r.run source sizes).2.mSize = r.mSize ∧ (r.run source sizes).1.map List.length = sizes := by
    induction sizes using List.reverseRecOn with
    | nil => exact ⟨h, rfl, rfl⟩
    | append_singleton sizes numBytes ih =>
      obtain ⟨hreads, hsize, hfilled⟩ := ih
      rw [← List.append_nil (r.run source sizes).1.flatten] at hreads
      obtain ⟨buffer, r', hloop, hreads', hsize', hbuffer⟩ :=
        hreads.readOn hresult numBytes
      have hnext : r.run source (sizes ++ [numBytes]) = ((r.run source sizes).1 ++ [buffer], r') := by
        rw [run, List.foldl_append]
        show ((r.run source sizes).1 ++ [((r.run source sizes).2.processVariableBlock source numBytes).2.1],
          ((r.run source sizes).2.processVariableBlock source numBytes).2.2) = _
        rw [processVariableBlock, hloop]
      rw [hnext]
      refine ⟨?_, hsize'.trans hsize, ?_⟩
      · rw [List.flatten_append, List.flatten_singleton]
        exact hreads'
      · rw [List.map_append, hfilled, List.map_singleton, hbuffer, List.length_nil, Nat.zero_add]
  obtain ⟨hreads, hsize, hfilled⟩ := hrun
  exact ⟨fun block hmem => (hreads.blocks block hmem).trans hsize,
    hreads.position.trans (Nat.le_of_eq hsize), hfilled, hreads.stream⟩

end FixedBlockReader

/-! ### Both adapters -/

/-- The adapters keep what goes through them as long as no block of a call fails that has more than
a block of its bytes behind it. -/
theorem fixedBlockAdapters_keep_iff {size : Nat} (pos : 0 < size) (memory : Nat → Byte)
    (processor : FixedBlockProcessor) (buffers : List (List Byte)) (source : FixedBlockSource)
    (sizes : List Nat) :
    ((∀ before, before <+: buffers →
        FixedBlockWriter.Keeps processor (.openWith size pos memory) before) ∧
      ((∀ n, source.result n = 0) → ∀ before, before <+: sizes →
        FixedBlockReader.Keeps source (.openWith size pos memory) before)) ↔
    ∀ before buffer, before ++ [buffer] <+: buffers →
      FixedBlockWriter.Fits processor
        (FixedBlockWriter.run processor (.openWith size pos memory) before) buffer := by
  have hwriter := FixedBlockWriter.keeps_iff (FixedBlockWriter.sound_openWith size pos memory) rfl rfl
    processor buffers
  have hreader : (FixedBlockReader.openWith size pos memory).Reads [] := by
    have hlength : (FixedBlockReader.openWith size pos memory).mStorage.length = size :=
      (List.length_map _).trans List.length_range
    refine ⟨hlength, Nat.le_refl size, fun block hmem => (by cases hmem), ?_⟩
    exact List.drop_eq_nil_of_le (Nat.le_of_eq hlength)
  rw [hwriter]
  exact and_iff_left fun hresult before _ => hreader.keeps hresult before

/-- Blocks of four bytes, through a processor that takes each and through one that fails each time. -/
theorem fixedBlockAdapters_keep_iff_four :
    let buffers : List (List Byte) := [[1, 2, 3, 4, 5, 6, 7, 8, 9], [], [10, 11, 12], [13, 14]]
    let source : FixedBlockSource := ⟨fun call i => BitVec.ofNat 8 (4 * call + i), fun _ => 0⟩
    ((∀ before, before <+: buffers →
        FixedBlockWriter.Keeps (fun _ => 0) (.openWith 4 (by decide) fun _ => 0) before) ∧
      ∀ before, before <+: [3, 6, 0, 1, 9] →
        FixedBlockReader.Keeps source (.openWith 4 (by decide) fun _ => 0) before) ∧
      ¬∀ before, before <+: buffers →
        FixedBlockWriter.Keeps (fun _ => -1) (.openWith 4 (by decide) fun _ => 0) before := by
  intro buffers source
  have hresult : ∀ n, source.result n = 0 := fun _ => rfl
  have hboth := (@fixedBlockAdapters_keep_iff 4 (by decide) (fun _ => 0) (fun _ => 0) buffers
    source [3, 6, 0, 1, 9]).mpr fun _ _ _ _ _ _ => rfl
  refine ⟨⟨hboth.1, hboth.2 hresult⟩, fun hkeeps => ?_⟩
  have hfits := (fixedBlockAdapters_keep_iff (by decide) (fun _ => 0) (fun _ => -1) buffers source
    [3, 6, 0, 1, 9]).mp ⟨hkeeps, hboth.2⟩
  have hfirst := hfits [] [1, 2, 3, 4, 5, 6, 7, 8, 9] ⟨_, rfl⟩ 1 (Nat.le_refl 1) (by decide)
  cases hfirst

/-- Of three bytes the first goes out and fails, the second is stored, and the third is lost. -/
theorem writer_loses_last : ¬ ∀ before, before <+: [[1, 2, 3]] →
    FixedBlockWriter.Keeps (fun _ => -1) (.openWith 1 Nat.one_pos fun _ => 0) before := by
  intro hkeeps
  have hfits := (FixedBlockWriter.keeps_iff
    (FixedBlockWriter.sound_openWith 1 Nat.one_pos fun _ => 0) rfl rfl _ [[1, 2, 3]]).mp
    hkeeps [] [1, 2, 3] (List.prefix_refl _) 1 (Nat.le_refl 1) (by decide)
  cases hfits

end MediaFramework.AAudio
