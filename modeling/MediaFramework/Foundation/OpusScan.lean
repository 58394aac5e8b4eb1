import MediaFramework.Foundation.OpusHeader

/-!
# Accesses of the scan for Opus headers

`GetOpusHeaderBuffers` again, with `none` also for a difference that wraps. The only buffers for
which there is one are too short for a marker and a length.
-/

namespace MediaFramework.Foundation

open LittleEndian Buffer

/-! ### Differences and reads -/

namespace Checked

/-- The bound of the loop. -/
def scanBound (dataSize : Nat) : Option Nat :=
  if aopusMarkerSize ≤ dataSize then
    if aopusLengthSize ≤ dataSize - aopusMarkerSize then
      some (dataSize - aopusMarkerSize - aopusLengthSize)
    else none
  else none

def scanMarkers (data : List (BitVec 8)) (i : Nat) (found : Bool) (buffers : OpusHeaderBuffers) :
    Option (Bool × OpusHeaderBuffers) :=
  match scanBound data.length with
  | none => none
  | some bound =>
    if bound < i then some (found, buffers)
    else if _h : data.length < i then none
    else
      match load data i aopusMarkerSize with
      | none => none
      | some marker =>
        let start := i + aopusMarkerSize + aopusLengthSize
        if marker = aopusCsdOpusHeaderMarker then do
          let value ← readLength data (i + aopusMarkerSize)
          if value < aopusOpusheadMinsize ∨ aopusOpusheadMaxsize < value then return (false, buffers)
          else if data.length < start + value then return (false, buffers)
          else scanMarkers data (start + value) true { buffers with opusHead := some (start, value) }
        else if marker = aopusCsdCodecDelayMarker then do
          let value ← readLength data (i + aopusMarkerSize)
          if value ≠ 8 then return (false, buffers)
          else if data.length < start + value then return (false, buffers)
          else
            scanMarkers data (start + value) found { buffers with codecDelay := some (start, value) }
        else if marker = aopusCsdSeekPrerollMarker then do
          let value ← readLength data (i + aopusMarkerSize)
          if value ≠ 8 then return (false, buffers)
          else if data.length < start + value then return (false, buffers)
          else
            scanMarkers data (start + value) found { buffers with seekPreRoll := some (start, value) }
        else scanMarkers data (i + 1) found buffers
termination_by data.length + 1 - i
decreasing_by
  · simp only [aopusMarkerSize]
    omega
  · simp only [aopusMarkerSize]
    omega
  · simp only [aopusMarkerSize]
    omega
  · omega

def getOpusHeaderBuffers (data : List (BitVec 8)) : Option (Bool × OpusHeaderBuffers) :=
  if data.length < 8 then some (false, {})
  else do
    let label ← load data 0 8
    if label = opusHeadLabel then
      if data.length < aopusOpusheadMinsize ∨ aopusOpusheadMaxsize < data.length then
        return (false, {})
      else return (true, { opusHead := some (0, data.length) })
    else
      let marker ← load data 0 5
      if marker = aopusCsdMarkerPrefix then scanMarkers data 0 false {}
      else return (false, {})

end Checked

/-! ### What is found -/

/-- The part is inside the buffer. -/
def InBuffer (data : List (BitVec 8)) (part : Nat × Nat) : Prop := part.1 + part.2 ≤ data.length

/-- The parts that have been found are inside the buffer, and the delays have eight bytes each. -/
structure OpusHeaderBuffers.Inside (data : List (BitVec 8)) (buffers : OpusHeaderBuffers) : Prop where
  opusHead : ∀ part ∈ buffers.opusHead, InBuffer data part
  codecDelay : ∀ part ∈ buffers.codecDelay, InBuffer data part ∧ part.2 = 8
  seekPreRoll : ∀ part ∈ buffers.seekPreRoll, InBuffer data part ∧ part.2 = 8

variable {data : List (BitVec 8)} {i : Nat} {found : Bool} {buffers : OpusHeaderBuffers}

theorem inside_nothing (data : List (BitVec 8)) : OpusHeaderBuffers.Inside data {} :=
  ⟨nofun, nofun, nofun⟩

namespace Checked

theorem scanBound_eq (h : 16 ≤ data.length) : scanBound data.length = some (data.length - 16) := by
  rw [scanBound, if_pos (by rw [aopusMarkerSize]; omega),
    if_pos (by rw [aopusMarkerSize, aopusLengthSize]; omega)]
  rfl

theorem scanBound_short (h : data.length < 16) : scanBound data.length = none := by
  rw [scanBound]
  split
  · exact if_neg (by rw [aopusMarkerSize, aopusLengthSize]; omega)
  · rfl

theorem scanBound_some (hroom : 16 ≤ data.length) {bound : Nat}
    (h : scanBound data.length = some bound) : bound = data.length - 16 :=
  (Option.some.inj ((scanBound_eq hroom).symm.trans h)).symm

theorem load_marker (h : i + 16 ≤ data.length) :
    load data i aopusMarkerSize = some ((data.drop i).take aopusMarkerSize) :=
  if_pos (by rw [aopusMarkerSize]; omega)

/-- There is a length behind a marker. -/
theorem readLength_marker (h : i + 16 ≤ data.length) :
    ∃ n, readLength data (i + aopusMarkerSize) = some n := by
  have hload : load data (i + aopusMarkerSize) 8 = some (Ring.slice data (i + aopusMarkerSize) 8) :=
    if_pos (by rw [aopusMarkerSize]; omega)
  exact ⟨_, congrArg (Option.map value) hload⟩

/-- The scan of a buffer with room for a marker and a length ends, and what it finds is inside. -/
theorem scanMarkers_inside (hroom : 16 ≤ data.length) (i : Nat) (found : Bool)
    (h : buffers.Inside data) :
    ∃ result, scanMarkers data i found buffers = some result ∧ result.2.Inside data := by
  fun_induction scanMarkers data i found buffers with
  | case1 i found buffers hscan =>
    rw [scanBound_eq hroom] at hscan
    cases hscan
  | case2 i found buffers bound hscan hend => exact ⟨_, rfl, h⟩
  | case3 i found buffers bound hscan hi hpast =>
    have hbound := scanBound_some hroom hscan
    omega
  | case4 i found buffers bound hscan hi hpast hload =>
    have hbound := scanBound_some hroom hscan
    rw [load_marker (by omega)] at hload
    cases hload
  | case5 i found buffers bound hscan hi hpast start hload ih =>
    have hbound := scanBound_some hroom hscan
    obtain ⟨n, hlength⟩ := readLength_marker (show i + 16 ≤ data.length by omega)
    rw [hlength, Option.bind_eq_bind, Option.bind_some]
    split
    · exact ⟨_, rfl, h⟩
    split
    · exact ⟨_, rfl, h⟩
    next hfits =>
    refine ih _ ⟨?_, h.codecDelay, h.seekPreRoll⟩
    rintro part ⟨⟩
    exact Nat.le_of_not_lt hfits
  | case6 i found buffers bound hscan hi hpast start hload hother ih =>
    have hbound := scanBound_some hroom hscan
    obtain ⟨n, hlength⟩ := readLength_marker (show i + 16 ≤ data.length by omega)
    rw [hlength, Option.bind_eq_bind, Option.bind_some]
    split
    · exact ⟨_, rfl, h⟩
    next height =>
    split
    · exact ⟨_, rfl, h⟩
    next hfits =>
    refine ih _ height ⟨h.opusHead, ?_, h.seekPreRoll⟩
    rintro part ⟨⟩
    exact ⟨Nat.le_of_not_lt hfits, not_not.mp height⟩
  | case7 i found buffers bound hscan hi hpast start hload hother hother' ih =>
    have hbound := scanBound_some hroom hscan
    obtain ⟨n, hlength⟩ := readLength_marker (show i + 16 ≤ data.length by omega)
    rw [hlength, Option.bind_eq_bind, Option.bind_some]
    split
    · exact ⟨_, rfl, h⟩
    next height =>
    split
    · exact ⟨_, rfl, h⟩
    next hfits =>
    refine ih _ height ⟨h.opusHead, h.codecDelay, ?_⟩
    rintro part ⟨⟩
    exact ⟨Nat.le_of_not_lt hfits, not_not.mp height⟩
  | case8 i found buffers bound hscan hi hpast marker hload hother hother' hother'' ih => exact ih h

/-- The scan makes the same of such a buffer as the one without checks. -/
theorem scanMarkers_eq (hroom : 16 ≤ data.length) (hsize : data.length < 2 ^ 64) (i : Nat)
    (found : Bool) (buffers : OpusHeaderBuffers) :
    scanMarkers data i found buffers = Foundation.scanMarkers data i found buffers := by
  have hbound : (data.length + (2 ^ 64 - aopusMarkerSize - aopusLengthSize)) % 2 ^ 64 =
      data.length - 16 := by
    rw [aopusMarkerSize, aopusLengthSize]
    omega
  fun_induction scanMarkers data i found buffers with
  | case1 i found buffers hscan =>
    rw [scanBound_eq hroom] at hscan
    cases hscan
  | case2 i found buffers bound hscan hend =>
    rw [Foundation.scanMarkers, hbound, if_pos (scanBound_some hroom hscan ▸ hend)]
  | case3 i found buffers bound hscan hi hpast =>
    have hlast := scanBound_some hroom hscan
    omega
  | case4 i found buffers bound hscan hi hpast hload =>
    have hlast := scanBound_some hroom hscan
    rw [load_marker (by omega)] at hload
    cases hload
  | case5 i found buffers bound hscan hi hpast start hload ih =>
    have hlast := scanBound_some hroom hscan
    rw [load_marker (by omega)] at hload
    rw [Foundation.scanMarkers, hbound, if_neg (by omega), dif_neg (by rw [aopusMarkerSize]; omega)]
    dsimp only
    rw [if_pos (Option.some.inj hload)]
    refine Option.bind_congr fun n _ => ?_
    split
    · rfl
    split
    · rfl
    exact ih n
  | case6 i found buffers bound hscan hi hpast start hload hother ih =>
    have hlast := scanBound_some hroom hscan
    rw [load_marker (by omega)] at hload
    rw [Foundation.scanMarkers, hbound, if_neg (by omega), dif_neg (by rw [aopusMarkerSize]; omega)]
    dsimp only
    rw [Option.some.inj hload, if_neg hother, if_pos rfl]
    refine Option.bind_congr fun n _ => ?_
    split
    · rfl
    next height =>
    split
    · rfl
    exact ih n height
  | case7 i found buffers bound hscan hi hpast start hload hother hother' ih =>
    have hlast := scanBound_some hroom hscan
    rw [load_marker (by omega)] at hload
    rw [Foundation.scanMarkers, hbound, if_neg (by omega), dif_neg (by rw [aopusMarkerSize]; omega)]
    dsimp only
    rw [Option.some.inj hload, if_neg hother, if_neg hother', if_pos rfl]
    refine Option.bind_congr fun n _ => ?_
    split
    · rfl
    next height =>
    split
    · rfl
    exact ih n height
  | case8 i found buffers bound hscan hi hpast marker hload hother hother' hother'' ih =>
    have hlast := scanBound_some hroom hscan
    rw [load_marker (by omega)] at hload
    rw [Foundation.scanMarkers, hbound, if_neg (by omega), dif_neg (by rw [aopusMarkerSize]; omega)]
    dsimp only
    rw [Option.some.inj hload, if_neg hother, if_neg hother', if_neg hother'']
    exact ih

/-! ### The functions -/

theorem getOpusHeaderBuffers_of_long (hlong : 8 ≤ data.length) :
    getOpusHeaderBuffers data =
      if data.take 8 = opusHeadLabel then
        if data.length < aopusOpusheadMinsize ∨ aopusOpusheadMaxsize < data.length then
          some (false, {})
        else some (true, { opusHead := some (0, data.length) })
      else if data.take 5 = aopusCsdMarkerPrefix then scanMarkers data 0 false {}
      else some (false, {}) := by
  have hload : ∀ n ≤ 8, load data 0 n = some (data.take n) := by
    intro n hn
    rw [load, if_pos (by omega), Ring.slice, List.drop_zero]
  rw [getOpusHeaderBuffers, if_neg (Nat.not_lt.mpr hlong), hload 8 (Nat.le_refl 8),
    hload 5 (by decide)]
  rfl

/-- Where every difference and every read is right, the functions are the same. -/
theorem getOpusHeaderBuffers_eq (hsize : data.length < 2 ^ 64)
    (hroom : data.take 5 = aopusCsdMarkerPrefix → 16 ≤ data.length) :
    getOpusHeaderBuffers data = Foundation.getOpusHeaderBuffers data := by
  by_cases hlong : 8 ≤ data.length
  · rw [getOpusHeaderBuffers_of_long hlong, Foundation.getOpusHeaderBuffers,
      if_neg (Nat.not_lt.mpr hlong)]
    split
    · rfl
    split
    · next hmarker => exact scanMarkers_eq (hroom hmarker) hsize 0 false {}
    · rfl
  · rw [getOpusHeaderBuffers, Foundation.getOpusHeaderBuffers, if_pos (Nat.lt_of_not_le hlong),
      if_pos (Nat.lt_of_not_le hlong)]

end Checked

/-- Every difference and every read is right, and what is found is inside the buffer. -/
def ScanSafe (data : List (BitVec 8)) : Prop :=
  ∃ result, Checked.getOpusHeaderBuffers data = some result ∧ result.2.Inside data

/-- The buffer has room for a marker, which begins it, but not for the length. -/
def MarkerWithoutLength (data : List (BitVec 8)) : Prop :=
  8 ≤ data.length ∧ data.length < 16 ∧ data.take 5 = aopusCsdMarkerPrefix

/-- The bound of the loop wraps for short buffers. -/
theorem not_scanSafe (h : MarkerWithoutLength data) : ¬ScanSafe data := by
  obtain ⟨hlong, hshort, hmarker⟩ := h
  rintro ⟨result, hresult, -⟩
  have hlegacy : data.take 8 ≠ opusHeadLabel := by
    intro hlabel
    have hfive := congrArg (List.take 5) hlabel
    rw [List.take_take, Nat.min_eq_left (by decide), hmarker] at hfive
    exact absurd hfive (by decide)
  rw [Checked.getOpusHeaderBuffers_of_long hlong, if_neg hlegacy, if_pos hmarker,
    Checked.scanMarkers, Checked.scanBound_short hshort] at hresult
  cases hresult

theorem scanSafe_iff (data : List (BitVec 8)) : ScanSafe data ↔ ¬MarkerWithoutLength data := by
  refine ⟨fun hsafe hshort => not_scanSafe hshort hsafe, fun h => ?_⟩
  rw [ScanSafe]
  by_cases hlong : 8 ≤ data.length
  · rw [Checked.getOpusHeaderBuffers_of_long hlong]
    split
    · split
      · exact ⟨_, rfl, inside_nothing data⟩
      · refine ⟨_, rfl, ?_, nofun, nofun⟩
        rintro part ⟨⟩
        exact Nat.le_of_eq (Nat.zero_add _)
    split
    · next hmarker =>
      have hroom : 16 ≤ data.length := Nat.le_of_not_lt fun hshort => h ⟨hlong, hshort, hmarker⟩
      exact Checked.scanMarkers_inside hroom 0 false (inside_nothing data)
    · exact ⟨_, rfl, inside_nothing data⟩
  · rw [Checked.getOpusHeaderBuffers, if_pos (Nat.lt_of_not_le hlong)]
    exact ⟨_, rfl, inside_nothing data⟩

/-- A marker alone. -/
theorem not_scanSafe_marker : ¬ScanSafe aopusCsdOpusHeaderMarker :=
  not_scanSafe ⟨by decide, by decide, rfl⟩

end MediaFramework.Foundation
