import MediaFramework.ForwardLock.Conversions
import MediaFramework.Foundation.Base64RoundTrip

/-!
# Base64 bodies

A body in base64, with line breaks and white space between the characters, comes out as the bytes
that the characters stand for.
-/

namespace MediaFramework.ForwardLock

open Foundation.Base64 (encode6Bit encodeBase64)

/-! ### Texts -/

/-- What may stand between the characters. A bare line feed is repaired. -/
def gaps : List (List Byte) := [[SPACE], [TAB], [CR, LF], [LF]]

/-- A text of some parts, with gaps in front of them, between them and behind them. -/
inductive Spaced : List (List Byte) → List Byte → Prop
  | nil : Spaced [] []
  | part (part : List Byte) {parts : List (List Byte)} {text : List Byte} :
    Spaced parts text → Spaced (part :: parts) (part ++ text)
  | gap {gap : List Byte} {parts : List (List Byte)} {text : List Byte} (hgap : gap ∈ gaps) :
    Spaced parts text → Spaced parts (gap ++ text)

/-- The characters of base64. Nothing may stand between two padding characters. -/
def base64Parts : List Char → List (List Byte)
  | [] => []
  | ['=', '='] => [[chr '=', chr '=']]
  | c :: text => [chr c] :: base64Parts text

theorem Spaced.cons_cases {part : List Byte} {parts : List (List Byte)} {text : List Byte}
    (h : Spaced (part :: parts) text) :
    ∃ (front : List (List Byte)) (rest : List Byte), (∀ gap ∈ front, gap ∈ gaps) ∧
      text = front.flatten ++ (part ++ rest) ∧ Spaced parts rest := by
  generalize hall : part :: parts = all at h
  induction h with
  | nil => cases hall
  | part part' h =>
    cases hall
    exact ⟨[], _, fun _ hmem => absurd hmem List.not_mem_nil, rfl, h⟩
  | @gap gap _ text hgap _ ih =>
    obtain ⟨front, rest, hfront, rfl, hrest⟩ := ih hall
    refine ⟨gap :: front, rest, ?_, ?_, hrest⟩
    · exact List.forall_mem_cons.mpr ⟨hgap, hfront⟩
    · rw [List.flatten_cons, List.append_assoc]

theorem Spaced.nil_cases {text : List Byte} (h : Spaced [] text) :
    ∃ front : List (List Byte), (∀ gap ∈ front, gap ∈ gaps) ∧ text = front.flatten := by
  generalize hall : ([] : List (List Byte)) = all at h
  induction h with
  | nil => exact ⟨[], fun _ hmem => absurd hmem List.not_mem_nil, rfl⟩
  | part => cases hall
  | @gap gap _ text hgap _ ih =>
    obtain ⟨front, hfront, rfl⟩ := ih hall
    exact ⟨gap :: front, List.forall_mem_cons.mpr ⟨hgap, hfront⟩, rfl⟩

/-! ### Sextets -/

theorem base64Value_encode6Bit {v : Nat} (h : v < 64) :
    isBase64Char (chr (encode6Bit v)) = true ∧ base64Value (chr (encode6Bit v)) = BitVec.ofNat 8 v ∧
      chr (encode6Bit v) ≠ LF := by
  have hall : ∀ v : Fin 64, isBase64Char (chr (encode6Bit v)) = true ∧
      base64Value (chr (encode6Bit v)) = BitVec.ofNat 8 v ∧ chr (encode6Bit v) ≠ LF := by
    decide +kernel
  exact hall ⟨v, h⟩

/-- The high bits of one sextet and the low bits of the next are a byte. -/
theorem or_sextets {b : Byte} {v w k : Nat} (hk : k ∈ [2, 4, 6]) (hw : w < 64)
    (hb : b.toNat = v * 2 ^ k % 256 + w / 2 ^ (6 - k)) :
    BitVec.ofNat 8 v <<< k ||| BitVec.ofNat 8 w >>> (6 - k) = b := by
  apply BitVec.eq_of_toNat_eq
  rw [BitVec.toNat_or, BitVec.toNat_shiftLeft, BitVec.toNat_ushiftRight, BitVec.toNat_ofNat,
    BitVec.toNat_ofNat, Nat.shiftLeft_eq, Nat.shiftRight_eq_div_pow, hb]
  obtain rfl | rfl | rfl : k = 2 ∨ k = 4 ∨ k = 6 := by
    simpa only [List.mem_cons, List.not_mem_nil, or_false] using hk
  · rw [show v % 2 ^ 8 * 2 ^ 2 % 2 ^ 8 = (v % 64) <<< 2 by rw [Nat.shiftLeft_eq]; omega,
      Foundation.Base64.or_shifted (by omega)]
    omega
  · rw [show v % 2 ^ 8 * 2 ^ 4 % 2 ^ 8 = (v % 16) <<< 4 by rw [Nat.shiftLeft_eq]; omega,
      Foundation.Base64.or_shifted (by omega)]
    omega
  · rw [show v % 2 ^ 8 * 2 ^ 6 % 2 ^ 8 = (v % 4) <<< 6 by rw [Nat.shiftLeft_eq]; omega,
      Foundation.Base64.or_shifted (by omega)]
    omega

/-! ### The scanner -/

namespace Session

/-- Before the first of four characters. -/
def firstOfFour : List ScannerState := [.WantsByte1, .WantsByte1_AfterCRLF]

/-- Behind the padding. -/
def padded : List ScannerState := [.WantsWhitespace, .WantsWhitespace_AfterCRLF]

/-- The session that `s`, at the start of a base64 body, has become. Bytes have been let through, and
the bits of the next one are in `c`. -/
def decoding (AES_encrypt : List Byte → List Byte → List Byte) (s : Session) (out : List Byte)
    (scannerState savedScannerState : ScannerState) (pos : Nat) (c : Byte) (consumed : Nat) : Session :=
  { (s.writeEncryptedChars AES_encrypt out).setScan .WantsBase64EncodedData scannerState
      savedScannerState pos c with
    numCharsConsumed := consumed }

def Decoding (AES_encrypt : List Byte → List Byte → List Byte) (s : Session) (out : List Byte)
    (states : List ScannerState) (c : Byte) (t : Session) : Prop :=
  ∃ scannerState ∈ states, ∃ savedScannerState pos consumed,
    t = s.decoding AES_encrypt out scannerState savedScannerState pos c consumed

variable {AES_encrypt : List Byte → List Byte → List Byte} {s t u : Session} {out : List Byte}
variable {states : List ScannerState} {c ch : Byte}

theorem pushChars_single (t : Session) (h : t.pushChar AES_encrypt ch = (u, .OK)) :
    t.pushChars AES_encrypt [ch] = (u, .OK) := by
  rw [pushChars_cons, h, if_neg (not_not.mpr rfl)]
  rfl

theorem Decoding.gap (h : Decoding AES_encrypt s out states c t)
    (hstates : states ∈ [firstOfFour, [.WantsByte2], [.WantsByte3], [.WantsByte4], padded])
    {gap : List Byte} (hgap : gap ∈ gaps) :
    ∃ u, t.pushChars AES_encrypt gap = (u, .OK) ∧ Decoding AES_encrypt s out states c u := by
  obtain ⟨scannerState, hmem, _, _, _, rfl⟩ := h
  simp only [gaps, List.mem_cons, List.not_mem_nil, or_false] at hgap hstates
  obtain rfl | rfl | rfl | rfl | rfl := hstates <;>
    simp only [firstOfFour, padded, List.mem_cons, List.not_mem_nil, or_false] at hmem <;>
    (try obtain rfl | rfl := hmem) <;>
    obtain rfl | rfl | rfl | rfl := hgap <;>
    refine ⟨_, rfl, _, ?_, _, _, _, rfl⟩ <;>
    first | exact List.mem_cons_self | exact List.mem_cons_of_mem _ List.mem_cons_self

theorem Decoding.gaps (h : Decoding AES_encrypt s out states c t)
    (hstates : states ∈ [firstOfFour, [.WantsByte2], [.WantsByte3], [.WantsByte4], padded])
    {front : List (List Byte)} (hfront : ∀ gap ∈ front, gap ∈ ForwardLock.gaps) :
    ∃ u, t.pushChars AES_encrypt front.flatten = (u, .OK) ∧
      Decoding AES_encrypt s out states c u := by
  induction front generalizing t with
  | nil => exact ⟨t, rfl, h⟩
  | cons gap front ih =>
    obtain ⟨hgap, hfront⟩ := List.forall_mem_cons.mp hfront
    obtain ⟨u, hpushed, hu⟩ := h.gap hstates hgap
    rw [List.flatten_cons, pushChars_trans hpushed]
    exact ih hu hfront

section

variable {scannerState savedScannerState : ScannerState} {pos consumed v : Nat}

theorem pushChar_decoding (hch : ch ≠ LF) :
    (s.decoding AES_encrypt out scannerState savedScannerState pos c consumed).pushChar AES_encrypt ch =
      (s.decoding AES_encrypt out scannerState savedScannerState pos c
        (consumed + 1)).matchBase64EncodedData AES_encrypt ch :=
  if_neg fun h => hch h.1

theorem writeEncryptedChar_decoding (b : Byte) :
    (s.decoding AES_encrypt out scannerState savedScannerState pos c consumed).writeEncryptedChar
        AES_encrypt b =
      s.decoding AES_encrypt (out ++ [b]) scannerState savedScannerState pos c consumed := by
  rw [decoding, decoding, ← writeEncryptedChars_append]
  rfl

theorem Decoding.first (h : Decoding AES_encrypt s out firstOfFour c t) (hv : v < 64) :
    ∃ u, t.pushChars AES_encrypt [chr (encode6Bit v)] = (u, .OK) ∧
      Decoding AES_encrypt s out [.WantsByte2] (BitVec.ofNat 8 v <<< 2) u := by
  obtain ⟨hchar, hvalue, hLF⟩ := base64Value_encode6Bit hv
  obtain ⟨scannerState, hmem, savedScannerState, pos, consumed, rfl⟩ := h
  refine ⟨s.decoding AES_encrypt out .WantsByte2 savedScannerState pos (BitVec.ofNat 8 v <<< 2)
    (consumed + 1), ?_, _, List.mem_cons_self, _, _, _, rfl⟩
  apply pushChars_single
  rw [pushChar_decoding hLF, ← hvalue]
  simp only [firstOfFour, List.mem_cons, List.not_mem_nil, or_false] at hmem
  obtain rfl | rfl := hmem <;> exact if_pos hchar

/-- A sextet in the middle completes a byte. -/
theorem Decoding.completeByte {high low : Nat} {next : ScannerState}
    (hstate : scannerState = .WantsByte2 ∧ high = 4 ∧ low = 4 ∧ next = .WantsByte3 ∨
      scannerState = .WantsByte3 ∧ high = 2 ∧ low = 6 ∧ next = .WantsByte4)
    (h : Decoding AES_encrypt s out [scannerState] c t) (hv : v < 64) :
    ∃ u, t.pushChars AES_encrypt [chr (encode6Bit v)] = (u, .OK) ∧
      Decoding AES_encrypt s (out ++ [c ||| BitVec.ofNat 8 v >>> high]) [next]
        (BitVec.ofNat 8 v <<< low) u := by
  obtain ⟨hchar, hvalue, hLF⟩ := base64Value_encode6Bit hv
  obtain ⟨scannerState', hmem, savedScannerState, pos, consumed, rfl⟩ := h
  obtain rfl := List.mem_singleton.mp hmem
  refine ⟨s.decoding AES_encrypt (out ++ [c ||| BitVec.ofNat 8 v >>> high]) next savedScannerState pos
    (BitVec.ofNat 8 v <<< low) (consumed + 1), ?_, _, List.mem_cons_self, _, _, _, rfl⟩
  apply pushChars_single
  rw [pushChar_decoding hLF, ← hvalue, matchBase64EncodedData]
  obtain ⟨rfl, rfl, rfl, rfl⟩ | ⟨rfl, rfl, rfl, rfl⟩ := hstate <;>
  · refine (if_pos hchar).trans ?_
    rw [Session.completeByte, writeEncryptedChar_decoding]
    rfl

theorem Decoding.last (h : Decoding AES_encrypt s out [.WantsByte4] c t) (hv : v < 64) :
    ∃ u, t.pushChars AES_encrypt [chr (encode6Bit v)] = (u, .OK) ∧
      Decoding AES_encrypt s (out ++ [c ||| BitVec.ofNat 8 v]) firstOfFour (c ||| BitVec.ofNat 8 v) u := by
  obtain ⟨hchar, hvalue, hLF⟩ := base64Value_encode6Bit hv
  obtain ⟨scannerState, hmem, savedScannerState, pos, consumed, rfl⟩ := h
  obtain rfl := List.mem_singleton.mp hmem
  refine ⟨s.decoding AES_encrypt (out ++ [c ||| BitVec.ofNat 8 v]) .WantsByte1 savedScannerState pos
    (c ||| BitVec.ofNat 8 v) (consumed + 1), ?_, _, List.mem_cons_self, _, _, _, rfl⟩
  apply pushChars_single
  rw [pushChar_decoding hLF, ← hvalue, matchBase64EncodedData]
  refine (if_pos hchar).trans ?_
  rw [completeLastByte]
  exact congrArg (goTo · .WantsByte1)
    (writeEncryptedChar_decoding (c := c ||| base64Value (chr (encode6Bit v))) _)

/-- The padding, which is one character in the place of the last, or two in the place of the last
two. -/
theorem Decoding.padding {part : List Byte}
    (hpart : scannerState = .WantsByte3 ∧ part = [chr '=', chr '='] ∨
      scannerState = .WantsByte4 ∧ part = [chr '='])
    (h : Decoding AES_encrypt s out [scannerState] c t) :
    ∃ u, t.pushChars AES_encrypt part = (u, .OK) ∧ Decoding AES_encrypt s out padded c u := by
  obtain ⟨scannerState', hmem, _, _, _, rfl⟩ := h
  obtain rfl := List.mem_singleton.mp hmem
  obtain ⟨rfl, rfl⟩ | ⟨rfl, rfl⟩ := hpart <;>
  exact ⟨_, rfl, _, List.mem_cons_self, _, _, _, rfl⟩

end

/-- A part is scanned with the gaps in front of it. -/
theorem Decoding.part {P : Session → Prop} {part : List Byte} {parts : List (List Byte)}
    {text : List Byte} (h : Decoding AES_encrypt s out states c t)
    (hstates : states ∈ [firstOfFour, [.WantsByte2], [.WantsByte3], [.WantsByte4], padded])
    (htext : Spaced (part :: parts) text)
    (hpart : ∀ {t}, Decoding AES_encrypt s out states c t →
      ∃ u, t.pushChars AES_encrypt part = (u, .OK) ∧ P u) :
    ∃ u rest, P u ∧ Spaced parts rest ∧
      t.pushChars AES_encrypt text = u.pushChars AES_encrypt rest := by
  obtain ⟨front, rest, hfront, rfl, hrest⟩ := htext.cons_cases
  obtain ⟨t', hgaps, ht'⟩ := h.gaps hstates hfront
  obtain ⟨u, hpushed, hu⟩ := hpart ht'
  exact ⟨u, rest, hu, hrest, by rw [pushChars_trans hgaps, pushChars_trans hpushed]⟩

theorem base64Parts_cons {v : Nat} (hv : v < 64) (text : List Char) :
    base64Parts (encode6Bit v :: text) = [chr (encode6Bit v)] :: base64Parts text := by
  have hall : ∀ v : Fin 64, encode6Bit v ≠ '=' := by decide +kernel
  rw [base64Parts]
  intro hpadding _
  exact hall ⟨v, hv⟩ hpadding

/-- The first two characters of a group hold the first byte. -/
theorem Decoding.twoOfFour {x : Byte} {w : Nat} {parts : List (List Byte)} {text : List Byte}
    (h : Decoding AES_encrypt s out firstOfFour c t) (hw : w < 16)
    (htext : Spaced ([chr (encode6Bit (x.toNat / 4))] ::
      [chr (encode6Bit (x.toNat % 4 * 16 + w))] :: parts) text) :
    ∃ u rest, Decoding AES_encrypt s (out ++ [x]) [.WantsByte3]
        (BitVec.ofNat 8 (x.toNat % 4 * 16 + w) <<< 4) u ∧ Spaced parts rest ∧
      t.pushChars AES_encrypt text = u.pushChars AES_encrypt rest := by
  have hx := x.isLt
  obtain ⟨u, rest, hu, hrest, hpushed⟩ := h.part (by decide) htext fun h =>
    h.first (v := x.toNat / 4) (by omega)
  obtain ⟨u', rest', hu', hrest', hpushed'⟩ := hu.part (by decide) hrest fun h =>
    h.completeByte (.inl ⟨rfl, rfl, rfl, rfl⟩) (v := x.toNat % 4 * 16 + w) (by omega)
  have hbyte : BitVec.ofNat 8 (x.toNat / 4) <<< 2 |||
      BitVec.ofNat 8 (x.toNat % 4 * 16 + w) >>> 4 = x :=
    or_sextets (k := 2) (by decide) (by omega) (by omega)
  rw [hbyte] at hu'
  exact ⟨u', rest', hu', hrest', hpushed.trans hpushed'⟩

theorem Decoding.thirdOfFour {x : Byte} {v w : Nat} {parts : List (List Byte)} {text : List Byte}
    (h : Decoding AES_encrypt s out [.WantsByte3] (BitVec.ofNat 8 (v + x.toNat / 16) <<< 4) t)
    (hv : v % 16 = 0) (hw : w < 4)
    (htext : Spaced ([chr (encode6Bit (x.toNat % 16 * 4 + w))] :: parts) text) :
    ∃ u rest, Decoding AES_encrypt s (out ++ [x]) [.WantsByte4]
        (BitVec.ofNat 8 (x.toNat % 16 * 4 + w) <<< 6) u ∧ Spaced parts rest ∧
      t.pushChars AES_encrypt text = u.pushChars AES_encrypt rest := by
  have hx := x.isLt
  obtain ⟨u, rest, hu, hrest, hpushed⟩ := h.part (by decide) htext fun h =>
    h.completeByte (.inr ⟨rfl, rfl, rfl, rfl⟩) (v := x.toNat % 16 * 4 + w) (by omega)
  have hbyte : BitVec.ofNat 8 (v + x.toNat / 16) <<< 4 |||
      BitVec.ofNat 8 (x.toNat % 16 * 4 + w) >>> 2 = x :=
    or_sextets (k := 4) (by decide) (by omega) (by omega)
  rw [hbyte] at hu
  exact ⟨u, rest, hu, hrest, hpushed⟩

/-- A body of base64 is let through as its bytes. -/
theorem Decoding.body {body text : List Byte} (h : Decoding AES_encrypt s out firstOfFour c t)
    (htext : Spaced (base64Parts (encodeBase64 body)) text) :
    ∃ u c, ∃ states ∈ [firstOfFour, padded], t.pushChars AES_encrypt text = (u, .OK) ∧
      Decoding AES_encrypt s (out ++ body) states c u := by
  induction body using MediaFramework.Foundation.Base64.encodeBase64.induct generalizing out c t text with
  | case1 =>
    obtain ⟨front, hfront, rfl⟩ := htext.nil_cases
    obtain ⟨u, hpushed, hu⟩ := h.gaps (by decide) hfront
    rw [List.append_nil]
    exact ⟨u, c, _, List.mem_cons_self, hpushed, hu⟩
  | case2 x1 =>
    have hx1 := x1.isLt
    have hchars : encodeBase64 [x1] = [encode6Bit (x1.toNat / 4), encode6Bit (x1.toNat % 4 * 16 + 0),
      '=', '='] := Foundation.Base64.encodeBase64_eq [x1]
    rw [hchars, base64Parts_cons (by omega), base64Parts_cons (by omega)] at htext
    obtain ⟨u, rest, hu, hrest, hpushed⟩ := h.twoOfFour (by omega) htext
    obtain ⟨u', rest', hu', hrest', hpushed'⟩ := hu.part (by decide) hrest fun h =>
      h.padding (.inl ⟨rfl, rfl⟩)
    obtain ⟨front, hfront, rfl⟩ := hrest'.nil_cases
    obtain ⟨u'', hpushed'', hu''⟩ := hu'.gaps (by decide) hfront
    exact ⟨u'', _, _, List.mem_cons_of_mem _ List.mem_cons_self,
      hpushed.trans (hpushed'.trans hpushed''), hu''⟩
  | case3 x1 x2 =>
    have hx1 := x1.isLt
    have hx2 := x2.isLt
    have hchars : encodeBase64 [x1, x2] = [encode6Bit (x1.toNat / 4),
        encode6Bit (x1.toNat % 4 * 16 + x2.toNat / 16), encode6Bit (x2.toNat % 16 * 4 + 0), '='] :=
      Foundation.Base64.encodeBase64_eq [x1, x2]
    rw [hchars, base64Parts_cons (by omega), base64Parts_cons (by omega), base64Parts_cons (by omega)]
      at htext
    obtain ⟨u, rest, hu, hrest, hpushed⟩ := h.twoOfFour (by omega) htext
    obtain ⟨u', rest', hu', hrest', hpushed'⟩ := hu.thirdOfFour (by omega) (by omega) hrest
    obtain ⟨u'', rest'', hu'', hrest'', hpushed''⟩ := hu'.part (by decide) hrest' fun h =>
      h.padding (.inr ⟨rfl, rfl⟩)
    obtain ⟨front, hfront, rfl⟩ := hrest''.nil_cases
    obtain ⟨v, hgaps, hv⟩ := hu''.gaps (by decide) hfront
    rw [List.append_assoc] at hv
    exact ⟨v, _, _, List.mem_cons_of_mem _ List.mem_cons_self,
      hpushed.trans (hpushed'.trans (hpushed''.trans hgaps)), hv⟩
  | case4 x1 x2 x3 data ih =>
    have hx1 := x1.isLt
    have hx2 := x2.isLt
    have hx3 := x3.isLt
    have hmissing : Sextets.missing (x1 :: x2 :: x3 :: data).length =
        Sextets.missing data.length := by
      rw [Sextets.missing, Sextets.missing]
      simp only [List.length_cons]
      omega
    have hchars : encodeBase64 (x1 :: x2 :: x3 :: data) = encode6Bit (x1.toNat / 4) ::
        encode6Bit (x1.toNat % 4 * 16 + x2.toNat / 16) ::
        encode6Bit (x2.toNat % 16 * 4 + x3.toNat / 64) :: encode6Bit (x3.toNat % 64) ::
        encodeBase64 data := by
      rw [Foundation.Base64.encodeBase64_eq, Foundation.Base64.encodeBase64_eq data, hmissing]
      rfl
    rw [hchars, base64Parts_cons (by omega), base64Parts_cons (by omega), base64Parts_cons (by omega),
      base64Parts_cons (by omega)] at htext
    obtain ⟨u, rest, hu, hrest, hpushed⟩ := h.twoOfFour (by omega) htext
    obtain ⟨u', rest', hu', hrest', hpushed'⟩ := hu.thirdOfFour (by omega) (by omega) hrest
    obtain ⟨u'', rest'', hu'', hrest'', hpushed''⟩ := hu'.part (by decide) hrest' fun h =>
      h.last (v := x3.toNat % 64) (by omega)
    have hbyte : BitVec.ofNat 8 (x2.toNat % 16 * 4 + x3.toNat / 64) <<< 6 |||
        BitVec.ofNat 8 (x3.toNat % 64) = x3 := by
      have hor := or_sextets (b := x3) (v := x2.toNat % 16 * 4 + x3.toNat / 64) (w := x3.toNat % 64)
        (k := 6) (by decide) (by omega) (by omega)
      rwa [Nat.sub_self, BitVec.ushiftRight_zero] at hor
    rw [hbyte] at hu''
    obtain ⟨v, c', states, hstates, hdata, hv⟩ := ih hu'' hrest''
    rw [List.append_assoc, List.append_assoc, List.append_assoc] at hv
    exact ⟨v, c', states, hstates, hpushed.trans (hpushed'.trans (hpushed''.trans hdata)), hv⟩

/-! ### The close delimiter -/

section

variable {scannerState savedScannerState : ScannerState} {pos consumed : Nat}

end

end Session

end MediaFramework.ForwardLock
