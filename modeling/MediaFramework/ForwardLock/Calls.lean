import MediaFramework.ForwardLock.Converter

/-!
# Output of a call

No character is handled differently for what was put out before it in the same call, or signed
before the call.
-/

namespace MediaFramework.ForwardLock

/-- What was put out before in the same call, and signed before, and the error of an earlier
call. -/
structure Output where
  pBuffer : List Byte
  dataOffset : Nat
  numDataBytes : Nat
  signingInput : List Byte
  errorPos : Option Nat

namespace Session

/-- The session with `o` in front of its output. -/
def addOutput (s : Session) (o : Output) : Session :=
  { s with
    pBuffer := o.pBuffer ++ s.pBuffer
    dataOffset := o.dataOffset + s.dataOffset
    numDataBytes := o.numDataBytes + s.numDataBytes
    signingInput := o.signingInput ++ s.signingInput
    errorPos := o.errorPos }

/-- The same for a session with a status. -/
def addOutputTo (o : Output) (res : Session × Status) : Session × Status :=
  (res.1.addOutput o, res.2)

variable (AES_encrypt : List Byte → List Byte → List Byte) (s : Session) (o : Output) (ch : Byte)

@[simp]
theorem addOutput_scannerState : (s.addOutput o).scannerState = s.scannerState := rfl

@[simp]
theorem addOutput_parserState : (s.addOutput o).parserState = s.parserState := rfl

theorem addOutputTo_ite {c : Prop} [Decidable c] (res res' : Session × Status) :
    addOutputTo o (if c then res else res') =
      if c then addOutputTo o res else addOutputTo o res' :=
  apply_ite (addOutputTo o) c res res'

theorem matchOpenDelimiter_addOutput :
    (s.addOutput o).matchOpenDelimiter ch = addOutputTo o (s.matchOpenDelimiter ch) := by
  rw [matchOpenDelimiter, matchOpenDelimiter, addOutput_scannerState]
  cases s.scannerState <;> first | rfl | (simp only [addOutputTo_ite]; rfl)

theorem recognizeMimeHeaderName_addOutput :
    (s.addOutput o).recognizeMimeHeaderName = addOutputTo o s.recognizeMimeHeaderName := by
  simp only [recognizeMimeHeaderName, addOutputTo_ite]
  rfl

/-- The header goes to the start of the buffer, so nothing may stand there yet. -/
theorem writeHeader_addOutput (hbuffer : o.pBuffer = []) (hoffset : o.dataOffset = 0) :
    (s.addOutput o).writeHeader = addOutputTo o s.writeHeader := by
  obtain ⟨pBuffer, dataOffset, numDataBytes, signingInput, errorPos⟩ := o
  dsimp only at hbuffer hoffset
  subst hbuffer hoffset
  rw [writeHeader, writeHeader, addOutputTo_ite]
  simp only [addOutputTo, addOutput, List.nil_append, Nat.zero_add]

theorem matchMimeHeadersEnd_addOutput (hbuffer : o.pBuffer = []) (hoffset : o.dataOffset = 0) :
    (s.addOutput o).matchMimeHeadersEnd = addOutputTo o s.matchMimeHeadersEnd := by
  have hdefaults : (s.addOutput o).applyDefaults = s.applyDefaults.addOutput o := rfl
  have hheader := writeHeader_addOutput s.applyDefaults o hbuffer hoffset
  rw [matchMimeHeadersEnd, matchMimeHeadersEnd, hdefaults]
  dsimp only
  rw [hheader, addOutputTo_ite, addOutputTo_ite]
  rfl

theorem matchMimeHeaders_addOutput (hbuffer : o.pBuffer = []) (hoffset : o.dataOffset = 0) :
    (s.addOutput o).matchMimeHeaders ch = addOutputTo o (s.matchMimeHeaders ch) := by
  have hname := recognizeMimeHeaderName_addOutput s o
  have hend := matchMimeHeadersEnd_addOutput s o hbuffer hoffset
  rw [matchMimeHeaders, matchMimeHeaders, addOutput_scannerState]
  cases s.scannerState <;> first
    | rfl
    | (simp only [hname, hend, wants, wantsValueEnd, addOutputTo_ite]; rfl)

theorem writeEncryptedChar_addOutput :
    (s.addOutput o).writeEncryptedChar AES_encrypt ch =
      (s.writeEncryptedChar AES_encrypt ch).addOutput o := by
  rw [writeEncryptedChar, writeEncryptedChar]
  simp only [addOutput, List.append_assoc, Nat.add_assoc]

theorem writeEncryptedChars_addOutput (data : List Byte) :
    (s.addOutput o).writeEncryptedChars AES_encrypt data =
      (s.writeEncryptedChars AES_encrypt data).addOutput o := by
  induction data generalizing s with
  | nil => rfl
  | cons ch data ih =>
    have hstep := ih (s.writeEncryptedChar AES_encrypt ch)
    rw [← writeEncryptedChar_addOutput] at hstep
    exact hstep

theorem matchCloseDashes_addOutput :
    (s.addOutput o).matchCloseDashes ch = addOutputTo o (s.matchCloseDashes ch) := by
  rw [matchCloseDashes, matchCloseDashes, addOutput_scannerState]
  cases s.scannerState <;> first | rfl | (simp only [addOutputTo_ite]; rfl)

theorem flushDelimiter_addOutput :
    (s.addOutput o).flushDelimiter AES_encrypt ch =
      (s.flushDelimiter AES_encrypt ch).addOutput o := by
  have hwrite := writeEncryptedChars_addOutput AES_encrypt s o
    (s.delimiter.take s.delimiterMatchPos)
  rw [flushDelimiter, flushDelimiter]
  show (if ch ≠ s.delimiter.getD s.delimiterMatchPos 0 then
    { (s.addOutput o).writeEncryptedChars AES_encrypt (s.delimiter.take s.delimiterMatchPos) with
      delimiterMatchPos := 0 } else s.addOutput o) = _
  rw [hwrite, apply_ite (addOutput · o)]
  rfl

theorem matchBinaryEncodedData_addOutput :
    (s.addOutput o).matchBinaryEncodedData AES_encrypt ch =
      addOutputTo o (s.matchBinaryEncodedData AES_encrypt ch) := by
  have hflush := flushDelimiter_addOutput AES_encrypt s o ch
  have hdashes := matchCloseDashes_addOutput s o ch
  have hwrite := writeEncryptedChar_addOutput AES_encrypt
  rw [matchBinaryEncodedData, matchBinaryEncodedData, addOutput_scannerState]
  cases s.scannerState <;> first
    | exact hdashes
    | (simp only [hflush, hwrite, addOutputTo_ite]; rfl)

theorem completeByte_addOutput (high low : Byte) (next : ScannerState) :
    (s.addOutput o).completeByte AES_encrypt high low next =
      addOutputTo o (s.completeByte AES_encrypt high low next) := by
  have hwrite := writeEncryptedChar_addOutput AES_encrypt s o (s.ch ||| high)
  rw [completeByte, completeByte]
  show { (s.addOutput o).writeEncryptedChar AES_encrypt (s.ch ||| high) with ch := low }.goTo _ = _
  rw [hwrite]
  rfl

theorem completeLastByte_addOutput (low : Byte) :
    (s.addOutput o).completeLastByte AES_encrypt low =
      addOutputTo o (s.completeLastByte AES_encrypt low) := by
  have hwrite := writeEncryptedChar_addOutput AES_encrypt { s with ch := s.ch ||| low } o
    (s.ch ||| low)
  rw [completeLastByte, completeLastByte]
  show (({ s with ch := s.ch ||| low }.addOutput o).writeEncryptedChar AES_encrypt
    (s.ch ||| low)).goTo _ = _
  rw [hwrite]
  rfl

theorem matchBase64EncodedData_addOutput :
    (s.addOutput o).matchBase64EncodedData AES_encrypt ch =
      addOutputTo o (s.matchBase64EncodedData AES_encrypt ch) := by
  have hdashes := matchCloseDashes_addOutput s o ch
  have hcomplete := completeByte_addOutput AES_encrypt s o
  have hlast := completeLastByte_addOutput AES_encrypt s o
  rw [matchBase64EncodedData, matchBase64EncodedData, addOutput_scannerState]
  cases s.scannerState <;> first
    | exact hdashes
    | (simp only [hcomplete, hlast, wantsDelimiter, addOutputTo_ite]; rfl)

theorem repairBase64EncodedData_addOutput :
    (s.addOutput o).repairBase64EncodedData AES_encrypt ch =
      addOutputTo o (s.repairBase64EncodedData AES_encrypt ch) := by
  have hmatch := matchBase64EncodedData_addOutput AES_encrypt
  rw [repairBase64EncodedData, repairBase64EncodedData, addOutput_scannerState, hmatch, hmatch]
  simp only [addOutputTo, hmatch]
  split_ifs <;> rfl

/-- The session is still before the data. -/
def Early (s : Session) : Prop :=
  s.parserState = .WantsOpenDelimiter ∨ s.parserState = .WantsMimeHeaders

theorem matchChar_addOutput (h : s.Early → o.pBuffer = [] ∧ o.dataOffset = 0) :
    (s.addOutput o).matchChar AES_encrypt ch = addOutputTo o (s.matchChar AES_encrypt ch) := by
  rw [matchChar, matchChar, addOutput_parserState]
  cases hstate : s.parserState with
  | WantsOpenDelimiter => exact matchOpenDelimiter_addOutput _ o ch
  | WantsMimeHeaders =>
    obtain ⟨hbuffer, hoffset⟩ := h (.inr hstate)
    exact matchMimeHeaders_addOutput _ o ch hbuffer hoffset
  | WantsBinaryEncodedData => exact matchBinaryEncodedData_addOutput AES_encrypt _ o ch
  | WantsBase64EncodedData => exact repairBase64EncodedData_addOutput AES_encrypt _ o ch
  | Done => rfl

theorem pushChar_addOutput (h : s.Early → o.pBuffer = [] ∧ o.dataOffset = 0) :
    (s.addOutput o).pushChar AES_encrypt ch = addOutputTo o (s.pushChar AES_encrypt ch) :=
  matchChar_addOutput AES_encrypt s.counted o ch h

/-! ### What a character can change -/

theorem matchOpenDelimiter_cases :
    ∃ parserState scannerState delimiter,
      (s.matchOpenDelimiter ch).1 =
        { s with
          parserState := parserState
          scannerState := scannerState
          delimiter := delimiter } ∧
      (parserState = s.parserState ∨ parserState = .WantsMimeHeaders) := by
  rw [matchOpenDelimiter]
  cases hstate : s.scannerState <;> dsimp only [goTo, rightTrimDelimiter] <;>
    first
      | exact ⟨_, _, _, rfl, .inl rfl⟩
      | (split_ifs <;> first | exact ⟨_, _, _, rfl, .inl rfl⟩ | exact ⟨_, _, _, rfl, .inr rfl⟩)

/-- `scannerState` and what is known of the headers may have changed. -/
def HeadersScanned (s s' : Session) : Prop :=
  ∃ scannerState mimeHeaderName contentType contentTransferEncoding,
    s' =
      { s with
        scannerState := scannerState
        mimeHeaderName := mimeHeaderName
        contentType := contentType
        contentTransferEncoding := contentTransferEncoding }

theorem recognizeMimeHeaderName_cases : HeadersScanned s s.recognizeMimeHeaderName.1 := by
  rw [recognizeMimeHeaderName]
  split_ifs <;> exact ⟨_, _, _, _, rfl⟩

theorem matchMimeHeaders_cases :
    HeadersScanned s (s.matchMimeHeaders ch).1 ∨
      s.matchMimeHeaders ch = s.matchMimeHeadersEnd := by
  have hname := recognizeMimeHeaderName_cases s
  rw [matchMimeHeaders]
  cases hstate : s.scannerState <;> dsimp only [goTo, wants, wantsValueEnd] <;>
    first
      | exact .inl ⟨_, _, _, _, rfl⟩
      | (split_ifs <;> first | exact .inr rfl | exact .inl hname | exact .inl ⟨_, _, _, _, rfl⟩)

/-- At the end of the headers there is an error or a header. -/
theorem matchMimeHeadersEnd_cases :
    (HeadersScanned s s.matchMimeHeadersEnd.1 ∧ s.matchMimeHeadersEnd.2 ≠ .OK) ∨
      ∃ parserState, parserState ∈ [ParserState.WantsBinaryEncodedData, .WantsBase64EncodedData] ∧
        s.applyDefaults.writeHeader.2 = .OK ∧
        s.matchMimeHeadersEnd =
          ({ s.applyDefaults.writeHeader.1 with
            parserState := parserState
            scannerState := .WantsByte1 }, .OK) := by
  rw [matchMimeHeadersEnd]
  dsimp only
  split
  · next hverify => exact .inl ⟨⟨_, _, _, _, rfl⟩, hverify⟩
  · split
    · next hheader =>
      refine .inl ⟨?_, hheader⟩
      rw [writeHeader] at hheader ⊢
      dsimp only at hheader ⊢
      split
      · exact ⟨_, _, _, _, rfl⟩
      · next hshort =>
        rw [if_neg hshort] at hheader
        exact absurd rfl hheader
    · next hheader =>
      refine .inr ⟨_, ?_, not_not.mp hheader, rfl⟩
      split
      · exact List.mem_cons_self
      · exact List.mem_cons_of_mem _ List.mem_cons_self

/-- The parser may be done, and the place within the data may have changed. -/
def setScan (s : Session) (parserState : ParserState) (scannerState savedScannerState : ScannerState)
    (delimiterMatchPos : Nat) (ch : Byte) : Session :=
  { s with
    parserState := parserState
    scannerState := scannerState
    savedScannerState := savedScannerState
    delimiterMatchPos := delimiterMatchPos
    ch := ch }

theorem writeEncryptedChars_cases (data : List Byte) :
    ∃ counter keyStream keyStreamIndex output, output.length = data.length ∧
      s.writeEncryptedChars AES_encrypt data =
        { s with
          counter := counter
          keyStream := keyStream
          keyStreamIndex := keyStreamIndex
          pBuffer := s.pBuffer ++ output
          numDataBytes := s.numDataBytes + data.length } := by
  induction data generalizing s with
  | nil => exact ⟨_, _, _, [], rfl, by rw [List.append_nil]; rfl⟩
  | cons ch data ih =>
    obtain ⟨counter, keyStream, keyStreamIndex, output, hlen, heq⟩ :=
      ih (s.writeEncryptedChar AES_encrypt ch)
    obtain ⟨x, hx⟩ : ∃ x, (s.writeEncryptedChar AES_encrypt ch).pBuffer = s.pBuffer ++ [x] :=
      ⟨_, rfl⟩
    rw [hx, List.append_assoc, List.singleton_append] at heq
    refine ⟨counter, keyStream, keyStreamIndex, x :: output, congrArg (· + 1) hlen,
      heq.trans ?_⟩
    rw [List.length_cons, Nat.add_comm data.length, ← Nat.add_assoc]
    rfl

theorem writeEncryptedChars_parserState (data : List Byte) :
    (s.writeEncryptedChars AES_encrypt data).parserState = s.parserState := by
  obtain ⟨_, _, _, _, _, heq⟩ := writeEncryptedChars_cases AES_encrypt s data
  rw [heq]

/-- The data has been written. -/
def Wrote (s : Session) (data : List Byte) (s' : Session) : Prop :=
  ∃ parserState scannerState savedScannerState delimiterMatchPos ch,
    s' = (s.writeEncryptedChars AES_encrypt data).setScan parserState scannerState
      savedScannerState delimiterMatchPos ch ∧
    (parserState = s.parserState ∨ parserState = .Done)

theorem writeEncryptedChars_setScan (parserState : ParserState)
    (scannerState savedScannerState : ScannerState) (delimiterMatchPos : Nat) (c : Byte)
    (data : List Byte) :
    (s.setScan parserState scannerState savedScannerState delimiterMatchPos c).writeEncryptedChars
        AES_encrypt data =
      (s.writeEncryptedChars AES_encrypt data).setScan parserState scannerState savedScannerState
        delimiterMatchPos c := by
  induction data generalizing s with
  | nil => rfl
  | cons ch data ih => exact ih (s.writeEncryptedChar AES_encrypt ch)

variable {s} {AES_encrypt} in
theorem Wrote.trans {data data' : List Byte} {t u : Session} (h : Wrote AES_encrypt s data t)
    (h' : Wrote AES_encrypt t data' u) : Wrote AES_encrypt s (data ++ data') u := by
  obtain ⟨p, sc, sv, pos, c, rfl, hp⟩ := h
  obtain ⟨p', sc', sv', pos', c', rfl, hp'⟩ := h'
  refine ⟨p', sc', sv', pos', c', ?_, ?_⟩
  · rw [writeEncryptedChars_setScan, writeEncryptedChars, writeEncryptedChars, writeEncryptedChars,
      List.foldl_append]
    rfl
  · obtain rfl | rfl := hp'
    · exact hp
    · exact .inr rfl

theorem matchCloseDashes_wrote : Wrote AES_encrypt s [] (s.matchCloseDashes ch).1 := by
  rw [matchCloseDashes]
  cases hstate : s.scannerState <;> first
    | exact ⟨_, _, _, _, _, rfl, .inl rfl⟩
    | (dsimp only [goTo]; split_ifs <;> first
        | exact ⟨_, _, _, _, _, rfl, .inl rfl⟩
        | exact ⟨_, _, _, _, _, rfl, .inr rfl⟩)

theorem writeEncryptedChar_wrote (x : Byte) :
    Wrote AES_encrypt s [x] (s.writeEncryptedChar AES_encrypt x) :=
  ⟨_, _, _, _, _, rfl, .inl rfl⟩

theorem matchBinaryEncodedData_wrote :
    ∃ data, Wrote AES_encrypt s data (s.matchBinaryEncodedData AES_encrypt ch).1 := by
  rw [matchBinaryEncodedData]
  split
  · have hflush : ∃ data, Wrote AES_encrypt s data (s.flushDelimiter AES_encrypt ch) := by
      rw [flushDelimiter]
      split
      · exact ⟨_, _, _, _, _, _, rfl, .inl (writeEncryptedChars_parserState AES_encrypt s _)⟩
      · exact ⟨[], _, _, _, _, _, rfl, .inl rfl⟩
    obtain ⟨data, hflush⟩ := hflush
    dsimp only
    split
    · exact ⟨_, hflush.trans (writeEncryptedChar_wrote AES_encrypt _ ch)⟩
    · split
      · exact ⟨data ++ [], hflush.trans ⟨_, _, _, _, _, rfl, .inl rfl⟩⟩
      · exact ⟨data ++ [], hflush.trans ⟨_, _, _, _, _, rfl, .inl rfl⟩⟩
  · exact ⟨[], matchCloseDashes_wrote AES_encrypt s ch⟩

theorem matchBase64EncodedData_wrote :
    ∃ data, Wrote AES_encrypt s data (s.matchBase64EncodedData AES_encrypt ch).1 := by
  rw [matchBase64EncodedData]
  cases hstate : s.scannerState <;> first
    | exact ⟨[], matchCloseDashes_wrote AES_encrypt s ch⟩
    | (dsimp only [goTo, wantsLineBreak, wantsDelimiter, completeByte, completeLastByte]
       split_ifs <;> first
        | exact ⟨[], _, _, _, _, _, rfl, .inl rfl⟩
        | exact ⟨[_], _, _, _, _, _, rfl, .inl rfl⟩)

theorem repairBase64EncodedData_wrote :
    ∃ data, Wrote AES_encrypt s data (s.repairBase64EncodedData AES_encrypt ch).1 := by
  obtain ⟨data, hbreak⟩ := matchBase64EncodedData_wrote AES_encrypt s CR
  obtain ⟨data', hmatch⟩ := matchBase64EncodedData_wrote AES_encrypt
    (s.matchBase64EncodedData AES_encrypt CR).1 ch
  rw [repairBase64EncodedData]
  split
  · dsimp only
    split
    · exact ⟨data, hbreak⟩
    · exact ⟨data ++ data', hbreak.trans hmatch⟩
  · exact matchBase64EncodedData_wrote AES_encrypt s ch

/-- What a character can do before the data, at the end of the headers and within the data. -/
inductive CharStep (s : Session) : Session → Prop
  | early (parserState : ParserState) (scannerState : ScannerState) (delimiter : List Byte)
      (mimeHeaderName : List Byte) (contentType : Option (List Byte))
      (contentTransferEncoding : ContentTransferEncoding) (h : s.Early)
      (hparser : parserState = .WantsOpenDelimiter ∨ parserState = .WantsMimeHeaders) :
      CharStep s
        { s with
          parserState := parserState
          scannerState := scannerState
          delimiter := delimiter
          mimeHeaderName := mimeHeaderName
          contentType := contentType
          contentTransferEncoding := contentTransferEncoding }
  | header (parserState : ParserState) (h : s.parserState = .WantsMimeHeaders)
      (hparser : parserState ∈ [ParserState.WantsBinaryEncodedData, .WantsBase64EncodedData])
      (hheader : s.applyDefaults.writeHeader.2 = .OK) :
      CharStep s
        { s.applyDefaults.writeHeader.1 with
          parserState := parserState
          scannerState := .WantsByte1 }
  | data (data : List Byte) (s' : Session) (h : ¬s.Early) (hwrote : Wrote AES_encrypt s data s') :
      CharStep s s'

theorem matchChar_step : CharStep AES_encrypt s (s.matchChar AES_encrypt ch).1 := by
  rw [matchChar]
  cases hstate : s.parserState with
  | WantsOpenDelimiter =>
    obtain ⟨parserState, scannerState, delimiter, heq, hparser⟩ := matchOpenDelimiter_cases s ch
    dsimp only
    rw [heq]
    rw [hstate] at hparser
    exact .early _ _ _ _ _ _ (.inl hstate) hparser
  | WantsMimeHeaders =>
    dsimp only
    obtain ⟨_, _, _, _, heq⟩ | heq := matchMimeHeaders_cases s ch
    · rw [heq]
      exact .early _ _ _ _ _ _ (.inr hstate) (.inr hstate)
    · rw [heq]
      obtain ⟨⟨_, _, _, _, heq⟩, _⟩ | ⟨parserState, hparser, hheader, heq⟩ :=
        matchMimeHeadersEnd_cases s
      · rw [heq]
        exact .early _ _ _ _ _ _ (.inr hstate) (.inr hstate)
      · rw [heq]
        exact .header parserState hstate hparser hheader
  | WantsBinaryEncodedData =>
    obtain ⟨data, hwrote⟩ := matchBinaryEncodedData_wrote AES_encrypt s ch
    exact .data data _ (by rintro (h | h) <;> rw [hstate] at h <;> cases h) hwrote
  | WantsBase64EncodedData =>
    obtain ⟨data, hwrote⟩ := repairBase64EncodedData_wrote AES_encrypt s ch
    exact .data data _ (by rintro (h | h) <;> rw [hstate] at h <;> cases h) hwrote
  | Done =>
    exact .data [] _ (by rintro (h | h) <;> rw [hstate] at h <;> cases h)
      ⟨_, _, _, _, _, rfl, .inl rfl⟩

/-! ### Ends -/

/-- The data ends with the last dash of the close delimiter and not otherwise. -/
def StaysOrEnds (res : Session × Status) : Prop :=
  res.1.parserState = s.parserState ∨ ch = DASH ∧ res.2 = .OK

theorem matchCloseDashes_ends : StaysOrEnds s ch (s.matchCloseDashes ch) := by
  rw [matchCloseDashes]
  cases s.scannerState <;> first
    | exact .inl rfl
    | (dsimp only [goTo]; split_ifs <;> first | exact .inl rfl | exact .inr ⟨‹_›, rfl⟩)

theorem matchBase64EncodedData_ends :
    StaysOrEnds s ch (s.matchBase64EncodedData AES_encrypt ch) := by
  rw [matchBase64EncodedData]
  cases hstate : s.scannerState <;> first
    | exact matchCloseDashes_ends s ch
    | (dsimp only [goTo, wantsLineBreak, wantsDelimiter, completeByte, completeLastByte]
       split_ifs <;> exact .inl rfl)

theorem repairBase64EncodedData_ends
    (h : (s.repairBase64EncodedData AES_encrypt ch).2 ≠ .OK) :
    (s.repairBase64EncodedData AES_encrypt ch).1.parserState = s.parserState := by
  have hends := matchBase64EncodedData_ends AES_encrypt
  have hbreak : (s.matchBase64EncodedData AES_encrypt CR).1.parserState = s.parserState := by
    obtain hstays | ⟨hdash, _⟩ := hends s CR
    · exact hstays
    · exact absurd hdash (by decide)
  rw [repairBase64EncodedData] at h ⊢
  dsimp only at h ⊢
  split at h
  · rename_i hrepair
    rw [if_pos hrepair]
    split at h
    · rename_i hfail
      rw [if_pos hfail]
      exact hbreak
    · rename_i hfail
      rw [if_neg hfail, ← hbreak]
      exact (hends _ ch).resolve_right fun hend => h hend.2
  · rename_i hrepair
    rw [if_neg hrepair]
    exact (hends s ch).resolve_right fun hend => h hend.2

theorem matchBinaryEncodedData_ends
    (h : (s.matchBinaryEncodedData AES_encrypt ch).2 ≠ .OK) :
    (s.matchBinaryEncodedData AES_encrypt ch).1.parserState = s.parserState := by
  rw [matchBinaryEncodedData] at h ⊢
  split at h
  · dsimp only [goTo] at h
    split_ifs at h <;> exact absurd rfl h
  · exact (matchCloseDashes_ends s ch).resolve_right fun hend => h hend.2

variable {s ch} in
theorem matchChar_fails (h : (s.matchChar AES_encrypt ch).2 ≠ .OK) :
    (s.matchChar AES_encrypt ch).1.parserState ≠ .Done := by
  rw [matchChar] at h ⊢
  cases hstate : s.parserState with
  | WantsOpenDelimiter =>
    obtain ⟨parserState, _, _, heq, hparser⟩ := matchOpenDelimiter_cases s ch
    dsimp only
    rw [heq]
    dsimp only
    rw [hstate] at hparser
    obtain rfl | rfl := hparser <;> decide
  | WantsMimeHeaders =>
    have hscanned (s' : Session) (hs : HeadersScanned s s') : s'.parserState ≠ .Done := by
      obtain ⟨_, _, _, _, rfl⟩ := hs
      show s.parserState ≠ _
      rw [hstate]
      decide
    rw [hstate] at h
    dsimp only at h ⊢
    obtain hs | heq := matchMimeHeaders_cases s ch
    · exact hscanned _ hs
    · rw [heq] at h ⊢
      obtain ⟨hs, _⟩ | ⟨_, _, _, heq⟩ := matchMimeHeadersEnd_cases s
      · exact hscanned _ hs
      · rw [heq] at h
        exact absurd rfl h
  | WantsBinaryEncodedData =>
    rw [hstate] at h
    dsimp only at h ⊢
    rw [matchBinaryEncodedData_ends AES_encrypt s ch h, hstate]
    decide
  | WantsBase64EncodedData =>
    rw [hstate] at h
    dsimp only at h ⊢
    rw [repairBase64EncodedData_ends AES_encrypt s ch h, hstate]
    decide
  | Done =>
    rw [hstate] at h
    exact absurd rfl h

end Session

end MediaFramework.ForwardLock
