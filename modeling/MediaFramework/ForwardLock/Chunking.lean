import MediaFramework.ForwardLock.Calls

/-!
# A message in pieces

It makes no difference in which pieces a message comes to `ConvertData`.
-/

namespace MediaFramework.ForwardLock

namespace Session

variable (AES_encrypt : List Byte → List Byte → List Byte)

/-- A call of `ConvertData` for each piece, until one does not end well, with the bytes that the
calls put out. -/
def convertCalls (s : Session) : List (List Byte) → Session × Status × List Byte
  | [] => (s, .OK, [])
  | data :: calls =>
    let (s, status) := s.convertData AES_encrypt data
    if status ≠ .OK then (s, status, s.pBuffer)
    else
      let (s', status, output) := s.convertCalls calls
      (s', status, s.pBuffer ++ output)

/-! ### Within a call -/

variable {AES_encrypt} {s t : Session} {ch : Byte} {data data' : List Byte}

/-- There is no output before the data, and then there are the header and the data bytes. -/
structure InCall (s : Session) : Prop where
  early : s.Early → s.pBuffer = [] ∧ s.dataOffset = 0 ∧ s.numDataBytes = 0
  length : s.pBuffer.length = s.dataOffset + s.numDataBytes

theorem Wrote.parserState (h : Wrote AES_encrypt s data t) :
    t.parserState = s.parserState ∨ t.parserState = .Done := by
  obtain ⟨parserState, scannerState, savedScannerState, delimiterMatchPos, c, rfl, hparser⟩ := h
  exact hparser

theorem Wrote.output (h : Wrote AES_encrypt s data t) :
    t.pBuffer.length = s.pBuffer.length + data.length ∧ t.dataOffset = s.dataOffset ∧
      t.numDataBytes = s.numDataBytes + data.length ∧ t.signingInput = s.signingInput := by
  obtain ⟨parserState, scannerState, savedScannerState, delimiterMatchPos, c, rfl, hparser⟩ := h
  obtain ⟨counter, keyStream, keyStreamIndex, output, hlen, heq⟩ :=
    writeEncryptedChars_cases AES_encrypt s data
  rw [heq]
  refine ⟨?_, rfl, rfl, rfl⟩
  show (s.pBuffer ++ output).length = _
  rw [List.length_append, hlen]

theorem early_of_body {parserState : ParserState}
    (h : parserState ∈ [ParserState.WantsBinaryEncodedData, .WantsBase64EncodedData]) :
    ¬(parserState = .WantsOpenDelimiter ∨ parserState = .WantsMimeHeaders) := by
  rw [List.mem_cons, List.mem_singleton] at h
  obtain rfl | rfl := h <;> simp

theorem Wrote.header (h : Wrote AES_encrypt s data t) :
    t.contentType = s.contentType ∧ t.encryptedSessionKey = s.encryptedSessionKey := by
  obtain ⟨parserState, scannerState, savedScannerState, delimiterMatchPos, c, rfl, hparser⟩ := h
  obtain ⟨counter, keyStream, keyStreamIndex, output, hlen, heq⟩ :=
    writeEncryptedChars_cases AES_encrypt s data
  rw [heq]
  exact ⟨rfl, rfl⟩

/-- The data does not go back to the headers. -/
theorem CharStep.not_early (h : CharStep AES_encrypt s t) (hs : ¬s.Early) : ¬t.Early := by
  cases h with
  | early _ _ _ _ _ _ hearly _ => exact absurd hearly hs
  | header _ hearly _ _ => exact absurd (.inr hearly) hs
  | data data _ _ hwrote =>
    rintro ht
    obtain hparser | hparser := hwrote.parserState
    · rw [Early, hparser] at ht
      exact hs ht
    · rw [Early, hparser] at ht
      obtain ht | ht := ht <;> cases ht

theorem writeHeader_output (h : s.writeHeader.2 = .OK) :
    s.writeHeader.1.pBuffer.length = s.writeHeader.1.dataOffset ∧
      s.writeHeader.1.dataOffset =
        TOP_HEADER_SIZE + (s.contentType.getD []).length + s.encryptedSessionKey.length +
          SHA1_HASH_SIZE + SHA1_HASH_SIZE ∧
      s.writeHeader.1.numDataBytes = s.numDataBytes ∧
      s.writeHeader.1.signingInput = s.signingInput := by
  rw [writeHeader] at h ⊢
  dsimp only at h ⊢
  split at h
  · cases h
  · next hshort =>
    rw [if_neg hshort]
    refine ⟨?_, rfl, rfl, rfl⟩
    simp only [List.length_append, List.length_replicate, List.length_singleton]
    have htop : topHeaderTemplate.length = 7 := rfl
    rw [htop]
    simp only [TOP_HEADER_SIZE, SHA1_HASH_SIZE]

theorem CharStep.inCall (h : CharStep AES_encrypt s t) (hs : s.InCall) : t.InCall := by
  have hlater := h.not_early
  cases h with
  | early _ _ _ _ _ _ hearly _ => exact ⟨fun _ => hs.early hearly, hs.length⟩
  | header _ hearly hparser hheader =>
    obtain ⟨hlength, _, hcount, _⟩ := writeHeader_output hheader
    refine ⟨fun ht => absurd ht (early_of_body hparser), ?_⟩
    obtain ⟨_, _, hzero⟩ := hs.early (.inr hearly)
    have hzero : s.applyDefaults.numDataBytes = 0 := hzero
    show s.applyDefaults.writeHeader.1.pBuffer.length =
      s.applyDefaults.writeHeader.1.dataOffset + s.applyDefaults.writeHeader.1.numDataBytes
    rw [hlength, hcount, hzero, Nat.add_zero]
  | data data _ hearly hwrote =>
    obtain ⟨hlength, hoffset, hcount, _⟩ := hwrote.output
    refine ⟨fun ht => absurd ht (hlater hearly), ?_⟩
    rw [hlength, hoffset, hcount, hs.length, Nat.add_assoc]

theorem CharStep.dataOffset (h : CharStep AES_encrypt s t) (hs : ¬s.Early) :
    t.dataOffset = s.dataOffset := by
  cases h with
  | early _ _ _ _ _ _ hearly _ => exact absurd hearly hs
  | header _ hearly _ _ => exact absurd (.inr hearly) hs
  | data data _ _ hwrote => exact hwrote.output.2.1

/-- The signature is made after the call. -/
theorem CharStep.signingInput (h : CharStep AES_encrypt s t) :
    t.signingInput = s.signingInput := by
  cases h with
  | early _ _ _ _ _ _ _ _ => rfl
  | header _ _ _ hheader => exact (writeHeader_output hheader).2.2.2
  | data data _ _ hwrote => exact hwrote.output.2.2.2

/-! ### A whole call -/

theorem pushChars_cons (ch : Byte) (data : List Byte) :
    s.pushChars AES_encrypt (ch :: data) =
      if (s.pushChar AES_encrypt ch).2 ≠ .OK then s.pushChar AES_encrypt ch
      else (s.pushChar AES_encrypt ch).1.pushChars AES_encrypt data := by
  rw [pushChars]

theorem pushChars_append (s : Session) (data data' : List Byte) :
    s.pushChars AES_encrypt (data ++ data') =
      if (s.pushChars AES_encrypt data).2 ≠ .OK then s.pushChars AES_encrypt data
      else (s.pushChars AES_encrypt data).1.pushChars AES_encrypt data' := by
  induction data generalizing s with
  | nil => rfl
  | cons ch data ih =>
    rw [List.cons_append, pushChars_cons, pushChars_cons]
    by_cases hfail : (s.pushChar AES_encrypt ch).2 ≠ .OK
    · rw [if_pos hfail, if_pos hfail, if_pos hfail]
    · rw [if_neg hfail, if_neg hfail, ih]

/-- What every character keeps a call keeps. -/
theorem pushChars_induction {P : Session → Prop}
    (hstep : ∀ s t, CharStep AES_encrypt s.counted t → P s → P t) (hs : P s)
    (data : List Byte) : P (s.pushChars AES_encrypt data).1 := by
  induction data generalizing s with
  | nil => exact hs
  | cons ch data ih =>
    have hnext := hstep s _ (matchChar_step AES_encrypt s.counted ch) hs
    rw [pushChars_cons]
    split
    · exact hnext
    · exact ih hnext

theorem pushChars_inCall (hs : s.InCall) (data : List Byte) :
    (s.pushChars AES_encrypt data).1.InCall :=
  pushChars_induction (fun _ _ hstep h => hstep.inCall ⟨h.early, h.length⟩) hs data

theorem pushChars_dataOffset (hs : ¬s.Early) (data : List Byte) :
    (s.pushChars AES_encrypt data).1.dataOffset = s.dataOffset :=
  (pushChars_induction (P := fun t => ¬t.Early ∧ t.dataOffset = s.dataOffset)
    (fun _ _ hstep h => ⟨hstep.not_early h.1, (hstep.dataOffset h.1).trans h.2⟩) ⟨hs, rfl⟩ data).2

theorem pushChars_signingInput (s : Session) (data : List Byte) :
    (s.pushChars AES_encrypt data).1.signingInput = s.signingInput :=
  pushChars_induction (P := fun t => t.signingInput = s.signingInput)
    (fun _ _ hstep h => hstep.signingInput.trans h) rfl data

theorem pushChars_addOutput (o : Output) (h : s.Early → o.pBuffer = [] ∧ o.dataOffset = 0)
    (data : List Byte) :
    (s.addOutput o).pushChars AES_encrypt data = addOutputTo o (s.pushChars AES_encrypt data) := by
  induction data generalizing s with
  | nil => rfl
  | cons ch data ih =>
    rw [pushChars_cons, pushChars_cons, pushChar_addOutput AES_encrypt s o ch h, addOutputTo_ite]
    have hnext : ¬s.Early → ¬(s.pushChar AES_encrypt ch).1.Early :=
      (matchChar_step AES_encrypt s.counted ch).not_early
    rw [addOutputTo, ih fun hearly => h (not_not.mp fun hs => hnext hs hearly)]

theorem pushChars_fails (h : (s.pushChars AES_encrypt data).2 ≠ .OK) :
    (s.pushChars AES_encrypt data).1.parserState ≠ .Done := by
  induction data generalizing s with
  | nil => exact absurd rfl h
  | cons ch data ih =>
    rw [pushChars_cons] at h ⊢
    split
    · next hfail => exact matchChar_fails AES_encrypt hfail
    · next hok =>
      rw [if_neg hok] at h
      exact ih h

/-- The session as it is between two calls. -/
def betweenCalls (s : Session) : Session :=
  { s with dataOffset := 0, numDataBytes := 0, pBuffer := [], signingInput := [], errorPos := none }

theorem inCall_betweenCalls (s : Session) : s.betweenCalls.InCall := ⟨fun _ => ⟨rfl, rfl, rfl⟩, rfl⟩

/-- The output of a session. -/
def output (s : Session) : Output :=
  ⟨s.pBuffer, s.dataOffset, s.numDataBytes, s.signingInput, s.errorPos⟩

theorem betweenCalls_addOutput (s : Session) : s.betweenCalls.addOutput s.output = s := by
  simp only [betweenCalls, output, addOutput, List.append_nil, Nat.add_zero]

/-- A call starts without output. -/
theorem convertData_eq (s : Session) (data : List Byte) :
    s.convertData AES_encrypt data =
      let res := s.betweenCalls.pushChars AES_encrypt data
      let t := res.1.addOutput ⟨[], 0, 0, s.signingInput, s.errorPos⟩
      if res.2 = .OK then
        ({ t with
          signingInput := t.signingInput ++ (t.pBuffer.drop t.dataOffset).take t.numDataBytes },
          res.2)
      else if res.2 = .SyntaxError then ({ t with errorPos := some t.numCharsConsumed }, res.2)
      else (t, res.2) := by
  have hstart : ({ s with dataOffset := 0, numDataBytes := 0, pBuffer := [] } : Session) =
      s.betweenCalls.addOutput ⟨[], 0, 0, s.signingInput, s.errorPos⟩ := by
    simp only [betweenCalls, addOutput, List.append_nil, Nat.add_zero]
  rw [convertData, hstart, pushChars_addOutput _ fun _ => ⟨rfl, rfl⟩]
  rfl

/-- What the calls leave behind (`res`), by what a session without output does with the same data
(`run`). -/
structure Converted (s : Session) (run : Session × Status)
    (res : Session × Status × List Byte) : Prop where
  status : res.2.1 = run.2
  output : res.2.2 = run.1.pBuffer
  session : res.1.betweenCalls = run.1.betweenCalls
  errorPos : res.1.errorPos =
    if run.2 = .SyntaxError then some run.1.numCharsConsumed else s.errorPos
  signingInput : run.2 = .OK →
    res.1.signingInput = s.signingInput ++ run.1.pBuffer.drop run.1.dataOffset

variable (AES_encrypt) in
theorem convertData_spec (s : Session) (data : List Byte) :
    Converted s (s.betweenCalls.pushChars AES_encrypt data)
      ((s.convertData AES_encrypt data).1, (s.convertData AES_encrypt data).2,
        (s.convertData AES_encrypt data).1.pBuffer) := by
  have hinCall : (s.betweenCalls.pushChars AES_encrypt data).1.InCall :=
    pushChars_inCall (inCall_betweenCalls s) data
  have hsigning : (s.betweenCalls.pushChars AES_encrypt data).1.signingInput = [] :=
    pushChars_signingInput s.betweenCalls data
  rw [convertData_eq]
  generalize s.betweenCalls.pushChars AES_encrypt data = run at hinCall hsigning ⊢
  obtain ⟨t, status⟩ := run
  dsimp only at hinCall hsigning ⊢
  split
  · next hstatus =>
    refine ⟨rfl, rfl, rfl, (if_neg ?_).symm, fun _ => ?_⟩
    · show status ≠ _
      rw [hstatus]
      decide
    · have hlength : (t.pBuffer.drop t.dataOffset).length = t.numDataBytes := by
        rw [List.length_drop, hinCall.length, Nat.add_sub_cancel_left]
      simp only [addOutput, hsigning, List.append_nil, List.nil_append, Nat.zero_add]
      rw [← hlength, List.take_length]
  · next hfail =>
    split
    · next hsyntax => exact ⟨rfl, rfl, rfl, (if_pos hsyntax).symm, fun h => absurd h hfail⟩
    · next hsyntax => exact ⟨rfl, rfl, rfl, (if_neg hsyntax).symm, fun h => absurd h hfail⟩

variable (AES_encrypt) in
/-- The bytes after the header, in two parts of a call. -/
theorem drop_dataOffset (ht : t.InCall) (data : List Byte) :
    (t.pBuffer ++ (t.betweenCalls.pushChars AES_encrypt data).1.pBuffer).drop
        (t.dataOffset + (t.betweenCalls.pushChars AES_encrypt data).1.dataOffset) =
      t.pBuffer.drop t.dataOffset ++ (t.betweenCalls.pushChars AES_encrypt data).1.pBuffer.drop
        (t.betweenCalls.pushChars AES_encrypt data).1.dataOffset := by
  by_cases hearly : t.Early
  · -- the header is still to come
    obtain ⟨hbuffer, hoffset, _⟩ := ht.early hearly
    rw [hbuffer, hoffset, Nat.zero_add]
    rfl
  · have hzero : (t.betweenCalls.pushChars AES_encrypt data).1.dataOffset = 0 :=
      pushChars_dataOffset (s := t.betweenCalls) hearly data
    rw [hzero, Nat.add_zero, List.drop_zero,
      List.drop_append_of_le_length (ht.length ▸ Nat.le_add_right _ _)]

variable (AES_encrypt) in
theorem convertCalls_spec (s : Session) (calls : List (List Byte)) :
    Converted s (s.betweenCalls.pushChars AES_encrypt calls.flatten)
      (s.convertCalls AES_encrypt calls) := by
  induction calls generalizing s with
  | nil => exact ⟨rfl, rfl, rfl, rfl, fun _ => (List.append_nil _).symm⟩
  | cons data calls ih =>
    have hdata := convertData_spec AES_encrypt s data
    have hinCall : (s.betweenCalls.pushChars AES_encrypt data).1.InCall :=
      pushChars_inCall (inCall_betweenCalls s) data
    have hcalls := ih (s.convertData AES_encrypt data).1
    rw [List.flatten_cons, pushChars_append, convertCalls]
    generalize s.convertData AES_encrypt data = res at hdata hcalls ⊢
    generalize s.betweenCalls.pushChars AES_encrypt data = run at hdata hinCall ⊢
    obtain ⟨s₁, status⟩ := res
    obtain ⟨t, status'⟩ := run
    obtain ⟨hstatus, hbuffer, hsession, herror, hsigning⟩ := hdata
    dsimp only at hstatus hbuffer hsession herror hsigning hcalls hinCall ⊢
    subst hstatus
    by_cases hfail : status ≠ .OK
    · rw [if_pos hfail, if_pos hfail]
      exact ⟨rfl, hbuffer, hsession, herror, fun h => absurd h hfail⟩
    · rw [if_neg hfail, if_neg hfail]
      have hok : status = .OK := not_not.mp hfail
      have hrun : t.pushChars AES_encrypt calls.flatten =
          addOutputTo t.output (t.betweenCalls.pushChars AES_encrypt calls.flatten) := by
        rw [← pushChars_addOutput t.output, betweenCalls_addOutput]
        exact fun hearly => ⟨(hinCall.early hearly).1, (hinCall.early hearly).2.1⟩
      have hdrop := drop_dataOffset AES_encrypt hinCall calls.flatten
      rw [hsession] at hcalls
      rw [hrun]
      generalize t.betweenCalls.pushChars AES_encrypt calls.flatten = run at hcalls hdrop ⊢
      constructor
      · exact hcalls.status
      · show s₁.pBuffer ++ _ = t.pBuffer ++ _
        rw [hbuffer, hcalls.output]
      · exact hcalls.session
      · rw [if_neg (by rw [hok]; decide)] at herror
        rw [← herror]
        exact hcalls.errorPos
      · intro hrunOK
        have hsigned := hcalls.signingInput hrunOK
        rw [hsigning hok, List.append_assoc, ← hdrop] at hsigned
        exact hsigned

/-! ### Closing -/

/-- The length of the header. -/
def headerLength (s : Session) : Nat :=
  TOP_HEADER_SIZE + (s.contentType.getD []).length + s.encryptedSessionKey.length +
    SHA1_HASH_SIZE + SHA1_HASH_SIZE

theorem eq_addOutput (h : s.betweenCalls = t.betweenCalls) :
    s = t.betweenCalls.addOutput s.output := by
  rw [← h, betweenCalls_addOutput]

theorem eq_of_betweenCalls (h : s.betweenCalls = t.betweenCalls) :
    s.parserState = t.parserState ∧ s.headerLength = t.headerLength := by
  rw [eq_addOutput h]
  exact ⟨rfl, rfl⟩

variable {HMAC : List Byte → List Byte → List Byte} in
/-- `CloseSession` reads nothing of the last call. -/
theorem closeSession_congr (h : s.betweenCalls = t.betweenCalls)
    (hsigning : s.parserState = .Done → s.signingInput = t.signingInput) :
    s.closeSession HMAC = t.closeSession HMAC := by
  rw [eq_addOutput h] at hsigning ⊢
  generalize s.output = o at hsigning ⊢
  rw [closeSession, closeSession]
  by_cases hdone : t.parserState = .Done
  · have hsame : (t.betweenCalls.addOutput o).signingInput = t.signingInput := hsigning hdone
    rw [hsame]
    rfl
  · rw [if_pos hdone]
    exact if_pos hdone

theorem CharStep.headerLength (h : CharStep AES_encrypt s t)
    (hs : ¬s.Early → s.dataOffset = s.headerLength) (ht : ¬t.Early) :
    t.dataOffset = t.headerLength := by
  cases h with
  | early _ _ _ _ _ _ _ hparser => exact absurd hparser ht
  | header _ _ _ hheader =>
    obtain ⟨_, hoffset, _, _⟩ := writeHeader_output hheader
    have hkept : s.applyDefaults.writeHeader.1.contentType = s.applyDefaults.contentType ∧
        s.applyDefaults.writeHeader.1.encryptedSessionKey = s.encryptedSessionKey := by
      rw [writeHeader]
      dsimp only
      split <;> exact ⟨rfl, rfl⟩
    rw [Session.headerLength]
    show s.applyDefaults.writeHeader.1.dataOffset =
      TOP_HEADER_SIZE + (s.applyDefaults.writeHeader.1.contentType.getD []).length +
        s.applyDefaults.writeHeader.1.encryptedSessionKey.length + SHA1_HASH_SIZE + SHA1_HASH_SIZE
    rw [hoffset, hkept.1, hkept.2]
    rfl
  | data data _ hearly hwrote =>
    obtain ⟨_, hoffset, _, _⟩ := hwrote.output
    obtain ⟨hcontent, hkey⟩ := hwrote.header
    rw [hoffset, hs hearly, Session.headerLength, Session.headerLength, hcontent, hkey]

theorem pushChars_headerLength (hs : s.Early) (data : List Byte)
    (ht : ¬(s.pushChars AES_encrypt data).1.Early) :
    (s.pushChars AES_encrypt data).1.dataOffset =
      (s.pushChars AES_encrypt data).1.headerLength :=
  pushChars_induction (P := fun t => ¬t.Early → t.dataOffset = t.headerLength)
    (fun _ _ hstep h => hstep.headerLength h) (fun h => absurd hs h) data ht

theorem openSession_fresh {AES_cbc_encrypt : List Byte → List Byte → List Byte}
    {sessionKey initVector : Option (List Byte)}
    (h : openSession AES_encrypt AES_cbc_encrypt sessionKey initVector = .ok s) :
    s.Early ∧ s.signingInput = [] := by
  unfold openSession at h
  split at h
  · cases h
  · split at h
    · cases h
    · cases h
    · cases h
      exact ⟨.inl rfl, rfl⟩

variable {HMAC : List Byte → List Byte → List Byte} in
theorem closeSession_ok (h : (s.closeSession HMAC).status = .OK) :
    s.parserState = .Done ∧
      s.headerLength = (s.closeSession HMAC).fileOffset + SHA1_HASH_SIZE + SHA1_HASH_SIZE := by
  rw [closeSession] at h ⊢
  split at h
  · cases h
  · next hdone =>
    dsimp only at h ⊢
    split at h
    · cases h
    · next hlength =>
      split at h
      · cases h
      · next hlength' =>
        rw [if_neg hdone, if_neg hlength, if_neg hlength']
        exact ⟨not_not.mp hdone, rfl⟩

/-- The output, the first error and its position and the result of `CloseSession` do not depend on
the pieces. What has been signed does not if there is no error; when the session closes well, it is
the output without the header. -/
theorem convertCalls_flatten (AES_encrypt AES_cbc_encrypt HMAC : List Byte → List Byte → List Byte)
    (sessionKey initVector : Option (List Byte))
    (hopen : openSession AES_encrypt AES_cbc_encrypt sessionKey initVector = .ok s)
    (calls : List (List Byte)) :
    let (s', status, output) := s.convertCalls AES_encrypt calls
    let (s₁, status₁) := s.convertData AES_encrypt calls.flatten
    output = s₁.pBuffer ∧ status = status₁ ∧ s'.errorPos = s₁.errorPos ∧
      s'.closeSession HMAC = s₁.closeSession HMAC ∧
      (status = .OK → s'.signingInput = s₁.signingInput) ∧
      ((s'.closeSession HMAC).status = .OK → s'.signingInput =
        output.drop ((s'.closeSession HMAC).fileOffset + SHA1_HASH_SIZE + SHA1_HASH_SIZE)) := by
  have hcalls := convertCalls_spec AES_encrypt s calls
  have hdata := convertData_spec AES_encrypt s calls.flatten
  obtain ⟨hearly, hunsigned⟩ := openSession_fresh hopen
  have hfails : (s.betweenCalls.pushChars AES_encrypt calls.flatten).2 ≠ .OK → _ :=
    pushChars_fails
  have hheader : ¬(s.betweenCalls.pushChars AES_encrypt calls.flatten).1.Early → _ :=
    pushChars_headerLength (s := s.betweenCalls) hearly calls.flatten
  generalize s.betweenCalls.pushChars AES_encrypt calls.flatten = run at *
  generalize s.convertCalls AES_encrypt calls = res at *
  generalize s.convertData AES_encrypt calls.flatten = res₁ at *
  obtain ⟨s', status, output⟩ := res
  obtain ⟨s₁, status₁⟩ := res₁
  obtain ⟨hstatus, houtput, hsession, herror, hsigning⟩ := hcalls
  obtain ⟨hstatus₁, houtput₁, hsession₁, herror₁, hsigning₁⟩ := hdata
  dsimp only at *
  obtain ⟨hparser, hsame⟩ := eq_of_betweenCalls hsession
  have hdone : s'.parserState = .Done → run.2 = .OK := by
    intro hdone
    by_contra hfail
    exact hfails hfail (hparser.symm.trans hdone)
  refine ⟨houtput.trans houtput₁.symm, hstatus.trans hstatus₁.symm, herror.trans herror₁.symm,
    ?_, ?_, ?_⟩
  · apply closeSession_congr (hsession.trans hsession₁.symm)
    intro hend
    rw [hsigning (hdone hend), hsigning₁ (hdone hend)]
  · intro hok
    rw [hsigning (hstatus ▸ hok), hsigning₁ (hstatus ▸ hok)]
  · intro hclosed
    obtain ⟨hend, hlength⟩ := closeSession_ok hclosed
    have hbody : ¬run.1.Early := by
      rw [Early, ← hparser, hend]
      decide
    rw [hsigning (hdone hend), hunsigned, List.nil_append, hheader hbody, ← hsame, hlength, houtput]

/-- A message with two data bytes, which the delimiter follows in a second piece. -/
theorem convertCalls_flatten_twoPieces :
    ∃ s, openSession (fun _ block => block) (fun _ data => data) (some (List.replicate 16 7))
        (some (List.replicate 16 9)) = .ok s ∧
      ((s.convertCalls (fun _ block => block)
        [[DASH, DASH, chr 'a', CR, LF, CR, LF, chr 'X'], [chr 'Y', CR, LF, DASH, DASH, chr 'a', DASH,
          DASH]]).1.closeSession fun _ _ => List.replicate 20 0).status = .OK ∧
      (s.convertCalls (fun _ block => block)
        [[DASH, DASH, chr 'a', CR, LF, CR, LF, chr 'X'], [chr 'Y', CR, LF, DASH, DASH, chr 'a', DASH,
          DASH]]).1.signingInput = [chr 'X' ^^^ 7, chr 'Y' ^^^ 7] := by
  refine ⟨_, rfl, by decide +kernel, ?_⟩
  have h := convertCalls_flatten (fun _ block => block) (fun _ data => data)
    (fun _ _ => List.replicate 20 0) (some (List.replicate 16 7)) (some (List.replicate 16 9)) rfl
    [[DASH, DASH, chr 'a', CR, LF, CR, LF, chr 'X'], [chr 'Y', CR, LF, DASH, DASH, chr 'a', DASH,
      DASH]]
  exact (h.2.2.2.2.2 (by decide +kernel)).trans (by decide +kernel)

/-- The bytes of a call that fails are not signed, so a message in one call has none signed, and the
same message in two calls has the bytes of the first one signed. -/
theorem failing_message_signed_in_pieces :
    ∃ s, openSession (fun _ block => block) (fun _ data => data) (some (List.replicate 16 7))
        (some (List.replicate 16 9)) = .ok s ∧
      (s.convertCalls (fun _ block => block)
        [[DASH, DASH, chr 'a', CR, LF, CR, LF, chr 'X'], [CR, LF, DASH, DASH, chr 'a', chr 'Z']]
        ).1.signingInput ≠
      (s.convertData (fun _ block => block)
        [DASH, DASH, chr 'a', CR, LF, CR, LF, chr 'X', CR, LF, DASH, DASH, chr 'a', chr 'Z']
        ).1.signingInput :=
  ⟨_, rfl, by decide +kernel⟩

end Session

end MediaFramework.ForwardLock
