import MediaFramework.ForwardLock.Chunking
import MediaFramework.ForwardLock.KeyStream
import MediaFramework.Lib.Delimiter

/-!
# Forward-lock conversion

What `FwdLockConv_ConvertOpenFile` makes of a message. The front of the message ends with a header
in the output, the body is let through up to the close delimiter, and the data bytes are combined
with one key stream, so that the file has the internal format.
-/

namespace MediaFramework.ForwardLock

open LittleEndian (increment)

variable (AES_encrypt : List Byte → List Byte → List Byte)

/-! ### The key stream -/

/-- Byte `n` of the key stream. -/
def keyByte (key nonce : List Byte) (n : Nat) : Byte :=
  (AES_encrypt key (increment^[n / AES_BLOCK_SIZE] nonce)).getD (n % AES_BLOCK_SIZE) 0

namespace Session

/-- As many data bytes have been encrypted. -/
def Encrypted (nonce : List Byte) (s : Session) : Nat → Prop
  | 0 => s.keyStreamIndex = -1 ∧ s.counter = nonce
  | n + 1 => s.keyStreamIndex = (n % AES_BLOCK_SIZE : Nat) ∧
      s.counter = increment^[n / AES_BLOCK_SIZE] nonce ∧
      s.keyStream = AES_encrypt s.encryptionKey s.counter

variable {AES_encrypt} {nonce : List Byte} {s t u : Session} {n : Nat} {ch : Byte} {data : List Byte}

theorem Encrypted.next (h : Encrypted AES_encrypt nonce s n) :
    nextKeyStream AES_encrypt s.encryptionKey s.counter s.keyStream s.keyStreamIndex =
      (increment^[n / AES_BLOCK_SIZE] nonce,
        AES_encrypt s.encryptionKey (increment^[n / AES_BLOCK_SIZE] nonce),
        ((n % AES_BLOCK_SIZE : Nat) : Int)) := by
  cases n with
  | zero =>
    obtain ⟨hindex, hcounter⟩ := h
    rw [nextKeyStream, hindex, hcounter]
    rfl
  | succ n =>
    obtain ⟨hindex, hcounter, hkeyStream⟩ := h
    have hlt : n % AES_BLOCK_SIZE < AES_BLOCK_SIZE := Nat.mod_lt _ (by decide)
    rw [nextKeyStream, hindex]
    by_cases hlast : n % AES_BLOCK_SIZE + 1 = AES_BLOCK_SIZE
    · have hdiv : (n + 1) / AES_BLOCK_SIZE = n / AES_BLOCK_SIZE + 1 := by
        rw [AES_BLOCK_SIZE] at hlast ⊢
        omega
      have hmod : (n + 1) % AES_BLOCK_SIZE = 0 := by
        rw [AES_BLOCK_SIZE] at hlast ⊢
        omega
      rw [if_pos (by exact_mod_cast hlast), incrementCounter_eq, hcounter, hdiv, hmod,
        Function.iterate_succ_apply']
      rfl
    · have hdiv : (n + 1) / AES_BLOCK_SIZE = n / AES_BLOCK_SIZE := by
        rw [AES_BLOCK_SIZE] at hlast ⊢
        omega
      have hmod : (n + 1) % AES_BLOCK_SIZE = n % AES_BLOCK_SIZE + 1 := by
        rw [AES_BLOCK_SIZE] at hlast ⊢
        omega
      rw [if_neg (by exact_mod_cast hlast), if_neg (by omega), hkeyStream, hcounter, hdiv, hmod]
      rfl

variable (AES_encrypt) in
theorem Encrypted.writeEncryptedChar (h : Encrypted AES_encrypt nonce s n) (ch : Byte) :
    Encrypted AES_encrypt nonce (s.writeEncryptedChar AES_encrypt ch) (n + 1) ∧
      (s.writeEncryptedChar AES_encrypt ch).pBuffer =
        s.pBuffer ++ [ch ^^^ keyByte AES_encrypt s.encryptionKey nonce n] := by
  rw [Session.writeEncryptedChar, h.next]
  exact ⟨⟨rfl, rfl, rfl⟩, rfl⟩

/-- The data are combined with the key stream from where it has come to. -/
theorem Encrypted.writeEncryptedChars (h : Encrypted AES_encrypt nonce s n) (data : List Byte) :
    Encrypted AES_encrypt nonce (s.writeEncryptedChars AES_encrypt data) (n + data.length) ∧
      (s.writeEncryptedChars AES_encrypt data).pBuffer = s.pBuffer ++
        KeyStream.crypt (keyByte AES_encrypt s.encryptionKey nonce) n data := by
  induction data generalizing s n with
  | nil => exact ⟨h, (List.append_nil _).symm⟩
  | cons ch data ih =>
    obtain ⟨hnext, hbuffer⟩ := h.writeEncryptedChar AES_encrypt ch
    obtain ⟨hall, hrest⟩ := ih hnext
    rw [List.length_cons, Nat.add_comm data.length, ← Nat.add_assoc]
    refine ⟨hall, hrest.trans ?_⟩
    rw [hbuffer, KeyStream.crypt, List.append_assoc]
    rfl

/-! ### The body -/

/-- The session that `s`, at the start of a binary body, has become when it has scanned some of the
body. -/
def scanning (AES_encrypt : List Byte → List Byte → List Byte) (s : Session) (consumed : Nat)
    (scan : Delimiter.Scan Byte) : Session :=
  { s.writeEncryptedChars AES_encrypt scan.out with
    delimiterMatchPos := scan.matched
    numCharsConsumed := consumed }

/-- A line break and two dashes stand in front of the boundary. -/
def Delimits (delimiter : List Byte) : Prop :=
  ∃ boundary, delimiter = CR :: LF :: DASH :: DASH :: boundary ∧ ∀ ch ∈ boundary, isBoundaryChar ch

/-- At the start of a binary body. -/
structure AtBody (s : Session) : Prop where
  parserState : s.parserState = .WantsBinaryEncodedData
  scannerState : s.scannerState = .WantsByte1
  delimiterMatchPos : s.delimiterMatchPos = 0
  delimiter : Delimits s.delimiter

theorem writeEncryptedChars_append (data data' : List Byte) :
    (s.writeEncryptedChars AES_encrypt data).writeEncryptedChars AES_encrypt data' =
      s.writeEncryptedChars AES_encrypt (data ++ data') := by
  rw [writeEncryptedChars, writeEncryptedChars, writeEncryptedChars, List.foldl_append]

theorem writeEncryptedChars_place (pos consumed : Nat) (data : List Byte) :
    ({ s with delimiterMatchPos := pos, numCharsConsumed := consumed } : Session).writeEncryptedChars
        AES_encrypt data =
      { s.writeEncryptedChars AES_encrypt data with
        delimiterMatchPos := pos
        numCharsConsumed := consumed } := by
  induction data generalizing s with
  | nil => rfl
  | cons ch data ih => exact ih (s := s.writeEncryptedChar AES_encrypt ch)

variable (AES_encrypt) in
/-- What no data byte changes. -/
theorem writeEncryptedChars_keeps (s : Session) (data : List Byte) :
    (s.writeEncryptedChars AES_encrypt data).parserState = s.parserState ∧
      (s.writeEncryptedChars AES_encrypt data).scannerState = s.scannerState ∧
      (s.writeEncryptedChars AES_encrypt data).delimiter = s.delimiter := by
  obtain ⟨_, _, _, _, _, heq⟩ := writeEncryptedChars_cases AES_encrypt s data
  rw [heq]
  exact ⟨rfl, rfl, rfl⟩

variable (AES_encrypt) in
theorem scanning_keeps (hs : s.AtBody) (scan : Delimiter.Scan Byte) :
    (s.scanning AES_encrypt n scan).parserState = .WantsBinaryEncodedData ∧
      (s.scanning AES_encrypt n scan).scannerState = .WantsByte1 ∧
      (s.scanning AES_encrypt n scan).delimiter = s.delimiter := by
  obtain ⟨hparser, hscanner, hdelimiter⟩ :=
    writeEncryptedChars_keeps AES_encrypt s scan.out
  exact ⟨hparser.trans hs.parserState, hscanner.trans hs.scannerState, hdelimiter⟩

theorem getD_eq_iff {d : List Byte} {m : Nat} (hm : m < d.length) :
    ch = d.getD m 0 ↔ d[m]? = some ch := by
  rw [List.getD_eq_getElem?_getD, List.getElem?_eq_getElem hm, Option.getD_some, Option.some_inj]
  exact eq_comm

/-- What is held back is let through where the character does not go on with it. -/
theorem flushDelimiter_scanning (hs : s.AtBody) {scan : Delimiter.Scan Byte}
    (hscan : scan.matched < s.delimiter.length) :
    (s.scanning AES_encrypt n scan).flushDelimiter AES_encrypt ch =
      if s.delimiter[scan.matched]? = some ch then s.scanning AES_encrypt n scan
      else s.scanning AES_encrypt n ⟨scan.text s.delimiter, 0⟩ := by
  obtain ⟨_, _, hdelimiter⟩ := scanning_keeps AES_encrypt (n := n) hs scan
  rw [flushDelimiter, hdelimiter]
  show (if ch ≠ s.delimiter.getD scan.matched 0 then _ else _) = _
  simp only [ne_eq, getD_eq_iff hscan, ite_not]
  split
  · rfl
  · rw [scanning, writeEncryptedChars_place, writeEncryptedChars_append]
    rfl

/-- One more character of the delimiter is held back. -/
theorem hold_scanning (hs : s.AtBody) (scan : Delimiter.Scan Byte) :
    (let t : Session :=
        { s.scanning AES_encrypt n scan with delimiterMatchPos := scan.matched + 1 }
      if t.delimiterMatchPos = t.delimiter.length then t.goTo .WantsFirstDash else (t, .OK)) =
      if scan.matched + 1 = s.delimiter.length then
        ({ s.scanning AES_encrypt n ⟨scan.out, scan.matched + 1⟩ with
          scannerState := .WantsFirstDash }, .OK)
      else (s.scanning AES_encrypt n ⟨scan.out, scan.matched + 1⟩, .OK) := by
  obtain ⟨_, _, hdelimiter⟩ := scanning_keeps AES_encrypt (n := n) hs scan
  have hlength := congrArg List.length hdelimiter
  by_cases hlast : scan.matched + 1 = s.delimiter.length
  · rw [if_pos hlast]
    exact if_pos (hlast.trans hlength.symm)
  · rw [if_neg hlast]
    exact if_neg fun h => hlast (h.trans hlength)

variable (AES_encrypt) in
/-- A character of the body is scanned. With the last one of the delimiter the body ends. -/
theorem pushChar_scanning (ch : Byte) (hs : s.AtBody) {scan : Delimiter.Scan Byte}
    (hscan : scan.matched < s.delimiter.length) :
    (s.scanning AES_encrypt n scan).pushChar AES_encrypt ch =
      if (Delimiter.step s.delimiter scan ch).matched = s.delimiter.length then
        ({ s.scanning AES_encrypt (n + 1) (Delimiter.step s.delimiter scan ch) with
          scannerState := .WantsFirstDash }, .OK)
      else (s.scanning AES_encrypt (n + 1) (Delimiter.step s.delimiter scan ch), .OK) := by
  have hcounted : (s.scanning AES_encrypt n scan).counted = s.scanning AES_encrypt (n + 1) scan := rfl
  obtain ⟨hparser, hscanner, hdelimiter⟩ :=
    scanning_keeps AES_encrypt (n := n + 1) hs scan
  have hpos : 0 < s.delimiter.length := Nat.zero_lt_of_lt hscan
  rw [pushChar, hcounted, matchChar, hparser]
  dsimp only
  rw [matchBinaryEncodedData, hscanner]
  dsimp only
  rw [flushDelimiter_scanning hs hscan, Delimiter.step]
  by_cases hmatch : s.delimiter[scan.matched]? = some ch
  · have hgoes : ¬ch ≠ (s.scanning AES_encrypt (n + 1) scan).delimiter.getD scan.matched 0 := by
      rw [hdelimiter]
      exact not_not.mpr ((getD_eq_iff hscan).mpr hmatch)
    rw [if_pos hmatch, if_pos hmatch]
    exact (if_neg hgoes).trans (hold_scanning hs scan)
  · obtain ⟨_, _, hdelimiter⟩ := scanning_keeps AES_encrypt (n := n + 1) hs
      ⟨scan.text s.delimiter, 0⟩
    rw [if_neg hmatch, if_neg hmatch, List.head?_eq_getElem?]
    by_cases hhead : s.delimiter[0]? = some ch
    · have hgoes : ¬ch ≠ (s.scanning AES_encrypt (n + 1)
          ⟨scan.text s.delimiter, 0⟩).delimiter.getD 0 0 := by
        rw [hdelimiter]
        exact not_not.mpr ((getD_eq_iff hpos).mpr hhead)
      rw [if_pos hhead]
      exact (if_neg hgoes).trans (hold_scanning hs ⟨scan.text s.delimiter, 0⟩)
    · have hother : ch ≠ (s.scanning AES_encrypt (n + 1)
          ⟨scan.text s.delimiter, 0⟩).delimiter.getD 0 0 := by
        rw [hdelimiter]
        exact fun h => hhead ((getD_eq_iff hpos).mp h)
      have hwrite : (s.scanning AES_encrypt (n + 1) ⟨scan.text s.delimiter, 0⟩).writeEncryptedChar
          AES_encrypt ch = s.scanning AES_encrypt (n + 1) ⟨scan.text s.delimiter ++ [ch], 0⟩ := by
        rw [scanning, scanning, ← writeEncryptedChars_append]
        rfl
      rw [if_neg hhead, if_neg (Nat.ne_of_lt hpos)]
      exact (if_pos hother).trans (congrArg (·, Status.OK) hwrite)

variable (AES_encrypt) in
/-- Text in which no delimiter is completed. -/
theorem pushChars_scanning (hs : s.AtBody) (text : List Byte) {scan : Delimiter.Scan Byte}
    (hscan : ∀ k ≤ text.length,
      ((text.take k).foldl (Delimiter.step s.delimiter) scan).matched < s.delimiter.length) :
    (s.scanning AES_encrypt n scan).pushChars AES_encrypt text =
      (s.scanning AES_encrypt (n + text.length) (text.foldl (Delimiter.step s.delimiter) scan), .OK) := by
  induction text generalizing n scan with
  | nil => rfl
  | cons ch text ih =>
    have hfirst : (Delimiter.step s.delimiter scan ch).matched < s.delimiter.length :=
      hscan 1 (by rw [List.length_cons]; omega)
    have hstart : scan.matched < s.delimiter.length := hscan 0 (Nat.zero_le _)
    rw [pushChars_cons, pushChar_scanning AES_encrypt _ hs hstart, if_neg (Nat.ne_of_lt hfirst), if_neg (not_not.mpr rfl), List.length_cons,
      Nat.add_comm text.length, ← Nat.add_assoc]
    exact ih fun k hk => hscan (k + 1) (Nat.succ_le_succ hk)

variable (AES_encrypt) in
/-- What is left of the delimiter ends the body. -/
theorem pushChars_delimiter (hs : s.AtBody) (out : List Byte) {m : Nat}
    (hm : m < s.delimiter.length) :
    (s.scanning AES_encrypt n ⟨out, m⟩).pushChars AES_encrypt (s.delimiter.drop m) =
      ({ s.scanning AES_encrypt (n + (s.delimiter.length - m)) ⟨out, s.delimiter.length⟩ with
        scannerState := .WantsFirstDash }, .OK) := by
  induction hk : s.delimiter.length - m generalizing m n with
  | zero => omega
  | succ k ih =>
    rw [List.drop_eq_getElem_cons hm, pushChars_cons, pushChar_scanning AES_encrypt _ hs hm,
      Delimiter.step_match out hm]
    by_cases hlast : m + 1 = s.delimiter.length
    · have hk : k = 0 := by omega
      rw [if_pos hlast, if_neg (not_not.mpr rfl), hlast, List.drop_length, hk]
      rfl
    · rw [if_neg hlast, if_neg (not_not.mpr rfl), ih (by omega) (by omega),
        Nat.add_comm k, ← Nat.add_assoc]

/-- What `s`, at the start of a body, is at the end of the message. -/
def Ended (AES_encrypt : List Byte → List Byte → List Byte) (s : Session) (body : List Byte)
    (u : Session) : Prop :=
  ∃ scannerState savedScannerState pos c consumed, u =
    { (s.writeEncryptedChars AES_encrypt body).setScan .Done scannerState savedScannerState pos c with
      numCharsConsumed := consumed }

theorem Ended.pushChars {body : List Byte} (h : Ended AES_encrypt s body u) (epilogue : List Byte) :
    ∃ u', u.pushChars AES_encrypt epilogue = (u', .OK) ∧ Ended AES_encrypt s body u' := by
  induction epilogue generalizing u with
  | nil => exact ⟨u, rfl, h⟩
  | cons ch epilogue ih =>
    obtain ⟨scannerState, savedScannerState, pos, c, consumed, rfl⟩ := h
    exact ih ⟨scannerState, savedScannerState, pos, c, consumed + 1, rfl⟩

theorem pushChar_closeDash (hparser : s.parserState = .WantsBinaryEncodedData ∨
      s.parserState = .WantsBase64EncodedData)
    (hscanner : s.scannerState = .WantsFirstDash ∨ s.scannerState = .WantsSecondDash) :
    s.pushChar AES_encrypt DASH = s.counted.matchCloseDashes DASH := by
  have hdash : ¬(DASH = LF ∧ s.counted.scannerState ≠ .WantsLF) := fun h => absurd h.1 (by decide)
  have hparser' : s.counted.parserState = s.parserState := rfl
  have hscanner' : s.counted.scannerState = s.scannerState := rfl
  rw [pushChar, matchChar, hparser']
  obtain hparser | hparser := hparser <;> rw [hparser]
  · show s.counted.matchBinaryEncodedData AES_encrypt DASH = _
    rw [matchBinaryEncodedData, hscanner']
    obtain hscanner | hscanner := hscanner <;> rw [hscanner]
  · show s.counted.repairBase64EncodedData AES_encrypt DASH = _
    rw [repairBase64EncodedData, if_neg hdash, matchBase64EncodedData, hscanner']
    obtain hscanner | hscanner := hscanner <;> rw [hscanner]

variable (AES_encrypt) in
/-- The two dashes end the message. -/
theorem pushChars_closeDashes (hparser : s.parserState = .WantsBinaryEncodedData ∨
      s.parserState = .WantsBase64EncodedData) (hscanner : s.scannerState = .WantsFirstDash) :
    s.pushChars AES_encrypt [DASH, DASH] =
      ({ s with
        parserState := .Done
        scannerState := .WantsSecondDash
        numCharsConsumed := s.numCharsConsumed + 2 }, .OK) := by
  have hfirst : s.pushChar AES_encrypt DASH =
      ({ s.counted with scannerState := .WantsSecondDash }, .OK) := by
    have hscanner' : s.counted.scannerState = .WantsFirstDash := hscanner
    rw [pushChar_closeDash hparser (.inl hscanner), matchCloseDashes, hscanner']
    rfl
  rw [pushChars_cons, hfirst, if_neg (not_not.mpr rfl), pushChars_cons,
    pushChar_closeDash (by exact hparser) (.inr rfl)]
  rfl

theorem pushChars_trans (h : s.pushChars AES_encrypt data = (t, .OK)) (data' : List Byte) :
    s.pushChars AES_encrypt (data ++ data') = t.pushChars AES_encrypt data' := by
  rw [pushChars_append, h, if_neg (not_not.mpr rfl)]

variable (AES_encrypt) in
/-- A body without a delimiter ends with the delimiter. -/
theorem pushChars_body (hs : s.AtBody) {body : List Byte}
    (hfree : Delimiter.Free s.delimiter body) (epilogue : List Byte) :
    ∃ u, s.pushChars AES_encrypt (body ++ s.delimiter ++ [DASH, DASH] ++ epilogue) = (u, .OK) ∧
      Ended AES_encrypt s body u := by
  obtain ⟨boundary, hdelimiter, hboundary⟩ := hs.delimiter
  have hCR : CR ∉ LF :: DASH :: DASH :: boundary := by
    intro hmem
    obtain h | h | h | h := by simpa only [List.mem_cons] using hmem
    · cases h
    · cases h
    · cases h
    · exact absurd (hboundary _ h) (by decide)
  have hstart : s.scanning AES_encrypt s.numCharsConsumed ⟨[], 0⟩ = s := by
    show { s with delimiterMatchPos := 0, numCharsConsumed := s.numCharsConsumed } = s
    rw [← hs.delimiterMatchPos]
  have hpos : 0 < s.delimiter.length := by
    rw [hdelimiter]
    exact Nat.succ_pos _
  have hscan : ∀ k ≤ body.length, ((body.take k).foldl (Delimiter.step s.delimiter)
      ⟨[], 0⟩).matched < s.delimiter.length := by
    intro k _
    refine (Delimiter.foldl_step (body.take k) (body.drop k) ⟨[], 0⟩ (List.length_pos_iff.mp hpos)
      hpos ?_).2
    rw [List.take_append_drop]
    exact hfree
  have hbody := pushChars_scanning AES_encrypt (n := s.numCharsConsumed) hs body hscan
  have hmatched := hscan body.length (Nat.le_refl _)
  rw [hstart] at hbody
  rw [List.take_length] at hmatched
  -- the delimiter, from its first character on
  have hhead : Delimiter.step s.delimiter (body.foldl (Delimiter.step s.delimiter) ⟨[], 0⟩) CR =
      ⟨body, 1⟩ := by
    rw [hdelimiter] at hfree ⊢
    exact Delimiter.foldl_step_head hCR hfree
  have hdrop : s.delimiter = CR :: s.delimiter.drop 1 := by
    rw [hdelimiter]
    rfl
  have hlong : 1 < s.delimiter.length := by
    rw [hdelimiter]
    exact Nat.succ_lt_succ (Nat.succ_pos _)
  have hfirst := pushChar_scanning AES_encrypt CR
    (n := s.numCharsConsumed + body.length) hs hmatched
  rw [hhead, if_neg (Nat.ne_of_lt hlong)] at hfirst
  have hclose := pushChars_delimiter AES_encrypt
    (n := s.numCharsConsumed + body.length + 1) hs body hlong
  obtain ⟨hparser, _, _⟩ := scanning_keeps AES_encrypt
    (n := s.numCharsConsumed + body.length + 1 + (s.delimiter.length - 1)) hs
    ⟨body, s.delimiter.length⟩
  have hdashes := pushChars_closeDashes AES_encrypt
    (s := { s.scanning AES_encrypt
        (s.numCharsConsumed + body.length + 1 + (s.delimiter.length - 1)) ⟨body, s.delimiter.length⟩
      with scannerState := .WantsFirstDash }) (.inl hparser) rfl
  have hended : Ended AES_encrypt s body
      { s.scanning AES_encrypt
          (s.numCharsConsumed + body.length + 1 + (s.delimiter.length - 1)) ⟨body, s.delimiter.length⟩
        with
        parserState := .Done
        scannerState := .WantsSecondDash
        numCharsConsumed :=
          s.numCharsConsumed + body.length + 1 + (s.delimiter.length - 1) + 2 } :=
    ⟨_, _, _, _, _, rfl⟩
  obtain ⟨u, hepilogue, hended⟩ := hended.pushChars epilogue
  refine ⟨u, ?_, hended⟩
  have htext : body ++ s.delimiter ++ [DASH, DASH] ++ epilogue =
      body ++ CR :: (s.delimiter.drop 1 ++ ([DASH, DASH] ++ epilogue)) := by
    rw [List.append_assoc, List.append_assoc, ← List.cons_append, ← hdrop]
  rw [htext, pushChars_trans hbody, pushChars_cons, hfirst, if_neg (not_not.mpr rfl),
    pushChars_trans hclose, pushChars_trans hdashes]
  exact hepilogue

/-! ### The front of a message -/

/-- The delimiter is only there when the boundary is. -/
def DelimiterRead (s : Session) : Prop :=
  (s.parserState = .WantsOpenDelimiter ∧
      s.scannerState ∈ [ScannerState.WantsFirstDash, .WantsSecondDash, .WantsCR, .WantsLF]) ∨
    Delimits s.delimiter

theorem rightTrimDelimiter_read (h : Delimits s.delimiter) :
    Delimits s.rightTrimDelimiter.1.delimiter := by
  obtain ⟨boundary, hdelimiter, hboundary⟩ := h
  refine ⟨boundary.rdropWhile (· = SPACE), ?_, fun ch hmem => hboundary ch ?_⟩
  · rw [rightTrimDelimiter, hdelimiter]
    rfl
  · exact (List.rdropWhile_prefix _ boundary).subset hmem

theorem matchOpenDelimiter_read (hparser : s.parserState = .WantsOpenDelimiter)
    (h : s.DelimiterRead) : (s.matchOpenDelimiter ch).1.DelimiterRead := by
  have hdashes : Delimits [CR, LF, DASH, DASH] := ⟨[], rfl, fun _ hmem => absurd hmem List.not_mem_nil⟩
  rw [matchOpenDelimiter]
  have hgo : ∀ scannerState ∈
      [ScannerState.WantsFirstDash, .WantsSecondDash, .WantsCR, .WantsLF],
      (s.goTo scannerState).1.DelimiterRead := fun _ hmem => .inl ⟨hparser, hmem⟩
  obtain ⟨_, hscanner⟩ | hkept := id h
  · -- in front of the boundary
    cases hstate : s.scannerState <;> rw [hstate] at hscanner <;>
      first
        | exact absurd hscanner (by decide)
        | (dsimp only; split_ifs <;>
            first
              | exact .inr hdashes
              | exact hgo _ (by decide)
              | exact h)
  · have htrim := rightTrimDelimiter_read hkept
    cases hstate : s.scannerState with
    | WantsBoundary =>
      dsimp only
      split
      · next hchar =>
        split
        · obtain ⟨boundary, hdelimiter, hboundary⟩ := hkept
          refine .inr ⟨boundary ++ [ch], ?_, ?_⟩
          · show s.delimiter ++ [ch] = _
            rw [hdelimiter]
            rfl
          · intro ch' hmem
            obtain hmem | hmem := List.mem_append.mp hmem
            · exact hboundary ch' hmem
            · rw [List.mem_singleton.mp hmem]
              exact hchar
        · split <;> exact .inr hkept
      · split_ifs <;> first | exact .inr htrim | exact .inr hkept
    | _ =>
      dsimp only [goTo]
      first
        | exact .inr hkept
        | (split_ifs <;> first | exact .inr hkept | exact .inr hdashes)

/-- A session that `s` has become in front of the data. -/
structure InFront (s t : Session) : Prop where
  early : t.Early
  kept : ∃ parserState scannerState delimiter mimeHeaderName contentType contentTransferEncoding
      consumed, t =
    { s with
      parserState := parserState
      scannerState := scannerState
      delimiter := delimiter
      mimeHeaderName := mimeHeaderName
      contentType := contentType
      contentTransferEncoding := contentTransferEncoding
      numCharsConsumed := consumed }
  delimiter : t.DelimiterRead

theorem HeadersScanned.inFront (h : InFront s t) (hparser : t.parserState = .WantsMimeHeaders)
    (hscanned : HeadersScanned t.counted u) : InFront s u := by
  obtain ⟨_, _, _, _, rfl⟩ := hscanned
  obtain ⟨_, ⟨_, _, _, _, _, _, _, rfl⟩, hread⟩ := h
  refine ⟨.inr hparser, ⟨_, _, _, _, _, _, _, rfl⟩, .inr ?_⟩
  obtain ⟨hopen, _⟩ | hread := hread
  · cases hparser.symm.trans hopen
  · exact hread

theorem InFront.pushChar (h : InFront s t) (hnext : (t.pushChar AES_encrypt ch).1.Early) :
    InFront s (t.pushChar AES_encrypt ch).1 := by
  have hparser' : t.counted.parserState = t.parserState := rfl
  rw [Session.pushChar, matchChar, hparser'] at hnext ⊢
  obtain hparser | hparser := h.early <;> rw [hparser] at hnext ⊢
  · obtain ⟨_, _, _, heq, hstate⟩ := matchOpenDelimiter_cases t.counted ch
    have hread : (t.counted.matchOpenDelimiter ch).1.DelimiterRead :=
      matchOpenDelimiter_read hparser h.delimiter
    obtain ⟨_, ⟨_, _, _, _, _, _, _, rfl⟩, _⟩ := h
    refine ⟨hnext, ?_, hread⟩
    dsimp only
    rw [heq]
    exact ⟨_, _, _, _, _, _, _, rfl⟩
  · dsimp only at hnext ⊢
    obtain hscanned | heq := matchMimeHeaders_cases t.counted ch
    · exact hscanned.inFront h hparser
    · rw [heq] at hnext ⊢
      obtain ⟨hscanned, _⟩ | ⟨parserState, hmem, _, heq⟩ := matchMimeHeadersEnd_cases t.counted
      · exact hscanned.inFront h hparser
      · rw [heq] at hnext
        exact absurd hnext (early_of_body hmem)

/-- What `s` has become with the front of a message of some content type. -/
structure Opens (s : Session) (contentType : List Byte) (t : Session) : Prop where
  contentType_le : contentType.length ≤ UCHAR_MAX
  delimiter : Delimits t.delimiter
  parserState : t.parserState ∈ [ParserState.WantsBinaryEncodedData, .WantsBase64EncodedData]
  kept : ∃ parserState delimiter mimeHeaderName contentTransferEncoding consumed, t =
    { s with
      parserState := parserState
      scannerState := .WantsByte1
      delimiter := delimiter
      mimeHeaderName := mimeHeaderName
      contentType := some contentType
      contentTransferEncoding := contentTransferEncoding
      numCharsConsumed := consumed
      topHeader := topHeaderTemplate ++ [BitVec.ofNat 8 contentType.length]
      dataOffset := TOP_HEADER_SIZE + contentType.length + s.encryptedSessionKey.length +
        SHA1_HASH_SIZE + SHA1_HASH_SIZE
      pBuffer := topHeaderTemplate ++ [BitVec.ofNat 8 contentType.length] ++ contentType ++
        s.encryptedSessionKey ++ List.replicate (SHA1_HASH_SIZE + SHA1_HASH_SIZE) 0 }

/-- The character that leads to the data. -/
theorem InFront.opens (h : InFront s t) (hnext : ¬(t.pushChar AES_encrypt ch).1.Early) :
    ∃ contentType, Opens s contentType (t.pushChar AES_encrypt ch).1 := by
  have hparser' : t.counted.parserState = t.parserState := rfl
  rw [Session.pushChar, matchChar, hparser'] at hnext ⊢
  obtain hparser | hparser := h.early <;> rw [hparser] at hnext ⊢
  · obtain ⟨_, _, _, heq, hstate⟩ := matchOpenDelimiter_cases t.counted ch
    refine absurd ?_ hnext
    dsimp only
    rw [heq]
    exact hstate.imp_left fun hsame => hsame.trans hparser
  · have hread : Delimits t.delimiter := by
      obtain ⟨hopen, _⟩ | hread := h.delimiter
      · cases hparser.symm.trans hopen
      · exact hread
    dsimp only at hnext ⊢
    obtain hscanned | heq := matchMimeHeaders_cases t.counted ch
    · exact absurd (hscanned.inFront h hparser).early hnext
    · rw [heq] at hnext ⊢
      obtain ⟨hscanned, _⟩ | ⟨parserState, hmem, hheader, heq⟩ := matchMimeHeadersEnd_cases t.counted
      · exact absurd (hscanned.inFront h hparser).early hnext
      · obtain ⟨_, ⟨_, _, _, _, _, _, _, rfl⟩, _⟩ := h
        rw [heq]
        rw [writeHeader] at hheader ⊢
        dsimp only at hheader ⊢
        split at hheader
        · cases hheader
        · next hshort =>
          rw [if_neg hshort]
          exact ⟨_, Nat.le_of_not_lt hshort, hread, hmem, _, _, _, _, _, rfl⟩

theorem pushChars_inFront (hs : InFront s s)
    (hearly : ∀ k ≤ data.length, (s.pushChars AES_encrypt (data.take k)).1.Early) :
    InFront s (s.pushChars AES_encrypt data).1 := by
  induction data using List.reverseRecOn with
  | nil => exact hs
  | append_singleton data ch ih =>
    have hdata : InFront s (s.pushChars AES_encrypt data).1 := by
      refine ih fun k hk => ?_
      have htake := hearly k (by rw [List.length_append]; omega)
      rwa [List.take_append_of_le_length hk] at htake
    have hall := hearly _ (Nat.le_refl _)
    rw [List.take_length, pushChars_append] at hall
    rw [pushChars_append]
    split at hall
    · next hfail =>
      rw [if_pos hfail]
      exact hdata
    · next hok =>
      rw [if_neg hok]
      rw [pushChars_cons] at hall ⊢
      split at hall
      · next hfail =>
        rw [if_pos hfail]
        exact hdata.pushChar hall
      · next hok =>
        rw [if_neg hok]
        exact hdata.pushChar hall

instance (s : Session) : Decidable s.Early :=
  inferInstanceAs (Decidable (s.parserState = .WantsOpenDelimiter ∨ s.parserState = .WantsMimeHeaders))

/-- The front of a message: the headers end with its last character and not sooner. -/
structure Fronts (AES_encrypt : List Byte → List Byte → List Byte) (s : Session)
    (front : List Byte) (t : Session) : Prop where
  pushed : s.pushChars AES_encrypt front = (t, .OK)
  early : ∀ k < front.length, (s.pushChars AES_encrypt (front.take k)).1.Early
  data : ¬t.Early

theorem Fronts.opens {front : List Byte} (hs : InFront s s) (h : Fronts AES_encrypt s front t) :
    ∃ contentType, Opens s contentType t := by
  obtain ⟨hpushed, hearly, hdata⟩ := h
  obtain rfl | ⟨front, ch, rfl⟩ := List.eq_nil_or_concat front
  · cases hpushed
    exact absurd hs.early hdata
  · rw [List.concat_eq_append] at hpushed hearly
    have hfront : InFront s (s.pushChars AES_encrypt front).1 := by
      refine pushChars_inFront hs fun k hk => ?_
      have htake := hearly k (by rw [List.length_append, List.length_singleton]; omega)
      rwa [List.take_append_of_le_length hk] at htake
    rw [pushChars_append] at hpushed
    split at hpushed
    · next hfail =>
      rw [hpushed] at hfail
      exact absurd rfl hfail
    · have hlast : ((s.pushChars AES_encrypt front).1.pushChar AES_encrypt ch).1 = t := by
        rw [pushChars_cons] at hpushed
        split at hpushed
        · rw [hpushed]
        · exact congrArg Prod.fst hpushed
      rw [← hlast] at hdata ⊢
      exact hfront.opens hdata

end Session

/-! ### The file -/

/-- A write at the position, which is not behind the end. -/
def File.write (f : File) (data : List Byte) : File :=
  { contents := f.contents.take f.pos ++ data ++ f.contents.drop (f.pos + data.length)
    pos := f.pos + data.length }

namespace Session

/-- The loop of `ConvertOpenFile` over what the reads give. -/
def convertPieces (AES_encrypt : List Byte → List Byte → List Byte) (s : Session) (f : File) :
    List (List Byte) → Session × Status × File
  | [] => (s, .OK, f)
  | data :: pieces =>
    let (s, status) := s.convertData AES_encrypt data
    if status = .OK then
      s.convertPieces AES_encrypt (if 0 < s.pBuffer.length then f.write s.pBuffer else f) pieces
    else (s, status, f)

end Session

/-- `ConvertOpenFile`, with the random numbers of the session. Reads, writes and seeks do not
fail. -/
def convertOpenFile (AES_encrypt HMAC AES_cbc_encrypt : List Byte → List Byte → List Byte)
    (sessionKey initVector : Option (List Byte)) (pieces : List (List Byte)) (f : File) :
    Status × File :=
  match openSession AES_encrypt AES_cbc_encrypt sessionKey initVector with
  | .error status => (status, f)
  | .ok s =>
    let (s, status, f) := s.convertPieces AES_encrypt f pieces
    let output := s.closeSession HMAC
    if status = .OK then
      if output.status ≠ .OK then (output.status, f)
      else (.OK, (f.lseek OFF64_MAX output.fileOffset .SEEK_SET).1.write output.signatures)
    else (status, f)

theorem File.lseek_set {f : File} {maxOffset pos : Nat} (h : pos ≤ maxOffset) :
    f.lseek maxOffset pos .SEEK_SET = ({ f with pos := pos }, (pos : Int)) := by
  rw [File.lseek, File.target]
  exact if_pos ⟨Int.natCast_nonneg pos, Int.ofNat_le.mpr h⟩

/-- The internal format: the header with the signatures, and the encrypted body. -/
def lockedContents (AES_encrypt HMAC AES_cbc_encrypt : List Byte → List Byte → List Byte)
    (sessionKey initVector contentType body : List Byte) : List Byte :=
  let encryptedSessionKey := encryptKey AES_cbc_encrypt sessionKey initVector
  let (encryptionKey, signingKey) := deriveKeys AES_encrypt sessionKey
  let front := topHeaderTemplate ++ [BitVec.ofNat 8 contentType.length] ++ contentType ++
    encryptedSessionKey
  let data := KeyStream.crypt
    (keyByte AES_encrypt encryptionKey (encryptedSessionKey.take AES_BLOCK_SIZE)) 0 body
  let dataSignature := HMAC signingKey data
  front ++ dataSignature ++ HMAC signingKey (front ++ dataSignature) ++ data

namespace Session

variable {AES_encrypt} {HMAC AES_cbc_encrypt : List Byte → List Byte → List Byte} {s t u : Session}
variable {sessionKey initVector contentType body : List Byte} {pieces : List (List Byte)}

variable (AES_encrypt) in
/-- The file is written from the front. -/
theorem convertPieces_eq (s : Session) (contents : List Byte) (pieces : List (List Byte))
    (h : (s.convertCalls AES_encrypt pieces).2.1 = .OK) :
    s.convertPieces AES_encrypt ⟨contents, contents.length⟩ pieces =
      ((s.convertCalls AES_encrypt pieces).1, .OK,
        ⟨contents ++ (s.convertCalls AES_encrypt pieces).2.2,
          (contents ++ (s.convertCalls AES_encrypt pieces).2.2).length⟩) := by
  induction pieces generalizing s contents with
  | nil => rw [convertPieces, convertCalls, List.append_nil]
  | cons data pieces ih =>
    rw [convertCalls] at h ⊢
    rw [convertPieces]
    generalize s.convertData AES_encrypt data = res at h ⊢
    obtain ⟨s, status⟩ := res
    dsimp only at h ⊢
    by_cases hok : status = .OK
    · have hwritten : (if 0 < s.pBuffer.length then
          (⟨contents, contents.length⟩ : File).write s.pBuffer
          else ⟨contents, contents.length⟩) =
            ⟨contents ++ s.pBuffer, (contents ++ s.pBuffer).length⟩ := by
        split
        · rw [File.write, List.take_length, List.drop_eq_nil_of_le (Nat.le_add_right _ _),
            List.append_nil, List.length_append]
        · next hempty =>
          rw [List.eq_nil_of_length_eq_zero (Nat.eq_zero_of_not_pos hempty), List.append_nil]
      rw [if_neg (not_not.mpr hok)] at h ⊢
      rw [if_pos hok, hwritten, ih s _ h]
      dsimp only
      rw [List.append_assoc]
    · rw [if_pos hok] at h
      exact absurd h hok

theorem openSession_eq (h : openSession AES_encrypt AES_cbc_encrypt (some sessionKey)
      (some initVector) = .ok s) : s =
    { encryptedSessionKey := encryptKey AES_cbc_encrypt sessionKey initVector
      encryptionKey := (deriveKeys AES_encrypt sessionKey).1
      signingKey := (deriveKeys AES_encrypt sessionKey).2
      counter := (encryptKey AES_cbc_encrypt sessionKey initVector).take AES_BLOCK_SIZE } := by
  unfold openSession at h
  split at h
  · cases h
  · cases h
    rfl

/-- A session whose message has ended, and what has been signed. -/
theorem closeSession_eq (hdone : s.parserState = .Done)
    (hHMAC : ∀ key message, (HMAC key message).length = SHA1_HASH_SIZE) :
    s.closeSession HMAC =
      { status := .OK
        signatures := HMAC s.signingKey s.signingInput ++ HMAC s.signingKey
          (s.topHeader ++ s.contentType.getD [] ++ s.encryptedSessionKey ++
            HMAC s.signingKey s.signingInput)
        fileOffset := TOP_HEADER_SIZE + (s.contentType.getD []).length +
          s.encryptedSessionKey.length } := by
  rw [closeSession, if_neg (not_not.mpr hdone), if_neg (not_not.mpr (hHMAC _ _)),
    if_neg (not_not.mpr (hHMAC _ _))]

variable (AES_encrypt) in
theorem Opens.encrypted (h : Opens s contentType t) (hs : s.keyStreamIndex = -1) :
    Encrypted AES_encrypt s.counter t 0 := by
  obtain ⟨_, _, _, _, _, _, _, _, rfl⟩ := h
  exact ⟨hs, rfl⟩

/-- A session that has converted a message. -/
structure Finished (AES_encrypt : List Byte → List Byte → List Byte) (s : Session)
    (type body : List Byte) (u : Session) : Prop where
  parserState : u.parserState = .Done
  contentType : u.contentType = some type
  topHeader : u.topHeader = topHeaderTemplate ++ [BitVec.ofNat 8 type.length]
  encryptedSessionKey : u.encryptedSessionKey = s.encryptedSessionKey
  signingKey : u.signingKey = s.signingKey
  pBuffer : u.pBuffer = u.topHeader ++ type ++ s.encryptedSessionKey ++
    List.replicate (SHA1_HASH_SIZE + SHA1_HASH_SIZE) 0 ++
      KeyStream.crypt (keyByte AES_encrypt s.encryptionKey s.counter) 0 body
  drop_dataOffset : u.pBuffer.drop u.dataOffset =
    KeyStream.crypt (keyByte AES_encrypt s.encryptionKey s.counter) 0 body

theorem Ended.finished (h : Ended AES_encrypt t body u) (hopens : Opens s contentType t)
    (hs : s.keyStreamIndex = -1) : Finished AES_encrypt s contentType body u := by
  obtain ⟨hencrypted, hbuffer⟩ :=
    (hopens.encrypted AES_encrypt hs).writeEncryptedChars body
  obtain ⟨_, _, _, _, _, heq⟩ := writeEncryptedChars_cases AES_encrypt t body
  obtain ⟨_, _, _, _, _, rfl⟩ := h
  obtain ⟨_, _, _, _, _, _, _, _, rfl⟩ := hopens
  rw [heq] at hbuffer ⊢
  refine ⟨rfl, rfl, rfl, rfl, rfl, hbuffer, ?_⟩
  show List.drop _ _ = _
  dsimp only [setScan] at hbuffer ⊢
  rw [hbuffer]
  exact List.drop_left' (by simp [TOP_HEADER_SIZE, topHeaderTemplate]; omega)

/-- The signatures go over the zeros that the header has for them. -/
theorem write_signatures {front zeros signatures data : List Byte} {pos : Nat}
    (hpos : front.length = pos) (hlength : zeros.length = signatures.length) :
    (File.write ⟨front ++ zeros ++ data, pos⟩ signatures).contents = front ++ signatures ++ data := by
  have hdrop : (front ++ zeros ++ data).drop (pos + signatures.length) = data := by
    apply List.drop_left'
    rw [List.length_append, hpos, hlength]
  show (front ++ zeros ++ data).take pos ++ signatures ++
    (front ++ zeros ++ data).drop (pos + signatures.length) = _
  rw [hdrop, List.append_assoc front zeros, List.take_left' hpos]

end Session

/-- Encryption of whole blocks with the key of the device. -/
structure KeyCipher (AES_cbc_encrypt AES_cbc_decrypt : List Byte → List Byte → List Byte) : Prop where
  length : ∀ initVector data, AES_BLOCK_SIZE ∣ data.length →
    (AES_cbc_encrypt initVector data).length = data.length
  decrypt : ∀ initVector data, AES_BLOCK_SIZE ∣ data.length →
    AES_cbc_decrypt initVector (AES_cbc_encrypt initVector data) = data

namespace Session

variable {AES_encrypt} {HMAC AES_cbc_encrypt : List Byte → List Byte → List Byte} {s t u : Session}
variable {sessionKey initVector contentType body : List Byte} {pieces : List (List Byte)}

/-- A message whose body ends as it is written comes out in the internal format. -/
theorem convertOpenFile_eq
    (hopen : openSession AES_encrypt AES_cbc_encrypt (some sessionKey) (some initVector) = .ok s)
    (hopens : Opens s contentType t) (hmessage : s.pushChars AES_encrypt pieces.flatten = (u, .OK))
    (hended : Ended AES_encrypt t body u)
    (hHMAC : ∀ key message, (HMAC key message).length = SHA1_HASH_SIZE) 
    (hkey : s.encryptedSessionKey.length = getEncryptedKeyLength KEY_SIZE) :
    ∃ pos, convertOpenFile AES_encrypt HMAC AES_cbc_encrypt (some sessionKey) (some initVector) pieces
      ⟨[], 0⟩ = (.OK, ⟨lockedContents AES_encrypt HMAC AES_cbc_encrypt sessionKey initVector
        contentType body, pos⟩) := by
  have hs := openSession_eq hopen
  have hbetween : s.betweenCalls = s := by
    rw [hs]
    rfl
  have hcalls := convertCalls_spec AES_encrypt s pieces
  rw [hbetween, hmessage] at hcalls
  have hpieces := s.convertPieces_eq AES_encrypt [] pieces hcalls.status
  have hfinished := hended.finished hopens (by rw [hs])
  rw [convertOpenFile, hopen]
  dsimp only
  rw [show (⟨[], 0⟩ : File) = ⟨[], ([] : List Byte).length⟩ from rfl, hpieces]
  generalize s.convertCalls AES_encrypt pieces = res at hcalls ⊢
  obtain ⟨s', status, output⟩ := res
  obtain ⟨hstatus, houtput, hsession, _, hsigning⟩ := hcalls
  dsimp only at hstatus houtput hsession hsigning ⊢
  have hfields : s'.parserState = u.parserState ∧ s'.contentType = u.contentType ∧
      s'.topHeader = u.topHeader ∧ s'.encryptedSessionKey = u.encryptedSessionKey ∧
      s'.signingKey = u.signingKey := by
    rw [eq_addOutput hsession]
    exact ⟨rfl, rfl, rfl, rfl, rfl⟩
  obtain ⟨hparser', hcontentType', htopHeader', hkey', hsigningKey'⟩ := hfields
  have hsigned : s'.signingInput =
      KeyStream.crypt (keyByte AES_encrypt s.encryptionKey s.counter) 0 body := by
    rw [hsigning rfl, hfinished.drop_dataOffset, hs]
    rfl
  rw [closeSession_eq (hparser'.trans hfinished.parserState) hHMAC, if_pos rfl]
  dsimp only
  rw [if_neg (not_not.mpr rfl), hsigned, hsigningKey', hfinished.signingKey, htopHeader',
    hcontentType', hfinished.contentType, hkey', hfinished.encryptedSessionKey,
    Option.getD_some, houtput, List.nil_append, hfinished.pBuffer]
  have hle : TOP_HEADER_SIZE + contentType.length + s.encryptedSessionKey.length ≤ OFF64_MAX := by
    have hshort := hopens.contentType_le
    rw [hkey]
    simp only [TOP_HEADER_SIZE, UCHAR_MAX, OFF64_MAX, getEncryptedKeyLength, KEY_SIZE,
      AES_BLOCK_SIZE] at hshort ⊢
    omega
  have hfront : (u.topHeader ++ contentType ++ s.encryptedSessionKey).length =
      TOP_HEADER_SIZE + contentType.length + s.encryptedSessionKey.length := by
    rw [hfinished.topHeader]
    simp [topHeaderTemplate, TOP_HEADER_SIZE]
    omega
  rw [File.lseek_set hle]
  refine ⟨_, congrArg (fun contents => (Status.OK, File.mk contents _))
    ((write_signatures hfront ?_).trans ?_)⟩
  · rw [List.length_replicate, List.length_append, hHMAC, hHMAC]
  · rw [hfinished.topHeader, hs, lockedContents]
    simp only [List.append_assoc]

end Session

end MediaFramework.ForwardLock
