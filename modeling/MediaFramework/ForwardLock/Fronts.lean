import MediaFramework.ForwardLock.Conversions

/-!
# The fronts of messages

The text in front of the data: the open delimiter, the header lines in any order, and an empty line.
What it makes of a session is read off the text.
-/

namespace MediaFramework.ForwardLock.Session

variable {AES_encrypt : List Byte → List Byte → List Byte} {s t u : Session} {ch : Byte}
  {data data' : List Byte}

/-! ### Steps in front of the data -/

/-- The characters lead from `s` to `t`, with the data not before the last one. -/
structure Leads (AES_encrypt : List Byte → List Byte → List Byte) (s : Session) (data : List Byte)
    (t : Session) : Prop where
  pushed : s.pushChars AES_encrypt data = (t, .OK)
  early : ∀ k < data.length, (s.pushChars AES_encrypt (data.take k)).1.Early

theorem Leads.nil (s : Session) : Leads AES_encrypt s [] s :=
  ⟨rfl, fun _ hk => absurd hk (Nat.not_lt_zero _)⟩

theorem Leads.cons (hs : s.Early) (h : s.pushChar AES_encrypt ch = (t, .OK))
    (hrest : Leads AES_encrypt t data u) : Leads AES_encrypt s (ch :: data) u := by
  have hstep : ∀ data, s.pushChars AES_encrypt (ch :: data) = t.pushChars AES_encrypt data := by
    intro data
    rw [pushChars_cons, h, if_neg (not_not.mpr rfl)]
  refine ⟨(hstep data).trans hrest.pushed, fun k hk => ?_⟩
  cases k with
  | zero => exact hs
  | succ k =>
    rw [List.take_succ_cons, hstep]
    exact hrest.early k (Nat.lt_of_succ_lt_succ hk)

theorem Leads.single (hs : s.Early) (h : s.pushChar AES_encrypt ch = (t, .OK)) :
    Leads AES_encrypt s [ch] t := .cons hs h (.nil t)

theorem Leads.trans (h : Leads AES_encrypt s data t) (h' : Leads AES_encrypt t data' u) :
    Leads AES_encrypt s (data ++ data') u := by
  refine ⟨(pushChars_trans h.pushed data').trans h'.pushed, fun k hk => ?_⟩
  by_cases hfirst : k < data.length
  · rw [List.take_append_of_le_length hfirst.le]
    exact h.early k hfirst
  · obtain ⟨j, rfl⟩ := Nat.exists_eq_add_of_le (Nat.le_of_not_lt hfirst)
    rw [List.take_length_add_append, pushChars_trans h.pushed]
    rw [List.length_append] at hk
    exact h'.early j (by omega)

/-! ### Inside a header line -/

/-- A session in the middle of a header line. -/
def inLine (s : Session) (scannerState : ScannerState) (name : List Byte) (consumed : Nat) : Session :=
  { s with
    parserState := .WantsMimeHeaders
    scannerState := scannerState
    mimeHeaderName := name
    numCharsConsumed := consumed }

section InLine

variable {scannerState : ScannerState} {n : Nat} {name name' value : List Byte}

theorem early_inLine : (s.inLine scannerState name n).Early := .inr rfl

/-- The characters of a name are kept in lower case. -/
theorem leads_name (hname : ∀ ch ∈ name', isMimeHeaderNameChar ch) :
    Leads AES_encrypt (s.inLine .WantsMimeHeaderName name n) name'
      (s.inLine .WantsMimeHeaderName (name ++ name'.map tolower) (n + name'.length)) := by
  induction name' generalizing name n with
  | nil =>
    rw [List.map_nil, List.append_nil]
    exact .nil _
  | cons ch name' ih =>
    obtain ⟨hch, hname⟩ := List.forall_mem_cons.mp hname
    have hstep : (s.inLine .WantsMimeHeaderName name n).pushChar AES_encrypt ch =
        (s.inLine .WantsMimeHeaderName (name ++ [tolower ch]) (n + 1), .OK) := if_pos hch
    rw [List.map_cons, List.append_cons, List.length_cons, Nat.add_comm name'.length, ← Nat.add_assoc]
    exact .cons early_inLine hstep (ih hname)

/-- The end of a line, up to which nothing is looked at. -/
theorem leads_rest (hvalue : CR ∉ value) :
    Leads AES_encrypt (s.inLine .WantsCR name n) (value ++ [CR, LF])
      (s.inLine .WantsMimeHeaderNameStart name (n + value.length + 2)) := by
  induction value generalizing n with
  | nil => exact .cons early_inLine rfl (.single early_inLine rfl)
  | cons ch value ih =>
    obtain ⟨hch, hvalue⟩ := not_or.mp (mt List.mem_cons.mpr hvalue)
    have hstep : (s.inLine .WantsCR name n).pushChar AES_encrypt ch =
        (s.inLine .WantsCR name (n + 1), .OK) := if_neg (Ne.symm hch)
    rw [List.length_cons, Nat.add_comm value.length, ← Nat.add_assoc n]
    exact .cons early_inLine hstep (ih hvalue)

/-- The characters of a content type are kept in lower case. -/
theorem leads_type {type : List Byte} (hvalue : ∀ ch ∈ value, isMimeHeaderValueChar ch) :
    Leads AES_encrypt (inLine { s with contentType := some type } .WantsContentType name n) value
      (inLine { s with contentType := some (type ++ value.map tolower) } .WantsContentType name
        (n + value.length)) := by
  induction value generalizing type n with
  | nil =>
    rw [List.map_nil, List.append_nil]
    exact .nil _
  | cons ch value ih =>
    obtain ⟨hch, hvalue⟩ := List.forall_mem_cons.mp hvalue
    have hstep : (inLine { s with contentType := some type } .WantsContentType name n).pushChar
        AES_encrypt ch = (inLine { s with contentType := some (type ++ [tolower ch]) }
          .WantsContentType name (n + 1), .OK) := if_pos hch
    rw [List.map_cons, List.append_cons, List.length_cons, Nat.add_comm value.length, ← Nat.add_assoc]
    exact .cons early_inLine hstep (ih hvalue)

end InLine

/-! ### Header lines -/

/-- A name as it may be written. -/
structure HeaderName (name lower : List Byte) : Prop where
  ne : name ≠ []
  chars : ∀ ch ∈ name, isMimeHeaderNameChar ch
  lower : name.map tolower = lower

/-- A whole name, from the start of a line. -/
theorem HeaderName.leads {name lower : List Byte} (h : HeaderName name lower) (s : Session)
    (name' : List Byte) (n : Nat) :
    Leads AES_encrypt (s.inLine .WantsMimeHeaderNameStart name' n) name
      (s.inLine .WantsMimeHeaderName lower (n + name.length)) := by
  obtain ⟨hne, hchars, rfl⟩ := h
  obtain ⟨ch, name, rfl⟩ := List.exists_cons_of_ne_nil hne
  obtain ⟨hch, hchars⟩ := List.forall_mem_cons.mp hchars
  have hstep : (s.inLine .WantsMimeHeaderNameStart name' n).pushChar AES_encrypt ch =
      (s.inLine .WantsMimeHeaderName [tolower ch] (n + 1), .OK) := if_pos hch
  rw [List.length_cons, Nat.add_comm name.length, ← Nat.add_assoc]
  exact .cons early_inLine hstep (leads_name hchars)

def encodings : List (List Byte × ContentTransferEncoding) :=
  [(['b', 'i', 'n', 'a', 'r', 'y'].map chr, .Binary), (['7', 'b', 'i', 't'].map chr, .Binary),
    (['8', 'b', 'i', 't'].map chr, .Binary), (['b', 'a', 's', 'e', '6', '4'].map chr, .Base64)]

/-- Header lines, in any order, with the content type and the encoding that they give. -/
inductive HeaderLines : Option (List Byte) → ContentTransferEncoding → List Byte → Prop
  | nil : HeaderLines none .Undefined []
  | contentType {encoding : ContentTransferEncoding} {lines name value : List Byte}
      (h : HeaderLines none encoding lines) (hname : HeaderName name (strContent ++ strType))
      (hne : value ≠ []) (hvalue : ∀ ch ∈ value, isMimeHeaderValueChar ch) :
      HeaderLines (some (value.map tolower)) encoding
        (lines ++ (name ++ ([chr ':', SPACE] ++ (value ++ [CR, LF]))))
  | encoding {type : Option (List Byte)} {encoding : ContentTransferEncoding}
      {lines name value : List Byte} (h : HeaderLines type .Undefined lines)
      (hname : HeaderName name (strContent ++ strTransferEncoding))
      (hvalue : (value, encoding) ∈ encodings) :
      HeaderLines type encoding (lines ++ (name ++ ([chr ':', SPACE] ++ (value ++ [CR, LF]))))
  | other {type : Option (List Byte)} {encoding : ContentTransferEncoding}
      {lines name lower value : List Byte} (h : HeaderLines type encoding lines)
      (hname : HeaderName name lower)
      (hother : lower ≠ strContent ++ strType ∧ lower ≠ strContent ++ strTransferEncoding)
      (hvalue : CR ∉ value) :
      HeaderLines type encoding (lines ++ (name ++ ([chr ':'] ++ (value ++ [CR, LF]))))

/-- A session with what the header lines have said. -/
def reading (s : Session) (type : Option (List Byte)) (encoding : ContentTransferEncoding) : Session :=
  { s with contentType := type, contentTransferEncoding := encoding }

section Lines

variable {n : Nat} {lower value lines : List Byte} {type : Option (List Byte)}
  {encoding : ContentTransferEncoding}

/-- The line of the content type, from behind its name. -/
theorem leads_contentType (hne : value ≠ []) (hvalue : ∀ ch ∈ value, isMimeHeaderValueChar ch) :
    Leads AES_encrypt
      ((s.reading none encoding).inLine .WantsMimeHeaderName (strContent ++ strType) n)
      ([chr ':', SPACE] ++ (value ++ [CR, LF]))
      ((s.reading (some (value.map tolower)) encoding).inLine .WantsMimeHeaderNameStart
        (strContent ++ strType) (n + 2 + value.length + 2)) := by
  obtain ⟨ch, value, rfl⟩ := List.exists_cons_of_ne_nil hne
  obtain ⟨hch, hvalue⟩ := List.forall_mem_cons.mp hvalue
  have hstart : Leads AES_encrypt
      ((s.reading none encoding).inLine .WantsMimeHeaderName (strContent ++ strType) n)
      [chr ':', SPACE]
      ((s.reading none encoding).inLine .WantsContentTypeStart (strContent ++ strType) (n + 2)) :=
    .cons early_inLine rfl (.single early_inLine rfl)
  have hfirst : ((s.reading none encoding).inLine .WantsContentTypeStart (strContent ++ strType)
      (n + 2)).pushChar AES_encrypt ch =
        ((s.reading (some [tolower ch]) encoding).inLine .WantsContentType (strContent ++ strType)
          (n + 3), .OK) := if_pos hch
  have hrest : Leads AES_encrypt ((s.reading (some [tolower ch]) encoding).inLine .WantsContentType
      (strContent ++ strType) (n + 3)) value
      ((s.reading (some (tolower ch :: value.map tolower)) encoding).inLine .WantsContentType
        (strContent ++ strType) (n + 3 + value.length)) :=
    leads_type (s := s.reading none encoding) hvalue
  have hcount : n + 2 + (ch :: value).length + 2 = n + 3 + value.length + 1 + 1 := by
    rw [List.length_cons]
    omega
  rw [hcount]
  exact hstart.trans (.cons early_inLine hfirst
    (hrest.trans (.cons early_inLine rfl (.single early_inLine rfl))))

/-- The line of the encoding, from behind its name. -/
theorem leads_encoding (hvalue : (value, encoding) ∈ encodings) :
    Leads AES_encrypt
      ((s.reading type .Undefined).inLine .WantsMimeHeaderName (strContent ++ strTransferEncoding) n)
      ([chr ':', SPACE] ++ (value ++ [CR, LF]))
      ((s.reading type encoding).inLine .WantsMimeHeaderNameStart (strContent ++ strTransferEncoding)
        (n + 2 + value.length + 2)) := by
  simp only [encodings, List.mem_cons, List.not_mem_nil, or_false, Prod.mk.injEq] at hvalue
  obtain ⟨rfl, rfl⟩ | ⟨rfl, rfl⟩ | ⟨rfl, rfl⟩ | ⟨rfl, rfl⟩ := hvalue
  all_goals
    repeat refine Leads.cons early_inLine rfl ?_
    exact .nil _

/-- Any other line, from behind its name. -/
theorem leads_other (hother : lower ≠ strContent ++ strType ∧
    lower ≠ strContent ++ strTransferEncoding) (hvalue : CR ∉ value) :
    Leads AES_encrypt (s.inLine .WantsMimeHeaderName lower n) ([chr ':'] ++ (value ++ [CR, LF]))
      (s.inLine .WantsMimeHeaderNameStart lower (n + 1 + value.length + 2)) := by
  have hcolon : (s.inLine .WantsMimeHeaderName lower n).pushChar AES_encrypt (chr ':') =
      (s.inLine .WantsCR lower (n + 1), .OK) := by
    show (s.inLine .WantsMimeHeaderName lower (n + 1)).recognizeMimeHeaderName = _
    have hname : (s.inLine .WantsMimeHeaderName lower (n + 1)).mimeHeaderName = lower := rfl
    rw [recognizeMimeHeaderName, hname]
    -- a name that starts like those of the two headers, and any other
    by_cases hcontent : lower.take strContent.length = strContent
    · have hwhole : ∀ rest, lower.drop strContent.length = rest → lower = strContent ++ rest := by
        rintro rest rfl
        conv_lhs => rw [← List.take_append_drop strContent.length lower, hcontent]
      rw [if_pos hcontent, if_neg fun hrest => hother.1 (hwhole _ hrest),
        if_neg fun hrest => hother.2 (hwhole _ hrest)]
      rfl
    · rw [if_neg hcontent]
      rfl
  exact (Leads.single early_inLine hcolon).trans (leads_rest hvalue)

variable (AES_encrypt) in
/-- The header lines leave what they say. -/
theorem HeaderLines.leads (h : HeaderLines type encoding lines) (s : Session) (name : List Byte)
    (n : Nat) :
    ∃ name' n', Leads AES_encrypt ((s.reading none .Undefined).inLine .WantsMimeHeaderNameStart name n)
      lines ((s.reading type encoding).inLine .WantsMimeHeaderNameStart name' n') := by
  induction h with
  | nil => exact ⟨name, n, .nil _⟩
  | contentType _ hname hne hvalue ih =>
    obtain ⟨_, _, hlines⟩ := ih
    exact ⟨_, _, hlines.trans ((hname.leads _ _ _).trans (leads_contentType hne hvalue))⟩
  | encoding _ hname hvalue ih =>
    obtain ⟨_, _, hlines⟩ := ih
    exact ⟨_, _, hlines.trans ((hname.leads _ _ _).trans (leads_encoding hvalue))⟩
  | other _ hname hother hvalue ih =>
    obtain ⟨_, _, hlines⟩ := ih
    exact ⟨_, _, hlines.trans ((hname.leads _ _ _).trans (leads_other hother hvalue))⟩

end Lines

/-! ### The open delimiter -/

/-- A session in the middle of the open delimiter. -/
def inDelimiter (s : Session) (delimiter : List Byte) (consumed : Nat) : Session :=
  { s with
    parserState := .WantsOpenDelimiter
    scannerState := .WantsBoundary
    delimiter := delimiter
    numCharsConsumed := consumed }

theorem early_inDelimiter {delimiter : List Byte} {n : Nat} : (s.inDelimiter delimiter n).Early :=
  .inl rfl

/-- What a boundary may be. -/
structure Boundary (boundary : List Byte) : Prop where
  ne : boundary ≠ []
  length : boundary.length ≤ MAX_BOUNDARY_LENGTH
  chars : ∀ ch ∈ boundary, isBoundaryChar ch
  last : boundary.getLast? ≠ some SPACE

theorem leads_boundary {boundary delimiter : List Byte} {n : Nat}
    (hchars : ∀ ch ∈ boundary, isBoundaryChar ch)
    (hlength : delimiter.length + boundary.length ≤ MAX_DELIMITER_LENGTH) :
    Leads AES_encrypt (s.inDelimiter delimiter n) boundary
      (s.inDelimiter (delimiter ++ boundary) (n + boundary.length)) := by
  induction boundary generalizing delimiter n with
  | nil =>
    rw [List.append_nil]
    exact .nil _
  | cons ch boundary ih =>
    obtain ⟨hch, hchars⟩ := List.forall_mem_cons.mp hchars
    rw [List.length_cons] at hlength
    have hstep : (s.inDelimiter delimiter n).pushChar AES_encrypt ch =
        (s.inDelimiter (delimiter ++ [ch]) (n + 1), .OK) := by
      have hroom : delimiter.length < MAX_DELIMITER_LENGTH := by omega
      exact (if_pos hch).trans (if_pos hroom)
    have hlength' : (delimiter ++ [ch]).length + boundary.length ≤ MAX_DELIMITER_LENGTH := by
      rw [List.length_append, List.length_singleton]
      omega
    rw [List.append_cons, List.length_cons, Nat.add_comm boundary.length, ← Nat.add_assoc]
    exact .cons early_inDelimiter hstep (ih hchars hlength')

/-- The end of the line of the delimiter. -/
theorem leads_boundaryEnd {boundary : List Byte} {n : Nat} (h : Boundary boundary) :
    Leads AES_encrypt (s.inDelimiter ([CR, LF, DASH, DASH] ++ boundary) n) [CR, LF]
      (inLine { s with delimiter := [CR, LF, DASH, DASH] ++ boundary } .WantsMimeHeaderNameStart
        s.mimeHeaderName (n + 2)) := by
  -- a boundary does not end in a blank, so that nothing is trimmed
  have htrim : boundary.rdropWhile (· = SPACE) = boundary := by
    rw [List.rdropWhile_eq_self_iff]
    intro hne hspace
    exact h.last (by rw [List.getLast?_eq_getLast_of_ne_nil hne, of_decide_eq_true hspace])
  have hlong : 4 < ([CR, LF, DASH, DASH] ++ boundary).length := by
    have hpos := List.length_pos_iff.mpr h.ne
    rw [List.length_append]
    show 4 < 4 + boundary.length
    omega
  have hright : (s.inDelimiter ([CR, LF, DASH, DASH] ++ boundary) (n + 1)).rightTrimDelimiter =
      (s.inDelimiter ([CR, LF, DASH, DASH] ++ boundary) (n + 1), .OK) := by
    have hkept : [CR, LF, DASH, DASH] ++ boundary.rdropWhile (· = SPACE) =
        [CR, LF, DASH, DASH] ++ boundary := by rw [htrim]
    rw [rightTrimDelimiter]
    show (s.inDelimiter ([CR, LF, DASH, DASH] ++ boundary.rdropWhile (· = SPACE)) (n + 1),
      if 4 < ([CR, LF, DASH, DASH] ++ boundary.rdropWhile (· = SPACE)).length then _ else _) = _
    rw [hkept, if_pos hlong]
  have hend : (s.inDelimiter ([CR, LF, DASH, DASH] ++ boundary) n).pushChar AES_encrypt CR =
      (s.inDelimiter ([CR, LF, DASH, DASH] ++ boundary) (n + 1)).goTo .WantsBoundaryEnd := by
    generalize [CR, LF, DASH, DASH] ++ boundary = delimiter at hright
    show (if (s.inDelimiter delimiter (n + 1)).rightTrimDelimiter.2 = .OK then
      (s.inDelimiter delimiter (n + 1)).rightTrimDelimiter.1.goTo .WantsBoundaryEnd
      else (s.inDelimiter delimiter (n + 1)).rightTrimDelimiter) = _
    rw [hright, if_pos rfl]
  exact .cons early_inDelimiter hend (.single (.inl rfl) rfl)

/-! ### The front as a whole -/

/-- The headers end. -/
theorem matchMimeHeadersEnd_ok {type : List Byte} (htype : s.contentType.getD strTextPlain = type)
    (hallowed : type ∉ [strApplicationVndOmaDrmRightsXml, strApplicationVndOmaDrmContent])
    (hlength : type.length ≤ UCHAR_MAX) :
    ∃ t, s.matchMimeHeadersEnd = (t, .OK) ∧ t.delimiter = s.delimiter ∧ t.contentType = some type ∧
      t.parserState = if s.contentTransferEncoding = .Base64 then .WantsBase64EncodedData
        else .WantsBinaryEncodedData := by
  have hcontent : s.applyDefaults.contentType = some type := congrArg some htype
  have hverified : s.applyDefaults.verifyContentType = .OK := by
    have hne : some type ≠ none := Option.some_ne_none type
    simp only [List.mem_cons, List.not_mem_nil, or_false] at hallowed
    rw [verifyContentType, hcontent, if_neg hne]
    simp [hallowed]
  have hshort : ¬UCHAR_MAX < (s.applyDefaults.contentType.getD []).length := by
    rw [hcontent]
    exact Nat.not_lt.mpr hlength
  rw [matchMimeHeadersEnd]
  dsimp only
  rw [if_neg (not_not.mpr hverified), writeHeader]
  dsimp only
  rw [if_neg hshort]
  refine ⟨_, rfl, rfl, hcontent, ?_⟩
  show (if (if s.contentTransferEncoding = .Undefined then _ else s.contentTransferEncoding) = _ then
    ParserState.WantsBinaryEncodedData else .WantsBase64EncodedData) = _
  cases s.contentTransferEncoding <;> rfl

/-- The text in front of the data. -/
def frontText (boundary lines : List Byte) : List Byte :=
  [DASH, DASH] ++ (boundary ++ ([CR, LF] ++ (lines ++ [CR, LF])))

variable (AES_encrypt) in
/-- A message of this boundary and these header lines has a front, with the delimiter, the content type
and the encoding that are written. -/
theorem fronts_of_text {boundary lines : List Byte} {type : Option (List Byte)}
    {encoding : ContentTransferEncoding} (hparser : s.parserState = .WantsOpenDelimiter)
    (hscanner : s.scannerState = .WantsFirstDash) (htype : s.contentType = none)
    (hencoding : s.contentTransferEncoding = .Undefined) (hboundary : Boundary boundary)
    (hlines : HeaderLines type encoding lines)
    (hallowed : type.getD strTextPlain ∉
      [strApplicationVndOmaDrmRightsXml, strApplicationVndOmaDrmContent])
    (hlength : (type.getD strTextPlain).length ≤ UCHAR_MAX) :
    ∃ t, Fronts AES_encrypt s (frontText boundary lines) t ∧
      t.delimiter = [CR, LF, DASH, DASH] ++ boundary ∧
      t.contentType = some (type.getD strTextPlain) ∧
      t.parserState = if encoding = .Base64 then .WantsBase64EncodedData
        else .WantsBinaryEncodedData := by
  have hstart : s = { s with
      parserState := .WantsOpenDelimiter
      scannerState := .WantsFirstDash } := by
    rw [← hparser, ← hscanner]
  have hdashes : Leads AES_encrypt s [DASH, DASH]
      (s.inDelimiter [CR, LF, DASH, DASH] (s.numCharsConsumed + 2)) := by
    have hfirst : s.pushChar AES_encrypt DASH = ({ s with
        parserState := .WantsOpenDelimiter
        scannerState := .WantsSecondDash
        numCharsConsumed := s.numCharsConsumed + 1 }, .OK) := by
      conv_lhs => rw [hstart]
      rfl
    exact .cons (.inl hparser) hfirst (.single (.inl rfl) rfl)
  have hroom : [CR, LF, DASH, DASH].length + boundary.length ≤ MAX_DELIMITER_LENGTH := by
    have hle := hboundary.length
    simp only [List.length_cons, List.length_nil, MAX_DELIMITER_LENGTH]
    omega
  -- nothing has been said when the headers begin
  have hnothing : { s with delimiter := [CR, LF, DASH, DASH] ++ boundary } =
      reading { s with delimiter := [CR, LF, DASH, DASH] ++ boundary } none .Undefined := by
    rw [reading, ← htype, ← hencoding]
  obtain ⟨name, n, hheaders⟩ := hlines.leads AES_encrypt
    { s with delimiter := [CR, LF, DASH, DASH] ++ boundary } s.mimeHeaderName
    (s.numCharsConsumed + 2 + boundary.length + 2)
  rw [← hnothing] at hheaders
  have hfront := hdashes.trans ((leads_boundary hboundary.chars hroom).trans
    ((leads_boundaryEnd hboundary).trans hheaders))
  generalize hu : inLine (reading { s with delimiter := [CR, LF, DASH, DASH] ++ boundary } type encoding)
    .WantsMimeHeadersEnd name (n + 2) = u
  have hu' : u.contentType.getD strTextPlain = type.getD strTextPlain := by rw [← hu]; rfl
  obtain ⟨t, hend, hdelimiter, hcontent, hstate⟩ := matchMimeHeadersEnd_ok hu' hallowed hlength
  have hlast : Leads AES_encrypt (inLine (reading { s with
      delimiter := [CR, LF, DASH, DASH] ++ boundary } type encoding) .WantsMimeHeaderNameStart name n)
      [CR, LF] t := by
    refine .cons early_inLine rfl (.single early_inLine ?_)
    rw [← hend, ← hu]
    rfl
  have hwhole := hfront.trans hlast
  rw [← hu] at hdelimiter hstate
  simp only [List.append_assoc] at hwhole
  refine ⟨t, ⟨hwhole.pushed, hwhole.early, ?_⟩, hdelimiter, hcontent, hstate⟩
  have hdata : t.parserState = if encoding = .Base64 then .WantsBase64EncodedData
      else .WantsBinaryEncodedData := hstate
  rw [Early, hdata]
  split_ifs <;> decide

end MediaFramework.ForwardLock.Session
