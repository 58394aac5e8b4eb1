import Mathlib.Algebra.Ring.Int.Defs
import Mathlib.Algebra.Ring.Nat
import Mathlib.Data.List.TakeWhile

/-!
# Text in C

The functions of the C library and of C++ strings that text parsers use. A byte is the character
with its code; a NUL ends what the functions on `char *` see of a string.
-/

namespace Text

/-- What the functions on `char *` see of some bytes. -/
def cstr (s : List Char) : List Char := s.takeWhile (· ≠ '\x00')

/-- `isspace` in the C locale. -/
def isspace (c : Char) : Bool := c = ' ' || ('\t' ≤ c && c ≤ '\r')

def trim (s : List Char) : List Char :=
  ((s.dropWhile isspace).reverse.dropWhile isspace).reverse

/-- `strcasecmp` finds no difference. -/
def strcaseeq (s t : List Char) : Bool := (cstr s).map Char.toLower = (cstr t).map Char.toLower

/-- `strncasecmp` finds that `s` starts with all of `t`. -/
def startsWithIgnoreCase (s t : List Char) : Bool :=
  (t.map Char.toLower).isPrefixOf ((cstr s).map Char.toLower)

/-- `strchr` from a position on, as a position. -/
def find (s : List Char) (c : Char) (start : Nat) : Option Nat :=
  ((cstr (s.drop start)).idxOf? c).map (start + ·)

/-- `strstr`, as a position. -/
def strstr (s t : List Char) : Option Nat :=
  (List.range s.length).find? fun i => t.isPrefixOf ((cstr s).drop i)

theorem cstr_eq {s : List Char} (h : '\x00' ∉ s) : cstr s = s :=
  List.takeWhile_eq_self_iff.mpr fun c hc => by
    have hne : c ≠ '\x00' := fun heq => h (heq ▸ hc)
    simpa using hne

theorem cstr_append {s t : List Char} (h : '\x00' ∉ s) : cstr (s ++ t) = s ++ cstr t :=
  List.takeWhile_append_of_pos fun c hc => by
    have hne : c ≠ '\x00' := fun heq => h (heq ▸ hc)
    simpa using hne

theorem prefix_cstr (s : List Char) : cstr s <+: s := List.takeWhile_prefix _

@[simp]
theorem cstr_cstr (s : List Char) : cstr (cstr s) = cstr s := by
  simp [cstr, List.takeWhile_takeWhile]

theorem startsWithIgnoreCase_cstr (s t : List Char) :
    startsWithIgnoreCase (cstr s) t = startsWithIgnoreCase s t := by
  rw [startsWithIgnoreCase, startsWithIgnoreCase, cstr_cstr]

/-- Only a letter is changed to a lower-case letter. -/
theorem eq_of_toLower {c d : Char} (h : c.toLower = d) (hd : d.isLower = false) : c = d := by
  unfold Char.toLower at h
  split at h
  · rename_i hupper
    subst h
    have hlow : 65 ≤ c.toNat := UInt32.le_iff_toNat_le.mp hupper.1
    have hhigh : c.toNat ≤ 90 := UInt32.le_iff_toNat_le.mp hupper.2
    delta Char.isLower at hd
    simp only [UInt32.le_iff_toNat_le, ge_iff_le, Bool.and_eq_false_imp, decide_eq_true_eq,
      decide_eq_false_iff_not] at hd
    refine absurd ?_ (hd ?_)
    · change (c.toNat + 32) % 2^32 ≤ 122
      omega
    · change 97 ≤ (c.toNat + 32) % 2^32
      omega
  · exact h

/-- Where the two slashes behind the scheme of a URL are. -/
theorem strstr_scheme {url scheme : List Char} (hscheme : '/' ∉ scheme)
    (h : startsWithIgnoreCase url (scheme ++ "://".toList) = true) :
    strstr url "//".toList = some (scheme.length + 1) := by
  have hfit : ∀ (i : Nat) (c : Char), (scheme ++ "://".toList)[i]? = some c →
      ∃ d : Char, (cstr url)[i]? = some d ∧ d.toLower = c.toLower := by
    intro i c hc
    obtain ⟨hlt, heq⟩ := List.getElem?_eq_some_iff.mp hc
    have hget := List.prefix_iff_getElem?.mp (List.isPrefixOf_iff_prefix.mp h) i
      (by rwa [List.length_map])
    rw [List.getElem_map, heq, List.getElem?_map, Option.map_eq_some_iff] at hget
    exact hget
  have hslash : ∀ i, scheme.length + 1 ≤ i → i ≤ scheme.length + 2 →
      (cstr url)[i]? = some '/' := by
    intro i hlow hhigh
    have hc : (scheme ++ "://".toList)[i]? = some '/' := by
      rw [List.getElem?_append_right (by omega)]
      obtain heq | heq : i - scheme.length = 1 ∨ i - scheme.length = 2 := by omega
      · rw [heq]; rfl
      · rw [heq]; rfl
    obtain ⟨d, hd, hlower⟩ := hfit i '/' hc
    have heq : d = '/' := eq_of_toLower hlower rfl
    rw [hd, heq]
  have hnone : ∀ i < scheme.length + 1, (cstr url)[i]? ≠ some '/' := by
    intro i hi hget
    have hlt : i < (scheme ++ "://".toList).length := by
      rw [List.length_append]
      exact Nat.lt_of_lt_of_le hi (Nat.add_le_add_left (by decide) _)
    obtain ⟨d, hd, hlower⟩ := hfit i _ (List.getElem?_eq_getElem hlt)
    obtain rfl := Option.some.inj (hget.symm.trans hd)
    have heq : (scheme ++ "://".toList)[i] = '/' := eq_of_toLower hlower.symm rfl
    by_cases hin : i < scheme.length
    · rw [List.getElem_append_left hin] at heq
      exact hscheme (heq ▸ List.getElem_mem hin)
    · obtain rfl : i = scheme.length := by omega
      simp at heq
  have hlength : scheme.length + 2 < (cstr url).length :=
    List.getElem?_eq_some_iff.mp (hslash (scheme.length + 2) (by omega) (by omega)) |>.1
  rw [strstr, List.find?_range_eq_some]
  refine ⟨?_, ?_, fun i hi => ?_⟩
  · rw [List.isPrefixOf_iff_prefix, List.prefix_iff_getElem?]
    intro i hi
    rw [List.getElem?_drop, hslash _ (by omega) (Nat.add_le_add_left (Nat.le_of_lt_succ hi) _)]
    obtain rfl | rfl : i = 0 ∨ i = 1 := by
      have hi : i < 2 := hi
      omega
    · rfl
    · rfl
  · have hle := (prefix_cstr url).length_le
    exact List.mem_range.mpr (by omega)
  · rw [Bool.not_eq_true', Bool.eq_false_iff, ne_eq, List.isPrefixOf_iff_prefix,
      List.prefix_iff_getElem?]
    intro hfound
    have hget := hfound 0 (by decide)
    rw [List.getElem?_drop] at hget
    exact hnone i hi hget

theorem find_eq_some {s : List Char} {c : Char} {start i : Nat} (h : find s c start = some i) :
    start ≤ i ∧ s[i]? = some c := by
  obtain ⟨j, hj, rfl⟩ := Option.map_eq_some_iff.mp h
  obtain ⟨hlt, heq, -⟩ := List.idxOf?_eq_some_iff.mp hj
  have hget : (cstr (s.drop start))[j]? = some c := List.getElem?_eq_some_iff.mpr ⟨hlt, heq⟩
  have hdrop := List.prefix_iff_getElem?.mp (prefix_cstr (s.drop start)) j hlt
  rw [List.getElem?_drop, ← List.getElem?_eq_getElem hlt, hget] at hdrop
  exact ⟨Nat.le_add_right start j, hdrop⟩

theorem find_append {s t : List Char} {c : Char} (hnul : '\x00' ∉ s) (hs : c ∉ s) (hc : c ≠ '\x00') :
    find (s ++ c :: t) c 0 = some s.length := by
  have hstr : cstr (s ++ c :: t) = s ++ c :: cstr t := by
    rw [cstr_append hnul]
    simp [cstr, hc]
  have hidx : (s ++ c :: cstr t).idxOf? c = some s.length := by
    rw [List.idxOf?_eq_some_iff]
    refine ⟨by simp, by simp, fun j hj => ?_⟩
    rw [List.getElem_append_left hj]
    exact fun heq => hs (heq ▸ List.getElem_mem hj)
  simp [find, hstr, hidx]

theorem find_eq_none {s : List Char} {c : Char} {start : Nat} (h : c ∉ s) : find s c start = none := by
  have hstr : c ∉ cstr (s.drop start) := fun hc =>
    h (List.mem_of_mem_drop ((List.takeWhile_sublist _).subset hc))
  simp [find, List.idxOf?_eq_none_iff.mpr hstr]

theorem trim_eq {s : List Char} (h : ∀ c ∈ s, isspace c = false) : trim s = s := by
  have hdrop : ∀ l : List Char, (∀ c ∈ l, isspace c = false) → l.dropWhile isspace = l := by
    intro l hl
    cases l with
    | nil => rfl
    | cons c cs => simp [hl c List.mem_cons_self]
  rw [trim, hdrop s h, hdrop s.reverse fun c hc => h c (List.mem_reverse.mp hc), List.reverse_reverse]

/-- Blanks around a text that starts and ends with none. -/
theorem trim_pad {before s after : List Char} (hbefore : ∀ c ∈ before, isspace c = true)
    (hafter : ∀ c ∈ after, isspace c = true) (hfirst : ∀ c ∈ s.head?, isspace c = false)
    (hlast : ∀ c ∈ s.getLast?, isspace c = false) : trim (before ++ s ++ after) = s := by
  have hkeep : ∀ l : List Char, (∀ c ∈ l.head?, isspace c = false) → l.dropWhile isspace = l := by
    intro l hl
    cases l with
    | nil => rfl
    | cons c cs => simp [hl c rfl]
  have hback : ∀ c ∈ after.reverse, isspace c = true := fun c hc => hafter c (List.mem_reverse.mp hc)
  have hlast' : ∀ c ∈ s.reverse.head?, isspace c = false := by rwa [List.head?_reverse]
  rw [trim, List.append_assoc, List.dropWhile_append_of_pos hbefore]
  cases s with
  | nil =>
    rw [List.nil_append, List.dropWhile_eq_nil_iff.mpr hafter]
    rfl
  | cons c cs =>
    rw [hkeep (c :: cs ++ after) hfirst, List.reverse_append, List.dropWhile_append_of_pos hback,
      hkeep _ hlast', List.reverse_reverse]

theorem infix_trim (s : List Char) : trim s <:+: s := by
  have hback : trim s <+: s.dropWhile isspace := by
    have hsuffix := List.dropWhile_suffix (l := (s.dropWhile isspace).reverse) isspace
    rw [← List.reverse_prefix, List.reverse_reverse] at hsuffix
    exact hsuffix
  exact hback.isInfix.trans (List.dropWhile_suffix isspace).isInfix

/-- A prefix of a text and a marker put in front of it are never apart from each other. -/
theorem not_isPrefixOf_append {s t rest : List Char} (hst : ¬s <+: t) (hts : ¬t <+: s) :
    (s.isPrefixOf (t ++ rest)) = false := by
  rw [Bool.eq_false_iff, ne_eq, List.isPrefixOf_iff_prefix]
  intro hs
  rcases List.prefix_or_prefix_of_prefix hs (List.prefix_append t rest) with h | h
  · exact hst h
  · exact hts h

/-! ## Pieces between separators -/

section Pieces

variable {σ : Type*} {next : σ → Char → Option σ} {s₀ s : σ}

def push (c : Char) : List (List Char) → List (List Char)
  | [] => [[c]]
  | l :: ls => (c :: l) :: ls

/-- What a loop finds that looks for the next separator until the text has ended: a separator ends a
piece, and no empty piece follows the last one. The scan starts again behind a separator. -/
def pieces (next : σ → Char → Option σ) (s₀ : σ) : σ → List Char → List (List Char)
  | _, [] => []
  | s, c :: cs =>
    match next s c with
    | none => [] :: pieces next s₀ s₀ cs
    | some s' => push c (pieces next s₀ s' cs)

/-- The text has no separator: the state behind it. -/
def through (next : σ → Char → Option σ) (s : σ) (text : List Char) : Option σ := text.foldlM next s

theorem pieces_append {text rest : List Char} {c : Char} {s' : σ} (h : through next s text = some s')
    (hc : next s' c = none) :
    pieces next s₀ s (text ++ c :: rest) = text :: pieces next s₀ s₀ rest := by
  induction text generalizing s with
  | nil =>
    obtain rfl : s = s' := by simpa [through] using h
    simp [pieces, hc]
  | cons a as ih =>
    obtain ⟨s₁, ha, h⟩ : ∃ s₁, next s a = some s₁ ∧ through next s₁ as = some s' := by
      simpa [through, Option.bind_eq_some_iff] using h
    simp [pieces, ha, ih h, push]

theorem pieces_last {text : List Char} {s' : σ} (h : through next s text = some s')
    (hne : text ≠ []) : pieces next s₀ s text = [text] := by
  induction text generalizing s with
  | nil => exact absurd rfl hne
  | cons a as ih =>
    obtain ⟨s₁, ha, h⟩ : ∃ s₁, next s a = some s₁ ∧ through next s₁ as = some s' := by
      simpa [through, Option.bind_eq_some_iff] using h
    cases as with
    | nil => simp [pieces, ha, push]
    | cons b bs =>
      rw [pieces, ha]
      exact congrArg (push a) (ih h (by simp))

theorem pieces_intercalate {c : Char} {texts : List (List Char)}
    (h : ∀ text ∈ texts, text ≠ [] ∧ ∃ s', through next s₀ text = some s' ∧ next s' c = none) :
    pieces next s₀ s₀ (List.intercalate [c] texts) = texts := by
  induction texts with
  | nil => rfl
  | cons text texts ih =>
    obtain ⟨⟨hne, s', hs', hc⟩, hrest⟩ := List.forall_mem_cons.mp h
    cases texts with
    | nil => rw [List.intercalate_singleton, pieces_last hs' hne]
    | cons text' texts =>
      rw [List.intercalate_cons_cons, List.append_assoc, List.singleton_append, pieces_append hs' hc,
        ih hrest]

/-- The pieces stand in the text, and the first one at its start. -/
theorem infix_pieces (s : σ) (text : List Char) :
    (∀ piece ∈ pieces next s₀ s text, piece <:+: text) ∧
      ∀ piece ∈ (pieces next s₀ s text).head?, piece <+: text := by
  induction text generalizing s with
  | nil => exact ⟨(fun _ h => by cases h), fun _ h => by cases h⟩
  | cons c cs ih =>
    rw [pieces]
    cases next s c with
    | none =>
      refine ⟨List.forall_mem_cons.mpr ⟨List.nil_infix, fun piece h => ?_⟩, fun piece h => ?_⟩
      · exact ((ih s₀).1 piece h).trans (List.suffix_cons c cs).isInfix
      · obtain rfl := Option.some.inj h
        exact List.nil_prefix
    | some s' =>
      obtain ⟨hall, hhead⟩ := ih s'
      dsimp only
      cases hpieces : pieces next s₀ s' cs with
      | nil =>
        have hone : [c] <+: c :: cs := by simp
        refine ⟨fun piece h => ?_, fun piece h => ?_⟩
        · obtain rfl := List.mem_singleton.mp h
          exact hone.isInfix
        · obtain rfl := Option.some.inj h
          exact hone
      | cons l ls =>
        rw [hpieces] at hall hhead
        have hfirst : c :: l <+: c :: cs := List.cons_prefix_cons.mpr ⟨rfl, hhead l rfl⟩
        refine ⟨List.forall_mem_cons.mpr ⟨hfirst.isInfix, fun piece h => ?_⟩, fun piece h => ?_⟩
        · exact (hall piece (List.mem_cons_of_mem l h)).trans (List.suffix_cons c cs).isInfix
        · obtain rfl := Option.some.inj h
          exact hfirst

end Pieces

/-- The lines of a text, without the LF. -/
def lines : List Char → List (List Char) :=
  pieces (fun _ c => if c = '\n' then none else some ()) () ()

theorem infix_lines {text line : List Char} (h : line ∈ lines text) : line <:+: text :=
  (infix_pieces () text).1 line h

theorem through_line {text : List Char} (h : '\n' ∉ text) :
    through (fun _ c => if c = '\n' then none else some ()) () text = some () := by
  induction text with
  | nil => rfl
  | cons c cs ih =>
    obtain ⟨hc, hcs⟩ := not_or.mp (mt List.mem_cons.mpr h)
    simpa [through, Ne.symm hc] using ih hcs

theorem lines_append {text rest : List Char} (h : '\n' ∉ text) :
    lines (text ++ '\n' :: rest) = text :: lines rest :=
  pieces_append (through_line h) (by simp)

theorem lines_last {text : List Char} (h : '\n' ∉ text) (hne : text ≠ []) : lines text = [text] :=
  pieces_last (through_line h) hne

/-! ## Numbers -/

def scanDigits (s : List Char) : Option (Nat × List Char) :=
  let digits := s.takeWhile Char.isDigit
  if digits = [] then none else some (Nat.ofDigitChars 10 digits 0, s.dropWhile Char.isDigit)

/-- An optional sign in front of what `scan` reads. -/
def scanSigned {α : Type*} (scan : List Char → Option (α × List Char)) (neg : α → α)
    (s : List Char) : Option (α × List Char) :=
  match s.dropWhile isspace with
  | '-' :: s => (scan s).map fun r => (neg r.1, r.2)
  | '+' :: s => scan s
  | s => scan s

/-- The decimal number at the start of a text, and where it ends. -/
def scanInt (s : List Char) : Option (Int × List Char) :=
  scanSigned (fun s => (scanDigits s).map fun r => ((r.1 : Int), r.2)) Neg.neg (cstr s)

/-- `strtol` of 64 bits to base 10, which takes a number that does not fit to the nearest one that
does. -/
def strtol (s : List Char) : Option (Int × List Char) :=
  (scanInt s).map fun r => (max (-2^63) (min r.1 (2^63 - 1)), r.2)

/-- `strtoul` and `strtoull` of 64 bits to base 10, which negate modulo 2^64. -/
def strtoul (s : List Char) : Option (Nat × List Char) :=
  (scanInt s).map fun r => (if 2^64 ≤ r.1.natAbs then 2^64 - 1 else (r.1 % 2^64).toNat, r.2)

/-- `%u`. -/
def decimal (n : Nat) : List Char := Nat.toDigits 10 n

/-- `%d`. -/
def signed (z : Int) : List Char := if z < 0 then '-' :: decimal z.natAbs else decimal z.natAbs

theorem isDigit_of_mem_decimal {n : Nat} {c : Char} (hc : c ∈ decimal n) : c.isDigit = true :=
  Nat.isDigit_of_mem_toDigits (by decide) (by decide) hc

theorem notMem_decimal {n : Nat} {c : Char} (h : c.isDigit = false) : c ∉ decimal n := fun hc => by
  simp [isDigit_of_mem_decimal hc] at h

theorem isspace_of_mem_decimal {n : Nat} {c : Char} (hc : c ∈ decimal n) : isspace c = false := by
  have hdigit := isDigit_of_mem_decimal hc
  rw [Char.isDigit, Bool.and_eq_true, decide_eq_true_iff, decide_eq_true_iff] at hdigit
  rw [Bool.eq_false_iff]
  intro hspace
  rw [isspace, Bool.or_eq_true, Bool.and_eq_true, decide_eq_true_iff, decide_eq_true_iff,
    decide_eq_true_iff] at hspace
  rcases hspace with rfl | hspace
  · exact absurd hdigit.1 (by decide)
  · exact absurd (UInt32.le_trans hdigit.1 hspace.2) (by decide)

theorem scanDigits_append {rest : List Char} (n : Nat) (h : ∀ c ∈ rest.head?, c.isDigit = false) :
    scanDigits (decimal n ++ rest) = some (n, rest) := by
  have hrest : rest.takeWhile Char.isDigit = [] ∧ rest.dropWhile Char.isDigit = rest := by
    cases rest with
    | nil => exact ⟨rfl, rfl⟩
    | cons c cs => simp [h c rfl]
  have htake : (decimal n ++ rest).takeWhile Char.isDigit = decimal n := by
    rw [List.takeWhile_append_of_pos fun c hc => isDigit_of_mem_decimal hc, hrest.1,
      List.append_nil]
  have hdrop : (decimal n ++ rest).dropWhile Char.isDigit = rest := by
    rw [List.dropWhile_append_of_pos fun c hc => isDigit_of_mem_decimal hc, hrest.2]
  have hne : decimal n ≠ [] := Nat.toDigits_ne_nil
  rw [scanDigits, htake, hdrop, if_neg hne]
  exact congrArg (fun m => some (m, rest)) Nat.ofDigitChars_ten_toDigits

theorem scanDigits_decimal (n : Nat) : scanDigits (decimal n) = some (n, []) := by
  have h := @scanDigits_append [] n fun c hc => by cases hc
  rwa [List.append_nil] at h

theorem notMem_signed {z : Int} {c : Char} (h : c.isDigit = false) (hne : c ≠ '-') : c ∉ signed z := by
  rw [signed]
  split
  · rw [List.mem_cons, not_or]
    exact ⟨hne, notMem_decimal h⟩
  · exact notMem_decimal h

theorem scanInt_append {rest : List Char} (n : Nat) (h : ∀ c ∈ rest.head?, c.isDigit = false)
    (hnul : '\x00' ∉ rest) : scanInt (decimal n ++ rest) = some ((n : Int), rest) := by
  have hscan := scanDigits_append n h
  rw [scanInt, cstr_append (notMem_decimal (by decide)), cstr_eq hnul]
  cases hd : decimal n with
  | nil => exact absurd hd Nat.toDigits_ne_nil
  | cons c cs =>
    have hc : c ∈ decimal n := hd ▸ List.mem_cons_self
    have hdigit := isDigit_of_mem_decimal hc
    have hdrop : (c :: cs ++ rest).dropWhile isspace = c :: cs ++ rest := by
      simp [isspace_of_mem_decimal hc]
    rw [hd] at hscan
    rw [scanSigned, hdrop]
    split
    · rename_i heq
      obtain ⟨rfl, -⟩ := List.cons_eq_cons.mp heq
      exact absurd hdigit (by decide)
    · rename_i heq
      obtain ⟨rfl, -⟩ := List.cons_eq_cons.mp heq
      exact absurd hdigit (by decide)
    · rw [hscan]
      rfl

theorem scanInt_decimal (n : Nat) : scanInt (decimal n) = some ((n : Int), []) := by
  have h := @scanInt_append [] n (fun c hc => by cases hc) (by simp)
  rwa [List.append_nil] at h

theorem scanInt_signed (z : Int) : scanInt (signed z) = some (z, []) := by
  rw [signed]
  split
  · have habs : -((z.natAbs : Nat) : Int) = z := by omega
    have hnul : '\x00' ∉ '-' :: decimal z.natAbs := by
      rw [List.mem_cons, not_or]
      exact ⟨by decide, notMem_decimal (by decide)⟩
    rw [scanInt, cstr_eq hnul]
    generalize z.natAbs = n at habs ⊢
    simp [scanSigned, isspace, scanDigits_decimal, habs]
  · have habs : ((z.natAbs : Nat) : Int) = z := by omega
    rw [scanInt_decimal, habs]

theorem strtol_signed {z : Int} (hlow : -2^63 ≤ z) (hhigh : z < 2^63) :
    strtol (signed z) = some (z, []) := by
  have hclamp : max (-2^63) (min z (2^63 - 1)) = z := by omega
  rw [strtol, scanInt_signed, Option.map_some, hclamp]

theorem strtoul_append {rest : List Char} {n : Nat} (hn : n < 2^64)
    (h : ∀ c ∈ rest.head?, c.isDigit = false) (hnul : '\x00' ∉ rest) :
    strtoul (decimal n ++ rest) = some (n, rest) := by
  have hmod : ((n : Int) % 2^64).toNat = n := by omega
  rw [strtoul, scanInt_append n h hnul, Option.map_some, Int.natAbs_natCast, if_neg (by omega), hmod]

theorem strtoul_decimal {n : Nat} (h : n < 2^64) : strtoul (decimal n) = some (n, []) := by
  have hstr := @strtoul_append [] n h (fun c hc => by cases hc) (by simp)
  rwa [List.append_nil] at hstr

end Text

/-!
### C strings

Bytes that a NUL ends, without the NUL.
-/

/-- A string that a NUL ends. -/
structure CString where
  bytes : List (BitVec 8)
  noNul : 0 ∉ bytes
  deriving DecidableEq

/-- The string at the start of some bytes. -/
def CString.ofBytes (bytes : List (BitVec 8)) : CString where
  bytes := bytes.takeWhile (· ≠ 0)
  noNul h := by simpa using List.mem_takeWhile_imp h
