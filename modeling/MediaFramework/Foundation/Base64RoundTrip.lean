import MediaFramework.Foundation.Base64
import Mathlib.Data.List.TakeWhile

/-!
# Base64 round trips

What is encoded comes back, from either alphabet, and a text in the standard alphabet with nothing
left over comes back from its bytes.
-/

namespace MediaFramework.Foundation.Base64

/-! ### Characters -/

theorem alphabetValue_lt {c : Char} {value : Nat} (h : alphabetValue c = some value) :
    value < 64 := by
  have hrange : ∀ {low high : Char}, low ≤ c ∧ c ≤ high →
      low.toNat ≤ c.toNat ∧ c.toNat ≤ high.toNat := fun h => h
  rw [alphabetValue] at h
  split_ifs at h with hupper hlower hdigit hplus hslash <;> obtain rfl := Option.some.inj h
  · obtain ⟨hlow, hhigh⟩ := hrange hupper
    change 65 ≤ _ at hlow
    change _ ≤ 90 at hhigh
    change _ - 65 < 64
    omega
  · obtain ⟨hlow, hhigh⟩ := hrange hlower
    change 97 ≤ _ at hlow
    change _ ≤ 122 at hhigh
    change _ - 97 < 64
    omega
  · obtain ⟨hlow, hhigh⟩ := hrange hdigit
    change 48 ≤ _ at hlow
    change _ ≤ 57 at hhigh
    change _ - 48 < 64
    omega
  · decide
  · decide

theorem alphabetValue_encode6Bit {x : Nat} (h : x < 64) : alphabetValue (encode6Bit x) = some x := by
  have hall : ∀ x : Fin 64, alphabetValue (encode6Bit x) = some x.val := by decide
  exact hall ⟨x, h⟩

theorem encode6Bit_alphabetValue {c : Char} {value : Nat} (h : alphabetValue c = some value)
    (hstandard : c ≠ '-' ∧ c ≠ '_') : encode6Bit value = c := by
  have hrange : ∀ {low high : Char}, low ≤ c ∧ c ≤ high →
      low.toNat ≤ c.toNat ∧ c.toNat ≤ high.toNat := fun h => h
  rw [alphabetValue] at h
  split_ifs at h with hupper hlower hdigit hplus hslash <;> obtain rfl := Option.some.inj h
  · obtain ⟨hlow, hhigh⟩ := hrange hupper
    change 65 ≤ _ at hlow
    change _ ≤ 90 at hhigh
    change encode6Bit (_ - 65) = c
    rw [encode6Bit, if_pos (by omega)]
    change Char.ofNat (65 + (_ - 65)) = c
    rw [Nat.add_sub_cancel' hlow, Char.ofNat_toNat]
  · obtain ⟨hlow, hhigh⟩ := hrange hlower
    change 97 ≤ _ at hlow
    change _ ≤ 122 at hhigh
    change encode6Bit (26 + _ - 97) = c
    have hcode : 97 + (26 + c.toNat - 97) - 26 = c.toNat := by omega
    rw [encode6Bit, if_neg (by omega), if_pos (by omega)]
    change Char.ofNat (97 + (26 + c.toNat - 97) - 26) = c
    rw [hcode, Char.ofNat_toNat]
  · obtain ⟨hlow, hhigh⟩ := hrange hdigit
    change 48 ≤ _ at hlow
    change _ ≤ 57 at hhigh
    change encode6Bit (52 + _ - 48) = c
    have hcode : 48 + (52 + c.toNat - 48) - 52 = c.toNat := by omega
    rw [encode6Bit, if_neg (by omega), if_neg (by omega), if_pos (by omega)]
    change Char.ofNat (48 + (52 + c.toNat - 48) - 52) = c
    rw [hcode, Char.ofNat_toNat]
  · exact (hplus.resolve_right hstandard.1).symm
  · exact (hslash.resolve_right hstandard.2).symm

theorem alphabetValue_urlChar (c : Char) : alphabetValue (urlChar c) = alphabetValue c := by
  rw [urlChar]
  split_ifs with hplus hslash
  · rw [hplus]
    rfl
  · rw [hslash]
    rfl
  · rfl

/-! ### What is encoded -/

theorem or_shifted {a b k : Nat} (hb : b < 2 ^ k) : a <<< k ||| b = a * 2 ^ k + b := by
  rw [← Nat.shiftLeft_add_eq_or_of_lt hb, Nat.shiftLeft_eq]

theorem and_sextet (a : Nat) : a &&& 0x3F = a % 64 := Nat.and_two_pow_sub_one_eq_mod a 6

/-- The characters of the sextets, and a `=` for each that is missing. -/
theorem encodeBase64_eq (x : List Byte) :
    encodeBase64 x = (Sextets.split (x.map BitVec.toNat)).map encode6Bit ++
      List.replicate (Sextets.missing x.length) '=' := by
  -- the values of the four characters of a group
  have hfirst : ∀ x1 : Byte, x1.toNat >>> 2 = x1.toNat / 4 :=
    fun x1 => Nat.shiftRight_eq_div_pow _ 2
  have hsecond : ∀ x1 x2 : Byte, (x1.toNat <<< 4 ||| x2.toNat >>> 4) &&& 0x3F =
      x1.toNat % 4 * 16 + x2.toNat / 16 := by
    intro x1 x2
    have hbyte := x2.isLt
    rw [Nat.shiftRight_eq_div_pow, or_shifted (by omega), and_sextet]
    omega
  have hthird : ∀ x2 x3 : Byte, (x2.toNat <<< 2 ||| x3.toNat >>> 6) &&& 0x3F =
      x2.toNat % 16 * 4 + x3.toNat / 64 := by
    intro x2 x3
    have hbyte := x3.isLt
    rw [Nat.shiftRight_eq_div_pow, or_shifted (by omega), and_sextet]
    omega
  induction x using encodeBase64.induct with
  | case1 => rfl
  | case2 x1 =>
    have hlast : (x1.toNat <<< 4) &&& 0x3F = x1.toNat % 4 * 16 := by
      rw [Nat.shiftLeft_eq, and_sextet]
      omega
    rw [encodeBase64, hfirst, hlast]
    rfl
  | case3 x1 x2 =>
    have hlast : (x2.toNat <<< 2) &&& 0x3F = x2.toNat % 16 * 4 := by
      rw [Nat.shiftLeft_eq, and_sextet]
      omega
    rw [encodeBase64, hfirst, hsecond, hlast]
    rfl
  | case4 x1 x2 x3 data ih =>
    have hmissing : Sextets.missing (x1 :: x2 :: x3 :: data).length =
        Sextets.missing data.length := by
      rw [Sextets.missing, Sextets.missing]
      simp only [List.length_cons]
      omega
    rw [encodeBase64, hfirst, hsecond, hthird, and_sextet, ih, hmissing]
    rfl

/-! ### Padding -/

theorem countPadding_le (s : List Char) : countPadding s ≤ 3 := by
  rw [countPadding]
  split_ifs <;> omega

theorem exists_padding (s : List Char) :
    ∃ body, s = body ++ List.replicate (countPadding s) '=' := by
  have hlast : ∀ n, n ≥ 1 ∧ s[n - 1]? = some '=' → s.take n = s.take (n - 1) ++ ['='] := by
    intro n h
    obtain ⟨hn, hget⟩ := h
    obtain ⟨hlt, hget⟩ := List.getElem?_eq_some_iff.mp hget
    rw [← hget, List.take_append_getElem, Nat.sub_add_cancel hn]
  have hwhole : s = s.take s.length := List.take_length.symm
  rw [countPadding]
  by_cases hone : s.length ≥ 1 ∧ s[s.length - 1]? = some '='
  · have hs₁ := hwhole.trans (hlast _ hone)
    rw [if_pos hone]
    by_cases htwo : s.length ≥ 2 ∧ s[s.length - 2]? = some '='
    · have hs₂ := hlast (s.length - 1) ⟨by omega, htwo.2⟩
      rw [if_pos htwo]
      by_cases hthree : s.length ≥ 3 ∧ s[s.length - 3]? = some '='
      · have hs₃ := hlast (s.length - 1 - 1) ⟨by omega, hthree.2⟩
        rw [hs₂, hs₃, List.append_assoc, List.append_assoc] at hs₁
        rw [if_pos hthree]
        exact ⟨_, hs₁⟩
      · rw [hs₂, List.append_assoc] at hs₁
        rw [if_neg hthree]
        exact ⟨_, hs₁⟩
    · rw [if_neg htwo]
      exact ⟨_, hs₁⟩
  · rw [if_neg hone]
    exact ⟨s, (List.append_nil s).symm⟩

theorem countPadding_append {body : List Char} {n : Nat} (hn : n ≤ 2) (h : '=' ∉ body) :
    countPadding (body ++ List.replicate n '=') = n := by
  have hlast : ∀ i, body[i]? ≠ some '=' := fun i hget => h (List.mem_of_getElem? hget)
  have hget : ∀ i, i < body.length → (body ++ List.replicate n '=')[i]? ≠ some '=' := by
    intro i hi
    rw [List.getElem?_append_left hi]
    exact hlast i
  have hpad : ∀ i, body.length ≤ i → i < body.length + n →
      (body ++ List.replicate n '=')[i]? = some '=' := by
    intro i hle hlt
    rw [List.getElem?_append_right hle, List.getElem?_replicate, if_pos (by omega)]
  have hlength : (body ++ List.replicate n '=').length = body.length + n := by
    rw [List.length_append, List.length_replicate]
  rw [countPadding, hlength]
  obtain rfl | rfl | rfl : n = 0 ∨ n = 1 ∨ n = 2 := by omega
  · exact if_neg fun hone => hget _ (by omega) hone.2
  · rw [if_pos ⟨by omega, hpad _ (by omega) (by omega)⟩]
    exact if_neg fun htwo => hget _ (by omega) htwo.2
  · rw [if_pos ⟨by omega, hpad _ (by omega) (by omega)⟩,
      if_pos ⟨by omega, hpad _ (by omega) (by omega)⟩]
    exact if_neg fun hthree => hget _ (by omega) hthree.2

/-! ### The bytes that are written -/

variable {limit : Nat}

/-- Nothing is written from `limit` on. -/
structure Frame (limit : Nat) (before after : List Byte) : Prop where
  length : after.length = before.length
  drop : after.drop limit = before.drop limit

theorem Frame.refl (mem : List Byte) : Frame limit mem mem := ⟨rfl, rfl⟩

theorem Frame.trans {a b c : List Byte} (hab : Frame limit a b) (hbc : Frame limit b c) :
    Frame limit a c := ⟨hbc.length.trans hab.length, hbc.drop.trans hab.drop⟩

theorem write_frame (o : Output) (byte : Byte) : Frame limit o.out (o.write limit byte).out := by
  rw [Output.write]
  split
  next hj => exact ⟨List.length_set, List.drop_set_of_lt hj⟩
  · exact Frame.refl _

/-- The memory that the loop leaves, whatever it returns. -/
def memory : Except (List Byte) Output → List Byte
  | .error mem => mem
  | .ok o => o.out

theorem decodeFrom_frame (n padding : Nat) (s : List Char) (i accum : Nat) (o : Output) :
    Frame limit o.out (memory (decodeFrom n padding limit s i accum o)) := by
  induction s generalizing i accum o with
  | nil => exact Frame.refl _
  | cons c s ih =>
    rw [decodeFrom]
    cases charValue n padding i c with
    | none => exact Frame.refl _
    | some value =>
      dsimp only
      split
      · exact (((write_frame o _).trans (write_frame _ _)).trans (write_frame _ _)).trans (ih _ _ _)
      · exact ih _ _ _

def writeAll (limit : Nat) (bytes : List Byte) (o : Output) : Output :=
  bytes.foldl (Output.write limit) o

/-- What does not fit is not written. -/
theorem writeAll_eq {front old : List Byte} (bytes : List Byte)
    (hlimit : limit ≤ (front ++ old).length) (hfront : front.length ≤ limit) :
    writeAll limit bytes ⟨front ++ old, front.length⟩ =
      ⟨front ++ bytes.take (limit - front.length) ++
          old.drop (bytes.take (limit - front.length)).length,
        (front ++ bytes.take (limit - front.length)).length⟩ := by
  induction bytes generalizing front old with
  | nil => simp [writeAll]
  | cons byte bytes ih =>
    rw [writeAll, List.foldl_cons, ← writeAll, Output.write]
    by_cases hroom : front.length < limit
    · match old, hlimit with
      | [], hlimit =>
        rw [List.append_nil] at hlimit
        exact absurd hroom (Nat.not_lt.mpr hlimit)
      | cell :: old, hlimit =>
        have hset : (front ++ cell :: old).set front.length byte = (front ++ [byte]) ++ old := by
          rw [List.set_append_right _ _ (Nat.le_refl _), Nat.sub_self, List.set_cons_zero,
            List.append_assoc, List.singleton_append]
        have hj : front.length + 1 = (front ++ [byte]).length := by
          rw [List.length_append, List.length_singleton]
        have hroom' : limit - front.length = limit - (front ++ [byte]).length + 1 := by omega
        rw [if_pos hroom, hset, hj, ih (by simpa using hlimit) (by omega), hroom', List.take_succ_cons,
          List.length_cons, List.drop_succ_cons, List.append_assoc front [byte],
          List.singleton_append]
    · have hfull : limit - front.length = 0 := by omega
      have hsame : writeAll limit bytes ⟨front ++ old, front.length⟩ =
          ⟨front ++ old, front.length⟩ := by
        rw [ih hlimit hfront, hfull]
        simp
      rw [if_neg hroom, hsame, hfull]
      simp

/-! ### Values -/

def charValues (n padding : Nat) : List Char → Nat → Option (List Nat)
  | [], _ => some []
  | c :: s, i => do return (← charValue n padding i c) :: (← charValues n padding s (i + 1))

theorem charValue_lt {n padding i value : Nat} {c : Char} (h : charValue n padding i c = some value) :
    value < 64 := by
  rw [charValue] at h
  split at h
  next hvalue =>
    obtain rfl := Option.some.inj h
    exact alphabetValue_lt hvalue
  · split_ifs at h
    obtain rfl := Option.some.inj h
    decide

theorem charValues_append (n padding : Nat) (s t : List Char) (i : Nat) :
    charValues n padding (s ++ t) i =
      (charValues n padding s i).bind fun vs =>
        (charValues n padding t (i + s.length)).map (vs ++ ·) := by
  induction s generalizing i with
  | nil => simp [charValues]
  | cons c s ih =>
    rw [List.cons_append, charValues, charValues, ih]
    cases charValue n padding i c with
    | none => rfl
    | some value =>
      rw [List.length_cons, Nat.add_comm s.length, ← Nat.add_assoc]
      cases charValues n padding s (i + 1) with
      | none => rfl
      | some vs =>
        cases charValues n padding t (i + 1 + s.length) with
        | none => rfl
        | some ws => rfl

/-- In front of the padding there are only characters of the alphabets. -/
theorem charValues_body {n padding : Nat} {s : List Char} {i : Nat}
    (h : i + s.length ≤ n - padding) : charValues n padding s i = s.mapM alphabetValue := by
  induction s generalizing i with
  | nil => rfl
  | cons c s ih =>
    rw [List.length_cons] at h
    have hvalue : charValue n padding i c = alphabetValue c := by
      rw [charValue]
      cases alphabetValue c with
      | none =>
        dsimp only
        rw [if_pos (show i < n - padding by omega), ite_self]
      | some value => rfl
    rw [charValues, hvalue, ih (by omega), List.mapM_cons]

theorem charValues_padding {n padding i : Nat} (h : n - padding ≤ i) (k : Nat) :
    charValues n padding (List.replicate k '=') i = some (List.replicate k 0) := by
  induction k generalizing i with
  | zero => rfl
  | succ k ih =>
    have hvalue : charValue n padding i '=' = some 0 := by
      rw [charValue, show alphabetValue '=' = none from rfl]
      dsimp only
      rw [if_neg (not_not.mpr rfl), if_neg (Nat.not_lt.mpr h)]
    rw [List.replicate_succ, charValues, hvalue, ih (Nat.le_succ_of_le h)]
    rfl

theorem charValues_cons {n padding i v : Nat} {vs : List Nat} {s : List Char}
    (h : charValues n padding s i = some (v :: vs)) :
    ∃ c t, s = c :: t ∧ charValue n padding i c = some v ∧
      charValues n padding t (i + 1) = some vs := by
  cases s with
  | nil => cases h
  | cons c t =>
    obtain ⟨v', hv, h⟩ := Option.bind_eq_some_iff.mp h
    obtain ⟨vs', hvs, h⟩ := Option.bind_eq_some_iff.mp h
    obtain ⟨rfl, rfl⟩ := List.cons.inj (Option.some.inj h)
    exact ⟨c, t, rfl, hv, hvs⟩

theorem length_charValues {n padding i : Nat} {vs : List Nat} {s : List Char}
    (h : charValues n padding s i = some vs) : vs.length = s.length := by
  induction vs generalizing s i with
  | nil =>
    cases s with
    | nil => rfl
    | cons c t =>
      obtain ⟨v, -, h⟩ := Option.bind_eq_some_iff.mp h
      obtain ⟨vs, -, h⟩ := Option.bind_eq_some_iff.mp h
      cases h
  | cons v vs ih =>
    obtain ⟨c, t, rfl, -, ht⟩ := charValues_cons h
    rw [List.length_cons, List.length_cons, ih ht]

/-! ### The loop -/

theorem accum_eq {accum value : Nat} (ha : accum < 2 ^ 26) (hv : value < 64) :
    (accum <<< 6 ||| value) % 2 ^ 32 = accum * 64 + value := by
  rw [or_shifted hv]
  omega

/-- Four characters are three bytes. -/
theorem decodeFrom_group {n padding i v₁ v₂ v₃ v₄ : Nat} {c₁ c₂ c₃ c₄ : Char} (s : List Char)
    (o : Output) (hi : i % 4 = 0) (h₁ : charValue n padding i c₁ = some v₁)
    (h₂ : charValue n padding (i + 1) c₂ = some v₂)
    (h₃ : charValue n padding (i + 1 + 1) c₃ = some v₃)
    (h₄ : charValue n padding (i + 1 + 1 + 1) c₄ = some v₄) :
    decodeFrom n padding limit (c₁ :: c₂ :: c₃ :: c₄ :: s) i 0 o =
      decodeFrom n padding limit s (i + 4) 0
        (writeAll limit ([v₁ * 4 + v₂ / 16, v₂ % 16 * 16 + v₃ / 4, v₃ % 4 * 64 + v₄].map
          (BitVec.ofNat 8)) o) := by
  have hlt₁ := charValue_lt h₁
  have hlt₂ := charValue_lt h₂
  have hlt₃ := charValue_lt h₃
  have hlt₄ := charValue_lt h₄
  have hhigh : (((v₁ * 64 + v₂) * 64 + v₃) * 64 + v₄) >>> 16 = v₁ * 4 + v₂ / 16 := by
    rw [Nat.shiftRight_eq_div_pow]
    omega
  have hmiddle : (((v₁ * 64 + v₂) * 64 + v₃) * 64 + v₄) >>> 8 &&& 0xFF =
      v₂ % 16 * 16 + v₃ / 4 := by
    rw [Nat.shiftRight_eq_div_pow, Nat.and_two_pow_sub_one_eq_mod _ 8]
    omega
  have hlow : (((v₁ * 64 + v₂) * 64 + v₃) * 64 + v₄) &&& 0xFF = v₃ % 4 * 64 + v₄ := by
    rw [Nat.and_two_pow_sub_one_eq_mod _ 8]
    omega
  rw [decodeFrom, h₁]
  dsimp only
  rw [if_neg (by omega), accum_eq (by omega) hlt₁, decodeFrom, h₂]
  dsimp only
  rw [if_neg (by omega), accum_eq (by omega) hlt₂, decodeFrom, h₃]
  dsimp only
  rw [if_neg (by omega), accum_eq (by omega) hlt₃, decodeFrom, h₄]
  dsimp only
  rw [if_pos (by omega), accum_eq (by omega) hlt₄, Nat.zero_mul, Nat.zero_add, hhigh, hmiddle, hlow]
  rfl

theorem decodeFrom_values {n padding i : Nat} {s : List Char} {vs : List Nat} {o : Output}
    (hi : i % 4 = 0) (hlength : s.length % 4 = 0) (h : charValues n padding s i = some vs) :
    decodeFrom n padding limit s i 0 o =
      .ok (writeAll limit ((Sextets.join vs).map (BitVec.ofNat 8)) o) := by
  have hsame := length_charValues h
  induction vs using Sextets.join.induct generalizing s i o with
  | case1 =>
    obtain rfl : s = [] := List.eq_nil_of_length_eq_zero hsame.symm
    rfl
  | case2 v₁ =>
    rw [← hsame] at hlength
    cases hlength
  | case3 v₁ v₂ =>
    rw [← hsame] at hlength
    cases hlength
  | case4 v₁ v₂ v₃ =>
    rw [← hsame] at hlength
    cases hlength
  | case5 v₁ v₂ v₃ v₄ vs ih =>
    obtain ⟨c₁, s, rfl, h₁, h⟩ := charValues_cons h
    obtain ⟨c₂, s, rfl, h₂, h⟩ := charValues_cons h
    obtain ⟨c₃, s, rfl, h₃, h⟩ := charValues_cons h
    obtain ⟨c₄, s, rfl, h₄, h⟩ := charValues_cons h
    simp only [List.length_cons] at hlength
    rw [decodeFrom_group s o hi h₁ h₂ h₃ h₄, ih (by omega) (by omega) h (length_charValues h),
      Sextets.join]
    rfl

theorem decodeFrom_ok {n padding i accum : Nat} {s : List Char} {o o' : Output}
    (h : decodeFrom n padding limit s i accum o = .ok o') :
    ∃ vs, charValues n padding s i = some vs := by
  induction s generalizing i accum o with
  | nil => exact ⟨[], rfl⟩
  | cons c s ih =>
    rw [decodeFrom] at h
    cases hvalue : charValue n padding i c with
    | none =>
      rw [hvalue] at h
      cases h
    | some value =>
      rw [hvalue] at h
      dsimp only at h
      have hrest : ∃ vs, charValues n padding s (i + 1) = some vs := by
        split at h
        · exact ih h
        · exact ih h
      obtain ⟨vs, hvs⟩ := hrest
      exact ⟨value :: vs, by rw [charValues, hvalue, hvs]; rfl⟩

/-! ### Decoding -/

/-- What a text of either alphabet with its padding is decoded to. -/
theorem decodeBase64_values {body : List Char} {padding : Nat} {vs : List Nat} {mem : List Byte}
    {inOutBufSize : Nat} (hpadding : countPadding (body ++ List.replicate padding '=') = padding)
    (hlength : (body.length + padding) % 4 = 0) (hvs : body.mapM alphabetValue = some vs)
    (hmem : inOutBufSize ≤ mem.length)
    (hroom : outLen (body ++ List.replicate padding '=') ≤ inOutBufSize) :
    decodeBase64 (some mem) inOutBufSize (body ++ List.replicate padding '=') =
      ⟨true, some ((Sextets.join vs).map (BitVec.ofNat 8) ++ mem.drop (Sextets.join vs).length),
        (Sextets.join vs).length⟩ := by
  have hn : (body ++ List.replicate padding '=').length = body.length + padding := by
    rw [List.length_append, List.length_replicate]
  have hbody : charValues (body.length + padding) padding body 0 = some vs := by
    rw [charValues_body (by omega), hvs]
  have hcount := length_charValues hbody
  have hvalues : charValues (body.length + padding) padding (body ++ List.replicate padding '=') 0 =
      some (vs ++ List.replicate padding 0) := by
    rw [charValues_append, hbody, Option.bind_some, charValues_padding (by omega)]
    rfl
  have hle : padding ≤ 3 := by
    rw [← hpadding]
    exact countPadding_le _
  have hout : outLen (body ++ List.replicate padding '=') =
      3 * ((body.length + padding) / 4) - padding := by
    rw [outLen, hn, hpadding, Nat.mul_comm]
  have hgroups : vs.length + padding = 4 * ((body.length + padding) / 4) := by omega
  have hlimit : outLen (body ++ List.replicate padding '=') ≤ (([] : List Byte) ++ mem).length :=
    hroom.trans hmem
  have hwrite := writeAll_eq ((Sextets.join (vs ++ List.replicate padding 0)).map (BitVec.ofNat 8))
    hlimit (Nat.zero_le _)
  rw [decodeBase64, hn, if_neg (not_not.mpr hlength)]
  rw [if_neg (Nat.not_lt.mpr hroom), hpadding, decodeFrom_values rfl (hn ▸ hlength) hvalues]
  dsimp only
  rw [List.nil_append, List.length_nil, Nat.sub_zero, List.nil_append, ← List.map_take, hout,
    Sextets.join_append_zeros hgroups hle, List.length_map] at hwrite
  rw [hout, hwrite]

/-- What a success has read. -/
theorem decodeBase64_success {mem : List Byte} {inOutBufSize : Nat} {s : List Char}
    (h : (decodeBase64 (some mem) inOutBufSize s).success = true) :
    ∃ body vs, s = body ++ List.replicate (countPadding s) '=' ∧
      (body.length + countPadding s) % 4 = 0 ∧ body.mapM alphabetValue = some vs ∧
      outLen s ≤ inOutBufSize := by
  obtain ⟨body, hbody⟩ := exists_padding s
  have hn := congrArg List.length hbody
  rw [List.length_append, List.length_replicate] at hn
  rw [decodeBase64] at h
  split at h
  · cases h
  next hlength =>
  split at h
  · cases h
  next hroom =>
  split at h
  · cases h
  next o hrun =>
  obtain ⟨vs, hvs⟩ := decodeFrom_ok hrun
  have hread : ∃ ws, charValues s.length (countPadding s) body 0 = some ws := by
    generalize countPadding s = padding at hbody hvs
    rw [hbody, charValues_append] at hvs
    obtain ⟨ws, hws, -⟩ := Option.bind_eq_some_iff.mp hvs
    exact ⟨ws, by rw [hbody]; exact hws⟩
  obtain ⟨ws, hws⟩ := hread
  rw [charValues_body (by omega)] at hws
  exact ⟨body, ws, hbody, by omega, hws, Nat.le_of_not_lt hroom⟩

theorem decodeBase64_frame (mem : List Byte) (inOutBufSize : Nat) (s : List Char) :
    ∃ mem', (decodeBase64 (some mem) inOutBufSize s).out = some mem' ∧
      Frame (outLen s) mem mem' := by
  rw [decodeBase64]
  split
  · exact ⟨mem, rfl, Frame.refl mem⟩
  split
  · exact ⟨mem, rfl, Frame.refl mem⟩
  have hframe : Frame (outLen s) mem
      (memory (decodeFrom s.length (countPadding s) (outLen s) s 0 0 ⟨mem, 0⟩)) :=
    decodeFrom_frame _ _ s 0 0 ⟨mem, 0⟩
  cases hrun : decodeFrom s.length (countPadding s) (outLen s) s 0 0 ⟨mem, 0⟩ with
  | error mem' =>
    rw [hrun] at hframe
    exact ⟨mem', rfl, hframe⟩
  | ok o =>
    rw [hrun] at hframe
    exact ⟨o.out, rfl, hframe⟩

/-! ### Both ways -/

theorem mapM_encode6Bit {vs : List Nat} (h : ∀ v ∈ vs, v < 64) {alphabet : Char → Char}
    (halphabet : ∀ c, alphabetValue (alphabet c) = alphabetValue c) :
    ((vs.map encode6Bit).map alphabet).mapM alphabetValue = some vs := by
  induction vs with
  | nil => rfl
  | cons v vs ih =>
    obtain ⟨hv, h⟩ := List.forall_mem_cons.mp h
    rw [List.map_cons, List.map_cons, List.mapM_cons, halphabet, alphabetValue_encode6Bit hv, ih h]
    rfl

theorem map_encode6Bit {body : List Char} {vs : List Nat} (h : body.mapM alphabetValue = some vs)
    (hstandard : ∀ c ∈ body, c ≠ '-' ∧ c ≠ '_') : vs.map encode6Bit = body := by
  induction body generalizing vs with
  | nil =>
    obtain rfl := Option.some.inj h
    rfl
  | cons c body ih =>
    obtain ⟨hc, hstandard⟩ := List.forall_mem_cons.mp hstandard
    rw [List.mapM_cons] at h
    obtain ⟨v, hv, h⟩ := Option.bind_eq_some_iff.mp h
    obtain ⟨ws, hws, h⟩ := Option.bind_eq_some_iff.mp h
    obtain rfl := Option.some.inj h
    rw [List.map_cons, encode6Bit_alphabetValue hv hc, ih hws hstandard]

theorem mapM_alphabetValue_lt {body : List Char} {vs : List Nat}
    (h : body.mapM alphabetValue = some vs) : ∀ v ∈ vs, v < 64 := by
  induction body generalizing vs with
  | nil =>
    obtain rfl := Option.some.inj h
    exact nofun
  | cons c body ih =>
    rw [List.mapM_cons] at h
    obtain ⟨v, hv, h⟩ := Option.bind_eq_some_iff.mp h
    obtain ⟨ws, hws, h⟩ := Option.bind_eq_some_iff.mp h
    obtain rfl := Option.some.inj h
    exact List.forall_mem_cons.mpr ⟨alphabetValue_lt hv, ih hws⟩

theorem filterMap_alphabetValue {body : List Char} {vs : List Nat}
    (h : body.mapM alphabetValue = some vs) : body.filterMap alphabetValue = vs := by
  induction body generalizing vs with
  | nil => exact Option.some.inj h
  | cons c body ih =>
    rw [List.mapM_cons] at h
    obtain ⟨v, hv, h⟩ := Option.bind_eq_some_iff.mp h
    obtain ⟨ws, hws, h⟩ := Option.bind_eq_some_iff.mp h
    obtain rfl := Option.some.inj h
    rw [List.filterMap_cons_some hv, ih hws]

theorem length_mapM {body : List Char} {vs : List Nat} (h : body.mapM alphabetValue = some vs) :
    vs.length = body.length := by
  have hbody : charValues body.length 0 body 0 = body.mapM alphabetValue :=
    charValues_body (by omega)
  rw [← hbody] at h
  exact length_charValues h

theorem map_ofNat_toNat (x : List Byte) : (x.map BitVec.toNat).map (BitVec.ofNat 8) = x := by
  rw [List.map_map]
  exact List.map_id'' (fun byte => BitVec.ofNat_toNat 8 byte) x

theorem map_toNat_ofNat {bytes : List Nat} (h : ∀ b ∈ bytes, b < 256) :
    (bytes.map (BitVec.ofNat 8)).map BitVec.toNat = bytes := by
  rw [List.map_map]
  refine (List.map_congr_left fun b hb => ?_).trans (List.map_id bytes)
  rw [Function.comp_apply, BitVec.toNat_ofNat]
  exact Nat.mod_eq_of_lt (h b hb)

section

variable (x : List Byte) {alphabet : Char → Char}

/-- An encoding without its padding, in an alphabet. -/
def unpadded (alphabet : Char → Char) (x : List Byte) : List Char :=
  ((Sextets.split (x.map BitVec.toNat)).map encode6Bit).map alphabet

theorem encodeBase64_unpadded (hpad : alphabet '=' = '=') : (encodeBase64 x).map alphabet =
    unpadded alphabet x ++ List.replicate (Sextets.missing x.length) '=' := by
  rw [encodeBase64_eq, List.map_append, List.map_replicate, hpad]
  rfl

theorem split_bytes_lt : ∀ v ∈ Sextets.split (x.map BitVec.toNat), v < 64 := by
  apply Sextets.split_lt
  rw [List.forall_mem_map]
  exact fun byte _ => byte.isLt

theorem length_unpadded :
    (unpadded alphabet x).length + Sextets.missing x.length = 4 * ((x.length + 2) / 3) := by
  have htotal := Sextets.length_split_add_missing (x.map BitVec.toNat)
  rw [List.length_map] at htotal
  rw [unpadded, List.length_map, List.length_map, htotal]

theorem alphabetValue_of_mem (halphabet : ∀ c, alphabetValue (alphabet c) = alphabetValue c)
    {c : Char} (hc : c ∈ unpadded alphabet x) : alphabetValue c ≠ none := by
  obtain ⟨c', hc', rfl⟩ := List.mem_map.mp hc
  obtain ⟨v, hv, rfl⟩ := List.mem_map.mp hc'
  rw [halphabet, alphabetValue_encode6Bit (split_bytes_lt x v hv)]
  exact Option.some_ne_none v

theorem countPadding_unpadded (halphabet : ∀ c, alphabetValue (alphabet c) = alphabetValue c) :
    countPadding (unpadded alphabet x ++ List.replicate (Sextets.missing x.length) '=') =
      Sextets.missing x.length := by
  have hmissing : Sextets.missing x.length ≤ 2 := by
    rw [Sextets.missing]
    omega
  exact countPadding_append hmissing fun hmem => alphabetValue_of_mem x halphabet hmem rfl

theorem outLen_unpadded (halphabet : ∀ c, alphabetValue (alphabet c) = alphabetValue c) :
    outLen (unpadded alphabet x ++ List.replicate (Sextets.missing x.length) '=') = x.length := by
  have htotal := @length_unpadded x alphabet
  rw [outLen, countPadding_unpadded x halphabet, List.length_append, List.length_replicate, htotal,
    Sextets.missing]
  omega

/-- Decoding a text that differs from an encoding at most in the alphabet. -/
theorem decodeBase64_encoded (halphabet : ∀ c, alphabetValue (alphabet c) = alphabetValue c)
    (hpad : alphabet '=' = '=') {mem : List Byte} {inOutBufSize : Nat}
    (hmem : inOutBufSize ≤ mem.length) :
    (x.length ≤ inOutBufSize →
      decodeBase64 (some mem) inOutBufSize ((encodeBase64 x).map alphabet) =
        ⟨true, some (x ++ mem.drop x.length), x.length⟩) ∧
    (inOutBufSize < x.length →
      decodeBase64 (some mem) inOutBufSize ((encodeBase64 x).map alphabet) =
        ⟨false, some mem, inOutBufSize⟩) := by
  have hbytes : ∀ b ∈ x.map BitVec.toNat, b < 256 := by
    rw [List.forall_mem_map]
    exact fun byte _ => byte.isLt
  have hjoin := Sextets.join_split hbytes
  have hvalues := mapM_encode6Bit (split_bytes_lt x) halphabet
  have hpadding := countPadding_unpadded x halphabet
  have hout := outLen_unpadded x halphabet
  have hfour : ((unpadded alphabet x).length + Sextets.missing x.length) % 4 = 0 := by
    rw [length_unpadded]
    exact Nat.mul_mod_right 4 _
  rw [encodeBase64_unpadded x hpad]
  refine ⟨?_, ?_⟩
  · intro hroom
    rw [decodeBase64_values hpadding hfour hvalues hmem (hout.trans_le hroom), hjoin,
      map_ofNat_toNat, List.length_map]
  · intro hsmall
    rw [decodeBase64, List.length_append, List.length_replicate, if_neg (not_not.mpr hfour), hout,
      if_pos hsmall]

end

theorem encodeBase64Url_eq (x : List Byte) :
    encodeBase64Url x = (encodeBase64 x).map urlChar := by
  rw [encodeBase64Url]
  split
  · rfl
  next hnone =>
    obtain ⟨hplus, hslash⟩ := not_or.mp hnone
    refine (List.map_id _).symm.trans (List.map_congr_left fun c hc => ?_)
    have hcPlus : c ≠ '+' := fun heq => hplus (heq ▸ hc)
    have hcSlash : c ≠ '/' := fun heq => hslash (heq ▸ hc)
    rw [urlChar, if_neg hcPlus, if_neg hcSlash]
    rfl

/-- The bits of the last value in front of the padding that are in no byte. -/
def unusedBits (s : List Char) : Nat :=
  Sextets.unused ((s.take (s.length - countPadding s)).filterMap alphabetValue)

/-- A text comes back from its bytes when nothing is left over. -/
theorem encodeBase64_decoded {mem : List Byte} {inOutBufSize : Nat} {s : List Char}
    (hmem : inOutBufSize ≤ mem.length)
    (hsuccess : (decodeBase64 (some mem) inOutBufSize s).success = true)
    (hstandard : ∀ c ∈ s, c ≠ '-' ∧ c ≠ '_') (hpadding : countPadding s ≤ 2)
    (hunused : unusedBits s = 0) :
    ∃ x, (decodeBase64 (some mem) inOutBufSize s).out.map
        (·.take (decodeBase64 (some mem) inOutBufSize s).inOutBufSize) = some x ∧
      encodeBase64 x = s := by
  obtain ⟨body, vs, hs, hfour, hvs, hroom⟩ := decodeBase64_success hsuccess
  have hlength := length_mapM hvs
  have hlt := mapM_alphabetValue_lt hvs
  have hcount := (congrArg countPadding hs).symm
  rw [unusedBits] at hunused
  generalize countPadding s = padding at hs hfour hpadding hunused hcount
  subst hs
  have hfront : (body ++ List.replicate padding '=').length - padding = body.length := by
    rw [List.length_append, List.length_replicate, Nat.add_sub_cancel]
  rw [hfront, List.take_left, filterMap_alphabetValue hvs] at hunused
  have hjoined := Sextets.length_join_of_missing
    (show vs.length + padding = 4 * ((body.length + padding) / 4) by omega) (by omega)
  have hmissing : Sextets.missing (Sextets.join vs).length = padding := by
    rw [Sextets.missing, hjoined]
    omega
  rw [decodeBase64_values hcount hfour hvs hmem hroom]
  refine ⟨(Sextets.join vs).map (BitVec.ofNat 8), ?_, ?_⟩
  · rw [Option.map_some, List.take_left' (List.length_map _)]
  · have hbody := map_encode6Bit hvs fun c hc => hstandard c (List.mem_append_left _ hc)
    rw [encodeBase64_eq, map_toNat_ofNat (Sextets.join_lt hlt), List.length_map, hmissing,
      Sextets.split_join hlt (by omega) hunused, hbody]

/-- The new buffer is long enough. -/
theorem decodeBase64String_encodeBase64 (memory : (n : Nat) → Vector Byte n) (x : List Byte) :
    decodeBase64String memory (encodeBase64 x) = some x := by
  have hid : ∀ c, alphabetValue (id c) = alphabetValue c := fun _ => rfl
  have htext := @encodeBase64_unpadded x id rfl
  rw [List.map_id] at htext
  have hlength : (encodeBase64 x).length = 4 * ((x.length + 2) / 3) := by
    rw [htext, List.length_append, List.length_replicate, length_unpadded]
  have hcstr : Text.cstr (encodeBase64 x) = encodeBase64 x := by
    refine Text.cstr_eq fun hnul => ?_
    rw [htext, List.mem_append] at hnul
    obtain hnul | hnul := hnul
    · exact alphabetValue_of_mem x hid hnul rfl
    · cases (List.mem_replicate.mp hnul).2
  have hmem : (encodeBase64 x).length / 4 * 3 ≤
      (memory ((encodeBase64 x).length / 4 * 3)).toList.length := by
    rw [Vector.length_toList]
  have hroom : x.length ≤ (encodeBase64 x).length / 4 * 3 := by
    rw [hlength]
    omega
  have hdecoded := (decodeBase64_encoded x hid rfl hmem).1 hroom
  rw [List.map_id] at hdecoded
  rw [decodeBase64String, if_neg (by rw [hlength]; omega), hcstr]
  dsimp only
  rw [hdecoded, if_pos rfl, Option.map_some, List.take_left]

/-- What is encoded comes back if there is room for it, and is refused before anything is written
if there is not. Decoding writes no more than the text stands for, and a text in the standard
alphabet that leaves nothing over comes back. -/
theorem base64_roundTrip :
    (∀ (x mem : List Byte) (inOutBufSize : Nat), inOutBufSize ≤ mem.length →
      ∀ s ∈ [encodeBase64 x, encodeBase64Url x],
        (x.length ≤ inOutBufSize → decodeBase64 (some mem) inOutBufSize s =
          ⟨true, some (x ++ mem.drop x.length), x.length⟩) ∧
        (inOutBufSize < x.length → decodeBase64 (some mem) inOutBufSize s =
          ⟨false, some mem, inOutBufSize⟩)) ∧
    (∀ (mem : List Byte) (inOutBufSize : Nat) (s : List Char),
      ∃ mem', (decodeBase64 (some mem) inOutBufSize s).out = some mem' ∧
        mem'.length = mem.length ∧
        mem'.drop (s.length / 4 * 3 - countPadding s) =
          mem.drop (s.length / 4 * 3 - countPadding s)) ∧
    (∀ (mem : List Byte) (inOutBufSize : Nat) (s : List Char), inOutBufSize ≤ mem.length →
      (decodeBase64 (some mem) inOutBufSize s).success = true →
      (∀ c ∈ s, c ≠ '-' ∧ c ≠ '_') → countPadding s ≤ 2 → unusedBits s = 0 →
      ∃ x, (decodeBase64 (some mem) inOutBufSize s).out.map
          (·.take (decodeBase64 (some mem) inOutBufSize s).inOutBufSize) = some x ∧
        encodeBase64 x = s) := by
  refine ⟨?_, ?_, ?_⟩
  · intro x mem inOutBufSize hmem
    rw [List.forall_mem_cons, List.forall_mem_singleton]
    refine ⟨?_, ?_⟩
    · have hid : ∀ c, alphabetValue (id c) = alphabetValue c := fun _ => rfl
      have hplain := decodeBase64_encoded x hid rfl hmem
      rw [List.map_id] at hplain
      exact hplain
    · rw [encodeBase64Url_eq]
      exact decodeBase64_encoded x alphabetValue_urlChar rfl hmem
  · intro mem inOutBufSize s
    obtain ⟨mem', hout, hlength, hdrop⟩ := decodeBase64_frame mem inOutBufSize s
    exact ⟨mem', hout, hlength, hdrop⟩
  · intro mem inOutBufSize s hmem hsuccess hstandard hpadding hunused
    exact encodeBase64_decoded hmem hsuccess hstandard hpadding hunused

-- three characters of padding stand for no byte, and do not come back
example : decodeBase64 (some []) 0 ['A', '=', '=', '='] = ⟨true, some [], 0⟩ := by decide

end MediaFramework.Foundation.Base64
