import MediaFramework.Lib.Sextets
import MediaFramework.Lib.Text

/-!
# Base64

`media/libstagefright/foundation/base64.cpp`. A `char` is a character with its code.
-/

namespace MediaFramework.Foundation.Base64

abbrev Byte := BitVec 8

/-! ### Encoding -/

def encode6Bit (x : Nat) : Char :=
  if x ≤ 25 then Char.ofNat ('A'.toNat + x)
  else if x ≤ 51 then Char.ofNat ('a'.toNat + x - 26)
  else if x ≤ 61 then Char.ofNat ('0'.toNat + x - 52)
  else if x = 62 then '+'
  else '/'

def encodeBase64 : List Byte → List Char
  | [] => []
  | [x1] => [encode6Bit (x1.toNat >>> 2), encode6Bit ((x1.toNat <<< 4) &&& 0x3F), '=', '=']
  | [x1, x2] =>
    [encode6Bit (x1.toNat >>> 2), encode6Bit ((x1.toNat <<< 4 ||| x2.toNat >>> 4) &&& 0x3F),
      encode6Bit ((x2.toNat <<< 2) &&& 0x3F), '=']
  | x1 :: x2 :: x3 :: data =>
    encode6Bit (x1.toNat >>> 2) :: encode6Bit ((x1.toNat <<< 4 ||| x2.toNat >>> 4) &&& 0x3F) ::
      encode6Bit ((x2.toNat <<< 2 ||| x3.toNat >>> 6) &&& 0x3F) :: encode6Bit (x3.toNat &&& 0x3F) ::
      encodeBase64 data

/-- A character of the URL and filename safe alphabet. -/
def urlChar (c : Char) : Char := if c = '+' then '-' else if c = '/' then '_' else c

def encodeBase64Url (data : List Byte) : List Char :=
  let out := encodeBase64 data
  if '+' ∈ out ∨ '/' ∈ out then out.map urlChar else out

/-! ### Decoding -/

/-- The value of a character of either alphabet. -/
def alphabetValue (c : Char) : Option Nat :=
  if 'A' ≤ c ∧ c ≤ 'Z' then some (c.toNat - 'A'.toNat)
  else if 'a' ≤ c ∧ c ≤ 'z' then some (26 + c.toNat - 'a'.toNat)
  else if '0' ≤ c ∧ c ≤ '9' then some (52 + c.toNat - '0'.toNat)
  else if c = '+' ∨ c = '-' then some 62
  else if c = '/' ∨ c = '_' then some 63
  else none

/-- The value of the character `s[i]`. -/
def charValue (n padding i : Nat) (c : Char) : Option Nat :=
  match alphabetValue c with
  | some value => some value
  | none =>
    if c ≠ '=' then none
    else if i < n - padding then none
    else some 0

def countPadding (s : List Char) : Nat :=
  let n := s.length
  if n ≥ 1 ∧ s[n - 1]? = some '=' then
    if n ≥ 2 ∧ s[n - 2]? = some '=' then
      if n ≥ 3 ∧ s[n - 3]? = some '=' then 3 else 2
    else 1
  else 0

def outLen (s : List Char) : Nat := s.length / 4 * 3 - countPadding s

/-- The bytes at `out` and how many of them have been written. -/
structure Output where
  out : List Byte
  j : Nat

def Output.write (outLen : Nat) (o : Output) (byte : Byte) : Output :=
  if o.j < outLen then { out := o.out.set o.j byte, j := o.j + 1 } else o

/-- The loop over the characters. An error is what has been written when it is found. -/
def decodeFrom (n padding outLen : Nat) : List Char → Nat → Nat → Output → Except (List Byte) Output
  | [], _, _, o => .ok o
  | c :: s, i, accum, o =>
    match charValue n padding i c with
    | none => .error o.out
    | some value =>
      let accum := (accum <<< 6 ||| value) % 2 ^ 32
      if (i + 1) % 4 = 0 then
        let o := o.write outLen (BitVec.ofNat 8 (accum >>> 16))
        let o := o.write outLen (BitVec.ofNat 8 (accum >>> 8 &&& 0xFF))
        let o := o.write outLen (BitVec.ofNat 8 (accum &&& 0xFF))
        decodeFrom n padding outLen s (i + 1) 0 o
      else decodeFrom n padding outLen s (i + 1) accum o

/-- What is returned, and what stands at `out` and `inOutBufSize`. -/
structure Decoded where
  success : Bool
  out : Option (List Byte)
  inOutBufSize : Nat
  deriving DecidableEq

/-- A null pointer is `none`. The terminator is not in `s`. -/
def decodeBase64 (out : Option (List Byte)) (inOutBufSize : Nat) (s : List Char) : Decoded :=
  if s.length % 4 ≠ 0 then ⟨false, out, inOutBufSize⟩
  else
    match out with
    | none => ⟨false, out, inOutBufSize⟩
    | some mem =>
      if inOutBufSize < outLen s then ⟨false, out, inOutBufSize⟩
      else
        match decodeFrom s.length (countPadding s) (outLen s) s 0 0 ⟨mem, 0⟩ with
        | .error mem => ⟨false, some mem, inOutBufSize⟩
        | .ok o => ⟨true, some o.out, o.j⟩

/-- The overload for an `AString`. The memory of the new buffer is not initialised. -/
def decodeBase64String (memory : (n : Nat) → Vector Byte n) (s : List Char) : Option (List Byte) :=
  let n := s.length
  if n % 4 ≠ 0 then none
  else
    let bufSize := n / 4 * 3
    let res := decodeBase64 (some (memory bufSize).toList) bufSize (Text.cstr s)
    if res.success then res.out.map (·.take res.inOutBufSize) else none

end MediaFramework.Foundation.Base64
