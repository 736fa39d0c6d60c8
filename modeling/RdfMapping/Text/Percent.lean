/-!
Percent-encoding. Letters, digits and the marks `-._~` of ASCII stand for
themselves; every other character is written as its UTF-8 bytes, each as a percent
sign and two hexadecimal digits in upper case.
-/

namespace RdfMapping.Text

def isUnreserved (c : Char) : Bool :=
  c.isAlphanum || c == '-' || c == '.' || c == '_' || c == '~'

def upperHexDigit (n : Nat) : Char :=
  if n < 10 then Char.ofNat ('0'.toNat + n) else Char.ofNat ('A'.toNat + (n - 10))

def encodeByte (byte : UInt8) : List Char :=
  ['%', upperHexDigit (byte.toNat / 16), upperHexDigit (byte.toNat % 16)]

def encodeChar (c : Char) : List Char :=
  if isUnreserved c then [c] else (String.utf8EncodeChar c).flatMap encodeByte

theorem encodeChar_of_unreserved {c : Char} (plain : isUnreserved c = true) :
    encodeChar c = [c] := by
  simp [encodeChar, plain]

theorem encodeChar_of_not_unreserved {c : Char} (special : isUnreserved c = false) :
    encodeChar c = (String.utf8EncodeChar c).flatMap encodeByte := by
  simp [encodeChar, special]

def percentEncode (text : String) : String := String.ofList (text.toList.flatMap encodeChar)

theorem toList_percentEncode (text : String) :
    (percentEncode text).toList = text.toList.flatMap encodeChar := by
  simp [percentEncode]

end RdfMapping.Text
