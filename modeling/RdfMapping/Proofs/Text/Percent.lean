import RdfMapping.Text.Percent
/-!
Percent-encoded texts. They consist of unreserved characters and of triplets, a percent sign
with two hexadecimal digits, and different texts are encoded differently.
-/

namespace RdfMapping.Text

/-! ### The form of an encoded text -/

def isHexDigit (c : Char) : Bool := "0123456789ABCDEF".toList.contains c

inductive IsEncoded : List Char → Prop
  | nil : IsEncoded []
  | unreserved {c : Char} {rest : List Char} :
      isUnreserved c = true → IsEncoded rest → IsEncoded (c :: rest)
  | triplet {high low : Char} {rest : List Char} :
      isHexDigit high = true → isHexDigit low = true → IsEncoded rest →
        IsEncoded ('%' :: high :: low :: rest)

theorem isHexDigit_upperHexDigit : ∀ n < 16, isHexDigit (upperHexDigit n) = true := by decide

theorem upperHexDigit_injective :
    ∀ m < 16, ∀ n < 16, upperHexDigit m = upperHexDigit n → m = n := by decide

theorem isEncoded_bytes (bytes : List UInt8) {rest : List Char} (encoded : IsEncoded rest) :
    IsEncoded (bytes.flatMap encodeByte ++ rest) := by
  induction bytes with
  | nil => exact encoded
  | cons byte bytes ih =>
      have bound := byte.toNat_lt
      exact .triplet (isHexDigit_upperHexDigit _ (by omega))
        (isHexDigit_upperHexDigit _ (by omega)) ih

theorem isEncoded_chars (text : List Char) : IsEncoded (text.flatMap encodeChar) := by
  induction text with
  | nil => exact .nil
  | cons c text ih =>
      rw [List.flatMap_cons]
      by_cases plain : isUnreserved c = true
      · rw [encodeChar_of_unreserved plain]
        exact .unreserved plain ih
      · rw [encodeChar_of_not_unreserved (Bool.eq_false_iff.mpr plain)]
        exact isEncoded_bytes _ ih

theorem isEncoded_percentEncode (text : String) : IsEncoded (percentEncode text).toList := by
  rw [toList_percentEncode]
  exact isEncoded_chars text.toList

/-! ### Different texts -/

theorem encodeByte_unique {byte other : UInt8} {rest more : List Char}
    (same : encodeByte byte ++ rest = encodeByte other ++ more) : byte = other ∧ rest = more := by
  have bound := byte.toNat_lt
  have otherBound := other.toNat_lt
  simp only [encodeByte, List.cons_append, List.nil_append, List.cons.injEq, true_and] at same
  obtain ⟨high, low, later⟩ := same
  have sameHigh := upperHexDigit_injective _ (by omega) _ (by omega) high
  have sameLow := upperHexDigit_injective _ (by omega) _ (by omega) low
  exact ⟨UInt8.toNat_inj.mp (by omega), later⟩

theorem bytes_leading {bytes others : List UInt8} {rest more : List Char}
    (same : bytes.flatMap encodeByte ++ rest = others.flatMap encodeByte ++ more) :
    bytes <+: others ∨ others <+: bytes := by
  induction bytes generalizing others with
  | nil => exact Or.inl List.nil_prefix
  | cons byte bytes ih =>
      cases others with
      | nil => exact Or.inr List.nil_prefix
      | cons other others =>
          rw [List.flatMap_cons, List.flatMap_cons, List.append_assoc, List.append_assoc] at same
          obtain ⟨rfl, later⟩ := encodeByte_unique same
          rcases ih later with shorter | longer
          · exact Or.inl ((List.prefix_cons_inj byte).mpr shorter)
          · exact Or.inr ((List.prefix_cons_inj byte).mpr longer)

theorem eq_of_utf8_leading {c d : Char}
    (starts : String.utf8EncodeChar c <+: String.utf8EncodeChar d) : c = d := by
  obtain ⟨rest, whole⟩ := starts
  have ofFirst := ByteArray.utf8DecodeChar?_utf8EncodeChar_append (b := rest.toByteArray) (c := c)
  have ofSecond := ByteArray.utf8DecodeChar?_utf8EncodeChar_append (b := ByteArray.empty) (c := d)
  rw [ByteArray.append_empty, ← whole, List.toByteArray_append, ofFirst] at ofSecond
  exact Option.some.inj ofSecond

theorem exists_encodeChar_eq_cons {c : Char} (special : isUnreserved c = false) :
    ∃ rest, encodeChar c = '%' :: rest := by
  obtain ⟨byte, bytes, whole⟩ := List.exists_cons_of_ne_nil (String.utf8EncodeChar_ne_nil (c := c))
  rw [encodeChar_of_not_unreserved special, whole]
  exact ⟨_, rfl⟩

/-- An unreserved character is no percent sign, with which every other encoding begins. -/
theorem encodeChar_apart {c d : Char} (plain : isUnreserved c = true)
    (special : isUnreserved d = false) (rest more : List Char) :
    encodeChar c ++ rest ≠ encodeChar d ++ more := by
  intro same
  obtain ⟨later, whole⟩ := exists_encodeChar_eq_cons special
  rw [encodeChar_of_unreserved plain, whole] at same
  rw [(List.cons.inj same).1] at plain
  exact absurd plain (by decide)

theorem encodeChar_unique {c d : Char} {rest more : List Char}
    (same : encodeChar c ++ rest = encodeChar d ++ more) : c = d ∧ rest = more := by
  suffices first : c = d by
    rw [first] at same
    exact ⟨first, List.append_cancel_left same⟩
  cases plain : isUnreserved c with
  | true =>
      cases alsoPlain : isUnreserved d with
      | true =>
          rw [encodeChar_of_unreserved plain, encodeChar_of_unreserved alsoPlain] at same
          exact (List.cons.inj same).1
      | false => exact absurd same (encodeChar_apart plain alsoPlain rest more)
  | false =>
      cases alsoPlain : isUnreserved d with
      | true => exact absurd same.symm (encodeChar_apart alsoPlain plain more rest)
      | false =>
          rw [encodeChar_of_not_unreserved plain, encodeChar_of_not_unreserved alsoPlain] at same
          rcases bytes_leading same with shorter | longer
          · exact eq_of_utf8_leading shorter
          · exact (eq_of_utf8_leading longer).symm

theorem encodeChar_ne_nil (c : Char) : encodeChar c ≠ [] := by
  cases plain : isUnreserved c with
  | true =>
      rw [encodeChar_of_unreserved plain]
      exact List.cons_ne_nil c []
  | false =>
      obtain ⟨rest, whole⟩ := exists_encodeChar_eq_cons plain
      rw [whole]
      exact List.cons_ne_nil '%' rest

theorem chars_injective {text other : List Char}
    (same : text.flatMap encodeChar = other.flatMap encodeChar) : text = other := by
  induction text generalizing other with
  | nil =>
      cases other with
      | nil => rfl
      | cons d other =>
          rw [List.flatMap_nil, List.flatMap_cons] at same
          exact absurd (List.append_eq_nil_iff.mp same.symm).1 (encodeChar_ne_nil d)
  | cons c text ih =>
      cases other with
      | nil =>
          rw [List.flatMap_nil, List.flatMap_cons] at same
          exact absurd (List.append_eq_nil_iff.mp same).1 (encodeChar_ne_nil c)
      | cons d other =>
          rw [List.flatMap_cons, List.flatMap_cons] at same
          obtain ⟨rfl, later⟩ := encodeChar_unique same
          rw [ih later]

theorem percentEncode_injective : Function.Injective percentEncode := by
  intro text other same
  have chars := congrArg String.toList same
  rw [toList_percentEncode, toList_percentEncode] at chars
  exact String.toList_inj.mp (chars_injective chars)

end RdfMapping.Text
