import RoutePattern.Proofs.Encoding

/-! Encoding loses nothing. At the head of an encoded text it can be told which character stands
there and where the rest begins: a percent sign begins a byte and nothing else does, the two
digits behind it give the byte, and the bytes of a character tell how many of them there are. -/
namespace RoutePattern.Text

section Bytes
variable {rest others : List Char}

private theorem upperHexDigit_inj {n m : Nat} (small : n < 16) (alsoSmall : m < 16)
    (same : upperHexDigit n = upperHexDigit m) : n = m := by
  have all : ∀ n < 16, ∀ m < 16, upperHexDigit n = upperHexDigit m → n = m := by decide
  exact all n small m alsoSmall same

/-- An escaped byte can be read off the head of a text. -/
theorem escapeByte_append_inj {byte other : UInt8}
    (same : escapeByte byte ++ rest = escapeByte other ++ others) :
    byte = other ∧ rest = others := by
  simp only [escapeByte, List.cons_append, List.nil_append, List.cons.injEq, true_and] at same
  obtain ⟨high, low, same⟩ := same
  have bound := byte.toNat_lt
  have alsoBound := other.toNat_lt
  have first := upperHexDigit_inj (by omega) (by omega) high
  have second := upperHexDigit_inj (by omega) (by omega) low
  exact ⟨UInt8.toNat_inj.mp (by omega), same⟩

/-- Of two runs of escaped bytes at the head of one text, one goes on where the other ends. -/
theorem prefix_of_escapes {bytes more : List UInt8}
    (same : bytes.flatMap escapeByte ++ rest = more.flatMap escapeByte ++ others) :
    bytes <+: more ∨ more <+: bytes := by
  induction bytes generalizing more with
  | nil => exact .inl List.nil_prefix
  | cons byte bytes ih =>
    cases more with
    | nil => exact .inr List.nil_prefix
    | cons other more =>
      rw [List.flatMap_cons, List.append_assoc, List.flatMap_cons, List.append_assoc] at same
      obtain ⟨rfl, later⟩ := escapeByte_append_inj same
      simpa using ih later

/-- No character begins with the bytes of another one. -/
theorem eq_of_bytes_begin {char other : Char}
    (begins : String.utf8EncodeChar char <+: String.utf8EncodeChar other) : char = other := by
  obtain ⟨more, same⟩ := begins
  have here : ByteArray.utf8DecodeChar?
      ((String.utf8EncodeChar char).toByteArray ++ more.toByteArray) 0 = some char :=
    ByteArray.utf8DecodeChar?_utf8EncodeChar_append
  have there : ByteArray.utf8DecodeChar?
      ((String.utf8EncodeChar other).toByteArray ++ ByteArray.empty) 0 = some other :=
    ByteArray.utf8DecodeChar?_utf8EncodeChar_append
  rw [← List.toByteArray_append, same] at here
  rw [ByteArray.append_empty, here, Option.some_inj] at there
  exact there

end Bytes

section Characters
variable {char other : Char} {rest others : List Char}

/-- A percent sign stands at the head of an encoded character if and only if it is escaped. -/
theorem exists_escape_of_reserved (reserved : isUnreserved char = false) :
    ∃ more, encodeChar char = '%' :: more := by
  rw [encodeChar, if_neg (Bool.eq_false_iff.mp reserved)]
  cases bytes : String.utf8EncodeChar char with
  | nil => exact absurd bytes String.utf8EncodeChar_ne_nil
  | cons byte bytes => exact ⟨_, rfl⟩

private theorem encodeChar_ne_nil (char : Char) : encodeChar char ≠ [] := by
  by_cases unreserved : isUnreserved char = true
  · rw [encodeChar, if_pos unreserved]
    exact List.cons_ne_nil _ _
  · obtain ⟨more, same⟩ := exists_escape_of_reserved (Bool.eq_false_iff.mpr unreserved)
    rw [same]
    exact List.cons_ne_nil _ _

/-- A character that stands for itself is not taken for an escaped one. -/
theorem encodeChar_append_ne (unreserved : isUnreserved char = true)
    (reserved : isUnreserved other = false) :
    encodeChar char ++ rest ≠ encodeChar other ++ others := by
  obtain ⟨more, escaped⟩ := exists_escape_of_reserved reserved
  rw [encodeChar, if_pos unreserved, escaped]
  intro same
  have sign : char = '%' := by simpa using (List.cons.inj same).1
  rw [sign] at unreserved
  exact absurd unreserved (by decide)

/-- A character can be read off the head of an encoded text. -/
theorem encodeChar_append_inj (same : encodeChar char ++ rest = encodeChar other ++ others) :
    char = other ∧ rest = others := by
  have equal : char = other := by
    cases first : isUnreserved char <;> cases second : isUnreserved other
    case false.false =>
      rw [encodeChar, first, encodeChar, second] at same
      rcases prefix_of_escapes same with begins | begins
      · exact eq_of_bytes_begin begins
      · exact (eq_of_bytes_begin begins).symm
    case false.true => exact absurd same.symm (encodeChar_append_ne second first)
    case true.false => exact absurd same (encodeChar_append_ne first second)
    case true.true =>
      rw [encodeChar, if_pos first, encodeChar, if_pos second] at same
      exact (List.cons.inj same).1
  subst equal
  exact ⟨rfl, List.append_cancel_left same⟩

end Characters

private theorem encode_cons (char : Char) (text : List Char) :
    encode (char :: text) = encodeChar char ++ encode text := List.flatMap_cons

/-- Only the empty text is encoded as nothing. -/
theorem encode_eq_nil_iff {text : List Char} : encode text = [] ↔ text = [] := by
  cases text with
  | nil => simp
  | cons char text => simp [encode_cons, encodeChar_ne_nil]

/-- Different texts are encoded differently. -/
theorem encode_injective : Function.Injective encode := by
  intro text other same
  induction text generalizing other with
  | nil => exact (encode_eq_nil_iff.mp same.symm).symm
  | cons char text ih =>
    cases other with
    | nil => exact encode_eq_nil_iff.mp same
    | cons first other =>
      rw [encode_cons, encode_cons] at same
      obtain ⟨rfl, later⟩ := encodeChar_append_inj same
      rw [ih later]

end RoutePattern.Text
