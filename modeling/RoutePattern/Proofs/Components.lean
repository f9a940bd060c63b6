import RoutePattern.Arguments
import RoutePattern.Proofs.Decoding
import RoutePattern.Proofs.Replacement
import RoutePattern.Text.Blank

/-! What a component of an address consists of: characters that stand for themselves, and percent
signs with two digits behind each. So none of the signs that an address is divided by comes out of
a value, and no white space. Encoding goes through a text character by character and can be
undone, which makes it a homomorphism that tells texts apart; of a value that is not a text it
takes the text that the value is spoken as. -/
namespace RoutePattern.Text

/-- Letters, digits and the marks that stand for themselves in a component. -/
def plainSigns : List Char :=
  "ABCDEFGHIJKLMNOPQRSTUVWXYZabcdefghijklmnopqrstuvwxyz0123456789-_.!~*\x27()".toList

/-- Hexadecimal digits in upper case. -/
def hexSigns : List Char := "0123456789ABCDEF".toList

/-- A row of plain signs and of percent signs with two hexadecimal digits each. -/
inductive IsComponent : List Char → Prop where
  | nil : IsComponent []
  | plain {char : Char} {rest : List Char} (known : char ∈ plainSigns)
      (more : IsComponent rest) : IsComponent (char :: rest)
  | escape {high low : Char} {rest : List Char} (first : high ∈ hexSigns)
      (second : low ∈ hexSigns) (more : IsComponent rest) :
      IsComponent ('%' :: high :: low :: rest)

section Signs
variable {char : Char} {text others : List Char}

private theorem lt_of_isUnreserved (unreserved : isUnreserved char = true) : char.toNat < 128 := by
  simp only [isUnreserved, Bool.or_eq_true, List.contains_iff_mem] at unreserved
  rcases unreserved with alphanumeric | mark
  · exact lt_of_isAlphanum alphanumeric
  · have all : ("_.-~!*\x27()".toList.all fun mark => mark.toNat < 128) = true := by decide
    simpa using List.all_eq_true.mp all char mark

/-- The characters that stand for themselves, one by one. -/
theorem mem_plainSigns_of_isUnreserved (unreserved : isUnreserved char = true) :
    char ∈ plainSigns := by
  have range : ∀ n < 128, isUnreserved (Char.ofNat n) = true → Char.ofNat n ∈ plainSigns := by
    decide +kernel
  have here : isUnreserved char = true → char ∈ plainSigns :=
    of_ascii char (lt_of_isUnreserved unreserved) range
  exact here unreserved

private theorem upperHexDigit_mem_hexSigns {n : Nat} (small : n < 16) :
    upperHexDigit n ∈ hexSigns := by
  have all : ∀ digit < 16, upperHexDigit digit ∈ hexSigns := by decide
  exact all n small

private theorem IsComponent.append (first : IsComponent text) (second : IsComponent others) :
    IsComponent (text ++ others) := by
  induction first with
  | nil => exact second
  | plain known _ ih => exact .plain known ih
  | escape first second _ ih => exact .escape first second ih

private theorem isComponent_flatMap {α : Type} {list : List α} {written : α → List Char}
    (each : ∀ item ∈ list, IsComponent (written item)) : IsComponent (list.flatMap written) := by
  induction list with
  | nil => exact .nil
  | cons item list ih =>
    rw [List.flatMap_cons]
    exact (each item (by simp)).append (ih fun other member => each other (by simp [member]))

private theorem isComponent_escapeByte (byte : UInt8) : IsComponent (escapeByte byte) := by
  have bound := byte.toNat_lt
  exact .escape (upperHexDigit_mem_hexSigns (by omega)) (upperHexDigit_mem_hexSigns (by omega)) .nil

private theorem isComponent_encodeChar (char : Char) : IsComponent (encodeChar char) := by
  rw [encodeChar]
  split
  · rename_i unreserved
    exact .plain (mem_plainSigns_of_isUnreserved unreserved) .nil
  · exact isComponent_flatMap fun byte _ => isComponent_escapeByte byte

private theorem isComponent_encode (text : List Char) : IsComponent (encode text) :=
  isComponent_flatMap fun char _ => isComponent_encodeChar char

/-- Of a row of plain signs and escapes each character is a plain sign or a percent sign. -/
theorem IsComponent.mem (component : IsComponent text) (member : char ∈ text) :
    char ∈ '%' :: plainSigns := by
  have digits : hexSigns ⊆ '%' :: plainSigns := by decide +kernel
  induction component with
  | nil => cases member
  | plain known _ ih =>
    rcases List.mem_cons.mp member with rfl | member
    · exact List.mem_cons_of_mem _ known
    · exact ih member
  | escape first second _ ih =>
    rcases List.mem_cons.mp member with rfl | member
    · exact List.mem_cons_self
    · rcases List.mem_cons.mp member with rfl | member
      · exact digits first
      · rcases List.mem_cons.mp member with rfl | member
        · exact digits second
        · exact ih member

/-- No sign that an address is divided by, and no white space. -/
theorem IsComponent.clear (component : IsComponent text) (member : char ∈ text) :
    char ∉ ":/?#&=".toList ∧ isBlank char = false := by
  have all : (('%' :: plainSigns).all fun sign =>
      !":/?#&=".toList.contains sign && !isBlank sign) = true := by decide +kernel
  simpa using List.all_eq_true.mp all char (component.mem member)

end Signs

end RoutePattern.Text

namespace RoutePattern
open Text

/-- Encoding is safe and loses nothing. What comes of any value is a row of plain signs and of
escapes, without the signs that an address is divided by and without white space; texts put
together are encoded as their components put together; no two texts have the same component; and
a value has the component of the text that it is spoken as. -/
theorem component_is_safe_and_lossless (first second : String) (value : Value) :
    IsComponent (component value) ∧
    (∀ char ∈ component value, char ∉ ":/?#&=".toList ∧ isBlank char = false) ∧
    component (.text (first ++ second)) = component (.text first) ++ component (.text second) ∧
    (component (.text first) = component (.text second) ↔ first = second) ∧
    component value = component (.text (String.ofList value.spoken)) := by
  refine ⟨isComponent_encode _, fun _ => (isComponent_encode _).clear, ?_, ?_, ?_⟩
  · have joined : (Value.text (first ++ second)).spoken = first.toList ++ second.toList :=
      String.toList_append
    rw [component, joined, encode_append]
    rfl
  · constructor
    · exact fun same => String.toList_inj.mp (encode_injective same)
    · exact congrArg fun text => component (.text text)
  · have spoken : (Value.text (String.ofList value.spoken)).spoken = value.spoken :=
      String.toList_ofList
    rw [component, component, spoken]

end RoutePattern
