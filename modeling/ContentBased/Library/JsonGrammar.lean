import ContentBased.Library.Decimal

/-! The grammar of JSON texts. A string stands for itself as it is written between its quotes. -/
namespace JsonGrammar
open Decimal

inductive Value where
  | null
  | bool (value : Bool)
  | number (value : ℚ)
  | string (raw : Bytes)
  | array (items : List Value)
  | object (members : List (Bytes × Value))

def Space (bytes : Bytes) : Prop := ∀ byte ∈ bytes, byte ∈ [(9 : UInt8), 10, 13, 32]

def Digits (bytes : Bytes) : Prop := bytes ≠ [] ∧ ∀ byte ∈ bytes, isDigit byte = true

/-- Digits without a zero before the others. -/
structure Whole (bytes : Bytes) : Prop where
  digits : Digits bytes
  zero : bytes.head? = some 48 → bytes = [48]

inductive Unsigned : Bytes → ℚ → Prop
  | whole {text} : Whole text → Unsigned text (number text)
  | fraction {text more} : Whole text → Digits more →
      Unsigned (text ++ 46 :: more) (number text + number more / 10 ^ more.length)

inductive Signed : Bytes → ℚ → Prop
  | plain {text value} : Unsigned text value → Signed text value
  | minus {text value} : Unsigned text value → Signed (45 :: text) (-value)

inductive Number : Bytes → ℚ → Prop
  | plain {text value} : Signed text value → Number text value
  | exponent {text value mark sign digits} : Signed text value → mark ∈ [(69 : UInt8), 101] → sign ∈ [[], [(43 : UInt8)]] →
      Digits digits → Number (text ++ mark :: (sign ++ digits)) (value * 10 ^ number digits)
  | fall {text value mark digits} : Signed text value → mark ∈ [(69 : UInt8), 101] → Digits digits →
      Number (text ++ mark :: 45 :: digits) (value / 10 ^ number digits)

def isHex (byte : UInt8) : Bool := isDigit byte || 65 ≤ byte && byte ≤ 70 || 97 ≤ byte && byte ≤ 102

/-- What stands between the quotes of a string. -/
inductive Chars : Bytes → Prop
  | nil : Chars []
  | plain {byte rest} : 32 ≤ byte → byte ≠ 34 → byte ≠ 92 → Chars rest → Chars (byte :: rest)
  | escape {byte rest} : byte ∈ [(34 : UInt8), 47, 92, 98, 102, 110, 114, 116] → Chars rest → Chars (92 :: byte :: rest)
  | unicode {a b c d rest} : isHex a ∧ isHex b ∧ isHex c ∧ isHex d → Chars rest →
      Chars (92 :: 117 :: a :: b :: c :: d :: rest)

mutual

inductive Denotes : Bytes → Value → Prop
  | null : Denotes "null".toUTF8.data.toList .null
  | true_ : Denotes "true".toUTF8.data.toList (.bool true)
  | false_ : Denotes "false".toUTF8.data.toList (.bool false)
  | number {text value} : Number text value → Denotes text (.number value)
  | string {raw} : Chars raw → Denotes (34 :: raw ++ [34]) (.string raw)
  | noItem {space} : Space space → Denotes (91 :: space ++ [93]) (.array [])
  | array {text items} : Items text items → Denotes (91 :: text ++ [93]) (.array items)
  | noMember {space} : Space space → Denotes (123 :: space ++ [125]) (.object [])
  | object {text members} : Members text members → Denotes (123 :: text ++ [125]) (.object members)

inductive Items : Bytes → List Value → Prop
  | one {before text after value} : Space before → Denotes text value → Space after →
      Items (before ++ text ++ after) [value]
  | more {before text after value rest values} : Space before → Denotes text value → Space after → Items rest values →
      Items (before ++ text ++ after ++ 44 :: rest) (value :: values)

inductive Members : Bytes → List (Bytes × Value) → Prop
  | one {a key b c text d value} : Space a → Chars key → Space b → Space c → Denotes text value → Space d →
      Members (a ++ 34 :: key ++ 34 :: b ++ 58 :: c ++ text ++ d) [(key, value)]
  | more {a key b c text d value rest members} : Space a → Chars key → Space b → Space c → Denotes text value → Space d →
      Members rest members →
      Members (a ++ 34 :: key ++ 34 :: b ++ 58 :: c ++ text ++ d ++ 44 :: rest) ((key, value) :: members)

end

/-- A whole text: a value with white space around it. -/
def Document (text : Bytes) (value : Value) : Prop :=
  ∃ before body after, text = before ++ body ++ after ∧ Space before ∧ Denotes body value ∧ Space after

/-- The last byte of a text that is an object is a closing brace or white space. -/
theorem Document.last_of_object {text : Bytes} {members : List (Bytes × Value)} (document : Document text (.object members)) :
    ∃ last ∈ text.getLast?, last = 125 ∨ last ∈ [(9 : UInt8), 10, 13, 32] := by
  obtain ⟨before, body, after, rfl, -, denotes, space⟩ := document
  have brace : ∃ inner, body = inner ++ [125] := by
    cases denotes with
    | noMember _ => exact ⟨_, rfl⟩
    | object _ => exact ⟨_, rfl⟩
  obtain ⟨inner, rfl⟩ := brace
  rcases List.eq_nil_or_concat after with rfl | ⟨rest, last, rfl⟩
  · exact ⟨125, by simp, .inl rfl⟩
  · have ends : (before ++ (inner ++ [125]) ++ rest.concat last).getLast? = some last := by
      rw [List.concat_eq_append, ← List.append_assoc, List.getLast?_concat]
    exact ⟨last, ends, .inr (space last (by simp))⟩

theorem whole_digits (n : Nat) : Whole (digits n) := by
  refine ⟨⟨?_, digits_isDigit n⟩, fun zero => ?_⟩
  · obtain ⟨d, rest, text, -⟩ := digits_head n
    rw [text]
    exact List.cons_ne_nil _ _
  · unfold digits at zero ⊢
    split at zero
    · rename_i none_
      rw [if_pos none_]
      rfl
    · rename_i positive
      have nonempty : Nat.digits 10 n ≠ [] := Nat.digits_ne_nil_iff_ne_zero.mpr positive
      have top := Nat.getLast_digit_ne_zero 10 positive
      have small : (Nat.digits 10 n).getLast nonempty < 10 := Nat.digits_lt_base (by decide) (List.getLast_mem nonempty)
      rw [List.head?_map, List.head?_reverse, List.getLast?_eq_getLast_of_ne_nil nonempty, Option.map_some] at zero
      have value := digitByte_toNat small
      rw [Option.some.inj zero] at value
      exact absurd (Nat.add_left_cancel (value.symm : 48 + _ = 48 + 0)) top

theorem denotes_digits (n : Nat) : Denotes (digits n) (.number n) := by
  have number := Denotes.number (.plain (.plain (.whole (whole_digits n))))
  rwa [number_digits] at number

theorem denotes_decimal (n : Int) : Denotes (decimal n) (.number n) := by
  unfold decimal
  split
  · rename_i negative
    have magnitude : (n : ℚ) = -(n.natAbs : ℚ) := by rw [Nat.cast_natAbs, abs_of_neg negative, Int.cast_neg, neg_neg]
    have number := Denotes.number (.plain (.minus (.whole (whole_digits n.natAbs))))
    rwa [number_digits, ← magnitude] at number
  · rename_i nonneg
    have magnitude : (n : ℚ) = (n.natAbs : ℚ) := by rw [Nat.cast_natAbs, abs_of_nonneg (not_lt.mp nonneg)]
    rw [magnitude]
    exact denotes_digits n.natAbs

end JsonGrammar
