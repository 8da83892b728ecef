import ConfidentialPayment.Text.Unreadable

/-!
# ConfidentialPayment.Text.Quoted

Quoted texts, as messages show them.

A quotation mark or a backslash inside stands behind a backslash; line feed, carriage return, tab
and the null character have letters; every other character that cannot be read where it stands,
because it puts nothing on the page, may be left out of it or has no cell of its own there, is
given by its code point in base sixteen. All other characters are themselves; in ASCII that is from
the space to the tilde, by `isReadable_iff_of_ascii`.
-/

namespace ConfidentialPayment.Text

/-- The letter that stands for a character behind a backslash. -/
def escapeLetter? : Char → Option Char
  | '"' => some '"'
  | '\\' => some '\\'
  | '\n' => some 'n'
  | '\r' => some 'r'
  | '\t' => some 't'
  | '\x00' => some '0'
  | _ => none

/-- A character that joins the one before it and has no cell of its own. -/
def isJoined (c : Char) : Bool := graphemeExtend.contains c && !halfwidthSoundMark.contains c

/-- Whether a character can be read inside a quoted text. -/
def isReadable (c : Char) : Bool :=
  !unprintable.contains c && !defaultIgnorable.contains c && !isJoined c

/-- A character by its code point: lower case digits of base sixteen, without leading zeros. -/
def codePoint (c : Char) : List Char :=
  ['\\', 'u', '\x7b'] ++ Nat.toDigits 16 c.toNat ++ ['\x7d']

/-- A character inside a quoted text. -/
def quotedChar (c : Char) : List Char :=
  match escapeLetter? c with
  | some letter => ['\\', letter]
  | none => if isReadable c then [c] else codePoint c

/-- A text in quotation marks. -/
def quote (text : String) : String :=
  String.ofList ('"' :: text.toList.flatMap quotedChar ++ ['"'])

/-- In ASCII the characters that can be read are those from the space to the tilde. -/
theorem isReadable_iff_of_ascii {c : Char} (h : c.toNat < 128) :
    isReadable c = true ↔ 32 ≤ c.toNat ∧ c.toNat ≠ 127 := by
  have control := unprintable_ascii ⟨c.toNat, h⟩
  have kept := defaultIgnorable_ascii ⟨c.toNat, h⟩
  have alone := graphemeExtend_ascii ⟨c.toNat, h⟩
  simp only [Char.ofNat_toNat] at control kept alone
  rw [isReadable, isJoined, kept, alone, Bool.false_and, Bool.not_false, Bool.and_true,
    Bool.and_true, Bool.not_eq_true', Bool.eq_false_iff, ne_eq, control, Fin.lt_def, Fin.ext_iff]
  change ¬(c.toNat < 32 ∨ c.toNat = 127) ↔ _
  omega

end ConfidentialPayment.Text
