import Mathlib.Data.Nat.Digits.Defs
import ConfidentialPayment.Bytes.Hex

/-!
# ConfidentialPayment.Proofs.Bytes.Hex

What base sixteen text denotes, and which texts are read.

1. `number cs` is the number that the digits `cs` denote, by their places in the list of the
   sixteen numerals. What is written denotes the number that the bytes spell (`number_digits`).
2. Reading accepts what writing produces, in either case, and nothing else
   (`ofDigits?_eq_some_iff`).
3. A text can be read by the codes of its UTF-8 form: a character that takes several bytes is no
   digit, and neither is its last byte (`ofCodes?_ofText`).
-/

namespace ConfidentialPayment

-- What holds of all characters in a list is decided along the list.
attribute [local instance (high)] List.decidableBAll

/-! ## Byte strings -/

/-- The first byte of a big-endian string weighs most. -/
theorem Bytes.toNatBE_cons (b : UInt8) (bs : Bytes) :
    toNatBE (b :: bs) = b.toNat * 256 ^ bs.length + toNatBE bs := by
  rw [toNatBE, List.reverse_cons, toNatLE_append, List.length_reverse, ← toNatBE]
  simp only [toNatLE]
  ring

/-- The bytes of a text are the codes of its characters, one after the other. -/
theorem Bytes.ofText_eq_flatMap (text : String) :
    ofText text = text.toList.flatMap String.utf8EncodeChar := by
  conv_lhs => rw [← String.ofList_toList (s := text)]
  exact List.toList_data_toByteArray

/-- The bytes of a text are those of its characters. -/
theorem Bytes.utf8ByteSize_eq_sum (text : String) :
    text.utf8ByteSize = (text.toList.map Char.utf8Size).sum := by
  have hlength : (ofText text).length = text.utf8ByteSize := String.size_toByteArray
  rw [← hlength, ofText_eq_flatMap, List.length_flatMap]
  simp only [String.length_utf8EncodeChar]

namespace Hex

/-! ## Digits -/

/-- The numerals in the order of their values. -/
def numerals : List Char :=
  ['0', '1', '2', '3', '4', '5', '6', '7', '8', '9', 'a', 'b', 'c', 'd', 'e', 'f']

/-- The 22 digits. -/
def alphabet : List Char := numerals ++ ['A', 'B', 'C', 'D', 'E', 'F']

/-- The value of a digit is its place among the numerals. -/
def digitValue (c : Char) : ℕ := numerals.idxOf c.toLower

/-- The number that digits denote, the first one being the most significant. -/
def number (cs : List Char) : ℕ := Nat.ofDigits 16 (cs.map digitValue).reverse

theorem toNat_lt_of_mem_alphabet : ∀ c ∈ alphabet, c.toNat < 128 := by decide

/-- A digit stands for a number below sixteen. -/
theorem digitValue_lt : ∀ c ∈ alphabet, digitValue c < 16 := by decide

/-- The value of a digit, written again, is the digit in lower case. -/
theorem digit_digitValue : ∀ c ∈ alphabet, digit (digitValue c) = c.toLower := by decide

/-- Upper and lower case digits stand for the same number. -/
theorem digitValue_toLower : ∀ c ∈ alphabet, digitValue c.toLower = digitValue c := by decide

/-- Every number below sixteen has a digit. -/
theorem digit_mem_alphabet : ∀ n < 16, digit n ∈ alphabet := by decide

/-- The digit of a number stands for it. -/
theorem digitValue_digit : ∀ n < 16, digitValue (digit n) = n := by decide

/-- Digits are written in lower case. -/
theorem toLower_digit : ∀ n < 16, (digit n).toLower = digit n := by decide

/-- A character has a value exactly if it is a digit. -/
theorem value?_eq_ite (c : Char) :
    value? c = if c ∈ alphabet then some (digitValue c) else none := by
  by_cases h : c.toNat < 128
  · have hascii : ∀ n < 128, value? (Char.ofNat n) =
        if Char.ofNat n ∈ alphabet then some (digitValue (Char.ofNat n)) else none := by decide
    rw [← Char.ofNat_toNat c]
    exact hascii c.toNat h
  · have habove (d : Char) (hd : d.toNat < 128) : ¬ c ≤ d := fun hle =>
      h (Nat.lt_of_le_of_lt (UInt32.le_iff_toNat_le.mp hle) hd)
    rw [if_neg fun hmem => h (toNat_lt_of_mem_alphabet c hmem), value?,
      if_neg fun hc => habove '9' (by decide) hc.2, if_neg fun hc => habove 'f' (by decide) hc.2,
      if_neg fun hc => habove 'F' (by decide) hc.2]

/-- A text of digits has one byte for each. -/
theorem utf8ByteSize_eq_length {text : String} (h : text.toList ⊆ alphabet) :
    text.utf8ByteSize = text.toList.length := by
  have hone : ∀ c ∈ text.toList, c.utf8Size = 1 := fun c hc =>
    Char.utf8Size_eq_one_iff.mpr <|
      UInt32.le_iff_toNat_le.mpr (Nat.le_of_lt_succ (toNat_lt_of_mem_alphabet c (h hc)))
  rw [Bytes.utf8ByteSize_eq_sum, List.map_congr_left hone, List.map_const',
    List.sum_replicate_nat, Nat.mul_one]

/-! ## Numbers -/

/-- A numeral in two parts: the left one counts for as many sixteens as the right one has digits. -/
theorem number_append (cs ds : List Char) :
    number (cs ++ ds) = number cs * 16 ^ ds.length + number ds := by
  rw [number, List.map_append, List.reverse_append, Nat.ofDigits_append, List.length_reverse,
    List.length_map]
  simp only [number]
  ring

/-- Zeros in front change nothing. -/
theorem number_leftpad (n : ℕ) (cs : List Char) : number (cs.leftpad n '0') = number cs := by
  rw [List.leftpad, number, List.map_append, List.map_replicate, List.reverse_append,
    List.reverse_replicate]
  exact Nat.ofDigits_append_replicate_zero _

/-- The case of the digits does not change the number. -/
theorem number_map_toLower {cs : List Char} (h : cs ⊆ alphabet) :
    number (cs.map Char.toLower) = number cs := by
  rw [number, List.map_map, number, List.map_congr_left]
  exact fun c hc => digitValue_toLower c (h hc)

/-- Two digits are the two halves of a byte. -/
theorem number_pair (high low : Char) :
    number [high, low] = 16 * digitValue high + digitValue low := by
  simp only [number, List.map_cons, List.map_nil, List.reverse_cons, List.reverse_nil,
    List.nil_append, List.singleton_append, Nat.ofDigits_cons, Nat.ofDigits_nil]
  ring

/-! ## Writing -/

/-- The two halves of a byte are digits. -/
theorem halves_lt (b : UInt8) : b.toNat / 16 < 16 ∧ b.toNat % 16 < 16 := by
  have h : b.toNat < 256 := b.toNat_lt
  omega

/-- The first byte gives the first two digits. -/
theorem digits_cons (b : UInt8) (bs : Bytes) :
    digits (b :: bs) = digit (b.toNat / 16) :: digit (b.toNat % 16) :: digits bs := rfl

theorem length_digits (bs : Bytes) : (digits bs).length = 2 * bs.length := by
  induction bs with
  | nil => rfl
  | cons b bs ih => rw [digits_cons, List.length_cons, List.length_cons, ih, List.length_cons]; ring

theorem digits_subset_alphabet (bs : Bytes) : digits bs ⊆ alphabet := by
  induction bs with
  | nil => exact List.nil_subset _
  | cons b bs ih =>
    obtain ⟨hhigh, hlow⟩ := halves_lt b
    rw [digits_cons]
    exact List.cons_subset.mpr ⟨digit_mem_alphabet _ hhigh,
      List.cons_subset.mpr ⟨digit_mem_alphabet _ hlow, ih⟩⟩

/-- Strings are written in lower case. -/
theorem map_toLower_digits (bs : Bytes) : (digits bs).map Char.toLower = digits bs := by
  induction bs with
  | nil => rfl
  | cons b bs ih =>
    obtain ⟨hhigh, hlow⟩ := halves_lt b
    rw [digits_cons, List.map_cons, List.map_cons, ih, toLower_digit _ hhigh, toLower_digit _ hlow]

/-- What is written denotes the number that the bytes spell. -/
theorem number_digits (bs : Bytes) : number (digits bs) = Bytes.toNatBE bs := by
  induction bs with
  | nil => rfl
  | cons b bs ih =>
    obtain ⟨hhigh, hlow⟩ := halves_lt b
    have hsplit : digits (b :: bs) =
        [digit (b.toNat / 16), digit (b.toNat % 16)] ++ digits bs := rfl
    rw [hsplit, number_append, number_pair, digitValue_digit _ hhigh, digitValue_digit _ hlow,
      Nat.div_add_mod, length_digits, Nat.pow_mul, ih, Bytes.toNatBE_cons]

/-! ## Reading -/

/-- Two digits are read as the first byte, and what follows as the rest. -/
theorem ofDigits?_cons_cons {high low : Char} {cs : List Char} {bs : Bytes} :
    ofDigits? (high :: low :: cs) = some bs ↔ high ∈ alphabet ∧ low ∈ alphabet ∧
      ∃ rest, ofDigits? cs = some rest ∧
        UInt8.ofNat (16 * digitValue high + digitValue low) :: rest = bs := by
  rw [ofDigits?, value?_eq_ite, value?_eq_ite]
  by_cases hhigh : high ∈ alphabet
  · by_cases hlow : low ∈ alphabet
    · simp only [hhigh, hlow, if_true, true_and, Option.bind_eq_bind, Option.bind_some,
        Option.bind_eq_some_iff, Option.pure_def, Option.some.injEq]
    · simp [hhigh, hlow]
  · simp [hhigh]

/-- The byte of two digits is written with these digits, and it is the only one. -/
theorem ofNat_eq_iff {high low : Char} (hhigh : high ∈ alphabet) (hlow : low ∈ alphabet)
    {b : UInt8} : UInt8.ofNat (16 * digitValue high + digitValue low) = b ↔
      digit (b.toNat / 16) = high.toLower ∧ digit (b.toNat % 16) = low.toLower := by
  have hhigh' := digitValue_lt high hhigh
  have hlow' := digitValue_lt low hlow
  constructor
  · rintro rfl
    have hbyte : 16 * digitValue high + digitValue low < 256 := by omega
    rw [UInt8.toNat_ofNat_of_lt' hbyte, ← digit_digitValue high hhigh, ← digit_digitValue low hlow]
    constructor
    · congr 1
      omega
    · congr 1
      omega
  · rintro ⟨hfirst, hsecond⟩
    obtain ⟨hb, hb'⟩ := halves_lt b
    have hdiv : b.toNat / 16 = digitValue high := by
      rw [← digitValue_digit _ hb, hfirst, digitValue_toLower high hhigh]
    have hmod : b.toNat % 16 = digitValue low := by
      rw [← digitValue_digit _ hb', hsecond, digitValue_toLower low hlow]
    rw [← hdiv, ← hmod, Nat.div_add_mod, UInt8.ofNat_toNat]

/-- Reading accepts what writing produces, in either case. -/
theorem ofDigits?_eq_some_iff {cs : List Char} {bs : Bytes} :
    ofDigits? cs = some bs ↔ cs ⊆ alphabet ∧ digits bs = cs.map Char.toLower := by
  induction cs using ofDigits?.induct generalizing bs with
  | case1 => cases bs <;> simp [ofDigits?, digits]
  | case2 c =>
    have hodd : digits bs ≠ [c.toLower] := fun h => by
      have hlength := congrArg List.length h
      rw [length_digits, List.length_singleton] at hlength
      omega
    simp [ofDigits?, hodd]
  | case3 high low cs ih =>
    rw [ofDigits?_cons_cons, List.cons_subset, List.cons_subset, and_assoc, and_assoc]
    refine and_congr_right fun hhigh => and_congr_right fun hlow => ?_
    cases bs with
    | nil => simp [digits]
    | cons b bs =>
      simp only [digits_cons, List.map_cons, List.cons.injEq, ofNat_eq_iff hhigh hlow, ih]
      constructor
      · rintro ⟨rest, ⟨hcs, hdigits⟩, ⟨hfirst, hsecond⟩, rfl⟩
        exact ⟨hcs, hfirst, hsecond, hdigits⟩
      · rintro ⟨hcs, hfirst, hsecond, hdigits⟩
        exact ⟨bs, ⟨hcs, hdigits⟩, ⟨hfirst, hsecond⟩, rfl⟩

/-- What contains anything but digits is refused. -/
theorem ofDigits?_eq_none {cs : List Char} (h : ¬ cs ⊆ alphabet) : ofDigits? cs = none :=
  Option.eq_none_iff_forall_ne_some.mpr fun _ hread => h (ofDigits?_eq_some_iff.mp hread).1

/-- A string is read back from its digits. -/
theorem ofDigits?_digits (bs : Bytes) : ofDigits? (digits bs) = some bs :=
  ofDigits?_eq_some_iff.mpr ⟨digits_subset_alphabet bs, (map_toLower_digits bs).symm⟩

/-- No two strings have the same digits. -/
theorem digits_injective : Function.Injective digits := fun bs bs' h => by
  have hread := ofDigits?_digits bs
  rw [h, ofDigits?_digits] at hread
  exact (Option.some.inj hread).symm

/-- An even number of digits is read. -/
theorem exists_ofDigits?_eq {cs : List Char} {n : ℕ} (h : cs ⊆ alphabet)
    (hlength : cs.length = 2 * n) : ∃ bs, ofDigits? cs = some bs := by
  induction n generalizing cs with
  | zero =>
    obtain rfl := List.eq_nil_of_length_eq_zero hlength
    exact ⟨[], rfl⟩
  | succ n ih =>
    obtain ⟨high, low, cs, rfl⟩ : ∃ high low rest, cs = high :: low :: rest := by
      match cs, hlength with
      | high :: low :: rest, _ => exact ⟨high, low, rest, rfl⟩
    obtain ⟨hhigh, hlow, hcs⟩ : high ∈ alphabet ∧ low ∈ alphabet ∧ cs ⊆ alphabet := by
      rwa [List.cons_subset, List.cons_subset] at h
    rw [List.length_cons, List.length_cons] at hlength
    obtain ⟨bs, hbs⟩ := ih hcs (by omega)
    exact ⟨_, ofDigits?_cons_cons.mpr ⟨hhigh, hlow, bs, hbs, rfl⟩⟩

/-! ## Codes -/

/-- The characters that have the bytes of a character as their codes. -/
def codesOf (c : Char) : List Char :=
  (String.utf8EncodeChar c).map fun code => Char.ofNat code.toNat

/-- An ASCII character is its own code. -/
theorem codesOf_of_lt {c : Char} (h : c.toNat < 128) : codesOf c = [c] := by
  have hbyte : c.val.toNat ≤ 127 := Nat.le_of_lt_succ h
  rw [codesOf, String.utf8EncodeChar, if_pos hbyte, List.map_singleton,
    UInt8.toNat_ofNat_of_lt' (Nat.lt_of_le_of_lt hbyte (by decide))]
  exact congrArg (fun d => [d]) (Char.ofNat_toNat c)

/-- The last byte of a character that takes several lies above all digits. -/
theorem exists_mem_codesOf {c : Char} (h : 128 ≤ c.toNat) : ∃ d ∈ codesOf c, 128 ≤ d.toNat := by
  have hseveral : ¬ c.val.toNat ≤ 127 := Nat.not_le_of_lt h
  have hlast : UInt8.ofNat (c.val.toNat % 64 + 128) ∈ String.utf8EncodeChar c := by
    rw [String.utf8EncodeChar, if_neg hseveral]
    split_ifs <;> simp
  refine ⟨_, List.mem_map_of_mem hlast, ?_⟩
  have hbyte : c.val.toNat % 64 + 128 < 256 := by omega
  rw [UInt8.toNat_ofNat_of_lt' hbyte, Char.ofNat, dif_pos (.inl (by omega))]
  exact Nat.le_add_left 128 _

/-- Only digits are encoded by bytes that are digits. -/
theorem codesOf_subset_alphabet {c : Char} (h : codesOf c ⊆ alphabet) : c ∈ alphabet := by
  by_cases hc : c.toNat < 128
  · rw [codesOf_of_lt hc] at h
    exact h (List.mem_singleton_self c)
  · obtain ⟨d, hd, hlarge⟩ := exists_mem_codesOf (Nat.le_of_not_lt hc)
    exact absurd (toNat_lt_of_mem_alphabet d (h hd)) (Nat.not_lt_of_le hlarge)

/-- Digits are read by the codes of their text as they are read by character. -/
theorem ofCodes?_ofText (text : String) :
    ofCodes? (Bytes.ofText text) = ofDigits? text.toList := by
  rw [ofCodes?, Bytes.ofText_eq_flatMap, List.map_flatMap]
  change ofDigits? (text.toList.flatMap codesOf) = _
  by_cases h : text.toList ⊆ alphabet
  · have hsame : ∀ c ∈ text.toList, codesOf c = [c] := fun c hc =>
      codesOf_of_lt (toNat_lt_of_mem_alphabet c (h hc))
    rw [List.flatMap_def, List.map_congr_left hsame, ← List.flatMap_def, List.flatMap_singleton']
  · have hcodes : ¬ text.toList.flatMap codesOf ⊆ alphabet := fun hsub =>
      h fun c hc => codesOf_subset_alphabet fun d hd => hsub (List.mem_flatMap.mpr ⟨c, hc, hd⟩)
    rw [ofDigits?_eq_none h, ofDigits?_eq_none hcodes]

end Hex

end ConfidentialPayment
