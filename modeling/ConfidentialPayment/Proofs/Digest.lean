import Mathlib.Algebra.BigOperators.Group.List.Basic
import ConfidentialPayment.Digest
import ConfidentialPayment.Proofs.Bytes.Hex

/-!
# ConfidentialPayment.Proofs.Digest

The texts of digests.

A text is read if it has at most 64 bytes and all of its characters are digits. The digest it is
read as is written in the same digits, in lower case and behind as many zeros as are missing
(`ofText_of_subset`), so its bytes spell the number that the text denotes, and every digest reads
back from its own text.
-/

namespace ConfidentialPayment.Digest

-- What holds of all characters in a list is decided along the list.
attribute [local instance (high)] List.decidableBAll

variable {text : String} {d : Digest}

/-! ## Writing -/

/-- The text of a digest shows its last byte first. -/
theorem toList_toText (d : Digest) : d.toText.toList = Hex.digits d.bytes.reverse :=
  String.toList_ofList

/-- The text of a digest contains nothing but digits. -/
theorem toText_subset_alphabet (d : Digest) : d.toText.toList ⊆ Hex.alphabet := by
  rw [toList_toText]
  exact Hex.digits_subset_alphabet _

theorem length_toText (d : Digest) : d.toText.toList.length = maxTextLength := by
  rw [toList_toText, Hex.length_digits, List.length_reverse, d.length_bytes]
  rfl

/-- The digits of a digest denote the number that its bytes spell. -/
theorem number_toText (d : Digest) : Hex.number d.toText.toList = Bytes.toNatLE d.bytes := by
  rw [toList_toText, Hex.number_digits, Bytes.toNatBE, List.reverse_reverse]

/-- Different digests have different texts. -/
theorem toText_injective : Function.Injective toText := by
  rintro ⟨bs, hbs⟩ ⟨bs', hbs'⟩ h
  have hdigits : Hex.digits bs.reverse = Hex.digits bs'.reverse := by
    rw [← toList_toText ⟨bs, hbs⟩, h, toList_toText]
  obtain rfl := List.reverse_inj.mp (Hex.digits_injective hdigits)
  rfl

/-! ## Zeros in front -/

/-- A short text is filled up with zeros in front. -/
theorem toList_padText (text : String) :
    (padText text).toList = text.toList.leftpad maxTextLength '0' := String.toList_ofList

/-- A text that passes the length test has no more characters than bytes. -/
theorem length_padText (h : text.utf8ByteSize ≤ maxTextLength) :
    (padText text).toList.length = maxTextLength := by
  have hle : text.toList.length ≤ text.utf8ByteSize := by
    rw [Bytes.utf8ByteSize_eq_sum, ← List.length_map Char.utf8Size]
    refine List.length_le_sum_of_one_le _ fun size hsize => ?_
    obtain ⟨c, -, rfl⟩ := List.mem_map.mp hsize
    exact c.utf8Size_pos
  rw [toList_padText, List.length_leftpad]
  exact Nat.max_eq_left (hle.trans h)

/-- Filling up a text adds nothing but a digit. -/
theorem padText_subset_alphabet_iff :
    (padText text).toList ⊆ Hex.alphabet ↔ text.toList ⊆ Hex.alphabet := by
  have hzeros (n : ℕ) : List.replicate n '0' ⊆ Hex.alphabet := fun c hc =>
    List.eq_of_mem_replicate hc ▸ (by decide)
  rw [toList_padText, List.leftpad, List.append_subset]
  exact ⟨And.right, fun h => ⟨hzeros _, h⟩⟩

/-- The zeros in front have no case. -/
theorem map_toLower_padText (text : String) : (padText text).toList.map Char.toLower =
    (text.toList.map Char.toLower).leftpad maxTextLength '0' := by
  have hzero : '0'.toLower = '0' := by decide
  rw [toList_padText, List.leftpad, List.leftpad, List.map_append, List.map_replicate, hzero,
    List.length_map]

/-! ## Reading -/

/-- A text of too many bytes is refused before its characters are looked at. -/
theorem ofText_of_long (h : maxTextLength < text.utf8ByteSize) :
    ofText text = .error .digestTextTooLong := if_pos h

/-- A text of few bytes with anything but digits in it is refused. -/
theorem ofText_of_not_subset (hsize : text.utf8ByteSize ≤ maxTextLength)
    (h : ¬ text.toList ⊆ Hex.alphabet) : ofText text = .error .digestTextNotHex := by
  have hpadded : ¬ (padText text).toList ⊆ Hex.alphabet := fun hsub =>
    h (padText_subset_alphabet_iff.mp hsub)
  rw [ofText, if_neg (Nat.not_lt_of_le hsize), Hex.ofCodes?_ofText, Hex.ofDigits?_eq_none hpadded]

/-- Digits are read as the digest that is written with them. -/
theorem ofText_of_subset (hsize : text.utf8ByteSize ≤ maxTextLength)
    (h : text.toList ⊆ Hex.alphabet) : ∃ d, ofText text = .ok d ∧
      d.toText.toList = (text.toList.map Char.toLower).leftpad maxTextLength '0' := by
  obtain ⟨bs, hbs⟩ := Hex.exists_ofDigits?_eq (n := byteLength)
    (padText_subset_alphabet_iff.mpr h) (length_padText hsize)
  have hdigits := (Hex.ofDigits?_eq_some_iff.mp hbs).2
  have hlength : bs.reverse.length = byteLength := by
    have hdouble := congrArg List.length hdigits
    rw [Hex.length_digits, List.length_map, length_padText hsize, maxTextLength] at hdouble
    rw [List.length_reverse]
    omega
  refine ⟨⟨bs.reverse, hlength⟩, ?_, ?_⟩
  · rw [ofText, if_neg (Nat.not_lt_of_le hsize), Hex.ofCodes?_ofText, hbs]
    exact dif_pos hlength
  · rw [toList_toText, List.reverse_reverse, hdigits, map_toLower_padText]

/-- A digest is read back from its text. -/
theorem ofText_toText (d : Digest) : ofText d.toText = .ok d := by
  have hsub := toText_subset_alphabet d
  have hlength := length_toText d
  have hsize : d.toText.utf8ByteSize ≤ maxTextLength :=
    ((Hex.utf8ByteSize_eq_length hsub).trans hlength).le
  obtain ⟨d', hread, hdigits⟩ := ofText_of_subset hsize hsub
  rw [hread]
  refine congrArg Except.ok (toText_injective (String.toList_inj.mp ?_))
  rw [hdigits, List.leftpad, List.length_map, hlength, Nat.sub_self, toList_toText,
    Hex.map_toLower_digits]
  rfl

/-- How reading ends: for texts that are too long, for texts of digits, and for all others. -/
theorem ofText_cases (text : String) :
    ((∃ d, ofText text = .ok d) ↔
      text.utf8ByteSize ≤ maxTextLength ∧ text.toList ⊆ Hex.alphabet) ∧
    (ofText text = .error .digestTextTooLong ↔ maxTextLength < text.utf8ByteSize) ∧
    (ofText text = .error .digestTextNotHex ↔
      text.utf8ByteSize ≤ maxTextLength ∧ ¬ text.toList ⊆ Hex.alphabet) := by
  by_cases hlong : maxTextLength < text.utf8ByteSize
  · rw [ofText_of_long hlong]
    simp [hlong]
  have hsize := Nat.le_of_not_lt hlong
  by_cases h : text.toList ⊆ Hex.alphabet
  · obtain ⟨d, hd, -⟩ := ofText_of_subset hsize h
    rw [hd]
    simp [h, hlong, hsize]
  · rw [ofText_of_not_subset hsize h]
    simp [h, hlong, hsize]

/-- A digest shows the text that it was read from, filled up and in lower case. -/
theorem toText_of_ofText (h : ofText text = .ok d) :
    d.toText.toList = (text.toList.map Char.toLower).leftpad maxTextLength '0' := by
  obtain ⟨hsize, hsub⟩ := (ofText_cases text).1.mp ⟨d, h⟩
  obtain ⟨d', hd', hdigits⟩ := ofText_of_subset hsize hsub
  obtain rfl : d' = d := Except.ok.inj (hd'.symm.trans h)
  exact hdigits

/-- The bytes of a digest spell the number of the text that it is read from. -/
theorem toNatLE_of_ofText (h : ofText text = .ok d) :
    Bytes.toNatLE d.bytes = Hex.number text.toList := by
  have hsub := ((ofText_cases text).1.mp ⟨d, h⟩).2
  rw [← number_toText, toText_of_ofText h, Hex.number_leftpad, Hex.number_map_toLower hsub]

/-! ## Texts and digests -/

/-- Which texts are read and which refusal the others get; what a text is read as, namely the
digest that spells its number and is written in its digits; and that every digest reads back. -/
theorem ofText_reads_numbers :
    (∀ text,
      ((∃ d, ofText text = .ok d) ↔ text.utf8ByteSize ≤ 64 ∧ ∀ c ∈ text.toList, c ∈ Hex.alphabet) ∧
      (ofText text = .error .digestTextTooLong ↔ 64 < text.utf8ByteSize) ∧
      (ofText text = .error .digestTextNotHex ↔
        text.utf8ByteSize ≤ 64 ∧ ¬ ∀ c ∈ text.toList, c ∈ Hex.alphabet)) ∧
    (∀ text d, ofText text = .ok d →
      d.bytes = Bytes.ofNatLE 32 (Hex.number text.toList) ∧
      Bytes.toNatLE d.bytes = Hex.number text.toList ∧
      d.toText = String.ofList ((text.toList.map Char.toLower).leftpad 64 '0')) ∧
    ∀ d : Digest, ofText d.toText = .ok d := by
  refine ⟨ofText_cases, fun text d h => ?_, ofText_toText⟩
  have hnumber := toNatLE_of_ofText h
  have hbytes := Bytes.ofNatLE_toNatLE d.bytes
  rw [d.length_bytes, hnumber] at hbytes
  exact ⟨hbytes.symm, hnumber, String.toList_inj.mp <| by
    rw [toText_of_ofText h, String.toList_ofList]
    rfl⟩

/-- An odd number of digits in both cases, no digits at all, and characters of two bytes. -/
theorem ofText_reads_numbers_odd :
    (∃ d, ofText "aFc" = .ok d ∧ d.bytes = 0xfc :: 0x0a :: List.replicate 30 0 ∧
      d.toText = String.ofList (List.replicate 61 '0' ++ ['a', 'f', 'c'])) ∧
    (∃ d, ofText "" = .ok d ∧ d.bytes = List.replicate 32 0) ∧
    ofText "éa" = .error .digestTextNotHex ∧
    ofText "ééééééééééééééééééééééééééééééééé" = .error .digestTextTooLong := by
  obtain ⟨hcases, hread, -⟩ := ofText_reads_numbers
  obtain ⟨d, hd⟩ := (hcases "aFc").1.mpr (by decide)
  obtain ⟨z, hz⟩ := (hcases "").1.mpr (by decide)
  obtain ⟨hbytes, -, htext⟩ := hread "aFc" d hd
  exact ⟨⟨d, hd, hbytes.trans (by decide), htext.trans (by decide)⟩,
    ⟨z, hz, (hread "" z hz).1.trans (by decide)⟩,
    (hcases _).2.2.mpr (by decide), (hcases _).2.1.mpr (by decide)⟩

end ConfidentialPayment.Digest
