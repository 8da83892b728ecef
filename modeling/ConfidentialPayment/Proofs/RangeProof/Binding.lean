import ConfidentialPayment.Proofs.RangeProof.Completeness
import ConfidentialPayment.Proofs.Transcript

/-!
# ConfidentialPayment.Proofs.RangeProof.Binding

What the challenges of a range proof say about its commitments.

The transcript has the padded commitments and their padded number, and not the number of values. So
the challenges bind the commitments up to neutral ones at the end.

1. `padded_zero_eq_iff`: lists have the same padding if they are padded to the same length and one
   of them is the other one with neutral points behind it.
2. `Proof.opening_eq_iff`: the transcripts before the first challenge agree exactly for such
   commitments and the same first move.
3. A proof is accepted together with every proof that differs from it in such commitments only
   (`Proof.verify_eq_ok_iff_of_padded_eq`), so it is accepted for different numbers of values
   (`Proof.opening_binds_up_to_neutral`).
-/

namespace ConfidentialPayment

variable {P : Type} [Suite P]

namespace RangeProof

/-! ## Padded lists -/

/-- Neutral points behind a list do not show in its padding, as long as the length of the padding is
the same. -/
theorem padded_append_replicate {α : Type} (filler : α) (xs : List α) {k : ℕ}
    (hpad : pad (xs.length + k) = pad xs.length) :
    padded filler (xs ++ List.replicate k filler) = padded filler xs := by
  have hle : xs.length + k ≤ pad xs.length := hpad ▸ le_pad (xs.length + k)
  have hlength : (xs ++ List.replicate k filler).length = xs.length + k := by simp
  rw [padded, padded, hlength, hpad, List.append_assoc, List.replicate_append_replicate]
  congr 2
  omega

/-- Lists have the same padding exactly if they are padded to the same length and one of them is the
other one with a part of the padding behind it. -/
theorem padded_eq_iff {α : Type} {filler : α} {xs ys : List α} :
    padded filler xs = padded filler ys ↔ pad xs.length = pad ys.length ∧
      ∃ k, ys = xs ++ List.replicate k filler ∨ xs = ys ++ List.replicate k filler := by
  constructor
  · intro h
    have hpad : pad xs.length = pad ys.length := by
      rw [← length_padded filler xs, h, length_padded]
    have hfiller {m n : ℕ} {zs : List α} (hzs : List.replicate m filler =
        zs ++ List.replicate n filler) : zs = List.replicate zs.length filler :=
      (List.append_eq_replicate_iff.mp hzs.symm).2.1
    rcases List.append_eq_append_iff.mp h with ⟨zs, hys, hzs⟩ | ⟨zs, hxs, hzs⟩
    · exact ⟨hpad, zs.length, .inl (hfiller hzs ▸ hys)⟩
    · exact ⟨hpad, zs.length, .inr (hfiller hzs ▸ hxs)⟩
  · rintro ⟨hpad, k, rfl | rfl⟩
    · rw [List.length_append, List.length_replicate] at hpad
      exact (padded_append_replicate filler xs hpad.symm).symm
    · rw [List.length_append, List.length_replicate] at hpad
      exact padded_append_replicate filler ys hpad

/-- There is nothing behind a list that has the same length, or that does not end with the
filler. -/
theorem eq_of_append_replicate {α : Type} {filler : α} {xs ys : List α} {k : ℕ}
    (h : xs = ys ++ List.replicate k filler)
    (hends : xs.length = ys.length ∨ xs.getLast? ≠ some filler) : xs = ys := by
  cases k with
  | zero => simpa using h
  | succ k =>
    rcases hends with hlength | hlast
    · rw [h, List.length_append, List.length_replicate] at hlength
      omega
    · exact absurd (by simp [h, List.replicate_succ']) hlast

/-! ## Openings -/

/-- The transcript that the first challenge of a proof is drawn from. -/
def Proof.opening (table : GeneratorTable P) (proof : Proof P) : Transcript :=
  (openTranscript table (padded 0 proof.commitments)).absorbPoint "A" proof.vectors.digits
    |>.absorbPoint "S" proof.vectors.masks

variable {table : GeneratorTable P} {p q : Proof P}

/-- The first challenge is drawn right after the commitments and the masked digits. -/
theorem Proof.challenge_y (proof : Proof P) :
    (proof.challenges table).1.y = Suite.challenge P (proof.opening table) "y" := rfl

/-- Four messages, the number of padded commitments, each of them, and the first move. -/
theorem Proof.entries_opening (proof : Proof P) :
    (proof.opening table).entries =
      [.message "dom-sep" (Bytes.ofText "rangeproof v1"), .message "n" (Bytes.ofNatLE 8 bitCount),
        .message "m" (Bytes.ofNatLE 8 (padded 0 proof.commitments).length),
        .message "gens" table.digest,
        .message "V" (Bytes.ofNatLE 8 (padded 0 proof.commitments).length)] ++
      (padded 0 proof.commitments).map (fun p => .message "V" (Suite.encode p)) ++
      [.message "A" (Suite.encode proof.vectors.digits),
        .message "S" (Suite.encode proof.vectors.masks)] := by
  rw [opening, Transcript.absorbPoint, Transcript.absorbPoint, Transcript.entries_absorb,
    Transcript.entries_absorb, openTranscript, Transcript.entries_absorbPoints]
  simp [Transcript.openRangeProof, Transcript.absorbNat, Transcript.absorb, Transcript.record,
    Transcript.start]

/-- The padded commitments and the first move can be read off an opening. -/
theorem Proof.padded_eq_of_opening_eq [LawfulEncoding P] (h : p.opening table = q.opening table) :
    padded 0 p.commitments = padded 0 q.commitments ∧ p.vectors = q.vectors := by
  have hpoint (label : String) :
      Function.Injective fun a : P => Transcript.Entry.message label (Suite.encode a) :=
    fun a b hab => LawfulEncoding.encode_injective (Transcript.Entry.message.inj hab).2
  have hentries := congrArg Transcript.entries h
  rw [entries_opening, entries_opening] at hentries
  -- In front of the padded commitments and behind them, both have the same number of messages.
  obtain ⟨hfront, hmove⟩ := List.append_inj' hentries rfl
  obtain ⟨-, hpadded⟩ := List.append_inj hfront rfl
  obtain ⟨hdigits, hmasks⟩ := List.cons.inj hmove
  refine ⟨List.map_injective_iff.mpr (hpoint "V") hpadded, ?_⟩
  exact (VectorCommitment.mk.injEq ..).mpr
    ⟨hpoint "A" hdigits, hpoint "S" (List.cons.inj hmasks).1⟩

/-- Openings agree exactly for the same first move and commitments that are the same up to neutral
ones at the end, within the same padding. -/
theorem Proof.opening_eq_iff [LawfulEncoding P] : p.opening table = q.opening table ↔
    p.vectors = q.vectors ∧ pad p.commitments.length = pad q.commitments.length ∧
      ∃ k, q.commitments = p.commitments ++ List.replicate k 0 ∨
        p.commitments = q.commitments ++ List.replicate k 0 := by
  rw [← padded_eq_iff]
  constructor
  · intro h
    exact (padded_eq_of_opening_eq h).symm
  · rintro ⟨hvectors, hpadded⟩
    rw [opening, opening, hvectors, hpadded]

/-! ## Acceptance -/

/-- Commitments with the same padding are accepted together. -/
theorem Proof.verify_eq_ok_iff_of_padded_eq {gens : Generators P} {commitments : List P}
    (hpadded : padded 0 commitments = padded 0 p.commitments)
    (hp : 0 < p.commitments.length ∧ p.commitments.length ≤ maxValues)
    (hcommitments : 0 < commitments.length ∧ commitments.length ≤ maxValues) :
    Proof.verify gens table { p with commitments := commitments } = .ok () ↔
      p.verify gens table = .ok () := by
  have hpad : pad commitments.length = pad p.commitments.length := by
    rw [← length_padded 0 commitments, hpadded, length_padded]
  have hlength : vectorLength commitments.length = vectorLength p.commitments.length := by
    rw [vectorLength, vectorLength, hpad]
  have hrounds : roundCount commitments.length = roundCount p.commitments.length := by
    refine Nat.pow_right_injective (le_refl 2) ?_
    change 2 ^ roundCount _ = 2 ^ roundCount _
    rw [← vectorLength_eq, ← vectorLength_eq, hlength]
  have hchallenges : Proof.challenges table { p with commitments := commitments } =
      p.challenges table := by
    simp only [challenges, hpadded]
  have hshape : checkShape table { p with commitments := commitments } = .ok () ↔
      checkShape table p = .ok () := by
    simp only [checkShape_eq_ok_iff, hlength, hrounds, hp, hcommitments]
  -- What else is checked is about the padded commitments and their number.
  rw [verify_eq_ok_iff, verify_eq_ok_iff, hshape, hchallenges]
  simp only [commitmentEquation, verifyArgument, hpadded, hlength]

/-- An accepted proof about three values. -/
theorem exists_accepted_three : ∃ p : Proof Logarithm,
    p.commitments = valueCommitments .logarithms [5, 6, 7] [1, 2, 3] ∧
      p.verify .logarithms (.neutral Logarithm 256) = .ok () := by
  obtain ⟨w, hw⟩ : ∃ w, Witness.make [5, 6, 7] [1, 2, 3] = .ok w := ⟨_, rfl⟩
  obtain ⟨hvalues, hblindings⟩ := w.make_eq_ok hw
  have hcapacity : w.vectorLength ≤ (GeneratorTable.neutral Logarithm 256).capacity := by
    rw [Witness.vectorLength, hvalues, GeneratorTable.capacity_neutral]
    decide
  obtain ⟨p, -, -, hcommitments, haccepted⟩ :=
    w.prove_ensures .logarithms (.neutral Logarithm 256) hcapacity (.ofCycle [])
  obtain ⟨hy, hxs⟩ := challenges_ne_zero (fun _ _ => one_ne_zero) (.neutral Logarithm 256) p
  exact ⟨p, hvalues ▸ hblindings ▸ hcommitments, haccepted hy hxs⟩

/-- The challenges of a range proof bind its commitments up to neutral ones at the end. They are
drawn from an opening, and openings over a table agree exactly if the first moves do and the
commitments are padded to the same length and differ in neutral ones at the end only. So different
commitments have different openings if they are as many or if both end with one that is not neutral;
but a proof is accepted exactly if it is with such neutral commitments behind its own, whose number
the opening does not tell. -/
theorem Proof.opening_binds_up_to_neutral [LawfulEncoding P] (gens : Generators P)
    (table : GeneratorTable P) (p q : Proof P) :
    (p.challenges table).1.y = Suite.challenge P (p.opening table) "y" ∧
    (p.opening table = q.opening table ↔
      p.vectors = q.vectors ∧ pad p.commitments.length = pad q.commitments.length ∧
        ∃ k, q.commitments = p.commitments ++ List.replicate k 0 ∨
          p.commitments = q.commitments ++ List.replicate k 0) ∧
    (p.opening table = q.opening table →
      p.commitments.length = q.commitments.length ∨
        p.commitments.getLast? ≠ some 0 ∧ q.commitments.getLast? ≠ some 0 →
      p.commitments = q.commitments) ∧
    ∀ k, 1 ≤ p.commitments.length → p.commitments.length + k ≤ 32 →
      pad (p.commitments.length + k) = pad p.commitments.length →
      let extended := { p with commitments := p.commitments ++ List.replicate k 0 }
      extended.opening table = p.opening table ∧
        (extended.verify gens table = .ok () ↔ p.verify gens table = .ok ()) := by
  refine ⟨p.challenge_y, opening_eq_iff, fun h hends => ?_, fun k hpos hle hpad => ?_⟩
  · obtain ⟨-, -, k, hq | hp⟩ := opening_eq_iff.mp h
    · exact (eq_of_append_replicate hq (hends.imp Eq.symm And.right)).symm
    · exact eq_of_append_replicate hp (hends.imp id And.left)
  · intro extended
    have hpadded : padded 0 extended.commitments = padded 0 p.commitments :=
      padded_append_replicate 0 p.commitments hpad
    have hlength : extended.commitments.length = p.commitments.length + k := by simp [extended]
    refine ⟨?_, verify_eq_ok_iff_of_padded_eq hpadded ⟨hpos, Nat.le_of_add_right_le hle⟩ ?_⟩
    · rw [opening, opening, hpadded]
    · exact hlength ▸ ⟨by omega, hle⟩

/-- An honest proof about three values is one about four, of which the last is neutral, and none
about the same values in another order. -/
theorem Proof.opening_binds_up_to_neutral_three :
    let table := GeneratorTable.neutral Logarithm 256
    ∃ p : Proof Logarithm, p.commitments.length = 3 ∧
      (let q := { p with commitments := p.commitments ++ [0] }
       q.opening table = p.opening table ∧ q.verify .logarithms table = .ok ()) ∧
      let q := { p with commitments := p.commitments.reverse }
      q.opening table ≠ p.opening table := by
  intro table
  obtain ⟨p, hcommitments, haccepted⟩ := exists_accepted_three
  have hlength : p.commitments.length = 3 := by
    rw [hcommitments]
    rfl
  obtain ⟨-, -, -, hextended⟩ := opening_binds_up_to_neutral .logarithms table p p
  obtain ⟨hopening, hverify⟩ := hextended 1 (by omega) (by omega) (by rw [hlength]; decide)
  refine ⟨p, hlength, ⟨hopening, hverify.mpr haccepted⟩, fun hreversed => ?_⟩
  obtain ⟨-, -, hequal, -⟩ := opening_binds_up_to_neutral .logarithms table
    { p with commitments := p.commitments.reverse } p
  have hsame := hequal hreversed (.inl List.length_reverse)
  simp only [hcommitments] at hsame
  revert hsame
  decide +kernel

/-- Two accepted proofs with the same opening, the one about three values and the other about
four. -/
theorem Proof.exists_opening_eq_of_commitments_ne :
    let table := GeneratorTable.neutral Logarithm 256
    ∃ p q : Proof Logarithm, q = { p with commitments := p.commitments ++ [0] } ∧
      p.commitments.length = 3 ∧ q.commitments.length = 4 ∧
      p.verify .logarithms table = .ok () ∧ q.verify .logarithms table = .ok () ∧
      p.opening table = q.opening table ∧ p.commitments ≠ q.commitments := by
  intro table
  obtain ⟨p, hcommitments, haccepted⟩ := exists_accepted_three
  have hlength : p.commitments.length = 3 := by
    rw [hcommitments]
    rfl
  have hlength' : (p.commitments ++ [0]).length = 4 := by simp [hlength]
  have hpadded : padded 0 (p.commitments ++ [0]) = padded 0 p.commitments :=
    padded_append_replicate 0 p.commitments (k := 1) (by rw [hlength]; decide)
  refine ⟨p, _, rfl, hlength, hlength', haccepted, ?_, ?_, fun h => ?_⟩
  · exact (verify_eq_ok_iff_of_padded_eq hpadded (by rw [hlength]; decide)
      (by rw [hlength']; decide)).mpr haccepted
  · rw [opening, opening, hpadded]
  · have hlengths : 3 = 4 := hlength.symm.trans ((congrArg List.length h).trans hlength')
    exact absurd hlengths (by decide)

end RangeProof

end ConfidentialPayment
