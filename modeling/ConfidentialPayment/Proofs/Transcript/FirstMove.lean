import ConfidentialPayment.Membership
import ConfidentialPayment.Proofs.Suite.Ideal
import ConfidentialPayment.Proofs.Transcript
import ConfidentialPayment.SerialNumber.Hidden
import ConfidentialPayment.SerialNumber.Revealed

/-!
# ConfidentialPayment.Proofs.Transcript.FirstMove

The challenges of proofs with three moves bind everything that is fixed before them.

1. A `FirstMove` is what a challenge is drawn for: a statement of one of the three kinds of proofs
   and what its prover sends first.
2. The entries of its transcript have every part of it (`eq_of_entries_eq` for each kind). The lists
   of a membership proof are told apart by their labels, whatever their counts say.
3. The label of the protocol tells the kind, so logs are different for different first moves. With
   the counts, no log is the beginning of another one (`FirstMove.log_determines`).
-/

namespace ConfidentialPayment

variable {P : Type} [Suite P]

/-! ## Membership -/

namespace Membership

variable {ring ring' : List P} {c c' : Commitment P}

/-- The lists that a verifier absorbs, in order. -/
def absorbedLists (ring : List P) (c : Commitment P) : List (List P) :=
  [ring, c.bits, c.masks, c.products, c.coefficients]

/-- Every list has a label of its own. -/
theorem map_contents_transcript (ring : List P) (c : Commitment P) :
    ["C", "cl", "ca", "cb", "cd"].map (transcript ring c).contents =
      (absorbedLists ring c).map Transcript.frame := by
  simp [transcript, absorbedLists]

/-- The number of entries counts the points of all lists and the five lengths. -/
theorem length_entries_transcript (ring : List P) (c : Commitment P) :
    (transcript ring c).entries.length = ((absorbedLists ring c).map List.length).sum + 5 := by
  simp only [transcript, absorbedLists, Transcript.entries_absorbPoints, Transcript.start,
    List.length_append, List.length_cons, List.length_map, List.length_nil, List.map_cons,
    List.map_nil, List.sum_cons, List.sum_nil]
  omega

/-- The entries determine the ring and the commitment. -/
theorem eq_of_entries_eq (hencode : Function.Injective (Suite.encode : P → Bytes))
    (h : (transcript ring c).entries = (transcript ring' c').entries) : ring = ring' ∧ c = c' := by
  have hcontents : (transcript ring c).contents = (transcript ring' c').contents := by
    funext label
    rw [Transcript.contents, Transcript.contents, h]
  have hframes : (absorbedLists ring c).map Transcript.frame =
      (absorbedLists ring' c').map Transcript.frame := by
    rw [← map_contents_transcript, ← map_contents_transcript, hcontents]
  have hlists : absorbedLists ring c = absorbedLists ring' c' :=
    List.map_injective_iff.mpr (Transcript.frame_injective hencode) hframes
  simp only [absorbedLists, List.cons.injEq, and_true] at hlists
  exact ⟨hlists.1, (Commitment.mk.injEq ..).mpr hlists.2⟩

/-- Entries do not go on where others end, because every list has its count in front. -/
theorem eq_of_entries_isPrefix (hencode : Function.Injective (Suite.encode : P → Bytes))
    (hshort : ∀ points ∈ absorbedLists ring c, points.length < UInt64.size)
    (hshort' : ∀ points ∈ absorbedLists ring' c', points.length < UInt64.size)
    (h : (transcript ring c).entries <+: (transcript ring' c').entries) :
    ring = ring' ∧ c = c' := by
  have hframes : List.Forall₂ (· <+: ·) ((absorbedLists ring c).map Transcript.frame)
      ((absorbedLists ring' c').map Transcript.frame) := by
    rw [← map_contents_transcript, ← map_contents_transcript, List.forall₂_map_left_iff,
      List.forall₂_map_right_iff, List.forall₂_same]
    exact fun label _ => Transcript.contents_isPrefix h label
  rw [List.forall₂_map_left_iff, List.forall₂_map_right_iff] at hframes
  have hlengths := Transcript.map_length_eq_of_frame_isPrefix hframes hshort hshort'
  refine eq_of_entries_eq hencode (h.eq_of_length ?_)
  rw [length_entries_transcript, length_entries_transcript, hlengths]

end Membership

/-! ## Serial numbers -/

namespace SerialNumber.Hidden

variable {s s' : Statement P} {c c' : Commitment P}

/-- The statement is absorbed before the commitment, each point under its own label. -/
theorem entries_transcript (s : Statement P) (c : Commitment P) : (transcript s c).entries =
    [.message "sn" (Suite.encode s.serialNumber), .message "com_sk" (Suite.encode s.keyCommitment),
      .message "com_snd" (Suite.encode s.derivatorCommitment),
      .message "t_sk" (Suite.encode c.key), .message "t_input" (Suite.encode c.derivator),
      .message "t_sn" (Suite.encode c.serialNumber)] := rfl

/-- The entries determine the statement and the commitment. -/
theorem eq_of_entries_eq (hencode : Function.Injective (Suite.encode : P → Bytes))
    (h : (transcript s c).entries = (transcript s' c').entries) : s = s' ∧ c = c' := by
  rw [entries_transcript, entries_transcript] at h
  simp only [List.cons.injEq, Transcript.Entry.message.injEq, true_and, and_true,
    hencode.eq_iff] at h
  obtain ⟨hserial, hkey, hderivator, hcommitment⟩ := h
  exact ⟨(Statement.mk.injEq ..).mpr ⟨hserial, hkey, hderivator⟩,
    (Commitment.mk.injEq ..).mpr hcommitment⟩

end SerialNumber.Hidden

namespace SerialNumber.Revealed

variable {s s' : Statement P} {c c' : Commitment P}

/-- The statement is absorbed before the commitment, each part under its own label. -/
theorem entries_transcript (s : Statement P) (c : Commitment P) : (transcript s c).entries =
    [.message "sn" (Suite.encode s.serialNumber), .message "pk" (Suite.encode s.publicKey),
      .message "snd" s.derivator.toBytes, .message "t_seed" (Suite.encode c.key),
      .message "t_output" (Suite.encode c.serialNumber)] := rfl

/-- The entries determine the statement and the commitment. -/
theorem eq_of_entries_eq (hencode : Function.Injective (Suite.encode : P → Bytes))
    (h : (transcript s c).entries = (transcript s' c').entries) : s = s' ∧ c = c' := by
  rw [entries_transcript, entries_transcript] at h
  simp only [List.cons.injEq, Transcript.Entry.message.injEq, true_and, and_true,
    hencode.eq_iff, Scalar.toBytes_inj] at h
  obtain ⟨hserial, hkey, hderivator, hcommitment⟩ := h
  exact ⟨(Statement.mk.injEq ..).mpr ⟨hserial, hkey, hderivator⟩,
    (Commitment.mk.injEq ..).mpr hcommitment⟩

end SerialNumber.Revealed

/-! ## All kinds -/

/-- What a challenge is drawn for: a statement and what its prover sends first. -/
inductive FirstMove (P : Type)
  | membership (ring : List P) (commitment : Membership.Commitment P)
  | hiddenSerial (statement : SerialNumber.Hidden.Statement P)
      (commitment : SerialNumber.Hidden.Commitment P)
  | revealedSerial (statement : SerialNumber.Revealed.Statement P)
      (commitment : SerialNumber.Revealed.Commitment P)

namespace FirstMove

/-- The transcript up to the challenge. -/
def transcript : FirstMove P → Transcript
  | membership ring c => Membership.transcript ring c
  | hiddenSerial s c => SerialNumber.Hidden.transcript s c
  | revealedSerial s c => SerialNumber.Revealed.transcript s c

/-- The challenge that prover and verifier draw. -/
def challenge : FirstMove P → Scalar
  | membership ring c => Membership.challenge ring c
  | hiddenSerial s c => SerialNumber.Hidden.challenge s c
  | revealedSerial s c => SerialNumber.Revealed.challenge s c

/-- The lists that the transcript counts. -/
def countedLists : FirstMove P → List (List P)
  | membership ring c => Membership.absorbedLists ring c
  | hiddenSerial _ _ => []
  | revealedSerial _ _ => []

/-- The label of the protocol. -/
def protocol : FirstMove P → String
  | membership _ _ => "payment_proofs_one_out_of_many"
  | hiddenSerial _ _ => "payment_proofs_serial_number_privacy"
  | revealedSerial _ _ => "payment_proofs_serial_number_no_privacy"

variable {m m' : FirstMove P}

/-- The challenge of a first move is that of its transcript. -/
theorem challenge_eq (m : FirstMove P) : m.challenge = Suite.challenge P m.transcript "x" := by
  cases m <;> rfl

theorem label_transcript (m : FirstMove P) : m.transcript.label = m.protocol := by
  cases m with
  | membership ring c =>
    simp only [transcript, Membership.transcript, Transcript.label_absorbPoints]
    rfl
  | hiddenSerial s c => rfl
  | revealedSerial s c => rfl

/-- Of one protocol, the entries tell everything. -/
theorem eq_of_entries_eq (hencode : Function.Injective (Suite.encode : P → Bytes))
    (hprotocol : m.protocol = m'.protocol)
    (h : m.transcript.entries = m'.transcript.entries) : m = m' := by
  -- Different kinds have different labels, so both are of one kind.
  cases m <;> cases m' <;> simp [protocol] at hprotocol
  case membership.membership =>
    obtain ⟨hring, hcommitment⟩ := Membership.eq_of_entries_eq hencode h
    rw [hring, hcommitment]
  case hiddenSerial.hiddenSerial =>
    obtain ⟨hstatement, hcommitment⟩ := SerialNumber.Hidden.eq_of_entries_eq hencode h
    rw [hstatement, hcommitment]
  case revealedSerial.revealedSerial =>
    obtain ⟨hstatement, hcommitment⟩ := SerialNumber.Revealed.eq_of_entries_eq hencode h
    rw [hstatement, hcommitment]

/-- Of one protocol, entries that others begin with are all of these. -/
theorem entries_eq_of_isPrefix (hencode : Function.Injective (Suite.encode : P → Bytes))
    (hprotocol : m.protocol = m'.protocol)
    (hshort : ∀ points ∈ m.countedLists ++ m'.countedLists, points.length < UInt64.size)
    (h : m.transcript.entries <+: m'.transcript.entries) :
    m.transcript.entries = m'.transcript.entries := by
  cases m <;> cases m' <;> simp [protocol] at hprotocol
  case membership.membership =>
    obtain ⟨hshort, hshort'⟩ := List.forall_mem_append.mp hshort
    obtain ⟨hring, hcommitment⟩ := Membership.eq_of_entries_isPrefix hencode hshort hshort' h
    rw [hring, hcommitment]
  case hiddenSerial.hiddenSerial => exact h.eq_of_length rfl
  case revealedSerial.revealedSerial => exact h.eq_of_length rfl

/-- The challenge of a proof with three moves is drawn from the log of its first move, and the log
tells that move: the kind of the proof, its statement and all points that its prover sent, with
lists of any lengths. If the lengths are words, the log of one move does not begin that of
another. -/
theorem log_determines (hencode : Function.Injective (Suite.encode : P → Bytes))
    (m m' : FirstMove P) :
    m.challenge = Suite.challenge P m.transcript "x" ∧
    (m.transcript.log = m'.transcript.log ↔ m = m') ∧
    ((∀ points ∈ m.countedLists ++ m'.countedLists, points.length < UInt64.size) →
      m.transcript.log <+: m'.transcript.log → m = m') := by
  refine ⟨m.challenge_eq, ⟨fun h => ?_, fun h => h ▸ rfl⟩, fun hshort h => ?_⟩
  · have htranscript : m.transcript = m'.transcript := Transcript.log_injective h
    have hprotocol : m.protocol = m'.protocol := by
      rw [← label_transcript, ← label_transcript, htranscript]
    exact eq_of_entries_eq hencode hprotocol (congrArg Transcript.entries htranscript)
  · obtain ⟨hlabel, hentries⟩ := Transcript.log_isPrefix_iff.mp h
    rw [label_transcript, label_transcript] at hlabel
    exact eq_of_entries_eq hencode hlabel
      (entries_eq_of_isPrefix hencode hlabel hshort hentries)

/-- A point that moves from the commitments to the end of the ring shows in the log. -/
theorem log_determines_boundary :
    let gens := Generators.ideal
    let m : FirstMove Opening := .membership [gens.value] ⟨[gens.shard], [], [], []⟩
    let m' : FirstMove Opening := .membership [gens.value, gens.shard] ⟨[], [], [], []⟩
    Function.Injective (Suite.encode : Opening → Bytes) ∧ m.transcript.log ≠ m'.transcript.log ∧
      ¬ m.transcript.log <+: m'.transcript.log := by
  intro gens m m'
  have hdifferent : m ≠ m' := by simp [m, m']
  have hshort : ∀ points ∈ m.countedLists ++ m'.countedLists, points.length < UInt64.size := by
    simp [m, m', countedLists, Membership.absorbedLists, UInt64.size]
  obtain ⟨-, hlog, hbegins⟩ := log_determines Suite.encode_injective_ideal m m'
  exact ⟨Suite.encode_injective_ideal, fun h => hdifferent (hlog.mp h),
    fun h => hdifferent (hbegins hshort h)⟩

end FirstMove

end ConfidentialPayment
