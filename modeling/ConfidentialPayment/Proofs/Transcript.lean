import Mathlib.Data.List.Basic
import ConfidentialPayment.Suite
import ConfidentialPayment.Transcript.Strobe

/-!
# ConfidentialPayment.Proofs.Transcript

What can be read off a transcript.

1. `log` counts the label of the protocol as a first message. Challenges come from it and from
   nothing else (`ofTranscript_eq_foldl_log`), and it has all of the transcript (`log_injective`).
2. `contents` are the messages under one label. A list of points comes behind the contents of its
   label and leaves those of all others as they are (`contents_absorbPoints`), so lists under
   different labels are apart wherever one of them ends.
3. A list of points is absorbed as its `frame`, which tells the list (`frame_injective`). The count
   at its front says where it ends, as long as it is a word: then no frame is the beginning of a
   longer one (`length_eq_of_frame_isPrefix`).
-/

namespace ConfidentialPayment

/-- Different texts have different bytes. -/
theorem Bytes.ofText_injective : Function.Injective Bytes.ofText := fun _ _ h =>
  String.toByteArray_inj.mp (ByteArray.ext (Array.toList_inj.mp h))

variable {P : Type} [Suite P]

/-- Points with the same encoding are equal. -/
theorem LawfulEncoding.encode_injective [LawfulEncoding P] :
    Function.Injective (Suite.encode : P → Bytes) := fun a b h =>
  Option.some.inj ((decode_encode a).symm.trans ((congrArg _ h).trans (decode_encode b)))

namespace Transcript

variable {t t' : Transcript}

/-! ## Entries -/

theorem entries_absorb (t : Transcript) (label : String) (content : Bytes) :
    (t.absorb label content).entries = t.entries ++ [.message label content] := rfl

/-- A list of points is as many messages behind one with their number. -/
theorem absorbPoints_eq (t : Transcript) (label : String) (points : List P) :
    t.absorbPoints label points =
      ⟨t.label, t.entries ++ .message label (Bytes.ofNatLE 8 points.length) ::
        points.map fun p => .message label (Suite.encode p)⟩ := by
  have hfold (start : Transcript) :
      points.foldl (fun t p => t.absorbPoint label p) start =
        ⟨start.label, start.entries ++ points.map fun p => .message label (Suite.encode p)⟩ := by
    induction points generalizing start with
    | nil => rw [List.foldl_nil, List.map_nil, List.append_nil]
    | cons p points ih =>
      rw [List.foldl_cons, ih, absorbPoint, entries_absorb, List.append_assoc]
      rfl
  rw [absorbPoints, hfold, absorbNat, entries_absorb, List.append_assoc]
  rfl

/-- A list of points is absorbed behind its length. -/
theorem entries_absorbPoints (t : Transcript) (label : String) (points : List P) :
    (t.absorbPoints label points).entries =
      t.entries ++ .message label (Bytes.ofNatLE 8 points.length) ::
        points.map fun p => .message label (Suite.encode p) := by
  rw [absorbPoints_eq]

@[simp] theorem label_absorbPoints (t : Transcript) (label : String) (points : List P) :
    (t.absorbPoints label points).label = t.label := by
  rw [absorbPoints_eq]

/-! ## Logs -/

/-- The entries of a transcript behind a message with the label of its protocol. -/
def log (t : Transcript) : List Entry := .message "dom-sep" (Bytes.ofText t.label) :: t.entries

/-- The object that gives the challenges replays the log. -/
theorem ofTranscript_eq_foldl_log (t : Transcript) : Strobe.ofTranscript t =
    t.log.foldl Strobe.replay (Strobe.start (Bytes.ofText "Merlin v1.0")) := by
  rw [Strobe.ofTranscript, log, List.foldl_cons, Strobe.replay]

/-- One log is the beginning of another one exactly if both are of one protocol and the entries of
the one are the beginning of those of the other. -/
theorem log_isPrefix_iff : t.log <+: t'.log ↔ t.label = t'.label ∧ t.entries <+: t'.entries := by
  rw [log, log, List.cons_prefix_cons, Entry.message.injEq]
  exact and_congr_left fun _ => (and_iff_right rfl).trans Bytes.ofText_injective.eq_iff

/-- The log determines the label and the entries. -/
theorem log_injective : Function.Injective log := by
  intro t t' h
  obtain ⟨hlabel, hentries⟩ := List.cons.inj h
  have hlabel' : t.label = t'.label := Bytes.ofText_injective (Entry.message.inj hlabel).2
  cases t
  cases t'
  exact (mk.injEq ..).mpr ⟨hlabel', hentries⟩

/-! ## Contents -/

/-- What an entry absorbs under a label. -/
def Entry.contentUnder? (label : String) : Entry → Option Bytes
  | .message label' content => if label' = label then some content else none
  | .challenge _ => none

/-- The messages of a transcript under a label, oldest first. -/
def contents (t : Transcript) (label : String) : List Bytes :=
  t.entries.filterMap (Entry.contentUnder? label)

/-- What begins a transcript begins it under every label. -/
theorem contents_isPrefix (h : t.entries <+: t'.entries) (label : String) :
    t.contents label <+: t'.contents label := h.filterMap _

@[simp] theorem contents_start (name label : String) : (start name).contents label = [] := rfl

/-- What is absorbed for a list of points: how many there are, and each of them. -/
def frame (points : List P) : List Bytes :=
  Bytes.ofNatLE 8 points.length :: points.map Suite.encode

/-- A list of points appears under its own label only. -/
@[simp] theorem contents_absorbPoints (t : Transcript) (label label' : String)
    (points : List P) : (t.absorbPoints label points).contents label' =
      t.contents label' ++ if label = label' then frame points else [] := by
  by_cases h : label = label'
  · simp [contents, entries_absorbPoints, Entry.contentUnder?, frame, h, Function.comp_def]
  · simp [contents, entries_absorbPoints, Entry.contentUnder?, h, Function.comp_def]

/-- No two lists have the same frame. -/
theorem frame_injective (hencode : Function.Injective (Suite.encode : P → Bytes)) :
    Function.Injective (frame : List P → List Bytes) := fun _ _ h =>
  List.map_injective_iff.mpr hencode (List.cons.inj h).2

/-- A frame that begins another one is that of as many points, because both begin with a count. -/
theorem length_eq_of_frame_isPrefix {points points' : List P}
    (hpoints : points.length < UInt64.size) (hpoints' : points'.length < UInt64.size)
    (h : frame points <+: frame points') : points.length = points'.length := by
  have hcount := congrArg Bytes.toNatLE (List.cons_prefix_cons.mp h).1
  rwa [Bytes.toNatLE_ofNatLE_of_lt hpoints, Bytes.toNatLE_ofNatLE_of_lt hpoints'] at hcount

/-- Frames that begin each other say the same lengths. -/
theorem map_length_eq_of_frame_isPrefix {lists lists' : List (List P)}
    (h : List.Forall₂ (fun points points' => frame points <+: frame points') lists lists')
    (hlists : ∀ points ∈ lists, points.length < UInt64.size)
    (hlists' : ∀ points ∈ lists', points.length < UInt64.size) :
    lists.map List.length = lists'.map List.length := by
  induction h with
  | nil => rfl
  | cons hframe _ ih =>
    obtain ⟨hpoints, hlists⟩ := List.forall_mem_cons.mp hlists
    obtain ⟨hpoints', hlists'⟩ := List.forall_mem_cons.mp hlists'
    rw [List.map_cons, List.map_cons, length_eq_of_frame_isPrefix hpoints hpoints' hframe,
      ih hlists hlists']

end Transcript

end ConfidentialPayment
