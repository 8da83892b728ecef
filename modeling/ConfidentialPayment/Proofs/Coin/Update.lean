import ConfidentialPayment.Coin.Update
import ConfidentialPayment.Proofs.Coin.Reachable

/-!
# ConfidentialPayment.Proofs.Coin.Update

What every sequence of operations on an output keeps.

1. `Operation.program_eq`: an operation replaces the output by what the functions on outputs make of
   it, in one step and last. So an operation that fails leaves the output as it was
   (`Operation.Ends.eq_or_gives`).
2. Operations make reachable outputs of reachable outputs (`Operation.Ends.isReachable`), in which
   infos are short. So a coin is read back from its encoding after every sequence of operations.
3. A commitment stays the one that the other fields imply as long as these fields and the
   commitment are what they were. `Operation.KeepsCommitment` says which operations see to that.
-/

namespace ConfidentialPayment

variable {P : Type}

/-! ## Replacements -/

namespace Update

variable {α : Type}

/-- Replaces the output by what a program makes of it. -/
def replace (effect : OutputCoin P → DrawExcept (OutputCoin P)) : Update P Unit := do
  let output : OutputCoin P ← get
  let replaced ← ofDraw (effect output)
  set replaced

/-- Programs that run alike from every output and tape are the same. -/
theorem ext_run {program program' : Update P α}
    (h : ∀ output tape, (program.run.run output).run tape = (program'.run.run output).run tape) :
    program = program' := ExceptT.ext (funext fun output => funext fun tape => h output tape)

/-- Reading the output leaves it and the tape as they are. -/
theorem run_get_bind {next : OutputCoin P → Update P α} {output : OutputCoin P}
    {tape : RandomSource} :
    ((get >>= next).run.run output).run tape = ((next output).run.run output).run tape := rfl

/-- A program that fails leaves what comes after it out. -/
theorem run_ofDraw_bind {program : DrawExcept α} {next : α → Update P Unit}
    {output : OutputCoin P} {tape : RandomSource} :
    ((ofDraw program >>= next).run.run output).run tape =
      match program.run.run tape with
      | (.ok a, rest) => ((next a).run.run output).run rest
      | (.error e, rest) => ((.error e, output), rest) := by
  have hdraw : ((ofDraw program).run.run output).run tape =
      (((program.run.run tape).1, output), (program.run.run tape).2) := rfl
  rw [ExceptT.run_bind, StateT.run_bind, StateT.run_bind, hdraw]
  cases program.run.run tape with
  | mk result rest =>
    cases result with
    | ok a => rfl
    | error e => rfl

/-- Where a replacement fails, it leaves the output as it was. -/
theorem run_replace (effect : OutputCoin P → DrawExcept (OutputCoin P)) (output : OutputCoin P)
    (tape : RandomSource) :
    ((replace effect).run.run output).run tape =
      match (effect output).run.run tape with
      | (.ok replaced, rest) => ((.ok (), replaced), rest)
      | (.error e, rest) => ((.error e, output), rest) := by
  rw [replace, run_get_bind, run_ofDraw_bind]
  cases (effect output).run.run tape with
  | mk result rest =>
    cases result with
    | ok replaced => rfl
    | error e => rfl

/-- A program that may fail before it writes, and not while it does, replaces the output. -/
theorem ofDraw_bind_eq_replace {compute : OutputCoin P → DrawExcept α}
    {next : α → Update P Unit} {write : α → OutputCoin P → OutputCoin P}
    (hnext : ∀ a output tape,
      ((next a).run.run output).run tape = ((.ok (), write a output), tape)) :
    (do let output : OutputCoin P ← get; ofDraw (compute output) >>= next) =
      replace fun output => (write · output) <$> compute output := by
  refine ext_run fun output tape => ?_
  have hmap : ((write · output) <$> compute output).run.run tape =
      let (result, rest) := (compute output).run.run tape
      (result.map (write · output), rest) := by
    rw [ExceptT.run_map]
    rfl
  rw [run_get_bind, run_ofDraw_bind, run_replace, hmap]
  cases (compute output).run.run tape with
  | mk result rest =>
    cases result with
    | ok a => exact hnext a output rest
    | error e => rfl

end Update

/-! ## Operations -/

variable [Suite P]

/-- Encrypting an output is encrypting its details and clearing them. -/
theorem OutputCoin.encrypt_eq_map (gens : Generators P) (transmissionKey : P)
    (output : OutputCoin P) :
    output.encrypt gens transmissionKey =
      (fun ciphertext => ⟨{ output.coin with blinding := 0, value := 0 }, ciphertext⟩) <$>
        Hybrid.encrypt gens transmissionKey (details output.coin) := by
  unfold encrypt Hybrid.encrypt
  rw [map_bind]
  refine congrArg _ (funext fun random => ?_)
  unfold encryptWith
  cases Hybrid.encryptWith gens transmissionKey (details output.coin) random with
  | ok ciphertext => rfl
  | error e => rfl

namespace Operation

/-- What the functions on outputs make of an output, for each operation. -/
def effect (operation : Operation P) (output : OutputCoin P) : DrawExcept (OutputCoin P) :=
  let withCoin (coin : Coin P) : OutputCoin P := { output with coin }
  match operation with
  | assign assignment => pure (assignment.write output)
  | setInfo info => withCoin <$> .ofExcept (output.coin.withInfo info)
  | commit gens => pure (withCoin (output.coin.commit gens))
  | setSerial gens privateKey => withCoin <$> .ofExcept (output.coin.withSerial gens privateKey)
  | strip => pure (withCoin output.coin.strip)
  | encrypt gens transmissionKey => output.encrypt gens transmissionKey
  | decrypt gens receivingKey => withCoin <$> .ofExcept (output.decrypt gens receivingKey)
  | reloadCoin => withCoin <$> .ofExcept (Coin.ofBytes output.coin.toBytes)
  | reload => .ofExcept (OutputCoin.ofBytes output.toBytes)

/-- Every operation replaces the output by what the functions on outputs make of it. -/
theorem program_eq (operation : Operation P) :
    operation.program = Update.replace operation.effect := by
  cases operation with
  | assign assignment => rfl
  | setInfo info =>
    refine Update.ext_run fun output tape => ?_
    rw [Update.run_replace]
    by_cases h : info.length > Coin.maxInfoLength
    · simp only [effect, Coin.withInfo, program, Update.setInfo, if_pos h]
      rfl
    · simp only [effect, Coin.withInfo, program, Update.setInfo, if_neg h]
      rfl
  | commit gens => rfl
  | setSerial gens privateKey =>
    refine (Update.ofDraw_bind_eq_replace fun _ _ _ => rfl).trans ?_
    refine congrArg Update.replace (funext fun output => ?_)
    dsimp only [effect, Coin.withSerial]
    cases deriveSerial gens.privateKey privateKey output.coin.derivator with
    | ok serialNumber => rfl
    | error e => rfl
  | strip => rfl
  | encrypt gens transmissionKey =>
    refine (Update.ofDraw_bind_eq_replace fun _ _ _ => rfl).trans ?_
    exact congrArg Update.replace (funext fun output => (output.encrypt_eq_map _ _).symm)
  | decrypt gens receivingKey => exact Update.ofDraw_bind_eq_replace fun _ _ _ => rfl
  | reloadCoin => exact Update.ofDraw_bind_eq_replace fun _ _ _ => rfl
  | reload =>
    refine (Update.ofDraw_bind_eq_replace fun _ _ _ => rfl).trans ?_
    exact congrArg Update.replace (funext fun output => id_map _)

/-- On an output and a tape, an operation ends with a result, an output, and a rest of the tape. -/
def Ends (operation : Operation P) (output : OutputCoin P) (tape : RandomSource)
    (result : Except Error Unit) (output' : OutputCoin P) (rest : RandomSource) : Prop :=
  Id.run ((operation.run output).run tape) = ((result, output'), rest)

variable {operation : Operation P} {operations : List (Operation P)} {gens : Generators P}
  {output output' : OutputCoin P} {tape rest : RandomSource} {result : Except Error Unit}

omit [Suite P] in
/-- Where an operation makes a coin, the rest of the output stays. -/
theorem exists_coin_of_gives {made : Except Error (Coin P)}
    (h : DrawExcept.Gives ((fun coin => ({ output with coin } : OutputCoin P)) <$> .ofExcept made)
      tape output' rest) : ∃ coin, made = .ok coin ∧ output' = { output with coin } := by
  obtain ⟨coin, hmade, rfl⟩ := DrawExcept.gives_map.mp h
  exact ⟨coin, (DrawExcept.gives_ofExcept.mp hmade).1, rfl⟩

/-- An operation that fails leaves the output as it was, and one that succeeds makes of it what the
functions on outputs do. -/
theorem Ends.eq_or_gives (h : operation.Ends output tape result output' rest) :
    (∃ e, result = .error e) ∧ output' = output ∨
      result = .ok () ∧ (operation.effect output).Gives tape output' rest := by
  unfold Ends run at h
  rw [program_eq, Update.run_replace] at h
  cases heffect : (operation.effect output).run.run tape with
  | mk made rest' =>
    rw [heffect] at h
    cases made with
    | ok replaced =>
      change ((.ok (), replaced), rest') = ((result, output'), rest) at h
      cases h
      exact .inr ⟨rfl, heffect⟩
    | error e =>
      change ((.error e, output), rest') = ((result, output'), rest) at h
      cases h
      exact .inl ⟨⟨e, rfl⟩, rfl⟩

/-- An info that is too long is refused before anything is written. -/
theorem ends_setInfo_of_lt {info : Bytes} (h : Coin.maxInfoLength < info.length)
    (output : OutputCoin P) (tape : RandomSource) :
    (setInfo info).Ends output tape (.error (.infoTooLong info.length)) output tape := by
  simp only [Ends, run, program, Update.setInfo, if_pos h]
  rfl

/-- Committing succeeds. -/
theorem ends_commit (gens : Generators P) (output : OutputCoin P) (tape : RandomSource) :
    (commit gens).Ends output tape (.ok ()) { output with coin := output.coin.commit gens } tape :=
  rfl

end Operation

/-! ## Reachable outputs -/

/-- A step leads from reachable coins to reachable coins. -/
theorem Coin.Reachable.step {coin coin' : Coin P} (h : coin.Reachable) (hstep : Step coin coin') :
    coin'.Reachable := by
  obtain ⟨start, horigin, hsteps⟩ := h
  exact ⟨start, horigin, hsteps.tail hstep⟩

namespace OutputCoin

/-- An output as it is made or read. -/
inductive Origin : OutputCoin P → Prop
  | plain {coin : Coin P} (h : coin.Origin) : Origin (plain coin)
  | payee {payee : Payee P} {output : OutputCoin P} {tape rest : RandomSource}
      (h : (forPayee payee).Gives tape output rest) : Origin output
  | read {bs : Bytes} {output : OutputCoin P} (h : OutputCoin.ofBytes bs = .ok output) :
      Origin output

/-- An output whose coin and ciphertext callers can have. -/
structure IsReachable (output : OutputCoin P) : Prop where
  coin : output.coin.Reachable
  ciphertext : WireForm.hybrid.Arises output.ciphertext

variable [LawfulEncoding P] {output : OutputCoin P}

/-- What a decoder accepts is reachable. -/
theorem isReachable_of_ofBytes {bs : Bytes} (h : OutputCoin.ofBytes bs = .ok output) :
    output.IsReachable := by
  have hkey := (ofBytes_eq_ok_iff.mp h).1.hasKey
  exact ⟨(Coin.Origin.readOutput h).reachable, .inr ⟨_, Hybrid.ofBytes_eq_ok_iff.mpr ⟨hkey, rfl⟩⟩⟩

/-- Outputs are reachable from the start. -/
theorem Origin.isReachable (h : output.Origin) : output.IsReachable := by
  cases h with
  | plain h => exact ⟨h.reachable, .inl (.inl rfl)⟩
  | payee h =>
    exact ⟨(Coin.Origin.payee h).reachable, .inl (.inl (isPlain_of_forPayee h).ciphertext)⟩
  | read h => exact isReachable_of_ofBytes h

end OutputCoin

/-- A coin or a ciphertext can be assigned if callers can have it. -/
def Assignment.IsAvailable : Assignment P → Prop
  | .coin c => c.Reachable
  | .ciphertext c => WireForm.hybrid.Arises c
  | _ => True

namespace Operation

/-- An operation that callers can carry out. -/
def IsAvailable : Operation P → Prop
  | assign assignment => assignment.IsAvailable
  | _ => True

variable [LawfulEncoding P] {operation : Operation P} {gens : Generators P}
  {output output' : OutputCoin P} {tape rest : RandomSource} {result : Except Error Unit}

omit [LawfulEncoding P] in
/-- An assignment that callers can make leaves the output reachable. -/
theorem isReachable_write (h : output.IsReachable) {assignment : Assignment P}
    (havailable : assignment.IsAvailable) : (assignment.write output).IsReachable := by
  let coin := output.coin
  have hassign (publicKey commitment : P) (derivator : Scalar) (serialNumber : P)
      (blinding : Scalar) (value : UInt64) : Coin.Reachable
        { coin with publicKey, commitment, derivator, serialNumber, blinding, value } :=
    h.coin.step (.assign publicKey commitment derivator serialNumber blinding value)
  cases assignment with
  | publicKey p => exact ⟨hassign p _ _ _ _ _, h.ciphertext⟩
  | commitment p => exact ⟨hassign _ p _ _ _ _, h.ciphertext⟩
  | derivator x => exact ⟨hassign _ _ x _ _ _, h.ciphertext⟩
  | serialNumber p => exact ⟨hassign _ _ _ p _ _, h.ciphertext⟩
  | blinding x => exact ⟨hassign _ _ _ _ x _, h.ciphertext⟩
  | value v => exact ⟨hassign _ _ _ _ _ v, h.ciphertext⟩
  | coin c => exact ⟨havailable, h.ciphertext⟩
  | ciphertext c => exact ⟨h.coin, havailable⟩

/-- What functions on outputs make of a reachable output is reachable. -/
theorem isReachable_of_effect (h : output.IsReachable) (havailable : operation.IsAvailable)
    (heffect : (operation.effect output).Gives tape output' rest) : output'.IsReachable := by
  cases operation with
  | assign assignment =>
    obtain ⟨rfl, -⟩ := DrawExcept.gives_pure.mp heffect
    exact isReachable_write h havailable
  | setInfo info =>
    obtain ⟨coin, hset, rfl⟩ := exists_coin_of_gives heffect
    exact ⟨h.coin.step (.setInfo hset), h.ciphertext⟩
  | commit gens =>
    obtain ⟨rfl, -⟩ := DrawExcept.gives_pure.mp heffect
    exact ⟨h.coin.step (.commit gens), h.ciphertext⟩
  | setSerial gens privateKey =>
    obtain ⟨coin, hset, rfl⟩ := exists_coin_of_gives heffect
    exact ⟨h.coin.step (.setSerial hset), h.ciphertext⟩
  | strip =>
    obtain ⟨rfl, -⟩ := DrawExcept.gives_pure.mp heffect
    exact ⟨h.coin.step .strip, h.ciphertext⟩
  | encrypt gens transmissionKey =>
    refine ⟨h.coin.step (.encrypt heffect), .inl (.inr ?_)⟩
    dsimp only [effect] at heffect
    rw [OutputCoin.encrypt_eq_map] at heffect
    obtain ⟨ciphertext, hencrypt, rfl⟩ := DrawExcept.gives_map.mp heffect
    exact ⟨_, _, _, _, DrawExcept.outcome_eq_ok_iff.mpr ⟨_, hencrypt⟩⟩
  | decrypt gens receivingKey =>
    obtain ⟨coin, hdecrypt, rfl⟩ := exists_coin_of_gives heffect
    exact ⟨h.coin.step (.decrypt hdecrypt), h.ciphertext⟩
  | reloadCoin =>
    obtain ⟨coin, hread, rfl⟩ := exists_coin_of_gives heffect
    exact ⟨(Coin.Origin.read hread).reachable, h.ciphertext⟩
  | reload => exact OutputCoin.isReachable_of_ofBytes (DrawExcept.gives_ofExcept.mp heffect).1

/-- Every operation leaves the output reachable, also when it fails. -/
theorem Ends.isReachable (h : operation.Ends output tape result output' rest)
    (houtput : output.IsReachable) (havailable : operation.IsAvailable) : output'.IsReachable := by
  rcases h.eq_or_gives with ⟨-, rfl⟩ | ⟨-, heffect⟩
  · exact houtput
  · exact isReachable_of_effect houtput havailable heffect

end Operation

/-! ## Commitments -/

/-- The commitment of a coin and the fields that it is about; the shard is that of the public
key. -/
def Coin.committedFields (coin : Coin P) : P × P × Scalar × Scalar × UInt64 :=
  (coin.publicKey, coin.commitment, coin.derivator, coin.blinding, coin.value)

/-- Whether a coin is committed depends on the committed fields alone. -/
theorem Coin.isCommitted_congr {gens : Generators P} {coin coin' : Coin P}
    (h : coin.committedFields = coin'.committedFields) :
    coin.isCommitted gens = coin'.isCommitted gens := by
  simp only [committedFields, Prod.mk.injEq] at h
  obtain ⟨hkey, hcommitment, hderivator, hblinding, hvalue⟩ := h
  have hexpected : coin.expectedCommitment gens = coin'.expectedCommitment gens := by
    simp only [expectedCommitment, opening, shard, hkey, hderivator, hblinding, hvalue]
  rw [isCommitted, isCommitted, hexpected, hcommitment]

/-- What is read back from the encoding of a reachable output is the output. -/
theorem OutputCoin.IsReachable.eq_of_ofBytes_toBytes [LawfulEncoding P] {output read : OutputCoin P}
    (h : output.IsReachable) (hread : OutputCoin.ofBytes output.toBytes = .ok read) :
    read = output := by
  have hkey : output.ciphertext.HasKey := WireForm.hybrid.fits_of_arises rfl h.ciphertext
  have hback := ofBytes_toBytes
    ⟨h.coin.length_info_le, hkey, length_lt_of_ofBytes_toBytes hread⟩
  exact Except.ok.inj (hread.symm.trans hback)

namespace Operation

/-- An operation after which a coin that was committed to still is: it writes no field that the
commitment is about, or it commits to the coin, or checks that it is committed to. -/
def KeepsCommitment (gens : Generators P) : Operation P → Prop
  | assign (.serialNumber _) | assign (.ciphertext _) => True
  | setInfo _ | setSerial .. | reloadCoin | reload => True
  | commit gens' | decrypt gens' _ => gens' = gens
  | _ => False

variable [LawfulEncoding P] {operation : Operation P} {gens : Generators P}
  {output output' : OutputCoin P} {tape rest : RandomSource} {result : Except Error Unit}

/-- An operation that succeeds and touches no committed field leaves the coin committed. -/
theorem isCommitted_of_effect (houtput : output.IsReachable)
    (hkeeps : operation.KeepsCommitment gens) (hcommitted : output.coin.isCommitted gens = true)
    (heffect : (operation.effect output).Gives tape output' rest) :
    output'.coin.isCommitted gens = true := by
  cases operation with
  | assign assignment =>
    obtain ⟨rfl, -⟩ := DrawExcept.gives_pure.mp heffect
    cases assignment with
    | serialNumber p => exact hcommitted
    | ciphertext c => exact hcommitted
    | publicKey | commitment | derivator | blinding | value | coin => exact hkeeps.elim
  | setInfo info =>
    obtain ⟨coin, hset, rfl⟩ := exists_coin_of_gives heffect
    unfold Coin.withInfo at hset
    split_ifs at hset
    obtain rfl := Except.ok.inj hset
    exact hcommitted
  | commit gens' =>
    obtain ⟨rfl, -⟩ := DrawExcept.gives_pure.mp heffect
    obtain rfl : gens' = gens := hkeeps
    exact output.coin.isCommitted_commit
  | setSerial gens' privateKey =>
    obtain ⟨coin, hset, rfl⟩ := exists_coin_of_gives heffect
    obtain ⟨serialNumber, -, hset⟩ := bind_eq_ok.mp hset
    obtain rfl := pure_eq_ok.mp hset
    exact hcommitted
  | strip => exact hkeeps.elim
  | encrypt => exact hkeeps.elim
  | decrypt gens' receivingKey =>
    obtain rfl : gens' = gens := hkeeps
    obtain ⟨coin, hdecrypt, rfl⟩ := exists_coin_of_gives heffect
    exact (OutputCoin.eq_of_decrypt hdecrypt).1
  | reloadCoin =>
    obtain ⟨coin, hread, rfl⟩ := exists_coin_of_gives heffect
    have hback := Coin.ofBytes_toBytes houtput.coin.length_info_le
    obtain rfl := Except.ok.inj (hread.symm.trans hback)
    exact hcommitted
  | reload =>
    obtain rfl := houtput.eq_of_ofBytes_toBytes (DrawExcept.gives_ofExcept.mp heffect).1
    exact hcommitted

/-- However an operation ends, if it touches no committed field the coin stays committed. -/
theorem Ends.isCommitted (h : operation.Ends output tape result output' rest)
    (houtput : output.IsReachable) (hkeeps : operation.KeepsCommitment gens)
    (hcommitted : output.coin.isCommitted gens = true) :
    output'.coin.isCommitted gens = true := by
  rcases h.eq_or_gives with ⟨-, rfl⟩ | ⟨-, heffect⟩
  · exact hcommitted
  · exact isCommitted_of_effect houtput hkeeps hcommitted heffect

end Operation

/-! ## Sequences -/

namespace Operation

variable {operation : Operation P} {operations : List (Operation P)} {gens : Generators P}
  {output output' : OutputCoin P} {tape rest : RandomSource}

/-- Operations, one after the other, lead from an output and a tape to others. -/
def Lead (operations : List (Operation P)) (output : OutputCoin P) (tape : RandomSource)
    (output' : OutputCoin P) (rest : RandomSource) : Prop :=
  Id.run ((runAll operations output).run tape) = (output', rest)

/-- Every sequence of operations leads somewhere. -/
theorem exists_lead (operations : List (Operation P)) (output : OutputCoin P)
    (tape : RandomSource) : ∃ output' rest, Lead operations output tape output' rest :=
  ⟨_, _, Prod.mk.eta.symm⟩

/-- What every operation of a sequence keeps, the sequence keeps. -/
theorem Lead.induction (h : Lead operations output tape output' rest) (Inv : OutputCoin P → Prop)
    (hstep : ∀ operation ∈ operations, ∀ before tape result after rest, Inv before →
      operation.Ends before tape result after rest → Inv after) (houtput : Inv output) :
    Inv output' := by
  induction operations generalizing output tape with
  | nil =>
    obtain ⟨rfl, rfl⟩ := Prod.mk.inj h
    exact houtput
  | cons operation operations ih =>
    have hrest : Lead operations ((operation.run output).run tape).1.2
        ((operation.run output).run tape).2 output' rest := h
    refine ih hrest (fun operation' hmem => hstep operation' (List.mem_cons_of_mem _ hmem)) ?_
    exact hstep operation (List.mem_cons_self ..) output tape _ _ _ houtput rfl

variable [LawfulEncoding P]

/-- Every sequence of operations leaves the output reachable. -/
theorem Lead.isReachable (h : Lead operations output tape output' rest)
    (hoperations : ∀ operation ∈ operations, operation.IsAvailable) (houtput : output.IsReachable) :
    output'.IsReachable :=
  h.induction OutputCoin.IsReachable (fun operation hmem _ _ _ _ _ hbefore hends =>
    hends.isReachable hbefore (hoperations operation hmem)) houtput

/-- Operations that keep the commitment lead from a coin that is committed to to another. -/
theorem Lead.isCommitted (h : Lead operations output tape output' rest)
    (hoperations : ∀ operation ∈ operations, operation.IsAvailable) (houtput : output.IsReachable)
    (hkeep : ∀ operation ∈ operations, operation.KeepsCommitment gens)
    (hcommitted : output.coin.isCommitted gens = true) : output'.coin.isCommitted gens = true := by
  -- Reading back gives the same output only where outputs are reachable, so both go together.
  have hboth : output'.IsReachable ∧ output'.coin.isCommitted gens = true := by
    refine h.induction (fun o => o.IsReachable ∧ o.coin.isCommitted gens = true) ?_
      ⟨houtput, hcommitted⟩
    rintro operation hmem _ _ _ _ _ ⟨hreachable, hbefore⟩ hends
    exact ⟨hends.isReachable hreachable (hoperations operation hmem),
      hends.isCommitted hreachable (hkeep operation hmem) hbefore⟩
  exact hboth.2

/-- What every sequence of operations keeps. Wherever it leads to, from an output or a coin as it is
made or read, the info of the coin has at most 255 bytes, the coin is read back from its encoding,
and an operation that fails leaves the output as it is. Committing succeeds, and afterwards the coin
is committed to as long as the commitment and the fields that it is about are what they were.
Operations that write other fields, and those that commit or decrypt with the same generators, keep
it committed to, whether they succeed or fail. -/
theorem sequence_invariants {start : OutputCoin P} (hstart : start.Origin)
    (hoperations : ∀ operation ∈ operations, operation.IsAvailable)
    (h : Lead operations start tape output rest) :
    output.coin.info.length ≤ 255 ∧
    Coin.ofBytes output.coin.toBytes = .ok output.coin ∧
    (∀ (operation : Operation P) e output' rest',
      operation.Ends output rest (.error e) output' rest' → output' = output) ∧
    ∀ gens : Generators P, ∃ committed, (commit gens).Ends output rest (.ok ()) committed rest ∧
      ∀ (later : List (Operation P)) final rest',
        (∀ operation ∈ later, operation.IsAvailable) → Lead later committed rest final rest' →
          (final.coin.committedFields = committed.coin.committedFields →
            final.coin.isCommitted gens = true) ∧
          ((∀ operation ∈ later, operation.KeepsCommitment gens) →
            final.coin.isCommitted gens = true) := by
  have hreachable : output.IsReachable := h.isReachable hoperations hstart.isReachable
  have hinfo := hreachable.coin.length_info_le
  refine ⟨hinfo, Coin.ofBytes_toBytes hinfo, fun operation e output' rest' hends => ?_,
    fun gens => ⟨_, ends_commit gens output rest, fun later final rest' hlater hlead => ?_⟩⟩
  · rcases hends.eq_or_gives with ⟨-, hsame⟩ | ⟨hok, -⟩
    · exact hsame
    · cases hok
  · have hcommitted : (output.coin.commit gens).isCommitted gens = true :=
      output.coin.isCommitted_commit
    refine ⟨fun hfields => (Coin.isCommitted_congr hfields).trans hcommitted, fun hkeep => ?_⟩
    have hends := ends_commit gens output rest
    exact hlead.isCommitted hlater (hends.isReachable hreachable trivial) hkeep hcommitted

/-- A coin with an info and a serial number is committed to; a longer info is refused, and reading
the output back leaves it committed to. -/
theorem sequence_invariants_logarithms :
    let gens := Generators.logarithms
    let start := OutputCoin.plain (.uncommitted (Scalar.ofNat 3 • gens.privateKey) (.ofNat 5)
      (.ofNat 7) 30)
    ∃ (long : Bytes) (output : OutputCoin Logarithm) (rest : RandomSource), long.length = 256 ∧
      Lead [setInfo [1, 2], setSerial gens (.ofNat 3)] start (.ofCycle []) output rest ∧
      output.coin.info.length ≤ 255 ∧ Coin.ofBytes output.coin.toBytes = .ok output.coin ∧
      (∃ output' rest', (setInfo long).Ends output rest (.error (.infoTooLong 256)) output' rest' ∧
        output' = output) ∧
      ∃ committed final rest', (commit gens).Ends output rest (.ok ()) committed rest ∧
        Lead [setInfo long, assign (.serialNumber gens.privateKey), reload] committed rest final
          rest' ∧
        final.coin.isCommitted gens = true := by
  intro gens start
  obtain ⟨long, hlength⟩ : ∃ info : Bytes, info.length = 256 :=
    ⟨List.replicate 256 0, List.length_replicate⟩
  obtain ⟨output, rest, hlead⟩ :=
    exists_lead [setInfo [1, 2], setSerial gens (.ofNat 3)] start (.ofCycle [])
  obtain ⟨hinfo, hread, herror, hcommit⟩ := sequence_invariants
    (.plain (.uncommitted _ _ _ _)) (by simp [IsAvailable]) hlead
  obtain ⟨committed, hends, hkept⟩ := hcommit gens
  obtain ⟨final, rest', hlater⟩ :=
    exists_lead [setInfo long, assign (.serialNumber gens.privateKey), reload] committed rest
  have hbound : Coin.maxInfoLength < long.length := by
    rw [hlength]
    decide
  have hlong := ends_setInfo_of_lt hbound output rest
  rw [hlength] at hlong
  refine ⟨long, output, rest, hlength, hlead, hinfo, hread, ⟨_, _, hlong, herror _ _ _ _ hlong⟩,
    committed, final, rest', hends, hlater, ?_⟩
  exact (hkept _ final rest' (by simp [IsAvailable, Assignment.IsAvailable]) hlater).2
    (by simp [KeepsCommitment])

end Operation

end ConfidentialPayment
