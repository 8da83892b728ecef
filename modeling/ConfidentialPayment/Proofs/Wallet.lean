import ConfidentialPayment.Proofs.Coin
import ConfidentialPayment.Proofs.Ledger
import ConfidentialPayment.Proofs.Runs
import ConfidentialPayment.Wallet

/-!
# ConfidentialPayment.Proofs.Wallet

What a wallet keeps, whatever it is asked for.

1. `Step` lists everything that an operation does to a wallet: it changes what is at hand, appends a
   commitment to the ledger, or keeps a coin under the serial number of a private key
   (`Operation.step_of_gives`). An operation that fails does nothing (`Operation.run_cases`).
2. What every step keeps, every sequence of operations keeps (`Operation.runAll_induction`).
3. So the ledger and the slots only grow, receipts stay valid, and every coin that is owned is on
   the ledger and has the serial number of a private key (`Operation.runAll_keeps`). A minted coin
   belongs to its private key as well, and stays where its receipt says
   (`Operation.receipt_of_mint`).
-/

namespace ConfidentialPayment.Wallet

variable {P : Type}

/-! ## Runs -/

namespace DrawOr

variable {α β : Type} {tape rest : RandomSource} {a : α} {b : β}

/-- On `tape` the program succeeds with `a` and leaves `rest`. -/
def Gives (program : DrawOr α) (tape : RandomSource) (a : α) (rest : RandomSource) : Prop :=
  Id.run (program.run.run tape) = (.ok a, rest)

/-- A result that is passed on draws nothing. -/
theorem gives_passOn {result : Except Failure α} :
    (passOn result).Gives tape a rest ↔ result = .ok a ∧ tape = rest :=
  Prod.mk_inj

/-- Changing a result does not change what is drawn. -/
theorem gives_map {f : α → β} {program : DrawOr α} :
    (f <$> program).Gives tape b rest ↔ ∃ a, program.Gives tape a rest ∧ f a = b := by
  have hrun : Id.run ((f <$> program).run.run tape) =
      ((program.run.run tape).1.map f, (program.run.run tape).2) := by
    rw [ExceptT.run_map]
    rfl
  unfold Gives
  rw [hrun]
  cases h : Id.run (program.run.run tape) with
  | mk result middle =>
    change program.run.run tape = (result, middle) at h
    rw [h]
    cases result with
    | error e => simp [Except.map]
    | ok a' => simp [Except.map, and_comm, eq_comm]

/-- A program of the library runs inside a wallet as it does alone. -/
theorem gives_attempt {program : DrawExcept α} :
    (attempt program).Gives tape a rest ↔ program.Gives tape a rest := by
  have hrun : Id.run ((attempt program).run.run tape) =
      ((program.run.run tape).1.mapError Failure.refused, (program.run.run tape).2) := rfl
  unfold Gives DrawExcept.Gives
  rw [hrun]
  cases h : Id.run (program.run.run tape) with
  | mk result middle =>
    change program.run.run tape = (result, middle) at h
    rw [h]
    cases result with
    | error e => simp [Except.mapError]
    | ok a' => simp [Except.mapError]

end DrawOr

/-! ## Steps -/

variable [Suite P] {gens : Generators P} {table : GeneratorTable P} {w w' before after : Wallet P}
  {tape rest : RandomSource}

/-- The serial number of a coin is the one that some private key gives it. -/
def HasSerial (gens : Generators P) (coin : Coin P) : Prop :=
  ∃ privateKey, deriveSerial gens.privateKey privateKey coin.derivator = .ok coin.serialNumber

/-- Everything that an operation does to a wallet. -/
inductive Step (gens : Generators P) (w : Wallet P) : Wallet P → Prop
  /-- Only what is at hand changes, if anything does. -/
  | hold (made : Option (Payment.Witness P)) (current : Bytes) :
      Step gens w { w with made, current }
  /-- A commitment is appended to the ledger. -/
  | observe (commitment : P) : Step gens w (w.observe commitment).2
  /-- A coin is kept. -/
  | keep (coin : Coin P) (hserial : HasSerial gens coin) : Step gens w (w.keep coin).2

/-- Giving a coin its serial number leaves it with the serial number of the key. -/
theorem hasSerial_of_withSerial {privateKey : Scalar} {coin coin' : Coin P}
    (h : coin.withSerial gens privateKey = .ok coin') : HasSerial gens coin' := by
  obtain ⟨serialNumber, hserial, hcoin⟩ := bind_eq_ok.mp h
  obtain rfl := pure_eq_ok.mp hcoin
  exact ⟨privateKey, hserial⟩

/-- A minted coin can be spent with its private key, and it has the value and the info asked for. -/
theorem mintCoin_of_gives {privateKey : Scalar} {value : UInt64} {info : Bytes} {coin : Coin P}
    (h : (mintCoin gens privateKey value info).Gives tape coin rest) :
    coin.IsGenuine gens privateKey ∧ coin.value = value ∧ coin.info = info := by
  simp only [mintCoin, DrawExcept.gives_bind, DrawExcept.gives_ofExcept] at h
  obtain ⟨derivator, _, -, blinding, _, -, coin', _, ⟨hinfo, -⟩, hserial, -⟩ := h
  unfold Coin.withInfo at hinfo
  split_ifs at hinfo
  obtain rfl := Except.ok.inj hinfo
  obtain ⟨serialNumber, hderived, hcoin⟩ := bind_eq_ok.mp hserial
  obtain rfl := pure_eq_ok.mp hcoin
  exact ⟨⟨rfl, Coin.isCommitted_commit _, hderived⟩, rfl, rfl⟩

/-- A coin that is received has the serial number of a private key. -/
theorem receive_eq_ok {output : ℕ} {privateKey : Scalar} {receivingKey : Option Scalar}
    {result : Receipt P × Wallet P}
    (h : w.receive gens output privateKey receivingKey = .ok result) :
    ∃ coin, HasSerial gens coin ∧ result = w.keep coin := by
  unfold receive at h
  obtain ⟨proof, -, h⟩ := bind_eq_ok.mp h
  split at h
  · cases h
  · obtain ⟨coin, hcoin, h⟩ := bind_eq_ok.mp h
    obtain ⟨_, -, hserial⟩ := bind_eq_ok.mp (mapError_eq_ok.mp hcoin)
    exact ⟨coin, hasSerial_of_withSerial hserial, (pure_eq_ok.mp h).symm⟩

/-! ## Growth -/

omit [Suite P] in
/-- Slots are the places of the coins that are owned. -/
theorem coinAt_eq_ok_iff {slot : ℕ} {coin : Coin P} :
    w.coinAt slot = .ok coin ↔ w.coins[slot]? = some coin := by
  unfold coinAt
  cases w.coins[slot]? <;> simp

/-- The ledger and the slots of one wallet continue those of another one. -/
structure Extends (after before : Wallet P) : Prop where
  ledger : after.ledger.Extends before.ledger
  coinAt : ∀ {slot coin}, before.coinAt slot = .ok coin → after.coinAt slot = .ok coin

/-- A wallet continues itself. -/
theorem Extends.refl : w.Extends w := ⟨.refl, id⟩

/-- What continues a continuation continues the first wallet. -/
theorem Extends.trans {middle : Wallet P} (h : after.Extends middle) (h' : middle.Extends before) :
    after.Extends before :=
  ⟨h.ledger.trans h'.ledger, fun hcoin => h.coinAt (h'.coinAt hcoin)⟩

/-- The slot of a coin that is kept is one that was not given before. -/
theorem extends_keep (w : Wallet P) (coin : Coin P) : (w.keep coin).2.Extends w where
  ledger := Ledger.Indexed.extends_push
  coinAt {slot other} hcoin := by
    have hslot := coinAt_eq_ok_iff.mp hcoin
    have hne : slot ≠ w.coins.size := Nat.ne_of_lt (Array.getElem?_eq_some_iff.mp hslot).1
    refine coinAt_eq_ok_iff.mpr ?_
    show (w.coins.push coin)[slot]? = some other
    rw [Array.getElem?_push, if_neg hne, hslot]

/-- No step takes a commitment from the ledger or a coin from its slot. -/
theorem Step.extends (h : Step gens w w') : w'.Extends w := by
  cases h with
  | hold made current => exact ⟨.refl, id⟩
  | observe commitment => exact ⟨Ledger.Indexed.extends_push, id⟩
  | keep coin hserial => exact extends_keep w coin

/-- What a receipt says is true: its coin is in its slot, and its commitment has its number. -/
structure Receipt.IsValid (receipt : Receipt P) (w : Wallet P) : Prop where
  commitment : w.ledger.get? receipt.index = some receipt.coin.commitment
  coin : w.coinAt receipt.slot = .ok receipt.coin

/-- Keeping a coin gives a valid receipt for it. -/
theorem Receipt.isValid_keep (w : Wallet P) (coin : Coin P) :
    (w.keep coin).1.IsValid (w.keep coin).2 where
  commitment := Array.getElem?_push_size
  coin := coinAt_eq_ok_iff.mpr Array.getElem?_push_size

/-- A receipt stays valid while the wallet grows. -/
theorem Receipt.IsValid.of_extends {receipt : Receipt P} (h : receipt.IsValid before)
    (hgrowth : after.Extends before) : receipt.IsValid after :=
  ⟨hgrowth.ledger.get? h.commitment, hgrowth.coinAt h.coin⟩

/-! ## Ownership -/

/-- Every coin that is owned is on the ledger and has the serial number of a private key. -/
def IsSound (gens : Generators P) (w : Wallet P) : Prop :=
  ∀ coin ∈ w.coins, w.ledger.contains coin.commitment = true ∧ HasSerial gens coin

/-- Nothing is wrong with a wallet that owns nothing. -/
theorem isSound_empty : (empty : Wallet P).IsSound gens := by
  simp [IsSound, empty]

/-- A coin that is kept comes to the ledger, and the coins before it stay there. -/
theorem Step.isSound (h : Step gens w w') (hw : w.IsSound gens) : w'.IsSound gens := by
  have hearlier (coin) (hcoin : coin ∈ w.coins) :
      w'.ledger.contains coin.commitment = true ∧ HasSerial gens coin :=
    ⟨h.extends.ledger.view.contains (hw coin hcoin).1, (hw coin hcoin).2⟩
  cases h with
  | hold made current => exact hearlier
  | observe commitment => exact hearlier
  | keep coin hserial =>
    intro other hmem
    rcases Array.mem_push.mp hmem with hmem | rfl
    · exact hearlier other hmem
    · exact ⟨Std.HashMap.contains_insertIfNew_self, hserial⟩

/-! ## Sequences -/

namespace Operation

variable {operation : Operation P} {operations : List (Operation P)}

/-- An operation that succeeds takes one step. -/
theorem step_of_gives (h : (operation.apply gens table w).Gives tape w' rest) :
    Step gens w w' := by
  cases operation with
  | load current =>
    obtain rfl := Except.ok.inj (DrawOr.gives_passOn.mp h).1
    exact .hold w.made current
  | flip place mask =>
    have hflip := (DrawOr.gives_passOn.mp h).1
    unfold Wallet.flip at hflip
    split_ifs at hflip
    obtain rfl := Except.ok.inj hflip
    exact .hold w.made _
  | observe commitment =>
    obtain rfl := Except.ok.inj (DrawOr.gives_passOn.mp h).1
    exact .observe commitment
  | mint privateKey value info =>
    obtain ⟨_, hmint, rfl⟩ := DrawOr.gives_map.mp h
    obtain ⟨coin, hcoin, rfl⟩ := DrawOr.gives_map.mp hmint
    have hgenuine := (mintCoin_of_gives (DrawOr.gives_attempt.mp hcoin)).1
    exact .keep coin ⟨privateKey, hgenuine.serialNumber⟩
  | pay request =>
    obtain ⟨_, hpay, rfl⟩ := DrawOr.gives_map.mp h
    simp only [Wallet.pay, DrawOr.gives_attempt, DrawExcept.gives_bind,
      DrawExcept.gives_pure] at hpay
    obtain ⟨witness, _, -, proof, _, -, rfl, -⟩ := hpay
    exact .hold (some witness) proof.toBytes
  | sign =>
    obtain ⟨_, -, rfl⟩ := DrawOr.gives_map.mp h
    exact .hold w.made w.current
  | verify isPrivate fee =>
    obtain ⟨_, -, rfl⟩ := DrawOr.gives_map.mp h
    exact .hold w.made w.current
  | receive output privateKey receivingKey =>
    obtain ⟨_, hreceive, rfl⟩ := DrawOr.gives_map.mp h
    obtain ⟨coin, hserial, rfl⟩ := receive_eq_ok (DrawOr.gives_passOn.mp hreceive).1
    exact .keep coin hserial

/-- An operation that fails leaves the wallet as it was, and one that succeeds takes a step. -/
theorem run_cases (operation : Operation P) (w : Wallet P) (tape : RandomSource) :
    (∃ cause, ((operation.run gens table w).run tape).1 = (.error cause, w)) ∨
      ∃ w', ((operation.run gens table w).run tape).1 = (.ok (), w') ∧ Step gens w w' := by
  have hrun : (operation.run gens table w).run tape =
      match (operation.apply gens table w).run.run tape with
      | (.ok w', rest) => ((.ok (), w'), rest)
      | (.error cause, rest) => ((.error cause, w), rest) := by
    rw [run, StateT.run_bind]
    cases (operation.apply gens table w).run.run tape with
    | mk result rest =>
      cases result with
      | ok w' => rfl
      | error cause => rfl
  rw [hrun]
  cases happly : (operation.apply gens table w).run.run tape with
  | mk result rest =>
    cases result with
    | ok w' => exact .inr ⟨w', rfl, step_of_gives happly⟩
    | error cause => exact .inl ⟨cause, rfl⟩

/-- What every step keeps, every sequence of operations keeps. -/
theorem runAll_induction (Inv : Wallet P → Prop)
    (hstep : ∀ w w', Step gens w w' → Inv w → Inv w') (hw : Inv w) (tape : RandomSource) :
    Inv ((runAll gens table operations w).run tape).1 := by
  induction operations generalizing w tape with
  | nil => exact hw
  | cons operation operations ih =>
    refine ih (w := ((operation.run gens table w).run tape).1.2) ?_ _
    rcases operation.run_cases w tape with ⟨cause, hrun⟩ | ⟨w', hrun, htaken⟩
    · rw [hrun]
      exact hw
    · rw [hrun]
      exact hstep w w' htaken hw

/-- What every sequence of operations keeps, whether or not they succeed. The ledger and the slots
only grow, so receipts stay valid; and if every coin that is owned was on the ledger and had the
serial number of a private key, then so it is afterwards. -/
theorem runAll_keeps (operations : List (Operation P)) (w : Wallet P) (tape : RandomSource) :
    let after := ((runAll gens table operations w).run tape).1
    after.Extends w ∧ (∀ receipt : Receipt P, receipt.IsValid w → receipt.IsValid after) ∧
      (w.IsSound gens → after.IsSound gens) := by
  intro after
  have hgrowth : after.Extends w :=
    runAll_induction (fun after => after.Extends w) (fun _ _ hstep h => hstep.extends.trans h)
      .refl tape
  exact ⟨hgrowth, fun _ hvalid => hvalid.of_extends hgrowth,
    fun hw => runAll_induction (IsSound gens) (fun _ _ => Step.isSound) hw tape⟩

/-- A wallet that started empty owns nothing but coins of the ledger with serial numbers of private
keys. -/
theorem isSound_runAll_empty (operations : List (Operation P)) (tape : RandomSource) :
    IsSound gens ((runAll gens table operations empty).run tape).1 :=
  (runAll_keeps operations empty tape).2.2 isSound_empty

/-- A minted coin can be spent with its private key, and its receipt is valid from then on. -/
theorem receipt_of_mint {privateKey : Scalar} {value : UInt64} {info : Bytes}
    {result : Receipt P × Wallet P}
    (h : (w.mint gens privateKey value info).Gives tape result rest)
    (operations : List (Operation P)) (tape' : RandomSource) :
    result.1.coin.IsGenuine gens privateKey ∧ result.1.coin.value = value ∧
      result.1.coin.info = info ∧
      result.1.IsValid ((runAll gens table operations result.2).run tape').1 := by
  obtain ⟨coin, hcoin, rfl⟩ := DrawOr.gives_map.mp h
  obtain ⟨hgenuine, hvalue, hinfo⟩ := mintCoin_of_gives (DrawOr.gives_attempt.mp hcoin)
  exact ⟨hgenuine, hvalue, hinfo,
    (runAll_keeps operations (w.keep coin).2 tape').2.1 _ (Receipt.isValid_keep w coin)⟩

end Operation

end ConfidentialPayment.Wallet
