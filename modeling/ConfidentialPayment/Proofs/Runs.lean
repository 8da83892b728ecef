import Mathlib.Data.List.Forall2
import ConfidentialPayment.Proofs.Lists
import ConfidentialPayment.RandomSource

/-!
# ConfidentialPayment.Proofs.Runs

Runs of programs that may fail, with and without random bytes.

1. The lemmas `…_eq_ok` say when a program without random bytes succeeds: a sequence does exactly
   if its parts do.
2. `program.Gives tape a rest` is one run of a program that draws: on `tape` it succeeds with `a`
   and leaves `rest`. A run of a sequence is a run of each part (`gives_bind`).
3. `program.Ensures Q` says that every run succeeds with a result that satisfies `Q`, whatever the
   tape is. Sequences are taken apart by `Ensures.bind`, traversals by `Ensures.mapM`.
4. `program.outcome tape` is what a run ends with, a result or the cause of its failure. It is said
   of programs that check first, then draw, and then decide.
-/

namespace ConfidentialPayment

/-! ## Programs without random bytes -/

section Except

variable {ε α β : Type}

/-- A sequence succeeds exactly if both parts do, the second one with the result of the first. -/
theorem bind_eq_ok {x : Except ε α} {f : α → Except ε β} {b : β} :
    (x >>= f) = .ok b ↔ ∃ a, x = .ok a ∧ f a = .ok b := by
  cases x with
  | error e => simp [bind, Except.bind]
  | ok a => simp [bind, Except.bind]

/-- A sequence fails in its first part or, if that succeeds, in its second. -/
theorem bind_eq_error {x : Except ε α} {f : α → Except ε β} {e : ε} :
    (x >>= f) = .error e ↔ x = .error e ∨ ∃ a, x = .ok a ∧ f a = .error e := by
  cases x with
  | error e' => simp [bind, Except.bind]
  | ok a => simp [bind, Except.bind]

/-- A check in front of a program has to pass. -/
theorem check_bind_eq_ok {check : Except ε Unit} {next : Unit → Except ε β} {b : β} :
    (check >>= next) = .ok b ↔ check = .ok () ∧ next () = .ok b := by
  rw [bind_eq_ok]
  exact ⟨fun ⟨⟨⟩, h⟩ => h, fun h => ⟨(), h⟩⟩

theorem pure_eq_ok {a b : α} : (pure a : Except ε α) = .ok b ↔ a = b :=
  Except.ok.injEq a b ▸ Iff.rfl

/-- Changing the cause of a failure changes no result. -/
theorem mapError_eq_ok {δ : Type} {f : ε → δ} {x : Except ε α} {a : α} :
    x.mapError f = .ok a ↔ x = .ok a := by
  cases x <;> simp [Except.mapError]

/-- A refusal in front of a program passes exactly if its condition fails. -/
theorem refuse_eq_ok {c : Prop} [Decidable c] {e : ε} {next : PUnit → Except ε β} {b : β} :
    (if c then throw e >>= next else next ⟨⟩) = .ok b ↔ ¬ c ∧ next ⟨⟩ = .ok b := by
  by_cases h : c
  · simp [h, throw, throwThe, MonadExceptOf.throw, bind, Except.bind]
  · simp [h]

/-- A traversal succeeds exactly if every step does. -/
theorem forM_eq_ok {f : α → Except ε Unit} {xs : List α} :
    xs.forM f = .ok () ↔ ∀ x ∈ xs, f x = .ok () := by
  induction xs with
  | nil => simp [List.forM, pure, Except.pure]
  | cons x xs ih =>
    change (f x >>= fun _ => xs.forM f) = .ok () ↔ _
    rw [bind_eq_ok, List.forall_mem_cons, ← ih]
    constructor
    · rintro ⟨⟨⟩, hx, hxs⟩
      exact ⟨hx, hxs⟩
    · rintro ⟨hx, hxs⟩
      exact ⟨(), hx, hxs⟩

/-- A traversal that fails ends with the error of the first step that fails. -/
theorem exists_first_error {f : α → Except ε Unit} {xs : List α}
    (h : ¬ ∀ x ∈ xs, f x = .ok ()) :
    ∃ before x after e, xs = before ++ x :: after ∧ (∀ b ∈ before, f b = .ok ()) ∧
      f x = .error e ∧ xs.forM f = .error e := by
  induction xs with
  | nil => exact absurd (List.forall_mem_nil _) h
  | cons x xs ih =>
    cases hx : f x with
    | error e =>
      refine ⟨[], x, xs, e, rfl, List.forall_mem_nil _, hx, ?_⟩
      change (f x >>= fun _ => xs.forM f) = _
      rw [hx]
      rfl
    | ok u =>
      have hxs : ¬ ∀ x ∈ xs, f x = .ok () := fun hall => h (List.forall_mem_cons.mpr ⟨hx, hall⟩)
      obtain ⟨before, x', after, e, rfl, hbefore, hx', herror⟩ := ih hxs
      refine ⟨x :: before, x', after, e, rfl, List.forall_mem_cons.mpr ⟨hx, hbefore⟩, hx', ?_⟩
      change (f x >>= fun _ => (before ++ x' :: after).forM f) = _
      rw [hx]
      exact herror

/-- A traversal that fails has a step that fails with the same error. -/
theorem exists_of_forM_eq_error {f : α → Except ε Unit} {xs : List α} {e : ε}
    (h : xs.forM f = .error e) : ∃ x ∈ xs, f x = .error e := by
  have hfails : ¬ ∀ x ∈ xs, f x = .ok () := fun hall => by cases h.symm.trans (forM_eq_ok.mpr hall)
  obtain ⟨before, x, after, e', rfl, -, hx, he'⟩ := exists_first_error hfails
  exact ⟨x, by simp, Except.error.inj (he'.symm.trans h) ▸ hx⟩

/-- A traversal fails for the cause of one of its steps. -/
theorem exists_of_mapM_eq_error {f : α → Except ε β} {xs : List α} {e : ε}
    (h : xs.mapM f = .error e) : ∃ x ∈ xs, f x = .error e := by
  induction xs with
  | nil => cases h
  | cons x xs ih =>
    rw [List.mapM_cons] at h
    rcases bind_eq_error.mp h with hx | ⟨y, -, h⟩
    · exact ⟨x, List.mem_cons_self .., hx⟩
    · rcases bind_eq_error.mp h with hxs | ⟨ys, -, hpure⟩
      · obtain ⟨x', hx', he⟩ := ih hxs
        exact ⟨x', List.mem_cons_of_mem x hx', he⟩
      · cases hpure

/-- A traversal succeeds exactly if every step does, and its results are those of the steps. -/
theorem mapM_eq_ok {f : α → Except ε β} {xs : List α} {ys : List β} :
    xs.mapM f = .ok ys ↔ List.Forall₂ (fun x y => f x = .ok y) xs ys := by
  induction xs generalizing ys with
  | nil =>
    rw [List.mapM_nil, pure_eq_ok, List.forall₂_nil_left_iff]
    exact eq_comm
  | cons x xs ih =>
    rw [List.mapM_cons, bind_eq_ok]
    constructor
    · rintro ⟨y, hy, h⟩
      obtain ⟨ys', hys', h⟩ := bind_eq_ok.mp h
      obtain rfl := pure_eq_ok.mp h
      exact .cons hy (ih.mp hys')
    · intro h
      cases h with
      | cons hy hys => exact ⟨_, hy, bind_eq_ok.mpr ⟨_, ih.mpr hys, rfl⟩⟩

end Except

/-! ## Programs that cannot fail -/

/-- What every run of every step satisfies holds entry by entry of a traversal. -/
theorem Draw.forall₂_mapM {α β : Type} {f : α → Draw β} {S : α → β → Prop} {xs : List α}
    (h : ∀ x ∈ xs, ∀ tape, S x ((f x).run tape).1) (tape : RandomSource) :
    List.Forall₂ S xs ((xs.mapM f).run tape).1 := by
  induction xs generalizing tape with
  | nil => exact .nil
  | cons x xs ih =>
    rw [List.mapM_cons]
    exact .cons (h x (List.mem_cons_self ..) tape)
      (ih (fun x' hx' => h x' (List.mem_cons_of_mem x hx')) ((f x).run tape).2)

namespace DrawExcept

variable {α β : Type}

/-! ## Single runs -/

/-- On `tape` the program succeeds with `a` and leaves `rest`. -/
def Gives (program : DrawExcept α) (tape : RandomSource) (a : α) (rest : RandomSource) : Prop :=
  Id.run (program.run.run tape) = (.ok a, rest)

variable {tape rest : RandomSource} {a : α} {b : β}

theorem gives_pure {a' : α} :
    (pure a : DrawExcept α).Gives tape a' rest ↔ a = a' ∧ tape = rest := by
  change ((Except.ok a : Except Error α), tape) = (.ok a', rest) ↔ _
  simp

/-- A run of a sequence is a run of the first program followed by one of the second. -/
theorem gives_bind {program : DrawExcept α} {next : α → DrawExcept β} :
    (program >>= next).Gives tape b rest ↔
      ∃ a middle, program.Gives tape a middle ∧ (next a).Gives middle b rest := by
  unfold Gives
  cases h : Id.run (program.run.run tape) with
  | mk result middle =>
    change program.run.run tape = (result, middle) at h
    cases result with
    | error e =>
      have hseq : Id.run ((program >>= next).run.run tape) = (.error e, middle) := by
        rw [ExceptT.run_bind, StateT.run_bind, h]
        rfl
      rw [hseq]
      simp
    | ok a =>
      have hseq : Id.run ((program >>= next).run.run tape) =
          Id.run ((next a).run.run middle) := by
        rw [ExceptT.run_bind, StateT.run_bind, h]
        rfl
      rw [hseq]
      simp

/-- Changing a result does not change what is drawn. -/
theorem gives_map {f : α → β} {program : DrawExcept α} :
    (f <$> program).Gives tape b rest ↔ ∃ a, program.Gives tape a rest ∧ f a = b := by
  rw [← bind_pure_comp, gives_bind]
  simp only [gives_pure]
  grind

/-- A program without random bytes leaves the tape as it is. -/
theorem gives_ofExcept {result : Except Error α} :
    (ofExcept result).Gives tape a rest ↔ result = .ok a ∧ tape = rest := by
  cases result with
  | ok a' => simp only [ofExcept, gives_pure, Except.ok.injEq]
  | error e =>
    change ((Except.error e : Except Error α), tape) = (.ok a, rest) ↔ _
    simp

/-- A program that fails gives nothing. -/
theorem gives_fail {cause : Error} : ¬ (fail cause : DrawExcept α).Gives tape a rest := by
  change ¬ ((Except.error cause : Except Error α), tape) = (.ok a, rest)
  simp

/-- A program that cannot fail gives what it draws. -/
theorem gives_lift {program : Draw α} :
    (liftM program : DrawExcept α).Gives tape a rest ↔ program.run tape = (a, rest) := by
  change ((Except.ok (program.run tape).1 : Except Error α), (program.run tape).2) =
    (.ok a, rest) ↔ _
  rw [Prod.ext_iff, Prod.ext_iff]
  simp

/-- A program that cannot fail gives the result of its run. -/
theorem Gives.eq_run {program : Draw α}
    (h : (liftM program : DrawExcept α).Gives tape a rest) : a = (program.run tape).1 :=
  (Prod.mk.inj (gives_lift.mp h).symm).1

/-- The results of a traversal come from runs of its steps. -/
theorem Gives.forall₂_of_mapM {f : α → DrawExcept β} {xs : List α} {ys : List β}
    (h : (xs.mapM f).Gives tape ys rest) :
    List.Forall₂ (fun x y => ∃ before after, (f x).Gives before y after) xs ys := by
  induction xs generalizing ys tape rest with
  | nil =>
    rw [List.mapM_nil, gives_pure] at h
    rw [← h.1]
    exact .nil
  | cons x xs ih =>
    rw [List.mapM_cons, gives_bind] at h
    obtain ⟨y, middle, hy, h⟩ := h
    obtain ⟨ys', _, hys', h⟩ := gives_bind.mp h
    obtain ⟨rfl, -⟩ := gives_pure.mp h
    exact .cons ⟨tape, middle, hy⟩ (ih hys')

/-- Every result of a traversal is that of one of its steps. -/
theorem Gives.exists_of_mem_mapM {f : α → DrawExcept β} {xs : List α} {ys : List β}
    (h : (xs.mapM f).Gives tape ys rest) :
    ∀ y ∈ ys, ∃ x ∈ xs, ∃ before after, (f x).Gives before y after :=
  exists_mem_of_forall₂ h.forall₂_of_mapM

/-! ## Outcomes -/

/-- What the program ends with on a tape. -/
def outcome (program : DrawExcept α) (tape : RandomSource) : Except Error α :=
  (Id.run (program.run.run tape)).1

/-- The outcome is a result exactly if the program gives it. -/
theorem outcome_eq_ok_iff {program : DrawExcept α} :
    program.outcome tape = .ok a ↔ ∃ rest, program.Gives tape a rest := by
  simp only [outcome, Gives, Prod.ext_iff, exists_and_left, exists_eq', and_true]

/-- Without draws the outcome is the result, whatever the tape. -/
theorem outcome_ofExcept (result : Except Error α) : (ofExcept result).outcome tape = result := by
  cases result with
  | ok a => rfl
  | error e => rfl

/-- A check in front of a program. -/
theorem outcome_ofExcept_bind (result : Except Error α) (next : α → DrawExcept β) :
    (ofExcept result >>= next).outcome tape = result >>= fun a => (next a).outcome tape := by
  cases result with
  | ok a => rfl
  | error e => rfl

/-- A program that cannot fail in front of another one. -/
theorem outcome_lift_bind (program : Draw α) (next : α → DrawExcept β) :
    ((liftM program : DrawExcept α) >>= next).outcome tape =
      (next (program.run tape).1).outcome (program.run tape).2 := rfl

/-! ## All runs -/

/-- On every tape the program succeeds with a result that satisfies `Q`. -/
def Ensures (program : DrawExcept α) (Q : α → Prop) : Prop :=
  ∀ tape, ∃ a rest, program.Gives tape a rest ∧ Q a

variable {Q Q' : α → Prop} {R : β → Prop}

/-- There is one run on every tape. -/
theorem Gives.unique {program : DrawExcept α} {a' : α} {rest' : RandomSource}
    (h : program.Gives tape a rest) (h' : program.Gives tape a' rest') : a = a' ∧ rest = rest' := by
  simpa using h.symm.trans h'

/-- What a program ensures holds of what it gives. -/
theorem Ensures.of_gives {program : DrawExcept α} (h : program.Ensures Q)
    (hrun : program.Gives tape a rest) : Q a := by
  obtain ⟨a', rest', hrun', ha'⟩ := h tape
  exact (hrun.unique hrun').1 ▸ ha'

/-- A program with the same result on every tape ensures what holds of it. -/
theorem Ensures.of_outcome {program : DrawExcept α} (h : ∀ tape, program.outcome tape = .ok a)
    (ha : Q a) : program.Ensures Q := by
  intro tape
  obtain ⟨rest, hrun⟩ := outcome_eq_ok_iff.mp (h tape)
  exact ⟨a, rest, hrun, ha⟩

/-- A program ensures what follows from what it ensures. -/
theorem Ensures.mono {program : DrawExcept α} (h : program.Ensures Q) (hQ : ∀ a, Q a → Q' a) :
    program.Ensures Q' := by
  intro tape
  obtain ⟨a, rest, hrun, ha⟩ := h tape
  exact ⟨a, rest, hrun, hQ a ha⟩

theorem Ensures.pure (h : Q a) : (Pure.pure a : DrawExcept α).Ensures Q :=
  fun tape => ⟨a, tape, gives_pure.mpr ⟨rfl, rfl⟩, h⟩

/-- A sequence ensures what its second part ensures of every result that the first part ensures. -/
theorem Ensures.bind {program : DrawExcept α} {next : α → DrawExcept β}
    (h : program.Ensures Q) (hnext : ∀ a, Q a → (next a).Ensures R) :
    (program >>= next).Ensures R := by
  intro tape
  obtain ⟨a, middle, hrun, ha⟩ := h tape
  obtain ⟨b, rest, hrun', hb⟩ := hnext a ha middle
  exact ⟨b, rest, gives_bind.mpr ⟨a, middle, hrun, hrun'⟩, hb⟩

/-- A program without draws that succeeds ensures what holds of its result. -/
theorem Ensures.ofExcept {result : Except Error α} (h : result = .ok a) (ha : Q a) :
    (DrawExcept.ofExcept result).Ensures Q :=
  fun tape => ⟨a, tape, gives_ofExcept.mpr ⟨h, rfl⟩, ha⟩

/-- A program that cannot fail ensures what all its results satisfy. -/
theorem Ensures.lift {program : Draw α} (h : ∀ tape, Q (program.run tape).1) :
    (liftM program : DrawExcept α).Ensures Q :=
  fun tape => ⟨_, _, gives_lift.mpr rfl, h tape⟩

/-- A check that passes in front of a program. -/
theorem Ensures.ofExcept_bind {result : Except Error α} {next : α → DrawExcept β}
    (h : result = .ok a) (hnext : (next a).Ensures R) :
    ((DrawExcept.ofExcept result) >>= next).Ensures R :=
  .bind (.ofExcept (Q := fun a' => a' = a) h rfl) fun _ ha => ha ▸ hnext

/-- What a program that cannot fail draws may be left open. -/
theorem Ensures.lift_bind {program : Draw α} {next : α → DrawExcept β}
    (h : ∀ a, (next a).Ensures R) : ((liftM program : DrawExcept α) >>= next).Ensures R :=
  .bind (Q := fun _ => True) (.lift fun _ => trivial) fun a _ => h a

/-- A traversal ensures what its steps ensure, entry by entry. -/
theorem Ensures.mapM {f : α → DrawExcept β} {S : α → β → Prop} {xs : List α}
    (h : ∀ x ∈ xs, (f x).Ensures (S x)) : (xs.mapM f).Ensures (List.Forall₂ S xs) := by
  induction xs with
  | nil => exact .pure .nil
  | cons x xs ih =>
    rw [List.mapM_cons]
    refine (h x (List.mem_cons_self ..)).bind fun y hy => ?_
    refine (ih fun x' hx' => h x' (List.mem_cons_of_mem x hx')).bind fun ys hys => ?_
    exact .pure (.cons hy hys)

end DrawExcept

end ConfidentialPayment
