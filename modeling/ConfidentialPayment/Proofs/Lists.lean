import Mathlib.Data.List.Forall2
import ConfidentialPayment.Bytes

/-!
# ConfidentialPayment.Proofs.Lists

Lists that belong together entry by entry, and lists cut into pieces of one length.

A private payment has one list for each of its parts. That the lists fit is a `List.Forall₂` between
them, which the lemmas here carry through maps, combinations and cuts.
-/

namespace ConfidentialPayment

variable {α β γ δ ι : Type}

/-! ## Matching lists -/

/-- Lists whose entries have the same images have the same image. -/
theorem map_eq_map_of_forall₂ {f : α → γ} {g : β → γ} {as : List α} {bs : List β}
    (h : List.Forall₂ (fun a b => f a = g b) as bs) : as.map f = bs.map g := by
  induction h with
  | nil => rfl
  | cons hab _ ih => rw [List.map_cons, List.map_cons, hab, ih]

/-- Every entry of the second list has a partner in the first. -/
theorem exists_mem_of_forall₂ {R : α → β → Prop} {as : List α} {bs : List β}
    (h : List.Forall₂ R as bs) : ∀ b ∈ bs, ∃ a ∈ as, R a b := by
  induction h with
  | nil => simp
  | cons hab _ ih =>
    rw [List.forall_mem_cons]
    refine ⟨⟨_, List.mem_cons_self .., hab⟩, fun b hb => ?_⟩
    obtain ⟨a, ha, hR⟩ := ih b hb
    exact ⟨a, List.mem_cons_of_mem _ ha, hR⟩

/-- Matching lists match at every place. -/
theorem exists_getElem?_of_forall₂ {R : α → β → Prop} {as : List α} {bs : List β}
    (h : List.Forall₂ R as bs) {j : ℕ} {a : α} (ha : as[j]? = some a) :
    ∃ b, bs[j]? = some b ∧ R a b := by
  induction h generalizing j with
  | nil => cases ha
  | cons hab _ ih =>
    cases j with
    | zero =>
      cases ha
      exact ⟨_, rfl, hab⟩
    | succ j => exact ih ha

/-- Two matches of the same lists are one. -/
theorem forall₂_and {R S : α → β → Prop} {as : List α} {bs : List β}
    (h : List.Forall₂ R as bs) (h' : List.Forall₂ S as bs) :
    List.Forall₂ (fun a b => R a b ∧ S a b) as bs := by
  induction h with
  | nil => exact .nil
  | cons hR _ ih =>
    cases h' with
    | cons hS hrest => exact .cons ⟨hR, hS⟩ (ih hrest)

/-- What a match asks of the second entry alone is asked of the second list. -/
theorem forall₂_and_right {p : β → Prop} {R : α → β → Prop} {as : List α} {bs : List β} :
    List.Forall₂ (fun a b => p b ∧ R a b) as bs ↔ (∀ b ∈ bs, p b) ∧ List.Forall₂ R as bs := by
  have hflip := List.forall₂_and_left (p := p) (R := flip R) bs as
  exact ⟨fun h => (hflip.mp h.flip).imp_right List.Forall₂.flip,
    fun h => (hflip.mpr (h.imp_right List.Forall₂.flip)).flip⟩

/-- A match between images, taken from a combination of both lists. -/
theorem forall₂_map_zipWith {R : γ → δ → Prop} {f : β → γ} {g : α → β → δ} {as : List α}
    {bs : List β} (h : List.Forall₂ (fun a b => R (f b) (g a b)) as bs) :
    List.Forall₂ R (bs.map f) (List.zipWith g as bs) := by
  induction h with
  | nil => exact .nil
  | cons hab _ ih => exact .cons hab ih

/-- A match that survives the combination of an entry with anything survives the combination of the
second list with a list of its length. -/
theorem forall₂_zipWith_right {R S : α → β → Prop} {f : ι → β → β} {as : List α}
    {bs : List β} {is : List ι} (hlength : is.length = bs.length) (h : List.Forall₂ R as bs)
    (hf : ∀ i a b, R a b → S a (f i b)) : List.Forall₂ S as (List.zipWith f is bs) := by
  induction h generalizing is with
  | nil => rw [List.zipWith_nil_right]; exact .nil
  | cons hab _ ih =>
    obtain ⟨i, is, rfl⟩ := List.exists_cons_of_length_eq_add_one hlength
    exact .cons (hf i _ _ hab) (ih (Nat.succ.inj hlength))

/-- The second list is the image of the first exactly if its entries are. -/
theorem forall₂_eq_map_iff {f : α → β} {as : List α} {bs : List β} :
    List.Forall₂ (fun a b => b = f a) as bs ↔ bs = as.map f := by
  rw [← List.forall₂_eq_eq_eq, List.forall₂_map_right_iff]
  exact ⟨List.Forall₂.flip, List.Forall₂.flip⟩

/-- Entries that match with something in between. -/
theorem forall₂_exists_map_iff {R : α → β → Prop} {f : β → γ} {as : List α} {cs : List γ} :
    List.Forall₂ (fun a c => ∃ b, R a b ∧ c = f b) as cs ↔
      ∃ bs, List.Forall₂ R as bs ∧ cs = bs.map f := by
  constructor
  · intro h
    induction h with
    | nil => exact ⟨[], .nil, rfl⟩
    | cons hab _ ih =>
      obtain ⟨b, hb, rfl⟩ := hab
      obtain ⟨bs, hbs, rfl⟩ := ih
      exact ⟨b :: bs, .cons hb hbs, rfl⟩
  · rintro ⟨bs, hbs, rfl⟩
    rw [List.forall₂_map_right_iff]
    exact hbs.imp fun _ b h => ⟨b, h, rfl⟩

/-- Entries that match with a pair of an entry in between and of what a function makes of the
first. -/
theorem forall₂_of_zip_map {R : α → β → Prop} {S : β × γ → δ → Prop} {f : α → γ} {as : List α}
    {bs : List β} {ds : List δ} (h : List.Forall₂ R as bs)
    (h' : List.Forall₂ S (bs.zip (as.map f)) ds) :
    List.Forall₂ (fun a d => ∃ b, R a b ∧ S (b, f a) d) as ds := by
  induction h generalizing ds with
  | nil =>
    cases h'
    exact .nil
  | cons hab _ ih =>
    cases h' with
    | cons hS hrest => exact .cons ⟨_, hab, hS⟩ (ih hrest)

/-- Entries that a function determines up to a choice. -/
theorem forall₂_exists_eq_iff {f : ι → α → β} {as : List α} {bs : List β} :
    List.Forall₂ (fun a b => ∃ i, b = f i a) as bs ↔
      ∃ is : List ι, is.length = as.length ∧ bs = List.zipWith f is as := by
  constructor
  · intro h
    induction h with
    | nil => exact ⟨[], rfl, rfl⟩
    | cons hab _ ih =>
      obtain ⟨i, rfl⟩ := hab
      obtain ⟨is, hlength, rfl⟩ := ih
      exact ⟨i :: is, congrArg (· + 1) hlength, rfl⟩
  · rintro ⟨is, hlength, rfl⟩
    induction as generalizing is with
    | nil => rw [List.zipWith_nil_right]; exact .nil
    | cons a as ih =>
      obtain ⟨i, is, rfl⟩ := List.exists_cons_of_length_eq_add_one hlength
      exact .cons ⟨i, rfl⟩ (ih is (Nat.succ.inj hlength))

/-- What holds of all corresponding entries holds of those at every place. -/
theorem forall_mem_zip_iff {p : α × β → Prop} {as : List α} {bs : List β} :
    (∀ entry ∈ as.zip bs, p entry) ↔
      ∀ (i : ℕ) a b, as[i]? = some a → bs[i]? = some b → p (a, b) := by
  constructor
  · intro h i a b ha hb
    exact h _ (List.mem_of_getElem? (List.getElem?_zip_eq_some.mpr ⟨ha, hb⟩))
  · rintro h ⟨a, b⟩ hmem
    obtain ⟨i, hi⟩ := List.mem_iff_getElem?.mp hmem
    obtain ⟨ha, hb⟩ := List.getElem?_zip_eq_some.mp hi
    exact h i a b ha hb

/-- What holds of every combination with an entry holds of a combined list. -/
theorem forall_mem_zipWith {p : γ → Prop} {f : ι → α → γ} {is : List ι} {as : List α}
    (h : ∀ i, ∀ a ∈ as, p (f i a)) : ∀ c ∈ List.zipWith f is as, p c := by
  rw [← List.map_uncurry_zip_eq_zipWith]
  exact List.forall_mem_map.mpr fun entry hentry => h entry.1 entry.2 (List.of_mem_zip hentry).2

/-- If every entry is combined, all entries have what their combinations give them. -/
theorem forall_mem_of_forall_mem_zipWith {p : γ → Prop} {q : α → Prop} {f : ι → α → γ}
    {is : List ι} {as : List α} (hlength : is.length = as.length) (hf : ∀ i a, p (f i a) → q a)
    (h : ∀ c ∈ List.zipWith f is as, p c) : ∀ a ∈ as, q a := by
  intro a ha
  obtain ⟨n, hn, rfl⟩ := List.mem_iff_getElem.mp ha
  have hn' : n < is.length := hlength ▸ hn
  have hentry : f is[n] as[n] ∈ List.zipWith f is as :=
    List.mem_iff_getElem.mpr ⟨n, by simp [hlength, hn], List.getElem_zipWith⟩
  exact hf _ _ (h _ hentry)

/-! ## Pieces -/

/-- A list of `n` times `k` entries has `n` pieces of length `k`. -/
theorem length_chunks {k n : ℕ} (hk : 0 < k) {as : List α} (h : as.length = n * k) :
    (Bytes.chunks k as).length = n := by
  induction n generalizing as with
  | zero =>
    obtain rfl := List.eq_nil_of_length_eq_zero (h.trans (Nat.zero_mul k))
    rw [Bytes.chunks, List.length_nil]
  | succ n ih =>
    rw [Nat.succ_mul] at h
    obtain ⟨a, as, rfl⟩ := List.exists_cons_of_length_pos (show 0 < as.length by omega)
    have hrest : (as.drop (k - 1)).length = n * k := by
      rw [List.length_drop]
      rw [List.length_cons] at h
      omega
    rw [Bytes.chunks, List.length_cons, ih hrest]

/-- A piece in front of a list is its first piece. -/
theorem chunks_append {k : ℕ} (hk : 0 < k) {as : List α} (h : as.length = k) (rest : List α) :
    Bytes.chunks k (as ++ rest) = as :: Bytes.chunks k rest := by
  obtain ⟨a, as, rfl⟩ := List.exists_cons_of_length_pos (h ▸ hk)
  obtain rfl : as.length + 1 = k := h
  rw [List.cons_append, Bytes.chunks, Nat.add_sub_cancel, List.take_left, List.drop_left]

/-- If the pieces come out even, none is short. -/
theorem length_of_mem_chunks {k n : ℕ} {as : List α} (h : as.length = n * k) :
    ∀ piece ∈ Bytes.chunks k as, piece.length = k := by
  induction n generalizing as with
  | zero =>
    obtain rfl := List.eq_nil_of_length_eq_zero (h.trans (Nat.zero_mul k))
    rw [Bytes.chunks]
    exact List.forall_mem_nil _
  | succ n ih =>
    rw [Nat.succ_mul] at h
    cases as with
    | nil =>
      rw [Bytes.chunks]
      exact List.forall_mem_nil _
    | cons a as =>
      rw [List.length_cons] at h
      rw [Bytes.chunks, List.forall_mem_cons, List.length_cons, List.length_take]
      by_cases hk : k = 0
      · subst hk
        omega
      · exact ⟨by omega, ih (by rw [List.length_drop]; omega)⟩

/-- The entries of a piece are those from its place in the list on. -/
theorem getElem?_of_chunks {k : ℕ} (hk : 0 < k) {as piece : List α} {i j : ℕ}
    (h : (Bytes.chunks k as)[i]? = some piece) (hj : j < k) : piece[j]? = as[i * k + j]? := by
  induction as using Bytes.chunks.induct k generalizing i with
  | case1 =>
    rw [Bytes.chunks] at h
    cases h
  | case2 a as ih =>
    rw [Bytes.chunks] at h
    cases i with
    | zero =>
      cases h
      rw [Nat.zero_mul, Nat.zero_add]
      cases j with
      | zero => rfl
      | succ j =>
        rw [List.getElem?_cons_succ, List.getElem?_cons_succ, List.getElem?_take_of_lt (by omega)]
    | succ i =>
      rw [List.getElem?_cons_succ] at h
      have hplace : (i + 1) * k + j = k - 1 + (i * k + j) + 1 := by
        rw [Nat.succ_mul]
        omega
      rw [ih h, List.getElem?_drop, hplace, List.getElem?_cons_succ]

/-- Lists that match entry by entry match piece by piece. -/
theorem forall₂_chunks {R : α → β → Prop} (k : ℕ) {as : List α} {bs : List β}
    (h : List.Forall₂ R as bs) :
    List.Forall₂ (List.Forall₂ R) (Bytes.chunks k as) (Bytes.chunks k bs) := by
  induction as using Bytes.chunks.induct k generalizing bs with
  | case1 =>
    cases h
    rw [Bytes.chunks, Bytes.chunks]
    exact .nil
  | case2 a as ih =>
    cases h with
    | cons hab hrest =>
      rw [Bytes.chunks, Bytes.chunks]
      exact .cons (.cons hab (List.forall₂_take _ hrest)) (ih (List.forall₂_drop _ hrest))

end ConfidentialPayment
