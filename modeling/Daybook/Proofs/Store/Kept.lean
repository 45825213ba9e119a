import Daybook.Proofs.Booking.Completion
import Daybook.Proofs.Store.Keeping

/-!
# What is kept of a transaction

A transaction that has to balance and does not is completed; the others are kept as they are
(`completed_of_kept?`). The postings are then kept one by one: their amounts get the form that is
declared, which changes neither names nor numbers, so that the costs are those of the completed
transaction (`costs_of_kept`).
-/

namespace Daybook

open Commodity (named sumOf Agree ExactRange)
open Posting (costs)

namespace Store

/-- Whether amounts of the name are declared to be written with the unit before the number. -/
def marksCurrency (s : Store) (n : String) : Bool := (s.declarations.find? n).any (·.currency)

/-- The postings are those of the first list, each kept on some account. -/
def Kept (s : Store) (xs ys : List Posting) : Prop :=
  List.Forall₂ (fun x y => ∃ name, y = s.keptOn name x) xs ys

variable {s : Store}

/-! ## The declared form -/

@[simp] theorem name_declaredForm (s : Store) (c : Commodity) :
    (s.declaredForm c).name = c.name := by
  rw [declaredForm]
  split <;> rfl

@[simp] theorem amount_declaredForm (s : Store) (c : Commodity) :
    (s.declaredForm c).amount = c.amount := by
  rw [declaredForm]
  split <;> rfl

@[simp] theorem value_declaredForm (s : Store) (c : Commodity) :
    (s.declaredForm c).value = c.value := by
  rw [Commodity.value, amount_declaredForm, Commodity.value]

theorem currency_declaredForm (s : Store) (c : Commodity) :
    (s.declaredForm c).currency = (c.currency || s.marksCurrency c.name) := by
  rw [declaredForm, marksCurrency]
  cases s.declarations.find? c.name <;> simp

theorem costAt_declaredForm (s : Store) (amount price : Commodity) :
    Posting.costAt (s.declaredForm amount) (s.declaredForm price) =
      (Posting.costAt amount price).map s.declaredForm := by
  have htotal : (s.declaredForm price).total = price.total := by
    rw [declaredForm]
    split <;> rfl
  simp only [Posting.costAt, htotal, amount_declaredForm]
  split
  · simp only [Except.map, declaredForm]
    cases s.declarations.find? price.name <;> rfl
  · rfl

theorem cost?_keptOn (s : Store) (name : String) (x : Posting) :
    (s.keptOn name x).cost? = x.cost?.map (Option.map s.declaredForm) := by
  have hprice : (s.keptOn name x).price? = x.price?.map s.declaredForm := by
    simp only [Posting.price?, keptOn]
    cases x.costPrice <;> rfl
  have hamount : (s.keptOn name x).amount = x.amount.map s.declaredForm := rfl
  rw [Posting.cost?, hprice, hamount, Posting.cost?]
  cases x.amount with
  | none => rfl
  | some amount =>
    cases x.price? with
    | none => rfl
    | some price =>
      simp only [Option.map_some, costAt_declaredForm]
      cases Posting.costAt amount price <;> rfl

theorem agree_map_declaredForm (s : Store) {cs : List Commodity} (h : Agree cs) :
    Agree (cs.map s.declaredForm) := by
  intro a ha b hb hab
  obtain ⟨c, hc, rfl⟩ := List.mem_map.mp ha
  obtain ⟨d, hd, rfl⟩ := List.mem_map.mp hb
  rw [name_declaredForm, name_declaredForm] at hab
  rw [currency_declaredForm, currency_declaredForm, h c hc d hd hab, hab]

/-! ## Kept postings -/

theorem kept_of_keptPostings {t : Transaction} {place : Option Nat} {n : Nat} {xs ys : List Posting}
    (h : s.keptPostings t place n xs = .ok ys) : s.Kept xs ys := by
  induction xs generalizing n ys with
  | nil =>
    obtain rfl := Except.ok.inj h
    exact .nil
  | cons x xs ih =>
    simp only [keptPostings, Result.bind_eq_ok_iff, Result.pure_eq_ok_iff] at h
    obtain ⟨name, -, rest, hrest, rfl⟩ := h
    exact .cons ⟨name, rfl⟩ (ih hrest)

theorem costs_of_kept {xs ys : List Posting} (h : s.Kept xs ys) :
    costs ys = (costs xs).map (List.map s.declaredForm) := by
  induction h with
  | nil => rfl
  | @cons x y xs ys hxy _ ih =>
    obtain ⟨name, rfl⟩ := hxy
    rw [costs, cost?_keptOn, ih, costs]
    cases x.cost? with
    | error e => rfl
    | ok cost =>
      cases costs xs with
      | error e => rfl
      | ok cs => cases cost <;> rfl

theorem isTally_of_kept {xs ys : List Posting} (h : s.Kept xs ys) :
    (∀ y ∈ ys, y.isTally = false) ↔ ∀ x ∈ xs, x.isTally = false := by
  induction h with
  | nil => simp
  | @cons x y xs ys hxy _ ih =>
    obtain ⟨name, rfl⟩ := hxy
    have hx : (s.keptOn name x).isTally = x.isTally := by
      simp [Posting.isTally, keptOn]
    simp only [List.forall_mem_cons, ih, hx]

theorem kinds_of_kept {xs ys : List Posting} (h : s.Kept xs ys) :
    ys.map (·.kind) = xs.map (·.kind) := by
  induction h with
  | nil => rfl
  | @cons x y xs ys hxy _ ih =>
    obtain ⟨name, rfl⟩ := hxy
    rw [List.map_cons, List.map_cons, ih]
    rfl

/-! ## Transactions -/

theorem postings_withPayee (s : Store) (t : Transaction) :
    (s.withPayee t).postings = t.postings := by
  rw [withPayee]
  split <;> rfl

theorem requiresBalance_withPayee (s : Store) (t : Transaction) :
    (s.withPayee t).requiresBalance = t.requiresBalance := by
  rw [Transaction.requiresBalance, postings_withPayee]
  rfl

theorem imbalance_withPayee (s : Store) (t : Transaction) :
    (s.withPayee t).imbalance = t.imbalance := by
  rw [Transaction.imbalance, Transaction.residual, postings_withPayee]
  rfl

theorem isBalanced_withPayee (s : Store) (t : Transaction) :
    (s.withPayee t).isBalanced = t.isBalanced := by
  rw [Transaction.isBalanced, postings_withPayee, imbalance_withPayee]
  rfl

theorem kept?_eq_ok_iff {t t' : Transaction} :
    s.kept? t = .ok t' ↔ ∃ u place ys, (s.noteFirst t).balanced (s.withPayee t) = .ok (u, place) ∧
      s.keptPostings u place 0 u.postings = .ok ys ∧ t' = { u with postings := ys } := by
  have hfirst : s.noteFirst (s.withPayee t) = s.noteFirst t := by
    rw [withPayee]
    split <;> rfl
  simp only [kept?, Result.bind_eq_ok_iff, Result.pure_eq_ok_iff, hfirst, Prod.exists]
  constructor
  · rintro ⟨u, place, hbalanced, ys, hys, rfl⟩
    exact ⟨u, place, ys, hbalanced, hys, rfl⟩
  · rintro ⟨u, place, ys, hbalanced, hys, rfl⟩
    exact ⟨u, place, hbalanced, ys, hys, rfl⟩

/-- A transaction that has to balance and does not is completed. -/
theorem balanced_eq_ok_iff {t u : Transaction} {place : Option Nat} :
    s.balanced t = .ok (u, place) ↔
      ((t.requiresBalance = false ∨ t.isBalanced = .ok true) ∧ u = t ∧ place = none) ∨
      (t.requiresBalance = true ∧ t.isBalanced = .ok false ∧ ∃ places,
        t.Completes s.bucket s.unit u places ∧
        place = if t.postings.length = 1 then places.head? else none) := by
  rw [balanced]
  cases t.requiresBalance with
  | false =>
    rw [Bool.not_false, if_pos rfl, Result.pure_eq_ok_iff]
    simp [eq_comm]
  | true =>
    simp only [Bool.not_true, Bool.false_eq_true, if_false, Result.bind_eq_ok_iff,
      Result.mapError_eq_ok_iff]
    cases t.isBalanced with
    | error e => simp
    | ok b =>
      cases b with
      | true =>
        simp only [Except.ok.injEq, exists_eq_left', if_true, Result.pure_eq_ok_iff]
        simp [eq_comm]
      | false =>
        simp only [Except.ok.injEq, exists_eq_left', Bool.false_eq_true, if_false,
          Result.bind_eq_ok_iff, Result.mapError_eq_ok_iff, Result.pure_eq_ok_iff, Prod.exists,
          Transaction.balance_eq_ok_iff, Prod.mk.injEq]
        constructor
        · rintro ⟨_, places, hcompletes, rfl, rfl⟩
          exact .inr ⟨trivial, trivial, places, hcompletes, rfl⟩
        · rintro (⟨h, -⟩ | ⟨-, -, places, hcompletes, rfl⟩)
          · simp at h
          · exact ⟨u, places, hcompletes, rfl, rfl⟩

theorem completes_withPayee {t u : Transaction} {bucket : Option String} {unit : Commodity}
    {places : List Nat} (h : (s.withPayee t).Completes bucket unit u places) :
    ∃ u' places', t.Completes bucket unit u' places' ∧ u'.postings = u.postings := by
  cases h with
  | lone hone hbucket hcost =>
    rw [postings_withPayee] at hone
    exact ⟨_, _, .lone hone hbucket hcost, rfl⟩
  | tally hparts hne hx hrest hsums =>
    rw [postings_withPayee] at hparts
    rw [imbalance_withPayee] at hsums
    exact ⟨_, _, .tally hparts hne hx hrest hsums, rfl⟩
  | whole hlength hall hsums hcount =>
    rw [postings_withPayee] at hlength hall
    rw [imbalance_withPayee] at hsums
    exact ⟨t, [], .whole hlength hall hsums hcount, (postings_withPayee s t).symm⟩

/-- What is kept are the postings of the written transaction, or of the completed one. -/
theorem completed_of_kept? {t t' : Transaction} (h : s.kept? t = .ok t') :
    ∃ u, s.Kept u.postings t'.postings ∧
      ((t.requiresBalance = false ∨ t.isBalanced = .ok true) ∧ u = t ∨
        t.requiresBalance = true ∧ t.isBalanced = .ok false ∧
          ∃ places, t.Completes s.bucket (s.noteFirst t).unit u places) := by
  obtain ⟨u, place, ys, hbalanced, hys, rfl⟩ := kept?_eq_ok_iff.mp h
  have hkept := kept_of_keptPostings hys
  rw [balanced_eq_ok_iff, isBalanced_withPayee, requiresBalance_withPayee] at hbalanced
  rcases hbalanced with ⟨hasis, rfl, -⟩ | ⟨hrequires, hoff, places, hcompletes, -⟩
  · rw [postings_withPayee] at hkept
    exact ⟨t, hkept, .inl ⟨hasis, rfl⟩⟩
  · obtain ⟨u', places', hcompletes', hpostings⟩ := completes_withPayee hcompletes
    rw [← hpostings] at hkept
    exact ⟨u', hkept, .inr ⟨hrequires, hoff, places', hcompletes'⟩⟩

/-- A kept transaction is the written one but for its payee and its postings. -/
theorem eq_of_kept? {t t' : Transaction} (h : s.kept? t = .ok t') :
    t' = { s.withPayee t with postings := t'.postings } := by
  obtain ⟨u, place, ys, hbalanced, -, rfl⟩ := kept?_eq_ok_iff.mp h
  rcases balanced_eq_ok_iff.mp hbalanced with ⟨-, rfl, -⟩ | ⟨-, -, places, hcompletes, -⟩
  · rfl
  · rw [hcompletes.eq_with]

theorem date_of_kept? {t t' : Transaction} (h : s.kept? t = .ok t') : t'.date = t.date := by
  rw [eq_of_kept? h, withPayee]
  split <;> rfl

theorem digest_of_kept? {t t' : Transaction} (h : s.kept? t = .ok t') : t'.digest = t.digest := by
  rw [eq_of_kept? h, withPayee]
  split <;> rfl

theorem length_postings_of_kept? {t t' : Transaction} (h : s.kept? t = .ok t') :
    t'.postings.length = t.postings.length + t.added := by
  obtain ⟨u, hkept, hcompleted⟩ := completed_of_kept? h
  rw [← List.Forall₂.length_eq hkept]
  rcases hcompleted with ⟨hasis, rfl⟩ | ⟨hrequires, hoff, places, hcompletes⟩
  · rw [Transaction.added, if_pos hasis, Nat.add_zero]
  · exact hcompletes.length_postings hrequires hoff

end Store

end Daybook
