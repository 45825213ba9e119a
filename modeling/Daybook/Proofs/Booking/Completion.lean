import Daybook.Proofs.Booking.Cost

/-!
# What balancing does

`Completes` lists the ways in which a transaction is completed, and `balance_eq_ok_iff` says that
there are no others: a posting that stands alone is met by one to the bucket account, the only
posting without an amount gets what the others leave, and a transaction of two or more complete
postings is left as it is unless exactly one sum is off. Of a completed transaction it is known how
many postings have been added (`Completes.length_postings`).
-/

namespace Daybook

open Posting (costs)

/-- What the tally posting itself gets: the opposite of the first sum, or nothing of `unit`. -/
def Commodity.offset (unit : Commodity) : List Commodity → Commodity
  | [] => unit.similar .zero
  | sum :: _ => sum.invert

def Posting.withAmount (p : Posting) (c : Commodity) : Posting := { p with amount := some c }

/-- The postings that are added beside the tally posting, one for each sum after the first. -/
def Posting.furtherOffsets (p : Posting) (sums : List Commodity) : List Posting :=
  sums.tail.map fun sum => p.withAmount sum.invert

theorem Posting.isTally_of_offsets {before after : List Posting} {p : Posting}
    (h : ∀ q ∈ before ++ after, q.isTally = false) (c : Commodity) (sums : List Commodity) :
    ∀ q ∈ before ++ p.withAmount c :: after ++ p.furtherOffsets sums, q.isTally = false := by
  intro q hq
  simp only [furtherOffsets, List.append_assoc, List.cons_append, List.mem_append,
    List.mem_cons, List.mem_map] at hq
  rcases hq with hq | rfl | hq | ⟨sum, -, rfl⟩
  · exact h q (by simp [hq])
  · rfl
  · exact h q (by simp [hq])
  · rfl

namespace Transaction

/-- How a transaction is completed, and which places are filled in. -/
inductive Completes (t : Transaction) (bucket : Option String) (unit : Commodity) :
    Transaction → List Nat → Prop
  | lone {p : Posting} {account : String} {cost : Commodity} :
    t.postings = [p] → bucket = some account → p.cost? = .ok (some cost) →
    Completes t bucket unit { t with postings := [p, .ofAmount account cost.invert] } [1]
  | tally {before after : List Posting} {p : Posting} {sums : List Commodity} :
    t.postings = before ++ p :: after → before ++ after ≠ [] → p.isTally = true →
    (∀ q ∈ before ++ after, q.isTally = false) → t.imbalance = .ok sums →
    Completes t bucket unit
      { t with postings :=
          before ++ p.withAmount (.offset unit sums) :: after ++ p.furtherOffsets sums }
      (before.length :: List.range' t.postings.length sums.tail.length)
  | whole {sums : List Commodity} :
    2 ≤ t.postings.length → (∀ p ∈ t.postings, p.isTally = false) → t.imbalance = .ok sums →
    sums.length ≠ 1 → Completes t bucket unit t []

/-! ## The places without amounts -/

theorem talliesFrom_append (ps qs : List Posting) (n : Nat) :
    talliesFrom n (ps ++ qs) = talliesFrom n ps ++ talliesFrom (n + ps.length) qs := by
  induction ps generalizing n with
  | nil => simp [talliesFrom]
  | cons p ps ih =>
    simp only [List.cons_append, talliesFrom, ih, List.length_cons]
    rw [show n + 1 + ps.length = n + (ps.length + 1) by omega]
    split <;> rfl

theorem talliesFrom_eq_nil_iff {ps : List Posting} {n : Nat} :
    talliesFrom n ps = [] ↔ ∀ p ∈ ps, p.isTally = false := by
  induction ps generalizing n with
  | nil => simp [talliesFrom]
  | cons p ps ih => cases hp : p.isTally <;> simp [talliesFrom, hp, ih]

theorem talliesFrom_eq_singleton {ps : List Posting} {n place : Nat}
    (h : talliesFrom n ps = [place]) :
    ∃ before p after, ps = before ++ p :: after ∧ place = n + before.length ∧ p.isTally = true ∧
      ∀ q ∈ before ++ after, q.isTally = false := by
  induction ps generalizing n with
  | nil => simp [talliesFrom] at h
  | cons p ps ih =>
    cases hp : p.isTally with
    | true =>
      simp only [talliesFrom, hp, if_true, List.cons.injEq] at h
      exact ⟨[], p, ps, rfl, h.1.symm, hp, by simpa using talliesFrom_eq_nil_iff.mp h.2⟩
    | false =>
      simp only [talliesFrom, hp, Bool.false_eq_true, if_false] at h
      obtain ⟨before, q, after, rfl, hplace, hq, hrest⟩ := ih h
      refine ⟨p :: before, q, after, rfl, ?_, hq, ?_⟩
      · rw [List.length_cons]
        omega
      · intro x hx
        rcases List.mem_cons.mp hx with rfl | hx
        · exact hp
        · exact hrest x hx

theorem talliesFrom_of_tally {before after : List Posting} {p : Posting} (hp : p.isTally = true)
    (hrest : ∀ q ∈ before ++ after, q.isTally = false) (n : Nat) :
    talliesFrom n (before ++ p :: after) = [n + before.length] := by
  have hbefore : talliesFrom n before = [] :=
    talliesFrom_eq_nil_iff.mpr fun q hq => hrest q (by simp [hq])
  have hafter : talliesFrom (n + before.length + 1) after = [] :=
    talliesFrom_eq_nil_iff.mpr fun q hq => hrest q (by simp [hq])
  rw [talliesFrom_append, hbefore, talliesFrom, if_pos hp, hafter, List.nil_append]

/-! ## Filling in -/

theorem modify_append_cons {α : Type} (before after : List α) (p : α) (f : α → α) :
    (before ++ p :: after).modify before.length f = before ++ f p :: after := by
  induction before with
  | nil => rfl
  | cons q before ih => simp [ih]

theorem fillTally_eq {t : Transaction} {before after : List Posting} {p : Posting}
    (h : t.postings = before ++ p :: after) (unit : Commodity) (sums : List Commodity) :
    t.fillTally before.length unit sums =
      ({ t with postings :=
          before ++ p.withAmount (.offset unit sums) :: after ++ p.furtherOffsets sums },
        before.length :: List.range' t.postings.length sums.tail.length) := by
  have hplace : t.postings[before.length]? = some p := by
    rw [h, List.getElem?_append_right (Nat.le_refl _), Nat.sub_self]
    rfl
  have hfill : ∀ c, t.fill before.length c =
      { t with postings := before ++ p.withAmount c :: after } := by
    intro c
    rw [fill, h, modify_append_cons]
    rfl
  cases sums with
  | nil => simp [fillTally, hfill, Commodity.offset, Posting.furtherOffsets]
  | cons sum sums =>
    simp only [fillTally, hfill, hplace, Option.toList_some, List.flatMap_cons, List.flatMap_nil,
      List.append_nil, List.length_map]
    rfl

theorem balanceLone_eq_ok_iff {t t' : Transaction} {p : Posting} {bucket : Option String}
    {places : List Nat} :
    t.balanceLone p bucket = .ok (t', places) ↔ ∃ account cost, bucket = some account ∧
      p.cost? = .ok (some cost) ∧ t' = { t with postings := [p, .ofAmount account cost.invert] } ∧
      places = [1] := by
  simp only [balanceLone, Result.bind_eq_ok_iff, Result.mapError_eq_ok_iff]
  constructor
  · rintro ⟨cost, hcost, h⟩
    split at h
    · simp only [Result.pure_eq_ok_iff, Prod.mk.injEq] at h
      exact ⟨_, _, rfl, hcost, h.1.symm, h.2.symm⟩
    · simp [throw, throwThe, MonadExceptOf.throw] at h
  · rintro ⟨account, cost, rfl, hcost, rfl, rfl⟩
    exact ⟨some cost, hcost, rfl⟩

theorem exists_cons_cons {α : Type} {l : List α} (h : 2 ≤ l.length) :
    ∃ a b rest, l = a :: b :: rest := by
  rcases l with _ | ⟨a, _ | ⟨b, rest⟩⟩
  · simp at h
  · simp at h
  · exact ⟨a, b, rest, rfl⟩

theorem two_le_length {t : Transaction} (hnil : t.postings ≠ []) (hone : ∀ p, t.postings ≠ [p]) :
    2 ≤ t.postings.length := by
  rcases hp : t.postings with _ | ⟨p, _ | ⟨q, rest⟩⟩
  · exact absurd hp hnil
  · exact absurd hp (hone p)
  · simp

theorem completes_of_balance {t t' : Transaction} {bucket : Option String} {unit : Commodity}
    {places : List Nat} (h : t.balance bucket unit = .ok (t', places)) :
    Completes t bucket unit t' places := by
  rw [balance] at h
  split at h
  case h_1 => simp [throw, throwThe, MonadExceptOf.throw] at h
  case h_2 p hp =>
    obtain ⟨account, cost, hbucket, hcost, rfl, rfl⟩ := balanceLone_eq_ok_iff.mp h
    exact .lone hp hbucket hcost
  case h_3 hnil hone =>
    have hlength := two_le_length hnil hone
    split at h
    case h_1 => simp [throw, throwThe, MonadExceptOf.throw] at h
    case h_2 place hplace =>
      simp only [Result.bind_eq_ok_iff, Result.mapError_eq_ok_iff, Result.pure_eq_ok_iff] at h
      obtain ⟨sums, hsums, h⟩ := h
      obtain ⟨before, p, after, hps, rfl, hp, hrest⟩ := talliesFrom_eq_singleton hplace
      rw [Nat.zero_add, fillTally_eq hps] at h
      obtain ⟨rfl, rfl⟩ := Prod.mk.inj h
      refine .tally hps (fun hempty => ?_) hp hrest hsums
      rw [hps, List.length_append, List.length_cons] at hlength
      have := congrArg List.length hempty
      rw [List.length_append, List.length_nil] at this
      omega
    case h_3 hnone =>
      simp only [Result.bind_eq_ok_iff, Result.mapError_eq_ok_iff] at h
      obtain ⟨sums, hsums, h⟩ := h
      split at h
      case h_1 => simp [throw, throwThe, MonadExceptOf.throw] at h
      case h_2 hne =>
        simp only [Result.pure_eq_ok_iff, Prod.mk.injEq] at h
        obtain ⟨rfl, rfl⟩ := h
        refine .whole hlength (talliesFrom_eq_nil_iff.mp hnone) hsums fun hlen => ?_
        obtain ⟨sum, hsum⟩ := List.length_eq_one_iff.mp hlen
        exact hne sum hsum

theorem balance_of_completes {t t' : Transaction} {bucket : Option String} {unit : Commodity}
    {places : List Nat} (h : Completes t bucket unit t' places) :
    t.balance bucket unit = .ok (t', places) := by
  cases h with
  | lone hp hbucket hcost =>
    rw [balance, hp]
    exact balanceLone_eq_ok_iff.mpr ⟨_, _, hbucket, hcost, rfl, rfl⟩
  | @tally before after p sums hps hne hp hrest hsums =>
    have hlength : 2 ≤ t.postings.length := by
      have := List.length_pos_iff.mpr hne
      rw [List.length_append] at this
      rw [hps, List.length_append, List.length_cons]
      omega
    obtain ⟨p₁, p₂, rest, htwo⟩ := exists_cons_cons hlength
    have htallies : talliesFrom 0 (p₁ :: p₂ :: rest) = [before.length] := by
      rw [← htwo, hps, talliesFrom_of_tally hp hrest, Nat.zero_add]
    simp only [balance, htwo, htallies, hsums, Result.bind_eq_ok_iff, Result.mapError_eq_ok_iff,
      Result.pure_eq_ok_iff]
    exact ⟨sums, rfl, by rw [fillTally_eq hps, htwo]⟩
  | @whole sums hlength hall hsums hone =>
    obtain ⟨p₁, p₂, rest, htwo⟩ := exists_cons_cons hlength
    have htallies : talliesFrom 0 (p₁ :: p₂ :: rest) = [] := by
      rw [← htwo]
      exact talliesFrom_eq_nil_iff.mpr hall
    simp only [balance, htwo, htallies, hsums, Result.bind_eq_ok_iff, Result.mapError_eq_ok_iff]
    refine ⟨sums, rfl, ?_⟩
    split
    case h_1 => exact absurd rfl hone
    case h_2 => rfl

theorem balance_eq_ok_iff {t t' : Transaction} {bucket : Option String} {unit : Commodity}
    {places : List Nat} :
    t.balance bucket unit = .ok (t', places) ↔ Completes t bucket unit t' places :=
  ⟨completes_of_balance, balance_of_completes⟩

/-! ## The number of postings -/

/-- How many postings a transaction gets in addition: none if it need not balance or does so already;
one to the bucket account beside a posting that stands alone; or else one for each sum after the
first, beside the posting without an amount. -/
def added (t : Transaction) : Nat :=
  if t.requiresBalance = false ∨ t.isBalanced = .ok true then 0
  else if t.postings.length = 1 then 1
  else if t.postings.any (·.isTally) then (t.imbalance.toOption.getD []).length - 1
  else 0

theorem Completes.eq_with {t u : Transaction} {bucket : Option String} {unit : Commodity}
    {places : List Nat} (h : t.Completes bucket unit u places) :
    u = { t with postings := u.postings } := by
  cases h <;> rfl

theorem Completes.length_postings {t u : Transaction} {bucket : Option String} {unit : Commodity}
    {places : List Nat} (h : t.Completes bucket unit u places) (hrequires : t.requiresBalance = true)
    (hoff : t.isBalanced = .ok false) : u.postings.length = t.postings.length + t.added := by
  have hcompleted : ¬(t.requiresBalance = false ∨ t.isBalanced = .ok true) := by
    rw [hrequires, hoff]
    decide
  rw [added, if_neg hcompleted]
  cases h with
  | lone hone =>
    rw [if_pos (by rw [hone]; rfl), hone]
    rfl
  | @tally before after p sums hparts hothers hp _ hsums =>
    have hlength : t.postings.length = (before ++ after).length + 1 := by
      simp only [hparts, List.length_append, List.length_cons, Nat.add_assoc]
    have htwo : t.postings.length ≠ 1 := by
      have hpos := List.length_pos_iff.mpr hothers
      omega
    have htally : t.postings.any (·.isTally) = true :=
      List.any_eq_true.mpr ⟨p, by simp [hparts], hp⟩
    rw [if_neg htwo, if_pos htally, hsums, hlength]
    simp only [Posting.furtherOffsets, Except.toOption, Option.getD_some, List.length_append,
      List.length_cons, List.length_map, List.length_tail]
    omega
  | whole htwo hall => rw [if_neg (by omega), if_neg (by simpa using hall), Nat.add_zero]

end Transaction

end Daybook
