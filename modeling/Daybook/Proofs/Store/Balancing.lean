import Daybook.Proofs.Booking.Imbalance
import Daybook.Proofs.Store.FirstPass
import Daybook.Proofs.Store.Kept

/-!
# Stored transactions balance

A transaction that has to balance is stored so that it does, unless it is left open on purpose
(`LeftOpen`) or what its tally posting gets does not fit (`Store.TallyFits`): a tally posting with a
price counts by what its amount costs, not by its amount, and where the other postings balance by
themselves it gets a zero that is written like the default commodity. `firstPass_balances` says that
these are the only ways to fail.
-/

namespace Daybook

open Commodity (named sumOf Agree ExactRange ExactSums Imbalance tolerance CancelsOut)
open Posting (costs)

/-- The name and the number of the amount of a posting, however it is written. -/
def Posting.number? (x : Posting) : Option (String × Decimal) :=
  x.amount.map fun c => (c.name, c.amount)

namespace Transaction

/-- Whether the costs of the name add up to little enough, both as the program and as arithmetic
adds them up. -/
def NetsOut (t : Transaction) (n : String) : Prop :=
  ∃ cs, costs t.postings = .ok cs ∧ CancelsOut n cs ∧ |sumOf (named n cs)| ≤ tolerance.value

/-- Whether the transaction balances: every posting has an amount, and the costs of each name add up
to little enough. -/
def Balances (t : Transaction) : Prop :=
  t.isBalanced = .ok true ∧ (∀ x ∈ t.postings, x.isTally = false) ∧ ∀ n, t.NetsOut n

/-- A transaction of complete postings that is off in two commodities or more, and is stored as it
is. -/
def LeftOpen (t t' : Transaction) : Prop :=
  2 ≤ t.postings.length ∧ (∀ x ∈ t.postings, x.isTally = false) ∧
    (∃ sums, t.imbalance = .ok sums ∧ 2 ≤ sums.length) ∧
    t'.postings.map Posting.number? = t.postings.map Posting.number?

theorem balances_iff {t : Transaction} {cs : List Commodity} (hcosts : costs t.postings = .ok cs)
    (htallies : ∀ x ∈ t.postings, x.isTally = false) :
    t.Balances ↔ ∀ n, CancelsOut n cs ∧ |sumOf (named n cs)| ≤ tolerance.value := by
  have hnets : ∀ n, t.NetsOut n ↔ CancelsOut n cs ∧ |sumOf (named n cs)| ≤ tolerance.value := by
    intro n
    constructor
    · rintro ⟨cs', hcosts', h⟩
      obtain rfl := Except.ok.inj (hcosts.symm.trans hcosts')
      exact h
    · exact fun h => ⟨cs, hcosts, h⟩
  constructor
  · exact fun ⟨_, _, h⟩ n => (hnets n).mp (h n)
  · exact fun h => ⟨isBalanced_eq_true_iff.mpr ⟨htallies, cs, hcosts, fun n => (h n).1⟩, htallies,
      fun n => (hnets n).mpr (h n)⟩

end Transaction

theorem Commodity.agree_of_cancelsOut {cs : List Commodity} (h : ∀ n, CancelsOut n cs) :
    Agree cs := by
  obtain ⟨sums, hsums⟩ := Turnover.exists_sums?_iff.mpr fun n =>
    let ⟨r, hr, _⟩ := h n
    ⟨r, hr⟩
  exact Turnover.agree_of_sums? hsums

namespace Store

/-- Whether the amount is written, in its declared form, like those of its name. -/
def WrittenLike (s : Store) (c : Commodity) (cs : List Commodity) : Prop :=
  ∀ d ∈ cs, d.name = c.name → (s.declaredForm d).currency = (s.declaredForm c).currency

/-- Whether what the tally posting of a written transaction gets fits the other postings. Without a
price, a zero must be written like the costs of its commodity. With a price, only its commodity may
be off, and what the tally posting then costs must cancel that sum out. -/
def TallyFits (s : Store) (t : Transaction) : Prop :=
  ∀ x ∈ t.postings, x.isTally = true → ∀ cs sums, costs t.postings = .ok cs →
    t.imbalance = .ok sums →
    match x.price? with
    | none => sums = [] → s.WrittenLike (s.noteFirst t).unit cs
    | some price => (∀ sum ∈ sums, sum.name = price.name) ∧ s.WrittenLike price cs ∧
        ∃ cost, Posting.costAt (.offset (s.noteFirst t).unit sums) price = .ok cost ∧
          |sumOf (named price.name cs) + cost.value| ≤ tolerance.value

variable {s : Store}

/-! ## Kept costs -/

theorem exactSums_map_declaredForm {cs : List Commodity} (h : ExactSums cs) :
    ExactSums (cs.map s.declaredForm) := by
  obtain ⟨e, he, hfits⟩ := h
  refine ⟨e, he, fun k => ?_⟩
  rw [← List.map_take, Commodity.sumOf_map s.value_declaredForm]
  exact hfits k

theorem exactRange_declaredForm {cs : List Commodity} :
    ExactRange (cs.map s.declaredForm) ↔ ExactRange cs := by
  simp only [ExactRange, List.forall_mem_map, List.map_map, Function.comp_def, value_declaredForm]

theorem sumOf_named_declaredForm (n : String) (cs : List Commodity) :
    sumOf (named n (cs.map s.declaredForm)) = sumOf (named n cs) := by
  rw [Commodity.named_map s.name_declaredForm, Commodity.sumOf_map s.value_declaredForm]

theorem cancelsOut_declaredForm {n : String} {cs : List Commodity}
    (hagree : Agree (cs.map s.declaredForm)) (hexact : ExactSums (named n cs)) :
    CancelsOut n (cs.map s.declaredForm) ↔ |sumOf (named n cs)| ≤ tolerance.value := by
  have hexact' : ExactSums (named n (cs.map s.declaredForm)) := by
    rw [Commodity.named_map s.name_declaredForm]
    exact exactSums_map_declaredForm hexact
  rw [Commodity.cancelsOut_iff hagree hexact', sumOf_named_declaredForm]

theorem costs_eq_of_kept {xs ys : List Posting} {ds : List Commodity} (h : s.Kept xs ys)
    (hcosts : costs xs = .ok ds) : costs ys = .ok (ds.map s.declaredForm) := by
  rw [costs_of_kept h, hcosts]
  rfl

/-- A kept transaction balances if its costs agree in the declared form and are small in sum. -/
theorem balances_of_kept {t' : Transaction} {xs : List Posting} {ds : List Commodity}
    (hkept : s.Kept xs t'.postings) (htallies : ∀ x ∈ xs, x.isTally = false)
    (hcosts : costs xs = .ok ds) (hexact : ∀ n, ExactSums (named n ds)) :
    t'.Balances ↔ Agree (ds.map s.declaredForm) ∧
      ∀ n, |sumOf (named n ds)| ≤ tolerance.value := by
  rw [Transaction.balances_iff (costs_eq_of_kept hkept hcosts)
    ((isTally_of_kept hkept).mpr htallies)]
  simp only [sumOf_named_declaredForm]
  constructor
  · exact fun h => ⟨Commodity.agree_of_cancelsOut fun n => (h n).1, fun n => (h n).2⟩
  · rintro ⟨hagree, hsmall⟩ n
    rw [cancelsOut_declaredForm hagree (hexact n)]
    exact ⟨hsmall n, hsmall n⟩

/-! ## The ways of completing a transaction -/

theorem balances_of_isBalanced {t t' : Transaction} {cs : List Commodity}
    (hkept : s.Kept t.postings t'.postings) (hcosts : costs t.postings = .ok cs)
    (hexact : ExactRange cs) (h : t.isBalanced = .ok true) : t'.Balances := by
  obtain ⟨htallies, cs', hcosts', hcancel⟩ := Transaction.isBalanced_eq_true_iff.mp h
  obtain rfl : cs = cs' := Except.ok.inj (hcosts.symm.trans hcosts')
  have hagree := Commodity.agree_of_cancelsOut hcancel
  have hnamed : ∀ n, ExactSums (named n cs) := fun n => (hexact.byName n).exactSums
  refine (balances_of_kept hkept htallies hcosts hnamed).mpr
    ⟨s.agree_map_declaredForm hagree, fun n => ?_⟩
  exact (Commodity.cancelsOut_iff hagree (hnamed n)).mp (hcancel n)

theorem balances_of_lone {t' : Transaction} {x : Posting} {cost : Commodity} {account : String}
    (hkept : s.Kept [x, .ofAmount account cost.invert] t'.postings)
    (hcost : x.cost? = .ok (some cost)) (hexact : ExactRange [cost]) : t'.Balances := by
  have hcosts : costs [x, .ofAmount account cost.invert] = .ok [cost, cost.invert] := by
    refine Posting.costs_cons_eq_ok_iff.mpr ⟨_, [cost.invert], hcost, ?_, rfl⟩
    exact Posting.costs_cons_eq_ok_iff.mpr ⟨some cost.invert, [], rfl, rfl, rfl⟩
  have hagree : Agree [cost, cost.invert] := by
    intro a ha b hb _
    simp only [List.mem_cons, List.not_mem_nil, or_false] at ha hb
    rcases ha with rfl | rfl <;> rcases hb with rfl | rfl <;> rfl
  have hcancel : ∀ n, ExactSums (named n [cost, cost.invert]) ∧
      |sumOf (named n [cost, cost.invert])| ≤ tolerance.value := by
    intro n
    by_cases hn : cost.name = n
    · obtain ⟨hsums, hzero⟩ := @Commodity.cancels_insert [cost] [] cost.invert n (hexact.byName n)
        (by simp [Commodity.named_cons, hn])
      have hpair : named n [cost, cost.invert] = named n [cost] ++ cost.invert :: named n [] := by
        simp [Commodity.named_cons, hn]
      rw [hpair, hzero, abs_zero]
      exact ⟨hsums, Commodity.zero_le_tolerance⟩
    · have hnone : named n [cost, cost.invert] = [] := by
        simp [Commodity.named_cons, hn]
      rw [hnone]
      refine ⟨(hexact.sublist (List.nil_sublist _)).exactSums, ?_⟩
      rw [Commodity.sumOf_nil, abs_zero]
      exact Commodity.zero_le_tolerance
  refine (balances_of_kept hkept ?_ hcosts fun n => (hcancel n).1).mpr
    ⟨s.agree_map_declaredForm hagree, fun n => (hcancel n).2⟩
  intro y hy
  simp only [List.mem_cons, List.not_mem_nil, or_false] at hy
  rcases hy with rfl | rfl
  · exact Posting.isTally_of_cost? hcost
  · rfl

theorem writtenLike_congr {c d : Commodity} {cs : List Commodity} (hname : c.name = d.name)
    (hcurrency : c.currency = d.currency) : s.WrittenLike c cs ↔ s.WrittenLike d cs := by
  rw [WrittenLike, WrittenLike, currency_declaredForm, currency_declaredForm, hname, hcurrency]

theorem agree_insert_iff {before after : List Commodity} {c : Commodity}
    (hagree : Agree (before ++ after)) :
    Agree ((before ++ c :: after).map s.declaredForm) ↔ s.WrittenLike c (before ++ after) := by
  have hmem : ∀ d, d ∈ before ++ c :: after ↔ d = c ∨ d ∈ before ++ after := by
    intro d
    simp only [List.mem_append, List.mem_cons]
    tauto
  constructor
  · intro h d hd hname
    refine h _ (List.mem_map_of_mem ((hmem d).mpr (.inr hd))) _
      (List.mem_map_of_mem ((hmem c).mpr (.inl rfl))) ?_
    rw [name_declaredForm, name_declaredForm, hname]
  · intro h a ha b hb hab
    obtain ⟨d, hd, rfl⟩ := List.mem_map.mp ha
    obtain ⟨e, he, rfl⟩ := List.mem_map.mp hb
    rw [name_declaredForm, name_declaredForm] at hab
    rcases (hmem d).mp hd with rfl | hd' <;> rcases (hmem e).mp he with rfl | he'
    · rfl
    · exact (h e he' hab.symm).symm
    · exact h d hd' hab
    · rw [currency_declaredForm, currency_declaredForm, hagree d hd' e he' hab, hab]

/-- A tally posting without a price offsets all that is off; what remains to be seen is how a zero
is written. -/
theorem balances_of_tally {t t' : Transaction} {before after : List Posting} {x : Posting}
    {unit : Commodity} {cs sums : List Commodity} (hpostings : t.postings = before ++ x :: after)
    (hx : x.isTally = true) (hrest : ∀ y ∈ before ++ after, y.isTally = false)
    (hprice : x.price? = none) (hcosts : costs t.postings = .ok cs) (hexact : ExactRange cs)
    (hsums : t.imbalance = .ok sums)
    (hkept : s.Kept (before ++ x.withAmount (.offset unit sums) :: after ++ x.furtherOffsets sums)
      t'.postings) :
    t'.Balances ↔ (sums = [] → s.WrittenLike unit cs) := by
  have himbalance := Transaction.imbalance_of_costs hcosts hexact.byName hsums
  rw [hpostings, Posting.costs_around_tally_iff hx] at hcosts
  obtain ⟨c₁, c₂, h₁, h₂, rfl⟩ := hcosts
  have hfilled := Posting.costs_filled hprice h₁ h₂ unit sums
  have htallies := @Posting.isTally_of_offsets before after x hrest (.offset unit sums) sums
  have hcancel := fun n => @Commodity.offsets_cancel unit c₁ c₂ sums himbalance hexact.byName n
  rw [balances_of_kept hkept htallies hfilled fun n => (hcancel n).1,
    and_iff_left fun n => (hcancel n).2]
  cases sums with
  | nil =>
    have hlist : Commodity.withOffsets unit c₁ c₂ [] = c₁ ++ unit.similar .zero :: c₂ :=
      List.append_nil _
    have hzero : s.WrittenLike (unit.similar .zero) (c₁ ++ c₂) ↔ s.WrittenLike unit (c₁ ++ c₂) :=
      writtenLike_congr rfl rfl
    rw [hlist, agree_insert_iff himbalance.agree, hzero]
    simp
  | cons first others =>
    have hagree := @Commodity.agree_withOffsets unit c₁ c₂ _ himbalance
      (List.cons_ne_nil first others)
    simp [s.agree_map_declaredForm hagree]

theorem named_cost_of_price {x : Posting} {price : Commodity} {cost : Option Commodity}
    (hprice : x.price? = some price) (h : x.cost? = .ok cost) {n : String} (hn : price.name ≠ n) :
    named n cost.toList = [] := by
  refine Commodity.named_eq_nil fun c hc => ?_
  obtain rfl : cost = some c := by simpa using hc
  obtain ⟨d, hd, hname, -⟩ := Posting.similar_of_cost? h
  rw [hprice, Option.some_or] at hd
  obtain rfl := Option.some.inj hd
  rwa [hname]

theorem named_costs_of_offsets {x : Posting} {price : Commodity} (hprice : x.price? = some price)
    {sums ks : List Commodity} (h : costs (x.furtherOffsets sums) = .ok ks) {n : String}
    (hn : price.name ≠ n) : named n ks = [] := by
  rw [Posting.furtherOffsets] at h
  generalize sums.tail = others at h
  induction others generalizing ks with
  | nil =>
    obtain rfl := Except.ok.inj h
    rfl
  | cons sum others ih =>
    obtain ⟨cost, rest, hcost, hrest, rfl⟩ := Posting.costs_cons_eq_ok_iff.mp h
    rw [Commodity.named_append, ih hrest, List.append_nil]
    exact @named_cost_of_price (x.withAmount sum.invert) price cost hprice hcost n hn

theorem exists_costAt_of_costs {before after ys more : List Posting} {x : Posting}
    {c price : Commodity} {ks : List Commodity} (hprice : x.price? = some price)
    (hkept : s.Kept (before ++ x.withAmount c :: after ++ more) ys) (hks : costs ys = .ok ks) :
    ∃ cost, Posting.costAt c price = .ok cost := by
  rw [costs_of_kept hkept] at hks
  obtain ⟨ds, hds, -⟩ := Result.map_eq_ok_iff.mp hks
  obtain ⟨_, _, h₁₂, -, -⟩ := Posting.costs_append_eq_ok_iff.mp hds
  obtain ⟨_, _, -, hx₂, -⟩ := Posting.costs_append_eq_ok_iff.mp h₁₂
  obtain ⟨cost, _, hcost, -, -⟩ := Posting.costs_cons_eq_ok_iff.mp hx₂
  have hprice' : (x.withAmount c).price? = some price := hprice
  rw [Posting.cost?, hprice'] at hcost
  cases hat : Posting.costAt c price with
  | ok cost => exact ⟨cost, rfl⟩
  | error e => simp [Posting.withAmount, hat, Except.map] at hcost

/-- The offsets of a tally posting with a price change the costs in the commodity of the price only:
of every other one there are the costs of the other postings and no more. -/
theorem named_costs_of_priced_tally {before after ys : List Posting} {x : Posting}
    {c price : Commodity} {cs sums ks : List Commodity} (hx : x.isTally = true)
    (hprice : x.price? = some price) (hcosts : costs (before ++ x :: after) = .ok cs)
    (hkept : s.Kept (before ++ x.withAmount c :: after ++ x.furtherOffsets sums) ys)
    (hks : costs ys = .ok ks) {n : String} (hn : price.name ≠ n) :
    named n ks = named n (cs.map s.declaredForm) := by
  rw [costs_of_kept hkept] at hks
  obtain ⟨ds, hds, rfl⟩ := Result.map_eq_ok_iff.mp hks
  obtain ⟨_, c₃, h₁₂, h₃, rfl⟩ := Posting.costs_append_eq_ok_iff.mp hds
  obtain ⟨c₁, _, h₁, hx₂, rfl⟩ := Posting.costs_append_eq_ok_iff.mp h₁₂
  obtain ⟨cost, c₂, hcost, h₂, rfl⟩ := Posting.costs_cons_eq_ok_iff.mp hx₂
  have hall := (Posting.costs_around_tally_iff hx).mpr ⟨c₁, c₂, h₁, h₂, rfl⟩
  obtain rfl := Except.ok.inj (hcosts.symm.trans hall)
  have hcostNone : named n cost.toList = [] :=
    @named_cost_of_price (x.withAmount c) price cost hprice hcost n hn
  rw [Commodity.named_map s.name_declaredForm, Commodity.named_map s.name_declaredForm]
  simp only [Commodity.named_append, hcostNone, named_costs_of_offsets hprice h₃ hn,
    List.nil_append, List.append_nil]

/-- A sum that is off in another commodity than that of the price stays off. -/
theorem name_of_balances {t t' : Transaction} {before after : List Posting} {x : Posting}
    {c price : Commodity} {cs sums : List Commodity}
    (hpostings : t.postings = before ++ x :: after) (hx : x.isTally = true)
    (hprice : x.price? = some price) (hcosts : costs t.postings = .ok cs) (hexact : ExactRange cs)
    (hsums : t.imbalance = .ok sums)
    (hkept : s.Kept (before ++ x.withAmount c :: after ++ x.furtherOffsets sums) t'.postings)
    (h : t'.Balances) : ∀ sum ∈ sums, sum.name = price.name := by
  have himbalance := Transaction.imbalance_of_costs hcosts hexact.byName hsums
  intro sum hsum
  by_contra hne
  obtain ⟨ks, hks, -, hsmall⟩ := h.2.2 sum.name
  rw [hpostings] at hcosts
  rw [named_costs_of_priced_tally hx hprice hcosts hkept hks (Ne.symm hne),
    sumOf_named_declaredForm] at hsmall
  exact (himbalance.within sum.name).mp hsmall sum hsum rfl

theorem tail_eq_nil {sums : List Commodity} {n : String}
    (h : sums.Pairwise fun a b => a.name < b.name) (hn : ∀ sum ∈ sums, sum.name = n) :
    sums.tail = [] := by
  rcases sums with _ | ⟨a, _ | ⟨b, sums⟩⟩
  · rfl
  · rfl
  · have hlt := (List.pairwise_cons.mp h).1 b (by simp)
    rw [hn a (by simp), hn b (by simp)] at hlt
    exact absurd hlt (String.lt_irrefl n)

/-- Where only the commodity of the price is off, the cost of the tally posting must meet it. -/
theorem balances_of_cost {t t' : Transaction} {before after : List Posting} {x : Posting}
    {unit price cost : Commodity} {cs sums : List Commodity}
    (hpostings : t.postings = before ++ x :: after) (hx : x.isTally = true)
    (hrest : ∀ y ∈ before ++ after, y.isTally = false) (hprice : x.price? = some price)
    (hcosts : costs t.postings = .ok cs) (hexact : ExactRange cs) (hsums : t.imbalance = .ok sums)
    (hkept : s.Kept (before ++ x.withAmount (.offset unit sums) :: after ++ x.furtherOffsets sums)
      t'.postings)
    (hstored : ∀ ks, costs t'.postings = .ok ks → ExactRange ks)
    (hnames : ∀ sum ∈ sums, sum.name = price.name)
    (hcost : Posting.costAt (.offset unit sums) price = .ok cost) :
    t'.Balances ↔ s.WrittenLike price cs ∧
      |sumOf (named price.name cs) + cost.value| ≤ tolerance.value := by
  have himbalance := Transaction.imbalance_of_costs hcosts hexact.byName hsums
  rw [hpostings, Posting.costs_around_tally_iff hx] at hcosts
  obtain ⟨c₁, c₂, h₁, h₂, rfl⟩ := hcosts
  have hcost? : (x.withAmount (.offset unit sums)).cost? = .ok (some cost) := by
    have hprice' : (x.withAmount (.offset unit sums)).price? = some price := hprice
    rw [Posting.cost?, hprice']
    simp only [Posting.withAmount, hcost]
    rfl
  obtain ⟨d, hd, hname, hcurrency⟩ := Posting.similar_of_cost? hcost?
  obtain rfl : price = d := by
    rw [show (x.withAmount (.offset unit sums)).price? = some price from hprice] at hd
    exact Option.some.inj hd
  have hfilled : costs (before ++ x.withAmount (.offset unit sums) :: after ++
      x.furtherOffsets sums) = .ok (c₁ ++ cost :: c₂) := by
    rw [Posting.furtherOffsets, tail_eq_nil himbalance.ascending hnames, List.map_nil,
      List.append_nil]
    refine Posting.costs_append_eq_ok_iff.mpr ⟨c₁, cost :: c₂, h₁, ?_, rfl⟩
    exact Posting.costs_cons_eq_ok_iff.mpr ⟨some cost, c₂, hcost?, h₂, rfl⟩
  have hrange := exactRange_declaredForm.mp (hstored _ (costs_eq_of_kept hkept hfilled))
  rw [balances_of_kept hkept (Posting.isTally_of_offsets hrest _ sums) hfilled
    fun n => (hrange.byName n).exactSums, agree_insert_iff himbalance.agree,
    writtenLike_congr hname hcurrency]
  refine and_congr_right fun _ => ?_
  have hsplit : ∀ n, sumOf (named n (c₁ ++ cost :: c₂)) = sumOf (named n (c₁ ++ c₂)) +
      if price.name = n then cost.value else 0 := by
    intro n
    rw [Commodity.named_append, Commodity.named_cons, Commodity.named_append, hname]
    split <;> simp only [Commodity.sumOf_append, Commodity.sumOf_cons] <;> ring
  constructor
  · intro h
    have hn := h price.name
    rwa [hsplit, if_pos rfl] at hn
  · intro h n
    rw [hsplit]
    by_cases hn : price.name = n
    · subst hn
      rwa [if_pos rfl]
    · rw [if_neg hn, add_zero]
      exact (himbalance.within n).mpr fun sum hsum heq => hn ((hnames sum hsum).symm.trans heq)

/-- A tally posting with a price offsets what is off only by what its amounts cost. -/
theorem balances_of_priced_tally {t t' : Transaction} {before after : List Posting} {x : Posting}
    {unit price : Commodity} {cs sums : List Commodity}
    (hpostings : t.postings = before ++ x :: after) (hx : x.isTally = true)
    (hrest : ∀ y ∈ before ++ after, y.isTally = false) (hprice : x.price? = some price)
    (hcosts : costs t.postings = .ok cs) (hexact : ExactRange cs) (hsums : t.imbalance = .ok sums)
    (hkept : s.Kept (before ++ x.withAmount (.offset unit sums) :: after ++ x.furtherOffsets sums)
      t'.postings)
    (hstored : ∀ ks, costs t'.postings = .ok ks → ExactRange ks) :
    t'.Balances ↔ (∀ sum ∈ sums, sum.name = price.name) ∧ s.WrittenLike price cs ∧
      ∃ cost, Posting.costAt (.offset unit sums) price = .ok cost ∧
        |sumOf (named price.name cs) + cost.value| ≤ tolerance.value := by
  constructor
  · intro h
    have hnames := name_of_balances hpostings hx hprice hcosts hexact hsums hkept h
    obtain ⟨ks, hks, -⟩ := h.2.2 price.name
    obtain ⟨cost, hcost⟩ := exists_costAt_of_costs hprice hkept hks
    obtain ⟨hlike, hsmall⟩ := (balances_of_cost hpostings hx hrest hprice hcosts hexact hsums hkept
      hstored hnames hcost).mp h
    exact ⟨hnames, hlike, cost, hcost, hsmall⟩
  · rintro ⟨hnames, hlike, cost, hcost, hsmall⟩
    exact (balances_of_cost hpostings hx hrest hprice hcosts hexact hsums hkept hstored hnames
      hcost).mpr ⟨hlike, hsmall⟩

/-! ## Stored transactions -/

theorem tallyFits_of_no_tally {t : Transaction} (h : ∀ x ∈ t.postings, x.isTally = false) :
    s.TallyFits t := by
  intro x hx htally
  rw [h x hx] at htally
  simp at htally

/-- The condition is about the only tally posting, and about the costs and the imbalance that there
are. -/
theorem tallyFits_iff {t : Transaction} {before after : List Posting} {x : Posting}
    {cs sums : List Commodity} (hpostings : t.postings = before ++ x :: after)
    (hx : x.isTally = true) (hrest : ∀ y ∈ before ++ after, y.isTally = false)
    (hcosts : costs t.postings = .ok cs) (hsums : t.imbalance = .ok sums) :
    s.TallyFits t ↔ match x.price? with
      | none => sums = [] → s.WrittenLike (s.noteFirst t).unit cs
      | some price => (∀ sum ∈ sums, sum.name = price.name) ∧ s.WrittenLike price cs ∧
          ∃ cost, Posting.costAt (.offset (s.noteFirst t).unit sums) price = .ok cost ∧
            |sumOf (named price.name cs) + cost.value| ≤ tolerance.value := by
  constructor
  · exact fun h => h x (by simp [hpostings]) hx cs sums hcosts hsums
  · intro h y hy htally cs' sums' hcosts' hsums'
    obtain rfl := Except.ok.inj (hcosts.symm.trans hcosts')
    obtain rfl := Except.ok.inj (hsums.symm.trans hsums')
    rw [hpostings] at hy
    have hyx : y = x := by
      by_contra hne
      have hother : y ∈ before ++ after := by
        simp only [List.mem_append, List.mem_cons] at hy ⊢
        tauto
      rw [hrest y hother] at htally
      simp at htally
    rw [hyx]
    exact h

theorem number?_of_kept {xs ys : List Posting} (h : s.Kept xs ys) :
    ys.map Posting.number? = xs.map Posting.number? := by
  induction h with
  | nil => rfl
  | @cons x y xs ys hxy _ ih =>
    obtain ⟨name, rfl⟩ := hxy
    rw [List.map_cons, List.map_cons, ih]
    congr 1
    simp only [Posting.number?, keptOn, Option.map_map]
    congr 1
    funext c
    simp

theorem requiresBalance_of_kept {t t' : Transaction} (h : s.Kept t.postings t'.postings) :
    t'.requiresBalance = t.requiresBalance := by
  have hall : ∀ xs : List Posting, xs.all (·.kind ≠ .virtual) =
      (xs.map (·.kind)).all (· ≠ .virtual) := fun xs => by
    rw [List.all_map]
    rfl
  rw [Transaction.requiresBalance, Transaction.requiresBalance, hall, hall, kinds_of_kept h]

theorem leftOpen_of_whole {t t' : Transaction} {sums : List Commodity}
    (hpostings : s.Kept t.postings t'.postings) (hlength : 2 ≤ t.postings.length)
    (htallies : ∀ x ∈ t.postings, x.isTally = false) (hsums : t.imbalance = .ok sums)
    (hcount : sums.length ≠ 1) (hoff : t.isBalanced = .ok false) : t.LeftOpen t' := by
  refine ⟨hlength, htallies, ⟨sums, hsums, ?_⟩, number?_of_kept hpostings⟩
  have hsome : sums ≠ [] := by
    rintro rfl
    rw [Transaction.isBalanced_iff_imbalance.mpr ⟨htallies, hsums⟩] at hoff
    cases hoff
  have := List.length_pos_iff.mpr hsome
  omega

/-- A transaction that has to balance is kept open, or balances exactly if the tally fits. -/
theorem leftOpen_or_balances_iff {t t' : Transaction} (hkept : s.kept? t = .ok t')
    (hrequires : t'.requiresBalance = true)
    (hexact : ∀ cs, costs t.postings = .ok cs → ExactRange cs)
    (hstored : ∀ cs, costs t'.postings = .ok cs → ExactRange cs) :
    t.LeftOpen t' ∨ (t'.Balances ↔ s.TallyFits t) := by
  obtain ⟨u, hpostings, ⟨hasis, rfl⟩ | ⟨-, hoff, places, hcompletes⟩⟩ := completed_of_kept? hkept
  · rw [requiresBalance_of_kept hpostings] at hrequires
    rw [hrequires] at hasis
    have hisBalanced := hasis.resolve_left (by simp)
    obtain ⟨htallies, cs, hcosts, -⟩ := Transaction.isBalanced_eq_true_iff.mp hisBalanced
    refine .inr (iff_of_true ?_ (tallyFits_of_no_tally htallies))
    exact balances_of_isBalanced hpostings hcosts (hexact cs hcosts) hisBalanced
  · cases hcompletes with
    | @lone x account cost hone hbucket hcost =>
      have hcosts : costs t.postings = .ok [cost] := by
        rw [hone]
        exact Posting.costs_cons_eq_ok_iff.mpr ⟨some cost, [], hcost, rfl, rfl⟩
      refine .inr (iff_of_true (balances_of_lone hpostings hcost (hexact _ hcosts)) ?_)
      refine tallyFits_of_no_tally fun y hy => ?_
      rw [hone, List.mem_singleton] at hy
      subst hy
      exact Posting.isTally_of_cost? hcost
    | @tally before after x sums hparts hne hx hrest hsums =>
      obtain ⟨cs, -, hcosts, -⟩ := Transaction.imbalance_eq_ok_iff.mp hsums
      rw [tallyFits_iff hparts hx hrest hcosts hsums]
      refine .inr ?_
      cases hprice : x.price? with
      | none =>
        exact balances_of_tally hparts hx hrest hprice hcosts (hexact cs hcosts) hsums hpostings
      | some price =>
        exact balances_of_priced_tally hparts hx hrest hprice hcosts (hexact cs hcosts) hsums
          hpostings hstored
    | @whole sums hlength htallies hsums hcount =>
      exact .inl (leftOpen_of_whole hpostings hlength htallies hsums hcount hoff)

end Store

namespace Filling

variable {σ : Type}

/-- After a first pass every stored transaction that has to balance does so exactly if its tally
posting fits, unless it was left open. -/
theorem firstPass_balances {r : Reporter σ} {ds : List (Spanned Directive)} {options : Options}
    {state : σ} {q : Progress σ}
    (hrun : runOn (firstPass r ds) (.empty options) state = (.ok (), q))
    (hexact : ∀ t span, ⟨.transaction t, span⟩ ∈ ds → ∀ cs, costs t.postings = .ok cs →
      ExactRange cs)
    {t' : Transaction} (ht' : q.store.Holds t') (hrequires : t'.requiresBalance = true)
    (hstored : ∀ cs, costs t'.postings = .ok cs → ExactRange cs) :
    ∃ s t, Files r ⟨.empty options, [], state⟩ ds s t t' ∧
      (t.LeftOpen t' ∨ (t'.Balances ↔ s.TallyFits t)) := by
  obtain ⟨-, m, hall, -, rfl⟩ := leads_firstPass.mp hrun
  have hholds : m.store.Holds t' := ht'
  obtain ⟨s, t, hfiles⟩ := (hall.holds_iff.mp hholds).resolve_left List.not_mem_nil
  refine ⟨s, t, hfiles, ?_⟩
  obtain ⟨before, span, after, m', rfl, -, -, hkept⟩ := hfiles
  exact Store.leftOpen_or_balances_iff hkept hrequires (hexact t span (by simp)) hstored

theorem exactRange_single {postings : List Posting} {ks : List Commodity}
    (hcosts : costs postings = .ok ks) (hexact : ExactRange ks) {t : Transaction} {span : Span}
    (h : ⟨.transaction t, span⟩ ∈ single postings) {cs : List Commodity}
    (hcs : costs t.postings = .ok cs) : ExactRange cs := by
  rw [postings_of_mem_single h] at hcs
  obtain rfl := Except.ok.inj (hcosts.symm.trans hcs)
  exact hexact

/-- A transaction with a tally posting is stored so that it balances if the tally fits. -/
theorem firstPass_balances_single :
    let ds := single [.ofAmount "Bank" oneDollar, .tally "Cash"]
    let start : Progress Unit := ⟨.empty .default, [], ()⟩
    let q := (runOn (firstPass (.silent Unit) ds) (.empty .default) ()).2
    ∃ t', q.store.Holds t' ∧ ∃ s t, Files (.silent Unit) start ds s t t' ∧
      (t.LeftOpen t' ∨ (t'.Balances ↔ s.TallyFits t)) := by
  intro ds start q
  have hrun : runOn (firstPass (.silent Unit) ds) (.empty .default) () = (.ok (), q) :=
    runOn_eq_ok (by decide +kernel)
  have hexact : ExactRange [oneDollar] := by decide +kernel
  obtain ⟨t', ht', hrequires, hcosts⟩ : ∃ t' ∈ q.store.transactions.values,
      t'.requiresBalance = true ∧ ∀ cs ∈ (costs t'.postings).toOption, ExactRange cs := by
    decide +kernel
  exact ⟨t', ht', firstPass_balances hrun
    (fun t span ht cs hcs => exactRange_single rfl hexact ht hcs) ht' hrequires
    fun cs hcs => hcosts cs (by rw [hcs]; rfl)⟩

/-- A tally posting with a price gets the amount that the others leave, as if it had none; what the
amount costs does not meet them, and the transaction is stored although it does not balance. -/
theorem priced_tally_stored_unbalanced :
    let price : Commodity := .ofCurrency "$" ⟨false, 2, 0, by decide, by decide⟩
    let tally : Posting := { Posting.tally "Cash" with costPrice := some price }
    let ds := single [.ofAmount "Bank" oneDollar, tally]
    let q := (runOn (firstPass (.silent Unit) ds) (.empty .default) ()).2
    runOn (firstPass (.silent Unit) ds) (.empty .default) () = (.ok (), q) ∧
      (∀ t span, ⟨.transaction t, span⟩ ∈ ds → ∀ cs, costs t.postings = .ok cs → ExactRange cs) ∧
      ∃ t', q.store.Holds t' ∧ t'.requiresBalance = true ∧
        (∀ cs, costs t'.postings = .ok cs → ExactRange cs) ∧ t'.isBalanced = .ok false ∧
        ∀ t span, ⟨.transaction t, span⟩ ∈ ds → ¬t.LeftOpen t' := by
  intro price tally ds q
  have hexact : ExactRange [oneDollar] := by decide +kernel
  refine ⟨runOn_eq_ok (by decide +kernel),
    fun t span ht cs hcs => exactRange_single rfl hexact ht hcs, ?_⟩
  obtain ⟨t', ht', hrequires, hcosts, hoff⟩ : ∃ t' ∈ q.store.transactions.values,
      t'.requiresBalance = true ∧ (∀ cs ∈ (costs t'.postings).toOption, ExactRange cs) ∧
        t'.isBalanced.toOption = some false := by
    decide +kernel
  refine ⟨t', ht', hrequires, fun cs hcs => hcosts cs (by rw [hcs]; rfl), ?_,
    fun t span ht hopen => ?_⟩
  · cases hbalanced : t'.isBalanced with
    | error e => simp [hbalanced, Except.toOption] at hoff
    | ok b =>
      rw [hbalanced] at hoff
      exact congrArg Except.ok (Option.some.inj hoff)
  · have hamount := hopen.2.1 tally (by simp [postings_of_mem_single ht])
    simp [tally, Posting.isTally, Posting.tally] at hamount

end Filling

end Daybook
