import Daybook.Proofs.Decimal.Written
import Daybook.Proofs.Store.Coherent
import Daybook.Proofs.Store.Notation
import Daybook.Proofs.Store.Writing
import Daybook.Report.Basic

/-!
# Declared formats

The sample of a commodity has the most decimals with which the commodity has been registered, and
reports show all its amounts with as many (`Commodity.shownWith_text`). The amounts of transactions
are registered as the declaration says, with the decimals of its format; the values of prices are
registered as they are written. So the format decides the decimals if no price has more of them.
-/

namespace Daybook

open Posting (costs)

/-- Whether the text shows an amount in `name` with that many decimals: the name stands between the
sign and the digits, or behind both. -/
def Commodity.ShownWith (places : Nat) (name text : String) : Prop :=
  ∃ sign digits, (sign = [] ∨ sign = ['-']) ∧ Decimal.HasPlaces places digits ∧
    (text.toList = sign ++ name.toList ++ digits ∨
      text.toList = sign ++ digits ++ ' ' :: name.toList)

/-- Whether an amount of the transaction is in `n`, prices included. -/
def Transaction.Brings (n : String) (t : Transaction) : Prop :=
  ∃ x ∈ t.postings, ∃ c ∈ x.values, c.name = n

namespace Directive

/-- Whether the directive has an amount in `n` or declares it. -/
def Brings (n : String) : Directive → Prop
  | .transaction t => t.Brings n
  | .price x => x.value.name = n
  | .commodity d => d.name = n
  | _ => False

def pricePlaces (n : String) : Directive → Nat
  | .price x => if x.value.name = n then x.value.precision else 0
  | _ => 0

theorem declaration?_of_not_brings {n : String} {d : Directive} (h : ¬d.Brings n) :
    d.declaration? n = none := by
  cases d
  case commodity d => exact if_neg h
  all_goals rfl

theorem pricePlaces_of_not_brings {n : String} {d : Directive} (h : ¬d.Brings n) :
    d.pricePlaces n = 0 := by
  cases d
  case price x => exact if_neg h
  all_goals rfl

end Directive

/-! ## How amounts are shown -/

theorem Decimal.not_minus_of_hasPlaces {places : Nat} {digits rest : List Char}
    (h : HasPlaces places digits) : digits ≠ '-' :: rest := by
  obtain ⟨whole, decimals, rfl, hne, -, hall⟩ := h
  obtain ⟨c, whole, rfl⟩ := List.exists_cons_of_ne_nil hne
  have hc := hall c (by simp)
  intro hminus
  have heq : c = '-' := by
    split at hminus <;> exact (List.cons.inj hminus).1
  rw [heq] at hc
  exact absurd hc (by decide)

theorem Commodity.shownWith_text (c : Commodity) : ShownWith c.precision c.name c.text := by
  obtain ⟨sign, digits, hnumber, hsign, hdigits⟩ :=
    c.amount.textWithPlaces_hasPlaces c.precision
  refine ⟨sign, digits, hsign, hdigits, ?_⟩
  rw [text]
  by_cases hcurrency : c.currency = true
  · refine .inl ?_
    simp only [hcurrency, if_true, hnumber]
    rcases hsign with rfl | rfl
    · split
      · rename_i hminus
        exact absurd hminus (Decimal.not_minus_of_hasPlaces hdigits)
      · simp [hnumber]
    · simp
  · simp only [hcurrency, Bool.false_eq_true, if_false]
    by_cases hname : c.name = ""
    · refine .inl ?_
      simp [hname, hnumber]
    · refine .inr ?_
      simp [hname, hnumber]

/-! ## The amounts of completed transactions -/

namespace Posting

theorem mem_values_withAmount {x : Posting} {c d : Commodity} (h : d ∈ (x.withAmount c).values) :
    d = c ∨ d ∈ x.values := by
  simp only [values, withAmount, Option.toList_some, List.append_assoc, List.mem_append,
    List.mem_singleton] at h ⊢
  exact h.imp_right .inr

theorem exists_value_of_cost {x : Posting} {c : Commodity} (h : x.cost? = .ok (some c)) :
    ∃ d ∈ x.values, d.name = c.name := by
  obtain ⟨d, hd, hname, -⟩ := similar_of_cost? h
  rcases Option.or_eq_some_iff.mp hd with hprice | ⟨-, hamount⟩
  · exact ⟨d, mem_values_of_price? hprice, hname.symm⟩
  · exact ⟨d, mem_values_of_amount hamount, hname.symm⟩

theorem exists_value_of_costs {xs : List Posting} {cs : List Commodity} (hcs : costs xs = .ok cs) :
    ∀ c ∈ cs, ∃ x ∈ xs, ∃ d ∈ x.values, d.name = c.name := by
  induction xs generalizing cs with
  | nil =>
    obtain rfl := Except.ok.inj hcs
    exact fun c hc => absurd hc List.not_mem_nil
  | cons x xs ih =>
    obtain ⟨cost, rest, hcost, hrest, rfl⟩ := costs_cons_eq_ok_iff.mp hcs
    intro c hc
    rcases List.mem_append.mp hc with hc | hc
    · obtain rfl : cost = some c := by simpa using hc
      exact ⟨x, List.mem_cons_self, exists_value_of_cost hcost⟩
    · obtain ⟨y, hy, hvalue⟩ := ih hrest c hc
      exact ⟨y, List.mem_cons_of_mem x hy, hvalue⟩

end Posting

namespace Transaction

theorem brings_of_mem_imbalance {t : Transaction} {sums : List Commodity}
    (h : t.imbalance = .ok sums) {sum : Commodity} (hsum : sum ∈ sums) : t.Brings sum.name := by
  obtain ⟨cs, -, hcs, -⟩ := imbalance_eq_ok_iff.mp h
  obtain ⟨c, hc, hname, -⟩ := exists_similar_of_mem_imbalance hcs h hsum
  obtain ⟨x, hx, d, hd, hdname⟩ := Posting.exists_value_of_costs hcs c hc
  exact ⟨x, hx, d, hd, hdname.trans hname⟩

theorem brings_of_completes {t u : Transaction} {bucket : Option String} {unit : Commodity}
    {places : List Nat} (h : t.Completes bucket unit u places) {x : Posting}
    (hx : x ∈ u.postings) {c : Commodity} (hc : c ∈ x.values) :
    t.Brings c.name ∨ c = unit.similar .zero := by
  cases h with
  | @lone y account cost hone _ hcost =>
    have hy : y ∈ t.postings := by simp [hone]
    simp only [List.mem_cons, List.not_mem_nil, or_false] at hx
    rcases hx with rfl | rfl
    · exact .inl ⟨x, hy, c, hc, rfl⟩
    · obtain rfl : c = cost.invert := by
        simpa [Posting.values, Posting.ofAmount, Posting.tally] using hc
      rw [Commodity.name_invert]
      exact .inl ⟨y, hy, Posting.exists_value_of_cost hcost⟩
  | @tally before after y sums hparts _ _ _ hsums =>
    have hmem : ∀ z, z ∈ before ∨ z = y ∨ z ∈ after → z ∈ t.postings := by simp [hparts]
    have hoffset : t.Brings (unit.offset sums).name ∨ unit.offset sums = unit.similar .zero := by
      cases sums with
      | nil => exact .inr rfl
      | cons sum sums =>
        have hbrings := brings_of_mem_imbalance hsums (List.mem_cons_self (a := sum))
        exact .inl hbrings
    simp only [Posting.furtherOffsets, List.append_assoc, List.cons_append, List.mem_append,
      List.mem_cons, List.mem_map] at hx
    rcases hx with hx | rfl | hx | ⟨sum, hsum, rfl⟩
    · exact .inl ⟨x, hmem x (.inl hx), c, hc, rfl⟩
    · rcases Posting.mem_values_withAmount hc with rfl | hc
      · exact hoffset
      · exact .inl ⟨y, hmem y (.inr (.inl rfl)), c, hc, rfl⟩
    · exact .inl ⟨x, hmem x (.inr (.inr hx)), c, hc, rfl⟩
    · rcases Posting.mem_values_withAmount hc with rfl | hc
      · rw [Commodity.name_invert]
        exact .inl (brings_of_mem_imbalance hsums (List.mem_of_mem_tail hsum))
      · exact .inl ⟨y, hmem y (.inr (.inl rfl)), c, hc, rfl⟩
  | whole => exact .inl ⟨x, hx, c, hc, rfl⟩

end Transaction

/-! ## The decimals of samples -/

namespace Store

variable {s s' : Store} {n : String}

/-- With how many decimals amounts in `n` are shown; none if they are not known. -/
def places (s : Store) (n : String) : Nat := ((s.samples.find? n).map (·.precision)).getD 0

theorem SameUnits.places_eq (h : SameUnits s s') (n : String) : s'.places n = s.places n := by
  rw [places, h.samples, places]

theorem places_register (s : Store) (c : Commodity) (n : String) : (s.register c).places n =
    if c.name = n then max (s.places n) c.precision else s.places n := by
  rw [places, register, NameMap.find?_insert]
  by_cases hname : c.name = n
  · rw [if_pos hname, if_pos hname, places, ← hname]
    cases s.samples.find? c.name with
    | some sample => rfl
    | none => exact (Nat.zero_max _).symm
  · rw [if_neg hname, if_neg hname]
    rfl

theorem places_registerAll {cs : List Commodity}
    (h : ∀ c ∈ cs, c.name = n → c.precision ≤ s.places n) :
    (s.registerAll cs).places n = s.places n := by
  induction cs generalizing s with
  | nil => rfl
  | cons c cs ih =>
    obtain ⟨hc, hcs⟩ := List.forall_mem_cons.mp h
    have hstep : (s.register c).places n = s.places n := by
      rw [places_register]
      split
      · exact Nat.max_eq_left (hc ‹_›)
      · rfl
    have hrest : ((s.register c).registerAll cs).places n = (s.register c).places n :=
      ih (hstep ▸ hcs)
    exact hrest.trans hstep

theorem places_withKept {t t' : Transaction}
    (h : ∀ x ∈ t'.postings, ∀ c ∈ x.values, c.name = n → c.precision ≤ s.places n) :
    (s.withKept t t').places n = s.places n := by
  rw [(sameUnits_withKept s t t').places_eq]
  refine places_registerAll fun c hc hname => ?_
  obtain ⟨x, hx, hc⟩ := List.mem_flatMap.mp hc
  exact h x hx c hc hname

theorem places_declareCommodity {d : CommodityDeclaration} {f : Commodity}
    (hformat : d.format = some f) (s : Store) :
    (Filling.declareCommodity d s).places d.name = max (s.places d.name) f.precision := by
  have hregister := places_register s
    { f.similar .zero with name := d.name, currency := f.currency || d.currency } d.name
  rw [if_pos rfl] at hregister
  rw [Filling.declareCommodity, hformat]
  exact hregister

theorem hasSample_declareCommodity {d : CommodityDeclaration} {f : Commodity} (h : s.Sampled)
    (hformat : d.format = some f) :
    ∃ c : Commodity, c.name = d.name ∧ (Filling.declareCommodity d s).HasSample c := by
  rw [Filling.declareCommodity, hformat]
  exact ⟨_, rfl, hasSample_register h _⟩

theorem places_entered {d : Directive} (h : d.declaration? n = none) (s : Store) :
    (s.entered d).places n = max (s.places n) (d.pricePlaces n) := by
  cases d
  case price x =>
    have hentered : (s.entered (.price x)).places n = (s.register x.value).places n := rfl
    rw [hentered, places_register, Directive.pricePlaces]
    split
    · rfl
    · exact (Nat.max_zero _).symm
  case account d =>
    rw [(sameUnits_declareAccount s d).places_eq]
    exact (Nat.max_zero _).symm
  case commodity d =>
    have hname : d.name ≠ n := by
      intro hname
      rw [Directive.declaration?, if_pos hname] at h
      contradiction
    have hplaces : (s.entered (.commodity d)).places n = s.places n := by
      rw [entered, Filling.declareCommodity]
      cases d.format with
      | none => rfl
      | some f => exact (places_register s _ n).trans (if_neg hname)
    rw [hplaces]
    exact (Nat.max_zero _).symm
  all_goals exact (Nat.max_zero _).symm

theorem precision_unit_le (h : s.Sampled) : s.unit.precision ≤ s.places s.unit.name := by
  rw [unit]
  split
  · exact Nat.zero_le _
  · rename_i name _
    cases hfind : s.samples.find? name with
    | none => exact Nat.zero_le _
    | some sample =>
      obtain ⟨hname, -⟩ := h name sample hfind
      have hplaces : s.places sample.name = sample.precision := by
        rw [places, hname, hfind]
        rfl
      exact hplaces.ge

theorem precision_le_of_not_brings (h : s.Sampled) (hdeclared : s.declarations.find? n = none)
    {t t' : Transaction} (ht : ¬t.Brings n) (hkept : s.kept? t = .ok t') :
    ∀ x ∈ t'.postings, ∀ c ∈ x.values, c.name = n → c.precision ≤ s.places n := by
  obtain ⟨u, hpostings, hu⟩ := completed_of_kept? hkept
  intro y hy c hc hname
  obtain ⟨name, x, hx, rfl⟩ := exists_of_mem_kept hpostings hy
  rw [values_keptOn_eq_map, List.mem_map] at hc
  obtain ⟨c, hc, rfl⟩ := hc
  rw [name_declaredForm] at hname
  rw [declaredForm, hname, hdeclared]
  rcases hu with ⟨-, rfl⟩ | ⟨-, -, places, hcompletes⟩
  · exact absurd ⟨x, hx, c, hc, hname⟩ ht
  · rcases Transaction.brings_of_completes hcompletes hx hc with hbrings | rfl
    · exact absurd (hname ▸ hbrings) ht
    · have hsampled : (s.noteFirst t).Sampled := h
      rw [← hname]
      exact precision_unit_le hsampled

theorem precision_of_declared {d : CommodityDeclaration} {f : Commodity}
    (hdeclared : s.declarations.find? n = some d) (hformat : d.format = some f)
    {t t' : Transaction} (hkept : s.kept? t = .ok t') :
    ∀ x ∈ t'.postings, ∀ c ∈ x.values, c.name = n → c.precision = f.precision := by
  obtain ⟨u, hpostings, -⟩ := completed_of_kept? hkept
  intro y hy c hc hname
  obtain ⟨name, x, hx, rfl⟩ := exists_of_mem_kept hpostings hy
  rw [values_keptOn_eq_map, List.mem_map] at hc
  obtain ⟨c, hc, rfl⟩ := hc
  rw [name_declaredForm] at hname
  rw [declaredForm, hname, hdeclared]
  simp only [hformat, Option.map_some, Option.getD_some]

end Store

namespace Filling

variable {σ : Type} {r : Reporter σ} {p q : Progress σ} {ds : List (Spanned Directive)}
  {n : String}

theorem Admits.declarations_eq (h : Admits r p ds q)
    (hds : ∀ d ∈ ds, d.value.declaration? n = none) :
    q.store.declarations.find? n = p.store.declarations.find? n := by
  rw [h.declarations, Directive.lastDeclaration?, List.filterMap_eq_nil_iff.mpr hds]
  rfl

/-- A directive adds decimals only by a price, if transactions keep to those that are shown. -/
theorem places_of_leads_takeIn {d : Spanned Directive} {u : Unit}
    (hd : d.value.declaration? n = none)
    (hkept : ∀ t t', d.value = .transaction t → p.store.kept? t = .ok t' →
      ∀ x ∈ t'.postings, ∀ c ∈ x.values, c.name = n → c.precision ≤ p.store.places n)
    (h : Leads (takeIn r d) p u q) :
    q.store.places n = max (p.store.places n) (d.value.pricePlaces n) := by
  rcases leads_takeIn h with ⟨t, t', hvalue, hkeeps, hq⟩ | ⟨-, hbooks⟩
  · have hplaces : (p.store.withKept t t').places n = p.store.places n :=
      Store.places_withKept (hkept t t' hvalue hkeeps)
    rw [hvalue, hq]
    exact hplaces.trans (Nat.max_zero _).symm
  · rw [hbooks.sameUnits.places_eq]
    exact Store.places_entered hd p.store

theorem Admits.places_eq (h : Admits r p ds q) (hp : p.store.Coherent)
    (hdeclared : p.store.declarations.find? n = none) (hds : ∀ d ∈ ds, ¬d.value.Brings n) :
    q.store.places n = p.store.places n := by
  induction h with
  | start => rfl
  | @next ds d m q hm hd ih =>
    obtain ⟨hds, hlast⟩ := List.forall_mem_append.mp hds
    have hnot := hlast d List.mem_cons_self
    have hm' : m.store.declarations.find? n = none := by
      rw [hm.declarations_eq fun x hx => Directive.declaration?_of_not_brings (hds x hx)]
      exact hdeclared
    rw [places_of_leads_takeIn (Directive.declaration?_of_not_brings hnot) ?_ hd,
      Directive.pricePlaces_of_not_brings hnot, Nat.max_zero, ih hds]
    intro t t' hvalue hkept
    rw [hvalue] at hnot
    exact Store.precision_le_of_not_brings (hm.coherent hp).samples hm' hnot hkept

/-- Behind the declaration of a format, only prices add decimals. -/
theorem Admits.places_le_iff (h : Admits r p ds q) {d : CommodityDeclaration} {f : Commodity}
    (hdeclared : p.store.declarations.find? n = some d) (hformat : d.format = some f)
    (hleast : f.precision ≤ p.store.places n) (hds : ∀ x ∈ ds, x.value.declaration? n = none)
    (k : Nat) : q.store.places n ≤ k ↔
      p.store.places n ≤ k ∧ ∀ x ∈ ds, x.value.pricePlaces n ≤ k := by
  induction h generalizing k with
  | start => exact (and_iff_left fun x hx => absurd hx List.not_mem_nil).symm
  | @next ds x m q hm hx ih =>
    obtain ⟨hds, hlast⟩ := List.forall_mem_append.mp hds
    have hm' : m.store.declarations.find? n = some d := (hm.declarations_eq hds).trans hdeclared
    have hmore : p.store.places n ≤ m.store.places n := ((ih hds _).mp (Nat.le_refl _)).1
    have hstep := places_of_leads_takeIn (hlast x List.mem_cons_self)
      (fun t t' _ hkept y hy c hc hname =>
        ((Store.precision_of_declared hm' hformat hkept y hy c hc hname).trans_le hleast).trans
          hmore) hx
    rw [hstep, Nat.max_le, ih hds k, List.forall_mem_append, List.forall_mem_singleton, and_assoc]

theorem Admits.hasSample (h : Admits r p ds q) {c : Commodity} (hp : p.store.HasSample c) :
    q.store.HasSample c := by
  induction h with
  | start => exact hp
  | @next ds d m q _ hd ih =>
    rcases leads_takeIn hd with ⟨t, t', -, -, hq⟩ | ⟨-, hbooks⟩
    · have hfirst : (m.store.noteFirst t).HasSample c := ih
      have hkept := (hfirst.registerAll _).sameUnits (Store.sameUnits_withKept m.store t t')
      rw [hq]
      exact hkept
    · exact (ih.entered d.value).sameUnits hbooks.sameUnits

/-- A first pass leaves a sample of a commodity that is declared with a format before it is brought
in, and never again. It has the decimals of the format if and only if no price has more of them, and
then reports show all amounts so, however many decimals transactions use. -/
theorem firstPass_format_iff {options : Options} {state : σ} {d : CommodityDeclaration}
    {f : Commodity} {span : Span} {before after : List (Spanned Directive)}
    (hformat : d.format = some f) (hbefore : ∀ x ∈ before, ¬x.value.Brings d.name)
    (hafter : ∀ x ∈ after, x.value.declaration? d.name = none)
    (hrun : runOn (firstPass r (before ++ ⟨.commodity d, span⟩ :: after)) (.empty options) state =
      (.ok (), p)) :
    (∀ x ∈ after, x.value.pricePlaces d.name ≤ f.precision) ↔
      ∃ sample, p.store.samples.find? d.name = some sample ∧ sample.precision = f.precision ∧
        ∀ c : Commodity, c.name = d.name →
          Commodity.ShownWith f.precision d.name (Report.amountText p.store c) := by
  obtain ⟨-, q, hall, -, hq⟩ := leads_firstPass.mp hrun
  have hsamples : p.store.samples = q.store.samples := by rw [← hq]
  obtain ⟨m, m', hfirst, hd, hrest⟩ := hall.split
  have hcoherent := Store.coherent_empty options
  have hm : m.store.places d.name = 0 := hfirst.places_eq hcoherent rfl hbefore
  have hm' : m'.store = declareCommodity d m.store := by
    have hstep : Leads (apply (.commodity d) span) m () m' := hd
    rw [apply, leads_update] at hstep
    rw [← hstep]
  have hdeclared : m'.store.declarations.find? d.name = some d := by
    rw [declarations_of_leads_takeIn hd]
    exact congrArg (Option.or · _) (if_pos rfl)
  have hplaces : m'.store.places d.name = f.precision := by
    rw [hm', Store.places_declareCommodity hformat, hm, Nat.zero_max]
  obtain ⟨c₀, hc₀, hsample⟩ :=
    Store.hasSample_declareCommodity (hfirst.coherent hcoherent).samples hformat
  obtain ⟨sample, hfind, hname, -⟩ := hrest.hasSample (hm' ▸ hsample)
  rw [hc₀] at hfind hname
  have hprecision : q.store.places d.name = sample.precision := by
    rw [Store.places, hfind]
    rfl
  -- The prices behind the declaration and its format bound the decimals of the sample.
  have hbound := hrest.places_le_iff hdeclared hformat hplaces.ge hafter
  rw [hprecision, hplaces] at hbound
  have hleast : f.precision ≤ sample.precision := ((hbound _).mp (Nat.le_refl _)).1
  rw [hsamples]
  constructor
  · intro hprices
    have hequal := Nat.le_antisymm ((hbound _).mpr ⟨Nat.le_refl _, hprices⟩) hleast
    refine ⟨sample, hfind, hequal, fun c hc => ?_⟩
    have hshown := Commodity.shownWith_text (sample.similar c.amount)
    simp only [Report.amountText, hsamples, hc, hfind]
    rw [← hequal, ← hname]
    exact hshown
  · rintro ⟨sample', hfind', hequal, -⟩
    obtain rfl := Option.some.inj (hfind.symm.trans hfind')
    exact ((hbound _).mp hequal.le).2

def dollarAndCents : Commodity := .ofCurrency "$" ⟨false, 100, 2, by decide, by decide⟩

def inCents : CommodityDeclaration :=
  { CommodityDeclaration.ofName "$" with format := some dollarAndCents }

def euroAt (price : Decimal) : Spanned Directive :=
  ⟨.price ⟨.ofDate ⟨2024, 1, 2, by decide⟩, "EUR", .ofCurrency "$" price⟩, .line 3⟩

/-- Euros before the declaration, and behind it a price and a transaction in thousandths of dollars,
which are shown as cents. -/
theorem firstPass_format_iff_cents :
    let before := single [.ofAmount "A" (.plain "EUR" .one), .tally "B"]
    let after := euroAt ⟨false, 15, 1, by decide, by decide⟩ ::
      single [{ Posting.ofAmount "A" (.plain "EUR" .one) with
        costPrice := some (.ofCurrency "$" ⟨false, 1234, 3, by decide, by decide⟩) }, .tally "B"]
    let p := (runOn (firstPass (.silent Unit)
      (before ++ ⟨.commodity inCents, .line 2⟩ :: after)) (.empty .default) ()).2
    (∃ sample, p.store.samples.find? "$" = some sample ∧ sample.precision = 2 ∧
      ∀ c : Commodity, c.name = "$" → Commodity.ShownWith 2 "$" (Report.amountText p.store c)) ∧
    p.store.transactions.values.map (fun t => t.postings.map fun x =>
      x.amount.map (Report.amountText p.store)) =
        [[some "1 EUR", some "-1 EUR"], [some "1 EUR", some "-$1.23"]] := by
  intro before after p
  have hrun : runOn (firstPass (.silent Unit)
      (before ++ ⟨.commodity inCents, .line 2⟩ :: after)) (.empty .default) () = (.ok (), p) :=
    runOn_eq_ok (by decide +kernel)
  have hbefore : ∀ x ∈ before, ¬x.value.Brings "$" := by
    simp [before, single, Directive.Brings, Transaction.Brings, Posting.values, Posting.ofAmount,
      Posting.tally, Commodity.plain]
  have hafter : ∀ x ∈ after, x.value.declaration? "$" = none := by
    simp [after, single, euroAt, Directive.declaration?]
  have hprices : ∀ x ∈ after, x.value.pricePlaces "$" ≤ dollarAndCents.precision := by
    decide +kernel
  exact ⟨(firstPass_format_iff (f := dollarAndCents) rfl hbefore hafter hrun).mp hprices,
    by decide +kernel⟩

/-- A price with more decimals than the format: all amounts are shown with them. -/
theorem price_overrides_format :
    let ds := [⟨.commodity inCents, .line 1⟩, euroAt ⟨false, 12345, 4, by decide, by decide⟩]
    let pass := runOn (firstPass (.silent Unit) ds) (.empty .default) ()
    pass.1 = .ok () ∧ (inCents.format.map (·.precision)) = some 2 ∧
      (pass.2.store.samples.find? "$").map (·.precision) = some 4 ∧
      Report.amountText pass.2.store oneDollar = "$1.0000" := by
  decide +kernel

end Filling

end Daybook
