import Daybook.Commodity
import Daybook.Proofs.Decimal.Exact

/-!
# Sums of amounts

`total?` adds up amounts of one commodity, in order. It fails on two notations of the commodity, and
no sum of the first amounts is rounded if they are in range (`ExactRange.exactSums`): then the total
has the value that the amounts have together (`total?_exact`).
-/

namespace Daybook

open Decimal (maxScale mantissaLimit grid Fits)

namespace Commodity

/-- The amount as a multiple of `10 ^ -28`. -/
def value (c : Commodity) : Int := c.amount.value

/-- What the amounts have together, whatever they are amounts of. -/
def sumOf (cs : List Commodity) : Int := (cs.map value).sum

def addTo : Option Commodity → Commodity → Except AmountError (Option Commodity)
  | some sum, c => some <$> sum.add c
  | none, c => .ok (some c)

/-- The sum of the amounts in order; nothing is the sum of no amounts. -/
def total? (cs : List Commodity) : Except AmountError (Option Commodity) := cs.foldlM addTo none

/-- Whether amounts of one name are also written alike. -/
def Agree (cs : List Commodity) : Prop :=
  ∀ a ∈ cs, ∀ b ∈ cs, a.name = b.name → a.currency = b.currency

/-- The amounts are multiples of one `10 ^ -s`, and so small that all of them together, whatever
their signs, are numbers of `s` decimals. -/
def ExactRange (cs : List Commodity) : Prop :=
  ∃ s ≤ maxScale, (∀ c ∈ cs, (grid s : Int) ∣ c.value) ∧
    (cs.map (·.value.natAbs)).sum < mantissaLimit * grid s

instance : DecidablePred ExactRange := fun cs =>
  inferInstanceAs (Decidable (∃ s, s ≤ maxScale ∧ (∀ c ∈ cs, (grid s : Int) ∣ c.value) ∧
    (cs.map (·.value.natAbs)).sum < mantissaLimit * grid s))

/-- The sums of the first amounts are numbers of some `s` decimals, so that none is rounded. -/
def ExactSums (cs : List Commodity) : Prop :=
  ∃ s ≤ maxScale, ∀ k, Fits s (sumOf (cs.take k))

def named (n : String) (cs : List Commodity) : List Commodity := cs.filter (·.name = n)

/-! ## One amount -/

theorem isSimilar_iff {a b : Commodity} :
    a.isSimilar b = true ↔ a.name = b.name ∧ a.currency = b.currency := by
  simp [isSimilar]

theorem add_eq_ok_iff {a b c : Commodity} :
    a.add b = .ok c ↔ a.isSimilar b = true ∧ ∃ n, a.amount.add? b.amount = some n ∧
      c = { a with amount := n, precision := max a.precision b.precision } := by
  rw [add]
  cases hsim : a.isSimilar b
  · simp
  · cases hsum : a.amount.add? b.amount <;> simp [settled, eq_comm]

theorem isBalanced_iff (c : Commodity) :
    c.isBalanced = true ↔ |c.value| ≤ tolerance.value := by
  rw [isBalanced, Decimal.le_iff, Decimal.value_abs, value]

@[simp] theorem value_invert (c : Commodity) : c.invert.value = -c.value :=
  Decimal.value_neg c.amount

@[simp] theorem name_invert (c : Commodity) : c.invert.name = c.name := rfl

@[simp] theorem currency_invert (c : Commodity) : c.invert.currency = c.currency := rfl

/-! ## Lists of amounts -/

@[simp] theorem sumOf_nil : sumOf [] = 0 := rfl

@[simp] theorem sumOf_cons (c : Commodity) (cs : List Commodity) :
    sumOf (c :: cs) = c.value + sumOf cs := rfl

@[simp] theorem sumOf_append (cs ds : List Commodity) : sumOf (cs ++ ds) = sumOf cs + sumOf ds := by
  simp [sumOf]

@[simp] theorem named_nil (n : String) : named n [] = [] := rfl

@[simp] theorem named_append (n : String) (cs ds : List Commodity) :
    named n (cs ++ ds) = named n cs ++ named n ds :=
  List.filter_append ..

theorem named_cons (n : String) (c : Commodity) (cs : List Commodity) :
    named n (c :: cs) = if c.name = n then c :: named n cs else named n cs := by
  simp [named, List.filter_cons]

theorem mem_named {n : String} {c : Commodity} {cs : List Commodity} :
    c ∈ named n cs ↔ c ∈ cs ∧ c.name = n := by
  simp [named]

theorem named_map {f : Commodity → Commodity} (hf : ∀ c, (f c).name = c.name) (n : String)
    (cs : List Commodity) : named n (cs.map f) = (named n cs).map f := by
  simp only [named, List.filter_map]
  congr 1
  exact List.filter_congr fun c _ => by simp [hf]

theorem sumOf_map {f : Commodity → Commodity} (hf : ∀ c, (f c).value = c.value)
    (cs : List Commodity) : sumOf (cs.map f) = sumOf cs := by
  simp only [sumOf, List.map_map]
  congr 1
  exact List.map_congr_left fun c _ => hf c

theorem Agree.sublist {cs ds : List Commodity} (h : Agree ds) (hsub : cs.Sublist ds) : Agree cs :=
  fun a ha b hb => h a (hsub.subset ha) b (hsub.subset hb)

/-! ## The range in which sums are exact -/

theorem natAbs_sumOf_le (cs : List Commodity) :
    (sumOf cs).natAbs ≤ (cs.map (·.value.natAbs)).sum := by
  induction cs with
  | nil => simp
  | cons c cs ih =>
    simp only [sumOf_cons, List.map_cons, List.sum_cons]
    have := Int.natAbs_add_le c.value (sumOf cs)
    omega

theorem dvd_sumOf {d : Int} {cs : List Commodity} (h : ∀ c ∈ cs, d ∣ c.value) : d ∣ sumOf cs := by
  induction cs with
  | nil => exact dvd_zero d
  | cons c cs ih =>
    rw [sumOf_cons]
    exact dvd_add (h c (by simp)) (ih fun x hx => h x (by simp [hx]))

theorem sum_natAbs_le_of_sublist {cs ds : List Commodity} (h : cs.Sublist ds) :
    (cs.map (·.value.natAbs)).sum ≤ (ds.map (·.value.natAbs)).sum := by
  induction h with
  | slnil => exact Nat.le_refl _
  | cons c _ ih =>
    simp only [List.map_cons, List.sum_cons]
    omega
  | cons_cons c _ ih =>
    simp only [List.map_cons, List.sum_cons]
    omega

theorem ExactRange.sublist {cs ds : List Commodity} (h : ExactRange ds) (hsub : cs.Sublist ds) :
    ExactRange cs := by
  obtain ⟨s, hs, hdvd, hlt⟩ := h
  exact ⟨s, hs, fun c hc => hdvd c (hsub.subset hc),
    Nat.lt_of_le_of_lt (sum_natAbs_le_of_sublist hsub) hlt⟩

theorem ExactRange.byName {cs : List Commodity} (h : ExactRange cs) (n : String) :
    ExactRange (named n cs) :=
  h.sublist List.filter_sublist

theorem ExactRange.fits {cs : List Commodity} (h : ExactRange cs) :
    ∃ s ≤ maxScale, ∀ ds : List Commodity, ds.Sublist cs → Fits s (sumOf ds) := by
  obtain ⟨s, hs, hdvd, hlt⟩ := h
  refine ⟨s, hs, fun ds hsub => ⟨dvd_sumOf fun c hc => hdvd c (hsub.subset hc), ?_⟩⟩
  have := natAbs_sumOf_le ds
  have := sum_natAbs_le_of_sublist hsub
  omega

theorem ExactRange.exactSums {cs : List Commodity} (h : ExactRange cs) : ExactSums cs := by
  obtain ⟨s, hs, hfits⟩ := h.fits
  exact ⟨s, hs, fun k => hfits _ (List.take_sublist k cs)⟩

theorem ExactRange.exactSums_insert {cs ds : List Commodity} {c : Commodity}
    (h : ExactRange (cs ++ ds)) (hc : c.value = -sumOf (cs ++ ds)) :
    ExactSums (cs ++ c :: ds) := by
  obtain ⟨s, hs, hfits⟩ := h.fits
  refine ⟨s, hs, fun k => ?_⟩
  by_cases hk : k ≤ cs.length
  · rw [List.take_append_of_le_length hk]
    exact hfits _ ((List.take_sublist k cs).trans (List.sublist_append_left cs ds))
  · obtain ⟨j, rfl⟩ : ∃ j, k = cs.length + (j + 1) := ⟨k - cs.length - 1, by omega⟩
    have hrest : sumOf ((cs ++ c :: ds).take (cs.length + (j + 1))) = -sumOf (ds.drop j) := by
      have hsplit : sumOf ds = sumOf (ds.take j) + sumOf (ds.drop j) := by
        rw [← sumOf_append, List.take_append_drop]
      rw [List.take_length_add_append, List.take_succ_cons, sumOf_append, sumOf_cons, hc,
        sumOf_append, hsplit]
      ring
    obtain ⟨hdvd, hlt⟩ := hfits (ds.drop j)
      ((List.drop_sublist j ds).trans (List.sublist_append_right cs ds))
    rw [hrest]
    exact ⟨(dvd_neg).mpr hdvd, by rwa [Int.natAbs_neg]⟩

/-! ## Totals -/

theorem addTo_eq_ok {o : Option Commodity} {c : Commodity} {r : Option Commodity}
    (h : addTo o c = .ok r) :
    ∃ x, r = some x ∧ x.name = (o.getD c).name ∧ x.currency = (o.getD c).currency ∧
      (o.getD c).isSimilar c = true := by
  cases o with
  | none =>
    simp only [addTo, Except.ok.injEq] at h
    exact ⟨c, h.symm, rfl, rfl, isSimilar_iff.mpr ⟨rfl, rfl⟩⟩
  | some sum =>
    cases hadd : sum.add c with
    | error e => simp [addTo, hadd] at h
    | ok x =>
      obtain ⟨hsim, n, -, hx⟩ := add_eq_ok_iff.mp hadd
      have hr : some x = r := by simpa [addTo, hadd] using h
      exact ⟨x, hr.symm, by simp [hx], by simp [hx], hsim⟩

theorem foldlM_addTo_similar {cs : List Commodity} {o r : Option Commodity}
    (h : cs.foldlM addTo o = .ok r) :
    (r = none ↔ o = none ∧ cs = []) ∧ ∀ x ∈ r, ∀ c ∈ o.toList ++ cs, c.isSimilar x = true := by
  induction cs generalizing o with
  | nil =>
    obtain rfl : o = r := by simpa [pure, Except.pure] using h
    refine ⟨by simp, fun x hx c hc => ?_⟩
    rw [Option.mem_def.mp hx, List.append_nil, Option.toList_some, List.mem_singleton] at hc
    exact isSimilar_iff.mpr (by simp [hc])
  | cons d cs ih =>
    rw [List.foldlM_cons] at h
    cases hd : addTo o d with
    | error e => simp [hd, bind, Except.bind] at h
    | ok o' =>
      rw [hd] at h
      obtain ⟨hnone, hsim⟩ := ih h
      obtain ⟨x', rfl, hname, hcurrency, hfirst⟩ := addTo_eq_ok hd
      refine ⟨by simp [hnone], fun x hx c hc => ?_⟩
      have hx' := isSimilar_iff.mp (hsim x hx x' (by simp))
      have hfirst' := isSimilar_iff.mp hfirst
      rw [isSimilar_iff, ← hx'.1, ← hx'.2, hname, hcurrency]
      rcases List.mem_append.mp hc with hc | hc
      · obtain rfl : o = some c := by simpa using hc
        exact ⟨rfl, rfl⟩
      · rcases List.mem_cons.mp hc with rfl | hc
        · exact ⟨hfirst'.1.symm, hfirst'.2.symm⟩
        · have hc' := isSimilar_iff.mp (hsim x hx c (by simp [hc]))
          rw [hc'.1, hc'.2, ← hx'.1, ← hx'.2, hname, hcurrency]
          exact ⟨rfl, rfl⟩

theorem total?_eq_none_iff {cs : List Commodity} {r : Option Commodity} (h : total? cs = .ok r) :
    r = none ↔ cs = [] := by
  simpa using (foldlM_addTo_similar h).1

theorem similar_of_total? {cs : List Commodity} {x : Commodity} (h : total? cs = .ok (some x)) :
    ∀ c ∈ cs, c.name = x.name ∧ c.currency = x.currency := fun c hc =>
  isSimilar_iff.mp ((foldlM_addTo_similar h).2 x rfl c (by simp [hc]))

def valueOf (o : Option Commodity) : Int := o.elim 0 value

@[simp] theorem valueOf_none : valueOf none = 0 := rfl

@[simp] theorem valueOf_some (c : Commodity) : valueOf (some c) = c.value := rfl

theorem foldlM_addTo_exact {s : Nat} (hs : s ≤ maxScale) {cs : List Commodity}
    {o : Option Commodity} (hsim : ∀ a ∈ o.toList ++ cs, ∀ b ∈ o.toList ++ cs, a.isSimilar b = true)
    (hfits : ∀ k, Fits s (valueOf o + sumOf (cs.take k))) :
    ∃ r, cs.foldlM addTo o = .ok r ∧ valueOf r = valueOf o + sumOf cs := by
  induction cs generalizing o with
  | nil => exact ⟨o, rfl, by simp⟩
  | cons d cs ih =>
    obtain ⟨x, hx, hname, hcurrency, hvalue⟩ : ∃ x, addTo o d = .ok (some x) ∧ x.name = d.name ∧
        x.currency = d.currency ∧ x.value = valueOf o + d.value := by
      cases o with
      | none => exact ⟨d, rfl, rfl, rfl, by simp⟩
      | some sum =>
        have hsd := hsim sum (by simp) d (by simp)
        have hone := hfits 1
        simp only [List.take_succ_cons, List.take_zero, sumOf_cons, sumOf_nil, valueOf_some,
          add_zero] at hone
        obtain ⟨n, hn, hnv⟩ := Decimal.value_add? hs hone
        have hadd := add_eq_ok_iff.mpr ⟨hsd, n, hn, rfl⟩
        refine ⟨{ sum with amount := n, precision := max sum.precision d.precision }, ?_,
          (isSimilar_iff.mp hsd).1, (isSimilar_iff.mp hsd).2, hnv⟩
        rw [addTo, hadd]
        rfl
    have hd : ∀ c ∈ cs, c.isSimilar x = true ∧ x.isSimilar c = true := by
      intro c hc
      have h₁ := isSimilar_iff.mp (hsim c (by simp [hc]) d (by simp))
      simp only [isSimilar_iff, hname, hcurrency, h₁.1, h₁.2, and_self]
    have hself : x.isSimilar x = true := isSimilar_iff.mpr ⟨rfl, rfl⟩
    obtain ⟨r, hr, hrv⟩ := @ih (some x)
      (by
        intro a ha b hb
        simp only [Option.toList_some, List.singleton_append, List.mem_cons] at ha hb
        rcases ha with rfl | ha <;> rcases hb with rfl | hb
        · exact hself
        · exact (hd b hb).2
        · exact (hd a ha).1
        · exact hsim a (by simp [ha]) b (by simp [hb]))
      (by
        intro k
        have := hfits (k + 1)
        rw [List.take_succ_cons, sumOf_cons, ← add_assoc] at this
        rwa [valueOf_some, hvalue])
    refine ⟨r, ?_, ?_⟩
    · rw [List.foldlM_cons, hx]
      exact hr
    · rw [hrv, valueOf_some, hvalue, sumOf_cons, add_assoc]

/-- Amounts of one name that are written alike have the total that they add up to, unless a sum on
the way has to be rounded. -/
theorem total?_exact {n : String} {cs : List Commodity} (hagree : Agree cs)
    (hexact : ExactSums (named n cs)) :
    ∃ r, total? (named n cs) = .ok r ∧ valueOf r = sumOf (named n cs) := by
  obtain ⟨s, hs, hfits⟩ := hexact
  have hsim : ∀ a ∈ named n cs, ∀ b ∈ named n cs, a.isSimilar b = true := by
    intro a ha b hb
    obtain ⟨ha, han⟩ := mem_named.mp ha
    obtain ⟨hb, hbn⟩ := mem_named.mp hb
    exact isSimilar_iff.mpr ⟨by rw [han, hbn], hagree a ha b hb (by rw [han, hbn])⟩
  obtain ⟨r, hr, hvalue⟩ := @foldlM_addTo_exact s hs (named n cs) none (by simpa using hsim)
    (by simpa using hfits)
  exact ⟨r, hr, by simpa using hvalue⟩

theorem valueOf_of_total? {n : String} {cs : List Commodity} {r : Option Commodity}
    (h : total? (named n cs) = .ok r) (hexact : ExactSums (named n cs)) :
    valueOf r = sumOf (named n cs) := by
  have hagree : Agree (named n cs) := by
    cases r with
    | none =>
      rw [(total?_eq_none_iff h).mp rfl]
      exact fun a ha => absurd ha List.not_mem_nil
    | some x =>
      intro a ha b hb _
      rw [(similar_of_total? h a ha).2, (similar_of_total? h b hb).2]
  have hself : named n (named n cs) = named n cs :=
    List.filter_eq_self.mpr fun c hc => by simpa using (mem_named.mp hc).2
  obtain ⟨r', hr', hvalue⟩ := @total?_exact n (named n cs) hagree (by rwa [hself])
  rw [hself] at hr' hvalue
  obtain rfl := Except.ok.inj (h.symm.trans hr')
  exact hvalue

theorem name_of_total? {n : String} {cs : List Commodity} {x : Commodity}
    (h : total? (named n cs) = .ok (some x)) : x.name = n := by
  have hne : named n cs ≠ [] := mt (total?_eq_none_iff h).mpr (Option.some_ne_none x)
  obtain ⟨c, hc⟩ := List.exists_mem_of_ne_nil _ hne
  rw [← (similar_of_total? h c hc).1, (mem_named.mp hc).2]

theorem zero_le_tolerance : 0 ≤ tolerance.value := by
  decide +kernel

end Commodity

end Daybook
