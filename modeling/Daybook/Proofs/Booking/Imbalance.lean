import Daybook.Proofs.Booking.Completion

/-!
# What offsets add up to

The imbalance of a transaction whose costs are in the exact range are the true sums of its costs, as
far as they are too large (`Imbalance`). The amounts that a tally posting gets for them leave
nothing of any name that was off, and no sum on the way is rounded (`offsets_cancel`).
-/

namespace Daybook

open Commodity (named sumOf Agree ExactRange ExactSums total? valueOf tolerance)
open Posting (costs)

namespace Commodity

/-- What stands where a tally posting stood and behind the last posting, in place of what is off. -/
def withOffsets (unit : Commodity) (before after sums : List Commodity) : List Commodity :=
  before ++ offset unit sums :: after ++ sums.tail.map invert

/-- The sums are those of the amounts, name by name, that are too far from zero. -/
structure Imbalance (cs sums : List Commodity) : Prop where
  agree : Agree cs
  ascending : sums.Pairwise fun a b => a.name < b.name
  value : ∀ sum ∈ sums, sum.value = sumOf (named sum.name cs)
  source : ∀ sum ∈ sums, ∃ c ∈ cs, c.name = sum.name ∧ c.currency = sum.currency
  within : ∀ n, |sumOf (named n cs)| ≤ tolerance.value ↔ ∀ sum ∈ sums, sum.name ≠ n

theorem named_of_mem {sums : List Commodity} (h : sums.Pairwise fun a b => a.name < b.name)
    {sum : Commodity} (hsum : sum ∈ sums) : named sum.name sums = [sum] := by
  induction sums with
  | nil => exact absurd hsum List.not_mem_nil
  | cons a sums ih =>
    obtain ⟨ha, hsums⟩ := List.pairwise_cons.mp h
    rcases List.mem_cons.mp hsum with rfl | hsum
    · rw [named_cons, if_pos rfl]
      congr 1
      refine List.filter_eq_nil_iff.mpr fun b hb heq => ?_
      rw [decide_eq_true_eq] at heq
      exact absurd (ha b hb) (by rw [heq]; exact String.lt_irrefl _)
    · have hne : a.name ≠ sum.name := fun heq =>
        absurd (ha sum hsum) (by rw [heq]; exact String.lt_irrefl _)
      rw [named_cons, if_neg hne]
      exact ih hsums hsum

theorem named_eq_nil {n : String} {cs : List Commodity} (h : ∀ c ∈ cs, c.name ≠ n) :
    named n cs = [] :=
  List.filter_eq_nil_iff.mpr fun c hc => by simpa using h c hc

variable {unit : Commodity} {before after sums : List Commodity}

theorem exactRange_insert_zero {c : Commodity} (hc : c.value = 0)
    (h : ExactRange (before ++ after)) : ExactRange (before ++ c :: after) := by
  obtain ⟨s, hs, hdvd, hlt⟩ := h
  refine ⟨s, hs, fun x hx => ?_, ?_⟩
  · rcases List.mem_append.mp hx with hx | hx
    · exact hdvd x (by simp [hx])
    · rcases List.mem_cons.mp hx with rfl | hx
      · rw [hc]
        exact dvd_zero _
      · exact hdvd x (by simp [hx])
  · simpa [hc] using hlt

theorem exactRange_named_insert_zero {c : Commodity} (hc : c.value = 0) {n : String}
    (h : ExactRange (named n (before ++ after))) :
    ExactRange (named n (before ++ c :: after)) := by
  rw [named_append] at h
  rw [named_append, named_cons]
  split
  · exact exactRange_insert_zero hc h
  · exact h

theorem sumOf_named_insert_zero {c : Commodity} (hc : c.value = 0) (n : String) :
    sumOf (named n (before ++ c :: after)) = sumOf (named n (before ++ after)) := by
  rw [named_append, named_cons, named_append]
  split <;> simp [hc]

/-- An amount that cancels the amounts of its name out leaves nothing of it. -/
theorem cancels_insert {c : Commodity} {n : String}
    (hexact : ExactRange (named n (before ++ after)))
    (hc : c.value = -sumOf (named n (before ++ after))) :
    ExactSums (named n before ++ c :: named n after) ∧
      sumOf (named n before ++ c :: named n after) = 0 := by
  rw [named_append] at hexact hc
  refine ⟨hexact.exactSums_insert hc, ?_⟩
  rw [sumOf_append, sumOf_cons, hc, sumOf_append]
  ring

theorem named_withOffsets_cons (first : Commodity) (others : List Commodity) (n : String) :
    named n (withOffsets unit before after (first :: others)) =
      named n before ++ named n [first.invert] ++ named n after ++ (named n others).map invert := by
  have hsplit : withOffsets unit before after (first :: others) =
      before ++ [first.invert] ++ after ++ others.map invert := by
    simp [withOffsets, offset]
  rw [hsplit, named_append, named_append, named_append, named_map name_invert]

theorem exists_named_withOffsets (h : sums.Pairwise fun a b => a.name < b.name) {sum : Commodity}
    (hsum : sum ∈ sums) : ∃ l₁ l₂, l₁ ++ l₂ = before ++ after ∧
      named sum.name (withOffsets unit before after sums) =
        named sum.name l₁ ++ sum.invert :: named sum.name l₂ := by
  obtain ⟨first, others, rfl⟩ := List.exists_cons_of_ne_nil (List.ne_nil_of_mem hsum)
  have halone := named_of_mem h hsum
  rw [named_cons] at halone
  by_cases hfirst : first.name = sum.name
  · rw [if_pos hfirst] at halone
    obtain ⟨rfl, hothers⟩ := List.cons.inj halone
    refine ⟨before, after, rfl, ?_⟩
    rw [named_withOffsets_cons, hothers, named_cons, name_invert, if_pos rfl, named_nil]
    simp
  · rw [if_neg hfirst] at halone
    refine ⟨before ++ after, [], List.append_nil _, ?_⟩
    rw [named_withOffsets_cons, halone, named_cons, name_invert, if_neg hfirst, named_nil]
    simp

theorem named_withOffsets_of_ne {n : String} (hne : sums ≠ []) (h : ∀ sum ∈ sums, sum.name ≠ n) :
    named n (withOffsets unit before after sums) = named n (before ++ after) := by
  obtain ⟨first, others, rfl⟩ := List.exists_cons_of_ne_nil hne
  have hothers : named n others = [] := named_eq_nil fun sum hsum => h sum (by simp [hsum])
  rw [named_withOffsets_cons, hothers, named_cons, name_invert, if_neg (h first (by simp)),
    named_append]
  simp

theorem offsets_settle (himbalance : Imbalance (before ++ after) sums)
    (hexact : ∀ n, ExactRange (named n (before ++ after))) {sum : Commodity} (hsum : sum ∈ sums) :
    ExactSums (named sum.name (withOffsets unit before after sums)) ∧
      sumOf (named sum.name (withOffsets unit before after sums)) = 0 := by
  obtain ⟨l₁, l₂, hparts, hnamed⟩ :=
    @exists_named_withOffsets unit before after sums himbalance.ascending sum hsum
  rw [hnamed]
  rw [← hparts] at himbalance hexact
  exact cancels_insert (hexact sum.name) (by rw [value_invert, himbalance.value sum hsum])

theorem offsets_cancel (himbalance : Imbalance (before ++ after) sums)
    (hexact : ∀ n, ExactRange (named n (before ++ after))) (n : String) :
    ExactSums (named n (withOffsets unit before after sums)) ∧
      |sumOf (named n (withOffsets unit before after sums))| ≤ tolerance.value := by
  by_cases hoff : ∃ sum ∈ sums, sum.name = n
  · obtain ⟨sum, hsum, rfl⟩ := hoff
    obtain ⟨hsums, hzero⟩ := @offsets_settle unit before after sums himbalance hexact sum hsum
    rw [hzero, abs_zero]
    exact ⟨hsums, zero_le_tolerance⟩
  · have hwithin := (himbalance.within n).mpr fun sum hsum hname => hoff ⟨sum, hsum, hname⟩
    by_cases hne : sums = []
    · have hzero : (unit.similar .zero).value = 0 := Decimal.value_zero
      have hlist : withOffsets unit before after sums = before ++ unit.similar .zero :: after := by
        rw [hne]
        exact List.append_nil _
      rw [hlist, sumOf_named_insert_zero hzero]
      exact ⟨(exactRange_named_insert_zero hzero (hexact n)).exactSums, hwithin⟩
    · rw [named_withOffsets_of_ne hne fun sum hsum hname => hoff ⟨sum, hsum, hname⟩]
      exact ⟨(hexact n).exactSums, hwithin⟩

theorem agree_withOffsets (himbalance : Imbalance (before ++ after) sums) (hsums : sums ≠ []) :
    Agree (withOffsets unit before after sums) := by
  have hsource : ∀ c ∈ withOffsets unit before after sums,
      ∃ d ∈ before ++ after, d.name = c.name ∧ d.currency = c.currency := by
    obtain ⟨first, others, rfl⟩ := List.exists_cons_of_ne_nil hsums
    intro c hc
    have hoff : ∀ sum ∈ first :: others, c = sum.invert →
        ∃ d ∈ before ++ after, d.name = c.name ∧ d.currency = c.currency := by
      rintro sum hsum rfl
      exact himbalance.source sum hsum
    simp only [withOffsets, offset, List.tail_cons, List.append_assoc, List.cons_append,
      List.mem_append, List.mem_cons, List.mem_map] at hc
    rcases hc with hc | rfl | hc | ⟨sum, hsum, rfl⟩
    · exact ⟨c, by simp [hc], rfl, rfl⟩
    · exact hoff first (by simp) rfl
    · exact ⟨c, by simp [hc], rfl, rfl⟩
    · exact hoff sum (by simp [hsum]) rfl
  intro a ha b hb hab
  obtain ⟨c, hc, hcname, hccurrency⟩ := hsource a ha
  obtain ⟨d, hd, hdname, hdcurrency⟩ := hsource b hb
  rw [← hccurrency, ← hdcurrency]
  exact himbalance.agree c hc d hd (by rw [hcname, hdname, hab])

end Commodity

namespace Posting

theorem costs_furtherOffsets {p : Posting} (hprice : p.price? = none) (sums : List Commodity) :
    costs (p.furtherOffsets sums) = .ok (sums.tail.map Commodity.invert) := by
  rw [furtherOffsets]
  generalize sums.tail = others
  induction others with
  | nil => rfl
  | cons sum others ih =>
    refine costs_cons_eq_ok_iff.mpr ⟨some sum.invert, _, ?_, ih, rfl⟩
    exact cost?_of_price?_eq_none hprice

/-- The costs once a tally posting without a price has its amount. -/
theorem costs_filled {before after : List Posting} {p : Posting} {c₁ c₂ : List Commodity}
    (hprice : p.price? = none) (hbefore : costs before = .ok c₁) (hafter : costs after = .ok c₂)
    (unit : Commodity) (sums : List Commodity) :
    costs (before ++ p.withAmount (.offset unit sums) :: after ++ p.furtherOffsets sums) =
      .ok (Commodity.withOffsets unit c₁ c₂ sums) := by
  refine costs_append_eq_ok_iff.mpr
    ⟨_, _, costs_append_eq_ok_iff.mpr ⟨c₁, _, hbefore, ?_, rfl⟩, costs_furtherOffsets hprice sums,
      rfl⟩
  refine costs_cons_eq_ok_iff.mpr ⟨some (.offset unit sums), c₂, ?_, hafter, rfl⟩
  exact cost?_of_price?_eq_none hprice

end Posting

namespace Transaction

theorem imbalance_of_costs {t : Transaction} {cs sums : List Commodity}
    (hcosts : costs t.postings = .ok cs) (hexact : ∀ n, ExactRange (named n cs))
    (h : t.imbalance = .ok sums) : Commodity.Imbalance cs sums := by
  have hmem := mem_imbalance_iff hcosts h
  obtain ⟨cs', map, hcs', hmap, -⟩ := imbalance_eq_ok_iff.mp h
  obtain rfl : cs = cs' := Except.ok.inj (hcosts.symm.trans hcs')
  have hagree := Turnover.agree_of_sums? hmap
  refine ⟨hagree, pairwise_imbalance h, fun sum hsum => ?_, fun sum hsum => ?_, fun n => ?_⟩
  · exact Commodity.valueOf_of_total? ((hmem sum).mp hsum).1 (hexact sum.name).exactSums
  · exact exists_similar_of_mem_imbalance hcosts h hsum
  · obtain ⟨r, hr, hvalue⟩ := Commodity.total?_exact hagree (hexact n).exactSums
    rw [← hvalue]
    cases r with
    | none =>
      refine ⟨fun _ sum hsum hname => ?_, fun _ => ?_⟩
      · have htotal := ((hmem sum).mp hsum).1
        rw [hname, hr] at htotal
        simp at htotal
      · rw [Commodity.valueOf_none, abs_zero]
        exact Commodity.zero_le_tolerance
    | some x =>
      rw [Commodity.valueOf_some, ← Commodity.isBalanced_iff]
      refine ⟨fun hx sum hsum hname => ?_, fun hnone => ?_⟩
      · obtain ⟨htotal, hoff⟩ := (hmem sum).mp hsum
        rw [hname, hr] at htotal
        obtain rfl := Option.some.inj (Except.ok.inj htotal)
        rw [hx] at hoff
        simp at hoff
      · have hname := Commodity.name_of_total? hr
        by_contra hoff
        refine hnone x ((hmem x).mpr ⟨by rw [hname, hr], by simpa using hoff⟩) hname

end Transaction

end Daybook
