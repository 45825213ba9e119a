import Daybook.Proofs.Booking.Completion
import Daybook.Proofs.Commodity.Notation
import Mathlib.Data.List.Forall2

/-!
# Balancing amounts in two notations

The amounts of a transaction are balanced as they are written. A transaction whose costs in `n` are
all written on one side of the number (`Unmixed`) is completed like any other that differs from it
in the notation of `n` only (`Completes.renotes`). One that has to balance and mixes the two is
never completed (`Completes.agree`).
-/

namespace Daybook

open Commodity (named Agree onSide renotes_onSide)

/-- The second posting is the first one, with its amount written on either side if it is in `n`. -/
def Posting.Renotes (n : String) (p p' : Posting) : Prop :=
  p' = { p with amount := p'.amount } ∧ Option.Rel (Commodity.Renotes n) p.amount p'.amount

namespace Transaction

/-- The second transaction is the first one, with the amounts in `n` written on either side. -/
def Renotes (n : String) (t t' : Transaction) : Prop :=
  t' = { t with postings := t'.postings } ∧
    List.Forall₂ (Posting.Renotes n) t.postings t'.postings

/-- Whether the costs in `n` are written alike, if the transaction has to balance. -/
def Unmixed (n : String) (t : Transaction) : Prop :=
  t.requiresBalance = true → ∀ cs, Posting.costs t.postings = .ok cs → Agree (named n cs)

end Transaction

variable {n : String}

theorem exists_of_forall₂_append_cons {α β : Type} {R : α → β → Prop} {before after : List α}
    {a : α} {l : List β} (h : List.Forall₂ R (before ++ a :: after) l) :
    ∃ before' b after', l = before' ++ b :: after' ∧ List.Forall₂ R before before' ∧ R a b ∧
      List.Forall₂ R after after' := by
  induction before generalizing l with
  | nil =>
    obtain ⟨b, after', hab, hafter, rfl⟩ := List.forall₂_cons_left_iff.mp h
    exact ⟨[], b, after', rfl, .nil, hab, hafter⟩
  | cons x before ih =>
    obtain ⟨y, rest, hxy, hrest, rfl⟩ := List.forall₂_cons_left_iff.mp h
    obtain ⟨before', b, after', rfl, hbefore, hab, hafter⟩ := ih hrest
    exact ⟨y :: before', b, after', rfl, .cons hxy hbefore, hab, hafter⟩

theorem Commodity.renotes_offset (side : Bool) (unit : Commodity) (sums : List Commodity) :
    (offset unit sums).Renotes n (offset unit (sums.map (onSide n side))) := by
  cases sums with
  | nil => exact .refl n _
  | cons sum _ => exact (renotes_onSide n side sum).invert

/-! ## Postings -/

namespace Posting

variable {p p' : Posting} {ps ps' : List Posting}

theorem Renotes.amount_cases (h : p.Renotes n p') :
    (p.amount = none ∧ p'.amount = none) ∨
      ∃ c c', p.amount = some c ∧ p'.amount = some c' ∧ c.Renotes n c' := by
  obtain ⟨-, hrel⟩ := h
  generalize p.amount = a, p'.amount = a' at hrel
  cases hrel with
  | none => exact .inl ⟨rfl, rfl⟩
  | some hc => exact .inr ⟨_, _, rfl, rfl, hc⟩

theorem Renotes.eq_of_not_named (h : p.Renotes n p') (hname : ∀ c ∈ p.amount, c.name ≠ n) :
    p' = p := by
  have hamount : p'.amount = p.amount := by
    rcases h.amount_cases with ⟨ha, ha'⟩ | ⟨c, c', ha, ha', hc⟩
    · rw [ha, ha']
    · rw [ha, ha', hc.2 (hname c ha)]
  rw [h.1, hamount]

theorem Renotes.symm (h : p.Renotes n p') : p'.Renotes n p := by
  refine ⟨by rw [h.1], ?_⟩
  rcases h.amount_cases with ⟨ha, ha'⟩ | ⟨c, c', ha, ha', hc⟩
  · rw [ha, ha']
    exact .none
  · rw [ha, ha']
    exact .some hc.symm

theorem Renotes.isTally (h : p.Renotes n p') : p'.isTally = p.isTally := by
  rcases h.amount_cases with ⟨ha, ha'⟩ | ⟨c, c', ha, ha', -⟩
  · rw [Posting.isTally, Posting.isTally, ha, ha']
  · rw [Posting.isTally, Posting.isTally, ha, ha', Option.isNone_some, Option.isNone_some]

theorem Renotes.kind (h : p.Renotes n p') : p'.kind = p.kind := by
  rw [h.1]

theorem Renotes.withAmount (h : p.Renotes n p') {c c' : Commodity} (hc : c.Renotes n c') :
    (p.withAmount c).Renotes n (p'.withAmount c') :=
  ⟨by rw [h.1]; rfl, .some hc⟩

theorem Renotes.cost? (h : p.Renotes n p') {cost : Option Commodity} (hcost : p.cost? = .ok cost) :
    ∃ cost', p'.cost? = .ok cost' ∧ Option.Rel (Commodity.Renotes n) cost cost' := by
  have hprice : p'.price? = p.price? := by
    rw [h.1]
    rfl
  rcases h.amount_cases with ⟨ha, ha'⟩ | ⟨c, c', ha, ha', hc⟩
  · rw [Posting.cost?, ha] at hcost
    obtain rfl := Except.ok.inj hcost
    exact ⟨none, by rw [Posting.cost?, ha'], .none⟩
  · rw [Posting.cost?, ha] at hcost
    rw [Posting.cost?, ha', hprice]
    cases hp : p.price? with
    | none =>
      rw [hp] at hcost
      obtain rfl := Except.ok.inj hcost
      exact ⟨some c', rfl, .some hc⟩
    | some price =>
      rw [hp] at hcost
      have hsame : costAt c' price = costAt c price := by
        rw [costAt, costAt, hc.amount]
      refine ⟨cost, (congrArg (Except.map some) hsame).trans hcost, ?_⟩
      cases cost with
      | none => exact .none
      | some k => exact .some (.refl n k)

theorem costs_renotes (h : List.Forall₂ (Posting.Renotes n) ps ps') {cs : List Commodity}
    (hcs : costs ps = .ok cs) :
    ∃ cs', costs ps' = .ok cs' ∧ List.Forall₂ (Commodity.Renotes n) cs cs' := by
  induction h generalizing cs with
  | nil =>
    obtain rfl := Except.ok.inj hcs
    exact ⟨[], rfl, .nil⟩
  | cons hp _ ih =>
    obtain ⟨cost, rest, hcost, hrest, rfl⟩ := costs_cons_eq_ok_iff.mp hcs
    obtain ⟨cost', hcost', hrel⟩ := hp.cost? hcost
    obtain ⟨rest', hrest', hrels⟩ := ih hrest
    refine ⟨_, costs_cons_eq_ok_iff.mpr ⟨cost', rest', hcost', hrest', rfl⟩, ?_⟩
    cases hrel with
    | none => exact hrels
    | some hc => exact .cons hc hrels

theorem map_renotes {α : Type} {f : Posting → α}
    (hf : ∀ p p' : Posting, p.Renotes n p' → f p' = f p)
    (h : List.Forall₂ (Posting.Renotes n) ps ps') : ps'.map f = ps.map f := by
  induction h with
  | nil => rfl
  | cons hp _ ih => rw [List.map_cons, List.map_cons, ih, hf _ _ hp]

theorem isTally_renotes (h : List.Forall₂ (Posting.Renotes n) ps ps')
    (hall : ∀ p ∈ ps, p.isTally = false) : ∀ p' ∈ ps', p'.isTally = false := by
  induction h with
  | nil => exact hall
  | cons hp _ ih =>
    obtain ⟨hfirst, hrest⟩ := List.forall_mem_cons.mp hall
    exact List.forall_mem_cons.mpr ⟨hp.isTally.trans hfirst, ih hrest⟩

theorem Renotes.furtherOffsets (h : p.Renotes n p') (side : Bool) (sums : List Commodity) :
    List.Forall₂ (Posting.Renotes n) (p.furtherOffsets sums)
      (p'.furtherOffsets (sums.map (onSide n side))) := by
  rw [Posting.furtherOffsets, Posting.furtherOffsets, ← List.map_tail]
  induction sums.tail with
  | nil => exact .nil
  | cons sum sums ih => exact .cons (h.withAmount (renotes_onSide n side sum).invert) ih

end Posting

/-! ## Transactions -/

namespace Transaction

open Posting (costs)

variable {t t' : Transaction}

theorem Renotes.symm (h : t.Renotes n t') : t'.Renotes n t :=
  ⟨by rw [h.1], (h.2.imp fun _ _ hp => hp.symm).flip⟩

theorem Renotes.withPostings (h : t.Renotes n t') (ps : List Posting) :
    { t' with postings := ps } = { t with postings := ps } := by
  rw [h.1]

theorem Renotes.requiresBalance (h : t.Renotes n t') :
    t'.requiresBalance = t.requiresBalance := by
  have hkinds := Posting.map_renotes (fun _ _ hp => hp.kind) h.2
  have hall : ∀ u : Transaction,
      u.requiresBalance = (u.postings.map (·.kind)).all (· ≠ .virtual) := by
    intro u
    rw [List.all_map]
    rfl
  rw [hall, hall, hkinds]

theorem agree_of_imbalance {l : List Commodity} (h : t.imbalance = .ok l) {cs : List Commodity}
    (hcs : costs t.postings = .ok cs) : Agree (named n cs) := by
  obtain ⟨cs', sums, hcs', hsums, -⟩ := imbalance_eq_ok_iff.mp h
  obtain rfl := Except.ok.inj (hcs.symm.trans hcs')
  exact (Turnover.agree_of_sums? hsums).sublist List.filter_sublist

theorem Renotes.imbalance (h : t.Renotes n t')
    (hagree : ∀ cs, costs t'.postings = .ok cs → Agree (named n cs)) {l : List Commodity}
    (hl : t.imbalance = .ok l) : ∃ before, t'.imbalance = .ok (l.map (onSide n before)) := by
  obtain ⟨cs, sums, hcs, hsums, rfl⟩ := imbalance_eq_ok_iff.mp hl
  obtain ⟨cs', hcs', hrel⟩ := Posting.costs_renotes h.2 hcs
  obtain ⟨before, rfl⟩ := Commodity.exists_eq_map_onSide hrel (hagree cs' hcs')
  refine ⟨before, imbalance_eq_ok_iff.mpr ⟨_, _, hcs', Turnover.sums?_onSide hsums, ?_⟩⟩
  have hvalues : (sums.map (onSide n before)).values = sums.values.map (onSide n before) := by
    simp [NameMap.values, NameMap.map]
  rw [hvalues, List.filter_map]
  congr 1
  exact List.filter_congr fun c _ => by simp

theorem Renotes.isBalanced (h : t.Renotes n t')
    (hagree : ∀ cs, costs t'.postings = .ok cs → Agree (named n cs)) {b : Bool}
    (hb : t.isBalanced = .ok b) : t'.isBalanced = .ok b := by
  have htallies : t'.postings.any (·.isTally) = t.postings.any (·.isTally) := by
    have hany : ∀ ps : List Posting, ps.any (·.isTally) = (ps.map (·.isTally)).any id := by
      intro ps
      rw [List.any_map]
      rfl
    rw [hany, hany, Posting.map_renotes (fun _ _ hp => hp.isTally) h.2]
  rw [Transaction.isBalanced] at hb ⊢
  rw [htallies]
  split at hb
  case isTrue htally => rwa [if_pos htally]
  case isFalse htally =>
    obtain ⟨l, hl, hempty⟩ := Result.bind_eq_ok_iff.mp hb
    obtain ⟨before, hl'⟩ := h.imbalance hagree hl
    rw [if_neg htally]
    refine Result.bind_eq_ok_iff.mpr ⟨_, hl', ?_⟩
    rw [← hempty, List.isEmpty_map]

theorem agree_of_lone {p : Posting} {cs : List Commodity} (hcs : costs [p] = .ok cs) :
    Agree (named n cs) := by
  obtain ⟨cost, rest, -, hrest, rfl⟩ := Posting.costs_cons_eq_ok_iff.mp hcs
  obtain rfl := Except.ok.inj hrest
  refine Agree.sublist ?_ List.filter_sublist
  intro a ha b hb _
  rw [List.append_nil, Option.mem_toList] at ha hb
  rw [Option.some.inj (ha.symm.trans hb)]

theorem Completes.agree {bucket : Option String} {unit : Commodity} {u : Transaction}
    {places : List Nat} (h : t.Completes bucket unit u places) {cs : List Commodity}
    (hcs : costs t.postings = .ok cs) : Agree (named n cs) := by
  cases h with
  | lone hone _ _ => exact agree_of_lone (hone ▸ hcs)
  | tally _ _ _ _ hsums => exact agree_of_imbalance hsums hcs
  | whole _ _ hsums _ => exact agree_of_imbalance hsums hcs

theorem Completes.renotes {bucket : Option String} {unit : Commodity} {u : Transaction}
    {places : List Nat} (h : t.Completes bucket unit u places) (hren : t.Renotes n t')
    (hagree : ∀ cs, costs t'.postings = .ok cs → Agree (named n cs)) :
    ∃ u', t'.Completes bucket unit u' places ∧ u.Renotes n u' := by
  have hpostings := hren.2
  have hlength : t'.postings.length = t.postings.length := hpostings.length_eq.symm
  cases h with
  | @lone p account cost hone hbucket hcost =>
    rw [hone] at hpostings
    obtain ⟨p', _, hp, hnil, hone'⟩ := List.forall₂_cons_left_iff.mp hpostings
    obtain rfl := List.forall₂_nil_left_iff.mp hnil
    obtain ⟨cost', hcost', hrel⟩ := hp.cost? hcost
    cases hrel with
    | some hcosts =>
      refine ⟨_, .lone hone' hbucket hcost', hren.withPostings _, ?_⟩
      exact .cons hp (.cons ⟨rfl, .some hcosts.invert⟩ .nil)
  | @tally before after p sums hparts hne hp hrest hsums =>
    obtain ⟨side, hsums'⟩ := hren.imbalance hagree hsums
    obtain ⟨before', p', after', hparts', hbefore, hpp, hafter⟩ :=
      exists_of_forall₂_append_cons (hparts ▸ hpostings)
    have hothers : List.Forall₂ (Posting.Renotes n) (before ++ after) (before' ++ after') :=
      List.rel_append hbefore hafter
    have hne' : before' ++ after' ≠ [] := by
      intro hempty
      rw [hempty] at hothers
      exact hne (List.forall₂_nil_right_iff.mp hothers)
    have hcompletes : t'.Completes bucket unit _ _ := .tally hparts' hne'
      (hpp.isTally.trans hp) (Posting.isTally_renotes hothers hrest) hsums'
    rw [hlength, ← hbefore.length_eq, ← List.map_tail, List.length_map] at hcompletes
    refine ⟨_, hcompletes, hren.withPostings _, ?_⟩
    refine List.rel_append (List.rel_append hbefore (.cons (hpp.withAmount ?_) hafter))
      (hpp.furtherOffsets side sums)
    exact Commodity.renotes_offset side unit sums
  | whole htwo hall hsums hcount =>
    obtain ⟨side, hsums'⟩ := hren.imbalance hagree hsums
    refine ⟨t', .whole (hlength ▸ htwo) (Posting.isTally_renotes hpostings hall) hsums' ?_,
      hren⟩
    rwa [List.length_map]

end Transaction

end Daybook
