import Daybook.Proofs.Store.Kept
import Daybook.Proofs.Store.Posts
import Daybook.Proofs.Store.Success

/-!
# Offsets of a single amount

A transaction that brings one amount to an account, and leaves out the amount that meets it or the
posting that would, is completed by the exact opposite of the amount unless the amount is within the
tolerance (`kept?_of_lacksOffset`). The first pass stores it so (`firstPass_offsets`).
-/

namespace Daybook

open Commodity (sumOf tolerance)
open Posting (costs)

/-- The posting brings the amount, without a price, to a named account. -/
structure Posting.Brings (x : Posting) (name : String) (v : Commodity) : Prop where
  account : x.account = .named name
  kind : x.kind ≠ .virtual
  amount : x.amount = some v
  price : x.price? = none

theorem Posting.Brings.cost? {x : Posting} {name : String} {v : Commodity} (h : x.Brings name v) :
    x.cost? = .ok (some v) := by
  rw [Posting.cost?_of_price?_eq_none h.price, h.amount]

/-- The transaction brings the amount `v` to the account `source`, and nothing else; what is missing
belongs to the account `target`. If nothing is missed, `rest` is entered besides. -/
inductive Store.LacksOffset (s : Store) (t : Transaction) (v : Commodity) :
    String → String → List (String × Commodity) → Prop
  | tally {x y : Posting} {a b : String} :
    t.postings = [x, y] → x.Brings a v → y.account = .named b → y.kind ≠ .virtual →
    y.amount = none →
    LacksOffset s t v (s.resolveName a) (s.resolveName b)
      [(s.resolveName b, s.declaredForm ((s.noteFirst t).unit.similar .zero))]
  | lone {x : Posting} {a bucket : String} :
    t.postings = [x] → x.Brings a v → s.bucket = some bucket →
    AccountRef.ofText bucket = .named bucket → LacksOffset s t v (s.resolveName a) bucket []

namespace Transaction

/-- A transaction of one cost leaves that cost, unless it is within the tolerance. -/
theorem imbalance_of_one_cost {t : Transaction} {v : Commodity}
    (hcosts : costs t.postings = .ok [v]) :
    t.imbalance = .ok (if |v.value| ≤ tolerance.value then [] else [v]) := by
  have hvalues : (NameMap.empty.insert v.name v).values = [v] := rfl
  refine imbalance_eq_ok_iff.mpr ⟨[v], NameMap.empty.insert v.name v, hcosts, rfl, ?_⟩
  rw [hvalues]
  split
  · rename_i hsmall
    simp [(Commodity.isBalanced_iff v).mpr hsmall]
  · rename_i hlarge
    simp [mt (Commodity.isBalanced_iff v).mp hlarge]

end Transaction

namespace Store

variable {s : Store} {t : Transaction} {x y : Posting} {a b : String} {v : Commodity}

theorem brought?_keptOn (s : Store) (name : String) (x : Posting) :
    (s.keptOn name x).brought? = x.amount.map fun c => (name, s.declaredForm c) := by
  rw [Posting.brought?, keptOn]
  cases x.amount <;> rfl

/-- The postings, the first one standing at place `n`, are kept with these entries. -/
def Enters (s : Store) (u : Transaction) (place : Option Nat) (n : Nat) (xs : List Posting)
    (entries : List (String × Commodity)) : Prop :=
  ∃ ys, s.keptPostings u place n xs = .ok ys ∧ ys.filterMap Posting.brought? = entries

variable {u : Transaction} {place : Option Nat} {n : Nat} {xs : List Posting}
  {entries : List (String × Commodity)}

theorem enters_nil : s.Enters u place n [] [] := ⟨[], rfl, rfl⟩

theorem Enters.cons (hname : s.accountFor u x (place = some n) = .ok a)
    (hamount : x.amount = some v) (h : s.Enters u place (n + 1) xs entries) :
    s.Enters u place n (x :: xs) ((a, s.declaredForm v) :: entries) := by
  obtain ⟨ys, hys, rfl⟩ := h
  refine ⟨s.keptOn a x :: ys, ?_, ?_⟩
  · simp only [keptPostings, Result.bind_eq_ok_iff, Result.pure_eq_ok_iff]
    exact ⟨a, hname, ys, hys, rfl⟩
  · rw [List.filterMap_cons, brought?_keptOn, hamount]
    rfl

theorem Enters.kept (hbalanced : (s.noteFirst t).balanced (s.withPayee t) = .ok (u, place))
    (h : s.Enters u place 0 u.postings entries) :
    ∃ t', s.kept? t = .ok t' ∧ t'.entries = entries := by
  obtain ⟨ys, hys, rfl⟩ := h
  exact ⟨_, kept?_eq_ok_iff.mpr ⟨u, place, ys, hbalanced, hys, rfl⟩, rfl⟩

theorem accountFor_of_ne (h : x.account = .named a) (hplace : place ≠ some n) :
    s.accountFor u x (place = some n) = .ok (s.resolveName a) := by
  simp [accountFor, resolveAccount, h, hplace]

/-! ## The two ways to leave an amount out -/

/-- The tally posting gets the exact opposite of the amount, or a zero if that is small. -/
theorem kept?_of_tally (hpostings : t.postings = [x, y]) (hx : x.Brings a v)
    (hy : y.account = .named b) (hkind : y.kind ≠ .virtual) (hamount : y.amount = none) :
    ∃ t', s.kept? t = .ok t' ∧ t'.entries = [(s.resolveName a, s.declaredForm v),
      (s.resolveName b, s.declaredForm (.offset (s.noteFirst t).unit
        (if |v.value| ≤ tolerance.value then [] else [v])))] := by
  have htally : y.isTally = true := by
    rw [Posting.isTally, hamount]
    rfl
  have hcosts : costs t.postings = .ok [v] := by
    rw [hpostings]
    refine Posting.costs_cons_eq_ok_iff.mpr ⟨some v, [], hx.cost?, ?_, rfl⟩
    exact Posting.costs_cons_eq_ok_iff.mpr ⟨none, [], Posting.cost?_of_isTally htally, rfl, rfl⟩
  have himbalance := Transaction.imbalance_of_one_cost hcosts
  generalize hsums : (if |v.value| ≤ tolerance.value then [] else [v]) = sums at himbalance ⊢
  have htail : sums.tail = [] := by
    rw [← hsums]
    split <;> rfl
  have hrequires : (s.withPayee t).requiresBalance = true := by
    rw [requiresBalance_withPayee, Transaction.requiresBalance, hpostings]
    simp [hx.kind, hkind]
  have hoff : (s.withPayee t).isBalanced = .ok false := by
    rw [isBalanced_withPayee, Transaction.isBalanced, hpostings]
    simp [htally, pure, Except.pure]
  have hparts : (s.withPayee t).postings = [x] ++ y :: [] := by
    rw [postings_withPayee, hpostings]
    rfl
  have hcompletes := @Transaction.Completes.tally (s.withPayee t) (s.noteFirst t).bucket
    (s.noteFirst t).unit [x] [] y sums hparts (by simp) htally
    (by simp [Posting.isTally, hx.amount]) (by rw [imbalance_withPayee, himbalance])
  have hbalanced := balanced_eq_ok_iff.mpr (.inr ⟨hrequires, hoff, _, hcompletes, rfl⟩)
  refine Enters.kept hbalanced ?_
  rw [Posting.furtherOffsets, htail, if_neg (by simp [hparts])]
  refine Enters.cons (accountFor_of_ne hx.account (Option.some_ne_none 0).symm) hx.amount ?_
  exact enters_nil.cons (accountFor_of_ne hy (Option.some_ne_none 1).symm) rfl

/-- A posting that stands alone is met by the exact opposite, unless the amount is small. -/
theorem kept?_of_lone (hpostings : t.postings = [x]) (hx : x.Brings a v)
    (hbucket : s.bucket = some b) (hb : AccountRef.ofText b = .named b) :
    ∃ t', s.kept? t = .ok t' ∧ t'.entries = (s.resolveName a, s.declaredForm v) ::
      if |v.value| ≤ tolerance.value then [] else [(b, s.declaredForm v.invert)] := by
  have hcosts : costs t.postings = .ok [v] := by
    rw [hpostings]
    exact Posting.costs_cons_eq_ok_iff.mpr ⟨some v, [], hx.cost?, rfl, rfl⟩
  have himbalance := Transaction.imbalance_of_one_cost hcosts
  have hisBalanced : (s.withPayee t).isBalanced = .ok (decide (|v.value| ≤ tolerance.value)) := by
    rw [isBalanced_withPayee, Transaction.isBalanced, himbalance, hpostings]
    by_cases hsmall : |v.value| ≤ tolerance.value <;>
      simp [Posting.isTally, hx.amount, hsmall, bind, Except.bind, pure, Except.pure]
  by_cases hsmall : |v.value| ≤ tolerance.value
  · rw [decide_eq_true hsmall] at hisBalanced
    rw [if_pos hsmall]
    have hbalanced : (s.noteFirst t).balanced (s.withPayee t) = .ok (s.withPayee t, none) :=
      balanced_eq_ok_iff.mpr (.inl ⟨.inr hisBalanced, rfl, rfl⟩)
    refine Enters.kept hbalanced ?_
    rw [postings_withPayee, hpostings]
    exact enters_nil.cons (accountFor_of_ne hx.account (Option.some_ne_none 0).symm) hx.amount
  · rw [decide_eq_false hsmall] at hisBalanced
    rw [if_neg hsmall]
    have hrequires : (s.withPayee t).requiresBalance = true := by
      rw [requiresBalance_withPayee, Transaction.requiresBalance, hpostings]
      simp [hx.kind]
    have hone : (s.withPayee t).postings = [x] := by
      rw [postings_withPayee, hpostings]
    have hcompletes := @Transaction.Completes.lone (s.withPayee t) (s.noteFirst t).bucket
      (s.noteFirst t).unit x b v hone hbucket hx.cost?
    have hbalanced := balanced_eq_ok_iff.mpr (.inr ⟨hrequires, hisBalanced, _, hcompletes, rfl⟩)
    refine Enters.kept hbalanced ?_
    rw [if_pos (by simp [hone])]
    have hsecond : ∀ u : Transaction, s.accountFor u (.ofAmount b v.invert) true = .ok b := by
      simp [accountFor, Posting.ofAmount, Posting.tally, hb]
    refine Enters.cons (accountFor_of_ne hx.account (by simp)) hx.amount ?_
    exact enters_nil.cons (hsecond _) rfl

theorem kept?_of_lacksOffset {source target : String} {rest : List (String × Commodity)}
    (h : s.LacksOffset t v source target rest) :
    ∃ t', s.kept? t = .ok t' ∧ t'.entries = (source, s.declaredForm v) ::
      if |v.value| ≤ tolerance.value then rest else [(target, s.declaredForm v.invert)] := by
  cases h with
  | tally hpostings hx hy hkind hamount =>
    obtain ⟨t', hkept, hentries⟩ := kept?_of_tally hpostings hx hy hkind hamount
    refine ⟨t', hkept, ?_⟩
    rw [hentries]
    split <;> rfl
  | lone hpostings hx hbucket hb => exact kept?_of_lone hpostings hx hbucket hb

end Store

namespace Filling

variable {σ : Type}

/-- In a first pass a transaction that leaves the offset of an amount out is stored with the exact
opposite of the amount, unless the amount is within the tolerance. -/
theorem firstPass_offsets {r : Reporter σ} {before : List (Spanned Directive)} {options : Options}
    {state : σ} {m : Progress σ} {t : Transaction} {span : Span} {v : Commodity}
    {source target : String} {rest : List (String × Commodity)}
    (hbefore : Admits r ⟨.empty options, [], state⟩ before m)
    (h : m.store.LacksOffset t v source target rest) :
    let ds := fun after => before ++ ⟨.transaction t, span⟩ :: after
    (r.Admitting → options.pedantic = false → m.store.roots = [] →
      ∃ q, runOn (firstPass r (ds [])) (.empty options) state = (.ok (), q)) ∧
    ∀ after q, runOn (firstPass r (ds after)) (.empty options) state = (.ok (), q) →
      ∃ t', Files r ⟨.empty options, [], state⟩ (ds after) m.store t t' ∧ q.store.Holds t' ∧
        (tolerance.value < |v.value| → ∃ c d, t'.entries = [(source, c), (target, d)] ∧
          c.name = v.name ∧ c.value = v.value ∧ d.name = v.name ∧ d.currency = c.currency ∧
          d.value = -v.value ∧ sumOf [c, d] = 0) ∧
        (|v.value| ≤ tolerance.value →
          t'.entries = (source, m.store.declaredForm v) :: rest) := by
  intro ds
  obtain ⟨t', hkept, hentries⟩ := Store.kept?_of_lacksOffset h
  constructor
  · exact fun hr hp hroots => exists_firstPass hr hp hbefore hroots hkept
  intro after q hrun
  obtain ⟨-, n, hall, -, rfl⟩ := leads_firstPass.mp hrun
  have hfiles : Files r ⟨.empty options, [], state⟩ (ds after) m.store t t' :=
    ⟨before, span, after, m, rfl, hbefore, rfl, hkept⟩
  refine ⟨t', hfiles, hall.holds_iff.mpr (.inr ⟨m.store, t, hfiles⟩), fun hlarge => ?_,
    fun hsmall => ?_⟩
  · rw [if_neg (not_le.mpr hlarge)] at hentries
    refine ⟨_, _, hentries, ?_⟩
    simp [Store.currency_declaredForm]
  · rwa [if_pos hsmall] at hentries

/-- A tally posting meets one dollar exactly. -/
theorem firstPass_offsets_single :
    let ds := single [.ofAmount "Bank" oneDollar, .tally "Cash"]
    ∃ q, runOn (firstPass (.silent Unit) ds) (.empty .default) () = (.ok (), q) ∧
      ∃ t' c d, q.store.Holds t' ∧ t'.entries = [("Bank", c), ("Cash", d)] ∧
        c.value = oneDollar.value ∧ d.value = -oneDollar.value := by
  intro ds
  have hlacks : (Store.empty .default).LacksOffset
      { Transaction.ofPayee ⟨2024, 1, 1, by decide⟩ "" with
        postings := [.ofAmount "Bank" oneDollar, .tally "Cash"] } oneDollar "Bank" "Cash" _ :=
    .tally rfl ⟨by decide, by decide, rfl, rfl⟩ (by decide) (by decide) rfl
  have hbefore : Admits (.silent Unit) ⟨.empty .default, [], ()⟩ [] _ := .start
  obtain ⟨hruns, hstores⟩ := @firstPass_offsets Unit _ _ _ _ _ _ (.line 1) _ _ _ _ hbefore hlacks
  obtain ⟨q, hq⟩ := hruns (Reporter.admitting_silent Unit) rfl rfl
  obtain ⟨t', -, hholds, hlarge, -⟩ := hstores [] q hq
  obtain ⟨c, d, hentries, -, hc, -, -, hd, -⟩ := hlarge (by decide +kernel)
  exact ⟨q, hq, t', c, d, hholds, hentries, hc, hd⟩

/-- Half a cent is within the tolerance: the tally posting does not meet it. -/
theorem small_amount_not_offset :
    let v : Commodity := .plain "USD" ⟨false, 5, 3, by decide, by decide⟩
    let ds := single [.ofAmount "Bank" v, .tally "Cash"]
    let q := (runOn (firstPass (.silent Unit) ds) (.empty .default) ()).2
    runOn (firstPass (.silent Unit) ds) (.empty .default) () = (.ok (), q) ∧ v.value ≠ 0 ∧
      ∃ t', q.store.Holds t' ∧ (∀ e ∈ t'.entries, e.1 = "Cash" → e.2.value ≠ -v.value) ∧
        sumOf (t'.entries.map (·.2)) ≠ 0 := by
  intro v ds q
  refine ⟨runOn_eq_ok (by decide +kernel), by decide +kernel, ?_⟩
  obtain ⟨t', ht', hnone, hsum⟩ : ∃ t' ∈ q.store.transactions.values,
      (∀ e ∈ t'.entries, e.1 = "Cash" → e.2.value ≠ -v.value) ∧
        sumOf (t'.entries.map (·.2)) ≠ 0 := by
    decide +kernel
  exact ⟨t', ht', hnone, hsum⟩

end Filling

end Daybook
