import Daybook.Proofs.Booking.Load
import Daybook.Proofs.Store.Kept
import Daybook.Proofs.Store.Refusals
import Mathlib.Data.List.Flatten

/-!
# Both passes in range

Amounts are computed with in two places only: a transaction is balanced, and its amounts are
posted. A first pass in which no transaction is too heavy fails for other reasons
(`safe_firstPass`). What it stores weighs no more than what the directives do (`load_stored_le`),
so that an account that is given some of it in the second pass does not overflow either
(`not_refuses_overflow`).
-/

namespace Daybook

open Reporting (Secures)
open Result (Ensures)

/-- Whether the error is that an amount has left the range of the numbers. -/
def LedgerError.isOverflow : LedgerError → Bool
  | .amount .overflow | .booking _ _ _ (.amount .overflow) => true
  | _ => false

/-- What a directive weighs: the amounts and the costs of a transaction, and otherwise nothing. -/
def Directive.weights : Directive → List (String × Nat)
  | .transaction t => t.weights
  | _ => []

def Directive.allWeights (ds : List (Spanned Directive)) : List (String × Nat) :=
  ds.flatMap (·.value.weights)

namespace Filling

variable {σ α β : Type} {J : σ → Prop}

/-- The step keeps what is known of the reporter, and no amount overflows. -/
def Safe (J : σ → Prop) (step : Filling σ α) : Prop :=
  Secures (fun p => J p.report) step (fun _ p => J p.report) (fun e => e.isOverflow = false)

theorem Safe.bind {step : Filling σ α} (h : Safe J step) {next : α → Filling σ β}
    (hnext : ∀ a, Safe J (next a)) : Safe J (step >>= next) :=
  Secures.bind h hnext

theorem safe_pure (a : α) : Safe J (pure a : Filling σ α) := fun _ h => h

theorem safe_throw {e : LedgerError} (h : e.isOverflow = false) :
    Safe J (throw e : Filling σ α) := fun _ _ => h

theorem safe_store : Safe J (store : Filling σ Store) := fun _ h => h

theorem safe_update (f : Store → Store) : Safe J (update f : Filling σ Unit) := fun _ h => h

theorem safe_warn (w : Warning) : Safe J (warn w : Filling σ Unit) := fun _ h => h

theorem safe_lift {x : Except LedgerError α}
    (h : Ensures (fun _ => True) (fun e => e.isOverflow = false) x) :
    Safe J (liftM x : Filling σ α) :=
  secures_lift fun _ hp => h.mono (fun _ _ => hp) fun _ he => he

theorem safe_report {action : Store → Reporting σ Unit}
    (h : ∀ s, Secures J (action s) (fun _ => J) (fun e => e.isOverflow = false)) :
    Safe J (report action) := by
  have hreport := secures_report (S := fun _ => True) fun s _ => h s
  exact hreport.mono (fun _ hp => ⟨trivial, hp⟩) (fun _ _ hq => hq.2) fun _ he => he

/-! ## Directives other than transactions -/

theorem safe_readPattern (text : String) : Safe J (readPattern text : Filling σ Pattern) := by
  rw [readPattern]
  split
  · exact safe_pure _
  · exact safe_throw rfl

theorem safe_mapM_readPattern (texts : List String) :
    Safe J (texts.mapM readPattern : Filling σ (List Pattern)) := by
  induction texts with
  | nil => exact safe_pure _
  | cons text texts ih =>
    rw [List.mapM_cons]
    exact (safe_readPattern text).bind fun _ => ih.bind fun _ => safe_pure _

theorem safe_addPayeeAccounts (account : String) (texts : List String) :
    Safe J (addPayeeAccounts account texts) := by
  induction texts with
  | nil => exact safe_pure _
  | cons text texts ih =>
    exact (safe_readPattern text).bind fun _ => (safe_update _).bind fun _ => ih

theorem safe_readClasses (account : String) (texts : List String) :
    Safe J (readClasses account texts) := by
  induction texts with
  | nil => exact safe_pure _
  | cons text texts ih =>
    rw [readClasses]
    split
    · exact ih.bind fun _ => safe_pure _
    · exact (safe_warn _).bind fun _ => ih

theorem safe_declareAccount (d : AccountDeclaration) : Safe J (declareAccount d) :=
  safe_store.bind fun _ => (safe_update _).bind fun _ => (safe_addPayeeAccounts _ _).bind fun _ =>
    (safe_readClasses _ _).bind fun _ => safe_update _

theorem safe_apply (d : Directive) (span : Span) : Safe J (apply d span) := by
  cases d
  case account d => exact safe_declareAccount d
  case stop =>
    refine safe_store.bind fun s => ?_
    split
    · exact (safe_throw rfl).bind fun _ => safe_update _
    · exact safe_update _
  case capture account pattern => exact (safe_readPattern pattern).bind fun _ => safe_update _
  case payee d => exact (safe_mapM_readPattern d.aliases).bind fun _ => safe_update _
  case transaction | year | includeFile | test | comment => exact safe_pure _
  case price | applyAccount | rename | bucket | commodity | define | fixed | assert | check =>
    exact safe_update _

/-! ## Transactions -/

theorem safe_checkDeclared (kind : NameKind) (name : String) (declared : Bool) :
    Safe J (checkDeclared kind name declared) := by
  rw [checkDeclared]
  split
  · exact safe_pure _
  · refine safe_store.bind fun s => ?_
    dsimp only
    have hwarn : Safe J (if s.options.strict then warn (.undeclared kind name) else pure () :
        Filling σ Unit) := by
      split
      · exact safe_warn _
      · exact safe_pure _
    split
    · exact (safe_throw rfl).bind fun _ => hwarn
    · exact hwarn

theorem safe_resolveCommodity? (c : Option Commodity) : Safe J (resolveCommodity? c) := by
  cases c with
  | none => exact safe_pure _
  | some c =>
    have hone : Safe J (resolveCommodity c) := safe_store.bind fun _ =>
      (safe_checkDeclared _ _ _).bind fun _ => (safe_update _).bind fun _ => safe_pure _
    rw [resolveCommodity?, map_eq_pure_bind]
    exact hone.bind fun _ => safe_pure _

theorem safe_accountOf (t : Transaction) (x : Posting) (toBucket : Bool) :
    Safe J (accountOf t x toBucket) := by
  have hresolve : Safe J (do liftM ((← store).resolveAccount x t) : Filling σ String) := by
    refine safe_store.bind fun s => safe_lift ?_
    rw [Store.resolveAccount]
    split
    · trivial
    · dsimp only
      split
      · split
        · trivial
        · rfl
      · rfl
  unfold accountOf
  split
  · exact safe_pure _
  · exact hresolve

theorem safe_resolvePosting (t : Transaction) (x : Posting) (toBucket : Bool) :
    Safe J (resolvePosting t x toBucket) :=
  (safe_accountOf t x toBucket).bind fun _ => safe_store.bind fun _ =>
    (safe_checkDeclared _ _ _).bind fun _ => (safe_update _).bind fun _ =>
    (safe_resolveCommodity? _).bind fun _ => (safe_resolveCommodity? _).bind fun _ =>
    (safe_resolveCommodity? _).bind fun _ => (safe_resolveCommodity? _).bind fun _ => safe_pure _

theorem safe_resolvePostings (t : Transaction) (place : Option Nat) (n : Nat) (xs : List Posting) :
    Safe J (resolvePostings t place n xs) := by
  induction xs generalizing n with
  | nil => exact safe_pure _
  | cons x xs ih =>
    exact (safe_resolvePosting t x _).bind fun _ => (ih (n + 1)).bind fun _ => safe_pure _

theorem ensures_balanced {t : Transaction} (hlimit : InLimit t.costWeights) (s : Store) :
    Ensures (fun _ => True) (fun e => e.isOverflow = false) (s.balanced t) := by
  have hbalanced : Ensures (fun _ => True) (fun e => e.isOverflow = false)
      (t.isBalanced.mapError LedgerError.amount) := by
    refine (Transaction.ensures_isBalanced hlimit).mapError fun e he => ?_
    cases e with
    | mismatch => rfl
    | overflow => exact absurd rfl he
  have hbalance : Ensures (fun _ => True) (fun e => e.isOverflow = false)
      ((t.balance s.bucket s.unit).mapError (LedgerError.booking t.date t.payee t.lines)) := by
    refine (Transaction.ensures_balance hlimit s.bucket s.unit).mapError fun e he => ?_
    cases e with
    | amount e =>
      cases e with
      | mismatch => rfl
      | overflow => exact absurd rfl he
    | noPostings | unbalanced | manyTallies => rfl
  rw [Store.balanced]
  split
  · trivial
  · refine hbalanced.bind fun b _ => ?_
    split
    · trivial
    · exact hbalance.bind fun _ _ => trivial

theorem safe_reportAdmitted {r : Reporter σ}
    (hr : ∀ s t x, Secures J (r.admitted s t x) (fun _ => J) (fun e => e.isOverflow = false))
    (t : Transaction) (xs : List Posting) : Safe J (reportAdmitted r t xs) := by
  induction xs with
  | nil => exact safe_pure _
  | cons x xs ih => exact (safe_report fun s => hr s t x).bind fun _ => ih

theorem safe_noteDigest (t : Transaction) : Safe J (noteDigest t : Filling σ Unit) := by
  rw [noteDigest]
  split
  · exact safe_pure _
  · refine safe_store.bind fun s => (safe_update _).bind fun _ => ?_
    split
    · exact safe_warn _
    · exact safe_pure _

theorem safe_fileKept {r : Reporter σ}
    (hr : ∀ s t x, Secures J (r.admitted s t x) (fun _ => J) (fun e => e.isOverflow = false))
    (t : Transaction) : Safe J (fileKept r t) := by
  have hfile : Safe J (file r t) :=
    (safe_reportAdmitted hr t t.postings).bind fun _ => (safe_noteDigest t).bind fun _ =>
      safe_update _
  refine safe_store.bind fun s => ?_
  dsimp only
  split
  · exact (safe_checkDeclared _ _ _).bind fun _ => hfile
  · exact hfile

theorem safe_admitOne {r : Reporter σ}
    (hr : ∀ s t x, Secures J (r.admitted s t x) (fun _ => J) (fun e => e.isOverflow = false))
    {t : Transaction} (hlimit : InLimit t.costWeights) : Safe J (admitOne r t) := by
  rw [admitOne_eq]
  refine safe_store.bind fun s => (safe_update _).bind fun _ => safe_store.bind fun m => ?_
  have hpayee : InLimit (s.withPayee t).costWeights := by
    rw [Transaction.costWeights, Store.postings_withPayee]
    exact hlimit
  refine (safe_lift (ensures_balanced hpayee m)).bind fun u => ?_
  exact (safe_resolvePostings _ _ _ _).bind fun ys => safe_fileKept hr _

theorem safe_firstPass {r : Reporter σ}
    (hr : ∀ s t x, Secures J (r.admitted s t x) (fun _ => J) (fun e => e.isOverflow = false))
    {ds : List (Spanned Directive)} (hlimit : InLimit (Directive.allWeights ds)) :
    Safe J (firstPass r ds) := by
  have hexpect : Safe J (expect .first : Filling σ Unit) := by
    refine safe_store.bind fun s => ?_
    dsimp only
    split
    · exact safe_throw rfl
    · exact safe_pure _
  have hall : Safe J (admitAll r ds) := by
    induction ds with
    | nil => exact safe_pure _
    | cons d ds ih =>
      have hsplit : ∀ n, load n (Directive.allWeights (d :: ds)) =
          load n d.value.weights + load n (Directive.allWeights ds) := fun n => by
        rw [Directive.allWeights, List.flatMap_cons, load_append]
        rfl
      have hrest := ih (hlimit.mono fun n => by rw [hsplit]; exact Nat.le_add_left _ _)
      rw [admitAll]
      split
      · rename_i t ht
        have hcosts : InLimit t.costWeights := hlimit.mono fun n => by
          rw [hsplit, ht, Directive.weights, Transaction.load_weights]
          omega
        exact (safe_admitOne hr hcosts).bind fun _ => hrest
      · exact (safe_apply _ _).bind fun _ => hrest
  refine hexpect.bind fun _ => hall.bind fun _ => safe_store.bind fun s => ?_
  split
  · exact (safe_throw rfl).bind fun _ => safe_update _
  · exact safe_update _

end Filling

/-! ## What is stored -/

namespace Store

def stored (s : Store) : List Commodity := s.transactions.values.flatMap Transaction.amounts

theorem weight_declaredForm (s : Store) (c : Commodity) : (s.declaredForm c).weight = c.weight := by
  rw [Commodity.weight, name_declaredForm, Commodity.wholes, amount_declaredForm]
  rfl

theorem weights_of_kept {s : Store} {xs ys : List Posting} (h : s.Kept xs ys) :
    (ys.filterMap (·.amount)).map Commodity.weight =
      (xs.filterMap (·.amount)).map Commodity.weight := by
  induction h with
  | nil => rfl
  | @cons x y xs ys hxy _ ih =>
    obtain ⟨name, rfl⟩ := hxy
    have hamount : (s.keptOn name x).amount = x.amount.map s.declaredForm := rfl
    cases hx : x.amount with
    | none =>
      rw [List.filterMap_cons_none (by rw [hamount, hx]; rfl), List.filterMap_cons_none hx, ih]
    | some c =>
      rw [List.filterMap_cons_some (by rw [hamount, hx]; rfl), List.filterMap_cons_some hx,
        List.map_cons, List.map_cons, weight_declaredForm, ih]

theorem load_amounts_le_of_kept? {s : Store} {t t' : Transaction} (hlimit : InLimit t.weights)
    (h : s.kept? t = .ok t') (n : String) :
    load n (t'.amounts.map Commodity.weight) ≤ load n t.weights := by
  obtain ⟨u, hkept, hu⟩ := completed_of_kept? h
  rw [Transaction.amounts, weights_of_kept hkept]
  rcases hu with ⟨-, rfl⟩ | ⟨-, -, places, hcompletes⟩
  · rw [Transaction.load_weights]
    exact Nat.le_add_right _ _
  · have hcosts : InLimit t.costWeights := hlimit.mono fun n => by
      rw [Transaction.load_weights]
      exact Nat.le_add_left _ _
    exact Transaction.load_amounts_le_of_completes hcosts hcompletes n

theorem load_stored_insert (s : Store) (m : Moment) (t : Transaction) (n : String) :
    load n (({ s with transactions := s.transactions.insert m t }).stored.map Commodity.weight) =
      load n (t.amounts.map Commodity.weight) + load n (s.stored.map Commodity.weight) := by
  have hvalues := (s.transactions.perm_insert m t).map Prod.snd
  have hamounts := (hvalues.flatMap_right Transaction.amounts).map Commodity.weight
  rw [← load_append, ← List.map_append]
  exact load_perm hamounts

theorem entries_sublist_amounts (t : Transaction) :
    (t.entries.map (·.2)).Sublist t.amounts := by
  rw [Transaction.entries, Transaction.amounts]
  induction t.postings with
  | nil => exact .slnil
  | cons x xs ih =>
    cases hx : x.brought? with
    | none =>
      rw [List.filterMap_cons_none hx]
      exact ih.trans ((List.sublist_cons_self x xs).filterMap _)
    | some e =>
      have hamount := (Posting.brought?_eq_some_iff.mp hx).2
      rw [List.filterMap_cons_some hx, List.filterMap_cons_some hamount, List.map_cons]
      exact ih.cons_cons _

theorem covered_sublist_stored (s : Store) : (s.covered.map (·.2)).Sublist s.stored := by
  rw [covered, List.map_flatMap, stored]
  exact (List.Sublist.flatMap_right _ fun t _ => entries_sublist_amounts t).trans
    (List.filter_sublist.flatMap _)

theorem not_refuses_overflow {s : Store} (hunposted : s.Unposted)
    (hlimit : InLimit (s.covered.map (·.2.weight))) : ¬s.Refuses s.covered .overflow := by
  rintro ⟨before, entry, after, hsplit, name, a, t, ha, hwithin, ht, hrefused⟩
  rw [hunposted name a ha] at ht
  have hsublist : ((countsOn name before ++ [entry.2]).map Commodity.weight).Sublist
      (s.covered.map (·.2.weight)) := by
    have hcounts : (countsOn name before).Sublist (before.map (·.2)) := List.filter_sublist.map _
    have hfirst : (before.map (·.2) ++ [entry.2]).Sublist (s.covered.map (·.2)) := by
      rw [hsplit, List.map_append, List.map_cons]
      exact (List.singleton_sublist.mpr List.mem_cons_self).append_left _
    have hall := ((hcounts.append_right [entry.2]).trans hfirst).map Commodity.weight
    rwa [List.map_map] at hall
  have hload := hlimit.mono fun n => load_le_of_sublist hsublist
  rw [List.map_append, List.map_singleton] at hload
  have hbefore := Turnover.ensures_foldlM_post (hload.mono fun n => by
    rw [load_append]
    exact Nat.le_add_right _ _)
  have hwithin' := (Result.ensures_iff.mp hbefore).1 t ht
  exact (Result.ensures_iff.mp (Turnover.ensures_post hwithin' hload)).2 _ hrefused rfl

end Store

namespace Filling

variable {σ : Type} {r : Reporter σ} {p q : Progress σ} {ds : List (Spanned Directive)}

theorem Admits.load_stored_le (h : Admits r p ds q) (hlimit : InLimit (Directive.allWeights ds))
    (n : String) : load n (q.store.stored.map Commodity.weight) ≤
      load n (p.store.stored.map Commodity.weight) + load n (Directive.allWeights ds) := by
  induction h with
  | start => exact Nat.le_add_right _ _
  | @next ds d m q _ hd ih =>
    have hsplit : ∀ n, load n (Directive.allWeights (ds ++ [d])) =
        load n (Directive.allWeights ds) + load n d.value.weights := fun n => by
      rw [Directive.allWeights, List.flatMap_append, List.flatMap_singleton, load_append]
      rfl
    have hbefore := ih (hlimit.mono fun n => by rw [hsplit]; exact Nat.le_add_right _ _)
    rw [hsplit]
    rcases leads_takeIn hd with ⟨t, t', hvalue, hkept, hq⟩ | ⟨-, hbooks⟩
    · have hone : InLimit t.weights := hlimit.mono fun n => by
        rw [hsplit, hvalue]
        exact Nat.le_add_left _ _
      have hstored := Store.load_stored_insert m.store t'.moment t' n
      have hkeptLoad := Store.load_amounts_le_of_kept? hone hkept n
      have hq' : q.store.stored = Store.stored
          { m.store with transactions := m.store.transactions.insert t'.moment t' } := by
        rw [hq]
        rfl
      rw [hq', hstored, hvalue, Directive.weights]
      omega
    · have hsame : q.store.stored = m.store.stored := by
        rw [Store.stored, hbooks, Store.stored, ← Store.transactions_entered m.store d.value]
      rw [hsame]
      omega

theorem inLimit_covered {options : Options} {state : σ}
    (h : runOn (firstPass r ds) (.empty options) state = (.ok (), q))
    (hlimit : InLimit (Directive.allWeights ds)) :
    InLimit (q.store.covered.map (·.2.weight)) := by
  obtain ⟨-, m, hall, -, rfl⟩ := leads_firstPass.mp h
  refine hlimit.mono fun n => ?_
  have hstored := hall.load_stored_le hlimit n
  have hempty : load n ((Store.empty options).stored.map Commodity.weight) = 0 := rfl
  rw [hempty, Nat.zero_add] at hstored
  have hcovered := (Store.covered_sublist_stored
    { m.store with stage := .admitted }).map Commodity.weight
  rw [List.map_map] at hcovered
  exact (load_le_of_sublist hcovered).trans hstored

/-- A second pass in range fails for other reasons only. -/
theorem secures_secondPass_inLimit {J : List (String × Commodity) → σ → Prop} {s : Store}
    (horderly : s.Orderly) (hstage : s.stage = .admitted)
    (hlimit : InLimit (s.covered.map (·.2.weight)))
    (hwatch : r.Watches s.covered J fun e => e.isOverflow = false) :
    Secures (fun p => p.store = s ∧ J [] p.report) (secondPass r)
      (fun _ => Reaches { s with stage := .posted } J s.covered)
      (fun e => e.isOverflow = false) := by
  refine (secures_secondPass horderly hstage hwatch).mono (fun _ hp => hp) (fun _ _ hq => hq) ?_
  rintro e (⟨x, rfl, hrefuses⟩ | he)
  · cases x with
    | mismatch => rfl
    | overflow => exact absurd hrefuses (Store.not_refuses_overflow horderly.unposted hlimit)
  · exact he

end Filling

end Daybook
