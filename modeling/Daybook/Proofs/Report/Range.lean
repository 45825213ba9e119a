import Daybook.Command.Run
import Daybook.Proofs.Report.GrandTotal
import Daybook.Proofs.Store.Range

/-!
# Reports in range

A report computes with amounts in two places: the register adds up the postings that it shows, and
the balances have a grand total. Both sum up amounts that are posted, each at most once, and so
neither overflows where the directives are within the limit. With the two passes this makes a whole
run that fails for other reasons only (`not_overflows_of_inLimit`). The limit is needed: amounts
that cancel out can overflow on the way (`heavyJournal_overflows`).
-/

namespace Daybook

open Commodity (weight)
open Reporting (Secures)
open Result (Ensures)
open Turnover (Bounded)

namespace Report

theorem isOverflow_failure {e : AmountError} (h : e ≠ .overflow) :
    (failure e).isOverflow = false := by
  cases e with
  | mismatch => rfl
  | overflow => exact absurd rfl h

theorem secures_writeLines {E : LedgerError → Prop} {α : Type} (text : α → String) (rows : List α) :
    Secures (fun _ : List String => True) (rows.forM fun r => writeLine (text r))
      (fun _ _ => True) E := by
  intro lines _
  rw [run_forM_writeLine]
  trivial

/-! ## The register -/

/-- What the register keeps within the loads of the entries so far. -/
def Register.Within (done : List (String × Commodity)) (g : Register) : Prop :=
  Bounded g.totals.sums (done.map (·.2.weight))

theorem Register.ensures_enter {done : List (String × Commodity)} {g : Register}
    {e : String × Commodity} (h : g.Within done)
    (hlimit : InLimit ((done ++ [e]).map (·.2.weight))) (s : Store) (t : Transaction) (x : Posting)
    (account : String) :
    Ensures (Within (done ++ [e])) (· ≠ .overflow) (g.enter s t x account e.2) := by
  rw [List.map_append, List.map_singleton] at hlimit
  have hadd : Ensures (fun t => Bounded t.sums ((done ++ [e]).map (·.2.weight))) (· ≠ .overflow)
      (g.totals.add e.2) := by
    rw [Totals.add_eq, List.map_append, List.map_singleton]
    exact (Turnover.ensures_accumulate h (Nat.le_refl _) hlimit).bind fun sums hsums => hsums
  exact hadd.bind fun totals htotals => htotals

theorem watches_register (selection : Selection) {entries : List (String × Commodity)}
    (hlimit : InLimit (entries.map (·.2.weight))) :
    (register selection).Watches entries Register.Within (fun e => e.isOverflow = false) := by
  refine ⟨fun s t x e done hbrought hbegins => ?_, fun _ _ _ _ _ _ h => h, fun _ _ _ _ h => h⟩
  obtain ⟨haccount, hamount⟩ := Posting.brought?_eq_some_iff.mp hbrought
  have hload : InLimit ((done ++ [e]).map (·.2.weight)) :=
    hlimit.mono fun n => load_le_of_sublist (hbegins.sublist.map _)
  have hmore : ∀ g : Register, g.Within done → g.Within (done ++ [e]) := fun g hg =>
    hg.mono fun n => by simp
  simp only [register, haccount, hamount, AccountRef.name?]
  split
  · refine Reporting.secures_get.bind fun g => ?_
    intro g' hg'
    obtain ⟨hwithin, rfl⟩ := hg'
    have henter := Register.ensures_enter hwithin hload s t x e.1
    cases hresult : g.enter s t x e.1 e.2 with
    | ok g'' =>
      rw [hresult] at henter
      exact henter
    | error err =>
      rw [hresult] at henter
      exact isOverflow_failure henter
  · exact fun g hg => hmore g hg

/-! ## The grand total -/

/-- What has been added up of accounts that hold parts of the entries is within their loads. -/
structure GrandTotal.Within (g : GrandTotal) (weights : List (String × Nat)) : Prop where
  balances : Bounded g.balances.sums weights
  debits : Bounded g.debits.sums weights
  credits : Bounded g.credits.sums weights

theorem GrandTotal.ensures_add {g : GrandTotal} {ws : List (String × Nat)} {cs : List Commodity}
    {t : Turnover} (h : g.Within ws) (ht : cs.foldlM Turnover.post .empty = .ok t)
    (hlimit : InLimit (ws ++ cs.map weight)) :
    Ensures (Within · (ws ++ cs.map weight)) (· ≠ .overflow) (g.add t) := by
  have hparts : InLimit (cs.map weight) := hlimit.mono fun n => by simp
  have hwithin := (Result.ensures_iff.mp (Turnover.ensures_foldlM_post hparts)).1 t ht
  obtain ⟨hbalances, hdebits, hcredits⟩ := Turnover.sums_of_foldlM_post ht
  -- The sums of one kind that an account keeps weigh no more than what it has been given.
  have hadd : ∀ {totals : Totals} {sums : NameMap Commodity}, Bounded totals.sums ws →
      Turnover.Keyed sums → Bounded sums (cs.map weight) →
      Ensures (fun t => Bounded t.sums (ws ++ cs.map weight)) (· ≠ .overflow)
        (totals.addAll sums.values) := by
    intro totals sums htotals hkeyed hsums
    have hless : ∀ n, load n (ws ++ sums.values.map weight) ≤ load n (ws ++ cs.map weight) :=
      fun n => by
        rw [load_append, load_append]
        exact Nat.add_le_add_left (Turnover.load_values_le hkeyed hsums n) _
    exact (Totals.ensures_addAll htotals (hlimit.mono hless)).mono
      (fun _ hbounded => hbounded.mono hless) fun _ he => he
  rw [add]
  refine (hadd h.balances (Turnover.keyed_of_sums? hbalances) hwithin.balances).bind fun b hb => ?_
  refine (hadd h.debits (Turnover.keyed_of_sums? hdebits) hwithin.debits).bind fun d hd => ?_
  refine (hadd h.credits (Turnover.keyed_of_sums? hcredits) hwithin.credits).bind fun c hc => ?_
  exact ⟨hb, hd, hc⟩

/-- The accounts that are added up share out what has been posted, so that the grand total weighs no
more than all postings. -/
theorem ensures_grandTotal {s : Store} {entries : List (String × Commodity)}
    (h : s.Holding entries) (hlimit : InLimit (entries.map (·.2.weight))) (selection : Selection) :
    Ensures (fun _ => True) (· ≠ .overflow) (grandTotal (shownAccounts selection s)) := by
  have hperm := perm_flatMap_countsOn_summed (h.nodup_shown selection) entries
  generalize hroots : summed (shownAccounts selection s) = roots at hperm
  have hall : InLimit ((roots.flatMap fun a => countsOn a.name entries).map weight) := by
    refine hlimit.mono fun n => ?_
    rw [load_perm (hperm.map weight), List.map_map]
    exact load_le_of_sublist (List.filter_sublist.map _)
  have hposted : ∀ a ∈ roots, (countsOn a.name entries).foldlM Turnover.post .empty =
      .ok a.turnover := by
    rw [← hroots]
    exact fun a ha => h.posted_of_summed ha
  rw [grandTotal, hroots]
  have hfold := Ensures.foldlM (E := (· ≠ AmountError.overflow)) (l := roots)
    (f := fun (g : GrandTotal) (a : Account) => g.add a.turnover) (b := GrandTotal.empty)
    (I := fun done g => g.Within ((done.flatMap fun a => countsOn a.name entries).map weight))
    (fun done a g hbegins hg => ?_)
    ⟨Turnover.bounded_empty _, Turnover.bounded_empty _, Turnover.bounded_empty _⟩
  · exact hfold.mono (fun _ _ => trivial) fun _ he => he
  · obtain ⟨rest, rfl⟩ := hbegins
    have hone := hposted a (by simp)
    rw [List.flatMap_append, List.flatMap_singleton, List.map_append]
    refine GrandTotal.ensures_add hg hone (hall.mono fun n => ?_)
    simp only [List.flatMap_append, List.flatMap_singleton, List.map_append, load_append]
    exact Nat.le_add_right _ _

theorem secures_balance_inLimit {s : Store} {entries : List (String × Commodity)}
    (h : s.Holding entries) (hlimit : InLimit (entries.map (·.2.weight))) (selection : Selection) :
    Secures (fun _ => True) ((balance selection).rendered s) (fun _ _ => True)
      (fun e => e.isOverflow = false) := by
  have hreport := secures_balance [] (ensures_grandTotal h hlimit selection)
  refine hreport.mono (fun _ _ => List.nil_suffix) (fun _ _ _ => trivial) ?_
  rintro e ⟨x, rfl, hx⟩
  exact isOverflow_failure hx

end Report

namespace Command

open Filling

/-- The run of a report on a journal ends because an amount leaves the range of the numbers. -/
def Overflows {σ : Type} (r : Reporter σ) (ds : List (Spanned Directive)) (options : Options)
    (start : σ) : Prop :=
  ∃ e, (runOn (fill r ds) (.empty options) start).1 = .error e ∧ e.isOverflow = true

variable {σ : Type} {r : Reporter σ} {ds : List (Spanned Directive)} {options : Options}

theorem secures_render {s : Store} {entries : List (String × Commodity)}
    {J : List (String × Commodity) → σ → Prop}
    (hholding : ∀ m, Store.Posts { s with stage := .posted } (fun n => countsOn n entries) m →
      m.Holding entries)
    (hrendered : ∀ m : Store, m.Holding entries →
      Secures (J entries) (r.rendered m) (fun _ _ => True) (fun e => e.isOverflow = false)) :
    Secures (Reaches { s with stage := .posted } J entries) (render r) (fun _ _ => True)
      (fun e => e.isOverflow = false) := by
  rw [render]
  refine (secures_expect fun p hp => by rw [hp.1.rest]; rfl).bind fun _ => ?_
  have hreport := secures_report (K := fun _ : σ => True)
    (S := Store.Posts { s with stage := .posted } fun n => countsOn n entries)
    fun m hm => hrendered m (hholding m hm)
  exact Reporting.Secures.bind hreport fun _ => secures_update fun _ _ => trivial

/-- A run in range overflows nowhere if its reporter does not. -/
theorem not_overflows {J : List (String × Commodity) → σ → Prop} {start : σ}
    (hlimit : InLimit (Directive.allWeights ds)) (hstart : J [] start)
    (hadmitted : ∀ s t x, Secures (J []) (r.admitted s t x) (fun _ => J [])
      (fun e => e.isOverflow = false))
    (hwatch : ∀ entries : List (String × Commodity), InLimit (entries.map (·.2.weight)) →
      r.Watches entries J (fun e => e.isOverflow = false))
    (hrendered : ∀ (entries : List (String × Commodity)) (s : Store),
      InLimit (entries.map (·.2.weight)) → s.Holding entries →
      Secures (J entries) (r.rendered s) (fun _ _ => True) (fun e => e.isOverflow = false)) :
    ¬Overflows r ds options start := by
  rintro ⟨e, herror, hoverflow⟩
  have hfirst := safe_firstPass hadmitted hlimit ⟨.empty options, [], start⟩ hstart
  have hrest : ∀ p, runOn (firstPass r ds) (.empty options) start = (.ok (), p) →
      J [] p.report → Secures (fun q => q.store = p.store ∧ J [] q.report)
        (do secondPass r; render r) (fun _ _ => True) (fun e => e.isOverflow = false) := by
    intro p hp _
    have horderly := orderly_of_firstPass hp
    have hnamed : p.store.Each fun name a => a.name = name :=
      each_of_firstPass Store.lasting_named hp
    have hcovered := inLimit_covered hp hlimit
    have hsecond := secures_secondPass_inLimit horderly (stage_of_firstPass hp) hcovered
      (hwatch p.store.covered hcovered)
    refine hsecond.bind fun _ => secures_render (fun m hm => ?_) (hrendered _ · hcovered)
    exact Store.Posts.holding (s := { p.store with stage := .posted }) hnamed horderly.unposted hm
  have hfill : Ensures (fun _ => True) (fun e => e.isOverflow = false)
      (runOn (fill r ds) (.empty options) start).1 := by
    rw [runOn, fill, Reporting.run_bind]
    rcases hrun : (firstPass r ds).run.run ⟨.empty options, [], start⟩ with ⟨x | u, p⟩
    · rw [hrun] at hfirst
      exact hfirst
    · rw [hrun] at hfirst
      exact hrest p hrun hfirst p ⟨rfl, hfirst⟩
  rw [herror] at hfill
  have hfalse : e.isOverflow = false := hfill
  rw [hfalse] at hoverflow
  cases hoverflow

theorem not_overflows_of_quiet {start : σ} (hlimit : InLimit (Directive.allWeights ds))
    (hquiet : r = { Reporter.silent σ with rendered := r.rendered })
    (hrendered : ∀ (entries : List (String × Commodity)) (s : Store),
      InLimit (entries.map (·.2.weight)) → s.Holding entries →
      Secures (fun _ => True) (r.rendered s) (fun _ _ => True) (fun e => e.isOverflow = false)) :
    ¬Overflows r ds options start := by
  rw [hquiet]
  refine not_overflows (J := fun _ _ => True) hlimit trivial (fun _ _ _ _ _ => trivial) ?_ hrendered
  exact fun _ _ => ⟨fun _ _ _ _ _ _ _ _ _ => trivial, fun _ _ _ _ _ _ _ => trivial,
    fun _ _ _ _ _ => trivial⟩

/-- Where the amounts and the costs of a journal, rounded up to whole numbers, come to less than the
limit of the mantissa under each name, no amount overflows: not in the first pass, not in the second
one, and not in any of the reports. -/
theorem not_overflows_of_inLimit (hlimit : InLimit (Directive.allWeights ds)) (options : Options)
    (selection : Selection) :
    ¬Overflows (.silent Unit) ds options () ∧
      ¬Overflows (Report.balance selection) ds options [] ∧
      ¬Overflows (Report.register selection) ds options .empty ∧
      ¬Overflows (Report.accounts selection) ds options [] ∧
      ¬Overflows Report.statistics ds options [] := by
  refine ⟨?_, ?_, ?_, ?_, ?_⟩
  · exact not_overflows_of_quiet hlimit rfl fun _ _ _ _ _ _ => trivial
  · exact not_overflows_of_quiet hlimit rfl fun entries s hload hholding =>
      Report.secures_balance_inLimit hholding hload selection
  · refine not_overflows (J := Report.Register.Within) hlimit (Turnover.bounded_empty _)
      (fun _ _ _ _ h => h) (fun entries => Report.watches_register selection)
      fun _ _ _ _ _ _ => trivial
  · exact not_overflows_of_quiet hlimit rfl fun _ s _ _ =>
      Report.secures_writeLines id (s.accounts.names.filter selection.selects)
  · exact not_overflows_of_quiet hlimit rfl fun _ s _ _ =>
      Report.secures_writeLines id (Report.statisticsLines s)

/-- Two postings, with a price: the amounts weigh seven, and the costs six euros. -/
theorem not_overflows_of_inLimit_priced :
    let dollars (n : Nat) (h : n < Decimal.mantissaLimit) : Commodity :=
      .plain "USD" ⟨false, n, 0, h, by decide⟩
    let ds := single [{ Posting.ofAmount "A" (dollars 3 (by decide)) with
      costPrice := some (.plain "EUR" ⟨false, 2, 0, by decide, by decide⟩) }, .tally "B"]
    InLimit (Directive.allWeights ds) ∧ ¬Overflows (Report.balance none) ds .default [] := by
  intro dollars ds
  have hlimit : InLimit (Directive.allWeights ds) := by decide +kernel
  exact ⟨hlimit, (not_overflows_of_inLimit hlimit .default none).2.1⟩

/-- Four amounts of the largest mantissa, which cancel out. -/
def heavyJournal : String :=
  "2024/01/01 x\n" ++
    "    A  79228162514264337593543950335 USD\n    B  79228162514264337593543950335 USD\n" ++
    "    C  -79228162514264337593543950335 USD\n    D  -79228162514264337593543950335 USD\n"

/-- The journal has no faults, and adding up its first two amounts overflows. -/
theorem heavyJournal_overflows :
    let journal := Journal.ofText heavyJournal ⟨2024, 6, 15, by decide⟩
    journal.faults = [] ∧ Overflows (.silent Unit) journal.directives .default () := by
  refine ⟨by decide +kernel, .amount .overflow, by decide +kernel, rfl⟩

end Command

end Daybook
