import Daybook.Proofs.Store.Orderly
import Daybook.Proofs.Store.Posts
import Daybook.Proofs.Timeline

/-!
# The second pass conserves amounts

The second pass posts the transactions of the days that the options cover (`selected_eq`). What it
leaves on an account is the sum of the amounts of all postings to accounts within it, name by name;
it neither creates accounts nor changes anything else about them (`secondPass_conserves`).
-/

namespace Daybook

open Commodity (named sumOf debits credits ExactRange)

/-- Whether the day lies in the period that the options set; its last day is excluded. -/
def Options.Covers (o : Options) (d : Date) : Prop :=
  (∀ first ∈ o.start, first ≤ d) ∧ ∀ last ∈ o.stop, d < last

instance (o : Options) (d : Date) : Decidable (o.Covers d) :=
  inferInstanceAs (Decidable ((∀ first ∈ o.start, first ≤ d) ∧ ∀ last ∈ o.stop, d < last))

namespace Store

/-- The amounts of the postings, of the days that the options cover, to accounts within `root`. -/
def amountsWithin (s : Store) (root : String) : List Commodity :=
  countsOn root ((s.transactions.values.filter (s.options.Covers ·.date)).flatMap
    Transaction.entries)

/-- What has been posted to the account, which is nothing if there is none of that name. -/
def turnover (s : Store) (name : String) : Turnover :=
  ((s.accounts.find? name).map (·.turnover)).getD .empty

theorem ofDate_le_iff (a b : Date) : Moment.ofDate a ≤ Moment.ofDate b ↔ a ≤ b := by
  have hinstant : ∀ d : Date, (Moment.ofDate d).instant = 86400 * d.dayNumber := fun d =>
    Int.add_zero _
  show (Moment.ofDate a).instant ≤ (Moment.ofDate b).instant ↔ a.dayNumber ≤ b.dayNumber
  rw [hinstant, hinstant]
  omega

theorem ofDate_lt_iff (a b : Date) : Moment.ofDate a < Moment.ofDate b ↔ a < b := by
  have hle := ofDate_le_iff b a
  exact ⟨fun h => Int.not_le.mp fun hba => Int.not_le.mpr h (hle.mpr hba),
    fun h => Int.not_le.mp fun hba => Int.not_le.mpr h (hle.mp hba)⟩

theorem isAbove_ofDate_iff (start : Option Date) (d : Date) :
    Timeline.isAbove .low (start.map .ofDate) (.ofDate d) = true ↔ ∀ first ∈ start, first ≤ d := by
  cases start with
  | none => simp [Timeline.isAbove]
  | some first => simp [Timeline.isAbove, Inclusivity.hasLow, ofDate_le_iff]

theorem isBelow_ofDate_iff (stop : Option Date) (d : Date) :
    Timeline.isBelow .low (stop.map .ofDate) (.ofDate d) = true ↔ ∀ last ∈ stop, d < last := by
  cases stop with
  | none => simp [Timeline.isBelow]
  | some last => simp [Timeline.isBelow, Inclusivity.hasHigh, ofDate_lt_iff]

theorem selected_eq {s : Store} (h : s.Orderly) :
    s.selected = s.transactions.values.filter (s.options.Covers ·.date) := by
  rw [selected, Options.bounds, Timeline.values, List.filter_map]
  dsimp only
  rw [Timeline.range_eq_filter]
  congr 1
  refine List.filter_congr fun e he => ?_
  rw [h.filed e he, Transaction.moment, Bool.eq_iff_iff, Bool.and_eq_true, isAbove_ofDate_iff,
    isBelow_ofDate_iff]
  exact decide_eq_true_iff.symm

theorem houses_of_mem_selected {s : Store} (h : s.Orderly) {e : String × Commodity}
    (he : e ∈ s.selected.flatMap Transaction.entries) : s.Houses e.1 := by
  obtain ⟨t, ht, he⟩ := List.mem_flatMap.mp he
  obtain ⟨x, hx, hentry⟩ := List.mem_filterMap.mp he
  rw [selected_eq h] at ht
  obtain ⟨name, hname, hhouses⟩ := h.housed t ((List.mem_filter.mp ht).1) x hx
  rw [Posting.brought?, hname] at hentry
  split at hentry
  · rename_i n c haccount _
    obtain rfl := AccountRef.named.inj haccount
    obtain rfl := Option.some.inj hentry
    exact hhouses
  · simp at hentry

end Store

namespace Filling

variable {σ τ : Type} {r : Reporter τ}

theorem posts_secondPass {p q : Progress τ} {u : Unit} (h : Leads (secondPass r) p u q)
    (hp : p.store.Orderly) :
    Store.Posts { p.store with stage := .posted }
      (fun n => countsOn n (p.store.selected.flatMap Transaction.entries)) q.store := by
  rw [secondPass, leads_bind] at h
  obtain ⟨_, m, hexpect, h⟩ := h
  obtain ⟨-, rfl⟩ := leads_expect.mp hexpect
  rw [leads_bind] at h
  obtain ⟨_, m, hstage, h⟩ := h
  obtain rfl := leads_update.mp hstage
  rw [leads_store_bind] at h
  have hposted : Store.Orderly { p.store with stage := .posted } :=
    ⟨hp.filed, hp.housed, hp.unposted⟩
  refine posts_postAll (fun e he => ?_) h
  exact Store.houses_of_mem_selected hposted he

/-- A second pass leaves on each account the sums of the amounts within it, of the days that the
options cover. It adds no account, takes none away, and changes nothing else of any. -/
theorem secondPass_conserves {r₁ : Reporter σ} {ds : List (Spanned Directive)} {options : Options}
    {state : σ} {state' : τ} {p : Progress σ} {q : Progress τ}
    (hfirst : runOn (firstPass r₁ ds) (.empty options) state = (.ok (), p))
    (hsecond : runOn (secondPass r) p.store state' = (.ok (), q)) :
    (∀ name, q.store.accounts.find? name = (p.store.accounts.find? name).map fun a =>
      { a with turnover := q.store.turnover name }) ∧
    ∀ root n, ExactRange (named n (p.store.amountsWithin root)) →
      (q.store.turnover root).Totals n (named n (p.store.amountsWithin root)) := by
  have horderly := orderly_of_firstPass hfirst
  have hrun : Leads (secondPass r) ⟨p.store, [], state'⟩ () q := hsecond
  have hposts := posts_secondPass hrun horderly
  refine ⟨fun name => ?_, fun root n hexact => ?_⟩
  · cases hfind : p.store.accounts.find? name with
    | none => exact hposts.missing name hfind
    | some a =>
      obtain ⟨t, -, hfind'⟩ := hposts.posted name a hfind
      simp [Store.turnover, hfind']
  · have hselected := Store.selected_eq horderly
    cases hfind : p.store.accounts.find? root with
    | none =>
      have hnone : p.store.amountsWithin root = [] := by
        rw [Store.amountsWithin, ← hselected, countsOn, List.map_eq_nil_iff, List.filter_eq_nil_iff]
        intro e he hwithin
        have hthere := Store.houses_of_mem_selected horderly he root
          (AccountName.mem_path_iff.mpr hwithin)
        simp [hfind] at hthere
      have hempty : q.store.turnover root = .empty := by
        rw [Store.turnover, hposts.missing root hfind]
        rfl
      rw [hnone, hempty]
      exact Turnover.totals_empty n
    | some a =>
      obtain ⟨t, ht, hfind'⟩ := hposts.posted root a hfind
      have hturnover : q.store.turnover root = t := by
        rw [Store.turnover, hfind']
        rfl
      rw [horderly.unposted root a hfind, hselected] at ht
      rw [hturnover]
      exact Turnover.totals_of_foldlM_post ht hexact

/-- Both postings of a transaction count on the account above them. -/
theorem secondPass_conserves_single :
    let ds := single [.ofAmount "Assets:Bank" (.plain "USD" .one), .tally "Assets:Cash"]
    let p := (runOn (firstPass (.silent Unit) ds) (.empty .default) ()).2
    let q := (runOn (secondPass (.silent Unit)) p.store ()).2
    (p.store.amountsWithin "Assets").length = 2 ∧
      (q.store.turnover "Assets").Totals "USD" (named "USD" (p.store.amountsWithin "Assets")) := by
  intro ds p q
  have hfirst : runOn (firstPass (.silent Unit) ds) (.empty .default) () = (.ok (), p) :=
    runOn_eq_ok (by decide +kernel)
  have hsecond : runOn (secondPass (.silent Unit)) p.store () = (.ok (), q) :=
    runOn_eq_ok (by decide +kernel)
  have hexact : ExactRange (named "USD" (p.store.amountsWithin "Assets")) := by decide +kernel
  exact ⟨by decide +kernel, (secondPass_conserves hfirst hsecond).2 "Assets" "USD" hexact⟩

end Filling

end Daybook
