import Daybook.Proofs.Report.Register

/-!
# The rows of the register

The register is told of postings and of the ends of transactions. It has come to rows with totals
that are those of all rows so far (`Lists`). Told of a posting it adds a row if the posting is
shown, and otherwise changes nothing; told of the end of a transaction it only forgets that this had
a row. So the rows of a transaction are those of its shown postings, with date and payee on the
first of them (`Transaction.rows`), whichever postings are passed over (`register_rows`).
-/

namespace Daybook

open AccountName (ancestors)
open Commodity (named sumOf valueOf total? Agree ExactRange)

/-- The postings that the register shows, each with what it brings. -/
def Report.shownPostings (selection : Selection) (xs : List Posting) :
    List (Posting × String × Commodity) :=
  xs.filterMap fun x => (x.shown? selection).map (x, ·)

/-- What stands on the rows of a transaction: of each shown posting the account and the amount, and
on the first row the date and the payee. -/
def Transaction.rows (selection : Selection) (t : Transaction) :
    List (Option (Date × String) × String × Commodity) :=
  match Report.shownPostings selection t.postings with
  | [] => []
  | (x, entry) :: rest => (some (t.date, x.payee t), entry) :: rest.map fun y => (none, y.2)

namespace Report

/-- The rows that the register has come to, each with the total of its commodity so far. -/
structure Lists (s : Store) (rows : List RegisterRow) (g : Register) : Prop where
  lines : g.lines = (rows.map (RegisterRow.text s)).reverse
  totals : Turnover.sums? (rows.map (·.amount)) = .ok g.totals.sums
  running : ∀ before row after, rows = before ++ row :: after →
    total? (named row.amount.name ((before ++ [row]).map (·.amount))) = .ok (some row.running)

def RegisterRow.entry (row : RegisterRow) : Option (Date × String) × String × Commodity :=
  (row.heading, row.account, row.amount)

theorem lists_empty (s : Store) : Lists s [] .empty :=
  ⟨rfl, rfl, fun before row after h => by simp at h⟩

/-- The rows of shown postings of a transaction, which may have a row already. -/
def headed (t : Transaction) (underway : Bool) :
    List (Posting × String × Commodity) → List (Option (Date × String) × String × Commodity)
  | [] => []
  | (x, entry) :: rest =>
    (if underway then none else some (t.date, x.payee t), entry) :: headed t true rest

theorem headed_append (t : Transaction) (underway : Bool)
    (xs ys : List (Posting × String × Commodity)) :
    headed t underway (xs ++ ys) =
      headed t underway xs ++ headed t (underway || !xs.isEmpty) ys := by
  induction xs generalizing underway with
  | nil => simp [headed]
  | cons x xs ih => simp [headed, ih]

theorem headed_true (t : Transaction) (xs : List (Posting × String × Commodity)) :
    headed t true xs = xs.map fun y => (none, y.2) := by
  induction xs with
  | nil => rfl
  | cons x xs ih =>
    rw [headed, ih]
    rfl

theorem headed_false (t : Transaction) (selection : Selection) :
    headed t false (shownPostings selection t.postings) = t.rows selection := by
  rw [Transaction.rows]
  cases shownPostings selection t.postings with
  | nil => rfl
  | cons x xs =>
    rw [headed, headed_true]
    rfl

/-- From `g` to `g'` rows have been added for shown postings of a transaction. -/
def Adds (s : Store) (t : Transaction) (shown : List (Posting × String × Commodity))
    (g g' : Register) : Prop :=
  (g'.underway = (g.underway || !shown.isEmpty)) ∧
    ∀ rows, Lists s rows g → ∃ more, more.map RegisterRow.entry = headed t g.underway shown ∧
      Lists s (rows ++ more) g'

variable {selection : Selection} {s : Store} {g g' : Register} {t : Transaction}
  {events : List Event}

theorem Adds.refl (s : Store) (t : Transaction) (g : Register) : Adds s t [] g g :=
  ⟨by simp, fun rows h => ⟨[], rfl, by rwa [List.append_nil]⟩⟩

theorem Adds.trans {g'' : Register} {xs ys : List (Posting × String × Commodity)}
    (h : Adds s t xs g g') (h' : Adds s t ys g' g'') : Adds s t (xs ++ ys) g g'' := by
  obtain ⟨hunderway, hadds⟩ := h
  obtain ⟨hunderway', hadds'⟩ := h'
  refine ⟨?_, fun rows hrows => ?_⟩
  · rw [hunderway', hunderway]
    cases xs <;> simp
  · obtain ⟨more, hmore, hlists⟩ := hadds rows hrows
    obtain ⟨more', hmore', hlists'⟩ := hadds' _ hlists
    refine ⟨more ++ more', ?_, by rwa [← List.append_assoc]⟩
    rw [List.map_append, hmore, hmore', hunderway, headed_append]

theorem adds_of_enter {m : Store} {x : Posting} {account : String} {c : Commodity}
    (hm : m.samples = s.samples) (h : g.enter m t x account c = .ok g') :
    Adds s t [(x, account, c)] g g' := by
  obtain ⟨sum, hsums, rfl⟩ := Register.enter_eq_ok h
  refine ⟨by simp, fun rows hrows => ?_⟩
  let row : RegisterRow :=
    ⟨if g.underway then none else some (t.date, x.payee t), account, c, sum⟩
  have htotals : Turnover.sums? ((rows ++ [row]).map (·.amount)) =
      .ok (g.totals.sums.insert c.name sum) := by
    rw [Turnover.sums?, List.map_append, List.foldlM_append]
    refine Result.bind_eq_ok_iff.mpr ⟨g.totals.sums, hrows.totals, ?_⟩
    rw [List.map_singleton, List.foldlM_cons, hsums]
    rfl
  refine ⟨[row], rfl, ?_, htotals, fun before row' after hsplit => ?_⟩
  · rw [List.map_append, List.map_singleton, List.reverse_append, List.reverse_singleton,
      List.singleton_append, ← hrows.lines, row.text_congr hm]
  · rcases List.eq_nil_or_concat after with rfl | ⟨after, last, rfl⟩
    · obtain ⟨rfl, hrow⟩ := List.append_inj' hsplit rfl
      obtain ⟨rfl, -⟩ := List.cons.inj hrow
      rw [Turnover.find?_of_sums? htotals]
      exact congrArg Except.ok (NameMap.find?_insert_self g.totals.sums c.name sum)
    · rw [List.concat_eq_append, ← List.cons_append, ← List.append_assoc] at hsplit
      exact hrows.running before row' after (List.append_inj' hsplit rfl).1

/-! ## A run over events -/

theorem run_forM_append_eq_ok {σ α : Type} {f : α → Reporting σ Unit} {xs ys : List α} {g g' : σ} :
    (forM (xs ++ ys) f).run.run g = (.ok (), g') ↔
      ∃ m, (forM xs f).run.run g = (.ok (), m) ∧ (forM ys f).run.run m = (.ok (), g') := by
  rw [List.forM_append, Reporting.run_bind]
  rcases hrun : (forM xs f).run.run g with ⟨e | u, m⟩
  · refine iff_of_false (fun h => ?_) fun ⟨_, h, _⟩ => ?_
    · cases (Prod.mk.inj h).1
    · cases (Prod.mk.inj h).1
  · constructor
    · exact fun h => ⟨m, rfl, h⟩
    · rintro ⟨_, hm, h⟩
      obtain rfl := (Prod.mk.inj hm).2
      exact h

theorem eq_of_tell_carried {x : Posting} {names : List String}
    (hcalls : events.map Event.call = names.map (.carried t x))
    (h : (forM events (register selection).tell).run.run g = (.ok (), g')) : g' = g := by
  induction events generalizing names g with
  | nil => exact (Prod.mk.inj h).2.symm
  | cons e events ih =>
    cases names with
    | nil => cases hcalls
    | cons name names =>
      obtain ⟨hcall, hothers⟩ := List.cons.inj hcalls
      cases e with
      | posted => cases hcall
      | closed => cases hcall
      | carried => exact ih hothers h

theorem adds_of_tell_posting {x : Posting} (hcalls : events.map Event.call = x.calls t)
    (hstores : ∀ e ∈ events, e.store.samples = s.samples)
    (h : (forM events (register selection).tell).run.run g = (.ok (), g')) :
    Adds s t ((x.shown? selection).map (x, ·)).toList g g' := by
  rw [Posting.calls] at hcalls
  cases hbrought : x.brought? with
  | none =>
    rw [hbrought, List.map_eq_nil_iff] at hcalls
    subst hcalls
    obtain rfl := (Prod.mk.inj h).2
    rw [Posting.shown?, hbrought]
    exact .refl s t g
  | some entry =>
    rw [hbrought] at hcalls
    cases events with
    | nil => cases hcalls
    | cons e events =>
      obtain ⟨hcall, hcarried⟩ := List.cons.inj hcalls
      cases e with
      | carried => cases hcall
      | closed => cases hcall
      | posted m =>
        obtain ⟨rfl, rfl⟩ := Call.posted.inj hcall
        rw [List.forM_cons, Reporting.run_bind, Reporter.tell, run_posted_register] at h
        cases hshown : Posting.shown? selection _ with
        | none =>
          rw [hshown] at h
          obtain rfl := eq_of_tell_carried hcarried h
          exact .refl s _ g'
        | some entry =>
          obtain ⟨account, c⟩ := entry
          rw [hshown] at h
          dsimp only at h
          cases henter : g.enter m _ _ account c with
          | error err =>
            rw [henter] at h
            cases (Prod.mk.inj h).1
          | ok m' =>
            rw [henter] at h
            obtain rfl := eq_of_tell_carried hcarried h
            exact adds_of_enter (hstores _ List.mem_cons_self) henter

theorem adds_of_tell_postings {xs : List Posting}
    (hcalls : events.map Event.call = xs.flatMap (·.calls t))
    (hstores : ∀ e ∈ events, e.store.samples = s.samples)
    (h : (forM events (register selection).tell).run.run g = (.ok (), g')) :
    Adds s t (shownPostings selection xs) g g' := by
  induction xs generalizing events g with
  | nil =>
    obtain rfl := List.map_eq_nil_iff.mp hcalls
    obtain rfl := (Prod.mk.inj h).2
    exact .refl s t g
  | cons x xs ih =>
    rw [List.flatMap_cons] at hcalls
    obtain ⟨first, rest, rfl, hfirst, hrest⟩ := List.map_eq_append_iff.mp hcalls
    obtain ⟨m, hm, h⟩ := run_forM_append_eq_ok.mp h
    have hx := adds_of_tell_posting hfirst
      (fun e he => hstores e (List.mem_append_left rest he)) hm
    have hxs := ih hrest (fun e he => hstores e (List.mem_append_right first he)) h
    have hsplit : shownPostings selection (x :: xs) =
        ((x.shown? selection).map (x, ·)).toList ++ shownPostings selection xs := by
      cases hshown : x.shown? selection <;> simp [shownPostings, hshown]
    rw [hsplit]
    exact hx.trans hxs

/-- Told of whole transactions, the register adds the rows of each, and none is underway after. -/
theorem lists_of_tell {ts : List Transaction} {rows : List RegisterRow}
    (hcalls : events.map Event.call = ts.flatMap Transaction.calls)
    (hstores : ∀ e ∈ events, e.store.samples = s.samples) (hunderway : g.underway = false)
    (hrows : Lists s rows g)
    (h : (forM events (register selection).tell).run.run g = (.ok (), g')) :
    ∃ more, more.map RegisterRow.entry = ts.flatMap (·.rows selection) ∧
      Lists s (rows ++ more) g' := by
  induction ts generalizing events g rows with
  | nil =>
    obtain rfl := List.map_eq_nil_iff.mp hcalls
    obtain rfl := (Prod.mk.inj h).2
    exact ⟨[], rfl, by rwa [List.append_nil]⟩
  | cons t ts ih =>
    rw [List.flatMap_cons, Transaction.calls, List.append_assoc] at hcalls
    obtain ⟨first, rest, rfl, hfirst, hrest⟩ := List.map_eq_append_iff.mp hcalls
    obtain ⟨m, hm, h⟩ := run_forM_append_eq_ok.mp h
    obtain ⟨-, hadds⟩ := adds_of_tell_postings hfirst
      (fun e he => hstores e (List.mem_append_left rest he)) hm
    obtain ⟨more, hmore, hlists⟩ := hadds rows hrows
    cases rest with
    | nil => cases hrest
    | cons e rest =>
      obtain ⟨hcall, hlater⟩ := List.cons.inj hrest
      cases e with
      | posted => cases hcall
      | carried => cases hcall
      | closed =>
        have hclosed : Lists s (rows ++ more) { m with underway := false } :=
          ⟨hlists.lines, hlists.totals, hlists.running⟩
        obtain ⟨others, hothers, hend⟩ := ih hlater (fun e he => hstores e
          (List.mem_append_right first (List.mem_cons_of_mem _ he))) rfl hclosed h
        refine ⟨more ++ others, ?_, by rwa [← List.append_assoc]⟩
        rw [List.map_append, hmore, hothers, hunderway, headed_false, List.flatMap_cons]

/-! ## The second pass -/

theorem map_shownPostings (selection : Selection) (xs : List Posting) :
    (shownPostings selection xs).map (·.2) =
      shownEntries selection (xs.filterMap Posting.brought?) := by
  rw [shownPostings, List.map_filterMap, shownEntries, List.filter_filterMap]
  refine congrArg (List.filterMap · xs) (funext fun x => ?_)
  rw [Posting.shown?, Option.map_map]
  exact congrFun Option.map_id _

theorem map_rows (selection : Selection) (ts : List Transaction) :
    (ts.flatMap (·.rows selection)).map (·.2) =
      shownEntries selection (ts.flatMap Transaction.entries) := by
  rw [List.map_flatMap, shownEntries, List.filter_flatMap]
  refine congrArg ts.flatMap (funext fun t => ?_)
  rw [← shownEntries, Transaction.entries, ← map_shownPostings, Transaction.rows]
  cases shownPostings selection t.postings with
  | nil => rfl
  | cons x xs =>
    rw [List.map_cons, List.map_map, List.map_cons]
    rfl

open Filling

variable {σ : Type} {r : Reporter σ} {ds : List (Spanned Directive)} {options : Options} {state : σ}
  {p : Progress σ} {q : Progress Register}

/-- A second pass that runs to its end leaves a register of the rows of all that it has posted. -/
theorem lists_of_secondPass
    (hfirst : runOn (firstPass r ds) (.empty options) state = (.ok (), p))
    (hsecond : runOn (secondPass (register selection)) p.store .empty = (.ok (), q)) :
    ∃ rows, Lists q.store rows q.report ∧ rows.map RegisterRow.entry =
      (p.store.transactions.values.filter (options.Covers ·.date)).flatMap (·.rows selection) := by
  have horderly := orderly_of_firstPass hfirst
  have hnamed : p.store.Each fun n a => a.name = n :=
    each_of_firstPass Store.lasting_named hfirst
  have hrun : Leads (secondPass (register selection)) ⟨p.store, [], .empty⟩ () q := hsecond
  obtain ⟨events, hcalls, htold, hposts⟩ := told_of_secondPass hrun horderly hnamed
  have hselected := Store.selected_eq horderly
  rw [options_of_firstPass hfirst] at hselected
  rw [hselected] at hcalls
  have hsamples : ∀ {m : Store} {f : String → List Commodity},
      Store.Posts { p.store with stage := .posted } f m → m.samples = p.store.samples := by
    intro m f hm
    rw [hm.rest]
  have hstores : ∀ e ∈ events, e.store.samples = q.store.samples := by
    intro e he
    obtain ⟨before, after, hsplit⟩ := List.append_of_mem he
    exact (hsamples (htold.follows before e after hsplit).posts).trans (hsamples hposts).symm
  obtain ⟨rows, hrows, hlists⟩ := lists_of_tell hcalls hstores rfl (lists_empty q.store) htold.run
  exact ⟨rows, hlists, hrows⟩

theorem map_entries_rows {rows : List RegisterRow}
    (hfirst : runOn (firstPass r ds) (.empty options) state = (.ok (), p))
    (hrows : rows.map RegisterRow.entry =
      (p.store.transactions.values.filter (options.Covers ·.date)).flatMap (·.rows selection)) :
    rows.map (fun row => (row.account, row.amount)) = shownEntries selection p.store.covered := by
  rw [Store.covered, options_of_firstPass hfirst, ← map_rows, ← hrows, List.map_map]
  rfl

end Report

end Daybook
