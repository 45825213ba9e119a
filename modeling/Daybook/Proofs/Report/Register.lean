import Daybook.Proofs.Commodity.Parts
import Daybook.Proofs.Store.Refusals
import Daybook.Proofs.Store.Trace
import Daybook.Report.Register

/-!
# The register and the balances

The register sums up the postings that it shows one by one; an account is given all that counts on
it. Both take in the same amounts in the same order, so that the running total in the last row of a
commodity is what the account above all shown postings holds of it (`register_running_eq_balance`).
-/

namespace Daybook

open AccountName (isWithin)
open Commodity (named Agree ExactRange)
open Reporting (Secures)

namespace Store

theorem countsOn_covered_eq_nil {s : Store} (h : s.Orderly) {root : String}
    (hroot : s.accounts.find? root = none) : countsOn root s.covered = [] := by
  rw [countsOn, List.map_eq_nil_iff, List.filter_eq_nil_iff]
  intro e he hwithin
  have hselected : e ∈ s.selected.flatMap Transaction.entries := by
    rw [selected_eq h]
    exact he
  have hthere := houses_of_mem_selected h hselected root (AccountName.mem_path_iff.mpr hwithin)
  rw [hroot] at hthere
  cases hthere

theorem sums?_countsOn_covered {s s' : Store} (horderly : s.Orderly)
    (h : Posts { s with stage := .posted } (fun n => countsOn n s.covered) s') (root : String) :
    Turnover.sums? (countsOn root s.covered) = .ok (s'.turnover root).balances := by
  cases hfind : s.accounts.find? root with
  | none =>
    have hmissing : s'.turnover root = .empty := by
      rw [turnover, h.missing root hfind]
      rfl
    rw [countsOn_covered_eq_nil horderly hfind, hmissing]
    rfl
  | some a =>
    obtain ⟨t, ht, hfind'⟩ := h.posted root a hfind
    rw [horderly.unposted root a hfind] at ht
    have hthere : s'.turnover root = t := by
      rw [turnover, hfind']
      rfl
    rw [hthere]
    exact (Turnover.sums_of_foldlM_post ht).1

theorem not_refuses_of_exactRange {s : Store} (hunposted : s.Unposted)
    {entries : List (String × Commodity)} (hagree : Agree (entries.map (·.2)))
    (hexact : ∀ n, ExactRange (named n (entries.map (·.2)))) (e : AmountError) :
    ¬s.Refuses entries e := by
  rintro ⟨before, entry, after, rfl, name, a, t, ha, hwithin, ht, hrefused⟩
  rw [hunposted name a ha] at ht
  have hsub : (countsOn name before ++ [entry.2]).Sublist
      ((before ++ entry :: after).map (·.2)) := by
    rw [List.map_append]
    apply List.Sublist.append
    · exact List.filter_sublist.map _
    · exact List.cons_sublist_cons.mpr (List.nil_sublist _)
  obtain ⟨t', ht'⟩ := Turnover.exists_foldlM_post (hagree.sublist hsub) fun n =>
    (hexact n).sublist (hsub.filter _)
  rw [List.foldlM_append, ht] at ht'
  have hlast : [entry.2].foldlM Turnover.post t = .ok t' := ht'
  rw [List.foldlM_cons, hrefused] at hlast
  cases hlast

end Store

def Posting.shown? (selection : Selection) (x : Posting) : Option (String × Commodity) :=
  x.brought?.filter fun e => selection.selects e.1

namespace Report

def shownEntries (selection : Selection) (entries : List (String × Commodity)) :
    List (String × Commodity) :=
  entries.filter fun e => selection.selects e.1

theorem shownEntries_toList (selection : Selection) (entry : Option (String × Commodity)) :
    shownEntries selection entry.toList =
      (entry.filter fun e => selection.selects e.1).toList := by
  cases entry with
  | none => rfl
  | some e =>
    rw [shownEntries, Option.toList_some, Option.filter_some]
    cases h : selection.selects e.1 <;> simp [h]

theorem shownEntries_append (selection : Selection) (xs ys : List (String × Commodity)) :
    shownEntries selection (xs ++ ys) = shownEntries selection xs ++ shownEntries selection ys :=
  List.filter_append xs ys

def lastRunning? (n : String) (rows : List RegisterRow) : Option Commodity :=
  (rows.filter (·.amount.name = n)).getLast?.map (·.running)

theorem lastRunning?_append (n : String) (xs ys : List RegisterRow) :
    lastRunning? n (xs ++ ys) = (lastRunning? n ys).or (lastRunning? n xs) := by
  rw [lastRunning?, List.filter_append, List.getLast?_append, lastRunning?, lastRunning?]
  cases (ys.filter (·.amount.name = n)).getLast? <;> simp

theorem lastRunning?_singleton (n : String) (row : RegisterRow) :
    lastRunning? n [row] = if row.amount.name = n then some row.running else none := by
  by_cases h : row.amount.name = n <;> simp [lastRunning?, h]

theorem RegisterRow.text_congr {s s' : Store} (h : s'.samples = s.samples) (row : RegisterRow) :
    row.text s' = row.text s := by
  unfold RegisterRow.text amountCell amountText
  rw [h]

/-- From `g` to `g'` the register has taken in the entries, a row for each; the rows are those that
are written by the samples of `s`. -/
structure Enters (s : Store) (g : Register) (entries : List (String × Commodity))
    (rows : List RegisterRow) (g' : Register) : Prop where
  lines : g'.lines = (rows.map (RegisterRow.text s)).reverse ++ g.lines
  entered : rows.map (fun row => (row.account, row.amount)) = entries
  totals : (entries.map (·.2)).foldlM Turnover.accumulate g.totals.sums = .ok g'.totals.sums
  running : ∀ n, (lastRunning? n rows).or (g.totals.find? n) = g'.totals.find? n

namespace Enters

variable {s : Store} {g g' g'' : Register} {xs ys : List (String × Commodity)}
  {rows rows' : List RegisterRow}

theorem refl (s : Store) (g : Register) (h : g'.lines = g.lines) (h' : g'.totals = g.totals) :
    Enters s g [] [] g' :=
  ⟨h, rfl, by rw [h']; rfl, fun n => by rw [h']; rfl⟩

theorem trans (h : Enters s g xs rows g') (h' : Enters s g' ys rows' g'') :
    Enters s g (xs ++ ys) (rows ++ rows') g'' := by
  refine ⟨?_, ?_, ?_, fun n => ?_⟩
  · rw [h'.lines, h.lines, List.map_append, List.reverse_append, List.append_assoc]
  · rw [List.map_append, h.entered, h'.entered]
  · rw [List.map_append, List.foldlM_append, h.totals]
    exact h'.totals
  · rw [lastRunning?_append, Option.or_assoc, h.running, h'.running]

end Enters

/-- Entering a posting puts a row on top, with the new total of its commodity. -/
theorem Register.enter_eq_ok {m : Store} {g g' : Register} {t : Transaction} {x : Posting}
    {account : String} {c : Commodity} (h : g.enter m t x account c = .ok g') :
    ∃ sum, Turnover.accumulate g.totals.sums c = .ok (g.totals.sums.insert c.name sum) ∧
      g' = ⟨true, ⟨g.totals.sums.insert c.name sum⟩, RegisterRow.text m
        ⟨if g.underway then none else some (t.date, x.payee t), account, c, sum⟩ :: g.lines⟩ := by
  rw [Register.enter, Result.bind_eq_ok_iff] at h
  obtain ⟨totals, htotals, h⟩ := h
  obtain rfl := Except.ok.inj h
  have hsums : Turnover.accumulate g.totals.sums c = .ok totals.sums := by
    rw [Totals.add_eq, Result.map_eq_ok_iff] at htotals
    obtain ⟨sums, hsums, rfl⟩ := htotals
    exact hsums
  rw [Totals.add, Result.bind_eq_ok_iff] at htotals
  obtain ⟨sum, -, htotals⟩ := htotals
  obtain rfl := Except.ok.inj htotals
  refine ⟨sum, hsums, ?_⟩
  rw [Totals.find?, NameMap.find?_insert_self, Option.getD_some]

theorem enters_of_enter {s m : Store} {g g' : Register} {t : Transaction} {x : Posting}
    {account : String} {c : Commodity} (hm : m.samples = s.samples)
    (h : g.enter m t x account c = .ok g') :
    ∃ row, Enters s g [(account, c)] [row] g' := by
  obtain ⟨sum, hsums, rfl⟩ := Register.enter_eq_ok h
  let row : RegisterRow :=
    ⟨if g.underway then none else some (t.date, x.payee t), account, c, sum⟩
  refine ⟨row, ?_, rfl, ?_, fun n => ?_⟩
  · exact congrArg (· :: g.lines) (row.text_congr hm)
  · show [c].foldlM Turnover.accumulate g.totals.sums = _
    rw [List.foldlM_cons, hsums]
    rfl
  · have hname : row.amount.name = c.name := rfl
    dsimp only
    rw [lastRunning?_singleton, hname, Totals.find?, Totals.find?, NameMap.find?_insert]
    by_cases hn : c.name = n <;> simp [hn, row]

/-- The register passes over what is not selected. -/
theorem posted_register (selection : Selection) (m : Store) (t : Transaction) (x : Posting) :
    (register selection).posted m t x = match x.brought? with
      | some (account, c) =>
        if selection.selects account then do
          match (← get).enter m t x account c with
          | .ok g => set g
          | .error e => throw (failure e)
        else return ()
      | none => return () := by
  rw [register, Posting.brought?]
  dsimp only
  cases x.account <;> cases x.amount <;> rfl

/-- The answer to a posting. -/
theorem run_posted_register (selection : Selection) (m : Store) (t : Transaction) (x : Posting)
    (g : Register) : ((register selection).posted m t x).run.run g =
      match x.shown? selection with
      | some (account, c) => match g.enter m t x account c with
        | .ok g' => (.ok (), g')
        | .error e => (.error (failure e), g)
      | none => (.ok (), g) := by
  have hget : (get : Reporting Register Register).run.run g = (.ok g, g) := rfl
  rw [posted_register, Posting.shown?]
  cases x.brought? with
  | none => rfl
  | some entry =>
    obtain ⟨account, c⟩ := entry
    dsimp only
    by_cases hselects : selection.selects account = true
    · have hshown : (some (account, c)).filter (fun e => selection.selects e.1) =
          some (account, c) := if_pos hselects
      rw [if_pos hselects, Reporting.run_bind, hget, hshown]
      dsimp only
      cases g.enter m t x account c <;> rfl
    · have hshown : (some (account, c)).filter (fun e => selection.selects e.1) = none :=
        if_neg hselects
      rw [if_neg hselects, hshown]
      rfl

theorem enters_of_tell {selection : Selection} {s : Store} {e : Event} {g g' : Register}
    (hstore : e.store.samples = s.samples)
    (h : ((register selection).tell e).run.run g = (.ok (), g')) :
    ∃ rows, Enters s g (shownEntries selection (visited [e])) rows g' := by
  cases e with
  | carried m t x a =>
    obtain rfl := (Prod.mk.inj h).2
    exact ⟨[], .refl s g rfl rfl⟩
  | closed m t =>
    obtain rfl := (Prod.mk.inj h).2
    exact ⟨[], .refl s g rfl rfl⟩
  | posted m t x =>
    have hvisited : shownEntries selection (visited [.posted m t x]) =
        (x.shown? selection).toList := by
      rw [Posting.shown?, ← shownEntries_toList]
      exact congrArg (shownEntries selection) (List.append_nil _)
    rw [Reporter.tell, run_posted_register] at h
    rw [hvisited]
    cases hshown : x.shown? selection with
    | none =>
      rw [hshown] at h
      obtain rfl := (Prod.mk.inj h).2
      exact ⟨[], .refl s g rfl rfl⟩
    | some entry =>
      obtain ⟨account, c⟩ := entry
      rw [hshown] at h
      dsimp only at h
      cases henter : g.enter m t x account c with
      | error err =>
        rw [henter] at h
        cases (Prod.mk.inj h).1
      | ok g'' =>
        rw [henter] at h
        obtain rfl := (Prod.mk.inj h).2
        obtain ⟨row, hrow⟩ := enters_of_enter hstore henter
        exact ⟨[row], hrow⟩

theorem enters_of_forM {selection : Selection} {s : Store} {events : List Event} {g g' : Register}
    (hstores : ∀ e ∈ events, e.store.samples = s.samples)
    (h : (forM events (register selection).tell).run.run g = (.ok (), g')) :
    ∃ rows, Enters s g (shownEntries selection (visited events)) rows g' := by
  induction events generalizing g with
  | nil =>
    obtain rfl := (Prod.mk.inj h).2
    exact ⟨[], .refl s g rfl rfl⟩
  | cons e events ih =>
    rw [List.forM_cons, Reporting.run_bind] at h
    rcases htell : ((register selection).tell e).run.run g with ⟨err | u, m⟩
    · rw [htell] at h
      cases (Prod.mk.inj h).1
    · rw [htell] at h
      obtain ⟨rows, hrows⟩ := enters_of_tell (hstores e List.mem_cons_self) htell
      obtain ⟨rows', hrows'⟩ := ih (fun x hx => hstores x (List.mem_cons_of_mem e hx)) h
      have hsplit : visited (e :: events) = visited [e] ++ visited events := by
        rw [← visited_append, List.singleton_append]
      rw [hsplit, shownEntries_append]
      exact ⟨rows ++ rows', hrows.trans hrows'⟩

/-! ## The register does not fail -/

/-- The register has summed up the selected ones of the entries so far. -/
def SumsUp (selection : Selection) (done : List (String × Commodity)) (g : Register) : Prop :=
  Turnover.sums? ((shownEntries selection done).map (·.2)) = .ok g.totals.sums

/-- An amount that has a sum with those so far can be entered. -/
theorem SumsUp.enter {selection : Selection} {done : List (String × Commodity)} {g : Register}
    (h : SumsUp selection done g) {account : String} (hselects : selection.selects account = true)
    {c : Commodity} {sums : NameMap Commodity}
    (hsums : Turnover.sums? ((shownEntries selection (done ++ [(account, c)])).map (·.2)) =
      .ok sums) (s : Store) (t : Transaction) (x : Posting) :
    ∃ g', g.enter s t x account c = .ok g' ∧ SumsUp selection (done ++ [(account, c)]) g' := by
  have hlast : shownEntries selection [(account, c)] = [(account, c)] :=
    List.filter_cons_of_pos hselects
  have hadd : Turnover.accumulate g.totals.sums c = .ok sums := by
    rw [shownEntries_append, hlast, List.map_append, Turnover.sums?, List.foldlM_append] at hsums
    obtain ⟨before, hbefore, hc⟩ := Result.bind_eq_ok_iff.mp hsums
    obtain rfl := Except.ok.inj (hbefore.symm.trans h)
    rw [List.map_singleton, List.foldlM_cons] at hc
    obtain ⟨after, hafter, hend⟩ := Result.bind_eq_ok_iff.mp hc
    exact (Except.ok.inj hend) ▸ hafter
  have htotals : g.totals.add c = .ok ⟨sums⟩ := by
    rw [Totals.add_eq, hadd]
    rfl
  have henter : ∃ lines, g.enter s t x account c = .ok ⟨true, ⟨sums⟩, lines⟩ := by
    rw [Register.enter, htotals]
    exact ⟨_, rfl⟩
  obtain ⟨lines, henter⟩ := henter
  exact ⟨_, henter, hsums⟩

theorem watches_of_exactRange (selection : Selection) {entries : List (String × Commodity)}
    (hagree : Agree (entries.map (·.2))) (hexact : ∀ n, ExactRange (named n (entries.map (·.2)))) :
    (register selection).Watches entries (SumsUp selection) fun _ => False := by
  refine ⟨fun m t x entry done hbrought hbegins => ?_, fun _ _ _ _ _ _ h => h, fun _ _ _ _ h => h⟩
  obtain ⟨account, c⟩ := entry
  rw [posted_register, hbrought]
  dsimp only
  by_cases hselects : selection.selects account = true
  · have hsub : ((shownEntries selection (done ++ [(account, c)])).map (·.2)).Sublist
        (entries.map (·.2)) := (List.filter_sublist.trans hbegins.sublist).map _
    obtain ⟨sums, hsums⟩ := Turnover.exists_sums? (hagree.sublist hsub) fun n =>
      ((hexact n).sublist (hsub.filter _)).exactSums
    rw [if_pos hselects]
    refine Reporting.secures_get.bind fun g => ?_
    rintro _ ⟨hg, rfl⟩
    obtain ⟨g', henter, hsumsUp⟩ := hg.enter hselects hsums m t x
    rw [henter]
    exact hsumsUp
  · have hlast : shownEntries selection [(account, c)] = [] := List.filter_cons_of_neg hselects
    have hshown :
        shownEntries selection (done ++ [(account, c)]) = shownEntries selection done := by
      rw [shownEntries_append, hlast, List.append_nil]
    rw [if_neg hselects]
    intro g hg
    show Turnover.sums? _ = _
    rw [hshown]
    exact hg

/-- The second pass with a register runs to its end. -/
theorem exists_secondPass_register {s : Store} (horderly : s.Orderly)
    (hstage : s.stage = .admitted) (selection : Selection)
    (hagree : Agree (s.covered.map (·.2)))
    (hexact : ∀ n, ExactRange (named n (s.covered.map (·.2)))) :
    ∃ q, Filling.Leads (Filling.secondPass (register selection)) ⟨s, [], .empty⟩ () q := by
  have hwatch := watches_of_exactRange selection hagree hexact
  have hrun := (Filling.secures_secondPass horderly hstage hwatch).mono (fun _ h => h)
    (fun _ _ _ => trivial) (F := fun _ => False) ?_
  · obtain ⟨_, q, hq, -⟩ := hrun.eq_ok (p := ⟨s, [], .empty⟩) ⟨rfl, rfl⟩
    exact ⟨q, hq⟩
  · rintro e (⟨x, -, hrefuses⟩ | hnever)
    · exact Store.not_refuses_of_exactRange horderly.unposted hagree hexact x hrefuses
    · exact hnever

/-! ## What the register ends with -/

open Filling

variable {σ : Type} {r : Reporter σ} {ds : List (Spanned Directive)} {options : Options} {state : σ}
  {p : Progress σ}

/-- A register of the accounts within one account shows the postings that count on it; the running
total in its last row of a commodity is what the account holds of it after the second pass, and
there is such a row exactly if the account holds some. -/
theorem register_running_eq_balance
    (hfirst : runOn (firstPass r ds) (.empty options) state = (.ok (), p)) {root : String}
    {selection : Selection}
    (hselects : ∀ name, (p.store.accounts.find? name).isSome = true →
      selection.selects name = isWithin name root)
    (hagree : Agree (p.store.covered.map (·.2)))
    (hexact : ∀ n, ExactRange (named n (p.store.covered.map (·.2)))) :
    ∃ (q : Progress Register) (rows : List RegisterRow),
      runOn (secondPass (register selection)) p.store .empty = (.ok (), q) ∧
      q.report.lines = (rows.map (RegisterRow.text q.store)).reverse ∧
      rows.map (fun row => (row.account, row.amount)) =
        p.store.covered.filter (isWithin ·.1 root) ∧
      ∀ n, (rows.filter (·.amount.name = n)).getLast?.map (·.running) =
        (q.store.turnover root).balances.find? n := by
  have horderly := orderly_of_firstPass hfirst
  have hnamed : p.store.Each fun n a => a.name = n :=
    each_of_firstPass Store.lasting_named hfirst
  obtain ⟨q, hsecond⟩ := exists_secondPass_register horderly (stage_of_firstPass hfirst) selection
    hagree hexact
  obtain ⟨events, hcalls, htold, hposts⟩ := told_of_secondPass hsecond horderly hnamed
  have hcovered : p.store.selected.flatMap Transaction.entries = p.store.covered := by
    rw [Store.covered, Store.selected_eq horderly]
  have hvisited : visited events = p.store.covered := (visited_of_calls hcalls).trans hcovered
  rw [hvisited] at hposts
  have hsamples : ∀ {m : Store} {f : String → List Commodity},
      Store.Posts { p.store with stage := .posted } f m → m.samples = p.store.samples := by
    intro m f hm
    rw [hm.rest]
  have hstores : ∀ e ∈ events, e.store.samples = q.store.samples := by
    intro e he
    obtain ⟨before, after, hsplit⟩ := List.append_of_mem he
    exact (hsamples (htold.follows before e after hsplit).posts).trans (hsamples hposts).symm
  obtain ⟨rows, hrows⟩ := enters_of_forM hstores htold.run
  have hshown : shownEntries selection (visited events) =
      p.store.covered.filter (isWithin ·.1 root) := by
    rw [hvisited]
    refine List.filter_congr fun e he => hselects e.1 ?_
    rw [← hcovered] at he
    exact Store.houses_of_mem_selected horderly he e.1 List.mem_cons_self
  rw [hshown] at hrows
  have hbalances : q.report.totals.sums = (q.store.turnover root).balances :=
    Except.ok.inj (hrows.totals.symm.trans (Store.sums?_countsOn_covered horderly hposts root))
  refine ⟨q, rows, hsecond, hrows.lines.trans (List.append_nil _), hrows.entered, fun n => ?_⟩
  have hrunning := hrows.running n
  rw [Totals.find?, Totals.find?, hbalances] at hrunning
  exact Option.or_none.symm.trans hrunning

/-- Of two postings the register shows the one beneath the account. -/
theorem register_running_eq_balance_assets :
    let ds := single [.ofAmount "Assets:Bank" (.plain "USD" .one), .tally "Income"]
    let p := (runOn (firstPass (.silent Unit) ds) (.empty .default) ()).2
    let selection : Selection := Filter.ofTerm? "^Assets".toList
    p.store.covered.length = 2 ∧ ∃ (q : Progress Register) (rows : List RegisterRow),
      runOn (secondPass (register selection)) p.store .empty = (.ok (), q) ∧ rows.length = 1 ∧
      (rows.filter (·.amount.name = "USD")).getLast?.map (·.running) =
        (q.store.turnover "Assets").balances.find? "USD" := by
  intro ds p selection
  have hfirst : runOn (firstPass (.silent Unit) ds) (.empty .default) () = (.ok (), p) :=
    runOn_eq_ok (by decide +kernel)
  have hnames : ∀ name ∈ p.store.accounts.names,
      selection.selects name = isWithin name "Assets" := by decide +kernel
  have hselects : ∀ name, (p.store.accounts.find? name).isSome = true →
      selection.selects name = isWithin name "Assets" := by
    intro name hname
    obtain ⟨a, ha⟩ := Option.isSome_iff_exists.mp hname
    exact hnames name (List.mem_map_of_mem (NameMap.mem_entries_iff.mpr ha))
  have hwritten : ∀ c ∈ p.store.covered.map (·.2), c.currency = false := by decide +kernel
  have hagree : Agree (p.store.covered.map (·.2)) := by
    intro a ha b hb _
    rw [hwritten a ha, hwritten b hb]
  have hall : ExactRange (p.store.covered.map (·.2)) := by decide +kernel
  obtain ⟨q, rows, hsecond, -, hentered, hrunning⟩ := register_running_eq_balance hfirst hselects
    hagree fun n => hall.sublist List.filter_sublist
  have hlength := congrArg List.length hentered
  rw [List.length_map] at hlength
  have hone : (p.store.covered.filter (isWithin ·.1 "Assets")).length = 1 := by decide +kernel
  exact ⟨by decide +kernel, q, rows, hsecond, hlength.trans hone, hrunning "USD"⟩

end Report

end Daybook
