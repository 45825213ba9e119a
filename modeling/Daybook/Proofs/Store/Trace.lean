import Daybook.Proofs.Store.SecondPass
import Daybook.Proofs.Store.Success
import Daybook.Proofs.Store.Secures
import Daybook.Proofs.Timeline.Search

/-!
# What a second pass tells its reporter

A second pass is a run of its reporter over a list of events, each of which shows the store as it is
at that moment (`Told`). For each part of the pass there is one lemma: it continues a run that has
been told of the events so far by the calls that the part makes. The calls of a whole pass are those
of the covered transactions in the order of their days, and in the order of the journal on each day
(`secondPass_tells`).
-/

namespace Daybook

open AccountName (ancestors)

/-- A call that the second pass makes to its reporter. -/
inductive Call where
  | posted (t : Transaction) (x : Posting)
  | carried (t : Transaction) (x : Posting) (above : String)
  | closed (t : Transaction)
  deriving DecidableEq, Repr

/-- A call with all that the reporter is shown. -/
inductive Event where
  | posted (s : Store) (t : Transaction) (x : Posting)
  | carried (s : Store) (t : Transaction) (x : Posting) (a : Account)
  | closed (s : Store) (t : Transaction)

/-- The calls for a posting: one for its own account and one for each account above, the nearest
first. A posting that brings nothing to an account passes in silence. -/
def Posting.calls (t : Transaction) (x : Posting) : List Call :=
  match x.brought? with
  | some (name, _) => .posted t x :: (ancestors name).map (.carried t x)
  | none => []

/-- The calls for a transaction: those for its postings, and one at its end. -/
def Transaction.calls (t : Transaction) : List Call := t.postings.flatMap (·.calls t) ++ [.closed t]

namespace Event

def store : Event → Store
  | posted s _ _ | carried s _ _ _ | closed s _ => s

def call : Event → Call
  | posted _ t x => .posted t x
  | carried _ t x a => .carried t x a.name
  | closed _ t => .closed t

/-- What the posting brings that the reporter is told of. -/
def brought? : Event → Option (String × Commodity)
  | posted _ _ x | carried _ _ x _ => x.brought?
  | closed _ _ => none

/-- Whether the account that the reporter is shown is the one that the store has. -/
def ShowsAccount : Event → Prop
  | carried s _ _ a => s.accounts.find? a.name = some a
  | _ => True

end Event

/-- What the postings bring that have been visited in the course of the events. -/
def visited (events : List Event) : List (String × Commodity) :=
  events.flatMap fun
    | .posted _ _ x => x.brought?.toList
    | _ => []

theorem visited_append (xs ys : List Event) : visited (xs ++ ys) = visited xs ++ visited ys :=
  List.flatMap_append

/-- What a call is made for brings, if it is the first one for a posting. -/
def Call.entries : Call → List (String × Commodity)
  | posted _ x => x.brought?.toList
  | _ => []

theorem visited_eq_flatMap (events : List Event) :
    visited events = (events.map Event.call).flatMap Call.entries := by
  rw [List.flatMap_map]
  exact congrArg events.flatMap (funext fun e => by cases e <;> rfl)

theorem Posting.entries_calls (t : Transaction) (x : Posting) :
    (x.calls t).flatMap Call.entries = x.brought?.toList := by
  rw [Posting.calls]
  cases hbrought : x.brought? with
  | none => rfl
  | some entry =>
    dsimp only
    rw [List.flatMap_cons, List.flatMap_map, Call.entries, hbrought]
    simp [Call.entries]

theorem Transaction.entries_calls (t : Transaction) :
    t.calls.flatMap Call.entries = t.entries := by
  rw [Transaction.calls, List.flatMap_append, Transaction.entries]
  show _ ++ [] = _
  rw [List.append_nil]
  induction t.postings with
  | nil => rfl
  | cons x xs ih =>
    rw [List.flatMap_cons, List.flatMap_append, ih, x.entries_calls t]
    cases hbrought : x.brought? <;> simp [hbrought]

theorem visited_of_calls {events : List Event} {ts : List Transaction}
    (h : events.map Event.call = ts.flatMap Transaction.calls) :
    visited events = ts.flatMap Transaction.entries := by
  rw [visited_eq_flatMap, h, List.flatMap_assoc]
  exact congrArg ts.flatMap (funext Transaction.entries_calls)

def Reporter.tell {σ : Type} (r : Reporter σ) : Event → Reporting σ Unit
  | .posted s t x => r.posted s t x
  | .carried s t x a => r.carried s t x a
  | .closed s t => r.closed s t

/-- What the reporter is shown at an event after others: the accounts of `s` have been given exactly
what the postings visited so far bring, the posting of the event being the last one. -/
structure Event.Follows (s : Store) (before : List Event) (e : Event) : Prop where
  posts : Store.Posts s (fun n => countsOn n (visited (before ++ [e]))) e.store
  last : ∀ own ∈ e.brought?, [own] <:+ visited (before ++ [e])
  account : e.ShowsAccount

/-- A reporter, begun at `state`, has been told of the events in order, each of which follows those
before it, and has come to `state'`. -/
structure Told {σ : Type} (r : Reporter σ) (s : Store) (state : σ) (events : List Event)
    (state' : σ) : Prop where
  run : (forM events r.tell).run.run state = (.ok (), state')
  follows : ∀ before e after, events = before ++ e :: after → e.Follows s before

theorem Store.Posts.exists_named {s s' : Store} {f : String → List Commodity}
    (h : Store.Posts s f s') (hnamed : s.Each fun n a => a.name = n) {name : String}
    (hname : (s.accounts.find? name).isSome = true) :
    ∃ a, s'.accounts.find? name = some a ∧ a.name = name := by
  obtain ⟨b, hb⟩ := Option.isSome_iff_exists.mp hname
  obtain ⟨t, -, ht⟩ := h.posted name b hb
  exact ⟨{ b with turnover := t }, ht, hnamed name b hb⟩

variable {σ : Type} {r : Reporter σ} {s : Store} {state : σ} {events : List Event}

theorem told_nil : Told r s state [] state := ⟨rfl, fun before e after h => by simp at h⟩

section

open Filling

variable {p q : Progress σ}

theorem Told.report (h : Told r s state events p.report) (e : Event)
    {action : Store → Reporting σ Unit} {u : Unit} (haction : action p.store = r.tell e)
    (hfollows : e.Follows s events) (hrun : Leads (report action) p u q) :
    Told r s state (events ++ [e]) q.report := by
  obtain ⟨state', hstate, rfl⟩ := leads_report.mp hrun
  rw [reported, haction] at hstate
  refine ⟨?_, fun before e' after hsplit => ?_⟩
  · rw [List.forM_append, Reporting.run_bind, h.run]
    dsimp only
    rw [List.forM_cons, Reporting.run_bind, hstate]
    rfl
  · rcases List.eq_nil_or_concat after with rfl | ⟨after, x, rfl⟩
    · obtain ⟨rfl, he⟩ := List.append_inj' hsplit rfl
      obtain ⟨rfl, -⟩ := List.cons.inj he
      exact hfollows
    · rw [List.concat_eq_append, ← List.cons_append, ← List.append_assoc] at hsplit
      exact h.follows before e' after (List.append_inj' hsplit rfl).1

/-- The run has been told of the events, and the accounts of `s` have been given what was visited in
their course. -/
def Traced (r : Reporter σ) (s : Store) (state : σ) (events : List Event) (p : Progress σ) :
    Prop :=
  Told r s state events p.report ∧ Store.Posts s (fun n => countsOn n (visited events)) p.store

/-! ## One lemma for each part -/

theorem Traced.reportCarried (h : Traced r s state events p)
    (hnamed : s.Each fun n a => a.name = n) {t : Transaction} {x : Posting}
    (hx : ∀ own ∈ x.brought?, [own] <:+ visited events) {names : List String}
    (hnames : ∀ n ∈ names, (s.accounts.find? n).isSome = true) {u : Unit}
    (hrun : Leads (reportCarried r t x names) p u q) :
    ∃ new, new.map Event.call = names.map (.carried t x) ∧
      Traced r s state (events ++ new) q := by
  induction names generalizing p events with
  | nil =>
    obtain ⟨-, rfl⟩ := leads_pure.mp hrun
    exact ⟨[], rfl, by rwa [List.append_nil]⟩
  | cons name names ih =>
    obtain ⟨htold, hposts⟩ := h
    obtain ⟨a, ha, rfl⟩ := hposts.exists_named hnamed (hnames name List.mem_cons_self)
    rw [Filling.reportCarried, leads_store_bind, ha, leads_bind] at hrun
    obtain ⟨_, m, hreport, hrun⟩ := hrun
    let e : Event := .carried p.store t x a
    have hvisited : visited (events ++ [e]) = visited events := by
      rw [visited_append]
      exact List.append_nil _
    rw [← hvisited] at hposts hx
    have htold' := htold.report e rfl ⟨hposts, hx, ha⟩ hreport
    rw [← store_of_leads_report hreport] at hposts
    obtain ⟨new, hcalls, hend⟩ := ih ⟨htold', hposts⟩ hx
      (fun n hn => hnames n (List.mem_cons_of_mem _ hn)) hrun
    rw [← List.append_cons] at hend
    exact ⟨e :: new, congrArg (Call.carried t x a.name :: ·) hcalls, hend⟩

theorem Traced.postPosting (h : Traced r s state events p)
    (hnamed : s.Each fun n a => a.name = n) {t : Transaction} {x : Posting}
    (hx : ∀ e, x.brought? = some e → s.Houses e.1) {u : Unit}
    (hrun : Leads (postPosting r t x) p u q) :
    ∃ new, new.map Event.call = x.calls t ∧ Traced r s state (events ++ new) q := by
  cases hbrought : x.brought? with
  | none =>
    have hpass : Filling.postPosting r t x = pure () := by
      rw [Filling.postPosting]
      split
      · rename_i name c haccount hamount
        rw [Posting.brought?_eq_some_iff.mpr ⟨haccount, hamount⟩] at hbrought
        cases hbrought
      · rfl
    rw [hpass] at hrun
    obtain ⟨-, rfl⟩ := leads_pure.mp hrun
    exact ⟨[], by rw [Posting.calls, hbrought]; rfl, by rwa [List.append_nil]⟩
  | some entry =>
    obtain ⟨name, c⟩ := entry
    obtain ⟨htold, hposts⟩ := h
    obtain ⟨haccount, hamount⟩ := Posting.brought?_eq_some_iff.mp hbrought
    have hhouses : s.Houses name := hx _ hbrought
    rw [Filling.postPosting, haccount, hamount] at hrun
    dsimp only at hrun
    rw [leads_store_bind, leads_bind] at hrun
    obtain ⟨s', m, hlift, hrun⟩ := hrun
    obtain ⟨hpost, rfl⟩ := leads_lift.mp hlift
    simp only [leads_bind, leads_update] at hrun
    obtain ⟨_, _, rfl, _, m, hreport, hcarried⟩ := hrun
    let e : Event := .posted s' t x
    have hvisited : visited (events ++ [e]) = visited events ++ [(name, c)] := by
      rw [visited_append, visited, visited, List.flatMap_singleton]
      show _ ++ x.brought?.toList = _
      rw [hbrought]
      rfl
    have hgiven : Store.Posts s (fun n => countsOn n (visited (events ++ [e]))) s' := by
      rw [hvisited]
      refine (hposts.trans (Store.posts_postAmount (hposts.houses hhouses) hpost)).congr fun n => ?_
      rw [countsOn_append, countsOn_singleton]
    have hlast : ∀ own ∈ x.brought?, [own] <:+ visited (events ++ [e]) := by
      intro own hown
      obtain rfl := Option.some.inj (hbrought.symm.trans hown)
      rw [hvisited]
      exact List.suffix_append _ _
    have htold' : Told r s state (events ++ [e]) m.report :=
      Told.report (p := { p with store := s' }) htold e rfl ⟨hgiven, hlast, trivial⟩ hreport
    rw [← show m.store = s' from store_of_leads_report hreport] at hgiven
    obtain ⟨new, hcalls, hend⟩ := Traced.reportCarried ⟨htold', hgiven⟩ hnamed hlast
      (fun n hn => hhouses n (List.mem_cons_of_mem _ hn)) hcarried
    rw [← List.append_cons] at hend
    refine ⟨e :: new, ?_, hend⟩
    rw [List.map_cons, hcalls, Posting.calls, hbrought]
    rfl

theorem Traced.postPostings (h : Traced r s state events p)
    (hnamed : s.Each fun n a => a.name = n) {t : Transaction} {xs : List Posting}
    (hxs : ∀ e ∈ xs.filterMap Posting.brought?, s.Houses e.1) {u : Unit}
    (hrun : Leads (postPostings r t xs) p u q) :
    ∃ new, new.map Event.call = xs.flatMap (·.calls t) ∧
      Traced r s state (events ++ new) q := by
  induction xs generalizing p events with
  | nil =>
    obtain ⟨-, rfl⟩ := leads_pure.mp hrun
    exact ⟨[], rfl, by rwa [List.append_nil]⟩
  | cons x xs ih =>
    rw [Filling.postPostings, leads_bind] at hrun
    obtain ⟨_, m, hx, hrun⟩ := hrun
    have hfirst : ∀ e, x.brought? = some e → s.Houses e.1 := fun e he =>
      hxs e (List.mem_filterMap.mpr ⟨x, List.mem_cons_self, he⟩)
    have hothers : ∀ e ∈ xs.filterMap Posting.brought?, s.Houses e.1 := fun e he =>
      hxs e (((List.sublist_cons_self x xs).filterMap _).subset he)
    obtain ⟨new, hcalls, hm⟩ := h.postPosting hnamed hfirst hx
    obtain ⟨more, hmore, hend⟩ := ih hm hothers hrun
    refine ⟨new ++ more, ?_, by rwa [← List.append_assoc]⟩
    rw [List.map_append, hcalls, hmore, List.flatMap_cons]

theorem Traced.postAll (h : Traced r s state events p)
    (hnamed : s.Each fun n a => a.name = n) {ts : List Transaction}
    (hts : ∀ e ∈ ts.flatMap Transaction.entries, s.Houses e.1) {u : Unit}
    (hrun : Leads (postAll r ts) p u q) :
    ∃ new, new.map Event.call = ts.flatMap Transaction.calls ∧
      Traced r s state (events ++ new) q := by
  induction ts generalizing p events with
  | nil =>
    obtain ⟨-, rfl⟩ := leads_pure.mp hrun
    exact ⟨[], rfl, by rwa [List.append_nil]⟩
  | cons t ts ih =>
    rw [List.flatMap_cons] at hts
    simp only [Filling.postAll, leads_bind] at hrun
    obtain ⟨_, m, ht, _, m', hclosed, hrun⟩ := hrun
    obtain ⟨new, hcalls, htold, hposts⟩ :=
      h.postPostings hnamed (fun e he => hts e (List.mem_append_left _ he)) ht
    let e : Event := .closed m.store t
    have hvisited : visited ((events ++ new) ++ [e]) = visited (events ++ new) := by
      rw [visited_append]
      exact List.append_nil _
    rw [← hvisited] at hposts
    have hnone : ∀ own ∈ e.brought?, [own] <:+ visited (events ++ new ++ [e]) :=
      fun own hown => absurd hown (Option.not_mem_none own)
    have htold' := htold.report e rfl ⟨hposts, hnone, trivial⟩ hclosed
    rw [← store_of_leads_report hclosed] at hposts
    obtain ⟨more, hmore, hend⟩ := ih ⟨htold', hposts⟩
      (fun e he => hts e (List.mem_append_right _ he)) hrun
    refine ⟨new ++ e :: more, ?_, ?_⟩
    · rw [List.map_append, hcalls, List.map_cons, hmore, List.flatMap_cons, Transaction.calls,
        List.append_assoc, List.singleton_append]
      rfl
    · rw [← List.append_cons, List.append_assoc] at hend
      exact hend

theorem told_of_secondPass {u : Unit} (h : Leads (secondPass r) p u q) (hp : p.store.Orderly)
    (hnamed : p.store.Each fun n a => a.name = n) :
    ∃ events, events.map Event.call = p.store.selected.flatMap Transaction.calls ∧
      Traced r { p.store with stage := .posted } p.report events q := by
  rw [secondPass, leads_bind] at h
  obtain ⟨_, m, hexpect, h⟩ := h
  obtain ⟨-, rfl⟩ := leads_expect.mp hexpect
  rw [leads_bind] at h
  obtain ⟨_, m, hstage, h⟩ := h
  obtain rfl := leads_update.mp hstage
  rw [leads_store_bind] at h
  have hposted : Store.Orderly { p.store with stage := .posted } :=
    ⟨hp.filed, hp.housed, hp.unposted⟩
  have hstart : Traced r { p.store with stage := .posted } p.report []
      { p with store := { p.store with stage := .posted } } := ⟨told_nil, Store.Posts.refl _⟩
  exact hstart.postAll hnamed (fun e he => Store.houses_of_mem_selected hposted he) h

end

/-! ## The order of the journal -/

namespace Filling

variable {τ : Type} {p q : Progress σ} {ds : List (Spanned Directive)}
  {options : Options}

/-- The transactions of the directives in their order, each as it is kept by the store that the
directives before it lead to. -/
inductive Keeps (r : Reporter σ) (p : Progress σ) :
    List (Spanned Directive) → List Transaction → Prop
  | start : Keeps r p [] []
  | filed {ds d m t t' kept} : Keeps r p ds kept → Admits r p ds m → d.value = .transaction t →
      m.store.kept? t = .ok t' → Keeps r p (ds ++ [d]) (kept ++ [t'])
  | passed {ds d kept} : Keeps r p ds kept → (∀ t, d.value ≠ .transaction t) →
      Keeps r p (ds ++ [d]) kept

theorem Admits.exists_keeps (h : Admits r p ds q) : ∃ kept, Keeps r p ds kept ∧
    q.store.transactions = kept.foldl (fun l t => l.insert t.moment t) p.store.transactions := by
  induction h with
  | start => exact ⟨[], .start, rfl⟩
  | @next ds d m q hds hd ih =>
    obtain ⟨kept, hkeeps, htransactions⟩ := ih
    rcases leads_takeIn hd with ⟨t, t', hvalue, hkept, hq⟩ | ⟨hvalue, hbooks⟩
    · refine ⟨kept ++ [t'], hkeeps.filed hds hvalue hkept, ?_⟩
      rw [List.foldl_append, ← htransactions, hq]
      rfl
    · refine ⟨kept, hkeeps.passed hvalue, ?_⟩
      rw [hbooks, Store.transactions_entered, htransactions]

theorem values_ofInserts (kept : List Transaction) :
    (Timeline.ofInserts (kept.map fun t => (t.moment, t))).values =
      kept.mergeSort fun a b => a.date ≤ b.date := by
  have hsort := (Timeline.stablySorts_ofInserts (kept.map fun t => (t.moment, t))).unique
    (Timeline.stablySorts_mergeSort _)
  have hmap : (kept.map fun t => (t.moment, t)).mergeSort (fun a b => a.1 ≤ b.1) =
      (kept.mergeSort fun a b => a.date ≤ b.date).map fun t => (t.moment, t) := by
    refine (List.map_mergeSort fun a _ b _ => ?_).symm
    exact decide_eq_decide.mpr (Store.ofDate_le_iff a.date b.date).symm
  rw [Timeline.values, hsort, hmap, List.map_map]
  exact List.map_id _

/-- What the second pass posts are the transactions of the journal in the order of their days, as
far as the options cover them. -/
theorem exists_keeps_of_firstPass {state : σ}
    (h : runOn (firstPass r ds) (.empty options) state = (.ok (), p)) :
    ∃ kept, Keeps r ⟨.empty options, [], state⟩ ds kept ∧
      p.store.transactions = Timeline.ofInserts (kept.map fun t => (t.moment, t)) ∧
      p.store.selected =
        (kept.mergeSort fun a b => a.date ≤ b.date).filter (options.Covers ·.date) := by
  have hselected := Store.selected_eq (orderly_of_firstPass h)
  rw [options_of_firstPass h] at hselected
  obtain ⟨-, m, hall, -, rfl⟩ := leads_firstPass.mp h
  obtain ⟨kept, hkeeps, htransactions⟩ := hall.exists_keeps
  have hinserts : m.store.transactions =
      Timeline.ofInserts (kept.map fun t => (t.moment, t)) := by
    rw [htransactions, Timeline.ofInserts, List.foldl_map]
    rfl
  refine ⟨kept, hkeeps, hinserts, ?_⟩
  rw [hselected]
  dsimp only
  rw [hinserts, values_ofInserts]

/-- A successful second pass tells its reporter of the covered transactions in the order of their
days, and in the order of the journal on each day: of each posting that brings an amount to an
account, then of the accounts above it, the nearest first, and of the end of each transaction. At
each of these calls the accounts, empty before, have been given what the postings visited so far
bring, that of the call included. -/
theorem secondPass_tells {state : σ} {r₂ : Reporter τ} {state' : τ} {q : Progress τ}
    (hfirst : runOn (firstPass r ds) (.empty options) state = (.ok (), p))
    (hsecond : runOn (secondPass r₂) p.store state' = (.ok (), q)) :
    ∃ kept events, Keeps r ⟨.empty options, [], state⟩ ds kept ∧
      p.store.transactions = Timeline.ofInserts (kept.map fun t => (t.moment, t)) ∧
      events.map Event.call =
        ((kept.mergeSort fun a b => a.date ≤ b.date).filter (options.Covers ·.date)).flatMap
          Transaction.calls ∧
      (forM events r₂.tell).run.run state' = (.ok (), q.report) ∧
      p.store.Unposted ∧ ∀ before e after, events = before ++ e :: after →
        e.Follows { p.store with stage := .posted } before := by
  have horderly := orderly_of_firstPass hfirst
  obtain ⟨kept, hkeeps, hinserts, hselected⟩ := exists_keeps_of_firstPass hfirst
  have hnamed : p.store.Each fun n a => a.name = n :=
    each_of_firstPass Store.lasting_named hfirst
  have hrun : Leads (secondPass r₂) ⟨p.store, [], state'⟩ () q := hsecond
  obtain ⟨events, hcalls, htold, -⟩ := told_of_secondPass hrun horderly hnamed
  rw [hselected] at hcalls
  exact ⟨kept, events, hkeeps, hinserts, hcalls, htold.run, horderly.unposted, htold.follows⟩

/-- One transaction with two postings beneath one account. -/
theorem secondPass_tells_siblings :
    let ds := single [.ofAmount "Assets:Bank" (.plain "USD" .one), .tally "Assets:Cash"]
    let p := (runOn (firstPass (.silent Unit) ds) (.empty .default) ()).2
    let q := (runOn (secondPass (.silent Unit)) p.store ()).2
    (p.store.selected.flatMap Transaction.calls).length = 5 ∧
      ∃ events, (forM events (Reporter.silent Unit).tell).run.run () = (.ok (), q.report) ∧
        ∀ before e after, events = before ++ e :: after →
          e.Follows { p.store with stage := .posted } before := by
  intro ds p q
  have hfirst : runOn (firstPass (.silent Unit) ds) (.empty .default) () = (.ok (), p) :=
    runOn_eq_ok (by decide +kernel)
  have hsecond : runOn (secondPass (.silent Unit)) p.store () = (.ok (), q) :=
    runOn_eq_ok (by decide +kernel)
  obtain ⟨kept, events, -, -, -, hrun, -, hfollows⟩ := secondPass_tells hfirst hsecond
  exact ⟨by decide +kernel, events, hrun, hfollows⟩

end Filling

end Daybook
