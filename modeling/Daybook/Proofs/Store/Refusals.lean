import Daybook.Proofs.Store.SecondPass
import Daybook.Proofs.Store.Secures

/-!
# What stops a second pass

A second pass ends early for one of two reasons: an account cannot take in an amount that counts on
it, after all those that came before (`Store.Refuses`), or the reporter fails. Until then the
accounts have been given exactly the amounts so far, and the reporter keeps what it keeps on each
single one of them (`Reporter.Watches`). `secures_secondPass` is the induction over the whole run.
-/

namespace Daybook

open AccountName (path isWithin)
open Reporting (Secures)
open Result (Ensures)

namespace Store

/-- What the postings of the covered days bring to accounts, in the order of the days. -/
def covered (s : Store) : List (String × Commodity) :=
  (s.transactions.values.filter (s.options.Covers ·.date)).flatMap Transaction.entries

/-- An account that has been given what counts on it of the first entries fails on the next one. -/
def Refuses (s : Store) (entries : List (String × Commodity)) (e : AmountError) : Prop :=
  ∃ before entry after, entries = before ++ entry :: after ∧
    ∃ name a t, s.accounts.find? name = some a ∧ isWithin entry.1 name = true ∧
      (countsOn name before).foldlM Turnover.post a.turnover = .ok t ∧ t.post entry.2 = .error e

theorem refused_postTo {s : Store} {name : String} {kind : PostingKind} {c : Commodity}
    {e : LedgerError} (hname : s.Houses name) (h : s.postTo name kind c = .error e) :
    ∃ a x, s.accounts.find? name = some a ∧ a.turnover.post c = .error x ∧ e = .amount x := by
  obtain ⟨a, ha⟩ := Option.isSome_iff_exists.mp (hname name List.mem_cons_self)
  simp only [postTo, hname.ensureAccount_eq, ha, Result.bind_eq_error_iff,
    Result.mapError_eq_error_iff, Account.post] at h
  rcases h with ⟨x, hx | ⟨t, -, hpure⟩, rfl⟩ | ⟨t, -, hpure⟩
  · exact ⟨a, x, ha, hx, rfl⟩
  · cases hpure
  · cases hpure

theorem refused_carryTo {s : Store} {c : Commodity} {names : List String} {e : LedgerError}
    (hnodup : names.Nodup) (hnames : ∀ n ∈ names, s.Houses n)
    (h : s.carryTo c names = .error e) :
    ∃ name ∈ names, ∃ a x, s.accounts.find? name = some a ∧ a.turnover.post c = .error x ∧
      e = .amount x := by
  induction names generalizing s with
  | nil => cases h
  | cons name names ih =>
    obtain ⟨hname, hnodup⟩ := List.nodup_cons.mp hnodup
    have hhead := hnames name (by simp)
    rw [carryTo, Result.bind_eq_error_iff] at h
    rcases h with hfirst | ⟨m, hm, hrest⟩
    · obtain ⟨a, x, ha, hx, he⟩ := refused_postTo hhead hfirst
      exact ⟨name, List.mem_cons_self, a, x, ha, hx, he⟩
    · have hposts := posts_postTo hhead hm
      have hhoused : ∀ n ∈ names, m.Houses n := fun n hn => hposts.houses (hnames n (by simp [hn]))
      obtain ⟨other, hother, b, x, hb, hx, he⟩ := ih hnodup hhoused hrest
      -- The account that refuses is not the first one, so that nothing has been posted to it yet.
      have hne : other ≠ name := fun heq => hname (heq ▸ hother)
      have hthere : s.accounts.find? other = some b := by
        cases hfind : s.accounts.find? other with
        | none =>
          rw [hposts.missing other hfind] at hb
          cases hb
        | some a =>
          obtain ⟨t, ht, hfind'⟩ := hposts.posted other a hfind
          rw [if_neg hne] at ht
          obtain rfl := Except.ok.inj ht
          exact hfind'.symm.trans hb
      exact ⟨other, List.mem_cons_of_mem _ hother, b, x, hthere, hx, he⟩

theorem refused_postAmount {s : Store} {name : String} {kind : PostingKind} {c : Commodity}
    {e : LedgerError} (hname : s.Houses name) (h : s.postAmount name kind c = .error e) :
    ∃ n a x, isWithin name n = true ∧ s.accounts.find? n = some a ∧
      a.turnover.post c = .error x ∧ e = .amount x := by
  have hkind : s.postTo name kind c = s.postTo name .real c := by
    rw [postTo, postTo, hname.ensureAccount_eq, hname.ensureAccount_eq]
  have hcarry : s.carryTo c (path name) = .error e := by
    rw [path, carryTo, ← hkind]
    exact h
  obtain ⟨n, hn, a, x, ha, hx, he⟩ := refused_carryTo (AccountName.nodup_path name)
    (fun n hn => hname.of_mem_path hn) hcarry
  exact ⟨n, a, x, AccountName.mem_path_iff.mp hn, ha, hx, he⟩

end Store

variable {σ : Type}

/-- While the entries are posted, the reporter keeps `J`, which is about the entries so far, or
fails with an error that satisfies `E`. -/
structure Reporter.Watches (r : Reporter σ) (entries : List (String × Commodity))
    (J : List (String × Commodity) → σ → Prop) (E : LedgerError → Prop) : Prop where
  posted : ∀ s t x e done, x.brought? = some e → done ++ [e] <+: entries →
    Secures (J done) (r.posted s t x) (fun _ => J (done ++ [e])) E
  carried : ∀ s t x a done, Secures (J done) (r.carried s t x a) (fun _ => J done) E
  closed : ∀ s t done, Secures (J done) (r.closed s t) (fun _ => J done) E

theorem Reporter.watches_silent (entries : List (String × Commodity)) (E : LedgerError → Prop) :
    (Reporter.silent Unit).Watches entries (fun _ _ => True) E :=
  ⟨fun _ _ _ _ _ _ _ _ h => h, fun _ _ _ _ _ _ h => h, fun _ _ _ _ h => h⟩

namespace Filling

variable {r : Reporter σ} {s : Store} {entries : List (String × Commodity)}
  {J : List (String × Commodity) → σ → Prop} {E : LedgerError → Prop}

/-- The accounts of `s` have been given the entries `done`, and the reporter keeps up. -/
def Reaches (s : Store) (J : List (String × Commodity) → σ → Prop)
    (done : List (String × Commodity)) (p : Progress σ) : Prop :=
  Store.Posts s (fun n => countsOn n done) p.store ∧ J done p.report

/-- Why a second pass over the entries may end early. -/
def Stops (s : Store) (entries : List (String × Commodity)) (E : LedgerError → Prop)
    (e : LedgerError) : Prop :=
  (∃ x, e = .amount x ∧ s.Refuses entries x) ∨ E e

theorem secures_reportCarried (hwatch : r.Watches entries J E) (t : Transaction) (x : Posting)
    (names : List String) (done : List (String × Commodity)) :
    Secures (Reaches s J done) (reportCarried r t x names) (fun _ => Reaches s J done)
      (Stops s entries E) := by
  induction names with
  | nil => exact Reporting.secures_pure fun _ hp => hp
  | cons name names ih =>
    rw [reportCarried]
    refine secures_store_bind fun s' => ?_
    split
    · rename_i a _
      have hreport : Secures (Reaches s J done) (report (r.carried · t x a))
          (fun _ => Reaches s J done) E := secures_report fun s' _ => hwatch.carried s' t x a done
      exact (hreport.mono (fun _ hp => hp.1) (fun _ _ hq => hq) fun _ => .inr).bind fun _ => ih
    · exact Reporting.secures_pure fun _ hp => hp.1

/-- The account that fails on a posting has been given all entries before it. -/
theorem refuses_of_postAmount {m : Store} {done : List (String × Commodity)} {name : String}
    {kind : PostingKind} {c : Commodity} {e : LedgerError}
    (hposts : Store.Posts s (fun n => countsOn n done) m) (hname : s.Houses name)
    (hdone : done ++ [(name, c)] <+: entries) (h : m.postAmount name kind c = .error e) :
    Stops s entries E e := by
  obtain ⟨n, b, x, hwithin, hb, hx, rfl⟩ := Store.refused_postAmount (hposts.houses hname) h
  obtain ⟨after, hafter⟩ := hdone
  have hsplit : entries = done ++ (name, c) :: after := by
    rw [← hafter, List.append_assoc, List.singleton_append]
  cases hfind : s.accounts.find? n with
  | none =>
    rw [hposts.missing n hfind] at hb
    cases hb
  | some a =>
    obtain ⟨t, ht, hfind'⟩ := hposts.posted n a hfind
    obtain rfl := Option.some.inj (hfind'.symm.trans hb)
    exact .inl ⟨x, rfl, done, (name, c), after, hsplit, n, a, t, hfind, hwithin, ht, hx⟩

theorem secures_postPosting (hwatch : r.Watches entries J E)
    (hhoused : ∀ e ∈ entries, s.Houses e.1) (t : Transaction) {x : Posting}
    {done : List (String × Commodity)} (hx : done ++ x.brought?.toList <+: entries) :
    Secures (Reaches s J done) (postPosting r t x)
      (fun _ => Reaches s J (done ++ x.brought?.toList)) (Stops s entries E) := by
  rw [postPosting]
  split
  · rename_i name c haccount hamount
    have hbrought := Posting.brought?_eq_some_iff.mpr ⟨haccount, hamount⟩
    rw [hbrought] at hx ⊢
    have hname : s.Houses name := hhoused (name, c) (hx.subset (by simp))
    refine secures_store_bind fun m => ?_
    have hpost : Secures (fun p => Reaches s J done p ∧ p.store = m)
        (liftM (m.postAmount name x.kind c))
        (fun m' p => Store.Posts s (fun n => countsOn n (done ++ [(name, c)])) m' ∧
          J done p.report) (Stops s entries E) := by
      refine secures_lift fun p hp => ?_
      obtain ⟨⟨hposts, hkeeps⟩, rfl⟩ := hp
      refine Result.ensures_iff.mpr ⟨fun m' hm' => ⟨?_, hkeeps⟩,
        fun e => refuses_of_postAmount hposts hname hx⟩
      refine (hposts.trans (Store.posts_postAmount (hposts.houses hname) hm')).congr fun n => ?_
      rw [countsOn_append, countsOn_singleton]
    refine hpost.bind fun m' => ?_
    have hupdate : Secures (fun p => Store.Posts s (fun n => countsOn n (done ++ [(name, c)])) m' ∧
        J done p.report) (update fun _ => m')
        (fun _ p => Store.Posts s (fun n => countsOn n (done ++ [(name, c)])) p.store ∧
          J done p.report) (Stops s entries E) := secures_update fun _ hp => hp
    refine hupdate.bind fun _ => ?_
    have hreport := secures_report (σ := σ) (S := fun m =>
      Store.Posts s (fun n => countsOn n (done ++ [(name, c)])) m)
      fun m _ => hwatch.posted m t x (name, c) done hbrought hx
    refine (hreport.mono (fun _ hp => hp) (fun _ _ hq => hq) fun _ => .inr).bind fun _ => ?_
    exact secures_reportCarried hwatch t x (AccountName.ancestors name) (done ++ [(name, c)])
  · rename_i hnone
    have hbrought : x.brought? = none := by
      refine Option.eq_none_iff_forall_ne_some.mpr fun e he => ?_
      obtain ⟨haccount, hamount⟩ := Posting.brought?_eq_some_iff.mp he
      exact hnone e.1 e.2 haccount hamount
    rw [hbrought, Option.toList_none, List.append_nil]
    exact Reporting.secures_pure fun _ hp => hp

theorem secures_postPostings (hwatch : r.Watches entries J E)
    (hhoused : ∀ e ∈ entries, s.Houses e.1) (t : Transaction) (xs : List Posting)
    {done : List (String × Commodity)}
    (hxs : done ++ xs.filterMap Posting.brought? <+: entries) :
    Secures (Reaches s J done) (postPostings r t xs)
      (fun _ => Reaches s J (done ++ xs.filterMap Posting.brought?)) (Stops s entries E) := by
  induction xs generalizing done with
  | nil =>
    rw [List.filterMap_nil, List.append_nil]
    exact Reporting.secures_pure fun _ hp => hp
  | cons x xs ih =>
    have hsplit : (x :: xs).filterMap Posting.brought? =
        x.brought?.toList ++ xs.filterMap Posting.brought? := by
      cases he : x.brought? <;> simp [he]
    rw [hsplit, ← List.append_assoc] at hxs ⊢
    rw [postPostings]
    exact (secures_postPosting hwatch hhoused t ((List.prefix_append ..).trans hxs)).bind
      fun _ => ih hxs

theorem secures_postAll (hwatch : r.Watches entries J E) (hhoused : ∀ e ∈ entries, s.Houses e.1)
    (ts : List Transaction) {done : List (String × Commodity)}
    (hts : done ++ ts.flatMap Transaction.entries <+: entries) :
    Secures (Reaches s J done) (postAll r ts)
      (fun _ => Reaches s J (done ++ ts.flatMap Transaction.entries)) (Stops s entries E) := by
  induction ts generalizing done with
  | nil =>
    rw [List.flatMap_nil, List.append_nil]
    exact Reporting.secures_pure fun _ hp => hp
  | cons t ts ih =>
    rw [List.flatMap_cons, ← List.append_assoc] at hts ⊢
    rw [postAll]
    have hpostings := secures_postPostings hwatch hhoused t t.postings
      ((List.prefix_append ..).trans hts)
    have hclosed : Secures (Reaches s J (done ++ t.entries)) (report (r.closed · t))
        (fun _ => Reaches s J (done ++ t.entries)) E :=
      secures_report fun m _ => hwatch.closed m t (done ++ t.entries)
    exact hpostings.bind fun _ =>
      (hclosed.mono (fun _ hp => hp) (fun _ _ hq => hq) fun _ => .inr).bind fun _ => ih hts

/-- A second pass posts all that is covered, unless an account or the reporter stops it. -/
theorem secures_secondPass (horderly : s.Orderly) (hstage : s.stage = .admitted)
    (hwatch : r.Watches s.covered J E) :
    Secures (fun p => p.store = s ∧ J [] p.report) (secondPass r)
      (fun _ => Reaches { s with stage := .posted } J s.covered) (Stops s s.covered E) := by
  have hcovered : s.selected.flatMap Transaction.entries = s.covered := by
    rw [Store.covered, Store.selected_eq horderly]
  have hhoused : ∀ e ∈ s.covered, Store.Houses { s with stage := .posted } e.1 := fun e he =>
    Store.houses_of_mem_selected horderly (hcovered.symm ▸ he)
  rw [secondPass]
  refine (secures_expect fun p hp => by rw [hp.1, hstage]; rfl).bind fun _ => ?_
  have hupdate : Secures (fun p => p.store = s ∧ J [] p.report)
      (update fun s => { s with stage := .posted })
      (fun _ p => p.store = { s with stage := .posted } ∧ J [] p.report) (Stops s s.covered E) :=
    secures_update fun p hp => ⟨by rw [hp.1], hp.2⟩
  refine hupdate.bind fun _ => secures_store_bind fun m => ?_
  intro p hp
  obtain ⟨⟨hstore, hkeeps⟩, rfl⟩ := hp
  have hselected : p.store.selected.flatMap Transaction.entries = s.covered := by
    rw [hstore]
    exact hcovered
  have hbegins : [] ++ p.store.selected.flatMap Transaction.entries <+: s.covered :=
    ⟨[], by rw [List.append_nil, List.nil_append, hselected]⟩
  have hall := secures_postAll hwatch hhoused p.store.selected hbegins
  rw [List.nil_append, hselected] at hall
  exact hall p ⟨hstore ▸ Store.Posts.refl _, hkeeps⟩

end Filling

end Daybook
