import Daybook.Proofs.Journal.Nesting
import Daybook.Proofs.Store.Kept
import Daybook.Proofs.Store.Success
import Daybook.Proofs.Timeline.Search

/-!
# Transactions within roots

The roots that are applied in a store are those that are open behind the directives taken in so far
(`exists_admits_of_nested`). So a first pass of transactions within applied roots succeeds exactly
if the roots are nested and all of them are ended, and keeps each posting beneath the roots that are
open where it stands (`firstPass_nesting`): its account is their names and its own with a colon
between each two (`joined_eq_intercalate`).
-/

namespace Daybook

open AccountName (join)

/-! ## Names beneath roots -/

/-- The names one beneath the other; an empty one does not count. -/
def joined (names : List String) : String := ":".intercalate (names.filter (· ≠ ""))

theorem joined_eq_intercalate {names : List String} (h : "" ∉ names) :
    joined names = ":".intercalate names := by
  rw [joined, List.filter_eq_self.mpr]
  intro name hname
  exact decide_eq_true fun heq => h (heq ▸ hname)

theorem joined_eq_empty_iff (names : List String) :
    joined names = "" ↔ names.filter (· ≠ "") = [] := by
  rw [joined]
  have hnonempty : ∀ name ∈ names.filter (· ≠ ""), name ≠ "" := fun name hname => by
    simpa using (List.mem_filter.mp hname).2
  generalize names.filter (· ≠ "") = names at hnonempty
  cases names with
  | nil => simp
  | cons name names =>
    have hname := hnonempty name List.mem_cons_self
    cases names with
    | nil => simpa using hname
    | cons other names =>
      rw [String.intercalate_cons_cons]
      simp [hname]

theorem joined_concat (names : List String) (name : String) :
    joined (names ++ [name]) = join (joined names) name := by
  by_cases hname : name = ""
  · subst hname
    have hsame : joined (names ++ [""]) = joined names := by
      rw [joined, List.filter_append]
      simp [joined]
    rw [hsame, join, if_pos rfl]
    split
    case isTrue hempty => exact hempty
    case isFalse => rfl
  · have hfilter : (names ++ [name]).filter (· ≠ "") = names.filter (· ≠ "") ++ [name] := by
      rw [List.filter_append, List.filter_singleton]
      simp [hname]
    rw [joined, hfilter, join, if_neg hname]
    split
    case isTrue hempty =>
      rw [(joined_eq_empty_iff names).mp hempty, List.nil_append, String.intercalate_singleton]
    case isFalse hne =>
      rw [joined_eq_empty_iff] at hne
      rw [String.intercalate_append_of_ne_nil hne (List.cons_ne_nil _ _),
        String.intercalate_singleton, joined]

theorem foldl_join (names : List String) : names.foldl join "" = joined names := by
  induction names using List.reverseRecOn with
  | nil => rfl
  | append_singleton names name ih =>
    rw [List.foldl_append, ih, joined_concat]
    rfl

/-! ## Transactions within roots -/

def AccountRef.within (roots : List String) : AccountRef → AccountRef
  | named name => named (joined (roots ++ [name]))
  | unknown scope => unknown scope

def Transaction.within (roots : List String) (t : Transaction) : Transaction :=
  { t with postings := t.postings.map fun x => { x with account := x.account.within roots } }

def Directive.within (roots : List String) : Directive → List Transaction
  | .transaction t => [t.within roots]
  | _ => []

/-- The transactions of directives that stand behind others, each within the roots that hold
there. -/
def withinRoots (before : List (Spanned Directive)) : List (Spanned Directive) → List Transaction
  | [] => []
  | d :: rest => d.value.within (openRoots before) ++ withinRoots (before ++ [d]) rest

theorem withinRoots_concat (before ds : List (Spanned Directive)) (d : Spanned Directive) :
    withinRoots before (ds ++ [d]) =
      withinRoots before ds ++ d.value.within (openRoots (before ++ ds)) := by
  induction ds generalizing before with
  | nil => simp [withinRoots]
  | cons x ds ih => simp [withinRoots, ih]

/-- The directives of a journal that only groups transactions: these balance, so that they have all
their amounts, and name their accounts. -/
inductive Directive.Groups : Directive → Prop
  | applyAccount (root : String) : Groups (.applyAccount root)
  | stop : Groups .stop
  | transaction {t : Transaction} : t.isBalanced = .ok true →
      (∀ x ∈ t.postings, ∃ name, x.account = .named name) → Groups (.transaction t)

namespace Store

/-- Nothing has been declared that bears on transactions. -/
structure Bare (s : Store) : Prop where
  captures : s.captures = []
  aliases : s.accountAliases = .empty
  renamings : s.renamings = .empty
  payees : s.payees = []
  declarations : s.declarations = .empty
  pedantic : s.options.pedantic = false

namespace Bare

variable {s s' : Store}

theorem of_rules (h : s.Bare) (hrules : s' = { s with
    accounts := s'.accounts, samples := s'.samples, firstName := s'.firstName
    digests := s'.digests, transactions := s'.transactions, roots := s'.roots }) : s'.Bare := by
  rw [hrules]
  exact ⟨h.captures, h.aliases, h.renamings, h.payees, h.declarations, h.pedantic⟩

theorem resolveName_eq (h : s.Bare) (name : String) :
    s.resolveName name = joined (s.roots ++ [name]) := by
  have hcaptured : matched? s.captures name = none := by
    rw [h.captures]
    rfl
  have halias : s.accountAliases.find? name = none := by
    rw [h.aliases]
    rfl
  have hrenamed : s.renamings.find? name = none := by
    rw [h.renamings]
    rfl
  rw [resolveName, hcaptured, halias, hrenamed, Option.getD_none, root, foldl_join, joined_concat]

theorem declaredForm_eq (h : s.Bare) (c : Commodity) : s.declaredForm c = c := by
  have hnone : s.declarations.find? c.name = none := by
    rw [h.declarations]
    rfl
  rw [declaredForm, hnone]

theorem keptOn_eq (h : s.Bare) (name : String) (x : Posting) :
    s.keptOn name x = { x with account := .named name } := by
  have hsame : s.declaredForm = id := funext h.declaredForm_eq
  rw [keptOn, hsame]
  simp

theorem keptPostings_eq (h : s.Bare) (t : Transaction) (n : Nat) {xs : List Posting}
    (hxs : ∀ x ∈ xs, ∃ name, x.account = .named name) : s.keptPostings t none n xs =
      .ok (xs.map fun x => { x with account := x.account.within s.roots }) := by
  induction xs generalizing n with
  | nil => rfl
  | cons x xs ih =>
    obtain ⟨name, hname⟩ := hxs x List.mem_cons_self
    have haccount : s.accountFor t x (none = some n) = .ok (joined (s.roots ++ [name])) := by
      simp [accountFor, resolveAccount, hname, h.resolveName_eq]
    rw [keptPostings, haccount, ih (n + 1) fun y hy => hxs y (List.mem_cons_of_mem x hy)]
    show Except.ok _ = Except.ok _
    rw [h.keptOn_eq, List.map_cons, hname, AccountRef.within]

theorem kept?_eq (h : s.Bare) {t : Transaction} (hbalanced : t.isBalanced = .ok true)
    (hnamed : ∀ x ∈ t.postings, ∃ name, x.account = .named name) :
    s.kept? t = .ok (t.within s.roots) := by
  have hpayee : s.withPayee t = t := by
    have hnone : s.payeeByRule? t.payee = none := by
      rw [payeeByRule?, h.payees]
      rfl
    rw [withPayee, hnone]
  refine kept?_eq_ok_iff.mpr ⟨t, none, _, ?_, h.keptPostings_eq t 0 hnamed, rfl⟩
  rw [hpayee]
  exact balanced_eq_ok_iff.mpr (.inl ⟨.inr hbalanced, rfl, rfl⟩)

end Bare

theorem bare_empty : (Store.empty .default).Bare := ⟨rfl, rfl, rfl, rfl, rfl, rfl⟩

end Store

/-! ## Runs -/

namespace Filling

variable {σ : Type} {r : Reporter σ} {p q : Progress σ} {ds : List (Spanned Directive)}

def filed (l : Timeline Transaction) (ts : List Transaction) : Timeline Transaction :=
  ts.foldl (fun l t => l.insert t.moment t) l

/-- A directive is taken in if the roots allow for it. -/
theorem exists_leads_takeIn (hr : r.Admitting) {d : Spanned Directive} (hd : d.value.Groups)
    (hp : p.store.Bare) {roots : List String}
    (hshift : d.value.shiftRoots p.store.roots = some roots) :
    ∃ q, Leads (takeIn r d) p () q ∧ q.store.Bare ∧ q.store.roots = roots ∧
      q.store.transactions = filed p.store.transactions (d.value.within p.store.roots) := by
  obtain ⟨d, span⟩ := d
  cases hd with
  | applyAccount root =>
    obtain rfl := Option.some.inj hshift
    refine ⟨{ p with store := { p.store with roots := p.store.roots ++ [root] } }, ?_,
      hp.of_rules rfl, rfl, rfl⟩
    show Leads (update fun s => { s with roots := s.roots ++ [root] }) p () _
    exact leads_update.mpr rfl
  | stop =>
    have hroots : ¬p.store.roots.isEmpty = true ∧ some p.store.roots.dropLast = some roots := by
      simpa [Directive.shiftRoots, Directive.root?, Directive.isStop] using hshift
    obtain ⟨hne, hroots⟩ := hroots
    obtain rfl := Option.some.inj hroots
    refine ⟨{ p with store := { p.store with roots := p.store.roots.dropLast } }, ?_,
      hp.of_rules rfl, rfl, rfl⟩
    show Leads (apply .stop span) p () _
    rw [apply, leads_store_bind, if_neg hne]
    exact leads_update.mpr rfl
  | @transaction t hbalanced hnamed =>
    obtain rfl := Option.some.inj hshift
    have hkept := hp.kept?_eq hbalanced hnamed
    obtain ⟨q, hq⟩ := exists_leads_admitOne hr hp.pedantic hkept
    obtain ⟨t', ht', hstore⟩ := leads_admitOne hq
    obtain rfl := Except.ok.inj (ht'.symm.trans hkept)
    have hrules := (Store.sameRules_noteFirst p.store (p.store.withPayee t)).trans
      (Store.sameRules_foldl_note _ (t.within p.store.roots).postings)
    refine ⟨q, hq, hp.of_rules ?_, roots_of_leads_admitOne hq, ?_⟩
    · rw [hstore, hrules]
    · rw [hstore]
      rfl

theorem outcome_takeIn_of_shiftRoots_eq_none {d : Spanned Directive}
    (hshift : d.value.shiftRoots p.store.roots = none) :
    outcome (takeIn r d) p = (.error (.unmatchedEnd d.span), p) := by
  obtain ⟨d, span⟩ := d
  cases d
  case stop =>
    have hempty : p.store.roots.isEmpty = true := by
      simpa [Directive.shiftRoots, Directive.root?, Directive.isStop] using hshift
    have hstore : outcome (store : Filling σ Store) p = (.ok p.store, p) := rfl
    show outcome (apply .stop span) p = _
    rw [apply, outcome_bind, hstore]
    dsimp only
    rw [if_pos hempty]
    rfl
  all_goals cases hshift

theorem admitAll_cons (r : Reporter σ) (d : Spanned Directive) (ds : List (Spanned Directive)) :
    admitAll r (d :: ds) = takeIn r d >>= fun _ => admitAll r ds := by
  obtain ⟨d, span⟩ := d
  cases d <;> rfl

theorem Admits.outcome_admitAll (h : Admits r p ds q) (rest : List (Spanned Directive)) :
    outcome (admitAll r (ds ++ rest)) p = outcome (admitAll r rest) q := by
  induction h generalizing rest with
  | start => rfl
  | @next ds d m q _ hd ih =>
    rw [List.append_assoc, ih, List.singleton_append, admitAll_cons, outcome_bind]
    rw [Leads] at hd
    rw [hd]

theorem exists_admits_of_nested (hr : r.Admitting) (hds : ∀ d ∈ ds, d.value.Groups)
    (hnested : Nested ds) (hp : p.store.Bare) (hroots : p.store.roots = []) :
    ∃ q, Admits r p ds q ∧ q.store.Bare ∧ q.store.roots = openRoots ds ∧
      q.store.transactions = filed p.store.transactions (withinRoots [] ds) := by
  induction ds using List.reverseRecOn with
  | nil => exact ⟨p, .start, hp, hroots, rfl⟩
  | append_singleton ds d ih =>
    obtain ⟨m, hm, hbare, hopen, hfiled⟩ := ih (fun x hx => hds x (by simp [hx])) hnested.of_append
    have hshift := shiftRoots_openRoots hnested.of_append d
    rw [if_pos hnested, ← hopen] at hshift
    obtain ⟨q, hq, hbare', hroots', hfiled'⟩ :=
      exists_leads_takeIn hr (hds d (by simp)) hbare hshift
    refine ⟨q, hm.next hq, hbare', hroots', ?_⟩
    rw [hfiled', hfiled, hopen, withinRoots_concat, List.nil_append, filed, filed, filed,
      List.foldl_append]

theorem outcome_admitAll_of_not_nested (hr : r.Admitting) (hds : ∀ d ∈ ds, d.value.Groups)
    (hbroken : ¬Nested ds) (hp : p.store.Bare) (hroots : p.store.roots = []) :
    ∃ span q, outcome (admitAll r ds) p = (.error (.unmatchedEnd span), q) := by
  obtain ⟨before, d, after, rfl, hbefore, hd⟩ := exists_break hbroken
  obtain ⟨m, hm, -, hopen, -⟩ :=
    exists_admits_of_nested hr (fun x hx => hds x (by simp [hx])) hbefore hp hroots
  have hshift := shiftRoots_openRoots hbefore d
  rw [if_neg hd, ← hopen] at hshift
  refine ⟨d.span, m, ?_⟩
  rw [hm.outcome_admitAll, admitAll_cons, outcome_bind, outcome_takeIn_of_shiftRoots_eq_none hshift]

/-- What a first pass comes to after all directives, or as soon as one is refused. -/
theorem runOn_firstPass (r : Reporter σ) (ds : List (Spanned Directive)) (options : Options)
    (state : σ) : runOn (firstPass r ds) (.empty options) state =
      match outcome (admitAll r ds) ⟨.empty options, [], state⟩ with
      | (.ok (), q) =>
        if q.store.roots.isEmpty
          then (.ok (), { q with store := { q.store with stage := .admitted } })
          else (.error (.unclosedRoot q.store.root), q)
      | (.error e, q) => (.error e, q) := by
  have hexpect : outcome (expect .first : Filling σ Unit) ⟨.empty options, [], state⟩ =
    (.ok (), ⟨.empty options, [], state⟩) := leads_expect.mpr ⟨rfl, rfl⟩
  show outcome (firstPass r ds) _ = _
  rw [firstPass, outcome_bind, hexpect]
  dsimp only
  rw [outcome_bind]
  rcases outcome (admitAll r ds) ⟨.empty options, [], state⟩ with ⟨e | u, q⟩
  · rfl
  · have hstore : outcome (store : Filling σ Store) q = (.ok q.store, q) := rfl
    dsimp only
    rw [outcome_bind, hstore]
    dsimp only
    cases q.store.roots.isEmpty <;> rfl

end Filling

def LedgerError.IsNesting (e : LedgerError) : Prop :=
  (∃ span, e = .unmatchedEnd span) ∨ ∃ root, e = .unclosedRoot root

namespace Filling

variable {σ : Type} {ds : List (Spanned Directive)}

theorem nested_iff_not_exists : Nested ds ↔
    ¬∃ part, part <+: ds ∧ applyCount part < endCount part := by
  simp [Nested, List.mem_inits]

/-- Where every root is ended, the transactions are kept within their roots. -/
theorem firstPass_of_closed (state : σ) (hds : ∀ d ∈ ds, d.value.Groups) (hnested : Nested ds)
    (hclosed : applyCount ds ≤ endCount ds) :
    ∃ q, runOn (firstPass (.silent σ) ds) (.empty .default) state = (.ok (), q) ∧
      q.store.transactions =
        .ofInserts ((withinRoots [] ds).map fun t => (t.moment, t)) := by
  obtain ⟨q, hq, -, hopen, hfiled⟩ := exists_admits_of_nested (p := ⟨.empty .default, [], state⟩)
    (Reporter.admitting_silent σ) hds hnested Store.bare_empty rfl
  have hlength := length_openRoots hnested
  have hnone : q.store.roots = [] := by
    rw [hopen]
    exact List.length_eq_zero_iff.mp (by omega)
  have hall := leads_admitAll_iff (u := ()).mpr hq
  refine ⟨{ q with store := { q.store with stage := .admitted } }, ?_, ?_⟩
  · rw [runOn_firstPass, show outcome _ _ = _ from hall]
    simp [hnone]
  · rw [Timeline.ofInserts, List.foldl_map]
    exact hfiled

theorem firstPass_of_unclosed (state : σ) (hds : ∀ d ∈ ds, d.value.Groups) (hnested : Nested ds)
    (hunclosed : endCount ds < applyCount ds) :
    ∃ q, runOn (firstPass (.silent σ) ds) (.empty .default) state =
      (.error (.unclosedRoot (joined (openRoots ds))), q) := by
  obtain ⟨q, hq, -, hopen, -⟩ := exists_admits_of_nested (p := ⟨.empty .default, [], state⟩)
    (Reporter.admitting_silent σ) hds hnested Store.bare_empty rfl
  have hlength := length_openRoots hnested
  have hsome : q.store.roots.isEmpty = false := by
    rw [hopen, List.isEmpty_eq_false_iff, ← List.length_pos_iff]
    omega
  have hall := leads_admitAll_iff (u := ()).mpr hq
  refine ⟨q, ?_⟩
  rw [runOn_firstPass, show outcome _ _ = _ from hall]
  dsimp only
  rw [hsome, Store.root, foldl_join, hopen]
  rfl

theorem firstPass_of_not_nested (state : σ) (hds : ∀ d ∈ ds, d.value.Groups)
    (hbroken : ¬Nested ds) :
    ∃ span q, runOn (firstPass (.silent σ) ds) (.empty .default) state =
      (.error (.unmatchedEnd span), q) := by
  obtain ⟨span, q, hq⟩ := outcome_admitAll_of_not_nested (p := ⟨.empty .default, [], state⟩)
    (Reporter.admitting_silent σ) hds hbroken Store.bare_empty rfl
  exact ⟨span, q, by rw [runOn_firstPass, hq]⟩

/-- A first pass of transactions within applied roots fails exactly if some part of the directives
ends more roots than it applies, or all of them apply more than they end. Otherwise it keeps every
transaction as it is written, but with its accounts beneath the roots that hold where it stands. -/
theorem firstPass_nesting (state : σ) (hds : ∀ d ∈ ds, d.value.Groups) :
    let run := runOn (firstPass (.silent σ) ds) (.empty .default) state
    ((∃ e, run.1 = .error e ∧ e.IsNesting) ↔
      (∃ part, part <+: ds ∧ applyCount part < endCount part) ∨ endCount ds < applyCount ds) ∧
    (¬((∃ part, part <+: ds ∧ applyCount part < endCount part) ∨ endCount ds < applyCount ds) →
      run.1 = .ok () ∧ run.2.store.transactions =
        .ofInserts ((withinRoots [] ds).map fun t => (t.moment, t))) := by
  intro run
  refine ⟨?_, fun h => ?_⟩
  · by_cases hnested : Nested ds
    · rw [or_iff_right (nested_iff_not_exists.mp hnested)]
      by_cases hunclosed : endCount ds < applyCount ds
      · obtain ⟨q, hq⟩ := firstPass_of_unclosed state hds hnested hunclosed
        exact iff_of_true ⟨_, congrArg Prod.fst hq, .inr ⟨_, rfl⟩⟩ hunclosed
      · obtain ⟨q, hq, -⟩ := firstPass_of_closed state hds hnested (by omega)
        refine iff_of_false ?_ hunclosed
        rintro ⟨e, he, -⟩
        cases (congrArg Prod.fst hq).symm.trans he
    · obtain ⟨span, q, hq⟩ := firstPass_of_not_nested state hds hnested
      exact iff_of_true ⟨_, congrArg Prod.fst hq, .inl ⟨span, rfl⟩⟩
        (.inl (not_not.mp fun h => hnested (nested_iff_not_exists.mpr h)))
  · rw [not_or, ← nested_iff_not_exists] at h
    obtain ⟨q, hq, htransactions⟩ := firstPass_of_closed state hds h.1 (by omega)
    have hrun : run = (.ok (), q) := hq
    rw [hrun]
    exact ⟨rfl, htransactions⟩

/-- A transaction beneath two roots and one beneath the outer of them; if only these are left, with
their ends, the first end is reported. -/
theorem firstPass_nesting_twice :
    let paid : Commodity := .plain "USD" .one
    let t := { Transaction.ofPayee ⟨2024, 1, 1, by decide⟩ "" with
      postings := [.ofAmount "X" paid, .ofAmount "Y" paid.invert] }
    let ends : List (Spanned Directive) := [⟨.transaction t, .line 3⟩, ⟨.stop, .line 6⟩,
      ⟨.transaction t, .line 7⟩, ⟨.stop, .line 10⟩]
    let ds := ⟨.applyAccount "A", .line 1⟩ :: ⟨.applyAccount "B", .line 2⟩ :: ends
    (∃ p, runOn (firstPass (.silent Unit) ds) (.empty .default) () = (.ok (), p) ∧
      p.store.transactions.values.map (fun t => t.postings.map (·.account)) =
        [[.named "A:B:X", .named "A:B:Y"], [.named "A:X", .named "A:Y"]]) ∧
      ∃ e, (runOn (firstPass (.silent Unit) ends) (.empty .default) ()).1 = .error e ∧
        e.IsNesting := by
  intro paid t ends ds
  have hnamed : ∀ x ∈ t.postings, ∃ name, x.account = .named name := by
    intro x hx
    rcases List.mem_cons.mp hx with rfl | hx
    · exact ⟨"X", by decide⟩
    · obtain rfl := List.mem_singleton.mp hx
      exact ⟨"Y", by decide⟩
  have ht : Directive.Groups (.transaction t) := .transaction (by decide +kernel) hnamed
  have hends : ∀ d ∈ ends, d.value.Groups := by
    simp only [ends, List.forall_mem_cons]
    exact ⟨ht, .stop, ht, .stop, List.forall_mem_nil _⟩
  have hds : ∀ d ∈ ds, d.value.Groups := by
    simp only [ds, List.forall_mem_cons]
    exact ⟨.applyAccount _, .applyAccount _, hends⟩
  have hbroken : ¬Nested ends := by decide +kernel
  have hclosed : Nested ds ∧ ¬endCount ds < applyCount ds := by decide +kernel
  rw [nested_iff_not_exists] at hbroken hclosed
  obtain ⟨hok, htransactions⟩ := (firstPass_nesting () hds).2 (not_or.mpr hclosed)
  have hfails := (firstPass_nesting () hends).1.mpr (Or.inl (not_not.mp hbroken))
  refine ⟨⟨_, Prod.ext hok rfl, ?_⟩, hfails⟩
  rw [htransactions]
  decide +kernel

end Filling

end Daybook
