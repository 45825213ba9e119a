import Daybook.Proofs.Store.Beneath
import Daybook.Proofs.Store.Mirrors

/-!
# Directives beneath an applied root

A journal that is read beneath an applied root leaves what it would leave without, each account
beneath the root (`firstPass_appliedRoot`): its run is followed step by step by the run beneath the
root, from stores that are `Rooted` to stores that are so again. The root itself is only there once
there is an account beneath it (`appliedRoot_notPure`).
-/

namespace Daybook

open AccountName (beneath join)

/-- The directive can be read beneath a root: it has nothing to do with roots and captures itself,
declares no account without a name, and has no placeholder with a root of its own. -/
def Directive.Movable : Directive → Prop
  | .applyAccount _ | .stop | .capture _ _ => False
  | .account d => d.name ≠ ""
  | .transaction t => ∀ x ∈ t.postings, x.Unscoped
  | _ => True

namespace Filling

open Store (Rooted Written)

variable {σ τ : Type} {root : String}

/-! ## Directives other than transactions -/

/-- A change that leaves accounts, roots and captures alone, and is the same beneath the root. -/
theorem mirrors_change {f f' : Store → Store}
    (hkeeps : ∀ s, (f s).roots = s.roots ∧ (f s).captures = s.captures ∧
      (f s).accounts = s.accounts)
    (hcommutes : ∀ s accounts, Rooted root s (s.appliedAt root accounts) →
      f' (s.appliedAt root accounts) = (f s).appliedAt root accounts) :
    Mirrors (Rooted root) (update f : Filling σ Unit) (update f' : Filling τ Unit)
      (fun _ _ => True) := by
  refine mirrors_update fun s s' h => ?_
  obtain ⟨hroots, hcaptures, accounts, htable, rfl⟩ := h
  obtain ⟨hroots', hcaptures', haccounts⟩ := hkeeps s
  rw [hcommutes s accounts ⟨hroots, hcaptures, accounts, htable, rfl⟩]
  exact ⟨hroots'.trans hroots, hcaptures'.trans hcaptures, accounts, haccounts ▸ htable, rfl⟩

theorem mirrors_declareAccount (hroot : root ≠ "") {d : AccountDeclaration} (hd : d.name ≠ "") :
    Mirrors (Rooted root) (declareAccount d : Filling σ Unit) (declareAccount d : Filling τ Unit)
      (fun _ _ => True) := by
  refine mirrors_store_bind fun s s' h => ?_
  have hname : join s.root d.name = d.name := by rw [h.root_eq.1, join, if_pos rfl]
  have hname' : join s'.root d.name = beneath root d.name := by
    rw [h.root_eq.2, AccountName.join_eq_beneath hroot hd]
  rw [hname, hname']
  refine (mirrors_change ?_ fun s accounts _ => ?_).bind fun _ _ _ => ?_
  · exact fun _ => ⟨rfl, rfl, rfl⟩
  · simp only [Store.appliedAt, NameMap.map_foldl_insert]
  refine (mirrors_addPayeeAccounts (fun p s s' h => ?_) d.payees).bind fun _ _ _ => ?_
  · obtain ⟨hroots, hcaptures, accounts, htable, rfl⟩ := h
    refine ⟨hroots, hcaptures, accounts, htable, ?_⟩
    simp only [Store.appliedAt, List.map_append, List.map_cons, List.map_nil]
  refine (mirrors_readClasses d.name (beneath root d.name) d.types).bind fun cs cs' hcs => ?_
  rw [hcs.2, hcs.1]
  refine mirrors_update fun s s' h => ?_
  have hbucket : Rooted root (if d.isDefault then { s with bucket := some d.name } else s)
      (if d.isDefault then { s' with bucket := some (beneath root d.name) } else s') := by
    split
    · obtain ⟨hroots, hcaptures, accounts, htable, rfl⟩ := h
      refine ⟨hroots, hcaptures, accounts, htable, ?_⟩
      rw [← AccountName.join_eq_beneath hroot hd]
      rfl
    · exact h
  have hdeclared := hbucket.withDeclared d.name d
  rw [Store.withDeclared, Store.withDeclared] at hdeclared
  exact hdeclared

theorem mirrors_apply (hroot : root ≠ "") {d : Directive} (hd : d.Movable) (span : Span) :
    Mirrors (Rooted root) (apply d span : Filling σ Unit) (apply d span : Filling τ Unit)
      (fun _ _ => True) := by
  cases d
  case applyAccount | stop | capture => exact hd.elim
  case account d => exact mirrors_declareAccount hroot hd
  case payee d =>
    refine (mirrors_mapM_readPattern d.aliases).bind fun ps ps' hps => ?_
    rw [hps]
    exact mirrors_change (fun _ => ⟨rfl, rfl, rfl⟩) fun _ _ _ => rfl
  case bucket name =>
    rw [apply, apply]
    refine mirrors_change (fun _ => ⟨rfl, rfl, rfl⟩) fun s accounts h => ?_
    have hname : join s.root name = name := by rw [h.root_eq.1, join, if_pos rfl]
    rw [hname, h.root_eq.2]
    rfl
  case commodity d =>
    rw [apply, apply]
    refine mirrors_change (fun s => ?_) fun s accounts _ => ?_
    · rw [declareCommodity]
      cases d.format <;> exact ⟨rfl, rfl, rfl⟩
    · rw [declareCommodity, declareCommodity]
      cases d.format <;> rfl
  case transaction | year | includeFile | test | comment => exact mirrors_pure trivial
  case price | rename | define | fixed | assert | check =>
    rw [apply, apply]
    exact mirrors_change (fun _ => ⟨rfl, rfl, rfl⟩) fun _ _ _ => rfl

/-! ## Postings -/

theorem mirrors_checkDeclared (kind : NameKind) (name name' : String) (declared : Bool) :
    Mirrors (Rooted root) (checkDeclared kind name declared : Filling σ Unit)
      (checkDeclared kind name' declared : Filling τ Unit) (fun _ _ => True) := by
  intro p p' u q hrel hrun
  obtain ⟨hpass, rfl⟩ := leads_checkDeclared.mp hrun
  rw [← hrel.options] at hpass
  exact ⟨(), _, leads_checkDeclared.mpr ⟨hpass, rfl⟩, trivial, hrel⟩

theorem mirrors_resolveCommodity (c : Commodity) :
    Mirrors (Rooted root) (resolveCommodity c : Filling σ Commodity)
      (resolveCommodity c : Filling τ Commodity) (fun d d' => d' = d) := by
  refine mirrors_store_bind fun s s' h => ?_
  obtain ⟨-, -, accounts, -, rfl⟩ := h
  refine (mirrors_checkDeclared _ _ _ _).bind fun _ _ _ => ?_
  refine (mirrors_change ?_ fun _ _ _ => rfl).bind fun _ _ _ => mirrors_pure rfl
  exact fun _ => ⟨rfl, rfl, rfl⟩

theorem mirrors_keepOn_beneath (name : String) (x : Posting) (account : AccountRef) :
    Mirrors (Rooted root) (keepOn name x : Filling σ Posting)
      (keepOn (beneath root name) { x with account } : Filling τ Posting)
      (fun y y' => y.account = .named name ∧
        y' = { y with account := .named (beneath root name) }) := by
  refine mirrors_keepOn mirrors_resolveCommodity x account (fun s s' h => ?_) fun s s' h =>
    h.ensureAccount name x.kind
  rw [h.isDeclaredAccount]
  exact mirrors_checkDeclared _ _ _ _

variable {p q : Progress σ} {p' : Progress τ}

/-- A posting that is kept on an account with a name is kept beneath the root too. -/
theorem exists_leads_resolvePosting_beneath {t t' : Transaction} {x y : Posting} {toBucket : Bool}
    (account : AccountRef) (hrel : Rooted root p.store p'.store)
    (hname : ∀ name, name ≠ "" → p.store.accountFor t x toBucket = .ok name →
      p'.store.accountFor t' { x with account } toBucket = .ok (beneath root name))
    (hrun : Leads (resolvePosting t x toBucket) p y q) (hy : y.account ≠ .named "") :
    ∃ q' : Progress τ,
      Leads (resolvePosting t' { x with account } toBucket) p' (y.beneath root) q' ∧
      Rooted root q.store q'.store := by
  obtain ⟨name, haccount, rfl, -⟩ := leads_resolvePosting hrun
  have hne : name ≠ "" := by
    rintro rfl
    exact hy rfl
  rw [resolvePosting_eq, leads_bind] at hrun
  obtain ⟨name', m, hm, hkeep⟩ := hrun
  obtain ⟨haccount', rfl⟩ := leads_accountOf.mp hm
  obtain rfl := Except.ok.inj (haccount.symm.trans haccount')
  obtain ⟨y', q', hq', ⟨-, rfl⟩, hend⟩ := mirrors_keepOn_beneath name x account p p' _ q hrel hkeep
  rw [resolvePosting_eq]
  exact ⟨q', leads_bind.mpr ⟨_, p', leads_accountOf.mpr ⟨hname name hne haccount, rfl⟩, hq'⟩, hend⟩

theorem exists_leads_resolvePostings_beneath (hroot : root ≠ "") {t t' : Transaction}
    (ht : t'.payee = t.payee) {place : Option Nat} {n : Nat} {xs xs' ys : List Posting}
    (hwritten : Written root place n xs xs') (hrel : Rooted root p.store p'.store)
    (hrun : Leads (resolvePostings t place n xs) p ys q)
    (hys : ∀ y ∈ ys, y.account ≠ .named "") :
    ∃ q' : Progress τ, Leads (resolvePostings t' place n xs') p' (ys.map (·.beneath root)) q' ∧
      Rooted root q.store q'.store := by
  induction hwritten generalizing p p' ys with
  | nil =>
    obtain ⟨rfl, rfl⟩ := leads_pure.mp hrun
    exact ⟨p', leads_pure.mpr ⟨rfl, rfl⟩, hrel⟩
  | @same n x xs xs' hplace hx _ ih =>
    simp only [resolvePostings, leads_bind, leads_pure] at hrun ⊢
    obtain ⟨y, m, hm, ys, _, hq, rfl, rfl⟩ := hrun
    have hname : ∀ name, name ≠ "" → p.store.accountFor t x (place = some n) = .ok name →
        p'.store.accountFor t' x (place = some n) = .ok (beneath root name) := by
      rw [decide_eq_false hplace, Store.accountFor_written, Store.accountFor_written]
      exact fun name hne haccount => hrel.resolveAccount hroot ht hx haccount hne
    obtain ⟨m', hm', hrel'⟩ := exists_leads_resolvePosting_beneath x.account hrel hname hm
      (hys y (by simp))
    obtain ⟨q', hq', hend⟩ := ih hrel' hq fun y hy => hys y (by simp [hy])
    exact ⟨q', ⟨_, m', hm', _, q', hq', rfl, rfl⟩, hend⟩
  | @bucket n x x' xs xs' hplace hx _ ih =>
    simp only [resolvePostings, leads_bind, leads_pure] at hrun ⊢
    obtain ⟨y, m, hm, ys, _, hq, rfl, rfl⟩ := hrun
    rw [decide_eq_true hplace] at hm ⊢
    have hy : y.account ≠ .named "" := hys y (by simp)
    -- The name of the bucket account is kept as it is, so that it is not empty.
    obtain rfl : x' = x.beneath root := by
      refine hx fun hempty => hy ?_
      obtain ⟨name, haccount, rfl, -⟩ := leads_resolvePosting hm
      rw [Store.accountFor_named hempty] at haccount
      obtain rfl := Except.ok.inj haccount
      rfl
    obtain ⟨m', hm', hrel'⟩ := exists_leads_resolvePosting_beneath (x.account.beneath root) hrel
      (fun name _ haccount => hrel.accountFor_bucket ht haccount) hm hy
    obtain ⟨q', hq', hend⟩ := ih hrel' hq fun y hy => hys y (by simp [hy])
    exact ⟨q', ⟨_, m', hm', _, q', hq', rfl, rfl⟩, hend⟩

/-! ## Transactions -/

theorem holds_of_leads_fileKept {r : Reporter σ} {t : Transaction} {u : Unit}
    (h : Leads (fileKept r t) p u q) : q.store.Holds t := by
  rw [Store.Holds, store_of_leads_fileKept h]
  exact (Store.holds_insert p.store t.moment t t).mpr (.inr rfl)

theorem mirrors_fileKept {r : Reporter σ} {r' : Reporter τ} (hr : r'.Admitting)
    (t : Transaction) : Mirrors (Rooted root) (fileKept r t) (fileKept r' (t.beneath root))
      (fun _ _ => True) := by
  have hfile : Mirrors (Rooted root) (file r t) (file r' (t.beneath root)) (fun _ _ => True) := by
    have hdigest : (t.beneath root).digest = t.digest := rfl
    have hpostings : (t.beneath root).postings = t.postings.map (·.beneath root) := rfl
    refine mirrors_file hdigest (fun s s' h => ?_) (fun s s' counts h => ?_) hr hpostings
      fun s s' h => ?_
    · obtain ⟨-, -, accounts, -, rfl⟩ := h
      rfl
    · obtain ⟨hroots, hcaptures, accounts, htable, rfl⟩ := h
      exact ⟨hroots, hcaptures, accounts, htable, rfl⟩
    · obtain ⟨hroots, hcaptures, accounts, htable, rfl⟩ := h
      refine ⟨hroots, hcaptures, accounts, htable, ?_⟩
      simp only [Store.appliedAt, Timeline.map_insert]
      rfl
  refine mirrors_store_bind fun s s' h => ?_
  obtain ⟨-, -, accounts, -, rfl⟩ := h
  by_cases hcheck : s.options.checkPayee = true
  · have hcheck' : (s.appliedAt root accounts).options.checkPayee = true := hcheck
    rw [if_pos hcheck, if_pos hcheck']
    exact (mirrors_checkDeclared _ _ _ _).bind fun _ _ _ => hfile
  · have hcheck' : ¬(s.appliedAt root accounts).options.checkPayee = true := hcheck
    rw [if_neg hcheck, if_neg hcheck']
    exact hfile

/-- A transaction that is admitted is admitted beneath the root. -/
theorem exists_leads_admitOne_beneath {r : Reporter σ} {r' : Reporter τ} (hr : r'.Admitting)
    (hroot : root ≠ "") {t : Transaction} (ht : ∀ x ∈ t.postings, x.Unscoped)
    (hrel : Rooted root p.store p'.store) {u : Unit} (hrun : Leads (admitOne r t) p u q)
    (hnamed : ∀ t, q.store.Holds t → ∀ x ∈ t.postings, x.account ≠ .named "") :
    ∃ q', Leads (admitOne r' t) p' () q' ∧ Rooted root q.store q'.store := by
  obtain ⟨u, place, ys, m, hbalanced, hkept, hfile⟩ := leads_admitOne_iff.mp hrun
  have hfirst : Rooted root
      ({ p with store := p.store.noteFirst (p.store.withPayee t) } : Progress σ).store
      ({ p' with store := p'.store.noteFirst (p.store.withPayee t) } : Progress τ).store :=
    hrel.noteFirst _
  have ht' : ∀ x ∈ (p.store.withPayee t).postings, x.Unscoped := by
    rw [Store.postings_withPayee]
    exact ht
  obtain ⟨xs, hbalanced', hwritten⟩ := hfirst.balanced hroot ht' hbalanced
  have hys : ∀ y ∈ ys, y.account ≠ .named "" := hnamed _ (holds_of_leads_fileKept hfile)
  have hpayee' : ({ u with postings := xs } : Transaction).payee = u.payee := rfl
  obtain ⟨m', hkept', hrel'⟩ :=
    exists_leads_resolvePostings_beneath hroot hpayee' hwritten hfirst hkept hys
  obtain ⟨_, q', hfile', -, hend⟩ := mirrors_fileKept hr _ m m' _ q hrel' hfile
  refine ⟨q', leads_admitOne_iff.mpr ?_, hend⟩
  rw [hrel.withPayee]
  exact ⟨_, place, _, m', hbalanced', hkept', hfile'⟩

/-! ## Runs -/

theorem exists_leads_takeIn_beneath {r : Reporter σ} {r' : Reporter τ} (hr : r'.Admitting)
    (hroot : root ≠ "") {d : Spanned Directive} (hd : d.value.Movable)
    (hrel : Rooted root p.store p'.store) (hrun : Leads (takeIn r d) p () q)
    (hnamed : ∀ t, q.store.Holds t → ∀ x ∈ t.postings, x.account ≠ .named "") :
    ∃ q', Leads (takeIn r' d) p' () q' ∧ Rooted root q.store q'.store := by
  rcases d with ⟨d, span⟩
  cases d
  case transaction t => exact exists_leads_admitOne_beneath hr hroot hd hrel hrun hnamed
  all_goals
    obtain ⟨_, q', hq', -, hend⟩ := mirrors_apply hroot hd span p p' () q hrel hrun
    exact ⟨q', hq', hend⟩

/-- Directives that are taken in are taken in beneath the root. -/
theorem exists_admits_beneath {r : Reporter σ} {r' : Reporter τ} (hr : r'.Admitting)
    (hroot : root ≠ "") {ds : List (Spanned Directive)} (hds : ∀ d ∈ ds, d.value.Movable)
    (hrel : Rooted root p.store p'.store) (hrun : Admits r p ds q)
    (hnamed : ∀ t, q.store.Holds t → ∀ x ∈ t.postings, x.account ≠ .named "") :
    ∃ q', Admits r' p' ds q' ∧ Rooted root q.store q'.store := by
  induction hrun with
  | start => exact ⟨p', .start, hrel⟩
  | @next ds d m q _ hd ih =>
    obtain ⟨m', hm', hrel'⟩ := ih (fun d hd => hds d (by simp [hd])) fun t ht =>
      hnamed t ((Admits.start.next hd).holds_iff.mpr (.inl ht))
    obtain ⟨q', hq', hend⟩ :=
      exists_leads_takeIn_beneath hr hroot (hds d (by simp)) hrel' hd hnamed
    exact ⟨q', hm'.next hq', hend⟩

def applied (root : String) (opening closing : Span) (ds : List (Spanned Directive)) :
    List (Spanned Directive) :=
  ⟨.applyAccount root, opening⟩ :: ds ++ [⟨.stop, closing⟩]

/-- Where a first pass of directives that can be read beneath a root succeeds, and stores no posting
to an account without a name, it succeeds beneath an applied root as well, and leaves the same
transactions, accounts and bucket account, but beneath the root. -/
theorem firstPass_appliedRoot {r : Reporter σ} {r' : Reporter τ} (hr : r'.Admitting)
    (hroot : root ≠ "") {ds : List (Spanned Directive)} {options : Options} {state : σ}
    (hds : ∀ d ∈ ds, d.value.Movable)
    (hfirst : runOn (firstPass r ds) (.empty options) state = (.ok (), p))
    (hnamed : ∀ t, p.store.Holds t → ∀ x ∈ t.postings, x.account ≠ .named "")
    (opening closing : Span) (state' : τ) :
    ∃ p', runOn (firstPass r' (applied root opening closing ds)) (.empty options) state' =
        (.ok (), p') ∧
      p'.store.transactions.entries =
        p.store.transactions.entries.map (fun e => (e.1, e.2.beneath root)) ∧
      Store.AccountsBeneath root p.store.accounts p'.store.accounts ∧
      p'.store.bucket = p.store.bucket.map (join root) := by
  obtain ⟨-, m, hall, -, rfl⟩ := leads_firstPass.mp hfirst
  have hstart : Rooted root (⟨.empty options, [], state⟩ : Progress σ).store
      (⟨{ Store.empty options with roots := [root] }, [], state'⟩ : Progress τ).store :=
    .empty root options
  obtain ⟨m', hall', hrel⟩ := exists_admits_beneath hr hroot hds hstart hall hnamed
  have hopen : Leads (takeIn r' ⟨.applyAccount root, opening⟩) ⟨.empty options, [], state'⟩ ()
      ⟨{ Store.empty options with roots := [root] }, [], state'⟩ := by
    change Leads (apply (.applyAccount root) opening) _ () _
    rw [apply, leads_update]
    rfl
  have hclose : Leads (takeIn r' ⟨.stop, closing⟩) m' ()
      { m' with store := { m'.store with roots := m'.store.roots.dropLast } } := by
    have hsome : ¬m'.store.roots.isEmpty = true := by simp [hrel.roots_eq]
    change Leads (apply .stop closing) m' () _
    rw [apply, leads_store_bind, if_neg hsome, leads_update]
  refine ⟨_, leads_firstPass.mpr ⟨rfl, _, (Admits.cons hopen hall').next hclose, ?_, rfl⟩, ?_⟩
  · simp [hrel.roots_eq]
  · have htable := hrel.table
    obtain ⟨-, -, accounts, -, hstore⟩ := hrel
    refine ⟨?_, htable, ?_⟩
    · rw [hstore]
      rfl
    · rw [hstore]
      rfl

/-- A coffee, which its payee brings to an account, and which is paid from the bucket account. -/
theorem firstPass_appliedRoot_coffee :
    let coffee : AccountDeclaration :=
      { AccountDeclaration.ofName "Expenses:Coffee" with payees := ["Starbucks"] }
    let lone : Transaction := { Transaction.ofPayee ⟨2024, 1, 1, by decide⟩ "Starbucks" with
      postings := [.ofAmount "Unknown" oneDollar] }
    let ds : List (Spanned Directive) :=
      [⟨.account coffee, .line 2⟩, ⟨.bucket "Cash", .line 4⟩, ⟨.transaction lone, .line 5⟩]
    let p := (runOn (firstPass (.silent Unit) ds) (.empty .default) ()).2
    p.store.transactions.values.map (fun t => t.postings.map (·.account)) =
        [[.named "Expenses:Coffee", .named "Cash"]] ∧
      ∃ p', runOn (firstPass (.silent Unit) (applied "Own" (.line 1) (.line 7) ds))
          (.empty .default) () = (.ok (), p') ∧
        p'.store.transactions.entries =
          p.store.transactions.entries.map (fun e => (e.1, e.2.beneath "Own")) ∧
        Store.AccountsBeneath "Own" p.store.accounts p'.store.accounts ∧
        p'.store.bucket = p.store.bucket.map (join "Own") := by
  intro coffee lone ds p
  have hds : ∀ d ∈ ds, d.value.Movable := by
    simp [ds, coffee, lone, Directive.Movable, Posting.Unscoped, AccountDeclaration.ofName,
      Posting.ofAmount, Posting.tally, AccountRef.ofText, AccountRef.placeholder]
  have hfirst : runOn (firstPass (.silent Unit) ds) (.empty .default) () = (.ok (), p) :=
    runOn_eq_ok (by decide +kernel)
  have hnamed : ∀ t ∈ p.store.transactions.values, ∀ x ∈ t.postings,
      x.account ≠ .named "" := by decide +kernel
  refine ⟨by decide +kernel, ?_⟩
  exact firstPass_appliedRoot (Reporter.admitting_silent Unit) (by decide) hds hfirst hnamed
    (.line 1) (.line 7) ()

/-- Where there are no accounts the root is not there either; a placeholder with a root of its own
is not looked for beneath the applied one; and a posting to an account without a name goes to the
root itself. -/
theorem appliedRoot_notPure :
    let pass (ds : List (Spanned Directive)) :=
      runOn (firstPass (.silent Unit) ds) (.empty .default) ()
    let own := applied "Own" (.line 1) (.line 9)
    let coffee : AccountDeclaration :=
      { AccountDeclaration.ofName "Expenses:Coffee" with payees := ["Starbucks"] }
    let bounded : List (Spanned Directive) := [⟨.account coffee, .line 2⟩,
      ⟨.transaction { Transaction.ofPayee ⟨2024, 1, 1, by decide⟩ "Starbucks" with
        postings := [.ofAmount "Expenses:Unknown" oneDollar, .tally "Cash"] }, .line 4⟩]
    let nameless : List (Spanned Directive) :=
      ⟨.rename "x" "", .line 2⟩ :: single [.ofAmount "x" oneDollar, .tally "Cash"]
    let stored (s : Store) := s.transactions.values.map fun t => t.postings.map (·.account)
    ((pass []).1 = .ok () ∧ (pass (own [])).1 = .ok () ∧
      (pass (own [])).2.store.accounts.contains "Own" = false) ∧
    ((pass bounded).1 = .ok () ∧
      (pass (own bounded)).1 = .error (.unresolved "Expenses:Unknown" "Starbucks")) ∧
    (stored (pass nameless).2.store = [[.named "", .named "Cash"]] ∧
      stored (pass (own nameless)).2.store = [[.named "Own", .named "Own:Cash"]]) := by
  decide +kernel

end Filling

end Daybook
