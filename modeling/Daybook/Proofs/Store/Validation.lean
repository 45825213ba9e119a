import Daybook.Proofs.Store.Mirrors
import Daybook.Proofs.Store.Orderly

/-!
# Checks that only observe

Which names must be declared is a matter of the options, and it decides only whether a first pass
succeeds. A pass that succeeds under some options is followed step by step by one under options that
are not pedantic (`exists_firstPass_of_lenient`), so that all passes over the same directives that
succeed leave the same store (`store_of_firstPass`). Under pedantic options a store vouches for what
it holds: it has been declared (`Vouches`), and nothing that has been declared is ever forgotten
(`Trusts`).
-/

namespace Daybook

namespace Filling

variable {σ τ : Type} {o : Options}

/-! ## Under other options -/

def Under (o : Options) (s s' : Store) : Prop := s' = { s with options := o }

theorem mirrors_change_under {f : Store → Store}
    (h : ∀ s : Store, f { s with options := o } = { f s with options := o }) :
    Mirrors (Under o) (update f : Filling σ Unit) (update f : Filling τ Unit)
      (fun _ _ => True) := by
  apply mirrors_update
  rintro s _ rfl
  exact h s

theorem mirrors_store_bind_under {α β : Type} {next : Store → Filling σ α}
    {next' : Store → Filling τ β} {Post : α → β → Prop}
    (h : ∀ s, Mirrors (Under o) (next s) (next' { s with options := o }) Post) :
    Mirrors (Under o) (store >>= next) (store >>= next') Post := by
  apply mirrors_store_bind
  rintro s _ rfl
  exact h s

theorem withBucket_under (s : Store) (o : Options) (d : AccountDeclaration) (name : String) :
    Store.withBucket { s with options := o } d name =
      { s.withBucket d name with options := o } := by
  rw [Store.withBucket, Store.withBucket]
  split <;> rfl

theorem withDeclared_under (s : Store) (o : Options) (name : String) (d : AccountDeclaration) :
    Store.withDeclared { s with options := o } name d =
      { s.withDeclared name d with options := o } := by
  have haccounts : (Store.ensureAccount { s with options := o } name .real).accounts =
      (s.ensureAccount name .real).accounts := rfl
  simp only [Store.withDeclared, haccounts]
  cases (s.ensureAccount name .real).accounts.find? name <;> rfl

theorem mirrors_declareAccount_under (d : AccountDeclaration) :
    Mirrors (Under o) (declareAccount d : Filling σ Unit) (declareAccount d : Filling τ Unit)
      (fun _ _ => True) := by
  refine mirrors_store_bind_under fun s => ?_
  have hroot : Store.root { s with options := o } = s.root := rfl
  rw [hroot]
  generalize AccountName.join s.root d.name = name
  have hadd : ∀ p s s', Under o s s' →
      Under o { s with payeeAccounts := s.payeeAccounts ++ [(p, name)] }
        { s' with payeeAccounts := s'.payeeAccounts ++ [(p, name)] } := by
    rintro p s _ rfl
    rfl
  refine (mirrors_change_under fun _ => rfl).bind fun _ _ _ => ?_
  refine (mirrors_addPayeeAccounts hadd d.payees).bind fun _ _ _ => ?_
  refine (mirrors_readClasses _ _ d.types).bind fun cs cs' hcs => ?_
  rw [hcs.2, hcs.1]
  refine mirrors_change_under (f := fun s => (s.withBucket d name).withDeclared name d) fun s => ?_
  rw [withBucket_under]
  exact withDeclared_under (s.withBucket d name) o name d

theorem mirrors_apply_under (d : Directive) (span : Span) :
    Mirrors (Under o) (apply d span : Filling σ Unit) (apply d span : Filling τ Unit)
      (fun _ _ => True) := by
  cases d
  case account d => exact mirrors_declareAccount_under d
  case stop =>
    refine mirrors_store_bind_under fun s => ?_
    have hthrow : Mirrors (Under o) (throw (.unmatchedEnd span) : Filling σ Unit)
        (throw (.unmatchedEnd span) : Filling τ Unit) (fun _ _ => True) := mirrors_throw
    split
    · exact hthrow.bind fun _ _ _ => mirrors_change_under fun _ => rfl
    · exact mirrors_change_under fun _ => rfl
  case capture account pattern =>
    refine (mirrors_readPattern pattern).bind fun p _ hp => ?_
    rw [hp]
    exact mirrors_change_under fun _ => rfl
  case payee d =>
    refine (mirrors_mapM_readPattern d.aliases).bind fun ps _ hps => ?_
    rw [hps]
    exact mirrors_change_under fun _ => rfl
  case commodity d =>
    refine mirrors_change_under fun s => ?_
    rw [declareCommodity, declareCommodity]
    cases d.format <;> rfl
  case transaction | year | includeFile | test | comment => exact mirrors_pure trivial
  case price | applyAccount | rename | bucket | define | fixed | assert | check =>
    rw [apply, apply]
    exact mirrors_change_under fun _ => rfl

/-! ## Transactions that nothing is checked of -/

theorem mirrors_checkDeclared_under (ho : o.pedantic = false) (kind : NameKind) (name : String)
    (declared : Bool) :
    Mirrors (Under o) (checkDeclared kind name declared : Filling σ Unit)
      (checkDeclared kind name declared : Filling τ Unit) (fun _ _ => True) := by
  rintro p p' u q hrel hrun
  have hpedantic : p'.store.options.pedantic = false := by rw [hrel, ho]
  refine ⟨(), _, leads_checkDeclared.mpr ⟨.inr hpedantic, rfl⟩, trivial, ?_⟩
  show p'.store = { q.store with options := o }
  rw [store_of_leads_checkDeclared hrun]
  exact hrel

theorem mirrors_resolveCommodity_under (ho : o.pedantic = false) (c : Commodity) :
    Mirrors (Under o) (resolveCommodity c : Filling σ Commodity)
      (resolveCommodity c : Filling τ Commodity) (fun d d' => d' = d) := by
  refine mirrors_store_bind_under fun s => ?_
  refine (mirrors_checkDeclared_under ho _ _ _).bind fun _ _ _ => ?_
  exact (mirrors_change_under fun _ => rfl).bind fun _ _ _ => mirrors_pure rfl

theorem mirrors_accountOf_under (t : Transaction) (x : Posting) (toBucket : Bool) :
    Mirrors (Under o) (accountOf t x toBucket : Filling σ String)
      (accountOf t x toBucket : Filling τ String) (fun name name' => name' = name) := by
  rintro p p' name q hrel hrun
  obtain ⟨hname, rfl⟩ := leads_accountOf.mp hrun
  refine ⟨name, p', leads_accountOf.mpr ⟨?_, rfl⟩, rfl, hrel⟩
  rw [hrel]
  exact hname

theorem mirrors_resolvePosting_under (ho : o.pedantic = false) (t : Transaction) (x : Posting)
    (toBucket : Bool) :
    Mirrors (Under o) (resolvePosting t x toBucket : Filling σ Posting)
      (resolvePosting t x toBucket : Filling τ Posting) (fun y y' => y' = y) := by
  rw [resolvePosting_eq, resolvePosting_eq]
  refine (mirrors_accountOf_under t x toBucket).bind fun name _ hname => ?_
  rw [hname]
  have hkeep : Mirrors (Under o) (keepOn name x : Filling σ Posting)
      (keepOn name { x with account := x.account } : Filling τ Posting)
      (fun y y' => y.account = .named name ∧ y' = { y with account := .named name }) := by
    refine mirrors_keepOn (mirrors_resolveCommodity_under ho) x x.account ?_ ?_
    · rintro s _ rfl
      exact mirrors_checkDeclared_under ho _ _ _
    · rintro s _ rfl
      rfl
  refine hkeep.mono fun y y' hy => ?_
  rw [hy.2, ← hy.1]

theorem mirrors_resolvePostings_under (ho : o.pedantic = false) (t : Transaction)
    (place : Option Nat) (n : Nat) (xs : List Posting) :
    Mirrors (Under o) (resolvePostings t place n xs : Filling σ (List Posting))
      (resolvePostings t place n xs : Filling τ (List Posting)) (fun ys ys' => ys' = ys) := by
  induction xs generalizing n with
  | nil => exact mirrors_pure rfl
  | cons x xs ih =>
    refine (mirrors_resolvePosting_under ho t x _).bind fun y _ hy => ?_
    refine (ih (n + 1)).bind fun ys _ hys => mirrors_pure ?_
    rw [hy, hys]

theorem mirrors_fileKept_under {r : Reporter σ} {r' : Reporter τ} (hr : r'.Admitting)
    (ho : o.pedantic = false) (t : Transaction) :
    Mirrors (Under o) (fileKept r t) (fileKept r' t) (fun _ _ => True) := by
  have hfile : Mirrors (Under o) (file r t) (file r' t) (fun _ _ => True) := by
    apply mirrors_file rfl _ _ hr (List.map_id t.postings).symm
    · rintro s _ rfl
      rfl
    · rintro s _ rfl
      rfl
    · rintro s _ counts rfl
      rfl
  -- Whether payees are checked may differ, but the second step fails on none.
  intro p p' u q hrel hrun
  have hpedantic : p'.store.options.pedantic = false := by rw [hrel, ho]
  obtain ⟨m, hm, hrun⟩ : ∃ m, m.store = p.store ∧ Leads (file r t) m u q := by
    rw [fileKept, leads_store_bind] at hrun
    split at hrun
    · obtain ⟨_, m, hcheck, hrun⟩ := leads_bind.mp hrun
      exact ⟨m, store_of_leads_checkDeclared hcheck, hrun⟩
    · exact ⟨p, rfl, hrun⟩
  have hstart : ∀ m' : Progress τ, m'.store = p'.store → Under o m.store m'.store := by
    intro m' hm'
    rw [hm, hm']
    exact hrel
  by_cases hcheck : p'.store.options.checkPayee = true
  · obtain ⟨m', hm'⟩ := exists_leads_checkDeclared hpedantic .payee t.payee
      (p'.store.isDeclaredPayee t.payee)
    obtain ⟨v, q', hq', hend⟩ := hfile m m' u q (hstart m' (store_of_leads_checkDeclared hm')) hrun
    refine ⟨v, q', ?_, hend⟩
    rw [fileKept, leads_store_bind, if_pos hcheck]
    exact leads_bind.mpr ⟨(), m', hm', hq'⟩
  · obtain ⟨v, q', hq', hend⟩ := hfile m p' u q (hstart p' rfl) hrun
    refine ⟨v, q', ?_, hend⟩
    rw [fileKept, leads_store_bind, if_neg hcheck]
    exact hq'

theorem mirrors_admitOne_under {r : Reporter σ} {r' : Reporter τ} (hr : r'.Admitting)
    (ho : o.pedantic = false) (t : Transaction) :
    Mirrors (Under o) (admitOne r t) (admitOne r' t) (fun _ _ => True) := by
  rw [admitOne_eq, admitOne_eq]
  refine mirrors_store_bind_under fun s => ?_
  refine (mirrors_change_under fun _ => rfl).bind fun _ _ _ => ?_
  refine mirrors_store_bind_under fun s' => ?_
  have hbalanced : Mirrors (Under o)
      (liftM (s'.balanced (s.withPayee t)) : Filling σ (Transaction × Option Nat))
      (liftM (Store.balanced { s' with options := o } (s.withPayee t)) : Filling τ _)
      (fun b b' => b' = b) := by
    intro p p' b q hrel hrun
    obtain ⟨hb, rfl⟩ := leads_lift.mp hrun
    exact ⟨b, p', leads_lift.mpr ⟨hb, rfl⟩, rfl, hrel⟩
  refine hbalanced.bind fun b _ hb => ?_
  rw [hb]
  refine (mirrors_resolvePostings_under ho b.1 b.2 0 b.1.postings).bind fun ys _ hys => ?_
  rw [hys]
  exact mirrors_fileKept_under hr ho _

theorem mirrors_takeIn_under {r : Reporter σ} {r' : Reporter τ} (hr : r'.Admitting)
    (ho : o.pedantic = false) (d : Spanned Directive) :
    Mirrors (Under o) (takeIn r d) (takeIn r' d) (fun _ _ => True) := by
  by_cases ht : ∃ t, d.value = .transaction t
  · obtain ⟨t, ht⟩ := ht
    rw [takeIn, takeIn, ht]
    exact mirrors_admitOne_under hr ho t
  · have hd : ∀ t, d.value ≠ .transaction t := fun t h => ht ⟨t, h⟩
    rw [takeIn_eq_apply r hd, takeIn_eq_apply r' hd]
    exact mirrors_apply_under d.value d.span

/-! ## Runs -/

variable {p q : Progress σ} {p' : Progress τ} {ds : List (Spanned Directive)}

theorem exists_admits_under {r : Reporter σ} {r' : Reporter τ} (hr : r'.Admitting)
    (ho : o.pedantic = false) (hrel : Under o p.store p'.store) (h : Admits r p ds q) :
    ∃ q', Admits r' p' ds q' ∧ Under o q.store q'.store := by
  induction h with
  | start => exact ⟨p', .start, hrel⟩
  | @next ds d m q _ hd ih =>
    obtain ⟨m', hm', hmrel⟩ := ih
    obtain ⟨_, q', hq', -, hend⟩ := mirrors_takeIn_under hr ho d m m' () q hmrel hd
    exact ⟨q', hm'.next hq', hend⟩

/-- A first pass that succeeds does so as well where nothing is checked, and leaves the same. -/
theorem exists_firstPass_of_lenient {r : Reporter σ} {r' : Reporter τ} (hr : r'.Admitting)
    (ho : o.pedantic = false) {options : Options} {state : σ}
    (h : runOn (firstPass r ds) (.empty options) state = (.ok (), p)) (state' : τ) :
    ∃ p', runOn (firstPass r' ds) (.empty o) state' = (.ok (), p') ∧
      p'.store = { p.store with options := o } := by
  obtain ⟨-, m, hall, hroots, rfl⟩ := leads_firstPass.mp h
  have hstart : Under o (⟨.empty options, [], state⟩ : Progress σ).store
      (⟨.empty o, [], state'⟩ : Progress τ).store := rfl
  obtain ⟨m', hall', hrel⟩ := exists_admits_under hr ho hstart hall
  have hroots' : m'.store.roots = [] := by rw [hrel, ← hroots]
  refine ⟨_, leads_firstPass.mpr ⟨rfl, m', hall', hroots', rfl⟩, ?_⟩
  show { m'.store with stage := .admitted } = _
  rw [hrel]

theorem store_of_firstPass {r : Reporter σ} {r' : Reporter τ} {options options' : Options}
    {state : σ} {state' : τ} (h : runOn (firstPass r ds) (.empty options) state = (.ok (), p))
    (h' : runOn (firstPass r' ds) (.empty options') state' = (.ok (), p')) :
    p'.store = { p.store with options := options' } := by
  obtain ⟨m, hm, hstore⟩ := exists_firstPass_of_lenient (o := .default)
    (Reporter.admitting_silent Unit) rfl h ()
  obtain ⟨m', hm', hstore'⟩ := exists_firstPass_of_lenient (o := .default)
    (Reporter.admitting_silent Unit) rfl h' ()
  have hsame : m = m' := (Prod.mk.inj (hm.symm.trans hm')).2
  have hoptions' := options_of_firstPass h'
  rw [hsame, hstore'] at hstore
  have heq := congrArg (fun s : Store => { s with options := options' }) hstore
  dsimp only at heq
  rw [← hoptions'] at heq ⊢
  exact heq

end Filling

/-! ## What has been declared -/

namespace Store

/-- Whether what the first store has declared is declared in the second one. -/
structure Trusts (s s' : Store) : Prop where
  accounts : ∀ name, s.isDeclaredAccount name = true → s'.isDeclaredAccount name = true
  commodities : ∀ name, s.isDeclaredCommodity name = true → s'.isDeclaredCommodity name = true
  payees : ∀ name, s.isDeclaredPayee name = true → s'.isDeclaredPayee name = true

/-- Whether the account of the posting has been declared, and so have the commodities of all its
amounts, unless they have no name. -/
structure VouchesFor (s : Store) (x : Posting) : Prop where
  account : ∃ name, x.account = .named name ∧ s.isDeclaredAccount name = true
  commodities : ∀ c ∈ x.values, s.isDeclaredCommodity c.name = true

/-- Whether all that the transaction names has been declared; its payee, if payees are checked. -/
structure Vouches (s : Store) (t : Transaction) : Prop where
  postings : ∀ x ∈ t.postings, s.VouchesFor x
  payee : s.options.checkPayee = true → s.isDeclaredPayee t.payee = true

variable {s s' : Store}

theorem Trusts.refl (s : Store) : Trusts s s := ⟨fun _ h => h, fun _ h => h, fun _ h => h⟩

theorem Trusts.trans {s'' : Store} (h : Trusts s s') (h' : Trusts s' s'') : Trusts s s'' :=
  ⟨fun n hn => h'.accounts n (h.accounts n hn), fun n hn => h'.commodities n (h.commodities n hn),
    fun n hn => h'.payees n (h.payees n hn)⟩

theorem VouchesFor.mono {x : Posting} (h : s.VouchesFor x) (htrusts : Trusts s s') :
    s'.VouchesFor x := by
  obtain ⟨name, hname, hdeclared⟩ := h.account
  exact ⟨⟨name, hname, htrusts.accounts name hdeclared⟩,
    fun c hc => htrusts.commodities c.name (h.commodities c hc)⟩

theorem Vouches.mono {t : Transaction} (h : s.Vouches t) (htrusts : Trusts s s')
    (hoptions : s'.options = s.options) : s'.Vouches t := by
  refine ⟨fun x hx => (h.postings x hx).mono htrusts, fun hcheck => htrusts.payees _ (h.payee ?_)⟩
  rwa [← hoptions]

/-! ## Nothing is forgotten -/

theorem isDeclaredAccount_ensureAccount {name : String} (h : s.isDeclaredAccount name = true)
    (other : String) (kind : PostingKind) :
    (s.ensureAccount other kind).isDeclaredAccount name = true := by
  rw [isDeclaredAccount, Option.any_eq_true] at h
  obtain ⟨a, ha, hdeclared⟩ := h
  rw [isDeclaredAccount, find?_ensureAccount_of_some ha]
  exact hdeclared

theorem trusts_withDeclared (s : Store) (other : String) (d : AccountDeclaration) :
    Trusts s (s.withDeclared other d) := by
  obtain ⟨a, -, hs⟩ := withDeclared_eq s other d
  refine ⟨fun name h => ?_, fun name h => ?_, fun name h => ?_⟩
  · rw [isDeclaredAccount, hs]
    by_cases heq : other = name
    · rw [heq, NameMap.find?_insert_self]
      rfl
    · rw [NameMap.find?_insert_of_ne _ _ heq]
      exact isDeclaredAccount_ensureAccount h other .real
  · rw [isDeclaredCommodity, hs]
    exact h
  · rw [isDeclaredPayee, hs]
    exact h

theorem SameRules.isDeclaredCommodity (h : SameRules s s') :
    s'.isDeclaredCommodity = s.isDeclaredCommodity := by
  rw [h]
  rfl

theorem trusts_note (s : Store) (x : Posting) : Trusts s (s.note x) := by
  have hsame := sameRules_note s x
  refine ⟨fun name h => ?_, fun name h => ?_, fun name h => ?_⟩
  · rw [isDeclaredAccount, note, accounts_registerAll]
    exact isDeclaredAccount_ensureAccount h _ x.kind
  · rwa [hsame.isDeclaredCommodity]
  · rwa [hsame]

theorem trusts_foldl_note (s : Store) (xs : List Posting) : Trusts s (xs.foldl note s) := by
  induction xs generalizing s with
  | nil => exact .refl s
  | cons x xs ih => exact (trusts_note s x).trans (ih (s.note x))

theorem trusts_withKept (s : Store) (t t' : Transaction) : Trusts s (s.withKept t t') := by
  have htrusts := trusts_foldl_note (s.noteFirst (s.withPayee t)) t'.postings
  exact ⟨htrusts.accounts, htrusts.commodities, htrusts.payees⟩

theorem payees_declareCommodity (s : Store) (d : CommodityDeclaration) :
    (Filling.declareCommodity d s).payees = s.payees := by
  rw [Filling.declareCommodity]
  split <;> rfl

theorem trusts_declareCommodity (s : Store) (d : CommodityDeclaration) :
    Trusts s (Filling.declareCommodity d s) := by
  have hdeclarations :
      (Filling.declareCommodity d s).declarations = s.declarations.insert d.name d := by
    rw [Filling.declareCommodity]
    split <;> rfl
  refine ⟨fun name h => ?_, fun name h => ?_, fun name h => ?_⟩
  · rw [isDeclaredAccount, accounts_declareCommodity]
    exact h
  · rw [isDeclaredCommodity, hdeclarations, NameMap.contains]
    by_cases heq : d.name = name
    · rw [heq, NameMap.find?_insert_self]
      rfl
    · rw [NameMap.find?_insert_of_ne _ _ heq]
      exact h
  · rw [isDeclaredPayee, payees_declareCommodity]
    exact h

theorem trusts_entered (s : Store) (d : Directive) : Trusts s (s.entered d) := by
  cases d
  case account d => exact trusts_withDeclared s _ d
  case commodity d => exact trusts_declareCommodity s d
  case price => exact ⟨fun _ h => h, fun _ h => h, fun _ h => h⟩
  all_goals exact .refl s

theorem Trusts.of_sameBooks {s'' : Store} (h : Trusts s s') (hbooks : SameBooks s' s'')
    (hpayees : s.payees <+: s''.payees) : Trusts s s'' := by
  refine ⟨fun name hname => ?_, fun name hname => ?_, fun name hname => ?_⟩
  · rw [hbooks]
    exact h.accounts name hname
  · rw [hbooks]
    exact h.commodities name hname
  · rw [isDeclaredPayee, List.any_eq_true] at hname ⊢
    obtain ⟨rule, hrule, hname⟩ := hname
    exact ⟨rule, hpayees.subset hrule, hname⟩

end Store

namespace Filling

variable {σ : Type} {r : Reporter σ} {p q : Progress σ} {ds : List (Spanned Directive)}

theorem trusts_of_leads_takeIn {d : Spanned Directive} {u : Unit}
    (h : Leads (takeIn r d) p u q) : Store.Trusts p.store q.store := by
  rcases leads_takeIn h with ⟨t, t', -, -, hq⟩ | ⟨hd, hbooks⟩
  · have htrusts := Store.trusts_withKept p.store t t'
    rw [hq]
    exact ⟨htrusts.accounts, htrusts.commodities, htrusts.payees⟩
  · rw [takeIn_eq_apply r hd] at h
    exact (Store.trusts_entered p.store d.value).of_sameBooks hbooks (leads_apply h).2.1

/-! ## What is kept has been declared -/

theorem declared_of_leads_checkDeclared {kind : NameKind} {name : String} {declared : Bool}
    {u : Unit} (hp : p.store.options.pedantic = true)
    (h : Leads (checkDeclared kind name declared) p u q) : declared = true := by
  obtain ⟨hdeclared | hlenient, -⟩ := leads_checkDeclared.mp h
  · exact hdeclared
  · rw [hp] at hlenient
    contradiction

theorem declared_of_leads_resolveCommodity? {s : Store} {c d : Option Commodity}
    (hp : s.options.pedantic = true) (hsame : Store.SameRules s p.store)
    (h : Leads (resolveCommodity? c) p d q) :
    Store.SameRules s q.store ∧ ∀ e ∈ d.toList, s.isDeclaredCommodity e.name = true := by
  refine ⟨(leads_resolveCommodity? h).2 ▸ hsame.trans (Store.sameRules_registerAll ..), ?_⟩
  cases c with
  | none =>
    obtain ⟨rfl, -⟩ := leads_pure.mp h
    exact fun e he => absurd he List.not_mem_nil
  | some c =>
    obtain ⟨d', h', rfl⟩ := leads_map.mp h
    rw [resolveCommodity, leads_store_bind] at h'
    simp only [leads_bind, leads_update, leads_pure] at h'
    obtain ⟨_, m, hcheck, _, _, rfl, rfl, rfl⟩ := h'
    have hdeclared := declared_of_leads_checkDeclared (hsame.options ▸ hp) hcheck
    rw [hsame.isDeclaredCommodity] at hdeclared
    exact List.forall_mem_singleton.mpr hdeclared

theorem vouchesFor_of_leads_resolvePosting {t : Transaction} {x y : Posting} {toBucket : Bool}
    (hp : p.store.options.pedantic = true) (h : Leads (resolvePosting t x toBucket) p y q) :
    q.store.VouchesFor y := by
  obtain ⟨-, -, -, hq⟩ := leads_resolvePosting h
  rw [resolvePosting] at h
  simp only [leads_bind, leads_accountOf, leads_store, leads_update, leads_pure] at h
  obtain ⟨name, _, ⟨-, rfl⟩, _, _, ⟨rfl, rfl⟩, _, m₁, hcheck, _, _, rfl, amount, m₂, hamount,
    lot, m₃, hlot, cost, m₄, hcost, balance, m₅, hbalance, rfl, rfl⟩ := h
  have hname := declared_of_leads_checkDeclared hp hcheck
  have hstore := store_of_leads_checkDeclared hcheck
  -- Each amount is looked up in a store that has the declarations of the first one.
  have h₁ : Store.SameRules p.store (m₁.store.ensureAccount name x.kind) :=
    hstore ▸ Store.sameRules_ensureAccount ..
  obtain ⟨h₂, hamount⟩ := declared_of_leads_resolveCommodity? hp h₁ hamount
  obtain ⟨h₃, hlot⟩ := declared_of_leads_resolveCommodity? hp h₂ hlot
  obtain ⟨h₄, hcost⟩ := declared_of_leads_resolveCommodity? hp h₃ hcost
  obtain ⟨-, hbalance⟩ := declared_of_leads_resolveCommodity? hp h₄ hbalance
  have htrusts := Store.trusts_note p.store
    { x with account := .named name, amount, lotPrice := lot, costPrice := cost
             balancePrice := balance }
  rw [← hq] at htrusts
  refine Store.VouchesFor.mono ⟨⟨name, rfl, hname⟩, fun c hc => ?_⟩ htrusts
  simp only [Posting.values, List.mem_append] at hc
  obtain ((hc | hc) | hc) | hc := hc
  · exact hamount c hc
  · exact hlot c hc
  · exact hcost c hc
  · exact hbalance c hc

theorem vouchesFor_of_leads_resolvePostings {t : Transaction} {place : Option Nat} {n : Nat}
    {xs ys : List Posting} (hp : p.store.options.pedantic = true)
    (h : Leads (resolvePostings t place n xs) p ys q) : ∀ y ∈ ys, q.store.VouchesFor y := by
  induction xs generalizing p n ys with
  | nil =>
    obtain ⟨rfl, -⟩ := leads_pure.mp h
    exact fun y hy => absurd hy List.not_mem_nil
  | cons x xs ih =>
    simp only [resolvePostings, leads_bind, leads_pure] at h
    obtain ⟨y, m, hy, ys, m', hys, rfl, rfl⟩ := h
    obtain ⟨-, -, -, hm⟩ := leads_resolvePosting hy
    have hpm : m.store.options.pedantic = true := by
      rw [hm, (Store.sameRules_note p.store y).options]
      exact hp
    refine List.forall_mem_cons.mpr ⟨?_, ih hpm hys⟩
    rw [(leads_resolvePostings hys).2]
    exact (vouchesFor_of_leads_resolvePosting hp hy).mono (Store.trusts_foldl_note m.store ys)

theorem declared_of_leads_fileKept {t : Transaction} {u : Unit}
    (hp : p.store.options.pedantic = true) (hcheck : p.store.options.checkPayee = true)
    (h : Leads (fileKept r t) p u q) : p.store.isDeclaredPayee t.payee = true := by
  rw [fileKept, leads_store_bind, if_pos hcheck] at h
  obtain ⟨_, m, hpayee, -⟩ := leads_bind.mp h
  exact declared_of_leads_checkDeclared hp hpayee

theorem vouches_of_leads_admitOne {t : Transaction} {u : Unit}
    (hp : p.store.options.pedantic = true) (h : Leads (admitOne r t) p u q) :
    ∃ t', q.store.Vouches t' ∧ ∀ x, q.store.Holds x ↔ p.store.Holds x ∨ x = t' := by
  obtain ⟨t₁, place, ys, m, -, hys, hfile⟩ := leads_admitOne_iff.mp h
  have hm := (leads_resolvePostings hys).2
  have hsame : Store.SameRules p.store m.store := by
    rw [hm]
    exact (Store.sameRules_noteFirst p.store _).trans (Store.sameRules_foldl_note _ ys)
  have hpm : m.store.options.pedantic = true := hsame.options ▸ hp
  have hvouches : ∀ y ∈ ys, m.store.VouchesFor y := by
    refine vouchesFor_of_leads_resolvePostings ?_ hys
    exact hp
  have hq := store_of_leads_fileKept hfile
  refine ⟨{ t₁ with postings := ys }, ⟨fun x hx => ?_, fun hcheck => ?_⟩, fun x => ?_⟩
  · rw [hq]
    exact ⟨(hvouches x hx).account, (hvouches x hx).commodities⟩
  · rw [hq] at hcheck ⊢
    exact declared_of_leads_fileKept hpm hcheck hfile
  · have htransactions : m.store.transactions = p.store.transactions := by rw [hsame]
    rw [Store.Holds, hq, htransactions]
    exact Store.holds_insert p.store _ _ x

theorem vouches_of_leads_takeIn {d : Spanned Directive} {u : Unit}
    (hp : p.store.options.pedantic = true) (hall : ∀ t, p.store.Holds t → p.store.Vouches t)
    (h : Leads (takeIn r d) p u q) : ∀ t, q.store.Holds t → q.store.Vouches t := by
  have hmono : ∀ t, p.store.Holds t → q.store.Vouches t := fun t ht =>
    (hall t ht).mono (trusts_of_leads_takeIn h) (options_of_leads_takeIn h)
  intro t ht
  by_cases hd : ∃ t, d.value = .transaction t
  · obtain ⟨t₀, hd⟩ := hd
    rw [takeIn, hd] at h
    obtain ⟨t', ht', hholds⟩ := vouches_of_leads_admitOne hp h
    rcases (hholds t).mp ht with ht | rfl
    · exact hmono t ht
    · exact ht'
  · rcases leads_takeIn h with ⟨t₀, -, hvalue, -, -⟩ | ⟨-, hbooks⟩
    · exact absurd ⟨t₀, hvalue⟩ hd
    · refine hmono t ?_
      have htransactions : q.store.transactions = p.store.transactions := by
        rw [hbooks]
        exact Store.transactions_entered p.store d.value
      rwa [Store.Holds, htransactions] at ht

theorem Admits.vouches (h : Admits r p ds q) (hp : p.store.options.pedantic = true)
    (hall : ∀ t, p.store.Holds t → p.store.Vouches t) :
    ∀ t, q.store.Holds t → q.store.Vouches t := by
  induction h with
  | start => exact hall
  | @next ds d m q hm hd ih => exact vouches_of_leads_takeIn (hm.options ▸ hp) ih hd

theorem vouches_of_firstPass {options : Options} (hp : options.pedantic = true) {state : σ}
    (h : runOn (firstPass r ds) (.empty options) state = (.ok (), q)) :
    ∀ t, q.store.Holds t → q.store.Vouches t := by
  obtain ⟨-, m, hall, -, rfl⟩ := leads_firstPass.mp h
  intro t ht
  obtain ⟨hpostings, hpayee⟩ :=
    hall.vouches hp (fun t ht => absurd ht List.not_mem_nil) t ht
  exact ⟨fun x hx => ⟨(hpostings x hx).account, (hpostings x hx).commodities⟩, hpayee⟩

/-- What is checked does not show in what a first pass leaves: any other pass over the same
directives that succeeds leaves the same but for the options, one under options that are not
pedantic does succeed, and under pedantic options all that is stored has been declared. -/
theorem firstPass_observes {τ : Type} {options : Options} {state : σ}
    (h : runOn (firstPass r ds) (.empty options) state = (.ok (), p)) :
    (∀ (r' : Reporter τ) options' state' p',
      runOn (firstPass r' ds) (.empty options') state' = (.ok (), p') →
        p'.store = { p.store with options := options' }) ∧
    (∀ (r' : Reporter τ) options' state', r'.Admitting → options'.pedantic = false →
      ∃ p', runOn (firstPass r' ds) (.empty options') state' = (.ok (), p')) ∧
    (options.pedantic = true → ∀ t, p.store.Holds t → p.store.Vouches t) := by
  refine ⟨fun r' options' state' p' h' => store_of_firstPass h h', ?_, ?_⟩
  · intro r' options' state' hr hlenient
    obtain ⟨p', hp', -⟩ := exists_firstPass_of_lenient hr hlenient h state'
    exact ⟨p', hp'⟩
  · exact fun hpedantic => vouches_of_firstPass hpedantic h

/-- A payment from the bucket account to a shop. Pedantic options check the payee, both accounts and
the dollar; without any of the declarations it is stored by lenient ones only. -/
theorem firstPass_observes_shop :
    let o : Options := { Options.default with pedantic := true, checkPayee := true }
    let lone : Transaction := { Transaction.ofPayee ⟨2024, 1, 1, by decide⟩ "Shop" with
      postings := [.ofAmount "Food" oneDollar] }
    let ds : List (Spanned Directive) :=
      [⟨.commodity (.ofName "$"), .line 1⟩, ⟨.account (.ofName "Food"), .line 2⟩,
        ⟨.account { AccountDeclaration.ofName "Cash" with isDefault := true }, .line 3⟩,
        ⟨.payee (.ofName "Shop"), .line 4⟩, ⟨.transaction lone, .line 5⟩]
    let p := (runOn (firstPass (.silent Unit) ds) (.empty o) ()).2
    (∀ d ∈ ds.take 4,
        (runOn (firstPass (.silent Unit) (ds.erase d)) (.empty o) ()).1.isOk = false) ∧
      p.store.transactions.values.map (fun t => t.postings.map (·.account)) =
        [[.named "Food", .named "Cash"]] ∧
      (∃ p', runOn (firstPass (.silent Unit) ds) (.empty .default) () = (.ok (), p') ∧
        p'.store = { p.store with options := .default }) ∧
      ∀ t, p.store.Holds t → p.store.Vouches t := by
  intro o lone ds p
  have hrun : runOn (firstPass (.silent Unit) ds) (.empty o) () = (.ok (), p) :=
    runOn_eq_ok (by decide +kernel)
  obtain ⟨hsame, hlenient, hvouches⟩ := firstPass_observes (τ := Unit) hrun
  obtain ⟨p', hp'⟩ := hlenient (.silent Unit) .default () (Reporter.admitting_silent Unit) rfl
  exact ⟨by decide +kernel, by decide +kernel,
    ⟨p', hp', hsame (.silent Unit) .default () p' hp'⟩, hvouches rfl⟩

end Filling

end Daybook
