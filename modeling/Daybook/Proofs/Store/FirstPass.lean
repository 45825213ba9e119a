import Daybook.Proofs.Store.Accounts

/-!
# Runs of the first pass

`Admits r p ds q` says that the directives have been taken in one by one, and `leads_firstPass` that
a first pass is such a run. Everything that is stored has been kept from a directive by the store
that stood before it (`Admits.holds_iff`). What a directive other than a transaction does to accounts
and commodities is `Store.entered`; the rest of the store does not bear on them (`leads_apply`).
-/

namespace Daybook

def Directive.fixedAfter (prices : NameMap Commodity) : Directive → NameMap Commodity
  | .fixed name c => prices.insert name c
  | _ => prices

namespace Store

/-- Brings in an account under its whole name, and notes what is declared about it. -/
def withDeclared (s : Store) (name : String) (d : AccountDeclaration) : Store :=
  let s := s.ensureAccount name .real
  match s.accounts.find? name with
  | some a =>
    let classes := d.types.filterMap AccountClass.ofText?
    { s with accounts := s.accounts.insert name (Filling.declared a d classes) }
  | none => s

/-- The store with the account as its bucket account, if the declaration makes it that. -/
def withBucket (s : Store) (d : AccountDeclaration) (name : String) : Store :=
  if d.isDefault then { s with bucket := some name } else s

/-- What a directive other than a transaction says of accounts, commodities and prices. -/
def entered (s : Store) : Directive → Store
  | .price x => { s.register x.value with prices := s.prices.insert x.moment x }
  | .account d => s.withDeclared (AccountName.join s.root d.name) d
  | .commodity d => Filling.declareCommodity d s
  | _ => s

/-- Whether two stores differ at most in the rules by which names are read. -/
def SameBooks (s s' : Store) : Prop :=
  s' = { s with
    renamings := s'.renamings, accountAliases := s'.accountAliases, payees := s'.payees
    payeeAccounts := s'.payeeAccounts, captures := s'.captures, roots := s'.roots
    bucket := s'.bucket, defines := s'.defines, fixed := s'.fixed, assertions := s'.assertions }

theorem SameBooks.withDeclared {s s' : Store} (h : SameBooks s s') (name : String)
    (d : AccountDeclaration) : SameBooks (s.withDeclared name d) (s'.withDeclared name d) := by
  rw [SameBooks] at h
  have haccounts :
      (s'.ensureAccount name .real).accounts = (s.ensureAccount name .real).accounts := by
    rw [h]
    rfl
  simp only [Store.withDeclared, haccounts]
  cases (s.ensureAccount name .real).accounts.find? name with
  | none =>
    rw [h]
    rfl
  | some a =>
    rw [h]
    rfl

theorem ensureAccount_eq (s : Store) (name : String) (kind : PostingKind) :
    s.ensureAccount name kind = { s with accounts := (s.ensureAccount name kind).accounts } :=
  rfl

theorem withDeclared_eq (s : Store) (name : String) (d : AccountDeclaration) :
    ∃ a, (s.ensureAccount name .real).accounts.find? name = some a ∧
      s.withDeclared name d = { s with
        accounts := (s.ensureAccount name .real).accounts.insert name
          (Filling.declared a d (d.types.filterMap AccountClass.ofText?)) } := by
  obtain ⟨a, ha⟩ := Option.isSome_iff_exists.mp
    (houses_ensureAccount s name .real name List.mem_cons_self)
  refine ⟨a, ha, ?_⟩
  simp only [withDeclared, ha]
  rw [ensureAccount_eq]

theorem entered_eq (s : Store) (d : Directive) : s.entered d = { s with
    accounts := (s.entered d).accounts, samples := (s.entered d).samples
    declarations := (s.entered d).declarations, defaultName := (s.entered d).defaultName
    firstName := (s.entered d).firstName, prices := (s.entered d).prices } := by
  cases d
  case account d =>
    obtain ⟨a, -, hs⟩ := withDeclared_eq s (AccountName.join s.root d.name) d
    rw [entered, hs]
  case commodity d =>
    rw [entered, Filling.declareCommodity]
    split <;> rfl
  all_goals rfl

theorem transactions_entered (s : Store) (d : Directive) :
    (s.entered d).transactions = s.transactions := by
  rw [entered_eq]

theorem options_entered (s : Store) (d : Directive) : (s.entered d).options = s.options := by
  rw [entered_eq]

def withKept (s : Store) (t t' : Transaction) : Store :=
  { t'.postings.foldl note (s.noteFirst (s.withPayee t)) with
    transactions := s.transactions.insert t'.moment t' }

def Holds (s : Store) (t : Transaction) : Prop := t ∈ s.transactions.values

theorem holds_insert (s : Store) (m : Moment) (t x : Transaction) :
    x ∈ (s.transactions.insert m t).values ↔ s.Holds x ∨ x = t := by
  have hperm := (s.transactions.perm_insert m t).map Prod.snd
  rw [Timeline.values, hperm.mem_iff, List.map_cons, List.mem_cons, or_comm]
  rfl

end Store

namespace Filling

variable {σ : Type} {r : Reporter σ} {p q m : Progress σ} {ds : List (Spanned Directive)}

def takeIn (r : Reporter σ) (d : Spanned Directive) : Filling σ Unit :=
  match d.value with
  | .transaction t => admitOne r t
  | other => apply other d.span

theorem takeIn_eq_apply (r : Reporter σ) {d : Spanned Directive}
    (hd : ∀ t, d.value ≠ .transaction t) : takeIn r d = apply d.value d.span := by
  rcases d with ⟨d, span⟩
  cases d
  case transaction t => exact absurd rfl (hd t)
  all_goals rfl

/-- The run takes the directives in, one by one. -/
inductive Admits (r : Reporter σ) (p : Progress σ) : List (Spanned Directive) → Progress σ → Prop
  | start : Admits r p [] p
  | next {ds d m q} : Admits r p ds m → Leads (takeIn r d) m () q → Admits r p (ds ++ [d]) q

/-! ## Runs -/

theorem Admits.append {before after : List (Spanned Directive)} (h : Admits r p before m)
    (h' : Admits r m after q) : Admits r p (before ++ after) q := by
  induction h' with
  | start => rwa [List.append_nil]
  | next _ hd ih =>
    rw [← List.append_assoc]
    exact ih.next hd

theorem Admits.cons {d : Spanned Directive} (hd : Leads (takeIn r d) p () m)
    (h : Admits r m ds q) : Admits r p (d :: ds) q :=
  (Admits.start.next hd).append h

theorem leads_admitAll_cons {d : Spanned Directive} {u : Unit} :
    Leads (admitAll r (d :: ds)) p u q ↔
      ∃ m, Leads (takeIn r d) p () m ∧ Leads (admitAll r ds) m u q := by
  have hstep : admitAll r (d :: ds) = takeIn r d >>= fun _ => admitAll r ds := by
    rcases d with ⟨d, span⟩
    cases d <;> rfl
  rw [hstep, leads_bind]
  exact ⟨fun ⟨_, m, h⟩ => ⟨m, h⟩, fun ⟨m, h⟩ => ⟨(), m, h⟩⟩

theorem leads_admitAll_iff {u : Unit} : Leads (admitAll r ds) p u q ↔ Admits r p ds q := by
  constructor
  · intro h
    induction ds generalizing p with
    | nil =>
      obtain ⟨-, rfl⟩ := leads_pure.mp h
      exact .start
    | cons d ds ih =>
      obtain ⟨m, hd, hds⟩ := leads_admitAll_cons.mp h
      exact .cons hd (ih hds)
  · intro h
    have hgoes : ∀ rest x, Leads (admitAll r rest) q () x →
        Leads (admitAll r (ds ++ rest)) p () x := by
      induction h with
      | start => exact fun rest x hx => hx
      | @next ds d m q _ hd ih =>
        intro rest x hx
        rw [List.append_assoc]
        exact ih (d :: rest) x (leads_admitAll_cons.mpr ⟨q, hd, hx⟩)
    have hend := hgoes [] q (leads_pure.mpr ⟨rfl, rfl⟩)
    rwa [List.append_nil] at hend

theorem Admits.unique {q' : Progress σ} (h : Admits r p ds q) (h' : Admits r p ds q') : q = q' := by
  have hend := leads_admitAll_iff (u := ()).mpr h
  have hend' := leads_admitAll_iff (u := ()).mpr h'
  rw [Leads] at hend hend'
  rw [hend] at hend'
  exact (Prod.mk.inj hend').2

theorem Admits.split {before after : List (Spanned Directive)} {d : Spanned Directive}
    (h : Admits r p (before ++ d :: after) q) :
    ∃ m m', Admits r p before m ∧ Leads (takeIn r d) m () m' ∧ Admits r m' after q := by
  induction before generalizing p with
  | nil =>
    obtain ⟨m, hd, hafter⟩ := leads_admitAll_cons.mp (leads_admitAll_iff (u := ()).mpr h)
    exact ⟨p, m, .start, hd, leads_admitAll_iff.mp hafter⟩
  | cons x before ih =>
    obtain ⟨n, hx, hrest⟩ := leads_admitAll_cons.mp (leads_admitAll_iff (u := ()).mpr h)
    obtain ⟨m, m', hbefore, hd, hafter⟩ := ih (leads_admitAll_iff.mp hrest)
    exact ⟨m, m', .cons hx hbefore, hd, hafter⟩

theorem leads_firstPass {u : Unit} :
    Leads (firstPass r ds) p u q ↔ p.store.stage = .parsed ∧
      ∃ m, Admits r p ds m ∧ m.store.roots = [] ∧
        { m with store := { m.store with stage := .admitted } } = q := by
  rw [firstPass, leads_bind]
  simp only [leads_expect, Pass.stage]
  constructor
  · rintro ⟨_, _, ⟨hstage, rfl⟩, h⟩
    rw [leads_bind] at h
    obtain ⟨_, m, hall, h⟩ := h
    rw [leads_store_bind] at h
    split at h
    · rw [leads_bind] at h
      obtain ⟨_, _, hthrow, -⟩ := h
      exact absurd hthrow leads_throw
    · rename_i hroots
      exact ⟨hstage, m, leads_admitAll_iff.mp hall, by simpa using hroots, leads_update.mp h⟩
  · rintro ⟨hstage, m, hall, hroots, rfl⟩
    refine ⟨(), p, ⟨hstage, rfl⟩, ?_⟩
    rw [leads_bind]
    refine ⟨(), m, leads_admitAll_iff.mpr hall, ?_⟩
    rw [leads_store_bind, if_neg (by simp [hroots]), leads_update]

/-! ## Directives other than transactions -/

theorem leads_readPattern {text : String} {pattern : Pattern}
    (h : Leads (readPattern text) p pattern q) : p = q := by
  rw [readPattern] at h
  split at h
  · exact (leads_pure.mp h).2
  · exact absurd h leads_throw

theorem leads_mapM_readPattern {texts : List String} {patterns : List Pattern}
    (h : Leads (texts.mapM readPattern) p patterns q) : p = q := by
  induction texts generalizing p patterns with
  | nil => exact (leads_pure.mp h).2
  | cons text texts ih =>
    rw [List.mapM_cons] at h
    simp only [leads_bind, leads_pure] at h
    obtain ⟨_, m, hm, _, m', hm', -, rfl⟩ := h
    rw [leads_readPattern hm, ih hm']

theorem leads_addPayeeAccounts {account : String} {texts : List String} {u : Unit}
    (h : Leads (addPayeeAccounts account texts) p u q) :
    q.store = { p.store with payeeAccounts := q.store.payeeAccounts } := by
  induction texts generalizing p with
  | nil => rw [← (leads_pure.mp h).2]
  | cons text texts ih =>
    simp only [addPayeeAccounts, leads_bind, leads_update] at h
    obtain ⟨_, m, hm, _, _, rfl, h⟩ := h
    obtain rfl := leads_readPattern hm
    rw [ih h]

theorem leads_readClasses {account : String} {texts : List String} {classes : List AccountClass}
    (h : Leads (readClasses account texts) p classes q) :
    classes = texts.filterMap AccountClass.ofText? ∧ q.store = p.store := by
  induction texts generalizing p classes with
  | nil =>
    obtain ⟨rfl, rfl⟩ := leads_pure.mp h
    exact ⟨rfl, rfl⟩
  | cons text texts ih =>
    rw [readClasses] at h
    cases htext : AccountClass.ofText? text with
    | some c =>
      simp only [htext, leads_bind, leads_pure] at h
      obtain ⟨_, m, hrest, rfl, rfl⟩ := h
      obtain ⟨rfl, hstore⟩ := ih hrest
      exact ⟨by rw [List.filterMap_cons_some htext], hstore⟩
    | none =>
      simp only [htext, leads_bind, leads_warn] at h
      obtain ⟨_, _, rfl, hrest⟩ := h
      obtain ⟨rfl, hstore⟩ := ih hrest
      exact ⟨by rw [List.filterMap_cons_none htext], hstore⟩

theorem leads_declareAccount {d : AccountDeclaration} {u : Unit}
    (h : Leads (declareAccount d) p u q) :
    Store.SameBooks (p.store.entered (.account d)) q.store ∧
      q.store.payees = p.store.payees ∧ q.store.fixed = p.store.fixed := by
  rw [declareAccount, leads_store_bind] at h
  rw [Store.entered]
  generalize AccountName.join p.store.root d.name = name at h ⊢
  rw [leads_bind] at h
  obtain ⟨_, m₁, hm₁, h⟩ := h
  rw [leads_bind] at h
  obtain ⟨_, m₂, hpayees, h⟩ := h
  rw [leads_bind] at h
  obtain ⟨classes, m₃, hclasses, h⟩ := h
  obtain ⟨rfl, hm₃⟩ := leads_readClasses hclasses
  have hm₂ := leads_addPayeeAccounts hpayees
  have hdeclare : Leads (update fun s => (s.withBucket d name).withDeclared name d) m₃ u q := h
  have hbooks : Store.SameBooks p.store (m₃.store.withBucket d name) := by
    rw [hm₃, hm₂, ← leads_update.mp hm₁, Store.withBucket]
    split <;> rfl
  rw [← leads_update.mp hdeclare]
  refine ⟨hbooks.withDeclared name d, ?_⟩
  obtain ⟨a, -, hs⟩ := (m₃.store.withBucket d name).withDeclared_eq name d
  rw [hs, Store.withBucket, hm₃, hm₂, ← leads_update.mp hm₁]
  split <;> exact ⟨rfl, rfl⟩

/-- A directive other than a transaction enters what it says, and may change rules for names; but it
takes no payee away, and fixes no price unless it says so. -/
theorem leads_apply {d : Directive} {span : Span} {u : Unit} (h : Leads (apply d span) p u q) :
    Store.SameBooks (p.store.entered d) q.store ∧ p.store.payees <+: q.store.payees ∧
      q.store.fixed = d.fixedAfter p.store.fixed := by
  cases d
  case account d =>
    obtain ⟨hbooks, hpayees, hfixed⟩ := leads_declareAccount h
    exact ⟨hbooks, hpayees ▸ List.prefix_rfl, hfixed⟩
  case stop =>
    rw [apply, leads_store_bind] at h
    split at h
    · rw [leads_bind] at h
      obtain ⟨_, _, hthrow, -⟩ := h
      exact absurd hthrow leads_throw
    · exact leads_update.mp h ▸ ⟨rfl, List.prefix_rfl, rfl⟩
  case capture account pattern =>
    rw [apply, leads_bind] at h
    obtain ⟨_, _, hpattern, h⟩ := h
    obtain rfl := leads_readPattern hpattern
    exact leads_update.mp h ▸ ⟨rfl, List.prefix_rfl, rfl⟩
  case payee d =>
    rw [apply, leads_bind] at h
    obtain ⟨_, _, hpatterns, h⟩ := h
    obtain rfl := leads_mapM_readPattern hpatterns
    exact leads_update.mp h ▸ ⟨rfl, List.prefix_append .., rfl⟩
  case commodity d =>
    rw [apply, leads_update] at h
    have hrules : q.store.payees = p.store.payees ∧ q.store.fixed = p.store.fixed := by
      rw [← h, declareCommodity]
      split <;> exact ⟨rfl, rfl⟩
    exact ⟨h ▸ rfl, hrules.1 ▸ List.prefix_rfl, hrules.2⟩
  case transaction | year | includeFile | test | comment =>
    exact (leads_pure.mp h).2 ▸ ⟨rfl, List.prefix_rfl, rfl⟩
  case price | applyAccount | rename | bucket | define | fixed | assert | check =>
    rw [apply, leads_update] at h
    exact h ▸ ⟨rfl, List.prefix_rfl, rfl⟩

theorem leads_takeIn {d : Spanned Directive} {u : Unit} (h : Leads (takeIn r d) p u q) :
    (∃ t t', d.value = .transaction t ∧ p.store.kept? t = .ok t' ∧
      q.store = { p.store.withKept t t' with digests := p.store.digestsWith t' }) ∨
    (∀ t, d.value ≠ .transaction t) ∧ Store.SameBooks (p.store.entered d.value) q.store := by
  by_cases ht : ∃ t, d.value = .transaction t
  · obtain ⟨t, ht⟩ := ht
    rw [takeIn, ht] at h
    obtain ⟨t', hkept, hq⟩ := leads_admitOne h
    exact .inl ⟨t, t', ht, hkept, hq⟩
  · have hd : ∀ t, d.value ≠ .transaction t := fun t hvalue => ht ⟨t, hvalue⟩
    rw [takeIn_eq_apply r hd] at h
    exact .inr ⟨hd, (leads_apply h).1⟩

def single (postings : List Posting) : List (Spanned Directive) :=
  [⟨.transaction { Transaction.ofPayee ⟨2024, 1, 1, by decide⟩ "" with postings }, .line 1⟩]

theorem postings_of_mem_single {postings : List Posting} {t : Transaction} {span : Span}
    (h : ⟨.transaction t, span⟩ ∈ single postings) : t.postings = postings := by
  rw [single, List.mem_singleton] at h
  obtain ⟨hvalue, -⟩ := Spanned.mk.inj h
  rw [Directive.transaction.inj hvalue]

/-- One dollar, written with the unit before the number. -/
def oneDollar : Commodity := .ofCurrency "$" .one

/-! ## What is stored -/

/-- The run comes to store `s` with the transaction `t`, which is kept as `t'`. -/
def Files (r : Reporter σ) (p : Progress σ) (ds : List (Spanned Directive)) (s : Store)
    (t t' : Transaction) : Prop :=
  ∃ before span after m, ds = before ++ ⟨.transaction t, span⟩ :: after ∧ Admits r p before m ∧
    m.store = s ∧ s.kept? t = .ok t'

theorem files_nil {s : Store} {t t' : Transaction} : ¬Files r p [] s t t' := by
  rintro ⟨before, span, after, m, h, -⟩
  simp at h

theorem files_concat_iff {d : Spanned Directive} {s : Store} {t t' : Transaction}
    (h : Admits r p ds m) :
    Files r p (ds ++ [d]) s t t' ↔ Files r p ds s t t' ∨
      (d.value = .transaction t ∧ m.store = s ∧ s.kept? t = .ok t') := by
  constructor
  · rintro ⟨before, span, after, n, hds, hbefore, hs, hkept⟩
    rcases List.eq_nil_or_concat after with rfl | ⟨after, x, rfl⟩
    · obtain ⟨rfl, hd⟩ := List.append_inj' hds rfl
      obtain rfl := h.unique hbefore
      exact .inr ⟨by rw [(List.cons.inj hd).1], hs, hkept⟩
    · rw [List.concat_eq_append, ← List.cons_append, ← List.append_assoc] at hds
      obtain ⟨hds, -⟩ := List.append_inj' hds rfl
      exact .inl ⟨before, span, after, n, hds, hbefore, hs, hkept⟩
  · rintro (⟨before, span, after, n, rfl, hbefore, hs, hkept⟩ | ⟨hd, hs, hkept⟩)
    · exact ⟨before, span, after ++ [d], n, by simp, hbefore, hs, hkept⟩
    · exact ⟨ds, d.span, [], m, by rw [← hd], h, hs, hkept⟩

theorem Admits.holds_iff {x : Transaction} (h : Admits r p ds q) :
    q.store.Holds x ↔ p.store.Holds x ∨ ∃ s t, Files r p ds s t x := by
  induction h with
  | start => simp [files_nil]
  | @next ds d m q hds hd ih =>
    simp only [files_concat_iff hds, exists_or, ← or_assoc, ← ih]
    rcases leads_takeIn hd with ⟨t, t', hvalue, hkept, hq⟩ | ⟨hvalue, hbooks⟩
    · have hholds : q.store.Holds x ↔ m.store.Holds x ∨ x = t' := by
        rw [Store.Holds, hq]
        exact Store.holds_insert m.store _ _ x
      rw [hholds]
      refine or_congr_right ?_
      constructor
      · rintro rfl
        exact ⟨m.store, t, hvalue, rfl, hkept⟩
      · rintro ⟨s, t₁, hvalue', rfl, hkept'⟩
        obtain rfl := Directive.transaction.inj (hvalue.symm.trans hvalue')
        exact (Except.ok.inj (hkept.symm.trans hkept')).symm
    · have htransactions : q.store.transactions = m.store.transactions := by
        rw [hbooks, Store.transactions_entered]
      rw [Store.Holds, htransactions]
      exact (or_iff_left fun ⟨s, t, ht, _⟩ => hvalue t ht).symm

end Filling

end Daybook
