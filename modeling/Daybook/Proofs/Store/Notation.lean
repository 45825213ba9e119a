import Daybook.Proofs.Booking.Notation
import Daybook.Proofs.Store.FirstPass
import Daybook.Proofs.Store.Kept
import Daybook.Store.Posting

/-!
# The notation of a declared currency

A currency that has been declared is kept with its unit before the number, however it is written,
but amounts are balanced as they are written. So it does not matter how the amounts of a declared
currency are written, as long as no transaction that has to balance has costs in both notations
(`leads_firstPass_renotes`).
-/

namespace Daybook

open Posting (costs)

def Transaction.Names (n : String) (t : Transaction) : Prop :=
  ∃ p ∈ t.postings, ∃ c ∈ p.amount, c.name = n

theorem Transaction.Renotes.names {n : String} {t t' : Transaction} (h : t.Renotes n t')
    (hnames : t.Names n) : t'.Names n := by
  obtain ⟨p, hp, c, hc, hname⟩ := hnames
  obtain ⟨before, after, hparts⟩ := List.append_of_mem hp
  obtain ⟨before', p', after', hparts', -, hpp, -⟩ :=
    exists_of_forall₂_append_cons (hparts ▸ h.2)
  rcases hpp.amount_cases with ⟨hnone, -⟩ | ⟨c₀, c', hsome, hsome', hcc⟩
  · rw [hnone] at hc
    cases hc
  · rw [hsome] at hc
    obtain rfl := Option.some.inj hc
    exact ⟨p', by simp [hparts'], c', hsome', hcc.name.trans hname⟩

theorem Transaction.Renotes.eq_of_not_names {n : String} {t t' : Transaction}
    (h : t.Renotes n t') (hnames : ¬t.Names n) : t' = t := by
  have hothers : ∀ p ∈ t.postings, ∀ c ∈ p.amount, c.name ≠ n :=
    fun p hp c hc hname => hnames ⟨p, hp, c, hc, hname⟩
  have hpostings : t'.postings = t.postings := by
    obtain ⟨-, hps⟩ := h
    generalize t.postings = ps, t'.postings = ps' at hps hothers
    induction hps with
    | nil => rfl
    | cons hp _ ih =>
      obtain ⟨hfirst, hrest⟩ := List.forall_mem_cons.mp hothers
      rw [ih hrest, hp.eq_of_not_named hfirst]
  rw [h.1, hpostings]

theorem getLast?_filterMap_concat {α β : Type} (f : α → Option β) (xs : List α) (x : α) :
    ((xs ++ [x]).filterMap f).getLast? = (f x).or (xs.filterMap f).getLast? := by
  rw [List.filterMap_append, List.getLast?_append]
  cases hx : f x with
  | none =>
    simp only [List.filterMap_cons, List.filterMap_nil, hx]
    rfl
  | some y =>
    simp only [List.filterMap_cons, List.filterMap_nil, hx]
    rfl

namespace Directive

/-- The second directive is the first one; if it is a transaction, its amounts in `n` may be written
on the other side of the number. -/
inductive Renotes (n : String) : Directive → Directive → Prop
  | transaction {t t' : Transaction} : t.Renotes n t' → Renotes n (.transaction t) (.transaction t')
  | same (d : Directive) : Renotes n d d

/-- Whether the directive is no transaction that has to balance and mixes notations of `n`. -/
def Unmixed (n : String) : Directive → Prop
  | .transaction t => t.Unmixed n
  | _ => True

def declaration? (n : String) : Directive → Option CommodityDeclaration
  | .commodity d => if d.name = n then some d else none
  | _ => none

/-- The second list is the first one, with posting amounts in `n` written on either side. -/
def RenotesEach (n : String) (ds ds' : List (Spanned Directive)) : Prop :=
  List.Forall₂ (fun d d' => d.value.Renotes n d'.value ∧ d'.span = d.span) ds ds'

def lastDeclaration? (n : String) (ds : List (Spanned Directive)) : Option CommodityDeclaration :=
  (ds.filterMap (·.value.declaration? n)).getLast?

/-- Whether posting amounts in `n` stand behind declarations of `n` only, of which the last one
declares a currency. -/
def DeclaresCurrency (n : String) (ds : List (Spanned Directive)) : Prop :=
  ∀ before t span after, ds = before ++ ⟨.transaction t, span⟩ :: after → t.Names n →
    ∃ d ∈ lastDeclaration? n before, d.currency = true

end Directive

variable {n : String}

/-! ## Lists of directives -/

namespace Directive

variable {ds ds' : List (Spanned Directive)}

theorem Renotes.symm {d d' : Directive} (h : d.Renotes n d') : d'.Renotes n d := by
  cases h with
  | transaction ht => exact .transaction ht.symm
  | same => exact .same d

theorem RenotesEach.symm (h : RenotesEach n ds ds') : RenotesEach n ds' ds :=
  (h.imp fun _ _ hd => And.intro hd.1.symm hd.2.symm).flip

theorem lastDeclaration?_concat (n : String) (ds : List (Spanned Directive))
    (d : Spanned Directive) :
    lastDeclaration? n (ds ++ [d]) = (d.value.declaration? n).or (lastDeclaration? n ds) :=
  getLast?_filterMap_concat (fun d : Spanned Directive => d.value.declaration? n) ds d

theorem lastDeclaration?_renotes (h : RenotesEach n ds ds') :
    lastDeclaration? n ds' = lastDeclaration? n ds := by
  have hdeclarations : ds'.filterMap (·.value.declaration? n) =
      ds.filterMap (·.value.declaration? n) := by
    induction h with
    | nil => rfl
    | @cons d d' _ _ hd _ ih =>
      have hsame : d'.value.declaration? n = d.value.declaration? n := by
        rcases d with ⟨d, span⟩
        rcases d' with ⟨d', span'⟩
        cases hd.1 <;> rfl
      rw [List.filterMap_cons, List.filterMap_cons, hsame, ih]
  rw [lastDeclaration?, hdeclarations, lastDeclaration?]

theorem DeclaresCurrency.of_append {after : List (Spanned Directive)}
    (h : DeclaresCurrency n (ds ++ after)) : DeclaresCurrency n ds := by
  rintro before t span rest rfl
  exact h before t span (rest ++ after) (by simp)

/-- It is enough that the currency is declared before amounts in it, and not declared again. -/
theorem declaresCurrency_of_first {before after : List (Spanned Directive)}
    {d : CommodityDeclaration} {span : Span} (hname : d.name = n) (hcurrency : d.currency = true)
    (hbefore : ∀ t span, ⟨.transaction t, span⟩ ∈ before → ¬t.Names n)
    (hafter : ∀ x ∈ after, x.value.declaration? n = none) :
    DeclaresCurrency n (before ++ ⟨.commodity d, span⟩ :: after) := by
  intro earlier t span' later heq hnames
  rcases List.append_eq_append_iff.mp heq with ⟨between, rfl, hrest⟩ | ⟨between, rfl, hrest⟩
  · rcases between with _ | ⟨x, between⟩
    · simp at hrest
    · obtain ⟨rfl, rfl⟩ := List.cons.inj hrest
      have hnone : between.filterMap (·.value.declaration? n) = [] :=
        List.filterMap_eq_nil_iff.mpr fun x hx => hafter x (by simp [hx])
      have hsome : (Directive.commodity d).declaration? n = some d := if_pos hname
      refine ⟨d, ?_, hcurrency⟩
      rw [lastDeclaration?, List.filterMap_append, List.filterMap_cons, hnone, hsome]
      simp
  · rcases between with _ | ⟨x, between⟩
    · simp at hrest
    · obtain ⟨rfl, -⟩ := List.cons.inj hrest
      exact absurd hnames (hbefore t span' (by simp))

theorem DeclaresCurrency.renotes (h : DeclaresCurrency n ds) (hren : RenotesEach n ds ds') :
    DeclaresCurrency n ds' := by
  rintro before t' span after rfl hnames
  obtain ⟨before₀, ⟨d, span₀⟩, after₀, rfl, hbefore, hd, -⟩ :=
    exists_of_forall₂_append_cons hren.symm
  have hlast : lastDeclaration? n before₀ = lastDeclaration? n before :=
    lastDeclaration?_renotes hbefore
  rw [← hlast]
  obtain ⟨hd, -⟩ := hd
  cases hd with
  | same => exact h before₀ t' span₀ after₀ rfl hnames
  | @transaction _ t ht => exact h before₀ t span₀ after₀ rfl (ht.names hnames)

end Directive

/-! ## One transaction -/

namespace Store

variable {s : Store} {t t' u : Transaction} {place : Option Nat}

theorem declaredForm_renotes (hmarks : s.marksCurrency n = true) {c c' : Commodity}
    (h : c.Renotes n c') : s.declaredForm c' = s.declaredForm c := by
  by_cases hname : c.name = n
  · rw [marksCurrency, Option.any_eq_true] at hmarks
    obtain ⟨d, hd, hcurrency⟩ := hmarks
    have hform : ∀ c₀ : Commodity, c₀.name = n → s.declaredForm c₀ = { c₀ with
        precision := (d.format.map (·.precision)).getD c₀.precision, currency := true } := by
      intro c₀ hc₀
      rw [declaredForm, hc₀, Option.mem_def.mp hd]
      simp only [hcurrency, Bool.or_true]
    rw [hform c hname, hform c' (h.name.trans hname), h.1]
  · rw [h.2 hname]

theorem renotes_withPayee (s : Store) (h : t.Renotes n t') :
    (s.withPayee t).Renotes n (s.withPayee t') := by
  have hpayee : t'.payee = t.payee := by
    rw [h.1]
  rw [withPayee, withPayee, hpayee]
  cases s.payeeByRule? t.payee with
  | none => exact h
  | some payee => exact ⟨by rw [h.1], h.2⟩

theorem unmixed_withPayee (s : Store) (t : Transaction) :
    (s.withPayee t).Unmixed n ↔ t.Unmixed n := by
  rw [Transaction.Unmixed, Transaction.Unmixed, requiresBalance_withPayee, postings_withPayee]

theorem noteFirst_renotes (s : Store) (h : t.Renotes n t') : s.noteFirst t' = s.noteFirst t := by
  have hfirst : (t'.postings.findSome? (·.amount)).map (·.name) =
      (t.postings.findSome? (·.amount)).map (·.name) := by
    have hpostings := h.2
    generalize t.postings = ps, t'.postings = ps' at hpostings
    induction hpostings with
    | nil => rfl
    | cons hp _ ih =>
      rcases hp.amount_cases with ⟨ha, ha'⟩ | ⟨c, c', ha, ha', hc⟩
      · simpa only [List.findSome?_cons, ha, ha'] using ih
      · simp only [List.findSome?_cons, ha, ha', Option.map_some, hc.name]
  rw [noteFirst, noteFirst, hfirst]

theorem unmixed_of_balanced (h : s.balanced t = .ok (u, place)) : t.Unmixed n := by
  intro hrequires cs hcs
  rcases balanced_eq_ok_iff.mp h with ⟨hasis, -, -⟩ | ⟨-, -, places, hcompletes, -⟩
  · rw [hrequires, or_iff_right (by simp), Transaction.isBalanced_eq_true_iff] at hasis
    obtain ⟨-, cs', hcs', hcancel⟩ := hasis
    obtain rfl := Except.ok.inj (hcs.symm.trans hcs')
    obtain ⟨sums, hsums⟩ := Turnover.exists_sums?_iff.mpr fun m => (hcancel m).imp fun _ h => h.1
    exact (Turnover.agree_of_sums? hsums).sublist List.filter_sublist
  · exact hcompletes.agree hcs

theorem balanced_renotes (h : s.balanced t = .ok (u, place)) (hren : t.Renotes n t')
    (hunmixed : t'.Unmixed n) :
    ∃ u', s.balanced t' = .ok (u', place) ∧ u.Renotes n u' := by
  have hlength : t'.postings.length = t.postings.length := hren.2.length_eq.symm
  cases hrequires : t.requiresBalance with
  | false =>
    rcases balanced_eq_ok_iff.mp h with ⟨-, rfl, rfl⟩ | ⟨htrue, -⟩
    · have hrequires' : t'.requiresBalance = false := hren.requiresBalance.trans hrequires
      exact ⟨t', balanced_eq_ok_iff.mpr (.inl ⟨.inl hrequires', rfl, rfl⟩), hren⟩
    · rw [hrequires] at htrue
      cases htrue
  | true =>
    have hrequires' : t'.requiresBalance = true := hren.requiresBalance.trans hrequires
    have hagree := hunmixed hrequires'
    rcases balanced_eq_ok_iff.mp h with ⟨hasis, rfl, rfl⟩ | ⟨-, hoff, places, hcompletes, rfl⟩
    · rw [hrequires, or_iff_right (by simp)] at hasis
      exact ⟨t', balanced_eq_ok_iff.mpr (.inl ⟨.inr (hren.isBalanced hagree hasis), rfl, rfl⟩),
        hren⟩
    · obtain ⟨u', hcompletes', hu⟩ := hcompletes.renotes hren hagree
      refine ⟨u', balanced_eq_ok_iff.mpr (.inr ⟨hrequires', hren.isBalanced hagree hoff, places,
        hcompletes', ?_⟩), hu⟩
      rw [hlength]

theorem accountFor_renotes (s : Store) {x x' : Posting} (hx : x.Renotes n x')
    (ht : t.Renotes n t') (toBucket : Bool) :
    s.accountFor t' x' toBucket = s.accountFor t x toBucket := by
  have haccount : x'.account = x.account := by
    rw [hx.1]
  have hpayee : x'.payee t' = x.payee t := by
    rw [hx.1, ht.1]
    rfl
  have hresolve : s.resolveAccount x' t' = s.resolveAccount x t := by
    simp only [resolveAccount, haccount, hpayee]
  simp only [accountFor, haccount, hresolve]

theorem declarations_entered (s : Store) (d : Directive) : (s.entered d).declarations.find? n =
    (d.declaration? n).or (s.declarations.find? n) := by
  cases d
  case account d =>
    obtain ⟨a, -, hs⟩ := withDeclared_eq s (AccountName.join s.root d.name) d
    rw [entered, hs]
    rfl
  case commodity d =>
    have hdeclarations : (s.entered (.commodity d)).declarations =
        s.declarations.insert d.name d := by
      rw [entered, Filling.declareCommodity]
      cases d.format <;> rfl
    rw [hdeclarations, NameMap.find?_insert, Directive.declaration?]
    split <;> rfl
  all_goals rfl

theorem marksCurrency_of_sameRules {s' : Store} (h : SameRules s s') (n : String) :
    s'.marksCurrency n = s.marksCurrency n := by
  rw [h]
  rfl

end Store

namespace Filling

variable {σ : Type} {r : Reporter σ} {p q : Progress σ} {ds ds' : List (Spanned Directive)}

theorem leads_resolveCommodity?_renotes {c c' d : Option Commodity}
    (h : Leads (resolveCommodity? c) p d q) (hmarks : p.store.marksCurrency n = true)
    (hc : Option.Rel (Commodity.Renotes n) c c') : Leads (resolveCommodity? c') p d q := by
  cases hc with
  | none => exact h
  | some hc =>
    rw [resolveCommodity?] at h ⊢
    rw [leads_map] at h ⊢
    obtain ⟨d, hd, rfl⟩ := h
    refine ⟨d, ?_, rfl⟩
    rw [resolveCommodity, leads_store_bind] at hd ⊢
    rwa [Store.declaredForm_renotes hmarks hc]

theorem leads_resolvePosting_renotes {t t' : Transaction} {x x' y : Posting} {toBucket : Bool}
    (h : Leads (resolvePosting t x toBucket) p y q) (hmarks : p.store.marksCurrency n = true)
    (ht : t.Renotes n t') (hx : x.Renotes n x') :
    Leads (resolvePosting t' x' toBucket) p y q := by
  have haccount := Store.accountFor_renotes p.store hx ht toBucket
  obtain ⟨amount', rfl⟩ : ∃ amount', x' = { x with amount := amount' } := ⟨_, hx.1⟩
  rw [resolvePosting] at h ⊢
  simp only [leads_bind, leads_accountOf, leads_store, leads_update, leads_pure] at h ⊢
  obtain ⟨name, _, ⟨hname, rfl⟩, _, _, ⟨rfl, rfl⟩, _, m, hcheck, _, _, rfl, amount, m', hamount,
    hrest⟩ := h
  have hmarks' : (m.store.ensureAccount name x.kind).marksCurrency n = true := by
    rw [Store.marksCurrency_of_sameRules (Store.sameRules_ensureAccount ..),
      store_of_leads_checkDeclared hcheck]
    exact hmarks
  exact ⟨name, _, ⟨haccount.trans hname, rfl⟩, _, _, ⟨rfl, rfl⟩, _, m, hcheck, (), _, rfl, amount,
    m', leads_resolveCommodity?_renotes hamount hmarks' hx.2, hrest⟩

theorem leads_resolvePostings_renotes {t t' : Transaction} {place : Option Nat} {k : Nat}
    {xs xs' ys : List Posting} (h : Leads (resolvePostings t place k xs) p ys q)
    (hmarks : p.store.marksCurrency n = true) (ht : t.Renotes n t')
    (hxs : List.Forall₂ (Posting.Renotes n) xs xs') :
    Leads (resolvePostings t' place k xs') p ys q := by
  induction hxs generalizing p k ys with
  | nil => exact h
  | cons hx _ ih =>
    simp only [resolvePostings, leads_bind, leads_pure] at h ⊢
    obtain ⟨y, m, hy, ys, m', hys, rfl, rfl⟩ := h
    obtain ⟨name, -, rfl, hm⟩ := leads_resolvePosting hy
    have hmarks' : m.store.marksCurrency n = true := by
      rwa [hm, Store.marksCurrency_of_sameRules (Store.sameRules_note ..)]
    exact ⟨_, m, leads_resolvePosting_renotes hy hmarks ht hx, ys, m', ih hys hmarks', rfl, rfl⟩

theorem leads_admitOne_renotes {t t' : Transaction} {v : Unit} (h : Leads (admitOne r t) p v q)
    (hmarks : p.store.marksCurrency n = true) (hren : t.Renotes n t') (hunmixed : t'.Unmixed n) :
    Leads (admitOne r t') p v q := by
  obtain ⟨u, place, ys, m, hbalanced, hys, hfile⟩ := leads_admitOne_iff.mp h
  have hpayee := p.store.renotes_withPayee hren
  obtain ⟨u', hbalanced', hu⟩ := Store.balanced_renotes hbalanced hpayee
    ((Store.unmixed_withPayee _ _).mpr hunmixed)
  rw [leads_admitOne_iff, Store.noteFirst_renotes _ hpayee]
  refine ⟨u', place, ys, m, hbalanced', ?_, ?_⟩
  · exact leads_resolvePostings_renotes hys hmarks hu hu.2
  · rwa [hu.withPostings]

/-! ## Runs -/

theorem declarations_of_leads_takeIn {d : Spanned Directive} {v : Unit}
    (h : Leads (takeIn r d) p v q) : q.store.declarations.find? n =
      (d.value.declaration? n).or (p.store.declarations.find? n) := by
  rcases leads_takeIn h with ⟨t, t', hvalue, -, hq⟩ | ⟨hvalue, hbooks⟩
  · rw [hvalue, hq]
    have hsame := Store.sameRules_foldl_note (p.store.noteFirst (p.store.withPayee t)) t'.postings
    rw [Store.withKept, hsame]
    rfl
  · have hentered : q.store.declarations = (p.store.entered d.value).declarations := by
      rw [hbooks]
    rw [hentered, Store.declarations_entered]

theorem Admits.declarations (h : Admits r p ds q) : q.store.declarations.find? n =
    (Directive.lastDeclaration? n ds).or (p.store.declarations.find? n) := by
  induction h with
  | start => rfl
  | next _ hd ih =>
    rw [declarations_of_leads_takeIn hd, ih, Directive.lastDeclaration?_concat, Option.or_assoc]

theorem Admits.renotes (h : Admits r p ds q) (hren : Directive.RenotesEach n ds ds')
    (hdeclared : Directive.DeclaresCurrency n ds) (hunmixed : ∀ d ∈ ds', d.value.Unmixed n) :
    Admits r p ds' q := by
  induction h generalizing ds' with
  | start =>
    obtain rfl := List.forall₂_nil_left_iff.mp hren
    exact .start
  | @next ds d m q hds hd ih =>
    obtain ⟨rest, ⟨d', span'⟩, _, rfl, hrest, ⟨hvalue, hspan⟩, hnil⟩ :=
      exists_of_forall₂_append_cons hren
    obtain rfl := List.forall₂_nil_left_iff.mp hnil
    have hadmits := ih hrest hdeclared.of_append fun x hx => hunmixed x (by simp [hx])
    refine hadmits.next ?_
    obtain ⟨d, span⟩ := d
    obtain rfl : span' = span := hspan
    cases hvalue with
    | same => exact hd
    | @transaction t t' ht =>
      by_cases hnames : t.Names n
      · obtain ⟨x, hx, hcurrency⟩ := hdeclared ds t span' [] rfl hnames
        have hmarks : m.store.marksCurrency n = true := by
          rw [Store.marksCurrency, hds.declarations, Option.mem_def.mp hx]
          exact hcurrency
        have ht' : t'.Unmixed n := hunmixed ⟨.transaction t', span'⟩ (by simp)
        exact leads_admitOne_renotes hd hmarks ht ht'
      · rwa [ht.eq_of_not_names hnames]

theorem Admits.unmixed (h : Admits r p ds q) : ∀ d ∈ ds, d.value.Unmixed n := by
  induction h with
  | start => simp
  | @next ds d m q _ hd ih =>
    intro x hx
    rcases List.mem_append.mp hx with hx | hx
    · exact ih x hx
    · obtain rfl := List.mem_singleton.mp hx
      rcases x with ⟨x, span⟩
      cases x
      case transaction t =>
        obtain ⟨u, place, ys, _, hbalanced, -⟩ := leads_admitOne_iff.mp hd
        exact (Store.unmixed_withPayee _ _).mp (Store.unmixed_of_balanced hbalanced)
      all_goals trivial

/-- A list that mixes no notations leads where one leads that differs from it in notation only, and
a list that mixes them leads nowhere. -/
theorem leads_firstPass_renotes (hren : Directive.RenotesEach n ds ds')
    (hdeclared : Directive.DeclaresCurrency n ds) (hunmixed : ∀ d ∈ ds, d.value.Unmixed n)
    {v : Unit} : Leads (firstPass r ds') p v q ↔
      (∀ d ∈ ds', d.value.Unmixed n) ∧ Leads (firstPass r ds) p v q := by
  rw [leads_firstPass, leads_firstPass]
  constructor
  · rintro ⟨hstage, m, hadmits, hroots, hq⟩
    exact ⟨hadmits.unmixed, hstage, m,
      hadmits.renotes hren.symm (hdeclared.renotes hren) hunmixed, hroots, hq⟩
  · rintro ⟨hunmixed', hstage, m, hadmits, hroots, hq⟩
    exact ⟨hstage, m, hadmits.renotes hren hdeclared hunmixed', hroots, hq⟩

/-- Writing amounts of a declared currency on the other side of the number changes nothing in what
the passes end with, unless the new amounts mix notations in a transaction that has to balance:
then there is no first pass. -/
theorem passes_renotes (hren : Directive.RenotesEach n ds ds')
    (hdeclared : Directive.DeclaresCurrency n ds) (hunmixed : ∀ d ∈ ds, d.value.Unmixed n)
    (options : Options) (state : σ) :
    (runOn (firstPass r ds') (.empty options) state = (.ok (), q) ↔
      (∀ d ∈ ds', d.value.Unmixed n) ∧
        runOn (firstPass r ds) (.empty options) state = (.ok (), q)) ∧
    (runOn (firstPass r ds' >>= fun _ => secondPass r) (.empty options) state = (.ok (), q) ↔
      (∀ d ∈ ds', d.value.Unmixed n) ∧
        runOn (firstPass r ds >>= fun _ => secondPass r) (.empty options) state = (.ok (), q)) := by
  have hfirst : ∀ m, Leads (firstPass r ds') ⟨.empty options, [], state⟩ () m ↔
      (∀ d ∈ ds', d.value.Unmixed n) ∧ Leads (firstPass r ds) ⟨.empty options, [], state⟩ () m :=
    fun m => leads_firstPass_renotes hren hdeclared hunmixed
  refine ⟨hfirst q, ?_⟩
  have hboth : ∀ ds : List (Spanned Directive),
      runOn (firstPass r ds >>= fun _ => secondPass r) (.empty options) state = (.ok (), q) ↔
        ∃ m, Leads (firstPass r ds) ⟨.empty options, [], state⟩ () m ∧
          Leads (secondPass r) m () q :=
    fun ds => leads_bind.trans ⟨fun ⟨_, m, h⟩ => ⟨m, h⟩, fun ⟨m, h⟩ => ⟨(), m, h⟩⟩
  rw [hboth, hboth]
  constructor
  · rintro ⟨m, hm, hq⟩
    obtain ⟨hunmixed', hm⟩ := (hfirst m).mp hm
    exact ⟨hunmixed', m, hm, hq⟩
  · rintro ⟨hunmixed', m, hm, hq⟩
    exact ⟨m, (hfirst m).mpr ⟨hunmixed', hm⟩, hq⟩

def currency (name : String) : Spanned Directive :=
  ⟨.commodity { CommodityDeclaration.ofName name with currency := true }, .line 1⟩

/-- A dollar that moves from `B` to `A`, with the dollar sign before the number or behind it. -/
def dollar (atA atB : Bool) : List (Spanned Directive) :=
  single [.ofAmount "A" { oneDollar with currency := atA },
    .ofAmount "B" { oneDollar.invert with currency := atB }]

theorem renotes_dollar (a b a' b' : Bool) :
    Directive.RenotesEach "$" (dollar a b) (dollar a' b') := by
  refine .cons ⟨.transaction ⟨rfl, ?_⟩, rfl⟩ .nil
  have hrenotes : ∀ (c : Commodity) (side side' : Bool), c.name = "$" →
      Commodity.Renotes "$" { c with currency := side } { c with currency := side' } :=
    fun c side side' hname => ⟨rfl, fun h => absurd hname h⟩
  exact .cons ⟨rfl, .some (hrenotes _ a a' rfl)⟩ (.cons ⟨rfl, .some (hrenotes _ b b' rfl)⟩ .nil)

theorem unmixed_dollar (side : Bool) : ∀ d ∈ dollar side side, d.value.Unmixed "$" := by
  refine List.forall_mem_singleton.mpr fun _ cs hcs => ?_
  obtain rfl := Except.ok.inj hcs
  have hside : ∀ c ∈ [{ oneDollar with currency := side },
      { oneDollar.invert with currency := side }], c.currency = side := by simp
  intro a ha b hb _
  rw [hside a (List.mem_of_mem_filter ha), hside b (List.mem_of_mem_filter hb)]

/-- Both amounts in the declared currency may be written with the unit behind the number. -/
theorem passes_renotes_dollar :
    let r := Reporter.silent Unit
    let ds := currency "$" :: dollar true true
    let ds' := currency "$" :: dollar false false
    Directive.RenotesEach "$" ds ds' ∧ Directive.DeclaresCurrency "$" ds ∧
      (∀ d ∈ ds, d.value.Unmixed "$") ∧ ∀ q,
      (runOn (firstPass r ds') (.empty .default) () = (.ok (), q) ↔
        (∀ d ∈ ds', d.value.Unmixed "$") ∧
          runOn (firstPass r ds) (.empty .default) () = (.ok (), q)) ∧
      (runOn (firstPass r ds' >>= fun _ => secondPass r) (.empty .default) () = (.ok (), q) ↔
        (∀ d ∈ ds', d.value.Unmixed "$") ∧
          runOn (firstPass r ds >>= fun _ => secondPass r) (.empty .default) () =
            (.ok (), q)) := by
  intro r ds ds'
  have hren : Directive.RenotesEach "$" ds ds' := .cons ⟨.same _, rfl⟩ (renotes_dollar ..)
  have hdeclared : Directive.DeclaresCurrency "$" ds :=
    @Directive.declaresCurrency_of_first "$" [] _ _ _ rfl rfl
      (fun _ _ h => absurd h List.not_mem_nil) (List.forall_mem_singleton.mpr rfl)
  have hunmixed : ∀ d ∈ ds, d.value.Unmixed "$" :=
    List.forall_mem_cons.mpr ⟨trivial, unmixed_dollar true⟩
  exact ⟨hren, hdeclared, hunmixed, fun q => passes_renotes hren hdeclared hunmixed .default ()⟩

/-- Only one of them may not: the two do not add up. Nor may both where the commodity has been
declared again, as no currency: then amounts are kept as written, and may not add up with others. -/
theorem notation_matters :
    let passes := fun ds => (runOn (firstPass (.silent Unit) ds >>= fun _ =>
      secondPass (.silent Unit)) (.empty .default) ()).1.isOk
    let once := currency "$" :: dollar true true
    let mixed := currency "$" :: dollar true false
    let again := currency "$" :: ⟨.commodity (.ofName "$"), .line 2⟩ :: dollar true true
    (Directive.RenotesEach "$" once mixed ∧ passes once = true ∧ passes mixed = false) ∧
      Directive.RenotesEach "$" (again ++ dollar true true) (again ++ dollar false false) ∧
      passes (again ++ dollar true true) = true ∧
      passes (again ++ dollar false false) = false := by
  intro passes once mixed again
  have hsame : Directive.RenotesEach "$" again again :=
    List.forall₂_same.mpr fun d _ => ⟨.same _, rfl⟩
  exact ⟨⟨.cons ⟨.same _, rfl⟩ (renotes_dollar ..), by decide +kernel, by decide +kernel⟩,
    List.rel_append hsame (renotes_dollar ..), by decide +kernel, by decide +kernel⟩

end Filling

end Daybook
