import Daybook.Proofs.Store.Balancing
import Daybook.Proofs.Store.Orderly
import Daybook.Proofs.Store.Posts
import Daybook.Proofs.Store.Units

/-!
# What the tables of a store have in common

The tables of a store refer to one another: stored postings name accounts and commodities, accounts
lie above one another. `Coherent` says that no such reference leads nowhere and that nothing has
been posted. Each directive keeps it (`coherent_of_takeIn`), so that it holds after any run of the
first pass, whether or not the directives behind it are taken in (`firstPass_coherent`).
-/

namespace Daybook

namespace Store

def ClosedAbove (s : Store) : Prop :=
  ∀ name, (s.accounts.find? name).isSome = true → s.Houses name

/-- Whether the samples are zero amounts under their own names. -/
def Sampled (s : Store) : Prop :=
  ∀ n c, s.samples.find? n = some c → c.name = n ∧ c.isZero = true

/-- Whether there is a sample of the amount: a zero under its own name, which is shown with at least
as many decimals. -/
def HasSample (s : Store) (c : Commodity) : Prop :=
  ∃ sample, s.samples.find? c.name = some sample ∧ sample.name = c.name ∧ sample.isZero = true ∧
    c.precision ≤ sample.precision

/-- Whether the tables cover what a stored transaction refers to: its postings name accounts that
are there, its amounts have samples, and if it has to balance then no amount is missing. -/
structure Covers (s : Store) (t : Transaction) : Prop where
  housed : ∀ x ∈ t.postings,
    ∃ name, x.account = .named name ∧ (s.accounts.find? name).isSome = true
  sampled : ∀ x ∈ t.postings, ∀ c ∈ x.values, s.HasSample c
  complete : t.requiresBalance = true → ∀ x ∈ t.postings, x.isTally = false

/-- What holds of the tables of a store after each directive. -/
structure Coherent (s : Store) : Prop where
  named : ∀ name a, s.accounts.find? name = some a → a.name = name
  closed : ∀ name, (s.accounts.find? name).isSome = true →
    ∀ above ∈ AccountName.ancestors name, (s.accounts.find? above).isSome = true
  unposted : ∀ name a, s.accounts.find? name = some a → a.turnover = .empty
  samples : s.Sampled
  covered : ∀ t, s.Holds t → s.Covers t

variable {s s' : Store}

/-! ## Accounts above accounts -/

theorem closedAbove_iff : s.ClosedAbove ↔ ∀ name, (s.accounts.find? name).isSome = true →
    ∀ above ∈ AccountName.ancestors name, (s.accounts.find? above).isSome = true := by
  constructor
  · exact fun h name hname above habove => h name hname above (List.mem_cons_of_mem _ habove)
  · intro h name hname n hn
    rcases List.mem_cons.mp hn with rfl | hn
    · exact hname
    · exact h name hname n hn

theorem ClosedAbove.congr (h : s.ClosedAbove) (hsame : ∀ name,
    (s'.accounts.find? name).isSome = (s.accounts.find? name).isSome) : s'.ClosedAbove := by
  intro name hname n hn
  rw [hsame] at hname ⊢
  exact h name hname n hn

theorem ClosedAbove.ensureAccount (h : s.ClosedAbove) (name : String) (kind : PostingKind) :
    (s.ensureAccount name kind).ClosedAbove := by
  intro other hother
  have hnew := houses_ensureAccount s name kind
  have hext := extends_ensureAccount s name kind
  cases hfind : s.accounts.find? other with
  | some a =>
    have hthere : (s.accounts.find? other).isSome = true := by
      rw [hfind]
      rfl
    exact (h other hthere).mono hext
  | none =>
    refine hnew.of_mem_path ?_
    rw [find?_ensureAccount, hfind, Option.none_or] at hother
    by_cases habove : other ∈ AccountName.ancestors name
    · exact List.mem_cons_of_mem _ habove
    · rw [if_neg habove, Option.none_or] at hother
      by_cases heq : name = other
      · exact heq ▸ List.mem_cons_self
      · rw [if_neg heq] at hother
        cases hother

theorem ClosedAbove.foldl_note (h : s.ClosedAbove) (xs : List Posting) :
    (xs.foldl note s).ClosedAbove := by
  induction xs generalizing s with
  | nil => exact h
  | cons x xs ih =>
    have hfirst : (s.note x).ClosedAbove := by
      refine (h.ensureAccount (x.account.name?.getD "") x.kind).congr fun name => ?_
      rw [note, accounts_registerAll]
    exact ih hfirst

theorem ClosedAbove.entered (h : s.ClosedAbove) (d : Directive) : (s.entered d).ClosedAbove := by
  cases d
  case account d =>
    refine (h.ensureAccount (AccountName.join s.root d.name) .real).congr fun name => ?_
    obtain ⟨f, -, hfind⟩ := find?_withDeclared s (AccountName.join s.root d.name) name d
    rw [Store.entered, hfind, Option.isSome_map]
  case commodity d =>
    refine h.congr fun name => ?_
    rw [Store.entered, accounts_declareCommodity]
  all_goals exact h

/-! ## Samples of amounts -/

theorem Sampled.sameUnits (h : s.Sampled) (hsame : SameUnits s s') : s'.Sampled := by
  rw [Sampled, hsame.samples]
  exact h

theorem HasSample.sameUnits {c : Commodity} (h : s.HasSample c) (hsame : SameUnits s s') :
    s'.HasSample c := by
  rw [HasSample, hsame.samples]
  exact h

theorem Sampled.register (h : s.Sampled) (c : Commodity) : (s.register c).Sampled := by
  intro n d hd
  rw [Store.register, NameMap.find?_insert] at hd
  split at hd
  case isTrue hname =>
    obtain rfl := Option.some.inj hd
    cases hfind : s.samples.find? c.name with
    | none => exact ⟨hname, rfl⟩
    | some sample =>
      obtain ⟨hsample, hzero⟩ := h c.name sample hfind
      exact ⟨hsample.trans hname, hzero⟩
  case isFalse hname => exact h n d hd

theorem hasSample_register (h : s.Sampled) (c : Commodity) : (s.register c).HasSample c := by
  cases hfind : s.samples.find? c.name with
  | none =>
    refine ⟨c.similar .zero, ?_, rfl, rfl, Nat.le_refl _⟩
    rw [Store.register, NameMap.find?_insert_self, hfind]
  | some sample =>
    obtain ⟨hname, hzero⟩ := h c.name sample hfind
    refine ⟨{ sample with precision := max sample.precision c.precision }, ?_, hname, hzero,
      Nat.le_max_right _ _⟩
    rw [Store.register, NameMap.find?_insert_self, hfind]

theorem HasSample.register {c : Commodity} (h : s.HasSample c) (d : Commodity) :
    (s.register d).HasSample c := by
  obtain ⟨sample, hfind, hname, hzero, hprecision⟩ := h
  by_cases hsame : d.name = c.name
  · refine ⟨{ sample with precision := max sample.precision d.precision }, ?_, hname, hzero,
      Nat.le_trans hprecision (Nat.le_max_left _ _)⟩
    rw [Store.register, NameMap.find?_insert, if_pos hsame, hsame, hfind]
  · refine ⟨sample, ?_, hname, hzero, hprecision⟩
    rw [Store.register, NameMap.find?_insert, if_neg hsame, hfind]

theorem Sampled.registerAll (h : s.Sampled) (cs : List Commodity) : (s.registerAll cs).Sampled := by
  induction cs generalizing s with
  | nil => exact h
  | cons c cs ih => exact ih (h.register c)

theorem HasSample.registerAll {c : Commodity} (h : s.HasSample c) (cs : List Commodity) :
    (s.registerAll cs).HasSample c := by
  induction cs generalizing s with
  | nil => exact h
  | cons d cs ih => exact ih (h.register d)

theorem hasSample_registerAll (h : s.Sampled) {cs : List Commodity} {c : Commodity} (hc : c ∈ cs) :
    (s.registerAll cs).HasSample c := by
  induction cs generalizing s with
  | nil => exact absurd hc List.not_mem_nil
  | cons d cs ih =>
    rcases List.mem_cons.mp hc with rfl | hc
    · exact (hasSample_register h c).registerAll cs
    · exact ih (h.register d) hc

theorem samples_entered (s : Store) (d : Directive) :
    (s.entered d).samples = s.samples ∨ ∃ c, (s.entered d).samples = (s.register c).samples := by
  cases d
  case price x => exact .inr ⟨x.value, rfl⟩
  case account d => exact .inl (sameUnits_declareAccount s d).samples
  case commodity d =>
    rw [entered, Filling.declareCommodity]
    split
    · exact .inr ⟨_, rfl⟩
    · exact .inl rfl
  all_goals exact .inl rfl

theorem Sampled.entered (h : s.Sampled) (d : Directive) : (s.entered d).Sampled := by
  rcases samples_entered s d with hsamples | ⟨c, hsamples⟩
  · rw [Sampled, hsamples]
    exact h
  · rw [Sampled, hsamples]
    exact h.register c

theorem HasSample.entered {c : Commodity} (h : s.HasSample c) (d : Directive) :
    (s.entered d).HasSample c := by
  rcases samples_entered s d with hsamples | ⟨e, hsamples⟩
  · rw [HasSample, hsamples]
    exact h
  · rw [HasSample, hsamples]
    exact h.register e

/-! ## Complete transactions -/

theorem isTally_of_completes {t u : Transaction} {bucket : Option String} {unit : Commodity}
    {places : List Nat} (h : t.Completes bucket unit u places) :
    ∀ x ∈ u.postings, x.isTally = false := by
  cases h with
  | @lone x account cost hone hbucket hcost =>
    intro y hy
    rcases List.mem_cons.mp hy with rfl | hy
    · exact Posting.isTally_of_cost? hcost
    · rw [List.mem_singleton.mp hy]
      rfl
  | tally hparts hne hx hrest hsums => exact Posting.isTally_of_offsets hrest _ _
  | whole hlength hall hsums hcount => exact hall

theorem isTally_of_kept? {t t' : Transaction} (h : s.kept? t = .ok t')
    (hrequires : t'.requiresBalance = true) : ∀ x ∈ t'.postings, x.isTally = false := by
  obtain ⟨u, hpostings, hcases⟩ := completed_of_kept? h
  rw [isTally_of_kept hpostings]
  rcases hcases with ⟨hasis, rfl⟩ | ⟨-, -, places, hcompletes⟩
  · rw [requiresBalance_of_kept hpostings] at hrequires
    rw [hrequires] at hasis
    exact (Transaction.isBalanced_eq_true_iff.mp (hasis.resolve_left (by simp))).1
  · exact isTally_of_completes hcompletes

/-! ## Steps -/

theorem Covers.mono {t : Transaction} (h : s.Covers t) (hext : Extends s s')
    (hsamples : ∀ c, s.HasSample c → s'.HasSample c) : s'.Covers t where
  housed x hx := by
    obtain ⟨name, hname, hthere⟩ := h.housed x hx
    exact ⟨name, hname, hext name hthere⟩
  sampled x hx c hc := hsamples c (h.sampled x hx c hc)
  complete := h.complete

theorem coherent_empty (options : Options) : (empty options).Coherent where
  named name a ha := by simp [empty] at ha
  closed name h := by simp [empty] at h
  unposted name a ha := by simp [empty] at ha
  samples n c hc := by simp [empty] at hc
  covered t ht := absurd ht List.not_mem_nil

theorem Coherent.entered (h : s.Coherent) (d : Directive) : (s.entered d).Coherent where
  named := Each.entered h.named lasting_named d
  closed := closedAbove_iff.mp ((closedAbove_iff.mpr h.closed).entered d)
  unposted := Each.entered h.unposted lasting_unposted d
  samples := h.samples.entered d
  covered t ht := by
    rw [Holds, transactions_entered] at ht
    exact (h.covered t ht).mono (extends_entered s d) fun c hc => hc.entered d

theorem Coherent.congr (h : s.Coherent) (haccounts : s'.accounts = s.accounts)
    (hsamples : s'.samples = s.samples) (htransactions : s'.transactions = s.transactions) :
    s'.Coherent where
  named := by
    rw [haccounts]
    exact h.named
  closed := by
    rw [haccounts]
    exact h.closed
  unposted := by
    rw [haccounts]
    exact h.unposted
  samples := by
    rw [Sampled, hsamples]
    exact h.samples
  covered t ht := by
    rw [Holds, htransactions] at ht
    refine (h.covered t ht).mono ?_ fun c hc => ?_
    · rw [Extends, haccounts]
      exact fun _ hname => hname
    · rw [HasSample, hsamples]
      exact hc

theorem covers_of_kept? (h : s.Sampled) {t t' : Transaction} (hkept : s.kept? t = .ok t') :
    (s.withKept t t').Covers t' where
  housed x hx := by
    obtain ⟨name, hname⟩ := account_of_kept? hkept x hx
    have hhouses := houses_foldl_note (s.noteFirst (s.withPayee t)) hx hname
    exact ⟨name, hname, hhouses name List.mem_cons_self⟩
  sampled x hx c hc := by
    have hfirst : (s.noteFirst t).Sampled := h
    have hmem : c ∈ t'.postings.flatMap Posting.values := List.mem_flatMap.mpr ⟨x, hx, hc⟩
    exact (hasSample_registerAll hfirst hmem).sameUnits (sameUnits_withKept s t t')
  complete hrequires := isTally_of_kept? hkept hrequires

theorem Coherent.withKept (h : s.Coherent) {t t' : Transaction} (hkept : s.kept? t = .ok t') :
    (s.withKept t t').Coherent := by
  have hnamed : (s.noteFirst (s.withPayee t)).Each fun name a => a.name = name := h.named
  have hunposted : (s.noteFirst (s.withPayee t)).Unposted := h.unposted
  have hclosed : (s.noteFirst (s.withPayee t)).ClosedAbove := closedAbove_iff.mpr h.closed
  have hsamples : (s.noteFirst t).Sampled := h.samples
  refine ⟨Each.foldl_note hnamed lasting_named t'.postings,
    closedAbove_iff.mp (hclosed.foldl_note t'.postings),
    Each.foldl_note hunposted lasting_unposted t'.postings,
    (hsamples.registerAll _).sameUnits (sameUnits_withKept s t t'), fun x hx => ?_⟩
  rcases (holds_insert s _ _ x).mp hx with hx | rfl
  · refine (h.covered x hx).mono (extends_foldl_note (s.noteFirst _) t'.postings) fun c hc => ?_
    have hfirst : (s.noteFirst t).HasSample c := hc
    exact (hfirst.registerAll _).sameUnits (sameUnits_withKept s t t')
  · exact covers_of_kept? h.samples hkept

end Store

namespace Filling

variable {σ : Type} {r : Reporter σ} {p q : Progress σ} {ds : List (Spanned Directive)}

theorem coherent_of_takeIn {d : Spanned Directive} {u : Unit} (hp : p.store.Coherent)
    (h : Leads (takeIn r d) p u q) : q.store.Coherent := by
  rcases leads_takeIn h with ⟨t, t', -, hkept, hq⟩ | ⟨-, hbooks⟩
  · rw [hq]
    exact (hp.withKept hkept).congr rfl rfl rfl
  · rw [hbooks]
    exact (hp.entered d.value).congr rfl rfl rfl

theorem Admits.coherent (h : Admits r p ds q) (hp : p.store.Coherent) : q.store.Coherent := by
  induction h with
  | start => exact hp
  | next _ hd ih => exact coherent_of_takeIn ih hd

/-- Wherever a first pass has come to, having taken in the first directives of a journal, the tables
of its store are coherent; so they are where it ends. -/
theorem firstPass_coherent {options : Options} {state : σ} {before : List (Spanned Directive)}
    (hrun : runOn (admitAll r before) (.empty options) state = (.ok (), q)) :
    q.store.Coherent ∧ ∀ q', runOn (firstPass r before) (.empty options) state = (.ok (), q') →
      q'.store.Coherent := by
  have hempty := Store.coherent_empty options
  refine ⟨(leads_admitAll_iff.mp hrun).coherent hempty, fun q' hpass => ?_⟩
  obtain ⟨-, m, hall, -, rfl⟩ := leads_firstPass.mp hpass
  exact (hall.coherent hempty).congr rfl rfl rfl

/-- A posting beneath another account, at a price in a second commodity, and one without an amount:
the account above, both commodities and the missing amount have been brought in. -/
theorem firstPass_coherent_priced :
    let ds := single
      [{ Posting.ofAmount "Assets:Bank" oneDollar with costPrice := some (.plain "EUR" .one) },
        .tally "Cash"]
    let q := (runOn (admitAll (.silent Unit) ds) (.empty .default) ()).2
    runOn (admitAll (.silent Unit) ds) (.empty .default) () = (.ok (), q) ∧ q.store.Coherent ∧
      q.store.accounts.names = ["Assets", "Assets:Bank", "Cash"] ∧
      q.store.samples.names = ["$", "EUR"] ∧
      q.store.transactions.values.flatMap (fun t => t.postings.map Posting.isTally) =
        [false, false] := by
  intro ds q
  have hrun : runOn (admitAll (.silent Unit) ds) (.empty .default) () = (.ok (), q) :=
    runOn_eq_ok (by decide +kernel)
  exact ⟨hrun, (firstPass_coherent hrun).1, by decide +kernel, by decide +kernel, by decide +kernel⟩

end Filling

end Daybook
