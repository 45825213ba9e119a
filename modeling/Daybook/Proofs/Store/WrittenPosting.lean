import Daybook.Proofs.Store.SecondPass
import Daybook.Proofs.Store.Writing

/-!
# Amounts that are written alike never fail to match

Sums of amounts that are written as `w` says are written so, and adding such amounts up can fail by
an overflow only (`accumulate_ensures`). So a second pass over stored amounts that are written alike
does not fail with a mismatch, and one over others does not end as it should (`secondPass_alike`).
-/

namespace Daybook

open Result (Ensures)
open Commodity (named total?)

variable {w : String → Bool}

namespace Turnover

/-- Whether all sums of the turnover are written as `w` says. -/
structure WrittenAs (w : String → Bool) (t : Turnover) : Prop where
  balances : WrittenMap w t.balances
  debits : WrittenMap w t.debits
  credits : WrittenMap w t.credits

theorem writtenMap_insert {sums : NameMap Commodity} (h : WrittenMap w sums) {c : Commodity}
    {n : String} (hn : c.name = n) (hc : c.WrittenAs w) : WrittenMap w (sums.insert n c) := by
  intro other d hd
  rw [NameMap.find?_insert] at hd
  split at hd
  · rename_i heq
    obtain rfl := Option.some.inj hd
    exact ⟨hn.trans heq, hc⟩
  · exact h other d hd

theorem add_ensures {sum c : Commodity} (hname : sum.name = c.name) (hsum : sum.WrittenAs w)
    (hc : c.WrittenAs w) :
    Ensures (fun x => x.name = c.name ∧ x.WrittenAs w) (· = .overflow) (sum.add c) := by
  have hsimilar : sum.isSimilar c = true :=
    Commodity.isSimilar_iff.mpr ⟨hname, by rw [hsum, hc, hname]⟩
  rw [Commodity.add, if_pos hsimilar]
  cases sum.amount.add? c.amount with
  | none => exact rfl
  | some n => exact ⟨hname, hsum⟩

theorem accumulate_ensures {sums : NameMap Commodity} (h : WrittenMap w sums) {c : Commodity}
    (hc : c.WrittenAs w) : Ensures (WrittenMap w) (· = .overflow) (accumulate sums c) := by
  rw [accumulate]
  cases hfind : sums.find? c.name with
  | none => exact writtenMap_insert h rfl hc
  | some sum =>
    obtain ⟨hname, hsum⟩ := h _ _ hfind
    refine (add_ensures hname hsum hc).bind fun x hx => ?_
    exact writtenMap_insert h (hx.1.trans hname.symm) hx.2

theorem post_ensures {t : Turnover} (h : t.WrittenAs w) {c : Commodity} (hc : c.WrittenAs w) :
    Ensures (WrittenAs w) (· = .overflow) (t.post c) := by
  rw [post_eq]
  refine (accumulate_ensures h.balances hc).bind fun balances hbalances => ?_
  split
  · have hinvert : c.invert.WrittenAs w := hc
    exact (accumulate_ensures h.credits hinvert).bind fun credits hcredits =>
      ⟨hbalances, h.debits, hcredits⟩
  · exact (accumulate_ensures h.debits hc).bind fun debits hdebits =>
      ⟨hbalances, hdebits, h.credits⟩

theorem writtenAs_empty (w : String → Bool) : WrittenAs w empty := by
  refine ⟨?_, ?_, ?_⟩ <;> exact fun n c h => by simp [empty] at h

end Turnover

/-- Whether the error is not that two amounts of one name are written differently. -/
def LedgerError.IsNoMismatch (e : LedgerError) : Prop := ∀ a b, e ≠ .amount (.mismatch a b)

namespace Store

/-- Whether all that has been posted is written as `w` says. -/
def PostedAs (w : String → Bool) (s : Store) : Prop :=
  ∀ name a, s.accounts.find? name = some a → a.turnover.WrittenAs w

variable {s : Store} {c : Commodity}

theorem Unposted.postedAs (h : s.Unposted) (w : String → Bool) : s.PostedAs w := by
  intro name a ha
  rw [h name a ha]
  exact Turnover.writtenAs_empty w

theorem PostedAs.ensureAccount (h : s.PostedAs w) (name : String) (kind : PostingKind) :
    (s.ensureAccount name kind).PostedAs w := by
  intro other a ha
  cases hfind : s.accounts.find? other with
  | some b =>
    have hkept : (s.ensureAccount name kind).accounts.find? other = some b :=
      find?_ensureAccount_of_some hfind
    obtain rfl := Option.some.inj (hkept.symm.trans ha)
    exact h other b hfind
  | none =>
    have hnew : a.turnover = .empty := by
      rw [find?_ensureAccount, hfind, Option.none_or] at ha
      split at ha
      · obtain rfl : Account.ofName other = a := by simpa using ha
        rfl
      · split at ha
        · obtain rfl := Option.some.inj ha
          rfl
        · simp at ha
    rw [hnew]
    exact Turnover.writtenAs_empty w

theorem postTo_ensures (h : s.PostedAs w) (hc : c.WrittenAs w) (name : String)
    (kind : PostingKind) :
    Ensures (PostedAs w) LedgerError.IsNoMismatch (s.postTo name kind c) := by
  have hensured := h.ensureAccount name kind
  rw [postTo]
  cases hfind : (s.ensureAccount name kind).accounts.find? name with
  | none => exact hensured
  | some a =>
    have hpost : Ensures (fun b : Account => b.turnover.WrittenAs w) (· = .overflow) (a.post c) :=
      (Turnover.post_ensures (hensured name a hfind) hc).bind fun t ht => ht
    refine (hpost.mapError fun e he => ?_).bind fun b hb => ?_
    · rintro l r heq
      rw [he] at heq
      simp at heq
    · intro other d hd
      rw [NameMap.find?_insert] at hd
      split at hd
      · obtain rfl := Option.some.inj hd
        exact hb
      · exact hensured other d hd

theorem carryTo_ensures (hc : c.WrittenAs w) (names : List String) (h : s.PostedAs w) :
    Ensures (PostedAs w) LedgerError.IsNoMismatch (s.carryTo c names) := by
  induction names generalizing s with
  | nil => exact h
  | cons name names ih => exact (postTo_ensures h hc name .real).bind fun m hm => ih hm

theorem postAmount_ensures (h : s.PostedAs w) (hc : c.WrittenAs w) (name : String)
    (kind : PostingKind) :
    Ensures (PostedAs w) LedgerError.IsNoMismatch (s.postAmount name kind c) :=
  (postTo_ensures h hc name kind).bind fun _ hm => carryTo_ensures hc _ hm

end Store

namespace Filling

variable {σ α β : Type} {I : Store → Prop} {E : LedgerError → Prop} {p : Progress σ}

/-- The step keeps `I` of the store, also where it fails, and its errors satisfy `E`. -/
def Upholds (I : Store → Prop) (E : LedgerError → Prop) (step : Filling σ α) : Prop :=
  ∀ p, I p.store → I (outcome step p).2.store ∧ ∀ e, (outcome step p).1 = .error e → E e

theorem upholds_of_leads {step : Filling σ α}
    (h : ∀ p, I p.store → ∃ a q, Leads step p a q ∧ I q.store) : Upholds I E step := by
  intro p hp
  obtain ⟨a, q, hrun, hq⟩ := h p hp
  rw [Leads] at hrun
  rw [hrun]
  exact ⟨hq, fun e he => by cases he⟩

theorem upholds_pure (a : α) : Upholds I E (pure a : Filling σ α) :=
  upholds_of_leads fun p hp => ⟨a, p, leads_pure.mpr ⟨rfl, rfl⟩, hp⟩

theorem upholds_bind {step : Filling σ α} (h : Upholds I E step) {next : α → Filling σ β}
    (hnext : ∀ a, Upholds I E (next a)) : Upholds I E (step >>= next) := by
  intro p hp
  obtain ⟨hm, he⟩ := h p hp
  rw [outcome_bind]
  rcases hstep : outcome step p with ⟨e | a, m⟩
  · rw [hstep] at hm he
    exact ⟨hm, fun e' he' => by obtain rfl := Except.error.inj he'; exact he e rfl⟩
  · rw [hstep] at hm
    exact hnext a m hm

theorem upholds_store_bind {next : Store → Filling σ β}
    (h : ∀ s, I s → Upholds I E (next s)) : Upholds I E (store >>= next) := by
  intro p hp
  have hrun : outcome (store >>= next) p = outcome (next p.store) p := by
    rw [outcome_bind]
    rfl
  rw [hrun]
  exact h p.store hp p hp

theorem upholds_lift_bind {Q : α → Prop} {x : Except LedgerError α} (hx : Ensures Q E x)
    {next : α → Filling σ β} (h : ∀ a, Q a → Upholds I E (next a)) :
    Upholds I E (liftM x >>= next) := by
  intro p hp
  have hrun : outcome (liftM x : Filling σ α) p = (x, p) := rfl
  rw [outcome_bind, hrun]
  cases x with
  | error e => exact ⟨hp, fun e' he' => by obtain rfl := Except.error.inj he'; exact hx⟩
  | ok a => exact h a hx p hp

theorem upholds_update {f : Store → Store} (h : ∀ s, I s → I (f s)) :
    Upholds I E (update f : Filling σ Unit) :=
  upholds_of_leads fun p hp => ⟨(), _, leads_update.mpr rfl, h p.store hp⟩

theorem upholds_report_pure : Upholds I E (report fun _ => pure () : Filling σ Unit) :=
  upholds_of_leads fun p hp => ⟨(), p, leads_report.mpr ⟨p.report, rfl, rfl⟩, hp⟩

variable {c : Commodity}

theorem upholds_reportCarried (t : Transaction) (x : Posting) (names : List String) :
    Upholds I E (reportCarried (.silent σ) t x names) := by
  induction names with
  | nil => exact upholds_pure ()
  | cons name names ih =>
    rw [reportCarried]
    refine upholds_store_bind fun s _ => ?_
    split
    · exact upholds_bind upholds_report_pure fun _ => ih
    · exact upholds_pure ()

theorem upholds_postPosting (t : Transaction) {x : Posting}
    (hx : ∀ c, x.amount = some c → c.WrittenAs w) :
    Upholds (Store.PostedAs w) LedgerError.IsNoMismatch (postPosting (.silent σ) t x) := by
  rw [postPosting]
  split
  · rename_i name c _ hamount
    refine upholds_store_bind fun s hs => ?_
    have hpost := Store.postAmount_ensures hs (hx c hamount) name x.kind
    refine upholds_lift_bind hpost fun s' hs' => ?_
    refine upholds_bind (upholds_update fun _ _ => hs') fun _ => ?_
    exact upholds_bind upholds_report_pure fun _ => upholds_reportCarried t x _
  · exact upholds_pure ()

theorem upholds_postPostings (t : Transaction) {xs : List Posting}
    (hxs : ∀ x ∈ xs, ∀ c, x.amount = some c → c.WrittenAs w) :
    Upholds (Store.PostedAs w) LedgerError.IsNoMismatch (postPostings (.silent σ) t xs) := by
  induction xs with
  | nil => exact upholds_pure ()
  | cons x xs ih =>
    rw [postPostings]
    exact upholds_bind (upholds_postPosting t (hxs x (by simp))) fun _ =>
      ih fun y hy => hxs y (by simp [hy])

theorem upholds_postAll {ts : List Transaction} (hts : ∀ t ∈ ts, t.AmountsWrittenAs w) :
    Upholds (Store.PostedAs w) LedgerError.IsNoMismatch (postAll (.silent σ) ts) := by
  induction ts with
  | nil => exact upholds_pure ()
  | cons t ts ih =>
    rw [postAll]
    refine upholds_bind (upholds_postPostings t (hts t (by simp))) fun _ => ?_
    exact upholds_bind upholds_report_pure fun _ => ih fun u hu => hts u (by simp [hu])

theorem outcome_secondPass {r : Reporter σ} (hp : p.store.stage = .admitted) :
    outcome (secondPass r) p =
      outcome (postAll r p.store.selected)
        { p with store := { p.store with stage := .posted } } := by
  have hexpect : Leads (expect .second) p () p := leads_expect.mpr ⟨hp, rfl⟩
  rw [Leads] at hexpect
  rw [secondPass, outcome_bind, hexpect]
  rfl

/-- What is posted of amounts that are written as they should be is written so. -/
theorem secondPass_upholds {q : Progress σ} {result : Except LedgerError Unit}
    (hp : p.store.Orderly) (hstage : p.store.stage = .admitted)
    (hwritten : ∀ t ∈ p.store.selected, t.AmountsWrittenAs w)
    (hrun : outcome (secondPass (.silent σ)) p = (result, q)) :
    q.store.PostedAs w ∧ ∀ a b, result ≠ .error (.amount (.mismatch a b)) := by
  have hstart : Store.PostedAs w { p.store with stage := .posted } := hp.unposted.postedAs w
  obtain ⟨hposted, hno⟩ :=
    upholds_postAll hwritten { p with store := { p.store with stage := .posted } } hstart
  rw [← outcome_secondPass hstage, hrun] at hposted hno
  exact ⟨hposted, fun a b he => hno _ he a b rfl⟩

/-- An amount that is written otherwise shows in the balance that it is posted to. -/
theorem balance_of_secondPass {q : Progress σ} {r : Reporter σ} (hp : p.store.Orderly)
    (hrun : Leads (secondPass r) p () q) {t : Transaction} (ht : t ∈ p.store.selected)
    {x : Posting} (hx : x ∈ t.postings) {c : Commodity} (hc : x.amount = some c) :
    ∃ name a sum, q.store.accounts.find? name = some a ∧
      a.turnover.balances.find? c.name = some sum ∧ sum.currency = c.currency := by
  have hheld : p.store.Holds t := by
    rw [Store.selected_eq hp] at ht
    exact (List.mem_filter.mp ht).1
  obtain ⟨name, hname, hhouses⟩ := hp.housed t hheld x hx
  have hentry : x.brought? = some (name, c) := by
    simp only [Posting.brought?, hname, hc]
  obtain ⟨a, ha⟩ := Option.isSome_iff_exists.mp (hhouses name List.mem_cons_self)
  have hposts := posts_secondPass hrun hp
  obtain ⟨turnover, hturnover, hfind⟩ := hposts.posted name a ha
  rw [hp.unposted name a ha] at hturnover
  have hcounts : c ∈ named c.name
      (countsOn name (p.store.selected.flatMap Transaction.entries)) := by
    refine Commodity.mem_named.mpr ⟨?_, rfl⟩
    refine List.mem_map.mpr ⟨(name, c), List.mem_filter.mpr ⟨?_, ?_⟩, rfl⟩
    · exact List.mem_flatMap.mpr ⟨t, ht, List.mem_filterMap.mpr ⟨x, hx, hentry⟩⟩
    · simp [AccountName.isWithin]
  have htotal := Turnover.find?_of_sums? (Turnover.sums_of_foldlM_post hturnover).1 c.name
  cases hsum : turnover.balances.find? c.name with
  | none =>
    rw [hsum] at htotal
    rw [(Commodity.total?_eq_none_iff htotal).mp rfl] at hcounts
    exact absurd hcounts List.not_mem_nil
  | some sum =>
    rw [hsum] at htotal
    exact ⟨name, _, sum, hfind, hsum, (Commodity.similar_of_total? htotal c hcounts).2.symm⟩

end Filling

namespace Store

def BalancesWrittenAs (w : String → Bool) (s : Store) : Prop :=
  ∀ name a, s.accounts.find? name = some a →
    ∀ n c, a.turnover.balances.find? n = some c → c.currency = w n

end Store

namespace Filling

variable {σ : Type}

/-- Let a journal declare no commodities and write the amounts of each as `w` says. It is stored so
exactly if it does not open on a zero. If all that the second pass posts is written so, then the
pass does not fail with a mismatch and leaves balances that are written so; if something is not,
then the pass fails or leaves a balance that is not. -/
theorem secondPass_alike {w : String → Bool} {r : Reporter σ} {ds : List (Spanned Directive)}
    {options : Options} {state : σ} {p : Progress σ}
    (hfirst : runOn (firstPass r ds) (.empty options) state = (.ok (), p))
    (hds : ∀ d ∈ ds, d.value.WrittenAs w) :
    let out := runOn (secondPass (.silent Unit)) p.store ()
    ((∀ t, p.store.Holds t → t.AmountsWrittenAs w) ↔ ∀ t, ¬Opens ds t) ∧
      ((∀ t, p.store.Holds t → p.store.options.Covers t.date → t.AmountsWrittenAs w) →
        (∀ a b, out.1 ≠ .error (.amount (.mismatch a b))) ∧ out.2.store.BalancesWrittenAs w) ∧
      ((∃ t, p.store.Holds t ∧ p.store.options.Covers t.date ∧ ¬t.AmountsWrittenAs w) →
        ¬(out.1 = .ok () ∧ out.2.store.BalancesWrittenAs w)) := by
  intro out
  have horderly := orderly_of_firstPass hfirst
  have hselected : ∀ t, t ∈ p.store.selected ↔ p.store.Holds t ∧ p.store.options.Covers t.date := by
    intro t
    rw [Store.selected_eq horderly, List.mem_filter, decide_eq_true_iff]
    rfl
  refine ⟨stored_alike_iff hfirst hds, fun hwritten => ?_, ?_⟩
  · have hstage : p.store.stage = .admitted := by
      obtain ⟨-, m, -, -, rfl⟩ := leads_firstPass.mp hfirst
      rfl
    have hrun : outcome (secondPass (.silent Unit)) ⟨p.store, [], ()⟩ = (out.1, out.2) := rfl
    have hupholds := @secondPass_upholds w Unit ⟨p.store, [], ()⟩ out.2 out.1 horderly hstage
      (fun t ht => hwritten t ((hselected t).mp ht).1 ((hselected t).mp ht).2) hrun
    exact ⟨hupholds.2, fun name a ha n c hc => by
      obtain ⟨rfl, hwrittenAs⟩ := (hupholds.1 name a ha).balances n c hc
      exact hwrittenAs⟩
  · rintro ⟨t, ht, hcovers, hnot⟩ ⟨hok, hbalances⟩
    refine hnot fun x hx c hc => ?_
    have hrun : Leads (secondPass (.silent Unit)) ⟨p.store, [], ()⟩ () out.2 :=
      Prod.ext hok rfl
    obtain ⟨name, a, sum, ha, hsum, hcurrency⟩ :=
      @balance_of_secondPass Unit ⟨p.store, [], ()⟩ out.2 _ horderly hrun t
        ((hselected t).mpr ⟨ht, hcovers⟩) x hx c hc
    rw [Commodity.WrittenAs, ← hcurrency]
    exact hbalances name a ha c.name sum hsum

theorem writtenAs_single {postings : List Posting} (h : ∀ x ∈ postings, x.WrittenAs fun _ => true) :
    ∀ d ∈ single postings, d.value.WrittenAs fun _ => true := by
  intro d hd
  rw [List.mem_singleton.mp hd]
  exact h

/-- Dollars that are written before the number are posted so. -/
theorem secondPass_alike_single :
    let ds := single [.ofAmount "Bank" oneDollar, .tally "Cash"]
    let p := (runOn (firstPass (.silent Unit) ds) (.empty .default) ()).2
    let out := runOn (secondPass (.silent Unit)) p.store ()
    ((∀ t, p.store.Holds t → t.AmountsWrittenAs fun _ => true) ↔ ∀ t, ¬Opens ds t) ∧
      ((∀ t, p.store.Holds t → p.store.options.Covers t.date → t.AmountsWrittenAs fun _ => true) →
        (∀ a b, out.1 ≠ .error (.amount (.mismatch a b))) ∧
          out.2.store.BalancesWrittenAs fun _ => true) ∧
      ((∃ t, p.store.Holds t ∧ p.store.options.Covers t.date ∧
          ¬t.AmountsWrittenAs fun _ => true) →
        ¬(out.1 = .ok () ∧ out.2.store.BalancesWrittenAs fun _ => true)) := by
  intro ds p
  have hfirst : runOn (firstPass (.silent Unit) ds) (.empty .default) () = (.ok (), p) :=
    runOn_eq_ok (by decide +kernel)
  refine secondPass_alike hfirst (writtenAs_single ?_)
  simp [Posting.WrittenAs, Posting.values, Posting.ofAmount, Posting.tally, Commodity.WrittenAs,
    oneDollar, Commodity.ofCurrency]

/-- Whether an outcome is a mismatch. -/
def mismatches : Except LedgerError Unit → Bool
  | .error (.amount (.mismatch _ _)) => true
  | _ => false

theorem mismatches_iff {out : Except LedgerError Unit} :
    mismatches out = true ↔ ∃ a b, out = .error (.amount (.mismatch a b)) := by
  constructor
  · intro h
    unfold mismatches at h
    split at h
    · exact ⟨_, _, rfl⟩
    · simp at h
  · rintro ⟨a, b, rfl⟩
    rfl

/-- A zero in the first transaction is written behind its number, also where all amounts have the
unit before it: it does not match them in the account above. -/
theorem opening_zero_mismatches :
    let ds := single [.ofAmount "Assets:Bank" oneDollar, .ofAmount "Assets:Cash" oneDollar.invert,
      .tally "Assets:Other"]
    let p := (runOn (firstPass (.silent Unit) ds) (.empty .default) ()).2
    let out := runOn (secondPass (.silent Unit)) p.store ()
    runOn (firstPass (.silent Unit) ds) (.empty .default) () = (.ok (), p) ∧
      (∀ d ∈ ds, d.value.WrittenAs fun _ => true) ∧
      ∃ a b, out.1 = .error (.amount (.mismatch a b)) := by
  intro ds p out
  refine ⟨runOn_eq_ok (by decide +kernel), writtenAs_single ?_, ?_⟩
  · simp [Posting.WrittenAs, Posting.values, Posting.ofAmount, Posting.tally, Commodity.WrittenAs,
      oneDollar, Commodity.ofCurrency]
  · exact mismatches_iff.mp (by decide +kernel)

end Filling

end Daybook
