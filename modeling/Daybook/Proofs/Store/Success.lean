import Daybook.Proofs.Store.FirstPass

/-!
# Transactions that are admitted

If the options are not pedantic and the reporter does not fail, then admitting a transaction cannot
fail but by what `Store.kept?` says (`exists_leads_admitOne`), nor can a first pass that ends with
it, unless a root is left applied (`exists_firstPass`). Options stay as they are (`Admits.options`).
-/

namespace Daybook

/-- Whether the reporter never fails when a posting is admitted. -/
def Reporter.Admitting {σ : Type} (r : Reporter σ) : Prop :=
  ∀ s t x state, ((r.admitted s t x).run.run state).1 = .ok ()

theorem Reporter.admitting_silent (σ : Type) : (Reporter.silent σ).Admitting := fun _ _ _ _ => rfl

namespace Filling

variable {σ : Type} {r : Reporter σ} {p q : Progress σ} {ds : List (Spanned Directive)}

theorem exists_leads_checkDeclared (hp : p.store.options.pedantic = false) (kind : NameKind)
    (name : String) (declared : Bool) : ∃ q, Leads (checkDeclared kind name declared) p () q :=
  ⟨_, leads_checkDeclared.mpr ⟨.inr hp, rfl⟩⟩

theorem exists_leads_resolveCommodity (hp : p.store.options.pedantic = false) (c : Commodity) :
    ∃ d q, Leads (resolveCommodity c) p d q := by
  obtain ⟨m, hm⟩ := exists_leads_checkDeclared hp .commodity (p.store.declaredForm c).name
    (p.store.isDeclaredCommodity (p.store.declaredForm c).name)
  refine ⟨p.store.declaredForm c, { m with store := m.store.register (p.store.declaredForm c) }, ?_⟩
  rw [resolveCommodity, leads_store_bind]
  simp only [leads_bind, leads_update, leads_pure]
  exact ⟨(), m, hm, (), _, rfl, trivial, rfl⟩

theorem exists_leads_resolveCommodity? (hp : p.store.options.pedantic = false)
    (c : Option Commodity) : ∃ d q, Leads (resolveCommodity? c) p d q ∧
      q.store.options.pedantic = false := by
  cases c with
  | none => exact ⟨none, p, leads_pure.mpr ⟨rfl, rfl⟩, hp⟩
  | some c =>
    obtain ⟨d, q, h⟩ := exists_leads_resolveCommodity hp c
    refine ⟨some d, q, leads_map.mpr ⟨d, h, rfl⟩, ?_⟩
    rw [(leads_resolveCommodity h).2]
    exact hp

theorem exists_leads_resolvePosting {t : Transaction} {x : Posting} {toBucket : Bool}
    {name : String} (hp : p.store.options.pedantic = false)
    (hname : p.store.accountFor t x toBucket = .ok name) :
    ∃ q, Leads (resolvePosting t x toBucket) p (p.store.keptOn name x) q := by
  have hrun : ∃ y q, Leads (resolvePosting t x toBucket) p y q := by
    rw [resolvePosting]
    simp only [leads_bind, leads_accountOf, leads_store, leads_update, leads_pure]
    obtain ⟨m₁, hm₁⟩ := exists_leads_checkDeclared hp .account name (p.store.isDeclaredAccount name)
    have hp₁ : (m₁.store.ensureAccount name x.kind).options.pedantic = false := by
      rw [Store.ensureAccount, store_of_leads_checkDeclared hm₁]
      exact hp
    obtain ⟨amount, m₂, hamount, hp₂⟩ := @exists_leads_resolveCommodity? σ
      { m₁ with store := m₁.store.ensureAccount name x.kind } hp₁ x.amount
    obtain ⟨lot, m₃, hlot, hp₃⟩ := exists_leads_resolveCommodity? hp₂ x.lotPrice
    obtain ⟨cost, m₄, hcost, hp₄⟩ := exists_leads_resolveCommodity? hp₃ x.costPrice
    obtain ⟨balance, m₅, hbalance, -⟩ := exists_leads_resolveCommodity? hp₄ x.balancePrice
    exact ⟨_, _, name, p, ⟨hname, rfl⟩, p.store, p, ⟨rfl, rfl⟩, (), m₁, hm₁, (), _, rfl, amount, m₂,
      hamount, lot, m₃, hlot, cost, m₄, hcost, balance, m₅, hbalance, rfl, rfl⟩
  obtain ⟨y, q, h⟩ := hrun
  obtain ⟨name', hname', rfl, -⟩ := leads_resolvePosting h
  obtain rfl := Except.ok.inj (hname.symm.trans hname')
  exact ⟨q, h⟩

theorem exists_leads_resolvePostings {t : Transaction} {place : Option Nat} {n : Nat}
    {xs ys : List Posting} (hp : p.store.options.pedantic = false)
    (h : p.store.keptPostings t place n xs = .ok ys) :
    ∃ q, Leads (resolvePostings t place n xs) p ys q := by
  induction xs generalizing p n ys with
  | nil =>
    obtain rfl := Except.ok.inj h
    exact ⟨p, leads_pure.mpr ⟨rfl, rfl⟩⟩
  | cons x xs ih =>
    simp only [Store.keptPostings, Result.bind_eq_ok_iff, Result.pure_eq_ok_iff] at h
    obtain ⟨name, hname, rest, hrest, rfl⟩ := h
    obtain ⟨m, hm⟩ := exists_leads_resolvePosting hp hname
    obtain ⟨_, -, -, hstore⟩ := leads_resolvePosting hm
    have hsame : Store.SameRules p.store m.store := hstore ▸ Store.sameRules_note ..
    rw [← hsame.keptPostings] at hrest
    obtain ⟨q, hq⟩ := ih (by rw [hsame.options]; exact hp) hrest
    refine ⟨q, ?_⟩
    simp only [resolvePostings, leads_bind, leads_pure]
    exact ⟨_, m, hm, rest, q, hq, rfl, rfl⟩

theorem exists_leads_reportAdmitted (hr : r.Admitting) (t : Transaction) (xs : List Posting)
    (p : Progress σ) : ∃ q, Leads (reportAdmitted r t xs) p () q := by
  induction xs generalizing p with
  | nil => exact ⟨p, leads_pure.mpr ⟨rfl, rfl⟩⟩
  | cons x xs ih =>
    have hreport : reported (r.admitted · t x) p =
        (.ok (), (reported (r.admitted · t x) p).2) :=
      Prod.ext (hr p.store t x p.report) rfl
    obtain ⟨q, hq⟩ := ih { p with report := (reported (r.admitted · t x) p).2 }
    refine ⟨q, ?_⟩
    rw [reportAdmitted, leads_bind]
    exact ⟨(), _, leads_report.mpr ⟨_, hreport, rfl⟩, hq⟩

theorem exists_leads_noteDigest (t : Transaction) (p : Progress σ) :
    ∃ q, Leads (noteDigest t) p () q := by
  rw [noteDigest]
  by_cases hdigest : t.digest = ""
  · rw [if_pos hdigest]
    exact ⟨p, leads_pure.mpr ⟨rfl, rfl⟩⟩
  · rw [if_neg hdigest]
    have hwarn : ∀ m : Progress σ, ∃ q, Leads (if 1 < (p.store.countDigest t.digest).1 then
        warn (.duplicate t.date t.payee t.lines) else pure ()) m () q := by
      intro m
      split
      · exact ⟨_, leads_warn.mpr rfl⟩
      · exact ⟨m, leads_pure.mpr ⟨rfl, rfl⟩⟩
    obtain ⟨q, hq⟩ := hwarn { p with store := (p.store.countDigest t.digest).2 }
    refine ⟨q, ?_⟩
    rw [leads_store_bind]
    exact leads_bind.mpr ⟨(), _, leads_update.mpr rfl, hq⟩

theorem exists_leads_fileKept (hr : r.Admitting) (hp : p.store.options.pedantic = false)
    (t : Transaction) : ∃ q, Leads (fileKept r t) p () q := by
  have hfile : ∀ m : Progress σ, ∃ q, Leads (file r t) m () q := by
    intro m
    obtain ⟨m₁, hm₁⟩ := exists_leads_reportAdmitted hr t t.postings m
    obtain ⟨m₂, hm₂⟩ := exists_leads_noteDigest t m₁
    simp only [file, leads_bind, leads_update]
    exact ⟨_, (), m₁, hm₁, (), m₂, hm₂, rfl⟩
  rw [fileKept]
  simp only [leads_store_bind]
  split
  · obtain ⟨m, hm⟩ := exists_leads_checkDeclared hp .payee t.payee (p.store.isDeclaredPayee t.payee)
    obtain ⟨q, hq⟩ := hfile m
    exact ⟨q, leads_bind.mpr ⟨(), m, hm, hq⟩⟩
  · exact hfile p

theorem exists_leads_admitOne {t t' : Transaction} (hr : r.Admitting)
    (hp : p.store.options.pedantic = false) (hkept : p.store.kept? t = .ok t') :
    ∃ q, Leads (admitOne r t) p () q := by
  simp only [Store.kept?, Result.bind_eq_ok_iff, Result.pure_eq_ok_iff] at hkept
  obtain ⟨⟨u, place⟩, hbalanced, ys, hys, -⟩ := hkept
  have hsame := Store.sameRules_noteFirst p.store (p.store.withPayee t)
  rw [← hsame.keptPostings] at hys
  obtain ⟨m, hm⟩ := exists_leads_resolvePostings
    (p := { p with store := p.store.noteFirst (p.store.withPayee t) }) hp hys
  have hm' : m.store.options.pedantic = false := by
    rw [(leads_resolvePostings hm).2, (Store.sameRules_foldl_note _ ys).options]
    exact hp
  obtain ⟨q, hq⟩ := exists_leads_fileKept hr hm' { u with postings := ys }
  exact ⟨q, leads_admitOne_iff.mpr ⟨u, place, ys, m, hbalanced, hm, hq⟩⟩

theorem roots_of_leads_admitOne {t : Transaction} {u : Unit} (h : Leads (admitOne r t) p u q) :
    q.store.roots = p.store.roots := by
  obtain ⟨t', -, hq⟩ := leads_admitOne h
  rw [hq, Store.sameRules_foldl_note (p.store.noteFirst (p.store.withPayee t)) t'.postings]
  rfl

theorem options_of_leads_takeIn {d : Spanned Directive} {u : Unit}
    (h : Leads (takeIn r d) p u q) : q.store.options = p.store.options := by
  rcases leads_takeIn h with ⟨t, t', -, -, hq⟩ | ⟨-, hbooks⟩
  · rw [hq]
    exact (Store.sameRules_foldl_note _ t'.postings).options
  · rw [hbooks]
    exact Store.options_entered p.store d.value

theorem Admits.options (h : Admits r p ds q) : q.store.options = p.store.options := by
  induction h with
  | start => rfl
  | next _ hd ih => rw [options_of_leads_takeIn hd, ih]

theorem options_of_firstPass {options : Options} {state : σ}
    (h : runOn (firstPass r ds) (.empty options) state = (.ok (), q)) :
    q.store.options = options := by
  obtain ⟨-, m, hall, -, rfl⟩ := leads_firstPass.mp h
  exact hall.options

/-- A first pass that has come to a transaction that can be kept takes it in as the last one. -/
theorem exists_firstPass {options : Options} {state : σ} {t t' : Transaction} {span : Span}
    (hr : r.Admitting) (hp : options.pedantic = false)
    (h : Admits r ⟨.empty options, [], state⟩ ds p) (hroots : p.store.roots = [])
    (hkept : p.store.kept? t = .ok t') :
    ∃ q, runOn (firstPass r (ds ++ [⟨.transaction t, span⟩])) (.empty options) state =
      (.ok (), q) := by
  obtain ⟨m, hm⟩ := exists_leads_admitOne hr (by rw [h.options]; exact hp) hkept
  have hlast : Leads (takeIn r ⟨.transaction t, span⟩) p () m := hm
  refine ⟨_, leads_firstPass.mpr ⟨rfl, m, h.next hlast, ?_, rfl⟩⟩
  rw [roots_of_leads_admitOne hm, hroots]

end Filling

end Daybook
