import Daybook.Proofs.Store.Success

/-!
# Runs beside runs

`Mirrors Rel step step' Post` says of two steps that begin at stores related by `Rel`: if the first
one succeeds then so does the second one, with a result that `Post` relates to the first, and the
stores are related again where they end. Warnings and the states of the reporters do not matter. Two
programs of the same shape are compared part by part (`Mirrors.bind`), with one rule for each
primitive, and one for each part of the first pass that needs to know of the relation only how it
goes with what the part changes.
-/

namespace Daybook.Filling

variable {σ τ α β γ δ : Type} {Rel : Store → Store → Prop}

/-- From related stores, the second step follows the first to related results and stores. -/
def Mirrors (Rel : Store → Store → Prop) (step : Filling σ α) (step' : Filling τ β)
    (Post : α → β → Prop) : Prop :=
  ∀ p (p' : Progress τ) a q, Rel p.store p'.store → Leads step p a q →
    ∃ b q', Leads step' p' b q' ∧ Post a b ∧ Rel q.store q'.store

theorem Mirrors.bind {step : Filling σ α} {step' : Filling τ β} {Post : α → β → Prop}
    (h : Mirrors Rel step step' Post) {next : α → Filling σ γ} {next' : β → Filling τ δ}
    {Post' : γ → δ → Prop} (hnext : ∀ a b, Post a b → Mirrors Rel (next a) (next' b) Post') :
    Mirrors Rel (step >>= next) (step' >>= next') Post' := by
  intro p p' c q hrel hrun
  obtain ⟨a, m, hm, hq⟩ := leads_bind.mp hrun
  obtain ⟨b, m', hm', hpost, hrel'⟩ := h p p' a m hrel hm
  obtain ⟨d, q', hq', hpost', hend⟩ := hnext a b hpost m m' c q hrel' hq
  exact ⟨d, q', leads_bind.mpr ⟨b, m', hm', hq'⟩, hpost', hend⟩

theorem Mirrors.mono {step : Filling σ α} {step' : Filling τ β} {Post Post' : α → β → Prop}
    (h : Mirrors Rel step step' Post) (hpost : ∀ a b, Post a b → Post' a b) :
    Mirrors Rel step step' Post' := by
  intro p p' a q hrel hrun
  obtain ⟨b, q', hq', hab, hend⟩ := h p p' a q hrel hrun
  exact ⟨b, q', hq', hpost a b hab, hend⟩

theorem mirrors_pure {a : α} {b : β} {Post : α → β → Prop} (h : Post a b) :
    Mirrors Rel (pure a : Filling σ α) (pure b : Filling τ β) Post := by
  intro p p' a' q hrel hrun
  obtain ⟨rfl, rfl⟩ := leads_pure.mp hrun
  exact ⟨b, p', leads_pure.mpr ⟨rfl, rfl⟩, h, hrel⟩

theorem mirrors_throw {e : LedgerError} {step' : Filling τ β} {Post : α → β → Prop} :
    Mirrors Rel (throw e : Filling σ α) step' Post :=
  fun _ _ _ _ _ hrun => absurd hrun leads_throw

theorem mirrors_store_bind {next : Store → Filling σ α} {next' : Store → Filling τ β}
    {Post : α → β → Prop} (h : ∀ s s', Rel s s' → Mirrors Rel (next s) (next' s') Post) :
    Mirrors Rel (store >>= next) (store >>= next') Post := by
  intro p p' a q hrel hrun
  obtain ⟨b, q', hrun', hend⟩ :=
    h p.store p'.store hrel p p' a q hrel (leads_store_bind.mp hrun)
  exact ⟨b, q', leads_store_bind.mpr hrun', hend⟩

theorem mirrors_update {f f' : Store → Store} (h : ∀ s s', Rel s s' → Rel (f s) (f' s')) :
    Mirrors Rel (update f : Filling σ Unit) (update f' : Filling τ Unit) fun _ _ => True := by
  intro p p' u q hrel hrun
  obtain rfl := leads_update.mp hrun
  exact ⟨(), _, leads_update.mpr rfl, trivial, h p.store p'.store hrel⟩

theorem mirrors_warn {w w' : Warning} :
    Mirrors Rel (warn w : Filling σ Unit) (warn w' : Filling τ Unit) fun _ _ => True := by
  intro p p' u q hrel hrun
  obtain rfl := leads_warn.mp hrun
  exact ⟨(), _, leads_warn.mpr rfl, trivial, hrel⟩

theorem mirrors_report {r : Reporter σ} {r' : Reporter τ} (hr : r'.Admitting)
    (t t' : Transaction) (x x' : Posting) :
    Mirrors Rel (report (r.admitted · t x)) (report (r'.admitted · t' x')) fun _ _ => True := by
  intro p p' u q hrel hrun
  obtain ⟨state, -, rfl⟩ := leads_report.mp hrun
  have hreport : reported (r'.admitted · t' x') p' =
      (.ok (), (reported (r'.admitted · t' x') p').2) :=
    Prod.ext (hr p'.store t' x' p'.report) rfl
  exact ⟨(), _, leads_report.mpr ⟨_, hreport, rfl⟩, trivial, hrel⟩

/-! ## Steps that only read texts or report -/

theorem mirrors_readPattern (text : String) :
    Mirrors Rel (readPattern text : Filling σ Pattern)
      (readPattern text : Filling τ Pattern) (fun p p' => p' = p) := by
  rw [readPattern, readPattern]
  split
  · exact mirrors_pure rfl
  · exact mirrors_throw

theorem mirrors_mapM_readPattern (texts : List String) :
    Mirrors Rel (texts.mapM readPattern : Filling σ (List Pattern))
      (texts.mapM readPattern : Filling τ (List Pattern)) (fun ps ps' => ps' = ps) := by
  induction texts with
  | nil => exact mirrors_pure rfl
  | cons text texts ih =>
    rw [List.mapM_cons, List.mapM_cons]
    refine (mirrors_readPattern text).bind fun p _ hp => ih.bind fun ps _ hps => ?_
    rw [hp, hps]
    exact mirrors_pure rfl

theorem mirrors_readClasses (account account' : String) (texts : List String) :
    Mirrors Rel (readClasses account texts : Filling σ (List AccountClass))
      (readClasses account' texts : Filling τ (List AccountClass))
      (fun cs cs' => cs = texts.filterMap AccountClass.ofText? ∧ cs' = cs) := by
  induction texts with
  | nil => exact mirrors_pure ⟨rfl, rfl⟩
  | cons text texts ih =>
    rw [readClasses, readClasses]
    cases htext : AccountClass.ofText? text with
    | some c =>
      refine ih.bind fun cs cs' hcs => mirrors_pure ?_
      rw [hcs.2, List.filterMap_cons_some htext, hcs.1]
      exact ⟨rfl, rfl⟩
    | none =>
      rw [List.filterMap_cons_none htext]
      exact mirrors_warn.bind fun _ _ _ => ih

theorem mirrors_reportAdmitted {r : Reporter σ} {r' : Reporter τ} (hr : r'.Admitting)
    (t t' : Transaction) (f : Posting → Posting) (xs : List Posting) :
    Mirrors Rel (reportAdmitted r t xs) (reportAdmitted r' t' (xs.map f)) fun _ _ => True := by
  induction xs with
  | nil => exact mirrors_pure trivial
  | cons x xs ih => exact (mirrors_report hr t t' x (f x)).bind fun _ _ _ => ih

/-! ## Parts of the first pass -/

def keepOn (name : String) (x : Posting) : Filling σ Posting := do
  checkDeclared .account name ((← store).isDeclaredAccount name)
  update (·.ensureAccount name x.kind)
  let amount ← resolveCommodity? x.amount
  let lotPrice ← resolveCommodity? x.lotPrice
  let costPrice ← resolveCommodity? x.costPrice
  let balancePrice ← resolveCommodity? x.balancePrice
  return { x with account := .named name, amount, lotPrice, costPrice, balancePrice }

theorem resolvePosting_eq (t : Transaction) (x : Posting) (toBucket : Bool) :
    (resolvePosting t x toBucket : Filling σ Posting) =
      accountOf t x toBucket >>= fun name => keepOn name x := rfl

theorem mirrors_addPayeeAccounts {name name' : String}
    (hadd : ∀ p s s', Rel s s' → Rel { s with payeeAccounts := s.payeeAccounts ++ [(p, name)] }
      { s' with payeeAccounts := s'.payeeAccounts ++ [(p, name')] }) (texts : List String) :
    Mirrors Rel (addPayeeAccounts name texts : Filling σ Unit)
      (addPayeeAccounts name' texts : Filling τ Unit) fun _ _ => True := by
  induction texts with
  | nil => exact mirrors_pure trivial
  | cons text texts ih =>
    refine (mirrors_readPattern text).bind fun p _ hp => ?_
    rw [hp]
    exact (mirrors_update (hadd p)).bind fun _ _ _ => ih

section Amounts

variable (hresolve : ∀ c, Mirrors Rel (resolveCommodity c : Filling σ Commodity)
  (resolveCommodity c : Filling τ Commodity) fun d d' => d' = d)

include hresolve

theorem mirrors_resolveCommodity? (c : Option Commodity) :
    Mirrors Rel (resolveCommodity? c : Filling σ (Option Commodity))
      (resolveCommodity? c : Filling τ (Option Commodity)) fun d d' => d' = d := by
  cases c with
  | none => exact mirrors_pure rfl
  | some c =>
    rw [resolveCommodity?, map_eq_pure_bind, resolveCommodity?, map_eq_pure_bind]
    exact (hresolve c).bind fun d d' hd => mirrors_pure (congrArg some hd)

/-- A posting is kept on two accounts alike, if they are checked and brought in alike. -/
theorem mirrors_keepOn {name name' : String} (x : Posting) (account : AccountRef)
    (hcheck : ∀ s s', Rel s s' → Mirrors Rel
      (checkDeclared .account name (s.isDeclaredAccount name) : Filling σ Unit)
      (checkDeclared .account name' (s'.isDeclaredAccount name') : Filling τ Unit)
      fun _ _ => True)
    (hensure : ∀ s s', Rel s s' →
      Rel (s.ensureAccount name x.kind) (s'.ensureAccount name' x.kind)) :
    Mirrors Rel (keepOn name x : Filling σ Posting)
      (keepOn name' { x with account } : Filling τ Posting)
      fun y y' => y.account = .named name ∧ y' = { y with account := .named name' } := by
  refine mirrors_store_bind fun s s' h => ?_
  refine (hcheck s s' h).bind fun _ _ _ => ?_
  refine (mirrors_update hensure).bind fun _ _ _ => ?_
  refine (mirrors_resolveCommodity? hresolve x.amount).bind fun _ _ hamount => ?_
  refine (mirrors_resolveCommodity? hresolve x.lotPrice).bind fun _ _ hlot => ?_
  refine (mirrors_resolveCommodity? hresolve x.costPrice).bind fun _ _ hcost => ?_
  refine (mirrors_resolveCommodity? hresolve x.balancePrice).bind fun _ _ hbalance => ?_
  rw [hamount, hlot, hcost, hbalance]
  exact mirrors_pure ⟨rfl, rfl⟩

end Amounts

section Filing

variable {t t' : Transaction} (hdigest : t'.digest = t.digest)
  (hdigests : ∀ s s', Rel s s' → s'.digests = s.digests)
  (hcounts : ∀ s s' counts, Rel s s' →
    Rel { s with digests := counts } { s' with digests := counts })

include hdigest hdigests hcounts

theorem mirrors_noteDigest :
    Mirrors Rel (noteDigest t : Filling σ Unit) (noteDigest t' : Filling τ Unit)
      fun _ _ => True := by
  rw [noteDigest, noteDigest, hdigest]
  split
  · exact mirrors_pure trivial
  · refine mirrors_store_bind fun s s' h => ?_
    have hcount : Rel (s.countDigest t.digest).2 (s'.countDigest t.digest).2 := by
      rw [Store.countDigest, Store.countDigest, hdigests s s' h]
      exact hcounts s s' _ h
    refine (mirrors_update fun _ _ _ => hcount).bind fun _ _ _ => ?_
    rw [hdigests s s' h]
    split
    · exact mirrors_warn
    · exact mirrors_pure trivial

theorem mirrors_file {r : Reporter σ} {r' : Reporter τ} (hr : r'.Admitting)
    {f : Posting → Posting} (hpostings : t'.postings = t.postings.map f)
    (hinsert : ∀ s s', Rel s s' →
      Rel { s with transactions := s.transactions.insert t.moment t }
        { s' with transactions := s'.transactions.insert t'.moment t' }) :
    Mirrors Rel (file r t) (file r' t') fun _ _ => True := by
  have hreport : Mirrors Rel (reportAdmitted r t t.postings)
      (reportAdmitted r' t' (t.postings.map f)) fun _ _ => True :=
    mirrors_reportAdmitted hr t t' f t.postings
  rw [← hpostings] at hreport
  refine hreport.bind fun _ _ _ => ?_
  refine (mirrors_noteDigest hdigest hdigests hcounts).bind fun _ _ _ => ?_
  exact mirrors_update hinsert

end Filing

end Daybook.Filling
