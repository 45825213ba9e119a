import Daybook.Proofs.Store.Leads
import Daybook.Store.Admission

/-!
# How transactions are kept

`Store.kept?` is the transaction that a store makes of a written one, and `Store.note` what a kept
posting leaves behind in the store: its account, the accounts above, and its commodities. Admitting
a transaction files the first and does the second, posting by posting, and changes nothing else but
the count of its digest (`leads_admitOne`).
-/

namespace Daybook

/-- All amounts of a posting: its own, and those that are prices. -/
def Posting.values (p : Posting) : List Commodity :=
  p.amount.toList ++ p.lotPrice.toList ++ p.costPrice.toList ++ p.balancePrice.toList

namespace Store

/-- The account of a posting; that of the bucket account is whole already. -/
def accountFor (s : Store) (t : Transaction) (p : Posting) (toBucket : Bool) :
    Except LedgerError String :=
  match p.account, toBucket with
  | .named name, true => .ok name
  | _, _ => s.resolveAccount p t

def keptOn (s : Store) (name : String) (p : Posting) : Posting :=
  { p with
    account := .named name
    amount := p.amount.map s.declaredForm
    lotPrice := p.lotPrice.map s.declaredForm
    costPrice := p.costPrice.map s.declaredForm
    balancePrice := p.balancePrice.map s.declaredForm }

/-- The postings as they are kept, the first one standing at place `n`. -/
def keptPostings (s : Store) (t : Transaction) (bucketPlace : Option Nat) (n : Nat) :
    List Posting → Except LedgerError (List Posting)
  | [] => .ok []
  | p :: rest => do
    let name ← s.accountFor t p (bucketPlace = some n)
    return s.keptOn name p :: (← s.keptPostings t bucketPlace (n + 1) rest)

def kept? (s : Store) (t : Transaction) : Except LedgerError Transaction := do
  let t := s.withPayee t
  let (t, bucketPlace) ← (s.noteFirst t).balanced t
  return { t with postings := ← s.keptPostings t bucketPlace 0 t.postings }

def registerAll (s : Store) (cs : List Commodity) : Store := cs.foldl register s

/-- Brings in the account of a kept posting and registers its amounts. -/
def note (s : Store) (p : Posting) : Store :=
  (s.ensureAccount (p.account.name?.getD "") p.kind).registerAll p.values

/-- How often each digest has been seen once the transaction is filed. -/
def digestsWith (s : Store) (t : Transaction) : NameMap Nat :=
  if t.digest = "" then s.digests else (s.countDigest t.digest).2.digests

/-- Whether the second store differs from the first at most in what has been named. -/
def SameRules (s s' : Store) : Prop :=
  s' = { s with accounts := s'.accounts, samples := s'.samples, firstName := s'.firstName }

/-! ## What naming things leaves alone -/

namespace SameRules

variable {s s' s'' : Store}

theorem trans (h : SameRules s s') (h' : SameRules s' s'') : SameRules s s'' := by
  rw [SameRules] at h h'
  rw [SameRules, h', h]

theorem declaredForm (h : SameRules s s') : s'.declaredForm = s.declaredForm := by
  rw [h]
  rfl

theorem keptOn (h : SameRules s s') : s'.keptOn = s.keptOn := by
  rw [h]
  rfl

theorem accountFor (h : SameRules s s') : s'.accountFor = s.accountFor := by
  rw [h]
  rfl

theorem options (h : SameRules s s') : s'.options = s.options := by
  rw [h]

theorem transactions (h : SameRules s s') : s'.transactions = s.transactions := by
  rw [h]

theorem digestsWith (h : SameRules s s') : s'.digestsWith = s.digestsWith := by
  rw [h]
  rfl

theorem keptPostings (h : SameRules s s') (t : Transaction) (place : Option Nat) (n : Nat)
    (ps : List Posting) : s'.keptPostings t place n ps = s.keptPostings t place n ps := by
  induction ps generalizing n with
  | nil => rfl
  | cons p ps ih => rw [Store.keptPostings, Store.keptPostings, ih, h.accountFor, h.keptOn]

end SameRules

theorem sameRules_register (s : Store) (c : Commodity) : SameRules s (s.register c) := rfl

theorem sameRules_ensureAccount (s : Store) (name : String) (kind : PostingKind) :
    SameRules s (s.ensureAccount name kind) := rfl

theorem sameRules_noteFirst (s : Store) (t : Transaction) : SameRules s (s.noteFirst t) := rfl

theorem sameRules_registerAll (s : Store) (cs : List Commodity) :
    SameRules s (s.registerAll cs) := by
  induction cs generalizing s with
  | nil => rfl
  | cons c cs ih => exact (sameRules_register s c).trans (ih _)

theorem sameRules_note (s : Store) (p : Posting) : SameRules s (s.note p) :=
  (sameRules_ensureAccount s _ _).trans (sameRules_registerAll _ _)

theorem sameRules_foldl_note (s : Store) (ps : List Posting) : SameRules s (ps.foldl note s) := by
  induction ps generalizing s with
  | nil => rfl
  | cons p ps ih => exact (sameRules_note s p).trans (ih _)

end Store

/-! ## Resolving -/

namespace Filling

variable {σ : Type} {p q : Progress σ}

/-- An undeclared name is refused by pedantic options only, and noted by strict ones. -/
theorem leads_checkDeclared {kind : NameKind} {name : String} {declared : Bool} {u : Unit} :
    Leads (checkDeclared kind name declared) p u q ↔
      (declared = true ∨ p.store.options.pedantic = false) ∧
        { p with warnings := if declared = false ∧ p.store.options.strict = true
            then .undeclared kind name :: p.warnings else p.warnings } = q := by
  cases declared with
  | true => simp [checkDeclared, leads_pure]
  | false =>
    simp only [checkDeclared, Bool.false_eq_true, if_false, leads_store_bind]
    cases hpedantic : p.store.options.pedantic with
    | true => simp [leads_throw]
    | false =>
      cases hstrict : p.store.options.strict with
      | true => simp [leads_warn]
      | false => simp [leads_pure]

theorem store_of_leads_checkDeclared {kind : NameKind} {name : String} {declared : Bool} {u : Unit}
    (h : Leads (checkDeclared kind name declared) p u q) : q.store = p.store := by
  rw [← (leads_checkDeclared.mp h).2]

theorem leads_resolveCommodity {c d : Commodity} (h : Leads (resolveCommodity c) p d q) :
    d = p.store.declaredForm c ∧ q.store = p.store.register d := by
  rw [resolveCommodity, leads_store_bind] at h
  simp only [leads_bind, leads_update, leads_pure] at h
  obtain ⟨_, m, hcheck, _, _, rfl, rfl, rfl⟩ := h
  exact ⟨rfl, by rw [store_of_leads_checkDeclared hcheck]⟩

theorem leads_resolveCommodity? {c d : Option Commodity}
    (h : Leads (resolveCommodity? c) p d q) :
    d = c.map p.store.declaredForm ∧ q.store = p.store.registerAll d.toList := by
  cases c with
  | none =>
    obtain ⟨rfl, rfl⟩ := leads_pure.mp h
    exact ⟨rfl, rfl⟩
  | some c =>
    obtain ⟨d', h', rfl⟩ := leads_map.mp h
    obtain ⟨rfl, hstore⟩ := leads_resolveCommodity h'
    exact ⟨rfl, hstore⟩

theorem leads_accountOf {t : Transaction} {x : Posting} {toBucket : Bool} {name : String} :
    Leads (accountOf t x toBucket) p name q ↔
      p.store.accountFor t x toBucket = .ok name ∧ p = q := by
  rcases haccount : x.account with written | root
  · cases toBucket with
    | true => simp [accountOf, Store.accountFor, haccount, leads_pure]
    | false => simp [accountOf, Store.accountFor, haccount, leads_store_bind, leads_lift]
  · simp [accountOf, Store.accountFor, haccount, leads_store_bind, leads_lift]

theorem leads_resolvePosting {t : Transaction} {x y : Posting} {toBucket : Bool}
    (h : Leads (resolvePosting t x toBucket) p y q) :
    ∃ name, p.store.accountFor t x toBucket = .ok name ∧ y = p.store.keptOn name x ∧
      q.store = p.store.note y := by
  rw [resolvePosting] at h
  simp only [leads_bind, leads_accountOf, leads_store, leads_update, leads_pure] at h
  obtain ⟨name, _, ⟨hname, rfl⟩, _, _, ⟨rfl, rfl⟩, _, m₁, hcheck, _, _, rfl, amount, m₂, hamount,
    lot, m₃, hlot, cost, m₄, hcost, balance, m₅, hbalance, rfl, rfl⟩ := h
  have h₁ := store_of_leads_checkDeclared hcheck
  obtain ⟨rfl, h₂⟩ := leads_resolveCommodity? hamount
  obtain ⟨rfl, h₃⟩ := leads_resolveCommodity? hlot
  obtain ⟨rfl, h₄⟩ := leads_resolveCommodity? hcost
  obtain ⟨rfl, h₅⟩ := leads_resolveCommodity? hbalance
  have r₂ : Store.SameRules p.store m₂.store := by
    rw [h₂, h₁]
    exact (Store.sameRules_ensureAccount ..).trans (Store.sameRules_registerAll ..)
  have r₃ : Store.SameRules p.store m₃.store := h₃ ▸ r₂.trans (Store.sameRules_registerAll ..)
  have r₄ : Store.SameRules p.store m₄.store := h₄ ▸ r₃.trans (Store.sameRules_registerAll ..)
  refine ⟨name, hname, ?_, ?_⟩
  · rw [r₂.declaredForm, r₃.declaredForm, r₄.declaredForm, h₁]
    rfl
  · rw [h₅, h₄, h₃, h₂, h₁]
    simp only [Store.note, Store.registerAll, Posting.values, List.foldl_append]
    rfl

theorem leads_resolvePostings {t : Transaction} {place : Option Nat} {n : Nat}
    {xs ys : List Posting} (h : Leads (resolvePostings t place n xs) p ys q) :
    p.store.keptPostings t place n xs = .ok ys ∧ q.store = ys.foldl Store.note p.store := by
  induction xs generalizing p n ys with
  | nil =>
    obtain ⟨rfl, rfl⟩ := leads_pure.mp h
    exact ⟨rfl, rfl⟩
  | cons x xs ih =>
    simp only [resolvePostings, leads_bind, leads_pure] at h
    obtain ⟨y, m, hy, ys, m', hys, rfl, rfl⟩ := h
    obtain ⟨name, hname, rfl, hm⟩ := leads_resolvePosting hy
    obtain ⟨hkept, hm'⟩ := ih hys
    have hsame : Store.SameRules p.store m.store := hm ▸ Store.sameRules_note ..
    rw [hsame.keptPostings] at hkept
    refine ⟨?_, by rw [hm', hm, List.foldl_cons]⟩
    simp only [Store.keptPostings, Result.bind_eq_ok_iff, Result.pure_eq_ok_iff]
    exact ⟨name, hname, ys, hkept, rfl⟩

theorem store_of_leads_reportAdmitted {r : Reporter σ} {t : Transaction} {ps : List Posting}
    {u : Unit} (h : Leads (reportAdmitted r t ps) p u q) : q.store = p.store := by
  induction ps generalizing p with
  | nil => rw [(leads_pure.mp h).2]
  | cons x ps ih =>
    simp only [reportAdmitted, leads_bind, leads_report] at h
    obtain ⟨_, m, ⟨state, -, rfl⟩, h⟩ := h
    have hstore := ih h
    exact hstore

theorem store_of_leads_noteDigest {t : Transaction} {u : Unit} (h : Leads (noteDigest t) p u q) :
    q.store = { p.store with digests := p.store.digestsWith t } := by
  rw [noteDigest] at h
  rw [Store.digestsWith]
  split at h
  case isTrue hempty =>
    obtain ⟨-, rfl⟩ := leads_pure.mp h
    rw [if_pos hempty]
  case isFalse hdigest =>
    rw [if_neg hdigest]
    rw [leads_store_bind] at h
    simp only [leads_bind, leads_update] at h
    obtain ⟨_, _, rfl, h⟩ := h
    split at h
    · rw [← leads_warn.mp h]
      rfl
    · rw [← (leads_pure.mp h).2]
      rfl

/-- Tells the reporter of a transaction, counts its digest and files it. -/
def file (r : Reporter σ) (t : Transaction) : Filling σ Unit := do
  reportAdmitted r t t.postings
  noteDigest t
  update fun s => { s with transactions := s.transactions.insert t.moment t }

/-- What remains to be done once the postings of a transaction are kept. -/
def fileKept (r : Reporter σ) (t : Transaction) : Filling σ Unit := do
  let s ← store
  if s.options.checkPayee then checkDeclared .payee t.payee (s.isDeclaredPayee t.payee)
  file r t

theorem store_of_leads_fileKept {r : Reporter σ} {t : Transaction} {u : Unit}
    (h : Leads (fileKept r t) p u q) : q.store = { p.store with
      digests := p.store.digestsWith t
      transactions := p.store.transactions.insert t.moment t } := by
  have hfile : ∃ m, m.store = p.store ∧ Leads (file r t) m u q := by
    rw [fileKept, leads_store_bind] at h
    split at h
    · obtain ⟨_, m, hcheck, h⟩ := leads_bind.mp h
      exact ⟨m, store_of_leads_checkDeclared hcheck, h⟩
    · exact ⟨p, rfl, h⟩
  obtain ⟨m, hm, hfile⟩ := hfile
  simp only [file, leads_bind, leads_update] at hfile
  obtain ⟨_, m₁, hreport, _, m₂, hdigest, rfl⟩ := hfile
  have hm₁ := store_of_leads_reportAdmitted hreport
  have hm₂ := store_of_leads_noteDigest hdigest
  rw [hm₁, hm] at hm₂
  rw [hm₂]

/-- The parts of admitting a transaction: it is balanced, its postings are kept, and it is filed. -/
theorem admitOne_eq (r : Reporter σ) (t : Transaction) :
    admitOne r t = store >>= fun s => update (·.noteFirst (s.withPayee t)) >>= fun _ =>
      store >>= fun s' => liftM (s'.balanced (s.withPayee t)) >>= fun balanced =>
      resolvePostings balanced.1 balanced.2 0 balanced.1.postings >>= fun postings =>
      fileKept r { balanced.1 with postings } :=
  rfl

theorem leads_admitOne_iff {r : Reporter σ} {t : Transaction} {v : Unit} :
    Leads (admitOne r t) p v q ↔ ∃ u place ys m,
      (p.store.noteFirst (p.store.withPayee t)).balanced (p.store.withPayee t) = .ok (u, place) ∧
      Leads (resolvePostings u place 0 u.postings)
        { p with store := p.store.noteFirst (p.store.withPayee t) } ys m ∧
      Leads (fileKept r { u with postings := ys }) m v q := by
  rw [admitOne_eq, leads_store_bind]
  simp only [leads_bind, leads_update, leads_store, leads_lift]
  constructor
  · rintro ⟨_, _, rfl, _, _, ⟨rfl, rfl⟩, ⟨u, place⟩, _, ⟨hbalanced, rfl⟩, ys, m, hys, hfile⟩
    exact ⟨u, place, ys, m, hbalanced, hys, hfile⟩
  · rintro ⟨u, place, ys, m, hbalanced, hys, hfile⟩
    exact ⟨(), _, rfl, _, _, ⟨rfl, rfl⟩, (u, place), _, ⟨hbalanced, rfl⟩, ys, m, hys, hfile⟩

/-- Admitting a transaction files it as it is kept, and names what it names. -/
theorem leads_admitOne {r : Reporter σ} {t : Transaction} {u : Unit}
    (h : Leads (admitOne r t) p u q) :
    ∃ t', p.store.kept? t = .ok t' ∧ q.store =
      { t'.postings.foldl Store.note (p.store.noteFirst (p.store.withPayee t)) with
        digests := p.store.digestsWith t'
        transactions := p.store.transactions.insert t'.moment t' } := by
  obtain ⟨t₁, place, ys, m, hbalanced, hys, hfile⟩ := leads_admitOne_iff.mp h
  obtain ⟨hkept, hm⟩ := leads_resolvePostings hys
  have hsame := Store.sameRules_noteFirst p.store (p.store.withPayee t)
  have hrules : Store.SameRules p.store m.store := by
    rw [hm]
    exact hsame.trans (Store.sameRules_foldl_note _ ys)
  refine ⟨{ t₁ with postings := ys }, ?_, ?_⟩
  · rw [hsame.keptPostings] at hkept
    simp only [Store.kept?, Result.bind_eq_ok_iff, Result.pure_eq_ok_iff]
    exact ⟨(t₁, place), hbalanced, ys, hkept, rfl⟩
  · rw [store_of_leads_fileKept hfile, hrules.transactions, hrules.digestsWith, hm]

end Filling

end Daybook
