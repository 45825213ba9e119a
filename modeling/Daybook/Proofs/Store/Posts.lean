import Daybook.Proofs.Commodity.Posts
import Daybook.Proofs.Store.Accounts
import Daybook.Proofs.Store.Leads
import Daybook.Store.Posting

/-!
# What posting does to a store

`Posts s amounts s'` says that the second store is the first one after the amounts have been posted
to its accounts, account by account, and that nothing else has changed. Posting an amount reaches
each account of its path once (`posts_postAmount`), and the second pass posts what its transactions
enter (`posts_postAll`).
-/

namespace Daybook

open AccountName (path)

namespace Store

/-- The amounts, listed by account, have been posted; nothing else has changed. -/
structure Posts (s : Store) (amounts : String → List Commodity) (s' : Store) : Prop where
  rest : s' = { s with accounts := s'.accounts }
  missing : ∀ name, s.accounts.find? name = none → s'.accounts.find? name = none
  posted : ∀ name a, s.accounts.find? name = some a → ∃ t,
    (amounts name).foldlM Turnover.post a.turnover = .ok t ∧
      s'.accounts.find? name = some { a with turnover := t }

namespace Posts

variable {s s' s'' : Store} {f g : String → List Commodity}

theorem refl (s : Store) : Posts s (fun _ => []) s :=
  ⟨rfl, fun _ h => h, fun _ a h => ⟨a.turnover, rfl, h⟩⟩

theorem trans (h : Posts s f s') (h' : Posts s' g s'') : Posts s (fun n => f n ++ g n) s'' := by
  refine ⟨by rw [h'.rest, h.rest], fun name hname => h'.missing name (h.missing name hname),
    fun name a ha => ?_⟩
  obtain ⟨t, ht, hfind⟩ := h.posted name a ha
  obtain ⟨t', ht', hfind'⟩ := h'.posted name _ hfind
  refine ⟨t', ?_, hfind'⟩
  rw [List.foldlM_append, ht]
  exact ht'

theorem congr (h : Posts s f s') (hfg : ∀ n, f n = g n) : Posts s g s' := by
  rwa [show g = f from funext fun n => (hfg n).symm]

theorem isSome_iff (h : Posts s f s') (name : String) :
    (s'.accounts.find? name).isSome = (s.accounts.find? name).isSome := by
  cases hfind : s.accounts.find? name with
  | none => rw [h.missing name hfind]
  | some a =>
    obtain ⟨t, -, hfind'⟩ := h.posted name a hfind
    rw [hfind']
    rfl

theorem houses (h : Posts s f s') {name : String} (hname : s.Houses name) : s'.Houses name :=
  fun n hn => (h.isSome_iff n).trans (hname n hn)

end Posts

/-! ## One amount -/

theorem Houses.of_mem_path {s : Store} {n name : String} (h : s.Houses name) (hn : n ∈ path name) :
    s.Houses n :=
  fun a ha => h a (AccountName.path_subset_of_mem hn a ha)

theorem posts_postTo {s s' : Store} {name : String} {kind : PostingKind} {c : Commodity}
    (hname : s.Houses name) (h : s.postTo name kind c = .ok s') :
    Posts s (fun n => if n = name then [c] else []) s' := by
  obtain ⟨a, ha⟩ := Option.isSome_iff_exists.mp (hname name List.mem_cons_self)
  simp only [postTo, hname.ensureAccount_eq, ha, Result.bind_eq_ok_iff,
    Result.mapError_eq_ok_iff, Result.pure_eq_ok_iff, Account.post] at h
  obtain ⟨_, ⟨t, ht, rfl⟩, rfl⟩ := h
  refine ⟨rfl, fun other hother => ?_, fun other b hb => ?_⟩
  · have hne : name ≠ other := by
      rintro rfl
      simp [ha] at hother
    rw [NameMap.find?_insert_of_ne _ _ hne, hother]
  · by_cases heq : name = other
    · subst heq
      obtain rfl := Option.some.inj (ha.symm.trans hb)
      rw [if_pos rfl, NameMap.find?_insert_self]
      refine ⟨t, ?_, rfl⟩
      rw [List.foldlM_cons, ht]
      rfl
    · rw [if_neg fun h => heq h.symm, NameMap.find?_insert_of_ne _ _ heq]
      exact ⟨b.turnover, rfl, hb⟩

theorem posts_carryTo {s s' : Store} {c : Commodity} {names : List String} (hnodup : names.Nodup)
    (hnames : ∀ n ∈ names, s.Houses n) (h : s.carryTo c names = .ok s') :
    Posts s (fun n => if n ∈ names then [c] else []) s' := by
  induction names generalizing s with
  | nil =>
    obtain rfl := Except.ok.inj h
    exact (Posts.refl s).congr fun n => by simp
  | cons name names ih =>
    obtain ⟨hname, hnodup⟩ := List.nodup_cons.mp hnodup
    rw [carryTo, Result.bind_eq_ok_iff] at h
    obtain ⟨m, hm, h⟩ := h
    have hfirst := posts_postTo (hnames name (by simp)) hm
    have hrest := ih hnodup (fun n hn => hfirst.houses (hnames n (by simp [hn]))) h
    refine (hfirst.trans hrest).congr fun n => ?_
    by_cases heq : n = name
    · subst heq
      simp [hname]
    · simp [heq]

theorem posts_postAmount {s s' : Store} {name : String} {kind : PostingKind} {c : Commodity}
    (hname : s.Houses name) (h : s.postAmount name kind c = .ok s') :
    Posts s (fun n => if n ∈ path name then [c] else []) s' := by
  have hkind : s.postTo name kind c = s.postTo name .real c := by
    rw [postTo, postTo, hname.ensureAccount_eq, hname.ensureAccount_eq]
  have hcarry : s.carryTo c (path name) = .ok s' := by
    rw [path, carryTo, ← hkind]
    exact h
  exact posts_carryTo (AccountName.nodup_path name) (fun n hn => hname.of_mem_path hn) hcarry

end Store

/-- The amount that the posting brings to its account, if it has both. -/
def Posting.brought? (x : Posting) : Option (String × Commodity) :=
  match x.account, x.amount with
  | .named name, some c => some (name, c)
  | _, _ => none

theorem Posting.brought?_eq_some_iff {x : Posting} {name : String} {c : Commodity} :
    x.brought? = some (name, c) ↔ x.account = .named name ∧ x.amount = some c := by
  rw [brought?]
  cases x.account <;> cases x.amount <;> simp

/-- The amounts that the postings bring to accounts, in order. -/
def Transaction.entries (t : Transaction) : List (String × Commodity) :=
  t.postings.filterMap Posting.brought?

/-- The amounts that count on the account: those that are brought to it or beneath it. -/
def countsOn (root : String) (entries : List (String × Commodity)) : List Commodity :=
  (entries.filter fun e => AccountName.isWithin e.1 root).map (·.2)

theorem countsOn_append (root : String) (xs ys : List (String × Commodity)) :
    countsOn root (xs ++ ys) = countsOn root xs ++ countsOn root ys := by
  simp [countsOn]

theorem countsOn_singleton (root name : String) (c : Commodity) :
    countsOn root [(name, c)] = if root ∈ path name then [c] else [] := by
  simp only [countsOn, AccountName.mem_path_iff]
  cases h : AccountName.isWithin name root <;> simp [h]

/-! ## The second pass -/

namespace Filling

variable {σ : Type} {r : Reporter σ} {p q : Progress σ}

theorem store_of_leads_report {action : Store → Reporting σ Unit} {u : Unit}
    (h : Leads (report action) p u q) : q.store = p.store := by
  obtain ⟨state, -, rfl⟩ := leads_report.mp h
  rfl

theorem store_of_leads_reportCarried {t : Transaction} {x : Posting} {names : List String}
    {u : Unit} (h : Leads (reportCarried r t x names) p u q) : q.store = p.store := by
  induction names generalizing p with
  | nil => rw [(leads_pure.mp h).2]
  | cons name names ih =>
    rw [reportCarried, leads_store_bind] at h
    split at h
    · rw [leads_bind] at h
      obtain ⟨_, m, hreport, h⟩ := h
      rw [ih h, store_of_leads_report hreport]
    · rw [(leads_pure.mp h).2]

theorem posts_postPosting {t : Transaction} {x : Posting} {u : Unit}
    (hx : ∀ e, x.brought? = some e → p.store.Houses e.1) (h : Leads (postPosting r t x) p u q) :
    Store.Posts p.store (fun n => countsOn n x.brought?.toList) q.store := by
  rw [postPosting] at h
  split at h
  · rename_i name c haccount hamount
    have hbrought := Posting.brought?_eq_some_iff.mpr ⟨haccount, hamount⟩
    rw [leads_store_bind, leads_bind] at h
    obtain ⟨s, m, hlift, h⟩ := h
    obtain ⟨hpost, rfl⟩ := leads_lift.mp hlift
    simp only [leads_bind, leads_update] at h
    obtain ⟨_, _, rfl, _, m, hreport, hcarried⟩ := h
    have hq := (store_of_leads_reportCarried hcarried).trans (store_of_leads_report hreport)
    rw [hq, hbrought]
    exact (Store.posts_postAmount (hx _ hbrought) hpost).congr fun n =>
      (countsOn_singleton n name c).symm
  · rename_i hnone
    obtain ⟨-, rfl⟩ := leads_pure.mp h
    have hbrought : x.brought? = none := by
      refine Option.eq_none_iff_forall_ne_some.mpr fun e he => ?_
      obtain ⟨haccount, hamount⟩ := Posting.brought?_eq_some_iff.mp he
      exact hnone e.1 e.2 haccount hamount
    rw [hbrought]
    exact Store.Posts.refl _

theorem posts_postPostings {t : Transaction} {xs : List Posting} {u : Unit}
    (hxs : ∀ e ∈ xs.filterMap Posting.brought?, p.store.Houses e.1)
    (h : Leads (postPostings r t xs) p u q) :
    Store.Posts p.store (fun n => countsOn n (xs.filterMap Posting.brought?)) q.store := by
  induction xs generalizing p with
  | nil =>
    obtain ⟨-, rfl⟩ := leads_pure.mp h
    exact Store.Posts.refl _
  | cons x xs ih =>
    rw [postPostings, leads_bind] at h
    obtain ⟨_, m, hx, h⟩ := h
    have hsplit : (x :: xs).filterMap Posting.brought? =
        x.brought?.toList ++ xs.filterMap Posting.brought? := by
      cases he : x.brought? <;> simp [he]
    rw [hsplit] at hxs ⊢
    have hfirst := posts_postPosting (fun e he => hxs e (by simp [he])) hx
    have hrest := ih (fun e he => hfirst.houses (hxs e (List.mem_append_right _ he))) h
    exact (hfirst.trans hrest).congr fun n => (countsOn_append n _ _).symm

theorem posts_postAll {ts : List Transaction} {u : Unit}
    (hts : ∀ e ∈ ts.flatMap Transaction.entries, p.store.Houses e.1)
    (h : Leads (postAll r ts) p u q) :
    Store.Posts p.store (fun n => countsOn n (ts.flatMap Transaction.entries)) q.store := by
  induction ts generalizing p with
  | nil =>
    obtain ⟨-, rfl⟩ := leads_pure.mp h
    exact Store.Posts.refl _
  | cons t ts ih =>
    simp only [postAll, leads_bind] at h
    obtain ⟨_, m, ht, _, m', hclosed, h⟩ := h
    rw [List.flatMap_cons] at hts ⊢
    have hm' := store_of_leads_report hclosed
    have hfirst := posts_postPostings (fun e he => hts e (List.mem_append_left _ he)) ht
    rw [← hm'] at hfirst
    have hrest := ih (fun e he => hfirst.houses (hts e (List.mem_append_right _ he))) h
    exact (hfirst.trans hrest).congr fun n => (countsOn_append n _ _).symm

end Filling

end Daybook
