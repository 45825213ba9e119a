import Daybook.Proofs.Store.FirstPass

/-!
# The order of an admitted store

After a first pass every transaction is filed under its own moment, all accounts that its postings
count on are there, and nothing has been posted yet (`orderly_of_firstPass`). This is what the
second pass starts from.
-/

namespace Daybook

namespace Store

/-- The order that the first pass keeps. -/
structure Orderly (s : Store) : Prop where
  filed : ∀ e ∈ s.transactions.entries, e.1 = e.2.moment
  housed : ∀ t, s.Holds t → ∀ x ∈ t.postings, ∃ name, x.account = .named name ∧ s.Houses name
  unposted : s.Unposted

theorem orderly_empty (options : Options) : (empty options).Orderly :=
  ⟨fun _ he => absurd he List.not_mem_nil, fun _ ht => absurd ht List.not_mem_nil,
    fun name a ha => by simp [empty] at ha⟩

theorem Orderly.of_extends {s s' : Store} (h : s.Orderly) (hext : Extends s s')
    (hunposted : s'.Unposted) (htransactions : s'.transactions = s.transactions) : s'.Orderly := by
  refine ⟨by rw [htransactions]; exact h.filed, fun t ht x hx => ?_, hunposted⟩
  rw [Holds, htransactions] at ht
  obtain ⟨name, hname, hhouses⟩ := h.housed t ht x hx
  exact ⟨name, hname, hhouses.mono hext⟩

/-! ## Directives other than transactions -/

theorem find?_withDeclared (s : Store) (name other : String) (d : AccountDeclaration) :
    ∃ f : Account → Account,
      (∀ P : String → Account → Prop, Lasting P → ∀ n a, P n a → P n (f a)) ∧
      (s.withDeclared name d).accounts.find? other =
        ((s.ensureAccount name .real).accounts.find? other).map f := by
  obtain ⟨a, ha, hs⟩ := withDeclared_eq s name d
  rw [hs]
  by_cases heq : name = other
  · subst heq
    refine ⟨fun a => Filling.declared a d (d.types.filterMap AccountClass.ofText?),
      fun P hP n a h => hP.declared n a d _ h, ?_⟩
    rw [NameMap.find?_insert_self, ha]
    rfl
  · refine ⟨id, fun _ _ _ _ h => h, ?_⟩
    rw [NameMap.find?_insert_of_ne _ _ heq, Option.map_id, id]

theorem extends_withDeclared (s : Store) (name : String) (d : AccountDeclaration) :
    Extends s (s.withDeclared name d) := by
  intro other h
  obtain ⟨f, -, hfind⟩ := find?_withDeclared s name other d
  rw [hfind, Option.isSome_map]
  exact extends_ensureAccount s name .real other h

theorem Each.withDeclared {s : Store} {P : String → Account → Prop} (h : s.Each P)
    (hP : Lasting P) (name : String) (d : AccountDeclaration) :
    (s.withDeclared name d).Each P := by
  intro other a ha
  obtain ⟨f, hlasting, hfind⟩ := find?_withDeclared s name other d
  rw [hfind, Option.map_eq_some_iff] at ha
  obtain ⟨b, hb, rfl⟩ := ha
  exact hlasting P hP other b (h.ensureAccount hP name .real other b hb)

theorem accounts_declareCommodity (s : Store) (d : CommodityDeclaration) :
    (Filling.declareCommodity d s).accounts = s.accounts := by
  rw [Filling.declareCommodity]
  split <;> rfl

theorem extends_entered (s : Store) (d : Directive) : Extends s (s.entered d) := by
  cases d
  case account d => exact extends_withDeclared s _ d
  case commodity d =>
    rw [Extends, entered, accounts_declareCommodity]
    exact fun _ h => h
  all_goals exact .refl s

theorem Each.entered {s : Store} {P : String → Account → Prop} (h : s.Each P) (hP : Lasting P)
    (d : Directive) : (s.entered d).Each P := by
  cases d
  case account d => exact h.withDeclared hP _ d
  case commodity d =>
    rw [Each, Store.entered, accounts_declareCommodity]
    exact h
  all_goals exact h

theorem Orderly.entered {s : Store} (h : s.Orderly) (d : Directive) : (s.entered d).Orderly :=
  h.of_extends (extends_entered s d) (Each.entered h.unposted lasting_unposted d)
    (transactions_entered s d)

theorem Orderly.sameBooks {s s' : Store} (h : s.Orderly) (hbooks : SameBooks s s') :
    s'.Orderly := by
  have haccounts : s'.accounts = s.accounts := by rw [hbooks]
  refine h.of_extends ?_ ?_ (by rw [hbooks])
  · rw [Extends, haccounts]
    exact fun _ h => h
  · rw [Unposted, haccounts]
    exact h.unposted

/-! ## Transactions -/

theorem account_of_keptPostings {s : Store} {t : Transaction} {place : Option Nat} {n : Nat}
    {xs ys : List Posting} (h : s.keptPostings t place n xs = .ok ys) :
    ∀ y ∈ ys, ∃ name, y.account = .named name := by
  induction xs generalizing n ys with
  | nil =>
    obtain rfl := Except.ok.inj h
    exact fun y hy => absurd hy List.not_mem_nil
  | cons x xs ih =>
    simp only [keptPostings, Result.bind_eq_ok_iff, Result.pure_eq_ok_iff] at h
    obtain ⟨name, -, rest, hrest, rfl⟩ := h
    intro y hy
    rcases List.mem_cons.mp hy with rfl | hy
    · exact ⟨name, rfl⟩
    · exact ih hrest y hy

theorem account_of_kept? {s : Store} {t t' : Transaction} (h : s.kept? t = .ok t') :
    ∀ y ∈ t'.postings, ∃ name, y.account = .named name := by
  simp only [kept?, Result.bind_eq_ok_iff, Result.pure_eq_ok_iff] at h
  obtain ⟨_, -, ys, hkept, rfl⟩ := h
  exact account_of_keptPostings hkept

theorem Orderly.withKept {s : Store} (h : s.Orderly) {t t' : Transaction}
    (hkept : s.kept? t = .ok t') : (s.withKept t t').Orderly := by
  have hext : Extends s (s.withKept t t') := extends_foldl_note (s.noteFirst _) t'.postings
  refine ⟨fun e he => ?_, fun x hx y hy => ?_, ?_⟩
  · rcases List.mem_cons.mp ((s.transactions.perm_insert t'.moment t').mem_iff.mp he) with rfl | he
    · rfl
    · exact h.filed e he
  · rcases (holds_insert s _ _ x).mp hx with hx | rfl
    · obtain ⟨name, hname, hhouses⟩ := h.housed x hx y hy
      exact ⟨name, hname, hhouses.mono hext⟩
    · obtain ⟨name, hname⟩ := account_of_kept? hkept y hy
      exact ⟨name, hname, houses_foldl_note (s.noteFirst (s.withPayee t)) hy hname⟩
  · have hunposted : (s.noteFirst (s.withPayee t)).Unposted := h.unposted
    exact Each.foldl_note hunposted lasting_unposted t'.postings

end Store

namespace Filling

variable {σ : Type} {r : Reporter σ} {p q : Progress σ} {ds : List (Spanned Directive)}

theorem orderly_of_takeIn {d : Spanned Directive} {u : Unit} (hp : p.store.Orderly)
    (h : Leads (takeIn r d) p u q) : q.store.Orderly := by
  rcases leads_takeIn h with ⟨t, t', -, hkept, hq⟩ | ⟨-, hbooks⟩
  · have horderly := hp.withKept hkept
    rw [hq]
    exact ⟨horderly.filed, horderly.housed, horderly.unposted⟩
  · exact (hp.entered d.value).sameBooks hbooks

theorem Admits.orderly (h : Admits r p ds q) (hp : p.store.Orderly) : q.store.Orderly := by
  induction h with
  | start => exact hp
  | next _ hd ih => exact orderly_of_takeIn ih hd

theorem orderly_of_firstPass {options : Options} {state : σ}
    (h : runOn (firstPass r ds) (.empty options) state = (.ok (), q)) : q.store.Orderly := by
  obtain ⟨-, m, hall, -, rfl⟩ := leads_firstPass.mp h
  have horderly := hall.orderly (Store.orderly_empty options)
  exact ⟨horderly.filed, horderly.housed, horderly.unposted⟩

theorem stage_of_firstPass {options : Options} {state : σ}
    (h : runOn (firstPass r ds) (.empty options) state = (.ok (), q)) :
    q.store.stage = .admitted := by
  obtain ⟨-, m, -, -, rfl⟩ := leads_firstPass.mp h
  rfl

/-! ## What lasts -/

theorem Admits.each (h : Admits r p ds q) {P : String → Account → Prop} (hP : Store.Lasting P)
    (hp : p.store.Each P) : q.store.Each P := by
  induction h with
  | start => exact hp
  | @next ds d m q _ hd ih =>
    rcases leads_takeIn hd with ⟨t, t', -, -, hq⟩ | ⟨-, hbooks⟩
    · have hfirst : (m.store.noteFirst (m.store.withPayee t)).Each P := ih
      rw [hq]
      exact hfirst.foldl_note hP t'.postings
    · rw [Store.Each, hbooks]
      exact ih.entered hP d.value

theorem each_of_firstPass {P : String → Account → Prop} (hP : Store.Lasting P) {options : Options}
    {state : σ} (h : runOn (firstPass r ds) (.empty options) state = (.ok (), q)) :
    q.store.Each P := by
  obtain ⟨-, m, hall, -, rfl⟩ := leads_firstPass.mp h
  exact hall.each hP fun name a ha => by simp [Store.empty] at ha

end Filling

end Daybook
