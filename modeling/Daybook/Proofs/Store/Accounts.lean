import Daybook.Proofs.Account.Path
import Daybook.Proofs.NameMap
import Daybook.Proofs.Store.Keeping

/-!
# The accounts of a store

Naming an account adds it and the accounts above it, each without postings, where they are not
there (`find?_ensureAccount`). A posting is `housed` if all these accounts are there, and it stays
so: no step of the first pass takes an account away. What is true of a new account, and stays true
when it is declared, is true of all accounts (`Lasting`, `Each`).
-/

namespace Daybook.Store

open AccountName (path)

/-- Whether the account and all accounts above it are there. -/
def Houses (s : Store) (name : String) : Prop :=
  ∀ n ∈ path name, (s.accounts.find? n).isSome = true

/-- Whether all accounts satisfy `P`, which may speak of the names that they are kept under. -/
def Each (s : Store) (P : String → Account → Prop) : Prop :=
  ∀ name a, s.accounts.find? name = some a → P name a

/-- What holds of an account from the moment it is added, and whatever is declared about it. -/
structure Lasting (P : String → Account → Prop) : Prop where
  added : ∀ name isVirtual balanced, P name ((Account.ofName name).withFlags isVirtual balanced)
  declared : ∀ name a d classes, P name a → P name (Filling.declared a d classes)

def Unposted (s : Store) : Prop :=
  ∀ name a, s.accounts.find? name = some a → a.turnover = .empty

/-- Whether no account of the first store is missing in the second one. -/
def Extends (s s' : Store) : Prop :=
  ∀ name, (s.accounts.find? name).isSome = true → (s'.accounts.find? name).isSome = true

theorem Extends.refl (s : Store) : Extends s s := fun _ h => h

theorem Extends.trans {s s' s'' : Store} (h : Extends s s') (h' : Extends s' s'') :
    Extends s s'' :=
  fun name hname => h' name (h name hname)

theorem Houses.mono {s s' : Store} {name : String} (h : s.Houses name) (hext : Extends s s') :
    s'.Houses name :=
  fun n hn => hext n (h n hn)

theorem lasting_unposted : Lasting fun _ a => a.turnover = .empty :=
  ⟨fun _ _ _ => rfl, fun _ _ _ _ h => h⟩

theorem lasting_named : Lasting fun name a => a.name = name :=
  ⟨fun _ _ _ => rfl, fun _ _ _ _ h => h⟩

/-! ## Adding accounts -/

theorem find?_addAccount (accounts : NameMap Account) (a : Account) (name : String) :
    (addAccount accounts a).find? name =
      (accounts.find? name).or (if a.name = name then some a else none) := by
  rw [addAccount]
  by_cases hc : accounts.contains a.name = true
  · rw [if_pos hc]
    by_cases hname : a.name = name
    · subst hname
      obtain ⟨b, hb⟩ := NameMap.contains_iff.mp hc
      rw [hb, Option.some_or]
    · rw [if_neg hname, Option.or_none]
  · rw [if_neg hc, NameMap.find?_insert]
    by_cases hname : a.name = name
    · subst hname
      have hnone : accounts.find? a.name = none := by
        simpa [NameMap.contains] using hc
      rw [hnone, Option.none_or]
    · rw [if_neg hname, if_neg hname, Option.or_none]

theorem find?_foldl_addAccount (accounts : NameMap Account) (above : List String) (name : String) :
    (above.foldl (fun accounts n => addAccount accounts (.ofName n)) accounts).find? name =
      (accounts.find? name).or (if name ∈ above then some (.ofName name) else none) := by
  induction above generalizing accounts with
  | nil => simp
  | cons n above ih =>
    have hname : (Account.ofName n).name = n := rfl
    rw [List.foldl_cons, ih, find?_addAccount, hname]
    by_cases heq : n = name
    · subst heq
      cases accounts.find? n <;> simp
    · have hne : ¬name = n := fun h => heq h.symm
      cases accounts.find? name <;> simp [heq, hne]

/-- What is there after an account has been named. -/
theorem find?_ensureAccount (s : Store) (name other : String) (kind : PostingKind) :
    (s.ensureAccount name kind).accounts.find? other = ((s.accounts.find? other).or
      (if other ∈ AccountName.ancestors name then some (.ofName other) else none)).or
      (if name = other then some ((Account.ofName name).withFlags kind.isVirtual kind.isBalanced)
        else none) := by
  rw [ensureAccount, find?_addAccount, find?_foldl_addAccount]
  rfl

theorem extends_ensureAccount (s : Store) (name : String) (kind : PostingKind) :
    Extends s (s.ensureAccount name kind) := by
  intro other h
  obtain ⟨a, ha⟩ := Option.isSome_iff_exists.mp h
  rw [find?_ensureAccount, ha]
  rfl

theorem houses_ensureAccount (s : Store) (name : String) (kind : PostingKind) :
    (s.ensureAccount name kind).Houses name := by
  intro n hn
  rw [find?_ensureAccount]
  rcases List.mem_cons.mp hn with rfl | hn
  · cases s.accounts.find? n <;> simp
  · cases s.accounts.find? n <;> simp [hn]

theorem Each.ensureAccount {s : Store} {P : String → Account → Prop} (h : s.Each P)
    (hP : Lasting P) (name : String) (kind : PostingKind) : (s.ensureAccount name kind).Each P := by
  intro other a ha
  rw [find?_ensureAccount] at ha
  cases hfind : s.accounts.find? other with
  | some b =>
    rw [hfind] at ha
    obtain rfl : b = a := by simpa using ha
    exact h other b hfind
  | none =>
    rw [hfind, Option.none_or] at ha
    split at ha
    · obtain rfl : Account.ofName other = a := by simpa using ha
      exact hP.added other false true
    · split at ha
      · rename_i heq
        obtain rfl := Option.some.inj ha
        exact heq ▸ hP.added name kind.isVirtual kind.isBalanced
      · simp at ha

theorem Houses.ensureAccount_eq {s : Store} {name : String} (h : s.Houses name)
    (kind : PostingKind) : s.ensureAccount name kind = s := by
  have hthere : ∀ n ∈ path name, s.accounts.contains n = true := h
  have hadd : ∀ a : Account, a.name ∈ path name → addAccount s.accounts a = s.accounts :=
    fun a ha => if_pos (hthere a.name ha)
  have hfold : ∀ above : List String, (∀ n ∈ above, n ∈ path name) →
      above.foldl (fun accounts n => addAccount accounts (.ofName n)) s.accounts =
        s.accounts := by
    intro above habove
    induction above with
    | nil => rfl
    | cons n above ih =>
      rw [List.foldl_cons, hadd (.ofName n) (habove n (by simp))]
      exact ih fun m hm => habove m (by simp [hm])
  rw [ensureAccount, hfold _ fun n hn => List.mem_cons_of_mem _ hn,
    hadd _ (show name ∈ path name from List.mem_cons_self)]

/-! ## Noting what is named -/

theorem accounts_registerAll (s : Store) (cs : List Commodity) :
    (s.registerAll cs).accounts = s.accounts := by
  induction cs generalizing s with
  | nil => rfl
  | cons c cs ih => exact ih (s.register c)

theorem extends_note (s : Store) (x : Posting) : Extends s (s.note x) := by
  rw [Extends, note, accounts_registerAll]
  exact extends_ensureAccount s _ _

theorem Each.note {s : Store} {P : String → Account → Prop} (h : s.Each P) (hP : Lasting P)
    (x : Posting) : (s.note x).Each P := by
  rw [Each, Store.note, accounts_registerAll]
  exact h.ensureAccount hP _ _

theorem houses_note (s : Store) {x : Posting} {name : String} (h : x.account = .named name) :
    (s.note x).Houses name := by
  rw [Houses, note, accounts_registerAll, h]
  exact houses_ensureAccount s name x.kind

theorem extends_foldl_note (s : Store) (xs : List Posting) :
    Extends s (xs.foldl Store.note s) := by
  induction xs generalizing s with
  | nil => exact .refl s
  | cons x xs ih => exact (extends_note s x).trans (ih _)

theorem Each.foldl_note {s : Store} {P : String → Account → Prop} (h : s.Each P) (hP : Lasting P)
    (xs : List Posting) : (xs.foldl Store.note s).Each P := by
  induction xs generalizing s with
  | nil => exact h
  | cons x xs ih => exact ih (h.note hP x)

theorem houses_foldl_note (s : Store) {xs : List Posting} {x : Posting} {name : String}
    (hx : x ∈ xs) (h : x.account = .named name) : (xs.foldl Store.note s).Houses name := by
  induction xs generalizing s with
  | nil => exact absurd hx List.not_mem_nil
  | cons y xs ih =>
    rcases List.mem_cons.mp hx with rfl | hx
    · exact (houses_note s h).mono (extends_foldl_note _ xs)
    · exact ih _ hx

end Daybook.Store
