import Daybook.Proofs.Account.Beneath
import Daybook.Proofs.Store.FirstPass
import Daybook.Proofs.Store.Kept
import Daybook.Proofs.Timeline

/-!
# Stores beneath a root

`Rooted root s s'` says that the second store is the first one beneath a root that is applied: every
account that it has or refers to is the one of the first, beneath the root. Above them there are the
root and what lies above the root, as soon as there is anything beneath it. Names are read in the
second store as in the first one, beneath the root (`Rooted.accountFor`), and transactions are
balanced as there, but for the account of a posting to the bucket account (`Rooted.balanced`).
-/

namespace Daybook

open AccountName (beneath join path)

def Account.beneath (root : String) (a : Account) : Account :=
  { a with name := AccountName.beneath root a.name }

/-- The posting is not to a placeholder that has a root of its own. -/
def Posting.Unscoped (x : Posting) : Prop := ∀ scope, x.account ≠ .unknown (some scope)

namespace Store

/-- The second table has the accounts of the first one beneath the root, and otherwise only the root
and the accounts above it, once there is anything in the first. -/
structure AccountsBeneath (root : String) (accounts accounts' : NameMap Account) : Prop where
  below : ∀ n, accounts'.find? (beneath root n) = (accounts.find? n).map (Account.beneath root)
  others : ∀ m, (∀ n, beneath root n ≠ m) → accounts'.find? m =
    if accounts.isEmpty = false ∧ m ∈ path root then some (.ofName m) else none

/-- The store with the root applied, and with a table of accounts. -/
def appliedAt (root : String) (accounts : NameMap Account) (s : Store) : Store :=
  { s with
    accounts
    accountAliases := s.accountAliases.map (beneath root)
    payeeAccounts := s.payeeAccounts.map fun rule => (rule.1, beneath root rule.2)
    roots := [root]
    bucket := s.bucket.map (join root)
    transactions := s.transactions.map (·.beneath root) }

/-- The second store is the first one beneath the root. -/
structure Rooted (root : String) (s s' : Store) : Prop where
  unrooted : s.roots = []
  uncaptured : s.captures = []
  applied : ∃ accounts, AccountsBeneath root s.accounts accounts ∧ s' = s.appliedAt root accounts

/-! ## Tables of accounts -/

namespace AccountsBeneath

variable {root : String} {accounts accounts' : NameMap Account}

theorem empty (root : String) : AccountsBeneath root .empty .empty :=
  ⟨fun _ => rfl, fun _ _ => (if_neg fun h => by simp [NameMap.isEmpty, NameMap.empty] at h).symm⟩

theorem insert (h : AccountsBeneath root accounts accounts') (hsome : accounts.isEmpty = false)
    (name : String) (a : Account) : AccountsBeneath root (accounts.insert name a)
      (accounts'.insert (beneath root name) (a.beneath root)) := by
  refine ⟨fun n => ?_, fun m hm => ?_⟩
  · rw [NameMap.find?_insert, NameMap.find?_insert, h.below]
    simp only [(AccountName.beneath_injective root).eq_iff]
    split <;> rfl
  · rw [NameMap.find?_insert_of_ne _ _ (hm name), h.others m hm, hsome, NameMap.isEmpty_insert]

theorem ensureAccount {s s' : Store} (h : AccountsBeneath root s.accounts s'.accounts)
    (name : String) (kind : PostingKind) : AccountsBeneath root (s.ensureAccount name kind).accounts
      (s'.ensureAccount (beneath root name) kind).accounts := by
  refine ⟨fun n => ?_, fun m hm => ?_⟩
  · simp only [find?_ensureAccount, h.below, AccountName.beneath_mem_ancestors_iff,
      (AccountName.beneath_injective root).eq_iff]
    cases s.accounts.find? n with
    | some a => rfl
    | none =>
      simp only [Option.map_none, Option.none_or]
      split
      · rfl
      · split <;> rfl
  · -- Where there is an account, all accounts above it are there too.
    have hthere : (s.ensureAccount name kind).accounts.isEmpty = false := by
      obtain ⟨a, ha⟩ := Option.isSome_iff_exists.mp
        (houses_ensureAccount s name kind name List.mem_cons_self)
      exact NameMap.isEmpty_eq_false_iff.mpr ⟨name, a, ha⟩
    have habove : m ∈ AccountName.ancestors (beneath root name) ↔ m ∈ path root := by
      rw [AccountName.mem_ancestors_beneath]
      exact or_iff_left fun ⟨n, _, heq⟩ => hm n heq
    rw [find?_ensureAccount, h.others m hm, if_neg (hm name), hthere]
    simp only [habove, Option.or_none, true_and]
    by_cases hpath : m ∈ path root
    · cases s.accounts.isEmpty <;> simp [hpath]
    · simp [hpath]

end AccountsBeneath

/-! ## Reading names -/

theorem matched?_map (rules : List (Pattern × String)) (f : String → String) (text : String) :
    matched? (rules.map fun rule => (rule.1, f rule.2)) text = (matched? rules text).map f := by
  rw [matched?, List.find?_map, matched?, Option.map_map, Option.map_map]
  rfl

theorem accountFor_written (s : Store) (t : Transaction) (x : Posting) :
    s.accountFor t x false = s.resolveAccount x t := by
  cases h : x.account <;> simp [accountFor, h]

theorem accountFor_named {s : Store} {t : Transaction} {x : Posting} {name : String}
    (h : x.account = .named name) : s.accountFor t x true = .ok name := by
  simp [accountFor, h]

theorem accountFor_unknown {s : Store} {t : Transaction} {x : Posting} {scope : Option String}
    {toBucket : Bool} (h : x.account = .unknown scope) :
    s.accountFor t x toBucket = s.resolveAccount x t := by
  simp [accountFor, h]

namespace Rooted

variable {root : String} {s s' : Store}

theorem empty (root : String) (options : Options) :
    Rooted root (.empty options) { Store.empty options with roots := [root] } :=
  ⟨rfl, rfl, .empty, .empty root, rfl⟩

theorem table (h : Rooted root s s') : AccountsBeneath root s.accounts s'.accounts := by
  obtain ⟨-, -, accounts, htable, rfl⟩ := h
  exact htable

theorem withAccounts (h : Rooted root s s') {accounts accounts' : NameMap Account}
    (htable : AccountsBeneath root accounts accounts') :
    Rooted root { s with accounts } { s' with accounts := accounts' } := by
  obtain ⟨hroots, hcaptures, _, -, rfl⟩ := h
  exact ⟨hroots, hcaptures, accounts', htable, rfl⟩

theorem ensureAccount (h : Rooted root s s') (name : String) (kind : PostingKind) :
    Rooted root (s.ensureAccount name kind) (s'.ensureAccount (beneath root name) kind) := by
  have htable := h.table.ensureAccount name kind
  rw [ensureAccount_eq s, ensureAccount_eq s']
  exact h.withAccounts htable

theorem withDeclared (h : Rooted root s s') (name : String) (d : AccountDeclaration) :
    Rooted root (s.withDeclared name d) (s'.withDeclared (beneath root name) d) := by
  have htable := h.table.ensureAccount name .real
  obtain ⟨a, ha, hs⟩ := withDeclared_eq s name d
  obtain ⟨a', ha', hs'⟩ := withDeclared_eq s' (beneath root name) d
  have hthere : (s.ensureAccount name .real).accounts.isEmpty = false :=
    NameMap.isEmpty_eq_false_iff.mpr ⟨name, a, ha⟩
  obtain rfl : a.beneath root = a' := by
    rw [htable.below, ha] at ha'
    exact Option.some.inj ha'
  rw [hs, hs']
  exact h.withAccounts (htable.insert hthere name _)

theorem options (h : Rooted root s s') : s'.options = s.options := by
  obtain ⟨-, -, accounts, -, rfl⟩ := h
  rfl

theorem root_eq (h : Rooted root s s') : s.root = "" ∧ s'.root = root := by
  obtain ⟨hroots, -, accounts, -, rfl⟩ := h
  exact ⟨by rw [Store.root, hroots]; rfl, by simp [Store.root, appliedAt, join]⟩

theorem roots_eq (h : Rooted root s s') : s'.roots = [root] := by
  obtain ⟨-, -, accounts, -, rfl⟩ := h
  rfl

theorem noteFirst (h : Rooted root s s') (t : Transaction) :
    Rooted root (s.noteFirst t) (s'.noteFirst t) := by
  obtain ⟨hroots, hcaptures, accounts, htable, rfl⟩ := h
  exact ⟨hroots, hcaptures, accounts, htable, rfl⟩

theorem withPayee (h : Rooted root s s') (t : Transaction) : s'.withPayee t = s.withPayee t := by
  obtain ⟨-, -, accounts, -, rfl⟩ := h
  rfl

theorem isDeclaredAccount (h : Rooted root s s') (name : String) :
    s'.isDeclaredAccount (beneath root name) = s.isDeclaredAccount name := by
  rw [Store.isDeclaredAccount, h.table.below, Store.isDeclaredAccount, Option.any_map]
  rfl

theorem resolveName (h : Rooted root s s') (hroot : root ≠ "") {name : String}
    (hname : s.resolveName name ≠ "") :
    s'.resolveName name = beneath root (s.resolveName name) := by
  obtain ⟨hs, hs'⟩ := h.root_eq
  have hcaptures := h.uncaptured
  obtain ⟨-, -, accounts, -, rfl⟩ := h
  have hcaptures' : (s.appliedAt root accounts).captures = [] := hcaptures
  have haliases : (s.appliedAt root accounts).accountAliases =
      s.accountAliases.map (beneath root) := rfl
  have hrenamings : (s.appliedAt root accounts).renamings = s.renamings := rfl
  simp only [Store.resolveName, hs, hs', hcaptures, hcaptures', haliases, hrenamings, matched?,
    List.find?_nil, Option.map_none, NameMap.find?_map] at hname ⊢
  cases halias : s.accountAliases.find? name with
  | some account => rfl
  | none =>
    simp only [halias, Option.map_none, join, if_true] at hname ⊢
    rw [if_neg hroot, if_neg hname, beneath]

theorem payeeAccount? (h : Rooted root s s') (payee : String) :
    matched? s'.payeeAccounts payee = (matched? s.payeeAccounts payee).map (beneath root) := by
  obtain ⟨-, -, accounts, -, rfl⟩ := h
  exact matched?_map s.payeeAccounts (beneath root) payee

theorem resolveAccount (h : Rooted root s s') (hroot : root ≠ "") {t t' : Transaction}
    (ht : t'.payee = t.payee) {x : Posting} (hx : x.Unscoped) {name : String}
    (hname : s.resolveAccount x t = .ok name) (hne : name ≠ "") :
    s'.resolveAccount x t' = .ok (beneath root name) := by
  have hpayee : x.payee t' = x.payee t := by rw [Posting.payee, ht, Posting.payee]
  rw [Store.resolveAccount] at hname ⊢
  rcases haccount : x.account with written | _ | scope
  · simp only [haccount, Except.ok.injEq] at hname ⊢
    subst hname
    exact h.resolveName hroot hne
  · simp only [haccount, hpayee, h.payeeAccount?] at hname ⊢
    cases hrule : matched? s.payeeAccounts (x.payee t) with
    | none => simp [hrule] at hname
    | some account =>
      obtain rfl : account = name := by simpa [hrule] using hname
      rfl
  · exact absurd haccount (hx scope)

/-- A posting to the bucket account goes to the bucket account beneath the root, also if its name is
that of a placeholder. -/
theorem accountFor_bucket (h : Rooted root s s') {t t' : Transaction}
    (ht : t'.payee = t.payee) {x : Posting} {name : String}
    (hname : s.accountFor t x true = .ok name) :
    s'.accountFor t' (x.beneath root) true = .ok (beneath root name) := by
  have hpayee : (x.beneath root).payee t' = x.payee t := by
    rw [Posting.payee, ht, Posting.payee]
    rfl
  have hbeneath : (x.beneath root).account = x.account.beneath root := rfl
  cases haccount : x.account with
  | named written =>
    rw [haccount] at hbeneath
    rw [accountFor_named haccount] at hname
    obtain rfl := Except.ok.inj hname
    exact accountFor_named hbeneath
  | unknown scope =>
    rw [accountFor_unknown haccount, Store.resolveAccount, haccount] at hname
    have hunknown : ∃ scope', (x.beneath root).account = .unknown scope' ∧
        ∀ account, scope.all (AccountName.isWithin account) = true →
          scope'.all (AccountName.isWithin (beneath root account)) = true := by
      rw [hbeneath, haccount]
      cases scope with
      | none => exact ⟨some root, rfl, fun account _ => AccountName.isWithin_beneath_root ..⟩
      | some scope =>
        refine ⟨some (beneath root scope), rfl, fun account hwithin => ?_⟩
        rwa [Option.all_some, AccountName.isWithin_beneath]
    obtain ⟨scope', haccount', hwithin⟩ := hunknown
    rw [accountFor_unknown haccount', Store.resolveAccount, haccount']
    simp only [hpayee, h.payeeAccount?] at hname ⊢
    cases hrule : matched? s.payeeAccounts (x.payee t) with
    | none => simp [hrule] at hname
    | some account =>
      simp only [hrule] at hname
      split at hname
      case isTrue hscope =>
        obtain rfl := Except.ok.inj hname
        simp [hwithin account hscope]
      case isFalse => cases hname

end Rooted

/-! ## Balancing -/

/-- The second postings are the first ones as written, but for the one to the bucket account, whose
account is beneath the root already. The first posting stands at place `n`. -/
inductive Written (root : String) (place : Option Nat) : Nat → List Posting → List Posting → Prop
  | nil {n} : Written root place n [] []
  | same {n x xs xs'} : place ≠ some n → x.Unscoped → Written root place (n + 1) xs xs' →
    Written root place n (x :: xs) (x :: xs')
  | bucket {n x x' xs xs'} : place = some n → (x.account ≠ .named "" → x' = x.beneath root) →
    Written root place (n + 1) xs xs' → Written root place n (x :: xs) (x' :: xs')

theorem written_self {root : String} {xs : List Posting} (h : ∀ x ∈ xs, x.Unscoped) (n : Nat) :
    Written root none n xs xs := by
  induction xs generalizing n with
  | nil => exact .nil
  | cons x xs ih =>
    exact .same (by simp) (h x (by simp)) (ih (fun y hy => h y (by simp [hy])) (n + 1))

theorem unscoped_completed {t u : Transaction} {bucket : Option String} {unit : Commodity}
    {places : List Nat} (ht : ∀ x ∈ t.postings, x.Unscoped) (hne : t.postings.length ≠ 1)
    (h : t.Completes bucket unit u places) : ∀ x ∈ u.postings, x.Unscoped := by
  cases h with
  | lone hone => exact absurd (by rw [hone]; rfl) hne
  | whole => exact ht
  | @tally before after p sums hparts =>
    have hp : p.Unscoped := ht p (by simp [hparts])
    intro x hx
    simp only [Posting.furtherOffsets, List.append_assoc, List.cons_append, List.mem_append,
      List.mem_cons, List.mem_map] at hx
    rcases hx with hx | rfl | hx | ⟨sum, -, rfl⟩
    · exact ht x (by simp [hparts, hx])
    · exact hp
    · exact ht x (by simp [hparts, hx])
    · exact hp

namespace Rooted

variable {root : String} {s s' : Store}

theorem balanced (h : Rooted root s s') (hroot : root ≠ "") {t u : Transaction}
    {place : Option Nat} (ht : ∀ x ∈ t.postings, x.Unscoped)
    (hbalanced : s.balanced t = .ok (u, place)) :
    ∃ xs, s'.balanced t = .ok ({ u with postings := xs }, place) ∧
      Written root place 0 u.postings xs := by
  obtain ⟨-, -, accounts, -, rfl⟩ := h
  have hunit : (s.appliedAt root accounts).unit = s.unit := rfl
  have hbucket' : (s.appliedAt root accounts).bucket = s.bucket.map (join root) := rfl
  simp only [balanced_eq_ok_iff, hunit, hbucket'] at hbalanced ⊢
  rcases hbalanced with ⟨hasis, rfl, rfl⟩ | ⟨hrequires, hoff, places, hcompletes, rfl⟩
  · exact ⟨u.postings, .inl ⟨hasis, rfl, rfl⟩, written_self ht 0⟩
  · by_cases hone : t.postings.length = 1
    · cases hcompletes with
      | @lone p account cost hpostings hbucket hcost =>
        have hjoined : s.bucket.map (join root) = some (join root account) := by
          rw [hbucket]
          rfl
        refine ⟨_, .inr ⟨hrequires, hoff, _, .lone hpostings hjoined hcost, rfl⟩, ?_⟩
        rw [if_pos hone]
        refine .same (by simp) (ht p (by simp [hpostings])) (.bucket rfl (fun hne => ?_) .nil)
        have haccount : account ≠ "" := by
          rintro rfl
          exact hne rfl
        have hbeneath : AccountRef.ofText (join root account) =
            (AccountRef.ofText account).beneath root := by
          rw [AccountName.join_eq_beneath hroot haccount, AccountRef.ofText_beneath]
        simp only [Posting.ofAmount, Posting.tally, Posting.beneath, hbeneath]
      | @tally before after p sums hparts hne =>
        refine absurd (List.length_eq_zero_iff.mp ?_) hne
        rw [hparts, List.length_append, List.length_cons] at hone
        rw [List.length_append]
        omega
      | whole hlength => omega
    · rw [if_neg hone]
      refine ⟨u.postings, .inr ⟨hrequires, hoff, places, ?_, (if_neg hone).symm⟩,
        written_self (unscoped_completed ht hone hcompletes) 0⟩
      cases hcompletes with
      | lone hpostings => exact absurd (by rw [hpostings]; rfl) hone
      | tally hparts hne hp hrest hsums => exact .tally hparts hne hp hrest hsums
      | whole hlength hall hsums hcount => exact .whole hlength hall hsums hcount

end Rooted

end Store

end Daybook
