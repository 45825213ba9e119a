import Daybook.Proofs.Commodity.Parts
import Daybook.Proofs.Store.Refusals
import Daybook.Proofs.Store.Success
import Daybook.Report.Balance
import Mathlib.Data.List.Dedup

/-!
# The grand total

The grand total takes in the shown accounts above which none is shown. Each posting that counts on a
shown account counts on exactly one of these (`perm_flatMap_countsOn_summed`), so the total is what
the postings have together that count on shown accounts. Left out is what has been posted to
accounts none of which is shown, because all their balances are zero: such amounts cancel out on
every single account, but not always altogether (`secondPass_grandTotal`).
-/

namespace Daybook

open AccountName (path isWithin)
open Commodity (named sumOf valueOf Agree ExactRange)
open Reporting (Secures)
open Result (Ensures)

namespace Report

def summed (shown : List Account) : List Account := shown.filter fun a => !isNested shown a

def grandTotal (shown : List Account) : Except AmountError GrandTotal :=
  (summed shown).foldlM (fun g a => g.add a.turnover) .empty

/-! ## Writing the report -/

theorem run_forM_writeLine {α : Type} (text : α → String) (rows : List α) (lines : List String) :
    (rows.forM fun r => writeLine (text r)).run.run lines =
      (.ok (), (rows.map text).reverse ++ lines) := by
  induction rows generalizing lines with
  | nil => rfl
  | cons r rows ih =>
    have hrest := ih (text r :: lines)
    rw [List.map_cons, List.reverse_cons, List.append_assoc, List.singleton_append, ← hrest]
    rfl

/-- Writing accounts only adds lines. It fails where adding them up does. -/
theorem secures_writeAccounts {G : GrandTotal → Prop} {B : AmountError → Prop} (s : Store)
    {shown accounts : List Account} {g : GrandTotal} (lines : List String)
    (h : Ensures G B ((accounts.filter fun a => !isNested shown a).foldlM
      (fun g a => g.add a.turnover) g)) :
    Secures (lines <:+ ·) (writeAccounts s shown g accounts) (fun g ls => G g ∧ lines <:+ ls)
      (fun e => ∃ x, e = failure x ∧ B x) := by
  induction accounts generalizing g with
  | nil => exact Reporting.secures_pure fun _ hlines => ⟨h, hlines⟩
  | cons a rest ih =>
    have hrows : Secures (lines <:+ ·) ((balanceRows s.options a).forM fun r => writeLine (r.text s))
        (fun _ ls => lines <:+ ls) (fun e => ∃ x, e = failure x ∧ B x) := by
      intro ls hls
      rw [run_forM_writeLine]
      exact hls.trans (List.suffix_append _ _)
    rw [writeAccounts]
    by_cases hnested : isNested shown a = true
    · rw [List.filter_cons_of_neg (by simp [hnested])] at h
      simp only [hnested, if_true, pure_bind]
      exact hrows.bind fun _ => ih h
    · rw [List.filter_cons_of_pos (by simp [hnested]), List.foldlM_cons] at h
      simp only [hnested, Bool.false_eq_true, if_false]
      cases hadd : g.add a.turnover with
      | error x =>
        rw [hadd] at h
        have hfails : Secures (lines <:+ ·) (throw (failure x) : Reporting (List String) GrandTotal)
            (fun _ _ => False) (fun e => ∃ x, e = failure x ∧ B x) :=
          Reporting.secures_throw ⟨x, rfl, h⟩
        exact hfails.bind fun _ _ hnever => hnever.elim
      | ok g' =>
        rw [hadd] at h
        simp only [pure_bind]
        exact hrows.bind fun _ => ih h

/-- The lines below those of the accounts: a rule, and what the grand total consists of. The last
line comes first. -/
def totalLines (s : Store) (g : GrandTotal) : List String :=
  ((totalRows g).map (BalanceRow.text s)).reverse ++ [rule s.options]

/-- The report ends with the grand total, and fails where there is none. -/
theorem secures_balance {G : GrandTotal → Prop} {B : AmountError → Prop} {selection : Selection}
    {s : Store} (lines : List String) (h : Ensures G B (grandTotal (shownAccounts selection s))) :
    Secures (lines <:+ ·) ((balance selection).rendered s)
      (fun _ ls => ∃ g above, G g ∧ lines <:+ above ∧ ls = totalLines s g ++ above)
      (fun e => ∃ x, e = failure x ∧ B x) := by
  refine (secures_writeAccounts s lines h).bind fun g => ?_
  intro above habove
  have hrule : (writeLine (rule s.options)).run.run above = (.ok (), rule s.options :: above) := rfl
  rw [Reporting.run_bind, hrule]
  dsimp only
  rw [run_forM_writeLine]
  exact ⟨g, above, habove.1, habove.2, by rw [totalLines, List.append_assoc]; rfl⟩

/-! ## What is added up -/

namespace GrandTotal

/-- Adding up accounts adds up their balances, their debits and their credits. -/
theorem foldlM_add {l : List Account} {g g' : GrandTotal}
    (hbalances : g.balances.addAll (l.flatMap (·.turnover.balances.values)) = .ok g'.balances)
    (hdebits : g.debits.addAll (l.flatMap (·.turnover.debits.values)) = .ok g'.debits)
    (hcredits : g.credits.addAll (l.flatMap (·.turnover.credits.values)) = .ok g'.credits) :
    l.foldlM (fun g a => g.add a.turnover) g = .ok g' := by
  induction l generalizing g with
  | nil =>
    have h₁ := Except.ok.inj hbalances
    have h₂ := Except.ok.inj hdebits
    have h₃ := Except.ok.inj hcredits
    exact congrArg Except.ok (show g = g' by cases g; cases g'; simp_all)
  | cons a l ih =>
    rw [List.flatMap_cons, Totals.addAll_append, Result.bind_eq_ok_iff] at hbalances hdebits hcredits
    obtain ⟨balances, hbalances, hbalances'⟩ := hbalances
    obtain ⟨debits, hdebits, hdebits'⟩ := hdebits
    obtain ⟨credits, hcredits, hcredits'⟩ := hcredits
    have hadd : g.add a.turnover = .ok ⟨balances, debits, credits⟩ := by
      rw [add, hbalances, hdebits, hcredits]
      rfl
    rw [List.foldlM_cons, hadd]
    exact ih (g := ⟨balances, debits, credits⟩) hbalances' hdebits' hcredits'

theorem sums_of_foldlM_add {l : List Account} {g g' : GrandTotal}
    (h : l.foldlM (fun g a => g.add a.turnover) g = .ok g') :
    g.balances.addAll (l.flatMap (·.turnover.balances.values)) = .ok g'.balances ∧
      g.debits.addAll (l.flatMap (·.turnover.debits.values)) = .ok g'.debits ∧
      g.credits.addAll (l.flatMap (·.turnover.credits.values)) = .ok g'.credits := by
  induction l generalizing g with
  | nil =>
    obtain rfl := Except.ok.inj h
    exact ⟨rfl, rfl, rfl⟩
  | cons a l ih =>
    rw [List.foldlM_cons, Result.bind_eq_ok_iff] at h
    obtain ⟨m, hm, h⟩ := h
    simp only [add, Result.bind_eq_ok_iff, Result.pure_eq_ok_iff] at hm
    obtain ⟨balances, hbalances, debits, hdebits, credits, hcredits, rfl⟩ := hm
    obtain ⟨hbalances', hdebits', hcredits'⟩ := ih h
    simp only [List.flatMap_cons, Totals.addAll_append, hbalances, hdebits, hcredits]
    exact ⟨hbalances', hdebits', hcredits'⟩

/-- The sums by name of what accounts hold, which have each been given a part of some amounts. -/
theorem exists_of_parts {l : List Account} {part : Account → List Commodity}
    (hposted : ∀ a ∈ l, (part a).foldlM Turnover.post .empty = .ok a.turnover)
    (hagree : Agree (l.flatMap part)) (hexact : ∀ n, ExactRange (named n (l.flatMap part))) :
    ∃ g : GrandTotal, l.foldlM (fun (g : GrandTotal) a => g.add a.turnover) .empty = .ok g ∧
      ∀ n, valueOf (g.balances.find? n) = sumOf (named n (l.flatMap part)) := by
  have hsums := fun a ha => Turnover.sums_of_foldlM_post (hposted a ha)
  have hdebitsOf : l.flatMap (fun a => Commodity.debits (part a)) =
      Commodity.debits (l.flatMap part) := List.filter_flatMap.symm
  have hcreditsOf : l.flatMap (fun a => (Commodity.credits (part a)).map Commodity.invert) =
      (Commodity.credits (l.flatMap part)).map Commodity.invert := by
    rw [Commodity.credits, List.filter_flatMap, List.map_flatMap]
    rfl
  obtain ⟨balances, hbalances, hvalue⟩ :=
    Turnover.exists_sums?_of_parts (fun a ha => (hsums a ha).1) hagree hexact
  obtain ⟨debits, hdebits, -⟩ := Turnover.exists_sums?_of_parts (fun a ha => (hsums a ha).2.1)
    (hdebitsOf ▸ hagree.sublist List.filter_sublist) fun n => by
      rw [hdebitsOf, Commodity.debits, Commodity.named_filter]
      exact (hexact n).sublist List.filter_sublist
  obtain ⟨credits, hcredits, -⟩ := Turnover.exists_sums?_of_parts (fun a ha => (hsums a ha).2.2)
    (by
      rw [hcreditsOf]
      intro c hc d hd hname
      obtain ⟨x, hx, rfl⟩ := List.mem_map.mp hc
      obtain ⟨y, hy, rfl⟩ := List.mem_map.mp hd
      exact hagree x (List.mem_filter.mp hx).1 y (List.mem_filter.mp hy).1 hname) fun n => by
      rw [hcreditsOf, Commodity.named_map Commodity.name_invert, Commodity.credits,
        Commodity.named_filter]
      exact ((hexact n).sublist List.filter_sublist).map_invert
  have hall : ∀ {cs : List Commodity} {sums : NameMap Commodity},
      Turnover.sums? cs = .ok sums → Totals.empty.addAll cs = .ok ⟨sums⟩ :=
    Totals.addAll_empty_eq_ok_iff.mpr
  exact ⟨⟨⟨balances⟩, ⟨debits⟩, ⟨credits⟩⟩,
    foldlM_add (hall hbalances) (hall hdebits) (hall hcredits), hvalue⟩

end GrandTotal

/-! ## Which accounts are added up -/

theorem any_isWithin_summed (shown : List Account) (name : String) :
    (summed shown).any (fun a => isWithin name a.name) =
      shown.any fun a => isWithin name a.name := by
  rw [Bool.eq_iff_iff, List.any_eq_true, List.any_eq_true]
  constructor
  · rintro ⟨a, ha, hwithin⟩
    exact ⟨a, (List.mem_filter.mp ha).1, hwithin⟩
  · rintro ⟨a, ha, hwithin⟩
    obtain ⟨_, hb, hab, htop⟩ := AccountName.exists_topmost (List.mem_map_of_mem ha)
    obtain ⟨b, hshown, rfl⟩ := List.mem_map.mp hb
    refine ⟨b, List.mem_filter.mpr ⟨hshown, ?_⟩, AccountName.isWithin_trans hwithin hab⟩
    rw [Bool.not_eq_true', isNested, List.any_eq_false]
    intro c hc hnested
    simp only [Bool.and_eq_true, decide_eq_true_eq] at hnested
    exact hnested.1 (htop c.name (List.mem_map_of_mem hc) hnested.2)

theorem pairwise_summed {shown : List Account} (hnodup : (shown.map (·.name)).Nodup) :
    (summed shown).Pairwise fun a b => ∀ name, isWithin name a.name = true →
      isWithin name b.name = false := by
  have hnames : (summed shown).Pairwise fun a b => a.name ≠ b.name :=
    (List.pairwise_map.mp hnodup).sublist List.filter_sublist
  refine hnames.imp_of_mem fun {a b} ha hb hne name hwithin => ?_
  obtain ⟨hmemA, hnestedA⟩ := List.mem_filter.mp ha
  obtain ⟨hmemB, hnestedB⟩ := List.mem_filter.mp hb
  simp only [Bool.not_eq_true', isNested, List.any_eq_false, Bool.and_eq_true, decide_eq_true_eq,
    not_and] at hnestedA hnestedB
  by_contra hboth
  rw [Bool.not_eq_false] at hboth
  rcases AccountName.isWithin_or_isWithin hwithin hboth with hab | hba
  · exact hnestedA b hmemB hne.symm hab
  · exact hnestedB a hmemA hne hba

theorem perm_flatMap_countsOn_summed {shown : List Account}
    (hnodup : (shown.map (·.name)).Nodup) (entries : List (String × Commodity)) :
    ((summed shown).flatMap fun a => countsOn a.name entries).Perm
      ((entries.filter fun e => shown.any fun a => isWithin e.1 a.name).map (·.2)) := by
  have hapart : (summed shown).Pairwise fun a b => ∀ e ∈ entries, isWithin e.1 a.name = true →
      isWithin e.1 b.name = false := by
    refine (pairwise_summed hnodup).imp ?_
    intro a b hab e _
    exact hab e.1
  have hparts := perm_flatMap_filter hapart
  simp only [any_isWithin_summed] at hparts
  have hmap := hparts.map (·.2)
  rwa [List.map_flatMap] at hmap

end Report

namespace Store

/-- Nothing that the name lies within has a balance other than zero. -/
def Hides (s : Store) (name : String) : Prop :=
  ∀ root ∈ path name, ∀ c ∈ (s.turnover root).balances.values, c.isZero = true

instance (s : Store) (name : String) : Decidable (s.Hides name) :=
  inferInstanceAs (Decidable (∀ root ∈ path name, ∀ c ∈ (s.turnover root).balances.values,
    c.isZero = true))

/-- The accounts hold the entries, each what counts on it. -/
def Holding (s : Store) (entries : List (String × Commodity)) : Prop :=
  ∀ name a, s.accounts.find? name = some a → a.name = name ∧
    (countsOn name entries).foldlM Turnover.post .empty = .ok a.turnover

variable {s : Store} {entries : List (String × Commodity)}

theorem Posts.holding {s s' : Store} (hnamed : s.Each fun name a => a.name = name)
    (hunposted : s.Unposted) (h : Posts s (fun n => countsOn n entries) s') :
    s'.Holding entries := by
  intro name a ha
  cases hfind : s.accounts.find? name with
  | none =>
    rw [h.missing name hfind] at ha
    cases ha
  | some b =>
    obtain ⟨t, ht, hfind'⟩ := h.posted name b hfind
    obtain rfl := Option.some.inj (hfind'.symm.trans ha)
    exact ⟨hnamed name b hfind, hunposted name b hfind ▸ ht⟩

theorem Holding.turnover_eq (h : s.Holding entries) {a : Account} (ha : a ∈ s.accounts.values) :
    s.turnover a.name = a.turnover := by
  obtain ⟨name, hname⟩ := NameMap.mem_values_iff.mp ha
  obtain ⟨rfl, -⟩ := h name a hname
  rw [turnover, hname]
  rfl

/-- The balances of an account on which the amounts of a name cancel out are zero, and
conversely. -/
theorem Holding.sumOf_eq_zero (h : s.Holding entries) {name : String} (hthere : s.Houses name)
    (hzero : ∀ c ∈ (s.turnover name).balances.values, c.isZero = true) {n : String}
    (hexact : ExactRange (named n (countsOn name entries))) :
    sumOf (named n (countsOn name entries)) = 0 := by
  obtain ⟨a, ha⟩ := Option.isSome_iff_exists.mp (hthere name List.mem_cons_self)
  obtain ⟨-, hposted⟩ := h name a ha
  have hturnover : s.turnover name = a.turnover := by
    rw [turnover, ha]
    rfl
  have htotal := Turnover.find?_of_sums? (Turnover.sums_of_foldlM_post hposted).1 n
  rw [← Commodity.valueOf_of_total? htotal hexact.exactSums]
  cases hfind : a.turnover.balances.find? n with
  | none => rfl
  | some c =>
    rw [hturnover] at hzero
    exact (Decimal.value_eq_zero_iff c.amount).mpr (hzero c (NameMap.mem_values_iff.mpr ⟨n, hfind⟩))

theorem Holding.any_shown_iff (h : s.Holding entries) (hsubtotal : s.options.noSubtotal = false)
    (name : String) :
    (Report.shownAccounts none s).any (fun a => isWithin name a.name) = true ↔ ¬s.Hides name := by
  simp only [List.any_eq_true, Hides, not_forall, exists_prop]
  constructor
  · rintro ⟨a, ha, hwithin⟩
    obtain ⟨hmem, hshown⟩ := List.mem_filter.mp ha
    simp only [Bool.and_eq_true, List.any_eq_true] at hshown
    obtain ⟨⟨-, c, hc, hnonzero⟩, -⟩ := hshown
    exact ⟨a.name, AccountName.mem_path_iff.mpr hwithin, c, h.turnover_eq hmem ▸ hc,
      by simpa using hnonzero⟩
  · rintro ⟨root, hroot, c, hc, hnonzero⟩
    cases hfind : s.accounts.find? root with
    | none =>
      rw [turnover, hfind] at hc
      exact absurd hc List.not_mem_nil
    | some a =>
      have hmem : a ∈ s.accounts.values := NameMap.mem_values_iff.mpr ⟨root, hfind⟩
      obtain ⟨rfl, -⟩ := h root a hfind
      rw [h.turnover_eq hmem] at hc
      refine ⟨a, List.mem_filter.mpr ⟨hmem, ?_⟩, AccountName.mem_path_iff.mp hroot⟩
      simp only [Bool.and_eq_true, List.any_eq_true]
      exact ⟨⟨rfl, c, hc, by simpa using hnonzero⟩, by simp [hsubtotal]⟩

theorem Holding.nodup_shown (h : s.Holding entries) (selection : Selection) :
    ((Report.shownAccounts selection s).map (·.name)).Nodup := by
  have hnames : s.accounts.values.map (·.name) = s.accounts.names :=
    NameMap.map_values_eq_names fun name a ha => (h name a ha).1
  exact (hnames ▸ NameMap.nodup_names s.accounts).sublist (List.filter_sublist.map _)

theorem Holding.posted_of_summed (h : s.Holding entries) {selection : Selection} {a : Account}
    (ha : a ∈ Report.summed (Report.shownAccounts selection s)) :
    (countsOn a.name entries).foldlM Turnover.post .empty = .ok a.turnover := by
  have hmem : a ∈ s.accounts.values := (List.mem_filter.mp (List.mem_filter.mp ha).1).1
  obtain ⟨name, hname⟩ := NameMap.mem_values_iff.mp hmem
  obtain ⟨rfl, hfold⟩ := h name a hname
  exact hfold

def hiddenAmounts (s : Store) (entries : List (String × Commodity)) : List Commodity :=
  (entries.filter fun e => s.Hides e.1).map (·.2)

theorem sumOf_hidden_add (s : Store) (entries : List (String × Commodity)) (n : String) :
    sumOf (named n (s.hiddenAmounts entries)) +
      sumOf (named n ((entries.filter fun e => !decide (s.Hides e.1)).map (·.2))) =
        sumOf (named n (entries.map (·.2))) := by
  have hperm := (List.filter_append_perm (fun e => decide (s.Hides e.1)) entries).map (·.2)
  rw [List.map_append] at hperm
  have hnamed := Commodity.sumOf_perm (Commodity.named_perm hperm n)
  rwa [Commodity.named_append, Commodity.sumOf_append] at hnamed

/-- The grand total lacks what has been posted to hidden accounts. -/
theorem Holding.exists_grandTotal (h : s.Holding entries)
    (hsubtotal : s.options.noSubtotal = false) (hagree : Agree (entries.map (·.2)))
    (hexact : ∀ n, ExactRange (named n (entries.map (·.2)))) :
    ∃ g : Report.GrandTotal, Report.grandTotal (Report.shownAccounts none s) = .ok g ∧
      ∀ n, valueOf (g.balances.find? n) =
        sumOf (named n (entries.map (·.2))) - sumOf (named n (s.hiddenAmounts entries)) := by
  have hshown : (fun e : String × Commodity =>
      (Report.shownAccounts none s).any fun a => isWithin e.1 a.name) =
        fun e => !decide (s.Hides e.1) := by
    funext e
    rw [Bool.eq_iff_iff, h.any_shown_iff hsubtotal, Bool.not_eq_true', decide_eq_false_iff_not]
  have hperm := Report.perm_flatMap_countsOn_summed (h.nodup_shown none) entries
  rw [hshown] at hperm
  have hsub : ((entries.filter fun e => !decide (s.Hides e.1)).map (·.2)).Sublist
      (entries.map (·.2)) := List.filter_sublist.map _
  obtain ⟨g, hg, hvalue⟩ := Report.GrandTotal.exists_of_parts
    (fun a ha => h.posted_of_summed ha)
    ((hagree.sublist hsub).perm hperm)
    fun n => ((hexact n).sublist (hsub.filter _)).perm (Commodity.named_perm hperm n)
  refine ⟨g, hg, fun n => ?_⟩
  have hsplit := sumOf_hidden_add s entries n
  rw [hvalue, Commodity.sumOf_perm (Commodity.named_perm hperm n)]
  omega

def hiddenNames (s : Store) (entries : List (String × Commodity)) : List String :=
  ((entries.filter fun e => s.Hides e.1).map (·.1)).dedup

theorem mem_hiddenNames {x : String} :
    x ∈ s.hiddenNames entries ↔ (∃ e ∈ entries, e.1 = x) ∧ s.Hides x := by
  rw [hiddenNames, List.mem_dedup, List.mem_map]
  constructor
  · rintro ⟨e, he, rfl⟩
    obtain ⟨hmem, hhides⟩ := List.mem_filter.mp he
    exact ⟨⟨e, hmem, rfl⟩, of_decide_eq_true hhides⟩
  · rintro ⟨⟨e, he, rfl⟩, hhides⟩
    exact ⟨e, List.mem_filter.mpr ⟨he, decide_eq_true hhides⟩, rfl⟩

/-- Where no account is posted to that lies above another such account, the hidden amounts are those
that count on the single hidden accounts. -/
theorem perm_flatMap_hiddenNames
    (hleaves : ∀ e ∈ entries, ∀ e' ∈ entries, isWithin e'.1 e.1 = true → e'.1 = e.1) :
    ((s.hiddenNames entries).flatMap fun x => countsOn x entries).Perm
      (s.hiddenAmounts entries) := by
  have hsame : ∀ x ∈ s.hiddenNames entries, ∀ e ∈ entries, isWithin e.1 x = true → e.1 = x := by
    intro x hx e he hwithin
    obtain ⟨⟨d, hd, rfl⟩, -⟩ := mem_hiddenNames.mp hx
    exact hleaves d hd e he hwithin
  have hapart : (s.hiddenNames entries).Pairwise fun x y => ∀ e ∈ entries,
      isWithin e.1 x = true → isWithin e.1 y = false := by
    refine (List.nodup_dedup _).imp_of_mem fun {x y} hx hy hne e he hwithin => ?_
    by_contra hboth
    rw [Bool.not_eq_false] at hboth
    exact hne ((hsame x hx e he hwithin).symm.trans (hsame y hy e he hboth))
  have hchosen : (entries.filter fun e => (s.hiddenNames entries).any fun x => isWithin e.1 x) =
      entries.filter fun e => s.Hides e.1 := by
    refine List.filter_congr fun e he => ?_
    rw [Bool.eq_iff_iff, List.any_eq_true, decide_eq_true_eq]
    constructor
    · rintro ⟨x, hx, hwithin⟩
      rw [hsame x hx e he hwithin]
      exact (mem_hiddenNames.mp hx).2
    · intro hhides
      exact ⟨e.1, mem_hiddenNames.mpr ⟨⟨e, he, rfl⟩, hhides⟩, AccountName.isWithin_refl e.1⟩
  have hperm := (perm_flatMap_filter hapart).map (·.2)
  rwa [hchosen, List.map_flatMap] at hperm

theorem Holding.hidden_eq_zero (h : s.Holding entries) (hhoused : ∀ e ∈ entries, s.Houses e.1)
    (hexact : ∀ n, ExactRange (named n (entries.map (·.2))))
    (hleaves : ∀ e ∈ entries, ∀ e' ∈ entries, isWithin e'.1 e.1 = true → e'.1 = e.1) (n : String) :
    sumOf (named n (s.hiddenAmounts entries)) = 0 := by
  rw [← Commodity.sumOf_perm (Commodity.named_perm (perm_flatMap_hiddenNames hleaves) n)]
  refine Commodity.sumOf_named_flatMap_eq_zero fun x hx => ?_
  obtain ⟨⟨e, he, rfl⟩, hhides⟩ := mem_hiddenNames.mp hx
  refine h.sumOf_eq_zero (hhoused e he) (hhides e.1 List.mem_cons_self) ?_
  exact (hexact n).sublist ((List.filter_sublist.map _).filter _)

end Store

namespace Filling

variable {σ τ : Type} {r₁ : Reporter σ} {r : Reporter τ} {ds : List (Spanned Directive)}
  {options : Options} {state : σ} {state' : τ} {p : Progress σ} {q : Progress τ}

theorem covered_houses
    (hfirst : runOn (firstPass r₁ ds) (.empty options) state = (.ok (), p)) :
    ∀ e ∈ p.store.covered, p.store.Houses e.1 := by
  have horderly := orderly_of_firstPass hfirst
  intro e he
  rw [Store.covered, ← Store.selected_eq horderly] at he
  exact Store.houses_of_mem_selected horderly he

/-- After a second pass the accounts hold what it covers, under the same options. -/
theorem holding_of_secondPass
    (hfirst : runOn (firstPass r₁ ds) (.empty options) state = (.ok (), p))
    (hsecond : runOn (secondPass r) p.store state' = (.ok (), q)) :
    q.store.Holding p.store.covered ∧ (∀ e ∈ p.store.covered, q.store.Houses e.1) ∧
      q.store.options = options := by
  have horderly := orderly_of_firstPass hfirst
  have hrun : Leads (secondPass r) ⟨p.store, [], state'⟩ () q := hsecond
  have hposts := posts_secondPass hrun horderly
  rw [Store.selected_eq horderly] at hposts
  have hnamed : p.store.Each fun name a => a.name = name :=
    each_of_firstPass Store.lasting_named hfirst
  refine ⟨?_, fun e he => hposts.houses (covered_houses hfirst e he), ?_⟩
  · exact Store.Posts.holding (s := { p.store with stage := .posted }) hnamed horderly.unposted
      hposts
  · have hoptions : p.store.options = options := options_of_firstPass hfirst
    rw [hposts.rest]
    exact hoptions

/-- The grand total without a filter and with subtotals is, for each name, what has been posted,
except to accounts none of which has a balance: of these nothing is shown, and nothing is counted.
Their amounts cancel out on every single account, so the total is that of all postings where no
account is posted to that lies above another one that is posted to. -/
theorem secondPass_grandTotal
    (hfirst : runOn (firstPass r₁ ds) (.empty options) state = (.ok (), p))
    (hsecond : runOn (secondPass r) p.store state' = (.ok (), q))
    (hsubtotal : options.noSubtotal = false)
    (hagree : Agree (p.store.covered.map (·.2)))
    (hexact : ∀ n, ExactRange (named n (p.store.covered.map (·.2)))) :
    ∃ g : Report.GrandTotal,
      (∃ above, ((Report.balance none).rendered q.store).run.run [] =
        (.ok (), Report.totalLines q.store g ++ above)) ∧
      (∀ n, valueOf (g.balances.find? n) = sumOf (named n (p.store.covered.map (·.2))) -
        sumOf (named n (q.store.hiddenAmounts p.store.covered))) ∧
      ((∀ e ∈ p.store.covered, ∀ e' ∈ p.store.covered, isWithin e'.1 e.1 = true → e'.1 = e.1) →
        ∀ n, valueOf (g.balances.find? n) = sumOf (named n (p.store.covered.map (·.2)))) := by
  obtain ⟨hholding, hhoused, rfl⟩ := holding_of_secondPass hfirst hsecond
  obtain ⟨g, hg, hvalue⟩ := hholding.exists_grandTotal hsubtotal hagree hexact
  have hresult : Ensures (· = g) (fun _ => False)
      (Report.grandTotal (Report.shownAccounts none q.store)) := by
    rw [hg]
    rfl
  have hreport := Report.secures_balance [] hresult
  have hsafe := hreport.mono (F := fun _ => False) (fun _ h => h) (fun _ _ h => h)
    fun e he => he.elim fun _ hx => hx.2
  obtain ⟨u, lines, hrun, g', above, rfl, -, hlines⟩ := hsafe.eq_ok List.suffix_rfl
  refine ⟨g', ⟨above, by rw [hrun, hlines]⟩, hvalue, fun hleaves n => ?_⟩
  rw [hvalue, hholding.hidden_eq_zero hhoused hexact hleaves n, sub_zero]

theorem five_lt_mantissaLimit : 5 < Decimal.mantissaLimit := by decide

def fiveDollars : Commodity := .plain "USD" ⟨false, 5, 0, five_lt_mantissaLimit, Nat.zero_le _⟩

/-- Two postings that cancel out on the upper one of their accounts, of which only the lower one is
shown. -/
def nestedPostings : List (Spanned Directive) :=
  single [.ofAmount "A" fiveDollars, .ofAmount "A:B" fiveDollars.invert]

/-- All postings together are nothing, but the grand total is minus five dollars. -/
theorem grandTotal_nestedPostings :
    let first := runOn (firstPass (.silent Unit) nestedPostings) (.empty .default) ()
    let second := runOn (secondPass (.silent Unit)) first.2.store ()
    let amounts := first.2.store.covered.map (·.2)
    first.1.isOk = true ∧ second.1.isOk = true ∧ ExactRange amounts ∧
      (∀ c ∈ amounts, c.name = "USD" ∧ c.currency = false) ∧ sumOf (named "USD" amounts) = 0 ∧
      (Report.grandTotal (Report.shownAccounts none second.2.store)).toOption.map
        (fun g => g.balances.nonzero.map (·.text)) = some ["-5 USD"] ∧
      (((Report.balance none).rendered second.2.store).run.run []).2.reverse =
        ["          -5 USD  A:B", "----------------", "          -5 USD"] := by
  decide +kernel

/-- What is missing from the total is the five dollars on the hidden account. -/
theorem secondPass_grandTotal_nested :
    let p := (runOn (firstPass (.silent Unit) nestedPostings) (.empty .default) ()).2
    let q := (runOn (secondPass (.silent Unit)) p.store ()).2
    sumOf (named "USD" (q.store.hiddenAmounts p.store.covered)) ≠ 0 ∧
      ∃ g : Report.GrandTotal,
        (∃ above, ((Report.balance none).rendered q.store).run.run [] =
          (.ok (), Report.totalLines q.store g ++ above)) ∧
        valueOf (g.balances.find? "USD") = sumOf (named "USD" (p.store.covered.map (·.2))) -
          sumOf (named "USD" (q.store.hiddenAmounts p.store.covered)) := by
  intro p q
  have hfirst : runOn (firstPass (.silent Unit) nestedPostings) (.empty .default) () =
      (.ok (), p) := runOn_eq_ok (by decide +kernel)
  have hsecond : runOn (secondPass (.silent Unit)) p.store () = (.ok (), q) :=
    runOn_eq_ok (by decide +kernel)
  have hwritten : ∀ c ∈ p.store.covered.map (·.2), c.currency = false := by decide +kernel
  have hagree : Agree (p.store.covered.map (·.2)) := by
    intro a ha b hb _
    rw [hwritten a ha, hwritten b hb]
  have hall : ExactRange (p.store.covered.map (·.2)) := by decide +kernel
  obtain ⟨g, hlines, hvalue, -⟩ := secondPass_grandTotal hfirst hsecond rfl hagree
    fun n => hall.sublist List.filter_sublist
  exact ⟨by decide +kernel, g, hlines, hvalue "USD"⟩

end Filling

end Daybook
