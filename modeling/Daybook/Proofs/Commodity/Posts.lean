import Daybook.Proofs.Commodity.ByName
import Daybook.Proofs.Result

/-!
# Turnovers of posted amounts

Posting amounts in order keeps three sums by name: of all amounts, of those that are not below zero,
and of the opposites of those that are (`sums_of_foldlM_post`). In the exact range each is what
its amounts have together (`totals_of_foldlM_post`).
-/

namespace Daybook

open Commodity (named sumOf valueOf total? ExactRange)

namespace Commodity

def debits (cs : List Commodity) : List Commodity := cs.filter (0 ≤ ·.value)

def credits (cs : List Commodity) : List Commodity := cs.filter (·.value < 0)

theorem isNegative_iff (c : Commodity) : c.isNegative = true ↔ c.value < 0 :=
  Decimal.isBelowZero_iff c.amount

theorem sumOf_map_invert (cs : List Commodity) : sumOf (cs.map invert) = -sumOf cs := by
  induction cs with
  | nil => rfl
  | cons c cs ih =>
    rw [List.map_cons, sumOf_cons, sumOf_cons, ih, value_invert]
    ring

theorem ExactRange.map_invert {cs : List Commodity} (h : ExactRange cs) :
    ExactRange (cs.map invert) := by
  obtain ⟨s, hs, hdvd, hlt⟩ := h
  refine ⟨s, hs, fun c hc => ?_, ?_⟩
  · obtain ⟨d, hd, rfl⟩ := List.mem_map.mp hc
    rw [value_invert]
    exact (dvd_neg).mpr (hdvd d hd)
  · have hnat : (cs.map invert).map (·.value.natAbs) = cs.map (·.value.natAbs) := by
      simp [Int.natAbs_neg]
    rwa [hnat]

theorem named_filter (n : String) (p : Commodity → Bool) (cs : List Commodity) :
    named n (cs.filter p) = (named n cs).filter p := by
  rw [named, named, List.filter_filter, List.filter_filter]
  exact List.filter_congr fun c _ => Bool.and_comm _ _

end Commodity

namespace Turnover

/-- Whether a sum is kept under the name exactly if there is something to sum up, and it is the
given one. -/
def Keeps (sums : NameMap Commodity) (n : String) (present : Prop) (sum : Int) : Prop :=
  ((sums.find? n).isSome = true ↔ present) ∧
    ∀ c, sums.find? n = some c → c.name = n ∧ c.value = sum

theorem keeps_of_sums? {cs : List Commodity} {sums : NameMap Commodity} (h : sums? cs = .ok sums)
    {n : String} (hexact : ExactRange (named n cs)) :
    Keeps sums n (named n cs ≠ []) (sumOf (named n cs)) := by
  refine ⟨isSome_find?_of_sums? h n, fun c hc => ⟨keyed_of_sums? h n c hc, ?_⟩⟩
  have hvalue := Commodity.valueOf_of_total? (find?_of_sums? h n) hexact.exactSums
  rwa [hc] at hvalue

/-! ## Three sums -/

theorem post_eq_ok_iff {t t' : Turnover} {c : Commodity} :
    t.post c = .ok t' ↔ accumulate t.balances c = .ok t'.balances ∧
      if c.isNegative then t'.debits = t.debits ∧ accumulate t.credits c.invert = .ok t'.credits
      else accumulate t.debits c = .ok t'.debits ∧ t'.credits = t.credits := by
  rw [post_eq, Result.bind_eq_ok_iff]
  cases c.isNegative with
  | true =>
    simp only [if_true, Result.bind_eq_ok_iff, Result.pure_eq_ok_iff]
    constructor
    · rintro ⟨balances, hbalances, credits, hcredits, rfl⟩
      exact ⟨hbalances, rfl, hcredits⟩
    · rintro ⟨hbalances, hdebits, hcredits⟩
      exact ⟨_, hbalances, _, hcredits, by rw [← hdebits]⟩
  | false =>
    simp only [Bool.false_eq_true, if_false, Result.bind_eq_ok_iff, Result.pure_eq_ok_iff]
    constructor
    · rintro ⟨balances, hbalances, debits, hdebits, rfl⟩
      exact ⟨hbalances, hdebits, rfl⟩
    · rintro ⟨hbalances, hdebits, hcredits⟩
      exact ⟨_, hbalances, _, hdebits, by rw [← hcredits]⟩

/-- Amounts that have been posted are in all balances, and in debits or credits by their sign. -/
theorem sums_of_foldlM_post {cs : List Commodity} {t t' : Turnover}
    (h : cs.foldlM post t = .ok t') :
    cs.foldlM accumulate t.balances = .ok t'.balances ∧
      (Commodity.debits cs).foldlM accumulate t.debits = .ok t'.debits ∧
      ((Commodity.credits cs).map Commodity.invert).foldlM accumulate t.credits =
        .ok t'.credits := by
  induction cs generalizing t with
  | nil =>
    obtain rfl := Except.ok.inj h
    exact ⟨rfl, rfl, rfl⟩
  | cons c cs ih =>
    rw [List.foldlM_cons, Result.bind_eq_ok_iff] at h
    obtain ⟨next, hnext, h⟩ := h
    obtain ⟨hbalances, hside⟩ := post_eq_ok_iff.mp hnext
    obtain ⟨hbalances', hdebits', hcredits'⟩ := ih h
    refine ⟨by rw [List.foldlM_cons, hbalances]; exact hbalances', ?_⟩
    by_cases hneg : c.value < 0
    · rw [if_pos ((Commodity.isNegative_iff c).mpr hneg)] at hside
      rw [Commodity.debits, Commodity.credits, List.filter_cons_of_neg (by simpa using hneg),
        List.filter_cons_of_pos (by simpa using hneg), List.map_cons, List.foldlM_cons, hside.2,
        ← hside.1]
      exact ⟨hdebits', hcredits'⟩
    · rw [if_neg (mt (Commodity.isNegative_iff c).mp hneg)] at hside
      rw [Commodity.debits, Commodity.credits, List.filter_cons_of_pos (by simpa using hneg),
        List.filter_cons_of_neg (by simpa using hneg), List.foldlM_cons, hside.1, ← hside.2]
      exact ⟨hdebits', hcredits'⟩

/-- Amounts can be posted where there are all three sums. -/
theorem foldlM_post_of_sums {cs : List Commodity} {t t' : Turnover}
    (hbalances : cs.foldlM accumulate t.balances = .ok t'.balances)
    (hdebits : (Commodity.debits cs).foldlM accumulate t.debits = .ok t'.debits)
    (hcredits : ((Commodity.credits cs).map Commodity.invert).foldlM accumulate t.credits =
      .ok t'.credits) : cs.foldlM post t = .ok t' := by
  induction cs generalizing t with
  | nil =>
    cases t
    cases t'
    obtain rfl := Except.ok.inj hbalances
    obtain rfl := Except.ok.inj hdebits
    obtain rfl := Except.ok.inj hcredits
    rfl
  | cons c cs ih =>
    rw [List.foldlM_cons, Result.bind_eq_ok_iff] at hbalances
    obtain ⟨balances, hfirst, hbalances⟩ := hbalances
    rw [List.foldlM_cons, Result.bind_eq_ok_iff]
    by_cases hneg : c.value < 0
    · rw [Commodity.debits, List.filter_cons_of_neg (by simpa using hneg)] at hdebits
      rw [Commodity.credits, List.filter_cons_of_pos (by simpa using hneg), List.map_cons,
        List.foldlM_cons, Result.bind_eq_ok_iff] at hcredits
      obtain ⟨credits, hcredit, hcredits⟩ := hcredits
      refine ⟨⟨balances, t.debits, credits⟩, post_eq_ok_iff.mpr ⟨hfirst, ?_⟩,
        ih hbalances hdebits hcredits⟩
      rw [if_pos ((Commodity.isNegative_iff c).mpr hneg)]
      exact ⟨rfl, hcredit⟩
    · rw [Commodity.debits, List.filter_cons_of_pos (by simpa using hneg), List.foldlM_cons,
        Result.bind_eq_ok_iff] at hdebits
      rw [Commodity.credits, List.filter_cons_of_neg (by simpa using hneg)] at hcredits
      obtain ⟨debits, hdebit, hdebits⟩ := hdebits
      refine ⟨⟨balances, debits, t.credits⟩, post_eq_ok_iff.mpr ⟨hfirst, ?_⟩,
        ih hbalances hdebits hcredits⟩
      rw [if_neg (mt (Commodity.isNegative_iff c).mp hneg)]
      exact ⟨hdebit, rfl⟩

theorem exists_foldlM_post {cs : List Commodity} (hagree : Commodity.Agree cs)
    (hexact : ∀ n, ExactRange (named n cs)) : ∃ t, cs.foldlM post empty = .ok t := by
  have hinverted : Commodity.Agree ((Commodity.credits cs).map Commodity.invert) := by
    intro a ha b hb hname
    obtain ⟨c, hc, rfl⟩ := List.mem_map.mp ha
    obtain ⟨d, hd, rfl⟩ := List.mem_map.mp hb
    exact hagree c (List.mem_filter.mp hc).1 d (List.mem_filter.mp hd).1 hname
  obtain ⟨balances, hbalances⟩ := exists_sums? hagree fun n => (hexact n).exactSums
  have hdebitsAgree : Commodity.Agree (Commodity.debits cs) := hagree.sublist List.filter_sublist
  obtain ⟨debits, hdebits⟩ := exists_sums? hdebitsAgree fun n => by
    rw [Commodity.debits, Commodity.named_filter]
    exact ((hexact n).sublist List.filter_sublist).exactSums
  obtain ⟨credits, hcredits⟩ := exists_sums? hinverted fun n => by
    rw [Commodity.named_map Commodity.name_invert, Commodity.credits, Commodity.named_filter]
    exact ((hexact n).sublist List.filter_sublist).map_invert.exactSums
  have hpost := @foldlM_post_of_sums cs empty ⟨balances, debits, credits⟩ hbalances hdebits hcredits
  exact ⟨_, hpost⟩

/-- The turnover keeps, under the name, the sums of the amounts: of all of them, of the debits among
them, and of the credits with the sign changed. -/
structure Totals (t : Turnover) (n : String) (cs : List Commodity) : Prop where
  balances : Keeps t.balances n (cs ≠ []) (sumOf cs)
  debits : Keeps t.debits n (Commodity.debits cs ≠ []) (sumOf (Commodity.debits cs))
  credits : Keeps t.credits n (Commodity.credits cs ≠ []) (-sumOf (Commodity.credits cs))

theorem totals_empty (n : String) : Totals empty n [] := by
  refine ⟨?_, ?_, ?_⟩ <;> simp [Keeps, empty, Commodity.debits, Commodity.credits]

theorem totals_of_foldlM_post {cs : List Commodity} {t : Turnover}
    (h : cs.foldlM post empty = .ok t) {n : String} (hexact : ExactRange (named n cs)) :
    t.Totals n (named n cs) := by
  obtain ⟨hbalances, hdebits, hcredits⟩ := sums_of_foldlM_post h
  have hdebitsNamed : named n (Commodity.debits cs) = Commodity.debits (named n cs) :=
    Commodity.named_filter ..
  have hcreditsNamed : named n ((Commodity.credits cs).map Commodity.invert) =
      (Commodity.credits (named n cs)).map Commodity.invert := by
    rw [Commodity.named_map Commodity.name_invert, Commodity.credits, Commodity.named_filter]
    rfl
  have hdebitsKept := @keeps_of_sums? _ _ hdebits n
  have hcreditsKept := @keeps_of_sums? _ _ hcredits n
  rw [hdebitsNamed] at hdebitsKept
  rw [hcreditsNamed, Commodity.sumOf_map_invert, ne_eq, List.map_eq_nil_iff] at hcreditsKept
  exact ⟨keeps_of_sums? hbalances hexact, hdebitsKept (hexact.sublist List.filter_sublist),
    hcreditsKept (hexact.sublist List.filter_sublist).map_invert⟩

end Turnover

end Daybook
