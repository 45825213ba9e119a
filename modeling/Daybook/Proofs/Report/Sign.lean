import Daybook.Proofs.Report.Leaves
import Daybook.Proofs.Report.Rows
import Daybook.Proofs.Store.Sign

/-!
# The minus signs of reports

An amount in a report begins with a minus sign if it is below zero when rounded, and also if it is a
negative zero, or if its unit stands in front and has a minus sign of its own (`signed`). So which
amounts of a report are negative zeros is all that there is to say: those of postings that are
written so, running totals and sums of debits that end in one, and zeros that are shown from the
side of the credits (`secondPass_signs`).
-/

namespace Daybook

open Commodity (named total? ComesToZero EndsInNegativeZero)

namespace Report

def shownForm (s : Store) (c : Commodity) : Commodity :=
  ((s.samples.find? c.name).map (·.similar c.amount)).getD c

theorem amountText_eq (s : Store) (c : Commodity) : amountText s c = (shownForm s c).text := by
  rw [amountText, shownForm]
  cases s.samples.find? c.name <;> rfl

theorem amount_shownForm (s : Store) (c : Commodity) : (shownForm s c).amount = c.amount := by
  rw [shownForm]
  cases s.samples.find? c.name <;> rfl

/-- There is one number of units that the amount is rounded to where it is shown, half to even. The
text begins with a minus sign exactly if that number is below zero, if the amount is a negative
zero, or if its unit stands in front and begins with one. -/
def Signed (s : Store) (c : Commodity) : Prop :=
  ∃ n, c.amount.RoundsTo (shownForm s c).precision n ∧
    (∀ m, c.amount.RoundsTo (shownForm s c).precision m → m = n) ∧
    (BeginsWithMinus (amountText s c) ↔
      n < 0 ∨ c.IsNegativeZero ∨ (shownForm s c).LeadsWithMinus)

theorem signed (s : Store) (c : Commodity) : Signed s c := by
  have hrounds := c.amount.roundsTo_round (shownForm s c).precision
  refine ⟨_, hrounds, fun m hm => hm.eq hrounds, ?_⟩
  rw [amountText_eq, Commodity.beginsWithMinus_text_iff ((amount_shownForm s c).symm ▸ hrounds)]
  rw [Commodity.IsNegativeZero, Commodity.IsNegativeZero, amount_shownForm]

/-! ## The lines of the balances -/

theorem exists_of_mem_accountLines {s : Store} {accounts : List Account} {line : String}
    (h : line ∈ accountLines s accounts) :
    ∃ row : BalanceRow, line = row.text s ∧ ∃ a ∈ accounts, row ∈ balanceRows s.options a := by
  obtain ⟨row, hrow, rfl⟩ := List.mem_map.mp (List.mem_reverse.mp h)
  obtain ⟨a, ha, hrow⟩ := List.mem_flatMap.mp hrow
  exact ⟨row, rfl, a, ha, hrow⟩

/-- Where adding up an account fails, the rows of those before it have been written. -/
theorem run_writeAccounts_of_error {s : Store} {shown accounts : List Account} {g : GrandTotal}
    {e : AmountError} (lines : List String) (h : (accounts.filter fun a => !isNested shown a).foldlM
      (fun (g : GrandTotal) a => g.add a.turnover) g = .error e) :
    ∃ done, done <+: accounts ∧ (writeAccounts s shown g accounts).run.run lines =
      (.error (failure e), accountLines s done ++ lines) := by
  induction accounts generalizing g lines with
  | nil => cases h
  | cons a rest ih =>
    have hwritten : ∀ g' : GrandTotal, (rest.filter fun a => !isNested shown a).foldlM
        (fun (g : GrandTotal) a => g.add a.turnover) g' = .error e →
        ∃ done, done <+: a :: rest ∧ (writeAccounts s shown g' rest).run.run
          (((balanceRows s.options a).map (BalanceRow.text s)).reverse ++ lines) =
            (.error (failure e), accountLines s done ++ lines) := by
      intro g' hrest
      obtain ⟨done, hdone, hrun⟩ := ih _ hrest
      refine ⟨a :: done, List.cons_prefix_cons.mpr ⟨rfl, hdone⟩, ?_⟩
      rw [hrun, accountLines_cons, List.append_assoc]
    rw [writeAccounts]
    by_cases hnested : isNested shown a = true
    · rw [List.filter_cons_of_neg (by simp [hnested])] at h
      simp only [hnested, if_true, pure_bind]
      rw [Reporting.run_bind, run_forM_writeLine]
      exact hwritten g h
    · rw [List.filter_cons_of_pos (by simp [hnested]), List.foldlM_cons] at h
      simp only [hnested, Bool.false_eq_true, if_false]
      cases hadd : g.add a.turnover with
      | error x =>
        rw [hadd] at h
        obtain rfl := Except.error.inj h
        exact ⟨[], List.nil_prefix, rfl⟩
      | ok g' =>
        rw [hadd] at h
        simp only [pure_bind]
        rw [Reporting.run_bind, run_forM_writeLine]
        exact hwritten g' h

/-- A line of the report is the rule, a row of a shown account, or a row of the grand total. -/
theorem mem_lines_balance {selection : Selection} {s : Store} {line : String}
    (h : line ∈ (((balance selection).rendered s).run.run []).2) :
    line = rule s.options ∨ ∃ row : BalanceRow, line = row.text s ∧
      ((∃ a ∈ shownAccounts selection s, row ∈ balanceRows s.options a) ∨
        ∃ g, grandTotal (shownAccounts selection s) = .ok g ∧ row ∈ totalRows g) := by
  cases htotal : grandTotal (shownAccounts selection s) with
  | ok g =>
    rw [run_balance [] htotal, totalLines] at h
    simp only [List.append_nil, List.mem_append, List.mem_reverse, List.mem_singleton] at h
    rcases h with (hline | rfl) | hline
    · obtain ⟨row, hrow, rfl⟩ := List.mem_map.mp hline
      exact .inr ⟨row, rfl, .inr ⟨g, rfl, hrow⟩⟩
    · exact .inl rfl
    · obtain ⟨row, htext, ha⟩ := exists_of_mem_accountLines hline
      exact .inr ⟨row, htext, .inl ha⟩
  | error e =>
    obtain ⟨done, hdone, hrun⟩ := run_writeAccounts_of_error (s := s) [] htotal
    rw [balance, Reporting.run_bind, hrun] at h
    simp only [List.append_nil] at h
    obtain ⟨row, htext, a, ha, hrow⟩ := exists_of_mem_accountLines h
    exact .inr ⟨row, htext, .inl ⟨a, hdone.subset ha, hrow⟩⟩

/-! ## Negative zeros -/

def BalanceRow.amounts (row : BalanceRow) : List Commodity :=
  row.balance :: (row.debit.toList ++ row.credit.toList)

/-- When the amounts of a row are negative zeros: a credit never is. -/
structure BalanceRow.NegativeZeros (row : BalanceRow) (balance debit : Prop) : Prop where
  balance : row.balance.IsNegativeZero ↔ balance
  debit : ∀ c ∈ row.debit, c.IsNegativeZero ↔ debit
  credit : ∀ c ∈ row.credit, ¬c.IsNegativeZero

/-- When the balance of an account is shown as a negative zero, by the amounts that have been posted
to it: without debits and credits zeros are left out. -/
def BalanceNegativeZero (options : Options) (a : Account) (cs : List Commodity) : Prop :=
  options.debitCredit = true ∧
    if a.isDebitNormal then EndsInNegativeZero cs else ComesToZero cs ∧ ¬EndsInNegativeZero cs

/-- A sum of credits is no negative zero, since none of them is a zero. -/
theorem not_isNegativeZero_of_credits (cs : List Commodity) (n : String) {c : Commodity}
    (h : total? (named n ((Commodity.credits cs).map Commodity.invert)) = .ok (some c)) :
    ¬c.IsNegativeZero := by
  rw [Commodity.isNegativeZero_of_total? h]
  intro hends
  obtain ⟨d, hd, hzero⟩ := hends.exists_mem
  obtain ⟨x, hx, rfl⟩ := List.mem_map.mp (Commodity.mem_named.mp hd).1
  have hbelow : x.value < 0 := by simpa using (List.mem_filter.mp hx).2
  have hnothing : x.value = 0 :=
    (Decimal.value_eq_zero_iff x.amount).mpr ((Commodity.isNegativeZero_invert_iff x).mp hzero).1
  omega

theorem exists_of_mem_balanceRows {options : Options} {a : Account} {row : BalanceRow}
    (h : row ∈ balanceRows options a) :
    ∃ c ∈ a.turnover.balances.values, (options.debitCredit || !c.isZero) = true ∧
      row.balance = (if options.debitCredit && !a.isDebitNormal then c.invert else c) ∧
      row.debit = a.turnover.debits.find? c.name ∧
      row.credit = a.turnover.credits.find? c.name := by
  have hmem : ∀ c ∈ a.turnover.balances.values.filter fun c => options.debitCredit || !c.isZero,
      c ∈ a.turnover.balances.values ∧ (options.debitCredit || !c.isZero) = true :=
    fun c hc => List.mem_filter.mp hc
  simp only [balanceRows, List.mem_append, List.mem_map, Option.mem_toList] at h
  rcases h with ⟨c, hc, rfl⟩ | ⟨c, hc, rfl⟩
  · obtain ⟨hvalue, hshown⟩ := hmem c (List.dropLast_subset _ hc)
    exact ⟨c, hvalue, hshown, rfl, rfl, rfl⟩
  · obtain ⟨hvalue, hshown⟩ := hmem c (List.mem_of_getLast? hc)
    exact ⟨c, hvalue, hshown, rfl, rfl, rfl⟩

/-- Which amounts in the rows of an account are negative zeros, by what has been posted to it. -/
theorem negativeZeros_balanceRows {options : Options} {a : Account} {cs : List Commodity}
    (h : cs.foldlM Turnover.post .empty = .ok a.turnover) {row : BalanceRow}
    (hrow : row ∈ balanceRows options a) :
    row.NegativeZeros (BalanceNegativeZero options a (named row.balance.name cs))
      (EndsInNegativeZero (named row.balance.name (Commodity.debits cs))) := by
  obtain ⟨hbalances, hdebits, hcredits⟩ := Turnover.sums_of_foldlM_post h
  obtain ⟨c, hc, hshown, hbalance, hdebit, hcredit⟩ := exists_of_mem_balanceRows hrow
  obtain ⟨n, hn⟩ := NameMap.mem_values_iff.mp hc
  obtain rfl := Turnover.keyed_of_sums? hbalances n c hn
  have hname : row.balance.name = c.name := by
    rw [hbalance]
    split <;> rfl
  have htotal := Turnover.find?_of_sums? hbalances c.name
  rw [hn] at htotal
  rw [hname]
  refine ⟨?_, fun d hd => ?_, fun d hd => ?_⟩
  · rw [hbalance, BalanceNegativeZero, ← Commodity.isNegativeZero_of_total? htotal,
      Commodity.comesToZero_iff htotal]
    cases hsides : options.debitCredit with
    | false =>
      rw [hsides, Bool.false_or, Bool.not_eq_true'] at hshown
      simpa using Commodity.not_isNegativeZero hshown
    | true =>
      cases a.isDebitNormal with
      | true => simp
      | false => simpa using Commodity.isNegativeZero_invert_iff c
  · refine Commodity.isNegativeZero_of_total? ?_
    rw [Turnover.find?_of_sums? hdebits, ← hdebit, hd]
  · refine not_isNegativeZero_of_credits cs c.name ?_
    rw [Turnover.find?_of_sums? hcredits, ← hcredit, hd]

/-- Which amounts in the rows of the grand total are negative zeros. -/
theorem negativeZeros_totalRows {l : List Account} {part : Account → List Commodity}
    {g : GrandTotal} (h : l.foldlM (fun (g : GrandTotal) a => g.add a.turnover) .empty = .ok g)
    (hposted : ∀ a ∈ l, (part a).foldlM Turnover.post .empty = .ok a.turnover) {row : BalanceRow}
    (hrow : row ∈ totalRows g) :
    row.NegativeZeros False
      (EndsInNegativeZero (named row.balance.name (l.flatMap (·.turnover.debits.values)))) := by
  obtain ⟨-, hdebits, hcredits⟩ := GrandTotal.sums_of_foldlM_add h
  rw [totalRows] at hrow
  split at hrow
  case h_1 =>
    obtain rfl := List.mem_singleton.mp hrow
    exact ⟨iff_of_false (by decide) id, nofun, nofun⟩
  case h_2 =>
    obtain ⟨c, hc, rfl⟩ := List.mem_map.mp hrow
    have hnonzero : c.isZero = false := by simpa using (List.mem_filter.mp hc).2
    refine ⟨iff_of_false (Commodity.not_isNegativeZero hnonzero) id, fun d hd => ?_, fun d hd => ?_⟩
    · refine Commodity.isNegativeZero_of_total? ?_
      rw [Turnover.find?_of_sums? (Totals.addAll_empty_eq_ok_iff.mp hdebits)]
      exact congrArg Except.ok hd
    · have htotal := Turnover.find?_of_sums? (Totals.addAll_empty_eq_ok_iff.mp hcredits) c.name
      have hfind : g.credits.sums.find? c.name = some d := hd
      rw [hfind] at htotal
      rw [Commodity.isNegativeZero_of_total? htotal]
      intro hends
      obtain ⟨x, hx, hzero⟩ := hends.exists_mem
      obtain ⟨a, ha, hx⟩ := List.mem_flatMap.mp (Commodity.mem_named.mp hx).1
      obtain ⟨n, hn⟩ := NameMap.mem_values_iff.mp hx
      obtain ⟨-, -, hsums⟩ := Turnover.sums_of_foldlM_post (hposted a ha)
      refine not_isNegativeZero_of_credits (part a) n ?_ hzero
      rw [Turnover.find?_of_sums? hsums, hn]

/-! ## The second pass -/

open Filling

variable {σ : Type} {r : Reporter σ} {ds : List (Spanned Directive)} {options : Options} {state : σ}
  {p : Progress σ}

/-- An amount in the register or in the report of balances begins with a minus sign if it is below
zero when it is rounded half to even to the decimals that are shown, and a zero does so only if it
is a negative one. In the register that is an amount that is written as one in the journal, or a
total that ends in one. In the report of balances only debits and credits bring out negative zeros:
balances and sums of debits that end in one, and zeros of accounts that grow by credits. -/
theorem secondPass_signs
    (hfirst : runOn (firstPass r ds) (.empty options) state = (.ok (), p)) (selection : Selection) :
    (∀ e ∈ p.store.covered, e.2.IsNegativeZero →
      ∃ t span, ⟨.transaction t, span⟩ ∈ ds ∧ t.HasNegativeZero e.2.name) ∧
    (∀ q, runOn (secondPass (Report.register selection)) p.store .empty = (.ok (), q) →
      ∃ rows : List RegisterRow,
        q.report.lines = (rows.map (RegisterRow.text q.store)).reverse ∧
        rows.map (fun row => (row.account, row.amount)) =
          shownEntries selection p.store.covered ∧
        ∀ before row after, rows = before ++ row :: after →
          Signed q.store row.amount ∧ Signed q.store row.running ∧
          (row.running.IsNegativeZero ↔ EndsInNegativeZero
            (named row.amount.name ((before ++ [row]).map (·.amount))))) ∧
    ∀ (τ : Type) (r' : Reporter τ) (state' : τ) (q : Progress τ),
      runOn (secondPass r') p.store state' = (.ok (), q) →
        ∀ line ∈ (((Report.balance selection).rendered q.store).run.run []).2,
          line = rule options ∨ ∃ row : BalanceRow, line = row.text q.store ∧
            (∀ c ∈ row.amounts, Signed q.store c) ∧
            ((∃ a ∈ shownAccounts selection q.store, row ∈ balanceRows options a ∧
                row.NegativeZeros
                  (BalanceNegativeZero options a
                    (named row.balance.name (countsOn a.name p.store.covered)))
                  (EndsInNegativeZero (named row.balance.name
                    (Commodity.debits (countsOn a.name p.store.covered))))) ∨
              ∃ g, grandTotal (shownAccounts selection q.store) = .ok g ∧ row ∈ totalRows g ∧
                row.NegativeZeros False (EndsInNegativeZero (named row.balance.name
                  ((summed (shownAccounts selection q.store)).flatMap
                    (·.turnover.debits.values))))) := by
  refine ⟨written_of_isNegativeZero hfirst, fun q hsecond => ?_, ?_⟩
  · obtain ⟨rows, hlists, hrows⟩ := lists_of_secondPass hfirst hsecond
    refine ⟨rows, hlists.lines, map_entries_rows hfirst hrows, fun before row after hsplit => ?_⟩
    exact ⟨signed _ _, signed _ _,
      Commodity.isNegativeZero_of_total? (hlists.running before row after hsplit)⟩
  · intro τ r' state' q hsecond line hline
    obtain ⟨hholding, -, rfl⟩ := holding_of_secondPass hfirst hsecond
    rcases mem_lines_balance hline with hrule | ⟨row, htext, hrow⟩
    · exact .inl hrule
    · refine .inr ⟨row, htext, fun c _ => signed q.store c, ?_⟩
      rcases hrow with ⟨a, ha, hrow⟩ | ⟨g, hg, hrow⟩
      · obtain ⟨name, hname⟩ := NameMap.mem_values_iff.mp (List.mem_filter.mp ha).1
        obtain ⟨rfl, hposted⟩ := hholding name a hname
        exact .inl ⟨a, ha, hrow, negativeZeros_balanceRows hposted hrow⟩
      · exact .inr ⟨g, hg, hrow,
          negativeZeros_totalRows hg (fun a ha => hholding.posted_of_summed ha) hrow⟩

def minusNothing : Commodity := .ofCurrency "$" Decimal.zero.neg

/-- A posting of a negative zero is shown as one, and so is the total that it leads to. -/
theorem secondPass_signs_written :
    let ds := single [.ofAmount "A" minusNothing, .ofAmount "B" minusNothing.invert]
    let p := (runOn (firstPass (.silent Unit) ds) (.empty .default) ()).2
    let q := (runOn (secondPass (register none)) p.store .empty).2
    q.report.lines.reverse =
      ["2024/01/01                        A                                           -$0" ++
        "              -$0",
       "                                  B                                            $0" ++
        "               $0"] ∧
    (∀ e ∈ p.store.covered, e.2.IsNegativeZero →
      ∃ t span, ⟨.transaction t, span⟩ ∈ ds ∧ t.HasNegativeZero e.2.name) ∧
    ∃ rows : List RegisterRow, q.report.lines = (rows.map (RegisterRow.text q.store)).reverse ∧
      ∀ row ∈ rows, Signed q.store row.amount ∧ Signed q.store row.running := by
  intro ds p q
  have hfirst : runOn (firstPass (.silent Unit) ds) (.empty .default) () = (.ok (), p) :=
    runOn_eq_ok (by decide +kernel)
  have hsecond : runOn (secondPass (register none)) p.store .empty = (.ok (), q) :=
    runOn_eq_ok (by decide +kernel)
  obtain ⟨hwritten, hregister, -⟩ := secondPass_signs hfirst none
  obtain ⟨rows, hlines, -, hsigns⟩ := hregister q hsecond
  refine ⟨by decide +kernel, hwritten, rows, hlines, fun row hrow => ?_⟩
  obtain ⟨before, after, hsplit⟩ := List.append_of_mem hrow
  obtain ⟨hamount, hrunning, -⟩ := hsigns before row after hsplit
  exact ⟨hamount, hrunning⟩

def fiveEuros : Commodity := .plain "EUR" ⟨false, 5, 0, five_lt_mantissaLimit, Nat.zero_le _⟩

/-- A card on which five euros have been spent and paid back, and a dollar has been spent. -/
def settledCard : List (Spanned Directive) :=
  ⟨.account { AccountDeclaration.ofName "Card" with types := ["Liability"] }, .line 1⟩ ::
    single [.ofAmount "Card" fiveEuros, .ofAmount "Card" fiveEuros.invert,
      .ofAmount "Card" oneDollar.invert, .ofAmount "Bank" oneDollar]

/-- With debits and credits the balance of nothing that is left of the euros begins with a minus
sign, although no negative zero has been written. -/
theorem settledCard_begins_with_minus :
    let options := { Options.default with debitCredit := true }
    let first := runOn (firstPass (.silent Unit) settledCard) (.empty options) ()
    let second := runOn (secondPass (.silent Unit)) first.2.store ()
    let s := second.2.store
    first.1 = .ok () ∧ second.1 = .ok () ∧ (∀ e ∈ first.2.store.covered, ¬e.2.IsNegativeZero) ∧
      (∃ a ∈ shownAccounts none s, ∃ row ∈ balanceRows options a,
        row.balance.amount.RoundsTo (shownForm s row.balance).precision 0 ∧
          BeginsWithMinus (amountText s row.balance)) ∧
      "           5 EUR            5 EUR           -0 EUR  Card" ∈
        (((balance none).rendered s).run.run []).2 := by
  decide +kernel

end Report

end Daybook
