import Daybook.Proofs.Journal.PriceLines
import Daybook.Proofs.Store.Digests
import Daybook.Proofs.Store.Trace
import Mathlib.Order.Bounds.Defs

/-!
# What the statistics count

Main statement: after a first pass over a text without faults, the statistics count what the text
says (`Filling.firstPass_counts`). The transactions and their days are those of the text, although
the store keeps them in another order; so are the prices, of which each stands on a line of its own.
The postings include those that have been added to complete a transaction. The duplicates are the
transactions whose lines repeat those of an earlier one, as far as digests tell lines apart.
-/

namespace Daybook

open Daybook.Text

/-- No two different texts among these share a digest. -/
def Digest.Separates (texts : List String) : Prop :=
  ∀ a ∈ texts, ∀ b ∈ texts, hexOfText a = hexOfText b → a = b

namespace Journal

/-- The lines that each transaction among the items covers, without the blanks at their ends. -/
def transactionLines (lines : List (List Char)) (ds : List (Spanned Directive)) :
    List (List (List Char)) :=
  (ds.filter (·.value.transaction?.isSome)).map fun d => (within lines d.span).map trimEnd

def message (lines : List (List Char)) : String := String.ofList (unlines lines)

end Journal

open Journal (written priceCount transactionLines message)

/-- The numbers are those of a journal with these lines and these items, of which these transactions
have been stored. -/
structure Statistics.Counts (n : Statistics) (lines : List (List Char))
    (ds : List (Spanned Directive)) (stored : List Transaction) : Prop where
  transactions : n.transactions = (written ds).length
  stored : n.postings = (stored.flatMap (·.postings)).length
  /-- The postings are those that are written, and those that complete a transaction. -/
  completed : n.postings = ((written ds).map fun t => t.postings.length + t.added).sum
  /-- There is one price for each line that announces one, unless the line is not read. -/
  prices : n.prices = (Line.readAmong none lines).countP Line.announcesPrice
  undated : (n.first = none ↔ written ds = []) ∧ (n.last = none ↔ written ds = [])
  first : ∀ d, n.first = some d → IsLeast {e | ∃ t ∈ written ds, t.date = e} d
  last : ∀ d, n.last = some d → IsGreatest {e | ∃ t ∈ written ds, t.date = e} d
  /-- A duplicate covers the same lines as an earlier transaction, but for blanks at their ends. -/
  duplicates : n.duplicates = repeats (transactionLines lines ds)

/-! ## Digests of lines -/

theorem Digest.hexWord_ne_nil (w : UInt32) : hexWord w ≠ [] := by
  refine List.ne_nil_of_length_pos ?_
  rw [hexWord, List.length_append, List.length_replicate]
  omega

theorem Digest.hexOfText_ne_empty (s : String) : hexOfText s ≠ "" := by
  intro hempty
  have hnil : (sha256 s.toUTF8.toList).toList.flatMap hexWord = [] := by
    rw [← String.toList_ofList (l := List.flatMap _ _), ← hexOfText, hempty]
    rfl
  rw [Words.toList, List.flatMap_cons] at hnil
  exact hexWord_ne_nil _ (List.append_eq_nil_iff.mp hnil).1

namespace Journal

variable {lines : List (List Char)} {ds : List (Spanned Directive)}

theorem digestOf_eq (ls : List (List Char)) :
    Reading.digestOf ls = Digest.hexOfText (message (ls.map trimEnd)) := by
  rw [Reading.digestOf, message, unlines, List.flatMap_map]

theorem map_digest_written (h : ∀ d ∈ ds, Recorded lines d) : (written ds).map (·.digest) =
    (transactionLines lines ds).map fun ls => Digest.hexOfText (message ls) := by
  induction ds with
  | nil => rfl
  | cons d ds ih =>
    obtain ⟨hd, hds⟩ := List.forall_mem_cons.mp h
    by_cases ht : ∃ t, d.value = .transaction t
    · obtain ⟨t, ht⟩ := ht
      have hvalue : d.value.transaction? = some t := by rw [ht]; rfl
      have hwritten : written (d :: ds) = t :: written ds := List.filterMap_cons_some hvalue
      rw [hwritten, transactionLines, List.filter_cons_of_pos (by rw [hvalue]; rfl), List.map_cons,
        (hd t ht).2.2, digestOf_eq, ih hds]
      rfl
    · have hvalue := Directive.transaction?_of_ne fun t hd => ht ⟨t, hd⟩
      have hwritten : written (d :: ds) = written ds := List.filterMap_cons_none hvalue
      rw [hwritten, transactionLines, List.filter_cons_of_neg (by rw [hvalue]; decide), ih hds]
      rfl

theorem digests_eq (h : ∀ d ∈ ds, Recorded lines d) : digests ds =
    (transactionLines lines ds).map fun ls => Digest.hexOfText (message ls) := by
  rw [digests, map_digest_written h]
  refine List.filter_eq_self.mpr fun digest hdigest => ?_
  obtain ⟨ls, -, rfl⟩ := List.mem_map.mp hdigest
  simpa using Digest.hexOfText_ne_empty _

theorem not_mem_of_mem_transactionLines {cs : List Char} {ls : List (List Char)}
    (h : ls ∈ transactionLines (Text.lines cs) ds) : ∀ line ∈ ls, '\n' ∉ line := by
  obtain ⟨d, -, rfl⟩ := List.mem_map.mp h
  intro line hline hmem
  obtain ⟨whole, hwhole, rfl⟩ := List.mem_map.mp hline
  have hsource : whole ∈ Text.lines cs := List.mem_of_mem_drop (List.mem_of_mem_take hwhole)
  exact not_mem_of_mem_lines hsource ((trimEnd_isPrefix whole).subset hmem)

theorem repeats_digests {cs : List Char} (h : ∀ d ∈ ds, Recorded (Text.lines cs) d)
    (hdigests : Digest.Separates ((transactionLines (Text.lines cs) ds).map message)) :
    repeats (digests ds) = repeats (transactionLines (Text.lines cs) ds) := by
  rw [digests_eq h]
  refine repeats_map fun a ha b hb heq => ?_
  have hmessage := hdigests _ (List.mem_map_of_mem ha) _ (List.mem_map_of_mem hb) heq
  exact eq_of_unlines_eq (not_mem_of_mem_transactionLines ha) (not_mem_of_mem_transactionLines hb)
    (String.ofList_injective hmessage)

end Journal

/-! ## The first and the last day -/

theorem pairwise_mergeSort_date (ts : List Transaction) :
    (ts.mergeSort fun a b => a.date ≤ b.date).Pairwise fun a b => a.date ≤ b.date := by
  have htrans : ∀ a b c : Transaction, decide (a.date ≤ b.date) = true →
      decide (b.date ≤ c.date) = true → decide (a.date ≤ c.date) = true := by
    intro a b c hab hbc
    exact decide_eq_true (Int.le_trans (of_decide_eq_true hab) (of_decide_eq_true hbc))
  have htotal : ∀ a b : Transaction,
      (decide (a.date ≤ b.date) || decide (b.date ≤ a.date)) = true := by
    intro a b
    rw [Bool.or_eq_true, decide_eq_true_iff, decide_eq_true_iff]
    exact Int.le_total a.date.dayNumber b.date.dayNumber
  exact (List.pairwise_mergeSort htrans htotal ts).imp of_decide_eq_true

theorem isLeast_head? {ts : List Transaction} (h : ts.Pairwise fun a b => a.date ≤ b.date) {d : Date}
    (hd : ts.head?.map (·.date) = some d) : IsLeast {e | ∃ t ∈ ts, t.date = e} d := by
  obtain ⟨t, ht, rfl⟩ := Option.map_eq_some_iff.mp hd
  obtain ⟨rest, rfl⟩ := List.head?_eq_some_iff.mp ht
  refine ⟨⟨t, List.mem_cons_self, rfl⟩, ?_⟩
  rintro _ ⟨x, hx, rfl⟩
  rcases List.mem_cons.mp hx with rfl | hx
  · exact Int.le_refl _
  · exact (List.pairwise_cons.mp h).1 x hx

theorem isGreatest_getLast? {ts : List Transaction} (h : ts.Pairwise fun a b => a.date ≤ b.date)
    {d : Date} (hd : ts.getLast?.map (·.date) = some d) :
    IsGreatest {e | ∃ t ∈ ts, t.date = e} d := by
  obtain ⟨t, ht, rfl⟩ := Option.map_eq_some_iff.mp hd
  obtain ⟨before, rfl⟩ := List.getLast?_eq_some_iff.mp ht
  refine ⟨⟨t, by simp, rfl⟩, ?_⟩
  rintro _ ⟨x, hx, rfl⟩
  rcases List.mem_append.mp hx with hx | hx
  · exact (List.pairwise_append.mp h).2.2 x hx t List.mem_cons_self
  · obtain rfl := List.mem_singleton.mp hx
    exact Int.le_refl _

/-! ## Prices -/

theorem Store.size_prices_entered (s : Store) (d : Directive) :
    (s.entered d).prices.size = s.prices.size + d.isPrice.toNat := by
  cases d
  case price x => exact (s.prices.perm_insert x.moment x).length_eq
  case account d =>
    obtain ⟨a, -, hs⟩ := s.withDeclared_eq (AccountName.join s.root d.name) d
    rw [entered, hs]
    rfl
  case commodity d =>
    rw [entered, Filling.declareCommodity]
    split <;> rfl
  all_goals rfl

namespace Filling

variable {σ : Type} {r : Reporter σ} {p q : Progress σ} {ds : List (Spanned Directive)}
  {options : Options}

theorem Admits.size_prices (h : Admits r p ds q) :
    q.store.prices.size = p.store.prices.size + priceCount ds := by
  induction h with
  | start => rfl
  | @next ds d m q _ hd ih =>
    have hcount : priceCount (ds ++ [d]) = priceCount ds + d.value.isPrice.toNat := by
      rw [priceCount, List.countP_append, List.countP_singleton]
      cases d.value.isPrice <;> rfl
    rw [hcount, ← Nat.add_assoc, ← ih]
    rcases leads_takeIn hd with ⟨t, t', hvalue, -, hq⟩ | ⟨-, hbooks⟩
    · have hsame := Store.sameRules_foldl_note (m.store.noteFirst (m.store.withPayee t)) t'.postings
      rw [hvalue, hq, Store.withKept, hsame]
      rfl
    · rw [hbooks]
      exact m.store.size_prices_entered d.value

/-! ## Transactions -/

theorem Keeps.map_written {kept : List Transaction} (h : Keeps r p ds kept) :
    kept.map (·.date) = (written ds).map (·.date) ∧
      kept.map (·.postings.length) =
        (written ds).map fun t => t.postings.length + t.added := by
  induction h with
  | start => exact ⟨rfl, rfl⟩
  | @filed ds d m t t' kept _ _ hvalue hkept ih =>
    rw [Journal.written_concat, hvalue]
    simp only [List.map_append, ih.1, ih.2, List.map_singleton, Store.date_of_kept? hkept,
      Store.length_postings_of_kept? hkept]
    exact ⟨rfl, rfl⟩
  | @passed ds d kept _ hvalue ih =>
    rw [Journal.written_concat, Directive.transaction?_of_ne hvalue]
    exact (List.append_nil (written ds)).symm ▸ ih

/-- The stored transactions stand in the order of their days. They have the days of the written ones,
and as many postings together as are written and added. -/
theorem stored_of_firstPass {state : σ}
    (h : runOn (firstPass r ds) (.empty options) state = (.ok (), p)) :
    p.store.transactions.values.Pairwise (fun a b => a.date ≤ b.date) ∧
      (p.store.transactions.values.map (·.date)).Perm ((written ds).map (·.date)) ∧
      (p.store.transactions.values.map (·.postings.length)).sum =
        ((written ds).map fun t => t.postings.length + t.added).sum := by
  obtain ⟨kept, hkeeps, hinserts, -⟩ := exists_keeps_of_firstPass h
  have hvalues := values_ofInserts kept
  rw [← hinserts] at hvalues
  have hperm : p.store.transactions.values.Perm kept := hvalues ▸ List.mergeSort_perm kept _
  obtain ⟨hdates, hlengths⟩ := hkeeps.map_written
  rw [← hdates, ← hlengths]
  exact ⟨hvalues ▸ pairwise_mergeSort_date kept, hperm.map _, (hperm.map _).sum_nat⟩

end Filling

/-! ## The statistics -/

theorem foldl_add_eq_sum {α : Type} (f : α → Nat) (l : List α) :
    l.foldl (fun n x => n + f x) 0 = (l.map f).sum := by
  rw [List.sum_eq_foldl, List.foldl_map]

namespace Filling

open Journal (ofText)

variable {σ : Type} {r : Reporter σ} {p : Progress σ} {options : Options}

/-- After a first pass over a text without faults, the statistics count what the text says, if no two
different texts of transactions share a digest. -/
theorem firstPass_counts {source : String} {today : Date} {state : σ}
    (hread : (ofText source today).faults = [])
    (hdigests : Digest.Separates
      ((transactionLines (lines source.toList) (ofText source today).directives).map message))
    (hpass : runOn (firstPass r (ofText source today).directives) (.empty options) state =
      (.ok (), p)) :
    p.store.statistics.Counts (lines source.toList) (ofText source today).directives
      p.store.transactions.values := by
  rw [Journal.ofText_eq] at hread hdigests hpass ⊢
  generalize hds : (Journal.ofLines today.year (lines source.toList)).directives = ds at *
  have hrecorded := Journal.ofLines_recorded today.year (lines source.toList)
  have hprices := Journal.countP_isPrice_ofLines hread
  rw [hds] at hrecorded hprices
  obtain ⟨hsorted, hdates, hpostings⟩ := stored_of_firstPass hpass
  have hsame : {e | ∃ t ∈ p.store.transactions.values, t.date = e} =
      {e | ∃ t ∈ written ds, t.date = e} := by
    ext e
    simpa only [List.mem_map, Set.mem_ofPred_eq] using hdates.mem_iff
  have hlength := hdates.length_eq
  rw [List.length_map, List.length_map] at hlength
  have hnone : p.store.transactions.values = [] ↔ written ds = [] := by
    rw [← List.length_eq_zero_iff, hlength, List.length_eq_zero_iff]
  obtain ⟨-, m, hall, -, rfl⟩ := leads_firstPass.mp hpass
  have htallies := hall.tallies NameMap.tallies_empty
  exact {
    transactions := (List.length_map _).symm.trans hlength
    stored := (foldl_add_eq_sum _ _).trans List.length_flatMap.symm
    completed := (foldl_add_eq_sum _ _).trans hpostings
    prices := by
      rw [← hprices]
      exact hall.size_prices.trans (Nat.zero_add _)
    undated := ⟨Option.map_eq_none_iff.trans (List.head?_eq_none_iff.trans hnone),
      Option.map_eq_none_iff.trans (List.getLast?_eq_none_iff.trans hnone)⟩
    first := fun d hd => hsame ▸ isLeast_head? hsorted hd
    last := fun d hd => hsame ▸ isGreatest_getLast? hsorted hd
    duplicates := by
      rw [← Journal.repeats_digests hrecorded hdigests]
      exact (foldl_add_eq_sum _ _).trans htallies.surplus }

/-- A transaction that stands alone, one whose missing amount comes to two commodities, and the first
one again with a blank behind a line. -/
theorem firstPass_counts_shop :
    let source := "A Cash\nP 1/2 EUR $2\n1/5 Shop\n Food  $5\n" ++
      "1/3 Tea\n Food  $2\n Food  3 EUR\n Cash\n1/5 Shop \n Food  $5\n"
    let ds := (ofText source ⟨2024, 6, 1, by decide⟩).directives
    let p := (runOn (firstPass (.silent Unit) ds) (.empty .default) ()).2
    p.store.statistics.Counts (lines source.toList) ds p.store.transactions.values ∧
      p.store.statistics =
        ⟨3, 8, 2, 2, 1, 1, some ⟨2024, 1, 3, by decide⟩, some ⟨2024, 1, 5, by decide⟩⟩ := by
  intro source ds p
  let shop := "1/5 Shop\n Food  $5\n"
  let tea := "1/3 Tea\n Food  $2\n Food  3 EUR\n Cash\n"
  have hruns : (ofText source ⟨2024, 6, 1, by decide⟩).faults = [] ∧
      (transactionLines (lines source.toList) ds).map message = [shop, tea, shop] ∧
      (runOn (firstPass (.silent Unit) ds) (.empty .default) ()).1.isOk = true ∧
      p.store.statistics =
        ⟨3, 8, 2, 2, 1, 1, some ⟨2024, 1, 3, by decide⟩, some ⟨2024, 1, 5, by decide⟩⟩ := by
    decide +kernel
  obtain ⟨hread, hmessages, hok, hcounts⟩ := hruns
  have hdigest : Digest.hexOfText shop ≠ Digest.hexOfText tea := by decide +kernel
  have hdigests : Digest.Separates ((transactionLines (lines source.toList) ds).map message) := by
    rw [hmessages]
    intro a ha b hb heq
    simp only [List.mem_cons, List.not_mem_nil, or_false] at ha hb
    rcases ha with rfl | rfl | rfl <;> rcases hb with rfl | rfl | rfl
    exacts [rfl, absurd heq hdigest, rfl, absurd heq.symm hdigest, rfl, absurd heq.symm hdigest, rfl,
      absurd heq hdigest, rfl]
  exact ⟨firstPass_counts hread hdigests (runOn_eq_ok hok), hcounts⟩

end Filling

end Daybook
