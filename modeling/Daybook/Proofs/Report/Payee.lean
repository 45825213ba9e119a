import Daybook.Proofs.Journal.Notes
import Daybook.Proofs.Report.Rows
import Daybook.Proofs.Store.Beneath

/-!
# The payee of a posting

A store keeps the metadata of a posting, and where the account of a posting is a placeholder, the
payee of the posting decides it (`Store.exists_of_kept?`). Main statement: a note that names a payee
decides the payee of the posting above it, in the journal, in the store and in the register, exactly
if the name does not read as a number or a date (`PayeeNote.payee_eq`).
-/

namespace Daybook

open Daybook.Text

/-! ## What is kept of a posting -/

/-- The posting `y` stands where `x` stood, with the same account and metadata. -/
def Posting.Stays (x y : Posting) : Prop := y.account = x.account ∧ y.metadata = x.metadata

theorem Transaction.Completes.exists_stays {t u : Transaction} {bucket : Option String}
    {unit : Commodity} {places : List Nat} (h : t.Completes bucket unit u places) {k : Nat}
    {x : Posting} (hx : t.postings[k]? = some x) :
    ∃ y, u.postings[k]? = some y ∧ x.Stays y := by
  cases h with
  | @lone p account cost ht _ _ =>
    rw [ht] at hx
    cases k with
    | zero =>
      obtain rfl := Option.some.inj hx
      exact ⟨p, rfl, rfl, rfl⟩
    | succ k => cases hx
  | @tally before after p sums ht _ _ _ _ =>
    let filled (q : Posting) : Posting := q.withAmount (.offset unit sums)
    have hfilled : before ++ filled p :: after = t.postings.modify before.length filled := by
      rw [ht, modify_append_cons]
    have hlt : k < (t.postings.modify before.length filled).length := by
      rw [List.length_modify]
      exact (List.getElem?_eq_some_iff.mp hx).1
    change ∃ y, (before ++ filled p :: after ++ p.furtherOffsets sums)[k]? = some y ∧ x.Stays y
    rw [hfilled, List.getElem?_append_left hlt, List.getElem?_modify, hx]
    refine ⟨_, rfl, ?_⟩
    dsimp only
    split <;> exact ⟨rfl, rfl⟩
  | whole => exact ⟨x, hx, rfl, rfl⟩

namespace Store

variable {s : Store} {t t' : Transaction} {x : Posting} {k : Nat}

theorem exists_of_keptPostings {place : Option Nat} {n : Nat} {xs ys : List Posting}
    (h : s.keptPostings t place n xs = .ok ys) (hx : xs[k]? = some x) :
    ∃ name, s.accountFor t x (place = some (n + k)) = .ok name ∧
      ys[k]? = some (s.keptOn name x) := by
  induction xs generalizing n k ys with
  | nil => cases hx
  | cons x' xs ih =>
    simp only [keptPostings, Result.bind_eq_ok_iff, Result.pure_eq_ok_iff] at h
    obtain ⟨name, hname, rest, hrest, rfl⟩ := h
    cases k with
    | zero =>
      obtain rfl := Option.some.inj hx
      exact ⟨name, hname, rfl⟩
    | succ k =>
      obtain ⟨name', hname', hy⟩ := ih hrest hx
      rw [Nat.add_right_comm, Nat.add_assoc] at hname'
      exact ⟨name', hname', hy⟩

theorem matched_of_accountFor {root : Option String} {toBucket : Bool} {name : String}
    (hx : x.account = .unknown root) (h : s.accountFor t x toBucket = .ok name) :
    matched? s.payeeAccounts (x.payee t) = some name := by
  simp only [accountFor, resolveAccount, hx] at h
  split at h
  case h_1 account hmatched =>
    split at h
    case isTrue =>
      obtain rfl := Except.ok.inj h
      exact hmatched
    case isFalse => cases h
  case h_2 => cases h

theorem exists_of_kept? (h : s.kept? t = .ok t') (hx : t.postings[k]? = some x) :
    ∃ y name, t'.postings[k]? = some y ∧ y.metadata = x.metadata ∧ y.account = .named name ∧
      ∀ root, x.account = .unknown root →
        matched? s.payeeAccounts (y.payee t') = some name := by
  obtain ⟨u, place, ys, hbalanced, hys, rfl⟩ := kept?_eq_ok_iff.mp h
  have hx' : (s.withPayee t).postings[k]? = some x := by rw [postings_withPayee, hx]
  obtain ⟨z, hz, haccount, hmetadata⟩ : ∃ z, u.postings[k]? = some z ∧ x.Stays z := by
    rcases balanced_eq_ok_iff.mp hbalanced with ⟨-, rfl, -⟩ | ⟨-, -, places, hcompletes, -⟩
    · exact ⟨x, hx', rfl, rfl⟩
    · exact hcompletes.exists_stays hx'
  obtain ⟨name, hname, hy⟩ := exists_of_keptPostings hys hz
  refine ⟨s.keptOn name z, name, hy, hmetadata, rfl, fun root hroot => ?_⟩
  have hmatched : matched? s.payeeAccounts (z.payee u) = some name :=
    matched_of_accountFor (haccount.trans hroot) hname
  exact hmatched

end Store

/-! ## The payee that a note names -/

theorem MetaValue.asText?_infer (raw : String) : (infer raw).asText? =
    if (infer raw).asText?.isSome then some (String.ofList (trim raw.toList)) else none := by
  rcases infer_cases raw with ⟨n, -, h⟩ | ⟨d, h⟩ | h <;> rw [h] <;> rfl

namespace Journal.PayeeNote

open Filling Report

variable {today : Date} (x : PayeeNote today.year)

def payeeIn (t : Transaction) : String :=
  if x.value.asText?.isSome then String.ofList (trim x.payee) else t.payee

theorem payee_of_find? {p : Posting} (h : p.metadata.find? "payee" = some x.value)
    (t : Transaction) : p.payee t = x.payeeIn t := by
  have hvalue := MetaValue.asText?_infer (String.ofList x.payee)
  rw [String.toList_ofList] at hvalue
  rw [Posting.payee, h, Option.bind_some, payeeIn]
  change x.value.asText? = _ at hvalue
  rw [hvalue]
  split <;> rfl

/-- A note that names a payee decides the payee of the posting above it exactly if the name is inferred
to be a text; a number or a date leaves the payee of the transaction in force. So it is in the journal,
and in what the store keeps of that transaction after the first pass, where that payee decides the
account of a placeholder and stands in the register if the posting is the first one shown there. -/
theorem payee_eq {source : String} (hsource : Text.lines source.toList = x.lines) :
    ∃ t span p, ⟨.transaction t, span⟩ ∈ (ofText source today).directives ∧
      t.payee = x.opening.payee ∧ t.postings[x.place]? = some p ∧ p.payee t = x.payeeIn t ∧
    ∀ {σ : Type} {r : Reporter σ} {options : Options} {state : σ} {p : Progress σ},
      runOn (firstPass r (ofText source today).directives) (.empty options) state = (.ok (), p) →
      ∃ s t' y name,
        Filling.Files r ⟨.empty options, [], state⟩ (ofText source today).directives s t t' ∧
        p.store.Holds t' ∧ t'.postings[x.place]? = some y ∧ y.payee t' = x.payeeIn t' ∧
        y.account = .named name ∧
        (∀ root, x.posting.account = .unknown root →
          Store.matched? s.payeeAccounts (x.payeeIn t') = some name) ∧
        ∀ (selection : Selection) (q : Progress Register) entry rest,
          runOn (secondPass (register selection)) p.store .empty = (.ok (), q) →
          options.Covers t'.date → shownPostings selection t'.postings = (y, entry) :: rest →
          ∃ row : RegisterRow, row.entry = (some (t'.date, x.payeeIn t'), entry) ∧
            row.text q.store ∈ q.report.lines := by
  obtain ⟨t, span, p, hmem, hopening, hplace, haccount, hvalue⟩ := x.exists_posting
  rw [ofText_eq, hsource]
  refine ⟨t, span, p, hmem, hopening, hplace, x.payee_of_find? hvalue t, ?_⟩
  intro σ r options state run hfirst
  obtain ⟨before, after, hsplit⟩ := List.append_of_mem hmem
  obtain ⟨-, m, hall, -, hstore⟩ := leads_firstPass.mp hfirst
  have hparts := hall
  rw [hsplit] at hparts
  obtain ⟨m₁, m₂, hbefore, htake, -⟩ := hparts.split
  rcases leads_takeIn htake with ⟨t₀, t', ht₀, hkept, -⟩ | ⟨hother, -⟩
  swap
  · exact absurd rfl (hother t)
  obtain rfl : t = t₀ := Directive.transaction.inj ht₀
  obtain ⟨y, name, hy, hmetadata, hname, hmatched⟩ := Store.exists_of_kept? hkept hplace
  have hpayee : y.payee t' = x.payeeIn t' := x.payee_of_find? (hmetadata ▸ hvalue) t'
  have hfiles : Filling.Files r ⟨.empty options, [], state⟩
      (ofLines today.year x.lines).directives m₁.store t t' :=
    ⟨before, span, after, m₁, hsplit, hbefore, rfl, hkept⟩
  have hholds : run.store.Holds t' := by
    rw [← hstore]
    exact hall.holds_iff.mpr (.inr ⟨_, _, hfiles⟩)
  refine ⟨m₁.store, t', y, name, hfiles, hholds, hy, hpayee, hname, ?_, ?_⟩
  · intro root hroot
    exact hpayee ▸ hmatched root (haccount.trans hroot)
  · intro selection q entry rest hsecond hcovers hshown
    obtain ⟨rows, hlists, hrows⟩ := lists_of_secondPass hfirst hsecond
    have hheading : (some (t'.date, y.payee t'), entry) ∈ t'.rows selection := by
      rw [Transaction.rows, hshown]
      exact List.mem_cons_self
    have hposted : t' ∈ run.store.transactions.values.filter (options.Covers ·.date) :=
      List.mem_filter.mpr ⟨hholds, decide_eq_true hcovers⟩
    obtain ⟨row, hrow, hentry⟩ := List.mem_map.mp
      (hrows ▸ List.mem_flatMap.mpr ⟨t', hposted, hheading⟩)
    refine ⟨row, hentry.trans (by rw [hpayee]), ?_⟩
    rw [hlists.lines]
    exact List.mem_reverse.mpr (List.mem_map_of_mem hrow)

/-- The payee of the note leads to the account, and stands in the register. -/
theorem payee_eq_bar :
    let today : Date := ⟨2024, 6, 1, by decide⟩
    let source := "account Food:Bread\n    payee Bar\n2024/1/1 Shop\n" ++
      " Food:Unknown  1 EUR\n ; payee: Bar\n Cash\n"
    let ds := (ofText source today).directives
    let p := (runOn (firstPass (.silent Unit) ds) (.empty .default) ()).2
    let q := (runOn (secondPass (register none)) p.store .empty).2
    (∃ t span y, ⟨.transaction t, span⟩ ∈ ds ∧ t.postings[0]? = some y ∧ y.payee t = "Bar") ∧
      ∃ t y, p.store.Holds t ∧ t.postings[0]? = some y ∧ y.payee t = "Bar" ∧
        y.account = .named "Food:Bread" ∧ ∃ row : RegisterRow,
          row.heading = some (t.date, "Bar") ∧ row.text q.store ∈ q.report.lines := by
  intro today source ds p q
  let x : PayeeNote today.year :=
    { above := ["account Food:Bread".toList, "    payee Bar".toList]
      first := '2', head := "024/1/1 Shop".toList, before := []
      line := " Food:Unknown  1 EUR".toList, indent := " ".toList
      payee := "Bar".toList, after := [" Cash".toList], below := [], between := []
      opening := .ofPayee ⟨2024, 1, 1, by decide⟩ "Shop"
      posting := { Posting.tally "Food:Unknown" with amount := some (.plain "EUR" .one) }
      read := by decide, digit := by decide, opens := by decide +kernel, posts := by decide +kernel
      indented := by decide +kernel, same := nofun
      spaced := ⟨by decide, List.all_eq_true.mp (by decide)⟩
      solid := ⟨'B', by decide, by decide⟩
      last := by decide +kernel, ends := by decide }
  have hsource : Text.lines source.toList = x.lines := by decide +kernel
  have hpayee : ∀ t, x.payeeIn t = "Bar" := fun t => by
    rw [payeeIn, if_pos (by decide +kernel)]
    decide
  obtain ⟨hfirstOk, hsecondOk, hstored⟩ :
      (runOn (firstPass (.silent Unit) ds) (.empty .default) ()).1.isOk = true ∧
      (runOn (secondPass (register none)) p.store .empty).1.isOk = true ∧
      ∀ t ∈ p.store.transactions.values, Options.default.Covers t.date ∧
        (shownPostings none t.postings).head?.map (·.1) = t.postings[0]? ∧
        t.postings[0]?.map (·.account) = some (.named "Food:Bread") := by decide +kernel
  have hrun : runOn (firstPass (.silent Unit) ds) (.empty .default) () = (.ok (), p) :=
    runOn_eq_ok hfirstOk
  have hsecond : runOn (secondPass (register none)) p.store .empty = (.ok (), q) :=
    runOn_eq_ok hsecondOk
  obtain ⟨t, span, y, hmem, -, hplace, hy, hfirst⟩ := x.payee_eq hsource
  obtain ⟨s, t', y', name, -, hholds, hplace', hy', -, -, hrows⟩ := hfirst hrun
  obtain ⟨hcovers, hshown, haccount⟩ := hstored t' hholds
  have hplace₀ : t'.postings[0]? = some y' := hplace'
  rw [hplace₀] at hshown haccount
  obtain ⟨entry, hentry, hposting⟩ := Option.map_eq_some_iff.mp hshown
  obtain ⟨rest, hrest⟩ := List.head?_eq_some_iff.mp hentry
  obtain ⟨row, hrow, hline⟩ := hrows none q entry.2 rest hsecond hcovers (by rw [hrest, ← hposting])
  refine ⟨⟨t, span, y, hmem, hplace, hy.trans (hpayee t)⟩, t', y', hholds, hplace',
    hy'.trans (hpayee t'), Option.some.inj haccount, row, ?_, hline⟩
  rw [← hpayee t']
  exact congrArg Prod.fst hrow

/-- A number is no payee: the posting has that of its transaction. -/
theorem number_is_no_payee :
    let today : Date := ⟨2024, 6, 1, by decide⟩
    let source := "2024/01/01 Shop\n    Food  1 EUR\n    ; payee: 42\n    Cash\n"
    ∃ t span y, ⟨.transaction t, span⟩ ∈ (ofText source today).directives ∧
      t.postings[0]? = some y ∧ y.payee t = "Shop" ∧ y.payee t ≠ "42" := by
  intro today source
  let x : PayeeNote today.year :=
    { above := [], first := '2', head := "024/01/01 Shop".toList, before := []
      line := "    Food  1 EUR".toList, indent := "    ".toList, payee := "42".toList
      after := ["    Cash".toList], below := [], between := []
      opening := .ofPayee ⟨2024, 1, 1, by decide⟩ "Shop"
      posting := .ofAmount "Food" (.plain "EUR" .one)
      read := by decide, digit := by decide, opens := by decide +kernel, posts := by decide +kernel
      indented := by decide +kernel, same := nofun
      spaced := ⟨by decide, List.all_eq_true.mp (by decide)⟩
      solid := ⟨'4', by decide, by decide⟩
      last := by decide +kernel, ends := by decide }
  have hsource : Text.lines source.toList = x.lines := by decide +kernel
  obtain ⟨t, span, y, hmem, hopening, hplace, -, hvalue⟩ := x.exists_posting
  have hshop : y.payee t = "Shop" := by
    rw [x.payee_of_find? hvalue t, payeeIn, if_neg (by decide +kernel), hopening]
    rfl
  rw [ofText_eq, hsource]
  exact ⟨t, span, y, hmem, hplace, hshop, by rw [hshop]; decide⟩

end Journal.PayeeNote

end Daybook
