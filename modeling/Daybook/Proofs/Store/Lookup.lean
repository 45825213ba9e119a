import Daybook.Proofs.Journal.QuotedNames
import Daybook.Proofs.Report.Format

/-!
# What is found under a name

After a first pass, what was declared last about a commodity and the price that was fixed last for it
are found under the names that the directives have (`Admits.declarations`, `Admits.fixed`), and there
is a sample of every commodity that an amount was in (`Admits.exists_sample`). Main statement: what a
text writes under a name in quotes is recorded and found under the name itself, but for fixed prices,
which keep the quotes, and for prices without a time of day if the name has a colon
(`IsQuotable.recorded_and_found`).
-/

namespace Daybook

/-! ## What directives say of a name -/

namespace Directive

def fixedPrice? (n : String) : Directive → Option Commodity
  | .fixed name c => if name = n then some c else none
  | _ => none

def lastFixedPrice? (n : String) (ds : List (Spanned Directive)) : Option Commodity :=
  (ds.filterMap (·.value.fixedPrice? n)).getLast?

/-- Whether the directive has an amount in `n`, be it a price or the format of a declaration. -/
def Counts (n : String) : Directive → Prop
  | .transaction t => t.Brings n
  | .price x => x.value.name = n
  | .commodity d => d.name = n ∧ d.format.isSome = true
  | _ => False

theorem find?_fixedAfter (d : Directive) (prices : NameMap Commodity) (n : String) :
    (d.fixedAfter prices).find? n = (d.fixedPrice? n).or (prices.find? n) := by
  cases d
  case fixed name c =>
    rw [fixedAfter, NameMap.find?_insert, fixedPrice?]
    split <;> rfl
  all_goals rfl

end Directive

/-! ## The amounts of a kept transaction -/

theorem Posting.values_subset_withAmount {x : Posting} (h : x.isTally = true) (c : Commodity) :
    x.values ⊆ (x.withAmount c).values := by
  intro d hd
  have hnone : x.amount = none := by
    rw [isTally] at h
    simp_all
  simp only [values, withAmount, hnone, Option.toList_none, List.nil_append, List.append_assoc,
    List.mem_append] at hd ⊢
  exact .inr hd

theorem Store.brings_of_kept? {s : Store} {t t' : Transaction} {n : String}
    (h : s.kept? t = .ok t') (hn : t.Brings n) : t'.Brings n := by
  obtain ⟨x, hx, c, hc, hname⟩ := hn
  obtain ⟨u, hkept, hu⟩ := completed_of_kept? h
  obtain ⟨y, hy, hcy⟩ : ∃ y ∈ u.postings, c ∈ y.values := by
    rcases hu with ⟨-, rfl⟩ | ⟨-, -, places, hcompletes⟩
    · exact ⟨x, hx, hc⟩
    · rcases Transaction.mem_of_completes hcompletes hx with hmem | ⟨htally, d, hmem⟩
      · exact ⟨x, hmem, hc⟩
      · exact ⟨_, hmem, Posting.values_subset_withAmount htally d hc⟩
  obtain ⟨account, hmem⟩ := mem_of_kept hkept hy
  refine ⟨_, hmem, s.declaredForm c, ?_, (s.name_declaredForm c).trans hname⟩
  rw [values_keptOn_eq_map]
  exact List.mem_map_of_mem hcy

/-! ## Samples -/

namespace Store

variable {s : Store} {n : String}

theorem isSome_samples_withKept {t t' : Transaction} (h : s.kept? t = .ok t')
    (hn : t.Brings n ∨ (s.samples.find? n).isSome = true) :
    ((s.withKept t t').samples.find? n).isSome = true := by
  rw [(sameUnits_withKept s t t').samples, find?_registerAll_isSome]
  refine hn.imp_left fun hn => ?_
  obtain ⟨x, hx, c, hc, hname⟩ := brings_of_kept? h hn
  exact ⟨c, List.mem_flatMap.mpr ⟨x, hx, hc⟩, hname⟩

theorem isSome_samples_entered {d : Directive} (hd : ∀ t, d ≠ .transaction t)
    (hn : d.Counts n ∨ (s.samples.find? n).isSome = true) :
    ((s.entered d).samples.find? n).isSome = true := by
  cases d
  case transaction t => exact absurd rfl (hd t)
  case price x => exact find?_register_isSome.mpr (hn.imp_left Eq.symm)
  case commodity d =>
    rw [entered, Filling.declareCommodity]
    cases hformat : d.format with
    | none =>
      refine hn.resolve_left fun hcounts => ?_
      have hsome := hcounts.2
      rw [hformat] at hsome
      cases hsome
    | some c => exact find?_register_isSome.mpr (hn.imp_left fun hn => hn.1.symm)
  case account d =>
    rw [(sameUnits_declareAccount s d).samples]
    exact hn.resolve_left id
  all_goals exact hn.resolve_left id

end Store

/-! ## Runs -/

namespace Filling

variable {σ : Type} {r : Reporter σ} {p q : Progress σ} {ds : List (Spanned Directive)}
  {d : Spanned Directive} {n : String}

theorem fixed_of_leads_takeIn {u : Unit} (h : Leads (takeIn r d) p u q) :
    q.store.fixed = d.value.fixedAfter p.store.fixed := by
  by_cases ht : ∃ t, d.value = .transaction t
  · obtain ⟨t, ht⟩ := ht
    rw [takeIn, ht] at h
    obtain ⟨t', -, hq⟩ := leads_admitOne h
    have hsame := Store.sameRules_foldl_note (p.store.noteFirst (p.store.withPayee t)) t'.postings
    rw [ht, hq, hsame]
    rfl
  · rw [takeIn_eq_apply r fun t hvalue => ht ⟨t, hvalue⟩] at h
    exact (leads_apply h).2.2

theorem Admits.fixed (h : Admits r p ds q) : q.store.fixed.find? n =
    (Directive.lastFixedPrice? n ds).or (p.store.fixed.find? n) := by
  induction h with
  | start => rfl
  | @next ds d m q _ hd ih =>
    have hlast : Directive.lastFixedPrice? n (ds ++ [d]) =
        (d.value.fixedPrice? n).or (Directive.lastFixedPrice? n ds) :=
      getLast?_filterMap_concat (fun d : Spanned Directive => d.value.fixedPrice? n) ds d
    rw [fixed_of_leads_takeIn hd, Directive.find?_fixedAfter, ih, hlast, Option.or_assoc]

theorem isSome_samples_of_leads_takeIn {u : Unit} (h : Leads (takeIn r d) p u q)
    (hn : d.value.Counts n ∨ (p.store.samples.find? n).isSome = true) :
    (q.store.samples.find? n).isSome = true := by
  rcases leads_takeIn h with ⟨t, t', hvalue, hkept, hq⟩ | ⟨hvalue, hbooks⟩
  · rw [hq]
    rw [hvalue] at hn
    exact Store.isSome_samples_withKept hkept hn
  · rw [hbooks.sameUnits.samples]
    exact Store.isSome_samples_entered hvalue hn

theorem Admits.isSome_samples (h : Admits r p ds q) (hd : d ∈ ds) (hn : d.value.Counts n) :
    (q.store.samples.find? n).isSome = true := by
  induction h with
  | start => exact absurd hd List.not_mem_nil
  | @next ds x m q _ hx ih =>
    refine isSome_samples_of_leads_takeIn hx ?_
    rcases List.mem_append.mp hd with hd | hd
    · exact .inr (ih hd)
    · obtain rfl := List.mem_singleton.mp hd
      exact .inl hn

theorem Admits.exists_sample (h : Admits r p ds q) (hp : p.store.Coherent) (hd : d ∈ ds)
    (hn : d.value.Counts n) : ∃ c, q.store.samples.find? n = some c ∧ c.name = n := by
  obtain ⟨c, hc⟩ := Option.isSome_iff_exists.mp (h.isSome_samples hd hn)
  exact ⟨c, hc, ((h.coherent hp).samples n c hc).1⟩

end Filling

/-! ## Names in quotes -/

open Daybook.Text

/-- What the journal has of the lines that write the name in quotes: amounts and prices of postings,
declared commodities and prices have the name itself, but fixed prices have it with the quotes, and
a price without a time of day is refused if the name has a colon. -/
structure Journal.Names (year : Int) (lines : List (List Char)) (name : String) : Prop where
  posting {k line r t span kept x} (h : Reaches year lines k line r)
    (hblock : r.block = .transaction t span kept) (hline : Line.Indented line)
    (hwrites : Line.WritesPosting (trim line) r.year x) :
    (∃ t' span', ⟨.transaction t', span'⟩ ∈ (ofLines year lines).directives ∧
      ∃ p ∈ t'.postings, p.Says x.meaning) ∧
    ∀ a ∈ x.amounts, a.Quotes name → ∀ total fixprice,
      ∃ c, a.amount? total fixprice = some c ∧ c.name = name
  declaration {k r} (h : Reaches year lines k (declarationLine name) r)
    (hread : r.block.isVerbatim = false) :
    ∃ d span, ⟨.commodity d, span⟩ ∈ (ofLines year lines).directives ∧ d.name = name
  price {k r date written value d time c}
    (h : Reaches year lines k ('P' :: priceText date written name value) r)
    (hread : r.block.isVerbatim = false) (hne : date ≠ []) (hblank : ∀ x ∈ date, isBlank x = false)
    (hdate : Line.readDate date r.year = .ok d) (htime : WritesTime written time)
    (hvalue : trim value = value) (hamount : Line.readAmount value = .ok c) :
    if written = none ∧ ':' ∈ name.toList then
      ⟨.invalidDate (.invalidTime (String.ofList (inQuotes name))), .line k,
        String.ofList ('P' :: priceText date written name value)⟩ ∈ (ofLines year lines).faults
    else ⟨.price ⟨⟨d, time⟩, name, c⟩, .line k⟩ ∈ (ofLines year lines).directives
  fixed {k r value c} (h : Reaches year lines k (fixedLine name value) r)
    (hread : r.block.isVerbatim = false) (hvalue : trim value = value) (hcomment : ';' ∉ value)
    (hamount : Line.readAmount value = .ok c) :
    ⟨.fixed (String.ofList (inQuotes name)) c, .line k⟩ ∈ (ofLines year lines).directives

theorem IsQuotable.names {name : String} (h : IsQuotable name) (year : Int)
    (lines : List (List Char)) : Journal.Names year lines name where
  posting hreach hblock hline hwrites := by
    obtain ⟨p, hp, hsays⟩ := hwrites.readPosting
    exact ⟨hreach.exists_posting hblock hline hp hsays,
      fun a ha hquotes => hquotes.exists_amount h (hwrites.isReadable a ha)⟩
  declaration {k r} hreach hread := by
    obtain ⟨below, hlines⟩ := hreach.exists_rest
    have hopen : (r.step k (declarationLine name)).block = .commodity (.ofName name) (.line k) := by
      rw [Journal.Reading.step_declaration h hread]
    obtain ⟨d, span, hmem, hname⟩ :=
      Journal.Reading.exists_commodity_of_open hopen (k + 1) below
    rw [hlines]
    exact ⟨d, span, hmem, hname⟩
  price {k r date written value d time c} hreach hread hne hblank hdate htime hvalue hamount := by
    have hprice := Line.readPrice_quoted h hne hblank hdate htime hvalue hamount
    have hstep := Journal.Reading.step_price hread
      (show (priceText date written name value).head?.any isSpacing = true from rfl) k
    rw [hprice] at hstep
    split <;> rename_i hcolon
    · rw [if_pos hcolon] at hstep
      exact hreach.mem_faults (hstep ▸ List.mem_cons_self)
    · rw [if_neg hcolon] at hstep
      exact hreach.mem_directives (hstep ▸ List.mem_cons_self)
  fixed {k r value c} hreach hread hvalue hcomment hamount := by
    refine hreach.mem_directives ?_
    rw [Journal.Reading.step_fixed h hvalue hcomment hamount hread]
    exact List.mem_cons_self

/-- Whether what the directives say of a name is found under it in the store. -/
structure Store.Finds (s : Store) (ds : List (Spanned Directive)) (name : String) : Prop where
  declared : s.declarations.find? name = Directive.lastDeclaration? name ds
  fixed : s.fixed.find? name = Directive.lastFixedPrice? name ds
  sampled : ∀ d ∈ ds, d.value.Counts name → ∃ c, s.samples.find? name = some c ∧ c.name = name

namespace Filling

theorem finds_of_firstPass {σ : Type} {r : Reporter σ} {ds : List (Spanned Directive)}
    {options : Options} {state : σ} {p : Progress σ}
    (h : runOn (firstPass r ds) (.empty options) state = (.ok (), p)) (name : String) :
    p.store.Finds ds name := by
  obtain ⟨-, m, hadmits, -, hp⟩ := leads_firstPass.mp h
  have hcoherent := Store.coherent_empty options
  have hdeclared := hadmits.declarations (n := name)
  have hfixed := hadmits.fixed (n := name)
  rw [← hp]
  refine ⟨?_, ?_, fun d hd hn => hadmits.exists_sample hcoherent hd hn⟩
  · rw [hdeclared]
    exact Option.or_none
  · rw [hfixed]
    exact Option.or_none

end Filling

/-- A name in quotes is recorded without them in amounts, prices and declarations, and what is recorded
under a name is found under it after the first pass; but a fixed price is recorded and found under the
name with its quotes. -/
theorem IsQuotable.recorded_and_found {name : String} (h : IsQuotable name) (source : String)
    (today : Date) :
    Journal.Names today.year (Text.lines source.toList) name ∧
    ∀ {σ : Type} {r : Reporter σ} {options : Options} {state : σ} {p : Progress σ},
      Filling.runOn (Filling.firstPass r (Journal.ofText source today).directives) (.empty options) state =
        (.ok (), p) → ∀ n, p.store.Finds (Journal.ofText source today).directives n :=
  ⟨h.names _ _, fun hrun n => Filling.finds_of_firstPass hrun n⟩

/-- A name with a digit, which can only be written in quotes: bought, declared, with a price and with
a fixed price. -/
theorem IsQuotable.recorded_and_found_btc2 :
    let today : Date := ⟨2024, 6, 1, by decide⟩
    let source := "commodity \"BTC2\"\n2024/1/1 Buy\n Wallet  3 \"BTC2\" @ $ 1\n Cash\n" ++
      "P 2024/1/2 \"BTC2\" $1\nfixed \"BTC2\" $1\n"
    let ds := (Journal.ofText source today).directives
    let s := (Filling.runOn (Filling.firstPass (.silent Unit) ds) (.empty .default) ()).2.store
    (∃ d span, ⟨.commodity d, span⟩ ∈ ds ∧ d.name = "BTC2") ∧
    (∃ t span, ⟨.transaction t, span⟩ ∈ ds ∧ ∃ p ∈ t.postings, ∃ c, p.amount = some c ∧
      c.name = "BTC2") ∧
    ⟨.price ⟨⟨⟨2024, 1, 2, by decide⟩, .midnight⟩, "BTC2", Filling.oneDollar⟩, .line 5⟩ ∈ ds ∧
    ⟨.fixed "\"BTC2\"" Filling.oneDollar, .line 6⟩ ∈ ds ∧
    (∃ d, s.declarations.find? "BTC2" = some d) ∧ (∃ c, s.samples.find? "BTC2" = some c) ∧
    s.fixed.find? "\"BTC2\"" = some Filling.oneDollar := by
  intro today source ds s
  have hquotable : IsQuotable "BTC2" := by decide
  obtain ⟨hnames, hfinds⟩ := hquotable.recorded_and_found source today
  let lines := Text.lines source.toList
  let before (k : Nat) : Journal.Reading := (Journal.Reading.fresh today.year).steps 1 (lines.take k)
  -- The declaration is the first line, the posting the third; the price and the fixed price are the
  -- last two.
  obtain ⟨hdeclaration, hposting, hprice, hfixed, hread, hblock, hyear⟩ :
      lines[0]? = some (declarationLine "BTC2") ∧
      lines[2]? = some " Wallet  3 \"BTC2\" @ $ 1".toList ∧
      lines[4]? = some ('P' :: priceText "2024/1/2".toList none "BTC2" "$1".toList) ∧
      lines[5]? = some (fixedLine "BTC2" "$1".toList) ∧
      (∀ k ∈ [0, 4, 5], (before k).block.isVerbatim = false) ∧
      (before 2).block = .transaction (.ofPayee ⟨2024, 1, 1, by decide⟩ "Buy") (.line 2)
        ["2024/1/1 Buy".toList] ∧
      (before 4).year = 2024 := by decide +kernel
  have hdollar : Line.readAmount "$1".toList = .ok Filling.oneDollar := by decide +kernel
  have hdate : Line.readDate "2024/1/2".toList (before 4).year = .ok ⟨2024, 1, 2, by decide⟩ := by
    rw [hyear]
    decide +kernel
  have hplain : ∀ c ∈ "2024/1/2".toList, isBlank c = false :=
    fun c hc => (Journal.plain_of_all (by decide) c hc).1
  have hdeclared := hnames.declaration (Journal.reaches_of_getElem? hdeclaration)
    (hread 0 (by decide))
  have hpriced := hnames.price (Journal.reaches_of_getElem? hprice) (hread 4 (by decide))
    (by decide) hplain hdate .none (by decide) hdollar
  rw [if_neg (by decide)] at hpriced
  have hfix := hnames.fixed (Journal.reaches_of_getElem? hfixed) (hread 5 (by decide)) (by decide)
    (by decide) hdollar
  have hquotes : String.ofList (inQuotes "BTC2") = "\"BTC2\"" := by decide +kernel
  rw [hquotes] at hfix
  have hline : Text.trim " Wallet  3 \"BTC2\" @ $ 1".toList = boughtText := by decide +kernel
  obtain ⟨⟨t, span, ht, p, hp, hsays, -⟩, hnamed⟩ := hnames.posting
    (Journal.reaches_of_getElem? hposting) hblock (by decide +kernel)
    (hline.symm ▸ Line.writesPosting_bought (before 2).year)
  obtain ⟨c, hc, hname⟩ := hnamed _ List.mem_cons_self rfl false false
  have hamount : p.amount = some c := hsays.trans hc
  -- The store after the first pass.
  obtain ⟨hok, hlast, hlastFixed⟩ :
      (Filling.runOn (Filling.firstPass (.silent Unit) ds) (.empty .default) ()).1.isOk = true ∧
      (Directive.lastDeclaration? "BTC2" ds).isSome = true ∧
      Directive.lastFixedPrice? "\"BTC2\"" ds = some Filling.oneDollar := by decide +kernel
  have hrun : ∀ n, s.Finds ds n := hfinds (Filling.runOn_eq_ok hok)
  have hcounts : (Directive.transaction t).Counts "BTC2" :=
    ⟨p, hp, c, Posting.mem_values_of_amount hamount, hname⟩
  obtain ⟨sample, hsample, -⟩ := (hrun "BTC2").sampled _ ht hcounts
  rw [← (hrun "BTC2").declared] at hlast
  exact ⟨hdeclared, ⟨t, span, ht, p, hp, c, hamount, hname⟩, hpriced, hfix,
    Option.isSome_iff_exists.mp hlast, ⟨sample, hsample⟩, (hrun _).fixed.trans hlastFixed⟩

/-- No price is found under a name whose price has been fixed in quotes, and a name in quotes that has
a colon is taken for a time of day. -/
theorem IsQuotable.fixed_price_not_found :
    let today : Date := ⟨2024, 6, 1, by decide⟩
    let journal := Journal.ofText "fixed \"BTC2\" $1\nP 2024/1/2 \"a:b\" $1\n" today
    let run := Filling.runOn (Filling.firstPass (.silent Unit) journal.directives)
      (.empty .default) ()
    IsQuotable "BTC2" ∧ run.1.isOk = true ∧ run.2.store.fixed.find? "BTC2" = none ∧
      IsQuotable "a:b" ∧ journal.faults.map (·.fault) = [.invalidDate (.invalidTime "\"a:b\"")] :=
  ⟨by decide, by decide +kernel, by decide +kernel, by decide, by decide +kernel⟩

end Daybook
