import Daybook.Proofs.Store.Units

/-!
# How stored amounts are written

A journal that declares no commodities and writes the amounts of each alike is stored so, with one
exception: the first directive that names a commodity is a transaction whose tally posting gets a
zero. Its commodity has no sample yet, so the zero is written with the unit behind the number,
however the journal writes it (`Opens`, `stored_alike_iff`).
-/

namespace Daybook

open Commodity (named total?)
open Posting (costs)

namespace Transaction

/-- Whether a tally posting gets a zero, and the first amount has the unit before its number. -/
def Zeroes (t : Transaction) : Prop :=
  t.requiresBalance = true ∧ (∃ x ∈ t.postings, x.isTally = true) ∧ t.imbalance = .ok [] ∧
    ∃ c, t.postings.findSome? (·.amount) = some c ∧ c.currency = true

theorem mem_of_completes {t u : Transaction} {bucket : Option String} {unit : Commodity}
    {places : List Nat} (h : t.Completes bucket unit u places) {x : Posting} (hx : x ∈ t.postings) :
    x ∈ u.postings ∨ x.isTally = true ∧ ∃ c, x.withAmount c ∈ u.postings := by
  cases h with
  | lone hone =>
    rw [hone, List.mem_singleton] at hx
    exact .inl (by simp [hx])
  | @tally before after y sums hparts _ hy =>
    rw [hparts] at hx
    simp only [List.mem_append, List.mem_cons] at hx
    rcases hx with hx | rfl | hx
    · exact .inl (by simp [hx])
    · exact .inr ⟨hy, unit.offset sums, by simp⟩
    · exact .inl (by simp [hx])
  | whole => exact .inl hx

theorem exists_amount_of_completes {t u : Transaction} {bucket : Option String} {unit : Commodity}
    {places : List Nat} (h : t.Completes bucket unit u places) :
    ∃ x ∈ t.postings, x.isTally = false := by
  cases h with
  | @lone x account cost hone _ hcost =>
    exact ⟨x, by simp [hone], Posting.isTally_of_cost? hcost⟩
  | @tally before after y sums hparts hne _ hrest =>
    obtain ⟨x, hx⟩ := List.exists_mem_of_ne_nil _ hne
    refine ⟨x, ?_, hrest x hx⟩
    rw [hparts]
    simp only [List.mem_append, List.mem_cons] at hx ⊢
    exact hx.imp_right .inr
  | @whole sums hlength hall =>
    obtain ⟨x, hx⟩ := List.exists_mem_of_length_pos (show 0 < t.postings.length by omega)
    exact ⟨x, hx, hall x hx⟩

end Transaction

namespace Posting

variable {w : String → Bool}

theorem mem_values_of_amount {x : Posting} {c : Commodity} (h : x.amount = some c) :
    c ∈ x.values := by
  simp [values, h]

theorem mem_values_of_price? {x : Posting} {c : Commodity} (h : x.price? = some c) :
    c ∈ x.values := by
  rw [price?, Option.or_eq_some_iff] at h
  rcases h with h | ⟨-, h⟩ <;> simp [values, h]

theorem writtenAs_withAmount {x : Posting} (h : x.WrittenAs w) {c : Commodity}
    (hc : c.WrittenAs w) : (x.withAmount c).WrittenAs w := by
  intro d hd
  simp only [values, withAmount, Option.toList_some, List.append_assoc, List.mem_append,
    List.mem_singleton] at hd
  rcases hd with rfl | hd
  · exact hc
  · exact h d (by simp only [values, List.append_assoc, List.mem_append]; exact .inr hd)

theorem writtenAs_cost {x : Posting} (h : x.WrittenAs w) {c : Commodity}
    (hc : x.cost? = .ok (some c)) : c.WrittenAs w := by
  obtain ⟨d, hd, hname, hcurrency⟩ := similar_of_cost? hc
  rw [Commodity.WrittenAs, hname, hcurrency]
  rcases Option.or_eq_some_iff.mp hd with hprice | ⟨-, hamount⟩
  · exact h d (mem_values_of_price? hprice)
  · exact h d (mem_values_of_amount hamount)

theorem writtenAs_costs {xs : List Posting} (h : ∀ x ∈ xs, x.WrittenAs w) {cs : List Commodity}
    (hcs : costs xs = .ok cs) : ∀ c ∈ cs, c.WrittenAs w := by
  induction xs generalizing cs with
  | nil =>
    obtain rfl := Except.ok.inj hcs
    exact fun c hc => absurd hc List.not_mem_nil
  | cons x xs ih =>
    obtain ⟨cost, rest, hcost, hrest, rfl⟩ := costs_cons_eq_ok_iff.mp hcs
    intro c hc
    rcases List.mem_append.mp hc with hc | hc
    · obtain rfl : cost = some c := by simpa using hc
      exact writtenAs_cost (h x (by simp)) hcost
    · exact ih (fun y hy => h y (by simp [hy])) hrest c hc

end Posting

theorem Transaction.writtenAs_imbalance {w : String → Bool} {t : Transaction}
    (h : t.WrittenAs w) {sums : List Commodity} (hsums : t.imbalance = .ok sums) :
    ∀ sum ∈ sums, sum.WrittenAs w := by
  obtain ⟨cs, -, hcs, -⟩ := imbalance_eq_ok_iff.mp hsums
  intro sum hsum
  obtain ⟨c, hc, hname, hcurrency⟩ := exists_similar_of_mem_imbalance hcs hsums hsum
  rw [Commodity.WrittenAs, ← hname, ← hcurrency]
  exact Posting.writtenAs_costs h hcs c hc

/-- Whether the amounts that the postings bring to accounts are written as `w` says. -/
def Transaction.AmountsWrittenAs (w : String → Bool) (t : Transaction) : Prop :=
  ∀ x ∈ t.postings, ∀ c, x.amount = some c → c.WrittenAs w

namespace Store

variable {w : String → Bool} {s : Store} {t t' : Transaction}

theorem mem_of_kept {xs ys : List Posting} (h : s.Kept xs ys) {x : Posting} (hx : x ∈ xs) :
    ∃ name, s.keptOn name x ∈ ys := by
  induction h with
  | nil => exact absurd hx List.not_mem_nil
  | @cons y z xs ys hyz _ ih =>
    obtain ⟨name, rfl⟩ := hyz
    rcases List.mem_cons.mp hx with rfl | hx
    · exact ⟨name, by simp⟩
    · obtain ⟨name', hmem⟩ := ih hx
      exact ⟨name', by simp [hmem]⟩

theorem exists_of_mem_kept {xs ys : List Posting} (h : s.Kept xs ys) {y : Posting} (hy : y ∈ ys) :
    ∃ name, ∃ x ∈ xs, y = s.keptOn name x := by
  induction h with
  | nil => exact absurd hy List.not_mem_nil
  | @cons x z xs ys hxz _ ih =>
    rcases List.mem_cons.mp hy with rfl | hy
    · obtain ⟨name, rfl⟩ := hxz
      exact ⟨name, x, by simp, rfl⟩
    · obtain ⟨name, x', hx', rfl⟩ := ih hy
      exact ⟨name, x', by simp [hx'], rfl⟩

/-- The commodity of a zero is written as it should be, unless it has no sample yet and its first
amount has the unit before the number. -/
theorem unit_writtenAs (h : s.Plain w) (ht : t.WrittenAs w)
    (hsome : ∃ x ∈ t.postings, x.isTally = false)
    (hok : s.firstName = none → ∀ c, t.postings.findSome? (·.amount) = some c →
      c.currency = false) : ((s.noteFirst t).unit).WrittenAs w := by
  have hdefault : (s.noteFirst t).defaultName = none := h.defaultless
  rw [unit, hdefault, Option.none_or]
  have hsample : ∀ n sample, s.samples.find? n = some sample →
      (sample.similar .zero).WrittenAs w := fun n sample hfind => (h.samples n sample hfind).2
  cases hname : s.firstName with
  | some n =>
    obtain ⟨sample, hfind⟩ := Option.isSome_iff_exists.mp (h.first n hname)
    have hfirst : (s.noteFirst t).firstName = some n := by rw [noteFirst, hname, Option.some_or]
    have hfind' : (s.noteFirst t).samples.find? n = some sample := hfind
    simp only [hfirst, hfind']
    exact hsample n sample hfind
  | none =>
    obtain ⟨x, hx, hamount⟩ := hsome
    obtain ⟨c, hc⟩ : ∃ c, t.postings.findSome? (·.amount) = some c := by
      rw [← Option.isSome_iff_exists, List.findSome?_isSome_iff]
      exact ⟨x, hx, by simpa [Posting.isTally, Option.isSome_iff_ne_none] using hamount⟩
    have hfirst : (s.noteFirst t).firstName = some c.name := by
      rw [noteFirst, hname, hc]
      rfl
    simp only [hfirst]
    cases hfind : (s.noteFirst t).samples.find? c.name with
    | some sample => exact hsample c.name sample hfind
    | none =>
      obtain ⟨y, hy, hcy⟩ := List.exists_of_findSome?_eq_some hc
      have hwritten := ht y hy c (Posting.mem_values_of_amount hcy)
      have hundeclared : (s.noteFirst t).declarations = .empty := h.undeclared
      rw [Commodity.WrittenAs, hok hname c hc] at hwritten
      rw [hundeclared]
      exact hwritten

/-- What is kept is written as the journal writes it, unless a zero comes first. -/
theorem writtenAs_of_kept? (h : s.Plain w) (ht : t.WrittenAs w) (hkept : s.kept? t = .ok t')
    (hok : s.firstName = none → ¬t.Zeroes) : t'.WrittenAs w := by
  obtain ⟨u, hpostings, hu⟩ := completed_of_kept? hkept
  suffices hwritten : u.WrittenAs w by
    intro y hy c hc
    obtain ⟨name, x, hx, rfl⟩ := exists_of_mem_kept hpostings hy
    rw [values_keptOn h.undeclared] at hc
    exact hwritten x hx c hc
  rcases hu with ⟨-, rfl⟩ | ⟨hrequires, -, places, hcompletes⟩
  · exact ht
  · have hsome := Transaction.exists_amount_of_completes hcompletes
    cases hcompletes with
    | @lone x account cost hone _ hcost =>
      have hx : x.WrittenAs w := ht x (by simp [hone])
      intro y hy
      simp only [List.mem_cons, List.not_mem_nil, or_false] at hy
      rcases hy with rfl | rfl
      · exact hx
      · intro c hc
        obtain rfl : c = cost.invert := by
          simpa [Posting.values, Posting.ofAmount, Posting.tally] using hc
        have hwritten := Posting.writtenAs_cost hx hcost
        exact hwritten
    | @tally before after x sums hparts _ hx _ hsums =>
      have hwritten := Transaction.writtenAs_imbalance ht hsums
      have hx' : x.WrittenAs w := ht x (by simp [hparts])
      have hoffset : ((s.noteFirst t).unit.offset sums).WrittenAs w := by
        cases sums with
        | nil =>
          refine unit_writtenAs h ht hsome fun hname c hc => ?_
          by_contra hcurrency
          have htally : ∃ x ∈ t.postings, x.isTally = true := ⟨x, by simp [hparts], hx⟩
          exact hok hname ⟨hrequires, htally, hsums, c, hc, by simpa using hcurrency⟩
        | cons sum sums => exact hwritten sum (by simp)
      intro y hy
      simp only [Posting.furtherOffsets, List.append_assoc, List.cons_append, List.mem_append,
        List.mem_cons, List.mem_map] at hy
      rcases hy with hy | rfl | hy | ⟨sum, hsum, rfl⟩
      · exact ht y (by simp [hparts, hy])
      · exact Posting.writtenAs_withAmount hx' hoffset
      · exact ht y (by simp [hparts, hy])
      · exact Posting.writtenAs_withAmount hx' (hwritten sum (List.mem_of_mem_tail hsum))
    | whole => exact ht

theorem exists_mem_of_kept? (h : s.declarations = .empty) (hkept : s.kept? t = .ok t') {x : Posting}
    (hx : x ∈ t.postings) : ∃ y ∈ t'.postings, y.values = x.values ∨
      x.isTally = true ∧ ∃ c, y.values = (x.withAmount c).values := by
  obtain ⟨u, hpostings, hu⟩ := completed_of_kept? hkept
  have hmem : x ∈ u.postings ∨ x.isTally = true ∧ ∃ c, x.withAmount c ∈ u.postings := by
    rcases hu with ⟨-, rfl⟩ | ⟨-, -, places, hcompletes⟩
    · exact .inl hx
    · exact Transaction.mem_of_completes hcompletes hx
  rcases hmem with hu | ⟨htally, c, hu⟩
  · obtain ⟨name, hmem⟩ := mem_of_kept hpostings hu
    exact ⟨_, hmem, .inl (values_keptOn h name x)⟩
  · obtain ⟨name, hmem⟩ := mem_of_kept hpostings hu
    exact ⟨_, hmem, .inr ⟨htally, c, values_keptOn h name (x.withAmount c)⟩⟩

theorem exists_value_of_kept? (h : s.declarations = .empty) (hkept : s.kept? t = .ok t')
    {c : Commodity} (hc : t.postings.findSome? (·.amount) = some c) :
    ∃ d ∈ t'.postings.flatMap Posting.values, d.name = c.name := by
  obtain ⟨x, hx, hamount⟩ := List.exists_of_findSome?_eq_some hc
  obtain ⟨y, hy, hvalues | ⟨htally, -⟩⟩ := exists_mem_of_kept? h hkept hx
  · refine ⟨c, List.mem_flatMap.mpr ⟨y, hy, ?_⟩, rfl⟩
    rw [hvalues]
    exact Posting.mem_values_of_amount hamount
  · simp [Posting.isTally, hamount] at htally

theorem values_eq_nil_iff_of_kept? (h : s.declarations = .empty) (hkept : s.kept? t = .ok t') :
    t'.postings.flatMap Posting.values = [] ↔ ∀ x ∈ t.postings, x.values = [] := by
  constructor
  · intro hnil x hx
    obtain ⟨y, hy, hvalues⟩ := exists_mem_of_kept? h hkept hx
    have hynil : y.values = [] := List.flatMap_eq_nil_iff.mp hnil y hy
    rcases hvalues with hvalues | ⟨-, c, hvalues⟩
    · rw [← hvalues, hynil]
    · rw [hvalues] at hynil
      simp [Posting.values, Posting.withAmount] at hynil
  · intro hnil
    obtain ⟨u, hpostings, hu⟩ := completed_of_kept? hkept
    refine List.flatMap_eq_nil_iff.mpr fun y hy => ?_
    obtain ⟨name, x, hx, rfl⟩ := exists_of_mem_kept hpostings hy
    rw [values_keptOn h]
    rcases hu with ⟨-, rfl⟩ | ⟨-, -, places, hcompletes⟩
    · exact hnil x hx
    · obtain ⟨z, hz, hamount⟩ := Transaction.exists_amount_of_completes hcompletes
      have hnone := hnil z hz
      rw [Posting.isTally, Option.isNone_eq_false_iff, Option.isSome_iff_exists] at hamount
      obtain ⟨c, hc⟩ := hamount
      simp [Posting.values, hc] at hnone

theorem unit_of_fresh (h : s.Fresh) {c : Commodity}
    (hc : t.postings.findSome? (·.amount) = some c) :
    (s.noteFirst t).unit = .plain c.name .zero := by
  have hdefault : (s.noteFirst t).defaultName = none := h.defaultless
  have hfirst : (s.noteFirst t).firstName = some c.name := by
    rw [noteFirst, h.first, hc]
    rfl
  have hsample : (s.noteFirst t).samples.find? c.name = none := by
    show s.samples.find? c.name = none
    rw [h.samples, NameMap.find?_empty]
  have hundeclared : (s.noteFirst t).declarations = .empty := h.undeclared
  simp [unit, hdefault, hfirst, hsample, hundeclared, Commodity.plain]

/-- A transaction with a tally posting that has to balance is completed at the tally posting. -/
theorem exists_withAmount_of_kept? (hkept : s.kept? t = .ok t')
    (hrequires : t.requiresBalance = true) {x : Posting} (hx : x ∈ t.postings)
    (htally : x.isTally = true) {sums : List Commodity} (hsums : t.imbalance = .ok sums) :
    ∃ name, ∃ y : Posting,
      s.keptOn name (y.withAmount (.offset (s.noteFirst t).unit sums)) ∈ t'.postings := by
  obtain ⟨u, hpostings, ⟨hasis, -⟩ | ⟨-, -, places, hcompletes⟩⟩ := completed_of_kept? hkept
  · rw [hrequires] at hasis
    have hall := (Transaction.isBalanced_eq_true_iff.mp (hasis.resolve_left (by simp))).1
    rw [hall x hx] at htally
    simp at htally
  · cases hcompletes with
    | @lone y account cost hone _ hcost =>
      rw [hone, List.mem_singleton] at hx
      rw [hx, Posting.isTally_of_cost? hcost] at htally
      simp at htally
    | @tally before after y sums' hparts _ _ _ hsums' =>
      obtain rfl := Except.ok.inj (hsums.symm.trans hsums')
      obtain ⟨name, hmem⟩ := mem_of_kept hpostings
        (show y.withAmount ((s.noteFirst t).unit.offset sums) ∈ _ by simp)
      exact ⟨name, y, hmem⟩
    | @whole sums' _ hall =>
      rw [hall x hx] at htally
      simp at htally

theorem not_writtenAs_of_zeroes (h : s.Fresh) (ht : t.WrittenAs w) (hzero : t.Zeroes)
    (hkept : s.kept? t = .ok t') :
    ∃ y ∈ t'.postings, ∃ c, y.amount = some c ∧ ¬c.WrittenAs w := by
  obtain ⟨hrequires, ⟨x, hx, htally⟩, hsums, c, hc, hcurrency⟩ := hzero
  obtain ⟨z, hz, hcz⟩ := List.exists_of_findSome?_eq_some hc
  have hwritten : c.currency = w c.name := ht z hz c (Posting.mem_values_of_amount hcz)
  obtain ⟨name, y, hmem⟩ := exists_withAmount_of_kept? hkept hrequires hx htally hsums
  refine ⟨_, hmem, s.declaredForm ((s.noteFirst t).unit.similar .zero), rfl, ?_⟩
  rw [declaredForm_of_undeclared h.undeclared, unit_of_fresh h hc]
  intro hzero
  have hfalse : false = w c.name := hzero
  rw [← hwritten, hcurrency] at hfalse
  simp at hfalse

end Store

namespace Filling

variable {σ : Type} {w : String → Bool} {r : Reporter σ} {p q : Progress σ}
  {ds : List (Spanned Directive)}

/-- Whether the transaction is the first directive that names a commodity, and fills a zero in. -/
def Opens (ds : List (Spanned Directive)) (t : Transaction) : Prop :=
  ∃ before span after, ds = before ++ ⟨.transaction t, span⟩ :: after ∧
    (∀ d ∈ before, d.value.NamesNothing) ∧ t.Zeroes

theorem Opens.append {t : Transaction} (h : Opens ds t) (more : List (Spanned Directive)) :
    Opens (ds ++ more) t := by
  obtain ⟨before, span, after, rfl, hbefore, hzero⟩ := h
  exact ⟨before, span, after ++ more, by simp, hbefore, hzero⟩

theorem Admits.fresh (h : Admits r p ds q) (hp : p.store.Fresh)
    (hds : ∀ d ∈ ds, d.value.NamesNothing) : q.store.Fresh := by
  induction h with
  | start => exact hp
  | @next ds d m q _ hd ih =>
    have hm := ih fun x hx => hds x (by simp [hx])
    have hnothing := hds d (by simp)
    rcases leads_takeIn hd with ⟨t, t', hvalue, hkept, hq⟩ | ⟨hvalue, hbooks⟩
    · rw [hvalue] at hnothing
      have hamount : t.postings.findSome? (·.amount) = none := by
        rw [List.findSome?_eq_none_iff]
        intro x hx
        have hx' := hnothing x hx
        by_contra hsome
        obtain ⟨c, hc⟩ := Option.ne_none_iff_exists'.mp hsome
        simp [Posting.values, hc] at hx'
      have hfresh := Store.fresh_withKept hm hamount
        ((Store.values_eq_nil_iff_of_kept? hm.undeclared hkept).mpr hnothing)
      rw [hq]
      exact ⟨hfresh.undeclared, hfresh.defaultless, hfresh.samples, hfresh.first⟩
    · exact (Store.fresh_entered hm hnothing hvalue).sameUnits hbooks.sameUnits

/-- What a run has to keep for amounts to be stored as the journal writes them. -/
structure Alike (w : String → Bool) (ds : List (Spanned Directive)) (s : Store) : Prop where
  plain : s.Plain w
  named : s.firstName = none → ∀ d ∈ ds, d.value.NamesNothing
  stored : ∀ t, s.Holds t → t.WrittenAs w

theorem alike_of_transaction {d : Spanned Directive} {t t' : Transaction} {s : Store}
    (h : Alike w ds s) (hvalue : d.value = .transaction t) (ht : t.WrittenAs w)
    (hopen : ¬Opens (ds ++ [d]) t) (hkept : s.kept? t = .ok t') :
    Alike w (ds ++ [d]) (s.withKept t t') := by
  have hok : s.firstName = none → ¬t.Zeroes := fun hnone hzero =>
    hopen ⟨ds, d.span, [], by rw [← hvalue], h.named hnone, hzero⟩
  have ht' := Store.writtenAs_of_kept? h.plain ht hkept hok
  refine ⟨Store.plain_withKept h.plain ht' fun c hc =>
    Store.exists_value_of_kept? h.plain.undeclared hkept hc, fun hnone x hx => ?_, fun x hx => ?_⟩
  · rw [Store.firstName_withKept, Option.or_eq_none_iff, Store.noteFirst, Option.or_eq_none_iff,
      Option.map_eq_none_iff (x := List.head? _), List.head?_eq_none_iff] at hnone
    rcases List.mem_append.mp hx with hx | hx
    · exact h.named hnone.1.1 x hx
    · rw [List.mem_singleton.mp hx, hvalue]
      exact (Store.values_eq_nil_iff_of_kept? h.plain.undeclared hkept).mp hnone.2
  · rcases (Store.holds_insert s _ _ x).mp hx with hx | rfl
    · exact h.stored x hx
    · exact ht'

theorem alike_of_other {d : Spanned Directive} {s s' : Store} (h : Alike w ds s)
    (hvalue : ∀ t, d.value ≠ .transaction t) (hd : d.value.WrittenAs w)
    (hbooks : Store.SameBooks (s.entered d.value) s') : Alike w (ds ++ [d]) s' := by
  have hunits := hbooks.sameUnits
  have htransactions : s'.transactions = s.transactions := by
    rw [hbooks, Store.transactions_entered]
  refine ⟨(Store.plain_entered h.plain hd hvalue).sameUnits hunits, fun hnone x hx => ?_,
    fun t ht => ?_⟩
  · rw [hunits.firstName] at hnone
    obtain ⟨hnone, hnothing⟩ := Store.firstName_entered_eq_none d.value hvalue hd hnone
    rcases List.mem_append.mp hx with hx | hx
    · exact h.named hnone x hx
    · rwa [List.mem_singleton.mp hx]
  · rw [Store.Holds, htransactions] at ht
    exact h.stored t ht

/-- Amounts are stored as the journal writes them as long as it does not open on a zero. -/
theorem Admits.alike (h : Admits r p ds q) (hp : Alike w [] p.store)
    (hds : ∀ d ∈ ds, d.value.WrittenAs w) (hopen : ∀ t, ¬Opens ds t) : Alike w ds q.store := by
  induction h with
  | start => exact hp
  | @next ds d m q _ hd ih =>
    have hm := ih (fun x hx => hds x (by simp [hx])) fun t ht => hopen t (ht.append [d])
    have hwritten := hds d (by simp)
    rcases leads_takeIn hd with ⟨t, t', hvalue, hkept, hq⟩ | ⟨hvalue, hbooks⟩
    · rw [hvalue] at hwritten
      have hkeeps := alike_of_transaction hm hvalue hwritten (hopen t) hkept
      rw [hq]
      exact ⟨hkeeps.plain.sameUnits ⟨rfl, rfl, rfl, rfl⟩, hkeeps.named, hkeeps.stored⟩
    · exact alike_of_other hm hvalue hwritten hbooks

/-- In a journal without commodity declarations that writes the amounts of each commodity alike, all
amounts are stored so if and only if it does not open on a zero. -/
theorem stored_alike_iff {options : Options} {state : σ}
    (hrun : runOn (firstPass r ds) (.empty options) state = (.ok (), q))
    (hds : ∀ d ∈ ds, d.value.WrittenAs w) :
    (∀ t, q.store.Holds t → t.AmountsWrittenAs w) ↔ ∀ t, ¬Opens ds t := by
  obtain ⟨-, m, hadmits, -, rfl⟩ := leads_firstPass.mp hrun
  constructor
  · rintro hall t ⟨before, span, after, rfl, hbefore, hzero⟩
    obtain ⟨m₁, m₂, hfirst, hd, -⟩ := hadmits.split
    have hfresh := hfirst.fresh (Store.fresh_empty options) hbefore
    rcases leads_takeIn hd with ⟨u, t', hvalue, hkept, -⟩ | ⟨hvalue, -⟩
    · obtain rfl := Directive.transaction.inj hvalue
      have hwritten := hds ⟨.transaction t, span⟩ (by simp)
      obtain ⟨y, hy, c, hc, hnot⟩ := Store.not_writtenAs_of_zeroes hfresh hwritten hzero hkept
      have hholds : m.store.Holds t' :=
        hadmits.holds_iff.mpr (.inr ⟨m₁.store, t, before, span, after, m₁, rfl, hfirst, rfl, hkept⟩)
      exact hnot (hall t' hholds y hy c hc)
    · exact hvalue t rfl
  · intro hopen t ht x hx c hc
    have hstart : Alike w [] (Store.empty options) :=
      ⟨Store.plain_empty w options, fun _ d hd => absurd hd List.not_mem_nil,
        fun t ht => absurd ht List.not_mem_nil⟩
    exact (hadmits.alike hstart hds hopen).stored t ht x hx c (Posting.mem_values_of_amount hc)

end Filling

end Daybook
