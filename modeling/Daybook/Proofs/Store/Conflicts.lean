import Daybook.Proofs.Store.Refusals

/-!
# The second pass fails on conflicting notations

Two amounts of one commodity conflict if only one of them has its unit in front. The three sums of
an account each show the notation of what they consist of, so an account refuses an amount for its
notation exactly if a conflicting one has come before it. Hence a second pass, which posts every
amount to a whole path of accounts, fails exactly if two of its amounts conflict and their paths
meet (`secondPass_mismatches_iff`).
-/

namespace Daybook

open AccountName (isWithin)
open Commodity (named total?)

namespace Turnover

theorem conflict_of_accumulate {cs : List Commodity} {sums : NameMap Commodity}
    (hsums : sums? cs = .ok sums) {c x y : Commodity}
    (h : accumulate sums c = .error (.mismatch x y)) :
    ∃ b ∈ cs, b.name = c.name ∧ b.currency ≠ c.currency := by
  rw [accumulate] at h
  cases hfind : sums.find? c.name with
  | none =>
    rw [hfind] at h
    cases h
  | some sum =>
    have hname : sum.name = c.name := keyed_of_sums? hsums c.name sum hfind
    have hadd : sum.add c = .error (.mismatch x y) := by
      rw [hfind] at h
      simpa [Result.bind_eq_error_iff, pure, Except.pure] using h
    have hdiffer : sum.currency ≠ c.currency := by
      intro heq
      have hsimilar := Commodity.isSimilar_iff.mpr ⟨hname, heq⟩
      rw [(Commodity.add_eq_mismatch_iff.mp hadd).1] at hsimilar
      cases hsimilar
    obtain ⟨b, hb, hbname, hcurrency⟩ := exists_similar_of_sums? hsums hfind
    exact ⟨b, hb, hbname, hcurrency ▸ hdiffer⟩

theorem post_eq_error_iff {t : Turnover} {c : Commodity} {e : AmountError} :
    t.post c = .error e ↔ accumulate t.balances c = .error e ∨
      (∃ balances, accumulate t.balances c = .ok balances) ∧
        if c.isNegative then accumulate t.credits c.invert = .error e
        else accumulate t.debits c = .error e := by
  rw [post_eq, Result.bind_eq_error_iff]
  cases c.isNegative <;>
    simp [Result.bind_eq_error_iff, pure, Except.pure]

theorem conflict_of_post {cs : List Commodity} {t : Turnover} (ht : cs.foldlM post empty = .ok t)
    {c x y : Commodity} (h : t.post c = .error (.mismatch x y)) :
    ∃ b ∈ cs, b.name = c.name ∧ b.currency ≠ c.currency := by
  obtain ⟨hbalances, hdebits, hcredits⟩ := sums_of_foldlM_post ht
  rcases post_eq_error_iff.mp h with hrefused | ⟨-, hside⟩
  · exact conflict_of_accumulate hbalances hrefused
  · by_cases hneg : c.isNegative = true
    · rw [if_pos hneg] at hside
      obtain ⟨b, hb, hname, hcurrency⟩ := conflict_of_accumulate hcredits hside
      obtain ⟨d, hd, rfl⟩ := List.mem_map.mp hb
      exact ⟨d, (List.mem_filter.mp hd).1, hname, hcurrency⟩
    · rw [if_neg hneg] at hside
      obtain ⟨b, hb, hname, hcurrency⟩ := conflict_of_accumulate hdebits hside
      exact ⟨b, (List.mem_filter.mp hb).1, hname, hcurrency⟩

end Turnover

theorem mem_countsOn {root : String} {entries : List (String × Commodity)} {c : Commodity} :
    c ∈ countsOn root entries ↔ ∃ e ∈ entries, isWithin e.1 root = true ∧ e.2 = c := by
  simp [countsOn, and_assoc]

namespace Store

/-- Two postings of covered days bring amounts of one commodity, one with the unit in front and one
with the unit behind, to accounts that are the same or have an account above them in common. -/
def Conflicts (s : Store) : Prop :=
  ∃ e₁ ∈ s.covered, ∃ e₂ ∈ s.covered, e₁.2.name = e₂.2.name ∧ e₁.2.currency ≠ e₂.2.currency ∧
    ∃ root, isWithin e₁.1 root = true ∧ isWithin e₂.1 root = true

theorem conflicts_of_refuses {s : Store} (hunposted : s.Unposted) {x y : Commodity}
    (h : s.Refuses s.covered (.mismatch x y)) : s.Conflicts := by
  obtain ⟨before, entry, after, hsplit, root, a, t, ha, hwithin, ht, hrefused⟩ := h
  rw [hunposted root a ha] at ht
  obtain ⟨c, hc, hname, hcurrency⟩ := Turnover.conflict_of_post ht hrefused
  obtain ⟨e, he, hroot, rfl⟩ := mem_countsOn.mp hc
  have hmem : e ∈ s.covered := by
    rw [hsplit]
    exact List.mem_append_left _ he
  have hentry : entry ∈ s.covered := by simp [hsplit]
  exact ⟨e, hmem, entry, hentry, hname, hcurrency, root, hroot, hwithin⟩

theorem not_conflicts_of_posts {s s' : Store} (horderly : s.Orderly)
    (h : Posts { s with stage := .posted } (fun n => countsOn n s.covered) s') :
    ¬s.Conflicts := by
  rintro ⟨e₁, he₁, e₂, he₂, hname, hcurrency, root, hroot₁, hroot₂⟩
  have hselected : e₁ ∈ s.selected.flatMap Transaction.entries := by
    rw [selected_eq horderly]
    exact he₁
  have hpath : root ∈ AccountName.path e₁.1 := AccountName.mem_path_iff.mpr hroot₁
  have hthere := houses_of_mem_selected horderly hselected root hpath
  obtain ⟨a, ha⟩ := Option.isSome_iff_exists.mp hthere
  obtain ⟨t, ht, -⟩ := h.posted root a ha
  rw [horderly.unposted root a ha] at ht
  have hagree := Turnover.agree_of_sums? (Turnover.sums_of_foldlM_post ht).1
  exact hcurrency (hagree e₁.2 (mem_countsOn.mpr ⟨e₁, he₁, hroot₁, rfl⟩) e₂.2
    (mem_countsOn.mpr ⟨e₂, he₂, hroot₂, rfl⟩) hname)

end Store

namespace Filling

variable {σ : Type} {r₁ : Reporter σ} {ds : List (Spanned Directive)} {options : Options}
  {state : σ} {p : Progress σ}

/-- Unless a sum overflows, a second pass fails exactly if two of its amounts conflict, and then
with a mismatch. -/
theorem secondPass_mismatches_iff
    (hfirst : runOn (firstPass r₁ ds) (.empty options) state = (.ok (), p)) :
    let result := (runOn (secondPass (.silent Unit)) p.store ()).1
    result ≠ .error (.amount .overflow) →
      ((∃ x y, result = .error (.amount (.mismatch x y))) ↔ p.store.Conflicts) ∧
      (¬p.store.Conflicts → result = .ok ()) := by
  intro result hrange
  have horderly := orderly_of_firstPass hfirst
  have hrun := secures_secondPass horderly (stage_of_firstPass hfirst)
    (Reporter.watches_silent p.store.covered fun _ => False) ⟨p.store, [], ()⟩ ⟨rfl, trivial⟩
  obtain ⟨hposted, hstopped⟩ := Result.ensures_iff.mp hrun
  cases hresult : result with
  | ok u =>
    have hclear : ¬p.store.Conflicts := Store.not_conflicts_of_posts horderly (hposted u hresult).1
    have hfine : ¬∃ x y, (.ok u : Except LedgerError Unit) = .error (.amount (.mismatch x y)) := by
      rintro ⟨x, y, h⟩
      cases h
    exact ⟨⟨fun h => absurd h hfine, fun h => absurd h hclear⟩, fun _ => rfl⟩
  | error e =>
    obtain ⟨x, y, rfl, hconflicts⟩ : ∃ x y, e = .amount (.mismatch x y) ∧ p.store.Conflicts := by
      rcases hstopped e hresult with ⟨a, rfl, hrefuses⟩ | hnever
      · cases a with
        | mismatch x y => exact ⟨x, y, rfl, Store.conflicts_of_refuses horderly.unposted hrefuses⟩
        | overflow => exact absurd hresult hrange
      · exact hnever.elim
    exact ⟨⟨fun _ => hconflicts, fun _ => ⟨x, y, rfl⟩⟩, fun h => absurd hconflicts h⟩

/-- A dollar in front and a dollar behind meet above the two accounts that they are brought to. -/
theorem secondPass_mismatches_siblings :
    let ds := single [.ofAmount "Assets:Bank" oneDollar,
      { Posting.ofAmount "Assets:Cash" (.plain "$" .one) with kind := .virtual }]
    let p := (runOn (firstPass (.silent Unit) ds) (.empty .default) ()).2
    let result := (runOn (secondPass (.silent Unit)) p.store ()).1
    p.store.Conflicts ∧ ∃ x y, result = .error (.amount (.mismatch x y)) := by
  intro ds p result
  have hfirst : runOn (firstPass (.silent Unit) ds) (.empty .default) () = (.ok (), p) :=
    runOn_eq_ok (by decide +kernel)
  have hrange : result ≠ .error (.amount .overflow) := by decide +kernel
  have hconflicts : p.store.Conflicts :=
    ⟨("Assets:Bank", oneDollar), by decide +kernel, ("Assets:Cash", .plain "$" .one),
      by decide +kernel, rfl, by decide, "Assets", by decide +kernel, by decide +kernel⟩
  exact ⟨hconflicts, (secondPass_mismatches_iff hfirst hrange).1.mpr hconflicts⟩

end Filling

end Daybook
