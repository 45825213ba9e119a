import Daybook.Proofs.Commodity.ByName

/-!
# The notation of a commodity

`Commodity.Renotes n c c'` says that the second amount is the first one, but that its unit may stand
on the other side of the number if it is `n`. Amounts that have sums have the same ones on either
side (`sums?_onSide`), so that only amounts of `n` on both sides have none.
-/

namespace Daybook

open Commodity (named Agree)

namespace Commodity

/-- The second amount is the first one, written with the unit on either side if that is `n`. -/
def Renotes (n : String) (c c' : Commodity) : Prop :=
  c' = { c with currency := c'.currency } ∧ (c.name ≠ n → c' = c)

/-- The amount with its unit on the given side if that is `n`. -/
def onSide (n : String) (before : Bool) (c : Commodity) : Commodity :=
  if c.name = n then { c with currency := before } else c

variable {n : String} {c c' : Commodity} {before : Bool}

/-! ## One amount -/

theorem Renotes.refl (n : String) (c : Commodity) : Renotes n c c := ⟨rfl, fun _ => rfl⟩

theorem Renotes.name (h : Renotes n c c') : c'.name = c.name := by
  rw [h.1]

theorem Renotes.amount (h : Renotes n c c') : c'.amount = c.amount := by
  rw [h.1]

theorem Renotes.symm (h : Renotes n c c') : Renotes n c' c :=
  ⟨by rw [h.1], fun hname => (h.2 (h.name ▸ hname)).symm⟩

theorem Renotes.invert (h : Renotes n c c') : Renotes n c.invert c'.invert :=
  ⟨by rw [h.1]; rfl, fun hname => by rw [h.2 hname]⟩

@[simp] theorem name_onSide : (c.onSide n before).name = c.name := by
  rw [onSide]
  split <;> rfl

@[simp] theorem isBalanced_onSide : (c.onSide n before).isBalanced = c.isBalanced := by
  rw [onSide]
  split <;> rfl

theorem renotes_onSide (n : String) (before : Bool) (c : Commodity) :
    Renotes n c (c.onSide n before) := by
  rw [onSide]
  split
  case isTrue hname => exact ⟨rfl, fun h => absurd hname h⟩
  case isFalse => exact .refl n c

theorem Renotes.eq_onSide (h : Renotes n c c') (hside : c'.name = n → c'.currency = before) :
    c' = c.onSide n before := by
  rw [onSide]
  split
  case isTrue hname => rw [h.1, hside (h.name.trans hname)]
  case isFalse hname => exact h.2 hname

theorem add_onSide {a b x : Commodity} (h : a.add b = .ok x) :
    (a.onSide n before).add (b.onSide n before) = .ok (x.onSide n before) := by
  obtain ⟨hsim, k, hk, rfl⟩ := add_eq_ok_iff.mp h
  obtain ⟨hname, hcurrency⟩ := isSimilar_iff.mp hsim
  rw [add_eq_ok_iff, isSimilar_iff]
  by_cases ha : a.name = n
  · simp only [onSide, ha, hname ▸ ha, if_true]
    exact ⟨⟨trivial, trivial⟩, k, hk, rfl⟩
  · simp only [onSide, ha, hname ▸ ha, if_false]
    exact ⟨⟨hname, hcurrency⟩, k, hk, rfl⟩

/-! ## Lists of amounts -/

theorem exists_eq_map_onSide {cs cs' : List Commodity} (h : List.Forall₂ (Renotes n) cs cs')
    (hagree : Agree (named n cs')) : ∃ before, cs' = cs.map (onSide n before) := by
  obtain ⟨before, hside⟩ : ∃ before, ∀ c ∈ cs', c.name = n → c.currency = before := by
    cases hnamed : named n cs' with
    | nil =>
      refine ⟨true, fun c hc hname => ?_⟩
      have hmem : c ∈ named n cs' := mem_named.mpr ⟨hc, hname⟩
      exact absurd (hnamed ▸ hmem) List.not_mem_nil
    | cons d _ =>
      have hd : d ∈ named n cs' := hnamed ▸ List.mem_cons_self
      refine ⟨d.currency, fun c hc hname => ?_⟩
      exact hagree c (mem_named.mpr ⟨hc, hname⟩) d hd (hname.trans (mem_named.mp hd).2.symm)
  refine ⟨before, ?_⟩
  induction h with
  | nil => rfl
  | cons hc _ ih =>
    obtain ⟨hfirst, hrest⟩ := List.forall_mem_cons.mp hside
    rw [List.map_cons, ← hc.eq_onSide hfirst]
    congr 1
    refine ih ?_ hrest
    exact hagree.sublist ((List.sublist_cons_self _ _).filter _)

end Commodity

namespace Turnover

open Commodity (onSide)

variable {n : String} {before : Bool}

theorem accumulate_onSide {sums sums' : NameMap Commodity} {c : Commodity}
    (h : accumulate sums c = .ok sums') :
    accumulate (sums.map (onSide n before)) (c.onSide n before) =
      .ok (sums'.map (onSide n before)) := by
  rw [accumulate] at h ⊢
  rw [Commodity.name_onSide, NameMap.find?_map]
  cases hfind : sums.find? c.name with
  | none =>
    rw [hfind] at h
    obtain rfl := Result.pure_eq_ok_iff.mp h
    rw [NameMap.map_insert]
    rfl
  | some sum =>
    rw [hfind] at h
    obtain ⟨x, hx, hsums⟩ := Result.bind_eq_ok_iff.mp h
    obtain rfl := Result.pure_eq_ok_iff.mp hsums
    rw [NameMap.map_insert]
    refine Result.bind_eq_ok_iff.mpr ⟨x.onSide n before, Commodity.add_onSide hx, ?_⟩
    rw [Commodity.name_onSide]
    rfl

theorem foldlM_accumulate_onSide {cs : List Commodity} {sums sums' : NameMap Commodity}
    (h : cs.foldlM accumulate sums = .ok sums') :
    (cs.map (onSide n before)).foldlM accumulate (sums.map (onSide n before)) =
      .ok (sums'.map (onSide n before)) := by
  induction cs generalizing sums with
  | nil =>
    obtain rfl := Result.pure_eq_ok_iff.mp h
    rfl
  | cons c cs ih =>
    rw [List.foldlM_cons, Result.bind_eq_ok_iff] at h
    obtain ⟨next, hnext, hrest⟩ := h
    rw [List.map_cons, List.foldlM_cons, Result.bind_eq_ok_iff]
    exact ⟨_, accumulate_onSide hnext, ih hrest⟩

theorem sums?_onSide {cs : List Commodity} {sums : NameMap Commodity} (h : sums? cs = .ok sums) :
    sums? (cs.map (onSide n before)) = .ok (sums.map (onSide n before)) :=
  foldlM_accumulate_onSide h

end Turnover

end Daybook
