import Daybook.Proofs.Commodity.Parts
import Daybook.Proofs.Decimal.Magnitude
import Mathlib.Algebra.Order.BigOperators.Group.List

/-!
# Amounts in range

Amounts are weighed by their sizes, rounded up to whole numbers, and `load n` is what the weights
under a name come to. A sum by name that is within such a load stays so when an amount is added
(`ensures_accumulate`), and nothing overflows while the loads stay below the limit of the mantissa.
Turnovers and totals are made of such sums.
-/

namespace Daybook

open Decimal (mantissaLimit)
open Result (Ensures)

/-- What the weights under the name come to. -/
def load (n : String) (weights : List (String × Nat)) : Nat :=
  ((weights.filter (·.1 = n)).map (·.2)).sum

/-- Whether the weights under each name stay below the limit of the mantissa. -/
def InLimit (weights : List (String × Nat)) : Prop := ∀ n, load n weights < mantissaLimit

section Load

variable {n : String} {ws vs : List (String × Nat)}

@[simp] theorem load_nil : load n [] = 0 := rfl

@[simp] theorem load_append : load n (ws ++ vs) = load n ws + load n vs := by
  simp [load]

theorem load_cons {w : String × Nat} :
    load n (w :: ws) = (if w.1 = n then w.2 else 0) + load n ws := by
  by_cases h : w.1 = n <;> simp [load, h]

theorem load_singleton {k : Nat} : load n [(n, k)] = k := by
  simp [load_cons]

theorem load_perm (h : ws.Perm vs) : load n ws = load n vs :=
  ((h.filter _).map _).sum_eq

theorem load_le_of_sublist (h : ws.Sublist vs) : load n ws ≤ load n vs :=
  ((h.filter _).map _).sum_le_sum fun _ _ => Nat.zero_le _

theorem inLimit_iff : InLimit ws ↔ ∀ w ∈ ws, load w.1 ws < mantissaLimit := by
  refine ⟨fun h w _ => h w.1, fun h n => ?_⟩
  by_cases hn : ∃ w ∈ ws, w.1 = n
  · obtain ⟨w, hw, rfl⟩ := hn
    exact h w hw
  · have hnone : ws.filter (·.1 = n) = [] :=
      List.filter_eq_nil_iff.mpr fun w hw hname => hn ⟨w, hw, by simpa using hname⟩
    rw [load, hnone]
    decide

instance : Decidable (InLimit ws) := decidable_of_iff _ inLimit_iff.symm

theorem InLimit.mono (h : InLimit vs) (hle : ∀ n, load n ws ≤ load n vs) : InLimit ws :=
  fun n => Nat.lt_of_le_of_lt (hle n) (h n)

end Load

namespace Commodity

/-- The size of the amount, rounded up to a whole number. -/
def wholes (c : Commodity) : Nat := c.amount.wholes

/-- The size of the amount under its name. -/
def weight (c : Commodity) : String × Nat := (c.name, c.wholes)

@[simp] theorem weight_invert (c : Commodity) : c.invert.weight = c.weight := rfl

theorem load_map_weight (n : String) (cs : List Commodity) :
    load n (cs.map weight) = ((named n cs).map wholes).sum := by
  rw [load, named, List.filter_map, List.map_map]
  rfl

theorem ensures_add {a b : Commodity} (h : a.wholes + b.wholes < mantissaLimit) :
    Ensures (fun x => x.wholes ≤ a.wholes + b.wholes ∧ a.name = b.name ∧ x.name = a.name)
      (· ≠ .overflow) (a.add b) := by
  rw [add]
  split
  · rename_i hsimilar
    obtain ⟨n, hn, hwholes⟩ := Decimal.exists_add? h
    rw [hn]
    exact ⟨hwholes, (isSimilar_iff.mp hsimilar).1, rfl⟩
  · exact fun h => by cases h

end Commodity

namespace Turnover

/-- The sums are within the loads of their names. -/
def Bounded (sums : NameMap Commodity) (weights : List (String × Nat)) : Prop :=
  ∀ n c, sums.find? n = some c → c.wholes ≤ load n weights

theorem bounded_empty (weights : List (String × Nat)) : Bounded .empty weights :=
  fun n c h => by simp at h

theorem Bounded.mono {sums : NameMap Commodity} {ws vs : List (String × Nat)}
    (h : Bounded sums ws) (hle : ∀ n, load n ws ≤ load n vs) : Bounded sums vs :=
  fun n c hc => Nat.le_trans (h n c hc) (hle n)

theorem Bounded.insert {sums : NameMap Commodity} {ws : List (String × Nat)} {n : String} {k : Nat}
    {c : Commodity} (h : Bounded sums ws) (hc : c.wholes ≤ load n ws + k) :
    Bounded (sums.insert n c) (ws ++ [(n, k)]) := by
  intro other d hd
  rw [NameMap.find?_insert] at hd
  rw [load_append]
  split at hd
  · rename_i heq
    obtain rfl := Option.some.inj hd
    subst heq
    rwa [load_singleton]
  · exact Nat.le_trans (h other d hd) (Nat.le_add_right _ _)

theorem ensures_accumulate {sums : NameMap Commodity} {ws : List (String × Nat)} {c : Commodity}
    {k : Nat} (h : Bounded sums ws) (hc : c.wholes ≤ k)
    (hlimit : InLimit (ws ++ [(c.name, k)])) :
    Ensures (Bounded · (ws ++ [(c.name, k)])) (· ≠ .overflow) (accumulate sums c) := by
  have hload := hlimit c.name
  rw [load_append, load_singleton] at hload
  rw [accumulate]
  cases hfind : sums.find? c.name with
  | none => exact h.insert (by omega)
  | some sum =>
    have hsum := h c.name sum hfind
    refine (Commodity.ensures_add (by omega)).bind fun x hx => ?_
    obtain ⟨hwholes, hname, -⟩ := hx
    rw [hname]
    exact h.insert (by omega)

/-- All three sums of the turnover are within the loads. -/
structure Within (t : Turnover) (weights : List (String × Nat)) : Prop where
  balances : Bounded t.balances weights
  debits : Bounded t.debits weights
  credits : Bounded t.credits weights

theorem within_empty (weights : List (String × Nat)) : Within .empty weights :=
  ⟨bounded_empty _, bounded_empty _, bounded_empty _⟩

theorem ensures_post {t : Turnover} {ws : List (String × Nat)} {c : Commodity} (h : t.Within ws)
    (hlimit : InLimit (ws ++ [c.weight])) :
    Ensures (Within · (ws ++ [c.weight])) (· ≠ .overflow) (t.post c) := by
  have hmore : ∀ n, load n ws ≤ load n (ws ++ [c.weight]) := fun n => by
    rw [load_append]
    exact Nat.le_add_right _ _
  rw [post_eq]
  refine (ensures_accumulate h.balances (Nat.le_refl _) hlimit).bind fun balances hbalances => ?_
  split
  · refine (ensures_accumulate (c := c.invert) h.credits (Nat.le_refl _) hlimit).bind ?_
    exact fun credits hcredits => ⟨hbalances, h.debits.mono hmore, hcredits⟩
  · refine (ensures_accumulate h.debits (Nat.le_refl _) hlimit).bind ?_
    exact fun debits hdebits => ⟨hbalances, hdebits, h.credits.mono hmore⟩

theorem ensures_foldlM_post {cs : List Commodity} (hlimit : InLimit (cs.map Commodity.weight)) :
    Ensures (fun t : Turnover => t.Within (cs.map Commodity.weight)) (· ≠ .overflow)
      (cs.foldlM post empty) := by
  refine Ensures.foldlM (I := fun done (t : Turnover) => t.Within (done.map Commodity.weight))
    (fun done c t hbegins ht => ?_) (within_empty _)
  have hload := hlimit.mono fun n => load_le_of_sublist (hbegins.sublist.map Commodity.weight)
  rw [List.map_append, List.map_singleton] at hload ⊢
  exact ensures_post ht hload

theorem load_values_le {sums : NameMap Commodity} {ws : List (String × Nat)} (hkeyed : Keyed sums)
    (h : Bounded sums ws) (n : String) : load n (sums.values.map Commodity.weight) ≤ load n ws := by
  rw [Commodity.load_map_weight, named_values hkeyed]
  cases hfind : sums.find? n with
  | none => exact Nat.zero_le _
  | some c => simpa using h n c hfind

end Turnover

theorem Totals.ensures_addAll {t : Totals} {ws : List (String × Nat)} {cs : List Commodity}
    (h : Turnover.Bounded t.sums ws) (hlimit : InLimit (ws ++ cs.map Commodity.weight)) :
    Ensures (fun t => Turnover.Bounded t.sums (ws ++ cs.map Commodity.weight)) (· ≠ .overflow)
      (t.addAll cs) := by
  have hfold : Ensures (Turnover.Bounded · (ws ++ cs.map Commodity.weight)) (· ≠ .overflow)
      (cs.foldlM Turnover.accumulate t.sums) := by
    refine Ensures.foldlM (I := fun done sums =>
      Turnover.Bounded sums (ws ++ done.map Commodity.weight))
      (fun done c sums hbegins hsums => ?_) (by simpa using h)
    have hload := hlimit.mono fun n => load_le_of_sublist
      ((hbegins.sublist.map Commodity.weight).append_left ws)
    rw [List.map_append, List.map_singleton, ← List.append_assoc] at hload ⊢
    exact Turnover.ensures_accumulate hsums (Nat.le_refl _) hload
  rw [addAll_eq]
  exact hfold.bind fun sums hsums => hsums

end Daybook
