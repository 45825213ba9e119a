import Daybook.Timeline

/-!
# Ranges of a timeline

The entries between two moments stand together, because a timeline is sorted: a range is found by
skipping and stopping, and is what a look at every single entry would select (`range_eq_filter`).
-/

namespace Daybook.Timeline

variable {α β : Type}

theorem takeWhile_eq_filter {p : α → Bool} {l : List α}
    (h : l.Pairwise fun a b => p b = true → p a = true) : l.takeWhile p = l.filter p := by
  induction l with
  | nil => rfl
  | cons a l ih =>
    obtain ⟨ha, hl⟩ := List.pairwise_cons.mp h
    cases hp : p a with
    | true => rw [List.takeWhile_cons_of_pos hp, List.filter_cons_of_pos hp, ih hl]
    | false =>
      have hnone : l.filter p = [] :=
        List.filter_eq_nil_iff.mpr fun b hb hpb => by simp [ha b hb hpb] at hp
      rw [List.takeWhile_cons_of_neg (by simp [hp]), List.filter_cons_of_neg (by simp [hp]), hnone]

theorem dropWhile_not_eq_filter {p : α → Bool} {l : List α}
    (h : l.Pairwise fun a b => p a = true → p b = true) :
    l.dropWhile (fun a => !p a) = l.filter p := by
  induction l with
  | nil => rfl
  | cons a l ih =>
    obtain ⟨ha, hl⟩ := List.pairwise_cons.mp h
    cases hp : p a with
    | true =>
      have hall : l.filter p = l := List.filter_eq_self.mpr fun b hb => ha b hb hp
      rw [List.dropWhile_cons_of_neg (by simp [hp]), List.filter_cons_of_pos hp, hall]
    | false =>
      rw [List.dropWhile_cons_of_pos (by simp [hp]), List.filter_cons_of_neg (by simp [hp]), ih hl]

theorem isAbove_mono {inclusivity : Inclusivity} {low : Option Moment} {a b : Moment}
    (hab : a.instant ≤ b.instant) (h : isAbove inclusivity low a = true) :
    isAbove inclusivity low b = true := by
  cases low with
  | none => rfl
  | some l =>
    simp only [isAbove] at h ⊢
    split at h
    case isTrue hlow =>
      rw [if_pos hlow]
      exact decide_eq_true (Int.le_trans (of_decide_eq_true h) hab)
    case isFalse hlow =>
      rw [if_neg hlow]
      exact decide_eq_true (Int.lt_of_lt_of_le (of_decide_eq_true h) hab)

theorem isBelow_mono {inclusivity : Inclusivity} {high : Option Moment} {a b : Moment}
    (hab : a.instant ≤ b.instant) (h : isBelow inclusivity high b = true) :
    isBelow inclusivity high a = true := by
  cases high with
  | none => rfl
  | some u =>
    simp only [isBelow] at h ⊢
    split at h
    case isTrue hhigh =>
      rw [if_pos hhigh]
      exact decide_eq_true (Int.le_trans hab (of_decide_eq_true h))
    case isFalse hhigh =>
      rw [if_neg hhigh]
      exact decide_eq_true (Int.lt_of_le_of_lt hab (of_decide_eq_true h))

theorem range_eq_filter (t : Timeline α) (low high : Option Moment) (inclusivity : Inclusivity) :
    t.range low high inclusivity = t.entries.filter fun e =>
      isAbove inclusivity low e.1 && isBelow inclusivity high e.1 := by
  have habove := @dropWhile_not_eq_filter (Moment × α) (fun e => isAbove inclusivity low e.1) _
    (t.sorted.imp fun hab ha => isAbove_mono hab ha)
  have hbelow : (t.entries.filter fun e => isAbove inclusivity low e.1).Pairwise fun a b =>
      isBelow inclusivity high b.1 = true → isBelow inclusivity high a.1 = true :=
    (t.sorted.sublist List.filter_sublist).imp fun hab hb => isBelow_mono hab hb
  rw [range, habove, takeWhile_eq_filter hbelow, List.filter_filter]
  exact List.filter_congr fun e _ => Bool.and_comm _ _

/-! ## Changing the values -/

def map (f : α → β) (t : Timeline α) : Timeline β :=
  ⟨t.entries.map fun e => (e.1, f e.2), by
    simp only [List.pairwise_map]
    exact t.sorted⟩

theorem map_place (f : α → β) (m : Moment) (value : α) (l : List (Moment × α)) :
    (place m value l).map (fun e => (e.1, f e.2)) =
      place m (f value) (l.map fun e => (e.1, f e.2)) := by
  induction l with
  | nil => rfl
  | cons e l ih =>
    simp only [place, List.map_cons]
    split
    · rw [List.map_cons, ih]
    · rfl

theorem map_insert (f : α → β) (t : Timeline α) (m : Moment) (value : α) :
    (t.insert m value).map f = (t.map f).insert m (f value) := by
  simp only [insert, map, map_place]

end Daybook.Timeline
