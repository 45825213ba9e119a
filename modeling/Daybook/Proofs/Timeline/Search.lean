import Daybook.Proofs.Timeline

/-!
# Searching a timeline

Values that are inserted one by one come to stand in their stable sort (`StablySorts`), of which
there is only one. Because the entries are sorted, the place of an insertion and the two ends of a
range can be found by halving; `insertBySearch?` and `rangeBySearch?` do so, and give up at the
first access to an entry or a place that is not there. `ofInserts_sorts_and_searches` says that they
never give up, and that a range is what a look at every single entry would select.
-/

namespace Daybook.Timeline

variable {α β : Type}

/-! ## Stable sorts -/

/-- The timeline into which values have been inserted one after the other. -/
def ofInserts (pairs : List (Moment × α)) : Timeline α :=
  pairs.foldl (fun t e => t.insert e.1 e.2) empty

def atMoment (m : Moment) (l : List (Moment × α)) : List (Moment × α) :=
  l.filter fun e => e.1.instant = m.instant

/-- The second list holds the entries of the first in ascending order of their moments; entries of
one moment stay in their order. -/
structure StablySorts (l sorted : List (Moment × α)) : Prop where
  perm : sorted.Perm l
  ascending : sorted.Pairwise fun a b => a.1 ≤ b.1
  stable : ∀ m, atMoment m sorted = atMoment m l

theorem atMoment_append (m : Moment) (xs ys : List (Moment × α)) :
    atMoment m (xs ++ ys) = atMoment m xs ++ atMoment m ys :=
  List.filter_append xs ys

theorem atMoment_cons (m : Moment) (e : Moment × α) (l : List (Moment × α)) :
    atMoment m (e :: l) =
      if e.1.instant = m.instant then e :: atMoment m l else atMoment m l := by
  rw [atMoment, List.filter_cons]
  simp only [decide_eq_true_eq, atMoment]

theorem atMoment_eq_nil {m : Moment} {l : List (Moment × α)}
    (h : ∀ e ∈ l, m.instant < e.1.instant) : atMoment m l = [] := by
  refine List.filter_eq_nil_iff.mpr fun e he heq => ?_
  have hlater := h e he
  have hsame := of_decide_eq_true heq
  omega

theorem atMoment_place (m k : Moment) (value : α) {l : List (Moment × α)}
    (h : l.Pairwise fun a b => a.1.instant ≤ b.1.instant) :
    atMoment k (place m value l) = atMoment k (l ++ [(m, value)]) := by
  induction l with
  | nil => rfl
  | cons e l ih =>
    obtain ⟨he, hl⟩ := List.pairwise_cons.mp h
    rw [place]
    split
    case isTrue hle => rw [List.cons_append, atMoment_cons, atMoment_cons, ih hl]
    case isFalse hlt =>
      rw [atMoment_append, atMoment_cons]
      split
      case isTrue hk =>
        -- Everything from here on is later, so that nothing of this moment stands before `m`.
        have hm : m.instant < e.1.instant := Int.not_le.mp hlt
        have hlater : ∀ x ∈ e :: l, k.instant < x.1.instant := by
          rw [← hk]
          intro x hx
          rcases List.mem_cons.mp hx with rfl | hx
          · exact hm
          · exact Int.lt_of_lt_of_le hm (he x hx)
        rw [atMoment_eq_nil hlater, atMoment_cons, if_pos hk]
        rfl
      case isFalse hk =>
        rw [atMoment_cons k (m, value), if_neg hk]
        exact (List.append_nil _).symm

theorem StablySorts.insert {l : List (Moment × α)} {t : Timeline α} (h : StablySorts l t.entries)
    (m : Moment) (value : α) : StablySorts (l ++ [(m, value)]) (t.insert m value).entries := by
  refine ⟨?_, (t.insert m value).sorted, fun k => ?_⟩
  · exact ((perm_insert t m value).trans (h.perm.cons (m, value))).trans
      (List.perm_append_singleton (m, value) l).symm
  · have hrest : atMoment k t.entries = atMoment k l := h.stable k
    rw [Timeline.insert, atMoment_place m k value t.sorted, atMoment_append, atMoment_append, hrest]

theorem stablySorts_ofInserts (pairs : List (Moment × α)) :
    StablySorts pairs (ofInserts pairs).entries := by
  have hrun : ∀ (rest done : List (Moment × α)) (t : Timeline α), StablySorts done t.entries →
      StablySorts (done ++ rest) (rest.foldl (fun t e => t.insert e.1 e.2) t).entries := by
    intro rest
    induction rest with
    | nil =>
      intro done t h
      rwa [List.append_nil]
    | cons e rest ih =>
      intro done t h
      rw [List.append_cons, List.foldl_cons]
      exact ih _ _ (h.insert e.1 e.2)
  exact hrun pairs [] empty ⟨.refl _, .nil, fun _ => rfl⟩

theorem StablySorts.unique {l xs ys : List (Moment × α)} (hx : StablySorts l xs)
    (hy : StablySorts l ys) : xs = ys := by
  have hstable : ∀ m, atMoment m xs = atMoment m ys :=
    fun m => (hx.stable m).trans (hy.stable m).symm
  have hperm := hx.perm.trans hy.perm.symm
  have hascx := hx.ascending
  have hascy := hy.ascending
  clear hx hy
  induction xs generalizing ys with
  | nil => exact hperm.nil_eq
  | cons a xs ih =>
    cases ys with
    | nil => exact absurd hperm.symm (List.not_perm_nil_cons a xs)
    | cons b ys =>
      obtain ⟨ha, hxs⟩ := List.pairwise_cons.mp hascx
      obtain ⟨hb, hys⟩ := List.pairwise_cons.mp hascy
      -- Each head is the earliest of all, so they have one moment and are its first values.
      have hab : a.1.instant ≤ b.1.instant := by
        rcases List.mem_cons.mp (hperm.mem_iff.mpr List.mem_cons_self) with rfl | hmem
        · exact Int.le_refl _
        · exact ha b hmem
      have hba : b.1.instant ≤ a.1.instant := by
        rcases List.mem_cons.mp (hperm.mem_iff.mp List.mem_cons_self) with rfl | hmem
        · exact Int.le_refl _
        · exact hb a hmem
      have hhead := hstable a.1
      rw [atMoment_cons, if_pos rfl, atMoment_cons, if_pos (Int.le_antisymm hba hab)] at hhead
      obtain rfl := (List.cons.inj hhead).1
      refine congrArg (a :: ·) (ih (fun m => ?_) hperm.cons_inv hxs hys)
      have htail := hstable m
      rw [atMoment_cons, atMoment_cons] at htail
      split at htail
      · exact (List.cons.inj htail).2
      · exact htail

theorem stablySorts_mergeSort (l : List (Moment × α)) :
    StablySorts l (l.mergeSort fun a b => a.1 ≤ b.1) := by
  have htrans : ∀ a b c : Moment × α, decide (a.1 ≤ b.1) = true → decide (b.1 ≤ c.1) = true →
      decide (a.1 ≤ c.1) = true := by
    intro a b c hab hbc
    exact decide_eq_true (Int.le_trans (of_decide_eq_true hab) (of_decide_eq_true hbc))
  have htotal : ∀ a b : Moment × α, (decide (a.1 ≤ b.1) || decide (b.1 ≤ a.1)) = true := by
    intro a b
    rw [Bool.or_eq_true, decide_eq_true_iff, decide_eq_true_iff]
    exact Int.le_total a.1.instant b.1.instant
  refine ⟨List.mergeSort_perm _ _, ?_, fun m => ?_⟩
  · exact (List.pairwise_mergeSort htrans htotal l).imp of_decide_eq_true
  · have hequal : (atMoment m l).Pairwise fun a b => decide (a.1 ≤ b.1) = true := by
      refine List.pairwise_of_forall_mem_list fun a ha b hb => ?_
      have ham := of_decide_eq_true (List.mem_filter.mp ha).2
      have hbm := of_decide_eq_true (List.mem_filter.mp hb).2
      exact decide_eq_true (Int.le_of_eq (ham.trans hbm.symm))
    have hsub : (atMoment m l).Sublist (l.mergeSort fun a b => a.1 ≤ b.1) :=
      List.sublist_mergeSort htrans htotal hequal List.filter_sublist
    have hfilter := hsub.filter fun e => decide (e.1.instant = m.instant)
    rw [atMoment, List.filter_filter] at hfilter
    simp only [Bool.and_self] at hfilter
    exact (hfilter.eq_of_length ((List.mergeSort_perm l _).filter _).length_eq.symm).symm

/-! ## Searching by halving -/

/-- Looks by halving for the place from which on `p` fails. It is taken to hold before `low` and to
fail from `high` on; an entry that is not there ends the search without a result. -/
def parting? (p : β → Bool) (l : List β) (low high : Nat) : Option Nat :=
  if low < high then
    let middle := low + (high - low) / 2
    match l[middle]? with
    | none => none
    | some a => if p a then parting? p l (middle + 1) high else parting? p l low middle
  else some low
termination_by high - low

/-- The list with a further entry at the place, if it is a place of the list. -/
def insertAt? (l : List β) (place : Nat) (a : β) : Option (List β) :=
  if place ≤ l.length then some (l.take place ++ a :: l.drop place) else none

/-- The entries between two places, if these are places of the list in this order. -/
def slice? (l : List β) (start stop : Nat) : Option (List β) :=
  if start ≤ stop ∧ stop ≤ l.length then some ((l.drop start).take (stop - start)) else none

/-- The entries after an insertion at the place that a search finds. -/
def insertBySearch? (t : Timeline α) (m : Moment) (value : α) : Option (List (Moment × α)) := do
  let place ← parting? (fun e => decide (e.1 ≤ m)) t.entries 0 t.entries.length
  insertAt? t.entries place (m, value)

/-- The place where a range begins. -/
def start? (t : Timeline α) (inclusivity : Inclusivity) : Option Moment → Option Nat
  | some m =>
    if inclusivity.hasLow then
      parting? (fun e => decide (e.1 < m)) t.entries 0 t.entries.length
    else parting? (fun e => decide (e.1 ≤ m)) t.entries 0 t.entries.length
  | none => some 0

/-- The place where a range ends. -/
def stop? (t : Timeline α) (inclusivity : Inclusivity) : Option Moment → Option Nat
  | some m =>
    if inclusivity.hasHigh then
      parting? (fun e => decide (e.1 ≤ m)) t.entries 0 t.entries.length
    else parting? (fun e => decide (e.1 < m)) t.entries 0 t.entries.length
  | none => some t.entries.length

/-- The entries between the places that a search finds. An end that lies before the begin is moved
to it. -/
def rangeBySearch? (t : Timeline α) (low high : Option Moment) (inclusivity : Inclusivity) :
    Option (List (Moment × α)) := do
  let start ← t.start? inclusivity low
  let stop ← t.stop? inclusivity high
  slice? t.entries start (max stop start)

section Parting

variable {p : β → Bool} {l : List β}

theorem countP_cons_of_neg {a : β} (h : (a :: l).Pairwise fun a b => p b = true → p a = true)
    (ha : p a = false) : (a :: l).countP p = 0 := by
  refine List.countP_eq_zero.mpr fun b hb hpb => ?_
  rcases List.mem_cons.mp hb with rfl | hb
  · rw [ha] at hpb
    cases hpb
  · have hpa := (List.pairwise_cons.mp h).1 b hb hpb
    rw [ha] at hpa
    cases hpa

theorem lt_countP_iff (h : l.Pairwise fun a b => p b = true → p a = true) {i : Nat} {a : β}
    (hi : l[i]? = some a) : i < l.countP p ↔ p a = true := by
  induction l generalizing i with
  | nil => simp at hi
  | cons b l ih =>
    cases hb : p b with
    | true =>
      rw [List.countP_cons_of_pos hb]
      cases i with
      | zero =>
        obtain rfl : b = a := by simpa using hi
        simp [hb]
      | succ i =>
        rw [List.getElem?_cons_succ] at hi
        rw [Nat.add_lt_add_iff_right, ih (List.pairwise_cons.mp h).2 hi]
    | false =>
      have hzero := countP_cons_of_neg h hb
      have ha : ¬p a = true := List.countP_eq_zero.mp hzero a (List.mem_of_getElem? hi)
      rw [hzero]
      simp [ha]

theorem parting?_eq (h : l.Pairwise fun a b => p b = true → p a = true) {low high : Nat}
    (hlow : low ≤ l.countP p) (hhigh : l.countP p ≤ high) (hlength : high ≤ l.length) :
    parting? p l low high = some (l.countP p) := by
  fun_induction parting? p l low high with
  | case1 low high hlt middle hnone =>
    rw [List.getElem?_eq_none_iff] at hnone
    omega
  | case2 low high hlt middle a ha hp ih =>
    have hplace := (lt_countP_iff h ha).mpr hp
    exact ih hplace hhigh hlength
  | case3 low high hlt middle a ha hp ih =>
    have hplace := mt (lt_countP_iff h ha).mp hp
    exact ih hlow (by omega) (by omega)
  | case4 low high hlt =>
    congr 1
    omega

theorem takeWhile_eq_take_countP (h : l.Pairwise fun a b => p b = true → p a = true) :
    l.takeWhile p = l.take (l.countP p) := by
  induction l with
  | nil => rfl
  | cons a l ih =>
    cases ha : p a with
    | true =>
      rw [List.takeWhile_cons_of_pos ha, List.countP_cons_of_pos ha, List.take_succ_cons,
        ih (List.pairwise_cons.mp h).2]
    | false =>
      rw [List.takeWhile_cons_of_neg (by simp [ha]), countP_cons_of_neg h ha, List.take_zero]

theorem dropWhile_eq_drop_countP (h : l.Pairwise fun a b => p b = true → p a = true) :
    l.dropWhile p = l.drop (l.countP p) := by
  have hwhole : l.takeWhile p ++ l.dropWhile p = l.take (l.countP p) ++ l.drop (l.countP p) := by
    rw [List.takeWhile_append_dropWhile, List.take_append_drop]
  rw [takeWhile_eq_take_countP h] at hwhole
  exact List.append_cancel_left hwhole

theorem countP_drop (h : l.Pairwise fun a b => p b = true → p a = true) (n : Nat) :
    (l.drop n).countP p = l.countP p - n := by
  induction l generalizing n with
  | nil => simp
  | cons a l ih =>
    cases n with
    | zero => rfl
    | succ n =>
      rw [List.drop_succ_cons, ih (List.pairwise_cons.mp h).2]
      cases ha : p a with
      | true =>
        rw [List.countP_cons_of_pos ha]
        omega
      | false =>
        have hzero := countP_cons_of_neg h ha
        rw [List.countP_cons_of_neg (by simp [ha])] at hzero
        rw [List.countP_cons_of_neg (by simp [ha]), hzero]
        omega

end Parting

/-! ## Places of a timeline -/

theorem parted_not_above (t : Timeline α) (inclusivity : Inclusivity) (low : Option Moment) :
    t.entries.Pairwise fun a b =>
      (!isAbove inclusivity low b.1) = true → (!isAbove inclusivity low a.1) = true := by
  refine t.sorted.imp fun {a b} hab hb => ?_
  rw [Bool.not_eq_true'] at hb ⊢
  exact Bool.eq_false_iff.mpr fun ha => Bool.eq_false_iff.mp hb (isAbove_mono hab ha)

theorem parted_below (t : Timeline α) (inclusivity : Inclusivity) (high : Option Moment) :
    t.entries.Pairwise fun a b =>
      isBelow inclusivity high b.1 = true → isBelow inclusivity high a.1 = true :=
  t.sorted.imp isBelow_mono

theorem start?_eq (t : Timeline α) (inclusivity : Inclusivity) (low : Option Moment) :
    t.start? inclusivity low = some (t.entries.countP fun e => !isAbove inclusivity low e.1) := by
  cases low with
  | none => simp [start?, isAbove]
  | some m =>
    have hsearch := parting?_eq (t.parted_not_above inclusivity (some m)) (Nat.zero_le _)
      List.countP_le_length (Nat.le_refl _)
    rw [← hsearch, start?]
    cases hlow : inclusivity.hasLow with
    | true =>
      have hbefore : ∀ e : Moment × α, (!isAbove inclusivity (some m) e.1) = decide (e.1 < m) := by
        intro e
        simp only [isAbove, hlow, if_true, ← decide_not]
        exact decide_eq_decide.mpr Int.not_le
      rw [if_pos rfl, funext hbefore]
    | false =>
      have hbefore : ∀ e : Moment × α, (!isAbove inclusivity (some m) e.1) = decide (e.1 ≤ m) := by
        intro e
        simp only [isAbove, hlow, Bool.false_eq_true, if_false, ← decide_not]
        exact decide_eq_decide.mpr Int.not_lt
      rw [if_neg Bool.false_ne_true, funext hbefore]

theorem stop?_eq (t : Timeline α) (inclusivity : Inclusivity) (high : Option Moment) :
    t.stop? inclusivity high = some (t.entries.countP fun e => isBelow inclusivity high e.1) := by
  cases high with
  | none => simp [stop?, isBelow]
  | some m =>
    have hsearch := parting?_eq (t.parted_below inclusivity (some m)) (Nat.zero_le _)
      List.countP_le_length (Nat.le_refl _)
    rw [← hsearch, stop?]
    cases hhigh : inclusivity.hasHigh <;> simp [isBelow, hhigh]

theorem rangeBySearch?_eq (t : Timeline α) (low high : Option Moment) (inclusivity : Inclusivity) :
    t.rangeBySearch? low high inclusivity = some (t.range low high inclusivity) := by
  have hrest : (t.entries.drop (t.entries.countP fun e => !isAbove inclusivity low e.1)).Pairwise
      fun a b => isBelow inclusivity high b.1 = true → isBelow inclusivity high a.1 = true :=
    (t.parted_below inclusivity high).sublist (List.drop_sublist _ _)
  have hinside : max (t.entries.countP fun e => isBelow inclusivity high e.1)
      (t.entries.countP fun e => !isAbove inclusivity low e.1) ≤ t.entries.length :=
    Nat.max_le.mpr ⟨List.countP_le_length, List.countP_le_length⟩
  rw [range, dropWhile_eq_drop_countP (t.parted_not_above inclusivity low),
    takeWhile_eq_take_countP hrest, countP_drop (t.parted_below inclusivity high)]
  simp only [rangeBySearch?, start?_eq, stop?_eq, Option.bind_eq_bind, Option.bind_some]
  rw [slice?, if_pos ⟨Nat.le_max_right _ _, hinside⟩]
  congr 2
  omega

theorem place_eq (m : Moment) (value : α) (l : List (Moment × α)) :
    place m value l = l.takeWhile (fun e => decide (e.1 ≤ m)) ++
      (m, value) :: l.dropWhile fun e => decide (e.1 ≤ m) := by
  induction l with
  | nil => rfl
  | cons e l ih =>
    rw [place]
    split
    case isTrue hle => simp [hle, ih]
    case isFalse hlt => simp [hlt]

theorem insertBySearch?_eq (t : Timeline α) (m : Moment) (value : α) :
    t.insertBySearch? m value = some (t.insert m value).entries := by
  have hparted : t.entries.Pairwise fun a b =>
      decide (b.1 ≤ m) = true → decide (a.1 ≤ m) = true :=
    t.sorted.imp fun hab hb => decide_eq_true (Int.le_trans hab (of_decide_eq_true hb))
  have hplace : place m value t.entries =
      t.entries.take (t.entries.countP fun e => decide (e.1 ≤ m)) ++
        (m, value) :: t.entries.drop (t.entries.countP fun e => decide (e.1 ≤ m)) := by
    rw [place_eq, takeWhile_eq_take_countP hparted, dropWhile_eq_drop_countP hparted]
  rw [insertBySearch?, parting?_eq hparted (Nat.zero_le _) List.countP_le_length (Nat.le_refl _)]
  exact (if_pos List.countP_le_length).trans (congrArg some hplace.symm)

/-- After any insertions into an empty timeline the entries are the stable sort of what has been
inserted. Whatever the ends, and whichever of them a range includes, it is made up of the entries
after the lower end and before the upper end, or at an end that is included. The searches for the
place of an insertion and for the ends of a range stay among the entries. -/
theorem ofInserts_sorts_and_searches (pairs : List (Moment × α)) :
    StablySorts pairs (ofInserts pairs).entries ∧
      (ofInserts pairs).entries = pairs.mergeSort (fun a b => a.1 ≤ b.1) ∧
      (∀ low high inclusivity,
        (ofInserts pairs).range low high inclusivity = (ofInserts pairs).entries.filter (fun e =>
          (low.all fun l => if inclusivity.hasLow then l ≤ e.1 else l < e.1) &&
            high.all fun h => if inclusivity.hasHigh then e.1 ≤ h else e.1 < h) ∧
        (ofInserts pairs).rangeBySearch? low high inclusivity =
          some ((ofInserts pairs).range low high inclusivity)) ∧
      ∀ m value, (ofInserts pairs).insertBySearch? m value =
        some ((ofInserts pairs).insert m value).entries := by
  have hsorts := stablySorts_ofInserts pairs
  refine ⟨hsorts, hsorts.unique (stablySorts_mergeSort pairs), fun low high inclusivity => ⟨?_, ?_⟩,
    insertBySearch?_eq _⟩
  · rw [range_eq_filter]
    refine List.filter_congr fun e _ => ?_
    cases low <;> cases high <;> rfl
  · exact rangeBySearch?_eq _ low high inclusivity

end Daybook.Timeline
