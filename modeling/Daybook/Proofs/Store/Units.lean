import Daybook.Proofs.Store.FirstPass
import Daybook.Proofs.Store.Kept

/-!
# The commodities that a store knows

A store of a journal without commodity declarations knows the commodities that have been named, and
how the first amount of each was written (`Plain`). It stays so as long as amounts of one name are
written alike (`plain_withKept`). Before anything has been named the store is `Fresh`, and only
then: this is when the commodity of a zero has no sample yet.
-/

namespace Daybook

/-- Whether the amount is written as `w` says of its name, with the unit before the number or
behind it. -/
def Commodity.WrittenAs (w : String → Bool) (c : Commodity) : Prop := c.currency = w c.name

/-- Whether the amounts of the map stand under their names and are written as `w` says. -/
def WrittenMap (w : String → Bool) (amounts : NameMap Commodity) : Prop :=
  ∀ n c, amounts.find? n = some c → c.name = n ∧ c.WrittenAs w

/-- Whether all amounts of the posting are written as `w` says. -/
def Posting.WrittenAs (w : String → Bool) (x : Posting) : Prop := ∀ c ∈ x.values, c.WrittenAs w

/-- Whether all amounts of the transaction are written as `w` says. -/
def Transaction.WrittenAs (w : String → Bool) (t : Transaction) : Prop :=
  ∀ x ∈ t.postings, x.WrittenAs w

namespace Directive

/-- Whether the directive declares no commodity, and writes all its amounts as `w` says. -/
def WrittenAs (w : String → Bool) : Directive → Prop
  | .transaction t => t.WrittenAs w
  | .price x => x.value.WrittenAs w
  | .commodity _ => False
  | _ => True

def NamesNothing : Directive → Prop
  | .transaction t => ∀ x ∈ t.postings, x.values = []
  | .price _ => False
  | .commodity _ => False
  | _ => True

end Directive

namespace Store

/-- Whether commodities have no declarations, and their samples are written as `w` says. The first
name has a sample. -/
structure Plain (w : String → Bool) (s : Store) : Prop where
  undeclared : s.declarations = .empty
  defaultless : s.defaultName = none
  samples : WrittenMap w s.samples
  first : ∀ n, s.firstName = some n → (s.samples.find? n).isSome = true

/-- Whether no commodity has been named or declared. -/
structure Fresh (s : Store) : Prop where
  undeclared : s.declarations = .empty
  defaultless : s.defaultName = none
  samples : s.samples = .empty
  first : s.firstName = none

/-- Whether two stores know the same commodities. -/
structure SameUnits (s s' : Store) : Prop where
  declarations : s'.declarations = s.declarations
  defaultName : s'.defaultName = s.defaultName
  samples : s'.samples = s.samples
  firstName : s'.firstName = s.firstName

variable {w : String → Bool} {s s' : Store}

theorem plain_empty (w : String → Bool) (options : Options) : (empty options).Plain w :=
  ⟨rfl, rfl, fun n c h => by simp [empty] at h, fun n h => by simp [empty] at h⟩

theorem fresh_empty (options : Options) : (empty options).Fresh := ⟨rfl, rfl, rfl, rfl⟩

theorem Plain.sameUnits (h : s.Plain w) (hsame : SameUnits s s') : s'.Plain w :=
  ⟨by rw [hsame.declarations, h.undeclared], by rw [hsame.defaultName, h.defaultless],
    by rw [hsame.samples]; exact h.samples, by rw [hsame.firstName, hsame.samples]; exact h.first⟩

theorem Fresh.sameUnits (h : s.Fresh) (hsame : SameUnits s s') : s'.Fresh :=
  ⟨by rw [hsame.declarations, h.undeclared], by rw [hsame.defaultName, h.defaultless],
    by rw [hsame.samples, h.samples], by rw [hsame.firstName, h.first]⟩

theorem SameUnits.trans {s'' : Store} (h : SameUnits s s') (h' : SameUnits s' s'') :
    SameUnits s s'' :=
  ⟨h'.declarations.trans h.declarations, h'.defaultName.trans h.defaultName,
    h'.samples.trans h.samples, h'.firstName.trans h.firstName⟩

theorem SameBooks.sameUnits (h : SameBooks s s') : SameUnits s s' := by
  refine ⟨?_, ?_, ?_, ?_⟩ <;> rw [h]

theorem sameUnits_accounts (s : Store) (accounts : NameMap Account) :
    SameUnits s { s with accounts } := ⟨rfl, rfl, rfl, rfl⟩

theorem sameUnits_declareAccount (s : Store) (d : AccountDeclaration) :
    SameUnits s (s.entered (.account d)) := by
  obtain ⟨a, -, hs⟩ := withDeclared_eq s (AccountName.join s.root d.name) d
  rw [entered, hs]
  exact sameUnits_accounts s _

theorem declaredForm_of_undeclared (h : s.declarations = .empty) (c : Commodity) :
    s.declaredForm c = c := by
  rw [declaredForm, h]
  rfl

theorem values_keptOn_eq_map (s : Store) (name : String) (x : Posting) :
    (s.keptOn name x).values = x.values.map s.declaredForm := by
  simp only [Posting.values, keptOn, List.map_append, Option.toList_map]

theorem values_keptOn (h : s.declarations = .empty) (name : String) (x : Posting) :
    (s.keptOn name x).values = x.values := by
  rw [values_keptOn_eq_map, funext (declaredForm_of_undeclared h), List.map_id']

/-! ## Naming amounts -/

theorem find?_register_isSome {c : Commodity} {n : String} :
    ((s.register c).samples.find? n).isSome = true ↔
      n = c.name ∨ (s.samples.find? n).isSome = true := by
  rw [register, NameMap.find?_insert]
  by_cases hn : c.name = n
  · simp [hn]
  · rw [if_neg hn]
    exact (or_iff_right fun h => hn h.symm).symm

theorem samples_register (h : WrittenMap w s.samples) {c : Commodity} (hc : c.WrittenAs w) :
    WrittenMap w (s.register c).samples := by
  intro n d hd
  rw [register, NameMap.find?_insert] at hd
  by_cases hn : c.name = n
  · rw [if_pos hn] at hd
    obtain rfl := Option.some.inj hd
    cases hfind : s.samples.find? c.name with
    | none => exact ⟨hn, hc⟩
    | some sample =>
      obtain ⟨hname, hsample⟩ := h _ _ hfind
      exact ⟨hname.trans hn, hsample⟩
  · rw [if_neg hn] at hd
    exact h n d hd

theorem samples_registerAll (h : WrittenMap w s.samples) {cs : List Commodity}
    (hcs : ∀ c ∈ cs, c.WrittenAs w) : WrittenMap w (s.registerAll cs).samples := by
  induction cs generalizing s with
  | nil => exact h
  | cons c cs ih =>
    exact ih (samples_register h (hcs c (by simp))) fun d hd => hcs d (by simp [hd])

theorem find?_registerAll_isSome {cs : List Commodity} {n : String} :
    ((s.registerAll cs).samples.find? n).isSome = true ↔
      (∃ c ∈ cs, c.name = n) ∨ (s.samples.find? n).isSome = true := by
  induction cs generalizing s with
  | nil => simp [registerAll]
  | cons c cs ih =>
    have hstep : s.registerAll (c :: cs) = (s.register c).registerAll cs := rfl
    rw [hstep, ih, find?_register_isSome]
    simp only [List.mem_cons, exists_eq_or_imp, eq_comm (a := n)]
    rw [or_left_comm, or_assoc]

theorem firstName_registerAll (s : Store) (cs : List Commodity) :
    (s.registerAll cs).firstName = s.firstName.or (cs.head?.map (·.name)) := by
  induction cs generalizing s with
  | nil => simp [registerAll]
  | cons c cs ih =>
    have hstep : s.registerAll (c :: cs) = (s.register c).registerAll cs := rfl
    rw [hstep, ih, register]
    cases s.firstName <;> simp

theorem SameUnits.registerAll (h : SameUnits s s') (cs : List Commodity) :
    SameUnits (s.registerAll cs) (s'.registerAll cs) := by
  induction cs generalizing s s' with
  | nil => exact h
  | cons c cs ih =>
    refine ih ⟨h.declarations, h.defaultName, ?_, ?_⟩
    · rw [register, register, h.samples]
    · rw [register, register, h.firstName]

theorem sameUnits_foldl_note (s : Store) (xs : List Posting) :
    SameUnits (s.registerAll (xs.flatMap Posting.values)) (xs.foldl note s) := by
  induction xs generalizing s with
  | nil => exact ⟨rfl, rfl, rfl, rfl⟩
  | cons x xs ih =>
    have hsplit : s.registerAll ((x :: xs).flatMap Posting.values) =
        (s.registerAll x.values).registerAll (xs.flatMap Posting.values) := by
      rw [List.flatMap_cons, Store.registerAll, List.foldl_append]
      rfl
    have hensure : SameUnits s (s.ensureAccount (x.account.name?.getD "") x.kind) := by
      rw [ensureAccount_eq]
      exact sameUnits_accounts s _
    have hnote : SameUnits (s.registerAll x.values) (s.note x) := hensure.registerAll x.values
    rw [hsplit]
    exact (hnote.registerAll (xs.flatMap Posting.values)).trans (ih (s.note x))

theorem sameUnits_withKept (s : Store) (t t' : Transaction) :
    SameUnits ((s.noteFirst t).registerAll (t'.postings.flatMap Posting.values))
      (s.withKept t t') := by
  have hfirst : s.noteFirst (s.withPayee t) = s.noteFirst t := by
    rw [withPayee]
    split <;> rfl
  have hfold := sameUnits_foldl_note (s.noteFirst t) t'.postings
  rw [withKept, hfirst]
  exact ⟨hfold.declarations, hfold.defaultName, hfold.samples, hfold.firstName⟩

theorem plain_withKept (h : s.Plain w) {t t' : Transaction} (hw : t'.WrittenAs w)
    (hfirst : ∀ c, t.postings.findSome? (·.amount) = some c →
      ∃ d ∈ t'.postings.flatMap Posting.values, d.name = c.name) : (s.withKept t t').Plain w := by
  refine Plain.sameUnits ⟨?_, ?_, ?_, ?_⟩ (sameUnits_withKept s t t')
  · rw [sameRules_registerAll (s.noteFirst t)]
    exact h.undeclared
  · rw [sameRules_registerAll (s.noteFirst t)]
    exact h.defaultless
  · refine @samples_registerAll w (s.noteFirst t) h.samples _ fun c hc => ?_
    obtain ⟨x, hx, hc⟩ := List.mem_flatMap.mp hc
    exact hw x hx c hc
  · intro n hn
    rw [firstName_registerAll, noteFirst] at hn
    rw [find?_registerAll_isSome]
    cases hname : s.firstName with
    | some m =>
      obtain rfl : m = n := by simpa [hname] using hn
      exact .inr (h.first m hname)
    | none =>
      rw [hname, Option.none_or] at hn
      cases hamount : t.postings.findSome? (·.amount) with
      | some c =>
        obtain rfl : c.name = n := by simpa [hamount] using hn
        exact .inl (hfirst c hamount)
      | none =>
        rw [hamount, Option.map_none, Option.none_or, Option.map_eq_some_iff] at hn
        obtain ⟨d, hd, rfl⟩ := hn
        exact .inl ⟨d, List.mem_of_mem_head? hd, rfl⟩

theorem plain_register (h : s.Plain w) {c : Commodity} (hc : c.WrittenAs w) :
    (s.register c).Plain w := by
  refine ⟨h.undeclared, h.defaultless, samples_register h.samples hc, fun n hn => ?_⟩
  rw [find?_register_isSome]
  rw [register] at hn
  cases hname : s.firstName with
  | some m =>
    obtain rfl : m = n := by simpa [hname] using hn
    exact .inr (h.first m hname)
  | none =>
    obtain rfl : c.name = n := by simpa [hname] using hn
    exact .inl rfl

theorem plain_entered (h : s.Plain w) {d : Directive} (hd : d.WrittenAs w)
    (hvalue : ∀ t, d ≠ .transaction t) : (s.entered d).Plain w := by
  cases d
  case transaction t => exact absurd rfl (hvalue t)
  case commodity d => exact absurd hd id
  case price x => exact (plain_register h hd).sameUnits ⟨rfl, rfl, rfl, rfl⟩
  case account d => exact h.sameUnits (sameUnits_declareAccount s d)
  all_goals exact h

/-! ## Before anything is named -/

theorem firstName_withKept (s : Store) (t t' : Transaction) :
    (s.withKept t t').firstName = ((s.noteFirst t).firstName).or
      ((t'.postings.flatMap Posting.values).head?.map (·.name)) := by
  rw [(sameUnits_withKept s t t').firstName, firstName_registerAll]

theorem fresh_withKept (h : s.Fresh) {t t' : Transaction}
    (ht : t.postings.findSome? (·.amount) = none)
    (ht' : t'.postings.flatMap Posting.values = []) : (s.withKept t t').Fresh := by
  refine Fresh.sameUnits ?_ (sameUnits_withKept s t t')
  rw [ht']
  exact ⟨h.undeclared, h.defaultless, h.samples, by simp [registerAll, noteFirst, h.first, ht]⟩

theorem fresh_entered (h : s.Fresh) {d : Directive} (hd : d.NamesNothing)
    (hvalue : ∀ t, d ≠ .transaction t) : (s.entered d).Fresh := by
  cases d
  case transaction t => exact absurd rfl (hvalue t)
  case commodity d => exact absurd hd id
  case price x => exact absurd hd id
  case account d => exact h.sameUnits (sameUnits_declareAccount s d)
  all_goals exact h

theorem firstName_entered_eq_none (d : Directive) (hvalue : ∀ t, d ≠ .transaction t)
    {w : String → Bool} (hd : d.WrittenAs w) (h : (s.entered d).firstName = none) :
    s.firstName = none ∧ d.NamesNothing := by
  cases d
  case transaction t => exact absurd rfl (hvalue t)
  case commodity d => exact absurd hd id
  case price x =>
    have hsome : (s.register x.value).firstName = none := h
    rw [register] at hsome
    cases hname : s.firstName <;> simp [hname] at hsome
  case account d => exact ⟨(sameUnits_declareAccount s d).firstName ▸ h, trivial⟩
  all_goals exact ⟨h, trivial⟩

end Store

end Daybook
