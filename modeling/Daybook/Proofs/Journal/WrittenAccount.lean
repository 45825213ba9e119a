import Daybook.Journal.Line
import Daybook.Proofs.Text.Trim

/-!
# Accounts as they are written

The account of a posting ends at a tab, a semicolon or two spaces. One that holds none of these is
read back from what is written (`IsAccountName.cutAccount`), with its kind from the brackets around
it (`readAccount_enclosed`) and without taking its start for a mark (`takeClearing_unmarked`).
-/

namespace Daybook

open Daybook.Text

/-! ## Names -/

theorem AccountRef.text_ofText (s : String) : (AccountRef.ofText s).text = s := by
  rw [ofText]
  split
  case isTrue hs => exact hs.symm
  case isFalse =>
    split
    case h_2 => rfl
    case h_1 root last hcut =>
      obtain ⟨⟨after, before⟩, hrev, heq⟩ := Option.map_eq_some_iff.mp hcut
      obtain ⟨rfl, rfl⟩ := Prod.mk.inj heq
      obtain ⟨c, hc, hreverse⟩ := cut?_eq_some hrev
      obtain rfl : c = ':' := by simpa [AccountName.isSeparator] using hc
      have hs : s.toList = before.reverse ++ ':' :: after.reverse := by
        simpa using congrArg List.reverse hreverse
      split
      case isFalse => rfl
      case isTrue hlast =>
        rw [text, ← hlast, ← String.toList_inj, hs]
        simp

namespace Line

variable {cs ds w name rest : List Char} {c : Char} {kind : PostingKind} {year : Int}

/-- The text has nothing in it that ends an account. -/
structure Solid (cs : List Char) : Prop where
  tab : '\t' ∉ cs
  semicolon : ';' ∉ cs
  spaces : ¬ [' ', ' '] <:+: cs

theorem Solid.within (h : Solid cs) (hds : ds <:+: cs) : Solid ds :=
  ⟨fun hmem => h.tab (hds.subset hmem), fun hmem => h.semicolon (hds.subset hmem),
    fun hwithin => h.spaces (hwithin.trans hds)⟩

theorem solid_cutAccount (cs : List Char) : Solid (cutAccount cs).1 := by
  induction cs with
  | nil => exact ⟨by simp [cutAccount], by simp [cutAccount], by simp [cutAccount]⟩
  | cons c cs ih =>
    rw [cutAccount]
    split
    case isTrue => exact ⟨by simp, by simp, by simp⟩
    case isFalse hc =>
      simp only [Bool.or_eq_true, decide_eq_true_eq, Bool.and_eq_true, not_or, not_and] at hc
      obtain ⟨⟨htab, hsemicolon⟩, hspace⟩ := hc
      refine ⟨by simp [Ne.symm htab, ih.tab], by simp [Ne.symm hsemicolon, ih.semicolon], ?_⟩
      rw [List.infix_cons_iff]
      rintro (hfront | hwithin)
      · obtain ⟨rest, hrest⟩ := hfront
        obtain ⟨rfl, hrest⟩ := List.cons.inj hrest
        have hstart : (cutAccount cs).1 = ' ' :: rest := (List.cons.inj hrest).2.symm
        have hcut : ' ' :: rest ++ (cutAccount cs).2 = cs := by
          rw [← hstart, cutAccount_append]
        exact hspace rfl (hcut ▸ rfl)
      · exact ih.spaces hwithin

def Ends (rest : List Char) : Prop := rest = [] ∨ [' ', ' '] <+: rest

theorem cutAccount_solid (h : Solid cs) (hlast : cs.getLast? ≠ some ' ') (rest : List Char) :
    cutAccount (cs ++ rest) = (cs ++ (cutAccount rest).1, (cutAccount rest).2) := by
  induction cs with
  | nil => rfl
  | cons c cs ih =>
    have htab : c ≠ '\t' := fun heq => h.tab (heq ▸ List.mem_cons_self)
    have hsemicolon : c ≠ ';' := fun heq => h.semicolon (heq ▸ List.mem_cons_self)
    have hspaces : ¬ (c = ' ' ∧ (cs ++ rest).head? = some ' ') := by
      rintro ⟨rfl, hhead⟩
      cases cs with
      | nil => exact hlast rfl
      | cons d cs =>
        obtain rfl := Option.some.inj hhead
        exact h.spaces ⟨[], cs, rfl⟩
    have hrest' : cutAccount (cs ++ rest) = (cs ++ (cutAccount rest).1, (cutAccount rest).2) := by
      refine ih (h.within (List.suffix_cons c cs).isInfix) fun hend => hlast ?_
      obtain ⟨start, rfl⟩ := List.getLast?_eq_some_iff.mp hend
      rw [← List.cons_append, List.getLast?_concat]
    rw [List.cons_append, cutAccount, hrest', if_neg]
    · rfl
    · simpa [htab, hsemicolon] using hspaces

theorem Ends.cutAccount (h : Ends rest) : cutAccount rest = ([], rest) := by
  rcases h with rfl | ⟨more, rfl⟩ <;> rfl

/-- What is read as the name of an account. -/
structure IsAccountName (cs : List Char) : Prop where
  solid : Solid cs
  trimmed : trim cs = cs
  ne_nil : cs ≠ []

theorem IsAccountName.cutAccount (h : IsAccountName cs) (rest : List Char) :
    cutAccount (cs ++ rest) = (cs ++ (cutAccount rest).1, (cutAccount rest).2) := by
  refine cutAccount_solid h.solid (fun hlast => ?_) rest
  have hblank := trimEnd_eq_self_iff.mp (trimEnd_of_trim_eq h.trimmed) _ hlast
  cases hblank

theorem IsAccountName.trimStart_append (h : IsAccountName cs) (rest : List Char) :
    trimStart (cs ++ rest) = cs ++ rest := by
  obtain ⟨c, cs', rfl⟩ := List.exists_cons_of_ne_nil h.ne_nil
  exact trimStart_cons (isBlank_of_trim_eq_cons h.trimmed rfl) _

/-! ## Brackets -/

theorem between?_enclosed (opening closing : Char) (cs : List Char) :
    between? opening closing (opening :: (cs ++ [closing])) = some cs := by
  simp [between?]

theorem between?_eq_some {opening closing : Char} (h : between? opening closing cs = some w) :
    cs = opening :: (w ++ [closing]) := by
  unfold between? at h
  split at h
  case h_2 => cases h
  case h_1 c rest =>
    split at h
    case isFalse => cases h
    case isTrue hc =>
      simp only [Bool.and_eq_true, decide_eq_true_eq] at hc
      obtain ⟨rfl, hlast⟩ := hc
      obtain ⟨start, rfl⟩ := List.getLast?_eq_some_iff.mp hlast
      rw [List.dropLast_concat] at h
      rw [Option.some.inj h]

/-- The characters of an account in the brackets of the kind. -/
def enclosed (kind : PostingKind) (name : List Char) : List Char :=
  match kind with
  | .real => name
  | .virtual => '(' :: (name ++ [')'])
  | .balancedVirtual => '[' :: (name ++ [']'])

theorem toList_enclose (kind : PostingKind) (s : String) :
    (kind.enclose s).toList = enclosed kind s.toList := by
  cases kind <;> simp [PostingKind.enclose, enclosed]

theorem infix_enclosed (kind : PostingKind) (name : List Char) : name <:+: enclosed kind name := by
  cases kind with
  | real => exact List.infix_rfl
  | virtual => exact ⟨['('], [')'], by simp [enclosed]⟩
  | balancedVirtual => exact ⟨['['], [']'], by simp [enclosed]⟩

theorem enclosed_of_readAccount (h : readAccount cs = (kind, name)) : enclosed kind name = cs := by
  unfold readAccount at h
  split at h
  case h_1 inner hvirtual =>
    obtain ⟨rfl, rfl⟩ := Prod.mk.inj h
    exact (between?_eq_some hvirtual).symm
  case h_2 =>
    split at h
    case h_1 inner hbalanced =>
      obtain ⟨rfl, rfl⟩ := Prod.mk.inj h
      exact (between?_eq_some hbalanced).symm
    case h_2 =>
      obtain ⟨rfl, rfl⟩ := Prod.mk.inj h
      rfl

theorem readAccount_enclosed (h : kind = .real → readAccount name = (.real, name)) :
    readAccount (enclosed kind name) = (kind, name) := by
  cases kind with
  | real => exact h rfl
  | virtual => rw [enclosed, readAccount, between?_enclosed]
  | balancedVirtual =>
    have hround : between? '(' ')' ('[' :: (name ++ [']'])) = none := by simp [between?]
    rw [enclosed, readAccount, hround, between?_enclosed]

theorem IsAccountName.bracketed (h : IsAccountName name) {opening closing : Char}
    (hopening : isBlank opening = false) (hclosing : isBlank closing = false)
    (hopening' : opening ≠ ';') (hclosing' : closing ≠ ';') :
    IsAccountName (opening :: (name ++ [closing])) := by
  have hblank : ∀ {c d : Char}, isBlank c = false → isBlank d = true → d ≠ c := by
    rintro c d hc hd rfl
    rw [hc] at hd
    cases hd
  obtain ⟨htab, hsemicolon, hspaces⟩ := h.solid
  refine ⟨⟨?_, ?_, ?_⟩, ?_, List.cons_ne_nil _ _⟩
  · simp [htab, hblank hopening (d := '\t') (by decide), hblank hclosing (d := '\t') (by decide)]
  · simp [hsemicolon, Ne.symm hopening', Ne.symm hclosing']
  · rw [List.infix_cons_iff, List.infix_concat_iff]
    rintro (hfront | hsuffix | hwithin)
    · exact hblank hopening (by decide) (List.cons_prefix_cons.mp hfront).1
    · obtain ⟨start, hstart⟩ := hsuffix
      have hlast := congrArg List.getLast? hstart
      simp only [List.getLast?_append, List.getLast?_cons_cons, List.getLast?_singleton,
        Option.some_or, Option.some.injEq] at hlast
      exact hblank hclosing (by decide) hlast
    · exact hspaces hwithin
  · rw [trim, trimStart_cons hopening, ← List.cons_append, trimEnd_concat hclosing]

theorem IsAccountName.enclosed (h : IsAccountName name) (kind : PostingKind) :
    IsAccountName (enclosed kind name) := by
  cases kind with
  | real => exact h
  | virtual => exact h.bracketed (by decide) (by decide) (by decide) (by decide)
  | balancedVirtual => exact h.bracketed (by decide) (by decide) (by decide) (by decide)

/-! ## Marks -/

def IsMark (cs : List Char) : Prop := cs = ['*'] ∨ cs = ['!']

instance (cs : List Char) : Decidable (IsMark cs) := inferInstanceAs (Decidable (_ ∨ _))

/-- No blank stands behind a mark at the start of the text. -/
def Unmarked (cs : List Char) : Prop :=
  ∀ c d rest, cs = c :: d :: rest → Clearing.ofChar? c ≠ none → isBlank d = false

theorem ofChar?_ne_none_iff : Clearing.ofChar? c ≠ none ↔ c = '*' ∨ c = '!' := by
  unfold Clearing.ofChar?
  split <;> simp_all

theorem takeClearing_cons (hc : isBlank c = false) (cs : List Char) :
    takeClearing (c :: cs) =
      match Clearing.ofChar? c with
      | none => (none, c :: cs)
      | some state =>
        match cs with
        | [] => (some state, [])
        | d :: _ => if isBlank d then (some state, trimStart cs) else (none, c :: cs) := by
  have hstart := trimStart_cons hc cs
  unfold takeClearing
  generalize trimStart (c :: cs) = start at hstart
  subst hstart
  rfl

theorem takeClearing_mark (state : Clearing) (cs : List Char) :
    takeClearing (state.char :: ' ' :: cs) = (some state, trimStart cs) := by
  cases state <;> rfl

theorem takeClearing_cases (cs : List Char) : takeClearing cs = (none, []) ∨
    ∃ c rest, isBlank c = false ∧ takeClearing cs = takeClearing (c :: rest) := by
  cases htrim : trimStart cs with
  | nil =>
    left
    rw [takeClearing, htrim]
  | cons c rest =>
    refine .inr ⟨c, rest, trimStart_eq_self_iff.mp (trimStart_trimStart cs) c (htrim ▸ rfl), ?_⟩
    rw [← htrim, takeClearing, takeClearing, trimStart_trimStart]

theorem unmarked_of_takeClearing (h : takeClearing cs = (none, rest)) : Unmarked rest := by
  rintro c d more rfl hmark
  rcases takeClearing_cases cs with hnil | ⟨x, xs, hx, hcons⟩
  · rw [hnil] at h
    cases h
  rw [hcons, takeClearing_cons hx] at h
  split at h
  case h_1 hnone =>
    obtain ⟨rfl, -⟩ := List.cons.inj (Prod.mk.inj h).2
    exact absurd hnone hmark
  case h_2 state hstate =>
    cases xs with
    | nil => cases h
    | cons y ys =>
      cases hy : isBlank y with
      | true => simp [hy] at h
      | false =>
        simp only [hy, Bool.false_eq_true, if_false] at h
        obtain ⟨-, htail⟩ := List.cons.inj (Prod.mk.inj h).2
        exact (List.cons.inj htail).1 ▸ hy

theorem trimStart_takeClearing (cs : List Char) :
    trimStart (takeClearing cs).2 = (takeClearing cs).2 := by
  rcases takeClearing_cases cs with hnil | ⟨c, rest, hc, hcons⟩
  · rw [hnil]
    rfl
  rw [hcons, takeClearing_cons hc]
  split
  case h_1 => exact trimStart_cons hc rest
  case h_2 =>
    cases rest with
    | nil => rfl
    | cons d rest =>
      cases hd : isBlank d with
      | true =>
        simp only [hd, if_true]
        exact trimStart_trimStart _
      | false =>
        simp only [hd, Bool.false_eq_true, if_false]
        exact trimStart_cons hc _

theorem takeClearing_suffix (cs : List Char) : (takeClearing cs).2 <:+ cs := by
  rw [takeClearing]
  refine List.IsSuffix.trans ?_ (trimStart_suffix cs)
  split
  case h_1 => exact List.suffix_rfl
  case h_2 c rest heq =>
    split
    case h_1 => exact List.suffix_rfl
    case h_2 =>
      split
      case h_1 => exact List.nil_suffix
      case h_2 d rest' =>
        split
        · rw [heq]
          exact (trimStart_suffix _).trans (List.suffix_cons c _)
        · exact List.suffix_rfl

theorem Unmarked.front (h : Unmarked cs) (hds : ds <+: cs) : Unmarked ds := by
  rintro c d rest rfl hmark
  obtain ⟨more, rfl⟩ := hds
  exact h c d (rest ++ more) rfl hmark

theorem unmarked_of_ne_real (h : kind ≠ .real) (name : List Char) :
    Unmarked (enclosed kind name) := by
  rintro c d rest heq hmark
  cases kind with
  | real => exact absurd rfl h
  | virtual | balancedVirtual =>
    obtain ⟨rfl, -⟩ := List.cons.inj heq
    exact absurd rfl hmark

theorem takeClearing_unmarked (h : Unmarked w) (hne : w ≠ []) (htrim : trimStart w = w)
    (hmark : ¬ IsMark w) (rest : List Char) : takeClearing (w ++ rest) = (none, w ++ rest) := by
  obtain ⟨c, cs, rfl⟩ := List.exists_cons_of_ne_nil hne
  have hc : isBlank c = false := trimStart_eq_self_iff.mp htrim c rfl
  rw [List.cons_append, takeClearing_cons hc]
  split
  case h_1 => rfl
  case h_2 state hstate =>
    have hsome : Clearing.ofChar? c ≠ none := by simp [hstate]
    cases cs with
    | nil => exact absurd (by simpa [IsMark] using ofChar?_ne_none_iff.mp hsome) hmark
    | cons d cs =>
      have hd := h c d cs rfl hsome
      simp [hd]

theorem takeClearing_isMark (h : IsMark w) (hrest : ∀ c ∈ rest.head?, isBlank c = true) :
    (takeClearing (w ++ rest)).1 ≠ none := by
  obtain ⟨c, rfl, hc, state, hstate⟩ :
      ∃ c, w = [c] ∧ isBlank c = false ∧ ∃ state, Clearing.ofChar? c = some state := by
    rcases h with rfl | rfl
    · exact ⟨'*', rfl, by decide, .cleared, rfl⟩
    · exact ⟨'!', rfl, by decide, .pending, rfl⟩
  rw [List.singleton_append, takeClearing_cons hc, hstate]
  cases rest with
  | nil => exact Option.some_ne_none _
  | cons d rest =>
    simp only [hrest d rfl, if_true]
    exact Option.some_ne_none _

end Line

end Daybook
