import Daybook.Decimal.Printing
import Daybook.Decimal.Reading
import Daybook.Proofs.Decimal.Magnitude
import Daybook.Proofs.Text.Numeral
import Daybook.Proofs.Text.Words

/-!
# Numbers as they are written

A number is written with all its decimals: digits, and a point among them if there are decimals
(`mem_digits`). What is read from that is the number without its sign (`read?_digits`), the scale
included. Where the number of decimals is given, there are as many (`textWithPlaces_hasPlaces`).
-/

namespace Daybook.Decimal

open Daybook.Text

variable {a : Decimal} {c : Char} {negative point seen : Bool} {m scale : Nat}

/-- All digits of the number, with zeros before them for the decimals. -/
def padded (a : Decimal) : List Char := (zeroPadded (a.scale + 1) a.mantissa).toList

def wholePart (a : Decimal) : List Char := a.padded.take (a.padded.length - a.scale)

def decimalPart (a : Decimal) : List Char := a.padded.drop (a.padded.length - a.scale)

theorem digits_eq (a : Decimal) : a.digits =
    if a.scale = 0 then a.wholePart else a.wholePart ++ '.' :: a.decimalPart := rfl

theorem wholePart_append (a : Decimal) : a.wholePart ++ a.decimalPart = a.padded :=
  List.take_append_drop ..

theorem isDigit_of_mem_padded (h : c ∈ a.padded) : isDigit c = true := isDigit_of_mem_zeroPadded h

theorem isDigit_of_mem_wholePart (h : c ∈ a.wholePart) : isDigit c = true :=
  isDigit_of_mem_padded (List.mem_of_mem_take h)

theorem isDigit_of_mem_decimalPart (h : c ∈ a.decimalPart) : isDigit c = true :=
  isDigit_of_mem_padded (List.mem_of_mem_drop h)

theorem scale_lt_length (a : Decimal) : a.scale < a.padded.length :=
  le_length_zeroPadded (a.scale + 1) a.mantissa

theorem wholePart_ne_nil (a : Decimal) : a.wholePart ≠ [] := by
  have hlt := a.scale_lt_length
  rw [← List.length_pos_iff, wholePart, List.length_take]
  omega

theorem length_decimalPart (a : Decimal) : a.decimalPart.length = a.scale := by
  have hlt := a.scale_lt_length
  rw [decimalPart, List.length_drop]
  omega

theorem mem_digits (h : c ∈ a.digits) : isDigit c = true ∨ c = '.' := by
  rw [digits_eq] at h
  split at h
  · exact .inl (isDigit_of_mem_wholePart h)
  · rcases List.mem_append.mp h with hwhole | hrest
    · exact .inl (isDigit_of_mem_wholePart hwhole)
    · rcases List.mem_cons.mp hrest with rfl | hdecimal
      · exact .inr rfl
      · exact .inl (isDigit_of_mem_decimalPart hdecimal)

theorem exists_digits_eq_cons (a : Decimal) :
    ∃ c rest, a.digits = c :: rest ∧ isDigit c = true := by
  obtain ⟨c, whole, hwhole⟩ := List.exists_cons_of_ne_nil a.wholePart_ne_nil
  have hc : isDigit c = true := isDigit_of_mem_wholePart (hwhole ▸ List.mem_cons_self)
  rw [digits_eq, hwhole]
  split
  · exact ⟨c, whole, rfl, hc⟩
  · exact ⟨c, _, rfl, hc⟩

/-! ## Reading digits -/

theorem readFrom?_whole {cs : List Char} (hcs : ∀ c ∈ cs, isDigit c = true)
    (hfits : valueAfter m cs < mantissaLimit) (hne : cs ≠ []) (rest : List Char) :
    readFrom? negative false seen m 0 (cs ++ rest) =
      readFrom? negative false true (valueAfter m cs) 0 rest := by
  induction cs generalizing m seen with
  | nil => exact absurd rfl hne
  | cons c cs ih =>
    obtain ⟨hc, hrest⟩ := List.forall_mem_cons.mp hcs
    have hlt : 10 * m + digitValue c < mantissaLimit :=
      Nat.lt_of_le_of_lt (le_valueAfter _ cs) hfits
    rw [List.cons_append, readFrom?, if_neg (by decide), if_pos hc]
    simp only [hlt, if_true, Bool.false_eq_true, if_false]
    rcases cs with _ | ⟨d, cs⟩
    · rfl
    · exact ih hrest hfits (List.cons_ne_nil d cs)

theorem readFrom?_decimals {cs : List Char} (hcs : ∀ c ∈ cs, isDigit c = true)
    (hfits : valueAfter m cs < mantissaLimit) (hscale : scale + cs.length ≤ maxScale) :
    readFrom? negative true true m scale cs =
      ofParts? negative (valueAfter m cs) (scale + cs.length) := by
  induction cs generalizing m scale with
  | nil => rfl
  | cons c cs ih =>
    obtain ⟨hc, hrest⟩ := List.forall_mem_cons.mp hcs
    rw [List.length_cons] at hscale
    have hlt : 10 * m + digitValue c < mantissaLimit :=
      Nat.lt_of_le_of_lt (le_valueAfter _ cs) hfits
    rw [readFrom?, if_neg (by omega), if_pos hc]
    simp only [hlt, if_true]
    rw [ih hrest hfits (by omega), List.length_cons, Nat.add_right_comm scale 1, Nat.add_assoc]
    rfl

theorem readFrom?_digits (a : Decimal) (negative : Bool) :
    readFrom? negative false false 0 0 a.digits = ofParts? negative a.mantissa a.scale := by
  have hvalue : valueAfter (valueAfter 0 a.wholePart) a.decimalPart = a.mantissa := by
    rw [← valueAfter_append, wholePart_append]
    exact valueAfter_zeroPadded ..
  have hfits : valueAfter (valueAfter 0 a.wholePart) a.decimalPart < mantissaLimit :=
    hvalue ▸ a.mantissa_lt
  have hwhole : ∀ rest, readFrom? negative false false 0 0 (a.wholePart ++ rest) =
      readFrom? negative false true (valueAfter 0 a.wholePart) 0 rest :=
    readFrom?_whole (fun c => isDigit_of_mem_wholePart)
      (Nat.lt_of_le_of_lt (le_valueAfter _ a.decimalPart) hfits) a.wholePart_ne_nil
  rw [digits_eq]
  split
  case isTrue hscale =>
    have hnil : a.decimalPart = [] :=
      List.length_eq_zero_iff.mp (by rw [length_decimalPart, hscale])
    have hwhole' := hwhole []
    rw [List.append_nil] at hwhole'
    rw [hnil] at hvalue
    rw [hwhole', readFrom?, if_pos rfl, hscale]
    exact congrArg (ofParts? negative · 0) hvalue
  case isFalse hscale =>
    rw [hwhole, readFrom?, if_neg (by decide), if_neg (by decide)]
    simp only [Bool.not_false, Bool.and_true, decide_true, if_true]
    rw [readFrom?_decimals (fun c => isDigit_of_mem_decimalPart) hfits
      (by rw [length_decimalPart, Nat.zero_add]; exact a.scale_le), hvalue, length_decimalPart,
      Nat.zero_add]

theorem read?_eq_readPlain? {cs : List Char} (hcs : ∀ c ∈ cs, c ≠ 'e' ∧ c ≠ 'E') :
    read? cs = readPlain? cs := by
  have hexponent : cut? (fun c => c = 'e' || c = 'E') cs = none :=
    cut?_eq_none fun c hc => by simp [hcs c hc]
  rw [read?, hexponent]

theorem ne_exponent_of_isDigit (h : isDigit c = true) : c ≠ 'e' ∧ c ≠ 'E' := by
  constructor <;> rintro rfl <;> exact absurd h (by decide)

theorem read?_eq_readFrom? {cs : List Char} (hcs : ∀ c ∈ cs, isDigit c = true ∨ c = '.') :
    read? cs = readFrom? false false false 0 0 cs := by
  have hexponent : ∀ c ∈ cs, c ≠ 'e' ∧ c ≠ 'E' := by
    intro c hc
    rcases hcs c hc with hdigit | rfl
    · exact ne_exponent_of_isDigit hdigit
    · decide
  rw [read?_eq_readPlain? hexponent, readPlain?]
  · rintro rest rfl
    exact absurd (hcs _ List.mem_cons_self) (by decide)
  · rintro rest rfl
    exact absurd (hcs _ List.mem_cons_self) (by decide)

theorem read?_digits (a : Decimal) : read? a.digits = some a.abs := by
  rw [read?_eq_readFrom? fun c => mem_digits, readFrom?_digits]
  exact dif_pos ⟨a.mantissa_lt, a.scale_le⟩

/-! ## Writing a number -/

theorem textWithPlaces_scale (a : Decimal) : a.textWithPlaces a.scale = a.text := by
  have hround : a.round a.scale = a := dif_neg (Nat.lt_irrefl a.scale)
  have hpoint : (decide (a.scale = 0) && decide (a.scale ≠ 0)) = false := by
    by_cases hscale : a.scale = 0 <;> simp [hscale]
  simp only [textWithPlaces, hround, hpoint, Nat.sub_self, List.replicate_zero]
  simp

/-- Whether these are the digits of a number with that many decimals: a point before them, and at
least one digit before the point. Without decimals there is no point. -/
def HasPlaces (places : Nat) (cs : List Char) : Prop :=
  ∃ whole decimals, cs = (if places = 0 then whole else whole ++ '.' :: decimals) ∧
    whole ≠ [] ∧ decimals.length = places ∧ ∀ c ∈ whole ++ decimals, isDigit c = true

theorem scale_round_le (a : Decimal) (places : Nat) : (a.round places).scale ≤ places := by
  rw [round]
  by_cases hplaces : places < a.scale
  · have hpos := powerOfTen_pos (a.scale - places)
    have hle : roundQuotient a.mantissa (powerOfTen (a.scale - places)) ≤ a.mantissa :=
      roundQuotient_le hpos (Nat.le_mul_of_pos_right _ hpos)
    rw [dif_pos hplaces, dif_pos (Nat.lt_of_le_of_lt hle a.mantissa_lt)]
  · rw [dif_neg hplaces]
    exact Nat.le_of_not_lt hplaces

theorem hasPlaces_filled (a : Decimal) {places : Nat} (h : a.scale ≤ places) :
    HasPlaces places (a.digits ++ ((if a.scale = 0 && places ≠ 0 then ['.'] else []) ++
      List.replicate (places - a.scale) '0')) := by
  refine ⟨a.wholePart, a.decimalPart ++ List.replicate (places - a.scale) '0', ?_,
    a.wholePart_ne_nil, ?_, ?_⟩
  · rw [digits_eq]
    by_cases hscale : a.scale = 0
    · have hnil : a.decimalPart = [] :=
        List.length_eq_zero_iff.mp (by rw [length_decimalPart, hscale])
      by_cases hplaces : places = 0 <;> simp [hscale, hplaces, hnil]
    · have hplaces : places ≠ 0 := by omega
      simp [hscale, hplaces]
  · rw [List.length_append, List.length_replicate, length_decimalPart]
    omega
  · intro c hc
    simp only [List.mem_append] at hc
    obtain hc | hc | hc := hc
    · exact isDigit_of_mem_wholePart hc
    · exact isDigit_of_mem_decimalPart hc
    · rw [List.eq_of_mem_replicate hc]
      decide

theorem textWithPlaces_hasPlaces (a : Decimal) (places : Nat) :
    ∃ sign digits, (a.textWithPlaces places).toList = sign ++ digits ∧
      (sign = [] ∨ sign = ['-']) ∧ HasPlaces places digits := by
  refine ⟨if (a.round places).negative then ['-'] else [], _, ?_, ?_,
    hasPlaces_filled (a.round places) (scale_round_le a places)⟩
  · simp only [textWithPlaces, text, String.toList_append, String.toList_ofList]
    split <;> simp
  · split
    · exact .inr rfl
    · exact .inl rfl

end Daybook.Decimal
