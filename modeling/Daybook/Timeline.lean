import Daybook.Calendar.Moment

/-!
# Timelines

Values in the order of their moments; values of one moment stay in the order in which they came.
Main statement: an insertion keeps all entries and adds one (`perm_insert`).
-/

namespace Daybook

/-- Which of its ends a range of moments includes. -/
inductive Inclusivity where
  | none | low | high | both
  deriving DecidableEq, Repr

namespace Inclusivity

/-- The choice that a word names. -/
def ofText? : String → Option Inclusivity
  | "none" => some none
  | "low" => some low
  | "high" => some high
  | "both" => some both
  | _ => .none

def hasLow : Inclusivity → Bool
  | low | both => true
  | none | high => false

def hasHigh : Inclusivity → Bool
  | high | both => true
  | none | low => false

end Inclusivity

/-- Values with their moments, in ascending order. -/
structure Timeline (α : Type) where
  entries : List (Moment × α)
  sorted : entries.Pairwise (fun a b => a.1.instant ≤ b.1.instant)
  deriving Repr

namespace Timeline

variable {α : Type}

def empty : Timeline α := ⟨[], List.Pairwise.nil⟩

instance : Inhabited (Timeline α) := ⟨empty⟩

/-- Puts an entry behind all that are not later. -/
def place (m : Moment) (value : α) : List (Moment × α) → List (Moment × α)
  | [] => [(m, value)]
  | e :: rest => if e.1 ≤ m then e :: place m value rest else (m, value) :: e :: rest

theorem perm_place (m : Moment) (value : α) (l : List (Moment × α)) :
    (place m value l).Perm ((m, value) :: l) := by
  induction l with
  | nil => simp [place]
  | cons e rest ih =>
    simp only [place]
    split
    · exact (ih.cons e).trans (List.Perm.swap ..)
    · exact List.Perm.refl _

theorem pairwise_place {m : Moment} {value : α} {l : List (Moment × α)}
    (h : l.Pairwise (fun a b => a.1.instant ≤ b.1.instant)) :
    (place m value l).Pairwise (fun a b => a.1.instant ≤ b.1.instant) := by
  induction l with
  | nil => simp [place]
  | cons e rest ih =>
    obtain ⟨he, hrest⟩ := List.pairwise_cons.mp h
    simp only [place]
    split
    case isTrue hle =>
      refine List.pairwise_cons.mpr ⟨fun x hx => ?_, ih hrest⟩
      rcases List.mem_cons.mp ((perm_place m value rest).mem_iff.mp hx) with rfl | hx
      · exact hle
      · exact he x hx
    case isFalse hle =>
      have hlt : m.instant ≤ e.1.instant := Int.le_of_lt (Int.not_le.mp hle)
      refine List.pairwise_cons.mpr ⟨fun x hx => ?_, h⟩
      rcases List.mem_cons.mp hx with rfl | hx
      · exact hlt
      · exact Int.le_trans hlt (he x hx)

def insert (t : Timeline α) (m : Moment) (value : α) : Timeline α :=
  ⟨place m value t.entries, pairwise_place t.sorted⟩

/-- Whether a moment lies above the lower end. -/
def isAbove (inclusivity : Inclusivity) (low : Option Moment) (m : Moment) : Bool :=
  match low with
  | some l => if inclusivity.hasLow then l ≤ m else l < m
  | none => true

/-- Whether a moment lies below the upper end. -/
def isBelow (inclusivity : Inclusivity) (high : Option Moment) (m : Moment) : Bool :=
  match high with
  | some h => if inclusivity.hasHigh then m ≤ h else m < h
  | none => true

/-- The entries between two moments. A missing end is no limit. -/
def range (t : Timeline α) (low high : Option Moment) (inclusivity : Inclusivity) :
    List (Moment × α) :=
  (t.entries.dropWhile (fun e => !isAbove inclusivity low e.1)).takeWhile
    (fun e => isBelow inclusivity high e.1)

def values (t : Timeline α) : List α := t.entries.map (·.2)

def size (t : Timeline α) : Nat := t.entries.length

def isEmpty (t : Timeline α) : Bool := t.entries.isEmpty

theorem perm_insert (t : Timeline α) (m : Moment) (value : α) :
    (t.insert m value).entries.Perm ((m, value) :: t.entries) :=
  perm_place m value t.entries

end Timeline

end Daybook
