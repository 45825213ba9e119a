import Daybook.Proofs.Journal.Steps
import Daybook.Proofs.Journal.WrittenHead

/-!
# What is read as a transaction

Every transaction of a journal is such as lines can give, in its head and in each of its postings
(`ofText_isRead`): reading a line keeps this of all items, and of the open one.
-/

namespace Daybook

open Daybook.Text Daybook.Result

/-- The transaction is such as lines can give. -/
structure Transaction.IsRead (t : Transaction) : Prop where
  head : t.HeadIsRead
  postings : ∀ p ∈ t.postings, p.IsRead

namespace Transaction

variable {t : Transaction}

theorem HeadIsRead.annotate (h : t.HeadIsRead) (text : List Char) : (t.annotate text).HeadIsRead :=
  { h with note := Annotations.add_isReadNote h.note text }

theorem IsRead.withLines (h : t.IsRead) (lines : Nat × Nat) (digest : String) :
    { t with lines, digest }.IsRead := ⟨{ h.head with }, h.postings⟩

end Transaction

namespace Directive

/-- A transaction is such as lines can give. -/
def IsRead : Directive → Prop
  | .transaction t => t.IsRead
  | _ => True

theorem isRead_of_ne {d : Directive} (h : ∀ t, d ≠ .transaction t) : d.IsRead := by
  cases d with
  | transaction t => exact absurd rfl (h t)
  | _ => trivial

end Directive

/-- An open transaction is such as lines can give. -/
def Block.IsRead : Block → Prop
  | .transaction t _ _ => t.IsRead
  | _ => True

theorem Block.IsRead.item {b : Block} (h : b.IsRead) : ∀ d ∈ b.item?, d.value.IsRead := by
  intro d hd
  cases b with
  | closed | skipped => cases hd
  | transaction t span lines =>
    obtain rfl := Option.some.inj hd
    exact Transaction.IsRead.withLines h _ _
  | account | commodity | payee =>
    obtain rfl := Option.some.inj hd
    trivial
  | verbatim kind =>
    obtain rfl := Option.some.inj hd
    cases kind <;> trivial

namespace Journal.Reading

variable {r r' : Reading} {n : Nat} {line body : List Char} {year : Int} {t t' : Transaction}

/-- All transactions so far are such as lines can give. -/
structure IsRead (r : Reading) : Prop where
  directives : ∀ d ∈ r.directives, d.value.IsRead
  block : r.block.IsRead

theorem IsRead.close (h : r.IsRead) : r.close.IsRead := by
  rw [close_eq]
  refine ⟨fun d hd => ?_, trivial⟩
  rcases List.mem_append.mp hd with hd | hd
  · exact h.block.item d (Option.mem_toList.mp hd)
  · exact h.directives d hd

theorem addToTransaction_isRead (h : t.IsRead) (hline : '\n' ∉ body)
    (hadd : addToTransaction t body year = .ok t') : t'.IsRead := by
  unfold addToTransaction at hadd
  split at hadd
  case h_1 text =>
    split at hadd
    case h_1 p hlast =>
      obtain rfl := Except.ok.inj hadd
      refine ⟨{ h.head with }, fun q hq => ?_⟩
      rcases List.mem_append.mp hq with hq | hq
      · exact h.postings q ((List.dropLast_sublist _).subset hq)
      · obtain rfl := List.mem_singleton.mp hq
        exact (h.postings p (List.mem_of_getLast? hlast)).annotate text
    case h_2 =>
      obtain rfl := Except.ok.inj hadd
      exact ⟨h.head.annotate text, h.postings⟩
  case h_2 =>
    obtain ⟨p, hp, hadd⟩ := bind_eq_ok_iff.mp hadd
    obtain rfl := pure_eq_ok_iff.mp hadd
    refine ⟨{ h.head with }, fun q hq => ?_⟩
    rcases List.mem_append.mp hq with hq | hq
    · exact h.postings q hq
    · obtain rfl := List.mem_singleton.mp hq
      exact Line.readPosting_isRead hline hp

theorem IsRead.continueWith {α : Type} {unchanged : α} {result : Line.Result α} {block : α → Block}
    (h : r.IsRead) (hunchanged : (block unchanged).IsRead)
    (hresult : ∀ a, result = .ok a → (block a).IsRead) :
    (r.continueWith n line unchanged result block).IsRead := by
  cases result with
  | ok a => exact ⟨h.directives, hresult a rfl⟩
  | error fault => exact ⟨h.directives, hunchanged⟩

theorem IsRead.indented (h : r.IsRead) (hline : '\n' ∉ line) : (r.indented n line).IsRead := by
  have hblock := h.block
  unfold Reading.indented
  split
  case h_1 => exact ⟨h.directives, h.block⟩
  case h_2 => exact h
  case h_3 t span lines ht =>
    rw [ht] at hblock
    refine h.continueWith hblock fun t' ht' => addToTransaction_isRead hblock (fun hmem => ?_) ht'
    exact hline ((trim_isInfix line).subset hmem)
  case h_4 | h_5 | h_6 => exact h.continueWith trivial fun _ _ => trivial
  case h_7 => exact h

theorem IsRead.directive (h : r.IsRead) (hr' : r.directive n line = .ok r') : r'.IsRead := by
  simp only [Reading.directive] at hr'
  split at hr'
  case h_1 | h_2 | h_3 =>
    obtain ⟨name, -, hr'⟩ := bind_eq_ok_iff.mp hr'
    obtain rfl := pure_eq_ok_iff.mp hr'
    exact ⟨h.directives, trivial⟩
  case h_4 | h_5 =>
    obtain rfl := pure_eq_ok_iff.mp hr'
    exact ⟨h.directives, trivial⟩
  case h_6 =>
    obtain ⟨d, hd, hr'⟩ := bind_eq_ok_iff.mp hr'
    split at hr'
    case h_1 =>
      obtain rfl := pure_eq_ok_iff.mp hr'
      exact ⟨List.forall_mem_cons.mpr ⟨trivial, h.directives⟩, h.block⟩
    case h_2 =>
      obtain rfl := pure_eq_ok_iff.mp hr'
      have hitem : d.IsRead :=
        Directive.isRead_of_ne (Line.readDirective_keyworded hd).ne_transaction
      exact ⟨List.forall_mem_cons.mpr ⟨hitem, h.directives⟩, h.block⟩

theorem IsRead.unindented (h : r.IsRead) (hline : '\n' ∉ line)
    (hr' : r.unindented n line = .ok r') : r'.IsRead := by
  unfold Reading.unindented at hr'
  split at hr'
  case h_2 => exact h.directive hr'
  split at hr'
  · obtain ⟨t, ht, hr'⟩ := bind_eq_ok_iff.mp hr'
    obtain rfl := pure_eq_ok_iff.mp hr'
    obtain ⟨hhead, hpostings⟩ := Line.readHead_isRead hline ht
    refine ⟨h.directives, hhead, fun p hp => ?_⟩
    rw [hpostings] at hp
    cases hp
  split at hr'
  · obtain rfl := pure_eq_ok_iff.mp hr'
    exact ⟨List.forall_mem_cons.mpr ⟨trivial, h.directives⟩, h.block⟩
  split at hr'
  · obtain ⟨p, -, hr'⟩ := bind_eq_ok_iff.mp hr'
    obtain rfl := pure_eq_ok_iff.mp hr'
    exact ⟨List.forall_mem_cons.mpr ⟨trivial, h.directives⟩, h.block⟩
  · exact h.directive hr'

theorem IsRead.step (h : r.IsRead) (hline : '\n' ∉ line) (n : Nat) : (r.step n line).IsRead := by
  cases hblock : r.block.isVerbatim with
  | true =>
    obtain ⟨kind, opening, body, span, hverbatim⟩ := Block.isVerbatim_iff.mp hblock
    rw [step_of_verbatim hverbatim]
    split
    · exact IsRead.close ⟨h.directives, trivial⟩
    · exact ⟨h.directives, trivial⟩
  | false =>
    rw [step_of_read hblock]
    split
    · exact h.close
    split
    · exact h.indented hline
    split
    case h_1 r' hr' => exact h.close.unindented hline hr'
    case h_2 => exact ⟨h.close.directives, trivial⟩

theorem IsRead.steps {lines : List (List Char)} (h : r.IsRead)
    (hlines : ∀ line ∈ lines, '\n' ∉ line) (n : Nat) : (r.steps n lines).IsRead := by
  induction lines generalizing r n with
  | nil => exact h
  | cons line rest ih =>
    obtain ⟨hline, hrest⟩ := List.forall_mem_cons.mp hlines
    exact ih (h.step hline n) hrest (n + 1)

end Journal.Reading

namespace Journal

theorem ofText_isRead {source : String} {today : Date} {t : Transaction} {span : Span}
    (h : ⟨.transaction t, span⟩ ∈ (ofText source today).directives) : t.IsRead := by
  have hstart : (Reading.start today).IsRead := ⟨fun d hd => absurd hd List.not_mem_nil, trivial⟩
  have hread : ((Reading.start today).steps 1 (lines source.toList)).IsRead :=
    hstart.steps (fun line hline => not_mem_of_mem_lines hline) 1
  rw [ofText] at h
  rcases Reading.finish_directives _ with hitems | hitems <;> rw [hitems] at h
  · exact hread.directives _ (List.mem_reverse.mp h)
  · exact hread.close.directives _ (List.mem_reverse.mp h)

end Journal

end Daybook
