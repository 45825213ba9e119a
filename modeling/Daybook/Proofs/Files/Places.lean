import Daybook.Proofs.Files.Settled

/-!
# Places of an expansion

A directive's place is the list of the positions that lead to it: of the directives to follow from
file to file, and of its own in the last one. Places are ordered as the words of a dictionary are.
An expansion has each file at the first place that leads to it, and each directive at its place in
a file that is at its first place; the files and the directives stand in the order of the places
(`Expands.inOrder`).
-/

namespace Daybook

/-! ## Lists in the order of places -/

/-- The list has just what stands at the places, in their order. -/
def InOrder {α : Type} (Stands : List Nat → α → Prop) (l : List α) : Prop :=
  ∃ placed : List (List Nat × α), placed.map (·.2) = l ∧ placed.Pairwise (fun x y => x.1 < y.1) ∧
    ∀ place a, (place, a) ∈ placed ↔ Stands place a

namespace InOrder

variable {α : Type} {Stands Stands' : List Nat → α → Prop} {l l' : List α}

theorem congr (h : InOrder Stands l) (hiff : ∀ place a, Stands' place a ↔ Stands place a) :
    InOrder Stands' l := by
  obtain ⟨placed, hl, hsorted, hmem⟩ := h
  exact ⟨placed, hl, hsorted, fun place a => (hmem place a).trans (hiff place a).symm⟩

theorem exists_of_mem (h : InOrder Stands l) {a : α} (ha : a ∈ l) : ∃ place, Stands place a := by
  obtain ⟨placed, rfl, -, hmem⟩ := h
  obtain ⟨⟨place, a⟩, hplaced, rfl⟩ := List.mem_map.mp ha
  exact ⟨place, (hmem place a).mp hplaced⟩

theorem nil (hnone : ∀ place a, ¬Stands place a) : InOrder Stands [] :=
  ⟨[], rfl, .nil, fun place a => by simp [hnone place a]⟩

theorem singleton (place : List Nat) (a : α) : InOrder (fun p b => p = place ∧ b = a) [a] :=
  ⟨[(place, a)], rfl, List.pairwise_singleton _ _, by simp⟩

theorem append (h : InOrder Stands l) (h' : InOrder Stands' l')
    (hlt : ∀ p a q b, Stands p a → Stands' q b → p < q) :
    InOrder (fun place a => Stands place a ∨ Stands' place a) (l ++ l') := by
  obtain ⟨placed, rfl, hsorted, hmem⟩ := h
  obtain ⟨placed', rfl, hsorted', hmem'⟩ := h'
  refine ⟨placed ++ placed', List.map_append, ?_, ?_⟩
  · refine List.pairwise_append.mpr ⟨hsorted, hsorted', ?_⟩
    rintro ⟨p, a⟩ hp ⟨q, b⟩ hq
    exact hlt p a q b ((hmem p a).mp hp) ((hmem' q b).mp hq)
  · intro place a
    rw [List.mem_append, hmem, hmem']

theorem map (h : InOrder Stands l) {f : List Nat → List Nat} (hf : ∀ p q, p < q → f p < f q) :
    InOrder (fun place a => ∃ q, place = f q ∧ Stands q a) l := by
  obtain ⟨placed, rfl, hsorted, hmem⟩ := h
  refine ⟨placed.map fun x => (f x.1, x.2), by simp, ?_, ?_⟩
  · exact List.pairwise_map.mpr (hsorted.imp fun {x y} hlt => hf x.1 y.1 hlt)
  · intro place a
    simp only [List.mem_map, Prod.mk.injEq, Prod.exists]
    constructor
    · rintro ⟨q, b, hmem', rfl, rfl⟩
      exact ⟨q, rfl, (hmem q b).mp hmem'⟩
    · rintro ⟨q, rfl, hstands⟩
      exact ⟨q, a, (hmem q a).mpr hstands, rfl, rfl⟩

end InOrder

def FirstTo (ends : List Nat → Option String) (place : List Nat) (file : String) : Prop :=
  ends place = some file ∧ ∀ p, ends p = some file → ¬p < place

namespace Files

/-- The directive stands at the place: it includes no file, and is in a file that is at the first of
the places that lead to it from a given one. -/
def StandsAt (files : Files) (today : Date) (file : String) (place : List Nat)
    (d : Spanned Directive) : Prop :=
  (∀ path, d.value ≠ .includeFile path) ∧
    ∃ first k other journal, place = first ++ [k] ∧
      FirstTo (files.follow? today file) first other ∧
      files.journal? today other = some journal ∧ journal.directives[k]? = some d

end Files

namespace Expansion

/-! ## Places of a task -/

/-- The place as seen from one directive before. -/
def later : List Nat → List Nat
  | [] => []
  | k :: place => (k + 1) :: place

theorem later_lt_later_iff {p q : List Nat} : later p < later q ↔ p < q := by
  cases p <;> cases q <;> simp [later, List.cons_lt_cons_iff]

theorem zero_cons_lt_later {p q : List Nat} (hq : q ≠ []) : 0 :: p < later q := by
  cases q with
  | nil => exact absurd rfl hq
  | cons k q => simp [later, List.cons_lt_cons_iff]

theorem later_append {p q : List Nat} (hp : p ≠ []) : later p ++ q = later (p ++ q) := by
  cases p with
  | nil => exact absurd rfl hp
  | cons k p => rfl

/-- The file that a place leads to. -/
def leadsTo? (files : Files) (today : Date) : Task → List Nat → Option String
  | .file name, place => files.follow? today name place
  | .rest _ _, [] => none
  | .rest directory ds, k :: place =>
    (ds[k]?.bind (files.target? directory)).bind fun file => files.follow? today file place

/-- The directives that stand at places of one position. -/
def own : Task → List (Spanned Directive)
  | .file _ => []
  | .rest _ ds => ds

/-- The file was not read before, and the place is the first that leads to it. -/
def New (files : Files) (today : Date) (i : Inclusions) (task : Task) (place : List Nat)
    (file : String) : Prop :=
  file ∉ i.known ∧ FirstTo (leadsTo? files today task) place file

/-- The directive stands at the place, its own or one in a file that was not read before, and
includes no file. -/
def Keeps (files : Files) (today : Date) (i : Inclusions) (task : Task) (place : List Nat)
    (d : Spanned Directive) : Prop :=
  (∀ path, d.value ≠ .includeFile path) ∧
    ((∃ k, place = [k] ∧ (own task)[k]? = some d) ∨
      ∃ first k file journal, place = first ++ [k] ∧ New files today i task first file ∧
        files.journal? today file = some journal ∧ journal.directives[k]? = some d)

variable {files : Files} {today : Date} {task : Task} {i j : Inclusions} {e : Expansion}
  {file directory : String} {d x : Spanned Directive} {ds : List (Spanned Directive)}
  {place : List Nat}

theorem New.ne_nil (h : New files today i (.rest directory ds) place file) : place ≠ [] := by
  intro hplace
  subst hplace
  exact absurd h.2.1 nofun

theorem Keeps.ne_nil (h : Keeps files today i task place d) : place ≠ [] := by
  obtain ⟨-, ⟨k, rfl, -⟩ | ⟨first, k, file, journal, rfl, -⟩⟩ := h
  · simp
  · simp

theorem not_keeps_of_not_new (hown : own task = [])
    (hnone : ∀ place file, ¬New files today i task place file) (place : List Nat)
    (d : Spanned Directive) : ¬Keeps files today i task place d := by
  rintro ⟨-, ⟨k, -, hk⟩ | ⟨first, k, file, -, -, hnew, -⟩⟩
  · simp [hown] at hk
  · exact hnone first file hnew

/-! ### Of a file -/

theorem not_new_of_done (hi : Settled files today i) (hdone : i.Done file) {other : String} :
    ¬New files today i (.file file) place other := by
  intro hnew
  have hreach := Files.reaches_iff_follow?.mpr ⟨place, hnew.2.1⟩
  exact hnew.1 (hi.done_of_reaches hdone hreach).1

theorem leadsTo?_file_iff {journal : Journal} (hjournal : files.journal? today file = some journal)
    {other : String} : leadsTo? files today (.file file) place = some other ↔
      (place = [] ∧ other = file) ∨
        leadsTo? files today (.rest (Path.directory file) journal.directives) place =
          some other := by
  cases place with
  | nil => simp [leadsTo?, Files.follow?, eq_comm]
  | cons k place =>
    simp only [leadsTo?, Files.follow?, Files.included?, hjournal, Option.bind_eq_bind,
      Option.bind_some, reduceCtorEq, false_and, false_or]

theorem new_file_iff {journal : Journal} (hfresh : i.Fresh file)
    (hjournal : files.journal? today file = some journal) {other : String} :
    New files today i (.file file) place other ↔ (place = [] ∧ other = file) ∨
      New files today (i.enter file) (.rest (Path.directory file) journal.directives) place
        other := by
  have hends : ∀ p, leadsTo? files today (.file file) p = some other ↔ (p = [] ∧ other = file) ∨
      leadsTo? files today (.rest (Path.directory file) journal.directives) p = some other :=
    fun p => leadsTo?_file_iff hjournal
  constructor
  · rintro ⟨hnew, hend, hfirst⟩
    rcases (hends place).mp hend with hself | hrest
    · exact .inl hself
    · refine .inr ⟨?_, hrest, fun p hp => hfirst p ((hends p).mpr (.inr hp))⟩
      intro hknown
      rcases List.mem_cons.mp hknown with heq | hknown
      · have hself := hfirst [] ((hends []).mpr (.inl ⟨rfl, heq⟩))
        cases place with
        | nil => exact absurd hrest nofun
        | cons k p => exact hself (List.nil_lt_cons k p)
      · exact hnew hknown
  · rintro (⟨rfl, rfl⟩ | ⟨hnew, hend, hfirst⟩)
    · exact ⟨hfresh.2, rfl, fun p _ => List.not_lt_nil p⟩
    · refine ⟨fun hknown => hnew (List.mem_cons_of_mem _ hknown), (hends place).mpr (.inr hend), ?_⟩
      intro p hp
      rcases (hends p).mp hp with ⟨-, heq⟩ | hp
      · exact absurd (heq ▸ List.mem_cons_self) hnew
      · exact hfirst p hp

theorem keeps_file_iff {journal : Journal} (hfresh : i.Fresh file)
    (hjournal : files.journal? today file = some journal) :
    Keeps files today i (.file file) place d ↔
      Keeps files today (i.enter file) (.rest (Path.directory file) journal.directives) place
        d := by
  refine and_congr_right fun _ => ?_
  simp only [new_file_iff hfresh hjournal, own, List.getElem?_nil, reduceCtorEq, and_false,
    exists_false, false_or]
  constructor
  · rintro ⟨first, k, other, journal', rfl, ⟨rfl, rfl⟩ | hnew, hjournal', hk⟩
    · obtain rfl := Option.some.inj (hjournal.symm.trans hjournal')
      exact .inl ⟨k, rfl, hk⟩
    · exact .inr ⟨first, k, other, journal', rfl, hnew, hjournal', hk⟩
  · rintro (⟨k, rfl, hk⟩ | ⟨first, k, other, journal', rfl, hnew, hjournal', hk⟩)
    · exact ⟨[], k, file, journal, rfl, .inl ⟨rfl, rfl⟩, hjournal, hk⟩
    · exact ⟨first, k, other, journal', rfl, .inr hnew, hjournal', hk⟩

/-! ### Of directives -/

theorem leadsTo?_zero (place : List Nat) :
    leadsTo? files today (.rest directory (x :: ds)) (0 :: place) =
      (files.target? directory x).bind fun file => leadsTo? files today (.file file) place :=
  rfl

theorem leadsTo?_later (place : List Nat) :
    leadsTo? files today (.rest directory (x :: ds)) (later place) =
      leadsTo? files today (.rest directory ds) place := by
  cases place <;> rfl

/-- A place among directives leads on from the first of them, or from a later one. -/
theorem exists_of_leadsTo?_cons {file : String}
    (h : leadsTo? files today (.rest directory (x :: ds)) place = some file) :
    (∃ p first, place = 0 :: p ∧ files.target? directory x = some first ∧
        leadsTo? files today (.file first) p = some file) ∨
      ∃ p, place = later p ∧ p ≠ [] ∧ leadsTo? files today (.rest directory ds) p = some file := by
  match place with
  | [] => exact absurd h nofun
  | 0 :: p =>
    obtain ⟨first, htarget, hp⟩ := Option.bind_eq_some_iff.mp h
    exact .inl ⟨p, first, rfl, htarget, hp⟩
  | (k + 1) :: p => exact .inr ⟨k :: p, rfl, by simp, h⟩

theorem new_other_iff (hvalue : ∀ path, x.value ≠ .includeFile path) :
    New files today i (.rest directory (x :: ds)) place file ↔
      ∃ p, place = later p ∧ New files today i (.rest directory ds) p file := by
  constructor
  · rintro ⟨hnew, hend, hfirst⟩
    obtain ⟨p, first, rfl, htarget, -⟩ | ⟨p, rfl, -, hp⟩ := exists_of_leadsTo?_cons hend
    · exact absurd htarget (not_target_of_other hvalue)
    · refine ⟨p, rfl, hnew, hp, fun q hq hlt => ?_⟩
      exact hfirst (later q) ((leadsTo?_later q).trans hq) (later_lt_later_iff.mpr hlt)
  · rintro ⟨p, rfl, hnew, hend, hfirst⟩
    refine ⟨hnew, (leadsTo?_later p).trans hend, fun q hq hlt => ?_⟩
    obtain ⟨q, first, rfl, htarget, -⟩ | ⟨q, rfl, -, hq⟩ := exists_of_leadsTo?_cons hq
    · exact not_target_of_other hvalue htarget
    · exact hfirst q hq (later_lt_later_iff.mp hlt)

/-- What the first directive leads to has been read before the later ones are expanded, so that
no place from a later one is the first that leads there. -/
theorem new_included_iff {first : String} (htarget : files.target? directory x = some first)
    (hknown : ∀ file, file ∈ j.known ↔ file ∈ i.known ∨ files.Reaches today first file) :
    New files today i (.rest directory (x :: ds)) place file ↔
      (∃ p, place = 0 :: p ∧ New files today i (.file first) p file) ∨
        ∃ p, place = later p ∧ New files today j (.rest directory ds) p file := by
  have hzero : ∀ p, leadsTo? files today (.rest directory (x :: ds)) (0 :: p) =
      leadsTo? files today (.file first) p := by
    intro p
    rw [leadsTo?_zero, htarget, Option.bind_some]
  constructor
  · rintro ⟨hnew, hend, hfirst⟩
    obtain ⟨p, other, rfl, hother, hp⟩ | ⟨p, rfl, hne, hp⟩ := exists_of_leadsTo?_cons hend
    · obtain rfl := Option.some.inj (htarget.symm.trans hother)
      refine .inl ⟨p, rfl, hnew, hp, fun q hq hlt => ?_⟩
      exact hfirst (0 :: q) ((hzero q).trans hq) (List.cons_lt_cons_iff.mpr (.inr ⟨rfl, hlt⟩))
    · refine .inr ⟨p, rfl, ?_, hp, fun q hq hlt => ?_⟩
      · intro hmem
        rcases (hknown file).mp hmem with hbefore | hreach
        · exact hnew hbefore
        · obtain ⟨q, hq⟩ := Files.reaches_iff_follow?.mp hreach
          exact hfirst (0 :: q) ((hzero q).trans hq) (zero_cons_lt_later hne)
      · exact hfirst (later q) ((leadsTo?_later q).trans hq) (later_lt_later_iff.mpr hlt)
  · rintro (⟨p, rfl, hnew, hend, hfirst⟩ | ⟨p, rfl, hnew, hend, hfirst⟩)
    · refine ⟨hnew, (hzero p).trans hend, fun q hq hlt => ?_⟩
      obtain ⟨q, other, rfl, hother, hq⟩ | ⟨q, rfl, hne, -⟩ := exists_of_leadsTo?_cons hq
      · obtain rfl := Option.some.inj (htarget.symm.trans hother)
        exact hfirst q hq (by simpa [List.cons_lt_cons_iff] using hlt)
      · exact List.lt_asymm hlt (zero_cons_lt_later hne)
    · refine ⟨fun hmem => hnew ((hknown file).mpr (.inl hmem)), (leadsTo?_later p).trans hend, ?_⟩
      intro q hq hlt
      obtain ⟨q, other, rfl, hother, hq⟩ | ⟨q, rfl, -, hq⟩ := exists_of_leadsTo?_cons hq
      · obtain rfl := Option.some.inj (htarget.symm.trans hother)
        exact hnew ((hknown file).mpr (.inr (Files.reaches_iff_follow?.mpr ⟨q, hq⟩)))
      · exact hfirst q hq (later_lt_later_iff.mp hlt)

/-- The directives that stand at places are the own ones and those of new files. If the new files are
those of `Here` and those of the later directives, then so are the directives. -/
theorem keeps_cons_iff {Here : List Nat → String → Prop}
    (hnew : ∀ place file, New files today i (.rest directory (x :: ds)) place file ↔
      Here place file ∨ ∃ p, place = later p ∧ New files today j (.rest directory ds) p file) :
    Keeps files today i (.rest directory (x :: ds)) place d ↔
      ((∀ path, d.value ≠ .includeFile path) ∧ ((place = [0] ∧ d = x) ∨
        ∃ first k file journal, place = first ++ [k] ∧ Here first file ∧
          files.journal? today file = some journal ∧ journal.directives[k]? = some d)) ∨
      ∃ p, place = later p ∧ Keeps files today j (.rest directory ds) p d := by
  constructor
  · rintro ⟨hd, ⟨k, rfl, hk⟩ | ⟨first, k, file, journal, rfl, hfile, hjournal, hk⟩⟩
    · cases k with
      | zero => exact .inl ⟨hd, .inl ⟨rfl, (Option.some.inj hk).symm⟩⟩
      | succ k => exact .inr ⟨[k], rfl, hd, .inl ⟨k, rfl, hk⟩⟩
    · rcases (hnew first file).mp hfile with hhere | ⟨p, rfl, hlater⟩
      · exact .inl ⟨hd, .inr ⟨first, k, file, journal, rfl, hhere, hjournal, hk⟩⟩
      · exact .inr ⟨p ++ [k], later_append hlater.ne_nil, hd,
          .inr ⟨p, k, file, journal, rfl, hlater, hjournal, hk⟩⟩
  · rintro (⟨hd, ⟨rfl, rfl⟩ | ⟨first, k, file, journal, rfl, hhere, hjournal, hk⟩⟩ |
      ⟨p, rfl, hd, ⟨k, rfl, hk⟩ | ⟨first, k, file, journal, rfl, hlater, hjournal, hk⟩⟩)
    · exact ⟨hd, .inl ⟨0, rfl, rfl⟩⟩
    · exact ⟨hd, .inr ⟨first, k, file, journal, rfl, (hnew _ _).mpr (.inl hhere), hjournal, hk⟩⟩
    · exact ⟨hd, .inl ⟨k + 1, rfl, hk⟩⟩
    · exact ⟨hd, .inr ⟨later first, k, file, journal, (later_append hlater.ne_nil).symm,
        (hnew _ _).mpr (.inr ⟨first, rfl, hlater⟩), hjournal, hk⟩⟩

theorem keeps_other_iff (hvalue : ∀ path, x.value ≠ .includeFile path) :
    Keeps files today i (.rest directory (x :: ds)) place d ↔ (place = [0] ∧ d = x) ∨
      ∃ p, place = later p ∧ Keeps files today i (.rest directory ds) p d := by
  have hnew : ∀ place file, New files today i (.rest directory (x :: ds)) place file ↔
      False ∨ ∃ p, place = later p ∧ New files today i (.rest directory ds) p file :=
    fun place file => by rw [new_other_iff hvalue, false_or]
  rw [keeps_cons_iff hnew]
  refine or_congr_left ?_
  constructor
  · rintro ⟨-, hself | ⟨-, -, -, -, -, hfalse, -⟩⟩
    · exact hself
    · exact hfalse.elim
  · rintro ⟨rfl, rfl⟩
    exact ⟨hvalue, .inl ⟨rfl, rfl⟩⟩

theorem keeps_included_iff {first : String} (htarget : files.target? directory x = some first)
    (hknown : ∀ file, file ∈ j.known ↔ file ∈ i.known ∨ files.Reaches today first file) :
    Keeps files today i (.rest directory (x :: ds)) place d ↔
      (∃ p, place = 0 :: p ∧ Keeps files today i (.file first) p d) ∨
        ∃ p, place = later p ∧ Keeps files today j (.rest directory ds) p d := by
  rw [keeps_cons_iff fun place file => new_included_iff htarget hknown]
  refine or_congr_left ?_
  constructor
  · rintro ⟨hd, ⟨rfl, rfl⟩ | ⟨-, k, file, journal, rfl, ⟨p, rfl, hfile⟩, hjournal, hk⟩⟩
    · exact absurd htarget (not_target_of_other hd)
    · exact ⟨p ++ [k], rfl, hd, .inr ⟨p, k, file, journal, rfl, hfile, hjournal, hk⟩⟩
  · rintro ⟨p, rfl, hd, ⟨k, -, hk⟩ | ⟨p, k, file, journal, rfl, hfile, hjournal, hk⟩⟩
    · exact absurd hk nofun
    · exact ⟨hd, .inr ⟨0 :: p, k, file, journal, rfl, ⟨p, rfl, hfile⟩, hjournal, hk⟩⟩

/-! ### In order -/

theorem Expands.inOrder (h : Expands files today task i e j) (hi : Settled files today i) :
    InOrder (New files today i task) e.files ∧ InOrder (Keeps files today i task) e.directives := by
  induction h with
  | known hchain hknown =>
    have hnone : ∀ place file, ¬New files today _ (.file _) place file :=
      fun place file => not_new_of_done hi ⟨hknown, hchain⟩
    exact ⟨.nil hnone, .nil (not_keeps_of_not_new rfl hnone)⟩
  | @opened file i j journal e hfresh hjournal _ _ ih =>
    obtain ⟨hfiles, hdirectives⟩ := ih (hi.enter hfresh)
    constructor
    · refine ((InOrder.singleton [] file).append hfiles ?_).congr
        fun place other => new_file_iff hfresh hjournal
      rintro p a q b ⟨rfl, -⟩ hnew
      obtain ⟨k, q, rfl⟩ := List.exists_cons_of_ne_nil hnew.ne_nil
      exact List.nil_lt_cons k q
    · exact hdirectives.congr fun place d => keeps_file_iff hfresh hjournal
  | @nil directory i =>
    have hnone : ∀ place file, ¬New files today i (.rest directory []) place file := by
      rintro (_ | ⟨k, place⟩) file ⟨-, hend, -⟩
      · exact absurd hend nofun
      · exact absurd hend nofun
    exact ⟨.nil hnone, .nil (not_keeps_of_not_new rfl hnone)⟩
  | @other directory d ds i j e hvalue _ ih =>
    obtain ⟨hfiles, hdirectives⟩ := ih hi
    have hlater : ∀ p q, p < q → later p < later q := fun p q => later_lt_later_iff.mpr
    constructor
    · exact (hfiles.map hlater).congr fun place file => new_other_iff hvalue
    · refine ((InOrder.singleton [0] d).append (hdirectives.map hlater)
        ?_).congr fun place d => keeps_other_iff hvalue
      rintro p a _ b ⟨rfl, -⟩ ⟨q, rfl, hkeeps⟩
      exact zero_cons_lt_later hkeeps.ne_nil
  | @included directory first d ds i j k a e htarget hfile _ ihfile ihrest =>
    obtain ⟨hfiles, hdirectives⟩ := ihfile hi
    obtain ⟨hfiles', hdirectives'⟩ := ihrest (hfile.settled hi).1
    -- All that the first directive reaches has been read when the later ones are expanded.
    have hknown : ∀ file, file ∈ j.known ↔ file ∈ i.known ∨ files.Reaches today first file :=
      fun file => hfile.mem_known_iff_reaches hi
    have hzero : ∀ p q : List Nat, p < q → 0 :: p < 0 :: q :=
      fun p q hlt => List.cons_lt_cons_iff.mpr (.inr ⟨rfl, hlt⟩)
    have hlater : ∀ p q, p < q → later p < later q := fun p q => later_lt_later_iff.mpr
    constructor
    · refine ((hfiles.map hzero).append (hfiles'.map hlater) ?_).congr
        fun place file => new_included_iff htarget hknown
      rintro _ a _ b ⟨p, rfl, -⟩ ⟨q, rfl, hnew⟩
      exact zero_cons_lt_later hnew.ne_nil
    · refine ((hdirectives.map hzero).append (hdirectives'.map hlater)
        ?_).congr fun place d => keeps_included_iff htarget hknown
      rintro _ a _ b ⟨p, rfl, -⟩ ⟨q, rfl, hkeeps⟩
      exact zero_cons_lt_later hkeeps.ne_nil

end Expansion

end Daybook
