import GeneratorKit.Proofs.Diagnostics.Equality

set_option autoImplicit false

/-!
# The order of locations

Locations are compared part by part, and their paths component by component. Each of these comparisons is that of an
image under a lexicographic order, so that all are total orders with equality as their middle (`ordersTotally_of_lawful`).
How a path is spelled is lost with its components and cannot show in a comparison (`Location.totally_ordered`).
-/
namespace GeneratorKit.Diagnostics
open Std

section Orders

variable {α β : Type} [Ord α] [Ord β]

/-- The first of the two comes before the second. -/
def Before (a b : α) : Prop := compare a b = .lt

/-- A comparison that orders all values, with those that are equal at the same place. -/
structure OrdersTotally (α : Type) [BEq α] [Ord α] : Prop where
  beq_refl (a : α) : (a == a) = true
  beq_symm {a b : α} (h : (a == b) = true) : (b == a) = true
  beq_trans {a b c : α} (h : (a == b) = true) (h' : (b == c) = true) : (a == c) = true
  compare_eq_iff (a b : α) : compare a b = .eq ↔ (a == b) = true
  /-- Exactly one of the three. -/
  trichotomy (a b : α) : (Before a b ∧ ¬ (a == b) = true ∧ ¬ Before b a) ∨
    (¬ Before a b ∧ (a == b) = true ∧ ¬ Before b a) ∨ (¬ Before a b ∧ ¬ (a == b) = true ∧ Before b a)
  before_trans {a b c : α} (h : Before a b) (h' : Before b c) : Before a c
  compare_congr {a b : α} (h : (a == b) = true) (c : α) :
    compare a c = compare b c ∧ compare c a = compare c b

theorem transOrd_of_image [TransOrd β] (f : α → β) (h : ∀ a b, compare a b = compare (f a) (f b)) :
    TransOrd α where
  eq_swap {a b} := by
    rw [h, h]
    exact OrientedCmp.eq_swap
  isLE_trans {a b c} hab hbc := by
    rw [h] at hab hbc ⊢
    exact TransCmp.isLE_trans hab hbc

theorem lawfulBEqOrd_of_image [BEq α] [BEq β] [LawfulBEqOrd β] (f : α → β)
    (h : ∀ a b, compare a b = compare (f a) (f b)) (he : ∀ a b, (a == b) = (f a == f b)) : LawfulBEqOrd α where
  compare_eq_iff_beq {a b} := by
    rw [h, he]
    exact LawfulBEqCmp.compare_eq_iff_beq

theorem lawfulEqOrd_of_image [LawfulEqOrd β] (f : α → β) (hf : ∀ a b, f a = f b → a = b)
    (h : ∀ a b, compare a b = compare (f a) (f b)) : LawfulEqOrd α where
  compare_self {a} := (h a a).trans ReflCmp.compare_self
  eq_of_compare {a b} hab := hf a b (LawfulEqCmp.eq_of_compare ((h a b).symm.trans hab))

theorem ordersTotally_of_lawful [BEq α] [EquivBEq α] [TransOrd α] [LawfulBEqOrd α] : OrdersTotally α where
  beq_refl _ := BEq.rfl
  beq_symm := BEq.symm
  beq_trans := BEq.trans
  compare_eq_iff a b := LawfulBEqCmp.compare_eq_iff_beq
  trichotomy a b := by
    have hswap : compare a b = (compare b a).swap := OrientedCmp.eq_swap
    have heq : compare a b = .eq ↔ (a == b) = true := LawfulBEqCmp.compare_eq_iff_beq
    rw [← heq, Before, Before]
    cases hba : compare b a <;> rw [hba] at hswap <;> rw [hswap] <;> decide
  before_trans := TransCmp.lt_trans
  compare_congr {a b} h c := by
    have heq : compare a b = .eq := LawfulBEqCmp.compare_eq_iff_beq.2 h
    exact ⟨TransCmp.congr_left heq, TransCmp.congr_right heq⟩

end Orders

section Parts

attribute [local instance] lexOrd

instance : TransOrd Component := transOrd_of_image Component.key fun _ _ => rfl

instance : LawfulEqOrd Component :=
  lawfulEqOrd_of_image Component.key (fun _ _ => Component.key_inj) fun _ _ => rfl

theorem Component.compareAll_eq (as bs : List Component) : compareAll as bs = compare as bs := by
  induction as generalizing bs with
  | nil => cases bs <;> rfl
  | cons a as ih =>
    cases bs with
    | nil => rfl
    | cons b bs => rw [compareAll, ih, List.compare_cons_cons]

theorem Path.compare_eq (p q : Path) : compare p q = compare p.components q.components :=
  Component.compareAll_eq _ _

instance : TransOrd Path := transOrd_of_image Path.components Path.compare_eq

instance : LawfulBEqOrd Path := lawfulBEqOrd_of_image Path.components Path.compare_eq fun _ _ => rfl

instance : TransOrd Position := transOrd_of_image (fun p => (p.line, p.character)) fun _ _ => rfl

instance : LawfulEqOrd Position := by
  refine lawfulEqOrd_of_image (fun p => (p.line, p.character)) ?_ fun _ _ => rfl
  rintro ⟨_, _⟩ ⟨_, _⟩ h
  cases h
  rfl

instance : TransOrd LineSpan := transOrd_of_image (fun s => (s.start, s.stop)) fun _ _ => rfl

instance : LawfulEqOrd LineSpan := by
  refine lawfulEqOrd_of_image (fun s => (s.start, s.stop)) ?_ fun _ _ => rfl
  rintro ⟨_, _⟩ ⟨_, _⟩ h
  cases h
  rfl

instance : TransOrd TextSpan := transOrd_of_image (fun s => (s.start, s.length)) fun _ _ => rfl

instance : LawfulEqOrd TextSpan := by
  refine lawfulEqOrd_of_image (fun s => (s.start, s.length)) ?_ fun _ _ => rfl
  rintro ⟨_, _⟩ ⟨_, _⟩ h
  cases h
  rfl

instance : TransOrd Location :=
  transOrd_of_image (fun l => ((l.path, l.textSpan), l.lineSpan)) fun _ _ => rfl

theorem Location.beq_iff (l m : Location) :
    (l == m) = true ↔ (l.path == m.path) = true ∧ l.textSpan = m.textSpan ∧ l.lineSpan = m.lineSpan := by
  have hparts : (l == m) = ((l.path, l.textSpan, l.lineSpan) == (m.path, m.textSpan, m.lineSpan)) := rfl
  rw [hparts, prod_beq_iff, prod_beq_iff]
  exact and_congr_right fun _ => and_congr beq_iff_eq beq_iff_eq

theorem Location.compare_eq (l m : Location) : compare l m =
    ((compare l.path m.path).then (compare l.textSpan m.textSpan)).then (compare l.lineSpan m.lineSpan) :=
  rfl

instance : LawfulBEqOrd Location where
  compare_eq_iff_beq {l m} := by
    rw [Location.compare_eq, Ordering.then_eq_eq, Ordering.then_eq_eq, LawfulBEqCmp.compare_eq_iff_beq,
      LawfulEqCmp.compare_eq_iff_eq, LawfulEqCmp.compare_eq_iff_eq, Location.beq_iff, and_assoc]

end Parts

section Spelling

theorem segments_ne_nil (cs : List Char) : segments cs ≠ [] := by
  cases cs with
  | nil => simp [segments]
  | cons c cs =>
    rw [segments]
    split
    · simp
    · split <;> simp

/-- Every slash ends a segment and begins another. -/
theorem segments_append_slash (cs ds : List Char) : segments (cs ++ '/' :: ds) = segments cs ++ segments ds := by
  induction cs with
  | nil => rfl
  | cons c cs ih =>
    rw [List.cons_append, segments, segments, ih]
    split
    · rfl
    · obtain ⟨s, ss, hs⟩ := List.exists_cons_of_ne_nil (segments_ne_nil cs)
      rw [hs]
      rfl

namespace Path

/-- The components of segments that come behind a slash. -/
def behind (ss : List (List Char)) : List Component := ss.filterMap Component.ofSegment

/-- The components of all segments of a path that does not begin with a slash. -/
def leading : List (List Char) → List Component
  | ['.'] :: ss => .current :: behind ss
  | ss => behind ss

theorem behind_append (ss ts : List (List Char)) : behind (ss ++ ts) = behind ss ++ behind ts :=
  List.filterMap_append

theorem leading_of_ne {ss : List (List Char)} (h : ∀ ts, ss ≠ ['.'] :: ts) : leading ss = behind ss := by
  rw [leading]
  exact h

theorem leading_append {ss : List (List Char)} (h : ss ≠ []) (ts : List (List Char)) :
    leading (ss ++ ts) = leading ss ++ behind ts := by
  obtain ⟨s, ss, rfl⟩ := List.exists_cons_of_ne_nil h
  -- only the first segment can be a leading dot, and that is in `ss`
  by_cases hs : s = ['.']
  · rw [hs]
    exact congrArg (Component.current :: ·) (behind_append ss ts)
  · have hleading (us : List (List Char)) : leading (s :: us) = behind (s :: us) :=
      leading_of_ne fun _ he => hs (List.cons.inj he).1
    rw [List.cons_append, hleading, hleading, ← List.cons_append, behind_append]

theorem components_of_slash {p : Path} {cs : List Char} (h : p.text.toList = '/' :: cs) :
    p.components = .root :: behind (segments cs) := by
  rw [components, h]
  rfl

theorem components_of_ne_slash {p : Path} (h : ∀ cs, p.text.toList ≠ '/' :: cs) :
    p.components = leading (segments p.text.toList) := by
  unfold components
  split
  · next hs => exact absurd hs (h _)
  · split
    · next hs =>
      rw [hs]
      rfl
    · next hs => exact (leading_of_ne hs).symm

/-- What stands before a slash and what stands behind it are read apart; with nothing before it, the slash is the
root. -/
theorem components_slash (p q : String) : (⟨p ++ "/" ++ q⟩ : Path).components =
    (if p = "" then [.root] else (⟨p⟩ : Path).components) ++ behind (segments q.toList) := by
  have htext : (p ++ "/" ++ q).toList = p.toList ++ '/' :: q.toList := by simp
  cases hp : p.toList with
  | nil =>
    rw [hp, List.nil_append] at htext
    rw [components_of_slash htext, if_pos (String.toList_eq_nil_iff.1 hp)]
    rfl
  | cons c cs =>
    have hne : p ≠ "" := by
      rintro rfl
      cases hp
    rw [if_neg hne]
    rw [hp, List.cons_append] at htext
    by_cases hc : c = '/'
    · rw [hc] at hp htext
      rw [components_of_slash htext, components_of_slash hp, segments_append_slash, behind_append, List.cons_append]
    · have hpath : ∀ ds, (⟨p⟩ : Path).text.toList ≠ '/' :: ds := by
        intro ds h
        exact hc (List.cons.inj (hp.symm.trans h)).1
      have hlonger : ∀ ds, (⟨p ++ "/" ++ q⟩ : Path).text.toList ≠ '/' :: ds := by
        intro ds h
        exact hc (List.cons.inj (htext.symm.trans h)).1
      rw [components_of_ne_slash hpath, components_of_ne_slash hlonger]
      change leading (segments (p ++ "/" ++ q).toList) = leading (segments p.toList) ++ behind (segments q.toList)
      rw [htext, hp, ← List.cons_append, segments_append_slash]
      exact leading_append (segments_ne_nil _) _

/-- Texts that spell the same path: a slash once more, a dot between slashes and a slash at the end do not count. -/
inductive Respells : String → String → Prop where
  | slash (p q : String) : Respells (p ++ "/" ++ q) (p ++ "//" ++ q)
  | dot (p q : String) : Respells (p ++ "/" ++ q) (p ++ "/./" ++ q)
  | trailing {p : String} (h : p ≠ "") : Respells p (p ++ "/")

theorem Respells.beq {s t : String} (h : Respells s t) : ((⟨s⟩ : Path) == ⟨t⟩) = true := by
  have hcomponents : (⟨s⟩ : Path).components = (⟨t⟩ : Path).components := by
    cases h with
    | slash p q =>
      have htext : p ++ "//" ++ q = p ++ "/" ++ ("/" ++ q) := by
        rw [show "//" = "/" ++ "/" from rfl]
        simp only [String.append_assoc]
      have hsegments : segments ("/" ++ q).toList = [] :: segments q.toList := by
        rw [String.toList_append]
        rfl
      rw [htext, components_slash, components_slash, hsegments]
      rfl
    | dot p q =>
      have htext : p ++ "/./" ++ q = p ++ "/" ++ ("./" ++ q) := by
        rw [show "/./" = "/" ++ "./" from rfl]
        simp only [String.append_assoc]
      have hsegments : segments ("./" ++ q).toList = ['.'] :: segments q.toList := by
        rw [String.toList_append]
        rfl
      rw [htext, components_slash, components_slash, hsegments]
      rfl
    | trailing hne =>
      have htext : s ++ "/" = s ++ "/" ++ "" := String.append_empty.symm
      rw [htext, components_slash, if_neg hne]
      exact (List.append_nil _).symm
  exact (beq_iff_eq (a := (⟨s⟩ : Path).components)).2 hcomponents

end Path

end Spelling

section Lexicographic

theorem before_list_iff (as bs : List Component) : Before as bs ↔ List.Lex Before as bs := by
  induction as generalizing bs with
  | nil =>
    cases bs with
    | nil => exact iff_of_false nofun nofun
    | cons b bs => exact iff_of_true rfl .nil
  | cons a as ih =>
    cases bs with
    | nil => exact iff_of_false nofun nofun
    | cons b bs =>
      rw [Before, List.compare_cons_cons, Ordering.then_eq_lt, LawfulEqCmp.compare_eq_iff_eq]
      constructor
      · rintro (h | ⟨rfl, h⟩)
        · exact .rel h
        · exact .cons ((ih bs).1 h)
      · intro h
        cases h with
        | rel h => exact .inl h
        | cons h => exact .inr ⟨rfl, (ih bs).2 h⟩

/-- Two locations by their parts, from the first to the last. -/
structure Location.Lexicographic (l m : Location) : Prop where
  parts : Before l m ↔ Before l.path m.path ∨ (l.path == m.path) = true ∧
    (Before l.textSpan m.textSpan ∨ l.textSpan = m.textSpan ∧ Before l.lineSpan m.lineSpan)
  path : Before l.path m.path ↔ List.Lex Before l.path.components m.path.components
  textSpan : Before l.textSpan m.textSpan ↔ l.textSpan.start < m.textSpan.start ∨
    l.textSpan.start = m.textSpan.start ∧ l.textSpan.length < m.textSpan.length
  lineSpan : Before l.lineSpan m.lineSpan ↔ Before l.lineSpan.start m.lineSpan.start ∨
    l.lineSpan.start = m.lineSpan.start ∧ Before l.lineSpan.stop m.lineSpan.stop
  position (p q : Position) : Before p q ↔ p.line < q.line ∨ p.line = q.line ∧ p.character < q.character

theorem Position.before_iff (p q : Position) :
    Before p q ↔ p.line < q.line ∨ p.line = q.line ∧ p.character < q.character := by
  have hcompare : compare p q = (compare p.line q.line).then (compare p.character q.character) := rfl
  rw [Before, hcompare, Ordering.then_eq_lt, LawfulEqCmp.compare_eq_iff_eq, compare_eq_lt, compare_eq_lt]

theorem Location.lexicographic (l m : Location) : Lexicographic l m where
  parts := by
    rw [Before, compare_eq, Ordering.then_assoc, Ordering.then_eq_lt, Ordering.then_eq_lt,
      LawfulBEqCmp.compare_eq_iff_beq, LawfulEqCmp.compare_eq_iff_eq]
    rfl
  path := by
    rw [Before, Path.compare_eq]
    exact before_list_iff _ _
  textSpan := by
    have hcompare : compare l.textSpan m.textSpan = (compare l.textSpan.start m.textSpan.start).then
      (compare l.textSpan.length m.textSpan.length) := rfl
    rw [Before, hcompare, Ordering.then_eq_lt, LawfulEqCmp.compare_eq_iff_eq, compare_eq_lt, compare_eq_lt]
  lineSpan := by
    have hcompare : compare l.lineSpan m.lineSpan = (compare l.lineSpan.start m.lineSpan.start).then
      (compare l.lineSpan.stop m.lineSpan.stop) := rfl
    rw [Before, hcompare, Ordering.then_eq_lt, LawfulEqCmp.compare_eq_iff_eq]
    rfl
  position := Position.before_iff

end Lexicographic

theorem Location.beq_of_respells {s t : String} (h : Path.Respells s t) (text : TextSpan) (lines : LineSpan) :
    ((⟨⟨s⟩, text, lines⟩ : Location) == ⟨⟨t⟩, text, lines⟩) = true :=
  (beq_iff _ _).2 ⟨h.beq, rfl, rfl⟩

/-- Locations are totally ordered, with those that are equal at the same place: by the components of their paths,
then by their text spans and then by their line spans. So another spelling of its path changes no comparison of a
location with another one. -/
theorem Location.totally_ordered :
    OrdersTotally Location ∧ (∀ l m : Location, Lexicographic l m) ∧
      ∀ {s t : String}, Path.Respells s t → ∀ (text : TextSpan) (lines : LineSpan) (l : Location),
        compare (⟨⟨s⟩, text, lines⟩ : Location) l = compare ⟨⟨t⟩, text, lines⟩ l ∧
          compare l ⟨⟨s⟩, text, lines⟩ = compare l ⟨⟨t⟩, text, lines⟩ := by
  have htotal : OrdersTotally Location := ordersTotally_of_lawful
  exact ⟨htotal, lexicographic, fun h text lines l => htotal.compare_congr (beq_of_respells h text lines) l⟩

-- A directory comes before one whose name goes on, although the texts of the two paths are the other way round.
theorem Location.totally_ordered_directories :
    let spans (path : String) : Location := ⟨⟨path⟩, ⟨3, 4⟩, ⟨⟨0, 3⟩, ⟨0, 7⟩⟩⟩
    Path.Respells "src/b" "src/./b" ∧ Before (spans "src/b") (spans "src-x/a") ∧ "src-x/a" < "src/b" ∧
      List.Lex Before (spans "src/b").path.components (spans "src-x/a").path.components ∧
      Before (spans "src/./b") (spans "src-x/a") ∧ ¬ Before (spans "src-x/a") (spans "src/./b") := by
  intro spans
  obtain ⟨htotal, hparts, hspelled⟩ := Location.totally_ordered
  have hdot : Path.Respells "src/b" "src/./b" := .dot "src" "b"
  have hpaths : Before (spans "src/b").path (spans "src-x/a").path := by
    unfold Before
    decide +kernel
  have hbefore : Before (spans "src/b") (spans "src-x/a") := (hparts _ _).parts.2 (.inl hpaths)
  have hbefore' : Before (spans "src/./b") (spans "src-x/a") :=
    ((hspelled hdot _ _ (spans "src-x/a")).1).symm.trans hbefore
  refine ⟨hdot, hbefore, by decide +kernel, (hparts _ _).path.1 hpaths, hbefore', ?_⟩
  rcases htotal.trichotomy (spans "src/./b") (spans "src-x/a") with h | h | h
  · exact h.2.2
  · exact h.2.2
  · exact absurd hbefore' h.1

end GeneratorKit.Diagnostics
