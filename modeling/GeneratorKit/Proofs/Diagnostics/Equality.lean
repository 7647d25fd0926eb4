import GeneratorKit.Diagnostics.Outcome

set_option autoImplicit false

/-!
# Equality of outcomes

Outcomes, records and locations are equal part by part, and paths by their components. So equality is an
equivalence (`equivBEqOutcome`), although equal outcomes can differ in how their paths are spelled.
-/
namespace GeneratorKit
variable {α β : Type} [BEq α] [BEq β]

instance equivBEqOption [EquivBEq α] : EquivBEq (Option α) where
  symm {a b} h := by
    cases a <;> cases b
    · exact h
    · cases h
    · cases h
    · exact BEq.symm (α := α) h
  trans {a b c} h k := by
    cases a <;> cases b <;> cases c
    · exact h
    · exact k
    · cases h
    · cases h
    · cases h
    · cases h
    · cases k
    · exact BEq.trans (α := α) h k

instance equivBEqList [EquivBEq α] : EquivBEq (List α) where
  symm {as bs} h := by
    induction as generalizing bs with
    | nil =>
      cases bs with
      | nil => rfl
      | cons b bs => cases h
    | cons a as ih =>
      cases bs with
      | nil => cases h
      | cons b bs =>
        rw [List.cons_beq_cons, Bool.and_eq_true] at h ⊢
        exact ⟨BEq.symm h.1, ih h.2⟩
  trans {as bs cs} h k := by
    induction as generalizing bs cs with
    | nil =>
      cases bs with
      | nil => exact k
      | cons b bs => cases h
    | cons a as ih =>
      cases bs with
      | nil => cases h
      | cons b bs =>
        cases cs with
        | nil => cases k
        | cons c cs =>
          rw [List.cons_beq_cons, Bool.and_eq_true] at h k ⊢
          exact ⟨BEq.trans h.1 k.1, ih h.2 k.2⟩

theorem prod_beq_iff {p q : α × β} : p == q ↔ p.1 == q.1 ∧ p.2 == q.2 := by
  rw [show (p == q) = (p.1 == q.1 && p.2 == q.2) from rfl, Bool.and_eq_true]

instance equivBEqProd [EquivBEq α] [EquivBEq β] : EquivBEq (α × β) where
  rfl := prod_beq_iff.2 ⟨BEq.rfl, BEq.rfl⟩
  symm h := prod_beq_iff.2 ((prod_beq_iff.1 h).imp BEq.symm BEq.symm)
  trans h k := by
    obtain ⟨h₁, h₂⟩ := prod_beq_iff.1 h
    obtain ⟨k₁, k₂⟩ := prod_beq_iff.1 k
    exact prod_beq_iff.2 ⟨BEq.trans h₁ k₁, BEq.trans h₂ k₂⟩

/-- Equality of images is an equivalence where equality of the images is one. -/
theorem equivBEq_of_image [EquivBEq β] (f : α → β) (h : ∀ a b : α, (a == b) = (f a == f b)) :
    EquivBEq α where
  rfl {a} := (h a a).trans BEq.rfl
  symm {a b} hab := (h b a).trans (BEq.symm ((h a b).symm.trans hab))
  trans {a b c} hab hbc :=
    (h a c).trans (BEq.trans ((h a b).symm.trans hab) ((h b c).symm.trans hbc))

namespace Diagnostics

instance equivBEqPath : EquivBEq Path := equivBEq_of_image Path.components fun _ _ => rfl

instance equivBEqLocation : EquivBEq Location :=
  equivBEq_of_image (fun l => (l.path, l.textSpan, l.lineSpan)) fun _ _ => rfl

instance equivBEqRecord : EquivBEq Record :=
  equivBEq_of_image (fun r => (r.descriptor, r.location, r.argument, r.properties.entries))
    fun _ _ => rfl

theorem Record.beq_iff (r s : Record) : (r == s) = true ↔ r.descriptor = s.descriptor ∧
    (r.location == s.location) = true ∧ r.argument = s.argument ∧ r.properties = s.properties := by
  have himage : (r == s) = ((r.descriptor, r.location, r.argument, r.properties.entries) ==
    (s.descriptor, s.location, s.argument, s.properties.entries)) := rfl
  have hentries : r.properties.entries = s.properties.entries ↔ r.properties = s.properties :=
    ⟨SortedMap.eq_of_entries, congrArg SortedMap.entries⟩
  rw [himage, prod_beq_iff, prod_beq_iff, prod_beq_iff, ← hentries]
  exact and_congr beq_iff_eq (and_congr_right fun _ => and_congr beq_iff_eq beq_iff_eq)

instance equivBEqOutcome [EquivBEq α] : EquivBEq (Outcome α) :=
  equivBEq_of_image (fun o => (o.value, o.diagnostics)) fun _ _ => rfl

end Diagnostics

end GeneratorKit
