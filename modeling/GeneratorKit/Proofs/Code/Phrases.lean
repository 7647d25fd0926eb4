import GeneratorKit.Code.Accessibility
import GeneratorKit.Proofs.Text.Spacing
import Mathlib.Data.List.Permutation

set_option autoImplicit false

/-!
# Accessibility phrases

A level is read from the words of its keyword, in whatever order and with whatever blanks around them, and from no
other text (`reads_phrases`).
-/
namespace GeneratorKit.Code.Accessibility
open Text

/-- A text whose words are those of the keyword of a level, each as often as there. -/
def Names (s : String) (a : Accessibility) : Prop :=
  ∃ keyword ks ws, a.keyword? = some keyword ∧ Spaced ks keyword ∧ Spaced ws s ∧ ws.Perm ks

theorem names_iff {s : String} {a : Accessibility} :
    Names s a ↔ ∃ keyword, a.keyword? = some keyword ∧ (words s).Perm (words keyword) := by
  constructor
  · rintro ⟨keyword, ks, ws, hk, hks, hws, hp⟩
    exact ⟨keyword, hk, by rwa [hks.words_eq, hws.words_eq]⟩
  · rintro ⟨keyword, hk, hp⟩
    exact ⟨keyword, words keyword, words s, hk, words_eq_iff.1 rfl, words_eq_iff.1 rfl, hp⟩

def keywordWords : Accessibility → List String
  | .publicAccess => ["public"]
  | .protectedAccess => ["protected"]
  | .privateAccess => ["private"]
  | .internal => ["internal"]
  | .protectedInternal => ["protected", "internal"]
  | .privateProtected => ["private", "protected"]
  | .notApplicable => []

theorem words_keyword {a : Accessibility} {keyword : String} (h : a.keyword? = some keyword) :
    words keyword = a.keywordWords := by
  cases a <;> cases h <;> decide +kernel

theorem ofWords?_of_perm {ws : List String} {a : Accessibility} (ha : a ≠ .notApplicable)
    (h : ws.Perm a.keywordWords) : ofWords? ws = some a := by
  cases a with
  | notApplicable => exact absurd rfl ha
  | publicAccess | protectedAccess | privateAccess | internal =>
    rw [List.perm_singleton.1 h]
    rfl
  | protectedInternal | privateProtected =>
    rcases List.perm_pair.1 h with rfl | rfl <;> rfl

theorem perm_of_ofWords? {ws : List String} {a : Accessibility} (h : ofWords? ws = some a) :
    a ≠ .notApplicable ∧ ws.Perm a.keywordWords := by
  unfold ofWords? at h
  split at h <;> cases h <;> exact ⟨nofun, by decide⟩

theorem keyword?_eq_none_iff {a : Accessibility} : a.keyword? = none ↔ a = .notApplicable := by
  cases a <;> decide

theorem ofWords?_eq_some_iff {s : String} {a : Accessibility} : ofWords? (words s) = some a ↔ Names s a := by
  rw [names_iff]
  constructor
  · intro h
    obtain ⟨ha, hp⟩ := perm_of_ofWords? h
    obtain ⟨keyword, hk⟩ := Option.ne_none_iff_exists'.1 (mt keyword?_eq_none_iff.1 ha)
    exact ⟨keyword, hk, by rwa [words_keyword hk]⟩
  · rintro ⟨keyword, hk, hp⟩
    rw [words_keyword hk] at hp
    refine ofWords?_of_perm (fun ha => ?_) hp
    rw [keyword?_eq_none_iff.2 ha] at hk
    cases hk

theorem read_eq_ok_iff {s : String} {a : Accessibility} : read s = .ok a ↔ Names s a := by
  rw [← ofWords?_eq_some_iff, read]
  cases ofWords? (words s) with
  | none => exact iff_of_false nofun nofun
  | some b => exact ⟨fun h => congrArg some (Except.ok.inj h), fun h => congrArg _ (Option.some_inj.1 h)⟩

theorem read_of_unnamed {s : String} (h : ∀ a, ¬ Names s a) : read s = .error ⟨s⟩ := by
  cases hr : ofWords? (words s) with
  | none => rw [read, hr]
  | some a => exact absurd (ofWords?_eq_some_iff.1 hr) (h a)

theorem Names.respaced {s t : String} {ws : List String} {a : Accessibility} (hs : Spaced ws s) (ht : Spaced ws t)
    (h : Names s a) : Names t a := by
  rw [names_iff, hs.words_eq] at h
  rwa [names_iff, ht.words_eq]

structure ReadsPhrases (s : String) : Prop where
  words : ∃! ws, Spaced ws s
  named (a : Accessibility) : read s = .ok a ↔ Names s a
  unnamed (h : ∀ a, ¬ Names s a) : read s = .error ⟨s⟩
  applicable : read s ≠ .ok .notApplicable
  unique {a b : Accessibility} (ha : Names s a) (hb : Names s b) : a = b
  /-- Blanks that keep the words apart make no difference. -/
  respaced {t : String} {ws : List String} (hs : Spaced ws s) (ht : Spaced ws t) (a : Accessibility) :
    read t = .ok a ↔ read s = .ok a

/-- A level is read from a text exactly when the words of the text are those of the keyword of the level in some
order; any other text is handed back with the failure. So no level but one with a keyword is ever read, and a change
of the blanks before, between and behind the words does not change what is read. -/
theorem reads_phrases (s : String) : ReadsPhrases s where
  words := ⟨Text.words s, words_eq_iff.1 rfl, fun _ h => h.words_eq.symm⟩
  named _ := read_eq_ok_iff
  unnamed := read_of_unnamed
  applicable h := by
    obtain ⟨keyword, _, _, hk, _⟩ := read_eq_ok_iff.1 h
    cases hk
  unique ha hb := Except.ok.inj ((read_eq_ok_iff.2 ha).symm.trans (read_eq_ok_iff.2 hb))
  respaced hs ht _ := by
    rw [read_eq_ok_iff, read_eq_ok_iff]
    exact ⟨.respaced ht hs, .respaced hs ht⟩

-- The other order names the level as well, whatever kinds of blanks there are; a word too many names none.
theorem reads_phrases_reversed :
    let s := "internal protected"
    let t := "\u2003internal\t\u00A0protected\u3000"
    Spaced ["internal", "protected"] s ∧ Spaced ["internal", "protected"] t ∧
      read t = .ok .protectedInternal ∧ Names t .protectedInternal ∧
      read (s ++ " internal") = .error ⟨s ++ " internal"⟩ := by
  intro s t
  have hs : Spaced ["internal", "protected"] s := words_eq_iff.1 (by decide +kernel)
  have ht : Spaced ["internal", "protected"] t := words_eq_iff.1 (by decide +kernel)
  have hread : read s = .ok .protectedInternal := by decide +kernel
  have hread' : read t = .ok .protectedInternal := ((reads_phrases s).respaced hs ht _).2 hread
  refine ⟨hs, ht, hread', ((reads_phrases t).named _).1 hread', by decide +kernel⟩

end GeneratorKit.Code.Accessibility
