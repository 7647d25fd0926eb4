import GeneratorKit.Text.Words

set_option autoImplicit false

/-!
# Words and the blanks around them

A text is some words with blanks before, between and behind them, in one way only: the words are its maximal runs of
characters that are not blank, and they are what splitting the text gives (`words_eq_iff`).
-/
namespace GeneratorKit.Text

/-- Nothing, or a text that begins with a blank. -/
def Apart (s : String) : Prop := ∀ c ∈ s.toList.head?, isBlank c = true

/-- A text as its words in their order. A word is made of characters that are not blank, and it goes as far as there
are any: what stands before it is blank, and what follows is nothing or begins with a blank. -/
inductive Spaced : List String → String → Prop where
  | blank {v : String} (hv : Blank v) : Spaced [] v
  | word {v w rest : String} {ws : List String} (hv : Blank v) (hw : Solid w) (hne : w ≠ "") (hrest : Apart rest)
    (h : Spaced ws rest) : Spaced (w :: ws) (v ++ w ++ rest)

theorem words_eq_map (s : String) : words s = (wordRuns s.toList).map String.ofList := rfl

theorem apart_of_blank {s : String} (h : Blank s) : Apart s :=
  fun c hc => h c (List.mem_of_mem_head? hc)

theorem apart_append_of_blank {v : String} (h : Blank v) (hne : v ≠ "") (s : String) : Apart (v ++ s) := by
  intro c hc
  obtain ⟨b, cs, hv⟩ := List.exists_cons_of_ne_nil fun hv => hne (String.toList_eq_nil_iff.1 hv)
  rw [String.toList_append, hv, List.cons_append, List.head?_cons, Option.mem_some_iff] at hc
  exact hc ▸ h b (hv ▸ List.mem_cons_self)

theorem blank_append {v w : String} (hv : Blank v) (hw : Blank w) : Blank (v ++ w) := by
  rw [Blank, String.toList_append]
  exact List.forall_mem_append.2 ⟨hv, hw⟩

theorem runs_of_solid {cs : List Char} (h : ∀ c ∈ cs, isBlank c = false) : runs cs = [cs] := by
  induction cs with
  | nil => rfl
  | cons c cs ih =>
    obtain ⟨hc, hcs⟩ := List.forall_mem_cons.1 h
    rw [runs, if_neg (by rw [hc]; exact Bool.false_ne_true), ih hcs]

theorem wordRuns_of_solid {cs : List Char} (h : ∀ c ∈ cs, isBlank c = false) (hne : cs ≠ []) :
    wordRuns cs = [cs] := by
  rw [wordRuns, runs_of_solid h]
  simp [hne]

theorem words_of_blank {v : String} (h : Blank v) : words v = [] := by
  have hruns := wordRuns_append_left h []
  rw [List.append_nil] at hruns
  rw [words_eq_map, hruns]
  rfl

theorem wordRuns_append_of_apart {rest : String} (h : Apart rest) (cs : List Char) :
    wordRuns (cs ++ rest.toList) = wordRuns cs ++ wordRuns rest.toList := by
  cases hrest : rest.toList with
  | nil => simp [wordRuns, runs]
  | cons c ds =>
    have hc : isBlank c = true := h c (by rw [hrest]; rfl)
    have hbehind := wordRuns_append_blank hc [] ds
    rw [List.nil_append] at hbehind
    rw [wordRuns_append_blank hc, hbehind]
    rfl

theorem words_word {v w rest : String} (hv : Blank v) (hw : Solid w) (hne : w ≠ "") (hrest : Apart rest) :
    words (v ++ w ++ rest) = w :: words rest := by
  have hword : wordRuns w.toList = [w.toList] :=
    wordRuns_of_solid hw fun h => hne (String.toList_eq_nil_iff.1 h)
  rw [words_eq_map, String.toList_append, String.toList_append, List.append_assoc, wordRuns_append_left hv,
    wordRuns_append_of_apart hrest, hword, List.singleton_append, List.map_cons, String.ofList_toList]
  rfl

theorem Spaced.words_eq {ws : List String} {s : String} (h : Spaced ws s) : words s = ws := by
  induction h with
  | blank hv => exact words_of_blank hv
  | word hv hw hne hrest _ ih => rw [words_word hv hw hne hrest, ih]

theorem Spaced.behind_blank {v s : String} {ws : List String} (hv : Blank v) (h : Spaced ws s) :
    Spaced ws (v ++ s) := by
  cases h with
  | blank hs => exact .blank (blank_append hv hs)
  | word hu hw hne hrest h =>
    have hword := Spaced.word (blank_append hv hu) hw hne hrest h
    simpa only [String.append_assoc] using hword

/-- A character that is not blank joins the word that it touches, or else it is a word of its own. -/
theorem Spaced.behind_solid {x s : String} {ws : List String} (hx : Solid x) (hne : x ≠ "") (h : Spaced ws s) :
    ∃ us, Spaced us (x ++ s) := by
  have hblank : Blank "" := nofun
  have halone (hs : Apart s) : ∃ us, Spaced us (x ++ s) := by
    have hword := Spaced.word hblank hx hne hs h
    rw [String.empty_append] at hword
    exact ⟨_, hword⟩
  cases h with
  | blank hs => exact halone (apart_of_blank hs)
  | @word v w rest us hv hw hne' hrest h =>
    -- only a word with nothing before it is touched
    by_cases hempty : v = ""
    · subst hempty
      have hjoined : Solid (x ++ w) := by
        rw [Solid, String.toList_append]
        exact List.forall_mem_append.2 ⟨hx, hw⟩
      have hword := Spaced.word hblank hjoined (fun he => hne (String.append_eq_empty_iff.1 he).1) hrest h
      refine ⟨(x ++ w) :: us, ?_⟩
      simpa only [String.empty_append, String.append_assoc] using hword
    · refine halone ?_
      rw [String.append_assoc]
      exact apart_append_of_blank hv hempty _

theorem exists_spaced (cs : List Char) : ∃ ws, Spaced ws (String.ofList cs) := by
  induction cs with
  | nil => exact ⟨[], .blank nofun⟩
  | cons c cs ih =>
    obtain ⟨ws, h⟩ := ih
    rw [← List.singleton_append, String.ofList_append]
    cases hc : isBlank c with
    | true => exact ⟨ws, h.behind_blank (by simpa [Blank] using hc)⟩
    | false => exact h.behind_solid (by simpa [Solid] using hc) (by simp)

/-- Splitting a text gives its words, and there is only one way to take a text apart. -/
theorem words_eq_iff {ws : List String} {s : String} : words s = ws ↔ Spaced ws s := by
  refine ⟨?_, Spaced.words_eq⟩
  rintro rfl
  obtain ⟨ws, h⟩ := exists_spaced s.toList
  rw [String.ofList_toList] at h
  rwa [h.words_eq]

end GeneratorKit.Text
