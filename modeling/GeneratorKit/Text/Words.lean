import GeneratorKit.Text.Classes

set_option autoImplicit false

/-!
# Words and trimming

A text is read as runs of characters between blanks. `words` keeps the runs that hold something. Blanks around a
text are no matter for trimming or for words (`trim_padded`, `words_padded`).
-/
namespace GeneratorKit.Text

/-- The runs before, between and after blanks; two blanks in a row leave an empty run. -/
def runs : List Char → List (List Char)
  | [] => [[]]
  | c :: cs =>
    if isBlank c then [] :: runs cs
    else match runs cs with
      | [] => [[c]]
      | r :: rs => (c :: r) :: rs

theorem runs_ne_nil (cs : List Char) : runs cs ≠ [] := by
  cases cs with
  | nil => simp [runs]
  | cons c cs =>
    rw [runs]
    split
    · simp
    · split <;> simp

/-- Every blank ends a run and begins another. -/
theorem runs_append_blank {c : Char} (h : isBlank c = true) (cs ds : List Char) :
    runs (cs ++ c :: ds) = runs cs ++ runs ds := by
  induction cs with
  | nil => simp [runs, h]
  | cons b cs ih =>
    rw [List.cons_append, runs, runs, ih]
    cases isBlank b with
    | true => rfl
    | false =>
      obtain ⟨r, rs, hr⟩ := List.exists_cons_of_ne_nil (runs_ne_nil cs)
      rw [hr]
      rfl

def wordRuns (cs : List Char) : List (List Char) := (runs cs).filter (· ≠ [])

theorem wordRuns_append_blank {c : Char} (h : isBlank c = true) (cs ds : List Char) :
    wordRuns (cs ++ c :: ds) = wordRuns cs ++ wordRuns ds := by
  rw [wordRuns, runs_append_blank h, List.filter_append]
  rfl

/-- The maximal runs of characters that are not blank. -/
def words (s : String) : List String :=
  ((runs s.toList).filter (· ≠ [])).map String.ofList

def stripLeft (cs : List Char) : List Char := cs.dropWhile isBlank

def stripRight (cs : List Char) : List Char := (stripLeft cs.reverse).reverse

def strip (cs : List Char) : List Char := stripRight (stripLeft cs)

def trim (s : String) : String := String.ofList (strip s.toList)

@[simp] theorem toList_trim (s : String) : (trim s).toList = strip s.toList := by simp [trim]

theorem stripLeft_append_of_blank {w : List Char} (h : ∀ c ∈ w, isBlank c = true) (cs : List Char) :
    stripLeft (w ++ cs) = stripLeft cs := by
  induction w with
  | nil => rfl
  | cons c w ih =>
    have hc : isBlank c = true := h c (by simp)
    have ht := ih fun d hd => h d (by simp [hd])
    simpa [stripLeft, List.dropWhile_cons, hc] using ht

/-- Characters that are all blank. -/
def Blank (s : String) : Prop := ∀ c ∈ s.toList, isBlank c = true

instance (s : String) : Decidable (Blank s) := List.decidableBAll _ s.toList

/-- Characters of which none is blank. -/
def Solid (s : String) : Prop := ∀ c ∈ s.toList, isBlank c = false

instance (s : String) : Decidable (Solid s) := List.decidableBAll _ s.toList

section Padding

variable {v w cs : List Char}

theorem stripLeft_of_blank (h : ∀ c ∈ w, isBlank c = true) : stripLeft w = [] := by
  have hw := stripLeft_append_of_blank h []
  rwa [List.append_nil] at hw

theorem stripRight_append_of_blank (h : ∀ c ∈ w, isBlank c = true) (cs : List Char) :
    stripRight (cs ++ w) = stripRight cs := by
  have hr : ∀ c ∈ w.reverse, isBlank c = true := fun c hc => h c (List.mem_reverse.1 hc)
  rw [stripRight, List.reverse_append, stripLeft_append_of_blank hr, stripRight]

theorem strip_padded (hv : ∀ c ∈ v, isBlank c = true) (hw : ∀ c ∈ w, isBlank c = true) (cs : List Char) :
    strip (v ++ cs ++ w) = strip cs := by
  rw [strip, List.append_assoc, stripLeft_append_of_blank hv, strip, stripLeft, List.dropWhile_append]
  cases hc : cs.dropWhile isBlank with
  | nil =>
    have hs : w.dropWhile isBlank = [] := stripLeft_of_blank hw
    simp [stripLeft, hc, hs]
  | cons d ds =>
    simp only [List.isEmpty_cons, Bool.false_eq_true, if_false, stripLeft, hc]
    exact stripRight_append_of_blank hw (d :: ds)

theorem stripLeft_of_solid (h : ∀ c ∈ cs, isBlank c = false) : stripLeft cs = cs := by
  cases cs with
  | nil => rfl
  | cons c cs => rw [stripLeft, List.dropWhile_cons_of_neg (by simp [h c])]

theorem strip_of_solid (h : ∀ c ∈ cs, isBlank c = false) : strip cs = cs := by
  have hr : ∀ c ∈ cs.reverse, isBlank c = false := fun c hc => h c (List.mem_reverse.1 hc)
  rw [strip, stripLeft_of_solid h, stripRight, stripLeft_of_solid hr, List.reverse_reverse]

theorem wordRuns_append_left (h : ∀ c ∈ w, isBlank c = true) (cs : List Char) :
    wordRuns (w ++ cs) = wordRuns cs := by
  induction w with
  | nil => rfl
  | cons c w ih =>
    have hc := wordRuns_append_blank (h c (by simp)) [] (w ++ cs)
    rw [List.cons_append, ← List.nil_append (c :: (w ++ cs)), hc, ih fun d hd => h d (by simp [hd])]
    rfl

theorem wordRuns_append_right (h : ∀ c ∈ w, isBlank c = true) (cs : List Char) :
    wordRuns (cs ++ w) = wordRuns cs := by
  cases w with
  | nil => rw [List.append_nil]
  | cons c w =>
    have hw := wordRuns_append_left (fun d hd => h d (List.mem_cons_of_mem c hd)) []
    rw [List.append_nil] at hw
    rw [wordRuns_append_blank (h c (by simp)), hw]
    exact List.append_nil _

end Padding

/-- A text is its trimmed form with blanks around it. -/
theorem exists_padding (s : String) : ∃ v w, Blank v ∧ Blank w ∧ s = v ++ trim s ++ w := by
  let left := stripLeft s.toList
  refine ⟨String.ofList (s.toList.takeWhile isBlank), String.ofList (left.reverse.takeWhile isBlank).reverse,
    ?_, ?_, ?_⟩
  · intro c hc
    rw [String.toList_ofList] at hc
    exact List.all_eq_true.1 List.all_takeWhile c hc
  · intro c hc
    rw [String.toList_ofList, List.mem_reverse] at hc
    exact List.all_eq_true.1 List.all_takeWhile c hc
  · have hright : strip s.toList ++ (left.reverse.takeWhile isBlank).reverse = left := by
      rw [strip, stripRight, ← List.reverse_append]
      change (left.reverse.takeWhile isBlank ++ left.reverse.dropWhile isBlank).reverse = left
      rw [List.takeWhile_append_dropWhile, List.reverse_reverse]
    apply String.toList_inj.1
    simp only [String.toList_append, String.toList_ofList, toList_trim, List.append_assoc, hright]
    exact List.takeWhile_append_dropWhile.symm

theorem trim_padded {v w : String} (hv : Blank v) (hw : Blank w) (s : String) : trim (v ++ s ++ w) = trim s := by
  rw [trim, String.toList_append, String.toList_append, strip_padded hv hw, trim]

theorem trim_trim (s : String) : trim (trim s) = trim s := by
  obtain ⟨v, w, hv, hw, hs⟩ := exists_padding s
  have hp := trim_padded hv hw (trim s)
  rwa [← hs, eq_comm] at hp

theorem trim_of_solid {s : String} (h : Solid s) : trim s = s := by
  rw [trim, strip_of_solid h, String.ofList_toList]

theorem words_padded {v w : String} (hv : Blank v) (hw : Blank w) (s : String) : words (v ++ s ++ w) = words s := by
  have hruns : wordRuns (v.toList ++ s.toList ++ w.toList) = wordRuns s.toList := by
    rw [wordRuns_append_right hw, wordRuns_append_left hv]
  rw [words, String.toList_append, String.toList_append]
  exact congrArg (List.map String.ofList) hruns

theorem words_trim (s : String) : words (trim s) = words s := by
  obtain ⟨v, w, hv, hw, hs⟩ := exists_padding s
  have hp := words_padded hv hw (trim s)
  rwa [← hs, eq_comm] at hp

end GeneratorKit.Text
