import GeneratorKit.Code.TypeRef

set_option autoImplicit false

/-!
# The display form of a type

Where names are free of the characters that structure a display form, different types are displayed
differently (`display_eq_iff`). What is outermost shows at the end of the form; the arguments of a type are told
apart by the commas that no angle bracket encloses.
-/
namespace GeneratorKit.Code.TypeRef

def reserved : List Char := ['.', ':', '<', '>', ',', '[', ']', '?', ' ']

def IsSimple (s : String) : Prop := s ≠ "" ∧ ∀ c ∈ s.toList, c ∉ reserved

/-- One or more simple names with dots between them. -/
def IsDotted (s : String) : Prop :=
  ∃ parts : List String, parts ≠ [] ∧ (∀ p ∈ parts, IsSimple p) ∧ s = ".".intercalate parts

inductive WellFormed : TypeRef → Prop where
  | special (t : SpecialType) : WellFormed (.special t)
  | named {space : Option String} {name : String} {args : List TypeRef}
    (hspace : ∀ s ∈ space, IsDotted s) (hname : IsSimple name) (hargs : ∀ t ∈ args, WellFormed t) :
    WellFormed (.named space name args)
  | array {e : TypeRef} (he : WellFormed e) : WellFormed (.array e)
  | nullable {t : TypeRef} (ht : WellFormed t) : WellFormed (.nullable t)
  | parameter {name : String} (hname : IsSimple name) (hkeyword : ∀ t : SpecialType, name ≠ t.keyword) :
    WellFormed (.parameter name)

theorem keyword_inj {t u : SpecialType} (h : t.keyword = u.keyword) : t = u := by
  have hfind : ∀ t : SpecialType, SpecialType.all.find? (·.keyword = t.keyword) = some t := by
    intro t
    cases t <;> rfl
  have ht := hfind t
  rw [h, hfind u] at ht
  exact (Option.some.inj ht).symm

-- Deciding such a statement as it stands could go through all characters instead of those of the list.
theorem forall_mem_of_all {P : Char → Prop} [DecidablePred P] {s : List Char}
    (h : s.all (fun c => decide (P c)) = true) : ∀ c ∈ s, P c :=
  fun c hc => of_decide_eq_true (List.all_eq_true.1 h c hc)

theorem not_reserved_of_mem_keyword (t : SpecialType) : ∀ c ∈ t.keyword.toList, c ∉ reserved := by
  refine forall_mem_of_all ?_
  cases t <;> decide

theorem mem_dotted {s : String} (h : IsDotted s) {c : Char} (hc : c ∈ s.toList) :
    c = '.' ∨ c ∉ reserved := by
  obtain ⟨parts, _, hparts, rfl⟩ := h
  induction parts with
  | nil => simp at hc
  | cons p parts ih =>
    have hp : ∀ d ∈ p.toList, d = '.' ∨ d ∉ reserved := fun d hd => .inr ((hparts p (by simp)).2 d hd)
    cases parts with
    | nil => exact hp c (by simpa using hc)
    | cons q parts =>
      rw [String.intercalate_cons_cons, String.toList_append, String.toList_append, List.mem_append,
        List.mem_append] at hc
      rcases hc with (hc | hc) | hc
      · exact hp c hc
      · exact .inl (by simpa using hc)
      · exact ih (by simp) (fun r hr => hparts r (by simp [hr])) hc

section Cutting

/-- Where one text ends and the next begins is decided by a character that the first cannot hold next. -/
theorem append_inj_of_cut (good : List Char → Prop) {cut : Char}
    (hcut : ∀ {s u : List Char}, good s → ¬ good (s ++ cut :: u)) {s t r u : List Char} (hs : good s)
    (ht : good t) (hr : r.head?.all (· = cut)) (hu : u.head?.all (· = cut)) (h : s ++ r = t ++ u) :
    s = t ∧ r = u := by
  have key : ∀ {s v w x : List Char}, good s → good (s ++ v) → w = v ++ x → w.head?.all (· = cut) →
      v = [] := by
    intro s v w x hs hv hw hc
    cases v with
    | nil => rfl
    | cons c v =>
      rw [hw, List.cons_append, List.head?_cons, Option.all_some, decide_eq_true_eq] at hc
      exact absurd (hc ▸ hv) (hcut hs)
  rcases List.append_eq_append_iff.1 h with ⟨v, ht', hr'⟩ | ⟨v, hs', hu'⟩
  · have hv := key hs (ht' ▸ ht) hr' hr
    subst hv
    simp_all
  · have hv := key ht (hs' ▸ hs) hu' hu
    subst hv
    simp_all

theorem append_inj_of_not_mem {cut : Char} {s t r u : List Char} (hs : cut ∉ s) (ht : cut ∉ t)
    (hr : r.head?.all (· = cut)) (hu : u.head?.all (· = cut)) (h : s ++ r = t ++ u) : s = t ∧ r = u :=
  append_inj_of_cut (cut ∉ ·) (fun _ hm => hm (by simp)) hs ht hr hu h

/-- The depth of angle brackets after a text, unless a comma or a closing bracket meets depth zero. -/
def nesting : Nat → List Char → Option Nat
  | n, [] => some n
  | n, c :: cs =>
    if c = '<' then nesting (n + 1) cs
    else if n = 0 ∧ (c = '>' ∨ c = ',') then none
    else nesting (if c = '>' then n - 1 else n) cs

theorem nesting_append (n : Nat) (s t : List Char) :
    nesting n (s ++ t) = (nesting n s).bind (nesting · t) := by
  induction s generalizing n with
  | nil => rfl
  | cons c s ih =>
    simp only [List.cons_append, nesting, ih]
    split
    · rfl
    · split <;> rfl

theorem nesting_of_plain {s : List Char} (h : ∀ c ∈ s, c ≠ '<' ∧ c ≠ '>' ∧ c ≠ ',') (n : Nat) :
    nesting n s = some n := by
  induction s with
  | nil => rfl
  | cons c s ih =>
    obtain ⟨ho, hc, hm⟩ := h c (by simp)
    rw [nesting, if_neg ho, if_neg (by simp [hc, hm]), if_neg hc]
    exact ih fun d hd => h d (by simp [hd])

theorem nesting_succ {n m : Nat} {s : List Char} (h : nesting n s = some m) :
    nesting (n + 1) s = some (m + 1) := by
  induction s generalizing n with
  | nil =>
    obtain rfl : n = m := Option.some.inj h
    rfl
  | cons c s ih =>
    rw [nesting] at h ⊢
    split at h
    · next ho =>
      rw [if_pos ho]
      exact ih h
    · next ho =>
      split at h
      · cases h
      · next hz =>
        have hn : (if c = '>' then n + 1 - 1 else n + 1) = (if c = '>' then n - 1 else n) + 1 := by
          by_cases hc : c = '>'
          · have hpos : n ≠ 0 := fun h0 => hz ⟨h0, .inl hc⟩
            rw [if_pos hc, if_pos hc]
            omega
          · rw [if_neg hc, if_neg hc]
        rw [if_neg ho, if_neg (by omega), hn]
        exact ih h

theorem append_inj_of_nesting {s t r u : List Char} (hs : nesting 0 s = some 0)
    (ht : nesting 0 t = some 0) (hr : r.head?.all (· = ',')) (hu : u.head?.all (· = ','))
    (h : s ++ r = t ++ u) : s = t ∧ r = u := by
  refine append_inj_of_cut (nesting 0 · = some 0) (fun {x v} hx hv => ?_) hs ht hr hu h
  rw [nesting_append, hx] at hv
  cases hv

/-- Texts one behind another, with a comma and a blank between them. -/
def joined : List (List Char) → List Char
  | [] => []
  | s :: ss => s ++ ss.flatMap fun t => ',' :: ' ' :: t

theorem toList_intercalate_comma (ss : List String) :
    (", ".intercalate ss).toList = joined (ss.map String.toList) := by
  induction ss with
  | nil => rfl
  | cons s ss ih =>
    cases ss with
    | nil => simp [joined]
    | cons t ss =>
      rw [String.intercalate_cons_cons, String.toList_append, String.toList_append, ih]
      simp [joined]

theorem nesting_joined {ss : List (List Char)} (h : ∀ s ∈ ss, nesting 0 s = some 0) :
    nesting 1 (joined ss) = some 1 := by
  cases ss with
  | nil => rfl
  | cons s ss =>
    rw [joined, nesting_append, nesting_succ (h s (by simp)), Option.bind_some]
    have hrest : ∀ t ∈ ss, nesting 0 t = some 0 := fun t ht => h t (by simp [ht])
    clear h
    induction ss with
    | nil => rfl
    | cons t ss ih =>
      have ht : nesting 1 (',' :: ' ' :: t) = some 1 := by
        have ht' : nesting 1 t = some 1 := nesting_succ (hrest t (by simp))
        exact ht'
      rw [List.flatMap_cons, nesting_append, ht, Option.bind_some]
      exact ih fun u hu => hrest u (by simp [hu])

/-- Texts in which every comma is enclosed are told apart when they are joined by commas. -/
theorem joined_inj {s t : List Char} {ss ts : List (List Char)}
    (hs : ∀ x ∈ s :: ss, nesting 0 x = some 0) (ht : ∀ x ∈ t :: ts, nesting 0 x = some 0)
    (h : joined (s :: ss) = joined (t :: ts)) : s :: ss = t :: ts := by
  have hhead : ∀ us : List (List Char), (us.flatMap fun u => ',' :: ' ' :: u).head?.all (· = ',') := by
    intro us
    cases us <;> simp
  induction ss generalizing s t ts with
  | nil =>
    obtain ⟨rfl, hrest⟩ :=
      append_inj_of_nesting (hs s (by simp)) (ht t (by simp)) (hhead []) (hhead ts) h
    cases ts with
    | nil => rfl
    | cons t' ts => cases hrest
  | cons s' ss ih =>
    obtain ⟨rfl, hrest⟩ :=
      append_inj_of_nesting (hs s (by simp)) (ht t (by simp)) (hhead (s' :: ss)) (hhead ts) h
    cases ts with
    | nil => cases hrest
    | cons t' ts =>
      have hj : joined (s' :: ss) = joined (t' :: ts) := by simpa [joined] using hrest
      rw [ih (fun x hx => hs x (by simp [hx])) (fun x hx => ht x (by simp [hx])) hj]

end Cutting

theorem not_mem_of_simple {s : String} (h : IsSimple s) {c : Char} (hc : c ∈ reserved) : c ∉ s.toList :=
  fun hm => h.2 c hm hc

/-- A namespace with the dot behind it. -/
def spaceChars : Option String → List Char
  | none => []
  | some s => s.toList ++ ['.']

theorem toList_qualified (space : Option String) (name : String) :
    (qualified space name).toList = "global::".toList ++ (spaceChars space ++ name.toList) := by
  cases space <;> simp [qualified, spaceChars]

theorem spaceChars_inj {space space' : Option String} (h : spaceChars space = spaceChars space') :
    space = space' := by
  cases space with
  | none =>
    cases space' with
    | none => rfl
    | some s' => simp [spaceChars] at h
  | some s =>
    cases space' with
    | none => simp [spaceChars] at h
    | some s' => rw [String.toList_inj.1 (List.append_cancel_right h)]

theorem qualified_inj {space space' : Option String} {name name' : String} (hn : IsSimple name)
    (hn' : IsSimple name') (h : (qualified space name).toList = (qualified space' name').toList) :
    space = space' ∧ name = name' := by
  have hhead : ∀ sp : Option String, (spaceChars sp).reverse.head?.all (· = '.') := by
    intro sp
    cases sp <;> simp [spaceChars]
  have hdot : ∀ {s : String}, IsSimple s → '.' ∉ s.toList.reverse := by
    intro s hs hm
    exact not_mem_of_simple hs (by decide) (List.mem_reverse.1 hm)
  rw [toList_qualified, toList_qualified] at h
  have hr := congrArg List.reverse (List.append_cancel_left h)
  rw [List.reverse_append, List.reverse_append] at hr
  obtain ⟨hname, hspace⟩ := append_inj_of_not_mem (hdot hn) (hdot hn') (hhead space) (hhead space') hr
  exact ⟨spaceChars_inj (List.reverse_inj.1 hspace), String.toList_inj.1 (List.reverse_inj.1 hname)⟩

theorem not_mem_qualified {space : Option String} {name : String} (hspace : ∀ s ∈ space, IsDotted s)
    (hname : IsSimple name) {c : Char} (hc : c ∈ reserved) (hdot : c ≠ '.') (hcolon : c ≠ ':') :
    c ∉ (qualified space name).toList := by
  have hglobal : ∀ d ∈ "global::".toList, d = ':' ∨ d ∉ reserved :=
    forall_mem_of_all (by decide)
  intro hm
  rw [toList_qualified, List.mem_append, List.mem_append] at hm
  rcases hm with hm | hm | hm
  · exact (hglobal c hm).elim hcolon fun hn => hn hc
  · cases space with
    | none => cases hm
    | some s =>
      rcases List.mem_append.1 hm with hm | hm
      · exact (mem_dotted (hspace s rfl) hm).elim hdot fun hn => hn hc
      · exact hdot (List.mem_singleton.1 hm)
  · exact not_mem_of_simple hname hc hm

theorem toList_bracket (ss : List String) : (bracket ss).toList =
    if ss.isEmpty then [] else '<' :: (joined (ss.map String.toList) ++ ['>']) := by
  rw [bracket]
  split
  · rfl
  · rw [String.toList_append, String.toList_append, toList_intercalate_comma]
    rfl

theorem bracket_head (ss : List String) : (bracket ss).toList.head?.all (· = '<') := by
  rw [toList_bracket]
  split <;> rfl

theorem nesting_bracket {ss : List String} (h : ∀ s ∈ ss, nesting 0 s.toList = some 0) :
    nesting 0 (bracket ss).toList = some 0 := by
  rw [toList_bracket]
  split
  · rfl
  · have hj : nesting 1 (joined (ss.map String.toList)) = some 1 := nesting_joined (by simpa using h)
    change nesting 1 (joined (ss.map String.toList) ++ ['>']) = some 0
    rw [nesting_append, hj]
    rfl

theorem bracket_inj {ss ts : List String} (hs : ∀ s ∈ ss, nesting 0 s.toList = some 0)
    (ht : ∀ t ∈ ts, nesting 0 t.toList = some 0) (h : (bracket ss).toList = (bracket ts).toList) :
    ss = ts := by
  rw [toList_bracket, toList_bracket] at h
  cases ss with
  | nil =>
    cases ts with
    | nil => rfl
    | cons t ts => cases h
  | cons s ss =>
    cases ts with
    | nil => cases h
    | cons t ts =>
      have hj := List.append_cancel_right (List.cons.inj h).2
      have hl := joined_inj (by simpa using hs) (by simpa using ht) hj
      exact (List.map_inj_right fun _ _ => String.toList_inj.1).1 hl

theorem nesting_of_not_reserved {s : List Char} (h : ∀ c ∈ s, c ∉ reserved) (n : Nat) :
    nesting n s = some n := by
  refine nesting_of_plain (fun c hc => ?_) n
  refine ⟨?_, ?_, ?_⟩ <;> rintro rfl <;> exact h _ hc (by decide)

theorem nesting_display {t : TypeRef} (h : WellFormed t) : nesting 0 t.display.toList = some 0 := by
  induction h with
  | special t => exact nesting_of_not_reserved (not_reserved_of_mem_keyword t) 0
  | named hspace hname hargs ih =>
    have hq : nesting 0 (qualified _ _).toList = some 0 := nesting_of_plain (fun c hc => by
      refine ⟨?_, ?_, ?_⟩ <;> rintro rfl <;>
        exact not_mem_qualified hspace hname (by decide) (by decide) (by decide) hc) 0
    rw [display, String.toList_append, nesting_append, hq, displayAll_eq_map]
    exact nesting_bracket (by simpa using ih)
  | array he ih =>
    rw [display, String.toList_append, nesting_append, ih]
    rfl
  | nullable ht ih =>
    rw [display, String.toList_append, nesting_append, ih]
    rfl
  | parameter hname hkeyword => exact nesting_of_not_reserved hname.2 0

/-- What shows at the end of a display form, or in it. -/
inductive Outer where
  | array
  | nullable
  | named
  | simple

def outerOf (s : List Char) : Outer :=
  if s.getLast? = some ']' then .array
  else if s.getLast? = some '?' then .nullable
  else if ':' ∈ s then .named
  else .simple

def outer : TypeRef → Outer
  | .array _ => .array
  | .nullable _ => .nullable
  | .named .. => .named
  | .special _ | .parameter _ => .simple

theorem outerOf_of_not_reserved {s : List Char} (h : ∀ c ∈ s, c ∉ reserved) : outerOf s = .simple := by
  have hlast : ∀ c ∈ reserved, s.getLast? ≠ some c := fun c hc he => h c (List.mem_of_getLast? he) hc
  rw [outerOf, if_neg (hlast _ (by decide)), if_neg (hlast _ (by decide)),
    if_neg fun hm => h _ hm (by decide)]

theorem getLast?_named (space : Option String) {name : String} (hn : IsSimple name) (ss : List String) :
    ∃ c, (qualified space name ++ bracket ss).toList.getLast? = some c ∧ (c = '>' ∨ c ∉ reserved) := by
  rw [String.toList_append, List.getLast?_append, toList_bracket]
  split
  · have hne : name.toList ≠ [] := by simpa using hn.1
    have hlast : name.toList.getLast? = some (name.toList.getLast hne) :=
      List.getLast?_eq_some_getLast hne
    refine ⟨_, ?_, .inr (hn.2 _ (List.mem_of_getLast? hlast))⟩
    rw [toList_qualified, List.getLast?_append, List.getLast?_append, hlast]
    rfl
  · exact ⟨'>', by simp [List.getLast?_cons, List.getLast?_append], .inl rfl⟩

/-- What is outermost in a type shows in its display form. -/
theorem outerOf_display {t : TypeRef} (h : WellFormed t) : outerOf t.display.toList = t.outer := by
  cases h with
  | special t => exact outerOf_of_not_reserved (not_reserved_of_mem_keyword t)
  | @named space name args hspace hname hargs =>
    obtain ⟨c, hc, hr⟩ := getLast?_named space hname (displayAll args)
    have hlast : ∀ d ∈ reserved, d ≠ '>' → some c ≠ some d := by
      intro d hd hne he
      obtain rfl := Option.some.inj he
      exact hr.elim hne fun hn => hn hd
    have hcolon : ':' ∈ (qualified space name ++ bracket (displayAll args)).toList := by
      rw [String.toList_append, toList_qualified]
      simp
    rw [display, outerOf, hc, if_neg (hlast _ (by decide) (by decide)),
      if_neg (hlast _ (by decide) (by decide)), if_pos hcolon]
    rfl
  | array he =>
    rw [display, outerOf, String.toList_append, List.getLast?_append]
    rfl
  | nullable ht =>
    rw [display, outerOf, String.toList_append, List.getLast?_append]
    rfl
  | parameter hname hkeyword => exact outerOf_of_not_reserved hname.2

theorem outer_eq_of_display {a b : TypeRef} (ha : WellFormed a) (hb : WellFormed b)
    (h : a.display = b.display) : a.outer = b.outer := by
  rw [← outerOf_display ha, h, outerOf_display hb]

theorem map_inj_of_mem {α β : Type} {f : α → β} {as bs : List α}
    (hf : ∀ a ∈ as, ∀ b ∈ bs, f a = f b → a = b) (h : as.map f = bs.map f) : as = bs := by
  induction as generalizing bs with
  | nil => exact (List.map_eq_nil_iff.1 h.symm).symm
  | cons a as ih =>
    cases bs with
    | nil => cases h
    | cons b bs =>
      obtain ⟨hab, hrest⟩ := List.cons.inj h
      rw [hf a (by simp) b (by simp) hab,
        ih (fun a ha b hb => hf a (by simp [ha]) b (by simp [hb])) hrest]

theorem named_inj {space space' : Option String} {name name' : String} {args args' : List TypeRef}
    (ha : WellFormed (.named space name args)) (hb : WellFormed (.named space' name' args'))
    (h : (named space name args).display = (named space' name' args').display) :
    space = space' ∧ name = name' ∧ args.map display = args'.map display := by
  cases ha with
  | named hspace hname hargs =>
    cases hb with
    | named hspace' hname' hargs' =>
      rw [display, display, ← String.toList_inj, String.toList_append, String.toList_append] at h
      obtain ⟨hq, hr⟩ := append_inj_of_not_mem
        (not_mem_qualified hspace hname (by decide) (by decide) (by decide))
        (not_mem_qualified hspace' hname' (by decide) (by decide) (by decide))
        (bracket_head _) (bracket_head _) h
      obtain ⟨hs, hn⟩ := qualified_inj hname hname' hq
      rw [displayAll_eq_map, displayAll_eq_map] at hr
      have hclosed : ∀ {ts : List TypeRef}, (∀ t ∈ ts, WellFormed t) →
          ∀ s ∈ ts.map display, nesting 0 s.toList = some 0 := by
        intro ts hts s hm
        obtain ⟨t, ht, rfl⟩ := List.mem_map.1 hm
        exact nesting_display (hts t ht)
      exact ⟨hs, hn, bracket_inj (hclosed hargs) (hclosed hargs') hr⟩

theorem display_inj {a b : TypeRef} (ha : WellFormed a) (hb : WellFormed b)
    (h : a.display = b.display) : a = b := by
  induction ha generalizing b with
  | special t =>
    have ho : outer (.special t) = b.outer := outer_eq_of_display (.special t) hb h
    cases hb with
    | special u => rw [keyword_inj h]
    | parameter _ hkeyword => exact absurd h.symm (hkeyword t)
    | _ => cases ho
  | @named space name args hspace hname hargs ih =>
    have ha : WellFormed (.named space name args) := .named hspace hname hargs
    have ho : outer (.named space name args) = b.outer := outer_eq_of_display ha hb h
    cases hb with
    | @named space' name' args' hspace' hname' hargs' =>
      obtain ⟨rfl, rfl, hm⟩ := named_inj ha (.named hspace' hname' hargs') h
      rw [map_inj_of_mem (fun t ht u hu => ih t ht (hargs' u hu)) hm]
    | _ => cases ho
  | @array e he ih =>
    have ho : outer (.array e) = b.outer := outer_eq_of_display (.array he) hb h
    cases hb with
    | array he' => rw [ih he' ((String.append_left_inj _).1 h)]
    | _ => cases ho
  | @nullable t ht ih =>
    have ho : outer (.nullable t) = b.outer := outer_eq_of_display (.nullable ht) hb h
    cases hb with
    | nullable ht' => rw [ih ht' ((String.append_left_inj _).1 h)]
    | _ => cases ho
  | @parameter name hname hkeyword =>
    have ho : outer (.parameter name) = b.outer := outer_eq_of_display (.parameter hname hkeyword) hb h
    cases hb with
    | special u => exact absurd h (hkeyword u)
    | parameter _ _ => exact congrArg parameter h
    | _ => cases ho

/-- Well-formed types are displayed alike only if they are the same. -/
theorem display_eq_iff {a b : TypeRef} (ha : WellFormed a) (hb : WellFormed b) :
    a.display = b.display ↔ a = b :=
  ⟨display_inj ha hb, congrArg display⟩

/-- The same names and brackets, once with one pair of arguments inside the other and once side by side. -/
theorem display_eq_iff_nested :
    let pair (a b : TypeRef) : TypeRef := .named (some "App.Data") "Pair" [a, b]
    let s := pair (pair (.special .int32) (.array (.nullable (.parameter "T")))) (.special .string)
    let t := pair (.special .int32) (pair (.nullable (.array (.parameter "T"))) (.special .string))
    WellFormed s ∧ WellFormed t ∧ (s.display = t.display ↔ s = t) ∧ s ≠ t ∧
      s.display = "global::App.Data.Pair<global::App.Data.Pair<int, T?[]>, string>" := by
  intro pair s t
  have hsimple : IsSimple "App" ∧ IsSimple "Data" ∧ IsSimple "Pair" ∧ IsSimple "T" := by
    refine ⟨?_, ?_, ?_, ?_⟩ <;> exact ⟨by decide, forall_mem_of_all (by decide)⟩
  have hdotted : IsDotted "App.Data" := ⟨["App", "Data"], by simp, by simp [hsimple], by decide⟩
  have hpair : ∀ {a b : TypeRef}, WellFormed a → WellFormed b → WellFormed (pair a b) := by
    intro a b ha hb
    exact .named (by simpa using hdotted) hsimple.2.2.1 (by simp [ha, hb])
  have hparameter : WellFormed (.parameter "T") := by
    refine .parameter hsimple.2.2.2 fun t => ?_
    cases t <;> decide
  have hs : WellFormed s := hpair (hpair (.special _) (.array (.nullable hparameter))) (.special _)
  have ht : WellFormed t := hpair (.special _) (hpair (.nullable (.array hparameter)) (.special _))
  exact ⟨hs, ht, display_eq_iff hs ht, by decide, by decide +kernel⟩

end GeneratorKit.Code.TypeRef
