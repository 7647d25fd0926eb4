import GeneratorKit.Code.TypeRef

set_option autoImplicit false

/-!
# Short names of nullable types

The short names are to say nothing of nullability. The simple name of a type is that of the type without nullable
wrappers, at whatever level they are. The class name is not: a wrapper around a named type with arguments takes them
out of it, and that is the only case (`shortNames_bare`).
-/
namespace GeneratorKit.Code.TypeRef

mutual

/-- The type without its nullable wrappers, at every level. -/
def bare : TypeRef → TypeRef
  | .special t => .special t
  | .named space name args => .named space name (bareAll args)
  | .array e => .array (bare e)
  | .nullable t => bare t
  | .parameter name => .parameter name

def bareAll : List TypeRef → List TypeRef
  | [] => []
  | t :: ts => bare t :: bareAll ts

end

/-- No wrapper at any level. -/
inductive NullFree : TypeRef → Prop where
  | special (t : SpecialType) : NullFree (.special t)
  | named {space : Option String} {name : String} {args : List TypeRef} (h : ∀ t ∈ args, NullFree t) :
    NullFree (.named space name args)
  | array {e : TypeRef} (h : NullFree e) : NullFree (.array e)
  | parameter (name : String) : NullFree (.parameter name)

mutual

theorem nullFree_bare : (t : TypeRef) → NullFree t.bare
  | .special t => .special t
  | .named _ _ args => .named (nullFree_bareAll args)
  | .array e => .array (nullFree_bare e)
  | .nullable t => nullFree_bare t
  | .parameter name => .parameter name

theorem nullFree_bareAll : (ts : List TypeRef) → ∀ u ∈ bareAll ts, NullFree u
  | [] => nofun
  | t :: ts => List.forall_mem_cons.2 ⟨nullFree_bare t, nullFree_bareAll ts⟩

end

theorem bareAll_eq_map (ts : List TypeRef) : bareAll ts = ts.map bare := by
  induction ts with
  | nil => rfl
  | cons t ts ih => rw [bareAll, ih, List.map_cons]

theorem simpleName_bare : (t : TypeRef) → t.bare.simpleName = t.simpleName
  | .special _ => rfl
  | .named .. => rfl
  | .array e => congrArg (· ++ "[]") (simpleName_bare e)
  | .nullable t => simpleName_bare t
  | .parameter _ => rfl

theorem map_simpleName_bareAll (ts : List TypeRef) : (bareAll ts).map simpleName = ts.map simpleName := by
  rw [bareAll_eq_map, List.map_map]
  exact List.map_congr_left fun t _ => simpleName_bare t

/-- The arguments of a named type, seen through its wrappers. -/
def arguments : TypeRef → List TypeRef
  | .named _ _ args => args
  | .nullable t => arguments t
  | _ => []

/-- Arguments stand behind a wrapper. -/
def hidesArguments : TypeRef → Bool
  | .nullable t => !t.arguments.isEmpty
  | _ => false

theorem className_bare : (t : TypeRef) →
    t.bare.className = t.simpleName ++ bracket (t.arguments.map simpleName)
  | .special _ => String.append_empty.symm
  | .named _ name args => congrArg (fun names => name ++ bracket names) (map_simpleName_bareAll args)
  | .array e => (simpleName_bare (.array e)).trans String.append_empty.symm
  | .nullable t => className_bare t
  | .parameter _ => String.append_empty.symm

theorem bracket_eq_empty_iff {names : List String} : bracket names = "" ↔ names = [] := by
  cases names <;> simp [bracket]

/-- Behind a wrapper no arguments are written. -/
theorem className_eq (t : TypeRef) :
    t.className = if t.hidesArguments then t.simpleName else t.bare.className := by
  cases t with
  | nullable t =>
    rw [hidesArguments, className_bare]
    cases hargs : t.arguments with
    | nil =>
      have hempty : bracket (([] : List TypeRef).map simpleName) = "" := bracket_eq_empty_iff.2 rfl
      rw [arguments, hargs, hempty, String.append_empty]
      rfl
    | cons u us => rfl
  | special t => rfl
  | named space name args => exact (className_bare (.named space name args)).symm
  | array e => exact (simpleName_bare (.array e)).symm
  | parameter name => rfl

theorem arguments_ne_nil {t : TypeRef} (h : t.hidesArguments = true) : t.arguments ≠ [] := by
  cases t with
  | nullable t =>
    rw [hidesArguments, Bool.not_eq_true'] at h
    exact List.isEmpty_eq_false_iff.1 h
  | _ => cases h

/-- Short names do not tell whether and where a type is nullable, but for the class name of a nullable type with
arguments, which lacks them. -/
theorem shortNames_bare (t : TypeRef) :
    NullFree t.bare ∧ t.simpleName = t.bare.simpleName ∧
      (t.className = t.bare.className ↔ t.hidesArguments = false) ∧
      t.bare.className = t.simpleName ++ bracket (t.arguments.map simpleName) ∧
      t.className = if t.hidesArguments then t.simpleName else t.bare.className := by
  refine ⟨nullFree_bare t, (simpleName_bare t).symm, ?_, className_bare t, className_eq t⟩
  rw [className_eq t]
  cases hh : t.hidesArguments with
  | false => exact iff_of_true rfl rfl
  | true =>
    refine iff_of_false (fun h => arguments_ne_nil hh ?_) nofun
    rw [if_pos rfl, className_bare, eq_comm, String.append_eq_left_iff, bracket_eq_empty_iff] at h
    exact List.map_eq_nil_iff.1 h

-- With a wrapper inside, the arguments are written; with one around, they are not.
theorem nullable_className_differs :
    let list (t : TypeRef) : TypeRef := .named (some "System.Collections.Generic") "List" [t]
    (list (.nullable int)).className = "List<Int32>" ∧ (TypeRef.nullable (list int)).className = "List" ∧
      (TypeRef.nullable (list int)).bare.className = "List<Int32>" ∧
      (TypeRef.nullable (list int)).className ≠ (TypeRef.nullable (list int)).bare.className := by
  decide +kernel

end GeneratorKit.Code.TypeRef
