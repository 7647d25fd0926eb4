set_option autoImplicit false

/-!
# Cutting a text at a byte

Lengths are counted in bytes of UTF-8, so a cut can fall past the end or inside a character.
`cut?_append` says that the cut at a seam is exact, and `cut?_eq_some_iff` that a cut is the prefix
of so many bytes.
-/
namespace GeneratorKit.Text

/-- The first `n` bytes of the characters, when the `n`-th byte ends one of them. -/
def takeBytes? : List Char → Nat → Option (List Char)
  | _, 0 => some []
  | [], _ + 1 => none
  | c :: cs, n + 1 =>
    if c.utf8Size ≤ n + 1 then (takeBytes? cs (n + 1 - c.utf8Size)).map (c :: ·) else none

/-- The first `n` bytes of the text, when they end between two characters. -/
def cut? (s : String) (n : Nat) : Option String := (takeBytes? s.toList n).map String.ofList

def bytes : List Char → Nat
  | [] => 0
  | c :: cs => c.utf8Size + bytes cs

theorem length_le_bytes (cs : List Char) : cs.length ≤ bytes cs := by
  induction cs with
  | nil => exact Nat.le_refl _
  | cons c cs ih =>
    have hc : 0 < c.utf8Size := Char.utf8Size_pos c
    rw [List.length_cons, bytes]
    omega

theorem takeBytes?_append (cs ds : List Char) : takeBytes? (cs ++ ds) (bytes cs) = some cs := by
  induction cs with
  | nil => cases ds <;> simp [bytes, takeBytes?]
  | cons c cs ih =>
    have hc : 0 < c.utf8Size := Char.utf8Size_pos c
    obtain ⟨k, hk⟩ : ∃ k, bytes (c :: cs) = k + 1 := ⟨bytes (c :: cs) - 1, by simp [bytes]; omega⟩
    have hs : bytes (c :: cs) = c.utf8Size + bytes cs := by simp [bytes]
    rw [hk, List.cons_append, takeBytes?, if_pos (by omega),
      show k + 1 - c.utf8Size = bytes cs by omega, ih]
    rfl

theorem bytes_toList (s : String) : bytes s.toList = s.utf8ByteSize := by
  induction h : s.toList generalizing s with
  | nil => simp_all [bytes]
  | cons c cs ih =>
    obtain rfl : s = String.singleton c ++ String.ofList cs := String.toList_inj.1 (by simp [h])
    rw [String.utf8ByteSize_append, ← ih (String.ofList cs) (by simp)]
    simp [bytes, String.utf8ByteSize_singleton]

theorem cut?_append (s t : String) : cut? (s ++ t) s.utf8ByteSize = some s := by
  rw [cut?, String.toList_append, ← bytes_toList, takeBytes?_append]
  simp

theorem takeBytes?_eq_some {cs ds : List Char} {n : Nat} (h : takeBytes? cs n = some ds) :
    (∃ es, cs = ds ++ es) ∧ bytes ds = n := by
  induction cs generalizing ds n with
  | nil =>
    cases n with
    | zero =>
      obtain rfl : [] = ds := by simpa [takeBytes?] using h
      exact ⟨⟨[], rfl⟩, rfl⟩
    | succ n => simp [takeBytes?] at h
  | cons c cs ih =>
    cases n with
    | zero =>
      obtain rfl : [] = ds := by simpa [takeBytes?] using h
      exact ⟨⟨c :: cs, rfl⟩, rfl⟩
    | succ n =>
      rw [takeBytes?] at h
      split at h
      · obtain ⟨ts, ht, rfl⟩ := Option.map_eq_some_iff.1 h
        obtain ⟨⟨es, he⟩, hb⟩ := ih ht
        refine ⟨⟨es, by rw [he]; rfl⟩, ?_⟩
        rw [bytes, hb]
        omega
      · cases h

/-- A cut is the prefix of so many bytes, if there is one. -/
theorem cut?_eq_some_iff (s t : String) (n : Nat) :
    cut? s n = some t ↔ (∃ u, s = t ++ u) ∧ t.utf8ByteSize = n := by
  constructor
  · intro h
    obtain ⟨ds, hd, rfl⟩ := Option.map_eq_some_iff.1 h
    obtain ⟨⟨es, he⟩, hb⟩ := takeBytes?_eq_some hd
    refine ⟨⟨String.ofList es, String.toList_inj.1 (by simp [he])⟩, ?_⟩
    rw [← bytes_toList, String.toList_ofList, hb]
  · rintro ⟨⟨u, rfl⟩, rfl⟩
    exact cut?_append t u

theorem cut?_eq_none_of_lt {s : String} {n : Nat} (h : s.utf8ByteSize < n) : cut? s n = none := by
  cases hc : cut? s n with
  | none => rfl
  | some t =>
    obtain ⟨⟨u, rfl⟩, ht⟩ := (cut?_eq_some_iff s t n).1 hc
    rw [String.utf8ByteSize_append] at h
    omega

end GeneratorKit.Text
