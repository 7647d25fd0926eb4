import GeneratorKit.Options.Basic
import Mathlib.Data.List.Basic

set_option autoImplicit false

/-!
# Values with blanks around them

A reader that is at a loss gets the trimmed text as well. Numbers and truth values are read from solid texts only,
and the words of an accessibility are those of its trimmed text, so the trimmed text alone settles what is read
(`Tolerant.readTrimmed_eq`) and blanks around a value make no difference but to the report of a failure. Strings
and single characters are read as they stand (`get_padded`).
-/
namespace GeneratorKit

namespace Number
open Text

variable {cs : List Char}

theorem solid_of_readDecimal {n : Nat} (h : readDecimal cs = some n) : ∀ c ∈ cs, isBlank c = false := by
  obtain ⟨⟨_, hall⟩, _⟩ := Option.ite_none_right_eq_some.1 h
  exact fun c hc => isBlank_eq_false_of_isDigit (List.all_eq_true.1 hall c hc)

theorem solid_of_exponentPart? {x : Int} (h : exponentPart? cs = some x) : ∀ c ∈ cs, isBlank c = false := by
  cases cs with
  | nil => nofun
  | cons c cs =>
    obtain ⟨he, h⟩ := Option.ite_none_left_eq_some.1 h
    have hc : isBlank c = false := by
      by_cases hlower : c = 'e'
      · exact hlower ▸ by decide
      · have hupper : c = 'E' := Decidable.byContradiction fun hne => he ⟨hlower, hne⟩
        exact hupper ▸ by decide
    refine List.forall_mem_cons.2 ⟨hc, ?_⟩
    split at h
    · obtain ⟨n, hn, _⟩ := Option.map_eq_some_iff.1 h
      obtain ⟨m, hm, _⟩ := Option.bind_eq_some_iff.1 hn
      exact List.forall_mem_cons.2 ⟨by decide, solid_of_readDecimal hm⟩
    · obtain ⟨n, hn, _⟩ := Option.map_eq_some_iff.1 h
      exact List.forall_mem_cons.2 ⟨by decide, solid_of_readDecimal hn⟩
    · obtain ⟨n, hn, _⟩ := Option.map_eq_some_iff.1 h
      exact solid_of_readDecimal hn

theorem solid_of_decimal? {p : Nat × Int} (h : decimal? cs = some p) : ∀ c ∈ cs, isBlank c = false := by
  unfold decimal? at h
  dsimp only at h
  obtain ⟨digits, hdigits, h⟩ := Option.bind_eq_some_iff.1 h
  obtain ⟨exponent, hexponent, _⟩ := Option.bind_eq_some_iff.1 h
  obtain ⟨hwhole, hfraction⟩ := List.forall_mem_append.1 (solid_of_readDecimal hdigits)
  have hrest := solid_of_exponentPart? hexponent
  -- what follows the first digits is the exponent, or a point, digits and the exponent
  have htail : ∀ c ∈ cs.dropWhile Char.isDigit, isBlank c = false := by
    split at hrest
    · next ds hds =>
      rw [hds] at hfraction ⊢
      rw [← List.takeWhile_append_dropWhile (p := Char.isDigit) (l := ds)]
      exact List.forall_mem_cons.2 ⟨by decide, List.forall_mem_append.2 ⟨hfraction, hrest⟩⟩
    · exact hrest
  rw [← List.takeWhile_append_dropWhile (p := Char.isDigit) (l := cs)]
  exact List.forall_mem_append.2 ⟨hwhole, htail⟩

theorem solid_of_word {word : String} (hw : Solid word) (h : String.ofList (cs.map Char.toLower) = word) :
    ∀ c ∈ cs, isBlank c = false := by
  intro c hc
  have hlower : isBlank c.toLower = false := by
    refine hw _ ?_
    rw [← h, String.toList_ofList]
    exact List.mem_map_of_mem hc
  cases hb : isBlank c with
  | false => rfl
  | true => rwa [toLower_of_isBlank hb, hb] at hlower

theorem Format.solid_of_magnitude? {f : Format} {n : Nat} (h : f.magnitude? cs = some n) :
    ∀ c ∈ cs, isBlank c = false := by
  unfold magnitude? at h
  split at h
  · next hd => exact solid_of_decimal? hd
  · dsimp only at h
    split at h
    · next hw => exact hw.elim (solid_of_word (by decide)) (solid_of_word (by decide))
    · split at h
      · next hw => exact solid_of_word (by decide) hw
      · cases h

theorem Format.solid_of_read? {f : Format} {n : Nat} (h : f.read? cs = some n) : ∀ c ∈ cs, isBlank c = false := by
  unfold read? at h
  split at h
  · obtain ⟨m, hm, _⟩ := Option.map_eq_some_iff.1 h
    exact List.forall_mem_cons.2 ⟨by decide, solid_of_magnitude? hm⟩
  · exact List.forall_mem_cons.2 ⟨by decide, solid_of_magnitude? h⟩
  · exact solid_of_magnitude? h

end Number

namespace Options
open Text

theorem IntegerType.solid_of_readDigits {limit n m : Nat} {past : Reason} {cs : List Char}
    (h : readDigits limit past n cs = .ok m) : ∀ c ∈ cs, isBlank c = false := by
  induction cs generalizing n with
  | nil => nofun
  | cons c cs ih =>
    rw [readDigits] at h
    split at h
    · cases h
    · next hc =>
      dsimp only at h
      split at h
      · cases h
      · exact List.forall_mem_cons.2 ⟨isBlank_eq_false_of_isDigit (Decidable.not_not.1 hc), ih h⟩

theorem IntegerType.solid_of_map_readDigits {limit : Nat} {past : Reason} {cs : List Char} {f : Nat → Int} {n : Int}
    (h : (readDigits limit past 0 cs).map f = .ok n) : ∀ c ∈ cs, isBlank c = false := by
  cases hread : readDigits limit past 0 cs with
  | ok m => exact solid_of_readDigits hread
  | error e => rw [hread] at h; cases h

theorem IntegerType.solid_of_read {t : IntegerType} {s : String} {n : Int} (h : t.read s = .ok n) : Solid s := by
  unfold IntegerType.read at h
  unfold Solid
  split at h
  · cases h
  · cases h
  · cases h
  · next hs =>
    rw [hs]
    exact List.forall_mem_cons.2 ⟨by decide, solid_of_map_readDigits h⟩
  · next hs =>
    rw [hs]
    split at h
    · refine List.forall_mem_cons.2 ⟨by decide, ?_⟩
      cases hread : readDigits t.least .tooSmall 0 _ with
      | ok m => exact solid_of_readDigits hread
      | error e => rw [hread] at h; cases h
    · cases h
  · exact solid_of_map_readDigits h

namespace Reader

variable {α : Type}

/-- What can be read can also be read without the blanks around it, to the same effect. -/
def Tolerant (r : Reader α) : Prop := ∀ s a, r.read s = .ok a → r.read (trim s) = .ok a

theorem tolerant_of_solid {r : Reader α} (h : ∀ s a, r.read s = .ok a → Solid s) : Tolerant r := by
  intro s a hs
  rwa [trim_of_solid (h s a hs)]

theorem readTrimmed_of_ok {r : Reader α} {s : String} {a : α} (h : r.read s = .ok a) : readTrimmed r s = .ok a := by
  rw [readTrimmed, h]

/-- When the text is trimmed already, the failure stands, which is that of the trimmed text. -/
theorem readTrimmed_of_error {r : Reader α} {s : String} {e : Reason} (h : r.read s = .error e) :
    readTrimmed r s = r.read (trim s) := by
  rw [readTrimmed, h]
  dsimp only
  split
  · next ht => rw [ht, h]
  · rfl

theorem Tolerant.readTrimmed_eq {r : Reader α} (h : Tolerant r) (s : String) : readTrimmed r s = r.read (trim s) := by
  cases hs : r.read s with
  | ok a => rw [readTrimmed_of_ok hs, h s a hs]
  | error e => exact readTrimmed_of_error hs

/-- A trimmed text is read once. -/
theorem readTrimmed_trim (r : Reader α) (s : String) : readTrimmed r (trim s) = r.read (trim s) := by
  cases hs : r.read (trim s) with
  | ok a => exact readTrimmed_of_ok hs
  | error e => rw [readTrimmed_of_error hs, trim_trim, hs]

theorem character_read_single {s : String} {c : Char} (h : s.toList = [c]) : character.read s = .ok c := by
  simp only [character, h]

theorem exists_error_of_length_ne_one {s : String} (h : s.toList.length ≠ 1) :
    ∃ e, character.read s = .error e := by
  simp only [character]
  split
  · exact ⟨_, rfl⟩
  · next c hs => rw [hs] at h; exact absurd rfl h
  · exact ⟨_, rfl⟩

theorem tolerant_integer (t : IntegerType) : Tolerant (integer t) :=
  tolerant_of_solid fun _ _ => IntegerType.solid_of_read

theorem tolerant_boolean : Tolerant boolean := by
  refine tolerant_of_solid fun s a h => ?_
  simp only [boolean] at h
  split at h
  · next hs => exact hs ▸ by decide
  · split at h
    · next hs => exact hs ▸ by decide
    · cases h

theorem tolerant_float (f : Number.Format) (wrap : Nat → α) (zero : α) :
    Tolerant (float (fun s => (f.read? s.toList).map wrap) zero) := by
  refine tolerant_of_solid fun s x h => ?_
  simp only [float] at h
  split at h
  · next hs =>
    obtain ⟨n, hn, _⟩ := Option.map_eq_some_iff.1 hs
    exact Number.Format.solid_of_read? hn
  · cases h

theorem tolerant_single : Tolerant single := tolerant_float Number.Format.single _ _

theorem tolerant_double : Tolerant double := tolerant_float Number.Format.double _ _

theorem tolerant_accessibility : Tolerant accessibility := by
  intro s a h
  simp only [accessibility, Code.Accessibility.read] at h ⊢
  rw [words_trim]
  split at h
  · exact h
  · cases h

end Reader

section Padding
open Reader

variable {α : Type} {o p : Options} {key v : String}

/-- What is read of a value is answered, and what cannot be read is reported with the key and the value. -/
def answer (key v : String) : Except Reason α → Except Invalid (Option α)
  | .ok a => .ok (some a)
  | .error e => .error ⟨key, v, e⟩

/-- The same value is read of both options, or both fail with the same key for the same reason, each with its own
text. -/
def SameReading (r : Reader α) (o p : Options) (key v v' : String) : Prop :=
  ∃ x : Except Reason α, get r o key = answer key v x ∧ get r p key = answer key v' x

theorem get_of_property (r : Reader α) (h : o.property key = some v) :
    get r o key = answer key v (readTrimmed r v) := by
  rw [get, h]
  dsimp only
  cases readTrimmed r v <;> rfl

theorem Reader.Tolerant.sameReading {r : Reader α} (hr : r.Tolerant) {before after : String} (hb : Blank before)
    (ha : Blank after) (ho : o.property key = some v) (hp : p.property key = some (before ++ v ++ after)) :
    SameReading r o p key v (before ++ v ++ after) := by
  refine ⟨r.read (trim v), ?_, ?_⟩
  · rw [get_of_property r ho, hr.readTrimmed_eq]
  · rw [get_of_property r hp, hr.readTrimmed_eq, trim_padded hb ha]

/-- What is read of an option does not change with blanks around its value, and a failure names the same reason.
A string is read with its blanks. A character is read as it stands, a blank one too; only a value of no or several
characters is read by its trimmed text. -/
theorem get_padded {before after : String} (hb : Blank before) (ha : Blank after) (ho : o.property key = some v)
    (hp : p.property key = some (before ++ v ++ after)) :
    ((∀ t, SameReading (.integer t) o p key v (before ++ v ++ after)) ∧
      SameReading .boolean o p key v (before ++ v ++ after) ∧
      SameReading .single o p key v (before ++ v ++ after) ∧
      SameReading .double o p key v (before ++ v ++ after) ∧
      SameReading .accessibility o p key v (before ++ v ++ after)) ∧
    (get .string o key = .ok (some v) ∧ get .string p key = .ok (some (before ++ v ++ after))) ∧
    ((∀ c, v.toList = [c] → get .character o key = .ok (some c)) ∧
      (v.toList.length ≠ 1 → get .character o key = answer key v (Reader.character.read (trim v)) ∧
        ∀ q : Options, q.property key = some (trim v) → SameReading .character o q key v (trim v))) := by
  refine ⟨⟨fun t => ?_, ?_, ?_, ?_, ?_⟩, ⟨get_of_property .string ho, get_of_property .string hp⟩, ?_, ?_⟩
  · exact (tolerant_integer t).sameReading hb ha ho hp
  · exact tolerant_boolean.sameReading hb ha ho hp
  · exact tolerant_single.sameReading hb ha ho hp
  · exact tolerant_double.sameReading hb ha ho hp
  · exact tolerant_accessibility.sameReading hb ha ho hp
  · intro c hc
    rw [get_of_property .character ho, readTrimmed_of_ok (character_read_single hc), answer]
  · intro hlength
    obtain ⟨e, he⟩ := exists_error_of_length_ne_one hlength
    have hget : get .character o key = answer key v (Reader.character.read (trim v)) := by
      rw [get_of_property .character ho, readTrimmed_of_error he]
    refine ⟨hget, fun q hq => ⟨_, hget, ?_⟩⟩
    rw [get_of_property .character hq, readTrimmed_trim]

-- The number is read either way, for the truth value both fail, and the string keeps its blanks.
theorem get_padded_number :
    let o : Options := OrderedMap.ofList [("build_property.Depth", "-7")]
    let p : Options := OrderedMap.ofList [("build_property.Depth", "\u00a0 -7\n")]
    Blank "\u00a0 " ∧ Blank "\n" ∧ o.property "Depth" = some "-7" ∧ p.property "Depth" = some "\u00a0 -7\n" ∧
      SameReading (.integer ⟨true, 8⟩) o p "Depth" "-7" "\u00a0 -7\n" ∧
      get (.integer ⟨true, 8⟩) p "Depth" = .ok (some (-7)) ∧
      SameReading .boolean o p "Depth" "-7" "\u00a0 -7\n" ∧
      get .boolean p "Depth" = .error ⟨"Depth", "\u00a0 -7\n", .notBoolean⟩ ∧
      get .string p "Depth" = .ok (some "\u00a0 -7\n") ∧
      get .character o "Depth" = .error ⟨"Depth", "-7", .manyCharacters⟩ := by
  intro o p
  have hb : Blank "\u00a0 " := by decide
  have ha : Blank "\n" := by decide
  have ho : o.property "Depth" = some "-7" := by decide +kernel
  have hp : p.property "Depth" = some ("\u00a0 " ++ "-7" ++ "\n") := by decide +kernel
  obtain ⟨⟨hinteger, hboolean, -⟩, ⟨-, hstring⟩, -, hcharacter⟩ := get_padded hb ha ho hp
  exact ⟨hb, ha, ho, hp, hinteger _, by decide +kernel, hboolean, by decide +kernel, hstring,
    (hcharacter (by decide)).1.trans (by decide +kernel)⟩

end Padding

end Options

end GeneratorKit
