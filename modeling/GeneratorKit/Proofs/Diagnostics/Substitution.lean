import GeneratorKit.Diagnostics.Descriptor

set_option autoImplicit false

/-!
# Messages and their formats

A format is cut in one way only into pieces with a place for the argument between each two of them. A message is made
of the same pieces with the argument between them, whatever the argument holds and whatever it forms with the pieces
next to it (`message_substitutes`).
-/
namespace GeneratorKit.Diagnostics

/-- The place for an argument. -/
def hole : List Char := ['{', '0', '}']

/-- Pieces that have places between them, and none inside. -/
structure Cut (ps : List String) (format : String) : Prop where
  ne_nil : ps ≠ []
  whole : ∀ p ∈ ps, ¬ hole <:+: p.toList
  join : (String.ofList hole).intercalate ps = format

/-- The pieces of a format, from left to right. -/
def pieces : List Char → List (List Char)
  | [] => [[]]
  | '{' :: '0' :: '}' :: cs => [] :: pieces cs
  | c :: cs => (pieces cs).modifyHead (c :: ·)

section Pieces

variable {cs : List Char}

theorem intercalate_cons (a p : List Char) (ps : List (List Char)) :
    a.intercalate (p :: ps) = p ++ ps.flatMap (a ++ ·) := by
  induction ps generalizing p with
  | nil => simp
  | cons q ps ih => rw [List.intercalate_cons_cons, ih, List.flatMap_cons, List.append_assoc, List.append_assoc]

theorem exists_pieces (cs : List Char) : ∃ p ps, pieces cs = p :: ps := by
  fun_induction pieces cs with
  | case1 => exact ⟨_, _, rfl⟩
  | case2 cs ih => exact ⟨_, _, rfl⟩
  | case3 c cs _ ih =>
    obtain ⟨p, ps, h⟩ := ih
    exact ⟨_, _, by rw [h, List.modifyHead_cons]⟩

theorem substitute_eq (a cs : List Char) : substitute a cs = a.intercalate (pieces cs) := by
  fun_induction pieces cs with
  | case1 => rfl
  | case2 cs ih =>
    obtain ⟨p, ps, hps⟩ := exists_pieces cs
    rw [substitute, ih, hps, intercalate_cons, intercalate_cons, List.flatMap_cons, List.nil_append,
      List.append_assoc]
  | case3 c cs hc ih =>
    obtain ⟨p, ps, hps⟩ := exists_pieces cs
    rw [substitute, ih, hps, List.modifyHead_cons, intercalate_cons, intercalate_cons, List.cons_append]
    exact hc

theorem substitute_hole (cs : List Char) : substitute hole cs = cs := by
  fun_induction pieces cs with
  | case1 => rfl
  | case2 cs ih => rw [substitute, ih]; rfl
  | case3 c cs hc ih => rw [substitute, ih]; exact hc

theorem intercalate_pieces (cs : List Char) : hole.intercalate (pieces cs) = cs := by
  rw [← substitute_eq, substitute_hole]

theorem not_infix_of_mem_pieces : ∀ p ∈ pieces cs, ¬ hole <:+: p := by
  fun_induction pieces cs with
  | case1 => simp [hole]
  | case2 cs ih => exact List.forall_mem_cons.2 ⟨by simp [hole], ih⟩
  | case3 c cs hc ih =>
    obtain ⟨p, ps, hps⟩ := exists_pieces cs
    rw [hps] at ih ⊢
    obtain ⟨hp, hrest⟩ := List.forall_mem_cons.1 ih
    refine List.forall_mem_cons.2 ⟨fun h => ?_, hrest⟩
    rcases List.infix_cons_iff.1 h with hprefix | hinfix
    · -- a place that begins with the new character would be one of the whole text as well
      have htext : p <+: cs := by
        rw [← intercalate_pieces cs, hps, intercalate_cons]
        exact List.prefix_append p _
      obtain ⟨ds, hds⟩ := hprefix.trans (List.prefix_cons_inj c |>.2 htext)
      obtain ⟨rfl, rfl⟩ := List.cons.inj hds
      exact hc ds rfl rfl
    · exact hp hinfix

/-- Nothing, or a text that begins as a place does. No place can begin before such a text and end in it. -/
def Opens (rest : List Char) : Prop := ∀ c ∈ rest.head?, c = '{'

theorem not_prefix_of_opens {p rest : List Char} {c : Char} (hp : ¬ hole <:+: c :: p) (h : Opens rest) :
    ¬ hole <+: c :: (p ++ rest) := by
  rintro ⟨ds, hds⟩
  -- a place that goes beyond `p` would have its second or third character at the beginning of `rest`
  obtain ⟨rfl, hzero⟩ : '{' = c ∧ '0' :: '}' :: ds = p ++ rest := List.cons.inj hds
  cases p with
  | nil =>
    have hrest : '0' :: '}' :: ds = rest := hzero
    exact absurd (h '0' (hrest ▸ rfl)) (by decide)
  | cons d p =>
    obtain ⟨rfl, hend⟩ := List.cons.inj hzero
    cases p with
    | nil =>
      have hrest : '}' :: ds = rest := hend
      exact absurd (h '}' (hrest ▸ rfl)) (by decide)
    | cons e p =>
      obtain ⟨rfl, _⟩ := List.cons.inj hend
      exact hp (List.prefix_append hole p).isInfix

theorem pieces_cons {c : Char} (h : ¬ hole <+: c :: cs) : pieces (c :: cs) = (pieces cs).modifyHead (c :: ·) := by
  rw [pieces]
  rintro ds rfl rfl
  exact h (List.prefix_append hole ds)

theorem pieces_append {p rest : List Char} (hp : ¬ hole <:+: p) (h : Opens rest) :
    pieces (p ++ rest) = (pieces rest).modifyHead (p ++ ·) := by
  induction p with
  | nil =>
    obtain ⟨q, qs, hqs⟩ := exists_pieces rest
    rw [List.nil_append, hqs, List.modifyHead_cons, List.nil_append]
  | cons c p ih =>
    have htail : ¬ hole <:+: p := fun hi => hp (List.infix_cons hi)
    rw [List.cons_append, pieces_cons (not_prefix_of_opens hp h), ih htail, List.modifyHead_modifyHead]
    rfl

/-- A format can be cut in one way only. -/
theorem pieces_intercalate {p : List Char} {ps : List (List Char)} (h : ∀ q ∈ p :: ps, ¬ hole <:+: q) :
    pieces (hole.intercalate (p :: ps)) = p :: ps := by
  induction ps generalizing p with
  | nil =>
    have hempty : Opens [] := nofun
    have hend := pieces_append (h p List.mem_cons_self) hempty
    simpa [pieces] using hend
  | cons q ps ih =>
    obtain ⟨hp, hrest⟩ := List.forall_mem_cons.1 h
    have hopens : Opens (hole ++ hole.intercalate (q :: ps)) := by
      intro c hc
      exact (Option.some_inj.1 hc).symm
    rw [List.intercalate_cons_cons, List.append_assoc, pieces_append hp hopens]
    change ([] :: pieces (hole.intercalate (q :: ps))).modifyHead (p ++ ·) = _
    rw [ih hrest, List.modifyHead_cons, List.append_nil]

end Pieces

section Cuts

variable {ps : List String} {format : String}

theorem Cut.pieces_eq (h : Cut ps format) : pieces format.toList = ps.map String.toList := by
  obtain ⟨p, ps, rfl⟩ := List.exists_cons_of_ne_nil h.ne_nil
  have hwhole : ∀ q ∈ (p :: ps).map String.toList, ¬ hole <:+: q := by
    intro q hq
    obtain ⟨s, hs, rfl⟩ := List.mem_map.1 hq
    exact h.whole s hs
  rw [← h.join, String.toList_intercalate, String.toList_ofList]
  exact pieces_intercalate hwhole

theorem exists_cut (format : String) : ∃ ps, Cut ps format := by
  refine ⟨(pieces format.toList).map String.ofList, ?_, ?_, ?_⟩
  · obtain ⟨p, ps, hps⟩ := exists_pieces format.toList
    simp [hps]
  · refine List.forall_mem_map.2 fun p hp => ?_
    rw [String.toList_ofList]
    exact not_infix_of_mem_pieces p hp
  · apply String.toList_inj.1
    rw [String.toList_intercalate, List.map_map, String.toList_ofList]
    simpa [Function.comp_def] using intercalate_pieces format.toList

theorem Cut.unique {qs : List String} (hp : Cut ps format) (hq : Cut qs format) : ps = qs := by
  have hmap : ps.map String.toList = qs.map String.toList := hp.pieces_eq.symm.trans hq.pieces_eq
  exact (List.map_inj_right fun _ _ => String.toList_inj.1).1 hmap

end Cuts

/-- What is put between the pieces adds its own length as often as it is put there. -/
theorem utf8ByteSize_intercalate (a b p : String) (ps : List String) :
    (a.intercalate (p :: ps)).utf8ByteSize + ps.length * b.utf8ByteSize =
      (b.intercalate (p :: ps)).utf8ByteSize + ps.length * a.utf8ByteSize := by
  induction ps generalizing p with
  | nil => simp
  | cons q ps ih =>
    have hrest := ih q
    rw [String.intercalate_cons_cons, String.intercalate_cons_cons, List.length_cons, Nat.succ_mul, Nat.succ_mul]
    simp only [String.utf8ByteSize_append]
    omega

namespace Descriptor

/-- What messages are made of: the pieces of their format. -/
structure Substitutes (d : Descriptor) (ps : List String) : Prop where
  message (a : String) : d.message (some a) = a.intercalate ps
  without : d.message none = d.messageFormat
  hole : d.message (some (String.ofList hole)) = d.messageFormat
  /-- Each place is as long as three characters of one byte. -/
  size (a : String) : ((d.message (some a)).utf8ByteSize : Int) =
    d.messageFormat.utf8ByteSize + (ps.length - 1) * (a.utf8ByteSize - 3)
  single {p q : String} (h : ps = [p, q]) : (∀ a, d.message (some a) = p ++ a ++ q) ∧
    ∀ a b, d.message (some a) = d.message (some b) → a = b

theorem message_of_cut {d : Descriptor} {ps : List String} (h : Cut ps d.messageFormat) (a : String) :
    d.message (some a) = a.intercalate ps := by
  apply String.toList_inj.1
  rw [message, String.toList_ofList, substitute_eq, h.pieces_eq, String.toList_intercalate]

theorem substitutes_of_cut {d : Descriptor} {ps : List String} (h : Cut ps d.messageFormat) : Substitutes d ps where
  message := message_of_cut h
  without := rfl
  hole := (message_of_cut h _).trans h.join
  size a := by
    obtain ⟨p, ps, rfl⟩ := List.exists_cons_of_ne_nil h.ne_nil
    have hsize : (String.ofList Diagnostics.hole).utf8ByteSize = 3 := by decide
    have hjoined := utf8ByteSize_intercalate a (String.ofList Diagnostics.hole) p ps
    rw [h.join, hsize] at hjoined
    rw [message_of_cut h, List.length_cons, Int.natCast_succ, Int.add_sub_cancel, Int.mul_sub]
    omega
  single := by
    rintro p q rfl
    have hmessage (a : String) : d.message (some a) = p ++ a ++ q := by
      rw [message_of_cut h, String.intercalate_cons_cons, String.intercalate_singleton]
    refine ⟨hmessage, fun a b he => ?_⟩
    rw [hmessage, hmessage, String.append_left_inj, String.append_right_inj] at he
    exact he

/-- The format of a message is cut in one way only into pieces with places between them. The message has the argument
in these places, and nothing that comes with the argument is looked at again. -/
theorem message_substitutes (d : Descriptor) :
    ∃ ps, (∀ qs, Cut qs d.messageFormat ↔ qs = ps) ∧ Substitutes d ps := by
  obtain ⟨ps, h⟩ := exists_cut d.messageFormat
  exact ⟨ps, fun qs => ⟨fun hq => hq.unique h, fun he => he ▸ h⟩, substitutes_of_cut h⟩

-- What is left around an empty argument looks like a place and is none; neither is one that the argument brings.
example :
    let d := make "G1" "t" "\x7b\x7b0\x7d0\x7d" "Usage" .warning
    d.message (some "") = "\x7b0\x7d" ∧ d.message (some "\x7b0\x7d") = "\x7b\x7b0\x7d0\x7d" := by
  decide +kernel

end Descriptor

end GeneratorKit.Diagnostics
