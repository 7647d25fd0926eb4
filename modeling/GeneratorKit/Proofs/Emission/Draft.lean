import GeneratorKit.Emission.Writer
import GeneratorKit.Proofs.Storage.Buffer

set_option autoImplicit false

/-!
# Drafts

A draft is what a writer would be if text were a plain string without any storage behind it. A writer
does to its text and its level what the draft does, unless it runs out of room (`Writer.step_tracks`,
`Writer.run_tracks`), which takes a text of more than half of what can be addressed (`NoRoom`).
-/
namespace GeneratorKit.Emission
open Storage

structure Draft where
  level : Nat
  text : String
  deriving DecidableEq

namespace Draft

def size (d : Draft) : Nat := d.text.utf8ByteSize

def add (d : Draft) (s : String) : Draft := { d with text := d.text ++ s }

theorem size_add (d : Draft) (s : String) : (d.add s).size = d.size + s.utf8ByteSize :=
  String.utf8ByteSize_append

def cut (d : Draft) (length : Nat) : Draft × Option Stop :=
  match Text.cut? d.text length with
  | some s => ({ d with text := s }, none)
  | none => (d, some (.refusal (.invalidLength length d.size)))

def step (unit : String) (d : Draft) : Edit → Draft × Option Stop
  | .text s => (d.add s, none)
  | .indent => (d.add (String.join (List.replicate d.level unit)), none)
  | .rendering r => if r.fails then (d, some (.refusal .format)) else (d.add r.text, none)
  | .pieces r => (d.add r.text, none)
  | .deepen =>
    if d.level + 1 < levelLimit then ({ d with level := d.level + 1 }, none)
    else (d, some (.fault .overflow))
  | .rise =>
    match d.level with
    | 0 => (d, some (.refusal .unbalancedScope))
    | n + 1 => ({ d with level := n }, none)
  | .setLevel n => ({ d with level := n }, none)
  | .truncate length => d.cut length
  | .dropLast count => d.cut (d.size - count)
  | .clear => (⟨0, ""⟩, none)
  | .refuse r => (d, some (.refusal r))

def run (unit : String) (d : Draft) : List Edit → Draft × Option Stop
  | [] => (d, none)
  | e :: es =>
    match d.step unit e with
    | (d, none) => run unit d es
    | stopped => stopped

theorem run_append (unit : String) (d : Draft) (es fs : List Edit) :
    d.run unit (es ++ fs) =
      match d.run unit es with
      | (d, none) => d.run unit fs
      | stopped => stopped := by
  induction es generalizing d with
  | nil => rfl
  | cons e es ih =>
    simp only [List.cons_append, run]
    rcases d.step unit e with ⟨d', _ | s⟩
    · exact ih d'
    · rfl

theorem run_single (unit : String) (d : Draft) (e : Edit) : d.run unit [e] = d.step unit e := by
  rw [run]
  rcases d.step unit e with ⟨c, _ | stop⟩ <;> rfl

/-- What was added last can be dropped again. -/
theorem step_dropLast (unit : String) (d : Draft) (s : String) :
    (d.add s).step unit (.dropLast s.utf8ByteSize) = (d, none) := by
  have hsize : (d.add s).size - s.utf8ByteSize = d.text.utf8ByteSize := by
    rw [size_add, Nat.add_sub_cancel]
    rfl
  have hcut : Text.cut? (d.add s).text d.text.utf8ByteSize = some d.text := Text.cut?_append d.text s
  rw [step, cut, hsize, hcut]
  rfl

/-- The texts that an edit writes, one after another. -/
def pieces (unit : String) (d : Draft) : Edit → List String
  | .text s => [s]
  | .indent => List.replicate d.level unit
  | .rendering r | .pieces r => r.pieces
  | _ => []

/-- The bytes of the text when an edit has written its pieces. -/
def reach (unit : String) (d : Draft) (e : Edit) : Nat :=
  d.size + (String.join (d.pieces unit e)).utf8ByteSize

/-- The bytes of the longest text on the way of a run. -/
def peak (unit : String) (d : Draft) : List Edit → Nat
  | [] => d.size
  | e :: es => max (d.reach unit e) (match d.step unit e with
    | (d, none) => peak unit d es
    | _ => 0)

theorem size_le_peak (unit : String) (d : Draft) (es : List Edit) : d.size ≤ d.peak unit es := by
  cases es with
  | nil => exact Nat.le_refl _
  | cons e es => exact Nat.le_trans (Nat.le_add_right _ _) (Nat.le_max_left _ _)

end Draft

/-- Whether an edit never takes back what is written. -/
def Edit.grows : Edit → Bool
  | .truncate _ | .dropLast _ | .clear => false
  | .rendering r => !r.fails
  | _ => true

namespace Draft

theorem reach_of_grows (unit : String) (d : Draft) {e : Edit} (h : e.grows = true) :
    d.reach unit e = (d.step unit e).1.size := by
  cases e with
  | text s => simp [reach, pieces, step, size_add]
  | indent => simp [reach, pieces, step, size_add]
  | rendering r =>
    have hr : r.fails = false := by simpa [Edit.grows] using h
    simp [reach, pieces, step, size_add, hr, Rendering.text]
  | pieces r => simp [reach, pieces, step, size_add, Rendering.text]
  | deepen =>
    simp only [reach, pieces, step]
    split <;> simp [size]
  | rise =>
    simp only [reach, pieces, step]
    split <;> simp [size]
  | setLevel n => simp [reach, pieces, step, size]
  | refuse r => simp [reach, pieces, step, size]
  | truncate length | dropLast count | clear => simp [Edit.grows] at h

/-- Where nothing is taken back, the last text is the longest. -/
theorem peak_of_grows (unit : String) (d : Draft) {es : List Edit}
    (h : ∀ e ∈ es, e.grows = true) : d.peak unit es = (d.run unit es).1.size := by
  induction es generalizing d with
  | nil => rfl
  | cons e es ih =>
    have hr := reach_of_grows unit d (h e (by simp))
    rw [peak, run]
    rcases hs : d.step unit e with ⟨d', _ | s⟩
    · have hp := ih d' fun f hf => h f (by simp [hf])
      have hle := size_le_peak unit d' es
      rw [hs] at hr
      simp only at hr ⊢
      omega
    · rw [hs] at hr
      simp only at hr ⊢
      omega

end Draft

/-- A stop for want of room on the way to a text of so many bytes, which is more than half of what can be
addressed. -/
structure NoRoom (stop : Option Stop) (bytes : Nat) : Prop where
  stopped : stop = some (.fault .capacity)
  long : addressLimit < 2 * bytes

theorem NoRoom.mono {stop : Option Stop} {m n : Nat} (h : NoRoom stop m) (hmn : m ≤ n) : NoRoom stop n :=
  ⟨h.stopped, Nat.lt_of_lt_of_le h.long (Nat.mul_le_mul_left 2 hmn)⟩

/-- What comes to a stop later does not change what stopped first. -/
theorem NoRoom.or {stop : Option Stop} {bytes : Nat} (h : NoRoom stop bytes) (later : Option Stop) :
    NoRoom (stop.or later) bytes :=
  ⟨by rw [h.stopped, Option.some_or], h.long⟩

namespace Writer

def draft (w : Writer) : Draft := ⟨w.level, w.text⟩

@[simp] theorem draft_level (w : Writer) : w.draft.level = w.level := rfl

@[simp] theorem draft_text (w : Writer) : w.draft.text = w.text := rfl

@[simp] theorem draft_size (w : Writer) : w.draft.size = w.size := rfl

/-- The bytes of the longest text on the way of a run. -/
def peak (w : Writer) (es : List Edit) : Nat := w.draft.peak w.indent.unit es

structure Sound (w : Writer) : Prop where
  buffer : w.buffer.Sound
  pool : w.pool.Sound

theorem sound_make {capacity : Nat} {b : Buffer} (h : Buffer.withCapacity capacity = .ok b)
    (indent : Indent) {p : Pool} (hp : p.Sound) : (make indent b p).Sound :=
  ⟨(Buffer.sound_withCapacity h).1, hp⟩

/-- A sound result that is the one of a draft, or that stopped for want of room on the way to a text of
so many bytes. -/
structure Tracks (w : Writer) (r : Result) (d : Draft × Option Stop) (bytes : Nat) : Prop where
  sound : r.1.Sound
  indent : r.1.indent = w.indent
  outcome : (r.1.draft, r.2) = d ∨ NoRoom r.2 bytes

theorem Tracks.eq_of_none {w v : Writer} {d : Draft × Option Stop} {bytes : Nat}
    (h : Tracks w (v, none) d bytes) : d = (v.draft, none) := by
  rcases h.outcome with ho | hr
  · exact ho.symm
  · cases hr.stopped

theorem Tracks.noRoom_of_some {w v : Writer} {stop : Stop} {d : Draft} {bytes : Nat}
    (h : Tracks w (v, some stop) (d, none) bytes) : NoRoom (some stop) bytes := by
  rcases h.outcome with ho | hr
  · cases congrArg Prod.snd ho
  · exact hr

theorem Tracks.ends {w : Writer} {r : Result} {level : Nat} {text : String} {stop : Option Stop} {bytes : Nat}
    (h : Tracks w r (⟨level, text⟩, stop) bytes) :
    (r.2 = stop ∧ r.1.level = level ∧ r.1.text = text) ∨ NoRoom r.2 bytes := by
  refine h.outcome.imp_left fun ho => ?_
  have hd : r.1.draft = ⟨level, text⟩ := congrArg Prod.fst ho
  exact ⟨congrArg Prod.snd ho, congrArg Draft.level hd, congrArg Draft.text hd⟩

theorem append_tracks {w : Writer} (h : w.Sound) (s : String) :
    Tracks w (w.append s) (w.draft.add s, none) (w.size + s.utf8ByteSize) := by
  obtain ⟨hp, hb⟩ := Buffer.append_sound h.buffer h.pool s
  have hv := Buffer.append_view h.buffer h.pool s
  unfold append
  rcases hr : w.buffer.append s w.pool with ⟨p, f | b⟩
  · rw [hr] at hp hv
    obtain ⟨rfl, hc, ha⟩ := View.append_error hv.symm
    simp only [Buffer.view_capacity, Buffer.view_size, View.request] at hc ha
    refine ⟨⟨h.buffer, hp⟩, rfl, .inr ⟨rfl, ?_⟩⟩
    change _ < 2 * (w.buffer.size + _)
    omega
  · rw [hr] at hp hb hv
    have ht := View.append_text hv.symm
    refine ⟨⟨hb b rfl, hp⟩, rfl, .inl ?_⟩
    exact congrArg (fun t => (Draft.mk w.level t, (none : Option Stop))) ht

theorem appendAll_tracks {w : Writer} (h : w.Sound) (ss : List String) :
    Tracks w (appendAll ss w) (w.draft.add (String.join ss), none)
      (w.size + (String.join ss).utf8ByteSize) := by
  induction ss generalizing w with
  | nil => exact ⟨h, rfl, .inl (by simp [appendAll, draft, Draft.add])⟩
  | cons s ss ih =>
    have hs := append_tracks h s
    rw [appendAll, String.join_cons, String.utf8ByteSize_append]
    rcases hr : w.append s with ⟨v, _ | stop⟩
    · rw [hr] at hs
      have hd : v.draft = w.draft.add s := congrArg Prod.fst hs.eq_of_none.symm
      have hsize : v.size = w.size + s.utf8ByteSize := by
        have hz := congrArg Draft.size hd
        rw [Draft.size_add] at hz
        exact hz
      obtain ⟨hv, hi, ho⟩ := ih hs.sound
      refine ⟨hv, hi.trans hs.indent, ?_⟩
      simpa only [hd, Draft.add, String.append_assoc, hsize, Nat.add_assoc] using ho
    · rw [hr] at hs
      exact ⟨hs.sound, hs.indent, .inr (hs.noRoom_of_some.mono (by omega))⟩

theorem truncate_eq (w : Writer) (length : Nat) :
    w.truncate length = match Text.cut? w.text length with
      | some s => ({ w with buffer := w.buffer.setText s }, none)
      | none => (w, some (.refusal (.invalidLength length w.size))) := by
  unfold truncate
  rw [Buffer.truncate_eq, show w.buffer.text = w.text from rfl]
  cases Text.cut? w.text length <;> rfl

theorem truncate_tracks {w : Writer} (h : w.Sound) (length bytes : Nat) :
    Tracks w (w.truncate length) (w.draft.cut length) bytes := by
  rw [truncate_eq, Draft.cut, draft_text]
  cases hc : Text.cut? w.text length with
  | none => exact ⟨h, rfl, .inl rfl⟩
  | some s =>
    obtain ⟨⟨t, ht⟩, _⟩ := (Text.cut?_eq_some_iff _ _ _).1 hc
    have hle : s.utf8ByteSize ≤ w.buffer.size := by
      change _ ≤ w.text.utf8ByteSize
      rw [ht, String.utf8ByteSize_append]
      omega
    exact ⟨⟨h.buffer.setText (Nat.le_trans hle h.buffer.size_le), h.pool⟩, rfl, .inl rfl⟩

theorem appendRendering_tracks {w : Writer} (h : w.Sound) (r : Rendering) :
    Tracks w (w.appendRendering r)
      (if r.fails then (w.draft, some (.refusal .format)) else (w.draft.add r.text, none))
      (w.size + r.text.utf8ByteSize) := by
  have ht := appendAll_tracks h r.pieces
  unfold appendRendering
  rcases hr : appendAll r.pieces w with ⟨v, _ | stop⟩
  · rw [hr] at ht
    have hd : v.draft = w.draft.add r.text := congrArg Prod.fst ht.eq_of_none.symm
    cases r.fails with
    | false => exact ⟨ht.sound, ht.indent, .inl (by simp [hd])⟩
    | true =>
      -- what was there before is the prefix at the old length, so the way back always succeeds
      have htext : v.buffer.text = w.text ++ r.text := congrArg Draft.text hd
      have hc : Text.cut? v.buffer.text w.size = some w.text :=
        htext ▸ Text.cut?_append w.text r.text
      have hl : v.level = w.level := congrArg Draft.level hd
      simp only [Buffer.truncate_eq, hc, if_true]
      refine ⟨⟨ht.sound.buffer.setText ?_, ht.sound.pool⟩, ht.indent, .inl ?_⟩
      · refine Nat.le_trans ?_ ht.sound.buffer.size_le
        change _ ≤ v.buffer.text.utf8ByteSize
        rw [htext, String.utf8ByteSize_append]
        omega
      · exact congrArg (fun n => (Draft.mk n w.text, some (Stop.refusal .format))) hl
  · rw [hr] at ht
    exact ⟨ht.sound, ht.indent, .inr ht.noRoom_of_some⟩

theorem step_tracks {w : Writer} (h : w.Sound) (e : Edit) :
    Tracks w (w.step e) (w.draft.step w.indent.unit e) (w.draft.reach w.indent.unit e) := by
  cases e with
  | text s =>
    have hs : (String.join [s]).utf8ByteSize = s.utf8ByteSize := by simp
    rw [Draft.reach, Draft.pieces, hs]
    exact append_tracks h s
  | indent => exact appendAll_tracks h _
  | rendering r => exact appendRendering_tracks h r
  | pieces r => exact appendAll_tracks h r.pieces
  | deepen =>
    by_cases hl : w.level + 1 < levelLimit
    · simp only [step, Draft.step, draft_level, hl, if_true]
      exact ⟨⟨h.buffer, h.pool⟩, rfl, .inl rfl⟩
    · simp only [step, Draft.step, draft_level, hl, if_false]
      exact ⟨h, rfl, .inl rfl⟩
  | rise =>
    rcases hl : w.level with _ | n
    · simp only [step, Draft.step, draft_level, hl]
      exact ⟨h, rfl, .inl rfl⟩
    · simp only [step, Draft.step, draft_level, hl]
      exact ⟨⟨h.buffer, h.pool⟩, rfl, .inl rfl⟩
  | setLevel n => exact ⟨⟨h.buffer, h.pool⟩, rfl, .inl rfl⟩
  | truncate length => exact truncate_tracks h length _
  | dropLast count => exact truncate_tracks h (w.size - count) _
  | clear => exact ⟨⟨h.buffer.clear, h.pool⟩, rfl, .inl rfl⟩
  | refuse r => exact ⟨h, rfl, .inl rfl⟩

/-- A run of edits does what it does to the draft, or it stops for want of room. -/
theorem run_tracks {w : Writer} (h : w.Sound) (es : List Edit) :
    Tracks w (w.run es) (w.draft.run w.indent.unit es) (w.peak es) := by
  induction es generalizing w with
  | nil => exact ⟨h, rfl, .inl rfl⟩
  | cons e es ih =>
    have hs := step_tracks h e
    rw [run, Draft.run, peak, Draft.peak]
    rcases hr : w.step e with ⟨v, _ | stop⟩
    · rw [hr] at hs
      obtain ⟨hv, hi, ho⟩ := ih hs.sound
      rw [hs.eq_of_none]
      refine ⟨hv, hi.trans hs.indent, ?_⟩
      rw [peak, show v.indent = w.indent from hs.indent] at ho
      exact ho.imp_right fun hr => hr.mono (Nat.le_max_right _ _)
    · rw [hr] at hs
      refine ⟨hs.sound, hs.indent, ?_⟩
      rcases hs.outcome with ho | hr
      · rw [← ho]
        exact .inl rfl
      · exact .inr (hr.mono (Nat.le_max_left _ _))

/-- Where nothing is taken back, a run that stops for want of room would have led to a text of more than
half of what can be addressed. -/
theorem run_tracks_of_grows {w : Writer} (h : w.Sound) {es : List Edit}
    (hg : ∀ e ∈ es, e.grows = true) :
    Tracks w (w.run es) (w.draft.run w.indent.unit es) (w.draft.run w.indent.unit es).1.size := by
  have ht := run_tracks h es
  rwa [peak, Draft.peak_of_grows _ _ hg] at ht

end Writer

end GeneratorKit.Emission
