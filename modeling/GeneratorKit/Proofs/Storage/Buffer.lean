import GeneratorKit.Proofs.Storage.Pool
import GeneratorKit.Storage.Buffer

set_option autoImplicit false

/-!
# Sound buffers and what can be seen of them

An append fits, or moves the text to a rented block, or asks for more than can be addressed
(`append_cases`). Which of the three happens, and what can be seen of the buffer afterwards, is decided
by what could be seen of it before: the pool has no say in it (`append_view`).
-/
namespace GeneratorKit.Storage

structure View where
  text : String
  capacity : Nat
  pooled : Bool
  deriving DecidableEq

namespace View

def size (v : View) : Nat := v.text.utf8ByteSize

/-- The bytes that are asked for when a text does not fit. -/
def request (v : View) (s : String) : Nat := max (v.capacity * 2) (v.size + s.utf8ByteSize)

/-- Writes a text behind what is there, as if blocks were always at hand. -/
def append (v : View) (s : String) : Except Fault View :=
  if v.size + s.utf8ByteSize ≤ v.capacity then .ok { v with text := v.text ++ s }
  else if v.request s ≤ addressLimit then .ok ⟨v.text ++ s, v.request s, true⟩
  else .error .capacity

theorem append_text {v u : View} {s : String} (h : v.append s = .ok u) : u.text = v.text ++ s := by
  unfold append at h
  split at h
  · cases h
    rfl
  · split at h
    · cases h
      rfl
    · cases h

/-- Only the want of room stops an append. -/
theorem append_error {v : View} {s : String} {f : Fault} (h : v.append s = .error f) :
    f = .capacity ∧ v.capacity < v.size + s.utf8ByteSize ∧ addressLimit < v.request s := by
  unfold append at h
  split at h
  · cases h
  · next hs =>
    split at h
    · cases h
    · next hr =>
      cases h
      exact ⟨rfl, by omega, by omega⟩

end View

namespace Buffer

def view (b : Buffer) : View := ⟨b.text, b.capacity, b.pooled⟩

@[simp] theorem view_text (b : Buffer) : b.view.text = b.text := rfl

@[simp] theorem view_size (b : Buffer) : b.view.size = b.size := rfl

@[simp] theorem view_capacity (b : Buffer) : b.view.capacity = b.capacity := rfl

@[simp] theorem view_pooled (b : Buffer) : b.view.pooled = b.pooled := rfl

@[simp] theorem view_setText (b : Buffer) (s : String) :
    (b.setText s).view = { b.view with text := s } := rfl

/-- The text fits in the capacity, the capacity in the block, and the block in the address space. -/
structure Sound (b : Buffer) : Prop where
  size_le : b.size ≤ b.capacity
  capacity_le : b.capacity ≤ b.block.capacity
  addressable : b.block.capacity ≤ addressLimit

theorem withCapacity_eq (capacity : Nat) : withCapacity capacity =
    if capacity ≤ addressLimit then .ok ⟨⟨capacity, ""⟩, capacity, false⟩ else .error .capacity := by
  unfold withCapacity Block.allocate
  split <;> rfl

theorem withCapacity_error {capacity : Nat} {f : Fault} (h : withCapacity capacity = .error f) :
    f = .capacity := by
  rw [withCapacity_eq] at h
  split at h
  · cases h
  · cases h
    rfl

theorem sound_withCapacity {capacity : Nat} {b : Buffer} (h : withCapacity capacity = .ok b) :
    b.Sound ∧ b.view = ⟨"", capacity, false⟩ := by
  rw [withCapacity_eq] at h
  split at h
  · next hc =>
    cases h
    exact ⟨⟨Nat.zero_le _, Nat.le_refl _, hc⟩, rfl⟩
  · cases h

theorem truncate_eq (b : Buffer) (length : Nat) :
    b.truncate length = match Text.cut? b.text length with
      | some s => .ok (b.setText s)
      | none =>
        .error (if b.size < length then .cutPastEnd length b.size else .cutInsideCharacter length) := by
  unfold truncate
  cases hc : Text.cut? b.text length with
  | none => split <;> rfl
  | some s =>
    have h : ¬ b.size < length := by
      intro h
      rw [Text.cut?_eq_none_of_lt h] at hc
      cases hc
    rw [if_neg h]

theorem Sound.setText {b : Buffer} (h : b.Sound) {s : String} (hs : s.utf8ByteSize ≤ b.capacity) :
    (b.setText s).Sound := ⟨hs, h.capacity_le, h.addressable⟩

theorem Sound.clear {b : Buffer} (h : b.Sound) : b.clear.Sound := h.setText (Nat.zero_le _)

theorem Sound.release {b : Buffer} (h : b.Sound) {p : Pool} (hp : p.Sound) : (b.release p).Sound := by
  unfold Buffer.release
  split
  · exact hp.giveBack h.addressable
  · exact hp

variable {b : Buffer} {p : Pool}

theorem grow_of_ok {q : Pool} {s : String} {block : Block}
    (h : p.rent (b.view.request s) = (q, .ok block)) : b.grow s.utf8ByteSize p =
      (b.release q, .ok ⟨{ block with text := block.text ++ b.text }, b.view.request s, true⟩) := by
  rw [grow, show max (b.capacity * 2) (b.size + s.utf8ByteSize) = b.view.request s from rfl, h]
  rfl

theorem grow_of_error {q : Pool} {s : String} {f : Fault}
    (h : p.rent (b.view.request s) = (q, .error f)) : b.grow s.utf8ByteSize p = (q, .error f) := by
  rw [grow, show max (b.capacity * 2) (b.size + s.utf8ByteSize) = b.view.request s from rfl, h]

theorem append_cases (hb : b.Sound) (hp : p.Sound) (s : String) :
    (b.size + s.utf8ByteSize ≤ b.capacity ∧ b.append s p = (p, .ok (b.setText (b.text ++ s)))) ∨
    (b.capacity < b.size + s.utf8ByteSize ∧ b.view.request s ≤ addressLimit ∧
      ∃ room, b.view.request s ≤ room ∧ room ≤ addressLimit ∧
        b.append s p = (b.release (p.rent (b.view.request s)).1,
          .ok ⟨⟨room, b.text ++ s⟩, b.view.request s, true⟩)) ∨
    (b.capacity < b.size + s.utf8ByteSize ∧ addressLimit < b.view.request s ∧
      b.append s p = ((p.rent (b.view.request s)).1, .error .capacity)) := by
  have hsize := hb.size_le
  by_cases hs : b.size + s.utf8ByteSize ≤ b.capacity
  · refine .inl ⟨hs, ?_⟩
    rw [append, if_neg (by omega)]
  by_cases hr : b.view.request s ≤ addressLimit
  · obtain ⟨block, hok, hempty, hroom, ha⟩ := hp.rent_of_le hr
    refine .inr (.inl ⟨by omega, hr, block.capacity, hroom, ha, ?_⟩)
    have hrent : p.rent (b.view.request s) = ((p.rent (b.view.request s)).1, .ok block) :=
      Prod.ext rfl hok
    rw [append, if_pos (by omega), grow_of_ok hrent]
    simp [setText, text, hempty]
  · have hrent : p.rent (b.view.request s) = ((p.rent (b.view.request s)).1, .error .capacity) :=
      Prod.ext rfl (hp.rent_of_lt (by omega))
    refine .inr (.inr ⟨by omega, by omega, ?_⟩)
    rw [append, if_pos (by omega), grow_of_error hrent]

theorem append_sound (hb : b.Sound) (hp : p.Sound) (s : String) :
    (b.append s p).1.Sound ∧ ∀ c, (b.append s p).2 = .ok c → c.Sound := by
  have hrent := hp.rent (b.view.request s)
  rcases append_cases hb hp s with ⟨hs, h⟩ | ⟨hs, hr, room, hroom, ha, h⟩ | ⟨_, _, h⟩
  · rw [h]
    refine ⟨hp, fun c hc => ?_⟩
    cases hc
    exact hb.setText (by simpa [size, String.utf8ByteSize_append] using hs)
  · rw [h]
    refine ⟨hb.release hrent, fun c hc => ?_⟩
    cases hc
    refine ⟨?_, hroom, ha⟩
    change (b.text ++ s).utf8ByteSize ≤ max _ _
    rw [String.utf8ByteSize_append]
    exact Nat.le_max_right _ _
  · rw [h]
    refine ⟨hrent, fun c hc => ?_⟩
    cases hc

/-- What can be seen after an append depends on what could be seen before. -/
theorem append_view (hb : b.Sound) (hp : p.Sound) (s : String) :
    (b.append s p).2.map view = b.view.append s := by
  unfold View.append
  rcases append_cases hb hp s with ⟨hs, h⟩ | ⟨hs, hr, room, _, _, h⟩ | ⟨hs, hr, h⟩
  · rw [h, if_pos (by simpa using hs)]
    rfl
  · rw [h, if_neg (by simpa using hs), if_pos hr]
    rfl
  · rw [h, if_neg (by simpa using hs), if_neg (by omega)]
    rfl

end Buffer

end GeneratorKit.Storage
