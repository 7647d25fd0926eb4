import GeneratorKit.Storage.Pool

set_option autoImplicit false

/-!
# Sound pools

What the idle blocks of a pool have in common, whatever was rented and given back before. A loan takes
a block out of the idle ones and keeps the others (`rent_cases`); in a sound pool it fails exactly for
sizes past the address limit, and the block it gives is empty.
-/
namespace GeneratorKit.Storage

theorem Block.allocate_ok {size : Nat} {b : Block} (h : allocate size = .ok b) :
    b.capacity ≤ addressLimit := by
  unfold allocate at h
  split at h
  · next hs =>
    cases h
    exact hs
  · cases h

namespace Pool

theorem lastFirst_perm (bs : List Block) : (lastFirst bs).Perm bs := by
  unfold lastFirst
  cases h : bs.getLast? with
  | none => simp [List.getLast?_eq_none_iff.1 h]
  | some b =>
    obtain ⟨cs, rfl⟩ := List.getLast?_eq_some_iff.1 h
    simpa using (List.perm_append_singleton b cs).symm

theorem takeFirst_eq_some {size : Nat} {bs rest : List Block} {b : Block}
    (h : takeFirst size bs = some (b, rest)) : size ≤ b.capacity ∧ bs.Perm (b :: rest) := by
  induction bs generalizing rest with
  | nil => simp [takeFirst] at h
  | cons c cs ih =>
    rw [takeFirst] at h
    split at h
    · next hc =>
      obtain ⟨rfl, rfl⟩ : c = b ∧ lastFirst cs = rest := by simpa using h
      exact ⟨hc, (lastFirst_perm cs).symm.cons c⟩
    · obtain ⟨⟨found, others⟩, ht, he⟩ := Option.map_eq_some_iff.1 h
      obtain ⟨rfl, rfl⟩ : found = b ∧ c :: others = rest := by simpa using he
      obtain ⟨hs, hp⟩ := ih ht
      exact ⟨hs, (hp.cons c).trans (List.Perm.swap found c others)⟩

theorem takeFirst_eq_none {size : Nat} {bs : List Block} (h : takeFirst size bs = none) :
    ∀ b ∈ bs, b.capacity < size := by
  induction bs with
  | nil => simp
  | cons c cs ih =>
    rw [takeFirst] at h
    split at h
    · simp at h
    · next hc =>
      intro b hb
      rcases List.mem_cons.1 hb with rfl | hb
      · omega
      · exact ih (by simpa using h) b hb

/-- A loan is either an idle block that leaves the others, or a new block when no idle one has room. -/
theorem rent_cases (p : Pool) (size : Nat) :
    (∃ b rest, size ≤ b.capacity ∧ p.idle.Perm (b :: rest) ∧
      p.rent size = ({ p with idle := rest, rented := p.rented + 1 }, .ok b)) ∨
    ((∀ b ∈ p.idle, b.capacity < size) ∧
      p.rent size = ({ p with rented := p.rented + 1 }, Block.allocate size)) := by
  cases h : takeFirst size p.idle with
  | none => exact .inr ⟨takeFirst_eq_none h, by simp only [rent, h]⟩
  | some found =>
    obtain ⟨b, rest⟩ := found
    obtain ⟨hs, hp⟩ := takeFirst_eq_some h
    exact .inl ⟨b, rest, hs, hp, by simp only [rent, h]⟩

theorem giveBack_cases (p : Pool) (b : Block) :
    (b.capacity ≤ p.maxBlockSize ∧ p.idle.length < p.maxRetained ∧
      p.giveBack b =
        { p with idle := p.idle ++ [{ b with text := "" }], returned := p.returned + 1 }) ∨
    (¬ (b.capacity ≤ p.maxBlockSize ∧ p.idle.length < p.maxRetained) ∧
      p.giveBack b = { p with returned := p.returned + 1 }) := by
  unfold giveBack
  by_cases hb : p.maxBlockSize < b.capacity
  · exact .inr ⟨by omega, by simp [hb]⟩
  · by_cases hn : p.idle.length < p.maxRetained
    · exact .inl ⟨by omega, hn, by simp [hb, hn]⟩
    · exact .inr ⟨by omega, by simp [hb, hn]⟩

@[simp] theorem rent_rented (p : Pool) (size : Nat) : (p.rent size).1.rented = p.rented + 1 := by
  rcases rent_cases p size with ⟨_, _, _, _, h⟩ | ⟨_, h⟩ <;> rw [h]

@[simp] theorem rent_returned (p : Pool) (size : Nat) : (p.rent size).1.returned = p.returned := by
  rcases rent_cases p size with ⟨_, _, _, _, h⟩ | ⟨_, h⟩ <;> rw [h]

@[simp] theorem rent_maxRetained (p : Pool) (size : Nat) :
    (p.rent size).1.maxRetained = p.maxRetained := by
  rcases rent_cases p size with ⟨_, _, _, _, h⟩ | ⟨_, h⟩ <;> rw [h]

@[simp] theorem rent_maxBlockSize (p : Pool) (size : Nat) :
    (p.rent size).1.maxBlockSize = p.maxBlockSize := by
  rcases rent_cases p size with ⟨_, _, _, _, h⟩ | ⟨_, h⟩ <;> rw [h]

theorem rent_idle_length_le (p : Pool) (size : Nat) :
    (p.rent size).1.idle.length ≤ p.idle.length := by
  rcases rent_cases p size with ⟨b, rest, _, hp, h⟩ | ⟨_, h⟩
  · have hl := hp.length_eq
    simp only [List.length_cons] at hl
    simp only [h]
    omega
  · simp only [h]
    omega

theorem mem_idle_of_rent {p : Pool} {size : Nat} {c : Block} (h : c ∈ (p.rent size).1.idle) :
    c ∈ p.idle := by
  rcases rent_cases p size with ⟨b, rest, _, hp, e⟩ | ⟨_, e⟩
  · rw [e] at h
    exact hp.mem_iff.2 (List.mem_cons_of_mem b h)
  · rw [e] at h
    exact h

@[simp] theorem giveBack_rented (p : Pool) (b : Block) : (p.giveBack b).rented = p.rented := by
  rcases giveBack_cases p b with ⟨_, _, h⟩ | ⟨_, h⟩ <;> rw [h]

@[simp] theorem giveBack_returned (p : Pool) (b : Block) :
    (p.giveBack b).returned = p.returned + 1 := by
  rcases giveBack_cases p b with ⟨_, _, h⟩ | ⟨_, h⟩ <;> rw [h]

@[simp] theorem giveBack_maxRetained (p : Pool) (b : Block) :
    (p.giveBack b).maxRetained = p.maxRetained := by
  rcases giveBack_cases p b with ⟨_, _, h⟩ | ⟨_, h⟩ <;> rw [h]

@[simp] theorem giveBack_maxBlockSize (p : Pool) (b : Block) :
    (p.giveBack b).maxBlockSize = p.maxBlockSize := by
  rcases giveBack_cases p b with ⟨_, _, h⟩ | ⟨_, h⟩ <;> rw [h]

theorem giveBack_idle_length_le (p : Pool) (b : Block) :
    (p.giveBack b).idle.length ≤ p.idle.length + 1 := by
  rcases giveBack_cases p b with ⟨_, _, h⟩ | ⟨_, h⟩ <;> simp [h]

theorem giveBack_idle_length_le_max {p : Pool} (b : Block) (h : p.idle.length ≤ p.maxRetained) :
    (p.giveBack b).idle.length ≤ p.maxRetained := by
  rcases giveBack_cases p b with ⟨_, hn, e⟩ | ⟨_, e⟩
  · simp only [e, List.length_append, List.length_singleton]
    omega
  · rw [e]
    exact h

/-- What comes in by a return is the block that was given back, emptied, if it is small enough. -/
theorem mem_idle_of_giveBack {p : Pool} {b c : Block} (h : c ∈ (p.giveBack b).idle) :
    c ∈ p.idle ∨ (b.capacity ≤ p.maxBlockSize ∧ c = { b with text := "" }) := by
  rcases giveBack_cases p b with ⟨hs, _, e⟩ | ⟨_, e⟩
  · rw [e] at h
    rcases List.mem_append.1 h with hc | hc
    · exact .inl hc
    · exact .inr ⟨hs, List.mem_singleton.1 hc⟩
  · rw [e] at h
    exact .inl h

/-- Idle blocks are empty and keep to the limits of the pool. -/
structure Tidy (p : Pool) : Prop where
  empty : ∀ b ∈ p.idle, b.text = ""
  small : ∀ b ∈ p.idle, b.capacity ≤ p.maxBlockSize
  few : p.idle.length ≤ p.maxRetained

theorem tidy_withLimits (maxRetained maxBlockSize : Nat) :
    (withLimits maxRetained maxBlockSize).Tidy := by
  constructor <;> simp [withLimits]

theorem Tidy.rent {p : Pool} (h : p.Tidy) (size : Nat) : (p.rent size).1.Tidy where
  empty b hb := h.empty b (mem_idle_of_rent hb)
  small b hb := by
    rw [rent_maxBlockSize]
    exact h.small b (mem_idle_of_rent hb)
  few := by
    rw [rent_maxRetained]
    exact Nat.le_trans (rent_idle_length_le p size) h.few

theorem Tidy.giveBack {p : Pool} (h : p.Tidy) (b : Block) : (p.giveBack b).Tidy where
  empty c hc := by
    rcases mem_idle_of_giveBack hc with hm | ⟨_, rfl⟩
    · exact h.empty c hm
    · rfl
  small c hc := by
    rw [giveBack_maxBlockSize]
    rcases mem_idle_of_giveBack hc with hm | ⟨hs, rfl⟩
    · exact h.small c hm
    · exact hs
  few := by
    rw [giveBack_maxRetained]
    exact giveBack_idle_length_le_max b h.few

/-- Idle blocks are empty, could be allocated, and keep to the limits of the pool. -/
structure Sound (p : Pool) : Prop where
  empty : ∀ b ∈ p.idle, b.text = ""
  addressable : ∀ b ∈ p.idle, b.capacity ≤ addressLimit
  small : ∀ b ∈ p.idle, b.capacity ≤ p.maxBlockSize
  few : p.idle.length ≤ p.maxRetained

theorem Sound.tidy {p : Pool} (h : p.Sound) : p.Tidy := ⟨h.empty, h.small, h.few⟩

theorem Tidy.sound {p : Pool} (h : p.Tidy) (ha : ∀ b ∈ p.idle, b.capacity ≤ addressLimit) : p.Sound :=
  ⟨h.empty, ha, h.small, h.few⟩

theorem sound_withLimits (maxRetained maxBlockSize : Nat) :
    (withLimits maxRetained maxBlockSize).Sound :=
  (tidy_withLimits maxRetained maxBlockSize).sound (by simp [withLimits])

theorem Sound.rent {p : Pool} (h : p.Sound) (size : Nat) : (p.rent size).1.Sound :=
  (h.tidy.rent size).sound fun b hb => h.addressable b (mem_idle_of_rent hb)

theorem Sound.giveBack {p : Pool} (h : p.Sound) {b : Block} (hb : b.capacity ≤ addressLimit) :
    (p.giveBack b).Sound := by
  refine (h.tidy.giveBack b).sound fun c hc => ?_
  rcases mem_idle_of_giveBack hc with hm | ⟨_, rfl⟩
  · exact h.addressable c hm
  · exact hb

theorem Sound.rent_of_le {p : Pool} (h : p.Sound) {size : Nat} (hs : size ≤ addressLimit) :
    ∃ b, (p.rent size).2 = .ok b ∧ b.text = "" ∧ size ≤ b.capacity ∧ b.capacity ≤ addressLimit := by
  rcases rent_cases p size with ⟨b, rest, hb, hp, e⟩ | ⟨_, e⟩
  · have hm : b ∈ p.idle := hp.mem_iff.2 List.mem_cons_self
    exact ⟨b, by rw [e], h.empty b hm, hb, h.addressable b hm⟩
  · exact ⟨⟨size, ""⟩, by simp [e, Block.allocate, hs], rfl, Nat.le_refl _, hs⟩

theorem Sound.rent_of_lt {p : Pool} (h : p.Sound) {size : Nat} (hs : addressLimit < size) :
    (p.rent size).2 = .error .capacity := by
  rcases rent_cases p size with ⟨b, rest, hb, hp, _⟩ | ⟨_, e⟩
  · have ha := h.addressable b (hp.mem_iff.2 List.mem_cons_self)
    omega
  · simp [e, Block.allocate, Nat.not_le.2 hs]

theorem Sound.rent_ok {p : Pool} (h : p.Sound) {size : Nat} {b : Block}
    (hr : (p.rent size).2 = .ok b) : b.capacity ≤ addressLimit := by
  by_cases hs : size ≤ addressLimit
  · obtain ⟨c, hc, _, _, ha⟩ := h.rent_of_le hs
    rw [hr] at hc
    cases hc
    exact ha
  · rw [h.rent_of_lt (by omega)] at hr
    cases hr

end Pool

end GeneratorKit.Storage
