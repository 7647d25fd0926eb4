import GeneratorKit.Storage.Shelf

set_option autoImplicit false

/-!
# Pools and buffers of a shelf

Setting one part of a shelf leaves the others, and setting it again forgets what was set before.
-/
namespace GeneratorKit.Storage.Shelf

variable {s : Shelf} {name : String} {common : Bool}

@[simp] theorem poolOf_setPool (s : Shelf) (common : Bool) (p : Pool) :
    (s.setPool common p).poolOf common = p := by
  cases common <;> rfl

theorem setPool_setPool (s : Shelf) (common : Bool) (p q : Pool) :
    (s.setPool common p).setPool common q = s.setPool common q := by
  cases common <;> rfl

theorem setPool_poolOf (s : Shelf) (common : Bool) : s.setPool common (s.poolOf common) = s := by
  cases common <;> rfl

@[simp] theorem buffers_setPool (s : Shelf) (common : Bool) (p : Pool) :
    (s.setPool common p).buffers = s.buffers := by
  cases common <;> rfl

@[simp] theorem poolOf_setBuffer (s : Shelf) (h : Holding) :
    (s.setBuffer name h).poolOf common = s.poolOf common := by
  cases common <;> rfl

theorem setBuffer_of_get? {h : Holding} (hs : s.buffers.get? name = some h) :
    s.setBuffer name h = s := by
  rw [setBuffer, OrderedMap.insert_of_get? hs]

theorem setPool_setBuffer (s : Shelf) (common : Bool) (p : Pool) (h : Holding) :
    (s.setBuffer name h).setPool common p = (s.setPool common p).setBuffer name h := by
  cases common <;> rfl

theorem setBuffer_setBuffer (s : Shelf) (g h : Holding) :
    (s.setBuffer name g).setBuffer name h = s.setBuffer name h := by
  rw [setBuffer, setBuffer, setBuffer, OrderedMap.insert_insert]

end GeneratorKit.Storage.Shelf
