import TahoeLafs.PyObject

/-! `collections_extended.RangeMap`, in which `write_share_chunk` collects the ranges of a share
the server still needs. It comes from a library, so it is modelled by what that library
promises: a map from keys to values that is set one range at a time. -/
namespace TahoeLafs
open PyObject

/-- A `RangeMap` with integer keys, by the value of each key (`none`: the key has no value, and
`m[key]` raises `KeyError`). -/
structure RangeMap (α : Type) where
  get : Int → Option α

def inRange (start stop : Option Int) (key : Int) : Bool :=
  (match start with
    | some a => decide (a ≤ key)
    | none => true) &&
  (match stop with
    | some b => decide (key < b)
    | none => true)

namespace RangeMap
variable {α : Type}

/-- `RangeMap()`: no key has a value. -/
def empty : RangeMap α := ⟨fun _ => none⟩

/-- `_check_start_stop(start, stop)`: `ValueError` unless `start < stop`; a `None` bound
passes. -/
def checkStartStop (start stop : Option Int) : Except PyError Unit :=
  match start, stop with
  | some a, some b => if a < b then .ok () else .error .valueError
  | _, _ => .ok ()

/-- `m.set(value, start, stop)`: every key of `[start, stop)` maps to `value` afterwards, and
every other key keeps its value. -/
def set (m : RangeMap α) (value : α) (start stop : Option Int) : Except PyError (RangeMap α) := do
  checkStartStop start stop
  return ⟨fun key => if inRange start stop key then some value else m.get key⟩

theorem set_some {m : RangeMap α} {value : α} {a b : Int} (h : a < b) :
    m.set value (some a) (some b) =
      .ok ⟨fun key => if a ≤ key ∧ key < b then some value else m.get key⟩ := by
  simp [set, checkStartStop, h, inRange]

end RangeMap

/-- A key of a `RangeMap` read from a decoded object: an `int` (a `bool` is the int 0 or 1),
or `None` for an open bound. The model raises `TypeError` for every other object; Python
would go on with a float or a `str`, until it compares it with an `int`. -/
def PyObject.Value.bound (v : Value) : Except PyError (Option Int) :=
  match v, v.intValue? with
  | .none, _ => .ok Option.none
  | _, some n => .ok (some n)
  | _, Option.none => .error .typeError

@[simp] theorem PyObject.Value.bound_int (n : Int) : (Value.int n).bound = .ok (some n) := rfl

end TahoeLafs
