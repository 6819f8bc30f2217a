import TahoeLafs.Basic

/-! The Python objects that `cbor2.loads` gives the storage client, and the three things the
client does with them: `obj[key]` with a `str` key, `for x in obj`, and `set(obj)`. -/
namespace TahoeLafs.PyObject

/-- An object `cbor2.loads` can return. Arrays and maps that are keys of a map come back
immutable (`tuple`, `FrozenDict`, `frozenset`); a float is kept as its IEEE bytes; `other` is
any object that is neither subscriptable nor iterable (a `CBORTag`, a `datetime`, ...). A
`dict` holds each key once. -/
inductive Value where
  | none
  | bool (b : Bool)
  | int (n : Int)
  | float (ieee : List UInt8)
  | bytes (bs : List UInt8)
  | str (s : String)
  | list (xs : List Value)
  | tuple (xs : List Value)
  | dict (kvs : List (Value × Value))
  | frozenDict (kvs : List (Value × Value))
  | set (xs : List Value)
  | frozenset (xs : List Value)
  | other (typeName : String)

def Value.intValue? : Value → Option Int
  | .int n => some n
  | .bool b => some (if b then 1 else 0)
  | _ => Option.none

inductive PyError where
  /-- `cbor2.CBORDecodeError`: the body is not a well-formed CBOR item. -/
  | decodeError
  | keyError (key : Value)
  | typeError
  | valueError

def Value.isStr (key : String) : Value → Bool
  | .str s => s == key
  | _ => false

/-- `obj[key]` for a `str` key: a mapping looks the key up (`KeyError` when it is missing),
and every other object raises `TypeError`. -/
def Value.getItem (v : Value) (key : String) : Except PyError Value :=
  match v with
  | .dict kvs | .frozenDict kvs =>
    match kvs.find? (fun kv => kv.1.isStr key) with
    | some kv => .ok kv.2
    | Option.none => .error (.keyError (.str key))
  | _ => .error .typeError

/-- The objects a `for` loop over `obj` visits: the items of a sequence or a set, the keys of
a mapping, the one-character strings of a `str`, the byte values of `bytes`. Other objects
are not iterable. -/
def Value.iter : Value → Except PyError (List Value)
  | .list xs | .tuple xs | .set xs | .frozenset xs => .ok xs
  | .dict kvs | .frozenDict kvs => .ok (kvs.map Prod.fst)
  | .str s => .ok (s.toList.map fun c => .str (String.singleton c))
  | .bytes bs => .ok (bs.map fun b => .int b.toNat)
  | _ => .error .typeError

/-- Whether `hash(obj)` works: mutable containers have no hash. -/
def Value.hashable : Value → Bool
  | .list _ | .dict _ | .set _ => false
  | .tuple xs => all xs
  | .frozenDict kvs => allPairs kvs
  | _ => true
where
  all : List Value → Bool
    | [] => true
    | x :: xs => x.hashable && all xs
  allPairs : List (Value × Value) → Bool
    | [] => true
    | (k, v) :: kvs => k.hashable && v.hashable && allPairs kvs

/-- `set(obj)`: the objects iteration visits, each of which must be hashable. The model keeps
them as a list; Python keeps one of each group of equal ones. -/
def Value.toSet (v : Value) : Except PyError (List Value) := do
  let xs ← v.iter
  if xs.all Value.hashable then pure xs else throw .typeError

end TahoeLafs.PyObject
