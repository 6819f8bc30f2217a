import Mathlib.Algebra.Group.Int
import TahoeLafs.PyObject

/-! `cbor2.loads` and `cbor2.dumps` as the storage client uses them: CBOR (RFC 8949) data items
and the Python objects `cbor2` makes of them. -/
namespace TahoeLafs.Cbor
open PyObject

def beNat (bs : List UInt8) : Nat := bs.foldl (fun n b => 256 * n + b.toNat) 0

def readArgument (info : Nat) (bs : List UInt8) : Except PyError (Option Nat × List UInt8) :=
  if info < 24 then .ok (some info, bs)
  else if info ≤ 27 then
    if 2 ^ (info - 24) ≤ bs.length then .ok (some (beNat (bs.take (2 ^ (info - 24)))),
      bs.drop (2 ^ (info - 24)))
    else .error .decodeError
  else if info = 31 then .ok (none, bs)
  else .error .decodeError

def takeBytes (n : Nat) (bs : List UInt8) : Except PyError (List UInt8 × List UInt8) :=
  if n ≤ bs.length then .ok (bs.take n, bs.drop n) else .error .decodeError

def cont (b : UInt8) : Option Nat := if b.toNat / 64 = 2 then some (b.toNat % 64) else none

def two (a b : UInt8) : Option Char := do
  let y ← cont b
  let c := (a.toNat % 32) * 64 + y
  if 0x80 ≤ c then some (Char.ofNat c) else none

def three (a b d : UInt8) : Option Char := do
  let y ← cont b
  let z ← cont d
  let c := (a.toNat % 16) * 4096 + y * 64 + z
  if 0x800 ≤ c ∧ (c < 0xD800 ∨ 0xE000 ≤ c) then some (Char.ofNat c) else none

def four (a b d e : UInt8) : Option Char := do
  let y ← cont b
  let z ← cont d
  let w ← cont e
  let c := (a.toNat % 8) * 262144 + y * 4096 + z * 64 + w
  if 0x10000 ≤ c ∧ c ≤ 0x10FFFF then some (Char.ofNat c) else none

def decodeChar (a : UInt8) (rest : List UInt8) : Option (Char × List UInt8) :=
  if a.toNat < 0x80 then some (Char.ofNat a.toNat, rest)
  else if a.toNat < 0xC0 then none
  else if a.toNat < 0xE0 then
    match rest with
    | b :: rest => (·, rest) <$> two a b
    | [] => none
  else if a.toNat < 0xF0 then
    match rest with
    | b :: d :: rest => (·, rest) <$> three a b d
    | _ => none
  else
    match rest with
    | b :: d :: e :: rest => (·, rest) <$> four a b d e
    | _ => none

def utf8DecodeFrom : Nat → List UInt8 → Option (List Char)
  | _, [] => some []
  | 0, _ :: _ => none
  | fuel + 1, a :: rest => do
    let (c, rest) ← decodeChar a rest
    (c :: ·) <$> utf8DecodeFrom fuel rest

/-- `bytes.decode("utf-8")` in its strict mode: no overlong form, no surrogate, nothing above
U+10FFFF. Each character takes at least one byte, so the length is fuel enough. -/
def utf8Decode (bs : List UInt8) : Option (List Char) := utf8DecodeFrom bs.length bs

def text (bs : List UInt8) : Except PyError String :=
  match utf8Decode bs with
  | some cs => .ok (String.mk cs)
  | none => .error .decodeError

/-- Python's `==` between two keys of a map, for `None`, `bool`, `int`, `str` and `bytes`. Keys
of other kinds are kept apart, which Python would merge when equal (`1.0` and `1`). -/
def keyEq (a b : Value) : Bool :=
  match a, b with
  | .none, .none => true
  | .str s, .str t => s == t
  | .bytes s, .bytes t => s == t
  | a, b =>
    match a.intValue?, b.intValue? with
    | some m, some n => m == n
    | _, _ => false

/-- `dictionary[key] = value`: an equal key keeps its place and takes the new value. -/
def insertKey : List (Value × Value) → Value → Value → List (Value × Value)
  | [], key, value => [(key, value)]
  | (k, v) :: kvs, key, value =>
    if keyEq k key then (k, value) :: kvs else (k, v) :: insertKey kvs key value

def sequence (immutable : Bool) (xs : List Value) : Value :=
  if immutable then .tuple xs else .list xs

def mapping (immutable : Bool) (kvs : List (Value × Value)) : Value :=
  if immutable then .frozenDict (kvs.foldl (fun d kv => insertKey d kv.1 kv.2) [])
  else .dict (kvs.foldl (fun d kv => insertKey d kv.1 kv.2) [])

/-- The object of a tagged item. Tags 2 and 3 are big integers, 258 a set (a `frozenset`
inside a key) of what iterating the content gives; 28 (a value marked as shareable) and 55799
(a self-described item) are their content. Any other tag is an opaque object whose content the
model does not look at: `cbor2` gives a `CBORTag` for a tag it does not know, but converts the
content of one it knows and raises when it cannot (0, 1, 4, 5, 30, 37, 260, 261), and resolves
a shared reference (29). -/
def tagged (immutable : Bool) (tag : Nat) (v : Value) : Except PyError Value :=
  if tag = 2 then
    match v with
    | .bytes bs => .ok (.int (beNat bs))
    | _ => .error .decodeError
  else if tag = 3 then
    match v with
    | .bytes bs => .ok (.int (-1 - beNat bs))
    | _ => .error .decodeError
  else if tag = 258 then do
    let xs ← v.toSet
    pure (if immutable then .frozenset xs else .set xs)
  else if tag = 28 then .ok v
  else if tag = 55799 then .ok v
  else .ok (.other "CBORTag")

def special (info : Nat) (bs : List UInt8) : Except PyError (Value × List UInt8) :=
  if info < 20 then .ok (.other "CBORSimpleValue", bs)
  else if info = 20 then .ok (.bool false, bs)
  else if info = 21 then .ok (.bool true, bs)
  else if info = 22 then .ok (.none, bs)
  else if info = 23 then .ok (.other "undefined", bs)
  else if info = 24 then
    match bs with
    | b :: rest =>
      if 32 ≤ b.toNat then .ok (.other "CBORSimpleValue", rest) else .error .decodeError
    | [] => .error .decodeError
  else if info ≤ 27 then do
    let (ieee, rest) ← takeBytes (2 ^ (info - 24)) bs
    pure (.float ieee, rest)
  else if info = 31 then .ok (.other "break_marker", bs)
  else .error .decodeError

def isBreak : Value → Bool
  | .other name => name == "break_marker"
  | _ => false

mutual
/-- One data item from the front of the bytes, and the bytes after it. `immutable` is set
inside a key of a map. `fuel` bounds the depth of the decoding; `loads` gives more than any
item of its input needs, one item taking at least one byte. -/
def item : Nat → Bool → List UInt8 → Except PyError (Value × List UInt8)
  | 0, _, _ => .error .decodeError
  | _ + 1, _, [] => .error .decodeError
  | fuel + 1, immutable, b :: bs =>
    if b.toNat / 32 = 7 then special (b.toNat % 32) bs
    else do
      let (arg, bs) ← readArgument (b.toNat % 32) bs
      let major := b.toNat / 32
      match arg with
      | some n =>
        if major = 0 then pure (.int n, bs)
        else if major = 1 then pure (.int (-1 - n), bs)
        else if major = 2 then do
          let (d, rest) ← takeBytes n bs
          pure (.bytes d, rest)
        else if major = 3 then do
          let (d, rest) ← takeBytes n bs
          let s ← text d
          pure (.str s, rest)
        else if major = 4 then do
          let (xs, rest) ← items fuel immutable n bs
          pure (sequence immutable xs, rest)
        else if major = 5 then do
          let (kvs, rest) ← pairs fuel immutable n bs
          pure (mapping immutable kvs, rest)
        else do
          let (v, rest) ← item fuel (immutable || n == 258) bs
          let v ← tagged immutable n v
          pure (v, rest)
      | none =>
        if major = 2 then do
          let (ds, rest) ← chunks fuel 2 bs
          pure (.bytes ds.flatten, rest)
        else if major = 3 then do
          let (ds, rest) ← chunks fuel 3 bs
          let ss ← ds.mapM text
          pure (.str (String.join ss), rest)
        else if major = 4 then do
          let (xs, rest) ← itemsToBreak fuel immutable bs
          pure (sequence immutable xs, rest)
        else if major = 5 then do
          let (kvs, rest) ← pairsToBreak fuel immutable bs
          pure (mapping immutable kvs, rest)
        else .error .decodeError

def items : Nat → Bool → Nat → List UInt8 → Except PyError (List Value × List UInt8)
  | _, _, 0, bs => .ok ([], bs)
  | 0, _, _ + 1, _ => .error .decodeError
  | fuel + 1, immutable, n + 1, bs => do
    let (x, rest) ← item fuel immutable bs
    let (xs, rest) ← items fuel immutable n rest
    pure (x :: xs, rest)

def itemsToBreak : Nat → Bool → List UInt8 → Except PyError (List Value × List UInt8)
  | 0, _, _ => .error .decodeError
  | fuel + 1, immutable, bs => do
    let (x, rest) ← item fuel immutable bs
    if isBreak x then pure ([], rest)
    else do
      let (xs, rest) ← itemsToBreak fuel immutable rest
      pure (x :: xs, rest)

def pairs : Nat → Bool → Nat → List UInt8 → Except PyError (List (Value × Value) × List UInt8)
  | _, _, 0, bs => .ok ([], bs)
  | 0, _, _ + 1, _ => .error .decodeError
  | fuel + 1, immutable, n + 1, bs => do
    let (k, rest) ← item fuel true bs
    let (v, rest) ← item fuel immutable rest
    let (kvs, rest) ← pairs fuel immutable n rest
    pure ((k, v) :: kvs, rest)

def pairsToBreak : Nat → Bool → List UInt8 → Except PyError (List (Value × Value) × List UInt8)
  | 0, _, _ => .error .decodeError
  | fuel + 1, immutable, bs => do
    let (k, rest) ← item fuel true bs
    if isBreak k then pure ([], rest)
    else do
      let (v, rest) ← item fuel immutable rest
      let (kvs, rest) ← pairsToBreak fuel immutable rest
      pure ((k, v) :: kvs, rest)

def chunks : Nat → Nat → List UInt8 → Except PyError (List (List UInt8) × List UInt8)
  | 0, _, _ => .error .decodeError
  | _ + 1, _, [] => .error .decodeError
  | fuel + 1, major, b :: bs =>
    if b.toNat = 0xFF then .ok ([], bs)
    else if b.toNat / 32 = major then do
      let (arg, bs) ← readArgument (b.toNat % 32) bs
      match arg with
      | some n => do
        let (d, rest) ← takeBytes n bs
        let (ds, rest) ← chunks fuel major rest
        pure (d :: ds, rest)
      | none => .error .decodeError
    else .error .decodeError
end

section
variable {fuel n : Nat} {imm : Bool} {bs : List UInt8}

theorem items_succ : items (fuel + 1) imm (n + 1) bs = (do
    let (x, rest) ← item fuel imm bs
    let (xs, rest) ← items fuel imm n rest
    pure (x :: xs, rest)) := rfl

theorem pairs_succ : pairs (fuel + 1) imm (n + 1) bs = (do
    let (k, rest) ← item fuel true bs
    let (v, rest) ← item fuel imm rest
    let (kvs, rest) ← pairs fuel imm n rest
    pure ((k, v) :: kvs, rest)) := rfl

@[simp] theorem pairs_zero : pairs fuel imm 0 bs = .ok ([], bs) := by
  cases fuel <;> rfl

end

/-- `cbor2.loads(s)`: the first data item of `s`; what follows it is not looked at. -/
def loads (bs : List UInt8) : Except PyError Value :=
  (fun r => r.1) <$> item (2 * bs.length + 1) false bs

def beBytes : Nat → Nat → List UInt8
  | 0, _ => []
  | width + 1, n => beBytes width (n / 256) ++ [UInt8.ofNat (n % 256)]

/-- The fewest big-endian bytes that write `n`, none for zero (`int.to_bytes` with
`(n.bit_length() + 7) // 8` bytes); `fuel` at least `n` is enough. -/
def minimalBytesFrom : Nat → Nat → List UInt8
  | 0, _ => []
  | fuel + 1, n => if n = 0 then [] else minimalBytesFrom fuel (n / 256) ++ [UInt8.ofNat (n % 256)]

def minimalBytes (n : Nat) : List UInt8 := minimalBytesFrom n n

/-- `encode_length(major, n)`: the head of an item in the fewest bytes, for `n < 2 ^ 64`. -/
def encodeHead (major n : Nat) : List UInt8 :=
  if n < 24 then [UInt8.ofNat (32 * major + n)]
  else if n < 2 ^ 8 then UInt8.ofNat (32 * major + 24) :: beBytes 1 n
  else if n < 2 ^ 16 then UInt8.ofNat (32 * major + 25) :: beBytes 2 n
  else if n < 2 ^ 32 then UInt8.ofNat (32 * major + 26) :: beBytes 4 n
  else UInt8.ofNat (32 * major + 27) :: beBytes 8 n

/-- `CBOREncoder.encode_int`: major type 0 or 1 below `2 ^ 64` in absolute value, a big integer
(tag 2 or 3 on a byte string) beyond. -/
def encodeInt (n : Int) : List UInt8 :=
  if 2 ^ 64 ≤ n then
    encodeHead 6 2 ++ encodeHead 2 (minimalBytes n.toNat).length ++ minimalBytes n.toNat
  else if 0 ≤ n then encodeHead 0 n.toNat
  else if -2 ^ 64 ≤ n then encodeHead 1 (-(n + 1)).toNat
  else encodeHead 6 3 ++ encodeHead 2 (minimalBytes (-(n + 1)).toNat).length ++
    minimalBytes (-(n + 1)).toNat

def encodeChar (c : Char) : List UInt8 :=
  let n := c.toNat
  if n < 0x80 then [UInt8.ofNat n]
  else if n < 0x800 then [UInt8.ofNat (0xC0 + n / 64), UInt8.ofNat (0x80 + n % 64)]
  else if n < 0x10000 then
    [UInt8.ofNat (0xE0 + n / 4096), UInt8.ofNat (0x80 + n / 64 % 64), UInt8.ofNat (0x80 + n % 64)]
  else
    [UInt8.ofNat (0xF0 + n / 262144), UInt8.ofNat (0x80 + n / 4096 % 64),
      UInt8.ofNat (0x80 + n / 64 % 64), UInt8.ofNat (0x80 + n % 64)]

/-- `str.encode("utf-8")`. -/
def utf8Encode : List Char → List UInt8
  | [] => []
  | c :: cs => encodeChar c ++ utf8Encode cs

/-- `CBOREncoder.encode_string`: a text string. -/
def encodeStr (s : String) : List UInt8 :=
  encodeHead 3 (utf8Encode s.toList).length ++ utf8Encode s.toList

/-- `CBOREncoder.encode_set` of a set of integers, in its iteration order: tag 258 on an
array. -/
def encodeIntSet (xs : List Int) : List UInt8 :=
  encodeHead 6 258 ++ encodeHead 4 xs.length ++ (xs.map encodeInt).flatten

end TahoeLafs.Cbor
