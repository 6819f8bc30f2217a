import Mathlib.Data.Nat.Digits
import TahoeLafs.Cbor

/-! `cbor2.loads` reads back what `cbor2.dumps` writes, for the items the storage client writes:
integers of any size, text strings, sets of integers and maps of them. -/
namespace TahoeLafs.CborRoundTrip
open PyObject Cbor

theorem toNat_ofNat {n : Nat} (h : n < 256) : (UInt8.ofNat n).toNat = n :=
  UInt8.toNat_ofNat_of_lt h

theorem beNat_append_byte (bs : List UInt8) (b : UInt8) :
    beNat (bs ++ [b]) = 256 * beNat bs + b.toNat := by
  simp [beNat]

theorem length_beBytes (width n : Nat) : (beBytes width n).length = width := by
  induction width generalizing n with
  | zero => rfl
  | succ width ih => simp [beBytes, ih]

theorem beNat_beBytes (width n : Nat) : beNat (beBytes width n) = n % 256 ^ width := by
  induction width generalizing n with
  | zero => simp [beBytes, beNat, Nat.mod_one]
  | succ width ih =>
    rw [beBytes, beNat_append_byte, ih, toNat_ofNat (Nat.mod_lt _ (by decide)), pow_succ',
      Nat.mod_mul]
    omega

theorem headByte_div {major info : Nat} (hm : major < 8) (hi : info < 32) :
    (UInt8.ofNat (32 * major + info)).toNat / 32 = major ∧
      (UInt8.ofNat (32 * major + info)).toNat % 32 = info := by
  rw [toNat_ofNat (by omega)]
  omega

theorem readArgument_encodeHead (major : Nat) {n : Nat} (hm : major < 8) (hn : n < 2 ^ 64)
    (rest : List UInt8) :
    ∃ b tail, encodeHead major n = b :: tail ∧ b.toNat / 32 = major ∧
      readArgument (b.toNat % 32) (tail ++ rest) = .ok (some n, rest) := by
  have read : ∀ width info, info ≤ 27 → 24 ≤ info → 2 ^ (info - 24) = width → n < 256 ^ width →
      readArgument info (beBytes width n ++ rest) = .ok (some n, rest) := by
    intro width info hi h24 hw hlt
    have hlen := length_beBytes width n
    simp only [readArgument, show ¬ info < 24 by omega, ↓reduceIte, hw, List.length_append, hlen]
    rw [if_pos (by omega), if_pos (by omega), List.take_left' hlen, List.drop_left' hlen,
      beNat_beBytes, Nat.mod_eq_of_lt hlt]
  unfold encodeHead
  split_ifs with h1 h2 h3 h4
  · refine ⟨_, [], rfl, (headByte_div hm (by omega)).1, ?_⟩
    rw [(headByte_div hm (by omega)).2]
    simp [readArgument, h1]
  all_goals
    refine ⟨_, _, rfl, (headByte_div hm (by decide)).1, ?_⟩
    rw [(headByte_div hm (by decide)).2]
  · exact read 1 24 (by decide) le_rfl rfl (by omega)
  · exact read 2 25 (by decide) (by decide) rfl (by omega)
  · exact read 4 26 (by decide) (by decide) rfl (by omega)
  · exact read 8 27 (by decide) (by decide) rfl (by omega)

theorem cont_ofNat {k : Nat} (h : k < 64) : cont (UInt8.ofNat (0x80 + k)) = some k := by
  simp only [cont, toNat_ofNat (show 0x80 + k < 256 by omega)]
  rw [if_pos (by omega)]
  congr 1
  omega

section
variable {n : Nat}

theorem two_encode (h1 : 0x80 ≤ n) (h2 : n < 0x800) :
    two (UInt8.ofNat (0xC0 + n / 64)) (UInt8.ofNat (0x80 + n % 64)) = some (Char.ofNat n) := by
  have hn : (0xC0 + n / 64) % 32 * 64 + n % 64 = n := by omega
  simp only [two, cont_ofNat (Nat.mod_lt _ (by decide) : n % 64 < 64), toNat_ofNat
    (by omega : 0xC0 + n / 64 < 256), Option.bind_eq_bind, Option.some_bind, hn, if_pos h1]

theorem three_encode (h1 : 0x800 ≤ n) (h2 : n < 0x10000) (hs : n < 0xD800 ∨ 0xE000 ≤ n) :
    three (UInt8.ofNat (0xE0 + n / 4096)) (UInt8.ofNat (0x80 + n / 64 % 64))
      (UInt8.ofNat (0x80 + n % 64)) = some (Char.ofNat n) := by
  have hn : (0xE0 + n / 4096) % 16 * 4096 + n / 64 % 64 * 64 + n % 64 = n := by omega
  simp only [three, cont_ofNat (Nat.mod_lt _ (by decide) : n / 64 % 64 < 64),
    cont_ofNat (Nat.mod_lt _ (by decide) : n % 64 < 64), toNat_ofNat
    (by omega : 0xE0 + n / 4096 < 256), Option.bind_eq_bind, Option.some_bind, hn,
    if_pos (And.intro h1 hs)]

theorem four_encode (h1 : 0x10000 ≤ n) (h2 : n < 0x110000) :
    four (UInt8.ofNat (0xF0 + n / 262144)) (UInt8.ofNat (0x80 + n / 4096 % 64))
      (UInt8.ofNat (0x80 + n / 64 % 64)) (UInt8.ofNat (0x80 + n % 64)) = some (Char.ofNat n) := by
  have hn : (0xF0 + n / 262144) % 8 * 262144 + n / 4096 % 64 * 4096 + n / 64 % 64 * 64 +
      n % 64 = n := by omega
  simp only [four, cont_ofNat (Nat.mod_lt _ (by decide) : n / 4096 % 64 < 64),
    cont_ofNat (Nat.mod_lt _ (by decide) : n / 64 % 64 < 64),
    cont_ofNat (Nat.mod_lt _ (by decide) : n % 64 < 64), toNat_ofNat
    (by omega : 0xF0 + n / 262144 < 256), Option.bind_eq_bind, Option.some_bind, hn,
    if_pos (And.intro h1 (Nat.le_of_lt_succ h2))]

end

/-- `decodeChar` reads back the bytes `encodeChar` writes for any character. -/
theorem decodeChar_encodeChar (c : Char) (bs : List UInt8) :
    ∃ a tail, encodeChar c = a :: tail ∧ decodeChar a (tail ++ bs) = some (c, bs) := by
  have hv : c.toNat < 0xD800 ∨ (0xDFFF < c.toNat ∧ c.toNat < 0x110000) := c.valid
  dsimp only [encodeChar]
  split_ifs with h1 h2 h3 <;> refine ⟨_, _, rfl, ?_⟩ <;> unfold decodeChar <;>
    rw [toNat_ofNat (by omega)]
  · rw [if_pos h1, Char.ofNat_toNat]
    rfl
  · rw [if_neg (by omega), if_neg (by omega), if_pos (by omega)]
    dsimp only [List.cons_append, List.nil_append]
    rw [two_encode (by omega) h2, Char.ofNat_toNat]
    rfl
  · rw [if_neg (by omega), if_neg (by omega), if_neg (by omega), if_pos (by omega)]
    dsimp only [List.cons_append, List.nil_append]
    rw [three_encode (by omega) h3 (by omega), Char.ofNat_toNat]
    rfl
  · rw [if_neg (by omega), if_neg (by omega), if_neg (by omega), if_neg (by omega)]
    dsimp only [List.cons_append, List.nil_append]
    rw [four_encode (by omega) (by omega), Char.ofNat_toNat]
    rfl

theorem utf8DecodeFrom_utf8Encode (cs : List Char) {fuel : Nat} (h : cs.length ≤ fuel) :
    utf8DecodeFrom fuel (utf8Encode cs) = some cs := by
  induction cs generalizing fuel with
  | nil => cases fuel <;> rfl
  | cons c cs ih =>
    obtain ⟨a, tail, he, hd⟩ := decodeChar_encodeChar c (utf8Encode cs)
    obtain ⟨fuel, rfl⟩ : ∃ f, fuel = f + 1 := ⟨fuel - 1, by simp at h; omega⟩
    rw [utf8Encode, he, List.cons_append, utf8DecodeFrom, hd]
    simp [ih (by simpa using h)]

theorem length_le_utf8Encode (cs : List Char) : cs.length ≤ (utf8Encode cs).length := by
  induction cs with
  | nil => rfl
  | cons c cs ih =>
    obtain ⟨a, tail, he, -⟩ := decodeChar_encodeChar c []
    simp [utf8Encode, he]
    omega

theorem text_utf8Encode (s : String) : text (utf8Encode s.toList) = .ok s := by
  rw [text, utf8Decode, utf8DecodeFrom_utf8Encode _ (length_le_utf8Encode _)]
  rfl

theorem beNat_minimalBytesFrom {fuel n : Nat} (h : n ≤ fuel) :
    beNat (minimalBytesFrom fuel n) = n := by
  induction fuel generalizing n with
  | zero => rw [Nat.le_zero.mp h]; rfl
  | succ fuel ih =>
    rw [minimalBytesFrom]
    split_ifs with h0
    · rw [h0]; rfl
    · rw [beNat_append_byte, ih (n := n / 256) (by omega), toNat_ofNat (Nat.mod_lt _ (by decide))]
      omega

theorem length_minimalBytesFrom {fuel n : Nat} (h : n ≤ fuel) :
    (minimalBytesFrom fuel n).length = (Nat.digits 256 n).length := by
  induction fuel generalizing n with
  | zero => simp [Nat.le_zero.mp h, minimalBytesFrom]
  | succ fuel ih =>
    rw [minimalBytesFrom]
    split_ifs with h0
    · simp [h0]
    · rw [List.length_append, ih (n := n / 256) (by omega), Nat.digits_def' (n := n) (by decide)
        (by omega)]
      rfl

theorem beNat_minimalBytes (m : Nat) : beNat (minimalBytes m) = m := beNat_minimalBytesFrom le_rfl

theorem length_encodeHead_pos (major n : Nat) : 0 < (encodeHead major n).length := by
  unfold encodeHead
  split_ifs <;> simp

theorem length_encodeInt_pos (n : Int) : 0 < (encodeInt n).length := by
  have := length_encodeHead_pos 0 n.toNat
  have := length_encodeHead_pos 1 (-(n + 1)).toNat
  have := length_encodeHead_pos 6 2
  have := length_encodeHead_pos 6 3
  unfold encodeInt
  split_ifs <;> (try simp only [List.length_append]) <;> omega

theorem length_le_flatten {α : Type} {f : α → List UInt8} (hf : ∀ a, 0 < (f a).length)
    (xs : List α) : xs.length ≤ ((xs.map f).flatten).length := by
  induction xs with
  | nil => rfl
  | cons x xs ih =>
    have := hf x
    simp only [List.map_cons, List.flatten_cons, List.length_append, List.length_cons]
    omega

/-- `cbor2.dumps` can write `n`: the bytes of a big integer number fewer than `2 ^ 64`, the
most a head can count. -/
def Encodable (n : Int) : Prop := (Nat.digits 256 n.natAbs).length < 2 ^ 64

theorem Encodable.of_lt {n : Int} (h : n.natAbs < 2 ^ 64) : Encodable n := by
  by_cases h0 : n.natAbs = 0
  · simp [Encodable, h0]
  · have hlog := Nat.log_lt_of_lt_pow h0 (h.trans_eq (show 2 ^ 64 = 256 ^ 8 by norm_num))
    rw [Encodable, Nat.digits_len 256 _ (by decide) h0]
    omega

theorem takeBytes_append (bs rest : List UInt8) :
    takeBytes bs.length (bs ++ rest) = .ok (bs, rest) := by
  simp [takeBytes]

section
variable {fuel n : Nat} {imm : Bool} {rest : List UInt8}

theorem item_unsigned (hn : n < 2 ^ 64) :
    item (fuel + 1) imm (encodeHead 0 n ++ rest) = .ok (.int n, rest) := by
  obtain ⟨b, tail, he, hb, harg⟩ := readArgument_encodeHead 0 (by decide) hn rest
  rw [he, List.cons_append]
  simp [item, hb, harg]

theorem item_negative (hn : n < 2 ^ 64) :
    item (fuel + 1) imm (encodeHead 1 n ++ rest) = .ok (.int (-1 - n), rest) := by
  obtain ⟨b, tail, he, hb, harg⟩ := readArgument_encodeHead 1 (by decide) hn rest
  rw [he, List.cons_append]
  simp [item, hb, harg]

theorem item_bytes {bs : List UInt8} (hn : bs.length < 2 ^ 64) :
    item (fuel + 1) imm (encodeHead 2 bs.length ++ (bs ++ rest)) = .ok (.bytes bs, rest) := by
  obtain ⟨b, tail, he, hb, harg⟩ := readArgument_encodeHead 2 (by decide) hn (bs ++ rest)
  rw [he, List.cons_append]
  simp [item, hb, harg, takeBytes_append]

theorem item_encodeStr {s : String} (hs : (utf8Encode s.toList).length < 2 ^ 64) :
    item (fuel + 1) imm (encodeStr s ++ rest) = .ok (.str s, rest) := by
  obtain ⟨b, tail, he, hb, harg⟩ :=
    readArgument_encodeHead 3 (by decide) hs (utf8Encode s.toList ++ rest)
  rw [encodeStr, List.append_assoc, he, List.cons_append]
  simp only [item, hb, harg, Nat.reduceEqDiff, ↓reduceIte, Except.ok_bind, takeBytes_append,
    text_utf8Encode, Except.pure_eq]

theorem item_array (hn : n < 2 ^ 64) :
    item (fuel + 1) imm (encodeHead 4 n ++ rest) = (do
      let (xs, rest) ← items fuel imm n rest
      pure (Cbor.sequence imm xs, rest)) := by
  obtain ⟨b, tail, he, hb, harg⟩ := readArgument_encodeHead 4 (by decide) hn rest
  rw [he, List.cons_append]
  simp [item, hb, harg]

theorem item_map (hn : n < 2 ^ 64) :
    item (fuel + 1) imm (encodeHead 5 n ++ rest) = (do
      let (kvs, rest) ← pairs fuel imm n rest
      pure (mapping imm kvs, rest)) := by
  obtain ⟨b, tail, he, hb, harg⟩ := readArgument_encodeHead 5 (by decide) hn rest
  rw [he, List.cons_append]
  simp [item, hb, harg]

theorem item_tag (hn : n < 2 ^ 64) :
    item (fuel + 1) imm (encodeHead 6 n ++ rest) = (do
      let (v, rest) ← item fuel (imm || n == 258) rest
      let v ← tagged imm n v
      pure (v, rest)) := by
  obtain ⟨b, tail, he, hb, harg⟩ := readArgument_encodeHead 6 (by decide) hn rest
  rw [he, List.cons_append]
  simp [item, hb, harg]

theorem item_bignum {tag m : Nat} (ht : tag = 2 ∨ tag = 3) (hm : (minimalBytes m).length < 2 ^ 64) :
    item (fuel + 2) imm (encodeHead 6 tag ++ encodeHead 2 (minimalBytes m).length ++
      minimalBytes m ++ rest) = .ok (.int (if tag = 2 then m else -1 - m), rest) := by
  simp only [List.append_assoc]
  rw [item_tag (by omega), item_bytes hm]
  rcases ht with rfl | rfl <;> simp [tagged, beNat_minimalBytes]

theorem item_encodeInt {n : Int} (hn : Encodable n) :
    item (fuel + 2) imm (encodeInt n ++ rest) = .ok (.int n, rest) := by
  have bytes : ∀ m : Nat, m ≤ n.natAbs → (minimalBytes m).length < 2 ^ 64 := fun m hm =>
    (length_minimalBytesFrom le_rfl).trans_lt ((Nat.le_digits_len_le _ _ _ hm).trans_lt hn)
  unfold encodeInt
  split_ifs with h1 h2 h3
  · rw [item_bignum (.inl rfl) (bytes _ (by omega))]
    simp only [↓reduceIte, Int.toNat_of_nonneg (show 0 ≤ n by omega)]
  · rw [item_unsigned (by omega), Int.toNat_of_nonneg h2]
  · rw [item_negative (by omega)]
    congr 3
    omega
  · rw [item_bignum (.inr rfl) (bytes _ (by omega))]
    simp only [Nat.reduceEqDiff, ↓reduceIte]
    congr 3
    omega

theorem items_encodeInts {xs : List Int} (hx : ∀ x ∈ xs, Encodable x) (hf : xs.length + 2 ≤ fuel) :
    items fuel imm xs.length ((xs.map encodeInt).flatten ++ rest) = .ok (xs.map .int, rest) := by
  induction xs generalizing fuel with
  | nil => cases fuel <;> rfl
  | cons x xs ih =>
    obtain ⟨fuel, rfl⟩ : ∃ f, fuel = f + 3 := ⟨fuel - 3, by simp at hf; omega⟩
    simp only [List.map_cons, List.flatten_cons, List.length_cons, List.append_assoc]
    simp only [items_succ, item_encodeInt (hx x (.head _)),
      ih (fun y hy => hx y (.tail _ hy)) (show xs.length + 2 ≤ fuel + 2 by simp at hf; omega),
      Except.ok_bind,
      Except.pure_eq]

/-- A set of integers, tag 258 on an array, comes back as a `set` (a `frozenset` in a key). -/
theorem item_encodeIntSet {xs : List Int} (hx : ∀ x ∈ xs, Encodable x) (hlen : xs.length < 2 ^ 64)
    (hf : xs.length + 4 ≤ fuel) :
    item fuel imm (encodeIntSet xs ++ rest) =
      .ok (if imm then .frozenset (xs.map .int) else .set (xs.map .int), rest) := by
  obtain ⟨fuel, rfl⟩ : ∃ f, fuel = f + 2 := ⟨fuel - 2, by omega⟩
  rw [encodeIntSet, List.append_assoc, List.append_assoc, item_tag (by decide), item_array hlen,
    items_encodeInts hx (by omega)]
  simp [Cbor.sequence, tagged, Value.toSet, Value.iter, Value.hashable]

end

theorem loads_encodeIntSet {xs : List Int} (hx : ∀ x ∈ xs, Encodable x)
    (hlen : xs.length < 2 ^ 64) :
    loads (encodeIntSet xs) = .ok (.set (xs.map .int)) := by
  have := length_le_flatten length_encodeInt_pos xs
  have := length_encodeHead_pos 6 258
  have := length_encodeHead_pos 4 xs.length
  rw [loads, ← List.append_nil (encodeIntSet xs), item_encodeIntSet hx hlen]
  · rfl
  · simp only [encodeIntSet, List.length_append, List.append_nil]
    omega

end TahoeLafs.CborRoundTrip
