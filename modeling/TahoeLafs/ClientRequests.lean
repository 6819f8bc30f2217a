import TahoeLafs.CborRoundTrip
import TahoeLafs.PidText
import TahoeLafs.StorageClient

/-! What the storage client sends: the credentials on each call's request, and the body of
`create`. The `Authorization` header proves the client knows the server's swissnum; an
`X-Tahoe-Authorization` header carries one secret, tagged with its role. -/
namespace TahoeLafs.ClientRequests
open PyObject Cbor CborRoundTrip StorageClient

def headerValues (r : Request) (name : String) : List String :=
  (r.headers.filter fun h => h.1 == name).map Prod.snd

/-- The credentials a request may carry: the swissnum's `Authorization` header once, and one
`X-Tahoe-Authorization` header for each of these secrets, in this order, and no other. -/
def Carries (env : Env) (c : Client) (r : Request) (secrets : List (Secret × List UInt8)) : Prop :=
  headerValues r "Authorization" = [env.swissnumAuthHeader c.swissnum] ∧
    headerValues r "X-Tahoe-Authorization" = secrets.map fun sv => (secretHeader env sv.1 sv.2).2

/-- What a call sends carries these credentials, whenever it sends something. -/
def CallCarries (env : Env) (c : Client) (request : Except ClientError Request)
    (secrets : List (Secret × List UInt8)) : Prop :=
  ∀ r, request = .ok r → Carries env c r secrets

section
variable (env : Env) (c : Client) (method path : String) (data : List UInt8)

theorem request_carries (leaseRenew leaseCancel upload : Option (List UInt8))
    (headers : List (String × String))
    (hs : ∀ h ∈ headers, h.1 ≠ "Authorization" ∧ h.1 ≠ "X-Tahoe-Authorization") :
    Carries env c (c.request env method path leaseRenew leaseCancel upload headers data)
      ([(Secret.leaseRenew, leaseRenew), (.leaseCancel, leaseCancel), (.upload, upload)].filterMap
        fun sv => sv.2.map (sv.1, ·)) := by
  have hnil : ∀ name, (name = "Authorization" ∨ name = "X-Tahoe-Authorization") →
      headers.filter (fun h => h.1 == name) = [] := by
    rintro name hname
    refine List.filter_eq_nil_iff.mpr fun h hh => ?_
    have := hs h hh
    rcases hname with rfl | rfl <;> simp [this.1, this.2]
  have ha := hnil _ (.inl rfl)
  have hx := hnil _ (.inr rfl)
  cases leaseRenew <;> cases leaseCancel <;> cases upload <;>
    simp [Carries, headerValues, Client.request, List.filter_append, ha, hx]

end

section
variable (env : Env) (c : Client) (storageIndex : List UInt8)

/-- Each call's request carries the swissnum's `Authorization` header once and, of the secrets,
only its own: `create` the lease renewal, lease cancellation and upload secrets, in this order;
`write_share_chunk` the upload secret; `get_version`, `read_share_chunk` and `list_shares`
none. -/
theorem calls_carry_their_secrets (shareNumbers : List Int) (allocatedSize : Int)
    (uploadSecret leaseRenewSecret leaseCancelSecret : List UInt8) (shareNumber offset : Int)
    (data : List UInt8) (readOffset length : Int) :
    CallCarries env c (c.getVersion env).request [] ∧
    CallCarries env c (c.create env storageIndex shareNumbers allocatedSize uploadSecret
      leaseRenewSecret leaseCancelSecret).request
      [(.leaseRenew, leaseRenewSecret), (.leaseCancel, leaseCancelSecret),
        (.upload, uploadSecret)] ∧
    CallCarries env c
      (c.writeShareChunk env storageIndex shareNumber uploadSecret offset data).request
      [(.upload, uploadSecret)] ∧
    CallCarries env c (c.readShareChunk env storageIndex shareNumber readOffset length).request [] ∧
    CallCarries env c (c.listShares env storageIndex).request [] := by
  refine ⟨fun r hr => ?_, fun r hr => ?_, fun r hr => ?_, fun r hr => ?_, fun r hr => ?_⟩
  -- write_share_chunk and read_share_chunk first write their range header
  on_goal 3 => obtain ⟨range, -, hr⟩ := Except.bind_eq_ok.mp hr
  on_goal 4 => obtain ⟨range, -, hr⟩ := Except.bind_eq_ok.mp hr
  all_goals
    cases hr
    exact request_carries env c _ _ _ _ _ _ _ (by simp)

end

/-! The secrets travel in base64: what `b64encode` writes, the standard decoding reads back. -/

def b64Value (c : Char) : Option Nat :=
  if 'A' ≤ c ∧ c ≤ 'Z' then some (c.toNat - 65)
  else if 'a' ≤ c ∧ c ≤ 'z' then some (c.toNat - 71)
  else if '0' ≤ c ∧ c ≤ '9' then some (c.toNat + 4)
  else if c = '+' then some 62
  else if c = '/' then some 63
  else none

/-- Standard base64 decoding with `=` padding: how a server reads what `b64encode` writes (the
server is not in this source). -/
def b64decode : List Char → Option (List UInt8)
  | [] => some []
  | c₁ :: c₂ :: c₃ :: c₄ :: rest => do
    let v₁ ← b64Value c₁
    let v₂ ← b64Value c₂
    if c₃ = '=' ∧ c₄ = '=' ∧ rest = [] then
      pure [UInt8.ofNat ((v₁ * 262144 + v₂ * 4096) / 65536)]
    else
      let v₃ ← b64Value c₃
      if c₄ = '=' ∧ rest = [] then
        let n := v₁ * 262144 + v₂ * 4096 + v₃ * 64
        pure [UInt8.ofNat (n / 65536), UInt8.ofNat (n / 256 % 256)]
      else
        let v₄ ← b64Value c₄
        let n := v₁ * 262144 + v₂ * 4096 + v₃ * 64 + v₄
        let tail ← b64decode rest
        pure (UInt8.ofNat (n / 65536) :: UInt8.ofNat (n / 256 % 256) :: UInt8.ofNat (n % 256) ::
          tail)
  | _ => none

theorem b64Value_digit_fin : ∀ k : Fin 64, b64Value (b64encode.digit k) = some k ∧
    b64encode.digit k ≠ '=' ∧ isAsciiSpace (b64encode.digit k) = false := by
  decide

theorem b64Value_digit {k : Nat} (h : k < 64) : b64Value (b64encode.digit k) = some k :=
  (b64Value_digit_fin ⟨k, h⟩).1

theorem digit_ne_pad {k : Nat} (h : k < 64) : b64encode.digit k ≠ '=' :=
  (b64Value_digit_fin ⟨k, h⟩).2.1

theorem digit_not_space (k : Nat) : isAsciiSpace (b64encode.digit k) = false := by
  by_cases h : k < 64
  · exact (b64Value_digit_fin ⟨k, h⟩).2.2
  · rw [b64encode.digit, List.getD_eq_getElem?_getD, List.getElem?_eq_none (by simpa using h)]
    rfl

theorem b64encode_not_space (bs : List UInt8) :
    ∀ c ∈ (b64encode bs).toList, isAsciiSpace c = false := by
  have hpad : isAsciiSpace '=' = false := rfl
  induction bs using b64encode.induct with
  | case1 a b c rest ih =>
    simp only [String.toList] at ih
    simpa [b64encode, String.toList, digit_not_space] using ih
  | case2 => simp [b64encode, String.toList, digit_not_space, hpad]
  | case3 => simp [b64encode, String.toList, digit_not_space, hpad]
  | case4 => simp [b64encode]

theorem bytesStrip_b64encode (bs : List UInt8) : bytesStrip (b64encode bs) = b64encode bs := by
  have h := b64encode_not_space bs
  rw [bytesStrip, List.dropWhile_eq_self_iff.2 fun hl => by rw [h _ (List.get_mem _ _ _)]; decide,
    List.rdropWhile_eq_self_iff.2 fun hl => by rw [h _ (List.getLast_mem hl)]; decide]
  rfl

theorem ofNat_eq_iff {b : UInt8} {n : Nat} : UInt8.ofNat n = b ↔ n % 256 = b.toNat := by
  rw [← show (UInt8.ofNat n).toNat = n % 256 from BitVec.toNat_ofNat n 8]
  exact ⟨congrArg _, UInt8.toNat.inj⟩

theorem regroup (n : Nat) :
    n / 262144 * 262144 + n / 4096 % 64 * 4096 + n / 64 % 64 * 64 + n % 64 = n := by
  omega

theorem regroup₃ {n : Nat} (h₀ : n % 64 = 0) :
    n / 262144 * 262144 + n / 4096 % 64 * 4096 + n / 64 % 64 * 64 = n := by
  omega

theorem regroup₂ {n : Nat} (h₀ : n % 4096 = 0) :
    n / 262144 * 262144 + n / 4096 % 64 * 4096 = n := by
  omega

/-- Every secret `b64encode` writes into an `X-Tahoe-Authorization` header is read back, byte
for byte, by base64 decoding; one case per equation of `b64encode`. -/
theorem b64decode_b64encode (bs : List UInt8) : b64decode (b64encode bs).toList = some bs := by
  induction bs using b64encode.induct with
  | case1 a b c rest ih =>
    have ha : a.toNat < 256 := a.toNat_lt_size
    have hb : b.toNat < 256 := b.toNat_lt_size
    have hc : c.toNat < 256 := c.toNat_lt_size
    simp only [String.toList] at ih
    simp (disch := omega) only [b64encode, String.toList, String.data_append, List.cons_append,
      List.nil_append, List.append_eq, b64decode, b64Value_digit, digit_ne_pad, false_and,
      ↓reduceIte, Option.bind_eq_bind, Option.some_bind, ih, Option.pure_def, Option.some.injEq,
      List.cons.injEq, ofNat_eq_iff, and_true, regroup]
    omega
  | case2 a b =>
    have ha : a.toNat < 256 := a.toNat_lt_size
    have hb : b.toNat < 256 := b.toNat_lt_size
    simp (disch := omega) only [b64encode, String.toList, b64decode, b64Value_digit, digit_ne_pad,
      false_and, and_self, ↓reduceIte, Option.bind_eq_bind, Option.some_bind, Option.pure_def,
      Option.some.injEq, List.cons.injEq, ofNat_eq_iff, and_true, regroup₃]
    omega
  | case3 a =>
    have ha : a.toNat < 256 := a.toNat_lt_size
    simp (disch := omega) only [b64encode, String.toList, b64decode, b64Value_digit, and_self,
      ↓reduceIte, Option.bind_eq_bind, Option.some_bind, Option.pure_def, Option.some.injEq,
      List.cons.injEq, ofNat_eq_iff, and_true, regroup₂]
    omega
  | case4 => rfl

/-- A server reads each secret back from its `X-Tahoe-Authorization` header: the value is the
secret's role, a space, and text that base64 decoding turns back into the secret, byte for
byte. -/
theorem secretHeader_decodes (env : Env) (s : Secret) (value : List UInt8) :
    ∃ enc : String, (secretHeader env s value).2 = env.secretValue s ++ " " ++ enc ∧
      b64decode enc.toList = some value :=
  ⟨b64encode value, by rw [secretHeader, bytesStrip_b64encode], b64decode_b64encode value⟩

/-! The byte ranges of the chunk calls: `werkzeug` writes the half-open interval `[a, b)` as
`a-(b - 1)`, and a server reads it back with HTTP's inclusive end. -/

/-- Reads `a-b`, two decimal numbers, as the half-open interval `[a, b + 1)`: the end of an HTTP
byte range is inclusive. -/
def readSpan (cs : List Char) : Option (Int × Int) :=
  match cs.span (· ≠ '-') with
  | (a, '-' :: b) => do
    let a ← PidText.digitPart a
    let b ← PidText.digitPart b
    pure (a, b + 1)
  | _ => none

/-- How a server reads a `Range` header of one range, `bytes=a-b`. -/
def readRange (v : String) : Option (Int × Int) :=
  if v.toList.take 6 = "bytes=".toList then readSpan (v.toList.drop 6) else none

/-- How a server reads a `Content-Range` header of unknown total length, `bytes a-b/*`. -/
def readContentRange (v : String) : Option (Int × Int) :=
  if v.toList.take 6 = "bytes ".toList then
    match (v.toList.drop 6).span (· ≠ '/') with
    | (span, ['/', '*']) => readSpan span
    | _ => none
  else none

theorem span_append_stop {p : Char → Bool} {l rest : List Char} {c : Char}
    (hl : ∀ d ∈ l, p d = true) (hc : p c = false) : (l ++ c :: rest).span p = (l, c :: rest) := by
  rw [List.span_eq_take_drop, List.takeWhile_append_of_pos hl, List.dropWhile_append_of_pos hl,
    List.takeWhile_cons_of_neg (by simp [hc]), List.dropWhile_cons_of_neg (by simp [hc]),
    List.append_nil]

theorem digit_ne {n : Nat} {c d : Char} (hc : c ∈ Nat.toDigits 10 n) (hd : d.isDigit = false) :
    decide (c ≠ d) = true :=
  decide_eq_true (PidText.ne_of_isDigit (PidText.toDigits_isDigit hc) hd)

theorem readSpan_digits (a b : Nat) :
    readSpan (Nat.toDigits 10 a ++ '-' :: Nat.toDigits 10 b) = some ((a : Int), (b : Int) + 1) := by
  unfold readSpan
  rw [span_append_stop (fun d hd => digit_ne (d := '-') hd rfl) (by decide)]
  simp [PidText.digitPart_toDigits]

theorem toString_int_data (a : Nat) : (toString (a : Int)).data = Nat.toDigits 10 a := rfl

/-- The `Range` header `werkzeug` writes for `[start, stop)` reads back as that interval. -/
theorem readRange_rangeHeader {start stop : Int} (h0 : 0 ≤ start) (h : start < stop) :
    ∃ v, rangeHeader start stop = .ok v ∧ readRange v = some (start, stop) := by
  obtain ⟨a, rfl⟩ := Int.eq_ofNat_of_zero_le h0
  obtain ⟨b, hb⟩ := Int.eq_ofNat_of_zero_le (show 0 ≤ stop - 1 by omega)
  refine ⟨_, if_pos ⟨h0, h⟩, ?_⟩
  rw [hb]
  unfold readRange
  simp only [String.toList, String.data_append, toString_int_data,
    show (toString "bytes=").data = ['b', 'y', 't', 'e', 's', '='] from rfl,
    show (toString "-").data = ['-'] from rfl, show (toString "").data = [] from rfl,
    List.append_nil, List.append_assoc, List.singleton_append]
  rw [if_pos (by rfl)]
  show readSpan (Nat.toDigits 10 a ++ '-' :: Nat.toDigits 10 b) = _
  rw [readSpan_digits]
  congr 2
  omega

/-- The `Content-Range` header `werkzeug` writes for `[start, stop)` reads back as that
interval. -/
theorem readContentRange_contentRangeHeader {start stop : Int} (h0 : 0 ≤ start)
    (h : start < stop) :
    ∃ v, contentRangeHeader start stop = .ok v ∧ readContentRange v = some (start, stop) := by
  obtain ⟨a, rfl⟩ := Int.eq_ofNat_of_zero_le h0
  obtain ⟨b, hb⟩ := Int.eq_ofNat_of_zero_le (show 0 ≤ stop - 1 by omega)
  refine ⟨_, if_pos ⟨h0, h⟩, ?_⟩
  rw [hb]
  unfold readContentRange
  simp only [String.toList, String.data_append, toString_int_data,
    show (toString "bytes ").data = ['b', 'y', 't', 'e', 's', ' '] from rfl,
    show (toString "-").data = ['-'] from rfl, show (toString "/*").data = ['/', '*'] from rfl,
    List.append_assoc, List.singleton_append]
  rw [if_pos (by rfl)]
  show (match (Nat.toDigits 10 a ++ '-' :: (Nat.toDigits 10 b ++ ['/', '*'])).span (· ≠ '/') with
    | (span, ['/', '*']) => readSpan span
    | _ => none) = _
  have hl : ∀ d ∈ Nat.toDigits 10 a ++ '-' :: Nat.toDigits 10 b, decide (d ≠ '/') = true := by
    intro d hd
    rcases List.mem_append.1 hd with hd | hd | ⟨-, hd⟩
    · exact digit_ne hd rfl
    · rfl
    · exact digit_ne hd rfl
  rw [← List.cons_append, ← List.append_assoc, span_append_stop hl (by decide)]
  show readSpan (Nat.toDigits 10 a ++ '-' :: Nat.toDigits 10 b) = _
  rw [readSpan_digits]
  congr 2
  omega

/-- The request is sent exactly when `valid`, and its header `name` then reads back, by `read`,
as `range`; otherwise the range is refused before anything is sent. -/
def SendsRange (read : String → Option (Int × Int)) (name : String) (range : Int × Int)
    (valid : Prop) (request : Except ClientError Request) : Prop :=
  (valid → ∃ r v, request = .ok r ∧ headerValues r name = [v] ∧ read v = some range) ∧
    (¬valid → request = .error .badRange)

/-- `read_share_chunk` and `write_share_chunk` send their request exactly when the interval
starts at 0 or later and is not empty (no chunk of no bytes is uploaded), and its `Range` or
`Content-Range` header then reads back as exactly `[offset, offset + length)` or
`[offset, offset + len(data))`, with no byte more or less; otherwise they raise before sending
anything. -/
theorem chunk_ranges_read_back (env : Env) (c : Client) (storageIndex : List UInt8)
    (shareNumber offset length : Int) (uploadSecret data : List UInt8) :
    SendsRange readRange "range" (offset, offset + length) (0 ≤ offset ∧ 0 < length)
      (c.readShareChunk env storageIndex shareNumber offset length).request ∧
    SendsRange readContentRange "content-range" (offset, offset + data.length)
      (0 ≤ offset ∧ data ≠ [])
      (c.writeShareChunk env storageIndex shareNumber uploadSecret offset data).request := by
  refine ⟨⟨fun ⟨h0, hl⟩ => ?_, fun hv => ?_⟩, ⟨fun ⟨h0, hd⟩ => ?_, fun hv => ?_⟩⟩
  · obtain ⟨v, hv, hr⟩ := readRange_rangeHeader h0 (show offset < offset + length by omega)
    exact ⟨c.request env "GET" (sharePath env storageIndex shareNumber) none none none
      [("range", v)] [], v, by simp [Client.readShareChunk, hv],
      by simp [headerValues, Client.request], hr⟩
  · simp only [Client.readShareChunk, rangeHeader,
      if_neg (show ¬(0 ≤ offset ∧ offset < offset + length) by omega)]
    rfl
  · have := List.length_pos.2 hd
    obtain ⟨v, hv, hr⟩ :=
      readContentRange_contentRangeHeader h0 (show offset < offset + data.length by omega)
    exact ⟨c.request env "PATCH" (sharePath env storageIndex shareNumber) none none
      (some uploadSecret) [("content-range", v)] data, v, by simp [Client.writeShareChunk, hv],
      by simp [headerValues, Client.request], hr⟩
  · rw [Ne, ← List.length_eq_zero] at hv
    simp only [Client.writeShareChunk, contentRangeHeader,
      if_neg (show ¬(0 ≤ offset ∧ offset < offset + data.length) by omega)]
    rfl

/-- The body `create` sends, `dumps({"share-numbers": share_numbers, "allocated-size":
allocated_size})`, is read back by `loads` as that dictionary, for any integers `cbor2` can
write. -/
theorem loads_createMessage {shareNumbers : List Int} {allocatedSize : Int}
    (hs : ∀ n ∈ shareNumbers, Encodable n) (hlen : shareNumbers.length < 2 ^ 64)
    (ha : Encodable allocatedSize) :
    loads (createMessage shareNumbers allocatedSize) = .ok (.dict
      [(.str "share-numbers", .set (shareNumbers.map .int)),
        (.str "allocated-size", .int allocatedSize)]) := by
  have hL : shareNumbers.length + 4 ≤ (createMessage shareNumbers allocatedSize).length := by
    have := length_le_flatten length_encodeInt_pos shareNumbers
    have := length_encodeHead_pos 5 2
    have := length_encodeHead_pos 6 258
    have := length_encodeHead_pos 4 shareNumbers.length
    have := length_encodeInt_pos allocatedSize
    simp only [createMessage, encodeIntSet, List.length_append]
    omega
  obtain ⟨fuel, hf⟩ : ∃ fuel, 2 * (createMessage shareNumbers allocatedSize).length + 1 =
      fuel + 5 := ⟨_, (Nat.sub_add_cancel (by omega)).symm⟩
  rw [loads, hf, createMessage, ← List.append_nil (encodeInt allocatedSize)]
  simp only [List.append_assoc]
  rw [item_map (by decide)]
  simp only [pairs_succ, pairs_zero,
    item_encodeStr (show (utf8Encode "share-numbers".toList).length < 2 ^ 64 by decide),
    item_encodeIntSet hs hlen (show shareNumbers.length + 4 ≤ fuel + 3 by omega),
    item_encodeStr (show (utf8Encode "allocated-size".toList).length < 2 ^ 64 by decide),
    item_encodeInt ha, Except.ok_bind, Except.pure_eq]
  rfl

theorem loads_createMessage_three_shares :
    (∀ n ∈ [(0 : Int), 1, 5], Encodable n) ∧ [(0 : Int), 1, 5].length < 2 ^ 64 ∧
    Encodable 1000 ∧
    loads (createMessage [0, 1, 5] 1000) = .ok (.dict
      [(.str "share-numbers", .set ([(0 : Int), 1, 5].map .int)),
        (.str "allocated-size", .int 1000)]) :=
  have hs : ∀ n ∈ [(0 : Int), 1, 5], Encodable n := fun n hn =>
    Encodable.of_lt (by simp at hn; omega)
  have ha : Encodable 1000 := Encodable.of_lt (by decide)
  ⟨hs, by decide, ha, loads_createMessage hs (by decide) ha⟩

end TahoeLafs.ClientRequests
