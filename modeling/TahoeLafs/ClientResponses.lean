import Mathlib.Data.List.Forall2
import TahoeLafs.CborFuel
import TahoeLafs.CborRoundTrip
import TahoeLafs.StorageClient

/-! What the storage client makes of a response: the statuses each call accepts, the exceptions
that can escape it, and the ranges `write_share_chunk` reads from the server's answer. -/
namespace TahoeLafs.ClientResponses
open PyObject StorageClient CborRoundTrip

variable {α β : Type}

/-- Every exception `x` raises comes from the code that reads the body. -/
def OnlyPython (x : Except ClientError α) : Prop := ∀ e, x = .error e → ∃ pe, e = .python pe

theorem OnlyPython.py (x : Except PyError α) : OnlyPython (py x) := by
  intro e h
  cases x <;> cases h
  exact ⟨_, rfl⟩

theorem OnlyPython.ok (a : α) : OnlyPython (.ok a : Except ClientError α) := by
  intro e h
  cases h

theorem OnlyPython.bind {x : Except ClientError α} {f : α → Except ClientError β}
    (hx : OnlyPython x) (hf : ∀ a, OnlyPython (f a)) : OnlyPython (x >>= f) := by
  intro e h
  rcases Except.bind_eq_error.mp h with h | ⟨a, -, h⟩
  · exact hx e h
  · exact hf a e h

/-- What a call does with the status of a response: on a status `success` refuses it raises
`ClientException` with that status (and `phrase` of the response); on one it accepts, it
returns what `read` makes of the response, and every exception it raises comes from reading the
body. -/
structure StatusContract (success : Nat → Prop) (phrase : Response → Option String)
    (read receive : Response → Except ClientError α) : Prop where
  refused : ∀ resp, ¬ success resp.code →
    receive resp = .error (.clientException resp.code (phrase resp))
  accepted : ∀ resp, success resp.code → receive resp = read resp
  only_python : ∀ resp, success resp.code → OnlyPython (receive resp)

/-- The statuses `_decode_cbor` accepts. -/
def IsSuccess (code : Nat) : Prop := 199 < code ∧ code < 300

section
variable {resp : Response}

theorem decodeCbor_of_success (h : IsSuccess resp.code) :
    decodeCbor resp = py (Cbor.loads resp.body) := by
  simp [decodeCbor, h.1, h.2]

theorem decodeCbor_of_not_success (h : ¬ IsSuccess resp.code) :
    decodeCbor resp = .error (.clientException resp.code (some resp.phrase)) := by
  rw [decodeCbor, if_neg (by simpa [IsSuccess] using h)]

end

section
variable (env : Env) (c : Client) (storageIndex : List UInt8)

theorem getVersion_status :
    StatusContract IsSuccess (fun r => some r.phrase) (fun r => py (Cbor.loads r.body))
      (c.getVersion env).receive :=
  ⟨fun _ h => decodeCbor_of_not_success h, fun _ h => decodeCbor_of_success h,
    fun _ h => by
      show OnlyPython (decodeCbor _)
      rw [decodeCbor_of_success h]
      exact .py _⟩

theorem create_status (shareNumbers : List Int) (allocatedSize : Int)
    (uploadSecret leaseRenewSecret leaseCancelSecret : List UInt8) :
    StatusContract IsSuccess (fun r => some r.phrase)
      (fun r => do
        let decoded ← py (Cbor.loads r.body)
        let alreadyHave ← py (decoded.getItem "already-have")
        let allocated ← py (decoded.getItem "allocated")
        pure ⟨alreadyHave, allocated⟩)
      (c.create env storageIndex shareNumbers allocatedSize uploadSecret leaseRenewSecret
        leaseCancelSecret).receive := by
  refine ⟨fun _ h => by simp [Client.create, decodeCbor_of_not_success h],
    fun _ h => by simp only [Client.create, decodeCbor_of_success h], fun _ h => ?_⟩
  simp only [Client.create, decodeCbor_of_success h]
  exact .bind (.py _) fun _ => .bind (.py _) fun _ => .bind (.py _) fun _ => .ok _

theorem writeShareChunk_status (shareNumber : Int) (uploadSecret : List UInt8) (offset : Int)
    (data : List UInt8) :
    StatusContract (fun code => code = 200 ∨ code = 201) (fun _ => none)
      (fun r => do
        let body ← py (Cbor.loads r.body)
        let chunks ← py (body.getItem "required" >>= Value.iter)
        let remaining ← py (chunks.foldlM setChunk RangeMap.empty)
        pure ⟨decide (r.code = 201), remaining⟩)
      (c.writeShareChunk env storageIndex shareNumber uploadSecret offset data).receive := by
  refine ⟨fun resp h => ?_, fun resp h => ?_, fun resp h => ?_⟩
  · simp only [not_or] at h
    simp [Client.writeShareChunk, h.1, h.2]
  all_goals have hs : IsSuccess resp.code := by rcases h with h | h <;> simp [IsSuccess, h]
  · rcases h with h | h <;> simp [Client.writeShareChunk, decodeCbor_of_success hs, h]
  · rcases h with h | h <;>
      simp only [Client.writeShareChunk, decodeCbor_of_success hs, h, ↓reduceIte,
        Nat.reduceEqDiff] <;>
      exact .bind (.ok _) fun _ => .bind (.py _) fun _ => .bind (.py _) fun _ => .bind (.py _)
        fun _ => .ok _

theorem readShareChunk_status (shareNumber offset length : Int) :
    StatusContract (· = 206) (fun _ => none) (fun r => .ok r.body)
      (c.readShareChunk env storageIndex shareNumber offset length).receive :=
  ⟨fun resp h => by simp [Client.readShareChunk, h],
    fun resp h => by simp only [Client.readShareChunk, if_pos h],
    fun resp h => by simp only [Client.readShareChunk, if_pos h]; exact .ok _⟩

theorem listShares_status :
    StatusContract (· = 200) (fun _ => none)
      (fun r => do
        let body ← py (Cbor.loads r.body)
        py body.toSet)
      (c.listShares env storageIndex).receive := by
  refine ⟨fun resp h => by simp [Client.listShares, h], fun resp h => ?_, fun resp h => ?_⟩ <;>
    simp only [Client.listShares, if_pos h,
      decodeCbor_of_success (show IsSuccess resp.code by simp [IsSuccess, h])]
  exact .bind (.py _) fun _ => .py _

/-- Each call of the client raises `ClientException` with the status on every status outside
its own set (2xx for `get_version` and `create`, 200 or 201 for `write_share_chunk`, 206 for
`read_share_chunk`, 200 for `list_shares`), so it returns only on a status of that set. On a
status of the set it returns whatever the body decodes to, read as the code reads it and never
checked: the decoded object, the objects under `already-have` and `allocated`, the ranges under
`required` with `finished` set by the status alone, the raw bytes, or `set` of the decoded
object; and it raises only what reading the body raises. -/
theorem calls_follow_status_contract (shareNumbers : List Int) (allocatedSize : Int)
    (uploadSecret leaseRenewSecret leaseCancelSecret : List UInt8) (shareNumber offset : Int)
    (data : List UInt8) (readOffset length : Int) :
    StatusContract IsSuccess (fun r => some r.phrase) (fun r => py (Cbor.loads r.body))
      (c.getVersion env).receive ∧
    StatusContract IsSuccess (fun r => some r.phrase)
      (fun r => do
        let decoded ← py (Cbor.loads r.body)
        let alreadyHave ← py (decoded.getItem "already-have")
        let allocated ← py (decoded.getItem "allocated")
        pure ⟨alreadyHave, allocated⟩)
      (c.create env storageIndex shareNumbers allocatedSize uploadSecret leaseRenewSecret
        leaseCancelSecret).receive ∧
    StatusContract (fun code => code = 200 ∨ code = 201) (fun _ => none)
      (fun r => do
        let body ← py (Cbor.loads r.body)
        let chunks ← py (body.getItem "required" >>= Value.iter)
        let remaining ← py (chunks.foldlM setChunk RangeMap.empty)
        pure ⟨decide (r.code = 201), remaining⟩)
      (c.writeShareChunk env storageIndex shareNumber uploadSecret offset data).receive ∧
    StatusContract (· = 206) (fun _ => none) (fun r => .ok r.body)
      (c.readShareChunk env storageIndex shareNumber readOffset length).receive ∧
    StatusContract (· = 200) (fun _ => none)
      (fun r => do
        let body ← py (Cbor.loads r.body)
        py body.toSet)
      (c.listShares env storageIndex).receive :=
  ⟨getVersion_status env c, create_status env c storageIndex .., writeShareChunk_status env c
    storageIndex .., readShareChunk_status env c storageIndex .., listShares_status env c
    storageIndex⟩

end

def someEnv : Env := ⟨fun _ => "", fun _ => "", fun _ => ""⟩

def someClient : Client := ⟨⟨"https", "storage:8443", "/"⟩, [], rfl⟩

/-- `{"begin": b, "end": e}` as `cbor2.dumps` writes it. -/
def intervalBody (range : Int × Int) : List UInt8 :=
  Cbor.encodeHead 5 2 ++ Cbor.encodeStr "begin" ++ Cbor.encodeInt range.1 ++ Cbor.encodeStr "end" ++
    Cbor.encodeInt range.2

/-- The body `{"required": [{"begin": b, "end": e}, ...]}` of a server's answer to an upload,
as `cbor2.dumps` writes it. -/
def requiredBody (ranges : List (Int × Int)) : List UInt8 :=
  Cbor.encodeHead 5 1 ++ Cbor.encodeStr "required" ++ Cbor.encodeHead 4 ranges.length ++
    (ranges.map intervalBody).flatten

set_option maxRecDepth 2000 in
/-- Answers the client lets through on an accepted status: `get_version` returns the integer
5 of a `200` response, a `200` with an empty body raises the decoder's error, and a `201` to
`write_share_chunk` reporting the range `[5, 5)` raises the `ValueError` of `RangeMap.set`. -/
theorem calls_pass_body_through :
    (someClient.getVersion someEnv).receive ⟨200, "OK", [], [0x05]⟩ = .ok (.int 5) ∧
    (someClient.getVersion someEnv).receive ⟨200, "OK", [], []⟩ = .error (.python .decodeError) ∧
    (someClient.writeShareChunk someEnv [] 0 [] 0 []).receive
      ⟨201, "Created", [], requiredBody [(5, 5)]⟩ = .error (.python .valueError) :=
  ⟨rfl, rfl, rfl⟩

section
variable (env : Env) (c : Client) (storageIndex : List UInt8) (shareNumber offset length : Int)

/-- For a range the `Range` header can carry, `read_share_chunk` asks for exactly the bytes
`[offset, offset + length)`; it then returns the body of a `206` response, whatever its headers
say and however long it is, and raises `ClientException` with any other status. -/
theorem readShareChunk_range (h0 : 0 ≤ offset) (hlen : 0 < length) :
    (c.readShareChunk env storageIndex shareNumber offset length).request =
      .ok (c.request env "GET" (sharePath env storageIndex shareNumber) none none none
        [("range", s!"bytes={offset}-{offset + length - 1}")] []) ∧
    (∀ resp b, (c.readShareChunk env storageIndex shareNumber offset length).receive resp = .ok b ↔
      resp.code = 206 ∧ b = resp.body) ∧
    ∀ resp, resp.code ≠ 206 →
      (c.readShareChunk env storageIndex shareNumber offset length).receive resp =
        .error (.clientException resp.code none) := by
  refine ⟨?_, fun resp b => ?_, fun resp h => by simp [Client.readShareChunk, h]⟩
  · simp [Client.readShareChunk, rangeHeader, h0, show offset < offset + length by omega]
  · by_cases h : resp.code = 206
    · simp [Client.readShareChunk, h, eq_comm]
    · simp [Client.readShareChunk, h]

end

theorem readShareChunk_range_ten : 0 ≤ (10 : Int) ∧ 0 < (10 : Int) ∧
    (someClient.readShareChunk someEnv [] 0 10 10).request =
      .ok (someClient.request someEnv "GET" (sharePath someEnv [] 0) none none none
        [("range", "bytes=10-19")] []) ∧
    (∀ resp b, (someClient.readShareChunk someEnv [] 0 10 10).receive resp = .ok b ↔
      resp.code = 206 ∧ b = resp.body) ∧
    ∀ resp, resp.code ≠ 206 → (someClient.readShareChunk someEnv [] 0 10 10).receive resp =
      .error (.clientException resp.code none) :=
  ⟨by decide, by decide, readShareChunk_range someEnv someClient [] 0 10 10 (by decide) (by decide)⟩

/-- A `206` answer to a request for the bytes `[10, 20)` with no `Content-Range` header and a
body of three bytes: `read_share_chunk` returns those three bytes. -/
theorem readShareChunk_returns_unchecked_body :
    (someClient.readShareChunk someEnv [] 0 10 10).receive ⟨206, "Partial Content", [], [1, 2, 3]⟩ =
      .ok [1, 2, 3] :=
  rfl

/-- `chunk` is a map whose `begin` and `end` are the integers of `range`, `begin < end`. -/
def IsInterval (chunk : Value) (range : Int × Int) : Prop :=
  chunk.getItem "begin" = .ok (.int range.1) ∧ chunk.getItem "end" = .ok (.int range.2) ∧
    range.1 < range.2

/-- The body of `resp` is a map whose `required` is a list of these intervals. -/
def ReportsRequired (resp : Response) (ranges : List (Int × Int)) : Prop :=
  ∃ body chunks, Cbor.loads resp.body = .ok body ∧ body.getItem "required" = .ok (.list chunks) ∧
    List.Forall₂ IsInterval chunks ranges

theorem setChunk_interval {remaining : RangeMap Bool} {chunk : Value} {range : Int × Int}
    (h : IsInterval chunk range) :
    setChunk remaining chunk = .ok ⟨fun p => if range.1 ≤ p ∧ p < range.2 then some true
      else remaining.get p⟩ := by
  obtain ⟨hb, he, hlt⟩ := h
  simp [setChunk, hb, he, RangeMap.set_some hlt]

/-- The loop of `write_share_chunk` over intervals marks every offset one of them holds, and
leaves every other offset as it was. -/
theorem foldlM_setChunk {chunks : List Value} {ranges : List (Int × Int)}
    (h : List.Forall₂ IsInterval chunks ranges) (remaining : RangeMap Bool) :
    chunks.foldlM setChunk remaining = .ok ⟨fun p =>
      if ∃ r ∈ ranges, r.1 ≤ p ∧ p < r.2 then some true else remaining.get p⟩ := by
  induction h generalizing remaining with
  | nil => simp
  | @cons chunk range _ _ hc _ ih =>
    rw [List.foldlM_cons, setChunk_interval hc, Except.ok_bind, ih]
    congr
    funext p
    by_cases h1 : range.1 ≤ p ∧ p < range.2 <;>
      simp only [List.mem_cons, or_and_right, exists_or, exists_eq_left, h1, and_self, true_or,
        false_or, ↓reduceIte, ite_self]

section
variable (env : Env) (c : Client) (storageIndex : List UInt8) (shareNumber : Int)
  (uploadSecret : List UInt8) (offset : Int) (data : List UInt8)

theorem writeShareChunk_of_required {resp : Response} {ranges : List (Int × Int)}
    (hcode : resp.code = 200 ∨ resp.code = 201) (hrep : ReportsRequired resp ranges) :
    (c.writeShareChunk env storageIndex shareNumber uploadSecret offset data).receive resp =
      .ok ⟨decide (resp.code = 201),
        ⟨fun p => if ∃ r ∈ ranges, r.1 ≤ p ∧ p < r.2 then some true else none⟩⟩ := by
  obtain ⟨body, chunks, hbody, hreq, hint⟩ := hrep
  have hs : IsSuccess resp.code := by rcases hcode with h | h <;> simp [IsSuccess, h]
  rcases hcode with h | h <;>
    simp [Client.writeShareChunk, decodeCbor_of_success hs, h, hbody, hreq, Value.iter,
      foldlM_setChunk hint, RangeMap.empty]

/-- On a `200` or `201` answer whose `required` is a list of intervals, `write_share_chunk` is
finished exactly on `201`, and its `required` holds `True` on the offsets some interval holds
and nothing elsewhere; so two such answers with the same status and the same intervals, in any
order and any number of times, give the same result. -/
theorem writeShareChunk_required {resp : Response} {ranges : List (Int × Int)}
    (hcode : resp.code = 200 ∨ resp.code = 201) (hrep : ReportsRequired resp ranges) :
    (c.writeShareChunk env storageIndex shareNumber uploadSecret offset data).receive resp =
      .ok ⟨decide (resp.code = 201),
        ⟨fun p => if ∃ r ∈ ranges, r.1 ≤ p ∧ p < r.2 then some true else none⟩⟩ ∧
    ∀ resp' ranges', resp'.code = resp.code → ReportsRequired resp' ranges' →
      (∀ r, r ∈ ranges' ↔ r ∈ ranges) →
      (c.writeShareChunk env storageIndex shareNumber uploadSecret offset data).receive resp' =
        (c.writeShareChunk env storageIndex shareNumber uploadSecret offset data).receive resp := by
  refine ⟨writeShareChunk_of_required env c storageIndex shareNumber uploadSecret offset data
    hcode hrep, fun resp' ranges' hcode' hrep' hmem => ?_⟩
  rw [writeShareChunk_of_required env c storageIndex shareNumber uploadSecret offset data
    (hcode' ▸ hcode) hrep', writeShareChunk_of_required env c storageIndex shareNumber
    uploadSecret offset data hcode hrep, hcode']
  simp only [hmem]

end

def overlappingAnswer : Response := ⟨200, "OK", [], requiredBody [(0, 10), (5, 20)]⟩

set_option maxRecDepth 2000 in
theorem writeShareChunk_required_overlapping :
    (overlappingAnswer.code = 200 ∨ overlappingAnswer.code = 201) ∧
    ReportsRequired overlappingAnswer [(0, 10), (5, 20)] ∧
    ((someClient.writeShareChunk someEnv [] 0 [] 0 []).receive overlappingAnswer =
      .ok ⟨decide (overlappingAnswer.code = 201),
        ⟨fun p => if ∃ r ∈ [((0 : Int), (10 : Int)), (5, 20)], r.1 ≤ p ∧ p < r.2 then some true
          else none⟩⟩ ∧
    ∀ resp' ranges', resp'.code = overlappingAnswer.code → ReportsRequired resp' ranges' →
      (∀ r, r ∈ ranges' ↔ r ∈ [((0 : Int), (10 : Int)), (5, 20)]) →
      (someClient.writeShareChunk someEnv [] 0 [] 0 []).receive resp' =
        (someClient.writeShareChunk someEnv [] 0 [] 0 []).receive overlappingAnswer) :=
  have hcode : overlappingAnswer.code = 200 ∨ overlappingAnswer.code = 201 := .inl rfl
  have hrep : ReportsRequired overlappingAnswer [(0, 10), (5, 20)] :=
    ⟨_, _, rfl, rfl, .cons ⟨rfl, rfl, by decide⟩ (.cons ⟨rfl, rfl, by decide⟩ .nil)⟩
  ⟨hcode, hrep, writeShareChunk_required someEnv someClient [] 0 [] 0 [] hcode hrep⟩

/-! ### Answers in the encoding the server uses -/

def intervalValue (range : Int × Int) : Value :=
  .dict [(.str "begin", .int range.1), (.str "end", .int range.2)]

theorem isInterval_intervalValue {range : Int × Int} (h : range.1 < range.2) :
    IsInterval (intervalValue range) range :=
  ⟨rfl, rfl, h⟩

section
variable {fuel : Nat} {rest : List UInt8}

theorem item_intervalBody {range : Int × Int} (h1 : Encodable range.1) (h2 : Encodable range.2) :
    Cbor.item (fuel + 5) false (intervalBody range ++ rest) = .ok (intervalValue range, rest) := by
  simp only [intervalBody, List.append_assoc]
  rw [item_map (by decide)]
  simp only [Cbor.pairs_succ, Cbor.pairs_zero,
    item_encodeStr (show (Cbor.utf8Encode "begin".toList).length < 2 ^ 64 by decide),
    item_encodeStr (show (Cbor.utf8Encode "end".toList).length < 2 ^ 64 by decide),
    item_encodeInt h1, item_encodeInt h2, Except.ok_bind, Except.pure_eq]
  rfl

theorem items_intervalBody {ranges : List (Int × Int)}
    (h : ∀ r ∈ ranges, Encodable r.1 ∧ Encodable r.2) (hf : ranges.length + 5 ≤ fuel) :
    Cbor.items fuel false ranges.length ((ranges.map intervalBody).flatten ++ rest) =
      .ok (ranges.map intervalValue, rest) := by
  induction ranges generalizing fuel with
  | nil => cases fuel <;> rfl
  | cons r ranges ih =>
    obtain ⟨fuel, rfl⟩ : ∃ f, fuel = f + 6 := ⟨fuel - 6, by simp at hf; omega⟩
    have ⟨h1, h2⟩ := h r (.head _)
    simp only [List.map_cons, List.flatten_cons, List.length_cons, List.append_assoc]
    simp only [Cbor.items_succ, item_intervalBody h1 h2, ih (fun r hr => h r (.tail _ hr))
      (show ranges.length + 5 ≤ fuel + 5 by simp at hf; omega), Except.ok_bind, Except.pure_eq]

end

theorem length_intervalBody_pos (range : Int × Int) : 0 < (intervalBody range).length := by
  have := length_encodeHead_pos 5 2
  simp only [intervalBody, List.length_append]
  omega

theorem loads_requiredBody {ranges : List (Int × Int)}
    (h : ∀ r ∈ ranges, Encodable r.1 ∧ Encodable r.2) (hlen : ranges.length < 2 ^ 64) :
    Cbor.loads (requiredBody ranges) =
      .ok (.dict [(.str "required", .list (ranges.map intervalValue))]) := by
  have hL : ranges.length + 9 ≤ (requiredBody ranges).length := by
    have := length_le_flatten length_intervalBody_pos ranges
    have : (Cbor.encodeStr "required").length = 9 := by decide
    simp only [requiredBody, List.length_append]
    omega
  obtain ⟨fuel, hf⟩ : ∃ fuel, 2 * (requiredBody ranges).length + 1 = fuel + 3 :=
    ⟨_, (Nat.sub_add_cancel (by omega)).symm⟩
  have hfuel : ranges.length + 5 ≤ fuel := by omega
  rw [Cbor.loads, hf, requiredBody, ← List.append_nil (List.flatten _)]
  simp only [List.append_assoc]
  rw [item_map (by decide)]
  simp only [Cbor.pairs_succ, Cbor.pairs_zero,
    item_encodeStr (show (Cbor.utf8Encode "required".toList).length < 2 ^ 64 by decide),
    item_array hlen, items_intervalBody h hfuel, Except.ok_bind, Except.pure_eq]
  rfl

/-- The body of a server's answer to `create`, `{"already-have": ..., "allocated": ...}` of two
sets of share numbers, as `cbor2.dumps` writes it. -/
def createAnswerBody (alreadyHave allocated : List Int) : List UInt8 :=
  Cbor.encodeHead 5 2 ++ Cbor.encodeStr "already-have" ++ Cbor.encodeIntSet alreadyHave ++
    Cbor.encodeStr "allocated" ++ Cbor.encodeIntSet allocated

theorem loads_createAnswerBody {xs ys : List Int} (hx : ∀ x ∈ xs, Encodable x)
    (hy : ∀ y ∈ ys, Encodable y) (hxl : xs.length < 2 ^ 64) (hyl : ys.length < 2 ^ 64) :
    Cbor.loads (createAnswerBody xs ys) = .ok (.dict
      [(.str "already-have", .set (xs.map .int)), (.str "allocated", .set (ys.map .int))]) := by
  have hL : xs.length + ys.length + 4 ≤ (createAnswerBody xs ys).length := by
    have := length_le_flatten length_encodeInt_pos xs
    have := length_le_flatten length_encodeInt_pos ys
    have : (Cbor.encodeStr "already-have").length = 13 := by decide
    have : (Cbor.encodeStr "allocated").length = 10 := by decide
    simp only [createAnswerBody, Cbor.encodeIntSet, List.length_append]
    omega
  obtain ⟨fuel, hf⟩ : ∃ fuel, 2 * (createAnswerBody xs ys).length + 1 = fuel + 5 :=
    ⟨_, (Nat.sub_add_cancel (by omega)).symm⟩
  rw [Cbor.loads, hf, createAnswerBody, ← List.append_nil (Cbor.encodeIntSet ys)]
  simp only [List.append_assoc]
  rw [item_map (by decide)]
  simp only [Cbor.pairs_succ, Cbor.pairs_zero,
    item_encodeStr (show (Cbor.utf8Encode "already-have".toList).length < 2 ^ 64 by decide),
    item_encodeIntSet hx hxl (show xs.length + 4 ≤ fuel + 3 by omega),
    item_encodeStr (show (Cbor.utf8Encode "allocated".toList).length < 2 ^ 64 by decide),
    item_encodeIntSet hy hyl (show ys.length + 4 ≤ fuel + 2 by omega), Except.ok_bind,
    Except.pure_eq]
  rfl

theorem reportsRequired_requiredBody {ranges : List (Int × Int)}
    (h : ∀ r ∈ ranges, r.1 < r.2 ∧ Encodable r.1 ∧ Encodable r.2) (hlen : ranges.length < 2 ^ 64)
    (code : Nat) (phrase : String) (headers : List (String × String)) :
    ReportsRequired ⟨code, phrase, headers, requiredBody ranges⟩ ranges := by
  refine ⟨_, _, loads_requiredBody (fun r hr => (h r hr).2) hlen, rfl, ?_⟩
  rw [List.forall₂_map_left_iff, List.forall₂_same]
  exact fun r hr => isInterval_intervalValue (h r hr).1

section
variable (env : Env) (c : Client) (storageIndex : List UInt8)

/-- A `200` or `201` answer whose body is `dumps({"required": [{"begin": b, "end": e}, ...]})`
for intervals `b < e`: `write_share_chunk` is finished exactly on `201` and requires exactly the
offsets those intervals hold. -/
theorem writeShareChunk_reads_server_ranges (shareNumber : Int) (uploadSecret : List UInt8)
    (offset : Int) (data : List UInt8) {ranges : List (Int × Int)} {code : Nat} (phrase : String)
    (headers : List (String × String)) (hcode : code = 200 ∨ code = 201)
    (h : ∀ r ∈ ranges, r.1 < r.2 ∧ Encodable r.1 ∧ Encodable r.2)
    (hlen : ranges.length < 2 ^ 64) :
    (c.writeShareChunk env storageIndex shareNumber uploadSecret offset data).receive
      ⟨code, phrase, headers, requiredBody ranges⟩ =
      .ok ⟨decide (code = 201),
        ⟨fun p => if ∃ r ∈ ranges, r.1 ≤ p ∧ p < r.2 then some true else none⟩⟩ :=
  writeShareChunk_of_required env c storageIndex shareNumber uploadSecret offset data hcode
    (reportsRequired_requiredBody h hlen code phrase headers)

/-- A `200` answer whose body is `dumps` of a set of integers: `list_shares` returns them. -/
theorem listShares_reads_server_set {xs : List Int} (phrase : String)
    (headers : List (String × String)) (hx : ∀ x ∈ xs, Encodable x) (hlen : xs.length < 2 ^ 64) :
    (c.listShares env storageIndex).receive ⟨200, phrase, headers, Cbor.encodeIntSet xs⟩ =
      .ok (xs.map .int) := by
  have hs : IsSuccess (Response.code ⟨200, phrase, headers, Cbor.encodeIntSet xs⟩) :=
    show 199 < 200 ∧ 200 < 300 by decide
  simp [Client.listShares, decodeCbor_of_success hs, loads_encodeIntSet hx hlen, Value.toSet,
    Value.iter, Value.hashable]

/-- A successful answer to `create` whose body is `dumps({"already-have": ..., "allocated":
...})` of two sets of share numbers: `create` returns the two sets, as the `set`s `loads` makes
of them. -/
theorem create_reads_server_sets (shareNumbers : List Int) (allocatedSize : Int)
    (uploadSecret leaseRenewSecret leaseCancelSecret : List UInt8) {xs ys : List Int} {code : Nat}
    (phrase : String) (headers : List (String × String)) (hcode : IsSuccess code)
    (hx : ∀ x ∈ xs, Encodable x) (hy : ∀ y ∈ ys, Encodable y) (hxl : xs.length < 2 ^ 64)
    (hyl : ys.length < 2 ^ 64) :
    (c.create env storageIndex shareNumbers allocatedSize uploadSecret leaseRenewSecret
        leaseCancelSecret).receive ⟨code, phrase, headers, createAnswerBody xs ys⟩ =
      .ok ⟨.set (xs.map .int), .set (ys.map .int)⟩ := by
  have hs : IsSuccess (Response.code ⟨code, phrase, headers, createAnswerBody xs ys⟩) := hcode
  simp [Client.create, decodeCbor_of_success hs, loads_createAnswerBody hx hy hxl hyl,
    Value.getItem, Value.isStr]

end

theorem writeShareChunk_reads_server_ranges_overlapping :
    ((200 : Nat) = 200 ∨ (200 : Nat) = 201) ∧
    (∀ r ∈ [((0 : Int), (10 : Int)), (5, 20)], r.1 < r.2 ∧ Encodable r.1 ∧ Encodable r.2) ∧
    [((0 : Int), (10 : Int)), (5, 20)].length < 2 ^ 64 ∧
    (someClient.writeShareChunk someEnv [] 0 [] 0 []).receive
      ⟨200, "OK", [], requiredBody [(0, 10), (5, 20)]⟩ =
      .ok ⟨decide ((200 : Nat) = 201),
        ⟨fun p => if ∃ r ∈ [((0 : Int), (10 : Int)), (5, 20)], r.1 ≤ p ∧ p < r.2 then some true
          else none⟩⟩ :=
  have h : ∀ r ∈ [((0 : Int), (10 : Int)), (5, 20)], r.1 < r.2 ∧ Encodable r.1 ∧ Encodable r.2 :=
    fun r hr => by
      simp only [List.mem_cons, List.mem_singleton, List.not_mem_nil, or_false] at hr
      rcases hr with rfl | rfl <;>
        exact ⟨by decide, Encodable.of_lt (by decide), Encodable.of_lt (by decide)⟩
  ⟨.inl rfl, h, by decide, writeShareChunk_reads_server_ranges someEnv someClient [] 0 [] 0 []
    "OK" [] (.inl rfl) h (by decide)⟩

theorem listShares_reads_server_set_three :
    (∀ x ∈ [(0 : Int), 1, 5], Encodable x) ∧ [(0 : Int), 1, 5].length < 2 ^ 64 ∧
    (someClient.listShares someEnv []).receive ⟨200, "OK", [], Cbor.encodeIntSet [0, 1, 5]⟩ =
      .ok ([(0 : Int), 1, 5].map .int) :=
  have hx : ∀ x ∈ [(0 : Int), 1, 5], Encodable x := fun x hx =>
    Encodable.of_lt (by simp at hx; omega)
  ⟨hx, by decide, listShares_reads_server_set someEnv someClient [] "OK" [] hx (by decide)⟩

theorem create_reads_server_sets_created :
    IsSuccess 201 ∧ (∀ x ∈ [(0 : Int), 1], Encodable x) ∧ (∀ y ∈ [(5 : Int)], Encodable y) ∧
    [(0 : Int), 1].length < 2 ^ 64 ∧ [(5 : Int)].length < 2 ^ 64 ∧
    (someClient.create someEnv [] [0, 1, 5] 1000 [] [] []).receive
      ⟨201, "Created", [], createAnswerBody [0, 1] [5]⟩ =
      .ok ⟨.set ([(0 : Int), 1].map .int), .set ([(5 : Int)].map .int)⟩ :=
  have hc : IsSuccess 201 := show 199 < 201 ∧ 201 < 300 by decide
  have hx : ∀ x ∈ [(0 : Int), 1], Encodable x := fun x hx =>
    Encodable.of_lt (by simp at hx; omega)
  have hy : ∀ y ∈ [(5 : Int)], Encodable y := fun y hy =>
    Encodable.of_lt (by simp at hy; omega)
  ⟨hc, hx, hy, by decide, by decide, create_reads_server_sets someEnv someClient [] [0, 1, 5] 1000
    [] [] [] "Created" [] hc hx hy (by decide) (by decide)⟩

/-- The calls that read a CBOR answer take its first item and nothing after it: a response whose
body the client decodes, with any bytes put after the body, gives each of them the result or the
exception it gives without those bytes, whatever the status. -/
theorem cbor_answers_ignore_trailing_bytes (env : Env) (c : Client) (storageIndex : List UInt8)
    (shareNumbers : List Int) (allocatedSize : Int)
    (uploadSecret leaseRenewSecret leaseCancelSecret : List UInt8) (shareNumber offset : Int)
    (data : List UInt8) (resp : Response) {v : Value} (h : Cbor.loads resp.body = .ok v)
    (extra : List UInt8) :
    (c.getVersion env).receive { resp with body := resp.body ++ extra } =
      (c.getVersion env).receive resp ∧
    (c.create env storageIndex shareNumbers allocatedSize uploadSecret leaseRenewSecret
      leaseCancelSecret).receive { resp with body := resp.body ++ extra } =
      (c.create env storageIndex shareNumbers allocatedSize uploadSecret leaseRenewSecret
        leaseCancelSecret).receive resp ∧
    (c.writeShareChunk env storageIndex shareNumber uploadSecret offset data).receive
      { resp with body := resp.body ++ extra } =
      (c.writeShareChunk env storageIndex shareNumber uploadSecret offset data).receive resp ∧
    (c.listShares env storageIndex).receive { resp with body := resp.body ++ extra } =
      (c.listShares env storageIndex).receive resp := by
  have hd : decodeCbor { resp with body := resp.body ++ extra } = decodeCbor resp := by
    simp only [decodeCbor, CborFuel.loads_append h, h]
  exact ⟨hd, by simp only [Client.create, hd], by simp only [Client.writeShareChunk, hd],
    by simp only [Client.listShares, hd]⟩

theorem cbor_answers_ignore_trailing_bytes_empty_list :
    Cbor.loads [0x80] = .ok (.list []) ∧
    (someClient.getVersion someEnv).receive ⟨200, "OK", [], [0x80] ++ [0xFF]⟩ =
      (someClient.getVersion someEnv).receive ⟨200, "OK", [], [0x80]⟩ ∧
    (someClient.create someEnv [] [] 0 [] [] []).receive ⟨200, "OK", [], [0x80] ++ [0xFF]⟩ =
      (someClient.create someEnv [] [] 0 [] [] []).receive ⟨200, "OK", [], [0x80]⟩ ∧
    (someClient.writeShareChunk someEnv [] 0 [] 0 []).receive ⟨200, "OK", [], [0x80] ++ [0xFF]⟩ =
      (someClient.writeShareChunk someEnv [] 0 [] 0 []).receive ⟨200, "OK", [], [0x80]⟩ ∧
    (someClient.listShares someEnv []).receive ⟨200, "OK", [], [0x80] ++ [0xFF]⟩ =
      (someClient.listShares someEnv []).receive ⟨200, "OK", [], [0x80]⟩ :=
  ⟨rfl, cbor_answers_ignore_trailing_bytes someEnv someClient [] [] 0 [] [] [] 0 0 []
    ⟨200, "OK", [], [0x80]⟩ rfl [0xFF]⟩

end TahoeLafs.ClientResponses
