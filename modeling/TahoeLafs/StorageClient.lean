import Mathlib.Data.List.DropRight
import TahoeLafs.Cbor
import TahoeLafs.RangeMap

/-! `allmydata.storage.http_client`: the requests the HTTP storage client sends, and what it
makes of any response the server sends back. -/
namespace TahoeLafs.StorageClient
open PyObject

/-- The roles of the secrets a request may carry, `http_common.Secrets`. -/
inductive Secret where
  | leaseRenew
  | leaseCancel
  | upload
  deriving DecidableEq

/-- What the client takes from `http_common` and `common`, which are not in this source:
`swissnum_auth_header`, the `value` of each `Secrets` member, and `si_b2a`. -/
structure Env where
  swissnumAuthHeader : List UInt8 → String
  secretValue : Secret → String
  siB2a : List UInt8 → String

/-- A `DecodedURL`. `click` with an absolute path, the only kind the client uses, keeps the
scheme and the authority and replaces the rest. -/
structure Url where
  scheme : String
  authority : String
  path : String

def Url.click (u : Url) (path : String) : Url := { u with path := path }

/-- A `StorageClient`; its constructor asserts that the URL is an HTTPS one. -/
structure Client where
  baseUrl : Url
  swissnum : List UInt8
  https : baseUrl.scheme = "https"

structure Request where
  method : String
  url : Url
  headers : List (String × String)
  data : List UInt8

structure Response where
  code : Nat
  phrase : String
  headers : List (String × String)
  body : List UInt8

inductive ClientError where
  /-- `ClientException(code, phrase)` from `_decode_cbor`, or `ClientException(code)`. -/
  | clientException (code : Nat) (phrase : Option String)
  | python (e : PyError)
  /-- A `werkzeug` header object refuses the range it is given, before anything is sent. -/
  | badRange

def py {α : Type} (x : Except PyError α) : Except ClientError α := x.mapError .python

@[simp] theorem py_ok {α : Type} (a : α) : py (.ok a) = .ok a := rfl

@[simp] theorem py_error {α : Type} (e : PyError) :
    py (.error e : Except PyError α) = .error (.python e) :=
  rfl

structure Call (α : Type) where
  request : Except ClientError Request
  receive : Response → Except ClientError α

/-- `base64.b64encode`, with `=` padding. -/
def b64encode : List UInt8 → String
  | a :: b :: c :: rest =>
    let n := a.toNat * 65536 + b.toNat * 256 + c.toNat
    String.mk [digit (n / 262144), digit (n / 4096 % 64), digit (n / 64 % 64), digit (n % 64)] ++
      b64encode rest
  | [a, b] =>
    let n := a.toNat * 65536 + b.toNat * 256
    String.mk [digit (n / 262144), digit (n / 4096 % 64), digit (n / 64 % 64), '=']
  | [a] =>
    let n := a.toNat * 65536
    String.mk [digit (n / 262144), digit (n / 4096 % 64), '=', '=']
  | [] => ""
where
  digit (n : Nat) : Char :=
    "ABCDEFGHIJKLMNOPQRSTUVWXYZabcdefghijklmnopqrstuvwxyz0123456789+/".toList.getD n '='

def isAsciiSpace (c : Char) : Bool :=
  c == ' ' || c == '\t' || c == '\n' || c == '\r' || c.toNat == 11 || c.toNat == 12

/-- `bytes.strip()`, on ASCII text. -/
def bytesStrip (s : String) : String :=
  ⟨(s.toList.dropWhile isAsciiSpace).rdropWhile isAsciiSpace⟩

section
variable (env : Env)

/-- `_encode_si`. -/
def encodeSi (si : List UInt8) : String := env.siB2a si

/-- The `X-Tahoe-Authorization` header of a secret, `b"%s %s" % (secret.value.encode("ascii"),
b64encode(value).strip())`. -/
def secretHeader (s : Secret) (value : List UInt8) : String × String :=
  ("X-Tahoe-Authorization", env.secretValue s ++ " " ++ bytesStrip (b64encode value))

@[simp] theorem secretHeader_fst (s : Secret) (value : List UInt8) :
    (secretHeader env s value).1 = "X-Tahoe-Authorization" :=
  rfl

/-- `StorageClient._request`: the headers given, the `Authorization` header, then one
`X-Tahoe-Authorization` header for each secret given, in the order lease renewal, lease
cancellation, upload. -/
def Client.request (c : Client) (method path : String)
    (leaseRenew leaseCancel upload : Option (List UInt8)) (headers : List (String × String))
    (data : List UInt8) : Request where
  method := method
  url := c.baseUrl.click path
  headers := headers ++ [("Authorization", env.swissnumAuthHeader c.swissnum)] ++
    [(Secret.leaseRenew, leaseRenew), (.leaseCancel, leaseCancel), (.upload, upload)].filterMap
      fun sv => sv.2.map (secretHeader env sv.1)
  data := data

end

/-- `_decode_cbor`: the decoded body of a 2xx response, else `ClientException(code, phrase)`. -/
def decodeCbor (resp : Response) : Except ClientError Value :=
  if resp.code > 199 && resp.code < 300 then py (Cbor.loads resp.body)
  else .error (.clientException resp.code (some resp.phrase))

/-- `dumps({"share-numbers": share_numbers, "allocated-size": allocated_size})`, the set in its
iteration order. -/
def createMessage (shareNumbers : List Int) (allocatedSize : Int) : List UInt8 :=
  Cbor.encodeHead 5 2 ++ Cbor.encodeStr "share-numbers" ++ Cbor.encodeIntSet shareNumbers ++
    Cbor.encodeStr "allocated-size" ++ Cbor.encodeInt allocatedSize

section
variable (env : Env)

/-- `StorageClient.get_version`. -/
def Client.getVersion (c : Client) : Call Value where
  request := .ok (c.request env "GET" "/v1/version" none none none [] [])
  receive := decodeCbor

/-- `ImmutableCreateResult`: its fields are whatever the server put under the two keys. -/
structure ImmutableCreateResult where
  alreadyHave : Value
  allocated : Value

/-- `StorageClientImmutables.create`. -/
def Client.create (c : Client) (storageIndex : List UInt8) (shareNumbers : List Int)
    (allocatedSize : Int) (uploadSecret leaseRenewSecret leaseCancelSecret : List UInt8) :
    Call ImmutableCreateResult where
  request := .ok (c.request env "POST" ("/v1/immutable/" ++ encodeSi env storageIndex)
    (some leaseRenewSecret) (some leaseCancelSecret) (some uploadSecret)
    [("content-type", "application/cbor")] (createMessage shareNumbers allocatedSize))
  receive resp := do
    let decoded ← decodeCbor resp
    let alreadyHave ← py (decoded.getItem "already-have")
    let allocated ← py (decoded.getItem "allocated")
    return ⟨alreadyHave, allocated⟩

/-- `UploadProgress`: whether the whole share is uploaded, and the ranges still required. -/
structure UploadProgress where
  finished : Bool
  required : RangeMap Bool

/-- One turn of the loop of `write_share_chunk`:
`remaining.set(True, chunk["begin"], chunk["end"])`. -/
def setChunk (remaining : RangeMap Bool) (chunk : Value) : Except PyError (RangeMap Bool) := do
  let start ← chunk.getItem "begin"
  let stop ← chunk.getItem "end"
  remaining.set true (← start.bound) (← stop.bound)

/-- `ContentRange("bytes", start, stop).to_header()`; `werkzeug` asserts `0 <= start < stop`. -/
def contentRangeHeader (start stop : Int) : Except ClientError String :=
  if 0 ≤ start ∧ start < stop then .ok s!"bytes {start}-{stop - 1}/*" else .error .badRange

/-- `Range("bytes", [(begin, end)]).to_header()`; `werkzeug` raises `ValueError` unless
`0 <= begin < end`. -/
def rangeHeader (start stop : Int) : Except ClientError String :=
  if 0 ≤ start ∧ start < stop then .ok s!"bytes={start}-{stop - 1}" else .error .badRange

def sharePath (storageIndex : List UInt8) (shareNumber : Int) : String :=
  s!"/v1/immutable/{encodeSi env storageIndex}/{shareNumber}"

/-- `StorageClientImmutables.write_share_chunk`. -/
def Client.writeShareChunk (c : Client) (storageIndex : List UInt8) (shareNumber : Int)
    (uploadSecret : List UInt8) (offset : Int) (data : List UInt8) : Call UploadProgress where
  request := do
    let range ← contentRangeHeader offset (offset + data.length)
    return c.request env "PATCH" (sharePath env storageIndex shareNumber) none none
      (some uploadSecret) [("content-range", range)] data
  receive resp := do
    let finished ←
      if resp.code = 200 then pure false
      else if resp.code = 201 then pure true
      else throw (.clientException resp.code none)
    let body ← decodeCbor resp
    let chunks ← py (body.getItem "required" >>= Value.iter)
    let remaining ← py (chunks.foldlM setChunk RangeMap.empty)
    return ⟨finished, remaining⟩

/-- `StorageClientImmutables.read_share_chunk`. -/
def Client.readShareChunk (c : Client) (storageIndex : List UInt8)
    (shareNumber offset length : Int) : Call (List UInt8) where
  request := do
    let range ← rangeHeader offset (offset + length)
    return c.request env "GET" (sharePath env storageIndex shareNumber) none none none
      [("range", range)] []
  receive resp :=
    if resp.code = 206 then .ok resp.body else .error (.clientException resp.code none)

/-- `StorageClientImmutables.list_shares`. -/
def Client.listShares (c : Client) (storageIndex : List UInt8) : Call (List Value) where
  request := .ok (c.request env "GET" s!"/v1/immutable/{encodeSi env storageIndex}/shares"
    none none none [] [])
  receive resp :=
    if resp.code = 200 then do
      let body ← decodeCbor resp
      py body.toSet
    else .error (.clientException resp.code none)

end

end TahoeLafs.StorageClient
