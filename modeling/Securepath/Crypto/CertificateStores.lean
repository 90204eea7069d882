import Securepath.Crypto.Objects
import Securepath.Library.Machine
import Mathlib.Logic.Function.Basic

/-!
# The certificate stores

`certificate_database` and `certificate_cache` (`crypto/certificate_database.cpp`,
`crypto/certificate_cache.cpp`). `insert` of the cache writes its map and then
each backend in turn, and what a backend throws leaves the map written.
-/

namespace Securepath.Crypto

open Serialisation StateExcept

/-! ## Loading -/

/-- A string of a loaded object; the decoder has read no longer one. -/
def asText (o : Octets) : Except Serialisation.Error Text :=
  if h : o.length ≤ maxStructureSize then .ok ⟨o, h⟩ else .error .structureTooBig

def Signature.ofVal (v : schema.Val) : Except Serialisation.Error Signature := do
  let issuer ← asText v.2.1.1
  let data ← asText v.2.2.1
  return ⟨v.1, issuer, data⟩

def CertificateRevocation.ofVal (v : schema.Val) :
    Except Serialisation.Error CertificateRevocation := do
  let cid ← asText v.2.1.1
  let sig ← Signature.ofVal v.2.2.1
  return ⟨v.1, cid, sig, v.2.2.2.1⟩

namespace Certificate

def ofVal (v : schema.Val) : Except Serialisation.Error Certificate := do
  let data ← asText v.2.2.1
  let sig ← Signature.ofVal v.2.2.2.1
  let revocation ← match v.2.2.2.2.1 with
    | none => pure none
    | some r => do
        let r ← CertificateRevocation.ofVal r
        pure (some r)
  return ⟨v.1, v.2.1, data, sig, revocation, v.2.2.2.2.2.1⟩

/-- `asn_der_serialise`. -/
def save (c : Certificate) : Octets := serialised schema c.val

/-- `asn_der_deserialise<certificate>`; the type has no set that would need an
order. -/
def load (o : Octets) : Except Error Certificate :=
  match @asnDerDeserialise .unordered schema o with
  | .error e => .error (.serialisation e)
  | .ok v =>
      match ofVal v with
      | .error e => .error (.serialisation e)
      | .ok c => .ok c

end Certificate

/-! ## `certificate_database` -/

/-- A row of the table `certificates`; the id is written in hexadecimal, which
determines it. -/
structure CertificateRow where
  certId : CertificateId
  data : Option Octets
  identifier : Option Octets
  revoked : Int

/-- `identifier_certificate_data::id`. -/
def identifierTypeId : FixedInt int := .cast int 2

/-- `identifier_certificate_data`. -/
def identifierSchema : Schema .type := .struct [.prim (.int int), .prim .string]

/-- `extract_identifier`: what is thrown is logged. -/
def extractIdentifier (c : Certificate) : Option Octets :=
  if c.certificateType = identifierTypeId then
    match @asnDerDeserialise .unordered identifierSchema c.certificateData.val with
    | .ok v => some v.2.1
    | .error _ => none
  else
    none

abbrev CertificateDatabase := List CertificateRow

variable [Primitives]

namespace CertificateDatabase

/-- `is_revoked`. -/
def isRevoked (db : CertificateDatabase) (id : CertificateId) : Bool :=
  db.any fun row => row.certId = id && row.revoked = 1

/-- The row that `insert` writes. -/
def row (c : Certificate) : CertificateRow where
  certId := c.id
  data := some c.save
  identifier := extractIdentifier c
  revoked := if c.revocation.isSome then 1 else 0

/-- `insert`; the statement may fail for the database's reasons. -/
def insert (ok : Bool) (c : Certificate) (db : CertificateDatabase) :
    Except Error CertificateDatabase :=
  if db.isRevoked c.id then .error (.failed .invalidOperation)
  else if ok then .ok (db.filter (·.certId ≠ c.id) ++ [row c])
  else .error .database

/-- `find`. -/
def find (db : CertificateDatabase) (id : CertificateId) : Except Error (Option Certificate) :=
  match db.find? (·.certId = id) with
  | none => .ok none
  | some row =>
      match row.data with
      | none => .ok none
      | some o =>
          match Certificate.load o with
          | .error e => .error e
          | .ok c => .ok (some c)

end CertificateDatabase

/-! ## `certificate_cache` -/

structure CertificateCache where
  certs : CertificateId → Option Certificate
  backends : List CertificateDatabase

/-- The loop of `insert` over the backends, with what it throws. -/
def insertBackends (ok : Bool) (c : Certificate) :
    List CertificateDatabase → List CertificateDatabase × Option Error
  | [] => ([], none)
  | db :: dbs =>
      match db.insert ok c with
      | .error e => (db :: dbs, some e)
      | .ok db' =>
          let (dbs', e) := insertBackends ok c dbs
          (db' :: dbs', e)

/-- The loop of `find` over the backends. -/
def findBackends (id : CertificateId) :
    List CertificateDatabase → Except Error (Option Certificate)
  | [] => .ok none
  | db :: dbs =>
      match db.find id with
      | .error e => .error e
      | .ok none => findBackends id dbs
      | .ok (some c) => .ok (some c)

namespace CertificateCache

/-- The constructor with a backend. -/
def ofBackend (db : CertificateDatabase) : CertificateCache := ⟨fun _ => none, [db]⟩

/-- The map has a certificate with a revocation under the id. -/
def holdsRevoked (s : CertificateCache) (id : CertificateId) : Bool :=
  match s.certs id with
  | some c => c.revocation.isSome
  | none => false

/-- `insert`. -/
def insert (ok : Bool) (c : Certificate) : EStateM Error CertificateCache Unit := fun s =>
  if s.holdsRevoked c.id then .error (.failed .invalidOperation) s
  else
    let (dbs, thrown) := insertBackends ok c s.backends
    let s' : CertificateCache := ⟨Function.update s.certs c.id (some c), dbs⟩
    match thrown with
    | none => .ok () s'
    | some e => .error e s'

/-- `find`. -/
def find (id : CertificateId) : EStateM Error CertificateCache (Option Certificate) := fun s =>
  match s.certs id with
  | some c => .ok (some c) s
  | none =>
      match findBackends id s.backends with
      | .error e => .error e s
      | .ok none => .ok none s
      | .ok (some c) => .ok (some c) { s with certs := Function.update s.certs c.id (some c) }

end CertificateCache

end Securepath.Crypto
