import TandemVerifier.Core.Types
import TandemVerifier.Library.Outcome

/-! # Broad marker candidate detection and strict payload parsing

Detection keeps truncated, nonminimal and over-long pushes as candidates; parsing
then checks the recorded flags. Field readers index the payload without a check of
their own and panic outside it, as in `tandem-core/src/marker.rs`.
-/
namespace TandemVerifier
open Library Library.Outcome

structure MarkerCandidate where
  vout : UInt32
  declaredLen : ℕ
  payload : Bytes
  prefixComplete : Bool
  payloadComplete : Bool
  noTrailingBytes : Bool
  minimalPush : Bool
deriving DecidableEq

structure ParsedMarker where
  vout : UInt32
  version : UInt8
  network : UInt8
  opcodeByte : UInt8
  opcode : Option Opcode
  payload : Bytes
deriving DecidableEq

namespace MarkerCandidate

def opcodeByte (candidate : MarkerCandidate) : Option UInt8 := candidate.payload[6]?

def isInitCandidate (candidate : MarkerCandidate) : Bool := candidate.opcodeByte == some 0

def parse (candidate : MarkerCandidate) : Outcome Reason ParsedMarker := do
  failIf (!candidate.prefixComplete || !(7 ≤ candidate.declaredLen && candidate.declaredLen ≤ 80) ||
    !candidate.payloadComplete || !candidate.noTrailingBytes || !candidate.minimalPush)
    .badMarkerEncodingOrLength
  let version ← index candidate.payload 4
  let network ← index candidate.payload 5
  let opcodeByte ← index candidate.payload 6
  let opcode := Opcode.fromByte opcodeByte
  failIf (opcode.any fun value => value.payloadLen != candidate.payload.length)
    .badMarkerEncodingOrLength
  pure ⟨candidate.vout,version,network,opcodeByte,opcode,candidate.payload⟩

end MarkerCandidate

namespace ParsedMarker
variable {ε : Type}

def u32At (marker : ParsedMarker) (start : ℕ) : Outcome ε UInt32 := do
  let bytes ← slice marker.payload start 4
  pure (UInt32.ofNat (ofLeBytes bytes))

def u64At (marker : ParsedMarker) (start : ℕ) : Outcome ε UInt64 := do
  let bytes ← slice marker.payload start 8
  pure (UInt64.ofNat (ofLeBytes bytes))

def hashAt (marker : ParsedMarker) (start : ℕ) : Outcome ε Hash32 := do
  let bytes ← slice marker.payload start 32
  expect (ByteVector.tryFrom 32 bytes)

end ParsedMarker

/-- The bytes of a range, absent unless the whole range is present. -/
def getRange (script : Bytes) (start stop : ℕ) : Option Bytes :=
  if stop ≤ script.length then some ((script.drop start).take (stop - start)) else none

/-- Declared length, prefix length, completeness and minimality of the first push. -/
def pushHeader (script : Bytes) (opcode : UInt8) : Option (ℕ × ℕ × Bool × Bool) :=
  if 0x01 ≤ opcode ∧ opcode ≤ 0x4b then some (opcode.toNat,2,true,true)
  else if opcode = 0x4c then do
    let length ← script[2]?
    some (length.toNat,3,true,decide (0x4c ≤ length))
  else if opcode = 0x4d then do
    let bytes ← getRange script 2 4
    let length := ofLeBytes bytes
    some (length,4,true,decide (0xff < length))
  else if opcode = 0x4e then do
    let bytes ← getRange script 2 6
    let length := ofLeBytes bytes
    some (length,6,true,decide (0xffff < length))
  else none

def findMarkerCandidate (script : Bytes) (vout : UInt32) : Option MarkerCandidate := do
  if script[0]? ≠ some 0x6a then none else
  let opcode ← script[1]?
  let (declaredLen,prefixLen,prefixComplete,minimalPush) ← pushHeader script opcode
  if !prefixComplete || declaredLen < 4 then none else
  let available := script.length - prefixLen
  if available < 4 ∨ getRange script prefixLen (prefixLen + 4) ≠ some magic then none else
  let physicalLen := min declaredLen available
  some {
    vout := vout
    declaredLen := declaredLen
    payload := (script.drop prefixLen).take physicalLen
    prefixComplete := prefixComplete
    payloadComplete := decide (declaredLen ≤ available)
    noTrailingBytes := available == declaredLen
    minimalPush := minimalPush }

end TandemVerifier
