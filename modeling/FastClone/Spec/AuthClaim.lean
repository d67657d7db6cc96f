import FastClone.Spec.Wire

/-!
# Claiming a session (`protocol_codec.cpp`, `HandshakeAndResolveSession`)

The payload of `Auth` is the bare password, a capability byte and an extension string; it
has no length before the password. `CheckAuth` and `SessionJoin` carry theirs as a string.
-/

namespace FastClone.AuthClaim

open Codec FastClone.Delta FastClone.Wire

structure AuthClaimInfo where
  capabilities : UInt8
  extensionString : Bytes
  deriving DecidableEq, Repr

/-- `AuthClaimInfo{}`. -/
def AuthClaimInfo.none : AuthClaimInfo := { capabilities := 0, extensionString := [] }

def encodeAuthClaim (password : Bytes) (capabilities : UInt8) (extensionString : Bytes) : Stream Unit := do
  put password
  put [capabilities]
  appendString extensionString

/-- The 16-bit length at `cursor`. -/
def extLenAt (payload : Bytes) (cursor : ℕ) : UInt16 :=
  (payload.getD cursor 0).toUInt16 ||| ((payload.getD (cursor + 1) 0).toUInt16 <<< 8)

/-- The extension string at `cursor`, if it is there and complete. -/
def extensionAt (payload : Bytes) (cursor : ℕ) : Bytes :=
  if cursor + 2 ≤ payload.length then
    let extLen := (extLenAt payload cursor).toNat
    if cursor + 2 + extLen ≤ payload.length then (payload.drop (cursor + 2)).take extLen else []
  else []

/-- `DecodeAuthClaim`: whether the claim is accepted, and `out`. -/
def decodeAuthClaim (payload expectedPassword : Bytes) : Bool × AuthClaimInfo :=
  if payload.length < expectedPassword.length ∨
      payload.take expectedPassword.length ≠ expectedPassword then (false, .none)
  else
    let cursor := expectedPassword.length
    if cursor < payload.length then
      (true, { capabilities := payload.getD cursor 0, extensionString := extensionAt payload (cursor + 1) })
    else (true, { capabilities := 0, extensionString := extensionAt payload cursor })

/-- The claim frames of a handshake. -/
inductive Claim where
  | auth (payload : Bytes)
  | checkAuth (payload : Bytes)
  | sessionJoin (payload : Bytes)
  deriving DecidableEq, Repr

/-- The password check of `HandshakeAndResolveSession`; a payload that cannot be decoded
throws and is not admitted either. -/
def admits (password : Bytes) : Claim → Bool
  | .auth payload => (decodeAuthClaim payload password).1
  | .checkAuth payload =>
    match decodeCheckAuth payload with
    | .ok (info, _) => decide (info.password = password)
    | .error _ => false
  | .sessionJoin payload =>
    match decodeSessionJoin payload with
    | .ok (join, _) => decide (join.password = password)
    | .error _ => false

end FastClone.AuthClaim
