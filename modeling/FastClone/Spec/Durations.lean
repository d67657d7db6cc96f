import FastClone.Spec.Endpoint
import FastClone.Spec.Mtime

/-!
# Durations of the command line, and the timers of the server that use them

`ParseDurationMsStrict` (`cli.cpp`) gives `--once-idle-grace` and `--wait-connect-timeout` as unsigned
milliseconds. The server (`sync_engine_server.cpp`) turns them into `std::chrono::milliseconds`, which are
signed, and compares them with readings of the steady clock, which are signed nanoseconds.
-/

namespace FastClone.Durations

open FastClone.Endpoint FastClone.Mtime
open FastClone.Compare (wrap64)

/-! ### The command line -/

def uint64Max : ℕ := 18446744073709551615

/-- `std::stoull` in base 10: the number, and the text from `idx` on; `none` where it throws. -/
def stoull (value : Text) : Option (ℕ × Text) :=
  let signed := takeSign (value.dropWhile isSpace)
  let digits := signed.2.takeWhile Char.isDigit
  if digits = [] then none
  else
    let magnitude := Nat.ofDigitChars 10 digits 0
    if magnitude > uint64Max then none
    else
      -- a minus sign negates the unsigned number
      let parsed := if signed.1 then (2 ^ 64 - magnitude) % 2 ^ 64 else magnitude
      some (parsed, signed.2.dropWhile Char.isDigit)

/-- The milliseconds of one unit; a bare number is in seconds. -/
def unitMs (suffix : Text) : Option ℕ :=
  if suffix = [] ∨ suffix = ['s'] ∨ suffix = ['s', 'e', 'c'] then some 1000
  else if suffix = ['m'] ∨ suffix = ['m', 'i', 'n'] then some (60 * 1000)
  else if suffix = ['h'] ∨ suffix = ['h', 'r'] then some (60 * 60 * 1000)
  else none

/-- `ParseDurationMsStrict`. -/
def parseDurationMsStrict (value : Text) (name : String) : Except String ℕ :=
  if value = [] then .error (name ++ " is empty")
  else
    match stoull value with
    | none => .error ("Invalid " ++ name)
    | some (base, rest) =>
      let suffix := rest.map Char.toLower
      match unitMs suffix with
      | none => .error ("Invalid " ++ name ++ ", expected suffix [s|m|h]")
      | some multiplier =>
        let maxValue := uint64Max / multiplier
        if base > maxValue then .error (name ++ " is too large") else .ok (base * multiplier)

/-- A duration that an option requires to be positive. -/
def parsePositiveDuration (value : Text) (name : String) : Except String ℕ := do
  let ms ← parseDurationMsStrict value name
  if ms = 0 then .error ("Invalid " ++ name ++ " (must be > 0)") else .ok ms

/-- `--once-idle-grace`. -/
def onceIdleGraceMs (value : Text) : Except String ℕ := parsePositiveDuration value "--once-idle-grace"

/-- `--wait-connect-timeout`. -/
def waitConnectTimeoutMs (value : Text) : Except String ℕ := parsePositiveDuration value "--wait-connect-timeout"

/-! ### What the timers use of `std::chrono` -/

/-- `std::chrono::milliseconds` of an unsigned count, which becomes signed. -/
def milliseconds (ms : ℕ) : ℤ := wrap64 ms

/-- Milliseconds where nanoseconds are expected. -/
def toNanoseconds (ms : ℤ) : Option ℤ := signed64 (ms * 1000000)

/-- A reading of the clock and milliseconds. -/
def addMilliseconds (reading ms : ℤ) : Option ℤ := do
  let ns ← toNanoseconds ms
  signed64 (reading + ns)

/-! ### The timers -/

/-- `SessionRegistry::SnapshotIdle`. -/
structure IdleSnapshot where
  createdTotal : ℕ
  activeRealSessions : ℕ
  deriving DecidableEq, Repr

/-- `EvaluateIdleGrace` with the clock at `now`: the new `idleSince`, and whether the terminal verdict
fires. -/
def evaluateIdleGrace (graceMs : ℕ) (snap : IdleSnapshot) (now : ℤ) (idleSince : Option ℤ) :
    Option (Option ℤ × Bool) :=
  let served := snap.createdTotal > 0
  if served ∧ snap.activeRealSessions = 0 then
    match idleSince with
    | none => some (some now, false)
    | some since => do
      let idle ← signed64 (now - since)
      let grace ← toNanoseconds (milliseconds graceMs)
      return (some since, decide (idle ≥ grace))
  else some (none, false)

def kWaitConnectInFlightGraceMs : ℤ := 1000

/-- The deadline that `RunServer` arms when the clock is at `start`. -/
def waitConnectDeadline (timeoutMs : ℕ) (start : ℤ) : Option ℤ := addMilliseconds start (milliseconds timeoutMs)

/-- `EvaluateWaitConnect` with the clock at `now`: whether the server gives up, and `firstConnSeen`. -/
def evaluateWaitConnect (firstConnSeen : Bool) (snap : IdleSnapshot) (inFlightHandshakes : ℕ)
    (deadline now : ℤ) : Option (Bool × Bool) :=
  if firstConnSeen then some (false, true)
  else if snap.createdTotal > 0 then some (false, true)
  else if now < deadline then some (false, false)
  else if inFlightHandshakes > 0 then do
    let last ← addMilliseconds deadline kWaitConnectInFlightGraceMs
    return (decide (¬ now < last), false)
  else some (true, false)

end FastClone.Durations
