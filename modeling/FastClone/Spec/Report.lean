import FastClone.Lib.Json
import FastClone.Spec.CheckEngine

/-!
# The report of FastCheck (`check_report.cpp`)

`renderJson` is what `RenderJson` writes, byte by byte. `readReport` is a reader of such reports: it looks the fields
up by their names in the JSON value.
-/

namespace FastClone.Report

open FastClone.Delta FastClone.Compare
open FastClone.CheckEngine (DiffEntry FilterSet)
open Json (byte ascii decimal)

/-! ### The result of a check -/

/-- `CompareCounters`, as the machine words that they are. -/
structure CompareCounters where
  enumerated : UInt64 := 0
  same : UInt64 := 0
  diff : UInt64 := 0
  missing : UInt64 := 0
  extraLocal : UInt64 := 0

def CompareCounters.totalCompared (c : CompareCounters) : UInt64 := c.same + c.diff + c.missing

structure CheckResult where
  counters : CompareCounters := {}
  mode : CompareMode := .fast
  durationMs : UInt64 := 0
  partialRun : Bool := false
  entries : List DiffEntry := []

/-! ### `RenderJson` -/

def modeString : CompareMode → String
  | .strict => "strict"
  | .sizeOnly => "size-only"
  | .fast => "fast"

def categoryJson : CompareCategory → String
  | .diff => "DIFF"
  | .missing => "MISSING"
  | .extra => "EXTRA"
  | .same => "SAME"

def passesFilter (cat : CompareCategory) (f : FilterSet) : Bool :=
  match cat with
  | .diff => f.diff
  | .missing => f.missing
  | .extra => f.extra
  | .same => f.same

def kHex : Bytes := ascii "0123456789abcdef"

/-- The body of the loop of `JsonEscape`. -/
def escapeByte (c : UInt8) : Bytes :=
  if c = byte '"' then ascii "\\\""
  else if c = byte '\\' then ascii "\\\\"
  else if c = byte '\n' then ascii "\\n"
  else if c = byte '\r' then ascii "\\r"
  else if c = byte '\t' then ascii "\\t"
  -- the other control characters, as four hexadecimal digits
  else if c < 0x20 then
    ascii "\\u00" ++ [kHex.getD ((c >>> 4) &&& 0xF).toNat 0, kHex.getD (c &&& 0xF).toNat 0]
  -- every other byte as it is, also one that is no UTF-8
  else [c]

def jsonEscape (s : Bytes) : Bytes := s.flatMap escapeByte

/-- A size, or `null` on the side where the file is missing. -/
def sizeJson (size : Option UInt64) : Bytes :=
  match size with
  | some n => decimal n.toNat
  | none => ascii "null"

/-- What the loop writes for an entry, but for the separator. -/
def entryJson (e : DiffEntry) : Bytes :=
  ascii "    \x7b" ++
  ascii "\"type\": \"" ++ ascii (categoryJson e.type) ++ ascii "\", " ++
  ascii "\"path\": \"" ++ jsonEscape e.path ++ ascii "\", " ++
  ascii "\"local_size\": " ++ sizeJson e.localSize ++ ascii ", " ++
  ascii "\"remote_size\": " ++ sizeJson e.remoteSize ++ ascii ", " ++
  ascii "\"hash_compared\": " ++ ascii (if e.hashCompared then "true" else "false") ++
  ascii "\x7d"

/-- An iteration of the loop over the entries, with what is written so far and `first`. -/
def listEntry (f : FilterSet) (st : Bytes × Bool) (e : DiffEntry) : Bytes × Bool :=
  if !passesFilter e.type f then st
  -- the comma stands in front of an entry, so the first one has none
  else (st.1 ++ ascii (if st.2 then "\n" else ",\n") ++ entryJson e, false)

/-- `RenderJson`. -/
def renderJson (r : CheckResult) (f : FilterSet) (summaryOnly : Bool) : Bytes :=
  let c := r.counters
  let listing := if summaryOnly then ([], true) else r.entries.foldl (listEntry f) ([], true)
  ascii "\x7b\n" ++
  ascii "  \"summary\": \x7b\n" ++
  ascii "    \"same\": " ++ decimal c.same.toNat ++ ascii ",\n" ++
  ascii "    \"diff\": " ++ decimal c.diff.toNat ++ ascii ",\n" ++
  ascii "    \"missing\": " ++ decimal c.missing.toNat ++ ascii ",\n" ++
  ascii "    \"extra_local\": " ++ decimal c.extraLocal.toNat ++ ascii ",\n" ++
  ascii "    \"total_compared\": " ++ decimal c.totalCompared.toNat ++ ascii ",\n" ++
  ascii "    \"mode\": \"" ++ ascii (modeString r.mode) ++ ascii "\",\n" ++
  ascii "    \"duration_ms\": " ++ decimal r.durationMs.toNat ++ ascii ",\n" ++
  ascii "    \"partial\": " ++ ascii (if r.partialRun then "true" else "false") ++ ascii "\n" ++
  ascii "  \x7d,\n" ++
  ascii "  \"differences\": [" ++
  listing.1 ++
  -- an empty listing is closed on its own line
  ascii (if listing.2 then "]\n" else "\n  ]\n") ++
  ascii "\x7d\n"

/-! ### A reader -/

/-- What a report says. -/
structure Contents where
  same : UInt64
  diff : UInt64
  missing : UInt64
  extraLocal : UInt64
  totalCompared : UInt64
  mode : CompareMode
  durationMs : UInt64
  partialRun : Bool
  differences : List DiffEntry

/-- The value of a field. -/
def fieldOf (name : String) : Json.Value → Option Json.Value
  | .object ms => (ms.find? fun m => m.1 = ascii name).map Prod.snd
  | _ => none

def uint64Of : Json.Value → Option UInt64
  | .number n => if n.exponent = 0 ∧ 0 ≤ n.mantissa ∧ n.mantissa < 2 ^ 64 then some (UInt64.ofNat n.mantissa.toNat) else none
  | _ => none

def boolOf : Json.Value → Option Bool
  | .bool b => some b
  | _ => none

def bytesOf : Json.Value → Option Bytes
  | .string s => some s
  | _ => none

def sizeOf? : Json.Value → Option (Option UInt64)
  | .null => some none
  | v => (uint64Of v).map some

def modeOf (v : Json.Value) : Option CompareMode := do
  let s ← bytesOf v
  [CompareMode.fast, .strict, .sizeOnly].find? fun m => ascii (modeString m) = s

def categoryOf (v : Json.Value) : Option CompareCategory := do
  let s ← bytesOf v
  [CompareCategory.same, .diff, .missing, .extra].find? fun c => ascii (categoryJson c) = s

def readEntry (v : Json.Value) : Option DiffEntry := do
  let type ← (fieldOf "type" v).bind categoryOf
  let path ← (fieldOf "path" v).bind bytesOf
  let localSize ← (fieldOf "local_size" v).bind sizeOf?
  let remoteSize ← (fieldOf "remote_size" v).bind sizeOf?
  let hashCompared ← (fieldOf "hash_compared" v).bind boolOf
  return { type, path, localSize, remoteSize, hashCompared }

def readEntries : Json.Value → Option (List DiffEntry)
  | .array vs => vs.mapM readEntry
  | _ => none

def readReport (v : Json.Value) : Option Contents := do
  let summary ← fieldOf "summary" v
  let same ← (fieldOf "same" summary).bind uint64Of
  let diff ← (fieldOf "diff" summary).bind uint64Of
  let missing ← (fieldOf "missing" summary).bind uint64Of
  let extraLocal ← (fieldOf "extra_local" summary).bind uint64Of
  let totalCompared ← (fieldOf "total_compared" summary).bind uint64Of
  let mode ← (fieldOf "mode" summary).bind modeOf
  let durationMs ← (fieldOf "duration_ms" summary).bind uint64Of
  let partialRun ← (fieldOf "partial" summary).bind boolOf
  let differences ← (fieldOf "differences" v).bind readEntries
  return { same, diff, missing, extraLocal, totalCompared, mode, durationMs, partialRun, differences }

/-- What the report of a result should say. -/
def contentsOf (r : CheckResult) (f : FilterSet) (summaryOnly : Bool) : Contents where
  same := r.counters.same
  diff := r.counters.diff
  missing := r.counters.missing
  extraLocal := r.counters.extraLocal
  totalCompared := r.counters.totalCompared
  mode := r.mode
  durationMs := r.durationMs
  partialRun := r.partialRun
  differences := if summaryOnly then [] else r.entries.filter fun e => passesFilter e.type f

end FastClone.Report
