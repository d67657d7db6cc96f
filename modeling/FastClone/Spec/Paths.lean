import FastClone.Lib.Lexical
import FastClone.Spec.Wire

/-!
# Joining paths from the wire (`sync_util.cpp`)

`JoinRel` turns the root directory and a relative path of a message into the path that is
read, written or deleted. The two platforms join in different ways: `root / rel` on POSIX,
a concatenation of wide strings on Windows.
-/

namespace FastClone.Paths

open Lexical FastClone.Delta

section Components

variable {α : Type} [DecidableEq α]

/-- The non-empty pieces between separators; `cur` is the piece being read. -/
def componentsFrom (sep : α → Bool) (cur : List α) : List α → List (List α)
  | [] => if cur = [] then [] else [cur]
  | c :: s =>
    if sep c then (if cur = [] then [] else [cur]) ++ componentsFrom sep [] s
    else componentsFrom sep (cur ++ [c]) s

def components (sep : α → Bool) (s : List α) : List (List α) := componentsFrom sep [] s

/-- What a component does. -/
def moveOf (dot : α) (c : List α) : Move (List α) :=
  if c = [dot] then .stay else if c = [dot, dot] then .up else .into c

end Components

/-! ### POSIX -/

def kSlash : UInt8 := 47
def kDot : UInt8 := 46

def isAbsolute (s : Bytes) : Bool := s.head? == some kSlash

def isSepPosix (c : UInt8) : Bool := c == kSlash

def movesPosix (s : Bytes) : List (Move Bytes) := (components isSepPosix s).map (moveOf kDot)

/-- `path::lexically_normal`. -/
def normalPosix (s : Bytes) : Place Bytes := (Place.start (isAbsolute s)).walk (movesPosix s)

/-- `path::operator/`: an absolute right-hand side replaces the left one. -/
def appendPath (lhs rhs : Bytes) : Bytes :=
  if isAbsolute rhs then rhs
  else if lhs = [] ∨ lhs.getLast? = some kSlash then lhs ++ rhs
  else lhs ++ (kSlash :: rhs)

/-- `JoinRel` on POSIX. -/
def joinRelPosix (root relPath : Bytes) : Bytes :=
  if relPath = [kDot] ∨ relPath = [] then root else appendPath root relPath

/-! ### Windows -/

abbrev Wide := List UInt16

def wBackslash : UInt16 := 92
def wSlash : UInt16 := 47
def wColon : UInt16 := 58
def wQuestion : UInt16 := 63
def wDot : UInt16 := 46

def isSepWindows (c : UInt16) : Bool := c == wBackslash || c == wSlash

def toBackslashes (w : Wide) : Wide := w.map fun c => if c = wSlash then wBackslash else c

/-- `LooksAbsoluteWindows`. -/
def looksAbsoluteWindows : Wide → Bool
  | c₀ :: c₁ :: c₂ :: _ => (c₁ == wColon && isSepWindows c₂) || (c₀ == wBackslash && c₁ == wBackslash)
  | [c₀, c₁] => c₀ == wBackslash && c₁ == wBackslash
  | _ => false

/-- An extended or a device path. -/
def isExtended : Wide → Bool
  | c₀ :: c₁ :: c₂ :: c₃ :: _ =>
    c₀ == wBackslash && c₁ == wBackslash && (c₂ == wQuestion || c₂ == wDot) && c₃ == wBackslash
  | _ => false

/-- Two backslashes, a question mark and a backslash. -/
def kExtendedPrefix : Wide := [wBackslash, wBackslash, wQuestion, wBackslash]

/-- The letters of `UNC` and a backslash. -/
def kUnc : Wide := [85, 78, 67, wBackslash]

/-- `ToExtendedLengthPath`. -/
def toExtendedLengthPath (w : Wide) : Wide :=
  if isExtended w then w
  else if !looksAbsoluteWindows w then w
  else
    let w := toBackslashes w
    if w.take 2 = [wBackslash, wBackslash] then kExtendedPrefix ++ kUnc ++ w.drop 2
    else kExtendedPrefix ++ w

/-- `JoinRel` on Windows; the conversion from UTF-8 is the system's. -/
def joinRelWindows (utf8ToWide : Bytes → Wide) (root : Wide) (relPath : Bytes) : Wide :=
  let full := toBackslashes root
  if relPath = [kDot] ∨ relPath = [] then toExtendedLengthPath full
  else
    let full := if full ≠ [] ∧ full.getLast? ≠ some wBackslash then full ++ [wBackslash] else full
    toExtendedLengthPath (full ++ toBackslashes (utf8ToWide relPath))

/-- The root name of a path: a drive, the start of an extended path, or a server. -/
def rootNameLength : Wide → ℕ
  | c₀ :: c₁ :: rest =>
    if c₁ = wColon then 2
    else if isExtended (c₀ :: c₁ :: rest) then 3
    else if isSepWindows c₀ && isSepWindows c₁ then 2 + (rest.takeWhile fun c => !isSepWindows c).length
    else 0
  | _ => 0

def movesWindows (w : Wide) : List (Move Wide) := (components isSepWindows w).map (moveOf wDot)

/-- A Windows path in normal form. -/
structure WindowsPath where
  rootName : Wide
  place : Place Wide

/-- `path::lexically_normal`. -/
def normalWindows (w : Wide) : WindowsPath :=
  let n := rootNameLength w
  { rootName := w.take n
    place := (Place.start ((w.drop n).head?.any isSepWindows)).walk (movesWindows (w.drop n)) }

def WindowsPath.Inside (p q : WindowsPath) : Prop := q.rootName = p.rootName ∧ p.place.Inside q.place

/-! ### Messages -/

/-- The relative paths of a message that are joined to the root: by the server for a
request, by the client for a manifest entry and for the records of a batch. -/
def relPaths : Wire.Message → List Bytes
  | .hashRequest relPath => [relPath]
  | .fileOpen relPath => [relPath]
  | .fileBatchRequest relPaths => relPaths
  | .blockSigRequest relPath => [relPath]
  | .deltaRangeOpen req => [req.relPath]
  | .fileRangeOpen req => [req.relPath]
  | .manifestEntry entry => [entry.relativePath]
  | .fileBatchOpenResponse files => files.map (·.relativePath)
  | _ => []

/-- The paths that the handlers go on with; none of them looks at the path before. -/
def openedPosix (root : Bytes) (m : Wire.Message) : List Bytes := (relPaths m).map (joinRelPosix root)

def openedWindows (utf8ToWide : Bytes → Wide) (root : Wide) (m : Wire.Message) : List Wide :=
  (relPaths m).map (joinRelWindows utf8ToWide root)

end FastClone.Paths
