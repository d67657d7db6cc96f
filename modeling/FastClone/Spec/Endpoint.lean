import Mathlib.Data.Int.Notation

/-!
# Endpoint strings

The server advertises `ip:port`, and `[ip]:port` if the address contains a colon. Three parsers read
such strings: `SplitServerKey` (`net_topology.cpp`) for the advertised list, and the two `ParseHostPort`
behind `--server` (`cli.cpp`, `check_cli.cpp`). A text is a list of characters.
-/

namespace FastClone.Endpoint

abbrev Text := List Char

/-! ### What the parsers use of the C and C++ libraries -/

/-- `std::string::find`. -/
def find (c : Char) (s : Text) : Option Nat := s.idxOf? c

/-- `std::string::rfind`. -/
def rfind (c : Char) (s : Text) : Option Nat := (s.reverse.idxOf? c).map fun i => s.length - 1 - i

/-- `std::isspace`. -/
def isSpace (c : Char) : Bool :=
  c = ' ' || c = '\t' || c = '\n' || c = '\x0b' || c = '\x0c' || c = '\r'

def longMax : ℤ := 9223372036854775807
def longMin : ℤ := -9223372036854775808

/-- The sign that `strtol` accepts, and the rest. -/
def takeSign : Text → Bool × Text
  | '-' :: rest => (true, rest)
  | '+' :: rest => (false, rest)
  | rest => (false, rest)

/-- `std::strtol` in base 10: the number, and the text from `end` on. -/
def strtol (value : Text) : ℤ × Text :=
  let signed := takeSign (value.dropWhile isSpace)
  let digits := signed.2.takeWhile Char.isDigit
  -- without a digit nothing is read at all
  if digits = [] then (0, value)
  else
    let magnitude : ℤ := Nat.ofDigitChars 10 digits 0
    let parsed := if signed.1 then -magnitude else magnitude
    (max longMin (min longMax parsed), signed.2.dropWhile Char.isDigit)

/-- `std::stoi`; `none` where it throws. -/
def stoi (s : Text) : Option ℤ :=
  let signed := takeSign (s.dropWhile isSpace)
  if signed.2.takeWhile Char.isDigit = [] then none
  else if (strtol s).1 < -2147483648 ∨ 2147483647 < (strtol s).1 then none
  else some (strtol s).1

/-- `std::to_string`. -/
def toText (n : Nat) : Text := Nat.toDigits 10 n

/-! ### The server -/

/-- The advertised endpoint of one local address. -/
def advertisedEndpoint (ip : Text) (port : UInt16) : Text :=
  let isIpv6 := (find ':' ip).isSome
  if isIpv6 then ['['] ++ ip ++ [']', ':'] ++ toText port.toNat
  else ip ++ [':'] ++ toText port.toNat

/-! ### `SplitServerKey` -/

/-- The port in `portStr`, if there is one. -/
def portOf (portStr : Text) : Option UInt16 :=
  match stoi portStr with
  | some port => if 0 < port ∧ port ≤ 65535 then some (UInt16.ofNat port.toNat) else none
  | none => none

/-- `SplitServerKey` behind the first character. -/
def splitAtColon (key : Text) (defaultPort : UInt16) : Text × UInt16 :=
  match rfind ':' key with
  | none => (key, defaultPort)
  | some colon =>
    -- a bare IPv6 literal is not split
    if find ':' key ≠ some colon then (key, defaultPort)
    else
      match portOf (key.drop (colon + 1)) with
      | some port => (key.take colon, port)
      | none => (key, defaultPort)

/-- `SplitServerKey`. -/
def splitServerKey (key : Text) (defaultPort : UInt16) : Text × UInt16 :=
  if key.head? = some '[' then
    match find ']' key with
    | some close =>
      let host := (key.drop 1).take (close - 1)
      if close + 1 ≥ key.length then (host, defaultPort)
      else if key[close + 1]? = some ':' then
        match portOf (key.drop (close + 2)) with
        | some port => (host, port)
        | none => (host, defaultPort)
      else (host, defaultPort)
    | none => splitAtColon key defaultPort
  else splitAtColon key defaultPort

/-! ### `--server` -/

/-- `ParseLongStrict`. -/
def parseLongStrict (value : Text) (name : String) : Except String ℤ :=
  if value = [] then .error (name ++ " is empty")
  else
    let parsed := strtol value
    -- the text ends at the first NUL
    if parsed.2 = [] ∨ parsed.2.head? = some '\x00' then .ok parsed.1 else .error ("Invalid " ++ name)

/-- `ParseHostPort`. -/
def parseHostPort (input : Text) (defaultPort : UInt16) : Except String (Text × UInt16) :=
  match find ':' input with
  | none => if input = [] then .error "Invalid --server, host is empty" else .ok (input, defaultPort)
  | some pos =>
    let host := input.take pos
    let port := input.drop (pos + 1)
    if host = [] ∨ port = [] then .error "Invalid --server, expected host:port"
    else
      match parseLongStrict port "--server" with
      | .error e => .error e
      | .ok parsedPort =>
        if parsedPort ≤ 0 ∨ parsedPort > 65535 then .error "Port out of range"
        else .ok (host, UInt16.ofNat parsedPort.toNat)

/-- `ParseServerList`. -/
def parseServerList (input : Text) (defaultPort : UInt16) : Except String (List (Text × UInt16)) := do
  let tokens := (input.splitOn ',').filter fun token => token ≠ []
  let endpoints ← tokens.mapM fun token => parseHostPort token defaultPort
  if endpoints = [] then .error "Invalid --server, no endpoints parsed" else .ok endpoints

/-- `ParseHostPort` of FastCheck. -/
def checkParseHostPort (input : Text) (defaultPort : UInt16) : Except String (Text × UInt16) :=
  parseHostPort input defaultPort

/-! ### Address literals -/

/-- Four decimal numbers from 0 to 255. -/
def Ipv4Literal (s : Text) : Prop :=
  ∃ a b c d : UInt8, s = List.intercalate ['.'] [toText a.toNat, toText b.toNat, toText c.toNat, toText d.toNat]

def isHexDigit (c : Char) : Bool :=
  c.isDigit || ('a' ≤ c && c ≤ 'f') || ('A' ≤ c && c ≤ 'F')

/-- One to four hexadecimal digits. -/
def HexGroup (g : Text) : Prop := g ≠ [] ∧ g.length ≤ 4 ∧ ∀ c ∈ g, isHexDigit c = true

def colons (groups : List Text) : Text := List.intercalate [':'] groups

/-- An IPv6 address: eight groups, of which a run may be left out once, and the last two may be an IPv4
address. -/
inductive Ipv6Address : Text → Prop
  | full (gs : List Text) : gs.length = 8 → (∀ g ∈ gs, HexGroup g) → Ipv6Address (colons gs)
  | fullV4 (gs : List Text) (v4 : Text) :
      gs.length = 6 → (∀ g ∈ gs, HexGroup g) → Ipv4Literal v4 → Ipv6Address (colons (gs ++ [v4]))
  | short (ls rs : List Text) : ls.length + rs.length ≤ 7 → (∀ g ∈ ls ++ rs, HexGroup g) →
      Ipv6Address (colons ls ++ [':', ':'] ++ colons rs)
  | shortV4 (ls rs : List Text) (v4 : Text) : ls.length + rs.length ≤ 5 → (∀ g ∈ ls ++ rs, HexGroup g) →
      Ipv4Literal v4 → Ipv6Address (colons ls ++ [':', ':'] ++ colons (rs ++ [v4]))

/-- The interface behind `%`. -/
def ZoneName (z : Text) : Prop := z ≠ [] ∧ ∀ c ∈ z, (c.isAlphanum || c ∈ ['-', '.', '_', '~']) = true

/-- An IPv6 address, with or without a zone. -/
def Ipv6Literal (s : Text) : Prop :=
  Ipv6Address s ∨ ∃ address zone, Ipv6Address address ∧ ZoneName zone ∧ s = address ++ '%' :: zone

end FastClone.Endpoint
