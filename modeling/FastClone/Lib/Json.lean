import FastClone.Lib.Numerals

/-!
# JSON texts

A parser of RFC 8259, on bytes. A string is the bytes that it stands for: an escape is replaced by the UTF-8 of its
character, and any other byte from `0x20` on is taken as it is.

* `Reads p bs a`: the parser `p` takes `bs` off the front and returns `a`, whatever may follow a value.
* `Reads.number`, `Reads.string`, `Reads.object`, `Reads.array`: how texts are put together that the parser reads.
* `parse_of_reads`: a text that is read as a value is parsed as it.
-/

namespace Json

open Numerals

abbrev Bytes := List UInt8

/-- The byte of an ASCII character. -/
def byte (c : Char) : UInt8 := UInt8.ofNat c.toNat

def ascii (s : String) : Bytes := s.toList.map byte

/-- `mantissa * 10 ^ exponent`. -/
structure Number where
  mantissa : ℤ
  exponent : ℤ
  deriving DecidableEq, Repr

inductive Value where
  | null
  | bool (b : Bool)
  | number (n : Number)
  | string (s : Bytes)
  | array (vs : List Value)
  | object (members : List (Bytes × Value))

/-! ### Strings -/

def isSpace (b : UInt8) : Bool := b == byte ' ' || b == byte '\t' || b == byte '\n' || b == byte '\r'

def skipSpace (bs : Bytes) : Bytes := bs.dropWhile isSpace

def isDigit (b : UInt8) : Bool := byte '0' ≤ b && b ≤ byte '9'

def hexDigit (b : UInt8) : Option ℕ :=
  if isDigit b then some (b.toNat - 48)
  else if byte 'a' ≤ b ∧ b ≤ byte 'f' then some (b.toNat - 97 + 10)
  else if byte 'A' ≤ b ∧ b ≤ byte 'F' then some (b.toNat - 65 + 10)
  else none

/-- Four hexadecimal digits. -/
def hex4 : Bytes → Option (ℕ × Bytes)
  | a :: b :: c :: d :: rest => do
    let a ← hexDigit a
    let b ← hexDigit b
    let c ← hexDigit c
    let d ← hexDigit d
    some (numeral 16 [a, b, c, d], rest)
  | _ => none

/-- The UTF-8 of a character. -/
def utf8 (u : ℕ) : Bytes :=
  if u < 0x80 then [UInt8.ofNat u]
  else if u < 0x800 then [UInt8.ofNat (0xC0 + u / 0x40), UInt8.ofNat (0x80 + u % 0x40)]
  else if u < 0x10000 then
    [UInt8.ofNat (0xE0 + u / 0x1000), UInt8.ofNat (0x80 + u / 0x40 % 0x40), UInt8.ofNat (0x80 + u % 0x40)]
  else
    [UInt8.ofNat (0xF0 + u / 0x40000), UInt8.ofNat (0x80 + u / 0x1000 % 0x40), UInt8.ofNat (0x80 + u / 0x40 % 0x40),
      UInt8.ofNat (0x80 + u % 0x40)]

/-- What follows the four digits of a `\u`: nothing, or the other half of a surrogate pair. -/
def surrogate (u : ℕ) (rest : Bytes) : Option (Bytes × Bytes) :=
  if 0xD800 ≤ u ∧ u < 0xDC00 then
    if (ascii "\\u").isPrefixOf rest then do
      let (low, rest) ← hex4 (rest.drop 2)
      if 0xDC00 ≤ low ∧ low < 0xE000 then some (utf8 (0x10000 + (u - 0xD800) * 0x400 + (low - 0xDC00)), rest)
      else none
    else none
  else if 0xDC00 ≤ u ∧ u < 0xE000 then none
  else some (utf8 u, rest)

/-- The byte of an escape of two characters. -/
def escape (b : UInt8) : Option UInt8 :=
  if b = byte '"' ∨ b = byte '\\' ∨ b = byte '/' then some b
  else if b = byte 'b' then some 8
  else if b = byte 'f' then some 12
  else if b = byte 'n' then some 10
  else if b = byte 'r' then some 13
  else if b = byte 't' then some 9
  else none

/-- One character of a string, which the quotation mark that ends it is not. -/
def character : Bytes → Option (Bytes × Bytes)
  | [] => none
  | c :: rest =>
    if c = byte '"' ∨ c < 0x20 then none
    else if c ≠ byte '\\' then some ([c], rest)
    else
      match rest with
      | [] => none
      | e :: rest =>
        if e = byte 'u' then do
          let (u, rest) ← hex4 rest
          surrogate u rest
        else (escape e).map fun b => ([b], rest)

/-- The characters up to the end of the string. -/
def characters : ℕ → Bytes → Option (Bytes × Bytes)
  | 0, _ => none
  | n + 1, bs =>
    -- a quotation mark behind a backslash is taken by `character`, so this one ends the string
    if bs.head? = some (byte '"') then some ([], bs.tail)
    else do
      let (c, bs) ← character bs
      let (cs, bs) ← characters n bs
      some (c ++ cs, bs)

def string : Bytes → Option (Bytes × Bytes)
  | [] => none
  | c :: bs => if c = byte '"' then characters bs.length bs else none

def quoted (text : Bytes) : Bytes := byte '"' :: text ++ [byte '"']

/-- What stands between the quotation marks, unescaped. -/
def unescape (text : Bytes) : Option Bytes :=
  match string (quoted text) with
  | some (s, []) => some s
  | _ => none

/-! ### Numbers -/

def digits (ds : Bytes) : ℕ := numeral 10 (ds.map fun d => d.toNat - 48)

/-- `.` and digits, or nothing. -/
def fraction (bs : Bytes) : Option (Bytes × Bytes) :=
  if bs.head? = some (byte '.') then
    let ds := bs.tail.takeWhile isDigit
    if ds = [] then none else some (ds, bs.tail.dropWhile isDigit)
  else some ([], bs)

/-- `e`, a sign and digits, or nothing. -/
def exponent (bs : Bytes) : Option (ℤ × Bytes) :=
  if bs.head? = some (byte 'e') ∨ bs.head? = some (byte 'E') then
    let minus := bs.tail.head? = some (byte '-')
    let bs := if minus ∨ bs.tail.head? = some (byte '+') then bs.tail.tail else bs.tail
    let ds := bs.takeWhile isDigit
    if ds = [] then none else some (if minus then -digits ds else digits ds, bs.dropWhile isDigit)
  else some (0, bs)

def number (bs : Bytes) : Option (Number × Bytes) :=
  let minus := bs.head? = some (byte '-')
  let bs := if minus then bs.tail else bs
  let whole := bs.takeWhile isDigit
  -- a number does not begin with a zero, unless that is all
  if whole = [] ∨ (whole.head? = some (byte '0') ∧ whole.length > 1) then none
  else do
    let (frac, bs) ← fraction (bs.dropWhile isDigit)
    let (exp, bs) ← exponent bs
    let mantissa : ℤ := digits (whole ++ frac)
    some (⟨if minus then -mantissa else mantissa, exp - frac.length⟩, bs)

/-! ### Values -/

def literal (text : String) (v : Value) (bs : Bytes) : Option (Value × Bytes) :=
  if (ascii text).isPrefixOf bs then some (v, bs.drop (ascii text).length) else none

variable {α : Type}

/-- Items with commas between them, up to `close`. -/
def items (item : Bytes → Option (α × Bytes)) (close : UInt8) : ℕ → Bytes → Option (List α × Bytes)
  | 0, _ => none
  | n + 1, bs => do
    let (a, bs) ← item bs
    match skipSpace bs with
    | [] => none
    | c :: bs =>
      if c = close then some ([a], bs)
      else if c = byte ',' then do
        let (as, bs) ← items item close n bs
        some (a :: as, bs)
      else none

/-- The items behind an opening bracket. -/
def collection (item : Bytes → Option (α × Bytes)) (close : UInt8) (bs : Bytes) : Option (List α × Bytes) :=
  if (skipSpace bs).head? = some close then some ([], (skipSpace bs).tail) else items item close bs.length bs

/-- A name, a colon and a value. -/
def member (value : Bytes → Option (Value × Bytes)) (bs : Bytes) : Option ((Bytes × Value) × Bytes) := do
  let (name, bs) ← string (skipSpace bs)
  match skipSpace bs with
  | [] => none
  | c :: bs => if c = byte ':' then (value bs).map fun vr => ((name, vr.1), vr.2) else none

/-- A value in which objects and arrays are nested less than `depth` times. -/
def value : ℕ → Bytes → Option (Value × Bytes)
  | 0, _ => none
  | depth + 1, bs =>
    match skipSpace bs with
    | [] => none
    | c :: rest =>
      if c = byte '\x7b' then
        (collection (member (value depth)) (byte '\x7d') rest).map fun mr => (.object mr.1, mr.2)
      else if c = byte '[' then (collection (value depth) (byte ']') rest).map fun vr => (.array vr.1, vr.2)
      else if c = byte '"' then (string (c :: rest)).map fun sr => (.string sr.1, sr.2)
      else if c = byte 't' then literal "true" (.bool true) (c :: rest)
      else if c = byte 'f' then literal "false" (.bool false) (c :: rest)
      else if c = byte 'n' then literal "null" .null (c :: rest)
      else (number (c :: rest)).map fun nr => (.number nr.1, nr.2)

/-- A JSON text. -/
def parse (bs : Bytes) : Option Value :=
  match value (bs.length + 1) bs with
  | some (v, rest) => if skipSpace rest = [] then some v else none
  | none => none

/-! ### What a parser reads -/

/-- White space. -/
def Blank (ws : Bytes) : Prop := ∀ b ∈ ws, isSpace b = true

instance : DecidablePred Blank := fun _ => decidable_of_iff _ List.all_eq_true

/-- What follows is no part of a number. -/
def Ends (rest : Bytes) : Prop :=
  ∀ c, rest.head? = some c → isDigit c = false ∧ c ≠ byte '.' ∧ c ≠ byte 'e' ∧ c ≠ byte 'E'

/-- The parser takes `bs` off the front, up to white space. -/
def Reads (p : Bytes → Option (α × Bytes)) (bs : Bytes) (a : α) : Prop :=
  ∀ rest, Ends rest → ∃ rest', p (bs ++ rest) = some (a, rest') ∧ skipSpace rest' = skipSpace rest

theorem skipSpace_blank {ws : Bytes} (h : Blank ws) (rest : Bytes) : skipSpace (ws ++ rest) = skipSpace rest :=
  List.dropWhile_append_of_pos h

theorem skipSpace_cons {c : UInt8} (h : isSpace c = false) (rest : Bytes) : skipSpace (c :: rest) = c :: rest :=
  List.dropWhile_cons_of_neg (by simp [h])

theorem ends_nil : Ends [] := fun _ h => nomatch h

/-- White space is no part of a number. -/
theorem Ends.blank {ws rest : Bytes} (hws : Blank ws) (h : Ends rest) : Ends (ws ++ rest) := by
  cases ws with
  | nil => exact h
  | cons b ws =>
    intro c hc
    cases hc
    have hb : isSpace b = true := hws b List.mem_cons_self
    simp only [isSpace, Bool.or_eq_true, beq_iff_eq] at hb
    rcases hb with ((rfl | rfl) | rfl) | rfl <;> decide

/-- White space may follow. -/
theorem Reads.trail {p : Bytes → Option (α × Bytes)} {bs ws : Bytes} {a : α} (h : Reads p bs a) (hws : Blank ws) :
    Reads p (bs ++ ws) a := by
  intro rest hrest
  obtain ⟨rest', hp, hskip⟩ := h (ws ++ rest) (hrest.blank hws)
  rw [List.append_assoc]
  exact ⟨rest', hp, hskip.trans (skipSpace_blank hws rest)⟩

/-- White space may go in front of a value. -/
theorem value_blank {ws : Bytes} (hws : Blank ws) (depth : ℕ) (bs : Bytes) :
    value depth (ws ++ bs) = value depth bs := by
  cases depth with
  | zero => rfl
  | succ depth =>
    unfold value
    rw [skipSpace_blank hws]

theorem Reads.lead {ws bs : Bytes} {depth : ℕ} {v : Value} (h : Reads (value depth) bs v) (hws : Blank ws) :
    Reads (value depth) (ws ++ bs) v := by
  intro rest hrest
  rw [List.append_assoc, value_blank hws]
  exact h rest hrest

/-- What is left is white space: the text is parsed. -/
theorem parse_of_reads {bs : Bytes} {v : Value} (h : Reads (value (bs.length + 1)) bs v) : parse bs = some v := by
  obtain ⟨rest', hvalue, hskip⟩ := h [] ends_nil
  have hnil : skipSpace rest' = [] := hskip
  unfold parse
  rw [List.append_nil] at hvalue
  rw [hvalue]
  exact if_pos hnil

/-! ### Strings -/

/-- A text that is escaped byte by byte: each escape is read as its byte. -/
theorem characters_flatMap {esc : UInt8 → Bytes} {s : Bytes}
    (h : ∀ c ∈ s, ∀ more, character (esc c ++ more) = some ([c], more)) {n : ℕ} (hn : s.length < n) (rest : Bytes) :
    characters n (s.flatMap esc ++ byte '"' :: rest) = some (s, rest) := by
  induction s generalizing n with
  | nil =>
    obtain ⟨m, rfl⟩ : ∃ m, n = m + 1 := ⟨n - 1, by simp at hn; omega⟩
    rfl
  | cons c s ih =>
    rw [List.length_cons] at hn
    obtain ⟨m, rfl⟩ : ∃ m, n = m + 1 := ⟨n - 1, by omega⟩
    have hc := h c List.mem_cons_self (s.flatMap esc ++ byte '"' :: rest)
    have hs := ih (fun c' hc' => h c' (List.mem_cons_of_mem _ hc')) (n := m) (by omega)
    have htext : (c :: s).flatMap esc ++ byte '"' :: rest = esc c ++ (s.flatMap esc ++ byte '"' :: rest) := by simp
    have hhead : (esc c ++ (s.flatMap esc ++ byte '"' :: rest)).head? ≠ some (byte '"') := by
      intro hquote
      obtain ⟨tail, htail⟩ := List.head?_eq_some_iff.1 hquote
      rw [htail] at hc
      nomatch hc
    rw [htext]
    unfold characters
    rw [if_neg hhead, hc]
    change (characters m (s.flatMap esc ++ byte '"' :: rest)).bind _ = _
    rw [hs]
    rfl

/-- No byte is escaped as nothing. -/
theorem length_le_flatMap {esc : UInt8 → Bytes} {s : Bytes}
    (h : ∀ c ∈ s, ∀ more, character (esc c ++ more) = some ([c], more)) : s.length ≤ (s.flatMap esc).length := by
  induction s with
  | nil => exact Nat.zero_le _
  | cons c s ih =>
    have hne : esc c ≠ [] := by
      intro hnil
      have hc := h c List.mem_cons_self []
      rw [hnil] at hc
      nomatch hc
    have hpos : 0 < (esc c).length := List.length_pos_iff.2 hne
    have hs := ih fun c' hc' => h c' (List.mem_cons_of_mem _ hc')
    rw [List.flatMap_cons, List.length_append, List.length_cons]
    omega

theorem string_quoted {esc : UInt8 → Bytes} {s : Bytes}
    (h : ∀ c ∈ s, ∀ more, character (esc c ++ more) = some ([c], more)) (rest : Bytes) :
    string (quoted (s.flatMap esc) ++ rest) = some (s, rest) := by
  have htext : quoted (s.flatMap esc) ++ rest = byte '"' :: (s.flatMap esc ++ byte '"' :: rest) := by simp [quoted]
  have hle := length_le_flatMap h
  have hstring : string (byte '"' :: (s.flatMap esc ++ byte '"' :: rest)) =
      characters (s.flatMap esc ++ byte '"' :: rest).length (s.flatMap esc ++ byte '"' :: rest) := rfl
  rw [htext, hstring]
  refine characters_flatMap h ?_ rest
  rw [List.length_append, List.length_cons]
  omega

/-- **Unescaping undoes escaping.** -/
theorem unescape_flatMap {esc : UInt8 → Bytes} {s : Bytes}
    (h : ∀ c ∈ s, ∀ more, character (esc c ++ more) = some ([c], more)) : unescape (s.flatMap esc) = some s := by
  have hstring := string_quoted h []
  rw [List.append_nil] at hstring
  unfold unescape
  rw [hstring]

example : unescape (ascii "\\u00e9\\/\\ud83d\\ude00") = some [0xC3, 0xA9, 0x2F, 0xF0, 0x9F, 0x98, 0x80] := by
  decide +kernel

/-- A byte that needs no escape. -/
def plain (c : UInt8) : Bool := 0x20 ≤ c && c != byte '"' && c != byte '\\'

theorem character_plain {c : UInt8} (h : plain c = true) (more : Bytes) : character (c :: more) = some ([c], more) := by
  simp only [plain, Bool.and_eq_true, decide_eq_true_eq, bne_iff_ne] at h
  obtain ⟨⟨hle, hquote⟩, hbackslash⟩ := h
  have hlt : ¬ c < 0x20 := by
    rw [UInt8.not_lt]
    exact hle
  unfold character
  dsimp only
  rw [if_neg (not_or.2 ⟨hquote, hlt⟩), if_pos hbackslash]

theorem value_quote (depth : ℕ) (bs : Bytes) :
    value (depth + 1) (byte '"' :: bs) = (string (byte '"' :: bs)).map fun sr => (.string sr.1, sr.2) := rfl

theorem Reads.string {esc : UInt8 → Bytes} {s : Bytes}
    (h : ∀ c ∈ s, ∀ more, character (esc c ++ more) = some ([c], more)) (depth : ℕ) :
    Reads (value (depth + 1)) (quoted (s.flatMap esc)) (.string s) := by
  intro rest _
  refine ⟨rest, ?_, rfl⟩
  have hstring := string_quoted h rest
  have htext : quoted (s.flatMap esc) ++ rest = byte '"' :: (s.flatMap esc ++ [byte '"'] ++ rest) := rfl
  rw [htext] at hstring ⊢
  rw [value_quote, hstring]
  rfl

/-! ### Literals and numbers -/

theorem Reads.null (depth : ℕ) : Reads (value (depth + 1)) (ascii "null") .null := fun rest _ => ⟨rest, rfl, rfl⟩

theorem Reads.bool (depth : ℕ) (b : Bool) :
    Reads (value (depth + 1)) (ascii (if b then "true" else "false")) (.bool b) := by
  intro rest _
  cases b with
  | true => exact ⟨rest, rfl, rfl⟩
  | false => exact ⟨rest, rfl, rfl⟩

/-- The decimal digits of a number. -/
def decimal (n : ℕ) : Bytes := (Nat.toDigits 10 n).map byte

theorem digitChar_byte {d : ℕ} (h : d < 10) : byte d.digitChar = UInt8.ofNat (48 + d) := by
  interval_cases d <;> rfl

theorem decimal_of_lt {n : ℕ} (h : n < 10) : decimal n = [UInt8.ofNat (48 + n)] := by
  unfold decimal
  rw [Nat.toDigits_of_lt_base h, List.map_singleton, digitChar_byte h]

theorem decimal_of_le {n : ℕ} (h : 10 ≤ n) : decimal n = decimal (n / 10) ++ [UInt8.ofNat (48 + n % 10)] := by
  unfold decimal
  rw [Nat.toDigits_of_base_le (by omega) h, List.map_append, List.map_singleton, digitChar_byte (by omega)]

/-- A property of numbers goes from all but the last digit to all of them. -/
theorem decimal_induction {P : ℕ → Prop} (small : ∀ n < 10, P n) (large : ∀ n, 10 ≤ n → P (n / 10) → P n) (n : ℕ) : P n := by
  induction n using Nat.strong_induction_on with
  | h n ih =>
    by_cases hn : n < 10
    · exact small n hn
    · exact large n (by omega) (ih (n / 10) (by omega))

theorem toNat_digit {d : ℕ} (h : d < 10) : (UInt8.ofNat (48 + d)).toNat = 48 + d := by
  rw [UInt8.toNat_ofNat']
  omega

theorem isDigit_decimal (n : ℕ) : ∀ c ∈ decimal n, isDigit c = true := by
  have hdigit : ∀ d < 10, isDigit (UInt8.ofNat (48 + d)) = true := by decide
  induction n using decimal_induction with
  | small n hn =>
    rw [decimal_of_lt hn]
    exact List.forall_mem_singleton.2 (hdigit n hn)
  | large n hn ih =>
    rw [decimal_of_le hn]
    exact List.forall_mem_append.2 ⟨ih, List.forall_mem_singleton.2 (hdigit _ (by omega))⟩

theorem decimal_ne_nil (n : ℕ) : decimal n ≠ [] := by
  unfold decimal
  simp [Nat.toDigits_ne_nil]

/-- Only zero begins with a zero. -/
theorem head?_decimal (n : ℕ) : (decimal n).head? = some (byte '0') → n = 0 := by
  induction n using decimal_induction with
  | small n hn =>
    rw [decimal_of_lt hn]
    intro h
    have heq : (UInt8.ofNat (48 + n)).toNat = 48 := congrArg UInt8.toNat (Option.some.inj h)
    rw [toNat_digit hn] at heq
    omega
  | large n hn ih =>
    rw [decimal_of_le hn, List.head?_append_of_ne_nil _ (decimal_ne_nil _)]
    intro h
    have := ih h
    omega

theorem digits_decimal (n : ℕ) : digits (decimal n) = n := by
  unfold digits
  induction n using decimal_induction with
  | small n hn =>
    rw [decimal_of_lt hn, List.map_singleton, numeral_singleton, toNat_digit hn]
    omega
  | large n hn ih =>
    rw [decimal_of_le hn, List.map_append, List.map_singleton, numeral_snoc, ih, toNat_digit (by omega)]
    omega

/-- A number without sign, fraction and exponent. -/
theorem number_decimal (n : ℕ) {rest : Bytes} (hrest : Ends rest) :
    number (decimal n ++ rest) = some (⟨n, 0⟩, rest) := by
  have hstop : rest.takeWhile isDigit = [] ∧ rest.dropWhile isDigit = rest := by
    cases rest with
    | nil => exact ⟨rfl, rfl⟩
    | cons c rest =>
      have hc := (hrest c rfl).1
      exact ⟨List.takeWhile_cons_of_neg (by simp [hc]), List.dropWhile_cons_of_neg (by simp [hc])⟩
  have htake : (decimal n ++ rest).takeWhile isDigit = decimal n := by
    rw [List.takeWhile_append_of_pos (isDigit_decimal n), hstop.1, List.append_nil]
  have hdrop : (decimal n ++ rest).dropWhile isDigit = rest := by
    rw [List.dropWhile_append_of_pos (isDigit_decimal n), hstop.2]
  have hminus : (decimal n ++ rest).head? ≠ some (byte '-') := by
    rw [List.head?_append_of_ne_nil _ (decimal_ne_nil n)]
    intro h
    have hdigit := isDigit_decimal n _ (List.mem_of_head? h)
    nomatch hdigit
  have hzero : ¬ (decimal n = [] ∨ ((decimal n).head? = some (byte '0') ∧ (decimal n).length > 1)) := by
    rintro (h | ⟨h, hlen⟩)
    · exact decimal_ne_nil n h
    · rw [head?_decimal n h] at hlen
      nomatch hlen
  have hfraction : fraction rest = some ([], rest) := by
    unfold fraction
    exact if_neg fun h => (hrest _ h).2.1 rfl
  have hexponent : exponent rest = some (0, rest) := by
    unfold exponent
    exact if_neg fun h => h.elim (fun h => (hrest _ h).2.2.1 rfl) fun h => (hrest _ h).2.2.2 rfl
  unfold number
  simp only [hminus, if_false, htake, hdrop, hzero, hfraction]
  change (exponent rest).bind _ = _
  rw [hexponent]
  simp [digits_decimal]

/-- What begins with a digit is a number. -/
theorem value_digit (depth : ℕ) {c : UInt8} (hc : isDigit c = true) (bs : Bytes) :
    value (depth + 1) (c :: bs) = (number (c :: bs)).map fun nr => (.number nr.1, nr.2) := by
  have hne : ∀ d : UInt8, isDigit d = false → c ≠ d := by
    rintro d hd rfl
    rw [hc] at hd
    nomatch hd
  have hspace : isSpace c = false := by
    unfold isSpace
    simp [hne (byte ' ') rfl, hne (byte '\t') rfl, hne (byte '\n') rfl, hne (byte '\r') rfl]
  unfold value
  rw [skipSpace_cons hspace]
  dsimp only
  rw [if_neg (hne _ rfl), if_neg (hne _ rfl), if_neg (hne _ rfl), if_neg (hne _ rfl), if_neg (hne _ rfl),
    if_neg (hne _ rfl)]

theorem Reads.number (depth n : ℕ) : Reads (value (depth + 1)) (decimal n) (.number ⟨n, 0⟩) := by
  intro rest hrest
  refine ⟨rest, ?_, rfl⟩
  obtain ⟨c, ds, hds⟩ := List.exists_cons_of_ne_nil (decimal_ne_nil n)
  have hc : isDigit c = true := isDigit_decimal n c (hds ▸ List.mem_cons_self)
  have hnumber := number_decimal n hrest
  rw [hds] at hnumber ⊢
  rw [List.cons_append] at hnumber ⊢
  rw [value_digit depth hc, hnumber]
  rfl

/-! ### Objects and arrays -/

/-- A bracket that closes is no white space, no comma and no part of a number. -/
structure Closes (close : UInt8) : Prop where
  space : isSpace close = false
  comma : close ≠ byte ','
  ends : ∀ rest, Ends (close :: rest)

theorem closes_brace : Closes (byte '\x7d') :=
  ⟨by decide, by decide, fun _ c hc => by cases hc; decide⟩

theorem closes_bracket : Closes (byte ']') :=
  ⟨by decide, by decide, fun _ c hc => by cases hc; decide⟩

theorem ends_comma (rest : Bytes) : Ends (byte ',' :: rest) := by
  intro c hc
  cases hc
  decide

/-- Items with commas between them. -/
def commas (texts : List Bytes) : Bytes := List.intercalate [byte ','] texts

theorem items_commas {item : Bytes → Option (α × Bytes)} {close : UInt8} (hclose : Closes close) {texts : List Bytes}
    {as : List α} (h : List.Forall₂ (Reads item) texts as) (hne : texts ≠ []) {n : ℕ} (hn : texts.length ≤ n)
    {ws : Bytes} (hws : Blank ws) (rest : Bytes) :
    items item close n (commas texts ++ (ws ++ close :: rest)) = some (as, rest) := by
  induction h generalizing n with
  | nil => exact absurd rfl hne
  | @cons t a texts as ht hrest ih =>
    rw [List.length_cons] at hn
    obtain ⟨m, rfl⟩ : ∃ m, n = m + 1 := ⟨n - 1, by omega⟩
    cases texts with
    | nil =>
      cases hrest
      obtain ⟨rest', hitem, hskip⟩ := ht (ws ++ close :: rest) ((hclose.ends rest).blank hws)
      rw [skipSpace_blank hws, skipSpace_cons hclose.space] at hskip
      have htext : commas [t] = t := List.intercalate_singleton
      rw [htext]
      unfold items
      rw [hitem]
      change (match skipSpace rest' with | [] => _ | c :: bs => _) = _
      rw [hskip]
      exact if_pos rfl
    | cons t' texts =>
      have htext : commas (t :: t' :: texts) ++ (ws ++ close :: rest) =
          t ++ byte ',' :: (commas (t' :: texts) ++ (ws ++ close :: rest)) := by
        simp [commas, List.intercalate_cons_cons]
      obtain ⟨rest', hitem, hskip⟩ := ht (byte ',' :: (commas (t' :: texts) ++ (ws ++ close :: rest))) (ends_comma _)
      have hrec := ih (List.cons_ne_nil _ _) (n := m) (by omega)
      rw [skipSpace_cons (by decide)] at hskip
      rw [htext]
      unfold items
      rw [hitem]
      change (match skipSpace rest' with | [] => _ | c :: bs => _) = _
      rw [hskip]
      dsimp only
      rw [if_neg hclose.comma.symm, if_pos rfl, hrec]
      rfl

theorem length_le_commas (texts : List Bytes) : texts.length ≤ (commas texts).length + 1 := by
  induction texts with
  | nil => exact Nat.zero_le _
  | cons t texts ih =>
    cases texts with
    | nil => simp
    | cons t' texts =>
      have htext : commas (t :: t' :: texts) = t ++ byte ',' :: commas (t' :: texts) := by
        simp [commas, List.intercalate_cons_cons]
      rw [htext]
      simp only [List.length_append, List.length_cons] at ih ⊢
      omega

/-- The items of an object or an array; no item begins with the bracket that closes it. -/
theorem collection_commas {item : Bytes → Option (α × Bytes)} {close : UInt8} (hclose : Closes close)
    (hitem : ∀ bs, (skipSpace bs).head? = some close → item bs = none) {texts : List Bytes} {as : List α}
    (h : List.Forall₂ (Reads item) texts as) {ws : Bytes} (hws : Blank ws) (rest : Bytes) :
    collection item close (commas texts ++ (ws ++ close :: rest)) = some (as, rest) := by
  unfold collection
  cases h with
  | nil =>
    have hskip : skipSpace (commas [] ++ (ws ++ close :: rest)) = close :: rest :=
      (skipSpace_blank hws _).trans (skipSpace_cons hclose.space rest)
    rw [hskip]
    exact if_pos rfl
  | @cons t a texts as ht hrest =>
    have hall : List.Forall₂ (Reads item) (t :: texts) (a :: as) := .cons ht hrest
    have hlength : (t :: texts).length ≤ (commas (t :: texts) ++ (ws ++ close :: rest)).length := by
      have hle := length_le_commas (t :: texts)
      simp only [List.length_append, List.length_cons] at hle ⊢
      omega
    have hitems := items_commas hclose hall (List.cons_ne_nil _ _) hlength hws rest
    rw [if_neg]
    · exact hitems
    · -- the first item would not be read
      intro hhead
      have hnone := hitem _ hhead
      obtain ⟨n, hn⟩ : ∃ n, (commas (t :: texts) ++ (ws ++ close :: rest)).length = n + 1 :=
        Nat.exists_eq_succ_of_ne_zero (by simp)
      rw [hn] at hitems
      unfold items at hitems
      rw [hnone] at hitems
      nomatch hitems

/-- No value begins with a bracket that closes. -/
theorem value_closes {close : UInt8} (h : close = byte '\x7d' ∨ close = byte ']') (depth : ℕ) {bs : Bytes}
    (hhead : (skipSpace bs).head? = some close) : value depth bs = none := by
  cases depth with
  | zero => rfl
  | succ depth =>
    obtain ⟨tail, htail⟩ := List.head?_eq_some_iff.1 hhead
    unfold value
    rw [htail]
    rcases h with rfl | rfl
    · rfl
    · rfl

theorem member_closes {p : Bytes → Option (Value × Bytes)} {bs : Bytes}
    (hhead : (skipSpace bs).head? = some (byte '\x7d')) : member p bs = none := by
  obtain ⟨tail, htail⟩ := List.head?_eq_some_iff.1 hhead
  unfold member
  rw [htail]
  rfl

/-- A member: white space, the name, a colon and the value. -/
theorem Reads.member {esc : UInt8 → Bytes} {name : Bytes}
    (hname : ∀ c ∈ name, ∀ more, character (esc c ++ more) = some ([c], more)) {p : Bytes → Option (Value × Bytes)}
    {bs : Bytes} {v : Value} (h : Reads p bs v) {ws : Bytes} (hws : Blank ws) :
    Reads (member p) (ws ++ quoted (name.flatMap esc) ++ byte ':' :: bs) (name, v) := by
  intro rest hrest
  obtain ⟨rest', hp, hskip⟩ := h rest hrest
  refine ⟨rest', ?_, hskip⟩
  have htext : ws ++ quoted (name.flatMap esc) ++ byte ':' :: bs ++ rest =
      ws ++ (quoted (name.flatMap esc) ++ byte ':' :: (bs ++ rest)) := by simp
  have hspace : skipSpace (ws ++ (quoted (name.flatMap esc) ++ byte ':' :: (bs ++ rest))) =
      quoted (name.flatMap esc) ++ byte ':' :: (bs ++ rest) := skipSpace_blank hws _
  rw [htext]
  unfold Json.member
  rw [hspace, string_quoted hname]
  change (if byte ':' = byte ':' then (p (bs ++ rest)).map _ else none) = _
  rw [if_pos rfl, hp]
  rfl

theorem value_brace (depth : ℕ) (bs : Bytes) : value (depth + 1) (byte '\x7b' :: bs) =
    (collection (member (value depth)) (byte '\x7d') bs).map fun mr => (.object mr.1, mr.2) := rfl

theorem value_bracket (depth : ℕ) (bs : Bytes) : value (depth + 1) (byte '[' :: bs) =
    (collection (value depth) (byte ']') bs).map fun vr => (.array vr.1, vr.2) := rfl

theorem Reads.object {depth : ℕ} {texts : List Bytes} {ms : List (Bytes × Value)}
    (h : List.Forall₂ (Reads (Json.member (value depth))) texts ms) {ws : Bytes} (hws : Blank ws) :
    Reads (value (depth + 1)) (byte '\x7b' :: commas texts ++ ws ++ [byte '\x7d']) (.object ms) := by
  intro rest _
  refine ⟨rest, ?_, rfl⟩
  have hcollection := collection_commas closes_brace (fun _ => member_closes) h hws rest
  have htext : byte '\x7b' :: commas texts ++ ws ++ [byte '\x7d'] ++ rest =
      byte '\x7b' :: (commas texts ++ (ws ++ byte '\x7d' :: rest)) := by simp
  rw [htext, value_brace, hcollection]
  rfl

theorem Reads.array {depth : ℕ} {texts : List Bytes} {vs : List Value}
    (h : List.Forall₂ (Reads (value depth)) texts vs) {ws : Bytes} (hws : Blank ws) :
    Reads (value (depth + 1)) (byte '[' :: commas texts ++ ws ++ [byte ']']) (.array vs) := by
  intro rest _
  refine ⟨rest, ?_, rfl⟩
  have hcollection := collection_commas closes_bracket (fun _ => value_closes (.inr rfl) depth) h hws rest
  have htext : byte '[' :: commas texts ++ ws ++ [byte ']'] ++ rest =
      byte '[' :: (commas texts ++ (ws ++ byte ']' :: rest)) := by simp
  rw [htext, value_bracket, hcollection]
  rfl

end Json
