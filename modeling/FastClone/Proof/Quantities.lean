import Mathlib.Data.List.TakeWhile
import FastClone.Proof.Endpoint
import FastClone.Spec.Quantities

/-!
# What the strict parsers accept

`parse_iff`: a parser accepts exactly what `std::stoull` reads behind white space and a sign. So it is strict
exactly on the texts that begin with neither, and on those where nothing is read behind them
(`strict_iff`). `-1` is accepted as the largest size there is (`strict_minus_one`).
-/

namespace FastClone.Quantities

open FastClone.Endpoint FastClone.Durations

/-! ### Units -/

/-- No unit begins with a digit, and none is 0. -/
structure Units (units : Text → Option ℕ) : Prop where
  letter : ∀ c rest, c.isDigit = true → units (c :: rest) = none
  pos : ∀ suffix multiplier, units suffix = some multiplier → 0 < multiplier

theorem unitBytes_units : Units unitBytes := by
  constructor
  · intro c rest hc
    have hne : ∀ d : Char, d.isDigit = false → c ≠ d := by
      rintro d hd rfl
      rw [hc] at hd
      nomatch hd
    simp [unitBytes, hne 'b' rfl, hne 'k' rfl, hne 'm' rfl, hne 'g' rfl]
  · intro suffix multiplier h
    unfold unitBytes at h
    split_ifs at h <;> simp only [Option.some.injEq] at h <;> omega

theorem unitMs_units : Units unitMs := by
  constructor
  · intro c rest hc
    have hne : ∀ d : Char, d.isDigit = false → c ≠ d := by
      rintro d hd rfl
      rw [hc] at hd
      nomatch hd
    simp [unitMs, hne 's' rfl, hne 'm' rfl, hne 'h' rfl]
  · intro suffix multiplier h
    unfold unitMs at h
    split_ifs at h <;> simp only [Option.some.injEq] at h <;> omega

/-- A digit is its own lower case. -/
theorem toLower_of_isDigit {c : Char} (hc : c.isDigit = true) : c.toLower = c := by
  have hle : c.val.toNat ≤ 57 := toNat_le_of_isDigit hc
  have hupper : ¬ (c.val ≥ 'A'.val ∧ c.val ≤ 'Z'.val) := by
    rintro ⟨hge, -⟩
    have : 65 ≤ c.val.toNat := UInt32.le_iff_toNat_le.1 hge
    omega
  unfold Char.toLower
  rw [dif_neg hupper]

variable {units : Text → Option ℕ}

/-- A suffix does not go on with the number. -/
theorem Units.suffix (hu : Units units) {suffix : Text} {multiplier : ℕ}
    (h : units (suffix.map Char.toLower) = some multiplier) :
    suffix.takeWhile Char.isDigit = [] ∧ suffix.dropWhile Char.isDigit = suffix := by
  cases suffix with
  | nil => exact ⟨rfl, rfl⟩
  | cons c rest =>
    have hc : ¬ c.isDigit = true := by
      intro hc
      rw [List.map_cons, toLower_of_isDigit hc, hu.letter c _ hc] at h
      nomatch h
    exact ⟨List.takeWhile_cons_of_neg hc, List.dropWhile_cons_of_neg hc⟩

/-- Where the number ends. -/
theorem Units.split (hu : Units units) {digits suffix : Text} {multiplier : ℕ}
    (hdigits : ∀ c ∈ digits, c.isDigit = true) (h : units (suffix.map Char.toLower) = some multiplier) :
    (digits ++ suffix).takeWhile Char.isDigit = digits ∧ (digits ++ suffix).dropWhile Char.isDigit = suffix := by
  obtain ⟨htake, hdrop⟩ := hu.suffix h
  rw [List.takeWhile_append_of_pos hdigits, List.dropWhile_append_of_pos hdigits, htake, hdrop, List.append_nil]
  exact ⟨rfl, rfl⟩

/-! ### What is read -/

theorem stoull_eq_some {value : Text} {base : ℕ} {rest : Text} : stoull value = some (base, rest) ↔
    (unsigned value).2.takeWhile Char.isDigit ≠ [] ∧
      Nat.ofDigitChars 10 ((unsigned value).2.takeWhile Char.isDigit) 0 < 2 ^ 64 ∧
      base = negated (unsigned value).1 (Nat.ofDigitChars 10 ((unsigned value).2.takeWhile Char.isDigit) 0) ∧
      rest = (unsigned value).2.dropWhile Char.isDigit := by
  unfold stoull unsigned negated
  dsimp only
  by_cases hnone : (takeSign (value.dropWhile isSpace)).2.takeWhile Char.isDigit = []
  · rw [if_pos hnone]
    simp [hnone]
  rw [if_neg hnone]
  by_cases hlarge : Nat.ofDigitChars 10 ((takeSign (value.dropWhile isSpace)).2.takeWhile Char.isDigit) 0 > uint64Max
  · have hnot : ¬ Nat.ofDigitChars 10 ((takeSign (value.dropWhile isSpace)).2.takeWhile Char.isDigit) 0 < 2 ^ 64 := by
      unfold uint64Max at hlarge
      omega
    rw [if_pos hlarge]
    constructor
    · intro h
      nomatch h
    · rintro ⟨-, hlt, -⟩
      exact absurd hlt hnot
  · have hfits : Nat.ofDigitChars 10 ((takeSign (value.dropWhile isSpace)).2.takeWhile Char.isDigit) 0 < 2 ^ 64 := by
      unfold uint64Max at hlarge
      omega
    rw [if_neg hlarge, Option.some.injEq, Prod.mk.injEq]
    exact ⟨fun h => ⟨hnone, hfits, h.1.symm, h.2.symm⟩, fun h => ⟨h.2.2.1.symm, h.2.2.2.symm⟩⟩

/-- A parser accepts with `v` exactly what reads so behind white space and a sign. -/
theorem parse_iff (hu : Units units) {expected : String} {value : Text} {name : String} {v : ℕ} :
    parseUnitsStrict units expected value name = .ok v ↔ ReadBehind units value v := by
  unfold parseUnitsStrict
  constructor
  · intro h
    by_cases hempty : value = []
    · rw [if_pos hempty] at h
      nomatch h
    rw [if_neg hempty] at h
    cases hread : stoull value with
    | none =>
      rw [hread] at h
      nomatch h
    | some parsed =>
      obtain ⟨base, rest⟩ := parsed
      rw [hread] at h
      dsimp only at h
      cases hunit : units (rest.map Char.toLower) with
      | none =>
        rw [hunit] at h
        nomatch h
      | some multiplier =>
        rw [hunit] at h
        dsimp only at h
        by_cases hlarge : base > uint64Max / multiplier
        · rw [if_pos hlarge] at h
          nomatch h
        rw [if_neg hlarge] at h
        obtain ⟨hdigits, hfits, rfl, rfl⟩ := stoull_eq_some.1 hread
        -- the check on the number is the bound on the product, since the multiplier is not 0
        have hmul := (Nat.le_div_iff_mul_le (hu.pos _ _ hunit)).1 (not_lt.1 hlarge)
        have hv := Except.ok.inj h
        refine ⟨_, _, multiplier, (List.takeWhile_append_dropWhile).symm, hdigits, ?_, hunit, hfits, hv.symm, ?_⟩
        · intro c hc
          exact List.mem_takeWhile_imp hc
        · unfold uint64Max at hmul
          omega
  · rintro ⟨digits, suffix, multiplier, hbody, hne, hdigits, hunit, hfits, rfl, hlt⟩
    -- no suffix begins with a digit, so the number that is read ends where the digits do
    obtain ⟨htake, hdrop⟩ := hu.split hdigits hunit
    have hempty : value ≠ [] := by
      rintro rfl
      exact hne (List.append_eq_nil_iff.1 hbody.symm).1
    have hread : stoull value =
        some (negated (unsigned value).1 (Nat.ofDigitChars 10 digits 0), suffix) := by
      rw [stoull_eq_some, hbody, htake, hdrop]
      exact ⟨hne, hfits, rfl, rfl⟩
    have hlarge : ¬ negated (unsigned value).1 (Nat.ofDigitChars 10 digits 0) > uint64Max / multiplier := by
      rw [not_lt, Nat.le_div_iff_mul_le (hu.pos _ _ hunit)]
      unfold uint64Max
      omega
    rw [if_neg hempty, hread]
    dsimp only
    rw [hunit]
    exact if_neg hlarge

/-! ### Texts that begin with the number -/

theorem takeSign_length (t : Text) : (takeSign t).2.length + (if (takeSign t).1 then 1 else 0) ≤ t.length := by
  unfold takeSign
  split <;> simp

/-- There is no minus sign before a bare number. -/
theorem unsigned_of_bare {value : Text} (h : Bare value) : unsigned value = (false, value) := by
  have hlen := takeSign_length (value.dropWhile isSpace)
  have hdrop := (List.dropWhile_suffix isSpace (l := value)).length_le
  have hsecond : (takeSign (value.dropWhile isSpace)).2 = value := h
  -- a sign would leave a text shorter than the one there is
  have hfirst : (takeSign (value.dropWhile isSpace)).1 = false := by
    by_contra hminus
    rw [Bool.not_eq_false] at hminus
    rw [hsecond, if_pos hminus] at hlen
    omega
  exact Prod.ext hfirst hsecond

theorem bare_of_isDigit {c : Char} {rest : Text} (hc : c.isDigit = true) : Bare (c :: rest) := by
  have hne : ∀ d : Char, d.isDigit = false → c ≠ d := by
    rintro d hd rfl
    rw [hc] at hd
    nomatch hd
  have hspace : ¬ isSpace c = true := by
    simp [isSpace, hne ' ' rfl, hne '\t' rfl, hne '\n' rfl, hne '\x0b' rfl, hne '\x0c' rfl, hne '\r' rfl]
  unfold Bare unsigned
  rw [List.dropWhile_cons_of_neg hspace]
  unfold takeSign
  split
  · rename_i heq
    exact absurd (List.cons.inj heq).1 (hne '-' rfl)
  · rename_i heq
    exact absurd (List.cons.inj heq).1 (hne '+' rfl)
  · rfl

theorem bare_of_denotes {value : Text} {v : ℕ} (h : Denotes units value v) : Bare value := by
  obtain ⟨digits, suffix, -, rfl, hne, hdigits, -⟩ := h
  cases digits with
  | nil => exact absurd rfl hne
  | cons c rest => exact bare_of_isDigit (hdigits c (List.mem_cons_self ..))

/-- On a bare text nothing but the number and its suffix is read. -/
theorem readBehind_of_bare (hu : Units units) {value : Text} (h : Bare value) (v : ℕ) :
    ReadBehind units value v ↔ Denotes units value v := by
  unfold ReadBehind Denotes
  rw [unsigned_of_bare h]
  constructor
  · rintro ⟨digits, suffix, multiplier, hbody, hne, hdigits, hunit, -, hv, hlt⟩
    exact ⟨digits, suffix, multiplier, hbody, hne, hdigits, hunit, hv, hlt⟩
  · rintro ⟨digits, suffix, multiplier, hbody, hne, hdigits, hunit, hv, hlt⟩
    have hmul := Nat.le_mul_of_pos_right (Nat.ofDigitChars 10 digits 0) (hu.pos _ _ hunit)
    exact ⟨digits, suffix, multiplier, hbody, hne, hdigits, hunit, by omega, hv, hlt⟩

/-- A parser is strict on a text exactly if the text is bare or nothing is read in it. -/
theorem strict_of_units (hu : Units units) (expected : String) (value : Text) (name : String) :
    (∀ v, parseUnitsStrict units expected value name = .ok v ↔ Denotes units value v) ↔
      (Bare value ∨ ∀ v, ¬ ReadBehind units value v) := by
  constructor
  · intro h
    by_cases hbare : Bare value
    · exact .inl hbare
    -- what is accepted is denoted, and what is denoted is bare
    · exact .inr fun v hv => hbare (bare_of_denotes ((h v).1 ((parse_iff hu).2 hv)))
  · rintro (hbare | hnone) v
    · exact (parse_iff hu).trans (readBehind_of_bare hu hbare v)
    · rw [parse_iff hu]
      refine ⟨fun h => absurd h (hnone v), fun h => ?_⟩
      exact (readBehind_of_bare hu (bare_of_denotes h) v).2 h

/-- The parser of durations is the same function. -/
theorem parseDurationMsStrict_eq (value : Text) (name : String) :
    parseDurationMsStrict value name = parseUnitsStrict unitMs "[s|m|h]" value name := by
  have hmessage : "Invalid " ++ name ++ ", expected suffix [s|m|h]" =
      "Invalid " ++ name ++ ", expected suffix " ++ "[s|m|h]" := by
    calc "Invalid " ++ name ++ ", expected suffix [s|m|h]"
        = "Invalid " ++ name ++ (", expected suffix " ++ "[s|m|h]") := rfl
      _ = "Invalid " ++ name ++ ", expected suffix " ++ "[s|m|h]" := String.append_assoc.symm
  unfold parseDurationMsStrict parseUnitsStrict
  by_cases hempty : value = []
  · rw [if_pos hempty, if_pos hempty]
  · rw [if_neg hempty, if_neg hempty]
    cases stoull value with
    | none => rfl
    | some read =>
      dsimp only
      cases unitMs (read.2.map Char.toLower) with
      | none => exact congrArg Except.error hmessage
      | some multiplier => rfl

/-- **Strict sizes and durations**: each parser accepts exactly the digits and suffixes, with their exact product,
on a text that begins with no white space and no sign, or behind which nothing is read; and on no other text. -/
theorem strict_iff (value : Text) (name : String) :
    ((∀ v, parseSizeBytesStrict value name = .ok v ↔ Denotes unitBytes value v) ↔
      (Bare value ∨ ∀ v, ¬ ReadBehind unitBytes value v)) ∧
    ((∀ v, parseDurationMsStrict value name = .ok v ↔ Denotes unitMs value v) ↔
      (Bare value ∨ ∀ v, ¬ ReadBehind unitMs value v)) := by
  constructor
  · exact strict_of_units unitBytes_units "[K|M|G]" value name
  · simp only [parseDurationMsStrict_eq]
    exact strict_of_units unitMs_units "[s|m|h]" value name

/-- Minus one byte is the largest size, and a blank before a duration is skipped. -/
theorem strict_minus_one :
    parseSizeBytesStrict ['-', '1'] "--delta-min-size" = .ok 18446744073709551615 ∧
      parseDurationMsStrict [' ', '5'] "--once-idle-grace" = .ok 5000 ∧
      ¬ ∀ (value : Text) (name : String) (v : ℕ), parseSizeBytesStrict value name = .ok v ↔ Denotes unitBytes value v := by
  have haccepted : parseSizeBytesStrict ['-', '1'] "--delta-min-size" = .ok 18446744073709551615 := by decide +kernel
  refine ⟨haccepted, by decide +kernel, fun h => ?_⟩
  have hdenotes := (h ['-', '1'] "--delta-min-size" 18446744073709551615).1 haccepted
  have hbare : (unsigned ['-', '1']).2 = ['-', '1'] := bare_of_denotes hdenotes
  exact absurd hbare (by decide)

end FastClone.Quantities
