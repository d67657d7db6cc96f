import FastClone.Spec.Report

/-!
# The report is JSON and says what it should

`renderJson_reads`: the text that `renderJson` writes is that of a value (`reportValue`), with the white space and
the separators of every combination of empty and non-empty parts. `readReport_reportValue`: the reader finds in that
value what the result has. Paths are arbitrary bytes (`character_escapeByte`).
-/

namespace FastClone.Report

open FastClone.Delta FastClone.Compare
open FastClone.CheckEngine (DiffEntry FilterSet)
open Json (byte ascii decimal Reads Blank quoted commas character value member)

/-! ### Escapes -/

/-- An escape is read as its byte. -/
theorem character_escapeByte (c : UInt8) (more : Bytes) : character (escapeByte c ++ more) = some ([c], more) := by
  by_cases hquote : c = byte '"'
  · subst hquote
    rfl
  by_cases hbackslash : c = byte '\\'
  · subst hbackslash
    rfl
  by_cases hlt : c < 0x20
  · -- a control character has a short escape or a `\u` with its two digits
    obtain ⟨n, hn, rfl⟩ : ∃ n < 32, c = UInt8.ofNat n :=
      ⟨c.toNat, UInt8.lt_iff_toNat_lt.1 hlt, UInt8.ofNat_toNat.symm⟩
    interval_cases n <;> rfl
  · have hplain : Json.plain c = true := by
      simp only [Json.plain, Bool.and_eq_true, decide_eq_true_eq, bne_iff_ne]
      exact ⟨⟨UInt8.not_lt.1 hlt, hquote⟩, hbackslash⟩
    have hne : ∀ d : UInt8, d < 0x20 → c ≠ d := fun d hd heq => hlt (heq ▸ hd)
    have hescape : escapeByte c = [c] := by
      unfold escapeByte
      rw [if_neg hquote, if_neg hbackslash, if_neg (hne _ (by decide)), if_neg (hne _ (by decide)),
        if_neg (hne _ (by decide)), if_neg hlt]
    rw [hescape]
    exact Json.character_plain hplain more

/-- **Unescaping gives the path back.** -/
theorem unescape_jsonEscape (s : Bytes) : Json.unescape (jsonEscape s) = some s :=
  Json.unescape_flatMap fun c _ => character_escapeByte c

/-! ### Fields -/

/-- A field as it is written. -/
def fieldText (ws : Bytes) (name : String) (text : Bytes) : Bytes :=
  ws ++ quoted (ascii name) ++ byte ':' :: (ascii " " ++ text)

theorem blank_space : Blank (ascii " ") := by decide

/-- A text without escapes. -/
theorem character_ascii {s : String} (h : (ascii s).all Json.plain = true) :
    ∀ c ∈ ascii s, ∀ more, character ([c] ++ more) = some ([c], more) :=
  fun c hc => Json.character_plain (List.all_eq_true.1 h c hc)

theorem reads_plain {s : String} (h : (ascii s).all Json.plain = true) (depth : ℕ) :
    Reads (value (depth + 1)) (quoted (ascii s)) (.string (ascii s)) := by
  have hread := @Reads.string (fun c => [c]) (ascii s) (character_ascii h) depth
  rwa [List.flatMap_singleton'] at hread

theorem reads_field {depth : ℕ} {ws text : Bytes} {name : String} {v : Json.Value} (hws : Blank ws)
    (hname : (ascii name).all Json.plain = true) (h : Reads (value depth) text v) :
    Reads (member (value depth)) (fieldText ws name text) (ascii name, v) := by
  have hread := @Reads.member (fun c => [c]) (ascii name) (character_ascii hname) _ _ _ (h.lead blank_space) _ hws
  rwa [List.flatMap_singleton'] at hread

/-! ### Entries -/

def sizeValue : Option UInt64 → Json.Value
  | some n => .number ⟨n.toNat, 0⟩
  | none => .null

/-- An entry as a value. -/
def entryValue (e : DiffEntry) : Json.Value := .object [
  (ascii "type", .string (ascii (categoryJson e.type))),
  (ascii "path", .string e.path),
  (ascii "local_size", sizeValue e.localSize),
  (ascii "remote_size", sizeValue e.remoteSize),
  (ascii "hash_compared", .bool e.hashCompared)]

theorem reads_size (size : Option UInt64) (depth : ℕ) :
    Reads (value (depth + 1)) (sizeJson size) (sizeValue size) := by
  cases size with
  | none => exact Reads.null depth
  | some n => exact Reads.number depth n.toNat

theorem plain_categoryJson (cat : CompareCategory) : (ascii (categoryJson cat)).all Json.plain = true := by
  cases cat <;> decide

theorem reads_path (s : Bytes) (depth : ℕ) : Reads (value (depth + 1)) (quoted (jsonEscape s)) (.string s) :=
  Reads.string (fun c _ => character_escapeByte c) depth

/-- The fields of an entry. -/
def entryFields (e : DiffEntry) : List Bytes := [
  fieldText [] "type" (quoted (ascii (categoryJson e.type))),
  fieldText (ascii " ") "path" (quoted (jsonEscape e.path)),
  fieldText (ascii " ") "local_size" (sizeJson e.localSize),
  fieldText (ascii " ") "remote_size" (sizeJson e.remoteSize),
  fieldText (ascii " ") "hash_compared" (ascii (if e.hashCompared then "true" else "false"))]

theorem entryJson_eq (e : DiffEntry) :
    entryJson e = ascii "    " ++ (byte '\x7b' :: commas (entryFields e) ++ [] ++ [byte '\x7d']) := by
  simp only [entryJson, entryFields, fieldText, quoted, commas, List.intercalate_cons_cons, List.intercalate_singleton,
    List.append_assoc, List.cons_append, List.nil_append]
  rfl

theorem reads_entry (e : DiffEntry) (depth : ℕ) : Reads (value (depth + 2)) (entryJson e) (entryValue e) := by
  rw [entryJson_eq]
  refine Reads.lead (Reads.object ?_ (List.forall_mem_nil _)) (by decide)
  refine .cons (reads_field (List.forall_mem_nil _) (by decide) (reads_plain (plain_categoryJson e.type) depth)) ?_
  refine .cons (reads_field blank_space (by decide) (reads_path e.path depth)) ?_
  refine .cons (reads_field blank_space (by decide) (reads_size e.localSize depth)) ?_
  refine .cons (reads_field blank_space (by decide) (reads_size e.remoteSize depth)) ?_
  exact .cons (reads_field blank_space (by decide) (Reads.bool depth e.hashCompared)) .nil

/-! ### The listing -/

/-- The entries that the filter selects. -/
def selected (f : FilterSet) (entries : List DiffEntry) : List DiffEntry :=
  entries.filter fun e => passesFilter e.type f

/-- An entry in the listing, on a line of its own. -/
def entryLine (e : DiffEntry) : Bytes := ascii "\n" ++ entryJson e

/-- Behind the first entry every other one has a comma in front. -/
theorem listing_rest (f : FilterSet) (entries : List DiffEntry) (out : Bytes) :
    entries.foldl (listEntry f) (out, false) =
      (out ++ (selected f entries).flatMap (fun e => byte ',' :: entryLine e), false) := by
  induction entries generalizing out with
  | nil => simp [selected]
  | cons e entries ih =>
    rw [List.foldl_cons]
    by_cases hpass : passesFilter e.type f = true
    · have hstep : listEntry f (out, false) e = (out ++ byte ',' :: entryLine e, false) := by
        have htext : out ++ ascii ",\n" ++ entryJson e = out ++ byte ',' :: entryLine e := by
          rw [List.append_assoc]
          rfl
        simp [listEntry, hpass, htext]
      have hselected : selected f (e :: entries) = e :: selected f entries := List.filter_cons_of_pos hpass
      rw [hstep, ih, hselected]
      simp
    · have hstep : listEntry f (out, false) e = (out, false) := by simp [listEntry, hpass]
      have hselected : selected f (e :: entries) = selected f entries := List.filter_cons_of_neg hpass
      rw [hstep, ih, hselected]

theorem commas_cons (t : Bytes) (ts : List Bytes) : commas (t :: ts) = t ++ ts.flatMap fun t => byte ',' :: t := by
  induction ts generalizing t with
  | nil => simp [commas]
  | cons t' ts ih =>
    have hcons : commas (t :: t' :: ts) = t ++ byte ',' :: commas (t' :: ts) := by
      simp [commas, List.intercalate_cons_cons]
    rw [hcons, ih]
    simp

/-- **The loop.** It writes the selected entries with commas between them, and `first` says whether there are none. -/
theorem listing_eq (f : FilterSet) (entries : List DiffEntry) :
    entries.foldl (listEntry f) ([], true) =
      (commas ((selected f entries).map entryLine), decide (selected f entries = [])) := by
  induction entries with
  | nil => rfl
  | cons e entries ih =>
    rw [List.foldl_cons]
    by_cases hpass : passesFilter e.type f = true
    · have hstep : listEntry f ([], true) e = (entryLine e, false) := by simp [listEntry, hpass, entryLine]
      have hselected : selected f (e :: entries) = e :: selected f entries := List.filter_cons_of_pos hpass
      rw [hstep, listing_rest, hselected, List.map_cons, commas_cons, List.flatMap_map]
      rfl
    · have hstep : listEntry f ([], true) e = ([], true) := by simp [listEntry, hpass]
      have hselected : selected f (e :: entries) = selected f entries := List.filter_cons_of_neg hpass
      rw [hstep, ih, hselected]

/-- The entries that a report lists. -/
def listed (r : CheckResult) (f : FilterSet) (summaryOnly : Bool) : List DiffEntry :=
  if summaryOnly then [] else selected f r.entries

/-- The listing, from its opening bracket to its closing one. -/
def listingText (es : List DiffEntry) : Bytes :=
  byte '[' :: commas (es.map entryLine) ++ (if es = [] then [] else ascii "\n  ") ++ [byte ']']

theorem reads_listing (es : List DiffEntry) (depth : ℕ) :
    Reads (value (depth + 3)) (listingText es) (.array (es.map entryValue)) := by
  unfold listingText
  apply Reads.array
  · induction es with
    | nil => exact .nil
    | cons e es ih => exact .cons ((reads_entry e depth).lead (by decide)) ih
  · split
    · exact List.forall_mem_nil _
    · decide

/-! ### The whole text -/

theorem plain_modeString (mode : CompareMode) : (ascii (modeString mode)).all Json.plain = true := by
  cases mode <;> decide

/-- The fields of the summary. -/
def summaryFields (r : CheckResult) : List Bytes := [
  fieldText (ascii "\n    ") "same" (decimal r.counters.same.toNat),
  fieldText (ascii "\n    ") "diff" (decimal r.counters.diff.toNat),
  fieldText (ascii "\n    ") "missing" (decimal r.counters.missing.toNat),
  fieldText (ascii "\n    ") "extra_local" (decimal r.counters.extraLocal.toNat),
  fieldText (ascii "\n    ") "total_compared" (decimal r.counters.totalCompared.toNat),
  fieldText (ascii "\n    ") "mode" (quoted (ascii (modeString r.mode))),
  fieldText (ascii "\n    ") "duration_ms" (decimal r.durationMs.toNat),
  fieldText (ascii "\n    ") "partial" (ascii (if r.partialRun then "true" else "false"))]

def summaryText (r : CheckResult) : Bytes :=
  byte '\x7b' :: commas (summaryFields r) ++ ascii "\n  " ++ [byte '\x7d']

def summaryValue (r : CheckResult) : Json.Value := .object [
  (ascii "same", .number ⟨r.counters.same.toNat, 0⟩),
  (ascii "diff", .number ⟨r.counters.diff.toNat, 0⟩),
  (ascii "missing", .number ⟨r.counters.missing.toNat, 0⟩),
  (ascii "extra_local", .number ⟨r.counters.extraLocal.toNat, 0⟩),
  (ascii "total_compared", .number ⟨r.counters.totalCompared.toNat, 0⟩),
  (ascii "mode", .string (ascii (modeString r.mode))),
  (ascii "duration_ms", .number ⟨r.durationMs.toNat, 0⟩),
  (ascii "partial", .bool r.partialRun)]

/-- A report as a value. -/
def reportValue (r : CheckResult) (es : List DiffEntry) : Json.Value :=
  .object [(ascii "summary", summaryValue r), (ascii "differences", .array (es.map entryValue))]

theorem blank_line : Blank (ascii "\n    ") := by decide

theorem reads_summary (r : CheckResult) (depth : ℕ) :
    Reads (value (depth + 2)) (summaryText r) (summaryValue r) := by
  refine Reads.object ?_ (by decide)
  have hnumber : ∀ {name : String} (n : ℕ), (ascii name).all Json.plain = true →
      Reads (member (value (depth + 1))) (fieldText (ascii "\n    ") name (decimal n)) (ascii name, .number ⟨n, 0⟩) :=
    fun n hname => reads_field blank_line hname (Reads.number depth n)
  refine .cons (hnumber _ (by decide)) ?_
  refine .cons (hnumber _ (by decide)) ?_
  refine .cons (hnumber _ (by decide)) ?_
  refine .cons (hnumber _ (by decide)) ?_
  refine .cons (hnumber _ (by decide)) ?_
  refine .cons (reads_field blank_line (by decide) (reads_plain (plain_modeString r.mode) depth)) ?_
  refine .cons (hnumber _ (by decide)) ?_
  exact .cons (reads_field blank_line (by decide) (Reads.bool depth r.partialRun)) .nil

/-- The text of a report: the summary, the listing and an end of line. -/
def reportText (r : CheckResult) (es : List DiffEntry) : Bytes :=
  byte '\x7b' :: commas [fieldText (ascii "\n  ") "summary" (summaryText r),
    fieldText (ascii "\n  ") "differences" (listingText es)] ++ ascii "\n" ++ [byte '\x7d'] ++ ascii "\n"

theorem reads_report (r : CheckResult) (es : List DiffEntry) (depth : ℕ) :
    Reads (value (depth + 4)) (reportText r es) (reportValue r es) := by
  refine Reads.trail (Reads.object ?_ (by decide)) (by decide)
  refine .cons (reads_field (by decide) (by decide) (reads_summary r (depth + 1))) ?_
  exact .cons (reads_field (by decide) (by decide) (reads_listing es depth)) .nil

set_option maxRecDepth 4000 in
theorem renderJson_eq (r : CheckResult) (f : FilterSet) (summaryOnly : Bool) :
    renderJson r f summaryOnly = reportText r (listed r f summaryOnly) := by
  have hlisting : (if summaryOnly then ([], true) else r.entries.foldl (listEntry f) ([], true)) =
      (commas ((listed r f summaryOnly).map entryLine), decide (listed r f summaryOnly = [])) := by
    unfold listed
    cases summaryOnly with
    | true => rfl
    | false => exact listing_eq f r.entries
  unfold renderJson
  rw [hlisting]
  generalize listed r f summaryOnly = es
  have hclose : ascii (if decide (es = []) = true then "]\n" else "\n  ]\n") =
      (if es = [] then [] else ascii "\n  ") ++ ascii "]\n" := by
    by_cases hes : es = []
    · simp [hes]
    · simp only [hes, decide_false, Bool.false_eq_true, if_false]
      rfl
  dsimp only
  rw [hclose]
  unfold reportText listingText
  generalize commas (es.map entryLine) = lines
  simp only [summaryText, summaryFields, fieldText, quoted, commas, List.intercalate_cons_cons,
    List.intercalate_singleton, List.append_assoc, List.cons_append, List.nil_append]
  rfl

/-- **`RenderJson` writes JSON.** -/
theorem parse_renderJson (r : CheckResult) (f : FilterSet) (summaryOnly : Bool) :
    Json.parse (renderJson r f summaryOnly) = some (reportValue r (listed r f summaryOnly)) := by
  rw [renderJson_eq]
  apply Json.parse_of_reads
  -- the brackets of the text alone are more than it is deep
  obtain ⟨depth, hdepth⟩ : ∃ depth, (reportText r (listed r f summaryOnly)).length + 1 = depth + 4 := by
    refine ⟨(reportText r (listed r f summaryOnly)).length - 3, ?_⟩
    have hlength : 3 ≤ (reportText r (listed r f summaryOnly)).length := by
      simp [reportText, ascii]
    omega
  rw [hdepth]
  exact reads_report r _ depth

/-! ### Reading it back -/

/-- A field that stands in front. -/
theorem fieldOf_head (name : String) (v : Json.Value) (ms : List (Bytes × Json.Value)) :
    fieldOf name (.object ((ascii name, v) :: ms)) = some v := by
  simp [fieldOf]

/-- A field of another name is passed over. -/
theorem fieldOf_tail {name other : String} (h : ascii other ≠ ascii name) (v : Json.Value)
    (ms : List (Bytes × Json.Value)) : fieldOf name (.object ((ascii other, v) :: ms)) = fieldOf name (.object ms) := by
  simp [fieldOf, h]

theorem uint64Of_toNat (n : UInt64) : uint64Of (.number ⟨n.toNat, 0⟩) = some n := by
  have hlt : n.toNat < 2 ^ 64 := n.toNat_lt
  have hrange : (0 : ℤ) = 0 ∧ (0 : ℤ) ≤ (n.toNat : ℤ) ∧ (n.toNat : ℤ) < 2 ^ 64 := ⟨rfl, by omega, by omega⟩
  unfold uint64Of
  dsimp only
  rw [if_pos hrange, Int.toNat_natCast, UInt64.ofNat_toNat]

theorem bind_uint64Of (n : UInt64) : (some (Json.Value.number ⟨n.toNat, 0⟩)).bind uint64Of = some n := by
  rw [Option.bind_some, uint64Of_toNat]

theorem sizeOf_sizeValue (size : Option UInt64) : sizeOf? (sizeValue size) = some size := by
  cases size with
  | none => rfl
  | some n =>
    change (uint64Of (.number ⟨n.toNat, 0⟩)).map some = _
    rw [uint64Of_toNat]
    rfl

theorem categoryOf_categoryJson (cat : CompareCategory) :
    categoryOf (.string (ascii (categoryJson cat))) = some cat := by
  cases cat <;> rfl

theorem modeOf_modeString (mode : CompareMode) : modeOf (.string (ascii (modeString mode))) = some mode := by
  cases mode <;> rfl

theorem readEntry_entryValue (e : DiffEntry) : readEntry (entryValue e) = some e := by
  have htype : (fieldOf "type" (entryValue e)).bind categoryOf = some e.type := categoryOf_categoryJson e.type
  have hpath : (fieldOf "path" (entryValue e)).bind bytesOf = some e.path := rfl
  have hlocal : (fieldOf "local_size" (entryValue e)).bind sizeOf? = some e.localSize := sizeOf_sizeValue e.localSize
  have hremote : (fieldOf "remote_size" (entryValue e)).bind sizeOf? = some e.remoteSize :=
    sizeOf_sizeValue e.remoteSize
  have hhash : (fieldOf "hash_compared" (entryValue e)).bind boolOf = some e.hashCompared := rfl
  unfold readEntry
  rw [htype, hpath, hlocal, hremote, hhash]
  rfl

theorem readEntries_listing (es : List DiffEntry) : readEntries (.array (es.map entryValue)) = some es := by
  change (es.map entryValue).mapM readEntry = some es
  induction es with
  | nil => rfl
  | cons e es ih =>
    rw [List.map_cons, List.mapM_cons, readEntry_entryValue, ih]
    rfl

/-- A report in which every field is found. -/
theorem readReport_of_fields {v summary : Json.Value} {c : Contents} (hsummary : fieldOf "summary" v = some summary)
    (hsame : (fieldOf "same" summary).bind uint64Of = some c.same)
    (hdiff : (fieldOf "diff" summary).bind uint64Of = some c.diff)
    (hmissing : (fieldOf "missing" summary).bind uint64Of = some c.missing)
    (hextra : (fieldOf "extra_local" summary).bind uint64Of = some c.extraLocal)
    (htotal : (fieldOf "total_compared" summary).bind uint64Of = some c.totalCompared)
    (hmode : (fieldOf "mode" summary).bind modeOf = some c.mode)
    (hduration : (fieldOf "duration_ms" summary).bind uint64Of = some c.durationMs)
    (hcut : (fieldOf "partial" summary).bind boolOf = some c.partialRun)
    (hlisting : (fieldOf "differences" v).bind readEntries = some c.differences) : readReport v = some c := by
  unfold readReport
  simp only [hsummary, hsame, hdiff, hmissing, hextra, htotal, hmode, hduration, hcut, hlisting,
    Option.bind_eq_bind, Option.bind_some, Option.pure_def]

theorem readReport_reportValue (r : CheckResult) (f : FilterSet) (summaryOnly : Bool) :
    readReport (reportValue r (listed r f summaryOnly)) = some (contentsOf r f summaryOnly) := by
  -- each number of the summary is found behind the fields of other names
  refine readReport_of_fields (fieldOf_head _ _ _) ?_ ?_ ?_ ?_ ?_ ?_ ?_ ?_ ?_
  · simp (disch := decide) only [summaryValue, fieldOf_head, bind_uint64Of]
    rfl
  · simp (disch := decide) only [summaryValue, fieldOf_tail, fieldOf_head, bind_uint64Of]
    rfl
  · simp (disch := decide) only [summaryValue, fieldOf_tail, fieldOf_head, bind_uint64Of]
    rfl
  · simp (disch := decide) only [summaryValue, fieldOf_tail, fieldOf_head, bind_uint64Of]
    rfl
  · simp (disch := decide) only [summaryValue, fieldOf_tail, fieldOf_head, bind_uint64Of]
    rfl
  · simp (disch := decide) only [summaryValue, fieldOf_tail, fieldOf_head]
    exact modeOf_modeString r.mode
  · simp (disch := decide) only [summaryValue, fieldOf_tail, fieldOf_head, bind_uint64Of]
    rfl
  · simp (disch := decide) only [summaryValue, fieldOf_tail, fieldOf_head]
    rfl
  · have hdifferences : fieldOf "differences" (reportValue r (listed r f summaryOnly)) =
        some (.array ((listed r f summaryOnly).map entryValue)) :=
      (fieldOf_tail (by decide) _ _).trans (fieldOf_head _ _ _)
    rw [hdifferences, Option.bind_some, readEntries_listing]
    rfl

/-- **The report is well formed and loses nothing.** -/
theorem renderJson_lossless :
    (∀ (r : CheckResult) (f : FilterSet) (summaryOnly : Bool),
      (Json.parse (renderJson r f summaryOnly)).bind readReport = some (contentsOf r f summaryOnly)) ∧
    (∀ s : Bytes, Json.unescape (jsonEscape s) = some s) ∧ Function.Injective jsonEscape := by
  refine ⟨fun r f summaryOnly => ?_, unescape_jsonEscape, fun s t h => ?_⟩
  · rw [parse_renderJson, Option.bind_some, readReport_reportValue]
  · have hs := unescape_jsonEscape s
    rw [h, unescape_jsonEscape] at hs
    exact (Option.some.inj hs).symm

end FastClone.Report
