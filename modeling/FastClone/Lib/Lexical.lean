import Mathlib.Data.List.Basic
import Mathlib.Data.List.Infix
import Mathlib.Data.Nat.Notation

/-!
# Lexical normalisation of paths

A path is walked component by component: a name goes in, `..` goes back out, `.` stays.
`Place` is where a walk has arrived, in normal form: so many levels above the start and
then down some names; an anchored place has nothing above it.

* `walk_eq`: where a walk from any place ends, in terms of the walk from the start.
* `inside_walk_iff`: when a walk ends below the place that it started from.
-/

namespace Lexical

variable {κ : Type}

/-- What one component of a path does. -/
inductive Move (κ : Type) where
  | stay
  | up
  | into (name : κ)
  deriving DecidableEq, Repr

/-- The normal form of a path. -/
@[ext]
structure Place (κ : Type) where
  anchored : Bool
  ups : ℕ
  names : List κ
  anchored_ups : anchored = true → ups = 0

/-- Nothing walked yet. -/
def Place.start (anchored : Bool) : Place κ := ⟨anchored, 0, [], fun _ => rfl⟩

/-- Down some names. -/
def Place.down (p : Place κ) (names : List κ) : Place κ := { p with names := p.names ++ names }

/-- One level up; above an anchor there is nothing. -/
def Place.out (p : Place κ) : Place κ :=
  if p.names ≠ [] then { p with names := p.names.dropLast }
  else if h : p.anchored = true then p
  else { p with ups := p.ups + 1, anchored_ups := fun ha => absurd ha h }

def Place.move (p : Place κ) : Move κ → Place κ
  | .stay => p
  | .up => p.out
  | .into name => p.down [name]

def Place.walk (p : Place κ) (ms : List (Move κ)) : Place κ := ms.foldl Place.move p

/-- `q` is `p` or below it. -/
def Place.Inside (p q : Place κ) : Prop := ∃ names, q = p.down names

/-- A relative walk in normal form. -/
def relative (ms : List (Move κ)) : Place κ := (Place.start false).walk ms

theorem walk_append (p : Place κ) (a b : List (Move κ)) : p.walk (a ++ b) = (p.walk a).walk b :=
  List.foldl_append ..

theorem relative_snoc (ms : List (Move κ)) (m : Move κ) : relative (ms ++ [m]) = (relative ms).move m :=
  walk_append ..

theorem move_anchored (p : Place κ) (m : Move κ) : (p.move m).anchored = p.anchored := by
  cases m with
  | stay => rfl
  | into name => rfl
  | up =>
    show p.out.anchored = _
    unfold Place.out
    split
    · rfl
    · split
      · rfl
      · rfl

theorem relative_anchored (ms : List (Move κ)) : (relative ms).anchored = false := by
  induction ms using List.reverseRecOn with
  | nil => rfl
  | append_singleton ms m ih => rw [relative_snoc, move_anchored, ih]

theorem out_of_names {p : Place κ} (h : p.names ≠ []) : p.out = { p with names := p.names.dropLast } :=
  if_pos h

theorem out_of_anchored {p : Place κ} (h : p.names = []) (ha : p.anchored = true) : p.out = p := by
  unfold Place.out
  rw [if_neg (not_not.2 h), dif_pos ha]

theorem out_of_free {p : Place κ} (h : p.names = []) (ha : ¬ p.anchored = true) :
    p.out.anchored = p.anchored ∧ p.out.ups = p.ups + 1 ∧ p.out.names = p.names := by
  unfold Place.out
  rw [if_neg (not_not.2 h), dif_neg ha]
  exact ⟨rfl, rfl, rfl⟩

/-- Where a walk ends: so many of the names taken back, more levels up where they do not
suffice and nothing anchors the place, and down the names of the walk. -/
structure Ends (p : Place κ) (r : Place κ) (q : Place κ) : Prop where
  anchored : q.anchored = p.anchored
  ups : q.ups = if p.anchored then 0 else p.ups + (r.ups - p.names.length)
  names : q.names = p.names.take (p.names.length - r.ups) ++ r.names

theorem walk_ends (p : Place κ) (ms : List (Move κ)) : Ends p (relative ms) (p.walk ms) := by
  induction ms using List.reverseRecOn with
  | nil =>
    refine ⟨rfl, ?_, ?_⟩
    · show p.ups = if p.anchored then 0 else p.ups + (0 - p.names.length)
      split
      · rename_i ha
        exact p.anchored_ups ha
      · omega
    · show p.names = p.names.take (p.names.length - 0) ++ []
      rw [List.append_nil, Nat.sub_zero, List.take_length]
  | append_singleton ms m ih =>
    have hstep : p.walk (ms ++ [m]) = (p.walk ms).move m := walk_append ..
    rw [relative_snoc, hstep]
    set r := relative ms with hr
    set q := p.walk ms with hq
    obtain ⟨hanch, hups, hnames⟩ := ih
    cases m with
    | stay => exact ⟨hanch, hups, hnames⟩
    | into name =>
      refine ⟨hanch, hups, ?_⟩
      show q.names ++ [name] = p.names.take (p.names.length - r.ups) ++ (r.names ++ [name])
      rw [hnames, List.append_assoc]
    | up =>
      show Ends p r.out q.out
      by_cases hrn : r.names = []
      · -- the walk itself goes one level further up
        have hfree : ¬ r.anchored = true := by rw [hr, relative_anchored]; exact Bool.false_ne_true
        obtain ⟨-, hrups, hrnames⟩ := out_of_free hrn hfree
        rw [hrn, List.append_nil] at hnames
        have hlen : q.names.length = p.names.length - r.ups := by
          rw [hnames, List.length_take]
          omega
        by_cases hqn : q.names = []
        · have hzero : p.names.length - r.ups = 0 := by rw [← hlen, hqn, List.length_nil]
          have htake : p.names.take (p.names.length - (r.ups + 1)) ++ [] = [] := by
            rw [show p.names.length - (r.ups + 1) = 0 by omega, List.take_zero, List.append_nil]
          by_cases ha : q.anchored = true
          · rw [out_of_anchored hqn ha]
            refine ⟨hanch, ?_, ?_⟩
            · rw [hups, hrups, if_pos (hanch ▸ ha), if_pos (hanch ▸ ha)]
            · rw [hqn, hrups, hrnames, hrn, htake]
          · obtain ⟨hqa, hqu, hqnm⟩ := out_of_free hqn ha
            have hpa : ¬ p.anchored = true := hanch ▸ ha
            refine ⟨hqa.trans hanch, ?_, ?_⟩
            · rw [if_neg hpa] at hups
              rw [hqu, hups, hrups, if_neg hpa]
              omega
            · rw [hqnm, hqn, hrups, hrnames, hrn, htake]
        · rw [out_of_names hqn]
          have hpos := List.length_pos_of_ne_nil hqn
          refine ⟨hanch, ?_, ?_⟩
          · rw [hrups]
            show q.ups = _
            rw [hups]
            split
            · rfl
            · omega
          · show q.names.dropLast = _
            rw [hrups, hrnames, hrn, List.append_nil, List.dropLast_eq_take, hlen, hnames, List.take_take]
            congr 1
            omega
      · -- the walk takes back a name of its own
        have hqn : q.names ≠ [] := by
          rw [hnames]
          simp [hrn]
        rw [out_of_names hrn, out_of_names hqn]
        refine ⟨hanch, hups, ?_⟩
        show q.names.dropLast = p.names.take (p.names.length - r.ups) ++ r.names.dropLast
        rw [hnames, List.dropLast_append_of_ne_nil hrn]

/-- **When a walk stays inside.** It takes back no more levels than are there (above an
anchor there are none), and goes down again the names that it took back. -/
theorem inside_walk_iff (p : Place κ) (ms : List (Move κ)) :
    p.Inside (p.walk ms) ↔ ((relative ms).ups ≤ p.names.length ∨ p.anchored = true) ∧
      p.names.drop (p.names.length - (relative ms).ups) <+: (relative ms).names := by
  obtain ⟨hanch, hups, hnames⟩ := walk_ends p ms
  set r := relative ms
  set q := p.walk ms
  have hsplit := List.take_append_drop (p.names.length - r.ups) p.names
  constructor
  · rintro ⟨more, hq⟩
    have hqu : q.ups = p.ups := by rw [hq]; rfl
    have hqn : q.names = p.names ++ more := by rw [hq]; rfl
    constructor
    · by_cases ha : p.anchored = true
      · exact .inr ha
      · rw [if_neg ha] at hups
        exact .inl (by omega)
    · refine ⟨more, ?_⟩
      have heq : p.names.take (p.names.length - r.ups) ++ r.names =
          p.names.take (p.names.length - r.ups) ++ (p.names.drop (p.names.length - r.ups) ++ more) := by
        rw [← List.append_assoc, hsplit, ← hnames, hqn]
      exact (List.append_cancel_left heq).symm
  · rintro ⟨hfew, more, hmore⟩
    refine ⟨more, ?_⟩
    have hu : q.ups = p.ups := by
      rw [hups]
      split
      · rename_i ha
        exact (p.anchored_ups ha).symm
      · rename_i ha
        rcases hfew with hfew | hfew
        · omega
        · exact absurd hfew ha
    have hn : q.names = p.names ++ more := by
      rw [hnames, ← hmore, ← List.append_assoc, hsplit]
    exact Place.ext hanch hu hn

/-- Whether a walk that is `depth` levels below its start ever goes above it. -/
def climbs (depth : ℕ) : List (Move κ) → Bool
  | [] => false
  | .stay :: ms => climbs depth ms
  | .into _ :: ms => climbs (depth + 1) ms
  | .up :: ms => depth == 0 || climbs (depth - 1) ms

/-- A walk from an open place that does not climb keeps its level. -/
theorem ups_walk_of_not_climbs : ∀ (ms : List (Move κ)) {p : Place κ}, climbs p.names.length ms = false →
    (p.walk ms).ups = p.ups := by
  intro ms
  induction ms with
  | nil => intro p _; rfl
  | cons m ms ih =>
    intro p h
    show ((p.move m).walk ms).ups = p.ups
    cases m with
    | stay => exact ih h
    | into name =>
      have hlen : (p.move (.into name)).names.length = p.names.length + 1 := List.length_append
      exact ih (by rw [hlen]; exact h)
    | up =>
      rw [climbs, Bool.or_eq_false_iff, beq_eq_false_iff_ne] at h
      have hne : p.names ≠ [] := fun hnil => h.1 (by rw [hnil]; rfl)
      have hlen : (p.move .up).names.length = p.names.length - 1 := by
        show p.out.names.length = _
        rw [out_of_names hne]
        exact List.length_dropLast
      have hups : p.out.ups = p.ups := by rw [out_of_names hne]
      exact (ih (by rw [hlen]; exact h.2)).trans hups

/-- A walk that never goes above its start stays inside wherever it starts. -/
theorem inside_of_not_climbs (p : Place κ) {ms : List (Move κ)} (h : climbs 0 ms = false) :
    p.Inside (p.walk ms) := by
  have hups : (relative ms).ups = 0 := ups_walk_of_not_climbs ms h
  rw [inside_walk_iff, hups, Nat.sub_zero, List.drop_length]
  exact ⟨.inl (Nat.zero_le _), List.nil_prefix⟩

end Lexical
