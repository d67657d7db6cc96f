import FastClone.Spec.Paths

/-!
# Where joined paths lie

* `normalPosix_join`, `normalWindows_join`: the normal form of a joined path is the root's,
  walked on by the components of the relative path.
* `wire_paths_inside_iff`: which paths of a message stay under the root.
-/

namespace FastClone.Paths

open Lexical FastClone.Delta

section Components

variable {α : Type} {sep : α → Bool}

theorem componentsFrom_append {x : α} (hx : sep x = true) (b : List α) : ∀ (a cur : List α),
    componentsFrom sep cur (a ++ x :: b) = componentsFrom sep cur a ++ componentsFrom sep [] b := by
  intro a
  induction a with
  | nil =>
    intro cur
    have hsep : componentsFrom sep cur (x :: b) =
        (if cur = [] then [] else [cur]) ++ componentsFrom sep [] b := by
      rw [componentsFrom, if_pos hx]
    rw [List.nil_append, hsep]
    rfl
  | cons c a ih =>
    intro cur
    rw [List.cons_append, componentsFrom, componentsFrom]
    split
    · rw [ih, List.append_assoc]
    · rw [ih]

theorem components_append {x : α} (hx : sep x = true) (a b : List α) :
    components sep (a ++ x :: b) = components sep a ++ components sep b :=
  componentsFrom_append hx b a []

/-- A left part that ends in a separator needs none between. -/
theorem components_append_of_last {a : List α} {x : α} (ha : a.getLast? = some x) (hx : sep x = true)
    (b : List α) : components sep (a ++ b) = components sep a ++ components sep b := by
  obtain ⟨a', rfl⟩ : ∃ a', a = a' ++ [x] := List.getLast?_eq_some_iff.1 ha
  have hnil : components sep ([] : List α) = [] := rfl
  rw [List.append_assoc, List.singleton_append, components_append hx, components_append hx, hnil,
    List.append_nil]

/-- Separators may be exchanged for one another. -/
theorem componentsFrom_map {f : α → α} (hsep : ∀ c, sep (f c) = sep c) (hname : ∀ c, sep c = false → f c = c) :
    ∀ (s cur : List α), componentsFrom sep cur (s.map f) = componentsFrom sep cur s := by
  intro s
  induction s with
  | nil => intro cur; rfl
  | cons c s ih =>
    intro cur
    rw [List.map_cons, componentsFrom, componentsFrom, hsep c, ih]
    by_cases hc : sep c = true
    · rw [if_pos hc, if_pos hc]
    · rw [if_neg hc, if_neg hc, hname c (by simpa using hc), ih]

end Components

/-! ### POSIX -/

theorem isAbsolute_append {a : Bytes} (ha : a ≠ []) (b : Bytes) : isAbsolute (a ++ b) = isAbsolute a := by
  obtain ⟨c, a, rfl⟩ := List.exists_cons_of_ne_nil ha
  rfl

theorem movesPosix_append {a b : Bytes} (h : a = [] ∨ a.getLast? = some kSlash) :
    movesPosix (a ++ b) = movesPosix a ++ movesPosix b := by
  have hsep : isSepPosix kSlash = true := rfl
  unfold movesPosix
  rcases h with rfl | h
  · rfl
  · rw [components_append_of_last h hsep, List.map_append]

theorem movesPosix_slash (a b : Bytes) : movesPosix (a ++ kSlash :: b) = movesPosix a ++ movesPosix b := by
  have hsep : isSepPosix kSlash = true := rfl
  unfold movesPosix
  rw [components_append hsep, List.map_append]

/-- A path that is not absolute is walked on from the root. -/
theorem normalPosix_join {root rel : Bytes} (hrel : isAbsolute rel = false) :
    normalPosix (joinRelPosix root rel) = (normalPosix root).walk (movesPosix rel) := by
  unfold joinRelPosix
  by_cases hself : rel = [kDot] ∨ rel = []
  · rw [if_pos hself]
    rcases hself with rfl | rfl
    · rfl
    · rfl
  rw [if_neg hself, appendPath, if_neg (by rw [hrel]; exact Bool.false_ne_true)]
  have hwalk : ∀ p : Bytes, isAbsolute p = isAbsolute root → movesPosix p = movesPosix root ++ movesPosix rel →
      normalPosix p = (normalPosix root).walk (movesPosix rel) := by
    intro p habs hmoves
    unfold normalPosix
    rw [habs, hmoves, walk_append]
  by_cases hroot : root = []
  · rw [if_pos (.inl hroot)]
    subst hroot
    exact hwalk _ hrel (movesPosix_append (.inl rfl))
  · by_cases hlast : root.getLast? = some kSlash
    · rw [if_pos (.inr hlast)]
      exact hwalk _ (isAbsolute_append hroot rel) (movesPosix_append (.inr hlast))
    · rw [if_neg (not_or.2 ⟨hroot, hlast⟩)]
      exact hwalk _ (isAbsolute_append hroot _) (movesPosix_slash root rel)

/-- An absolute path replaces the root. -/
theorem joinRelPosix_absolute {root rel : Bytes} (hrel : isAbsolute rel = true) :
    joinRelPosix root rel = rel := by
  unfold joinRelPosix
  have hself : ¬ (rel = [kDot] ∨ rel = []) := by
    rintro (rfl | rfl)
    · exact absurd hrel (by decide)
    · exact absurd hrel (by decide)
  rw [if_neg hself, appendPath, if_pos hrel]

/-! ### Windows -/

theorem toBackslashes_idem (w : Wide) : toBackslashes (toBackslashes w) = toBackslashes w := by
  unfold toBackslashes
  rw [List.map_map]
  apply List.map_congr_left
  intro c _
  by_cases hc : c = wSlash
  · simp only [Function.comp_apply, if_pos hc]
    rfl
  · simp only [Function.comp_apply, if_neg hc]

theorem toBackslashes_append (a b : Wide) : toBackslashes (a ++ b) = toBackslashes a ++ toBackslashes b :=
  List.map_append

theorem movesWindows_toBackslashes (w : Wide) : movesWindows (toBackslashes w) = movesWindows w := by
  unfold movesWindows components toBackslashes
  rw [componentsFrom_map]
  · intro c
    by_cases hc : c = wSlash
    · rw [if_pos hc, hc]
      rfl
    · rw [if_neg hc]
  · intro c hc
    refine if_neg ?_
    rintro rfl
    exact absurd hc (by decide)

/-- The roots that the command line gives: a drive and a separator, or a share. -/
def Rooted (root : Wide) : Prop :=
  (∃ c rest, toBackslashes root = c :: wColon :: wBackslash :: rest) ∨
    ∃ c₂ c₃ rest, toBackslashes root = wBackslash :: wBackslash :: c₂ :: c₃ :: rest

theorem extended_drive {c : UInt16} {rest t : Wide}
    (hback : toBackslashes (c :: wColon :: wBackslash :: rest ++ t) = c :: wColon :: wBackslash :: rest ++ t) :
    toExtendedLengthPath (c :: wColon :: wBackslash :: rest ++ t) =
      kExtendedPrefix ++ (c :: wColon :: wBackslash :: rest ++ t) := by
  have hno : isExtended (c :: wColon :: wBackslash :: rest ++ t) = false := by
    cases hrest : rest ++ t with
    | nil => rw [List.cons_append, List.cons_append, List.cons_append, hrest]; rfl
    | cons d l =>
      rw [List.cons_append, List.cons_append, List.cons_append, hrest]
      show (c == wBackslash && wColon == wBackslash && _ && _) = false
      rw [show (wColon == wBackslash) = false from rfl, Bool.and_false, Bool.false_and, Bool.false_and]
  have habs : looksAbsoluteWindows (c :: wColon :: wBackslash :: rest ++ t) = true := rfl
  have htwo : (c :: wColon :: wBackslash :: rest ++ t).take 2 ≠ [wBackslash, wBackslash] := by
    intro htake
    injection htake with _ htake
    injection htake with htake
    exact absurd htake (by decide)
  unfold toExtendedLengthPath
  rw [if_neg (by rw [hno]; exact Bool.false_ne_true), if_neg (by rw [habs]; exact Bool.false_ne_true)]
  dsimp only
  rw [hback, if_neg htwo]

theorem extended_share {c₂ c₃ : UInt16} {rest t : Wide}
    (hno : ¬ isExtended (wBackslash :: wBackslash :: c₂ :: c₃ :: rest ++ t) = true)
    (hback : toBackslashes (wBackslash :: wBackslash :: c₂ :: c₃ :: rest ++ t) =
      wBackslash :: wBackslash :: c₂ :: c₃ :: rest ++ t) :
    toExtendedLengthPath (wBackslash :: wBackslash :: c₂ :: c₃ :: rest ++ t) =
      kExtendedPrefix ++ kUnc ++ (c₂ :: c₃ :: rest ++ t) := by
  have habs : looksAbsoluteWindows (wBackslash :: wBackslash :: c₂ :: c₃ :: rest ++ t) = true :=
    Bool.or_true (wBackslash == wColon && isSepWindows c₂)
  have htwo : (wBackslash :: wBackslash :: c₂ :: c₃ :: rest ++ t).take 2 = [wBackslash, wBackslash] := rfl
  unfold toExtendedLengthPath
  rw [if_neg hno, if_neg (by rw [habs]; exact Bool.false_ne_true)]
  dsimp only
  rw [hback, if_pos htwo]
  rfl

/-- The extended form of a rooted path: what follows it is appended to it, it is extended,
and its last character is the path's. -/
theorem extended_rooted {root : Wide} (h : Rooted root) :
    (∀ t, toBackslashes t = t → toExtendedLengthPath (toBackslashes root ++ t) =
      toExtendedLengthPath (toBackslashes root) ++ t) ∧
    (∃ c rest, toExtendedLengthPath (toBackslashes root) = wBackslash :: wBackslash :: c :: wBackslash :: rest ∧
      (c = wQuestion ∨ c = wDot)) ∧
    (toExtendedLengthPath (toBackslashes root)).getLast? = (toBackslashes root).getLast? ∧
    toBackslashes root ≠ [] := by
  have hidem := toBackslashes_idem root
  rcases h with ⟨c, rest, hroot⟩ | ⟨c₂, c₃, rest, hroot⟩
  · rw [hroot] at hidem ⊢
    -- behind a drive the extended prefix is put in front of all
    have hext : ∀ t, toBackslashes t = t → toExtendedLengthPath (c :: wColon :: wBackslash :: rest ++ t) =
        kExtendedPrefix ++ (c :: wColon :: wBackslash :: rest ++ t) := by
      intro t ht
      exact extended_drive (by rw [toBackslashes_append, hidem, ht])
    have hself := hext [] rfl
    rw [List.append_nil] at hself
    refine ⟨fun t ht => ?_, ⟨wQuestion, _, hself, .inl rfl⟩, ?_, List.cons_ne_nil _ _⟩
    · rw [hext t ht, hself, List.append_assoc]
    · rw [hself, List.getLast?_append_of_ne_nil _ (List.cons_ne_nil _ _)]
  · rw [hroot] at hidem ⊢
    have hback : ∀ t, toBackslashes t = t → toBackslashes (wBackslash :: wBackslash :: c₂ :: c₃ :: rest ++ t) =
        wBackslash :: wBackslash :: c₂ :: c₃ :: rest ++ t := by
      intro t ht
      rw [toBackslashes_append, hidem, ht]
    by_cases hdevice : isExtended (wBackslash :: wBackslash :: c₂ :: c₃ :: rest) = true
    · -- it is extended already, and stays as it is
      have hext : ∀ t, toExtendedLengthPath (wBackslash :: wBackslash :: c₂ :: c₃ :: rest ++ t) =
          wBackslash :: wBackslash :: c₂ :: c₃ :: rest ++ t := fun t => if_pos hdevice
      have hself := hext []
      rw [List.append_nil] at hself
      have hchars : (c₂ == wQuestion || c₂ == wDot) = true ∧ (c₃ == wBackslash) = true := by
        have h := hdevice
        unfold isExtended at h
        rw [Bool.and_eq_true, Bool.and_eq_true, Bool.and_eq_true] at h
        exact ⟨h.1.2, h.2⟩
      refine ⟨fun t _ => by rw [hext t, hself], ⟨c₂, rest, ?_, ?_⟩, by rw [hself], List.cons_ne_nil _ _⟩
      · rw [hself, eq_of_beq hchars.2]
      · simpa using hchars.1
    · -- a share goes behind the extended prefix without its two backslashes
      have hext : ∀ t, toBackslashes t = t →
          toExtendedLengthPath (wBackslash :: wBackslash :: c₂ :: c₃ :: rest ++ t) =
            kExtendedPrefix ++ kUnc ++ (c₂ :: c₃ :: rest ++ t) := by
        intro t ht
        exact extended_share hdevice (hback t ht)
      have hself := hext [] rfl
      rw [List.append_nil, List.append_nil] at hself
      refine ⟨fun t ht => ?_, ⟨wQuestion, _, hself, .inl rfl⟩, ?_, List.cons_ne_nil _ _⟩
      · rw [hext t ht, hself]
        simp only [List.append_assoc]
      · rw [hself, List.getLast?_append_of_ne_nil _ (List.cons_ne_nil _ _)]
        rfl

/-- Behind an extended root, the components that are appended walk on from it. -/
theorem normalWindows_append {c : UInt16} {rest t : Wide} (hc : c = wQuestion ∨ c = wDot)
    (hmoves : movesWindows (wBackslash :: rest ++ t) = movesWindows (wBackslash :: rest) ++ movesWindows t) :
    (normalWindows (wBackslash :: wBackslash :: c :: wBackslash :: rest ++ t)).rootName =
        (normalWindows (wBackslash :: wBackslash :: c :: wBackslash :: rest)).rootName ∧
      (normalWindows (wBackslash :: wBackslash :: c :: wBackslash :: rest ++ t)).place =
        (normalWindows (wBackslash :: wBackslash :: c :: wBackslash :: rest)).place.walk (movesWindows t) := by
  have hlen : ∀ l, rootNameLength (wBackslash :: wBackslash :: c :: wBackslash :: l) = 3 := by
    intro l
    have hext : isExtended (wBackslash :: wBackslash :: c :: wBackslash :: l) = true := by
      rcases hc with rfl | rfl
      · rfl
      · rfl
    show (if wBackslash = wColon then 2
      else if isExtended (wBackslash :: wBackslash :: c :: wBackslash :: l) = true then 3 else _) = 3
    rw [if_neg (by decide), if_pos hext]
  have hcons : wBackslash :: wBackslash :: c :: wBackslash :: rest ++ t =
      wBackslash :: wBackslash :: c :: wBackslash :: (rest ++ t) := rfl
  rw [hcons]
  unfold normalWindows
  dsimp only
  rw [hlen, hlen]
  refine ⟨rfl, ?_⟩
  show (Place.start true).walk (movesWindows (wBackslash :: (rest ++ t))) =
    ((Place.start true).walk (movesWindows (wBackslash :: rest))).walk (movesWindows t)
  rw [← walk_append, ← hmoves]
  rfl

/-- On Windows every path is walked on from the root, whatever it starts with. -/
theorem normalWindows_join {utf8ToWide : Bytes → Wide} {root : Wide} (hroot : Rooted root) {rel : Bytes}
    (hrel : ¬ (rel = [kDot] ∨ rel = [])) :
    (normalWindows (joinRelWindows utf8ToWide root rel)).rootName =
        (normalWindows (joinRelWindows utf8ToWide root [])).rootName ∧
      (normalWindows (joinRelWindows utf8ToWide root rel)).place =
        (normalWindows (joinRelWindows utf8ToWide root [])).place.walk (movesWindows (utf8ToWide rel)) := by
  obtain ⟨happend, ⟨c, rest, hext, hc⟩, hlast, hne⟩ := extended_rooted hroot
  have hself : joinRelWindows utf8ToWide root [] = toExtendedLengthPath (toBackslashes root) := by
    unfold joinRelWindows
    rw [if_pos (.inr rfl)]
  have hsep : isSepWindows wBackslash = true := rfl
  have htail : toBackslashes (toBackslashes (utf8ToWide rel)) = toBackslashes (utf8ToWide rel) :=
    toBackslashes_idem _
  rw [hself, hext, ← movesWindows_toBackslashes (utf8ToWide rel)]
  unfold joinRelWindows
  rw [if_neg hrel]
  dsimp only
  by_cases hend : (toBackslashes root).getLast? = some wBackslash
  · rw [if_neg (fun h => h.2 hend), happend _ htail, hext]
    refine normalWindows_append hc ?_
    have hlast' : (wBackslash :: rest).getLast? = some wBackslash := by
      rw [hext] at hlast
      rw [← hend, ← hlast]
      rfl
    unfold movesWindows
    rw [components_append_of_last hlast' hsep, List.map_append]
  · have hcons : toBackslashes (wBackslash :: toBackslashes (utf8ToWide rel)) =
        wBackslash :: toBackslashes (utf8ToWide rel) := by
      show wBackslash :: toBackslashes _ = _
      rw [htail]
    rw [if_pos ⟨hne, hend⟩, List.append_assoc, List.singleton_append, happend _ hcons, hext]
    have hmoves : movesWindows (wBackslash :: toBackslashes (utf8ToWide rel)) =
        movesWindows (toBackslashes (utf8ToWide rel)) := rfl
    rw [← hmoves]
    refine normalWindows_append hc ?_
    rw [hmoves]
    unfold movesWindows
    rw [components_append hsep, List.map_append]

/-! ### Which paths stay inside -/

/-- A walk that takes back only names of `p` and goes down the same ones again. -/
def ComesBack {κ : Type} (p : Place κ) (ms : List (Move κ)) : Prop :=
  ((relative ms).ups ≤ p.names.length ∨ p.anchored = true) ∧
    p.names.drop (p.names.length - (relative ms).ups) <+: (relative ms).names

/-- The components that `JoinRel` appends; for the root itself there are none. -/
def movesJoined (utf8ToWide : Bytes → Wide) (rel : Bytes) : List (Move Wide) :=
  if rel = [kDot] ∨ rel = [] then [] else movesWindows (utf8ToWide rel)

theorem inside_join_windows {utf8ToWide : Bytes → Wide} {root : Wide} (hroot : Rooted root) (rel : Bytes) :
    (normalWindows (joinRelWindows utf8ToWide root [])).Inside (normalWindows (joinRelWindows utf8ToWide root rel)) ↔
      (normalWindows (joinRelWindows utf8ToWide root [])).place.Inside
        ((normalWindows (joinRelWindows utf8ToWide root [])).place.walk (movesJoined utf8ToWide rel)) := by
  unfold movesJoined
  by_cases hself : rel = [kDot] ∨ rel = []
  · have hjoin : joinRelWindows utf8ToWide root rel = joinRelWindows utf8ToWide root [] := by
      unfold joinRelWindows
      rw [if_pos hself, if_pos (.inr rfl)]
    rw [if_pos hself, hjoin]
    exact ⟨fun h => h.2, fun h => ⟨rfl, h⟩⟩
  · rw [if_neg hself]
    have hjoin := @normalWindows_join utf8ToWide root hroot rel hself
    unfold WindowsPath.Inside
    rw [hjoin.1, hjoin.2]
    exact ⟨fun h => h.2, fun h => ⟨rfl, h⟩⟩

theorem inside_join_posix {root rel : Bytes} (hrel : isAbsolute rel = false) :
    (normalPosix root).Inside (normalPosix (joinRelPosix root rel)) ↔
      (normalPosix root).Inside ((normalPosix root).walk (movesPosix rel)) := by
  rw [normalPosix_join hrel]

/-- **Paths from the wire.** Every path of a message is joined to the root and used; none is
rejected. On POSIX an absolute path takes the root's place; any other path, and on Windows
every path, stays under the root after normalisation exactly when it comes back into it,
which it does if it never climbs above it. -/
theorem wire_paths_inside_iff (m : Wire.Message) {rel : Bytes} (hrel : rel ∈ relPaths m) :
    (∀ root : Bytes, joinRelPosix root rel ∈ openedPosix root m ∧
      (isAbsolute rel = true → joinRelPosix root rel = rel) ∧
      (isAbsolute rel = false →
        ((normalPosix root).Inside (normalPosix (joinRelPosix root rel)) ↔
          ComesBack (normalPosix root) (movesPosix rel)) ∧
        (climbs 0 (movesPosix rel) = false →
          (normalPosix root).Inside (normalPosix (joinRelPosix root rel))))) ∧
    ∀ (utf8ToWide : Bytes → Wide) (root : Wide), Rooted root →
      joinRelWindows utf8ToWide root rel ∈ openedWindows utf8ToWide root m ∧
      ((normalWindows (joinRelWindows utf8ToWide root [])).Inside
          (normalWindows (joinRelWindows utf8ToWide root rel)) ↔
        ComesBack (normalWindows (joinRelWindows utf8ToWide root [])).place (movesJoined utf8ToWide rel)) ∧
      (climbs 0 (movesJoined utf8ToWide rel) = false →
        (normalWindows (joinRelWindows utf8ToWide root [])).Inside
          (normalWindows (joinRelWindows utf8ToWide root rel))) := by
  constructor
  · intro root
    refine ⟨List.mem_map_of_mem hrel, joinRelPosix_absolute, fun habs => ⟨?_, fun hclimb => ?_⟩⟩
    · rw [inside_join_posix habs, inside_walk_iff]
      exact Iff.rfl
    · rw [inside_join_posix habs]
      exact inside_of_not_climbs _ hclimb
  · intro utf8ToWide root hroot
    refine ⟨List.mem_map_of_mem hrel, ?_, fun hclimb => ?_⟩
    · rw [inside_join_windows hroot, inside_walk_iff]
      exact Iff.rfl
    · rw [inside_join_windows hroot]
      exact inside_of_not_climbs _ hclimb

/-- What the system's conversion does to the characters of ASCII. -/
def asciiToWide (s : Bytes) : Wide := s.map UInt8.toUInt16

/-- The roots `/r` and `C:\r`, and the path `a/../b`. -/
theorem wire_path_inside :
    (normalPosix [47, 114]).Inside (normalPosix (joinRelPosix [47, 114] [97, 47, 46, 46, 47, 98])) ∧
      (normalWindows (joinRelWindows asciiToWide [67, 58, 92, 114] [])).Inside
        (normalWindows (joinRelWindows asciiToWide [67, 58, 92, 114] [97, 47, 46, 46, 47, 98])) := by
  obtain ⟨hposix, hwindows⟩ := wire_paths_inside_iff (.fileOpen [97, 47, 46, 46, 47, 98]) (List.mem_singleton.2 rfl)
  obtain ⟨-, -, hrelative⟩ := hposix [47, 114]
  obtain ⟨-, -, hunder⟩ := hwindows asciiToWide [67, 58, 92, 114] (.inl ⟨67, [114], by decide⟩)
  exact ⟨(hrelative (by decide)).2 (by decide), hunder (by decide)⟩

/-- The path `../x` of a `FileOpen` leads out of the root `/r`. -/
theorem dotdot_path_escapes : ¬ ∀ (root : Bytes) (m : Wire.Message) (path : Bytes), path ∈ openedPosix root m →
    (normalPosix root).Inside (normalPosix path) := by
  intro hall
  have hin : joinRelPosix [47, 114] [46, 46, 47, 120] ∈ openedPosix [47, 114] (.fileOpen [46, 46, 47, 120]) :=
    List.mem_singleton.2 rfl
  obtain ⟨names, hnames⟩ := hall [47, 114] (.fileOpen [46, 46, 47, 120]) _ hin
  have heq : [[120]] = [[114]] ++ names := congrArg Place.names hnames
  injection heq with hhead
  exact absurd hhead (by decide)

end FastClone.Paths
