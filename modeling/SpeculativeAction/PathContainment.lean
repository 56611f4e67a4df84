import SpeculativeAction.ExecutionPaths
import SpeculativeAction.Library.Regex

/-! Containment of filesystem paths. The expression that selects the fast branch accepts exactly
the texts of resolved paths below the root of the file system, so that the prefix test answers as
`path.relative` would; every answer leads from the root back to the target.
-/

namespace SpeculativeAction.PathContainment

open SpeculativeAction.Library SpeculativeAction.Library.PosixPath ExecutionPaths

-- The normal form

section Pattern

def sepPattern : Regex CodeUnit := .unit fun other => decide (other = sep)

def dotPattern : Regex CodeUnit := .unit fun other => decide (other = unit '.')

/-- `\.{1,2}(?:\/|$)` -/
def dotsPattern : Regex CodeUnit :=
  .sequence (.either dotPattern (.sequence dotPattern dotPattern)) (.either sepPattern .atEnd)

/-- `\/(?!\.{1,2}(?:\/|$))[^/]+` -/
def segmentPattern : Regex CodeUnit :=
  .sequence sepPattern
    (.sequence (.notAhead dotsPattern) (.plus (.unit fun other => decide (other ≠ sep))))

/-- `NORMALIZED_ABSOLUTE` -/
def normalizedAbsolute : Regex CodeUnit := .sequence (.plus segmentPattern) .atEnd

variable {text rest name : JsString}

/-- What follows a whole segment. -/
def AtBoundary (rest : JsString) : Prop := rest = [] ∨ ∃ more, rest = sep :: more

theorem matches_sepPattern : sepPattern.Matches text rest ↔ text = sep :: rest := by
  constructor
  · rintro ⟨first, accepted, rfl⟩
    rw [of_decide_eq_true accepted]
  · rintro rfl
    exact ⟨sep, decide_eq_true rfl, rfl⟩

theorem matches_dotPattern : dotPattern.Matches text rest ↔ text = unit '.' :: rest := by
  constructor
  · rintro ⟨first, accepted, rfl⟩
    rw [of_decide_eq_true accepted]
  · rintro rfl
    exact ⟨unit '.', decide_eq_true rfl, rfl⟩

/-- The lookahead finds `.` or `..` as a whole segment. -/
theorem matches_dotsPattern
    : (∃ after, dotsPattern.Matches text after)
      ↔ ∃ after, AtBoundary after ∧ (text = dot ++ after ∨ text = dotDot ++ after) := by
  have boundary (middle : JsString)
      : (∃ after, (Regex.either sepPattern .atEnd).Matches middle after) ↔ AtBoundary middle := by
    constructor
    · rintro ⟨after, found | ⟨ended, _⟩⟩
      · exact .inr ⟨after, matches_sepPattern.mp found⟩
      · exact .inl ended
    · rintro (rfl | ⟨more, rfl⟩)
      · exact ⟨[], .inr ⟨rfl, rfl⟩⟩
      · exact ⟨more, .inl (matches_sepPattern.mpr rfl)⟩
  have dots (middle : JsString)
      : (Regex.either dotPattern (.sequence dotPattern dotPattern)).Matches text middle
        ↔ text = dot ++ middle ∨ text = dotDot ++ middle := by
    refine or_congr matches_dotPattern ?_
    constructor
    · rintro ⟨second, found, last⟩
      rw [matches_dotPattern.mp found, matches_dotPattern.mp last]
      rfl
    · rintro rfl
      exact ⟨unit '.' :: middle, matches_dotPattern.mpr rfl, matches_dotPattern.mpr rfl⟩
  constructor
  · rintro ⟨after, middle, first, last⟩
    exact ⟨middle, (boundary middle).mp ⟨after, last⟩, (dots middle).mp first⟩
  · rintro ⟨middle, ended, spelled⟩
    obtain ⟨after, last⟩ := (boundary middle).mpr ended
    exact ⟨after, middle, (dots middle).mpr spelled, last⟩

/-- A segment ends at the first separator. -/
theorem segment_unique {other more : JsString} (plain : sep ∉ name) (otherPlain : sep ∉ other)
    (ended : AtBoundary rest) (otherEnded : AtBoundary more) (same : name ++ rest = other ++ more)
    : name = other := by
  have taken {name rest : JsString} (plain : sep ∉ name) (ended : AtBoundary rest)
      : (splitSep (name ++ rest)).head? = some name := by
    rcases ended with rfl | ⟨more, rfl⟩
    · rw [List.append_nil, splitSep_of_no_sep plain, List.head?_cons]
    · rw [splitSep_append_sep, splitSep_of_no_sep plain, List.singleton_append, List.head?_cons]
  have heads := taken plain ended
  rw [same, taken otherPlain otherEnded] at heads
  exact (Option.some.inj heads).symm

/-- One repetition, where it stops at the end of a segment. -/
theorem matches_segmentPattern (ended : AtBoundary rest)
    : segmentPattern.Matches text rest ↔ ∃ name, CleanName name ∧ text = sep :: (name ++ rest) := by
  have classed {run : JsString}
      : (∀ member ∈ run, decide (member ≠ sep) = true) ↔ sep ∉ run := by
    constructor
    · intro all inside
      exact of_decide_eq_true (all sep inside) rfl
    · intro plain member inside
      exact decide_eq_true fun same => plain (same ▸ inside)
  constructor
  · rintro ⟨behind, first, _, ⟨rfl, notDots⟩, found⟩
    obtain ⟨name, nonempty, all, rfl⟩ := Regex.matches_plus_unit.mp found
    have whole (dots : JsString) (isDots : dots = dot ∨ dots = dotDot) : name ≠ dots := by
      rintro rfl
      have ahead := matches_dotsPattern.mpr
        ⟨rest, ended, isDots.imp (congrArg (· ++ rest)) (congrArg (· ++ rest))⟩
      exact notDots ahead.choose ahead.choose_spec
    exact ⟨name, ⟨nonempty, classed.mp all, whole dot (.inl rfl), whole dotDot (.inr rfl)⟩,
      matches_sepPattern.mp first⟩
  · rintro ⟨name, clean, rfl⟩
    have notDots (after : JsString) : ¬ dotsPattern.Matches (name ++ rest) after := by
      intro found
      obtain ⟨more, otherEnded, isDot | isDotDot⟩ := matches_dotsPattern.mp ⟨after, found⟩
      · exact clean.notDot (segment_unique clean.plain (by decide) ended otherEnded isDot)
      · exact clean.notDotDot (segment_unique clean.plain (by decide) ended otherEnded isDotDot)
    exact ⟨name ++ rest, matches_sepPattern.mpr rfl, name ++ rest, ⟨rfl, notDots⟩,
      Regex.matches_plus_unit.mpr ⟨name, clean.nonempty, classed.mpr clean.plain, rfl⟩⟩

/-- The expression accepts the texts of paths, but for the root of the file system. -/
theorem accepts_normalizedAbsolute
    : normalizedAbsolute.Accepts text ↔ ∃ path : AbsolutePath, path.names ≠ [] ∧ text = path.text := by
  rw [normalizedAbsolute, Regex.accepts_anchored, Regex.matches_plus]
  constructor
  · intro found
    induction found using Relation.TransGen.head_induction_on with
    | single last =>
        obtain ⟨name, clean, rfl⟩ := (matches_segmentPattern (.inl rfl)).mp last
        refine ⟨⟨[name], List.forall_mem_singleton.mpr clean⟩, List.cons_ne_nil _ _, ?_⟩
        rw [List.append_nil]
        rfl
    | head one _ ih =>
        obtain ⟨path, named, rfl⟩ := ih
        obtain ⟨name, clean, rfl⟩ := (matches_segmentPattern (.inr ⟨_, rfl⟩)).mp one
        refine ⟨⟨name :: path.names, List.forall_mem_cons.mpr ⟨clean, path.clean⟩⟩,
          List.cons_ne_nil _ _, ?_⟩
        change sep :: (name ++ sep :: joinSep path.names) = sep :: joinSep (name :: path.names)
        rw [joinSep_cons named]
  · rintro ⟨⟨names, clean⟩, named, rfl⟩
    change names ≠ [] at named
    change Relation.TransGen segmentPattern.Matches (sep :: joinSep names) []
    induction names with
    | nil => exact absurd rfl named
    | cons name rest ih =>
        obtain ⟨first, later⟩ := List.forall_mem_cons.mp clean
        by_cases last : rest = []
        · rw [last]
          refine .single ((matches_segmentPattern (.inl rfl)).mpr ⟨name, first, ?_⟩)
          rw [List.append_nil]
          rfl
        · refine .head ((matches_segmentPattern (.inr ⟨_, rfl⟩)).mpr ⟨name, first, ?_⟩)
            (ih later last)
          rw [joinSep_cons last]

/-- The check of the segments is the expression. -/
theorem isNormalizedAbsolute_iff
    : isNormalizedAbsolute text = true ↔ normalizedAbsolute.Accepts text := by
  rw [accepts_normalizedAbsolute]
  constructor
  · intro normal
    obtain ⟨absolute, all⟩ := Bool.and_eq_true_iff.mp normal
    obtain ⟨rest, rfl⟩ : ∃ rest, text = sep :: rest :=
      List.head?_eq_some_iff.mp (of_decide_eq_true absolute)
    have clean (name : JsString) (member : name ∈ splitSep rest) : CleanName name := by
      obtain ⟨nonempty, notDot, notDotDot⟩ := of_decide_eq_true (List.all_eq_true.mp all name member)
      exact ⟨nonempty, sep_notMem_of_mem_splitSep member, notDot, notDotDot⟩
    refine ⟨⟨splitSep rest, clean⟩, splitSep_ne_nil rest, ?_⟩
    rw [AbsolutePath.text, joinSep_splitSep]
  · rintro ⟨path, named, rfl⟩
    rw [isNormalizedAbsolute_text]
    exact decide_eq_true named

end Pattern

-- Both branches

section Branches

/-- `path.resolve` of two texts: an absolute one hides what is before it. -/
def resolveFrom (cwd root text : JsString) : JsString :=
  sep :: joinSep (resolveSegments false
    (if isAbsolute text then segments text
    else if isAbsolute root then segments root ++ segments text
    else segments cwd ++ segments root ++ segments text))

/-- The resolved target is an entry of the resolved root, or of a directory below it. -/
def IsBelow (cwd root target : JsString) : Prop :=
  ∃ names, names ≠ []
    ∧ (absolutePath cwd target).names = (absolutePath cwd root).names ++ names

variable {cwd root target : JsString}

/-- Clean names are resolved against a text as they are. -/
theorem resolveFrom_joinSep {rest : List JsString} (clean : ∀ name ∈ rest, CleanName name)
    : resolveFrom cwd root (joinSep rest) = ((absolutePath cwd root).below rest clean).text := by
  have names : (if isAbsolute root = true then segments root ++ rest
        else segments cwd ++ segments root ++ rest)
      = (if isAbsolute root = true then segments root else segments cwd ++ segments root) ++ rest :=
    (apply_ite (· ++ rest) _ _ _).symm
  rw [resolveFrom, not_isAbsolute_joinSep clean, if_neg Bool.false_ne_true, segments_joinSep clean,
    names, resolveSegments_append clean]
  rfl

/-- Only what the texts resolve to matters to the general branch. -/
theorem resolvedRelative_eq (cwd root target : JsString)
    : resolvedRelative cwd root target
      = if (absolutePath cwd root).names <+: (absolutePath cwd target).names then
          some (joinSep ((absolutePath cwd target).names.drop (absolutePath cwd root).names.length))
        else none := by
  rw [← resolvedRelative_text cwd, resolvedRelative, resolvedRelative, resolve_text, resolve_text,
    resolve_eq_text, resolve_eq_text]

/-- The branches agree where the first one is taken. -/
theorem prefixTest_eq (someRoot : normalizedAbsolute.Accepts root)
    (someTarget : normalizedAbsolute.Accepts target)
    : prefixTest root target = resolvedRelative cwd root target := by
  have fast : relativeFilesystemPath cwd root target = prefixTest root target := by
    rw [relativeFilesystemPath_branches, isNormalizedAbsolute_iff.mpr someRoot,
      isNormalizedAbsolute_iff.mpr someTarget, Bool.and_self, if_pos rfl]
  obtain ⟨above, _, rfl⟩ := accepts_normalizedAbsolute.mp someRoot
  obtain ⟨below, _, rfl⟩ := accepts_normalizedAbsolute.mp someTarget
  rw [← fast, relativeFilesystemPath_text, resolvedRelative_text]

theorem relativeFilesystemPath_eq (cwd root target : JsString)
    : relativeFilesystemPath cwd root target = resolvedRelative cwd root target := by
  rw [relativeFilesystemPath_branches]
  by_cases normal : (isNormalizedAbsolute root && isNormalizedAbsolute target) = true
  · obtain ⟨someRoot, someTarget⟩ := Bool.and_eq_true_iff.mp normal
    rw [if_pos normal, prefixTest_eq (isNormalizedAbsolute_iff.mp someRoot)
      (isNormalizedAbsolute_iff.mp someTarget)]
  · rw [if_neg normal]

/-- An answer leads from the root to the target. -/
theorem resolveFrom_relativeFilesystemPath {between : JsString}
    (found : relativeFilesystemPath cwd root target = some between)
    : resolveFrom cwd root between = resolve cwd target := by
  rw [relativeFilesystemPath_eq, resolvedRelative_eq] at found
  by_cases contained : (absolutePath cwd root).names <+: (absolutePath cwd target).names
  · rw [if_pos contained] at found
    rw [← Option.some.inj found, resolveFrom_joinSep (AbsolutePath.drop_clean _ _),
      ← eq_below_of_prefix contained, resolve_eq_text]
  · rw [if_neg contained] at found
    cases found

/-- Without an answer the target is neither the root nor below it. -/
theorem relativeFilesystemPath_eq_none_iff
    : relativeFilesystemPath cwd root target = none
      ↔ ¬ (resolve cwd target = resolve cwd root ∨ IsBelow cwd root target) := by
  have contained : (absolutePath cwd root).names <+: (absolutePath cwd target).names
      ↔ resolve cwd target = resolve cwd root ∨ IsBelow cwd root target := by
    rw [resolve_eq_text, resolve_eq_text]
    constructor
    · rintro ⟨rest, same⟩
      by_cases none_ : rest = []
      · rw [none_, List.append_nil] at same
        exact .inl (congrArg AbsolutePath.text (AbsolutePath.ext same.symm))
      · exact .inr ⟨rest, none_, same.symm⟩
    · rintro (same | ⟨rest, _, same⟩)
      · rw [text_injective same]
      · exact ⟨rest, same.symm⟩
  rw [relativeFilesystemPath_eq, resolvedRelative_eq, ← contained]
  by_cases inside : (absolutePath cwd root).names <+: (absolutePath cwd target).names
  · rw [if_pos inside]
    exact iff_of_false (Option.some_ne_none _) (not_not.mpr inside)
  · rw [if_neg inside]
    exact iff_of_true rfl inside

/-- What `relativeFilesystemPath` answers, in any working directory. -/
structure ContainmentExact (cwd : JsString) : Prop where
  /-- On texts in the normal form the prefix test is taken, and the branch below it agrees. -/
  fast : ∀ root target, normalizedAbsolute.Accepts root → normalizedAbsolute.Accepts target →
    relativeFilesystemPath cwd root target = prefixTest root target
    ∧ prefixTest root target = resolvedRelative cwd root target
  leads : ∀ root target between, relativeFilesystemPath cwd root target = some between →
    resolveFrom cwd root between = resolve cwd target
  outside : ∀ root target, relativeFilesystemPath cwd root target = none
    ↔ ¬ (resolve cwd target = resolve cwd root ∨ IsBelow cwd root target)
  contains : ∀ root target, containsFilesystemPath cwd root target = true
    ↔ resolve cwd target = resolve cwd root ∨ IsBelow cwd root target

theorem containment_exact (cwd : JsString) : ContainmentExact cwd where
  fast root target someRoot someTarget :=
    ⟨(relativeFilesystemPath_eq cwd root target).trans (prefixTest_eq someRoot someTarget).symm,
      prefixTest_eq someRoot someTarget⟩
  leads _ _ _ found := resolveFrom_relativeFilesystemPath found
  outside _ _ := relativeFilesystemPath_eq_none_iff
  contains root target := by
    rw [containsFilesystemPath, Option.isSome_iff_ne_none, Ne, relativeFilesystemPath_eq_none_iff,
      not_not]

-- A name that starts with dots is no way up, and a longer last name is another entry.
example : relativeFilesystemPath [] (units "/w") (units "/w/..a/...") = some (units "..a/...") := by
  decide

example : relativeFilesystemPath [] (units "/w") (units "/work") = none := by decide

end Branches

end SpeculativeAction.PathContainment
