import SpeculativeAction.Library.AbsolutePath

/-! Execution paths: the logical path of a physical one under a workspace root, and back. The
roots may contain one another; on the paths that are projected the two directions are inverse.
-/

namespace SpeculativeAction.ExecutionPaths

open SpeculativeAction.Library SpeculativeAction.Library.PosixPath

-- Paths between roots

section Relative

def commonLength : List JsString → List JsString → ℕ
  | left :: lefts, right :: rights => if left = right then commonLength lefts rights + 1 else 0
  | _, _ => 0

/-- `path.relative`: up to what both have in common, then down. -/
def relative (cwd left right : JsString) : JsString :=
  let above := resolvedSegments cwd left
  let below := resolvedSegments cwd right
  let shared := commonLength above below
  joinSep (List.replicate (above.length - shared) dotDot ++ below.drop shared)

/-- An absolute path without an empty, `.` or `..` segment or a trailing slash. -/
def isNormalizedAbsolute (text : JsString) : Bool :=
  isAbsolute text
    && (splitSep text.tail).all fun segment =>
      decide (segment ≠ [] ∧ segment ≠ dot ∧ segment ≠ dotDot)

def relativeFilesystemPath (cwd root target : JsString) : Option JsString :=
  if isNormalizedAbsolute root && isNormalizedAbsolute target then
    if target = root then some []
    else if root ++ [sep] <+: target then some (target.drop (root.length + 1))
    else none
  else
    let resolvedRoot := resolve cwd root
    let resolvedTarget := resolve cwd target
    let between := relative cwd resolvedRoot resolvedTarget
    if between = [] then (if resolvedRoot = resolvedTarget then some [] else none)
    else if between = dotDot ∨ dotDot ++ [sep] <+: between ∨ isAbsolute between = true then none
    else if resolve resolvedRoot between = resolvedTarget then some between
    else none

def containsFilesystemPath (cwd root target : JsString) : Bool :=
  (relativeFilesystemPath cwd root target).isSome

/-- The first branch: between texts in the normal form, containment is a prefix. -/
def prefixTest (root target : JsString) : Option JsString :=
  if target = root then some []
  else if root ++ [sep] <+: target then some (target.drop (root.length + 1))
  else none

/-- The branch below it, for every text. -/
def resolvedRelative (cwd root target : JsString) : Option JsString :=
  let resolvedRoot := resolve cwd root
  let resolvedTarget := resolve cwd target
  let between := relative cwd resolvedRoot resolvedTarget
  if between = [] then (if resolvedRoot = resolvedTarget then some [] else none)
  else if between = dotDot ∨ dotDot ++ [sep] <+: between ∨ isAbsolute between = true then none
  else if resolve resolvedRoot between = resolvedTarget then some between
  else none

theorem relativeFilesystemPath_branches (cwd root target : JsString)
    : relativeFilesystemPath cwd root target
      = if isNormalizedAbsolute root && isNormalizedAbsolute target then prefixTest root target
        else resolvedRelative cwd root target :=
  rfl

end Relative

-- The projection

section Projection

structure ExecutionPathProjectionOptions where
  sourceRoot : JsString
  workspaceRoot : JsString

structure ExecutionPathProjection where
  sourceRoot : JsString
  workspaceRoot : JsString

namespace ExecutionPathProjection

def create (cwd : JsString) (options : ExecutionPathProjectionOptions) : ExecutionPathProjection where
  sourceRoot := resolve cwd options.sourceRoot
  workspaceRoot := resolve cwd options.workspaceRoot

def toLogical (cwd : JsString) (projection : ExecutionPathProjection) (physicalPath : JsString)
    : JsString :=
  let physical := resolve cwd physicalPath
  match relativeFilesystemPath cwd projection.workspaceRoot physical with
  | none => physical
  | some between => join projection.sourceRoot between

def toPhysical (cwd : JsString) (projection : ExecutionPathProjection) (logicalPath : JsString)
    : Option JsString :=
  let logical := resolve cwd logicalPath
  match relativeFilesystemPath cwd projection.sourceRoot logical with
  | none => some logical
  | some between =>
      let physical := resolve projection.workspaceRoot between
      if containsFilesystemPath cwd projection.workspaceRoot physical then some physical else none

end ExecutionPathProjection

end Projection

-- Containment is a prefix of names

section Containment

variable {cwd : JsString} {root target : AbsolutePath}

theorem splitSep_joinSep {names : List JsString} (clean : ∀ name ∈ names, CleanName name)
    (some_ : names ≠ [])
    : splitSep (joinSep names) = names := by
  induction names with
  | nil => exact absurd rfl some_
  | cons first rest ih =>
      have plain := (clean first List.mem_cons_self).plain
      by_cases more : rest = []
      · rw [more]
        exact splitSep_of_no_sep plain
      · rw [joinSep_cons more, splitSep_append_sep, splitSep_of_no_sep plain,
          ih (fun name member => clean name (List.mem_cons_of_mem _ member)) more]
        rfl

/-- Every resolved path but the root is in the normal form. -/
theorem isNormalizedAbsolute_text (path : AbsolutePath)
    : isNormalizedAbsolute path.text = decide (path.names ≠ []) := by
  by_cases none_ : path.names = []
  · rw [isNormalizedAbsolute, AbsolutePath.text, none_]
    rfl
  · have names : splitSep path.text.tail = path.names := splitSep_joinSep path.clean none_
    have absolute : isAbsolute path.text = true := rfl
    rw [isNormalizedAbsolute, names, absolute, Bool.true_and, decide_eq_true none_,
      List.all_eq_true]
    intro name member
    have clean := path.clean name member
    exact decide_eq_true ⟨clean.nonempty, clean.notDot, clean.notDotDot⟩

theorem relative_text (cwd : JsString) (root target : AbsolutePath)
    : relative cwd root.text target.text
      = joinSep (List.replicate (root.names.length - commonLength root.names target.names) dotDot
          ++ target.names.drop (commonLength root.names target.names)) := by
  have above : resolvedSegments cwd root.text = root.names :=
    congrArg AbsolutePath.names (absolutePath_text cwd root)
  have below : resolvedSegments cwd target.text = target.names :=
    congrArg AbsolutePath.names (absolutePath_text cwd target)
  rw [relative, above, below]

/-- A path has its own names in common with every path below it. -/
theorem commonLength_of_prefix {above below : List JsString} (contained : above <+: below)
    : commonLength above below = above.length := by
  induction above generalizing below with
  | nil => rfl
  | cons first rest ih =>
      obtain ⟨more, rfl⟩ := contained
      rw [List.cons_append, commonLength, if_pos rfl, ih (List.prefix_append rest more)]
      rfl

/-- With every other path it has less in common. -/
theorem commonLength_lt {above below : List JsString} (outside : ¬ above <+: below)
    : commonLength above below < above.length := by
  induction above generalizing below with
  | nil => exact absurd List.nil_prefix outside
  | cons first rest ih =>
      cases below with
      | nil => exact Nat.succ_pos _
      | cons second more =>
          rw [commonLength]
          by_cases same : first = second
          · rw [if_pos same]
            refine Nat.succ_lt_succ (ih fun contained => outside ?_)
            exact List.cons_prefix_cons.mpr ⟨same, contained⟩
          · rw [if_neg same]
            exact Nat.succ_pos _

/-- From a path the way to what is below it goes down only. -/
theorem relative_below (contained : root.names <+: target.names)
    : relative cwd root.text target.text = joinSep (target.names.drop root.names.length) := by
  rw [relative_text, commonLength_of_prefix contained, Nat.sub_self]
  rfl

/-- No text of clean names leads up. -/
theorem not_up {names : List JsString} (clean : ∀ name ∈ names, CleanName name)
    : ¬ (joinSep names = dotDot ∨ dotDot ++ [sep] <+: joinSep names
        ∨ isAbsolute (joinSep names) = true) := by
  have dots : segments dotDot = [dotDot] := by decide
  rintro (same | ⟨rest, up⟩ | absolute)
  · have found := congrArg segments same
    rw [segments_joinSep clean, dots] at found
    exact (clean dotDot (found ▸ List.mem_singleton_self _)).notDotDot rfl
  · have found := congrArg segments up
    rw [List.append_assoc, List.singleton_append, segments_append_sep, dots,
      segments_joinSep clean] at found
    exact (clean dotDot (found ▸ List.mem_cons_self)).notDotDot rfl
  · rw [not_isAbsolute_joinSep clean] at absolute
    cases absolute

/-- From a path the way to everything else starts upwards. -/
theorem relative_up (cwd : JsString) (outside : ¬ root.names <+: target.names)
    : relative cwd root.text target.text ≠ []
      ∧ (relative cwd root.text target.text = dotDot
        ∨ dotDot ++ [sep] <+: relative cwd root.text target.text) := by
  have less := commonLength_lt outside
  obtain ⟨count, levels⟩ : ∃ count,
      root.names.length - commonLength root.names target.names = count + 1 :=
    ⟨root.names.length - commonLength root.names target.names - 1, by omega⟩
  rw [relative_text, levels, List.replicate_succ, List.cons_append]
  generalize List.replicate count dotDot ++ _ = rest
  by_cases last : rest = []
  · rw [last]
    exact ⟨List.cons_ne_nil _ _, .inl rfl⟩
  · have spelled : joinSep (dotDot :: rest) = dotDot ++ [sep] ++ joinSep rest := by
      rw [joinSep_cons last, List.append_assoc]
      rfl
    rw [spelled]
    exact ⟨List.cons_ne_nil _ _, .inr ⟨_, rfl⟩⟩

/-- A path contains another where its names are a prefix, between paths in the normal form. -/
theorem relative_normal (someRoot : root.names ≠ []) (someTarget : target.names ≠ [])
    : relativeFilesystemPath cwd root.text target.text
      = if root.names <+: target.names then
          some (joinSep (target.names.drop root.names.length))
        else none := by
  rw [relativeFilesystemPath, isNormalizedAbsolute_text, isNormalizedAbsolute_text,
    decide_eq_true someRoot, decide_eq_true someTarget, Bool.and_self, if_pos rfl]
  by_cases same : target.text = root.text
  · rw [if_pos same, text_injective same, if_pos List.prefix_rfl, List.drop_length]
    rfl
  · have different : target.names ≠ root.names := fun names =>
      same (congrArg AbsolutePath.text (AbsolutePath.ext names))
    rw [if_neg same]
    by_cases contained : root.names <+: target.names
    · rw [if_pos contained, if_pos ((text_prefix_iff someRoot).mpr ⟨contained, different⟩),
        drop_text someRoot contained different]
    · rw [if_neg contained, if_neg fun starts => contained ((text_prefix_iff someRoot).mp starts).1]

/-- A path contains another where its names are a prefix, through `relative`. -/
theorem resolvedRelative_text (cwd : JsString) (root target : AbsolutePath)
    : resolvedRelative cwd root.text target.text
      = if root.names <+: target.names then
          some (joinSep (target.names.drop root.names.length))
        else none := by
  rw [resolvedRelative, resolve_text, resolve_text]
  by_cases contained : root.names <+: target.names
  · have clean := target.drop_clean root.names.length
    have below : resolve root.text (joinSep (target.names.drop root.names.length)) = target.text := by
      rw [resolve_below clean, ← eq_below_of_prefix contained]
    rw [relative_below contained, if_pos contained]
    by_cases none_ : target.names.drop root.names.length = []
    · have same : root = target := by
        have names := eq_below_of_prefix contained
        refine AbsolutePath.ext ((congrArg AbsolutePath.names names).trans ?_).symm
        change root.names ++ target.names.drop root.names.length = root.names
        rw [none_, List.append_nil]
      have empty : joinSep ([] : List JsString) = [] := rfl
      rw [none_, empty, if_pos rfl, same, if_pos rfl]
    · rw [if_neg (joinSep_ne_nil clean none_), if_neg (not_up clean), if_pos below]
  · obtain ⟨way, up⟩ := relative_up cwd contained
    rw [if_neg way, if_pos (up.imp_right .inl), if_neg contained]

/-- A path contains another where its names are a prefix. The root of the file system is not in
the normal form and goes through `relative`.
-/
theorem relativeFilesystemPath_text (cwd : JsString) (root target : AbsolutePath)
    : relativeFilesystemPath cwd root.text target.text
      = if root.names <+: target.names then
          some (joinSep (target.names.drop root.names.length))
        else none := by
  by_cases named : root.names ≠ [] ∧ target.names ≠ []
  · exact relative_normal named.1 named.2
  · have general : (isNormalizedAbsolute root.text && isNormalizedAbsolute target.text) = false := by
      rw [isNormalizedAbsolute_text, isNormalizedAbsolute_text, ← Bool.decide_and]
      exact decide_eq_false named
    rw [relativeFilesystemPath_branches, general, if_neg Bool.false_ne_true, resolvedRelative_text]

theorem containsFilesystemPath_text (cwd : JsString) (root target : AbsolutePath)
    : containsFilesystemPath cwd root.text target.text = true ↔ root.names <+: target.names := by
  rw [containsFilesystemPath, relativeFilesystemPath_text]
  by_cases contained : root.names <+: target.names
  · simp [contained]
  · simp [contained]

end Containment

-- Projecting there and back

section Inverse

variable {cwd : JsString} {options : ExecutionPathProjectionOptions}

/-- The names of a path behind another are moved to a new root. -/
def moved (source target path : AbsolutePath) : AbsolutePath :=
  target.below (path.names.drop source.names.length) (path.drop_clean _)

/-- A move puts the path below the new root, and moving back undoes it. -/
theorem prefix_moved (source target path : AbsolutePath)
    : target.names <+: (moved source target path).names :=
  List.prefix_append _ _

theorem moved_moved {source target path : AbsolutePath} (contained : source.names <+: path.names)
    : moved target source (moved source target path) = path := by
  refine AbsolutePath.ext ?_
  obtain ⟨rest, same⟩ := contained
  have behind : path.names.drop source.names.length = rest := by rw [← same, List.drop_left]
  change source.names
    ++ (target.names ++ path.names.drop source.names.length).drop target.names.length = path.names
  rw [List.drop_left, behind, same]

/-- What a physical path is called. -/
theorem toLogical_eq (physicalPath : JsString)
    : (ExecutionPathProjection.create cwd options).toLogical cwd physicalPath
      = if (absolutePath cwd options.workspaceRoot).names
            <+: (absolutePath cwd physicalPath).names then
          (moved (absolutePath cwd options.workspaceRoot) (absolutePath cwd options.sourceRoot)
            (absolutePath cwd physicalPath)).text
        else (absolutePath cwd physicalPath).text := by
  rw [ExecutionPathProjection.toLogical, ExecutionPathProjection.create]
  dsimp only
  rw [resolve_eq_text, resolve_eq_text, resolve_eq_text, relativeFilesystemPath_text]
  split
  next found =>
    split at found
    next => cases found
    next outside => rw [if_neg outside]
  next between found =>
    split at found
    next contained =>
      rw [if_pos contained, ← Option.some.inj found, join_below (AbsolutePath.drop_clean _ _)]
      rfl
    next => cases found

/-- Where a logical path is. -/
theorem toPhysical_eq (logicalPath : JsString)
    : (ExecutionPathProjection.create cwd options).toPhysical cwd logicalPath
      = some (if (absolutePath cwd options.sourceRoot).names
            <+: (absolutePath cwd logicalPath).names then
          (moved (absolutePath cwd options.sourceRoot) (absolutePath cwd options.workspaceRoot)
            (absolutePath cwd logicalPath)).text
        else (absolutePath cwd logicalPath).text) := by
  rw [ExecutionPathProjection.toPhysical, ExecutionPathProjection.create]
  dsimp only
  rw [resolve_eq_text, resolve_eq_text, resolve_eq_text, relativeFilesystemPath_text]
  split
  next found =>
    split at found
    next => cases found
    next outside => rw [if_neg outside]
  next between found =>
    split at found
    next contained =>
      have below : resolve (absolutePath cwd options.workspaceRoot).text (joinSep _) = _ :=
        resolve_below (AbsolutePath.drop_clean (absolutePath cwd logicalPath)
          (absolutePath cwd options.sourceRoot).names.length)
      have inside := (containsFilesystemPath_text cwd (absolutePath cwd options.workspaceRoot)
        (moved (absolutePath cwd options.sourceRoot) (absolutePath cwd options.workspaceRoot)
          (absolutePath cwd logicalPath))).mpr (prefix_moved _ _ _)
      rw [if_pos contained, ← Option.some.inj found, below]
      exact if_pos inside
    next => cases found

/-- The physical paths that are projected: in the workspace, or outside the source root. -/
def PhysicalDomain (cwd : JsString) (options : ExecutionPathProjectionOptions) (path : JsString)
    : Prop :=
  containsFilesystemPath cwd (resolve cwd options.workspaceRoot) (resolve cwd path) = true
  ∨ containsFilesystemPath cwd (resolve cwd options.sourceRoot) (resolve cwd path) = false

/-- The logical paths that are projected: all but those in the workspace and outside the source
root.
-/
def LogicalDomain (cwd : JsString) (options : ExecutionPathProjectionOptions) (path : JsString)
    : Prop :=
  ¬ (containsFilesystemPath cwd (resolve cwd options.workspaceRoot) (resolve cwd path) = true
    ∧ containsFilesystemPath cwd (resolve cwd options.sourceRoot) (resolve cwd path) = false)

theorem contains_resolve_iff {root path : JsString}
    : containsFilesystemPath cwd (resolve cwd root) (resolve cwd path) = true
      ↔ (absolutePath cwd root).names <+: (absolutePath cwd path).names :=
  containsFilesystemPath_text cwd (absolutePath cwd root) (absolutePath cwd path)

theorem not_contains_resolve_iff {root path : JsString}
    : containsFilesystemPath cwd (resolve cwd root) (resolve cwd path) = false
      ↔ ¬ (absolutePath cwd root).names <+: (absolutePath cwd path).names := by
  rw [← Bool.not_eq_true, contains_resolve_iff]

/-- A physical path is found again from its logical one. -/
theorem toPhysical_toLogical {path : JsString} (domain : PhysicalDomain cwd options path)
    : (ExecutionPathProjection.create cwd options).toPhysical cwd
        ((ExecutionPathProjection.create cwd options).toLogical cwd path)
      = some (resolve cwd path) := by
  rw [PhysicalDomain, contains_resolve_iff, not_contains_resolve_iff] at domain
  rw [toLogical_eq, resolve_eq_text]
  by_cases inside
      : (absolutePath cwd options.workspaceRoot).names <+: (absolutePath cwd path).names
  · rw [if_pos inside, toPhysical_eq, absolutePath_text, if_pos (prefix_moved _ _ _),
      moved_moved inside]
  · rw [if_neg inside, toPhysical_eq, absolutePath_text, if_neg (domain.resolve_left inside)]

/-- A logical path is found again from its physical one. -/
theorem toLogical_toPhysical {path : JsString} (domain : LogicalDomain cwd options path)
    : ((ExecutionPathProjection.create cwd options).toPhysical cwd path).map
        ((ExecutionPathProjection.create cwd options).toLogical cwd)
      = some (resolve cwd path) := by
  rw [LogicalDomain, contains_resolve_iff, not_contains_resolve_iff] at domain
  rw [toPhysical_eq, Option.map_some, resolve_eq_text]
  by_cases inside
      : (absolutePath cwd options.sourceRoot).names <+: (absolutePath cwd path).names
  · rw [if_pos inside, toLogical_eq, absolutePath_text, if_pos (prefix_moved _ _ _),
      moved_moved inside]
  · have outside
        : ¬ (absolutePath cwd options.workspaceRoot).names <+: (absolutePath cwd path).names :=
      fun contained => domain ⟨contained, inside⟩
    rw [if_neg inside, toLogical_eq, absolutePath_text, if_neg outside]

/-- The two directions are inverse on the paths that are projected, whatever the roots are, and
so no two of these paths fall together. A path is the text it resolves to.
-/
theorem projection_inverse (cwd : JsString) (options : ExecutionPathProjectionOptions)
    : (∀ path, PhysicalDomain cwd options path →
        (ExecutionPathProjection.create cwd options).toPhysical cwd
            ((ExecutionPathProjection.create cwd options).toLogical cwd path)
          = some (resolve cwd path))
      ∧ (∀ path, LogicalDomain cwd options path →
          ((ExecutionPathProjection.create cwd options).toPhysical cwd path).map
              ((ExecutionPathProjection.create cwd options).toLogical cwd)
            = some (resolve cwd path))
      ∧ (∀ left right, PhysicalDomain cwd options left → PhysicalDomain cwd options right →
          (ExecutionPathProjection.create cwd options).toLogical cwd left
            = (ExecutionPathProjection.create cwd options).toLogical cwd right →
          resolve cwd left = resolve cwd right)
      ∧ ∀ left right, LogicalDomain cwd options left → LogicalDomain cwd options right →
          (ExecutionPathProjection.create cwd options).toPhysical cwd left
            = (ExecutionPathProjection.create cwd options).toPhysical cwd right →
          resolve cwd left = resolve cwd right := by
  refine ⟨fun path domain => toPhysical_toLogical domain,
    fun path domain => toLogical_toPhysical domain,
    fun left right leftDomain rightDomain same => ?_,
    fun left right leftDomain rightDomain same => ?_⟩
  · have found := toPhysical_toLogical leftDomain
    rw [same, toPhysical_toLogical rightDomain] at found
    exact (Option.some.inj found).symm
  · have found := toLogical_toPhysical leftDomain
    rw [same, toLogical_toPhysical rightDomain] at found
    exact (Option.some.inj found).symm

/-- A workspace inside the source root. -/
def nestedRoots : ExecutionPathProjectionOptions where
  sourceRoot := units "/a"
  workspaceRoot := units "/a/b"

theorem projection_inverse_nested
    : (ExecutionPathProjection.create (units "/") nestedRoots).toPhysical (units "/")
        ((ExecutionPathProjection.create (units "/") nestedRoots).toLogical (units "/")
          (units "/a/b/c"))
      = some (units "/a/b/c") :=
  (projection_inverse (units "/") nestedRoots).1 (units "/a/b/c") (.inl (by decide))

end Inverse

end SpeculativeAction.ExecutionPaths
