import SpeculativeAction.Library.NumberArithmetic
import SpeculativeAction.Numbers
import SpeculativeAction.ActionSemantics.Projection
import SpeculativeAction.PathContainment
import SpeculativeAction.PatternBindings.Paths

/-! Canonical actions of the host's tools, and that a canonical input is its own canonical form, so
that a prediction keeps its key however often it is canonicalised on its way.
-/

namespace SpeculativeAction.ActionSemantics

open SpeculativeAction.Library SpeculativeAction.Library.PosixPath
open SpeculativeAction.StableJson
open SpeculativeAction.PathContainment
open SpeculativeAction.ExecutionPaths (relativeFilesystemPath)

-- Fields of an input

section Fields

/-- `asRecord`: an object that is no array. -/
def record? : Data → Option (List (JsString × Data))
  | .object fields => some fields
  | _ => none

def finiteNumber (value : Data) : Option JsNumber := (number? value).filter JsNumber.isFinite

/-- `Math.floor`, which keeps a negative zero. -/
def mathFloor : JsNumber → JsNumber
  | .negativeZero => .negativeZero
  | number => number.floor

def isSafeCount (value : Data) (minimum : ℕ) : Bool :=
  match (number? value).bind JsNumber.value? with
  | some value => decide (value.den = 1 ∧ minimum ≤ value.num ∧ value.num ≤ Number.maxSafeInteger)
  | none => false

def validOptionalInteger : Data → ℕ → Bool
  | .undefined, _ => true
  | value, minimum => isSafeCount value minimum

/-- A number from the minimum on whose floor is safe, rounded down; otherwise the fallback. -/
def integerFrom (minimum : ℕ) (value : Data) (fallback : ℕ) : JsNumber :=
  match finiteNumber value with
  | some number =>
      let exact_ := number.value?.getD 0
      if ⌊exact_⌋ ≤ Number.maxSafeInteger ∧ minimum ≤ exact_ then mathFloor number
      else .ofDecimal false fallback
  | none => .ofDecimal false fallback

def positiveInteger (value : Data) (fallback : ℕ) : JsNumber := integerFrom 1 value fallback

def nonNegativeInteger (value : Data) (fallback : ℕ) : JsNumber := integerFrom 0 value fallback

/-- `normalizeReadLimit`. -/
def readLimit (value : Data) : JsNumber :=
  match finiteNumber value with
  | some number => JsNumber.max (.finite .zero) (mathFloor number)
  | none => .ofDecimal false 2000

/-- A field that is written when one is given. -/
def given : Data → (Data → Data) → Option Data
  | .undefined, _ => none
  | value, write => some (write value)

/-- The fields that have a value. -/
def present (entries : List (JsString × Option Data)) : List (JsString × Data) :=
  entries.filterMap fun entry => entry.2.map (entry.1, ·)

end Fields

-- Tools

section Tools

inductive PiTool where
  | read | grep | find | ls | bash | write | edit
deriving DecidableEq

def PiTool.all : List PiTool := [.read, .grep, .find, .ls, .bash, .write, .edit]

def PiTool.name : PiTool → JsString
  | .read => units "read"
  | .grep => units "grep"
  | .find => units "find"
  | .ls => units "ls"
  | .bash => units "bash"
  | .write => units "write"
  | .edit => units "edit"

def resourceObservationEffects : List EffectCapability :=
  normalizeEffectRequirements
    [.invocationHostFunction, .filesystemRead, .validationResourceSnapshot]

def workspacePathMutationEffects : List EffectCapability :=
  normalizeEffectRequirements
    [.invocationHostFunction, .invocationWorkspacePath, .filesystemRead, .filesystemWrite]

def unrestrictedProcessEffects : List EffectCapability :=
  normalizeEffectRequirements
    [.invocationProcess, .filesystemRead, .filesystemWrite, .processSpawn, .networkMediate,
      .ipcMediate, .timeVirtualize, .randomVirtualize, .outputGate]

/-- Stock query tools launch ambient executables. -/
def hostProcessEffects : List EffectCapability :=
  normalizeEffectRequirements (.invocationHostFunction :: unrestrictedProcessEffects)

/-- `PI_ACTION_SEMANTICS`. -/
def PiTool.semantics (tool : PiTool) : ActionSemanticsDefinition :=
  let epoch := units "pi." ++ tool.name
  match tool with
  | .read => ⟨tool.name, epoch, .observation, resourceObservationEffects, some .content⟩
  | .grep | .find => ⟨tool.name, epoch, .unbounded, hostProcessEffects, none⟩
  | .ls => ⟨tool.name, epoch, .observation, resourceObservationEffects, some .entries⟩
  | .bash => ⟨tool.name, epoch, .unbounded, unrestrictedProcessEffects, none⟩
  | .write | .edit => ⟨tool.name, epoch, .workspaceMutation, workspacePathMutationEffects, none⟩

def definition? (tool : JsString) : Option PiTool := PiTool.all.find? fun known => known.name = tool

theorem definition?_name (tool : PiTool) : definition? tool.name = some tool := by
  cases tool <;> decide

end Tools

-- Canonical actions

section Canonical

/-- The working directory of the process, and Pi's resolution of a tool path against a directory,
which may throw.
-/
structure PiHost where
  cwd : JsString
  resolveToCwd : JsString → JsString → Option JsString

structure CanonicalAction where
  input : Data
  resources : List JsString

/-- The path below the directory, prefixed where its plain spelling resolves to something else. -/
def normalizeWorkspacePath (host : PiHost) (value cwd : JsString) : Option JsString := do
  let root := resolve host.cwd cwd
  let target ← host.resolveToCwd value root
  let relative ← relativeFilesystemPath host.cwd root target
  let resource := if relative = [] then dot else relative
  let again ← host.resolveToCwd resource root
  if again = target then some resource else some (dot ++ sep :: resource)

def normalizeRelativeRoot (host : PiHost) (value : Data) (cwd : JsString) : Option JsString :=
  match value with
  | .undefined => normalizeWorkspacePath host dot cwd
  | .string text => normalizeWorkspacePath host text cwd
  | _ => none

def canonicalEdit (value : Data) : Option Data := do
  let edit ← record? value
  let oldText ← text? (fieldOf edit (units "oldText"))
  let newText ← text? (fieldOf edit (units "newText"))
  some (.object [(units "oldText", .string oldText), (units "newText", .string newText)])

/-- The fields of a tool that acts on a path, in order, once the path is known. -/
def pathFields (tool : PiTool) (record : List (JsString × Data))
    : Option (JsString → List (JsString × Option Data)) :=
  let field (name : String) := fieldOf record (units name)
  match tool with
  | .grep =>
      if !validOptionalInteger (field "limit") 1 then none
      else (text? (field "pattern")).bind fun pattern =>
        if !validOptionalInteger (field "context") 0 then none
        else some fun resource => [
          (units "pattern", some (.string pattern)),
          (units "path", some (.string resource)),
          (units "glob", (text? (field "glob")).map .string),
          (units "ignoreCase", some (.bool (isTrue (field "ignoreCase")))),
          (units "literal", some (.bool (isTrue (field "literal")))),
          (units "context", some (.number (nonNegativeInteger (field "context") 0))),
          (units "limit", some (.number (positiveInteger (field "limit") 100)))]
  | .find =>
      if !validOptionalInteger (field "limit") 1 then none
      else (text? (field "pattern")).map fun pattern resource => [
        (units "pattern", some (.string pattern)),
        (units "path", some (.string resource)),
        (units "limit", some (.number (positiveInteger (field "limit") 1000)))]
  | .ls =>
      if !validOptionalInteger (field "limit") 1 then none
      else some fun resource => [
        (units "path", some (.string resource)),
        (units "limit", some (.number (positiveInteger (field "limit") 500)))]
  | .read =>
      if !validOptionalInteger (field "offset") 1 || !validOptionalInteger (field "limit") 0 then none
      else some fun resource => [
        (units "path", some (.string resource)),
        (units "offset", some (.number (positiveInteger (field "offset") 1))),
        (units "limit", given (field "limit") fun value => .number (readLimit value))]
  | .write =>
      (text? (field "content")).map fun content resource => [
        (units "path", some (.string resource)),
        (units "content", some (.string content))]
  | .edit =>
      match field "edits" with
      | .array (first :: rest) =>
          ((first :: rest).mapM canonicalEdit).map fun edits resource => [
            (units "path", some (.string resource)),
            (units "edits", some (.array edits))]
      | _ => none
  | .bash => none

/-- Queries have a path of their own; the other tools are given one. -/
def PiTool.isQuery (tool : PiTool) : Bool :=
  match tool with
  | .grep | .find | .ls => true
  | _ => false

def PiTool.mutates (tool : PiTool) : Bool :=
  match tool with
  | .write | .edit => true
  | _ => false

def pathResource (host : PiHost) (tool : PiTool) (path : Data) (cwd : JsString)
    : Option JsString :=
  if tool.isQuery then normalizeRelativeRoot host path cwd
  else (text? path).bind fun path => normalizeWorkspacePath host path cwd

def canonicalPiAction (host : PiHost) (tool : PiTool) (input : Data) (cwd : JsString)
    : Option CanonicalAction := do
  let record ← record? input
  if tool = .bash then
    let command ← text? (fieldOf record (units "command"))
    let resource := resolve host.cwd cwd
    some ⟨.object (present [
      (units "command", some (.string command)),
      (units "cwd", some (.string resource)),
      (units "timeout", (finiteNumber (fieldOf record (units "timeout"))).map .number)]), [resource]⟩
  else
    let fields ← pathFields tool record
    let resource ← pathResource host tool (fieldOf record (units "path")) cwd
    if tool.mutates ∧ resource = dot then none
    else some ⟨.object (present (fields resource)), [resource]⟩

/-- The path functions of a POSIX host. -/
def posixPath (cwd : JsString) : PathModule where
  separator := sep
  resolve texts := resolve cwd (texts.foldl
    (fun before text => if isAbsolute text ∨ before = [] then text else before ++ sep :: text) [])
  dirname := PatternBindings.dirname
  isAbsolute := isAbsolute

/-- `PI_ACTION_SEMANTICS.buildKey`; what throws has no key. -/
def buildKey (host : PiHost) (tool : JsString) (input : Data) (cwd schemaHash : JsString)
    (fingerprint : Option JsString) : Option ActionKey := do
  let known ← definition? tool
  let canonical ← canonicalPiAction host known input cwd
  (buildActionKey (posixPath host.cwd)
    { tool
      resources := canonical.resources
      input := canonical.input
      resourceRoot := some cwd
      schemaHash := some schemaHash
      semanticsEpoch := some known.semantics.epoch
      executionFingerprint := fingerprint }).toOption

end Canonical

-- Numbers and fields are read back

section Readings

variable {number : JsNumber} {value : Data}

/-- A whole number is its own floor. -/
theorem mathFloor_of_whole {value : ℚ} (exact_ : number.value? = some value)
    (whole : (⌊value⌋ : ℚ) = value)
    : mathFloor number = number := by
  cases number with
  | finite number =>
      obtain rfl : number.value = value := Option.some.inj exact_
      have floored : mathFloor (.finite number) = Library.JsNumber.ofRat ⌊number.value⌋ := rfl
      rw [floored, whole, JsNumber.ofRat_of_some number.representable]
  | negativeZero => rfl
  | infinite negative => cases exact_
  | nan => cases exact_

theorem isSafeCount_iff {minimum : ℕ}
    : isSafeCount value minimum = true
      ↔ ∃ number exact_, value = .number number ∧ JsNumber.value? number = some exact_
        ∧ (⌊exact_⌋ : ℚ) = exact_ ∧ (minimum : ℚ) ≤ exact_
        ∧ ⌊exact_⌋ ≤ Number.maxSafeInteger := by
  have whole (exact_ : ℚ) : exact_.den = 1 ↔ (⌊exact_⌋ : ℚ) = exact_ := by
    constructor
    · intro one
      rw [← Rat.num_div_den exact_, one]
      simp
    · intro same
      rw [← same]
      exact Rat.den_intCast _
  have floors (exact_ : ℚ) (same : (⌊exact_⌋ : ℚ) = exact_) : exact_.num = ⌊exact_⌋ := by
    conv_lhs => rw [← same]
    exact Rat.num_intCast _
  constructor
  · intro safe
    cases value with
    | number number =>
        cases exact_ : JsNumber.value? number with
        | none => simp [isSafeCount, number?, exact_] at safe
        | some value =>
            have parts : value.den = 1 ∧ (minimum : ℤ) ≤ value.num
                ∧ value.num ≤ Number.maxSafeInteger := by
              simpa [isSafeCount, number?, exact_] using safe
            have same := (whole value).mp parts.1
            rw [floors value same] at parts
            refine ⟨number, value, rfl, exact_, same, ?_, parts.2.2⟩
            rw [← same]
            exact_mod_cast parts.2.1
    | _ => cases safe
  · rintro ⟨number, value, rfl, exact_, same, low, high⟩
    have least : (minimum : ℤ) ≤ ⌊value⌋ := by
      rw [← same] at low
      exact_mod_cast low
    simp [isSafeCount, number?, exact_, (whole value).mpr same, floors value same, least, high]

theorem finiteNumber_of_value? {value : ℚ} (exact_ : number.value? = some value)
    : finiteNumber (.number number) = some number := by
  simp [finiteNumber, number?, JsNumber.isFinite, exact_]

/-- A safe count is kept as it is. -/
theorem integerFrom_of_safe {minimum fallback : ℕ}
    (safe : isSafeCount (.number number) minimum = true)
    : integerFrom minimum (.number number) fallback = number := by
  obtain ⟨_, value, same, exact_, whole, low, high⟩ := isSafeCount_iff.mp safe
  obtain rfl := Data.number.inj same
  rw [integerFrom, finiteNumber_of_value? exact_]
  simp only [exact_, Option.getD_some]
  rw [if_pos ⟨high, low⟩, mathFloor_of_whole exact_ whole]

theorem readLimit_of_safe (safe : isSafeCount (.number number) 0 = true)
    : readLimit (.number number) = JsNumber.max (.finite .zero) number := by
  obtain ⟨_, value, same, exact_, whole, _, _⟩ := isSafeCount_iff.mp safe
  obtain rfl := Data.number.inj same
  rw [readLimit, finiteNumber_of_value? exact_]
  simp only
  rw [mathFloor_of_whole exact_ whole]

/-- A count that was valid or left out is written as a safe one, which is read as it is. -/
theorem integerFrom_again {minimum : ℕ} (fallback : ℕ)
    (valid : validOptionalInteger value minimum = true)
    (known : isSafeCount (.number (.ofDecimal false fallback)) minimum = true)
    : validOptionalInteger (.number (integerFrom minimum value fallback)) minimum = true
      ∧ integerFrom minimum (.number (integerFrom minimum value fallback)) fallback
        = integerFrom minimum value fallback := by
  have safe : isSafeCount (.number (integerFrom minimum value fallback)) minimum = true := by
    cases value with
    | undefined => exact known
    | number number =>
        have safe : isSafeCount (.number number) minimum = true := valid
        rw [integerFrom_of_safe safe]
        exact safe
    | _ => cases valid
  exact ⟨safe, integerFrom_of_safe safe⟩

/-- The larger of zero and a safe count is a safe count, and no smaller than zero. -/
theorem isSafeCount_max (safe : isSafeCount (.number number) 0 = true)
    : isSafeCount (.number (JsNumber.max (.finite .zero) number)) 0 = true
      ∧ JsNumber.max (.finite .zero) (JsNumber.max (.finite .zero) number)
        = JsNumber.max (.finite .zero) number := by
  have known : ¬(JsNumber.finite .zero = .nan ∨ number = .nan) := by
    rintro (unknown | rfl)
    · cases unknown
    · cases safe
  have chosen : JsNumber.max (.finite .zero) number
      = if (JsNumber.finite .zero).place < number.place then number else .finite .zero :=
    if_neg known
  rw [chosen]
  split
  · next above => exact ⟨safe, chosen.trans (if_pos above)⟩
  · exact ⟨by decide +kernel, by decide +kernel⟩

/-- A read limit that was valid or left out is written so that it is read as it is. -/
theorem readLimit_again (valid : validOptionalInteger value 0 = true)
    : validOptionalInteger
        ((given value fun value => .number (readLimit value)).getD .undefined) 0 = true
      ∧ (given ((given value fun value => .number (readLimit value)).getD .undefined)
          fun value => .number (readLimit value))
        = given value fun value => .number (readLimit value) := by
  cases value with
  | undefined => exact ⟨rfl, rfl⟩
  | number number =>
      have safe : isSafeCount (.number number) 0 = true := valid
      obtain ⟨kept, again⟩ := isSafeCount_max safe
      simp only [given, Option.getD_some, validOptionalInteger, readLimit_of_safe safe,
        readLimit_of_safe kept, again, kept, and_self]
  | _ => cases valid

variable {entries : List (JsString × Option Data)} {name : JsString}

theorem mem_keys_present : name ∈ (present entries).map Prod.fst
    ↔ ∃ value, (name, some value) ∈ entries := by
  constructor
  · intro member
    obtain ⟨field, inside, rfl⟩ := List.mem_map.mp member
    obtain ⟨entry, listed, made⟩ := List.mem_filterMap.mp inside
    obtain ⟨value, given, rfl⟩ := Option.map_eq_some_iff.mp made
    exact ⟨value, given ▸ listed⟩
  · rintro ⟨value, member⟩
    exact List.mem_map.mpr ⟨(name, value), List.mem_filterMap.mpr ⟨_, member, rfl⟩, rfl⟩

theorem keys_present_sublist (entries : List (JsString × Option Data))
    : ((present entries).map Prod.fst).Sublist (entries.map Prod.fst) := by
  induction entries with
  | nil => exact .slnil
  | cons entry rest ih =>
      obtain ⟨key, value⟩ := entry
      cases value with
      | none => exact ih.cons _
      | some value => exact ih.cons_cons _

/-- A field that is present is read back; one that is left out is undefined. -/
theorem fieldOf_present (distinct : (entries.map Prod.fst).Nodup) {value : Option Data}
    (member : (name, value) ∈ entries)
    : fieldOf (present entries) name = value.getD .undefined := by
  cases value with
  | some value =>
      exact fieldOf_of_mem (distinct.sublist (keys_present_sublist entries))
        (List.mem_filterMap.mpr ⟨_, member, rfl⟩)
  | none =>
      refine fieldOf_of_not_mem fun present => ?_
      obtain ⟨value, other⟩ := mem_keys_present.mp present
      have same := List.inj_on_of_nodup_map distinct member other rfl
      cases same

end Readings

-- Paths are kept

section Paths

variable {host : PiHost}

/-- What is relied on of Pi's path resolution: it gives normalized absolute paths, and a canonical
`./`-relative path resolves to the path that it denotes.
-/
structure PiHost.Resolves (host : PiHost) : Prop where
  normal
    : ∀ value root target,
        host.resolveToCwd value root = some target → resolve host.cwd target = target
  denotes
    : ∀ value root target relative,
        host.resolveToCwd value root = some target
        → relativeFilesystemPath host.cwd root target = some relative
        → host.resolveToCwd (dot ++ sep :: (if relative = [] then dot else relative)) root
          = some (resolveFrom host.cwd root
            (dot ++ sep :: (if relative = [] then dot else relative)))

/-- A leading `./` does not change what a relative text denotes. -/
theorem resolveFrom_dot {cwd root text : JsString} (relative : isAbsolute text = false)
    : resolveFrom cwd root (dot ++ sep :: (if text = [] then dot else text))
      = resolveFrom cwd root text := by
  have skips (before : List JsString) (names : List JsString)
      : resolveSegments false (before ++ dot :: names) = resolveSegments false (before ++ names) := by
    have skipped (resolved : List JsString) : pushSegment false resolved dot = resolved := if_pos rfl
    rw [resolveSegments, resolveSegments, List.foldl_append, List.foldl_append, List.foldl_cons,
      skipped]
  have prefixed (rest : JsString) : isAbsolute (dot ++ sep :: rest) = false := rfl
  have segmented (rest : JsString) : segments (dot ++ sep :: rest) = dot :: segments rest := by
    rw [segments_append_sep]
    rfl
  have bare : ∀ before : List JsString, resolveSegments false
      (before ++ segments (if text = [] then dot else text))
        = resolveSegments false (before ++ segments text) := by
    intro before
    split
    · next nothing =>
        rw [nothing, show segments dot = [dot] from rfl, skips]
        rfl
    · rfl
  rw [resolveFrom, resolveFrom, prefixed, relative, if_neg Bool.false_ne_true,
    if_neg Bool.false_ne_true, segmented]
  split
  · rw [skips, bare]
  · rw [skips, bare]

/-- A resolved path is normalized. -/
theorem resolve_resolveFrom (cwd base root text : JsString)
    : resolve cwd (resolveFrom base root text) = resolveFrom base root text := by
  have clean : ∀ names : List JsString, (∀ name ∈ names, name ≠ [] ∧ sep ∉ name)
      → ∀ name ∈ resolveSegments false names, CleanName name := by
    intro names plain name member
    exact foldl_pushSegment_clean plain (fun _ none_ => absurd none_ List.not_mem_nil) name
      (List.mem_reverse.mp member)
  refine resolve_text cwd ⟨_, clean _ fun name member => ?_⟩
  split at member
  · exact mem_segments member
  · split at member
    · exact (List.mem_append.mp member).elim mem_segments mem_segments
    · rcases List.mem_append.mp member with before | after
      · exact (List.mem_append.mp before).elim mem_segments mem_segments
      · exact mem_segments after

/-- What leads down from a root is no absolute text. -/
theorem isAbsolute_relativeFilesystemPath {cwd root target between : JsString}
    (found : relativeFilesystemPath cwd root target = some between)
    : isAbsolute between = false := by
  rw [relativeFilesystemPath_eq, resolvedRelative_eq] at found
  split at found
  · rw [← Option.some.inj found]
    exact not_isAbsolute_joinSep (AbsolutePath.drop_clean _ _)
  · cases found

/-- A canonical path is canonical. -/
theorem normalizeWorkspacePath_again (resolves : host.Resolves) {value cwd resource : JsString}
    (found : normalizeWorkspacePath host value cwd = some resource)
    : normalizeWorkspacePath host resource cwd = some resource := by
  rw [normalizeWorkspacePath] at found
  simp only [Option.bind_eq_bind, Option.bind_eq_some_iff] at found
  obtain ⟨target, reached, relative, below, again, plain, chosen⟩ := found
  split at chosen
  · next same =>
      obtain rfl := Option.some.inj chosen
      subst same
      rw [normalizeWorkspacePath]
      simp only [plain, below, Option.bind_eq_bind, Option.bind_some, if_pos]
  · next different =>
      obtain rfl := Option.some.inj chosen
      have denoted := resolves.denotes value _ target relative reached below
      rw [resolveFrom_dot (isAbsolute_relativeFilesystemPath below),
        resolveFrom_relativeFilesystemPath below, resolves.normal _ _ _ reached] at denoted
      rw [normalizeWorkspacePath]
      simp only [denoted, below, plain, Option.bind_eq_bind, Option.bind_some, if_neg different]

theorem pathResource_again (resolves : host.Resolves) {tool : PiTool} {path : Data}
    {cwd resource : JsString} (found : pathResource host tool path cwd = some resource)
    : pathResource host tool (.string resource) cwd = some resource := by
  have again : normalizeWorkspacePath host resource cwd = some resource := by
    rw [pathResource] at found
    split at found
    · cases path with
      | undefined | string text => exact normalizeWorkspacePath_again resolves found
      | _ => cases found
    · obtain ⟨text, _, resolved⟩ := Option.bind_eq_some_iff.mp found
      exact normalizeWorkspacePath_again resolves resolved
  rw [pathResource]
  split
  · exact again
  · exact again

end Paths

-- Canonical inputs are kept

section Again

variable {host : PiHost} {tool : PiTool} {record : List (JsString × Data)}
  {fields : JsString → List (JsString × Option Data)}

theorem canonicalEdit_again {value edit : Data} (made : canonicalEdit value = some edit)
    : canonicalEdit edit = some edit := by
  rw [canonicalEdit] at made
  simp only [Option.bind_eq_bind, Option.bind_eq_some_iff] at made
  obtain ⟨record, _, oldText, _, newText, _, same⟩ := made
  obtain rfl := Option.some.inj same
  rfl

theorem mapM_canonicalEdit_again {values edits : List Data}
    (made : values.mapM canonicalEdit = some edits)
    : edits.mapM canonicalEdit = some edits := by
  induction values generalizing edits with
  | nil =>
      obtain rfl : [] = edits := Option.some.inj made
      rfl
  | cons value rest ih =>
      rw [List.mapM_cons] at made
      simp only [Option.bind_eq_bind, Option.bind_eq_some_iff] at made
      obtain ⟨edit, here, more, later, same⟩ := made
      obtain rfl := Option.some.inj same
      rw [List.mapM_cons, canonicalEdit_again here, ih later]
      rfl

/-- What is written of a path action is read back: its path, and all of its fields. -/
structure ReadBack (tool : PiTool) (fields : JsString → List (JsString × Option Data))
    (resource : JsString) : Prop where
  path : fieldOf (present (fields resource)) (units "path") = .string resource
  fields : pathFields tool (present (fields resource)) = some fields

/-- Fields with distinct names are read back as they are written. -/
theorem fieldOf_written {fields entries : JsString → List (JsString × Option Data)}
    (made : entries = fields) (resource : JsString)
    (distinct : ((entries resource).map Prod.fst).Nodup) (name : JsString) (value : Option Data)
    (member : (name, value) ∈ entries resource)
    : fieldOf (present (fields resource)) name = value.getD .undefined :=
  made ▸ fieldOf_present distinct member

theorem text?_kept (value : Data)
    : text? (((text? value).map Data.string).getD .undefined) = text? value := by
  cases value <;> rfl

theorem finiteNumber_kept (value : Data)
    : finiteNumber (((finiteNumber value).map Data.number).getD .undefined) = finiteNumber value := by
  cases kept : finiteNumber value with
  | none => rfl
  | some number =>
      obtain ⟨_, finite⟩ := Option.filter_eq_some_iff.mp kept
      exact Option.filter_eq_some_iff.mpr ⟨rfl, finite⟩

theorem isTrue_kept (value : Data) : isTrue (.bool (isTrue value)) = isTrue value := by
  cases isTrue value <;> rfl

theorem readBack_grep (found : pathFields .grep record = some fields) (resource : JsString)
    : ReadBack .grep fields resource := by
  rw [pathFields] at found
  simp only at found
  split at found
  · cases found
  · next limit =>
      obtain ⟨pattern, _, found⟩ := Option.bind_eq_some_iff.mp found
      split at found
      · cases found
      · next context =>
          obtain ⟨limitValid, limitKept⟩ := integerFrom_again 100
            (by simpa using limit) (by decide +kernel)
          obtain ⟨contextValid, contextKept⟩ := integerFrom_again 0
            (by simpa using context) (by decide +kernel)
          have made := Option.some.inj found
          have written := fieldOf_written made resource (by
            simp only [List.map_cons, List.map_nil]
            decide)
          have patternRead := written (units "pattern") (some (.string pattern)) (by simp)
          have globRead := written (units "glob")
            ((text? (fieldOf record (units "glob"))).map .string) (by simp)
          have ignoreCaseRead := written (units "ignoreCase")
            (some (.bool (isTrue (fieldOf record (units "ignoreCase"))))) (by simp)
          have literalRead := written (units "literal")
            (some (.bool (isTrue (fieldOf record (units "literal"))))) (by simp)
          have contextRead := written (units "context")
            (some (.number (nonNegativeInteger (fieldOf record (units "context")) 0))) (by simp)
          have limitRead := written (units "limit")
            (some (.number (positiveInteger (fieldOf record (units "limit")) 100))) (by simp)
          refine ⟨written _ (some (.string resource)) (by simp), ?_⟩
          rw [pathFields]
          simp only [patternRead, globRead, ignoreCaseRead, literalRead, contextRead, limitRead,
            Option.getD_some, nonNegativeInteger, positiveInteger, limitValid, contextValid,
            limitKept, contextKept, text?_kept, isTrue_kept]
          exact found

theorem readBack_find (found : pathFields .find record = some fields) (resource : JsString)
    : ReadBack .find fields resource := by
  rw [pathFields] at found
  simp only at found
  split at found
  · cases found
  · next limit =>
      obtain ⟨pattern, _, made⟩ := Option.map_eq_some_iff.mp found
      obtain ⟨limitValid, limitKept⟩ := integerFrom_again 1000
        (by simpa using limit) (by decide +kernel)
      have written := fieldOf_written made resource (by
        simp only [List.map_cons, List.map_nil]
        decide)
      have patternRead := written (units "pattern") (some (.string pattern)) (by simp)
      have limitRead := written (units "limit")
        (some (.number (positiveInteger (fieldOf record (units "limit")) 1000))) (by simp)
      refine ⟨written _ (some (.string resource)) (by simp), ?_⟩
      rw [pathFields]
      simp only [patternRead, limitRead, Option.getD_some, positiveInteger, limitValid, limitKept]
      exact congrArg some made

theorem readBack_ls (found : pathFields .ls record = some fields) (resource : JsString)
    : ReadBack .ls fields resource := by
  rw [pathFields] at found
  simp only at found
  split at found
  · cases found
  · next limit =>
      obtain ⟨limitValid, limitKept⟩ := integerFrom_again 500
        (by simpa using limit) (by decide +kernel)
      have written := fieldOf_written (Option.some.inj found) resource (by
        simp only [List.map_cons, List.map_nil]
        decide)
      have limitRead := written (units "limit")
        (some (.number (positiveInteger (fieldOf record (units "limit")) 500))) (by simp)
      refine ⟨written _ (some (.string resource)) (by simp), ?_⟩
      rw [pathFields]
      simp only [limitRead, Option.getD_some, positiveInteger, limitValid, limitKept]
      exact found

theorem readBack_read (found : pathFields .read record = some fields) (resource : JsString)
    : ReadBack .read fields resource := by
  rw [pathFields] at found
  simp only at found
  split at found
  · cases found
  · next valid =>
      obtain ⟨offset, limit⟩ : validOptionalInteger (fieldOf record (units "offset")) 1 = true
          ∧ validOptionalInteger (fieldOf record (units "limit")) 0 = true := by
        simpa using valid
      obtain ⟨offsetValid, offsetKept⟩ := integerFrom_again 1 offset (by decide +kernel)
      obtain ⟨limitValid, limitKept⟩ := readLimit_again limit
      have written := fieldOf_written (Option.some.inj found) resource (by
        simp only [List.map_cons, List.map_nil]
        decide)
      have offsetRead := written (units "offset")
        (some (.number (positiveInteger (fieldOf record (units "offset")) 1))) (by simp)
      have limitRead := written (units "limit")
        (given (fieldOf record (units "limit")) fun value => .number (readLimit value)) (by simp)
      refine ⟨written _ (some (.string resource)) (by simp), ?_⟩
      rw [pathFields]
      simp only [offsetRead, limitRead, Option.getD_some, positiveInteger, offsetValid, offsetKept,
        limitValid, limitKept]
      exact found

theorem readBack_write (found : pathFields .write record = some fields) (resource : JsString)
    : ReadBack .write fields resource := by
  rw [pathFields] at found
  obtain ⟨content, _, made⟩ := Option.map_eq_some_iff.mp found
  have written := fieldOf_written made resource (by
    simp only [List.map_cons, List.map_nil]
    decide)
  have contentRead := written (units "content") (some (.string content)) (by simp)
  refine ⟨written _ (some (.string resource)) (by simp), ?_⟩
  rw [pathFields]
  simp only [contentRead, Option.getD_some]
  exact congrArg some made

theorem readBack_edit (found : pathFields .edit record = some fields) (resource : JsString)
    : ReadBack .edit fields resource := by
  rw [pathFields] at found
  simp only at found
  split at found
  · next first rest _ =>
      obtain ⟨edits, mapped, made⟩ := Option.map_eq_some_iff.mp found
      have written := fieldOf_written made resource (by
        simp only [List.map_cons, List.map_nil]
        decide)
      have editsRead := written (units "edits") (some (.array edits)) (by simp)
      refine ⟨written _ (some (.string resource)) (by simp), ?_⟩
      have again := mapM_canonicalEdit_again mapped
      obtain ⟨head, tail, rfl⟩ : ∃ head tail, edits = head :: tail := by
        rw [List.mapM_cons] at mapped
        simp only [Option.bind_eq_bind, Option.bind_eq_some_iff] at mapped
        obtain ⟨head, _, tail, _, same⟩ := mapped
        exact ⟨head, tail, (Option.some.inj same).symm⟩
      rw [pathFields]
      simp only [editsRead, Option.getD_some, again]
      exact congrArg some made
  · cases found

/-- The canonical fields of a path action are its fields again. -/
theorem readBack (found : pathFields tool record = some fields) (resource : JsString)
    : ReadBack tool fields resource := by
  cases tool with
  | read => exact readBack_read found resource
  | grep => exact readBack_grep found resource
  | find => exact readBack_find found resource
  | ls => exact readBack_ls found resource
  | bash => cases found
  | write => exact readBack_write found resource
  | edit => exact readBack_edit found resource

/-- A canonical input is its own canonical form. -/
theorem canonicalPiAction_again (resolves : host.Resolves) {input : Data} {cwd : JsString}
    {canonical : CanonicalAction} (found : canonicalPiAction host tool input cwd = some canonical)
    : canonicalPiAction host tool canonical.input cwd = some canonical := by
  rw [canonicalPiAction] at found
  simp only [Option.bind_eq_bind] at found
  obtain ⟨record, _, found⟩ := Option.bind_eq_some_iff.mp found
  split at found
  · next bash =>
      obtain ⟨command, _, made⟩ := Option.bind_eq_some_iff.mp found
      obtain rfl := Option.some.inj made
      have written := fieldOf_written (rfl : (fun resource => [
          (units "command", some (Data.string command)),
          (units "cwd", some (.string resource)),
          (units "timeout", (finiteNumber (fieldOf record (units "timeout"))).map .number)]) = _)
        (resolve host.cwd cwd) (by
          simp only [List.map_cons, List.map_nil]
          decide)
      have commandRead := written (units "command") (some (.string command)) (by simp)
      have timeoutRead := written (units "timeout")
        ((finiteNumber (fieldOf record (units "timeout"))).map .number) (by simp)
      rw [canonicalPiAction]
      simp only [record?, Option.bind_eq_bind, Option.bind_some, if_pos bash, commandRead,
        timeoutRead, Option.getD_some, text?, finiteNumber_kept]
  · next other =>
      obtain ⟨fields, wanted, found⟩ := Option.bind_eq_some_iff.mp found
      obtain ⟨resource, reached, found⟩ := Option.bind_eq_some_iff.mp found
      split at found
      · cases found
      · next allowed =>
          obtain rfl := Option.some.inj found
          obtain ⟨pathRead, fieldsRead⟩ := readBack wanted resource
          rw [canonicalPiAction]
          simp only [record?, Option.bind_eq_bind, Option.bind_some, if_neg other, fieldsRead,
            pathRead, pathResource_again resolves reached, if_neg allowed]

/-- A canonical input is its own canonical form, and has the key of every input that it stands
for.
-/
theorem canonical_fixed (resolves : host.Resolves) {input : Data} {cwd : JsString}
    {canonical : CanonicalAction} (found : canonicalPiAction host tool input cwd = some canonical)
    : canonicalPiAction host tool canonical.input cwd = some canonical
      ∧ ∀ schemaHash fingerprint,
          buildKey host tool.name canonical.input cwd schemaHash fingerprint
            = buildKey host tool.name input cwd schemaHash fingerprint := by
  have again := canonicalPiAction_again resolves found
  refine ⟨again, fun schemaHash fingerprint => ?_⟩
  simp only [buildKey, definition?_name, again, found, Option.bind_eq_bind, Option.bind_some]

/-- A host whose resolution takes a leading `@` away. -/
def atSignHost : PiHost where
  cwd := units "/"
  resolveToCwd value root := some (resolveFrom (units "/") root
    (if value.head? = some (unit '@') then value.tail else value))

theorem atSignHost_resolves : atSignHost.Resolves where
  normal value root target reached := by
    rw [← Option.some.inj reached]
    exact resolve_resolveFrom _ _ _ _
  denotes value root target relative _ _ := rfl

theorem canonical_fixed_sample
    : ∃ canonical,
        canonicalPiAction atSignHost .read
          (.object [(units "path", .string (units "@@notes"))]) (units "/work") = some canonical
        ∧ canonical.resources = [units "./@notes"]
        ∧ canonicalPiAction atSignHost .read canonical.input (units "/work") = some canonical
        ∧ ∀ schemaHash fingerprint,
            buildKey atSignHost PiTool.read.name canonical.input (units "/work") schemaHash
                fingerprint
              = buildKey atSignHost PiTool.read.name
                (.object [(units "path", .string (units "@@notes"))]) (units "/work") schemaHash
                fingerprint :=
  ⟨⟨.object [(units "path", .string (units "./@notes")), (units "offset", .number (.ofDecimal false 1))],
      [units "./@notes"]⟩,
    rfl, rfl, canonical_fixed atSignHost_resolves rfl⟩

end Again

end SpeculativeAction.ActionSemantics
