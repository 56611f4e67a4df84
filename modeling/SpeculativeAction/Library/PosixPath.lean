import Mathlib.Data.List.DropRight
import SpeculativeAction.Library.NumberText

/-! POSIX path texts: their segments, `normalize`, `join`, `resolve` and `relative`, and the
parent relation between the names of a tree.
-/

namespace SpeculativeAction.Library.PosixPath

open SpeculativeAction.Library

/-- `path.sep`. -/
def sep : CodeUnit := unit '/'

section Segments

/-- `text.split(path.sep)`. -/
def splitSep : JsString → List JsString
  | [] => [[]]
  | other :: rest =>
      if other = sep then [] :: splitSep rest
      else ((other :: (splitSep rest).headD []) :: (splitSep rest).tail)

/-- `text.split(path.sep).filter(Boolean)`. -/
def segments (text : JsString) : List JsString :=
  (splitSep text).filter fun segment => decide (segment ≠ [])

def joinSep : List JsString → JsString
  | [] => []
  | segment :: [] => segment
  | segment :: next :: rest => segment ++ sep :: joinSep (next :: rest)

def dot : JsString := [unit '.']

def dotDot : JsString := [unit '.', unit '.']

/-- One segment onto the resolved ones, the last of them first. Above the start a `..` stays
where `allowAboveRoot` and is dropped elsewhere.
-/
def pushSegment (allowAboveRoot : Bool) (resolved : List JsString) (segment : JsString)
    : List JsString :=
  if segment = dot then resolved
  else if segment = dotDot then
    match resolved with
    | [] => if allowAboveRoot then [dotDot] else []
    | last :: rest => if last = dotDot then dotDot :: last :: rest else rest
  else segment :: resolved

def resolveSegments (allowAboveRoot : Bool) (names : List JsString) : List JsString :=
  (names.foldl (pushSegment allowAboveRoot) []).reverse

def isAbsolute (text : JsString) : Bool := decide (text.head? = some sep)

/-- `path.normalize`: a trailing separator is kept. -/
def normalize (text : JsString) : JsString :=
  let resolved := joinSep (resolveSegments (!isAbsolute text) (segments text))
  let trailing : JsString := if text ≠ [] ∧ text.getLast? = some sep then [sep] else []
  match isAbsolute text, resolved with
  | true, [] => [sep]
  | true, _ => sep :: resolved ++ trailing
  | false, [] => dot ++ trailing
  | false, _ => resolved ++ trailing

/-- `path.join` of two texts; an empty one is left out. -/
def join (left right : JsString) : JsString :=
  if left = [] then normalize right
  else if right = [] then normalize left
  else normalize (left ++ sep :: right)

/-- The segments of `path.resolve`, an absolute path. -/
def resolvedSegments (cwd text : JsString) : List JsString :=
  resolveSegments false
    (if isAbsolute text then segments text else segments cwd ++ segments text)

/-- `path.resolve`. -/
def resolve (cwd text : JsString) : JsString := sep :: joinSep (resolvedSegments cwd text)

end Segments

section Names

/-- The text after the last separator. -/
def baseName (name : JsString) : JsString :=
  name.rtakeWhile fun other => decide (other ≠ sep)

/-- The name of an entry of a directory; the root's name is empty. -/
def childName (parent entry : JsString) : JsString :=
  if parent = [] then entry else parent ++ sep :: entry

/-- `name` is an entry of `parent`. -/
def IsChild (parent name : JsString) : Prop :=
  baseName name ≠ [] ∧ name = childName parent (baseName name)

instance (parent name : JsString) : Decidable (IsChild parent name) :=
  inferInstanceAs (Decidable (_ ∧ _))

/-- `name.split(path.sep).filter(Boolean).length`. -/
def depth (name : JsString) : ℕ := (segments name).length

variable {parent other name : JsString}

theorem splitSep_ne_nil (text : JsString) : splitSep text ≠ [] := by
  cases text with
  | nil => simp [splitSep]
  | cons first rest =>
      rw [splitSep]
      by_cases same : first = sep
      · simp [same]
      · simp [same]

theorem splitSep_append_sep (text rest : JsString)
    : splitSep (text ++ sep :: rest) = splitSep text ++ splitSep rest := by
  induction text with
  | nil => simp [splitSep]
  | cons first text ih =>
      rw [List.cons_append, splitSep, splitSep]
      by_cases same : first = sep
      · simp [same, ih]
      · obtain ⟨segment, more, found⟩ := List.exists_cons_of_ne_nil (splitSep_ne_nil text)
        simp [same, ih, found]

theorem splitSep_of_no_sep {text : JsString} (plain : sep ∉ text) : splitSep text = [text] := by
  induction text with
  | nil => rfl
  | cons first text ih =>
      obtain ⟨different, later⟩ := not_or.mp (List.mem_cons.not.mp plain)
      simp [splitSep, Ne.symm different, ih later]

theorem segments_of_plain {text : JsString} (named : text ≠ []) (plain : sep ∉ text)
    : segments text = [text] := by
  simp [segments, splitSep_of_no_sep plain, named]

theorem sep_notMem_baseName (name : JsString) : sep ∉ baseName name := by
  intro member
  have kept := List.mem_rtakeWhile_imp member
  simp at kept

/-- An entry lies one segment below its directory. -/
theorem depth_of_isChild (child : IsChild parent name) : depth name = depth parent + 1 := by
  obtain ⟨named, spelled⟩ := child
  have last := segments_of_plain named (sep_notMem_baseName name)
  by_cases root : parent = []
  · rw [childName, if_pos root] at spelled
    rw [depth, spelled, last, root]
    rfl
  · rw [childName, if_neg root] at spelled
    have split_ : segments name = segments parent ++ segments (baseName name) := by
      conv_lhs => rw [spelled]
      rw [segments, splitSep_append_sep, List.filter_append]
      rfl
    rw [depth, split_, last, List.length_append]
    rfl

/-- An entry has one directory. -/
theorem isChild_unique (left : IsChild parent name) (right : IsChild other name)
    : parent = other := by
  have same : childName parent (baseName name) = childName other (baseName name) :=
    left.2.symm.trans right.2
  by_cases first : parent = []
  · by_cases second : other = []
    · rw [first, second]
    · have lengths := congrArg List.length same
      simp [childName, first, second] at lengths
      omega
  · by_cases second : other = []
    · have lengths := congrArg List.length same
      simp [childName, first, second] at lengths
      omega
    · simpa [childName, first, second] using same

/-- The root is no directory's entry. -/
theorem not_isChild_root (parent : JsString) : ¬ IsChild parent [] := by
  intro child
  exact child.1 rfl

theorem not_isChild_self (name : JsString) : ¬ IsChild name name := by
  intro child
  have deeper := depth_of_isChild child
  omega

end Names

end SpeculativeAction.Library.PosixPath
