import Mathlib.Data.List.TakeWhile
import SpeculativeAction.ActionSemantics

/-! How a line of the system call trace is split into the name of the call, its arguments and its
result: quoted paths and descriptor annotations are data, and what means nothing where it stands
is passed as a whole.
-/

namespace SpeculativeAction.TraceLines

open SpeculativeAction.Library SpeculativeAction.ActionSemantics

structure TraceLine where
  name : JsString
  args : List JsString
  result : JsString
  failure : Option JsString := none
deriving DecidableEq

-- The patterns around the arguments

section Patterns

/-- A unit that `.` does not match. -/
def isLineTerminator (other : CodeUnit) : Bool := [10, 13, 8232, 8233].contains other.val

def isUpperOrDigit (other : CodeUnit) : Bool :=
  isDigit other || decide (65 ≤ other.val ∧ other.val ≤ 90)

def isWordUnit (other : CodeUnit) : Bool :=
  isUpperOrDigit other || decide (97 ≤ other.val ∧ other.val ≤ 122) || other == unit '_'

/-- One or more units of a kind and what is behind them. -/
def takeSome? (kind : CodeUnit → Bool) (text : JsString) : Option (JsString × JsString) :=
  if text.takeWhile kind = [] then none else some (text.takeWhile kind, text.dropWhile kind)

def isNoticeEnd (text : JsString) : Bool :=
  (text.dropPrefix? (units " +++")).any fun rest => rest.all ActionSemantics.isTrimmed

/-- `+++ exited with \d+ +++\s*` -/
def isExit (line : JsString) : Bool :=
  ((line.dropPrefix? (units "+++ exited with ")).bind (takeSome? isDigit)).any
    fun (_, rest) => isNoticeEnd rest

/-- `+++ killed by SIG[A-Z0-9]+(?: \(core dumped\))? +++\s*` -/
def isKill (line : JsString) : Bool :=
  ((line.dropPrefix? (units "+++ killed by SIG")).bind (takeSome? isUpperOrDigit)).any
    fun (_, rest) =>
      isNoticeEnd rest || (rest.dropPrefix? (units " (core dumped)")).any isNoticeEnd

/-- `pi_domain_exit\(\d+\) = 0` -/
def isDomainExit (line : JsString) : Bool :=
  ((line.dropPrefix? (units "pi_domain_exit(")).bind (takeSome? isDigit)).any
    fun (_, rest) => rest == units ") = 0"

def isTermination (line : JsString) : Bool := isExit line || isKill line || isDomainExit line

/-- The name of the call and where its arguments start: `^\s*([a-zA-Z0-9_]+)\(`. -/
def head? (line : JsString) : Option (JsString × ℕ) :=
  match takeSome? isWordUnit (line.dropWhile ActionSemantics.isTrimmed) with
  | some (name, other :: _) =>
      if other = unit '(' then
        some (name, (line.takeWhile ActionSemantics.isTrimmed).length + name.length + 1)
      else none
  | _ => none

/-- What follows the arguments: `^\s+=\s+(.*)$`. -/
def result? (text : JsString) : Option JsString :=
  match takeSome? ActionSemantics.isTrimmed text with
  | some (_, other :: rest) =>
      if other = unit '=' then
        match takeSome? ActionSemantics.isTrimmed rest with
        | some (_, result) => if result.any isLineTerminator then none else some result
        | none => none
      else none
  | _ => none

/-- Where a pattern first stands. -/
def indexOf? (pattern : JsString) : JsString → Option ℕ
  | [] => if pattern = [] then some 0 else none
  | other :: rest =>
      if pattern.isPrefixOf (other :: rest) then some 0 else (indexOf? pattern rest).map (· + 1)

end Patterns

-- Delimiters and runs

section Delimiters

/-- What closes a group; `pathAngle` is the annotation of a path, closed by its first `>`. -/
inductive Closing where
  | parenthesis
  | bracket
  | brace
  | angle
  | pathAngle
deriving DecidableEq

def Closing.isAngle : Closing → Bool
  | .angle | .pathAngle => true
  | .parenthesis | .bracket | .brace => false

/-- `TRACE_DELIMITERS`. -/
def traceDelimiter? (character : CodeUnit) : Option Closing :=
  if character = unit '(' then some .parenthesis
  else if character = unit '[' then some .bracket
  else if character = unit '\x7b' then some .brace
  else if character = unit '<' then some .angle
  else none

/-- The bracket that a character closes. -/
def closing? (character : CodeUnit) : Option Closing :=
  if character = unit ')' then some .parenthesis
  else if character = unit ']' then some .bracket
  else if character = unit '\x7d' then some .brace
  else none

/-- The length of the longest run of units that do not stop it or stand behind a backslash. -/
def escapedRun (stops : CodeUnit → Bool) : JsString → ℕ
  | [] => 0
  | [last] => if last = unit '\\' ∨ stops last then 0 else 1
  | first :: second :: rest =>
      if first = unit '\\' then escapedRun stops rest + 2
      else if stops first then 0
      else escapedRun stops (second :: rest) + 1

/-- `QUOTED_RUN`. -/
def quotedRun : JsString → ℕ := escapedRun fun other => other == unit '"'

/-- `ANNOTATION_RUN`. -/
def annotationRun : JsString → ℕ :=
  escapedRun fun other => other == unit '<' || other == unit '>'

/-- A unit that means nothing outside strings and annotations. -/
def isPlain (other : CodeUnit) : Bool := !(units "\"\\()[]\x7b\x7d<>,/").contains other

/-- `PLAIN_RUN`. -/
def plainRun (text : JsString) : ℕ := (text.takeWhile isPlain).length

end Delimiters

-- The scan

section Scan

structure Scan where
  start : ℕ
  index : ℕ
  quoted : Bool := false
  stack : List Closing := []
  args : List JsString := []

/-- One turn of the loop: the scan goes on, or the call is split. -/
inductive Turn where
  | next (scan : Scan)
  | done (line : TraceLine)

def slice (line : JsString) (start stop : ℕ) : JsString := (line.drop start).take (stop - start)

def unparsed (name : JsString) : TraceLine :=
  { name, args := [], result := [], failure := some (units "syscall_unparsed:" ++ name) }

def Scan.annotated (scan : Scan) : Bool := scan.stack.head?.any Closing.isAngle

/-- The run that may be passed as a whole. -/
def Scan.run (scan : Scan) (line : JsString) : ℕ :=
  let text := line.drop scan.index
  if scan.quoted then quotedRun text
  else if scan.annotated then annotationRun text
  else plainRun text

/-- A parenthesis outside of all groups: the result must follow. -/
def Scan.close (name line : JsString) (scan : Scan) : TraceLine :=
  match result? (line.drop (scan.index + 1)) with
  | some (first :: rest) =>
      { name
        args :=
          if scan.index > scan.start ∨ scan.args ≠ [] then
            scan.args ++ [trim (slice line scan.start scan.index)]
          else scan.args
        result := first :: rest }
  | _ => unparsed name

/-- The stack behind a character of an annotation; sockets use `->` for peers. -/
def annotationStack (stack : List Closing) (previous : Option CodeUnit) (character : CodeUnit)
    : List Closing :=
  if character = unit '<' then .angle :: stack
  else if character = unit '>' ∧
      (stack.head? = some .pathAngle ∨ previous ≠ some (unit '-')) then stack.tail
  else stack

/-- A character outside strings and annotations. -/
def Scan.turnOutside (name line : JsString) (scan : Scan) (character : CodeUnit) : Turn :=
  let following := (line)[scan.index + 1]?
  let passed := { scan with index := scan.index + 1 }
  if character = unit '"' then .next { passed with quoted := true }
  else if character = unit '/' ∧ following = some (unit '*') then
    match indexOf? (units "*/") (line.drop (scan.index + 2)) with
    | some length => .next { scan with index := scan.index + 2 + length + 2 }
    | none => .done (unparsed name)
  else
    match traceDelimiter? character with
    | some closing =>
        let pushed :=
          if character = unit '<' ∧ following = some (unit '/') then .pathAngle else closing
        .next { passed with stack := pushed :: scan.stack }
    | none =>
        if character = unit ')' ∧ scan.stack = [] then .done (scan.close name line)
        else
          match closing? character with
          | some closing =>
              if scan.stack.head? = some closing then
                .next { passed with stack := scan.stack.tail }
              else .done (unparsed name)
          | none =>
              if character = unit ',' ∧ scan.stack = [] then
                .next { passed with
                  args := scan.args ++ [trim (slice line scan.start scan.index)]
                  start := scan.index + 1 }
              else .next passed

/-- The rest of a turn, with the character it started at. -/
def Scan.turnAt (name line : JsString) (scan : Scan) (character : CodeUnit) : Turn :=
  let passed := { scan with index := scan.index + 1 }
  if scan.quoted then .next { passed with quoted := character != unit '"' }
  else if scan.annotated then
    .next { passed with
      stack := annotationStack scan.stack (line)[scan.index - 1]? character }
  else scan.turnOutside name line character

def Scan.turn (name line : JsString) (scan : Scan) (character : CodeUnit) : Turn :=
  if character = unit '\\' ∧ (scan.quoted = true ∨ scan.annotated = true) then
    .next { scan with index := scan.index + 2 }
  else if 0 < scan.run line then
    { scan with index := scan.index + scan.run line - 1 }.turnAt name line character
  else scan.turnAt name line character

/-- The loop; each turn passes a unit, so the length of the line is fuel enough. -/
def scanLine (name line : JsString) : ℕ → Scan → TraceLine
  | 0, _ => unparsed name
  | fuel + 1, scan =>
      match (line)[scan.index]? with
      | none => unparsed name
      | some character =>
          match scan.turn name line character with
          | .next scan => scanLine name line fuel scan
          | .done line => line

end Scan

/-- A line with a way to split what stands behind the opening parenthesis. -/
def parseTraceLineBy (scanned : JsString → JsString → ℕ → TraceLine) (line : JsString) : TraceLine :=
  if isTermination line then { name := units "terminated", args := [], result := units "0" }
  else
    match head? line with
    | none =>
        if trim line = [] ∨ (units "+++").isPrefixOf line ∨ (units "---").isPrefixOf line then
          { name := [], args := [], result := [] }
        else unparsed []
    | some (name, start) => scanned name line start

/-- `parseTraceLine`. -/
def parseTraceLine : JsString → TraceLine :=
  parseTraceLineBy fun name line start =>
    scanLine name line (line.length + 1) { start, index := start }

end SpeculativeAction.TraceLines
