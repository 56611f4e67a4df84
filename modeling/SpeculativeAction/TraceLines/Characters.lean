import SpeculativeAction.TraceLines.Model

/-! A scanner that reads a trace line one character at a time, under the same rules for quotes,
escapes, annotations, comments and brackets, and that the scanner with its runs splits every line
as this one does.
-/

namespace SpeculativeAction.TraceLines

open SpeculativeAction.Library SpeculativeAction.ActionSemantics

-- One character at a time

section Characters

/-- What the next character is read as. -/
inductive Mode where
  | ordinary
  | escaped
  | commentOpening
  | comment
  | commentClosing
deriving DecidableEq

/-- `part` is what was read of the current argument. -/
structure Cursor where
  mode : Mode := .ordinary
  quoted : Bool := false
  stack : List Closing := []
  part : JsString := []
  args : List JsString := []

def Cursor.annotated (cursor : Cursor) : Bool := cursor.stack.head?.any Closing.isAngle

def Cursor.pass (cursor : Cursor) (text : JsString) : Cursor :=
  { cursor with part := cursor.part ++ text }

/-- Behind one more character: the cursor, or the split call. -/
inductive Reading where
  | next (cursor : Cursor)
  | done (line : TraceLine)

def Cursor.close (name : JsString) (cursor : Cursor) (following : JsString) : TraceLine :=
  match result? following with
  | some (first :: rest) =>
      { name
        args :=
          if cursor.part ≠ [] ∨ cursor.args ≠ [] then cursor.args ++ [trim cursor.part]
          else cursor.args
        result := first :: rest }
  | _ => unparsed name

/-- A character outside strings, annotations and comments. -/
def Cursor.readOutside (name : JsString) (cursor : Cursor) (character : CodeUnit)
    (following : JsString) : Reading :=
  let passed := cursor.pass [character]
  if character = unit '"' then .next { passed with quoted := true }
  else if character = unit '/' ∧ following.head? = some (unit '*') then
    .next { passed with mode := .commentOpening }
  else
    match traceDelimiter? character with
    | some closing =>
        let pushed :=
          if character = unit '<' ∧ following.head? = some (unit '/') then .pathAngle
          else closing
        .next { passed with stack := pushed :: cursor.stack }
    | none =>
        if character = unit ')' ∧ cursor.stack = [] then .done (cursor.close name following)
        else
          match closing? character with
          | some closing =>
              if cursor.stack.head? = some closing then
                .next { passed with stack := cursor.stack.tail }
              else .done (unparsed name)
          | none =>
              if character = unit ',' ∧ cursor.stack = [] then
                .next { cursor with args := cursor.args ++ [trim cursor.part], part := [] }
              else .next passed

def Cursor.read (name : JsString) (cursor : Cursor) (character : CodeUnit)
    (following : JsString) : Reading :=
  let passed := cursor.pass [character]
  match cursor.mode with
  | .escaped => .next { passed with mode := .ordinary }
  | .commentOpening => .next { passed with mode := .comment }
  | .comment =>
      if character = unit '*' ∧ following.head? = some (unit '/') then
        .next { passed with mode := .commentClosing }
      else .next passed
  | .commentClosing => .next { passed with mode := .ordinary }
  | .ordinary =>
      if character = unit '\\' ∧ (cursor.quoted = true ∨ cursor.annotated = true) then
        .next { passed with mode := .escaped }
      else if cursor.quoted then .next { passed with quoted := character != unit '"' }
      else if cursor.annotated then
        .next { passed with
          stack := annotationStack cursor.stack cursor.part.getLast? character }
      else cursor.readOutside name character following

/-- A line that ends before the call is closed is no call. -/
def readCharacters (name : JsString) : Cursor → JsString → TraceLine
  | _, [] => unparsed name
  | cursor, character :: following =>
      match cursor.read name character following with
      | .next cursor => readCharacters name cursor following
      | .done line => line

/-- The line split one character at a time. -/
def parseTraceLineByCharacter : JsString → TraceLine :=
  parseTraceLineBy fun name line start => readCharacters name {} (line.drop start)

end Characters

-- Runs

section Runs

variable {name following : JsString} {cursor : Cursor} {character other : CodeUnit}

/-- A character that means nothing where it stands, unless it is an escape. -/
def isInert (quoted annotated : Bool) (other : CodeUnit) : Bool :=
  if quoted then !(other == unit '"')
  else if annotated then !(other == unit '<' || other == unit '>')
  else isPlain other

theorem pass_nil (cursor : Cursor) : cursor.pass [] = cursor := by
  rw [Cursor.pass, List.append_nil]

theorem pass_pass (cursor : Cursor) (left right : JsString)
    : (cursor.pass left).pass right = cursor.pass (left ++ right) := by
  simp only [Cursor.pass, List.append_assoc]

theorem readCharacters_next {next : Cursor}
    (read : cursor.read name character following = .next next)
    : readCharacters name cursor (character :: following)
      = readCharacters name next following := by
  rw [readCharacters, read]

theorem readCharacters_done {line : TraceLine}
    (read : cursor.read name character following = .done line)
    : readCharacters name cursor (character :: following) = line := by
  rw [readCharacters, read]

/-- None of the marks that mean something outside strings and annotations. -/
def Unmarked (other : CodeUnit) : Prop := ∀ mark ∈ units "\"()[]\x7b\x7d<,/", other ≠ mark

theorem unmarked_of_all (all : (units "\"()[]\x7b\x7d<,/").all (fun mark => other != mark) = true)
    : Unmarked other :=
  fun mark member => bne_iff_ne.mp (List.all_eq_true.mp all mark member)

theorem unmarked_of_isPlain (plain : isPlain other = true)
    : Unmarked other := by
  intro mark member same
  have inMarks : (units "\"()[]\x7b\x7d<,/").all
      (units "\"\\()[]\x7b\x7d<>,/").contains = true := by decide
  rw [isPlain, same, List.all_eq_true.mp inMarks mark member] at plain
  exact Bool.false_ne_true plain

/-- It opens and closes nothing. -/
theorem traceDelimiter?_unmarked (differs : Unmarked other)
    : traceDelimiter? other = none ∧ closing? other = none := by
  constructor
  · rw [traceDelimiter?, if_neg (differs _ (by decide)), if_neg (differs _ (by decide)),
      if_neg (differs _ (by decide)), if_neg (differs _ (by decide))]
  · rw [closing?, if_neg (differs _ (by decide)), if_neg (differs _ (by decide)),
      if_neg (differs _ (by decide))]

theorem readOutside_unmarked (differs : Unmarked character)
    : cursor.readOutside name character following = .next (cursor.pass [character]) := by
  obtain ⟨noOpening, noClosing⟩ := traceDelimiter?_unmarked differs
  have notClosed : ¬ (character = unit ')' ∧ cursor.stack = []) :=
    fun both => differs _ (by decide) both.1
  have notComma : ¬ (character = unit ',' ∧ cursor.stack = []) :=
    fun both => differs _ (by decide) both.1
  have notComment : ¬ (character = unit '/' ∧ following.head? = some (unit '*')) :=
    fun both => differs _ (by decide) both.1
  have notQuote : character ≠ unit '"' := differs _ (by decide)
  simp only [Cursor.readOutside, if_neg notQuote, if_neg notComment, noOpening, noClosing,
    if_neg notClosed, if_neg notComma]

theorem annotationStack_inert {stack : List Closing} {previous : Option CodeUnit}
    (inert : (character == unit '<' || character == unit '>') = false)
    : annotationStack stack previous character = stack := by
  rw [Bool.or_eq_false_iff, beq_eq_false_iff_ne, beq_eq_false_iff_ne] at inert
  rw [annotationStack, if_neg inert.1, if_neg fun both => inert.2 both.1]

/-- An inert character is passed. -/
theorem read_inert (ordinary : cursor.mode = .ordinary)
    (noEscape : ¬ (character = unit '\\' ∧ (cursor.quoted = true ∨ cursor.annotated = true)))
    (inert : isInert cursor.quoted cursor.annotated character = true)
    : cursor.read name character following = .next (cursor.pass [character]) := by
  unfold Cursor.read
  rw [ordinary]
  dsimp only
  rw [if_neg noEscape]
  unfold isInert at inert
  cases quoted : cursor.quoted with
  | true =>
      simp only [quoted, if_true] at inert
      have same : (character != unit '"') = cursor.quoted := by rw [quoted]; exact inert
      rw [if_pos rfl, same]
      rfl
  | false =>
      simp only [quoted, Bool.false_eq_true, if_false] at inert
      rw [if_neg Bool.false_ne_true]
      cases annotated : cursor.annotated with
      | true =>
          simp only [annotated, if_true, Bool.not_eq_true'] at inert
          rw [if_pos rfl, annotationStack_inert inert]
          rfl
      | false =>
          simp only [annotated, Bool.false_eq_true, if_false] at inert
          rw [if_neg Bool.false_ne_true, readOutside_unmarked (unmarked_of_isPlain inert)]

/-- A backslash and the character behind it are passed. -/
theorem readCharacters_escape {rest : JsString} {escaped : CodeUnit}
    (ordinary : cursor.mode = .ordinary) (escapes : cursor.quoted = true ∨ cursor.annotated = true)
    : readCharacters name cursor (unit '\\' :: escaped :: rest)
      = readCharacters name (cursor.pass [unit '\\', escaped]) rest := by
  have first : cursor.read name (unit '\\') (escaped :: rest)
      = .next { cursor.pass [unit '\\'] with mode := .escaped } := by
    rw [Cursor.read, ordinary]
    dsimp only
    rw [if_pos ⟨rfl, escapes⟩]
  have second : Cursor.read name { cursor.pass [unit '\\'] with mode := .escaped } escaped rest
      = .next (cursor.pass [unit '\\', escaped]) := by
    simp only [Cursor.read, Cursor.pass, ordinary, List.append_assoc, List.singleton_append]
  rw [readCharacters_next first, readCharacters_next second]

/-- A run with escapes is read one character at a time. -/
theorem readCharacters_escapedRun {stops : CodeUnit → Bool} (text : JsString) (cursor : Cursor)
    (ordinary : cursor.mode = .ordinary) (escapes : cursor.quoted = true ∨ cursor.annotated = true)
    (inert : ∀ other, stops other = false
      → isInert cursor.quoted cursor.annotated other = true)
    : readCharacters name cursor text
      = readCharacters name (cursor.pass (text.take (escapedRun stops text)))
          (text.drop (escapedRun stops text)) := by
  fun_induction escapedRun stops text generalizing cursor with
  | case1 => rw [List.take_zero, List.drop_zero, pass_nil]
  | case2 last stopped => rw [List.take_zero, List.drop_zero, pass_nil]
  | case3 last goesOn =>
      obtain ⟨notEscape, noStop⟩ := not_or.mp goesOn
      exact readCharacters_next
        (read_inert ordinary (fun both => notEscape both.1)
          (inert last (Bool.eq_false_iff.mpr noStop)))
  | case4 second rest ih =>
      rw [readCharacters_escape ordinary escapes, ih (cursor.pass _) ordinary escapes inert,
        pass_pass]
      rfl
  | case5 => rw [List.take_zero, List.drop_zero, pass_nil]
  | case6 first second rest notEscape noStop ih =>
      rw [readCharacters_next (read_inert ordinary (fun both => notEscape both.1)
        (inert first (Bool.eq_false_iff.mpr noStop))),
        ih (cursor.pass [first]) ordinary escapes inert, pass_pass]
      rfl

theorem readCharacters_plain (name : JsString) (plain rest : JsString) (cursor : Cursor)
    (ordinary : cursor.mode = .ordinary) (unquoted : cursor.quoted = false)
    (outside : cursor.annotated = false) (all : ∀ other ∈ plain, isPlain other = true)
    : readCharacters name cursor (plain ++ rest)
      = readCharacters name (cursor.pass plain) rest := by
  induction plain generalizing cursor with
  | nil => rw [List.nil_append, pass_nil]
  | cons first others ih =>
      have noEscape : ¬ (first = unit '\\' ∧ (cursor.quoted = true ∨ cursor.annotated = true)) := by
        rw [unquoted, outside]
        simp
      have inert : isInert cursor.quoted cursor.annotated first = true := by
        rw [unquoted, outside]
        exact all first List.mem_cons_self
      rw [List.cons_append, readCharacters_next (read_inert ordinary noEscape inert),
        ih (cursor.pass [first]) ordinary unquoted outside
          fun other member => all other (List.mem_cons_of_mem _ member), pass_pass]
      rfl

/-- The inside of a comment is passed up to its end. -/
theorem readCharacters_comment (name : JsString) (text : JsString) (cursor : Cursor)
    (comment : cursor.mode = .comment)
    : readCharacters name cursor text
      = match indexOf? (units "*/") text with
        | some length =>
            readCharacters name { cursor.pass (text.take (length + 2)) with mode := .ordinary }
              (text.drop (length + 2))
        | none => unparsed name := by
  induction text generalizing cursor with
  | nil => rfl
  | cons first rest ih =>
      by_cases ends : first = unit '*' ∧ rest.head? = some (unit '/')
      · obtain ⟨rfl, slash⟩ := ends
        obtain ⟨others, rfl⟩ : ∃ others, rest = unit '/' :: others := by
          cases rest with
          | nil => simp at slash
          | cons second others => exact ⟨others, by rw [List.head?_cons, Option.some_inj] at slash; rw [slash]⟩
        have found : indexOf? (units "*/") (unit '*' :: unit '/' :: others) = some 0 := rfl
        have star : cursor.read name (unit '*') (unit '/' :: others)
            = .next { cursor.pass [unit '*'] with mode := .commentClosing } := by
          rw [Cursor.read, comment]
          rfl
        have close : Cursor.read name { cursor.pass [unit '*'] with mode := .commentClosing }
              (unit '/') others
            = .next { cursor.pass [unit '*', unit '/'] with mode := .ordinary } := by
          simp only [Cursor.read, Cursor.pass, List.append_assoc, List.singleton_append]
        rw [found, readCharacters_next star, readCharacters_next close]
        rfl
      · have later : (units "*/").isPrefixOf (first :: rest) = false := by
          cases rest with
          | nil => simp [show units "*/" = [unit '*', unit '/'] from rfl, List.isPrefixOf]
          | cons second others =>
              simp only [show units "*/" = [unit '*', unit '/'] from rfl, List.isPrefixOf,
                Bool.and_true, Bool.and_eq_false_iff, beq_eq_false_iff_ne]
              by_cases star : first = unit '*'
              · exact .inr fun slash => ends ⟨star, by rw [List.head?_cons, slash]⟩
              · exact .inl (Ne.symm star)
        have read : cursor.read name first rest = .next (cursor.pass [first]) := by
          rw [Cursor.read, comment]
          dsimp only
          rw [if_neg ends]
        rw [readCharacters_next read, ih (cursor.pass [first]) comment, indexOf?, later,
          if_neg Bool.false_ne_true]
        cases indexOf? (units "*/") rest with
        | none => rfl
        | some length =>
            dsimp only [Option.map_some]
            rw [pass_pass]
            rfl

end Runs

-- The scan with its runs

section Simulation

variable {line : JsString} {character : CodeUnit} {scan : Scan} {name : JsString}

/-- Where a scan is, to the scanner of single characters. -/
def Scan.cursor (line : JsString) (scan : Scan) : Cursor :=
  { quoted := scan.quoted
    stack := scan.stack
    part := slice line scan.start scan.index
    args := scan.args }

/-- What is read from a scan on. -/
def Scan.readFrom (name line : JsString) (scan : Scan) : TraceLine :=
  readCharacters name (scan.cursor line) (line.drop scan.index)

def Turn.readFrom (name line : JsString) : Turn → TraceLine
  | .next scan => scan.readFrom name line
  | .done line => line

/-- Inside a group the current argument has begun. -/
structure Scan.Sound (scan : Scan) : Prop where
  start_le : scan.start ≤ scan.index
  inside : scan.stack ≠ [] → scan.start < scan.index

/-- What a turn of a scan may come to. -/
def Turn.Sound (before : Scan) : Turn → Prop
  | .next scan => scan.Sound ∧ before.index < scan.index
  | .done _ => True

theorem slice_add (line : JsString) {start index : ℕ} (ordered : start ≤ index) (length : ℕ)
    : slice line start (index + length)
      = slice line start index ++ (line.drop index).take length := by
  have total : index + length - start = index - start + length := by omega
  have back : start + (index - start) = index := by omega
  rw [slice, slice, total, List.take_add, List.drop_drop, back]

theorem drop_eq_cons {index : ℕ} (at_ : (line)[index]? = some character)
    : line.drop index = character :: line.drop (index + 1) := by
  obtain ⟨bound, rfl⟩ := List.getElem?_eq_some_iff.mp at_
  exact List.drop_eq_getElem_cons bound

theorem slice_next {start index : ℕ} (ordered : start ≤ index)
    (at_ : (line)[index]? = some character)
    : slice line start (index + 1) = slice line start index ++ [character] := by
  rw [slice_add line ordered, drop_eq_cons at_]
  rfl

/-- The last unit of a part that has begun stands before the index. -/
theorem getLast?_slice {start index : ℕ} (begun : start < index)
    (at_ : (line)[index]? = some character)
    : (slice line start index).getLast? = (line)[index - 1]? := by
  obtain ⟨before, rfl⟩ : ∃ before, index = before + 1 := ⟨index - 1, by omega⟩
  obtain ⟨bound, -⟩ := List.getElem?_eq_some_iff.mp at_
  have previous : (line)[before]? = some ((line)[before]) :=
    List.getElem?_eq_some_iff.mpr ⟨by omega, rfl⟩
  rw [slice_next (by omega) previous, List.getLast?_append, Nat.add_sub_cancel, previous]
  rfl

/-- Nothing of an argument was read where its start is. -/
theorem slice_ne_nil_iff {start index : ℕ} (at_ : (line)[index]? = some character)
    : slice line start index ≠ [] ↔ index > start := by
  obtain ⟨bound, -⟩ := List.getElem?_eq_some_iff.mp at_
  rw [← List.length_pos_iff, slice, List.length_take, List.length_drop]
  omega

theorem close_eq (at_ : (line)[scan.index]? = some character)
    : (scan.cursor line).close name (line.drop (scan.index + 1)) = scan.close name line := by
  unfold Cursor.close Scan.close
  cases result? (line.drop (scan.index + 1)) with
  | none => rfl
  | some result =>
      cases result with
      | nil => rfl
      | cons first rest =>
          simp only [Scan.cursor, slice_ne_nil_iff at_]

/-- Behind one character, read where the scan stands. -/
theorem readFrom_passed (sound : scan.Sound) (at_ : (line)[scan.index]? = some character)
    (name : JsString) (quoted : Bool) (stack : List Closing)
    : Scan.readFrom name line { scan with index := scan.index + 1, quoted, stack }
      = readCharacters name { (scan.cursor line).pass [character] with quoted, stack }
          (line.drop (scan.index + 1)) := by
  simp only [Scan.readFrom, Scan.cursor, Cursor.pass, slice_next sound.start_le at_]

theorem Scan.Sound.passed (sound : scan.Sound) (quoted : Bool) (stack : List Closing)
    : Turn.Sound scan (.next { scan with index := scan.index + 1, quoted, stack }) :=
  have started : scan.start < scan.index + 1 := Nat.lt_succ_of_le sound.start_le
  ⟨⟨Nat.le_of_lt started, fun _ => started⟩, Nat.lt_succ_self _⟩

theorem readFrom_cons (at_ : (line)[scan.index]? = some character) (name : JsString)
    : scan.readFrom name line
      = readCharacters name (scan.cursor line) (character :: line.drop (scan.index + 1)) := by
  rw [Scan.readFrom, drop_eq_cons at_]

/-- The turn that passes a comment. -/
theorem comment_readFrom (sound : scan.Sound) (slash : (line)[scan.index]? = some (unit '/'))
    (star : (line)[scan.index + 1]? = some (unit '*'))
    : readCharacters name { (scan.cursor line).pass [unit '/'] with mode := .commentOpening }
        (line.drop (scan.index + 1))
      = match indexOf? (units "*/") (line.drop (scan.index + 2)) with
        | some length =>
            Scan.readFrom name line { scan with index := scan.index + 2 + length + 2 }
        | none => unparsed name := by
  have opening : Cursor.read name
        { (scan.cursor line).pass [unit '/'] with mode := .commentOpening } (unit '*')
        (line.drop (scan.index + 2))
      = .next { (scan.cursor line).pass [unit '/', unit '*'] with mode := .comment } := by
    simp only [Cursor.read, Cursor.pass, List.append_assoc, List.singleton_append]
  rw [drop_eq_cons star, readCharacters_next opening, readCharacters_comment _ _ _ rfl]
  cases indexOf? (units "*/") (line.drop (scan.index + 2)) with
  | none => rfl
  | some length =>
      have two : slice line scan.start (scan.index + 2)
          = slice line scan.start scan.index ++ [unit '/', unit '*'] := by
        rw [slice_next (Nat.le_succ_of_le sound.start_le) star, slice_next sound.start_le slash,
          List.append_assoc]
        rfl
      have part : slice line scan.start (scan.index + 2 + length + 2)
          = slice line scan.start scan.index ++ [unit '/', unit '*']
            ++ (line.drop (scan.index + 2)).take (length + 2) := by
        rw [Nat.add_assoc (scan.index + 2), slice_add line (Nat.le_add_right_of_le sound.start_le), two]
      simp only [Scan.readFrom, Scan.cursor, Cursor.pass, part, List.drop_drop]
      rw [Nat.add_assoc (scan.index + 2)]

/-- A turn outside strings and annotations reads one character, or a whole comment. -/
theorem turnOutside_readFrom (sound : scan.Sound) (at_ : (line)[scan.index]? = some character)
    (read : ∀ reading, (scan.cursor line).readOutside name character (line.drop (scan.index + 1))
        = reading → (scan.cursor line).read name character (line.drop (scan.index + 1)) = reading)
    : scan.readFrom name line = (scan.turnOutside name line character).readFrom name line
      ∧ (scan.turnOutside name line character).Sound scan := by
  have passed := readFrom_passed sound at_ name
  rw [readFrom_cons at_]
  unfold Scan.turnOutside
  unfold Cursor.readOutside at read
  rw [List.head?_drop] at read
  by_cases quote : character = unit '"'
  · rw [if_pos quote] at read ⊢
    rw [readCharacters_next (read _ rfl)]
    exact ⟨(passed true scan.stack).symm, sound.passed _ _⟩
  rw [if_neg quote] at read ⊢
  by_cases comment : character = unit '/' ∧ (line)[scan.index + 1]? = some (unit '*')
  · rw [if_pos comment] at read ⊢
    rw [readCharacters_next (read _ rfl)]
    obtain ⟨rfl, star⟩ := comment
    rw [comment_readFrom sound at_ star]
    cases indexOf? (units "*/") (line.drop (scan.index + 2)) with
    | none => exact ⟨rfl, trivial⟩
    | some length =>
        have ordered := sound.start_le
        have further : scan.index < scan.index + 2 + length + 2 := by omega
        have begun := Nat.lt_of_le_of_lt ordered further
        exact ⟨rfl, ⟨Nat.le_of_lt begun, fun _ => begun⟩, further⟩
  rw [if_neg comment] at read ⊢
  cases opening : traceDelimiter? character with
  | some closing =>
      rw [opening] at read
      rw [readCharacters_next (read _ rfl)]
      exact ⟨(passed scan.quoted _).symm, sound.passed _ _⟩
  | none =>
      rw [opening] at read
      dsimp only at read ⊢
      by_cases closes : character = unit ')' ∧ scan.stack = []
      · rw [if_pos closes]
        have done := read _ (if_pos closes)
        rw [readCharacters_done done, close_eq at_]
        exact ⟨rfl, trivial⟩
      rw [if_neg closes]
      have goesOn := fun reading same => read reading ((if_neg closes).trans same)
      cases closing : closing? character with
      | some closed =>
          rw [closing] at goesOn
          dsimp only at goesOn ⊢
          by_cases matching_ : scan.stack.head? = some closed
          · rw [if_pos matching_, readCharacters_next (goesOn _ (if_pos matching_))]
            exact ⟨(passed scan.quoted _).symm, sound.passed _ _⟩
          · rw [if_neg matching_, readCharacters_done (goesOn _ (if_neg matching_))]
            exact ⟨rfl, trivial⟩
      | none =>
          rw [closing] at goesOn
          dsimp only at goesOn ⊢
          by_cases comma : character = unit ',' ∧ scan.stack = []
          · rw [if_pos comma, readCharacters_next (goesOn _ (if_pos comma))]
            refine ⟨?_, ⟨Nat.le_refl _, fun inside => absurd comma.2 inside⟩, Nat.lt_succ_self _⟩
            have empty : slice line (scan.index + 1) (scan.index + 1) = [] := by
              rw [slice, Nat.sub_self, List.take_zero]
            simp only [Turn.readFrom, Scan.readFrom, Scan.cursor, empty]
          · rw [if_neg comma, readCharacters_next (goesOn _ (if_neg comma))]
            exact ⟨(passed scan.quoted scan.stack).symm, sound.passed _ _⟩

/-- A turn that reads no escape and passes no run. -/
theorem turnAt_readFrom (sound : scan.Sound) (at_ : (line)[scan.index]? = some character)
    (noEscape : ¬ (character = unit '\\' ∧ (scan.quoted = true ∨ scan.annotated = true)))
    : scan.readFrom name line = (scan.turnAt name line character).readFrom name line
      ∧ (scan.turnAt name line character).Sound scan := by
  have passed := readFrom_passed sound at_ name
  have free : ¬ (character = unit '\\'
      ∧ ((scan.cursor line).quoted = true ∨ (scan.cursor line).annotated = true)) := noEscape
  have reading : (scan.cursor line).read name character (line.drop (scan.index + 1))
      = if scan.quoted then
          .next { (scan.cursor line).pass [character] with quoted := character != unit '"' }
        else if scan.annotated then
          .next { (scan.cursor line).pass [character] with
            stack := annotationStack scan.stack (slice line scan.start scan.index).getLast?
              character }
        else (scan.cursor line).readOutside name character (line.drop (scan.index + 1)) := by
    unfold Cursor.read
    simp only [if_neg free]
    rfl
  unfold Scan.turnAt
  by_cases quoted : scan.quoted = true
  · rw [if_pos quoted] at reading ⊢
    rw [readFrom_cons at_, readCharacters_next reading]
    exact ⟨(passed _ scan.stack).symm, sound.passed _ _⟩
  rw [if_neg quoted] at reading ⊢
  by_cases annotated : scan.annotated = true
  · have begun : scan.start < scan.index := sound.inside fun empty => by
      rw [Scan.annotated, empty] at annotated
      exact Bool.false_ne_true annotated
    rw [if_pos annotated, getLast?_slice begun at_] at reading
    rw [if_pos annotated, readFrom_cons at_, readCharacters_next reading]
    exact ⟨(passed scan.quoted _).symm, sound.passed _ _⟩
  · rw [if_neg annotated] at reading ⊢
    exact turnOutside_readFrom sound at_ fun _ same => reading.trans same

/-- An inert character leaves the rest of a turn nothing to do. -/
theorem turnAt_inert (scan : Scan) (inert : isInert scan.quoted scan.annotated character = true)
    : scan.turnAt name line character = .next { scan with index := scan.index + 1 } := by
  unfold Scan.turnAt
  unfold isInert at inert
  by_cases quoted : scan.quoted = true
  · rw [if_pos quoted] at inert ⊢
    have same : (character != unit '"') = scan.quoted := inert.trans quoted.symm
    rw [same]
  rw [if_neg quoted] at inert ⊢
  by_cases annotated : scan.annotated = true
  · rw [if_pos annotated, Bool.not_eq_true'] at inert
    rw [if_pos annotated, annotationStack_inert inert]
  rw [if_neg annotated] at inert ⊢
  have differs := unmarked_of_isPlain inert
  obtain ⟨noOpening, noClosing⟩ := traceDelimiter?_unmarked differs
  have notQuote : character ≠ unit '"' := differs _ (by decide)
  have notComment : ¬ (character = unit '/' ∧ (line)[scan.index + 1]? = some (unit '*')) :=
    fun both => differs _ (by decide) both.1
  have notClosed : ¬ (character = unit ')' ∧ scan.stack = []) :=
    fun both => differs _ (by decide) both.1
  have notComma : ¬ (character = unit ',' ∧ scan.stack = []) :=
    fun both => differs _ (by decide) both.1
  simp only [Scan.turnOutside, if_neg notQuote, if_neg notComment, noOpening, noClosing,
    if_neg notClosed, if_neg notComma]

theorem escapedRun_pos {stops : CodeUnit → Bool} {first : CodeUnit} {rest : JsString}
    (runs : 0 < escapedRun stops (first :: rest)) (notEscape : first ≠ unit '\\')
    : stops first = false := by
  rw [← Bool.not_eq_true]
  intro stopped
  cases rest with
  | nil =>
      rw [escapedRun, if_pos (.inr stopped)] at runs
      exact Nat.lt_irrefl 0 runs
  | cons second others =>
      rw [escapedRun, if_neg notEscape, if_pos stopped] at runs
      exact Nat.lt_irrefl 0 runs

/-- A run passes what is inert where it starts. -/
theorem run_inert (at_ : (line)[scan.index]? = some character)
    (noEscape : ¬ (character = unit '\\' ∧ (scan.quoted = true ∨ scan.annotated = true)))
    (runs : 0 < scan.run line)
    : isInert scan.quoted scan.annotated character = true := by
  rw [Scan.run, drop_eq_cons at_] at runs
  unfold isInert
  by_cases quoted : scan.quoted = true
  · rw [if_pos quoted] at runs ⊢
    have inert := escapedRun_pos runs fun escape => noEscape ⟨escape, .inl quoted⟩
    rw [inert]
    rfl
  rw [if_neg quoted] at runs ⊢
  by_cases annotated : scan.annotated = true
  · rw [if_pos annotated] at runs ⊢
    have inert := escapedRun_pos runs fun escape => noEscape ⟨escape, .inr annotated⟩
    rw [inert]
    rfl
  rw [if_neg annotated] at runs ⊢
  rw [← Bool.not_eq_false]
  intro mark
  rw [plainRun, List.takeWhile_cons_of_neg (by rw [mark]; exact Bool.false_ne_true)] at runs
  exact Nat.lt_irrefl 0 runs

theorem take_drop_of_append {left right text : JsString} (whole : left ++ right = text)
    : text.take left.length = left ∧ text.drop left.length = right := by
  subst whole
  exact ⟨List.take_left, List.drop_left⟩

/-- A run is read one character at a time. -/
theorem run_readFrom (sound : scan.Sound)
    : scan.readFrom name line
      = Scan.readFrom name line { scan with index := scan.index + scan.run line } := by
  have passed : Scan.readFrom name line { scan with index := scan.index + scan.run line }
      = readCharacters name
          ((scan.cursor line).pass ((line.drop scan.index).take (scan.run line)))
          ((line.drop scan.index).drop (scan.run line)) := by
    simp only [Scan.readFrom, Scan.cursor, Cursor.pass, slice_add line sound.start_le, List.drop_drop]
  rw [passed, Scan.readFrom]
  unfold Scan.run
  dsimp only
  by_cases quoted : scan.quoted = true
  · rw [if_pos quoted]
    refine readCharacters_escapedRun _ _ rfl (.inl quoted) fun other goesOn => ?_
    simp only [isInert, Scan.cursor, quoted, if_true, goesOn, Bool.not_false]
  rw [if_neg quoted]
  by_cases annotated : scan.annotated = true
  · rw [if_pos annotated]
    refine readCharacters_escapedRun _ _ rfl (.inr annotated) fun other goesOn => ?_
    have inside : (scan.cursor line).annotated = true := annotated
    have unquoted : ¬ (scan.cursor line).quoted = true := quoted
    rw [isInert, if_neg unquoted, if_pos inside, goesOn]
    rfl
  · rw [if_neg annotated]
    have read := readCharacters_plain name ((line.drop scan.index).takeWhile isPlain)
      ((line.drop scan.index).dropWhile isPlain) (scan.cursor line) rfl
      (Bool.not_eq_true _ ▸ quoted) (Bool.not_eq_true _ ▸ annotated)
      fun other member => List.mem_takeWhile_imp member
    obtain ⟨taken, dropped⟩ :=
      take_drop_of_append (List.takeWhile_append_dropWhile (l := line.drop scan.index))
    rw [List.takeWhile_append_dropWhile] at read
    rw [read, plainRun, taken, dropped]

theorem turn_readFrom (name : JsString) (sound : scan.Sound)
    (at_ : (line)[scan.index]? = some character)
    : scan.readFrom name line = (scan.turn name line character).readFrom name line
      ∧ (scan.turn name line character).Sound scan := by
  have ordered := sound.start_le
  unfold Scan.turn
  by_cases escape : character = unit '\\' ∧ (scan.quoted = true ∨ scan.annotated = true)
  · rw [if_pos escape]
    have further : scan.start < scan.index + 2 := by omega
    refine ⟨?_, ⟨Nat.le_of_lt further, fun _ => further⟩, by dsimp only; omega⟩
    obtain ⟨rfl, escapes⟩ := escape
    have part := slice_add line ordered 2
    have cut := drop_eq_cons at_
    rw [readFrom_cons at_]
    rcases following : line.drop (scan.index + 1) with _ | ⟨escaped, rest⟩
    · have ended : line.drop (scan.index + 2) = [] := by
        rw [← Nat.add_assoc scan.index 1 1, ← List.drop_drop, following, List.drop_nil]
      have opened : Cursor.read name (scan.cursor line) (unit '\\') []
          = .next { (scan.cursor line).pass [unit '\\'] with mode := .escaped } := by
        unfold Cursor.read
        exact if_pos ⟨rfl, escapes⟩
      rw [readCharacters_next opened]
      simp only [Turn.readFrom, Scan.readFrom, ended, readCharacters]
    · have behind : line.drop (scan.index + 2) = rest := by
        rw [← Nat.add_assoc scan.index 1 1, ← List.drop_drop, following, List.drop_succ_cons,
          List.drop_zero]
      rw [readCharacters_escape rfl escapes]
      rw [cut, following] at part
      simp only [Turn.readFrom, Scan.readFrom, Scan.cursor, Cursor.pass, part, behind]
      rfl
  rw [if_neg escape]
  by_cases runs : 0 < scan.run line
  · have inert := run_inert at_ escape runs
    have last : scan.index + scan.run line - 1 + 1 = scan.index + scan.run line := by omega
    have begun : scan.start < scan.index + scan.run line := by omega
    rw [if_pos runs, turnAt_inert { scan with index := scan.index + scan.run line - 1 } inert]
    dsimp only
    rw [last]
    exact ⟨run_readFrom sound, ⟨Nat.le_of_lt begun, fun _ => begun⟩, by dsimp only; omega⟩
  · rw [if_neg runs]
    exact turnAt_readFrom sound at_ escape

/-- The whole scan, by induction on its turns; the fuel does not run out. -/
theorem scanLine_eq (name line : JsString) (fuel : ℕ) (scan : Scan) (sound : scan.Sound)
    (enough : line.length < scan.index + fuel)
    : scanLine name line fuel scan = scan.readFrom name line := by
  induction fuel generalizing scan with
  | zero =>
      rw [scanLine, Scan.readFrom, List.drop_eq_nil_of_le (by omega), readCharacters]
  | succ fuel ih =>
      rw [scanLine]
      cases at_ : (line)[scan.index]? with
      | none =>
          have ended := List.drop_eq_nil_of_le (List.getElem?_eq_none_iff.mp at_)
          rw [Scan.readFrom, ended, readCharacters]
      | some character =>
          obtain ⟨same, further⟩ := turn_readFrom name sound at_
          rw [same]
          dsimp only
          cases turned : scan.turn name line character with
          | next next =>
              rw [turned] at further
              exact ih next further.1 (by have := further.2; omega)
          | done line => rfl

/-- Every line is split as it is when it is read one character at a time. -/
theorem parseTraceLine_eq (line : JsString)
    : parseTraceLine line = parseTraceLineByCharacter line := by
  have scanned : ∀ name start,
      scanLine name line (line.length + 1) { start, index := start }
        = readCharacters name {} (line.drop start) := by
    intro name start
    have empty : slice line start start = [] := by rw [slice, Nat.sub_self, List.take_zero]
    rw [scanLine_eq name line _ _ ⟨Nat.le_refl _, fun inside => absurd rfl inside⟩
      (by dsimp only; omega)]
    simp only [Scan.readFrom, Scan.cursor, empty]
  unfold parseTraceLine parseTraceLineByCharacter parseTraceLineBy
  simp only [scanned]

end Simulation

end SpeculativeAction.TraceLines
