import SpeculativeAction.TraceLines.Characters

/-! The lines of calls as the tracer writes them: quoted strings with escapes, descriptor
annotations, comments, nested brackets and commas. Splitting such a line gives the name, the
arguments and the result back, unless it is the line that ends a domain.
-/

namespace SpeculativeAction.TraceLines

open SpeculativeAction.Library SpeculativeAction.ActionSemantics

-- The grammar

section Grammar

/-- The inside of a text where a backslash takes the next unit with it. -/
inductive EscapedText (stops : CodeUnit → Bool) : JsString → Prop
  | nil : EscapedText stops []
  | plain (other : CodeUnit) (rest : JsString) (notEscape : other ≠ unit '\\')
    (goesOn : stops other = false) (tail : EscapedText stops rest)
    : EscapedText stops (other :: rest)
  | escape (other : CodeUnit) (rest : JsString) (tail : EscapedText stops rest)
    : EscapedText stops (unit '\\' :: other :: rest)

/-- The inside of a string. -/
abbrev StringText : JsString → Prop := EscapedText fun other => other == unit '"'

/-- The inside of an annotation; that of a path starts with a slash, and else the `>` behind a
hyphen would not close it.
-/
structure AnnotationText (text : JsString) : Prop where
  escaped : EscapedText (fun other => other == unit '<' || other == unit '>') text
  closes : text.head? = some (unit '/') ∨ text.getLast? ≠ some (unit '-')

/-- The inside of a comment. -/
def CommentText (text : JsString) : Prop :=
  indexOf? (units "*/") (text ++ units "*/") = some text.length

/-- The text of an argument, or what stands inside its brackets, where there may be commas. -/
inductive ArgumentText : Bool → JsString → Prop
  | nil (inside : Bool) : ArgumentText inside []
  | plain (inside : Bool) (other : CodeUnit) (rest : JsString) (differs : Unmarked other)
    (tail : ArgumentText inside rest)
    : ArgumentText inside (other :: rest)
  | slash (inside : Bool) (rest : JsString) (noComment : rest.head? ≠ some (unit '*'))
    (tail : ArgumentText inside rest)
    : ArgumentText inside (unit '/' :: rest)
  | comma (rest : JsString) (tail : ArgumentText true rest)
    : ArgumentText true (unit ',' :: rest)
  | comment (inside : Bool) (body rest : JsString) (text : CommentText body)
    (tail : ArgumentText inside rest)
    : ArgumentText inside (unit '/' :: unit '*' :: (body ++ units "*/" ++ rest))
  | string (inside : Bool) (body rest : JsString) (text : StringText body)
    (tail : ArgumentText inside rest)
    : ArgumentText inside (unit '"' :: (body ++ unit '"' :: rest))
  | angle (inside : Bool) (body rest : JsString) (text : AnnotationText body)
    (tail : ArgumentText inside rest)
    : ArgumentText inside (unit '<' :: (body ++ unit '>' :: rest))
  | group (inside : Bool) (opening closing : CodeUnit) (kind : Closing) (body rest : JsString)
    (opens : traceDelimiter? opening = some kind) (bracket : kind.isAngle = false)
    (closes : closing? closing = some kind) (text : ArgumentText true body)
    (tail : ArgumentText inside rest)
    : ArgumentText inside (opening :: (body ++ closing :: rest))

/-- A whole argument has no white space around it. -/
structure Argument (text : JsString) : Prop where
  nonempty : text ≠ []
  trimmed : trim text = text
  written : ArgumentText false text

/-- A call of the trace. -/
structure CallText (name : JsString) (args : List JsString) (result : JsString) : Prop where
  named : name ≠ []
  word : ∀ other ∈ name, isWordUnit other = true
  arguments : ∀ text ∈ args, Argument text
  returned : result ≠ []
  flush : ∀ other, result.head? = some other → ActionSemantics.isTrimmed other = false
  oneLine : result.any isLineTerminator = false

def joinArguments : List JsString → JsString
  | [] => []
  | [last] => last
  | first :: second :: rest => first ++ units ", " ++ joinArguments (second :: rest)

/-- `name(args) = result` -/
def render (name : JsString) (args : List JsString) (result : JsString) : JsString :=
  name ++ unit '(' :: (joinArguments args ++ unit ')' :: (units " = " ++ result))

end Grammar

-- One argument

section Arguments

variable {cursor : Cursor} {body : JsString} {kind : Closing}

/-- A text with escapes is passed as a whole. -/
theorem EscapedText.read {stops : CodeUnit → Bool} {text : JsString}
    (written : EscapedText stops text) (name following : JsString) (cursor : Cursor)
    (ordinary : cursor.mode = .ordinary) (escapes : cursor.quoted = true ∨ cursor.annotated = true)
    (inert : ∀ other, stops other = false
      → isInert cursor.quoted cursor.annotated other = true)
    : readCharacters name cursor (text ++ following)
      = readCharacters name (cursor.pass text) following := by
  induction written generalizing cursor with
  | nil => rw [List.nil_append, pass_nil]
  | plain other rest notEscape goesOn _ ih =>
      rw [List.cons_append, readCharacters_next
        (read_inert ordinary (fun both => notEscape both.1) (inert other goesOn)),
        ih (cursor.pass [other]) ordinary escapes inert, pass_pass]
      rfl
  | escape other rest _ ih =>
      rw [List.cons_append, List.cons_append, readCharacters_escape ordinary escapes,
        ih (cursor.pass _) ordinary escapes inert, pass_pass]
      rfl

/-- Outside of strings, annotations and comments. -/
structure Cursor.Outside (cursor : Cursor) : Prop where
  ordinary : cursor.mode = .ordinary
  unquoted : cursor.quoted = false
  unannotated : cursor.annotated = false

theorem Cursor.Outside.pass (outside : cursor.Outside) (text : JsString)
    : (cursor.pass text).Outside :=
  ⟨outside.ordinary, outside.unquoted, outside.unannotated⟩

theorem Cursor.Outside.read (outside : cursor.Outside) (name : JsString) (character : CodeUnit)
    (following : JsString)
    : cursor.read name character following = cursor.readOutside name character following := by
  unfold Cursor.read
  rw [outside.ordinary, outside.unquoted, outside.unannotated]
  simp

/-- A string is passed as a whole. -/
theorem read_string (text : StringText body) (name rest : JsString) (outside : cursor.Outside)
    : readCharacters name cursor (unit '"' :: (body ++ unit '"' :: rest))
      = readCharacters name (cursor.pass (unit '"' :: (body ++ [unit '"']))) rest := by
  have opened : cursor.read name (unit '"') (body ++ unit '"' :: rest)
      = .next { cursor.pass [unit '"'] with quoted := true } := by
    rw [outside.read]
    rfl
  have closed : Cursor.read name
        (Cursor.pass { cursor.pass [unit '"'] with quoted := true } body) (unit '"') rest
      = .next (cursor.pass (unit '"' :: (body ++ [unit '"']))) := by
    simp [Cursor.read, Cursor.pass, outside.ordinary, outside.unquoted,
      show unit '"' ≠ unit '\\' by decide]
  have inside := text.read name (unit '"' :: rest) { cursor.pass [unit '"'] with quoted := true }
    outside.ordinary (.inl rfl) (fun other goesOn => by simp [isInert, goesOn])
  exact (readCharacters_next opened).trans (inside.trans (readCharacters_next closed))

/-- What an annotation opens. -/
def angleKind (body : JsString) : Closing :=
  if body.head? = some (unit '/') then .pathAngle else .angle

theorem angleKind_isAngle (body : JsString)
    : (angleKind body).isAngle = true := by
  unfold angleKind
  split_ifs <;> rfl

/-- The end of an annotation closes it. -/
theorem AnnotationText.stack (text : AnnotationText body) (part : JsString) (stack : List Closing)
    : annotationStack (angleKind body :: stack) (part ++ unit '<' :: body).getLast?
        (unit '>') = stack := by
  have closed : (angleKind body :: stack).head? = some Closing.pathAngle
      ∨ (part ++ unit '<' :: body).getLast? ≠ some (unit '-') := by
    rcases text.closes with path | last
    · exact .inl (by rw [angleKind, if_pos path]; rfl)
    · refine .inr ?_
      rw [List.getLast?_append_cons]
      cases body with
      | nil => decide
      | cons first rest => rwa [List.getLast?_cons_cons]
  rw [annotationStack, if_neg (by decide), if_pos ⟨rfl, closed⟩]
  rfl

/-- An annotation is passed as a whole. -/
theorem read_angle (text : AnnotationText body) (name rest : JsString) (outside : cursor.Outside)
    : readCharacters name cursor (unit '<' :: (body ++ unit '>' :: rest))
      = readCharacters name (cursor.pass (unit '<' :: (body ++ [unit '>']))) rest := by
  have next : (body ++ unit '>' :: rest).head? = some (unit '/')
      ↔ body.head? = some (unit '/') := by
    cases body with
    | nil => simp [show unit '>' ≠ unit '/' by decide]
    | cons first others => rfl
  have opened : cursor.read name (unit '<') (body ++ unit '>' :: rest)
      = .next { cursor.pass [unit '<'] with stack := angleKind body :: cursor.stack } := by
    have delimiter : traceDelimiter? (unit '<') = some .angle := by decide
    rw [outside.read]
    unfold Cursor.readOutside
    rw [if_neg (by decide), if_neg (fun both => absurd both.1 (by decide)), delimiter]
    simp only [next, true_and, angleKind]
  have annotated : Cursor.annotated
      { cursor.pass [unit '<'] with stack := angleKind body :: cursor.stack } = true :=
    angleKind_isAngle body
  have inside := text.escaped.read name (unit '>' :: rest)
    { cursor.pass [unit '<'] with stack := angleKind body :: cursor.stack }
    outside.ordinary (.inr annotated) (fun other goesOn => by
      rw [annotated]
      simp only [isInert, Cursor.pass, outside.unquoted, goesOn]
      rfl)
  have closed : Cursor.read name
        (Cursor.pass
          { cursor.pass [unit '<'] with stack := angleKind body :: cursor.stack } body)
        (unit '>') rest
      = .next (cursor.pass (unit '<' :: (body ++ [unit '>']))) := by
    have stack := text.stack cursor.part cursor.stack
    unfold Cursor.read
    rw [show Cursor.annotated (Cursor.pass
      { cursor.pass [unit '<'] with stack := angleKind body :: cursor.stack } body) = true
      from annotated]
    simp only [Cursor.pass, outside.ordinary, outside.unquoted, List.append_assoc,
      List.nil_append, List.cons_append, show unit '>' ≠ unit '\\' by decide, false_and,
      if_false, Bool.false_eq_true, if_true, stack]
  exact (readCharacters_next opened).trans (inside.trans (readCharacters_next closed))

theorem indexOf?_le {pattern text : JsString} {index : ℕ}
    (found : indexOf? pattern text = some index) : index + pattern.length ≤ text.length := by
  induction text generalizing index with
  | nil =>
      rw [indexOf?] at found
      split_ifs at found with empty
      cases found
      rw [empty]
      exact Nat.le_refl _
  | cons first others ih =>
      rw [indexOf?] at found
      split_ifs at found with here
      · cases found
        rw [Nat.zero_add]
        exact (List.isPrefixOf_iff_prefix.mp here).length_le
      · obtain ⟨later, laterFound, rfl⟩ := Option.map_eq_some_iff.mp found
        have bound := ih laterFound
        rw [List.length_cons]
        omega

/-- A pattern that stands in a text stands there whatever follows. -/
theorem indexOf?_append {pattern text : JsString} {index : ℕ}
    (found : indexOf? pattern text = some index) (rest : JsString)
    : indexOf? pattern (text ++ rest) = some index := by
  induction text generalizing index with
  | nil =>
      rw [indexOf?] at found
      split_ifs at found with empty
      cases found
      subst empty
      cases rest <;> rfl
  | cons first others ih =>
      rw [indexOf?] at found
      rw [List.cons_append, indexOf?]
      split_ifs at found with here
      · have still : pattern.isPrefixOf (first :: (others ++ rest)) = true := by
          rw [List.isPrefixOf_iff_prefix] at here ⊢
          exact here.trans ⟨rest, rfl⟩
        rw [if_pos still]
        exact found
      · obtain ⟨later, laterFound, rfl⟩ := Option.map_eq_some_iff.mp found
        have still : ¬ pattern.isPrefixOf (first :: (others ++ rest)) = true := by
          rw [List.isPrefixOf_iff_prefix] at here ⊢
          have bound := indexOf?_le laterFound
          exact fun longer => here (List.prefix_of_prefix_length_le longer ⟨rest, rfl⟩
            (by rw [List.length_cons]; omega))
        rw [if_neg still, ih laterFound]
        rfl

/-- A comment is passed as a whole. -/
theorem read_comment (text : CommentText body) (name rest : JsString) (outside : cursor.Outside)
    : readCharacters name cursor (unit '/' :: unit '*' :: (body ++ units "*/" ++ rest))
      = readCharacters name (cursor.pass (unit '/' :: unit '*' :: (body ++ units "*/"))) rest := by
  have opened : cursor.read name (unit '/') (unit '*' :: (body ++ units "*/" ++ rest))
      = .next { cursor.pass [unit '/'] with mode := .commentOpening } := by
    rw [outside.read]
    rfl
  have star : Cursor.read name { cursor.pass [unit '/'] with mode := .commentOpening }
        (unit '*') (body ++ units "*/" ++ rest)
      = .next { cursor.pass [unit '/', unit '*'] with mode := .comment } := by
    simp only [Cursor.read, Cursor.pass, List.append_assoc, List.singleton_append]
  have inside := readCharacters_comment name (body ++ units "*/" ++ rest)
    { cursor.pass [unit '/', unit '*'] with mode := .comment } rfl
  have length : (body ++ units "*/").length = body.length + 2 := List.length_append
  obtain ⟨taken, dropped⟩ := take_drop_of_append (rfl : body ++ units "*/" ++ rest = _)
  rw [indexOf?_append text rest] at inside
  dsimp only at inside
  rw [← length, taken, dropped] at inside
  have same : ({ Cursor.pass { cursor.pass [unit '/', unit '*'] with mode := .comment }
        (body ++ units "*/") with mode := .ordinary } : Cursor)
      = cursor.pass (unit '/' :: unit '*' :: (body ++ units "*/")) := by
    simp only [Cursor.pass, outside.ordinary, List.append_assoc, List.cons_append, List.nil_append]
  rw [same] at inside
  exact (readCharacters_next opened).trans ((readCharacters_next star).trans inside)

theorem read_unmarked {other : CodeUnit} (differs : Unmarked other) (name rest : JsString)
    (outside : cursor.Outside)
    : readCharacters name cursor (other :: rest)
      = readCharacters name (cursor.pass [other]) rest :=
  readCharacters_next ((outside.read name other rest).trans (readOutside_unmarked differs))

theorem head?_ne {first : CodeUnit} {rest : JsString} (differs : first ≠ unit '*')
    : (first :: rest).head? ≠ some (unit '*') :=
  fun same => differs (Option.some.inj same)

theorem read_opening {opening : CodeUnit} {following : JsString}
    (opens : traceDelimiter? opening = some kind) (bracket : kind.isAngle = false) (name : JsString)
    (outside : cursor.Outside)
    : cursor.read name opening following
      = .next { cursor.pass [opening] with stack := kind :: cursor.stack } := by
  have kinds : opening = unit '(' ∨ opening = unit '[' ∨ opening = unit '\x7b' := by
    unfold traceDelimiter? at opens
    split_ifs at opens with first second third fourth
    · exact .inl first
    · exact .inr (.inl second)
    · exact .inr (.inr third)
    · rw [← Option.some.inj opens] at bracket
      exact absurd bracket (by decide)
  have notQuote : opening ≠ unit '"' := by
    rcases kinds with rfl | rfl | rfl <;> decide
  have notSlash : ¬ (opening = unit '/' ∧ following.head? = some (unit '*')) := by
    rintro ⟨rfl, -⟩
    exact absurd kinds (by decide)
  have notAngle : ¬ (opening = unit '<' ∧ following.head? = some (unit '/')) := by
    rintro ⟨rfl, -⟩
    exact absurd kinds (by decide)
  rw [outside.read]
  unfold Cursor.readOutside
  rw [if_neg notQuote, if_neg notSlash, opens]
  dsimp only
  rw [if_neg notAngle]

theorem closing?_cases {closing : CodeUnit} (closes : closing? closing = some kind)
    : closing = unit ')' ∨ closing = unit ']' ∨ closing = unit '\x7d' := by
  unfold closing? at closes
  split_ifs at closes with first second third
  · exact .inl first
  · exact .inr (.inl second)
  · exact .inr (.inr third)

theorem read_closing {closing : CodeUnit} (closes : closing? closing = some kind)
    (name following : JsString) (cursor : Cursor) (ordinary : cursor.mode = .ordinary)
    (unquoted : cursor.quoted = false) {stack : List Closing} (open_ : cursor.stack = kind :: stack)
    (bracket : kind.isAngle = false)
    : cursor.read name closing following = .next { cursor.pass [closing] with stack } := by
  have kinds := closing?_cases closes
  have outside : cursor.Outside :=
    ⟨ordinary, unquoted, by rw [Cursor.annotated, open_]; exact bracket⟩
  have notQuote : closing ≠ unit '"' := by
    rcases kinds with rfl | rfl | rfl <;> decide
  have notSlash : ¬ (closing = unit '/' ∧ following.head? = some (unit '*')) := by
    rintro ⟨rfl, -⟩
    exact absurd kinds (by decide)
  have noOpening : traceDelimiter? closing = none := by
    rcases kinds with rfl | rfl | rfl <;> decide
  have nested : ¬ (closing = unit ')' ∧ cursor.stack = []) := by
    rintro ⟨-, empty⟩
    rw [open_] at empty
    exact List.cons_ne_nil _ _ empty
  have top : cursor.stack.head? = some kind := by rw [open_]; rfl
  rw [outside.read]
  unfold Cursor.readOutside
  rw [if_neg notQuote, if_neg notSlash, noOpening]
  dsimp only
  rw [if_neg nested, closes]
  dsimp only
  rw [if_pos top, open_]
  rfl

/-- A text of an argument is passed as a whole, by induction on how it is written; commas may
only stand in it inside brackets, and what follows must not make a comment of its last slash.
-/
theorem ArgumentText.read {inside : Bool} {text : JsString} (written : ArgumentText inside text)
    (name following : JsString) (cursor : Cursor) (outside : cursor.Outside)
    (within : inside = true → cursor.stack ≠ []) (noComment : following.head? ≠ some (unit '*'))
    : readCharacters name cursor (text ++ following)
      = readCharacters name (cursor.pass text) following := by
  induction written generalizing cursor following with
  | nil => rw [List.nil_append, pass_nil]
  | plain inside other rest differs _ ih =>
      rw [List.cons_append, read_unmarked differs name _ outside,
        ih following (cursor.pass [other]) (outside.pass _) within noComment, pass_pass]
      rfl
  | slash inside rest noStar _ ih =>
      have next : ¬ (unit '/' = unit '/' ∧ (rest ++ following).head? = some (unit '*')) := by
        cases rest with
        | nil => exact fun both => noComment both.2
        | cons first others => exact fun both => noStar both.2
      have passed : cursor.read name (unit '/') (rest ++ following)
          = .next (cursor.pass [unit '/']) := by
        rw [outside.read]
        unfold Cursor.readOutside
        rw [if_neg (by decide), if_neg next]
        simp [show traceDelimiter? (unit '/') = none by decide,
          show closing? (unit '/') = none by decide, show unit '/' ≠ unit ')' by decide,
          show unit '/' ≠ unit ',' by decide]
      rw [List.cons_append, readCharacters_next passed,
        ih following (cursor.pass _) (outside.pass _) within noComment, pass_pass]
      rfl
  | comma rest _ ih =>
      have nested : ¬ (unit ',' = unit ',' ∧ cursor.stack = []) := fun both => within rfl both.2
      have passed : cursor.read name (unit ',') (rest ++ following)
          = .next (cursor.pass [unit ',']) := by
        rw [outside.read]
        unfold Cursor.readOutside
        rw [if_neg (by decide), if_neg fun both => absurd both.1 (by decide),
          show traceDelimiter? (unit ',') = none by decide,
          show closing? (unit ',') = none by decide]
        dsimp only
        rw [if_neg fun both => absurd both.1 (by decide), if_neg nested]
      rw [List.cons_append, readCharacters_next passed,
        ih following (cursor.pass _) (outside.pass _) within noComment, pass_pass]
      rfl
  | comment inside body rest text _ ih =>
      have read := read_comment text name (rest ++ following) outside
      rw [List.cons_append, List.cons_append, List.append_assoc, read,
        ih following (cursor.pass _) (outside.pass _) within noComment, pass_pass]
      simp only [List.cons_append, List.append_assoc]
  | string inside body rest text _ ih =>
      have read := read_string text name (rest ++ following) outside
      rw [List.cons_append, List.append_assoc, List.cons_append, read,
        ih following (cursor.pass _) (outside.pass _) within noComment, pass_pass]
      simp only [List.cons_append, List.append_assoc, List.nil_append]
  | angle inside body rest text _ ih =>
      have read := read_angle text name (rest ++ following) outside
      rw [List.cons_append, List.append_assoc, List.cons_append, read,
        ih following (cursor.pass _) (outside.pass _) within noComment, pass_pass]
      simp only [List.cons_append, List.append_assoc, List.nil_append]
  | group inside opening closing kind body rest opens bracket closes _ _ ihBody ihRest =>
      have inner := ihBody (closing :: (rest ++ following))
        { cursor.pass [opening] with stack := kind :: cursor.stack }
        ⟨outside.ordinary, outside.unquoted, bracket⟩ (fun _ => List.cons_ne_nil _ _)
        (head?_ne (by rcases closing?_cases closes with rfl | rfl | rfl <;> decide))
      have closed := read_closing closes name (rest ++ following)
        (Cursor.pass { cursor.pass [opening] with stack := kind :: cursor.stack } body)
        outside.ordinary outside.unquoted rfl bracket
      have after := ihRest following (cursor.pass (opening :: (body ++ [closing])))
        (outside.pass _) within noComment
      have same : ({ Cursor.pass
            (Cursor.pass { cursor.pass [opening] with stack := kind :: cursor.stack } body)
            [closing] with stack := cursor.stack } : Cursor)
          = cursor.pass (opening :: (body ++ [closing])) := by
        simp only [Cursor.pass, List.append_assoc, List.cons_append, List.nil_append]
      rw [same] at closed
      rw [List.cons_append, List.append_assoc, List.cons_append,
        readCharacters_next (read_opening opens bracket name outside), inner,
        readCharacters_next closed, after, pass_pass]
      simp only [List.cons_append, List.append_assoc, List.nil_append]

end Arguments

-- Whole lines

section Lines

variable {args : List JsString}

theorem trim_spaces {spaces : JsString}
    (all : ∀ other ∈ spaces, ActionSemantics.isTrimmed other = true) (text : JsString)
    : trim (spaces ++ text) = trim text := by
  rw [trim, trim, List.dropWhile_append_of_pos all]

/-- What follows the arguments of a call. -/
theorem result?_render {name result : JsString} (call : CallText name args result)
    : result? (units " = " ++ result) = some result := by
  have flush : result.dropWhile ActionSemantics.isTrimmed = result := by
    cases same : result with
    | nil => rfl
    | cons first rest =>
        have solid := call.flush first (by rw [same]; rfl)
        rw [List.dropWhile_cons_of_neg (by rw [solid]; exact Bool.false_ne_true)]
  have before : takeSome? ActionSemantics.isTrimmed (units " = " ++ result)
      = some ([unit ' '], unit '=' :: unit ' ' :: result) := rfl
  have behind : takeSome? ActionSemantics.isTrimmed (unit ' ' :: result)
      = some (unit ' ' :: result.takeWhile ActionSemantics.isTrimmed, result) := by
    rw [takeSome?, List.takeWhile_cons_of_pos (by decide),
      List.dropWhile_cons_of_pos (by decide), if_neg (List.cons_ne_nil _ _), flush]
  rw [result?, before]
  dsimp only
  rw [if_pos rfl, behind]
  dsimp only
  rw [if_neg (by rw [call.oneLine]; exact Bool.false_ne_true)]

/-- The end of the arguments. -/
theorem read_end {name result : JsString} (call : CallText name args result) {cursor : Cursor}
    (outside : cursor.Outside) (top : cursor.stack = [])
    : readCharacters name cursor (unit ')' :: (units " = " ++ result))
      = { name
          args :=
            if cursor.part ≠ [] ∨ cursor.args ≠ [] then cursor.args ++ [trim cursor.part]
            else cursor.args
          result } := by
  have done : cursor.read name (unit ')') (units " = " ++ result)
      = .done (cursor.close name (units " = " ++ result)) := by
    rw [outside.read]
    unfold Cursor.readOutside
    rw [if_neg (by decide), if_neg fun both => absurd both.1 (by decide),
      show traceDelimiter? (unit ')') = none by decide]
    dsimp only
    rw [if_pos ⟨rfl, top⟩]
  rw [readCharacters_done done, Cursor.close, result?_render call]
  cases same : result with
  | nil => exact absurd same call.returned
  | cons first rest => rfl

/-- A comma between arguments, with the space behind it. -/
theorem read_separator (name rest : JsString) {cursor : Cursor} (outside : cursor.Outside)
    (top : cursor.stack = [])
    : readCharacters name cursor (units ", " ++ rest)
      = readCharacters name
          { cursor with args := cursor.args ++ [trim cursor.part], part := units " " } rest := by
  have comma : cursor.read name (unit ',') (unit ' ' :: rest)
      = .next { cursor with args := cursor.args ++ [trim cursor.part], part := [] } := by
    rw [outside.read]
    unfold Cursor.readOutside
    rw [if_neg (by decide), if_neg fun both => absurd both.1 (by decide),
      show traceDelimiter? (unit ',') = none by decide,
      show closing? (unit ',') = none by decide]
    dsimp only
    rw [if_neg fun both => absurd both.1 (by decide), if_pos ⟨rfl, top⟩]
  have space : Unmarked (unit ' ') := unmarked_of_all (by decide)
  have still : Cursor.Outside
      { cursor with args := cursor.args ++ [trim cursor.part], part := [] } :=
    ⟨outside.ordinary, outside.unquoted, outside.unannotated⟩
  exact (readCharacters_next comma).trans (read_unmarked space name rest still)

/-- The arguments from one on, behind the white space of its comma, by induction on the list. -/
theorem read_arguments {name result : JsString} (call : CallText name args result)
    (first : JsString) (rest : List JsString) (written : ∀ text ∈ first :: rest, Argument text)
    (cursor : Cursor) (outside : cursor.Outside) (top : cursor.stack = [])
    (blank : ∀ other ∈ cursor.part, ActionSemantics.isTrimmed other = true)
    : readCharacters name cursor
        (joinArguments (first :: rest) ++ unit ')' :: (units " = " ++ result))
      = { name, args := cursor.args ++ first :: rest, result } := by
  induction rest generalizing first cursor with
  | nil =>
      have argument := written first List.mem_cons_self
      rw [joinArguments, argument.written.read name _ cursor outside nofun (head?_ne (by decide)),
        read_end call (outside.pass _) top]
      have begun : (cursor.pass first).part ≠ [] := fun empty =>
        argument.nonempty (List.append_eq_nil_iff.mp empty).2
      have part : trim (cursor.pass first).part = first :=
        (trim_spaces blank first).trans argument.trimmed
      rw [if_pos (.inl begun), part]
      rfl
  | cons second others ih =>
      have argument := written first List.mem_cons_self
      have part : trim (cursor.pass first).part = first :=
        (trim_spaces blank first).trans argument.trimmed
      have after := ih second (fun text member => written text (List.mem_cons_of_mem _ member))
        { cursor.pass first with args := cursor.args ++ [first], part := units " " }
        ⟨outside.ordinary, outside.unquoted, outside.unannotated⟩ top
        (List.all_eq_true.mp (show (units " ").all ActionSemantics.isTrimmed = true by decide))
      have separated := read_separator name
        (joinArguments (second :: others) ++ unit ')' :: (units " = " ++ result))
        (outside.pass first) top
      rw [part] at separated
      rw [joinArguments, List.append_assoc, List.append_assoc,
        argument.written.read name (units ", " ++ _) cursor outside nofun (head?_ne (by decide)),
        separated]
      refine after.trans ?_
      simp only [List.append_assoc, List.singleton_append]

theorem isTrimmed_of_isWordUnit {other : CodeUnit} (word : isWordUnit other = true)
    : ActionSemantics.isTrimmed other = false := by
  rw [isWordUnit, isUpperOrDigit, isDigit, Bool.or_eq_true, Bool.or_eq_true, Bool.or_eq_true,
    decide_eq_true_eq, decide_eq_true_eq, decide_eq_true_eq, beq_iff_eq] at word
  have range : 48 ≤ other.val ∧ other.val ≤ 122 := by
    rcases word with ((digit | upper) | lower) | rfl
    · omega
    · omega
    · omega
    · decide
  rw [ActionSemantics.isTrimmed, Bool.or_eq_false_iff, decide_eq_false_iff_not]
  refine ⟨by omega, ?_⟩
  rw [List.contains_eq_mem, decide_eq_false_iff_not]
  intro member
  simp only [List.mem_cons, List.not_mem_nil, or_false] at member
  omega

/-- The name of a call is read back, with the place where its arguments start. -/
theorem head?_render {name result : JsString} (call : CallText name args result)
    : head? (render name args result) = some (name, name.length + 1) := by
  have others : ∃ others, render name args result = name ++ unit '(' :: others := ⟨_, rfl⟩
  obtain ⟨others, same⟩ := others
  have word : takeSome? isWordUnit (name ++ unit '(' :: others)
      = some (name, unit '(' :: others) := by
    have stop : ¬ isWordUnit (unit '(') = true := by decide
    rw [takeSome?, List.takeWhile_append_of_pos call.word, List.dropWhile_append_of_pos call.word,
      List.takeWhile_cons_of_neg stop, List.dropWhile_cons_of_neg stop, List.append_nil,
      if_neg call.named]
  rw [same]
  cases spelled : name with
  | nil => exact absurd spelled call.named
  | cons first rest =>
      have solid : ¬ ActionSemantics.isTrimmed first = true := by
        have isWord := call.word first (by rw [spelled]; exact List.mem_cons_self)
        rw [isTrimmed_of_isWordUnit isWord]
        exact Bool.false_ne_true
      rw [spelled] at word
      rw [List.cons_append] at word ⊢
      rw [head?, List.dropWhile_cons_of_neg solid, List.takeWhile_cons_of_neg solid, word]
      dsimp only
      rw [if_pos rfl, List.length_nil, Nat.zero_add]

/-- The line of a call is no notice of a process that ended. -/
theorem isTermination_render {name result : JsString} (call : CallText name args result)
    : isTermination (render name args result) = isDomainExit (render name args result) := by
  have noNotice : ∀ rest : JsString, (render name args result).dropPrefix? (unit '+' :: rest)
      = none := by
    intro rest
    cases spelled : name with
    | nil => exact absurd spelled call.named
    | cons first others =>
        have different : first ≠ unit '+' := by
          rintro rfl
          have isWord := call.word (unit '+') (by rw [spelled]; exact List.mem_cons_self)
          exact absurd isWord (by decide)
        exact dropPrefix?_cons_ne different _ _
  have exit : isExit (render name args result) = false := by
    rw [isExit, show units "+++ exited with " = unit '+' :: units "++ exited with " from rfl,
      noNotice]
    rfl
  have kill : isKill (render name args result) = false := by
    rw [isKill, show units "+++ killed by SIG" = unit '+' :: units "++ killed by SIG" from rfl,
      noNotice]
    rfl
  rw [isTermination, exit, kill, Bool.false_or, Bool.false_or]

/-- Splitting is exact: a line is split as it is one character at a time, and a call that was
written out is read back, but for the line that ends a domain.
-/
theorem parseTraceLine_exact
    : (∀ line, parseTraceLine line = parseTraceLineByCharacter line)
      ∧ ∀ name args result, CallText name args result
        → isDomainExit (render name args result) = false
        → parseTraceLine (render name args result) = { name, args, result } := by
  refine ⟨parseTraceLine_eq, fun name args result call goesOn => ?_⟩
  have arguments : (render name args result).drop (name.length + 1)
      = joinArguments args ++ unit ')' :: (units " = " ++ result) := by
    rw [render, ← List.drop_drop, List.drop_left]
    rfl
  have start : ({} : Cursor).Outside := ⟨rfl, rfl, rfl⟩
  rw [parseTraceLine_eq, parseTraceLineByCharacter, parseTraceLineBy,
    isTermination_render call, goesOn, if_neg Bool.false_ne_true, head?_render call]
  dsimp only
  rw [arguments]
  cases args with
  | nil =>
      rw [joinArguments, List.nil_append, read_end call start rfl]
      rfl
  | cons first rest =>
      exact read_arguments call first rest call.arguments {} start rfl nofun

/-- A quoted argument with an escape and a bracketed one with a comma are read back. -/
theorem parseTraceLine_exact_open
    : parseTraceLine (render (units "open") [units "\"\\\"\"", units "[1,2]"] (units "3"))
      = { name := units "open"
          args := [units "\"\\\"\"", units "[1,2]"]
          result := units "3" } := by
  have quoted : ArgumentText false (units "\"\\\"\"") :=
    .string false [unit '\\', unit '"'] [] (.escape (unit '"') [] .nil) (.nil false)
  have list : ArgumentText true (units "1,2") :=
    .plain true (unit '1') _ (unmarked_of_all (by decide))
      (.comma _ (.plain true (unit '2') [] (unmarked_of_all (by decide)) (.nil true)))
  have bracketed : ArgumentText false (units "[1,2]") :=
    .group false (unit '[') (unit ']') .bracket (units "1,2") [] (by decide) rfl (by decide) list
      (.nil false)
  have arguments : ∀ text ∈ [units "\"\\\"\"", units "[1,2]"], Argument text := by
    intro text member
    rcases List.mem_cons.mp member with rfl | last
    · exact ⟨by decide, by decide, quoted⟩
    · rw [List.mem_singleton.mp last]
      exact ⟨by decide, by decide, bracketed⟩
  have word : (units "open").all isWordUnit = true := by decide
  have flush : ∀ other, (units "3").head? = some other →
      ActionSemantics.isTrimmed other = false := by
    intro other same
    obtain rfl : unit '3' = other := Option.some.inj same
    decide
  have call : CallText (units "open") [units "\"\\\"\"", units "[1,2]"] (units "3") :=
    ⟨by decide, List.all_eq_true.mp word, arguments, by decide, flush, by decide⟩
  exact parseTraceLine_exact.2 _ _ _ call (by decide)

/-- A call named like the end of a domain is read as that end. -/
theorem parseTraceLine_domainExit
    : ¬ ∀ name args result, CallText name args result
        → parseTraceLine (render name args result) = { name, args, result } := by
  intro reads
  have digit : ArgumentText false (units "1") :=
    .plain false (unit '1') [] (unmarked_of_all (by decide)) (.nil false)
  have word : (units "pi_domain_exit").all isWordUnit = true := by decide
  have argument : Argument (units "1") := ⟨by decide, by decide, digit⟩
  have flush : ∀ other, (units "0").head? = some other →
      ActionSemantics.isTrimmed other = false := by
    intro other same
    obtain rfl : unit '0' = other := Option.some.inj same
    decide
  have call : CallText (units "pi_domain_exit") [units "1"] (units "0") :=
    ⟨by decide, List.all_eq_true.mp word, fun text member => List.mem_singleton.mp member ▸ argument,
      by decide, flush, by decide⟩
  have read := congrArg TraceLine.name (reads _ _ _ call)
  have ended : isTermination (render (units "pi_domain_exit") [units "1"] (units "0")) = true := by
    decide
  rw [parseTraceLine, parseTraceLineBy, if_pos ended] at read
  exact absurd read (by decide)

end Lines

end SpeculativeAction.TraceLines
