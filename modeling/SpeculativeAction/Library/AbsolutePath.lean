import SpeculativeAction.Library.PosixPath

/-! Absolute POSIX paths as lists of clean names. Resolving a text gives such a path, its text
resolves to itself, and one path contains another exactly where its names are a prefix.
-/

namespace SpeculativeAction.Library.PosixPath

open SpeculativeAction.Library

section Names

variable {resolved names : List JsString} {allow : Bool}

/-- A name that stays as it is when a path is resolved. -/
structure CleanName (name : JsString) : Prop where
  nonempty : name ≠ []
  plain : sep ∉ name
  notDot : name ≠ dot
  notDotDot : name ≠ dotDot

theorem sep_notMem_of_mem_splitSep {text segment : JsString} (member : segment ∈ splitSep text)
    : sep ∉ segment := by
  induction text generalizing segment with
  | nil =>
      obtain rfl := List.mem_singleton.mp member
      exact List.not_mem_nil
  | cons first rest ih =>
      rw [splitSep] at member
      split at member
      next =>
        rcases List.mem_cons.mp member with rfl | later
        · exact List.not_mem_nil
        · exact ih later
      next different =>
        obtain ⟨head, tail, found⟩ := List.exists_cons_of_ne_nil (splitSep_ne_nil rest)
        rw [found, List.headD_cons, List.tail_cons] at member
        rcases List.mem_cons.mp member with rfl | later
        · intro isSep
          rcases List.mem_cons.mp isSep with same | inside
          · exact different same.symm
          · exact ih (found ▸ List.mem_cons_self) inside
        · exact ih (found ▸ List.mem_cons_of_mem _ later)

theorem mem_segments {text segment : JsString} (member : segment ∈ segments text)
    : segment ≠ [] ∧ sep ∉ segment := by
  obtain ⟨isSplit, nonempty⟩ := List.mem_filter.mp member
  exact ⟨of_decide_eq_true nonempty, sep_notMem_of_mem_splitSep isSplit⟩

/-- What is resolved without going above the root has clean names only. -/
theorem pushSegment_clean {segment : JsString} (clean : ∀ name ∈ resolved, CleanName name)
    (nonempty : segment ≠ []) (plain : sep ∉ segment)
    : ∀ name ∈ pushSegment false resolved segment, CleanName name := by
  intro name member
  unfold pushSegment at member
  split at member
  next => exact clean name member
  next notDot =>
    split at member
    next =>
      cases resolved with
      | nil => cases member
      | cons last rest =>
          dsimp only at member
          rw [if_neg (clean last List.mem_cons_self).notDotDot] at member
          exact clean name (List.mem_cons_of_mem _ member)
    next notDotDot =>
      rcases List.mem_cons.mp member with rfl | earlier
      · exact ⟨nonempty, plain, notDot, notDotDot⟩
      · exact clean name earlier

theorem foldl_pushSegment_clean (plain : ∀ name ∈ names, name ≠ [] ∧ sep ∉ name)
    (clean : ∀ name ∈ resolved, CleanName name)
    : ∀ name ∈ names.foldl (pushSegment false) resolved, CleanName name := by
  induction names generalizing resolved with
  | nil => exact clean
  | cons first rest ih =>
      obtain ⟨nonempty, noSep⟩ := plain first List.mem_cons_self
      exact ih (fun name member => plain name (List.mem_cons_of_mem _ member))
        (pushSegment_clean clean nonempty noSep)

theorem resolvedSegments_clean (cwd text : JsString)
    : ∀ name ∈ resolvedSegments cwd text, CleanName name := by
  intro name member
  refine foldl_pushSegment_clean ?_ (fun _ none_ => absurd none_ List.not_mem_nil) name
    (List.mem_reverse.mp member)
  intro segment inside
  split at inside
  next => exact mem_segments inside
  next =>
    rcases List.mem_append.mp inside with left | right
    · exact mem_segments left
    · exact mem_segments right

theorem pushSegment_of_clean {name : JsString} (clean : CleanName name)
    : pushSegment allow resolved name = name :: resolved := by
  unfold pushSegment
  rw [if_neg clean.notDot, if_neg clean.notDotDot]

/-- Clean names stay as they are. -/
theorem foldl_pushSegment (clean : ∀ name ∈ names, CleanName name)
    : names.foldl (pushSegment allow) resolved = names.reverse ++ resolved := by
  induction names generalizing resolved with
  | nil => rfl
  | cons first rest ih =>
      rw [List.foldl_cons, pushSegment_of_clean (clean first List.mem_cons_self),
        ih fun name member => clean name (List.mem_cons_of_mem _ member), List.reverse_cons,
        List.append_assoc]
      rfl

theorem resolveSegments_of_clean (clean : ∀ name ∈ names, CleanName name)
    : resolveSegments allow names = names := by
  rw [resolveSegments, foldl_pushSegment clean, List.append_nil, List.reverse_reverse]

/-- Clean names behind others are resolved as they are. -/
theorem resolveSegments_append {rest : List JsString} (clean : ∀ name ∈ rest, CleanName name)
    : resolveSegments allow (names ++ rest) = resolveSegments allow names ++ rest := by
  rw [resolveSegments, List.foldl_append, foldl_pushSegment clean, List.reverse_append,
    List.reverse_reverse]
  rfl

theorem joinSep_cons (more : names ≠ []) (name : JsString)
    : joinSep (name :: names) = name ++ sep :: joinSep names := by
  cases names with
  | nil => exact absurd rfl more
  | cons next rest => rfl

theorem joinSep_splitSep (text : JsString) : joinSep (splitSep text) = text := by
  induction text with
  | nil => rfl
  | cons first rest ih =>
      obtain ⟨head, tail, found⟩ := List.exists_cons_of_ne_nil (splitSep_ne_nil rest)
      rw [splitSep]
      by_cases same : first = sep
      · rw [if_pos same, joinSep_cons (splitSep_ne_nil rest), ih, same]
        rfl
      · rw [if_neg same, found, List.headD_cons, List.tail_cons]
        rw [found] at ih
        cases tail with
        | nil => exact congrArg (first :: ·) ih
        | cons next more => exact congrArg (first :: ·) ih

/-- The names of a text are found again. -/
theorem segments_joinSep (clean : ∀ name ∈ names, CleanName name)
    : segments (joinSep names) = names := by
  induction names with
  | nil => rfl
  | cons first rest ih =>
      have head := clean first List.mem_cons_self
      have later := ih fun name member => clean name (List.mem_cons_of_mem _ member)
      by_cases more : rest = []
      · rw [more]
        exact segments_of_plain head.nonempty head.plain
      · have single := segments_of_plain head.nonempty head.plain
        rw [segments] at single later
        rw [joinSep_cons more, segments, splitSep_append_sep, List.filter_append, single, later]
        rfl

theorem segments_append_sep (left right : JsString)
    : segments (left ++ sep :: right) = segments left ++ segments right := by
  rw [segments, splitSep_append_sep, List.filter_append]
  rfl

theorem segments_sep_cons (text : JsString) : segments (sep :: text) = segments text :=
  segments_append_sep [] text

theorem joinSep_append {left right : List JsString} (some_ : left ≠ []) (more : right ≠ [])
    : joinSep (left ++ right) = joinSep left ++ sep :: joinSep right := by
  induction left with
  | nil => exact absurd rfl some_
  | cons first rest ih =>
      by_cases last : rest = []
      · rw [last, List.singleton_append, joinSep_cons more]
        rfl
      · rw [List.cons_append, joinSep_cons (List.append_ne_nil_of_left_ne_nil last _), ih last,
          joinSep_cons last, List.append_assoc]
        rfl

theorem joinSep_ne_nil (clean : ∀ name ∈ names, CleanName name) (some_ : names ≠ [])
    : joinSep names ≠ [] := by
  intro empty
  have found := segments_joinSep clean
  rw [empty] at found
  exact some_ found.symm

/-- A text of clean names ends in a name. -/
theorem getLast?_joinSep (clean : ∀ name ∈ names, CleanName name)
    : (joinSep names).getLast? ≠ some sep := by
  induction names with
  | nil => simp [joinSep]
  | cons first rest ih =>
      have head := clean first List.mem_cons_self
      by_cases more : rest = []
      · intro last
        rw [more] at last
        exact head.plain (List.mem_of_getLast? last)
      · have cleanRest (name : JsString) (member : name ∈ rest) : CleanName name :=
          clean name (List.mem_cons_of_mem _ member)
        rw [joinSep_cons more, List.getLast?_append_cons,
          List.getLast?_cons_of_ne_nil (joinSep_ne_nil cleanRest more)]
        exact ih cleanRest

end Names

section Paths

/-- A resolved path: its names, none of which resolving would change. -/
@[ext]
structure AbsolutePath where
  names : List JsString
  clean : ∀ name ∈ names, CleanName name

def AbsolutePath.text (path : AbsolutePath) : JsString := sep :: joinSep path.names

/-- The path a text denotes. -/
def absolutePath (cwd text : JsString) : AbsolutePath where
  names := resolvedSegments cwd text
  clean := resolvedSegments_clean cwd text

theorem AbsolutePath.append_clean (path : AbsolutePath) (rest : List JsString)
    (clean : ∀ name ∈ rest, CleanName name)
    : ∀ name ∈ path.names ++ rest, CleanName name :=
  List.forall_mem_append.mpr ⟨path.clean, clean⟩

/-- The names of a path, and clean names behind them. -/
def AbsolutePath.below (path : AbsolutePath) (rest : List JsString)
    (clean : ∀ name ∈ rest, CleanName name) : AbsolutePath where
  names := path.names ++ rest
  clean := path.append_clean rest clean

variable {path other : AbsolutePath} {rest : List JsString}

theorem resolve_eq_text (cwd text : JsString) : resolve cwd text = (absolutePath cwd text).text :=
  rfl

theorem segments_text (path : AbsolutePath) : segments path.text = path.names := by
  rw [AbsolutePath.text, segments_sep_cons, segments_joinSep path.clean]

theorem text_injective (same : path.text = other.text) : path = other := by
  have names := congrArg segments same
  rw [segments_text, segments_text] at names
  exact AbsolutePath.ext names

/-- The text of a path denotes the path. -/
theorem absolutePath_text (cwd : JsString) (path : AbsolutePath)
    : absolutePath cwd path.text = path := by
  have absolute : isAbsolute path.text = true := rfl
  have names : resolvedSegments cwd path.text = path.names := by
    unfold resolvedSegments
    rw [if_pos absolute, segments_text, resolveSegments_of_clean path.clean]
  exact AbsolutePath.ext names

theorem resolve_text (cwd : JsString) (path : AbsolutePath) : resolve cwd path.text = path.text := by
  rw [resolve_eq_text, absolutePath_text]

theorem not_isAbsolute_joinSep (clean : ∀ name ∈ rest, CleanName name)
    : isAbsolute (joinSep rest) = false := by
  refine decide_eq_false fun head => ?_
  cases rest with
  | nil => cases head
  | cons first rest =>
      have name := clean first List.mem_cons_self
      obtain ⟨unit, units, spelled⟩ := List.exists_cons_of_ne_nil name.nonempty
      have starts : (joinSep (first :: rest)).head? = some unit := by
        cases rest with
        | nil => rw [joinSep, spelled, List.head?_cons]
        | cons next rest => rw [joinSep, spelled, List.cons_append, List.head?_cons]
      rw [starts] at head
      have isSep : sep ∈ first := by
        rw [spelled, Option.some.inj head]
        exact List.mem_cons_self
      exact name.plain isSep

/-- Resolving names against a path. -/
theorem resolve_below (clean : ∀ name ∈ rest, CleanName name)
    : resolve path.text (joinSep rest) = (path.below rest clean).text := by
  rw [resolve, resolvedSegments, not_isAbsolute_joinSep clean, if_neg Bool.false_ne_true,
    segments_text, segments_joinSep clean, resolveSegments_of_clean (path.append_clean rest clean)]
  rfl

/-- A text with clean names that does not end in a separator is normalized to its names. -/
theorem normalize_of_clean {text : JsString} (absolute : isAbsolute text = true)
    (clean : ∀ name ∈ segments text, CleanName name)
    (last : segments text ≠ [] → text.getLast? ≠ some sep)
    : normalize text = sep :: joinSep (segments text) := by
  rw [normalize, absolute, resolveSegments_of_clean clean]
  by_cases root : segments text = []
  · rw [root]
    rfl
  · have more := joinSep_ne_nil clean root
    obtain ⟨unit, units, spelled⟩ := List.exists_cons_of_ne_nil more
    rw [spelled, if_neg (not_and_of_not_right _ (last root))]
    dsimp only
    rw [List.append_nil]

theorem getLast?_text (some_ : path.names ≠ []) : path.text.getLast? ≠ some sep := by
  rw [AbsolutePath.text, List.getLast?_cons_of_ne_nil (joinSep_ne_nil path.clean some_)]
  exact getLast?_joinSep path.clean

/-- Joining names onto a path. -/
theorem join_below (clean : ∀ name ∈ rest, CleanName name)
    : join path.text (joinSep rest) = (path.below rest clean).text := by
  have absolute : isAbsolute path.text = true := rfl
  have named : path.text ≠ [] := List.cons_ne_nil _ _
  rw [join, if_neg named]
  by_cases none_ : rest = []
  · subst none_
    have same : path.below [] clean = path := AbsolutePath.ext (List.append_nil _)
    rw [joinSep, if_pos rfl, same, normalize_of_clean absolute, segments_text]
    · rfl
    · rw [segments_text]
      exact path.clean
    · rw [segments_text]
      exact getLast?_text
  · rw [if_neg (joinSep_ne_nil clean none_)]
    have names : segments (path.text ++ sep :: joinSep rest) = (path.below rest clean).names := by
      rw [segments_append_sep, segments_text, segments_joinSep clean]
      rfl
    rw [normalize_of_clean, names]
    · rfl
    · rfl
    · rw [names]
      exact (path.below rest clean).clean
    · intro _
      rw [List.getLast?_append_cons, List.getLast?_cons_of_ne_nil (joinSep_ne_nil clean none_)]
      exact getLast?_joinSep clean

end Paths

section Containment

variable {path other : AbsolutePath}

theorem text_below {rest : List JsString} (clean : ∀ name ∈ rest, CleanName name)
    (some_ : path.names ≠ []) (more : rest ≠ [])
    : (path.below rest clean).text = path.text ++ sep :: joinSep rest := by
  rw [AbsolutePath.text, AbsolutePath.below, joinSep_append some_ more]
  rfl

theorem AbsolutePath.drop_clean (path : AbsolutePath) (count : ℕ) : ∀ name ∈ path.names.drop count, CleanName name :=
  fun name member => path.clean name (List.mem_of_mem_drop member)

/-- A path below another is the other with the rest of its names. -/
theorem eq_below_of_prefix (contained : path.names <+: other.names)
    : other = path.below (other.names.drop path.names.length) (other.drop_clean _) := by
  refine AbsolutePath.ext ?_
  obtain ⟨rest, same⟩ := contained
  have behind : other.names.drop path.names.length = rest := by rw [← same, List.drop_left]
  change other.names = path.names ++ other.names.drop path.names.length
  rw [behind, same]

/-- The text of a path starts with another one and a separator exactly below the other. -/
theorem text_prefix_iff (some_ : path.names ≠ [])
    : path.text ++ [sep] <+: other.text
      ↔ path.names <+: other.names ∧ other.names ≠ path.names := by
  constructor
  · rintro ⟨rest, spelled⟩
    rw [List.append_assoc, List.singleton_append] at spelled
    have names := congrArg segments spelled
    rw [segments_append_sep, segments_text, segments_text] at names
    refine ⟨⟨segments rest, names⟩, fun same => ?_⟩
    rw [text_injective (congrArg AbsolutePath.text (AbsolutePath.ext same))] at spelled
    have lengths := congrArg List.length spelled
    rw [List.length_append, List.length_cons] at lengths
    omega
  · rintro ⟨contained, different⟩
    have more : other.names.drop path.names.length ≠ [] := by
      intro none_
      obtain ⟨rest, same⟩ := contained
      rw [← same, List.drop_left] at none_
      rw [none_, List.append_nil] at same
      exact different same.symm
    have spelled := text_below (other.drop_clean path.names.length) some_ more
    rw [← eq_below_of_prefix contained] at spelled
    rw [spelled]
    exact ⟨joinSep (other.names.drop path.names.length), by simp⟩

/-- What is behind the text of a containing path are the other names. -/
theorem drop_text (some_ : path.names ≠ []) (contained : path.names <+: other.names)
    (different : other.names ≠ path.names)
    : other.text.drop (path.text.length + 1)
      = joinSep (other.names.drop path.names.length) := by
  have more : other.names.drop path.names.length ≠ [] := by
    intro none_
    obtain ⟨rest, same⟩ := contained
    rw [← same, List.drop_left] at none_
    rw [none_, List.append_nil] at same
    exact different same.symm
  have spelled := text_below (other.drop_clean path.names.length) some_ more
  rw [← eq_below_of_prefix contained] at spelled
  rw [spelled, ← List.drop_drop, List.drop_left, List.drop_one, List.tail_cons]

end Containment

end SpeculativeAction.Library.PosixPath
