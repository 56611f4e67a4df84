import SpeculativeAction.ReuseLookup.NormalForm
import SpeculativeAction.ReuseLookup.Observation
import SpeculativeAction.ReuseLookup.Records

/-! Observations: what they leave of a dependency, and that dependencies which ask for the same
observation are observed the same.
-/

namespace SpeculativeAction.ReuseLookup

open SpeculativeAction.Library SpeculativeAction.StableJson

variable {hash : JsString → JsString} {context : ProvenanceValidationContext}
  {expected observed : DynamicDependency} {physicalPath logicalPath : JsString}

-- What is observed

theorem bind_eq_ok {α β : Type} {read : Except ReadFailure α} {next : α → Except ReadFailure β}
    {result : β} (done : (read >>= next) = .ok result)
    : ∃ value, read = .ok value ∧ next value = .ok result := by
  cases read with
  | error failure => cases done
  | ok value => exact ⟨value, rfl, done⟩

theorem map_eq_ok {read : Except ReadFailure DynamicDependency}
    {result : Option DynamicDependency} (done : (some <$> read) = .ok result)
    : ∃ dependency, read = .ok dependency ∧ result = some dependency := by
  cases read with
  | error failure => cases done
  | ok dependency => exact ⟨dependency, rfl, (Except.ok.inj done).symm⟩

theorem settle_eq_observed {read : Except ReadFailure (Option DynamicDependency)}
    (settled : Check.settle read = .observed observed)
    : read = .ok (some observed) := by
  rcases read with (_ | _) | (_ | dependency)
  · cases settled
  · cases settled
  · cases settled
  · rw [Check.observed.inj settled]

theorem captureDirectoryEvidence_excluded {includeMetadata listed : Bool}
    {excludedEntries : List JsString} {evidence : DirectoryEvidence}
    (captured
      : captureDirectoryEvidence hash context physicalPath includeMetadata excludedEntries listed
        = .ok evidence)
    : evidence.excludedEntries.map DynamicDependency.sortNames = evidence.excludedEntries := by
  obtain ⟨entry, _, done⟩ := bind_eq_ok captured
  split at done
  · cases done
  · rw [← Except.ok.inj done]
    dsimp only
    split
    · rw [Option.map_some, DynamicDependency.sortNames_again]
    · rfl

/-- What is observed has the identity of what was expected, with its names in canonical order. -/
theorem capture_spec (captured : capture hash context physicalPath expected = .ok (some observed))
    : observed.identity = expected.identity ∧ observed.canonical = observed := by
  cases expected with
  | lock path exclusive =>
      obtain ⟨info, _, done⟩ := bind_eq_ok captured
      obtain ⟨held, _, done⟩ := bind_eq_ok done
      have shown := Except.ok.inj done
      split at shown
      · rw [← Option.some.inj shown]
        exact ⟨rfl, rfl⟩
      · cases shown
  | file path role contentDigest metadataDigest aliases =>
      obtain ⟨_, read, same⟩ := map_eq_ok captured
      obtain ⟨content, _, done⟩ := bind_eq_ok read
      obtain ⟨states, _, done⟩ := bind_eq_ok done
      rw [Option.some.inj same, ← Except.ok.inj done]
      exact ⟨rfl, rfl⟩
  | directory path entriesDigest metadataDigest excludedEntries =>
      obtain ⟨_, read, same⟩ := map_eq_ok captured
      obtain ⟨evidence, found, done⟩ := bind_eq_ok read
      rw [Option.some.inj same, ← Except.ok.inj done]
      refine ⟨rfl, ?_⟩
      rw [DynamicDependency.canonical, captureDirectoryEvidence_excluded found]
  | absence path parentEntriesDigest parentExcludedEntries =>
      change captureAbsenceDependency hash context physicalPath path _ _ = _ at captured
      rw [captureAbsenceDependency] at captured
      split at captured
      · cases captured
      · cases captured
      · split at captured
        · obtain ⟨evidence, found, done⟩ := bind_eq_ok captured
          rw [← Option.some.inj (Except.ok.inj done)]
          refine ⟨rfl, ?_⟩
          rw [DynamicDependency.canonical, captureDirectoryEvidence_excluded found]
        · rw [← Option.some.inj (Except.ok.inj captured)]
          exact ⟨rfl, rfl⟩
  | symlink path target targetDigest =>
      obtain ⟨_, read, same⟩ := map_eq_ok captured
      obtain ⟨entry, _, done⟩ := bind_eq_ok read
      split at done
      · cases done
      · rw [Option.some.inj same, ← Except.ok.inj done]
        exact ⟨rfl, rfl⟩
  | metadata path followSymlinks digest fields =>
      obtain ⟨_, read, same⟩ := map_eq_ok captured
      obtain ⟨info, _, done⟩ := bind_eq_ok read
      rw [Option.some.inj same, ← Except.ok.inj done]
      exact ⟨rfl, rfl⟩
  | fd number contentDigest eof => cases captured

theorem check_spec (checked : check hash context expected = .observed observed)
    : observed.identity = expected.identity ∧ observed.canonical = observed := by
  cases expected with
  | fd number contentDigest eof =>
      rw [check] at checked
      split at checked
      · cases checked
      · rw [← Check.observed.inj checked]
        exact ⟨rfl, rfl⟩
  | _ =>
      simp only [check] at checked
      split at checked
      · cases checked
      · exact capture_spec (settle_eq_observed checked)

-- What decides an observation

theorem isSome_of_listed {left right : Option JsString}
    (same
      : SameData (if left.isNone then .bool false else .undefined)
          (if right.isNone then .bool false else .undefined))
    : left.isSome = right.isSome := by
  cases left <;> cases right <;> first | rfl | cases same

/-- Dependencies with one pathset record are observed the same. -/
theorem check_congr {left right : DynamicDependency}
    (same : SameData (record left.pathsetEntries) (record right.pathsetEntries))
    : check hash context left = check hash context right := by
  have part (field : Field)
      : SameData (read left.pathsetEntries field) (read right.pathsetEntries field) :=
    read_same same left.pathsetEntries_nodup right.pathsetEntries_nodup field
  have kinds := DependencyKind.text_injective (string_same (part .kind))
  cases left with
  | lock path exclusive =>
      cases right with
      | lock =>
          obtain rfl := string_same (part .path)
          obtain rfl := bool_same (part .exclusive)
          rfl
      | _ => simp [DynamicDependency.kind] at kinds
  | file path role contentDigest metadataDigest aliases =>
      cases right with
      | file =>
          obtain rfl := string_same (part .path)
          obtain rfl := DependencyRole.text_injective (string_same (part .role))
          have metadata := bool_same (part .metadata)
          obtain rfl := optionalTexts_same (part .aliases)
          simp only [check, capture, metadata]
          rfl
      | _ => simp [DynamicDependency.kind] at kinds
  | directory path entriesDigest metadataDigest excludedEntries =>
      cases right with
      | directory =>
          obtain rfl := string_same (part .path)
          have metadata := bool_same (part .metadata)
          have excluded := textsData_same (part .excludedEntries)
          have listed := isSome_of_listed (part .listed)
          simp only [check, capture, metadata, excluded, listed]
          rfl
      | _ => simp [DynamicDependency.kind] at kinds
  | absence path parentEntriesDigest parentExcludedEntries =>
      cases right with
      | absence =>
          obtain rfl := string_same (part .path)
          have parent := bool_same (part .captureParent)
          have excluded := textsData_same (part .parentExcludedEntries)
          simp only [check, capture, parent, excluded]
          rfl
      | _ => simp [DynamicDependency.kind] at kinds
  | symlink path target targetDigest =>
      cases right with
      | symlink =>
          obtain rfl := string_same (part .path)
          rfl
      | _ => simp [DynamicDependency.kind] at kinds
  | metadata path followSymlinks digest fields =>
      cases right with
      | metadata =>
          obtain rfl := string_same (part .path)
          obtain rfl := bool_same (part .followSymlinks)
          obtain rfl := DynamicDependency.fields_text_injective (optionalTexts_same (part .fields))
          rfl
      | _ => simp [DynamicDependency.kind] at kinds
  | fd number contentDigest eof =>
      cases right with
      | fd =>
          obtain rfl := number_same (part .fd)
          rfl
      | _ => simp [DynamicDependency.kind] at kinds

theorem map_check_congr {lefts rights : List DynamicDependency}
    (same
      : List.Forall₂
          (fun left right => SameData (record left.pathsetEntries) (record right.pathsetEntries))
          lefts rights)
    : lefts.map (check hash context) = rights.map (check hash context) := by
  have checks : List.Forall₂
      (fun left right => check hash context left = check hash context right) lefts rights :=
    same.imp fun _ _ one => check_congr one
  induction checks with
  | nil => rfl
  | cons one _ ih =>
      cases same with
      | cons _ others => rw [List.map_cons, List.map_cons, one, ih others]

end SpeculativeAction.ReuseLookup
