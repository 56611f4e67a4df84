import SpeculativeAction.ReuseLookup.Dependencies

/-! What two digested records with one digest have in common. -/

namespace SpeculativeAction.ReuseLookup

open SpeculativeAction.Library SpeculativeAction.StableJson

-- Reading records

section Reading

variable {entries left right : List (Field × Data)} {field : Field}

def Field.all : List Field :=
  [kind, path, exclusive, role, contentDigest, metadataDigest, aliases, entriesDigest,
    excludedEntries, parentEntriesDigest, parentExcludedEntries, target, targetDigest,
    followSymlinks, digest, fields, fd, eof, metadata, listed, captureParent, weakKey,
    dependencies]

/-- Texts from which each value of an enumeration is found again are different. -/
theorem injective_of_find? {α : Type} {text : α → JsString} {all : List α}
    (found : ∀ value, (all.find? fun other => text other = text value) = some value)
    : Function.Injective text := by
  intro left right same
  have one := found left
  rw [same, found right] at one
  exact (Option.some.inj one).symm

theorem Field.text_injective : Function.Injective Field.text := by
  have found (value : Field)
      : (Field.all.find? fun other => other.text = value.text) = some value := by
    cases value <;> decide +kernel
  exact injective_of_find? found

/-- Read a field of a record; one that is not there is `undefined`. -/
def read (entries : List (Field × Data)) (field : Field) : Data :=
  ((entries.find? fun entry => entry.1 = field).map Prod.snd).getD .undefined

theorem isMissing_iff {value : Data} : isMissing value = true ↔ value = .undefined := by
  cases value <;> simp [isMissing]

theorem record_defined (entries : List (Field × Data)) : record entries ≠ .undefined := by
  simp [record]

theorem record_keys_nodup (distinct : (entries.map Prod.fst).Nodup)
    : (((entries.filter fun entry => !isMissing entry.2).map fun entry =>
        (entry.1.text, entry.2)).map Prod.fst).Nodup := by
  rw [List.map_map]
  have kept : (entries.filter fun entry => !isMissing entry.2).Sublist entries :=
    List.filter_sublist
  have mapped := (distinct.sublist (kept.map Prod.fst)).map Field.text_injective
  rw [List.map_map] at mapped
  exact mapped

theorem read_of_mem (distinct : (entries.map Prod.fst).Nodup) {value : Data}
    (member : (field, value) ∈ entries)
    : read entries field = value := by
  have found : (OrderedMap.mk entries distinct).get? field = some value :=
    OrderedMap.get?_eq_some_iff.mpr member
  rw [OrderedMap.get?] at found
  rw [read, found]
  rfl

theorem mem_of_read (there : read entries field ≠ .undefined)
    : (field, read entries field) ∈ entries := by
  cases found : entries.find? fun entry => entry.1 = field with
  | none =>
      rw [read, found] at there
      exact absurd rfl there
  | some entry =>
      have value : read entries field = entry.2 := by
        rw [read, found]
        rfl
      have same : entry.1 = field := by simpa using List.find?_some found
      rw [value, ← same]
      exact List.mem_of_find?_eq_some found

theorem fieldOf_record (distinct : (entries.map Prod.fst).Nodup) (field : Field)
    : fieldOf ((entries.filter fun entry => !isMissing entry.2).map fun entry =>
        (entry.1.text, entry.2)) field.text = read entries field := by
  by_cases there : read entries field = .undefined
  · rw [there]
    refine fieldOf_of_not_mem fun member => ?_
    obtain ⟨shown, listed, same⟩ := List.mem_map.mp member
    obtain ⟨⟨other, value⟩, kept, rfl⟩ := List.mem_map.mp listed
    obtain ⟨inside, present⟩ := List.mem_filter.mp kept
    obtain rfl := Field.text_injective same
    rw [read_of_mem distinct inside] at there
    rw [there] at present
    cases present
  · refine fieldOf_of_mem (record_keys_nodup distinct) (List.mem_map.mpr ⟨(field, _), ?_, rfl⟩)
    refine List.mem_filter.mpr ⟨mem_of_read there, ?_⟩
    rw [Bool.not_eq_true', Bool.eq_false_iff, Ne, isMissing_iff]
    exact there

theorem read_same (same : SameData (record left) (record right))
    (leftDistinct : (left.map Prod.fst).Nodup) (rightDistinct : (right.map Prod.fst).Nodup)
    (field : Field)
    : SameData (read left field) (read right field) := by
  cases same with
  | object _ _ fields =>
      have one := fields field.text
      rw [fieldOf_record leftDistinct, fieldOf_record rightDistinct] at one
      exact one

theorem isLossless_record (distinct : (entries.map Prod.fst).Nodup)
    (lossless : ∀ entry ∈ entries, isLossless entry.2 = true)
    : isLossless (record entries) = true := by
  rw [record, isLossless, Bool.and_eq_true]
  refine ⟨decide_eq_true (record_keys_nodup distinct), ?_⟩
  refine fieldsLossless_iff.mpr fun field member => ?_
  obtain ⟨entry, kept, rfl⟩ := List.mem_map.mp member
  exact lossless entry (List.mem_filter.mp kept).1

end Reading

-- Values

section Values

theorem string_same {left right : JsString} (same : SameData (.string left) (.string right))
    : left = right := by
  cases same
  rfl

theorem bool_same {left right : Bool} (same : SameData (.bool left) (.bool right))
    : left = right := by
  cases same
  rfl

theorem number_same {left right : Binary64}
    (same : SameData (.number (.finite left)) (.number (.finite right)))
    : left = right := by
  cases same
  rfl

theorem textData_same {left right : Option JsString}
    (same : SameData (textData left) (textData right))
    : left = right := by
  cases left <;> cases right <;> cases same <;> rfl

theorem array_same {α : Type} {f : α → Data} {left right : List α}
    (same : SameData (.array (left.map f)) (.array (right.map f)))
    : List.Forall₂ (fun first second => SameData (f first) (f second)) left right := by
  cases same with
  | array _ _ length slots =>
      refine List.forall₂_iff_get.mpr ⟨by simpa using length, fun index before after => ?_⟩
      have slot := slots index
      simpa [itemOf, before, after] using slot

theorem textsData_same {left right : List JsString}
    (same : SameData (textsData left) (textsData right))
    : left = right := by
  have all := (array_same same).imp fun _ _ one => string_same one
  rwa [List.forall₂_eq_eq_eq] at all

theorem optionalTexts_same {left right : Option (List JsString)}
    (same : SameData (optionalTexts left) (optionalTexts right))
    : left = right := by
  cases left with
  | none =>
      cases right with
      | none => rfl
      | some _ => cases same
  | some _ =>
      cases right with
      | none => cases same
      | some _ => rw [textsData_same same]

theorem itemsLossless_map {α : Type} {f : α → Data} {items : List α}
    (lossless : ∀ item ∈ items, f item ≠ .undefined ∧ isLossless (f item) = true)
    : isLossless (.array (items.map f)) = true := by
  rw [isLossless, itemsLossless_iff]
  intro item member
  obtain ⟨source, inside, rfl⟩ := List.mem_map.mp member
  exact lossless source inside

theorem isLossless_textData (value : Option JsString) : isLossless (textData value) = true := by
  cases value <;> rfl

theorem isLossless_textsData (values : List JsString) : isLossless (textsData values) = true :=
  itemsLossless_map fun _ _ => ⟨by simp, rfl⟩

theorem isLossless_optionalTexts (values : Option (List JsString))
    : isLossless (optionalTexts values) = true := by
  cases values with
  | none => rfl
  | some values => exact isLossless_textsData values

theorem FilesystemObservationField.text_injective
    : Function.Injective FilesystemObservationField.text := by
  have found (value : FilesystemObservationField)
      : (all.find? fun other => other.text = value.text) = some value := by
    cases value <;> decide +kernel
  exact injective_of_find? found

def DependencyRole.all : List DependencyRole := [input, executable, sharedObject]

theorem DependencyRole.text_injective : Function.Injective DependencyRole.text := by
  have found (value : DependencyRole)
      : (all.find? fun other => other.text = value.text) = some value := by
    cases value <;> decide +kernel
  exact injective_of_find? found

def DependencyKind.all : List DependencyKind :=
  [lock, file, directory, absence, symlink, metadata, fd]

theorem DependencyKind.text_injective : Function.Injective DependencyKind.text := by
  have found (value : DependencyKind)
      : (all.find? fun other => other.text = value.text) = some value := by
    cases value <;> decide +kernel
  exact injective_of_find? found

end Values

-- Dependencies

namespace DynamicDependency

variable {left right : DynamicDependency}

theorem entries_nodup (dependency : DynamicDependency)
    : (dependency.entries.map Prod.fst).Nodup := by
  cases dependency <;> simp [entries]

theorem pathsetEntries_nodup (dependency : DynamicDependency)
    : (dependency.pathsetEntries.map Prod.fst).Nodup := by
  cases dependency <;> simp [pathsetEntries]

theorem isLossless_data (dependency : DynamicDependency) : isLossless dependency.data = true := by
  refine isLossless_record dependency.entries_nodup fun entry member => ?_
  revert entry member
  cases dependency <;>
    simp [entries, isLossless, isLossless_textData, isLossless_optionalTexts]

theorem isLossless_pathset (dependency : DynamicDependency)
    : isLossless (record dependency.pathsetEntries) = true := by
  refine isLossless_record dependency.pathsetEntries_nodup fun entry member => ?_
  revert entry member
  cases dependency with
  | directory path entriesDigest metadataDigest excludedEntries =>
      cases entriesDigest <;> simp [pathsetEntries, isLossless, isLossless_textsData]
  | _ => simp [pathsetEntries, isLossless, isLossless_textsData, isLossless_optionalTexts]

theorem fields_text_injective
    : Function.Injective fun fields : Option (List FilesystemObservationField) =>
        fields.map (List.map FilesystemObservationField.text) :=
  Option.map_injective (List.map_injective_iff.mpr FilesystemObservationField.text_injective)

/-- Two dependencies with one record are the same. -/
theorem eq_of_data (same : SameData left.data right.data) : left = right := by
  have part (field : Field) : SameData (read left.entries field) (read right.entries field) :=
    read_same same left.entries_nodup right.entries_nodup field
  have kinds := DependencyKind.text_injective (string_same (part .kind))
  cases left with
  | lock path exclusive =>
      cases right with
      | lock =>
          obtain rfl := string_same (part .path)
          obtain rfl := bool_same (part .exclusive)
          rfl
      | _ => simp [kind] at kinds
  | file path role contentDigest metadataDigest aliases =>
      cases right with
      | file =>
          obtain rfl := string_same (part .path)
          obtain rfl := DependencyRole.text_injective (string_same (part .role))
          obtain rfl := string_same (part .contentDigest)
          obtain rfl := textData_same (part .metadataDigest)
          obtain rfl := optionalTexts_same (part .aliases)
          rfl
      | _ => simp [kind] at kinds
  | directory path entriesDigest metadataDigest excludedEntries =>
      cases right with
      | directory =>
          obtain rfl := string_same (part .path)
          obtain rfl := textData_same (part .entriesDigest)
          obtain rfl := textData_same (part .metadataDigest)
          obtain rfl := optionalTexts_same (part .excludedEntries)
          rfl
      | _ => simp [kind] at kinds
  | absence path parentEntriesDigest parentExcludedEntries =>
      cases right with
      | absence =>
          obtain rfl := string_same (part .path)
          obtain rfl := textData_same (part .parentEntriesDigest)
          obtain rfl := optionalTexts_same (part .parentExcludedEntries)
          rfl
      | _ => simp [kind] at kinds
  | symlink path target targetDigest =>
      cases right with
      | symlink =>
          obtain rfl := string_same (part .path)
          obtain rfl := string_same (part .target)
          obtain rfl := string_same (part .targetDigest)
          rfl
      | _ => simp [kind] at kinds
  | metadata path followSymlinks digest fields =>
      cases right with
      | metadata =>
          obtain rfl := string_same (part .path)
          obtain rfl := bool_same (part .followSymlinks)
          obtain rfl := string_same (part .digest)
          obtain rfl := fields_text_injective (optionalTexts_same (part .fields))
          rfl
      | _ => simp [kind] at kinds
  | fd number contentDigest eof =>
      cases right with
      | fd =>
          obtain rfl := number_same (part .fd)
          obtain rfl := string_same (part .contentDigest)
          obtain rfl := bool_same (part .eof)
          rfl
      | _ => simp [kind] at kinds

-- Digests

variable {hash : JsString → JsString}

/-- Records with one digest read the same, as far as texts with one hash are the same. -/
theorem digestObject_same (injective : Function.Injective hash) {first second : Data}
    (same : digestObject hash first = digestObject hash second)
    (firstLossless : isLossless first = true) (secondLossless : isLossless second = true)
    (firstDefined : first ≠ .undefined) (secondDefined : second ≠ .undefined)
    : SameData first second := by
  rw [← stableStringify_eq_iff_of_lossless firstLossless secondLossless]
  have texts := injective (List.append_cancel_left same)
  obtain ⟨firstText, shown⟩ := Option.ne_none_iff_exists'.mp
    (mt serialize_eq_none.mp firstDefined)
  obtain ⟨secondText, shown'⟩ := Option.ne_none_iff_exists'.mp
    (mt serialize_eq_none.mp secondDefined)
  rw [stableStringify, stableStringify, shown, shown'] at texts ⊢
  exact congrArg some texts

theorem pathsets_same (injective : Function.Injective hash) {lefts rights : List DynamicDependency}
    (same
      : digestObject hash (.array (lefts.map fun dependency => record dependency.pathsetEntries))
        = digestObject hash
            (.array (rights.map fun dependency => record dependency.pathsetEntries)))
    : List.Forall₂
        (fun first second => SameData (record first.pathsetEntries) (record second.pathsetEntries))
        lefts rights := by
  have lossless (dependencies : List DynamicDependency)
      : isLossless (.array (dependencies.map fun dependency => record dependency.pathsetEntries))
        = true :=
    itemsLossless_map fun dependency _ => ⟨record_defined _, dependency.isLossless_pathset⟩
  exact array_same (digestObject_same injective same (lossless lefts) (lossless rights)
    (by simp) (by simp))

/-- One strong key is that of one list of dependencies. -/
theorem strongKeys_same (injective : Function.Injective hash) {leftWeak rightWeak : JsString}
    {lefts rights : List DynamicDependency}
    (same
      : digestObject hash
          (record [(.weakKey, .string leftWeak), (.dependencies, .array (lefts.map data))])
        = digestObject hash
            (record [(.weakKey, .string rightWeak), (.dependencies, .array (rights.map data))]))
    : lefts = rights := by
  have lossless (weakKey : JsString) (dependencies : List DynamicDependency)
      : isLossless
          (record [(.weakKey, .string weakKey), (.dependencies, .array (dependencies.map data))])
        = true := by
    refine isLossless_record (by simp) fun entry member => ?_
    rcases List.mem_cons.mp member with rfl | member
    · rfl
    · rw [List.mem_singleton.mp member]
      exact itemsLossless_map fun dependency _ => ⟨record_defined _, dependency.isLossless_data⟩
  have records := digestObject_same injective same (lossless leftWeak lefts)
    (lossless rightWeak rights) (record_defined _) (record_defined _)
  have parts := array_same (read_same records (by simp) (by simp) .dependencies)
  have equal := parts.imp fun _ _ one => eq_of_data one
  rwa [List.forall₂_eq_eq_eq] at equal

end DynamicDependency

end SpeculativeAction.ReuseLookup
