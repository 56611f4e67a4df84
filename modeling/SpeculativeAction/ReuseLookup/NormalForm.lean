import SpeculativeAction.ReuseLookup.Dependencies

/-! The normal form of a list of dependencies: sorted by identity, each one valid and with its
names in canonical order; it is its own normal form.
-/

namespace SpeculativeAction.ReuseLookup.DynamicDependency

open SpeculativeAction.Library

/-- A list of dependencies in normal form. -/
structure Normal (dependencies : List DynamicDependency) : Prop where
  ordered : (dependencies.map identity).Pairwise (· < ·)
  canonical : ∀ dependency ∈ dependencies, dependency.canonical = dependency
  valid : ∀ dependency ∈ dependencies, validateDependency dependency = true

variable {dependencies normal : List DynamicDependency}

-- Canonical names

theorem sortNames_again (names : List JsString)
    : sortNames (sortNames names) = sortNames names := by
  have distinct : (sortNames names).Nodup :=
    (List.perm_insertionSort _ _).nodup_iff.mpr (List.nodup_dedup names)
  have sorted : (sortNames names).Pairwise (· ≤ ·) := List.pairwise_insertionSort _ _
  rw [sortNames, distinct.dedup]
  exact sorted.insertionSort_eq

theorem canonical_again (dependency : DynamicDependency)
    : dependency.canonical.canonical = dependency.canonical := by
  cases dependency with
  | directory path entriesDigest metadataDigest excludedEntries =>
      cases excludedEntries with
      | none => rfl
      | some names => simp only [canonical, Option.map_some, sortNames_again]
  | absence path parentEntriesDigest parentExcludedEntries =>
      cases parentExcludedEntries with
      | none => rfl
      | some names => simp only [canonical, Option.map_some, sortNames_again]
  | _ => rfl

-- Normalizing gives a normal form

/-- What is noted of some sources, each under its identity. -/
def Noted (sources : List DynamicDependency) (seen : OrderedMap JsString DynamicDependency)
    : Prop :=
  seen.Forall fun name dependency =>
    dependency.identity = name ∧ validateDependency dependency = true
    ∧ ∃ source ∈ sources, source.canonical = dependency

section Normalizing

variable {seen next : OrderedMap JsString DynamicDependency} {source : DynamicDependency}

theorem note_spec (noted : note seen source = some next)
    : next = seen.set source.canonical.identity source.canonical
      ∧ validateDependency source.canonical = true := by
  unfold note at noted
  split at noted
  · cases noted
  · next valid =>
      rw [Bool.not_eq_true, Bool.not_eq_false'] at valid
      refine ⟨?_, valid⟩
      split at noted
      · exact (Option.some.inj noted).symm
      · split at noted
        · exact (Option.some.inj noted).symm
        · cases noted

theorem Noted.notes {sources rest : List DynamicDependency} (noted : Noted sources seen)
    (among : ∀ source ∈ rest, source ∈ sources) (result : rest.foldlM note seen = some next)
    : Noted sources next := by
  induction rest generalizing seen with
  | nil =>
      obtain rfl := Option.some.inj result
      exact noted
  | cons source rest ih =>
      rw [List.foldlM_cons] at result
      obtain ⟨middle, first, others⟩ := Option.bind_eq_some_iff.mp result
      obtain ⟨rfl, valid⟩ := note_spec first
      refine ih (noted.set ⟨rfl, valid, source, among source List.mem_cons_self, rfl⟩)
        (fun other member => among other (List.mem_cons_of_mem _ member)) others

theorem map_identity_filterMap {sources : List DynamicDependency} (noted : Noted sources seen)
    (names : List JsString) (known : ∀ name ∈ names, name ∈ seen.keys)
    : (names.filterMap seen.get?).map identity = names := by
  induction names with
  | nil => rfl
  | cons name rest ih =>
      obtain ⟨dependency, found⟩ := Option.ne_none_iff_exists'.mp
        (mt OrderedMap.get?_eq_none_iff.mp (not_not_intro (known name List.mem_cons_self)))
      rw [List.filterMap_cons_some found, List.map_cons, (noted name dependency found).1,
        ih fun other member => known other (List.mem_cons_of_mem _ member)]

theorem normalizeDependencies_spec (result : normalizeDependencies dependencies = some normal)
    : Normal normal
      ∧ ∀ dependency ∈ normal, ∃ source ∈ dependencies, source.canonical = dependency := by
  obtain ⟨seen, notes, rfl⟩ := Option.map_eq_some_iff.mp result
  have noted : Noted dependencies seen :=
    Noted.notes OrderedMap.Forall.empty (fun _ member => member) notes
  have facts {dependency : DynamicDependency}
      (member : dependency ∈ (seen.keys.insertionSort (· ≤ ·)).filterMap seen.get?)
      : validateDependency dependency = true
        ∧ ∃ source ∈ dependencies, source.canonical = dependency := by
    obtain ⟨name, _, found⟩ := List.mem_filterMap.mp member
    exact (noted name dependency found).2
  refine ⟨⟨?_, fun dependency member => ?_, fun dependency member => (facts member).1⟩,
    fun dependency member => (facts member).2⟩
  · rw [map_identity_filterMap noted _ fun name member => (List.mem_insertionSort _).mp member]
    have sorted : (seen.keys.insertionSort (· ≤ ·)).Pairwise (· ≤ ·) :=
      List.pairwise_insertionSort _ _
    have distinct : (seen.keys.insertionSort (· ≤ ·)).Nodup :=
      (List.perm_insertionSort _ _).nodup_iff.mpr seen.keys_nodup
    exact (sorted.and distinct).imp fun both => lt_of_le_of_ne both.1 both.2
  · obtain ⟨_, source, _, rfl⟩ := facts member
    exact canonical_again source

end Normalizing

-- A normal form is kept

namespace Normal

theorem tail {dependency : DynamicDependency} (normal : Normal (dependency :: dependencies))
    : Normal dependencies where
  ordered := (List.pairwise_cons.mp normal.ordered).2
  canonical other member := normal.canonical other (List.mem_cons_of_mem _ member)
  valid other member := normal.valid other (List.mem_cons_of_mem _ member)

theorem nodup (normal : Normal dependencies) : (dependencies.map identity).Nodup :=
  normal.ordered.imp fun less => less.ne

/-- Only one dependency has an identity. -/
theorem eq_of_identity (normal : Normal dependencies) {left right : DynamicDependency}
    (leftMember : left ∈ dependencies) (rightMember : right ∈ dependencies)
    (same : left.identity = right.identity)
    : left = right :=
  List.inj_on_of_nodup_map normal.nodup leftMember rightMember same

/-- New identities are noted one after the other. -/
theorem notes (normal : Normal dependencies) {seen : OrderedMap JsString DynamicDependency}
    (fresh : ∀ dependency ∈ dependencies, dependency.identity ∉ seen.keys)
    : ∃ next,
        dependencies.foldlM note seen = some next
        ∧ next.entries
          = seen.entries
            ++ dependencies.map fun dependency => (dependency.identity, dependency) := by
  induction dependencies generalizing seen with
  | nil => exact ⟨seen, rfl, (List.append_nil _).symm⟩
  | cons dependency rest ih =>
      have absent := fresh dependency List.mem_cons_self
      have noted : note seen dependency = some (seen.set dependency.identity dependency) := by
        rw [note, normal.canonical dependency List.mem_cons_self,
          normal.valid dependency List.mem_cons_self, OrderedMap.get?_eq_none_iff.mpr absent]
        rfl
      have later : ∀ other ∈ rest,
          other.identity ∉ (seen.set dependency.identity dependency).keys := by
        intro other member known
        rcases OrderedMap.mem_keys_set.mp known with same | known
        · have less := (List.pairwise_cons.mp normal.ordered).1 other.identity
            (List.mem_map_of_mem member)
          exact less.ne same.symm
        · exact fresh other (List.mem_cons_of_mem _ member) known
      obtain ⟨next, notes, entries⟩ := ih normal.tail later
      refine ⟨next, ?_, ?_⟩
      · rw [List.foldlM_cons, noted]
        exact notes
      · rw [entries, show (seen.set dependency.identity dependency).entries
          = seen.entries ++ [(dependency.identity, dependency)] from
            OrderedMap.setEntries_of_fresh absent dependency, List.append_assoc]
        rfl

theorem normalizeDependencies_eq (normal : Normal dependencies)
    : normalizeDependencies dependencies = some dependencies := by
  have fresh : ∀ dependency ∈ dependencies,
      dependency.identity ∉ (OrderedMap.empty : OrderedMap JsString DynamicDependency).keys :=
    fun _ _ => List.not_mem_nil
  obtain ⟨next, notes, entries⟩ := normal.notes fresh
  have keys : next.keys = dependencies.map identity := by
    rw [OrderedMap.keys, entries, List.map_append, List.map_map]
    rfl
  have sorted : (dependencies.map identity).Pairwise (· ≤ ·) :=
    normal.ordered.imp fun less => less.le
  rw [normalizeDependencies, notes, Option.map_some, keys, sorted.insertionSort_eq,
    List.filterMap_map]
  refine congrArg some ((List.filterMap_congr fun dependency member => ?_).trans
    List.filterMap_some)
  refine OrderedMap.get?_eq_some_iff.mpr ?_
  rw [entries]
  exact List.mem_append_right _ (List.mem_map_of_mem member)

end Normal

-- Sealing again

/-- A normal form is its own, and both of its keys are those of what it was taken of. -/
theorem normalizeDependencies_idempotent
    (result : normalizeDependencies dependencies = some normal) (hash : JsString → JsString)
    (weakKey : JsString)
    : normalizeDependencies normal = some normal
      ∧ processStrongKey hash weakKey normal = processStrongKey hash weakKey dependencies
      ∧ dependencyPathsetKey hash normal = dependencyPathsetKey hash dependencies := by
  have again := (normalizeDependencies_spec result).1.normalizeDependencies_eq
  refine ⟨again, ?_, ?_⟩
  · rw [processStrongKey, processStrongKey, again, result]
  · rw [dependencyPathsetKey, dependencyPathsetKey, again, result]

theorem normalizeDependencies_idempotent_sample
    : processStrongKey id [] [.absence (units "/a") none none, .lock (units "/b") true]
      = processStrongKey id [] [.lock (units "/b") true, .absence (units "/a") none none] := by
  have result
      : normalizeDependencies [.lock (units "/b") true, .absence (units "/a") none none]
        = some [.absence (units "/a") none none, .lock (units "/b") true] := by
    decide +kernel
  exact (normalizeDependencies_idempotent result id []).2.1

end SpeculativeAction.ReuseLookup.DynamicDependency
