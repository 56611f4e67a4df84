import SpeculativeAction.ContentChunks.Model

/-! Which manifests are accepted: exactly the well-formed ones, and each as it is. -/

namespace SpeculativeAction.ContentChunks

open SpeculativeAction.Library

section WellFormed

variable {reference : ArtifactReference} {sizes : OrderedMap JsString ℕ}
  {chunks : List (Option ArtifactReference)}

/-- Every chunk is accounted for, and one digest has one size. -/
structure WellFormed (manifest : ChunkedContentManifest) : Prop where
  size : manifest.size ≤ Number.maxSafeInteger
  digest : isSha256Digest manifest.digest = true
  few : manifest.chunks.length ≤ 65536
  count : manifest.chunks.length = blockCount contentChunkBytes manifest.size
  references
    : ∀ index reference, manifest.chunks[index]? = some (some reference) →
        isSha256Digest reference.digest = true
        ∧ reference.size = chunkSize manifest.size index
  consistent
    : ∀ left right, some left ∈ manifest.chunks → some right ∈ manifest.chunks →
        left.digest = right.digest → left.size = right.size

theorem contentChunkBytes_pos : 0 < contentChunkBytes := by
  decide

theorem chunkSize_le (size index : ℕ) : chunkSize size index ≤ contentChunkBytes :=
  Nat.min_le_left _ _

theorem safeCount?_natCast {count : ℕ} (safe : count ≤ Number.maxSafeInteger)
    : (Number.finite (Rat.ofInt (Int.ofNat count))).safeCount? = some count := by
  have den : (Rat.ofInt (Int.ofNat count)).den = 1 := rfl
  have num : (Rat.ofInt (Int.ofNat count)).num = (count : ℤ) := rfl
  rw [Number.safeCount?, den, num, if_pos ⟨rfl, Int.natCast_nonneg _, by exact_mod_cast safe⟩]
  rfl

/-- A well-formed reference is accepted unless its digest has another size already. -/
theorem validateArtifact_value (digest : isSha256Digest reference.digest = true)
    (safe : reference.size ≤ Number.maxSafeInteger)
    (known : ∀ size, sizes.get? reference.digest = some size → size = reference.size)
    : validateArtifact reference.value sizes
      = .ok (reference, sizes.set reference.digest reference.size) := by
  have accepted : reference.value.digest.filter isSha256Digest = some reference.digest := by
    rw [ArtifactReference.value, Option.filter_some, if_pos digest]
  have counted : reference.value.size.safeCount? = some reference.size := safeCount?_natCast safe
  unfold validateArtifact
  rw [accepted, counted]
  dsimp only
  cases found : sizes.get? reference.digest with
  | none => rfl
  | some size =>
      dsimp only
      rw [if_neg (not_not.mpr (known size found))]

/-- Well-formed chunks are accepted as they are, whatever sizes are known so far. -/
theorem parseChunks_value {size index : ℕ}
    (references
      : ∀ place reference, chunks[place]? = some (some reference) →
          isSha256Digest reference.digest = true
          ∧ reference.size = chunkSize size (index + place))
    (consistent
      : ∀ left right, some left ∈ chunks → some right ∈ chunks →
          left.digest = right.digest → left.size = right.size)
    (known
      : ∀ reference, some reference ∈ chunks →
          ∀ other, sizes.get? reference.digest = some other → other = reference.size)
    : parseChunks size index sizes (chunks.map chunkValue) = .ok chunks := by
  induction chunks generalizing index sizes with
  | nil => rfl
  | cons chunk rest ih =>
      have restReferences
          : ∀ place reference, rest[place]? = some (some reference) →
              isSha256Digest reference.digest = true
              ∧ reference.size = chunkSize size (index + 1 + place) := by
        intro place reference found
        have here := references (place + 1) reference found
        rwa [Nat.add_assoc, Nat.add_comm 1 place]
      have restConsistent
          : ∀ left right, some left ∈ rest → some right ∈ rest →
              left.digest = right.digest → left.size = right.size :=
        fun left right first second =>
          consistent left right (List.mem_cons_of_mem _ first) (List.mem_cons_of_mem _ second)
      cases chunk with
      | none =>
          have tail := ih restReferences restConsistent fun reference member =>
            known reference (List.mem_cons_of_mem _ member)
          rw [List.map_cons, chunkValue, parseChunks, tail]
          rfl
      | some reference =>
          obtain ⟨digest, sized⟩
              : isSha256Digest reference.digest = true
                ∧ reference.size = chunkSize size index := references 0 reference rfl
          have safe : reference.size ≤ Number.maxSafeInteger :=
            sized ▸ (chunkSize_le _ _).trans (by decide)
          have tail : parseChunks size (index + 1) (sizes.set reference.digest reference.size)
              (rest.map chunkValue) = .ok rest := by
            refine ih restReferences restConsistent fun other member size found => ?_
            rw [OrderedMap.get?_set] at found
            split at found
            next same =>
              rw [← Option.some.inj found]
              exact consistent reference other List.mem_cons_self (List.mem_cons_of_mem _ member)
                same.symm
            next => exact known other (List.mem_cons_of_mem _ member) size found
          rw [List.map_cons, chunkValue, parseChunks,
            validateArtifact_value digest safe (known reference List.mem_cons_self)]
          dsimp only [bind, Except.bind]
          rw [if_neg (not_not.mpr sized), tail]
          rfl

/-- A well-formed manifest is accepted as it is. -/
theorem WellFormed.parse {manifest : ChunkedContentManifest} (wellFormed : WellFormed manifest)
    : parseContentManifest (some manifest.value) = .ok manifest := by
  have size : manifest.value.size.safeCount? = some manifest.size :=
    safeCount?_natCast wellFormed.size
  have digest : manifest.value.digest.filter isSha256Digest = some manifest.digest := by
    rw [ChunkedContentManifest.value, Option.filter_some, if_pos wellFormed.digest]
  have chunks : parseChunks manifest.size 0 .empty (manifest.chunks.map chunkValue)
      = .ok manifest.chunks := by
    refine parseChunks_value (fun place reference found => ?_) wellFormed.consistent
      fun reference _ other found => ?_
    · rw [Nat.zero_add]
      exact wellFormed.references place reference found
    · cases found
  unfold parseContentManifest
  dsimp only
  rw [size, digest]
  dsimp only [ChunkedContentManifest.value]
  rw [List.length_map, if_neg, chunks]
  · rfl
  · exact not_or.mpr ⟨Nat.not_lt_of_le wellFormed.few, not_not.mpr wellFormed.count⟩

theorem ok_bind {α β : Type} (value : α) (next : α → Outcome β)
    : (.ok value : Outcome α) >>= next = next value :=
  rfl

theorem bind_ok {α β : Type} {first : Outcome α} {next : α → Outcome β} {result : β}
    (ok : first >>= next = .ok result)
    : ∃ value, first = .ok value ∧ next value = .ok result := by
  cases first with
  | error failure => cases ok
  | ok value => exact ⟨value, rfl, ok⟩

/-- What an accepted reference is. -/
theorem validateArtifact_ok {value : ReferenceValue} {after : OrderedMap JsString ℕ}
    (accepted : validateArtifact value sizes = .ok (reference, after))
    : isSha256Digest reference.digest = true
      ∧ (∀ size, sizes.get? reference.digest = some size → size = reference.size)
      ∧ after = sizes.set reference.digest reference.size := by
  unfold validateArtifact at accepted
  split at accepted
  next digest size isDigest _ =>
    have valid := (Option.filter_eq_some_iff.mp isDigest).2
    split at accepted
    next previousSize found =>
      split at accepted
      next => cases accepted
      next same =>
        obtain ⟨rfl, rfl⟩ := Prod.mk.inj (Except.ok.inj accepted)
        refine ⟨valid, fun other found' => ?_, rfl⟩
        rw [found] at found'
        exact Option.some.inj found' ▸ not_not.mp same
    next fresh =>
      obtain ⟨rfl, rfl⟩ := Prod.mk.inj (Except.ok.inj accepted)
      refine ⟨valid, fun other found => ?_, rfl⟩
      rw [fresh] at found
      cases found
  next => cases accepted

/-- What accepted chunks are, by induction over what is received. -/
theorem parseChunks_ok {size index : ℕ} {values : List ChunkValue}
    (accepted : parseChunks size index sizes values = .ok chunks)
    : chunks.length = values.length
      ∧ (∀ place reference, chunks[place]? = some (some reference) →
          isSha256Digest reference.digest = true
          ∧ reference.size = chunkSize size (index + place))
      ∧ (∀ left right, some left ∈ chunks → some right ∈ chunks →
          left.digest = right.digest → left.size = right.size)
      ∧ ∀ reference, some reference ∈ chunks →
          ∀ other, sizes.get? reference.digest = some other → other = reference.size := by
  induction values generalizing index sizes chunks with
  | nil =>
      obtain rfl := Except.ok.inj accepted
      exact ⟨rfl, fun _ _ found => absurd found (by simp),
        fun _ _ member => absurd member (by simp), fun _ member => absurd member (by simp)⟩
  | cons value rest ih =>
      cases value with
      | null =>
          obtain ⟨tail, parsed, same⟩ := bind_ok accepted
          obtain rfl := Except.ok.inj same
          obtain ⟨length, references, consistent, known⟩ := ih parsed
          refine ⟨congrArg Nat.succ length, fun place reference found => ?_,
            fun left right first second => ?_, fun reference member => ?_⟩
          · cases place with
            | zero => cases found
            | succ place =>
                rw [← Nat.add_assoc, Nat.add_right_comm]
                exact references place reference found
          · exact consistent left right (by simpa using first) (by simpa using second)
          · exact known reference (by simpa using member)
      | missing => cases accepted
      | reference value =>
          obtain ⟨⟨reference, after⟩, validated, accepted⟩ := bind_ok accepted
          obtain ⟨digest, unknown, rfl⟩ := validateArtifact_ok validated
          dsimp only at accepted
          split at accepted
          next => cases accepted
          next sized =>
            obtain ⟨tail, parsed, same⟩ := bind_ok accepted
            obtain rfl := Except.ok.inj same
            obtain ⟨length, references, consistent, known⟩ := ih parsed
            have own (other : ArtifactReference) (member : some other ∈ tail)
                (equal : other.digest = reference.digest)
                : reference.size = other.size := by
              refine known other member reference.size ?_
              rw [OrderedMap.get?_set, if_pos equal]
            refine ⟨congrArg Nat.succ length, fun place other found => ?_,
              fun left right first second equal => ?_, fun other member size found => ?_⟩
            · cases place with
              | zero =>
                  obtain rfl := Option.some.inj (Option.some.inj found)
                  exact ⟨digest, not_not.mp sized⟩
              | succ place =>
                  rw [← Nat.add_assoc, Nat.add_right_comm]
                  exact references place other found
            · rcases List.mem_cons.mp first with here | later
              · obtain rfl := Option.some.inj here
                rcases List.mem_cons.mp second with there | later
                · rw [Option.some.inj there]
                · exact own right later equal.symm
              · rcases List.mem_cons.mp second with there | other
                · obtain rfl := Option.some.inj there
                  exact (own left later equal).symm
                · exact consistent left right later other equal
            · rcases List.mem_cons.mp member with here | member
              · obtain rfl := Option.some.inj here
                exact unknown size found
              · by_cases equal : other.digest = reference.digest
                · rw [equal] at found
                  exact (unknown size found).trans (own other member equal)
                · refine known other member size ?_
                  rw [OrderedMap.get?_set, if_neg equal]
                  exact found

/-- Only well-formed manifests are accepted. -/
theorem wellFormed_of_parse {value : Option ManifestValue} {manifest : ChunkedContentManifest}
    (accepted : parseContentManifest value = .ok manifest)
    : WellFormed manifest := by
  unfold parseContentManifest at accepted
  split at accepted
  next => cases accepted
  next received =>
    split at accepted
    next size digest values counted isDigest _ =>
      split at accepted
      next => cases accepted
      next allowed =>
        obtain ⟨few, count⟩ := not_or.mp allowed
        obtain ⟨chunks, parsed, same⟩ := bind_ok accepted
        obtain rfl := Except.ok.inj same
        obtain ⟨length, references, consistent, -⟩ := parseChunks_ok parsed
        refine ⟨Number.safeCount?_le counted, (Option.filter_eq_some_iff.mp isDigest).2, ?_, ?_,
          fun index reference found => ?_, consistent⟩
        · exact length ▸ Nat.le_of_not_lt few
        · exact length.trans (not_not.mp count)
        · have here := references index reference found
          rwa [Nat.zero_add] at here
    next => cases accepted

/-- Two whole chunks of one digest, a chunk of zeros between them and a short chunk behind. -/
def shortManifest : ChunkedContentManifest :=
  let digest (last : Char) := units "sha256:" ++ List.replicate 64 (unit last)
  let whole : ArtifactReference := { digest := digest 'a', size := contentChunkBytes }
  {
    size := 3 * contentChunkBytes + 5
    digest := digest 'e'
    chunks := [some whole, none, some whole, some { digest := digest 'b', size := 5 }]
  }

theorem wellFormed_of_parse_short : WellFormed shortManifest := by
  have accepted : parseContentManifest (some shortManifest.value) = .ok shortManifest := by
    decide +kernel
  exact wellFormed_of_parse accepted

end WellFormed

end SpeculativeAction.ContentChunks
