import SpeculativeAction.ContentChunks.Reading
import SpeculativeAction.Library.Patching

/-! Delta writing: a file that holds what was before ends with exactly what is after, though
chunks that both share are not written.
-/

namespace SpeculativeAction.ContentChunks

open SpeculativeAction.Library

-- Versions

section Versions

variable {stored : JsString → Bytes} {version : ContentVersion} {content : Bytes}

/-- The bytes a version stands for; one digest stands for one byte sequence. -/
inductive Holds (stored : JsString → Bytes) : ContentVersion → Bytes → Prop
  | bytes (value : Bytes) : Holds stored (.bytes value) value
  | chunked (chunked : ChunkedContent) (content : Bytes) (wellFormed : WellFormed chunked.manifest)
      (describes : Describes stored chunked.manifest content) : Holds stored (.chunked chunked) content

/-- The bytes of a file before it is written to. -/
inductive HoldsBefore (stored : JsString → Bytes) : Option ContentVersion → Bytes → Prop
  | nothing : HoldsBefore stored none []
  | version (version : ContentVersion) (content : Bytes) (holds : Holds stored version content)
      : HoldsBefore stored (some version) content

theorem HoldsBefore.of_some {before : Option ContentVersion} {old : Bytes}
    (holds : HoldsBefore stored before old) {version : ContentVersion}
    (isBefore : before = some version)
    : Holds stored version old := by
  cases holds with
  | nothing => cases isBefore
  | version _ _ holds => exact Option.some.inj isBefore ▸ holds

/-- A pool lets the largest chunk of its content through; bytes in memory need no pool. -/
def ChunksAllowed : ContentVersion → Prop
  | .bytes _ => True
  | .chunked content =>
      min contentChunkBytes content.manifest.size ≤ content.pool.maxReadBytes

theorem Holds.byteLength (holds : Holds stored version content)
    : version.byteLength = content.length := by
  cases holds with
  | bytes value => rfl
  | chunked chunked content wellFormed describes => exact describes.size

/-- Reading the block at an index of the content. -/
theorem Holds.readContent_block (holds : Holds stored version content) {index : ℕ}
    (inside : index * contentChunkBytes < content.length)
    : readContent stored version (index * contentChunkBytes)
          (min contentChunkBytes (content.length - index * contentChunkBytes))
        = .ok (block contentChunkBytes content index)
      ∨ ¬ ChunksAllowed version
        ∧ ∃ message,
            readContent stored version (index * contentChunkBytes)
              (min contentChunkBytes (content.length - index * contentChunkBytes))
            = .error (.thrown message) := by
  have taken
      : (content.drop (index * contentChunkBytes)).take
          (min contentChunkBytes (content.length - index * contentChunkBytes))
        = block contentChunkBytes content index := by
    rw [block, ← List.length_drop, ← List.take_take, List.take_length]
  cases holds with
  | bytes value =>
      rw [readContent, taken]
      exact .inl rfl
  | chunked chunked content wellFormed describes =>
      have small : content.length ≤ Number.maxSafeInteger := describes.size ▸ wellFormed.size
      have bounded
          : (some (Number.finite (Rat.ofInt (Int.ofNat
              (min contentChunkBytes (content.length - index * contentChunkBytes)))))).map
              (·.safeCount?)
            = (some (min contentChunkBytes (content.length - index * contentChunkBytes))).map
              some := by
        rw [Option.map_some, safeCount?_natCast (by omega), Option.map_some]
      have size
          : readSize content
              (some (min contentChunkBytes (content.length - index * contentChunkBytes)))
              (index * contentChunkBytes)
            = min contentChunkBytes (content.length - index * contentChunkBytes) := by
        rw [readSize, Option.getD_some]
        omega
      rw [readContent]
      have start : index * contentChunkBytes ≤ Number.maxSafeInteger :=
        (Nat.le_of_lt inside).trans small
      rcases read_counts chunked.pool describes (safeCount?_natCast start) bounded with
        same | ⟨refused, thrown⟩
      · rw [same, requested, size, taken]
        exact .inl rfl
      · refine .inr ⟨fun allowed => refused ⟨?_, fun other _ => ?_⟩, thrown⟩
        · rw [ChunksAllowed, describes.size] at allowed
          rw [size]
          omega
        · rw [ChunksAllowed, describes.size] at allowed
          rw [length_block]
          omega

end Versions

-- Writing one block

section Blocks

variable {accepts : ℕ → ℕ} {handle : FileHandle} {bytes : Bytes}

/-- A write within the file is a patch. -/
theorem overwrite_content {position : ℕ} (within : position ≤ handle.content.length)
    : (handle.overwrite bytes position).content = patch handle.content bytes position := by
  rw [FileHandle.overwrite, Nat.max_eq_right within, FileHandle.truncate, Nat.sub_self,
    List.replicate_zero, List.append_nil, List.take_length]
  rfl

theorem truncate_content_of_le {length : ℕ} (shorter : length ≤ handle.content.length)
    : (handle.truncate length).content = handle.content.take length := by
  rw [FileHandle.truncate, Nat.sub_eq_zero_of_le shorter, List.replicate_zero, List.append_nil]

/-- However many bytes each write takes, the block is written whole. The induction is over the
rounds that are left, of which there is one for each byte still to be written.
-/
theorem writeBlock_ok (progress : ∀ write, 0 < accepts write) {start : Bytes} {offset : ℕ}
    (within : offset ≤ start.length) {rounds written : ℕ}
    (so_far : handle.content = patch start (bytes.take written) offset)
    (few : written ≤ bytes.length) (enough : bytes.length - written ≤ rounds)
    (inside : offset + bytes.length ≤ start.length)
    : ∃ after,
        writeBlock accepts bytes offset rounds written handle = .ok after
        ∧ after.content = patch start bytes offset := by
  have done {written : ℕ} {handle : FileHandle}
      (so_far : handle.content = patch start (bytes.take written) offset)
      (full : ¬ written < bytes.length)
      : handle.content = patch start bytes offset := by
    rw [so_far, List.take_of_length_le (Nat.le_of_not_lt full)]
  induction rounds generalizing written handle with
  | zero =>
      have full : ¬ written < bytes.length := by omega
      rw [writeBlock, if_neg full]
      exact ⟨handle, rfl, done so_far full⟩
  | succ rounds ih =>
      rw [writeBlock]
      split
      next more =>
        have some_ : 0 < min (accepts handle.writes) (bytes.length - written) := by
          have accepted := progress handle.writes
          omega
        have fits : min (accepts handle.writes) (bytes.length - written) ≤ bytes.length - written :=
          Nat.min_le_right _ _
        dsimp only
        generalize min (accepts handle.writes) (bytes.length - written) = count at some_ fits ⊢
        rw [if_neg (Nat.pos_iff_ne_zero.mp some_)]
        have length : (bytes.take written).length = written := by
          rw [List.length_take, Nat.min_eq_left few]
        have place : offset + written ≤ handle.content.length := by
          rw [so_far, length_patch (by rw [length]; omega)]
          omega
        have joined : bytes.take written ++ (bytes.drop written).take count
            = bytes.take (written + count) := by
          rw [List.take_add]
        refine ih ?_ (by omega) (by omega)
        rw [overwrite_content place, so_far, ← joined, ← patch_patch within, length]
      next full => exact ⟨handle, rfl, done so_far full⟩

/-- A block is written from its first byte on. -/
theorem writeBlock_whole (progress : ∀ write, 0 < accepts write) {offset : ℕ}
    (inside : offset + bytes.length ≤ handle.content.length)
    : ∃ after,
        writeBlock accepts bytes offset bytes.length 0 handle = .ok after
        ∧ after.content = patch handle.content bytes offset := by
  have nothing : handle.content = patch handle.content (bytes.take 0) offset := by
    rw [List.take_zero, patch_nil]
  exact writeBlock_ok progress (by omega) nothing (Nat.zero_le _) (Nat.le_refl _) inside

end Blocks

-- Writing the chunks

section Chunks

variable {stored : JsString → Bytes} {accepts : ℕ → ℕ} {after : ContentVersion}
  {before : Option ContentVersion} {start new : Bytes} {content : Bytes} {index : ℕ}

/-- The file after some chunks: these are new, and the rest is as it was at the start. -/
structure Written (start new : Bytes) (count : ℕ) (content : Bytes) : Prop where
  length : content.length = start.length
  done
    : ∀ place < count * contentChunkBytes, place < new.length → content[place]? = new[place]?
  rest : ∀ place, count * contentChunkBytes ≤ place → content[place]? = start[place]?

/-- The chunk at an index is at the start already. -/
def Present (start new : Bytes) (index : ℕ) : Prop :=
  ∀ place, index * contentChunkBytes ≤ place → place < (index + 1) * contentChunkBytes →
    place < new.length → start[place]? = new[place]?

theorem Written.skip (written : Written start new index content) (present : Present start new index)
    : Written start new (index + 1) content where
  length := written.length
  done := by
    intro place before inside
    by_cases earlier : place < index * contentChunkBytes
    · exact written.done place earlier inside
    · have later := Nat.le_of_not_lt earlier
      rw [written.rest place later]
      exact present place later before inside
  rest := by
    intro place later
    rw [Nat.add_mul, Nat.one_mul] at later
    exact written.rest place (by omega)

theorem Written.patch (written : Written start new index content) (long : new.length ≤ start.length)
    (inside : index * contentChunkBytes < new.length)
    : Written start new (index + 1)
        (patch content (block contentChunkBytes new index) (index * contentChunkBytes)) := by
  have sized := length_block contentChunkBytes new index
  have within : index * contentChunkBytes ≤ content.length := by
    rw [written.length]
    omega
  refine ⟨?_, fun place before inNew => ?_, fun place later => ?_⟩
  · rw [length_patch, written.length]
    rw [written.length]
    omega
  · by_cases earlier : place < index * contentChunkBytes
    · rw [getElem?_patch_before within earlier]
      exact written.done place earlier inNew
    · obtain ⟨count, rfl⟩ := Nat.exists_eq_add_of_le (Nat.le_of_not_lt earlier)
      rw [Nat.add_mul, Nat.one_mul] at before
      rw [getElem?_patch_inside within (by omega), block, List.getElem?_take_of_lt (by omega),
        List.getElem?_drop]
  · rw [Nat.add_mul, Nat.one_mul] at later
    rw [getElem?_patch_behind within (by omega)]
    exact written.rest place (by omega)

/-- A file that held the old bytes and is at least as long as the new ones: what was added is
zeros.
-/
structure Extended (old new start : Bytes) : Prop where
  length : start.length = max old.length new.length
  kept : ∀ place < old.length, start[place]? = old[place]?
  zeros : ∀ place, old.length ≤ place → place < new.length → start[place]? = some 0

/-- A byte of the content is one of the block at its index. -/
theorem getElem?_block {place : ℕ} (from_ : index * contentChunkBytes ≤ place)
    (to_ : place < (index + 1) * contentChunkBytes)
    : content[place]? = (block contentChunkBytes content index)[place - index * contentChunkBytes]?
    := by
  rw [Nat.add_mul, Nat.one_mul] at to_
  rw [block, List.getElem?_take_of_lt (by omega), List.getElem?_drop, Nat.add_sub_cancel' from_]

/-- A chunk of zeros has zeros only. -/
theorem DescribesBlock.getElem?_zero {bytes : Bytes} {place : ℕ}
    (describes : DescribesBlock stored bytes none) (inside : place < bytes.length)
    : bytes[place]? = some 0 := by
  cases describes with
  | zeros same =>
      rw [same, List.getElem?_replicate, if_pos inside]

/-- Chunks with one digest, or without any, stand for the same bytes as far as both reach. -/
theorem DescribesBlock.agree {left right : Bytes} {leftChunk rightChunk : Option ArtifactReference}
    (leftStands : DescribesBlock stored left leftChunk)
    (rightStands : DescribesBlock stored right rightChunk)
    (same : leftChunk.map (·.digest) = rightChunk.map (·.digest)) {place : ℕ}
    (inLeft : place < left.length) (inRight : place < right.length)
    : left[place]? = right[place]? := by
  cases leftStands with
  | zeros zeros =>
      cases rightStands with
      | zeros others =>
          have leftZeros : DescribesBlock stored left none := .zeros zeros
          have rightZeros : DescribesBlock stored right none := .zeros others
          rw [leftZeros.getElem?_zero inLeft, rightZeros.getElem?_zero inRight]
      | stored => cases same
  | stored reference _ leftSame =>
      cases rightStands with
      | zeros => cases same
      | stored other _ rightSame =>
          have digests : reference.digest = other.digest := Option.some.inj same
          rw [← leftSame, ← rightSame, digests]

/-- A chunk that is not written is in the file already. -/
theorem present_of_unchanged {old : Bytes} (afterHolds : Holds stored after new)
    (beforeHolds : HoldsBefore stored before old) (extended : Extended old new start)
    (inside : index * contentChunkBytes < new.length)
    (same : unchanged after before index
      (min contentChunkBytes (new.length - index * contentChunkBytes)) = true)
    : Present start new index := by
  intro place from_ to_ inNew
  cases afterHolds with
  | bytes value => cases same
  | chunked next _ wellFormed describes =>
      obtain ⟨chunk, found, stands⟩ :=
        describes.chunks index ((lt_blockCount_iff contentChunkBytes_pos).mpr inside)
      have inBlock := sub_lt_length_block from_ to_ inNew
      -- a chunk of zeros where the file was extended
      have zeros (beyond : old.length ≤ place)
          (isZeros : next.manifest.chunks[index]? = some none)
          : start[place]? = new[place]? := by
        obtain rfl : chunk = none := Option.some.inj (found.symm.trans isZeros)
        rw [extended.zeros place beyond inNew, getElem?_block from_ to_,
          stands.getElem?_zero inBlock]
      rw [unchanged, ContentVersion.manifest?] at same
      simp only [Bool.or_eq_true, Bool.and_eq_true, decide_eq_true_eq] at same
      rcases same with (shared | ⟨none_, isZeros⟩) | ⟨longer, isZeros⟩
      · obtain ⟨previous, known, agrees⟩ := (Option.any_eq_true _ _).mp shared
        obtain ⟨long, digests⟩ := (Bool.and_eq_true _ _).mp agrees
        have long := of_decide_eq_true long
        have digests := of_decide_eq_true digests
        obtain ⟨version, isBefore, isChunked⟩ := Option.bind_eq_some_iff.mp known
        have holds := beforeHolds.of_some isBefore
        cases holds with
        | bytes value => cases isChunked
        | chunked earlier _ _ earlierDescribes =>
            obtain rfl : earlier.manifest = previous := Option.some.inj isChunked
            rw [earlierDescribes.size] at long
            -- what the file had reaches as far as the block does
            have placeInOld : place < old.length := by
              rw [length_block] at inBlock
              exact Nat.lt_of_lt_of_le ((Nat.sub_lt_iff_lt_add' from_).mp inBlock) long
            have inOld := Nat.lt_of_le_of_lt from_ placeInOld
            obtain ⟨oldChunk, oldFound, oldStands⟩ :=
              earlierDescribes.chunks index ((lt_blockCount_iff contentChunkBytes_pos).mpr inOld)
            rw [ChunkedContentManifest.digestAt, ChunkedContentManifest.digestAt, found, oldFound,
              Option.join_some, Option.join_some] at digests
            rw [extended.kept place placeInOld, getElem?_block from_ to_, getElem?_block from_ to_]
            exact oldStands.agree stands digests.symm (sub_lt_length_block from_ to_ placeInOld)
              inBlock
      · refine zeros ?_ isZeros
        rw [Option.isNone_iff_eq_none] at none_
        subst none_
        cases beforeHolds
        exact Nat.zero_le _
      · obtain ⟨version, isBefore, short⟩ := (Option.any_eq_true _ _).mp longer
        have short := of_decide_eq_true short
        rw [(beforeHolds.of_some isBefore).byteLength] at short
        exact zeros (by omega) isZeros

/-- One chunk is skipped or written, or a limit of the pool refuses it. -/
theorem writeChunk_cases (progress : ∀ write, 0 < accepts write) {old : Bytes}
    (afterHolds : Holds stored after new) (beforeHolds : HoldsBefore stored before old)
    (extended : Extended old new start) (inside : index * contentChunkBytes < new.length)
    {state : FileHandle × Bool} (written : Written start new index state.1.content)
    : (∃ next,
        writeChunk stored accepts after before state index = .ok next
        ∧ Written start new (index + 1) next.1.content)
      ∨ ¬ ChunksAllowed after
        ∧ ∃ message,
            writeChunk stored accepts after before state index = .error (.thrown message) := by
  have long : new.length ≤ start.length := extended.length ▸ Nat.le_max_right _ _
  rw [writeChunk, afterHolds.byteLength]
  split
  next same =>
    have present := present_of_unchanged afterHolds beforeHolds extended inside same
    exact .inl ⟨state, rfl, written.skip present⟩
  next =>
    rcases afterHolds.readContent_block inside with returned | ⟨refused, message, thrown⟩
    · have fits : index * contentChunkBytes + (block contentChunkBytes new index).length
          ≤ state.1.content.length := by
        rw [written.length]
        exact (add_length_block_le inside).trans long
      obtain ⟨handle, finished, content⟩ := writeBlock_whole progress fits
      rw [returned, ok_bind, finished, ok_bind]
      refine .inl ⟨(handle, true), rfl, ?_⟩
      rw [content]
      exact written.patch long inside
    · rw [thrown]
      exact .inr ⟨refused, message, rfl⟩

/-- All chunks up to an index, by induction over it. -/
theorem writeChunks_cases (progress : ∀ write, 0 < accepts write) {old : Bytes}
    (afterHolds : Holds stored after new) (beforeHolds : HoldsBefore stored before old)
    (extended : Extended old new start) (state : FileHandle × Bool)
    (fresh : state.1.content = start) {count : ℕ}
    (within : count ≤ blockCount contentChunkBytes new.length)
    : (∃ next,
        (List.range count).foldlM (writeChunk stored accepts after before) state = .ok next
        ∧ Written start new count next.1.content)
      ∨ ¬ ChunksAllowed after
        ∧ ∃ message,
            (List.range count).foldlM (writeChunk stored accepts after before) state
              = .error (.thrown message) := by
  induction count with
  | zero =>
      refine .inl ⟨state, rfl, ?_⟩
      rw [fresh]
      refine ⟨rfl, fun place before _ => ?_, fun _ _ => rfl⟩
      rw [Nat.zero_mul] at before
      exact absurd before (Nat.not_lt_zero _)
  | succ count ih =>
      have inside := (lt_blockCount_iff contentChunkBytes_pos).mp within
      rw [List.range_succ, List.foldlM_append]
      rcases ih (Nat.le_of_succ_le within) with ⟨next, reached, written⟩ | ⟨refused, message, thrown⟩
      · rw [reached, ok_bind, List.foldlM_cons]
        rcases writeChunk_cases progress afterHolds beforeHolds extended inside written with
          ⟨last, step, done⟩ | ⟨refused, message, thrown⟩
        · rw [step]
          exact .inl ⟨last, rfl, done⟩
        · rw [thrown]
          exact .inr ⟨refused, message, rfl⟩
      · rw [thrown]
        exact .inr ⟨refused, message, rfl⟩

/-- When all chunks are done the file starts with the new bytes. -/
theorem Written.take (long : new.length ≤ start.length)
    (written : Written start new (blockCount contentChunkBytes new.length) content)
    : content.take new.length = new := by
  refine List.ext_getElem? fun place => ?_
  by_cases inside : place < new.length
  · have before : place < blockCount contentChunkBytes new.length * contentChunkBytes := by
      by_contra beyond
      have more := (lt_blockCount_iff contentChunkBytes_pos).mpr
        (Nat.lt_of_le_of_lt (Nat.le_of_not_lt beyond) inside)
      exact Nat.lt_irrefl _ more
    rw [List.getElem?_take_of_lt inside]
    exact written.done place before inside
  · have none_ : (content.take new.length).length ≤ place := by
      rw [List.length_take, written.length]
      omega
    rw [List.getElem?_eq_none none_, List.getElem?_eq_none (Nat.le_of_not_lt inside)]

end Chunks

-- Writing a version

section Whole

variable {stored : JsString → Bytes} {accepts : ℕ → ℕ} {handle : FileHandle}
  {after : ContentVersion} {before : Option ContentVersion} {new : Bytes}

/-- A file that is shorter than what is after is extended first. -/
theorem extended_start {old : Bytes} (beforeHolds : HoldsBefore stored before old)
    (opened : handle.content = old)
    : Extended old new
        (if (before.all fun version => decide (version.byteLength < new.length)) = true then
          handle.truncate new.length
        else handle).content := by
  split
  next grows =>
    have short : old.length ≤ new.length := by
      cases beforeHolds with
      | nothing => exact Nat.zero_le _
      | version version _ holds =>
          have less := of_decide_eq_true grows
          rw [holds.byteLength] at less
          exact Nat.le_of_lt less
    have content : (handle.truncate new.length).content
        = old ++ List.replicate (new.length - old.length) 0 := by
      rw [FileHandle.truncate, opened, List.take_of_length_le short]
    rw [content]
    refine ⟨?_, fun place inside => ?_, fun place beyond inside => ?_⟩
    · rw [List.length_append, List.length_replicate]
      omega
    · rw [List.getElem?_append_left inside]
    · rw [List.getElem?_append_right beyond, List.getElem?_replicate, if_pos (by omega)]
  next long =>
    have fits : new.length ≤ old.length := by
      cases beforeHolds with
      | nothing => exact absurd rfl long
      | version version _ holds =>
          have more := of_decide_eq_false (Bool.eq_false_iff.mpr long)
          rw [holds.byteLength] at more
          exact Nat.le_of_not_lt more
    rw [opened]
    exact ⟨(Nat.max_eq_left fits).symm, fun _ _ => rfl, fun place beyond inside => by omega⟩

/-- Only a file that was longer is cut at the end. -/
theorem length_of_not_shrinks {old : Bytes} (beforeHolds : HoldsBefore stored before old)
    (same : ¬ (before.any fun version => decide (new.length < version.byteLength)) = true)
    : max old.length new.length = new.length := by
  refine Nat.max_eq_right ?_
  cases beforeHolds with
  | nothing => exact Nat.zero_le _
  | version version _ holds =>
      have more := of_decide_eq_false (Bool.eq_false_iff.mpr same)
      rw [holds.byteLength] at more
      exact Nat.le_of_not_lt more

/-- The file ends with exactly the new bytes, or a limit of the pool refuses a chunk. -/
theorem writeContent_cases (progress : ∀ write, 0 < accepts write) {old : Bytes}
    (afterHolds : Holds stored after new) (beforeHolds : HoldsBefore stored before old)
    (opened : handle.content = old)
    : (∃ finished,
        writeContent stored accepts handle after before = .ok finished ∧ finished.content = new)
      ∨ ¬ ChunksAllowed after
        ∧ ∃ message, writeContent stored accepts handle after before = .error (.thrown message) := by
  have extended : Extended old new _ := extended_start beforeHolds opened
  rw [writeContent, afterHolds.byteLength]
  dsimp only
  rcases writeChunks_cases progress afterHolds beforeHolds extended
      (if (before.all fun version => decide (version.byteLength < new.length)) = true then
          handle.truncate new.length
        else handle,
        before.all fun version => decide (version.byteLength < new.length)) rfl
      (Nat.le_refl _) with ⟨⟨finished, flag⟩, reached, written⟩ | ⟨refused, message, thrown⟩
  · have long := extended.length ▸ Nat.le_max_right old.length new.length
    have cut := written.take long
    rw [reached]
    refine .inl ⟨_, rfl, ?_⟩
    dsimp only
    split
    next =>
      rw [truncate_content_of_le (written.length ▸ long)]
      exact cut
    next whole =>
      rw [Bool.or_eq_true, not_or] at whole
      have length : finished.content.length = new.length := by
        rw [written.length, extended.length, length_of_not_shrinks beforeHolds whole.2]
      rw [← length, List.take_length] at cut
      exact cut
  · rw [thrown]
    exact .inr ⟨refused, message, rfl⟩

/-- Delta writing is exact. A file that holds what was before ends with exactly the bytes of what
is after, whatever chunks the two share, if the pool lets the chunks through that are read; and
no write that returns leaves other bytes.
-/
theorem writeContent_exact (progress : ∀ write, 0 < accepts write) {old : Bytes}
    (afterHolds : Holds stored after new) (beforeHolds : HoldsBefore stored before old)
    (opened : handle.content = old)
    : (ChunksAllowed after →
        ∃ finished,
          writeContent stored accepts handle after before = .ok finished ∧ finished.content = new)
      ∧ ∀ finished, writeContent stored accepts handle after before = .ok finished →
          finished.content = new := by
  rcases writeContent_cases progress afterHolds beforeHolds opened with
    written | ⟨refused, message, thrown⟩
  · refine ⟨fun _ => written, fun finished returned => ?_⟩
    obtain ⟨same, reached, content⟩ := written
    rw [reached] at returned
    exact Except.ok.inj returned ▸ content
  · refine ⟨fun allowed => absurd allowed refused, fun finished returned => ?_⟩
    rw [thrown] at returned
    cases returned

/-- Two bytes as a manifest of a pool. -/
def oneTwo (pool : ContentChunkPool) : ContentVersion :=
  .chunked ⟨pool, manifestOf (fun _ => oneTwoDigest) [1, 2]⟩

theorem oneTwo_holds (pool : ContentChunkPool)
    : Holds (fun _ => [1, 2]) (oneTwo pool) [1, 2] :=
  .chunked _ _ (manifestOf_wellFormed (fun _ => oneTwoDigest_sha256) oneTwo_held (by decide))
    (manifestOf_describes oneTwo_held)

theorem oneTwo_allowed_chunks : ChunksAllowed (oneTwo defaultPool) := by
  change min contentChunkBytes 2 ≤ 16 * contentChunkBytes
  decide

/-- Two bytes over a file of three, of which the host takes one at a time. -/
theorem writeContent_exact_oneTwo
    : ∃ finished,
        writeContent (fun _ => [1, 2]) (fun _ => 1) { content := [7, 8, 9] } (oneTwo defaultPool)
          (some (.bytes [7, 8, 9])) = .ok finished
        ∧ finished.content = [1, 2] :=
  (writeContent_exact (fun _ => Nat.one_pos) (oneTwo_holds defaultPool)
    (.version (.bytes [7, 8, 9]) _ (.bytes _)) rfl).1 oneTwo_allowed_chunks

/-- A pool with its read limit at zero. -/
def closedPool : ContentChunkPool :=
  { defaultPool with maxReadBytes := 0, readable := Nat.zero_le _ }

/-- A pool that refuses to read a chunk of what is after makes the write fail. -/
theorem writeContent_refused
    : ¬ ∀ (stored : JsString → Bytes) (accepts : ℕ → ℕ) (handle : FileHandle)
          (after : ContentVersion) (before : Option ContentVersion) (old new : Bytes),
          (∀ write, 0 < accepts write) → Holds stored after new → HoldsBefore stored before old →
          handle.content = old →
          ∃ finished,
            writeContent stored accepts handle after before = .ok finished
            ∧ finished.content = new := by
  intro always
  obtain ⟨finished, returned, -⟩ := always (fun _ => [1, 2]) (fun _ => 1) { content := [] }
    (oneTwo closedPool) none [] [1, 2] (fun _ => Nat.one_pos) (oneTwo_holds closedPool) .nothing rfl
  have size : (oneTwo closedPool).byteLength = 2 := rfl
  have count : List.range (blockCount contentChunkBytes 2) = [0] := by decide
  have changed : unchanged (oneTwo closedPool) none 0 2 = false := by decide
  have sized : min contentChunkBytes (2 - 0 * contentChunkBytes) = 2 := by decide
  have refused
      : readContent (fun _ => [1, 2]) (oneTwo closedPool) (0 * contentChunkBytes) 2
        = .error (.thrown "content read budget exceeded; request a bounded prefix") := by
    decide
  rw [writeContent, size, count, List.foldlM_cons, writeChunk, size, sized, changed, refused]
    at returned
  cases returned

end Whole

end SpeculativeAction.ContentChunks
