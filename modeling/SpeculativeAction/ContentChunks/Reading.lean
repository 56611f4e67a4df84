import SpeculativeAction.ContentChunks.Capturing

/-! What a range read returns: the bytes of the range, or the error of a guard. The loop over the
chunks never goes on without copying a byte.
-/

namespace SpeculativeAction.ContentChunks

open SpeculativeAction.Library

-- What a manifest stands for

section Describes

variable {stored : JsString → Bytes} {manifest : ChunkedContentManifest} {content : Bytes}

/-- What one chunk stands for; under its digest lie its bytes. -/
inductive DescribesBlock (stored : JsString → Bytes) (block : Bytes)
    : Option ArtifactReference → Prop where
  | zeros (same : block = List.replicate block.length 0) : DescribesBlock stored block none
  | stored (reference : ArtifactReference) (size : reference.size = block.length)
      (same : stored reference.digest = block) : DescribesBlock stored block (some reference)

/-- The manifest stands for the content, chunk by chunk. -/
structure Describes (stored : JsString → Bytes) (manifest : ChunkedContentManifest)
    (content : Bytes) : Prop where
  size : manifest.size = content.length
  chunks
    : ∀ index < blockCount contentChunkBytes content.length,
        ∃ chunk, manifest.chunks[index]? = some chunk
          ∧ DescribesBlock stored (block contentChunkBytes content index) chunk

/-- What is captured is what the manifest stands for. -/
theorem manifestOf_describes {digest : Bytes → JsString} (held : Held digest stored content)
    : Describes stored (manifestOf digest content) content where
  size := rfl
  chunks := by
    intro index inside
    refine ⟨_, getElem?_manifestOf_chunks inside, ?_⟩
    have member : block contentChunkBytes content index ∈ blocks contentChunkBytes content :=
      List.mem_map_of_mem (List.mem_range.mpr inside)
    rw [chunkFor]
    split
    next zeros => exact .zeros (of_decide_eq_true zeros)
    next => exact .stored _ rfl (held _ member)

end Describes

-- The loop over the chunks

section Loop

variable {content : Bytes} {offset length : ℕ} {read : ℕ → Outcome Bytes}

/-- A range has bytes in the chunk at an index. -/
def Touches (offset length index : ℕ) : Prop :=
  index * contentChunkBytes < offset + length ∧ offset < (index + 1) * contentChunkBytes

/-- A chunk is returned as it is, or a guard refuses it. -/
def ReturnsOrThrows (returned : Bytes) (outcome : Outcome Bytes) : Prop :=
  outcome = .ok returned ∨ ∃ message, outcome = .error (.thrown message)

/-- The bytes of one round continue the result. -/
theorem take_append_block {position wanted : ℕ}
    : ((block contentChunkBytes content (position / contentChunkBytes)).drop
          (position % contentChunkBytes)).take
        (min wanted ((block contentChunkBytes content (position / contentChunkBytes)).length
          - position % contentChunkBytes))
      = (content.drop position).take
        (min wanted ((block contentChunkBytes content (position / contentChunkBytes)).length
          - position % contentChunkBytes)) := by
  have split_ := Nat.div_add_mod position contentChunkBytes
  rw [Nat.mul_comm] at split_
  have within := Nat.mod_lt position contentChunkBytes_pos
  rw [block, List.drop_take, List.drop_drop, split_, List.take_take]
  congr 1
  rw [List.length_take, List.length_drop]
  omega

/-- The loop returns the range, or it ends with the error of a chunk that the range touches. The
induction is over the rounds that are left, of which there is one for each byte still missing.
-/
theorem readChunkRange_cases (within : offset + length ≤ content.length)
    (returns
      : ∀ index, Touches offset length index →
          ReturnsOrThrows (block contentChunkBytes content index) (read index))
    {rounds : ℕ} {result : Bytes} (copied : result = (content.drop offset).take result.length)
    (few : result.length ≤ length) (enough : length - result.length ≤ rounds)
    : readChunkRange read offset length rounds result = .ok ((content.drop offset).take length)
      ∨ ∃ index message,
          Touches offset length index ∧ read index = .error (.thrown message)
          ∧ readChunkRange read offset length rounds result = .error (.thrown message) := by
  have done {result : Bytes} (copied : result = (content.drop offset).take result.length)
      (few : result.length ≤ length) (full : ¬ result.length < length)
      : result = (content.drop offset).take length := by
    have all : result.length = length := by omega
    rw [copied, all]
  induction rounds generalizing result with
  | zero =>
      rw [readChunkRange, if_neg (by omega)]
      exact .inl (congrArg Except.ok (done copied few (by omega)))
  | succ rounds ih =>
      rw [readChunkRange]
      split
      next more =>
        have split_ := Nat.div_add_mod (offset + result.length) contentChunkBytes
        have inChunk := Nat.mod_lt (offset + result.length) contentChunkBytes_pos
        rw [Nat.mul_comm] at split_
        have touches : Touches offset length ((offset + result.length) / contentChunkBytes) := by
          constructor
          · omega
          · rw [Nat.add_mul, Nat.one_mul]
            omega
        dsimp only
        rcases returns _ touches with returned | ⟨message, refused⟩
        · rw [returned, ok_bind, take_append_block]
          -- the position is in the chunk, so at least one byte is copied
          have position : offset + result.length < content.length := by omega
          have available := mod_lt_length_block contentChunkBytes_pos position
          have progress
              : 0 < min (length - result.length) ((block contentChunkBytes content
                  ((offset + result.length) / contentChunkBytes)).length
                    - (offset + result.length) % contentChunkBytes) :=
            Nat.lt_min.mpr ⟨Nat.sub_pos_of_lt more, Nat.sub_pos_of_lt available⟩
          have fits
              : min (length - result.length) ((block contentChunkBytes content
                  ((offset + result.length) / contentChunkBytes)).length
                    - (offset + result.length) % contentChunkBytes) ≤ length - result.length :=
            Nat.min_le_left _ _
          generalize min (length - result.length) ((block contentChunkBytes content
              ((offset + result.length) / contentChunkBytes)).length
                - (offset + result.length) % contentChunkBytes) = count at progress fits ⊢
          have grown
              : (result ++ (content.drop (offset + result.length)).take count).length
                = result.length + count := by
            rw [List.length_append, List.length_take, List.length_drop]
            omega
          refine ih ?_ ?_ ?_
          · rw [grown, List.take_add, ← copied, List.drop_drop]
          · rw [grown]
            omega
          · rw [grown]
            omega
        · rw [refused]
          exact .inr ⟨_, message, touches, refused, rfl⟩
      next full => exact .inl (congrArg Except.ok (done copied few full))

/-- Reading from the start of the range. -/
theorem readChunkRange_start (within : offset + length ≤ content.length)
    (returns
      : ∀ index, Touches offset length index →
          ReturnsOrThrows (block contentChunkBytes content index) (read index))
    : readChunkRange read offset length length [] = .ok ((content.drop offset).take length)
      ∨ ∃ index message,
          Touches offset length index ∧ read index = .error (.thrown message)
          ∧ readChunkRange read offset length length [] = .error (.thrown message) :=
  readChunkRange_cases within returns rfl (Nat.zero_le _) (Nat.le_refl _)

end Loop

-- Reading from a pool

section Pool

variable {stored : JsString → Bytes} {manifest : ChunkedContentManifest} {content : Bytes}
  {offset : ℕ} (pool : ContentChunkPool)

/-- The block of a pool is the one of the content, or it is beyond the read limit. -/
theorem block_cases (describes : Describes stored manifest content) {index : ℕ}
    (inside : index * contentChunkBytes < content.length)
    : pool.block stored manifest index = .ok (block contentChunkBytes content index)
      ∨ pool.maxReadBytes < (block contentChunkBytes content index).length
        ∧ pool.block stored manifest index
          = .error (.thrown "artifact read budget exceeded") := by
  obtain ⟨chunk, found, stands⟩ :=
    describes.chunks index ((lt_blockCount_iff contentChunkBytes_pos).mpr inside)
  have sized : chunkSize manifest.size index = (block contentChunkBytes content index).length := by
    rw [chunkSize, describes.size, length_block]
  rw [ContentChunkPool.block, found, sized]
  cases stands with
  | zeros same => exact .inl (congrArg Except.ok same.symm)
  | stored reference size same =>
      dsimp only
      rw [ContentChunkPool.readArtifact, size, Nat.zero_add]
      by_cases long : pool.maxReadBytes < (block contentChunkBytes content index).length
      · rw [if_pos (.inr long)]
        exact .inr ⟨long, rfl⟩
      · rw [if_neg (not_or.mpr ⟨Nat.lt_irrefl _, long⟩), same, List.drop_zero, List.take_length]
        exact .inl rfl

/-- The size of what a read returns: without a number of bytes all that is behind the offset. -/
def readSize (content : Bytes) (maxBytes : Option ℕ) (offset : ℕ) : ℕ :=
  min (content.length - offset) (maxBytes.getD content.length)

/-- What a pool lets through: a range within its limit, of chunks within its limit. -/
structure Allowed (pool : ContentChunkPool) (content : Bytes) (maxBytes : Option ℕ) (offset : ℕ)
    : Prop where
  range : readSize content maxBytes offset ≤ pool.maxReadBytes
  chunks
    : ∀ index, Touches offset (readSize content maxBytes offset) index →
        (block contentChunkBytes content index).length ≤ pool.maxReadBytes

/-- The bytes that are asked for. -/
def requested (content : Bytes) (maxBytes : Option ℕ) (offset : ℕ) : Bytes :=
  (content.drop offset).take (readSize content maxBytes offset)

/-- A read with safe counts: the guard, then the loop. -/
theorem read_eq (describes : Describes stored manifest content) {maxBytes : Option Number}
    {at_ : Number} {count : Option ℕ} (counted : at_.safeCount? = some offset)
    (bounded : maxBytes.map (·.safeCount?) = count.map some)
    : pool.read stored manifest maxBytes at_
      = if pool.maxReadBytes < readSize content count offset then
          fail "content read budget exceeded; request a bounded prefix"
        else readChunkRange (pool.block stored manifest) offset (readSize content count offset)
          (readSize content count offset) [] := by
  have size : min (manifest.size - offset) (count.getD manifest.size)
      = readSize content count offset := by
    rw [readSize, describes.size]
  rw [← size, ContentChunkPool.read, counted, bounded]
  cases count with
  | none => rfl
  | some count => rfl

/-- A read with safe counts returns the bytes that are asked for, or a limit of the pool refuses
it.
-/
theorem read_counts (describes : Describes stored manifest content) {maxBytes : Option Number}
    {at_ : Number} {count : Option ℕ} (counted : at_.safeCount? = some offset)
    (bounded : maxBytes.map (·.safeCount?) = count.map some)
    : pool.read stored manifest maxBytes at_ = .ok (requested content count offset)
      ∨ ¬ Allowed pool content count offset
        ∧ ∃ message, pool.read stored manifest maxBytes at_ = .error (.thrown message) := by
  rw [read_eq pool describes counted bounded]
  split
  next long =>
    exact .inr ⟨fun allowed => Nat.not_le_of_lt long allowed.range, _, rfl⟩
  next short =>
    by_cases none_ : readSize content count offset = 0
    · refine .inl ?_
      rw [none_, requested, none_, readChunkRange, List.take_zero]
      rfl
    have within : offset + readSize content count offset ≤ content.length := by
      have fits : readSize content count offset ≤ content.length - offset := Nat.min_le_left _ _
      omega
    have inside {index : ℕ} (touches : Touches offset (readSize content count offset) index)
        : index * contentChunkBytes < content.length :=
      Nat.lt_of_lt_of_le touches.1 within
    have returns (index : ℕ) (touches : Touches offset (readSize content count offset) index)
        : ReturnsOrThrows (block contentChunkBytes content index)
            (pool.block stored manifest index) := by
      rcases block_cases pool describes (inside touches) with same | ⟨-, refused⟩
      · exact .inl same
      · exact .inr ⟨_, refused⟩
    rcases readChunkRange_start within returns with
      same | ⟨index, message, touches, refused, result⟩
    · exact .inl same
    · refine .inr ⟨fun allowed => ?_, message, result⟩
      rcases block_cases pool describes (inside touches) with same | ⟨long, -⟩
      · rw [same] at refused
        cases refused
      · exact Nat.not_le_of_lt long (allowed.chunks index touches)

/-- Whatever is asked for, a read ends: with the bytes, or with the error of a guard. -/
theorem read_ends (describes : Describes stored manifest content) (maxBytes : Option Number)
    (at_ : Number)
    : (∃ offset count,
        at_.safeCount? = some offset
        ∧ maxBytes.map (·.safeCount?) = count.map some
        ∧ pool.read stored manifest maxBytes at_ = .ok (requested content count offset))
      ∨ ∃ message, pool.read stored manifest maxBytes at_ = .error (.thrown message) := by
  cases counted : at_.safeCount? with
  | none =>
      refine .inr ⟨"invalid content read budget", ?_⟩
      rw [ContentChunkPool.read, counted]
      rfl
  | some offset =>
      have bounds
          : maxBytes.map (·.safeCount?) = some none
            ∨ ∃ count : Option ℕ, maxBytes.map (·.safeCount?) = count.map some := by
        cases maxBytes with
        | none => exact .inr ⟨none, rfl⟩
        | some length =>
            cases found : length.safeCount? with
            | none =>
                rw [Option.map_some, found]
                exact .inl rfl
            | some count =>
                rw [Option.map_some, found]
                exact .inr ⟨some count, rfl⟩
      rcases bounds with refused | ⟨count, bounded⟩
      · refine .inr ⟨"invalid content read budget", ?_⟩
        rw [ContentChunkPool.read, counted, refused]
        rfl
      · rcases read_counts pool describes counted bounded with same | ⟨-, thrown⟩
        · exact .inl ⟨offset, count, rfl, bounded, same⟩
        · exact .inr thrown

end Pool

-- From pieces to ranges

section RoundTrip

variable {digest : Bytes → JsString} {stored : JsString → Bytes}

/-- However content comes in, in pieces of any sizes or as bytes or a string in memory, its blocks
are stored; where the store takes them all this gives the one manifest of the content, and a pool
does so exactly if it has room for them. The manifest is accepted, and a read of it that the limits
of the pool allow returns exactly the bytes of the range; any other read ends too, with the bytes
or with an error.
-/
theorem captured_read (sha256 : ∀ bytes, isSha256Digest (digest bytes) = true) {content : Bytes}
    (held : Held digest stored content) (small : content.length ≤ 65536 * contentChunkBytes)
    : (∀ (m : Type → Type) [Monad m] [LawfulMonad m] [MonadExceptOf Failure m]
          (put : Bytes → m ArtifactReference) (pieces : List Bytes) (maxBytes : ℕ),
          pieces.flatten = content → content.length ≤ maxBytes →
          captureContentBlocks digest put pieces content.length maxBytes
            = storeBlocks digest put content)
      ∧ (∀ put : Bytes → Outcome ArtifactReference,
          (∀ block ∈ blocks contentChunkBytes content, isZeros block = false →
            put block = .ok (referenceOf digest block)) →
          storeBlocks digest put content = .ok (manifestOf digest content))
      ∧ parseContentManifest (some (manifestOf digest content).value)
        = .ok (manifestOf digest content)
      ∧ (∀ (pool : ContentChunkPool) (present : HeldBlocks) (value : CaptureInput),
          value.content = content → content.length ≤ pool.maxLogicalBytes →
          Stocked stored pool present →
          ∃ after,
            Stocked stored pool after
            ∧ (captureContent digest pool value).run.run present
              = (if Within pool (present.takeAll digest (blocks contentChunkBytes content)) then
                  .ok (manifestOf digest content)
                else
                  .error noRoom, after))
      ∧ (∀ (pool : ContentChunkPool) (offset length : ℕ), offset ≤ Number.maxSafeInteger →
          length ≤ Number.maxSafeInteger → Allowed pool content (some length) offset →
          readContent stored (.chunked ⟨pool, manifestOf digest content⟩) offset length
            = .ok ((content.drop offset).take (min length (content.length - offset))))
      ∧ ∀ (pool : ContentChunkPool) (maxBytes : Option Number) (offset : Number),
          (∃ start count,
            offset.safeCount? = some start
            ∧ maxBytes.map (·.safeCount?) = count.map some
            ∧ pool.read stored (manifestOf digest content) maxBytes offset
              = .ok (requested content count start))
          ∨ ∃ message,
              pool.read stored (manifestOf digest content) maxBytes offset
                = .error (.thrown message) := by
  have describes : Describes stored (manifestOf digest content) content := manifestOf_describes held
  refine ⟨?_, ?_, (manifestOf_wellFormed sha256 held small).parse, ?_, ?_, ?_⟩
  · intro m _ _ _ put pieces maxBytes whole fits
    exact captureContentBlocks_eq whole fits
  · intro put takes
    exact storeBlocks_ok sha256 held small takes
  · rintro pool present value rfl fits stocked
    rw [CaptureInput.captureContent_eq fits]
    exact storeBlocks_run sha256 held small stocked
  · intro pool offset length safeOffset safeLength allowed
    have bounded
        : (some (Number.finite (Rat.ofInt (Int.ofNat length)))).map (·.safeCount?)
          = (some length).map some := by
      rw [Option.map_some, safeCount?_natCast safeLength, Option.map_some]
    rcases read_counts pool describes (safeCount?_natCast safeOffset) bounded with
      same | ⟨refused, -⟩
    · rw [readContent, same, requested, readSize, Option.getD_some, Nat.min_comm]
    · exact absurd allowed refused
  · intro pool maxBytes offset
    exact read_ends pool describes maxBytes offset

/-- The SHA-256 digest of the bytes 1 and 2. -/
def oneTwoDigest : JsString :=
  units "sha256:a12871fee210fb8619291eaea194581cbd2531e4b23759d225f6806923f63222"

theorem oneTwoDigest_sha256 : isSha256Digest oneTwoDigest = true := by
  decide

/-- The limits that a pool has by default. -/
theorem defaultLimits_bounded : 2 ^ 31 ≤ 65536 * contentChunkBytes := by
  decide

def defaultPool : ContentChunkPool where
  maxLogicalBytes := 2 ^ 31
  maxStoredBytes := 2 ^ 30
  maxOpenChunks := 1024
  maxReadBytes := 16 * contentChunkBytes
  bounded := defaultLimits_bounded
  storable := by decide
  openable := by decide
  readable := by decide

theorem blocks_oneTwo : blocks contentChunkBytes ([1, 2] : Bytes) = [[1, 2]] := by
  decide

theorem oneTwo_held : Held (fun _ => oneTwoDigest) (fun _ => [1, 2]) [1, 2] := by
  intro block member
  rw [blocks_oneTwo, List.mem_singleton] at member
  exact member.symm

theorem oneTwo_allowed : Allowed defaultPool [1, 2] (some 5) 1 where
  range := by decide
  chunks := by
    intro index _
    rw [length_block]
    exact (Nat.min_le_left _ _).trans (by decide)

/-- Two bytes that come in three pieces or in one go to the same store, a new pool has room for
them, and a read goes across their end.
-/
theorem captured_read_oneTwo
    : defaultPool.capture (fun _ => oneTwoDigest) [[1], [], [2]] 2
        = defaultPool.capture (fun _ => oneTwoDigest) [[1, 2]] 2
      ∧ (∃ after,
          (captureContent (fun _ => oneTwoDigest) defaultPool (.bytes [1, 2])).run.run .empty
            = (.ok (manifestOf (fun _ => oneTwoDigest) [1, 2]), after))
      ∧ readContent (fun _ => [1, 2])
          (.chunked ⟨defaultPool, manifestOf (fun _ => oneTwoDigest) [1, 2]⟩) 1 5
        = .ok [2] := by
  obtain ⟨stores, -, -, pools, reads, -⟩ :=
    captured_read (fun _ => oneTwoDigest_sha256) oneTwo_held (by decide)
  have pieces := stores Storing (defaultPool.put fun _ => oneTwoDigest) [[1], [], [2]] (2 ^ 31) rfl
    (by decide)
  have whole := stores Storing (defaultPool.put fun _ => oneTwoDigest) [[1, 2]] (2 ^ 31) rfl
    (by decide)
  obtain ⟨after, -, taken⟩ := pools defaultPool .empty (.bytes [1, 2]) rfl (by decide) .empty
  refine ⟨pieces.trans whole.symm, ⟨after, ?_⟩, ?_⟩
  · rw [taken, blocks_oneTwo, if_pos (by decide)]
  · exact reads defaultPool 1 5 (by decide) (by decide) oneTwo_allowed

/-- A pool that never has room for a block. -/
def fullPool : ContentChunkPool :=
  { defaultPool with maxOpenChunks := 0, openable := Nat.zero_le _ }

/-- A full pool takes nothing, and seventeen chunks of zeros cannot be read at once with the default
limits.
-/
theorem captured_read_refused
    : (¬ ∀ (digest : Bytes → JsString) (stored : JsString → Bytes) (pool : ContentChunkPool)
          (content : Bytes),
          (∀ bytes, isSha256Digest (digest bytes) = true) → Held digest stored content →
          content.length ≤ pool.maxLogicalBytes →
          ((captureContent digest pool (.bytes content)).run.run .empty).1
            = .ok (manifestOf digest content))
      ∧ ¬ ∀ (digest : Bytes → JsString) (stored : JsString → Bytes) (pool : ContentChunkPool)
          (content : Bytes) (offset length : ℕ),
          (∀ bytes, isSha256Digest (digest bytes) = true) → Held digest stored content →
          content.length ≤ pool.maxLogicalBytes → offset ≤ Number.maxSafeInteger →
          length ≤ Number.maxSafeInteger →
          readContent stored (.chunked ⟨pool, manifestOf digest content⟩) offset length
            = .ok ((content.drop offset).take (min length (content.length - offset))) := by
  refine ⟨?_, ?_⟩
  · intro always
    have taken := always (fun _ => oneTwoDigest) (fun _ => [1, 2]) fullPool [1, 2]
      (fun _ => oneTwoDigest_sha256) oneTwo_held (by decide)
    have empty : Stocked (fun _ => [1, 2]) fullPool .empty := .empty
    have stores
        : captureContent (fun _ => oneTwoDigest) fullPool (.bytes [1, 2])
          = storeBlocks (fun _ => oneTwoDigest) (fullPool.put fun _ => oneTwoDigest) [1, 2] :=
      CaptureInput.captureContent_eq (by decide)
    obtain ⟨after, -, refused⟩ :=
      storeBlocks_run (fun _ => oneTwoDigest_sha256) oneTwo_held (by decide) empty
    rw [blocks_oneTwo, if_neg (by decide)] at refused
    rw [stores, refused] at taken
    cases taken
  · intro always
    have zeros (index : ℕ)
        : block contentChunkBytes (List.replicate (17 * contentChunkBytes) (0 : UInt8)) index
          = List.replicate
              (min contentChunkBytes (17 * contentChunkBytes - index * contentChunkBytes)) 0 := by
      rw [block, List.drop_replicate, List.take_replicate]
    have held
        : Held (fun _ => oneTwoDigest) (fun _ => List.replicate contentChunkBytes 0)
            (List.replicate (17 * contentChunkBytes) (0 : UInt8)) := by
      intro bytes member
      obtain ⟨index, inside, rfl⟩ := List.mem_map.mp member
      rw [List.mem_range, lt_blockCount_iff contentChunkBytes_pos, List.length_replicate] at inside
      have full
          : contentChunkBytes ≤ 17 * contentChunkBytes - index * contentChunkBytes := by
        have below : index < 17 := Nat.lt_of_mul_lt_mul_right inside
        have bound := Nat.mul_le_mul_right contentChunkBytes (Nat.succ_le_of_lt below)
        rw [Nat.succ_mul] at bound
        omega
      rw [zeros, Nat.min_eq_left full]
    have returned := always (fun _ => oneTwoDigest) (fun _ => List.replicate contentChunkBytes 0)
      defaultPool (List.replicate (17 * contentChunkBytes) 0) 0 (17 * contentChunkBytes)
      (fun _ => oneTwoDigest_sha256) held (by rw [List.length_replicate]; decide) (by decide)
      (by decide)
    have bounded
        : (some (Number.finite (Rat.ofInt (Int.ofNat (17 * contentChunkBytes))))).map (·.safeCount?)
          = (some (17 * contentChunkBytes)).map some := by
      rw [Option.map_some, safeCount?_natCast (by decide), Option.map_some]
    have refused := read_eq defaultPool (manifestOf_describes held)
      (safeCount?_natCast (Nat.zero_le _)) bounded
    rw [if_pos (by rw [readSize, List.length_replicate]; decide)] at refused
    rw [readContent, refused] at returned
    cases returned

end RoundTrip

end SpeculativeAction.ContentChunks
