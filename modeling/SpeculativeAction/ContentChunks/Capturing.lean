import SpeculativeAction.ContentChunks.Manifest

/-! What capturing some bytes does does not depend on the pieces they came in: after any pieces
the full blocks of what was received were put, and the buffer holds the rest. A pool takes the
blocks exactly if it stays within its budgets with all of them.
-/

namespace SpeculativeAction.ContentChunks

open SpeculativeAction.Library

-- Pieces of any sizes

section Pieces

variable {m : Type → Type} [Monad m] {put : Bytes → m ArtifactReference} {content : Bytes}

/-- What the capture of some bytes has done so far: their full blocks were put, in order, and the
buffer holds the rest.
-/
def cutAt (put : Bytes → m ArtifactReference) (content : Bytes) (size : ℕ) (received : Bytes)
    : m Capture := do
  let chunks ← (fullBlocks contentChunkBytes content).mapM (chunkOf put)
  return { chunks, buffer := blockRest contentChunkBytes content, size, received }

/-- What capturing content comes to: each of its blocks that is not all zeros is put, in order. -/
def storeBlocks [MonadExceptOf Failure m] (digest : Bytes → JsString)
    (put : Bytes → m ArtifactReference) (content : Bytes)
    : m ChunkedContentManifest := do
  let chunks ← (blocks contentChunkBytes content).mapM (chunkOf put)
  let manifest : ChunkedContentManifest :=
    { size := content.length, digest := digest content, chunks }
  MonadExcept.ofExcept (parseContentManifest (some manifest.value))

theorem length_blockRest_lt (content : Bytes)
    : (blockRest contentChunkBytes content).length < contentChunkBytes := by
  rw [length_blockRest]
  exact Nat.mod_lt _ contentChunkBytes_pos

section Lawful

variable [LawfulMonad m] {size : ℕ} {received : Bytes}

/-- One round of copying: the buffer grows, and is flushed once it is full. -/
theorem cutAt_grow {more : Bytes}
    (fits : (blockRest contentChunkBytes content).length + more.length ≤ contentChunkBytes)
    : cutAt put content size received >>= (Capture.grow put · more)
      = cutAt put (content ++ more) size received := by
  by_cases complete
      : (blockRest contentChunkBytes content).length + more.length = contentChunkBytes
  · obtain ⟨full, rest⟩ := fullBlocks_append_of_eq contentChunkBytes_pos complete
    simp [cutAt, Capture.grow, Capture.flush, full, rest, complete]
  · obtain ⟨full, rest⟩ := fullBlocks_append_of_lt (Nat.lt_of_le_of_ne fits complete)
    simp [cutAt, Capture.grow, full, rest, complete]

/-- What follows a capture sees the chunks, the rest of the bytes and what was counted. -/
theorem cutAt_bind_congr {α : Type} {next other : Capture → m α}
    (same
      : ∀ chunks,
          next ⟨chunks, blockRest contentChunkBytes content, size, received⟩
            = other ⟨chunks, blockRest contentChunkBytes content, size, received⟩)
    : cutAt put content size received >>= next = cutAt put content size received >>= other := by
  simp [cutAt, same]

/-- Copying a piece, by induction over the rounds. -/
theorem cutAt_fill {rounds : ℕ} {rest : Bytes} (enough : rest.length ≤ rounds)
    : cutAt put content size received >>= Capture.fill put rounds rest
      = cutAt put (content ++ rest) size received := by
  induction rounds generalizing content rest with
  | zero =>
      obtain rfl := List.length_eq_zero_iff.mp (Nat.le_zero.mp enough)
      simp [Capture.fill]
  | succ rounds ih =>
      by_cases none_ : rest = []
      · simp [Capture.fill, none_]
      have room := length_blockRest_lt content
      have copied : 0 < rest.length := List.length_pos_iff.mpr none_
      let count := min rest.length
        (contentChunkBytes - (blockRest contentChunkBytes content).length)
      have taken : (rest.take count).length = count := by
        rw [List.length_take, Nat.min_eq_left (Nat.min_le_left _ _)]
      calc
        cutAt put content size received >>= Capture.fill put (rounds + 1) rest
        _ = cutAt put content size received >>= fun capture =>
              capture.grow put (rest.take count) >>= Capture.fill put rounds (rest.drop count) :=
          cutAt_bind_congr fun chunks => by rw [Capture.fill, if_neg none_]
        _ = cutAt put (content ++ rest.take count) size received
              >>= Capture.fill put rounds (rest.drop count) := by
          rw [← bind_assoc, cutAt_grow (by omega)]
        _ = cutAt put (content ++ rest) size received := by
          rw [ih (by rw [List.length_drop]; omega), List.append_assoc, List.take_append_drop]

/-- The bytes received so far are cut and counted. -/
abbrev captured (put : Bytes → m ArtifactReference) (content : Bytes) : m Capture :=
  cutAt put content content.length content

/-- Nothing has been captured at the start. -/
theorem captured_nil : captured put [] = pure {} := by
  simp [cutAt, fullBlocks, blockRest]

/-- With the rest the chunks are the blocks. -/
theorem captured_finish (put : Bytes → m ArtifactReference) (content : Bytes)
    : captured put content >>= Capture.finish put
      = do
        let chunks ← (blocks contentChunkBytes content).mapM (chunkOf put)
        return ⟨chunks, [], content.length, content⟩ := by
  rw [blocks_eq contentChunkBytes_pos]
  by_cases none_ : blockRest contentChunkBytes content = []
  · simp [cutAt, Capture.finish, none_]
  · simp [cutAt, Capture.finish, Capture.flush, none_]

variable [MonadExceptOf Failure m] {maxBytes : ℕ}

/-- Taking in a piece within the limit. -/
theorem captured_sink {chunk : Bytes} (fits : (content ++ chunk).length ≤ maxBytes)
    : captured put content >>= (Capture.sink put maxBytes · chunk)
      = captured put (content ++ chunk) := by
  rw [List.length_append] at fits
  calc
    captured put content >>= (Capture.sink put maxBytes · chunk)
    _ = cutAt put content (content ++ chunk).length (content ++ chunk)
          >>= Capture.fill put chunk.length chunk := by
      simp [cutAt, Capture.sink, Nat.not_lt_of_le fits]
    _ = captured put (content ++ chunk) := cutAt_fill (Nat.le_refl _)

/-- Taking in all pieces, by induction over them. -/
theorem captured_foldlM (pieces : List Bytes) (fits : (content ++ pieces.flatten).length ≤ maxBytes)
    : captured put content >>= pieces.foldlM (Capture.sink put maxBytes)
      = captured put (content ++ pieces.flatten) := by
  induction pieces generalizing content with
  | nil => simp
  | cons chunk rest ih =>
      rw [List.flatten_cons, ← List.append_assoc] at fits ⊢
      have first : (content ++ chunk).length ≤ maxBytes := by
        rw [List.length_append] at fits
        omega
      rw [← ih fits, ← captured_sink first, bind_assoc]
      rfl

/-- Whatever pieces content comes in, its blocks are stored. -/
theorem captureContentBlocks_eq {digest : Bytes → JsString} {pieces : List Bytes}
    (whole : pieces.flatten = content) (fits : content.length ≤ maxBytes)
    : captureContentBlocks digest put pieces content.length maxBytes
      = storeBlocks digest put content := by
  have within : ([] ++ pieces.flatten).length ≤ maxBytes := by rwa [List.nil_append, whole]
  have read : pieces.foldlM (Capture.sink put maxBytes) {} = captured put content := by
    rw [← pure_bind _ (pieces.foldlM (Capture.sink put maxBytes)), ← captured_nil,
      captured_foldlM pieces within, List.nil_append, whole]
  rw [captureContentBlocks, read, ← bind_assoc, captured_finish]
  simp [storeBlocks]

end Lawful

end Pieces

-- The manifest of some bytes

section Content

variable {digest : Bytes → JsString} {stored : JsString → Bytes} {content : Bytes}
  {reference : ArtifactReference} {put : Bytes → Outcome ArtifactReference}

/-- The chunk of a block that is stored under its digest. -/
def chunkFor (digest : Bytes → JsString) (bytes : Bytes) : Option ArtifactReference :=
  if isZeros bytes then none else some (referenceOf digest bytes)

/-- The manifest of bytes, however they came in. -/
def manifestOf (digest : Bytes → JsString) (content : Bytes) : ChunkedContentManifest where
  size := content.length
  digest := digest content
  chunks := (blocks contentChunkBytes content).map (chunkFor digest)

/-- Under the digest of each block of the content lie the bytes of the block. -/
def Held (digest : Bytes → JsString) (stored : JsString → Bytes) (content : Bytes) : Prop :=
  ∀ block ∈ blocks contentChunkBytes content, stored (digest block) = block

/-- What the chunk of a block refers to. -/
theorem chunkFor_eq_some {block : Bytes} (found : chunkFor digest block = some reference)
    : reference = referenceOf digest block := by
  rw [chunkFor] at found
  split at found
  next => cases found
  next => exact (Option.some.inj found).symm

theorem getElem?_manifestOf_chunks {index : ℕ}
    (inside : index < blockCount contentChunkBytes content.length)
    : (manifestOf digest content).chunks[index]?
      = some (chunkFor digest (block contentChunkBytes content index)) := by
  rw [manifestOf, List.getElem?_map, getElem?_blocks inside, Option.map_some]

theorem length_manifestOf_chunks (digest : Bytes → JsString)
    : (manifestOf digest content).chunks.length = blockCount contentChunkBytes content.length := by
  rw [manifestOf, List.length_map, length_blocks]

/-- A reference of the manifest is the one of a block. -/
theorem mem_manifestOf_chunks (member : some reference ∈ (manifestOf digest content).chunks)
    : ∃ block ∈ blocks contentChunkBytes content, reference = referenceOf digest block := by
  obtain ⟨block, inside, found⟩ := List.mem_map.mp member
  exact ⟨block, inside, chunkFor_eq_some found⟩

/-- The manifest of held content is well-formed. Two blocks with one digest are the same bytes,
so they have one size.
-/
theorem manifestOf_wellFormed (sha256 : ∀ bytes, isSha256Digest (digest bytes) = true)
    (held : Held digest stored content) (small : content.length ≤ 65536 * contentChunkBytes)
    : WellFormed (manifestOf digest content) where
  size := small.trans (by decide)
  digest := sha256 content
  few := by
    rw [length_manifestOf_chunks digest]
    exact blockCount_le contentChunkBytes_pos small
  count := length_manifestOf_chunks digest
  references := by
    intro index reference found
    have inside : index < blockCount contentChunkBytes content.length := by
      rw [← length_manifestOf_chunks digest]
      exact (List.getElem?_eq_some_iff.mp found).1
    rw [getElem?_manifestOf_chunks inside] at found
    obtain rfl := chunkFor_eq_some (Option.some.inj found)
    exact ⟨sha256 _, length_block _ _ _⟩
  consistent := by
    intro left right leftMember rightMember equal
    obtain ⟨leftBlock, leftInside, rfl⟩ := mem_manifestOf_chunks leftMember
    obtain ⟨rightBlock, rightInside, rfl⟩ := mem_manifestOf_chunks rightMember
    have same : leftBlock = rightBlock := by
      rw [← held leftBlock leftInside, ← held rightBlock rightInside]
      exact congrArg stored equal
    rw [same]

/-- Blocks that are all taken have the chunks of the manifest. -/
theorem mapM_chunkOf_ok {items : List Bytes}
    (takes
      : ∀ block ∈ items, isZeros block = false → put block = .ok (referenceOf digest block))
    : items.mapM (chunkOf put) = .ok (items.map (chunkFor digest)) := by
  induction items with
  | nil => rfl
  | cons block rest ih =>
      have chunk : chunkOf put block = .ok (chunkFor digest block) := by
        rw [chunkOf, chunkFor]
        cases zeros : isZeros block with
        | true => rfl
        | false => rw [takes block List.mem_cons_self zeros]; rfl
      rw [List.mapM_cons, chunk, ih fun block listed => takes block (List.mem_cons_of_mem _ listed)]
      rfl

/-- A store that takes every block leads to the manifest. -/
theorem storeBlocks_ok (sha256 : ∀ bytes, isSha256Digest (digest bytes) = true)
    (held : Held digest stored content) (small : content.length ≤ 65536 * contentChunkBytes)
    (takes
      : ∀ block ∈ blocks contentChunkBytes content, isZeros block = false →
          put block = .ok (referenceOf digest block))
    : storeBlocks digest put content = .ok (manifestOf digest content) := by
  rw [storeBlocks, mapM_chunkOf_ok takes]
  exact congrArg MonadExcept.ofExcept (manifestOf_wellFormed sha256 held small).parse

end Content

-- The budgets of a pool

section Budgets

variable {digest : Bytes → JsString} {stored : JsString → Bytes} {pool : ContentChunkPool}
  {held : HeldBlocks}

/-- Blocks within the budgets of their pool. -/
def Within (pool : ContentChunkPool) (held : HeldBlocks) : Prop :=
  held.values.sum ≤ pool.maxStoredBytes ∧ held.values.length ≤ pool.maxOpenChunks

instance : Decidable (Within pool held) := inferInstanceAs (Decidable (_ ∧ _))

/-- Under each digest that is held lie as many bytes as it is held for. -/
def Backed (stored : JsString → Bytes) (held : HeldBlocks) : Prop :=
  held.Forall fun digest size => (stored digest).length = size

/-- What holds of the blocks of a pool at any time. -/
structure Stocked (stored : JsString → Bytes) (pool : ContentChunkPool) (held : HeldBlocks)
    : Prop where
  backed : Backed stored held
  within : Within pool held

theorem Stocked.empty : Stocked stored pool .empty where
  backed := OrderedMap.Forall.empty
  within := ⟨Nat.zero_le _, Nat.zero_le _⟩

/-- The error of a pool without room for a block. -/
def noRoom : Failure := .thrown "artifact stored-byte or descriptor budget exceeded"

@[simp] theorem run_get_bind {α : Type} (next : HeldBlocks → Storing α)
    : (get >>= next : Storing α).run.run held = (next held).run.run held := rfl

@[simp] theorem ofExcept_ok_bind {α β : Type} (value : α) (next : α → Storing β)
    : (MonadExcept.ofExcept (.ok value : Outcome α) >>= next : Storing β) = next value := rfl

theorem run_bind_of_ok {α β : Type} {action : Storing α} {next : α → Storing β} {value : α}
    {after : HeldBlocks} (ran : action.run.run held = (.ok value, after))
    : (action >>= next).run.run held = (next value).run.run after := by
  rw [ExceptT.run_bind, StateT.run_bind, ran]
  rfl

theorem run_bind_of_error {α β : Type} {action : Storing α} {next : α → Storing β}
    {failure : Failure} {after : HeldBlocks} (ran : action.run.run held = (.error failure, after))
    : (action >>= next).run.run held = (.error failure, after) := by
  rw [ExceptT.run_bind, StateT.run_bind, ran]
  rfl

/-- A pool takes a block exactly if it stays within its budgets. -/
theorem add_run (reference : ArtifactReference) (sha256 : isSha256Digest reference.digest = true)
    (safe : reference.size ≤ Number.maxSafeInteger) (within : Within pool held)
    (known : ∀ size, held.get? reference.digest = some size → size = reference.size)
    : (pool.add reference).run.run held
      = if Within pool (held.set reference.digest reference.size) then
          (.ok (), held.set reference.digest reference.size)
        else
          (.error noRoom, held) := by
  have valid
      : validateArtifact reference.value .empty
        = .ok (reference, OrderedMap.empty.set reference.digest reference.size) :=
    validateArtifact_value sha256 safe (by simp)
  cases found : held.get? reference.digest with
  | some size =>
      obtain rfl := known size found
      rw [OrderedMap.set_of_get? found, if_pos within]
      simp only [ContentChunkPool.add, valid, ofExcept_ok_bind, run_get_bind, found, ne_eq,
        not_true_eq_false, if_false]
      rfl
  | none =>
      have room
          : (pool.maxStoredBytes < held.values.sum + reference.size
              ∨ pool.maxOpenChunks ≤ held.values.length)
            ↔ ¬ Within pool (held.set reference.digest reference.size) := by
        rw [Within, OrderedMap.values_set_of_fresh found, List.sum_append, List.length_append]
        simp only [List.sum_singleton, List.length_singleton]
        omega
      simp only [ContentChunkPool.add, valid, ofExcept_ok_bind, run_get_bind, found, room]
      by_cases within : Within pool (held.set reference.digest reference.size)
      · rw [if_neg (not_not.mpr within), if_pos within]
        rfl
      · rw [if_pos within, if_neg within]
        rfl

/-- What is held after some blocks were taken; zeros are not stored. -/
def HeldBlocks.takeAll (digest : Bytes → JsString) (held : HeldBlocks) (items : List Bytes)
    : HeldBlocks :=
  (items.filter fun block => !isZeros block).foldl
    (fun held block => held.set (digest block) block.length) held

theorem HeldBlocks.takeAll_cons (block : Bytes) (rest : List Bytes)
    : held.takeAll digest (block :: rest)
      = if isZeros block then held.takeAll digest rest
        else HeldBlocks.takeAll digest (held.set (digest block) block.length) rest := by
  cases zeros : isZeros block with
  | true => simp [takeAll, zeros]
  | false => simp [takeAll, zeros]

/-- A block only adds to what is held. -/
theorem Within.of_set (backed : Backed stored held) {block : Bytes}
    (same : stored (digest block) = block)
    (within : Within pool (held.set (digest block) block.length))
    : Within pool held := by
  cases found : held.get? (digest block) with
  | some size =>
      obtain rfl : block.length = size := same ▸ backed _ _ found
      rwa [OrderedMap.set_of_get? found] at within
  | none =>
      rw [Within, OrderedMap.values_set_of_fresh found, List.sum_append, List.length_append]
        at within
      exact ⟨by omega, by omega⟩

theorem Within.of_takeAll {items : List Bytes} (backed : Backed stored held)
    (same : ∀ block ∈ items, stored (digest block) = block)
    (within : Within pool (held.takeAll digest items))
    : Within pool held := by
  induction items generalizing held with
  | nil => exact within
  | cons block rest ih =>
      have later (other : Bytes) (listed : other ∈ rest) : stored (digest other) = other :=
        same other (List.mem_cons_of_mem _ listed)
      have here := same block List.mem_cons_self
      rw [HeldBlocks.takeAll_cons] at within
      split at within
      · exact ih backed later within
      · exact (ih (backed.set (by rw [here])) later within).of_set backed here

/-- One block: zeros are not stored, and other bytes as far as the budgets go. -/
theorem chunkOf_run {block : Bytes} (sha256 : ∀ bytes, isSha256Digest (digest bytes) = true)
    (safe : block.length ≤ Number.maxSafeInteger) (stocked : Stocked stored pool held)
    (same : stored (digest block) = block)
    : (Within pool (held.takeAll digest [block])
        ∧ (chunkOf (pool.put digest) block).run.run held
          = (.ok (chunkFor digest block), held.takeAll digest [block]))
      ∨ (¬ Within pool (held.takeAll digest [block])
        ∧ (chunkOf (pool.put digest) block).run.run held = (.error noRoom, held)) := by
  have added := add_run (referenceOf digest block) (sha256 block) safe stocked.within
    fun size found => by rw [← stocked.backed _ _ found, referenceOf, same]
  rw [HeldBlocks.takeAll_cons, chunkOf, chunkFor]
  cases zeros : isZeros block with
  | true => exact .inl ⟨stocked.within, rfl⟩
  | false =>
      by_cases room : Within pool (held.set (digest block) block.length)
      · refine .inl ⟨room, ?_⟩
        rw [if_neg Bool.false_ne_true, map_eq_pure_bind, ContentChunkPool.put, bind_assoc,
          run_bind_of_ok (added.trans (if_pos room))]
        rfl
      · refine .inr ⟨room, ?_⟩
        rw [if_neg Bool.false_ne_true, map_eq_pure_bind, ContentChunkPool.put, bind_assoc,
          run_bind_of_error (added.trans (if_neg room))]

/-- A pool takes all blocks exactly if it stays within its budgets with all of them; by induction
over the blocks.
-/
theorem mapM_chunkOf_run {items : List Bytes}
    (sha256 : ∀ bytes, isSha256Digest (digest bytes) = true)
    (safe : ∀ block ∈ items, block.length ≤ Number.maxSafeInteger)
    (stocked : Stocked stored pool held) (same : ∀ block ∈ items, stored (digest block) = block)
    : ∃ after,
        Stocked stored pool after
        ∧ (items.mapM (chunkOf (pool.put digest))).run.run held
          = (if Within pool (held.takeAll digest items) then .ok (items.map (chunkFor digest))
            else .error noRoom, after) := by
  induction items generalizing held with
  | nil =>
      refine ⟨held, stocked, ?_⟩
      rw [HeldBlocks.takeAll, List.filter_nil, List.foldl_nil, if_pos stocked.within]
      rfl
  | cons block rest ih =>
      have laterSafe (other : Bytes) (listed : other ∈ rest) :=
        safe other (List.mem_cons_of_mem _ listed)
      have laterSame (other : Bytes) (listed : other ∈ rest) :=
        same other (List.mem_cons_of_mem _ listed)
      have here := same block List.mem_cons_self
      have oneFirst
          : held.takeAll digest (block :: rest)
            = (held.takeAll digest [block]).takeAll digest rest := by
        rw [HeldBlocks.takeAll_cons, HeldBlocks.takeAll_cons]
        split <;> rfl
      have backed : Backed stored (held.takeAll digest [block]) := by
        rw [HeldBlocks.takeAll_cons]
        split
        · exact stocked.backed
        · exact stocked.backed.set (by rw [here])
      rw [oneFirst, List.mapM_cons]
      rcases chunkOf_run sha256 (safe block List.mem_cons_self) stocked here with
        ⟨room, ran⟩ | ⟨full, ran⟩
      · obtain ⟨after, stockedAfter, ranRest⟩ := ih laterSafe ⟨backed, room⟩ laterSame
        refine ⟨after, stockedAfter, ?_⟩
        rw [run_bind_of_ok ran]
        split at ranRest
        next all => rw [run_bind_of_ok ranRest, if_pos all]; rfl
        next full => rw [run_bind_of_error ranRest, if_neg full]
      · refine ⟨held, stocked, ?_⟩
        rw [run_bind_of_error ran, if_neg fun room => full (room.of_takeAll backed laterSame)]

/-- A pool gives the manifest of content exactly if it has room for its blocks. -/
theorem storeBlocks_run {content : Bytes} (sha256 : ∀ bytes, isSha256Digest (digest bytes) = true)
    (lies : Held digest stored content) (small : content.length ≤ 65536 * contentChunkBytes)
    (stocked : Stocked stored pool held)
    : ∃ after,
        Stocked stored pool after
        ∧ (storeBlocks digest (pool.put digest) content).run.run held
          = (if Within pool (held.takeAll digest (blocks contentChunkBytes content)) then
              .ok (manifestOf digest content)
            else
              .error noRoom, after) := by
  have safe : ∀ block ∈ blocks contentChunkBytes content, block.length ≤ Number.maxSafeInteger := by
    intro bytes listed
    obtain ⟨index, -, rfl⟩ := List.mem_map.mp listed
    rw [length_block]
    exact (Nat.min_le_left _ _).trans (by decide)
  obtain ⟨after, stockedAfter, ran⟩ := mapM_chunkOf_run sha256 safe stocked lies
  refine ⟨after, stockedAfter, ?_⟩
  rw [storeBlocks]
  split at ran
  next room =>
    rw [run_bind_of_ok ran, if_pos room]
    have parsed := (manifestOf_wellFormed sha256 lies small).parse
    exact congrArg
      (fun parsed : Outcome _ => (MonadExcept.ofExcept parsed : Storing _).run.run after) parsed
  next full => rw [run_bind_of_error ran, if_neg full]

end Budgets

-- Capturing what is in memory

namespace CaptureInput

variable {value : CaptureInput} {offset : ℕ}

/-- The bytes that are meant: a string stands for its encoding. -/
def content : CaptureInput → Bytes
  | .bytes value => value
  | .text units => utf8 units

/-- The bytes behind an offset. -/
def rest (value : CaptureInput) (offset : ℕ) : Bytes :=
  match value with
  | .bytes content => content.drop offset
  | .text units => utf8 (units.drop offset)

theorem rest_zero : value.rest 0 = value.content := by
  cases value with
  | bytes content => rfl
  | text units => rfl

theorem rest_of_le (done : value.size ≤ offset) : value.rest offset = [] := by
  cases value with
  | bytes content => exact List.drop_eq_nil_of_le done
  | text units =>
      have none_ : units.drop offset = [] := List.drop_eq_nil_of_le done
      rw [rest, none_, utf8]

/-- A piece has at least one unit and ends within the input. -/
theorem pieceEnd_bounds (inside : offset < value.size)
    : offset < value.pieceEnd offset ∧ value.pieceEnd offset ≤ value.size := by
  have wide : 2 ≤ contentChunkBytes := by decide
  cases value with
  | bytes content =>
      change offset < min _ _ ∧ min _ _ ≤ _
      omega
  | text units =>
      have sized : (CaptureInput.text units).size = units.length := rfl
      rw [sized] at inside
      rw [pieceEnd, sized]
      split <;> omega

/-- No pair is cut at the end of a piece: a lead surrogate there goes into the next one. -/
theorem pairsWhole_pieceEnd {units : JsString} (inside : offset < units.length)
    : PairsWhole ((units.take ((CaptureInput.text units).pieceEnd offset)).drop offset)
        (units.drop ((CaptureInput.text units).pieceEnd offset)) := by
  intro last isLast first isFirst
  obtain ⟨progress, within⟩
      : offset < (CaptureInput.text units).pieceEnd offset
        ∧ (CaptureInput.text units).pieceEnd offset ≤ units.length := pieceEnd_bounds inside
  have lastUnit : units[(CaptureInput.text units).pieceEnd offset - 1]? = some last := by
    rw [Option.mem_def, List.getLast?_drop, if_neg (by rw [List.length_take]; omega),
      List.getLast?_take] at isLast
    rw [if_neg (by omega), List.getElem?_eq_getElem (by omega), Option.some_or] at isLast
    rw [List.getElem?_eq_getElem (by omega)]
    exact isLast
  have firstUnit : units[(CaptureInput.text units).pieceEnd offset]? = some first := by
    rwa [Option.mem_def, List.head?_drop] at isFirst
  clear isLast isFirst
  rw [pieceEnd] at lastUnit firstUnit
  split at firstUnit
  next cut =>
    -- the next piece starts with a lead surrogate
    obtain ⟨-, isLead⟩ := cut
    rw [firstUnit, Option.any_some] at isLead
    have isTrail : isTrailSurrogate first = false := by
      have low := (of_decide_eq_true isLead).2
      exact decide_eq_false (by omega)
    rw [isTrail, Bool.and_false]
  next whole =>
    have more : min (CaptureInput.text units).size (offset + contentChunkBytes) < units.length :=
      (List.getElem?_eq_some_iff.mp firstUnit).1
    rw [if_neg whole] at lastUnit
    rw [not_and, lastUnit, Option.any_some, Bool.not_eq_true] at whole
    rw [whole more, Bool.false_and]

/-- The next piece and what is behind it. -/
theorem piece_append_rest (inside : offset < value.size)
    : value.piece offset (value.pieceEnd offset) ++ value.rest (value.pieceEnd offset)
      = value.rest offset := by
  obtain ⟨progress, within⟩ := pieceEnd_bounds inside
  have join {α : Type} (items : List α) {last : ℕ} (before : offset ≤ last)
      (within : last ≤ items.length)
      : (items.take last).drop offset ++ items.drop last = items.drop offset := by
    conv => rhs; rw [← List.take_append_drop last items]
    rw [List.drop_append_of_le_length]
    rw [List.length_take]
    omega
  cases value with
  | bytes content => exact join content (Nat.le_of_lt progress) within
  | text units =>
      rw [piece, rest, rest, ← utf8_append (pairsWhole_pieceEnd inside),
        join units (Nat.le_of_lt progress) within]

/-- The pieces are the bytes that are meant, by induction over the rounds. -/
theorem flatten_pieces {rounds : ℕ} (enough : value.size ≤ rounds + offset)
    : (value.pieces rounds offset).flatten = value.rest offset := by
  induction rounds generalizing offset with
  | zero =>
      rw [Nat.zero_add] at enough
      rw [pieces, rest_of_le enough, List.flatten_nil]
  | succ rounds ih =>
      rw [pieces]
      split
      next inside =>
        obtain ⟨progress, -⟩ := pieceEnd_bounds inside
        rw [List.flatten_cons, ih (by omega), piece_append_rest inside]
      next done => rw [List.flatten_nil, rest_of_le (Nat.le_of_not_lt done)]

/-- Capturing what is in memory stores the blocks of its bytes. -/
theorem captureContent_eq {digest : Bytes → JsString} {pool : ContentChunkPool}
    (fits : value.content.length ≤ pool.maxLogicalBytes)
    : captureContent digest pool value = storeBlocks digest (pool.put digest) value.content := by
  have whole : (value.pieces value.size 0).flatten = value.content := by
    rw [flatten_pieces (Nat.le_refl _), rest_zero]
  have count : ((value.pieces value.size 0).map List.length).sum = value.content.length := by
    rw [← List.length_flatten, whole]
  rw [captureContent, count, ContentChunkPool.capture]
  exact captureContentBlocks_eq whole fits

end CaptureInput

end SpeculativeAction.ContentChunks
