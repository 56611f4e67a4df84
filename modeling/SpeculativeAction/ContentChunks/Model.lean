import SpeculativeAction.Library.Blocks
import SpeculativeAction.Library.OrderedMap
import SpeculativeAction.Library.Utf8
import SpeculativeAction.Numbers

/-! Content in chunks: capturing pieces of any sizes into a manifest, reading a range of the
chunks, and writing the changed chunks into a file. The digest, what is stored under a digest
and how many bytes a write takes are the host's.
-/

namespace SpeculativeAction.ContentChunks

open SpeculativeAction.Library

abbrev Bytes := List UInt8

-- Manifests

section Manifests

def contentChunkBytes : ℕ := 1024 * 1024

structure ArtifactReference where
  digest : JsString
  size : ℕ
deriving DecidableEq

/-- A chunk without a reference is all zeros. -/
structure ChunkedContentManifest where
  size : ℕ
  digest : JsString
  chunks : List (Option ArtifactReference)
deriving DecidableEq

/-- A reference as it is received; what is no string is no digest. -/
structure ReferenceValue where
  digest : Option JsString
  size : Number

/-- A chunk as it is received: null, nothing at all, or an object. -/
inductive ChunkValue where
  | null
  | missing
  | reference (value : ReferenceValue)

/-- A manifest as it is received; what is no array has no chunks, and an array is dense (the
parser's `map` goes past the holes of a sparse one).
-/
structure ManifestValue where
  size : Number
  digest : Option JsString
  chunks : Option (List ChunkValue)

/-- Why an operation gave no result: an error, or a loop that has not ended. -/
inductive Failure where
  | thrown (message : String)
  | stuck
deriving DecidableEq, Repr

abbrev Outcome := Except Failure

def fail {α : Type} (message : String) : Outcome α := .error (.thrown message)

def isHexDigit (unit : CodeUnit) : Bool :=
  decide (48 ≤ unit.val ∧ unit.val ≤ 57 ∨ 97 ≤ unit.val ∧ unit.val ≤ 102)

def isSha256Digest (digest : JsString) : Bool :=
  decide (digest.take 7 = units "sha256:") && decide ((digest.drop 7).length = 64)
    && (digest.drop 7).all isHexDigit

/-- One digest has one size; the sizes are collected when they are wanted. -/
def validateArtifact (reference : ReferenceValue) (sizes : OrderedMap JsString ℕ)
    : Outcome (ArtifactReference × OrderedMap JsString ℕ) :=
  match reference.digest.filter isSha256Digest, reference.size.safeCount? with
  | some digest, some size =>
      match sizes.get? digest with
      | some previousSize =>
          if previousSize ≠ size then fail "conflicting content artifact sizes"
          else .ok ({ digest, size }, sizes.set digest size)
      | none => .ok ({ digest, size }, sizes.set digest size)
  | _, _ => fail "invalid content artifact"

/-- The size of a chunk; only the last one is short. -/
def chunkSize (size index : ℕ) : ℕ := min contentChunkBytes (size - index * contentChunkBytes)

/-- The chunks from an index on. -/
def parseChunks (size : ℕ)
    : ℕ → OrderedMap JsString ℕ → List ChunkValue → Outcome (List (Option ArtifactReference))
  | _, _, [] => .ok []
  | index, sizes, .null :: rest => do
      let chunks ← parseChunks size (index + 1) sizes rest
      return none :: chunks
  | _, _, .missing :: _ => fail "invalid content artifact"
  | index, sizes, .reference value :: rest => do
      let (reference, sizes) ← validateArtifact value sizes
      if reference.size ≠ chunkSize size index then fail "invalid content chunk size"
      else
        let chunks ← parseChunks size (index + 1) sizes rest
        return some reference :: chunks

def parseContentManifest (value : Option ManifestValue) : Outcome ChunkedContentManifest :=
  match value with
  | none => fail "invalid content manifest"
  | some manifest =>
      match manifest.size.safeCount?, manifest.digest.filter isSha256Digest, manifest.chunks with
      | some size, some digest, some values =>
          if 65536 < values.length ∨ values.length ≠ blockCount contentChunkBytes size then
            fail "invalid content manifest"
          else do
            let chunks ← parseChunks size 0 .empty values
            return { size, digest, chunks }
      | _, _, _ => fail "invalid content manifest"

def ArtifactReference.value (reference : ArtifactReference) : ReferenceValue where
  digest := some reference.digest
  size := .finite (Rat.ofInt (Int.ofNat reference.size))

def chunkValue : Option ArtifactReference → ChunkValue
  | some reference => .reference reference.value
  | none => .null

/-- A manifest as a value that can be received. -/
def ChunkedContentManifest.value (manifest : ChunkedContentManifest) : ManifestValue where
  size := .finite (Rat.ofInt (Int.ofNat manifest.size))
  digest := some manifest.digest
  chunks := some (manifest.chunks.map chunkValue)

end Manifests

-- Capturing

section Capturing

variable {m : Type → Type} [Monad m] [MonadExceptOf Failure m]

/-- What has been captured so far; the digest is of the bytes received. -/
structure Capture where
  chunks : List (Option ArtifactReference) := []
  buffer : Bytes := []
  size : ℕ := 0
  received : Bytes := []

def isZeros (bytes : Bytes) : Bool := decide (bytes = List.replicate bytes.length 0)

/-- A chunk of zeros is not stored. -/
def chunkOf (put : Bytes → m ArtifactReference) (bytes : Bytes) : m (Option ArtifactReference) :=
  if isZeros bytes then pure none else some <$> put bytes

def Capture.flush (put : Bytes → m ArtifactReference) (capture : Capture) : m Capture := do
  let chunk ← chunkOf put capture.buffer
  return { capture with chunks := capture.chunks ++ [chunk], buffer := [] }

/-- Copy bytes that fit into the buffer, which is flushed when it is full. -/
def Capture.grow (put : Bytes → m ArtifactReference) (capture : Capture) (bytes : Bytes)
    : m Capture :=
  let filled := { capture with buffer := capture.buffer ++ bytes }
  if filled.buffer.length = contentChunkBytes then filled.flush put else pure filled

/-- Copy a piece. A round copies at least one byte, so there are at most as many rounds as bytes.
-/
def Capture.fill (put : Bytes → m ArtifactReference) : ℕ → Bytes → Capture → m Capture
  | 0, _, capture => pure capture
  | rounds + 1, rest, capture =>
      if rest = [] then pure capture
      else do
        let count := min rest.length (contentChunkBytes - capture.buffer.length)
        let next ← capture.grow put (rest.take count)
        fill put rounds (rest.drop count) next

/-- Take in one piece. -/
def Capture.sink (put : Bytes → m ArtifactReference) (maxBytes : ℕ) (capture : Capture)
    (chunk : Bytes)
    : m Capture :=
  if maxBytes < capture.size + chunk.length then
    throw (.thrown "content logical budget exceeded")
  else
    Capture.fill put chunk.length chunk
      {
        capture with
        size := capture.size + chunk.length
        received := capture.received ++ chunk
      }

/-- The last block is short. -/
def Capture.finish (put : Bytes → m ArtifactReference) (capture : Capture) : m Capture :=
  if capture.buffer = [] then pure capture else capture.flush put

/-- Capture what is read, piece by piece. What `put` does with a block is its own. -/
def captureContentBlocks (digest : Bytes → JsString) (put : Bytes → m ArtifactReference)
    (pieces : List Bytes) (bytesRead maxBytes : ℕ)
    : m ChunkedContentManifest := do
  let read ← pieces.foldlM (Capture.sink put maxBytes) {}
  let capture ← read.finish put
  if capture.size ≠ bytesRead then throw (.thrown "content capture size mismatch")
  else
    let manifest : ChunkedContentManifest :=
      { size := capture.size, digest := digest capture.received, chunks := capture.chunks }
    MonadExcept.ofExcept (parseContentManifest (some manifest.value))

end Capturing

-- Capturing into a pool

section Pools

/-- The reference under which a pool stores bytes. -/
def referenceOf (digest : Bytes → JsString) (bytes : Bytes) : ArtifactReference :=
  { digest := digest bytes, size := bytes.length }

/-- The limits a pool was made with. -/
structure ContentChunkPool where
  maxLogicalBytes : ℕ
  maxStoredBytes : ℕ
  maxOpenChunks : ℕ
  maxReadBytes : ℕ
  bounded : maxLogicalBytes ≤ 65536 * contentChunkBytes
  storable : maxStoredBytes ≤ Number.maxSafeInteger
  openable : maxOpenChunks ≤ 65536
  readable : maxReadBytes ≤ 2 ^ 30

/-- The sizes of the blocks that the view of a pool holds, by their digests. -/
abbrev HeldBlocks := OrderedMap JsString ℕ

/-- What an operation does with the blocks of a pool; an error keeps those stored before it. -/
abbrev Storing := ExceptT Failure (StateM HeldBlocks)

variable (digest : Bytes → JsString) (pool : ContentChunkPool)

/-- `ArtifactReadView.add` of a block in memory: one that is held is not stored again. -/
def ContentChunkPool.add (reference : ArtifactReference) : Storing Unit := do
  let _ ← MonadExcept.ofExcept (validateArtifact reference.value .empty)
  let held ← get
  match held.get? reference.digest with
  | some size => if size ≠ reference.size then throw (.thrown "conflicting artifact size")
  | none =>
      if pool.maxStoredBytes < held.values.sum + reference.size
          ∨ pool.maxOpenChunks ≤ held.values.length then
        throw (.thrown "artifact stored-byte or descriptor budget exceeded")
      else
        set (held.set reference.digest reference.size)

def ContentChunkPool.put (bytes : Bytes) : Storing ArtifactReference := do
  let reference := referenceOf digest bytes
  pool.add reference
  return reference

def ContentChunkPool.capture (pieces : List Bytes) (bytesRead : ℕ)
    : Storing ChunkedContentManifest :=
  captureContentBlocks digest (pool.put digest) pieces bytesRead pool.maxLogicalBytes

/-- What is captured in memory: bytes, or a string in code units. -/
inductive CaptureInput where
  | bytes (value : Bytes)
  | text (value : JsString)

namespace CaptureInput

def size : CaptureInput → ℕ
  | .bytes value => value.length
  | .text value => value.length

/-- Where the piece ends that starts at an offset; a lead surrogate goes into the next piece. -/
def pieceEnd (value : CaptureInput) (offset : ℕ) : ℕ :=
  let last := min value.size (offset + contentChunkBytes)
  match value with
  | .bytes _ => last
  | .text units =>
      if last < units.length ∧ (units[last - 1]?).any isLeadSurrogate = true then last - 1 else last

def piece (value : CaptureInput) (offset last : ℕ) : Bytes :=
  match value with
  | .bytes content => (content.take last).drop offset
  | .text units => utf8 ((units.take last).drop offset)

/-- The pieces from an offset on; a piece has at least one unit. -/
def pieces (value : CaptureInput) : ℕ → ℕ → List Bytes
  | 0, _ => []
  | rounds + 1, offset =>
      if offset < value.size then
        value.piece offset (value.pieceEnd offset) :: value.pieces rounds (value.pieceEnd offset)
      else []

end CaptureInput

def captureContent (value : CaptureInput) : Storing ChunkedContentManifest :=
  let pieces := value.pieces value.size 0
  pool.capture digest pieces (pieces.map List.length).sum

end Pools

-- Reading

section Reading

/-- Read a range from chunks. A round copies at least one byte where the chunks are as long as
the range needs them.
-/
def readChunkRange (block : ℕ → Outcome Bytes) (offset length : ℕ) : ℕ → Bytes → Outcome Bytes
  | rounds, result =>
      if result.length < length then
        match rounds with
        | 0 => .error .stuck
        | rounds + 1 => do
            let position := offset + result.length
            let start := position % contentChunkBytes
            let bytes ← block (position / contentChunkBytes)
            let count := min (length - result.length) (bytes.length - start)
            readChunkRange block offset length rounds (result ++ (bytes.drop start).take count)
      else .ok result

/-- The stored chunks are read through a view with the same limits. -/
def ContentChunkPool.readArtifact (pool : ContentChunkPool) (stored : JsString → Bytes)
    (reference : ArtifactReference) (offset length : ℕ)
    : Outcome Bytes :=
  if reference.size < offset + length ∨ pool.maxReadBytes < length then
    fail "artifact read budget exceeded"
  else .ok (((stored reference.digest).drop offset).take length)

def ContentChunkPool.block (pool : ContentChunkPool) (stored : JsString → Bytes)
    (manifest : ChunkedContentManifest) (index : ℕ)
    : Outcome Bytes :=
  let size := chunkSize manifest.size index
  match manifest.chunks[index]? with
  | some (some reference) => pool.readArtifact stored reference 0 size
  | _ => .ok (List.replicate size 0)

/-- Without a number of bytes the whole content is meant. -/
def ContentChunkPool.read (pool : ContentChunkPool) (stored : JsString → Bytes)
    (manifest : ChunkedContentManifest) (maxBytes : Option Number) (offset : Number)
    : Outcome Bytes :=
  match offset.safeCount?, maxBytes.map (·.safeCount?) with
  | none, _ | _, some none => fail "invalid content read budget"
  | some offset, length =>
      let size := min (manifest.size - offset) (length.join.getD manifest.size)
      if pool.maxReadBytes < size then
        fail "content read budget exceeded; request a bounded prefix"
      else readChunkRange (pool.block stored manifest) offset size size []

structure ChunkedContent where
  pool : ContentChunkPool
  manifest : ChunkedContentManifest

/-- Bytes in memory, or chunks of a pool. -/
inductive ContentVersion where
  | bytes (value : Bytes)
  | chunked (content : ChunkedContent)

def ContentVersion.byteLength : ContentVersion → ℕ
  | .bytes value => value.length
  | .chunked content => content.manifest.size

def readContent (stored : JsString → Bytes) (value : ContentVersion) (offset length : ℕ)
    : Outcome Bytes :=
  match value with
  | .bytes bytes => .ok ((bytes.drop offset).take length)
  | .chunked content =>
      content.pool.read stored content.manifest
        (some (.finite (Rat.ofInt (Int.ofNat length)))) (.finite (Rat.ofInt (Int.ofNat offset)))

end Reading

-- Writing

section Writing

/-- An open file, and how often it was written to. -/
structure FileHandle where
  content : Bytes
  writes : ℕ := 0

/-- Cut or extend with zeros. -/
def FileHandle.truncate (handle : FileHandle) (length : ℕ) : FileHandle :=
  { handle with
    content :=
      handle.content.take length ++ List.replicate (length - handle.content.length) 0 }

/-- Write bytes at a position; a gap before it is zeros. -/
def FileHandle.overwrite (handle : FileHandle) (bytes : Bytes) (position : ℕ) : FileHandle :=
  { content :=
      (handle.truncate (max position handle.content.length)).content.take position ++ bytes
        ++ handle.content.drop (position + bytes.length)
    writes := handle.writes + 1 }

/-- Write a block; the host takes some of the bytes of each write. -/
def writeBlock (accepts : ℕ → ℕ) (block : Bytes) (offset : ℕ)
    : ℕ → ℕ → FileHandle → Outcome FileHandle
  | rounds, written, handle =>
      if written < block.length then
        match rounds with
        | 0 => .error .stuck
        | rounds + 1 =>
            let bytesWritten := min (accepts handle.writes) (block.length - written)
            let after :=
              handle.overwrite ((block.drop written).take bytesWritten) (offset + written)
            if bytesWritten = 0 then fail "content write made no progress"
            else writeBlock accepts block offset rounds (written + bytesWritten) after
      else .ok handle

def ContentVersion.manifest? : ContentVersion → Option ChunkedContentManifest
  | .bytes _ => none
  | .chunked content => some content.manifest

/-- The digest of a stored chunk. -/
def ChunkedContentManifest.digestAt (manifest : ChunkedContentManifest) (index : ℕ)
    : Option JsString :=
  (manifest.chunks[index]?.join).map (·.digest)

/-- The file holds the chunk already: as a chunk of what was before, or as zeros that the file
was extended with.
-/
def unchanged (after : ContentVersion) (before : Option ContentVersion) (index length : ℕ) : Bool :=
  match after.manifest? with
  | none => false
  | some next =>
      let offset := index * contentChunkBytes
      let zeros := decide (next.chunks[index]? = some none)
      (before.bind (·.manifest?)).any (fun previous =>
          decide (offset + length ≤ previous.size)
            && decide (next.digestAt index = previous.digestAt index))
        || before.isNone && zeros
        || before.any (fun version => decide (version.byteLength ≤ offset)) && zeros

/-- Write one chunk unless it is unchanged; whether anything was written is kept. -/
def writeChunk (stored : JsString → Bytes) (accepts : ℕ → ℕ) (after : ContentVersion)
    (before : Option ContentVersion) (state : FileHandle × Bool) (index : ℕ)
    : Outcome (FileHandle × Bool) :=
  let offset := index * contentChunkBytes
  let length := min contentChunkBytes (after.byteLength - offset)
  if unchanged after before index length then .ok state
  else do
    let block ← readContent stored after offset length
    let handle ← writeBlock accepts block offset block.length 0 state.1
    return (handle, true)

/-- Apply changed ranges to the existing file. -/
def writeContent (stored : JsString → Bytes) (accepts : ℕ → ℕ) (handle : FileHandle)
    (after : ContentVersion) (before : Option ContentVersion)
    : Outcome FileHandle := do
  let extends_ := before.all fun version => decide (version.byteLength < after.byteLength)
  let start := if extends_ then handle.truncate after.byteLength else handle
  let (finished, written) ← (List.range (blockCount contentChunkBytes after.byteLength)).foldlM
    (writeChunk stored accepts after before) (start, extends_)
  let shrinks := before.any fun version => decide (after.byteLength < version.byteLength)
  return if !written || shrinks then finished.truncate after.byteLength else finished

end Writing

end SpeculativeAction.ContentChunks
