import SpeculativeAction.Library.Json
import SpeculativeAction.Library.NumberArithmetic
import SpeculativeAction.Library.OrderedMap
import SpeculativeAction.Library.PosixPath

/-! The kernel's records of calls on file metadata: each call is collected from its records, and
its line is completed at the end of every read that brought one of them. A call whose return and
response are there is forgotten.
-/

namespace SpeculativeAction.NativeMetadata

open SpeculativeAction.Library
open SpeculativeAction.Library.PosixPath

-- Bytes

section Bytes

abbrev Bytes := List UInt8

/-- A little-endian number of some bytes. -/
def uint (bytes : Bytes) (offset size : ℕ) : ℕ :=
  ((bytes.drop offset).take size).foldr (fun byte above => byte.toNat + 256 * above) 0

/-- The same bytes in two's complement. -/
def int (bytes : Bytes) (offset size : ℕ) : ℤ :=
  let value := uint bytes offset size
  if value < 2 ^ (8 * size - 1) then value else value - 2 ^ (8 * size)

def isTail (byte : UInt8) : Bool := decide (128 ≤ byte.toNat ∧ byte.toNat ≤ 191)

def tailBits (byte : UInt8) : ℕ := byte.toNat - 128

/-- The first byte behind that of a character of three or four bytes. -/
def isSecond (first second : UInt8) : Bool :=
  isTail second
    && (first != 224 || decide (160 ≤ second.toNat)) && (first != 237 || decide (second.toNat ≤ 159))
    && (first != 240 || decide (144 ≤ second.toNat)) && (first != 244 || decide (second.toNat ≤ 143))

/-- A fatal UTF-8 decoder that keeps a byte order mark. -/
def decodeUtf8 : Bytes → Option JsString
  | [] => some []
  | first :: rest =>
      if first.toNat < 128 then (decodeUtf8 rest).map (codeUnit first.toNat :: ·)
      else if first.toNat < 194 then none
      else if first.toNat < 224 then
        match rest with
        | second :: rest =>
            if isTail second then
              (decodeUtf8 rest).map
                (codeUnit ((first.toNat - 192) * 64 + tailBits second) :: ·)
            else none
        | _ => none
      else if first.toNat < 240 then
        match rest with
        | second :: third :: rest =>
            if isSecond first second && isTail third then
              (decodeUtf8 rest).map
                (codeUnit (((first.toNat - 224) * 64 + tailBits second) * 64 + tailBits third) :: ·)
            else none
        | _ => none
      else if first.toNat < 245 then
        match rest with
        | second :: third :: fourth :: rest =>
            let code := (((first.toNat - 240) * 64 + tailBits second) * 64 + tailBits third) * 64
              + tailBits fourth - 65536
            if isSecond first second && isTail third && isTail fourth then
              (decodeUtf8 rest).map
                ([codeUnit (55296 + code / 1024), codeUnit (56320 + code % 1024)] ++ ·)
            else none
        | _ => none
      else none

/-- A text, or the decoder throws. -/
def decode (bytes : Bytes) : Except JsString JsString :=
  match decodeUtf8 bytes with
  | some text => .ok text
  | none => .error (units "The encoded data was not valid for encoding utf-8")

end Bytes

-- Records

section Records

/-- One record of the kernel. -/
structure NativeRecord where
  task : ℕ
  time : ℕ
  id : ℕ
  kind : ℕ
  error : ℤ
  body : Bytes

def NativeRecord.pid (record : NativeRecord) : ℕ := record.task % 2 ^ 32

/-- `Number(bytes.readBigUInt64LE(offset + 16)) / 1e6` -/
def NativeRecord.at_ (record : NativeRecord) : JsNumber :=
  (JsNumber.ofRat record.time).divPositive (JsNumber.ofRat 1000000)

/-- The first record of the bytes, and how many bytes it takes with its padding. -/
def readRecord (bytes : Bytes) : Except JsString (NativeRecord × ℕ) :=
  if bytes.length < 48 then .error (units "truncated native record")
  else
    let id := uint bytes 24 8
    let size := uint bytes 40 4
    if id = 0 ∨ size > 4096 ∨ 48 + size > bytes.length then
      .error (units "invalid native record")
    else
      .ok ({
        task := uint bytes 8 8
        time := uint bytes 16 8
        id
        kind := uint bytes 32 8
        error := int bytes 44 4
        body := (bytes.drop 48).take size }, (48 + size + 7) / 8 * 8)

end Records

-- The index of inputs

section Inputs

structure NativeInput where
  image : Option JsString := none
  sealed : Bool
  links : List (JsString × JsString)
deriving DecidableEq

structure InputFrame where
  chunks : List Bytes := []
  bytes : ℕ := 0

def field? (fields : List (JsString × Data)) (name : String) : Option Data :=
  (fields.find? fun entry => entry.1 = units name).map Prod.snd

/-- A link of an input, as it must be. -/
def link? : Data → Option (JsString × JsString)
  | .array [.string name, .string target] =>
      if isAbsolute name ∧ codeUnit 0 ∉ name ∧ codeUnit 0 ∉ target then some (name, target)
      else none
  | _ => none

def isImage (text : JsString) : Bool :=
  decide (text.length = 16)
    && text.all fun other => isDigit other || decide (97 ≤ other.val ∧ other.val ≤ 102)

def isTrue : Data → Bool
  | .bool true => true
  | _ => false

/-- One row of the index; a row that does not agree with the one before is not sealed. -/
def observeRow (inputs : OrderedMap JsString NativeInput) (row : Data)
    : Except JsString (OrderedMap JsString NativeInput) :=
  let fields :=
    match row with
    | .object fields => fields
    | _ => []
  match field? fields "path" with
  | some (.string path) =>
      if isAbsolute path = false ∨ codeUnit 0 ∈ path then
        .error (units "invalid native input pathname")
      else
        let previous := inputs.get? path
        if (field? fields "ambiguous").any isTrue then
          .ok (if previous.isSome then inputs.set path { sealed := false, links := [] } else inputs)
        else
          match field? fields "image", field? fields "sealed", field? fields "links" with
          | some (.string image), some (.bool sealed), some (.array rows) =>
              match isImage image, decide (rows.length ≤ 40), rows.mapM link? with
              | true, true, some links =>
                  if previous = none ∧ inputs.keys.length ≥ 8192 then
                    .error (units "native input index exceeds its bound")
                  else
                    match previous with
                    | none => .ok (inputs.set path { image := some image, sealed, links })
                    | some previous =>
                        if previous.image = some image ∧ previous.links = links then
                          if previous.sealed = sealed then .ok inputs
                          else .ok (inputs.set path { image := some image, sealed, links })
                        else .ok (inputs.set path { sealed := false, links := [] })
              | _, _, _ => .error (units "invalid native input index")
          | _, _, _ => .error (units "invalid native input index")
  | _ => .error (units "invalid native input pathname")

def parseRow (bytes : Bytes) : Except JsString Data := do
  let text ← decode bytes
  match jsonParse text with
  | some row => .ok row
  | none => .error (units "Unexpected token in JSON")

/-- The rows so far, and the parts of rows that are not whole. -/
structure InputIndex where
  inputs : OrderedMap JsString NativeInput := .empty
  inputFrames : OrderedMap ℕ InputFrame := .empty

/-- A part of a row, and the row when it is the last one. -/
def InputIndex.observe (index : InputIndex) (record : NativeRecord) : Except JsString InputIndex :=
  let size := record.body.length
  let frame := index.inputFrames.get? record.id
  if record.error ≠ 0 ∨ size = 0 ∨ frame.isSome ≠ decide (record.kind % 128 = 11) then
    .error (units "invalid native input frame")
  else
    let frame := frame.getD {}
    let frame : InputFrame :=
      { chunks := frame.chunks ++ [record.body], bytes := frame.bytes + size }
    let inputFrames := index.inputFrames.set record.id frame
    if frame.bytes > 2 * 1024 * 1024 ∨ inputFrames.keys.length > 256 then
      .error (units "native input record exceeds its bound")
    else if record.kind < 128 then .ok { index with inputFrames }
    else do
      let row ← parseRow frame.chunks.flatten
      let inputs ← observeRow index.inputs row
      .ok { inputs, inputFrames := inputFrames.delete record.id }

end Inputs

-- Calls and their lines

section Calls

structure StatObservation where
  digest : JsString
  fields : Option (List JsString) := none
deriving DecidableEq

structure NativeView where
  entered : JsNumber
  paths : Option (List JsString)
  observation : Option StatObservation
  descriptor : Bool
  nullDevice : Bool

/-- A line of a process; when it was collected is left out. -/
structure NativeLine where
  order : JsNumber
  pid : ℕ
  name : JsString
  args : List JsString
  result : JsString
  failure : Option JsString := none
  native : NativeView

/-- A call; `line` is the place of its line. -/
structure Call where
  line : ℕ
  pid : ℕ
  number : ℕ
  arguments : List ℕ
  returned : Option Bytes := none
  response : Option Bytes := none
  requested : Bool := false
  canceled : Bool := false
  failed : Bool := false
  error : Option JsString := none
  ended : Option JsNumber := none
  path : Option JsString := none
  pathRank : ℕ := 0
  observation : Option StatObservation := none

/-- What is taken from the host: the names of its errors, where it knows the number, and the
digest of an observation.
-/
structure Host where
  getSystemErrorName : ℤ → Option JsString
  digestObject : List (JsString × JsString) → JsString

def callName? (number : ℕ) : Option JsString :=
  match number with
  | 4 => some (units "stat")
  | 5 => some (units "fstat")
  | 6 => some (units "lstat")
  | 17 => some (units "pread64")
  | 18 => some (units "pwrite64")
  | 262 => some (units "newfstatat")
  | 332 => some (units "statx")
  | _ => none

def processCallName? (number : ℕ) : Option JsString :=
  match number with
  | 39 => some (units "getpid")
  | 110 => some (units "getppid")
  | 121 => some (units "getpgid")
  | 124 => some (units "getsid")
  | _ => none

/-- A call on a position of a file, which needs no request. -/
def Call.positional (call : Call) : Bool := call.number == 17 || call.number == 18

/-- The return, and what the broker must have said of it. -/
def Call.complete (call : Call) : Bool :=
  call.returned.isSome && (call.positional || (call.requested && call.response.isSome))

/-- The path of a record, under the name it shadows. -/
def recordPath (privateUpper : JsString) (body : Bytes) : Except JsString JsString := do
  let text ← decode body
  let value := if text.getLast? = some (codeUnit 0) then text.dropLast else text
  if codeUnit 0 ∈ value then .error (units "invalid native pathname")
  else if (privateUpper ++ units "/").isPrefixOf value then .ok (value.drop privateUpper.length)
  else .ok value

/-- The bytes that a return brings of what was asked for. -/
def Call.dataSize (call : Call) (body : Bytes) : ℕ :=
  if int body 8 8 < 0 ∨ call.number = 17 ∨ call.number = 18 then 0
  else if call.number = 332 then 256
  else 144

/-- A path for the call; the broker's goes before that of another task, and that before the
call's own.
-/
def Call.observePath (call : Call) (record : NativeRecord) (value : JsString) : Call :=
  let rank := if record.kind = 1 then 3 else if record.pid ≠ call.pid then 2 else 1
  let call :=
    if rank = call.pathRank ∧ some value ≠ call.path then
      { call with error := some (units "native_metadata_path_changed") }
    else call
  if rank > call.pathRank then { call with path := some value, pathRank := rank } else call

/-- One more record of a call. -/
def Call.observe (privateUpper : JsString) (call : Call) (record : NativeRecord)
    : Except JsString Call :=
  let size := record.body.length
  if record.error ≠ 0 then .ok { call with error := some (units "native_metadata_unreadable") }
  else
    match record.kind with
    | 0 =>
        if call.requested ∨ size ≠ 80 ∨ uint record.body 8 4 ≠ call.pid
            ∨ int record.body 16 4 ≠ call.number then
          .error (units "native request changed")
        else .ok { call with requested := true }
    | 4 =>
        if call.response.isSome ∨ size ≠ 24 then .error (units "invalid native response")
        else .ok { call with response := some record.body }
    | 5 => .ok { call with failed := true }
    | 9 => .ok { call with canceled := true, ended := some record.at_ }
    | 6 =>
        if call.returned.isSome ∨ size < 32 ∨ int record.body 0 8 ≠ call.number
            ∨ uint record.body 24 4 ≠ size - 32 ∨ size - 32 ≠ call.dataSize record.body then
          .error (units "invalid native return")
        else .ok { call with returned := some record.body, ended := some record.at_ }
    | 1 | 7 => do
        let value ← recordPath privateUpper record.body
        .ok (call.observePath record value)
    | _ => .error (units "unknown native metadata record")

end Calls

-- Completing a line

section Completion

def linuxDevice (major minor : ℕ) : ℕ :=
  (major &&& 0xfff) <<< 8 ||| minor &&& 0xff ||| (minor - minor % 256) <<< 12
    ||| (major - major % 4096) <<< 32

/-- The bit of a field in the mask of an extended observation, where it has one. -/
def observationMask : String → ℕ
  | "mode" => 3
  | "nlink" => 4
  | "uid" => 8
  | "gid" => 16
  | "atimeNs" => 32
  | "mtimeNs" => 64
  | "ctimeNs" => 128
  | "ino" => 256
  | "size" => 512
  | "blocks" => 1024
  | _ => 0

def integerText (value : ℤ) : JsString :=
  if value < 0 then unit '-' :: decimalText value.natAbs else decimalText value.natAbs

/-- The fields of a returned record, in the order of `FILESYSTEM_OBSERVATION_FIELDS`. -/
def statValues (bytes : Bytes) (extended : Bool) : List (String × ℤ) :=
  let device offset := linuxDevice (uint bytes offset 4) (uint bytes (offset + 4) 4)
  let time offset :=
    int bytes offset 8 * 1000000000 + uint bytes (offset + 8) (if extended then 4 else 8)
  if extended then [
    ("dev", device 136), ("ino", uint bytes 32 8), ("mode", uint bytes 28 2),
    ("nlink", uint bytes 16 4), ("uid", uint bytes 20 4), ("gid", uint bytes 24 4),
    ("rdev", device 128), ("size", uint bytes 40 8), ("blksize", uint bytes 4 4),
    ("blocks", uint bytes 48 8), ("atimeNs", time 64), ("mtimeNs", time 112),
    ("ctimeNs", time 96)]
  else [
    ("dev", uint bytes 0 8), ("ino", uint bytes 8 8), ("mode", uint bytes 24 4),
    ("nlink", uint bytes 16 8), ("uid", uint bytes 28 4), ("gid", uint bytes 32 4),
    ("rdev", uint bytes 40 8), ("size", int bytes 48 8), ("blksize", int bytes 56 8),
    ("blocks", int bytes 64 8), ("atimeNs", time 72), ("mtimeNs", time 88),
    ("ctimeNs", time 104)]

def nativeStatObservation (host : Host) (bytes : Bytes) (extended : Bool) : StatObservation :=
  let mask := if extended then uint bytes 0 4 else 0x7ff
  let values := statValues bytes extended
  let whole := mask / 2 ^ 18 ≠ 0 ∨ mask &&& 0x7ff = 0x7ff
  let seen := if whole then values else values.filter fun value => mask &&& observationMask value.1 ≠ 0
  { digest := host.digestObject (seen.map fun value => (units value.1, integerText value.2))
    fields :=
      if seen.length < values.length then some (seen.map fun value => units value.1) else none }

/-- `..` stays: only a walk over the recorded tree knows whether it leaves a directory that is a
link.
-/
def walkedPath (value : JsString) : JsString :=
  sep :: joinSep ((segments value).filter fun segment => decide (segment ≠ dot))

/-- The returned value of the call. -/
def Call.result (call : Call) : Option ℤ := call.returned.map fun returned => int returned 8 8

/-- The kernel takes these calls up again. -/
def restarts : List ℤ := [-512, -513, -514, -516]

/-- The call came to nothing that the program sees. -/
def Call.vanished (call : Call) : Bool :=
  call.canceled || call.result.any fun result => restarts.contains result

def resultText (host : Host) : Option ℤ → Except JsString JsString
  | none => .ok []
  | some result =>
      if 0 ≤ result then .ok (integerText result)
      else
        match host.getSystemErrorName result with
        | some name => .ok (units "-1 " ++ name)
        | none => .error (units "The value of \"err\" is out of range")

/-- What the broker answered must be what the call returned. -/
def responseChanged (response : Bytes) (result : ℤ) : Bool :=
  decide (uint response 20 4 > 1 ∨ int response 16 4 > 0
    ∨ uint response 20 4 % 2 = 0
      ∧ result ≠ if int response 16 4 ≠ 0 then int response 16 4 else int response 8 8)

def Call.named (call : Call) : Bool := call.path.any fun path => path != []

/-- Why a line that stands is not complete. -/
def Call.failure (call : Call) : Option JsString :=
  match call.error with
  | some error => some error
  | none =>
      if call.positional then
        match call.result with
        | none => some (units "native_metadata_pending")
        | some result =>
            if 0 ≤ result ∧ call.named = false then some (units "native_io_path_missing") else none
      else
        match call.result, call.requested, call.response with
        | some result, true, some response =>
            if responseChanged response result then
              some (units "native_metadata_response_changed")
            else none
        | _, _, _ =>
            some (units
              (if call.failed then "native_metadata_rejected" else "native_metadata_pending"))

def Call.args (descriptor : Bool) (call : Call) : List JsString :=
  let texts := call.arguments.map decimalText
  let argument index := call.arguments.getD index 0
  let texts :=
    if call.positional then
      texts.set 3 (integerText (let value := argument 3
        if value < 2 ^ 63 then (value : ℤ) else value - 2 ^ 64))
    else texts
  let flags := if call.number = 262 then 3 else 2
  let texts :=
    if call.number = 262 ∨ call.number = 332 then
      texts.set flags
        (if argument flags &&& 0x100 ≠ 0 then units "AT_SYMLINK_NOFOLLOW" else units "0")
    else texts
  if descriptor then
    texts.set 0 (decimalText (argument 0) ++ units "<" ++ call.path.getD (units "anonymous")
      ++ units ">")
  else texts

def Call.paths (call : Call) : Option (List JsString) :=
  let walks := call.path.filter fun path =>
    (units "/").isPrefixOf path && !(units "/memfd:").isPrefixOf path
      && !(units " (deleted)").isSuffixOf path
  match walks with
  | some path => some [walkedPath path]
  | none =>
      if call.named || (call.positional && call.result.any (· < 0)) then some [] else none

/-- The bytes of the returned record. -/
def Call.data (call : Call) : Bytes := (call.returned.getD []).drop 32

def Call.nullDevice (call : Call) : Bool :=
  let data := call.data
  if call.number = 332 then
    data != [] && uint data 28 2 &&& 0xf000 == 0x2000 && uint data 128 4 == 1 && uint data 132 4 == 3
  else data != [] && uint data 24 4 &&& 0xf000 == 0x2000 && uint data 40 8 == 259

/-- The observation of a call, which is made once and kept. -/
def Call.observed (host : Host) (call : Call) (failure : Option JsString)
    : Option StatObservation :=
  if call.positional = false ∧ failure = none ∧ call.result = some 0 then
    some (call.observation.getD (nativeStatObservation host call.data (call.number == 332)))
  else none

/-- The line of a call, from what it was before. -/
def Call.finish (host : Host) (call : Call) (line : NativeLine) : Except JsString NativeLine := do
  let name := if call.vanished then [] else line.name
  let result ← resultText host call.result
  let failure := if name = [] then none else call.failure
  .ok { line with
    order := call.ended.getD line.native.entered
    name
    result
    failure
    args := call.args line.native.descriptor
    native := { line.native with
      paths := call.paths
      observation := call.observed host failure
      nullDevice := call.nullDevice } }

end Completion

-- Reading

section Reading

/-- `files` has the places of the lines of a process. The first error of a read is thrown again
by every later one, so there is no trace behind it.
-/
structure NativeTrace where
  calls : OrderedMap ℕ Call := .empty
  lines : List NativeLine := []
  files : OrderedMap ℕ (List ℕ) := .empty
  index : InputIndex := {}

def appendGrouped (files : OrderedMap ℕ (List ℕ)) (pid place : ℕ) : OrderedMap ℕ (List ℕ) :=
  files.set pid ((files.get? pid).getD [] ++ [place])

/-- A new line of a process. -/
def NativeTrace.append (trace : NativeTrace) (line : NativeLine) : NativeTrace :=
  { trace with
    lines := trace.lines ++ [line]
    files := appendGrouped trace.files line.pid trace.lines.length }

/-- The line of a call on the process itself, which has one record. -/
def processLine (record : NativeRecord) : Except JsString NativeLine :=
  if record.error ≠ 0 ∨ record.body.length ≠ 16 then
    .error (units "invalid native process record")
  else
    match processCallName? (uint record.body 0 8) with
    | none => .error (units "unknown native process observation")
    | some name =>
        .ok {
          pid := record.pid
          order := record.at_
          name
          args := []
          result := integerText (int record.body 8 8)
          native :=
            { entered := record.at_, paths := some [], observation := none, descriptor := false
              nullDevice := false } }

/-- A call as it is entered, and its line at some place. -/
def entry (place : ℕ) (record : NativeRecord) : Except JsString (Call × NativeLine) :=
  if record.error ≠ 0 ∨ record.body.length ≠ 56 then .error (units "invalid native entry")
  else
    let number := uint record.body 8 8
    match callName? number with
    | none => .error (units "unknown native metadata call")
    | some name =>
        let arguments := (List.range 5).map fun index => uint record.body (16 + index * 8) 8
        let descriptor :=
          number == 5 || number == 17 || number == 18
            || (number == 262 && arguments.getD 3 0 &&& 0x1000 != 0)
            || (number == 332 && arguments.getD 2 0 &&& 0x1000 != 0)
        .ok ({ line := place, pid := record.pid, number, arguments }, {
          pid := record.pid
          order := record.at_
          name
          args := []
          result := []
          failure := some (units "native_metadata_pending")
          native :=
            { entered := record.at_, paths := none, observation := none, descriptor
              nullDevice := false } })

def NativeTrace.enter (trace : NativeTrace) (record : NativeRecord)
    : Except JsString NativeTrace :=
  if (trace.calls.get? record.id).isSome then .error (units "invalid native entry")
  else do
    let (call, line) ← entry trace.lines.length record
    .ok ({ trace with calls := trace.calls.set record.id call }.append line)

/-- The calls of a read that got a record, in the order of their first one. -/
def mark (changed : List ℕ) (id : ℕ) : List ℕ := if id ∈ changed then changed else changed ++ [id]

/-- One record, with the calls that this read has changed. -/
def NativeTrace.observe (privateUpper : JsString) (state : NativeTrace × List ℕ)
    (record : NativeRecord)
    : Except JsString (NativeTrace × List ℕ) :=
  let (trace, changed) := state
  if record.kind = 12 then do
    let line ← processLine record
    .ok (trace.append line, changed)
  else if record.kind ∈ [10, 11, 138, 139] then do
    let index ← trace.index.observe record
    .ok ({ trace with index }, changed)
  else if record.kind = 8 then do
    let trace ← trace.enter record
    .ok (trace, mark changed record.id)
  else
    match trace.calls.get? record.id with
    | none => .error (units "native record has no kernel entry")
    | some call => do
        let call ← call.observe privateUpper record
        .ok ({ trace with calls := trace.calls.set record.id call }, mark changed record.id)

/-- A changed call at the end of a read: its line is completed, and it is forgotten once all of
its records must be there.
-/
def NativeTrace.finishCall (host : Host) (trace : NativeTrace) (id : ℕ)
    : Except JsString NativeTrace :=
  match trace.calls.get? id with
  | none => .ok trace
  | some call =>
      match trace.lines[call.line]? with
      | none => .ok trace
      | some line => do
          let line ← call.finish host line
          let call := { call with observation := line.native.observation.or call.observation }
          .ok { trace with
            lines := trace.lines.set call.line line
            calls :=
              if call.complete then trace.calls.delete id else trace.calls.set id call }

/-- The records of a read, one after the other; fuel for every byte is enough. -/
def NativeTrace.observeBytes (privateUpper : JsString)
    : ℕ → NativeTrace × List ℕ → Bytes → Except JsString (NativeTrace × List ℕ)
  | 0, state, _ => .ok state
  | fuel + 1, state, bytes =>
      if bytes = [] then .ok state
      else do
        let (record, size) ← readRecord bytes
        let state ← NativeTrace.observe privateUpper state record
        observeBytes privateUpper fuel state (bytes.drop size)

/-- One read of the trace. -/
def NativeTrace.read (host : Host) (privateUpper : JsString) (trace : NativeTrace)
    (bytes : Bytes)
    : Except JsString NativeTrace := do
  let (trace, changed) ← NativeTrace.observeBytes privateUpper bytes.length (trace, []) bytes
  changed.foldlM (NativeTrace.finishCall host) trace

/-- The index of inputs, which is not given out within a row. -/
def NativeTrace.inputs (trace : NativeTrace) : Except JsString (OrderedMap JsString NativeInput) :=
  if trace.index.inputFrames.keys.length ≠ 0 then
    .error (units "native input record is incomplete")
  else .ok trace.index.inputs

/-- The lines of every process. -/
def NativeTrace.processLines (trace : NativeTrace) : List (ℕ × List NativeLine) :=
  trace.files.entries.map fun (pid, places) => (pid, places.filterMap (trace.lines[·]?))

end Reading

end SpeculativeAction.NativeMetadata
