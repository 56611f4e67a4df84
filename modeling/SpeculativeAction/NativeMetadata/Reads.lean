import SpeculativeAction.NativeMetadata.Boundaries

/-! Ways to read a sequence of complete records. If one read of all of them is taken, reads that
end between records are taken exactly when no record of a call comes in a later read than the one
that completed it, and then their lines and their index are those of the one read.
-/

namespace SpeculativeAction.NativeMetadata

open SpeculativeAction.Library

-- Reads of decoded records

section Decoded

variable {host : Host} {privateUpper : JsString} {left right rightNext : NativeTrace}
  {rightChanged rightMarked : List ℕ} {records : List NativeRecord}

/-- A read of records that were decoded. -/
def readRecords (host : Host) (privateUpper : JsString) (trace : NativeTrace)
    (records : List NativeRecord)
    : Except JsString NativeTrace := do
  let (trace, changed) ← records.foldlM (NativeTrace.observe privateUpper) (trace, [])
  changed.foldlM (NativeTrace.finishCall host) trace

/-- No record of a call comes in a later read than the one that completed the call. -/
def SettledFrom (done : List NativeRecord) : List (List NativeRecord) → Prop
  | [] => True
  | now :: later =>
      (∀ record ∈ now, record.isCall = true → ¬ Complete done record.id)
        ∧ SettledFrom (done ++ now) later

def Settled (reads : List (List NativeRecord)) : Prop := SettledFrom [] reads

/-- Between reads, the forgotten calls are the complete ones. -/
theorem Related.forgotten_iff (related : Related host left right [])
    (collected : Collected records right rightChanged) (id : ℕ)
    : Forgotten left right id ↔ Complete records id := by
  constructor
  · rintro ⟨gone, present⟩
    obtain ⟨call, found⟩ := Option.isSome_iff_exists.mp present
    obtain ⟨base, -, callRelated⟩ := related.calls id call found
    cases callRelated with
    | forgotten _ complete => exact (collected.tracks id call found).complete_iff.mp complete
    | kept _ there_ => rw [gone] at there_; cases there_
  · intro complete
    have whole := complete
    obtain ⟨⟨record, member, rfl, kind, -⟩, -⟩ := complete
    have isCall : record.isCall = true := by
      rw [NativeRecord.isCall, kind]
      decide
    have present := collected.entered record member isCall
    obtain ⟨call, found⟩ := Option.isSome_iff_exists.mp present
    obtain ⟨base, -, callRelated⟩ := related.calls record.id call found
    cases callRelated with
    | forgotten gone => exact ⟨gone, present⟩
    | kept _ _ _ _ _ _ settled =>
        have open_ := (settled List.not_mem_nil).2
        rw [(collected.tracks record.id call found).complete_iff.mpr whole] at open_
        cases open_

/-- Ways to read what was collected, by induction on the reads. -/
theorem readRecords_iff (reads : List (List NativeRecord)) (related : Related host left right [])
    (collected : Collected records right rightChanged)
    (observed : reads.flatten.foldlM (NativeTrace.observe privateUpper) (right, rightChanged)
      = .ok (rightNext, rightMarked))
    (finishable : ∀ id call, rightNext.calls.get? id = some call → call.Finishable host)
    : ((∃ last, reads.foldlM (readRecords host privateUpper) left = .ok last)
        ↔ SettledFrom records reads)
      ∧ ∀ last, reads.foldlM (readRecords host privateUpper) left = .ok last
        → Related host last rightNext [] := by
  induction reads generalizing left right records rightChanged with
  | nil =>
      cases observed
      refine ⟨⟨fun _ => trivial, fun _ => ⟨left, rfl⟩⟩, fun last same => ?_⟩
      cases same
      exact related
  | cons now later ih =>
      rw [List.flatten_cons, List.foldlM_append] at observed
      obtain ⟨⟨middle, middleChanged⟩, first, second⟩ := bind_eq_ok.mp observed
      obtain ⟨middleCollected, -⟩ := collected.run now first
      have before := (middleCollected.run later.flatten second).2
      have middleFinishable : ∀ id call, middle.calls.get? id = some call
          → call.Finishable host := by
        intro id call found
        obtain ⟨last, isLast, before_⟩ := before id call found
        exact (finishable id last isLast).anti before_
      -- a read whose records are all taken is taken, as its calls can be completed
      have taken : ∀ leftMiddle marked, now.foldlM (NativeTrace.observe privateUpper) (left, [])
            = .ok (leftMiddle, marked)
          → ∃ read, readRecords host privateUpper left now = .ok read
            ∧ Related host read middle [] := by
        intro leftMiddle marked ran
        have alive := related.alive_of_run now collected first ran
        obtain ⟨leftMiddle', marked', ran', distinct, relatedMiddle⟩ :=
          related.run now collected first alive
        have finish := relatedMiddle.finish middleCollected (distinct List.nodup_nil)
        obtain ⟨read, finished⟩ := finish.1.mpr fun id _ call found => middleFinishable id call found
        exact ⟨read, bind_eq_ok.mpr ⟨_, ran', finished⟩, finish.2 read finished⟩
      have step : ∀ last, (now :: later).foldlM (readRecords host privateUpper) left = .ok last
          → ∃ leftMiddle marked read,
            now.foldlM (NativeTrace.observe privateUpper) (left, []) = .ok (leftMiddle, marked)
              ∧ Related host read middle []
              ∧ later.foldlM (readRecords host privateUpper) read = .ok last := by
        intro last ran
        obtain ⟨read, one, rest⟩ := bind_eq_ok.mp ran
        obtain ⟨⟨leftMiddle, marked⟩, ranNow, -⟩ := bind_eq_ok.mp one
        obtain ⟨read', same, relatedMiddle⟩ := taken leftMiddle marked ranNow
        cases one.symm.trans same
        exact ⟨leftMiddle, marked, read, ranNow, relatedMiddle, rest⟩
      refine ⟨⟨?_, ?_⟩, fun last ran => ?_⟩
      · rintro ⟨last, ran⟩
        obtain ⟨leftMiddle, marked, read, ranNow, relatedMiddle, rest⟩ := step last ran
        refine ⟨fun record member isCall complete => ?_,
          (ih relatedMiddle middleCollected second).1.mp ⟨last, rest⟩⟩
        exact related.alive_of_run now collected first ranNow record member isCall
          ((related.forgotten_iff collected record.id).mpr complete)
      · rintro ⟨settledNow, settledLater⟩
        obtain ⟨leftMiddle, marked, ranNow, -⟩ :=
          related.run now collected first fun record member isCall forgotten =>
            settledNow record member isCall
              ((related.forgotten_iff collected record.id).mp forgotten)
        obtain ⟨read, one, relatedMiddle⟩ := taken leftMiddle marked ranNow
        obtain ⟨last, rest⟩ := (ih relatedMiddle middleCollected second).1.mpr settledLater
        exact ⟨last, bind_eq_ok.mpr ⟨read, one, rest⟩⟩
      · obtain ⟨-, -, read, -, relatedMiddle, rest⟩ := step last ran
        exact (ih relatedMiddle middleCollected second).2 last rest

end Decoded

-- Records as bytes

section Encoded

variable {privateUpper : JsString}

/-- A whole record with the padding behind it. -/
structure CompleteRecord where
  header : Bytes
  body : Bytes
  padding : Bytes
  headed : header.length = 48
  sized : uint header 40 4 = body.length
  padded : 48 + body.length + padding.length = (48 + body.length + 7) / 8 * 8

namespace CompleteRecord

def bytes (record : CompleteRecord) : Bytes := record.header ++ record.body ++ record.padding

def decoded (record : CompleteRecord) : NativeRecord :=
  { task := uint record.header 8 8
    time := uint record.header 16 8
    id := uint record.header 24 8
    kind := uint record.header 32 8
    error := int record.header 44 4
    body := record.body }

/-- The record is refused before it is looked at. -/
def Invalid (record : CompleteRecord) : Prop :=
  uint record.header 24 8 = 0 ∨ record.body.length > 4096

instance (record : CompleteRecord) : Decidable record.Invalid := inferInstanceAs (Decidable (_ ∨ _))

theorem length_bytes (record : CompleteRecord)
    : record.bytes.length = (48 + record.body.length + 7) / 8 * 8 := by
  rw [bytes, List.length_append, List.length_append, record.headed, record.padded]

end CompleteRecord

/-- The bytes of some records. -/
def bytesOf (records : List CompleteRecord) : Bytes := records.flatMap CompleteRecord.bytes

theorem uint_append {left : Bytes} {offset size : ℕ} (within : offset + size ≤ left.length)
    (right : Bytes) : uint (left ++ right) offset size = uint left offset size := by
  rw [uint, uint, List.drop_append_of_le_length (by omega),
    List.take_append_of_le_length (by rw [List.length_drop]; omega)]

/-- The first of some records is read as itself. -/
theorem readRecord_append (record : CompleteRecord) (rest : Bytes)
    : readRecord (record.bytes ++ rest)
      = if record.Invalid then .error (units "invalid native record")
        else .ok (record.decoded, record.bytes.length) := by
  have long : 48 + record.body.length ≤ (record.bytes ++ rest).length := by
    rw [List.length_append, CompleteRecord.length_bytes]
    omega
  have whole : record.bytes ++ rest = record.header ++ (record.body ++ (record.padding ++ rest)) := by
    rw [CompleteRecord.bytes, List.append_assoc, List.append_assoc]
  have body : ((record.bytes ++ rest).drop 48).take record.body.length = record.body := by
    rw [whole, ← record.headed, List.drop_left, List.take_left]
  have size : uint (record.bytes ++ rest) 40 4 = record.body.length := by
    rw [whole, uint_append (by rw [record.headed]; omega)]
    exact record.sized
  have field : ∀ offset, offset ≤ 40
      → uint (record.bytes ++ rest) offset 8 = uint record.header offset 8 := by
    intro offset within
    rw [whole, uint_append (by rw [record.headed]; omega)]
  have error : int (record.bytes ++ rest) 44 4 = int record.header 44 4 := by
    rw [int, int, whole, uint_append (by rw [record.headed])]
  unfold readRecord
  rw [if_neg (by omega)]
  simp only [size, body, field 8 (by omega), field 16 (by omega), field 24 (by omega),
    field 32 (by omega), error]
  by_cases invalid : record.Invalid
  · rw [if_pos invalid, if_pos (invalid.imp_right .inl)]
  · have fits : ¬ (uint record.header 24 8 = 0 ∨ record.body.length > 4096
        ∨ 48 + record.body.length > (record.bytes ++ rest).length) := by
      rintro (zero | large | short)
      · exact invalid (.inl zero)
      · exact invalid (.inr large)
      · omega
    rw [if_neg invalid, if_neg fits, CompleteRecord.length_bytes]
    rfl

/-- The loop over the bytes of some records takes one record after the other. -/
theorem observeBytes_bytesOf (records : List CompleteRecord) (fuel : ℕ)
    (enough : records.length ≤ fuel) (state : NativeTrace × List ℕ)
    : NativeTrace.observeBytes privateUpper fuel state (bytesOf records)
      = records.foldlM (fun state record =>
          if record.Invalid then .error (units "invalid native record")
          else NativeTrace.observe privateUpper state record.decoded) state := by
  induction records generalizing fuel state with
  | nil =>
      cases fuel with
      | zero => rfl
      | succ fuel => rfl
  | cons first rest ih =>
      obtain ⟨less, rfl⟩ : ∃ less, fuel = less + 1 :=
        ⟨fuel - 1, by rw [List.length_cons] at enough; omega⟩
      have some_ : first.bytes ++ bytesOf rest ≠ [] := by
        intro empty
        have length := congrArg List.length empty
        rw [List.length_append, CompleteRecord.length_bytes, List.length_nil] at length
        omega
      have cons_ : bytesOf (first :: rest) = first.bytes ++ bytesOf rest := List.flatMap_cons
      rw [cons_, NativeTrace.observeBytes, if_neg some_, readRecord_append, List.foldlM_cons]
      by_cases invalid : first.Invalid
      · rw [if_pos invalid, if_pos invalid]
        rfl
      · rw [if_neg invalid, if_neg invalid]
        change (NativeTrace.observe privateUpper state first.decoded).bind _ = _
        refine congrArg _ (funext fun next => ?_)
        rw [List.drop_left]
        exact ih less (by rw [List.length_cons] at enough; omega) next

theorem length_le_bytesOf (records : List CompleteRecord)
    : records.length ≤ (bytesOf records).length := by
  induction records with
  | nil => exact Nat.le_refl 0
  | cons first rest ih =>
      have length : (bytesOf (first :: rest)).length
          = first.bytes.length + (bytesOf rest).length := by
        rw [bytesOf, List.flatMap_cons, List.length_append]
        rfl
      rw [length, CompleteRecord.length_bytes, List.length_cons]
      omega

/-- Records that may be looked at are taken as they are decoded. -/
theorem foldlM_decoded (records : List CompleteRecord)
    (valid : ∀ record ∈ records, ¬ record.Invalid) (state : NativeTrace × List ℕ)
    : records.foldlM (fun state record =>
          if record.Invalid then .error (units "invalid native record")
          else NativeTrace.observe privateUpper state record.decoded) state
      = (records.map CompleteRecord.decoded).foldlM (NativeTrace.observe privateUpper) state := by
  induction records generalizing state with
  | nil => rfl
  | cons first rest ih =>
      rw [List.foldlM_cons, List.map_cons, List.foldlM_cons,
        if_neg (valid first List.mem_cons_self)]
      exact congrArg _ (funext fun next =>
        ih (fun record member => valid record (List.mem_cons_of_mem _ member)) next)

theorem valid_of_foldlM (records : List CompleteRecord) {state result : NativeTrace × List ℕ}
    (taken : records.foldlM (fun state record =>
        if record.Invalid then .error (units "invalid native record")
        else NativeTrace.observe privateUpper state record.decoded) state = .ok result)
    : ∀ record ∈ records, ¬ record.Invalid := by
  induction records generalizing state with
  | nil => exact fun record member => absurd member List.not_mem_nil
  | cons first rest ih =>
      obtain ⟨next, one, later⟩ := bind_eq_ok.mp taken
      dsimp only at one
      split_ifs at one with invalid
      intro record member
      rcases List.mem_cons.mp member with rfl | more
      · exact invalid
      · exact ih later record more

end Encoded

-- One read and many

section Reads

variable {host : Host} {privateUpper : JsString}

/-- A read of complete records is a read of what they are decoded to. -/
theorem read_bytesOf (trace : NativeTrace) (records : List CompleteRecord)
    (valid : ∀ record ∈ records, ¬ record.Invalid)
    : trace.read host privateUpper (bytesOf records)
      = readRecords host privateUpper trace (records.map CompleteRecord.decoded) := by
  rw [NativeTrace.read, readRecords,
    observeBytes_bytesOf records _ (length_le_bytesOf records), foldlM_decoded records valid]

theorem foldlM_bytesOf (reads : List (List CompleteRecord))
    (valid : ∀ record ∈ reads.flatten, ¬ record.Invalid) (trace : NativeTrace)
    : (reads.map bytesOf).foldlM (NativeTrace.read host privateUpper) trace
      = (reads.map fun records => records.map CompleteRecord.decoded).foldlM
          (readRecords host privateUpper) trace := by
  induction reads generalizing trace with
  | nil => rfl
  | cons now later ih =>
      rw [List.map_cons, List.foldlM_cons, List.map_cons, List.foldlM_cons,
        read_bytesOf trace now fun record member => valid record (List.mem_append_left _ member)]
      exact congrArg _ (funext fun next =>
        ih (fun record member => valid record (List.mem_append_right _ member)) next)

/-- The start of a trace, beside no collected calls. -/
theorem get?_start (id : ℕ) : ({} : NativeTrace).calls.get? id = none := OrderedMap.get?_empty id

theorem not_started {id : ℕ} {call : Call} (found : ({} : NativeTrace).calls.get? id = some call)
    : False := by
  rw [get?_start] at found
  cases found

theorem collected_start : Collected [] ({} : NativeTrace) [] := by
  refine ⟨fun id call found => (not_started found).elim,
    fun id other call call' found => (not_started found).elim,
    fun id call found => (not_started found).elim,
    fun record member => absurd member List.not_mem_nil, fun id present => ?_⟩
  rw [get?_start] at present
  cases present

theorem related_start (host : Host)
    : Related host ({} : NativeTrace) ({} : NativeTrace) [] :=
  ⟨rfl, rfl, rfl, fun _ _ => rfl, fun id _ => get?_start id,
    fun _ _ found => (not_started found).elim⟩

/-- Traces beside the same collected calls have the same lines. -/
theorem lines_eq_of_related {left left' right : NativeTrace}
    (related : Related host left right []) (related' : Related host left' right [])
    : left.lines = left'.lines := by
  refine List.ext_getElem? fun place => ?_
  by_cases owned : ∃ id call, right.calls.get? id = some call ∧ call.line = place
  · obtain ⟨id, call, found, rfl⟩ := owned
    have ends : ∀ {trace : NativeTrace}, Related host trace right []
        → ∃ base, right.lines[call.line]? = some base
          ∧ ∃ current, trace.lines[call.line]? = some current
            ∧ call.finish host base = .ok current := by
      intro trace related
      obtain ⟨base, isBase, callRelated⟩ := related.calls id call found
      cases callRelated with
      | forgotten _ _ _ current isLine finished =>
          exact ⟨base, isBase, current, isLine, finished⟩
      | kept _ _ _ current isLine _ settled =>
          exact ⟨base, isBase, current, isLine, (settled List.not_mem_nil).1⟩
    obtain ⟨base, isBase, current, isLine, finished⟩ := ends related
    obtain ⟨base', isBase', current', isLine', finished'⟩ := ends related'
    cases isBase.symm.trans isBase'
    cases finished.symm.trans finished'
    rw [isLine, isLine']
  · have free : ∀ id call, right.calls.get? id = some call → call.line ≠ place :=
      fun id call found same => owned ⟨id, call, found, same⟩
    rw [related.others place free, related'.others place free]

/-- If one read of all records is taken, then reads that end between records are all taken
exactly when no record of a call comes in a later read than the one that completed it; and reads
that are taken give the lines and the index of the one read.
-/
theorem reads_independent (host : Host) (privateUpper : JsString)
    (reads : List (List CompleteRecord)) (single : NativeTrace)
    (accepted : NativeTrace.read host privateUpper {} (bytesOf reads.flatten) = .ok single)
    : ((∃ last, (reads.map bytesOf).foldlM (NativeTrace.read host privateUpper) {} = .ok last)
        ↔ Settled (reads.map fun records => records.map CompleteRecord.decoded))
      ∧ ∀ last, (reads.map bytesOf).foldlM (NativeTrace.read host privateUpper) {} = .ok last
        → last.processLines = single.processLines ∧ last.inputs = single.inputs := by
  -- the one read takes all records, so they are collected, and all calls can be completed
  have taken := accepted
  rw [NativeTrace.read] at taken
  obtain ⟨⟨right, rightChanged⟩, observed, finished⟩ := bind_eq_ok.mp taken
  rw [observeBytes_bytesOf reads.flatten _ (length_le_bytesOf _)] at observed
  have valid := valid_of_foldlM reads.flatten observed
  rw [foldlM_decoded _ valid] at observed
  obtain ⟨collected, -⟩ := collected_start.run _ observed
  obtain ⟨single', changed, ran, distinct, relatedRight⟩ :=
    (related_start host).run _ collected_start observed
      fun record _ _ forgotten => by
        rw [Forgotten, get?_start] at forgotten
        exact Bool.false_ne_true forgotten.2
  cases observed.symm.trans ran
  have ends := relatedRight.finish collected (distinct List.nodup_nil)
  have relatedSingle := ends.2 single finished
  have finishable : ∀ id call, right.calls.get? id = some call → call.Finishable host := by
    intro id call found
    exact ends.1.mp ⟨single, finished⟩ id
      (collected.marked id (by rw [found]; rfl)) call found
  have flattened : (reads.map fun records => records.map CompleteRecord.decoded).flatten
      = reads.flatten.map CompleteRecord.decoded := List.map_flatten.symm
  rw [← flattened] at observed
  obtain ⟨exact_, related⟩ :=
    readRecords_iff _ (related_start host) collected_start observed finishable
  rw [foldlM_bytesOf reads valid]
  refine ⟨exact_, fun last lastRan => ?_⟩
  have relatedLast := related last lastRan
  have lines := lines_eq_of_related relatedLast relatedSingle
  have files : last.files = single.files := relatedLast.files.trans relatedSingle.files.symm
  have index : last.index = single.index := relatedLast.index.trans relatedSingle.index.symm
  exact ⟨by rw [NativeTrace.processLines, NativeTrace.processLines, lines, files],
    by rw [NativeTrace.inputs, NativeTrace.inputs, index]⟩

/-- Some bytes that are zero, up to a first one. -/
def small (value : UInt8) (size : ℕ) : Bytes := value :: List.replicate (size - 1) 0

/-- The header of a record of the first call of task 1. -/
def headerOf (kind size : UInt8) : Bytes :=
  small 0 8 ++ small 1 8 ++ small 0 8 ++ small 1 8 ++ small kind 8 ++ small size 4 ++ small 0 4

/-- The entry of a read from a position, its return and its path. -/
def entryRecord : CompleteRecord where
  header := headerOf 8 56
  body := small 0 8 ++ small 17 8 ++ small 0 40
  padding := []
  headed := rfl
  sized := rfl
  padded := rfl

def returnRecord : CompleteRecord where
  header := headerOf 6 32
  body := small 17 8 ++ small 0 24
  padding := []
  headed := rfl
  sized := rfl
  padded := rfl

def pathRecord : CompleteRecord where
  header := headerOf 7 1
  body := [47]
  padding := List.replicate 7 0
  headed := rfl
  sized := rfl
  padded := rfl

def exampleHost : Host := ⟨fun _ => none, fun _ => []⟩

theorem exists_of_isOk {ε α : Type*} {result : Except ε α} (isOk : result.isOk = true)
    : ∃ value, result = .ok value := by
  cases result with
  | error problem => cases isOk
  | ok value => exact ⟨value, rfl⟩

/-- The path may come in a read of its own while the return is not there. -/
theorem reads_independent_path
    : ∃ last, ([[entryRecord], [pathRecord, returnRecord]].map bytesOf).foldlM
        (NativeTrace.read exampleHost []) {} = .ok last := by
  have taken : (NativeTrace.read exampleHost [] {}
      (bytesOf [entryRecord, pathRecord, returnRecord])).isOk = true := by
    decide +kernel
  obtain ⟨single, accepted⟩ := exists_of_isOk taken
  refine (reads_independent exampleHost [] [[entryRecord], [pathRecord, returnRecord]] single
    accepted).1.mpr ⟨?_, ?_, trivial⟩
  · rintro record - - ⟨⟨other, member, -⟩, -⟩
    exact absurd member List.not_mem_nil
  · rintro record - - ⟨⟨other, member, -, kind, -⟩, -⟩
    change other ∈ [entryRecord.decoded] at member
    rw [List.mem_singleton.mp member] at kind
    exact absurd kind (by decide)

/-- A path that comes in a later read than the return finds no call. -/
theorem reads_dependent
    : ¬ ∀ (host : Host) (privateUpper : JsString) (reads : List (List CompleteRecord))
        (single : NativeTrace),
      NativeTrace.read host privateUpper {} (bytesOf reads.flatten) = .ok single
        → ∃ last, (reads.map bytesOf).foldlM (NativeTrace.read host privateUpper) {} = .ok last
          ∧ last.processLines = single.processLines ∧ last.inputs = single.inputs := by
  intro independent
  have taken : (NativeTrace.read exampleHost [] {}
      (bytesOf [entryRecord, returnRecord, pathRecord])).isOk = true := by
    decide +kernel
  have refused : (([[entryRecord, returnRecord], [pathRecord]].map bytesOf).foldlM
      (NativeTrace.read exampleHost []) {}).isOk = false := by
    decide +kernel
  obtain ⟨single, accepted⟩ := exists_of_isOk taken
  obtain ⟨last, ran, -⟩ :=
    independent exampleHost [] [[entryRecord, returnRecord], [pathRecord]] single accepted
  rw [ran] at refused
  cases refused

end Reads

end SpeculativeAction.NativeMetadata
