import RockStream.Lib.Bytes

/-!
Contract: schema fingerprints of exchange frames
(`rockstream-runtime/src/exchange/serialization.rs`).

The fields are written one after the other, with `:` and `;` between their parts, and the text is
hashed. Names may hold these bytes too, so that one field can read like several.

Owns: the hashed text, building and validation of frames, and which pairs of schemas the text
tells apart.

Does not own: the texts of data types, the two hashes and the payload, which are parameters.
-/

namespace RockStream.Fingerprint

open Lib Lib.Bytes List

structure Field (τ : Type*) where
  name : Bytes
  dataType : τ
  nullable : Bool
deriving DecidableEq

structure ExchangeFrame where
  protocolVersion : Nat
  workloadId : Nat
  shardId : Nat
  operatorId : Nat
  epoch : Nat
  leaseToken : Nat
  schemaFingerprint : Bytes
  payload : Bytes
  checksum : Bytes

inductive FrameValidationError where
  | incompatibleProtocolVersion (received supported : Nat)
  | corruptChecksum (expected actual : Nat)
  | oversizedPayload (size max : Nat)
  | staleLeaseToken (received active : Nat)
  | schemaFingerprintMismatch (received expected : Bytes)

def currentExchangeProtocolVersion : Nat := 1

variable {τ : Type*} (debug : τ → Bytes) (blake3 : Bytes → Bytes) (crc32 : Bytes → UInt32)

def Field.text (field : Field τ) : Bytes :=
  field.name ++ [0x3a] ++ debug field.dataType ++
    [0x3a, if field.nullable then 0x31 else 0x30, 0x3b]

/-- The bytes that `compute_schema_fingerprint` feeds to the hash. -/
def schemaText (schema : List (Field τ)) : Bytes := schema.flatMap (Field.text debug)

def computeSchemaFingerprint (schema : List (Field τ)) : Bytes := blake3 (schemaText debug schema)

/-- `compute_frame_checksum`, of the fields of a frame. -/
def ExchangeFrame.computeChecksum (frame : ExchangeFrame) : UInt32 :=
  crc32 (beBytes 4 frame.protocolVersion ++ beBytes 8 frame.workloadId ++ beBytes 8 frame.shardId ++
    beBytes 8 frame.operatorId ++ beBytes 8 frame.epoch ++ beBytes 8 frame.leaseToken ++
    beBytes 4 frame.schemaFingerprint.length ++ frame.schemaFingerprint ++
    beBytes 4 frame.payload.length ++ frame.payload)

def buildExchangeFrame (workloadId shardId operatorId epoch leaseToken : Nat)
    (schema : List (Field τ)) (payload : Bytes) : ExchangeFrame :=
  let frame : ExchangeFrame :=
    { protocolVersion := currentExchangeProtocolVersion, workloadId, shardId, operatorId, epoch,
      leaseToken, schemaFingerprint := computeSchemaFingerprint debug blake3 schema, payload,
      checksum := [] }
  { frame with checksum := beBytes 4 (frame.computeChecksum crc32).toNat }

def validateExchangeFrame (frame : ExchangeFrame) (activeLease : Nat)
    (expectedSchemaFingerprint : Option Bytes) (maxBatchBytes : Nat) :
    Except FrameValidationError Unit :=
  let calculated := (frame.computeChecksum crc32).toNat
  if frame.protocolVersion ≠ currentExchangeProtocolVersion then
    .error (.incompatibleProtocolVersion frame.protocolVersion currentExchangeProtocolVersion)
  else if frame.checksum.length ≠ 4 then .error (.corruptChecksum 0 0)
  else if ofBeBytes frame.checksum ≠ calculated then
    .error (.corruptChecksum (ofBeBytes frame.checksum) calculated)
  else if maxBatchBytes < frame.payload.length then
    .error (.oversizedPayload frame.payload.length maxBatchBytes)
  else if frame.leaseToken < activeLease then
    .error (.staleLeaseToken frame.leaseToken activeLease)
  else match expectedSchemaFingerprint with
    | some expected => if frame.schemaFingerprint ≠ expected then
        .error (.schemaFingerprintMismatch frame.schemaFingerprint expected)
      else .ok ()
    | none => .ok ()

theorem Field.text_ne_nil (field : Field τ) : field.text debug ≠ [] := by
  simp [text]

/-- The lists become equal when the texts of fields of one are cut off the front of names of the
other. -/
inductive ReadsAs : List (Field τ) → List (Field τ) → Prop where
  | nil : ReadsAs [] []
  | cons {fields others} (field : Field τ) (rest : ReadsAs fields others) :
      ReadsAs (field :: fields) (field :: others)
  | within {field other : Field τ} {fields others name}
      (isName : other.name = field.text debug ++ name)
      (rest : ReadsAs fields ({ other with name := name } :: others)) :
      ReadsAs (field :: fields) (other :: others)
  | around {field other : Field τ} {fields others name}
      (isName : field.name = other.text debug ++ name)
      (rest : ReadsAs ({ field with name := name } :: fields) others) :
      ReadsAs (field :: fields) (other :: others)

/-- The text of a type holds no separator. -/
def Plain (dataType : τ) : Prop := 0x3a ∉ debug dataType ∧ 0x3b ∉ debug dataType

/-- The text of a type, read up to a separator, is that of no other type. -/
def Delimited : Prop :=
  ∀ left right leftRest rightRest,
    debug left ++ 0x3a :: leftRest = debug right ++ 0x3a :: rightRest → left = right

variable {debug} {field other : Field τ} {fields others schema : List (Field τ)}
  {rest otherRest name : Bytes}

def Field.flag (field : Field τ) : UInt8 := if field.nullable then 0x31 else 0x30

theorem Field.flag_ne_colon (field : Field τ) : field.flag ≠ 0x3a := by
  unfold flag
  split <;> decide

theorem Field.text_append (field : Field τ) (rest : Bytes) : field.text debug ++ rest =
    field.name ++ 0x3a :: (debug field.dataType ++ 0x3a :: field.flag :: 0x3b :: rest) := by
  simp [text, flag]

theorem Field.eq_of_name (delimited : Delimited debug) (sameName : field.name = other.name)
    (same : field.text debug ++ rest = other.text debug ++ otherRest) :
    field = other ∧ rest = otherRest := by
  rw [text_append, text_append, sameName, append_cancel_left_eq, cons.injEq] at same
  have sameType := delimited _ _ _ _ same.2
  rw [sameType, append_cancel_left_eq] at same
  obtain ⟨-, -, sameFlag, -, sameRest⟩ := by simpa only [cons.injEq] using same
  refine ⟨?_, sameRest⟩
  obtain ⟨name, dataType, nullable⟩ := field
  obtain ⟨otherName, otherType, otherNullable⟩ := other
  obtain rfl : name = otherName := sameName
  obtain rfl : dataType = otherType := sameType
  cases nullable <;> cases otherNullable <;> simp_all [flag]

/-- Two names that are cut at their first separators. -/
theorem name_inj {left right leftRest rightRest : Bytes} (plainLeft : 0x3a ∉ left)
    (plainRight : 0x3a ∉ right) (same : left ++ 0x3a :: leftRest = right ++ 0x3a :: rightRest) :
    left = right := by
  rcases append_eq_append_iff.mp same with ⟨more, rfl, tail⟩ | ⟨more, rfl, tail⟩
  all_goals cases more with
    | nil => simp
    | cons byte more =>
      obtain ⟨rfl, -⟩ := cons.inj tail
      simp_all

theorem eq_of_schemaText_eq (delimited : Delimited debug)
    (plain : ∀ field ∈ schema ++ others, 0x3a ∉ field.name)
    (same : schemaText debug others = schemaText debug schema) : others = schema := by
  induction others generalizing schema with
  | nil =>
    cases schema with
    | nil => rfl
    | cons field fields =>
      exact absurd (append_eq_nil_iff.mp same.symm).1 (field.text_ne_nil debug)
  | cons other others ih =>
    cases schema with
    | nil => exact absurd (append_eq_nil_iff.mp same).1 (other.text_ne_nil debug)
    | cons field fields =>
      have sameText : other.text debug ++ schemaText debug others =
          field.text debug ++ schemaText debug fields := same
      have sameName : other.name = field.name := by
        rw [Field.text_append, Field.text_append] at sameText
        exact name_inj (plain other (by simp)) (plain field (by simp)) sameText
      obtain ⟨rfl, sameRest⟩ := Field.eq_of_name delimited sameName sameText
      refine congrArg (other :: ·) (ih (fun inside mem => plain inside ?_) sameRest)
      rcases mem_append.mp mem with left | right
      · simp [left]
      · simp [right]

theorem schemaText_cut (isName : other.name = field.text debug ++ name) :
    schemaText debug (other :: others) =
      field.text debug ++ schemaText debug ({ other with name := name } :: others) := by
  simp [schemaText, Field.text, isName]

theorem ReadsAs.schemaText_eq (reads : ReadsAs debug schema others) :
    schemaText debug schema = schemaText debug others := by
  induction reads with
  | nil => rfl
  | cons field _ ih => exact congrArg (field.text debug ++ ·) ih
  | within isName _ ih =>
    rw [schemaText_cut isName, ← ih]
    rfl
  | around isName _ ih =>
    rw [schemaText_cut isName, ih]
    rfl

/-- Of two fields at the front of one text, the one with the longer name holds the other. -/
theorem Field.eq_or_cut (delimited : Delimited debug) (plain : Plain debug field.dataType)
    (plainOther : Plain debug other.dataType) {more : Bytes}
    (longer : other.name = field.name ++ more)
    (same : field.text debug ++ rest = other.text debug ++ otherRest) :
    (field = other ∧ rest = otherRest) ∨
      ∃ name, other.name = field.text debug ++ name ∧
        rest = { other with name := name : Field τ }.text debug ++ otherRest := by
  match more with
  | [] => exact .inl (eq_of_name delimited (by simp [longer]) same)
  | byte :: more =>
    refine .inr ?_
    rw [text_append, text_append, longer, append_assoc, append_cancel_left_eq, cons_append,
      cons.injEq] at same
    obtain ⟨rfl, behind⟩ := same
    -- the longer name holds the type of the shorter field
    obtain ⟨tail, rfl, split⟩ : ∃ tail, more = debug field.dataType ++ tail ∧
        0x3a :: field.flag :: 0x3b :: rest = tail ++ 0x3a :: (debug other.dataType ++
          0x3a :: other.flag :: 0x3b :: otherRest) := by
      rcases append_eq_append_iff.mp behind with ⟨tail, isMore, isTail⟩ | ⟨tail, isType, isTail⟩
      · exact ⟨tail, isMore, isTail⟩
      · cases tail with
        | nil => exact ⟨[], by simpa using isType.symm, isTail.symm⟩
        | cons byte tail =>
          obtain ⟨rfl, -⟩ := cons.inj isTail
          exact absurd (isType ▸ by simp) plain.1
    clear behind
    match tail, split with
    | [], split =>
      -- otherwise the type of the longer field would hold a separator
      have plainType := plainOther.2
      match isType : debug other.dataType with
      | [] =>
        rw [isType] at split
        exact absurd (cons.inj (cons.inj split).2).1 field.flag_ne_colon
      | [_] => simp [isType] at split
      | _ :: second :: _ => simp_all
    | [_], split => exact absurd (cons.inj (cons.inj split).2).1 field.flag_ne_colon
    | [_, _], split => simp at split
    | first :: second :: third :: name, split =>
      simp only [cons_append, cons.injEq] at split
      obtain ⟨rfl, rfl, rfl, isRest⟩ := split
      refine ⟨name, by simp [longer, text, flag], ?_⟩
      rw [isRest, text_append]
      rfl

theorem readsAs_of_schemaText_eq (delimited : Delimited debug) {schema others : List (Field τ)}
    (plain : ∀ field ∈ schema, Plain debug field.dataType)
    (plainOthers : ∀ field ∈ others, Plain debug field.dataType)
    (same : schemaText debug schema = schemaText debug others) : ReadsAs debug schema others := by
  match schema, others with
  | [], [] => exact .nil
  | [], other :: others => exact absurd (append_eq_nil_iff.mp same.symm).1 (other.text_ne_nil debug)
  | field :: fields, [] => exact absurd (append_eq_nil_iff.mp same).1 (field.text_ne_nil debug)
  | field :: fields, other :: others =>
    obtain ⟨plainField, plainFields⟩ := forall_mem_cons.mp plain
    obtain ⟨plainOther, plainRest⟩ := forall_mem_cons.mp plainOthers
    have sameText : field.text debug ++ schemaText debug fields =
        other.text debug ++ schemaText debug others := same
    have names := sameText
    rw [Field.text_append, Field.text_append] at names
    rcases append_eq_append_iff.mp names with ⟨more, longer, -⟩ | ⟨more, longer, -⟩
    · rcases Field.eq_or_cut delimited plainField plainOther longer sameText with
        ⟨rfl, sameRest⟩ | ⟨name, isName, sameRest⟩
      · exact .cons field (readsAs_of_schemaText_eq delimited plainFields plainRest sameRest)
      · exact .within isName (readsAs_of_schemaText_eq delimited plainFields
          (forall_mem_cons.mpr ⟨plainOther, plainRest⟩) sameRest)
    · rcases Field.eq_or_cut delimited plainOther plainField longer sameText.symm with
        ⟨rfl, sameRest⟩ | ⟨name, isName, sameRest⟩
      · exact .cons other (readsAs_of_schemaText_eq delimited plainFields plainRest sameRest.symm)
      · exact .around isName (readsAs_of_schemaText_eq delimited
          (forall_mem_cons.mpr ⟨plainField, plainFields⟩) plainRest sameRest.symm)
termination_by schema.length + others.length

theorem fingerprint_of_valid {frame : ExchangeFrame} {activeLease maxBatchBytes : Nat}
    {expected : Bytes}
    (valid : validateExchangeFrame crc32 frame activeLease (some expected) maxBatchBytes = .ok ()) :
    frame.schemaFingerprint = expected := by
  by_contra differs
  simp only [validateExchangeFrame, ne_eq, differs, not_false_eq_true, if_true] at valid
  split_ifs at valid

/-- The texts of two schemas differ, and where one is expected no frame of the other is accepted. -/
def ToldApart (debug : τ → Bytes) (blake3 : Bytes → Bytes) (crc32 : Bytes → UInt32)
    (schema other : List (Field τ)) : Prop :=
  schemaText debug other ≠ schemaText debug schema ∧
    ∀ workloadId shardId operatorId epoch leaseToken payload activeLease maxBatchBytes,
      validateExchangeFrame crc32 (buildExchangeFrame debug blake3 crc32 workloadId shardId
        operatorId epoch leaseToken other payload) activeLease
        (some (computeSchemaFingerprint debug blake3 schema)) maxBatchBytes ≠ .ok ()

theorem toldApart_of_ne (injective : blake3.Injective)
    (differs : schemaText debug others ≠ schemaText debug schema) :
    ToldApart debug blake3 crc32 schema others := by
  refine ⟨differs, ?_⟩
  intro workloadId shardId operatorId epoch leaseToken payload activeLease maxBatchBytes accepted
  exact differs (injective (fingerprint_of_valid crc32 accepted))

/-- Two different schemas are told apart where no name holds a separator, whatever the types. Where
the types' texts hold none, they are told apart exactly when they do not become equal by cutting
fields off the front of names. -/
theorem fingerprint_tells_apart (delimited : Delimited debug) (injective : blake3.Injective)
    (schema other : List (Field τ)) :
    ((∀ field ∈ schema ++ other, 0x3a ∉ field.name) → other ≠ schema →
        ToldApart debug blake3 crc32 schema other) ∧
      ((∀ field ∈ schema ++ other, Plain debug field.dataType) →
        (ToldApart debug blake3 crc32 schema other ↔ ¬ ReadsAs debug schema other)) := by
  refine ⟨fun plain differs => ?_, fun plain => ?_⟩
  · exact toldApart_of_ne blake3 crc32 injective fun same =>
      differs (eq_of_schemaText_eq delimited plain same)
  · rw [forall_mem_append] at plain
    constructor
    · intro apart reads
      exact apart.1 reads.schemaText_eq.symm
    · intro different
      exact toldApart_of_ne blake3 crc32 injective fun same =>
        different (readsAs_of_schemaText_eq delimited plain.1 plain.2 same.symm)

/-- The texts of the types `Int64` (`false`) and `Utf8` (`true`). -/
def sampleDebug : Bool → Bytes
  | false => [0x49, 0x6e, 0x74, 0x36, 0x34]
  | true => [0x55, 0x74, 0x66, 0x38]

/-- Columns `a`, `b` of type `Int64`, and `a` of type `Int64` beside `c` of type `Utf8`. -/
theorem fingerprint_tells_apart_sample :
    let schema : List (Field Bool) := [⟨[0x61], false, false⟩, ⟨[0x62], false, false⟩]
    let other : List (Field Bool) := [⟨[0x61], false, false⟩, ⟨[0x63], true, true⟩]
    ToldApart sampleDebug id (fun _ => 7) schema other ∧ ¬ ReadsAs sampleDebug schema other := by
  intro schema other
  have delimited : Delimited sampleDebug := by
    intro left right leftRest rightRest same
    cases left <;> cases right <;> simp_all [sampleDebug]
  have plain : ∀ field ∈ schema ++ other, Plain sampleDebug field.dataType := by
    unfold Plain
    decide
  obtain ⟨told, toldIff⟩ :=
    fingerprint_tells_apart id (fun _ => 7) delimited Function.injective_id schema other
  have apart := told (by decide) (by decide)
  exact ⟨apart, (toldIff plain).mp apart⟩

/-- The `Int64` fields `a` and `b`, and the one field `a:Int64:0;b`: a frame of one schema is
accepted where the other is expected. -/
theorem fingerprint_confuses :
    let schema : List (Field Bool) := [⟨[0x61], false, false⟩, ⟨[0x62], false, false⟩]
    let other : List (Field Bool) :=
      [⟨[0x61, 0x3a] ++ sampleDebug false ++ [0x3a, 0x30, 0x3b, 0x62], false, false⟩]
    other ≠ schema ∧ schemaText sampleDebug other = schemaText sampleDebug schema ∧
    validateExchangeFrame (fun _ => 7)
      (buildExchangeFrame sampleDebug id (fun _ => 7) 1 1 1 1 1 other []) 1
      (some (computeSchemaFingerprint sampleDebug id schema)) 1024 = .ok () :=
  ⟨by decide, by decide, rfl⟩

end RockStream.Fingerprint
