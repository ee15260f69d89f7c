import MidIR.Kind
import MidIR.Proofs.Binary.Script

noncomputable section

namespace MidIR

open Decoder

structure Scripted {α : Type} (decode : Decoder α) where
  script : Script α
  decode_script : script.decode = decode

namespace Scripted

variable {α β : Type}

def value (a : α) : Scripted (pure a) := ⟨.value a, rfl⟩

def take (n : Nat) : Scripted (take n) := ⟨.take n, rfl⟩

noncomputable def bind {decode : Decoder α} {next : α → Decoder β} (first : Scripted decode)
    (second : (a : α) → Scripted (next a)) : Scripted (decode >>= next) where
  script := .andThen first.script fun a => (second a).script
  decode_script := by
    simp only [Script.decode, first.decode_script, (second _).decode_script]

def map {decode : Decoder α} (first : Scripted decode) (make : α → β) :
    Scripted (decode >>= fun a => pure (make a)) :=
  first.bind fun a => .value (make a)

def nested {decode : Decoder α} (inner : Scripted decode) : Scripted (nested decode) where
  script := .nested inner.script
  decode_script := by simp only [Script.decode, inner.decode_script]

def room {next : Nat → Decoder α} (scripted : (levels : Nat) → Scripted (next levels)) :
    Scripted (do next (maxDepth - (← get).depth)) where
  script := .room fun levels => (scripted levels).script
  decode_script := by simp only [Script.decode, (scripted _).decode_script]

def full : Scripted (do throw (.tooDeep (← get).offset) : Decoder α) := ⟨.full, rfl⟩

def number (width : Nat) : Scripted (number width) := (take width).map _

def u8 : Scripted u8 := (number 1).map _

def u16 : Scripted u16 := (number 2).map _

def u32 : Scripted u32 := (number 4).map _

def u64 : Scripted u64 := (number 8).map _

def i64 : Scripted i64 := u64.map _

def bool : Scripted bool where
  script := .judge u8.script fun byte =>
    if byte = 0 then .ok false else if byte = 1 then .ok true else .error (.bool byte)
  decode_script := by
    simp only [Script.decode, u8.decode_script, Decoder.bool]
    congr 1
    funext reader
    congr 1
    funext byte
    symm
    split
    · rfl
    · rfl
    · rw [if_neg (by assumption), if_neg (by assumption)]
      rfl

def bytes : Scripted bytes := u32.bind fun count => take count.toNat

def text : Scripted text where
  script := .judge bytes.script fun bs =>
    match String.fromUTF8? ⟨bs.toArray⟩ with
    | some text => .ok text
    | none => .error .utf8
  decode_script := by
    simp only [Script.decode, bytes.decode_script, Decoder.text]
    congr 1
    funext reader
    congr 1
    funext bs
    cases String.fromUTF8? ⟨bs.toArray⟩ <;> rfl

def tag (entity : String) (names : NameTable α) : Scripted (tag entity names) where
  script := .judge text.script fun name =>
    match names.find? name with
    | some value => .ok value
    | none => .error (.tag entity name)
  decode_script := by
    simp only [Script.decode, text.decode_script, Decoder.tag]
    funext reader
    change (Decoder.text >>= _) reader = (Decoder.text >>= _) reader
    refine congrFun (congrArg (Decoder.text >>= ·) (funext fun name => ?_)) reader
    cases names.find? name <;> rfl

def times {decode : Decoder α} (item : Scripted decode) : (n : Nat) → Scripted (times decode n)
  | 0 => .value []
  | n + 1 => item.bind fun a => (item.times n).map (a :: ·)

def seq {decode : Decoder α} (item : Scripted decode) : Scripted (seq decode) :=
  u32.bind fun count => item.times count.toNat

def option {decode : Decoder α} (item : Scripted decode) : Scripted (option decode) :=
  bool.bind fun
    | true => item.map some
    | false => .value none

end Scripted

class ScriptedRecord (α : Type) [Record α] where
  scripted : Scripted (Record.decode (α := α))

open ScriptedRecord Scripted

instance : ScriptedRecord UInt32 := ⟨.u32⟩

instance : ScriptedRecord UInt64 := ⟨.u64⟩

instance : ScriptedRecord String := ⟨.text⟩

instance : ScriptedRecord ItemPath :=
  ⟨Scripted.text.bind fun _ => Scripted.text.seq.map _⟩

instance : ScriptedRecord Scalar := ⟨.tag _ _⟩

instance : ScriptedRecord RefKind := ⟨.tag _ _⟩

instance : ScriptedRecord BinaryOp := ⟨.tag _ _⟩

instance : ScriptedRecord UnaryOp := ⟨.tag _ _⟩

instance : ScriptedRecord Label := ⟨Scripted.u32.map _⟩

def Ty.scriptedRecord {decode : Decoder Ty} (inner : Scripted decode) : Scripted (decodeRecord decode) :=
  (Scripted.tag _ _).bind fun form => match form with
    | .scalar => scripted.map _
    | .tuple => inner.seq.map _
    | .path => scripted.bind fun _ => inner.seq.map _
    | .ref => scripted.bind fun _ => inner.map _
    | .pointer => scripted.bind fun _ => inner.map _
    | .array => inner.bind fun _ => Scripted.u64.map _
    | .slice => inner.map _

def Ty.scriptedWithin : (levels : Nat) → Scripted (decodeWithin levels)
  | 0 => .full
  | levels + 1 => .nested (scriptedRecord (scriptedWithin levels))

instance : ScriptedRecord Ty := ⟨.room Ty.scriptedWithin⟩

instance : ScriptedRecord TypeArgs := ⟨(scripted (α := Ty)).seq.map _⟩

instance : ScriptedRecord Path := ⟨scripted.bind fun _ => scripted.map _⟩

instance : ScriptedRecord Constant :=
  ⟨(Scripted.tag _ _).bind fun form => match form with
    | .int => Scripted.i64.map _
    | .uint => Scripted.u64.map _
    | .float => Scripted.u64.map _
    | .bool => Scripted.bool.map _
    | .bytes => Scripted.bytes.map _
    | .text => Scripted.text.map _
    | .item => scripted.map _
    | .address => scripted.bind fun _ => Scripted.u64.option.map _⟩

def Place.scriptedRecord {decode : Decoder Place} (inner : Scripted decode) :
    Scripted (decodeRecord decode) :=
  (Scripted.tag _ _).bind fun form => match form with
    | .var => Scripted.u32.map _
    | .temp => Scripted.u32.map _
    | .arg => Scripted.u32.map _
    | .static => scripted.map _
    | .returnSlot => .value _
    | .field => inner.bind fun _ => Scripted.u32.map _
    | .deref => inner.map _
    | .index => inner.bind fun _ => inner.map _
    | .downcast => inner.bind fun _ => Scripted.u32.map _

def Place.scriptedWithin : (levels : Nat) → Scripted (decodeWithin levels)
  | 0 => .full
  | levels + 1 => .nested (scriptedRecord (scriptedWithin levels))

instance : ScriptedRecord Place := ⟨.room Place.scriptedWithin⟩

instance : ScriptedRecord Operand :=
  ⟨(Scripted.tag _ _).bind fun form => match form with
    | .place => scripted.map _
    | .constant => scripted.map _⟩

instance : ScriptedRecord Expr :=
  ⟨(Scripted.tag _ _).bind fun form => match form with
    | .use => scripted.map _
    | .constant => scripted.map _
    | .repeated => scripted.bind fun _ => Scripted.u64.map _
    | .borrow => Scripted.u32.bind fun _ => scripted.bind fun _ => scripted.map _
    | .cast => scripted.bind fun _ => scripted.map _
    | .binary => scripted.bind fun _ => scripted.bind fun _ => scripted.map _
    | .unary => scripted.bind fun _ => scripted.map _
    | .metadataOf => scripted.map _
    | .pointerOf => scripted.map _
    | .fatPointer => scripted.bind fun _ => scripted.map _
    | .tuple => scripted.seq.map _
    | .array => scripted.seq.map _
    | .variant => scripted.bind fun _ => Scripted.u32.bind fun _ => scripted.map _
    | .struct => scripted.bind fun _ => Scripted.u32.option.bind fun _ => scripted.seq.map _⟩

instance : ScriptedRecord Callee :=
  ⟨(Scripted.tag _ _).bind fun form => match form with
    | .value => scripted.map _
    | .path => scripted.map _
    | .intrinsic => Scripted.text.bind fun _ => scripted.map _⟩

instance : ScriptedRecord Terminator :=
  ⟨(Scripted.tag _ _).bind fun form => match form with
    | .incomplete => .value _
    | .ret => .value _
    | .diverge => .value _
    | .goto => scripted.map _
    | .unwind => scripted.map _
    | .branch => scripted.bind fun _ => scripted.bind fun _ => scripted.map _
    | .switch => scripted.bind fun _ => scripted.seq.map _
    | .call => scripted.bind fun _ => scripted.seq.bind fun _ => scripted.bind fun _ =>
        scripted.bind fun _ => scripted.map _⟩

instance : ScriptedRecord Statement := ⟨scripted.bind fun _ => scripted.map _⟩

instance : ScriptedRecord Block := ⟨scripted.seq.bind fun _ => scripted.map _⟩

instance : ScriptedRecord Body :=
  ⟨scripted.seq.bind fun _ => scripted.bind fun _ => scripted.seq.bind fun _ =>
    scripted.seq.bind fun _ => scripted.seq.map _⟩

instance : (kind : Kind) → ScriptedRecord kind.Node := Kind.each

/-! ## Records in records -/

namespace Decoder

variable {α β : Type} {depth : Nat}

/-- Two decoders do the same to a reader in which so many records are open, and leave as many open. -/
def AlikeAt (depth : Nat) (decode other : Decoder α) : Prop :=
  ∀ reader : Reader, reader.depth = depth →
    decode.runOn reader = other.runOn reader ∧ (other.runOn reader).2.depth = depth

theorem depth_runOn {decode : Decoder α} (scripted : Scripted decode) (reader : Reader) :
    (decode.runOn reader).2.depth = reader.depth := by
  rw [← scripted.decode_script]
  exact (scripted.script.moves_final reader).depth

namespace AlikeAt

variable {decode other : Decoder α} {next next' : α → Decoder β}

theorem refl (scripted : Scripted decode) : AlikeAt depth decode decode :=
  fun reader stands => ⟨rfl, (depth_runOn scripted reader).trans stands⟩

theorem bind (alike : AlikeAt depth decode other) (following : ∀ a, AlikeAt depth (next a) (next' a)) :
    AlikeAt depth (decode >>= next) (other >>= next') := by
  intro reader stands
  obtain ⟨same, kept⟩ := alike reader stands
  rw [runOn_bind, runOn_bind, same]
  rcases run : other.runOn reader with ⟨_ | a, after⟩ <;> rw [run] at kept
  · exact ⟨rfl, kept⟩
  · exact following a after kept

theorem map (alike : AlikeAt depth decode other) (make : α → β) :
    AlikeAt depth (decode >>= fun a => pure (make a)) (other >>= fun a => pure (make a)) :=
  alike.bind fun a => .refl (.value (make a))

theorem times (alike : AlikeAt depth decode other) (n : Nat) :
    AlikeAt depth (times decode n) (times other n) := by
  induction n with
  | zero => exact .refl (.value [])
  | succ n ih => exact alike.bind fun a => ih.map (a :: ·)

theorem seq (alike : AlikeAt depth decode other) : AlikeAt depth (seq decode) (seq other) :=
  bind (refl Scripted.u32) fun count => alike.times count.toNat

theorem nested {reader : Reader} (alike : AlikeAt (reader.depth + 1) decode other) :
    (nested decode).runOn reader = (nested other).runOn reader := by
  by_cases room : reader.depth < maxDepth
  · rw [runOn_nested room, runOn_nested room, (alike _ rfl).1]
  · rw [runOn_nested_full (Nat.not_lt.1 room), runOn_nested_full (Nat.not_lt.1 room)]

end AlikeAt

/-- What goes by how many records may still be opened, and opens one for each, opens a record for itself and
goes on in it by how many are left. -/
theorem eq_nested {within : Nat → Decoder α} {record : Decoder α → Decoder α}
    (full : within 0 = do throw (.tooDeep (← get).offset))
    (opens : ∀ levels, within (levels + 1) = Decoder.nested (record (within levels)))
    (kept : ∀ levels reader, ((within levels).runOn reader).2.depth = reader.depth)
    (alike : ∀ depth decode other, AlikeAt depth decode other →
      AlikeAt depth (record decode) (record other)) :
    let decode : Decoder α := do within (maxDepth - (← get).depth)
    decode = Decoder.nested (record decode) := by
  intro decode
  funext reader
  change (within (maxDepth - reader.depth)).runOn reader = (Decoder.nested (record decode)).runOn reader
  by_cases room : reader.depth < maxDepth
  · have left : maxDepth - reader.depth = maxDepth - (reader.depth + 1) + 1 := by omega
    rw [left, opens]
    refine AlikeAt.nested (alike _ _ _ fun inner deeper => ?_)
    rw [← deeper]
    exact ⟨rfl, kept _ inner⟩
  · have left : maxDepth - reader.depth = 0 := by omega
    rw [left, full, runOn_nested_full (Nat.not_lt.1 room)]
    rfl

end Decoder

open Decoder.AlikeAt

theorem Ty.decode_eq_nested : Ty.decode = Decoder.nested (Ty.decodeRecord Ty.decode) := by
  refine Decoder.eq_nested rfl (fun levels => rfl)
    (fun levels => Decoder.depth_runOn (Ty.scriptedWithin levels)) fun depth decode other alike => ?_
  refine bind (refl (.tag _ _)) fun form => ?_
  cases form with
  | scalar => exact map (refl scripted) _
  | tuple => exact map (seq alike) _
  | path => exact bind (refl scripted) fun item => map (seq alike) _
  | ref => exact bind (refl scripted) fun kind => map alike _
  | pointer => exact bind (refl scripted) fun kind => map alike _
  | array => exact bind alike fun inner => map (refl .u64) _
  | slice => exact map alike _

theorem Place.decode_eq_nested : Place.decode = Decoder.nested (Place.decodeRecord Place.decode) := by
  refine Decoder.eq_nested rfl (fun levels => rfl)
    (fun levels => Decoder.depth_runOn (Place.scriptedWithin levels)) fun depth decode other alike => ?_
  refine bind (refl (.tag _ _)) fun form => ?_
  cases form with
  | var => exact map (refl .u32) _
  | temp => exact map (refl .u32) _
  | arg => exact map (refl .u32) _
  | static => exact map (refl scripted) _
  | returnSlot => exact refl (.value _)
  | field => exact bind alike fun base => map (refl .u32) _
  | deref => exact map alike _
  | index => exact bind alike fun base => map alike _
  | downcast => exact bind alike fun base => map (refl .u32) _

end MidIR

end
