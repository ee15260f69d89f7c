import MidIR.Proofs.Binary.Session
import MidIR.Proofs.Binary.Steps

/-!
# What the decoders read

Every script is made of a few things: numbers of fixed width, bytes and texts behind their length, names
from the table of their entity, booleans, and records, which are refused only where too many are open. What
holds of these holds of every run.
-/

namespace MidIR

open Decoder Script

inductive Entity
  | scalar | refKind | ty | constant | place | operand | binaryOp | unaryOp | expr | callee | terminator

def NameTable.spellings {α : Type} (names : NameTable α) : List String := names.all.map names.name

namespace Entity

def name : Entity → String
  | .scalar => "CoreType" | .refKind => "BorrowKind" | .ty => "TypeRef" | .constant => "Constant"
  | .place => "Place" | .operand => "Operand" | .binaryOp => "BinOp" | .unaryOp => "UniOp"
  | .expr => "RValue" | .callee => "CallTarget" | .terminator => "Terminator"

/-- The names that are known of an entity. -/
def tags : Entity → List String
  | .scalar => Scalar.names.spellings
  | .refKind => RefKind.names.spellings
  | .ty => Ty.forms.spellings
  | .constant => Constant.forms.spellings
  | .place => Place.forms.spellings
  | .operand => Operand.forms.spellings
  | .binaryOp => BinaryOp.mnemonics.spellings
  | .unaryOp => UnaryOp.mnemonics.spellings
  | .expr => Expr.forms.spellings
  | .callee => Callee.forms.spellings
  | .terminator => Terminator.forms.spellings

end Entity

/-- A script for a reader inside so many records, made of what stands in binary records. -/
inductive Script.Formed : (depth : Nat) → {α : Type} → Script α → Prop
  | value {depth : Nat} {α : Type} (a : α) : Formed depth (.value a)
  | fixed {depth width : Nat} : width ∈ [1, 2, 4, 8] → Formed depth (.take width)
  | bytes {depth : Nat} : Formed depth Scripted.bytes.script
  | text {depth : Nat} : Formed depth Scripted.text.script
  | tag {depth : Nat} {α : Type} (entity : Entity) (names : NameTable α) :
    entity.tags = names.spellings → Formed depth (Scripted.tag entity.name names).script
  | bool {depth : Nat} : Formed depth Scripted.bool.script
  | andThen {depth : Nat} {α β : Type} {script : Script α} {next : α → Script β} :
    Formed depth script → (∀ a, Formed depth (next a)) → Formed depth (.andThen script next)
  | nested {depth : Nat} {α : Type} {script : Script α} :
    (depth < maxDepth → Formed (depth + 1) script) → Formed depth (.nested script)
  | room {depth : Nat} {α : Type} {next : Nat → Script α} :
    Formed depth (next (maxDepth - depth)) → Formed depth (.room next)
  | full {α : Type} : Formed maxDepth (.full (α := α))

/-! ## The decoders of records -/

namespace Scripted

def Formed {α : Type} {decode : Decoder α} (scripted : Scripted decode) (depth : Nat) : Prop :=
  Script.Formed depth scripted.script

namespace Formed

variable {α β : Type} {decode : Decoder α} {next : α → Decoder β} {depth : Nat}

theorem value (a : α) : (Scripted.value a).Formed depth := Script.Formed.value a

theorem bind {first : Scripted decode} {second : (a : α) → Scripted (next a)}
    (formed : first.Formed depth) (others : ∀ a, (second a).Formed depth) :
    (first.bind second).Formed depth :=
  Script.Formed.andThen formed others

theorem map {first : Scripted decode} {make : α → β} (formed : first.Formed depth) :
    (first.map make).Formed depth :=
  formed.bind fun a => value (make a)

theorem u8 : Scripted.u8.Formed depth := map (map (Script.Formed.fixed (by decide)))

theorem u16 : Scripted.u16.Formed depth := map (map (Script.Formed.fixed (by decide)))

theorem u32 : Scripted.u32.Formed depth := map (map (Script.Formed.fixed (by decide)))

theorem u64 : Scripted.u64.Formed depth := map (map (Script.Formed.fixed (by decide)))

theorem i64 : Scripted.i64.Formed depth := u64.map

theorem bool : Scripted.bool.Formed depth := Script.Formed.bool

theorem bytes : Scripted.bytes.Formed depth := Script.Formed.bytes

theorem text : Scripted.text.Formed depth := Script.Formed.text

theorem tag (entity : Entity) {names : NameTable α} (known : entity.tags = names.spellings) :
    (Scripted.tag entity.name names).Formed depth := Script.Formed.tag entity names known

theorem times {item : Scripted decode} (formed : item.Formed depth) (n : Nat) :
    (item.times n).Formed depth := by
  induction n with
  | zero => exact value []
  | succ n ih => exact formed.bind fun _ => ih.map

theorem seq {item : Scripted decode} (formed : item.Formed depth) : item.seq.Formed depth :=
  u32.bind fun count => formed.times count.toNat

theorem option {item : Scripted decode} (formed : item.Formed depth) : item.option.Formed depth :=
  bool.bind fun
    | true => formed.map
    | false => value none

theorem nested {inner : Scripted decode} (formed : depth < maxDepth → inner.Formed (depth + 1)) :
    inner.nested.Formed depth := Script.Formed.nested formed

end Formed

end Scripted

class FormedRecord (α : Type) [Record α] [ScriptedRecord α] : Prop where
  formed {depth : Nat} (inside : depth ≤ maxDepth) :
    (ScriptedRecord.scripted (α := α)).Formed depth

open FormedRecord Scripted

instance : FormedRecord UInt32 := ⟨fun _ => .u32⟩

instance : FormedRecord UInt64 := ⟨fun _ => .u64⟩

instance : FormedRecord String := ⟨fun _ => .text⟩

instance : FormedRecord ItemPath := ⟨fun _ => Formed.text.bind fun _ => Formed.text.seq.map⟩

instance : FormedRecord Scalar := ⟨fun _ => .tag .scalar rfl⟩

instance : FormedRecord RefKind := ⟨fun _ => .tag .refKind rfl⟩

instance : FormedRecord BinaryOp := ⟨fun _ => .tag .binaryOp rfl⟩

instance : FormedRecord UnaryOp := ⟨fun _ => .tag .unaryOp rfl⟩

instance : FormedRecord Label := ⟨fun _ => Formed.u32.map⟩

theorem Ty.formed_within (levels : Nat) {depth : Nat} (room : depth + levels = maxDepth) :
    (Ty.scriptedWithin levels).Formed depth := by
  induction levels generalizing depth with
  | zero =>
    obtain rfl : depth = maxDepth := room
    exact Script.Formed.full
  | succ levels ih =>
    refine .nested fun inside => (Formed.tag .ty rfl).bind fun form => ?_
    have inner : (Ty.scriptedWithin levels).Formed (depth + 1) := ih (by omega)
    cases form with
    | scalar => exact (formed inside).map
    | tuple => exact inner.seq.map
    | path => exact (formed inside).bind fun _ => inner.seq.map
    | ref => exact (formed inside).bind fun _ => inner.map
    | pointer => exact (formed inside).bind fun _ => inner.map
    | array => exact inner.bind fun _ => Formed.u64.map
    | slice => exact inner.map

instance : FormedRecord Ty :=
  ⟨fun inside => Script.Formed.room (Ty.formed_within _ (by omega))⟩

instance : FormedRecord TypeArgs := ⟨fun inside => (formed (α := Ty) inside).seq.map⟩

instance : FormedRecord Path := ⟨fun inside => (formed inside).bind fun _ => (formed inside).map⟩

instance : FormedRecord Constant where
  formed inside := by
    refine (Formed.tag .constant rfl).bind fun form => ?_
    cases form with
    | int => exact Formed.i64.map
    | uint => exact Formed.u64.map
    | float => exact Formed.u64.map
    | bool => exact Formed.bool.map
    | bytes => exact Formed.bytes.map
    | text => exact Formed.text.map
    | item => exact (formed inside).map
    | address => exact (formed inside).bind fun _ => Formed.u64.option.map

theorem Place.formed_within (levels : Nat) {depth : Nat} (room : depth + levels = maxDepth) :
    (Place.scriptedWithin levels).Formed depth := by
  induction levels generalizing depth with
  | zero =>
    obtain rfl : depth = maxDepth := room
    exact Script.Formed.full
  | succ levels ih =>
    refine .nested fun inside => (Formed.tag .place rfl).bind fun form => ?_
    have inner : (Place.scriptedWithin levels).Formed (depth + 1) := ih (by omega)
    cases form with
    | var => exact Formed.u32.map
    | temp => exact Formed.u32.map
    | arg => exact Formed.u32.map
    | static => exact (formed inside).map
    | returnSlot => exact .value _
    | field => exact inner.bind fun _ => Formed.u32.map
    | deref => exact inner.map
    | index => exact inner.bind fun _ => inner.map
    | downcast => exact inner.bind fun _ => Formed.u32.map

instance : FormedRecord Place :=
  ⟨fun inside => Script.Formed.room (Place.formed_within _ (by omega))⟩

instance : FormedRecord Operand where
  formed inside := by
    refine (Formed.tag .operand rfl).bind fun form => ?_
    cases form with
    | place => exact (formed inside).map
    | constant => exact (formed inside).map

instance : FormedRecord Expr where
  formed inside := by
    refine (Formed.tag .expr rfl).bind fun form => ?_
    cases form with
    | use => exact (formed inside).map
    | constant => exact (formed inside).map
    | repeated => exact (formed inside).bind fun _ => Formed.u64.map
    | borrow => exact Formed.u32.bind fun _ => (formed inside).bind fun _ => (formed inside).map
    | cast => exact (formed inside).bind fun _ => (formed inside).map
    | binary =>
      exact (formed inside).bind fun _ => (formed inside).bind fun _ => (formed inside).map
    | unary => exact (formed inside).bind fun _ => (formed inside).map
    | metadataOf => exact (formed inside).map
    | pointerOf => exact (formed inside).map
    | fatPointer => exact (formed inside).bind fun _ => (formed inside).map
    | tuple => exact (formed inside).seq.map
    | array => exact (formed inside).seq.map
    | variant => exact (formed inside).bind fun _ => Formed.u32.bind fun _ => (formed inside).map
    | struct =>
      exact (formed inside).bind fun _ => Formed.u32.option.bind fun _ => (formed inside).seq.map

instance : FormedRecord Callee where
  formed inside := by
    refine (Formed.tag .callee rfl).bind fun form => ?_
    cases form with
    | value => exact (formed inside).map
    | path => exact (formed inside).map
    | intrinsic => exact Formed.text.bind fun _ => (formed inside).map

instance : FormedRecord Terminator where
  formed inside := by
    refine (Formed.tag .terminator rfl).bind fun form => ?_
    cases form with
    | incomplete => exact .value _
    | ret => exact .value _
    | diverge => exact .value _
    | goto => exact (formed inside).map
    | unwind => exact (formed inside).map
    | branch =>
      exact (formed inside).bind fun _ => (formed inside).bind fun _ => (formed inside).map
    | switch => exact (formed inside).bind fun _ => (formed inside).seq.map
    | call =>
      exact (formed inside).bind fun _ => (formed inside).seq.bind fun _ =>
        (formed inside).bind fun _ => (formed inside).bind fun _ => (formed inside).map

instance : FormedRecord Statement :=
  ⟨fun inside => (formed inside).bind fun _ => (formed inside).map⟩

instance : FormedRecord Block :=
  ⟨fun inside => (formed inside).seq.bind fun _ => (formed inside).map⟩

instance : FormedRecord Body :=
  ⟨fun inside => (formed inside).seq.bind fun _ => (formed inside).bind fun _ =>
    (formed inside).seq.bind fun _ => (formed inside).seq.bind fun _ => (formed inside).seq.map⟩

instance (kind : Kind) : FormedRecord kind.Node := by
  cases kind with
  | ty => exact inferInstanceAs (FormedRecord Ty)
  | place => exact inferInstanceAs (FormedRecord Place)
  | _ => exact inferInstance

theorem Call.formed (call : Call) {depth : Nat} (inside : depth ≤ maxDepth) :
    call.scripted.Formed depth := by
  induction call generalizing depth with
  | u8 => exact .u8
  | u16 => exact .u16
  | u32 => exact .u32
  | u64 => exact .u64
  | i64 => exact .i64
  | float => exact .u64
  | bool => exact .bool
  | bytes => exact .bytes
  | text => exact .text
  | seq kind => exact (FormedRecord.formed inside).seq
  | option kind => exact (FormedRecord.formed inside).option
  | node kind => exact FormedRecord.formed inside
  | nested call ih => exact .nested fun room => ih room

/-! ## Where parts of records stand -/

theorem Takes.eq_skip {before after : Reader} {o : Outline} (takes : Takes before o after) :
    after = before.skip o.bytes.length := by
  obtain ⟨rest, offset, depth⟩ := after
  obtain ⟨front, rfl, rfl, -, -⟩ := takes
  rw [Reader.skip, front, List.drop_left]

namespace Scripted

variable {α β : Type} {decode : Decoder α}

theorem takes {outline : α → Outline} (scripted : Scripted decode) (yields : YieldsAs decode outline)
    {reader : Reader} {a : α} (ok : scripted.script.outcome reader = .ok a) :
    Takes reader (outline a) (scripted.script.final reader) := by
  have read : decode.runOn reader = (.ok a, scripted.script.final reader) := by
    simp only [← scripted.decode_script]
    exact Prod.ext ok rfl
  obtain ⟨_, rfl, takes⟩ := yields _ _ _ read
  exact takes

theorem steps_map (first : Scripted decode) (make : α → β) (reader : Reader) :
    (first.map make).script.steps reader = first.script.steps reader := by
  change (Script.andThen _ _).steps reader = _
  rw [Script.steps]
  cases first.script.outcome reader <;> exact List.append_nil _

theorem steps_u8 (reader : Reader) : Scripted.u8.script.steps reader = [.ask reader.offset 1] := by
  rw [u8, steps_map, number, steps_map]
  rfl

theorem steps_u32 (reader : Reader) : Scripted.u32.script.steps reader = [.ask reader.offset 4] := by
  rw [u32, steps_map, number, steps_map]
  rfl

end Scripted

/-- A part of a record: a number or a boolean, or what stands behind its length. -/
inductive Field (data : List UInt8) : (offset count : Nat) → Prop
  | fixed {offset width : Nat} : width ∈ [1, 2, 4, 8] → Field data offset width
  | payload {offset : Nat} (length : UInt32) :
    Encode.u32 length <+: data.drop offset → Field data (offset + 4) length.toNat

variable {data : List UInt8} {offset depth : Nat}

theorem Scripted.field_of_bytes {start count : Nat}
    (asked : .ask start count ∈ Scripted.bytes.script.steps (.within data offset depth)) :
    Field data start count := by
  change _ ∈ (Script.andThen Scripted.u32.script fun length => .take length.toNat).steps _ at asked
  cases counted : Scripted.u32.script.outcome (.within data offset depth) with
  | error e =>
    rw [steps_andThen_error _ counted, steps_u32, List.mem_singleton] at asked
    cases asked
    exact .fixed (by decide)
  | ok length =>
    have takes := Scripted.u32.takes .u32 counted
    rw [steps_andThen_ok _ counted, steps_u32, takes.eq_skip] at asked
    simp only [Script.steps, List.cons_append, List.nil_append, List.mem_cons, Step.ask.injEq,
      List.not_mem_nil, or_false] at asked
    rcases asked with ⟨rfl, rfl⟩ | ⟨rfl, rfl⟩
    · exact .fixed (by decide)
    · exact .payload length ⟨_, takes.rest.symm⟩

theorem Script.Formed.field {α : Type} {script : Script α} (formed : Formed depth script)
    {start count : Nat} (asked : .ask start count ∈ script.steps (.within data offset depth)) :
    Field data start count := by
  induction formed generalizing offset with
  | value a => cases asked
  | full => cases asked
  | fixed width =>
    rw [Script.steps, List.mem_singleton] at asked
    cases asked
    exact .fixed width
  | bytes => exact Scripted.field_of_bytes asked
  | text => exact Scripted.field_of_bytes asked
  | tag entity names known => exact Scripted.field_of_bytes asked
  | bool =>
    change _ ∈ Scripted.u8.script.steps _ at asked
    rw [Scripted.steps_u8, List.mem_singleton] at asked
    cases asked
    exact .fixed (by decide)
  | @andThen depth _ _ script next _ _ ih ih_next =>
    cases result : script.outcome (.within data offset depth) with
    | error e =>
      rw [steps_andThen_error next result] at asked
      exact ih asked
    | ok a =>
      rw [steps_andThen_ok next result, List.mem_append] at asked
      rcases asked with first | second
      · exact ih first
      · rw [(script.moves_final _).eq_within] at second
        exact ih_next a second
  | @nested depth _ script _ ih =>
    by_cases room : (Reader.within data offset depth).depth < maxDepth
    · rw [steps_nested_room script room] at asked
      have inner : .ask start count ∈ script.steps (.within data offset (depth + 1)) := by
        simp only [List.cons_append, List.mem_cons, List.mem_append, reduceCtorEq, false_or] at asked
        rcases asked with inner | closing
        · exact inner
        · split at closing <;> simp at closing
      exact ih room inner
    · rw [steps_nested_full script room] at asked
      cases asked
  | room _ ih => exact ih asked

end MidIR
