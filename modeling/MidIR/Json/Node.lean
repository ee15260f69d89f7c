import MidIR.Body.Basic
import MidIR.Json.Read
import MidIR.Json.Value

namespace MidIR

class JsonForm (α : Type) where
  toJson : α → Json
  read : (levels : Nat) → Json.Read α

export JsonForm (toJson)

open Json (Read Variant Fields)

namespace Json

def ofUInt32 (n : UInt32) : Json := .number n.toNat

def ofUInt64 (n : UInt64) : Json := .number n.toNat

def ofList {α : Type} [JsonForm α] (values : List α) : Json := .array (values.map toJson)

def ofOption {α : Type} (toJson : α → Json) : Option α → Json
  | none => .null
  | some value => toJson value

def tagged (name : String) (payload : Json) : Json := .object [(name, payload)]

def Read.values {α : Type} [JsonForm α] (levels : Nat) : Read (List α) :=
  Read.list levels fun below _ => JsonForm.read below

def Read.named {α : Type} (names : NameTable α) (levels : Nat) : Read α :=
  Read.variant levels names .bare

def Variant.of {levels : Nat} {α β : Type} [JsonForm α] (make : α → β) : Variant levels β :=
  .holds fun below _ => make <$> JsonForm.read below

def Variant.record {levels : Nat} {α : Type} (fields : (below : Nat) → Fields α) : Variant levels α :=
  .holds fun below _ => Read.record below fun below _ => fields below

def Fields.of {α : Type} [JsonForm α] (name : String) (levels : Nat) : Fields α :=
  .one name (JsonForm.read levels)

end Json

open Json

instance : JsonForm UInt32 := ⟨ofUInt32, fun _ => Read.u32⟩

instance : JsonForm UInt64 := ⟨ofUInt64, fun _ => Read.u64⟩

instance : JsonForm String := ⟨.text, fun _ => Read.text⟩

instance : JsonForm Scalar := ⟨fun s => .text (Scalar.identifiers.name s), Read.named Scalar.identifiers⟩

instance : JsonForm RefKind := ⟨fun k => .text (RefKind.names.name k), Read.named RefKind.names⟩

instance : JsonForm ItemPath where
  toJson path := .object [("crate_name", .text path.package), ("components", ofList path.components)]
  read levels := Read.record levels fun below _ =>
    .map (fun (package, components) => ⟨package, components⟩) <|
      .both (.of "crate_name" below) (.one "components" (Read.values below))

namespace Ty

mutual

def json : Ty → Json
  | .scalar s => tagged "Primitive" (toJson s)
  | .tuple elements => tagged "Tuple" (.array (jsons elements))
  | .path item arguments =>
    tagged "Path" <| .object
      [("path", toJson item), ("params", .object [("types", .array (jsons arguments))])]
  | .ref kind inner => tagged "Borrow" (.object [("kind", toJson kind), ("inner", inner.json)])
  | .pointer kind inner => tagged "Pointer" (.object [("kind", toJson kind), ("inner", inner.json)])
  | .array inner size => tagged "Array" (.object [("inner", inner.json), ("size", toJson size)])
  | .slice inner => tagged "Slice" inner.json
termination_by structural t => t

def jsons : List Ty → List Json
  | [] => []
  | t :: ts => t.json :: jsons ts
termination_by structural ts => ts

end

def read (levels : Nat) : Read Ty :=
  Read.variant levels forms fun
    | .scalar => .of .scalar
    | .tuple => .holds fun below _ => .tuple <$> Read.list below fun below _ => read below
    | .path => .holds fun below _ => Read.record below fun below _ =>
        .map (fun (item, types) => .path item types) <|
          .both (.of "path" below)
            (.one "params" <| Read.record below fun below _ =>
              .one "types" <| Read.list below fun below _ => read below)
    | .ref => .holds fun below _ => Read.record below fun below _ =>
        .map (fun (kind, inner) => .ref kind inner) <|
          .both (.of "kind" below) (.one "inner" (read below))
    | .pointer => .holds fun below _ => Read.record below fun below _ =>
        .map (fun (kind, inner) => .pointer kind inner) <|
          .both (.of "kind" below) (.one "inner" (read below))
    | .array => .holds fun below _ => Read.record below fun below _ =>
        .map (fun (inner, size) => .array inner size) <|
          .both (.one "inner" (read below)) (.of "size" below)
    | .slice => .holds fun below _ => .slice <$> read below
termination_by levels

end Ty

instance : JsonForm Ty := ⟨Ty.json, Ty.read⟩

instance : JsonForm TypeArgs where
  toJson arguments := .object [("types", ofList arguments.types)]
  read levels := Read.record levels fun below _ =>
    .map TypeArgs.mk (.one "types" (Read.values below))

instance : JsonForm Path where
  toJson path := .object [("path", toJson path.item), ("params", toJson path.arguments)]
  read levels := Read.record levels fun below _ =>
    .map (fun (item, arguments) => ⟨item, arguments⟩) <|
      .both (.of "path" below) (.of "params" below)

namespace Constant

instance : JsonForm Constant where
  toJson c := tagged (forms.name c.form) <| match c with
    | .int value => .number value.toInt
    | .uint value => ofUInt64 value
    | .float bits => ofUInt64 bits
    | .bool value => .bool value
    | .bytes bs => .array (bs.map fun b => .number b.toNat)
    | .text t => .text t
    | .item path => .object [("path", toJson path)]
    | .address path offset => .object [("path", toJson path), ("offset", ofOption ofUInt64 offset)]
  read levels := Read.variant levels forms fun
    | .int => .holds fun _ _ => .int <$> Read.i64
    | .uint => .of .uint
    | .float => .of .float
    | .bool => .holds fun _ _ => .bool <$> Read.bool
    | .bytes => .holds fun below _ => .bytes <$> Read.list below fun _ _ => Read.u8
    | .text => .of .text
    | .item => .record fun below => .map .item (.of "path" below)
    | .address => .record fun below =>
        .map (fun (path, offset) => .address path offset) <|
          .both (.of "path" below) (.one "offset" (Read.option Read.u64) (some none))

end Constant

namespace Place

def json : Place → Json
  | .var i => tagged "Variable" (toJson i)
  | .temp i => tagged "Temporary" (toJson i)
  | .arg i => tagged "Argument" (toJson i)
  | .static path => tagged "Static" (toJson path)
  | .returnSlot => .text "Return"
  | .field base i => tagged "Field" (.object [("base", base.json), ("field_index", toJson i)])
  | .deref base => tagged "Deref" (.object [("base", base.json)])
  | .index base position =>
    tagged "Index" (.object [("base", base.json), ("index", position.json)])
  | .downcast base i => tagged "Downcast" (.object [("base", base.json), ("variant_index", toJson i)])

def read (levels : Nat) : Read Place :=
  Read.variant levels forms fun
    | .var => .of .var
    | .temp => .of .temp
    | .arg => .of .arg
    | .static => .of .static
    | .returnSlot => .bare .returnSlot
    | .field => .holds fun below _ => Read.record below fun below _ =>
        .map (fun (base, i) => .field base i) <|
          .both (.one "base" (read below)) (.of "field_index" below)
    | .deref => .holds fun below _ => Read.record below fun below _ =>
        .map .deref (.one "base" (read below))
    | .index => .holds fun below _ => Read.record below fun below _ =>
        .map (fun (base, position) => .index base position) <|
          .both (.one "base" (read below)) (.one "index" (read below))
    | .downcast => .holds fun below _ => Read.record below fun below _ =>
        .map (fun (base, i) => .downcast base i) <|
          .both (.one "base" (read below)) (.of "variant_index" below)
termination_by levels

end Place

instance : JsonForm Place := ⟨Place.json, Place.read⟩

namespace Operand

instance : JsonForm Operand where
  toJson
    | .place p => tagged "Place" (toJson p)
    | .constant c => tagged "Constant" (toJson c)
  read levels := Read.variant levels forms fun
    | .place => .of .place
    | .constant => .of .constant

end Operand

instance : JsonForm BinaryOp where
  toJson op := .text (BinaryOp.identifiers.name op)
  read := Read.named BinaryOp.identifiers

instance : JsonForm UnaryOp where
  toJson op := .text (UnaryOp.identifiers.name op)
  read := Read.named UnaryOp.identifiers

namespace Expr

instance : JsonForm Expr where
  toJson e := tagged (forms.name e.form) <| match e with
    | .use value | .metadataOf value | .pointerOf value => toJson value
    | .constant c => toJson c
    | .repeated value count => .object [("value", toJson value), ("count", toJson count)]
    | .borrow region kind place =>
      .object [("region", toJson region), ("kind", toJson kind), ("place", toJson place)]
    | .cast value ty => .object [("value", toJson value), ("ty", toJson ty)]
    | .binary left op right =>
      .object [("lhs", toJson left), ("op", toJson op), ("rhs", toJson right)]
    | .unary value op => .object [("value", toJson value), ("op", toJson op)]
    | .fatPointer pointer metadata => .object [("ptr", toJson pointer), ("meta", toJson metadata)]
    | .tuple values | .array values => ofList values
    | .variant path index value =>
      .object [("path", toJson path), ("index", toJson index), ("value", toJson value)]
    | .struct path index fields =>
      .object [("path", toJson path), ("variant_index", ofOption toJson index),
        ("fields", ofList fields)]
  read levels := Read.variant levels forms fun
    | .use => .of .use
    | .constant => .of .constant
    | .repeated => .record fun below =>
        .map (fun (value, count) => .repeated value count) <|
          .both (.of "value" below) (.of "count" below)
    | .borrow => .record fun below =>
        .map (fun (region, kind, place) => .borrow region kind place) <|
          .both (.of "region" below) <| .both (.of "kind" below) (.of "place" below)
    | .cast => .record fun below =>
        .map (fun (value, ty) => .cast value ty) <|
          .both (.of "value" below) (.of "ty" below)
    | .binary => .record fun below =>
        .map (fun (left, op, right) => .binary left op right) <|
          .both (.of "lhs" below) <| .both (.of "op" below) (.of "rhs" below)
    | .unary => .record fun below =>
        .map (fun (value, op) => .unary value op) <|
          .both (.of "value" below) (.of "op" below)
    | .metadataOf => .of .metadataOf
    | .pointerOf => .of .pointerOf
    | .fatPointer => .record fun below =>
        .map (fun (pointer, metadata) => .fatPointer pointer metadata) <|
          .both (.of "ptr" below) (.of "meta" below)
    | .tuple => .holds fun below _ => .tuple <$> Read.values below
    | .array => .holds fun below _ => .array <$> Read.values below
    | .variant => .record fun below =>
        .map (fun (path, index, value) => .variant path index value) <|
          .both (.of "path" below) <| .both (.of "index" below) (.of "value" below)
    | .struct => .record fun below =>
        .map (fun (path, index, fields) => .struct path index fields) <|
          .both (.of "path" below) <|
            .both (.one "variant_index" (Read.option Read.u32) (some none))
              (.one "fields" (Read.values below))

end Expr

instance : JsonForm Label where
  toJson label := toJson label.index
  read _ := Label.mk <$> Read.u32

namespace Callee

instance : JsonForm Callee where
  toJson callee := tagged (forms.name callee.form) <| match callee with
    | .value v => toJson v
    | .path p => toJson p
    | .intrinsic name arguments => .object [("name", .text name), ("params", toJson arguments)]
  read levels := Read.variant levels forms fun
    | .value => .of .value
    | .path => .of .path
    | .intrinsic => .record fun below =>
        .map (fun (name, arguments) => .intrinsic name arguments) <|
          .both (.of "name" below) (.of "params" below)

end Callee

namespace Terminator

instance : JsonForm Terminator where
  toJson terminator := match terminator with
    | .incomplete | .ret | .diverge => .text (forms.name terminator.form)
    | .goto target => tagged "Goto" (toJson target)
    | .unwind target => tagged "Panic" (.object [("dst", toJson target)])
    | .branch condition yes no => tagged "If" <| .object
        [("cond", toJson condition), ("then_block", toJson yes), ("else_block", toJson no)]
    | .switch value targets =>
      tagged "Switch" (.object [("value", toJson value), ("targets", ofList targets)])
    | .call callee arguments result returns unwinds => tagged "Call" <| .object
        [("target", toJson callee), ("args", ofList arguments), ("ret_val", toJson result),
          ("ret_block", toJson returns), ("panic_block", toJson unwinds)]
  read levels := Read.variant levels forms fun
    | .incomplete => .bare .incomplete
    | .ret => .bare .ret
    | .diverge => .bare .diverge
    | .goto => .of .goto
    | .unwind => .record fun below => .map .unwind (.of "dst" below)
    | .branch => .record fun below =>
        .map (fun (condition, yes, no) => .branch condition yes no) <|
          .both (.of "cond" below) <| .both (.of "then_block" below) (.of "else_block" below)
    | .switch => .record fun below =>
        .map (fun (value, targets) => .switch value targets) <|
          .both (.of "value" below) (.one "targets" (Read.values below))
    | .call => .record fun below =>
        .map (fun (callee, arguments, result, returns, unwinds) =>
          .call callee arguments result returns unwinds) <|
          .both (.of "target" below) <| .both (.one "args" (Read.values below)) <|
            .both (.of "ret_val" below) <| .both (.of "ret_block" below) (.of "panic_block" below)

end Terminator

instance : JsonForm Statement where
  toJson statement := .object [("dst", toJson statement.target), ("src", toJson statement.source)]
  read levels := Read.record levels fun below _ =>
    .map (fun (target, source) => ⟨target, source⟩) <| .both (.of "dst" below) (.of "src" below)

instance : JsonForm Block where
  toJson block :=
    .object [("statements", ofList block.statements), ("terminator", toJson block.terminator)]
  read levels := Read.record levels fun below _ =>
    .map (fun (statements, terminator) => ⟨statements, terminator⟩) <|
      .both (.one "statements" (Read.values below)) (.of "terminator" below)

instance : JsonForm Body where
  toJson body := .object
    [("arguments", ofList body.args), ("return_ty", toJson body.result),
      ("variables", ofList body.vars), ("temporaries", ofList body.temps),
      ("blocks", ofList body.blocks)]
  read levels := Read.record levels fun below _ =>
    .map (fun (args, result, vars, temps, blocks) =>
      ⟨args, result, vars, temps, blocks⟩) <|
      .both (.one "arguments" (Read.values below)) <| .both (.of "return_ty" below) <|
        .both (.one "variables" (Read.values below)) <|
          .both (.one "temporaries" (Read.values below)) (.one "blocks" (Read.values below))

namespace Body

def toJsonText (body : Body) : String := (toJson body).pretty

def ofJsonText (text : String) : Except Fault Body := Json.ofText JsonForm.read text

end Body

end MidIR
