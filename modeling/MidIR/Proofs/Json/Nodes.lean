import MidIR.Proofs.Json.Lawful

namespace MidIR.Json

open Lawful

/-! ## Constants -/

theorem reads_bytes (bs : List UInt8) (levels : Nat) :
    Reads (Read.list levels fun _ _ => Read.u8) levels (.array (bs.map fun b => .number b.toNat)) bs :=
  .list bs fun b _ _ _ => .u8 b

theorem accepts_bytes (levels : Nat) : Accepts (Read.list levels fun _ _ => Read.u8)
    fun bs => (array (bs.map fun b => .number b.toNat)).depth ≤ levels := by
  refine (Accepts.list fun below _ => .any Read.u8).imp ?_
  rintro bs ⟨below, inside, _⟩
  exact array_le inside fun b _ => Nat.zero_le _

theorem reads_option (value : Option UInt64) (levels : Nat) :
    Reads (Read.option Read.u64) levels (ofOption ofUInt64 value) value := by
  cases value with
  | none => exact .absent
  | some n => exact .present (.u64 n)

theorem depth_option {α : Type} {form : α → Json} (flat : ∀ a, (form a).depth = 0) (value : Option α) :
    (ofOption form value).depth = 0 := by
  cases value with
  | none => rfl
  | some a => exact flat a

instance : Lawful Constant where
  reads c levels := by
    cases c with
    | int value => exact Reads.tagged (t := Constant.Form.int) rfl fun _ _ => (Reads.i64 value).map _
    | uint value => exact .form (t := Constant.Form.uint) value rfl
    | float bits => exact .form (t := Constant.Form.float) bits rfl
    | bool value => exact Reads.tagged (t := Constant.Form.bool) rfl fun _ _ => (Reads.bool value).map _
    | bytes bs => exact Reads.tagged (t := Constant.Form.bytes) rfl fun below _ => (reads_bytes bs below).map _
    | text t => exact .form (t := Constant.Form.text) t rfl
    | item path =>
      exact Reads.tagged (t := Constant.Form.item) rfl fun below _ =>
        .record fun below _ => .map _ (.of path below)
    | address path offset =>
      exact Reads.tagged (t := Constant.Form.address) rfl fun below _ =>
        .record fun below _ => .map _ (.both (.of path below) (.one (reads_option offset below)) (by decide))
  accepts levels := by
    refine .variant fun form => ?_
    cases form with
    | int =>
      intro below inside
      refine ((Accepts.any _).map _).imp ?_
      rintro _ ⟨value, _, rfl⟩
      exact tagged_le inside (Nat.zero_le _)
    | uint => exact .form fun below inside value shallow => tagged_le inside shallow
    | float => exact .form fun below inside bits shallow => tagged_le inside shallow
    | bool =>
      intro below inside
      refine ((Accepts.any _).map _).imp ?_
      rintro _ ⟨value, _, rfl⟩
      exact tagged_le inside (Nat.zero_le _)
    | bytes =>
      intro below inside
      refine ((accepts_bytes below).map _).imp ?_
      rintro _ ⟨bs, shallow, rfl⟩
      exact tagged_le inside shallow
    | text => exact .form fun below inside t shallow => tagged_le inside shallow
    | item =>
      intro below inside
      refine (Accepts.record fun under _ => .map _ (.of _ under)).imp ?_
      rintro _ ⟨under, deeper, path, shallow, rfl⟩
      exact tagged_le inside (object_le deeper (last_le shallow))
    | address =>
      intro below inside
      refine (Accepts.record fun under _ => .map _ (.both (.of _ under)
        (.one (.any _) fun _ _ => trivial))).imp ?_
      rintro _ ⟨under, deeper, ⟨path, offset⟩, ⟨shallow, _⟩, rfl⟩
      refine tagged_le inside (object_le deeper (member_le shallow (last_le ?_)))
      rw [depth_option fun _ => rfl]
      exact Nat.zero_le _
  nest_le c := by
    cases c with
    | item path => exact le_tagged (le_object (le_first (nest_le path)))
    | address path offset => exact le_tagged (le_object (le_first (nest_le path)))
    | _ => exact Nat.zero_le _

/-! ## Places -/

theorem reads_place (p : Place) (levels : Nat) : Reads (Place.read levels) levels p.json p := by
  induction p generalizing levels with
  | var i =>
    rw [Place.read]
    exact .form (t := Place.Form.var) i rfl
  | temp i =>
    rw [Place.read]
    exact .form (t := Place.Form.temp) i rfl
  | arg i =>
    rw [Place.read]
    exact .form (t := Place.Form.arg) i rfl
  | static path =>
    rw [Place.read]
    exact .form (t := Place.Form.static) path rfl
  | returnSlot =>
    rw [Place.read]
    exact Reads.bare (t := Place.Form.returnSlot) rfl
  | field base i ih =>
    rw [Place.read]
    refine Reads.tagged (t := Place.Form.field) rfl fun below _ => ?_
    exact Reads.record fun below _ => .map _ (.both (.one (ih below)) (.of i below) (by decide))
  | deref base ih =>
    rw [Place.read]
    refine Reads.tagged (t := Place.Form.deref) rfl fun below _ => ?_
    exact Reads.record fun below _ => .map _ (.one (ih below))
  | index base position base_ih position_ih =>
    rw [Place.read]
    refine Reads.tagged (t := Place.Form.index) rfl fun below _ => ?_
    exact Reads.record fun below _ =>
      .map _ (.both (.one (base_ih below)) (.one (position_ih below)) (by decide))
  | downcast base i ih =>
    rw [Place.read]
    refine Reads.tagged (t := Place.Form.downcast) rfl fun below _ => ?_
    exact Reads.record fun below _ => .map _ (.both (.one (ih below)) (.of i below) (by decide))

theorem accepts_place (levels : Nat) : Accepts (Place.read levels) fun p => p.json.depth ≤ levels := by
  induction levels using Nat.strongRecOn with
  | ind levels ih =>
    rw [Place.read]
    refine .variant fun form => ?_
    cases form with
    | var => exact .form fun below inside i shallow => tagged_le inside shallow
    | temp => exact .form fun below inside i shallow => tagged_le inside shallow
    | arg => exact .form fun below inside i shallow => tagged_le inside shallow
    | static => exact .form fun below inside path shallow => tagged_le inside shallow
    | returnSlot => exact Nat.zero_le levels
    | field =>
      intro below inside
      refine (Accepts.record fun under deeper => .map _ (.both (.required (ih under (by omega)))
        (.of _ under))).imp ?_
      rintro _ ⟨under, deeper, ⟨base, i⟩, ⟨shallowBase, shallow⟩, rfl⟩
      exact tagged_le inside (object_le deeper (member_le shallowBase (last_le shallow)))
    | deref =>
      intro below inside
      refine (Accepts.record fun under deeper => .map _ (.required (ih under (by omega)))).imp ?_
      rintro _ ⟨under, deeper, base, shallow, rfl⟩
      exact tagged_le inside (object_le deeper (last_le shallow))
    | index =>
      intro below inside
      refine (Accepts.record fun under deeper => .map _ (.both (.required (ih under (by omega)))
        (.required (ih under (by omega))))).imp ?_
      rintro _ ⟨under, deeper, ⟨base, position⟩, ⟨shallowBase, shallow⟩, rfl⟩
      exact tagged_le inside (object_le deeper (member_le shallowBase (last_le shallow)))
    | downcast =>
      intro below inside
      refine (Accepts.record fun under deeper => .map _ (.both (.required (ih under (by omega)))
        (.of _ under))).imp ?_
      rintro _ ⟨under, deeper, ⟨base, i⟩, ⟨shallowBase, shallow⟩, rfl⟩
      exact tagged_le inside (object_le deeper (member_le shallowBase (last_le shallow)))

theorem place_nest_le (p : Place) : p.nest ≤ p.json.depth + 1 := by
  induction p with
  | static path =>
    have path := nest_le path
    simp only [Place.nest, Place.json, depth_tagged]
    omega
  | field base i ih =>
    simp only [Place.nest, Place.json, depth_tagged, depth, depthMembers]
    omega
  | deref base ih =>
    simp only [Place.nest, Place.json, depth_tagged, depth, depthMembers]
    omega
  | index base position base_ih position_ih =>
    simp only [Place.nest, Place.json, depth_tagged, depth, depthMembers]
    omega
  | downcast base i ih =>
    simp only [Place.nest, Place.json, depth_tagged, depth, depthMembers]
    omega
  | _ => exact Nat.le_add_left ..

instance : Lawful Place where
  reads := reads_place
  accepts := accepts_place
  nest_le := place_nest_le

/-! ## Operands and expressions -/

instance : Lawful Operand where
  reads value levels := by
    cases value with
    | place p => exact .form (t := Operand.Form.place) p rfl
    | constant c => exact .form (t := Operand.Form.constant) c rfl
  accepts levels := by
    refine .variant fun form => ?_
    cases form with
    | place => exact .form fun below inside p shallow => tagged_le inside shallow
    | constant => exact .form fun below inside c shallow => tagged_le inside shallow
  nest_le value := by
    cases value with
    | place p => exact le_tagged (nest_le p)
    | constant c => exact le_tagged (nest_le c)

theorem reads_index (value : Option UInt32) (levels : Nat) :
    Reads (Read.option Read.u32) levels (ofOption toJson value) value := by
  cases value with
  | none => exact .absent
  | some n => exact .present (.u32 n)

theorem reads_expr (e : Expr) (levels : Nat) : Reads (JsonForm.read levels) levels (toJson e) e := by
  cases e with
  | use value => exact .form (t := Expr.Form.use) value rfl
  | constant c => exact .form (t := Expr.Form.constant) c rfl
  | repeated value count =>
    exact Reads.tagged (t := Expr.Form.repeated) rfl fun below _ => .record fun below _ =>
      .map _ (.both (.of value below) (.of count below) (by decide))
  | borrow region kind place =>
    exact Reads.tagged (t := Expr.Form.borrow) rfl fun below _ => .record fun below _ =>
      .map _ (.both (.of region below) (.both (.of kind below) (.of place below) (by decide)) (by decide))
  | cast value ty =>
    exact Reads.tagged (t := Expr.Form.cast) rfl fun below _ => .record fun below _ =>
      .map _ (.both (.of value below) (.of ty below) (by decide))
  | binary left op right =>
    exact Reads.tagged (t := Expr.Form.binary) rfl fun below _ => .record fun below _ =>
      .map _ (.both (.of left below) (.both (.of op below) (.of right below) (by decide)) (by decide))
  | unary value op =>
    exact Reads.tagged (t := Expr.Form.unary) rfl fun below _ => .record fun below _ =>
      .map _ (.both (.of value below) (.of op below) (by decide))
  | metadataOf value => exact .form (t := Expr.Form.metadataOf) value rfl
  | pointerOf value => exact .form (t := Expr.Form.pointerOf) value rfl
  | fatPointer pointer metadata =>
    exact Reads.tagged (t := Expr.Form.fatPointer) rfl fun below _ => .record fun below _ =>
      .map _ (.both (.of pointer below) (.of metadata below) (by decide))
  | tuple values =>
    exact Reads.tagged (t := Expr.Form.tuple) rfl fun below _ => (Reads.values values below).map _
  | array values =>
    exact Reads.tagged (t := Expr.Form.array) rfl fun below _ => (Reads.values values below).map _
  | variant path index value =>
    exact Reads.tagged (t := Expr.Form.variant) rfl fun below _ => .record fun below _ =>
      .map _ (.both (.of path below) (.both (.of index below) (.of value below) (by decide)) (by decide))
  | struct path index fields =>
    exact Reads.tagged (t := Expr.Form.struct) rfl fun below _ => .record fun below _ =>
      .map _ (.both (.of path below)
        (.both (.one (reads_index index below)) (.one (.values fields below)) (by decide)) (by decide))

theorem accepts_expr (levels : Nat) :
    Accepts (JsonForm.read levels) fun e : Expr => (toJson e).depth ≤ levels := by
  refine .variant fun form => ?_
  cases form with
  | use => exact .form fun below inside value shallow => tagged_le inside shallow
  | constant => exact .form fun below inside c shallow => tagged_le inside shallow
  | repeated =>
    intro below inside
    refine (Accepts.record fun under _ => .map _ (.both (.of _ under) (.of _ under))).imp ?_
    rintro _ ⟨under, deeper, ⟨value, count⟩, ⟨shallow, shallowCount⟩, rfl⟩
    exact tagged_le inside (object_le deeper (member_le shallow (last_le shallowCount)))
  | borrow =>
    intro below inside
    refine (Accepts.record fun under _ => .map _
      (.both (.of _ under) (.both (.of _ under) (.of _ under)))).imp ?_
    rintro _ ⟨under, deeper, ⟨region, kind, place⟩, ⟨shallow, shallowKind, shallowPlace⟩, rfl⟩
    exact tagged_le inside
      (object_le deeper (member_le shallow (member_le shallowKind (last_le shallowPlace))))
  | cast =>
    intro below inside
    refine (Accepts.record fun under _ => .map _ (.both (.of _ under) (.of _ under))).imp ?_
    rintro _ ⟨under, deeper, ⟨value, ty⟩, ⟨shallow, shallowTy⟩, rfl⟩
    exact tagged_le inside (object_le deeper (member_le shallow (last_le shallowTy)))
  | binary =>
    intro below inside
    refine (Accepts.record fun under _ => .map _
      (.both (.of _ under) (.both (.of _ under) (.of _ under)))).imp ?_
    rintro _ ⟨under, deeper, ⟨left, op, right⟩, ⟨shallow, shallowOp, shallowRight⟩, rfl⟩
    exact tagged_le inside
      (object_le deeper (member_le shallow (member_le shallowOp (last_le shallowRight))))
  | unary =>
    intro below inside
    refine (Accepts.record fun under _ => .map _ (.both (.of _ under) (.of _ under))).imp ?_
    rintro _ ⟨under, deeper, ⟨value, op⟩, ⟨shallow, shallowOp⟩, rfl⟩
    exact tagged_le inside (object_le deeper (member_le shallow (last_le shallowOp)))
  | metadataOf => exact .form fun below inside value shallow => tagged_le inside shallow
  | pointerOf => exact .form fun below inside value shallow => tagged_le inside shallow
  | fatPointer =>
    intro below inside
    refine (Accepts.record fun under _ => .map _ (.both (.of _ under) (.of _ under))).imp ?_
    rintro _ ⟨under, deeper, ⟨pointer, metadata⟩, ⟨shallow, shallowMetadata⟩, rfl⟩
    exact tagged_le inside (object_le deeper (member_le shallow (last_le shallowMetadata)))
  | tuple =>
    intro below inside
    refine ((Accepts.values below).map _).imp ?_
    rintro _ ⟨values, shallow, rfl⟩
    exact tagged_le inside shallow
  | array =>
    intro below inside
    refine ((Accepts.values below).map _).imp ?_
    rintro _ ⟨values, shallow, rfl⟩
    exact tagged_le inside shallow
  | variant =>
    intro below inside
    refine (Accepts.record fun under _ => .map _
      (.both (.of _ under) (.both (.of _ under) (.of _ under)))).imp ?_
    rintro _ ⟨under, deeper, ⟨path, index, value⟩, ⟨shallow, shallowIndex, shallowValue⟩, rfl⟩
    exact tagged_le inside
      (object_le deeper (member_le shallow (member_le shallowIndex (last_le shallowValue))))
  | struct =>
    intro below inside
    refine (Accepts.record fun under _ => .map _ (.both (.of _ under)
      (.both (.one (.any _) fun _ _ => trivial) (.required (.values under))))).imp ?_
    rintro _ ⟨under, deeper, ⟨path, index, fields⟩, ⟨shallow, _, shallowFields⟩, rfl⟩
    have shallowIndex : (ofOption toJson index).depth ≤ under := by
      rw [depth_option fun _ => rfl]
      exact Nat.zero_le _
    exact tagged_le inside
      (object_le deeper (member_le shallow (member_le shallowIndex (last_le shallowFields))))

theorem expr_nest_le (e : Expr) : nest e ≤ (toJson e).depth + 1 := by
  cases e with
  | use value => exact le_tagged (nest_le value)
  | constant c => exact le_tagged (nest_le c)
  | repeated value count => exact le_tagged (le_object (le_first (nest_le value)))
  | borrow region kind place => exact le_tagged (le_object (le_later (le_later (le_first (nest_le place)))))
  | cast value ty =>
    refine le_tagged (le_object (Nat.max_le.2 ⟨?_, ?_⟩))
    · exact le_first (nest_le value)
    · exact le_later (le_first (nest_le ty))
  | binary left op right =>
    refine le_tagged (le_object (Nat.max_le.2 ⟨?_, ?_⟩))
    · exact le_first (nest_le left)
    · exact le_later (le_later (le_first (nest_le right)))
  | unary value op => exact le_tagged (le_object (le_first (nest_le value)))
  | metadataOf value => exact le_tagged (nest_le value)
  | pointerOf value => exact le_tagged (nest_le value)
  | fatPointer pointer metadata =>
    refine le_tagged (le_object (Nat.max_le.2 ⟨?_, ?_⟩))
    · exact le_first (nest_le pointer)
    · exact le_later (le_first (nest_le metadata))
  | tuple values => exact le_tagged (nestAll_le values)
  | array values => exact le_tagged (nestAll_le values)
  | variant path index value =>
    refine le_tagged (le_object (Nat.max_le.2 ⟨?_, ?_⟩))
    · exact le_first (nest_le path)
    · exact le_later (le_later (le_first (nest_le value)))
  | struct path index fields =>
    refine le_tagged (le_object (Nat.max_le.2 ⟨?_, ?_⟩))
    · exact le_first (nest_le path)
    · exact le_later (le_later (le_first (nestAll_le fields)))

instance : Lawful Expr where
  reads := reads_expr
  accepts := accepts_expr
  nest_le := expr_nest_le

/-! ## Terminators -/

instance : Lawful Callee where
  reads callee levels := by
    cases callee with
    | value v => exact .form (t := Callee.Form.value) v rfl
    | path p => exact .form (t := Callee.Form.path) p rfl
    | intrinsic name arguments =>
      exact Reads.tagged (t := Callee.Form.intrinsic) rfl fun below _ => .record fun below _ =>
        .map _ (.both (.of name below) (.of arguments below) (by decide))
  accepts levels := by
    refine .variant fun form => ?_
    cases form with
    | value => exact .form fun below inside v shallow => tagged_le inside shallow
    | path => exact .form fun below inside p shallow => tagged_le inside shallow
    | intrinsic =>
      intro below inside
      refine (Accepts.record fun under _ => .map _ (.both (.of _ under) (.of _ under))).imp ?_
      rintro _ ⟨under, deeper, ⟨name, arguments⟩, ⟨shallow, shallowArguments⟩, rfl⟩
      exact tagged_le inside (object_le deeper (member_le shallow (last_le shallowArguments)))
  nest_le callee := by
    cases callee with
    | value v => exact le_tagged (nest_le v)
    | path p => exact le_tagged (nest_le p)
    | intrinsic name arguments => exact le_tagged (le_object (le_later (le_first (nest_le arguments))))

theorem reads_terminator (terminator : Terminator) (levels : Nat) :
    Reads (JsonForm.read levels) levels (toJson terminator) terminator := by
  cases terminator with
  | incomplete => exact .bare (t := Terminator.Form.incomplete) rfl
  | ret => exact .bare (t := Terminator.Form.ret) rfl
  | diverge => exact .bare (t := Terminator.Form.diverge) rfl
  | goto target => exact .form (t := Terminator.Form.goto) target rfl
  | unwind target =>
    exact Reads.tagged (t := Terminator.Form.unwind) rfl fun below _ => .record fun below _ =>
      .map _ (.of target below)
  | branch condition yes no =>
    exact Reads.tagged (t := Terminator.Form.branch) rfl fun below _ => .record fun below _ =>
      .map _ (.both (.of condition below) (.both (.of yes below) (.of no below) (by decide)) (by decide))
  | switch value targets =>
    exact Reads.tagged (t := Terminator.Form.switch) rfl fun below _ => .record fun below _ =>
      .map _ (.both (.of value below) (.one (.values targets below)) (by decide))
  | call callee arguments result returns unwinds =>
    exact Reads.tagged (t := Terminator.Form.call) rfl fun below _ => .record fun below _ =>
      .map _ (.both (.of callee below) (.both (.one (.values arguments below)) (.both (.of result below)
        (.both (.of returns below) (.of unwinds below) (by decide)) (by decide)) (by decide)) (by decide))

theorem accepts_terminator (levels : Nat) :
    Accepts (JsonForm.read levels) fun terminator : Terminator => (toJson terminator).depth ≤ levels := by
  refine .variant fun form => ?_
  cases form with
  | incomplete => exact Nat.zero_le levels
  | ret => exact Nat.zero_le levels
  | diverge => exact Nat.zero_le levels
  | goto => exact .form fun below inside target shallow => tagged_le inside shallow
  | unwind =>
    intro below inside
    refine (Accepts.record fun under _ => .map _ (.of _ under)).imp ?_
    rintro _ ⟨under, deeper, target, shallow, rfl⟩
    exact tagged_le inside (object_le deeper (last_le shallow))
  | branch =>
    intro below inside
    refine (Accepts.record fun under _ => .map _
      (.both (.of _ under) (.both (.of _ under) (.of _ under)))).imp ?_
    rintro _ ⟨under, deeper, ⟨condition, yes, no⟩, ⟨shallow, shallowYes, shallowNo⟩, rfl⟩
    exact tagged_le inside
      (object_le deeper (member_le shallow (member_le shallowYes (last_le shallowNo))))
  | switch =>
    intro below inside
    refine (Accepts.record fun under _ => .map _
      (.both (.of _ under) (.required (.values under)))).imp ?_
    rintro _ ⟨under, deeper, ⟨value, targets⟩, ⟨shallow, shallowTargets⟩, rfl⟩
    exact tagged_le inside (object_le deeper (member_le shallow (last_le shallowTargets)))
  | call =>
    intro below inside
    refine (Accepts.record fun under _ => .map _ (.both (.of _ under) (.both (.required (.values under))
      (.both (.of _ under) (.both (.of _ under) (.of _ under)))))).imp ?_
    rintro _ ⟨under, deeper, ⟨callee, arguments, result, returns, unwinds⟩,
      ⟨shallow, shallowArguments, shallowResult, shallowReturns, shallowUnwinds⟩, rfl⟩
    refine tagged_le inside (object_le deeper (member_le shallow (member_le shallowArguments ?_)))
    exact member_le shallowResult (member_le shallowReturns (last_le shallowUnwinds))

theorem terminator_nest_le (terminator : Terminator) : nest terminator ≤ (toJson terminator).depth + 1 := by
  cases terminator with
  | branch condition yes no => exact le_tagged (le_object (le_first (nest_le condition)))
  | switch value targets => exact le_tagged (le_object (le_first (nest_le value)))
  | call callee arguments result returns unwinds =>
    refine le_tagged (le_object (Nat.max_le.2 ⟨?_, Nat.max_le.2 ⟨?_, ?_⟩⟩))
    · exact le_first (nest_le callee)
    · exact le_later (le_first (nestAll_le arguments))
    · exact le_later (le_later (le_first (nest_le result)))
  | _ => exact Nat.zero_le _

instance : Lawful Terminator where
  reads := reads_terminator
  accepts := accepts_terminator
  nest_le := terminator_nest_le

/-! ## Bodies -/

instance : Lawful Statement where
  reads statement levels := .record fun below _ =>
    .map _ (.both (.of statement.target below) (.of statement.source below) (by decide))
  accepts levels := by
    refine (Accepts.record fun below _ => .map _ (.both (.of _ below) (.of _ below))).imp ?_
    rintro _ ⟨below, inside, ⟨target, source⟩, ⟨shallow, shallowSource⟩, rfl⟩
    exact object_le inside (member_le shallow (last_le shallowSource))
  nest_le statement := by
    refine le_object (Nat.max_le.2 ⟨?_, ?_⟩)
    · exact le_first (nest_le statement.target)
    · exact le_later (le_first (nest_le statement.source))

instance : Lawful Block where
  reads block levels := .record fun below _ => .map _
    (.both (.one (.values block.statements below)) (.of block.terminator below) (by decide))
  accepts levels := by
    refine (Accepts.record fun below _ => .map _
      (.both (.required (.values below)) (.of _ below))).imp ?_
    rintro _ ⟨below, inside, ⟨statements, terminator⟩, ⟨shallow, shallowTerminator⟩, rfl⟩
    exact object_le inside (member_le shallow (last_le shallowTerminator))
  nest_le block := by
    refine le_object (Nat.max_le.2 ⟨?_, ?_⟩)
    · exact le_first (nestAll_le block.statements)
    · exact le_later (le_first (nest_le block.terminator))

instance : Lawful Body where
  reads body levels := .record fun below _ => .map _
    (.both (.one (.values body.args below)) (.both (.of body.result below)
      (.both (.one (.values body.vars below)) (.both (.one (.values body.temps below))
        (.one (.values body.blocks below)) (by decide)) (by decide)) (by decide)) (by decide))
  accepts levels := by
    refine (Accepts.record fun below _ => .map _ (.both (.required (.values below)) (.both (.of _ below)
      (.both (.required (.values below))
        (.both (.required (.values below)) (.required (.values below))))))).imp ?_
    rintro _ ⟨below, inside, ⟨args, result, vars, temps, blocks⟩,
      ⟨shallow, shallowResult, shallowVars, shallowTemps, shallowBlocks⟩, rfl⟩
    refine object_le inside (member_le shallow (member_le shallowResult ?_))
    exact member_le shallowVars (member_le shallowTemps (last_le shallowBlocks))
  nest_le body := by
    refine le_object (Nat.max_le.2 ⟨?_, Nat.max_le.2 ⟨?_, Nat.max_le.2 ⟨?_, ?_⟩⟩⟩)
    · exact le_first (nestAll_le body.args)
    · exact le_later (le_first (nest_le body.result))
    · exact le_later (le_later (le_first (nestAll_le body.vars)))
    · refine Nat.max_le.2 ⟨?_, Nat.max_le.2 ⟨?_, Nat.zero_le _⟩⟩
      · exact le_later (le_later (le_later (le_first (nestAll_le body.temps))))
      · exact le_later (le_later (le_later (le_later (le_first (nestAll_le body.blocks)))))

instance : (kind : Kind) → Lawful kind.Node := Kind.each

end MidIR.Json
