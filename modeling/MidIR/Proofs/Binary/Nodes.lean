import MidIR.Proofs.Binary.Lawful

namespace MidIR

open LawfulRecord Outline

instance : LawfulRecord Path where
  outline_bytes path := by
    change (join [outline path.item, outline path.arguments]).bytes = _
    rw [join_cons_bytes, join_cons_bytes, join_nil_bytes, List.append_nil, outline_bytes, outline_bytes]
    rfl
  outline_height path := by
    refine ((outline_height path.item).cons ((outline_height path.arguments).cons .nil)).cast ?_
    rw [Nat.max_zero]
    exact Nat.zero_max _
  reads path _ inside := (reads path.item inside).bind (reads path.arguments inside).last
  yields := yields.part fun item => yields.part fun arguments => .pure rfl

/-! ## Constants -/

namespace Constant

theorem fieldOutlines_bytes (c : Constant) : (join c.fieldOutlines).bytes = c.payload := by
  cases c <;> simp only [fieldOutlines, payload, join_cons_bytes, join_nil_bytes, plain_bytes,
    byteString_bytes, option_bytes, outline_bytes, List.append_nil] <;> rfl

theorem fieldOutlines_height (c : Constant) : (join c.fieldOutlines).HasHeight c.nest := by
  cases c with
  | int value => exact (HasHeight.plain _).cons .nil
  | uint value => exact (outline_height value).cons .nil
  | float bits => exact (outline_height bits).cons .nil
  | bool value => exact (HasHeight.plain _).cons .nil
  | bytes bs => exact (HasHeight.byteString bs).cons .nil
  | text t => exact (outline_height t).cons .nil
  | item path => exact ((outline_height path).cons .nil).cast (Nat.max_zero _)
  | address path offset =>
    have parts := (outline_height path).cons ((HasHeight.option offset outline_height).cons .nil)
    exact parts.cast (Nat.max_zero _)

end Constant

instance : LawfulRecord Constant where
  outline_bytes c := by
    change (name _).bytes ++ (join c.fieldOutlines).bytes = _
    rw [c.fieldOutlines_bytes]
    rfl
  outline_height c := ((HasHeight.name _).cons c.fieldOutlines_height).cast (Nat.zero_max _)
  reads c depth inside := by
    refine (Reads.tag (by decide) c.form).bind ?_
    cases c with
    | int value => exact (Reads.i64 value).last
    | uint value => exact (Reads.u64 value).last
    | float bits => exact (Reads.u64 bits).last
    | bool value => exact (Reads.bool value).last
    | bytes bs => exact (Reads.bytes bs).last
    | text t => exact (Reads.text t).last
    | item path => exact (reads path inside).last
    | address path offset =>
      exact (reads path inside).bind (Reads.option offset fun n _ => Reads.u64 n).last
  yields := by
    refine (Yields.tag _ _).part fun form => ?_
    cases form with
    | int => exact Yields.i64.part fun value => .pure rfl
    | uint => exact Yields.u64.part fun value => .pure rfl
    | float => exact Yields.u64.part fun bits => .pure rfl
    | bool => exact Yields.bool.part fun value => .pure rfl
    | bytes => exact Yields.bytes.part fun bs => .pure rfl
    | text => exact Yields.text.part fun t => .pure rfl
    | item => exact yields.part fun path => .pure rfl
    | address => exact yields.part fun path => Yields.u64.option.part fun offset => .pure rfl

/-! ## Places -/

namespace Place

theorem outline_bytes (p : Place) : p.outline.bytes = p.encode := by
  induction p <;>
    simp only [outline, encode, record_bytes, join_cons_bytes, join_nil_bytes, name_bytes,
      LawfulRecord.outline_bytes, List.append_nil, List.append_assoc, *] <;> rfl

theorem outline_height (p : Place) : p.outline.HasHeight p.nest := by
  induction p with
  | var i => exact .record ((HasHeight.name _).cons ((LawfulRecord.outline_height i).cons .nil))
  | temp i => exact .record ((HasHeight.name _).cons ((LawfulRecord.outline_height i).cons .nil))
  | arg i => exact .record ((HasHeight.name _).cons ((LawfulRecord.outline_height i).cons .nil))
  | static path =>
    have parts := (HasHeight.name "Static").cons ((LawfulRecord.outline_height path).cons .nil)
    exact parts.record.cast (by simp only [nest]; omega)
  | returnSlot => exact .record ((HasHeight.name _).cons .nil)
  | field base i ih =>
    have parts := (HasHeight.name "Field").cons (ih.cons ((LawfulRecord.outline_height i).cons .nil))
    exact parts.record.cast (by simp only [nest, Nested.nest]; omega)
  | deref base ih =>
    have parts := (HasHeight.name "Deref").cons (ih.cons .nil)
    exact parts.record.cast (by simp only [nest]; omega)
  | index base position base_ih position_ih =>
    have parts := (HasHeight.name "Index").cons (base_ih.cons (position_ih.cons .nil))
    exact parts.record.cast (by simp only [nest]; omega)
  | downcast base i ih =>
    have parts := (HasHeight.name "Downcast").cons (ih.cons ((LawfulRecord.outline_height i).cons .nil))
    exact parts.record.cast (by simp only [nest, Nested.nest]; omega)

theorem exists_parts (p : Place) : ∃ parts, p.outline = record parts := by
  cases p <;> exact ⟨_, rfl⟩

theorem reads_within (levels : Nat) {depth : Nat} (room : depth + levels = maxDepth) (p : Place) :
    Reads depth (decodeWithin levels) p p.outline := by
  induction levels generalizing depth p with
  | zero =>
    obtain ⟨parts, equal⟩ := p.exists_parts
    rw [equal]
    exact .full room
  | succ levels ih =>
    have inside : depth ≤ maxDepth := by omega
    have inner (p : Place) : Reads (depth + 1) (decodeWithin levels) p p.outline := ih (by omega) p
    cases p with
    | var i =>
      refine .nested inside fun deeper => ?_
      exact (Reads.tag (by decide) Form.var).bind (Reads.u32 i).last
    | temp i =>
      refine .nested inside fun deeper => ?_
      exact (Reads.tag (by decide) Form.temp).bind (Reads.u32 i).last
    | arg i =>
      refine .nested inside fun deeper => ?_
      exact (Reads.tag (by decide) Form.arg).bind (Reads.u32 i).last
    | static path =>
      refine .nested inside fun deeper => ?_
      exact (Reads.tag (by decide) Form.static).bind (reads path deeper).last
    | returnSlot =>
      refine .nested inside fun deeper => ?_
      exact (Reads.tag (by decide) Form.returnSlot).bind (.pure _)
    | field base i =>
      refine .nested inside fun deeper => ?_
      exact (Reads.tag (by decide) Form.field).bind ((inner base).bind (Reads.u32 i).last)
    | deref base =>
      refine .nested inside fun deeper => ?_
      exact (Reads.tag (by decide) Form.deref).bind (inner base).last
    | index base position =>
      refine .nested inside fun deeper => ?_
      exact (Reads.tag (by decide) Form.index).bind ((inner base).bind (inner position).last)
    | downcast base i =>
      refine .nested inside fun deeper => ?_
      exact (Reads.tag (by decide) Form.downcast).bind ((inner base).bind (Reads.u32 i).last)

theorem yields_within (levels : Nat) : YieldsAs (decodeWithin levels) outline := by
  induction levels with
  | zero => exact .get fun reader => .throw _
  | succ levels ih =>
    refine .nested ((Yields.tag _ _).part fun form => ?_)
    cases form with
    | var => exact Yields.u32.part fun i => .pure ⟨_, rfl, rfl⟩
    | temp => exact Yields.u32.part fun i => .pure ⟨_, rfl, rfl⟩
    | arg => exact Yields.u32.part fun i => .pure ⟨_, rfl, rfl⟩
    | static => exact yields.part fun path => .pure ⟨_, rfl, rfl⟩
    | returnSlot => exact .pure ⟨_, rfl, rfl⟩
    | field => exact ih.part fun base => Yields.u32.part fun i => .pure ⟨_, rfl, rfl⟩
    | deref => exact ih.part fun base => .pure ⟨_, rfl, rfl⟩
    | index => exact ih.part fun base => ih.part fun position => .pure ⟨_, rfl, rfl⟩
    | downcast => exact ih.part fun base => Yields.u32.part fun i => .pure ⟨_, rfl, rfl⟩

end Place

instance : LawfulRecord Place where
  outline_bytes := Place.outline_bytes
  outline_height := Place.outline_height
  reads p _ inside := .get fun reader same => Place.reads_within _ (by omega) p
  yields := .get fun reader => Place.yields_within _

/-! ## Operands and expressions -/

instance : LawfulRecord Operand where
  outline_bytes value := by
    cases value with
    | place p =>
      change (name _).bytes ++ ((outline p).bytes ++ []) = _
      rw [List.append_nil, outline_bytes]
      rfl
    | constant c =>
      change (name _).bytes ++ ((outline c).bytes ++ []) = _
      rw [List.append_nil, outline_bytes]
      rfl
  outline_height value := by
    cases value with
    | place p =>
      refine ((HasHeight.name _).cons ((outline_height p).cons .nil)).cast ?_
      rw [Nat.max_zero, Nat.zero_max]
      rfl
    | constant c =>
      refine ((HasHeight.name _).cons ((outline_height c).cons .nil)).cast ?_
      rw [Nat.max_zero, Nat.zero_max]
      rfl
  reads value depth inside := by
    cases value with
    | place p => exact (Reads.tag (by decide) Operand.Form.place).bind (reads p inside).last
    | constant c => exact (Reads.tag (by decide) Operand.Form.constant).bind (reads c inside).last
  yields := by
    refine (Yields.tag _ _).part fun form => ?_
    cases form with
    | place => exact yields.part fun p => .pure rfl
    | constant => exact yields.part fun c => .pure rfl

namespace Expr

theorem fieldOutlines_bytes (e : Expr) : (join e.fieldOutlines).bytes = e.payload := by
  cases e <;> simp only [fieldOutlines, payload, join_cons_bytes, join_nil_bytes, seq_bytes,
    option_bytes, outline_bytes, List.append_nil, List.append_assoc] <;> rfl

theorem fieldOutlines_height (e : Expr) : (join e.fieldOutlines).HasHeight e.nest := by
  cases e with
  | use value => exact ((outline_height value).cons .nil).cast (Nat.max_zero _)
  | constant c => exact ((outline_height c).cons .nil).cast (Nat.max_zero _)
  | repeated value count =>
    exact ((outline_height value).cons ((outline_height count).cons .nil)).cast (Nat.max_zero _)
  | borrow region kind place =>
    have parts := (outline_height region).cons ((outline_height kind).cons ((outline_height place).cons .nil))
    exact parts.cast (by simp only [nest, Nested.nest]; omega)
  | cast value ty =>
    have parts := (outline_height value).cons ((outline_height ty).cons .nil)
    exact parts.cast (by simp only [nest]; omega)
  | binary left op right =>
    have parts := (outline_height left).cons ((outline_height op).cons ((outline_height right).cons .nil))
    exact parts.cast (by simp only [nest, Nested.nest]; omega)
  | unary value op =>
    exact ((outline_height value).cons ((outline_height op).cons .nil)).cast (Nat.max_zero _)
  | metadataOf value => exact ((outline_height value).cons .nil).cast (Nat.max_zero _)
  | pointerOf value => exact ((outline_height value).cons .nil).cast (Nat.max_zero _)
  | fatPointer pointer metadata =>
    have parts := (outline_height pointer).cons ((outline_height metadata).cons .nil)
    exact parts.cast (by simp only [nest]; omega)
  | tuple values => exact ((seq_height values).cons .nil).cast (Nat.max_zero _)
  | array values => exact ((seq_height values).cons .nil).cast (Nat.max_zero _)
  | variant path index value =>
    have parts := (outline_height path).cons ((outline_height index).cons ((outline_height value).cons .nil))
    exact parts.cast (by simp only [nest, Nested.nest]; omega)
  | struct path index fields =>
    have parts := (outline_height path).cons
      ((HasHeight.option index outline_height).cons ((seq_height fields).cons .nil))
    exact parts.cast (by simp only [nest]; omega)

end Expr

instance : LawfulRecord Expr where
  outline_bytes e := by
    change (name _).bytes ++ (join e.fieldOutlines).bytes = _
    rw [e.fieldOutlines_bytes]
    rfl
  outline_height e := ((HasHeight.name _).cons e.fieldOutlines_height).cast (Nat.zero_max _)
  reads e depth inside := by
    refine (Reads.tag (by decide) e.form).bind ?_
    cases e with
    | use value => exact (reads value inside).last
    | constant c => exact (reads c inside).last
    | repeated value count => exact (reads value inside).bind (Reads.u64 count).last
    | borrow region kind place =>
      exact (Reads.u32 region).bind ((reads kind inside).bind (reads place inside).last)
    | cast value ty => exact (reads value inside).bind (reads ty inside).last
    | binary left op right =>
      exact (reads left inside).bind ((reads op inside).bind (reads right inside).last)
    | unary value op => exact (reads value inside).bind (reads op inside).last
    | metadataOf value => exact (reads value inside).last
    | pointerOf value => exact (reads value inside).last
    | fatPointer pointer metadata => exact (reads pointer inside).bind (reads metadata inside).last
    | tuple values => exact (seq_reads values inside).last
    | array values => exact (seq_reads values inside).last
    | variant path index value =>
      exact (reads path inside).bind ((Reads.u32 index).bind (reads value inside).last)
    | struct path index fields =>
      exact (reads path inside).bind
        ((Reads.option index fun n _ => Reads.u32 n).bind (seq_reads fields inside).last)
  yields := by
    refine (Yields.tag _ _).part fun form => ?_
    cases form with
    | use => exact yields.part fun value => .pure rfl
    | constant => exact yields.part fun c => .pure rfl
    | repeated => exact yields.part fun value => Yields.u64.part fun count => .pure rfl
    | borrow =>
      exact Yields.u32.part fun region => yields.part fun kind => yields.part fun place => .pure rfl
    | cast => exact yields.part fun value => yields.part fun ty => .pure rfl
    | binary => exact yields.part fun left => yields.part fun op => yields.part fun right => .pure rfl
    | unary => exact yields.part fun value => yields.part fun op => .pure rfl
    | metadataOf => exact yields.part fun value => .pure rfl
    | pointerOf => exact yields.part fun value => .pure rfl
    | fatPointer => exact yields.part fun pointer => yields.part fun metadata => .pure rfl
    | tuple => exact yields.seq.part fun values => .pure rfl
    | array => exact yields.seq.part fun values => .pure rfl
    | variant =>
      exact yields.part fun path => Yields.u32.part fun index => yields.part fun value => .pure rfl
    | struct =>
      exact yields.part fun path => Yields.u32.option.part fun index =>
        yields.seq.part fun fields => .pure rfl

/-! ## Terminators, blocks and bodies -/

namespace Callee

theorem fieldOutlines_bytes (callee : Callee) : (join callee.fieldOutlines).bytes = callee.payload := by
  cases callee with
  | intrinsic name arguments =>
    simp only [fieldOutlines, payload, join_cons_bytes, join_nil_bytes, outline_bytes, List.append_nil]
    rfl
  | _ => simp only [fieldOutlines, payload, join_cons_bytes, join_nil_bytes, outline_bytes, List.append_nil]

theorem fieldOutlines_height (callee : Callee) : (join callee.fieldOutlines).HasHeight callee.nest := by
  cases callee with
  | value v => exact ((outline_height v).cons .nil).cast (Nat.max_zero _)
  | path p => exact ((outline_height p).cons .nil).cast (Nat.max_zero _)
  | intrinsic name arguments =>
    have parts := (outline_height name).cons ((outline_height arguments).cons .nil)
    exact parts.cast (by simp only [nest, Nested.nest]; omega)

end Callee

instance : LawfulRecord Callee where
  outline_bytes callee := by
    change (name _).bytes ++ (join callee.fieldOutlines).bytes = _
    rw [callee.fieldOutlines_bytes]
    rfl
  outline_height callee := ((HasHeight.name _).cons callee.fieldOutlines_height).cast (Nat.zero_max _)
  reads callee depth inside := by
    refine (Reads.tag (by decide) callee.form).bind ?_
    cases callee with
    | value v => exact (reads v inside).last
    | path p => exact (reads p inside).last
    | intrinsic name arguments => exact (Reads.text name).bind (reads arguments inside).last
  yields := by
    refine (Yields.tag _ _).part fun form => ?_
    cases form with
    | value => exact yields.part fun v => .pure rfl
    | path => exact yields.part fun p => .pure rfl
    | intrinsic => exact Yields.text.part fun name => yields.part fun arguments => .pure rfl

namespace Terminator

theorem fieldOutlines_bytes (terminator : Terminator) :
    (join terminator.fieldOutlines).bytes = terminator.payload := by
  cases terminator <;> simp only [fieldOutlines, payload, join_cons_bytes, join_nil_bytes, seq_bytes,
    outline_bytes, List.append_nil, List.append_assoc]

theorem labels_height (labels : List Label) : (Outline.seq outline labels).HasHeight 0 := by
  refine (seq_height labels).cast ?_
  induction labels with
  | nil => rfl
  | cons label labels ih => exact (Nat.zero_max _).trans ih

theorem fieldOutlines_height (terminator : Terminator) :
    (join terminator.fieldOutlines).HasHeight terminator.nest := by
  cases terminator with
  | incomplete => exact .nil
  | ret => exact .nil
  | diverge => exact .nil
  | goto target => exact (outline_height target).cons .nil
  | unwind target => exact (outline_height target).cons .nil
  | branch condition yes no =>
    have parts := (outline_height condition).cons ((outline_height yes).cons ((outline_height no).cons .nil))
    exact parts.cast (Nat.max_zero _)
  | switch value targets =>
    exact ((outline_height value).cons ((labels_height targets).cons .nil)).cast (Nat.max_zero _)
  | call callee arguments result returns unwinds =>
    have parts := (outline_height callee).cons ((seq_height arguments).cons ((outline_height result).cons
      ((outline_height returns).cons ((outline_height unwinds).cons .nil))))
    exact parts.cast (by simp only [nest, Nested.nest]; omega)

end Terminator

instance : LawfulRecord Terminator where
  outline_bytes terminator := by
    change (name _).bytes ++ (join terminator.fieldOutlines).bytes = _
    rw [terminator.fieldOutlines_bytes]
    rfl
  outline_height terminator :=
    ((HasHeight.name _).cons terminator.fieldOutlines_height).cast (Nat.zero_max _)
  reads terminator depth inside := by
    refine (Reads.tag (by decide) terminator.form).bind ?_
    cases terminator with
    | incomplete => exact .pure _
    | ret => exact .pure _
    | diverge => exact .pure _
    | goto target => exact (reads target inside).last
    | unwind target => exact (reads target inside).last
    | branch condition yes no =>
      exact (reads condition inside).bind ((reads yes inside).bind (reads no inside).last)
    | switch value targets => exact (reads value inside).bind (seq_reads targets inside).last
    | call callee arguments result returns unwinds =>
      exact (reads callee inside).bind ((seq_reads arguments inside).bind
        ((reads result inside).bind ((reads returns inside).bind (reads unwinds inside).last)))
  yields := by
    refine (Yields.tag _ _).part fun form => ?_
    cases form with
    | incomplete => exact .pure rfl
    | ret => exact .pure rfl
    | diverge => exact .pure rfl
    | goto => exact yields.part fun target => .pure rfl
    | unwind => exact yields.part fun target => .pure rfl
    | branch =>
      exact yields.part fun condition => yields.part fun yes => yields.part fun no => .pure rfl
    | switch => exact yields.part fun value => yields.seq.part fun targets => .pure rfl
    | call =>
      exact yields.part fun callee => yields.seq.part fun arguments => yields.part fun result =>
        yields.part fun returns => yields.part fun unwinds => .pure rfl

instance : LawfulRecord Statement where
  outline_bytes statement := by
    change (join [outline statement.target, outline statement.source]).bytes = _
    rw [join_cons_bytes, join_cons_bytes, join_nil_bytes, List.append_nil, outline_bytes, outline_bytes]
    rfl
  outline_height statement := by
    refine ((outline_height statement.target).cons ((outline_height statement.source).cons .nil)).cast ?_
    rw [Nat.max_zero]
    rfl
  reads statement _ inside := (reads statement.target inside).bind (reads statement.source inside).last
  yields := yields.part fun target => yields.part fun source => .pure rfl

instance : LawfulRecord Block where
  outline_bytes block := by
    change (join [Outline.seq outline block.statements, outline block.terminator]).bytes = _
    rw [join_cons_bytes, join_cons_bytes, join_nil_bytes, List.append_nil, seq_bytes, outline_bytes]
    rfl
  outline_height block := by
    refine ((seq_height block.statements).cons ((outline_height block.terminator).cons .nil)).cast ?_
    rw [Nat.max_zero]
    rfl
  reads block _ inside := (seq_reads block.statements inside).bind (reads block.terminator inside).last
  yields := yields.seq.part fun statements => yields.part fun terminator => .pure rfl

instance : LawfulRecord Body where
  outline_bytes body := by
    change (join [_, _, _, _, _]).bytes = _
    simp only [join_cons_bytes, join_nil_bytes, seq_bytes, outline_bytes, List.append_nil]
    simp only [encode, List.append_assoc]
  outline_height body :=
    (seq_height body.args).cons ((outline_height body.result).cons ((seq_height body.vars).cons
      ((seq_height body.temps).cons ((seq_height body.blocks).cons .nil))))
  reads body _ inside :=
    (seq_reads body.args inside).bind ((reads body.result inside).bind
      ((seq_reads body.vars inside).bind
        ((seq_reads body.temps inside).bind (seq_reads body.blocks inside).last)))
  yields :=
    yields.seq.part fun args => yields.part fun result => yields.seq.part fun vars =>
      yields.seq.part fun temps => yields.seq.part fun blocks => .pure rfl

instance (kind : Kind) : LawfulRecord kind.Node := by
  cases kind <;> exact inferInstance

end MidIR
