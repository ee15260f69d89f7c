import MidIR.Proofs.Text.Constants

namespace MidIR

open Text

namespace Text

def firstWord (text : String) : String :=
  String.ofList (text.toList.takeWhile Char.isAlpha)

theorem firstWord_append {s : String} (word : String) (letters : word.toList.all Char.isAlpha)
    (halts : Halts Char.isAlpha s) : firstWord (word ++ s) = word := by
  rw [firstWord, TellsBefore.takeWhile_append (List.all_eq_true.1 letters) halts, String.ofList_toList]

theorem firstWord_of_starts {word s : String} (letters : word.toList.all Char.isAlpha)
    (starts : Starts (word ++ "(") s) : firstWord s = word := by
  obtain ⟨r, rfl⟩ := starts
  rw [String.append_assoc]
  exact firstWord_append word letters ((Starts.refl "(").append r |>.halts rfl)

end Text

namespace Place

def leading (text : String) : Option Form :=
  forms.find? (firstWord text)

theorem starts_render (p : Place) : p = .returnSlot ∨ Starts (forms.name p.form ++ "(") p.render := by
  cases p with
  | returnSlot => exact .inl rfl
  | _ =>
    right
    unfold render
    simp only [String.append_assoc]
    exact ⟨_, rfl⟩

theorem firstWord_render (p : Place) {s : String} (halts : Halts Char.isAlpha s) :
    firstWord (p.render ++ s) = forms.name p.form := by
  have letters : ∀ f ∈ forms.all, (forms.name f).toList.all Char.isAlpha := by decide
  rcases p.starts_render with rfl | starts
  · exact firstWord_append "Return" rfl halts
  · exact firstWord_of_starts (letters _ (forms.complete _)) (starts.append s)

theorem leading_render (p : Place) {s : String} (halts : Halts Char.isAlpha s) :
    leading (p.render ++ s) = some p.form := by
  rw [leading, firstWord_render p halts, NameTable.find?_name]

theorem unlike_tell {p q : Place} {P : Prop} (differ : p.form ≠ q.form) :
    TellsBefore (Halts inConstant) p.render q.render P :=
  .unlike (fun _ halts => leading_render p halts.letters) (fun _ halts => leading_render q halts.letters) differ

theorem tells (p q : Place) (plain : p.isPlain) (plain' : q.isPlain) :
    TellsBefore (Halts inConstant) p.render q.render (p = q) := by
  induction p generalizing q with
  | var i =>
    cases q with
    | var j => exact ((TellsBefore.word i j).enclosed "Variable(" ")" (Halts.append rfl)).imp (congrArg _)
    | _ => exact unlike_tell nofun
  | temp i =>
    cases q with
    | temp j => exact ((TellsBefore.word i j).enclosed "Temporary(" ")" (Halts.append rfl)).imp (congrArg _)
    | _ => exact unlike_tell nofun
  | arg i =>
    cases q with
    | arg j => exact ((TellsBefore.word i j).enclosed "Argument(" ")" (Halts.append rfl)).imp (congrArg _)
    | _ => exact unlike_tell nofun
  | static path =>
    cases q with
    | static path' =>
      exact ((Path.tells plain plain').enclosed "Static(" ")" (Halts.append rfl)).imp (congrArg _)
    | _ => exact unlike_tell nofun
  | returnSlot =>
    cases q with
    | returnSlot => exact .same rfl
    | _ => exact unlike_tell nofun
  | field base i ih =>
    cases q with
    | field base' j =>
      apply ((TellsBefore.word i j).enclosedPair "Field(" ", " ")" (Halts.append rfl)
        (ih base' plain plain') (Halts.append rfl)).imp
      rintro ⟨rfl, rfl⟩
      rfl
    | _ => exact unlike_tell nofun
  | deref base ih =>
    cases q with
    | deref base' =>
      exact ((ih base' plain plain').enclosed "Deref(" ")" (Halts.append rfl)).imp (congrArg _)
    | _ => exact unlike_tell nofun
  | index base position ih ih' =>
    cases q with
    | index base' position' =>
      simp only [Place.isPlain, Bool.and_eq_true] at plain plain'
      apply ((ih base' plain.1 plain'.1).enclosedPair "Index(" ", " ")" (Halts.append rfl)
        (ih' position' plain.2 plain'.2) (Halts.append rfl)).imp
      rintro ⟨rfl, rfl⟩
      rfl
    | _ => exact unlike_tell nofun
  | downcast base i ih =>
    cases q with
    | downcast base' j =>
      apply ((TellsBefore.word i j).enclosedPair "Downcast(" ", " ")" (Halts.append rfl)
        (ih base' plain plain') (Halts.append rfl)).imp
      rintro ⟨rfl, rfl⟩
      rfl
    | _ => exact unlike_tell nofun

end Place

namespace Operand

/-- No constant starts with a capital letter, as every place does. -/
def leading (text : String) : Option Form :=
  if (Constant.leading text).isSome then some .constant
  else if text.toList.head?.any Char.isUpper then some .place
  else none

theorem leading_render (value : Operand) (plain : value.isPlain) (s : String) :
    leading (value.render ++ s) = some value.form := by
  cases value with
  | place p =>
    unfold render Place.render
    cases p <;> simp [leading, Constant.leading, form]
  | constant c => simp [render, leading, Constant.leading_render c plain, form]

theorem not_starts (value : Operand) (plain : value.isPlain) {s : String} (alien : leading s = none) :
    ¬ Starts value.render s := by
  rintro ⟨r, rfl⟩
  simp [leading_render value plain] at alien

theorem tells {v w : Operand} (plain : v.isPlain) (plain' : w.isPlain) :
    TellsBefore (Halts inConstant) v.render w.render (v = w) := by
  have unlike (differ : v.form ≠ w.form) : TellsBefore (Halts inConstant) v.render w.render (v = w) :=
    .unlike (fun s _ => leading_render v plain s) (fun s _ => leading_render w plain' s) differ
  cases v with
  | place p =>
    cases w with
    | place q => exact (Place.tells p q plain plain').imp (congrArg _)
    | constant d => exact unlike nofun
  | constant c =>
    cases w with
    | place q => exact unlike nofun
    | constant d => exact (Constant.tells plain plain').imp (congrArg _)

theorem list_tells {values others : List Operand} (plain : ∀ v ∈ values, v.isPlain)
    (plain' : ∀ v ∈ others, v.isPlain) :
    TellsBefore (Starts "]") (renderOperands values) (renderOperands others) (values = others) := by
  rw [renderOperands, renderOperands, map_eq_numbered _ 0, map_eq_numbered _ 0]
  apply TellsBefore.separated plain plain' (fun v member w good _ => tells (plain v member) good)
  · exact Halts.append rfl
  · exact fun s closes => closes.halts rfl
  · exact fun s closes => closes.not_starts (by decide)
  · rintro _ ⟨s, rfl⟩ v good _
    exact v.not_starts good (by simp [leading, Constant.leading])

end Operand

namespace Expr

def leading (text : String) : Option Form :=
  forms.find? (firstWord text)

theorem starts_render (e : Expr) : Starts (forms.name e.form ++ "(") e.render := by
  cases e with
  | tuple values | array values =>
    unfold render
    simp only [String.append_assoc]
    exact Starts.of_eq_append (w := "[") rfl _
  | struct path variant fields =>
    cases variant <;>
    · unfold render
      simp only [String.append_assoc]
      exact ⟨_, rfl⟩
  | _ =>
    unfold render
    simp only [String.append_assoc]
    exact ⟨_, rfl⟩

theorem leading_render (e : Expr) (s : String) : leading (e.render ++ s) = some e.form := by
  have letters : ∀ f ∈ forms.all, (forms.name f).toList.all Char.isAlpha := by decide
  rw [leading, firstWord_of_starts (letters _ (forms.complete _)) (e.starts_render.append s),
    NameTable.find?_name]

theorem render_struct (path : Path) (index : Option UInt32) (fields : List Operand) :
    (struct path index fields).render =
      "Struct(" ++ path.render ++ withFront " #" word index ++ ", \x7b[" ++ renderOperands fields ++ "]\x7d)" := by
  unfold render
  cases index <;> simp [withFront, String.append_assoc]

theorem unlike_tell {Next : String → Prop} {e f : Expr} {P : Prop} (differ : e.form ≠ f.form) :
    TellsBefore Next e.render f.render P :=
  .unlike (fun s _ => leading_render e s) (fun s _ => leading_render f s) differ

section Same

variable {Next : String → Prop} {v w v' w' : Operand} {path path' : Path} {values values' : List Operand}

theorem repeated_tells (plain : v.isPlain) (plain' : w.isPlain) (count count' : UInt64) :
    TellsBefore Next (repeated v count).render (repeated w count').render
      (repeated v count = repeated w count') := by
  apply ((Operand.tells plain plain').enclosedPair "SizedArray(" "; " ")" (Halts.append rfl)
    (.longWord count count') (Halts.append rfl)).imp
  rintro ⟨rfl, rfl⟩
  rfl

theorem cast_tells (plain : v.isPlain) (plain' : w.isPlain) {ty ty' : Ty} (plainTy : ty.isPlain)
    (plainTy' : ty'.isPlain) :
    TellsBefore Next (cast v ty).render (cast w ty').render (cast v ty = cast w ty') := by
  apply ((Operand.tells plain plain').enclosedPair "Cast(" " as " ")" (Halts.append rfl)
    (Ty.tells ty ty' plainTy plainTy') (Halts.append rfl)).imp
  rintro ⟨rfl, rfl⟩
  rfl

theorem unary_tells (plain : v.isPlain) (plain' : w.isPlain) (op op' : UnaryOp) :
    TellsBefore Next (unary v op).render (unary w op').render (unary v op = unary w op') := by
  apply ((Operand.tells plain plain').enclosedPair "UniOp(" " " ")" (Halts.append rfl)
    (nameTable_tells UnaryOp.mnemonics isNameChar (by decide) op op') (Halts.append rfl)).imp
  rintro ⟨rfl, rfl⟩
  rfl

theorem fatPointer_tells (plain : v.isPlain) (plain' : w.isPlain) (also : v'.isPlain) (also' : w'.isPlain) :
    TellsBefore Next (fatPointer v v').render (fatPointer w w').render
      (fatPointer v v' = fatPointer w w') := by
  apply ((Operand.tells plain plain').enclosedPair "MakeDst(" ", " ")" (Halts.append rfl)
    (Operand.tells also also') (Halts.append rfl)).imp
  rintro ⟨rfl, rfl⟩
  rfl

theorem binary_tells (plain : v.isPlain) (plain' : w.isPlain) (op op' : BinaryOp) (also : v'.isPlain)
    (also' : w'.isPlain) :
    TellsBefore Next (binary v op v').render (binary w op' w').render
      (binary v op v' = binary w op' w') := by
  have name := ((Operand.tells plain plain').after "BinOp(").pair " " (Halts.append rfl)
    (nameTable_tells BinaryOp.mnemonics isNameChar (by decide) op op')
  have inside := name.pair " " (Halts.append rfl) (Operand.tells also also')
  apply (inside.before ")" (Halts.append rfl)).imp
  rintro ⟨⟨rfl, rfl⟩, rfl⟩
  rfl

theorem borrow_tells (region region' : UInt32) (kind kind' : RefKind) {p q : Place} (plain : p.isPlain)
    (plain' : q.isPlain) :
    TellsBefore Next (borrow region kind p).render (borrow region' kind' q).render
      (borrow region kind p = borrow region' kind' q) := by
  have name := ((TellsBefore.word region region').after "Borrow(").pair ", " (Halts.append rfl)
    (nameTable_tells RefKind.names Char.isAlpha (by decide) kind kind')
  have inside := name.pair ", " (Halts.append rfl) (Place.tells p q plain plain')
  apply (inside.before ")" (Halts.append rfl)).imp
  rintro ⟨⟨rfl, rfl⟩, rfl⟩
  rfl

theorem list_tells (front : String) (plain : ∀ v ∈ values, v.isPlain) (plain' : ∀ v ∈ values', v.isPlain) :
    TellsBefore Next (front ++ renderOperands values ++ "])") (front ++ renderOperands values' ++ "])")
      (values = values') :=
  (Operand.list_tells plain plain').enclosed front "])" (Starts.of_eq_append (w := ")") rfl)

theorem variant_tells (plainPath : path.isPlain) (plainPath' : path'.isPlain) (index index' : UInt32)
    (plain : v.isPlain) (plain' : w.isPlain) :
    TellsBefore Next (variant path index v).render (variant path' index' w).render
      (variant path index v = variant path' index' w) := by
  have number := ((Path.tells plainPath plainPath').after "Variant(").pair " #" (Halts.append rfl)
    (.word index index')
  have inside := number.pair ", " (Halts.append rfl) (Operand.tells plain plain')
  apply (inside.before ")" (Halts.append rfl)).imp
  rintro ⟨⟨rfl, rfl⟩, rfl⟩
  rfl

theorem struct_tells (plainPath : path.isPlain) (plainPath' : path'.isPlain) (index index' : Option UInt32)
    (plain : ∀ v ∈ values, v.isPlain) (plain' : ∀ v ∈ values', v.isPlain) :
    TellsBefore Next (struct path index values).render (struct path' index' values').render
      (struct path index values = struct path' index' values') := by
  have number : TellsBefore (Starts ", ") (withFront " #" word index) (withFront " #" word index')
      (index = index') :=
    .option (fun m n => (TellsBefore.word m n).weaken fun s comma => comma.halts rfl)
      (fun s comma => comma.not_starts (by decide)) index index'
  have goes (s : String) (comma : Starts ", " s) : Halts inPath s := comma.halts rfl
  have head : TellsBefore (Starts ", ") ("Struct(" ++ path.render ++ withFront " #" word index)
      ("Struct(" ++ path'.render ++ withFront " #" word index') (path = path' ∧ index = index') := by
    apply ((Path.tells plainPath plainPath').after "Struct(").append
    · exact fun same => number.imp fun also => ⟨same, also⟩
    · exact fun s comma => (goes s comma).withFront " #" rfl _ _
    · exact fun s comma => (goes s comma).withFront " #" rfl _ _
  have closes : ∀ s, Starts "]" ("]\x7d)" ++ s) := Starts.of_eq_append (w := "\x7d)") rfl
  have inside := head.pair ", \x7b[" (Starts.of_eq_append (w := "\x7b[") rfl)
    (Operand.list_tells plain plain')
  rw [render_struct, render_struct]
  apply (inside.before "]\x7d)" closes).imp
  rintro ⟨⟨rfl, rfl⟩, rfl⟩
  rfl

end Same

theorem tells {Next : String → Prop} {e f : Expr} (plain : e.isPlain) (plain' : f.isPlain) :
    TellsBefore Next e.render f.render (e = f) := by
  cases e with
  | use v =>
    cases f with
    | use w => exact ((Operand.tells plain plain').enclosed "Use(" ")" (Halts.append rfl)).imp (congrArg _)
    | _ => exact unlike_tell nofun
  | constant c =>
    cases f with
    | constant d =>
      exact ((Constant.tells plain plain').enclosed "Constant(" ")" (Halts.append rfl)).imp (congrArg _)
    | _ => exact unlike_tell nofun
  | repeated v count =>
    cases f with
    | repeated w count' => exact repeated_tells plain plain' count count'
    | _ => exact unlike_tell nofun
  | borrow region kind p =>
    cases f with
    | borrow region' kind' q => exact borrow_tells region region' kind kind' plain plain'
    | _ => exact unlike_tell nofun
  | cast v ty =>
    cases f with
    | cast w ty' =>
      simp only [Expr.isPlain, Bool.and_eq_true] at plain plain'
      exact cast_tells plain.1 plain'.1 plain.2 plain'.2
    | _ => exact unlike_tell nofun
  | binary v op v' =>
    cases f with
    | binary w op' w' =>
      simp only [Expr.isPlain, Bool.and_eq_true] at plain plain'
      exact binary_tells plain.1 plain'.1 op op' plain.2 plain'.2
    | _ => exact unlike_tell nofun
  | unary v op =>
    cases f with
    | unary w op' => exact unary_tells plain plain' op op'
    | _ => exact unlike_tell nofun
  | metadataOf v =>
    cases f with
    | metadataOf w =>
      exact ((Operand.tells plain plain').enclosed "DstMeta(" ")" (Halts.append rfl)).imp (congrArg _)
    | _ => exact unlike_tell nofun
  | pointerOf v =>
    cases f with
    | pointerOf w =>
      exact ((Operand.tells plain plain').enclosed "DstPtr(" ")" (Halts.append rfl)).imp (congrArg _)
    | _ => exact unlike_tell nofun
  | fatPointer pointer metadata =>
    cases f with
    | fatPointer pointer' metadata' =>
      simp only [Expr.isPlain, Bool.and_eq_true] at plain plain'
      exact fatPointer_tells plain.1 plain'.1 plain.2 plain'.2
    | _ => exact unlike_tell nofun
  | tuple values =>
    cases f with
    | tuple values' =>
      simp only [Expr.isPlain, List.all_eq_true] at plain plain'
      exact (list_tells "Tuple([" plain plain').imp (congrArg _)
    | _ => exact unlike_tell nofun
  | array values =>
    cases f with
    | array values' =>
      simp only [Expr.isPlain, List.all_eq_true] at plain plain'
      exact (list_tells "Array([" plain plain').imp (congrArg _)
    | _ => exact unlike_tell nofun
  | variant path index v =>
    cases f with
    | variant path' index' w =>
      simp only [Expr.isPlain, Bool.and_eq_true] at plain plain'
      exact variant_tells plain.1 plain'.1 index index' plain.2 plain'.2
    | _ => exact unlike_tell nofun
  | struct path index fields =>
    cases f with
    | struct path' index' fields' =>
      simp only [Expr.isPlain, Bool.and_eq_true, List.all_eq_true] at plain plain'
      exact struct_tells plain.1 plain'.1 index index' plain.2 plain'.2
    | _ => exact unlike_tell nofun

end Expr

namespace Callee

def leading (text : String) : Option Form :=
  match text.toList.head? with
  | some '(' => some .value
  | some ':' => some .path
  | some '"' => some .intrinsic
  | _ => none

theorem leading_render (callee : Callee) (s : String) : leading (callee.render ++ s) = some callee.form := by
  cases callee <;> simp [render, Path.render, ItemPath.render, leading, form]

theorem unlike_tell {Next : String → Prop} {c d : Callee} {P : Prop} (differ : c.form ≠ d.form) :
    TellsBefore Next c.render d.render P :=
  .unlike (fun s _ => leading_render c s) (fun s _ => leading_render d s) differ

theorem tells {c d : Callee} (plain : c.isPlain) (plain' : d.isPlain) :
    TellsBefore (Halts inPath) c.render d.render (c = d) := by
  cases c with
  | value v =>
    cases d with
    | value w => exact ((Operand.tells plain plain').enclosed "(" ")" (Halts.append rfl)).imp (congrArg _)
    | _ => exact unlike_tell (by simp [form])
  | path p =>
    cases d with
    | path q => exact (Path.tells plain plain').imp (congrArg _)
    | _ => exact unlike_tell (by simp [form])
  | intrinsic name arguments =>
    cases d with
    | intrinsic name' arguments' =>
      simp only [Callee.isPlain, Bool.and_eq_true, isName_iff] at plain plain'
      apply (((TellsBefore.run plain.1.2 plain'.1.2).after "\"").pair "\"::" (Halts.append rfl)
        (TypeArgs.tells plain.2 plain'.2)).imp
      rintro ⟨rfl, rfl⟩
      rfl
    | _ => exact unlike_tell (by simp [form])

end Callee

theorem Label.tells (label other : Label) :
    TellsBefore (Halts Char.isDigit) (word label.index) (word other.index) (label = other) :=
  (TellsBefore.word _ _).imp (congrArg Label.mk)

theorem Label.render_tells (label other : Label) :
    TellsBefore (Halts Char.isDigit) label.render other.render (label = other) :=
  (label.tells other).after "bb"

namespace Terminator

/-- The first words of terminators: one not built yet is not written by the name of its form. -/
def titles : NameTable Form where
  all := forms.all
  name
    | .incomplete => "Invalid"
    | form => forms.name form
  complete := forms.complete
  distinct := by decide

def leading (text : String) : Option Form :=
  titles.find? (firstWord text)

theorem starts_render (t : Terminator) :
    t.render = titles.name t.form ∨ Starts (titles.name t.form ++ "(") t.render := by
  cases t with
  | incomplete | ret | diverge => exact .inl rfl
  | goto target | unwind target =>
    right
    unfold render
    simp only [String.append_assoc]
    exact ⟨_, rfl⟩
  | branch | switch | call =>
    right
    unfold render
    simp only [String.append_assoc]
    exact Starts.of_eq_append (w := " ") rfl _

theorem firstWord_render (t : Terminator) {s : String} (halts : Halts Char.isAlpha s) :
    firstWord (t.render ++ s) = titles.name t.form := by
  have letters : ∀ f ∈ titles.all, (titles.name f).toList.all Char.isAlpha := by decide
  rcases t.starts_render with bare | starts
  · rw [bare]
    exact firstWord_append _ (letters _ (titles.complete _)) halts
  · exact firstWord_of_starts (letters _ (titles.complete _)) (starts.append s)

theorem leading_render (t : Terminator) {s : String} (halts : Halts Char.isAlpha s) :
    leading (t.render ++ s) = some t.form := by
  rw [leading, firstWord_render t halts, NameTable.find?_name]

theorem unlike_tell {t u : Terminator} {P : Prop} (differ : t.form ≠ u.form) :
    TellsBefore (Halts Char.isAlpha) t.render u.render P :=
  .unlike (fun _ halts => leading_render t halts) (fun _ halts => leading_render u halts) differ

theorem targets_tell (targets others : List Label) :
    TellsBefore (Starts ")")
      (ended ", " (targets.zipIdx.map fun (target, i) => i.repr ++ " => " ++ target.render))
      (ended ", " (others.zipIdx.map fun (target, i) => i.repr ++ " => " ++ target.render))
      (targets = others) := by
  change TellsBefore _
    (ended ", " (numbered (fun i (target : Label) => i.repr ++ " => " ++ target.render) 0 targets))
    (ended ", " (numbered (fun i (target : Label) => i.repr ++ " => " ++ target.render) 0 others)) _
  apply TellsBefore.ended (fun _ _ => trivial) (fun _ _ => trivial)
    (fun a _ b (_ : True) i => (a.render_tells b).after _)
  · exact Halts.append rfl
  · intro s closes b _ i starts
    have halts : Halts Char.isDigit s := closes.halts rfl
    exact halts.not_starts_all repr_ne_empty isDigit_of_mem_repr starts.of_append.of_append

theorem arguments_tell {values others : List Operand} (plain : ∀ v ∈ values, v.isPlain)
    (plain' : ∀ v ∈ others, v.isPlain) :
    TellsBefore (Starts ")") (ended ", " (values.map Operand.render))
      (ended ", " (others.map Operand.render)) (values = others) := by
  rw [map_eq_numbered _ 0, map_eq_numbered _ 0]
  apply TellsBefore.ended plain plain' (fun v member w good _ => Operand.tells (plain v member) good)
  · exact Halts.append rfl
  · rintro _ ⟨s, rfl⟩ v good _
    exact v.not_starts good (by simp [Operand.leading, Constant.leading])

theorem branch_tells {Next : String → Prop} {condition condition' : Operand} (plain : condition.isPlain)
    (plain' : condition'.isPlain) (yes no yes' no' : Label) :
    TellsBefore Next (branch condition yes no).render (branch condition' yes' no').render
      (branch condition yes no = branch condition' yes' no') := by
  have number := ((Operand.tells plain plain').after "If( ").pair " : " (Halts.append rfl) (yes.tells yes')
  have inside := number.pair ", " (Halts.append rfl) (no.tells no')
  apply (inside.before ")" (Halts.append rfl)).imp
  rintro ⟨⟨rfl, rfl⟩, rfl⟩
  rfl

theorem call_tells {Next : String → Prop} {callee callee' : Callee} {arguments arguments' : List Operand}
    {result result' : Place} {returns unwinds returns' unwinds' : Label}
    (plain : (call callee arguments result returns unwinds).isPlain)
    (plain' : (call callee' arguments' result' returns' unwinds').isPlain) :
    TellsBefore Next (call callee arguments result returns unwinds).render
      (call callee' arguments' result' returns' unwinds').render
      (call callee arguments result returns unwinds = call callee' arguments' result' returns' unwinds') := by
  simp only [Terminator.isPlain, Bool.and_eq_true, List.all_eq_true] at plain plain'
  obtain ⟨⟨plainCallee, plainArguments⟩, plainResult⟩ := plain
  obtain ⟨⟨plainCallee', plainArguments'⟩, plainResult'⟩ := plain'
  have called := ((Place.tells result result' plainResult plainResult').after "Call( ").pair " = "
    (Halts.append rfl) (Callee.tells plainCallee plainCallee')
  have passed := called.pair "( " (Halts.append rfl) (arguments_tell plainArguments plainArguments')
  have returned := passed.pair "), " (Starts.of_eq_append (w := ", ") rfl) (returns.render_tells returns')
  have inside := returned.pair ", " (Halts.append rfl) (unwinds.render_tells unwinds')
  apply (inside.before ")" (Halts.append rfl)).imp
  rintro ⟨⟨⟨⟨rfl, rfl⟩, rfl⟩, rfl⟩, rfl⟩
  rfl

theorem tells {t u : Terminator} (plain : t.isPlain) (plain' : u.isPlain) :
    TellsBefore (Halts Char.isAlpha) t.render u.render (t = u) := by
  cases t with
  | incomplete =>
    cases u with
    | incomplete => exact .same rfl
    | _ => exact unlike_tell (by simp [form])
  | ret =>
    cases u with
    | ret => exact .same rfl
    | _ => exact unlike_tell (by simp [form])
  | diverge =>
    cases u with
    | diverge => exact .same rfl
    | _ => exact unlike_tell (by simp [form])
  | goto target =>
    cases u with
    | goto target' =>
      exact ((target.tells target').enclosed "Goto(" ")" (Halts.append rfl)).imp (congrArg _)
    | _ => exact unlike_tell (by simp [form])
  | unwind target =>
    cases u with
    | unwind target' =>
      exact ((target.tells target').enclosed "Panic(" ";)" (Halts.append rfl)).imp (congrArg _)
    | _ => exact unlike_tell (by simp [form])
  | branch condition yes no =>
    cases u with
    | branch condition' yes' no' => exact branch_tells plain plain' yes no yes' no'
    | _ => exact unlike_tell (by simp [form])
  | switch value targets =>
    cases u with
    | switch value' targets' =>
      apply ((Operand.tells (v := value) (w := value') plain plain').enclosedPair "Switch( " " : " ")"
        (Halts.append rfl) (targets_tell targets targets') (Starts.refl ")").append).imp
      rintro ⟨rfl, rfl⟩
      rfl
    | _ => exact unlike_tell (by simp [form])
  | call callee arguments result returns unwinds =>
    cases u with
    | call callee' arguments' result' returns' unwinds' => exact call_tells plain plain'
    | _ => exact unlike_tell (by simp [form])

end Terminator

theorem Statement.tells {Next : String → Prop} {s t : Statement} (plain : s.isPlain) (plain' : t.isPlain) :
    TellsBefore Next s.render t.render (s = t) := by
  simp only [Statement.isPlain, Bool.and_eq_true] at plain plain'
  have source : TellsBefore (fun _ => True) s.source.render t.source.render (s.source = t.source) :=
    Expr.tells plain.2 plain'.2
  have whole := (Place.tells s.target t.target plain.1 plain'.1).pair " = " (Halts.append rfl) source
  apply (whole.before ";" fun _ => trivial).imp
  cases s; cases t
  rintro ⟨rfl, rfl⟩
  rfl

end MidIR
