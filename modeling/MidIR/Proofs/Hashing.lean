import MidIR.Kind
import MidIR.Proofs.Delimiting
import Mathlib.Data.List.Nodup

namespace MidIR

open Write

class LawfulHashed (α : Type) [Hashed α] : Prop where
  tells (a b : α) : Tells (writes a) (writes b) (a = b)

open LawfulHashed

namespace Write

variable {α : Type}

theorem named_tells (names : NameTable α) {position : α → Nat}
    (distinct : (names.all.map position).Nodup) (a b : α) :
    Tells [form (position a)] [form (position b)] (a = b) := by
  apply Tells.cons
  intro same
  apply Tells.nil
  exact List.inj_on_of_nodup_map distinct (names.complete a) (names.complete b) (form.inj same)

variable [Hashed α] [LawfulHashed α]

theorem seq_tells (values others : List α) : Tells (seq values) (seq others) (values = others) := by
  apply Tells.cons
  intro same
  exact .flatMap (fun a _ b => tells a b) (length.inj same)

theorem option_tells (value other : Option α) :
    Tells (option value) (option other) (value = other) := by
  cases value with
  | none =>
    cases other with
    | none => exact .cons fun _ => .nil rfl
    | some b => exact .cons fun same => by cases same
  | some a =>
    cases other with
    | none => exact .cons fun same => by cases same
    | some b => exact .cons fun _ => (tells a b).imp fun same => congrArg some same

end Write

/-! ## Values of one form -/

instance : LawfulHashed UInt32 where
  tells _ _ := .cons fun same => .nil (u32.inj same)

instance : LawfulHashed UInt64 where
  tells _ _ := .cons fun same => .nil (u64.inj same)

instance : LawfulHashed String where
  tells _ _ := .cons fun same => .nil (text.inj same)

instance : LawfulHashed Bool where
  tells a b := by
    apply Tells.cons
    intro same
    apply Tells.nil
    cases a <;> cases b <;> first | rfl | cases same

instance : LawfulHashed Scalar where
  tells := named_tells Scalar.names (by decide)

instance : LawfulHashed RefKind where
  tells := named_tells RefKind.names (by decide)

instance : LawfulHashed BinaryOp where
  tells := named_tells BinaryOp.mnemonics (by decide)

instance : LawfulHashed UnaryOp where
  tells := named_tells UnaryOp.mnemonics (by decide)

instance : LawfulHashed Label where
  tells a b := (tells a.index b.index).imp fun same => by cases a; cases b; cases same; rfl

instance : LawfulHashed ItemPath where
  tells
    | ⟨package, components⟩, ⟨package', components'⟩ => by
      rw [ItemPath.mk.injEq]
      exact (tells package package').and (seq_tells components components')

/-! ## Types -/

namespace Ty

theorem hashedAll_eq (types : List Ty) : hashedAll types = types.flatMap hashed := by
  induction types with
  | nil => rfl
  | cons t types ih => rw [hashedAll, ih, List.flatMap_cons]

theorem hashedAll_tells {types others : List Ty}
    (each : ∀ t ∈ types, ∀ u, Tells t.hashed u.hashed (t = u)) :
    Tells (.length types.length :: hashedAll types) (.length others.length :: hashedAll others)
      (types = others) := by
  rw [hashedAll_eq, hashedAll_eq]
  apply Tells.cons
  intro same
  exact .flatMap each (length.inj same)

theorem hashed_tells (t u : Ty) : Tells t.hashed u.hashed (t = u) := by
  -- Different forms differ in the first write, so the cases that are left are of one form each.
  induction t using Ty.inductionOn generalizing u <;> cases u <;> apply Tells.cons <;> intro same <;>
    cases same
  case scalar.scalar s s' => exact (tells s s').imp (congrArg scalar)
  case tuple.tuple elements ih others => exact (hashedAll_tells ih).imp (congrArg tuple)
  case path.path item arguments ih item' others =>
    simpa using (tells item item').and (hashedAll_tells ih)
  case ref.ref kind inner ih kind' inner' => simpa using (tells kind kind').and (ih inner')
  case pointer.pointer kind inner ih kind' inner' => simpa using (tells kind kind').and (ih inner')
  case array.array inner size ih inner' size' => simpa using (ih inner').and (tells size size')
  case slice.slice inner ih inner' => exact (ih inner').imp (congrArg slice)

end Ty

instance : LawfulHashed Ty where
  tells := Ty.hashed_tells

instance : LawfulHashed TypeArgs where
  tells a b := (seq_tells a.types b.types).imp fun same => by cases a; cases b; cases same; rfl

instance : LawfulHashed Path where
  tells
    | ⟨item, arguments⟩, ⟨item', arguments'⟩ => by
      rw [Path.mk.injEq]
      exact (tells item item').and (tells arguments arguments')

/-! ## Values with places and constants -/

theorem Place.hashed_tells (p q : Place) : Tells p.hashed q.hashed (p = q) := by
  induction p generalizing q <;> cases q <;> apply Tells.cons <;> intro same <;> cases same
  case var.var i j => exact (tells i j).imp (congrArg var)
  case temp.temp i j => exact (tells i j).imp (congrArg temp)
  case arg.arg i j => exact (tells i j).imp (congrArg arg)
  case static.static path path' => exact (tells path path').imp (congrArg static)
  case returnSlot.returnSlot => exact .nil rfl
  case field.field base i ih base' j => simpa using (ih base').and (tells i j)
  case deref.deref base ih base' => exact (ih base').imp (congrArg deref)
  case index.index base position ih ih' base' position' => simpa using (ih base').and (ih' position')
  case downcast.downcast base i ih base' j => simpa using (ih base').and (tells i j)

instance : LawfulHashed Place where
  tells := Place.hashed_tells

instance : LawfulHashed Constant where
  tells a b := by
    cases a <;> cases b <;> apply Tells.cons <;> intro same <;> cases same
    case int.int m n => exact .cons fun same => .nil (congrArg _ (i64.inj same))
    case uint.uint m n => exact (tells m n).imp (congrArg _)
    case float.float m n => exact (tells m n).imp (congrArg _)
    case bool.bool m n => exact (tells m n).imp (congrArg _)
    case bytes.bytes bs cs =>
      exact .cons fun _ => .cons fun same => .nil (congrArg _ (bytes.inj same))
    case text.text t u => exact (tells t u).imp (congrArg _)
    case item.item path path' => exact (tells path path').imp (congrArg _)
    case address.address path offset path' offset' =>
      simpa using (tells path path').and (option_tells offset offset')

instance : LawfulHashed Operand where
  tells a b := by
    cases a <;> cases b <;> apply Tells.cons <;> intro same <;> cases same
    case place.place p q => exact (tells p q).imp (congrArg _)
    case constant.constant c d => exact (tells c d).imp (congrArg _)

instance : LawfulHashed Expr where
  tells a b := by
    cases a <;> cases b <;> apply Tells.cons <;> intro same <;> cases same
    case use.use v w => exact (tells v w).imp (congrArg _)
    case constant.constant c d => exact (tells c d).imp (congrArg _)
    case repeated.repeated v m w n => simpa using (tells v w).and (tells m n)
    case borrow.borrow r k p r' k' p' =>
      simpa [and_assoc] using ((tells r r').and (tells k k')).and (tells p p')
    case cast.cast v t w u => simpa using (tells v w).and (tells t u)
    case binary.binary v op v' w op' w' =>
      simpa [and_assoc] using ((tells v w).and (tells op op')).and (tells v' w')
    case unary.unary v op w op' => simpa using (tells v w).and (tells op op')
    case metadataOf.metadataOf v w => exact (tells v w).imp (congrArg _)
    case pointerOf.pointerOf v w => exact (tells v w).imp (congrArg _)
    case fatPointer.fatPointer v v' w w' => simpa using (tells v w).and (tells v' w')
    case tuple.tuple vs ws => exact (seq_tells vs ws).imp (congrArg _)
    case array.array vs ws => exact (seq_tells vs ws).imp (congrArg _)
    case variant.variant p i v q j w =>
      simpa [and_assoc] using ((tells p q).and (tells i j)).and (tells v w)
    case struct.struct p i vs q j ws =>
      simpa [and_assoc] using ((tells p q).and (option_tells i j)).and (seq_tells vs ws)

instance : LawfulHashed Callee where
  tells a b := by
    cases a <;> cases b <;> apply Tells.cons <;> intro same <;> cases same
    case value.value v w => exact (tells v w).imp (congrArg _)
    case path.path p q => exact (tells p q).imp (congrArg _)
    case intrinsic.intrinsic name arguments name' arguments' =>
      simpa using (tells name name').and (tells arguments arguments')

instance : LawfulHashed Terminator where
  tells a b := by
    cases a <;> cases b <;> apply Tells.cons <;> intro same <;> cases same
    case incomplete.incomplete => exact .nil rfl
    case ret.ret => exact .nil rfl
    case diverge.diverge => exact .nil rfl
    case goto.goto l l' => exact (tells l l').imp (congrArg _)
    case unwind.unwind l l' => exact (tells l l').imp (congrArg _)
    case branch.branch v yes no w yes' no' =>
      simpa [and_assoc] using ((tells v w).and (tells yes yes')).and (tells no no')
    case switch.switch v ls w ls' => simpa using (tells v w).and (seq_tells ls ls')
    case call.call f vs p r u f' vs' p' r' u' =>
      simpa [and_assoc] using
        ((((tells f f').and (seq_tells vs vs')).and (tells p p')).and (tells r r')).and (tells u u')

instance : LawfulHashed Statement where
  tells
    | ⟨target, source⟩, ⟨target', source'⟩ => by
      rw [Statement.mk.injEq]
      exact (tells target target').and (tells source source')

/-! ## Any kind of value -/

theorem writes_eq_iff {α : Type} [Hashed α] [LawfulHashed α] (a b : α) :
    writes a = writes b ↔ a = b := by
  constructor
  · intro same
    exact (tells a b [] [] (by rw [same])).1
  · exact congrArg writes

theorem Kind.writes?_eq_iff {kind : Kind} {hashed : kind.Node → List Write}
    (has : kind.writes? = some hashed) (a b : kind.Node) : hashed a = hashed b ↔ a = b := by
  cases kind <;> cases has <;> exact writes_eq_iff a b

end MidIR
