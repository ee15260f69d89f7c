import MidIR.Kind

namespace MidIR

deriving instance ReflBEq, LawfulBEq for ItemPath, Scalar, RefKind

namespace Ty

theorem sameAll_iff {types others : List Ty} (each : ∀ t ∈ types, ∀ u, t.same u ↔ t = u) :
    sameAll types others ↔ types = others := by
  induction types generalizing others with
  | nil => cases others <;> simp [sameAll]
  | cons t types ih =>
    cases others with
    | nil => simp [sameAll]
    | cons u others =>
      have tail : sameAll types others ↔ types = others :=
        ih fun t member => each t (List.mem_cons_of_mem _ member)
      simp [sameAll, each t (List.mem_cons_self ..), tail]

theorem same_iff (t u : Ty) : t.same u ↔ t = u := by
  induction t using Ty.inductionOn generalizing u with
  | scalar s => cases u <;> simp [same]
  | tuple elements ih => cases u <;> simp [same, sameAll_iff ih]
  | path item arguments ih => cases u <;> simp [same, sameAll_iff ih]
  | ref kind inner ih => cases u <;> simp [same, ih]
  | pointer kind inner ih => cases u <;> simp [same, ih]
  | array inner size ih => cases u <;> simp [same, ih]
  | slice inner ih => cases u <;> simp [same, ih]

end Ty

instance : LawfulBEq Ty where
  rfl {t} := (t.same_iff t).2 rfl
  eq_of_beq {t u} same := (t.same_iff u).1 same

deriving instance ReflBEq, LawfulBEq for TypeArgs, Path

theorem Place.beq_iff (p q : Place) : p == q ↔ p = q := by
  induction p generalizing q with
  | var i =>
    cases q with
    | var j =>
      change (i == j) ↔ _
      simp
    | _ => exact ⟨nofun, nofun⟩
  | temp i =>
    cases q with
    | temp j =>
      change (i == j) ↔ _
      simp
    | _ => exact ⟨nofun, nofun⟩
  | arg i =>
    cases q with
    | arg j =>
      change (i == j) ↔ _
      simp
    | _ => exact ⟨nofun, nofun⟩
  | static path =>
    cases q with
    | static path' =>
      change (path == path') ↔ _
      simp
    | _ => exact ⟨nofun, nofun⟩
  | returnSlot =>
    cases q with
    | returnSlot => exact ⟨fun _ => rfl, fun _ => rfl⟩
    | _ => exact ⟨nofun, nofun⟩
  | field base i ih =>
    cases q with
    | field base' j =>
      change (base == base' && i == j) ↔ _
      simp [ih]
    | _ => exact ⟨nofun, nofun⟩
  | deref base ih =>
    cases q with
    | deref base' =>
      change (base == base') ↔ _
      simp [ih]
    | _ => exact ⟨nofun, nofun⟩
  | index base position ih ih' =>
    cases q with
    | index base' position' =>
      change (base == base' && position == position') ↔ _
      simp [ih, ih']
    | _ => exact ⟨nofun, nofun⟩
  | downcast base i ih =>
    cases q with
    | downcast base' j =>
      change (base == base' && i == j) ↔ _
      simp [ih]
    | _ => exact ⟨nofun, nofun⟩

instance : LawfulBEq Place where
  rfl {p} := (p.beq_iff p).2 rfl
  eq_of_beq {p q} same := (p.beq_iff q).1 same

theorem Constant.same_iff (a b : Constant) : a.same b ↔ a = b := by
  cases a <;> cases b <;> simp [same]

instance : LawfulBEq Constant where
  rfl {a} := (a.same_iff a).2 rfl
  eq_of_beq {a b} same := (a.same_iff b).1 same

deriving instance ReflBEq, LawfulBEq for Operand, BinaryOp, UnaryOp, Expr, Label, Callee, Terminator,
  Statement, Block, Body

instance (kind : Kind) : LawfulBEq kind.Node := by
  cases kind <;> exact inferInstance

end MidIR
