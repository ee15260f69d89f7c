import MidIR.Proofs.Json.Accepting
import MidIR.Proofs.Nesting

/-!
# Laws of JSON forms

For every sort of node: a read gives back what was written as long as its brackets nest no deeper than
the levels that are left, whatever a read gives is written with brackets that nest no deeper, and
places and types nest at most one deeper than brackets: the return slot is a bare name.
-/

namespace MidIR.Json

/-- A sort of values whose JSON form and read belong together. -/
class Lawful (α : Type) [JsonForm α] [Nested α] : Prop where
  reads (value : α) (levels : Nat) : Reads (JsonForm.read levels) levels (toJson value) value
  accepts (levels : Nat) : Accepts (JsonForm.read levels) fun value : α => (toJson value).depth ≤ levels
  nest_le (value : α) : nest value ≤ (toJson value).depth + 1

open Lawful

section Depth

variable {levels below : Nat} {name : String} {j : Json} {members : List (String × Json)}

theorem depth_tagged (name : String) (j : Json) : (tagged name j).depth = 1 + j.depth := by
  simp only [tagged, depth, depthMembers, Nat.max_zero]

theorem tagged_le (inside : below < levels) (shallow : j.depth ≤ below) :
    (tagged name j).depth ≤ levels := by
  rw [depth_tagged]
  omega

theorem object_le (inside : below < levels) (shallow : depthMembers members ≤ below) :
    (object members).depth ≤ levels := by
  rw [depth]
  omega

theorem member_le (shallow : j.depth ≤ below) (others : depthMembers members ≤ below) :
    depthMembers ((name, j) :: members) ≤ below := Nat.max_le.2 ⟨shallow, others⟩

theorem last_le (shallow : j.depth ≤ below) : depthMembers [(name, j)] ≤ below :=
  member_le shallow (Nat.zero_le _)

theorem le_tagged {n : Nat} (le : n ≤ j.depth + 1) : n ≤ (tagged name j).depth + 1 := by
  rw [depth_tagged]
  omega

theorem le_object {n : Nat} (le : n ≤ depthMembers members + 1) : n ≤ (object members).depth + 1 := by
  rw [depth]
  omega

theorem le_first {n : Nat} (le : n ≤ j.depth + 1) : n ≤ depthMembers ((name, j) :: members) + 1 := by
  rw [depthMembers]
  omega

theorem le_later {n : Nat} (le : n ≤ depthMembers members + 1) :
    n ≤ depthMembers ((name, j) :: members) + 1 := by
  rw [depthMembers]
  omega

theorem depthAll_le {items : List Json} {bound : Nat} :
    depthAll items ≤ bound ↔ ∀ item ∈ items, item.depth ≤ bound := by
  induction items with
  | nil => exact iff_of_true (Nat.zero_le _) fun item member => by cases member
  | cons item items ih => rw [depthAll, Nat.max_le, ih, List.forall_mem_cons]

theorem array_le {α : Type} {toJson : α → Json} {values : List α} (inside : below < levels)
    (all : ∀ a ∈ values, (toJson a).depth ≤ below) : (array (values.map toJson)).depth ≤ levels := by
  have shallow : depthAll (values.map toJson) ≤ below := by
    refine depthAll_le.2 fun item member => ?_
    obtain ⟨a, inValues, rfl⟩ := List.mem_map.1 member
    exact all a inValues
  rw [depth]
  omega

end Depth

section Parts

variable {α β : Type} [JsonForm α] [Nested α] [Lawful α] {levels : Nat}

theorem Reads.values (values : List α) (levels : Nat) :
    Reads (Read.values levels) levels (ofList values) values :=
  .list values fun a _ below _ => reads a below

theorem Accepts.values (levels : Nat) :
    Accepts (Read.values levels) fun values : List α => (ofList values).depth ≤ levels := by
  refine (Accepts.list fun below _ => accepts below).imp ?_
  rintro values ⟨below, inside, all⟩
  exact array_le inside all

theorem nestAll_le (values : List α) : nestAll values ≤ (ofList values).depth + 1 := by
  induction values with
  | nil => exact Nat.zero_le _
  | cons a values ih =>
    have head := nest_le a
    rw [ofList, depth] at ih ⊢
    rw [List.map_cons, depthAll]
    change max (nest a) (nestAll values) ≤ _
    omega

theorem Holds.of {name : String} (a : α) (below : Nat) :
    Holds (.of name below) [name] below [(name, toJson a)] a := .one (reads a below)

theorem AcceptsFields.of (name : String) (below : Nat) :
    AcceptsFields (.of name below) fun a : α => (toJson a).depth ≤ below :=
  .required (accepts below)

theorem Reads.form {τ : Type} {names : NameTable τ} {form : τ → Variant levels β} {t : τ} {make : α → β}
    (a : α) (shape : form t = .of make) :
    Reads (Read.variant levels names form) levels (Json.tagged (names.name t) (toJson a)) (make a) :=
  .tagged shape fun below _ => (reads a below).map make

theorem Accepts.form {make : α → β} {P : β → Prop}
    (holds : ∀ below < levels, ∀ a, (toJson a).depth ≤ below → P (make a)) :
    Vouches (.of make : Variant levels β) P := by
  intro below inside
  refine ((accepts below).map make).imp ?_
  rintro _ ⟨a, shallow, rfl⟩
  exact holds below inside a shallow

end Parts

/-! ## Values without places and types -/

instance : Lawful UInt32 where
  reads n _ := .u32 n
  accepts _ := (Accepts.any _).imp fun _ _ => Nat.zero_le _
  nest_le _ := Nat.zero_le _

instance : Lawful UInt64 where
  reads n _ := .u64 n
  accepts _ := (Accepts.any _).imp fun _ _ => Nat.zero_le _
  nest_le _ := Nat.zero_le _

instance : Lawful String where
  reads s _ := .text s
  accepts _ := (Accepts.any _).imp fun _ _ => Nat.zero_le _
  nest_le _ := Nat.zero_le _

instance : Lawful Label where
  reads label _ := (Reads.u32 label.index).map Label.mk
  accepts _ := (Accepts.any _).imp fun _ _ => Nat.zero_le _
  nest_le _ := Nat.zero_le _

instance : Lawful Scalar where
  reads s _ := Reads.bare (t := s) rfl
  accepts _ := (Accepts.any _).imp fun _ _ => Nat.zero_le _
  nest_le _ := Nat.zero_le _

instance : Lawful RefKind where
  reads k _ := Reads.bare (t := k) rfl
  accepts _ := (Accepts.any _).imp fun _ _ => Nat.zero_le _
  nest_le _ := Nat.zero_le _

instance : Lawful BinaryOp where
  reads op _ := Reads.bare (t := op) rfl
  accepts _ := (Accepts.any _).imp fun _ _ => Nat.zero_le _
  nest_le _ := Nat.zero_le _

instance : Lawful UnaryOp where
  reads op _ := Reads.bare (t := op) rfl
  accepts _ := (Accepts.any _).imp fun _ _ => Nat.zero_le _
  nest_le _ := Nat.zero_le _

instance : Lawful ItemPath where
  reads path levels := .record fun below _ =>
    .map _ (.both (.of path.package below) (.one (.values path.components below)) (by decide))
  accepts levels := by
    refine (Accepts.record fun below _ => .map _ (.both (.of _ below)
      (.required (.values below)))).imp ?_
    rintro _ ⟨below, inside, ⟨package, components⟩, ⟨shallow, shallowComponents⟩, rfl⟩
    exact object_le inside (member_le shallow (last_le shallowComponents))
  nest_le _ := Nat.zero_le _

/-! ## Types -/

theorem jsons_eq (types : List Ty) : Ty.jsons types = types.map Ty.json := by
  induction types with
  | nil => rfl
  | cons t types ih => rw [Ty.jsons, ih, List.map_cons]

theorem reads_ty (t : Ty) (levels : Nat) : Reads (Ty.read levels) levels t.json t := by
  induction t using Ty.inductionOn generalizing levels with
  | scalar s =>
    rw [Ty.read]
    exact Reads.form (t := Ty.Form.scalar) s rfl
  | tuple elements ih =>
    rw [Ty.read]
    refine Reads.tagged (t := Ty.Form.tuple) rfl fun below _ => ?_
    rw [jsons_eq]
    exact (Reads.list elements fun t member below _ => ih t member below).map _
  | path item arguments ih =>
    rw [Ty.read]
    refine Reads.tagged (t := Ty.Form.path) rfl fun below _ => ?_
    rw [jsons_eq]
    have types (levels : Nat) : Reads (Read.list levels fun below _ => Ty.read below) levels
        (array (arguments.map Ty.json)) arguments :=
      .list arguments fun t member below _ => ih t member below
    have params (levels : Nat) : Reads (Read.record levels fun below _ =>
          .one "types" (Read.list below fun below _ => Ty.read below)) levels
        (object [("types", array (arguments.map Ty.json))]) arguments :=
      .record fun below _ => .one (types below)
    exact Reads.record fun below _ => .map _ (.both (.of item below) (.one (params below)) (by decide))
  | ref kind inner ih =>
    rw [Ty.read]
    refine Reads.tagged (t := Ty.Form.ref) rfl fun below _ => ?_
    exact Reads.record fun below _ => .map _ (.both (.of kind below) (.one (ih below)) (by decide))
  | pointer kind inner ih =>
    rw [Ty.read]
    refine Reads.tagged (t := Ty.Form.pointer) rfl fun below _ => ?_
    exact Reads.record fun below _ => .map _ (.both (.of kind below) (.one (ih below)) (by decide))
  | array inner size ih =>
    rw [Ty.read]
    refine Reads.tagged (t := Ty.Form.array) rfl fun below _ => ?_
    exact Reads.record fun below _ => .map _ (.both (.one (ih below)) (.of size below) (by decide))
  | slice inner ih =>
    rw [Ty.read]
    refine Reads.tagged (t := Ty.Form.slice) rfl fun below _ => ?_
    exact (ih below).map _

theorem accepts_ty (levels : Nat) : Accepts (Ty.read levels) fun t => t.json.depth ≤ levels := by
  -- What a type holds is read with fewer levels than the type, by one or, inside a record, by more.
  induction levels using Nat.strongRecOn with
  | ind levels ih =>
    have list (below : Nat) (inside : below < levels) : Accepts
        (Read.list below fun under _ => Ty.read under) fun types => (array (Ty.jsons types)).depth ≤ below := by
      refine (Accepts.list fun under deeper => ih under (by omega)).imp ?_
      rintro types ⟨under, deeper, all⟩
      rw [jsons_eq]
      exact array_le deeper all
    rw [Ty.read]
    refine .variant fun form => ?_
    cases form with
    | scalar => exact .form fun below inside s shallow => tagged_le inside shallow
    | tuple =>
      intro below inside
      refine ((list below inside).map _).imp ?_
      rintro _ ⟨elements, shallow, rfl⟩
      exact tagged_le inside shallow
    | path =>
      intro below inside
      have params (under : Nat) (deeper : under < below) : Accepts (Read.record under fun lower _ =>
          .one "types" (Read.list lower fun least _ => Ty.read least))
          fun types => (object [("types", array (Ty.jsons types))]).depth ≤ under := by
        refine (Accepts.record fun lower nested => .required (list lower (by omega))).imp ?_
        rintro types ⟨lower, nested, shallow⟩
        exact object_le nested (last_le shallow)
      refine (Accepts.record fun under deeper => .map _ (.both (.of _ under)
        (.required (params under deeper)))).imp ?_
      rintro _ ⟨under, deeper, ⟨item, arguments⟩, ⟨shallow, shallowParams⟩, rfl⟩
      exact tagged_le inside (object_le deeper (member_le shallow (last_le shallowParams)))
    | ref =>
      intro below inside
      refine (Accepts.record fun under deeper => .map _ (.both (.of _ under)
        (.required (ih under (by omega))))).imp ?_
      rintro _ ⟨under, deeper, ⟨kind, inner⟩, ⟨shallow, shallowInner⟩, rfl⟩
      exact tagged_le inside (object_le deeper (member_le shallow (last_le shallowInner)))
    | pointer =>
      intro below inside
      refine (Accepts.record fun under deeper => .map _ (.both (.of _ under)
        (.required (ih under (by omega))))).imp ?_
      rintro _ ⟨under, deeper, ⟨kind, inner⟩, ⟨shallow, shallowInner⟩, rfl⟩
      exact tagged_le inside (object_le deeper (member_le shallow (last_le shallowInner)))
    | array =>
      intro below inside
      refine (Accepts.record fun under deeper => .map _ (.both (.required (ih under (by omega)))
        (.of _ under))).imp ?_
      rintro _ ⟨under, deeper, ⟨inner, size⟩, ⟨shallowInner, shallow⟩, rfl⟩
      exact tagged_le inside (object_le deeper (member_le shallowInner (last_le shallow)))
    | slice =>
      intro below inside
      refine ((ih below inside).map _).imp ?_
      rintro _ ⟨inner, shallow, rfl⟩
      exact tagged_le inside shallow

theorem ty_nestAll_le {types : List Ty} (each : ∀ t ∈ types, t.nest ≤ t.json.depth + 1) :
    Ty.nestAll types ≤ depthAll (Ty.jsons types) + 1 := by
  induction types with
  | nil => exact Nat.zero_le _
  | cons t types ih =>
    have head := each t (List.mem_cons_self ..)
    have tail := ih fun u member => each u (List.mem_cons_of_mem _ member)
    rw [Ty.nestAll, Ty.jsons, depthAll]
    omega

theorem ty_nest_le (t : Ty) : t.nest ≤ t.json.depth + 1 := by
  induction t using Ty.inductionOn with
  | scalar s =>
    rw [Ty.json, depth_tagged, Ty.nest]
    omega
  | tuple elements ih =>
    have elements := ty_nestAll_le ih
    simp only [Ty.nest, Ty.json, depth_tagged, depth]
    omega
  | path item arguments ih =>
    have arguments := ty_nestAll_le ih
    simp only [Ty.nest, Ty.json, depth_tagged, depth, depthMembers]
    omega
  | ref kind inner ih =>
    simp only [Ty.nest, Ty.json, depth_tagged, depth, depthMembers]
    omega
  | pointer kind inner ih =>
    simp only [Ty.nest, Ty.json, depth_tagged, depth, depthMembers]
    omega
  | array inner size ih =>
    simp only [Ty.nest, Ty.json, depth_tagged, depth, depthMembers]
    omega
  | slice inner ih =>
    simp only [Ty.nest, Ty.json, depth_tagged]
    omega

instance : Lawful Ty where
  reads := reads_ty
  accepts := accepts_ty
  nest_le := ty_nest_le

instance : Lawful TypeArgs where
  reads arguments levels := .record fun below _ => .map _ (.one (.values arguments.types below))
  accepts levels := by
    refine (Accepts.record fun below _ => .map _ (.required (.values below))).imp ?_
    rintro _ ⟨below, inside, types, shallow, rfl⟩
    exact object_le inside (last_le shallow)
  nest_le arguments := le_object (le_first (nestAll_le arguments.types))

instance : Lawful Path where
  reads path levels := .record fun below _ =>
    .map _ (.both (.of path.item below) (.of path.arguments below) (by decide))
  accepts levels := by
    refine (Accepts.record fun below _ => .map _ (.both (.of _ below) (.of _ below))).imp ?_
    rintro _ ⟨below, inside, ⟨item, arguments⟩, ⟨shallowItem, shallow⟩, rfl⟩
    exact object_le inside (member_le shallowItem (last_le shallow))
  nest_le path := le_object (le_later (le_first (nest_le path.arguments)))

end MidIR.Json
