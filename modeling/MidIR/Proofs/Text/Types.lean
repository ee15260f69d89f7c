import MidIR.Proofs.Text.Telling
import MidIR.Text.Plain

namespace MidIR

open Text

namespace Text

def inItem (c : Char) : Bool := isNameChar c || c == ':'

def inPath (c : Char) : Bool := inItem c || c == '<'

end Text

theorem isName_iff {text : String} : isName text ↔ text ≠ "" ∧ ∀ c ∈ text.toList, isNameChar c := by
  simp [isName]

theorem ItemPath.tells {p q : ItemPath} (plain : p.isPlain) (plain' : q.isPlain) :
    TellsBefore (Halts inItem) p.render q.render (p = q) := by
  have parts (path : ItemPath) : path.render =
      String.join (numbered (fun _ name => "::" ++ name) 0 (path.package :: path.components)) := by
    rw [ItemPath.render, separated_cons, map_eq_numbered _ 1, numbered_cons, String.join_cons,
      String.append_assoc]
  have names {path : ItemPath} (plain : path.isPlain) :
      ∀ name ∈ path.package :: path.components, ∀ c ∈ name.toList, isNameChar c := by
    simp only [ItemPath.isPlain, Bool.and_eq_true, List.all_eq_true, isName_iff] at plain
    exact List.forall_mem_cons.2 ⟨plain.1.2, fun name member => (plain.2 name member).2⟩
  have inner {s : String} (halts : Halts inItem s) : Halts isNameChar s :=
    halts.weaken fun c holds => by simp [inItem, holds]
  have between : Halts isNameChar "::" := rfl
  rw [parts, parts]
  apply (TellsBefore.join (names plain) (names plain') _ (fun _ => inner) _ _ 0).imp
  · cases p; cases q; simp
  · exact fun a member b named _ => (TellsBefore.run (names plain a member) named).after "::"
  · exact fun b _ _ s => (between.append b).append s
  · exact fun s halts b _ _ starts => halts.not_starts rfl starts.of_append

theorem halts_renderArguments (items : List String) {s : String} (halts : Halts inPath s) :
    Halts inItem (renderArguments items ++ s) := by
  cases items with
  | nil => simpa [renderArguments] using halts.weaken fun c holds => by simp [inPath, holds]
  | cons item items =>
    have starts : Starts "<" (renderArguments (item :: items)) := ((Starts.refl "<").append _).append _
    exact (starts.append s).halts rfl

namespace Ty

/-- The form that a type has by its first character, which arrays and slices share. -/
def leading (text : String) : Option Form :=
  match text.toList.head? with
  | some '(' => some .tuple
  | some ':' => some .path
  | some '&' => some .ref
  | some '*' => some .pointer
  | some '[' => some .array
  | some c => if c ∈ ['u', 'i', 'f', 'b', 'c', 's'] then some .scalar else none
  | none => none

def lead : Ty → Form
  | .slice _ => .array
  | t => t.form

theorem renderAll_eq_map (types : List Ty) : renderAll types = types.map render := by
  induction types with
  | nil => rfl
  | cons t types ih => rw [renderAll, ih, List.map_cons]

def tupleEnd : List Ty → String
  | [_] => ","
  | _ => ""

theorem render_tuple (elements : List Ty) : (tuple elements).render =
    "(" ++ separated ", " (elements.map render) ++ tupleEnd elements ++ ")" := by
  rw [← renderAll_eq_map]
  match elements with
  | [] => rfl
  | [element] => simp [render, renderAll, separated, tupleEnd, String.append_assoc]
  | _ :: _ :: _ => simp [render, tupleEnd]

theorem leading_render (t : Ty) (s : String) : leading (t.render ++ s) = some t.lead := by
  cases t with
  | scalar name => cases name <;> simp [render, Scalar.names, leading, lead, form]
  | tuple elements => simp [render_tuple, leading, lead, form]
  | path item arguments => simp [render, ItemPath.render, leading, lead, form]
  | ref kind inner => cases kind <;> simp [render, RefKind.referencePrefix, leading, lead, form]
  | pointer kind inner => cases kind <;> simp [render, RefKind.pointerPrefix, leading, lead, form]
  | array inner size => simp [render, leading, lead, form]
  | slice inner => simp [render, leading, lead]

end Ty

namespace RefKind

theorem reference_tells (kind other : RefKind) :
    TellsBefore (fun s => (Ty.leading s).isSome) kind.referencePrefix other.referencePrefix
      (kind = other) := by
  have shared {u : String} (unlike : ∀ r, Ty.leading (u ++ r) = none) {P : Prop} :
      TellsBefore (fun s => (Ty.leading s).isSome) ("&" ++ "") ("&" ++ (u ++ "")) P := by
    apply TellsBefore.after "&" (TellsBefore.empty _)
    rintro _ next ⟨r, rfl⟩
    simp [unlike] at next
  have unique {P : Prop} : TellsBefore (fun s => (Ty.leading s).isSome) "&" "&mut " P := by
    simpa using shared (u := "mut ") (by simp [Ty.leading])
  have owned {P : Prop} : TellsBefore (fun s => (Ty.leading s).isSome) "&" "&move " P := by
    simpa using shared (u := "move ") (by simp [Ty.leading])
  cases kind with
  | shared =>
    cases other with
    | shared => exact .same rfl
    | unique => exact unique
    | owned => exact owned
  | unique =>
    cases other with
    | shared => exact unique.symm
    | unique => exact .same rfl
    | owned => exact .apart (.refl _) (.refl _) (by decide)
  | owned =>
    cases other with
    | shared => exact owned.symm
    | unique => exact .apart (.refl _) (.refl _) (by decide)
    | owned => exact .same rfl

theorem pointer_tells (kind other : RefKind) {Next : String → Prop} :
    TellsBefore Next kind.pointerPrefix other.pointerPrefix (kind = other) := by
  by_cases same : kind = other
  · exact same ▸ .same rfl
  · apply TellsBefore.apart (.refl _) (.refl _)
    revert same
    cases kind <;> cases other <;> decide

end RefKind

namespace Ty

/-- What may come right after a list of types, in which a comma and a space go on. -/
structure Closes (s : String) : Prop where
  halts : Halts inPath s
  ends : ¬ Starts ", " s
  alien : leading s = none

theorem Closes.of_starts {front s : String} (starts : Starts front s) (halts : Halts inPath front)
    (ends : Apart front ", ") (alien : ∀ r, leading (front ++ r) = none) : Closes s := by
  refine ⟨starts.halts halts, starts.not_starts ends, ?_⟩
  obtain ⟨r, rfl⟩ := starts
  exact alien r

section

variable {types others : List Ty} (plain : ∀ t ∈ types, t.isPlain) (plain' : ∀ t ∈ others, t.isPlain)
  (each : ∀ t ∈ types, ∀ u, u.isPlain → TellsBefore (Halts inPath) t.render u.render (t = u))
include plain plain' each

theorem list_tells : TellsBefore Closes (separated ", " (types.map render))
    (separated ", " (others.map render)) (types = others) := by
  rw [map_eq_numbered _ 0, map_eq_numbered _ 0]
  apply TellsBefore.separated plain plain' (fun t member u good _ => each t member u good)
  · exact Halts.append rfl
  · exact fun s closes => closes.halts
  · exact fun s closes => closes.ends
  · rintro s closes u _ _ ⟨r, rfl⟩
    simpa [leading_render] using closes.alien

theorem arguments_tell : TellsBefore (Halts inPath) (renderArguments (types.map render))
    (renderArguments (others.map render)) (types = others) := by
  have bare (s : String) (halts : Halts inPath s) : ¬ Starts "<" s := halts.not_starts rfl
  have opened (t : Ty) (rest : List Ty) : renderArguments ((t :: rest).map render) =
      "<" ++ (separated ", " ((t :: rest).map render) ++ ">") := String.append_assoc ..
  cases types with
  | nil =>
    cases others with
    | nil => exact .same rfl
    | cons u others =>
      rw [opened]
      exact .empty bare
  | cons t types =>
    cases others with
    | nil =>
      rw [opened]
      exact (TellsBefore.empty bare).symm
    | cons u others =>
      rw [opened, opened]
      apply TellsBefore.after "<" ((list_tells plain plain' each).before ">" _)
      exact fun r => .of_starts ⟨r, rfl⟩ rfl (by decide) (by simp [leading])

theorem tuple_tells {Next : String → Prop} :
    TellsBefore Next (tuple types).render (tuple others).render (types = others) := by
  -- The comma of a tuple of one type belongs to what ends the list, since no space comes after it.
  have bracket (s : String) : Closes (")" ++ s) :=
    .of_starts ⟨s, rfl⟩ rfl (by decide) (by simp [leading])
  have closes (elements : List Ty) (s : String) : Closes (tupleEnd elements ++ (")" ++ s)) := by
    match elements with
    | [] => simpa [tupleEnd] using bracket s
    | [_] =>
      rw [tupleEnd, ← String.append_assoc]
      exact .of_starts ⟨s, rfl⟩ rfl (by decide) (by simp [leading])
    | _ :: _ :: _ => simpa [tupleEnd] using bracket s
  rw [render_tuple, render_tuple]
  have inside : TellsBefore (Starts ")") (separated ", " (types.map render) ++ tupleEnd types)
      (separated ", " (others.map render) ++ tupleEnd others) (types = others) := by
    apply (list_tells plain plain' each).append
    · rintro rfl
      exact .same rfl
    · rintro _ ⟨s, rfl⟩
      exact closes types s
    · rintro _ ⟨s, rfl⟩
      exact closes others s
  have whole := inside.after "("
  rw [← String.append_assoc, ← String.append_assoc] at whole
  exact whole.before ")" fun s => ⟨s, rfl⟩

end

theorem unlike_tell {Next : String → Prop} {t u : Ty} {P : Prop} (differ : t.lead ≠ u.lead) :
    TellsBefore Next t.render u.render P :=
  .unlike (fun s _ => leading_render t s) (fun s _ => leading_render u s) differ

theorem array_slice_tell {Next : String → Prop} {t u : Ty} {size : UInt64} {P Q : Prop}
    (inner : TellsBefore (Halts inPath) t.render u.render Q) :
    TellsBefore Next (array t size).render (slice u).render P := by
  have parts : (array t size).render = "[" ++ t.render ++ ("; " ++ longWord size ++ "]") := by
    simp [render, String.append_assoc]
  rw [parts, render]
  apply (inner.after "[").append
  · exact fun _ => .apart ((Starts.refl "; ").append _ |>.append "]") (.refl "]") (by decide)
  · exact fun s _ => ((Starts.refl "; ").append _ |>.append _ |>.append s).halts rfl
  · exact fun s _ => (Starts.refl "]" |>.append s).halts rfl

theorem tells (t u : Ty) (plain : t.isPlain) (plain' : u.isPlain) :
    TellsBefore (Halts inPath) t.render u.render (t = u) := by
  induction t using Ty.inductionOn generalizing u with
  | scalar s =>
    cases u with
    | scalar s' => exact (nameTable_tells Scalar.names inPath (by decide) s s').imp (congrArg _)
    | _ => exact unlike_tell (by simp [lead, form])
  | tuple elements ih =>
    cases u with
    | tuple elements' =>
      simp only [Ty.isPlain, allPlain_iff] at plain plain'
      exact (tuple_tells plain plain' fun t member u => ih t member u (plain t member)).imp (congrArg _)
    | _ => exact unlike_tell (by simp [lead, form])
  | path item arguments ih =>
    cases u with
    | path item' arguments' =>
      simp only [Ty.isPlain, allPlain_iff, Bool.and_eq_true] at plain plain'
      simp only [render, renderAll_eq_map]
      apply (ItemPath.tells plain.1 plain'.1).append
      · rintro rfl
        apply (arguments_tell plain.2 plain'.2 fun t member u => ih t member u (plain.2 t member)).imp
        exact congrArg _
      · exact fun s => halts_renderArguments _
      · exact fun s => halts_renderArguments _
    | _ => exact unlike_tell (by simp [lead, form])
  | ref kind inner ih =>
    cases u with
    | ref kind' inner' =>
      apply (RefKind.reference_tells kind kind').append
      · rintro rfl
        exact (ih inner' plain plain').imp (congrArg _)
      · simp [leading_render]
      · simp [leading_render]
    | _ => exact unlike_tell (by simp [lead, form])
  | pointer kind inner ih =>
    cases u with
    | pointer kind' inner' =>
      apply ((RefKind.pointer_tells kind kind').and (ih inner' plain plain')).imp
      rintro ⟨rfl, rfl⟩
      rfl
    | _ => exact unlike_tell (by simp [lead, form])
  | array inner size ih =>
    cases u with
    | array inner' size' =>
      apply ((ih inner' plain plain').enclosedPair "[" "; " "]" (Halts.append rfl) (.longWord size size')
        (Halts.append rfl)).imp
      rintro ⟨rfl, rfl⟩
      rfl
    -- Both start with a bracket: what comes behind the inner type tells them apart.
    | slice inner' => exact array_slice_tell (ih inner' plain plain')
    | _ => exact unlike_tell (by simp [lead, form])
  | slice inner ih =>
    cases u with
    | array inner' size' => exact (array_slice_tell (ih inner' plain plain').symm).symm
    | slice inner' => exact ((ih inner' plain plain').enclosed "[" "]" (Halts.append rfl)).imp (congrArg _)
    | _ => exact unlike_tell (by simp [lead, form])

end Ty

theorem TypeArgs.tells {arguments others : TypeArgs} (plain : arguments.isPlain) (plain' : others.isPlain) :
    TellsBefore (Halts inPath) arguments.render others.render (arguments = others) := by
  simp only [TypeArgs.isPlain, List.all_eq_true] at plain plain'
  simp only [TypeArgs.render, Ty.renderAll_eq_map]
  apply (Ty.arguments_tell plain plain' fun t member u => Ty.tells t u (plain t member)).imp
  exact fun same => congrArg TypeArgs.mk same

theorem Path.tells {p q : Path} (plain : p.isPlain) (plain' : q.isPlain) :
    TellsBefore (Halts inPath) p.render q.render (p = q) := by
  simp only [Path.isPlain, Bool.and_eq_true] at plain plain'
  apply (ItemPath.tells plain.1 plain'.1).append
  · intro same
    apply (TypeArgs.tells plain.2 plain'.2).imp
    cases p; cases q
    simp_all
  · exact fun s => halts_renderArguments _
  · exact fun s => halts_renderArguments _

end MidIR
