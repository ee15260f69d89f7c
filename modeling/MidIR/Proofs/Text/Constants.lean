import MidIR.Proofs.Text.Escaped
import MidIR.Proofs.Text.Types

namespace MidIR

open Text

namespace Text

def inConstant (c : Char) : Bool := inPath c || c == '+'

variable {s : String}

theorem Halts.path (halts : Halts inConstant s) : Halts inPath s :=
  halts.weaken fun c holds => by simp [inConstant, holds]

theorem Halts.number (halts : Halts inConstant s) : Halts Char.isDigit s :=
  halts.weaken fun c digit => by simp [inConstant, inPath, inItem, isNameChar, Char.isAlphanum, digit]

theorem Halts.letters (halts : Halts inConstant s) : Halts Char.isAlpha s :=
  halts.weaken fun c letter => by simp [inConstant, inPath, inItem, isNameChar, Char.isAlphanum, letter]

end Text

namespace Constant

def leading (text : String) : Option Form :=
  match text.toList.head? with
  | some '+' | some '-' => some .int
  | some 't' | some 'f' => some .bool
  | some '[' => some .bytes
  | some '"' => some .text
  | some ':' => some .item
  | some '&' => some .address
  | some c => if c.isDigit then some .uint else none
  | none => none

theorem head_number (n : Nat) (s : String) : ∃ d, (n.repr ++ s).toList.head? = some d ∧ d.isDigit := by
  rw [String.toList_append]
  cases shape : n.repr.toList with
  | nil => exact absurd (String.toList_eq_nil_iff.1 shape) repr_ne_empty
  | cons d rest => exact ⟨d, rfl, isDigit_of_mem_repr d (shape ▸ List.mem_cons_self ..)⟩

theorem leading_render (c : Constant) (plain : c.isPlain) (s : String) :
    leading (c.render ++ s) = some c.form := by
  cases c with
  | int value =>
    rw [render]
    split <;> simp [leading, form]
  | uint value =>
    obtain ⟨d, head, digit⟩ := head_number value.toNat s
    rw [render, longWord, leading, head]
    split <;> simp_all [form]
  | float bits => cases plain
  | bool value => cases value <;> simp [render, leading, form]
  | bytes bs => simp [render, leading, form]
  | text t => simp [render, escaped, leading, form]
  | item path => simp [render, Path.render, ItemPath.render, leading, form]
  | address path offset => cases offset <;> simp [render, leading, form]

theorem int_tells (v w : Int64) : TellsBefore (Halts Char.isDigit) (int v).render (int w).render (v = w) := by
  have numbers := TellsBefore.number v.toInt.natAbs w.toInt.natAbs
  rw [render, render]
  split <;> split
  case isTrue.isTrue negative negative' =>
    apply (numbers.after "-").imp
    intro same
    rw [Int64.lt_iff_toInt_lt] at negative negative'
    exact Int64.toInt_inj.1 (by simp at *; omega)
  case isFalse.isFalse positive positive' =>
    apply (numbers.after "+").imp
    intro same
    rw [Int64.lt_iff_toInt_lt] at positive positive'
    exact Int64.toInt_inj.1 (by simp at *; omega)
  case isTrue.isFalse => exact .apart ((Starts.refl "-").append _) ((Starts.refl "+").append _) (by decide)
  case isFalse.isTrue => exact .apart ((Starts.refl "+").append _) ((Starts.refl "-").append _) (by decide)

theorem bytes_tells {Next : String → Prop} (bs cs : List UInt8) :
    TellsBefore Next (bytes bs).render (bytes cs).render (bs = cs) := by
  have inside : TellsBefore (Starts "]") (separated " " (bs.map fun b => hex b.toNat))
      (separated " " (cs.map fun b => hex b.toNat)) (bs = cs) := by
    have last (s : String) (closes : Starts "]" s) : Halts isNameChar s := closes.halts rfl
    rw [map_eq_numbered _ 0, map_eq_numbered _ 0]
    apply TellsBefore.separated (fun _ _ => trivial) (fun _ _ => trivial)
      (fun a _ b (_ : True) _ => (hex_tells a.toNat b.toNat).imp UInt8.toNat_inj.1)
    · exact Halts.append rfl
    · exact last
    · exact fun s closes => closes.not_starts (by decide)
    · exact fun s closes b _ _ => (last s closes).not_starts_all hex_ne_empty isNameChar_of_mem_hex
  exact inside.enclosed "[" "]" fun s => ⟨s, rfl⟩

theorem render_address (path : Path) (offset : Option UInt64) :
    (address path offset).render = "&" ++ path.render ++ withFront "+" longWord offset := by
  cases offset <;> simp [render, withFront, String.append_assoc]

theorem unlike_tell {Next : String → Prop} {a b : Constant} {P : Prop} (plain : a.isPlain) (plain' : b.isPlain)
    (differ : a.form ≠ b.form) : TellsBefore Next a.render b.render P :=
  .unlike (fun s _ => leading_render a plain s) (fun s _ => leading_render b plain' s) differ

theorem tells {a b : Constant} (plain : a.isPlain) (plain' : b.isPlain) :
    TellsBefore (Halts inConstant) a.render b.render (a = b) := by
  cases a with
  | int v =>
    cases b with
    | int w => exact ((int_tells v w).imp (congrArg _)).weaken fun s => Halts.number
    | _ => exact unlike_tell plain plain' nofun
  | uint m =>
    cases b with
    | uint n => exact ((TellsBefore.longWord m n).imp (congrArg _)).weaken fun s => Halts.number
    | _ => exact unlike_tell plain plain' nofun
  | float bits => cases plain
  | bool v =>
    cases b with
    | bool w =>
      cases v <;> cases w
      case true.true | false.false => exact .same rfl
      case true.false | false.true => exact .apart (.refl _) (.refl _) (by decide)
    | _ => exact unlike_tell plain plain' nofun
  | bytes bs =>
    cases b with
    | bytes cs => exact (bytes_tells bs cs).imp (congrArg _)
    | _ => exact unlike_tell plain plain' nofun
  | text t =>
    cases b with
    | text u => exact (escaped_tells t u).imp (congrArg _)
    | _ => exact unlike_tell plain plain' nofun
  | item path =>
    cases b with
    | item path' =>
      exact ((Path.tells plain plain').imp (congrArg _)).weaken fun s => Halts.path
    | _ => exact unlike_tell plain plain' nofun
  | address path offset =>
    cases b with
    | address path' offset' =>
      rw [render_address, render_address]
      apply ((Path.tells plain plain').after "&").append
      · rintro rfl
        apply (TellsBefore.option _ _ offset offset').imp (congrArg _)
        · exact fun m n => (TellsBefore.longWord m n).weaken fun s => Halts.number
        · exact fun s halts => halts.not_starts rfl
      · exact fun s halts => halts.path.withFront "+" rfl _ _
      · exact fun s halts => halts.path.withFront "+" rfl _ _
    | _ => exact unlike_tell plain plain' nofun

end Constant

end MidIR
