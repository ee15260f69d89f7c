import Mathlib.Data.List.TakeWhile
import MidIR.Tool.Storage

namespace MidIR.Tool

/-- The last component of a path but for empty ones and single points. -/
structure NamesFile (path : String) (name : List Char) : Prop where
  components : ∃ front back, path.toList = ['/'].intercalate (front ++ name :: back) ∧
    (∀ part ∈ front ++ name :: back, '/' ∉ part) ∧ ∀ part ∈ back, part = [] ∨ part = ['.']
  filled : name ≠ []
  other : name ≠ ['.']

/-- The file name ends in `.json`, with letters of either case, and does not start there. -/
def NamesJson (path : String) : Prop :=
  ∃ stem letters, stem ≠ [] ∧ letters.map Char.toLower = ['j', 's', 'o', 'n'] ∧
    NamesFile path (stem ++ '.' :: letters)

/-- A file holds what it is asked to hold, else JSON text if its name says so. -/
inductive Resolves : Option Format → String → Format → Prop
  | asked (format : Format) (path : String) : Resolves (some format) path format
  | json {path : String} : NamesJson path → Resolves none path .json
  | binary {path : String} : ¬ NamesJson path → Resolves none path .binary

variable {path : String}

/-! ## File names -/

theorem not_mem_of_mem_splitOn {α : Type} [DecidableEq α] {separator : α} {as part : List α}
    (member : part ∈ as.splitOn separator) : separator ∉ part := by
  induction as generalizing part with
  | nil =>
    rw [List.splitOn_nil, List.mem_singleton] at member
    rw [member]
    exact List.not_mem_nil
  | cons a as ih =>
    rw [List.splitOn_cons_eq_if_modifyHead] at member
    split at member
    · rcases List.mem_cons.1 member with rfl | member
      · exact List.not_mem_nil
      · exact ih member
    · rename_i other
      obtain ⟨head, tail, split⟩ := List.exists_cons_of_ne_nil (List.splitOn_ne_nil separator as)
      rw [split] at ih member
      rcases List.mem_cons.1 member with rfl | member
      · exact List.not_mem_cons_of_ne_of_not_mem (fun same => other (beq_iff_eq.2 same.symm))
          (ih List.mem_cons_self)
      · exact ih (List.mem_cons_of_mem head member)

theorem splitOn_eq_iff {α : Type} [DecidableEq α] {separator : α} {as : List α} {parts : List (List α)}
    (some : parts ≠ []) : as.splitOn separator = parts ↔
      as = [separator].intercalate parts ∧ ∀ part ∈ parts, separator ∉ part := by
  constructor
  · rintro rfl
    exact ⟨(List.intercalate_splitOn separator).symm, fun part => not_mem_of_mem_splitOn⟩
  · rintro ⟨rfl, apart⟩
    exact List.splitOn_intercalate separator apart some

theorem getLast?_filter_eq_some {α : Type} {p : α → Bool} {as : List α} {a : α} :
    (as.filter p).getLast? = some a ↔
      ∃ front back, as = front ++ a :: back ∧ p a ∧ ∀ b ∈ back, ¬ p b := by
  rw [List.getLast?_eq_some_iff]
  constructor
  · rintro ⟨kept, filtered⟩
    obtain ⟨front, rest, rfl, -, last⟩ := List.filter_eq_append_iff.1 filtered
    obtain ⟨skipped, back, rfl, -, holds, nothing⟩ := List.filter_eq_cons_iff.1 last
    exact ⟨front ++ skipped, back, by simp, holds, List.filter_eq_nil_iff.1 nothing⟩
  · rintro ⟨front, back, rfl, holds, fails⟩
    refine ⟨front.filter p, ?_⟩
    rw [List.filter_append, List.filter_cons_of_pos holds, List.filter_eq_nil_iff.2 fails]

theorem namesFile_iff {name : List Char} : NamesFile path name ↔
    ((path.toList.splitOn '/').filter fun part => part ≠ [] ∧ part ≠ ['.']).getLast? = some name := by
  rw [getLast?_filter_eq_some]
  constructor
  · rintro ⟨⟨front, back, joined, apart, empty⟩, filled, other⟩
    refine ⟨front, back, (splitOn_eq_iff (by simp)).2 ⟨joined, apart⟩, by simp [filled, other], ?_⟩
    intro part member
    rcases empty part member with rfl | rfl <;> simp
  · rintro ⟨front, back, split, named, empty⟩
    obtain ⟨joined, apart⟩ := (splitOn_eq_iff (by simp)).1 split
    obtain ⟨filled, other⟩ := of_decide_eq_true named
    refine ⟨⟨front, back, joined, apart, fun part member => ?_⟩, filled, other⟩
    have skipped := empty part member
    simpa [Decidable.or_iff_not_imp_left] using skipped

theorem ofList_eq_iff {cs : List Char} {text : String} : String.ofList cs = text ↔ cs = text.toList := by
  rw [← String.toList_inj, String.toList_ofList]

theorem fileName?_eq_some {name : String} :
    fileName? path = some name ↔ NamesFile path name.toList ∧ name ≠ ".." := by
  have pieces : ((Text.pieces '/' path).filter fun name => name ≠ "" ∧ name ≠ ".").getLast? =
      ((path.toList.splitOn '/').filter fun part => part ≠ [] ∧ part ≠ ['.']).getLast?.map .ofList := by
    rw [Text.pieces, List.filter_map, List.getLast?_map]
    congr 2
    refine List.filter_congr fun part _ => decide_eq_decide.2 ?_
    exact and_congr (not_congr ofList_eq_iff) (not_congr ofList_eq_iff)
  rw [fileName?, pieces, namesFile_iff]
  cases (List.filter _ _).getLast? with
  | none => simp
  | some part =>
    rw [Option.map_some, Option.some.injEq, ← ofList_eq_iff]
    change (if String.ofList part = ".." then none else some (String.ofList part)) = some name ↔ _
    split
    · rename_i up
      constructor
      · intro nothing
        cases nothing
      · rintro ⟨rfl, down⟩
        exact absurd up down
    · rename_i down
      rw [Option.some.injEq]
      constructor
      · rintro rfl
        exact ⟨rfl, down⟩
      · exact And.left

/-! ## What file names tell -/

theorem nameExtension?_eq_some {name extension : List Char} : nameExtension? name = some extension ↔
    '.' ∉ extension ∧ ∃ stem, stem ≠ [] ∧ name = stem ++ '.' :: extension := by
  constructor
  · intro found
    unfold nameExtension? at found
    split at found
    · rename_i point last front dropped
      cases found
      have stopped := List.head?_dropWhile_not (· ≠ '.') name.reverse
      have whole := List.takeWhile_append_dropWhile (p := (· ≠ '.')) (l := name.reverse)
      rw [dropped] at stopped whole
      obtain rfl : point = '.' := Decidable.not_not.1 (of_decide_eq_false stopped)
      refine ⟨fun member => ?_, (last :: front).reverse, by simp, ?_⟩
      · have other := List.mem_takeWhile_imp (List.mem_reverse.1 member)
        exact of_decide_eq_true other rfl
      · have name_eq := congrArg List.reverse whole
        rw [List.reverse_reverse, List.reverse_append, List.reverse_cons, List.append_assoc] at name_eq
        exact name_eq.symm
    · cases found
  · rintro ⟨apart, stem, filled, rfl⟩
    have plain : ∀ c ∈ extension.reverse, decide (c ≠ '.') = true := by
      rintro c member
      exact decide_eq_true fun same => apart (by rwa [same, List.mem_reverse] at member)
    obtain ⟨last, front, reversed⟩ := List.exists_cons_of_ne_nil (mt List.reverse_eq_nil_iff.1 filled)
    rw [nameExtension?, List.reverse_append, List.reverse_cons, List.append_assoc,
      List.dropWhile_append_of_pos plain, List.takeWhile_append_of_pos plain, reversed]
    simp

theorem extension?_eq_some {extension : List Char} : extension? path = some extension ↔
    '.' ∉ extension ∧ ∃ stem, stem ≠ [] ∧ NamesFile path (stem ++ '.' :: extension) ∧
      stem ++ '.' :: extension ≠ ['.', '.'] := by
  simp only [extension?, Option.bind_eq_some_iff, fileName?_eq_some, nameExtension?_eq_some]
  constructor
  · rintro ⟨name, ⟨named, down⟩, apart, stem, filled, written⟩
    refine ⟨apart, stem, filled, written ▸ named, ?_⟩
    rw [← written]
    exact fun up => down (String.toList_inj.1 up)
  · rintro ⟨apart, stem, filled, named, down⟩
    refine ⟨.ofList (stem ++ '.' :: extension), ⟨?_, ?_⟩, apart, stem, filled, String.toList_ofList⟩
    · rwa [String.toList_ofList]
    · exact mt ofList_eq_iff.1 down

theorem ofPath_eq_json : Format.ofPath path = .json ↔ NamesJson path := by
  unfold Format.ofPath
  constructor
  · intro json
    split at json
    · rename_i named
      obtain ⟨letters, found, lower⟩ := Option.map_eq_some_iff.1 named
      obtain ⟨-, stem, filled, named, -⟩ := extension?_eq_some.1 found
      exact ⟨stem, letters, filled, lower, named⟩
    · cases json
  · rintro ⟨stem, letters, filled, lower, named⟩
    have apart : '.' ∉ letters := by
      intro member
      have lowered := List.mem_map_of_mem (f := Char.toLower) member
      rw [lower] at lowered
      revert lowered
      decide
    have long : stem ++ '.' :: letters ≠ ['.', '.'] := by
      intro short
      have lengths := congrArg List.length short
      have four := congrArg List.length lower
      simp at lengths four
      omega
    rw [extension?_eq_some.2 ⟨apart, stem, filled, named, long⟩, Option.map_some, lower, if_pos rfl]

theorem resolves_iff {asked : Option Format} {format : Format} :
    Resolves asked path format ↔ Format.resolve asked path = format := by
  constructor
  · intro resolves
    cases resolves with
    | asked => rfl
    | json named => exact ofPath_eq_json.2 named
    | binary unnamed => exact if_neg fun named => unnamed (ofPath_eq_json.1 (if_pos named))
  · rintro rfl
    cases asked with
    | some format => exact .asked format path
    | none =>
      by_cases named : NamesJson path
      · rw [Format.resolve, Option.getD_none, ofPath_eq_json.2 named]
        exact .json named
      · have other : Format.ofPath path = .binary := if_neg fun json => named (ofPath_eq_json.1 (if_pos json))
        rw [Format.resolve, Option.getD_none, other]
        exact .binary named

end MidIR.Tool
