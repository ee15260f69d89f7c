import MidIR.Proofs.Text.Nodes
import MidIR.Text.Listing
import MidIR.Proofs.Equality

namespace MidIR

open Text

theorem Text.ended_flatMap {α : Type} (ending : String) (write : α → List String) (values : List α) :
    ended ending (values.flatMap write) = String.join (values.map fun a => ended ending (write a)) := by
  induction values with
  | nil => rfl
  | cons a values ih => rw [List.flatMap_cons, ended_append, ih, List.map_cons, String.join_cons]

theorem Terminator.not_starts_statement (t : Terminator) (statement : Statement) (s : String) :
    ¬ Starts statement.render (t.render ++ ("\n" ++ s)) := by
  -- The first words agree only for the return slot, which goes on in a statement but not in a terminator.
  rintro ⟨r, equal⟩
  rw [Statement.render, String.append_assoc, String.append_assoc, String.append_assoc] at equal
  have alike : ∀ f ∈ titles.all, ∀ g ∈ Place.forms.all, titles.name f = Place.forms.name g →
      f = .ret ∧ g = .returnSlot := by decide
  have lineEnd : ∀ s, Halts Char.isAlpha ("\n" ++ s) := Halts.append rfl
  have assigned : ∀ s, Halts Char.isAlpha (" = " ++ s) := Halts.append rfl
  have words : titles.name t.form = Place.forms.name statement.target.form := by
    rw [← t.firstWord_render (lineEnd s), equal]
    exact statement.target.firstWord_render (assigned _)
  obtain ⟨formT, formP⟩ := alike _ (titles.complete _) _ (Place.forms.complete _) words
  have ret : t = .ret := by cases t <;> first | rfl | cases formT
  have slot : statement.target = .returnSlot := by
    generalize statement.target = p at formP
    cases p <;> first | rfl | cases formP
  rw [ret, slot] at equal
  have behind : "\n" ++ s = " = " ++ (statement.source.render ++ (";" ++ r)) :=
    (String.append_right_inj "Return").1 equal
  exact absurd ⟨_, behind⟩ (((Starts.refl "\n").append s).not_starts (by decide : Apart "\n" " = "))

namespace Block

def text (block : Block) (label : Label) : String :=
  ended "\n" (block.lines label)

def statementLines (block : Block) : List String :=
  block.statements.map fun statement => "    " ++ statement.render

theorem text_eq (block : Block) (label : Label) : block.text label =
    "  " ++ label.render ++ ": \x7b\n" ++
      (ended "\n" block.statementLines ++ ("    " ++ block.terminator.render ++ "\n  \x7d\n")) := by
  have opening : ": \x7b" ++ "\n" = ": \x7b\n" := rfl
  have closing : "\n" ++ ("  \x7d" ++ "\n") = "\n  \x7d\n" := rfl
  rw [← opening, ← closing]
  simp only [text, lines, statementLines, ended_append, ended, String.append_assoc, String.append_empty]

theorem starts_text (block : Block) (label : Label) : Starts "  bb" (block.text label) := by
  rw [text_eq]
  exact (((Starts.refl "bb").append _).after "  " |>.append _).append _

def Exits (s : String) : Prop :=
  ∃ (t : Terminator) (r : String), s = "    " ++ (t.render ++ ("\n" ++ r))

theorem statements_tell {block other : Block} (plain : ∀ s ∈ block.statements, s.isPlain)
    (plain' : ∀ s ∈ other.statements, s.isPlain) :
    TellsBefore Exits (ended "\n" block.statementLines) (ended "\n" other.statementLines)
      (block.statements = other.statements) := by
  have each : ∀ s ∈ block.statements, ∀ t, t.isPlain → ∀ _ : Nat,
      TellsBefore (fun _ => True) ("    " ++ s.render) ("    " ++ t.render) (s = t) :=
    fun s member t good _ => (Statement.tells (plain s member) good).after _
  rw [statementLines, statementLines, map_eq_numbered _ 0, map_eq_numbered _ 0]
  apply TellsBefore.ended plain plain' each
  · exact fun _ => trivial
  · rintro _ ⟨t, r, rfl⟩ statement _ _ ⟨r', equal⟩
    rw [String.append_assoc, String.append_right_inj] at equal
    exact t.not_starts_statement statement r ⟨r', equal⟩

theorem text_tells {Next : String → Prop} {block other : Block} (plain : block.isPlain)
    (plain' : other.isPlain) (label : Label) :
    TellsBefore Next (block.text label) (other.text label) (block = other) := by
  simp only [Block.isPlain, Bool.and_eq_true, List.all_eq_true] at plain plain'
  have exit : TellsBefore Next ("    " ++ block.terminator.render ++ "\n  \x7d\n")
      ("    " ++ other.terminator.render ++ "\n  \x7d\n") (block.terminator = other.terminator) :=
    (Terminator.tells plain.2 plain'.2).enclosed "    " "\n  \x7d\n" (Halts.append rfl)
  have exits (t : Terminator) (s : String) : Exits ("    " ++ t.render ++ "\n  \x7d\n" ++ s) := by
    have lines : "\n  \x7d\n" = "\n" ++ "  \x7d\n" := rfl
    exact ⟨t, "  \x7d\n" ++ s, by rw [lines]; simp only [String.append_assoc]⟩
  rw [text_eq, text_eq]
  apply TellsBefore.after
  apply (statements_tell plain.1 plain'.1).append
  · intro same
    apply exit.imp
    cases block; cases other
    simp_all
  · exact fun s _ => exits _ s
  · exact fun s _ => exits _ s

end Block

theorem declarationLines_eq (start finish : String) (types : List Ty) :
    declarationLines start finish types =
      numbered (fun i ty => start ++ i.repr ++ ": " ++ ty.render ++ finish) 0 types := rfl

theorem declarations_tell {start : String} {Last : String → Prop} {types others : List Ty}
    (plain : ∀ t ∈ types, t.isPlain) (plain' : ∀ t ∈ others, t.isPlain)
    (apart : ∀ s, Last s → ¬ Starts start s) :
    TellsBefore Last (ended "\n" (declarationLines start ";" types))
      (ended "\n" (declarationLines start ";" others)) (types = others) := by
  have each : ∀ t ∈ types, ∀ u, u.isPlain → ∀ i : Nat,
      TellsBefore (fun _ => True) (start ++ i.repr ++ ": " ++ t.render ++ ";")
        (start ++ i.repr ++ ": " ++ u.render ++ ";") (t = u) :=
    fun t member u good i => ((Ty.tells t u (plain t member) good).after _).before ";" (Halts.append rfl)
  rw [declarationLines_eq, declarationLines_eq]
  apply TellsBefore.ended plain plain' each
  · exact fun _ => trivial
  · intro s last u _ i starts
    exact apart s last starts.of_append.of_append.of_append.of_append

theorem arguments_tell {types others : List Ty} (plain : ∀ t ∈ types, t.isPlain)
    (plain' : ∀ t ∈ others, t.isPlain) :
    TellsBefore (Starts ")") (separated ", " (declarationLines "arg" "" types))
      (separated ", " (declarationLines "arg" "" others)) (types = others) := by
  have each : ∀ t ∈ types, ∀ u, u.isPlain → ∀ i : Nat,
      TellsBefore (Halts inPath) ("arg" ++ i.repr ++ ": " ++ t.render ++ "")
        ("arg" ++ i.repr ++ ": " ++ u.render ++ "") (t = u) := by
    intro t member u good i
    simpa using (Ty.tells t u (plain t member) good).after ("arg" ++ i.repr ++ ": ")
  rw [declarationLines_eq, declarationLines_eq]
  apply TellsBefore.separated plain plain' each
  · exact Halts.append rfl
  · exact fun s closes => closes.halts rfl
  · exact fun s closes => closes.not_starts (by decide)
  · intro s closes u _ i starts
    exact closes.not_starts (by decide) starts.of_append.of_append.of_append.of_append

namespace Body

def signature (body : Body) : String :=
  "fn(" ++ separated ", " (declarationLines "arg" "" body.args) ++ ") -> " ++ body.result.render ++ " \x7b\n"

def blockTexts (body : Body) : List String :=
  numbered (fun i block => Block.text block (.ofNat i)) 0 body.blocks

theorem listing_eq (body : Body) : body.listing =
    body.signature ++ ended "\n" (declarationLines "  let var" ";" body.vars) ++
      ended "\n" (declarationLines "  let tmp" ";" body.temps) ++ String.join body.blockTexts ++ "\x7d\n" := by
  have opening : " \x7b" ++ "\n" = " \x7b\n" := rfl
  have closing : "\x7d" ++ "\n" = "\x7d\n" := rfl
  have blocks : body.labelledBlocks.map (fun labelled => ended "\n" (labelled.2.lines labelled.1)) = body.blockTexts := by
    simp [labelledBlocks, blockTexts, numbered, Block.text]
  rw [← closing, signature, ← opening, ← blocks]
  simp only [listing, ended_append, ended_flatMap, ended, String.append_assoc, String.append_empty]

theorem signature_tells {a b : Body} (plain : a.isPlain) (plain' : b.isPlain) :
    TellsBefore (fun _ => True) a.signature b.signature (a.args = b.args ∧ a.result = b.result) := by
  simp only [Body.isPlain, Bool.and_eq_true, List.all_eq_true] at plain plain'
  obtain ⟨⟨⟨⟨args, result⟩, -⟩, -⟩, -⟩ := plain
  obtain ⟨⟨⟨⟨args', result'⟩, -⟩, -⟩, -⟩ := plain'
  have closes : ∀ s, Starts ")" (") -> " ++ s) := Starts.of_eq_append (w := " -> ") rfl
  exact (((arguments_tell args args').after "fn(").pair ") -> " closes (Ty.tells _ _ result result')).before
    " \x7b\n" (Halts.append rfl)

theorem blocks_tell {a b : Body} (plain : ∀ block ∈ a.blocks, block.isPlain)
    (plain' : ∀ block ∈ b.blocks, block.isPlain) :
    TellsBefore (Starts "\x7d") (String.join a.blockTexts) (String.join b.blockTexts) (a.blocks = b.blocks) := by
  have each : ∀ block ∈ a.blocks, ∀ other, other.isPlain → ∀ i : Nat,
      TellsBefore (fun _ => True) (block.text (.ofNat i)) (other.text (.ofNat i)) (block = other) :=
    fun block member other good i => Block.text_tells (plain block member) good _
  apply TellsBefore.join plain plain' each
  · exact fun _ _ => trivial
  · exact fun _ _ _ _ => trivial
  · intro s closes block _ i starts
    exact closes.not_starts (by decide) ((block.starts_text _).trans starts)

structure Continues (s : String) : Prop where
  vars : ¬ Starts "  let var" s
  temps : ¬ Starts "  let tmp" s

theorem Continues.of_starts {front s : String} (starts : Starts front s) (vars : Apart front "  let var")
    (temps : Apart front "  let tmp") : Continues s :=
  ⟨starts.not_starts vars, starts.not_starts temps⟩

theorem not_starts_temps (types : List Ty) {s : String} (continues : Continues s) :
    ¬ Starts "  let var" (ended "\n" (declarationLines "  let tmp" ";" types) ++ s) := by
  rw [declarationLines_eq, ended_eq_join, map_numbered]
  apply next_join (fun s (continues : Continues s) => continues.vars) _ 0 s continues
  intro t _ i s
  have starts := (Starts.refl "  let tmp").append i.repr |>.append ": " |>.append t.render |>.append ";"
  exact ((starts.append "\n").append s).not_starts (by decide)

theorem continues_blocks (body : Body) {s : String} (closes : Starts "\x7d" s) :
    Continues (String.join body.blockTexts ++ s) := by
  have last (s : String) (closes : Starts "\x7d" s) : Continues s :=
    .of_starts closes (by decide) (by decide)
  apply next_join last _ 0 s closes
  exact fun block _ i s => .of_starts ((block.starts_text _).append s) (by decide) (by decide)

theorem tells {a b : Body} (plain : a.isPlain) (plain' : b.isPlain) :
    TellsBefore (fun _ => True) a.listing b.listing (a = b) := by
  have signatures := signature_tells plain plain'
  simp only [Body.isPlain, Bool.and_eq_true, List.all_eq_true] at plain plain'
  obtain ⟨⟨⟨-, vars⟩, temps⟩, blocks⟩ := plain
  obtain ⟨⟨⟨-, vars'⟩, temps'⟩, blocks'⟩ := plain'
  have varLines := declarations_tell vars vars' fun s (bare : ¬ Starts "  let var" s) => bare
  have tempLines := declarations_tell temps temps' fun s (continues : Continues s) => continues.temps
  rw [listing_eq, listing_eq]
  -- Each part is told before the parts behind it, none of which starts with a line of its own sort.
  have declared := (signatures.and varLines).append (fun same => tempLines.imp fun also => And.intro same also)
    (fun s => not_starts_temps a.temps) (fun s => not_starts_temps b.temps)
  have all := declared.append (fun same => (blocks_tell blocks blocks').imp fun also => And.intro same also)
    (fun s => a.continues_blocks) (fun s => b.continues_blocks)
  apply (all.before "\x7d\n" (Starts.of_eq_append (w := "\n") rfl)).imp
  cases a; cases b
  rintro ⟨⟨⟨⟨rfl, rfl⟩, rfl⟩, rfl⟩, rfl⟩
  rfl

end Body

theorem Text.TellsBefore.beq_iff {α : Type} [BEq α] [LawfulBEq α] {render : α → String} {a b : α}
    {Next : String → Prop} (tells : TellsBefore Next (render a) (render b) (a = b)) {s : String}
    (next : Next s) : render a = render b ↔ a == b := by
  rw [beq_iff_eq]
  exact ⟨tells.of_eq next, congrArg render⟩

/-- A plain body is the only one of its listing. The same goes for the readable forms of plain types,
places, expressions, statements and terminators. -/
theorem listing_identifies :
    (∀ a b : Body, a.isPlain → b.isPlain → (a.listing = b.listing ↔ a == b)) ∧
    (∀ p q : Place, p.isPlain → q.isPlain → (p.render = q.render ↔ p == q)) ∧
    (∀ t u : Ty, t.isPlain → u.isPlain → (t.render = u.render ↔ t == u)) ∧
    (∀ e f : Expr, e.isPlain → f.isPlain → (e.render = f.render ↔ e == f)) ∧
    (∀ s t : Statement, s.isPlain → t.isPlain → (s.render = t.render ↔ s == t)) ∧
    (∀ t u : Terminator, t.isPlain → u.isPlain → (t.render = u.render ↔ t == u)) := by
  have lineEnd : ∀ s, Halts inConstant ("\n" ++ s) := Halts.append rfl
  refine ⟨?_, ?_, ?_, ?_, ?_, ?_⟩
  · intro a b plain plain'
    exact (Body.tells plain plain').beq_iff (s := "") trivial
  · intro p q plain plain'
    exact (Place.tells p q plain plain').beq_iff (lineEnd "")
  · intro t u plain plain'
    exact (Ty.tells t u plain plain').beq_iff (lineEnd "").path
  · intro e f plain plain'
    exact (Expr.tells plain plain').beq_iff (lineEnd "")
  · intro s t plain plain'
    exact (Statement.tells plain plain').beq_iff (lineEnd "")
  · intro t u plain plain'
    exact (Terminator.tells plain plain').beq_iff (lineEnd "").letters

def Body.returning (constant : Constant) : Body where
  args := []
  result := .path ⟨"core", ["Option"]⟩ [.tuple [.scalar .u8]]
  blocks := [{ statements := [⟨.returnSlot, .use (.constant constant)⟩], terminator := .ret }]

/-- The sign tells a signed number from an unsigned one, and likewise for the other nodes. -/
theorem listing_identifies_signs :
    (Body.returning (.int 2)).listing ≠ (Body.returning (.uint 2)).listing ∧
    Place.render (.deref (.field (.var 0) 1)) ≠ Place.render (.field (.deref (.var 0)) 1) ∧
    Ty.render (.tuple [.scalar .u8]) ≠ Ty.render (.tuple [.scalar .u8, .tuple []]) ∧
    Expr.render (.use (.constant (.text "2"))) ≠ Expr.render (.use (.constant (.bytes [2]))) ∧
    Statement.render ⟨.returnSlot, .tuple []⟩ ≠ Statement.render ⟨.returnSlot, .array []⟩ ∧
    Terminator.render .ret ≠ Terminator.render .incomplete := by
  obtain ⟨bodies, places, types, exprs, statements, terminators⟩ := listing_identifies
  refine ⟨?_, ?_, ?_, ?_, ?_, ?_⟩
  · exact fun same => absurd ((bodies _ _ (by decide) (by decide)).1 same) (by decide)
  · exact fun same => absurd ((places _ _ (by decide) (by decide)).1 same) (by decide)
  · exact fun same => absurd ((types _ _ (by decide) (by decide)).1 same) (by decide)
  · exact fun same => absurd ((exprs _ _ (by decide) (by decide)).1 same) (by decide)
  · exact fun same => absurd ((statements _ _ (by decide) (by decide)).1 same) (by decide)
  · exact fun same => absurd ((terminators _ _ (by decide) (by decide)).1 same) (by decide)

end MidIR
