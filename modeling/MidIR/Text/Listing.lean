import MidIR.Text.Render

namespace MidIR

open Text

def declarationLines (start finish : String) (types : List Ty) : List String :=
  types.zipIdx.map fun (ty, i) => start ++ i.repr ++ ": " ++ ty.render ++ finish

def Block.lines (block : Block) (label : Label) : List String :=
  ["  " ++ label.render ++ ": \x7b"]
    ++ block.statements.map (fun statement => "    " ++ statement.render)
    ++ ["    " ++ block.terminator.render, "  \x7d"]

def Body.listing (body : Body) : String :=
  let signature := "fn(" ++ separated ", " (declarationLines "arg" "" body.args) ++ ") -> "
    ++ body.result.render ++ " \x7b"
  ended "\n" ([signature]
    ++ declarationLines "  let var" ";" body.vars
    ++ declarationLines "  let tmp" ";" body.temps
    ++ body.labelledBlocks.flatMap (fun (label, block) => block.lines label)
    ++ ["\x7d"])

end MidIR
