import MidIR.Json.Token

namespace MidIR.Json

inductive Expect
  | value
  | first
  | key
  | colon
  | next
  deriving DecidableEq, Repr

structure Skip where
  expect : Expect
  stack : List Bracket
  deriving DecidableEq, Repr

namespace Skip

def behindValue : List Bracket → Option Skip
  | [] => none
  | stack => some ⟨.next, stack⟩

def value (stack : List Bracket) : Token → Except Fault (Option Skip)
  | .null | .bool _ => .ok (behindValue stack)
  | .text _ skip | .number _ skip => skip.map fun _ => behindValue stack
  | .opening bracket => .ok (some ⟨.first, bracket :: stack⟩)
  | .broken fault => .error fault
  | _ => .error .malformed

def key (stack : List Bracket) : Token → Except Fault (Option Skip)
  | .text _ skip => skip.map fun _ => some ⟨.colon, stack⟩
  | _ => .error .malformed

/-- The state behind a token; none when the value to skip ends with it. -/
def step (state : Skip) (token : Token) : Except Fault (Option Skip) :=
  match state.expect, state.stack, token with
  | .value, stack, token => value stack token
  | .first, .square :: stack, .closing .square => .ok (behindValue stack)
  | .first, .curly :: stack, .closing .curly => .ok (behindValue stack)
  | .first, .curly :: stack, token => key (.curly :: stack) token
  | .first, stack, token => value stack token
  | .key, stack, token => key stack token
  | .colon, stack, .colon => .ok (some ⟨.value, stack⟩)
  | .next, .square :: stack, .comma => .ok (some ⟨.value, .square :: stack⟩)
  | .next, .curly :: stack, .comma => .ok (some ⟨.key, .curly :: stack⟩)
  | .next, .square :: stack, .closing .square => .ok (behindValue stack)
  | .next, .curly :: stack, .closing .curly => .ok (behindValue stack)
  | _, _, _ => .error .malformed

def run (state : Skip) : List Token → Except Fault (List Token)
  | [] => .error .truncated
  | token :: tokens =>
    match state.step token with
    | .error fault => .error fault
    | .ok none => .ok tokens
    | .ok (some next) => next.run tokens

end Skip

end MidIR.Json
