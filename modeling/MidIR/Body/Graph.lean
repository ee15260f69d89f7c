import MidIR.Body.Basic

namespace MidIR.Body

def jumps (body : Body) : List (Label × Label) :=
  body.labelledBlocks.flatMap fun (label, block) => block.successors.map fun target => (label, target)

/-- Adds a source to the entry of a target in a table that is sorted by target. -/
def addSource (source target : Label) : List (Label × List Label) → List (Label × List Label)
  | [] => [(target, [source])]
  | (key, sources) :: table =>
    match target.compare key with
    | .lt => (target, [source]) :: (key, sources) :: table
    | .eq => (key, sources ++ [source]) :: table
    | .gt => (key, sources) :: addSource source target table

/-- The blocks that jump to each target, once for each jump, by target. -/
def predecessors (body : Body) : List (Label × List Label) :=
  body.jumps.foldl (fun table (source, target) => addSource source target table) []

def successorsOf (body : Body) (label : Label) : List Label :=
  match body.block? label with
  | some block => block.successors
  | none => []

def unseen (body : Body) (seen : List Label) : Nat :=
  (List.range body.blocks.length).countP fun i => Label.ofNat i ∉ seen

theorem countP_lt_of_imp {α : Type} {p q : α → Bool} {as : List α} (imp : ∀ a, p a → q a) {a : α}
    (member : a ∈ as) (holds : q a) (fails : ¬ p a) : as.countP p < as.countP q := by
  induction as with
  | nil => simp at member
  | cons b bs ih =>
    have le := List.countP_mono_left (l := bs) fun x _ => imp x
    rcases List.mem_cons.1 member with rfl | member
    · simp only [List.countP_cons, holds, fails]
      simp only [if_true, Bool.false_eq_true, if_false]
      omega
    · have less := ih member
      cases kept : p b with
      | true =>
        rw [List.countP_cons_of_pos kept, List.countP_cons_of_pos (imp b kept)]
        omega
      | false =>
        rw [List.countP_cons_of_neg (by simp [kept]), List.countP_cons]
        omega

theorem unseen_cons_le (body : Body) (label : Label) (seen : List Label) :
    body.unseen (label :: seen) ≤ body.unseen seen :=
  List.countP_mono_left (by simp)

theorem unseen_cons_lt {body : Body} {label : Label} {seen : List Label} (fresh : label ∉ seen)
    (inside : label.toNat < body.blocks.length) :
    body.unseen (label :: seen) < body.unseen seen := by
  have same : Label.ofNat label.toNat = label := by simp [Label.ofNat, Label.toNat]
  exact countP_lt_of_imp (by simp) (List.mem_range.2 inside) (by simpa [same] using fresh)
    (by simp [same])

theorem successorsOf_eq_nil {body : Body} {label : Label}
    (outside : body.blocks.length ≤ label.toNat) : body.successorsOf label = [] := by
  simp [successorsOf, block?, List.getElem?_eq_none outside]

/-- Follows jumps from the labels that wait, past those already seen. -/
def explore (body : Body) (seen waiting : List Label) : List Label :=
  match waiting with
  | [] => seen
  | label :: waiting =>
    if label ∈ seen then body.explore seen waiting
    else body.explore (label :: seen) (body.successorsOf label ++ waiting)
termination_by (body.unseen seen, waiting.length)
decreasing_by
  · exact Prod.Lex.right _ (by simp)
  · rename_i fresh
    by_cases inside : label.toNat < body.blocks.length
    · exact Prod.Lex.left _ _ (unseen_cons_lt fresh inside)
    · rw [successorsOf_eq_nil (by omega)]
      rcases Nat.lt_or_eq_of_le (body.unseen_cons_le label seen) with less | equal
      · exact Prod.Lex.left _ _ less
      · rw [equal]
        exact Prod.Lex.right _ (by simp)

/-- The labels that control can reach from the entry, in ascending order; none without an entry. -/
def reachable (body : Body) : List Label :=
  if body.blocks.isEmpty then []
  else (body.explore [] [.entry]).mergeSort fun a b => a.index ≤ b.index

def unreachable (body : Body) : List Label :=
  let reachable := body.reachable
  body.labels.filter fun label => label ∉ reachable

end MidIR.Body
