import Mathlib
import MidIR.Proofs.Body.Predecessors

namespace MidIR

/-! ## Jumps of a terminator -/

namespace Terminator

/-- What a terminator holds besides the blocks it leads to. -/
structure Held where
  form : Form
  operand : Option Operand
  callee : Option Callee
  arguments : List Operand
  result : Option Place

def held : Terminator → Held
  | .branch condition _ _ => ⟨.branch, some condition, none, [], none⟩
  | .switch value _ => ⟨.switch, some value, none, [], none⟩
  | .call callee arguments result _ _ => ⟨.call, none, some callee, arguments, some result⟩
  | other => ⟨other.form, none, none, [], none⟩

theorem eq_of_held {s t : Terminator} (held : s.held = t.held) (successors : s.successors = t.successors) :
    s = t := by
  cases s <;> cases t <;> simp_all [Terminator.held, Terminator.successors, form]

variable (f : Label → Label)

theorem held_mapSuccessors (terminator : Terminator) :
    (terminator.mapSuccessors f).held = terminator.held := by
  cases terminator <;> rfl

theorem mapSuccessors_eq_iff {s t : Terminator} :
    s.mapSuccessors f = t ↔ t.held = s.held ∧ t.successors = s.successors.map f := by
  constructor
  · rintro rfl
    exact ⟨s.held_mapSuccessors f, s.successors_mapSuccessors f⟩
  · rintro ⟨held, successors⟩
    apply eq_of_held
    · rw [held_mapSuccessors, held]
    · rw [successors_mapSuccessors, successors]

theorem isIncomplete_mapSuccessors (terminator : Terminator) :
    (terminator.mapSuccessors f).isIncomplete = terminator.isIncomplete := by
  cases terminator <;> rfl

theorem places_mapSuccessors (terminator : Terminator) :
    (terminator.mapSuccessors f).places = terminator.places := by
  cases terminator <;> rfl

end Terminator

namespace Block

variable (f : Label → Label) (block : Block)

def mapSuccessors : Block :=
  block.setTerminator (block.terminator.mapSuccessors f)

theorem successors_mapSuccessors : (block.mapSuccessors f).successors = block.successors.map f :=
  block.terminator.successors_mapSuccessors f

theorem isTerminated_mapSuccessors : (block.mapSuccessors f).isTerminated = block.isTerminated := by
  simp [isTerminated, mapSuccessors, setTerminator, Terminator.isIncomplete_mapSuccessors]

theorem places_mapSuccessors : (block.mapSuccessors f).places = block.places := by
  simp [places, mapSuccessors, setTerminator, Terminator.places_mapSuccessors]

end Block

/-! ## New numbers -/

section Relabel

variable {n : Nat} (σ : Equiv.Perm (Fin n))

/-- The new label of each block; those that label no block stay. -/
def relabel (label : Label) : Label :=
  if inside : label.toNat < n then .ofNat (σ ⟨label.toNat, inside⟩) else label

def Body.renumber (body : Body) (σ : Equiv.Perm (Fin body.blocks.length)) : Body :=
  { body with blocks := List.ofFn fun i => body.blocks[σ.symm i].mapSuccessors (relabel σ) }

variable {label : Label} (few : n ≤ 2 ^ 32)

theorem relabel_of_le (outside : n ≤ label.toNat) : relabel σ label = label :=
  dif_neg (Nat.not_lt.2 outside)

include few

theorem toNat_relabel (inside : label.toNat < n) :
    (relabel σ label).toNat = σ ⟨label.toNat, inside⟩ := by
  rw [relabel, dif_pos inside]
  exact Label.toNat_ofNat (Nat.lt_of_lt_of_le (Fin.is_lt _) few)

theorem relabel_ofNat (i : Fin n) : relabel σ (.ofNat i) = .ofNat (σ i) := by
  have number : (Label.ofNat i).toNat = i := Label.toNat_ofNat (Nat.lt_of_lt_of_le i.isLt few)
  simp [relabel, number]

theorem toNat_relabel_lt_iff : (relabel σ label).toNat < n ↔ label.toNat < n := by
  by_cases inside : label.toNat < n
  · simp [toNat_relabel σ few inside, inside]
  · rw [relabel_of_le σ (Nat.not_lt.1 inside)]

theorem relabel_injective : Function.Injective (relabel σ) := by
  have back (label : Label) : relabel σ.symm (relabel σ label) = label := by
    by_cases inside : label.toNat < n
    · have moved : relabel σ label = .ofNat (σ ⟨label.toNat, inside⟩) := dif_pos inside
      rw [moved, relabel_ofNat _ few, Equiv.symm_apply_apply]
      exact label.ofNat_toNat
    · have outside := Nat.not_lt.1 inside
      rw [relabel_of_le σ outside, relabel_of_le _ outside]
  exact Function.LeftInverse.injective back

end Relabel

namespace Body

/-! ## The graph -/

section Renumber

variable (body : Body) (σ : Equiv.Perm (Fin body.blocks.length))

theorem length_blocks_renumber : (body.renumber σ).blocks.length = body.blocks.length :=
  List.length_ofFn

theorem labelledBlocks_of_ofFn {n : Nat} {f : Fin n → Block} (built : body.blocks = List.ofFn f) :
    body.labelledBlocks = List.ofFn fun i => (.ofNat i, f i) := by
  apply List.ext_getElem?
  intro i
  simp [labelledBlocks, built, List.getElem?_ofFn]

variable (few : body.blocks.length ≤ 2 ^ 32)
include few

theorem block?_renumber (label : Label) : (body.renumber σ).block? (relabel σ label) =
    (body.block? label).map (·.mapSuccessors (relabel σ)) := by
  by_cases inside : label.toNat < body.blocks.length
  · rw [block?, block?, toNat_relabel σ few inside, List.getElem?_eq_getElem inside, renumber,
      List.getElem?_ofFn]
    simp
  · have outside := Nat.not_lt.1 inside
    rw [block?, block?, relabel_of_le σ outside, List.getElem?_eq_none outside,
      List.getElem?_eq_none (length_blocks_renumber body σ ▸ outside)]
    rfl

theorem successorsOf_renumber (label : Label) : (body.renumber σ).successorsOf (relabel σ label) =
    (body.successorsOf label).map (relabel σ) := by
  rw [successorsOf, successorsOf, block?_renumber body σ few]
  cases body.block? label with
  | none => rfl
  | some block => exact block.successors_mapSuccessors _

theorem explore_renumber (seen waiting : List Label) :
    (body.renumber σ).explore (seen.map (relabel σ)) (waiting.map (relabel σ)) =
      (body.explore seen waiting).map (relabel σ) := by
  have known (label : Label) (seen : List Label) :
      relabel σ label ∈ seen.map (relabel σ) ↔ label ∈ seen :=
    List.mem_map_of_injective (relabel_injective σ few)
  fun_induction body.explore seen waiting with
  | case1 seen => rw [List.map_nil, explore]
  | case2 seen label waiting seenBefore ih =>
    rw [List.map_cons, explore, if_pos ((known ..).2 seenBefore), ih]
  | case3 seen label waiting fresh ih =>
    rw [List.map_cons, explore, if_neg (fresh ∘ (known ..).1), successorsOf_renumber body σ few,
      ← List.map_append, ← List.map_cons, ih]

theorem reachable_renumber
    (entry : ∀ entered : 0 < body.blocks.length, σ ⟨0, entered⟩ = ⟨0, entered⟩) :
    (body.renumber σ).reachable.Perm (body.reachable.map (relabel σ)) := by
  have sameEntry : relabel σ .entry = .entry := by
    by_cases entered : 0 < body.blocks.length
    · exact (relabel_ofNat σ few ⟨0, entered⟩).trans (by rw [entry entered]; rfl)
    · exact relabel_of_le σ (Nat.not_lt.1 entered)
  by_cases empty : body.blocks.isEmpty
  · have emptyAfter : (body.renumber σ).blocks.isEmpty := by
      rwa [List.isEmpty_iff_length_eq_zero, length_blocks_renumber, ← List.isEmpty_iff_length_eq_zero]
    rw [reachable, reachable, if_pos empty, if_pos emptyAfter]
    exact .nil
  · have filledAfter : ¬ (body.renumber σ).blocks.isEmpty := by
      rwa [List.isEmpty_iff_length_eq_zero, length_blocks_renumber, ← List.isEmpty_iff_length_eq_zero]
    have explored := explore_renumber body σ few [] [.entry]
    rw [List.map_cons, List.map_nil, sameEntry] at explored
    rw [reachable, reachable, if_neg empty, if_neg filledAfter]
    refine (List.mergeSort_perm ..).trans ?_
    rw [explored]
    exact (List.mergeSort_perm ..).symm.map _

theorem labelledBlocks_renumber : (body.renumber σ).labelledBlocks.Perm
    (body.labelledBlocks.map fun (label, block) =>
      (relabel σ label, block.mapSuccessors (relabel σ))) := by
  rw [labelledBlocks_of_ofFn (body.renumber σ) rfl,
    labelledBlocks_of_ofFn body (List.ofFn_get body.blocks).symm, List.map_ofFn]
  -- Read in the new order, the new row is the old one.
  refine (Equiv.Perm.ofFn_comp_perm σ _).symm.trans (.of_eq ?_)
  congr 1
  funext i
  simp [relabel_ofNat σ few]

theorem jumps_renumber : (body.renumber σ).jumps.Perm
    (body.jumps.map fun (source, target) => (relabel σ source, relabel σ target)) := by
  refine ((labelledBlocks_renumber body σ few).flatMap_right _).trans (.of_eq ?_)
  simp [jumps, List.flatMap_map, List.map_flatMap, Block.successors_mapSuccessors, Function.comp_def]

theorem sources_renumber (target : Label) :
    (sources (body.renumber σ).jumps (relabel σ target)).Perm
      ((sources body.jumps target).map (relabel σ)) := by
  refine (((jumps_renumber body σ few).filter _).map _).trans (.of_eq ?_)
  simp [sources, List.filter_map, Function.comp_def, (relabel_injective σ few).eq_iff]

theorem lookup_predecessors_renumber (target : Label) :
    Option.Rel (fun sources moved => moved.Perm (sources.map (relabel σ)))
      (body.predecessors.lookup target) ((body.renumber σ).predecessors.lookup (relabel σ target)) := by
  have moved := sources_renumber body σ few target
  have nothing : sources (body.renumber σ).jumps (relabel σ target) = [] ↔
      sources body.jumps target = [] := by
    rw [← List.length_eq_zero_iff, moved.length_eq, List.length_map, List.length_eq_zero_iff]
  rw [lookup_predecessors, lookup_predecessors]
  by_cases none : sources body.jumps target = []
  · rw [if_pos none, if_pos (nothing.2 none)]
    exact .none
  · rw [if_neg none, if_neg (none ∘ nothing.1)]
    exact .some moved

theorem blocks_renumber :
    (body.renumber σ).blocks.Perm (body.blocks.map (·.mapSuccessors (relabel σ))) := by
  have blocks (body : Body) : body.labelledBlocks.map (·.2) = body.blocks := by
    simp [labelledBlocks, Function.comp_def]
  have moved := (labelledBlocks_renumber body σ few).map (·.2)
  rw [blocks] at moved
  refine moved.trans (.of_eq ?_)
  rw [List.map_map]
  change body.labelledBlocks.map ((·.mapSuccessors (relabel σ)) ∘ (·.2)) = _
  rw [← List.map_map, blocks]

theorem places_renumber : (body.renumber σ).places.Perm body.places := by
  refine ((blocks_renumber body σ few).flatMap_right _).trans (.of_eq ?_)
  simp [places, List.flatMap_map, Block.places_mapSuccessors]

theorem exits_renumber (block : Block) :
    (body.renumber σ).Exits (block.mapSuccessors (relabel σ)) ↔ body.Exits block := by
  simp only [exits_iff, Block.isTerminated_mapSuccessors, Block.successors_mapSuccessors,
    length_blocks_renumber, List.forall_mem_map, toNat_relabel_lt_iff σ few]

theorem wellFormed_renumber : (body.renumber σ).WellFormed ↔ body.WellFormed := by
  have entered : (body.renumber σ).blocks ≠ [] ↔ body.blocks ≠ [] := by
    simp only [ne_eq, ← List.length_eq_zero_iff, length_blocks_renumber]
  have exits : (∀ block ∈ (body.renumber σ).blocks, (body.renumber σ).Exits block) ↔
      ∀ block ∈ body.blocks, body.Exits block := by
    simp only [(blocks_renumber body σ few).mem_iff, List.forall_mem_map, exits_renumber body σ few]
  have locals : (body.renumber σ).DeclaresLocals ↔ body.DeclaresLocals := by
    have declares : (body.renumber σ).declares = body.declares := by
      funext p
      cases p <;> rfl
    simp only [declaresLocals_iff, Covers, (places_renumber body σ few).mem_iff, declares]
  exact ⟨fun valid => ⟨entered.1 valid.entered, exits.1 valid.exits, locals.1 valid.locals⟩,
    fun valid => ⟨entered.2 valid.entered, exits.2 valid.exits, locals.2 valid.locals⟩⟩

end Renumber

theorem exists_validate_iff (body : Body) :
    (∃ summary, body.validate = .ok summary) ↔ body.WellFormed := by
  simp [validate_eq_ok, defect?_eq_none]

/-- The blocks of a body may be numbered in any way that keeps the entry first, if there is a label for
each: what blocks hold, what control reaches, what jumps to a block and whether the body is valid are
the same under the new numbers. -/
theorem renumber_keeps (body : Body) (σ : Equiv.Perm (Fin body.blocks.length))
    (few : body.blocks.length ≤ 2 ^ 32)
    (entry : ∀ entered : 0 < body.blocks.length, σ ⟨0, entered⟩ = ⟨0, entered⟩) :
    let after := body.renumber σ
    (after.args = body.args ∧ after.result = body.result ∧ after.vars = body.vars ∧
      after.temps = body.temps ∧ after.blocks.length = body.blocks.length) ∧
    (∀ label block, body.block? label = some block →
      ∃ moved, after.block? (relabel σ label) = some moved ∧
        moved.statements = block.statements ∧
        moved.terminator.held = block.terminator.held ∧
        moved.successors = block.successors.map (relabel σ)) ∧
    after.reachable.Perm (body.reachable.map (relabel σ)) ∧
    (∀ label, Option.Rel (fun sources moved => moved.Perm (sources.map (relabel σ)))
      (body.predecessors.lookup label) (after.predecessors.lookup (relabel σ label))) ∧
    ((∃ summary, after.validate = .ok summary) ↔ ∃ summary, body.validate = .ok summary) := by
  refine ⟨⟨rfl, rfl, rfl, rfl, length_blocks_renumber body σ⟩, ?_,
    reachable_renumber body σ few entry, lookup_predecessors_renumber body σ few, ?_⟩
  · intro label block found
    refine ⟨block.mapSuccessors (relabel σ), ?_, rfl, (Terminator.mapSuccessors_eq_iff _).1 rfl⟩
    rw [block?_renumber body σ few, found]
    rfl
  · rw [exists_validate_iff, exists_validate_iff, wellFormed_renumber body σ few]

/-- A body with a cycle, a block that is jumped to twice from one other and a block out of reach. -/
def branching : Body where
  args := [.scalar .u8]
  result := .unit
  blocks := [⟨[], .branch (.place (.arg 0)) ⟨1⟩ ⟨2⟩⟩,
    ⟨[], .switch (.place (.arg 0)) [⟨2⟩, ⟨0⟩, ⟨2⟩]⟩, ⟨[], .ret⟩, ⟨[], .goto ⟨1⟩⟩]

theorem renumber_keeps_branching :
    let σ : Equiv.Perm (Fin branching.blocks.length) := .swap ⟨1, by decide⟩ ⟨2, by decide⟩
    (branching.renumber σ).blocks.map Block.successors =
        [[⟨2⟩, ⟨1⟩], [], [⟨1⟩, ⟨0⟩, ⟨1⟩], [⟨2⟩]] ∧
      (branching.renumber σ).reachable.Perm [⟨0⟩, ⟨2⟩, ⟨1⟩] ∧
      (∃ sources, (branching.renumber σ).predecessors.lookup ⟨1⟩ = some sources ∧
        sources.Perm [⟨0⟩, ⟨2⟩, ⟨2⟩]) ∧
      ∃ summary, (branching.renumber σ).validate = .ok summary := by
  intro σ
  obtain ⟨-, -, reachable, predecessors, valid⟩ :=
    renumber_keeps branching σ (by decide) (by decide)
  have reached : branching.reachable = [⟨0⟩, ⟨1⟩, ⟨2⟩] := by cbv
  have sources : branching.predecessors.lookup ⟨2⟩ = some [⟨0⟩, ⟨1⟩, ⟨1⟩] := by cbv
  refine ⟨by decide, ?_, ?_, valid.2 ⟨⟨4, 0, [⟨3⟩]⟩, by cbv⟩⟩
  · rw [reached] at reachable
    exact reachable
  · have moved := predecessors ⟨2⟩
    rw [sources, show relabel σ ⟨2⟩ = ⟨1⟩ from rfl] at moved
    generalize (branching.renumber σ).predecessors.lookup ⟨1⟩ = found at moved
    cases moved with
    | some perm => exact ⟨_, rfl, perm⟩

end Body

end MidIR
