import Mathlib.Data.List.Nodup
import MidIR.Body.Building
import MidIR.ExceptLaws
import MidIR.Proofs.Body.Locals

namespace MidIR

theorem Label.toNat_ofNat {n : Nat} (small : n < 2 ^ 32) : (ofNat n).toNat = n :=
  UInt32.toNat_ofNat_of_lt' small

theorem Label.ofNat_toNat (label : Label) : ofNat label.toNat = label := by
  simp [ofNat, toNat]

theorem Label.toNat_injective : Function.Injective toNat :=
  Function.LeftInverse.injective ofNat_toNat

theorem Body.modifyBlock_eq_ok {body next : Body} {label : Label} {change : Block → Block} :
    body.modifyBlock label change = .ok next ↔ ∃ block, body.block? label = some block ∧
      { body with blocks := body.blocks.set label.toNat (change block) } = next := by
  unfold modifyBlock
  cases body.block? label <;> simp

theorem findSome?_eq_map_find? {α β : Type} {f : α → Option β} {p : α → Bool} {g : α → β}
    {values : List α} (each : ∀ a ∈ values, f a = if p a then some (g a) else none) :
    values.findSome? f = (values.find? p).map g := by
  induction values with
  | nil => rfl
  | cons a values ih =>
    have others := ih fun b member => each b (List.mem_cons_of_mem _ member)
    rw [List.findSome?_cons, List.find?_cons, each a (List.mem_cons_self ..)]
    cases p a with
    | true => rfl
    | false => exact others

namespace Progress

variable {progress next first later : Progress} {request : Request} {requests : List Request}

/-! ## What is handed out stays -/

/-- What was handed out and declared before still stands first. -/
structure Extends (progress next : Progress) : Prop where
  args : next.body.args = progress.body.args
  labels : progress.labels <+: next.labels
  vars : progress.vars <+: next.vars
  temps : progress.temps <+: next.temps
  varTypes : progress.body.vars <+: next.body.vars
  tempTypes : progress.body.temps <+: next.body.temps

namespace Extends

theorem refl : progress.Extends progress := by
  constructor <;> simp

theorem trans (extend : first.Extends progress) (extend' : progress.Extends next) : first.Extends next where
  args := extend'.args.trans extend.args
  labels := extend.labels.trans extend'.labels
  vars := extend.vars.trans extend'.vars
  temps := extend.temps.trans extend'.temps
  varTypes := extend.varTypes.trans extend'.varTypes
  tempTypes := extend.tempTypes.trans extend'.tempTypes

theorem few (extend : progress.Extends next) (few : next.Few) : progress.Few where
  labels := Nat.lt_of_le_of_lt extend.labels.length_le few.labels
  vars := Nat.lt_of_le_of_lt extend.vars.length_le few.vars
  temps := Nat.lt_of_le_of_lt extend.temps.length_le few.temps

theorem offers (extend : progress.Extends next) {p : Place} (offered : progress.Offers p) :
    next.Offers p := by
  cases p with
  | arg i =>
    rw [Offers, extend.args]
    exact offered
  | _ => exact offered.imp (extend.vars.subset ·) (extend.temps.subset ·)

end Extends

theorem extends_of_step (stepped : progress.step request = .ok next) : progress.Extends next := by
  cases request with
  | newBlock | newVariable ty | newTemporary ty =>
    cases stepped
    constructor <;> simp [Body.newBlock, Body.newVariable, Body.newTemporary]
  | push label statement | setTerminator label terminator =>
    obtain ⟨body, changed, equal⟩ := bind_eq_ok.1 stepped
    obtain ⟨block, _, rfl⟩ := Body.modifyBlock_eq_ok.1 changed
    cases equal
    constructor <;> simp

theorem Run.extends (run : Run first requests progress) : first.Extends progress := by
  induction run with
  | nil => exact .refl
  | snoc _ _ stepped ih => exact ih.trans (extends_of_step stepped)

/-! ## What the requests ask for -/

theorem requested_snoc_of_other {label : Label} (statement : request.statement? label = none)
    (terminator : request.terminator? label = none) :
    Block.requested (requests ++ [request]) label = Block.requested requests label := by
  simp [Block.requested, List.filterMap_append, statement, terminator]

theorem requested_snoc_push {label other : Label} {statement : Statement} :
    Block.requested (requests ++ [.push label statement]) other =
      if label = other then (Block.requested requests other).push statement
      else Block.requested requests other := by
  by_cases same : label = other <;>
    simp [Block.requested, Block.push, List.filterMap_append, Request.statement?, Request.terminator?, same]

theorem requested_snoc_setTerminator {label other : Label} {terminator : Terminator} :
    Block.requested (requests ++ [.setTerminator label terminator]) other =
      if label = other then (Block.requested requests other).setTerminator terminator
      else Block.requested requests other := by
  by_cases same : label = other <;>
    simp [Block.requested, Block.setTerminator, List.filterMap_append, Request.statement?,
      Request.terminator?, same]

/-! ## The state of a run -/

structure Sound (progress : Progress) (block : Block) : Prop where
  targets : ∀ target ∈ block.successors, target ∈ progress.labels
  locals : ∀ p ∈ block.places, ∀ q ∈ p.locals, progress.Offers q

theorem Sound.extend {block : Block} (sound : progress.Sound block) (extend : progress.Extends next) :
    next.Sound block where
  targets target member := extend.labels.subset (sound.targets target member)
  locals p held q member := extend.offers (sound.locals p held q member)

/-- The locals are those that the requests declare, numbered in their order. -/
structure Declared (args : List Ty) (result : Ty) (requests : List Request) (progress : Progress) :
    Prop where
  args : progress.body.args = args
  result : progress.body.result = result
  varTypes : progress.body.vars = requests.filterMap Request.varType?
  tempTypes : progress.body.temps = requests.filterMap Request.tempType?
  vars : progress.vars = (List.range progress.body.vars.length).map fun i => .var i.toUInt32
  temps : progress.temps = (List.range progress.body.temps.length).map fun i => .temp i.toUInt32

/-- The blocks are those that the requests ask for, numbered in their order. -/
structure Filled (requests : List Request) (progress : Progress) : Prop where
  labels : progress.labels = (List.range (requests.count .newBlock)).map .ofNat
  blocks : progress.body.blocks = progress.labels.map (Block.requested requests)
  untouched : ∀ label ∉ progress.labels, Block.requested requests label = {}
  sound : ∀ block ∈ progress.body.blocks, progress.Sound block

theorem Declared.step {args : List Ty} {result : Ty} (declared : Declared args result requests progress)
    (stepped : progress.step request = .ok next) : Declared args result (requests ++ [request]) next := by
  obtain ⟨args, result, varTypes, tempTypes, vars, temps⟩ := declared
  cases request with
  | newBlock =>
    cases stepped
    constructor <;> simp_all [Request.varType?, Request.tempType?, Body.newBlock]
  | newVariable ty | newTemporary ty =>
    cases stepped
    constructor <;> simp_all [Request.varType?, Request.tempType?, Body.newVariable, Body.newTemporary,
      List.range_succ]
  | push label statement | setTerminator label terminator =>
    obtain ⟨body, changed, equal⟩ := bind_eq_ok.1 stepped
    obtain ⟨block, _, rfl⟩ := Body.modifyBlock_eq_ok.1 changed
    cases equal
    constructor <;> simp_all [Request.varType?, Request.tempType?]

namespace Filled

theorem getElem?_labels (filled : Filled requests progress) (few : progress.Few) {i : Nat}
    {label : Label} :
    progress.labels[i]? = some label ↔ i < progress.labels.length ∧ label.toNat = i := by
  have small := few.labels
  rw [filled.labels, List.length_map, List.length_range] at small ⊢
  rw [List.getElem?_map]
  by_cases inside : i < requests.count .newBlock
  · rw [List.getElem?_range inside]
    simp only [Option.map_some, Option.some.injEq, inside, true_and]
    constructor
    · rintro rfl
      exact Label.toNat_ofNat (Nat.lt_trans inside small)
    · rintro rfl
      exact label.ofNat_toNat
  · simp [inside]

theorem mem_labels (filled : Filled requests progress) (few : progress.Few) {label : Label} :
    label ∈ progress.labels ↔ label.toNat < progress.labels.length := by
  rw [List.mem_iff_getElem?]
  simp [filled.getElem?_labels few]

theorem length_blocks (filled : Filled requests progress) :
    progress.body.blocks.length = progress.labels.length := by
  rw [filled.blocks, List.length_map]

theorem block?_of_mem (filled : Filled requests progress) (few : progress.Few) {label : Label}
    (member : label ∈ progress.labels) :
    progress.body.block? label = some (Block.requested requests label) := by
  have found := (filled.getElem?_labels few).2 ⟨(filled.mem_labels few).1 member, rfl⟩
  rw [Body.block?, filled.blocks, List.getElem?_map, found]
  rfl

theorem keep (filled : Filled requests progress) (extend : progress.Extends next)
    (labels : next.labels = progress.labels) (blocks : next.body.blocks = progress.body.blocks)
    (noBlock : request ≠ .newBlock) (noStatement : ∀ label, request.statement? label = none)
    (noTerminator : ∀ label, request.terminator? label = none) :
    Filled (requests ++ [request]) next := by
  have same : Block.requested (requests ++ [request]) = Block.requested requests :=
    funext fun label => requested_snoc_of_other (noStatement label) (noTerminator label)
  constructor
  · simpa [labels, List.count_append, List.count_singleton, noBlock] using filled.labels
  · rw [labels, blocks, same]
    exact filled.blocks
  · rw [labels, same]
    exact filled.untouched
  · intro block member
    rw [blocks] at member
    exact (filled.sound block member).extend extend

theorem grow (filled : Filled requests progress) (few : next.Few)
    (stepped : progress.step .newBlock = .ok next) : Filled (requests ++ [.newBlock]) next := by
  have extend := extends_of_step stepped
  have same : Block.requested (requests ++ [.newBlock]) = Block.requested requests :=
    funext fun label => requested_snoc_of_other rfl rfl
  have fresh : Label.ofNat progress.body.blocks.length ∉ progress.labels := by
    have small := few.labels
    cases stepped
    rw [List.length_append, ← filled.length_blocks] at small
    rw [filled.mem_labels (extend.few few), Label.toNat_ofNat (Nat.lt_of_succ_lt small),
      filled.length_blocks]
    exact Nat.lt_irrefl _
  have length : progress.body.blocks.length = requests.count .newBlock := by
    rw [filled.length_blocks, filled.labels, List.length_map, List.length_range]
  cases stepped
  constructor
  · simp [Body.newBlock, length, filled.labels, List.range_succ]
  · change progress.body.blocks ++ [({} : Block)] =
      (progress.labels ++ [Label.ofNat progress.body.blocks.length]).map _
    rw [same, List.map_append, List.map_singleton, filled.untouched _ fresh, ← filled.blocks]
  · rw [same]
    intro label unnamed
    exact filled.untouched label fun member => unnamed (extend.labels.subset member)
  · intro block member
    rcases List.mem_append.1 member with member | member
    · exact (filled.sound block member).extend extend
    · cases List.mem_singleton.1 member
      constructor <;> simp [Block.successors, Terminator.successors, Block.places, Terminator.places]

theorem edit (filled : Filled requests progress) (few : progress.Few) {label : Label}
    {change : Block → Block} {body : Body} (member : label ∈ progress.labels)
    (changed : progress.body.modifyBlock label change = .ok body)
    (asked : ∀ other, Block.requested (requests ++ [request]) other =
      if label = other then change (Block.requested requests other)
      else Block.requested requests other)
    (noBlock : request ≠ .newBlock)
    (sound : ∀ block, progress.Sound block → progress.Sound (change block)) :
    Filled (requests ++ [request]) { progress with body } := by
  obtain ⟨block, found, rfl⟩ := Body.modifyBlock_eq_ok.1 changed
  have inside := (filled.mem_labels few).1 member
  have content := Option.some.inj (found.symm.trans (filled.block?_of_mem few member))
  constructor
  · simpa [List.count_append, List.count_singleton, noBlock] using filled.labels
  · apply List.ext_getElem?
    intro i
    rw [List.getElem?_set, filled.blocks, List.length_map, List.getElem?_map, List.getElem?_map]
    cases standing : progress.labels[i]? with
    | none =>
      have outside := List.getElem?_eq_none_iff.1 standing
      simp [Nat.ne_of_lt (Nat.lt_of_lt_of_le inside outside)]
    | some other =>
      obtain ⟨_, rfl⟩ := (filled.getElem?_labels few).1 standing
      by_cases same : label = other
      · subst same
        simp [asked, inside, content]
      · have apart : label.toNat ≠ other.toNat := fun equal => same (Label.toNat_injective equal)
        simp [asked, same, apart]
  · intro other unnamed
    have apart : label ≠ other := by
      rintro rfl
      exact unnamed member
    rw [asked, if_neg apart]
    exact filled.untouched other unnamed
  · intro other standing
    have extend : progress.Extends { progress with body := { progress.body with
        blocks := progress.body.blocks.set label.toNat (change block) } } := by
      constructor <;> simp
    rcases List.mem_or_eq_of_mem_set standing with standing | rfl
    · exact (filled.sound other standing).extend extend
    · exact (sound block (filled.sound block (List.mem_of_getElem? found))).extend extend

theorem step (filled : Filled requests progress) (few : next.Few)
    (admitted : progress.Admits request) (stepped : progress.step request = .ok next) :
    Filled (requests ++ [request]) next := by
  have extend := extends_of_step stepped
  cases request with
  | newBlock => exact filled.grow few stepped
  | newVariable ty | newTemporary ty =>
    cases stepped
    exact filled.keep extend rfl rfl (by simp) (fun _ => rfl) fun _ => rfl
  | push label statement =>
    obtain ⟨body, changed, equal⟩ := bind_eq_ok.1 stepped
    cases equal
    apply filled.edit (extend.few few) admitted.1 changed (fun _ => requested_snoc_push) (by simp)
    intro block sound
    refine ⟨sound.targets, fun p held => ?_⟩
    rcases Block.mem_places_push held with held | held
    · exact sound.locals p held
    · exact admitted.2 p held
  | setTerminator label terminator =>
    obtain ⟨body, changed, equal⟩ := bind_eq_ok.1 stepped
    cases equal
    obtain ⟨member, locals, targets⟩ := admitted
    apply filled.edit (extend.few few) member changed (fun _ => requested_snoc_setTerminator) (by simp)
    intro block sound
    refine ⟨targets, fun p held => ?_⟩
    rcases Block.mem_places_setTerminator held with held | held
    · exact sound.locals p held
    · exact locals p held

end Filled

namespace Run

variable {args : List Ty} {result : Ty}

theorem declared (run : Run (.start args result) requests progress) :
    Declared args result requests progress := by
  induction run with
  | nil => constructor <;> rfl
  | snoc _ _ stepped ih => exact ih.step stepped

theorem filled (run : Run (.start args result) requests progress) (few : progress.Few) :
    Filled requests progress := by
  induction run with
  | nil => constructor <;> simp [Progress.start, Block.requested]
  | snoc _ admitted stepped ih =>
    exact (ih ((extends_of_step stepped).few few)).step few admitted stepped

end Run

/-! ## What validation tells -/

theorem Declared.declares_of_offers {args : List Ty} {result : Ty}
    (declared : Declared args result requests progress) {p : Place} (offered : progress.Offers p) :
    progress.body.declares p := by
  cases p with
  | var i | temp i =>
    simp only [Offers, declared.vars, declared.temps, List.mem_map, List.mem_range] at offered
    rcases offered with ⟨k, inside, equal⟩ | ⟨k, inside, equal⟩ <;> cases equal
    simpa [Body.declares] using Nat.lt_of_le_of_lt (Nat.mod_le k _) inside
  | arg i => exact decide_eq_true offered
  | _ => rfl

namespace Filled

theorem labelledBlocks (filled : Filled requests progress) :
    progress.body.labelledBlocks =
      progress.labels.map fun label => (label, Block.requested requests label) := by
  apply List.ext_getElem?
  intro i
  rw [Body.labelledBlocks, filled.blocks, filled.labels]
  by_cases inside : i < requests.count .newBlock <;> simp [inside]

theorem exitDefect? (filled : Filled requests progress) (few : progress.Few) {label : Label}
    (member : label ∈ progress.labels) :
    progress.body.exitDefect? label (Block.requested requests label) =
      if (Block.requested requests label).terminator.isIncomplete then some (.incomplete label)
      else none := by
  have standing : Block.requested requests label ∈ progress.body.blocks := by
    rw [filled.blocks]
    exact List.mem_map_of_mem member
  split
  · rename_i unfinished
    refine Body.exitDefect?_eq_some.2 (.inl ⟨?_, rfl⟩)
    cases given : (Block.requested requests label).terminator <;> simp_all [Terminator.isIncomplete]
  · rename_i finished
    refine Body.exitDefect?_eq_none.2 (Body.exits_iff.2 ⟨?_, fun target named => ?_⟩)
    · simpa [Block.isTerminated] using finished
    · rw [filled.length_blocks]
      exact (filled.mem_labels few).1 ((filled.sound _ standing).targets target named)

theorem exitDefects? (filled : Filled requests progress) (few : progress.Few) :
    progress.body.exitDefects? =
      (progress.labels.find? fun label =>
        (Block.requested requests label).terminator.isIncomplete).map .incomplete := by
  rw [Body.exitDefects?, filled.labelledBlocks, List.findSome?_map]
  exact findSome?_eq_map_find? fun label member => filled.exitDefect? few member

theorem covers {args : List Ty} {result : Ty} (filled : Filled requests progress)
    (declared : Declared args result requests progress) :
    progress.body.Covers progress.body.places := by
  intro p held q member
  obtain ⟨block, standing, held⟩ := List.mem_flatMap.1 held
  exact declared.declares_of_offers ((filled.sound block standing).locals p held q member)

end Filled

/-- The first defect of a body that honest requests build is the first of its blocks without a
terminator, and without blocks that there is none. -/
theorem validate_built {args : List Ty} {result : Ty} (filled : Filled requests progress)
    (declared : Declared args result requests progress) (few : progress.Few) :
    progress.body.validate =
      if progress.labels = [] then .error .noBlocks
      else
        match progress.labels.find? fun label =>
          (Block.requested requests label).terminator.isIncomplete with
        | some label => .error (.incomplete label)
        | none => .ok ⟨progress.body.blocks.length, progress.body.statementCount,
            progress.body.unreachable⟩ := by
  have locals : progress.body.localDefects? = none :=
    Body.localDefects?_eq_none.2 (progress.body.declaresLocals_iff.2 (filled.covers declared))
  by_cases empty : progress.labels = []
  · have blocks : progress.body.blocks = [] := by
      rw [filled.blocks, empty, List.map_nil]
    rw [if_pos empty, Body.validate, Body.defect?, if_pos (List.isEmpty_iff.2 blocks)]
  · have entered : progress.body.blocks ≠ [] := by
      rwa [filled.blocks, Ne, List.map_eq_nil_iff]
    rw [if_neg empty, Body.validate, Body.defect?_of_entered entered, locals, filled.exitDefects? few]
    cases progress.labels.find? fun label =>
      (Block.requested requests label).terminator.isIncomplete <;> rfl

/-! ## The whole run -/

variable {args : List Ty} {result : Ty}

theorem Filled.numbers (filled : Filled requests progress) (few : progress.Few) :
    progress.labels.map Label.toNat = List.range (requests.count .newBlock) := by
  have small := few.labels
  rw [filled.labels, List.length_map, List.length_range] at small
  rw [filled.labels, List.map_map]
  refine (List.map_congr_left fun k member => ?_).trans (List.map_id _)
  exact Label.toNat_ofNat (Nat.lt_trans (List.mem_range.1 member) small)

theorem nodup_numbered {α : Type} {n : Nat} (small : n < 2 ^ 32) {f : UInt32 → α}
    (injective : Function.Injective f) : ((List.range n).map fun k => f k.toUInt32).Nodup := by
  apply List.Nodup.map_on _ List.nodup_range
  intro j j_lt k k_lt equal
  have same := congrArg UInt32.toNat (injective equal)
  rwa [UInt32.toNat_ofNat_of_lt' (Nat.lt_trans (List.mem_range.1 j_lt) small),
    UInt32.toNat_ofNat_of_lt' (Nat.lt_trans (List.mem_range.1 k_lt) small)] at same

theorem Filled.exists_step (filled : Filled requests progress) (few : progress.Few)
    (admitted : progress.Admits request) : ∃ next, progress.step request = .ok next := by
  cases request with
  | newBlock | newVariable ty | newTemporary ty => exact ⟨_, rfl⟩
  | push label statement | setTerminator label terminator =>
    have found := filled.block?_of_mem few admitted.1
    simp [Progress.step, Body.modifyBlock, found]

/-- Honest requests, with fewer than 2^32 blocks and locals of each sort, never fail. -/
theorem run_hands_out (run : Run (.start args result) requests progress) (few : progress.Few) :
    (∀ request, progress.Admits request → ∃ next, progress.step request = .ok next) ∧
    (progress.labels.map Label.toNat = List.range (requests.count .newBlock) ∧
      progress.vars = (List.range progress.body.vars.length).map (fun k => .var k.toUInt32) ∧
      progress.temps = (List.range progress.body.temps.length).map (fun k => .temp k.toUInt32)) ∧
    (progress.labels.Nodup ∧ progress.vars.Nodup ∧ progress.temps.Nodup) ∧
    ((∀ label ∈ progress.labels, progress.body.block? label = some (Block.requested requests label)) ∧
      progress.body.vars = requests.filterMap Request.varType? ∧
      progress.body.temps = requests.filterMap Request.tempType?) ∧
    (∀ more later, Run progress more later → progress.Extends later) ∧
    progress.body.validate =
      if progress.labels = [] then .error .noBlocks
      else
        match progress.labels.find? fun label =>
          (Block.requested requests label).terminator.isIncomplete with
        | some label => .error (.incomplete label)
        | none => .ok ⟨progress.body.blocks.length, progress.body.statementCount,
            progress.body.unreachable⟩ := by
  have filled := run.filled few
  have declared := run.declared
  refine ⟨?_, ⟨filled.numbers few, declared.vars, declared.temps⟩, ⟨?_, ?_, ?_⟩,
    ⟨fun label => filled.block?_of_mem few, declared.varTypes, declared.tempTypes⟩,
    fun more later on => on.extends, validate_built filled declared few⟩
  · intro request admitted
    exact filled.exists_step few admitted
  · exact .of_map Label.toNat (filled.numbers few ▸ List.nodup_range)
  · have few := few.vars
    rw [declared.vars, List.length_map, List.length_range] at few
    rw [declared.vars]
    exact nodup_numbered few fun i j equal => Place.var.inj equal
  · have few := few.temps
    rw [declared.temps, List.length_map, List.length_range] at few
    rw [declared.temps]
    exact nodup_numbered few fun i j equal => Place.temp.inj equal

theorem run_hands_out_unfinished :
    let first := Progress.start [.ref .shared (.scalar .u8)] .unit
    let jump := Terminator.branch (.place (.index (.arg 0) (.var 0))) ⟨1⟩ ⟨0⟩
    let grown (labels : List Label) (blocks : List Block) : Progress :=
      { body := { first.body with vars := [.scalar .usize], blocks }, labels, vars := [.var 0] }
    let progress := grown [⟨0⟩, ⟨1⟩] [⟨[], jump⟩, {}]
    Run first [.newVariable (.scalar .usize), .newBlock, .newBlock, .setTerminator ⟨0⟩ jump] progress ∧
      progress.Few ∧ progress.labels.Nodup ∧ progress.body.validate = .error (.incomplete ⟨1⟩) := by
  intro first jump grown progress
  have declared : Run first [.newVariable (.scalar .usize)] (grown [] []) := .snoc .nil trivial rfl
  have entered : Run first [.newVariable (.scalar .usize), .newBlock] (grown [⟨0⟩] [{}]) :=
    .snoc declared trivial rfl
  have open' : Run first [.newVariable (.scalar .usize), .newBlock, .newBlock]
      (grown [⟨0⟩, ⟨1⟩] [{}, {}]) := .snoc entered trivial rfl
  have admitted : (grown [⟨0⟩, ⟨1⟩] [{}, {}]).Admits (.setTerminator ⟨0⟩ jump) := by
    simp [Admits, Offers, grown, first, start, jump, Terminator.places, Operand.places, Operand.place?,
      Place.locals, Terminator.successors]
  have run : Run first _ progress := .snoc open' admitted rfl
  have few : progress.Few := by constructor <;> decide
  have handed := run_hands_out run few
  refine ⟨run, few, handed.2.2.1.1, ?_⟩
  rw [handed.2.2.2.2.2]
  rfl

end Progress

end MidIR
