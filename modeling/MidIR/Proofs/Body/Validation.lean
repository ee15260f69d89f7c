import MidIR.Body.Validation
import MidIR.Proofs.Walk.Enumeration

namespace MidIR

/-- The blocks that a terminator names, by its form, in the order of its fields. -/
inductive Terminator.Targets : Terminator → List Label → Prop
  | incomplete : Targets .incomplete []
  | ret : Targets .ret []
  | diverge : Targets .diverge []
  | goto (target : Label) : Targets (.goto target) [target]
  | unwind (target : Label) : Targets (.unwind target) [target]
  | branch (condition : Operand) (yes no : Label) : Targets (.branch condition yes no) [yes, no]
  | switch (value : Operand) (targets : List Label) : Targets (.switch value targets) targets
  | call (callee : Callee) (arguments : List Operand) (result : Place) (returns unwinds : Label) :
    Targets (.call callee arguments result returns unwinds) [returns, unwinds]

theorem Terminator.targets_iff {terminator : Terminator} {targets : List Label} :
    terminator.Targets targets ↔ terminator.successors = targets := by
  constructor
  · intro named
    cases named <;> rfl
  · rintro rfl
    cases terminator <;> constructor

namespace Body

/-- A local whose number is past the end of the list that declares its sort. -/
inductive Undeclared (body : Body) : Place → Prop
  | var {i : UInt32} : body.vars.length ≤ i.toNat → body.Undeclared (.var i)
  | temp {i : UInt32} : body.temps.length ≤ i.toNat → body.Undeclared (.temp i)
  | arg {i : UInt32} : body.args.length ≤ i.toNat → body.Undeclared (.arg i)

/-- Control leaves a block by a terminator that only names blocks of the body. -/
structure Exits (body : Body) (block : Block) : Prop where
  terminated : block.terminator ≠ .incomplete
  targets : ∀ targets, block.terminator.Targets targets →
    ∀ target ∈ targets, target.toNat < body.blocks.length

/-- No place in a body, at any depth, is a local that the body does not declare. -/
def DeclaresLocals (body : Body) : Prop :=
  ∀ address location use p, body.locate address = some (.place location use p) → ¬ body.Undeclared p

structure WellFormed (body : Body) : Prop where
  entered : body.blocks ≠ []
  exits : ∀ block ∈ body.blocks, body.Exits block
  locals : body.DeclaresLocals

inductive FirstDefect (body : Body) : Defect → Prop
  | noBlocks : body.blocks = [] → body.FirstDefect .noBlocks
  | incomplete {i : Nat} {block : Block} : body.blocks[i]? = some block →
    (∀ j < i, ∀ earlier, body.blocks[j]? = some earlier → body.Exits earlier) →
    block.terminator = .incomplete → body.FirstDefect (.incomplete (.ofNat i))
  | missingTarget {i : Nat} {block : Block} {front back : List Label} {target : Label} :
    body.blocks[i]? = some block →
    (∀ j < i, ∀ earlier, body.blocks[j]? = some earlier → body.Exits earlier) →
    block.terminator.Targets (front ++ target :: back) →
    (∀ earlier ∈ front, earlier.toNat < body.blocks.length) → body.blocks.length ≤ target.toNat →
    body.FirstDefect (.missingTarget (.ofNat i) target)
  | undeclared {address : Address} {location : Location} {use : Use} {p : Place} :
    body.blocks ≠ [] → (∀ block ∈ body.blocks, body.Exits block) →
    body.locate address = some (.place location use p) → body.Undeclared p →
    (∀ earlier < address, ∀ location use q,
      body.locate earlier = some (.place location use q) → ¬ body.Undeclared q) →
    body.FirstDefect (.undeclared location.block p)

/-! ## Exits -/

variable {body : Body} {label : Label} {block : Block} {defect : Defect}

theorem isTerminated_iff : block.isTerminated ↔ block.terminator ≠ .incomplete := by
  unfold Block.isTerminated
  cases block.terminator <;> simp [Terminator.isIncomplete]

theorem exits_iff : body.Exits block ↔
    block.isTerminated ∧ ∀ target ∈ block.successors, target.toNat < body.blocks.length := by
  constructor
  · rintro ⟨terminated, inside⟩
    exact ⟨isTerminated_iff.2 terminated, inside _ (Terminator.targets_iff.2 rfl)⟩
  · rintro ⟨terminated, inside⟩
    refine ⟨isTerminated_iff.1 terminated, fun targets named => ?_⟩
    obtain rfl := Terminator.targets_iff.1 named
    exact inside

theorem block?_isNone {target : Label} :
    (body.block? target).isNone ↔ body.blocks.length ≤ target.toNat := by
  rw [block?, Option.isNone_iff_eq_none, List.getElem?_eq_none_iff]

theorem exitDefect?_eq_none : body.exitDefect? label block = none ↔ body.Exits block := by
  rw [exits_iff, exitDefect?]
  by_cases terminated : block.isTerminated
  · rw [if_pos terminated, Option.map_eq_none_iff, List.find?_eq_none, and_iff_right terminated]
    exact forall₂_congr fun target _ => (not_congr block?_isNone).trans Nat.not_le
  · rw [if_neg terminated]
    simp [terminated]

theorem exitDefect?_eq_some : body.exitDefect? label block = some defect ↔
    block.terminator = .incomplete ∧ defect = .incomplete label ∨
    ∃ front target back, block.terminator.Targets (front ++ target :: back) ∧
      (∀ earlier ∈ front, earlier.toNat < body.blocks.length) ∧ body.blocks.length ≤ target.toNat ∧
      defect = .missingTarget label target := by
  unfold exitDefect?
  by_cases terminated : block.isTerminated
  · have finished := isTerminated_iff.1 terminated
    have missing (target : Label) : (!(body.block? target).isNone) = true ↔
        target.toNat < body.blocks.length := by
      rw [Bool.not_eq_true', ← Bool.not_eq_true, block?_isNone, Nat.not_le]
    rw [if_pos terminated, Option.map_eq_some_iff, or_iff_right fun ⟨unfinished, _⟩ => finished unfinished]
    simp only [List.find?_eq_some_iff_append, block?_isNone, missing, Terminator.targets_iff]
    constructor
    · rintro ⟨target, ⟨outside, front, back, named, inside⟩, rfl⟩
      exact ⟨front, target, back, named, inside, outside, rfl⟩
    · rintro ⟨front, target, back, named, inside, outside, rfl⟩
      exact ⟨target, ⟨outside, front, back, named, inside⟩, rfl⟩
  · have unfinished : block.terminator = .incomplete :=
      Decidable.not_not.1 fun finished => terminated (isTerminated_iff.2 finished)
    rw [if_neg terminated, unfinished, Option.some.injEq]
    constructor
    · rintro rfl
      exact .inl ⟨rfl, rfl⟩
    · rintro (⟨-, rfl⟩ | ⟨front, target, back, named, -⟩)
      · rfl
      · generalize equal : front ++ target :: back = targets at named
        cases named
        simp at equal

theorem labelledBlocks_getElem?_eq_some {i : Nat} :
    body.labelledBlocks[i]? = some (label, block) ↔ label = .ofNat i ∧ body.blocks[i]? = some block := by
  rw [labelledBlocks, List.getElem?_map, List.getElem?_zipIdx, Nat.zero_add]
  cases body.blocks[i]? <;> simp [eq_comm]

theorem findSome?_eq_some_iff_getElem? {α β : Type} {f : α → Option β} {as : List α} {b : β} :
    as.findSome? f = some b ↔ ∃ (i : Nat) (a : α), as[i]? = some a ∧ f a = some b ∧
      ∀ j < i, ∀ earlier, as[j]? = some earlier → f earlier = none := by
  rw [List.findSome?_eq_some_iff]
  constructor
  · rintro ⟨front, a, back, rfl, hit, missed⟩
    refine ⟨front.length, a, by simp, hit, fun j less earlier found => ?_⟩
    rw [List.getElem?_append_left less] at found
    exact missed earlier (List.mem_of_getElem? found)
  · rintro ⟨i, a, found, hit, missed⟩
    obtain ⟨inside, rfl⟩ := List.getElem?_eq_some_iff.1 found
    refine ⟨as.take i, as[i], as.drop (i + 1), by simp, hit, fun earlier member => ?_⟩
    obtain ⟨j, found⟩ := List.mem_iff_getElem?.1 member
    obtain ⟨less, _⟩ := List.getElem?_eq_some_iff.1 found
    have less : j < i := by simp at less; omega
    rw [List.getElem?_take_of_lt less] at found
    exact missed j less earlier found

theorem exitDefects?_eq_none : body.exitDefects? = none ↔ ∀ block ∈ body.blocks, body.Exits block := by
  rw [exitDefects?, List.findSome?_eq_none_iff]
  constructor
  · intro fine block member
    obtain ⟨i, found⟩ := List.mem_iff_getElem?.1 member
    have labelled := labelledBlocks_getElem?_eq_some.2 ⟨rfl, found⟩
    exact exitDefect?_eq_none.1 (fine _ (List.mem_of_getElem? labelled))
  · rintro exits ⟨label, block⟩ member
    obtain ⟨i, labelled⟩ := List.mem_iff_getElem?.1 member
    obtain ⟨_, found⟩ := labelledBlocks_getElem?_eq_some.1 labelled
    exact exitDefect?_eq_none.2 (exits _ (List.mem_of_getElem? found))

theorem exitDefects?_eq_some : body.exitDefects? = some defect ↔
    ∃ (i : Nat) (block : Block), body.blocks[i]? = some block ∧
      body.exitDefect? (.ofNat i) block = some defect ∧
      ∀ j < i, ∀ earlier, body.blocks[j]? = some earlier → body.Exits earlier := by
  rw [exitDefects?, findSome?_eq_some_iff_getElem?]
  constructor
  · rintro ⟨i, ⟨label, block⟩, labelled, hit, missed⟩
    obtain ⟨rfl, found⟩ := labelledBlocks_getElem?_eq_some.1 labelled
    refine ⟨i, block, found, hit, fun j less earlier foundEarlier => ?_⟩
    have labelled := labelledBlocks_getElem?_eq_some.2 ⟨rfl, foundEarlier⟩
    exact exitDefect?_eq_none.1 (missed j less _ labelled)
  · rintro ⟨i, block, found, hit, exits⟩
    refine ⟨i, _, labelledBlocks_getElem?_eq_some.2 ⟨rfl, found⟩, hit, ?_⟩
    rintro j less ⟨label, earlier⟩ labelled
    obtain ⟨_, foundEarlier⟩ := labelledBlocks_getElem?_eq_some.1 labelled
    exact exitDefect?_eq_none.2 (exits j less _ foundEarlier)

/-! ## Locals -/

theorem checkLocal_some (event : Event) : body.checkLocal (some defect) event = some defect := by
  cases event <;> rfl

theorem foldl_checkLocal_some (events : List Event) :
    events.foldl body.checkLocal (some defect) = some defect := by
  induction events with
  | nil => rfl
  | cons event events ih => rw [List.foldl_cons, checkLocal_some, ih]

theorem foldl_checkLocal (events : List Event) :
    events.foldl body.checkLocal none = events.findSome? (body.checkLocal none) := by
  induction events with
  | nil => rfl
  | cons event events ih =>
    rw [List.foldl_cons, List.findSome?_cons]
    cases body.checkLocal none event with
    | none => exact ih
    | some defect => exact foldl_checkLocal_some events

theorem checkLocal_place (location : Location) (use : Use) (p : Place) :
    body.checkLocal none (.place location use p) =
      if body.declares p then none else some (.undeclared location.block p) := rfl

theorem undeclared_iff {p : Place} : body.Undeclared p ↔ ¬ body.declares p := by
  constructor
  · intro outside
    cases outside <;> simpa [declares]
  · intro outside
    cases p with
    | var i => exact .var (by simpa [declares] using outside)
    | temp i => exact .temp (by simpa [declares] using outside)
    | arg i => exact .arg (by simpa [declares] using outside)
    | _ => exact absurd rfl outside

theorem checkLocal_eq_none {event : Event} : body.checkLocal none event = none ↔
    ∀ location use p, event = .place location use p → ¬ body.Undeclared p := by
  cases event with
  | place location use p =>
    rw [checkLocal_place]
    by_cases declared : body.declares p <;> simp [declared, undeclared_iff]
  | _ => exact iff_of_true rfl fun _ _ _ equal => by cases equal

theorem checkLocal_eq_some {event : Event} : body.checkLocal none event = some defect ↔
    ∃ location use p, event = .place location use p ∧ body.Undeclared p ∧
      defect = .undeclared location.block p := by
  cases event with
  | place location use p =>
    rw [checkLocal_place]
    constructor
    · intro found
      split at found
      · cases found
      · rename_i undeclared
        cases found
        exact ⟨_, _, _, rfl, undeclared_iff.2 undeclared, rfl⟩
    · rintro ⟨_, _, _, equal, undeclared, rfl⟩
      cases equal
      exact if_neg (undeclared_iff.1 undeclared)
  | _ =>
    constructor
    · intro found
      cases found
    · rintro ⟨_, _, _, equal, _⟩
      cases equal

theorem localDefects?_eq_none : body.localDefects? = none ↔ body.DeclaresLocals := by
  rw [localDefects?, foldl_checkLocal, body.walk_enumerates.findSome?_eq_none_iff]
  constructor
  · intro fine address location use p found
    exact checkLocal_eq_none.1 (fine address _ found) location use p rfl
  · rintro declared address event found
    refine checkLocal_eq_none.2 ?_
    rintro location use p rfl
    exact declared address location use p found

theorem localDefects?_eq_some : body.localDefects? = some defect ↔
    ∃ address location use p, body.locate address = some (.place location use p) ∧
      body.Undeclared p ∧ defect = .undeclared location.block p ∧
      ∀ earlier < address, ∀ location use q,
        body.locate earlier = some (.place location use q) → ¬ body.Undeclared q := by
  rw [localDefects?, foldl_checkLocal, body.walk_enumerates.findSome?_eq_some_iff]
  constructor
  · rintro ⟨address, event, found, hit, missed⟩
    obtain ⟨location, use, p, rfl, undeclared, rfl⟩ := checkLocal_eq_some.1 hit
    refine ⟨address, location, use, p, found, undeclared, rfl, ?_⟩
    intro earlier less location use q foundEarlier
    exact checkLocal_eq_none.1 (missed earlier less _ foundEarlier) location use q rfl
  · rintro ⟨address, location, use, p, found, undeclared, rfl, declared⟩
    refine ⟨address, _, found, checkLocal_eq_some.2 ⟨location, use, p, rfl, undeclared, rfl⟩, ?_⟩
    rintro earlier less event foundEarlier
    refine checkLocal_eq_none.2 ?_
    rintro location use q rfl
    exact declared earlier less location use q foundEarlier

/-! ## Validation -/

theorem defect?_of_entered (entered : body.blocks ≠ []) :
    body.defect? = (body.exitDefects?).or body.localDefects? := by
  have filled : ¬ body.blocks.isEmpty := by rwa [List.isEmpty_iff]
  rw [defect?, if_neg filled]
  cases body.exitDefects? <;> rfl

theorem defect?_eq_none : body.defect? = none ↔ body.WellFormed := by
  by_cases entered : body.blocks = []
  · rw [defect?, if_pos (List.isEmpty_iff.2 entered)]
    constructor
    · intro nothing
      cases nothing
    · intro wellFormed
      exact absurd entered wellFormed.entered
  · rw [defect?_of_entered entered, Option.or_eq_none_iff, exitDefects?_eq_none, localDefects?_eq_none]
    constructor
    · rintro ⟨exits, locals⟩
      exact ⟨entered, exits, locals⟩
    · rintro ⟨_, exits, locals⟩
      exact ⟨exits, locals⟩

theorem firstDefect_of_defect? (found : body.defect? = some defect) : body.FirstDefect defect := by
  by_cases entered : body.blocks = []
  · rw [defect?, if_pos (List.isEmpty_iff.2 entered)] at found
    cases found
    exact .noBlocks entered
  · rw [defect?_of_entered entered, Option.or_eq_some_iff] at found
    rcases found with found | ⟨exits, found⟩
    · obtain ⟨i, block, foundBlock, bad, exits⟩ := exitDefects?_eq_some.1 found
      rcases exitDefect?_eq_some.1 bad with
        ⟨unfinished, rfl⟩ | ⟨front, target, back, named, inside, outside, rfl⟩
      · exact .incomplete foundBlock exits unfinished
      · exact .missingTarget foundBlock exits named inside outside
    · have exits := exitDefects?_eq_none.1 exits
      obtain ⟨address, location, use, p, foundPlace, undeclared, rfl, declared⟩ :=
        localDefects?_eq_some.1 found
      exact .undeclared entered exits foundPlace undeclared declared

theorem defect?_of_firstDefect (first : body.FirstDefect defect) : body.defect? = some defect := by
  have entered {i : Nat} {block : Block} (found : body.blocks[i]? = some block) : body.blocks ≠ [] :=
    List.ne_nil_of_mem (List.mem_of_getElem? found)
  cases first with
  | noBlocks empty => rw [defect?, if_pos (List.isEmpty_iff.2 empty)]
  | incomplete found exits unfinished =>
    rw [defect?_of_entered (entered found)]
    have bad := exitDefects?_eq_some.2
      ⟨_, _, found, exitDefect?_eq_some.2 (.inl ⟨unfinished, rfl⟩), exits⟩
    rw [bad, Option.some_or]
  | missingTarget found exits named inside outside =>
    rw [defect?_of_entered (entered found)]
    have bad := exitDefects?_eq_some.2
      ⟨_, _, found, exitDefect?_eq_some.2 (.inr ⟨_, _, _, named, inside, outside, rfl⟩), exits⟩
    rw [bad, Option.some_or]
  | undeclared entered exits found undeclared declared =>
    rw [defect?_of_entered entered, exitDefects?_eq_none.2 exits, Option.none_or]
    exact localDefects?_eq_some.2 ⟨_, _, _, _, found, undeclared, rfl, declared⟩

/-- A body is valid exactly when it is well formed; of any other body the first defect is told. -/
theorem validate_decides (body : Body) :
    ((∃ summary, body.validate = .ok summary) ↔ body.WellFormed) ∧
    ∀ defect, body.validate = .error defect ↔ body.FirstDefect defect := by
  unfold validate
  constructor
  · rw [← defect?_eq_none]
    cases body.defect? <;> simp
  · intro defect
    cases found : body.defect? with
    | none =>
      constructor
      · intro valid
        cases valid
      · intro first
        rw [defect?_of_firstDefect first] at found
        cases found
    | some other =>
      constructor
      · intro invalid
        cases invalid
        exact firstDefect_of_defect? found
      · intro first
        rw [defect?_of_firstDefect first] at found
        rw [Option.some.inj found]

/-- A body whose second block may jump to a block that is not there, and whose first names a temporary that
is not declared, inside another place. -/
def dangling (target : Label) : Body where
  args := []
  result := .unit
  vars := [.scalar .u8]
  blocks := [⟨[⟨.var 0, .use (.place (.index (.var 0) (.temp 2)))⟩], .goto ⟨1⟩⟩,
    ⟨[], .branch (.constant (.bool true)) ⟨0⟩ target⟩]

theorem validate_decides_dangling :
    (dangling ⟨9⟩).validate = .error (.missingTarget ⟨1⟩ ⟨9⟩) ∧
      (dangling ⟨1⟩).validate = .error (.undeclared ⟨0⟩ (.temp 2)) ∧
      (dangling ⟨1⟩).FirstDefect (.undeclared ⟨0⟩ (.temp 2)) ∧ ¬ (dangling ⟨1⟩).WellFormed := by
  have first : (dangling ⟨9⟩).FirstDefect (.missingTarget ⟨1⟩ ⟨9⟩) := by
    refine @FirstDefect.missingTarget (dangling ⟨9⟩) 1 _ [⟨0⟩] [] ⟨9⟩ rfl ?_ (.branch ..)
      (by decide) (by decide)
    intro j less earlier found
    obtain rfl : j = 0 := by omega
    cases found
    exact exits_iff.2 (by decide)
  have failed : (dangling ⟨1⟩).validate = .error (.undeclared ⟨0⟩ (.temp 2)) := rfl
  obtain ⟨valid, defect⟩ := validate_decides (dangling ⟨1⟩)
  refine ⟨((validate_decides _).2 _).2 first, failed, (defect _).1 failed, fun wellFormed => ?_⟩
  obtain ⟨summary, passed⟩ := valid.2 wellFormed
  rw [failed] at passed
  cases passed

end Body

end MidIR
