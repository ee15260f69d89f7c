import Mathlib
import MidIR.Proofs.Body.Building
import MidIR.Proofs.Body.Rewriting
import MidIR.Tool.Run

/-!
# Reachable blocks

What is reached from the entry is what a path of jumps leads to. A search for it ends, and finds the same,
whichever of the labels that wait it takes up next.
-/

namespace MidIR.Body

/-- A block of the body jumps from the one label to the other. The label of no block leads nowhere. -/
def Leads (body : Body) (source target : Label) : Prop :=
  ∃ block, body.block? source = some block ∧ target ∈ block.successors

variable {body : Body} {source target label : Label}

theorem leads_iff : body.Leads source target ↔ target ∈ body.successorsOf source := by
  unfold Leads successorsOf
  cases body.block? source <;> simp

def standing (body : Body) : Finset Label :=
  (Finset.range body.blocks.length).image .ofNat

theorem mem_standing_of_lt (inside : label.toNat < body.blocks.length) : label ∈ body.standing :=
  Finset.mem_image.2 ⟨label.toNat, Finset.mem_range.2 inside, label.ofNat_toNat⟩

/-! ## Searches -/

/-- The labels that were looked at, and those that wait for it, some of them more than once. -/
structure Search where
  seen : Finset Label
  waiting : Multiset Label

namespace Search

def start : Search := ⟨∅, {.entry}⟩

/-- One of the labels that wait is taken up. If it was seen before it is dropped; if not, the targets of its
block wait from then on. -/
inductive Round (body : Body) : Search → Search → Prop
  | known {seen : Finset Label} {label : Label} {rest : Multiset Label} :
    label ∈ seen → Round body ⟨seen, label ::ₘ rest⟩ ⟨seen, rest⟩
  | fresh {seen : Finset Label} {label : Label} {rest : Multiset Label} :
    label ∉ seen → Round body ⟨seen, label ::ₘ rest⟩ ⟨insert label seen, body.successorsOf label + rest⟩

variable {search next : Search}

theorem exists_round_iff : (∃ next, search.Round body next) ↔ search.waiting ≠ 0 := by
  obtain ⟨seen, waiting⟩ := search
  constructor
  · rintro ⟨next, round⟩
    cases round <;> exact Multiset.cons_ne_zero
  · intro left
    obtain ⟨label, waits⟩ := Multiset.exists_mem_of_ne_zero left
    obtain ⟨rest, rfl⟩ := Multiset.exists_cons_of_mem waits
    by_cases known : label ∈ seen
    · exact ⟨_, .known known⟩
    · exact ⟨_, .fresh known⟩

/-- The rounds that are still to come: one for each label that waits and one for each jump of a block that
was not looked at. -/
def pending (body : Body) (search : Search) : Nat :=
  search.waiting.card + ∑ label ∈ body.standing \ search.seen, (body.successorsOf label).length

theorem sum_sdiff_insert (body : Body) {seen : Finset Label} (fresh : label ∉ seen) :
    ∑ other ∈ body.standing \ insert label seen, (body.successorsOf other).length +
        (body.successorsOf label).length =
      ∑ other ∈ body.standing \ seen, (body.successorsOf other).length := by
  rw [Finset.sdiff_insert]
  by_cases inside : label ∈ body.standing \ seen
  · exact Finset.sum_erase_add _ _ inside
  · have outside : body.blocks.length ≤ label.toNat := by
      by_contra less
      exact inside (Finset.mem_sdiff.2 ⟨mem_standing_of_lt (Nat.not_le.1 less), fresh⟩)
    rw [Finset.erase_eq_of_notMem inside, successorsOf_eq_nil outside, List.length_nil, Nat.add_zero]

theorem pending_of_round (round : search.Round body next) :
    next.pending body + 1 = search.pending body := by
  cases round with
  | known known =>
    simp only [pending, Multiset.card_cons]
    omega
  | fresh fresh =>
    have spent := sum_sdiff_insert body fresh
    simp only [pending, Multiset.card_cons, Multiset.card_add, Multiset.coe_card]
    omega

theorem length_le_pending {searches : List Search}
    (rounds : List.IsChain (Round body) (search :: searches)) : searches.length ≤ search.pending body := by
  induction searches generalizing search with
  | nil => exact Nat.zero_le _
  | cons next searches ih =>
    obtain ⟨first, rest⟩ := List.isChain_cons_cons.1 rounds
    have spent := pending_of_round first
    have left := ih rest
    rw [List.length_cons]
    omega

def Meets (search : Search) (label : Label) : Prop :=
  label ∈ search.seen ∨ label ∈ search.waiting

theorem Meets.round (met : search.Meets label) (round : search.Round body next) : next.Meets label := by
  cases round with
  | known known =>
    rcases met with seen | waits
    · exact .inl seen
    · rcases Multiset.mem_cons.1 waits with rfl | waits
      · exact .inl known
      · exact .inr waits
  | fresh fresh =>
    rcases met with seen | waits
    · exact .inl (Finset.mem_insert_of_mem seen)
    · rcases Multiset.mem_cons.1 waits with rfl | waits
      · exact .inl (Finset.mem_insert_self ..)
      · exact .inr (Multiset.mem_add.2 (.inr waits))

theorem meets_of_round (round : search.Round body next) (met : next.Meets target) :
    search.Meets target ∨ ∃ source, search.Meets source ∧ body.Leads source target := by
  cases round with
  | known known => exact .inl (met.imp_right Multiset.mem_cons_of_mem)
  | @fresh seen label rest fresh =>
    have waited : Search.Meets ⟨seen, label ::ₘ rest⟩ label := .inr (Multiset.mem_cons_self ..)
    rcases met with seen | waits
    · rcases Finset.mem_insert.1 seen with rfl | seen
      · exact .inl waited
      · exact .inl (.inl seen)
    · rcases Multiset.mem_add.1 waits with leads | waits
      · exact .inr ⟨label, waited, leads_iff.2 (Multiset.mem_coe.1 leads)⟩
      · exact .inl (.inr (Multiset.mem_cons_of_mem waits))

theorem expanded_of_round (round : search.Round body next) (seen : source ∈ next.seen)
    (leads : body.Leads source target) : source ∈ search.seen ∨ next.Meets target := by
  cases round with
  | known known => exact .inl seen
  | fresh fresh =>
    rcases Finset.mem_insert.1 seen with rfl | seen
    · exact .inr (.inr (Multiset.mem_add.2 (.inl (Multiset.mem_coe.2 (leads_iff.1 leads)))))
    · exact .inl seen

/-- What the search has met is reached, and it has met the entry and all that the labels seen lead to. -/
structure Sound (body : Body) (search : Search) : Prop where
  entered : search.Meets .entry
  reached : ∀ label, search.Meets label → Relation.ReflTransGen body.Leads .entry label
  closed : ∀ source ∈ search.seen, ∀ target, body.Leads source target → search.Meets target

namespace Sound

theorem start : Search.start.Sound body := by
  constructor <;> simp [Search.start, Meets, Relation.ReflTransGen.refl]

theorem round (sound : search.Sound body) (round : search.Round body next) : next.Sound body where
  entered := sound.entered.round round
  reached label met := by
    rcases meets_of_round round met with met | ⟨source, met, leads⟩
    · exact sound.reached label met
    · exact (sound.reached source met).tail leads
  closed source seen target leads := by
    rcases expanded_of_round round seen leads with seen | met
    · exact (sound.closed source seen target leads).round round
    · exact met

theorem rounds (sound : search.Sound body) (rounds : Relation.ReflTransGen (Round body) search next) :
    next.Sound body := by
  induction rounds with
  | refl => exact sound
  | tail _ last ih => exact ih.round last

theorem mem_seen_iff (sound : search.Sound body) (done : search.waiting = 0) :
    label ∈ search.seen ↔ Relation.ReflTransGen body.Leads .entry label := by
  have met (label : Label) : search.Meets label ↔ label ∈ search.seen := by
    simp [Meets, done]
  constructor
  · intro seen
    exact sound.reached label (.inl seen)
  · intro path
    induction path with
    | refl => exact (met _).1 sound.entered
    | tail _ leads ih => exact (met _).1 (sound.closed _ ih _ leads)

end Sound

/-- To explore is to search, with the labels taken up in the order of a stack. -/
theorem rounds_explore (body : Body) (seen waiting : List Label) :
    Relation.ReflTransGen (Round body) ⟨seen.toFinset, waiting⟩
      ⟨(body.explore seen waiting).toFinset, 0⟩ := by
  fun_induction body.explore seen waiting with
  | case1 seen => exact .refl
  | case2 seen label waiting known ih =>
    rw [← Multiset.cons_coe]
    exact .head (.known (List.mem_toFinset.2 known)) ih
  | case3 seen label waiting fresh ih =>
    rw [List.toFinset_cons, ← Multiset.coe_add] at ih
    rw [← Multiset.cons_coe]
    exact .head (.fresh (mt List.mem_toFinset.1 fresh)) ih

end Search

/-! ## What is reached -/

theorem mem_explore : label ∈ body.explore [] [.entry] ↔
    Relation.ReflTransGen body.Leads .entry label := by
  have sound := Search.Sound.start.rounds (Search.rounds_explore body [] [.entry])
  rw [← sound.mem_seen_iff rfl, List.mem_toFinset]

theorem nodup_explore {seen : List Label} (nodup : seen.Nodup) (waiting : List Label) :
    (body.explore seen waiting).Nodup := by
  fun_induction body.explore seen waiting with
  | case1 seen => exact nodup
  | case2 seen label waiting known ih => exact ih nodup
  | case3 seen label waiting fresh ih => exact ih (List.nodup_cons.2 ⟨fresh, nodup⟩)

theorem reachable_of_entered (entered : body.blocks ≠ []) :
    body.reachable = (body.explore [] [.entry]).mergeSort fun a b => a.index ≤ b.index := by
  rw [reachable, if_neg (mt List.isEmpty_iff.1 entered)]

theorem mem_reachable (entered : body.blocks ≠ []) :
    label ∈ body.reachable ↔ Relation.ReflTransGen body.Leads .entry label := by
  rw [reachable_of_entered entered, List.mem_mergeSort, mem_explore]

theorem reachable_eq_nil : body.reachable = [] ↔ body.blocks = [] := by
  constructor
  · intro empty
    by_contra entered
    have member := (mem_reachable entered).2 .refl
    rw [empty] at member
    cases member
  · intro empty
    rw [reachable, if_pos (List.isEmpty_iff.2 empty)]

theorem ascending_reachable (body : Body) : body.reachable.Pairwise (·.toNat < ·.toNat) := by
  by_cases entered : body.blocks = []
  · rw [reachable_eq_nil.2 entered]
    exact .nil
  · have nodup : body.reachable.Nodup := by
      rw [reachable_of_entered entered]
      exact (List.mergeSort_perm ..).nodup_iff.2 (nodup_explore .nil _)
    have sorted : body.reachable.Pairwise fun a b => a.index ≤ b.index := by
      rw [reachable_of_entered entered]
      refine (List.pairwise_mergeSort ?_ ?_ _).imp of_decide_eq_true
      · simpa using fun a b c : Label => UInt32.le_trans
      · simpa using fun a b : Label => UInt32.le_total a.index b.index
    refine (sorted.and nodup).imp fun {a b} ⟨le, ne⟩ => ?_
    exact Nat.lt_of_le_of_ne (UInt32.le_iff_toNat_le.1 le) (mt (Label.toNat_injective ·) ne)

/-! ## What validation warns of -/

section Few

variable (body) (few : body.blocks.length < 2 ^ 32)
include few

theorem labels_eq : body.labels = (List.range body.blocks.length).map .ofNat := by
  have number : body.blocks.length.toUInt32.toNat = body.blocks.length := Nat.mod_eq_of_lt few
  rw [labels, number]

theorem ascending_labels : body.labels.Pairwise (·.toNat < ·.toNat) := by
  rw [labels_eq body few]
  refine List.pairwise_map.2 (List.pairwise_lt_range.imp_of_mem fun {i j} left right less => ?_)
  have small (i : Nat) (inside : i ∈ List.range body.blocks.length) : (Label.ofNat i).toNat = i :=
    Label.toNat_ofNat (Nat.lt_trans (List.mem_range.1 inside) few)
  rwa [small i left, small j right]

theorem mem_labels : label ∈ body.labels ↔ label.toNat < body.blocks.length := by
  rw [labels_eq body few]
  constructor
  · intro member
    obtain ⟨i, inside, rfl⟩ := List.mem_map.1 member
    have inside := List.mem_range.1 inside
    rwa [Label.toNat_ofNat (Nat.lt_trans inside few)]
  · intro inside
    exact List.mem_map.2 ⟨label.toNat, List.mem_range.2 inside, label.ofNat_toNat⟩

theorem standing_eq : body.standing = body.labels.toFinset := by
  ext label
  simp [standing, labels_eq body few]

theorem block?_of_mem_labelledBlocks {block : Block} (member : (label, block) ∈ body.labelledBlocks) :
    body.block? label = some block := by
  obtain ⟨i, labelled⟩ := List.mem_iff_getElem?.1 member
  obtain ⟨rfl, found⟩ := labelledBlocks_getElem?_eq_some.1 labelled
  obtain ⟨inside, -⟩ := List.getElem?_eq_some_iff.1 found
  rwa [block?, Label.toNat_ofNat (Nat.lt_trans inside few)]

theorem jumps_eq :
    body.jumps = body.labels.flatMap fun label => (body.successorsOf label).map (label, ·) := by
  have labels : body.labels = body.labelledBlocks.map (·.1) := by
    simp [labels_eq body few, labelledBlocks, Function.comp_def, List.range_eq_range',
      ← List.zipIdx_map_snd]
  rw [labels, List.flatMap_map, jumps]
  apply List.flatMap_congr
  rintro ⟨label, block⟩ member
  simp only [successorsOf, block?_of_mem_labelledBlocks body few member]

theorem length_jumps :
    body.jumps.length = ∑ label ∈ body.standing, (body.successorsOf label).length := by
  have nodup : body.labels.Nodup := (ascending_labels body few).imp fun {a b} less equal =>
    Nat.ne_of_lt less (congrArg Label.toNat equal)
  rw [jumps_eq body few, standing_eq body few, List.sum_toFinset _ nodup]
  simp [List.length_flatMap]

theorem ascending_unreachable : body.unreachable.Pairwise (·.toNat < ·.toNat) :=
  (ascending_labels body few).filter _

theorem mem_unreachable :
    label ∈ body.unreachable ↔ label.toNat < body.blocks.length ∧ label ∉ body.reachable := by
  simp [unreachable, mem_labels body few]

end Few

theorem reaches_block (wellFormed : body.WellFormed)
    (path : Relation.ReflTransGen body.Leads .entry label) : ∃ block, body.block? label = some block := by
  have found {label : Label} (inside : label.toNat < body.blocks.length) :
      ∃ block, body.block? label = some block := ⟨_, List.getElem?_eq_getElem inside⟩
  induction path with
  | refl => exact found (List.length_pos_iff.2 wellFormed.entered)
  | tail _ leads _ =>
    obtain ⟨block, standing, named⟩ := leads
    exact found ((exits_iff.1 (wellFormed.exits block (List.mem_of_getElem? standing))).2 _ named)

/-- A search from the entry ends after at most one round more than there are jumps, and has then seen what
`reachable` lists: the labels that paths of jumps lead to from the entry, each once, and nothing if there
is no block. In a valid body these are blocks, and the others are warned of in ascending order. -/
theorem reachable_lists (body : Body) (few : body.blocks.length < 2 ^ 32) :
    ((∀ searches, List.IsChain (Search.Round body) (.start :: searches) →
        searches.length ≤ body.jumps.length + 1) ∧
      (∀ search, Relation.ReflTransGen (Search.Round body) .start search →
        (∀ next, ¬ search.Round body next) →
        search.waiting = 0 ∧ (body.blocks ≠ [] → ∀ label, label ∈ search.seen ↔ label ∈ body.reachable)) ∧
      Relation.ReflTransGen (Search.Round body) .start ⟨(body.explore [] [.entry]).toFinset, 0⟩) ∧
    (body.reachable = [] ↔ body.blocks = []) ∧
    (body.blocks ≠ [] → ∀ label,
      label ∈ body.reachable ↔ Relation.ReflTransGen body.Leads .entry label) ∧
    body.reachable.Pairwise (·.toNat < ·.toNat) ∧
    ∀ summary, body.validate = .ok summary →
      (∀ label ∈ body.reachable, ∃ block, body.block label = .ok block) ∧
      ∃ warned : List Label,
        (Tool.summaryNotes summary).filter (·.level = .warn) = warned.map .unreachableBlock ∧
        warned.Pairwise (·.toNat < ·.toNat) ∧
        ∀ label, label ∈ warned ↔ label.toNat < body.blocks.length ∧ label ∉ body.reachable := by
  refine ⟨⟨?_, ?_, Search.rounds_explore body [] [.entry]⟩, reachable_eq_nil,
    fun entered label => mem_reachable entered, ascending_reachable body, ?_⟩
  · intro searches rounds
    have bound := Search.length_le_pending rounds
    rw [length_jumps body few]
    simpa [Search.pending, Search.start, Nat.add_comm] using bound
  · intro search rounds stuck
    have done : search.waiting = 0 := by
      by_contra left
      obtain ⟨next, round⟩ := Search.exists_round_iff.2 left
      exact stuck next round
    refine ⟨done, fun entered label => ?_⟩
    rw [mem_reachable entered, (Search.Sound.start.rounds rounds).mem_seen_iff done]
  · intro summary valid
    obtain ⟨fine, rfl⟩ := validate_eq_ok.1 valid
    have wellFormed := defect?_eq_none.1 fine
    refine ⟨fun label member => ?_, body.unreachable, ?_, ascending_unreachable body few,
      fun label => mem_unreachable body few⟩
    · have path := (mem_reachable wellFormed.entered).1 member
      obtain ⟨block, found⟩ := reaches_block wellFormed path
      exact ⟨block, by rw [Body.block, found]⟩
    · simp [Tool.summaryNotes, Note.level, List.filter_map, Function.comp_def]

/-- A body with a cycle, a jump out of it to no block, and another that is never taken. -/
def straying : Body where
  args := [.scalar .u8]
  result := .unit
  blocks := [⟨[], .goto ⟨1⟩⟩, ⟨[], .switch (.place (.arg 0)) [⟨0⟩, ⟨1⟩, ⟨7⟩]⟩, ⟨[], .goto ⟨9⟩⟩]

theorem reachable_lists_straying :
    (straying.blocks.length < 2 ^ 32 ∧ ⟨7⟩ ∈ straying.reachable) ∧
      indexing.blocks.length < 2 ^ 32 ∧ indexing.validate = .ok ⟨2, 1, [⟨1⟩]⟩ ∧
      ∃ block, indexing.block ⟨0⟩ = .ok block := by
  have fewStraying : straying.blocks.length < 2 ^ 32 := by decide
  have fewIndexing : indexing.blocks.length < 2 ^ 32 := by decide
  obtain ⟨-, -, paths, -⟩ := reachable_lists straying fewStraying
  obtain ⟨-, -, pathsIndexing, -, warnings⟩ := reachable_lists indexing fewIndexing
  have into : straying.Leads .entry ⟨1⟩ := ⟨_, rfl, by decide⟩
  have out : straying.Leads ⟨1⟩ ⟨7⟩ := ⟨_, rfl, by decide⟩
  have valid : indexing.validate = .ok ⟨2, 1, [⟨1⟩]⟩ := by cbv
  have entry := (pathsIndexing (by decide) .entry).2 .refl
  exact ⟨⟨fewStraying, (paths (by decide) ⟨7⟩).2 (.tail (.single into) out)⟩, fewIndexing, valid,
    (warnings _ valid).1 .entry entry⟩

end MidIR.Body
