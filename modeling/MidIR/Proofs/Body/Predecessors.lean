import Mathlib
import MidIR.Proofs.Body.Reachability

namespace MidIR

theorem Label.compare_eq (a b : Label) : a.compare b = Ord.compare a.toNat b.toNat :=
  UInt32.compare_eq_toNat_compare_toNat a.index b.index

namespace Body

variable {table : List (Label × List Label)} {source target key : Label}

def Ascending (table : List (Label × List Label)) : Prop :=
  table.Pairwise fun a b => a.1.toNat < b.1.toNat

theorem lookup_cons_of_ne (other : key ≠ target) (sources : List Label) :
    List.lookup key ((target, sources) :: table) = table.lookup key := by
  rw [List.lookup_cons, beq_eq_false_iff_ne.2 other]

theorem lookup_eq_none_of_lt (later : ∀ entry ∈ table, key.toNat < entry.1.toNat) :
    table.lookup key = none := by
  rw [List.lookup_eq_none_iff]
  intro entry member
  rw [bne_iff_ne]
  rintro rfl
  exact Nat.lt_irrefl _ (later entry member)

theorem mem_keys_addSource (member : key ∈ (addSource source target table).map (·.1)) :
    key = target ∨ key ∈ table.map (·.1) := by
  fun_induction addSource source target table with
  | case1 => simpa using member
  | case2 => simpa using member
  | case3 key sources table equal => exact .inr (by simpa using member)
  | case4 key sources table greater ih =>
    rw [List.map_cons, List.mem_cons] at member ⊢
    rcases member with rfl | member
    · exact .inr (.inl rfl)
    · exact (ih member).imp_right .inr

theorem ascending_addSource (ascending : Ascending table) : Ascending (addSource source target table) := by
  fun_induction addSource source target table with
  | case1 => exact List.pairwise_singleton ..
  | case2 key sources table less =>
    rw [Label.compare_eq, Nat.compare_eq_lt] at less
    refine List.pairwise_cons.2 ⟨fun entry member => ?_, ascending⟩
    rcases List.mem_cons.1 member with rfl | member
    · exact less
    · exact Nat.lt_trans less (List.rel_of_pairwise_cons ascending member)
  | case3 key sources table equal =>
    obtain ⟨later, rest⟩ := List.pairwise_cons.1 ascending
    exact List.pairwise_cons.2 ⟨later, rest⟩
  | case4 key sources table greater ih =>
    rw [Label.compare_eq, Nat.compare_eq_gt] at greater
    obtain ⟨later, rest⟩ := List.pairwise_cons.1 ascending
    refine List.pairwise_cons.2 ⟨fun entry member => ?_, ih rest⟩
    rcases mem_keys_addSource (List.mem_map_of_mem member) with equal | member
    · exact equal ▸ greater
    · obtain ⟨earlier, member, equal⟩ := List.mem_map.1 member
      exact equal ▸ later earlier member

theorem lookup_addSource (ascending : Ascending table) :
    (addSource source target table).lookup key =
      if key = target then some ((table.lookup target).getD [] ++ [source]) else table.lookup key := by
  fun_induction addSource source target table with
  | case1 =>
    by_cases same : key = target
    · simp [same]
    · simp [same, lookup_cons_of_ne]
  | case2 entry sources table less =>
    rw [Label.compare_eq, Nat.compare_eq_lt] at less
    have absent : List.lookup target ((entry, sources) :: table) = none := by
      refine lookup_eq_none_of_lt fun other member => ?_
      rcases List.mem_cons.1 member with rfl | member
      · exact less
      · exact Nat.lt_trans less (List.rel_of_pairwise_cons ascending member)
    by_cases same : key = target
    · simp [same, absent]
    · rw [if_neg same, lookup_cons_of_ne same]
  | case3 entry sources table equal =>
    rw [Label.compare_eq, Nat.compare_eq_eq] at equal
    obtain rfl := Label.toNat_injective equal
    by_cases same : key = target
    · simp [same]
    · rw [if_neg same, lookup_cons_of_ne same, lookup_cons_of_ne same]
  | case4 entry sources table greater ih =>
    rw [Label.compare_eq, Nat.compare_eq_gt] at greater
    have other : target ≠ entry := fun same => Nat.lt_irrefl _ (same ▸ greater)
    rw [lookup_cons_of_ne other, List.lookup_cons, List.lookup_cons,
      ih (List.pairwise_cons.1 ascending).2]
    by_cases same : key = target
    · simp [same, beq_eq_false_iff_ne.2 other]
    · simp [same]

theorem sum_lengths_addSource (source target : Label) (table : List (Label × List Label)) :
    ((addSource source target table).map fun entry => entry.2.length).sum =
      (table.map fun entry => entry.2.length).sum + 1 := by
  fun_induction addSource source target table with
  | case1 => rfl
  | case2 key sources table less =>
    rw [List.map_cons, List.sum_cons]
    exact Nat.add_comm ..
  | case3 key sources table equal =>
    simp only [List.map_cons, List.sum_cons, List.length_append, List.length_singleton]
    omega
  | case4 key sources table greater ih =>
    simp only [List.map_cons, List.sum_cons, ih]
    omega

/-- The sources of the jumps to a block. -/
def sources (jumps : List (Label × Label)) (target : Label) : List Label :=
  (jumps.filter fun jump => jump.2 = target).map (·.1)

theorem sources_append (jumps others : List (Label × Label)) (target : Label) :
    sources (jumps ++ others) target = sources jumps target ++ sources others target := by
  simp [sources]

/-- A table has the jumps that were entered in it, and nothing else. -/
structure Tabulates (jumps : List (Label × Label)) (table : List (Label × List Label)) : Prop where
  ascending : Ascending table
  found : ∀ target, table.lookup target =
    if sources jumps target = [] then none else some (sources jumps target)
  total : (table.map fun entry => entry.2.length).sum = jumps.length

namespace Tabulates

variable {jumps : List (Label × Label)}

theorem nil : Tabulates [] [] where
  ascending := .nil
  found _ := rfl
  total := rfl

theorem enter (tabulates : Tabulates jumps table) (source target : Label) :
    Tabulates (jumps ++ [(source, target)]) (addSource source target table) where
  ascending := ascending_addSource tabulates.ascending
  found key := by
    rw [lookup_addSource tabulates.ascending, tabulates.found, tabulates.found, sources_append]
    by_cases same : key = target
    · subst same
      have entered : sources [(source, key)] key = [source] := by simp [sources]
      by_cases none : sources jumps key = [] <;> simp [entered, none]
    · have apart : sources [(source, target)] key = [] := by simp [sources, Ne.symm same]
      rw [if_neg same, apart, List.append_nil]
  total := by
    rw [sum_lengths_addSource, tabulates.total, List.length_append, List.length_singleton]

end Tabulates

theorem tabulates_predecessors (body : Body) : Tabulates body.jumps body.predecessors := by
  unfold predecessors
  induction body.jumps using List.reverseRecOn with
  | nil => exact .nil
  | append_singleton jumps jump ih =>
    rw [List.foldl_append]
    exact ih.enter jump.1 jump.2

theorem lookup_predecessors (body : Body) (target : Label) :
    body.predecessors.lookup target =
      if sources body.jumps target = [] then none else some (sources body.jumps target) :=
  body.tabulates_predecessors.found target

theorem lookup_predecessors_eq_some {body : Body} {target : Label} {found : List Label} :
    body.predecessors.lookup target = some found ↔
      found = sources body.jumps target ∧ found ≠ [] := by
  rw [lookup_predecessors]
  by_cases none : sources body.jumps target = []
  · simp [none]
  · rw [if_neg none, Option.some.injEq]
    exact ⟨fun equal => ⟨equal.symm, equal ▸ none⟩, fun ⟨equal, _⟩ => equal.symm⟩

theorem length_jumps_eq_sum (body : Body) :
    body.jumps.length = (body.blocks.map fun block => block.successors.length).sum := by
  have blocks : body.labelledBlocks.map (·.2) = body.blocks := by
    simp [labelledBlocks, Function.comp_def]
  conv_rhs => rw [← blocks]
  simp [jumps, List.length_flatMap, Function.comp_def]

theorem nodup_keys_predecessors (body : Body) : (body.predecessors.map (·.1)).Nodup := by
  refine List.pairwise_map.2 (body.tabulates_predecessors.ascending.imp fun less equal => ?_)
  exact Nat.ne_of_lt less (congrArg Label.toNat equal)

theorem mem_keys_iff_lookup {table : List (Label × List Label)} {target : Label} :
    target ∈ table.map (·.1) ↔ ∃ found, table.lookup target = some found := by
  rw [← Option.isSome_iff_exists, List.lookup_isSome_iff, List.mem_map]
  exact exists_congr fun entry => and_congr_right' (by rw [beq_iff_eq, eq_comm])

section Few

variable (body : Body) (few : body.blocks.length < 2 ^ 32)
include few

theorem sources_jumps (target : Label) : sources body.jumps target =
    body.labels.flatMap fun source => List.replicate ((body.successorsOf source).count target) source := by
  rw [jumps_eq body few, sources, List.filter_flatMap, List.map_flatMap]
  refine List.flatMap_congr fun source _ => ?_
  rw [List.filter_map, List.map_map, List.eq_replicate_iff]
  constructor
  · simp [List.count_eq_length_filter, Function.comp_def, beq_eq_decide]
  · simp

theorem sources_jumps_ne_nil {target : Label} :
    sources body.jumps target ≠ [] ↔ ∃ source, body.Leads source target := by
  simp only [sources_jumps body few, ne_eq, List.flatMap_eq_nil_iff, List.replicate_eq_nil_iff,
    List.count_eq_zero, leads_iff, not_forall, not_not]
  constructor
  · rintro ⟨source, -, leads⟩
    exact ⟨source, leads⟩
  · rintro ⟨source, leads⟩
    refine ⟨source, ?_, leads⟩
    -- The label of no block has no successors.
    by_contra outside
    rw [mem_labels body few, Nat.not_lt] at outside
    rw [successorsOf_eq_nil outside] at leads
    cases leads

theorem sorted_sources_jumps (target : Label) :
    (sources body.jumps target).Pairwise (·.toNat ≤ ·.toNat) := by
  rw [sources_jumps body few, List.pairwise_flatMap]
  constructor
  · intro source _
    exact List.pairwise_replicate.2 (.inr (Nat.le_refl _))
  · refine (ascending_labels body few).imp fun {a b} less source fromA other fromB => ?_
    rw [List.eq_of_mem_replicate fromA, List.eq_of_mem_replicate fromB]
    exact Nat.le_of_lt less

end Few

/-- The table of predecessors turns the jumps around. A label has an entry, and only one, just when a block
jumps to it, be it the label of a block or not. The entry has the blocks that do so in ascending order, each
as often as it jumps there, and all entries together have as many as there are jumps. -/
theorem predecessors_inverts (body : Body) (few : body.blocks.length < 2 ^ 32) :
    (body.predecessors.map (·.1)).Nodup ∧
    (∀ target, target ∈ body.predecessors.map (·.1) ↔ ∃ source, body.Leads source target) ∧
    (∀ target sources, body.predecessors.lookup target = some sources →
      sources = (body.labels.flatMap fun source =>
        List.replicate ((body.successorsOf source).count target) source) ∧
      sources ≠ [] ∧ sources.Pairwise (·.toNat ≤ ·.toNat)) ∧
    (body.predecessors.map fun entry => entry.2.length).sum =
      (body.blocks.map fun block => block.successors.length).sum := by
  refine ⟨body.nodup_keys_predecessors, fun target => ?_, fun target found looked => ?_, ?_⟩
  · rw [mem_keys_iff_lookup, ← sources_jumps_ne_nil body few]
    simp [lookup_predecessors_eq_some]
  · obtain ⟨rfl, filled⟩ := lookup_predecessors_eq_some.1 looked
    exact ⟨sources_jumps body few target, filled, sorted_sources_jumps body few target⟩
  · rw [body.tabulates_predecessors.total, length_jumps_eq_sum]

/-- A body with blocks that jump to themselves or several times to another, and a jump to no block. -/
def tangled : Body where
  args := [.scalar .u8]
  result := .unit
  blocks := [⟨[], .switch (.place (.arg 0)) [⟨2⟩, ⟨0⟩, ⟨7⟩, ⟨2⟩]⟩, ⟨[], .goto ⟨2⟩⟩,
    ⟨[], .branch (.place (.arg 0)) ⟨2⟩ ⟨0⟩⟩]

theorem predecessors_inverts_tangled :
    tangled.blocks.length < 2 ^ 32 ∧ tangled.predecessors.lookup ⟨2⟩ = some [⟨0⟩, ⟨0⟩, ⟨1⟩, ⟨2⟩] ∧
      ⟨7⟩ ∈ tangled.predecessors.map (·.1) ∧ ⟨1⟩ ∉ tangled.predecessors.map (·.1) ∧
      (tangled.predecessors.map fun entry => entry.2.length).sum = 7 := by
  have few : tangled.blocks.length < 2 ^ 32 := by decide
  obtain ⟨-, keys, lists, total⟩ := predecessors_inverts tangled few
  have into (target source : Label) (leads : target ∈ tangled.successorsOf source) :
      target ∈ tangled.predecessors.map (·.1) := (keys target).2 ⟨source, leads_iff.2 leads⟩
  obtain ⟨found, looked⟩ := mem_keys_iff_lookup.1 (into ⟨2⟩ ⟨1⟩ (by decide))
  have listed : found = [⟨0⟩, ⟨0⟩, ⟨1⟩, ⟨2⟩] := (lists ⟨2⟩ found looked).1.trans (by decide)
  refine ⟨few, listed ▸ looked, into ⟨7⟩ ⟨0⟩ (by decide), ?_, total.trans (by decide)⟩
  have apart : ∀ block ∈ tangled.blocks, ⟨1⟩ ∉ block.successors := by decide
  rw [keys]
  rintro ⟨source, block, standing, named⟩
  exact apart block (List.mem_of_getElem? standing) named

end Body

end MidIR
