import MidIR.Text.Render
import Mathlib.Data.List.Basic

/-!
# Telling texts apart

Written forms of values often end only where the next character cannot be a part of them. Two texts
tell something of each other before what may come next: once each is followed by such a text and the
wholes are one text, it is the case, and the same comes next.
-/

namespace MidIR.Text

def Starts (u s : String) : Prop := ∃ r, s = u ++ r

/-- The first character is not one of `more`. -/
def Halts (more : Char → Bool) (s : String) : Prop := s.toList.head?.map more = some false

/-- Two texts that begin the same whole, whatever of `Next` follows them there, make `Same` true and
are followed by the same. -/
def TellsBefore (Next : String → Prop) (u v : String) (Same : Prop) : Prop :=
  ∀ s t, Next s → Next t → u ++ s = v ++ t → Same ∧ s = t

theorem Starts.append {u s : String} (starts : Starts u s) (t : String) : Starts u (s ++ t) := by
  obtain ⟨r, rfl⟩ := starts
  exact ⟨r ++ t, String.append_assoc ..⟩

theorem Starts.of_append {u v s : String} (starts : Starts (u ++ v) s) : Starts u s := by
  obtain ⟨r, rfl⟩ := starts
  exact ⟨v ++ r, String.append_assoc ..⟩

theorem Starts.refl (u : String) : Starts u u := ⟨"", by simp⟩

theorem Starts.after {u s : String} (w : String) (starts : Starts u s) : Starts (w ++ u) (w ++ s) := by
  obtain ⟨r, rfl⟩ := starts
  exact ⟨r, String.append_assoc.symm⟩

theorem Starts.trans {u v s : String} (first : Starts u v) (second : Starts v s) : Starts u s := by
  obtain ⟨r, rfl⟩ := second
  exact first.append r

theorem Starts.of_eq_append {u v w : String} (parts : v = u ++ w) (s : String) : Starts u (v ++ s) :=
  ⟨w ++ s, by rw [parts, String.append_assoc]⟩

theorem Starts.clash {u v s : String} (left : Starts u s) (right : Starts v s) :
    u.toList <+: v.toList ∨ v.toList <+: u.toList := by
  obtain ⟨r, rfl⟩ := left
  obtain ⟨r', equal⟩ := right
  have begins : v.toList <+: u.toList ++ r.toList := by
    rw [← String.toList_append, equal, String.toList_append]
    exact List.prefix_append ..
  exact List.prefix_or_prefix_of_prefix (List.prefix_append ..) begins

/-- Neither text starts the other, so no text starts with both. -/
def Apart (u v : String) : Prop := ¬ u.toList <+: v.toList ∧ ¬ v.toList <+: u.toList

instance (u v : String) : Decidable (Apart u v) := inferInstanceAs (Decidable (_ ∧ _))

theorem Starts.not_starts {u v s : String} (starts : Starts u s) (apart : Apart u v) : ¬ Starts v s :=
  fun other => (starts.clash other).elim apart.1 apart.2

namespace Halts

variable {more less : Char → Bool} {u s : String}

theorem append (halts : Halts more u) (s : String) : Halts more (u ++ s) := by
  unfold Halts at *
  cases shape : u.toList with
  | nil => simp [shape] at halts
  | cons c rest => simpa [shape] using halts

theorem weaken (halts : Halts more s) (within : ∀ c, less c → more c) : Halts less s := by
  unfold Halts at *
  cases shape : s.toList with
  | nil => simp [shape] at halts
  | cons c rest =>
    simp only [shape, List.head?_cons, Option.map_some, Option.some.injEq] at halts ⊢
    exact Bool.eq_false_iff.2 fun holds => by simp [within c holds] at halts

theorem not_starts (halts : Halts more s) (goes : u.toList.head?.map more = some true) :
    ¬ Starts u s := by
  rintro ⟨r, rfl⟩
  cases shape : u.toList with
  | nil => simp [shape] at goes
  | cons c rest => simp_all [Halts]

theorem not_starts_all (halts : Halts more s) (filled : u ≠ "") (all : ∀ c ∈ u.toList, more c) :
    ¬ Starts u s := by
  apply halts.not_starts
  cases shape : u.toList with
  | nil => exact absurd (String.toList_eq_nil_iff.1 shape) filled
  | cons c rest => simpa using all c (shape ▸ List.mem_cons_self ..)

end Halts

theorem Starts.halts {more : Char → Bool} {u s : String} (starts : Starts u s) (halts : Halts more u) :
    Halts more s := by
  obtain ⟨r, rfl⟩ := starts
  exact halts.append r

theorem isDigit_of_mem_repr {n : Nat} : ∀ c ∈ n.repr.toList, c.isDigit := by
  intro c member
  rw [Nat.toList_repr] at member
  exact Nat.isDigit_of_mem_toDigits (by decide) (by decide) member

theorem repr_ne_empty {n : Nat} : n.repr ≠ "" := by
  intro empty
  rw [← String.toList_eq_nil_iff, Nat.toList_repr] at empty
  exact Nat.toDigits_ne_nil empty

namespace TellsBefore

variable {Next Last : String → Prop} {u v u' v' : String} {P Q : Prop}

theorem same (holds : P) : TellsBefore Next u u P := by
  intro s t _ _ equal
  exact ⟨holds, (String.append_right_inj u).1 equal⟩

theorem imp (tells : TellsBefore Next u v P) (implies : P → Q) : TellsBefore Next u v Q := by
  intro s t left right equal
  obtain ⟨holds, rest⟩ := tells s t left right equal
  exact ⟨implies holds, rest⟩

theorem weaken (tells : TellsBefore Next u v P) (fewer : ∀ s, Last s → Next s) :
    TellsBefore Last u v P :=
  fun s t left right => tells s t (fewer s left) (fewer t right)

theorem symm (tells : TellsBefore Next u v P) : TellsBefore Next v u P := by
  intro s t left right equal
  obtain ⟨holds, rest⟩ := tells t s right left equal.symm
  exact ⟨holds, rest.symm⟩

theorem empty (apart : ∀ s, Next s → ¬ Starts u s) : TellsBefore Next "" (u ++ v) P := by
  intro s t next _ equal
  refine absurd ⟨v ++ t, ?_⟩ (apart s next)
  rw [← String.append_assoc, ← equal, String.empty_append]

theorem apart {front front' : String} (left : Starts front u) (right : Starts front' v)
    (differ : Apart front front') : TellsBefore Next u v P := by
  intro s t _ _ equal
  exact absurd (right.append t) (equal ▸ (left.append s).not_starts differ)

theorem append (first : TellsBefore Next u v P) (second : P → TellsBefore Last u' v' Q)
    (left : ∀ s, Last s → Next (u' ++ s)) (right : ∀ s, Last s → Next (v' ++ s)) :
    TellsBefore Last (u ++ u') (v ++ v') Q := by
  intro s t lastS lastT equal
  rw [String.append_assoc, String.append_assoc] at equal
  obtain ⟨holds, rest⟩ := first _ _ (left s lastS) (right t lastT) equal
  exact second holds s t lastS lastT rest

theorem after (w : String) (tells : TellsBefore Next u v P) : TellsBefore Next (w ++ u) (w ++ v) P := by
  intro s t left right equal
  rw [String.append_assoc, String.append_assoc, String.append_right_inj] at equal
  exact tells s t left right equal

theorem before (w : String) (tells : TellsBefore Next u v P) (next : ∀ s, Next (w ++ s)) :
    TellsBefore Last (u ++ w) (v ++ w) P :=
  tells.append same (fun s _ => next s) (fun s _ => next s)

theorem enclosed (front back : String) (tells : TellsBefore Next u v P) (next : ∀ s, Next (back ++ s)) :
    TellsBefore Last (front ++ u ++ back) (front ++ v ++ back) P :=
  (tells.after front).before back next

theorem and (first : TellsBefore (fun _ => True) u v P) (second : TellsBefore Last u' v' Q) :
    TellsBefore Last (u ++ u') (v ++ v') (P ∧ Q) :=
  first.append (fun holds => second.imp fun also => ⟨holds, also⟩) (fun _ _ => trivial)
    (fun _ _ => trivial)

theorem pair (separator : String) (first : TellsBefore Next u v P) (next : ∀ s, Next (separator ++ s))
    (second : TellsBefore Last u' v' Q) :
    TellsBefore Last (u ++ separator ++ u') (v ++ separator ++ v') (P ∧ Q) :=
  (first.before separator next).and second

theorem enclosedPair {Next' : String → Prop} (front separator back : String) (first : TellsBefore Next u v P)
    (next : ∀ s, Next (separator ++ s)) (second : TellsBefore Next' u' v' Q)
    (next' : ∀ s, Next' (back ++ s)) :
    TellsBefore Last (front ++ u ++ separator ++ u' ++ back) (front ++ v ++ separator ++ v' ++ back) (P ∧ Q) :=
  ((first.after front).pair separator next second).before back next'

theorem unlike {β : Type} {lead : String → Option β} {x y : β} (left : ∀ s, Next s → lead (u ++ s) = some x)
    (right : ∀ s, Next s → lead (v ++ s) = some y) (differ : x ≠ y) : TellsBefore Next u v P := by
  intro s t nextS nextT equal
  refine absurd ?_ differ
  rw [← Option.some_inj, ← left s nextS, equal, right t nextT]

theorem of_eq (tells : TellsBefore Next u v P) {s : String} (next : Next s) (equal : u = v) : P :=
  (tells s s next next (congrArg (· ++ s) equal)).1

theorem takeWhile_append {more : Char → Bool} {u s : String} (all : ∀ c ∈ u.toList, more c)
    (halts : Halts more s) : (u ++ s).toList.takeWhile more = u.toList := by
  rw [String.toList_append, List.takeWhile_append_of_pos all]
  cases shape : s.toList with
  | nil => simp
  | cons c rest =>
    have stop : more c = false := by simpa [Halts, shape] using halts
    simp [stop]

theorem run {more : Char → Bool} (left : ∀ c ∈ u.toList, more c) (right : ∀ c ∈ v.toList, more c) :
    TellsBefore (Halts more) u v (u = v) := by
  intro s t haltS haltT equal
  have same : u = v := by
    apply String.toList_inj.1
    rw [← takeWhile_append left haltS, equal, takeWhile_append right haltT]
  subst same
  exact ⟨rfl, (String.append_right_inj u).1 equal⟩

theorem number (m n : Nat) : TellsBefore (Halts Char.isDigit) m.repr n.repr (m = n) := by
  apply (run isDigit_of_mem_repr isDigit_of_mem_repr).imp
  intro same
  rw [← Nat.ofDigitChars_ten_toDigits (n := m), ← Nat.ofDigitChars_ten_toDigits (n := n),
    ← Nat.toList_repr, ← Nat.toList_repr, same]

theorem word (m n : UInt32) : TellsBefore (Halts Char.isDigit) (word m) (word n) (m = n) :=
  (number _ _).imp UInt32.toNat_inj.1

theorem longWord (m n : UInt64) :
    TellsBefore (Halts Char.isDigit) (longWord m) (longWord n) (m = n) :=
  (number _ _).imp UInt64.toNat_inj.1

end TellsBefore

theorem nameTable_tells {α : Type} (table : NameTable α) (more : Char → Bool)
    (within : ∀ a ∈ table.all, (table.name a).toList.all more) (a b : α) :
    TellsBefore (Halts more) (table.name a) (table.name b) (a = b) := by
  have all (a : α) : ∀ c ∈ (table.name a).toList, more c :=
    List.all_eq_true.1 (within a (table.complete a))
  exact (TellsBefore.run (all a) (all b)).imp table.name_injective

def withFront {α : Type} (front : String) (write : α → String) : Option α → String
  | none => ""
  | some a => front ++ write a

theorem Halts.withFront {α : Type} {more : Char → Bool} {s : String} (halts : Halts more s)
    (front : String) (opens : Halts more front) (write : α → String) (value : Option α) :
    Halts more (withFront front write value ++ s) := by
  cases value with
  | none => simpa [Text.withFront] using halts
  | some a => exact (opens.append _).append s

theorem TellsBefore.option {α : Type} {front : String} {write : α → String} {Last : String → Prop}
    (each : ∀ a b, TellsBefore Last (write a) (write b) (a = b)) (bare : ∀ s, Last s → ¬ Starts front s)
    (value other : Option α) :
    TellsBefore Last (withFront front write value) (withFront front write other) (value = other) := by
  cases value with
  | none =>
    cases other with
    | none => exact .same rfl
    | some b => exact .empty bare
  | some a =>
    cases other with
    | none => exact (TellsBefore.empty bare).symm
    | some b => exact ((each a b).after front).imp (congrArg some)

def numbered {α : Type} (write : Nat → α → String) (first : Nat) (values : List α) : List String :=
  (values.zipIdx first).map fun (a, i) => write i a

theorem numbered_cons {α : Type} (write : Nat → α → String) (first : Nat) (a : α) (values : List α) :
    numbered write first (a :: values) = write first a :: numbered write (first + 1) values := rfl

theorem map_numbered {α : Type} (write : Nat → α → String) (f : String → String) (first : Nat)
    (values : List α) : (numbered write first values).map f = numbered (fun i a => f (write i a)) first values := by
  simp [numbered, Function.comp_def]

theorem map_eq_numbered {α : Type} (write : α → String) (first : Nat) (values : List α) :
    values.map write = numbered (fun _ => write) first values := by
  induction values generalizing first with
  | nil => rfl
  | cons a values ih => rw [List.map_cons, numbered_cons, ih]

theorem separated_cons (separator item : String) (items : List String) :
    separated separator (item :: items) = item ++ String.join (items.map (separator ++ ·)) := by
  induction items generalizing item with
  | nil => simp [separated]
  | cons next items ih => simp [separated, ih, String.append_assoc]

theorem ended_eq_join (ending : String) (items : List String) :
    ended ending items = String.join (items.map (· ++ ending)) := by
  induction items with
  | nil => rfl
  | cons item items ih => simp [ended, ih]

theorem ended_append (ending : String) (items others : List String) :
    ended ending (items ++ others) = ended ending items ++ ended ending others := by
  simp [ended_eq_join]

theorem next_join {α : Type} {write : Nat → α → String} {Next Last : String → Prop} {values : List α}
    (last : ∀ s, Last s → Next s) (next : ∀ a ∈ values, ∀ i s, Next (write i a ++ s)) (first : Nat)
    (s : String) (lastS : Last s) : Next (String.join (numbered write first values) ++ s) := by
  cases values with
  | nil => simpa [numbered] using last s lastS
  | cons a values =>
    rw [numbered_cons, String.join_cons, String.append_assoc]
    exact next a (List.mem_cons_self ..) first _

namespace TellsBefore

variable {α : Type} {Good : α → Prop} {write : Nat → α → String} {values others : List α}
  {Next Last : String → Prop}

/-- Values one after the other are told when each is, before the next and before what comes last, and
none of them starts what comes last. -/
theorem join (left : ∀ a ∈ values, Good a) (right : ∀ b ∈ others, Good b)
    (each : ∀ a ∈ values, ∀ b, Good b → ∀ i, TellsBefore Next (write i a) (write i b) (a = b))
    (last : ∀ s, Last s → Next s) (next : ∀ b, Good b → ∀ i s, Next (write i b ++ s))
    (apart : ∀ s, Last s → ∀ b, Good b → ∀ i, ¬ Starts (write i b) s) (first : Nat) :
    TellsBefore Last (String.join (numbered write first values))
      (String.join (numbered write first others)) (values = others) := by
  -- Equal first values leave the same text behind them, in which the count has gone on for both lists.
  induction values generalizing others first with
  | nil =>
    cases others with
    | nil => exact same rfl
    | cons b others =>
      rw [numbered_cons, String.join_cons]
      exact empty fun s lastS => apart s lastS b (right b (List.mem_cons_self ..)) first
  | cons a values ih =>
    cases others with
    | nil =>
      rw [numbered_cons, String.join_cons]
      exact (empty fun s lastS => apart s lastS a (left a (List.mem_cons_self ..)) first).symm
    | cons b others =>
      rw [List.forall_mem_cons] at left right
      rw [numbered_cons, numbered_cons, String.join_cons, String.join_cons]
      apply (each a (List.mem_cons_self ..) b right.1 first).append
      · rintro rfl
        apply (ih left.2 right.2 _ (first + 1)).imp (congrArg _)
        exact fun c member => each c (List.mem_cons_of_mem _ member)
      · exact next_join last (fun c member => next c (left.2 c member)) _
      · exact next_join last (fun c member => next c (right.2 c member)) _

theorem ended {ending : String} (left : ∀ a ∈ values, Good a) (right : ∀ b ∈ others, Good b)
    (each : ∀ a ∈ values, ∀ b, Good b → ∀ i, TellsBefore Next (write i a) (write i b) (a = b))
    (next : ∀ s, Next (ending ++ s))
    (apart : ∀ s, Last s → ∀ b, Good b → ∀ i, ¬ Starts (write i b) s) (first : Nat) :
    TellsBefore Last (ended ending (numbered write first values))
      (ended ending (numbered write first others)) (values = others) := by
  have item : ∀ a ∈ values, ∀ b, Good b → ∀ i,
      TellsBefore (fun _ => True) (write i a ++ ending) (write i b ++ ending) (a = b) :=
    fun a member b good i => (each a member b good i).before ending next
  rw [ended_eq_join, ended_eq_join, map_numbered, map_numbered]
  apply join left right item
  · exact fun _ _ => trivial
  · exact fun _ _ _ _ => trivial
  · exact fun s lastS b good i starts => apart s lastS b good i starts.of_append

theorem separated {separator : String} (left : ∀ a ∈ values, Good a) (right : ∀ b ∈ others, Good b)
    (each : ∀ a ∈ values, ∀ b, Good b → ∀ i, TellsBefore Next (write i a) (write i b) (a = b))
    (next : ∀ s, Next (separator ++ s)) (last : ∀ s, Last s → Next s)
    (beyond : ∀ s, Last s → ¬ Starts separator s)
    (apart : ∀ s, Last s → ∀ b, Good b → ∀ i, ¬ Starts (write i b) s) (first : Nat) :
    TellsBefore Last (separated separator (numbered write first values))
      (separated separator (numbered write first others)) (values = others) := by
  have next' : ∀ b : α, ∀ i s, Next (separator ++ write i b ++ s) := by
    intro b i s
    rw [String.append_assoc]
    exact next _
  cases values with
  | nil =>
    cases others with
    | nil => exact same rfl
    | cons b others =>
      rw [numbered_cons, separated_cons]
      exact empty fun s lastS => apart s lastS b (right b (List.mem_cons_self ..)) first
  | cons a values =>
    cases others with
    | nil =>
      rw [numbered_cons, separated_cons]
      exact (empty fun s lastS => apart s lastS a (left a (List.mem_cons_self ..)) first).symm
    | cons b others =>
      rw [List.forall_mem_cons] at left right
      rw [numbered_cons, numbered_cons, separated_cons, separated_cons, map_numbered, map_numbered]
      apply (each a (List.mem_cons_self ..) b right.1 first).append
      · rintro rfl
        apply TellsBefore.imp _ (congrArg _)
        apply join left.2 right.2 _ last fun b _ => next' b
        · exact fun s lastS b _ i starts => beyond s lastS starts.of_append
        · exact fun c member d good i => (each c (List.mem_cons_of_mem _ member) d good i).after _
      · exact next_join last (fun b _ => next' b) _
      · exact next_join last (fun b _ => next' b) _

end TellsBefore

end MidIR.Text
