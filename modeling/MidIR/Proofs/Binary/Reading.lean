import MidIR.Binary.Outline

/-!
# Reading what was written

`Reads` says what a decoder makes of the bytes of an outline: the value, if no record starts deeper
than `maxDepth`, else the failure at the first that does. `Yields` goes the other way: whatever a
decoder gives stood in the bytes it took. Both follow decoders from part to part.
-/

namespace MidIR

namespace Decoder

variable {α β : Type}

theorem runOn_pure (a : α) (reader : Reader) : runOn (pure a) reader = (.ok a, reader) := rfl

theorem runOn_bind (decode : Decoder α) (next : α → Decoder β) (reader : Reader) :
    (decode >>= next).runOn reader = match decode.runOn reader with
      | (.ok a, after) => (next a).runOn after
      | (.error e, after) => (.error e, after) := by
  simp only [runOn, ExceptT.run, bind, ExceptT.bind, ExceptT.mk, StateT.run, StateT.bind]
  rcases decode reader with ⟨_ | _, _⟩ <;> rfl

theorem runOn_bind_ok {decode : Decoder α} {next : α → Decoder β} {reader after : Reader} {b : β} :
    (decode >>= next).runOn reader = (.ok b, after) ↔
      ∃ a between, decode.runOn reader = (.ok a, between) ∧ (next a).runOn between = (.ok b, after) := by
  rw [runOn_bind]
  rcases decode.runOn reader with ⟨_ | a, between⟩
  · simp
  · exact ⟨fun run => ⟨a, between, rfl, run⟩, by rintro ⟨_, _, ⟨⟩, run⟩; exact run⟩

theorem runOn_get_bind (next : Reader → Decoder β) (reader : Reader) :
    ((get : Decoder Reader) >>= next).runOn reader = (next reader).runOn reader := rfl

theorem runOn_recast (decode : Decoder α) (e : DecodeError) (reader : Reader) :
    (tryCatch decode fun _ => throw e).runOn reader = match decode.runOn reader with
      | (.ok a, after) => (.ok a, after)
      | (.error _, after) => (.error e, after) := by
  simp only [runOn, ExceptT.run, tryCatch, tryCatchThe, MonadExceptOf.tryCatch, ExceptT.tryCatch,
    ExceptT.mk, bind, StateT.run, StateT.bind]
  rcases decode reader with ⟨_ | _, _⟩ <;> rfl

theorem splitExactly_append (front rest : List α) :
    splitExactly front.length (front ++ rest) = some (front, rest) := by
  induction front with
  | nil => rfl
  | cons a front ih => simp [splitExactly, ih]

theorem splitExactly_eq_some {n : Nat} {as front rest : List α}
    (split : splitExactly n as = some (front, rest)) : as = front ++ rest ∧ front.length = n := by
  induction n generalizing as front with
  | zero => simp_all [splitExactly]
  | succ n ih =>
    cases as with
    | nil => simp [splitExactly] at split
    | cons a as =>
      simp only [splitExactly, Option.map_eq_some_iff] at split
      obtain ⟨⟨front', rest'⟩, split, equal⟩ := split
      obtain ⟨rfl, rfl⟩ := Prod.mk.inj equal
      obtain ⟨rfl, length⟩ := ih split
      exact ⟨rfl, by simp [length]⟩

theorem runOn_take (n : Nat) (reader : Reader) :
    (take n).runOn reader = match splitExactly n reader.rest with
      | some (front, rest) => (.ok front, { reader with rest, offset := reader.offset + n })
      | none => (.error (.unexpectedEnd reader.offset), reader) := by
  unfold take
  rw [runOn_get_bind]
  cases splitExactly n reader.rest <;> rfl

theorem runOn_nested {depth : Nat} (room : depth < maxDepth) (decode : Decoder α) (rest : List UInt8)
    (offset : Nat) :
    (nested decode).runOn ⟨rest, offset, depth⟩ =
      ((decode.runOn ⟨rest, offset, depth + 1⟩).1,
        { (decode.runOn ⟨rest, offset, depth + 1⟩).2 with
          depth := (decode.runOn ⟨rest, offset, depth + 1⟩).2.depth - 1 }) := by
  change (if depth < maxDepth then _ else _) = _
  rw [if_pos room]
  rfl

theorem runOn_nested_full {depth : Nat} (full : maxDepth ≤ depth) (decode : Decoder α)
    (rest : List UInt8) (offset : Nat) :
    (nested decode).runOn ⟨rest, offset, depth⟩ =
      (.error (.tooDeep offset), ⟨rest, offset, depth⟩) := by
  change (if depth < maxDepth then _ else _) = _
  rw [if_neg (Nat.not_lt.2 full)]

end Decoder

open Decoder

/-- The first record that starts deeper than records may nest, for a value at an offset inside
`depth` open records. -/
def Outline.tooDeep? (o : Outline) (offset depth : Nat) : Option Start :=
  (o.records offset depth).find? fun start => maxDepth < start.level

def Outline.Short (o : Outline) : Prop := ∀ n ∈ o.lengths, n ≤ 0xffffffff

theorem Outline.append_nil (o : Outline) : o ++ join [] = o := by
  obtain ⟨bytes, lengths, records⟩ := o
  change Outline.mk (bytes ++ []) (lengths ++ []) (fun offset depth => records offset depth ++ []) = _
  simp only [List.append_nil]

theorem Outline.tooDeep?_append (a b : Outline) (offset depth : Nat) :
    (a ++ b).tooDeep? offset depth =
      (a.tooDeep? offset depth).or (b.tooDeep? (offset + a.bytes.length) depth) :=
  List.find?_append

theorem Outline.tooDeep?_record (parts : List Outline) (offset depth : Nat) :
    (record parts).tooDeep? offset depth =
      if maxDepth < depth + 1 then some ⟨offset, depth + 1⟩
      else (join parts).tooDeep? offset (depth + 1) := by
  change List.find? _ (_ :: _) = _
  rw [List.find?_cons]
  by_cases deep : maxDepth < depth + 1
  · rw [if_pos deep, decide_eq_true deep]
  · rw [if_neg deep, decide_eq_false deep]
    rfl

theorem fromUTF8?_utf8 (s : String) : String.fromUTF8? ⟨(utf8 s).toArray⟩ = some s := by
  have bytes : (⟨(utf8 s).toArray⟩ : ByteArray) = s.toByteArray := by simp [utf8]
  rw [bytes, String.fromUTF8?, dif_pos s.isValidUTF8]
  rfl

theorem utf8_of_fromUTF8? {bs : List UInt8} {s : String}
    (read : String.fromUTF8? ⟨bs.toArray⟩ = some s) : utf8 s = bs := by
  rw [String.fromUTF8?] at read
  split at read
  · rw [← Option.some.inj read]
    rfl
  · cases read

section Laws

variable {α β : Type} {depth : Nat}

/-! ## Forward -/

def Reads (depth : Nat) (decode : Decoder α) (value : α) (o : Outline) : Prop :=
  o.Short → ∀ rest offset, match o.tooDeep? offset depth with
    | none => decode.runOn ⟨o.bytes ++ rest, offset, depth⟩
        = (.ok value, ⟨rest, offset + o.bytes.length, depth⟩)
    | some start => (decode.runOn ⟨o.bytes ++ rest, offset, depth⟩).1 = .error (.tooDeep start.offset)

theorem Reads.pure (value : α) : Reads depth (pure value) value (.join []) := by
  intro _ rest offset
  exact runOn_pure value _

theorem Reads.bind {decode : Decoder α} {next : α → Decoder β} {a : α} {b : β} {o p : Outline}
    (first : Reads depth decode a o) (second : Reads depth (next a) b p) :
    Reads depth (decode >>= next) b (o ++ p) := by
  intro short rest offset
  have first := first (fun n member => short n (List.mem_append_left _ member))
    (p.bytes ++ rest) offset
  have second := second (fun n member => short n (List.mem_append_right _ member))
    rest (offset + o.bytes.length)
  have bytes : (o ++ p).bytes ++ rest = o.bytes ++ (p.bytes ++ rest) := List.append_assoc ..
  have length : offset + (o ++ p).bytes.length = offset + o.bytes.length + p.bytes.length := by
    change offset + (o.bytes ++ p.bytes).length = _
    rw [List.length_append, Nat.add_assoc]
  rw [Outline.tooDeep?_append, bytes, length, runOn_bind]
  cases deep : o.tooDeep? offset depth with
  | none =>
    simp only [deep] at first
    rw [first]
    exact second
  | some start =>
    simp only [deep] at first
    change _ = Except.error (DecodeError.tooDeep start.offset)
    rcases run : decode.runOn ⟨o.bytes ++ (p.bytes ++ rest), offset, depth⟩ with ⟨_ | _, _⟩ <;>
      simp_all

theorem Reads.map {decode : Decoder α} {make : α → β} {a : α} {o : Outline}
    (reads : Reads depth decode a o) :
    Reads depth (decode >>= fun a => Pure.pure (make a)) (make a) o := by
  rw [← o.append_nil]
  exact reads.bind (.pure (make a))

theorem Reads.last {decode : Decoder α} {make : α → β} {a : α} {o : Outline}
    (reads : Reads depth decode a o) :
    Reads depth (decode >>= fun a => Pure.pure (make a)) (make a) (.join [o]) :=
  reads.bind (.pure (make a))

theorem Reads.take {n : Nat} {bytes : List UInt8} (length : bytes.length = n) :
    Reads depth (take n) bytes (.plain bytes) := by
  subst length
  intro _ rest offset
  change (Decoder.take bytes.length).runOn ⟨bytes ++ rest, offset, depth⟩ = _
  rw [runOn_take]
  simp only [splitExactly_append]
  rfl

theorem Reads.number {width n : Nat} (small : n < LittleEndian.capacity width) :
    Reads depth (number width) n (.plain (LittleEndian.bytes width n)) := by
  have same : LittleEndian.ofBytes (LittleEndian.bytes width n) = n := by
    rw [LittleEndian.ofBytes_bytes, Nat.mod_eq_of_lt small]
  have reads : Reads depth (Decoder.number width) (LittleEndian.ofBytes (LittleEndian.bytes width n))
      (.plain (LittleEndian.bytes width n)) := (Reads.take (LittleEndian.length_bytes width n)).map
  rwa [same] at reads

theorem Reads.u32 (n : UInt32) : Reads depth u32 n (.plain (Encode.u32 n)) := by
  have same : n.toNat.toUInt32 = n := UInt32.ofNat_toNat
  have reads : Reads depth Decoder.u32 n.toNat.toUInt32 (.plain (Encode.u32 n)) :=
    (Reads.number n.toNat_lt).map
  rwa [same] at reads

theorem Reads.u64 (n : UInt64) : Reads depth u64 n (.plain (Encode.u64 n)) := by
  have same : n.toNat.toUInt64 = n := UInt64.ofNat_toNat
  have reads : Reads depth Decoder.u64 n.toNat.toUInt64 (.plain (Encode.u64 n)) :=
    (Reads.number n.toNat_lt).map
  rwa [same] at reads

theorem Reads.i64 (n : Int64) : Reads depth i64 n (.plain (Encode.i64 n)) :=
  (Reads.u64 n.toUInt64).map

theorem Reads.bool (b : Bool) : Reads depth bool b (.plain (Encode.bool b)) := by
  intro short rest offset
  cases b <;> rfl

theorem Reads.counted {next : UInt32 → Decoder β} {n : Nat} {b : β} {o : Outline}
    (second : ∀ count : UInt32, count.toNat = n → Reads depth (next count) b o) :
    Reads depth (Decoder.u32 >>= next) b (.length n ++ o) := by
  intro short
  have small : n ≤ 0xffffffff := short n (List.mem_cons_self ..)
  have count : n.toUInt32.toNat = n := UInt32.toNat_ofNat_of_lt' (Nat.lt_succ_of_le small)
  have first : Reads depth Decoder.u32 n.toUInt32 (.length n) := fun _ => Reads.u32 _ (by simp [Outline.Short, Outline.plain])
  exact first.bind (second _ count) short

theorem Reads.bytes (bs : List UInt8) : Reads depth bytes bs (.byteString bs) := by
  apply Reads.counted
  intro count equal
  rw [Outline.join, Outline.append_nil]
  exact Reads.take equal.symm

theorem Reads.get {next : Reader → Decoder β} {b : β} {o : Outline}
    (reads : ∀ reader : Reader, reader.depth = depth → Reads depth (next reader) b o) :
    Reads depth (get >>= next) b o := by
  intro short rest offset
  rw [runOn_get_bind]
  exact reads _ rfl short rest offset

theorem Reads.text (s : String) : Reads depth text s (.text s) := by
  apply Reads.get
  intro start _
  rw [← (Outline.text s).append_nil]
  refine (Reads.bytes (utf8 s)).bind ?_
  rw [fromUTF8?_utf8]
  exact Reads.pure s

theorem Reads.tag {entity : String} {names : NameTable α}
    (brief : ∀ a ∈ names.all, (utf8 (names.name a)).length ≤ 0xffffffff) (a : α) :
    Reads depth (Decoder.tag entity names) a (.name (names.name a)) := by
  have found : Reads depth (Decoder.tag entity names) a (.text (names.name a) ++ .join []) := by
    refine (Reads.text (names.name a)).bind ?_
    rw [names.find?_name]
    exact Reads.pure a
  rw [Outline.append_nil] at found
  intro _
  have bytes : (Outline.text (names.name a)).bytes = (Outline.name (names.name a)).bytes := by
    change _ ++ (_ ++ []) = _
    rw [List.append_nil]
    rfl
  have short : (Outline.text (names.name a)).Short := by
    intro n member
    rw [List.mem_singleton.1 member]
    exact brief a (names.complete a)
  have reads := found short
  rw [bytes] at reads
  exact reads

theorem Reads.times {decode : Decoder α} {outline : α → Outline} (values : List α)
    (reads : ∀ a ∈ values, Reads depth decode a (outline a)) :
    Reads depth (times decode values.length) values (.join (values.map outline)) := by
  induction values with
  | nil => exact Reads.pure []
  | cons a values ih =>
    have head := reads a (List.mem_cons_self ..)
    have tail := ih fun b member => reads b (List.mem_cons_of_mem _ member)
    exact head.bind tail.map

theorem Reads.seq {decode : Decoder α} {outline : α → Outline} (values : List α)
    (reads : ∀ a ∈ values, Reads depth decode a (outline a)) :
    Reads depth (seq decode) values (.seq outline values) := by
  apply Reads.counted
  intro count equal
  rw [equal]
  exact Reads.times values reads

theorem Reads.option {decode : Decoder α} {outline : α → Outline} (value : Option α)
    (reads : ∀ a, value = some a → Reads depth decode a (outline a)) :
    Reads depth (option decode) value (.option outline value) := by
  cases value with
  | none =>
    rw [← (Outline.option outline none).append_nil]
    exact (Reads.bool false).bind (Reads.pure none)
  | some a => exact (Reads.bool true).bind (reads a rfl).last

theorem Reads.nested {decode : Decoder α} {a : α} {parts : List Outline} (inside : depth ≤ maxDepth)
    (reads : depth + 1 ≤ maxDepth → Reads (depth + 1) decode a (.join parts)) :
    Reads depth (nested decode) a (.record parts) := by
  intro short rest offset
  rw [Outline.tooDeep?_record]
  rcases Nat.lt_or_eq_of_le inside with room | full
  · have inner := reads room short rest offset
    have bytes : (Outline.record parts).bytes = (Outline.join parts).bytes := rfl
    rw [if_neg (by omega : ¬ maxDepth < depth + 1), bytes, runOn_nested room]
    cases deep : (Outline.join parts).tooDeep? offset (depth + 1) with
    | none =>
      simp only [deep] at inner
      rw [inner]
      rfl
    | some start =>
      simp only [deep] at inner
      exact inner
  · rw [if_pos (by omega : maxDepth < depth + 1), runOn_nested_full (Nat.le_of_eq full.symm)]

theorem Reads.full {a : α} {parts : List Outline} (full : depth = maxDepth) :
    Reads depth (do throw (.tooDeep (← MonadState.get).offset)) a (.record parts) := by
  intro short rest offset
  rw [Outline.tooDeep?_record, if_pos (by omega : maxDepth < depth + 1)]
  rfl

end Laws

end MidIR
