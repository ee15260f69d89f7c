import MidIR.Binary.File
import MidIR.Proofs.Binary.Nodes

namespace MidIR

open Decoder LawfulRecord

/-- A reader that stands at an offset of some bytes, inside `depth` open records. -/
def Reader.within (data : List UInt8) (offset depth : Nat) : Reader :=
  ⟨data.drop offset, offset, depth⟩

theorem Reader.within_append (before rest : List UInt8) (depth : Nat) :
    Reader.within (before ++ rest) before.length depth = ⟨rest, before.length, depth⟩ := by
  rw [within, List.drop_left]

section Values

variable {α : Type} [Record α] [Outlined α] [Nested α] [LawfulRecord α]

theorem tooDeep?_eq_none (value : α) (offset : Nat) {depth : Nat} (room : depth + nest value ≤ maxDepth) :
    (outline value).tooDeep? offset depth = none := by
  have height := outline_height value offset (Nat.le_of_add_right_le room)
  rw [if_pos room, Option.map_eq_none_iff] at height
  exact height

theorem exists_tooDeep (value : α) (offset : Nat) {depth : Nat} (inside : depth ≤ maxDepth)
    (deep : maxDepth < depth + nest value) : ∃ start, (outline value).tooDeep? offset depth = some start ∧
      ((outline value).records offset depth).find? (·.level = maxDepth + 1) = some start := by
  have height := outline_height value offset inside
  rw [if_neg (Nat.not_le.2 deep), Option.map_eq_some_iff] at height
  obtain ⟨start, found, level⟩ := height
  refine ⟨start, found, ?_⟩
  obtain ⟨_, shallow, others, equal, within⟩ := List.find?_eq_some_iff_append.1 found
  refine List.find?_eq_some_iff_append.2 ⟨by simpa using level, shallow, others, equal, ?_⟩
  intro earlier member
  have := within earlier member
  simp only [Bool.not_eq_true', decide_eq_false_iff_not] at this ⊢
  omega

theorem decode_of_room (value : α) (short : (outline value).Short) {depth : Nat}
    (room : depth + nest value ≤ maxDepth) (rest : List UInt8) (offset : Nat) :
    Record.decode.runOn ⟨encode value ++ rest, offset, depth⟩ =
      (.ok value, ⟨rest, offset + (encode value).length, depth⟩) := by
  have read := reads value (Nat.le_of_add_right_le room) short rest offset
  rwa [tooDeep?_eq_none value offset room, outline_bytes] at read

theorem nest_le_of_takes {value : α} {before after : Reader} (inside : before.depth ≤ maxDepth)
    (takes : Takes before (outline value) after) : before.depth + nest value ≤ maxDepth := by
  rcases Nat.lt_or_ge maxDepth (before.depth + nest value) with deep | room
  · obtain ⟨start, found, _⟩ := exists_tooDeep value before.offset inside deep
    have level := takes.level start (List.mem_of_find?_eq_some found)
    have deeper := List.find?_some found
    simp only [decide_eq_true_eq] at deeper
    omega
  · exact room

theorem takes_of_decode {value : α} {before after : Reader}
    (read : Record.decode.runOn before = (.ok value, after)) : Takes before (outline value) after := by
  obtain ⟨_, rfl, takes⟩ := yields _ _ _ read
  exact takes

end Values

/-! ## Any kind of value -/

abbrev Kind.decode (kind : Kind) : Decoder kind.Node := Record.decode

/-- Reading what was written gives the value back and stops behind it, unless its records nest too
deep: then reading fails where the first record starts that `maxDepth` others are open around. -/
theorem decode_encode (kind : Kind) (value : kind.Node) (short : (outline value).Short)
    (before rest : List UInt8) {depth : Nat} (inside : depth ≤ maxDepth) :
    (depth + nest value ≤ maxDepth →
      kind.decode.runOn (.within (before ++ (encode value ++ rest)) before.length depth) =
        (.ok value, ⟨rest, (before ++ encode value).length, depth⟩)) ∧
    (maxDepth < depth + nest value → ∃ start,
      ((outline value).records before.length depth).find? (·.level = maxDepth + 1) = some start ∧
      (kind.decode.runOn (.within (before ++ (encode value ++ rest)) before.length depth)).1 =
        .error (.tooDeep start.offset)) := by
  rw [Reader.within_append]
  constructor
  · intro room
    rw [decode_of_room value short room, List.length_append]
  · intro deep
    obtain ⟨start, found, first⟩ := exists_tooDeep value before.length inside deep
    have read := reads value inside short rest before.length
    rw [found, outline_bytes] at read
    exact ⟨start, first, read⟩

def Place.behindStatic : Place := .deref (.static (.ofItem ⟨"core", ["x"]⟩))

theorem decode_encode_behindStatic :
    Kind.place.decode.runOn (.within ([7] ++ (encode Place.behindStatic ++ [9])) 1 254) =
      (.ok Place.behindStatic, ⟨[9], 41, 254⟩) ∧
    (Kind.place.decode.runOn (.within ([7] ++ (encode Place.behindStatic ++ [9])) 1 255)).1 =
      .error (.tooDeep 10) := by
  have short : (outline Place.behindStatic).Short := show ∀ n ∈ [4, 1, 1, 0], n ≤ 0xffffffff by decide
  constructor
  · exact (decode_encode .place _ short [7] [9] (show 254 ≤ maxDepth by decide)).1 (by decide)
  · obtain ⟨start, found, read⟩ :=
      (decode_encode .place _ short [7] [9] (show 255 ≤ maxDepth by decide)).2 (by decide)
    have first : some (⟨10, 257⟩ : Start) = some start := found
    rw [← Option.some.inj first] at read
    exact read

/-! ## Files -/

namespace Binary

theorem short_of_tooLong?_eq_none {body : Body} (none : tooLong? body = none) :
    (outline body).Short := by
  intro n member
  have := List.find?_eq_none.1 none n member
  simpa using this

theorem tooLong?_eq_none {body : Body} (short : (outline body).Short) : tooLong? body = none := by
  refine List.find?_eq_none.2 fun n member => ?_
  simpa using short n member

theorem file_eq_ok {body : Body} {bytes : List UInt8} :
    file body = .ok bytes ↔ (outline body).Short ∧ bytes = encodeBody body := by
  unfold file
  cases long : tooLong? body with
  | none => simp [short_of_tooLong?_eq_none long, eq_comm]
  | some n =>
    constructor
    · intro written
      cases written
    · rintro ⟨short, _⟩
      rw [tooLong?_eq_none short] at long
      cases long

theorem header_reads : Reads 0 header () (.plain (magic ++ Encode.u16 version)) := by
  intro _ rest offset
  rfl

theorem header_yields : Yields header fun _ o => o = .plain (magic ++ Encode.u16 version) := by
  refine (Yields.take _).recast.bind ?_
  rintro start _ ⟨_, rfl⟩
  refine (Yields.require _).bind ?_
  rintro _ _ ⟨rfl, rfl⟩
  refine Yields.u16.part fun found => ?_
  intro before after _ run
  obtain ⟨_, ⟨rfl, rfl⟩, takes⟩ := Yields.require _ _ _ _ run
  exact ⟨_, rfl, takes⟩

theorem headedBody_reads (body : Body) :
    Reads 0 headedBody body (.plain (magic ++ Encode.u16 version) ++ outline body) :=
  header_reads.bind (reads body (Nat.zero_le _))

theorem decodeBody_eq_ok {bytes : List UInt8} {body : Body} :
    decodeBody bytes = .ok body ↔
      ∃ offset depth, headedBody.runOn (.ofBytes bytes) = (.ok body, ⟨[], offset, depth⟩) := by
  unfold decodeBody
  rcases headedBody.runOn (.ofBytes bytes) with ⟨_ | found, rest, offset, depth⟩
  · simp
  · cases rest with
    | nil => simp [Reader.atEnd]
    | cons b rest => simp [Reader.atEnd]

theorem decodeBody_eq_ok_iff {bytes : List UInt8} {body : Body} :
    decodeBody bytes = .ok body ↔ file body = .ok bytes ∧ nest body ≤ maxDepth := by
  rw [decodeBody_eq_ok, file_eq_ok]
  constructor
  · rintro ⟨offset, depth, read⟩
    obtain ⟨_, between, readHeader, readBody⟩ := runOn_bind_ok.1 read
    obtain ⟨_, rfl, header⟩ := header_yields _ _ _ readHeader
    have takes := takes_of_decode readBody
    have level : between.depth = 0 := header.depth
    have room := nest_le_of_takes (by omega) takes
    refine ⟨⟨takes.short, ?_⟩, by omega⟩
    have front : bytes = _ ++ between.rest := header.rest
    rw [front, takes.rest, outline_bytes, List.append_nil]
    rfl
  · rintro ⟨⟨short, rfl⟩, room⟩
    have read := headedBody_reads body short [] 0
    rw [Outline.tooDeep?_append, tooDeep?_eq_none body _ (by omega)] at read
    refine ⟨_, _, Eq.trans ?_ read⟩
    rw [append_bytes, outline_bytes, List.append_nil]
    rfl

end Binary

/-- Writing undoes reading. What a reader took for a value is its binary form, and its records nest no
deeper than there was room for; so a body is read from the one file that is written for it. -/
theorem encode_decode :
    (∀ (kind : Kind) (data : List UInt8) (offset depth : Nat) (value : kind.Node) (after : Reader),
      depth ≤ maxDepth → kind.decode.runOn (.within data offset depth) = (.ok value, after) →
        after = .within data after.offset depth ∧ offset ≤ after.offset ∧
        encode value = (data.drop offset).take (after.offset - offset) ∧
        depth + nest value ≤ maxDepth) ∧
    (∀ (bytes : List UInt8) (body : Body), Binary.decodeBody bytes = .ok body ↔
      Binary.file body = .ok bytes ∧ nest body ≤ maxDepth) ∧
    ∀ (bytes others : List UInt8) (body : Body), Binary.decodeBody bytes = .ok body →
      Binary.decodeBody others = .ok body → bytes = others := by
  refine ⟨?_, fun bytes body => Binary.decodeBody_eq_ok_iff, ?_⟩
  · intro kind data offset depth value after inside read
    have takes := takes_of_decode read
    have front : data.drop offset = encode value ++ after.rest := by
      rw [← outline_bytes]
      exact takes.rest
    have stop : after.offset = offset + (encode value).length := by
      rw [← outline_bytes]
      exact takes.offset
    have rest : after.rest = data.drop after.offset := by
      rw [stop, ← List.drop_drop, front, List.drop_left]
    refine ⟨?_, by omega, ?_, nest_le_of_takes inside takes⟩
    · calc after = ⟨after.rest, after.offset, after.depth⟩ := rfl
        _ = Reader.within data after.offset depth := by rw [rest, takes.depth]; rfl
    · rw [stop, Nat.add_sub_cancel_left, front, List.take_left]
  · intro bytes others body read readOther
    have written := (Binary.decodeBody_eq_ok_iff.1 read).1
    rw [(Binary.decodeBody_eq_ok_iff.1 readOther).1] at written
    exact (Except.ok.inj written).symm

theorem encode_decode_behindStatic :
    encode Place.behindStatic = ((7 :: encode Place.behindStatic).drop 1).take 40 ∧
    0 + nest Place.behindStatic ≤ maxDepth := by
  have read : Kind.place.decode.runOn (.within (7 :: encode Place.behindStatic) 1 0) =
      (.ok Place.behindStatic, ⟨[], 41, 0⟩) := rfl
  exact (encode_decode.1 .place _ 1 0 _ _ (by decide) read).2.2

end MidIR
