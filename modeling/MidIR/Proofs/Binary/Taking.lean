import MidIR.Proofs.Binary.Reading

namespace MidIR

open Decoder

/-- A reader went from `before` to `after` over the bytes of an outline. -/
structure Takes (before : Reader) (o : Outline) (after : Reader) : Prop where
  rest : before.rest = o.bytes ++ after.rest
  offset : after.offset = before.offset + o.bytes.length
  depth : after.depth = before.depth
  short : o.Short
  level : ∀ start ∈ o.records before.offset before.depth, start.level ≤ maxDepth

namespace Takes

variable {before between after : Reader} {o p : Outline} {bytes : List UInt8}

theorem nothing : Takes before (.join []) before where
  rest := rfl
  offset := rfl
  depth := rfl
  short := by intro n member; cases member
  level := by intro start member; cases member

theorem append (first : Takes before o between) (second : Takes between p after) :
    Takes before (o ++ p) after where
  rest := by
    rw [first.rest, second.rest]
    exact (List.append_assoc ..).symm
  offset := by
    change _ = _ + (o.bytes ++ p.bytes).length
    rw [second.offset, first.offset, List.length_append, Nat.add_assoc]
  depth := second.depth.trans first.depth
  short := by
    intro n member
    rcases List.mem_append.1 member with member | member
    · exact first.short n member
    · exact second.short n member
  level := by
    intro start member
    rcases List.mem_append.1 member with member | member
    · exact first.level start member
    · apply second.level start
      rwa [first.offset, first.depth]

theorem plain (takes : Takes before o after) : Takes before (.plain o.bytes) after where
  rest := takes.rest
  offset := takes.offset
  depth := takes.depth
  short := by intro n member; cases member
  level := by intro start member; cases member

end Takes

def Yields {α : Type} (decode : Decoder α) (Form : α → Outline → Prop) : Prop :=
  ∀ before after value, decode.runOn before = (.ok value, after) →
    ∃ o, Form value o ∧ Takes before o after

abbrev YieldsAs {α : Type} (decode : Decoder α) (outline : α → Outline) : Prop :=
  Yields decode fun value o => o = outline value

namespace Yields

variable {α β : Type} {F : α → Outline → Prop} {G : β → Outline → Prop}

theorem pure {a : α} (form : F a (.join [])) : Yields (pure a) F := by
  intro before after value run
  cases run
  exact ⟨_, form, .nothing⟩

theorem throw (e : DecodeError) : Yields (throw e) F := by
  intro before after value run
  cases run

theorem bind {decode : Decoder α} {next : α → Decoder β} (first : Yields decode F)
    (second : ∀ a o, F a o → Yields (next a) fun b p => G b (o ++ p)) : Yields (decode >>= next) G := by
  intro before after b run
  obtain ⟨a, between, run₁, run₂⟩ := runOn_bind_ok.1 run
  obtain ⟨o, form, takes₁⟩ := first _ _ _ run₁
  obtain ⟨p, form, takes₂⟩ := second a o form _ _ _ run₂
  exact ⟨o ++ p, form, takes₁.append takes₂⟩

theorem part {decode : Decoder α} {next : α → Decoder β} {outline : α → Outline}
    (first : YieldsAs decode outline)
    (second : ∀ a, Yields (next a) fun b p => G b (outline a ++ p)) : Yields (decode >>= next) G := by
  refine first.bind ?_
  rintro a _ rfl
  exact second a

theorem map {decode : Decoder α} {make : α → β} (yields : Yields decode F)
    (form : ∀ a o, F a o → G (make a) o) : Yields (decode >>= fun a => Pure.pure (make a)) G := by
  refine yields.bind fun a o given => .pure ?_
  rw [Outline.append_nil]
  exact form a o given

theorem get {next : Reader → Decoder β} (yields : ∀ reader, Yields (next reader) G) :
    Yields (get >>= next) G := by
  intro before after value run
  rw [runOn_get_bind] at run
  exact yields _ _ _ _ run

theorem recast {decode : Decoder α} {e : DecodeError} (yields : Yields decode F) :
    Yields (tryCatch decode fun _ => MonadExcept.throw e) F := by
  intro before after value run
  refine yields before after value ?_
  rw [runOn_recast] at run
  rcases given : decode.runOn before with ⟨_ | a, between⟩
  · rw [given] at run
    cases run
  · rw [given] at run
    exact run

theorem require {condition : Prop} [Decidable condition] (e : DecodeError) :
    Yields (require condition e) fun _ o => condition ∧ o = .join [] := by
  unfold Decoder.require
  split
  · rename_i holds
    exact pure ⟨holds, rfl⟩
  · exact throw e

theorem take (n : Nat) : Yields (take n) fun bytes o => bytes.length = n ∧ o = .plain bytes := by
  intro before after bytes run
  rw [runOn_take] at run
  split at run
  · rename_i front rest split
    obtain ⟨equal, length⟩ := splitExactly_eq_some split
    cases run
    refine ⟨_, ⟨length, rfl⟩, equal, ?_, rfl, ?_, ?_⟩
    · exact congrArg _ length.symm
    · intro n member
      cases member
    · intro start member
      cases member
  · cases run

theorem number (width : Nat) : Yields (number width) fun n o =>
    n < LittleEndian.capacity width ∧ o = .plain (LittleEndian.bytes width n) := by
  refine (take width).map ?_
  rintro bytes _ ⟨rfl, rfl⟩
  exact ⟨LittleEndian.ofBytes_lt bytes, by rw [LittleEndian.bytes_ofBytes]⟩

theorem u8 : YieldsAs u8 fun n => .plain [n] := by
  refine (number 1).map ?_
  rintro n _ ⟨small, rfl⟩
  rfl

theorem u16 : YieldsAs u16 fun n => .plain (Encode.u16 n) := by
  refine (number 2).map ?_
  rintro n _ ⟨small, rfl⟩
  change _ = Outline.plain (LittleEndian.bytes 2 n.toUInt16.toNat)
  rw [UInt16.toNat_ofNat_of_lt' small]

theorem u32 : YieldsAs u32 fun n => .plain (Encode.u32 n) := by
  refine (number 4).map ?_
  rintro n _ ⟨small, rfl⟩
  change _ = Outline.plain (LittleEndian.bytes 4 n.toUInt32.toNat)
  rw [UInt32.toNat_ofNat_of_lt' small]

theorem u64 : YieldsAs u64 fun n => .plain (Encode.u64 n) := by
  refine (number 8).map ?_
  rintro n _ ⟨small, rfl⟩
  change _ = Outline.plain (LittleEndian.bytes 8 n.toUInt64.toNat)
  rw [UInt64.toNat_ofNat_of_lt' small]

theorem i64 : YieldsAs i64 fun n => .plain (Encode.i64 n) := by
  refine u64.map ?_
  rintro n _ rfl
  change _ = Outline.plain (Encode.u64 n.toInt64.toUInt64)
  rw [UInt64.toUInt64_toInt64]

theorem bool : YieldsAs bool fun b => .plain (Encode.bool b) := by
  refine get fun start => u8.bind ?_
  rintro byte _ rfl
  split
  · exact pure rfl
  · exact pure rfl
  · exact throw _

theorem counted {next : UInt32 → Decoder β}
    (yields : ∀ count, Yields (next count) fun b p => G b (.length count.toNat ++ p)) :
    Yields (Decoder.u32 >>= next) G := by
  intro before after b run
  obtain ⟨count, between, run₁, run₂⟩ := runOn_bind_ok.1 run
  obtain ⟨_, rfl, takes₁⟩ := u32 _ _ _ run₁
  obtain ⟨p, form, takes₂⟩ := yields count _ _ _ run₂
  refine ⟨_, form, Takes.append ?_ takes₂⟩
  have bytes : (Outline.length count.toNat).bytes = Encode.u32 count := by
    change Encode.u32 count.toNat.toUInt32 = _
    congr 1
    exact UInt32.ofNat_toNat
  refine ⟨?_, ?_, takes₁.depth, ?_, ?_⟩
  · rw [bytes]
    exact takes₁.rest
  · rw [bytes]
    exact takes₁.offset
  · intro n member
    rw [List.mem_singleton.1 member]
    exact Nat.le_of_lt_succ count.toNat_lt
  · intro start member
    cases member

theorem bytes : YieldsAs bytes .byteString := by
  refine counted fun count => ?_
  intro before after bs run
  obtain ⟨_, ⟨length, rfl⟩, takes⟩ := take _ _ _ _ run
  refine ⟨.plain bs ++ .join [], ?_, ?_⟩
  · rw [← length]
    rfl
  · rwa [Outline.append_nil]

theorem text : YieldsAs text .text := by
  refine get fun start => bytes.bind ?_
  rintro bs _ rfl
  split
  · rename_i s read
    apply pure
    rw [Outline.append_nil, Outline.text, utf8_of_fromUTF8? read]
  · exact throw _

theorem tag (entity : String) (names : NameTable α) :
    YieldsAs (tag entity names) fun a => .name (names.name a) := by
  intro before after a run
  obtain ⟨t, between, run₁, run₂⟩ := runOn_bind_ok.1 run
  obtain ⟨_, rfl, takes⟩ := text _ _ _ run₁
  cases found : names.find? t with
  | none =>
    rw [found] at run₂
    cases run₂
  | some b =>
    rw [found] at run₂
    cases run₂
    refine ⟨_, rfl, ?_⟩
    change Takes _ (.name (names.name a)) _
    rw [names.find?_eq_some_iff.1 found]
    have bytes : (Outline.text t).bytes = Encode.text t := by
      change _ ++ (_ ++ []) = _
      rw [List.append_nil]
      rfl
    have := takes.plain
    rwa [bytes] at this

theorem times {decode : Decoder α} {outline : α → Outline} (yields : YieldsAs decode outline) (n : Nat) :
    Yields (times decode n) fun values o => values.length = n ∧ o = .join (values.map outline) := by
  induction n with
  | zero => exact pure ⟨rfl, rfl⟩
  | succ n ih =>
    refine yields.part fun a => ih.map ?_
    rintro values _ ⟨rfl, rfl⟩
    exact ⟨rfl, rfl⟩

theorem seq {decode : Decoder α} {outline : α → Outline} (yields : YieldsAs decode outline) :
    YieldsAs (seq decode) (.seq outline) := by
  refine counted fun count => ?_
  intro before after values run
  obtain ⟨_, ⟨length, rfl⟩, takes⟩ := yields.times _ _ _ _ run
  refine ⟨_, ?_, takes⟩
  rw [← length]
  rfl

theorem option {decode : Decoder α} {outline : α → Outline} (yields : YieldsAs decode outline) :
    YieldsAs (option decode) (.option outline) := by
  refine bool.part fun present => ?_
  cases present with
  | false =>
    apply pure
    rw [Outline.append_nil]
    rfl
  | true =>
    refine yields.part fun a => pure ?_
    rfl

theorem nested {decode : Decoder α} {outline : α → Outline}
    (yields : Yields decode fun a o => ∃ parts, outline a = .record parts ∧ o = .join parts) :
    YieldsAs (nested decode) outline := by
  rintro ⟨rest, offset, depth⟩ after a run
  by_cases room : depth < maxDepth
  · rw [runOn_nested room] at run
    obtain ⟨result, rfl⟩ := Prod.mk.inj run
    obtain ⟨_, ⟨parts, form, rfl⟩, takes⟩ := yields _ _ _ (Prod.ext result rfl)
    refine ⟨_, rfl, ?_⟩
    rw [form]
    refine ⟨takes.rest, takes.offset, ?_, takes.short, ?_⟩
    · exact congrArg (· - 1) takes.depth
    · intro start member
      rcases List.mem_cons.1 member with rfl | member
      · exact room
      · exact takes.level start member
  · rw [runOn_nested_full (Nat.not_lt.1 room)] at run
    cases run

end Yields

end MidIR
