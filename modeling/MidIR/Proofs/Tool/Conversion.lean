import MidIR.Proofs.Binary.RoundTrip
import MidIR.Proofs.Json.RoundTrip
import MidIR.Proofs.Tool.Directory
import MidIR.Tool.Run

namespace MidIR.Tool

def Directory.body (directory : Directory) (path : String) (asked : Option Format) : Except Failure Body :=
  (load path asked (directory.read path)).result

/-- A body is written to a file in a format, which leaves a directory behind. -/
def Directory.Saves (directory : Directory) (path : String) (format : Format) (body : Body)
    (after : Directory) : Prop :=
  ∃ bytes, store format body = .ok bytes ∧ directory.write path bytes = .ok after

def Command.runIn (directory : Directory) (command : Command) : Output × Directory :=
  (command.run directory.read).perform directory

/-- What a format stores of a body can be loaded again. -/
def ReadsBack (format : Format) (body : Body) : Prop :=
  format = .json → (toJson body).depth ≤ Json.maxLevels

instance (format : Format) (body : Body) : Decidable (ReadsBack format body) :=
  inferInstanceAs (Decidable (format = .json → (toJson body).depth ≤ Json.maxLevels))

theorem readsBack_binary (body : Body) : ReadsBack .binary body := fun json => by cases json

theorem readsBack_json {body : Body} : ReadsBack .json body ↔ (toJson body).depth ≤ Json.maxLevels :=
  ⟨fun back => back rfl, fun room _ => room⟩

variable {format : Format} {body : Body} {bytes : List UInt8} {path : String} {asked : Option Format}
  {contents : Except FileError (List UInt8)} {notes : List Note}

/-! ## Parsing -/

theorem parse_binary_eq_ok (parsed : parse .binary bytes = .ok (body, notes)) :
    Binary.file body = .ok bytes ∧ nest body ≤ maxDepth := by
  unfold parse at parsed
  simp only at parsed
  split at parsed
  · rename_i found
    cases parsed
    exact Binary.decodeBody_eq_ok_iff.1 found
  · cases parsed

theorem parse_json_eq_ok (parsed : parse .json bytes = .ok (body, notes)) :
    ReadsBack .json body ∧ nest body ≤ maxDepth := by
  unfold parse at parsed
  simp only at parsed
  split at parsed
  · cases parsed
  · split at parsed
    · rename_i found
      cases parsed
      have nested := Json.nest_le_of_ofText found
      exact ⟨fun _ => Json.depth_le_of_ofText found, Nat.le_trans nested (by decide)⟩
    · cases parsed

theorem parse_binary_written (nested : nest body ≤ maxDepth) (written : Binary.file body = .ok bytes) :
    parse .binary bytes = .ok (body, [.decodedBody bytes.length body.blocks.length]) := by
  unfold parse
  simp only [Binary.decodeBody_eq_ok_iff.2 ⟨written, nested⟩]

theorem parse_json_written (body : Body) : parse .json (utf8 (body.toJsonText ++ "\n")) =
    if ReadsBack .json body then .ok (body, []) else .error (.inr (.json .malformed)) := by
  have newline : ∀ c ∈ "\n".toList, Json.isBlank c := by
    intro c member
    have same : c = '\n' := List.mem_singleton.1 member
    rw [same]
    rfl
  have given : Body.ofJsonText (body.toJsonText ++ "\n") =
      if (toJson body).depth ≤ Json.maxLevels then .ok body else .error .malformed :=
    Json.ofText_written body newline
  unfold parse
  simp only [fromUTF8?_utf8, given]
  by_cases back : ReadsBack .json body
  · simp only [if_pos back, if_pos (readsBack_json.1 back)]
  · simp only [if_neg back, if_neg fun room => back (readsBack_json.2 room)]

/-! ## Loading and storing -/

theorem load_eq_ok (loaded : (load path asked contents).result = .ok body) :
    ∃ bytes notes, contents = .ok bytes ∧ parse (Format.resolve asked path) bytes = .ok (body, notes) := by
  unfold load at loaded
  simp only at loaded
  split at loaded
  · cases loaded
  · rename_i bytes
    split at loaded
    · rename_i found notes parsed
      cases loaded
      exact ⟨bytes, notes, rfl, parsed⟩
    · cases loaded
    · cases loaded

theorem nest_le_of_load (loaded : (load path asked contents).result = .ok body) :
    nest body ≤ maxDepth := by
  obtain ⟨bytes, notes, -, parsed⟩ := load_eq_ok loaded
  cases resolved : Format.resolve asked path with
  | binary =>
    rw [resolved] at parsed
    exact (parse_binary_eq_ok parsed).2
  | json =>
    rw [resolved] at parsed
    exact (parse_json_eq_ok parsed).2

theorem readsBack_of_load (json : Format.resolve asked path = .json)
    (loaded : (load path asked contents).result = .ok body) (format : Format) : ReadsBack format body := by
  obtain ⟨bytes, notes, -, parsed⟩ := load_eq_ok loaded
  rw [json] at parsed
  exact fun _ => readsBack_json.1 (parse_json_eq_ok parsed).1

theorem load_stored (resolved : Format.resolve asked path = format) (nested : nest body ≤ maxDepth)
    (stored : store format body = .ok bytes) : (load path asked (.ok bytes)).result =
      if ReadsBack format body then .ok body else .error (.unloadable path (.json .malformed)) := by
  unfold load
  cases format with
  | binary => simp only [resolved, parse_binary_written nested stored, if_pos (readsBack_binary body)]
  | json =>
    cases stored
    simp only [resolved, parse_json_written]
    by_cases back : ReadsBack .json body
    · simp only [if_pos back]
    · simp only [if_neg back]

/-! ## Running commands -/

variable {directory between after : Directory} {input output : String} {source target : Option Format}
  {failure : Failure}

theorem load_eq {result : Except Failure Body} (found : directory.body path asked = result) :
    ∃ notes, load path asked (directory.read path) = ⟨notes, result⟩ := by
  subst found
  exact ⟨_, rfl⟩

theorem print_loaded (loaded : directory.body path asked = .ok body) :
    ((Command.print path asked).runIn directory).1.stdout = body.listing := by
  obtain ⟨notes, loads⟩ := load_eq loaded
  simp only [Command.runIn, Command.run, Action.perform, printListing, loads]

theorem convert_failed (failed : directory.body input source = .error failure) :
    ((Command.convert input output source target).runIn directory).1.status = 1 ∧
      ((Command.convert input output source target).runIn directory).2 = directory := by
  obtain ⟨notes, loads⟩ := load_eq failed
  simp only [Command.runIn, Command.run, convertFile, loads, Action.perform, Tool.failed, and_self]

theorem convert_saved (loaded : directory.body input source = .ok body)
    (saved : directory.Saves output (Format.resolve target output) body after) :
    ∃ notes, (Command.convert input output source target).runIn directory =
      ({ status := 0, notes }, after) := by
  obtain ⟨bytes, stored, written⟩ := saved
  obtain ⟨notes, loads⟩ := load_eq loaded
  simp only [Command.runIn, Command.run, convertFile, loads, stored, Action.perform, written]
  exact ⟨_, rfl⟩

theorem file_of_body (binary : Format.resolve asked path = .binary) (read : directory.read path = .ok bytes)
    (loaded : directory.body path asked = .ok body) : Binary.file body = .ok bytes := by
  obtain ⟨found, notes, same, parsed⟩ := load_eq_ok loaded
  rw [binary] at parsed
  rw [Except.ok.inj (read.symm.trans same)]
  exact (parse_binary_eq_ok parsed).1

theorem body_saved (nested : nest body ≤ maxDepth) (resolved : Format.resolve asked path = format)
    (saved : directory.Saves path format body after) : after.body path asked =
      if ReadsBack format body then .ok body else .error (.unloadable path (.json .malformed)) := by
  obtain ⟨bytes, stored, written⟩ := saved
  rw [Directory.body, Directory.read_write written]
  exact load_stored resolved nested stored

/-- A conversion keeps the body of a file, up to the limit of JSON text. -/
theorem convert_keeps_body (directory : Directory) (input : String) (source : Option Format) :
    (∀ body, directory.body input source = .ok body →
      (∀ (output : String) (target : Option Format) (after : Directory),
        directory.Saves output (Format.resolve target output) body after →
          (∃ notes, (Command.convert input output source target).runIn directory =
            ({ status := 0, notes }, after)) ∧
          after.body output (some (Format.resolve target output)) =
            (if ReadsBack (Format.resolve target output) body then .ok body
              else .error (.unloadable output (.json .malformed))) ∧
          (ReadsBack (Format.resolve target output) body →
            ((Command.print output (some (Format.resolve target output))).runIn after).1.stdout =
              ((Command.print input source).runIn directory).1.stdout)) ∧
      (Format.resolve source input = .json → ∀ format, ReadsBack format body) ∧
      (∀ (middle last : String) (target back final : Option Format) (between after : Directory)
          (bytes : List UInt8),
        Format.resolve source input = .binary → Format.resolve target middle = .json →
        Format.resolve back middle = .json → Format.resolve final last = .binary →
        directory.read input = .ok bytes → directory.Saves middle .json body between →
        between.Saves last .binary body after →
          ((Command.convert input middle source target).runIn directory).2 = between ∧
          (ReadsBack .json body →
            ((Command.convert middle last back final).runIn between).2 = after ∧
            after.read last = .ok bytes) ∧
          (¬ ReadsBack .json body →
            ((Command.convert middle last back final).runIn between).1.status = 1 ∧
            ((Command.convert middle last back final).runIn between).2 = between))) ∧
    ∀ failure, directory.body input source = .error failure →
      ∀ (output : String) (target : Option Format),
        ((Command.convert input output source target).runIn directory).1.status = 1 ∧
        ((Command.convert input output source target).runIn directory).2 = directory := by
  refine ⟨fun body loaded => ⟨?_, ?_, ?_⟩, fun failure failed output target => convert_failed failed⟩
  · intro output target after saved
    have asked : Format.resolve (some (Format.resolve target output)) output = Format.resolve target output := rfl
    have read := body_saved (nest_le_of_load loaded) asked saved
    refine ⟨convert_saved loaded saved, read, fun back => ?_⟩
    rw [if_pos back] at read
    rw [print_loaded read, print_loaded loaded]
  · intro json format
    exact readsBack_of_load json loaded format
  · intro middle last target back final between after bytes binary json jsonBack binaryBack read saved savedBack
    obtain ⟨notes, ran⟩ := convert_saved loaded (json ▸ saved)
    have reloaded := body_saved (nest_le_of_load loaded) jsonBack saved
    refine ⟨by rw [ran], fun room => ?_, fun deep => ?_⟩
    · rw [if_pos room] at reloaded
      obtain ⟨notes, ranBack⟩ := convert_saved reloaded (binaryBack ▸ savedBack)
      refine ⟨by rw [ranBack], ?_⟩
      obtain ⟨copy, stored, written⟩ := savedBack
      have same : bytes = copy := Except.ok.inj ((file_of_body binary read loaded).symm.trans stored)
      rw [same]
      exact Directory.read_write written
    · rw [if_neg deep] at reloaded
      exact convert_failed reloaded

/-! ## A body at the limit -/

def throughPointers : Nat → Place
  | 0 => .var 0
  | pointers + 1 => .deref (throughPointers pointers)

def assigning (pointers : Nat) : Body where
  args := []
  result := .tuple []
  vars := [.scalar .u8]
  blocks := [⟨[⟨throughPointers pointers, .constant (.uint 0)⟩], .ret⟩]

def original (pointers : Nat) : Directory := ⟨[(["body.mir"], Binary.encodeBody (assigning pointers))]⟩

def converted (pointers : Nat) : Directory :=
  (original pointers).put ["body.json"] (utf8 ((assigning pointers).toJsonText ++ "\n"))

def restored (pointers : Nat) : Directory :=
  (converted pointers).put ["copy.mir"] (Binary.encodeBody (assigning pointers))

theorem store_assigning {pointers : Nat} (short : tooLong? (assigning pointers) = none) :
    store .binary (assigning pointers) = .ok (Binary.encodeBody (assigning pointers)) :=
  Binary.file_eq_ok.2 ⟨Binary.short_of_tooLong?_eq_none short, rfl⟩

theorem body_original {pointers : Nat} (short : tooLong? (assigning pointers) = none)
    (nested : nest (assigning pointers) ≤ maxDepth) :
    (original pointers).body "body.mir" none = .ok (assigning pointers) := by
  have saved : Directory.Saves ⟨[]⟩ "body.mir" .binary (assigning pointers) (original pointers) :=
    ⟨_, store_assigning short, rfl⟩
  rw [body_saved nested (by decide) saved, if_pos (readsBack_binary _)]

theorem saves_converted (pointers : Nat) :
    (original pointers).Saves "body.json" .json (assigning pointers) (converted pointers) := ⟨_, rfl, rfl⟩

theorem saves_restored {pointers : Nat} (short : tooLong? (assigning pointers) = none) :
    (converted pointers).Saves "copy.mir" .binary (assigning pointers) (restored pointers) :=
  ⟨_, store_assigning short, rfl⟩

/-- A conversion to JSON text and back restores the file of a body with 60 pointers in a row, while
the JSON text of one with 61 is not loaded and not converted. -/
theorem convert_keeps_body_atLimit :
    (restored 60).read "copy.mir" = .ok (Binary.encodeBody (assigning 60)) ∧
    ReadsBack .binary (assigning 60) ∧
    (converted 61).body "body.json" (some .json) =
      .error (.unloadable "body.json" (.json .malformed)) ∧
    ((Command.convert "body.json" "copy.mir" (some .json) none).runIn (converted 61)).2 = converted 61 := by
  have short : tooLong? (assigning 60) = none := by decide +kernel
  have shortDeep : tooLong? (assigning 61) = none := by decide +kernel
  have shallow : ReadsBack .json (assigning 60) := by decide +kernel
  have deep : ¬ ReadsBack .json (assigning 61) := by decide +kernel
  have conversion := (convert_keeps_body (original 60) "body.mir" none).1 _
    (body_original short (by decide +kernel))
  have conversionDeep := (convert_keeps_body (original 61) "body.mir" none).1 _
    (body_original shortDeep (by decide +kernel))
  have reloaded := (conversion.1 "body.json" (some .json) _ (saves_converted 60)).2.1.trans (if_pos shallow)
  have refused := (conversionDeep.1 "body.json" (some .json) _ (saves_converted 61)).2.1.trans (if_neg deep)
  have restores := conversion.2.2 "body.json" "copy.mir" none none none _ _ _ (by decide) (by decide)
    (by decide) (by decide) rfl (saves_converted 60) (saves_restored short)
  refine ⟨(restores.2.1 shallow).2, ?_, refused, ?_⟩
  · exact ((convert_keeps_body (converted 60) "body.json" (some .json)).1 _ reloaded).2.1 rfl .binary
  · exact ((convert_keeps_body (converted 61) "body.json" (some .json)).2 _ refused "copy.mir" none).2

end MidIR.Tool
