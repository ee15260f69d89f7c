import Mathlib
import MidIR.Proofs.Binary.RoundTrip
import MidIR.Proofs.Tool.Formats
import MidIR.Tool.Run

namespace MidIR.Tool

/-- What a check reports of one file. -/
inductive Entry
  | passed (file : String) (blocks statements : Nat)
  | failed (file message : String)

namespace Entry

def isPassed : Entry → Bool
  | .passed .. => true
  | .failed .. => false

def toJson : Entry → Json
  | .passed file blocks statements => .object [("blocks", .number blocks), ("file", .text file),
      ("ok", .bool true), ("statements", .number statements)]
  | .failed file message =>
    .object [("error", .text message), ("file", .text file), ("ok", .bool false)]

def okLine : Entry → String
  | .passed file blocks statements =>
    "ok: " ++ file ++ " (" ++ blocks.repr ++ " blocks, " ++ statements.repr ++ " statements)\n"
  | .failed .. => ""

def errorLine : Entry → String
  | .passed .. => ""
  | .failed file message => "error: " ++ file ++ ": " ++ message ++ "\n"

end Entry

/-- The contents of a file that stores this body. -/
def Stores : Format → List UInt8 → Body → Prop
  | .binary, bytes, body => Binary.file body = .ok bytes ∧ nest body ≤ maxDepth
  | .json, bytes, body => ∃ text, utf8 text = bytes ∧ Body.ofJsonText text = .ok body

/-- Why a file with such contents does not pass. -/
inductive Fails (path : String) : Format → Except FileError (List UInt8) → Failure → Prop
  | unreadable {format : Format} (error : FileError) :
      Fails path format (.error error) (.unreadable path error)
  | notText {bytes : List UInt8} (noText : ∀ text, utf8 text ≠ bytes) :
      Fails path .json (.ok bytes) (.unreadable path .notText)
  | notRecords {bytes : List UInt8} {error : DecodeError} (refused : Binary.decodeBody bytes = .error error) :
      Fails path .binary (.ok bytes) (.unloadable path (.binary error))
  | notNode {text : String} {fault : Json.Fault} (refused : Body.ofJsonText text = .error fault) :
      Fails path .json (.ok (utf8 text)) (.unloadable path (.json fault))
  | defective {format : Format} {bytes : List UInt8} {body : Body} {defect : Defect}
      (stores : Stores format bytes body) (invalid : body.validate = .error defect) :
      Fails path format (.ok bytes) (.defective defect)

variable {format : Format} {bytes : List UInt8} {body : Body} {path : String} {asked : Option Format}
  {contents : Except FileError (List UInt8)} {failure : Failure} {summary : Body.Summary}

/-! ## What is loaded -/

theorem load_of_stores (path : String) (stores : Stores format bytes body) :
    (load path (some format) (.ok bytes)).result = .ok body := by
  cases format with
  | binary =>
    have decoded := Binary.decodeBody_eq_ok_iff.2 stores
    simp [load, Format.resolve, parse, decoded]
  | json =>
    obtain ⟨text, rfl, read⟩ := stores
    simp [load, Format.resolve, parse, fromUTF8?_utf8, read]

theorem stores_or_fails (path : String) (format : Format) (contents : Except FileError (List UInt8)) :
    (∃ bytes body, contents = .ok bytes ∧ Stores format bytes body) ∨
      ∃ failure, Fails path format contents failure := by
  cases contents with
  | error error => exact .inr ⟨_, .unreadable error⟩
  | ok bytes =>
    cases format with
    | binary =>
      cases decoded : Binary.decodeBody bytes with
      | ok body => exact .inl ⟨bytes, body, rfl, Binary.decodeBody_eq_ok_iff.1 decoded⟩
      | error error => exact .inr ⟨_, .notRecords decoded⟩
    | json =>
      by_cases isText : ∃ text, utf8 text = bytes
      · obtain ⟨text, rfl⟩ := isText
        cases read : Body.ofJsonText text with
        | ok body => exact .inl ⟨_, body, rfl, text, rfl, read⟩
        | error fault => exact .inr ⟨_, .notNode read⟩
      · exact .inr ⟨_, .notText (not_exists.1 isText)⟩

/-! ## Verdicts -/

def verdictOn (path : String) (format : Format) (contents : Except FileError (List UInt8)) : Verdict :=
  .ofFile (fun _ => contents) (some format) path

theorem result_of_stores (stores : Stores format bytes body) :
    (verdictOn path format (.ok bytes)).result = body.validate.mapError .defective := by
  have loaded := load_of_stores path stores
  unfold verdictOn Verdict.ofFile
  split
  · rename_i failed
    rw [failed] at loaded
    cases loaded
  · rename_i found
    rw [found] at loaded
    cases loaded
    cases body.validate <;> rfl

theorem file_verdictOn : (verdictOn path format contents).file = path := by
  unfold verdictOn Verdict.ofFile
  split
  · rfl
  · split <;> rfl

theorem Fails.result (fails : Fails path format contents failure) :
    (verdictOn path format contents).result = .error failure := by
  cases fails with
  | unreadable error => rfl
  | notText noText =>
    have read : String.fromUTF8? ⟨_⟩ = none :=
      Option.eq_none_iff_forall_ne_some.2 fun text read => noText text (utf8_of_fromUTF8? read)
    simp [verdictOn, Verdict.ofFile, load, Format.resolve, parse, read]
  | notRecords refused => simp [verdictOn, Verdict.ofFile, load, Format.resolve, parse, refused]
  | notNode refused =>
    simp [verdictOn, Verdict.ofFile, load, Format.resolve, parse, fromUTF8?_utf8, refused]
  | defective stores invalid => rw [result_of_stores stores, invalid]; rfl

theorem result_eq_ok : (verdictOn path format contents).result = .ok summary ↔
    ∃ bytes body, contents = .ok bytes ∧ Stores format bytes body ∧ body.validate = .ok summary := by
  constructor
  · intro passed
    obtain ⟨bytes, body, rfl, stores⟩ | ⟨failure, fails⟩ := stores_or_fails path format contents
    · rw [result_of_stores stores] at passed
      cases valid : body.validate <;> rw [valid] at passed <;> cases passed
      exact ⟨bytes, body, rfl, stores, valid⟩
    · rw [fails.result] at passed
      cases passed
  · rintro ⟨bytes, body, rfl, stores, valid⟩
    rw [result_of_stores stores, valid]
    rfl

theorem result_eq_error : (verdictOn path format contents).result = .error failure ↔
    Fails path format contents failure := by
  refine ⟨fun failed => ?_, Fails.result⟩
  obtain ⟨bytes, body, rfl, stores⟩ | ⟨other, fails⟩ := stores_or_fails path format contents
  · rw [result_of_stores stores] at failed
    cases invalid : body.validate <;> rw [invalid] at failed <;> cases failed
    exact .defective stores invalid
  · rw [fails.result] at failed
    cases failed
    exact fails

/-! ## Entries -/

def Verdict.entry (verdict : Verdict) : Entry :=
  match verdict.result with
  | .ok summary => .passed verdict.file summary.blocks summary.statements
  | .error failure => .failed verdict.file failure.line

section Entries

variable (verdict : Verdict)

theorem isPassed_entry : verdict.entry.isPassed = verdict.passed := by
  unfold Verdict.entry Verdict.passed
  cases verdict.result <;> rfl

theorem toJson_entry : verdict.entry.toJson = verdict.toJson := by
  unfold Verdict.entry Verdict.toJson
  cases verdict.result <;> rfl

theorem okLine_entry : verdict.entry.okLine = verdict.okLine := by
  unfold Verdict.entry Verdict.okLine
  cases verdict.result <;> rfl

theorem errorLine_entry : verdict.entry.errorLine = verdict.errorLine := by
  unfold Verdict.entry Verdict.errorLine
  cases verdict.result <;> rfl

end Entries

theorem validate_eq_counts (valid : body.validate = .ok summary) :
    summary.blocks = body.blocks.length ∧
      summary.statements = (body.blocks.map fun block => block.statements.length).sum := by
  unfold Body.validate at valid
  split at valid <;> cases valid
  exact ⟨rfl, List.length_flatMap⟩

theorem entry_eq_passed {file : String} {blocks statements : Nat} :
    (verdictOn path format contents).entry = .passed file blocks statements ↔
      file = path ∧ ∃ bytes body, contents = .ok bytes ∧ Stores format bytes body ∧
        (∃ summary, body.validate = .ok summary) ∧ blocks = body.blocks.length ∧
        statements = (body.blocks.map fun block => block.statements.length).sum := by
  rw [Verdict.entry, file_verdictOn]
  constructor
  · intro entry
    cases judged : (verdictOn path format contents).result <;> rw [judged] at entry <;> cases entry
    obtain ⟨bytes, body, found, stores, valid⟩ := result_eq_ok.1 judged
    exact ⟨rfl, bytes, body, found, stores, ⟨_, valid⟩, validate_eq_counts valid⟩
  · rintro ⟨rfl, bytes, body, found, stores, ⟨summary, valid⟩, rfl, rfl⟩
    obtain ⟨blocks, statements⟩ := validate_eq_counts valid
    rw [result_eq_ok.2 ⟨bytes, body, found, stores, valid⟩, ← blocks, ← statements]

theorem entry_eq_failed {file message : String} :
    (verdictOn path format contents).entry = .failed file message ↔
      file = path ∧ ∃ failure, Fails path format contents failure ∧ message = failure.line := by
  rw [Verdict.entry, file_verdictOn]
  constructor
  · intro entry
    cases judged : (verdictOn path format contents).result <;> rw [judged] at entry <;> cases entry
    exact ⟨rfl, _, result_eq_error.1 judged, rfl⟩
  · rintro ⟨rfl, failure, fails, rfl⟩
    rw [fails.result]

/-- A check reports of each file, in the order of its arguments, what one judge says of the name of the
file, its format and its contents: that it stores a valid body, with the numbers of blocks and statements
of that body, or why it does not. The check succeeds just when all files pass, and tells the same with lines
as with JSON text. -/
theorem check_judges_each_file :
    ∃ judge : String → Format → Except FileError (List UInt8) → Entry,
      (∀ path format contents file blocks statements,
        judge path format contents = .passed file blocks statements ↔
          file = path ∧ ∃ bytes body, contents = .ok bytes ∧ Stores format bytes body ∧
            (∃ summary, body.validate = .ok summary) ∧ blocks = body.blocks.length ∧
            statements = (body.blocks.map fun block => block.statements.length).sum) ∧
      (∀ path format contents file message,
        judge path format contents = .failed file message ↔
          file = path ∧ ∃ failure, Fails path format contents failure ∧ message = failure.line) ∧
      ∀ (files : Files) (asked : Option Format), ∃ resolved : String → Format,
        (∀ path, Resolves asked path (resolved path)) ∧
        let report (paths : List String) : List Entry :=
          paths.map fun path => judge path (resolved path) (files path)
        (∀ paths others, report (paths ++ others) = report paths ++ report others) ∧
        ∀ paths asJson, ∃ output, (Command.check paths asked asJson).run files = .done output ∧
          output.status = (if (report paths).all Entry.isPassed then 0 else 1) ∧
          output.stdout = (if asJson then (Json.array ((report paths).map Entry.toJson)).pretty ++ "\n"
            else String.join ((report paths).map Entry.okLine)) ∧
          output.stderr = (if asJson then "" else String.join ((report paths).map Entry.errorLine)) := by
  refine ⟨fun path format contents => (verdictOn path format contents).entry,
    fun _ _ _ _ _ _ => entry_eq_passed, fun _ _ _ _ _ => entry_eq_failed, fun files asked =>
    ⟨Format.resolve asked, fun path => resolves_iff.2 rfl, ?_⟩⟩
  intro report
  have reported (paths : List String) :
      report paths = (paths.map (Verdict.ofFile files asked)).map Verdict.entry := by
    rw [List.map_map]
    rfl
  refine ⟨fun paths others => List.map_append, fun paths asJson => ⟨_, rfl, ?_⟩⟩
  rw [reported]
  cases asJson <;>
    simp [checkFiles, Function.comp_def, isPassed_entry, toJson_entry, okLine_entry, errorLine_entry]

/-- Two blocks with three statements. -/
def stored : Body where
  args := [.scalar .u8]
  result := .unit
  vars := [.scalar .u8]
  blocks := [⟨[⟨.var 0, .use (.place (.arg 0))⟩, ⟨.var 0, .constant (.uint 7)⟩], .goto ⟨1⟩⟩,
    ⟨[⟨.returnSlot, .tuple []⟩], .ret⟩]

/-- A file that stores a body, one that is named as JSON text but is none, and no others. -/
def shelf (path : String) : Except FileError (List UInt8) :=
  if path = "in/stored.mir" then .ok (Binary.encodeBody stored)
  else if path = "bytes.JSON/" then .ok [255]
  else .error .notFound

theorem check_judges_each_file_shelf :
    ∃ output, (Command.check ["in/stored.mir", "bytes.JSON/", "none", "in/stored.mir"] none false).run
        shelf = .done output ∧ output.status = 1 ∧
      output.stdout =
        "ok: in/stored.mir (2 blocks, 3 statements)\nok: in/stored.mir (2 blocks, 3 statements)\n" ∧
      output.stderr =
        "error: bytes.JSON/: Failed to read bytes.JSON/: stream did not contain valid UTF-8\n" ++
        "error: none: Failed to read none: No such file or directory (os error 2)\n" := by
  obtain ⟨judge, passes, fails, reports⟩ := check_judges_each_file
  obtain ⟨resolved, resolves, -, told⟩ := reports shelf none
  have binary : resolved "in/stored.mir" = .binary :=
    (resolves_iff.1 (resolves _)).symm.trans (by decide +kernel)
  have json : resolved "bytes.JSON/" = .json :=
    (resolves_iff.1 (resolves _)).symm.trans (by decide +kernel)
  have read : Binary.decodeBody (Binary.encodeBody stored) = .ok stored := by decide +kernel
  have valid : stored.validate = .ok ⟨2, 3, []⟩ := by cbv
  have passed := (passes "in/stored.mir" .binary (.ok (Binary.encodeBody stored)) _ 2 3).2
    ⟨rfl, _, stored, rfl, Binary.decodeBody_eq_ok_iff.1 read, ⟨_, valid⟩, rfl, rfl⟩
  have noText (text : String) : utf8 text ≠ [255] := by
    intro written
    have read := fromUTF8?_utf8 text
    rw [written, show String.fromUTF8? ⟨[255].toArray⟩ = none by cbv] at read
    cases read
  have refused := (fails "bytes.JSON/" .json (.ok [255]) _ _).2 ⟨rfl, _, .notText noText, rfl⟩
  have missing (format : Format) := (fails "none" format (.error .notFound) _ _).2
    ⟨rfl, _, .unreadable .notFound, rfl⟩
  have first : shelf "in/stored.mir" = .ok (Binary.encodeBody stored) := if_pos rfl
  have second : shelf "bytes.JSON/" = .ok [255] := (if_neg (by decide)).trans (if_pos rfl)
  have third : shelf "none" = .error .notFound := (if_neg (by decide)).trans (if_neg (by decide))
  obtain ⟨output, ran, status, stdout, stderr⟩ :=
    told ["in/stored.mir", "bytes.JSON/", "none", "in/stored.mir"] false
  simp only [List.map_cons, List.map_nil, first, second, third, binary, json, passed, refused,
    missing] at status stdout stderr
  exact ⟨output, ran, status.trans (by decide), stdout.trans (by decide +kernel),
    stderr.trans (by decide +kernel)⟩

end MidIR.Tool
