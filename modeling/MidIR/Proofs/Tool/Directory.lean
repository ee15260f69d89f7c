import MidIR.Tool.Directory

namespace MidIR.Tool.Directory

variable {directory after : Directory} {place file : List String} {path : String} {bytes : List UInt8}

theorem contents?_put : (directory.put place bytes).contents? place = some bytes :=
  List.lookup_cons_self

theorem contents?_put_of_ne (different : file ≠ place) :
    (directory.put place bytes).contents? file = directory.contents? file := by
  have beside : (file == place) = false := beq_false_of_ne different
  rw [put, contents?, List.lookup_cons, beside]
  change List.lookup file (directory.files.filter _) = List.lookup file directory.files
  induction directory.files with
  | nil => rfl
  | cons head files ih =>
    obtain ⟨name, contents⟩ := head
    by_cases same : name = place
    · subst same
      rw [List.filter_cons_of_neg (by simp), List.lookup_cons, beside]
      exact ih
    · rw [List.filter_cons_of_pos (by simpa using same), List.lookup_cons, List.lookup_cons, ih]

theorem isDirectory_put (held : directory.isDirectory file) :
    (directory.put place bytes).isDirectory file := by
  rw [isDirectory, Bool.or_eq_true, List.any_eq_true] at held ⊢
  refine held.imp_right ?_
  rintro ⟨⟨name, contents⟩, member, below⟩
  by_cases same : name = place
  · subst same
    exact ⟨(name, bytes), List.mem_cons_self .., below⟩
  · refine ⟨(name, contents), List.mem_cons_of_mem _ (List.mem_filter.2 ⟨member, ?_⟩), below⟩
    exact bne_iff_ne.2 same

theorem follow_cons {start target names : List String} {name : String} :
    directory.follow start (name :: names) = .ok target ↔
      directory.contents? start = none ∧ directory.isDirectory start ∧
        directory.follow (enter start name) names = .ok target := by
  rw [follow]
  cases directory.contents? start with
  | some bytes => simp
  | none => cases directory.isDirectory start <;> simp

theorem follow_put (free : ¬ directory.isDirectory place) {start target : List String}
    {names : List String} (found : directory.follow start names = .ok target) :
    (directory.put place bytes).follow start names = .ok target := by
  -- Each place on the way is a directory, which `place` is not.
  induction names generalizing start with
  | nil => exact found
  | cons name names ih =>
    obtain ⟨noFile, held, found⟩ := follow_cons.1 found
    have different : start ≠ place := by
      rintro rfl
      exact free held
    refine follow_cons.2 ⟨?_, isDirectory_put held, ih found⟩
    rw [contents?_put_of_ne different, noFile]

theorem locate_put (free : ¬ directory.isDirectory place) {target : List String}
    (found : directory.locate path = .ok target) :
    (directory.put place bytes).locate path = .ok target := by
  unfold locate at found ⊢
  split at found
  · cases found
  · cases found
  · exact follow_put free found

theorem trimmed_eq (open_ : path.toList.getLast? ≠ some '/') : trimmed path = path := by
  have last : path.toList.reverse.dropWhile (· = '/') = path.toList.reverse := by
    rw [← List.head?_reverse] at open_
    cases reversed : path.toList.reverse with
    | nil => rfl
    | cons c cs =>
      rw [reversed] at open_
      exact List.dropWhile_cons_of_neg (by simpa using open_)
  rw [trimmed, last, List.reverse_reverse, String.ofList_toList]

theorem write_eq_ok (written : directory.write path bytes = .ok after) :
    ∃ place, directory.locate path = .ok place ∧ ¬ directory.isDirectory place ∧
      after = directory.put place bytes := by
  unfold write at written
  split at written
  · cases written
  · rename_i place found
    split at written
    · cases written
    · rename_i refused
      rw [Bool.or_eq_true, not_or, decide_eq_true_iff] at refused
      rw [trimmed_eq refused.2] at found
      cases written
      exact ⟨place, found, refused.1, rfl⟩

theorem read_write (written : directory.write path bytes = .ok after) : after.read path = .ok bytes := by
  obtain ⟨place, found, free, rfl⟩ := write_eq_ok written
  rw [read, locate_put free found]
  simp only [contents?_put]

end MidIR.Tool.Directory
