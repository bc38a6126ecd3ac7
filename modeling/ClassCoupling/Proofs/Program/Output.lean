import ClassCoupling.Proofs.FileTree.Path
import ClassCoupling.Proofs.FileTree.Walk
import ClassCoupling.Proofs.Program.Cycles

/-!
# Writing a report

Three checks look at the output path, each in its own way: at what its parent leads to, at what it
names itself, and at where it leads a writer. Together they let exactly those paths through that end
in a name in a directory that is there, for which there is nothing or a file, and that may be written
there. Then only that file changes. Nothing is opened before the last check has passed, so a report
that is refused leaves no trace.
-/

namespace ClassCoupling

namespace FileTree

variable {t : FileTree} {path content : String} {place : Location}

/-- What is changed by a file put at a place: the file that is there, or the directory of a new one. -/
def changedAt (t : FileTree) (place : Location) : Location :=
  if (t.at? place).isSome then place else place.dropLast

/-- A path ends in a name in a directory that is there, for which there is nothing or a file, and
that may be written. -/
structure Writable (t : FileTree) (path : String) (place : Location) : Prop where
  designated : ∃ parts, partsOf path = .ok parts ∧
    t.Designates maxLinks (startOf t.workingDirectory path) parts place
  replaceable : t.Replaceable place
  allowed : t.permits .write (t.changedAt place) = true

/-! ## What the checks let through -/

/-- A text in front of a path leads to a directory, if the parts that it shares with the path do. -/
theorem isDirectory_of_agree {parent more : String} {front : List String} {directory : Location}
    (taken : partsOf (parent ++ more) = .ok (Text.split '/' (parent ++ more)))
    (some_text : parent ≠ "") (agree : Path.AgreeUpToTrivial front (Text.split '/' parent))
    (leads : t.Leads true maxLinks (startOf t.workingDirectory (parent ++ more)) front directory)
    (inside : t.isDirectoryAt directory = true) : t.isDirectory parent = true := by
  obtain ⟨-, no_nul, short, -⟩ := partsOf_eq_ok_iff.mp taken
  have parts : partsOf parent = .ok (Text.split '/' parent) := by
    refine partsOf_eq_ok_iff.mpr ⟨some_text, ?_, ?_, rfl⟩
    · rw [String.toList_append, List.mem_append, not_or] at no_nul
      exact no_nul.1
    · rw [String.length_append] at short
      omega
  obtain ⟨core, idle, slashes, rfl, cut, nothing, empty⟩ := agree
  have arrives := leads.exchange_trivial inside nothing empty
  rw [startOf, Path.isAbsolute_append some_text, ← cut] at arrives
  have found : t.find true parent = .ok .directory :=
    find_eq_ok_iff.mpr ⟨directory, resolve_eq_ok_iff.mpr ⟨_, parts, arrives⟩,
      isDirectoryAt_iff.mp inside⟩
  rw [isDirectory, found]

theorem Writable.requireParent_eq (writable : t.Writable path place) :
    t.requireParent path = .ok () := by
  obtain ⟨parts, taken, designates⟩ := writable.designated
  obtain ⟨front, name, leads, looked, named⟩ := designates
  obtain ⟨-, -, -, ends⟩ := partsOf_eq_ok_iff.mp taken
  obtain ⟨parent, found, ⟨more, whole⟩, agree⟩ := Path.exists_parent ends.symm named.not_trivial
  rw [requireParent, found]
  by_cases none : parent = ""
  · simp [none]
  · rw [ends, whole] at taken
    rw [whole] at leads
    simp [isDirectory_of_agree taken none (agree none) leads looked.inside]

theorem requireNoOutputLink_eq_ok_iff :
    t.requireNoOutputLink path = .ok () ↔ ∀ target, t.find false path ≠ .ok (.link target) := by
  unfold requireNoOutputLink requireNoLink
  cases t.find false path with
  | error error => simp
  | ok item => cases item <;> simp [Except.mapError]

theorem Writable.find_ne_link (writable : t.Writable path place) (target : String) :
    t.find false path ≠ .ok (.link target) := by
  obtain ⟨⟨parts, taken, designates⟩, replaceable, -⟩ := writable
  intro link
  obtain ⟨other, resolved, found⟩ := find_eq_ok_iff.mp link
  obtain ⟨_, again, leads⟩ := resolve_eq_ok_iff.mp resolved
  obtain rfl := Except.ok.inj (taken.symm.trans again)
  rw [designates.eq_of_leads leads] at found
  exact replaceable.at?_ne (fun _ => Item.noConfusion) found

theorem creationPlace_eq_ok_iff :
    t.creationPlace path = .ok place ↔ ∃ parts, partsOf path = .ok parts ∧
      t.followToWrite maxLinks (startOf t.workingDirectory path) parts = .ok place :=
  bind_eq_ok_iff

theorem requireWritable_eq_ok_iff :
    t.requireWritable place = .ok () ↔
      t.at? place ≠ some .directory ∧ t.permits .write (t.changedAt place) = true := by
  unfold requireWritable changedAt
  cases found : t.at? place with
  | none => simp [require_eq_ok_iff]
  | some item => cases item <;> simp [require_eq_ok_iff]

theorem writingPlace_eq_ok_iff :
    t.writingPlace path = .ok place ↔ t.creationPlace path = .ok place ∧
      t.at? place ≠ some .directory ∧ t.permits .write (t.changedAt place) = true := by
  rw [← requireWritable_eq_ok_iff]
  constructor
  · intro opened
    obtain ⟨location, created, opened⟩ := bind_eq_ok_iff.mp opened
    obtain ⟨_, allowed, same⟩ := bind_eq_ok_iff.mp opened
    cases same
    exact ⟨created, allowed⟩
  · rintro ⟨created, allowed⟩
    exact bind_eq_ok_iff.mpr ⟨place, created, bind_eq_ok_iff.mpr ⟨(), allowed, rfl⟩⟩

theorem put_put (old new : Item) : (t.put place old).put place new = t.put place new := by
  simp [put, List.filter_append]

/-- A write fails before it changes anything, or puts its content where the path leads a writer. -/
theorem write_cases (t : FileTree) (path : String) (bytes : ByteArray) :
    (∃ error, t.writingPlace path = .error error ∧ t.write path bytes = (t, .error error)) ∨
      ∃ place, t.writingPlace path = .ok place ∧
        t.write path bytes = (t.put place (.file bytes), .ok ()) := by
  unfold write openToWrite
  cases t.writingPlace path with
  | error error => exact .inl ⟨error, rfl, rfl⟩
  | ok place => exact .inr ⟨place, rfl, by dsimp only; rw [put_put]⟩

theorem writable_of_writingPlace (no_link : t.requireNoOutputLink path = .ok ())
    (opened : t.writingPlace path = .ok place) : t.Writable path place := by
  rw [requireNoOutputLink_eq_ok_iff] at no_link
  obtain ⟨created, no_directory, allowed⟩ := writingPlace_eq_ok_iff.mp opened
  obtain ⟨parts, taken, leads⟩ := creationPlace_eq_ok_iff.mp created
  rcases designates_of_followToWrite leads with ⟨kept, target, link, found⟩ | ⟨designates, solid⟩
  · have named : t.find false path = .ok (.link target) :=
      find_eq_ok_iff.mpr ⟨kept, resolve_eq_ok_iff.mpr ⟨parts, taken, link⟩, found⟩
    exact absurd named (no_link target)
  · refine ⟨⟨parts, taken, designates⟩, fun item found => ?_, allowed⟩
    cases item with
    | file old => exact ⟨old, rfl⟩
    | directory => exact absurd found no_directory
    | link target => exact absurd found (solid target)

theorem Writable.writingPlace_eq (writable : t.Writable path place) :
    t.writingPlace path = .ok place := by
  obtain ⟨⟨parts, taken, designates⟩, replaceable, allowed⟩ := writable
  have solid (target : String) : t.at? place ≠ some (.link target) :=
    replaceable.at?_ne fun _ => Item.noConfusion
  exact writingPlace_eq_ok_iff.mpr
    ⟨creationPlace_eq_ok_iff.mpr ⟨parts, taken, designates.followToWrite_eq solid⟩,
      replaceable.at?_ne fun _ => Item.noConfusion, allowed⟩

/-- A report is refused and nothing is changed, or its path may be written and only that file is
put. -/
theorem writeReport_cases (t : FileTree) (path content : String) :
    (∃ problem, t.writeReport path content = (t, .error problem)) ∨
      ∃ place, t.Writable path place ∧
        t.writeReport path content = (t.put place (.file content.toUTF8), .ok ()) := by
  unfold writeReport
  cases parent : t.requireParent path with
  | error details => exact .inl ⟨_, rfl⟩
  | ok _ =>
    cases output : t.requireNoOutputLink path with
    | error details => exact .inl ⟨_, rfl⟩
    | ok _ =>
      rcases write_cases t path content.toUTF8 with ⟨error, -, failed⟩ | ⟨place, opened, done⟩
      · exact .inl ⟨_, by dsimp only; rw [failed]⟩
      · exact .inr ⟨place, writable_of_writingPlace output opened, by dsimp only; rw [done]⟩

theorem Writable.writeReport_eq (writable : t.Writable path place) (content : String) :
    t.writeReport path content = (t.put place (.file content.toUTF8), .ok ()) := by
  have no_link := requireNoOutputLink_eq_ok_iff.mpr writable.find_ne_link
  unfold writeReport
  rw [writable.requireParent_eq, no_link]
  dsimp only
  rcases write_cases t path content.toUTF8 with ⟨error, failed, -⟩ | ⟨other, opened, done⟩
  · cases writable.writingPlace_eq.symm.trans failed
  · obtain rfl := Except.ok.inj (writable.writingPlace_eq.symm.trans opened)
    rw [done]

/-! ## The files afterwards -/

theorem Writable.resolve_self (writable : t.Writable path place) (bytes : ByteArray)
    (followLast : Bool) : (t.put place (.file bytes)).resolve followLast path = .ok place := by
  obtain ⟨⟨parts, taken, designates⟩, replaceable, -⟩ := writable
  have written : (t.put place (.file bytes)).at? place = some (.file bytes) :=
    at?_put_self designates.ne_nil
  refine resolve_eq_ok_iff.mpr ⟨parts, taken, ?_⟩
  exact (designates.put replaceable).leads written (by simp)

theorem Writable.at?_put (writable : t.Writable path place) (item : Item) :
    (t.put place item).at? place = some item := by
  obtain ⟨_, _, designates⟩ := writable.designated
  exact at?_put_self designates.ne_nil

theorem readText_eq_of_read (read : t.read path = .ok content.toUTF8) :
    t.readText path = .ok content := by
  have text : String.fromUTF8? content.toByteArray = some content := dif_pos content.isValidUTF8
  simp [readText, read, bind, Except.bind, text]

theorem Writable.readText_put (writable : t.Writable path place)
    (readable : t.permits .read place = true) (content : String) :
    (t.put place (.file content.toUTF8)).readText path = .ok content := by
  apply readText_eq_of_read
  exact read_eq_ok_iff.mpr ⟨place, writable.resolve_self _ _, writable.at?_put _, readable⟩

/-- Every path leads to where it led before. -/
theorem Writable.resolve_put (writable : t.Writable path place) (bytes : ByteArray)
    {followLast : Bool} {other : String} {location : Location}
    (resolved : t.resolve followLast other = .ok location) :
    (t.put place (.file bytes)).resolve followLast other = .ok location := by
  obtain ⟨parts, taken, leads⟩ := resolve_eq_ok_iff.mp resolved
  exact resolve_eq_ok_iff.mpr ⟨parts, taken, leads.put writable.replaceable⟩

theorem isFileName_of_partsOf {front : List String} {name : String}
    (taken : partsOf path = .ok (front ++ [name])) (named : IsName name) : IsFileName name := by
  obtain ⟨-, no_nul, -, ends⟩ := partsOf_eq_ok_iff.mp taken
  have listed : name ∈ Text.split '/' path := by
    rw [← ends]
    exact List.mem_append_right _ List.mem_cons_self
  refine ⟨named, Text.not_mem_of_mem_split listed, fun inside => no_nul ?_⟩
  exact Text.mem_of_mem_split listed inside

theorem WellFormed.put {directory : Location} {name : String} (wf : t.WellFormed)
    (inside : t.isDirectoryAt directory = true) (named : IsFileName name)
    (replaceable : t.Replaceable (directory ++ [name])) (bytes : ByteArray) :
    (t.put (directory ++ [name]) (.file bytes)).WellFormed := by
  constructor
  · have apart : directory ++ [name] ∉
        (t.items.filter (·.1 ≠ directory ++ [name])).map Prod.fst := by simp
    have kept : ((t.items.filter (·.1 ≠ directory ++ [name])).map Prod.fst).Nodup :=
      wf.distinct.sublist (List.filter_sublist.map Prod.fst)
    rw [FileTree.put, List.map_append]
    exact kept.append (List.nodup_singleton _) (List.disjoint_singleton.mpr apart)
  · intro entry listed
    rcases List.mem_append.mp listed with old | new
    · obtain ⟨below, holds, valid⟩ := wf.entered entry (List.mem_filter.mp old).1
      exact ⟨below, replaceable.isDirectoryAt_put holds, valid⟩
    · rw [List.mem_singleton.mp new]
      simpa using ⟨replaceable.isDirectoryAt_put inside, named⟩

theorem WellFormed.put_writable (wf : t.WellFormed) (writable : t.Writable path place)
    (bytes : ByteArray) : (t.put place (.file bytes)).WellFormed := by
  obtain ⟨⟨parts, taken, designates⟩, replaceable, -⟩ := writable
  obtain ⟨front, name, -, looked, named⟩ := designates
  exact wf.put looked.inside (isFileName_of_partsOf taken named) replaceable bytes

end FileTree

/-! ## Runs -/

namespace Program

/-- How a run leaves the files: as they were, unless it ends well and its report has a path to go
to. -/
inductive LeavesFiles (files : FileTree) (words : List String) (outcome : Outcome) : Prop
  | unread {refusal : Arguments.Refusal} : Arguments.parse words = .error refusal →
      outcome.files = files → LeavesFiles files words outcome
  | failed : outcome.exitCode = .applicationError →
      outcome.files = files → LeavesFiles files words outcome
  | printed {arguments : Arguments} : Arguments.parse words = .ok arguments →
      arguments.output = none → outcome.exitCode ∈ [.success, .cyclesDetected] →
      outcome.files = files → LeavesFiles files words outcome
  | written {arguments : Arguments} {path report : String} : Arguments.parse words = .ok arguments →
      arguments.output = some path → outcome.exitCode ∈ [.success, .cyclesDetected] →
      files.writeReport (Path.ofText path) report = (outcome.files, .ok ()) →
      LeavesFiles files words outcome

theorem output_of_merge {arguments : Arguments} {config : Config} {options : Options}
    (merged : Options.merge arguments config = .ok options) : options.output = arguments.output := by
  obtain ⟨format, _, rest⟩ := bind_eq_ok_iff.mp merged
  obtain ⟨granularity, _, result⟩ := bind_eq_ok_iff.mp rest
  cases result
  rfl

theorem exitCodeFor_mem (options : Options) (report : Report) :
    exitCodeFor options report ∈ [ExitCode.success, .cyclesDetected] := by
  unfold exitCodeFor
  split <;> decide

theorem conclusion_cases (timestamp : String) (files : FileTree) (arguments : Arguments) :
    (∃ failure, conclusion timestamp files arguments = (files, .error failure)) ∨
      ∃ options report, options.output = arguments.output ∧
        conclusion timestamp files arguments = delivered files options report := by
  unfold conclusion
  cases configOf files arguments.config with
  | error failure => exact .inl ⟨failure, rfl⟩
  | ok config =>
    cases merged : Options.merge arguments (config.getD {}) with
    | error failure => exact .inl ⟨failure, by simp only [andThen, merged]⟩
    | ok options =>
      cases scanned : (Scan.run ClassFile.defaultMaxMajor files.classSource
          (scanRequest options)).2 with
      | error failure => exact .inl ⟨failure, by simp only [andThen, merged, scanned]⟩
      | ok project =>
        cases analysed : (Analysis.run timestamp project (analysisRequest options)).2 with
        | error failure => exact .inl ⟨failure, by simp only [andThen, merged, scanned, analysed]⟩
        | ok report =>
          refine .inr ⟨options, report, output_of_merge merged, ?_⟩
          simp only [andThen, merged, scanned, analysed]

/-- A report that has no path to go to is printed; one that has is written, or the run fails. -/
theorem delivered_cases (files : FileTree) (options : Options) (report : Report) :
    (∃ failure, delivered files options report = (files, .error failure)) ∨
      ∃ after output, delivered files options report =
          (after, .ok (exitCodeFor options report, output)) ∧
        (options.output = none ∧ after = files ∨ ∃ path text, options.output = some path ∧
          files.writeReport (Path.ofText path) text = (after, .ok ())) := by
  unfold delivered presented
  cases output : options.output with
  | none => exact .inr ⟨files, _, rfl, .inl ⟨rfl, rfl⟩⟩
  | some path =>
    dsimp only [writeTo]
    rcases files.writeReport_cases (Path.ofText path) (report.render options.format) with
      ⟨problem, refused⟩ | ⟨place, -, written⟩
    · rw [refused]
      exact .inl ⟨.problem problem, rfl⟩
    · exact .inr ⟨_, "", by rw [written]; rfl, .inr ⟨path, _, rfl, written⟩⟩

theorem leavesFiles_run (timestamp : String) (files : FileTree) (words : List String) :
    LeavesFiles files words (run timestamp files words) := by
  cases parsed : Arguments.parse words with
  | error refusal =>
    refine .unread parsed ?_
    unfold run
    rw [parsed]
    cases refusal <;> rfl
  | ok arguments =>
    obtain ⟨code, after⟩ := run_concludes timestamp files parsed
    rcases conclusion_cases timestamp files arguments with
      ⟨failure, ended⟩ | ⟨options, report, same, ended⟩
    · rw [ended] at code after
      exact .failed code after
    · rcases delivered_cases files options report with
        ⟨failure, refused⟩ | ⟨changed, output, done, nowhere | ⟨path, text, sent, written⟩⟩
      · rw [ended, refused] at code after
        exact .failed code after
      all_goals
        rw [ended, done] at code after
        have exited : (run timestamp files words).exitCode ∈ [ExitCode.success, .cyclesDetected] := by
          rw [code]
          exact exitCodeFor_mem options report
      · exact .printed parsed (same ▸ nowhere.1) exited (after.trans nowhere.2)
      · have left : (run timestamp files words).files = changed := after
        rw [← left] at written
        exact .written parsed (same ▸ sent) exited written

end Program

namespace FileTree

/-- A report is written exactly if its path ends in a name in a directory that is there, for which
there is nothing or a file, and that may be written. If it is refused, the files are as they were.
Otherwise it is what the path names then, and what is read there if the file may be read; nothing
else is changed, and no path leads elsewhere than before. A run that fails, or prints its report,
leaves all files as they were. -/
theorem report_is_written_in_place_or_not_at_all (t : FileTree) (path content : String) :
    (∀ after problem, t.writeReport path content = (after, .error problem) → after = t) ∧
    ((t.writeReport path content).2 = .ok () ↔ ∃ place, t.Writable path place) ∧
    (∀ after, t.writeReport path content = (after, .ok ()) →
      (∀ target, t.find false path ≠ .ok (.link target)) ∧
      (∀ followLast, after.find followLast path = .ok (.file content.toUTF8)) ∧
      (∃ place, t.Writable path place ∧ after.at? place = some (.file content.toUTF8) ∧
        (t.permits .read place = true → after.readText path = .ok content) ∧
        ∀ other, other ≠ place → after.at? other = t.at? other) ∧
      after.workingDirectory = t.workingDirectory ∧ after.denied = t.denied ∧
      (t.WellFormed → after.WellFormed) ∧
      ∀ followLast other location, t.resolve followLast other = .ok location →
        after.resolve followLast other = .ok location) ∧
    ∀ timestamp words, Program.LeavesFiles t words (Program.run timestamp t words) := by
  refine ⟨?_, ?_, ?_, fun timestamp words => Program.leavesFiles_run timestamp t words⟩
  · intro after problem refused
    rcases t.writeReport_cases path content with ⟨_, failed⟩ | ⟨place, -, done⟩
    · exact (Prod.mk.inj (refused.symm.trans failed)).1
    · cases refused.symm.trans done
  · constructor
    · intro accepted
      rcases t.writeReport_cases path content with ⟨_, failed⟩ | ⟨place, writable, -⟩
      · rw [failed] at accepted
        cases accepted
      · exact ⟨place, writable⟩
    · rintro ⟨place, writable⟩
      rw [writable.writeReport_eq]
  · intro after accepted
    rcases t.writeReport_cases path content with ⟨_, failed⟩ | ⟨place, writable, done⟩
    · cases accepted.symm.trans failed
    · obtain ⟨rfl, -⟩ := Prod.mk.inj (accepted.symm.trans done)
      have written := writable.at?_put (.file content.toUTF8)
      exact ⟨writable.find_ne_link,
        fun followLast => find_eq_ok_iff.mpr ⟨place, writable.resolve_self _ _, written⟩,
        ⟨place, writable, written, fun readable => writable.readText_put readable content,
          fun _ => at?_put_of_ne⟩,
        rfl, rfl, fun wf => wf.put_writable writable _, fun _ _ _ => writable.resolve_put _⟩

end FileTree

end ClassCoupling
