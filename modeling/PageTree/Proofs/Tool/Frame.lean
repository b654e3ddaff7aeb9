import PageTree.Proofs.Tool.OutputPath

/-!
# What a run does to the files

A run changes at most one file, the one that the arguments name for the output, and that only when
everything else is done: a run that fails leaves the workspace as it was. The output may be a file
that the command reads; what is written is made from the files as they were before.

## Main definitions

* `Command.Passes`, `Workspace.Allows`: what a command needs to be done
* `Workspace.Spares`: what a run may do to the files

## Main results

* `Command.outcome_of_passes`, `Command.outcome_of_not_passes`: when a command succeeds
* `Workspace.run_spares`: what a run does to the files
-/

namespace PageTree

/-! ## When a run succeeds -/

/-- All that a command reads is there and is what it should be, and the policy does not reject it:
strict ones want a result without errors. -/
def Command.Passes (files : Files) (settings : Settings) : Command → Prop
  | .create .. | .schema _ | .client _ => True
  | .apply document edits _ strict => ∃ page items, files.document document = .ok page ∧
      files.value edits = .ok (.arr items) ∧ (strict = true ∨ settings.strict = true →
        (page.apply (Batch.ofItems (items.map Json.unpackEdit)).edits).IsSound)
  | .check document strict => ∃ page, files.document document = .ok page ∧
      (strict = true ∨ settings.strict = true → page.IsSound)
  | .compile document _ _ => ∃ page, files.document document = .ok page

theorem Settings.policy_eq_strict_iff {settings : Settings} {strict : Bool} :
    settings.policy strict = .strict ↔ strict = true ∨ settings.strict = true := by
  rw [policy]
  split_ifs with h
  · simpa using h
  · simpa using h

theorem Policy.enforce_of_isSound {policy : Policy} {document : Document}
    (h : policy = .strict → document.IsSound) : policy.enforce document.diagnostics = .ok () := by
  cases policy with
  | lenient => rfl
  | strict =>
    exact enforce_strict_of_not_hasErrors (Document.hasErrors_diagnostics_eq_false_iff.2 (h rfl))

theorem Policy.exists_fault_of_not_isSound {policy : Policy} {document : Document}
    (h : ¬(policy = .strict → document.IsSound)) :
    ∃ failure, policy.enforce document.diagnostics = .error failure := by
  obtain ⟨rfl, hunsound⟩ := Classical.not_imp.1 h
  rw [← Document.hasErrors_diagnostics_eq_false_iff, Bool.not_eq_false] at hunsound
  obtain ⟨first, errors, -, henforce⟩ := enforce_strict_of_hasErrors hunsound
  exact ⟨_, henforce⟩

theorem Product.outcome_emit (out : Option String) (text : String) :
    (emit out text).outcome = .ok (out.map (Writing.mk · text)) := by
  cases out <;> rfl

namespace Command

variable {files : Files} {settings : Settings} {command : Command}

/-- A command that passes writes one text to the path that it names, if it names one. -/
theorem outcome_of_passes (h : command.Passes files settings) : ∃ text,
    (command.run files settings).outcome = .ok (command.output?.map (Writing.mk · text)) := by
  cases command with
  | create title out => exact ⟨_, Product.outcome_emit _ _⟩
  | apply document edits out strict =>
    obtain ⟨page, items, hdocument, hedits, hpolicy⟩ := h
    rw [← Settings.policy_eq_strict_iff] at hpolicy
    have hmade : page.applyAs (.arr items) (settings.policy strict) =
        .ok (page.apply (Batch.ofItems (items.map Json.unpackEdit)).edits) := by
      rw [Document.applyAs, Document.applyBatch_arr, Policy.enforce_of_isSound hpolicy]
      rfl
    refine ⟨(page.apply (Batch.ofItems (items.map Json.unpackEdit)).edits).pretty, ?_⟩
    rw [run, hdocument, hedits]
    change (Product.ofExcept (page.applyAs _ _) _).outcome = _
    rw [hmade]
    exact Product.outcome_emit _ _
  | check document strict =>
    obtain ⟨page, hdocument, hpolicy⟩ := h
    rw [← Settings.policy_eq_strict_iff] at hpolicy
    refine ⟨"", ?_⟩
    rw [run, hdocument, Product.ofExcept, Document.report, Policy.enforce_of_isSound hpolicy]
    rfl
  | compile document theme out =>
    obtain ⟨page, hdocument⟩ := h
    refine ⟨page.html (settings.theme theme) settings.page, ?_⟩
    rw [run, hdocument]
    exact Product.outcome_emit _ _
  | schema kind => exact ⟨"", rfl⟩
  | client out => exact ⟨_, Product.outcome_emit _ _⟩

/-- Whatever a command lacks makes it fail. -/
theorem outcome_of_not_passes (h : ¬command.Passes files settings) :
    ∃ fault, (command.run files settings).outcome = .error fault := by
  cases command with
  | create | schema | client => exact absurd trivial h
  | apply document edits out strict =>
    rw [run]
    cases hdocument : files.document document with
    | error fault => exact ⟨fault, rfl⟩
    | ok page =>
      cases hedits : files.value edits with
      | error fault => exact ⟨fault, rfl⟩
      | ok value =>
        cases value with
        | arr items =>
          have hpolicy : ¬(settings.policy strict = .strict →
              (page.apply (Batch.ofItems (items.map Json.unpackEdit)).edits).IsSound) := by
            intro hpolicy
            rw [Settings.policy_eq_strict_iff] at hpolicy
            exact h ⟨page, items, hdocument, hedits, hpolicy⟩
          obtain ⟨failure, henforce⟩ := Policy.exists_fault_of_not_isSound hpolicy
          refine ⟨.batch failure, ?_⟩
          change (Product.ofExcept (page.applyAs _ _) _).outcome = _
          rw [Document.applyAs, Document.applyBatch_arr, henforce]
          rfl
        | _ => exact ⟨_, rfl⟩
  | check document strict =>
    rw [run]
    cases hdocument : files.document document with
    | error fault => exact ⟨fault, rfl⟩
    | ok page =>
      have hpolicy : ¬(settings.policy strict = .strict → page.IsSound) := by
        intro hpolicy
        rw [Settings.policy_eq_strict_iff] at hpolicy
        exact h ⟨page, hdocument, hpolicy⟩
      obtain ⟨failure, henforce⟩ := Policy.exists_fault_of_not_isSound hpolicy
      exact ⟨.refused failure, by rw [Product.ofExcept, Document.report, henforce]; rfl⟩
  | compile document theme out =>
    rw [run]
    cases hdocument : files.document document with
    | error fault => exact ⟨fault, rfl⟩
    | ok page => exact absurd ⟨page, hdocument⟩ h

end Command

namespace Invocation

variable {files : Files} {invocation : Invocation}

/-- The settings are there, and the command passes under them. -/
def Passes (files : Files) (invocation : Invocation) : Prop :=
  ∃ settings, files.settings invocation.settings = .ok settings ∧
    invocation.command.Passes files settings

theorem run_of_settings {settings : Settings}
    (h : files.settings invocation.settings = .ok settings) :
    invocation.run files = invocation.command.run files settings := by
  rw [run, h]
  rfl

theorem outcome_of_passes (h : invocation.Passes files) : ∃ text, (invocation.run files).outcome =
    .ok (invocation.command.output?.map (Writing.mk · text)) := by
  obtain ⟨settings, hsettings, hpasses⟩ := h
  rw [run_of_settings hsettings]
  exact Command.outcome_of_passes hpasses

theorem outcome_of_not_passes (h : ¬invocation.Passes files) :
    ∃ fault, (invocation.run files).outcome = .error fault := by
  cases hsettings : files.settings invocation.settings with
  | error fault => exact ⟨fault, by rw [run, hsettings]; rfl⟩
  | ok settings =>
    rw [run_of_settings hsettings]
    exact Command.outcome_of_not_passes fun hpasses => h ⟨settings, hsettings, hpasses⟩

end Invocation

namespace Workspace

/-- Something can be written under this path. -/
def Takes (w : Workspace) (path : String) : Prop :=
  ∃ place, w.locate? path = some place ∧ w.isWritable place = true

/-- Nothing keeps an invocation from being done: it passes, and its output can be written. -/
def Allows (w : Workspace) (invocation : Invocation) : Prop :=
  invocation.Passes w.files ∧
    ∀ path, invocation.command.output? = some path → w.Takes path

/-- The command did its work. -/
def Verdict.IsDone : Verdict → Prop
  | .done _ => True
  | .usage | .failed .. => False

/-- What the run of a command line may do to a workspace. -/
structure Spares (w : Workspace) (arguments : List String) (result : Verdict × Workspace) :
    Prop where
  /-- The run succeeds exactly when the arguments make an invocation and nothing keeps it from
  being done. -/
  isDone_iff : result.1.IsDone ↔
    ∃ invocation, Invocation.ofArguments? arguments = some invocation ∧ w.Allows invocation
  /-- A run that fails leaves all as it was. -/
  eq_of_not_isDone : ¬result.1.IsDone → result.2 = w
  /-- So does a run whose arguments name no output. -/
  eq_of_no_output : outputPath? arguments = none → result.2 = w
  /-- So does a run that only checks a document. -/
  eq_of_check : ∀ settings document strict,
    Invocation.ofArguments? arguments = some ⟨settings, .check document strict⟩ → result.2 = w
  /-- So does a run that prints a schema. -/
  eq_of_schema : ∀ settings kind,
    Invocation.ofArguments? arguments = some ⟨settings, .schema kind⟩ → result.2 = w
  /-- No run changes anything but entries. -/
  eq_of_entries : result.2 = { w with entries := result.2.entries }
  /-- No run makes a directory or takes one away. -/
  isDirectory_eq : ∀ place, result.2.isDirectory place = w.isDirectory place
  /-- All paths lead where they led before. -/
  locate?_eq : ∀ path, result.2.locate? path = w.locate? path
  /-- The only entry that may differ is the one that the arguments name for the output. -/
  lookup_eq : ∀ place, (∀ path, outputPath? arguments = some path → w.locate? path ≠ some place) →
    result.2.entries.lookup place = w.entries.lookup place
  /-- Whatever path does not lead to it reads as it did. -/
  read_eq : ∀ path, (∀ place output, outputPath? arguments = some output →
    w.locate? path = some place → w.locate? output ≠ some place) →
    result.2.read path = w.read path
  /-- The output of a run that succeeds holds one text, made from the files as they were. -/
  read_output : result.1.IsDone → ∀ path, outputPath? arguments = some path →
    ∃ invocation text, Invocation.ofArguments? arguments = some invocation ∧
      (invocation.run w.files).outcome = .ok (some ⟨path, text⟩) ∧
      w.Wrote path text result.2 ∧ (w.Keeps path → result.2.read path = some text)

theorem exists_write?_iff {w : Workspace} {path : String} (text : String) :
    (∃ written, w.write? ⟨path, text⟩ = some written) ↔ w.Takes path := by
  simp only [write?_eq_some_iff]
  constructor
  · rintro ⟨written, hwrote⟩
    exact hwrote.exists_locate?
  · rintro ⟨place, hplace, hwritable⟩
    by_cases hdevice : ∃ content, w.entries.lookup place = some (.device content)
    · obtain ⟨content, hdevice⟩ := hdevice
      exact ⟨w, .device hplace hwritable hdevice⟩
    · exact ⟨_, .file hplace hwritable (not_exists.1 hdevice)⟩

variable {w : Workspace} {invocation : Invocation}

theorem finish_of_error {product : Product} {fault : ToolFault}
    (h : product.outcome = .error fault) :
    w.finish product = (.failed product.printed fault, w) := by
  simp only [finish, h]

/-- How an invocation ends that something keeps from being done. -/
theorem finish_of_not_allows (h : ¬w.Allows invocation) :
    ¬(w.finish (invocation.run w.files)).1.IsDone ∧ (w.finish (invocation.run w.files)).2 = w := by
  by_cases hpasses : invocation.Passes w.files
  · obtain ⟨text, houtcome⟩ := Invocation.outcome_of_passes hpasses
    have hrefused : ¬∀ path, invocation.command.output? = some path → w.Takes path :=
      fun htakes => h ⟨hpasses, htakes⟩
    obtain ⟨path, hrefused⟩ := not_forall.1 hrefused
    obtain ⟨houtput, hrefused⟩ := Classical.not_imp.1 hrefused
    have hwrite : w.write? ⟨path, text⟩ = none := by
      rw [← exists_write?_iff text] at hrefused
      exact Option.eq_none_iff_forall_ne_some.2 fun written hwritten =>
        hrefused ⟨written, hwritten⟩
    rw [houtput] at houtcome
    have hfinish : w.finish (invocation.run w.files) =
        (.failed (invocation.run w.files).printed (.unwritten path), w) := by
      simp only [finish, houtcome, Option.map_some, hwrite]
    rw [hfinish]
    exact ⟨not_false, rfl⟩
  · obtain ⟨fault, houtcome⟩ := Invocation.outcome_of_not_passes hpasses
    rw [finish_of_error houtcome]
    exact ⟨not_false, rfl⟩

/-- How an invocation ends that nothing keeps from being done. -/
theorem finish_of_allows (h : w.Allows invocation) :
    (w.finish (invocation.run w.files)).1.IsDone ∧
      ∃ text, (invocation.run w.files).outcome =
          .ok (invocation.command.output?.map (Writing.mk · text)) ∧
        (invocation.command.output? = none → (w.finish (invocation.run w.files)).2 = w) ∧
        ∀ path, invocation.command.output? = some path →
          w.Wrote path text (w.finish (invocation.run w.files)).2 := by
  obtain ⟨hpasses, htakes⟩ := h
  obtain ⟨text, houtcome⟩ := Invocation.outcome_of_passes hpasses
  cases houtput : invocation.command.output? with
  | none =>
    have hfinish : w.finish (invocation.run w.files) =
        (.done (invocation.run w.files).printed, w) := by
      simp only [finish, houtcome, houtput, Option.map_none]
    rw [hfinish]
    exact ⟨trivial, text, houtput ▸ houtcome, fun _ => rfl, by simp⟩
  | some path =>
    obtain ⟨written, hwrite⟩ := (exists_write?_iff text).2 (htakes path houtput)
    have hfinish : w.finish (invocation.run w.files) =
        (.done (invocation.run w.files).printed, written) := by
      simp only [finish, houtcome, houtput, Option.map_some, hwrite]
    rw [hfinish]
    refine ⟨trivial, text, houtput ▸ houtcome, by simp, ?_⟩
    intro other hother
    obtain rfl := Option.some.inj hother
    exact write?_eq_some_iff.1 hwrite

/-- All is as it was, or the output that the arguments name has been written. -/
def Touches (w : Workspace) (arguments : List String) (after : Workspace) : Prop :=
  after = w ∨ ∃ path text, outputPath? arguments = some path ∧ w.Wrote path text after

namespace Touches

variable {arguments : List String} {after : Workspace}

theorem eq_of_entries (h : w.Touches arguments after) :
    after = { w with entries := after.entries } := by
  rcases h with rfl | ⟨path, text, -, hwrote⟩
  · rfl
  · exact hwrote.eq_of_entries

theorem isDirectory_eq (h : w.Touches arguments after) (place : List String) :
    after.isDirectory place = w.isDirectory place := by
  rcases h with rfl | ⟨path, text, -, hwrote⟩
  · rfl
  · exact hwrote.isDirectory_eq place

theorem locate?_eq (h : w.Touches arguments after) (path : String) :
    after.locate? path = w.locate? path := by
  rcases h with rfl | ⟨output, text, -, hwrote⟩
  · rfl
  · exact hwrote.locate?_eq path

theorem lookup_eq (h : w.Touches arguments after) {place : List String}
    (hplace : ∀ path, outputPath? arguments = some path → w.locate? path ≠ some place) :
    after.entries.lookup place = w.entries.lookup place := by
  rcases h with rfl | ⟨path, text, hpath, hwrote⟩
  · rfl
  · exact hwrote.lookup_eq (hplace path hpath)

theorem read_eq (h : w.Touches arguments after) {path : String}
    (hpath : ∀ place output, outputPath? arguments = some output →
      w.locate? path = some place → w.locate? output ≠ some place) :
    after.read path = w.read path := by
  rcases h with rfl | ⟨output, text, houtput, hwrote⟩
  · rfl
  · exact hwrote.read_eq fun place => hpath place output houtput

end Touches

/-- A run that is not done and changes nothing spares all files. -/
theorem spares_of_eq {arguments : List String} {result : Verdict × Workspace}
    (hsame : result.2 = w) (hdone : ¬result.1.IsDone)
    (hnone : ¬∃ invocation, Invocation.ofArguments? arguments = some invocation ∧
      w.Allows invocation) : w.Spares arguments result :=
  have htouches : w.Touches arguments result.2 := .inl hsame
  { isDone_iff := iff_of_false hdone hnone
    eq_of_not_isDone := fun _ => hsame
    eq_of_no_output := fun _ => hsame
    eq_of_check := fun _ _ _ _ => hsame
    eq_of_schema := fun _ _ _ => hsame
    eq_of_entries := htouches.eq_of_entries
    isDirectory_eq := htouches.isDirectory_eq
    locate?_eq := htouches.locate?_eq
    lookup_eq := fun _ => htouches.lookup_eq
    read_eq := fun _ => htouches.read_eq
    read_output := fun h => absurd h hdone }

/-- **A run spares all files but its output.** It changes nothing unless it succeeds, and then only
the file that the arguments name. -/
theorem run_spares (w : Workspace) (arguments : List String) :
    w.Spares arguments (w.run arguments) := by
  cases harguments : Invocation.ofArguments? arguments with
  | none =>
    have hrun : w.run arguments = (.usage, w) := by rw [run, harguments]
    rw [hrun]
    refine spares_of_eq rfl not_false ?_
    rintro ⟨invocation, hinvocation, -⟩
    rw [harguments] at hinvocation
    cases hinvocation
  | some invocation =>
    have hrun : w.run arguments = w.finish (invocation.run w.files) := by rw [run, harguments]
    have hpath := Invocation.outputPath?_eq harguments
    rw [hrun]
    by_cases hallows : w.Allows invocation
    · obtain ⟨hdone, text, houtcome, hnone, hwrote⟩ := finish_of_allows hallows
      have htouches : w.Touches arguments (w.finish (invocation.run w.files)).2 := by
        cases houtput : invocation.command.output? with
        | none => exact .inl (hnone houtput)
        | some path => exact .inr ⟨path, text, hpath.trans houtput, hwrote path houtput⟩
      exact {
        isDone_iff := iff_of_true hdone ⟨invocation, harguments, hallows⟩
        eq_of_not_isDone := fun h => absurd hdone h
        eq_of_no_output := fun h => hnone (hpath ▸ h)
        eq_of_check := fun settings document strict h => by
          obtain rfl := Option.some.inj (harguments.symm.trans h)
          exact hnone rfl
        eq_of_schema := fun settings kind h => by
          obtain rfl := Option.some.inj (harguments.symm.trans h)
          exact hnone rfl
        eq_of_entries := htouches.eq_of_entries
        isDirectory_eq := htouches.isDirectory_eq
        locate?_eq := htouches.locate?_eq
        lookup_eq := fun _ => htouches.lookup_eq
        read_eq := fun _ => htouches.read_eq
        read_output := fun _ path houtput => by
          have houtput := hpath.symm.trans houtput
          rw [houtput] at houtcome
          exact ⟨invocation, text, harguments, houtcome, hwrote path houtput,
            (hwrote path houtput).read_self⟩ }
    · obtain ⟨hdone, hsame⟩ := finish_of_not_allows hallows
      refine spares_of_eq hsame hdone ?_
      rintro ⟨other, hother, hallowed⟩
      obtain rfl := Option.some.inj (harguments.symm.trans hother)
      exact hallows hallowed

end Workspace

end PageTree
