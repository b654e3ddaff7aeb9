import PageTree.Proofs.Diagnosis.Check
import PageTree.Proofs.Edit.Apply
import PageTree.Proofs.Tool.Places
import PageTree.Proofs.Turn.Completion

/-!
# Strict edits in place

Edits are applied to the page of a workspace strictly, and the result is written over it. A run
that fails leaves the page as it is; a run that succeeds writes the text of a document without
errors, all of whose parts are read back. Whether that text is read back as a whole is another
matter: packed properties fit into a text of their own, but in the page they stand inside a node
inside the document. So the page can be lost, though only to a document that is nested deeper than a
text may be or has a number that is not read back from what is written of it.

## Main definitions

* `strictEdit`: the command line of one run
* `Workspace.strictEdits`: a workspace after several runs
* `Workspace.PageIsSound`: the page is read and has no errors

## Main results

* `Workspace.run_strictEdit`: what one run does to the page
* `Workspace.pageIsSound_or_overfills`: what several runs do to it
* `Workspace.page_lost`: a run that loses the page
-/

namespace PageTree

/-- The file of the page. -/
def pageFile : String := "page.json"

/-- The command line that applies the edits in a file to the page in place, strictly. -/
def strictEdit (edits : String) : List String :=
  ["apply", pageFile, "--ops", edits, "--strict", "-o", pageFile]

/-! ## The command line -/

theorem Lexeme.eq_of_ofChars_eq_word {text : List Char} {word : String}
    (h : ofChars text = .word word) : word = String.ofList text := by
  unfold ofChars at h
  split at h
  · cases h
  · split at h <;> cases h
  · cases h
  · cases h
  · cases h
  · exact (Lexeme.word.inj h).symm

/-- What the command takes that applies edits. -/
def applyForm : Form where
  valued := [Command.settingsOption, "ops", "out"]
  flags := ["strict"]
  letters := [Command.outLetter]

theorem Invocation.ofArguments?_eq_give? (edits : String) :
    ofArguments? (strictEdit edits) = (applyForm.give? [(.word pageFile, pageFile),
      (.named "ops" none, "--ops"), (applyForm.spellOut (Lexeme.ofArgument edits), edits),
      (.named "strict" none, "--strict"), (.named "out" none, "-o"),
      (.word pageFile, pageFile)]).bind fun given =>
        (Command.givenPath? Command.settingsOption given).bind fun settings =>
          (do return .apply (← Command.onlyPath? given)
                (← (given.values.lookup "ops").bind Command.path?)
                (← Command.givenPath? "out" given)
                (given.flags.contains "strict") : Option Command).bind
            fun command => some ⟨settings.or none, command⟩ := rfl

/-- The file with the edits is taken for what it is when its name does not look like an option. -/
theorem Invocation.ofArguments?_of_word {edits : String}
    (h : Lexeme.ofArgument edits = .word edits) :
    ofArguments? (strictEdit edits) = if edits.isEmpty then none
      else some ⟨none, .apply pageFile edits (some pageFile) true⟩ := by
  have hpath : ofArguments? (strictEdit edits) = ((Command.path? edits).bind fun path =>
      some (Command.apply pageFile path (some pageFile) true)).bind fun command =>
        some ⟨none, command⟩ := by
    rw [ofArguments?_eq_give?, h]
    rfl
  rw [hpath, Command.path?]
  split_ifs <;> rfl

theorem Invocation.ofArguments?_strictEdit (edits : String) :
    ofArguments? (strictEdit edits) = none ∨ ofArguments? (strictEdit edits) =
      some ⟨none, .apply pageFile edits (some pageFile) true⟩ := by
  cases hlexeme : Lexeme.ofArgument edits with
  | word text =>
    obtain rfl : text = edits := by
      rw [Lexeme.eq_of_ofChars_eq_word hlexeme, String.ofList_toList]
    rw [ofArguments?_of_word hlexeme]
    split_ifs
    · exact .inl rfl
    · exact .inr rfl
  | _ =>
    rw [ofArguments?_eq_give?, hlexeme]
    exact .inl rfl

/-! ## What is written -/

theorem Product.exists_of_ofExcept {α : Type} {made : Except ToolFault α} {product : α → Product}
    {written : Option Writing} (h : (ofExcept made product).outcome = .ok written) :
    ∃ a, made = .ok a ∧ ofExcept made product = product a := by
  cases made with
  | error fault => cases h
  | ok a => exact ⟨a, rfl, rfl⟩

theorem Files.exists_of_document {files : Files} {path : String} {document : Document}
    (h : files.document path = .ok document) :
    ∃ text, files.read path = some text ∧ Document.read? text = some document := by
  rw [Files.document, Files.text] at h
  cases htext : files.read path with
  | none => rw [htext] at h; cases h
  | some text =>
    rw [htext] at h
    cases hread : Document.read? text with
    | none => simp [hread, bind, Except.bind] at h
    | some found => exact ⟨text, rfl, by simpa [hread, bind, Except.bind] using h⟩

theorem Files.exists_of_value {files : Files} {path : String} {value : Json}
    (h : files.value path = .ok value) :
    ∃ text, files.read path = some text ∧ Json.parse? text = some value := by
  rw [Files.value, Files.text] at h
  cases htext : files.read path with
  | none => rw [htext] at h; cases h
  | some text =>
    rw [htext] at h
    cases hread : Json.parse? text with
    | none => simp [hread, bind, Except.bind] at h
    | some found => exact ⟨text, rfl, by simpa [hread, bind, Except.bind] using h⟩

/-- What a run writes comes from a batch that was applied to the page strictly. -/
theorem Invocation.run_of_written {files : Files} {edits : String} {written : Option Writing}
    (h : (run files ⟨none, .apply pageFile edits (some pageFile) true⟩).outcome = .ok written) :
    ∃ document text items updated, files.document pageFile = .ok document ∧
      Json.parse? text = some (.arr items) ∧
      document.applyBatch (.arr items) .strict = .ok updated ∧
      run files ⟨none, .apply pageFile edits (some pageFile) true⟩ =
        ⟨"", .ok (some ⟨pageFile, updated.pretty⟩)⟩ := by
  obtain ⟨settings, -, hrun⟩ := Product.exists_of_ofExcept h
  change (run files _).outcome = .ok written at h
  change run files _ = _ at hrun
  rw [hrun] at h ⊢
  obtain ⟨updated, hmade, hproduct⟩ := Product.exists_of_ofExcept h
  cases hdocument : files.document pageFile with
  | error fault => rw [hdocument] at hmade; cases hmade
  | ok document =>
    cases hvalue : files.value edits with
    | error fault => rw [hdocument, hvalue] at hmade; cases hmade
    | ok value =>
      rw [hdocument, hvalue] at hmade
      obtain ⟨text, -, hparse⟩ := Files.exists_of_value hvalue
      have hbatch : document.applyBatch value .strict = .ok updated := by
        change (document.applyBatch value .strict).mapError ToolFault.batch = .ok updated at hmade
        cases happlied : document.applyBatch value .strict with
        | error failure => rw [happlied] at hmade; cases hmade
        | ok result => rw [happlied] at hmade; exact congrArg Except.ok (Except.ok.inj hmade)
      cases value with
      | arr items => exact ⟨document, text, items, updated, rfl, hparse, hbatch, hproduct⟩
      | _ => cases hbatch

namespace Workspace

/-! ## The page -/

theorem finish_of_write? {w written : Workspace} {printed : String} {writing : Writing}
    (h : w.write? writing = some written) :
    w.finish ⟨printed, .ok (some writing)⟩ = (.done printed, written) := by
  simp only [finish, h]

theorem finish_of_unwritten {w : Workspace} {printed : String} {writing : Writing}
    (h : w.write? writing = none) : (w.finish ⟨printed, .ok (some writing)⟩).2 = w := by
  simp only [finish, h]

/-- The page is read as a document without errors. -/
def PageIsSound (w : Workspace) : Prop :=
  ∃ text document, w.read pageFile = some text ∧ Document.read? text = some document ∧
    hasErrors document.diagnostics = false

/-! ## Runs -/

/-- **What one run does to the page**: nothing, or it succeeds and writes a document without errors
that is made of nodes whose fields are read back. -/
theorem run_strictEdit (w : Workspace) (edits : String) :
    (w.run (strictEdit edits)).2 = w ∨ ∃ document : Document,
      (w.run (strictEdit edits)).1 = .done "" ∧
      (w.run (strictEdit edits)).2.read pageFile = some document.pretty ∧
      hasErrors document.diagnostics = false ∧
      Survives Document.read Document.json document.json.depth document := by
  rcases Invocation.ofArguments?_strictEdit edits with hcommand | hcommand
  · exact .inl (by rw [run, hcommand])
  simp only [run, hcommand]
  cases houtcome : (Invocation.run w.files
      ⟨none, .apply pageFile edits (some pageFile) true⟩).outcome with
  | error fault => exact .inl (by rw [finish, houtcome])
  | ok written =>
    obtain ⟨document, text, items, updated, hdocument, hparse, hbatch, hrun⟩ :=
      Invocation.run_of_written houtcome
    rw [hrun]
    cases hwrite : w.write? ⟨pageFile, updated.pretty⟩ with
    | none => exact .inl (finish_of_unwritten hwrite)
    | some written =>
      rw [finish_of_write? hwrite]
      obtain ⟨page, hpage, hread⟩ := Files.exists_of_document hdocument
      rcases (write?_eq_some_iff.1 hwrite).eq_or_read hpage with hsame | hwritten
      · exact .inl hsame
      have hown : document.app.Everywhere (Node.OwnFits false maxDepth) :=
        fun n hn => (Document.ownSurvives_of_read? hread n hn).mono (Nat.sub_le ..)
      obtain ⟨rfl, hsound⟩ := Document.of_applyBatch_strict hbatch
      have hparts := Document.everywhere_apply hown (Completion.partsSurvive_of_parse? hparse)
      exact .inr ⟨_, rfl, hwritten, hsound, Document.survives_json hparts⟩

/-- The workspace after several runs, each with a file of edits. -/
def strictEdits (w : Workspace) (edits : List String) : Workspace :=
  edits.foldl (fun w file => (w.run (strictEdit file)).2) w

/-- A run has written a document without errors whose text is nested too deep to be read, or has a
number that is not read back. -/
def Overfills (w : Workspace) (edits : String) : Prop :=
  (w.run (strictEdit edits)).1 = .done "" ∧ ∃ document : Document,
    (w.run (strictEdit edits)).2.read pageFile = some document.pretty ∧
    hasErrors document.diagnostics = false ∧
    ¬(document.json.depth ≤ maxDepth ∧ document.json.Steady)

/-- One run keeps a page that is read and has no errors, unless it overfills it. -/
theorem PageIsSound.run {w : Workspace} (h : w.PageIsSound) {edits : String}
    (hfits : ¬w.Overfills edits) : (w.run (strictEdit edits)).2.PageIsSound := by
  rcases w.run_strictEdit edits with hsame | ⟨document, hdone, hpage, hsound, hsurvives⟩
  · rw [hsame]
    exact h
  · have hreadable : document.json.depth ≤ maxDepth ∧ document.json.Steady := by
      by_contra hover
      exact hfits ⟨hdone, document, hpage, hsound, hover⟩
    exact ⟨_, document, hpage,
      (Document.read?_of_survives (hsurvives.mono hreadable.1) hreadable.2).1, hsound⟩

/-- **What several runs do to the page.** However many runs succeed or fail, the page is still read
and has no errors, unless one of them has overfilled it. -/
theorem pageIsSound_or_overfills {w : Workspace} (h : w.PageIsSound) (edits : List String) :
    (w.strictEdits edits).PageIsSound ∨
      ∃ before file, before ++ [file] <+: edits ∧ (w.strictEdits before).Overfills file := by
  induction edits generalizing w with
  | nil => exact .inl h
  | cons file edits ih =>
    by_cases hfits : w.Overfills file
    · exact .inr ⟨[], file, ⟨edits, rfl⟩, hfits⟩
    · refine (ih (h.run hfits)).imp_right ?_
      rintro ⟨before, next, hprefix, hover⟩
      exact ⟨file :: before, next, List.cons_prefix_cons.2 ⟨rfl, hprefix⟩, hover⟩

/-! ## A page that is lost -/

/-- An object that so many objects are nested in. -/
def nested : Nat → Json
  | 0 => .null
  | depth + 1 => .obj [("a", nested depth)]

/-- Sets a property of the app, as deep as a packed text may be. -/
def deepEdits : List Edit := [.updateProps "app" [("a", nested 126)]]

/-- A workspace with a page and a file of edits. -/
def bench (page edits : String) : Workspace where
  home := ["pages"]
  entries := [(["pages", pageFile], .file (bytesOfText page)),
    (["pages", "ops.json"], .file (bytesOfText edits))]

/-- A blank page, and that edit in a file. -/
def overfull : Workspace :=
  bench (Document.blank "Page").pretty (Json.arr (deepEdits.map Edit.packed)).compact

theorem leads_bench (page edits : String) : (bench page edits).Leads [] ["pages"] :=
  ⟨rfl, ⟨by decide, by decide, by decide, by decide, by decide⟩, rfl, trivial⟩

theorem locate?_bench (page edits : String) {name : String}
    (h : name ∈ [pageFile, Files.settingsFile, "ops.json"]) :
    (bench page edits).locate? name = some ["pages", name] := by
  have hname : ∀ name ∈ [pageFile, Files.settingsFile, "ops.json"], isFileName name = true ∧
      '/' ∉ name.toList ∧ name ≠ "" ∧ name ≠ "." ∧ name ≠ ".." := by
    decide
  obtain ⟨hfile, hslash, hempty, hdot, hdots⟩ := hname name h
  exact locate?_name rfl ⟨hfile, hslash, hempty, hdot, hdots⟩ rfl

theorem read_bench (page edits : String) : (bench page edits).read pageFile = some page :=
  read_of_entry (locate?_bench page edits (by decide)) rfl rfl

theorem settings_bench (page edits : String) :
    (bench page edits).files.settings none = .ok {} := by
  have hpath : (bench page edits).fullPath Files.settingsFile = "/pages/pageir.config.json" := rfl
  have hlocate : (bench page edits).locate? ((bench page edits).fullPath Files.settingsFile) =
      some ["pages", Files.settingsFile] :=
    (locate?_fullPath (leads_bench page edits) (by decide) (by rw [hpath]; decide)).trans
      (locate?_bench page edits (by decide))
  have hfile : (bench page edits).isFile Files.settingsFile = false := by
    simp only [isFile, hlocate]
    rfl
  rw [Files.settings, isFile_files, hfile]
  rfl

theorem document_bench {page edits : String} {document : Document}
    (hpage : Document.read? page = some document) :
    (bench page edits).files.document pageFile = .ok document := by
  rw [Files.document, Files.text, read_files, read_bench]
  change (Document.read? page).elim _ _ = _
  rw [hpage]
  rfl

theorem value_bench {page edits : String} {value : Json} (hedits : Json.parse? edits = some value) :
    (bench page edits).files.value "ops.json" = .ok value := by
  have hfile : (bench page edits).read "ops.json" = some edits :=
    read_of_entry (locate?_bench page edits (by decide)) rfl rfl
  rw [Files.value, Files.text, read_files, hfile]
  change (Json.parse? edits).elim _ _ = _
  rw [hedits]
  rfl

theorem write?_bench (page edits text : String) :
    (bench page edits).write? ⟨pageFile, text⟩ = some (bench text edits) := by
  have hlocate : (bench page edits).locate? pageFile = some ["pages", pageFile] :=
    locate?_bench page edits (by decide)
  rw [write?, hlocate, Option.bind_some]
  rfl

/-- A batch without errors is run and the page is overwritten. -/
theorem run_bench {page edits : String} {document updated : Document} {items : List Json}
    (hpage : Document.read? page = some document) (hedits : Json.parse? edits = some (.arr items))
    (hbatch : document.applyBatch (.arr items) .strict = .ok updated) :
    (bench page edits).run (strictEdit "ops.json") = (.done "", bench updated.pretty edits) := by
  have hcommand : Invocation.ofArguments? (strictEdit "ops.json") =
      some ⟨none, .apply pageFile "ops.json" (some pageFile) true⟩ :=
    Invocation.ofArguments?_of_word rfl
  have hrun : Invocation.run (bench page edits).files
      ⟨none, .apply pageFile "ops.json" (some pageFile) true⟩ =
        ⟨"", .ok (some ⟨pageFile, updated.pretty⟩)⟩ := by
    rw [Invocation.run, settings_bench, Product.ofExcept, Command.run, document_bench hpage,
      value_bench hedits]
    change Product.ofExcept
      ((document.applyBatch (.arr items) .strict).mapError ToolFault.batch) _ = _
    rw [hbatch]
    rfl
  rw [run, hcommand]
  change (bench page edits).finish (Invocation.run _ _) = _
  rw [hrun, finish_of_write? (write?_bench page edits _)]

theorem read?_blank :
    Document.read? (Document.blank "Page").pretty = some (Document.blank "Page") := by
  rw [Document.read?, Document.pretty, Literal.read?_pretty]
  rfl

theorem read?_deep : Document.read? ((Document.blank "Page").apply deepEdits).pretty = none := by
  rw [Document.read?, Document.pretty, Literal.read?_pretty, Option.bind_some,
    ← Option.isNone_iff_eq_none]
  decide +kernel

theorem pageIsSound_overfull : overfull.PageIsSound :=
  ⟨_, _, read_bench _ _, read?_blank, by decide⟩

theorem sturdy_nested (depth : Nat) : (nested depth).Sturdy := by
  induction depth with
  | zero => exact ⟨trivial, trivial⟩
  | succ depth ih =>
    exact Json.sturdy_obj.2 ⟨List.nodup_singleton _, List.forall_mem_singleton.2 ih⟩

theorem depth_nested (depth : Nat) : (nested depth).depth = depth := by
  induction depth with
  | zero => rfl
  | succ depth ih => rw [nested, Json.depth, Json.membersDepth, ih, Json.membersDepth, max_zero]

theorem partsSurvive_deepEdits : ∀ edit ∈ deepEdits, edit.PartsSurvive :=
  List.forall_mem_singleton.2 ⟨Codec.anyMembers_literal (sturdy_nested 127).keyed,
    (sturdy_nested 127).keyed, (depth_nested 127).trans_le (by decide)⟩

theorem sturdy_deepEdits : ∀ edit ∈ deepEdits, edit.json.Sturdy := by
  have htext (text : String) : (Json.str text).Sturdy := ⟨trivial, trivial⟩
  exact List.forall_mem_singleton.2 (Json.sturdy_obj.2 ⟨by decide, List.forall_mem_cons.2
    ⟨htext _, List.forall_mem_cons.2 ⟨htext _, List.forall_mem_singleton.2 (sturdy_nested 127)⟩⟩⟩)

theorem applyBatch_deepEdits :
    (Document.blank "Page").applyBatch (.arr (deepEdits.map Edit.packed)) .strict =
      .ok ((Document.blank "Page").apply deepEdits) := by
  have hsound : hasErrors ((Document.blank "Page").apply deepEdits).diagnostics = false := by
    decide
  rw [Document.applyBatch_arr, Completion.unpackEdit_packedAll partsSurvive_deepEdits
    sturdy_deepEdits, Completion.ofItems_json partsSurvive_deepEdits,
    Policy.enforce_strict_of_not_hasErrors hsound]
  rfl

theorem run_overfull : overfull.run (strictEdit "ops.json") =
    (.done "", bench ((Document.blank "Page").apply deepEdits).pretty
      (Json.arr (deepEdits.map Edit.packed)).compact) :=
  run_bench read?_blank (Completion.parse?_packed partsSurvive_deepEdits sturdy_deepEdits)
    applyBatch_deepEdits

/-- **A strict edit in place can lose the page.** The page is read and has no errors, the run
succeeds, and what it has written is not read back. -/
theorem page_lost : overfull.PageIsSound ∧ (overfull.run (strictEdit "ops.json")).1 = .done "" ∧
    ¬(overfull.strictEdits ["ops.json"]).PageIsSound := by
  have hlost : (overfull.strictEdits ["ops.json"]).read pageFile =
      some ((Document.blank "Page").apply deepEdits).pretty := by
    rw [strictEdits, List.foldl_cons, List.foldl_nil, run_overfull, read_bench]
  refine ⟨pageIsSound_overfull, by rw [run_overfull], ?_⟩
  rintro ⟨text, document, htext, hread, -⟩
  rw [hlost] at htext
  rw [← Option.some.inj htext, read?_deep] at hread
  cases hread

theorem pageIsSound_or_overfills_overfull : overfull.PageIsSound ∧
    ((overfull.strictEdits ["ops.json"]).PageIsSound ∨
      ∃ before file, before ++ [file] <+: ["ops.json"] ∧
        (overfull.strictEdits before).Overfills file) :=
  ⟨pageIsSound_overfull, pageIsSound_or_overfills pageIsSound_overfull ["ops.json"]⟩

end Workspace

end PageTree
