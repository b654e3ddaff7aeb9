import PageTree.Proofs.Tool.InPlace

/-!
# The path of the output

Which path the arguments name for the output can be told from the arguments themselves, without
reading them as a command: it is attached to the option, or it stands behind it, in front of two
dashes alone. Here that path is shown to be the one that the command writes to.

## Main definitions

* `givenOutputs`: the paths that arguments give for the output
* `outputPath?`: the path that arguments name for it
* `Form.SpellsOutput`: a form that takes no other option for it

## Main results

* `Form.SpellsOutput.givenOutputs_eq`: arguments that are read give at most one path
* `Invocation.outputPath?_eq`: the path in the arguments is the path in the command
-/

namespace PageTree

/-! ## Paths in arguments -/

/-- Whether an argument is the option for the output, and the path attached to it. -/
def Lexeme.output? : Lexeme → Option (Option String)
  | .named name path => if name = "out" then some path else none
  | .lettered letter path => if letter = 'o' then some path else none
  | .terminator | .word _ => none

/-- The paths that arguments give for the output, attached to the option or behind it. -/
def givenOutputs : List String → List String
  | [] => []
  | argument :: rest =>
    match Lexeme.ofArgument argument with
    | .terminator => []
    | lexeme =>
      match lexeme.output? with
      | some (some path) => path :: givenOutputs rest
      | some none => rest.head?.toList ++ givenOutputs rest
      | none => givenOutputs rest

/-- Where a command writes when no path is given. -/
def Command.ownOutput? : Command → Option String
  | .client _ => some clientFile
  | _ => none

/-- The path that arguments name for the output. -/
def outputPath? (arguments : List String) : Option String := do
  let invocation ← Invocation.ofArguments? arguments
  (givenOutputs arguments).head?.or invocation.command.ownOutput?

/-- The path that a command writes to. -/
def Command.output? : Command → Option String
  | .create _ out | .apply _ _ out _ | .compile _ _ out => out
  | .client out => some out
  | .check .. | .schema _ => none

section

variable {argument : String} {rest : List String}

/-- An option gives the path that is attached to it, or the argument behind it. -/
theorem givenOutputs_of_option {name : String} {attached : Option String}
    (hlexeme : Lexeme.ofArgument argument ≠ .terminator)
    (h : (Lexeme.ofArgument argument).output? = if name = "out" then some attached else none) :
    givenOutputs (argument :: rest) =
      (if name = "out" then (attached.or rest.head?).toList else []) ++ givenOutputs rest := by
  rw [givenOutputs]
  split
  · next heq => exact absurd heq hlexeme
  · rw [h]
    by_cases hname : name = "out"
    · rw [if_pos hname, if_pos hname]
      cases attached <;> rfl
    · rw [if_neg hname, if_neg hname]
      rfl

theorem givenOutputs_of_other (hlexeme : Lexeme.ofArgument argument ≠ .terminator)
    (h : (Lexeme.ofArgument argument).output? = none) :
    givenOutputs (argument :: rest) = givenOutputs rest := by
  rw [givenOutputs]
  split
  · next heq => exact absurd heq hlexeme
  · simp only [h]

theorem givenOutputs_of_word {word : String} (h : Lexeme.ofArgument argument = .word word) :
    givenOutputs (argument :: rest) = givenOutputs rest :=
  givenOutputs_of_other (by rw [h]; nofun) (by rw [h]; rfl)

end

/-! ## Reading by a form -/

namespace Given

variable {given result : Given} {name : String}

theorem of_addValue? {value : String} (h : given.addValue? name value = some result) :
    given.values.lookup name = none ∧ result.values = (name, value) :: given.values := by
  rw [addValue?] at h
  split_ifs at h with hnone
  cases h
  exact ⟨Option.not_isSome_iff_eq_none.1 hnone, rfl⟩

theorem outputs_of_addValue? {value : String} (h : given.addValue? name value = some result) :
    (result.values.lookup "out").toList =
      (if name = "out" then [value] else []) ++ (given.values.lookup "out").toList := by
  obtain ⟨hnone, hvalues⟩ := of_addValue? h
  rw [hvalues]
  by_cases hname : name = "out"
  · rw [hname] at hnone
    rw [if_pos hname, hnone, hname, OrderedMap.lookup_cons_self]
    rfl
  · rw [if_neg hname, OrderedMap.lookup_cons_of_ne (Ne.symm hname)]
    rfl

theorem values_of_addFlag? (h : given.addFlag? name = some result) :
    result.values = given.values := by
  rw [addFlag?] at h
  split_ifs at h
  cases h
  rfl

end Given

namespace Form

/-- Among the options of a form, the one for the output takes a path and has its own letter, which
is the only letter. -/
structure SpellsOutput (form : Form) : Prop where
  flags : "out" ∉ form.flags
  letters : ∀ letter, (form.letters.lookup letter).getD "" ∈ form.valued ++ form.flags →
    letter = 'o' ∧ (form.letters.lookup letter).getD "" = "out"

variable {form : Form}

/-- A form whose only letter is the one of the output. -/
theorem spellsOutput (hflags : "out" ∉ form.flags) (hempty : "" ∉ form.valued ++ form.flags)
    (hletters : form.letters = [] ∨ form.letters = [Command.outLetter]) : form.SpellsOutput where
  flags := hflags
  letters letter hletter := by
    rcases hletters with hnil | hout
    · rw [hnil] at hletter
      exact absurd hletter hempty
    · rw [hout] at hletter ⊢
      by_cases ho : letter = 'o'
      · subst ho
        exact ⟨rfl, rfl⟩
      · have hnone : [Command.outLetter].lookup letter = none := by
          rw [List.lookup_cons, show (letter == Command.outLetter.1) = false from
            beq_eq_false_iff_ne.2 ho, List.lookup_nil]
        rw [hnone] at hletter
        exact absurd hletter hempty

theorem eq_terminator_of_spellOut {lexeme : Lexeme} (h : form.spellOut lexeme = .terminator) :
    lexeme = .terminator := by
  cases lexeme with
  | lettered => cases h
  | _ => exact h

theorem eq_word_of_spellOut {lexeme : Lexeme} {word : String}
    (h : form.spellOut lexeme = .word word) : lexeme = .word word := by
  cases lexeme with
  | lettered => cases h
  | _ => exact h

theorem SpellsOutput.output?_of_spellOut (hform : form.SpellsOutput) {lexeme : Lexeme}
    {name : String} {value : Option String} (hname : name ∈ form.valued ++ form.flags)
    (h : form.spellOut lexeme = .named name value) :
    lexeme ≠ .terminator ∧ lexeme.output? = if name = "out" then some value else none := by
  cases lexeme with
  | named => cases h; exact ⟨nofun, rfl⟩
  | lettered letter =>
    cases h
    obtain ⟨rfl, hout⟩ := hform.letters _ hname
    exact ⟨nofun, by rw [if_pos hout]; rfl⟩
  | _ => cases h

/-- **The paths in front of everything that a form reads** are those it has taken for the output,
and there is at most one. -/
theorem SpellsOutput.givenOutputs_eq (hform : form.SpellsOutput) {arguments : List String}
    {given : Given} (h : form.read? arguments = some given) :
    givenOutputs arguments = (given.values.lookup "out").toList := by
  rw [read?] at h
  generalize hitems : arguments.map
    (fun argument => (form.spellOut (Lexeme.ofArgument argument), argument)) = items at h
  fun_induction form.give? items generalizing arguments given with
  | case1 =>
    obtain rfl := List.map_eq_nil_iff.1 hitems
    cases h
    rfl
  | case2 text items =>
    obtain ⟨argument, rest, rfl, hitem, -⟩ := List.map_eq_cons_iff.1 hitems
    cases h
    rw [givenOutputs, eq_terminator_of_spellOut (congrArg Prod.fst hitem)]
    rfl
  | case3 word text items ih =>
    obtain ⟨argument, rest, rfl, hitem, hrest⟩ := List.map_eq_cons_iff.1 hitems
    obtain ⟨inner, hinner, rfl⟩ := Option.map_eq_some_iff.1 h
    have hrest := ih hrest hinner
    rw [givenOutputs_of_word (eq_word_of_spellOut (congrArg Prod.fst hitem))]
    exact hrest
  | case5 name value text items hvalued ih =>
    obtain ⟨argument, rest, rfl, hitem, hrest⟩ := List.map_eq_cons_iff.1 hitems
    obtain ⟨inner, hinner, hadd⟩ := Option.bind_eq_some_iff.1 h
    obtain ⟨hlexeme, houtput⟩ := hform.output?_of_spellOut
      (List.mem_append_left _ (List.contains_iff_mem.1 hvalued)) (congrArg Prod.fst hitem)
    rw [givenOutputs_of_option hlexeme houtput, ih hrest hinner, Given.outputs_of_addValue? hadd]
    rfl
  | case7 name text items hflags ih =>
    obtain ⟨argument, rest, rfl, hitem, hrest⟩ := List.map_eq_cons_iff.1 hitems
    obtain ⟨inner, hinner, hadd⟩ := Option.bind_eq_some_iff.1 h
    have hflag := List.contains_iff_mem.1 hflags
    obtain ⟨hlexeme, houtput⟩ := hform.output?_of_spellOut
      (List.mem_append_right _ hflag) (congrArg Prod.fst hitem)
    have hname : name ≠ "out" := fun hname => hform.flags (hname ▸ hflag)
    rw [givenOutputs_of_option hlexeme houtput, if_neg hname, ih hrest hinner,
      Given.values_of_addFlag? hadd]
    rfl
  | case8 name text _ hvalued value word items ih =>
    obtain ⟨argument, behind, rfl, hitem, hbehind⟩ := List.map_eq_cons_iff.1 hitems
    obtain ⟨argument', rest, rfl, hitem', hrest⟩ := List.map_eq_cons_iff.1 hbehind
    obtain ⟨inner, hinner, hadd⟩ := Option.bind_eq_some_iff.1 h
    -- the argument behind the option is a word, so it is the value, and it is no option itself
    have hword := eq_word_of_spellOut (congrArg Prod.fst hitem')
    have hvalue : value = argument' := by
      rw [Lexeme.eq_of_ofChars_eq_word hword, String.ofList_toList]
    obtain ⟨hlexeme, houtput⟩ := hform.output?_of_spellOut
      (List.mem_append_left _ (List.contains_iff_mem.1 hvalued)) (congrArg Prod.fst hitem)
    rw [givenOutputs_of_option hlexeme houtput, givenOutputs_of_word hword, ih hrest hinner,
      Given.outputs_of_addValue? hadd, hvalue]
    rfl
  | _ => cases h

/-- The options in front of the command give no output when its form has none. -/
theorem SpellsOutput.givenOutputs_of_leading? (hform : form.SpellsOutput)
    (hflags : form.flags = []) (hout : "out" ∉ form.valued) {arguments before after : List String}
    {name : String} {given : Given} (h : form.leading? arguments = some (before, name, after))
    (hgiven : form.read? before = some given) : givenOutputs arguments = givenOutputs after := by
  have hother {argument option : String} {value : Option String}
      (hoption : option ∈ form.valued)
      (hlexeme : form.spellOut (Lexeme.ofArgument argument) = .named option value)
      (rest : List String) : givenOutputs (argument :: rest) = givenOutputs rest := by
    obtain ⟨hne, houtput⟩ := hform.output?_of_spellOut (List.mem_append_left _ hoption) hlexeme
    have hname : option ≠ "out" := fun hname => hout (hname ▸ hoption)
    rw [if_neg hname] at houtput
    exact givenOutputs_of_other hne houtput
  rw [read?] at hgiven
  fun_induction form.leading? arguments generalizing before given with
  | case2 argument rest word hword =>
    cases h
    exact givenOutputs_of_word (eq_word_of_spellOut hword)
  | case3 argument option hoption hvalued value rest ih =>
    obtain ⟨⟨inner, text, behind⟩, hinner, hsome⟩ := Option.map_eq_some_iff.1 h
    cases hsome
    rw [List.map_cons, List.map_cons, hoption] at hgiven
    have hvalue : ∃ word, form.spellOut (Lexeme.ofArgument value) = .word word := by
      cases hspelled : form.spellOut (Lexeme.ofArgument value) with
      | word word => exact ⟨word, rfl⟩
      | _ => rw [hspelled] at hgiven; simp [give?, hflags] at hgiven
    obtain ⟨word, hword⟩ := hvalue
    simp only [give?, hword, hflags, hvalued, if_true] at hgiven
    obtain ⟨read, hread, -⟩ := Option.bind_eq_some_iff.1 hgiven
    rw [hother (List.contains_iff_mem.1 hvalued) hoption,
      givenOutputs_of_word (eq_word_of_spellOut hword)]
    exact ih hinner hread
  | case6 argument rest option value hoption ih =>
    obtain ⟨⟨inner, text, behind⟩, hinner, hsome⟩ := Option.map_eq_some_iff.1 h
    cases hsome
    rw [List.map_cons, hoption, give?] at hgiven
    split_ifs at hgiven with hvalued
    obtain ⟨read, hread, -⟩ := Option.bind_eq_some_iff.1 hgiven
    rw [hother (List.contains_iff_mem.1 hvalued) hoption]
    exact ih hinner hread
  | _ => cases h

end Form

/-! ## The commands -/

namespace Command

theorem spellsOutput_of_table : ∀ entry ∈ table,
    Form.SpellsOutput { entry.2.1 with valued := settingsOption :: entry.2.1.valued } := by
  have h : ∀ entry ∈ table, "out" ∉ entry.2.1.flags ∧
      "" ∉ (settingsOption :: entry.2.1.valued) ++ entry.2.1.flags ∧
      (entry.2.1.letters = [] ∨ entry.2.1.letters = [outLetter]) := by
    decide
  exact fun entry hentry =>
    Form.spellsOutput (h entry hentry).1 (h entry hentry).2.1 (h entry hentry).2.2

theorem eq_of_path? {text path : String} (h : path? text = some path) : path = text := by
  rw [path?] at h
  split_ifs at h
  exact (Option.some.inj h).symm

theorem eq_lookup_of_givenPath? {name : String} {given : Given} {path : Option String}
    (h : givenPath? name given = some path) : path = given.values.lookup name := by
  rw [givenPath?] at h
  cases hvalue : given.values.lookup name with
  | none => rw [hvalue] at h; exact (Option.some.inj h).symm
  | some value =>
    rw [hvalue] at h
    obtain ⟨text, htext, rfl⟩ := Option.map_eq_some_iff.1 h
    rw [eq_of_path? htext]

/-- A command that is made from a path that may be given is made from the path that was given. -/
theorem eq_of_givenPath?_bind {name : String} {given : Given} {make : Option String → Command}
    {command : Command} (h : ((givenPath? name given).bind fun path => some (make path)) =
      some command) : command = make (given.values.lookup name) := by
  obtain ⟨path, hpath, hmake⟩ := Option.bind_eq_some_iff.1 h
  rw [← eq_lookup_of_givenPath? hpath]
  exact (Option.some.inj hmake).symm

/-- Every command writes to the path that was given for the output, or to its own. -/
theorem output?_of_table {given : Given} {command : Command} : ∀ entry ∈ table,
    ("out" ∉ entry.2.1.valued → given.values.lookup "out" = none) →
    entry.2.2 given = some command →
      command.output? = (given.values.lookup "out").or command.ownOutput? := by
  rw [table]
  refine List.forall_mem_cons.2 ⟨?create, List.forall_mem_cons.2 ⟨?apply, List.forall_mem_cons.2
    ⟨?check, List.forall_mem_cons.2 ⟨?compile, List.forall_mem_cons.2 ⟨?schema,
      List.forall_mem_singleton.2 ?client⟩⟩⟩⟩⟩
  case create =>
    intro _ h
    obtain ⟨-, -, h⟩ := Option.bind_eq_some_iff.1 h
    obtain rfl := eq_of_givenPath?_bind h
    exact Option.or_none.symm
  case apply =>
    intro _ h
    obtain ⟨document, -, h⟩ := Option.bind_eq_some_iff.1 h
    obtain ⟨edits, -, h⟩ := Option.bind_eq_some_iff.1 h
    obtain rfl := eq_of_givenPath?_bind h
    exact Option.or_none.symm
  case check =>
    intro hnone h
    obtain ⟨document, -, h⟩ := Option.bind_eq_some_iff.1 h
    obtain rfl := Option.some.inj h
    rw [hnone (by decide)]
    rfl
  case compile =>
    intro _ h
    obtain ⟨document, -, h⟩ := Option.bind_eq_some_iff.1 h
    obtain ⟨theme, -, h⟩ := Option.bind_eq_some_iff.1 h
    obtain rfl := eq_of_givenPath?_bind h
    exact Option.or_none.symm
  case schema =>
    intro hnone h
    obtain ⟨kind, rfl⟩ : ∃ kind, command = .schema kind := by
      dsimp only at h
      split at h
      · obtain ⟨kind, -, rfl⟩ := Option.map_eq_some_iff.1 h
        exact ⟨kind, rfl⟩
      · cases h
    rw [hnone (by decide)]
    rfl
  case client =>
    intro _ h
    obtain ⟨-, -, h⟩ := Option.bind_eq_some_iff.1 h
    obtain rfl := eq_of_givenPath?_bind h
    cases given.values.lookup "out" <;> rfl

end Command

/-- A form takes no values for options that it does not have. -/
theorem Form.lookup_eq_none_of_read? {form : Form} {arguments : List String} {given : Given}
    {name : String} (hname : name ∉ form.valued) (h : form.read? arguments = some given) :
    given.values.lookup name = none := by
  rw [read?] at h
  generalize arguments.map
    (fun argument => (form.spellOut (Lexeme.ofArgument argument), argument)) = items at h
  have hadd {inner given : Given} {option value : String}
      (hoption : form.valued.contains option = true) (hinner : inner.values.lookup name = none)
      (hgiven : inner.addValue? option value = some given) : given.values.lookup name = none := by
    have hne : name ≠ option := fun heq => hname (heq ▸ List.contains_iff_mem.1 hoption)
    rw [(Given.of_addValue? hgiven).2, OrderedMap.lookup_cons_of_ne hne, hinner]
  fun_induction form.give? items generalizing given with
  | case1 => cases h; rfl
  | case2 => cases h; rfl
  | case3 word text items ih =>
    obtain ⟨inner, hinner, rfl⟩ := Option.map_eq_some_iff.1 h
    have hrest := ih hinner
    exact hrest
  | case5 option value text items hvalued ih =>
    obtain ⟨inner, hinner, hgiven⟩ := Option.bind_eq_some_iff.1 h
    exact hadd hvalued (ih hinner) hgiven
  | case7 option text items hflags ih =>
    obtain ⟨inner, hinner, hgiven⟩ := Option.bind_eq_some_iff.1 h
    rw [Given.values_of_addFlag? hgiven]
    exact ih hinner
  | case8 option text _ hvalued value word items ih =>
    obtain ⟨inner, hinner, hgiven⟩ := Option.bind_eq_some_iff.1 h
    exact hadd hvalued (ih hinner) hgiven
  | _ => cases h

/-- **The path in the arguments is the path in the command**, which has its own if none is given. -/
theorem Invocation.outputPath?_eq {arguments : List String} {invocation : Invocation}
    (h : ofArguments? arguments = some invocation) :
    outputPath? arguments = invocation.command.output? := by
  have hpath : outputPath? arguments =
      (givenOutputs arguments).head?.or invocation.command.ownOutput? := by
    rw [outputPath?, h]
    rfl
  obtain ⟨⟨before, name, after⟩, hleading, h⟩ := Option.bind_eq_some_iff.1 h
  obtain ⟨outer, houter, h⟩ := Option.bind_eq_some_iff.1 h
  obtain ⟨⟨form, make⟩, hentry, h⟩ := Option.bind_eq_some_iff.1 h
  obtain ⟨inner, hinner, h⟩ := Option.bind_eq_some_iff.1 h
  obtain ⟨outerSettings, -, h⟩ := Option.bind_eq_some_iff.1 h
  obtain ⟨innerSettings, -, h⟩ := Option.bind_eq_some_iff.1 h
  obtain ⟨command, hmake, h⟩ := Option.bind_eq_some_iff.1 h
  obtain rfl := Option.some.inj h
  have hmem : (name, form, make) ∈ Command.table := OrderedMap.mem_of_lookup hentry
  have hfront : givenOutputs arguments = givenOutputs after :=
    (Form.spellsOutput (by decide) (by decide) (.inl rfl)).givenOutputs_of_leading? rfl (by decide)
      hleading houter
  rw [hpath, hfront, (Command.spellsOutput_of_table _ hmem).givenOutputs_eq hinner,
    Option.head?_toList]
  refine (Command.output?_of_table _ hmem (fun hnone => ?_) hmake).symm
  refine Form.lookup_eq_none_of_read? (fun hmem => ?_) hinner
  exact (List.mem_cons.1 hmem).elim (by decide) hnone

/-- Behind two dashes alone, what looks like an option is an operand. -/
example : outputPath? ["apply", "--ops=edits.json", "-o", "a.json", "--", "-ob.json"] =
    some "a.json" := by
  decide

end PageTree
