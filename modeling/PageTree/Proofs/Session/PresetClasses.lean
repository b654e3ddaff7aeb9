import PageTree.Proofs.Render.Elements
import PageTree.Proofs.Render.Likeness
import PageTree.Proofs.Render.Presets
import PageTree.Proofs.Session.Animating
import PageTree.Proofs.Session.Origins

/-!
# The classes that presets play by

The rules of presets are chosen when a page is written, by a look at the nodes of its document. The
classes come on the elements when the page is used, from motion and from effects, and the page knows
both only as texts of attributes. Here each class is followed back: a page that was just loaded has
no such class, on its way it gets those of the motions and of the effects that it was loaded with,
and these are the ones of its nodes. So whatever is done with a page, no preset plays on it that is
not defined in its head.

## Main definitions

* `IsPresetClass`: a class that a preset plays by
* `Document.HasPlainNames`: no name of an animation has white space in it

## Main results

* `Document.isStill_of_mem_classes`: a page that was just loaded has still classes
* `Session.Runs.forall_effect`: what is true of the effects of bindings is true of those that run
* `Session.Course.mem_classes`: where the classes of a page come from
* `Session.plays_defined_presets`
-/

namespace PageTree

open Markup

/-! ## Classes that nothing plays by -/

/-- Where no name of such a class begins, all classes are still. -/
theorem isStill_of_not_infix {text : String} {chars : List Char} (htext : text = .ofList chars)
    (h : ¬['i', 'r', '-', 'm'] <:+: chars ∧ ¬['i', 'r', '-', 'a'] <:+: chars) :
    ∀ c ∈ words text, IsStill c := by
  intro c hc
  obtain ⟨word, hword, rfl⟩ := List.mem_map.1 hc
  rw [htext, String.toList_ofList] at hword
  have hin := Text.infix_of_mem_wordsBy hword
  have hstart {start front : List Char} (hfront : front <+: start) (hnot : ¬front <:+: chars) :
      ¬start <+: (String.ofList word).toList := by
    rw [String.toList_ofList]
    exact fun hstart => hnot ((hfront.trans hstart).isInfix.trans hin)
  exact ⟨hstart (by decide) h.1, hstart (by decide) h.2⟩

theorem Themed.isStill_of_mem_classTexts :
    ∀ text ∈ classTexts, ∀ c ∈ words text, IsStill c := by
  simp only [classTexts, List.forall_mem_cons, List.not_mem_nil, false_implies, implies_true,
    and_true]
  and_intros <;> exact isStill_of_not_infix rfl (by decide)

/-- The classes of nodes in a theme are still. -/
theorem Theme.isStill_opening (theme : Theme) (kind : NodeKind) (props : Props) :
    ∀ c ∈ words (theme.opening kind props).attributes.classText, IsStill c := by
  cases theme with
  | themed base =>
    by_cases hkind : kind.primitive? = some .toastRegion
    · have hregion : ∀ c ∈ words "fluent-toast-region", IsStill c := by decide
      rw [opening, Themed.opening, hkind]
      exact hregion
    · exact Themed.isStill_of_mem_classTexts _ (Themed.classText_opening hkind props)
  | minimal =>
    rw [opening, OrderedMap.classText, Minimal.lookup_class_opening]
    exact fun c hc => absurd hc List.not_mem_nil

namespace Markup

/-- All classes that attributes name are still. -/
def HasStillClasses (attributes : List Attribute) : Prop :=
  ∀ c ∈ words (Attribute.toMap attributes).classText, IsStill c

theorem hasStillClasses_of_names {attributes : List Attribute}
    (h : "class" ∉ attributes.map (·.name)) : HasStillClasses attributes := by
  have hnone : (Attribute.toMap attributes).lookup "class" = none := by
    refine OrderedMap.lookup_eq_none_iff.2 fun hin => h ?_
    rwa [OrderedMap.names, Attribute.toMap, List.map_map] at hin
  rw [HasStillClasses, OrderedMap.classText, hnone]
  exact fun c hc => absurd hc List.not_mem_nil

theorem HasLook.hasStillClasses {looks : List String} {attributes : List Attribute}
    (h : HasLook looks attributes) (hlooks : ∀ look ∈ looks, ∀ c ∈ words look, IsStill c) :
    HasStillClasses attributes := by
  rw [HasStillClasses, OrderedMap.classText]
  cases hvalue : (Attribute.toMap attributes).lookup "class" with
  | none => exact fun c hc => absurd hc List.not_mem_nil
  | some value =>
    obtain ⟨a, ha, hentry⟩ := List.mem_map.1 (OrderedMap.mem_of_lookup hvalue)
    obtain ⟨hname, rfl⟩ := Prod.mk.inj hentry
    exact hlooks _ (h a ha hname)

end Markup

namespace Node

theorem isStill_partLooks (theme : Theme) :
    ∀ look ∈ partLooks theme.partName, ∀ c ∈ words look, IsStill c := by
  have hnames : ∀ name ∈ ["fluent", "ir"], ∀ look ∈ partLooks name,
      ¬['i', 'r', '-', 'm'] <:+: look.toList ∧ ¬['i', 'r', '-', 'a'] <:+: look.toList := by
    decide
  have hname : theme.partName ∈ ["fluent", "ir"] := by
    cases theme with
    | _ => simp [Theme.partName]
  exact fun look hlook =>
    isStill_of_not_infix String.ofList_toList.symm (hnames _ hname look hlook)

/-- **Nodes and their parts have still classes.** -/
theorem governs_isStill (theme : Theme) :
    Governs (fun _ attributes => HasStillClasses attributes) theme where
  node node := by
    rw [HasStillClasses, toMap_ofEntry, classText_attributes]
    exact theme.isStill_opening node.kind node.props
  part _ _ _ hlook := hlook.hasStillClasses (isStill_partLooks theme)

end Node

/-- **A page that was just written has still classes.** -/
theorem Document.isStill_of_mem_classes {theme : Theme} {defaults : PageDefaults}
    {document : Document} {i : Nat} {c : String}
    (h : c ∈ (document.forest theme defaults).classes i) : IsStill c := by
  by_cases hi : i ∈ (document.forest theme defaults).preorder
  · rw [Document.forest, Forest.preorder_ofOutlines, List.mem_range'_1] at hi
    obtain ⟨-, attributes, hstill, -, hrow⟩ := Forest.comes_of_everyAll
      (everyAll_page (fun _ _ _ hnames => hasStillClasses_of_names hnames)
        ((Node.governs_isStill theme).markup document.app) defaults)
      (Forest.laidAll_ofOutlines (document.outlines theme defaults)) i hi.1 hi.2
    rw [Forest.classes, Forest.attribute?, Document.forest, hrow] at h
    exact hstill c h
  · rw [Forest.classes, Session.attribute?_of_not_mem_preorder hi] at h
    exact absurd h List.not_mem_nil

/-! ## Classes that presets play by -/

/-- A class that motion by a preset adds, or an effect that names a preset. -/
def IsPresetClass (c : String) : Prop :=
  "ir-motion-".toList <+: c.toList ∨ ∃ preset : Preset, c = animateClass (Vocabulary.name preset)

theorem IsStill.not_isPresetClass {c : String} (h : IsStill c) : ¬IsPresetClass c := by
  rintro (hmotion | ⟨preset, rfl⟩)
  · exact h.1 hmotion
  · exact h.2 (isPrefix_animateClass _)

/-- Of the classes for names of animations, those for names of presets are classes that presets play
by. -/
theorem isPresetClass_animateClass {name : String} :
    IsPresetClass (animateClass name) ↔ ∃ preset : Preset, name = Vocabulary.name preset := by
  constructor
  · rintro (hmotion | ⟨preset, heq⟩)
    · exact absurd hmotion (not_isPrefix_of_isPrefix (isPrefix_animateClass name))
    · exact ⟨preset, animateClass_injective heq⟩
  · rintro ⟨preset, rfl⟩
    exact .inr ⟨preset, rfl⟩

/-- No effect of the document names an animation with white space in its name. -/
def Document.HasPlainNames (document : Document) : Prop :=
  ∀ node ∈ document.app.preorder, ∀ binding ∈ node.events, ∀ target name,
    .animate target (some name) ∈ binding.effects → hasBlank name = false

/-! ## Which effects run -/

/-- All effects that a task names satisfy a condition. -/
def Task.All (P : Effect → Prop) : Task → Prop
  | .effect _ item => P item
  | .effects _ items => ∀ item ∈ items, P item
  | .bindings _ _ items => ∀ binding ∈ items, ∀ item ∈ binding.effects, P item
  | .event _ _ | .blur _ | .focus _ => True

namespace Session

variable {s₀ s s' : Session} {cues : List Cue} {calls : List Call} {i j : Nat} {c : String}

/-- **What is true of the effects of all bindings is true of all effects that run.** -/
theorem Runs.forall_effect {P : Effect → Prop} {task : Task} {n m : Nested} {a : Trace}
    (hbindings : ∀ i, ∀ binding ∈ s₀.bindings i, ∀ effect ∈ binding.effects, P effect)
    (h : Runs task n a m) (hn : Descends s₀ n.session) (htask : task.All P) :
    ∀ entry ∈ a, P entry.2.effect := by
  induction h with
  | act => exact List.forall_mem_singleton.2 htask
  | move _ _ ih => exact List.forall_mem_cons.2 ⟨htask, ih hn trivial⟩
  | effectsNil | bindingsNil | eventNone | blurNone | stay | suppress =>
    exact List.forall_mem_nil _
  | effectsCons hfirst _ ihFirst ihRest =>
    obtain ⟨heffect, heffects⟩ := List.forall_mem_cons.1 htask
    exact List.forall_mem_append.2 ⟨ihFirst hn heffect, ihRest (hfirst.descends hn) heffects⟩
  | bindingsSkip _ _ ih => exact ih hn (List.forall_mem_cons.1 htask).2
  | bindingsCons _ hfirst _ ihFirst ihRest =>
    obtain ⟨hbinding, hrest⟩ := List.forall_mem_cons.1 htask
    exact List.forall_mem_append.2 ⟨ihFirst hn hbinding, ihRest (hfirst.descends hn) hrest⟩
  | eventSome _ _ ih =>
    refine ih hn ?_
    rw [bindings_eq_of_descends hn]
    exact hbindings _
  | blurSome _ ih => exact ih hn trivial
  | @nest _ s _ _ _ _ _ _ _ hblur _ ihBlur ihFocus =>
    have hstart : Descends s₀ { s with focused := none } := hn.of_forest hn.forest rfl
    have hleft := hblur.descends hstart
    have hinside := List.forall_mem_append.2
      ⟨ihBlur hstart trivial, ihFocus (hleft.of_forest hleft.forest rfl) trivial⟩
    intro entry hentry
    obtain ⟨inner, hinner, rfl⟩ := List.mem_map.1 hentry
    exact hinside inner hinner

/-- **Animations come from bindings**: what a page plays, it was loaded with. -/
theorem Reaches.exists_binding_of_animate (h : Reaches s₀ calls s) (hs : s₀.forest.WellFormed)
    {name : String} (hcue : .animate i name ∈ calls.flatMap Call.cues) :
    ∃ j, ∃ binding ∈ s₀.bindings j, ∃ target, .animate target (some name) ∈ binding.effects := by
  induction h with
  | start => exact absurd hcue List.not_mem_nil
  | @call calls s network interaction report v hbefore hperform ih =>
    rw [List.flatMap_append, List.flatMap_singleton] at hcue
    rcases List.mem_append.1 hcue with hearlier | hnow
    · exact ih hearlier
    obtain ⟨start, hstart, execution, hmem, target, heffect⟩ :=
      Call.exists_of_animate_mem_cues hnow
    obtain ⟨trace, hruns, hlog⟩ := settles_event start.event start.target start.session
    rw [← hlog] at hmem
    obtain ⟨entry, hentry, rfl⟩ := List.mem_map.1 hmem
    have hfound := (hbefore.course hs).descends ⟨.refl hs, rfl⟩
    have hbegun := hfound.trans (calm_start? hfound.forest.wellFormed hstart).descends
    obtain ⟨j, binding, hbinding, hin⟩ := hruns.forall_effect
      (P := fun effect => ∃ j, ∃ binding ∈ s₀.bindings j, effect ∈ binding.effects)
      (fun j binding hbinding effect heffect => ⟨j, binding, hbinding, heffect⟩) hbegun trivial
      entry hentry
    exact ⟨j, binding, hbinding, target, heffect ▸ hin⟩

/-! ## Which classes come -/

/-- **Where classes come from**: a class was there from the start, or it came with a motion of the
page or with an animation that an effect played. -/
theorem Course.mem_classes (h : Course s₀ cues s) (hs : s₀.forest.WellFormed)
    (hc : c ∉ toastClasses) (hmem : c ∈ s.forest.classes i) :
    c ∈ s₀.forest.classes i ∨
      (∃ motion preset, s₀.motion? i = some motion ∧ motion.preset? = some preset ∧
        c = preset.motionClass) ∨
      ∃ name, .animate i name ∈ cues ∧ c ∈ words (animateClass name) := by
  induction h with
  | refl => exact .inl hmem
  | @snoc s s' cues more hcourse hbeat ih =>
    have hdescends := hcourse.descends ⟨.refl hs, rfl⟩
    rcases hbeat.mem_classes hdescends.forest.wellFormed hc hmem with
      hbefore | ⟨motion, preset, hmotion, hpreset, rfl⟩ | ⟨name, hcue, hword⟩
    · refine (ih hbefore).imp_right (Or.imp_right ?_)
      rintro ⟨name, hcue, hword⟩
      exact ⟨name, List.mem_append_left _ hcue, hword⟩
    · rw [motion?_eq_of_descends hdescends] at hmotion
      exact .inr (.inl ⟨motion, preset, hmotion, hpreset, rfl⟩)
    · exact .inr (.inr ⟨name, List.mem_append_right _ hcue, hword⟩)

section

variable {theme : Theme} {defaults : PageDefaults} {document : Document}
  (h : document.IsReadable) (hload : load (document.html theme defaults) = .ok s₀)

include h hload

/-- The motion of an element plays a preset of its page. -/
theorem mem_presets_of_motion {motion : Motion} {preset : Preset}
    (hmotion : s₀.motion? i = some motion) (hpreset : motion.preset? = some preset) :
    preset ∈ document.presets := by
  obtain ⟨node, hnode, own, hown, heq⟩ := exists_motion_of_load h hload hmotion
  refine document.mem_presets.2 ⟨node, hnode, .inl ?_⟩
  rw [hown, Option.bind_some, ← heq, hpreset]

/-- What effects play on a page, effects of nodes name. -/
theorem exists_node_of_animate (hcalls : Reaches s₀ calls s) {name : String}
    (hcue : .animate i name ∈ calls.flatMap Call.cues) :
    ∃ node ∈ document.app.preorder, ∃ binding ∈ node.events, ∃ target,
      .animate target (some name) ∈ binding.effects := by
  obtain ⟨j, binding', hbinding', target, heffect'⟩ :=
    hcalls.exists_binding_of_animate (isFresh_of_load hload).wellFormed hcue
  obtain ⟨node, hnode, binding, hbinding, effect, heffect, d, hread⟩ :=
    exists_effect_of_load h hload hbinding' heffect'
  obtain ⟨target', rfl⟩ := Effect.eq_animate_of_reread hread
  exact ⟨node, hnode, binding, hbinding, target', heffect⟩

/-- A class that a preset plays by is one of a preset of the page. -/
theorem exists_preset_of_mem_classes (hplain : document.HasPlainNames)
    (hcalls : Reaches s₀ calls s) {page : Session} (hcues : cues <+: calls.flatMap Call.cues)
    (hpage : Course s₀ cues page) (hmem : c ∈ page.forest.classes i) (hc : IsPresetClass c) :
    ∃ preset ∈ document.presets, c ∈ preset.classes := by
  have htoast : c ∉ toastClasses := fun htoast =>
    (isStill_of_mem_toastClasses c htoast).not_isPresetClass hc
  rcases hpage.mem_classes (isFresh_of_load hload).wellFormed htoast hmem with
    hstart | ⟨motion, preset, hmotion, hpreset, rfl⟩ | ⟨name, hcue, hword⟩
  · rw [forest_of_load h hload] at hstart
    exact absurd hc (Document.isStill_of_mem_classes hstart).not_isPresetClass
  · exact ⟨preset, mem_presets_of_motion h hload hmotion hpreset, List.mem_cons_self⟩
  · obtain ⟨node, hnode, binding, hbinding, target, heffect⟩ :=
      exists_node_of_animate h hload hcalls (hcues.subset hcue)
    -- a name without white space is added as one class, which no other name has
    rw [words_animateClass (hplain node hnode binding hbinding target name heffect),
      List.mem_singleton] at hword
    subst hword
    obtain ⟨preset, rfl⟩ := isPresetClass_animateClass.1 hc
    exact ⟨preset, document.mem_presets.2 ⟨node, hnode, .inr ⟨binding, hbinding, target, heffect⟩⟩,
      List.mem_cons_of_mem _ List.mem_cons_self⟩

end

/-- **Every preset that can play is defined, once.** The presets of a page have no repetitions, they
are those that nodes move by or that effects of nodes name, and they are listed by first use. The
head of the page has one block with their rules in this order, and none if there are no presets. If
the page can be read back and no name of an animation has white space in it, then whatever is done
with the page, a class that a preset plays by is on an element, in the course of a call or after it,
only if it is one of a preset of the page and there are rules for it in that block. -/
theorem plays_defined_presets (theme : Theme) (defaults : PageDefaults) (document : Document) :
    document.presets.Nodup ∧
      (∀ preset, preset ∈ document.presets ↔
        ∃ node ∈ document.app.preorder, node.motion.bind Motion.preset? = some preset ∨
          ∃ binding ∈ node.events, ∃ target,
            .animate target (some (Vocabulary.name preset)) ∈ binding.effects) ∧
      (document.presets.Pairwise fun a b =>
        document.presetUses.idxOf a < document.presetUses.idxOf b) ∧
      (document.headParts theme defaults).filter Document.isPresetBlock =
        (if document.presets = [] then []
        else [Document.sheetElement "ir-motion-presets"
          ("\n".intercalate (document.presets.map Preset.sheet))]) ∧
      (document.IsReadable → document.HasPlainNames → ∀ s₀,
        load (document.html theme defaults) = .ok s₀ → ∀ calls s, Reaches s₀ calls s →
        Course s₀ (calls.flatMap Call.cues) s ∧
          ∀ cues page, cues <+: calls.flatMap Call.cues → Course s₀ cues page →
            ∀ i, ∀ c ∈ page.forest.classes i, IsPresetClass c →
              (∃ preset ∈ document.presets, c ∈ preset.classes) ∧
                Defines document.presetRules c) := by
  refine ⟨document.nodup_presets, fun _ => document.mem_presets, document.presets_by_first_use,
    document.filter_headParts theme defaults, fun h hplain s₀ hload calls s hcalls => ?_⟩
  refine ⟨hcalls.course (isFresh_of_load hload).wellFormed,
    fun cues page hcues hpage i c hmem hc => ?_⟩
  obtain ⟨preset, hpreset, hin⟩ :=
    exists_preset_of_mem_classes h hload hplain hcalls hcues hpage hmem hc
  exact ⟨⟨preset, hpreset, hin⟩, document.defines_presetRules hpreset hin⟩

theorem hasPlainNames_bell {name : String} (h : hasBlank name = false) :
    (bell name).HasPlainNames := by
  intro node hnode binding hbinding target other heffect
  rw [preorder_bell, List.mem_cons, List.mem_singleton] at hnode
  obtain rfl | rfl := hnode
  · exact absurd hbinding List.not_mem_nil
  · obtain rfl := List.mem_singleton.1 hbinding
    obtain ⟨-, hname⟩ := Effect.animate.inj (List.mem_singleton.1 heffect)
    rwa [Option.some.inj hname]

/-- A click on the button plays the preset that it names, and the page has the rules for this. -/
theorem plays_defined_presets_bell : ∃ s₀ i calls s,
    load ((bell "shake").html .minimal {}) = .ok s₀ ∧ Reaches s₀ calls s ∧
    "ir-animate-shake" ∉ s₀.forest.classes i ∧ "ir-animate-shake" ∈ s.forest.classes i ∧
    Defines (bell "shake").presetRules "ir-animate-shake" := by
  obtain ⟨s₀, i, calls, s, hload, hcalls, hnode, hbefore, hanimates, hends⟩ :=
    ring_bell (by decide : stated (some "shake") = some "shake")
  have hfresh := isFresh_of_load hload
  have hnew : "ir-animate-shake" ∉ s₀.forest.classes i := by
    rw [hbefore]
    exact List.not_mem_nil
  obtain ⟨-, -, -, -, hplays⟩ := plays_defined_presets .minimal {} (bell "shake")
  obtain ⟨hcourse, hdefined⟩ := hplays (isReadable_bell "shake")
    (hasPlainNames_bell (by decide)) s₀ hload calls s hcalls
  have hplayed : "ir-animate-shake" ∈ s.forest.classes i := by
    refine hcourse.mem_classes_of_animate hfresh (hfresh.lt_size_of_node? "b" i hnode)
      ((hanimates "shake").2 rfl) (by decide) (by decide) fun hend => ?_
    exact absurd hend hends
  exact ⟨s₀, i, calls, s, hload, hcalls, hnew, hplayed,
    (hdefined _ s List.prefix_rfl hcourse i _ hplayed (.inr ⟨.shake, rfl⟩)).2⟩

end Session

end PageTree
