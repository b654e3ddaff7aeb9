import PageTree.Proofs.Render.Likeness
import PageTree.Proofs.Session.Origins
import PageTree.Proofs.Session.ParallelCalls

/-!
# A page in use is the same in every theme

The page of a document in the minimal theme and its page in the themed one, wherever that theme
takes its files from, are two sessions side by side from loading on, unless a binding moves the
focus by a selector: selectors see tags and classes, which differ. So in both everything that is
done with the page reports the same and has the same effect, as far as that can be seen.

## Main definitions

* `Document.IsUnselective`: no binding of a document moves the focus by a selector

## Main results

* `Session.isUnselective_of_load`: then no binding of its page does
* `Session.parallel_fresh`: the two pages are side by side
* `Session.history_themed_eq_minimal`: every sequence of calls has the same history in both
-/

namespace PageTree

/-! ## Pages whose focus moves to nodes only -/

/-- No binding of the document moves the focus by a selector. -/
def Document.IsUnselective (document : Document) : Prop :=
  ∀ node ∈ document.app.preorder, ∀ binding ∈ node.events, binding.IsUnselective

instance (document : Document) : Decidable document.IsUnselective :=
  inferInstanceAs (Decidable (∀ node ∈ document.app.preorder, ∀ binding ∈ node.events,
    binding.IsUnselective))

/-- What is read from the text of an effect that does not move the focus by a selector does not
either. -/
theorem Effect.IsUnselective.of_reread {inTagged : Bool} {d : Nat} {effect effect' : Effect}
    (hread : read inTagged (effect.json.reread d) = some effect') (h : effect.IsUnselective) :
    effect'.IsUnselective := by
  cases effect' with
  | focus target selector =>
    obtain ⟨target', rfl⟩ := eq_focus_of_reread hread
    exact h
  | _ => trivial

namespace Session

open Forest Record

variable {theme : Theme} {defaults : PageDefaults} {document : Document} {s : Session}

/-- **The page of a document** in which no binding moves the focus by a selector has no such
binding either. -/
theorem isUnselective_of_load (h : document.IsReadable) (hfocus : document.IsUnselective)
    (hload : load (document.html theme defaults) = .ok s) : s.IsUnselective := by
  intro i binding' hbinding' effect' heffect'
  obtain ⟨node, hnode, binding, hbinding, effect, heffect, d, hread⟩ :=
    exists_effect_of_load h hload hbinding' heffect'
  exact (hfocus node hnode binding hbinding effect heffect).of_reread hread

/-! ## The two pages of a document -/

section

variable {σ : Placement} {f g : Forest} (h : Paired σ f g)

include h

/-- The state that a page starts in does not depend on the theme. -/
theorem initialState_eq : initialState g = initialState f := by
  have hfound : (g.findFirst? fun e =>
      e.tag == "script" && e.attributes.lookup "id" == some stateScriptId) =
      (f.findFirst? fun e =>
        e.tag == "script" && e.attributes.lookup "id" == some stateScriptId).map σ.place := by
    refine Placement.find?_eq_map (h.tables.preorder h.left h.right) (fun i _ => ?_) fun j hj => ?_
    · beta_reduce
      rw [(h.tables.alike i).tag, (h.tables.alike i).attributes.named "id" (by decide)]
    · have hid : (g.get j).attributes.lookup "id" = none :=
        (h.tables.plain j hj).named "id" (by decide)
      beta_reduce
      rw [hid]
      exact Bool.and_false _
  rw [initialState, initialState, hfound]
  cases hscript : f.findFirst? fun e =>
      e.tag == "script" && e.attributes.lookup "id" == some stateScriptId with
  | none => rfl
  | some script =>
    have hid : f.attribute? script "id" = some stateScriptId := by
      have := List.find?_some hscript
      simp at this
      exact this.2
    have hinner : σ.isFrame script = false := by
      by_contra hframe
      rw [h.bare script (by simpa using hframe) "id" (by decide)] at hid
      cases hid
    dsimp only [Option.map_some]
    rw [h.tables.textContent h.left h.right hinner]

theorem node?_nodeTable (id : String) :
    (nodeTable g).lookup id = ((nodeTable f).lookup id).map σ.place := by
  rw [lookup_nodeTable, lookup_nodeTable]
  refine Placement.find?_eq_map (h.tables.preorder h.left h.right) (fun i _ => ?_) fun j hj => ?_
  · rw [h.tables.attribute? i (by decide)]
  · rw [(h.tables.plain j hj).named idAttribute (by decide)]
    rfl

theorem isFrame_of_nodeTable {id : String} {i : Nat} (hi : (nodeTable f).lookup id = some i) :
    σ.isFrame i = false := by
  rw [lookup_nodeTable] at hi
  have hid : f.attribute? i idAttribute = some id := by simpa using List.find?_some hi
  by_contra hframe
  rw [h.bare i (by simpa using hframe) idAttribute (by decide)] at hid
  cases hid

/-- Pages that were just loaded are side by side if their tables match. -/
theorem parallel_fresh (state : Json) :
    Parallel σ (fresh f state) (fresh g state) (fresh f state) (fresh g state) where
  left := ⟨.refl h.left, rfl⟩
  right := ⟨.refl h.right, rfl⟩
  forest := h.tables
  nodes := node?_nodeTable h
  innerNodes _ _ hi := isFrame_of_nodeTable h hi
  state := rfl
  mounted := rfl
  clock := rfl
  schedule := rfl
  toasts := rfl
  newToasts := nofun
  signals := rfl
  animations := rfl
  animationClasses := rfl
  focused := rfl
  awaited := rfl
  spent := rfl
  errands := rfl

theorem visits_fresh (state : Json) (network : Network) :
    Visit.Parallel σ (fresh f state) (fresh g state) ⟨fresh f state, network⟩
      ⟨fresh g state, network⟩ :=
  ⟨parallel_fresh h state, rfl⟩

end

/-- **A page in use is the same in both themes**, if no binding moves the focus by a selector: it
is loaded in both or in neither, shows the same at first, and whatever is done with it reports the
same and leaves it showing the same. -/
theorem history_themed_eq_minimal (base : String) (defaults : PageDefaults) {document : Document}
    (h : document.IsReadable) (hfocus : document.IsUnselective) (network : Network)
    (interactions : List Interaction) :
    (load (document.html (.themed base) defaults)).map (fun session =>
        (Visit.look { session, network }, Visit.history { session, network } interactions)) =
      (load (document.html .minimal defaults)).map fun session =>
        (Visit.look { session, network }, Visit.history { session, network } interactions) := by
  obtain ⟨σ, hpaired⟩ := document.exists_paired_forest base defaults
  rw [load_html _ _ h, load_html _ _ h, initialState_eq hpaired]
  cases hstate : initialState (document.forest .minimal defaults) with
  | error fault => simp only [Except.map]
  | ok state =>
    have hload : load (document.html .minimal defaults) =
        .ok (fresh (document.forest .minimal defaults) state) := by
      rw [load_html _ _ h, hstate]
      rfl
    have hunselective := isUnselective_of_load h hfocus hload
    have hvisits := visits_fresh hpaired state network
    simp only [Except.map, hvisits.look_eq, hvisits.history_eq hunselective]

/-- A document with a button that moves the focus into a field and says so. -/
def desk : Document where
  version := formatVersion
  app := {
    id := "app"
    kind := Primitive.app.kind
    children := [
      { id := "bell"
        kind := Primitive.button.kind
        text := some "Write"
        events := [{
          event := "click"
          effects := [.focus (some "note") none, .toast (some "Go on") none] }] },
      { id := "note", kind := Primitive.input.kind },
      { id := "news", kind := Primitive.toastRegion.kind }] }

/-- The two pages of the desk are loaded, and a click on the bell is the same in both. -/
theorem history_themed_eq_minimal_desk : ∃ s t,
    load (desk.html .minimal {}) = .ok s ∧ load (desk.html (.themed "/assets") {}) = .ok t ∧
      Visit.history ⟨t, .ofAnswers []⟩ [.mount, .dispatch "bell" "click", .advance 20] =
        Visit.history ⟨s, .ofAnswers []⟩ [.mount, .dispatch "bell" "click", .advance 20] := by
  have hreadable : desk.IsReadable := ⟨by decide +kernel, by decide +kernel⟩
  have hminimal : load (desk.html .minimal {}) = .ok _ :=
    load_of_stateless hreadable (by decide +kernel)
  have hthemed : load (desk.html (.themed "/assets") {}) = .ok _ :=
    load_of_stateless hreadable (by decide +kernel)
  have hsame := history_themed_eq_minimal "/assets" {} hreadable (by decide +kernel)
    (.ofAnswers []) [.mount, .dispatch "bell" "click", .advance 20]
  rw [hminimal, hthemed] at hsame
  exact ⟨_, _, hminimal, hthemed, congrArg Prod.snd (Except.ok.inj hsame)⟩

end Session

end PageTree
