import PageTree.Proofs.Render.Likeness
import PageTree.Proofs.Render.StateScript
import PageTree.Proofs.Session.Courses
import PageTree.Proofs.Session.Dispatch

/-!
# Animations that effects play

An effect plays an animation by a class, made of the name of the animation, and takes a note of it.
When an animation of the element ends, the classes of all notes on the element go. A class is taken
off as one word. So this takes back what effects have done, however often and from wherever they
have run, as long as the names are words. A name with white space in it is added as several words,
and none of these is what the note says; they stay for good.

## Main definitions

* `IsStill`: a class that neither motion nor effects play by
* `Session.Notates`: what is noted on a page, told by its course

## Main results

* `Session.mem_classes_play`, `Session.mem_classes_refresh`: motion adds the class of its preset
* `Session.Course.notates`, `Session.Course.mem_classes_of_animate`: on every course
* `Session.Reaches.endAnimation_takes_back`
-/

namespace PageTree

/-! ## Names of classes -/

theorem hasBlank_append (a b : String) : hasBlank (a ++ b) = (hasBlank a || hasBlank b) := by
  rw [hasBlank, String.toList_append, List.any_append]
  rfl

theorem hasBlank_animateClass (name : String) : hasBlank (animateClass name) = hasBlank name := by
  rw [animateClass, hasBlank_append, (by decide : hasBlank "ir-animate-" = false), Bool.false_or]

theorem animateClass_injective {name other : String} (h : animateClass name = animateClass other) :
    name = other := String.append_right_inj _ |>.1 h

/-- The class for a name without white space is one word. -/
theorem words_animateClass {name : String} (h : hasBlank name = false) :
    words (animateClass name) = [animateClass name] :=
  words_eq_singleton (fun hempty => absurd (String.append_eq_empty_iff.1 hempty).1 (by decide))
    ((hasBlank_animateClass name).trans h)

/-- The class for a preset is one word. -/
theorem words_motionClass (preset : Preset) : words preset.motionClass = [preset.motionClass] := by
  refine words_eq_singleton
    (fun hempty => absurd (String.append_eq_empty_iff.1 hempty).1 (by decide)) ?_
  rw [Preset.motionClass, hasBlank_append]
  cases preset <;> decide

theorem isPrefix_animateClass (name : String) :
    "ir-animate-".toList <+: (animateClass name).toList := by
  rw [animateClass, String.toList_append]
  exact List.prefix_append _ _

theorem isPrefix_motionClass (preset : Preset) :
    "ir-motion-".toList <+: preset.motionClass.toList := by
  rw [Preset.motionClass, String.toList_append]
  exact List.prefix_append _ _

/-- A class that effects play by is none that motion plays by. -/
theorem not_isPrefix_of_isPrefix {c : String} (h : "ir-animate-".toList <+: c.toList) :
    ¬"ir-motion-".toList <+: c.toList := fun hmotion =>
  absurd (List.prefix_of_prefix_length_le hmotion h (by decide)) (by decide)

theorem animateClass_ne_motionClass (name : String) (preset : Preset) :
    animateClass name ≠ preset.motionClass := fun heq =>
  not_isPrefix_of_isPrefix (isPrefix_animateClass name) (heq ▸ isPrefix_motionClass preset)

/-- Neither motion nor an effect plays by this class. -/
def IsStill (c : String) : Prop :=
  ¬"ir-motion-".toList <+: c.toList ∧ ¬"ir-animate-".toList <+: c.toList

instance (c : String) : Decidable (IsStill c) := inferInstanceAs (Decidable (_ ∧ _))

theorem isStill_of_mem_toastClasses : ∀ c ∈ Session.toastClasses, IsStill c := by decide

theorem animateClass_not_mem_toastClasses (name : String) :
    animateClass name ∉ Session.toastClasses := fun hmem =>
  (isStill_of_mem_toastClasses _ hmem).2 (isPrefix_animateClass name)

namespace Session

variable {s₀ s s' t : Session} {cues more : List Cue} {i j : Nat} {c : String}

/-! ## Classes that motion adds -/

theorem classes_foldl_setStyleProperty (i j : Nat) (declarations : List (String × String))
    (f : Forest) :
    (declarations.foldl (fun f d => f.setStyleProperty i d.1 d.2) f).classes j = f.classes j := by
  induction declarations generalizing f with
  | nil => rfl
  | cons d declarations ih => rw [List.foldl_cons, ih, Forest.classes_setStyleProperty]

/-- Motion by a preset adds the class of the preset, and other motion adds none. -/
theorem mem_classes_move {motion : Motion} (h : c ∈ (s.move i motion).forest.classes j) :
    c ∈ s.forest.classes j ∨ j = i ∧ ∃ preset, motion.preset? = some preset ∧
      c = preset.motionClass := by
  cases motion with
  | preset p timing =>
    rw [move, mapForest, classes_foldl_setStyleProperty] at h
    refine (Forest.mem_classes_of_mem_addClass h).imp_right fun hadded => ?_
    rw [words_motionClass, List.mem_singleton] at hadded
    exact ⟨hadded.1, p, rfl, hadded.2⟩
  | keyframes => exact .inl h

theorem mem_classes_move_of_mem (motion : Motion) (h : c ∈ s.forest.classes j) :
    c ∈ (s.move i motion).forest.classes j := by
  cases motion with
  | preset p timing =>
    rw [move, mapForest, classes_foldl_setStyleProperty]
    exact Forest.mem_classes_addClass_of_mem h
  | keyframes => exact h

/-- Playing the motion of an element adds the class of its preset. -/
theorem mem_classes_play (h : c ∈ (s.play i).forest.classes j) :
    c ∈ s.forest.classes j ∨ ∃ motion preset, s.motion? j = some motion ∧
      motion.preset? = some preset ∧ c = preset.motionClass := by
  rw [play] at h
  cases hmotion : s.motion? i with
  | none =>
    rw [hmotion] at h
    exact .inl h
  | some motion =>
    rw [hmotion] at h
    refine (mem_classes_move h).imp_right ?_
    rintro ⟨rfl, preset, hpreset, hc⟩
    exact ⟨motion, preset, hmotion, hpreset, hc⟩

theorem mem_classes_play_of_mem (i : Nat) (h : c ∈ s.forest.classes j) :
    c ∈ (s.play i).forest.classes j := by
  rw [play]
  cases s.motion? i with
  | none => exact h
  | some motion => exact mem_classes_move_of_mem motion h

theorem mem_classes_foldl_play {order : List Nat} (hs : Descends s t)
    (h : c ∈ (order.foldl play t).forest.classes j) :
    c ∈ t.forest.classes j ∨ ∃ motion preset, s.motion? j = some motion ∧
      motion.preset? = some preset ∧ c = preset.motionClass := by
  induction order generalizing t with
  | nil => exact .inl h
  | cons i order ih =>
    rcases ih (hs.play i) h with h | h
    · rw [← motion?_eq_of_descends hs]
      exact mem_classes_play h
    · exact .inr h

/-- A refresh adds classes of presets. -/
theorem mem_classes_refresh (hs : s.forest.WellFormed) (hc : c ∉ toastClasses)
    (h : c ∈ s.refresh.forest.classes j) :
    c ∈ s.forest.classes j ∨ ∃ motion preset, s.motion? j = some motion ∧
      motion.preset? = some preset ∧ c = preset.motionClass := by
  have haligned := Calm.aligned hs
  rw [refresh_eq hs] at h
  exact (mem_classes_foldl_play haligned.descends h).imp_left (haligned.classes j c hc).1

theorem mem_classes_refresh_of_mem (hs : s.forest.WellFormed) (hc : c ∉ toastClasses)
    (h : c ∈ s.forest.classes j) : c ∈ s.refresh.forest.classes j := by
  rw [refresh_eq hs]
  exact List.foldlRecOn (motive := fun t : Session => c ∈ t.forest.classes j) _ _
    (((Calm.aligned hs).classes j c hc).2 h) fun t ht i _ => mem_classes_play_of_mem i ht

/-! ## The end of an animation -/

/-- The classes that are noted for an element. -/
def noted (s : Session) (i : Nat) : List String :=
  (s.animationClasses.filter (·.1 = i)).map Prod.snd

theorem mem_noted : c ∈ s.noted i ↔ (i, c) ∈ s.animationClasses := by
  simp [noted]

theorem classes_foldl_removeClass (entries : List (Nat × String)) (f : Forest) :
    (entries.foldl (fun f entry => f.removeClass i entry.2) f).classes j =
      if j = i then (f.classes j).filter fun c => !(entries.map Prod.snd).contains c
      else f.classes j := by
  induction entries generalizing f with
  | nil => simp
  | cons entry entries ih =>
    rw [List.foldl_cons, ih, Forest.classes_removeClass]
    split_ifs
    · rw [List.filter_filter]
      refine List.filter_congr fun c _ => ?_
      simp [bne, Bool.and_comm]
    · rfl

/-- **When an animation ends** those classes go that are noted for its element. -/
theorem classes_withoutAnimation (s : Session) (i j : Nat) :
    (s.withoutAnimation i).forest.classes j =
      if j = i then (s.forest.classes j).filter fun c => !(s.noted i).contains c
      else s.forest.classes j :=
  classes_foldl_removeClass _ _

/-- The other elements keep their attributes. -/
theorem attribute?_withoutAnimation_of_ne (s : Session) (h : j ≠ i) (name : String) :
    (s.withoutAnimation i).forest.attribute? j name = s.forest.attribute? j name :=
  List.foldlRecOn (motive := fun f : Forest => f.attribute? j name = s.forest.attribute? j name)
    _ _ rfl fun f hf entry _ => (f.attribute?_removeClass_of_ne h entry.2 name).trans hf

/-! ## What is noted -/

theorem forest_animate (s : Session) (name : String) (i : Nat) :
    (s.animate name i).forest = s.forest.addClass i (animateClass name) := rfl

/-- Classes come from motion and from animations that effects play. -/
theorem Beat.mem_classes (hbeat : Beat s cues s') (hs : s.forest.WellFormed) (hc : c ∉ toastClasses)
    (h : c ∈ s'.forest.classes j) :
    c ∈ s.forest.classes j ∨
      (∃ motion preset, s.motion? j = some motion ∧ motion.preset? = some preset ∧
        c = preset.motionClass) ∨
      ∃ name, .animate j name ∈ cues ∧ c ∈ words (animateClass name) := by
  cases hbeat with
  | calm hcalm => exact .inl ((hcalm.classes j c hc).1 h)
  | mount => exact .inl h
  | refresh => exact (mem_classes_refresh hs hc h).imp_right .inl
  | play => exact (mem_classes_play h).imp_right .inl
  | @reveal i =>
    exact (mem_classes_play (s := { s with awaited := s.awaited.erase i }) h).imp_right .inl
  | animate i name =>
    rw [forest_animate] at h
    refine (Forest.mem_classes_of_mem_addClass h).imp_right fun hadded => .inr ⟨name, ?_, hadded.2⟩
    rw [hadded.1]
    exact List.mem_singleton_self _
  | endAnimation i =>
    rw [classes_withoutAnimation] at h
    split_ifs at h
    · exact .inl (List.mem_of_mem_filter h)
    · exact .inl h

/-- Classes go when an animation ends. -/
theorem Beat.mem_classes_of_mem (hbeat : Beat s cues s') (hs : s.forest.WellFormed)
    (hc : c ∉ toastClasses) (h : c ∈ s.forest.classes j) :
    c ∈ s'.forest.classes j ∨ .endAnimation j ∈ cues ∧ c ∈ s.noted j := by
  cases hbeat with
  | calm hcalm => exact .inl ((hcalm.classes j c hc).2 h)
  | mount => exact .inl h
  | refresh => exact .inl (mem_classes_refresh_of_mem hs hc h)
  | play => exact .inl (mem_classes_play_of_mem _ h)
  | @reveal i =>
    exact .inl (mem_classes_play_of_mem (s := { s with awaited := s.awaited.erase i }) i h)
  | animate i name =>
    rw [forest_animate]
    exact .inl (Forest.mem_classes_addClass_of_mem h)
  | endAnimation i =>
    by_cases hnoted : j = i ∧ c ∈ s.noted i
    · obtain ⟨rfl, hnoted⟩ := hnoted
      exact .inr ⟨List.mem_singleton_self _, hnoted⟩
    · left
      rw [classes_withoutAnimation]
      split_ifs with hj
      · exact List.mem_filter.2 ⟨h, by simpa using fun hmem => hnoted ⟨hj, hmem⟩⟩
      · exact h

/-- What is noted for an element goes when its animation ends, and comes with animations. -/
theorem Beat.mem_noted_iff (hbeat : Beat s cues s') (hs : s.forest.WellFormed) :
    c ∈ s'.noted j ↔ c ∈ s.noted j ∧ .endAnimation j ∉ cues ∨
      ∃ name, .animate j name ∈ cues ∧ c = animateClass name := by
  rw [mem_noted, mem_noted]
  cases hbeat with
  | calm hcalm => simp [hcalm.animationClasses]
  | mount => simp [opened]
  | refresh => simp [(underway_refresh hs).refreshes.animationClasses]
  | play => simp [animationClasses_play]
  | reveal => simp [revealed, animationClasses_play]
  | animate i name => simp [Session.animate]
  | endAnimation i => simp [withoutAnimation]

/-- An animation ends by one step. -/
theorem Beat.eq_withoutAnimation (hbeat : Beat s cues s') (h : .endAnimation j ∈ cues) :
    s' = s.withoutAnimation j := by
  cases hbeat with
  | endAnimation i =>
    obtain rfl := Cue.endAnimation.inj (List.mem_singleton.1 h)
    rfl
  | calm => cases h
  | _ => cases List.mem_singleton.1 h

/-- What is noted on a page, told by its course. -/
structure Notates (cues : List Cue) (s : Session) : Prop where
  /-- Each note is of an animation that an effect has played. -/
  named : ∀ i, ∀ c ∈ s.noted i, ∃ name, .animate i name ∈ cues ∧ c = animateClass name
  /-- The class for a name without white space is noted, or was added for another name. -/
  noted : ∀ i name, .animate i name ∈ cues → hasBlank name = false →
    animateClass name ∈ s.forest.classes i → animateClass name ∈ s.noted i ∨
      ∃ other, .animate i other ∈ cues ∧ hasBlank other = true ∧
        animateClass name ∈ words (animateClass other)

theorem Notates.snoc (h : Notates cues s) (hs : s.forest.WellFormed) (hbeat : Beat s more s') :
    Notates (cues ++ more) s' := by
  refine ⟨fun i c hnoted => ?_, fun i name hname hplain hclass => ?_⟩
  · rcases (hbeat.mem_noted_iff hs).1 hnoted with ⟨hnoted, -⟩ | ⟨name, hname, rfl⟩
    · obtain ⟨name, hname, hc⟩ := h.named i c hnoted
      exact ⟨name, List.mem_append_left _ hname, hc⟩
    · exact ⟨name, List.mem_append_right _ hname, rfl⟩
  · -- a class that is new with this step is noted with it, unless it is for a name of several words
    have hnew (other : String) (hother : .animate i other ∈ more)
        (hword : animateClass name ∈ words (animateClass other)) :
        animateClass name ∈ s'.noted i ∨ ∃ other, .animate i other ∈ cues ++ more ∧
          hasBlank other = true ∧ animateClass name ∈ words (animateClass other) := by
      cases hblank : hasBlank other with
      | true => exact .inr ⟨other, List.mem_append_right _ hother, hblank, hword⟩
      | false =>
        rw [words_animateClass hblank, List.mem_singleton] at hword
        exact .inl ((hbeat.mem_noted_iff hs).2 (.inr ⟨other, hother, hword⟩))
    rcases List.mem_append.1 hname with hearlier | hnow
    swap
    · exact hnew name hnow (by simp [words_animateClass hplain])
    rcases hbeat.mem_classes hs (animateClass_not_mem_toastClasses name) hclass with
      hbefore | ⟨motion, preset, -, -, heq⟩ | ⟨other, hother, hword⟩
    · rcases h.noted i name hearlier hplain hbefore with hnoted | ⟨other, hother, hblank, hword⟩
      · refine .inl ((hbeat.mem_noted_iff hs).2 (.inl ⟨hnoted, fun hend => ?_⟩))
        rw [hbeat.eq_withoutAnimation hend, classes_withoutAnimation, if_pos rfl] at hclass
        have hgone := (List.mem_filter.1 hclass).2
        rw [List.contains_iff_mem.2 hnoted] at hgone
        cases hgone
      · exact .inr ⟨other, List.mem_append_left _ hother, hblank, hword⟩
    · exact absurd heq (animateClass_ne_motionClass name preset)
    · exact hnew other hother hword

/-- **Every course leaves notes** of the animations that it has played. -/
theorem Course.notates (hfresh : s₀.IsFresh) (h : Course s₀ cues s) : Notates cues s := by
  induction h with
  | refl =>
    refine ⟨fun i c hnoted => ?_, fun i name hname => absurd hname List.not_mem_nil⟩
    rw [mem_noted, hfresh.animationClasses] at hnoted
    exact absurd hnoted List.not_mem_nil
  | snoc hcourse hbeat ih => exact ih.snoc (hcourse.wellFormed hfresh.wellFormed) hbeat

/-- **The words of a name stay** unless an animation ends and one of them is the class for a
name. -/
theorem Course.mem_classes_of_animate (hfresh : s₀.IsFresh) (h : Course s₀ cues s)
    (hi : i < s₀.forest.size) {name : String} (hname : .animate i name ∈ cues)
    (hword : c ∈ words (animateClass name)) (hc : c ∉ toastClasses)
    (hother : .endAnimation i ∈ cues → ∀ other, .animate i other ∈ cues → c ≠ animateClass other) :
    c ∈ s.forest.classes i := by
  induction h with
  | refl => exact absurd hname List.not_mem_nil
  | @snoc s s' cues more hcourse hbeat ih =>
    have hs := hcourse.wellFormed hfresh.wellFormed
    rcases List.mem_append.1 hname with hearlier | hnow
    · have hbefore := ih hearlier fun hend other hmem =>
        hother (List.mem_append_left _ hend) other (List.mem_append_left _ hmem)
      refine (hbeat.mem_classes_of_mem hs hc hbefore).resolve_right fun hgone => ?_
      obtain ⟨other, hmem, hnamed⟩ := (hcourse.notates hfresh).named i c hgone.2
      exact hother (List.mem_append_right _ hgone.1) other (List.mem_append_left _ hmem) hnamed
    · have hroom := hi.trans_le (hcourse.descends ⟨.refl hfresh.wellFormed, rfl⟩).forest.size
      cases hbeat with
      | animate j other =>
        obtain ⟨rfl, rfl⟩ := Cue.animate.inj (List.mem_singleton.1 hnow)
        rw [forest_animate]
        exact (Forest.mem_classes_addClass hroom i).2 (.inr ⟨rfl, hword⟩)
      | calm => cases hnow
      | _ => cases List.mem_singleton.1 hnow

/-- The end of an animation of a known node does not fail. -/
theorem Reaches.endAnimation_eq {calls : List Call} (h : Reaches s₀ calls s)
    (hs : s₀.forest.WellFormed) {id : String} (hnode : s₀.node? id = some i) :
    s.endAnimation id = .ok (s.withoutAnimation i) := by
  have hs := (h.course hs).descends ⟨.refl hs, rfl⟩
  rw [Session.endAnimation_eq, element_of_node? ((node?_eq hs id).trans hnode)]
  rfl

/-- **The end of an animation takes back what effects have done**, but for names of several words.
Whatever was done with a page, the end of an animation of a known node does not fail. Then a class
that effects have played on its element for a name without white space is there only if it is a word
of the class for another name, one with white space in it. Each word of the class for such a name is
still there, unless it is also the class for another name that effects have played on the element,
or one of toasts. All other classes are still there, in order, and no other element has changed its
class. -/
theorem Reaches.endAnimation_takes_back {html : String} {calls : List Call}
    (hload : load html = .ok s₀) (h : Reaches s₀ calls s) {id : String}
    (hnode : s₀.node? id = some i) :
    Course s₀ (calls.flatMap Call.cues) s ∧ ∃ ended, s.endAnimation id = .ok ended ∧
      (∀ name, .animate i name ∈ calls.flatMap Call.cues → hasBlank name = false →
        animateClass name ∈ ended.forest.classes i →
          ∃ other, .animate i other ∈ calls.flatMap Call.cues ∧ hasBlank other = true ∧
            animateClass name ∈ words (animateClass other)) ∧
      (∀ name, .animate i name ∈ calls.flatMap Call.cues → hasBlank name = true →
        ∀ c ∈ words (animateClass name), c ∈ ended.forest.classes i ∨ c ∈ toastClasses ∨
          ∃ other, .animate i other ∈ calls.flatMap Call.cues ∧ c = animateClass other) ∧
      (∃ gone : List String, (∀ c ∈ gone, ∃ name, .animate i name ∈ calls.flatMap Call.cues ∧
          c = animateClass name) ∧
        ended.forest.classes i = (s.forest.classes i).filter fun c => !gone.contains c) ∧
      ∀ j ≠ i, ended.forest.attribute? j "class" = s.forest.attribute? j "class" := by
  have hfresh := isFresh_of_load hload
  have hcourse := h.course hfresh.wellFormed
  have hend := hcourse.snoc (.endAnimation s i)
  have hcue {j : Nat} {name : String} : .animate j name ∈ calls.flatMap Call.cues ++
      [.endAnimation i] ↔ .animate j name ∈ calls.flatMap Call.cues := by simp
  refine ⟨hcourse, s.withoutAnimation i, h.endAnimation_eq hfresh.wellFormed hnode,
    fun name hname hplain hclass => ?_, fun name hname hblank c hword => ?_,
    ⟨s.noted i, (hcourse.notates hfresh).named i, ?_⟩,
    fun j hj => s.attribute?_withoutAnimation_of_ne hj "class"⟩
  · rcases (hend.notates hfresh).noted i name (hcue.2 hname) hplain hclass with hnoted | hother
    · obtain ⟨-, hkept⟩ | ⟨other, hother, -⟩ :=
        ((Beat.endAnimation s i).mem_noted_iff (hcourse.wellFormed hfresh.wellFormed)).1 hnoted
      · exact absurd (List.mem_singleton_self _) hkept
      · cases List.mem_singleton.1 hother
    · simpa only [hcue] using hother
  · by_cases htoast : c ∈ toastClasses
    · exact .inr (.inl htoast)
    by_cases hother : ∃ other, .animate i other ∈ calls.flatMap Call.cues ∧ c = animateClass other
    · exact .inr (.inr hother)
    · refine .inl (hend.mem_classes_of_animate hfresh (hfresh.lt_size_of_node? id i hnode)
        (hcue.2 hname) hword htoast fun _ other hmem heq => hother ⟨other, hcue.1 hmem, heq⟩)
  · rw [classes_withoutAnimation, if_pos rfl]

/-- The animations that effects play, with their elements. -/
def animated (cues : List Cue) : List (Nat × String) :=
  cues.filterMap fun
    | .animate i name => some (i, name)
    | _ => none

theorem mem_animated {name : String} : (i, name) ∈ animated cues ↔ .animate i name ∈ cues := by
  rw [animated, List.mem_filterMap]
  constructor
  · rintro ⟨cue, hcue, heq⟩
    cases cue with
    | animate => cases heq; exact hcue
    | _ => cases heq
  · exact fun hcue => ⟨_, hcue, rfl⟩

/-- Markup with a button that plays two animations on itself. -/
def shaker : String :=
  "<button data-ir-id=b data-ir-events='[[\"click\",[],[[\"runAnimation\"," ++
    "null,\"shake\"],[\"runAnimation\",null," ++ "\"a b\"]]]]'></button>"

/-- One of them is taken back, and the words of the other one stay. -/
theorem Reaches.endAnimation_takes_back_shaker : ∃ s₀ calls s ended, load shaker = .ok s₀ ∧
    Reaches s₀ calls s ∧ s₀.node? "b" = some 1 ∧
    s.forest.classes 1 = ["ir-animate-shake", "ir-animate-a", "b"] ∧
    s.endAnimation "b" = .ok ended ∧ "ir-animate-shake" ∉ ended.forest.classes 1 ∧
    "ir-animate-a" ∈ ended.forest.classes 1 ∧ "b" ∈ ended.forest.classes 1 := by
  obtain ⟨s₀, calls, s, hload, hcalls, hviews⟩ :=
    exists_reaches_of_calls (ofList_append_append _ _ _ : shaker = _) (.ofAnswers [])
      [.dispatch "b" "click"] (fun s₀ calls s =>
        (s₀.node? "b", animated (calls.flatMap Call.cues), s.forest.classes 1))
      (some 1, [(1, "shake"), (1, "a b")], ["ir-animate-shake", "ir-animate-a", "b"])
      (by decide +kernel)
  simp only [Prod.mk.injEq] at hviews
  obtain ⟨hnode, hcues, hclasses⟩ := hviews
  have hcue (name : String) : .animate 1 name ∈ calls.flatMap Call.cues ↔
      name = "shake" ∨ name = "a b" := by
    rw [← mem_animated, hcues]
    simp
  obtain ⟨-, ended, hended, htaken, hstays, -⟩ := hcalls.endAnimation_takes_back hload hnode
  have hplain {c : String} (hc : c ∈ ["ir-animate-a", "b"]) : c ∈ ended.forest.classes 1 := by
    have hwords : words (animateClass "a b") = ["ir-animate-a", "b"] := by decide
    refine (hstays "a b" ((hcue _).2 (.inr rfl)) (by decide) c
      (hwords ▸ hc)).resolve_right ?_
    have hother : ∀ c ∈ ["ir-animate-a", "b"], c ∉ toastClasses ∧ c ≠ animateClass "shake" ∧
        c ≠ animateClass "a b" := by decide
    rintro (htoast | ⟨other, hmem, heq⟩)
    · exact (hother c hc).1 htoast
    · rcases (hcue other).1 hmem with rfl | rfl
      · exact (hother c hc).2.1 heq
      · exact (hother c hc).2.2 heq
  refine ⟨s₀, calls, s, ended, hload, hcalls, hnode, hclasses, hended, fun hclass => ?_,
    hplain (by simp), hplain (by simp)⟩
  obtain ⟨other, hmem, hblank, hword⟩ :=
    htaken "shake" ((hcue _).2 (.inl rfl)) (by decide) hclass
  have hnone : ∀ other ∈ ["shake", "a b"], hasBlank other = true →
      animateClass "shake" ∉ words (animateClass other) := by decide
  exact hnone other (by simpa using (hcue other).1 hmem) hblank hword

/-- A button that plays an animation on itself. -/
def clapper (name : String) : Node where
  id := "b"
  kind := Primitive.button.kind
  events := [{ event := "click", effects := [.animate none (some name)] }]

/-- A document with it. -/
def bell (name : String) : Document where
  version := formatVersion
  app := { id := "app", kind := Primitive.app.kind, children := [clapper name] }

section

variable (name : String)

theorem preorder_bell : (bell name).app.preorder = [(bell name).app, clapper name] := rfl

theorem isReadable_bell : (bell name).IsReadable :=
  ⟨of_decide_eq_true rfl, List.forall_mem_nil _⟩

theorem read?_bell : Document.read? (bell name).compact = some (bell name) := by
  have hread : Document.read (bell name).json.literal = some (bell name) := rfl
  have hliteral := Json.reread_eq_literal (of_decide_eq_true rfl : (bell name).json.Steady)
    (of_decide_eq_true rfl : (bell name).json.depth ≤ maxDepth)
  rw [Document.read?, Document.compact, Literal.read?_compact, hliteral]
  exact hread

theorem trails_bell : [clapper name, (bell name).app] ∈ (bell name).app.trails .minimal [] := by
  have happ : isVoid (Theme.minimal.opening Primitive.app.kind []).tag = false := by decide
  simp only [bell, Node.trails, Node.trailsAll, happ, Bool.false_eq_true, if_false]
  simp [clapper, Node.trails]

end

/-- The page of the document, with the element of the button, its classes and what a click does to
motion. -/
theorem load_bell {name : String} (hname : stated (some name) = some name) :
    ∃ s i, load ((bell name).html .minimal {}) = .ok s ∧ s.node? "b" = some i ∧
      s.forest.classes i = [] ∧
      (s.eventLog "click" i).flatMap Execution.cues = [.animate i name] := by
  obtain ⟨s, hload⟩ : ∃ s, load ((bell name).html .minimal {}) = .ok s :=
    ⟨_, load_of_stateless (isReadable_bell name) (Document.isOther_page rfl .minimal {})⟩
  have hshows := shows_of_load (isReadable_bell name) hload
  obtain ⟨i, hi, hmarked, hbears⟩ := hshows.exists_of_mem_trails (trails_bell name)
  obtain ⟨around, haround⟩ := hshows.marks_eq_cons hi hmarked
  have hself := hbears
  rw [haround, List.forall₂_cons] at hself
  have hids : (bell name).ids.Nodup := of_decide_eq_true rfl
  have hnode := hshows.node?_eq hids hi hself.1.id_eq
  refine ⟨s, i, hload, hnode, ?_, ?_⟩
  · rw [hself.1.classes_eq]
    rfl
  · rcases hshows.closest?_events hi hbears with ⟨-, hnone⟩ | ⟨j, source, hfound, hsome, hsource⟩
    · cases hnone
    obtain rfl : clapper name = source := Option.some.inj hsome
    have hmem := hshows.mem_preorder_of_mem_lineage hi (List.mem_of_find?_eq_some hfound)
    obtain rfl : j = i :=
      Option.some.inj ((hshows.node?_eq hids hmem hsource.id_eq).symm.trans hnode)
    have hin : clapper name ∈ (bell name).app.preorder := by simp [preorder_bell]
    have hbindings : s.bindings j = (clapper name).events :=
      bindings_eq hsource (Document.ownSurvives_of_read? (read?_bell name) (clapper name) hin)
        (of_decide_eq_true rfl) ⟨.refl hshows.wellFormed, rfl⟩
    rw [eventLog, eventLogWith, hfound]
    dsimp only
    have hself : s.animationTarget? none j = some j := rfl
    rw [hbindings]
    simp [clapper, bindingsLog, effectsLog, effectLog, Execution.cues, hself, hname]

/-- A click on the button plays its animation and no other, and ends none. -/
theorem ring_bell {name : String} (hname : stated (some name) = some name) :
    ∃ s₀ i calls s, load ((bell name).html .minimal {}) = .ok s₀ ∧ Reaches s₀ calls s ∧
      s₀.node? "b" = some i ∧ s₀.forest.classes i = [] ∧
      (∀ other, .animate i other ∈ calls.flatMap Call.cues ↔ other = name) ∧
      .endAnimation i ∉ calls.flatMap Call.cues := by
  obtain ⟨s₀, i, hload, hnode, hfresh, hcues⟩ := load_bell hname
  have hstart : Call.start? ⟨s₀, .ofAnswers [], .dispatch "b" "click"⟩ =
      some ⟨s₀, "click", i, some .onPress⟩ := by
    simp [Call.start?, dispatchStart?, heardEvents, hnode, refocus]
  obtain ⟨_, hperform⟩ := perform_of_start? hstart
  have hanswers {cue : Cue} (hcue : ∀ page, cue ≠ .refresh page) {writes : List (String × Json)}
      {s : Session} : cue ∉ writeCues writes s := fun hmem =>
    (eq_refresh_of_mem_writeCues hmem).elim hcue
  refine ⟨s₀, i, _, _, hload, Reaches.start.call hperform, hnode, hfresh, ?_⟩
  rw [List.nil_append, List.flatMap_singleton, Call.cues]
  dsimp only
  rw [hstart, Option.map_some, Option.getD_some, Start.cues, hcues]
  simp [hanswers]

/-- **Animations may leave classes behind**: of a name with white space in it no word is the class
that was noted. -/
theorem not_forall_endAnimation_cleans_up : ¬∀ theme defaults (document : Document) s₀ calls s,
    document.IsReadable → load (document.html theme defaults) = .ok s₀ → Reaches s₀ calls s →
    ∀ id i, s₀.node? id = some i → ∀ ended, s.endAnimation id = .ok ended →
      ∀ name, .animate i name ∈ calls.flatMap Call.cues → ∀ c ∈ words (animateClass name),
        c ∉ s₀.forest.classes i → c ∉ ended.forest.classes i := by
  intro hall
  obtain ⟨s₀, i, calls, s, hload, hcalls, hnode, hbefore, hanimates, -⟩ :=
    ring_bell (by decide : stated (some "a b") = some "a b")
  have hfresh := isFresh_of_load hload
  have hplayed := (hanimates "a b").2 rfl
  have hword : "ir-animate-a" ∈ words (animateClass "a b") := by decide
  have hnew : "ir-animate-a" ∉ s₀.forest.classes i := by
    rw [hbefore]
    exact List.not_mem_nil
  have hended := (hcalls.course hfresh.wellFormed).snoc (.endAnimation s i)
  refine hall .minimal {} (bell "a b") s₀ calls s (isReadable_bell "a b") hload hcalls "b" i hnode _
    (hcalls.endAnimation_eq hfresh.wellFormed hnode) "a b" hplayed "ir-animate-a" hword hnew ?_
  refine hended.mem_classes_of_animate hfresh (hfresh.lt_size_of_node? "b" i hnode)
    (List.mem_append_left _ hplayed) hword (by decide) fun _ other hother => ?_
  have hname : .animate i other ∈ calls.flatMap Call.cues := by simpa using hother
  rw [(hanimates other).1 hname]
  decide

end Session

end PageTree
