import PageTree.Proofs.Session.RisingEdges

/-!
# Motion that plays once

A page is mounted once; mounting it again does nothing. Then the motion on mount of each element in
the document plays, and motion on visible is awaited. It plays when its element comes into view for
the first time, and is not awaited any more from then on. Nothing else has more awaited or plays
such motion: an event looks for motion on press or on hover, and a refresh for motion on state.

An element that a text has taken out of the document before the page is mounted stays out, and its
motion on mount never plays.

## Main definitions

* `Call.plays`: the elements whose motion a call plays
* `Session.Unseen`: the element was there when the page was mounted, and has not come into view
  since

## Main results

* `Session.Reaches.presents`: what is awaited, told by the calls so far
* `Session.Reaches.plays_once`
* `Session.not_forall_plays_on_mount`: an element that moves on mount and never does
-/

namespace PageTree

/-- The elements whose motion a call plays, one after the other. -/
def Call.plays (call : Call) : List Nat := call.cues.flatMap Cue.played

/-- The cue has to do with mounting the page or with what comes into view. -/
def Cue.isEntrance : Cue → Bool
  | .mount | .reveal _ => true
  | .refresh _ | .play _ | .animate _ _ | .endAnimation _ => false

namespace Session

variable {s₀ s s' : Session} {i : Nat} {motion : Motion} {cues : List Cue} {calls : List Call}
  {network : Network} {interaction : Interaction}

/-! ## What changes what is awaited -/

theorem awaited_refresh (hs : s.forest.WellFormed) : s.refresh.awaited = s.awaited :=
  (underway_refresh hs).refreshes.awaited

theorem mounted_refresh (hs : s.forest.WellFormed) : s.refresh.mounted = s.mounted :=
  (underway_refresh hs).refreshes.mounted

/-- Steps that are no entrance leave the page mounted or not, and the same elements awaited. -/
theorem Course.keeps (h : Course s cues s') (hs : s.forest.WellFormed)
    (hcues : ∀ cue ∈ cues, cue.isEntrance = false) :
    s'.mounted = s.mounted ∧ s'.awaited = s.awaited := by
  induction h with
  | refl => exact ⟨rfl, rfl⟩
  | snoc hcourse hbeat ih =>
    obtain ⟨hearlier, hlater⟩ := List.forall_mem_append.1 hcues
    obtain ⟨hmounted, hawaited⟩ := ih hearlier
    rw [← hmounted, ← hawaited]
    cases hbeat with
    | calm hcalm => exact ⟨hcalm.mounted, hcalm.awaited⟩
    | mount | reveal => cases List.forall_mem_singleton.1 hlater
    | refresh =>
      have hwell := hcourse.wellFormed hs
      exact ⟨mounted_refresh hwell, awaited_refresh hwell⟩
    | play => exact ⟨mounted_play _ _, awaited_play _ _⟩
    | animate | endAnimation => exact ⟨rfl, rfl⟩

/-- Calls that run effects are no entrances. -/
theorem isEntrance_start {start : Start} {network : Network} {cue : Cue}
    (h : cue ∈ start.cues network) : cue.isEntrance = false := by
  rcases Start.of_mem_cues h with ⟨execution, -, hcue⟩ | ⟨_, _, -, -, rfl⟩ | ⟨page, rfl⟩
  · obtain ⟨page, rfl⟩ | ⟨_, _, _, -, rfl⟩ := execution.of_mem_cues hcue
    · rfl
    · rfl
  · rfl
  · rfl

/-- Only mounting the page and what comes into view are entrances. -/
theorem isEntrance_cues (hmount : interaction ≠ .mount) (hreveal : ∀ id, interaction ≠ .reveal id)
    (s : Session) (network : Network) :
    ∀ cue ∈ Call.cues ⟨s, network, interaction⟩, cue.isEntrance = false := by
  intro cue hcue
  obtain ⟨_, -, hcue⟩ | ⟨heq, -⟩ | ⟨id, _, heq, -⟩ | ⟨_, _, -, rfl⟩ | ⟨_, _, -, rfl⟩ :=
    Call.of_mem_cues hcue
  · exact isEntrance_start hcue
  · exact absurd heq hmount
  · exact absurd heq (hreveal id)
  · rfl
  · rfl

/-! ## What is awaited -/

/-- The element was in the document when the page was mounted for the first time, with motion on
visible, and has not come into view since. -/
def Unseen (s₀ : Session) (calls : List Call) (i : Nat) : Prop :=
  ∃ before mounting after, calls = before ++ mounting :: after ∧
    mounting.interaction = .mount ∧ (∀ call ∈ before, call.interaction ≠ .mount) ∧
    i ∈ mounting.before.forest.preorder ∧ s₀.moves .onVisible i = true ∧
    ∀ call ∈ after, ∀ id, s₀.node? id = some i → call.interaction ≠ .reveal id

theorem Unseen.exists_mount (h : Unseen s₀ calls i) :
    ∃ call ∈ calls, call.interaction = .mount := by
  obtain ⟨before, mounting, after, rfl, hmount, -⟩ := h
  exact ⟨mounting, List.mem_append_right _ List.mem_cons_self, hmount⟩

theorem unseen_concat {call : Call} : Unseen s₀ (calls ++ [call]) i ↔
    (Unseen s₀ calls i ∧ ∀ id, s₀.node? id = some i → call.interaction ≠ .reveal id) ∨
    (call.interaction = .mount ∧ (∀ call ∈ calls, call.interaction ≠ .mount) ∧
      i ∈ call.before.forest.preorder ∧ s₀.moves .onVisible i = true) := by
  constructor
  · rintro ⟨before, mounting, after, hcalls, hmount, hfirst, hi, hmoves, hafter⟩
    rcases concat_eq_append_cons_iff.1 hcalls with ⟨rfl, rfl, -⟩ | ⟨rest, rfl, rfl⟩
    · exact .inr ⟨hmount, hfirst, hi, hmoves⟩
    · obtain ⟨hrest, hcall⟩ := List.forall_mem_append.1 hafter
      exact .inl ⟨⟨before, mounting, rest, rfl, hmount, hfirst, hi, hmoves, hrest⟩,
        List.forall_mem_singleton.1 hcall⟩
  · rintro (⟨⟨before, mounting, after, rfl, hmount, hfirst, hi, hmoves, hafter⟩, hcall⟩ |
      ⟨hmount, hfirst, hi, hmoves⟩)
    · refine ⟨before, mounting, after ++ [call], ?_, hmount, hfirst, hi, hmoves, ?_⟩
      · rw [List.append_assoc, List.cons_append]
      · exact List.forall_mem_append.2 ⟨hafter, List.forall_mem_singleton.2 hcall⟩
    · exact ⟨calls, call, [], rfl, hmount, hfirst, hi, hmoves, List.forall_mem_nil _⟩

/-- Whether a page is mounted and what is awaited on it, told by the calls so far. -/
structure Presents (s₀ : Session) (calls : List Call) (s : Session) : Prop where
  mounted : s.mounted = true ↔ ∃ call ∈ calls, call.interaction = .mount
  nodup : s.awaited.Nodup
  awaited : ∀ i, i ∈ s.awaited ↔ Unseen s₀ calls i

theorem awaited_started (s : Session) :
    s.started.awaited = s.awaited ++ s.movers .onVisible := by
  rw [started]
  exact List.foldlRecOn (motive := fun t : Session =>
    t.awaited = s.awaited ++ s.movers .onVisible) _ _ rfl
    fun t ht i _ => (awaited_play t i).trans ht

theorem mounted_started (s : Session) : s.started.mounted = true := by
  rw [started]
  exact List.foldlRecOn (motive := fun t : Session => t.mounted = true) _ _ rfl
    fun t ht i _ => (mounted_play t i).trans ht

theorem wellFormed_started (hs : s.forest.WellFormed) : s.started.forest.WellFormed := by
  have hopened : Descends s s.opened := ⟨.refl hs, rfl⟩
  exact (List.foldlRecOn (motive := fun t : Session => Descends s t) _ _ hopened
    fun _ ht i _ => ht.play i).forest.wellFormed

theorem mount_of_mounted (h : s.mounted = true) : s.mount = s := if_pos h

theorem mem_movers_iff {trigger : Trigger} :
    i ∈ s.movers trigger ↔ i ∈ s.forest.preorder ∧ s.moves trigger i = true := List.mem_filter

namespace Presents

/-- Mounting a page. -/
theorem mount (h : Presents s₀ calls s) (hs : Descends s₀ s) (network : Network) :
    Presents s₀ (calls ++ [⟨s, network, .mount⟩]) s.mount := by
  have hlast : ∃ call ∈ calls ++ [(⟨s, network, .mount⟩ : Call)], call.interaction = .mount :=
    ⟨_, List.mem_append_right _ (List.mem_singleton_self _), rfl⟩
  cases hmounted : s.mounted with
  | true =>
    rw [mount_of_mounted hmounted]
    refine ⟨iff_of_true hmounted hlast, h.nodup, fun i => ?_⟩
    obtain ⟨call, hcall, hmount⟩ := h.mounted.1 hmounted
    rw [h.awaited, unseen_concat, or_iff_left fun hfirst => hfirst.2.1 call hcall hmount]
    exact (and_iff_left fun id _ heq => nomatch heq).symm
  | false =>
    have hwell := hs.forest.wellFormed
    have hnone : ∀ call ∈ calls, call.interaction ≠ .mount := fun call hcall hmount =>
      absurd (h.mounted.2 ⟨call, hcall, hmount⟩) (by simp [hmounted])
    have hunseen (i : Nat) : ¬Unseen s₀ calls i := fun hseen =>
      let ⟨call, hcall, hmount⟩ := hseen.exists_mount
      hnone call hcall hmount
    have hempty : s.awaited = [] :=
      List.eq_nil_iff_forall_not_mem.2 fun i hi => hunseen i ((h.awaited i).1 hi)
    rw [mount_eq hwell hmounted]
    refine ⟨?_, ?_, fun i => ?_⟩
    · rw [mounted_refresh (wellFormed_started hwell), mounted_started]
      exact iff_of_true rfl hlast
    · rw [awaited_refresh (wellFormed_started hwell), awaited_started, hempty, List.nil_append]
      exact (Forest.nodup_preorder hwell).filter _
    · rw [awaited_refresh (wellFormed_started hwell), awaited_started, hempty, List.nil_append,
        mem_movers_iff, moves_eq_of_descends hs, unseen_concat,
        or_iff_right fun hseen => hunseen i hseen.1]
      exact ⟨fun hi => ⟨rfl, hnone, hi⟩, fun hi => hi.2.2⟩

/-- An element comes into view. -/
theorem reveal (h : Presents s₀ calls s) (hs : Descends s₀ s) {id : String} {target : Nat}
    (hnode : s.node? id = some target) (network : Network) :
    Presents s₀ (calls ++ [⟨s, network, .reveal id⟩])
      (if target ∈ s.awaited then s.revealed target else s) := by
  have hmounted : (∃ call ∈ calls ++ [(⟨s, network, .reveal id⟩ : Call)],
      call.interaction = .mount) ↔ ∃ call ∈ calls, call.interaction = .mount := by
    simp only [List.mem_append, List.mem_singleton]
    constructor
    · rintro ⟨call, hcall | rfl, hmount⟩
      · exact ⟨call, hcall, hmount⟩
      · cases hmount
    · exact fun ⟨call, hcall, hmount⟩ => ⟨call, .inl hcall, hmount⟩
  have hunseen (i : Nat) : Unseen s₀ (calls ++ [⟨s, network, .reveal id⟩]) i ↔
      Unseen s₀ calls i ∧ i ≠ target := by
    rw [unseen_concat, or_iff_left fun hmount => nomatch hmount.1]
    refine and_congr_right fun _ => ⟨fun hother heq => ?_, fun hne other hother heq => ?_⟩
    · exact hother id (by rw [← node?_eq hs, hnode, heq]) rfl
    · obtain rfl := Interaction.reveal.inj heq
      rw [← node?_eq hs, hnode] at hother
      exact hne (Option.some.inj hother).symm
  split_ifs with hawaited
  · have herased : (s.revealed target).awaited = s.awaited.erase target := awaited_play _ _
    refine ⟨?_, ?_, fun i => ?_⟩
    · rw [hmounted, ← h.mounted, revealed, mounted_play]
    · rw [herased]
      exact h.nodup.erase target
    · rw [herased, h.nodup.mem_erase_iff, h.awaited, hunseen, and_comm]
  · refine ⟨h.mounted.trans hmounted.symm, h.nodup, fun i => ?_⟩
    rw [hunseen, ← h.awaited]
    exact (and_iff_left_of_imp fun hi (heq : i = target) => hawaited (heq ▸ hi)).symm

/-- All other calls. -/
theorem other (h : Presents s₀ calls s) {call : Call} (hmount : call.interaction ≠ .mount)
    (hreveal : ∀ id, call.interaction ≠ .reveal id) (hmounted : s'.mounted = s.mounted)
    (hawaited : s'.awaited = s.awaited) : Presents s₀ (calls ++ [call]) s' := by
  refine ⟨?_, hawaited ▸ h.nodup, fun i => ?_⟩
  · rw [hmounted, h.mounted]
    simp only [List.mem_append, List.mem_singleton]
    constructor
    · exact fun ⟨call, hcall, hmount⟩ => ⟨call, .inl hcall, hmount⟩
    · rintro ⟨other, hcall | rfl, hother⟩
      · exact ⟨other, hcall, hother⟩
      · exact absurd hother hmount
  · rw [hawaited, h.awaited, unseen_concat, or_iff_left fun hfirst => hmount hfirst.1]
    exact (and_iff_left fun id _ => hreveal id).symm

end Presents

theorem mounted_of_load {html : String} (hload : load html = .ok s) : s.mounted = false := by
  obtain ⟨forest, -, hload⟩ := exists_of_bind_eq_ok hload
  obtain ⟨state, -, hload⟩ := exists_of_bind_eq_ok hload
  obtain rfl := Except.ok.inj hload
  rfl

/-- **What is awaited on a page** is what was not seen since the page was mounted. -/
theorem Reaches.presents {html : String} (hload : load html = .ok s₀) (h : Reaches s₀ calls s) :
    Presents s₀ calls s := by
  have hfresh := isFresh_of_load hload
  induction h with
  | start =>
    refine ⟨?_, ?_, fun i => ?_⟩
    · rw [mounted_of_load hload]
      exact iff_of_false Bool.false_ne_true fun ⟨_, hcall, _⟩ => List.not_mem_nil hcall
    · rw [hfresh.awaited]
      exact List.nodup_nil
    · rw [hfresh.awaited]
      refine iff_of_false List.not_mem_nil fun hseen => ?_
      obtain ⟨_, hcall, -⟩ := hseen.exists_mount
      exact List.not_mem_nil hcall
  | @call calls s network interaction report v hcalls hperform ih =>
    have hdescends := hfresh.descends hcalls.follows
    have hother (hmount : interaction ≠ .mount) (hreveal : ∀ id, interaction ≠ .reveal id) :
        Presents s₀ (calls ++ [⟨s, network, interaction⟩]) v.session := by
      have hcourse := course_of_perform hdescends.forest.wellFormed hperform
      obtain ⟨hmounted, hawaited⟩ := hcourse.keeps hdescends.forest.wellFormed
        (isEntrance_cues hmount hreveal s network)
      exact ih.other hmount hreveal hmounted hawaited
    cases interaction with
    | mount =>
      obtain ⟨-, rfl⟩ := Prod.mk.inj (Except.ok.inj hperform)
      exact ih.mount hdescends network
    | reveal id =>
      obtain ⟨revealed, hreveal, hv⟩ := exists_of_map_eq_ok hperform
      obtain ⟨-, rfl⟩ := Prod.mk.inj hv
      rw [reveal_eq] at hreveal
      obtain ⟨target, helement, rfl⟩ := exists_of_map_eq_ok hreveal
      have hstep := ih.reveal hdescends (node?_of_element helement) network
      split_ifs at hstep ⊢ <;> exact hstep
    | dispatch | enter | hover | advance | endAnimation | write =>
      exact hother (fun heq => nomatch heq) fun id heq => nomatch heq

theorem Presents.moves_of_mem_awaited (h : Presents s₀ calls s) (hi : i ∈ s.awaited) :
    s₀.moves .onVisible i = true := by
  obtain ⟨_, _, _, _, _, _, _, hmoves, _⟩ := (h.awaited i).1 hi
  exact hmoves

/-! ## What calls play -/

/-- A refresh of a course plays motion on state of its page. -/
theorem Course.trigger_of_mem_risen (h : Course s cues s') (hs : s.forest.WellFormed)
    {page : Session} (hcue : .refresh page ∈ cues) (hi : i ∈ page.risen) :
    ∃ motion, s.motion? i = some motion ∧ motion.trigger = .onState := by
  have hpage : page ∈ refreshed cues := List.mem_filterMap.2 ⟨_, hcue, rfl⟩
  have hdescends := h.descends_of_mem_refreshed hs page hpage
  obtain ⟨motion, hmotion, htrigger⟩ := Session.trigger_of_mem_risen hi
  exact ⟨motion, (motion?_eq_of_descends hdescends i).symm.trans hmotion, htrigger⟩

/-- **A call that runs effects** plays motion on state, on press or on hover. -/
theorem trigger_of_mem_played_start (hs : s.forest.WellFormed) {start : Start}
    (hstart : Call.start? ⟨s, network, interaction⟩ = some start) {cue : Cue}
    (hcue : cue ∈ start.cues network) (hi : i ∈ cue.played) : ∃ motion, s.motion? i = some motion ∧
      motion.trigger ≠ .onMount ∧ motion.trigger ≠ .onVisible := by
  have hrefresh (page : Session) (heq : cue = .refresh page) : ∃ motion,
      s.motion? i = some motion ∧ motion.trigger ≠ .onMount ∧ motion.trigger ≠ .onVisible := by
    subst heq
    obtain ⟨motion, hmotion, htrigger⟩ :=
      (course_of_start? hs hstart).trigger_of_mem_risen hs hcue hi
    exact ⟨motion, hmotion, by simp [htrigger]⟩
  rcases Start.of_mem_cues hcue with ⟨execution, -, heffect⟩ | ⟨_, mover, htrigger, hfound, rfl⟩ |
    ⟨page, heq⟩
  · obtain ⟨page, heq⟩ | ⟨_, _, _, -, rfl⟩ := execution.of_mem_cues heffect
    · exact hrefresh page heq
    · exact absurd hi List.not_mem_nil
  · obtain rfl := List.mem_singleton.1 hi
    obtain ⟨motion, hmotion, rfl⟩ := moves_iff.1 (Option.filter_eq_some_iff.1 hfound).2
    have hran := (calm_start? hs hstart).descends.runBindings start.event start.target
    refine ⟨motion, (motion?_eq_of_descends hran i).symm.trans hmotion, ?_⟩
    rcases trigger_of_start? hstart with hnone | hpress | hhover
    · cases hnone.symm.trans htrigger
    · simp [Option.some.inj (htrigger.symm.trans hpress)]
    · simp [Option.some.inj (htrigger.symm.trans hhover)]
  · exact hrefresh page heq

/-- What mounting a page for the first time plays. -/
theorem plays_mount (hmounted : s.mounted = false) (network : Network) :
    Call.plays ⟨s, network, .mount⟩ = s.movers .onMount ++ s.started.risen := by
  have hplays (order : List Nat) : (order.map Cue.play).flatMap Cue.played = order := by
    rw [List.flatMap_map]
    exact List.flatMap_singleton' order
  have hcues : Call.cues ⟨s, network, .mount⟩ = s.mountCues :=
    if_neg (Bool.not_eq_true _ ▸ hmounted)
  rw [Call.plays, hcues, mountCues, List.flatMap_cons, List.flatMap_append, hplays,
    List.flatMap_singleton]
  rfl

/-- What comes into view plays its own motion, if that is awaited. -/
theorem plays_reveal (s : Session) (network : Network) (id : String) :
    Call.plays ⟨s, network, .reveal id⟩ = ((s.node? id).filter s.awaited.contains).toList := by
  rw [Call.plays, Call.cues]
  dsimp only
  cases (s.node? id).filter s.awaited.contains with
  | none => rfl
  | some target => rfl

theorem mem_plays_reveal {id : String} : i ∈ Call.plays ⟨s, network, .reveal id⟩ ↔
    s.node? id = some i ∧ i ∈ s.awaited := by
  rw [plays_reveal, Option.mem_toList, Option.filter_eq_some_iff, List.contains_iff_mem]

theorem plays_mount_of_mounted (hmounted : s.mounted = true) (network : Network) :
    Call.plays ⟨s, network, .mount⟩ = [] := by
  have hcues : Call.cues ⟨s, network, .mount⟩ = [] := if_pos hmounted
  rw [Call.plays, hcues, List.flatMap_nil]

/-- Calls other than mounting the page and what comes into view play other motion. -/
theorem trigger_of_mem_plays (hs : s.forest.WellFormed) (hmount : interaction ≠ .mount)
    (hreveal : ∀ id, interaction ≠ .reveal id) (hi : i ∈ Call.plays ⟨s, network, interaction⟩) :
    ∃ motion, s.motion? i = some motion ∧ motion.trigger ≠ .onMount ∧
      motion.trigger ≠ .onVisible := by
  obtain ⟨cue, hcue, hplayed⟩ := List.mem_flatMap.1 hi
  obtain ⟨start, hstart, hcue⟩ | ⟨heq, -⟩ | ⟨id, _, heq, -⟩ | ⟨_, _, -, rfl⟩ |
    ⟨key, value, -, rfl⟩ := Call.of_mem_cues hcue
  · exact trigger_of_mem_played_start hs hstart hcue hplayed
  · exact absurd heq hmount
  · exact absurd heq (hreveal id)
  · exact absurd hplayed List.not_mem_nil
  · obtain ⟨motion, hmotion, htrigger⟩ :=
      (course_write hs key value).trigger_of_mem_risen hs (List.mem_singleton_self _) hplayed
    exact ⟨motion, hmotion, by simp [htrigger]⟩

/-- **Motion on mount** is played by mounting the page for the first time, and by nothing else. -/
theorem mem_plays_iff_of_onMount (h : Presents s₀ calls s) (hs : Descends s₀ s)
    (hmotion : s₀.motion? i = some motion) (htrigger : motion.trigger = .onMount)
    (network : Network) (interaction : Interaction) :
    i ∈ Call.plays ⟨s, network, interaction⟩ ↔
      interaction = .mount ∧ s.mounted = false ∧ i ∈ s.forest.preorder := by
  have hwell := hs.forest.wellFormed
  have hnow : s.motion? i = some motion := (motion?_eq_of_descends hs i).trans hmotion
  have hnot {other : Motion} (hother : s.motion? i = some other) (hne : other.trigger ≠ .onMount) :
      False := hne (Option.some.inj (hnow.symm.trans hother) ▸ htrigger)
  by_cases hmount : interaction = .mount
  · subst hmount
    cases hmounted : s.mounted with
    | true => simp [plays_mount_of_mounted hmounted]
    | false =>
      have hmoves : s.moves .onMount i = true := moves_iff.2 ⟨motion, hnow, htrigger⟩
      have hrisen : i ∉ s.started.risen := fun hi =>
        let ⟨other, hother, hstate⟩ := (course_mount hwell hmounted).trigger_of_mem_risen hwell
          (by simp [mountCues]) hi
        hnot hother (by simp [hstate])
      rw [plays_mount hmounted, List.mem_append, mem_movers_iff]
      simp [hrisen, hmoves]
  · refine iff_of_false (fun hi => ?_) fun hmounts => hmount hmounts.1
    by_cases hreveal : ∃ id, interaction = .reveal id
    · obtain ⟨id, rfl⟩ := hreveal
      obtain ⟨other, hother, hsees⟩ :=
        moves_iff.1 (h.moves_of_mem_awaited (mem_plays_reveal.1 hi).2)
      rw [← motion?_eq_of_descends hs] at hother
      exact hnot hother (by simp [hsees])
    · obtain ⟨other, hother, hne, -⟩ :=
        trigger_of_mem_plays hwell hmount (fun id heq => hreveal ⟨id, heq⟩) hi
      exact hnot hother hne

/-- **Motion on visible** is played by its element coming into view while it is awaited, and by
nothing else. -/
theorem mem_plays_iff_of_onVisible (hs : s.forest.WellFormed) (hmotion : s.motion? i = some motion)
    (htrigger : motion.trigger = .onVisible) (network : Network) (interaction : Interaction) :
    i ∈ Call.plays ⟨s, network, interaction⟩ ↔
      ∃ id, interaction = .reveal id ∧ s.node? id = some i ∧ i ∈ s.awaited := by
  have hnot {other : Motion} (hother : s.motion? i = some other)
      (hne : other.trigger ≠ .onVisible) : False :=
    hne (Option.some.inj (hmotion.symm.trans hother) ▸ htrigger)
  by_cases hreveal : ∃ id, interaction = .reveal id
  · obtain ⟨id, rfl⟩ := hreveal
    rw [mem_plays_reveal]
    exact ⟨fun hi => ⟨id, rfl, hi⟩, fun ⟨other, heq, hi⟩ => Interaction.reveal.inj heq ▸ hi⟩
  · refine iff_of_false (fun hi => ?_) fun ⟨id, heq, _⟩ => hreveal ⟨id, heq⟩
    by_cases hmount : interaction = .mount
    · subst hmount
      cases hmounted : s.mounted with
      | true =>
        rw [plays_mount_of_mounted hmounted] at hi
        exact List.not_mem_nil hi
      | false =>
        rw [plays_mount hmounted] at hi
        rcases List.mem_append.1 hi with hi | hi
        · obtain ⟨other, hother, hfirst⟩ := moves_iff.1 (mem_movers_iff.1 hi).2
          exact hnot hother (by simp [hfirst])
        · obtain ⟨other, hother, hstate⟩ := (course_mount hs hmounted).trigger_of_mem_risen hs
            (by simp [mountCues]) hi
          exact hnot hother (by simp [hstate])
    · obtain ⟨other, hother, -, hne⟩ :=
        trigger_of_mem_plays hs hmount (fun id heq => hreveal ⟨id, heq⟩) hi
      exact hnot hother hne

/-- Mounting a page plays no motion on mount twice. -/
theorem count_plays_mount_le (hs : s.forest.WellFormed) (hmotion : s.motion? i = some motion)
    (htrigger : motion.trigger = .onMount) (network : Network) :
    (Call.plays ⟨s, network, .mount⟩).count i ≤ 1 := by
  cases hmounted : s.mounted with
  | true => rw [plays_mount_of_mounted hmounted]; exact Nat.zero_le _
  | false =>
    have hrisen : i ∉ s.started.risen := fun hi => by
      obtain ⟨other, hother, hstate⟩ := (course_mount hs hmounted).trigger_of_mem_risen hs
        (by simp [mountCues]) hi
      rw [hmotion] at hother
      rw [← Option.some.inj hother, htrigger] at hstate
      cases hstate
    rw [plays_mount hmounted, List.count_append, List.count_eq_zero_of_not_mem hrisen]
    exact List.nodup_iff_count_le_one.1 ((Forest.nodup_preorder hs).filter _) i

/-- **One-shot motion plays once.** Whatever was done with a page, the next call is a course with
the cues that it lists, and these play the motion on mount of an element if and only if the call
mounts the page, none before it has, and the element is in the document; they play it once then.
They play the motion on visible of an element if and only if the element comes into view, was in the
document when the page was mounted for the first time, and has not come into view since. The call
that brings an element into view says whether this was so; then the motion is played, and else the
page is left as it is. Mounting a mounted page leaves it as it is. -/
theorem Reaches.plays_once {html : String} (hload : load html = .ok s₀) (h : Reaches s₀ calls s)
    (network : Network) :
    (∀ interaction report v, perform ⟨s, network⟩ interaction = .ok (report, v) →
      Course s (Call.cues ⟨s, network, interaction⟩) v.session) ∧
    (∀ interaction i motion, s₀.motion? i = some motion → motion.trigger = .onMount →
      (i ∈ Call.plays ⟨s, network, interaction⟩ ↔ interaction = .mount ∧
        (∀ call ∈ calls, call.interaction ≠ .mount) ∧ i ∈ s.forest.preorder) ∧
      (Call.plays ⟨s, network, interaction⟩).count i ≤ 1) ∧
    (∀ interaction i motion, s₀.motion? i = some motion → motion.trigger = .onVisible →
      (i ∈ Call.plays ⟨s, network, interaction⟩ ↔
        ∃ id, interaction = .reveal id ∧ s₀.node? id = some i ∧ Unseen s₀ calls i)) ∧
    (∀ id i, s₀.node? id = some i → ∃ awaited t,
      perform ⟨s, network⟩ (.reveal id) = .ok (.revealed awaited, ⟨t, network⟩) ∧
      (awaited = true ↔ Unseen s₀ calls i) ∧
      (awaited = true → ∃ motion, s.motion? i = some motion ∧
        t = Session.move { s with awaited := s.awaited.erase i } i motion) ∧
      (awaited = false → t = s)) ∧
    ((∃ call ∈ calls, call.interaction = .mount) →
      perform ⟨s, network⟩ .mount = .ok (.done, ⟨s, network⟩)) := by
  have hs := (isFresh_of_load hload).descends h.follows
  have hwell := hs.forest.wellFormed
  have hpresents := h.presents hload
  have hmounted : s.mounted = false ↔ ∀ call ∈ calls, call.interaction ≠ .mount := by
    rw [← Bool.not_eq_true, hpresents.mounted]
    push Not
    rfl
  refine ⟨fun interaction report v hperform => course_of_perform hwell hperform,
    fun interaction i motion hmotion htrigger => ⟨?_, ?_⟩,
    fun interaction i motion hmotion htrigger => ?_, fun id i hnode => ?_, fun hmount => ?_⟩
  · rw [← hmounted]
    exact mem_plays_iff_of_onMount hpresents hs hmotion htrigger network interaction
  · by_cases hi : i ∈ Call.plays ⟨s, network, interaction⟩
    · obtain ⟨rfl, -⟩ :=
        (mem_plays_iff_of_onMount hpresents hs hmotion htrigger network interaction).1 hi
      have hnow := (motion?_eq_of_descends hs i).trans hmotion
      exact count_plays_mount_le hwell hnow htrigger network
    · rw [List.count_eq_zero_of_not_mem hi]
      exact Nat.zero_le 1
  · have hnow := (motion?_eq_of_descends hs i).trans hmotion
    rw [mem_plays_iff_of_onVisible hwell hnow htrigger]
    simp only [node?_eq hs, hpresents.awaited]
  · have helement := element_of_node? ((node?_eq hs id).trans hnode)
    have hreveal : perform ⟨s, network⟩ (.reveal id) = .ok (if i ∈ s.awaited then
        (.revealed true, ⟨s.revealed i, network⟩) else (.revealed false, ⟨s, network⟩)) := by
      rw [perform, reveal_eq, helement]
      dsimp only [Except.map]
      split_ifs <;> rfl
    by_cases hawaited : i ∈ s.awaited
    · rw [if_pos hawaited] at hreveal
      refine ⟨true, _, hreveal, iff_of_true rfl ((hpresents.awaited i).1 hawaited), fun _ => ?_,
        fun hfalse => absurd hfalse.symm Bool.false_ne_true⟩
      obtain ⟨motion, hmotion, -⟩ := moves_iff.1 (hpresents.moves_of_mem_awaited hawaited)
      have hnow := (motion?_eq_of_descends hs i).trans hmotion
      exact ⟨motion, hnow, play_of_motion? hnow⟩
    · rw [if_neg hawaited] at hreveal
      exact ⟨false, s, hreveal, iff_of_false Bool.false_ne_true fun hunseen =>
        hawaited ((hpresents.awaited i).2 hunseen), fun htrue => absurd htrue Bool.false_ne_true,
        fun _ => rfl⟩
  · rw [perform, mount_of_mounted (hpresents.mounted.2 hmount)]

/-- Markup with a text that moves on mount, and one that moves when it comes into view. -/
def entrances : String :=
  "<p data-ir-motion='[\"preset\",\"fadeIn\",null,null,null,null,null]'></p>" ++
    "<p data-ir-id=low data-ir-motion=" ++
    "'[\"preset\",\"slideUp\",null,null,null,\"onVisible\",null]'></p>"

/-- Mounting the page moves the first text, and then the second one moves once it comes into
view. -/
theorem Reaches.plays_once_entrances : ∃ s₀ calls s first second, load entrances = .ok s₀ ∧
    Reaches s₀ calls s ∧ s₀.motion? 1 = some first ∧ first.trigger = .onMount ∧
    s₀.motion? 2 = some second ∧ second.trigger = .onVisible ∧
    1 ∈ Call.plays ⟨s₀, .ofAnswers [], .mount⟩ ∧ 1 ∉ Call.plays ⟨s, .ofAnswers [], .mount⟩ ∧
    2 ∈ Call.plays ⟨s, .ofAnswers [], .reveal "low"⟩ ∧ Unseen s₀ calls 2 ∧
    (∃ t, perform ⟨s, .ofAnswers []⟩ (.reveal "low") = .ok (.revealed true, ⟨t, .ofAnswers []⟩)) ∧
    perform ⟨s, .ofAnswers []⟩ .mount = .ok (.done, ⟨s, .ofAnswers []⟩) := by
  obtain ⟨s₀, calls, s, hload, hcalls, hviews⟩ :=
    exists_reaches_of_calls (ofList_append_append _ _ _ : entrances = _) (.ofAnswers []) [.mount]
      (fun s₀ _ s =>
        ((s₀.motion? 1).map Motion.trigger, (s₀.motion? 2).map Motion.trigger,
          s₀.node? "low", s₀.forest.preorder, Call.plays ⟨s, .ofAnswers [], .reveal "low"⟩))
      (some .onMount, some .onVisible, some 2, [1, 2], [2]) (by decide +kernel)
  simp only [Prod.mk.injEq] at hviews
  obtain ⟨hfirsts, hseconds, hnode, hin, hplays⟩ := hviews
  obtain ⟨first, hfirst, honMount⟩ := Option.map_eq_some_iff.1 hfirsts
  obtain ⟨second, hsecond, honVisible⟩ := Option.map_eq_some_iff.1 hseconds
  have hplays : 2 ∈ Call.plays ⟨s, .ofAnswers [], .reveal "low"⟩ := by simp [hplays]
  obtain ⟨-, hearly, -⟩ := Reaches.plays_once hload .start (.ofAnswers [])
  obtain ⟨-, hmounts, hreveals, hreveal, hagain⟩ := Reaches.plays_once hload hcalls (.ofAnswers [])
  obtain ⟨_, -, -, hunseen⟩ := (hreveals _ 2 second hsecond honVisible).1 hplays
  have hmounted := hunseen.exists_mount
  obtain ⟨awaited, t, hperform, hiff, -⟩ := hreveal "low" 2 hnode
  obtain rfl := hiff.2 hunseen
  refine ⟨s₀, calls, s, first, second, hload, hcalls, hfirst, honMount, hsecond, honVisible, ?_, ?_,
    hplays, hunseen, ⟨t, hperform⟩, hagain hmounted⟩
  · exact (hearly .mount 1 first hfirst honMount).1.2 ⟨rfl, List.forall_mem_nil _, by simp [hin]⟩
  · intro hi
    obtain ⟨call, hcall, hmount⟩ := hmounted
    exact ((hmounts .mount 1 first hfirst honMount).1.1 hi).2.1 call hcall hmount

/-- Markup with a text that moves on mount, inside of an element whose text is from the state. -/
def covered : String :=
  "<div data-ir-id=\"outer\" data-ir-bind=\"k\"><p data-ir-id=\"inner\" data-ir-motion='" ++
    "\x7b\"mode\":\"preset\",\"preset\":\"fadeIn\"\x7d" ++ "'></p></div>"

/-- **Motion on mount may never play**: a value that is written before the page is mounted takes the
place of the text that would move. -/
theorem not_forall_plays_on_mount : ¬∀ html s₀ calls s, load html = .ok s₀ → Reaches s₀ calls s →
    (∃ call ∈ calls, call.interaction = .mount) → ∀ i ∈ s₀.forest.preorder, ∀ motion,
      s₀.motion? i = some motion → motion.trigger = .onMount →
        (calls.flatMap Call.plays).count i = 1 := by
  intro hall
  obtain ⟨s₀, calls, s, hload, hcalls, hviews⟩ :=
    exists_reaches_of_calls (ofList_append_append _ _ _ : covered = _) (.ofAnswers [])
      [.write "k" (.str "x"), .mount] (fun s₀ calls s =>
        ((s₀.motion? 2).map Motion.trigger, s₀.forest.preorder, calls.flatMap Call.plays,
          s.mounted)) (some .onMount, [1, 2], [], true) (by decide +kernel)
  simp only [Prod.mk.injEq] at hviews
  obtain ⟨htriggers, hin, hplays, hmounted⟩ := hviews
  obtain ⟨motion, hmotion, htrigger⟩ := Option.map_eq_some_iff.1 htriggers
  have hcount := hall covered s₀ calls s hload hcalls
    ((hcalls.presents hload).mounted.1 hmounted) 2 (by simp [hin]) motion hmotion htrigger
  rw [hplays] at hcount
  cases hcount

end Session

end PageTree
