import PageTree.Proofs.Markup.Classes
import PageTree.Proofs.Session.Fetching

/-!
# What moves on a page

Whatever a call does, it does to the motion on a page by few kinds of steps: the page is mounted or
brought in line with its state, the motion of an element is played, an element that was awaited
comes into view, an effect animates an element, and an animation ends. Each of them is a cue.

The cues of a call are listed here, by what the call finds. For that each operation on a page is
taken apart into what it plays and the rest, most of all a refresh: it first brings values in line
with the state, and then plays the motion of the elements that rise, all of which can be told before
it begins.

## Main definitions

* `Cue`, `Call.cues`: what happens to motion, and what a call does to it
* `Session.risen`: the elements whose motion a refresh plays

## Main results

* `Session.refresh_eq`, `Session.mount_eq`, `Session.moveOn_eq`: what is played, apart from the rest
* `Session.mem_spent_refresh`: which motion waits after a refresh
* `Session.map_refresh_cues`: the pages right after writes are those that are brought in line
-/

namespace PageTree

/-- Something that happens to what moves on a page. -/
inductive Cue where
  /-- The page is mounted. -/
  | mount
  /-- The page, as it then is, is brought in line with its state. -/
  | refresh (page : Session)
  /-- The motion of an element is played, other than by a refresh or because it was awaited. -/
  | play (i : Nat)
  /-- An element that was awaited comes into view. -/
  | reveal (i : Nat)
  /-- An effect plays an animation of this name on an element. -/
  | animate (i : Nat) (name : String)
  /-- The animation of an element ends. -/
  | endAnimation (i : Nat)

namespace Session

section

variable (s : Session)

/-! ## What is played -/

/-- Plays the motion of an element, if it has one. -/
def play (i : Nat) : Session := ((s.motion? i).map (s.move i)).getD s

/-- The element has a motion with this trigger. -/
def moves (trigger : Trigger) (i : Nat) : Bool := (s.motion? i).any (·.trigger = trigger)

/-- The elements in the document that have a motion with this trigger, in order. -/
def movers (trigger : Trigger) : List Nat := s.forest.preorder.filter (s.moves trigger)

/-- The innermost element around one that has a motion attribute, if it has this trigger. -/
def mover? (trigger : Trigger) (i : Nat) : Option Nat :=
  (s.forest.closest? i fun e => OrderedMap.contains motionAttribute e.attributes).filter
    (s.moves trigger)

/-- The value under the key of a motion counts as true. -/
def wants (motion : Motion) : Bool := Json.truthy (motion.timing.stateKey.bind s.get?)

/-- The element has motion on state that a refresh plays: its key is true, and it does not wait for
the key to be false again. -/
def rises (i : Nat) : Bool := (s.stateMotion? i).any s.wants && !s.spent.contains i

/-- The elements whose motion a refresh plays, in order. -/
def risen : List Nat := s.forest.preorder.filter s.rises

/-- The page with its values and what they show in line with the state. -/
def aligned : Session :=
  s.forest.preorder.foldl (fun s i => (s.refreshValue i).refreshDisplay i) s

/-- The page with a value written into its state, not yet brought in line with it. -/
def withWritten (key : String) (value : Json) : Session :=
  { s with state := (s.state.withValueAt? key value).getD s.state }

/-- The page when it is mounted and nothing was played yet. -/
def opened : Session :=
  { s with mounted := true, awaited := s.awaited ++ s.movers .onVisible }

/-- The page when its motion on mount was played, not yet brought in line with the state. -/
def started : Session := (s.movers .onMount).foldl play s.opened

/-- The page when an animation has ended. -/
def withoutAnimation (i : Nat) : Session :=
  { s with
    forest := (s.animationClasses.filter (·.1 = i)).foldl (fun f entry => f.removeClass i entry.2)
      s.forest
    animationClasses := s.animationClasses.filter fun entry => !decide (entry.1 = i) }

/-- The page when an awaited element has come into view. -/
def revealed (i : Nat) : Session := Session.play { s with awaited := s.awaited.erase i } i

end

end Session

/-! ## Cues of calls -/

/-- What an effect does to motion, apart from a move of the focus. -/
def Execution.cues (execution : Execution) : List Cue :=
  match execution.effect with
  | .setState key value =>
    (Session.stated key).toList.map fun key => .refresh (execution.before.withWritten key value)
  | .appendState key value =>
    (Session.stated key).toList.map fun key => .refresh (execution.before.withWritten key
      (.arr (((execution.before.get? key).bind Json.items?).getD [] ++ [value])))
  | .animate target animation =>
    match execution.before.animationTarget? target execution.source, Session.stated animation with
    | some i, some name => [.animate i name]
    | _, _ => []
  | _ => []

namespace Session

/-- What writes do to motion, one after the other. -/
def writeCues : List (String × Json) → Session → List Cue
  | [], _ => []
  | entry :: writes, s =>
    .refresh (s.withWritten entry.1 entry.2) :: writeCues writes (s.write entry.1 entry.2)

/-- What mounting a page does to motion. -/
def mountCues (s : Session) : List Cue :=
  .mount :: ((s.movers .onMount).map .play ++ [.refresh s.started])

end Session

/-- What a call that runs effects does to motion: the effects, then the motion that the event sets
off, then the answers. -/
def Start.cues (start : Start) (network : Network) : List Cue :=
  let ran := (start.session.runBindings start.event start.target).1
  (start.session.eventLog start.event start.target).flatMap Execution.cues ++
    ((start.trigger.bind (ran.mover? · start.target)).toList.map .play ++
      Session.writeCues (Session.answered network start.acted.errands)
        { start.acted with errands := [] })

/-- What a call does to motion. -/
def Call.cues (call : Call) : List Cue :=
  match call.interaction with
  | .mount => if call.before.mounted then [] else call.before.mountCues
  | .dispatch _ _ | .enter _ _ | .hover _ =>
    (call.start?.map fun start => start.cues call.network).getD []
  | .reveal id =>
    ((call.before.node? id).filter call.before.awaited.contains).toList.map .reveal
  | .advance _ => []
  | .endAnimation id => (call.before.node? id).toList.map .endAnimation
  | .write key value => [.refresh (call.before.withWritten key value)]

/-- The pages that are brought in line with their state, one after the other. -/
def refreshed (cues : List Cue) : List Session :=
  cues.filterMap fun
    | .refresh page => some page
    | _ => none

/-- The elements whose motion a cue plays. -/
def Cue.played : Cue → List Nat
  | .play i | .reveal i => [i]
  | .refresh page => page.risen
  | .mount | .animate _ _ | .endAnimation _ => []

namespace Session

variable {s₀ s t : Session} {i j : Nat}

/-! ## What a refresh plays -/

theorem play_of_motion? {motion : Motion} (h : s.motion? i = some motion) :
    s.play i = s.move i motion := by
  rw [play, h]
  rfl

theorem stateMotion?_eq_some {motion : Motion} :
    s.stateMotion? i = some motion ↔ s.motion? i = some motion ∧ motion.trigger = .onState := by
  rw [stateMotion?, Option.filter_eq_some_iff, decide_eq_true_eq]

theorem moves_iff {trigger : Trigger} :
    s.moves trigger i = true ↔ ∃ motion, s.motion? i = some motion ∧ motion.trigger = trigger := by
  simp only [moves, Option.any_eq_true, decide_eq_true_eq]

theorem motion?_eq_of_descends (h : Descends s₀ s) (i : Nat) : s.motion? i = s₀.motion? i := by
  rw [motion?, motion?, h.forest.lasting i _ (by decide)]

theorem Descends.play (h : Descends s₀ s) (i : Nat) : Descends s₀ (s.play i) := by
  rw [Session.play]
  cases s.motion? i with
  | none => exact h
  | some motion => exact h.move i motion

/-- Playing motion changes elements and adds animations, and nothing else. -/
theorem exists_play_eq (s : Session) (i : Nat) :
    ∃ forest animations, s.play i = { s with forest, animations } := by
  rw [play]
  cases s.motion? i with
  | none => exact ⟨_, _, rfl⟩
  | some motion => cases motion with
    | _ => exact ⟨_, _, rfl⟩

theorem mounted_play (s : Session) (i : Nat) : (s.play i).mounted = s.mounted := by
  obtain ⟨_, _, hplay⟩ := s.exists_play_eq i
  rw [hplay]

theorem awaited_play (s : Session) (i : Nat) : (s.play i).awaited = s.awaited := by
  obtain ⟨_, _, hplay⟩ := s.exists_play_eq i
  rw [hplay]

theorem spent_play (s : Session) (i : Nat) : (s.play i).spent = s.spent := by
  obtain ⟨_, _, hplay⟩ := s.exists_play_eq i
  rw [hplay]

theorem animationClasses_play (s : Session) (i : Nat) :
    (s.play i).animationClasses = s.animationClasses := by
  obtain ⟨_, _, hplay⟩ := s.exists_play_eq i
  rw [hplay]

/-- What waits has no say in what a motion does. -/
theorem play_withSpent (s : Session) (spent : List Nat) (i : Nat) :
    Session.play { s with spent } i = { s.play i with spent } := by
  have hmotion : motion? { s with spent } i = s.motion? i := rfl
  rw [play, play, hmotion]
  cases s.motion? i with
  | none => rfl
  | some motion => cases motion with
    | _ => rfl

theorem foldl_play_withSpent (s : Session) (spent : List Nat) (order : List Nat) :
    order.foldl Session.play { s with spent } = { order.foldl Session.play s with spent } := by
  induction order generalizing s with
  | nil => rfl
  | cons i order ih => rw [List.foldl_cons, play_withSpent, ih, List.foldl_cons]

/-- What the last part of a refresh does for one element, told by the page before the refresh. -/
theorem refreshMotion_eq (h : Underway s t) (i : Nat) : t.refreshMotion i =
    match s.stateMotion? i with
    | none => t
    | some motion =>
      if s.wants motion then
        if i ∈ t.spent then t else { t.play i with spent := i :: t.spent }
      else { t with spent := t.spent.filter (· != i) } := by
  have hwants (motion : Motion) : Json.truthy (motion.timing.stateKey.bind t.get?) =
      s.wants motion := by rw [wants, h.get?_eq]
  rw [refreshMotion, stateMotion?, ← h.refreshes.motion?_eq]
  cases hmotion : t.motion? i with
  | none => rfl
  | some motion =>
    dsimp only
    rw [hwants]
    by_cases htrigger : motion.trigger = .onState
    · rw [if_pos htrigger, Option.filter_some_pos (by simpa using htrigger)]
      dsimp only
      split_ifs with hwant hspent hmem hmem
      · rfl
      · exact absurd (List.contains_iff_mem.1 hspent) hmem
      · exact absurd (List.contains_iff_mem.2 hmem) hspent
      · have hmoved : motion? { t with spent := i :: t.spent } i = some motion := hmotion
        rw [← play_of_motion? hmoved, play_withSpent]
      · rfl
    · rw [if_neg htrigger, Option.filter_some_neg (by simpa using htrigger)]

/-- What waits after this step: the element if its key is true, and the others as before. -/
theorem mem_spent_refreshMotion (h : Underway s t) (i j : Nat) :
    j ∈ (t.refreshMotion i).spent ↔
      if j = i ∧ (s.stateMotion? i).isSome then (s.stateMotion? i).any s.wants = true
      else j ∈ t.spent := by
  rw [refreshMotion_eq h]
  cases hmotion : s.stateMotion? i with
  | none => simp
  | some motion =>
    dsimp only
    by_cases hj : j = i
    · subst hj
      split_ifs with hwants hspent <;> simp_all
    · have hother : ¬(j = i ∧ (some motion).isSome = true) := fun hboth => hj hboth.1
      rw [if_neg hother]
      split_ifs <;> simp [hj]

/-- The step plays the motion of the element if that rises, and nothing else. -/
theorem refreshMotion_eq_play (h : Underway s t) (hspent : i ∈ t.spent ↔ i ∈ s.spent) :
    t.refreshMotion i =
      { (if s.rises i then t.play i else t) with spent := (t.refreshMotion i).spent } := by
  rw [refreshMotion_eq h, rises]
  cases hmotion : s.stateMotion? i with
  | none => rfl
  | some motion =>
    dsimp only [Option.any_some]
    by_cases hwants : s.wants motion = true
    · by_cases hmem : i ∈ t.spent
      · simp [hwants, hmem, hspent.1 hmem]
      · have hnot : i ∉ s.spent := fun hs => hmem (hspent.2 hs)
        simp [hwants, hmem, hnot]
    · simp [hwants]

/-- All steps together play the motion of those elements that rise. -/
theorem foldl_refreshMotion (h : Underway s t) {order : List Nat} (hnodup : order.Nodup)
    (hspent : ∀ i ∈ order, i ∈ t.spent ↔ i ∈ s.spent) : order.foldl Session.refreshMotion t =
      { (order.filter s.rises).foldl Session.play t with
        spent := (order.foldl Session.refreshMotion t).spent } := by
  induction order generalizing t with
  | nil => rfl
  | cons i order ih =>
    obtain ⟨hi, hnodup⟩ := List.nodup_cons.1 hnodup
    have hfirst := refreshMotion_eq_play h (hspent i List.mem_cons_self)
    have hrest := ih (h.refreshMotion i) hnodup fun j hj => by
      have hne : j ≠ i := fun heq => hi (heq ▸ hj)
      rw [mem_spent_refreshMotion h, if_neg fun hboth => hne hboth.1]
      exact hspent j (List.mem_cons_of_mem _ hj)
    rw [List.foldl_cons, hrest, List.filter_cons]
    rw [hfirst, foldl_play_withSpent]
    split_ifs <;> rfl

/-- What waits after all steps: of the elements that they are for, those whose key is true. -/
theorem mem_spent_foldl (h : Underway s t) {order : List Nat} (hi : i ∈ order)
    {motion : Motion} (hmotion : s.stateMotion? i = some motion) :
    i ∈ (order.foldl Session.refreshMotion t).spent ↔ s.wants motion = true := by
  induction order using List.reverseRecOn with
  | nil => exact absurd hi List.not_mem_nil
  | append_singleton order j ih =>
    have hbefore : Underway s (order.foldl Session.refreshMotion t) :=
      List.foldlRecOn _ _ h fun t ht i _ => ht.refreshMotion i
    rw [List.foldl_append, List.foldl_cons, List.foldl_nil, mem_spent_refreshMotion hbefore]
    by_cases hj : i = j
    · subst hj
      simp [hmotion]
    · rw [if_neg fun hboth => hj hboth.1]
      exact ih ((List.mem_append.1 hi).resolve_right fun hlast => hj (List.mem_singleton.1 hlast))

theorem underway_aligned (hs : s.forest.WellFormed) : Underway s s.aligned :=
  List.foldlRecOn _ _ ⟨.refl hs, rfl⟩ fun _ ht i _ => (ht.refreshValue i).refreshDisplay i

theorem exists_refreshValue_eq (s : Session) (i : Nat) :
    ∃ forest, s.refreshValue i = { s with forest } := by
  rw [refreshValue]
  split
  · exact ⟨s.forest, rfl⟩
  · exact ⟨_, rfl⟩

theorem exists_refreshDisplay_eq (s : Session) (i : Nat) :
    ∃ forest, s.refreshDisplay i = { s with forest } := by
  rw [refreshDisplay]
  split
  · exact ⟨s.forest, rfl⟩
  · exact ⟨_, rfl⟩

/-- Bringing values in line changes elements and nothing else. -/
theorem exists_aligned_eq (s : Session) : ∃ forest, s.aligned = { s with forest } := by
  rw [aligned]
  refine List.foldlRecOn (motive := fun t : Session => ∃ forest, t = { s with forest }) _ _
    ⟨s.forest, rfl⟩ fun t ht i _ => ?_
  obtain ⟨f, rfl⟩ := ht
  obtain ⟨g, hvalue⟩ := exists_refreshValue_eq { s with forest := f } i
  rw [hvalue]
  exact exists_refreshDisplay_eq { s with forest := g } i

theorem spent_aligned (s : Session) : s.aligned.spent = s.spent := by
  obtain ⟨f, haligned⟩ := s.exists_aligned_eq
  rw [haligned]

/-- **A refresh** brings the values of the page in line with its state, and then plays the motion of
the elements that rise. -/
theorem refresh_eq (hs : s.forest.WellFormed) :
    s.refresh = { s.risen.foldl play s.aligned with spent := s.refresh.spent } :=
  foldl_refreshMotion (underway_aligned hs) (Forest.nodup_preorder hs) fun _ _ => by
    rw [spent_aligned]

/-- **After a refresh** motion on state waits just in case its key is true. -/
theorem mem_spent_refresh (hs : s.forest.WellFormed) (hi : i ∈ s.forest.preorder)
    {motion : Motion} (hmotion : s.motion? i = some motion) (htrigger : motion.trigger = .onState) :
    i ∈ s.refresh.spent ↔ s.wants motion = true :=
  mem_spent_foldl (underway_aligned hs) hi (stateMotion?_eq_some.2 ⟨hmotion, htrigger⟩)

/-! ## What mounting a page plays -/

theorem play_withAwaited (s : Session) (awaited : List Nat) (i : Nat) :
    Session.play { s with awaited } i = { s.play i with awaited } := by
  have hmotion : motion? { s with awaited } i = s.motion? i := rfl
  rw [play, play, hmotion]
  cases s.motion? i with
  | none => rfl
  | some motion => cases motion with
    | _ => rfl

theorem moves_eq_of_descends (h : Descends s₀ s) (trigger : Trigger) (i : Nat) :
    s.moves trigger i = s₀.moves trigger i := by
  rw [moves, moves, motion?_eq_of_descends h]

/-- What mounting does for one element, told by the page before. -/
theorem mountMotion_eq (h : Descends s t) (i : Nat) : t.mountMotion i =
    if s.moves .onMount i then t.play i
    else if s.moves .onVisible i then { t with awaited := t.awaited ++ [i] }
    else t := by
  rw [← moves_eq_of_descends h, ← moves_eq_of_descends h, moves, moves, mountMotion, play]
  cases t.motion? i with
  | none => rfl
  | some motion =>
    dsimp only [Option.any_some, Option.map_some, Option.getD_some]
    split
    · next htrigger => rw [if_pos (by simp [htrigger])]
    · next htrigger => rw [if_neg (by simp [htrigger]), if_pos (by simp [htrigger])]
    · next hmount hvisible =>
      rw [if_neg (by simpa using hmount), if_neg (by simpa using hvisible)]

theorem foldl_mountMotion (h : Descends s t) (order : List Nat) :
    order.foldl Session.mountMotion t = (order.filter (s.moves .onMount)).foldl Session.play
      { t with awaited := t.awaited ++ order.filter (s.moves .onVisible) } := by
  induction order generalizing t with
  | nil =>
    rw [List.filter_nil, List.filter_nil, List.append_nil]
    rfl
  | cons i order ih =>
    rw [List.foldl_cons, ih (h.mountMotion i), mountMotion_eq h]
    -- an element has one trigger
    have hone : s.moves .onMount i = true → s.moves .onVisible i = false := by
      rw [moves, moves]
      cases s.motion? i with
      | none => exact fun _ => rfl
      | some motion =>
        intro hmount
        rw [Option.any_some, of_decide_eq_true hmount]
        rfl
    by_cases hmount : s.moves .onMount i = true
    · rw [if_pos hmount, awaited_play, List.filter_cons_of_pos hmount,
        List.filter_cons_of_neg (by simp [hone hmount]), List.foldl_cons,
        play_withAwaited t (t.awaited ++ order.filter (s.moves .onVisible))]
    · rw [if_neg hmount, List.filter_cons_of_neg hmount]
      by_cases hvisible : s.moves .onVisible i = true
      · rw [if_pos hvisible, List.filter_cons_of_pos hvisible, List.append_assoc]
        rfl
      · rw [if_neg hvisible, List.filter_cons_of_neg hvisible]

/-- **Mounting a page for the first time** plays its motion on mount and then refreshes it. -/
theorem mount_eq (hs : s.forest.WellFormed) (hmounted : s.mounted = false) :
    s.mount = s.started.refresh := by
  have hstart : Descends s { s with mounted := true } := ⟨.refl hs, rfl⟩
  rw [mount, if_neg (by simp [hmounted]), foldl_mountMotion hstart]
  rfl

/-! ## What other calls play -/

/-- An event plays the motion of the innermost element that has one, if it has the trigger. -/
theorem moveOn_eq (s : Session) (trigger : Trigger) (i : Nat) :
    s.moveOn trigger i = ((s.mover? trigger i).map s.play).getD s := by
  rw [moveOn, mover?]
  cases s.forest.closest? i fun e => OrderedMap.contains motionAttribute e.attributes with
  | none => rfl
  | some mover =>
    dsimp only
    cases hmotion : s.motion? mover with
    | none => rw [Option.filter_some_neg (by simp [moves, hmotion])]; rfl
    | some motion =>
      dsimp only
      split_ifs with htrigger
      · rw [Option.filter_some_pos (by simp [moves, hmotion, htrigger]), Option.map_some,
          Option.getD_some, play_of_motion? hmotion]
      · rw [Option.filter_some_neg (by simp [moves, hmotion, htrigger])]
        rfl

theorem reveal_eq (s : Session) (id : String) : s.reveal id = (s.element id).map fun i =>
    if i ∈ s.awaited then (true, s.revealed i) else (false, s) := by
  rw [reveal]
  cases s.element id with
  | error fault => rfl
  | ok i =>
    dsimp only [Except.map, bind, Except.bind]
    by_cases hi : i ∈ s.awaited
    · rw [if_pos (List.contains_iff_mem.2 hi), if_pos hi]
      rfl
    · rw [if_neg fun h => hi (List.contains_iff_mem.1 h), if_neg hi]
      rfl

theorem endAnimation_eq (s : Session) (id : String) :
    s.endAnimation id = (s.element id).map s.withoutAnimation := by
  rw [endAnimation]
  cases s.element id with
  | error fault => rfl
  | ok i =>
    dsimp only [Except.map, bind, Except.bind]
    rw [List.partition_eq_filter_filter]
    rfl

end Session

/-! ## Cues one by one -/

/-- An effect brings the page in line with its state, or plays the animation that it names. -/
theorem Execution.of_mem_cues {execution : Execution} {cue : Cue} (h : cue ∈ execution.cues) :
    (∃ page, cue = .refresh page) ∨
      ∃ target name i, execution.effect = .animate target (some name) ∧ cue = .animate i name := by
  obtain ⟨s, source, effect⟩ := execution
  rw [cues] at h
  cases effect with
  | setState | appendState =>
    obtain ⟨key, -, rfl⟩ := List.mem_map.1 h
    exact .inl ⟨_, rfl⟩
  | animate target animation =>
    dsimp only at h
    split at h
    · next i name _ hname =>
      obtain ⟨rfl, -⟩ := Option.filter_eq_some_iff.1 hname
      exact .inr ⟨target, name, i, rfl, List.mem_singleton.1 h⟩
    · exact absurd h List.not_mem_nil
  | _ => exact absurd h List.not_mem_nil

theorem Session.eq_refresh_of_mem_writeCues {s : Session} {cue : Cue}
    {writes : List (String × Json)} (h : cue ∈ writeCues writes s) :
    ∃ page, cue = .refresh page := by
  induction writes generalizing s with
  | nil => exact absurd h List.not_mem_nil
  | cons entry writes ih =>
    rcases List.mem_cons.1 h with rfl | h
    · exact ⟨_, rfl⟩
    · exact ih h

/-- The cues of a call that runs effects come from these, from the motion that its event sets off,
and from answers. -/
theorem Start.of_mem_cues {start : Start} {network : Network} {cue : Cue}
    (h : cue ∈ start.cues network) :
    (∃ execution ∈ start.session.eventLog start.event start.target, cue ∈ execution.cues) ∨
      (∃ trigger i, start.trigger = some trigger ∧
        (start.session.runBindings start.event start.target).1.mover? trigger start.target =
          some i ∧ cue = .play i) ∨
      ∃ page, cue = .refresh page := by
  rw [cues] at h
  rcases List.mem_append.1 h with hlog | h
  · exact .inl (List.mem_flatMap.1 hlog)
  rcases List.mem_append.1 h with hplay | hanswer
  · obtain ⟨i, hmover, rfl⟩ := List.mem_map.1 hplay
    obtain ⟨trigger, htrigger, hfound⟩ := Option.bind_eq_some_iff.1 (Option.mem_toList.1 hmover)
    exact .inr (.inl ⟨trigger, i, htrigger, hfound, rfl⟩)
  · exact .inr (.inr (Session.eq_refresh_of_mem_writeCues hanswer))

/-- **What a call does to motion** is what the effects that it runs do, or it is what mounting the
page, coming into view, the end of an animation or a write do. -/
theorem Call.of_mem_cues {call : Call} {cue : Cue} (h : cue ∈ call.cues) :
    (∃ start, call.start? = some start ∧ cue ∈ start.cues call.network) ∨
    (call.interaction = .mount ∧ call.before.mounted = false ∧ cue ∈ call.before.mountCues) ∨
    (∃ id i, call.interaction = .reveal id ∧ cue = .reveal i) ∨
    (∃ id i, call.interaction = .endAnimation id ∧ cue = .endAnimation i) ∨
    ∃ key value, call.interaction = .write key value ∧
      cue = .refresh (call.before.withWritten key value) := by
  obtain ⟨s, network, interaction⟩ := call
  have hran (interaction : Interaction) (h : cue ∈
      ((Call.start? ⟨s, network, interaction⟩).map fun start => start.cues network).getD []) :
      ∃ start, Call.start? ⟨s, network, interaction⟩ = some start ∧ cue ∈ start.cues network := by
    cases hstart : Call.start? ⟨s, network, interaction⟩ with
    | none =>
      rw [hstart] at h
      exact absurd h List.not_mem_nil
    | some start =>
      rw [hstart] at h
      exact ⟨start, rfl, h⟩
  cases interaction with
  | mount =>
    rw [cues] at h
    dsimp only at h
    split_ifs at h with hmounted
    · exact absurd h List.not_mem_nil
    · exact .inr (.inl ⟨rfl, Bool.eq_false_iff.2 hmounted, h⟩)
  | dispatch | enter | hover => exact .inl (hran _ h)
  | reveal id =>
    obtain ⟨i, -, rfl⟩ := List.mem_map.1 h
    exact .inr (.inr (.inl ⟨id, i, rfl, rfl⟩))
  | advance => exact absurd h List.not_mem_nil
  | endAnimation id =>
    obtain ⟨i, -, rfl⟩ := List.mem_map.1 h
    exact .inr (.inr (.inr (.inl ⟨id, i, rfl, rfl⟩)))
  | write key value =>
    exact .inr (.inr (.inr (.inr ⟨key, value, rfl, List.mem_singleton.1 h⟩)))

/-- Animations are played by effects that name them. -/
theorem Call.exists_of_animate_mem_cues {call : Call} {i : Nat} {name : String}
    (h : .animate i name ∈ call.cues) :
    ∃ start, call.start? = some start ∧
      ∃ execution ∈ start.session.eventLog start.event start.target,
        ∃ target, execution.effect = .animate target (some name) := by
  obtain ⟨start, hstart, hcue⟩ | ⟨-, -, hcue⟩ | ⟨_, _, -, heq⟩ | ⟨_, _, -, heq⟩ | ⟨_, _, -, heq⟩ :=
    call.of_mem_cues h
  · refine ⟨start, hstart, ?_⟩
    obtain ⟨execution, hmem, hcue⟩ | ⟨_, _, -, -, heq⟩ | ⟨_, heq⟩ := start.of_mem_cues hcue
    · refine ⟨execution, hmem, ?_⟩
      obtain ⟨_, heq⟩ | ⟨target, other, _, heffect, heq⟩ := execution.of_mem_cues hcue
      · cases heq
      · cases heq
        exact ⟨target, heffect⟩
    · cases heq
    · cases heq
  · simp [Session.mountCues] at hcue
  · cases heq
  · cases heq
  · cases heq

/-! ## The pages that calls bring in line -/

theorem refreshed_append (cues more : List Cue) :
    refreshed (cues ++ more) = refreshed cues ++ refreshed more :=
  List.filterMap_append

theorem refreshed_map_eq_nil {α : Type} {cue : α → Cue} (as : List α)
    (h : ∀ a, refreshed [cue a] = []) : refreshed (as.map cue) = [] := by
  induction as with
  | nil => rfl
  | cons a as ih => rw [List.map_cons, ← List.singleton_append, refreshed_append, h, ih]; rfl

theorem Execution.map_refresh_cues (execution : Execution) :
    (refreshed execution.cues).map Session.refresh = execution.written?.toList := by
  obtain ⟨s, source, effect⟩ := execution
  rw [cues, written?]
  cases effect with
  | setState key value | appendState key value =>
    cases hkey : Session.stated key with
    | none => simp only [hkey]; rfl
    | some key => simp only [hkey]; rfl
  | animate target animation =>
    dsimp only
    split <;> rfl
  | _ => rfl

namespace Session

theorem map_refresh_flatMap (log : List Execution) :
    (refreshed (log.flatMap Execution.cues)).map Session.refresh =
      log.filterMap Execution.written? := by
  induction log with
  | nil => rfl
  | cons execution log ih =>
    rw [List.flatMap_cons, refreshed_append, List.map_append, ih, execution.map_refresh_cues]
    cases hwritten : execution.written? with
    | none => rw [List.filterMap_cons_none hwritten]; rfl
    | some t => rw [List.filterMap_cons_some hwritten]; rfl

theorem map_refresh_writeCues (writes : List (String × Json)) (s : Session) :
    (refreshed (writeCues writes s)).map Session.refresh = s.afterWrites writes := by
  induction writes generalizing s with
  | nil => rfl
  | cons entry writes ih =>
    rw [afterWrites, ← ih]
    rfl

/-- **Every write is a refresh**: the pages right after the writes of a call are those that it
brings in line, brought in line. -/
theorem map_refresh_cues {call : Call} (hs : call.before.forest.WellFormed) :
    (refreshed call.cues).map Session.refresh = call.writes := by
  obtain ⟨s, network, interaction⟩ := call
  have heffects (interaction : Interaction) : (refreshed
      (((Call.start? ⟨s, network, interaction⟩).map fun start => start.cues network).getD [])).map
        Session.refresh = Call.effectWrites ⟨s, network, interaction⟩ := by
    rw [Call.effectWrites, Call.acted?_eq]
    cases hstart : Call.start? ⟨s, network, interaction⟩ with
    | none => rfl
    | some start =>
      have hplays (order : List Nat) : refreshed (order.map .play) = [] :=
        refreshed_map_eq_nil order fun _ => rfl
      dsimp only [Option.map_some, Option.getD_some]
      rw [Start.cues, refreshed_append, refreshed_append, List.map_append, List.map_append,
        map_refresh_flatMap, hplays, map_refresh_writeCues, Call.log_eq_of_start? hstart]
      rfl
  cases interaction with
  | mount =>
    rw [Call.cues, Call.writes]
    dsimp only
    split_ifs with hmounted
    · rfl
    · rw [mountCues, ← List.singleton_append, refreshed_append, refreshed_append,
        refreshed_map_eq_nil _ fun _ => rfl, mount_eq hs (Bool.eq_false_iff.2 hmounted)]
      rfl
  | dispatch | enter | hover => exact heffects _
  | reveal id => exact congrArg _ (refreshed_map_eq_nil _ fun _ => rfl)
  | endAnimation id => exact congrArg _ (refreshed_map_eq_nil _ fun _ => rfl)
  | advance => rfl
  | write key value => rfl

end Session

end PageTree
