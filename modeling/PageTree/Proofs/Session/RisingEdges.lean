import PageTree.Proofs.Session.Courses

/-!
# Motion on state

Motion on state plays when its key becomes true, and not again until the key has been false. A page
does not look at the key all the time: only when it is brought in line with its state, that is when
it is mounted and after each write. Between two of these nothing touches the record of what waits,
so the record says just what the key was at the last of them. It says so for elements that were in
the document then, and those are all that can be in it later.

## Main definitions

* `Session.Remembers`: what waits on a page, told by the last time that it was brought in line

## Main results

* `Session.Course.remembers`: so it is on every course
* `Session.Reaches.plays_on_rising_edges`
-/

namespace PageTree

/-- Where a list stands out that ends with an element: at its end, or somewhere in front of it. -/
theorem concat_eq_append_cons_iff {α : Type} {l before after : List α} {a b : α} :
    l ++ [a] = before ++ b :: after ↔ (l = before ∧ a = b ∧ after = []) ∨
      ∃ rest, after = rest ++ [a] ∧ l = before ++ b :: rest := by
  constructor
  · intro h
    rcases List.eq_nil_or_concat after with rfl | ⟨rest, last, rfl⟩
    · obtain ⟨hbefore, hlast⟩ := List.append_inj' h rfl
      exact .inl ⟨hbefore, (List.cons.inj hlast).1, rfl⟩
    · rw [List.concat_eq_append, ← List.cons_append, ← List.append_assoc] at h
      obtain ⟨hbefore, hlast⟩ := List.append_inj' h rfl
      exact .inr ⟨rest, by rw [List.concat_eq_append, (List.cons.inj hlast).1], hbefore⟩
  · rintro (⟨rfl, rfl, rfl⟩ | ⟨rest, rfl, rfl⟩)
    · rfl
    · rw [List.append_assoc, List.cons_append]

namespace Session

variable {s₀ s s' last page : Session} {i : Nat} {motion : Motion} {cues more : List Cue}

/-- What is in the document was in it before, if it moves. -/
theorem mem_preorder_of_descends (h : Descends s s') (hs : s.forest.WellFormed)
    (hmotion : s.motion? i = some motion) (hi : i ∈ s'.forest.preorder) :
    i ∈ s.forest.preorder := by
  have hs' := h.forest.wellFormed
  have hroom := Stages.lt_size_of_motion? ⟨.refl hs, rfl⟩ hmotion
  have hattached := h.forest.isAttached hs hroom (Forest.isAttached_of_mem_preorder hs' hi)
  exact (Forest.mem_preorder_iff_isAttached hs (Forest.ne_root_of_mem_preorder hs' hi)).2 hattached

theorem wants_eq_false_of_no_key (h : motion.timing.stateKey = none) (s : Session) :
    s.wants motion = false := by
  rw [wants, h]
  rfl

/-- The motion of an element in the document plays if its key is true and it does not wait. -/
theorem mem_risen_iff (hi : i ∈ s.forest.preorder) (hmotion : s.motion? i = some motion)
    (htrigger : motion.trigger = .onState) :
    i ∈ s.risen ↔ s.wants motion = true ∧ i ∉ s.spent := by
  rw [risen, List.mem_filter, rises, stateMotion?_eq_some.2 ⟨hmotion, htrigger⟩]
  simp [hi]

/-- A refresh plays motion on state and no other. -/
theorem trigger_of_mem_risen (h : i ∈ s.risen) :
    ∃ motion, s.motion? i = some motion ∧ motion.trigger = .onState := by
  have hrises := (List.mem_filter.1 h).2
  rw [rises, Bool.and_eq_true, Option.any_eq_true] at hrises
  obtain ⟨motion, hmotion, -⟩ := hrises.1
  exact ⟨motion, stateMotion?_eq_some.1 hmotion⟩

/-! ## What waits -/

/-- What the steps so far have left behind. -/
structure Remembers (s₀ : Session) (cues : List Cue) (s : Session) : Prop where
  /-- Motion on visible is awaited, and no other. -/
  awaited : ∀ i ∈ s.awaited, s₀.moves .onVisible i = true
  /-- At first nothing waits. -/
  fresh : (refreshed cues).getLast? = none → s.spent = []
  /-- The page came from the one that was brought in line last. -/
  descends : ∀ last, (refreshed cues).getLast? = some last → last.forest.WellFormed ∧
    Descends last s
  /-- Then what waits is what was true when the page was brought in line last. -/
  spent : ∀ last, (refreshed cues).getLast? = some last → ∀ i ∈ last.forest.preorder, ∀ motion,
    last.motion? i = some motion → motion.trigger = .onState →
      (i ∈ s.spent ↔ last.wants motion = true)

/-- Steps other than a refresh leave alone what waits. -/
theorem Beat.spent_eq (h : Beat s cues s') (hcues : refreshed cues = []) : s'.spent = s.spent := by
  cases h with
  | calm hcalm => exact hcalm.spent
  | mount | animate | endAnimation => rfl
  | refresh => cases hcues
  | play => exact spent_play _ _
  | reveal => exact spent_play _ _

/-- Only mounting has more awaited. -/
theorem Beat.moves_of_mem_awaited (h : Beat s cues s') (hs₀ : Descends s₀ s)
    (hawaited : ∀ i ∈ s.awaited, s₀.moves .onVisible i = true) :
    ∀ i ∈ s'.awaited, s₀.moves .onVisible i = true := by
  cases h with
  | calm hcalm => rwa [hcalm.awaited]
  | mount =>
    intro i hi
    rcases List.mem_append.1 hi with hi | hi
    · exact hawaited i hi
    · rw [← moves_eq_of_descends hs₀]
      exact (List.mem_filter.1 hi).2
  | refresh => rwa [((underway_refresh hs₀.forest.wellFormed).refreshes).awaited]
  | play => rwa [awaited_play]
  | @reveal _ j =>
    rw [revealed, awaited_play]
    exact fun i hi => hawaited i (List.mem_of_mem_erase hi)
  | animate | endAnimation => exact hawaited

/-- A step brings the page in line or it does not. -/
theorem Beat.refreshes_or (h : Beat s cues s') :
    refreshed cues = [] ∨ cues = [.refresh s] ∧ s' = s.refresh := by
  cases h with
  | refresh => exact .inr ⟨rfl, rfl⟩
  | _ => exact .inl rfl

theorem Remembers.snoc (h : Remembers s₀ cues s) (hs : Descends s₀ s) (hbeat : Beat s more s') :
    Remembers s₀ (cues ++ more) s' := by
  have hawaited := hbeat.moves_of_mem_awaited hs h.awaited
  rcases hbeat.refreshes_or with hnone | ⟨rfl, rfl⟩
  · have hsame : refreshed (cues ++ more) = refreshed cues := by
      rw [refreshed_append, hnone, List.append_nil]
    have hspent := hbeat.spent_eq hnone
    refine ⟨hawaited, ?_, ?_, ?_⟩
    · rw [hsame, hspent]
      exact h.fresh
    · rw [hsame]
      exact fun last hlast => ⟨(h.descends last hlast).1, hbeat.descends (h.descends last hlast).2⟩
    · rw [hsame, hspent]
      exact h.spent
  · have hlast : (refreshed (cues ++ [.refresh s])).getLast? = some s := by
      rw [refreshed_append]
      exact List.getLast?_concat
    have hwell := hs.forest.wellFormed
    refine ⟨hawaited, ?_, ?_, ?_⟩
    · rw [hlast]
      exact fun hnone => nomatch hnone
    · rw [hlast]
      rintro last ⟨⟩
      exact ⟨hwell, Descends.refresh ⟨.refl hwell, rfl⟩⟩
    · rw [hlast]
      rintro last ⟨⟩ i hi motion hmotion htrigger
      exact mem_spent_refresh hwell hi hmotion htrigger

/-- **Every course leaves a record** of what was true when the page was brought in line last. -/
theorem Course.remembers (hfresh : s₀.IsFresh) (h : Course s₀ cues s) : Remembers s₀ cues s := by
  induction h with
  | refl =>
    refine ⟨?_, fun _ => hfresh.spent, fun _ hlast => ?_, fun _ hlast => ?_⟩
    · rw [hfresh.awaited]
      exact List.forall_mem_nil _
    · cases hlast
    · cases hlast
  | snoc hcourse hbeat ih =>
    exact ih.snoc (hcourse.descends ⟨.refl hfresh.wellFormed, rfl⟩) hbeat

/-! ## When motion on state plays -/

/-- What a refresh plays, told by the pages that were brought in line before. -/
theorem Remembers.mem_risen_iff (h : Remembers s₀ cues page) (hpage : Descends s₀ page)
    (hmotion : s₀.motion? i = some motion) (htrigger : motion.trigger = .onState)
    (hi : i ∈ page.forest.preorder) :
    i ∈ page.risen ↔ page.wants motion = true ∧
      ∀ last, (refreshed cues).getLast? = some last → last.wants motion = false := by
  have hlater : page.motion? i = some motion := (motion?_eq_of_descends hpage i).trans hmotion
  rw [Session.mem_risen_iff hi hlater htrigger]
  refine and_congr_right fun _ => ?_
  cases hlast : (refreshed cues).getLast? with
  | none =>
    rw [h.fresh hlast]
    exact iff_of_true List.not_mem_nil fun _ hnone => nomatch hnone
  | some last =>
    obtain ⟨hwell, hdescends⟩ := h.descends last hlast
    have hbefore : last.motion? i = some motion := by
      rw [← motion?_eq_of_descends hdescends]
      exact hlater
    have hin := mem_preorder_of_descends hdescends hwell hbefore hi
    rw [h.spent last hlast i hin motion hbefore htrigger]
    simp

/-- Wherever a course brings the page in line, what that plays is told by what came before. -/
theorem Course.mem_risen_iff (hfresh : s₀.IsFresh) (h : Course s₀ cues s)
    (hmotion : s₀.motion? i = some motion) (htrigger : motion.trigger = .onState)
    {before after : List Session} (hsplit : refreshed cues = before ++ page :: after)
    (hi : i ∈ page.forest.preorder) :
    i ∈ page.risen ↔ page.wants motion = true ∧
      ∀ last, before.getLast? = some last → last.wants motion = false := by
  induction h generalizing after with
  | refl => exact absurd hsplit.symm (List.append_ne_nil_of_right_ne_nil _ (List.cons_ne_nil _ _))
  | @snoc s s' cues more hcourse hbeat ih =>
    rcases hbeat.refreshes_or with hnone | ⟨rfl, rfl⟩
    · rw [refreshed_append, hnone, List.append_nil] at hsplit
      exact ih hsplit
    · rw [refreshed_append] at hsplit
      rcases concat_eq_append_cons_iff.1 hsplit with ⟨rfl, rfl, -⟩ | ⟨rest, -, hearlier⟩
      · have hdescends := hcourse.descends ⟨.refl hfresh.wellFormed, rfl⟩
        exact (hcourse.remembers hfresh).mem_risen_iff hdescends hmotion htrigger hi
      · exact ih hearlier

/-- Motion on state is played by refreshes, and by nothing else. -/
theorem Course.eq_refresh_of_mem_played (hfresh : s₀.IsFresh) (h : Course s₀ cues s)
    (hmotion : s₀.motion? i = some motion) (htrigger : motion.trigger = .onState) :
    ∀ cue ∈ cues, i ∈ cue.played → ∃ page, cue = .refresh page := by
  induction h with
  | refl => exact List.forall_mem_nil _
  | @snoc s s' cues more hcourse hbeat ih =>
    refine List.forall_mem_append.2 ⟨ih, ?_⟩
    have hdescends := hcourse.descends ⟨.refl hfresh.wellFormed, rfl⟩
    cases hbeat with
    | calm => exact List.forall_mem_nil _
    | mount | animate | endAnimation =>
      exact List.forall_mem_singleton.2 fun hi => absurd hi List.not_mem_nil
    | refresh => exact List.forall_mem_singleton.2 fun _ => ⟨_, rfl⟩
    | play hplayed hother =>
      refine List.forall_mem_singleton.2 fun hi => ?_
      obtain rfl := List.mem_singleton.1 hi
      rw [motion?_eq_of_descends hdescends, hmotion] at hplayed
      exact absurd (Option.some.inj hplayed ▸ htrigger) hother
    | reveal hawaited =>
      refine List.forall_mem_singleton.2 fun hi => ?_
      obtain rfl := List.mem_singleton.1 hi
      obtain ⟨other, hother, hvisible⟩ :=
        moves_iff.1 ((hcourse.remembers hfresh).awaited _ hawaited)
      rw [hmotion] at hother
      obtain rfl := Option.some.inj hother
      cases htrigger.symm.trans hvisible

/-- The pages that are brought in line keep what lasts. -/
theorem Course.descends_of_mem_refreshed (hs : s₀.forest.WellFormed) (h : Course s₀ cues s) :
    ∀ page ∈ refreshed cues, Descends s₀ page := by
  induction h with
  | refl => exact List.forall_mem_nil _
  | snoc hcourse hbeat ih =>
    rw [refreshed_append]
    refine List.forall_mem_append.2 ⟨ih, ?_⟩
    rcases hbeat.refreshes_or with hnone | ⟨rfl, -⟩
    · rw [hnone]
      exact List.forall_mem_nil _
    · exact List.forall_mem_singleton.2 (hcourse.descends ⟨.refl hs, rfl⟩)

/-- The pages right after the writes of all calls. -/
theorem Reaches.map_refresh {calls : List Call} (h : Reaches s₀ calls s)
    (hs : s₀.forest.WellFormed) :
    (refreshed (calls.flatMap Call.cues)).map refresh = calls.flatMap Call.writes := by
  induction h with
  | start => rfl
  | call hcalls _ ih =>
    rw [List.flatMap_append, List.flatMap_append, refreshed_append, List.map_append, ih,
      List.flatMap_singleton, List.flatMap_singleton]
    exact congrArg _ (map_refresh_cues ((hcalls.course hs).wellFormed hs))

/-- **Motion on state plays exactly on rising edges.** All that is done with a page is a course,
whose cues tell when the page is brought in line with its state: right before each write of a call
has its effect on the elements, and when the page is mounted for the first time. Bringing it in line
plays nothing but the motion of the elements that rise, and an element in the document rises just in
case its key is true then and was not the time before, if there was one. Nothing else plays this
motion, and without a key it never plays. -/
theorem Reaches.plays_on_rising_edges {html : String} {calls : List Call}
    (hload : load html = .ok s₀) (h : Reaches s₀ calls s) :
    Course s₀ (calls.flatMap Call.cues) s ∧
    (refreshed (calls.flatMap Call.cues)).map refresh = calls.flatMap Call.writes ∧
    (∀ page ∈ refreshed (calls.flatMap Call.cues), Calm page page.aligned ∧
      page.refresh = { page.risen.foldl play page.aligned with spent := page.refresh.spent }) ∧
    ∀ i motion, s₀.motion? i = some motion → motion.trigger = .onState →
      (∀ cue ∈ calls.flatMap Call.cues, i ∈ cue.played → ∃ page, cue = .refresh page) ∧
      ∀ before page after, refreshed (calls.flatMap Call.cues) = before ++ page :: after →
        i ∈ page.forest.preorder →
        (i ∈ page.risen ↔ page.wants motion = true ∧
          ∀ last, before.getLast? = some last → last.wants motion = false) ∧
        (motion.timing.stateKey = none → i ∉ page.risen) := by
  have hfresh := isFresh_of_load hload
  have hcourse := h.course hfresh.wellFormed
  refine ⟨hcourse, h.map_refresh hfresh.wellFormed, fun page hpage => ?_,
    fun i motion hmotion htrigger => ⟨hcourse.eq_refresh_of_mem_played hfresh hmotion htrigger,
      fun before page after hsplit hi => ?_⟩⟩
  · have hs := (hcourse.descends_of_mem_refreshed hfresh.wellFormed page hpage).forest.wellFormed
    exact ⟨.aligned hs, refresh_eq hs⟩
  · have hrises := hcourse.mem_risen_iff hfresh hmotion htrigger hsplit hi
    refine ⟨hrises, fun hkey hrisen => ?_⟩
    rw [wants_eq_false_of_no_key hkey] at hrises
    exact Bool.noConfusion (hrises.1 hrisen).1

/-- Markup with a text that moves when a key becomes true. -/
def blinker : String :=
  "<p data-ir-motion='[\"preset\",\"pulse\"," ++ "null,null,null," ++
    "\"onState\",\"lit\"]'></p>"

/-- The key is written before the page is mounted, stays true, and comes back after it was false. -/
def blinks : List Interaction :=
  [.write "lit" (.bool true), .mount, .write "lit" (.bool false), .write "lit" (.natural 1)]

/-- The text moves at the first and at the last of four refreshes. -/
theorem Reaches.plays_on_rising_edges_blinker : ∃ s₀ calls s motion, load blinker = .ok s₀ ∧
    Reaches s₀ calls s ∧ s₀.motion? 1 = some motion ∧ motion.trigger = .onState ∧
    ∃ written mounted cleared page,
      refreshed (calls.flatMap Call.cues) = [written, mounted, cleared, page] ∧
      1 ∈ written.risen ∧ 1 ∉ mounted.risen ∧ 1 ∈ page.forest.preorder ∧ 1 ∈ page.risen ∧
      page.wants motion = true ∧ cleared.wants motion = false := by
  obtain ⟨s₀, calls, s, hload, hcalls, hviews⟩ :=
    exists_reaches_of_calls (ofList_append_append _ _ _ : blinker = _) (.ofAnswers []) blinks
      (fun s₀ calls _ =>
        ((s₀.motion? 1).map fun motion : Motion => decide (motion.trigger = .onState),
          (refreshed (calls.flatMap Call.cues)).map fun page : Session =>
            (page.forest.preorder, page.risen)))
      (some true, [([1], [1]), ([1], []), ([1], []), ([1], [1])]) (by decide +kernel)
  obtain ⟨hmotions, hpages⟩ := Prod.mk.inj hviews
  obtain ⟨motion, hmotion, htrigger⟩ := Option.map_eq_some_iff.1 hmotions
  have htrigger := of_decide_eq_true htrigger
  obtain ⟨written, pages, hcues, hwritten, hpages⟩ := List.map_eq_cons_iff.1 hpages
  obtain ⟨mounted, pages, rfl, hmounted, hpages⟩ := List.map_eq_cons_iff.1 hpages
  obtain ⟨cleared, pages, rfl, hcleared, hpages⟩ := List.map_eq_cons_iff.1 hpages
  obtain ⟨page, pages, rfl, hpage, hpages⟩ := List.map_eq_cons_iff.1 hpages
  obtain rfl := List.map_eq_nil_iff.1 hpages
  obtain ⟨hin, hrisen⟩ := Prod.mk.inj hpage
  have hin : 1 ∈ page.forest.preorder := hin ▸ List.mem_singleton_self 1
  have hrisen : 1 ∈ page.risen := hrisen ▸ List.mem_singleton_self 1
  obtain ⟨-, -, -, hplays⟩ := Reaches.plays_on_rising_edges hload hcalls
  obtain ⟨hedge, -⟩ := (hplays 1 motion hmotion htrigger).2 [written, mounted, cleared] page []
    hcues hin
  obtain ⟨hwants, hbefore⟩ := hedge.1 hrisen
  refine ⟨s₀, calls, s, motion, hload, hcalls, hmotion, htrigger, written, mounted, cleared, page,
    hcues, ?_, ?_, hin, hrisen, hwants, hbefore cleared rfl⟩
  · exact (Prod.mk.inj hwritten).2 ▸ List.mem_singleton_self 1
  · exact (Prod.mk.inj hmounted).2 ▸ List.not_mem_nil

end Session

end PageTree
