import PageTree.Proofs.Json.Records
import PageTree.Tree.Motion

/-!
# Motion survives printing

A motion that was read is read back from what is written of it.

## Main results

* `Iterations.codec`, `Motion.codec`
-/

namespace PageTree

open Record

theorem Iterations.naturalBelow_of_read {literal : Literal} {n : Nat}
    (h : read literal = some (.count n)) : naturalBelow (twoTo 32) literal = some n := by
  unfold read at h
  split at h
  · next m hm =>
    cases Option.some.inj h
    exact hm
  all_goals cases h

theorem Iterations.codec : Codec 0 read read json where
  survives {literal iterations d} h _ _ := by
    cases iterations with
    | infinite => exact ⟨rfl, trivial, Nat.zero_le d⟩
    | count n =>
      have hback := ((Codec.naturalBelow (twoTo 32)).survives (naturalBelow_of_read h)
        (Nat.le_refl _) (Nat.zero_le _)).back
      refine ⟨?_, trivial, Nat.zero_le d⟩
      rw [json, read.eq_1 _ n hback]
  solid {_ iterations} _ _ := by
    cases iterations with
    | _ => exact nofun

namespace Motion

/-- The timing of a motion survives. -/
theorem stores_timing {d : Nat} {field : String → Option Literal} {timing : Timing}
    (h : readTiming field = some timing) (hwithin : Within d field) :
    Stores d "duration" (nullable (naturalBelow (twoTo 32)))
      (Json.fieldIf "duration" .natural timing.duration) timing.duration ∧
    Stores d "delay" (nullable (naturalBelow (twoTo 32)))
      (Json.fieldIf "delay" .natural timing.delay) timing.delay ∧
    Stores d "easing" (nullable string) (Json.fieldIf "easing" .str timing.easing)
      timing.easing ∧
    Stores d "trigger" (nullable (word true)) (Json.fieldIf "trigger" .word timing.trigger)
      timing.trigger ∧
    Stores d "stateKey" (nullable string) (Json.fieldIf "stateKey" .str timing.stateKey)
      timing.stateKey := by
  obtain ⟨duration, hduration, h⟩ := Option.bind_eq_some_iff.1 h
  obtain ⟨delay, hdelay, h⟩ := Option.bind_eq_some_iff.1 h
  obtain ⟨easing, heasing, h⟩ := Option.bind_eq_some_iff.1 h
  obtain ⟨trigger, htrigger, h⟩ := Option.bind_eq_some_iff.1 h
  obtain ⟨stateKey, hstateKey, h⟩ := Option.bind_eq_some_iff.1 h
  obtain rfl := Option.some.inj h
  exact ⟨(Codec.naturalBelow _).nullable hduration (hwithin _) (Nat.zero_le d) _,
    (Codec.naturalBelow _).nullable hdelay (hwithin _) (Nat.zero_le d) _,
    Codec.string.nullable heasing (hwithin _) (Nat.zero_le d) _,
    (Codec.word true true).nullable htrigger (hwithin _) (Nat.zero_le d) _,
    Codec.string.nullable hstateKey (hwithin _) (Nat.zero_le d) _⟩

/-- Which kind of motion it is. -/
def mode : Motion → MotionMode
  | .preset .. => .preset
  | .keyframes .. => .keyframes

open Json in
/-- The fields of a motion beside its kind. -/
def jsonFields : Motion → List (Option (String × Json))
  | .preset p timing =>
    [field "preset" (.word p), fieldIf "duration" .natural timing.duration,
      fieldIf "delay" .natural timing.delay, fieldIf "easing" .str timing.easing,
      fieldIf "trigger" .word timing.trigger, fieldIf "stateKey" .str timing.stateKey]
  | .keyframes frames timing iterations fill =>
    [field "keyframes" (.arr (frames.map .obj)), fieldIf "duration" .natural timing.duration,
      fieldIf "delay" .natural timing.delay, fieldIf "easing" .str timing.easing,
      fieldIf "iterations" Iterations.json iterations, fieldIf "fill" .word fill,
      fieldIf "trigger" .word timing.trigger, fieldIf "stateKey" .str timing.stateKey]

theorem json_eq (motion : Motion) :
    motion.json = .record (Json.field "mode" (.word motion.mode) :: motion.jsonFields) := by
  cases motion with
  | _ => rfl

theorem codec (inTagged again : Bool) : Codec 0 (read inTagged) (read again) json := by
  refine Codec.tagged (fun _ => rfl) (fun _ => rfl) json_eq fun mode => ?_
  cases mode with
  | preset =>
    refine ⟨_, _, by decide, fun _ => rfl, fun {field motion d} h hwithin _ => ?_⟩
    obtain ⟨p, hp, h⟩ := Option.bind_eq_some_iff.1 h
    obtain ⟨timing, htiming, h⟩ := Option.bind_eq_some_iff.1 h
    obtain rfl := Option.some.inj h
    have sp := (Codec.word true true).required hp (hwithin _) (Nat.zero_le d) "preset"
    obtain ⟨sduration, sdelay, seasing, strigger, sstateKey⟩ := stores_timing htiming hwithin
    refine ⟨rfl, .cons sp.fits (.cons sduration.fits (.cons sdelay.fits (.cons seasing.fits
      (.cons strigger.fits (.cons sstateKey.fits .nil))))), fun {field} hfinds => ?_⟩
    rcases hfinds with _ | ⟨fp, _ | ⟨fduration, _ | ⟨fdelay, _ | ⟨feasing, _ | ⟨ftrigger,
      _ | ⟨fstateKey, _⟩⟩⟩⟩⟩⟩
    simp only [readTiming, fp, fduration, fdelay, feasing, ftrigger, fstateKey, sp.back,
      sduration.back, sdelay.back, seasing.back, strigger.back, sstateKey.back, bind, pure,
      Option.bind_some]
  | keyframes =>
    refine ⟨_, _, by decide, fun _ => rfl, fun {field motion d} h hwithin _ => ?_⟩
    obtain ⟨frames, hframes, h⟩ := Option.bind_eq_some_iff.1 h
    obtain ⟨timing, htiming, h⟩ := Option.bind_eq_some_iff.1 h
    obtain ⟨iterations, hiterations, h⟩ := Option.bind_eq_some_iff.1 h
    obtain ⟨fill, hfill, h⟩ := Option.bind_eq_some_iff.1 h
    obtain rfl := Option.some.inj h
    have sframes := (Codec.anyMembers.listOf (Nat.zero_le _)).required hframes (hwithin _)
      (Nat.zero_le d) "keyframes"
    have siterations :=
      Iterations.codec.nullable hiterations (hwithin _) (Nat.zero_le d) "iterations"
    have sfill := (Codec.word true true).nullable hfill (hwithin _) (Nat.zero_le d) "fill"
    obtain ⟨sduration, sdelay, seasing, strigger, sstateKey⟩ := stores_timing htiming hwithin
    refine ⟨rfl, .cons sframes.fits (.cons sduration.fits (.cons sdelay.fits (.cons seasing.fits
      (.cons siterations.fits (.cons sfill.fits (.cons strigger.fits (.cons sstateKey.fits
      .nil))))))), fun {field} hfinds => ?_⟩
    rcases hfinds with _ | ⟨fframes, _ | ⟨fduration, _ | ⟨fdelay, _ | ⟨feasing,
      _ | ⟨fiterations, _ | ⟨ffill, _ | ⟨ftrigger, _ | ⟨fstateKey, _⟩⟩⟩⟩⟩⟩⟩⟩
    simp only [readTiming, fframes, fduration, fdelay, feasing, fiterations, ffill, ftrigger,
      fstateKey, sframes.back, sduration.back, sdelay.back, seasing.back, siterations.back,
      sfill.back, strigger.back, sstateKey.back, bind, pure, Option.bind_some]

end Motion

end PageTree
