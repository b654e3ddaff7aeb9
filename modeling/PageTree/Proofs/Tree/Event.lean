import PageTree.Proofs.Json.Records
import PageTree.Tree.Event

/-!
# Bindings survive printing

A binding that was read is read back from what is written of it, with its conditions and effects.

## Main results

* `Condition.codec`, `Effect.codec`, `Binding.codec`
-/

namespace PageTree

open Record

theorem Condition.codec (inTagged again : Bool) : Codec 0 (read inTagged) (read again) json := by
  refine Codec.record (by decide) (fun _ => rfl) (fun _ => rfl) (fun _ => rfl)
    fun {field c d} h hwithin _ => ?_
  obtain ⟨key, hkey, h⟩ := Option.bind_eq_some_iff.1 h
  obtain ⟨relation, hrelation, h⟩ := Option.bind_eq_some_iff.1 h
  obtain ⟨value, hvalue, h⟩ := Option.bind_eq_some_iff.1 h
  obtain rfl := Option.some.inj h
  exact .cons (Codec.string.required hkey (hwithin _) (Nat.zero_le d) _)
    (.cons ((Codec.word inTagged again).required hrelation (hwithin _) (Nat.zero_le d) _)
      (.cons (Codec.anyValue.nullable hvalue (hwithin _) (Nat.zero_le d) _) .done))

/-- A value that is missing is `null`. -/
theorem survives_null (d : Nat) : Survives anyValue id d .null :=
  ⟨rfl, trivial, Nat.zero_le d⟩

theorem Effect.codec (inTagged again : Bool) : Codec 0 (read inTagged) (read again) json := by
  refine Codec.tagged (fun _ => rfl) (fun _ => rfl) (fun _ => rfl) fun kind => ?_
  cases kind with
  | toggle =>
    refine ⟨_, _, by decide, fun _ => rfl, fun {field effect d} h hwithin _ => ?_⟩
    obtain ⟨target, htarget, h⟩ := Option.bind_eq_some_iff.1 h
    obtain rfl := Option.some.inj h
    exact ⟨rfl, .cons (Codec.string.nullable htarget (hwithin _) (Nat.zero_le d) _) .done⟩
  | setState | appendState =>
    refine ⟨_, _, by decide, fun _ => rfl, fun {field effect d} h hwithin _ => ?_⟩
    obtain ⟨key, hkey, h⟩ := Option.bind_eq_some_iff.1 h
    obtain ⟨value, hvalue, h⟩ := Option.bind_eq_some_iff.1 h
    obtain rfl := Option.some.inj h
    exact ⟨rfl, .cons (Codec.string.nullable hkey (hwithin _) (Nat.zero_le d) _)
      (.cons (Codec.anyValue.withDefault hvalue (survives_null d) (hwithin _) (Nat.zero_le d) _)
        .done)⟩
  | fetch =>
    refine ⟨_, _, by decide, fun _ => rfl, fun {field effect d} h hwithin _ => ?_⟩
    obtain ⟨url, hurl, h⟩ := Option.bind_eq_some_iff.1 h
    obtain ⟨method, hmethod, h⟩ := Option.bind_eq_some_iff.1 h
    obtain ⟨body, hbody, h⟩ := Option.bind_eq_some_iff.1 h
    obtain ⟨resultKey, hresultKey, h⟩ := Option.bind_eq_some_iff.1 h
    obtain rfl := Option.some.inj h
    exact ⟨rfl, .cons (Codec.string.nullable hurl (hwithin _) (Nat.zero_le d) _)
      (.cons ((Codec.word true true).nullable hmethod (hwithin _) (Nat.zero_le d) _)
        (.cons (Codec.anyValue.nullable hbody (hwithin _) (Nat.zero_le d) _)
          (.cons (Codec.string.nullable hresultKey (hwithin _) (Nat.zero_le d) _) .done)))⟩
  | emit =>
    refine ⟨_, _, by decide, fun _ => rfl, fun {field effect d} h hwithin _ => ?_⟩
    obtain ⟨event, hevent, h⟩ := Option.bind_eq_some_iff.1 h
    obtain rfl := Option.some.inj h
    exact ⟨rfl, .cons (Codec.string.nullable hevent (hwithin _) (Nat.zero_le d) _) .done⟩
  | animate =>
    refine ⟨_, _, by decide, fun _ => rfl, fun {field effect d} h hwithin _ => ?_⟩
    obtain ⟨target, htarget, h⟩ := Option.bind_eq_some_iff.1 h
    obtain ⟨animation, hanimation, h⟩ := Option.bind_eq_some_iff.1 h
    obtain rfl := Option.some.inj h
    exact ⟨rfl, .cons (Codec.string.nullable htarget (hwithin _) (Nat.zero_le d) _)
      (.cons (Codec.string.nullable hanimation (hwithin _) (Nat.zero_le d) _) .done)⟩
  | focus =>
    refine ⟨_, _, by decide, fun _ => rfl, fun {field effect d} h hwithin _ => ?_⟩
    obtain ⟨target, htarget, h⟩ := Option.bind_eq_some_iff.1 h
    obtain ⟨selector, hselector, h⟩ := Option.bind_eq_some_iff.1 h
    obtain rfl := Option.some.inj h
    exact ⟨rfl, .cons (Codec.string.nullable htarget (hwithin _) (Nat.zero_le d) _)
      (.cons (Codec.string.nullable hselector (hwithin _) (Nat.zero_le d) _) .done)⟩
  | toast =>
    refine ⟨_, _, by decide, fun _ => rfl, fun {field effect d} h hwithin _ => ?_⟩
    obtain ⟨message, hmessage, h⟩ := Option.bind_eq_some_iff.1 h
    obtain ⟨variant, hvariant, h⟩ := Option.bind_eq_some_iff.1 h
    obtain rfl := Option.some.inj h
    exact ⟨rfl, .cons (Codec.string.nullable hmessage (hwithin _) (Nat.zero_le d) _)
      (.cons ((Codec.word true true).nullable hvariant (hwithin _) (Nat.zero_le d) _) .done)⟩

/-- A binding without effects is written with an empty list of them, so it takes two containers. -/
theorem Binding.codec (inTagged again : Bool) : Codec 2 (read inTagged) (read again) json := by
  refine Codec.record (by decide) (fun _ => rfl) (fun _ => rfl) (fun _ => rfl)
    fun {field b d} h hwithin hd => ?_
  obtain ⟨event, hevent, h⟩ := Option.bind_eq_some_iff.1 h
  obtain ⟨conditions, hconditions, h⟩ := Option.bind_eq_some_iff.1 h
  obtain ⟨effects, heffects, h⟩ := Option.bind_eq_some_iff.1 h
  obtain rfl := Option.some.inj h
  obtain ⟨d, rfl⟩ : ∃ e, d = e + 1 := ⟨d - 1, by omega⟩
  have hevent := Codec.string.withDefault hevent ⟨rfl, trivial, Nat.zero_le _⟩ (hwithin _)
    (Nat.zero_le _) "event"
  have hconditions :=
    (Condition.codec inTagged again).list hconditions (hwithin _) (Nat.zero_le _) "when"
  have hnone : Survives (listOf (Effect.read again)) (fun as => .arr (as.map Effect.json))
      (d + 1) [] := Survives.listOf nofun
  have heffects := ((Effect.codec inTagged again).listOf (Nat.zero_le _)).withDefault heffects
    hnone (hwithin _) (Nat.zero_le _) "do"
  exact .cons hevent (.cons hconditions (.cons heffects .done))

/-- Bindings in a list survive at the depth of the list's items, unless that is one: a binding
without a list of effects, which takes one container, is written with such a list. -/
theorem Binding.survives_list {inTagged : Bool} (again : Bool) {field : Option Literal}
    {events : List Binding} {d : Nat}
    (h : withDefault [] (listOf (read inTagged)) field = some events)
    (hd : ∀ l, field = some l → l.depth ≤ d + 1) (hroom : d ≠ 1) :
    ∀ binding ∈ events, Survives (read again) json d binding := by
  rcases Nat.eq_zero_or_pos d with rfl | hpos
  · intro binding hbinding
    cases field with
    | none =>
      obtain rfl := Option.some.inj h
      cases hbinding
    | some literal =>
      cases literal with
      | arr items =>
        obtain ⟨item, hitem, hread⟩ := Codec.mem_of_mapM h hbinding
        obtain ⟨field, hfields, -⟩ := Option.bind_eq_some_iff.1 hread
        have hitem := Literal.depth_of_mem_arr hitem
        have hitems := hd _ rfl
        have := depth_pos_of_fields? hfields
        omega
      | _ => cases h
  · exact (codec inTagged again).of_list h hd (by omega)

end PageTree
