import Mathlib.Data.List.Induction
import Statechart.Factory

/-! # What a factory answers after its registrations

A factory is filled by registrations, in any order and under any keys. It lists each key once, where
the key was registered first, and answers for a key by the last registration of it.

* `Factory.Call`: a registration. `Factory.ofCalls`: the factory that registrations leave.
* **`Factory.keys_ofCalls`**: the keys, in order of first registration.
* **`Factory.find?_ofCalls`**: the last registration of a key has the word;
  `Factory.exists_isLast`: there is one for every key that is listed.
* **`Factory.ofCalls_answers`**: what all the queries answer, of the factory and of a copy. -/

namespace Statechart

variable {σ : Type}

namespace Factory

/-! ## Registrations -/

/-- **A registration at a factory.** -/
inductive Call (σ : Type) where
  /-- Of a constructor of states without final marker. -/
  | state (key : String) (build : Params → Option σ)
  /-- Of a constructor of states with final marker. -/
  | finalState (key : String) (build : Params → Option σ)
  /-- Of a state that is always the same, with the key and the marker that it has. -/
  | unit (key : String) (isFinal : Bool) (value : σ)

namespace Call

/-- The key of a registration. -/
def key : Call σ → String
  | state key _ => key
  | finalState key _ => key
  | unit key _ _ => key

/-- The final marker of the states of a registration. -/
def isFinal : Call σ → Bool
  | state _ _ => false
  | finalState _ _ => true
  | unit _ isFinal _ => isFinal

/-- What the constructor of a registration makes of parameters. -/
def create : Call σ → Params → Option σ
  | state _ build, params => build params
  | finalState _ build, params => build params
  | unit _ _ value, _ => some value

/-- The `Constructor` of a registration. -/
def constructor : Call σ → Constructor σ
  | state _ build => .made build false
  | finalState _ build => .made build true
  | unit _ isFinal value => .constant value isFinal

/-- `call.constructor` makes what `call` does. -/
@[simp] theorem create_constructor (call : Call σ) (params : Params) :
    call.constructor.create params = call.create params := by
  cases call <;> rfl

/-- `call.constructor` has the marker of `call`. -/
@[simp] theorem isFinal_constructor (call : Call σ) : call.constructor.isFinal = call.isFinal := by
  cases call <;> rfl

/-- **`call` is the last registration of its key** in `calls`. -/
def IsLast (calls : List (Call σ)) (call : Call σ) : Prop :=
  ∃ before after, calls = before ++ call :: after ∧ ∀ later ∈ after, later.key ≠ call.key

end Call

/-- Perform a registration at `factory`. -/
def perform (factory : Factory σ) : Call σ → Factory σ
  | .state key build => factory.state key build
  | .finalState key build => factory.finalState key build
  | .unit key isFinal value => factory.unit key isFinal value

/-- **The factory after `calls`**, starting from `Factory.empty`. -/
def ofCalls (calls : List (Call σ)) : Factory σ := calls.foldl perform .empty

variable {calls : List (Call σ)} {call : Call σ} {key : String}

/-- `perform` is `register` of the constructor under the key. -/
theorem perform_eq (factory : Factory σ) (call : Call σ) :
    factory.perform call = factory.register call.key call.constructor := by
  cases call <;> rfl

/-- `ofCalls` with one more registration. -/
theorem ofCalls_concat (calls : List (Call σ)) (call : Call σ) :
    ofCalls (calls ++ [call]) = (ofCalls calls).register call.key call.constructor := by
  rw [ofCalls, List.foldl_append, List.foldl_cons, List.foldl_nil, perform_eq]
  rfl

/-! ## Keys -/

/-- `eraseDups` of `items ++ [item]`. -/
theorem eraseDups_concat {α : Type} [DecidableEq α] (items : List α) (item : α) :
    (items ++ [item]).eraseDups =
      if item ∈ items.eraseDups then items.eraseDups else items.eraseDups ++ [item] := by
  rw [List.eraseDups_append, List.removeAll]
  by_cases hknown : item ∈ items
  · rw [if_pos (List.mem_eraseDups.2 hknown), List.filter_cons_of_neg (by simpa using hknown)]
    exact List.append_nil _
  · rw [if_neg fun hmem => hknown (List.mem_eraseDups.1 hmem),
      List.filter_cons_of_pos (by simpa using hknown)]
    rfl

/-- **`(ofCalls calls).keys` is `(calls.map Call.key).eraseDups`.** -/
theorem keys_ofCalls (calls : List (Call σ)) :
    (ofCalls calls).keys = (calls.map Call.key).eraseDups := by
  -- The last registration is the one that is added to a factory, so the induction is from the end.
  induction calls using List.reverseRecOn with
  | nil => rfl
  | append_singleton calls call ih =>
    rw [ofCalls_concat, keys_register, List.map_append, List.map_singleton, eraseDups_concat, ih]

/-- The members of `(ofCalls calls).keys` are the keys of `calls`. -/
theorem mem_keys_ofCalls_iff : key ∈ (ofCalls calls).keys ↔ ∃ call ∈ calls, call.key = key := by
  rw [keys_ofCalls, List.mem_eraseDups, List.mem_map]

/-! ## Constructors -/

/-- **`(ofCalls calls).find?` is the constructor of the last registration of the key.** -/
theorem find?_ofCalls (h : Call.IsLast calls call) :
    (ofCalls calls).find? call.key = some call.constructor := by
  obtain ⟨before, after, rfl, hafter⟩ := h
  -- What follows is filed under other keys.
  induction after using List.reverseRecOn with
  | nil => rw [ofCalls_concat, find?_register, if_pos rfl]
  | append_singleton after later ih =>
    have hlater : call.key ≠ later.key := (hafter later (by simp)).symm
    rw [← List.cons_append, ← List.append_assoc, ofCalls_concat, find?_register, if_neg hlater]
    exact ih fun other hother => hafter other (List.mem_append_left _ hother)

/-- **Every key of `calls` has a last registration** (`Call.IsLast`). -/
theorem exists_isLast (h : ∃ call ∈ calls, call.key = key) :
    ∃ call, Call.IsLast calls call ∧ call.key = key := by
  induction calls using List.reverseRecOn with
  | nil => obtain ⟨call, hcall, -⟩ := h; cases hcall
  | append_singleton calls last ih =>
    by_cases hlast : last.key = key
    -- Either the last of all is the last of this key, or it does not matter for this key.
    · exact ⟨last, ⟨calls, [], rfl, by simp⟩, hlast⟩
    · obtain ⟨call, hcall, hkey⟩ := h
      have hearlier : call ∈ calls := by
        rcases List.mem_append.1 hcall with hmem | hmem
        · exact hmem
        · exact absurd (List.mem_singleton.1 hmem ▸ hkey) hlast
      obtain ⟨call, ⟨before, after, rfl, hafter⟩, hkey⟩ := ih ⟨call, hearlier, hkey⟩
      refine ⟨call, ⟨before, after ++ [last], by simp, ?_⟩, hkey⟩
      intro later hlater
      rcases List.mem_append.1 hlater with hmem | hmem
      · exact hafter later hmem
      · rw [List.mem_singleton.1 hmem, hkey]
        exact hlast

/-- `factory.find?` is `none` for a key that is not in `factory.keys`. -/
theorem find?_eq_none {factory : Factory σ} (h : key ∉ factory.keys) :
    factory.find? key = none := by
  rwa [mem_keys_iff, Bool.not_eq_true, Option.isSome_eq_false_iff, Option.isNone_iff_eq_none] at h

/-- **What a factory answers after `calls`**, registrations of any kind in any order:

* `keys` lists each key once, in order of first registration;
* `size`, `isEmpty` and `contains` are those of `keys`;
* for a key that is not in `keys`, `create` gives nothing and `isFinal` is `false`;
* every key in `keys` has a last registration (`Call.IsLast`), and `create` and `isFinal` go by that
  one;
* `clone` is the same factory. -/
theorem ofCalls_answers (calls : List (Call σ)) :
    let factory := ofCalls calls
    factory.keys = (calls.map Call.key).eraseDups ∧ factory.keys.Nodup ∧
    factory.size = factory.keys.length ∧
    (factory.isEmpty = true ↔ factory.keys = []) ∧
    (∀ key, factory.contains key = true ↔ key ∈ factory.keys) ∧
    (∀ key, key ∈ factory.keys ↔ ∃ call ∈ calls, call.key = key) ∧
    (∀ key, key ∉ factory.keys →
      (∀ params, factory.create key params = none) ∧ factory.isFinal key = false) ∧
    (∀ key, key ∈ factory.keys → ∃ call, Call.IsLast calls call ∧ call.key = key) ∧
    (∀ call, Call.IsLast calls call →
      (∀ params, factory.create call.key params = call.create params) ∧
      factory.isFinal call.key = call.isFinal) ∧
    factory.clone = factory := by
  intro factory
  refine ⟨keys_ofCalls calls, factory.nodup_order, rfl, List.isEmpty_iff,
    fun key => (factory.mem_order key).symm, fun key => mem_keys_ofCalls_iff, ?_,
    fun key hkey => exists_isLast (mem_keys_ofCalls_iff.1 hkey), ?_, factory.clone_eq⟩
  · -- A key that is not listed has no constructor.
    intro key hkey
    constructor
    · intro params
      rw [create, find?_eq_none hkey, Option.bind_none]
    · rw [isFinal, find?_eq_none hkey, Option.map_none, Option.getD_none]
  · intro call hcall
    -- What is found under the key of a last registration is what it came with.
    have hfind := find?_ofCalls hcall
    constructor
    · intro params
      rw [create, hfind, Option.bind_some, Call.create_constructor]
    · rw [isFinal, hfind, Option.map_some, Option.getD_some, Call.isFinal_constructor]

example : (ofCalls [.unit "Idle" false 0, .state "Busy" fun _ => some 1,
    .unit "Idle" true 2]).keys = ["Idle", "Busy"] := by decide

end Factory

end Statechart
