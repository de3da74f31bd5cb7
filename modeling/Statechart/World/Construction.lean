import Statechart.World

/-!
# Following plans

* `StatePlan.realise`: makes the state of a plan, and the child it embeds.
* `ChildPlan.realise`: makes a child, or finds it.
* `MachinePlan.realise`: builds a machine. The states that a factory makes once and for all come
  first, then an initial state that is given itself; then the parts are checked, and an initial
  state that is given by its key is made between the checks.

All three follow the plan as a tree, so they come to an end. What was made before a failure stays in
the world.
-/

namespace Statechart

variable {ρ γ : Type}

/-- Why a machine of a plan could not be started. -/
inductive StartError where
  /-- The settings cannot be read. -/
  | config (fault : Json.Fault)
  /-- The parts do not fit. -/
  | build (error : BuildError)
  deriving DecidableEq, Inhabited

/-- Add `item` to a factory. For a `.unit` one `made` is its state; without it there is nothing to
add. -/
def Factory.file (factory : Factory (StatePlan ρ)) (item : FactoryItem (StatePlan ρ))
    (made : Option State) : Factory (StatePlan ρ) :=
  match item, made with
  | .made key isFinal build, _ => factory.register key (.made build isFinal)
  | .unit key isFinal _, some state => factory.unit key isFinal (.ofState state)
  | .unit _ _ _, none => factory

/-- The factory of `items`, each with the state that was `made` for it. -/
def Factory.ofItems (items : List (FactoryItem (StatePlan ρ))) (made : List (Option State)) :
    Factory (StatePlan ρ) :=
  (items.zip made).foldl (fun factory (item, made) => factory.file item made) .empty

/-- Whether `Factory.file` adds `item` under `key`. -/
def FactoryItem.isFiled (item : FactoryItem (StatePlan ρ)) (key : String) (made : Option State) :
    Bool :=
  item.key == key &&
    match item with
    | .made _ _ _ => true
    | .unit _ _ _ => made.isSome

/-- The `Builder` of a plan, given what has been made for it. -/
def MachinePlan.builder (config : MachineConfig) (factory : Factory (StatePlan ρ))
    (rows : List (Row (StatePlan ρ))) (initialKey? : Option String) (initial? : Option State) :
    Builder (StatePlan ρ) State :=
  let b := rows.foldl Builder.row { config, factory }
  let b := match initialKey? with
    | some key => b.initialKey key
    | none => b
  match initial? with
  | some state => b.initial state
  | none => b

/-- Put a machine of checked `parts` into the world, share it, and let its `subscribers` in. -/
def Act.install (host : Host ρ γ) (parts : Assembly (StatePlan ρ) State) (shareAs? : Option String)
    (subscribers : List ρ) : Act ρ γ Link := do
  let link ← Act.allocate (.machine (Machine.start (← Act.mint) parts))
  -- The link is there before the subscribers are, who may ask for it.
  if let some name := shareAs? then
    modify fun w => { w with shared := w.shared.insert name link }
  subscribers.forM fun subscriber => host.enrol subscriber link
  return link

mutual

/-- **Make the state of a plan.** Without a child that it `needsChild` there is no state. -/
def StatePlan.realise (host : Host ρ γ) : StatePlan ρ → Act ρ γ (Option State)
  | ⟨key, data, isFinal, child?, needsChild⟩ => do
    let (wanted, child) ← realiseChild host child?
    if wanted && needsChild && child.isNone then return none
    return some { key, data, isFinal, child }

/-- Make the child of a state, if it is to have one. The result says whether it is. -/
def realiseChild (host : Host ρ γ) : Option (ChildPlan ρ) → Act ρ γ (Bool × Option Link)
  | none => return (false, none)
  | some child => return (true, ← child.realise host)

/-- **Make a child, or find it.** -/
def ChildPlan.realise (host : Host ρ γ) : ChildPlan ρ → Act ρ γ (Option Link)
  | .live link => return some link
  | .shared name => return (← get).shared.get? name
  | .machine plan => return (← plan.realise host).toOption
  | .device device => return some (← Act.allocate (.device (← Act.mint) device 0))
  | .sendOnly plan isMute hiddenIn => do
    match ← plan.realise host with
    | .error _ => return none
    | .ok inner =>
      match (← get).id? inner with
      | some id => return some (← Act.allocate (.shell id inner isMute hiddenIn))
      | none => return none

/-- **Build the machine of a plan.** -/
def MachinePlan.realise (host : Host ρ γ) : MachinePlan ρ → Act ρ γ (Except StartError Link)
  | ⟨config, items, rows, initialKey?, initial?, subscribers, shareAs?⟩ => do
    match config with
    | .error fault => return .error (.config fault)
    | .ok config =>
      let made ← realiseItems host items
      let initial? ← realiseInitial host initial?
      let b := MachinePlan.builder config (.ofItems items made) rows initialKey? initial?
      -- The state of a key is made if no issue came up before, and the table is checked after it.
      match ← b.build fun key => realiseKey host key items made with
      | .error error => return .error (.build error)
      | .ok parts => return .ok (← Act.install host parts shareAs? subscribers)

/-- Make the states of `.unit` items, one by one. -/
def realiseItems (host : Host ρ γ) :
    List (FactoryItem (StatePlan ρ)) → Act ρ γ (List (Option State))
  | [] => return []
  | item :: rest => do
    let made ← realiseItem host item
    return made :: (← realiseItems host rest)

/-- Make the state of `item`, if it is a `.unit` one. -/
def realiseItem (host : Host ρ γ) : FactoryItem (StatePlan ρ) → Act ρ γ (Option State)
  | .unit _ _ state => state.realise host
  | .made _ _ _ => return none

/-- Make the initial state that is given itself, if there is one. -/
def realiseInitial (host : Host ρ γ) : Option (StatePlan ρ) → Act ρ γ (Option State)
  | none => return none
  | some plan => plan.realise host

/-- Make the state of `key` without parameters, by the last item that was filed under it. -/
def realiseKey (host : Host ρ γ) (key : String) :
    List (FactoryItem (StatePlan ρ)) → List (Option State) → Act ρ γ (Option State)
  | item :: rest, made :: restMade =>
    if (rest.zip restMade).any fun (item, made) => item.isFiled key made then
      realiseKey host key rest restMade
    else if item.isFiled key made then realiseEntry host made item
    else return none
  | _, _ => return none

/-- Make the state of an item without parameters, given the state that was `made` for it. -/
def realiseEntry (host : Host ρ γ) (made : Option State) :
    FactoryItem (StatePlan ρ) → Act ρ γ (Option State)
  | .unit _ _ _ => return made
  | .made _ _ build => realiseInitial host (build [])

end

end Statechart
