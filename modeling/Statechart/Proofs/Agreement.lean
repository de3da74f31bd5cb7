import Statechart.Proofs.Definition.Walk
import Statechart.Proofs.Flat.Run
import Statechart.Proofs.World.Hierarchy

/-! # A flat form and a hierarchy side by side

A nested definition can run as the machine of its flat form and as a hierarchy of machines. Both are
started and sent the same domain events; after each event one looks whether it was answered, at the
path of the current leaf, and at its data.

* `Act.watch`: what is seen of a run.
* `Act.ends_watch`: a run that follows the positions of a definition shows its walk.
* **`AgreeOn`**: both runs show the same on a list of events.
* **`Definition.flat_and_tree_keep_step`**: with explicit markers both show the same paths.
* `Definition.keep_step_iff_neverRisesOn`: with dead ends, when they do.
* `Definition.carry_same_data_iff_entersAlike`: when both show the same data. -/

namespace Statechart

variable {ρ γ β : Type} {host : Host ρ γ} {w v w' : World ρ γ} {link root : Link}
  {links : List Link} {flat : FlatDefinition} {flatConfig : FlattenConfig}
  {treeConfig : HierarchyConfig} {d : Definition} {position : Position} {react : Reaction}
  {params : Params} {keys : List String}

/-! ## Watching a run -/

/-- **What is seen after an event**: whether it was answered, and the path and the data of the
current leaf. -/
structure Sight where
  answered : Bool
  path? : Option String
  data? : Option Value
  deriving DecidableEq

/-- The sight of a run in the leaf `state`. -/
def Sight.ofState (answered : Bool) (state : State) : Sight :=
  ⟨answered, some state.key, some state.data⟩

/-- `answered` and `path?` of a sight. -/
def Sight.place (sight : Sight) : Bool × Option String := (sight.answered, sight.path?)

/-- **Watch a run**: `send` the events one after the other, and `look` at the world after each. -/
def Act.watch (send : String → Params → Act ρ γ (Option Outcome))
    (look : World ρ γ → Option String × Option Value) :
    List (String × Params) → Act ρ γ (List Sight)
  | [] => return []
  | (name, params) :: rest => do
    let outcome? ← send name params
    let (path?, data?) := look (← get)
    return ⟨outcome?.isSome, path?, data?⟩ :: (← Act.watch send look rest)

/-- The key and the data of the current state of the machine at `link`. -/
def World.lookAtMachine (w : World ρ γ) (link : Link) : Option String × Option Value :=
  ((w.machine? link).map (·.current.state.key), (w.machine? link).map (·.current.state.data))

/-- `w.activePath` and the data of `w.leaf?` for the engine in use. -/
def World.lookAtTree (w : World ρ γ) : Option String × Option Value :=
  (w.engineInUse?.map fun p => w.activePath p.2,
    (w.engineInUse?.bind fun p => w.leaf? p.2).map (·.payload))

/-- `Act.watch` for the machine of a flat form. -/
def Act.watchFlat (host : Host ρ γ) (link : Link) :
    List (String × Params) → Act ρ γ (List Sight) :=
  Act.watch (Act.sendNamed host link) (·.lookAtMachine link)

/-- `Act.watch` for the hierarchy in use. -/
def Act.watchTree (host : Host ρ γ) (root : Link) :
    List (String × Params) → Act ρ γ (List Sight) :=
  Act.watch (Act.sendToTree host root) (·.lookAtTree)

/-- **`Act.watch` shows a walk of `Position.send`**, if `At` relates worlds and positions, each
event keeps them related, and `look` shows the position. -/
theorem Act.ends_watch {send : String → Params → Act ρ γ (Option Outcome)}
    {look : World ρ γ → Option String × Option Value} (At : World ρ γ → Position → Prop)
    (state : Position → State)
    (hlook : ∀ w position, At w position →
      look w = (some (state position).key, some (state position).data))
    (hsend : ∀ w position name params, At w position → Ends (send name params) w fun outcome? w' =>
      outcome?.isSome = (position.send react (name, params)).isSome ∧
        At w' ((position.send react (name, params)).getD position))
    (events : List (String × Params)) (h : At w position) :
    Ends (watch send look events) w fun sights _ =>
      sights = (position.walk react events).map fun p => .ofState p.1 (state p.2) := by
  induction events generalizing w position with
  | nil => exact ends_pure rfl
  | cons event rest ih =>
    obtain ⟨name, params⟩ := event
    rw [watch]
    refine ends_bind (hsend w position name params h) ?_
    rintro outcome? w₁ ⟨hsome, hat⟩
    refine ends_get ?_
    simp only [hlook w₁ _ hat]
    refine ends_bind (ih hat) ?_
    rintro _ w₂ rfl
    refine ends_pure ?_
    rw [Position.walk, List.map_cons, hsome]
    rfl

/-! ## The two flavours -/

/-- **`d` runs in both flavours**: it has no choices (`IsLiteral`), a delimiter of one character and
no problems in either flavour, the flat form is `.namespaced` and drains exits, both have the
terminal `policy`, and `d.depth` is within the limits of both. -/
structure Definition.RunsBoth (d : Definition) (flat : FlatDefinition) (flatConfig : FlattenConfig)
    (treeConfig : HierarchyConfig) (policy : TerminalPolicy) : Prop where
  literal : d.IsLiteral
  one : flatConfig.delimiter.length = 1
  delimiter : treeConfig.delimiter = flatConfig.delimiter
  flattens : FlatDefinition.ofDefinition flatConfig d = some (.ok flat)
  instantiates : d.hierarchyProblems treeConfig.delimiter = some []
  eventCollision : flatConfig.eventCollision = .namespaced
  followUps : flatConfig.followUps = .drain
  flatTerminal : flatConfig.terminal = policy
  treeTerminal : treeConfig.terminal = policy
  depth : d.depth ≤ min treeConfig.maxDepth 256

variable {policy : TerminalPolicy}

/-- `RunsBoth` gives `d.Sound`. -/
theorem Definition.RunsBoth.sound (h : d.RunsBoth flat flatConfig treeConfig policy) :
    d.Sound flatConfig.delimiter :=
  h.delimiter ▸ sound_of_hierarchyProblems h.instantiates

/-- `RunsBoth` gives `flat.Mirrors`. -/
theorem Definition.RunsBoth.mirrors (h : d.RunsBoth flat flatConfig treeConfig policy) :
    flat.Mirrors flatConfig.delimiter d :=
  FlatDefinition.mirrors_of_ofDefinition h.sound h.one h.literal h.eventCollision h.flattens

/-- **`Act.watchFlat` shows the walk of `d.drain? policy`.** -/
theorem Definition.RunsBoth.ends_watchFlat (h : d.RunsBoth flat flatConfig treeConfig policy)
    (hsettle : d.ExitsSettle policy) (position : Position) (events : List (String × Params))
    (hat : w.FlatAt host link flat flatConfig d position.keys position.params []) :
    Act.Ends (Act.watchFlat host link events) w fun sights _ =>
      sights = (position.walk (d.drain? policy) events).map fun p =>
        .ofState p.1 (d.leafState flatConfig.delimiter p.2.keys p.2.params) := by
  obtain rfl := h.flatTerminal
  have hdepth : d.depth ≤ 256 := Nat.le_trans h.depth (Nat.min_le_right _ _)
  rw [Act.watchFlat]
  -- A look shows the leaf of the position, and a send takes the machine to the next one.
  refine Act.ends_watch
    (fun w position => w.FlatAt host link flat flatConfig d position.keys position.params [])
    (fun position => d.leafState flatConfig.delimiter position.keys position.params)
    ?_ ?_ events hat
  · rintro w position ⟨m, hm, hat⟩
    rw [World.lookAtMachine, hm, Option.map_some, Option.map_some, hat.state]
  · intro w position name params hat
    refine (Act.ends_sendNamed_flat h.mirrors hsettle h.followUps hdepth hat name params).mono ?_
    intro outcome? w' hsent
    rw [Position.send]
    split at hsent
    · rename_i hnone
      obtain ⟨rfl, rfl⟩ := hsent
      rw [hnone]
      exact ⟨rfl, hat⟩
    · rename_i next hnext
      rw [hnext]
      exact hsent

/-- `lookAtTree` shows `d.leafState` for a hierarchy in `TreeAt`. -/
theorem World.TreeAt.lookAtTree_eq (h : w.TreeAt host treeConfig d root links keys params)
    (hdepth : d.depth ≤ treeConfig.maxDepth) :
    w.lookAtTree = (some (d.leafState treeConfig.delimiter keys params).key,
      some (d.leafState treeConfig.delimiter keys params).data) := by
  obtain ⟨link, leaf, m, hlast, hleaf, hm, hdata⟩ := h.exists_innermost
  obtain ⟨number, e, he, -⟩ := h.exists_engine
  rw [lookAtTree, h.activePath_eq hdepth, he, Option.bind_some, h.leaf?_eq hdepth he hlast,
    snapshot?_of_machine? hm, Definition.leafState_of_at? hleaf, ← hdata]
  rfl

/-- **`Act.watchTree` shows the walk of `d.react? policy`.** -/
theorem Definition.RunsBoth.ends_watchTree (h : d.RunsBoth flat flatConfig treeConfig policy)
    (position : Position) (events : List (String × Params))
    (hat : w.TreeAt host treeConfig d root links position.keys position.leafParams) :
    Act.Ends (Act.watchTree host root events) w fun sights _ =>
      sights = (position.walk (d.react? policy treeConfig.maxDepth) events).map fun p =>
        .ofState p.1 (d.leafState flatConfig.delimiter p.2.keys p.2.leafParams) := by
  obtain rfl := h.treeTerminal
  have hdepth : d.depth ≤ treeConfig.maxDepth := Nat.le_trans h.depth (Nat.min_le_left _ _)
  rw [Act.watchTree]
  -- The machines need not be the same after a send, but they stand at the next position.
  refine Act.ends_watch
    (fun w position => ∃ links,
      w.TreeAt host treeConfig d root links position.keys position.leafParams)
    (fun position => d.leafState flatConfig.delimiter position.keys position.leafParams)
    ?_ ?_ events ⟨_, hat⟩
  · rintro w position ⟨links, hat⟩
    rw [hat.lookAtTree_eq hdepth, h.delimiter]
  · rintro w position name params ⟨links, hat⟩
    refine (Act.ends_sendToTree h.sound hat name params).mono ?_
    intro outcome? w' hsent
    rw [Position.send]
    split at hsent
    · rename_i hnone
      obtain ⟨rfl, hat'⟩ := hsent
      rw [hnone]
      exact ⟨rfl, links, hat'⟩
    · rename_i next hnext
      obtain ⟨hsome, links', -, hat'⟩ := hsent
      rw [hnext]
      exact ⟨hsome, links', hat'⟩

/-! ## Agreement -/

/-- **Both runs show the same on `events`**: `watchFlat` and `watchTree` come to an end, and their
sights are the same as far as `see` goes. -/
def AgreeOn (see : Sight → β) (host : Host ρ γ) (link root : Link) (w v : World ρ γ)
    (events : List (String × Params)) : Prop :=
  ∃ sights sights' w' v', (Act.watchFlat host link events).run w = some (sights, w') ∧
    (Act.watchTree host root events).run v = some (sights', v') ∧
    sights.map see = sights'.map see

/-- `AgreeOn` if and only if the walks of `d.drain?` and `d.react?` show the same. -/
theorem Definition.RunsBoth.agreeOn_iff (h : d.RunsBoth flat flatConfig treeConfig policy)
    (hsettle : d.ExitsSettle policy)
    (hflat : w.FlatAt host link flat flatConfig d d.startKeys [] [])
    (htree : v.TreeAt host treeConfig d root links d.startKeys []) (see : Sight → β)
    (events : List (String × Params)) :
    AgreeOn see host link root w v events ↔
      (d.outset.walk (d.drain? policy) events).map (fun p =>
          see (.ofState p.1 (d.leafState flatConfig.delimiter p.2.keys p.2.params))) =
        (d.outset.walk (d.react? policy treeConfig.maxDepth) events).map fun p =>
          see (.ofState p.1 (d.leafState flatConfig.delimiter p.2.keys p.2.leafParams)) := by
  obtain ⟨_, w', hrun, rfl⟩ := h.ends_watchFlat hsettle d.outset events hflat
  obtain ⟨_, v', hrun', rfl⟩ :=
    h.ends_watchTree d.outset events (d.leafParams_outset.symm ▸ htree)
  constructor
  · rintro ⟨_, _, _, _, hflat, htree, hsee⟩
    rw [hrun] at hflat
    rw [hrun'] at htree
    cases hflat
    cases htree
    rwa [List.map_map, List.map_map] at hsee
  · intro hsee
    refine ⟨_, _, w', v', hrun, hrun', ?_⟩
    rw [List.map_map, List.map_map]
    exact hsee

/-- **Both flavours start**, and then `AgreeOn` is `agreeOn_iff`. -/
theorem Definition.RunsBoth.exists_start (h : d.RunsBoth flat flatConfig treeConfig policy)
    (hsettle : d.ExitsSettle policy) (host : Host ρ γ) (w v : World ρ γ) :
    ∃ link w' root v', (Act.startFlat host flat flatConfig).run w = some (.ok link, w') ∧
      (Act.startTree host d treeConfig).run v = some (.ok root, v') ∧
      ∀ (β : Type) (see : Sight → β) events, AgreeOn see host link root w' v' events ↔
        (d.outset.walk (d.drain? policy) events).map (fun p =>
            see (.ofState p.1 (d.leafState flatConfig.delimiter p.2.keys p.2.params))) =
          (d.outset.walk (d.react? policy treeConfig.maxDepth) events).map fun p =>
            see (.ofState p.1 (d.leafState flatConfig.delimiter p.2.keys p.2.leafParams)) := by
  obtain ⟨_, w', hrun, link, rfl, hflat⟩ := Act.ends_startFlat h.mirrors host w
  obtain ⟨_, v', hrun', root, links, rfl, htree⟩ := Act.ends_startTree h.sound host treeConfig v
  exact ⟨link, w', root, v', hrun, hrun', fun β see => h.agreeOn_iff hsettle hflat htree see⟩

/-- `xs.map f = ys.map f` gives `xs = ys` if `f` tells their entries apart. -/
theorem eq_of_map_eq_map {α : Type} {f : α → β} {xs ys : List α} (h : xs.map f = ys.map f)
    (hf : ∀ x ∈ xs, ∀ y ∈ ys, f x = f y → x = y) : xs = ys := by
  induction xs generalizing ys with
  | nil => exact (List.map_eq_nil_iff.1 h.symm).symm
  | cons x xs ih =>
    cases ys with
    | nil => cases h
    | cons y ys =>
      rw [List.map_cons, List.map_cons, List.cons.injEq] at h
      rw [hf x List.mem_cons_self y List.mem_cons_self h.1, ih h.2 fun x hx y hy =>
        hf x (List.mem_cons_of_mem _ hx) y (List.mem_cons_of_mem _ hy)]

/-- The walks of `d.drain?` and `d.react?` show the same `Sight.place` if and only if they have the
same keys. -/
theorem Definition.Sound.walk_place_eq_iff {delimiter : String} {reach : Nat}
    (hd : d.Sound delimiter) (hone : delimiter.length = 1) (events : List (String × Params)) :
    (d.outset.walk (d.drain? policy) events).map (fun p =>
        Sight.place (.ofState p.1 (d.leafState delimiter p.2.keys p.2.params))) =
      (d.outset.walk (d.react? policy reach) events).map (fun p =>
        Sight.place (.ofState p.1 (d.leafState delimiter p.2.keys p.2.leafParams))) ↔
    (d.outset.walk (d.drain? policy) events).map (fun p => (p.1, p.2.keys)) =
      (d.outset.walk (d.react? policy reach) events).map fun p => (p.1, p.2.keys) := by
  have hplace : ∀ (xs : List (Bool × Position)) (params : Position → Params),
      xs.map (fun p => Sight.place (.ofState p.1 (d.leafState delimiter p.2.keys (params p.2)))) =
        (xs.map fun p => (p.1, p.2.keys)).map fun p => (p.1, some (delimiter.intercalate p.2)) := by
    intro xs params
    rw [List.map_map]
    rfl
  rw [hplace _ (·.params), hplace _ (·.leafParams)]
  refine ⟨fun h => eq_of_map_eq_map h ?_, fun h => by rw [h]⟩
  intro x hx y hy heq
  obtain ⟨p, hp, rfl⟩ := List.mem_map.1 hx
  obtain ⟨q, hq, rfl⟩ := List.mem_map.1 hy
  -- Walks come to leaves only, and the path of a leaf tells its keys.
  obtain ⟨l, hl⟩ := hd.standsAt_of_leads_drain? (Position.leads_of_mem_walk hp)
  obtain ⟨l', hl'⟩ := hd.standsAt_of_leads_react? (Position.leads_of_mem_walk hq)
  rw [Prod.mk.injEq, Option.some.injEq] at heq
  rw [Prod.mk.injEq]
  exact ⟨heq.1, Path.intercalate_inj (hd.orderly.delimits hone hl) (hd.orderly.delimits hone hl')
    (Definition.StandsAt.ne_nil ⟨l, hl⟩) (Definition.StandsAt.ne_nil ⟨l', hl'⟩) heq.2⟩

/-- `RunsBoth` with the default settings, from conditions that can be computed. -/
theorem Definition.exists_runsBoth (hliteral : d.IsLiteral)
    (hflattens : ((FlatDefinition.ofDefinition { eventCollision := .namespaced, terminal := policy }
      d).bind Except.toOption).isSome = true)
    (hinstantiates : d.hierarchyProblems "." = some []) (hdepth : d.depth ≤ 64) :
    ∃ flat, d.RunsBoth flat { eventCollision := .namespaced, terminal := policy }
      { terminal := policy } policy := by
  obtain ⟨flat, hflat⟩ := Option.isSome_iff_exists.1 hflattens
  obtain ⟨result, hresult, hok⟩ := Option.bind_eq_some_iff.1 hflat
  cases result with
  | error e => cases hok
  | ok flat =>
    have hone : ".".length = 1 := by decide
    have hmin : d.depth ≤ min 64 256 := Nat.le_trans hdepth (by decide)
    exact ⟨flat, hliteral, hone, rfl, hresult, hinstantiates, rfl, rfl, rfl, rfl, hmin⟩

/-! ## Agreement on paths -/

/-- **`d.ExitsRest policy` gives `AgreeOn Sight.place` for all `events`.** -/
theorem Definition.RunsBoth.agreeOn_of_exitsRest
    (h : d.RunsBoth flat flatConfig treeConfig policy) (hsettle : d.ExitsSettle policy)
    (hrest : d.ExitsRest policy) (host : Host ρ γ) (w v : World ρ γ) :
    ∃ link w' root v', (Act.startFlat host flat flatConfig).run w = some (.ok link, w') ∧
      (Act.startTree host d treeConfig).run v = some (.ok root, v') ∧
      ∀ events, AgreeOn Sight.place host link root w' v' events := by
  obtain ⟨link, w', root, v', hflat, htree, hagree⟩ := h.exists_start hsettle host w v
  have hreach : d.depth ≤ treeConfig.maxDepth := Nat.le_trans h.depth (Nat.min_le_left _ _)
  refine ⟨link, w', root, v', hflat, htree, fun events => ?_⟩
  rw [hagree, h.sound.walk_place_eq_iff h.one, hrest.walk_eq h.sound h.literal hreach]

/-- **With explicit markers both flavours of a definition stay in step.** If
`d.RunsBoth flat flatConfig treeConfig .explicit` and `d.ExitsSettle .explicit`, then
`Act.startFlat` and `Act.startTree` come to an end, and `AgreeOn Sight.place` holds for all `events`
that are sent to both: each event is answered by both or by none of them, and after it they are at
the same path. -/
theorem Definition.flat_and_tree_keep_step
    (h : d.RunsBoth flat flatConfig treeConfig .explicit) (hsettle : d.ExitsSettle .explicit)
    (host : Host ρ γ) (w v : World ρ γ) :
    ∃ link w' root v', (Act.startFlat host flat flatConfig).run w = some (.ok link, w') ∧
      (Act.startTree host d treeConfig).run v = some (.ok root, v') ∧
      ∀ events, AgreeOn Sight.place host link root w' v' events :=
  h.agreeOn_of_exitsRest hsettle d.exitsRest_explicit host w v

/-- **An errand**: `"leave"` leads from `"Home"` to a trip, whose exit leads back. -/
def Definition.errand : Definition :=
  let trip := (((({} : Definition).state "Out").finalState "Back").on "Out" "turn" "Back").initial
    "Out"
  (((((({} : Definition).state "Home").composite "Trip" trip).on "Home" "leave" "Trip").onChildExit
    "Trip" "Home").initial "Home")

/-- `errand` is in `RunsBoth`. -/
theorem Definition.exists_errand_runsBoth (policy : TerminalPolicy) :
    ∃ flat, errand.RunsBoth flat { eventCollision := .namespaced, terminal := policy }
      { terminal := policy } policy := by
  refine exists_runsBoth (by decide) ?_ (by decide +kernel) (by decide)
  cases policy <;> decide +kernel

/-- `flat_and_tree_keep_step` for `errand`: both flavours of it stay in step. -/
theorem Definition.errand_keeps_step :
    ∃ flat, errand.RunsBoth flat { eventCollision := .namespaced } {} .explicit ∧
      errand.ExitsSettle .explicit ∧ ∃ link w' root v',
        (Act.startFlat (Surroundings.quiet.host 1) flat { eventCollision := .namespaced }).run
          ({ guest := () } : World Unit Unit) = some (.ok link, w') ∧
        (Act.startTree (Surroundings.quiet.host 1) errand {}).run
          ({ guest := () } : World Unit Unit) = some (.ok root, v') ∧
        ∀ events, AgreeOn Sight.place (Surroundings.quiet.host 1) link root w' v' events := by
  obtain ⟨flat, hruns⟩ := exists_errand_runsBoth .explicit
  have hsettle : errand.ExitsSettle .explicit := by decide
  exact ⟨flat, hruns, hsettle, flat_and_tree_keep_step hruns hsettle _ _ _⟩

/-- **With dead ends both flavours of a definition stay in step**, `AgreeOn Sight.place` for all
`events`, exactly if `d.NeverRisesOn .explicitOrDeadEnd`: no exit is followed by exits that only
rise. The conditions are `d.RunsBoth` and `d.ExitsSettle`, with the policy `.explicitOrDeadEnd`. -/
theorem Definition.keep_step_iff_neverRisesOn
    (h : d.RunsBoth flat flatConfig treeConfig .explicitOrDeadEnd)
    (hsettle : d.ExitsSettle .explicitOrDeadEnd) (host : Host ρ γ) (w v : World ρ γ) :
    ∃ link w' root v', (Act.startFlat host flat flatConfig).run w = some (.ok link, w') ∧
      (Act.startTree host d treeConfig).run v = some (.ok root, v') ∧
      ((∀ events, AgreeOn Sight.place host link root w' v' events) ↔
        d.NeverRisesOn .explicitOrDeadEnd) := by
  obtain ⟨link, w', root, v', hflat, htree, hagree⟩ := h.exists_start hsettle host w v
  have hreach : d.depth ≤ treeConfig.maxDepth := Nat.le_trans h.depth (Nat.min_le_left _ _)
  refine ⟨link, w', root, v', hflat, htree, ?_⟩
  rw [← h.sound.walk_keys_eq_iff hreach]
  refine forall_congr' fun events => ?_
  rw [hagree, h.sound.walk_place_eq_iff h.one]

/-- `keep_step_iff_neverRisesOn` for `errand`. -/
theorem Definition.errand_keeps_step_iff :
    ∃ flat, errand.RunsBoth flat
        { eventCollision := .namespaced, terminal := .explicitOrDeadEnd }
        { terminal := .explicitOrDeadEnd } .explicitOrDeadEnd ∧
      errand.ExitsSettle .explicitOrDeadEnd ∧ ∃ link w' root v',
        (Act.startFlat (Surroundings.quiet.host 1) flat
          { eventCollision := .namespaced, terminal := .explicitOrDeadEnd }).run
          ({ guest := () } : World Unit Unit) = some (.ok link, w') ∧
        (Act.startTree (Surroundings.quiet.host 1) errand { terminal := .explicitOrDeadEnd }).run
          ({ guest := () } : World Unit Unit) = some (.ok root, v') ∧
        ((∀ events, AgreeOn Sight.place (Surroundings.quiet.host 1) link root w' v' events) ↔
          errand.NeverRisesOn .explicitOrDeadEnd) := by
  obtain ⟨flat, hruns⟩ := exists_errand_runsBoth .explicitOrDeadEnd
  have hsettle : errand.ExitsSettle .explicitOrDeadEnd := by decide
  exact ⟨flat, hruns, hsettle, keep_step_iff_neverRisesOn hruns hsettle _ _ _⟩

/-- **A relay**: the first lap ends with `"go"` and leads to the second one, which has no exit. -/
def Definition.relay : Definition :=
  let first := (((({} : Definition).state "Run").finalState "Done").on "Run" "go" "Done").initial
    "Run"
  let second := ((({} : Definition).state "Rest").on "Rest" "again" "Rest").initial "Rest"
  let laps := (((({} : Definition).composite "First" first).composite "Second" second).onChildExit
    "First" "Second").initial "First"
  (((({} : Definition).composite "Laps" laps).finalState "End").onChildExit "Laps" "End").initial
    "Laps"

/-- `relay` is in `RunsBoth`. -/
theorem Definition.exists_relay_runsBoth :
    ∃ flat, relay.RunsBoth flat { eventCollision := .namespaced, terminal := .explicitOrDeadEnd }
      { terminal := .explicitOrDeadEnd } .explicitOrDeadEnd :=
  exists_runsBoth (by decide) (by decide +kernel) (by decide +kernel) (by decide)

/-- **With dead ends the flavours of `relay` fall out of step** with `"go"`, so
`AgreeOn Sight.place` fails: the flat form comes to rest in the second lap, and the hierarchy takes
that lap for a dead end and goes on. -/
theorem Definition.relay_falls_out_of_step :
    ∃ flat, relay.RunsBoth flat
        { eventCollision := .namespaced, terminal := .explicitOrDeadEnd }
        { terminal := .explicitOrDeadEnd } .explicitOrDeadEnd ∧
      relay.ExitsSettle .explicitOrDeadEnd ∧ ∃ link w' root v',
        (Act.startFlat (Surroundings.quiet.host 1) flat
          { eventCollision := .namespaced, terminal := .explicitOrDeadEnd }).run
          ({ guest := () } : World Unit Unit) = some (.ok link, w') ∧
        (Act.startTree (Surroundings.quiet.host 1) relay { terminal := .explicitOrDeadEnd }).run
          ({ guest := () } : World Unit Unit) = some (.ok root, v') ∧
        ¬ AgreeOn Sight.place (Surroundings.quiet.host 1) link root w' v' [("go", [])] := by
  have hsettle : relay.ExitsSettle .explicitOrDeadEnd := by decide
  obtain ⟨flat, hruns⟩ := exists_relay_runsBoth
  obtain ⟨link, w', root, v', hflat, htree, hagree⟩ := hruns.exists_start hsettle
    (Surroundings.quiet.host 1) ({ guest := () } : World Unit Unit) { guest := () }
  refine ⟨flat, hruns, hsettle, link, w', root, v', hflat, htree, ?_⟩
  rw [hagree]
  decide +kernel

/-! ## Agreement on data -/

/-- The leaves on the walk of `d.drain?` have the same data from `q.params` and from `q.leafParams`,
if and only if `d.EntersAlike policy`. -/
theorem Definition.Sound.data_eq_iff_entersAlike {delimiter : String} (hd : d.Sound delimiter)
    (separator : String) :
    (∀ q, Position.Leads (d.drain? policy) d.outset q →
      some (d.leafState separator q.keys q.params).data =
        some (d.leafState separator q.keys q.leafParams).data) ↔ d.EntersAlike policy := by
  constructor
  · -- A leaf that is entered with a composite gets the parameters in the one and none in the other.
    intro hall q leaf hq hleaf hdeep
    have hdata := hall q hq
    rw [leafState_of_at? hleaf, leafState_of_at? hleaf, Option.some.injEq, Position.leafParams,
      if_neg hdeep] at hdata
    exact hdata
  · intro halike q hq
    obtain ⟨leaf, hleaf⟩ := hd.standsAt_of_leads_drain? hq
    rw [leafState_of_at? hleaf, leafState_of_at? hleaf, Option.some.injEq, Position.leafParams]
    by_cases hlast : q.keys.length = q.turn + 1
    · rw [if_pos hlast]
    · rw [if_neg hlast]
      exact halike q leaf hq hleaf hlast

/-- **With explicit markers both flavours of a definition carry the same data**,
`AgreeOn Sight.data?` for all `events`, exactly if `d.EntersAlike .explicit`: each leaf that is
entered with a composite is made alike with the parameters of the event and without. The conditions
are those of `flat_and_tree_keep_step`. -/
theorem Definition.carry_same_data_iff_entersAlike
    (h : d.RunsBoth flat flatConfig treeConfig .explicit) (hsettle : d.ExitsSettle .explicit)
    (host : Host ρ γ) (w v : World ρ γ) :
    ∃ link w' root v', (Act.startFlat host flat flatConfig).run w = some (.ok link, w') ∧
      (Act.startTree host d treeConfig).run v = some (.ok root, v') ∧
      ((∀ events, AgreeOn Sight.data? host link root w' v' events) ↔ d.EntersAlike .explicit) := by
  obtain ⟨link, w', root, v', hflat, htree, hagree⟩ := h.exists_start hsettle host w v
  have hreach : d.depth ≤ treeConfig.maxDepth := Nat.le_trans h.depth (Nat.min_le_left _ _)
  refine ⟨link, w', root, v', hflat, htree, ?_⟩
  rw [← h.sound.data_eq_iff_entersAlike flatConfig.delimiter, ← Position.walk_map_eq_iff]
  · refine forall_congr' fun events => ?_
    rw [hagree, ← d.exitsRest_explicit.walk_eq h.sound h.literal hreach]
    rfl
  · rw [leafParams_outset]
    rfl

/-- `carry_same_data_iff_entersAlike` for `errand`. -/
theorem Definition.errand_carries_same_data_iff :
    ∃ flat, errand.RunsBoth flat { eventCollision := .namespaced } {} .explicit ∧
      errand.ExitsSettle .explicit ∧ ∃ link w' root v',
        (Act.startFlat (Surroundings.quiet.host 1) flat { eventCollision := .namespaced }).run
          ({ guest := () } : World Unit Unit) = some (.ok link, w') ∧
        (Act.startTree (Surroundings.quiet.host 1) errand {}).run
          ({ guest := () } : World Unit Unit) = some (.ok root, v') ∧
        ((∀ events, AgreeOn Sight.data? (Surroundings.quiet.host 1) link root w' v' events) ↔
          errand.EntersAlike .explicit) := by
  obtain ⟨flat, hruns⟩ := exists_errand_runsBoth .explicit
  have hsettle : errand.ExitsSettle .explicit := by decide
  exact ⟨flat, hruns, hsettle, carry_same_data_iff_entersAlike hruns hsettle _ _ _⟩

/-- **The flavours of `errand` carry different data** after `("leave", [.number 1])`, so
`AgreeOn Sight.data?` fails: the flat form makes the first leaf of the trip from `[.number 1]`, and
the hierarchy makes that leaf from nothing. -/
theorem Definition.errand_carries_other_data :
    ∃ flat, errand.RunsBoth flat { eventCollision := .namespaced } {} .explicit ∧
      errand.ExitsSettle .explicit ∧ ∃ link w' root v',
        (Act.startFlat (Surroundings.quiet.host 1) flat { eventCollision := .namespaced }).run
          ({ guest := () } : World Unit Unit) = some (.ok link, w') ∧
        (Act.startTree (Surroundings.quiet.host 1) errand {}).run
          ({ guest := () } : World Unit Unit) = some (.ok root, v') ∧
        ¬ AgreeOn Sight.data? (Surroundings.quiet.host 1) link root w' v'
          [("leave", [.number 1])] := by
  obtain ⟨flat, hruns⟩ := exists_errand_runsBoth .explicit
  have hsettle : errand.ExitsSettle .explicit := by decide
  obtain ⟨link, w', root, v', hflat, htree, hagree⟩ := hruns.exists_start hsettle
    (Surroundings.quiet.host 1) ({ guest := () } : World Unit Unit) { guest := () }
  refine ⟨flat, hruns, hsettle, link, w', root, v', hflat, htree, ?_⟩
  rw [hagree]
  decide +kernel

end Statechart
