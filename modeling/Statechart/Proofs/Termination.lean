import Statechart.Proofs.FollowUps
import Statechart.Proofs.Upholding

/-! # Looking for an answer comes to an end

A machine looks for the answer to an event under one key after the other. If the keys come to an
end, so does everything that the machine does with the event, as far as it depends on the machine:
resolving it, handling it, and passing it on to other machines. Only an empty delimiter leads from a
key to the same key again.

* `MachineConfig.Cuts`: settings without the empty delimiter.
* `Host.Returns`: those around a machine come to an end, and do not change its settings.
* **`World.AlwaysAnswers`**, **`World.NeverAnswers`**: a machine comes to an end with every event,
  or never with an event. `Host.Returns.alwaysAnswers` and `Machine.Endless.neverAnswers` say when.
* `World.isInvariant_tidy`: a world of machines stays one. `World.Tidy.isSome_perform`: every call
  comes to an end there.
* **`Machine.lookup_ends`**: the keys that a machine looks under, and what follows. -/

namespace Statechart

variable {ρ γ : Type} {settings : MachineConfig → Prop} {total : Prop} {host : Host ρ γ}
  {w w' : World ρ γ} {link : Link} {m : Machine (StatePlan ρ)} {config : MachineConfig}
  {event : Event} {delimiter : String}

/-- **Settings under which keys come to an end**: `lookup ≠ .ancestors ""`. -/
def MachineConfig.Cuts (config : MachineConfig) : Prop := config.lookup ≠ .ancestors ""

instance : DecidablePred MachineConfig.Cuts := fun config =>
  inferInstanceAs (Decidable (config.lookup ≠ .ancestors ""))

/-! ## One machine that answers -/

namespace World

/-- There is a machine at `link` with the settings `config`. -/
def RunsWith (w : World ρ γ) (link : Link) (config : MachineConfig) : Prop :=
  ∃ m, w.machine? link = some m ∧ m.config = config

/-- The machine at `link` keeps its settings. -/
def KeepsSettings (link : Link) (w w' : World ρ γ) : Prop :=
  ∀ config, w.RunsWith link config → w'.RunsWith link config

/-- `KeepsSettings link` is kept by whatever makes new cells (`IsGrowth`). -/
theorem isGrowth_keepsSettings (link : Link) :
    IsGrowth (KeepsSettings link : World ρ γ → World ρ γ → Prop) := by
  refine ⟨fun _ _ => id, fun _ _ _ h h' config hw => h' config (h config hw),
    fun _ _ _ => id, fun _ _ _ => id, fun w cell _ config => ?_⟩
  rintro ⟨m, hm, hconfig⟩
  exact ⟨m, machine?_addCell_of_machine? hm, hconfig⟩

end World

/-- **Those around a machine return**: `observe` and `enrol` come to an end, and are in
`KeepsSettings link`. They may send to the machine. -/
structure Host.Returns (host : Host ρ γ) (link : Link) : Prop where
  observe : ∀ subscriber change w,
    Act.Ends (host.observe subscriber change) w fun _ w' => w.KeepsSettings link w'
  enrol : ∀ subscriber child w,
    Act.Ends (host.enrol subscriber child) w fun _ w' => w.KeepsSettings link w'

/-- **`Act.resolve` comes to an end if and only if `event` is not `Endless`**, and keeps the
settings. -/
theorem Host.Returns.gives_resolve (h : host.Returns link) (hm : w.machine? link = some m)
    (event : Event) : Act.Gives (¬ m.Endless event) (Act.resolve host link event) w fun _ w' =>
      ¬ m.Endless event ∧ w'.RunsWith link m.config := by
  refine (Act.gives_resolve_unless (World.isGrowth_keepsSettings link)
    (fun subscriber child w => (h.enrol subscriber child w).gives) hm).mono ?_
  exact fun _ _ ⟨hends, hkeeps⟩ => ⟨hends, hkeeps m.config ⟨m, hm, rfl⟩⟩

/-- **`Act.resolve` has a result if and only if `event` is not `Endless`.** -/
theorem Host.Returns.isSome_resolve_iff (h : host.Returns link) (hm : w.machine? link = some m)
    (event : Event) :
    ((Act.resolve host link event).run w).isSome = true ↔ ¬ m.Endless event := by
  have hgives := h.gives_resolve hm event
  refine ⟨fun hsome => ?_, hgives.1⟩
  obtain ⟨⟨found?, w'⟩, hrun⟩ := Option.isSome_iff_exists.1 hsome
  exact (hgives.2 found? w' hrun).1

/-- **`Host.Returns` gives `UpholdsAt` for `RunsWith link config`**, which comes to an end if
`config.Cuts`. -/
theorem Host.Returns.upholdsAt (h : host.Returns link) (config : MachineConfig) :
    host.UpholdsAt (·.RunsWith link config) link config.Cuts where
  observe subscriber change w hw :=
    ((h.observe subscriber change w).mono fun _ _ hkeeps => hkeeps config hw).gives
  tweak := by
    rintro w m m' ⟨m₀, hm₀, rfl⟩ hm - - - hconfig - -
    rw [hm] at hm₀
    cases hm₀
    exact ⟨m', World.machine?_setCell_self hm, hconfig⟩
  resolve w event hw := by
    obtain ⟨m, hm, rfl⟩ := hw
    refine ((h.gives_resolve hm event).imp_total fun hcuts hendless => hcuts hendless.1).mono ?_
    rintro found? w' ⟨-, hw'⟩
    refine ⟨hw', fun found m₁ _ hm₁ => ?_⟩
    obtain ⟨m', hm', hconfig⟩ := hw'
    rw [hm₁] at hm'
    cases hm'
    exact ⟨_, World.machine?_setCell_self hm₁, hconfig⟩

/-- **The machine at `link` always answers**: `resolve`, `dispatchLocal` and `flush` come to an end,
and `dispatch` and `sendNamed` do if the event is for the machine itself (`HandlesItself`). -/
structure World.AlwaysAnswers (host : Host ρ γ) (link : Link) (m : Machine (StatePlan ρ))
    (w : World ρ γ) : Prop where
  resolve : ∀ event, ((Act.resolve host link event).run w).isSome = true
  dispatchLocal : ∀ event, ((Act.dispatchLocal host link event).run w).isSome = true
  dispatch : ∀ event, Act.HandlesItself w m event →
    ((Act.dispatch host link event).run w).isSome = true
  send : ∀ name params, Act.HandlesItself w m (.domain name params) →
    ((Act.sendNamed host link name params).run w).isSome = true
  flush : ((Act.flush host link).run w).isSome = true

/-- **`m.config.Cuts` gives `AlwaysAnswers`**, if those around it return. -/
theorem Host.Returns.alwaysAnswers (h : host.Returns link) (hm : w.machine? link = some m)
    (hcuts : m.config.Cuts) : w.AlwaysAnswers host link m := by
  -- The settings are all that has to stay the same.
  have hat := h.upholdsAt m.config
  have hw : w.RunsWith link m.config := ⟨m, hm, rfl⟩
  have hfree : (w.setCell link (.machine { m with engine? := none })).RunsWith link m.config :=
    ⟨_, World.machine?_setCell_self hm, rfl⟩
  have hdispatch : ∀ event, Act.HandlesItself w m event →
      ((Act.dispatch host link event).run w).isSome = true := fun event hself =>
    (Act.gives_dispatch_itself hm hself (hat.dispatchLocal event w hw)
      (hat.dispatchLocal event _ hfree)).1 hcuts
  refine ⟨fun event => (h.isSome_resolve_iff hm event).2 fun hendless => hcuts hendless.1,
    fun event => (hat.dispatchLocal event w hw).1 hcuts, hdispatch, fun name params hself => ?_,
    (hat.flush w hw).1 hcuts⟩
  rw [Act.sendNamed]
  split
  · rfl
  · exact hdispatch _ hself

/-! ## One machine that never answers -/

/-- **The machine at `link` never answers `event`**: `resolve` and `dispatchLocal` have no result,
and `dispatch` has none if the event is for the machine itself. -/
structure World.NeverAnswers (host : Host ρ γ) (link : Link) (m : Machine (StatePlan ρ))
    (event : Event) (w : World ρ γ) : Prop where
  resolve : (Act.resolve host link event).run w = none
  dispatchLocal : (Act.dispatchLocal host link event).run w = none
  dispatch : Act.HandlesItself w m event → (Act.dispatch host link event).run w = none

/-- `act.run w` is `none` if `act` gives something impossible. -/
theorem Act.run_eq_none {α : Type} {act : Act ρ γ α} (h : Gives total act w fun _ _ => False) :
    act.run w = none :=
  Option.eq_none_iff_forall_ne_some.2 fun ⟨a, w'⟩ hrun => h.2 a w' hrun

namespace Machine.Endless

/-- `resolve` never ends if `event` is `Endless`. -/
theorem gives_resolve (h : m.Endless event) (hm : w.machine? link = some m) :
    Act.Gives False (Act.resolve host link event) w fun _ _ => False := by
  rw [Act.resolve]
  refine Act.gives_get ?_
  simp only [hm, h.2.1, Machine.candidates?_eq_none_iff.2 ⟨h.1, h.2.2⟩]
  exact ⟨False.elim, by rintro _ _ ⟨⟩⟩

/-- `dispatchLocal` never ends if `event` is `Endless`. -/
theorem gives_dispatchLocal (h : m.Endless event) (hm : w.machine? link = some m) :
    Act.Gives False (Act.dispatchLocal host link event) w fun _ _ => False :=
  Act.gives_bind (Act.gives_bind (h.gives_resolve hm) fun _ _ => False.elim) fun _ _ => False.elim

/-- **`Endless` gives `NeverAnswers`.** -/
theorem neverAnswers (h : m.Endless event) (hm : w.machine? link = some m) :
    w.NeverAnswers host link m event := by
  -- A machine may forget its engine first. It looks no less without end then.
  have hfree : ({ m with engine? := none } : Machine (StatePlan ρ)).Endless event := h
  refine ⟨Act.run_eq_none (h.gives_resolve hm), Act.run_eq_none (h.gives_dispatchLocal hm), ?_⟩
  intro hself
  exact Act.run_eq_none (Act.gives_dispatch_itself hm hself (h.gives_dispatchLocal hm)
    (hfree.gives_dispatchLocal (World.machine?_setCell_self hm)))

end Machine.Endless

/-! ## Many machines -/

/-- **`World.Tidy` is a `World.IsInvariant`**, and calls come to an end if all settings have
`Cuts`. -/
theorem World.isInvariant_tidy (hcuts : total → ∀ config, settings config → config.Cuts) :
    World.IsInvariant settings (World.Tidy settings : World ρ γ → Prop) total where
  tidy _ hw := hw
  aside _ _ hw hcells hshared hminted _ _ := hw.of_eq hcells hshared (Nat.le_of_eq hminted.symm)
  idles _ _ _ hidles := hidles.1
  tweak w link m _ hw hm hid hfactory htable hconfig hcurrent _ :=
    hw.setCell hm hid ((hw.fits link m hm).of_parts hfactory htable hconfig)
      (hcurrent ▸ hw.children link m hm)
  resolve host hcalm w link event hw := by
    refine (Act.gives_resolve hcalm hcuts hw).mono ?_
    rintro found? w' ⟨hidles, hfound⟩
    refine ⟨hidles.1, fun found m hsome hm => ?_⟩
    exact hidles.1.setCell hm rfl ((hidles.1.fits link m hm).of_parts rfl rfl rfl)
      (hfound found hsome).1

/-- **Every `Call` comes to an end** in a world that is tidy with `MachineConfig.Cuts`, if `observe`
does and keeps it tidy. -/
theorem World.Tidy.isSome_perform {root : Link} (hw : w.Tidy MachineConfig.Cuts)
    (hcalm : host.IsCalm MachineConfig.Cuts True)
    (hobserve : ∀ subscriber change,
      Act.UpholdsIf True (World.Tidy MachineConfig.Cuts) (host.observe subscriber change))
    (call : Call) : ((call.perform host root).run w).isSome = true :=
  have hupholds : host.Upholds MachineConfig.Cuts (World.Tidy MachineConfig.Cuts) True :=
    ⟨hcalm, World.isInvariant_tidy fun _ _ => id, hobserve⟩
  (hupholds.perform root call w hw).1 trivial

/-! ## What a machine looks under -/

/-- **Looking under the ancestors of a key comes to an end** if and only if `delimiter ≠ ""` or the
event is the exit of a nested state. For all other events `m.lookupKeys?` is `some keys` if and only
if `Path.Ascends delimiter m.current.state.key keys`, and such `keys` start with the current key,
get ever shorter, and do not repeat. If the host returns, `Act.resolve` therefore comes to an end
exactly if the event is not `Machine.Endless`: for others `World.NeverAnswers` holds, and with a
delimiter `World.AlwaysAnswers`. In a world where no machine has an empty delimiter
(`MachineConfig.Cuts`), every `Call` comes to an end. -/
theorem Machine.lookup_ends (hlookup : m.config.lookup = .ancestors delimiter) :
    (∀ event, (m.lookupKeys? event).isSome = true ↔
      delimiter ≠ "" ∨ ∃ path, event = .childExit (.path path)) ∧
    (∀ event, (∀ path, event ≠ .childExit (.path path)) → ∀ keys,
      m.lookupKeys? event = some keys ↔ Path.Ascends delimiter m.current.state.key keys) ∧
    (∀ keys, Path.Ascends delimiter m.current.state.key keys →
      keys.head? = some m.current.state.key ∧
        (keys.Pairwise fun inner outer => outer.length < inner.length) ∧ keys.Nodup) ∧
    (∀ (host : Host ρ γ) link w, host.Returns link → w.machine? link = some m →
      (∀ event, ((Act.resolve host link event).run w).isSome = true ↔ ¬ m.Endless event) ∧
      (∀ event, m.Endless event → w.NeverAnswers host link m event) ∧
      (delimiter ≠ "" → w.AlwaysAnswers host link m)) ∧
    ∀ (host : Host ρ γ) root w, w.Tidy MachineConfig.Cuts →
      host.IsCalm MachineConfig.Cuts True →
      (∀ subscriber change,
        Act.UpholdsIf True (World.Tidy MachineConfig.Cuts) (host.observe subscriber change)) →
      ∀ call : Call, ((call.perform host root).run w).isSome = true := by
  have hempty : m.config.lookup = .ancestors "" ↔ delimiter = "" := by
    rw [hlookup, Lookup.ancestors.injEq]
  refine ⟨fun event => ?_, fun event hevent keys => ?_, fun keys hkeys => ?_,
    fun host link w hreturns hm => ⟨?_, ?_, ?_⟩, ?_⟩
  · rw [Option.isSome_iff_ne_none, Ne, Machine.lookupKeys?_eq_none_iff, hempty,
      Classical.not_and_iff_not_or_not]
    simp only [ne_eq, not_forall, not_not]
  · rw [Machine.lookupKeys?_eq_ancestors? hlookup hevent, Path.ancestors?_eq_some_iff]
  · exact ⟨hkeys.head?_eq, hkeys.pairwise, hkeys.nodup⟩
  · exact hreturns.isSome_resolve_iff hm
  · exact fun event hendless => hendless.neverAnswers hm
  · exact fun hne => hreturns.alwaysAnswers hm fun heq => hne (hempty.1 heq)
  · exact fun host root w hw hcalm hobserve => hw.isSome_perform hcalm hobserve

/-! ## A tangle, and the well -/

/-- The parts of a tangle: its key begins and ends with the delimiter, which is in the middle twice,
and `"undo"` has an answer under the last key, `""`. -/
def Assembly.tangle : Assembly (StatePlan Unit) State where
  initial := { key := "::a::::b::" }
  factory := Factory.empty.register "End" (.constant (.plain "End" .null true) true)
  table := Table.empty.insert "" (.domain "undo") (.target "End")
  config := { lookup := .ancestors "::" }

namespace World

/-- `Machine.start` of a tangle. -/
def theTangle : Machine (StatePlan Unit) := .start (.minted 0) .tangle

/-- The world of `theTangle` is tidy. -/
theorem tidy_tangle : (alone theTangle).Tidy MachineConfig.Cuts := by
  have hempty : ({ guest := () } : World Unit Unit).Tidy MachineConfig.Cuts := tidy_empty ()
  have hfits :
      theTangle.Fits MachineConfig.Cuts ({ guest := () } : World Unit Unit).HasMachine := by
    refine ⟨by decide, Factory.fits_empty.register ?_, Table.fits_empty.insert trivial⟩
    rintro params _ ⟨⟩
    trivial
  exact hempty.addCell rfl rfl hfits (by rintro _ ⟨⟩)

/-- `Machine.lookup_ends` for `theTangle`, whose key `"::a::::b::"` is cut four times, down to
`""`. -/
theorem tangle_undone :
    theTangle.lookupKeys? (.domain "undo" []) =
      some ["::a::::b::", "::a::::b", "::a::", "::a", ""] ∧
    Path.Ascends "::" "::a::::b::" ["::a::::b::", "::a::::b", "::a::", "::a", ""] ∧
    ["::a::::b::", "::a::::b", "::a::", "::a", ""].Nodup ∧
    (theTangle.lookupKeys? (.childExit (.path "::a::::b::"))).isSome = true ∧
    (alone theTangle).AlwaysAnswers (Surroundings.quiet.host 1) ⟨0⟩ theTangle ∧
    (∀ call : Call,
      ((call.perform (Surroundings.quiet.host 1) ⟨0⟩).run (alone theTangle)).isSome = true) ∧
    (((Act.sendNamed (Surroundings.quiet.host 1) ⟨0⟩ "undo" []).after
      (alone theTangle)).machine? ⟨0⟩).map (·.current.state.key) = some "End" := by
  have hquiet : (Surroundings.quiet.host 1 : Host Unit Unit).IsTame MachineConfig.Cuts True :=
    Surroundings.isTame_quiet 0
  have hreturns : (Surroundings.quiet.host 1 : Host Unit Unit).Returns ⟨0⟩ :=
    ⟨fun _ _ _ => Act.ends_pure fun _ => id, fun _ _ _ => Act.ends_pure fun _ => id⟩
  obtain ⟨hsome, hkeys, hlist, hanswers, hcalls⟩ :=
    Machine.lookup_ends (γ := Unit) (show theTangle.config.lookup = .ancestors "::" from rfl)
  have hundo : theTangle.lookupKeys? (.domain "undo" []) =
      some ["::a::::b::", "::a::::b", "::a::", "::a", ""] := by decide +kernel
  have hascends := (hkeys (.domain "undo" []) (by rintro _ ⟨⟩) _).1 hundo
  obtain ⟨-, -, halways⟩ := hanswers (Surroundings.quiet.host 1) ⟨0⟩ (alone theTangle) hreturns rfl
  refine ⟨hundo, hascends, (hlist _ hascends).2.2, (hsome _).2 (.inl (by decide)),
    halways (by decide), ?_, by decide +kernel⟩
  exact hcalls _ ⟨0⟩ _ tidy_tangle hquiet.toIsCalm fun subscriber change w hw =>
    (hquiet.observe subscriber change w hw).mono fun _ _ hidles => hidles.1

/-- **`theWell` never comes to an end with `"drop"`**, for with the delimiter `""` no `keys` are in
`Path.Ascends`. `MachineConfig.ofJson` accepts its settings, and `tableFault?` finds nothing wrong
with its table. -/
theorem well_keeps_looking :
    (MachineConfig.ofJson
        "\x7b\"lookup\":\x7b\"mode\":\"ancestors\",\"delimiter\":\"\"\x7d\x7d").toOption =
      some theWell.config ∧
    Builder.tableFault? theWell.factory theWell.table theWell.config.lookup = none ∧
    theWell.config.lookup = .ancestors "" ∧
    (¬ ∃ keys, Path.Ascends "" theWell.current.state.key keys) ∧
    theWell.lookupKeys? (.domain "drop" []) = none ∧
    (alone theWell).NeverAnswers (Surroundings.quiet.host 1) ⟨0⟩ theWell (.domain "drop" []) ∧
    (Act.sendNamed (Surroundings.quiet.host 1) ⟨0⟩ "drop" []).run (alone theWell) = none := by
  have hnot : ∀ path, Event.domain "drop" [] ≠ .childExit (.path path) := by rintro _ ⟨⟩
  have hendless : theWell.Endless (.domain "drop" []) := ⟨rfl, by decide, hnot⟩
  have hnever : (alone theWell).NeverAnswers (Surroundings.quiet.host 1) ⟨0⟩ theWell
      (.domain "drop" []) := hendless.neverAnswers rfl
  refine ⟨by decide +kernel, by decide +kernel, rfl, fun h => Path.exists_ascends_iff.1 h rfl,
    Machine.lookupKeys?_eq_none_iff.2 ⟨rfl, hnot⟩, hnever, ?_⟩
  rw [Act.sendNamed, if_neg (by decide)]
  exact hnever.dispatch (by rintro engine ⟨⟩)

end World

end Statechart
