import Statechart.Proofs.World.Tidy

/-! # Following plans in tidy worlds

A plan that fits into a tidy world leaves it tidy: what it makes are machines that fit, under new
identities and registered nowhere, and no machine that was there before is touched.

* `Builder.Fits`: parts of which only a machine that fits can be built.
* `Act.gives_install`: a machine that fits is put into a tidy world.
* **`StatePlan.gives_realise`**, `MachinePlan.gives_realise`: a tidy world idles while a plan that
  fits is followed, and what comes of it leads to machines. -/

namespace Statechart

variable {ρ γ τ : Type} {settings : MachineConfig → Prop} {known : Link → Prop} {total : Prop}
  {host : Host ρ γ} {w w' w'' : World ρ γ}

/-! ## Parts that fit -/

/-- `Factory.empty` fits. -/
theorem Factory.fits_empty : (Factory.empty : Factory (StatePlan ρ)).Fits settings known := by
  intro key params plan hplan
  cases hplan

/-- `Table.empty` fits. -/
theorem Table.fits_empty : (Table.empty : Table (StatePlan ρ)).Fits settings known := by
  intro key event spec hspec
  cases hspec

/-- `Factory.register` keeps `Factory.Fits` if the plans of `constructor` fit. -/
theorem Factory.Fits.register {factory : Factory (StatePlan ρ)} (h : factory.Fits settings known)
    {key : String} {constructor : Constructor (StatePlan ρ)}
    (hmakes : ∀ params plan, constructor.create params = some plan → plan.Fits settings known) :
    (factory.register key constructor).Fits settings known := by
  intro other params plan hplan
  rw [Factory.create, Factory.find?_register] at hplan
  by_cases hkey : other = key
  · rw [if_pos hkey] at hplan
    exact hmakes params plan hplan
  · rw [if_neg hkey] at hplan
    exact h other params plan hplan

/-- `Table.insert` keeps `Table.Fits` if `spec` fits. -/
theorem Table.Fits.insert {table : Table (StatePlan ρ)} (h : table.Fits settings known)
    {state : String} {event : EventKey} {spec : Spec (StatePlan ρ)}
    (hspec : specFits settings known spec) :
    (table.insert state event spec).Fits settings known := by
  intro key other spec' hget
  rw [Table.get?_insert] at hget
  split at hget
  · cases hget
    exact hspec
  · exact h key other spec' hget

/-- `Factory.file` keeps `Factory.Fits` if `item` fits and `made` is known. -/
theorem Factory.Fits.file {factory : Factory (StatePlan ρ)} (h : factory.Fits settings known)
    {item : FactoryItem (StatePlan ρ)} (hitem : itemFits settings known item)
    {made : Option State} (hmade : ∀ state, made = some state → state.Within known) :
    (factory.file item made).Fits settings known := by
  cases item with
  | made key isFinal build =>
    refine h.register fun params plan hplan => ?_
    have hfits := hitem params
    rw [show build params = some plan from hplan] at hfits
    exact hfits
  | unit key isFinal state =>
    cases made with
    | none => exact h
    | some made =>
      refine h.register fun params plan hplan => ?_
      cases hplan
      exact StatePlan.fits_ofState settings known (hmade made rfl)

/-- **`Factory.ofItems` fits if the items do.** -/
theorem Factory.fits_ofItems {items : List (FactoryItem (StatePlan ρ))} {made : List (Option State)}
    (hitems : itemsFit settings known items)
    (hmade : ∀ state, some state ∈ made → state.Within known) :
    (Factory.ofItems items made).Fits settings known := by
  rw [itemsFit_iff] at hitems
  rw [Factory.ofItems]
  -- Entries are filed one after the other, and those so far fit.
  refine List.foldlRecOn (motive := (Factory.Fits settings known ·)) _ _ Factory.fits_empty ?_
  rintro factory hfactory ⟨item, state?⟩ hmem
  have hboth := List.of_mem_zip hmem
  refine hfactory.file (hitems item hboth.1) ?_
  rintro state rfl
  exact hmade state hboth.2

/-- **The parts of a builder fit**: its settings, its factory and its table. -/
structure Builder.Fits (settings : MachineConfig → Prop) (known : Link → Prop)
    (b : Builder (StatePlan ρ) τ) : Prop where
  config : settings b.config
  factory : b.factory.Fits settings known
  table : b.table.Fits settings known

/-- `Builder.Fits` where more links are `known`. -/
theorem Builder.Fits.mono {known' : Link → Prop} {b : Builder (StatePlan ρ) τ}
    (h : b.Fits settings known) (hknown : ∀ link, known link → known' link) :
    b.Fits settings known' :=
  ⟨h.config, h.factory.mono hknown, h.table.mono hknown⟩

/-- `Builder.row` keeps `Builder.Fits` if the answer of the row fits. -/
theorem Builder.Fits.row {b : Builder (StatePlan ρ) τ} (h : b.Fits settings known)
    {row : Row (StatePlan ρ)} (hrow : specFits settings known row.spec) :
    (b.row row).Fits settings known := by
  have hentry : ∀ event, (b.entry row.state event row.spec).Fits settings known := fun event =>
    ⟨h.config, h.factory, h.table.insert hrow⟩
  unfold Builder.row
  split
  · unfold Builder.on
    split
    -- A row with a reserved name is just an issue.
    · exact ⟨h.config, h.factory, h.table⟩
    · exact hentry _
  · exact hentry _

/-- **`MachinePlan.builder` fits** if its settings, its factory and its rows do. -/
theorem MachinePlan.fits_builder {config : MachineConfig} {factory : Factory (StatePlan ρ)}
    {rows : List (Row (StatePlan ρ))} (hconfig : settings config)
    (hfactory : factory.Fits settings known) (hrows : rowsFit settings known rows)
    (initialKey? : Option String) (initial? : Option State) :
    (MachinePlan.builder config factory rows initialKey? initial?).Fits settings known := by
  rw [rowsFit_iff] at hrows
  have hadded : (rows.foldl Builder.row
      ({ config, factory } : Builder (StatePlan ρ) State)).Fits settings known := by
    refine List.foldlRecOn (motive := (Builder.Fits settings known ·)) _ _
      ⟨hconfig, hfactory, Table.fits_empty⟩ ?_
    intro b hb row hrow
    exact hb.row (hrows row hrow)
  unfold MachinePlan.builder
  cases initialKey? <;> cases initial? <;> exact ⟨hadded.config, hadded.factory, hadded.table⟩

/-- The initial state of `MachinePlan.builder` is `initial?`, if it is given as a state. -/
theorem MachinePlan.initial?_builder {config : MachineConfig} {factory : Factory (StatePlan ρ)}
    {rows : List (Row (StatePlan ρ))} {initialKey? : Option String} {initial? : Option State}
    {state : State}
    (h : (MachinePlan.builder config factory rows initialKey? initial?).initial? =
      some (.state state)) : initial? = some state := by
  -- Rows say nothing of the initial state.
  have hrows : (rows.foldl Builder.row
      ({ config, factory } : Builder (StatePlan ρ) State)).initial? = none := by
    refine List.foldlRecOn (motive := fun b : Builder (StatePlan ρ) State => b.initial? = none)
      _ _ rfl ?_
    intro b hb row _
    unfold Builder.row Builder.on Builder.entry
    split
    · split <;> exact hb
    · exact hb
  unfold MachinePlan.builder at h
  cases initial? with
  | some other =>
    cases initialKey? <;> cases h <;> rfl
  | none =>
    cases initialKey? with
    | some key => cases h
    | none =>
      have hnone : (rows.foldl Builder.row
          ({ config, factory } : Builder (StatePlan ρ) State)).initial? = some (.state state) := h
      rw [hrows] at hnone
      cases hnone

/-- `Machine.start` of parts that `Builder.finish` has checked fits, in the state `initial`. -/
theorem Builder.Fits.start {b : Builder (StatePlan ρ) State} (h : b.Fits settings known)
    {initial : State} {parts : Assembly (StatePlan ρ) State}
    (hparts : b.finish initial = .ok parts) (hinitial : initial.Within known) (id : MachineId) :
    (Machine.start id parts).Fits settings known ∧
      (Machine.start id parts).current.state.Within known := by
  unfold Builder.finish at hparts
  split at hparts
  · cases hparts
  · cases hparts
    exact ⟨⟨h.config, h.factory, h.table⟩, hinitial⟩

/-! ## Following plans -/

/-- The child of `state?` is `known`, if there is one. -/
def stateWithin (known : Link → Prop) (state? : Option State) : Prop :=
  ∀ state, state? = some state → state.Within known

/-- `link?` is `known`, if there is one. -/
def linkWithin (known : Link → Prop) (link? : Option Link) : Prop :=
  ∀ link, link? = some link → known link

/-- `stateWithin w.HasMachine` is kept while `w` idles. -/
theorem World.Idles.stateWithin {state? : Option State} (hw : w.Idles settings w')
    (h : Statechart.stateWithin w.HasMachine state?) :
    Statechart.stateWithin w'.HasMachine state? :=
  fun state hstate child hchild => hw.known child (h state hstate child hchild)

namespace Act

/-- **`Act.install` puts a machine that fits into a tidy world.** -/
theorem gives_install (hhost : host.IsCalm settings total) {parts : Assembly (StatePlan ρ) State}
    (hparts : ∀ id, (Machine.start id parts).Fits settings w.HasMachine ∧
      (Machine.start id parts).current.state.Within w.HasMachine)
    (shareAs? : Option String) (subscribers : List ρ) (hw : w.Tidy settings) :
    Gives total (install host parts shareAs? subscribers) w fun link w' =>
      w.Idles settings w' ∧ w'.HasMachine link := by
  have hmint : Gives total (mint : Act ρ γ MachineId) w fun id w₁ =>
      id = .minted w.minted ∧ w₁ = { w with minted := w.minted + 1 } :=
    ⟨fun _ => rfl, by rintro _ _ ⟨⟩; exact ⟨rfl, rfl⟩⟩
  have hallocate : Gives total
      (allocate (.machine (Machine.start (.minted w.minted) parts)) : Act ρ γ Link)
      { w with minted := w.minted + 1 } fun link w₁ =>
        w.Idles settings w₁ ∧ w₁.HasMachine link := by
    refine ⟨fun _ => rfl, ?_⟩
    rintro _ _ ⟨⟩
    obtain ⟨hfits, hchild⟩ := hparts (.minted w.minted)
    exact ⟨.addCell hw rfl rfl hfits hchild, _, World.machine?_addCell.trans (if_pos rfl)⟩
  -- The subscribers come last, to whom the world is as tidy as before.
  have hrest : ∀ link w₁, w.Idles settings w₁ ∧ w₁.HasMachine link →
      Gives total (do subscribers.forM fun subscriber => host.enrol subscriber link
                      return link : Act ρ γ Link) w₁ fun link w' =>
        w.Idles settings w' ∧ w'.HasMachine link := by
    rintro link w₁ ⟨hw₁, hlink⟩
    have henrol : Gives total (subscribers.forM fun subscriber => host.enrol subscriber link) w₁
        fun _ w₂ => w₁.Idles settings w₂ := by
      refine gives_forM (.refl hw₁.1) fun subscriber _ w₂ hw₂ => ?_
      exact (hhost.enrol subscriber link w₂ hw₂.1).mono fun _ _ hw₃ => hw₂.trans hw₃
    exact gives_bind henrol fun _ w₂ hw₂ => gives_pure ⟨hw₁.trans hw₂, hw₂.known link hlink⟩
  rw [install]
  refine gives_bind hmint ?_
  rintro _ _ ⟨rfl, rfl⟩
  refine gives_bind hallocate fun link w₁ hw₁ => ?_
  cases shareAs? with
  | none => exact hrest link w₁ hw₁
  | some name =>
    have hshared : Gives total
        (modify fun w => { w with shared := w.shared.insert name link } : Act ρ γ Unit) w₁
        fun _ w₂ => w.Idles settings w₂ ∧ w₂.HasMachine link :=
      gives_modify ⟨hw₁.1.trans (.share hw₁.1.1 hw₁.2 name), hw₁.2⟩
    exact gives_bind hshared fun _ w₂ hw₂ => hrest link w₂ hw₂

/-- **`Builder.build` gives parts of a machine that fits** if `b` fits. -/
theorem gives_build {b : Builder (StatePlan ρ) State} (hb : b.Fits settings w.HasMachine)
    (hinitial : ∀ state, b.initial? = some (.state state) → state.Within w.HasMachine)
    {make : String → Act ρ γ (Option State)} (hw : w.Tidy settings)
    (hmake : ∀ key, Gives total (make key) w fun state? w' =>
      w.Idles settings w' ∧ stateWithin w'.HasMachine state?) :
    Gives total (b.build make) w fun result w' => w.Idles settings w' ∧
      ∀ parts, result = .ok parts → ∀ id, (Machine.start id parts).Fits settings w'.HasMachine ∧
        (Machine.start id parts).current.state.Within w'.HasMachine := by
  unfold Builder.build
  split
  · exact gives_pure ⟨.refl hw, by rintro _ ⟨⟩⟩
  · exact gives_pure ⟨.refl hw, by rintro _ ⟨⟩⟩
  · rename_i state _ hstate
    exact gives_pure ⟨.refl hw, fun _ hparts id => hb.start hparts (hinitial state hstate) id⟩
  · refine gives_bind (hmake _) fun state? w₁ hw₁ => ?_
    cases state? with
    | none => exact gives_pure ⟨hw₁.1, by rintro _ ⟨⟩⟩
    | some state =>
      have hb₁ : b.Fits settings w₁.HasMachine := hb.mono hw₁.1.known
      exact gives_pure ⟨hw₁.1, fun _ hparts id => hb₁.start hparts (hw₁.2 state rfl) id⟩

end Act

mutual

/-- **A tidy world idles during `StatePlan.realise`** of a plan that fits. -/
theorem StatePlan.gives_realise (hhost : host.IsCalm settings total) :
    ∀ (plan : StatePlan ρ) (w : World ρ γ), plan.Fits settings w.HasMachine → w.Tidy settings →
      Act.Gives total (plan.realise host) w fun state? w' =>
        w.Idles settings w' ∧ stateWithin w'.HasMachine state?
  | ⟨key, data, isFinal, child?, needsChild⟩, w, hfits, hw => by
    rw [StatePlan.realise]
    refine Act.gives_bind (gives_realiseChild hhost child? w hfits hw) ?_
    rintro ⟨wanted, child⟩ w₁ ⟨hw₁, hchild⟩
    show Act.Gives total (if _ then _ else _) w₁ _
    split
    · exact Act.gives_pure ⟨hw₁, by rintro _ ⟨⟩⟩
    · refine Act.gives_pure ⟨hw₁, ?_⟩
      rintro _ ⟨⟩
      exact hchild

/-- A tidy world idles during `Act.realiseChild`. -/
theorem gives_realiseChild (hhost : host.IsCalm settings total) :
    ∀ (child? : Option (ChildPlan ρ)) (w : World ρ γ), childFits settings w.HasMachine child? →
      w.Tidy settings →
      Act.Gives total (realiseChild host child?) w fun child w' =>
        w.Idles settings w' ∧ linkWithin w'.HasMachine child.2
  | none, w, _, hw => by
    rw [realiseChild]
    exact Act.gives_pure ⟨.refl hw, by rintro _ ⟨⟩⟩
  | some child, w, hfits, hw => by
    rw [realiseChild]
    exact Act.gives_bind (ChildPlan.gives_realise hhost child w hfits hw) fun _ _ hw₁ =>
      Act.gives_pure hw₁

/-- **A tidy world idles during `ChildPlan.realise`** of a plan that fits. -/
theorem ChildPlan.gives_realise (hhost : host.IsCalm settings total) :
    ∀ (child : ChildPlan ρ) (w : World ρ γ), child.Fits settings w.HasMachine → w.Tidy settings →
      Act.Gives total (child.realise host) w fun link? w' =>
        w.Idles settings w' ∧ linkWithin w'.HasMachine link?
  | .live link, w, hfits, hw => by
    rw [ChildPlan.realise]
    refine Act.gives_pure ⟨.refl hw, ?_⟩
    rintro _ ⟨⟩
    exact hfits
  | .shared name, w, _, hw => by
    rw [ChildPlan.realise]
    exact Act.gives_get (Act.gives_pure ⟨.refl hw, hw.shared name⟩)
  | .machine plan, w, hfits, hw => by
    rw [ChildPlan.realise]
    refine Act.gives_bind (MachinePlan.gives_realise hhost plan w hfits hw) ?_
    rintro (error | link) w₁ ⟨hw₁, hlink⟩
    · exact Act.gives_pure ⟨hw₁, by rintro _ ⟨⟩⟩
    · refine Act.gives_pure ⟨hw₁, ?_⟩
      rintro _ ⟨⟩
      exact hlink link rfl
  | .device device, w, hfits, _ => hfits.elim
  | .sendOnly plan isMute hiddenIn, w, hfits, _ => hfits.elim

/-- **A tidy world idles during `MachinePlan.realise`** of a plan that fits. -/
theorem MachinePlan.gives_realise (hhost : host.IsCalm settings total) :
    ∀ (plan : MachinePlan ρ) (w : World ρ γ), plan.Fits settings w.HasMachine → w.Tidy settings →
      Act.Gives total (plan.realise host) w fun result w' =>
        w.Idles settings w' ∧ ∀ link, result = .ok link → w'.HasMachine link
  | ⟨.error fault, items, rows, initialKey?, initial?, subscribers, shareAs?⟩, w, _, hw => by
    rw [MachinePlan.realise]
    exact Act.gives_pure ⟨.refl hw, by rintro _ ⟨⟩⟩
  | ⟨.ok config, items, rows, initialKey?, initial?, subscribers, shareAs?⟩, w, hfits, hw => by
    obtain ⟨hconfig, hitems, hrows, hinitial⟩ := hfits
    rw [MachinePlan.realise]
    refine Act.gives_bind (gives_realiseItems hhost items w hitems hw) ?_
    rintro made w₁ ⟨hw₁, hmade⟩
    have hinitial₁ := stateFits.mono hw₁.known initial? hinitial
    refine Act.gives_bind (gives_realiseInitial hhost initial? w₁ hinitial₁ hw₁.1) ?_
    rintro state? w₂ ⟨hw₂, hstate⟩
    -- What fitted at the beginning fits still, and so does what has been made meanwhile.
    have hw₁₂ := hw₁.trans hw₂
    have hmade₂ : ∀ state, some state ∈ made → state.Within w₂.HasMachine :=
      fun state hmem child hchild => hw₂.known child (hmade state hmem child hchild)
    have hitems₂ := itemsFit.mono hw₁₂.known items hitems
    have hbuilder := MachinePlan.fits_builder (hconfig config rfl)
      (Factory.fits_ofItems hitems₂ hmade₂) (rowsFit.mono hw₁₂.known rows hrows) initialKey? state?
    refine Act.gives_bind (Act.gives_build hbuilder
      (fun state h => hstate state (MachinePlan.initial?_builder h)) hw₂.1 fun key =>
        gives_realiseKey hhost key items made w₂ hitems₂ hmade₂ hw₂.1) ?_
    rintro (error | parts) w₃ ⟨hw₃, hparts⟩
    · exact Act.gives_pure ⟨hw₁₂.trans hw₃, by rintro _ ⟨⟩⟩
    · refine Act.gives_bind (Act.gives_install hhost (hparts parts rfl) shareAs? subscribers hw₃.1)
        ?_
      rintro link w₄ ⟨hw₄, hlink⟩
      refine Act.gives_pure ⟨hw₁₂.trans (hw₃.trans hw₄), ?_⟩
      rintro _ ⟨⟩
      exact hlink

/-- A tidy world idles during `Act.realiseItems`. -/
theorem gives_realiseItems (hhost : host.IsCalm settings total) :
    ∀ (items : List (FactoryItem (StatePlan ρ))) (w : World ρ γ),
      itemsFit settings w.HasMachine items → w.Tidy settings →
      Act.Gives total (realiseItems host items) w fun made w' =>
        w.Idles settings w' ∧ ∀ state, some state ∈ made → state.Within w'.HasMachine
  | [], w, _, hw => by
    rw [realiseItems]
    exact Act.gives_pure ⟨.refl hw, by rintro _ ⟨⟩⟩
  | item :: rest, w, hfits, hw => by
    rw [realiseItems]
    refine Act.gives_bind (gives_realiseItem hhost item w hfits.1 hw) ?_
    rintro made w₁ ⟨hw₁, hmade⟩
    have hrest := itemsFit.mono hw₁.known rest hfits.2
    refine Act.gives_bind (gives_realiseItems hhost rest w₁ hrest hw₁.1) ?_
    rintro others w₂ ⟨hw₂, hothers⟩
    refine Act.gives_pure ⟨hw₁.trans hw₂, fun state hstate => ?_⟩
    rcases List.mem_cons.1 hstate with hfirst | hother
    · exact hw₂.stateWithin hmade state hfirst.symm
    · exact hothers state hother

/-- A tidy world idles during `Act.realiseItem`. -/
theorem gives_realiseItem (hhost : host.IsCalm settings total) :
    ∀ (item : FactoryItem (StatePlan ρ)) (w : World ρ γ), itemFits settings w.HasMachine item →
      w.Tidy settings →
      Act.Gives total (realiseItem host item) w fun state? w' =>
        w.Idles settings w' ∧ stateWithin w'.HasMachine state?
  | .unit key isFinal state, w, hfits, hw => by
    rw [realiseItem]
    exact StatePlan.gives_realise hhost state w hfits hw
  | .made key isFinal build, w, _, hw => by
    rw [realiseItem]
    exact Act.gives_pure ⟨.refl hw, by rintro _ ⟨⟩⟩

/-- A tidy world idles during `Act.realiseInitial`. -/
theorem gives_realiseInitial (hhost : host.IsCalm settings total) :
    ∀ (plan? : Option (StatePlan ρ)) (w : World ρ γ), stateFits settings w.HasMachine plan? →
      w.Tidy settings →
      Act.Gives total (realiseInitial host plan?) w fun state? w' =>
        w.Idles settings w' ∧ stateWithin w'.HasMachine state?
  | none, w, _, hw => by
    rw [realiseInitial]
    exact Act.gives_pure ⟨.refl hw, by rintro _ ⟨⟩⟩
  | some plan, w, hfits, hw => by
    rw [realiseInitial]
    exact StatePlan.gives_realise hhost plan w hfits hw

/-- A tidy world idles during `Act.realiseKey`. -/
theorem gives_realiseKey (hhost : host.IsCalm settings total) (key : String) :
    ∀ (items : List (FactoryItem (StatePlan ρ))) (made : List (Option State)) (w : World ρ γ),
      itemsFit settings w.HasMachine items →
      (∀ state, some state ∈ made → state.Within w.HasMachine) → w.Tidy settings →
      Act.Gives total (realiseKey host key items made) w fun state? w' =>
        w.Idles settings w' ∧ stateWithin w'.HasMachine state?
  | [], made, w, _, _, hw => by
    rw [realiseKey]
    · exact Act.gives_pure ⟨.refl hw, by rintro _ ⟨⟩⟩
    · rintro _ _ _ _ ⟨⟩
  | item :: rest, [], w, _, _, hw => by
    rw [realiseKey]
    · exact Act.gives_pure ⟨.refl hw, by rintro _ ⟨⟩⟩
    · rintro _ _ _ _ _ ⟨⟩
  | item :: rest, made :: restMade, w, hfits, hmade, hw => by
    rw [realiseKey]
    split
    · exact gives_realiseKey hhost key rest restMade w hfits.2
        (fun state hstate => hmade state (List.mem_cons_of_mem _ hstate)) hw
    · split
      · refine gives_realiseEntry hhost item w hfits.1 ?_ hw
        rintro state rfl
        exact hmade state List.mem_cons_self
      · exact Act.gives_pure ⟨.refl hw, by rintro _ ⟨⟩⟩

/-- A tidy world idles during `Act.realiseEntry`. -/
theorem gives_realiseEntry (hhost : host.IsCalm settings total) {made : Option State} :
    ∀ (item : FactoryItem (StatePlan ρ)) (w : World ρ γ), itemFits settings w.HasMachine item →
      stateWithin w.HasMachine made → w.Tidy settings →
      Act.Gives total (realiseEntry host made item) w fun state? w' =>
        w.Idles settings w' ∧ stateWithin w'.HasMachine state?
  | .unit key isFinal state, w, _, hmade, hw => by
    rw [realiseEntry]
    exact Act.gives_pure ⟨.refl hw, hmade⟩
  | .made key isFinal build, w, hfits, _, hw => by
    rw [realiseEntry]
    exact gives_realiseInitial hhost (build []) w (hfits []) hw

end

end Statechart
