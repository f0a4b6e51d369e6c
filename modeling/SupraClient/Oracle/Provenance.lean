import SupraClient.Oracle.Worker

/-! # Where published prices come from

Every price a worker posts or submits was read from the stored record, so it
was fetched and stored by some worker before. There is one exception: as long as
nothing has been stored, a worker that does not get the lock reads no record
and goes on with the price zero.
-/

namespace SupraClient.Oracle

open Scale Concurrency

variable {Worker : Type}

/-- Some worker has fetched the record with success and has stored it then. -/
def FetchedAndStored (history : List (Label Worker)) (data : LightClient) : Prop :=
  ∃ worker, List.Sublist
    [.act worker (.fetchNParse (.ok data)), .act worker (.store data)] history

def NothingStored (history : List (Label Worker)) : Prop :=
  ∀ worker data, .act worker (.store data) ∉ history

/-- The price of a stored record, or the zero read when nothing was stored yet. -/
def Sourced (history : List (Label Worker)) (worker : Worker) (price : ByteVec) : Prop :=
  (∃ data, FetchedAndStored history data ∧ data.price = price) ∨
    price = zeroPrice ∧ ∃ earlier later,
      history = earlier ++ .act worker (.read zeroPrice) :: later ∧ NothingStored earlier

/-- The worker and the price of a label that publishes one. -/
def Label.published : Label Worker → Option (Worker × ByteVec)
  | .act worker (.post price _) => some (worker, price)
  | .act worker (.submit price _) => some (worker, price)
  | _ => none

section History

variable {history : List (Label Worker)} {data : LightClient} {worker : Worker} {price : ByteVec}

theorem FetchedAndStored.append (h : FetchedAndStored history data) (label : Label Worker) :
    FetchedAndStored (history ++ [label]) data := by
  obtain ⟨worker, hsublist⟩ := h
  exact ⟨worker, hsublist.trans (List.sublist_append_left history [label])⟩

theorem FetchedAndStored.of_fetched (h : .act worker (.fetchNParse (.ok data)) ∈ history) :
    FetchedAndStored (history ++ [.act worker (.store data)]) data :=
  ⟨worker, (List.singleton_sublist.mpr h).append (List.Sublist.refl _)⟩

theorem Sourced.append (h : Sourced history worker price) (label : Label Worker) :
    Sourced (history ++ [label]) worker price := by
  rcases h with ⟨data, hstored, hprice⟩ | ⟨hzero, earlier, later, rfl, hnothing⟩
  · exact Or.inl ⟨data, hstored.append label, hprice⟩
  · exact Or.inr ⟨hzero, earlier, later ++ [label], by simp, hnothing⟩

end History

/-- What the history says about a run of the worker in a given phase. -/
def PhaseSourced (history : List (Label Worker)) (worker : Worker) : Phase → Prop
  | .fetched data => .act worker (.fetchNParse (.ok data)) ∈ history
  | .ready price | .posted price => Sourced history worker price
  | _ => True

theorem PhaseSourced.append {history : List (Label Worker)} {worker : Worker} {phase : Phase}
    (h : PhaseSourced history worker phase) (label : Label Worker) :
    PhaseSourced (history ++ [label]) worker phase := by
  cases phase with
  | fetched data => exact List.mem_append_left _ h
  | ready price => exact Sourced.append h label
  | posted price => exact Sourced.append h label
  | _ => trivial

/-- The stored bytes are those of a record stored before, and every run of the
worker carries a price with a source. -/
structure Tracks (history : List (Label Worker)) (state : WorkerState Worker) : Prop where
  present : ∀ bytes, state.info = some bytes →
    ∃ data, FetchedAndStored history data ∧ bytes = LightClient.codec.encode data
  absent : state.info = none → NothingStored history
  phases : ∀ worker, PhaseSourced history worker (state.phase worker)

namespace Tracks

variable {history : List (Label Worker)} {state next : WorkerState Worker} {label : Label Worker}

/-- Steps that do not store anything only have to account for changed phases. -/
theorem of_quiet (htracks : Tracks history state)
    (hquiet : ∀ worker data, label ≠ .act worker (.store data)) (hinfo : next.info = state.info)
    (hphases : ∀ worker, next.phase worker = state.phase worker ∨
      PhaseSourced (history ++ [label]) worker (next.phase worker)) :
    Tracks (history ++ [label]) next := by
  refine ⟨fun bytes hbytes => ?_, fun hnone worker data hmem => ?_, fun worker => ?_⟩
  · obtain ⟨data, hstored, heq⟩ := htracks.present bytes (hinfo.symm.trans hbytes)
    exact ⟨data, hstored.append label, heq⟩
  · rcases List.mem_append.mp hmem with hbefore | hself
    · exact htracks.absent (hinfo.symm.trans hnone) worker data hbefore
    · exact hquiet worker data (List.mem_singleton.mp hself).symm
  · rcases hphases worker with hsame | hsourced
    · rw [hsame]
      exact (htracks.phases worker).append label
    · exact hsourced

/-- The price read is the price of a stored record, or zero if there is none. -/
theorem sourced_read (htracks : Tracks history state) (worker : Worker) :
    Sourced (history ++ [.act worker (.read (finalPrice state.info))]) worker
      (finalPrice state.info) := by
  cases hinfo : state.info with
  | none =>
      refine Or.inr ⟨rfl, history, [], rfl, htracks.absent hinfo⟩
  | some bytes =>
      obtain ⟨data, hstored, rfl⟩ := htracks.present bytes hinfo
      refine Or.inl ⟨data, hstored.append _, ?_⟩
      simp only [finalPrice, Option.map_some, Codec.read_encode]

variable [DecidableEq Worker] {worker : Worker} {action : Action} {middle : WorkerState Worker}

theorem of_advance (htracks : Tracks history state) {phase : Phase}
    (hinfo : middle.info = state.info) (hphase : middle.phase = state.phase)
    (hquiet : ∀ data, action ≠ .store data)
    (hsourced : PhaseSourced (history ++ [.act worker action]) worker phase) :
    Tracks (history ++ [.act worker action]) (middle.advance worker phase) := by
  refine htracks.of_quiet (fun other data heq => ?_) hinfo fun other => ?_
  · cases heq
    exact hquiet data rfl
  · by_cases hother : other = worker
    · subst other
      right
      rwa [WorkerState.advance_phase_self]
    · left
      rw [WorkerState.advance_phase_of_ne _ hother, hphase]

/-- The store step is the only one that changes the record. -/
theorem of_store {data : LightClient} (htracks : Tracks history state)
    (hphase : state.phase worker = .fetched data) :
    Tracks (history ++ [.act worker (.store data)])
      ({ state with info := some (LightClient.codec.encode data) }.advance worker .stored) := by
  have hfetched : .act worker (.fetchNParse (.ok data)) ∈ history := by
    have hsourced := htracks.phases worker
    rwa [hphase] at hsourced
  refine ⟨fun bytes hbytes => ?_, fun hnone => (nomatch hnone), fun other => ?_⟩
  · exact ⟨data, .of_fetched hfetched, (Option.some.inj hbytes).symm⟩
  · by_cases hother : other = worker
    · subst other
      rw [WorkerState.advance_phase_self]
      trivial
    · rw [WorkerState.advance_phase_of_ne _ hother]
      exact (htracks.phases other).append _

theorem act (htracks : Tracks history state) (hacts : WorkerState.Acts state worker action next) :
    Tracks (history ++ [.act worker action]) next := by
  cases hacts with
  | store hphase => exact htracks.of_store hphase
  | acquire hphase hlock | skip hphase hlock | fetchError hphase | postInvalid hphase hbody
  | postError hphase | abandon hphase | panic hphase | submit hphase =>
      exact htracks.of_advance rfl rfl (by simp) trivial
  | unlock hphase | unlockError hphase =>
      exact htracks.of_advance (WorkerState.release_info _ _)
        (WorkerState.release_phase _ _) (by simp) trivial
  | fetch hphase => exact htracks.of_advance rfl rfl (by simp) (by simp [PhaseSourced])
  | read hphase => exact htracks.of_advance rfl rfl (by simp) (htracks.sourced_read worker)
  | post hphase hbody =>
      have hsourced := htracks.phases worker
      rw [hphase] at hsourced
      exact htracks.of_advance rfl rfl (by simp) (Sourced.append hsourced _)

end Tracks

/-! ## All interleavings -/

variable [DecidableEq Worker]

theorem tracks_of_run {history : List (Label Worker)} {state : WorkerState Worker}
    (hrun : (workers Worker).run history = some state) : Tracks history state := by
  refine (workers Worker).run_invariant Tracks ?_ ?_ hrun
  · exact ⟨fun bytes hbytes => (nomatch hbytes), fun _ _ _ hmem => (nomatch hmem),
      fun _ => trivial⟩
  · intro history state label next htracks hstep
    cases label with
    | act worker action => exact htracks.act (WorkerState.acts_of_act hstep)
    | expire =>
        cases hstep
        exact htracks.of_quiet (fun _ _ => nofun) rfl fun _ => Or.inl rfl

/-- A price is published by a run that has read it. -/
theorem phase_of_published {state next : WorkerState Worker} {label : Label Worker}
    {worker : Worker} {price : ByteVec} (hpublished : label.published = some (worker, price))
    (hstep : (workers Worker).step state label = some next) :
    state.phase worker = .ready price ∨ state.phase worker = .posted price := by
  cases label with
  | expire => cases hpublished
  | act actor action =>
      have hacts := WorkerState.acts_of_act hstep
      cases hacts with
      | post hphase hbody | postInvalid hphase hbody | postError hphase =>
          cases hpublished
          exact Or.inl hphase
      | submit hphase =>
          cases hpublished
          exact Or.inr hphase
      | _ => cases hpublished

/-- Prices are published with a source. -/
theorem Tracks.sourced_of_published {history : List (Label Worker)}
    {state next : WorkerState Worker} (htracks : Tracks history state) {label : Label Worker}
    {worker : Worker} {price : ByteVec} (hpublished : label.published = some (worker, price))
    (hstep : (workers Worker).step state label = some next) : Sourced history worker price := by
  have hsourced := htracks.phases worker
  rcases phase_of_published hpublished hstep with hphase | hphase
  · rwa [hphase] at hsourced
  · rwa [hphase] at hsourced

/-- In every interleaving, whatever the fetches return, each price posted to
Ethereum or submitted to the chain is the price of a record fetched and stored
before, or the zero read by its worker before anything was stored. -/
theorem published_price_sourced (history before after : List (Label Worker)) (label : Label Worker)
    (worker : Worker) (price : ByteVec) (hrun : ((workers Worker).run history).isSome)
    (hsplit : history = before ++ label :: after)
    (hpublished : label.published = some (worker, price)) : Sourced before worker price := by
  subst hsplit
  obtain ⟨current, next, hcurrent, hstep⟩ := (workers Worker).enabled_of_run hrun
  exact (tracks_of_run hcurrent).sourced_of_published hpublished hstep

/-- A worker that fetches, stores, reads and posts a price, while another one is
kept out by the lock. -/
theorem fetched_price_posted :
    let price : ByteVec := ⟨bytesOf "1800.25", by decide⟩
    let data : LightClient := ⟨price, ⟨[], by decide⟩⟩
    let before : List (Label Nat) :=
      [.act 0 (.tryLock true), .act 1 (.tryLock false), .act 0 (.fetchNParse (.ok data)),
        .act 0 (.store data), .act 0 .unlock, .act 1 (.read price)]
    let label : Label Nat := .act 1 (.post price (.ok []))
    ((workers Nat).run (before ++ label :: [])).isSome ∧ Sourced before 1 price := by
  intro price data before label
  have hrun : ((workers Nat).run (before ++ label :: [])).isSome := by decide
  exact ⟨hrun, published_price_sourced _ before [] label 1 price hrun rfl rfl⟩

/-- A worker that does not get the lock while the first fetch is still under way
posts and submits the price zero, which nobody has fetched or stored. -/
theorem zero_published_before_any_store :
    let before : List (Label Nat) :=
      [.act 0 (.tryLock true), .act 1 (.tryLock false), .act 1 (.read zeroPrice)]
    let post : Label Nat := .act 1 (.post zeroPrice (.ok []))
    let submit : Label Nat := .act 1 (.submit zeroPrice true)
    ((workers Nat).run (before ++ [post, submit])).isSome ∧
      post.published = some (1, zeroPrice) ∧ submit.published = some (1, zeroPrice) ∧
      ¬ ∃ data, FetchedAndStored (before ++ [post]) data ∧ data.price = zeroPrice := by
  intro before post submit
  refine ⟨by decide, rfl, rfl, ?_⟩
  rintro ⟨data, ⟨worker, hsublist⟩, -⟩
  have hmem : .act worker (.store data) ∈ before ++ [post] := hsublist.subset (by simp)
  simp [before, post] at hmem

end SupraClient.Oracle
