import SupraClient.Frame.Storage
import Mathlib.Data.List.Infix

/-! # Dispatches that are not transactional

A dispatch runs over a mutable state and may fail. The state it reached before
the error is kept, so atomicity of a call is a property to prove rather than a
feature of the semantics. A sequence of commands is dispatched one after the
other, whatever each of them returns.
-/

namespace Frame

/-- The origin a call is dispatched with. -/
inductive RawOrigin (AccountId : Type) where
  | root
  | signed (who : AccountId)
  | none
  deriving DecidableEq

/-- The error of a dispatch: a rejected origin, or an error of the module. -/
inductive DispatchError (Error : Type) where
  | badOrigin
  | module (error : Error)
  deriving DecidableEq

/-- The storage of a module together with the events deposited so far. -/
structure Ledger (Store Event : Type) where
  store : Store
  events : List Event

/-- A fallible computation over a state that survives errors. -/
abbrev Dispatch (State Error : Type) := ExceptT (DispatchError Error) (StateM State)

namespace Dispatch

variable {State Error α β : Type}

/-- The returned value or error, and the state left behind in either case. -/
def exec (program : Dispatch State Error α) (state : State) :
    Except (DispatchError Error) α × State :=
  (ExceptT.run program).run state

/-- Fail with an error of the module unless the condition holds. -/
def ensure (condition : Prop) [Decidable condition] (error : Error) : Dispatch State Error Unit :=
  if condition then pure () else throw (.module error)

/-- Fail unless the origin is accepted by the configured predicate. -/
def ensureOrigin {AccountId : Type} (accepts : RawOrigin AccountId → Bool)
    (origin : RawOrigin AccountId) : Dispatch State Error Unit :=
  if accepts origin then pure () else throw .badOrigin

/-- The signer of a signed origin; every other origin is rejected. -/
def ensureSigned {AccountId : Type} : RawOrigin AccountId → Dispatch State Error AccountId
  | .signed who => pure who
  | _ => throw .badOrigin

/-- Accept only the origin of an unsigned extrinsic. -/
def ensureNone {AccountId : Type} : RawOrigin AccountId → Dispatch State Error Unit
  | .none => pure ()
  | _ => throw .badOrigin

theorem exec_bind (first : Dispatch State Error α) (next : α → Dispatch State Error β)
    (state : State) :
    exec (first >>= next) state =
      match exec first state with
      | (.ok value, middle) => exec (next value) middle
      | (.error error, middle) => (.error error, middle) := by
  change ExceptT.bindCont next (exec first state).1 (exec first state).2 = _
  rcases exec first state with ⟨_ | _, _⟩ <;> rfl

@[simp] theorem exec_ensure (condition : Prop) [Decidable condition] (error : Error)
    (state : State) :
    exec (ensure condition error) state =
      if condition then (.ok (), state) else (.error (.module error), state) := by
  unfold ensure
  split <;> rfl

@[simp] theorem exec_ensure_bind (condition : Prop) [Decidable condition] (error : Error)
    (next : Unit → Dispatch State Error β) (state : State) :
    exec (ensure condition error >>= next) state =
      if condition then exec (next ()) state else (.error (.module error), state) := by
  unfold ensure
  split <;> rfl

@[simp] theorem exec_ensureOrigin_bind {AccountId : Type} (accepts : RawOrigin AccountId → Bool)
    (origin : RawOrigin AccountId) (next : Unit → Dispatch State Error β) (state : State) :
    exec (ensureOrigin accepts origin >>= next) state =
      if accepts origin then exec (next ()) state else (.error .badOrigin, state) := by
  unfold ensureOrigin
  split <;> rfl

@[simp] theorem exec_ensureSigned_bind {AccountId : Type} (origin : RawOrigin AccountId)
    (next : AccountId → Dispatch State Error β) (state : State) :
    exec (ensureSigned origin >>= next) state =
      match origin with
      | .signed who => exec (next who) state
      | _ => (.error .badOrigin, state) := by
  cases origin <;> rfl

@[simp] theorem exec_ensureNone_bind {AccountId : Type} (origin : RawOrigin AccountId)
    (next : Unit → Dispatch State Error β) (state : State) :
    exec (ensureNone origin >>= next) state =
      match origin with
      | .none => exec (next ()) state
      | _ => (.error .badOrigin, state) := by
  cases origin <;> rfl

/-! ## Sequences of commands -/

variable {Command : Type}

/-- Dispatch the commands one after the other, failing ones included. -/
def run (program : Command → Dispatch State Error Unit) (state : State)
    (commands : List Command) : State :=
  commands.foldl (fun current command => (exec (program command) current).2) state

/-- The commands that return `Ok` when the sequence is dispatched. -/
def succeeded (program : Command → Dispatch State Error Unit) :
    State → List Command → List Command
  | _, [] => []
  | state, command :: rest =>
      match exec (program command) state with
      | (.ok _, next) => command :: succeeded program next rest
      | (.error _, next) => succeeded program next rest

variable (program : Command → Dispatch State Error Unit)

@[simp] theorem run_nil (state : State) : run program state [] = state := rfl

@[simp] theorem run_cons (state : State) (command : Command) (rest : List Command) :
    run program state (command :: rest) =
      run program (exec (program command) state).2 rest := rfl

theorem run_append (state : State) (first second : List Command) :
    run program state (first ++ second) = run program (run program state first) second :=
  List.foldl_append

theorem run_concat (state : State) (commands : List Command) (command : Command) :
    run program state (commands ++ [command]) =
      (exec (program command) (run program state commands)).2 := by
  rw [run_append, run_cons, run_nil]

/-- A property preserved by every dispatched command holds after every run. -/
theorem run_invariant (invariant : State → Prop)
    (hstep : ∀ state command, invariant state → invariant (exec (program command) state).2)
    {state : State} (hstate : invariant state) (commands : List Command) :
    invariant (run program state commands) := by
  induction commands generalizing state with
  | nil => exact hstate
  | cons command rest ih => exact ih (hstep state command hstate)

/-- The same for the commands of one run, which may be restricted by where they
stand in it. -/
theorem run_invariant_along (invariant : State → Prop) {state : State} (hstate : invariant state)
    (commands : List Command)
    (hstep : ∀ done command, done ++ [command] <+: commands →
      invariant (run program state done) →
      invariant (exec (program command) (run program state done)).2) :
    invariant (run program state commands) := by
  induction commands using List.reverseRecOn with
  | nil => exact hstate
  | append_singleton done command ih =>
      rw [run_concat]
      refine hstep done command List.prefix_rfl (ih fun earlier next hinitial => ?_)
      exact hstep earlier next (hinitial.trans (List.prefix_append done [command]))

/-- If a guard on the state before a command decides whether the command
preserves the property, then the property holds all along a run exactly when
every command of the run meets the guard. -/
theorem run_always_iff (invariant : State → Prop) (guard : State → Command → Prop)
    (hstep : ∀ state command, invariant state →
      (invariant (exec (program command) state).2 ↔ guard state command))
    {state : State} (hstate : invariant state) (commands : List Command) :
    (∀ done, done <+: commands → invariant (run program state done)) ↔
      ∀ done command, done ++ [command] <+: commands →
        guard (run program state done) command := by
  constructor
  · intro halways done command hinitial
    have hbefore := halways done ((List.prefix_append done [command]).trans hinitial)
    have hafter := halways (done ++ [command]) hinitial
    rw [run_concat] at hafter
    exact (hstep _ command hbefore).mp hafter
  · intro hguards done hinitial
    -- Prefixes grow at the right end, so the induction runs from the right.
    induction done using List.reverseRecOn with
    | nil => exact hstate
    | append_singleton done command ih =>
        rw [run_concat]
        have hbefore := ih ((List.prefix_append done [command]).trans hinitial)
        exact (hstep _ command hbefore).mpr (hguards done command hinitial)

/-- When failing commands leave the state alone, deleting them from a sequence
does not change where it ends. -/
theorem run_succeeded
    (hatomic : ∀ state command error, (exec (program command) state).1 = .error error →
      (exec (program command) state).2 = state)
    (state : State) (commands : List Command) :
    run program state (succeeded program state commands) = run program state commands := by
  induction commands generalizing state with
  | nil => rfl
  | cons command rest ih =>
      rw [succeeded, run_cons]
      have hkeep := hatomic state command
      rcases hexec : exec (program command) state with ⟨error | value, next⟩
      · -- a failing command left the state alone and is skipped
        rw [hexec] at hkeep
        have hnext : next = state := hkeep error rfl
        subst next
        exact ih state
      · rw [run_cons, hexec]
        exact ih next

theorem succeeded_append (state : State) (first second : List Command) :
    succeeded program state (first ++ second) =
      succeeded program state first ++ succeeded program (run program state first) second := by
  induction first generalizing state with
  | nil => rfl
  | cons command rest ih =>
      rw [List.cons_append, succeeded, succeeded, run_cons]
      rcases exec (program command) state with ⟨error | value, next⟩
      · exact ih next
      · exact congrArg (List.cons command) (ih next)

/-- Every command of the sequence returns `Ok`. -/
def AllOk (program : Command → Dispatch State Error Unit) : State → List Command → Prop
  | _, [] => True
  | state, command :: rest =>
      (exec (program command) state).1 = .ok () ∧
        AllOk program (exec (program command) state).2 rest

theorem allOk_cons (state : State) (command : Command) (rest : List Command) :
    AllOk program state (command :: rest) ↔
      (exec (program command) state).1 = .ok () ∧
        AllOk program (exec (program command) state).2 rest := Iff.rfl

/-- A property preserved by the successful commands of a kind holds after every
sequence of such commands that succeeds as a whole. -/
theorem run_invariant_of_allOk (invariant : State → Prop) (kind : Command → Prop)
    (hstep : ∀ state command, kind command → (exec (program command) state).1 = .ok () →
      invariant state → invariant (exec (program command) state).2)
    {state : State} (hstate : invariant state) {commands : List Command}
    (hkind : ∀ command ∈ commands, kind command) (hok : AllOk program state commands) :
    invariant (run program state commands) := by
  induction commands generalizing state with
  | nil => exact hstate
  | cons command rest ih =>
      obtain ⟨hhead, htail⟩ := hok
      have hnext := hstep state command (hkind command List.mem_cons_self) hhead hstate
      exact ih hnext (fun other hother => hkind other (List.mem_cons_of_mem _ hother)) htail

end Dispatch

/-! ## Storage items -/

/-- A named item of a store. -/
structure StorageItem (Store Value : Type) where
  view : Store → Value
  set : Value → Store → Store

namespace StorageItem

variable {Store Event Error Value Key : Type} [DecidableEq Key]

def get (item : StorageItem Store Value) : Dispatch (Ledger Store Event) Error Value := do
  return item.view (← MonadState.get).store

def put (item : StorageItem Store Value) (value : Value) :
    Dispatch (Ledger Store Event) Error Unit :=
  modify fun ledger => { ledger with store := item.set value ledger.store }

def containsKey (item : StorageItem Store (StorageMap Key Value)) (key : Key) :
    Dispatch (Ledger Store Event) Error Bool := do
  return (← item.get).containsKey key

/-- Read the value under a key, the default value when it is absent. -/
def getKey [Inhabited Value] (item : StorageItem Store (StorageMap Key Value)) (key : Key) :
    Dispatch (Ledger Store Event) Error Value := do
  return (← item.get).get key

def insert (item : StorageItem Store (StorageMap Key Value)) (key : Key) (value : Value) :
    Dispatch (Ledger Store Event) Error Unit := do
  item.put ((← item.get).insert key value)

def remove (item : StorageItem Store (StorageMap Key Value)) (key : Key) :
    Dispatch (Ledger Store Event) Error Unit := do
  item.put ((← item.get).remove key)

def swap (item : StorageItem Store (StorageMap Key Value)) (first second : Key) :
    Dispatch (Ledger Store Event) Error Unit := do
  item.put ((← item.get).swap first second)

end StorageItem

/-- Append an event to the log. -/
def depositEvent {Store Event Error : Type} (event : Event) :
    Dispatch (Ledger Store Event) Error Unit :=
  modify fun ledger => { ledger with events := ledger.events ++ [event] }

namespace Dispatch

variable {Store Event Error Value Key β : Type} [DecidableEq Key]
variable (ledger : Ledger Store Event)

@[simp] theorem exec_item_get_bind (item : StorageItem Store Value)
    (next : Value → Dispatch (Ledger Store Event) Error β) :
    exec (item.get >>= next) ledger = exec (next (item.view ledger.store)) ledger := rfl

@[simp] theorem exec_item_put_bind (item : StorageItem Store Value) (value : Value)
    (next : Unit → Dispatch (Ledger Store Event) Error β) :
    exec (item.put value >>= next) ledger =
      exec (next ()) { ledger with store := item.set value ledger.store } := rfl

@[simp] theorem exec_item_containsKey_bind (item : StorageItem Store (StorageMap Key Value))
    (key : Key) (next : Bool → Dispatch (Ledger Store Event) Error β) :
    exec (item.containsKey key >>= next) ledger =
      exec (next ((item.view ledger.store).containsKey key)) ledger := rfl

@[simp] theorem exec_item_getKey_bind [Inhabited Value]
    (item : StorageItem Store (StorageMap Key Value)) (key : Key)
    (next : Value → Dispatch (Ledger Store Event) Error β) :
    exec (item.getKey key >>= next) ledger =
      exec (next ((item.view ledger.store).get key)) ledger := rfl

@[simp] theorem exec_item_insert_bind (item : StorageItem Store (StorageMap Key Value)) (key : Key)
    (value : Value) (next : Unit → Dispatch (Ledger Store Event) Error β) :
    exec (item.insert key value >>= next) ledger =
      exec (next ()) { ledger with
        store := item.set ((item.view ledger.store).insert key value) ledger.store } := rfl

@[simp] theorem exec_item_remove_bind (item : StorageItem Store (StorageMap Key Value)) (key : Key)
    (next : Unit → Dispatch (Ledger Store Event) Error β) :
    exec (item.remove key >>= next) ledger =
      exec (next ()) { ledger with
        store := item.set ((item.view ledger.store).remove key) ledger.store } := rfl

@[simp] theorem exec_depositEvent (event : Event) :
    exec (depositEvent event : Dispatch (Ledger Store Event) Error Unit) ledger =
      (.ok (), { ledger with events := ledger.events ++ [event] }) := rfl

end Dispatch

end Frame
