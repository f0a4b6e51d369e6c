import SupraClient.Concurrency.LabelledSystem
import SupraClient.Oracle.Pallet

/-! # Concurrent price workers

Any number of runs of `update_ethereum_price_worker` share the stored price
record and the lock of a node. A run that takes the lock fetches a record and
stores it; one that does not skips the fetch. Either way it reads whatever is
stored by then, posts that price to Ethereum, and submits it to the chain.
-/

namespace SupraClient.Oracle

open Scale Concurrency

/-- The price record fetched from the remote service. -/
structure LightClient where
  price : ByteVec
  time : ByteVec
  deriving DecidableEq

def LightClient.codec : Codec LightClient :=
  (byteVec.pair byteVec).ofEquiv
    { toFun := fun data => (data.price, data.time)
      invFun := fun fields => ⟨fields.1, fields.2⟩ }

/-- The price used as long as no record can be read. -/
def zeroPrice : ByteVec := ⟨bytesOf "0", by decide⟩

/-- The price read from the stored bytes. -/
def finalPrice (info : Option Bytes) : ByteVec :=
  match info.map LightClient.codec.read with
  | some (some ethereumPriceData) => ethereumPriceData.price
  | _ => zeroPrice

/-- How far a run of the worker has come. -/
inductive Phase where
  /-- About to try the lock. -/
  | start
  /-- Inside the guard, about to fetch. -/
  | locked
  /-- Inside the guard, about to store the fetched record. -/
  | fetched (data : LightClient)
  /-- The record is stored, the guard is about to be dropped. -/
  | stored
  /-- The fetch failed; the guard is dropped on the way out. -/
  | failed (error : Error)
  /-- Behind the guarded block, about to read the stored record. -/
  | unlocked
  /-- About to post the price. -/
  | ready (price : ByteVec)
  /-- Ethereum has answered, the submission is next. -/
  | posted (price : ByteVec)
  | finished (result : Except Error Unit)
  /-- An `unwrap` failed before anything was posted. -/
  | panicked

/-- What a run of the worker does, with the outcome the environment chose. -/
inductive Action where
  | tryLock (acquired : Bool)
  | fetchNParse (outcome : Except Error LightClient)
  | store (data : LightClient)
  | unlock
  | read (price : ByteVec)
  /-- The transaction is sent; the outcome is that of the whole exchange. -/
  | post (price : ByteVec) (response : Except Error Bytes)
  /-- Nothing is sent, because of an error or, without one, a panic. -/
  | abandon (error : Option Error)
  | submit (price : ByteVec) (accepted : Bool)
  deriving DecidableEq

inductive Label (Worker : Type) where
  | act (worker : Worker) (action : Action)
  /-- The deadline of the current lock passes. -/
  | expire

/-- The stored record, the worker that holds an unexpired lock, and the progress
of every run. -/
structure WorkerState (Worker : Type) where
  info : Option Bytes
  lock : Option Worker
  phase : Worker → Phase

namespace WorkerState

variable {Worker : Type} [DecidableEq Worker]

def initial : WorkerState Worker where
  info := none
  lock := none
  phase := fun _ => .start

def advance (state : WorkerState Worker) (worker : Worker) (phase : Phase) :
    WorkerState Worker :=
  { state with phase := Function.update state.phase worker phase }

/-- Dropping the guard gives back the lock, unless it has expired before. -/
def release (state : WorkerState Worker) (worker : Worker) : WorkerState Worker :=
  if state.lock = some worker then { state with lock := none } else state

theorem advance_phase_self (state : WorkerState Worker) (worker : Worker) (phase : Phase) :
    (state.advance worker phase).phase worker = phase :=
  Function.update_self _ _ _

theorem advance_phase_of_ne (state : WorkerState Worker) {worker other : Worker}
    (hother : other ≠ worker) (phase : Phase) :
    (state.advance worker phase).phase other = state.phase other :=
  Function.update_of_ne hother _ _

theorem release_info (state : WorkerState Worker) (worker : Worker) :
    (state.release worker).info = state.info := by
  unfold release
  split <;> rfl

theorem release_phase (state : WorkerState Worker) (worker : Worker) :
    (state.release worker).phase = state.phase := by
  unfold release
  split <;> rfl

/-- One action of one run of the worker. -/
def act (state : WorkerState Worker) (worker : Worker) (action : Action) :
    Option (WorkerState Worker) :=
  match state.phase worker, action with
  | .start, .tryLock acquired =>
      -- the lock is free exactly when no run holds an unexpired one
      match state.lock, acquired with
      | none, true => some ({ state with lock := some worker }.advance worker .locked)
      | some _, false => some (state.advance worker .unlocked)
      | _, _ => none
  | .locked, .fetchNParse (.ok data) => some (state.advance worker (.fetched data))
  | .locked, .fetchNParse (.error error) => some (state.advance worker (.failed error))
  | .fetched data, .store written =>
      if written = data then
        some ({ state with info := some (LightClient.codec.encode data) }.advance worker .stored)
      else none
  | .stored, .unlock => some ((state.release worker).advance worker .unlocked)
  | .failed error, .unlock =>
      some ((state.release worker).advance worker (.finished (.error error)))
  | .unlocked, .read price =>
      if price = finalPrice state.info then some (state.advance worker (.ready price)) else none
  | .ready price, .post sent response =>
      if sent = price then
        match response with
        | .ok body =>
            match String.fromUTF8? ⟨body.toArray⟩ with
            | some _ => some (state.advance worker (.posted price))
            | none => some (state.advance worker (.finished (.error .httpFetchingError)))
        | .error error => some (state.advance worker (.finished (.error error)))
      else none
  | .ready _, .abandon (some error) => some (state.advance worker (.finished (.error error)))
  | .ready _, .abandon none => some (state.advance worker .panicked)
  | .posted price, .submit submitted accepted =>
      if submitted = price then
        some (state.advance worker (.finished
          (if accepted then .ok () else .error .offchainUnsignedTxError)))
      else none
  | _, _ => none

/-- The actions of a run of the worker, one by one. -/
inductive Acts (state : WorkerState Worker) (worker : Worker) :
    Action → WorkerState Worker → Prop
  | acquire (hphase : state.phase worker = .start) (hlock : state.lock = none) :
      Acts state worker (.tryLock true)
        ({ state with lock := some worker }.advance worker .locked)
  | skip (hphase : state.phase worker = .start) (hlock : state.lock ≠ none) :
      Acts state worker (.tryLock false) (state.advance worker .unlocked)
  | fetch {data} (hphase : state.phase worker = .locked) :
      Acts state worker (.fetchNParse (.ok data)) (state.advance worker (.fetched data))
  | fetchError {error} (hphase : state.phase worker = .locked) :
      Acts state worker (.fetchNParse (.error error)) (state.advance worker (.failed error))
  | store {data} (hphase : state.phase worker = .fetched data) :
      Acts state worker (.store data)
        ({ state with info := some (LightClient.codec.encode data) }.advance worker .stored)
  | unlock (hphase : state.phase worker = .stored) :
      Acts state worker .unlock ((state.release worker).advance worker .unlocked)
  | unlockError {error} (hphase : state.phase worker = .failed error) :
      Acts state worker .unlock
        ((state.release worker).advance worker (.finished (.error error)))
  | read (hphase : state.phase worker = .unlocked) :
      Acts state worker (.read (finalPrice state.info))
        (state.advance worker (.ready (finalPrice state.info)))
  | post {price body text} (hphase : state.phase worker = .ready price)
      (hbody : String.fromUTF8? ⟨body.toArray⟩ = some text) :
      Acts state worker (.post price (.ok body)) (state.advance worker (.posted price))
  | postInvalid {price body} (hphase : state.phase worker = .ready price)
      (hbody : String.fromUTF8? ⟨body.toArray⟩ = none) :
      Acts state worker (.post price (.ok body))
        (state.advance worker (.finished (.error .httpFetchingError)))
  | postError {price error} (hphase : state.phase worker = .ready price) :
      Acts state worker (.post price (.error error))
        (state.advance worker (.finished (.error error)))
  | abandon {price error} (hphase : state.phase worker = .ready price) :
      Acts state worker (.abandon (some error)) (state.advance worker (.finished (.error error)))
  | panic {price} (hphase : state.phase worker = .ready price) :
      Acts state worker (.abandon none) (state.advance worker .panicked)
  | submit {price accepted} (hphase : state.phase worker = .posted price) :
      Acts state worker (.submit price accepted) (state.advance worker (.finished
        (if accepted then .ok () else .error .offchainUnsignedTxError)))

theorem acts_of_act {state next : WorkerState Worker} {worker : Worker} {action : Action}
    (h : state.act worker action = some next) : Acts state worker action next := by
  unfold act at h
  split at h
  · rename_i acquired hphase
    split at h
    · rename_i hlock
      cases h
      exact .acquire hphase hlock
    · rename_i hlock
      cases h
      exact .skip hphase (by simp [hlock])
    · cases h
  · cases h
    exact .fetch ‹_›
  · cases h
    exact .fetchError ‹_›
  · split at h
    · cases h
      subst_vars
      exact .store ‹_›
    · cases h
  · cases h
    exact .unlock ‹_›
  · cases h
    exact .unlockError ‹_›
  · split at h
    · cases h
      subst_vars
      exact .read ‹_›
    · cases h
  · split at h
    · subst_vars
      split at h
      · split at h
        · cases h
          exact .post ‹_› ‹_›
        · cases h
          exact .postInvalid ‹_› ‹_›
      · cases h
        exact .postError ‹_›
    · cases h
  · cases h
    exact .abandon ‹_›
  · cases h
    exact .panic ‹_›
  · split at h
    · cases h
      subst_vars
      exact .submit ‹_›
    · cases h
  · cases h

end WorkerState

/-- All interleavings of all runs of the worker on one node. -/
def workers (Worker : Type) [DecidableEq Worker] :
    LabelledSystem (WorkerState Worker) (Label Worker) where
  initial := .initial
  step state
    | .act worker action => state.act worker action
    | .expire => some { state with lock := none }

end SupraClient.Oracle
