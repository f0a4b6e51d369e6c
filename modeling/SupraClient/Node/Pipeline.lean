import SupraClient.Oracle.Provenance
import SupraClient.Oracle.Requests
import SupraClient.Pool.Ready
import SupraClient.Runtime.Prices

/-! # The price pipeline of a node

A node executes blocks, runs a price worker for every block with a request, and
keeps the submissions of its workers in its transaction pool until they get into
a block. Others may put submissions into the pool as well, and other nodes make
blocks with submissions the node has never seen.

All of this is interleaved in any order. Forks are left out: every block extends
the chain the node is on. Of the pool only the submissions of prices are kept;
their tag is provided by no other transaction. What the pool accepts is up to its
policy, and it may drop submissions at any time, those in a block included.
-/

namespace SupraClient.Node

open Frame Scale Concurrency

/-- Runs of the price worker go by the number of their block. -/
abbrev BlockNumber := Runtime.BlockNumber

structure State (AccountId Storage : Type) where
  chain : Runtime.State AccountId Storage
  pool : Pool.Queue Tag ByteVec
  workers : Oracle.WorkerState BlockNumber

inductive Label (AccountId Other : Type) where
  /-- A run of the price worker takes a step, or a lock expires. -/
  | worker (label : Oracle.Label BlockNumber)
  /-- The pool takes a submission from elsewhere. -/
  | outside (price : ByteVec)
  /-- The node makes a block with submissions from its pool. -/
  | author (block : Runtime.Block AccountId Other)
  /-- The node imports a block of another one. -/
  | importBlock (block : Runtime.Block AccountId Other)
  /-- The pool drops submissions that are in a block, stale, or for other reasons. -/
  | discard (keep : Pool.Transaction Tag ByteVec → Bool)

/-- What a node is set up with: the framework it runs on, the policy of its pool,
and the genesis of its chain. -/
structure Setup (AccountId Other Storage : Type) where
  framework : Runtime.Framework AccountId Other Storage
  policy : Pool.Policy Tag ByteVec
  key : AccountId
  nodes : List (Authorization.PeerId × AccountId)

variable {AccountId Other Storage : Type}

def Setup.genesis (setup : Setup AccountId Other Storage) : Runtime.State AccountId Storage :=
  Runtime.genesis setup.framework setup.key setup.nodes

/-- A submission as a transaction of the pool. -/
def poolTransaction (price : ByteVec) (validity : ValidTransaction) :
    Pool.Transaction Tag ByteVec where
  payload := price
  priority := validity.priority.toNat
  provides := validity.provides

namespace State

variable (setup : Setup AccountId Other Storage)

/-- The pool validates a submission and queues it. -/
def submit (state : State AccountId Storage) (price : ByteVec) :
    Option (State AccountId Storage) := do
  let validity ← (Oracle.validateUnsigned (.submitEthereumPrice price)).toOption
  let pool ← setup.policy.importReady state.pool (poolTransaction price validity)
  return { state with pool }

/-- What a step of a worker means to the pool: a submission that is accepted gets
into it. -/
def deliver (state : State AccountId Storage) :
    Oracle.Label BlockNumber → Option (State AccountId Storage)
  | .act _ (.submit price true) => state.submit setup price
  | _ => some state

/-- A run of the price worker begins only if its block has a request. -/
def serves (state : State AccountId Storage) : Oracle.Label BlockNumber → Bool
  | .act number (.tryLock _) =>
      !(Oracle.offchainWorker state.chain.lightClient.store.index number).isEmpty
  | _ => true

variable [DecidableEq AccountId] [Inhabited AccountId]

def executeBlock (state : State AccountId Storage) (block : Runtime.Block AccountId Other) :
    Option (State AccountId Storage) := do
  let chain ← Runtime.executeBlock setup.framework state.chain block
  return { state with chain }

def step (state : State AccountId Storage) :
    Label AccountId Other → Option (State AccountId Storage)
  | .worker label =>
      if state.serves label then do
        let workers ← (Oracle.workers BlockNumber).step state.workers label
        let next ← state.deliver setup label
        return { next with workers }
      else none
  | .outside price => state.submit setup price
  | .author block =>
      if block.submissions.Subperm (state.pool.map Pool.Transaction.payload) then
        state.executeBlock setup block
      else none
  | .importBlock block => state.executeBlock setup block
  | .discard keep => some { state with pool := state.pool.filter keep }

end State

variable [DecidableEq AccountId] [Inhabited AccountId]

/-- A node from the genesis of its chain on. -/
def node (setup : Setup AccountId Other Storage) :
    LabelledSystem (State AccountId Storage) (Label AccountId Other) where
  initial :=
    { chain := setup.genesis
      pool := []
      workers := .initial }
  step := State.step setup

/-! ## What a step can do -/

/-- A submission as the pool sees it. -/
def submission (price : ByteVec) : Pool.Transaction Tag ByteVec :=
  poolTransaction price (Oracle.validTx Oracle.submitName)

/-- The steps of a node, one by one. -/
inductive Steps (setup : Setup AccountId Other Storage) (state : State AccountId Storage) :
    Label AccountId Other → State AccountId Storage → Prop
  | act {label workers} (hserves : state.serves label = true)
      (hworkers : (Oracle.workers BlockNumber).step state.workers label = some workers)
      (hquiet : ∀ number price, label ≠ .act number (.submit price true)) :
      Steps setup state (.worker label) { state with workers }
  | submit {number price workers pool}
      (hworkers : (Oracle.workers BlockNumber).step state.workers
        (.act number (.submit price true)) = some workers)
      (hpool : setup.policy.importReady state.pool (submission price) = some pool) :
      Steps setup state (.worker (.act number (.submit price true))) { state with pool, workers }
  | outside {price pool}
      (hpool : setup.policy.importReady state.pool (submission price) = some pool) :
      Steps setup state (.outside price) { state with pool }
  | author {block chain}
      (hpending : block.submissions.Subperm (state.pool.map Pool.Transaction.payload))
      (hchain : Runtime.executeBlock setup.framework state.chain block = some chain) :
      Steps setup state (.author block) { state with chain }
  | importBlock {block chain}
      (hchain : Runtime.executeBlock setup.framework state.chain block = some chain) :
      Steps setup state (.importBlock block) { state with chain }
  | discard {keep} :
      Steps setup state (.discard keep) { state with pool := state.pool.filter keep }

variable {setup : Setup AccountId Other Storage}

omit [DecidableEq AccountId] [Inhabited AccountId] in
theorem State.submit_eq (state : State AccountId Storage) (price : ByteVec) :
    state.submit setup price =
      (setup.policy.importReady state.pool (submission price)).map
        fun pool => { state with pool } := by
  rw [Option.map_eq_bind]
  rfl

theorem State.exists_of_executeBlock {state next : State AccountId Storage}
    {block : Runtime.Block AccountId Other} (hnext : state.executeBlock setup block = some next) :
    ∃ chain, Runtime.executeBlock setup.framework state.chain block = some chain ∧
      next = { state with chain } := by
  obtain ⟨chain, hchain, hnext⟩ := Option.bind_eq_some_iff.mp hnext
  exact ⟨chain, hchain, (Option.some.inj hnext).symm⟩

theorem steps_of_step {state next : State AccountId Storage} {label : Label AccountId Other}
    (hstep : state.step setup label = some next) : Steps setup state label next := by
  cases label with
  | worker label =>
      rw [State.step] at hstep
      split at hstep
      next hserves =>
        obtain ⟨workers, hworkers, htail⟩ := Option.bind_eq_some_iff.mp hstep
        obtain ⟨middle, hmiddle, hnext⟩ := Option.bind_eq_some_iff.mp htail
        cases hnext
        unfold State.deliver at hmiddle
        split at hmiddle
        next number price =>
          rw [State.submit_eq] at hmiddle
          obtain ⟨pool, hpool, rfl⟩ := Option.map_eq_some_iff.mp hmiddle
          exact .submit hworkers hpool
        next hother =>
          cases hmiddle
          exact .act hserves hworkers hother
      next => cases hstep
  | outside price =>
      rw [State.step, State.submit_eq] at hstep
      obtain ⟨pool, hpool, rfl⟩ := Option.map_eq_some_iff.mp hstep
      exact .outside hpool
  | author block =>
      rw [State.step] at hstep
      split at hstep
      next hpending =>
        obtain ⟨chain, hchain, rfl⟩ := State.exists_of_executeBlock hstep
        exact .author hpending hchain
      next => cases hstep
  | importBlock block =>
      obtain ⟨chain, hchain, rfl⟩ := State.exists_of_executeBlock hstep
      exact .importBlock hchain
  | discard keep =>
      cases hstep
      exact .discard

end SupraClient.Node
