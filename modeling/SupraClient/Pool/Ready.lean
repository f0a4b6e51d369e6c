import Mathlib.Data.List.Pairwise

/-! # Queues of transactions that provide tags

Two transactions that provide a common tag exclude each other. A pool never queues
two such transactions, it queues nothing but what it was given, and it gives up none
for a new one that has no higher priority. How it decides otherwise is its own
policy. So among transactions of one priority that all provide a certain tag there
is at most one in the queue, and it stays there in spite of the others.
-/

namespace Pool

structure Transaction (Tag Payload : Type) where
  payload : Payload
  priority : ℕ
  provides : List Tag

abbrev Queue (Tag Payload : Type) := List (Transaction Tag Payload)

variable {Tag Payload : Type}

/-- The transactions have no tag in common. -/
def Transaction.Compatible (first second : Transaction Tag Payload) : Prop :=
  ∀ tag ∈ first.provides, tag ∉ second.provides

/-- No two transactions of the queue exclude each other. -/
def Queue.Consistent (queue : Queue Tag Payload) : Prop :=
  queue.Pairwise Transaction.Compatible

/-- How a pool queues transactions; there is no result if it refuses one. -/
structure Policy (Tag Payload : Type) where
  importReady : Queue Tag Payload → Transaction Tag Payload → Option (Queue Tag Payload)
  mem_of_importReady : ∀ {queue transaction next queued},
    importReady queue transaction = some next → queued ∈ next →
      queued ∈ queue ∨ queued = transaction
  consistent_importReady : ∀ {queue transaction next},
    importReady queue transaction = some next → queue.Consistent → next.Consistent
  importReady_eq_none : ∀ {queue transaction queued}, queued ∈ queue →
    ¬ queued.Compatible transaction → transaction.priority ≤ queued.priority →
      importReady queue transaction = none

namespace Queue

variable {queue : Queue Tag Payload}

theorem consistent_filter (hconsistent : queue.Consistent)
    (keep : Transaction Tag Payload → Bool) : Queue.Consistent (queue.filter keep) :=
  List.Pairwise.filter keep hconsistent

/-- If all transactions provide a certain tag, there is at most one. -/
theorem length_le_one {tag : Tag} (hconsistent : queue.Consistent)
    (htag : ∀ queued ∈ queue, tag ∈ queued.provides) : queue.length ≤ 1 := by
  match queue, hconsistent, htag with
  | [], _, _ => exact Nat.zero_le 1
  | [_], _, _ => exact Nat.le_refl 1
  | first :: second :: _, hconsistent, htag =>
      have hcompatible : first.Compatible second :=
        List.rel_of_pairwise_cons hconsistent List.mem_cons_self
      exact absurd (htag second (by simp)) (hcompatible tag (htag first (by simp)))

/-- The first of several transactions with one priority and a common tag wins. -/
theorem importReady_eq_none_of_provides (policy : Policy Tag Payload) {tag : Tag}
    (hqueue : queue ≠ []) {transaction : Transaction Tag Payload}
    (hqueued : ∀ queued ∈ queue, tag ∈ queued.provides ∧ queued.priority = transaction.priority)
    (htag : tag ∈ transaction.provides) : policy.importReady queue transaction = none := by
  obtain ⟨queued, hmem⟩ := List.exists_mem_of_ne_nil queue hqueue
  obtain ⟨hprovides, hpriority⟩ := hqueued queued hmem
  exact policy.importReady_eq_none hmem (fun hcompatible => hcompatible tag hprovides htag)
    (Nat.le_of_eq hpriority.symm)

end Queue

/-! ## A policy of priorities -/

variable [DecidableEq Tag]

instance (first second : Transaction Tag Payload) : Decidable (first.Compatible second) :=
  inferInstanceAs (Decidable (∀ tag ∈ first.provides, tag ∉ second.provides))

/-- Queue a transaction in place of those it excludes, unless one of them has at
least its priority. -/
def Policy.byPriority : Policy Tag Payload where
  importReady queue transaction :=
    if ∃ queued ∈ queue, ¬ queued.Compatible transaction ∧
        transaction.priority ≤ queued.priority then none
    else some (queue.filter (fun queued => queued.Compatible transaction) ++ [transaction])
  mem_of_importReady := by
    intro queue transaction next queued hnext hqueued
    split at hnext
    next => cases hnext
    next =>
      cases hnext
      rcases List.mem_append.mp hqueued with hold | hnew
      · exact Or.inl (List.mem_filter.mp hold).1
      · exact Or.inr (List.mem_singleton.mp hnew)
  consistent_importReady := by
    intro queue transaction next hnext hconsistent
    split at hnext
    next => cases hnext
    next =>
      cases hnext
      refine List.pairwise_append.mpr
        ⟨Queue.consistent_filter hconsistent _, List.pairwise_singleton _ _, ?_⟩
      intro queued hqueued other hother
      obtain rfl := List.mem_singleton.mp hother
      exact of_decide_eq_true (List.mem_filter.mp hqueued).2
  importReady_eq_none hmem hexcluded hpriority := if_pos ⟨_, hmem, hexcluded, hpriority⟩

end Pool
