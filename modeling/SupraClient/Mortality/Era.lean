import Mathlib.Data.Finset.Basic
import Mathlib.Data.Int.ModEq
import Mathlib.Data.Nat.Log

/-! # Mortal eras

A mortal transaction is valid in one interval of block numbers. Of the interval
only its length and its phase are kept: the blocks whose numbers have the phase
as their remainder divide the chain into eras, and a block number tells which of
them is meant. Lengths are powers of two, and long eras begin at multiples of a
quantum only.

A transaction is signed together with the hash of the block its era begins at.
It can be checked while that hash is kept, and of the hashes of a chain only
those in a window of blocks are.
-/

namespace Mortality

/-- The length of an era and the remainder of its first block. -/
structure Era where
  period : ℕ
  phase : ℕ
  phase_lt : phase < period
  deriving DecidableEq

/-- The next power of two, from 4 to 65536. -/
def roundPeriod (period : ℕ) : ℕ := min (max (2 ^ Nat.clog 2 period) 4) (2 ^ 16)

/-- The distance of the block numbers at which an era of a given length can begin. -/
def quantizeFactor (period : ℕ) : ℕ := max (period / 2 ^ 12) 1

theorem roundPeriod_pos (period : ℕ) : 0 < roundPeriod period := by
  unfold roundPeriod
  omega

namespace Era

/-- The era of about the given length that begins at the current block, or
shortly before it. -/
def mortal (period current : ℕ) : Era where
  period := roundPeriod period
  phase := current % roundPeriod period / quantizeFactor (roundPeriod period) *
    quantizeFactor (roundPeriod period)
  phase_lt := (Nat.div_mul_le_self _ _).trans_lt (Nat.mod_lt _ (roundPeriod_pos period))

/-- The first block of the era a block belongs to. -/
def birth (era : Era) (current : ℕ) : ℕ :=
  (max current era.phase - era.phase) / era.period * era.period + era.phase

/-- The first block after the era a block belongs to. -/
def death (era : Era) (current : ℕ) : ℕ := era.birth current + era.period

/-- The era a block belongs to is still alive at another block. -/
def AliveAt (era : Era) (current block : ℕ) : Prop :=
  era.birth current ≤ block ∧ block < era.death current

instance (era : Era) (current block : ℕ) : Decidable (era.AliveAt current block) :=
  inferInstanceAs (Decidable (_ ∧ _))

theorem period_pos (era : Era) : 0 < era.period := Nat.zero_lt_of_lt era.phase_lt

theorem phase_le_birth (era : Era) (current : ℕ) : era.phase ≤ era.birth current :=
  Nat.le_add_left _ _

theorem birth_mod (era : Era) (current : ℕ) : era.birth current % era.period = era.phase := by
  rw [birth, Nat.mul_add_mod_self_right, Nat.mod_eq_of_lt era.phase_lt]

/-- From the first block with the phase on, the birth is the latest block with
the phase that is not after the current one. -/
theorem birth_le_and_lt_death (era : Era) {current : ℕ} (hphase : era.phase ≤ current) :
    era.birth current ≤ current ∧ current < era.death current := by
  have hmul := Nat.div_mul_le_self (current - era.phase) era.period
  have hlt := Nat.lt_div_mul_add era.period_pos (a := current - era.phase)
  rw [death, birth, max_eq_left hphase]
  omega

/-- All blocks of an era have its birth. -/
theorem birth_eq_of_aliveAt (era : Era) {current block : ℕ} (halive : era.AliveAt current block) :
    era.birth block = era.birth current := by
  obtain ⟨hborn, hdies⟩ := halive
  have hphase : era.phase ≤ block := (era.phase_le_birth current).trans hborn
  obtain ⟨hborn', hdies'⟩ := era.birth_le_and_lt_death hphase
  unfold death at hdies hdies'
  -- two numbers with the same remainder and less than a period apart
  have hmod : era.birth block ≡ era.birth current [MOD era.period] :=
    (era.birth_mod block).trans (era.birth_mod current).symm
  exact hmod.eq_of_abs_lt (abs_lt.mpr ⟨by omega, by omega⟩)

/-- Eras of at most 4096 blocks begin at the very block they are made for. -/
theorem birth_mortal {period : ℕ} (hperiod : roundPeriod period ≤ 2 ^ 12) (current : ℕ) :
    (mortal period current).birth current = current := by
  have hfactor : quantizeFactor (roundPeriod period) = 1 := by
    have hdiv : roundPeriod period / 2 ^ 12 ≤ 1 := Nat.div_le_of_le_mul (by omega)
    exact max_eq_right hdiv
  have hphase : (mortal period current).phase = current % roundPeriod period := by
    simp only [mortal, hfactor, Nat.div_one, Nat.mul_one]
  have hperiods : (mortal period current).period = roundPeriod period := rfl
  rw [birth, hphase, hperiods, max_eq_left (Nat.mod_le _ _),
    Nat.div_mul_cancel (Nat.dvd_sub_mod current), Nat.sub_add_cancel (Nat.mod_le _ _)]

end Era

/-! ## Kept hashes -/

/-- When a block is opened, the hash of the block before it becomes known. -/
def openBlock (hashes : Finset ℕ) (block : ℕ) : Finset ℕ := insert (block - 1) hashes

/-- When a block is closed, the hash that has left the window is dropped. The
hash of the first block of the chain never is. -/
def closeBlock (count : ℕ) (hashes : Finset ℕ) (block : ℕ) : Finset ℕ :=
  let dropped := block - count - 1
  if dropped = 0 then hashes else hashes.erase dropped

/-- The blocks whose hashes are known while a block is open, on a chain that has
started with the hash of its first block. -/
def knownHashes (count : ℕ) : ℕ → Finset ℕ
  | 0 => {0}
  | block + 1 => openBlock (closeBlock count (knownHashes count block) block) (block + 1)

theorem mem_openBlock_iff (hashes : Finset ℕ) (block hash : ℕ) :
    hash ∈ openBlock hashes block ↔ hash = block - 1 ∨ hash ∈ hashes :=
  Finset.mem_insert

theorem mem_closeBlock_iff (count : ℕ) (hashes : Finset ℕ) (block hash : ℕ) :
    hash ∈ closeBlock count hashes block ↔
      hash ∈ hashes ∧ (hash = block - count - 1 → hash = 0) := by
  rw [closeBlock]
  split
  next hzero =>
    rw [hzero]
    exact (and_iff_left id).symm
  next hpos =>
    rw [Finset.mem_erase, and_comm]
    refine and_congr_right fun _ => ⟨fun hne heq => absurd heq hne, fun himp heq => ?_⟩
    exact hpos (heq.symm.trans (himp heq))

/-- The window has one block more than it is asked for: a hash is dropped at the
end of a block, after the block has been checked. -/
theorem mem_knownHashes_iff (count block hash : ℕ) :
    hash ∈ knownHashes count block ↔
      hash = 0 ∨ hash < block ∧ block ≤ hash + count + 1 := by
  induction block with
  | zero => simp [knownHashes]
  | succ block ih =>
      rw [knownHashes, mem_openBlock_iff, mem_closeBlock_iff, ih]
      omega

end Mortality
