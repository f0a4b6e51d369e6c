import Mathlib.Data.Finmap
import Mathlib.Logic.Equiv.Basic

/-! # Storage maps

A storage map is a finite partial function from keys to values. Reads of an
absent key return a default value, so presence is a separate question. The
exchange of two entries works on raw entries: it moves absence as well as
values.
-/

namespace Frame

universe uKey uValue

/-- The entries of a storage map. Two maps with the same entries are equal. -/
def StorageMap (Key : Type uKey) (Value : Type uValue) : Type (max uKey uValue) :=
  Finmap fun _ : Key => Value

namespace StorageMap

variable {Key : Type uKey} {Value : Type uValue} [DecidableEq Key]

instance : EmptyCollection (StorageMap Key Value) :=
  inferInstanceAs (EmptyCollection (Finmap fun _ : Key => Value))

instance [DecidableEq Value] : DecidableEq (StorageMap Key Value) :=
  inferInstanceAs (DecidableEq (Finmap fun _ : Key => Value))

/-- The raw entry under a key. -/
def tryGet (map : StorageMap Key Value) (key : Key) : Option Value :=
  Finmap.lookup key map

/-- The value under a key, or the default of the value type. -/
def get [Inhabited Value] (map : StorageMap Key Value) (key : Key) : Value :=
  (map.tryGet key).getD default

def containsKey (map : StorageMap Key Value) (key : Key) : Bool :=
  (map.tryGet key).isSome

def insert (map : StorageMap Key Value) (key : Key) (value : Value) : StorageMap Key Value :=
  Finmap.insert key value map

def remove (map : StorageMap Key Value) (key : Key) : StorageMap Key Value :=
  Finmap.erase key map

/-- Write or kill a raw entry. -/
def setEntry (map : StorageMap Key Value) (key : Key) : Option Value → StorageMap Key Value
  | some value => map.insert key value
  | none => map.remove key

/-- Exchange two raw entries: both are read first, then each key receives the
entry of the other one, absence included. -/
def swap (map : StorageMap Key Value) (first second : Key) : StorageMap Key Value :=
  (map.setEntry first (map.tryGet second)).setEntry second (map.tryGet first)

theorem ext {left right : StorageMap Key Value}
    (h : ∀ key, left.tryGet key = right.tryGet key) : left = right :=
  Finmap.ext_lookup h

@[simp] theorem tryGet_empty (key : Key) :
    (∅ : StorageMap Key Value).tryGet key = none :=
  Finmap.lookup_empty key

theorem tryGet_insert (map : StorageMap Key Value) (key : Key) (value : Value) (other : Key) :
    (map.insert key value).tryGet other = if other = key then some value else map.tryGet other := by
  by_cases heq : other = key
  · subst other
    rw [if_pos rfl]
    exact Finmap.lookup_insert map
  · rw [if_neg heq]
    exact Finmap.lookup_insert_of_ne map heq

theorem tryGet_remove (map : StorageMap Key Value) (key other : Key) :
    (map.remove key).tryGet other = if other = key then none else map.tryGet other := by
  by_cases heq : other = key
  · subst other
    rw [if_pos rfl]
    exact Finmap.lookup_erase key map
  · rw [if_neg heq]
    exact Finmap.lookup_erase_ne heq

theorem tryGet_setEntry (map : StorageMap Key Value) (key : Key) (entry : Option Value)
    (other : Key) :
    (map.setEntry key entry).tryGet other = if other = key then entry else map.tryGet other := by
  cases entry with
  | none => exact map.tryGet_remove key other
  | some value => exact map.tryGet_insert key value other

/-- The exchange of two entries is the transposition of their keys. -/
theorem tryGet_swap (map : StorageMap Key Value) (first second other : Key) :
    (map.swap first second).tryGet other = map.tryGet (Equiv.swap first second other) := by
  unfold swap
  rw [tryGet_setEntry, tryGet_setEntry, Equiv.swap_apply_def]
  by_cases hfirst : other = first
  · by_cases hsecond : other = second
    · rw [if_pos hsecond, if_pos hfirst, ← hsecond, hfirst]
    · rw [if_neg hsecond, if_pos hfirst, if_pos hfirst]
  · by_cases hsecond : other = second
    · rw [if_pos hsecond, if_neg hfirst, if_pos hsecond]
    · rw [if_neg hsecond, if_neg hfirst, if_neg hfirst, if_neg hsecond]

theorem containsKey_eq_true_iff (map : StorageMap Key Value) (key : Key) :
    map.containsKey key = true ↔ ∃ value, map.tryGet key = some value :=
  Option.isSome_iff_exists

theorem containsKey_eq_false_iff (map : StorageMap Key Value) (key : Key) :
    map.containsKey key = false ↔ map.tryGet key = none :=
  Option.isSome_eq_false_iff.trans Option.isNone_iff_eq_none

theorem get_of_tryGet [Inhabited Value] {map : StorageMap Key Value} {key : Key} {value : Value}
    (h : map.tryGet key = some value) : map.get key = value := by
  rw [get, h, Option.getD_some]

/-! ## Keys by value -/

/-- The keys that hold a value. -/
def keysOf [DecidableEq Value] (map : StorageMap Key Value) (value : Value) : Finset Key :=
  (Finmap.keys map).filter fun key => map.tryGet key = some value

theorem mem_keysOf [DecidableEq Value] (map : StorageMap Key Value) (value : Value) (key : Key) :
    key ∈ map.keysOf value ↔ map.tryGet key = some value := by
  rw [keysOf, Finset.mem_filter, and_iff_right_iff_imp]
  intro hentry
  exact Finmap.mem_keys.mpr (Finmap.mem_iff.mpr ⟨value, hentry⟩)

/-- An exchange of entries keeps the number of keys of every value. -/
theorem card_keysOf_swap [DecidableEq Value] (map : StorageMap Key Value) (first second : Key)
    (value : Value) :
    ((map.swap first second).keysOf value).card = (map.keysOf value).card := by
  have hmap : (map.swap first second).keysOf value =
      (map.keysOf value).map (Equiv.swap first second).toEmbedding := by
    ext key
    rw [mem_keysOf, tryGet_swap, Finset.mem_map_equiv, Equiv.symm_swap, mem_keysOf]
  rw [hmap, Finset.card_map]

end StorageMap

end Frame
