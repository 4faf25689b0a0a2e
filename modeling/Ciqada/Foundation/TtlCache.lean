import Mathlib.Logic.Function.Basic

/-!
# Caches with a time to live

Entries carry the time at which they expire and are invisible from then on.  A
cache with a time to live of zero never stores anything.
-/

namespace Ciqada
namespace Foundation

universe u v

structure TtlCache (Key : Type u) (Value : Type v) where
  map : Key -> Option (Value × Nat)
  ttl : Nat

namespace TtlCache

variable {Key : Type u} {Value : Type v}

def empty (ttl : Nat) : TtlCache Key Value :=
  { map := fun _ => none, ttl := ttl }

/-- The value of a key, unless its entry has expired. -/
def get (c : TtlCache Key Value) (now : Nat) (key : Key) : Option Value :=
  match c.map key with
  | some (value, expiry) => if now < expiry then some value else none
  | none => none

def insert [DecidableEq Key] (c : TtlCache Key Value) (now : Nat) (key : Key)
    (value : Value) : TtlCache Key Value :=
  if c.ttl = 0 then c
  else { c with map := Function.update c.map key (some (value, now + c.ttl)) }

def purge [DecidableEq Key] (c : TtlCache Key Value) (key : Key) : TtlCache Key Value :=
  { c with map := Function.update c.map key none }

def clear (c : TtlCache Key Value) : TtlCache Key Value :=
  { c with map := fun _ => none }

/-- Drop the expired entries. -/
def sweep (c : TtlCache Key Value) (now : Nat) : TtlCache Key Value :=
  { c with map := fun key => (c.map key).filter (fun entry => decide (now < entry.2)) }

theorem get_eq_some_iff {c : TtlCache Key Value} {now : Nat} {key : Key} {value : Value} :
    c.get now key = some value <->
      exists expiry, c.map key = some (value, expiry) ∧ now < expiry := by
  unfold get
  cases hentry : c.map key with
  | none => simp
  | some entry =>
      rcases entry with ⟨stored, expiry⟩
      constructor
      · intro h
        by_cases hlive : now < expiry
        · have hvalue : stored = value := by simpa [hlive] using h
          exact ⟨expiry, by rw [hvalue], hlive⟩
        · simp [hlive] at h
      · intro h
        rcases h with ⟨expiry', hsome, hlive⟩
        have hpair := Option.some.inj hsome
        rw [Prod.mk.injEq] at hpair
        rw [← hpair.right] at hlive
        simp [hlive, hpair.left]

@[simp] theorem get_empty (ttl now : Nat) (key : Key) :
    (empty ttl : TtlCache Key Value).get now key = none := rfl

@[simp] theorem get_clear (c : TtlCache Key Value) (now : Nat) (key : Key) :
    c.clear.get now key = none := rfl

@[simp] theorem get_purge_self [DecidableEq Key] (c : TtlCache Key Value) (now : Nat)
    (key : Key) : (c.purge key).get now key = none := by
  simp [get, purge]

theorem get_purge_of_ne [DecidableEq Key] (c : TtlCache Key Value) (now : Nat)
    {key key' : Key} (hne : key' ≠ key) : (c.purge key).get now key' = c.get now key' := by
  simp [get, purge, hne]

/-- What is visible at a later time was visible before. -/
theorem get_of_later {c : TtlCache Key Value} {now later : Nat} {key : Key} {value : Value}
    (hle : now ≤ later) (h : c.get later key = some value) : c.get now key = some value := by
  rcases get_eq_some_iff.mp h with ⟨expiry, hentry, hlive⟩
  exact get_eq_some_iff.mpr ⟨expiry, hentry, Nat.lt_of_le_of_lt hle hlive⟩

/-- Sweeping keeps what is visible and adds nothing. -/
@[simp] theorem get_sweep (c : TtlCache Key Value) (now : Nat) (key : Key) :
    (c.sweep now).get now key = c.get now key := by
  unfold get sweep
  cases hentry : c.map key with
  | none => simp [hentry]
  | some entry =>
      by_cases hlive : now < entry.2
      · simp [hentry, Option.filter, hlive]
      · simp [hentry, Option.filter, hlive]

/-- After an insertion the key shows the new value or the cache is unchanged. -/
theorem get_insert_cases [DecidableEq Key] {c : TtlCache Key Value} {now : Nat}
    {key key' : Key} {value value' : Value}
    (h : (c.insert now key value).get now key' = some value') :
    (key' = key ∧ value' = value) ∨ c.get now key' = some value' := by
  unfold insert at h
  by_cases httl : c.ttl = 0
  · rw [if_pos httl] at h
    exact Or.inr h
  · rw [if_neg httl] at h
    by_cases hkey : key' = key
    · left
      refine ⟨hkey, ?_⟩
      rcases get_eq_some_iff.mp h with ⟨expiry, hentry, _⟩
      rw [hkey] at hentry
      simp only [Function.update_self, Option.some.injEq, Prod.mk.injEq] at hentry
      exact hentry.left.symm
    · right
      rcases get_eq_some_iff.mp h with ⟨expiry, hentry, hlive⟩
      simp only [Function.update_of_ne hkey] at hentry
      exact get_eq_some_iff.mpr ⟨expiry, hentry, hlive⟩

end TtlCache

end Foundation
end Ciqada
