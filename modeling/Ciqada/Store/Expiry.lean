import Ciqada.Store.Replay

/-!
# When a stored message expires

The broker computes an expiry interval for every message it stores and checks
live messages against the same interval.  The store adds the interval to the
time of storing after a cast to 64 bits, and eviction, replay and opening
compare the sum with the clock.  The live check takes an interval of zero to
mean that the message does not expire; the store does not.
-/

namespace Ciqada
namespace Store

open Foundation Broker

/-!
## The interval
-/

/-- The interval in milliseconds: the publisher's own, or the one of the listener. -/
def messageExpiryInterval (messageExpirySecs : Nat) (p : Publish) : Nat :=
  match p.messageExpiryInterval with
  | some secs => secs * 1000
  | none => messageExpirySecs * 1000

/-- The cast of a count of milliseconds to 64 bits. -/
def asI64 (millis : Nat) : Int :=
  Int.bmod (Int.ofNat millis) UInt64.size

theorem emod_size (millis : Nat) :
    Int.ofNat millis % Int.ofNat UInt64.size = Int.ofNat (millis % 2 ^ 64) :=
  rfl

theorem asI64_of_low {millis : Nat} (h : millis % 2 ^ 64 < 2 ^ 63) :
    asI64 millis = Int.ofNat (millis % 2 ^ 64) := by
  unfold asI64
  rw [Int.bmod_eq_emod_of_lt]
  · exact emod_size millis
  · have hhalf : ((millis % 2 ^ 64 : Nat) : Int) < (2 ^ 64 + 1) / 2 := by omega
    exact hhalf

theorem asI64_of_high {millis : Nat} (h : 2 ^ 63 ≤ millis % 2 ^ 64) :
    asI64 millis = Int.ofNat (millis % 2 ^ 64) - 2 ^ 64 := by
  unfold asI64
  rw [Int.bmod_neg]
  · exact congrArg (fun millis => millis - 2 ^ 64) (emod_size millis)
  · have hhalf : ((millis % 2 ^ 64 : Nat) : Int) ≥ (2 ^ 64 + 1) / 2 := by omega
    exact hhalf

/-!
## The live check
-/

inductive MessageExpiryCheckResult where
  | expiry
  | remaining (secs : Option Nat)
  deriving DecidableEq

/-- A count of seconds cut to 32 bits, with zero standing for none. -/
def nonZeroU32 (secs : Int) : Option Nat :=
  let cut := (secs % 2 ^ 32).toNat
  if cut = 0 then none else some cut

/-- The check before a live delivery.  `hooked` is the answer of the registered hooks. -/
def messageExpiryCheck (hooked : Bool) (messageExpirySecs : Nat) (now : Int) (p : Publish) :
    MessageExpiryCheckResult :=
  if hooked then MessageExpiryCheckResult.expiry
  else
    let expiryInterval :=
      match p.messageExpiryInterval with
      | some secs => Int.ofNat secs * 1000
      | none => asI64 (messageExpirySecs * 1000)
    if expiryInterval = 0 then MessageExpiryCheckResult.remaining none
    else
      let remaining := now - p.createTime.getD now
      if remaining < expiryInterval then
        MessageExpiryCheckResult.remaining (nonZeroU32 ((expiryInterval - remaining).tdiv 1000))
      else MessageExpiryCheckResult.expiry

/-- The publisher's interval is a nonzero number of 32 bits, the listener's has 64 bits. -/
structure Producible (messageExpirySecs : Nat) (p : Publish) : Prop where
  own : forall secs, p.messageExpiryInterval = some secs -> 0 < secs ∧ secs < 2 ^ 32
  listener : messageExpirySecs < 2 ^ 64

/-- Without hooks, the live check keeps a message whose interval is zero or not over. -/
theorem messageExpiryCheck_iff {messageExpirySecs : Nat} {p : Publish} {created now : Int}
    (hproducible : Producible messageExpirySecs p) (hcreated : p.createTime = some created) :
    messageExpiryCheck false messageExpirySecs now p ≠ MessageExpiryCheckResult.expiry <->
      asI64 (messageExpiryInterval messageExpirySecs p) = 0 ∨
        now - created < asI64 (messageExpiryInterval messageExpirySecs p) := by
  have hinterval : (match p.messageExpiryInterval with
      | some secs => Int.ofNat secs * 1000
      | none => asI64 (messageExpirySecs * 1000)) =
        asI64 (messageExpiryInterval messageExpirySecs p) := by
    unfold messageExpiryInterval
    cases hown : p.messageExpiryInterval with
    | none => rfl
    | some secs =>
        have hsecs := hproducible.own secs hown
        have hlow : secs * 1000 % 2 ^ 64 = secs * 1000 := Nat.mod_eq_of_lt (by omega)
        dsimp only
        rw [asI64_of_low (by omega), hlow]
        exact (Int.natCast_mul secs 1000).symm
  unfold messageExpiryCheck
  rw [hinterval, hcreated, Option.getD_some, if_neg Bool.false_ne_true]
  dsimp only
  split
  · rename_i hzero
    constructor
    · intro _
      exact Or.inl hzero
    · intro _ h
      cases h
  · rename_i hnonzero
    split
    · rename_i hlive
      constructor
      · intro _
        exact Or.inr hlive
      · intro _ h
        cases h
    · rename_i hover
      constructor
      · intro h
        exact absurd rfl h
      · rintro (hzero | hlive)
        · exact absurd hzero hnonzero
        · exact absurd hlive hover

/-!
## The stored message
-/

section Stored

variable {now t : Int} {interval : Nat} {sender : From} {p : Publish} {msg : StoredMsg}

/-- The sum saturates only beyond the times that are asked about. -/
theorem lt_expiryAt_iff (hnow : 0 ≤ now) (hlater : now ≤ t) (ht : t < i64Max) :
    t < (StoredMsg.new now sender p interval).expiryAt <-> t - now < asI64 interval := by
  have hmax : i64Max = 2 ^ 63 - 1 := rfl
  have hmin : i64Min = - 2 ^ 63 := rfl
  show t < max i64Min (min i64Max (now + asI64 interval)) <-> _
  omega

/-- The rule in exact arithmetic: no interval, or not yet over. -/
def Unexpired (now t : Int) (interval : Nat) : Prop :=
  interval = 0 ∨ t - now < Int.ofNat interval

instance (now t : Int) (interval : Nat) : Decidable (Unexpired now t interval) :=
  inferInstanceAs (Decidable (_ ∨ _))

/-- Eviction, replay and opening all treat the message by the exact rule. -/
structure ExpiresExactly (now t : Int) (interval : Nat) (msg : StoredMsg) : Prop where
  evict : forall (m : MemState) id, m.msgs.lookup id = some msg ->
    (m.expired t id = false <-> Unexpired now t interval)
  get : forall (m : MemState) id clientId, m.msgs.lookup id = some msg ->
    clientId ∉ msg.deliveredTo ->
    ((m.hit t clientId id).isSome = true <-> Unexpired now t interval)
  openStore : forall (Row : Type) (codec : Codec Row) id row, codec.dec row = some msg ->
    ((System.loadRow codec t (id, row)).isSome = true <-> Unexpired now t interval)

/-- The three places make the same comparison. -/
theorem expiresExactly_iff :
    ExpiresExactly now t interval msg <-> (t < msg.expiryAt <-> Unexpired now t interval) := by
  constructor
  · intro h
    rw [← h.openStore StoredMsg { enc := some, dec := some } 0 msg rfl]
    show _ <-> (if t < msg.expiryAt then some (0, msg) else none).isSome = true
    split
    · rename_i hlive
      exact iff_of_true hlive rfl
    · rename_i hdead
      exact iff_of_false hdead Bool.false_ne_true
  · intro h
    constructor
    · intro m id hlookup
      rw [← h]
      unfold MemState.expired
      rw [hlookup, decide_eq_false_iff_not, not_le]
    · intro m id clientId hlookup hnew
      rw [← h]
      unfold MemState.hit
      rw [hlookup]
      dsimp only
      split
      · rename_i hskip
        apply iff_of_false Bool.false_ne_true
        rcases hskip with hdead | hgiven
        · exact not_lt_of_ge hdead
        · exact absurd hgiven hnew
      · rename_i hgive
        exact iff_of_true rfl (not_le.mp (not_or.mp hgive).left)
    · intro Row codec id row hdec
      rw [← h]
      unfold System.loadRow
      rw [hdec]
      dsimp only
      split
      · rename_i hlive
        exact iff_of_true rfl hlive
      · rename_i hdead
        exact iff_of_false Bool.false_ne_true hdead

/-- The cast keeps the rule as long as it keeps the interval, or enough of it. -/
theorem lt_asI64_iff (hlater : now ≤ t) (hspan : t - now < 2 ^ 63) :
    (t - now < asI64 interval <-> Unexpired now t interval) <->
      interval ≠ 0 ∧ (interval < 2 ^ 63 ∨
        (interval % 2 ^ 64 < 2 ^ 63 ∧ t - now < Int.ofNat (interval % 2 ^ 64))) := by
  unfold Unexpired
  by_cases hlow : interval % 2 ^ 64 < 2 ^ 63
  · rw [asI64_of_low hlow, Int.ofNat_eq_natCast, Int.ofNat_eq_natCast]
    omega
  · rw [asI64_of_high (by omega), Int.ofNat_eq_natCast, Int.ofNat_eq_natCast]
    omega

end Stored

/-!
## The store and the live check
-/

section Agreement

variable {now t : Int} {messageExpirySecs : Nat} {sender : From} {p : Publish} {msg : StoredMsg}

/-- Store and live check agree on a message created now unless the cast gives zero. -/
theorem agrees_with_live_iff (hnow : 0 ≤ now) (hlater : now ≤ t) (ht : t < i64Max)
    (hproducible : Producible messageExpirySecs p) (hcreated : p.createTime = some now) :
    (t < (StoredMsg.new now sender p (messageExpiryInterval messageExpirySecs p)).expiryAt <->
        messageExpiryCheck false messageExpirySecs t p ≠ MessageExpiryCheckResult.expiry) <->
      asI64 (messageExpiryInterval messageExpirySecs p) ≠ 0 := by
  rw [lt_expiryAt_iff hnow hlater ht, messageExpiryCheck_iff hproducible hcreated]
  constructor
  · intro hagree hzero
    have hlive := hagree.mpr (Or.inl hzero)
    omega
  · intro hnonzero
    constructor
    · exact Or.inr
    · rintro (hzero | hlive)
      · exact absurd hzero hnonzero
      · exact hlive

theorem expiry_exact_iff (hnow : 0 ≤ now) (hlater : now ≤ t) (ht : t < i64Max)
    (hmsg : StoredMsg.Grown
      (StoredMsg.new now sender p (messageExpiryInterval messageExpirySecs p)) msg) :
    ExpiresExactly now t (messageExpiryInterval messageExpirySecs p) msg <->
      messageExpiryInterval messageExpirySecs p ≠ 0 ∧
        (messageExpiryInterval messageExpirySecs p < 2 ^ 63 ∨
          (messageExpiryInterval messageExpirySecs p % 2 ^ 64 < 2 ^ 63 ∧
            t - now < Int.ofNat (messageExpiryInterval messageExpirySecs p % 2 ^ 64))) := by
  have hmax : i64Max = 2 ^ 63 - 1 := rfl
  rw [expiresExactly_iff, hmsg.expiryAt, lt_expiryAt_iff hnow hlater ht]
  exact lt_asI64_iff hlater (by omega)

end Agreement

/-- Twenty minutes are kept exactly, before and after they are over. -/
theorem expiry_exact_iff_minutes :
    ExpiresExactly 10 1200009 1200000
        (StoredMsg.new 10 Sample.sender (Sample.publish "a") 1200000) ∧
      ExpiresExactly 10 1200010 1200000
        (StoredMsg.new 10 Sample.sender (Sample.publish "a") 1200000) := by
  constructor
  · exact (@expiry_exact_iff 10 1200009 1200 Sample.sender (Sample.publish "a") _ (by decide)
      (by decide) (by decide) (StoredMsg.grown_refl _)).mpr ⟨by decide, Or.inl (by decide)⟩
  · exact (@expiry_exact_iff 10 1200010 1200 Sample.sender (Sample.publish "a") _ (by decide)
      (by decide) (by decide) (StoredMsg.grown_refl _)).mpr ⟨by decide, Or.inl (by decide)⟩

/--
A message without expiry is dead as soon as it is stored, and so is one that should
live for 300 million years, while the live check keeps the former.
-/
theorem expiry_exact_fails :
    ¬ ExpiresExactly 10 11 (messageExpiryInterval 0 (Sample.publish "a"))
        (StoredMsg.new 10 Sample.sender (Sample.publish "a")
          (messageExpiryInterval 0 (Sample.publish "a"))) ∧
      ¬ ExpiresExactly 10 11 (messageExpiryInterval 9223372036854776 (Sample.publish "a"))
        (StoredMsg.new 10 Sample.sender (Sample.publish "a")
          (messageExpiryInterval 9223372036854776 (Sample.publish "a"))) ∧
      messageExpiryCheck false 0 11 (Sample.publish "a") =
        MessageExpiryCheckResult.remaining none := by
  refine ⟨?_, ?_, by decide⟩
  · rw [expiresExactly_iff]
    decide
  · rw [expiresExactly_iff]
    decide

end Store
end Ciqada
