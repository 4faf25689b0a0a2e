import Ciqada.Api.Effects

/-!
# Agreement of the copies of a credential

A credential is described four times: by the user table, the verifier table and
the two caches.  The invariant says that the user table is the truth: whatever
the other three would let through agrees with the record the table holds now.
-/

namespace Ciqada
namespace Api

open Foundation Broker

/-- The table holds a record for the user that was made from the password. -/
def Holds (c : Crypto) (db : RedbStore) (username password : String) : Prop :=
  exists r, db.users.lookup username = some r ∧ c.MadeFrom r.passwordHash password

structure Consistent (c : Crypto) (s : AppState) : Prop where
  enabled : s.authDisabled = false
  names : forall u r, s.db.users.lookup u = some r -> NulFree u
  cached : forall u r, s.users.get s.now u = some r -> s.db.users.lookup u = some r
  remembered : forall key su, s.authCache.get s.now key = some su ->
    exists u p, key = c.authKey u p ∧ Holds c s.db u p
  verifiers : forall u v, s.db.verifiers u = some v ->
    exists pepper p, v = c.computeVerifier pepper u p ∧ Holds c s.db u p

namespace Consistent

variable {c : Crypto} {s : AppState}

theorem of_start (settings : AppState.Settings) (now : Nat) {db : RedbStore}
    (hnames : forall u r, db.users.lookup u = some r -> NulFree u)
    (hverifiers : forall u v, db.verifiers u = some v ->
      exists pepper p, v = c.computeVerifier pepper u p ∧ Holds c db u p) :
    Consistent c (AppState.start settings db now) where
  enabled := rfl
  names := hnames
  cached := by
    intro u r h
    cases h
  remembered := by
    intro key su h
    cases h
  verifiers := hverifiers

theorem start_empty (settings : AppState.Settings) (now : Nat) :
    Consistent c (AppState.start settings RedbStore.empty now) := by
  apply of_start
  · intro u r h
    change (∅ : Table String UserRecord).lookup u = some r at h
    rw [Finmap.lookup_empty] at h
    cases h
  · intro u v h
    cases h

theorem restart (h : Consistent c s) (settings : AppState.Settings) :
    Consistent c (AppState.start settings s.db s.now) :=
  of_start settings s.now h.names h.verifiers

theorem tick (h : Consistent c s) (d : Nat) : Consistent c (s.tick d) where
  enabled := h.enabled
  names := h.names
  cached := by
    intro u r hget
    exact h.cached u r (TtlCache.get_of_later (Nat.le_add_right s.now d) hget)
  remembered := by
    intro key su hget
    exact h.remembered key su (TtlCache.get_of_later (Nat.le_add_right s.now d) hget)
  verifiers := h.verifiers

theorem sweepAuthCache (h : Consistent c s) : Consistent c s.sweepAuthCache where
  enabled := h.enabled
  names := h.names
  cached := h.cached
  remembered := by
    intro key su hget
    apply h.remembered key su
    rw [← TtlCache.get_sweep]
    exact hget
  verifiers := h.verifiers

theorem sweepUserCache (h : Consistent c s) : Consistent c s.sweepUserCache where
  enabled := h.enabled
  names := h.names
  cached := by
    intro u r hget
    apply h.cached u r
    rw [← TtlCache.get_sweep]
    exact hget
  remembered := h.remembered
  verifiers := h.verifiers

/-!
## The writes of authentication
-/

theorem remember (h : Consistent c s) {u p : String} (hholds : Holds c s.db u p)
    (su : Bool) : Consistent c (s.remember c u p su) where
  enabled := h.enabled
  names := h.names
  cached := h.cached
  remembered := by
    intro key su' hget
    rcases TtlCache.get_insert_cases hget with hnew | hold
    · exact ⟨u, p, hnew.left, hholds⟩
    · exact h.remembered key su' hold
  verifiers := h.verifiers

theorem setVerifier (h : Consistent c s) {u p : String} (hholds : Holds c s.db u p)
    (pepper : List UInt8) :
    Consistent c { s with db := s.db.setVerifier u (c.computeVerifier pepper u p) } where
  enabled := h.enabled
  names := h.names
  cached := h.cached
  remembered := h.remembered
  verifiers := by
    intro u' v hv
    change Function.update s.db.verifiers u (some (c.computeVerifier pepper u p)) u' =
      some v at hv
    by_cases hu : u' = u
    · subst hu
      rw [Function.update_self] at hv
      exact ⟨pepper, p, (Option.some.inj hv).symm, hholds⟩
    · rw [Function.update_of_ne hu] at hv
      exact h.verifiers u' v hv

theorem storeVerifier (h : Consistent c s) {u p : String} (hholds : Holds c s.db u p)
    (f : Faults) : Consistent c (s.storeVerifier c f u p) := by
  unfold AppState.storeVerifier
  split
  · split
    · exact h
    · exact h.setVerifier hholds _
  · exact h

theorem insertUserCache (h : Consistent c s) {u : String} {r : UserRecord}
    (hlookup : s.db.users.lookup u = some r) :
    Consistent c { s with users := s.users.insert s.now u r } where
  enabled := h.enabled
  names := h.names
  cached := by
    intro u' r' hget
    rcases TtlCache.get_insert_cases hget with hnew | hold
    · rw [hnew.left, hnew.right]
      exact hlookup
    · exact h.cached u' r' hold
  remembered := h.remembered
  verifiers := h.verifiers

end Consistent

/-!
## Looking a user up and checking a password
-/

section Lookup

variable {c : Crypto} {s : AppState}

theorem lookupUser_consistent (h : Consistent c s) (f : Faults) (u : String) :
    Consistent c (s.lookupUser f u).1 := by
  unfold AppState.lookupUser
  cases s.users.get s.now u with
  | some r => exact h
  | none =>
      by_cases hfault : f Call.getUser = true
      · simpa only [hfault, if_true] using h
      · simp only [hfault]
        cases hget : s.db.getUser u with
        | none => exact h
        | some r => exact h.insertUserCache hget

@[simp] theorem lookupUser_db (f : Faults) (u : String) :
    (s.lookupUser f u).1.db = s.db := by
  unfold AppState.lookupUser
  split
  · rfl
  · split
    · rfl
    · split <;> rfl

@[simp] theorem lookupUser_acl (f : Faults) (u : String) :
    (s.lookupUser f u).1.acl = s.acl := by
  unfold AppState.lookupUser
  split
  · rfl
  · split
    · rfl
    · split <;> rfl

/-- A lookup answers with what the table holds, or fails. -/
theorem lookupUser_answer (h : Consistent c s) (f : Faults) (u : String) :
    (s.lookupUser f u).2 = Except.ok (s.db.users.lookup u) ∨
      (f Call.getUser = true ∧ (s.lookupUser f u).2 = Except.error Response.internalError) := by
  unfold AppState.lookupUser
  cases hcached : s.users.get s.now u with
  | some r =>
      left
      rw [h.cached u r hcached]
  | none =>
      by_cases hfault : f Call.getUser = true
      · right
        simp [hfault]
      · left
        simp only [hfault]
        cases hget : s.db.getUser u with
        | none =>
            change s.db.users.lookup u = none at hget
            rw [hget]
            rfl
        | some r =>
            change s.db.users.lookup u = some r at hget
            rw [hget]
            rfl

theorem cacheHit_sound (hc : c.Laws) (h : Consistent c s) {u p : String} {r : UserRecord}
    (hlookup : s.db.users.lookup u = some r) (hhit : s.cacheHit c u p = true) :
    c.MadeFrom r.passwordHash p := by
  rcases Option.isSome_iff_exists.mp hhit with ⟨su, hget⟩
  rcases h.remembered _ su hget with ⟨u', p', hkey, r', hlookup', hmade⟩
  rcases hc.authKey_inj (h.names u r hlookup) (h.names u' r' hlookup') hkey with ⟨hu, hp⟩
  rw [← hu, hlookup] at hlookup'
  rw [Option.some.inj hlookup', hp]
  exact hmade

theorem verifierHit_sound (hc : c.Laws) (h : Consistent c s) {f : Faults} {u p : String}
    {r : UserRecord} (hlookup : s.db.users.lookup u = some r)
    (hhit : s.verifierHit c f u p = true) : c.MadeFrom r.passwordHash p := by
  unfold AppState.verifierHit at hhit
  cases hpepper : s.pepper with
  | none => simp [hpepper] at hhit
  | some pepper =>
      cases hv : s.db.verifiers u with
      | none => simp [hpepper, RedbStore.getVerifier, hv] at hhit
      | some v =>
          have hfast : c.verifyFast pepper u p v = true := by
            simp [hpepper, RedbStore.getVerifier, hv] at hhit
            exact hhit.right
          rcases h.verifiers u v hv with ⟨pepper', p', hv', r', hlookup', hmade⟩
          rw [Crypto.verifyFast_iff, hv'] at hfast
          rw [hlookup] at hlookup'
          rw [Option.some.inj hlookup', ← hc.computeVerifier_inj hfast]
          exact hmade

/-- Whatever way a password is accepted, the record was made from it. -/
theorem checkPassword_sound (hc : c.Laws) (h : Consistent c s) {f : Faults} {u p : String}
    {r : UserRecord} (hlookup : s.db.users.lookup u = some r)
    (haccept : (s.checkPassword c f r u p).2 = true) : c.MadeFrom r.passwordHash p := by
  unfold AppState.checkPassword at haccept
  by_cases hcache : s.cacheHit c u p = true
  · exact cacheHit_sound hc h hlookup hcache
  · rw [if_neg hcache] at haccept
    by_cases hfast : s.verifierHit c f u p = true
    · exact verifierHit_sound hc h hlookup hfast
    · rw [if_neg hfast] at haccept
      by_cases hslow : (!f Call.verifyPassword &&
          c.verifyPassword r.passwordHash p) = true
      · simp only [Bool.and_eq_true] at hslow
        exact hc.verify_made _ _ hslow.right
      · rw [if_neg hslow] at haccept
        cases haccept

theorem checkPassword_complete (hc : c.Laws) {f : Faults} {u p : String} {r : UserRecord}
    (hfault : f Call.verifyPassword = false) (hmade : c.MadeFrom r.passwordHash p) :
    (s.checkPassword c f r u p).2 = true := by
  have hverify := (hc.verify_iff r.passwordHash p).mpr hmade
  unfold AppState.checkPassword
  by_cases hcache : s.cacheHit c u p = true
  · rw [if_pos hcache]
  · rw [if_neg hcache]
    by_cases hfast : s.verifierHit c f u p = true
    · rw [if_pos hfast]
    · rw [if_neg hfast, hfault, hverify]
      rfl

theorem checkPassword_consistent (hc : c.Laws) (h : Consistent c s) {f : Faults}
    {u p : String} {r : UserRecord} (hlookup : s.db.users.lookup u = some r) :
    Consistent c (s.checkPassword c f r u p).1 := by
  unfold AppState.checkPassword
  by_cases hcache : s.cacheHit c u p = true
  · rw [if_pos hcache]
    exact h
  · rw [if_neg hcache]
    by_cases hfast : s.verifierHit c f u p = true
    · rw [if_pos hfast]
      exact h.remember ⟨r, hlookup, verifierHit_sound hc h hlookup hfast⟩ r.superuser
    · rw [if_neg hfast]
      by_cases hslow : (!f Call.verifyPassword &&
          c.verifyPassword r.passwordHash p) = true
      · rw [if_pos hslow]
        simp only [Bool.and_eq_true] at hslow
        have hholds : Holds c s.db u p := ⟨r, hlookup, hc.verify_made _ _ hslow.right⟩
        exact (h.remember hholds r.superuser).storeVerifier hholds f
      · rw [if_neg hslow]
        exact h

@[simp] theorem storeVerifier_acl (f : Faults) (u p : String) :
    (s.storeVerifier c f u p).acl = s.acl := by
  unfold AppState.storeVerifier
  split
  · split <;> rfl
  · rfl

@[simp] theorem checkPassword_acl (f : Faults) (r : UserRecord) (u p : String) :
    (s.checkPassword c f r u p).1.acl = s.acl := by
  unfold AppState.checkPassword
  split
  · rfl
  · split
    · rfl
    · split
      · exact storeVerifier_acl f u p
      · rfl

@[simp] theorem checkPassword_users (f : Faults) (r : UserRecord) (u p : String) :
    (s.checkPassword c f r u p).1.db.users = s.db.users := by
  unfold AppState.checkPassword
  split
  · rfl
  · split
    · rfl
    · split
      · exact storeVerifier_users u p
      · rfl

end Lookup

end Api
end Ciqada
