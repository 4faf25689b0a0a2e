import Ciqada.Api.Interleaving

/-!
# Revocation under interleaving

A deletion removes the row, the verifier and both cached copies in three steps.
A handler that read the row before may write a copy back after them.  The
condition below forbids exactly such late writes, and under it an
authentication that starts after a deletion has returned sees only what the
table has held since.
-/

namespace Ciqada
namespace Api

open Foundation Broker

/-!
## Late writes
-/

/--
A copy is written only while the table holds what it copies, and a deletion
that finds no row finds no copy in the caches either.
-/
def FreshTask (c : Crypto) (f : Faults) (s : AppState) : Task -> Prop
  | Task.authenticate _ u _ (AuthPc.fillCache r) =>
      s.users.ttl ≠ 0 -> s.db.users.lookup u = some r
  | Task.authenticate _ u p (AuthPc.rememberFast _) =>
      s.authCache.ttl ≠ 0 -> Holds c s.db u p
  | Task.authenticate _ u p (AuthPc.rememberSlow _) =>
      s.authCache.ttl ≠ 0 -> Holds c s.db u p
  | Task.authenticate _ u p (AuthPc.writeVerifier _) =>
      s.pepper ≠ none -> f Call.setVerifier = false -> Holds c s.db u p
  | Task.createUser req _ CreatePc.writeVerifier =>
      s.pepper ≠ none -> f Call.setVerifier = false -> Holds c s.db req.username req.password
  | Task.change (Change.deleteUser u) ChangePc.writeDb =>
      f Call.deleteUser = false -> s.db.users.lookup u = none ->
        s.users.get s.now u = none ∧ forall p, s.cacheHit c u p = false
  | _ => True

def FreshStep (c : Crypto) (m : Sys) : SysEvent -> Prop
  | SysEvent.run i f => forall t, m.tasks[i]? = some t -> FreshTask c f m.node t
  | _ => True

/-!
## What a step does to the node
-/

/-- The effects of a step, with what the condition says about each. -/
inductive Effect (c : Crypto) (f : Faults) (u : String) (s : AppState) :
    AppState -> Prop where
  | none : Effect c f u s s
  | fillCache (r : UserRecord) :
      (s.users.ttl ≠ 0 -> s.db.users.lookup u = some r) ->
      Effect c f u s { s with users := s.users.insert s.now u r }
  | remember (p : String) (superuser : Bool) :
      (s.authCache.ttl ≠ 0 -> Holds c s.db u p) ->
      Effect c f u s (s.remember c u p superuser)
  | storeVerifier (p : String) :
      (s.pepper ≠ none -> f Call.setVerifier = false -> Holds c s.db u p) ->
      Effect c f u s (s.storeVerifier c f u p)
  | deleteUser : Effect c f u s { s with db := (s.db.deleteUser u).1 }
  | upsertUser (user : NewUser) : Effect c f u s { s with db := s.db.upsertUser user }
  | clear : Effect c f u s { s with authCache := s.authCache.clear }
  | purge : Effect c f u s { s with users := s.users.purge u }
  | sweepAuthCache : Effect c f u s s.sweepAuthCache
  | sweepUserCache : Effect c f u s s.sweepUserCache
  | tick (d : Nat) : Effect c f u s (s.tick d)

section Effects

variable {c : Crypto} {f : Faults} {s : AppState} {u : String}

theorem authPc_effect {ci : ConnectInfo} {p : String} {pc : AuthPc}
    (hfresh : FreshTask c f s (Task.authenticate ci u p pc)) :
    Effect c f u s (pc.run c f ci u p s).1 := by
  cases pc with
  | readCache =>
      unfold AuthPc.run
      dsimp only
      split
      · exact Effect.none
      · split <;> exact Effect.none
  | readDb =>
      unfold AuthPc.run
      dsimp only
      split
      · exact Effect.none
      · split <;> exact Effect.none
  | fillCache r => exact Effect.fillCache r hfresh
  | readAuthCache r =>
      unfold AuthPc.run
      dsimp only
      split <;> exact Effect.none
  | readVerifier r =>
      unfold AuthPc.run
      dsimp only
      split <;> exact Effect.none
  | rememberFast r => exact Effect.remember p r.superuser hfresh
  | verify r =>
      unfold AuthPc.run
      dsimp only
      split <;> exact Effect.none
  | rememberSlow r => exact Effect.remember p r.superuser hfresh
  | writeVerifier r => exact Effect.storeVerifier p hfresh
  | done result => exact Effect.none

theorem changePc_effect {ch : Change} (hname : ch.username = u) (pc : ChangePc) :
    Effect c f u s (pc.run f ch s).1 := by
  cases pc with
  | writeDb =>
      cases ch with
      | deleteUser v =>
          change v = u at hname
          subst hname
          unfold ChangePc.run Change.write
          dsimp only
          split
          · exact Effect.none
          · split
            · rename_i db hdb
              have heq : db = (s.db.deleteUser v).1 := by rw [hdb]
              rw [heq]
              exact Effect.deleteUser
            · rename_i db hdb
              have heq : db = (s.db.deleteUser v).1 := by rw [hdb]
              rw [heq]
              exact Effect.deleteUser
      | replicate op =>
          cases op with
          | upsert user =>
              unfold ChangePc.run Change.write
              dsimp only
              split
              · exact Effect.none
              · exact Effect.upsertUser user.toNewUser
          | delete v =>
              change v = u at hname
              subst hname
              unfold ChangePc.run Change.write
              dsimp only
              split
              · exact Effect.none
              · exact Effect.deleteUser
  | purgeAuthCache => exact Effect.clear
  | purgeUserCache =>
      unfold ChangePc.run
      rw [hname]
      exact Effect.purge
  | done response => exact Effect.none

theorem createPc_effect {req : CreateUser} {salt : String} {pc : CreatePc}
    (hname : req.username = u)
    (hfresh : FreshTask c f s (Task.createUser req salt pc)) :
    Effect c f u s (pc.run c f req salt s).1 := by
  cases pc with
  | writeDb =>
      unfold CreatePc.run
      dsimp only
      split
      · exact Effect.none
      · split
        · exact Effect.none
        · cases hlookup : s.db.users.lookup req.username with
          | some r =>
              have hdb : s.db.insertUser
                  (req.record (c.hashPassword salt req.password)).toNewUser =
                    (s.db, false) := RedbStore.insertUser_of_some hlookup
              rw [hdb]
              exact Effect.none
          | none =>
              have hdb : s.db.insertUser
                  (req.record (c.hashPassword salt req.password)).toNewUser =
                    (s.db.upsertUser
                      (req.record (c.hashPassword salt req.password)).toNewUser, true) :=
                RedbStore.insertUser_of_none hlookup
              rw [hdb]
              exact Effect.upsertUser _
  | writeVerifier =>
      subst hname
      exact Effect.storeVerifier req.password hfresh
  | done response => exact Effect.none

theorem task_effect {t : Task} (hname : t.username = u) (hfresh : FreshTask c f s t) :
    Effect c f u s (t.run c f s).1 := by
  cases t with
  | authenticate ci v p pc =>
      change v = u at hname
      subst hname
      exact authPc_effect hfresh
  | change ch pc => exact changePc_effect hname pc
  | createUser req salt pc => exact createPc_effect hname hfresh

end Effects

/-!
## Copies of what the table has held
-/

section Known

variable (c : Crypto) (u : String) (held : UserRecord -> Prop)

/-- Some record of the collection was made from the password. -/
def Known (p : String) : Prop :=
  exists r, held r ∧ c.MadeFrom r.passwordHash p

def VerifierKnown (s : AppState) : Prop :=
  forall pepper p, s.db.verifiers u = some (c.computeVerifier pepper u p) -> Known c held p

def AuthCacheKnown (s : AppState) : Prop :=
  forall p, s.cacheHit c u p = true -> Known c held p

def UserCacheKnown (s : AppState) : Prop :=
  forall r, s.users.get s.now u = some r -> held r

end Known

section Preservation

variable {c : Crypto} {f : Faults} {u : String} {held : UserRecord -> Prop}
variable {s t : AppState}

theorem known_of_holds (hcur : forall r, s.db.users.lookup u = some r -> held r) {p : String}
    (hholds : Holds c s.db u p) : Known c held p := by
  rcases hholds with ⟨r, hlookup, hmade⟩
  exact ⟨r, hcur r hlookup, hmade⟩

theorem verifierKnown_effect (hc : c.Laws)
    (hcur : forall r, s.db.users.lookup u = some r -> held r)
    (h : VerifierKnown c u held s) (heffect : Effect c f u s t) :
    VerifierKnown c u held t := by
  cases heffect with
  | none => exact h
  | fillCache r _ => exact h
  | remember p superuser _ => exact h
  | storeVerifier p hholds =>
      unfold AppState.storeVerifier
      split
      · rename_i pepper hpepper
        split
        · exact h
        · rename_i hfault
          have hknown : Known c held p := by
            apply known_of_holds hcur
            apply hholds
            · rw [hpepper]
              simp
            · simpa using hfault
          intro pepper' p' hv
          change Function.update s.db.verifiers u (some (c.computeVerifier pepper u p)) u =
            some (c.computeVerifier pepper' u p') at hv
          rw [Function.update_self] at hv
          rw [← hc.computeVerifier_inj (Option.some.inj hv)]
          exact hknown
      · exact h
  | deleteUser =>
      intro pepper p hv
      exact absurd rfl (verifiers_of_deleteUser hv).left
  | upsertUser user => exact h
  | clear => exact h
  | purge => exact h
  | sweepAuthCache => exact h
  | sweepUserCache => exact h
  | tick d => exact h

theorem cacheHit_remember (hc : c.Laws) {p p' : String} {superuser : Bool}
    (hhit : (s.remember c u p superuser).cacheHit c u p' = true) :
    (p' = p ∧ s.authCache.ttl ≠ 0) ∨ s.cacheHit c u p' = true := by
  rcases Option.isSome_iff_exists.mp hhit with ⟨su, hget⟩
  by_cases httl : s.authCache.ttl = 0
  · right
    have hsame : s.authCache.insert s.now (c.authKey u p) superuser = s.authCache := by
      unfold TtlCache.insert
      rw [if_pos httl]
    change (s.authCache.insert s.now (c.authKey u p) superuser).get s.now
      (c.authKey u p') = some su at hget
    rw [hsame] at hget
    exact Option.isSome_iff_exists.mpr ⟨su, hget⟩
  · rcases TtlCache.get_insert_cases hget with hnew | hold
    · left
      exact ⟨frame_right_inj (hc.sha256_inj _ _ hnew.left), httl⟩
    · right
      exact Option.isSome_iff_exists.mpr ⟨su, hold⟩

theorem authCacheKnown_effect (hc : c.Laws)
    (hcur : forall r, s.db.users.lookup u = some r -> held r)
    (h : AuthCacheKnown c u held s) (heffect : Effect c f u s t) :
    AuthCacheKnown c u held t := by
  cases heffect with
  | none => exact h
  | fillCache r _ => exact h
  | remember p superuser hholds =>
      intro p' hhit
      rcases cacheHit_remember hc hhit with hnew | hold
      · rw [hnew.left]
        exact known_of_holds hcur (hholds hnew.right)
      · exact h p' hold
  | storeVerifier p _ =>
      unfold AppState.storeVerifier
      split
      · split <;> exact h
      · exact h
  | deleteUser => exact h
  | upsertUser user => exact h
  | clear =>
      intro p hhit
      cases hhit
  | purge => exact h
  | sweepAuthCache =>
      intro p hhit
      apply h p
      change ((s.authCache.sweep s.now).get s.now (c.authKey u p)).isSome = true at hhit
      rw [TtlCache.get_sweep] at hhit
      exact hhit
  | sweepUserCache => exact h
  | tick d =>
      intro p hhit
      rcases Option.isSome_iff_exists.mp hhit with ⟨su, hget⟩
      apply h p
      exact Option.isSome_iff_exists.mpr
        ⟨su, TtlCache.get_of_later (Nat.le_add_right s.now d) hget⟩

theorem userCacheKnown_effect
    (hcur : forall r, s.db.users.lookup u = some r -> held r)
    (h : UserCacheKnown u held s) (heffect : Effect c f u s t) :
    UserCacheKnown u held t := by
  cases heffect with
  | none => exact h
  | fillCache r hholds =>
      intro r' hget
      change (s.users.insert s.now u r).get s.now u = some r' at hget
      by_cases httl : s.users.ttl = 0
      · have hsame : s.users.insert s.now u r = s.users := by
          unfold TtlCache.insert
          rw [if_pos httl]
        rw [hsame] at hget
        exact h r' hget
      · rcases TtlCache.get_insert_cases hget with hnew | hold
        · rw [hnew.right]
          exact hcur r (hholds httl)
        · exact h r' hold
  | remember p superuser _ => exact h
  | storeVerifier p _ =>
      unfold AppState.storeVerifier
      split
      · split <;> exact h
      · exact h
  | deleteUser => exact h
  | upsertUser user => exact h
  | clear => exact h
  | purge =>
      intro r hget
      change (s.users.purge u).get s.now u = some r at hget
      rw [TtlCache.get_purge_self] at hget
      cases hget
  | sweepAuthCache => exact h
  | sweepUserCache =>
      intro r hget
      apply h r
      change (s.users.sweep s.now).get s.now u = some r at hget
      rw [TtlCache.get_sweep] at hget
      exact hget
  | tick d =>
      intro r hget
      exact h r (TtlCache.get_of_later (Nat.le_add_right s.now d) hget)

theorem effect_settings (heffect : Effect c f u s t) :
    t.acl = s.acl ∧ t.authDisabled = s.authDisabled := by
  cases heffect with
  | storeVerifier p _ =>
      unfold AppState.storeVerifier
      split
      · split <;> exact ⟨rfl, rfl⟩
      · exact ⟨rfl, rfl⟩
  | none => exact ⟨rfl, rfl⟩
  | fillCache r _ => exact ⟨rfl, rfl⟩
  | remember p superuser _ => exact ⟨rfl, rfl⟩
  | deleteUser => exact ⟨rfl, rfl⟩
  | upsertUser user => exact ⟨rfl, rfl⟩
  | clear => exact ⟨rfl, rfl⟩
  | purge => exact ⟨rfl, rfl⟩
  | sweepAuthCache => exact ⟨rfl, rfl⟩
  | sweepUserCache => exact ⟨rfl, rfl⟩
  | tick d => exact ⟨rfl, rfl⟩

end Preservation

/-!
## Steps of the system
-/

/-- What an event does: it adds a task, runs one, or ages the caches. -/
inductive SysStepped (c : Crypto) (u : String) (m : Sys) : SysEvent -> Sys -> Prop where
  | spawn (ask : Ask) :
      ask.WellFormed ->
      ask.username = u ->
      SysStepped c u m (SysEvent.spawn ask) { m with tasks := m.tasks ++ [ask.task] }
  | run (i : Nat) (f : Faults) (t : Task) :
      m.tasks[i]? = some t ->
      SysStepped c u m (SysEvent.run i f)
        { node := (t.run c f m.node).1, tasks := m.tasks.set i (t.run c f m.node).2 }
  | sweepAuthCache :
      SysStepped c u m SysEvent.sweepAuthCache { m with node := m.node.sweepAuthCache }
  | sweepUserCache :
      SysStepped c u m SysEvent.sweepUserCache { m with node := m.node.sweepUserCache }
  | tick (d : Nat) : SysStepped c u m (SysEvent.tick d) { m with node := m.node.tick d }

section System

variable {c : Crypto} {u : String} {held : UserRecord -> Prop} {m n : Sys} {e : SysEvent}

theorem sysStepped_of_step (hstep : m.step c u e = some n) : SysStepped c u m e n := by
  cases e with
  | spawn ask =>
      simp only [Sys.step, Option.ite_none_right_eq_some, Option.some.injEq] at hstep
      rw [← hstep.right]
      exact SysStepped.spawn ask hstep.left.left hstep.left.right
  | run i f =>
      cases ht : m.tasks[i]? with
      | none => simp [Sys.step, ht] at hstep
      | some t =>
          simp only [Sys.step, ht, Option.some.injEq] at hstep
          rw [← hstep]
          exact SysStepped.run i f t ht
  | sweepAuthCache =>
      rw [← Option.some.inj hstep]
      exact SysStepped.sweepAuthCache
  | sweepUserCache =>
      rw [← Option.some.inj hstep]
      exact SysStepped.sweepUserCache
  | tick d =>
      rw [← Option.some.inj hstep]
      exact SysStepped.tick d

/-- All tasks are about the user, and authentication is on. -/
structure About (u : String) (m : Sys) : Prop where
  names : forall t, t ∈ m.tasks -> t.username = u
  enabled : m.node.authDisabled = false

theorem Ask.task_username (ask : Ask) : ask.task.username = ask.username := by
  cases ask <;> rfl

/-- Every fresh event has one of the listed effects on the node. -/
theorem sys_effect (h : About u m) (hfresh : FreshStep c m e)
    (hstep : m.step c u e = some n) : exists f, Effect c f u m.node n.node := by
  cases sysStepped_of_step hstep with
  | spawn ask _ _ => exact ⟨noFaults, Effect.none⟩
  | run i f t ht =>
      exact ⟨f, task_effect (h.names t (List.mem_of_getElem? ht)) (hfresh t ht)⟩
  | sweepAuthCache => exact ⟨noFaults, Effect.sweepAuthCache⟩
  | sweepUserCache => exact ⟨noFaults, Effect.sweepUserCache⟩
  | tick d => exact ⟨noFaults, Effect.tick d⟩

theorem about_step (h : About u m) (hfresh : FreshStep c m e)
    (hstep : m.step c u e = some n) : About u n := by
  rcases sys_effect h hfresh hstep with ⟨f, heffect⟩
  refine ⟨?_, ?_⟩
  · cases sysStepped_of_step hstep with
    | spawn ask _ hname =>
        intro t ht
        rcases List.mem_append.mp ht with hold | hnew
        · exact h.names t hold
        · rw [List.mem_singleton.mp hnew, Ask.task_username]
          exact hname
    | run i f t ht =>
        intro t' ht'
        rcases List.mem_or_eq_of_mem_set ht' with hold | hnew
        · exact h.names t' hold
        · rw [hnew, Task.run_username]
          exact h.names t (List.mem_of_getElem? ht)
    | sweepAuthCache => exact h.names
    | sweepUserCache => exact h.names
    | tick d => exact h.names
  · rw [(effect_settings heffect).right]
    exact h.enabled

/-- A task is where it was, unless the event ran it. -/
theorem task_after (hstep : m.step c u e = some n) {i : Nat} {t : Task}
    (ht : m.tasks[i]? = some t) :
    n.tasks[i]? = some t ∨
      exists f, e = SysEvent.run i f ∧ n.node = (t.run c f m.node).1 ∧
        n.tasks[i]? = some (t.run c f m.node).2 := by
  have hlt : i < m.tasks.length := (List.getElem?_eq_some_iff.mp ht).choose
  cases sysStepped_of_step hstep with
  | spawn ask _ _ =>
      left
      show (m.tasks ++ [ask.task])[i]? = some t
      rw [List.getElem?_append_left hlt]
      exact ht
  | run j f t' ht' =>
      by_cases hij : j = i
      · right
        subst hij
        rw [ht] at ht'
        rw [Option.some.inj ht']
        refine ⟨f, rfl, rfl, ?_⟩
        show (m.tasks.set j (t'.run c f m.node).2)[j]? = _
        rw [List.getElem?_set_self hlt]
      · left
        show (m.tasks.set j (t'.run c f m.node).2)[i]? = some t
        rw [List.getElem?_set_ne hij]
        exact ht
  | sweepAuthCache => exact Or.inl ht
  | sweepUserCache => exact Or.inl ht
  | tick d => exact Or.inl ht

/-!
## A deletion on its way
-/

/-- What a deletion has cleaned up by its position. -/
def DeletePhase (c : Crypto) (u : String) (held : UserRecord -> Prop) (s : AppState) :
    ChangePc -> Prop
  | ChangePc.writeDb => False
  | ChangePc.purgeAuthCache => True
  | ChangePc.purgeUserCache => AuthCacheKnown c u held s
  | ChangePc.done _ => AuthCacheKnown c u held s ∧ UserCacheKnown u held s

structure Deleting (c : Crypto) (u : String) (held : UserRecord -> Prop) (i : Nat)
    (ch : Change) (m : Sys) : Prop where
  about : About u m
  verifier : VerifierKnown c u held m.node
  task : exists pc, m.tasks[i]? = some (Task.change ch pc) ∧ DeletePhase c u held m.node pc

theorem deletePhase_effect (hc : c.Laws) {f : Faults} {s t : AppState}
    (hcur : forall r, s.db.users.lookup u = some r -> held r)
    (heffect : Effect c f u s t) {pc : ChangePc} (h : DeletePhase c u held s pc) :
    DeletePhase c u held t pc := by
  cases pc with
  | writeDb => cases h
  | purgeAuthCache => trivial
  | purgeUserCache => exact authCacheKnown_effect hc hcur h heffect
  | done response =>
      exact ⟨authCacheKnown_effect hc hcur h.left heffect,
        userCacheKnown_effect hcur h.right heffect⟩

/-- The next position of a deletion has its own part cleaned up. -/
theorem deletePhase_run (hc : c.Laws) {f : Faults} {s : AppState} {ch : Change}
    (hname : ch.username = u)
    (hcur : forall r, s.db.users.lookup u = some r -> held r) {pc : ChangePc}
    (h : DeletePhase c u held s pc) :
    DeletePhase c u held (pc.run f ch s).1 (pc.run f ch s).2 := by
  have heffect : Effect c f u s (pc.run f ch s).1 := changePc_effect hname pc
  cases pc with
  | writeDb => cases h
  | purgeAuthCache =>
      intro p hhit
      cases hhit
  | purgeUserCache =>
      refine ⟨authCacheKnown_effect hc hcur h heffect, ?_⟩
      intro r hget
      change (s.users.purge ch.username).get s.now u = some r at hget
      rw [hname, TtlCache.get_purge_self] at hget
      cases hget
  | done response => exact h

theorem deleting_step (hc : c.Laws) {i : Nat} {ch : Change} (h : Deleting c u held i ch m)
    (hcur : forall r, m.node.db.users.lookup u = some r -> held r)
    (hfresh : FreshStep c m e) (hstep : m.step c u e = some n) :
    Deleting c u held i ch n := by
  rcases sys_effect h.about hfresh hstep with ⟨f, heffect⟩
  rcases h.task with ⟨pc, htask, hphase⟩
  have hname : ch.username = u := h.about.names _ (List.mem_of_getElem? htask)
  refine ⟨about_step h.about hfresh hstep, verifierKnown_effect hc hcur h.verifier heffect, ?_⟩
  rcases task_after hstep htask with hsame | hran
  · exact ⟨pc, hsame, deletePhase_effect hc hcur heffect hphase⟩
  · rcases hran with ⟨f', _, hnode, htask'⟩
    refine ⟨_, htask', ?_⟩
    rw [hnode]
    exact deletePhase_run hc hname hcur hphase

/-- The write of a deletion leaves no verifier, and no copies if it found no row. -/
theorem deleting_of_write {i : Nat} {f : Faults} {ch : Change} (habout : About u m)
    (hdelete : ch.isDelete = true) (hok : f Call.deleteUser = false)
    (htask : m.tasks[i]? = some (Task.change ch ChangePc.writeDb))
    (hfresh : FreshStep c m (SysEvent.run i f))
    (hstep : m.step c u (SysEvent.run i f) = some n) : Deleting c u held i ch n := by
  have habout' := about_step habout hfresh hstep
  have hname : ch.username = u := habout.names _ (List.mem_of_getElem? htask)
  have hfresh' := hfresh _ htask
  have hlt : i < m.tasks.length := (List.getElem?_eq_some_iff.mp htask).choose
  cases sysStepped_of_step hstep with
  | run i f t ht =>
      rw [htask] at ht
      cases ht
      have hcell : (m.tasks.set i (Task.run c f m.node (Task.change ch ChangePc.writeDb)).2)[i]? =
          some (Task.change ch (ch.write f m.node).2) := by
        rw [List.getElem?_set_self hlt]
        rfl
      have hnode : (Task.run c f m.node (Task.change ch ChangePc.writeDb)).1 =
          (ch.write f m.node).1 := rfl
      cases ch with
      | deleteUser v =>
          change v = u at hname
          subst hname
          have hwrite : (Change.deleteUser v).write f m.node =
              ({ m.node with db := (m.node.db.deleteUser v).1 },
               if (m.node.db.users.lookup v).isSome then ChangePc.purgeAuthCache
               else ChangePc.done
                { status := 404, body := Body.error "user not found" }) := by
            cases hlookup : m.node.db.users.lookup v with
            | none => simp [Change.write, hok, RedbStore.deleteUser, hlookup]
            | some r => simp [Change.write, hok, RedbStore.deleteUser, hlookup]
          refine ⟨habout', ?_, _, hcell, ?_⟩
          · show VerifierKnown c v held (Task.run c f m.node _).1
            rw [hnode, hwrite]
            intro pepper p hv
            exact absurd rfl (verifiers_of_deleteUser hv).left
          · show DeletePhase c v held (Task.run c f m.node _).1 _
            rw [hnode, hwrite]
            cases hlookup : m.node.db.users.lookup v with
            | some r => trivial
            | none =>
                rcases hfresh' hok hlookup with ⟨husers, hauth⟩
                constructor
                · intro p hhit
                  have hmiss := hauth p
                  change m.node.cacheHit c v p = true at hhit
                  rw [hmiss] at hhit
                  cases hhit
                · intro r hget
                  change m.node.users.get m.node.now v = some r at hget
                  rw [husers] at hget
                  cases hget
      | replicate op =>
          cases op with
          | upsert user => cases hdelete
          | delete v =>
              change v = u at hname
              subst hname
              have hwrite : (Change.replicate (ReplOp.delete v)).write f m.node =
                  ({ m.node with db := (m.node.db.deleteUser v).1 },
                   ChangePc.purgeAuthCache) := by
                simp [Change.write, hok]
              refine ⟨habout', ?_, _, hcell, ?_⟩
              · show VerifierKnown c v held (Task.run c f m.node _).1
                rw [hnode, hwrite]
                intro pepper p hv
                exact absurd rfl (verifiers_of_deleteUser hv).left
              · rw [hwrite]
                trivial

/-!
## An authentication after the deletion
-/

/-- What an authentication carries comes from the collected records. -/
def AuthPhase (c : Crypto) (held : UserRecord -> Prop) (acl : AclConfig) (ci : ConnectInfo)
    (p : String) : AuthPc -> Prop
  | AuthPc.readCache => True
  | AuthPc.readDb => True
  | AuthPc.fillCache r => held r
  | AuthPc.readAuthCache r => held r
  | AuthPc.readVerifier r => held r
  | AuthPc.verify r => held r
  | AuthPc.rememberFast r => held r ∧ Known c held p
  | AuthPc.rememberSlow r => held r ∧ Known c held p
  | AuthPc.writeVerifier r => held r ∧ Known c held p
  | AuthPc.done result =>
      forall superuser authInfo, result = AuthResult.allow superuser authInfo ->
        Known c held p ∧
          exists r, held r ∧ superuser = r.superuser ∧
            authInfo = some (buildAuthInfo r acl ci)

structure Checking (c : Crypto) (u : String) (held : UserRecord -> Prop) (acl : AclConfig)
    (j : Nat) (ci : ConnectInfo) (p : String) (m : Sys) : Prop where
  about : About u m
  settings : m.node.acl = acl
  verifier : VerifierKnown c u held m.node
  authCache : AuthCacheKnown c u held m.node
  userCache : UserCacheKnown u held m.node
  task : exists pc, m.tasks[j]? = some (Task.authenticate ci u p pc) ∧
    AuthPhase c held acl ci p pc

theorem known_of_verifierHit {f : Faults} {s : AppState} {p : String}
    (h : VerifierKnown c u held s) (hhit : s.verifierHit c f u p = true) :
    Known c held p := by
  unfold AppState.verifierHit at hhit
  cases hpepper : s.pepper with
  | none => simp [hpepper] at hhit
  | some pepper =>
      cases hv : s.db.verifiers u with
      | none => simp [hpepper, RedbStore.getVerifier, hv] at hhit
      | some v =>
          have hfast : c.verifyFast pepper u p v = true := by
            simp [hpepper, RedbStore.getVerifier, hv] at hhit
            exact hhit.right
          rw [Crypto.verifyFast_iff] at hfast
          exact h pepper p (by rw [hv, hfast])

theorem authPhase_accepted {s : AppState} {acl : AclConfig} {ci : ConnectInfo} {p : String}
    {r : UserRecord} (hacl : s.acl = acl) (hr : held r) (hknown : Known c held p) :
    AuthPhase c held acl ci p (AuthPc.done (accepted s ci r)) := by
  intro superuser authInfo hresult
  rcases AuthResult.allow.inj hresult with ⟨hsuper, hinfo⟩
  refine ⟨hknown, r, hr, hsuper.symm, ?_⟩
  rw [← hinfo, hacl]

theorem authPhase_run (hc : c.Laws) {f : Faults} {s : AppState} {acl : AclConfig}
    {ci : ConnectInfo} {p : String} (henabled : s.authDisabled = false) (hacl : s.acl = acl)
    (hverifier : VerifierKnown c u held s) (hauth : AuthCacheKnown c u held s)
    (husers : UserCacheKnown u held s)
    (hcur : forall r, s.db.users.lookup u = some r -> held r) {pc : AuthPc}
    (h : AuthPhase c held acl ci p pc) :
    AuthPhase c held acl ci p (pc.run c f ci u p s).2 := by
  cases pc with
  | readCache =>
      unfold AuthPc.run
      rw [henabled]
      simp only [Bool.false_eq_true, if_false]
      cases hget : s.users.get s.now u with
      | none => trivial
      | some r => exact husers r hget
  | readDb =>
      unfold AuthPc.run
      dsimp only
      split
      · intro superuser authInfo hresult
        cases hresult
      · cases hget : s.db.getUser u with
        | none =>
            intro superuser authInfo hresult
            cases hresult
        | some r => exact hcur r hget
  | fillCache r => exact h
  | readAuthCache r =>
      unfold AuthPc.run
      dsimp only
      split
      · rename_i hhit
        exact authPhase_accepted hacl h (hauth p hhit)
      · exact h
  | readVerifier r =>
      unfold AuthPc.run
      dsimp only
      split
      · rename_i hhit
        exact ⟨h, known_of_verifierHit hverifier hhit⟩
      · exact h
  | rememberFast r => exact authPhase_accepted hacl h.left h.right
  | verify r =>
      unfold AuthPc.run
      dsimp only
      split
      · rename_i hverify
        simp only [Bool.and_eq_true] at hverify
        exact ⟨h, r, h, hc.verify_made _ _ hverify.right⟩
      · intro superuser authInfo hresult
        cases hresult
  | rememberSlow r => exact h
  | writeVerifier r => exact authPhase_accepted hacl h.left h.right
  | done result => exact h

theorem checking_step (hc : c.Laws) {acl : AclConfig} {j : Nat} {ci : ConnectInfo}
    {p : String} (h : Checking c u held acl j ci p m)
    (hcur : forall r, m.node.db.users.lookup u = some r -> held r)
    (hfresh : FreshStep c m e) (hstep : m.step c u e = some n) :
    Checking c u held acl j ci p n := by
  rcases sys_effect h.about hfresh hstep with ⟨f, heffect⟩
  rcases h.task with ⟨pc, htask, hphase⟩
  constructor
  · exact about_step h.about hfresh hstep
  · rw [(effect_settings heffect).left]
    exact h.settings
  · exact verifierKnown_effect hc hcur h.verifier heffect
  · exact authCacheKnown_effect hc hcur h.authCache heffect
  · exact userCacheKnown_effect hcur h.userCache heffect
  · rcases task_after hstep htask with hsame | hran
    · exact ⟨pc, hsame, hphase⟩
    · rcases hran with ⟨f', _, _, htask'⟩
      exact ⟨_, htask', authPhase_run hc h.about.enabled h.settings h.verifier h.authCache
        h.userCache hcur hphase⟩

end System

/-!
## Runs
-/

/-- The record of the user in the table, if any. -/
def Sys.record (u : String) (m : Sys) : List UserRecord :=
  (m.node.db.users.lookup u).toList

/-- The records of the user that the table held along an execution. -/
def heldAlong (c : Crypto) (u : String) (m : Sys) (es : List SysEvent) : List UserRecord :=
  along (Sys.step c u) (Sys.record u) m es

section Runs

variable {c : Crypto} {u : String} {m n : Sys} {es : List SysEvent}

theorem mem_record {r : UserRecord} :
    r ∈ m.record u <-> m.node.db.users.lookup u = some r := by
  unfold Sys.record
  rw [Option.mem_toList]

theorem about_run {settings : AppState.Settings} {db : RedbStore} {now : Nat}
    (hrun : Run (Sys.step c u) (FreshStep c) (Sys.start settings db now) es m) :
    About u m := by
  apply hrun.invariant
  · refine ⟨?_, rfl⟩
    intro t ht
    cases ht
  · intro m e n hm hfresh hstep
    exact about_step hm hfresh hstep

theorem deleting_run (hc : c.Laws) {held : UserRecord -> Prop} {i : Nat} {ch : Change}
    (hrun : Run (Sys.step c u) (FreshStep c) m es n)
    (hheld : forall r, r ∈ heldAlong c u m es -> held r)
    (h : Deleting c u held i ch m) : Deleting c u held i ch n := by
  apply hrun.invariant_along hheld h
  intro m e n hm hseen hfresh hstep
  exact deleting_step hc hm (fun r hr => hseen r (mem_record.mpr hr)) hfresh hstep

theorem checking_run (hc : c.Laws) {held : UserRecord -> Prop} {acl : AclConfig} {j : Nat}
    {ci : ConnectInfo} {p : String} (hrun : Run (Sys.step c u) (FreshStep c) m es n)
    (hheld : forall r, r ∈ heldAlong c u m es -> held r)
    (h : Checking c u held acl j ci p m) : Checking c u held acl j ci p n := by
  apply hrun.invariant_along hheld h
  intro m e n hm hseen hfresh hstep
  exact checking_step hc hm (fun r hr => hseen r (mem_record.mpr hr)) hfresh hstep

/-- An authentication that starts when the copies are known is checked against them. -/
theorem checking_of_spawn {held : UserRecord -> Prop} {i : Nat} {ch : Change}
    {response : Response} {ci : ConnectInfo} {p : String}
    (h : Deleting c u held i ch m)
    (hdone : m.tasks[i]? = some (Task.change ch (ChangePc.done response)))
    (hstep : m.step c u (SysEvent.spawn (Ask.authenticate ci u p)) = some n) :
    Checking c u held m.node.acl m.tasks.length ci p n := by
  rcases h.task with ⟨pc, htask, hphase⟩
  rw [hdone] at htask
  cases htask
  have hfresh : FreshStep c m (SysEvent.spawn (Ask.authenticate ci u p)) := trivial
  have habout := about_step h.about hfresh hstep
  cases sysStepped_of_step hstep with
  | spawn ask _ _ =>
      refine ⟨habout, rfl, h.verifier, hphase.left, hphase.right, AuthPc.readCache, ?_, trivial⟩
      show (m.tasks ++ [Task.authenticate ci u p AuthPc.readCache])[m.tasks.length]? = _
      simp

/--
An authentication that ran after a deletion returned: the state after the
deletion's write, the events since, the last state and the answer.
-/
inductive AskedAfterDelete (c : Crypto) (u : String) (meets : Sys -> SysEvent -> Prop)
    (initial : Sys) (ci : ConnectInfo) (p : String) :
    Sys -> List SysEvent -> Sys -> AuthResult -> Prop where
  | intro {before written returned started ended : Sys} {pre mid post : List SysEvent}
      {i : Nat} {f : Faults} {ch : Change} {response : Response} {result : AuthResult} :
      Run (Sys.step c u) meets initial pre before ->
      before.tasks[i]? = some (Task.change ch ChangePc.writeDb) ->
      ch.isDelete = true ->
      f Call.deleteUser = false ->
      meets before (SysEvent.run i f) ->
      before.step c u (SysEvent.run i f) = some written ->
      Run (Sys.step c u) meets written mid returned ->
      returned.tasks[i]? = some (Task.change ch (ChangePc.done response)) ->
      returned.step c u (SysEvent.spawn (Ask.authenticate ci u p)) = some started ->
      Run (Sys.step c u) meets started post ended ->
      ended.tasks[returned.tasks.length]? =
        some (Task.authenticate ci u p (AuthPc.done result)) ->
      AskedAfterDelete c u meets initial ci p written
        (mid ++ SysEvent.spawn (Ask.authenticate ci u p) :: post) ended result

/--
The answer is a denial as long as the user has not been written again, and for
every password that no record written since was made from; an acceptance takes
its flag and rules from a record written since.
-/
def Revoked (c : Crypto) (ci : ConnectInfo) (p : String) (acl : AclConfig)
    (since : List UserRecord) (result : AuthResult) : Prop :=
  (since = [] -> forall superuser authInfo,
      result ≠ AuthResult.allow superuser authInfo) ∧
    ((forall r, r ∈ since -> ¬ c.MadeFrom r.passwordHash p) -> forall superuser authInfo,
      result ≠ AuthResult.allow superuser authInfo) ∧
    forall superuser authInfo, result = AuthResult.allow superuser authInfo ->
      exists r, r ∈ since ∧ superuser = r.superuser ∧
        authInfo = some (buildAuthInfo r acl ci)

theorem revoked_of_phase {ci : ConnectInfo} {p : String} {acl : AclConfig}
    {since : List UserRecord} {result : AuthResult}
    (hphase : AuthPhase c (fun r => r ∈ since) acl ci p (AuthPc.done result)) :
    Revoked c ci p acl since result := by
  refine ⟨?_, ?_, ?_⟩
  · intro hempty superuser authInfo hallow
    rcases (hphase superuser authInfo hallow).left with ⟨r, hr, _⟩
    rw [hempty] at hr
    cases hr
  · intro hother superuser authInfo hallow
    rcases (hphase superuser authInfo hallow).left with ⟨r, hr, hmade⟩
    exact hother r hr hmade
  · intro superuser authInfo hallow
    exact (hphase superuser authInfo hallow).right

/-- In a run without late writes a deletion that has returned is final. -/
theorem revocation (hc : c.Laws) {settings : AppState.Settings} {db : RedbStore} {now : Nat}
    {ci : ConnectInfo} {p : String} {written ended : Sys} {since : List SysEvent}
    {result : AuthResult}
    (hasked : AskedAfterDelete c u (FreshStep c) (Sys.start settings db now) ci p
      written since ended result) :
    Revoked c ci p ended.node.acl (heldAlong c u written since) result := by
  cases hasked with
  | intro hbefore hchange hdelete hok hfresh hwrite hmid hreturned hspawn hpost hresult =>
      rename_i before returned started pre mid post i f ch response
      have hquiet : FreshStep c returned
          (SysEvent.spawn (Ask.authenticate ci u p)) := trivial
      have hstarted := hmid.snoc hquiet hspawn
      have hdeleting := deleting_run hc hmid
        (fun r hr => hmid.mem_along_append_left
          (SysEvent.spawn (Ask.authenticate ci u p) :: post) hr)
        (deleting_of_write (about_run hbefore) hdelete hok hchange hfresh hwrite)
      have hpostHeld : forall r, r ∈ heldAlong c u started post ->
          r ∈ heldAlong c u written
            (mid ++ SysEvent.spawn (Ask.authenticate ci u p) :: post) := by
        intro r hr
        have hmem := hstarted.mem_along_append_right hr
        rw [List.append_assoc] at hmem
        exact hmem
      have hchecking := checking_run hc hpost hpostHeld
        (checking_of_spawn hdeleting hreturned hspawn)
      rcases hchecking.task with ⟨pc, htask, hphase⟩
      rw [hresult] at htask
      cases htask
      rw [hchecking.settings]
      exact revoked_of_phase hphase

end Runs

/-!
## A late write

An authentication has read the row when a deletion runs to its end, and then
fills the user cache.  The next authentication is accepted although the table
is empty.
-/

namespace Sample

def stored : RedbStore :=
  RedbStore.empty.upsertUser (aliceRecord "one").toNewUser

def busy : Sys :=
  Sys.start settings stored 0

def ask (password : String) : SysEvent :=
  SysEvent.spawn (Ask.authenticate (login "alice" password) "alice" password)

def go (i : Nat) : SysEvent :=
  SysEvent.run i noFaults

def delete : SysEvent :=
  SysEvent.spawn (Ask.change (Change.deleteUser "alice"))

/-- Run a deletion and an authentication in the given order and check the outcome. -/
def plays (meets : Sys -> SysEvent -> Prop) [forall m e, Decidable (meets m e)]
    (pre mid post : List SysEvent) (i : Nat) (password : String) (since : List UserRecord)
    (result : AuthResult) : Bool :=
  let step := Sys.step Crypto.transparent "alice"
  let deletion := Task.change (Change.deleteUser "alice")
  let login₁ := Task.authenticate (login "alice" password) "alice" password
  match exec? step meets busy pre with
  | none => false
  | some before =>
      match step before (go i) with
      | none => false
      | some written =>
          match exec? step meets written mid with
          | none => false
          | some returned =>
              match step returned (ask password) with
              | none => false
              | some started =>
                  match exec? step meets started post with
                  | none => false
                  | some ended =>
                      decide (before.tasks[i]? = some (deletion ChangePc.writeDb) ∧
                        meets before (go i) ∧
                        returned.tasks[i]? =
                          some (deletion (ChangePc.done Response.noContent)) ∧
                        ended.tasks[returned.tasks.length]? =
                          some (login₁ (AuthPc.done result)) ∧
                        heldAlong Crypto.transparent "alice" written
                          (mid ++ ask password :: post) = since)

theorem asked_of_plays {meets : Sys -> SysEvent -> Prop} [forall m e, Decidable (meets m e)]
    {pre mid post : List SysEvent} {i : Nat} {password : String} {since : List UserRecord}
    {result : AuthResult} (hplays : plays meets pre mid post i password since result = true) :
    exists written ended,
      AskedAfterDelete Crypto.transparent "alice" meets busy (login "alice" password) password
        written (mid ++ ask password :: post) ended result ∧
      heldAlong Crypto.transparent "alice" written (mid ++ ask password :: post) = since := by
  unfold plays at hplays
  dsimp only at hplays
  cases hpre : exec? (Sys.step Crypto.transparent "alice") meets busy pre with
  | none => simp [hpre] at hplays
  | some before =>
      rw [hpre] at hplays
      dsimp only at hplays
      cases hwrite : Sys.step Crypto.transparent "alice" before (go i) with
      | none => simp [hwrite] at hplays
      | some written =>
          rw [hwrite] at hplays
          dsimp only at hplays
          cases hmid : exec? (Sys.step Crypto.transparent "alice") meets written mid with
          | none => simp [hmid] at hplays
          | some returned =>
              rw [hmid] at hplays
              dsimp only at hplays
              cases hspawn : Sys.step Crypto.transparent "alice" returned (ask password) with
              | none => simp [hspawn] at hplays
              | some started =>
                  rw [hspawn] at hplays
                  dsimp only at hplays
                  cases hpost : exec? (Sys.step Crypto.transparent "alice") meets started
                      post with
                  | none => simp [hpost] at hplays
                  | some ended =>
                      rw [hpost] at hplays
                      rcases of_decide_eq_true hplays with
                        ⟨htask, hmeets, hreturned, hended, hsince⟩
                      exact ⟨written, ended, AskedAfterDelete.intro (Run.of_exec? hpre) htask
                        rfl rfl hmeets hwrite (Run.of_exec? hmid) hreturned hspawn
                        (Run.of_exec? hpost) hended, hsince⟩

/-- The task writes no copy, and a deletion finds the row. -/
def quietTask (s : AppState) : Task -> Bool
  | Task.change (Change.deleteUser u) ChangePc.writeDb => (s.db.users.lookup u).isSome
  | Task.change _ _ => true
  | Task.authenticate _ _ _ AuthPc.readCache => true
  | Task.authenticate _ _ _ AuthPc.readDb => true
  | _ => false

def Quiet (m : Sys) : SysEvent -> Prop
  | SysEvent.run i _ => forall t, t ∈ m.tasks[i]? -> quietTask m.node t = true
  | _ => True

instance (m : Sys) : (e : SysEvent) -> Decidable (Quiet m e)
  | SysEvent.spawn _ => inferInstanceAs (Decidable True)
  | SysEvent.run i _ =>
      inferInstanceAs (Decidable (forall t, t ∈ m.tasks[i]? -> quietTask m.node t = true))
  | SysEvent.sweepAuthCache => inferInstanceAs (Decidable True)
  | SysEvent.sweepUserCache => inferInstanceAs (Decidable True)
  | SysEvent.tick _ => inferInstanceAs (Decidable True)

theorem freshTask_of_quiet {c : Crypto} {f : Faults} {s : AppState} {t : Task}
    (hquiet : quietTask s t = true) : FreshTask c f s t := by
  cases t with
  | createUser req salt pc => cases hquiet
  | authenticate ci u p pc =>
      cases pc with
      | readCache => trivial
      | readDb => trivial
      | _ => cases hquiet
  | change ch pc =>
      cases ch with
      | replicate op => cases pc <;> trivial
      | deleteUser u =>
          cases pc with
          | writeDb =>
              intro _ hnone
              change (s.db.users.lookup u).isSome = true at hquiet
              rw [hnone] at hquiet
              cases hquiet
          | _ => trivial

theorem freshStep_of_quiet (c : Crypto) (m : Sys) (e : SysEvent) (hquiet : Quiet m e) :
    FreshStep c m e := by
  cases e with
  | run i f => exact fun t ht => freshTask_of_quiet (hquiet t ht)
  | spawn ask => trivial
  | sweepAuthCache => trivial
  | sweepUserCache => trivial
  | tick d => trivial

end Sample

theorem asked_mono {c : Crypto} {u : String} {meets meets' : Sys -> SysEvent -> Prop}
    {initial written ended : Sys} {ci : ConnectInfo} {p : String} {es : List SysEvent}
    {result : AuthResult} (hmono : forall m e, meets m e -> meets' m e)
    (hasked : AskedAfterDelete c u meets initial ci p written es ended result) :
    AskedAfterDelete c u meets' initial ci p written es ended result := by
  cases hasked with
  | intro hbefore hchange hdelete hok hfresh hwrite hmid hreturned hspawn hpost hresult =>
      exact AskedAfterDelete.intro (hbefore.mono hmono) hchange hdelete hok (hmono _ _ hfresh)
        hwrite (hmid.mono hmono) hreturned hspawn (hpost.mono hmono) hresult

open Sample

/-- A deletion runs to its end and the next authentication is denied. -/
theorem revocation_quiet :
    exists written ended,
      AskedAfterDelete Crypto.transparent "alice" (FreshStep Crypto.transparent) busy
        (login "alice" "one") "one" written ([go 0, go 0] ++ ask "one" :: [go 1, go 1]) ended
        AuthResult.badUsernameOrPassword ∧
      Revoked Crypto.transparent (login "alice" "one") "one" ended.node.acl
        (heldAlong Crypto.transparent "alice" written
          ([go 0, go 0] ++ ask "one" :: [go 1, go 1]))
        AuthResult.badUsernameOrPassword := by
  have hplays : plays Quiet [delete] [go 0, go 0] [go 1, go 1] 0 "one" []
      AuthResult.badUsernameOrPassword = true := by
    decide +kernel
  rcases asked_of_plays hplays with ⟨written, ended, hasked, _⟩
  have hfresh := asked_mono (freshStep_of_quiet Crypto.transparent) hasked
  exact ⟨written, ended, hfresh, revocation Crypto.transparent_laws hfresh⟩

/-- The row read before the deletion is cached after it and accepted later. -/
theorem revocation_fails :
    Crypto.transparent.Laws ∧
      exists written ended result,
        AskedAfterDelete Crypto.transparent "alice" Always busy (login "alice" "one") "one"
          written ([go 1, go 1, go 0] ++ ask "one" :: [go 2, go 2, go 2, go 2, go 2, go 2])
          ended result ∧
        heldAlong Crypto.transparent "alice" written
          ([go 1, go 1, go 0] ++ ask "one" :: [go 2, go 2, go 2, go 2, go 2, go 2]) = [] ∧
        ¬ Revoked Crypto.transparent (login "alice" "one") "one" ended.node.acl
          (heldAlong Crypto.transparent "alice" written
            ([go 1, go 1, go 0] ++ ask "one" :: [go 2, go 2, go 2, go 2, go 2, go 2]))
          result := by
  have hplays : plays Always [ask "one", go 0, go 0, delete] [go 1, go 1, go 0]
      [go 2, go 2, go 2, go 2, go 2, go 2] 1 "one" []
      (AuthResult.allow false (some (buildAuthInfo (aliceRecord "one") AclConfig.default
        (login "alice" "one")))) = true := by
    decide +kernel
  rcases asked_of_plays hplays with ⟨written, ended, hasked, hsince⟩
  refine ⟨Crypto.transparent_laws, written, ended, _, hasked, hsince, ?_⟩
  intro hrevoked
  exact hrevoked.left hsince _ _ rfl

end Api
end Ciqada
