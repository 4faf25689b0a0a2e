import Ciqada.Broker.TreeUpdate

/-!
# The order of the walk

The walk hands out what it finds one by one: at the end of a topic the values of
the node come before those of its multi wildcard, and inside a topic the multi
wildcard comes first.  A topic name has no wildcard levels, so that no filter is
found twice.
-/

namespace Ciqada
namespace Broker
namespace Node

variable {V : Type}

def iter : List Level -> List Level -> Node V -> List (List Level × List V)
  | [], subPath, n =>
      items subPath n.values ++
        ((n.child Level.multiWildcard).elim []
          (fun b => items (subPath ++ [Level.multiWildcard]) b.values))
  | t :: topic, subPath, n =>
      (if subPath.isEmpty && t.isMetadata && ((n.child Level.multiWildcard).isSome ||
          (n.child Level.singleWildcard).isSome) then []
        else
          ((n.child Level.multiWildcard).elim []
              (fun b => items (subPath ++ [Level.multiWildcard]) b.values)) ++
            ((n.child Level.singleWildcard).elim []
              (fun b => iter topic (subPath ++ [Level.singleWildcard]) b))) ++
        ((n.child t).elim [] (fun b => iter topic (subPath ++ [t]) b))

/-- The first match decides. -/
def isMatch (n : Node V) (topic : List Level) : Bool :=
  (iter topic [] n).head?.isSome

/-- A topic without wildcard levels. -/
def Concrete (topic : List Level) : Prop :=
  forall t, t ∈ topic -> t ≠ Level.singleWildcard ∧ t ≠ Level.multiWildcard

theorem elim_perm {A B : Type} {o : Option A} {g h : A -> List B}
    (hgh : forall a, (g a).Perm (h a)) : (o.elim [] g).Perm (o.elim [] h) := by
  cases o with
  | none => exact List.Perm.refl []
  | some a => exact hgh a

theorem iter_perm (topic subPath : List Level) (n : Node V) :
    (iter topic subPath n).Perm (matched topic subPath n) := by
  induction topic generalizing subPath n with
  | nil => exact List.perm_append_comm
  | cons t topic ih =>
      unfold iter matched
      apply List.Perm.append
      · split
        · exact List.Perm.refl []
        · exact (List.Perm.refl _).append (elim_perm (fun b => ih _ b))
      · exact elim_perm (fun b => ih _ b)

theorem mem_iter {topic path : List Level} {n : Node V} {found : List V} :
    (path, found) ∈ iter topic [] n <->
      exists node, at? path n = some node ∧ found = node.values ∧ node.values ≠ [] ∧
        pathMatches true path topic = true := by
  rw [(iter_perm topic [] n).mem_iff, mem_matched]
  constructor
  · rintro ⟨rest, node, rfl, hat, hfound, hne, hmatch⟩
    exact ⟨node, hat, hfound, hne, hmatch⟩
  · rintro ⟨node, hat, hfound, hne, hmatch⟩
    exact ⟨path, node, rfl, hat, hfound, hne, hmatch⟩

theorem isMatch_iff {n : Node V} {topic : List Level} :
    n.isMatch topic = true <->
      exists path node, at? path n = some node ∧ node.values ≠ [] ∧
        pathMatches true path topic = true := by
  unfold isMatch
  rw [List.isSome_head?]
  constructor
  · intro hne
    rcases List.exists_mem_of_ne_nil _ hne with ⟨⟨path, found⟩, hmem⟩
    rcases mem_iter.mp hmem with ⟨node, hat, _hfound, hne, hmatch⟩
    exact ⟨path, node, hat, hne, hmatch⟩
  · rintro ⟨path, node, hat, hne, hmatch⟩
    exact List.ne_nil_of_mem (mem_iter.mpr ⟨node, hat, rfl, hne, hmatch⟩)

/-!
## No filter twice
-/

theorem items_paths_nodup (subPath : List Level) (values : List V) :
    ((items subPath values).map Prod.fst).Nodup := by
  unfold items
  split
  · exact List.nodup_nil
  · exact List.nodup_singleton subPath

/-- A path found below a branch goes on from the branch. -/
theorem front_of_mem_iter {topic subPath path : List Level} {n : Node V}
    (hmem : path ∈ (iter topic subPath n).map Prod.fst) : subPath <+: path := by
  rcases List.mem_map.mp hmem with ⟨⟨path', found⟩, hitem, rfl⟩
  rw [(iter_perm topic subPath n).mem_iff] at hitem
  rcases mem_matched.mp hitem with ⟨rest, _node, rfl, _⟩
  exact List.prefix_append subPath rest

theorem eq_of_mem_items {subPath path : List Level} {values : List V}
    (hmem : path ∈ (items subPath values).map Prod.fst) : path = subPath := by
  rcases List.mem_map.mp hmem with ⟨⟨path', found⟩, hitem, rfl⟩
  exact (mem_items.mp hitem).left

/-- Two branches of one node have no path in common. -/
theorem level_unique {subPath path : List Level} {level level' : Level}
    (h : subPath ++ [level] <+: path) (h' : subPath ++ [level'] <+: path) : level = level' := by
  have hlen : (subPath ++ [level]).length = (subPath ++ [level']).length := by
    rw [List.length_append, List.length_append]
    rfl
  have heq := (List.prefix_of_prefix_length_le h h' hlen.le).eq_of_length hlen
  exact List.head_eq_of_cons_eq (List.append_cancel_left heq)

theorem mem_elim_paths {o : Option (Node V)} {g : Node V -> List (List Level × List V)}
    {path : List Level} :
    path ∈ (o.elim [] g).map Prod.fst <->
      exists b, o = some b ∧ path ∈ (g b).map Prod.fst := by
  cases o with
  | none => simp
  | some b => simp

theorem elim_nodup {o : Option (Node V)} {g : Node V -> List (List Level × List V)}
    (hg : forall b, ((g b).map Prod.fst).Nodup) : ((o.elim [] g).map Prod.fst).Nodup := by
  cases o with
  | none => exact List.nodup_nil
  | some b => exact hg b

/-- The walk along a topic name finds every filter at most once. -/
theorem iter_nodup {topic : List Level} (htopic : Concrete topic) (subPath : List Level)
    (n : Node V) : ((iter topic subPath n).map Prod.fst).Nodup := by
  induction topic generalizing subPath n with
  | nil =>
      unfold iter
      rw [List.map_append, List.nodup_append']
      refine ⟨items_paths_nodup _ _, elim_nodup (fun b => items_paths_nodup _ _), ?_⟩
      intro path hown hmulti
      rcases mem_elim_paths.mp hmulti with ⟨b, _hb, hitem⟩
      have heq := (eq_of_mem_items hown).symm.trans (eq_of_mem_items hitem)
      exact absurd (congrArg List.length heq) (by simp)
  | cons t topic ih =>
      have hrest : Concrete topic := fun l hl => htopic l (List.mem_cons_of_mem t hl)
      have ht := htopic t List.mem_cons_self
      have hdown : forall (level : Level) {path : List Level} {o : Option (Node V)},
          path ∈ (o.elim [] (fun b => iter topic (subPath ++ [level]) b)).map Prod.fst ->
            subPath ++ [level] <+: path := by
        intro level path o hmem
        rcases mem_elim_paths.mp hmem with ⟨b, _hb, hpath⟩
        exact front_of_mem_iter hpath
      have hmulti : forall {path : List Level} {o : Option (Node V)},
          path ∈ (o.elim [] (fun b => items (subPath ++ [Level.multiWildcard]) b.values)).map
              Prod.fst ->
            subPath ++ [Level.multiWildcard] <+: path := by
        intro path o hmem
        rcases mem_elim_paths.mp hmem with ⟨b, _hb, hpath⟩
        rw [eq_of_mem_items hpath]
      unfold iter
      rw [List.map_append, List.nodup_append']
      refine ⟨?_, elim_nodup (fun b => ih hrest _ b), ?_⟩
      · split
        · exact List.nodup_nil
        · rw [List.map_append, List.nodup_append']
          refine ⟨elim_nodup (fun b => items_paths_nodup _ _),
            elim_nodup (fun b => ih hrest _ b), ?_⟩
          intro path hleft hright
          exact absurd (level_unique (hmulti hleft) (hdown _ hright)) (by simp)
      · intro path hleft hright
        have hprecise := hdown t hright
        split at hleft
        · cases hleft
        · rw [List.map_append] at hleft
          rcases List.mem_append.mp hleft with hm | hs
          · exact ht.right (level_unique hprecise (hmulti hm))
          · exact ht.left (level_unique hprecise (hdown _ hs))

/-- A topic that is itself a wildcard finds the filter of that name twice. -/
example :
    (iter [Level.singleWildcard] [] (insert () [Level.singleWildcard] empty)).map Prod.fst =
      [[Level.singleWildcard], [Level.singleWildcard]] := by
  decide

end Node

end Broker
end Ciqada
