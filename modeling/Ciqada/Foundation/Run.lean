import Mathlib.Data.List.Basic

/-!
# Runs of a step function

A system is given by a step function that either produces the next state or
says that the event is not enabled.  A run is a list of events taken one after
another, each of which also meets a condition on the state before it.  The
trivial condition gives all runs; a stronger one singles out the runs whose
steps all behave in a stated way.
-/

namespace Ciqada
namespace Foundation

universe u v

variable {State : Type u} {Event : Type v}

/-- Runs whose events are enabled and meet a condition where they are taken. -/
inductive Run (step : State -> Event -> Option State)
    (meets : State -> Event -> Prop) : State -> List Event -> State -> Prop where
  | nil (s : State) : Run step meets s [] s
  | cons {s t r : State} {e : Event} {es : List Event} :
      meets s e ->
      step s e = some t ->
      Run step meets t es r ->
      Run step meets s (e :: es) r

/-- The condition that every event meets. -/
def Always : State -> Event -> Prop :=
  fun _ _ => True

instance (s : State) (e : Event) : Decidable (Always s e) :=
  isTrue trivial

/--
Execute a list of events, failing at the first one that is not enabled or does
not meet the condition.
-/
def exec? (step : State -> Event -> Option State) (meets : State -> Event -> Prop)
    [forall s e, Decidable (meets s e)] : State -> List Event -> Option State
  | s, [] => some s
  | s, e :: es =>
      if meets s e then
        match step s e with
        | none => none
        | some t => exec? step meets t es
      else none

/-- Every state that the events lead through, from the first to the last, has a property. -/
def Throughout (step : State -> Event -> Option State) (P : State -> Prop) (s : State)
    (es : List Event) : Prop :=
  forall pre post t, es = pre ++ post -> Run step Always s pre t -> P t

/-- What a view shows in the states along an execution, the last one included. -/
def along {View : Type*} (step : State -> Event -> Option State) (view : State -> List View) :
    State -> List Event -> List View
  | s, [] => view s
  | s, e :: es =>
      view s ++
        match step s e with
        | none => []
        | some t => along step view t es

/-- What a view shows of the events along an execution, each seen in the state before it. -/
def collect {View : Type*} (step : State -> Event -> Option State)
    (view : State -> Event -> List View) : State -> List Event -> List View
  | _, [] => []
  | s, e :: es =>
      view s e ++
        match step s e with
        | none => []
        | some t => collect step view t es

theorem collect_cons {View : Type*} {step : State -> Event -> Option State}
    {view : State -> Event -> List View} {s t : State} {e : Event} (es : List Event)
    (hstep : step s e = some t) :
    collect step view s (e :: es) = view s e ++ collect step view t es := by
  show view s e ++ _ = _
  rw [hstep]

section Throughout

variable {step : State -> Event -> Option State} {P : State -> Prop} {s t : State}
variable {e : Event} {es : List Event}

theorem Throughout.head (h : Throughout step P s es) : P s :=
  h [] es s rfl (Run.nil s)

theorem Throughout.tail (h : Throughout step P s (e :: es)) (hstep : step s e = some t) :
    Throughout step P t es := by
  intro pre post u heq hpre
  exact h (e :: pre) post u (congrArg (List.cons e) heq) (Run.cons trivial hstep hpre)

theorem throughout_nil : Throughout step P s [] <-> P s := by
  constructor
  · exact Throughout.head
  · intro h pre post t heq hpre
    rw [(List.append_eq_nil_iff.mp heq.symm).left] at hpre
    cases hpre
    exact h

theorem throughout_cons (hstep : step s e = some t) :
    Throughout step P s (e :: es) <-> P s ∧ Throughout step P t es := by
  constructor
  · intro h
    exact ⟨h.head, h.tail hstep⟩
  · rintro ⟨hhead, htail⟩ pre post u heq hpre
    cases hpre with
    | nil => exact hhead
    | cons _ hfirst hrest =>
        rcases List.cons.inj heq with ⟨rfl, htl⟩
        rw [hstep] at hfirst
        rw [← Option.some.inj hfirst] at hrest
        exact htail _ post u htl hrest

end Throughout

namespace Run

variable {step : State -> Event -> Option State}
variable {meets : State -> Event -> Prop}

theorem mono {meets' : State -> Event -> Prop} {s t : State} {es : List Event}
    (hrun : Run step meets s es t) (hmono : forall s e, meets s e -> meets' s e) :
    Run step meets' s es t := by
  induction hrun with
  | nil s => exact Run.nil s
  | cons hmeets hstep _htail ih => exact Run.cons (hmono _ _ hmeets) hstep ih

/-- As `mono`, where the condition is used only where the event is enabled. -/
theorem mono_enabled {meets' : State -> Event -> Prop} {s t : State} {es : List Event}
    (hrun : Run step meets s es t)
    (hmono : forall s e r, step s e = some r -> meets s e -> meets' s e) :
    Run step meets' s es t := by
  induction hrun with
  | nil s => exact Run.nil s
  | cons hmeets hstep _htail ih => exact Run.cons (hmono _ _ _ hstep hmeets) hstep ih

theorem append {s t r : State} {es fs : List Event}
    (hes : Run step meets s es t) (hfs : Run step meets t fs r) :
    Run step meets s (es ++ fs) r := by
  induction hes with
  | nil s => exact hfs
  | cons hmeets hstep _htail ih => exact Run.cons hmeets hstep (ih hfs)

theorem of_append {s r : State} {es fs : List Event}
    (hrun : Run step meets s (es ++ fs) r) :
    exists t, Run step meets s es t ∧ Run step meets t fs r := by
  induction es generalizing s with
  | nil => exact ⟨s, Run.nil s, hrun⟩
  | cons e es ih =>
      cases hrun with
      | cons hmeets hstep htail =>
          rcases ih htail with ⟨t, hes, hfs⟩
          exact ⟨t, Run.cons hmeets hstep hes, hfs⟩

theorem snoc {s t r : State} {es : List Event} {e : Event}
    (hes : Run step meets s es t) (hmeets : meets t e) (hstep : step t e = some r) :
    Run step meets s (es ++ [e]) r :=
  hes.append (Run.cons hmeets hstep (Run.nil r))

/-- The events determine the states of a run. -/
theorem unique {meets' : State -> Event -> Prop} {s t t' : State} {es : List Event}
    (hrun : Run step meets s es t) (hrun' : Run step meets' s es t') : t = t' := by
  induction hrun with
  | nil s =>
      cases hrun'
      rfl
  | cons _ hstep _ ih =>
      cases hrun' with
      | cons _ hstep' htail' =>
          rw [hstep] at hstep'
          rw [← Option.some.inj hstep'] at htail'
          exact ih htail'

/-- The events of a run meet a condition one by one exactly when the run does. -/
theorem meets_iff {s t : State} {es : List Event} (hrun : Run step Always s es t) :
    (forall pre e post u, es = pre ++ e :: post -> Run step Always s pre u -> meets u e) <->
      Run step meets s es t := by
  constructor
  · intro hmeets
    induction hrun with
    | nil s => exact Run.nil s
    | @cons s r t e es _ hstep _ ih =>
        refine Run.cons (hmeets [] e es s rfl (Run.nil s)) hstep (ih ?_)
        intro pre e' post u heq hpre
        exact hmeets (e :: pre) e' post u (congrArg (List.cons e) heq)
          (Run.cons trivial hstep hpre)
  · intro hall pre e post u heq hpre
    rw [heq] at hall
    rcases hall.of_append with ⟨u', hpre', hrest⟩
    rw [hpre.unique hpre']
    cases hrest with
    | cons hmeets _ _ => exact hmeets

theorem collect_append {View : Type*} {view : State -> Event -> List View} {s t : State}
    {es : List Event} (hrun : Run step meets s es t) (fs : List Event) :
    collect step view s (es ++ fs) = collect step view s es ++ collect step view t fs := by
  induction hrun with
  | nil s => rfl
  | cons _hmeets hstep _htail ih =>
      rw [List.cons_append, collect_cons _ hstep, collect_cons _ hstep, ih, List.append_assoc]

/--
A property that every step meeting the condition preserves is carried along
every run.
-/
theorem invariant {Inv : State -> Prop} {s t : State} {es : List Event}
    (hrun : Run step meets s es t) (hinit : Inv s)
    (hpres : forall s e t, Inv s -> meets s e -> step s e = some t -> Inv t) :
    Inv t := by
  induction hrun with
  | nil s => exact hinit
  | cons hmeets hstep _htail ih => exact ih (hpres _ _ _ hinit hmeets hstep)

/--
Two systems that take the same events keep a relation between their states when
each step does.
-/
theorem simulates {Other : Type*} {other : Other -> Event -> Other}
    {Rel : State -> Other -> Prop} {s t : State} {a : Other} {es : List Event}
    (hrun : Run step meets s es t) (hinit : Rel s a)
    (hpres : forall s e t a, Rel s a -> meets s e -> step s e = some t ->
      Rel t (other a e)) :
    Rel t (es.foldl other a) := by
  induction hrun generalizing a with
  | nil s => exact hinit
  | cons hmeets hstep _htail ih =>
      exact ih (hpres _ _ _ _ hinit hmeets hstep)

/-- As `invariant`, where a step may use a property of all states along the way. -/
theorem invariant_throughout {Inv P : State -> Prop} {s t : State} {es : List Event}
    (hrun : Run step meets s es t) (hall : Throughout step P s es) (hinit : Inv s)
    (hpres : forall s e t, Inv s -> P t -> meets s e -> step s e = some t -> Inv t) :
    Inv t := by
  induction hrun with
  | nil s => exact hinit
  | @cons s r t e es hmeets hstep _ ih =>
      have htail := hall.tail hstep
      exact ih htail (hpres s e r hinit htail.head hmeets hstep)

theorem mem_along_append_left {View : Type*} {view : State -> List View} {s t : State}
    {es : List Event} (hrun : Run step meets s es t) (fs : List Event) {x : View}
    (hx : x ∈ along step view s es) : x ∈ along step view s (es ++ fs) := by
  induction hrun with
  | nil s =>
      cases fs with
      | nil => exact hx
      | cons e fs => exact List.mem_append_left _ hx
  | cons _hmeets hstep _htail ih =>
      rw [List.cons_append]
      unfold along at hx ⊢
      rw [hstep] at hx ⊢
      rcases List.mem_append.mp hx with hhead | htail
      · exact List.mem_append_left _ hhead
      · exact List.mem_append_right _ (ih htail)

theorem mem_along_append_right {View : Type*} {view : State -> List View} {s t : State}
    {es : List Event} (hrun : Run step meets s es t) {fs : List Event} {x : View}
    (hx : x ∈ along step view t fs) : x ∈ along step view s (es ++ fs) := by
  induction hrun with
  | nil s => exact hx
  | cons _hmeets hstep _htail ih =>
      rw [List.cons_append]
      unfold along
      rw [hstep]
      exact List.mem_append_right _ (ih hx)

/-- As `invariant`, where a step may use what was seen along the way. -/
theorem invariant_along {View : Type*} {view : State -> List View} {Seen : View -> Prop}
    {Inv : State -> Prop} {s t : State} {es : List Event} (hrun : Run step meets s es t)
    (hseen : forall x, x ∈ along step view s es -> Seen x) (hinit : Inv s)
    (hpres : forall s e t, Inv s -> (forall x, x ∈ view s -> Seen x) -> meets s e ->
      step s e = some t -> Inv t) :
    Inv t := by
  induction hrun with
  | nil s => exact hinit
  | cons hmeets hstep _htail ih =>
      unfold along at hseen
      rw [hstep] at hseen
      apply ih
      · intro x hx
        exact hseen x (List.mem_append_right _ hx)
      · exact hpres _ _ _ hinit (fun x hx => hseen x (List.mem_append_left _ hx)) hmeets hstep

theorem of_exec? [forall s e, Decidable (meets s e)] {s t : State} {es : List Event}
    (hexec : exec? step meets s es = some t) : Run step meets s es t := by
  induction es generalizing s with
  | nil =>
      have hst : s = t := by simpa [exec?] using hexec
      rw [hst]
      exact Run.nil t
  | cons e es ih =>
      unfold exec? at hexec
      by_cases hmeets : meets s e
      · rw [if_pos hmeets] at hexec
        cases hstep : step s e with
        | none => simp [hstep] at hexec
        | some r =>
            rw [hstep] at hexec
            exact Run.cons hmeets hstep (ih hexec)
      · rw [if_neg hmeets] at hexec
        cases hexec

/-- An execution that gets through is a run to the state it computes. -/
theorem of_isSome [forall s e, Decidable (meets s e)] {s : State} {es : List Event}
    (h : (exec? step meets s es).isSome = true) :
    Run step meets s es ((exec? step meets s es).get h) :=
  of_exec? (Option.some_get h).symm

end Run

end Foundation
end Ciqada
