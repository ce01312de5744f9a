/-
  What holds at every level.

  A property of single levels holds at every level that is reached if new levels have it, and if
  handlers and hooks keep it at the level that they work on.  Levels are entered with what they
  inherit, and only the active one is changed, so nothing else needs to be looked at.

  * `Stack.All`: every level has a property; `Level.Kept`: the engine keeps a property of levels;
  * `Shell.all_dispatch`: so dispatching a statement keeps it at every level;
  * `Act.Brings`: what an act brings from outside has the property; `Session.all_act`: then the act
    keeps it at every level.
-/
import NestedShell.Proofs.Session.Acts
import NestedShell.Proofs.Shell.Calls

namespace NestedShell

variable {σ ω : Type}

/-- Every level has the property. -/
def Stack.All (P : Level σ → Prop) (stack : Stack σ) : Prop := ∀ level ∈ stack.levels, P level

theorem Stack.All.onTop {P : Level σ → Prop} {stack : Stack σ} (h : stack.All P)
    {f : Level σ → Level σ} (hf : ∀ level, stack.top? = some level → P level → P (f level)) :
    (stack.onTop f).All P := by
  intro level hlevel
  rw [Stack.onTop] at hlevel
  cases hlevels : stack.levels with
  | nil => simp [hlevels] at hlevel
  | cons top below =>
    rw [All, hlevels, List.forall_mem_cons] at h
    rw [hlevels, List.modifyHead_cons] at hlevel
    rcases List.mem_cons.1 hlevel with rfl | hlevel
    · exact hf top (by rw [top?, hlevels, List.head?_cons]) h.1
    · exact h.2 level hlevel

theorem Stack.All.top {P : Level σ → Prop} {stack : Stack σ} (h : stack.All P) {level : Level σ}
    (htop : stack.top? = some level) : P level := by
  obtain ⟨below, hlevels⟩ := Stack.exists_levels htop
  exact h level (by rw [hlevels]; exact List.mem_cons_self)

variable [CommandSet σ ω]

/-- The engine keeps a property of levels, whatever the variables and the command sets are. -/
structure Level.Kept (P : Level σ → Prop) : Prop where
  /-- a level inherits aliases from one that has the property -/
  inherited : ∀ {parent : Level σ}, P parent → ∀ (commands : σ) (env : Environment) (depth : Nat),
    P (.new commands env parent.aliases depth)
  /-- there is no level to inherit from -/
  fresh : ∀ (commands : σ) (env : Environment) (depth : Nat), P (.new commands env {} depth)
  /-- hooks change the command set and the variables -/
  others : ∀ {level : Level σ}, P level → ∀ (commands : σ) (env : Environment),
    P { level with commands, env }
  /-- a handler works on the desk of the level -/
  handled : ∀ {level : Level σ}, P level → ∀ (s : Shell σ ω) (route : Route) (inv : Invocation),
    let d := ((Shell.handlerOf route inv).run.run (s.desk level)).2
    P { level with commands := d.commands, env := d.env, aliases := d.aliases }

namespace Shell

variable {P : Level σ → Prop} (hP : Level.Kept P) {s : Shell σ ω} (h : s.stack.All P)
include hP h

theorem all_setVariable (name value : String) :
    (s.setVariable name value).stack.All P :=
  h.onTop fun level _ hlevel => hP.others hlevel level.commands _

theorem all_push (commands : σ) : (s.push commands).stack.All P := by
  rw [push]
  cases htop : s.stack.top? with
  | none => exact List.forall_mem_cons.2 ⟨hP.fresh _ _ _, h⟩
  | some parent => exact List.forall_mem_cons.2 ⟨hP.inherited (h.top htop) _ _ _, h⟩

theorem all_pop (value : Option Value) : (s.pop value).2.stack.All P := by
  rw [Stack.All] at h
  rcases hlevels : s.stack.levels with _ | ⟨level, _ | ⟨parent, below⟩⟩
  · rw [pop_nil hlevels]
    exact h
  · obtain ⟨t, hpop, ht⟩ := pop_last hlevels value
    rw [hpop, Stack.All, ht]
    exact fun _ hlevel => absurd hlevel List.not_mem_nil
  · obtain ⟨t, hpop, ht⟩ := pop_nested hlevels value
    rw [hlevels, List.forall_mem_cons, List.forall_mem_cons] at h
    rw [hpop, Stack.All, ht, List.forall_mem_cons]
    refine ⟨?_, h.2.2⟩
    cases value with
    | none => exact h.2.1
    | some value => exact hP.others h.2.1 _ _

theorem all_reportFault (fault : Fault) : (s.reportFault fault).stack.All P := by
  rw [reportFault]
  split
  · exact h
  · exact all_setVariable hP (h.onTop fun level _ hlevel => hP.others hlevel _ level.env) _ _

theorem all_conclude (outcome : Outcome σ) : (s.conclude outcome).2.stack.All P := by
  cases outcome with
  | stay value =>
    have hstatus (status : String) := all_setVariable hP h statusVariable status
    cases value with
    | none => exact hstatus _
    | some value => exact all_setVariable hP (hstatus _) _ _
  | enter commands => exact all_push hP h commands
  | leave value =>
    have hpop := all_pop hP h value
    rw [conclude]
    generalize s.pop value = result at hpop ⊢
    obtain ⟨_ | _, t⟩ := result <;> exact hpop
  | abort => exact h

/-- **A statement** keeps the property at every level. -/
theorem all_dispatch (argv : Words) : (s.dispatch argv).2.stack.All P := by
  cases hcall : s.call? argv with
  | none =>
    have huncalled := dispatch_of_none hcall
    generalize s.dispatch argv = result at huncalled ⊢
    cases huncalled with
    | nowhere | skipped => exact h
    | refused => exact all_setVariable hP h _ _
  | some c =>
    obtain ⟨hdispatch, level, htop, hrouted⟩ := routed_of_call hcall
    obtain ⟨notes, hdesk⟩ := hrouted.desk
    have hreply : (c.reply s).2.stack.All P := by
      refine h.onTop fun level' htop' hlevel => ?_
      obtain rfl : level = level' := Option.some.inj (htop.symm.trans htop')
      have hhandled := hP.handled hlevel (s.noteAll notes) c.route c.inv
      rw [← hdesk] at hhandled
      exact hhandled
    rw [hdispatch]
    cases (c.reply s).1 with
    | ok outcome => exact all_conclude hP hreply outcome
    | error fault => exact all_reportFault hP hreply fault

end Shell

/-- What an act brings to the levels from outside has the property. -/
def Act.Brings (P : Level σ → Prop) : Act σ ω → Prop
  | .pushRoot commands _ aliases => ∀ env depth, P (.new commands env aliases depth)
  | .edit commands env aliases scopes =>
    ∀ level : Level σ, P level → P { level with commands, env, aliases, scopes }
  | _ => True

/-- **What one act keeps** at every level. -/
theorem Session.all_act {P : Level σ → Prop} (hP : Level.Kept P) {s : Session σ ω}
    (h : s.shell.stack.All P) {a : Act σ ω} (ha : a.Brings P) : (s.act a).shell.stack.All P := by
  cases a with
  | read text pos c =>
    have hdispatch (reader : Reader) (argv : Words) :
        (({ s with reader }.prepare argv).dispatch argv).2.stack.All P :=
      Shell.all_dispatch hP (s := { s with reader }.prepare argv) h argv
    have hread := s.charRead text pos c
    rw [act]
    generalize s.readChar text pos c = result at hread ⊢
    cases hread with
    | nowhere | unfinished => exact h
    | refused => exact h.onTop fun level _ hlevel => hP.others hlevel level.commands _
    | halted | performed =>
      simp only [abandon, perform_shell]
      exact hdispatch _ _
  | statement argv => exact Shell.all_dispatch hP h argv
  | close continuing interactive =>
    have hended : (s.endInput continuing interactive).shell.stack.All P := by
      cases continuing <;> cases interactive <;> exact h
    exact Shell.all_pop hP hended none
  | pop value => exact Shell.all_pop hP h value
  | pushRoot commands env aliases => exact List.forall_mem_cons.2 ⟨ha _ _, h⟩
  | push commands => exact Shell.all_push hP h commands
  | edit => exact h.onTop fun level _ hlevel => ha level hlevel
  | queue | drop | outside => exact h

end NestedShell
