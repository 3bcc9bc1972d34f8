import NbLot.Lib.Transition
import NbLot.Source.Environ.Variables

/-!
# The environment is a map

Source: nuttx/sched/environ/env_setenv.c:82-198, env_unsetenv.c:74-115,
env_removevar.c:73-114, env_findvar.c:58-117, env_getenv.c.

`setenv`, `unsetenv` and `getenv` work on a map from names to values as long as two things
do not happen. `unsetenv` of the last variable asks `realloc` for 0 bytes, which releases
the block and returns NULL: the call reports ENOMEM although the variable is gone, and
`tg_envp` keeps pointing at the released block. And a variable that is being overwritten is
removed before memory for the new string is asked for: if there is none it is lost.
-/
namespace NbLot.Guarantees.Environment

open Lib.Transition Source.Environ Function

/-- A map from names to values. -/
abbrev Variables := CString → Option CString

/-- The value that a call sets: NULL and the empty string are none. -/
def newValue (value : Option CString) : Option CString :=
  value.filter fun value => value.1 ≠ []

/-- What a call does to the map. -/
def effect (vars : Variables) : EnvAct → Variables
  | .unsetenv name _ => Function.update vars name none
  | .setenv none _ _ _ => vars
  | .setenv (some name) value overwrite _ =>
    match newValue value with
    | none => if overwrite then Function.update vars name none else vars
    | some value =>
      if overwrite = true ∨ vars name = none then Function.update vars name (some value) else vars

/-- The environment, and the map that the calls which returned OK have made. -/
structure EnvSys where
  env : EnvState
  vars : Variables

/-- The bytes that a call may ask for in addition. -/
def more : EnvAct → Nat
  | .setenv (some name) (some value) _ _ => name.1.length + value.1.length + 2
  | _ => 0

/-- One call. -/
def EnvSys.step (s : EnvSys) (a : EnvAct) : Option EnvSys :=
  if ∀ alloc ∈ a.alloc, alloc.Sound s.env (more a) then
    match s.env.call a with
    | none => none
    | some (env, .ok ()) => some ⟨env, effect s.vars a⟩
    | some (env, .error _) => some ⟨env, s.vars⟩
  else none

/-- A new task group without an environment. -/
def envStart : EnvSys where
  env := ⟨0, 0, fun _ => none⟩
  vars := fun _ => none

/-- If the variable is there, it is not the last one, and `realloc` does not fail. -/
def KeepsOthers (env : EnvState) (name : CString) (alloc : Option Alloc) : Prop :=
  match getenv env (some name) with
  | some (.ok value) =>
    alloc.isSome = true ∧ name.1.length + value.1.length + 2 < env.envsize
  | _ => True

/-- If the variable is there, memory for the new string is. -/
def CanReplace (env : EnvState) (name : CString) (alloc : Option Alloc) : Prop :=
  match getenv env (some name) with
  | some (.ok _) => alloc.isSome = true
  | _ => True

/-- Names that are not empty and have no `'='`. A call that removes a variable removes one
of several, and a call that overwrites a variable does not run out of memory. -/
def Careful (s : EnvSys) : EnvAct → Prop
  | .unsetenv name alloc => ValidName name ∧ KeepsOthers s.env name alloc
  | .setenv none _ _ _ => True
  | .setenv (some name) value overwrite alloc =>
    ValidName name ∧ (overwrite = true → newValue value = none → KeepsOthers s.env name alloc) ∧
      (overwrite = true → newValue value ≠ none → CanReplace s.env name alloc)

instance (env : EnvState) (name : CString) (alloc : Option Alloc) :
    Decidable (KeepsOthers env name alloc) := by
  unfold KeepsOthers
  split <;> infer_instance

instance (env : EnvState) (name : CString) (alloc : Option Alloc) :
    Decidable (CanReplace env name alloc) := by
  unfold CanReplace
  split <;> infer_instance

instance (s : EnvSys) (a : EnvAct) : Decidable (Careful s a) := by
  unfold Careful
  split <;> infer_instance

/-- The environment holds the map. -/
def Holds (s : EnvSys) : Prop :=
  ∃ vars, Represents s.env vars ∧ s.vars = valueOf vars

variable {s s' : EnvSys} {env : EnvState} {vars : List (CString × CString)} {name : CString}
  {alloc : Option Alloc} {a : EnvAct}

section

variable (h : Represents env vars)
include h

theorem unsetenv_holds {n : Nat} (hname : ValidName name) (hkeeps : KeepsOthers env name alloc)
    (halloc : ∀ a ∈ alloc, a.Sound env n) :
    ∃ env' vars', unsetenv env name alloc = some (env', .ok ()) ∧ Represents env' vars' ∧
      valueOf vars' = update (valueOf vars) name none := by
  rcases envFindvar_spec h hname with ⟨hnone, hfind⟩ | ⟨pre, value, post, rfl, hvalue, hfind⟩
  · refine ⟨env, vars, by simp only [unsetenv, hfind], h, ?_⟩
    rw [← hnone, update_eq_self]
  · simp only [KeepsOthers, getenv_spec h hname, hvalue] at hkeeps
    obtain ⟨a, rfl⟩ := Option.isSome_iff_exists.mp hkeeps.1
    obtain ⟨env', hrun, h'⟩ := unsetenv_spec h hfind (halloc a rfl) hkeeps.2
    exact ⟨env', pre ++ post, hrun, h', valueOf_remove h.nodup⟩

theorem addvar_holds {value : CString} (hname : ValidName name) (hnew : valueOf vars name = none)
    (halloc : ∀ a ∈ alloc, a.Sound env (name.1.length + value.1.length + 2)) :
    (alloc = none ∧ addvar env name value alloc = some (env, .error .enomem)) ∨
      ∃ env' vars', addvar env name value alloc = some (env', .ok ()) ∧ Represents env' vars' ∧
        valueOf vars' = update (valueOf vars) name (some value) := by
  cases alloc with
  | none => exact .inl ⟨rfl, addvar_none h⟩
  | some a =>
    obtain ⟨env', hrun, h'⟩ := addvar_spec h hname hnew (halloc a rfl)
    exact .inr ⟨env', _, hrun, h', valueOf_add hnew⟩

/-- The two ways a call can end: it returns OK and has done its work, or it fails and has
done nothing. -/
def Ends (vars : List (CString × CString)) (made : Variables)
    (result : Option (EnvState × Except Errno Unit)) : Prop :=
  (∃ env' vars', result = some (env', .ok ()) ∧ Represents env' vars' ∧ valueOf vars' = made) ∨
    ∃ env' e, result = some (env', .error e) ∧ Represents env' vars

theorem setenv_ends {value : Option CString} {overwrite : Bool} (hname : ValidName name)
    (hkeeps : overwrite = true → newValue value = none → KeepsOthers env name alloc)
    (hreplace : overwrite = true → newValue value ≠ none → CanReplace env name alloc)
    (halloc : ∀ a ∈ alloc, a.Sound env (more (.setenv (some name) value overwrite alloc))) :
    Ends vars (effect (valueOf vars) (.setenv (some name) value overwrite alloc))
      (setenv env (some name) value overwrite alloc) := by
  have hempty : newValue value = none →
      Ends vars (effect (valueOf vars) (.setenv (some name) value overwrite alloc))
        (if overwrite then unsetenv env name alloc else some (env, .ok ())) := by
    intro hvalue
    simp only [effect, hvalue]
    cases overwrite with
    | false => exact .inl ⟨env, vars, rfl, h, rfl⟩
    | true =>
      obtain ⟨env', vars', hrun, h', hmade⟩ := unsetenv_holds h hname (hkeeps rfl hvalue) halloc
      exact .inl ⟨env', vars', hrun, h', hmade⟩
  cases value with
  | none => exact hempty rfl
  | some value =>
    by_cases hnil : value.1 = []
    · simp only [setenv, if_pos hnil]
      exact hempty (by simp [newValue, hnil])
    · have hvalue : newValue (some value) = some value := by simp [newValue, hnil]
      simp only [setenv, if_neg hnil, envFindvar_null h hname, effect, hvalue]
      rcases envFindvar_spec h hname with ⟨hnone, hfind⟩ | ⟨pre, old, post, rfl, hold, hfind⟩
      · -- a new variable
        simp only [hfind, hnone, or_true]
        rcases addvar_holds h hname hnone halloc with ⟨-, hrun⟩ | hadded
        · exact .inr ⟨env, _, hrun, h⟩
        · exact .inl hadded
      · simp only [hfind, hold]
        cases overwrite with
        | false => exact .inl ⟨env, _, rfl, h, rfl⟩
        | true =>
          -- the old variable is removed first
          simp only [CanReplace, getenv_spec h hname, hold, hvalue] at hreplace
          obtain ⟨env₁, hremove, henvp, hblock, h₁⟩ := envRemovevar_spec h
          have hgone : valueOf (pre ++ post) name = none := by
            rw [valueOf_remove h.nodup, update_self]
          have hsound : ∀ a ∈ alloc, a.Sound env₁ (name.1.length + value.1.length + 2) :=
            fun a ha => (halloc a ha).mono henvp hblock le_rfl
          rcases addvar_holds h₁ hname hgone hsound with ⟨hnone, -⟩ | hadded
          · rw [hnone] at hreplace
            exact absurd (hreplace trivial (by simp)) (by simp)
          · obtain ⟨env', vars', hrun, h', hmade⟩ := hadded
            refine .inl ⟨env', vars', ?_, h', ?_⟩
            · simp only [hremove, hrun, Bool.true_eq_false, if_false]
            · rw [hmade, valueOf_remove h.nodup]
              simp

end

theorem call_ends (h : Represents s.env vars) (hcareful : Careful s a)
    (halloc : ∀ alloc ∈ a.alloc, alloc.Sound s.env (more a)) :
    Ends vars (effect (valueOf vars) a) (s.env.call a) := by
  cases a with
  | unsetenv name alloc =>
    obtain ⟨env', vars', hrun, h', hmade⟩ := unsetenv_holds h hcareful.1 hcareful.2 halloc
    exact .inl ⟨env', vars', hrun, h', hmade⟩
  | setenv name value overwrite alloc =>
    cases name with
    | none => exact .inr ⟨s.env, .einval, rfl, h⟩
    | some name => exact setenv_ends h hcareful.1 hcareful.2.1 hcareful.2.2 halloc

/-- A careful call returns, and the environment holds the map again. -/
theorem Holds.step (h : Holds s) (hcareful : Careful s a)
    (halloc : ∀ alloc ∈ a.alloc, alloc.Sound s.env (more a)) :
    ∃ s', s.step a = some s' ∧ Holds s' := by
  obtain ⟨vars, hrep, hvars⟩ := h
  rcases call_ends hrep hcareful halloc with ⟨env', vars', hrun, h', hmade⟩ | ⟨env', e, hrun, h'⟩
  · exact ⟨⟨env', effect s.vars a⟩, by simp only [EnvSys.step, if_pos halloc, hrun], vars', h',
      by rw [hmade, hvars]⟩
  · exact ⟨⟨env', s.vars⟩, by simp only [EnvSys.step, if_pos halloc, hrun], vars, h', hvars⟩

theorem envStart_holds : Holds envStart :=
  ⟨[], ⟨nofun, List.nodup_nil, rfl, fun _ => rfl, absurd rfl, rfl⟩, rfl⟩

theorem holds_run {acts : List EnvAct} (hrun : run EnvSys.step envStart acts = some s)
    (hcareful : StepsMeet EnvSys.step Careful envStart acts) : Holds s := by
  refine invariant_run (fun s a s' h hok hstep => ?_) envStart_holds hcareful hrun
  have halloc : ∀ alloc ∈ a.alloc, alloc.Sound s.env (more a) := by
    by_contra hnot
    rw [EnvSys.step, if_neg hnot] at hstep
    cases hstep
  obtain ⟨s₁, hstep₁, h₁⟩ := h.step hok halloc
  rw [hstep, Option.some.injEq] at hstep₁
  exact hstep₁ ▸ h₁

/-- In every run of careful calls: `getenv` returns what the map has, in which a call that
failed has changed nothing; the environment is NULL or an allocated block; and the next
careful call returns. -/
theorem environment_is_map (acts : List EnvAct) (s : EnvSys)
    (hrun : run EnvSys.step envStart acts = some s)
    (hcareful : StepsMeet EnvSys.step Careful envStart acts) :
    (∀ name, ValidName name → getenv s.env (some name) = some (match s.vars name with
      | some value => .ok value
      | none => .error .enoent)) ∧
    (s.env.envp ≠ 0 → (s.env.block s.env.envp).isSome = true) ∧
    ∀ a, Careful s a → (∀ alloc ∈ a.alloc, alloc.Sound s.env (more a)) →
      ∃ s', s.step a = some s' := by
  have h := holds_run hrun hcareful
  obtain ⟨vars, hrep, hvars⟩ := h
  refine ⟨fun name hname => ?_, fun henvp => ?_, fun a hok halloc => ?_⟩
  · rw [hvars]
    exact getenv_spec hrep hname
  · obtain ⟨free, hblock⟩ := hrep.block henvp
    rw [hblock]
    rfl
  · obtain ⟨s', hstep, -⟩ := Holds.step ⟨vars, hrep, hvars⟩ hok halloc
    exact ⟨s', hstep⟩

/-- The strings `A`, `B`, `1` and `23`. -/
def nameA : CString := ⟨[65], by simp⟩
def nameB : CString := ⟨[66], by simp⟩
def one : CString := ⟨[49], by simp⟩
def twentyThree : CString := ⟨[50, 51], by simp⟩

/-- `A` is set, `B` is set in a block that has moved, `A` is overwritten, a third variable
finds no memory, and `B` is removed. -/
def mixedCalls : List EnvAct :=
  [.setenv (some nameA) (some one) true (some ⟨8, [1, 1, 1, 1]⟩),
    .setenv (some nameB) (some one) false (some ⟨16, [2, 2, 2, 2]⟩),
    .setenv (some nameA) (some twentyThree) true (some ⟨16, [3, 3, 3, 3, 3]⟩),
    .setenv (some one) (some nameB) true none, .unsetenv nameB (some ⟨16, []⟩)]

theorem environment_is_map_mixed :
    ∃ s, run EnvSys.step envStart mixedCalls = some s ∧ s.vars nameA = some twentyThree ∧
      getenv s.env (some nameA) = some (.ok twentyThree) := by
  have hend : ((run EnvSys.step envStart mixedCalls).map fun s => s.vars nameA) =
      some (some twentyThree) := by decide +kernel
  obtain ⟨s, hrun, hs⟩ := Option.map_eq_some_iff.mp hend
  have hget := (environment_is_map mixedCalls s hrun (by decide +kernel)).1 nameA (by decide)
  exact ⟨s, hrun, hs, by rw [hget, hs]⟩

/-- The only variable is removed: `unsetenv` fails, so `A` should still be there, but it is
gone; the environment is a released block, and the next `setenv` writes to it. -/
theorem last_variable_released :
    ∃ s, run EnvSys.step envStart
        [.setenv (some nameA) (some one) true (some ⟨8, [1, 1, 1, 1]⟩),
          .unsetenv nameA (some ⟨8, []⟩)] = some s ∧
      s.vars nameA = some one ∧ getenv s.env (some nameA) = some (.error .enoent) ∧
      s.env.envp ≠ 0 ∧ s.env.block s.env.envp = none ∧
      s.env.call (.setenv (some nameB) (some one) true (some ⟨16, [2, 2, 2, 2]⟩)) = none := by
  have hend : ((run EnvSys.step envStart
      [.setenv (some nameA) (some one) true (some ⟨8, [1, 1, 1, 1]⟩),
        .unsetenv nameA (some ⟨8, []⟩)]).map fun s =>
      decide (s.vars nameA = some one ∧ s.env.envp ≠ 0 ∧ s.env.block s.env.envp = none) &&
        decide (getenv s.env (some nameA) = some (.error .enoent)) &&
        (s.env.call (.setenv (some nameB) (some one) true (some ⟨16, [2, 2, 2, 2]⟩))).isNone) =
      some true := by decide +kernel
  obtain ⟨s, hrun, hs⟩ := Option.map_eq_some_iff.mp hend
  simp only [Bool.and_eq_true, decide_eq_true_eq, Option.isNone_iff_eq_none] at hs
  obtain ⟨⟨⟨hvars, henvp, hblock⟩, hget⟩, hcall⟩ := hs
  exact ⟨s, hrun, hvars, hget, henvp, hblock, hcall⟩

end NbLot.Guarantees.Environment
