import Mathlib.Data.List.Basic
import TableEscrow.Environment.Secrets
/-!
# What secrets show

A configuration names up to three variables, which are asked for in one order (`Config.variables`). Resolving ends
at the first of them that is missing, or gives every secret the value of its variable (`resolve_cases`). So its
outcome shows which variables are there and nothing of what they hold (`exposes_presence_only`).
-/

namespace TableEscrow

/-- The variables a configuration names, each with what it holds, in the order they are asked for. -/
def Config.variables (c : Config) : List (String × String) :=
  (c.database.urlVariable, "database url") ::
    (c.gateway.keyVariable.toList.map (·, "gateway api key") ++ c.oracle.keyVariable.toList.map (·, "oracle api key"))

namespace Secrets

variable {env other : Environment} {config : Config} {role : Role} {s t : Secrets} {name what : String}

/-- A variable is set to more than blanks. -/
def Present (env : Environment) (name : String) : Prop := ∃ v, env.get? name = some v ∧ Text.isBlankText v = false

/-- The first variable that is asked for and missing. -/
def FirstMissing (env : Environment) (config : Config) (name what : String) : Prop :=
  ∃ before after, config.variables = before ++ (name, what) :: after ∧ (∀ v ∈ before, Present env v.1) ∧ ¬ Present env name

/-- Every variable is there, and every secret is the value of its own. -/
structure Holds (env : Environment) (config : Config) (s : Secrets) : Prop where
  present : ∀ v ∈ config.variables, Present env v.1
  databaseUrl : env.get? config.database.urlVariable = some s.databaseUrl
  gatewayKey : s.gatewayKey = config.gateway.keyVariable.bind fun name => env.get? name
  oracleKey : s.oracleKey = config.oracle.keyVariable.bind fun name => env.get? name

/-! ## One variable -/

theorem present_iff : Present env name ↔ (value? env name).isSome = true := by
  unfold Present value?
  cases env.get? name <;> simp [Option.filter]

theorem require_cases (env : Environment) (role : Role) (name what : String) :
    (∃ v, env.get? name = some v ∧ Present env name ∧ require env role name what = .ok v) ∨
      ¬ Present env name ∧ require env role name what = .error (.secretMissing role name what) := by
  rw [present_iff]
  unfold require
  cases hv : value? env name with
  | none => exact .inr ⟨by simp, rfl⟩
  | some v => exact .inl ⟨v, (Option.filter_eq_some_iff.1 hv).1, rfl, rfl⟩

theorem requireNamed_cases (env : Environment) (role : Role) (what : String) (named : Option String) :
    ((∀ name ∈ named, Present env name) ∧
      requireNamed env role what named = .ok (named.bind fun name => env.get? name)) ∨
    ∃ name, named = some name ∧ ¬ Present env name ∧
      requireNamed env role what named = .error (.secretMissing role name what) := by
  cases named with
  | none => exact .inl ⟨by simp, rfl⟩
  | some name =>
    have hone : requireNamed env role what (some name) = (require env role name what).map some := rfl
    rcases require_cases env role name what with ⟨v, hget, hpresent, hv⟩ | ⟨hmissing, herror⟩
    · refine .inl ⟨by simpa using hpresent, ?_⟩
      rw [hone, hv, Option.bind_some, hget]
      rfl
    · refine .inr ⟨name, rfl, hmissing, ?_⟩
      rw [hone, herror]
      rfl

/-! ## All of them -/

theorem mem_variables {v : String × String} : v ∈ config.variables ↔ v = (config.database.urlVariable, "database url") ∨
    (∃ name, config.gateway.keyVariable = some name ∧ v = (name, "gateway api key")) ∨
      ∃ name, config.oracle.keyVariable = some name ∧ v = (name, "oracle api key") := by
  simp [Config.variables, eq_comm]

/-- The one thing to know of `resolve`: every later fact about it goes by these cases. -/
theorem resolve_cases (env : Environment) (config : Config) (role : Role) :
    (∃ s, resolve env config role = .ok s ∧ Holds env config s) ∨
      ∃ name what, resolve env config role = .error (.secretMissing role name what) ∧ FirstMissing env config name what := by
  unfold resolve
  rcases require_cases env role config.database.urlVariable "database url" with ⟨url, hget, hurl, hdatabase⟩ | ⟨hmissing, herror⟩
  · rw [hdatabase]
    rcases requireNamed_cases env role "gateway api key" config.gateway.keyVariable with
      ⟨hgateway, hkey⟩ | ⟨name, hname, hmissing, herror⟩
    · rw [hkey]
      rcases requireNamed_cases env role "oracle api key" config.oracle.keyVariable with
        ⟨horacle, hkey⟩ | ⟨name, hname, hmissing, herror⟩
      · rw [hkey]
        refine .inl ⟨_, rfl, ⟨fun v hv => ?_, hget, rfl, rfl⟩⟩
        rcases mem_variables.1 hv with rfl | ⟨name, hname, rfl⟩ | ⟨name, hname, rfl⟩
        · exact hurl
        · exact hgateway name hname
        · exact horacle name hname
      · rw [herror]
        refine .inr ⟨name, _, rfl, (config.database.urlVariable, "database url") ::
          config.gateway.keyVariable.toList.map (·, "gateway api key"), [], by simp [Config.variables, hname], ?_, hmissing⟩
        simpa using ⟨hurl, hgateway⟩
    · rw [herror]
      exact .inr ⟨name, _, rfl, [(config.database.urlVariable, "database url")], _,
        by simp only [Config.variables, hname]; rfl, by simpa using hurl, hmissing⟩
  · rw [herror]
    exact .inr ⟨_, _, rfl, [], _, rfl, by simp, hmissing⟩

theorem firstMissing_iff :
    FirstMissing env config name what ↔ config.variables.find? (fun v => (value? env v.1).isNone) = some (name, what) := by
  rw [List.find?_eq_some_iff_append]
  simp only [FirstMissing, present_iff]
  constructor
  · rintro ⟨before, after, hsplit, hbefore, hmissing⟩
    exact ⟨by simpa using hmissing, before, after, hsplit, by simpa using hbefore⟩
  · rintro ⟨hmissing, before, after, hsplit, hbefore⟩
    exact ⟨before, after, hsplit, by simpa using hbefore, by simpa using hmissing⟩

theorem FirstMissing.not_present (h : FirstMissing env config name what) : ∃ v ∈ config.variables, ¬ Present env v.1 := by
  obtain ⟨before, after, hsplit, -, hmissing⟩ := h
  exact ⟨(name, what), by simp [hsplit], hmissing⟩

/-- What is missing first is the same wherever the same variables are there. -/
theorem FirstMissing.congr (h : FirstMissing env config name what)
    (hagree : ∀ v ∈ config.variables, Present env v.1 ↔ Present other v.1) : FirstMissing other config name what := by
  obtain ⟨before, after, hsplit, hbefore, hmissing⟩ := h
  refine ⟨before, after, hsplit, fun v hv => (hagree v ?_).1 (hbefore v hv), fun hpresent => hmissing ?_⟩
  · simp [hsplit, hv]
  · exact (hagree (name, what) (by simp [hsplit])).2 hpresent

theorem FirstMissing.unique {name' what' : String} (h : FirstMissing env config name what)
    (h' : FirstMissing env config name' what') : name = name' ∧ what = what' := by
  simpa using (firstMissing_iff.1 h).symm.trans (firstMissing_iff.1 h')

theorem Holds.eq_none_iff {named key : Option String} (hkey : key = named.bind fun name => env.get? name)
    (hpresent : ∀ name ∈ named, Present env name) : key = none ↔ named = none := by
  subst hkey
  cases named with
  | none => simp
  | some name =>
    obtain ⟨v, hv, -⟩ := hpresent name rfl
    simp [hv]

theorem Holds.gatewayKey_eq_none_iff (h : Holds env config s) :
    s.gatewayKey = none ↔ config.gateway.keyVariable = none :=
  eq_none_iff h.gatewayKey fun name hname => h.present (name, _) (mem_variables.2 (.inr (.inl ⟨name, hname, rfl⟩)))

theorem Holds.oracleKey_eq_none_iff (h : Holds env config s) :
    s.oracleKey = none ↔ config.oracle.keyVariable = none :=
  eq_none_iff h.oracleKey fun name hname => h.present (name, _) (mem_variables.2 (.inr (.inr ⟨name, hname, rfl⟩)))

theorem shown_congr {key key' : Option String} (h : key = none ↔ key' = none) : shown key = shown key' := by
  cases key <;> cases key' <;> simp_all [shown]

/-- Secrets are described alike whatever they are, as long as the same of them are there. -/
theorem Holds.describe_eq (hs : Holds env config s) (ht : Holds other config t) : s.describe = t.describe := by
  have hgateway : shown s.gatewayKey = shown t.gatewayKey :=
    shown_congr (hs.gatewayKey_eq_none_iff.trans ht.gatewayKey_eq_none_iff.symm)
  have horacle : shown s.oracleKey = shown t.oracleKey :=
    shown_congr (hs.oracleKey_eq_none_iff.trans ht.oracleKey_eq_none_iff.symm)
  unfold describe
  rw [hgateway, horacle]

theorem Holds.eq_of_agree (hs : Holds env config s) (ht : Holds other config t)
    (hagree : ∀ v ∈ config.variables, env.get? v.1 = other.get? v.1) : s = t := by
  have hurl : some s.databaseUrl = some t.databaseUrl := by
    rw [← hs.databaseUrl, ← ht.databaseUrl]
    exact hagree _ (mem_variables.2 (.inl rfl))
  have hgateway : s.gatewayKey = t.gatewayKey := by
    rw [hs.gatewayKey, ht.gatewayKey]
    refine Option.bind_congr fun name hname => ?_
    exact hagree (name, _) (mem_variables.2 (.inr (.inl ⟨name, hname, rfl⟩)))
  have horacle : s.oracleKey = t.oracleKey := by
    rw [hs.oracleKey, ht.oracleKey]
    refine Option.bind_congr fun name hname => ?_
    exact hagree (name, _) (mem_variables.2 (.inr (.inr ⟨name, hname, rfl⟩)))
  obtain ⟨url, gatewayKey, oracleKey⟩ := s
  cases hurl
  cases hgateway
  cases horacle
  rfl

theorem present_congr (h : env.get? name = other.get? name) : Present env name ↔ Present other name := by
  unfold Present
  rw [h]

/-- Two sets of variables in which the same ones are there, of those that the configuration names, are told apart by
nothing: both resolve to secrets that are described in the same words, or both fail with the same message, which names
the first missing variable. Secrets resolve if no variable that is named is missing, each to the value of its variable
as it stands, and a key is left out only if no variable is named for it. No other variable has a say in it. -/
theorem exposes_presence_only (config : Config) (role : Role) :
    (∀ env other : Environment, (∀ v ∈ config.variables, Present env v.1 ↔ Present other v.1) →
      (∃ s t, resolve env config role = .ok s ∧ resolve other config role = .ok t ∧ s.describe = t.describe) ∨
      ∃ e name what, resolve env config role = .error e ∧ resolve other config role = .error e ∧
        FirstMissing env config name what ∧ e.message = "SECRETS_MISSING role=" ++ role.name ++
          ": required env var '" ++ name ++ "' (" ++ what ++ ") is not set or empty") ∧
    (∀ env, (∃ s, resolve env config role = .ok s) ↔ ∀ v ∈ config.variables, Present env v.1) ∧
    (∀ env s, resolve env config role = .ok s →
      env.get? config.database.urlVariable = some s.databaseUrl ∧
      (s.gatewayKey = config.gateway.keyVariable.bind fun name => env.get? name) ∧
      (s.oracleKey = config.oracle.keyVariable.bind fun name => env.get? name) ∧
      (s.gatewayKey = none ↔ config.gateway.keyVariable = none) ∧
      (s.oracleKey = none ↔ config.oracle.keyVariable = none)) ∧
    ∀ env other : Environment, (∀ v ∈ config.variables, env.get? v.1 = other.get? v.1) →
      resolve env config role = resolve other config role := by
  refine ⟨fun env other hagree => ?_, fun env => ?_, fun env s hs => ?_, fun env other hagree => ?_⟩
  · rcases resolve_cases env config role with ⟨s, hs, hholds⟩ | ⟨name, what, herror, hfirst⟩
    · rcases resolve_cases other config role with ⟨t, ht, hholds'⟩ | ⟨name, what, -, hfirst⟩
      · exact .inl ⟨s, t, hs, ht, hholds.describe_eq hholds'⟩
      · obtain ⟨v, hv, hmissing⟩ := hfirst.not_present
        exact absurd ((hagree v hv).1 (hholds.present v hv)) hmissing
    · rcases resolve_cases other config role with ⟨t, -, hholds⟩ | ⟨name', what', herror', hfirst'⟩
      · obtain ⟨v, hv, hmissing⟩ := hfirst.not_present
        exact absurd ((hagree v hv).2 (hholds.present v hv)) hmissing
      · obtain ⟨rfl, rfl⟩ := (hfirst.congr hagree).unique hfirst'
        exact .inr ⟨_, name, what, herror, herror', hfirst, rfl⟩
  · rcases resolve_cases env config role with ⟨s, hs, hholds⟩ | ⟨name, what, herror, hfirst⟩
    · exact iff_of_true ⟨s, hs⟩ hholds.present
    · refine iff_of_false ?_ fun hall => ?_
      · rintro ⟨s, hs⟩
        cases herror.symm.trans hs
      · obtain ⟨v, hv, hmissing⟩ := hfirst.not_present
        exact hmissing (hall v hv)
  · rcases resolve_cases env config role with ⟨t, ht, hholds⟩ | ⟨name, what, herror, -⟩
    · cases hs.symm.trans ht
      exact ⟨hholds.databaseUrl, hholds.gatewayKey, hholds.oracleKey, hholds.gatewayKey_eq_none_iff, hholds.oracleKey_eq_none_iff⟩
    · cases hs.symm.trans herror
  · have hpresent : ∀ v ∈ config.variables, Present env v.1 ↔ Present other v.1 := fun v hv => present_congr (hagree v hv)
    rcases resolve_cases env config role with ⟨s, hs, hholds⟩ | ⟨name, what, herror, hfirst⟩
    · rcases resolve_cases other config role with ⟨t, ht, hholds'⟩ | ⟨name, what, -, hfirst⟩
      · rw [hs, ht, hholds.eq_of_agree hholds' hagree]
      · obtain ⟨v, hv, hmissing⟩ := hfirst.not_present
        exact absurd ((hpresent v hv).1 (hholds.present v hv)) hmissing
    · rcases resolve_cases other config role with ⟨t, -, hholds⟩ | ⟨name', what', herror', hfirst'⟩
      · obtain ⟨v, hv, hmissing⟩ := hfirst.not_present
        exact absurd ((hpresent v hv).2 (hholds.present v hv)) hmissing
      · obtain ⟨rfl, rfl⟩ := (hfirst.congr hpresent).unique hfirst'
        rw [herror, herror']

/-- One variable for both keys. Two environments that differ in every value, blanks around it kept, are described
alike; one in which that variable is blank fails as one in which it is unset; and what else is set changes nothing. -/
theorem exposes_presence_only_shared_key :
    let config := { Config.standard with
      gateway.keyVariable := some "SHARED_KEY", oracle.keyVariable := some "SHARED_KEY" }
    let one : Environment := .ofList [("SHARED_KEY", " k1\n"), ("TK_DATABASE_URL", "postgres://a")]
    let two : Environment := .ofList [("SHARED_KEY", "k2"), ("TK_DATABASE_URL", " postgres://b ")]
    let blank : Environment := .ofList [("SHARED_KEY", " \t"), ("TK_DATABASE_URL", "postgres://a")]
    let unset : Environment := .ofList [("TK_DATABASE_URL", "postgres://b")]
    let more : Environment := one.insert "UNRELATED" "k3"
    (∃ s t, resolve one config .daemon = .ok s ∧ resolve two config .daemon = .ok t ∧ s.describe = t.describe ∧
      s.oracleKey = some " k1\n" ∧ t.databaseUrl = " postgres://b ") ∧
    (∃ e, resolve blank config .cli = .error e ∧ resolve unset config .cli = .error e ∧
      e.message = "SECRETS_MISSING role=CLI: required env var 'SHARED_KEY' (gateway api key) is not set or empty") ∧
    resolve one config .daemon = resolve more config .daemon := by
  intro config one two blank unset more
  obtain ⟨halike, -, hvalues, hothers⟩ := exposes_presence_only config .daemon
  have hgateway : FirstMissing blank config "SHARED_KEY" "gateway api key" := firstMissing_iff.2 (by decide)
  refine ⟨?_, ?_, hothers one more (by decide)⟩
  · rcases halike one two (by simp only [present_iff]; decide) with ⟨s, t, hs, ht, hshown⟩ | ⟨e, name, what, he, -⟩
    · obtain ⟨-, -, hkey, -⟩ := hvalues one s hs
      obtain ⟨hurl, -⟩ := hvalues two t ht
      exact ⟨s, t, hs, ht, hshown, hkey, (Option.some.inj hurl).symm⟩
    · cases he
  · rcases (exposes_presence_only config .cli).1 blank unset (by simp only [present_iff]; decide) with
      ⟨s, t, hs, -⟩ | ⟨e, name, what, hblank, hunset, hfirst, hmessage⟩
    · cases hs
    · obtain ⟨rfl, rfl⟩ := hfirst.unique hgateway
      exact ⟨e, hblank, hunset, hmessage⟩

end Secrets

end TableEscrow
