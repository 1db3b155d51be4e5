import DirectoryMetrics.Proofs.Collection.Compilation

namespace DirectoryMetrics

namespace Registry

variable {registry : Registry} {identity : ServerIdentity} {database : String}

theorem getOrCreate_cases (registry : Registry) (identity : ServerIdentity) :
    (∃ handle, registry.handle? identity.database = some handle ∧
      registry.getOrCreate identity = (handle, registry)) ∨
    (registry.handle? identity.database = none ∧
      registry.getOrCreate identity = (registry.size, ⟨registry.made ++ [identity]⟩)) := by
  rw [getOrCreate]
  cases held : registry.handle? identity.database with
  | some handle => exact .inl ⟨handle, rfl, rfl⟩
  | none => exact .inr ⟨rfl, rfl⟩

theorem made_prefix_getOrCreate (registry : Registry) (identity : ServerIdentity) :
    registry.made <+: (registry.getOrCreate identity).2.made := by
  rcases getOrCreate_cases registry identity with ⟨handle, _, eq⟩ | ⟨_, eq⟩
  · exact ⟨[], by rw [eq, List.append_nil]⟩
  · exact ⟨[identity], by rw [eq]⟩

theorem handle?_getOrCreate_of_ne (hdifferent : identity.database ≠ database) :
    (registry.getOrCreate identity).2.handle? database = registry.handle? database := by
  rcases getOrCreate_cases registry identity with ⟨handle, _, eq⟩ | ⟨_, eq⟩
  · rw [eq]
  · rw [eq, handle?, handle?, List.findIdx?_append]
    simp [hdifferent]

theorem handle?_of_made_prefix {later : Registry} (hgrown : registry.made <+: later.made)
    {handle : Nat} (hheld : registry.handle? database = some handle) :
    later.handle? database = some handle := by
  obtain ⟨added, eq⟩ := hgrown
  rw [handle?, ← eq, List.findIdx?_append]
  rw [handle?] at hheld
  rw [hheld]
  rfl

def connectEach (registry : Registry) (identities : List ServerIdentity) : Registry :=
  identities.foldl (fun registry identity => (registry.getOrCreate identity).2) registry

theorem made_prefix_connectEach (registry : Registry) (identities : List ServerIdentity) :
    registry.made <+: (registry.connectEach identities).made := by
  induction identities generalizing registry with
  | nil => exact List.prefix_rfl
  | cons identity rest ih => exact (made_prefix_getOrCreate registry identity).trans (ih _)

theorem handle?_connectEach_of_ne {identities : List ServerIdentity}
    (hothers : ∀ identity ∈ identities, identity.database ≠ database) :
    (registry.connectEach identities).handle? database = registry.handle? database := by
  induction identities generalizing registry with
  | nil => rfl
  | cons identity rest ih =>
      rw [List.forall_mem_cons] at hothers
      exact (ih hothers.2).trans (handle?_getOrCreate_of_ne hothers.1)

end Registry

namespace Backend

variable {α : Type}

section

variable (directories : Directories) (identities : List ServerIdentity)

def serverOf (lookup : Lookup) : Option ServerIdentity :=
  identities.find? (·.database == lookup.database)

def valueOf (lookup : Lookup) : Option (Lookup × String) :=
  (serverOf identities lookup).bind fun _ =>
    (directories.first? lookup).map fun value => (lookup, value.display)

/-- The state after some lookups. -/
def lookUp (lookups : List Lookup) (backend : Backend α) : Backend α :=
  { backend with
    registry := backend.registry.connectEach (lookups.filterMap (serverOf identities))
    asked := backend.asked ++ lookups.filter fun lookup => (serverOf identities lookup).isSome }

theorem lookUp_nil (backend : Backend α) : lookUp identities [] backend = backend := by
  simp [lookUp, Registry.connectEach]

theorem lookUp_cons (lookup : Lookup) (rest : List Lookup) (backend : Backend α) :
    lookUp identities (lookup :: rest) backend =
      lookUp identities rest (lookUp identities [lookup] backend) := by
  cases known : serverOf identities lookup with
  | none => simp [lookUp, Registry.connectEach, known]
  | some identity => simp [lookUp, Registry.connectEach, known]

theorem run_findValue (lookup : Lookup) (backend : Backend α) :
    (findValue directories identities lookup).run.run backend =
      (.ok (valueOf directories identities lookup), lookUp identities [lookup] backend) := by
  have hknown : identities.find? (·.database == lookup.database) = serverOf identities lookup := rfl
  rw [findValue, hknown, valueOf]
  cases found : serverOf identities lookup with
  | none =>
      have hunasked : lookUp identities [lookup] backend = backend := by
        simp [lookUp, Registry.connectEach, found]
      rw [hunasked]
      rfl
  | some identity =>
      have hasked : lookUp identities [lookup] backend =
          { backend with
            registry := (backend.registry.getOrCreate identity).2
            asked := backend.asked ++ [lookup] } := by
        simp [lookUp, Registry.connectEach, found]
      rw [hasked]
      rfl

theorem run_findValueEach (lookups : List Lookup) (backend : Backend α) :
    (lookups.mapM (findValue directories identities)).run.run backend =
      (.ok (lookups.map (valueOf directories identities)), lookUp identities lookups backend) := by
  induction lookups generalizing backend with
  | nil =>
      rw [lookUp_nil]
      rfl
  | cons lookup rest ih =>
      rw [List.mapM_cons, run_bind, run_findValue]
      simp only []
      rw [run_bind, ih, lookUp_cons identities lookup rest]
      rfl

theorem run_expandNames (tree : Node) (backend : Backend α) :
    (expandNames directories identities tree).run.run backend =
      match Placeholder.lookups tree with
      | .error error => (.error (.config error), backend)
      | .ok lookups =>
          ((Placeholder.resolve ((lookups.map (valueOf directories identities)).filterMap id)
              tree).mapError .config,
            lookUp identities lookups backend) := by
  rw [expandNames, run_bind, findValues, run_bind, run_lift]
  cases Placeholder.lookups tree with
  | error error => rfl
  | ok lookups =>
      simp only [Except.mapError]
      rw [run_bind, run_findValueEach]
      rfl

end

def lookedUp (tree : Node) : List ServerIdentity :=
  match Compiler.settings tree with
  | .error _ => []
  | .ok settings =>
      if settings.interpolateMetricNames then
        match identitiesFrom 0 settings.servers, Placeholder.lookups tree with
        | .ok identities, .ok lookups => lookups.filterMap (serverOf identities)
        | _, _ => []
      else []

/-- A configuration fails when its placeholders have been looked up, or it is compiled then. -/
theorem compileConfiguration_cases (directories : Directories) (tree : Node)
    (backend : Backend α) :
    ∃ before : Backend α, before.store = backend.store ∧
      before.registry = backend.registry.connectEach (lookedUp tree) ∧
      ((∃ error, (compileConfiguration directories tree).run.run backend =
          (.error error, before)) ∨
        ∃ expanded, (compileConfiguration directories tree).run.run backend =
          (compile expanded).run.run before) := by
  rw [compileConfiguration, run_bind, run_lift, lookedUp]
  cases Compiler.settings tree with
  | error error => exact ⟨backend, rfl, rfl, .inl ⟨error, rfl⟩⟩
  | ok settings =>
      simp only [run_bind, run_lift]
      cases identitiesFrom 0 settings.servers with
      | error error => exact ⟨backend, rfl, by simp [Registry.connectEach], .inl ⟨error, rfl⟩⟩
      | ok identities =>
          simp only []
          split
          · rw [run_bind, run_expandNames]
            cases Placeholder.lookups tree with
            | error error => exact ⟨backend, rfl, rfl, .inl ⟨.config error, rfl⟩⟩
            | ok lookups =>
                refine ⟨lookUp identities lookups backend, rfl, rfl, ?_⟩
                simp only []
                generalize Placeholder.resolve _ tree = resolved
                cases resolved with
                | error error => exact .inl ⟨.config error, rfl⟩
                | ok expanded => exact .inr ⟨expanded, rfl⟩
          · exact ⟨backend, rfl, rfl, .inr ⟨tree, rfl⟩⟩

theorem compileConfiguration_error {directories : Directories} {tree : Node}
    {backend after : Backend α} {error : CompileError}
    (hrejected : (compileConfiguration directories tree).run.run backend = (.error error, after)) :
    after.store = backend.store ∧
      after.registry = backend.registry.connectEach (lookedUp tree) := by
  obtain ⟨before, store, registry, ⟨_, run⟩ | ⟨expanded, run⟩⟩ :=
    compileConfiguration_cases directories tree backend
  · rw [run] at hrejected
    cases hrejected
    exact ⟨store, registry⟩
  · rw [run] at hrejected
    rcases compile_cases expanded before with ⟨⟨_, run⟩, _⟩ | ⟨plans, views, new, _, _, run⟩
    · rw [run] at hrejected
      cases hrejected
      exact ⟨store, registry⟩
    · rw [run] at hrejected
      cases hrejected

/-- A rejected configuration leaves the store as it was. To the registry it adds the connections
that its placeholders were looked up on, and every other server is yet to be connected. -/
theorem compileConfiguration_error_state {directories : Directories} {tree : Node}
    {backend after : Backend α} {error : CompileError}
    (hrejected : (compileConfiguration directories tree).run.run backend = (.error error, after)) :
    after.store = backend.store ∧
      after.registry = backend.registry.connectEach (lookedUp tree) ∧
      backend.registry.made <+: after.registry.made ∧
      (∀ database handle, backend.registry.handle? database = some handle →
        after.registry.handle? database = some handle) ∧
      (∀ database, (∀ identity ∈ lookedUp tree, identity.database ≠ database) →
        after.registry.handle? database = backend.registry.handle? database) ∧
      ∀ identity, backend.registry.handle? identity.database = none →
        (∀ other ∈ lookedUp tree, other.database ≠ identity.database) →
        (after.registry.getOrCreate identity).2.made = after.registry.made ++ [identity] := by
  obtain ⟨store, registry⟩ := compileConfiguration_error hrejected
  have hgrown : backend.registry.made <+: after.registry.made := by
    rw [registry]
    exact Registry.made_prefix_connectEach _ _
  have hothers (database : String)
      (unasked : ∀ identity ∈ lookedUp tree, identity.database ≠ database) :
      after.registry.handle? database = backend.registry.handle? database := by
    rw [registry]
    exact Registry.handle?_connectEach_of_ne unasked
  refine ⟨store, registry, hgrown, fun _ _ => Registry.handle?_of_made_prefix hgrown, hothers, ?_⟩
  intro identity fresh unasked
  have habsent := (hothers identity.database unasked).trans fresh
  rw [Registry.getOrCreate, habsent]

def monitoring (uri metric : String) : Node :=
  .mapping
    [(.text "ldap_servers", .sequence
      [.mapping
        [(.text "database", .text "first"),
          (.text "connection", .mapping [(.text "server_uri", .text uri)]),
          (.text "object", .mapping
            [(.text "computed_dn", .text "cn=Monitor"), (.text "metric_name", .text metric),
              (.text "attribute", .text "opsDone"), (.text "unit", .int 1)])]])]

def silent : Directories := fun _ _ _ => none

theorem monitoring_error_state : ∃ error after,
    (compileConfiguration silent (monitoring "ldap://one" "$\x7bcn\x7d/ops")).run.run collecting =
        (.error error, after) ∧
      after.store = collecting.store ∧
      after.registry =
        collecting.registry.connectEach [⟨"first", ⟨"ldap://one", none, none, false, none⟩⟩] := by
  have hrejected : ((compileConfiguration silent
      (monitoring "ldap://one" "$\x7bcn\x7d/ops")).run.run collecting).1.isOk = false := by
    decide +kernel
  have hasked : lookedUp (monitoring "ldap://one" "$\x7bcn\x7d/ops") =
      [⟨"first", ⟨"ldap://one", none, none, false, none⟩⟩] := by
    decide +kernel
  rcases run : (compileConfiguration silent
    (monitoring "ldap://one" "$\x7bcn\x7d/ops")).run.run collecting with ⟨error | sets, after⟩
  · have hstate := compileConfiguration_error_state run
    exact ⟨error, after, rfl, hstate.1, hasked ▸ hstate.2.1⟩
  · rw [run] at hrejected
    cases hrejected

/-- The address of a rejected configuration stays with the server when it is corrected. -/
theorem monitoring_keeps_connection :
    ((compileConfiguration silent (monitoring "ldap://old" "$\x7bcn\x7d/ops")).run.run
        (default : Backend Nat)).1.isOk = false ∧
      ((compileConfiguration silent (monitoring "ldap://old" "$\x7bcn\x7d/ops")).run.run
        (default : Backend Nat)).2.registry.made =
          [⟨"first", ⟨"ldap://old", none, none, false, none⟩⟩] ∧
      ((compileConfiguration silent (monitoring "ldap://new" "ops")).run.run
        ((compileConfiguration silent (monitoring "ldap://old" "$\x7bcn\x7d/ops")).run.run
          (default : Backend Nat)).2).1.isOk = true ∧
      ((compileConfiguration silent (monitoring "ldap://new" "ops")).run.run
        ((compileConfiguration silent (monitoring "ldap://old" "$\x7bcn\x7d/ops")).run.run
          (default : Backend Nat)).2).2.registry.made =
          [⟨"first", ⟨"ldap://old", none, none, false, none⟩⟩] := by
  decide +kernel

end Backend

end DirectoryMetrics
