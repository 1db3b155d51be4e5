import DirectoryMetrics.Collection.Compiler
import DirectoryMetrics.Proofs.Metrics.Registration

namespace DirectoryMetrics

/-! Runs of the compiler. A configuration is planned without a look at the state; then its views
are registered, and then its servers are connected, which cannot fail. -/

namespace Compiler

theorem statisticsFrom_eq_ok {database : String} {seen : List String} {ms : List Mapping}
    {found : List Statistic} (hflattening : statisticsFrom database seen ms = .ok found) :
    found = ms.filterMap fun m =>
      match statistic? m with
      | .ok statistic => statistic
      | .error _ => none := by
  induction ms generalizing seen found with
  | nil =>
      cases hflattening
      rfl
  | cons m rest ih =>
      rw [statisticsFrom] at hflattening
      obtain ⟨statistic, reading, hflattening⟩ := Except.bind_eq_ok.mp hflattening
      cases statistic with
      | none => simp [reading, ih hflattening]
      | some s =>
          simp only at hflattening
          split at hflattening
          · cases hflattening
          · obtain ⟨later, flatteningRest, returned⟩ := Except.bind_eq_ok.mp hflattening
            cases returned
            simp [reading, ih flatteningRest]

/-- The statistics with one of some names, if names are given. -/
def restrict (chosen : Option (List String)) (found : List Statistic) : List Statistic :=
  match chosen with
  | none => found
  | some names => found.filter fun s => names.contains s.metricName

theorem choose_eq_ok {database : String} {chosen : Option (List String)}
    {all found : List Statistic} (hchoosing : choose database chosen all = .ok found) :
    found = restrict chosen all := by
  cases chosen with
  | none =>
      cases hchoosing
      rfl
  | some names =>
      simp only [choose] at hchoosing
      split at hchoosing
      · cases hchoosing
      · cases hchoosing
        rfl

theorem serverPlan_eq_ok {index : Nat} {server : Server} {plan : ServerPlan}
    (hplanning : serverPlan index server = .ok plan) :
    ∃ database all, statistics database server.object = .ok all ∧
      choose database server.chosenStatistics all = .ok plan.statistics ∧
      ServerIdentity.ofServer index server = .ok plan.identity := by
  obtain ⟨identity, named, hplanning⟩ := Except.bind_eq_ok.mp hplanning
  obtain ⟨all, flattening, hplanning⟩ := Except.bind_eq_ok.mp hplanning
  obtain ⟨chosen, choosing, returned⟩ := Except.bind_eq_ok.mp hplanning
  cases returned
  exact ⟨identity.database, all, flattening, choosing, named⟩

theorem plansFrom_eq_ok {index : Nat} {seen seen' : Seen} {servers : List Server}
    {plans : List ServerPlan} (hplanning : plansFrom index seen servers = .ok (plans, seen')) :
    List.Forall₂ (fun server plan => ∃ index, serverPlan index server = .ok plan)
      servers plans := by
  induction servers generalizing index seen plans with
  | nil =>
      cases hplanning
      exact .nil
  | cons server rest ih =>
      obtain ⟨plan, planned, hplanning⟩ := Except.bind_eq_ok.mp hplanning
      obtain ⟨seenNow, _, hplanning⟩ := Except.bind_eq_ok.mp hplanning
      obtain ⟨⟨later, seenLater⟩, hplanning, returned⟩ := Except.bind_eq_ok.mp hplanning
      cases returned
      exact .cons ⟨index, planned⟩ (ih hplanning)

theorem plans_eq_ok {tree : Node} {made : List ServerPlan} {views : List View}
    (hplanning : plans tree = .ok (made, views)) :
    ∃ settings, Settings.ofTree tree = .ok settings ∧
      List.Forall₂ (fun server plan => ∃ index, serverPlan index server = .ok plan)
        settings.servers made := by
  obtain ⟨settings, reading, hplanning⟩ := Except.bind_eq_ok.mp hplanning
  obtain ⟨⟨made', seen⟩, planned, returned⟩ := Except.bind_eq_ok.mp hplanning
  cases returned
  exact ⟨settings, Except.mapError_eq_ok.mp reading, plansFrom_eq_ok planned⟩

end Compiler

namespace Backend

variable {α β : Type}

theorem run_connect (identity : ServerIdentity) (backend : Backend α) :
    (connect identity).run.run backend =
      (.ok (backend.registry.getOrCreate identity).1,
        { backend with registry := (backend.registry.getOrCreate identity).2 }) := rfl

theorem run_registerViews (views : List View) (backend : Backend α) :
    (registerViews views).run.run backend =
      match backend.store.pending views with
      | .ok new =>
          (.ok (), { backend with
            store := new.foldl (fun store entry => store.put entry) backend.store })
      | .error error => (.error (.view error), backend) := by
  have hregistering := Store.run_registerViews views backend.store
  rw [registerViews, run_bind, run_get]
  simp only []
  cases pending : backend.store.pending views with
  | ok new =>
      rw [pending] at hregistering
      simp only [StateT.run] at hregistering
      rw [hregistering]
      rfl
  | error error =>
      rw [pending] at hregistering
      simp only [StateT.run] at hregistering
      rw [hregistering]
      rfl

def connectAll (registry : Registry) : List Compiler.ServerPlan → List MetricSet × Registry
  | [] => ([], registry)
  | plan :: rest =>
      let (handle, registry) := registry.getOrCreate plan.identity
      let (sets, registry) := connectAll registry rest
      (⟨plan.identity, handle, plan.statistics⟩ :: sets, registry)

theorem connectAll_statistics (registry : Registry) (plans : List Compiler.ServerPlan) :
    (connectAll registry plans).1.map (·.statistics) = plans.map (·.statistics) := by
  induction plans generalizing registry with
  | nil => rfl
  | cons plan rest ih => simp [connectAll, ih]

theorem connectAll_identities (registry : Registry) (plans : List Compiler.ServerPlan) :
    (connectAll registry plans).1.map (·.identity) = plans.map (·.identity) := by
  induction plans generalizing registry with
  | nil => rfl
  | cons plan rest ih => simp [connectAll, ih]

theorem run_connectAll (plans : List Compiler.ServerPlan) (backend : Backend α) :
    (plans.mapM fun plan => do
      return ⟨plan.identity, ← connect plan.identity, plan.statistics⟩ :
        Compilation α (List MetricSet)).run.run backend =
      (.ok (connectAll backend.registry plans).1,
        { backend with registry := (connectAll backend.registry plans).2 }) := by
  induction plans generalizing backend with
  | nil => rfl
  | cons plan rest ih =>
      rw [List.mapM_cons, run_bind, run_bind, run_connect]
      simp only [run_pure]
      rw [run_bind, ih]
      rfl

theorem run_compile (tree : Node) (backend : Backend α) :
    (compile tree).run.run backend =
      match Compiler.plans tree with
      | .error error => (.error error, backend)
      | .ok (plans, views) =>
          match backend.store.pending views with
          | .error error => (.error (.view error), backend)
          | .ok new =>
              (.ok (connectAll backend.registry plans).1,
                { backend with
                  registry := (connectAll backend.registry plans).2
                  store := new.foldl (fun store entry => store.put entry) backend.store }) := by
  rw [compile, run_bind, run_lift]
  cases Compiler.plans tree with
  | error error => rfl
  | ok planned =>
      obtain ⟨plans, views⟩ := planned
      simp only [run_bind, run_registerViews]
      cases backend.store.pending views with
      | error error => rfl
      | ok new =>
          simp only [run_connectAll]

/-- A configuration is rejected without a change, or its views are put and its servers connected. -/
theorem compile_cases (tree : Node) (backend : Backend α) :
    ((∃ error, (compile tree).run.run backend = (.error error, backend)) ∧
      ∀ plans views new, Compiler.plans tree = .ok (plans, views) →
        backend.store.pending views ≠ .ok new) ∨
    ∃ plans views new, Compiler.plans tree = .ok (plans, views) ∧
      backend.store.pending views = .ok new ∧
      (compile tree).run.run backend =
        (.ok (connectAll backend.registry plans).1,
          { backend with
            registry := (connectAll backend.registry plans).2
            store := new.foldl (fun store entry => store.put entry) backend.store }) := by
  rw [run_compile]
  cases planned : Compiler.plans tree with
  | error error =>
      refine .inl ⟨⟨error, rfl⟩, fun plans views new found => ?_⟩
      cases found
  | ok plan =>
      obtain ⟨plans, views⟩ := plan
      cases pending : backend.store.pending views with
      | error error =>
          refine .inl ⟨⟨.view error, by simp only [pending]⟩, fun _ _ new found => ?_⟩
          cases found
          rw [pending]
          simp
      | ok new => exact .inr ⟨plans, views, new, rfl, pending, by simp only [pending]⟩

theorem compile_eq_ok {tree : Node} {backend after : Backend α} {sets : List MetricSet}
    (haccepted : (compile tree).run.run backend = (.ok sets, after)) :
    ∃ plans views, Compiler.plans tree = .ok (plans, views) ∧
      sets = (connectAll backend.registry plans).1 := by
  rcases compile_cases tree backend with ⟨⟨error, run⟩, _⟩ | ⟨plans, views, _, planned, _, run⟩
  · rw [run] at haccepted
    cases haccepted
  · rw [run] at haccepted
    cases haccepted
    exact ⟨plans, views, planned, rfl⟩

/-- A rejected configuration leaves everything as it was. -/
theorem compile_error_state {tree : Node} {backend after : Backend α} {error : CompileError}
    (hrejected : (compile tree).run.run backend = (.error error, after)) : after = backend := by
  rcases compile_cases tree backend with ⟨⟨error', run⟩, _⟩ | ⟨plans, views, new, _, _, run⟩
  · rw [run] at hrejected
    cases hrejected
    rfl
  · rw [run] at hrejected
    cases hrejected

def unconnected : Node :=
  .mapping
    [(.text "ldap_servers", .sequence
      [.mapping
        [(.text "database", .text "first"),
          (.text "connection", .mapping [(.text "server_uri", .text "ldap://one")])],
      .mapping
        [(.text "database", .text "second"),
          (.text "object", .mapping
            [(.text "computed_dn", .text "cn=Monitor"), (.text "metric_name", .text "ops"),
              (.text "attribute", .text "opsDone"), (.text "unit", .int 1)])]])]

def collecting : Backend Nat :=
  let view : View := ⟨"waits", "", "1", ["database"], .sum⟩
  { registry := ⟨[⟨"third", ⟨"ldap://three", none, none, false, none⟩⟩]⟩
    store := ⟨[("waits", ⟨view, ⟨"waits", "waits", ["database"], .counter, [⟨["third"], 4⟩]⟩,
      [(⟨[("database", "third")]⟩, 4)]⟩)]⟩
    asked := [] }

theorem unconnected_error_state : ∃ error after,
    (compile unconnected).run.run collecting = (.error error, after) ∧ after = collecting := by
  have hrejected : ((compile unconnected).run.run collecting).1.isOk = false := by decide +kernel
  rcases run : (compile unconnected).run.run collecting with ⟨error | sets, after⟩
  · exact ⟨error, after, rfl, compile_error_state run⟩
  · rw [run] at hrejected
    cases hrejected

end Backend

end DirectoryMetrics
