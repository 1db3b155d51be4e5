import DirectoryMetrics.Proofs.Collection.Connections
import DirectoryMetrics.Proofs.Collection.Replacement
import Mathlib.Data.List.Induction

namespace DirectoryMetrics

/-! The life of a registry. Configurations are compiled, rejected and replaced, and name a server
with other parameters than before; the registry keeps one connection for each name, which was made
for the first request, and all that it gives out for a name is that connection. -/

namespace Registry

variable {registry : Registry} {requests : List ServerIdentity}

theorem handle?_eq_none {database : String} :
    registry.handle? database = none ↔ ∀ made ∈ registry.made, made.database ≠ database := by
  simp [handle?, List.findIdx?_eq_none_iff]

theorem made_of_handle? {database : String} {handle : Nat}
    (hheld : registry.handle? database = some handle) :
    (registry.made[handle]?).map (·.database) = some database := by
  obtain ⟨inside, same, _⟩ := List.findIdx?_eq_some_iff_getElem.mp hheld
  rw [List.getElem?_eq_getElem inside, Option.map_some, beq_iff_eq.mp same]

theorem connections_of_handle? {database : String} {handle : Nat}
    (hheld : registry.handle? database = some handle) (directories : Directories) :
    registry.connections directories handle = directories database := by
  obtain ⟨made, hmade, hsame⟩ := Option.map_eq_some_iff.mp (made_of_handle? hheld)
  funext dn attributeName
  rw [connections, hmade, Option.bind_some, hsame]

/-- The connections are those of the first request for each name. -/
structure Records (registry : Registry) (requests : List ServerIdentity) : Prop where
  once : (registry.made.map (·.database)).Nodup
  first : ∀ identity, identity ∈ registry.made ↔
    requests.find? (·.database == identity.database) = some identity

theorem records_empty : empty.Records [] := by
  refine ⟨List.nodup_nil, ?_⟩
  simp [empty]

theorem Records.handle?_eq_none (hrecords : registry.Records requests) {database : String} :
    registry.handle? database = none ↔ requests.find? (·.database == database) = none := by
  rw [Registry.handle?_eq_none]
  constructor
  · intro unmade
    by_contra asked
    obtain ⟨identity, found⟩ := Option.ne_none_iff_exists'.mp asked
    have hnamed : identity.database = database := by simpa using List.find?_some found
    exact unmade identity ((hrecords.first identity).mpr (hnamed ▸ found)) hnamed
  · rintro unasked made member rfl
    rw [(hrecords.first made).mp member] at unasked
    cases unasked

theorem Records.getOrCreate (hrecords : registry.Records requests) (identity : ServerIdentity) :
    (registry.getOrCreate identity).2.Records (requests ++ [identity]) := by
  rcases getOrCreate_cases registry identity with ⟨handle, held, eq⟩ | ⟨fresh, eq⟩
  · rw [eq]
    refine ⟨hrecords.once, fun other => ?_⟩
    rw [hrecords.first, List.find?_append]
    cases asked : requests.find? (·.database == other.database) with
    | some first => rfl
    | none =>
        have hdifferent : identity.database ≠ other.database := by
          intro same
          rw [← same, ← hrecords.handle?_eq_none, held] at asked
          cases asked
        simp [hdifferent]
  · rw [eq]
    have hunmade := Registry.handle?_eq_none.mp fresh
    constructor
    · rw [List.map_append, List.nodup_append]
      refine ⟨hrecords.once, List.nodup_singleton _, ?_⟩
      simpa using hunmade
    · intro other
      rw [List.mem_append, List.mem_singleton, hrecords.first, List.find?_append]
      cases asked : requests.find? (·.database == other.database) with
      | some first =>
          have hdifferent : other ≠ identity := by
            rintro rfl
            rw [hrecords.handle?_eq_none.mp fresh] at asked
            cases asked
          simp [hdifferent]
      | none =>
          by_cases same : identity.database = other.database
          · simp [same, eq_comm]
          · have hdifferent : other ≠ identity := fun eq => same (congrArg _ eq.symm)
            simp [same, hdifferent]

theorem Records.connectEach (hrecords : registry.Records requests)
    (identities : List ServerIdentity) :
    (registry.connectEach identities).Records (requests ++ identities) := by
  unfold Registry.connectEach
  induction identities generalizing registry requests with
  | nil => simpa using hrecords
  | cons identity rest ih =>
      have hlater := ih (hrecords.getOrCreate identity)
      rw [List.append_assoc] at hlater
      exact hlater

theorem connectEach_append (registry : Registry) (first second : List ServerIdentity) :
    registry.connectEach (first ++ second) = (registry.connectEach first).connectEach second :=
  List.foldl_append

end Registry

namespace Backend

variable {α : Type}

theorem connectAll_registry (registry : Registry) (plans : List Compiler.ServerPlan) :
    (connectAll registry plans).2 =
      registry.connectEach ((connectAll registry plans).1.map (·.identity)) := by
  induction plans generalizing registry with
  | nil => rfl
  | cons plan rest ih => exact ih _

theorem handle?_connectAll (registry : Registry) (plans : List Compiler.ServerPlan) :
    ∀ set ∈ (connectAll registry plans).1,
      (connectAll registry plans).2.handle? set.identity.database = some set.handle := by
  induction plans generalizing registry with
  | nil => simp [connectAll]
  | cons plan rest ih =>
      rw [connectAll, List.forall_mem_cons]
      refine ⟨?_, ih _⟩
      apply Registry.handle?_of_made_prefix (made_prefix_connectAll _ rest)
      exact Registry.handle?_getOrCreate registry plan.identity

def setsOf (result : Except CompileError (List MetricSet)) : List MetricSet :=
  match result with
  | .ok sets => sets
  | .error _ => []

/-- Some servers are looked up and the servers of the sets are connected, and nothing else. -/
structure Connects (before : Registry) (lookups : List ServerIdentity)
    (run : Except CompileError (List MetricSet) × Backend α) : Prop where
  registry : run.2.registry =
    before.connectEach (lookups ++ (setsOf run.1).map (·.identity))
  held : ∀ set ∈ setsOf run.1, run.2.registry.handle? set.identity.database = some set.handle

theorem Connects.grows {before : Registry} {lookups : List ServerIdentity}
    {run : Except CompileError (List MetricSet) × Backend α}
    (hconnects : Connects before lookups run) : before.made <+: run.2.registry.made := by
  rw [hconnects.registry]
  exact Registry.made_prefix_connectEach _ _

theorem compile_connects (tree : Node) (backend : Backend α) :
    Connects backend.registry [] ((compile tree).run.run backend) := by
  rcases compile_cases tree backend with ⟨⟨error, run⟩, _⟩ | ⟨plans, views, new, _, _, run⟩
  · rw [run]
    exact ⟨rfl, by simp [setsOf]⟩
  · rw [run]
    exact ⟨connectAll_registry backend.registry plans, handle?_connectAll backend.registry plans⟩

theorem compileConfiguration_connects (directories : Directories) (tree : Node)
    (backend : Backend α) :
    Connects backend.registry (lookedUp tree)
      ((compileConfiguration directories tree).run.run backend) := by
  obtain ⟨before, _, registry, ⟨error, run⟩ | ⟨expanded, run⟩⟩ :=
    compileConfiguration_cases directories tree backend
  · rw [run]
    refine ⟨?_, by simp [setsOf]⟩
    simpa [setsOf] using registry
  · have hcompiled := compile_connects expanded before
    rw [run]
    refine ⟨?_, hcompiled.held⟩
    rw [hcompiled.registry, List.nil_append, registry, Registry.connectEach_append]

end Backend

namespace Registry

/-- A use of a registry, with the store that there is then. -/
inductive Call (α : Type) where
  | getOrCreate (identity : ServerIdentity)
  | compile (store : Store α) (tree : Node)
  | compileConfiguration (store : Store α) (directories : Directories) (tree : Node)

/-- A registry with what it was asked for, the handles that it gave and the sets that
were returned. -/
structure Lifetime where
  registry : Registry
  requests : List ServerIdentity
  given : List (ServerIdentity × Nat)
  sets : List MetricSet

namespace Lifetime

variable {α : Type} {life : Lifetime}

def start : Lifetime := ⟨.empty, [], [], []⟩

def compiled (life : Lifetime) (lookups : List ServerIdentity)
    (run : Except CompileError (List MetricSet) × Backend α) : Lifetime :=
  { life with
    registry := run.2.registry
    requests := life.requests ++ (lookups ++ (Backend.setsOf run.1).map (·.identity))
    sets := life.sets ++ Backend.setsOf run.1 }

def call (life : Lifetime) : Call α → Lifetime
  | .getOrCreate identity =>
      { life with
        registry := (life.registry.getOrCreate identity).2
        requests := life.requests ++ [identity]
        given := life.given ++ [(identity, (life.registry.getOrCreate identity).1)] }
  | .compile store tree =>
      life.compiled [] ((Backend.compile tree).run.run ⟨life.registry, store, []⟩)
  | .compileConfiguration store directories tree =>
      life.compiled (Backend.lookedUp tree)
        ((Backend.compileConfiguration directories tree).run.run ⟨life.registry, store, []⟩)

def through (calls : List (Call α)) : Lifetime := calls.foldl call start

theorem through_concat (calls : List (Call α)) (last : Call α) :
    through (calls ++ [last]) = (through calls).call last := by
  rw [through, List.foldl_append]
  rfl

def handles (life : Lifetime) : List (ServerIdentity × Nat) :=
  life.given ++ life.sets.map fun set => (set.identity, set.handle)

structure Sound (life : Lifetime) : Prop where
  records : life.registry.Records life.requests
  held : ∀ one ∈ life.handles, life.registry.handle? one.1.database = some one.2

theorem Sound.compiled (hsound : life.Sound) {lookups : List ServerIdentity}
    {run : Except CompileError (List MetricSet) × Backend α}
    (hconnects : Backend.Connects life.registry lookups run) :
    (life.compiled lookups run).Sound := by
  refine ⟨?_, ?_⟩
  · have hrecords := hsound.records.connectEach
      (lookups ++ (Backend.setsOf run.1).map (·.identity))
    rw [← hconnects.registry] at hrecords
    exact hrecords
  · intro one member
    rw [handles, Lifetime.compiled, List.map_append, ← List.append_assoc] at member
    rcases List.mem_append.mp member with earlier | new
    · exact handle?_of_made_prefix hconnects.grows (hsound.held one earlier)
    · obtain ⟨set, inSets, rfl⟩ := List.mem_map.mp new
      exact hconnects.held set inSets

theorem Sound.call (hsound : life.Sound) (call : Call α) : (life.call call).Sound := by
  cases call with
  | getOrCreate identity =>
      refine ⟨hsound.records.getOrCreate identity, ?_⟩
      intro one member
      rw [handles, Lifetime.call] at member
      have horigin : one ∈ life.handles ∨
          one = (identity, (life.registry.getOrCreate identity).1) := by
        simp only [handles, List.mem_append, List.mem_singleton] at member ⊢
        tauto
      rcases horigin with earlier | rfl
      · exact handle?_of_made_prefix (made_prefix_getOrCreate life.registry identity)
          (hsound.held one earlier)
      · exact handle?_getOrCreate life.registry identity
  | compile store tree =>
      exact hsound.compiled (Backend.compile_connects tree ⟨life.registry, store, []⟩)
  | compileConfiguration store directories tree =>
      exact hsound.compiled
        (Backend.compileConfiguration_connects directories tree ⟨life.registry, store, []⟩)

theorem through_sound (calls : List (Call α)) : (through calls).Sound := by
  induction calls using List.reverseRecOn with
  | nil => exact ⟨records_empty, by simp [through, start, handles]⟩
  | append_singleton calls last ih =>
      rw [through_concat]
      exact ih.call last

theorem made_prefix_call (life : Lifetime) (call : Call α) :
    life.registry.made <+: (life.call call).registry.made := by
  cases call with
  | getOrCreate identity => exact made_prefix_getOrCreate life.registry identity
  | compile store tree =>
      exact (Backend.compile_connects tree ⟨life.registry, store, []⟩).grows
  | compileConfiguration store directories tree =>
      exact (Backend.compileConfiguration_connects directories tree
        ⟨life.registry, store, []⟩).grows

theorem made_prefix_through (calls more : List (Call α)) :
    (through calls).registry.made <+: (through (calls ++ more)).registry.made := by
  induction more using List.reverseRecOn with
  | nil => simp
  | append_singleton more last ih =>
      apply ih.trans
      rw [← List.append_assoc, through_concat]
      exact made_prefix_call _ last

/-- Each name that was asked for has one connection, made for the first request, which is never
given up or replaced. Two handles are the same exactly if they are for one name, and each metric
set has the handle that the registry holds for its own server, whose directory answers it. -/
structure ConnectsOnce (calls : List (Call α)) : Prop where
  once : ((through calls).registry.made.map (·.database)).Nodup
  first : ∀ identity, identity ∈ (through calls).registry.made ↔
    (through calls).requests.find? (·.database == identity.database) = some identity
  kept : ∀ more, (through calls).registry.made <+: (through (calls ++ more)).registry.made
  same : ∀ a ∈ (through calls).handles, ∀ b ∈ (through calls).handles,
    a.2 = b.2 ↔ a.1.database = b.1.database
  own : ∀ more, ∀ set ∈ (through calls).sets,
    (through (calls ++ more)).registry.handle? set.identity.database = some set.handle ∧
      ((through (calls ++ more)).registry.made[set.handle]?).map (·.database) =
        some set.identity.database ∧
      ∀ directories : Directories, (through (calls ++ more)).registry.connections directories
        set.handle = directories set.identity.database

theorem connects_once (calls : List (Call α)) : ConnectsOnce calls := by
  have hsound := through_sound calls
  refine ⟨hsound.records.once, hsound.records.first, made_prefix_through calls, ?same, ?own⟩
  case same =>
    intro a inA b inB
    have heldA := hsound.held a inA
    have heldB := hsound.held b inB
    constructor
    · intro same
      have hmadeA := made_of_handle? heldA
      rw [same, made_of_handle? heldB, Option.some.injEq] at hmadeA
      exact hmadeA.symm
    · intro same
      rw [same, heldB, Option.some.injEq] at heldA
      exact heldA.symm
  case own =>
    intro more set member
    have hinHandles : (set.identity, set.handle) ∈ (through calls).handles :=
      List.mem_append_right _ (List.mem_map_of_mem member)
    have hheld := handle?_of_made_prefix (made_prefix_through calls more)
      (hsound.held _ hinHandles)
    exact ⟨hheld, made_of_handle? hheld, connections_of_handle? hheld⟩

end Lifetime

end Registry

end DirectoryMetrics
