import DirectoryMetrics.Proofs.Tree.ListedServers

namespace DirectoryMetrics

theorem Mapping.serverName?_congr {m m' : Mapping}
    (hsame : ∀ field, field ≠ Field.object → m'.get? field = m.get? field) :
    m'.serverName? = m.serverName? := by
  simp only [serverName?, nonempty?, text?, hsame Field.database (by decide),
    hsame Field.connection (by decide)]

namespace Node

variable {tree changed : Node} {P Q : Node → Prop} {f : Owner → Node → Except ConfigError Node}

/-- The shared object tree and those of the listed servers have a property. -/
structure Objects (P : Node → Prop) (tree : Node) : Prop where
  shared : ∀ object, tree.field? Field.object = some object → P object
  own : ∀ server ∈ tree.listedServers, ∀ object, server.get? Field.object = some object → P object

theorem Objects.mono (hweaker : ∀ object, P object → Q object) (hobjects : tree.Objects P) :
    tree.Objects Q :=
  ⟨fun object found => hweaker object (hobjects.shared object found),
    fun server listed object found => hweaker object (hobjects.own server listed object found)⟩

theorem objects_trivial (tree : Node) : tree.Objects fun _ => True :=
  ⟨fun _ _ => trivial, fun _ _ _ _ => trivial⟩

theorem modify_object_of {owner : Owner} {m new : Mapping}
    (heach : ∀ owner object changed, P object → f owner object = .ok changed → Q changed)
    (hholds : ∀ object, m.get? Field.object = some object → P object)
    (hchanging : m.modify Field.object (f owner) = .ok new) :
    ∀ object, new.get? Field.object = some object → Q object := by
  intro object found
  rcases Mapping.modify_eq_ok hchanging with ⟨absent, rfl⟩ | ⟨before, after, own, eq, rfl⟩
  · rw [absent] at found
    cases found
  · rw [Mapping.get?_set_self] at found
    cases found
    exact heach _ _ _ (hholds _ own) eq

theorem mapObjectTrees_fields (hchanging : tree.mapObjectTrees f = .ok changed) :
    ∃ root new between, tree.mapping? = some root ∧ changed.mapping? = some new ∧
      root.modify Field.object (f none) = .ok between ∧
      ∀ field, field ≠ Field.ldapServers → new.get? field = between.get? field := by
  obtain ⟨root, new, isRoot, making, rfl⟩ := mapRoot_eq_ok.mp hchanging
  obtain ⟨between, sharing, serving⟩ := Except.bind_eq_ok.mp making
  exact ⟨root, new, between, isRoot, mapping?_withMapping new tree, sharing,
    (mapServers_listed serving).2⟩

theorem Objects.mapObjectTrees
    (heach : ∀ owner object changed, P object → f owner object = .ok changed → Q changed)
    (hchanging : tree.mapObjectTrees f = .ok changed) (hobjects : tree.Objects P) :
    changed.Objects Q := by
  constructor
  · obtain ⟨root, new, between, isRoot, isNew, sharing, others⟩ := mapObjectTrees_fields hchanging
    rw [field?_of_mapping? isNew, others _ (by decide)]
    refine modify_object_of heach ?_ sharing
    rw [← field?_of_mapping? isRoot]
    exact hobjects.shared
  · refine forall_mem_of_forall₂
      (P := fun server : Mapping => ∀ object, server.get? Field.object = some object → Q object)
      (((List.forall₂_and_left _ _).mpr ⟨hobjects.own, mapObjectTrees_listed hchanging⟩).imp ?_)
    rintro before after ⟨holds, hchanging⟩
    exact modify_object_of heach holds hchanging

theorem mapObjectTrees_field?_of_ne (hchanging : tree.mapObjectTrees f = .ok changed)
    {field : String}
    (hnotObject : field ≠ Field.object) (hnotServers : field ≠ Field.ldapServers) :
    changed.field? field = tree.field? field := by
  obtain ⟨root, new, between, isRoot, isNew, sharing, others⟩ := mapObjectTrees_fields hchanging
  rw [field?_of_mapping? isNew, field?_of_mapping? isRoot, others _ hnotServers,
    (modify_object_changed sharing).2.1 _ hnotObject]

theorem mapObjectTrees_fixed {root : Mapping} (hroot : tree.mapping? = some root)
    (hfixed : tree.Objects fun object => ∀ owner, f owner object = .ok object) :
    tree.mapObjectTrees f = .ok tree := by
  have hunchanged {owner : Owner} {m : Mapping}
      (hfixed : ∀ object, m.get? Field.object = some object →
        ∀ owner, f owner object = .ok object) :
      m.modify Field.object (f owner) = .ok m := by
    rw [Mapping.modify_eq]
    cases own : m.get? Field.object with
    | none => rfl
    | some object =>
        simp only [hfixed object own owner]
        exact congrArg _ (Mapping.set_of_get?_eq_some own)
  refine mapRoot_eq_ok.mpr ⟨root, root, hroot, ?_, withMapping_of_mapping? hroot⟩
  refine Except.bind_eq_ok.mpr ⟨root, hunchanged ?_, mapServers_fixed fun server listed => ?_⟩
  · rw [← field?_of_mapping? hroot]
    exact hfixed.shared
  · rw [← listedServers_of_mapping? hroot] at listed
    exact hunchanged (hfixed.own server listed)

theorem mapObjectTrees_mapObjectTrees {g : Node → Except ConfigError Node}
    (habsorbs : ∀ owner before after, f owner before = .ok after → g after = g before)
    (hchanging : tree.mapObjectTrees f = .ok changed) :
    changed.mapObjectTrees (fun _ => g) = tree.mapObjectTrees fun _ => g := by
  obtain ⟨root, new, isRoot, making, rfl⟩ := mapRoot_eq_ok.mp hchanging
  obtain ⟨between, sharing, serving⟩ := Except.bind_eq_ok.mp making
  have hshared : new.modify Field.object g =
      root.modify Field.object g >>= fun m =>
        mapServers (fun server => server.modify Field.object (f server.serverName?)) m := by
    rw [Mapping.modify_modify_of_ne (by decide) serving,
      Mapping.modify_modify_self (habsorbs none) sharing]
    rfl
  have hserved : ∀ m, root.modify Field.object g = .ok m → ∃ later,
      mapServers (fun server => server.modify Field.object (f server.serverName?)) m =
        .ok later ∧
      mapServers (fun server => server.modify Field.object g) later =
        mapServers (fun server => server.modify Field.object g) m := by
    intro m eq
    have same : m.get? Field.ldapServers = between.get? Field.ldapServers := by
      rw [Mapping.get?_modify_of_ne (by decide) eq, Mapping.get?_modify_of_ne (by decide) sharing]
    obtain ⟨later, making⟩ := Mapping.modify_isOk_iff.mpr fun servers found =>
      Mapping.modify_isOk_iff.mp ⟨new, serving⟩ servers (same ▸ found)
    exact ⟨later, making, mapServers_mapServers
      (fun before after eq => Mapping.modify_modify_self (habsorbs _) eq) making⟩
  rw [mapObjectTrees, mapObjectTrees, mapRoot, mapRoot, modifyMapping?_eq, modifyMapping?_eq,
    isRoot, mapping?_withMapping]
  simp only [Option.map_some, Option.getD_some, withMapping_withMapping, hshared]
  congr 1
  cases eq : root.modify Field.object g with
  | error error => rfl
  | ok m =>
      obtain ⟨later, making, same⟩ := hserved m eq
      simp only [bind, Except.bind, making, same]

theorem mapping?_of_mapObjectTrees (hchanging : tree.mapObjectTrees f = .ok changed) :
    ∃ root, changed.mapping? = some root := by
  obtain ⟨_, new, _, _, isNew, _⟩ := mapObjectTrees_fields hchanging
  exact ⟨new, isNew⟩

/-- The object trees of a configuration and whose they are, in the order of a pass. -/
def ownedObjects (tree : Node) : List (Owner × Node) :=
  (tree.field? Field.object).toList.map (fun object => (none, object)) ++
    tree.listedServers.flatMap fun server =>
      (server.get? Field.object).toList.map fun object => (server.serverName?, object)

theorem Objects.forall_mem_owned (hobjects : tree.Objects P) :
    ∀ owned ∈ tree.ownedObjects, P owned.2 := by
  rw [ownedObjects, List.forall_mem_append]
  constructor
  · simpa [Option.mem_toList] using hobjects.shared
  · intro owned member
    obtain ⟨server, listed, inside⟩ := List.mem_flatMap.mp member
    obtain ⟨object, found, rfl⟩ := List.mem_map.mp inside
    exact hobjects.own server listed object (Option.mem_toList.mp found)

theorem ownedObjects_of_modify {owner : Owner} {m new : Mapping}
    (hchanging : m.modify Field.object (f owner) = .ok new) :
    List.Forall₂ (fun before after => before.1 = after.1 ∧ f before.1 before.2 = .ok after.2)
      ((m.get? Field.object).toList.map fun object => (owner, object))
      ((new.get? Field.object).toList.map fun object => (owner, object)) := by
  rcases Mapping.modify_eq_ok hchanging with ⟨absent, rfl⟩ | ⟨before, after, own, eq, rfl⟩
  · rw [absent]
    exact .nil
  · rw [own, Mapping.get?_set_self]
    exact .cons ⟨rfl, eq⟩ .nil

theorem mapObjectTrees_ownedObjects (hchanging : tree.mapObjectTrees f = .ok changed) :
    List.Forall₂ (fun before after => before.1 = after.1 ∧ f before.1 before.2 = .ok after.2)
      tree.ownedObjects changed.ownedObjects := by
  rw [ownedObjects, ownedObjects]
  apply List.rel_append
  · obtain ⟨root, new, between, isRoot, isNew, sharing, others⟩ := mapObjectTrees_fields hchanging
    rw [field?_of_mapping? isRoot, field?_of_mapping? isNew, others _ (by decide)]
    exact ownedObjects_of_modify sharing
  · refine List.rel_flatMap (mapObjectTrees_listed hchanging) ?_
    intro before after hchanging
    have hsameName := Mapping.serverName?_congr (modify_object_changed hchanging).2.1
    simp only [hsameName]
    exact ownedObjects_of_modify hchanging

/-- A pass over the object trees fails with the first error in one of them. -/
theorem mapObjectTrees_eq_error_iff {root : Mapping} (hroot : tree.mapping? = some root)
    {errors : Owner → Node → List ConfigError}
    (heach : ∀ owner object error,
      f owner object = .error error ↔ (errors owner object).head? = some error)
    {error : ConfigError} :
    tree.mapObjectTrees f = .error error ↔
      (tree.ownedObjects.flatMap fun tree => errors tree.1 tree.2).head? = some error := by
  have hmodifying : ∀ owner (m : Mapping) error, m.modify Field.object (f owner) = .error error ↔
      (((m.get? Field.object).toList.map fun object => (owner, object)).flatMap
        fun tree => errors tree.1 tree.2).head? = some error := by
    intro owner m error
    rw [Mapping.modify_eq]
    cases m.get? Field.object with
    | none => simp
    | some object => simp [Except.map_eq_error, heach]
  have hserving : ∀ m : Mapping,
      mapServers (fun server => server.modify Field.object (f server.serverName?)) m =
          .error error ↔
        (((Node.mapping m).listedServers.flatMap fun server =>
          (server.get? Field.object).toList.map fun object => (server.serverName?, object)).flatMap
            fun tree => errors tree.1 tree.2).head? = some error := by
    intro m
    rw [List.flatMap_assoc]
    exact mapServers_eq_error_iff fun server error => hmodifying server.serverName? server error
  rw [mapObjectTrees, mapRoot_eq_error hroot, Except.bind_eq_error, ownedObjects,
    field?_of_mapping? hroot, listedServers_of_mapping? hroot, List.flatMap_append,
    List.head?_append, Option.or_eq_some_iff, ← hmodifying, ← hserving]
  refine or_congr_right ?_
  cases sharing : root.modify Field.object (f none) with
  | error failed =>
      rw [hmodifying] at sharing
      simp [sharing]
  | ok between =>
      have hunchanged := (modify_object_changed sharing).2.1 Field.ldapServers (by decide)
      have hnoError : ∀ error, root.modify Field.object (f none) ≠ .error error := by
        rw [sharing]
        intro _ failed
        cases failed
      simp only [ne_eq, hmodifying, ← Option.eq_none_iff_forall_ne_some] at hnoError
      rw [hserving root, ← listedServers_congr hunchanged, ← hserving between]
      simp [hnoError]

def Supplied (tree : Node) : Prop :=
  tree.field? Field.object ≠ none → ∀ server ∈ tree.listedServers, server.get? Field.object ≠ none

theorem modify_object_get? {owner : Owner} {m new : Mapping}
    (hchanging : m.modify Field.object (f owner) = .ok new) :
    new.get? Field.object ≠ none ↔ m.get? Field.object ≠ none := by
  rcases Mapping.modify_eq_ok hchanging with ⟨_, rfl⟩ | ⟨before, after, own, eq, rfl⟩
  · rfl
  · simp [own]

theorem Supplied.mapObjectTrees (hchanging : tree.mapObjectTrees f = .ok changed)
    (hsupplied : tree.Supplied) : changed.Supplied := by
  intro shared
  obtain ⟨root, new, between, isRoot, isNew, sharing, others⟩ := mapObjectTrees_fields hchanging
  rw [field?_of_mapping? isNew, others _ (by decide), modify_object_get? sharing,
    ← field?_of_mapping? isRoot] at shared
  refine forall_mem_of_forall₂ (P := fun server : Mapping => server.get? Field.object ≠ none)
    (((List.forall₂_and_left _ _).mpr ⟨hsupplied shared, mapObjectTrees_listed hchanging⟩).imp ?_)
  rintro before after ⟨held, hchanging⟩
  exact (modify_object_get? hchanging).mpr held

end Node

namespace SharedObject

variable {tree changed : Node} {P : Node → Prop}

theorem giveTo_get? (shared : Node) (server : Mapping) :
    (giveTo shared server).get? Field.object = (server.get? Field.object).or (some shared) := by
  rw [giveTo, Mapping.has]
  cases own : server.get? Field.object with
  | some object => simp [own]
  | none =>
      rw [Option.isSome_none, if_neg Bool.false_ne_true, ← Mapping.set_of_get?_eq_none own,
        Mapping.get?_set_self]
      rfl

theorem giveTo_of_get? {shared object : Node} {server : Mapping}
    (hown : server.get? Field.object = some object) : giveTo shared server = server := by
  rw [giveTo, Mapping.has, hown, Option.isSome_some, if_pos rfl]

theorem replicate_cases (hsharing : replicate tree = .ok changed) :
    (tree.field? Field.object = none ∧ changed = tree) ∨
      ∃ shared, tree.field? Field.object = some shared ∧
        changed.field? Field.object = some shared ∧
        changed.listedServers = tree.listedServers.map (giveTo shared) := by
  obtain ⟨root, new, isRoot, giving, rfl⟩ := Node.mapRoot_eq_ok.mp hsharing
  rw [Node.field?_of_mapping? isRoot, Node.field?_of_mapping? (Node.mapping?_withMapping new tree),
    Node.listedServers_of_mapping? isRoot,
    Node.listedServers_of_mapping? (Node.mapping?_withMapping new tree)]
  cases own : root.get? Field.object with
  | none =>
      rw [own] at giving
      cases giving
      exact .inl ⟨rfl, Node.withMapping_of_mapping? isRoot⟩
  | some shared =>
      rw [own] at giving
      obtain ⟨servers, others⟩ := Node.mapServers_listed giving
      refine .inr ⟨shared, rfl, by rw [others _ (by decide), own], ?_⟩
      rw [← List.forall₂_eq_eq_eq, List.forall₂_map_right_iff]
      exact (servers.imp fun before after eq => (Except.ok.inj eq).symm).flip

theorem objects_replicate (hsharing : replicate tree = .ok changed) (hobjects : tree.Objects P) :
    changed.Objects P := by
  rcases replicate_cases hsharing with ⟨_, rfl⟩ | ⟨shared, found, foundAfter, servers⟩
  · exact hobjects
  · have hholds := hobjects.shared shared found
    refine ⟨fun object eq => ?_, fun server listed object eq => ?_⟩
    · rw [foundAfter] at eq
      cases eq
      exact hholds
    · rw [servers] at listed
      obtain ⟨before, inside, rfl⟩ := List.mem_map.mp listed
      rw [giveTo_get?] at eq
      cases own : before.get? Field.object with
      | none =>
          rw [own] at eq
          cases eq
          exact hholds
      | some held =>
          rw [own] at eq
          cases eq
          exact hobjects.own before inside _ own

theorem supplied_replicate (hsharing : replicate tree = .ok changed) : changed.Supplied := by
  rcases replicate_cases hsharing with ⟨absent, rfl⟩ | ⟨shared, _, _, servers⟩
  · exact fun found => absurd absent found
  · intro _ server listed
    rw [servers] at listed
    obtain ⟨before, _, rfl⟩ := List.mem_map.mp listed
    rw [giveTo_get?]
    cases before.get? Field.object <;> simp

theorem replicate_of_supplied {root : Mapping} (hroot : tree.mapping? = some root)
    (hsupplied : tree.Supplied) : replicate tree = .ok tree := by
  refine Node.mapRoot_eq_ok.mpr ⟨root, root, hroot, ?_, Node.withMapping_of_mapping? hroot⟩
  rw [Node.Supplied, Node.field?_of_mapping? hroot,
    Node.listedServers_of_mapping? hroot] at hsupplied
  cases own : root.get? Field.object with
  | none => rfl
  | some shared =>
      refine Node.mapServers_fixed fun server listed => ?_
      obtain ⟨object, held⟩ := Option.ne_none_iff_exists'.mp
        (hsupplied (by simp [own]) server listed)
      rw [giveTo_of_get? held]

end SharedObject

end DirectoryMetrics
