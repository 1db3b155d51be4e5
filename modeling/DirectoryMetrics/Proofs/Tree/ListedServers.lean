import DirectoryMetrics.Proofs.Tree.ServerEntries

namespace DirectoryMetrics

/-! Listed servers. The passes go through a list of servers that is not under a tag, whatever tags
the configuration and the entries of the list are under. -/

namespace Node

def withMapping (m : Mapping) : Node → Node
  | .tagged tag content => .tagged tag (content.withMapping m)
  | _ => .mapping m

theorem mapping?_withMapping (m : Mapping) : ∀ node : Node, (node.withMapping m).mapping? = some m
  | .tagged _ content => mapping?_withMapping m content
  | .null | .bool _ | .int _ | .float _ | .text _ | .sequence _ | .mapping _ => rfl

theorem withMapping_withMapping (m later : Mapping) :
    ∀ node : Node, (node.withMapping m).withMapping later = node.withMapping later
  | .tagged tag content => congrArg (Node.tagged tag) (withMapping_withMapping m later content)
  | .null | .bool _ | .int _ | .float _ | .text _ | .sequence _ | .mapping _ => rfl

theorem withMapping_of_mapping? {m : Mapping} : ∀ {node : Node}, node.mapping? = some m →
    node.withMapping m = node
  | .tagged tag _, held => congrArg (Node.tagged tag) (withMapping_of_mapping? held)
  | .mapping _, rfl => rfl

theorem modifyMapping?_eq {ε : Type} (f : Mapping → Except ε Mapping) : ∀ node : Node,
    node.modifyMapping? f = node.mapping?.map fun m => (f m).map fun new => node.withMapping new
  | .tagged tag content => by
      have hunder : (Node.tagged tag content).mapping? = content.mapping? := rfl
      rw [modifyMapping?, modifyMapping?_eq f content, hunder]
      cases content.mapping? with
      | none => rfl
      | some m =>
          simp only [Option.map_some]
          cases f m <;> rfl
  | .null | .bool _ | .int _ | .float _ | .text _ | .sequence _ | .mapping _ => rfl

/-- The entries of a list of servers that is not under a tag. -/
def listedServers (tree : Node) : List Mapping :=
  match tree.field? Field.ldapServers with
  | some (.sequence servers) => servers.filterMap Node.mapping?
  | _ => []

theorem serverEntries_eq_listedServers {tree : Node} {servers : List Node}
    (hlisted : tree.field? Field.ldapServers = some (.sequence servers)) :
    tree.serverEntries = tree.listedServers := by
  rw [serverEntries, listedServers, hlisted]
  rfl

section

variable {f : Mapping → Except ConfigError Mapping}

theorem changeServer_eq (server : Node) :
    (server.modifyMapping? f).getD (.ok server) =
      match server.mapping? with
      | none => .ok server
      | some m => (f m).map fun new => server.withMapping new := by
  rw [modifyMapping?_eq]
  cases server.mapping? <;> rfl

theorem changeServer_mapping? {servers changed : List Node}
    (heach : List.Forall₂ (fun (server : Node) after =>
      (server.modifyMapping? f).getD (.ok server) = .ok after) servers changed) :
    List.Forall₂ (fun before after => f before = .ok after)
      (servers.filterMap Node.mapping?) (changed.filterMap Node.mapping?) := by
  induction heach with
  | nil => exact .nil
  | @cons server after later later' head tail ih =>
      rw [changeServer_eq] at head
      cases held : server.mapping? with
      | none =>
          rw [held] at head
          cases head
          rw [List.filterMap_cons_none held, List.filterMap_cons_none held]
          exact ih
      | some m =>
          rw [held] at head
          obtain ⟨new, eq, rfl⟩ := Except.map_eq_ok.mp head
          rw [List.filterMap_cons_some held, List.filterMap_cons_some (mapping?_withMapping new _)]
          exact .cons eq ih

theorem changeServer_changeServer {g : Mapping → Except ConfigError Mapping} {server after : Node}
    (habsorbs : ∀ before after, f before = .ok after → g after = g before)
    (hchanging : (server.modifyMapping? f).getD (.ok server) = .ok after) :
    (after.modifyMapping? g).getD (.ok after) = (server.modifyMapping? g).getD (.ok server) := by
  rw [changeServer_eq] at hchanging
  rw [changeServer_eq, changeServer_eq]
  cases held : server.mapping? with
  | none =>
      rw [held] at hchanging
      cases hchanging
      rw [held]
  | some m =>
      rw [held] at hchanging
      obtain ⟨new, eq, rfl⟩ := Except.map_eq_ok.mp hchanging
      simp only [mapping?_withMapping, habsorbs m new eq, withMapping_withMapping]

theorem mapServers_mapServers {g : Mapping → Except ConfigError Mapping} {root changed : Mapping}
    (habsorbs : ∀ before after, f before = .ok after → g after = g before)
    (hchanging : mapServers f root = .ok changed) : mapServers g changed = mapServers g root := by
  refine Mapping.modify_modify_self (fun servers after eq => ?_) hchanging
  cases servers with
  | sequence servers =>
      obtain ⟨later, each, rfl⟩ := Except.map_eq_ok.mp eq
      exact congrArg (Except.map Node.sequence)
        (Except.mapM_mapM_self (fun _ _ => changeServer_changeServer habsorbs) each)
  | _ =>
      cases eq
      rfl

theorem mapServers_listed {root changed : Mapping} (hchanging : mapServers f root = .ok changed) :
    List.Forall₂ (fun before after => f before = .ok after)
        (Node.mapping root).listedServers (Node.mapping changed).listedServers ∧
      ∀ field, field ≠ Field.ldapServers → changed.get? field = root.get? field := by
  have hfields (m : Mapping) : (Node.mapping m).field? Field.ldapServers =
      m.get? Field.ldapServers := rfl
  simp only [listedServers, hfields]
  rcases Mapping.modify_eq_ok hchanging with ⟨absent, rfl⟩ | ⟨servers, after, found, eq, rfl⟩
  · rw [absent]
    exact ⟨.nil, fun _ _ => rfl⟩
  · refine ⟨?_, fun field notServers => Mapping.get?_set_of_ne notServers _ _⟩
    rw [found, Mapping.get?_set_self]
    cases servers with
    | sequence servers =>
        obtain ⟨walked, each, rfl⟩ := Except.map_eq_ok.mp eq
        exact changeServer_mapping? (Except.mapM_eq_ok.mp each)
    | _ =>
        cases eq
        exact .nil

theorem mapServers_eq_error {root : Mapping} {error : ConfigError}
    (hfailing : mapServers f root = .error error) :
    ∃ server ∈ (Node.mapping root).listedServers, f server = .error error := by
  rw [mapServers, Mapping.modify_eq] at hfailing
  have hfield : (Node.mapping root).field? Field.ldapServers = root.get? Field.ldapServers := rfl
  rw [listedServers, hfield]
  cases found : root.get? Field.ldapServers with
  | none =>
      rw [found] at hfailing
      cases hfailing
  | some listed =>
      rw [found, Except.map_eq_error] at hfailing
      cases listed with
      | sequence servers =>
          simp only [Except.map_eq_error] at hfailing
          obtain ⟨server, member, failed⟩ := Except.mapM_eq_error hfailing
          rw [changeServer_eq] at failed
          cases held : server.mapping? with
          | none =>
              rw [held] at failed
              cases failed
          | some m =>
              rw [held, Except.map_eq_error] at failed
              exact ⟨m, List.mem_filterMap.mpr ⟨server, member, held⟩, failed⟩
      | _ => cases hfailing

theorem mapServers_eq_error_iff {errors : Mapping → List ConfigError}
    (heach : ∀ server error, f server = .error error ↔ (errors server).head? = some error)
    {root : Mapping} {error : ConfigError} :
    mapServers f root = .error error ↔
      ((Node.mapping root).listedServers.flatMap errors).head? = some error := by
  have hchanges : ∀ (server : Node) error,
      (server.modifyMapping? f).getD (.ok server) = .error error ↔
        (server.mapping?.toList.flatMap errors).head? = some error := by
    intro server error
    rw [changeServer_eq]
    cases server.mapping? with
    | none => simp
    | some m => simp [Except.map_eq_error, heach]
  rw [mapServers, Mapping.modify_eq]
  have hfield : (Node.mapping root).field? Field.ldapServers = root.get? Field.ldapServers := rfl
  rw [listedServers, hfield]
  cases root.get? Field.ldapServers with
  | none => simp
  | some listed =>
      cases listed with
      | sequence servers =>
          rw [Except.map_eq_error, Except.map_eq_error,
            Except.mapM_eq_error_iff fun server _ => hchanges server]
          simp only [List.filterMap_eq_flatMap_toList, List.flatMap_assoc]
      | _ => simp [Except.map]

theorem mapServers_isOk_iff {root : Mapping} :
    (∃ changed, mapServers f root = .ok changed) ↔
      ∀ server ∈ (Node.mapping root).listedServers, ∃ changed, f server = .ok changed := by
  constructor
  · rintro ⟨changed, changing⟩
    exact forall_mem_left_of_forall₂ (P := fun server => ∃ changed, f server = .ok changed)
      ((mapServers_listed changing).1.imp fun _ after eq => ⟨after, eq⟩)
  · intro each
    cases changing : mapServers f root with
    | ok changed => exact ⟨changed, rfl⟩
    | error error =>
        obtain ⟨server, listed, failed⟩ := mapServers_eq_error changing
        obtain ⟨changed, eq⟩ := each server listed
        rw [eq] at failed
        cases failed

theorem mapServers_fixed {root : Mapping}
    (hfixed : ∀ server ∈ (Node.mapping root).listedServers, f server = .ok server) :
    mapServers f root = .ok root := by
  rw [mapServers, Mapping.modify_eq]
  have hfield : (Node.mapping root).field? Field.ldapServers = root.get? Field.ldapServers := rfl
  rw [listedServers, hfield] at hfixed
  cases found : root.get? Field.ldapServers with
  | none => rfl
  | some listed =>
      rw [found] at hfixed
      refine Except.map_eq_ok.mpr ⟨listed, ?_, Mapping.set_of_get?_eq_some found⟩
      cases listed with
      | sequence servers =>
          refine Except.map_eq_ok.mpr ⟨servers, Except.mapM_eq_ok.mpr ?_, rfl⟩
          refine List.forall₂_same.mpr fun server member => ?_
          rw [changeServer_eq]
          cases held : server.mapping? with
          | none => rfl
          | some m =>
              simp only [hfixed m (List.mem_filterMap.mpr ⟨server, member, held⟩)]
              exact congrArg _ (withMapping_of_mapping? held)
      | _ => rfl

end

section

variable {tree changed : Node} {f : Mapping → Except ConfigError Mapping}

theorem field?_of_mapping? {root : Mapping} (hroot : tree.mapping? = some root) (name : String) :
    tree.field? name = root.get? name := by
  rw [field?, hroot, Option.bind_some]

theorem listedServers_of_mapping? {root : Mapping} (hroot : tree.mapping? = some root) :
    tree.listedServers = (Node.mapping root).listedServers := by
  rw [listedServers, field?_of_mapping? hroot]
  rfl

theorem listedServers_congr {m m' : Mapping}
    (hsame : m'.get? Field.ldapServers = m.get? Field.ldapServers) :
    (Node.mapping m').listedServers = (Node.mapping m).listedServers := by
  rw [listedServers, listedServers, field?_of_mapping? rfl, field?_of_mapping? rfl, hsame]

theorem mapRoot_eq_ok :
    tree.mapRoot f = .ok changed ↔
      ∃ root new, tree.mapping? = some root ∧ f root = .ok new ∧
        tree.withMapping new = changed := by
  rw [mapRoot, modifyMapping?_eq]
  cases tree.mapping? with
  | none => simp
  | some root => simp [Except.map_eq_ok]

theorem mapRoot_eq_error {root : Mapping} (hroot : tree.mapping? = some root)
    {error : ConfigError} : tree.mapRoot f = .error error ↔ f root = .error error := by
  rw [mapRoot, modifyMapping?_eq, hroot, Option.map_some, Option.getD_some, Except.map_eq_error]

theorem mapRoot_mapServers_isOk_iff {root : Mapping} (hroot : tree.mapping? = some root) :
    (∃ changed, tree.mapRoot (mapServers f) = .ok changed) ↔
      ∀ server ∈ tree.listedServers, ∃ changed, f server = .ok changed := by
  rw [listedServers_of_mapping? hroot, ← mapServers_isOk_iff]
  simp [mapRoot_eq_ok, hroot]

theorem mapRoot_mapServers_eq_error {root : Mapping} (hroot : tree.mapping? = some root)
    {error : ConfigError} (hfailing : tree.mapRoot (mapServers f) = .error error) :
    ∃ server ∈ tree.listedServers, f server = .error error := by
  rw [listedServers_of_mapping? hroot]
  exact mapServers_eq_error ((mapRoot_eq_error hroot).mp hfailing)

theorem mapRoot_mapServers_listed (hchanging : tree.mapRoot (mapServers f) = .ok changed) :
    List.Forall₂ (fun before after => f before = .ok after) tree.listedServers
      changed.listedServers := by
  obtain ⟨root, new, isRoot, serving, rfl⟩ := mapRoot_eq_ok.mp hchanging
  rw [listedServers_of_mapping? isRoot, listedServers_of_mapping? (mapping?_withMapping new tree)]
  exact (mapServers_listed serving).1

theorem mapObjectTrees_listed {f : Owner → Node → Except ConfigError Node}
    (hchanging : tree.mapObjectTrees f = .ok changed) :
    List.Forall₂
      (fun before after => before.modify Field.object (f before.serverName?) = .ok after)
      tree.listedServers changed.listedServers := by
  obtain ⟨root, new, isRoot, making, rfl⟩ := mapRoot_eq_ok.mp hchanging
  obtain ⟨between, sharing, serving⟩ := Except.bind_eq_ok.mp making
  have hunchanged := (modify_object_changed sharing).2.1 Field.ldapServers (by decide)
  rw [listedServers_of_mapping? isRoot, ← listedServers_congr hunchanged,
    listedServers_of_mapping? (mapping?_withMapping new tree)]
  exact (mapServers_listed serving).1

end

end Node

end DirectoryMetrics
