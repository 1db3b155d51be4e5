import DirectoryMetrics.Proofs.Tree.Walk
import DirectoryMetrics.Tree.ObjectTree
import DirectoryMetrics.Tree.SharedObject

namespace DirectoryMetrics

inductive ServerChange (change : Option Node → Option Node → Prop) : Node → Node → Prop where
  | server (before after : Mapping)
      (others : ∀ field, field ≠ Field.object → after.get? field = before.get? field)
      (object : change (before.get? Field.object) (after.get? Field.object))
      (untagged : (∀ entry ∈ before, entry.1.hasTag = false) →
        ∀ entry ∈ after, entry.1.hasTag = false) :
      ServerChange change (.mapping before) (.mapping after)
  | other (node : Node) (noMapping : ∀ m, node ≠ .mapping m) : ServerChange change node node

inductive ServersChange (change : Option Node → Option Node → Prop) : Node → Node → Prop where
  | sequence (before after : List Node)
      (servers : List.Forall₂ (ServerChange change) before after) :
      ServersChange change (.sequence before) (.sequence after)
  | other (node : Node) (noSequence : ∀ items, node ≠ .sequence items) :
      ServersChange change node node

structure RootChange (shared own : Option Node → Option Node → Prop) (before after : Mapping) :
    Prop where
  others : ∀ field, field ≠ Field.object → field ≠ Field.ldapServers →
    after.get? field = before.get? field
  object : shared (before.get? Field.object) (after.get? Field.object)
  servers : Option.Rel (ServersChange own) (before.get? Field.ldapServers)
    (after.get? Field.ldapServers)
  untagged : (∀ entry ∈ before, entry.1.hasTag = false) → ∀ entry ∈ after, entry.1.hasTag = false

section

variable {change change' both : Option Node → Option Node → Prop}

theorem ServerChange.refl (hreflexive : ∀ object, change object object) (node : Node) :
    ServerChange change node node := by
  cases node with
  | mapping m => exact .server m m (fun _ _ => rfl) (hreflexive _) id
  | _ => exact .other _ (by simp)

theorem ServerChange.comp (hcompose : ∀ x y z, change x y → change' y z → both x z)
    {before between after : Node} (hfirst : ServerChange change before between)
    (hsecond : ServerChange change' between after) : ServerChange both before after := by
  cases hfirst with
  | server before between others object untagged =>
      cases hsecond with
      | server _ after others' object' untagged' =>
          exact .server before after
            (fun field different => (others' field different).trans (others field different))
            (hcompose _ _ _ object object') (fun plain => untagged' (untagged plain))
      | other _ noMapping => exact absurd rfl (noMapping between)
  | other _ noMapping =>
      cases hsecond with
      | server before _ _ _ _ => exact absurd rfl (noMapping before)
      | other _ _ => exact .other _ noMapping

theorem ServersChange.refl (hreflexive : ∀ object, change object object) (node : Node) :
    ServersChange change node node := by
  cases node with
  | sequence items =>
      exact .sequence items items (List.forall₂_same.mpr fun item _ => .refl hreflexive item)
  | _ => exact .other _ (by simp)

theorem ServersChange.comp (hcompose : ∀ x y z, change x y → change' y z → both x z)
    {before between after : Node} (hfirst : ServersChange change before between)
    (hsecond : ServersChange change' between after) : ServersChange both before after := by
  cases hfirst with
  | sequence before between servers =>
      cases hsecond with
      | sequence _ after servers' =>
          exact .sequence before after
            (forall₂_comp (P := ServerChange both)
              (fun _ _ _ hfirst hsecond => hfirst.comp hcompose hsecond) servers servers')
      | other _ noSequence => exact absurd rfl (noSequence between)
  | other _ noSequence =>
      cases hsecond with
      | sequence before _ _ => exact absurd rfl (noSequence before)
      | other _ _ => exact .other _ noSequence

end

theorem RootChange.comp {shared own shared' own' S Q : Option Node → Option Node → Prop}
    {before between after : Mapping}
    (hfirst : RootChange shared own before between)
    (hsecond : RootChange shared' own' between after)
    (hcomposeShared : ∀ x y z, shared x y → shared' y z → S x z)
    (hcomposeOwn : ∀ x y z, own x y → own' y z → Q x z) :
    RootChange S Q before after where
  others field notObject notServers :=
    (hsecond.others field notObject notServers).trans (hfirst.others field notObject notServers)
  object := hcomposeShared _ _ _ hfirst.object hsecond.object
  servers := optionRel_comp (fun _ _ _ one two => one.comp hcomposeOwn two) hfirst.servers
    hsecond.servers
  untagged plain := hsecond.untagged (hfirst.untagged plain)

theorem RootChange.refl {shared own : Option Node → Option Node → Prop} (root : Mapping)
    (hsameShared : ∀ object, shared object object) (hsameOwn : ∀ object, own object object) :
    RootChange shared own root root where
  others _ _ _ := rfl
  object := hsameShared _
  servers := by
    cases root.get? Field.ldapServers with
    | none => exact .none
    | some servers => exact .some (.refl hsameOwn servers)
  untagged plain := plain

def Mapping.PlainServers (root : Mapping) : Prop :=
  ∀ servers, root.get? Field.ldapServers = some (.sequence servers) →
    ∀ server ∈ servers, ∀ tag content, server ≠ .tagged tag content

theorem modifyMapping?_change {change : Option Node → Option Node → Prop}
    {f : Mapping → Except ConfigError Mapping}
    (heach : ∀ before after, f before = .ok after →
      ServerChange change (.mapping before) (.mapping after))
    {server after : Node} (hplain : ∀ tag content, server ≠ .tagged tag content)
    (hchanging : (server.modifyMapping? f).getD (.ok server) = .ok after) :
    ServerChange change server after := by
  cases server with
  | mapping before =>
      rw [Node.modifyMapping?, Option.getD_some, Except.map_eq_ok] at hchanging
      obtain ⟨changed, eq, rfl⟩ := hchanging
      exact heach before changed eq
  | tagged tag content => exact absurd rfl (hplain tag content)
  | _ =>
      cases hchanging
      exact .other _ (by simp)

theorem mapServers_change {own : Option Node → Option Node → Prop}
    {f : Mapping → Except ConfigError Mapping}
    (heach : ∀ before after, f before = .ok after →
      ServerChange own (.mapping before) (.mapping after))
    {root changed : Mapping} (hplain : root.PlainServers)
    (hchanging : Node.mapServers f root = .ok changed) : RootChange Eq own root changed := by
  rw [Node.mapServers] at hchanging
  rcases Mapping.modify_eq_ok hchanging with ⟨absent, rfl⟩ | ⟨servers, after, found, eq, rfl⟩
  · exact ⟨fun _ _ _ => rfl, rfl, by rw [absent]; exact .none, id⟩
  · refine ⟨fun field _ notServers => Mapping.get?_set_of_ne notServers _ _, ?_, ?_, ?_⟩
    · rw [Mapping.get?_set_of_ne (by decide)]
    · rw [found, Mapping.get?_set_self]
      refine .some ?_
      cases servers with
      | sequence items =>
          rw [Except.map_eq_ok] at eq
          obtain ⟨walked, eq, rfl⟩ := eq
          rw [Except.mapM_eq_ok] at eq
          refine .sequence items walked
            (((List.forall₂_and_left _ _).mpr ⟨hplain items found, eq⟩).imp ?_)
          exact fun item after ⟨hplain, hchanging⟩ => modifyMapping?_change heach hplain hchanging
      | _ =>
          cases eq
          exact .other _ (by simp)
    · exact fun untagged => Mapping.forall_mem_set untagged rfl

/-- What a function on object trees makes of one that may be missing. -/
def Changed (f : Owner → Node → Except ConfigError Node) (before after : Option Node) : Prop :=
  Option.Rel (fun before after => ∃ owner, f owner before = .ok after) before after

theorem Changed.or {f : Owner → Node → Except ConfigError Node}
    {before after shared sharedAfter : Option Node} (hown : Changed f before after)
    (hother : Changed f shared sharedAfter) :
    Changed f (before.or shared) (after.or sharedAfter) := by
  cases hown with
  | none => exact hother
  | some changed => exact .some changed

theorem modify_object_changed {f : Owner → Node → Except ConfigError Node} {owner : Owner}
    {m changed : Mapping} (hchanging : m.modify Field.object (f owner) = .ok changed) :
    Changed f (m.get? Field.object) (changed.get? Field.object) ∧
      (∀ field, field ≠ Field.object → changed.get? field = m.get? field) ∧
      ((∀ entry ∈ m, entry.1.hasTag = false) → ∀ entry ∈ changed, entry.1.hasTag = false) := by
  rcases Mapping.modify_eq_ok hchanging with ⟨absent, rfl⟩ | ⟨object, after, found, eq, rfl⟩
  · refine ⟨?_, fun _ _ => rfl, id⟩
    rw [absent]
    exact .none
  · refine ⟨?_, fun field different => Mapping.get?_set_of_ne different _ _,
      fun untagged => Mapping.forall_mem_set untagged rfl⟩
    rw [found, Mapping.get?_set_self]
    exact .some ⟨owner, eq⟩

theorem mapObjectTrees_change {f : Owner → Node → Except ConfigError Node} {root : Mapping}
    {tree : Node} (hplain : root.PlainServers)
    (hchanging : (Node.mapping root).mapObjectTrees f = .ok tree) :
    ∃ changed, tree = .mapping changed ∧ RootChange (Changed f) (Changed f) root changed := by
  rw [Node.mapObjectTrees, Node.mapRoot, Node.modifyMapping?, Option.getD_some,
    Except.map_eq_ok] at hchanging
  obtain ⟨changed, hchanging, rfl⟩ := hchanging
  rw [Except.bind_eq_ok] at hchanging
  obtain ⟨between, sharing, serving⟩ := hchanging
  obtain ⟨object, others, untagged⟩ := modify_object_changed sharing
  have hplainBetween : between.PlainServers := by
    rw [Mapping.PlainServers, others _ (by decide)]
    exact hplain
  have hservers : RootChange Eq (Changed f) between changed := mapServers_change
      (fun before after hchanging => by
    obtain ⟨object, others, untagged⟩ := modify_object_changed hchanging
    exact .server before after others object untagged) hplainBetween serving
  refine ⟨changed, rfl, fun field notObject notServers => ?_, ?_, ?_, ?_⟩
  · rw [hservers.others field notObject notServers, others field notObject]
  · rw [← hservers.object]
    exact object
  · rw [← others _ (by decide)]
    exact hservers.servers
  · exact fun hplain => hservers.untagged (untagged hplain)

theorem replicate_change {root : Mapping} {tree : Node} (hplain : root.PlainServers)
    (hchanging : SharedObject.replicate (.mapping root) = .ok tree) :
    ∃ changed, tree = .mapping changed ∧
      RootChange Eq (fun before after => after = before.or (root.get? Field.object)) root
        changed := by
  rw [SharedObject.replicate, Node.mapRoot, Node.modifyMapping?, Option.getD_some,
    Except.map_eq_ok] at hchanging
  obtain ⟨changed, hchanging, rfl⟩ := hchanging
  refine ⟨changed, rfl, ?_⟩
  cases shared : root.get? Field.object with
  | none =>
      simp only [shared] at hchanging
      cases hchanging
      exact .refl root (fun _ => rfl) (fun object => by simp)
  | some object =>
      simp only [shared] at hchanging
      refine mapServers_change (fun before after giving => ?_) hplain hchanging
      cases giving
      rw [SharedObject.giveTo, Mapping.has]
      cases own : before.get? Field.object with
      | some held =>
          rw [Option.isSome_some, if_pos rfl]
          exact .server before before (fun _ _ => rfl) (by simp [own]) id
      | none =>
          rw [Option.isSome_none, if_neg Bool.false_ne_true, ← Mapping.set_of_get?_eq_none own]
          refine .server before _ (fun field different => Mapping.get?_set_of_ne different _ _) ?_
            fun untagged => Mapping.forall_mem_set untagged rfl
          rw [Mapping.get?_set_self, own]
          rfl

theorem RootChange.plainServers {shared own : Option Node → Option Node → Prop}
    {before after : Mapping} (hchange : RootChange shared own before after)
    (hplain : before.PlainServers) : after.PlainServers := by
  intro items found
  have servers := hchange.servers
  rw [found] at servers
  generalize was : before.get? Field.ldapServers = old at servers
  cases servers with
  | some servers =>
      cases servers with
      | sequence before _ each =>
          refine forall_mem_of_forall₂
            (P := fun server => ∀ tag content, server ≠ .tagged tag content)
            (((List.forall₂_and_left _ _).mpr ⟨hplain before was, each⟩).imp ?_)
          intro server after ⟨hplain, hchange⟩
          cases hchange with
          | server before after _ _ _ => simp
          | other _ _ => exact hplain
      | other _ noSequence => exact absurd rfl (noSequence items)

theorem RootChange.listed {shared own : Option Node → Option Node → Prop} {before after : Mapping}
    (hchange : RootChange shared own before after) {servers : List Node}
    (hlisted : before.get? Field.ldapServers = some (.sequence servers)) :
    ∃ later, after.get? Field.ldapServers = some (.sequence later) ∧
      later.length = servers.length := by
  have changes := hchange.servers
  rw [hlisted] at changes
  generalize after.get? Field.ldapServers = found at changes
  cases changes with
  | some changes =>
      cases changes with
      | sequence _ later each => exact ⟨later, rfl, each.length_eq.symm⟩
      | other _ noSequence => exact absurd rfl (noSequence servers)

theorem modifyMapping?_isOk {f : Mapping → Except ConfigError Mapping}
    (hchanges : ∀ m, ∃ changed, f m = .ok changed) :
    ∀ node : Node, ∃ changed, (node.modifyMapping? f).getD (.ok node) = .ok changed
  | .mapping m => by
      obtain ⟨changed, changing⟩ := hchanges m
      exact ⟨.mapping changed, by rw [Node.modifyMapping?, changing]; rfl⟩
  | .tagged tag content => by
      obtain ⟨changed, changing⟩ := modifyMapping?_isOk hchanges content
      rw [Node.modifyMapping?]
      cases modified : content.modifyMapping? f with
      | none => exact ⟨_, rfl⟩
      | some result =>
          rw [modified, Option.getD_some] at changing
          subst changing
          exact ⟨.tagged tag changed, rfl⟩
  | .null | .bool _ | .int _ | .float _ | .text _ | .sequence _ => ⟨_, rfl⟩

theorem mapServers_isOk {f : Mapping → Except ConfigError Mapping}
    (hchanges : ∀ server, ∃ changed, f server = .ok changed) (root : Mapping) :
    ∃ changed, Node.mapServers f root = .ok changed := by
  apply Mapping.modify_isOk
  intro servers
  cases servers with
  | sequence items =>
      have heach : ∀ server ∈ items, ∃ changed,
          (server.modifyMapping? f).getD (.ok server) = .ok changed :=
        fun server _ => modifyMapping?_isOk hchanges server
      obtain ⟨changed, changing⟩ := exists_forall₂ heach
      exact ⟨.sequence changed, Except.map_eq_ok.mpr ⟨changed, Except.mapM_eq_ok.mpr changing, rfl⟩⟩
  | _ => exact ⟨_, rfl⟩

theorem mapObjectTrees_isOk {f : Owner → Node → Except ConfigError Node}
    (hchanges : ∀ owner object, ∃ changed, f owner object = .ok changed) (root : Mapping) :
    ∃ tree, (Node.mapping root).mapObjectTrees f = .ok tree := by
  obtain ⟨shared, sharing⟩ := Mapping.modify_isOk (hchanges none) Field.object root
  obtain ⟨changed, serving⟩ := mapServers_isOk
    (fun server => Mapping.modify_isOk (hchanges server.serverName?) Field.object server) shared
  refine ⟨.mapping changed, ?_⟩
  rw [Node.mapObjectTrees, Node.mapRoot, Node.modifyMapping?, Option.getD_some]
  exact Except.map_eq_ok.mpr ⟨changed, Except.bind_eq_ok.mpr ⟨shared, sharing, serving⟩, rfl⟩

end DirectoryMetrics
