import ElasticJob.Proofs.Graph.MemberEdges

/-!
The agreement of everything that a graph records about its groups: their names and members, the
marks that members carry, the edges of the groups with their outputs and merged inputs, and the
edges of the members. Like the agreement about edges it holds in the empty graph and every request
keeps it, so it holds in every graph a client can get. It also shows that a mark always finds its
place free: a group that passes its check is recorded.
-/

namespace ElasticJob

def Vertex.mark (info : GroupInfo) (vertex : Vertex) : Vertex :=
  { vertex with groups := vertex.groups.insert info.group info }

theorem Vertex.mark_get? (vertex : Vertex) (info : GroupInfo) (key : String) :
    (vertex.mark info).groups.get? key =
      if key = info.group then some info else vertex.groups.get? key := by
  by_cases same : key = info.group
  · simp [Vertex.mark, same]
  · rw [if_neg same, Vertex.mark, SortedMap.get?_insert_ne _ _ same]

theorem Vertex.addGroup_ok (vertex : Vertex) (info : GroupInfo)
    (fresh : vertex.groups.get? info.group = none) :
    vertex.addGroup info = .ok (vertex.mark info) := by
  simp [Vertex.addGroup, SortedMap.contains, fresh, Vertex.mark]

theorem Vertex.unmarked (vertex : Vertex) (free : vertex.isConnected = false) (key : String) :
    vertex.groups.get? key = none := by
  simp only [Vertex.isConnected, SortedMap.isEmpty, Bool.or_eq_false_iff, Bool.not_eq_eq_eq_not,
    Bool.not_false, List.isEmpty_iff] at free
  rw [SortedMap.get?, free.2, SortedMap.lookup]

namespace JobGraph

structure Grouped (graph : JobGraph) : Prop where
  names : (graph.groups.map (·.name)).Nodup
  named : ∀ group ∈ graph.groups, group.name ≠ ""
  members : ∀ group ∈ graph.groups, 2 ≤ group.members.length ∧ group.members.Nodup ∧
    ∀ member ∈ group.members, (graph.vertex? member).isSome
  /-- A vertex carries the marks of the groups it belongs to, each under the group's name. -/
  marks : ∀ name vertex, graph.vertex? name = some vertex → ∀ key info,
    vertex.groups.get? key = some info ↔
      ∃ group ∈ graph.groups, group.name = key ∧ name ∈ group.members ∧
        info = ⟨group.name, group.members⟩
  sources : ∀ edge ∈ graph.groupEdges, edge.group ∈ graph.groups.map (·.name)
  /-- One output for every edge of the group, in the same order. -/
  outputs : ∀ group ∈ graph.groups,
    group.outputs = (graph.groupEdges.filter (·.group = group.name)).map (·.destination) ∧
      group.outputs.Nodup
  merged : ∀ group ∈ graph.groups, ∀ destination,
    (group.mergedInputs.get? destination).isSome ↔ destination ∈ group.outputs
  /-- Every member is connected to every output. -/
  connected : ∀ group ∈ graph.groups, ∀ member ∈ group.members, ∀ output ∈ group.outputs,
    ∃ property, .between member output property ∈ graph.edges
  /-- Whichever of the two came first. -/
  apart : graph.policy = .shared → ∀ group ∈ graph.groups, graph.vertex? group.name = none

theorem create_grouped (name : String) (policy : NamespacePolicy) :
    Grouped (create name policy) := by
  constructor <;> simp [create, vertex?]

theorem group?_eq_none_iff (graph : JobGraph) (name : String) :
    graph.group? name = none ↔ ∀ group ∈ graph.groups, group.name ≠ name := by
  simp [group?]

theorem group?_eq_some (graph : JobGraph) (name : String) (group : Group)
    (found : graph.group? name = some group) : group ∈ graph.groups ∧ group.name = name :=
  ⟨List.mem_of_find?_eq_some found, by simpa using List.find?_some found⟩

structure KeepsGroups (before after : JobGraph) : Prop where
  policy : after.policy = before.policy
  groups : after.groups = before.groups
  groupEdges : after.groupEdges = before.groupEdges
  marks : ∀ name, (after.vertex? name).map (·.groups) = (before.vertex? name).map (·.groups)
  edges : before.edges ⊆ after.edges

theorem KeepsGroups.refl (graph : JobGraph) : KeepsGroups graph graph :=
  ⟨rfl, rfl, rfl, fun _ => rfl, List.Subset.refl _⟩

theorem KeepsGroups.trans {first middle last : JobGraph} (earlier : KeepsGroups first middle)
    (later : KeepsGroups middle last) : KeepsGroups first last :=
  ⟨later.policy.trans earlier.policy, later.groups.trans earlier.groups,
    later.groupEdges.trans earlier.groupEdges,
    fun name => (later.marks name).trans (earlier.marks name),
    List.Subset.trans earlier.edges later.edges⟩

theorem KeepsGroups.isSome {before after : JobGraph} (same : KeepsGroups before after)
    (name : String) : (after.vertex? name).isSome = (before.vertex? name).isSome := by
  have present := congrArg Option.isSome (same.marks name)
  rwa [Option.isSome_map, Option.isSome_map] at present

theorem KeepsGroups.grouped {before after : JobGraph} (same : KeepsGroups before after)
    (grouped : Grouped before) : Grouped after where
  names := by
    rw [same.groups]
    exact grouped.names
  named := by
    rw [same.groups]
    exact grouped.named
  members := by
    rw [same.groups]
    simp only [same.isSome]
    exact grouped.members
  marks := by
    intro name vertex found key info
    have marks := same.marks name
    rw [found, Option.map_some, eq_comm, Option.map_eq_some_iff] at marks
    obtain ⟨old, stored, equal⟩ := marks
    rw [same.groups, ← equal]
    exact grouped.marks name old stored key info
  sources := by
    rw [same.groups, same.groupEdges]
    exact grouped.sources
  outputs := by
    rw [same.groups, same.groupEdges]
    exact grouped.outputs
  merged := by
    rw [same.groups]
    exact grouped.merged
  connected := by
    rw [same.groups]
    intro group listed member inside output told
    obtain ⟨property, recorded⟩ := grouped.connected group listed member inside output told
    exact ⟨property, same.edges recorded⟩
  apart := by
    rw [same.groups, same.policy]
    intro shared group listed
    have kept := same.isSome group.name
    rwa [grouped.apart shared group listed, Option.isSome_none, Option.isSome_eq_false_iff,
      Option.isNone_iff_eq_none] at kept

theorem putVertex_keepsGroups (graph : JobGraph) (name : String) (vertex edited : Vertex)
    (found : graph.vertex? name = some vertex) (same : edited.groups = vertex.groups) :
    KeepsGroups graph (graph.putVertex name edited) :=
  ⟨rfl, rfl, rfl, putVertex_map Vertex.groups found same, List.Subset.refl _⟩

theorem editVertex_keepsGroups (graph : JobGraph) (name : String) (edit : VertexEdit) :
    KeepsGroups graph (graph.editVertex name edit).1 := by
  apply editVertex_keeps (KeepsGroups graph) (.refl graph)
  intro vertex edited found result
  exact putVertex_keepsGroups graph name vertex edited found
    (edit_keeps vertex edited edit result).groups

theorem record_keepsGroups (graph : JobGraph) (edge : Edge) (start goal : Nat) :
    KeepsGroups graph (graph.record edge start goal) := by
  have outside : ∀ (graph : JobGraph) name change,
      (graph.mapVertex name change).policy = graph.policy ∧
        (graph.mapVertex name change).groups = graph.groups ∧
        (graph.mapVertex name change).groupEdges = graph.groupEdges := by
    intro graph name change
    unfold mapVertex
    split <;> exact ⟨rfl, rfl, rfl⟩
  refine ⟨?_, ?_, ?_, fun name => ?_, ?_⟩
  · simp [record, outside]
  · simp [record, outside]
  · simp [record, outside]
  · rw [record_vertex?, Option.map_map]
    rfl
  · rw [(record_frame graph edge start goal).2.2.1]
    exact List.subset_append_left _ _

theorem addEdge_keepsGroups (graph : JobGraph) (edge : Edge) :
    KeepsGroups graph (graph.addEdge edge).1 :=
  addEdge_keeps (KeepsGroups graph) (.refl graph) edge
    fun start goal _ => record_keepsGroups graph edge start goal

theorem addMemberEdges_keepsGroups (graph : JobGraph) (destination : String)
    (property : EdgeProperty) (members : List String) :
    KeepsGroups graph (addMemberEdges destination property graph members).1 :=
  addMemberEdges_keeps (KeepsGroups graph) destination property
    (fun current _ kept => kept.trans (addEdge_keepsGroups current _)) members graph
    (.refl graph)

theorem addVertex_grouped (graph : JobGraph) (vertex : Vertex) (grouped : Grouped graph) :
    Grouped (graph.addVertex vertex).1 := by
  rcases addVertex_cases graph vertex with ⟨_, refused⟩ | ⟨unknown, apart, free, added⟩
  · rw [refused]
    exact grouped
  · rw [added]
    have looked : ∀ name, (graph.stored.insert vertex.name vertex).get? name =
        if name = vertex.name then some vertex else graph.vertex? name :=
      fun name => putVertex_vertex? graph vertex.name name vertex
    refine ⟨grouped.names, grouped.named, ?_, ?_, grouped.sources, grouped.outputs,
      grouped.merged, grouped.connected, ?_⟩
    · intro group listed
      obtain ⟨several, distinct, known⟩ := grouped.members group listed
      refine ⟨several, distinct, fun member inside => ?_⟩
      simp only [done, vertex?, looked]
      split
      · rfl
      · exact known member inside
    · intro name found place key info
      simp only [done, vertex?, looked] at place
      split at place
      · rename_i here
        cases place
        -- the new vertex has no marks, and no group could name it
        simp only [vertex.unmarked free, done]
        constructor
        · rintro ⟨⟩
        · rintro ⟨group, listed, _, inside, _⟩
          have known := (grouped.members group listed).2.2 name inside
          rw [here, unknown] at known
          cases known
      · exact grouped.marks name found place key info
    · intro shared group listed
      have other := (group?_eq_none_iff graph _).mp (apart shared) group listed
      simp only [done, vertex?, looked, if_neg other]
      exact grouped.apart shared group listed

theorem checkMembers_ok (graph : JobGraph) (group : String) (members seen : List String)
    (checked : graph.checkMembers group seen members = .ok ()) :
    members.Nodup ∧ ∀ member ∈ members, member ∉ seen ∧ (graph.vertex? member).isSome := by
  induction members generalizing seen with
  | nil => simp
  | cons member rest ih =>
      simp only [checkMembers] at checked
      split at checked
      · cases checked
      · rename_i fresh
        split at checked
        · cases checked
        · rename_i known
          obtain ⟨distinct, later⟩ := ih _ checked
          constructor
          · apply List.nodup_cons.mpr
            refine ⟨fun again => ?_, distinct⟩
            exact (later member again).1 (by simp)
          · intro other listed
            rcases List.mem_cons.mp listed with rfl | inside
            · exact ⟨fresh, by simpa [Option.isSome_iff_ne_none] using known⟩
            · obtain ⟨unseen, present⟩ := later other inside
              exact ⟨fun old => unseen (List.mem_append_left _ old), present⟩

theorem checkGroup_ok (graph : JobGraph) (name : String) (members : List String)
    (checked : graph.checkGroup name members = .ok ()) :
    name ≠ "" ∧ graph.group? name = none ∧ (graph.policy = .shared → graph.vertex? name = none) ∧
      2 ≤ members.length ∧ members.Nodup ∧ ∀ member ∈ members, (graph.vertex? member).isSome := by
  unfold checkGroup at checked
  split at checked
  · cases checked
  · rename_i named
    split at checked
    · cases checked
    · rename_i fresh
      split at checked
      · cases checked
      · rename_i apart
        split at checked
        · cases checked
        · rename_i several
          obtain ⟨distinct, known⟩ := checkMembers_ok graph name members [] checked
          refine ⟨?_, by simpa using fresh, fun shared => by simpa [shared] using apart,
            Nat.le_of_not_lt several, distinct, fun member listed => (known member listed).2⟩
          rintro rfl
          exact named rfl

theorem markMembers_ok (info : GroupInfo) (members : List String) (graph : JobGraph)
    (distinct : members.Nodup)
    (fresh : ∀ member ∈ members, ∀ vertex, graph.vertex? member = some vertex →
      vertex.groups.get? info.group = none) :
    ∃ stored, markMembers info graph members = done { graph with stored := stored } ∧
      ∀ name, stored.get? name = (graph.vertex? name).map fun vertex =>
        if name ∈ members then vertex.mark info else vertex := by
  induction members generalizing graph with
  | nil => exact ⟨graph.stored, rfl, by simp [vertex?]⟩
  | cons member rest ih =>
      obtain ⟨single, separate⟩ := List.nodup_cons.mp distinct
      have later := fun other inside => fresh other (List.mem_cons_of_mem _ inside)
      cases found : graph.vertex? member with
      | none =>
          obtain ⟨stored, marked, looked⟩ := ih graph separate later
          refine ⟨stored, by simp only [markMembers, found, marked], fun name => ?_⟩
          rw [looked]
          by_cases here : name = member
          · simp [here, found]
          · simp [here]
      | some vertex =>
          have added := vertex.addGroup_ok info (fresh member List.mem_cons_self vertex found)
          have looked := fun name => putVertex_vertex? graph member name (vertex.mark info)
          obtain ⟨stored, marked, spread⟩ :=
            ih (graph.putVertex member (vertex.mark info)) separate (by
              intro other inside old place
              have elsewhere : other ≠ member := fun same => single (same ▸ inside)
              rw [looked, if_neg elsewhere] at place
              exact later other inside old place)
          refine ⟨stored, ?_, fun name => ?_⟩
          · simp only [markMembers, found, added]
            exact marked
          rw [spread, looked]
          by_cases here : name = member
          · simp [here, found, single]
          · simp [here]

theorem Grouped.unmarked {graph : JobGraph} (grouped : Grouped graph) {member name : String}
    {vertex : Vertex} (found : graph.vertex? member = some vertex)
    (fresh : graph.group? name = none) : vertex.groups.get? name = none := by
  apply Option.eq_none_iff_forall_ne_some.mpr
  intro info marked
  obtain ⟨group, listed, same, _⟩ := (grouped.marks member vertex found name info).mp marked
  exact (group?_eq_none_iff graph name).mp fresh group listed same

theorem Grouped.markMembers_ok {graph : JobGraph} (grouped : Grouped graph) (name : String)
    (members : List String) (checked : graph.checkGroup name members = .ok ()) :
    ∃ stored, markMembers ⟨name, members⟩ graph members = done { graph with stored := stored } ∧
      ∀ other, stored.get? other = (graph.vertex? other).map fun vertex =>
        if other ∈ members then vertex.mark ⟨name, members⟩ else vertex := by
  obtain ⟨_, fresh, _, _, distinct, _⟩ := checkGroup_ok graph name members checked
  exact JobGraph.markMembers_ok ⟨name, members⟩ members graph distinct
    fun _ _ _ found => grouped.unmarked found fresh

/-- The ways the creation of a group can go: it is refused, or all members get their marks. -/
theorem Grouped.createGroup_cases {graph : JobGraph} (grouped : Grouped graph) (name : String)
    (members : List String) :
    (∃ error, graph.createGroup name members = graph.refuse error) ∨
      graph.checkGroup name members = .ok () ∧
      ∃ stored,
        (∀ other, stored.get? other = (graph.vertex? other).map fun vertex =>
          if other ∈ members then vertex.mark ⟨name, members⟩ else vertex) ∧
        graph.createGroup name members = done { graph with
          stored := stored
          groups := graph.groups ++ [{ name := name, members := members }] } := by
  unfold createGroup
  split
  · exact .inl ⟨_, rfl⟩
  · rename_i checked
    obtain ⟨stored, marked, looked⟩ := grouped.markMembers_ok name members checked
    refine .inr ⟨checked, stored, looked, ?_⟩
    simp only [Group.info, marked, done]

theorem Grouped.groupEdges_of_fresh {graph : JobGraph} (grouped : Grouped graph) {name : String}
    (fresh : graph.group? name = none) : graph.groupEdges.filter (·.group = name) = [] := by
  apply List.filter_eq_nil_iff.mpr
  intro edge stored same
  obtain ⟨group, listed, equal⟩ := List.mem_map.mp (grouped.sources edge stored)
  exact (group?_eq_none_iff graph name).mp fresh group listed
    (equal.trans (of_decide_eq_true same))

theorem Grouped.marked_iff {graph : JobGraph} (grouped : Grouped graph) {name : String}
    (fresh : graph.group? name = none) (members : List String) {member : String} {vertex : Vertex}
    (found : graph.vertex? member = some vertex) (key : String) (info : GroupInfo) :
    (if member ∈ members then vertex.mark ⟨name, members⟩ else vertex).groups.get? key =
        some info ↔
      vertex.groups.get? key = some info ∨
        name = key ∧ member ∈ members ∧ info = ⟨name, members⟩ := by
  by_cases inside : member ∈ members
  · rw [if_pos inside, Vertex.mark_get?]
    by_cases same : key = name
    · have unmarked := grouped.unmarked found fresh
      simp [same, unmarked, inside, eq_comm]
    · simp [same, Ne.symm same]
  · simp [inside]

/-- A group that passed its check comes last, once its members carry its mark. -/
theorem Grouped.append {graph : JobGraph} (grouped : Grouped graph) {name : String}
    {members : List String} (checked : graph.checkGroup name members = .ok ())
    {stored : SortedMap String Vertex}
    (looked : ∀ other, stored.get? other = (graph.vertex? other).map fun vertex =>
      if other ∈ members then vertex.mark ⟨name, members⟩ else vertex) :
    Grouped { graph with
      stored := stored
      groups := graph.groups ++ [{ name := name, members := members }] } := by
  obtain ⟨named, fresh, apart, several, distinct, known⟩ :=
    checkGroup_ok graph name members checked
  have either : ∀ group ∈ graph.groups ++ [{ name := name, members := members }],
      group ∈ graph.groups ∨ group = { name := name, members := members } := by
    intro group listed
    rwa [List.mem_append, List.mem_singleton] at listed
  constructor
  case names =>
    rw [List.map_append, List.map_singleton, List.nodup_append_comm]
    refine List.nodup_cons.mpr ⟨fun taken => ?_, grouped.names⟩
    obtain ⟨group, listed, same⟩ := List.mem_map.mp taken
    exact (group?_eq_none_iff graph name).mp fresh group listed same
  case named =>
    intro group listed
    rcases either group listed with old | rfl
    · exact grouped.named group old
    · exact named
  case members =>
    simp only [vertex?, looked, Option.isSome_map]
    intro group listed
    rcases either group listed with old | rfl
    · exact grouped.members group old
    · exact ⟨several, distinct, known⟩
  case marks =>
    intro member vertex found key info
    rw [vertex?, looked, Option.map_eq_some_iff] at found
    obtain ⟨old, place, rfl⟩ := found
    rw [grouped.marked_iff fresh members place, grouped.marks member old place]
    simp [or_and_right, exists_or]
  case sources =>
    intro edge listed
    exact List.map_subset _ (List.subset_append_left _ _) (grouped.sources edge listed)
  case outputs =>
    intro group listed
    rcases either group listed with old | rfl
    · exact grouped.outputs group old
    · -- no edge is one of a group that did not exist
      rw [grouped.groupEdges_of_fresh fresh]
      exact ⟨rfl, List.nodup_nil⟩
  case merged =>
    intro group listed
    rcases either group listed with old | rfl
    · exact grouped.merged group old
    · simp
  case connected =>
    intro group listed
    rcases either group listed with old | rfl
    · exact grouped.connected group old
    · simp
  case apart =>
    intro shared group listed
    have free : graph.vertex? group.name = none := by
      rcases either group listed with old | rfl
      · exact grouped.apart shared group old
      · exact apart shared
    rw [vertex?, looked, free, Option.map_none]

theorem createGroup_grouped (graph : JobGraph) (name : String) (members : List String)
    (grouped : Grouped graph) : Grouped (graph.createGroup name members).1 := by
  rcases grouped.createGroup_cases name members with
    ⟨_, refused⟩ | ⟨checked, stored, looked, created⟩
  · rw [refused]
    exact grouped
  · rw [created]
    exact grouped.append checked looked

theorem Grouped.putGroup_split {graph : JobGraph} (grouped : Grouped graph) {group put : Group}
    (listed : group ∈ graph.groups) (same : put.name = group.name) :
    ∃ earlier later, graph.groups = earlier ++ group :: later ∧
      (graph.putGroup put).groups = earlier ++ put :: later ∧
      ∀ other, other ∈ earlier ∨ other ∈ later → other.name ≠ group.name := by
  obtain ⟨earlier, later, split⟩ := List.append_of_mem listed
  have distinct := grouped.names
  rw [split, List.map_append, List.map_cons, List.nodup_middle, List.nodup_cons,
    ← List.map_append] at distinct
  have others : ∀ other, other ∈ earlier ∨ other ∈ later → other.name ≠ group.name := by
    intro other inside equal
    exact distinct.1 (List.mem_map.mpr ⟨other, List.mem_append.mpr inside, equal⟩)
  have kept : ∀ part : List Group, (∀ other ∈ part, other.name ≠ group.name) →
      part.map (fun other => if other.name = put.name then put else other) = part := by
    intro part apart
    refine (List.map_congr_left fun other inside => ?_).trans (List.map_id part)
    rw [same]
    exact if_neg (apart other inside)
  refine ⟨earlier, later, split, ?_, others⟩
  simp only [putGroup, split, List.map_append, List.map_cons, if_pos same.symm]
  rw [kept earlier fun other inside => others other (.inl inside),
    kept later fun other inside => others other (.inr inside)]

/-- A group edge is recorded where the edges of the members to its destination are. -/
theorem Grouped.extend {graph : JobGraph} (grouped : Grouped graph) {group : Group}
    (listed : group ∈ graph.groups) {edge : GroupEdge} (name : group.name = edge.group)
    (fresh : edge.destination ∉ group.outputs)
    (joined : ∀ member ∈ group.members,
      ∃ property, .between member edge.destination property ∈ graph.edges) :
    Grouped { graph.putGroup (group.addOutput edge.destination edge.merged) with
      groupEdges := graph.groupEdges ++ [edge] } := by
  obtain ⟨earlier, later, before, after, others⟩ := grouped.putGroup_split listed
    (rfl : (group.addOutput edge.destination edge.merged).name = group.name)
  have either : ∀ other ∈ earlier ++ group.addOutput edge.destination edge.merged :: later,
      other = group.addOutput edge.destination edge.merged ∨
        other ∈ graph.groups ∧ other.name ≠ edge.group := by
    intro other inside
    rw [before, ← name]
    rcases List.mem_append.mp inside with early | rest
    · exact .inr ⟨List.mem_append_left _ early, others other (.inl early)⟩
    · rcases List.mem_cons.mp rest with same | late
      · exact .inl same
      · exact .inr ⟨List.mem_append_right _ (List.mem_cons_of_mem _ late),
          others other (.inr late)⟩
  have names : (earlier ++ group.addOutput edge.destination edge.merged :: later).map (·.name) =
      graph.groups.map (·.name) := by
    simp [before, Group.addOutput]
  constructor <;> simp only [after, names]
  case names =>
    exact grouped.names
  case named =>
    intro other inside
    rcases either other inside with rfl | ⟨old, _⟩
    · exact grouped.named group listed
    · exact grouped.named other old
  case members =>
    intro other inside
    rcases either other inside with rfl | ⟨old, _⟩
    · exact grouped.members group listed
    · exact grouped.members other old
  case marks =>
    intro member vertex place key info
    rw [grouped.marks member vertex place, before]
    simp [Group.addOutput, or_and_right, exists_or]
  case sources =>
    intro other inside
    rcases List.mem_append.mp inside with old | new
    · exact grouped.sources other old
    · rw [List.mem_singleton.mp new, ← name]
      exact List.mem_map_of_mem listed
  case outputs =>
    intro other inside
    rcases either other inside with rfl | ⟨old, different⟩
    · obtain ⟨outputs, distinct⟩ := grouped.outputs group listed
      constructor
      · simp [Group.addOutput, outputs, name]
      · rw [Group.addOutput, List.nodup_append_comm]
        exact List.nodup_cons.mpr ⟨fresh, distinct⟩
    · simpa [different.symm] using grouped.outputs other old
  case merged =>
    intro other inside destination
    rcases either other inside with rfl | ⟨old, _⟩
    · have merged := grouped.merged group listed destination
      by_cases here : destination = edge.destination
      · simp [Group.addOutput, here]
      · simp [Group.addOutput, SortedMap.get?_insert_ne _ _ here, merged, here]
    · exact grouped.merged other old destination
  case connected =>
    intro other inside member belongs output told
    rcases either other inside with rfl | ⟨old, _⟩
    · rcases List.mem_append.mp told with early | new
      · exact grouped.connected group listed member belongs output early
      · rw [List.mem_singleton.mp new]
        exact joined member belongs
    · exact grouped.connected other old member belongs output told
  case apart =>
    intro shared other inside
    rcases either other inside with rfl | ⟨old, _⟩
    · exact grouped.apart shared group listed
    · exact grouped.apart shared other old

theorem addGroupEdge_grouped (graph : JobGraph) (edge : GroupEdge) (wired : Wired graph)
    (grouped : Grouped graph) : Grouped (graph.addGroupEdge edge).1 := by
  rcases wired.addGroupEdge_cases edge with
    ⟨⟨_, refused⟩, _⟩ | ⟨group, connected, found, checked, added, recorded⟩
  · rw [refused]
    exact grouped
  · obtain ⟨listed, name⟩ := group?_eq_some graph edge.group group found
    have kept := addMemberEdges_keepsGroups graph edge.destination edge.property group.members
    rw [added] at kept
    rw [recorded]
    refine (kept.grouped grouped).extend (kept.groups ▸ listed) name ?_ ?_
    · -- the members have an edge to every output, but none to the destination yet
      intro told
      obtain ⟨member, inside⟩ := List.exists_mem_of_length_pos
        (Nat.lt_of_lt_of_le Nat.zero_lt_two (grouped.members group listed).1)
      obtain ⟨property, present⟩ := grouped.connected group listed member inside _ told
      have unknown := (checkMemberEdges_ok graph _ _ _ checked member inside).2
      rw [edge?, List.find?_eq_none] at unknown
      exact unknown _ present (decide_eq_true rfl)
    · intro member inside
      refine ⟨edge.property, ?_⟩
      rw [addMemberEdges_edges _ _ _ _ _ added]
      exact List.mem_append_right _ (List.mem_map_of_mem inside)

theorem handle_grouped (graph : JobGraph) (request : Request) (wired : Wired graph)
    (grouped : Grouped graph) : Grouped (graph.handle request).1 := by
  cases request with
  | foreignEdge edge => exact (addEdge_keepsGroups graph edge).grouped grouped
  | call mutation =>
      cases mutation with
      | addVertex vertex => exact addVertex_grouped graph vertex grouped
      | editVertex name edit => exact (editVertex_keepsGroups graph name edit).grouped grouped
      | addEdge source destination property =>
          exact (addEdge_keepsGroups graph _).grouped grouped
      | createGroup name members => exact createGroup_grouped graph name members grouped
      | addGroupEdge edge => exact addGroupEdge_grouped graph edge wired grouped

theorem handleAll_sound (name : String) (policy : NamespacePolicy) (requests : List Request) :
    Wired ((create name policy).handleAll requests) ∧
      Grouped ((create name policy).handleAll requests) := by
  apply List.foldlRecOn requests (motive := fun graph => Wired graph ∧ Grouped graph)
  · exact ⟨create_wired name policy, create_grouped name policy⟩
  · rintro graph ⟨wired, grouped⟩ request _
    exact ⟨handle_wired graph request wired, handle_grouped graph request wired grouped⟩

/-- Whatever requests a graph has handled, all it records about its groups agrees. -/
theorem recorded_groups_agree (name : String) (policy : NamespacePolicy)
    (requests : List Request) : Grouped ((create name policy).handleAll requests) :=
  (handleAll_sound name policy requests).2

end JobGraph

end ElasticJob
