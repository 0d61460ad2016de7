import BekOS.Peripherals.FlattenedTree

/-!
# Probing the device tree

Each node is given to the probe functions, until one recognises it.  A function answers by what the
nodes are at; that of a bus has the children of its node probed before.  A node that waits for
another is probed again, in rounds, until three rounds have left as many waiting as they found.
-/

namespace BekOS.DeviceTree

open Function

namespace ParsedNode

def address : ParsedNode → ℕ
  | .mk address _ _ _ _ _ => address

def compatible : ParsedNode → List (List Byte)
  | .mk _ _ _ compatible _ _ => compatible

def children : ParsedNode → List ParsedNode
  | .mk _ _ _ _ _ children => children

mutual

/-- A node and all below it. -/
def nodes : ParsedNode → List ParsedNode
  | .mk address parent node compatible phandle children =>
      .mk address parent node compatible phandle children :: nodesAll children

@[inherit_doc nodes]
def nodesAll : List ParsedNode → List ParsedNode
  | [] => []
  | node :: rest => node.nodes ++ nodesAll rest

end

/-- The addresses of the nodes below one. -/
def descendants (node : ParsedNode) : List ℕ :=
  (nodesAll node.children).map address

end ParsedNode

/-- `DevStatus` -/
inductive DevStatus
  | Unprobed
  | Unrecognised
  | Waiting
  | Success
  | Failure
deriving DecidableEq, Repr

/-- `nodeStatus` of each node. -/
abbrev Statuses := ℕ → DevStatus

/-- `get_node_by_phandle`: the node with the phandle, if it is there for use, and what to answer. -/
def getNodeByPhandle (find : ℕ → Option ℕ) (statuses : Statuses) (phandle : ℕ) :
    Option ℕ × DevStatus :=
  match find phandle with
  | none => (none, .Failure)
  | some address =>
      match statuses address with
      | .Unprobed | .Waiting => (none, .Waiting)
      | .Unrecognised | .Failure => (none, .Failure)
      | .Success => (some address, .Success)

/-- What a probe function does with a node: it answers, or it has the children probed, and answers
then. -/
inductive Probe
  | answer (status : DevStatus)
  | descend (answer : Statuses → DevStatus)

/-- `ProbeFn` -/
abbrev ProbeFn := ParsedNode → Statuses → Probe

/-- The tree and `probe_ctx`.  Beside them, each probe of a node, with what the node was at, the
last probe first. -/
structure ProbeState where
  statuses : Statuses
  waiting : List ParsedNode
  log : List (ℕ × DevStatus)

namespace ProbeState

/-- Before anything is probed. -/
def start : ProbeState := ⟨fun _ => .Unprobed, [], []⟩

/-- The start of `probe_node`. -/
def enter (state : ProbeState) (node : ParsedNode) : ProbeState :=
  { state with log := (node.address, state.statuses node.address) :: state.log }

/-- The end of `probe_node`, with its result. -/
def settle (state : ProbeState) (node : ParsedNode) (result : DevStatus) : ProbeState :=
  { state with
    statuses := update state.statuses node.address result
    waiting := if result = .Waiting then state.waiting ++ [node] else state.waiting }

end ProbeState

/-- The loop of `probe_node` over the functions, with what probes the children. -/
def probeWith (node : ParsedNode) (probeChildren : ProbeState → ProbeState) :
    List ProbeFn → ProbeState → ProbeState
  | [], state => state.settle node .Unrecognised
  | probeFn :: others, state =>
      match probeFn node state.statuses with
      | .answer result =>
          if result ≠ .Unrecognised then state.settle node result
          else probeWith node probeChildren others state
      | .descend answer =>
          let after := probeChildren state
          let result := answer after.statuses
          if result ≠ .Unrecognised then after.settle node result
          else probeWith node probeChildren others after

section Probe

variable (probeFunctions : List ProbeFn)

mutual

/-- `probe_node` -/
def probeNode : ParsedNode → ProbeState → ProbeState
  | .mk address parent node compatible phandle children, state =>
      probeWith (.mk address parent node compatible phandle children)
        (fun state => probeAll children state) probeFunctions
        (state.enter (.mk address parent node compatible phandle children))

/-- `probe_node` for some nodes, one after the other. -/
def probeAll : List ParsedNode → ProbeState → ProbeState
  | [], state => state
  | node :: rest, state => probeAll rest (probeNode node state)

end

/-- The first pass of `probe_nodes`. -/
def firstPass (root : ParsedNode) : ProbeState :=
  probeNode probeFunctions root .start

/-- One round: the list is taken away, and its nodes are probed. -/
def probeRound (state : ProbeState) : ProbeState :=
  probeAll probeFunctions state.waiting { state with waiting := [] }

/-- The loop of `probe_nodes`, as far as the fuel goes. -/
def probeRounds : ℕ → ℕ → ProbeState → Option ProbeState
  | 0, _, _ => none
  | _ + 1, 0, state => some state
  | fuel + 1, iterations + 1, state =>
      if state.waiting.length ≠ 0 then
        let after := probeRound probeFunctions state
        if after.waiting.length ≠ state.waiting.length then
          probeRounds fuel (iterations + 1) after
        else probeRounds fuel iterations after
      else some state

/-- `probe_nodes` -/
def probeNodes (fuel : ℕ) (root : ParsedNode) : Option ProbeState :=
  probeRounds probeFunctions fuel 3 (firstPass probeFunctions root)

end Probe

/-! ## What is to hold -/

/-- A node that has been probed before is waiting when it is probed again. -/
def ProbedAgainWaiting : List (ℕ × DevStatus) → Prop
  | [] => True
  | (address, status) :: before =>
      (address ∈ before.map Prod.fst → status = .Waiting) ∧ ProbedAgainWaiting before

/-- What is left waiting would only wait again. -/
def StillWaiting (probeFunctions : List ProbeFn) (root : ParsedNode) (state : ProbeState) : Prop :=
  ∀ node ∈ root.nodes, state.statuses node.address = .Waiting →
    (probeNode probeFunctions node state).statuses node.address = .Waiting

/-- `probe_nodes` comes to an end, has probed only waiting nodes again, and leaves none waiting that
could go on. -/
def ProbesRight (probeFunctions : List ProbeFn) (root : ParsedNode) : Prop :=
  ∃ fuel state, probeNodes probeFunctions fuel root = some state ∧
    ProbedAgainWaiting state.log ∧ StillWaiting probeFunctions root state

/-- Where `probe_nodes` can come to, however many rounds it makes: the nodes of the list that are
still to be probed in this round, and the state. -/
inductive Reaches (probeFunctions : List ProbeFn) (root : ParsedNode) :
    List ParsedNode → ProbeState → Prop
  | first : Reaches probeFunctions root [] (firstPass probeFunctions root)
  | round {state : ProbeState} : Reaches probeFunctions root [] state →
      Reaches probeFunctions root state.waiting { state with waiting := [] }
  | next {node : ParsedNode} {rest : List ParsedNode} {state : ProbeState} :
      Reaches probeFunctions root (node :: rest) state →
      Reaches probeFunctions root rest (probeNode probeFunctions node state)

/-- A waiting node that is probed again adds no other to the list. -/
def AddsNoOther (probeFunctions : List ProbeFn) (root : ParsedNode) : Prop :=
  ∀ node rest state, Reaches probeFunctions root (node :: rest) state →
    ∀ added ∈ (probeNode probeFunctions node state).waiting, added ∈ state.waiting ∨ added = node

/-- A function that has had the children probed has recognised the node, and does not leave it
waiting. -/
def BusesSettle (probeFunctions : List ProbeFn) : Prop :=
  ∀ probeFn ∈ probeFunctions, ∀ node statuses answer, probeFn node statuses = .descend answer →
    ∀ after, answer after ≠ .Waiting ∧ answer after ≠ .Unrecognised

/-! ## The nodes of a tree -/

section Nodes

variable {node node' : ParsedNode}

theorem ParsedNode.nodes_eq (node : ParsedNode) : node.nodes = node :: nodesAll node.children := by
  cases node
  rw [ParsedNode.nodes]
  rfl

theorem ParsedNode.mem_nodes (node : ParsedNode) : node ∈ node.nodes := by
  rw [node.nodes_eq]
  exact List.mem_cons_self

theorem ParsedNode.addresses_eq (node : ParsedNode) :
    node.nodes.map ParsedNode.address = node.address :: node.descendants := by
  rw [node.nodes_eq]
  rfl

theorem ParsedNode.nodesAll_cons (node : ParsedNode) (rest : List ParsedNode) :
    nodesAll (node :: rest) = node.nodes ++ nodesAll rest := by
  rw [ParsedNode.nodesAll]

theorem ParsedNode.nodesAll_nil : nodesAll [] = [] := by
  rw [ParsedNode.nodesAll]

mutual

/-- **What is below a node** that is below another is below that one, in the same order. -/
theorem ParsedNode.nodes_sublist : ∀ node : ParsedNode, ∀ node' ∈ node.nodes,
    node'.nodes.Sublist node.nodes
  | .mk address parent data compatible phandle children => by
      intro node' hmem
      have hmem' := hmem
      rw [ParsedNode.nodes] at hmem'
      rcases List.mem_cons.mp hmem' with rfl | hbelow
      · exact List.Sublist.refl _
      · rw [ParsedNode.nodes.eq_def (.mk address parent data compatible phandle children)]
        exact (nodesAll_sublist children node' hbelow).cons _

@[inherit_doc ParsedNode.nodes_sublist]
theorem ParsedNode.nodesAll_sublist : ∀ list : List ParsedNode, ∀ node' ∈ nodesAll list,
    node'.nodes.Sublist (nodesAll list)
  | [] => by
      intro node' hmem
      rw [nodesAll_nil] at hmem
      cases hmem
  | node :: rest => by
      intro node' hmem
      rw [nodesAll_cons, List.mem_append] at hmem
      rw [nodesAll_cons]
      rcases hmem with hmem | hmem
      · exact (nodes_sublist node node' hmem).trans (List.sublist_append_left ..)
      · exact (nodesAll_sublist rest node' hmem).trans (List.sublist_append_right ..)

end

mutual

/-- **Two nodes** that have one below both are one below the other. -/
theorem ParsedNode.nodes_nested : ∀ node : ParsedNode, (node.nodes.map ParsedNode.address).Nodup →
    ∀ one ∈ node.nodes, ∀ other ∈ node.nodes, ∀ common ∈ one.nodes.map ParsedNode.address,
    common ∈ other.nodes.map ParsedNode.address → one ∈ other.nodes ∨ other ∈ one.nodes
  | .mk address parent data compatible phandle children => by
      intro hnodup one hone other hother common hcommon hcommon'
      rw [ParsedNode.nodes] at hnodup
      have hone' := hone
      have hother' := hother
      rw [ParsedNode.nodes] at hone' hother'
      rcases List.mem_cons.mp hone' with rfl | hone'
      · exact Or.inr hother
      · rcases List.mem_cons.mp hother' with rfl | hother'
        · exact Or.inl hone
        · exact nodesAll_nested children (List.nodup_cons.mp hnodup).2 one hone' other hother'
            common hcommon hcommon'

@[inherit_doc ParsedNode.nodes_nested]
theorem ParsedNode.nodesAll_nested : ∀ list : List ParsedNode,
    ((nodesAll list).map ParsedNode.address).Nodup → ∀ one ∈ nodesAll list, ∀ other ∈ nodesAll list,
    ∀ common ∈ one.nodes.map ParsedNode.address, common ∈ other.nodes.map ParsedNode.address →
    one ∈ other.nodes ∨ other ∈ one.nodes
  | [] => by
      intro _ one hone
      rw [nodesAll_nil] at hone
      cases hone
  | node :: rest => by
      intro hnodup one hone other hother common hcommon hcommon'
      rw [nodesAll_cons, List.map_append, List.nodup_append] at hnodup
      obtain ⟨hnode, hrest, hapart⟩ := hnodup
      have hinNode : ∀ inner ∈ node.nodes, ∀ address ∈ inner.nodes.map ParsedNode.address,
          address ∈ node.nodes.map ParsedNode.address := fun inner hinner =>
        List.map_subset _ (nodes_sublist node inner hinner).subset
      have hinRest : ∀ inner ∈ nodesAll rest, ∀ address ∈ inner.nodes.map ParsedNode.address,
          address ∈ (nodesAll rest).map ParsedNode.address := fun inner hinner =>
        List.map_subset _ (nodesAll_sublist rest inner hinner).subset
      rw [nodesAll_cons, List.mem_append] at hone hother
      rcases hone with hone | hone <;> rcases hother with hother | hother
      · exact nodes_nested node hnode one hone other hother common hcommon hcommon'
      · exact absurd rfl (hapart _ (hinNode one hone _ hcommon) _ (hinRest other hother _ hcommon'))
      · exact absurd rfl (hapart _ (hinNode other hother _ hcommon') _ (hinRest one hone _ hcommon))
      · exact nodesAll_nested rest hrest one hone other hother common hcommon hcommon'

end

theorem ParsedNode.descendants_subset (hmem : node' ∈ nodesAll node.children) :
    node'.descendants ⊆ node.descendants := by
  intro address haddress
  have hall : address ∈ node'.nodes.map ParsedNode.address := by
    rw [node'.addresses_eq]
    exact List.mem_cons_of_mem _ haddress
  exact List.map_subset _ (nodesAll_sublist node.children node' hmem).subset hall

end Nodes

/-! ## One probe -/

namespace ProbeState

/-- The node has been probed. -/
def Touched (state : ProbeState) (address : ℕ) : Prop :=
  address ∈ state.log.map Prod.fst

/-- None of the nodes has been probed. -/
def Fresh (state : ProbeState) (addresses : List ℕ) : Prop :=
  ∀ address ∈ addresses, ¬ state.Touched address ∧ state.statuses address ≠ .Waiting

end ProbeState

/-- What the probing of some nodes may do: it is all about these nodes, those that wait after it are
on the list, and nothing below a node that has not been probed, or that waits, has been. -/
structure Probed (nodes : List ParsedNode) (before after : ProbeState) : Prop where
  statuses : ∀ address ∉ nodes.map ParsedNode.address,
    after.statuses address = before.statuses address
  touched : ∀ address, after.Touched address →
    before.Touched address ∨ address ∈ nodes.map ParsedNode.address
  stays : ∀ address, before.Touched address → after.Touched address
  log : ProbedAgainWaiting before.log → ProbedAgainWaiting after.log
  waiting : ∃ added, after.waiting = before.waiting ++ added ∧
    (added.map ParsedNode.address).Nodup ∧
    ∀ node, node ∈ added ↔ node ∈ nodes ∧ after.statuses node.address = .Waiting
  closed : ∀ node ∈ nodes,
    ¬ after.Touched node.address ∨ after.statuses node.address = .Waiting →
      after.Fresh node.descendants

section OneProbe

variable {node : ParsedNode} {nodes list : List ParsedNode} {before after state mid : ProbeState}
  {result : DevStatus} {probeFunctions : List ProbeFn} {probeChildren : ProbeState → ProbeState}

theorem ProbeState.Fresh.mono {addresses addresses' : List ℕ} (fresh : state.Fresh addresses)
    (hsub : addresses' ⊆ addresses) : state.Fresh addresses' :=
  fun address hmem => fresh address (hsub hmem)

theorem Probed.refl (fresh : state.Fresh (nodes.map ParsedNode.address))
    (hclosed : ∀ node ∈ nodes, state.Fresh node.descendants) : Probed nodes state state where
  statuses := fun _ _ => rfl
  touched := fun _ => Or.inl
  stays := fun _ => id
  log := id
  waiting := ⟨[], (List.append_nil _).symm, List.nodup_nil, fun node => by
    refine iff_of_false List.not_mem_nil fun ⟨hmem, hwaiting⟩ => ?_
    exact (fresh _ (List.mem_map_of_mem hmem)).2 hwaiting⟩
  closed := fun node hmem _ => hclosed node hmem

theorem ProbeState.Fresh.enter (fresh : state.Fresh node.descendants)
    (hnodup : (node.nodes.map ParsedNode.address).Nodup) :
    (state.enter node).Fresh node.descendants := by
  rw [node.addresses_eq] at hnodup
  intro address hmem
  refine ⟨fun htouched => ?_, (fresh address hmem).2⟩
  rcases List.mem_cons.mp htouched with rfl | htouched
  · exact (List.nodup_cons.mp hnodup).1 hmem
  · exact (fresh address hmem).1 htouched

theorem ProbeState.Fresh.settle {addresses : List ℕ} (fresh : state.Fresh addresses)
    (hmem : node.address ∉ addresses) (result : DevStatus) :
    (state.settle node result).Fresh addresses := by
  intro address haddress
  refine ⟨(fresh address haddress).1, ?_⟩
  have hne : address ≠ node.address := fun heq => hmem (heq ▸ haddress)
  exact (congrArg (· ≠ DevStatus.Waiting) (update_of_ne hne result state.statuses)).mpr
    (fresh address haddress).2

/-- **A node is settled** after its children. -/
theorem Probed.settle
    (probed : Probed (ParsedNode.nodesAll node.children) (before.enter node) mid)
    (hnodup : (node.nodes.map ParsedNode.address).Nodup)
    (hagain : before.Touched node.address → before.statuses node.address = .Waiting)
    (hwaits : result = .Waiting → mid.Fresh node.descendants) :
    Probed node.nodes before (mid.settle node result) := by
  rw [node.addresses_eq] at hnodup
  obtain ⟨hnode, hbelow⟩ := List.nodup_cons.mp hnodup
  have hother : ∀ inner ∈ ParsedNode.nodesAll node.children,
      (mid.settle node result).statuses inner.address = mid.statuses inner.address :=
    fun inner hinner => update_of_ne
      (ne_of_mem_of_not_mem (List.mem_map_of_mem hinner) hnode) _ _
  have hself : (mid.settle node result).statuses node.address = result :=
    update_self ..
  constructor
  · intro address hmem
    rw [node.addresses_eq, List.mem_cons, not_or] at hmem
    exact (update_of_ne hmem.1 _ _).trans (probed.statuses address hmem.2)
  · intro address htouched
    rw [node.addresses_eq, List.mem_cons]
    rcases probed.touched address htouched with henter | hmem
    · rcases List.mem_cons.mp henter with heq | hbefore
      · exact Or.inr (Or.inl heq)
      · exact Or.inl hbefore
    · exact Or.inr (Or.inr hmem)
  · exact fun address htouched => probed.stays address (List.mem_cons_of_mem _ htouched)
  · exact fun hlog => probed.log ⟨hagain, hlog⟩
  · obtain ⟨added, hwaiting, hadded, hiff⟩ := probed.waiting
    have hall : ∀ inner, inner ∈ added ↔ inner ∈ ParsedNode.nodesAll node.children ∧
        (mid.settle node result).statuses inner.address = .Waiting := fun inner => by
      rw [hiff]
      exact and_congr_right fun hinner => by rw [hother inner hinner]
    have hnot : node.address ∉ added.map ParsedNode.address := fun hmem => by
      obtain ⟨inner, hinner, heq⟩ := List.mem_map.mp hmem
      refine hnode ?_
      rw [← heq]
      exact List.mem_map_of_mem ((hiff inner).mp hinner).1
    by_cases hresult : result = .Waiting
    · refine ⟨added ++ [node], ?_, ?_, fun inner => ?_⟩
      · rw [← List.append_assoc]
        exact (if_pos hresult).trans (congrArg (· ++ [node]) hwaiting)
      · rw [List.map_append, List.nodup_append]
        refine ⟨hadded, List.nodup_singleton _, fun a ha b hb heq => ?_⟩
        exact hnot (List.mem_singleton.mp hb ▸ heq ▸ ha)
      · rw [node.nodes_eq, List.mem_append, List.mem_singleton, List.mem_cons, hall]
        constructor
        · rintro (⟨hinner, hstatus⟩ | rfl)
          · exact ⟨Or.inr hinner, hstatus⟩
          · exact ⟨Or.inl rfl, hself.trans hresult⟩
        · rintro ⟨rfl | hinner, hstatus⟩
          · exact Or.inr rfl
          · exact Or.inl ⟨hinner, hstatus⟩
    · refine ⟨added, (if_neg hresult).trans hwaiting, hadded, fun inner => ?_⟩
      rw [node.nodes_eq, List.mem_cons, hall]
      constructor
      · exact fun ⟨hinner, hstatus⟩ => ⟨Or.inr hinner, hstatus⟩
      · rintro ⟨rfl | hinner, hstatus⟩
        · exact absurd (hself.symm.trans hstatus) hresult
        · exact ⟨hinner, hstatus⟩
  · intro inner hinner hcase
    rw [node.nodes_eq, List.mem_cons] at hinner
    rcases hinner with rfl | hinner
    · rw [hself] at hcase
      rcases hcase with huntouched | hresult
      · exact absurd (probed.stays _ List.mem_cons_self) huntouched
      · exact (hwaits hresult).settle hnode result
    · rw [hother inner hinner] at hcase
      exact (probed.closed inner hinner hcase).settle
        (fun hmem => hnode (ParsedNode.descendants_subset hinner hmem)) result

/-- **Two probes** of nodes that are apart. -/
theorem Probed.append (probed : Probed nodes before mid) (probed' : Probed list mid after)
    (hapart : ∀ address ∈ nodes.map ParsedNode.address, address ∉ list.map ParsedNode.address)
    (hinside : ∀ node ∈ nodes, node.descendants ⊆ nodes.map ParsedNode.address) :
    Probed (nodes ++ list) before after := by
  have hother : ∀ node ∈ nodes, after.statuses node.address = mid.statuses node.address :=
    fun node hnode => probed'.statuses _ (hapart _ (List.mem_map_of_mem hnode))
  have hother' : ∀ node ∈ list, node ∉ nodes := fun node hlist hnode =>
    hapart _ (List.mem_map_of_mem hnode) (List.mem_map_of_mem hlist)
  constructor
  · intro address hmem
    rw [List.map_append, List.mem_append, not_or] at hmem
    exact (probed'.statuses address hmem.2).trans (probed.statuses address hmem.1)
  · intro address htouched
    rw [List.map_append, List.mem_append]
    rcases probed'.touched address htouched with hmid | hmem
    · exact (probed.touched address hmid).imp id Or.inl
    · exact Or.inr (Or.inr hmem)
  · exact fun address htouched => probed'.stays address (probed.stays address htouched)
  · exact fun hlog => probed'.log (probed.log hlog)
  · obtain ⟨added, hwaiting, hadded, hiff⟩ := probed.waiting
    obtain ⟨added', hwaiting', hadded', hiff'⟩ := probed'.waiting
    refine ⟨added ++ added', ?_, ?_, fun node => ?_⟩
    · rw [hwaiting', hwaiting, List.append_assoc]
    · rw [List.map_append, List.nodup_append]
      refine ⟨hadded, hadded', ?_⟩
      rintro _ hone _ hother rfl
      obtain ⟨one, hone, heq⟩ := List.mem_map.mp hone
      obtain ⟨other, hother, heq'⟩ := List.mem_map.mp hother
      refine hapart _ (List.mem_map_of_mem ((hiff one).mp hone).1) ?_
      rw [heq, ← heq']
      exact List.mem_map_of_mem ((hiff' other).mp hother).1
    · rw [List.mem_append, List.mem_append, hiff, hiff', or_and_right]
      exact or_congr_left (and_congr_right fun hnode => by rw [hother node hnode])
  · intro node hnode hcase
    rcases List.mem_append.mp hnode with hnode | hnode
    · have hfresh := probed.closed node hnode
        (hcase.imp (fun h hmid => h (probed'.stays _ hmid))
          fun h => (hother node hnode).symm.trans h)
      intro address hmem
      obtain ⟨huntouched, hstatus⟩ := hfresh address hmem
      have hnot := hapart address (hinside node hnode hmem)
      refine ⟨fun htouched => (probed'.touched address htouched).elim huntouched hnot, ?_⟩
      rw [probed'.statuses address hnot]
      exact hstatus
    · exact probed'.closed node hnode hcase

/-- **The functions one after the other**: the node is settled, at once or after its children have
been probed, and then it does not wait. -/
theorem probeWith_cases (settle : BusesSettle probeFunctions) (state : ProbeState) :
    ∃ mid result, probeWith node probeChildren probeFunctions state = mid.settle node result ∧
      (mid = state ∨ mid = probeChildren state ∧ result ≠ .Waiting) := by
  induction probeFunctions with
  | nil => exact ⟨state, .Unrecognised, rfl, Or.inl rfl⟩
  | cons probeFn others ih =>
      have hothers : BusesSettle others := fun other hother =>
        settle other (List.mem_cons_of_mem _ hother)
      rw [probeWith]
      cases hprobe : probeFn node state.statuses with
      | answer result =>
          dsimp only
          split_ifs with hrecognised
          · exact ⟨state, result, rfl, Or.inl rfl⟩
          · exact ih hothers
      | descend answer =>
          obtain ⟨hwaiting, hrecognised⟩ := settle probeFn List.mem_cons_self node state.statuses
            answer hprobe (probeChildren state).statuses
          dsimp only
          rw [if_pos hrecognised]
          exact ⟨_, _, rfl, Or.inr ⟨rfl, hwaiting⟩⟩

theorem ParsedNode.descendants_subset_nodes {inner : ParsedNode} (hinner : inner ∈ node.nodes) :
    inner.descendants ⊆ node.nodes.map ParsedNode.address := by
  intro address hmem
  refine List.map_subset _ (ParsedNode.nodes_sublist node inner hinner).subset ?_
  rw [inner.addresses_eq]
  exact List.mem_cons_of_mem _ hmem

mutual

/-- **One probe**, of a node below which nothing has been probed. -/
theorem probeNode_probed (settle : BusesSettle probeFunctions) : ∀ (node : ParsedNode)
    (state : ProbeState), (node.nodes.map ParsedNode.address).Nodup →
    (state.Touched node.address → state.statuses node.address = .Waiting) →
    state.Fresh node.descendants → Probed node.nodes state (probeNode probeFunctions node state)
  | .mk address parent data compatible phandle children, state => by
      intro hnodup hagain fresh
      have entered := fresh.enter hnodup
      rw [probeNode]
      obtain ⟨mid, result, heq, hcases⟩ := probeWith_cases settle
        (state.enter (.mk address parent data compatible phandle children))
      rw [heq]
      rcases hcases with rfl | ⟨rfl, hresult⟩
      · refine Probed.settle (Probed.refl entered fun inner hinner => ?_) hnodup hagain
          fun _ => entered
        exact entered.mono (ParsedNode.descendants_subset hinner)
      · refine Probed.settle ?_ hnodup hagain fun h => absurd h hresult
        rw [ParsedNode.addresses_eq] at hnodup
        exact probeAll_probed settle children _ (List.nodup_cons.mp hnodup).2 entered

@[inherit_doc probeNode_probed]
theorem probeAll_probed (settle : BusesSettle probeFunctions) : ∀ (list : List ParsedNode)
    (state : ProbeState), ((ParsedNode.nodesAll list).map ParsedNode.address).Nodup →
    state.Fresh ((ParsedNode.nodesAll list).map ParsedNode.address) →
    Probed (ParsedNode.nodesAll list) state (probeAll probeFunctions list state)
  | [], state => by
      intro _ fresh
      rw [probeAll]
      refine Probed.refl fresh fun node hnode => ?_
      rw [ParsedNode.nodesAll_nil] at hnode
      cases hnode
  | node :: rest, state => by
      intro hnodup fresh
      rw [ParsedNode.nodesAll_cons, List.map_append] at hnodup fresh
      obtain ⟨hnode, hrest, hapart⟩ := List.nodup_append.mp hnodup
      have hself : node.address ∈ node.nodes.map ParsedNode.address :=
        List.mem_map_of_mem node.mem_nodes
      have probed := probeNode_probed settle node state hnode
        (fun htouched => absurd htouched (fresh _ (List.mem_append_left _ hself)).1)
        (fresh.mono (List.subset_append_of_subset_left _
          (ParsedNode.descendants_subset_nodes node.mem_nodes)))
      rw [probeAll, ParsedNode.nodesAll_cons]
      refine probed.append (probeAll_probed settle rest _ hrest fun address hmem => ?_)
        (fun address hmem hmem' => hapart _ hmem _ hmem' rfl)
        fun inner => ParsedNode.descendants_subset_nodes
      have hnot : address ∉ node.nodes.map ParsedNode.address :=
        fun hmem' => hapart _ hmem' _ hmem rfl
      obtain ⟨huntouched, hstatus⟩ := fresh address (List.mem_append_right _ hmem)
      refine ⟨fun htouched => (probed.touched address htouched).elim huntouched hnot, ?_⟩
      rw [probed.statuses address hnot]
      exact hstatus

end

theorem probeNode_waiting (settle : BusesSettle probeFunctions) (node : ParsedNode)
    (state : ProbeState)
    (hwaiting : (probeNode probeFunctions node state).statuses node.address = .Waiting) :
    (probeNode probeFunctions node state).statuses =
      update state.statuses node.address .Waiting := by
  obtain ⟨address, parent, data, compatible, phandle, children⟩ := node
  rw [probeNode] at hwaiting ⊢
  obtain ⟨mid, result, heq, hcases⟩ := probeWith_cases settle
    (state.enter (.mk address parent data compatible phandle children))
  rw [heq] at hwaiting ⊢
  have hresult : result = .Waiting := (update_self ..).symm.trans hwaiting
  rcases hcases with rfl | ⟨-, hne⟩
  · rw [hresult]
    rfl
  · exact absurd hresult hne

theorem probeWith_congr {state' : ProbeState} (probeFunctions : List ProbeFn)
    (hchildren : ∀ state state' : ProbeState, state.statuses = state'.statuses →
      (probeChildren state).statuses = (probeChildren state').statuses)
    (hstatuses : state.statuses = state'.statuses) :
    (probeWith node probeChildren probeFunctions state).statuses =
      (probeWith node probeChildren probeFunctions state').statuses := by
  have hsettle : ∀ {one other : ProbeState} (result : DevStatus), one.statuses = other.statuses →
      (one.settle node result).statuses = (other.settle node result).statuses :=
    fun result heq => by
      show update _ _ _ = update _ _ _
      rw [heq]
  induction probeFunctions generalizing state state' with
  | nil => exact hsettle _ hstatuses
  | cons probeFn others ih =>
      rw [probeWith, probeWith, hstatuses]
      cases probeFn node state'.statuses with
      | answer result =>
          dsimp only
          split_ifs
          · exact hsettle _ hstatuses
          · exact ih hstatuses
      | descend answer =>
          have hafter := hchildren state state' hstatuses
          dsimp only
          rw [hafter]
          split_ifs
          · exact hsettle _ hafter
          · exact ih hafter

mutual

/-- **What a probe comes to** depends on what the nodes are at only. -/
theorem probeNode_congr (probeFunctions : List ProbeFn) : ∀ (node : ParsedNode)
    (state state' : ProbeState), state.statuses = state'.statuses →
    (probeNode probeFunctions node state).statuses =
      (probeNode probeFunctions node state').statuses
  | .mk address parent data compatible phandle children, state, state' => by
      intro hstatuses
      rw [probeNode, probeNode]
      exact probeWith_congr probeFunctions (probeAll_congr probeFunctions children) hstatuses

@[inherit_doc probeNode_congr]
theorem probeAll_congr (probeFunctions : List ProbeFn) : ∀ (list : List ParsedNode)
    (state state' : ProbeState), state.statuses = state'.statuses →
    (probeAll probeFunctions list state).statuses = (probeAll probeFunctions list state').statuses
  | [], state, state' => by
      intro hstatuses
      rw [probeAll, probeAll]
      exact hstatuses
  | node :: rest, state, state' => by
      intro hstatuses
      rw [probeAll, probeAll]
      exact probeAll_congr probeFunctions rest _ _
        (probeNode_congr probeFunctions node _ _ hstatuses)

end

end OneProbe

/-! ## Rounds -/

section Rounds

variable {probeFunctions : List ProbeFn} {root node : ParsedNode} {rest : List ParsedNode}
  {state : ProbeState}

/-- What holds while a round is made: the waiting nodes are those on the list, and those of the list
before that are still to be probed. -/
structure InRound (root : ParsedNode) (rest : List ParsedNode) (state : ProbeState) : Prop where
  log : ProbedAgainWaiting state.log
  nodup : ((state.waiting ++ rest).map ParsedNode.address).Nodup
  mem_iff : ∀ node, node ∈ state.waiting ++ rest ↔
    node ∈ root.nodes ∧ state.statuses node.address = .Waiting
  closed : ∀ node ∈ root.nodes,
    ¬ state.Touched node.address ∨ state.statuses node.address = .Waiting →
      state.Fresh node.descendants

theorem inRound_first (settle : BusesSettle probeFunctions)
    (hnodup : (root.nodes.map ParsedNode.address).Nodup) :
    InRound root [] (firstPass probeFunctions root) := by
  have probed := probeNode_probed settle root .start hnodup (fun h => absurd h List.not_mem_nil)
    fun address _ => ⟨List.not_mem_nil, fun h => by cases h⟩
  obtain ⟨added, hwaiting, hadded, hiff⟩ := probed.waiting
  have hwaiting : (firstPass probeFunctions root).waiting = added := hwaiting
  refine ⟨probed.log trivial, ?_, fun node => ?_, probed.closed⟩
  · rw [List.append_nil, hwaiting]
    exact hadded
  · rw [List.append_nil, hwaiting]
    exact hiff node

theorem InRound.round (inRound : InRound root [] state) :
    InRound root state.waiting { state with waiting := [] } where
  log := inRound.log
  nodup := List.append_nil state.waiting ▸ inRound.nodup
  mem_iff := fun node => by
    rw [← inRound.mem_iff, List.append_nil]
    rfl
  closed := inRound.closed

theorem InRound.head (inRound : InRound root (node :: rest) state) :
    node ∈ root.nodes ∧ state.statuses node.address = .Waiting ∧ state.Fresh node.descendants := by
  obtain ⟨hmem, hwaiting⟩ := (inRound.mem_iff node).mp
    (List.mem_append_right _ List.mem_cons_self)
  exact ⟨hmem, hwaiting, inRound.closed node hmem (Or.inr hwaiting)⟩

theorem InRound.eq_head (inRound : InRound root (node :: rest) state) {inner : ParsedNode}
    (hinner : inner ∈ node.nodes) (hwaiting : state.statuses inner.address = .Waiting) :
    inner = node := by
  rw [node.nodes_eq, List.mem_cons] at hinner
  refine hinner.resolve_right fun hbelow => ?_
  exact (inRound.head.2.2 _ (List.mem_map_of_mem hbelow)).2 hwaiting

theorem InRound.head_not_mem (inRound : InRound root (node :: rest) state) :
    node ∉ state.waiting ++ rest := by
  have hnodup := List.Nodup.of_map _ inRound.nodup
  rw [List.nodup_middle] at hnodup
  exact (List.nodup_cons.mp hnodup).1

theorem InRound.added (inRound : InRound root (node :: rest) state)
    (hnoOther : ∀ added ∈ (probeNode probeFunctions node state).waiting,
      added ∈ state.waiting ∨ added = node)
    (probed : Probed node.nodes state (probeNode probeFunctions node state)) :
    ∃ added, (added = [] ∨ added = [node]) ∧
      (probeNode probeFunctions node state).waiting = state.waiting ++ added ∧
      ∀ inner, inner ∈ added ↔ inner ∈ node.nodes ∧
        (probeNode probeFunctions node state).statuses inner.address = .Waiting := by
  obtain ⟨added, hwaiting, hnodup, hiff⟩ := probed.waiting
  have hall : ∀ inner ∈ added, inner = node := by
    intro inner hinner
    have hmem : inner ∈ (probeNode probeFunctions node state).waiting :=
      hwaiting ▸ List.mem_append_right _ hinner
    refine (hnoOther inner hmem).elim (fun hbefore => ?_) id
    exact inRound.eq_head ((hiff inner).mp hinner).1
      ((inRound.mem_iff inner).mp (List.mem_append_left _ hbefore)).2
  refine ⟨added, ?_, hwaiting, hiff⟩
  rcases added with _ | ⟨first, _ | ⟨second, others⟩⟩
  · exact Or.inl rfl
  · exact Or.inr (congrArg (fun node => [node]) (hall first List.mem_cons_self))
  · have hfirst := hall first List.mem_cons_self
    have hsecond := hall second (List.mem_cons_of_mem _ List.mem_cons_self)
    rw [hfirst, hsecond] at hnodup
    exact absurd List.mem_cons_self (List.nodup_cons.mp hnodup).1

/-- **The next node** of a round. -/
theorem InRound.next (settle : BusesSettle probeFunctions)
    (hnodup : (root.nodes.map ParsedNode.address).Nodup)
    (inRound : InRound root (node :: rest) state)
    (hnoOther : ∀ added ∈ (probeNode probeFunctions node state).waiting,
      added ∈ state.waiting ∨ added = node) :
    InRound root rest (probeNode probeFunctions node state) ∧
      ∃ added, (added = [] ∨ added = [node]) ∧
        (probeNode probeFunctions node state).waiting = state.waiting ++ added ∧
        (added = [node] → (probeNode probeFunctions node state).statuses = state.statuses) := by
  obtain ⟨hmem, hwaits, fresh⟩ := inRound.head
  have hsub := ParsedNode.nodes_sublist root node hmem
  have probed := probeNode_probed settle node state (hnodup.sublist (hsub.map _))
    (fun _ => hwaits) fresh
  obtain ⟨added, hadded, hwaiting, hiff⟩ := inRound.added hnoOther probed
  have hsame : ∀ inner ∈ root.nodes, inner ∉ node.nodes →
      inner.address ∉ node.nodes.map ParsedNode.address := by
    intro inner hinner hnot hin
    obtain ⟨other, hother, heq⟩ := List.mem_map.mp hin
    cases List.inj_on_of_nodup_map hnodup (hsub.subset hother) hinner heq
    exact hnot hother
  refine ⟨⟨probed.log inRound.log, ?_, fun inner => ?_, fun inner hinner hcase => ?_⟩, added,
    hadded, hwaiting, fun hone => ?_⟩
  · rw [hwaiting]
    have hbefore := inRound.nodup
    rcases hadded with rfl | rfl
    · rw [List.append_nil]
      exact hbefore.sublist (((List.sublist_cons_self node rest).append_left state.waiting).map _)
    · rwa [List.append_assoc, List.singleton_append]
  · rw [hwaiting]
    by_cases hin : inner ∈ node.nodes
    · -- of the nodes from this one on, only this one may have been on the list
      have hnot : inner ∉ state.waiting ++ rest := by
        intro hlist
        have hone := inRound.eq_head hin ((inRound.mem_iff inner).mp (by
          rw [List.mem_append, List.mem_cons]
          exact (List.mem_append.mp hlist).imp id Or.inr)).2
        exact inRound.head_not_mem (hone ▸ hlist)
      rw [List.mem_append, not_or] at hnot
      rw [List.mem_append, List.mem_append, or_iff_right hnot.1, or_iff_left hnot.2, hiff]
      exact and_congr_left fun _ => iff_of_true hin (hsub.subset hin)
    · have hout : inner ∉ added := fun h => hin ((hiff inner).mp h).1
      have hne : inner ≠ node := fun h => hin (h ▸ node.mem_nodes)
      rw [List.mem_append, List.mem_append, or_iff_left hout]
      have hbefore := inRound.mem_iff inner
      rw [List.mem_append, List.mem_cons, or_iff_right hne] at hbefore
      rw [hbefore]
      exact and_congr_right fun hinner => by rw [probed.statuses _ (hsame inner hinner hin)]
  · by_cases hin : inner ∈ node.nodes
    · exact probed.closed inner hin hcase
    · have hstatus := probed.statuses _ (hsame inner hinner hin)
      rw [hstatus] at hcase
      have freshInner := inRound.closed inner hinner
        (hcase.imp (fun h hbefore => h (probed.stays _ hbefore)) id)
      -- this node is not below one below which nothing has been probed
      have hapart : ∀ address ∈ inner.descendants,
          address ∉ node.nodes.map ParsedNode.address := by
        intro address hbelow hcommon
        have hcommon' : address ∈ inner.nodes.map ParsedNode.address := by
          rw [inner.addresses_eq]
          exact List.mem_cons_of_mem _ hbelow
        rcases ParsedNode.nodes_nested root hnodup inner hinner node hmem address hcommon' hcommon
          with hnested | hnested
        · exact hin hnested
        · rw [inner.nodes_eq, List.mem_cons] at hnested
          rcases hnested with heq | hnested
          · exact hin (heq ▸ node.mem_nodes)
          · exact (freshInner _ (List.mem_map_of_mem hnested)).2 hwaits
      intro address hbelow
      obtain ⟨huntouched, hnotWaiting⟩ := freshInner address hbelow
      have hnot := hapart address hbelow
      refine ⟨fun htouched => (probed.touched address htouched).elim huntouched hnot, ?_⟩
      rw [probed.statuses address hnot]
      exact hnotWaiting
  · have hself : (probeNode probeFunctions node state).statuses node.address = .Waiting :=
      ((hiff node).mp (hone ▸ List.mem_cons_self)).2
    rw [probeNode_waiting settle node state hself, ← hwaits]
    exact update_eq_self ..

/-- **Wherever `probe_nodes` comes to.** -/
theorem Reaches.inRound (settle : BusesSettle probeFunctions)
    (hnodup : (root.nodes.map ParsedNode.address).Nodup)
    (noOther : AddsNoOther probeFunctions root) (reaches : Reaches probeFunctions root rest state) :
    InRound root rest state := by
  induction reaches with
  | first => exact inRound_first settle hnodup
  | round _ ih => exact ih.round
  | next reaches ih => exact (ih.next settle hnodup (noOther _ _ _ reaches)).1

theorem Reaches.all (reaches : Reaches probeFunctions root rest state) :
    Reaches probeFunctions root [] (probeAll probeFunctions rest state) := by
  induction rest generalizing state with
  | nil =>
      rw [probeAll]
      exact reaches
  | cons node rest ih =>
      rw [probeAll]
      exact ih reaches.next

/-- **A round** leaves no more waiting than there were; if it leaves as many, nothing has changed,
and each would wait again. -/
theorem Reaches.probeAll_length (settle : BusesSettle probeFunctions)
    (hnodup : (root.nodes.map ParsedNode.address).Nodup)
    (noOther : AddsNoOther probeFunctions root) (reaches : Reaches probeFunctions root rest state) :
    (probeAll probeFunctions rest state).waiting.length ≤ state.waiting.length + rest.length ∧
      ((probeAll probeFunctions rest state).waiting.length = state.waiting.length + rest.length →
        (probeAll probeFunctions rest state).statuses = state.statuses ∧
        ∀ node ∈ rest, ∀ later : ProbeState, later.statuses = state.statuses →
          (probeNode probeFunctions node later).statuses node.address = .Waiting) := by
  induction rest generalizing state with
  | nil =>
      rw [probeAll]
      exact ⟨le_rfl, fun _ => ⟨rfl, List.forall_mem_nil _⟩⟩
  | cons node rest ih =>
      have inRound := reaches.inRound settle hnodup noOther
      obtain ⟨-, added, hadded, hwaiting, hsame⟩ :=
        inRound.next settle hnodup (noOther _ _ _ reaches)
      obtain ⟨hle, hkept⟩ := ih reaches.next
      have hlength : added.length ≤ 1 := by
        rcases hadded with rfl | rfl
        · exact Nat.zero_le _
        · exact le_rfl
      rw [probeAll, List.length_cons]
      rw [hwaiting, List.length_append] at hle hkept
      refine ⟨by omega, fun hequal => ?_⟩
      have hone : added = [node] := hadded.resolve_left fun h => by
        rw [h, List.length_nil] at hle
        omega
      have hstatuses := hsame hone
      obtain ⟨hrest, hagain⟩ := hkept (by rw [hone, List.length_singleton]; omega)
      rw [hstatuses] at hrest hagain
      refine ⟨hrest, List.forall_mem_cons.mpr ⟨fun later hlater => ?_, hagain⟩⟩
      rw [probeNode_congr probeFunctions node later state hlater, hstatuses]
      exact inRound.head.2.1

/-- **The rounds** come to an end: each leaves less waiting, or is one of the three. -/
theorem probeRounds_ends (settle : BusesSettle probeFunctions)
    (hnodup : (root.nodes.map ParsedNode.address).Nodup)
    (noOther : AddsNoOther probeFunctions root) (fuel iterations : ℕ)
    (reaches : Reaches probeFunctions root [] state)
    (hstill : iterations = 0 → StillWaiting probeFunctions root state)
    (hfuel : state.waiting.length + iterations < fuel) :
    ∃ final, probeRounds probeFunctions fuel iterations state = some final ∧
      ProbedAgainWaiting final.log ∧ StillWaiting probeFunctions root final := by
  induction fuel generalizing iterations state with
  | zero => exact absurd hfuel (Nat.not_lt_zero _)
  | succ fuel ih =>
      have inRound := reaches.inRound settle hnodup noOther
      cases iterations with
      | zero => exact ⟨state, rfl, inRound.log, hstill rfl⟩
      | succ iterations =>
          rw [probeRounds]
          split_ifs with hsome
          · have reachesAll := reaches.round.all
            obtain ⟨hle, hkept⟩ := reaches.round.probeAll_length settle hnodup noOther
            have hround : probeAll probeFunctions state.waiting { state with waiting := [] } =
                probeRound probeFunctions state := rfl
            rw [hround] at reachesAll hle hkept
            rw [List.length_nil, Nat.zero_add] at hle hkept
            dsimp only
            split_ifs with hprogress
            · exact ih _ reachesAll (fun h => absurd h (Nat.succ_ne_zero _)) (by omega)
            · have hequal := not_not.mp hprogress
              obtain ⟨hstatuses, hagain⟩ := hkept hequal
              refine ih _ reachesAll (fun _ node hnode hwaits => ?_) (by omega)
              rw [hstatuses] at hwaits
              have hlist := (inRound.mem_iff node).mpr ⟨hnode, hwaits⟩
              rw [List.append_nil] at hlist
              exact hagain node hlist _ hstatuses
          · refine ⟨state, rfl, inRound.log, fun node hnode hwaits => ?_⟩
            have hlist := (inRound.mem_iff node).mpr ⟨hnode, hwaits⟩
            rw [List.append_nil, List.length_eq_zero_iff.mp (not_not.mp hsome)] at hlist
            cases hlist

end Rounds

theorem probeRounds_add {probeFunctions : List ProbeFn} {fuel iterations : ℕ}
    {state final : ProbeState}
    (hrounds : probeRounds probeFunctions fuel iterations state = some final) (more : ℕ) :
    probeRounds probeFunctions (fuel + more) iterations state = some final := by
  induction fuel generalizing iterations state with
  | zero => cases hrounds
  | succ fuel ih =>
      rw [Nat.succ_add]
      cases iterations with
      | zero => exact hrounds
      | succ iterations =>
          rw [probeRounds] at hrounds ⊢
          dsimp only at hrounds ⊢
          split_ifs at hrounds ⊢
          · exact ih hrounds
          · exact ih hrounds
          · exact hrounds

/-- **`probe_nodes` comes to an end**, probes only waiting nodes again, and leaves none waiting that
could go on, if the functions of buses leave none waiting and a node that waits adds no other. -/
theorem probesRight_of_settle {probeFunctions : List ProbeFn} {root : ParsedNode}
    (hnodup : (root.nodes.map ParsedNode.address).Nodup) (settle : BusesSettle probeFunctions)
    (noOther : AddsNoOther probeFunctions root) : ProbesRight probeFunctions root := by
  obtain ⟨final, hfinal⟩ := probeRounds_ends settle hnodup noOther _ 3 .first
    (fun h => by cases h) (Nat.lt_succ_self _)
  exact ⟨_, final, hfinal⟩

/-! ## Boards -/

theorem addsNoOther_of {probeFunctions : List ProbeFn} {root only : ParsedNode}
    (hfirst : ∀ node ∈ (firstPass probeFunctions root).waiting, node = only)
    (hagain : ∀ state, ∀ node ∈ (probeNode probeFunctions only state).waiting,
      node ∈ state.waiting ∨ node = only) : AddsNoOther probeFunctions root := by
  have hall : ∀ {list state}, Reaches probeFunctions root list state →
      ∀ node ∈ state.waiting ++ list, node = only := by
    intro list state reaches
    induction reaches with
    | first =>
        rw [List.append_nil]
        exact hfirst
    | @round state _ ih => rwa [List.append_nil] at ih
    | @next node rest state _ ih =>
        intro inner hinner
        have hnode := ih node (List.mem_append_right _ List.mem_cons_self)
        rw [hnode, List.mem_append] at hinner
        rcases hinner with hinner | hinner
        · exact (hagain state inner hinner).elim (fun h => ih inner (List.mem_append_left _ h)) id
        · exact ih inner (List.mem_append_right _ (List.mem_cons_of_mem _ hinner))
  intro node rest state reaches
  have hnode := hall reaches node (List.mem_append_right _ List.mem_cons_self)
  rw [hnode]
  exact hagain state

theorem ProbeState.settle_waiting (state : ProbeState) (node : ParsedNode) (result : DevStatus) :
    ∀ inner ∈ (state.settle node result).waiting, inner ∈ state.waiting ∨ inner = node := by
  intro inner hinner
  unfold ProbeState.settle at hinner
  dsimp only at hinner
  split_ifs at hinner
  · exact (List.mem_append.mp hinner).imp id List.mem_singleton.mp
  · exact Or.inl hinner

/-- `probe_simple_bus` -/
def probeSimpleBus : ProbeFn := fun node _ =>
  if node.compatible.head? = some (bytesOf "simple-bus") then .descend fun _ => .Success
  else .answer .Unrecognised

/-- `FixedClock::probe_devtree`, of a clock whose frequency can be read. -/
def probeFixedClock : ProbeFn := fun node _ =>
  if node.compatible.head? = some (bytesOf "fixed-clock") then .answer .Success
  else .answer .Unrecognised

/-- `PL011::probe_devtree`, with the phandle of its clock. -/
def probePL011 (find : ℕ → Option ℕ) (clock : ℕ) : ProbeFn := fun node statuses =>
  if node.compatible.head? = some (bytesOf "arm,pl011") then
    .answer (getNodeByPhandle find statuses clock).2
  else .answer .Unrecognised

/-- A serial port, which comes before its clock. -/
def boardUart : ParsedNode := .mk 1 (some 0) ⟨bytesOf "uart", []⟩ [bytesOf "arm,pl011"] 1000 []

/-- A bus with the two. -/
def boardBus : ParsedNode :=
  .mk 0 none ⟨[], []⟩ [bytesOf "simple-bus"] 1000
    [boardUart, .mk 2 (some 0) ⟨bytesOf "clock", []⟩ [bytesOf "fixed-clock"] 1 []]

/-- The functions of the board, where 1 is the phandle of the clock. -/
def boardProbes : List ProbeFn :=
  [probeSimpleBus, probeFixedClock,
    probePL011 (fun phandle => if phandle = 1 then some 2 else none) 1]

theorem probesRight_board : ProbesRight boardProbes boardBus := by
  have settle : BusesSettle boardProbes := by
    intro probeFn hmem node statuses answer hprobe after
    rcases List.mem_cons.mp hmem with rfl | hmem
    · unfold probeSimpleBus at hprobe
      split_ifs at hprobe
      cases hprobe
      refine ⟨fun h => ?_, fun h => ?_⟩ <;> cases h
    · rcases List.mem_pair.mp hmem with rfl | rfl
      · unfold probeFixedClock at hprobe
        split_ifs at hprobe
      · unfold probePL011 at hprobe
        split_ifs at hprobe
  refine probesRight_of_settle (by decide) settle
    (@addsNoOther_of boardProbes boardBus boardUart ?_ fun state => ?_)
  · have hfirst : (firstPass boardProbes boardBus).waiting = [boardUart] := rfl
    rw [hfirst]
    exact fun node => List.mem_singleton.mp
  · obtain ⟨mid, result, heq, hcases⟩ := @probeWith_cases boardUart boardProbes
      (fun state => probeAll boardProbes [] state) settle (state.enter boardUart)
    have hprobe : probeNode boardProbes boardUart state = mid.settle boardUart result := by
      rw [← heq, boardUart, probeNode]
    have hmid : mid.waiting = state.waiting := by
      rcases hcases with rfl | ⟨rfl, -⟩
      · rfl
      · rw [probeAll]
        rfl
    rw [hprobe, ← hmid]
    exact mid.settle_waiting boardUart result

/-- A device that is on when the one with the address before it is, and a bus that waits for the
last of five. -/
def probeChained : ProbeFn := fun node statuses =>
  if node.address = 0 then
    .descend fun after => if after 5 = .Success then .Success else .Waiting
  else .answer (if node.address = 1 ∨ statuses (node.address - 1) = .Success then .Success
    else .Failure)

/-- One of the devices. -/
def chainedDevice (address : ℕ) : ParsedNode := .mk address (some 0) ⟨[], []⟩ [] 1000 []

/-- The bus, with the last of its devices first. -/
def chainedBus : ParsedNode := .mk 0 none ⟨[], []⟩ [] 1000 ([5, 4, 3, 2, 1].map chainedDevice)

theorem chainedDevices_waiting {addresses : List ℕ} (hne : ∀ address ∈ addresses, address ≠ 0)
    (state : ProbeState) :
    (probeAll [probeChained] (addresses.map chainedDevice) state).waiting = state.waiting := by
  induction addresses generalizing state with
  | nil =>
      rw [List.map_nil, probeAll]
  | cons address addresses ih =>
      rw [List.map_cons, probeAll, ih fun other hother => hne other (List.mem_cons_of_mem _ hother)]
      have hdevice : (ParsedNode.mk address (some 0) ⟨[], []⟩ [] 1000 []).address ≠ 0 :=
        hne address List.mem_cons_self
      rw [chainedDevice, probeNode, probeWith, probeChained, if_neg hdevice]
      dsimp only
      split_ifs <;> rfl

/-- The bus waits for the last of its devices, which comes on when it is probed a fifth time; it is
not probed as often. -/
theorem probesRight_fails : (chainedBus.nodes.map ParsedNode.address).Nodup ∧
    AddsNoOther [probeChained] chainedBus ∧ ¬ ProbesRight [probeChained] chainedBus := by
  have hend : (probeNodes [probeChained] 4 chainedBus).map (fun state => (state.statuses 0,
      (probeNode [probeChained] chainedBus state).statuses 0)) = some (.Waiting, .Success) := by
    decide +kernel
  have hbus : ∀ state, ∀ node ∈ (probeNode [probeChained] chainedBus state).waiting,
      node ∈ state.waiting ∨ node = chainedBus := by
    intro state node hnode
    have hprobe : probeNode [probeChained] chainedBus state = probeWith chainedBus
        (fun state => probeAll [probeChained] ([5, 4, 3, 2, 1].map chainedDevice) state)
        [probeChained] (state.enter chainedBus) := by
      rw [chainedBus, probeNode]
    have hdescend : probeChained chainedBus (state.enter chainedBus).statuses =
        .descend fun after => if after 5 = .Success then .Success else .Waiting := rfl
    have hne : ∀ address ∈ [5, 4, 3, 2, 1], address ≠ 0 := by decide
    have hdevices := chainedDevices_waiting hne (state.enter chainedBus)
    have hstate : (state.enter chainedBus).waiting = state.waiting := rfl
    rw [hprobe, probeWith, hdescend] at hnode
    rw [← hstate, ← hdevices]
    dsimp only at hnode
    split_ifs at hnode <;> exact ProbeState.settle_waiting _ _ _ node hnode
  refine ⟨by decide, addsNoOther_of (fun node hnode => ?_) hbus, ?_⟩
  · exact (hbus .start node hnode).resolve_left List.not_mem_nil
  · rintro ⟨fuel, state, hrun, -, hstill⟩
    obtain ⟨final, hfinal, hstatuses⟩ := Option.map_eq_some_iff.mp hend
    have hsame : state = final := by
      have hmore := probeRounds_add hrun 4
      rw [Nat.add_comm] at hmore
      exact Option.some_inj.mp (hmore.symm.trans (probeRounds_add hfinal fuel))
    obtain ⟨hwaiting, hgoesOn⟩ := Prod.mk.inj hstatuses
    have hagain := hstill chainedBus chainedBus.mem_nodes
    have haddress : chainedBus.address = 0 := rfl
    rw [hsame, haddress] at hagain
    cases hgoesOn.symm.trans (hagain hwaiting)

end BekOS.DeviceTree
