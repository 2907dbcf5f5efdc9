/-
The directive index of an imported program.

The index is filled along the way: a node is recorded when it claims its
comments, before its children are reached, and the program with the comments
that are left when all nodes have been reached. What comes out can be read off
the tree: going through the nodes in pre-order, the program last, the index has
each tag where it comes up first, with the number of a node once for each of the
node's directives with that tag. Main statements:

* `Reached.directives` — what a run adds to the index;
* `importProgram_gathers` — the index of an imported program is gathered from
  its tree;
* `importProgram_indexesDirectives` — what this says about tags and nodes.
-/
import EsFront.Proofs.Collections.OrderedMap
import EsFront.Proofs.Comments.Partition
import EsFront.Proofs.Syntax.Children

namespace EsFront

/-! ### Recording -/

/-- The tags of the directives of a node, each with the number of the node. -/
def NodeData.tags (data : NodeData) : List (String × NodeId) :=
  data.directives.map fun directive => (directive.tag, data.id)

/-- A node that is reached is recorded under the tags of its directives. -/
theorem ImportState.directives_reach (s : ImportState) (label : Label) :
    (s.reach label.kind label.data.loc label.data.range).2.comments.directives
      = (s.reach label.kind label.data.loc label.data.range).1.tags.foldl OrderedMap.push
          s.comments.directives := by
  rw [NodeData.tags, List.foldl_map, ← CommentIndex.directives_claimFor s.comments label]
  rfl

/-- Nodes that are reached one after the other are recorded one after the
other. -/
theorem Reached.directives {s s' : ImportState} {labels : List Label} (h : Reached s labels s') :
    s'.comments.directives
      = (labels.flatMap (·.data.tags)).foldl OrderedMap.push s.comments.directives := by
  induction h with
  | nil => rfl
  | @cons s t s' label rest hfirst _ ih =>
    have hstep := s.directives_reach label
    rw [hfirst] at hstep
    rw [ih, List.flatMap_cons, List.foldl_append, hstep]

/-- The program is recorded after all nodes. -/
theorem Import.directiveIndex_finish (data : NodeData) (t : ImportState)
    (body : Field (.list false) .statement) :
    (finish data t body).directiveIndex
      = (finish data t body).data.tags.foldl OrderedMap.push t.comments.directives := by
  rw [NodeData.tags, List.foldl_map]
  rfl

/-! ### Imported programs -/

namespace Program

/-- The nodes of a program, itself last: all others in pre-order, and then the
program. -/
def programLast (p : Program) : List AnyNode := p.nodes.tail ++ [⟨_, p⟩]

theorem programLast_perm (p : Program) : p.programLast.Perm p.nodes := by
  have hnodes : p.nodes = ⟨_, p⟩ :: p.nodes.tail := by
    cases p with
    | mk data form fields => rw [Node.nodes_mk, List.tail_cons]
  rw [programLast, hnodes]
  exact List.perm_append_singleton _ _

/-- The tags of all directives in that order, each with the number of its
node. -/
def tags (p : Program) : List (String × NodeId) := p.programLast.flatMap (·.node.data.tags)

/-- The directive index of the program is that of the directives in its tree. -/
structure IndexesDirectives (p : Program) : Prop where
  /-- A node is listed under a tag once for each of its directives with that
  tag, the nodes in pre-order and the program last. -/
  nodes : ∀ tag, p.nodesWithDirective tag = p.programLast.flatMap fun any =>
    (any.node.data.directives.filter (·.tag = tag)).map fun _ => any.node.id
  /-- The keys are the tags, each where it comes up first. -/
  keys : p.directiveIndex.keys
    = (p.programLast.flatMap (·.node.data.directives.map (·.tag))).eraseDups
  /-- Every key is the tag of a directive. -/
  used : ∀ tag ∈ p.directiveIndex.keys, ∃ any ∈ p.nodes,
    ∃ directive ∈ any.node.data.directives, directive.tag = tag

theorem filter_tags (p : Program) (tag : String) :
    (p.tags.filter (·.1 = tag)).map (·.2) = p.programLast.flatMap fun any =>
      (any.node.data.directives.filter (·.tag = tag)).map fun _ => any.node.id := by
  rw [tags, List.filter_flatMap, List.map_flatMap]
  congr 1
  funext any
  rw [NodeData.tags, List.filter_map, List.map_map]
  rfl

theorem map_tags (p : Program) :
    p.tags.map (·.1) = p.programLast.flatMap (·.node.data.directives.map (·.tag)) := by
  rw [tags, List.map_flatMap]
  congr 1
  funext any
  rw [NodeData.tags, List.map_map]
  rfl

/-- An index that is gathered from the tree says what is in the tree. -/
theorem indexesDirectives_of_gather {p : Program} (h : p.directiveIndex = .gather p.tags) :
    p.IndexesDirectives := by
  have hkeys : p.directiveIndex.keys
      = (p.programLast.flatMap (·.node.data.directives.map (·.tag))).eraseDups := by
    rw [h, OrderedMap.keys_gather, map_tags]
  refine ⟨fun tag => ?_, hkeys, fun tag htag => ?_⟩
  · rw [nodesWithDirective, h, OrderedMap.find_gather, filter_tags]
  · rw [hkeys, List.mem_eraseDups, List.mem_flatMap] at htag
    obtain ⟨any, hany, hmem⟩ := htag
    obtain ⟨directive, hdirective, htag⟩ := List.mem_map.mp hmem
    exact ⟨any, p.programLast_perm.mem_iff.mp hany, directive, hdirective, htag⟩

end Program

/-- The labels of a program that is finished, its own last. -/
theorem Import.labels_programLast (data : NodeData) (t : ImportState)
    (body : Field (.list false) .statement) :
    (finish data t body).programLast.map AnyNode.label
      = body.labels ++ [AnyNode.label ⟨_, finish data t body⟩] := by
  obtain ⟨own, hlabels, -, -⟩ := labels_finish data t body
  rw [Program.programLast, List.map_append, List.map_tail, Node.labels_eq, hlabels, List.tail_cons]
  rfl

/-- The tags of a program that is finished are those of its statements, and then
its own. -/
theorem Import.tags_finish (data : NodeData) (t : ImportState)
    (body : Field (.list false) .statement) :
    (finish data t body).tags
      = body.labels.flatMap (·.data.tags) ++ (finish data t body).data.tags := by
  have hmap : (finish data t body).tags
      = ((finish data t body).programLast.map AnyNode.label).flatMap (·.data.tags) := by
    rw [List.flatMap_map]
    rfl
  rw [hmap, labels_programLast, List.flatMap_append, List.flatMap_singleton]
  rfl

/-- The directive index of an imported program is gathered from its tree. -/
theorem importProgram_gathers {raw : Json} {file : Option String} {p : Program}
    (h : importProgram raw file = .ok p) : p.directiveIndex = .gather p.tags := by
  obtain ⟨found, index, t, body, -, hadd, hreached, -, rfl⟩ := importProgram_ok h
  have hempty : index.directives = .empty :=
    (CommentIndex.add_spec CommentIndex.keyed_empty hadd).directives
  rw [Import.directiveIndex_finish, hreached.directives, hempty, Import.tags_finish,
    OrderedMap.gather, List.foldl_append]

/-- The directive index of an imported program is exactly that of the directives
in its tree. -/
theorem importProgram_indexesDirectives {raw : Json} {file : Option String} {p : Program}
    (h : importProgram raw file = .ok p) : p.IndexesDirectives :=
  Program.indexesDirectives_of_gather (importProgram_gathers h)

/-- A block in which a statement has the same tag twice, with a comment for the
block and one for nobody. -/
def taggedStatements : Json :=
  let onLine (line : Nat) : String × Json :=
    ("loc", .object [("start", .object [("line", .nat line), ("column", .nat 0)]),
      ("end", .object [("line", .nat line), ("column", .nat 9)])])
  let comment (line : Nat) (text : String) : Json :=
    .object [("type", .string "Block"), ("value", .string text), onLine line]
  let empty (line : Nat) : Json := .object [("type", .string "EmptyStatement"), onLine line]
  .object [("type", .string "Program"),
    ("body", .array [.object [("type", .string "BlockStatement"), onLine 2,
      ("body", .array [empty 4])]]),
    ("comments", .array [comment 9 "* @last \x7b\x7d @inner \x7b\x7d",
      comment 3 "* @inner \x7b\x7d @inner \x7b\x7d x", comment 1 "* @outer \x7b\x7d"])]

theorem taggedStatements_indexesDirectives :
    ∃ p, importProgram taggedStatements none = .ok p ∧
      p.directiveIndex.entries = [("outer", [1]), ("inner", [2, 2, 0]), ("last", [0])] ∧
      p.IndexesDirectives := by
  have hentries : (importProgram taggedStatements none).toOption.map (·.directiveIndex.entries)
      = some [("outer", [1]), ("inner", [2, 2, 0]), ("last", [0])] := by decide +kernel
  obtain ⟨p, hp, hentries⟩ := Option.map_eq_some_iff.mp hentries
  have himport := importProgram_of_toOption hp
  exact ⟨p, himport, hentries, importProgram_indexesDirectives himport⟩

end EsFront
