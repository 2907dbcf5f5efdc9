/-
Plain expressions by induction.

`Plain` has one rule for each form that an expression without functions can
have. An expression all of whose nodes are plain obeys these rules
(`plain_of_nodes`): by induction on the number of its nodes, since the nodes of
a child are some of its own.
-/
import EsFront.Proofs.Print.Expression

namespace EsFront

/-! ### The rules -/

/-- What can name a member of an object without being computed. -/
inductive IsKey : Expr → Prop where
  | name (data : NodeData) {name : String} (isBinder : Bool) (info : ResolutionInfo)
      (h : IsName name) : IsKey (.identifier data name isBinder info)
  | text (data : NodeData) (s : String) : IsKey (.literal data (.string s))

/-- The parts of a member of an object. -/
structure Member where
  data : NodeData
  computed : Bool
  key : Expr
  value : Expr

def Member.child (m : Member) : Child .property :=
  Expr.member m.data m.computed m.key m.value

/-- Expressions whose printed text determines them. -/
inductive Plain : Expr → Prop where
  | identifier (data : NodeData) {name : String} (isBinder : Bool) (info : ResolutionInfo)
      (h : IsName name) : Plain (.identifier data name isBinder info)
  | literal (data : NodeData) {value : LiteralValue} (h : value.isPlain = true) :
      Plain (.literal data value)
  | this (data : NodeData) : Plain (.this data)
  | array (data : NodeData) {elements : List (Option Expr)}
      (h : ∀ e, some e ∈ elements → Plain e) : Plain (.array data elements)
  | object (data : NodeData) {members : List Member}
      (hkey : ∀ m ∈ members, m.computed = false → IsKey m.key)
      (hcomputed : ∀ m ∈ members, Plain m.key) (hvalue : ∀ m ∈ members, Plain m.value) :
      Plain (.object data (members.map Member.child))
  | unary (data : NodeData) (op : UnaryOperator) {a : Expr} (h : Plain a) : Plain (.unary data op a)
  | update (data : NodeData) (op : UpdateOperator) (before : Bool) {a : Expr} (h : Plain a) :
      Plain (.update data op before a)
  | join (data : NodeData) (joint : Joint) {left right : Expr} (hleft : Plain left)
      (hright : Plain right) : Plain (joint.join data left right)
  | conditional (data : NodeData) {test consequent alternate : Expr} (htest : Plain test)
      (hconsequent : Plain consequent) (halternate : Plain alternate) :
      Plain (.conditional data test consequent alternate)
  | call (data : NodeData) {callee : Expr} {arguments : List Expr} (hcallee : Plain callee)
      (h : ∀ a ∈ arguments, Plain a) : Plain (.call data callee arguments)
  | new (data : NodeData) {callee : Expr} {arguments : List Expr} (hcallee : Plain callee)
      (h : ∀ a ∈ arguments, Plain a) : Plain (.new data callee arguments)
  | named (data key : NodeData) {object : Expr} {name : String} (isBinder : Bool)
      (info : ResolutionInfo) (hobject : Plain object) (h : IsName name) :
      Plain (.access data false object (.identifier key name isBinder info))
  | computed (data : NodeData) {object key : Expr} (hobject : Plain object) (hkey : Plain key) :
      Plain (.access data true object key)
  | sequence (data : NodeData) {first second : Expr} {rest : List Expr}
      (h : ∀ e ∈ first :: second :: rest, Plain e) :
      Plain (.sequence data (first :: second :: rest))

/-! ### From the nodes to the rules -/

/-- A list whose members all come from values with a property comes from a list
of such values. -/
theorem exists_map_eq {α β : Type} {f : α → β} {P : α → Prop} {l : List β}
    (h : ∀ b ∈ l, ∃ a, P a ∧ f a = b) : ∃ l' : List α, (∀ a ∈ l', P a) ∧ l'.map f = l := by
  induction l with
  | nil => exact ⟨[], by simp, rfl⟩
  | cons b l ih =>
    obtain ⟨a, ha, hab⟩ := h b List.mem_cons_self
    obtain ⟨l', hl', hmap⟩ := ih fun b hb => h b (List.mem_cons_of_mem _ hb)
    exact ⟨a :: l', by simpa using ⟨ha, hl'⟩, by rw [List.map_cons, hab, hmap]⟩

/-- A node of the kind of identifiers is an identifier. -/
theorem exists_identifier {e : Expr} (hkind : e.kind = .identifier) (h : e.toAny.isPlain = true) :
    ∃ data name isBinder info, IsName name ∧ e = .identifier data name isBinder info := by
  obtain ⟨kind, node, accepted⟩ := e
  obtain ⟨data, form, fields⟩ := node
  cases hkind
  cases form with
  | identifier name isBinder info =>
    cases fields
    exact ⟨data, name, isBinder, info, of_decide_eq_true h, rfl⟩

theorem exists_text {e : Expr} (htext : e.toAny.isText = true) (h : e.toAny.isPlain = true) :
    ∃ data s, e = .literal data (.string s) := by
  obtain ⟨kind, node, accepted⟩ := e
  obtain ⟨data, form, fields⟩ := node
  cases form with
  | literal value raw =>
    cases fields
    obtain ⟨hraw, -⟩ := (Bool.and_eq_true _ _).mp h
    obtain rfl := Option.isNone_iff_eq_none.1 hraw
    cases value with
    | string s => exact ⟨data, s, rfl⟩
    | _ => cases htext
  | _ => cases htext

/-- A plain property has the parts of a member, and its key is one if it is not
computed. -/
theorem exists_member {child : Child .property}
    (h : ∀ any ∈ child.node.nodes, any.isPlain = true) :
    ∃ m : Member, (m.computed = false → IsKey m.key) ∧ m.child = child := by
  obtain ⟨kind, node, accepted⟩ := child
  have hself := h _ node.self_mem_nodes
  obtain ⟨data, form, fields⟩ := node
  have hchild : ∀ c : Expr, c.toAny ∈ fields.children → c.toAny.isPlain = true := fun c hc =>
    h _ (Node.mem_nodes_of_child hc c.node.self_mem_nodes)
  cases form with
  | property kind computed shorthand =>
    obtain ⟨key, value, rfl⟩ := Fields.exists_two fields
    have hplain := hchild key List.mem_cons_self
    change (decide (kind = .init) && !shorthand &&
      (computed || decide (key.kind = .identifier) || key.toAny.isText)) = true at hself
    simp only [Bool.and_eq_true, Bool.or_eq_true, Bool.not_eq_true', decide_eq_true_eq] at hself
    obtain ⟨⟨rfl, rfl⟩, hshape⟩ := hself
    refine ⟨⟨data, computed, key, value⟩, fun hcomputed => ?_, rfl⟩
    rcases hshape with (hcomputed' | hkind) | htext
    · exact absurd (hcomputed.symm.trans hcomputed') (by decide)
    · obtain ⟨kdata, name, isBinder, info, hname, hkey⟩ := exists_identifier hkind hplain
      exact hkey ▸ .name kdata isBinder info hname
    · obtain ⟨kdata, s, hkey⟩ := exists_text htext hplain
      exact hkey ▸ .text kdata s
  | _ => cases accepted

/-- The key and the value of a member are its children. -/
theorem Member.exists_fields (m : Member) :
    ∃ fields : Fields [.one "key" .expression (.key m.computed), .one "value" .expression],
      m.child.node = .mk m.data (.property .init m.computed false) fields ∧
        m.key.toAny ∈ fields.children ∧ m.value.toAny ∈ fields.children :=
  ⟨_, rfl, List.mem_cons_self, List.mem_cons_of_mem _ List.mem_cons_self⟩

/-- **Plain expressions.** An expression all of whose nodes are plain is built
by the rules. -/
theorem plain_of_nodes (e : Expr) (h : ∀ any ∈ e.node.nodes, any.isPlain = true) : Plain e := by
  -- Every proper part of the expression has fewer nodes.
  induction hn : e.node.nodes.length using Nat.strongRecOn generalizing e with
  | _ n ih =>
    subst hn
    obtain ⟨kind, node, accepted⟩ := e
    have hself := h _ node.self_mem_nodes
    obtain ⟨data, form, fields⟩ := node
    have hroot : ∀ c : Expr, c.toAny ∈ fields.children → c.toAny.isPlain = true := fun c hc =>
      h _ (Node.mem_nodes_of_child hc c.node.self_mem_nodes)
    have hchild : ∀ c : Expr, c.toAny ∈ fields.children → Plain c := fun c hc =>
      ih _ (Node.length_nodes_of_child hc) c
        (fun any hany => h any (Node.mem_nodes_of_child hc hany)) rfl
    cases form with
    | identifier name isBinder info =>
      cases fields
      exact .identifier data isBinder info (of_decide_eq_true hself)
    | literal value raw =>
      cases fields
      obtain ⟨hraw, hvalue⟩ := (Bool.and_eq_true _ _).mp hself
      obtain rfl := Option.isNone_iff_eq_none.1 hraw
      exact .literal data hvalue
    | thisExpression =>
      cases fields
      exact .this data
    | arrayExpression =>
      rcases fields with _ | ⟨elements, fields⟩
      cases fields
      obtain ⟨elements, rfl⟩ := Field.exists_sparse elements
      refine .array data fun e he => hchild e ?_
      rw [Fields.children, Field.children_ofSparse, Fields.children, List.append_nil]
      exact List.mem_map_of_mem (List.mem_filterMap.2 ⟨_, he, rfl⟩)
    | objectExpression =>
      obtain ⟨children, rfl⟩ := Fields.exists_list fields
      obtain ⟨members, hmembers, rfl⟩ := exists_map_eq fun c hc => exists_member fun any hany =>
        h any (Node.mem_nodes_of_child (Fields.mem_children_ofList hc) hany)
      have hpart : ∀ m ∈ members, ∀ c : Expr, c = m.key ∨ c = m.value → Plain c := by
        intro m hm c hc
        have hin : m.child.toAny ∈ (Fields.cons (Field.ofList (members.map Member.child)) .nil :
            Fields [.many "properties" .property]).children :=
          Fields.mem_children_ofList (List.mem_map_of_mem hm)
        obtain ⟨fields, hnode, hkey, hvalue⟩ := m.exists_fields
        have hc' : c.toAny ∈ fields.children := by
          rcases hc with rfl | rfl
          · exact hkey
          · exact hvalue
        refine ih _ ?_ c (fun any hany => h any (Node.mem_nodes_of_child hin ?_)) rfl
        · refine lt_trans ?_ (Node.length_nodes_of_child hin)
          change _ < m.child.node.nodes.length
          rw [hnode]
          exact Node.length_nodes_of_child hc'
        · change any ∈ m.child.node.nodes
          rw [hnode]
          exact Node.mem_nodes_of_child hc' hany
      exact .object data hmembers (fun m hm => hpart m hm _ (.inl rfl))
        fun m hm => hpart m hm _ (.inr rfl)
    | unaryExpression op =>
      obtain ⟨a, rfl⟩ := Fields.exists_one fields
      exact .unary data op (hchild a List.mem_cons_self)
    | updateExpression op before =>
      obtain ⟨a, rfl⟩ := Fields.exists_one fields
      exact .update data op before (hchild a List.mem_cons_self)
    | binaryExpression op =>
      obtain ⟨left, right, rfl⟩ := Fields.exists_two fields
      exact .join data (.binary op) (hchild left List.mem_cons_self)
        (hchild right (List.mem_cons_of_mem _ List.mem_cons_self))
    | logicalExpression op =>
      obtain ⟨left, right, rfl⟩ := Fields.exists_two fields
      exact .join data (.logical op) (hchild left List.mem_cons_self)
        (hchild right (List.mem_cons_of_mem _ List.mem_cons_self))
    | assignmentExpression op =>
      obtain ⟨left, right, rfl⟩ := Fields.exists_two fields
      exact .join data (.assignment op) (hchild left List.mem_cons_self)
        (hchild right (List.mem_cons_of_mem _ List.mem_cons_self))
    | conditionalExpression =>
      obtain ⟨test, consequent, alternate, rfl⟩ := Fields.exists_three fields
      exact .conditional data (hchild test List.mem_cons_self)
        (hchild consequent (List.mem_cons_of_mem _ List.mem_cons_self))
        (hchild alternate (List.mem_cons_of_mem _ (List.mem_cons_of_mem _ List.mem_cons_self)))
    | callExpression =>
      obtain ⟨callee, arguments, rfl⟩ := Fields.exists_one_list fields
      refine .call data (hchild callee List.mem_cons_self) fun a ha => hchild a ?_
      exact List.mem_cons_of_mem _ (Fields.mem_children_ofList ha)
    | newExpression =>
      obtain ⟨callee, arguments, rfl⟩ := Fields.exists_one_list fields
      refine .new data (hchild callee List.mem_cons_self) fun a ha => hchild a ?_
      exact List.mem_cons_of_mem _ (Fields.mem_children_ofList ha)
    | memberExpression computed =>
      obtain ⟨object, key, rfl⟩ := Fields.exists_two fields
      have hobject := hchild object List.mem_cons_self
      have hkey := List.mem_cons_of_mem object.toAny (List.mem_cons_self (a := key.toAny) (l := []))
      cases computed with
      | true => exact .computed data hobject (hchild key hkey)
      | false =>
        obtain ⟨kdata, name, isBinder, info, hname, rfl⟩ :=
          exists_identifier (of_decide_eq_true hself) (hroot key hkey)
        exact .named data kdata isBinder info hobject hname
    | sequenceExpression =>
      obtain ⟨expressions, rfl⟩ := Fields.exists_list fields
      have htwo : 2 ≤ (Field.view (fun any => any) (Field.ofList expressions)).length :=
        of_decide_eq_true hself
      rw [Field.view_ofList, List.length_map] at htwo
      obtain _ | ⟨first, _ | ⟨second, rest⟩⟩ := expressions
      · simp at htwo
      · simp at htwo
      · exact .sequence data fun e he => hchild e (Fields.mem_children_ofList he)
    | functionExpression => cases hself
    | _ => cases accepted

end EsFront
