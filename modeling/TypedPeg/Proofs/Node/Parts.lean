import TypedPeg.Proofs.Node.Names

/-! An expression is lowered to the nodes of its parts, each under the name of the whole and a mark, and
a node for the whole. What this passes on from parts to wholes holds of every expression. -/
namespace TypedPeg

namespace Body

def flag? : Body → Option Bool
  | .atomic _ => some true
  | .scope _ flag => some flag
  | _ => none

def skips : Body → Bool
  | .product _ _ skip | .list _ skip => skip
  | _ => false

end Body

namespace NodeName

/-- What is put behind a name to make the name of a part. -/
def Mark (suffix : String) : Prop := ∃ word, suffix.toList = '_' :: word ∧ '_' ∉ word

variable {name sub last suffix : String}

theorem mark_index (i : Nat) : Mark ("_" ++ toString i) := by
  refine ⟨Nat.toDigits 10 i,?_,Nat.underscore_not_in_toDigits⟩
  rw [String.toList_append,← Nat.toList_repr]
  rfl

theorem element_eq (parent : String) (i : Nat) : element parent i = parent ++ ("_" ++ toString i) := String.append_assoc

/-- Of two names from which a third is made one is made from the other. -/
theorem Within.total (h : Within name last) (h' : Within sub last) : Within name sub ∨ Within sub name := by
  obtain ⟨more,same,start⟩ := h
  obtain ⟨more',same',start'⟩ := h'
  -- what one of them has besides starts as what the whole has besides
  have behind {short long : String} {more more' extra : List Char} (longer : long.toList = short.toList ++ extra)
      (same : last.toList = short.toList ++ more) (same' : last.toList = long.toList ++ more')
      (start : more = [] ∨ more.head? = some '_') : Within short long := by
    rw [same',longer,List.append_assoc] at same
    have split : extra ++ more' = more := List.append_cancel_left same
    refine ⟨extra,longer,?_⟩
    cases extra with
    | nil => exact .inl rfl
    | cons first rest =>
      subst split
      exact .inr (start.resolve_left nofun)
  have prefixes := List.prefix_or_prefix_of_prefix ⟨more,same.symm⟩ ⟨more',same'.symm⟩
  rcases prefixes with ⟨extra,longer⟩ | ⟨extra,longer⟩
  · exact .inl (behind longer.symm same same' start)
  · exact .inr (behind longer.symm same' same start')

/-- There is no name between that of a whole and that of a part. -/
theorem Mark.between (mark : Mark suffix) (above : Within name sub) (below : Within sub (name ++ suffix)) :
    sub = name ∨ sub = name ++ suffix := by
  obtain ⟨word,marked,plain⟩ := mark
  obtain ⟨more,same,start⟩ := above
  obtain ⟨more',same',start'⟩ := below
  rw [String.toList_append,same,List.append_assoc,marked] at same'
  have tail := List.append_cancel_left same'
  rcases start with rfl | start
  · exact .inl (String.toList_injective (by rw [same,List.append_nil]))
  · -- the rest cannot start with an underscore, there being one only
    cases more with
    | nil => cases start
    | cons first more =>
      rw [List.cons_append,List.cons.injEq] at tail
      rcases start' with rfl | start'
      · refine .inr (String.toList_injective ?_)
        rw [same,String.toList_append,marked,tail.1,tail.2,List.append_nil]
      · rw [tail.2] at plain
        exact (plain (List.mem_append_right _ (List.mem_of_mem_head? start'))).elim

end NodeName

namespace Expr

def spaced : Expr → Bool
  | .seq _ _ | .rep _ => true
  | .choice lhs rhs => lhs.spaced || rhs.spaced
  | .opt inner | .followedBy inner | .notFollowedBy inner | .restore inner | .push inner | .tag inner _ => inner.spaced
  | .literal _ | .caseless _ | .range _ _ | .ref _ | .peek _ _ | .drop _ | .skipUntil _ => false

def chainParts : List Expr → Nat → List (String × Expr)
  | [],_ => []
  | e :: rest,i => ("_" ++ toString i,e) :: chainParts rest (i + 1)

def partNodes (skip : Bool) (name : String) (parts : List (String × Expr)) : List Node :=
  parts.flatMap fun p => p.2.lower skip (.own (name ++ p.1))

structure Whole (skip : Bool) (e : Expr) (name : String) (parts : List (String × Expr)) (body : Body) : Prop where
  marked : ∀ p ∈ parts, NodeName.Mark p.1
  smaller : ∀ p ∈ parts, sizeOf p.2 < sizeOf e
  idents : ∀ p ∈ parts, p.2.idents ⊆ e.idents
  spaced : ∀ p ∈ parts, p.2.spaced = true → e.spaced = true
  children : ∀ child ∈ body.children, (∃ p ∈ parts, child = name ++ p.1) ∨ child ∈ e.idents
  unscoped : body.flag? = none
  skips : body.skips = true → skip = true ∧ e.spaced = true

section Chain
variable {skip : Bool} {name : String} {es : List Expr} {i : Nat}

theorem partNodes_chain : partNodes skip name (chainParts es i) = chainNodes skip name es i := by
  induction es generalizing i with
  | nil => rfl
  | cons e rest ih => rw [chainNodes,← ih,NodeName.element_eq]; rfl

theorem of_mem_chainParts {p : String × Expr} (member : p ∈ chainParts es i) : NodeName.Mark p.1 ∧ p.2 ∈ es := by
  induction es generalizing i with
  | nil => cases member
  | cons e rest ih =>
    rcases List.mem_cons.1 member with rfl | member
    · exact ⟨NodeName.mark_index i,List.mem_cons_self⟩
    · exact (ih member).imp_right (List.mem_cons_of_mem e)

theorem name_of_chainParts {child : String} (member : child ∈ es.mapIdx fun j _ => NodeName.element name (i + j)) :
    ∃ p ∈ chainParts es i, child = name ++ p.1 := by
  induction es generalizing i with
  | nil => cases member
  | cons e rest ih =>
    rw [List.mapIdx_cons] at member
    rcases List.mem_cons.1 member with rfl | member
    · exact ⟨_,List.mem_cons_self,NodeName.element_eq name i⟩
    · have shift (j : Nat) : i + 1 + j = i + (j + 1) := by omega
      have others := ih (i := i + 1)
      simp only [shift] at others
      obtain ⟨p,inside,same⟩ := others member
      exact ⟨p,List.mem_cons_of_mem _ inside,same⟩

end Chain

theorem idents_of_mem_elements {link : Connective} {e x : Expr} (member : x ∈ e.elements link) : x.idents ⊆ e.idents := by
  have self {e : Expr} (member : x ∈ [e]) : x.idents ⊆ e.idents := by
    rw [List.mem_singleton.1 member]
    exact List.Subset.refl _
  induction e with
  | seq lhs rhs _ ih =>
    cases link with
    | seq =>
      rcases List.mem_cons.1 member with rfl | member
      · exact List.subset_append_left _ _
      · exact List.subset_append_of_subset_right _ (ih member)
    | choice => exact self member
  | choice lhs rhs _ ih =>
    cases link with
    | seq => exact self member
    | choice =>
      rcases List.mem_cons.1 member with rfl | member
      · exact List.subset_append_left _ _
      · exact List.subset_append_of_subset_right _ (ih member)
  | _ => cases link <;> exact self member

theorem spaced_of_mem_choice {e x : Expr} (member : x ∈ e.elements .choice) (spaced : x.spaced = true) : e.spaced = true := by
  induction e with
  | choice lhs rhs _ ih =>
    rw [Expr.spaced,Bool.or_eq_true]
    rcases List.mem_cons.1 member with rfl | member
    · exact .inl spaced
    · exact .inr (ih member)
  | _ =>
    rw [← List.mem_singleton.1 member]
    exact spaced

variable {skip : Bool} {e : Expr} {name : String}

theorem Whole.chain {body : Body} {link : Connective} (smaller : ∀ x ∈ e.elements link, sizeOf x < sizeOf e)
    (spaced : ∀ x ∈ e.elements link, x.spaced = true → e.spaced = true) (children : body.children = e.elementNames link name)
    (unscoped : body.flag? = none) (skips : body.skips = true → skip = true ∧ e.spaced = true) :
    Whole skip e name (chainParts (e.elements link) 0) body where
  marked _ member := (of_mem_chainParts member).1
  smaller _ member := smaller _ (of_mem_chainParts member).2
  idents _ member := idents_of_mem_elements (of_mem_chainParts member).2
  spaced _ member := spaced _ (of_mem_chainParts member).2
  children child member := by
    rw [children,elementNames] at member
    exact .inl (name_of_chainParts (by simpa using member))
  unscoped := unscoped
  skips := skips

theorem Whole.part {inner : Expr} {suffix : String} {body : Body} (marked : NodeName.Mark suffix) (smaller : sizeOf inner < sizeOf e)
    (idents : e.idents = inner.idents) (spaced : inner.spaced = true → e.spaced = true) (children : body.children = [name ++ suffix])
    (unscoped : body.flag? = none) (skips : body.skips = true → skip = true ∧ e.spaced = true) :
    Whole skip e name [(suffix,inner)] body where
  marked := List.forall_mem_singleton.2 marked
  smaller := List.forall_mem_singleton.2 smaller
  idents := List.forall_mem_singleton.2 (by rw [idents]; exact List.Subset.refl _)
  spaced := List.forall_mem_singleton.2 spaced
  children child member := by
    rw [children] at member
    exact .inl ⟨_,List.mem_singleton_self _,List.mem_singleton.1 member⟩
  unscoped := unscoped
  skips := skips

theorem Whole.leaf {body : Body} (children : body.children ⊆ e.idents) (unscoped : body.flag? = none) (plain : body.skips = false) :
    Whole skip e name [] body where
  marked := nofun
  smaller := nofun
  idents := nofun
  spaced := nofun
  children _ member := .inr (children member)
  unscoped := unscoped
  skips skips := Bool.noConfusion (plain.symm.trans skips)

private theorem lower_part {inner : Expr} {suffix label : String} {body : Body}
    (lowered : e.lower skip (.own name) = inner.lower skip (.own (name ++ suffix)) ++ [⟨name,label,body⟩])
    (whole : Whole skip e name [(suffix,inner)] body) : ∃ parts label body,
      e.lower skip (.own name) = partNodes skip name parts ++ [⟨name,label,body⟩] ∧ Whole skip e name parts body :=
  ⟨_,label,body,by rw [lowered]; simp [partNodes],whole⟩

theorem lower_parts (skip : Bool) (e : Expr) (name : String) : ∃ parts label body,
    e.lower skip (.own name) = partNodes skip name parts ++ [⟨name,label,body⟩] ∧ Whole skip e name parts body := by
  have part (inner : Expr) (name : String) : [(inner.compile skip (.own name)).names] = [name] :=
    List.singleton_inj.2 (compile_own skip inner name)
  induction e with
  | tag inner field ih =>
    obtain ⟨parts,label,body,lowered,whole⟩ := ih
    have smaller : ∀ p ∈ parts, sizeOf p.2 < sizeOf (inner.tag field) := by
      intro p member
      rw [Expr.tag.sizeOf_spec]
      have := whole.smaller p member
      omega
    exact ⟨parts,label,body,lowered,whole.marked,smaller,whole.idents,whole.spaced,whole.children,whole.unscoped,whole.skips⟩
  | seq lhs rhs =>
    rw [lower_seq,← partNodes_chain]
    exact ⟨_,_,_,rfl,.chain (fun x => sizeOf_of_mem_seq) (fun _ _ _ => rfl) rfl rfl fun skips => ⟨skips,rfl⟩⟩
  | choice lhs rhs =>
    rw [lower_choice,← partNodes_chain]
    exact ⟨_,_,_,rfl,.chain (fun x => sizeOf_of_mem_choice) (fun x => spaced_of_mem_choice) rfl rfl nofun⟩
  | opt inner => exact lower_part rfl (.part ⟨['o'],by decide,by decide⟩ (by simp) rfl id (part inner _) rfl nofun)
  | rep inner =>
    exact lower_part rfl (.part ⟨['r'],by decide,by decide⟩ (by simp) rfl (fun _ => rfl) (part inner _) rfl fun skips => ⟨skips,rfl⟩)
  | followedBy inner => exact lower_part rfl (.part ⟨['0'],by decide,by decide⟩ (by simp) rfl id (part inner _) rfl nofun)
  | notFollowedBy inner => exact lower_part rfl (.part ⟨['0'],by decide,by decide⟩ (by simp) rfl id (part inner _) rfl nofun)
  | restore inner => exact lower_part rfl (.part ⟨['0'],by decide,by decide⟩ (by simp) rfl id (part inner _) rfl nofun)
  | push inner => exact lower_part rfl (.part ⟨['0'],by decide,by decide⟩ (by simp) rfl id (part inner _) rfl nofun)
  | ref target => exact ⟨[],_,_,rfl,.leaf (List.Subset.refl _) rfl rfl⟩
  | _ => exact ⟨[],_,_,rfl,.leaf (List.nil_subset _) rfl rfl⟩

/-- What holds of the nodes of a whole if it holds of those of its parts holds of the nodes of any expression. -/
theorem lower_induction (skip : Bool) {motive : Expr → String → List Node → Prop}
    (whole : ∀ e name parts label body, Whole skip e name parts body →
      (∀ p ∈ parts, motive p.2 (name ++ p.1) (p.2.lower skip (.own (name ++ p.1)))) →
        motive e name (partNodes skip name parts ++ [⟨name,label,body⟩]))
    (e : Expr) (name : String) : motive e name (e.lower skip (.own name)) := by
  obtain ⟨parts,label,body,lowered,fits⟩ := lower_parts skip e name
  rw [lowered]
  refine whole e name parts label body fits fun p member => ?_
  have := fits.smaller p member
  exact lower_induction skip whole p.2 (name ++ p.1)
termination_by sizeOf e

private theorem name_inside {parts : List (String × Expr)} {p : String × Expr} {sub : String} (last : Node) (member : p ∈ parts)
    (listed : sub ∈ (p.2.lower skip (.own (name ++ p.1))).map Node.name) : sub ∈ (partNodes skip name parts ++ [last]).map Node.name := by
  obtain ⟨node,member',rfl⟩ := List.mem_map.1 listed
  exact List.mem_map.2 ⟨node,List.mem_append_left _ (List.mem_flatMap.2 ⟨p,member,member'⟩),rfl⟩

/-- Parts that refer to nodes of their own or to names in `refs`, and a whole that refers to its parts or to those. -/
private theorem parts_children (parts : List (String × Expr)) {label : String} {body : Body} {refs : List String}
    (own : ∀ child ∈ body.children, (∃ p ∈ parts, child = name ++ p.1) ∨ child ∈ refs)
    (inner : ∀ p ∈ parts, ∀ node ∈ p.2.lower skip (.own (name ++ p.1)), ∀ child ∈ node.body.children,
      child ∈ (p.2.lower skip (.own (name ++ p.1))).map Node.name ∨ child ∈ refs) :
    ∀ node ∈ partNodes skip name parts ++ [(⟨name,label,body⟩ : Node)], ∀ child ∈ node.body.children,
      child ∈ (partNodes skip name parts ++ [(⟨name,label,body⟩ : Node)]).map Node.name ∨ child ∈ refs := by
  intro node member child called
  rcases List.mem_append.1 member with part | last
  · obtain ⟨p,member,part⟩ := List.mem_flatMap.1 part
    exact (inner p member node part child called).imp_left (name_inside _ member)
  · rw [List.mem_singleton.1 last] at called
    rcases own child called with ⟨p,member,rfl⟩ | referred
    · exact .inl (name_inside _ member (List.mem_map.2 (p.2.root_mem skip (name ++ p.1))))
    · exact .inr referred

/-- Whatever a node of an expression refers to is one of them, or referred to in the expression. -/
theorem lower_children (skip : Bool) (e : Expr) (name : String) : ∀ node ∈ e.lower skip (.own name), ∀ child ∈ node.body.children,
    child ∈ (e.lower skip (.own name)).map Node.name ∨ child ∈ e.idents := by
  refine lower_induction skip (motive := fun e name nodes => ∀ node ∈ nodes, ∀ child ∈ node.body.children,
    child ∈ nodes.map Node.name ∨ child ∈ e.idents) ?_ e name
  intro e name parts label body whole ih
  refine parts_children parts whole.children fun p member node part child called => ?_
  exact (ih p member node part child called).imp_right fun referred => whole.idents p member referred

private theorem parts_between (parts : List (String × Expr)) {label : String} {body : Body} (marked : ∀ p ∈ parts, NodeName.Mark p.1)
    (inner : ∀ p ∈ parts, ∀ node ∈ p.2.lower skip (.own (name ++ p.1)), ∀ sub, NodeName.Within (name ++ p.1) sub →
      NodeName.Within sub node.name → sub ∈ (p.2.lower skip (.own (name ++ p.1))).map Node.name) :
    ∀ node ∈ partNodes skip name parts ++ [(⟨name,label,body⟩ : Node)], ∀ sub, NodeName.Within name sub → NodeName.Within sub node.name →
      sub ∈ (partNodes skip name parts ++ [(⟨name,label,body⟩ : Node)]).map Node.name := by
  intro node member sub above below
  have root : name ∈ (partNodes skip name parts ++ [(⟨name,label,body⟩ : Node)]).map Node.name :=
    List.mem_map.2 ⟨_,List.mem_append_right _ (List.mem_singleton_self _),rfl⟩
  rcases List.mem_append.1 member with part | last
  · obtain ⟨p,member,part⟩ := List.mem_flatMap.1 part
    have ofPart := (p.2.lower_tidy skip (name ++ p.1)).within node part
    rcases ofPart.total below with within | outer
    · exact name_inside _ member (inner p member node part sub within below)
    · rcases (marked p member).between above outer with rfl | rfl
      · exact root
      · exact name_inside _ member (List.mem_map.2 (p.2.root_mem skip (name ++ p.1)))
  · rw [List.mem_singleton.1 last] at below
    rw [above.antisymm below]
    exact root

/-- A name between that of an expression and that of one of its nodes is that of another. -/
theorem lower_between (skip : Bool) (e : Expr) (name : String) : ∀ node ∈ e.lower skip (.own name), ∀ sub, NodeName.Within name sub →
    NodeName.Within sub node.name → sub ∈ (e.lower skip (.own name)).map Node.name := by
  refine lower_induction skip (motive := fun _ name nodes => ∀ node ∈ nodes, ∀ sub, NodeName.Within name sub →
    NodeName.Within sub node.name → sub ∈ nodes.map Node.name) ?_ e name
  exact fun e name parts label body whole ih => parts_between parts whole.marked ih

/-- A node of an expression sets no flag, and skips separators only where they may stand. -/
theorem lower_plain (skip : Bool) (e : Expr) (name : String) : ∀ node ∈ e.lower skip (.own name),
    node.body.flag? = none ∧ (node.body.skips = true → skip = true ∧ e.spaced = true) := by
  refine lower_induction skip (motive := fun e name nodes => ∀ node ∈ nodes,
    node.body.flag? = none ∧ (node.body.skips = true → skip = true ∧ e.spaced = true)) ?_ e name
  intro e name parts label body whole ih node member
  rcases List.mem_append.1 member with part | last
  · obtain ⟨p,member,part⟩ := List.mem_flatMap.1 part
    have plain := ih p member node part
    exact ⟨plain.1,fun skips => (plain.2 skips).imp_right (whole.spaced p member)⟩
  · rw [List.mem_singleton.1 last]
    exact ⟨whole.unscoped,whole.skips⟩

end Expr

def Kind.flag? : Kind → Option Bool
  | .atomic | .compoundAtomic => some true
  | .nonAtomic => some false
  | .normal | .silent | .unknown _ _ => none

namespace Rule

/-- A rule has the nodes of its expression, or as a part those and a node that sets the flag. -/
theorem lower_cases (rule : Rule) : rule.kind.flag? = none ∧ rule.lower = rule.expr.lower rule.skips (.own rule.name) ∨
    ∃ body, body.flag? = rule.kind.flag? ∧ body.flag? ≠ none ∧ body.children = [NodeName.ruleBody rule.name] ∧
      rule.lower = Expr.partNodes rule.skips rule.name [("_a",rule.expr)] ++ [⟨rule.name,rule.expr.render,body⟩] := by
  have rest (node : Node) : rule.expr.lower rule.skips (.own (NodeName.ruleBody rule.name)) ++ [node] =
      Expr.partNodes rule.skips rule.name [("_a",rule.expr)] ++ [node] := congrArg (· ++ [node]) (List.flatMap_singleton ..).symm
  rw [lower_eq]
  cases rule.kind with
  | normal | silent | unknown _ _ => exact .inl ⟨rfl,rfl⟩
  | atomic => exact .inr ⟨.atomic _,rfl,nofun,rfl,rest _⟩
  | compoundAtomic => exact .inr ⟨.scope _ true,rfl,nofun,rfl,rest _⟩
  | nonAtomic => exact .inr ⟨.scope _ false,rfl,nofun,rfl,rest _⟩

theorem lower_children (rule : Rule) : ∀ node ∈ rule.lower, ∀ child ∈ node.body.children,
    child ∈ rule.lower.map Node.name ∨ child ∈ rule.expr.idents := by
  rcases rule.lower_cases with ⟨-,lowered⟩ | ⟨body,-,-,children,lowered⟩
  · rw [lowered]
    exact Expr.lower_children rule.skips rule.expr rule.name
  · rw [lowered]
    refine Expr.parts_children [("_a",rule.expr)] ?_ (List.forall_mem_singleton.2 (Expr.lower_children rule.skips rule.expr _))
    rw [children]
    exact List.forall_mem_singleton.2 (.inl ⟨_,List.mem_singleton_self _,rfl⟩)

theorem lower_between (rule : Rule) : ∀ node ∈ rule.lower, ∀ sub, NodeName.Within rule.name sub → NodeName.Within sub node.name →
    sub ∈ rule.lower.map Node.name := by
  rcases rule.lower_cases with ⟨-,lowered⟩ | ⟨body,-,-,-,lowered⟩
  · rw [lowered]
    exact Expr.lower_between rule.skips rule.expr rule.name
  · have mark : NodeName.Mark "_a" := ⟨['a'],by decide,by decide⟩
    rw [lowered]
    exact Expr.parts_between [("_a",rule.expr)] (List.forall_mem_singleton.2 mark)
      (List.forall_mem_singleton.2 (Expr.lower_between rule.skips rule.expr _))

end Rule

end TypedPeg
