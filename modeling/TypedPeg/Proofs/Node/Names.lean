import TypedPeg.Node.Lowering
import TypedPeg.Proofs.Grammar.Traversal

/-! The names of the nodes of an expression. All are made from the name of the whole, no two
are the same, and the name of a part is never the name of a whole that has no underscore. -/
namespace TypedPeg

namespace NodeName

/-- The name itself, or a name made from it. -/
def Within (name sub : String) : Prop := ∃ more, sub.toList = name.toList ++ more ∧ (more = [] ∨ more.head? = some '_')

variable {name sub : String}

theorem within_refl (name : String) : Within name name := ⟨[],(List.append_nil _).symm,.inl rfl⟩

theorem Within.trans {last : String} (h : Within name sub) (h' : Within sub last) : Within name last := by
  obtain ⟨more,first,start⟩ := h
  obtain ⟨more',second,start'⟩ := h'
  refine ⟨more ++ more',by rw [second,first,List.append_assoc],?_⟩
  rcases start with rfl | start
  · simpa using start'
  · right
    rw [List.head?_append,start]
    rfl

theorem within_append {suffix : String} (start : suffix.toList.head? = some '_') : Within name (name ++ suffix) :=
  ⟨suffix.toList,String.toList_append,.inr start⟩

theorem Within.ne {suffix : String} (h : Within (name ++ suffix) sub) (longer : suffix.toList ≠ []) : sub ≠ name := by
  intro same
  subst same
  obtain ⟨more,same,_⟩ := h
  have lengths := congrArg List.length same
  simp only [String.toList_append,List.length_append] at lengths
  have := List.length_pos_iff.2 longer
  omega

theorem Within.antisymm (h : Within name sub) (h' : Within sub name) : sub = name := by
  obtain ⟨more,same,-⟩ := h
  obtain ⟨more',same',-⟩ := h'
  have lengths := congrArg List.length same'
  rw [same,List.length_append,List.length_append] at lengths
  have none : more = [] := List.length_eq_zero_iff.1 (by omega)
  rw [none,List.append_nil] at same
  exact String.toList_injective same

theorem Within.eq_of_plain (h : Within name sub) (plain : '_' ∉ sub.toList) : sub = name := by
  obtain ⟨more,same,start⟩ := h
  rcases start with rfl | start
  · rw [List.append_nil] at same
    exact String.toList_injective same
  · rw [same] at plain
    exact (plain (List.mem_append_right _ (List.mem_of_mem_head? start))).elim

theorem toList_element (parent : String) (i : Nat) :
    (element parent i).toList = parent.toList ++ '_' :: Nat.toDigits 10 i := by
  rw [element,String.toList_append,String.toList_append,List.append_assoc,← Nat.toList_repr]
  rfl

theorem within_element (parent : String) (i : Nat) : Within parent (element parent i) :=
  ⟨_,toList_element parent i,.inr rfl⟩

/-- An index can be read off a name made from that of an element. -/
theorem element_inj {parent : String} {i j : Nat} (h : Within (element parent i) sub) (h' : Within (element parent j) sub) :
    i = j := by
  obtain ⟨more,same,start⟩ := h
  obtain ⟨more',same',start'⟩ := h'
  rw [same,toList_element,toList_element,List.append_assoc,List.append_assoc] at same'
  have tails := List.append_cancel_left same'
  simp only [List.cons_append,List.cons.injEq,true_and] at tails
  have digits (n : Nat) {rest : List Char} (start : rest = [] ∨ rest.head? = some '_') :
      (Nat.toDigits 10 n ++ rest).takeWhile (· ≠ '_') = Nat.toDigits 10 n := by
    have inner : ∀ c ∈ Nat.toDigits 10 n, decide (c ≠ '_') = true := by
      intro c member
      rw [decide_eq_true_eq]
      intro same
      subst same
      exact Nat.underscore_not_in_toDigits member
    rw [List.takeWhile_append_of_pos inner]
    rcases start with rfl | start
    · simp
    · cases rest with
      | nil => simp
      | cons c rest =>
        cases start
        simp
  have same := congrArg (List.takeWhile (· ≠ '_')) tails
  rw [digits i start,digits j start'] at same
  rw [← Nat.ofDigitChars_ten_toDigits (n := i),same,Nat.ofDigitChars_ten_toDigits]

end NodeName

namespace Slot

def listed : (slot : Slot) → Expr → slot.Names
  | .own name,_ => name
  | .rest link parent i,e => (e.elements link).mapIdx fun j _ => NodeName.element parent (i + j)

def within : Slot → Option Connective
  | .own _ => none
  | .rest link _ _ => some link

theorem within_ne {slot : Slot} {link : Connective} (other : ∀ parent i, slot = .rest link parent i → False) :
    slot.within ≠ some link := by
  cases slot with
  | own name => nofun
  | rest link' parent i =>
    rintro ⟨⟩
    exact other parent i rfl

end Slot

namespace Expr

def elementNames (link : Connective) (parent : String) (e : Expr) : List String :=
  (e.elements link).mapIdx fun i _ => NodeName.element parent i

theorem elements_single {link : Connective} {e : Expr} (other : e.link? ≠ some link) : e.elements link = [e] := by
  cases e <;> cases link <;> first | rfl | exact (other rfl).elim

theorem listed_single {slot : Slot} {e : Expr} (other : ∀ link, e.link? = some link → slot.within ≠ some link) :
    slot.listed e = slot.only slot.name := by
  cases slot with
  | own name => rfl
  | rest link parent i =>
    rw [Slot.listed,elements_single fun same => other link same rfl]
    rfl

theorem listed_cons (link : Connective) (parent : String) (i : Nat) (lhs rhs : Expr) :
    (Slot.rest link parent i).listed (join link lhs rhs) =
      NodeName.element parent i :: (Slot.rest link parent (i + 1)).listed rhs := by
  have shift (j : Nat) : i + 1 + j = i + (j + 1) := by omega
  cases link <;> simp [Slot.listed,join,elements,shift]

/-- Those who refer to what is compiled do so by the names it is to have. -/
theorem compile_names (skip : Bool) (e : Expr) (slot : Slot) : (e.compile skip slot).names = slot.listed e := by
  have alone {e : Expr} {slot : Slot} (unlinked : e.link? = none) : slot.only slot.name = slot.listed e := by
    refine (listed_single fun link linked => ?_).symm
    rw [unlinked] at linked
    cases linked
  have linked (link : Connective) {lhs rhs : Expr} {parent : String} {i : Nat} {name : String} {names : List String}
      (first : name = NodeName.element parent i) (others : names = (Slot.rest link parent (i + 1)).listed rhs) :
      name :: names = (Slot.rest link parent i).listed (join link lhs rhs) := by
    rw [first,others,listed_cons]
  fun_induction e.compile skip slot with
  | case1 inner name slot inside ih =>
    show slot.only (inner.compile skip (.own slot.name)).names = slot.listed (inner.tag name)
    rw [ih]
    exact alone rfl
  | case2 lhs rhs parent i first others ih ih' => exact linked .seq ih ih'
  | case3 lhs rhs parent i first others ih ih' => exact linked .choice ih ih'
  | case4 lhs rhs slot other | case5 lhs rhs slot other =>
    refine (listed_single fun link linked => ?_).symm
    cases linked
    exact Slot.within_ne other
  | _ => exact alone rfl

theorem compile_own (skip : Bool) (e : Expr) (name : String) : (e.compile skip (.own name)).names = name := compile_names skip e (.own name)

def chainNodes (skip : Bool) (parent : String) : List Expr → Nat → List Node
  | [],_ => []
  | e :: rest,i => e.lower skip (.own (NodeName.element parent i)) ++ chainNodes skip parent rest (i + 1)

theorem lower_rest (skip : Bool) (link : Connective) (parent : String) (e : Expr) (i : Nat) :
    e.lower skip (.rest link parent i) = chainNodes skip parent (e.elements link) i := by
  induction e generalizing i with
  | seq lhs rhs _ ih =>
    cases link with
    | seq =>
      rw [elements,chainNodes,← ih]
      rfl
    | choice => exact (List.append_nil _).symm
  | choice lhs rhs _ ih =>
    cases link with
    | seq => exact (List.append_nil _).symm
    | choice =>
      rw [elements,chainNodes,← ih]
      rfl
  | _ => cases link <;> exact (List.append_nil _).symm

theorem elementNames_eq_listed (link : Connective) (parent : String) (e : Expr) :
    e.elementNames link parent = (Slot.rest link parent 0).listed e := by simp [elementNames,Slot.listed]

/-- The names of the elements of a chain, as those of its first element and of the others. -/
theorem names_eq_elementNames (skip : Bool) (link : Connective) (parent : String) (lhs rhs : Expr) :
    (lhs.compile skip (.own (NodeName.element parent 0))).names :: (rhs.compile skip (.rest link parent 1)).names =
      (join link lhs rhs).elementNames link parent := by
  rw [compile_names,compile_names,elementNames_eq_listed,listed_cons]
  rfl

theorem lower_seq (skip : Bool) (lhs rhs : Expr) (name : String) :
    (Expr.seq lhs rhs).lower skip (.own name) = chainNodes skip name ((Expr.seq lhs rhs).elements .seq) 0 ++
      [⟨name,(Expr.seq lhs rhs).render,
        .product ((Expr.seq lhs rhs).elementNames .seq name) (Expr.seq lhs rhs).fieldNames skip⟩] := by
  rw [elements,chainNodes,← lower_rest,← join,← names_eq_elementNames skip .seq name lhs rhs]
  rfl

theorem lower_choice (skip : Bool) (lhs rhs : Expr) (name : String) :
    (Expr.choice lhs rhs).lower skip (.own name) = chainNodes skip name ((Expr.choice lhs rhs).elements .choice) 0 ++
      [⟨name,(Expr.choice lhs rhs).render,.sum ((Expr.choice lhs rhs).elementNames .choice name)⟩] := by
  rw [elements,chainNodes,← lower_rest,← join,← names_eq_elementNames skip .choice name lhs rhs]
  rfl

theorem root_mem (skip : Bool) (e : Expr) (name : String) : ∃ node ∈ e.lower skip (.own name), node.name = name := by
  induction e generalizing name with
  | tag inner field ih => exact ih name
  | seq lhs rhs =>
    rw [lower_seq]
    exact ⟨_,List.mem_append_right _ (List.mem_singleton_self _),rfl⟩
  | choice lhs rhs =>
    rw [lower_choice]
    exact ⟨_,List.mem_append_right _ (List.mem_singleton_self _),rfl⟩
  | opt | rep | followedBy | notFollowedBy | restore | push =>
    exact ⟨_,List.mem_append_right _ (List.mem_singleton_self _),rfl⟩
  | _ => exact ⟨_,List.mem_singleton_self _,rfl⟩

theorem sizeOf_of_mem_elements {link : Connective} {e x : Expr} (member : x ∈ e.elements link) : sizeOf x ≤ sizeOf e := by
  have self {e : Expr} (member : x ∈ [e]) : sizeOf x ≤ sizeOf e :=
    Nat.le_of_eq (congrArg sizeOf (List.mem_singleton.1 member))
  induction e with
  | seq lhs rhs _ ih =>
    cases link with
    | seq =>
      rw [Expr.seq.sizeOf_spec]
      rcases List.mem_cons.1 member with rfl | member
      · omega
      · have := ih member
        omega
    | choice => exact self member
  | choice lhs rhs _ ih =>
    cases link with
    | seq => exact self member
    | choice =>
      rw [Expr.choice.sizeOf_spec]
      rcases List.mem_cons.1 member with rfl | member
      · omega
      · have := ih member
        omega
  | _ => cases link <;> exact self member

theorem sizeOf_of_mem_seq {lhs rhs x : Expr} (member : x ∈ (Expr.seq lhs rhs).elements .seq) : sizeOf x < sizeOf (Expr.seq lhs rhs) := by
  rw [Expr.seq.sizeOf_spec]
  rcases List.mem_cons.1 member with rfl | member
  · omega
  · have := sizeOf_of_mem_elements member
    omega

theorem sizeOf_of_mem_choice {lhs rhs x : Expr} (member : x ∈ (Expr.choice lhs rhs).elements .choice) :
    sizeOf x < sizeOf (Expr.choice lhs rhs) := by
  rw [Expr.choice.sizeOf_spec]
  rcases List.mem_cons.1 member with rfl | member
  · omega
  · have := sizeOf_of_mem_elements member
    omega

structure Tidy (name : String) (nodes : List Node) : Prop where
  within : ∀ node ∈ nodes, NodeName.Within name node.name
  nodup : (nodes.map Node.name).Nodup

/-- Tidy parts under a longer name, and the whole. -/
private theorem Tidy.whole {name suffix : String} {nodes : List Node} (tidy : Tidy (name ++ suffix) nodes)
    (start : suffix.toList.head? = some '_') (label : String) (body : Body) : Tidy name (nodes ++ [⟨name,label,body⟩]) := by
  have longer : suffix.toList ≠ [] := by
    intro empty
    rw [empty] at start
    cases start
  constructor
  · intro node member
    rcases List.mem_append.1 member with member | member
    · exact (NodeName.within_append start).trans (tidy.within node member)
    · rw [List.mem_singleton.1 member]
      exact NodeName.within_refl name
  · rw [List.map_append]
    refine List.nodup_append.2 ⟨tidy.nodup,by simp,?_⟩
    intro x listed y last same
    obtain ⟨node,member,rfl⟩ := List.mem_map.1 listed
    obtain rfl : y = name := by simpa using last
    exact (tidy.within node member).ne longer same

theorem chainNodes_within {skip : Bool} {parent : String} {es : List Expr} {i : Nat}
    (tidy : ∀ e ∈ es, ∀ name, Tidy name (e.lower skip (.own name))) :
    ∀ node ∈ chainNodes skip parent es i, ∃ j ≥ i, NodeName.Within (NodeName.element parent j) node.name := by
  induction es generalizing i with
  | nil => exact fun _ member => (List.not_mem_nil member).elim
  | cons e rest ih =>
    intro node member
    rcases List.mem_append.1 member with member | member
    · exact ⟨i,Nat.le_refl i,(tidy e List.mem_cons_self _).within node member⟩
    · obtain ⟨j,le,within⟩ := ih (fun e member => tidy e (List.mem_cons_of_mem _ member)) node member
      exact ⟨j,by omega,within⟩

theorem chainNodes_nodup {skip : Bool} {parent : String} {es : List Expr} {i : Nat}
    (tidy : ∀ e ∈ es, ∀ name, Tidy name (e.lower skip (.own name))) :
    ((chainNodes skip parent es i).map Node.name).Nodup := by
  induction es generalizing i with
  | nil => exact List.nodup_nil
  | cons e rest ih =>
    have others (e : Expr) (member : e ∈ rest) := tidy e (List.mem_cons_of_mem _ member)
    rw [chainNodes,List.map_append]
    refine List.nodup_append.2 ⟨(tidy e List.mem_cons_self _).nodup,ih others,?_⟩
    intro x listed y listed' same
    obtain ⟨node,member,rfl⟩ := List.mem_map.1 listed
    obtain ⟨node',member',rfl⟩ := List.mem_map.1 listed'
    obtain ⟨j,le,within⟩ := chainNodes_within others node' member'
    rw [← same] at within
    have := NodeName.element_inj ((tidy e List.mem_cons_self _).within node member) within
    omega

private theorem chain_whole {skip : Bool} {name : String} {es : List Expr}
    (tidy : ∀ e ∈ es, ∀ name, Tidy name (e.lower skip (.own name))) (label : String) (body : Body) :
    Tidy name (chainNodes skip name es 0 ++ [⟨name,label,body⟩]) := by
  constructor
  · intro node member
    rcases List.mem_append.1 member with member | member
    · obtain ⟨j,_,within⟩ := chainNodes_within tidy node member
      exact (NodeName.within_element name j).trans within
    · rw [List.mem_singleton.1 member]
      exact NodeName.within_refl name
  · rw [List.map_append]
    refine List.nodup_append.2 ⟨chainNodes_nodup tidy,by simp,?_⟩
    intro x listed y last same
    obtain ⟨node,member,rfl⟩ := List.mem_map.1 listed
    obtain rfl : y = name := by simpa using last
    obtain ⟨j,_,within⟩ := chainNodes_within tidy node member
    rw [NodeName.element,String.append_assoc] at within
    refine within.ne ?_ same
    rw [String.toList_append]
    exact List.cons_ne_nil _ _

private theorem leaf_tidy (name label : String) (body : Body) : Tidy name [⟨name,label,body⟩] where
  within node member := by
    rw [List.mem_singleton.1 member]
    exact NodeName.within_refl name
  nodup := by simp

/-- The nodes of an expression have distinct names, all made from the name of the whole. -/
theorem lower_tidy (skip : Bool) (e : Expr) (name : String) : Tidy name (e.lower skip (.own name)) := by
  cases e with
  | tag inner field => exact lower_tidy skip inner name
  | seq lhs rhs =>
    rw [lower_seq]
    exact chain_whole (fun e member => lower_tidy skip e) _ _
  | choice lhs rhs =>
    rw [lower_choice]
    exact chain_whole (fun e member => lower_tidy skip e) _ _
  | opt inner => exact (lower_tidy skip inner _).whole (by decide) _ _
  | rep inner => exact (lower_tidy skip inner _).whole (by decide) _ _
  | followedBy inner => exact (lower_tidy skip inner _).whole (by decide) _ _
  | notFollowedBy inner => exact (lower_tidy skip inner _).whole (by decide) _ _
  | restore inner => exact (lower_tidy skip inner _).whole (by decide) _ _
  | push inner => exact (lower_tidy skip inner _).whole (by decide) _ _
  | _ => exact leaf_tidy name _ _
termination_by sizeOf e
decreasing_by
  all_goals first | exact sizeOf_of_mem_seq ‹_› | exact sizeOf_of_mem_choice ‹_› | simp_wf <;> omega

end Expr

theorem Rule.lower_eq (rule : Rule) : rule.lower =
    let part := NodeName.ruleBody rule.name
    let wrapped (body : Body) : List Node := rule.expr.lower rule.skips (.own part) ++ [⟨rule.name,rule.expr.render,body⟩]
    match rule.kind with
    | .atomic => wrapped (.atomic part)
    | .compoundAtomic => wrapped (.scope part true)
    | .nonAtomic => wrapped (.scope part false)
    | .normal | .silent | .unknown _ _ => rule.expr.lower rule.skips (.own rule.name) := by
  simp only [lower,Expr.compile_own]
  rfl

theorem Rule.lower_tidy (rule : Rule) : Expr.Tidy rule.name rule.lower := by
  unfold lower
  split
  · exact (Expr.lower_tidy rule.skips rule.expr _).whole (by decide) _ _
  · exact (Expr.lower_tidy rule.skips rule.expr _).whole (by decide) _ _
  · exact (Expr.lower_tidy rule.skips rule.expr _).whole (by decide) _ _
  · exact Expr.lower_tidy rule.skips rule.expr _
  · exact Expr.lower_tidy rule.skips rule.expr _
  · exact Expr.lower_tidy rule.skips rule.expr _

end TypedPeg
