import TypedPeg.Proofs.Assembly.Regular
import TypedPeg.Proofs.Match.Made
import TypedPeg.Proofs.Source.Stack

/-! The shapes of values. A value has the shape of the node that it comes from, which is found by
following the nodes that only stand for another; the values in it have the shapes of the nodes that
this node refers to. -/
namespace TypedPeg

namespace NodeTable

/-- The node that a name comes to, past the nodes that stand for another. -/
inductive Resolves (table : NodeTable) : String → Node → Prop
  | here {name node} (found : table.get? name = some node) (shape : node.body.shape ≠ .alias) : Resolves table name node
  | through {name node target last} (found : table.get? name = some node) (shape : node.body.shape = .alias)
      (child : node.body.children = [target]) (rest : Resolves table target last) : Resolves table name last

/-- The value has the shape that the table declares for the name. That a leaf has its one character
is asked for only if `inText`. -/
inductive Conforms (table : NodeTable) (inText : Prop) : String → Value → Prop
  | leaf {name n kind span content} (resolves : table.Resolves name n) (shape : n.body.shape = .leaf kind)
      (unit : content = none ↔ kind = .unit) (char : kind = .char → inText → ∃ text, content = some text ∧ text.length = 1) :
      Conforms table inText name (.leaf n.name span content)
  | product {name n fields names skip span vs} (resolves : table.Resolves name n) (body : n.body = .product fields names skip)
      (filled : vs.length = fields.length)
      (each : ∀ (i : Nat) child v, fields[i]? = some child → vs[i]? = some v → Conforms table inText child v) :
      Conforms table inText name (.product n.name span vs names)
  | variant {name n variants span child v} {i : Nat} (resolves : table.Resolves name n) (body : n.body = .sum variants)
      (chosen : variants[i]? = some child) (one : Conforms table inText child v) :
      Conforms table inText name (.variant n.name span i v)
  | absent {name n inner span} (resolves : table.Resolves name n) (body : n.body = .optional inner) :
      Conforms table inText name (.absent n.name span)
  | present {name n inner span v} (resolves : table.Resolves name n) (body : n.body = .optional inner)
      (one : Conforms table inText inner v) : Conforms table inText name (.present n.name span v)
  | many {name n inner skip span vs} (resolves : table.Resolves name n) (body : n.body = .list inner skip)
      (each : ∀ v ∈ vs, Conforms table inText inner v) : Conforms table inText name (.many n.name span vs)

variable {table : NodeTable} {name target : String} {node n m : Node} {inText : Prop} {v : Value}

theorem Resolves.unique (first : table.Resolves name n) (second : table.Resolves name m) : n = m := by
  induction first with
  | here found shape =>
    cases second with
    | here found' shape' => exact Option.some.inj (found.symm.trans found')
    | through found' shape' =>
      cases found.symm.trans found'
      exact (shape shape').elim
  | through found shape child rest ih =>
    cases second with
    | here found' shape' =>
      cases found.symm.trans found'
      exact (shape' shape).elim
    | through found' shape' child' rest' =>
      cases found.symm.trans found'
      cases child.symm.trans child'
      exact ih rest'

theorem Resolves.mem (resolves : table.Resolves name n) : n ∈ table.nodes := by
  induction resolves with
  | here found shape => exact List.mem_of_find?_eq_some found
  | through found shape child rest ih => exact ih

theorem Conforms.through (conforms : table.Conforms inText target v) (found : table.get? name = some node)
    (shape : node.body.shape = .alias) (child : node.body.children = [target]) : table.Conforms inText name v := by
  cases conforms with
  | leaf resolves shape' unit char => exact .leaf (resolves.through found shape child) shape' unit char
  | product resolves body filled each => exact .product (resolves.through found shape child) body filled each
  | variant resolves body chosen one => exact .variant (resolves.through found shape child) body chosen one
  | absent resolves body => exact .absent (resolves.through found shape child) body
  | present resolves body one => exact .present (resolves.through found shape child) body one
  | many resolves body each => exact .many (resolves.through found shape child) body each

end NodeTable

section Characters
variable {source : Source} {label : String} {t : Terminal} {c d : Cursor}

theorem Source.length_slice_next {start : Int} (nonneg : 0 ≤ start) (inside : start < source.length) :
    (source.slice start (start + 1)).length = 1 := by
  rw [slice,String.length_ofList,length_sliceChars nonneg (by omega) (by omega)]
  omega

theorem Cursor.lt_of_peek_cons {first : Char} {rest : List Char} (nonneg : 0 ≤ c.pos) (some : c.peek source 1 = first :: rest) :
    c.pos < source.length := by
  apply Int.not_le.1
  intro past
  have here : source.clip c.pos = source.length := by
    unfold Source.clip
    rw [if_neg (by omega)]
    omega
  have size := congrArg List.length some
  rw [Cursor.peek,Source.sliceChars,here,Array.length_toList,Array.size_extract,List.length_cons] at size
  unfold Source.length at size
  omega

namespace Terminal

theorem char_of_move (char : t.leafKind = .char) (nonneg : 0 ≤ c.pos) (moved : t.move source label c = .ok d) :
    ((c.spanTo d).text source).length = 1 := by
  cases t with
  | range lo hi =>
    simp only [move] at moved
    split at moved
    · cases moved
    · rename_i first rest some
      split at moved <;> cases moved
      exact Source.length_slice_next nonneg (Cursor.lt_of_peek_cons nonneg some)
  | any =>
    simp only [move] at moved
    split at moved
    · cases moved
    · rename_i more
      cases moved
      simp only [Cursor.atEnd,decide_eq_true_eq,Int.not_le] at more
      exact Source.length_slice_next nonneg more
  | literal text | caseless text | startOfInput | endOfInput | newline | skipUntil strings | peek start stop | drop count => cases char

end Terminal

end Characters

def Manner.conforming (table : NodeTable) (inText : Prop) : Manner where
  placed c := inText → 0 ≤ c.pos
  onward _ d := inText → 0 ≤ d.pos
  call name _ _ v := table.Conforms inText name v
  refl placed := placed
  trans _ moved := moved
  arrives _ moved := moved

section Made
variable {table : NodeTable} {source : Source} {inText : Prop} {gap : Cursor → Cursor → Prop} {node : Node} {c d : Cursor} {v : Value}

theorem Terminal.leaf_conforms {t : Terminal} (found : table.get? node.name = some node) (body : node.body = .terminal t)
    (placed : inText → 0 ≤ c.pos) (moved : t.move source node.label c = .ok d) :
    table.Conforms inText node.name (t.leaf source node.name c d) := by
  have shape : node.body.shape = .leaf t.leafKind := by rw [body]; rfl
  have here : table.Resolves node.name node := .here found (by rw [shape]; nofun)
  have char : t.leafKind = .char → inText → ((c.spanTo d).text source).length = 1 :=
    fun char inside => char_of_move char (placed inside) moved
  unfold leaf
  cases kind : t.leafKind with
  | unit => exact .leaf here (shape.trans (congrArg _ kind)) (iff_of_true rfl rfl) nofun
  | span => exact .leaf here (shape.trans (congrArg _ kind)) (iff_of_false nofun nofun) nofun
  | char => exact .leaf here (shape.trans (congrArg _ kind)) (iff_of_false nofun nofun) fun _ inside => ⟨_,rfl,char kind inside⟩

theorem Node.Made.conforms (made : node.Made source (Manner.conforming table inText).Matches gap c d v)
    (found : table.get? node.name = some node) (placed : inText → 0 ≤ c.pos) : table.Conforms inText node.name v := by
  have here (shape : node.body.shape ≠ .alias) : table.Resolves node.name node := .here found shape
  cases made with
  | terminal body moved => exact Terminal.leaf_conforms found body placed moved
  | lookahead body =>
    have shape : node.body.shape = .leaf .unit := by rw [body]; rfl
    exact .leaf (here (by rw [shape]; nofun)) shape (iff_of_true rfl rfl) nofun
  | atomic body one =>
    have shape : node.body.shape = .leaf .span := by rw [body]; rfl
    exact .leaf (here (by rw [shape]; nofun)) shape (iff_of_false nofun nofun) nofun
  | «alias» body one => exact one.2.2.through found (by rw [body]; rfl) (by rw [body]; rfl)
  | scope body one => exact one.2.2.through found (by rw [body]; rfl) (by rw [body]; rfl)
  | restore body one => exact one.2.2.through found (by rw [body]; rfl) (by rw [body]; rfl)
  | push body one => exact one.2.2.through found (by rw [body]; rfl) (by rw [body]; rfl)
  | product body row =>
    refine .product (here (by rw [body]; nofun)) body row.length_eq fun i child v named valued => ?_
    obtain ⟨c,d,one⟩ := row.of_getElem? named valued
    exact one.2.2
  | sum body chosen one => exact .variant (here (by rw [body]; nofun)) body chosen one.2.2
  | absent body => exact .absent (here (by rw [body]; nofun)) body
  | present body one => exact .present (here (by rw [body]; nofun)) body one.2.2
  | list body row =>
    refine .many (here (by rw [body]; nofun)) body fun v member => ?_
    obtain ⟨name,among,c,d,one,_⟩ := row.of_mem member
    obtain rfl := List.eq_of_mem_replicate among
    exact one.2.2

end Made

inductive Value.Inside : Value → Value → Prop
  | whole {v} : Inside v v
  | product {name span vs names u v} (member : v ∈ vs) (rest : Inside u v) : Inside u (.product name span vs names)
  | variant {name span i u v} (rest : Inside u v) : Inside u (.variant name span i v)
  | present {name span u v} (rest : Inside u v) : Inside u (.present name span v)
  | many {name span vs u v} (member : v ∈ vs) (rest : Inside u v) : Inside u (.many name span vs)

namespace NodeTable

variable {σ : Type} [Observer σ] {table : NodeTable} {source : Source} {inText : Prop}

theorem Conforms.names_length {name : String} {v : Value} (conforms : table.Conforms inText name v)
    (regular : ∀ node ∈ table.nodes, node.body.Regular) {whole : String} {span : Span} {fields : List Value} {names : List String}
    (inside : (Value.product whole span fields names).Inside v) : names.length = fields.length := by
  induction conforms with
  | leaf => cases inside
  | absent => cases inside
  | @product name n fields' names' skip span' vs resolves body filled each ih =>
    cases inside with
    | whole =>
      have same := regular n resolves.mem
      rw [body] at same
      exact Eq.trans same filled.symm
    | product member rest =>
      obtain ⟨i,valued⟩ := List.mem_iff_getElem?.1 member
      have bound : i < vs.length := (List.getElem?_eq_some_iff.1 valued).1
      exact ih i _ _ (List.getElem?_eq_getElem (filled ▸ bound)) valued rest
  | variant resolves body chosen one ih =>
    cases inside with
    | variant rest => exact ih rest
  | present resolves body one ih =>
    cases inside with
    | present rest => exact ih rest
  | many resolves body each ih =>
    cases inside with
    | many member rest => exact ih _ member rest

theorem calls_conforming (table : NodeTable) (source : Source) (inText : Prop) (frames : Nat) (active : List Entry) (atomic : Bool) :
    (table.calls source frames active : Calls σ).Mannerly (Manner.conforming table inText).unseen (fun _ _ => True) atomic := by
  refine calls_mannerly (fun {name node c d v} found placed made => ?_) frames active atomic
  have moved : (Manner.conforming table inText).onward c d := by
    refine made.onward (fun _ one => one.2.1) (fun skipped => skipped.2.1) ?_ (fun _ moved => moved) placed
    intro t d _ moved inside
    exact Terminal.nonneg_of_move (placed inside) moved
  obtain rfl := name_of_get? found
  exact ⟨moved,made.conforms found placed⟩

/-- A call that matches, wherever it is made, has a value of the shape that the table declares for its
node. In the table of a grammar every product has as many names as fields. -/
theorem calls_conform (table : NodeTable) (source : Source) (frames : Nat) (active : List Entry) (atomic : Bool) (name : String)
    (c d : Cursor) (v : Value) (s : σ) (matched : ((table.calls source frames active).call atomic name c s).1 = .matched (d,v)) :
    table.Conforms (0 ≤ c.pos) name v ∧
      ∀ rules strict, (NodeTable.ofRules rules strict).value = .ok table → ∀ whole span fields names,
        (Value.product whole span fields names).Inside v → names.length = fields.length := by
  have ended := ((calls_conforming table source (0 ≤ c.pos) frames active atomic).call name c id s).2
  rw [matched] at ended
  have conforms := ended.2.2
  refine ⟨conforms,fun rules strict built whole span fields names inside => ?_⟩
  exact Conforms.names_length conforms (fun node member => regular_of_ofRules built member) inside

def pairs : List Rule := [⟨"pair",.normal,.seq (.tag (.range 'a' 'z') "letter") (.ref "ANY")⟩]

def pairsTable : NodeTable := (NodeTable.ofRules pairs true).value.toOption.getD .empty

theorem pairs_conform :
    let pair := Value.product "pair" ⟨0,2⟩ [.leaf "pair_0" ⟨0,1⟩ (some "a"),.leaf "ANY" ⟨1,2⟩ (some "b")] ["letter","field1"]
    ((pairsTable.calls (.ofString "abc") 9 [] : Calls Tracker).call false "pair" .start (.new true)).1 = .matched (⟨2,[]⟩,pair) ∧
      (NodeTable.ofRules pairs true).value = .ok pairsTable ∧ pairsTable.Conforms (0 ≤ Cursor.start.pos) "pair" pair ∧
      ∀ whole span fields names, (Value.product whole span fields names).Inside pair → names.length = fields.length := by
  intro pair
  have matched : ((pairsTable.calls (.ofString "abc") 9 [] : Calls Tracker).call false "pair" .start (.new true)).1 =
      .matched (⟨2,[]⟩,pair) := by
    decide +kernel
  have built : (NodeTable.ofRules pairs true).value = .ok pairsTable := ofRules_of_isOk (by decide +kernel)
  obtain ⟨conforms,named⟩ := calls_conform pairsTable (.ofString "abc") 9 [] false "pair" .start ⟨2,[]⟩ pair (Tracker.new true) matched
  exact ⟨matched,built,conforms,named pairs true built⟩

end NodeTable

end TypedPeg
