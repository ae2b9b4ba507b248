import Mathlib.Data.List.Forall2
import TypedPeg.Match.Call
import TypedPeg.Proofs.Run.Alike

/-! Two tables at work side by side, each on a text of its own. The cursors of the two are related, and so are
the values of each node; a node at work keeps both, so calls of the tables do, as long as their nodes make
related values of related ones. -/
namespace TypedPeg

/-- What two ways of matching are to have in common besides how their runs end. Nothing is asked of names that
are not known. -/
structure Pairing (σ τ : Type) extends Likeness σ τ where
  near : Cursor → Cursor → Prop
  values : String → Value → Value → Prop
  known : String → Prop

variable {σ τ : Type} {p : Pairing σ τ} {source source' : Source}

def Pairing.Answers (p : Pairing σ τ) (name : String) (x y : Cursor × Value) : Prop := p.near x.1 y.1 ∧ p.values name x.2 y.2

structure Calls.Paired (p : Pairing σ τ) (calls : Calls σ) (calls' : Calls τ) (atomic atomic' : Bool) : Prop where
  call : ∀ {name}, p.known name → ∀ {c c'}, p.near c c' →
    Run.Alike p.toLikeness (p.Answers name) (calls.call atomic name c) (calls'.call atomic' name c')
  within : ∀ flag {name}, p.known name → ∀ {c c'}, p.near c c' →
    Run.Alike p.toLikeness (p.Answers name) (calls.within flag name c) (calls'.within flag name c')
  skip : ∀ {c c'}, p.near c c' → Run.Alike p.toLikeness p.near (calls.skip atomic c) (calls'.skip atomic' c')

theorem Calls.Paired.gap {calls : Calls σ} {calls' : Calls τ} {atomic atomic' : Bool} (paired : calls.Paired p calls' atomic atomic')
    (allowed : Bool) {c c' : Cursor} (close : p.near c c') :
    Run.Alike p.toLikeness p.near (calls.gap allowed atomic c) (calls'.gap allowed atomic' c') := by
  cases allowed with
  | false => exact .pure close
  | true => exact paired.skip close

/-- Cursors that are near are as far from the end and in the same order, and failures at such cursors correspond. -/
structure Pairing.Tallies (p : Pairing σ τ) (source source' : Source) : Prop where
  ahead : ∀ {c c'}, p.near c c' → c.ahead source = c'.ahead source'
  still : ∀ {c c' d d'}, p.near c c' → p.near d d' → (d.pos = c.pos ↔ d'.pos = c'.pos)
  further : ∀ {c c' d d'}, p.near c c' → p.near d d' → (c.pos < d.pos ↔ c'.pos < d'.pos)
  push : ∀ {c c' d d'}, p.near c c' → p.near d d' → p.near (d.push (c.spanTo d)) (d'.push (c'.spanTo d'))
  here : ∀ {c c'} kind msg labels, p.near c c' → p.failures ⟨kind,msg,c.pos,labels⟩ ⟨kind,msg,c'.pos,labels⟩
  relabelled : ∀ {c c'} {f f' : Failure} kind msg, p.near c c' → p.failures f f' →
    p.failures ⟨kind,msg,c.pos,f.expected⟩ ⟨kind,msg,c'.pos,f'.expected⟩
  noted : ∀ {far far' : Furthest} {f f' : Failure} label, p.failures (far.ofChoice label) (far'.ofChoice label) → p.failures f f' →
    p.failures ((far.note f).ofChoice label) ((far'.note f').ofChoice label)

structure Pairing.Fits [Observer σ] [Observer τ] (p : Pairing σ τ) (source source' : Source) : Prop extends p.Tallies source source' where
  watched : p.toLikeness.Watched

inductive Value.Rows (values : String → Value → Value → Prop) : List String → List Value → List Value → Prop
  | nil : Rows values [] [] []
  | cons {name names v v' vs vs'} (one : values name v v') (others : Rows values names vs vs') :
      Rows values (name :: names) (v :: vs) (v' :: vs')

namespace Value.Rows

variable {values : String → Value → Value → Prop} {names : List String} {vs vs' : List Value}

theorem length_eq (rows : Rows values names vs vs') : vs.length = names.length ∧ vs'.length = names.length := by
  induction rows with
  | nil => exact ⟨rfl,rfl⟩
  | cons one others ih => exact ⟨congrArg (· + 1) ih.1,congrArg (· + 1) ih.2⟩

theorem of_getElem? (rows : Rows values names vs vs') {i : Nat} {name : String} {v v' : Value} (named : names[i]? = some name)
    (valued : vs[i]? = some v) (valued' : vs'[i]? = some v') : values name v v' := by
  induction rows generalizing i with
  | nil => cases valued
  | cons one others ih =>
    cases i with
    | zero =>
      cases named
      cases valued
      cases valued'
      exact one
    | succ i => exact ih named valued valued'

end Value.Rows

/-- How the two values go together that a node makes on its way from one cursor to another. -/
inductive Node.Paired (p : Pairing σ τ) (source source' : Source) (node : Node) (c d c' d' : Cursor) : Value → Value → Prop
  | terminal {t} (body : node.body = .terminal t) :
      Paired p source source' node c d c' d' (t.leaf source node.name c d) (t.leaf source' node.name c' d')
  | lookahead {inner negative} (body : node.body = .lookahead inner negative) :
      Paired p source source' node c d c' d' (.unitLeaf node.name c) (.unitLeaf node.name c')
  | atomic {inner} (body : node.body = .atomic inner) :
      Paired p source source' node c d c' d' (.spanLeaf source node.name c d) (.spanLeaf source' node.name c' d')
  | through {target v v'} (shape : node.body.shape = .alias) (child : node.body.children = [target]) (one : p.values target v v') :
      Paired p source source' node c d c' d' v v'
  | product {fields names skip vs vs'} (body : node.body = .product fields names skip) (rows : Value.Rows p.values fields vs vs') :
      Paired p source source' node c d c' d' (.product node.name (c.spanTo d) vs names) (.product node.name (c'.spanTo d') vs' names)
  | sum {variants target v v'} {i : Nat} (body : node.body = .sum variants) (chosen : variants[i]? = some target)
      (one : p.values target v v') :
      Paired p source source' node c d c' d' (.variant node.name (c.spanTo d) i v) (.variant node.name (c'.spanTo d') i v')
  | absent {inner} (body : node.body = .optional inner) :
      Paired p source source' node c d c' d' (.absent node.name (c.spanTo c)) (.absent node.name (c'.spanTo c'))
  | present {inner v v'} (body : node.body = .optional inner) (one : p.values inner v v') :
      Paired p source source' node c d c' d' (.present node.name (c.spanTo d) v) (.present node.name (c'.spanTo d') v')
  | list {inner skip vs vs'} (body : node.body = .list inner skip) (items : List.Forall₂ (p.values inner) vs vs') :
      Paired p source source' node c d c' d' (.many node.name (c.spanTo d) vs) (.many node.name (c'.spanTo d') vs')

namespace Node

variable {calls : Calls σ} {calls' : Calls τ} {atomic atomic' : Bool} {c c' : Cursor}

theorem elements_paired (paired : calls.Paired p calls' atomic atomic') (skip : Bool) {names : List String}
    (known : ∀ name ∈ names, p.known name) (close : p.near c c') :
    Run.Alike p.toLikeness (fun x y => p.near x.1 y.1 ∧ Value.Rows p.values names x.2 y.2) (elements calls skip atomic names c)
      (elements calls' skip atomic' names c') := by
  induction names generalizing c c' with
  | nil => exact .pure ⟨close,.nil⟩
  | cons name rest ih =>
    refine (paired.gap skip close).bind fun d d' close => ?_
    refine (paired.call (known name List.mem_cons_self) close).bind fun x y one => ?_
    refine (ih (fun name member => known name (List.mem_cons_of_mem _ member)) one.1).bind fun xs ys others => ?_
    exact .pure ⟨others.1,.cons one.2 others.2⟩

theorem sequence_paired (paired : calls.Paired p calls' atomic atomic') (skip : Bool) {names : List String}
    (known : ∀ name ∈ names, p.known name) (close : p.near c c') :
    Run.Alike p.toLikeness (fun x y => p.near x.1 y.1 ∧ Value.Rows p.values names x.2 y.2) (sequence calls skip atomic names c)
      (sequence calls' skip atomic' names c') := by
  cases names with
  | nil => exact .pure ⟨close,.nil⟩
  | cons name rest =>
    refine (paired.call (known name List.mem_cons_self) close).bind fun x y one => ?_
    refine (elements_paired paired skip (fun name member => known name (List.mem_cons_of_mem _ member)) one.1).bind fun xs ys others => ?_
    exact .pure ⟨others.1,.cons one.2 others.2⟩

theorem alternatives_paired (tallies : p.Tallies source source') (paired : calls.Paired p calls' atomic atomic') (label : String)
    (tried : List String) {names : List String} (known : ∀ name ∈ names, p.known name) (close : p.near c c') {far far' : Furthest}
    (failures : p.failures (far.ofChoice label) (far'.ofChoice label)) :
    Run.Alike p.toLikeness (fun (x y : Cursor × Int × Value) => p.near x.1 y.1 ∧ ∃ (i : Nat) (target : String),
        (tried ++ names)[i]? = some target ∧ x.2.1 = i ∧ y.2.1 = i ∧ p.values target x.2.2 y.2.2)
      (alternatives calls atomic label c names tried.length far) (alternatives calls' atomic' label c' names tried.length far') := by
  induction names generalizing tried far far' with
  | nil => exact .raise failures
  | cons name rest ih =>
    refine (paired.call (known name List.mem_cons_self) close).attempt.tried (fun f f' caught => ?_) fun x y one => ?_
    · have others := ih (tried ++ [name]) (fun name member => known name (List.mem_cons_of_mem _ member))
          (tallies.noted label failures caught)
      simpa using others
    · exact .pure ⟨one.1,tried.length,name,by simp,rfl,rfl,one.2⟩

theorem repetition_paired (tallies : p.Tallies source source') (paired : calls.Paired p calls' atomic atomic') (skip : Bool)
    {inner : String}
    (known : p.known inner) (rounds : Nat) (close : p.near c c') {items items' : List Value}
    (alike : List.Forall₂ (p.values inner) items items') :
    Run.Alike p.toLikeness (fun x y => p.near x.1 y.1 ∧ List.Forall₂ (p.values inner) x.2 y.2)
      (repetition calls skip atomic inner rounds c items) (repetition calls' skip atomic' inner rounds c' items') := by
  induction rounds generalizing c c' items items' with
  | zero => exact .pure ⟨close,alike⟩
  | succ rounds ih =>
    have empty : items'.isEmpty = items.isEmpty := by cases alike <;> rfl
    simp only [repetition,empty]
    refine (paired.gap (skip && !items.isEmpty) close).bind fun start start' started => ?_
    refine (paired.call known started).attempt.tried (fun f f' _ => .pure ⟨close,alike⟩) fun x y one => ?_
    dsimp only
    by_cases rests : x.1.pos = start.pos
    · rw [if_pos rests,if_pos ((tallies.still started one.1).1 rests)]
      exact .pure ⟨close,alike⟩
    · rw [if_neg rests,if_neg fun rests' => rests ((tallies.still started one.1).2 rests')]
      exact ih one.1 (.cons one.2 alike)

variable [Observer σ] [Observer τ]

/-- A node keeps cursors near and makes corresponding values, if its terminal does and what it calls does,
also hushed where the node hushes it. -/
theorem step_paired_of_hushed (tallies : p.Tallies source source')
    (told : ∀ {f f' s t}, p.failures f f' → p.states s t → p.states (Observer.fail f s) (Observer.fail f' t))
    (paired : calls.Paired p calls' atomic atomic') {node : Node} (known : ∀ child ∈ node.body.children, p.known child)
    (hushed : ∀ inner, node.body = .lookahead inner true → Run.Alike p.toLikeness (Run.Alike.caught p.toLikeness (p.Answers inner))
      ((calls.call atomic inner c).attempt.hushed .negation) ((calls'.call atomic' inner c').attempt.hushed .negation))
    (halts : node.body = .declared → p.halts .notRunnable .notRunnable)
    (terminal : ∀ t, node.body = .terminal t →
      Run.Alike.caught p.toLikeness p.near (t.move source node.label c) (t.move source' node.label c'))
    (close : p.near c c') :
    Run.Alike p.toLikeness (fun x y => p.near x.1 y.1 ∧ node.Paired p source source' c x.1 c' y.1 x.2 y.2)
      (node.step source calls atomic c) (node.step source' calls' atomic' c') := by
  have through {target : String} (shape : node.body.shape = .alias) (child : node.body.children = [target]) (x y : Cursor × Value)
      (one : p.Answers target x y) : p.near x.1 y.1 ∧ node.Paired p source source' c x.1 c' y.1 x.2 y.2 :=
        ⟨one.1,.through shape child one.2⟩
  unfold step
  cases body : node.body with
  | declared => exact .halt (halts body)
  | terminal t =>
    have moved := terminal t body
    dsimp only
    generalize t.move source node.label c = m at moved
    generalize t.move source' node.label c' = m' at moved
    cases m with
    | ok d =>
      cases m' with
      | ok d' => exact .pure ⟨moved,.terminal body⟩
      | error f' => exact moved.elim
    | error f =>
      cases m' with
      | ok d' => exact moved.elim
      | error f' => exact fun s t states => .failed moved (told moved states)
  | lookahead inner negative =>
    have inside : p.known inner := known inner (by rw [body]; exact List.mem_singleton_self _)
    cases negative with
    | true =>
      refine (hushed inner body).tried ?_ ?_
      · exact fun f f' caught => .pure ⟨close,.lookahead body⟩
      · have here := tallies.here .lookahead "negative lookahead matched" [node.label] close
        exact fun x y one s t states => .failed here (told here states)
    | false =>
      refine (paired.call inside close).attempt.tried ?_ ?_
      · exact fun f f' caught => .raise (tallies.relabelled _ _ close caught)
      · exact fun x y one => .pure ⟨close,.lookahead body⟩
  | atomic inner =>
    have inside : p.known inner := known inner (by rw [body]; exact List.mem_singleton_self _)
    exact (paired.within true inside close).bind fun x y one => .pure ⟨one.1,.atomic body⟩
  | «alias» target =>
    have inside : p.known target := known target (by rw [body]; exact List.mem_singleton_self _)
    exact (paired.call inside close).mono (through (by rw [body]; rfl) (by rw [body]; rfl))
  | scope inner flag =>
    have inside : p.known inner := known inner (by rw [body]; exact List.mem_singleton_self _)
    exact (paired.within flag inside close).mono (through (by rw [body]; rfl) (by rw [body]; rfl))
  | restore inner =>
    have inside : p.known inner := known inner (by rw [body]; exact List.mem_singleton_self _)
    exact (paired.call inside close).mono (through (by rw [body]; rfl) (by rw [body]; rfl))
  | push inner =>
    have inside : p.known inner := known inner (by rw [body]; exact List.mem_singleton_self _)
    refine (paired.call inside close).bind fun x y one => ?_
    exact .pure ⟨tallies.push close one.1,.through (by rw [body]; rfl) (by rw [body]; rfl) one.2⟩
  | product fields names skip =>
    have inside : ∀ name ∈ fields, p.known name := fun name member => known name (by rw [body]; exact member)
    exact (sequence_paired paired skip inside close).bind fun x y row => .pure ⟨row.1,.product body row.2⟩
  | sum variants =>
    have inside : ∀ name ∈ variants, p.known name := fun name member => known name (by rw [body]; exact member)
    refine (alternatives_paired tallies paired node.label [] inside close (tallies.here _ _ _ close)).bind fun x y found => ?_
    obtain ⟨near,i,target,chosen,index,index',one⟩ := found
    obtain ⟨d,j,v⟩ := x
    obtain ⟨d',j',v'⟩ := y
    cases index
    cases index'
    exact .pure ⟨near,.sum body chosen one⟩
  | optional inner =>
    have inside : p.known inner := known inner (by rw [body]; exact List.mem_singleton_self _)
    refine (paired.call inside close).attempt.tried ?_ ?_
    · exact fun f f' caught => .pure ⟨close,.absent body⟩
    · exact fun x y one => .pure ⟨one.1,.present body one.2⟩
  | list inner skip =>
    have inside : p.known inner := known inner (by rw [body]; exact List.mem_singleton_self _)
    dsimp only
    rw [tallies.ahead close]
    refine (repetition_paired tallies paired skip inside _ close .nil).bind fun x y items => ?_
    exact .pure ⟨items.1,.list body (List.rel_reverse items.2)⟩

theorem step_paired (fits : p.Fits source source') (paired : calls.Paired p calls' atomic atomic') {node : Node}
    (known : ∀ child ∈ node.body.children, p.known child) (halts : node.body = .declared → p.halts .notRunnable .notRunnable)
    (terminal : ∀ t, node.body = .terminal t →
      Run.Alike.caught p.toLikeness p.near (t.move source node.label c) (t.move source' node.label c'))
    (close : p.near c c') :
    Run.Alike p.toLikeness (fun x y => p.near x.1 y.1 ∧ node.Paired p source source' c x.1 c' y.1 x.2 y.2)
      (node.step source calls atomic c) (node.step source' calls' atomic' c') := by
  refine step_paired_of_hushed fits.toTallies fits.watched.fail paired known (fun inner body => ?_) halts terminal close
  have inside : p.known inner := known inner (by rw [body]; exact List.mem_singleton_self _)
  exact (paired.call inside close).attempt.hushed fits.watched _

end Node

namespace Skipping

variable {separator : String → Cursor → Run σ (Cursor × Value)} {separator' : String → Cursor → Run τ (Cursor × Value)}
variable {names : List String} {c c' : Cursor}

theorem sweep_paired (tallies : p.Tallies source source') (paired : ∀ name ∈ names, ∀ {c c'}, p.near c c' →
      Run.Alike p.toLikeness (p.Answers name) (separator name c) (separator' name c')) (close : p.near c c') :
    Run.Alike p.toLikeness p.near (sweep separator names c) (sweep separator' names c') := by
  induction names generalizing c c' with
  | nil => exact .pure close
  | cons name rest ih =>
    have others {c c' : Cursor} (close : p.near c c') := ih (fun name member => paired name (List.mem_cons_of_mem _ member)) close
    refine (paired name List.mem_cons_self close).attempt.tried (fun f f' _ => others close) fun x y one => ?_
    dsimp only
    by_cases moved : c.pos < x.1.pos
    · rw [if_pos moved,if_pos ((tallies.further close one.1).1 moved)]
      exact others one.1
    · rw [if_neg moved,if_neg fun moved' => moved ((tallies.further close one.1).2 moved')]
      exact others close

theorem sweeps_paired (tallies : p.Tallies source source') (paired : ∀ name ∈ names, ∀ {c c'}, p.near c c' →
      Run.Alike p.toLikeness (p.Answers name) (separator name c) (separator' name c')) (rounds : Nat) (close : p.near c c') :
    Run.Alike p.toLikeness p.near (sweeps separator names rounds c) (sweeps separator' names rounds c') := by
  induction rounds generalizing c c' with
  | zero => exact .pure close
  | succ rounds ih =>
    refine (sweep_paired tallies paired close).bind fun d d' near => ?_
    by_cases moved : c.pos < d.pos
    · rw [if_pos moved,if_pos ((tallies.further close near).1 moved)]
      exact ih near
    · rw [if_neg moved,if_neg fun moved' => moved ((tallies.further close near).2 moved')]
      exact .pure near

theorem skip_paired [Observer σ] [Observer τ] (fits : p.Fits source source') (paired : ∀ name ∈ names, ∀ {c c'}, p.near c c' →
      Run.Alike p.toLikeness (p.Answers name) (separator name c) (separator' name c')) (atomic : Bool) (close : p.near c c') :
    Run.Alike p.toLikeness p.near (skip source names separator atomic c) (skip source' names separator' atomic c') := by
  unfold skip
  split
  · exact .pure close
  · rw [fits.ahead close]
    exact (sweeps_paired fits.toTallies paired _ close).hushed fits.watched _

end Skipping

namespace NodeTable

variable [Observer σ] [Observer τ] {table table' : NodeTable}

/-- What two tables have to guarantee of their nodes, the calls of which are paired, and of the calls in progress. -/
structure Pairs (p : Pairing σ τ) (nestings : List Entry → List Entry → Prop) (table table' : NodeTable)
    (source source' : Source) : Prop where
  fits : p.Fits source source'
  visit : ∀ {active active' c c' s t}, nestings active active' → p.near c c' → p.states s t →
    p.states (Observer.visit active c s) (Observer.visit active' c' t)
  enter : ∀ {active active' c c'} name, nestings active active' → p.near c c' →
    nestings (⟨c.pos,name⟩ :: active) (⟨c'.pos,name⟩ :: active')
  again : ∀ {active active' c c'} name, nestings active active' → p.near c c' →
    Entry.isIn ⟨c.pos,name⟩ active = Entry.isIn ⟨c'.pos,name⟩ active'
  refused : ∀ {c c'} name, p.near c c' → p.halts (.leftRecursion name c.pos) (.leftRecursion name c'.pos)
  spent : p.halts .tooDeep .tooDeep
  separators : table'.separators = table.separators
  separator : ∀ name ∈ table.separators, p.known name
  defined : ∀ {name}, p.known name → (table.get? name).isSome = (table'.get? name).isSome
  step : ∀ {name node node'}, p.known name → table.get? name = some node → table'.get? name = some node' →
    ∀ {frames active active' atomic c c'}, (table.calls source frames active).Paired p (table'.calls source' frames active') atomic atomic →
      p.near c c' → Run.Alike p.toLikeness (p.Answers name) (node.step source (table.calls source frames active) atomic c)
        (node'.step source' (table'.calls source' frames active') atomic c')

/-- Calls of tables whose nodes keep the pairing keep it. -/
theorem Pairs.calls {nestings : List Entry → List Entry → Prop} (pairs : Pairs p nestings table table' source source') (frames : Nat)
    {active active' : List Entry} (nested : nestings active active') (atomic : Bool) :
    (table.calls source frames active).Paired p (table'.calls source' frames active') atomic atomic := by
  -- on the frames: a node at work calls with two fewer, a separator is called with two fewer
  induction frames using Nat.strongRecOn generalizing active active' atomic with
  | ind frames ih =>
    cases frames with
    | zero => exact ⟨fun _ _ _ _ => .halt pairs.spent,fun _ _ _ _ _ _ => .halt pairs.spent,fun _ => .halt pairs.spent⟩
    | succ frames =>
      have below := ih frames (Nat.lt_succ_self _) nested
      refine ⟨fun {name} known c c' close => ?_,fun flag name known c c' close => ?_,fun {c c'} close => ?_⟩
      · simp only [Table.calls,Run.withRoom_eq]
        have defined := pairs.defined known
        cases found : table.get? name with
        | none =>
          cases found' : table'.get? name with
          | none => exact .fail pairs.fits.watched (pairs.fits.here _ _ _ close)
          | some node' => simp [found,found'] at defined
        | some node =>
          cases found' : table'.get? name with
          | none => simp [found,found'] at defined
          | some node' =>
            dsimp only
            rw [← pairs.again name nested close]
            split
            · exact .halt (pairs.refused name close)
            · cases frames with
              | zero => exact .halt pairs.spent
              | succ left =>
                have inner := ih left (by omega) (pairs.enter name nested close) atomic
                exact fun s t states => pairs.step known found found' inner close _ _
                  (pairs.visit (pairs.enter name nested close) close states)
      · simp only [Table.calls]
        exact (below flag).call known close
      · simp only [Table.calls]
        rw [pairs.separators]
        exact Skipping.skip_paired pairs.fits (fun name member => (below true).within true (pairs.separator name member)) atomic close

end NodeTable

end TypedPeg
