import TypedPeg.Proofs.Match.Handling
import TypedPeg.Proofs.Run.Keeps
import TypedPeg.Proofs.Source.Bounds

/-! What a match is made of. One step of a node makes its match from matches of the nodes it
refers to; so what holds of whatever is so made holds of every call of a table, however the
calls are nested and whatever is done around each of them. -/
namespace TypedPeg

/-- Matches in a row, one of each name, with a gap before each but the first. -/
inductive Row (call : String → Cursor → Cursor → Value → Prop) (gap : Cursor → Cursor → Prop) :
    Bool → List String → Cursor → Cursor → List Value → Prop
  | nil {first c} : Row call gap first [] c c []
  | cons {first name names c c' d e v vs} (apart : c' = c ∨ first = false ∧ gap c c') (one : call name c' d v)
      (others : Row call gap false names d e vs) : Row call gap first (name :: names) c e (v :: vs)

namespace Row

variable {call : String → Cursor → Cursor → Value → Prop} {gap : Cursor → Cursor → Prop} {first : Bool} {names : List String}
  {c d : Cursor} {vs : List Value}

theorem length_eq (row : Row call gap first names c d vs) : vs.length = names.length := by
  induction row with
  | nil => rfl
  | cons apart one others ih => rw [List.length_cons,List.length_cons,ih]

theorem of_getElem? (row : Row call gap first names c d vs) {i : Nat} {name : String} {v : Value} (named : names[i]? = some name)
    (valued : vs[i]? = some v) : ∃ c d, call name c d v := by
  induction row generalizing i with
  | nil => cases valued
  | cons apart one others ih =>
    cases i with
    | zero =>
      cases named
      cases valued
      exact ⟨_,_,one⟩
    | succ i => exact ih named valued

theorem of_mem (row : Row call gap first names c d vs) {v : Value} (member : v ∈ vs) : ∃ name ∈ names, ∃ c d, call name c d v := by
  obtain ⟨i,valued⟩ := List.mem_iff_getElem?.1 member
  have bound : i < names.length := by
    rw [← row.length_eq]
    exact (List.getElem?_eq_some_iff.1 valued).1
  exact ⟨names[i],List.getElem_mem bound,row.of_getElem? (List.getElem?_eq_getElem bound) valued⟩

end Row

/-- How a node makes a match, from matches in `call` and separators in `gap`. -/
inductive Node.Made (source : Source) (call : String → Cursor → Cursor → Value → Prop) (gap : Cursor → Cursor → Prop)
    (node : Node) (c : Cursor) : Cursor → Value → Prop
  | terminal {t d} (body : node.body = .terminal t) (moved : t.move source node.label c = .ok d) :
      Made source call gap node c d (t.leaf source node.name c d)
  | lookahead {inner negative} (body : node.body = .lookahead inner negative) : Made source call gap node c c (.unitLeaf node.name c)
  | atomic {inner d v} (body : node.body = .atomic inner) (one : call inner c d v) :
      Made source call gap node c d (.spanLeaf source node.name c d)
  | «alias» {target d v} (body : node.body = .alias target) (one : call target c d v) : Made source call gap node c d v
  | scope {inner flag d v} (body : node.body = .scope inner flag) (one : call inner c d v) : Made source call gap node c d v
  | restore {inner d v} (body : node.body = .restore inner) (one : call inner c d v) : Made source call gap node c d v
  | push {inner d v} (body : node.body = .push inner) (one : call inner c d v) :
      Made source call gap node c (d.push (c.spanTo d)) v
  | product {fields names skip d vs} (body : node.body = .product fields names skip)
      (row : Row call (fun c d => skip = true ∧ gap c d) true fields c d vs) :
      Made source call gap node c d (.product node.name (c.spanTo d) vs names)
  | sum {variants target d v} {i : Nat} (body : node.body = .sum variants) (chosen : variants[i]? = some target)
      (one : call target c d v) : Made source call gap node c d (.variant node.name (c.spanTo d) i v)
  | absent {inner} (body : node.body = .optional inner) : Made source call gap node c c (.absent node.name (c.spanTo c))
  | present {inner d v} (body : node.body = .optional inner) (one : call inner c d v) :
      Made source call gap node c d (.present node.name (c.spanTo d) v)
  | list {inner skip d vs} (body : node.body = .list inner skip)
      (row : Row (fun name c d v => call name c d v ∧ d.pos ≠ c.pos) (fun c d => skip = true ∧ gap c d) true
        (List.replicate vs.length inner) c d vs) :
      Made source call gap node c d (.many node.name (c.spanTo d) vs)

/-- What is asked of calls: where they may be made, how far they may move, and what they may match. -/
structure Manner where
  placed : Cursor → Prop
  onward : Cursor → Cursor → Prop
  call : String → Cursor → Cursor → Value → Prop
  refl : ∀ {c}, placed c → onward c c
  trans : ∀ {c d e}, onward c d → onward d e → onward c e
  arrives : ∀ {c d}, placed c → onward c d → placed d

def Manner.Matches (manner : Manner) (name : String) (c d : Cursor) (v : Value) : Prop :=
  manner.placed c ∧ manner.onward c d ∧ manner.call name c d v

section Onward
variable {manner : Manner} {source : Source} {call : String → Cursor → Cursor → Value → Prop} {gap : Cursor → Cursor → Prop}
  {c d : Cursor}

theorem Row.onward {first : Bool} {names : List String} {vs : List Value} (row : Row call gap first names c d vs)
    (calls : ∀ {name c d v}, name ∈ names → call name c d v → manner.onward c d) (gaps : ∀ {c d}, gap c d → manner.onward c d)
    (placed : manner.placed c) : manner.onward c d := by
  induction row with
  | nil => exact manner.refl placed
  | @cons first name names c c' d e v vs apart one others ih =>
    have before : manner.onward c c' := by
      rcases apart with same | ⟨_,skipped⟩
      · subst same
        exact manner.refl placed
      · exact gaps skipped
    have moved := manner.trans before (calls List.mem_cons_self one)
    exact manner.trans moved (ih (fun member => calls (List.mem_cons_of_mem name member)) (manner.arrives placed moved))

theorem Node.Made.onward {node : Node} {v : Value} (made : node.Made source call gap c d v)
    (calls : ∀ {name c d v}, name ∈ node.body.children → call name c d v → manner.onward c d)
    (gaps : ∀ {c d}, gap c d → manner.onward c d)
    (terminals : ∀ {t d}, node.body = .terminal t → t.move source node.label c = .ok d → manner.onward c d)
    (pushes : ∀ {inner d}, node.body = .push inner → manner.onward c d → manner.onward c (d.push (c.spanTo d)))
    (placed : manner.placed c) : manner.onward c d := by
  have child {name : String} {c d : Cursor} {v : Value} (body : node.body.children = [name]) (one : call name c d v) : manner.onward c d :=
    calls (body ▸ List.mem_singleton_self name) one
  cases made with
  | terminal body moved => exact terminals body moved
  | lookahead body => exact manner.refl placed
  | absent body => exact manner.refl placed
  | atomic body one => exact child (by rw [body]; rfl) one
  | «alias» body one => exact child (by rw [body]; rfl) one
  | scope body one => exact child (by rw [body]; rfl) one
  | restore body one => exact child (by rw [body]; rfl) one
  | push body one => exact pushes body (child (by rw [body]; rfl) one)
  | product body row =>
    refine row.onward (fun {name c d v} member => calls ?_) (fun skipped => gaps skipped.2) placed
    rw [body]
    exact member
  | sum body chosen one =>
    refine calls ?_ one
    rw [body]
    exact List.mem_of_getElem? chosen
  | present body one => exact child (by rw [body]; rfl) one
  | list body row =>
    refine row.onward (fun {name c d v} member one => ?_) (fun skipped => gaps skipped.2) placed
    obtain rfl := List.eq_of_mem_replicate member
    exact child (by rw [body]; rfl) one.1

end Onward

def Manner.Skipped (manner : Manner) (ran : Cursor → Cursor → Prop) (c d : Cursor) : Prop :=
  manner.placed c ∧ manner.onward c d ∧ ran c d

/-- What an observer knows of the failures of calls made in that manner, if those that nodes tell are
of such kinds and labels. -/
structure Account (σ : Type) [Observer σ] (manner : Manner) extends Course σ where
  failed : Cursor → Failure → σ → Prop
  lasting : ∀ {c f s t}, failed c f s → leads s t → failed c f t
  tells : FailureKind → List String → Prop := fun _ _ => True
  told : ∀ {c kind labels}, manner.placed c → tells kind labels → ∀ msg s, leads s (Observer.fail ⟨kind,msg,c.pos,labels⟩ s) ∧
    failed c ⟨kind,msg,c.pos,labels⟩ (Observer.fail ⟨kind,msg,c.pos,labels⟩ s)
  behind : ∀ {c d f s}, manner.onward c d → failed d f s → failed c f s
  relabelled : ∀ {c f s} msg, failed c f s → failed c ⟨.lookahead,msg,c.pos,f.expected⟩ s
  begun : ∀ {c f s} label, failed c f s → failed c (((Furthest.start c.pos).note f).ofChoice label) s
  noted : ∀ {c far f s} label, failed c (Furthest.ofChoice far label) s → failed c f s → failed c ((far.note f).ofChoice label) s
  spent : halts .tooDeep := by trivial
  again : ∀ name pos, halts (.leftRecursion name pos) := by intros; trivial

structure Calls.Mannerly {σ : Type} [Observer σ] (calls : Calls σ) {manner : Manner} (account : Account σ manner)
    (ran : Cursor → Cursor → Prop) (atomic : Bool) : Prop where
  call : ∀ name c, manner.placed c → (calls.call atomic name c).Keeps account.toCourse
    (fun x => manner.Matches name c x.1 x.2) (account.failed c)
  within : ∀ flag name c, manner.placed c → (calls.within flag name c).Keeps account.toCourse
    (fun x => manner.Matches name c x.1 x.2) (account.failed c)
  skip : ∀ c, manner.placed c → (calls.skip atomic c).Keeps account.toCourse
    (fun d => manner.onward c d ∧ (d = c ∨ manner.Skipped ran c d)) fun _ _ => False

variable {σ : Type} [Observer σ] {manner : Manner} {account : Account σ manner} {ran : Cursor → Cursor → Prop} {calls : Calls σ}
  {atomic : Bool} {c : Cursor} {source : Source}

theorem Calls.Mannerly.gap (mannerly : calls.Mannerly account ran atomic) (placed : manner.placed c) (allowed : Bool) :
    (calls.gap allowed atomic c).Keeps account.toCourse
      (fun d => manner.onward c d ∧ (d = c ∨ allowed = true ∧ manner.Skipped ran c d)) fun _ _ => False := by
  cases allowed with
  | true => exact (mannerly.skip c placed).mono (fun d got => ⟨got.1,got.2.imp_right fun ran => ⟨rfl,ran⟩⟩) fun _ _ => id
  | false => exact .pure ⟨manner.refl placed,.inl rfl⟩

namespace Node

theorem elements_mannerly (mannerly : calls.Mannerly account ran atomic) (skip : Bool) (names : List String) (placed : manner.placed c) :
    (elements calls skip atomic names c).Keeps account.toCourse (fun x => manner.onward c x.1 ∧
      Row manner.Matches (fun c d => skip = true ∧ manner.Skipped ran c d) false names c x.1 x.2) (account.failed c) := by
  induction names generalizing c with
  | nil => exact .pure ⟨manner.refl placed,.nil⟩
  | cons name names ih =>
    refine ((mannerly.gap placed skip).mono (fun _ => id) fun _ _ => False.elim).bind fun d before => ?_
    have placed' := manner.arrives placed before.1
    refine ((mannerly.call name d placed').mono (fun _ => id) fun _ _ => account.behind before.1).bind fun x one => ?_
    have moved := manner.trans before.1 one.2.1
    refine ((ih (manner.arrives placed' one.2.1)).mono (fun _ => id) fun _ _ => account.behind moved).bind fun y others => ?_
    exact .pure ⟨manner.trans moved others.1,.cons (before.2.imp_right fun gap => ⟨rfl,gap⟩) one others.2⟩

theorem sequence_mannerly (mannerly : calls.Mannerly account ran atomic) (skip : Bool) (names : List String) (placed : manner.placed c) :
    (sequence calls skip atomic names c).Keeps account.toCourse
      (fun x => Row manner.Matches (fun c d => skip = true ∧ manner.Skipped ran c d) true names c x.1 x.2) (account.failed c) := by
  cases names with
  | nil => exact .pure .nil
  | cons name names =>
    refine (mannerly.call name c placed).bind fun x one => ?_
    refine ((elements_mannerly mannerly skip names (manner.arrives placed one.2.1)).mono (fun _ => id) fun _ _ =>
      account.behind one.2.1).bind fun y others => ?_
    exact .pure (.cons (.inl rfl) one others.2)

theorem alternatives_mannerly (mannerly : calls.Mannerly account ran atomic) (placed : manner.placed c) (label : String)
    (names : List String) (tried : List String) (far : Furthest) {s : σ}
    (known : account.failed c (far.ofChoice label) s ∨ far = .start c.pos ∧ names ≠ []) :
    (alternatives calls atomic label c names tried.length far).KeepsAt account.toCourse s
      (fun x => ∃ (i : Nat) (target : String), (tried ++ names)[i]? = some target ∧ x.2.1 = i ∧ manner.Matches target c x.1 x.2.2)
      (account.failed c) := by
  -- what has been merged is known, except before the first attempt, when nothing has
  induction names generalizing tried far s with
  | nil =>
    rcases known with known | ⟨_,some⟩
    · exact .raise known
    · exact (some rfl).elim
  | cons name names ih =>
    refine (mannerly.call name c placed s).tried ?_ ?_
    · intro f t led failed
      have known' : account.failed c ((far.note f).ofChoice label) t := by
        rcases known with known | ⟨rfl,_⟩
        · exact account.noted label (account.lasting known led) failed
        · exact account.begun label failed
      have rest := ih (tried ++ [name]) (far.note f) (.inl known')
      simpa using rest
    · intro x one
      exact .pure ⟨tried.length,name,by simp,rfl,one⟩

theorem repetition_mannerly (mannerly : calls.Mannerly account ran atomic) (skip : Bool) (inner : String) (rounds : Nat)
    (placed : manner.placed c) (items : List Value) :
    (repetition calls skip atomic inner rounds c items).Keeps account.toCourse (fun x => ∃ more, x.2 = more.reverse ++ items ∧
      Row (fun name c d v => manner.Matches name c d v ∧ d.pos ≠ c.pos) (fun c d => skip = true ∧ manner.Skipped ran c d)
        items.isEmpty (List.replicate more.length inner) c x.1 more) (account.failed c) := by
  induction rounds generalizing c items with
  | zero => exact .pure ⟨[],rfl,.nil⟩
  | succ rounds ih =>
    refine ((mannerly.gap placed (skip && !items.isEmpty)).mono (fun _ => id) fun _ _ => False.elim).bind fun d before => ?_
    have placed' := manner.arrives placed before.1
    refine ((mannerly.call inner d placed').tried (fun f t _ => ⟨account.refl t,[],rfl,.nil⟩) fun x one => ?_)
    obtain ⟨after,value⟩ := x
    dsimp only at one ⊢
    split
    · exact .pure ⟨[],rfl,.nil⟩
    · rename_i further
      have moved := manner.trans before.1 one.2.1
      refine (ih (manner.arrives placed' one.2.1) (value :: items)).mono ?_ fun _ _ => account.behind moved
      intro y got
      obtain ⟨more,same,row⟩ := got
      refine ⟨value :: more,by simp [same],.cons ?_ ⟨one,further⟩ row⟩
      -- separators were tried only if there was an item before
      refine before.2.imp_right fun gap => ?_
      rw [Bool.and_eq_true,Bool.not_eq_true'] at gap
      exact ⟨gap.1.2,gap.1.1,gap.2⟩

/-- The failures that a node tells are such as it may tell, and if it cannot run that is a halt there may be. -/
structure Permitted (node : Node) (source : Source) (account : Account σ manner) : Prop where
  terminal : ∀ {t c f}, node.body = .terminal t → t.move source node.label c = .error f → account.tells f.kind f.expected := by
    intros; trivial
  negative : ∀ {inner}, node.body = .lookahead inner true → account.tells .lookahead [node.label] := by intros; trivial
  declared : node.body = .declared → account.halts .notRunnable := by intros; trivial

theorem step_mannerly (source : Source) (mannerly : calls.Mannerly account ran atomic) {node : Node}
    (permitted : node.Permitted source account)
    (placed : manner.placed c) (empty : node.body = .sum [] → ∀ s, account.failed c ((Furthest.start c.pos).ofChoice node.label) s) :
    (node.step source calls atomic c).Keeps account.toCourse
      (fun x => node.Made source manner.Matches (manner.Skipped ran) c x.1 x.2) (account.failed c) := by
  unfold step
  cases body : node.body with
  | declared => exact .halt (permitted.declared body)
  | terminal t =>
    dsimp only
    split
    · rename_i moved
      exact .pure (.terminal body moved)
    · rename_i f failed
      have here := Terminal.pos_of_move_error failed
      have tells := permitted.terminal body failed
      obtain ⟨kind,msg,pos,labels⟩ := f
      dsimp only at here
      subst here
      exact .fail (account.told placed tells msg)
  | lookahead inner negative =>
    cases negative with
    | true =>
      refine ((mannerly.call inner c placed).attempt.hushed _).bind fun got _ => ?_
      cases got with
      | error f => exact .pure (.lookahead body)
      | ok x => exact .fail (account.told placed (permitted.negative body) _)
    | false =>
      refine (mannerly.call inner c placed).tried ?_ fun x _ => .pure (.lookahead body)
      intro f t failed
      exact .raise (account.relabelled _ failed)
  | atomic inner => exact (mannerly.within true inner c placed).bind fun x one => .pure (.atomic body one)
  | «alias» target => exact (mannerly.call target c placed).mono (fun x one => .alias body one) fun _ _ => id
  | scope inner flag => exact (mannerly.within flag inner c placed).mono (fun x one => .scope body one) fun _ _ => id
  | restore inner => exact (mannerly.call inner c placed).mono (fun x one => .restore body one) fun _ _ => id
  | push inner => exact (mannerly.call inner c placed).bind fun x one => .pure (.push body one)
  | product fields names skip => exact (sequence_mannerly mannerly skip fields placed).bind fun x row => .pure (.product body row)
  | sum variants =>
    intro s
    have known : account.failed c ((Furthest.start c.pos).ofChoice node.label) s ∨
        Furthest.start c.pos = .start c.pos ∧ variants ≠ [] := by
      by_cases none : variants = []
      · subst none
        exact .inl (empty body s)
      · exact .inr ⟨rfl,none⟩
    refine (alternatives_mannerly mannerly placed node.label variants [] _ known).bind fun x got => ?_
    obtain ⟨i,target,chosen,same,one⟩ := got
    obtain ⟨after,index,value⟩ := x
    cases same
    exact .pure (.sum body chosen one)
  | optional inner =>
    refine (mannerly.call inner c placed).tried (fun f t _ => ⟨account.refl t,.absent body⟩) fun x one => ?_
    exact .pure (.present body one)
  | list inner skip =>
    refine (repetition_mannerly mannerly skip inner _ placed []).bind fun x got => ?_
    obtain ⟨more,same,row⟩ := got
    obtain ⟨after,items⟩ := x
    obtain rfl : items = more.reverse := by simpa using same
    exact .pure (by simpa using Made.list body row)

end Node

namespace Skipping

variable {separator : String → Cursor → Run σ (Cursor × Value)}

theorem sweep_mannerly (calls : ∀ name c, manner.placed c → (separator name c).Keeps account.toCourse
      (fun x => manner.Matches name c x.1 x.2) (account.failed c)) (names : List String) (placed : manner.placed c) :
    (sweep separator names c).Keeps account.toCourse (manner.onward c) fun _ _ => False := by
  induction names generalizing c with
  | nil => exact .pure (manner.refl placed)
  | cons name rest ih =>
    refine (calls name c placed).tried (fun f t _ => ih placed t) fun x one => ?_
    dsimp only
    split
    · have moved := one.2.1
      exact (ih (manner.arrives placed moved)).mono (fun d => manner.trans moved) fun _ _ => id
    · exact ih placed

theorem sweeps_mannerly (calls : ∀ name c, manner.placed c → (separator name c).Keeps account.toCourse
      (fun x => manner.Matches name c x.1 x.2) (account.failed c)) (names : List String) (rounds : Nat) (placed : manner.placed c) :
    (sweeps separator names rounds c).Keeps account.toCourse (manner.onward c) fun _ _ => False := by
  induction rounds generalizing c with
  | zero => exact .pure (manner.refl placed)
  | succ rounds ih =>
    refine (sweep_mannerly calls names placed).bind fun d moved => ?_
    split
    · exact (ih (manner.arrives placed moved)).mono (fun e => manner.trans moved) fun _ _ => id
    · exact .pure moved

theorem skip_mannerly (calls : ∀ name c, manner.placed c → (separator name c).Keeps account.toCourse
      (fun x => manner.Matches name c x.1 x.2) (account.failed c)) (source : Source) (names : List String) (atomic : Bool)
    (placed : manner.placed c) :
    (skip source names separator atomic c).Keeps account.toCourse
      (fun d => manner.onward c d ∧ (d = c ∨ atomic = false)) fun _ _ => False := by
  unfold skip
  split
  · exact .pure ⟨manner.refl placed,.inl rfl⟩
  · rename_i opened
    have opened : atomic = false := by
      rw [Bool.or_eq_true,not_or,Bool.not_eq_true,Bool.not_eq_true] at opened
      exact opened.2
    exact ((sweeps_mannerly calls names _ placed).hushed _).mono (fun d moved => ⟨moved,.inr opened⟩) fun _ _ => id

end Skipping

namespace NodeTable

def callsAround (table : NodeTable) (source : Source)
    (around : String → Cursor → Run σ (Cursor × Value) → Run σ (Cursor × Value)) : Nat → List Entry → Calls σ :=
  table.callsBy source { around := around }

variable (table : NodeTable) (source : Source)

section Around
variable (around : String → Cursor → Run σ (Cursor × Value) → Run σ (Cursor × Value)) (frames : Nat) (active : List Entry)

theorem callsAround_succ (atomic : Bool) (name : String) (c : Cursor) :
    (table.callsAround source around (frames + 1) active).call atomic name c = around name c
      (match table.get? name with
      | none => .fail ⟨.undefinedRule,"unknown rule '" ++ name ++ "'",c.pos,[name]⟩
      | some node =>
        if Entry.isIn ⟨c.pos,name⟩ active then .halt (.leftRecursion name c.pos)
        else match frames with
          | 0 => .halt .tooDeep
          | left + 1 => .visiting (⟨c.pos,name⟩ :: active) c
              (node.step source (table.callsAround source around left (⟨c.pos,name⟩ :: active)) atomic c)) :=
  callsBy_call table source _ frames active atomic name c

theorem callsAround_within (flag : Bool) (name : String) (c : Cursor) :
    (table.callsAround source around frames active).within flag name c =
      (table.callsAround source around (frames - 1) active).call flag name c :=
  callsBy_within table source _ frames active flag name c

theorem callsAround_skip (atomic : Bool) (c : Cursor) :
    (table.callsAround source around (frames + 1) active).skip atomic c =
      Skipping.skip source table.separators ((table.callsAround source around frames active).within true) atomic c :=
  callsBy_skip table source _ frames active atomic c

theorem callsAround_nothing : table.callsAround source (fun _ _ run => run) frames active = (table.calls source frames active : Calls σ) :=
  callsBy_plain table source frames active

end Around

variable {table} in
theorem name_of_get? {name : String} {node : Node} (found : table.get? name = some node) : node.name = name := by
  simpa using List.find?_some found

/-- What a table has to guarantee of the calls of its nodes, given the same of the calls that they make. -/
structure Minds (table : NodeTable) (source : Source) {σ : Type} [Observer σ] {manner : Manner} (account : Account σ manner)
    (ran : Cursor → Cursor → Prop) : Prop where
  made : ∀ {name node c d v}, table.get? name = some node → manner.placed c →
    node.Made source manner.Matches (manner.Skipped ran) c d v → manner.onward c d ∧ manner.call name c d v
  empty : ∀ {node c}, node ∈ table.nodes → manner.placed c → node.body = .sum [] →
    ∀ s, account.failed c ((Furthest.start c.pos).ofChoice node.label) s
  permitted : ∀ node ∈ table.nodes, node.Permitted source account := by exact fun _ _ => {}

variable {table source} {around : String → Cursor → Run σ (Cursor × Value) → Run σ (Cursor × Value)}

theorem callsAround_mannerly (minds : table.Minds source account ran)
    (surround : ∀ name c run, manner.placed c → run.Keeps account.toCourse (fun x => manner.Matches name c x.1 x.2) (account.failed c) →
      (around name c run).Keeps account.toCourse (fun x => manner.Matches name c x.1 x.2) (account.failed c))
    (skips : ∀ frames active c d s, manner.placed c → ((table.callsAround source around frames active).skip false c s).1 = .matched d →
      ran c d)
    (frames : Nat) (active : List Entry) (atomic : Bool)
    (lost : ∀ name, table.get? name = none → account.tells .undefinedRule [name] ∨ ∀ c run, (around name c run).Keeps account.toCourse
      (fun x => manner.Matches name c x.1 x.2) (account.failed c) := by exact fun _ _ => .inl trivial) :
    (table.callsAround source around frames active).Mannerly account ran atomic := by
  -- a node at work calls with two frames less, what separators cost is one frame
  induction frames using Nat.strongRecOn generalizing active atomic with
  | ind frames ih =>
    cases frames with
    | zero => exact ⟨fun _ _ _ => .halt account.spent,fun _ _ _ _ => .halt account.spent,fun _ _ => .halt account.spent⟩
    | succ frames =>
      have below := ih frames (Nat.lt_succ_self _) active
      refine ⟨fun name c placed => ?_,fun flag name c placed => ?_,fun c placed => ?_⟩
      · rw [callsAround_succ]
        cases found : table.get? name with
        | none =>
          rcases lost name found with tells | guarded
          · exact surround name c _ placed (.fail (account.told placed tells _))
          · exact guarded c _
        | some node =>
          apply surround name c _ placed
          dsimp only
          split
          · exact .halt (account.again _ _)
          · cases frames with
            | zero => exact .halt account.spent
            | succ left =>
              have inner := ih left (by omega) (⟨c.pos,name⟩ :: active) atomic
              have member := List.mem_of_find?_eq_some found
              have stepped := Node.step_mannerly source inner (minds.permitted node member) placed (minds.empty member placed)
              refine (stepped.mono (fun x made => ⟨placed,minds.made found placed made⟩) fun _ _ => id).visiting _ _
      · rw [callsAround_within,Nat.add_sub_cancel]
        exact (below flag).call name c placed
      · have skipped : ((table.callsAround source around (frames + 1) active).skip atomic c).Keeps account.toCourse
            (fun d => manner.onward c d ∧ (d = c ∨ atomic = false)) fun _ _ => False := by
          rw [callsAround_skip]
          exact Skipping.skip_mannerly ((below true).within true) source table.separators atomic placed
        refine skipped.reached.mono ?_ fun _ _ => id
        intro d got
        obtain ⟨⟨moved,opened⟩,s,ended⟩ := got
        refine ⟨moved,opened.imp_right fun opened => ?_⟩
        subst opened
        exact ⟨placed,moved,skips (frames + 1) active c d s placed ended⟩

end NodeTable

def Manner.unseen {σ : Type} [Observer σ] (manner : Manner) : Account σ manner where
  leads _ _ := True
  refl _ := trivial
  trans _ _ := trivial
  visit _ _ _ := trivial
  hushed _ := trivial
  failed _ _ _ := True
  lasting _ _ := trivial
  told _ _ _ _ := ⟨trivial,trivial⟩
  behind _ _ := trivial
  relabelled _ _ := trivial
  begun _ _ := trivial
  noted _ _ _ := trivial

section Unseen
variable {manner : Manner} {ran : Cursor → Cursor → Prop} {calls : Calls σ} {atomic flag : Bool} {name : String} {c d : Cursor}
  {v : Value} {s : σ} {account : Account σ manner}

theorem Calls.Mannerly.of_call (mannerly : calls.Mannerly account ran atomic) (placed : manner.placed c)
    (matched : (calls.call atomic name c s).1 = .matched (d,v)) : manner.Matches name c d v := by
  have ended := (mannerly.call name c placed s).2
  rwa [matched] at ended

theorem Calls.Mannerly.of_within (mannerly : calls.Mannerly account ran atomic) (placed : manner.placed c)
    (matched : (calls.within flag name c s).1 = .matched (d,v)) : manner.Matches name c d v := by
  have ended := (mannerly.within flag name c placed s).2
  rwa [matched] at ended

theorem Calls.Mannerly.of_gap {allowed : Bool} (mannerly : calls.Mannerly account ran atomic) (placed : manner.placed c)
    (matched : (calls.gap allowed atomic c s).1 = .matched d) : manner.onward c d := by
  have ended := (mannerly.gap placed allowed s).2
  rw [matched] at ended
  exact ended.1

theorem Calls.Mannerly.gap_ne_failed {allowed : Bool} {f : Failure} (mannerly : calls.Mannerly account ran atomic)
    (placed : manner.placed c) :
    (calls.gap allowed atomic c s).1 ≠ .failed f := by
  intro failed
  have ended := (mannerly.gap placed allowed s).2
  rw [failed] at ended
  exact ended

variable {table : NodeTable} {source : Source}

/-- What a node makes of matches made in a manner is made in that manner; so are all matches of the table. -/
theorem NodeTable.calls_mannerly (made : ∀ {name node c d v}, table.get? name = some node → manner.placed c →
      node.Made source manner.Matches (manner.Skipped ran) c d v → manner.onward c d ∧ manner.call name c d v)
    (frames : Nat) (active : List Entry) (atomic : Bool)
    (skips : ∀ frames active c d (s : σ), ((table.calls source frames active).skip false c s).1 = .matched d →
      ran c d := by intros; trivial) :
    (table.calls source frames active : Calls σ).Mannerly manner.unseen ran atomic := by
  rw [← callsAround_nothing]
  refine callsAround_mannerly { made := made,empty := fun _ _ _ _ => trivial } (fun _ _ _ _ keeps => keeps) ?_ frames active atomic
  intro frames active c d s _ skipped
  rw [callsAround_nothing] at skipped
  exact skips frames active c d s skipped

end Unseen

/-- Where there are no separators nothing is skipped. -/
theorem NodeTable.skip_of_nil {table : NodeTable} {source : Source} (none : table.separators = []) {frames : Nat} {active : List Entry}
    {atomic : Bool} {c d : Cursor} {s : σ} (skipped : ((table.calls source frames active).skip atomic c s).1 = .matched d) : d = c := by
  cases frames with
  | zero => cases skipped
  | succ frames =>
    simp only [Table.calls,Skipping.skip,none,List.isEmpty_nil,Bool.true_or,if_true] at skipped
    cases skipped
    rfl

/-- A match stays where it is or comes nearer the end of the text, also outside the text. -/
def Manner.nearing (source : Source) : Manner where
  placed _ := True
  onward := Cursor.Nears source
  call _ _ _ _ := True
  refl _ := .inl rfl
  trans := .trans
  arrives _ _ := trivial

theorem NodeTable.calls_nearing (table : NodeTable) (source : Source) (frames : Nat) (active : List Entry) (atomic : Bool) :
    (table.calls source frames active : Calls σ).Mannerly (Manner.nearing source).unseen (fun _ _ => True) atomic := by
  refine calls_mannerly (fun {name node c d v} _ _ made => ⟨?_,trivial⟩) frames active atomic
  exact made.onward (fun _ one => one.2.1) (fun skipped => skipped.2.1) (fun _ => Terminal.move_nears) (fun _ => id) trivial

def Manner.anywhere : Manner where
  placed _ := True
  onward _ _ := True
  call _ _ _ _ := True
  refl _ := trivial
  trans _ _ := trivial
  arrives _ _ := trivial

def Course.anywhere (course : Course σ) (told : ∀ f s, course.leads s (Observer.fail f s)) (halts : ∀ h, course.halts h) :
    Account σ Manner.anywhere where
  toCourse := course
  failed _ _ _ := True
  lasting _ _ := trivial
  told _ _ _ s := ⟨told _ s,trivial⟩
  behind _ _ := trivial
  relabelled _ _ := trivial
  begun _ _ := trivial
  noted _ _ _ := trivial
  spent := halts _
  again _ _ := halts _

theorem NodeTable.calls_lead (course : Course σ) (told : ∀ f s, course.leads s (Observer.fail f s)) (halts : ∀ h, course.halts h)
    (table : NodeTable) (source : Source) (frames : Nat) (active : List Entry) (atomic : Bool) :
    (table.calls source frames active).Mannerly (course.anywhere told halts) (fun _ _ => True) atomic := by
  have minds : table.Minds source (course.anywhere told halts) fun _ _ => True :=
    { made := fun _ _ _ => ⟨trivial,trivial⟩,empty := fun _ _ _ _ => trivial,permitted := fun _ _ => { declared := fun _ => halts _ } }
  rw [← callsAround_nothing]
  exact callsAround_mannerly minds (fun _ _ _ _ keeps => keeps) (fun _ _ _ _ _ _ _ => trivial) frames active atomic

end TypedPeg
