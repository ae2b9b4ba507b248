import TypedPeg.Proofs.Match.Congruence
import TypedPeg.Proofs.Match.Made

/-! Tables in which whatever a node refers to is defined. As a node calls none but those it refers to,
matching one of its nodes never comes to a name that is not in such a table. -/
namespace TypedPeg

/-- Every failure told, whether or not a mute is open. -/
structure Overheard where
  failures : List Failure

instance : Observer Overheard where
  visit _ _ h := h
  fail f h := ⟨h.failures ++ [f]⟩
  mute _ h := h
  unmute _ h := h

section Spared
variable {σ : Type} [Observer σ]

/-- It stays true of an observer until it is told of an undefined name. -/
structure Spared (clean : σ → Prop) : Prop where
  visit : ∀ active c s, clean s → clean (Observer.visit active c s)
  fail : ∀ {f s}, f.kind ≠ .undefinedRule → clean s → clean (Observer.fail f s)
  mute : ∀ {why s}, clean s → clean (Observer.mute why s)
  unmute : ∀ {why s}, clean s → clean (Observer.unmute why s)

theorem spared_trivial : Spared fun _ : σ => True := ⟨fun _ _ _ => id,fun _ => id,id,id⟩

theorem Overheard.spared : Spared fun h : Overheard => ∀ f ∈ h.failures, f.kind ≠ .undefinedRule where
  visit _ _ _ := id
  fail other known := List.forall_mem_append.2 ⟨known,List.forall_mem_singleton.2 other⟩
  mute := id
  unmute := id

def Spared.account {clean : σ → Prop} (spared : Spared clean) : Account σ Manner.anywhere where
  leads s t := clean s → clean t
  refl _ := id
  trans first second := second ∘ first
  visit := spared.visit
  hushed led clean := spared.unmute (led (spared.mute clean))
  failed _ f _ := f.kind ≠ .undefinedRule
  lasting failed _ := failed
  tells kind _ := kind ≠ .undefinedRule
  told _ tells _ _ := ⟨spared.fail tells,tells⟩
  behind _ failed := failed
  relabelled _ _ := nofun
  begun _ _ := nofun
  noted _ _ _ := nofun

end Spared

namespace NodeTable

variable {σ : Type} [Observer σ] {table : NodeTable} {source : Source}

theorem undefined_eq_nil : table.undefined = [] ↔ ∀ node ∈ table.nodes, ∀ child ∈ node.body.children, table.contains child = true := by
  have listed (child : String) : child ∈ table.undefined ↔
      (∃ node ∈ table.nodes, child ∈ node.body.children) ∧ table.contains child = false := by
    rw [undefined,FirstSeen.ofList,FirstSeen.mem_addAll]
    simp
  rw [List.eq_nil_iff_forall_not_mem]
  constructor
  · intro none node member child called
    refine Bool.of_not_eq_false fun absent => ?_
    exact none child ((listed child).2 ⟨⟨node,member,called⟩,absent⟩)
  · intro closed child member
    obtain ⟨⟨node,inside,called⟩,absent⟩ := (listed child).1 member
    rw [closed node inside child called] at absent
    cases absent

/-- Calls of undefined names are given up. -/
def knowing (table : NodeTable) (name : String) (_ : Cursor) (run : Run σ (Cursor × Value)) : Run σ (Cursor × Value) :=
  if table.contains name then run else .halt .tooDeep

theorem callsAround_knowing (closed : table.undefined = []) (frames : Nat) (active : List Entry) :
    let guarded : Calls σ := table.callsAround source table.knowing frames active
    let plain : Calls σ := table.callsAround source (fun _ _ run => run) frames active
    (∀ atomic name, table.contains name = true → guarded.call atomic name = plain.call atomic name) ∧
      (∀ flag name, table.contains name = true → guarded.within flag name = plain.within flag name) ∧
      ∀ atomic, guarded.skip atomic = plain.skip atomic := by
  induction frames using Nat.strongRecOn generalizing active with
  | ind frames ih =>
    cases frames with
    | zero => exact ⟨fun _ _ _ => rfl,fun _ _ _ => rfl,fun _ => rfl⟩
    | succ frames =>
      obtain ⟨call,within,-⟩ := ih frames (Nat.lt_succ_self _) active
      refine ⟨fun atomic name known => ?_,fun flag name known => ?_,fun atomic => ?_⟩
      · funext c
        simp only [callsAround_succ,knowing,known,if_true]
        cases found : table.get? name with
        | none => rfl
        | some node =>
          cases frames with
          | zero => rfl
          | succ left =>
            have member := List.mem_of_find?_eq_some found
            have children := undefined_eq_nil.1 closed node member
            obtain ⟨call,within,skip⟩ := ih left (by omega) (⟨c.pos,name⟩ :: active)
            have agrees : node.Agrees (table.callsAround source table.knowing left (⟨c.pos,name⟩ :: active) : Calls σ)
                (table.callsAround source (fun _ _ run => run) left (⟨c.pos,name⟩ :: active)) atomic atomic :=
              ⟨fun _ child called => call atomic child (children child called),
                fun {flag} _ child called => within flag child (children child called),fun _ _ => skip atomic⟩
            dsimp only
            rw [Node.step_congr agrees]
      · funext c
        rw [callsAround_within,callsAround_within,Nat.add_sub_cancel,call flag name known]
      · funext c
        rw [callsAround_skip,callsAround_skip]
        refine Skipping.skip_congr source table.separators (fun name separator => ?_) atomic c
        exact within true name (List.mem_filter.1 separator).2

/-- Matching a node of a table without undefined names does not fail for want of a definition, and nobody is
told of such a failure in the course of it. -/
theorem calls_spared (closed : table.undefined = []) {clean : σ → Prop} (spared : Spared clean) {name : String}
    (known : table.contains name = true) (frames : Nat) (active : List Entry) (atomic : Bool) (c : Cursor) {s : σ} (before : clean s) :
    clean ((table.calls source frames active).call atomic name c s).2 ∧
      ∀ f, ((table.calls source frames active).call atomic name c s).1 = .failed f → f.kind ≠ .undefinedRule := by
  have minds : table.Minds source spared.account fun _ _ => True := by
    refine { made := fun _ _ _ => ⟨trivial,trivial⟩,empty := fun _ _ _ _ => nofun,permitted := fun node _ => ⟨?_,nofun,fun _ => trivial⟩ }
    intro t c f _ failed
    obtain ⟨kind,msg,shown,rfl,other⟩ := Terminal.move_error failed
    exact other
  have surround (name : String) (c : Cursor) (run : Run σ (Cursor × Value)) (_ : True)
      (keeps : run.Keeps spared.account.toCourse (fun x => Manner.anywhere.Matches name c x.1 x.2) (spared.account.failed c)) :
      (table.knowing name c run).Keeps spared.account.toCourse (fun x => Manner.anywhere.Matches name c x.1 x.2)
        (spared.account.failed c) := by
    unfold knowing
    split
    · exact keeps
    · exact .halt trivial
  have mannerly := callsAround_mannerly minds surround (fun _ _ _ _ _ _ _ => trivial) frames active atomic fun name lost => by
    refine .inr fun c run => ?_
    rw [knowing,if_neg (by rw [Table.contains,lost]; exact Bool.false_ne_true)]
    exact .halt trivial
  have ended := mannerly.call name c trivial s
  rw [(callsAround_knowing closed frames active).1 atomic name known,callsAround_nothing] at ended
  obtain ⟨leads,ended⟩ := ended
  refine ⟨leads before,fun f failed => ?_⟩
  rw [failed] at ended
  exact ended

end NodeTable

end TypedPeg
