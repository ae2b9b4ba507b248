import TypedPeg.Proofs.Assembly.Complete
import TypedPeg.Proofs.Match.Guard

/-! Rules put behind those of a grammar, with nothing refused. The nodes there were stay as they were and
come first, whatever names the new rules bring; and as long as none of the old nodes refers to a name that
is not among theirs and no separator is new, whatever starts at one of them runs as it did. -/
namespace TypedPeg.NodeTable

variable {t t' table table' : NodeTable} {rules more : List Rule}

theorem insert_keeps (t : NodeTable) (n : Node) : t.nodes <+: (t.insert n).nodes := by
  rw [Table.nodes_insert]
  split
  · exact List.prefix_refl _
  · exact List.prefix_append _ _

theorem mergeNodes_keeps (t : NodeTable) (ns : List Node) : t.nodes <+: (t.mergeNodes ns).1.nodes := by
  induction ns generalizing t with
  | nil => exact List.prefix_refl _
  | cons n rest ih =>
    rw [Table.mergeNodes]
    split
    · exact ih t
    · exact (insert_keeps t n).trans (ih (t.insert n))

/-- One rule is added by a merge, whatever conflicts there are. -/
theorem addRules_lenient_cons (t : NodeTable) (part : Contribution Node) (parts : List (Contribution Node)) :
    (t.addRules false (part :: parts)).value = ((t.merge part.own.value).1.addRules false parts).value := by
  rw [Table.addRules]
  simp only [Bool.false_and,Bool.false_eq_true,if_false]

theorem addRules_lenient_ok (t : NodeTable) (parts : List (Contribution Node)) :
    ∃ t' : NodeTable, (t.addRules false parts).value = .ok t' ∧ t.nodes <+: t'.nodes := by
  induction parts generalizing t with
  | nil => exact ⟨t,rfl,List.prefix_refl _⟩
  | cons part parts ih =>
    obtain ⟨t',added,extended⟩ := ih (t.merge part.own.value).1
    exact ⟨t',(addRules_lenient_cons t part parts).trans added,(mergeNodes_keeps t _).trans extended⟩

theorem addRules_lenient_append {parts others : List (Contribution Node)} (added : (t.addRules false parts).value = .ok t') :
    (t.addRules false (parts ++ others)).value = (t'.addRules false others).value := by
  induction parts generalizing t with
  | nil =>
    cases added
    rfl
  | cons part parts ih =>
    rw [addRules_lenient_cons] at added
    rw [List.cons_append,addRules_lenient_cons]
    exact ih added

/-- What is added to a grammar brings no separators, if none of its rules is one. -/
theorem separators_of_addRules (added : (t.addRules false (more.map Rule.contribution)).value = .ok t') (extended : t.nodes <+: t'.nodes)
    (apart : ∀ rule ∈ more, rule.name ∉ Table.separatorNames) : t'.separators = t.separators := by
  refine List.filter_congr fun name separator => ?_
  rw [Bool.eq_iff_iff,Table.contains_iff,Table.contains_iff]
  constructor
  · intro present
    obtain ⟨node,member,rfl⟩ := List.mem_map.1 present
    rcases mem_addRules added member with old | ⟨part,among,inside⟩
    · exact List.mem_map_of_mem old
    · obtain ⟨rule,listed,rfl⟩ := List.mem_map.1 among
      have inside : node ∈ rule.lower := by rwa [← rule.nodes_table]
      -- a generated name has an underscore, and no separator has one
      have plain : ∀ name ∈ Table.separatorNames, '_' ∉ name.toList := by decide
      have same := (rule.lower_tidy.within node inside).eq_of_plain (plain _ separator)
      exact (apart rule listed (same ▸ separator)).elim
  · intro present
    obtain ⟨node,member,rfl⟩ := List.mem_map.1 present
    exact List.mem_map_of_mem (extended.subset member)

section Calls
variable {σ : Type} [Observer σ] {source : Source}

/-- Calls of the names of a table come to the same in one that has more nodes, if those there were call no others. -/
theorem calls_extended (extended : table.Extends table') (closed : table.undefined = []) (separators : table'.separators = table.separators)
    (frames : Nat) (active : List Entry) :
    let wide : Calls σ := table'.callsIf source true frames active
    let narrow : Calls σ := table.callsIf source true frames active
    (∀ atomic name, table.contains name = true → wide.call atomic name = narrow.call atomic name) ∧
      (∀ flag name, table.contains name = true → wide.within flag name = narrow.within flag name) ∧
      ∀ atomic, wide.skip atomic = narrow.skip atomic := by
  -- on the frames: a node at work calls its children with fewer, and those are names of the table again
  induction frames using Nat.strongRecOn generalizing active with
  | ind frames ih =>
    cases frames with
    | zero => exact ⟨fun _ _ _ => rfl,fun _ _ _ => rfl,fun _ => rfl⟩
    | succ frames =>
      obtain ⟨call,within,-⟩ := ih frames (Nat.lt_succ_self _) active
      refine ⟨fun atomic name known => ?_,fun flag name known => ?_,fun atomic => ?_⟩
      · funext c
        obtain ⟨node,found⟩ := Option.isSome_iff_exists.1 known
        simp only [callsIf_succ,found,extended.get? found]
        cases frames with
        | zero => rfl
        | succ left =>
          obtain ⟨call,within,skip⟩ := ih left (by omega) (⟨c.pos,name⟩ :: active)
          have children := undefined_eq_nil.1 closed node (List.mem_of_find?_eq_some found)
          have agrees : node.Agrees (table'.callsIf source true left (⟨c.pos,name⟩ :: active) : Calls σ)
              (table.callsIf source true left (⟨c.pos,name⟩ :: active)) atomic atomic :=
            ⟨fun _ child called => call atomic child (children child called),
              fun {flag} _ child called => within flag child (children child called),fun _ _ => skip atomic⟩
          dsimp only
          rw [Node.step_congr agrees]
      · funext c
        rw [callsIf_within,callsIf_within]
        exact congrFun (call flag name known) c
      · funext c
        rw [callsIf_skip,callsIf_skip,separators]
        refine Skipping.skip_congr source table.separators (fun name separator => ?_) atomic c
        exact within true name (List.mem_filter.1 separator).2

end Calls

/-- Rules that are put behind those of a grammar without loose ends, and that define no separator, leave its nodes in
place at the head of the table. Whatever starts at one of these ends as before, for whoever watches. -/
theorem ofRules_append (built : (ofRules rules false).value = .ok table) (closed : table.undefined = [])
    (apart : ∀ rule ∈ more, rule.name ∉ Table.separatorNames) :
    ∃ table' : NodeTable, (ofRules (rules ++ more) false).value = .ok table' ∧ table.nodes <+: table'.nodes ∧
      ∀ {σ : Type} [Observer σ] (source : Source) (frames : Nat) (active : List Entry) (atomic : Bool) (name : String) (c : Cursor) (s : σ),
        table.contains name = true →
          (table'.calls source frames active).call atomic name c s = (table.calls source frames active).call atomic name c s := by
  have added := (ofRules_iff.1 built).2
  obtain ⟨table',added',extended⟩ := addRules_lenient_ok table (more.map Rule.contribution)
  have built' : (ofRules (rules ++ more) false).value = .ok table' := by
    refine ofRules_iff.2 ⟨nofun,?_⟩
    rw [List.map_append,addRules_lenient_append added]
    exact added'
  have separators := separators_of_addRules added' extended apart
  refine ⟨table',built',extended,fun {σ} _ source frames active atomic name c s known => ?_⟩
  have same : (table'.callsIf source true frames active : Calls σ).call atomic name =
      (table.callsIf source true frames active).call atomic name :=
    (calls_extended (fun node member => extended.subset member) closed separators frames active).1 atomic name known
  rw [← callsIf_true,← callsIf_true,same]

def couple : List Rule := [⟨"couple",.normal,.seq (.ref "one") (.ref "one")⟩,⟨"one",.atomic,.choice (.literal "a") (.ref "ANY")⟩]

def clutter : List Rule :=
  [⟨"ANY",.normal,.literal "b"⟩,⟨"one",.silent,.literal "c"⟩,⟨"couple_1",.normal,.rep (.ref "one")⟩,⟨"lost",.nonAtomic,.ref "nowhere"⟩]

def coupleTable : NodeTable := (ofRules couple false).value.toOption.getD .empty

def clutteredTable : NodeTable := (ofRules (couple ++ clutter) false).value.toOption.getD .empty

theorem couple_cluttered : (ofRules couple false).value = .ok coupleTable ∧ coupleTable.undefined = [] ∧
    (∀ rule ∈ clutter, rule.name ∉ Table.separatorNames) ∧ (ofRules (couple ++ clutter) false).value = .ok clutteredTable ∧
    clutteredTable.undefined = ["nowhere"] ∧ coupleTable.nodes <+: clutteredTable.nodes ∧
    (clutteredTable.calls (.ofString "ax") 20 []).call false "couple" .start (Tracker.new true) =
      (coupleTable.calls (.ofString "ax") 20 []).call false "couple" .start (Tracker.new true) := by
  have built : (ofRules couple false).value = .ok coupleTable := ofRules_of_isOk (by decide +kernel)
  have built' : (ofRules (couple ++ clutter) false).value = .ok clutteredTable := ofRules_of_isOk (by decide +kernel)
  have closed : coupleTable.undefined = [] := by decide +kernel
  have apart : ∀ rule ∈ clutter, rule.name ∉ Table.separatorNames := by decide
  obtain ⟨table',appended,extended,same⟩ := ofRules_append built closed apart
  obtain rfl : clutteredTable = table' := Except.ok.inj (built'.symm.trans appended)
  exact ⟨built,closed,apart,built',by decide +kernel,extended,
    same (.ofString "ax") 20 [] false "couple" .start (Tracker.new true) (by decide +kernel)⟩

end TypedPeg.NodeTable
