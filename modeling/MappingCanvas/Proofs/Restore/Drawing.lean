/-
# What is drawn for rules

A rule that does not copy asks for steps between the source and the target, named for their role and
for the target field (`Role.id`), and every rule but a skip for links: some into its steps and one
that arrives at the target field (`Restore.steps`, `Restore.links`).  A drawing holds what its rules
ask for (`Drawn`, kept by each rule that is drawn): all links in order, and a step for each id, of
several that are asked for under one id the first.

Rules of one kind with one target field ask for steps of the same ids.  The first of them leads the
others (`leader`): its steps are drawn and its links come first (`find?_flatMap_of_leads`).  When no
two rules of one kind share a target field (`Separate`), every rule leads itself.
-/

import MappingCanvas.Proofs.Canvas.Index
import MappingCanvas.Proofs.Lists
import MappingCanvas.Restore.FromRules

namespace MappingCanvas
namespace Restore

/-! ### Roles -/

/-- What a step between source and target does. -/
inductive Role
  | constant | conditional | table | transform
  deriving DecidableEq

namespace Role

/-- The id of the step that has a role for a target field. -/
def id (role : Role) (target : String) : String :=
  match role with
  | constant => "static_" ++ target
  | conditional => "conditional_" ++ target
  | table => "table_" ++ target
  | transform => "transform_" ++ target

/-- The name of the actions that need a step in a role. -/
def actionName : Role → String
  | constant => "static"
  | conditional => "ifThen"
  | table | transform => "map"

/-- **An id tells the role and the target field.** -/
theorem id_inj {role role' : Role} {target target' : String} :
    role.id target = role'.id target' ↔ role = role' ∧ target = target' := by
  rw [← String.toList_inj, ← String.toList_inj]
  cases role <;> cases role' <;> simp [id, String.toList_append]

/-- No step has the id of the common source. -/
theorem id_ne_sourceId (role : Role) (target : String) : role.id target ≠ Drawing.sourceId := by
  rw [ne_eq, ← String.toList_inj]
  cases role <;> simp [id, String.toList_append, Drawing.sourceId]

/-- No step has the id of the common target. -/
theorem id_ne_targetId (role : Role) (target : String) : role.id target ≠ Drawing.targetId := by
  rw [ne_eq, ← String.toList_inj]
  cases role <;> simp [id, String.toList_append, Drawing.targetId]

end Role

/-! ### What a rule asks for -/

/-- An edge without its id. -/
structure Link where
  source : String
  sourceHandle : Option String
  target : String
  targetHandle : Option String
  deriving DecidableEq

/-- The link that an edge makes. -/
def link (e : Edge) : Link := ⟨e.source, e.sourceHandle, e.target, e.targetHandle⟩

/-- The ids and bodies of the steps that a rule asks for. -/
def steps (r : Rule) : List (String × Node.Body) :=
  match r.action with
  | .constant value =>
    [(Role.constant.id r.target, .transform (Role.constant.id r.target)
      (.constants [⟨Drawing.constantHandle, value⟩]))]
  | .choose condition whenTrue whenFalse =>
    [(Role.conditional.id r.target, .transform (Role.conditional.id r.target)
      (.conditional ⟨condition.operator, condition.value, whenTrue, whenFalse⟩))]
  | .lookUp table step =>
    [(Role.table.id r.target, .lookup ⟨"Lookup " ++ r.target, table, r.source⟩)] ++
      match step with
      | some step => [(Role.transform.id r.target,
          .transform (Role.transform.id r.target) step.operation)]
      | none => []
  | .copy | .skip => []

/-- The links into the steps of a rule. -/
def inputs (r : Rule) : List Link :=
  match r.action with
  | .choose _ _ _ => [⟨Drawing.sourceId, r.source, Role.conditional.id r.target, none⟩]
  | .lookUp _ none => [⟨Drawing.sourceId, r.source, Role.table.id r.target, none⟩]
  | .lookUp _ (some _) =>
    [⟨Drawing.sourceId, r.source, Role.transform.id r.target, none⟩] ++
      [⟨Role.transform.id r.target, none, Role.table.id r.target, none⟩]
  | .copy | .constant _ | .skip => []

/-- The link that arrives at the target field of a rule. -/
def arrival (r : Rule) : Link :=
  match r.action with
  | .copy | .skip => ⟨Drawing.sourceId, r.source, Drawing.targetId, some r.target⟩
  | .constant _ =>
    ⟨Role.constant.id r.target, some Drawing.constantHandle, Drawing.targetId, some r.target⟩
  | .choose _ _ _ => ⟨Role.conditional.id r.target, none, Drawing.targetId, some r.target⟩
  | .lookUp _ _ => ⟨Role.table.id r.target, none, Drawing.targetId, some r.target⟩

/-- Whether a rule is a skip. -/
def skips (r : Rule) : Bool :=
  match r.action with
  | .skip => true
  | _ => false

/-- The links that a rule asks for. -/
def links (r : Rule) : List Link := if skips r then [] else inputs r ++ [arrival r]

/-- A rule that is no skip asks for the links into its steps and then for the one that arrives. -/
theorem links_of_not_skips {r : Rule} (h : skips r = false) :
    links r = inputs r ++ [arrival r] := by
  rw [links, h]
  rfl

/-! ### What a drawing holds -/

/-- A drawing holds the nodes that it began with, a step for each id that was asked for, of several
that were asked for under one id the first, and the links that were asked for. -/
structure Drawn (first : List Node) (asked : List (String × Node.Body)) (wires : List Link)
    (d : Drawing) : Prop where
  nodup_ids : (d.nodes.map Node.id).Nodup
  nodes_eq : ∃ between, d.nodes = first ++ between ∧
    ∀ n ∈ between, asked.find? (fun p => p.1 == n.id) = some (n.id, n.body)
  mem_of_asked : ∀ p ∈ asked, p.1 ∈ d.nodes.map Node.id
  links_eq : d.edges.map link = wires

variable {first : List Node} {asked : List (String × Node.Body)} {wires : List Link} {d : Drawing}
  {layout : Layout}

/-- Before a rule is drawn nothing was asked for. -/
theorem drawn_start (h : (first.map Node.id).Nodup) : Drawn first [] [] ⟨first, [], 0⟩ where
  nodup_ids := h
  nodes_eq := ⟨[], (List.append_nil _).symm, fun _ hn => absurd hn List.not_mem_nil⟩
  mem_of_asked _ hp := absurd hp List.not_mem_nil
  links_eq := rfl

/-- **A node that is asked for is drawn, unless its id is taken.**  In either case the first one
that was asked for under the id is there. -/
theorem Drawn.addNode (h : Drawn first asked wires d) (id : String) (body : Node.Body) :
    Drawn first (asked ++ [(id, body)]) wires (d.addNode layout id body) := by
  obtain ⟨between, hbetween, hasked⟩ := h.nodes_eq
  have hmore : ∀ n ∈ between,
      (asked ++ [(id, body)]).find? (fun p => p.1 == n.id) = some (n.id, n.body) := fun n hn => by
    rw [List.find?_append, hasked n hn, Option.some_or]
  have hany : (d.nodes.any fun n => n.id == id) = true ↔ id ∈ d.nodes.map Node.id := by
    simp [List.any_eq_true]
  by_cases hid : id ∈ d.nodes.map Node.id
  · have hnodes : (d.addNode layout id body).nodes = d.nodes := by
      simp only [Drawing.addNode, hany.2 hid, if_true]
    refine ⟨?_, ?_, ?_, h.links_eq⟩ <;> rw [hnodes]
    · exact h.nodup_ids
    · exact ⟨between, hbetween, hmore⟩
    · intro p hp
      rcases List.mem_append.1 hp with hp | hp
      · exact h.mem_of_asked p hp
      · obtain rfl := List.mem_singleton.1 hp
        exact hid
  · have hnodes : (d.addNode layout id body).nodes =
        d.nodes ++ [⟨id, layout.position .transform d.rows, body⟩] := by
      simp only [Drawing.addNode, if_neg (mt hany.1 hid)]
    refine ⟨?_, ?_, ?_, h.links_eq⟩ <;> rw [hnodes]
    · rw [List.map_append]
      exact List.concat_eq_append ▸ h.nodup_ids.concat hid
    · refine ⟨_, by rw [hbetween, List.append_assoc], fun n hn => ?_⟩
      rcases List.mem_append.1 hn with hn | hn
      · exact hmore n hn
      · obtain rfl := List.mem_singleton.1 hn
        have hnone : asked.find? (fun p => p.1 == id) = none :=
          List.find?_eq_none.2 fun p hp hpid =>
            hid (beq_iff_eq.1 hpid ▸ h.mem_of_asked p hp)
        rw [List.find?_append, hnone, Option.none_or]
        exact List.find?_cons_of_pos (beq_self_eq_true id)
    · intro p hp
      rw [List.map_append, List.mem_append]
      rcases List.mem_append.1 hp with hp | hp
      · exact .inl (h.mem_of_asked p hp)
      · obtain rfl := List.mem_singleton.1 hp
        exact .inr List.mem_cons_self

/-- A link that is asked for is drawn. -/
theorem Drawn.connect (h : Drawn first asked wires d) (source : String)
    (sourceHandle : Option String) (target : String) (targetHandle : Option String) :
    Drawn first asked (wires ++ [⟨source, sourceHandle, target, targetHandle⟩])
      (d.connect source sourceHandle target targetHandle) where
  nodup_ids := h.nodup_ids
  nodes_eq := h.nodes_eq
  mem_of_asked := h.mem_of_asked
  links_eq := by
    rw [Drawing.connect, List.map_append, h.links_eq]
    rfl

/-- **A rule adds what it asks for.** -/
theorem Drawn.addRule (h : Drawn first asked wires d) {r : Rule} (hr : r.validate = .ok ()) :
    Drawn first (asked ++ steps r) (wires ++ links r) (d.addRule layout r) := by
  obtain ⟨source, target, action⟩ := r
  cases action with
  | copy =>
    cases source with
    | none => cases hr
    | some field =>
      rw [show steps ⟨some field, target, .copy⟩ = [] from rfl, List.append_nil]
      exact h.connect _ _ _ _
  | constant value => exact (h.addNode _ _).connect _ _ _ _
  | choose condition whenTrue whenFalse =>
    rw [links_of_not_skips rfl, ← List.append_assoc]
    exact ((h.addNode _ _).connect _ _ _ _).connect _ _ _ _
  | lookUp table step =>
    rw [links_of_not_skips rfl, ← List.append_assoc]
    cases step with
    | none => exact ((h.addNode _ _).connect _ _ _ _).connect _ _ _ _
    | some step =>
      rw [steps, inputs, ← List.append_assoc, ← List.append_assoc]
      exact ((((h.addNode _ _).addNode _ _).connect _ _ _ _).connect _ _ _ _).connect _ _ _ _
  | skip =>
    rw [show steps ⟨source, target, .skip⟩ = [] from rfl,
      show links ⟨source, target, .skip⟩ = [] from rfl, List.append_nil, List.append_nil]
    exact h

/-- **A drawing of valid rules holds what they ask for.** -/
theorem Drawn.foldl_addRule (h : Drawn first asked wires d) {rs : List Rule}
    (hrs : ∀ r ∈ rs, r.validate = .ok ()) :
    Drawn first (asked ++ rs.flatMap steps) (wires ++ rs.flatMap links)
      (rs.foldl (Drawing.addRule layout) d) := by
  induction rs generalizing asked wires d with
  | nil => simpa using h
  | cons r rs ih =>
    obtain ⟨hr, hrs⟩ := List.forall_mem_cons.1 hrs
    have hstep : Drawn first (asked ++ steps r) (wires ++ links r) (d.addRule layout r) :=
      h.addRule hr
    simpa using ih hstep hrs

/-- **Of the steps that are asked for under one id, the first is there as it was asked for.** -/
theorem Drawn.exists_node (h : Drawn first asked wires d) {p : String × Node.Body}
    (hfirst : ∀ n ∈ first, n.id ≠ p.1) (hp : asked.find? (fun q => q.1 == p.1) = some p) :
    ∃ n ∈ d.nodes, n.id = p.1 ∧ n.body = p.2 := by
  obtain ⟨n, hn, hid⟩ := List.mem_map.1 (h.mem_of_asked p (List.mem_of_find?_eq_some hp))
  obtain ⟨between, hbetween, hasked⟩ := h.nodes_eq
  refine ⟨n, hn, hid, ?_⟩
  rw [hbetween] at hn
  rcases List.mem_append.1 hn with hn | hn
  · exact absurd hid (hfirst n hn)
  · have hsame : some (n.id, n.body) = some p := (hasked n hn).symm.trans (hid ▸ hp)
    exact congrArg Prod.snd (Option.some.inj hsame)

/-! ### Rules and their roles -/

/-- A rule plays a role under an id when its action needs a step in the role and the id is that of
the step. -/
def Plays (r : Rule) (role : Role) (id : String) : Prop :=
  id = role.id r.target ∧ r.action.name = role.actionName

/-- A rule asks for steps in roles that it plays. -/
theorem exists_plays_of_mem_steps {r : Rule} {p : String × Node.Body} (hp : p ∈ steps r) :
    ∃ role, Plays r role p.1 := by
  obtain ⟨source, target, action⟩ := r
  cases action with
  | constant value =>
    obtain rfl := List.mem_singleton.1 hp
    exact ⟨.constant, rfl, rfl⟩
  | choose condition whenTrue whenFalse =>
    obtain rfl := List.mem_singleton.1 hp
    exact ⟨.conditional, rfl, rfl⟩
  | lookUp table step =>
    rcases List.mem_append.1 hp with hp | hp
    · obtain rfl := List.mem_singleton.1 hp
      exact ⟨.table, rfl, rfl⟩
    · cases step with
      | none => cases hp
      | some step =>
        obtain rfl := List.mem_singleton.1 hp
        exact ⟨.transform, rfl, rfl⟩
  | _ => cases hp

/-- A rule asks for links into steps whose roles it plays. -/
theorem exists_plays_of_mem_inputs {r : Rule} {l : Link} (hl : l ∈ inputs r) :
    ∃ role, Plays r role l.target := by
  obtain ⟨source, target, action⟩ := r
  cases action with
  | choose condition whenTrue whenFalse =>
    obtain rfl := List.mem_singleton.1 hl
    exact ⟨.conditional, rfl, rfl⟩
  | lookUp table step =>
    cases step with
    | none =>
      obtain rfl := List.mem_singleton.1 hl
      exact ⟨.table, rfl, rfl⟩
    | some step =>
      rcases List.mem_append.1 hl with hl | hl
      · obtain rfl := List.mem_singleton.1 hl
        exact ⟨.transform, rfl, rfl⟩
      · obtain rfl := List.mem_singleton.1 hl
        exact ⟨.table, rfl, rfl⟩
  | _ => cases hl

/-- The steps of one rule have different ids. -/
theorem nodup_steps (r : Rule) : ((steps r).map Prod.fst).Nodup := by
  obtain ⟨source, target, action⟩ := r
  rcases action with _ | _ | _ | ⟨table, _ | step⟩ | _ <;> simp [steps, Role.id_inj]

/-- The links of one rule lead to different nodes. -/
theorem nodup_links (r : Rule) : ((links r).map Link.target).Nodup := by
  obtain ⟨source, target, action⟩ := r
  rcases action with _ | _ | _ | ⟨table, _ | step⟩ | _ <;>
    simp [links, skips, inputs, arrival, Role.id_inj, Role.id_ne_targetId]

/-! ### The first of its kind -/

/-- The names of the actions whose rules need steps. -/
def stepActions : List String := ["static", "ifThen", "map"]

/-- Whether a rule asks for steps and another one for steps of the same ids: their actions are of
one kind and their target field is the same. -/
def sharesStep (r r' : Rule) : Bool :=
  stepActions.contains r.action.name && (r'.action.name == r.action.name && r'.target == r.target)

/-- The rule whose steps are drawn for a rule: the first one of its kind for its target field.  A
rule that asks for no step stands for itself. -/
def leader (rs : List Rule) (r : Rule) : Rule := (rs.find? (sharesStep r)).getD r

/-- Rules share steps when both need one, under the same id. -/
theorem sharesStep_iff {r r' : Rule} : sharesStep r r' = true ↔
    r.action.name ∈ stepActions ∧ r'.action.name = r.action.name ∧ r'.target = r.target := by
  simp [sharesStep]

/-- A role is played only by rules that need a step. -/
theorem actionName_mem_stepActions (role : Role) : role.actionName ∈ stepActions := by
  cases role <;> decide

/-- Rules that play roles under one id share a step. -/
theorem sharesStep_of_plays {r r' : Rule} {role role' : Role} {id : String} (h : Plays r role id)
    (h' : Plays r' role' id) : sharesStep r r' = true := by
  obtain ⟨rfl, htarget⟩ := Role.id_inj.1 (h'.1.symm.trans h.1)
  exact sharesStep_iff.2
    ⟨h.2.symm ▸ actionName_mem_stepActions role', h'.2.trans h.2.symm, htarget⟩

variable {rs : List Rule} {r : Rule}

/-- The leader of a rule is the rule itself, or another one that shares its step. -/
theorem leader_cases (rs : List Rule) (r : Rule) :
    leader rs r = r ∨ leader rs r ∈ rs ∧ sharesStep r (leader rs r) = true := by
  unfold leader
  cases h : rs.find? (sharesStep r) with
  | none => exact .inl rfl
  | some first => exact .inr ⟨List.mem_of_find?_eq_some h, List.find?_some h⟩

/-- The leader of one of the rules is one of them. -/
theorem leader_mem (hr : r ∈ rs) : leader rs r ∈ rs := by
  rcases leader_cases rs r with h | ⟨h, -⟩
  · exact h.symm ▸ hr
  · exact h

/-- A rule and its leader have the same target field. -/
theorem target_leader (rs : List Rule) (r : Rule) : (leader rs r).target = r.target := by
  rcases leader_cases rs r with h | ⟨-, h⟩
  · rw [h]
  · exact (sharesStep_iff.1 h).2.2

/-- A rule and its leader have actions of one kind. -/
theorem actionName_leader (rs : List Rule) (r : Rule) :
    (leader rs r).action.name = r.action.name := by
  rcases leader_cases rs r with h | ⟨-, h⟩
  · rw [h]
  · exact (sharesStep_iff.1 h).2.1

/-- A rule and its leader share their step with the same rules. -/
theorem sharesStep_leader (rs : List Rule) (r : Rule) :
    sharesStep (leader rs r) = sharesStep r := by
  funext r'
  rw [sharesStep, sharesStep, actionName_leader, target_leader]

/-- A leader leads itself. -/
theorem leader_leader (rs : List Rule) (r : Rule) : leader rs (leader rs r) = leader rs r := by
  conv_lhs => rw [leader, sharesStep_leader]
  unfold leader
  cases rs.find? (sharesStep r) <;> rfl

/-- A rule that needs a step and leads itself is the first with this step. -/
theorem find?_sharesStep (hr : r ∈ rs) (hleads : leader rs r = r)
    (hstep : r.action.name ∈ stepActions) : rs.find? (sharesStep r) = some r := by
  cases h : rs.find? (sharesStep r) with
  | none => exact absurd (sharesStep_iff.2 ⟨hstep, rfl, rfl⟩) (List.find?_eq_none.1 h r hr)
  | some first =>
    rw [leader, h] at hleads
    exact congrArg some hleads

/-- All rules lead themselves exactly when those that share a step are equal. -/
theorem forall_leader_eq_iff : (∀ r ∈ rs, leader rs r = r) ↔
    ∀ r ∈ rs, ∀ r' ∈ rs, sharesStep r r' = true → r' = r := by
  constructor
  · intro h r hr r' hr' hshares
    obtain ⟨-, hname, htarget⟩ := sharesStep_iff.1 hshares
    have hsame : sharesStep r' = sharesStep r := by
      funext r''
      rw [sharesStep, sharesStep, hname, htarget]
    have hstep := (sharesStep_iff.1 hshares).1
    have hfirst := find?_sharesStep hr' (h r' hr') (hname.symm ▸ hstep)
    rw [hsame, find?_sharesStep hr (h r hr) hstep] at hfirst
    exact (Option.some.inj hfirst).symm
  · intro h r hr
    rcases leader_cases rs r with hself | ⟨hmem, hshares⟩
    · exact hself
    · exact h r hr _ hmem hshares

/-- **What a leader asks for comes first under its key.**  The keys are ids of steps, or the id of
the target. -/
theorem find?_flatMap_of_leads {α : Type} {f : Rule → List α} {k : α → String}
    (hkeys : ∀ r, ∀ a ∈ f r, (∃ role, Plays r role (k a)) ∨ k a = Drawing.targetId)
    (hnodup : ∀ r, ((f r).map k).Nodup) (hr : r ∈ rs) (hleads : leader rs r = r) {a : α}
    (ha : a ∈ f r) {role : Role} (hplays : Plays r role (k a)) :
    (rs.flatMap f).find? (fun b => k b == k a) = some a := by
  have hstep : r.action.name ∈ stepActions := hplays.2.symm ▸ actionName_mem_stepActions role
  obtain ⟨-, before, after, rfl, hbefore⟩ :=
    List.find?_eq_some_iff_append.1 (find?_sharesStep hr hleads hstep)
  have hnone : (before.flatMap f).find? (fun b => k b == k a) = none := by
    refine List.find?_eq_none.2 fun b hb hkey => ?_
    obtain ⟨r', hr', hb⟩ := List.mem_flatMap.1 hb
    rcases hkeys r' b hb with ⟨role', hplays'⟩ | htarget
    · rw [beq_iff_eq.1 hkey] at hplays'
      have hshares := sharesStep_of_plays hplays hplays'
      simpa [hshares] using hbefore r' hr'
    · exact Role.id_ne_targetId role r.target
        (hplays.1.symm.trans ((beq_iff_eq.1 hkey).symm.trans htarget))
  rw [List.flatMap_append, List.find?_append, hnone, Option.none_or, List.flatMap_cons,
    List.find?_append, find?_key (hnodup r) ha, Option.some_or]

/-! ### Rules that keep apart -/

/-- No two constants, no two choices and no two lookups have the same target field. -/
def Separate (rs : List Rule) : Prop :=
  ∀ name ∈ stepActions, ((rs.filter fun r => r.action.name == name).map Rule.target).Nodup

/-- **Separate rules lead themselves.** -/
theorem Separate.leader_eq (h : Separate rs) (hr : r ∈ rs) : leader rs r = r := by
  rcases leader_cases rs r with hself | ⟨hmem, hshares⟩
  · exact hself
  · obtain ⟨hstep, hname, htarget⟩ := sharesStep_iff.1 hshares
    have hfilter : ∀ r' ∈ rs, r'.action.name = r.action.name →
        r' ∈ rs.filter fun r' => r'.action.name == r.action.name := fun r' hr' hname =>
      List.mem_filter.2 ⟨hr', beq_iff_eq.2 hname⟩
    exact List.inj_on_of_nodup_map (h _ hstep) (hfilter _ hmem hname) (hfilter r hr rfl) htarget

end Restore
end MappingCanvas
