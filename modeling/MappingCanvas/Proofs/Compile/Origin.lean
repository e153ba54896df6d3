/-
# Resolving by the node that an edge leaves

Each function that resolves an edge looks up the node at its other end and then decides by what
that node is.  Here the two are taken apart: `backAt`, `lookupInputAt` and `ruleAt` are the
decisions, and `lookBack_node`, `lookupInput_eq` and `resolve_eq` put the look-up in front of them.

`Resolves` lists the five ways in which an edge comes to a rule, and `resolve_eq_ok_iff` says that
there are no others.
-/

import MappingCanvas.Compile.Export
import MappingCanvas.Proofs.Result

namespace MappingCanvas
namespace Canvas

variable {c : Canvas} {id : String}

/-! ### The decisions -/

/-- The answer at the node that an edge leaves, or that node to go on from. -/
def backAt (e : Edge) (id : String) : Node.Body → Except Warning String ⊕ String
  | .source s => .inl (fieldName e id s)
  | .target s => .inl (.error (.unsupportedOrigin e.id id (Node.Body.target s).typeName))
  | .lookup _ | .transform _ _ | .unknown _ _ => .inr id

/-- The source field of a lookup and the step on its way, by the node that its input leaves. -/
def lookupInputAt (c : Canvas) (limit : Nat) (e : Edge) (id : String) :
    Node.Body → Except Warning (String × Option TextStep)
  | .source s => (fieldName e id s).map (·, none)
  | .transform _ (.text p) =>
    (c.inputField limit (limit - 1) id).map (·, TextStep.ofTextChange? p)
  | .transform _ (.split p) =>
    (c.inputField limit (limit - 1) id).map (·, some (TextStep.ofSplit p))
  | b => .error (.unsupportedOrigin e.id id b.typeName)

/-- The rule of a target field, by the node that the edge arriving there leaves. -/
def ruleAt (c : Canvas) (limit : Nat) (e : Edge) (target id : String) :
    Node.Body → Except Warning Rule
  | .source s => (fieldName e id s).map fun field => ⟨some field, target, .copy⟩
  | .transform _ (.constants values) =>
    match Constant.find? values e.sourceHandle? with
    | some constant => .ok ⟨none, target, .constant constant.value⟩
    | none => .error (.missingConstant id (e.sourceHandle?.getD ""))
  | .transform _ (.conditional p) =>
    (c.inputField limit limit id).map fun field =>
      ⟨some field, target, .choose ⟨p.operator, p.compareValue⟩ p.thenValue p.elseValue⟩
  | .lookup l => c.resolveLookup limit id l target
  | b => .error (.unsupportedOrigin e.id id b.typeName)

/-! ### One look back -/

/-- What a walk meets when it looks back from a node: an answer, or the node to go on from. -/
def lookBack (c : Canvas) (id : String) : Except Warning String ⊕ String :=
  match c.firstInput? id with
  | none => .inl (.error (.missingInput id))
  | some e =>
    match c.node? e.source with
    | none => .inl (.error (.unknownNode e.id e.source))
    | some n => backAt e n.id n.body

/-- From a node without input no walk goes on. -/
theorem lookBack_noInput (hi : c.firstInput? id = none) :
    c.lookBack id = .inl (.error (.missingInput id)) := by
  simp only [lookBack, hi]

/-- A walk ends at an edge from nowhere. -/
theorem lookBack_unknownNode {e : Edge} (hi : c.firstInput? id = some e)
    (hn : c.node? e.source = none) :
    c.lookBack id = .inl (.error (.unknownNode e.id e.source)) := by
  simp only [lookBack, hi, hn]

/-- A look back asks the node that the first input leaves. -/
theorem lookBack_node {e : Edge} {n : Node} (hi : c.firstInput? id = some e)
    (hn : c.node? e.source = some n) : c.lookBack id = backAt e n.id n.body := by
  simp only [lookBack, hi, hn]

/-- A walk goes on from a node exactly if it is neither source nor target. -/
theorem backAt_eq_inr_iff {e : Edge} {b : Node.Body} {next : String} :
    backAt e id b = .inr next ↔ b.schema? = none ∧ id = next := by
  cases b <;> simp [backAt, Node.Body.schema?]

/-- Looking back leads against an edge, to a node that is neither source nor target. -/
theorem exists_edge_of_lookBack {next : String} (h : c.lookBack id = .inr next) :
    ∃ e n, c.firstInput? id = some e ∧ c.node? e.source = some n ∧ n.body.schema? = none ∧
      n.id = next := by
  cases hi : c.firstInput? id with
  | none => simp [lookBack_noInput hi] at h
  | some e =>
    cases hn : c.node? e.source with
    | none => simp [lookBack_unknownNode hi hn] at h
    | some n =>
      rw [lookBack_node hi hn, backAt_eq_inr_iff] at h
      exact ⟨e, n, rfl, hn, h⟩

/-! ### The look-up in front -/

/-- To change an answer is to map it. -/
theorem bind_pure_eq_map {α β : Type} (r : Except Warning α) (f : α → β) :
    (r >>= fun a => pure (f a)) = r.map f := by
  cases r <;> rfl

/-- **A walk looks back once and goes on from there**, with one look less to spare. -/
theorem inputField_succ (c : Canvas) (limit steps : Nat) (id : String) :
    c.inputField limit (steps + 1) id =
      match c.lookBack id with
      | .inl r => r
      | .inr next => c.inputField limit steps next := by
  unfold lookBack
  rw [inputField]
  cases c.firstInput? id with
  | none => rfl
  | some e =>
    simp only [endpoint]
    cases c.node? e.source with
    | none => rfl
    | some n => obtain ⟨id, position, body⟩ := n; cases body <;> rfl

/-- Where a look back meets a step, the walk is the one from this step. -/
theorem inputField_succ_of_inr {limit steps : Nat} {next : String} (h : c.lookBack id = .inr next) :
    c.inputField limit (steps + 1) id = c.inputField limit steps next := by
  rw [inputField_succ, h]

/-- What a lookup takes from its input depends on the node that the input leaves. -/
theorem lookupInput_eq (c : Canvas) (limit : Nat) (e : Edge) :
    c.lookupInput limit e =
      match c.node? e.source with
      | none => .error (.unknownNode e.id e.source)
      | some n => c.lookupInputAt limit e n.id n.body := by
  simp only [lookupInput, endpoint]
  cases c.node? e.source with
  | none => rfl
  | some n =>
    obtain ⟨id, position, body⟩ := n
    cases body with
    | source s => exact bind_pure_eq_map (fieldName e id s) _
    | transform label operation =>
      cases operation with
      | text p => exact bind_pure_eq_map (c.inputField limit (limit - 1) id) _
      | split p => exact bind_pure_eq_map (c.inputField limit (limit - 1) id) _
      | _ => rfl
    | _ => rfl

/-- A lookup without input falls back on the field that it remembers. -/
theorem resolveLookup_eq (c : Canvas) (limit : Nat) (id : String) (l : Lookup) (target : String) :
    c.resolveLookup limit id l target =
      match c.firstInput? id with
      | none =>
        match l.sourceField with
        | some field => .ok ⟨some field, target, .lookUp l.table none⟩
        | none => .error (.missingInput id)
      | some e =>
        (c.lookupInput limit e).map fun r => ⟨some r.1, target, .lookUp l.table r.2⟩ := by
  unfold resolveLookup
  cases c.firstInput? id with
  | none => rfl
  | some e => exact bind_pure_eq_map (c.lookupInput limit e) _

/-- An edge is resolved by the node that it leaves. -/
theorem resolve_eq (c : Canvas) (limit : Nat) (e : Edge) (target : String) :
    c.resolve limit e target =
      match c.node? e.source with
      | none => .error (.unknownNode e.id e.source)
      | some n => c.ruleAt limit e target n.id n.body := by
  simp only [resolve, endpoint]
  cases c.node? e.source with
  | none => rfl
  | some n =>
    obtain ⟨id, position, body⟩ := n
    cases body with
    | source s => exact bind_pure_eq_map (fieldName e id s) _
    | transform label operation =>
      cases operation with
      | constants values =>
        simp only [ruleAt]
        cases h : Constant.find? values e.sourceHandle? <;> simp [bind, Except.bind, h] <;> rfl
      | conditional p => exact bind_pure_eq_map (c.inputField limit limit id) _
      | _ => rfl
    | _ => rfl

/-! ### The ways to a rule -/

/-- The name of a source field is found exactly if the edge has a handle that names a field. -/
theorem fieldName_eq_ok_iff {e : Edge} {s : Schema} {field : String} :
    fieldName e id s = .ok field ↔
      ∃ handle f, e.sourceHandle? = some handle ∧ Field.find? s.fields handle = some f ∧
        f.name = field := by
  unfold fieldName
  cases e.sourceHandle? with
  | none => simp
  | some handle => cases hf : Field.find? s.fields handle <;> simp [hf]

/-- The step that a lookup captures from an operation in front of it: none for a text change that
changes nothing, and no answer for an operation that no lookup reads through. -/
def captured? : Operation → Option (Option TextStep)
  | .text p => some (TextStep.ofTextChange? p)
  | .split p => some (some (TextStep.ofSplit p))
  | _ => none

/-- A lookup reads a source, or a text or split transform and through it a source further back. -/
theorem lookupInput_eq_ok_iff {limit : Nat} {e : Edge} {field : String} {step : Option TextStep} :
    c.lookupInput limit e = .ok (field, step) ↔
      ∃ n, c.node? e.source = some n ∧
        ((∃ s, n.body = .source s ∧ fieldName e n.id s = .ok field ∧ step = none) ∨
          ∃ label o, n.body = .transform label o ∧ captured? o = some step ∧
            c.inputField limit (limit - 1) n.id = .ok field) := by
  rw [lookupInput_eq]
  cases c.node? e.source with
  | none => simp
  | some n =>
    obtain ⟨id, position, body⟩ := n
    simp only [Option.some.injEq, exists_eq_left']
    cases body with
    | source s => simp [lookupInputAt, map_eq_ok_iff, eq_comm (a := none)]
    | transform label o =>
      cases o <;> simp [lookupInputAt, map_eq_ok_iff, captured?, and_comm]
    | _ => simp [lookupInputAt]

/-- The ways in which an edge comes to a rule for a target field, by the node that it leaves. -/
inductive Resolves (c : Canvas) (limit : Nat) (e : Edge) (target : String) : Rule → Prop
  | source {n : Node} {s : Schema} {field : String} (hn : c.node? e.source = some n)
      (hb : n.body = .source s) (hf : fieldName e n.id s = .ok field) :
      Resolves c limit e target ⟨some field, target, .copy⟩
  | constant {n : Node} {label : String} {values : List Constant} {k : Constant}
      (hn : c.node? e.source = some n) (hb : n.body = .transform label (.constants values))
      (hk : Constant.find? values e.sourceHandle? = some k) :
      Resolves c limit e target ⟨none, target, .constant k.value⟩
  | conditional {n : Node} {label field : String} {p : Conditional}
      (hn : c.node? e.source = some n) (hb : n.body = .transform label (.conditional p))
      (hf : c.inputField limit limit n.id = .ok field) :
      Resolves c limit e target
        ⟨some field, target, .choose ⟨p.operator, p.compareValue⟩ p.thenValue p.elseValue⟩
  | remembered {n : Node} {l : Lookup} {field : String} (hn : c.node? e.source = some n)
      (hb : n.body = .lookup l) (hi : c.firstInput? n.id = none)
      (hf : l.sourceField = some field) :
      Resolves c limit e target ⟨some field, target, .lookUp l.table none⟩
  | lookup {n : Node} {l : Lookup} {input : Edge} {field : String} {step : Option TextStep}
      (hn : c.node? e.source = some n) (hb : n.body = .lookup l)
      (hi : c.firstInput? n.id = some input)
      (hf : c.lookupInput limit input = .ok (field, step)) :
      Resolves c limit e target ⟨some field, target, .lookUp l.table step⟩

/-- **These are all the ways to a rule.** -/
theorem resolve_eq_ok_iff {limit : Nat} {e : Edge} {target : String} {r : Rule} :
    c.resolve limit e target = .ok r ↔ c.Resolves limit e target r := by
  rw [resolve_eq]
  constructor
  · intro h
    cases hn : c.node? e.source with
    | none => simp [hn] at h
    | some n =>
      rw [hn] at h
      simp only at h
      cases hb : n.body with
      | source s =>
        rw [hb] at h
        obtain ⟨field, hf, rfl⟩ := map_eq_ok_iff.1 h
        exact .source hn hb hf
      | transform label o =>
        rw [hb] at h
        cases o with
        | constants values =>
          simp only [ruleAt] at h
          split at h
          · rename_i k hk
            obtain rfl := Except.ok.inj h
            exact .constant hn hb hk
          · cases h
        | conditional p =>
          obtain ⟨field, hf, rfl⟩ := map_eq_ok_iff.1 h
          exact .conditional hn hb hf
        | _ => cases h
      | lookup l =>
        rw [hb] at h
        simp only [ruleAt, resolveLookup_eq] at h
        cases hi : c.firstInput? n.id with
        | none =>
          rw [hi] at h
          cases hf : l.sourceField with
          | none => simp [hf] at h
          | some field =>
            simp only [hf] at h
            obtain rfl := Except.ok.inj h
            exact .remembered hn hb hi hf
        | some input =>
          rw [hi] at h
          obtain ⟨⟨field, step⟩, hf, rfl⟩ := map_eq_ok_iff.1 h
          exact .lookup hn hb hi hf
      | _ =>
        rw [hb] at h
        cases h
  · intro h
    cases h with
    | source hn hb hf => simp only [hn, hb, ruleAt, hf, Except.map]
    | constant hn hb hk => simp only [hn, hb, ruleAt, hk]
    | conditional hn hb hf => simp only [hn, hb, ruleAt, hf, Except.map]
    | remembered hn hb hi hf => simp only [hn, hb, ruleAt, resolveLookup_eq, hi, hf]
    | lookup hn hb hi hf => simp only [hn, hb, ruleAt, resolveLookup_eq, hi, hf, Except.map]

end Canvas
end MappingCanvas
