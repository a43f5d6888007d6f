import Stencil.Proofs.Evaluation
import Stencil.Proofs.Parts
import Stencil.Tags.Standard
import Stencil.Template.Basic

/-!
# What compilation checks

Under the standard tags, every expression that a compiled template holds at any depth calls
registered filters only, and a template that does not compile fails with an error that belongs to
compilation and has its place.
-/
namespace Stencil

namespace Error

def IsCompileTime (e : Error) : Prop := e.cause.isCompileTime = true

/-- An error that no place is added to. -/
def Placed (e : Error) : Prop := ∀ l, e.locatedAt l = e

theorem placed_of_location (c : Cause) (l : Location) : Placed ⟨c, some l⟩ := by
  intro m
  simp [locatedAt]

theorem placed_locatedAt (l : Location) (e : Error) : (e.locatedAt l).Placed := by
  intro m
  cases hp : e.cause.hasPlace with
  | false => simp [locatedAt, hp]
  | true =>
    cases hl : e.location with
    | none => simp [locatedAt, hp, hl]
    | some k => simp [locatedAt, hp, hl]

theorem cause_locatedAt (l : Location) (e : Error) : (e.locatedAt l).cause = e.cause := by
  simp only [locatedAt]
  split
  · rfl
  · rfl

end Error

/-- An expression that calls registered filters only. -/
def Expr.Checked (filters : Filters) (e : Expr) : Prop :=
  ∀ call ∈ e.filterCalls, Table.contains call.name filters = true

namespace Part

def Checked (filters : Filters) : Part → Prop
  | .expr e => e.Checked filters
  | _ => True

def AllChecked (filters : Filters) (parts : List Part) : Prop := ∀ p ∈ parts, p.Checked filters

variable {filters : Filters} {p : Part} {ps qs : List Part}

@[simp] theorem allChecked_nil : AllChecked filters [] := by simp [AllChecked]

@[simp] theorem allChecked_cons :
    AllChecked filters (p :: ps) ↔ p.Checked filters ∧ AllChecked filters ps := by
  simp [AllChecked]

@[simp] theorem allChecked_append :
    AllChecked filters (ps ++ qs) ↔ AllChecked filters ps ∧ AllChecked filters qs := by
  simp only [AllChecked, List.mem_append]
  exact ⟨fun h => ⟨fun p hp => h p (.inl hp), fun p hp => h p (.inr hp)⟩,
    fun h p hp => hp.elim (h.1 p) (h.2 p)⟩

theorem allChecked_map_expr {es : List Expr} (h : ∀ e ∈ es, e.Checked filters) :
    AllChecked filters (es.map .expr) := by
  intro p hp
  obtain ⟨e, he, rfl⟩ := List.mem_map.mp hp
  exact h e he

end Part

open Stencil.Part (AllChecked)

theorem mem_partsOf {nodes : List Node} {p : Part} :
    p ∈ partsOf nodes ↔ ∃ node ∈ nodes, p ∈ node.parts := by
  induction nodes with
  | nil => simp [partsOf]
  | cons node nodes ih => simp [partsOf, ih]

theorem mem_clauseParts {clauses : List (TagSource × List Node)} {p : Part} :
    p ∈ clauseParts clauses ↔ ∃ clause ∈ clauses, p ∈ partsOf clause.2 := by
  induction clauses with
  | nil => simp [clauseParts]
  | cons clause clauses ih => simp [clauseParts, ih]

section

variable {filters : Filters}

theorem SourceText.checkFilters_ends (source : SourceText) (base : Nat) (e : Expr) :
    Ends (fun _ => e.Checked filters) Error.IsCompileTime (source.checkFilters base filters e) := by
  simp only [SourceText.checkFilters]
  cases hf : e.filterCalls.find? fun call => !Table.contains call.name filters with
  | some call => exact rfl
  | none =>
    intro call hcall
    have h := List.find?_eq_none.mp hf call hcall
    simpa using h

theorem SourceText.compileExpr_ends (source : SourceText) (base : Nat) (text : String) :
    Ends (·.Checked filters) Error.IsCompileTime (source.compileExpr base filters text) := by
  refine .bind (Q := fun _ => True) (.mapError (fun _ _ => trivial) fun _ _ => rfl) fun e _ => ?_
  exact .bind (source.checkFilters_ends base e) fun _ h => h

theorem SourceText.compileExpr_placed (source : SourceText) (base : Nat) (text : String) :
    Fails Error.Placed (source.compileExpr base filters text) := by
  refine .bind (Q := fun _ => True) (.mapError (fun _ _ => trivial) fun _ _ => ?_) fun e _ => ?_
  · exact Error.placed_of_location _ _
  · refine .bind (Q := fun _ => True) ?_ fun _ _ => trivial
    simp only [SourceText.checkFilters]
    split
    · exact Error.placed_of_location _ _
    · exact trivial

theorem checkAll_ends (source : SourceText) (base : Nat) (es : List Expr) :
    Ends (fun _ => ∀ e ∈ es, e.Checked filters) Error.IsCompileTime
      (es.forM (source.checkFilters base filters)) := by
  induction es with
  | nil => exact fun e he => by cases he
  | cons e es ih =>
    refine .bind (source.checkFilters_ends base e) fun _ he => ih.mono (fun _ h => ?_) fun _ h => h
    exact List.forall_mem_cons.mpr ⟨he, h⟩

theorem TagSource.compileStatement_ends (tag : TagSource) (production : Production) :
    Ends (fun s => ∀ e ∈ s.expressions, e.Checked filters) Error.IsCompileTime
      (tag.compileStatement filters production) := by
  refine .bind (Q := fun _ => True) (.mapError (fun _ _ => trivial) fun _ _ => rfl) fun s _ => ?_
  exact .bind (checkAll_ends tag.source tag.argsOffset s.expressions) fun _ h => h

/-- The rule of a tag checks what its action evaluates. -/
def TagRule.Sound (rule : TagRule) : Prop :=
  ∀ filters tag, Ends (fun action => AllChecked filters action.parts) Error.IsCompileTime
    (rule filters tag)

/-- The rule of a block checks what its action evaluates beside what its body does. -/
def BlockRule.Sound (rule : BlockRule) : Prop :=
  ∀ filters block, AllChecked filters (partsOf block.body) →
    AllChecked filters (clauseParts block.clauses) →
    Ends (fun action => AllChecked filters action.parts) Error.IsCompileTime
      (rule.compile filters block)

namespace Tags

theorem assign_sound : TagRule.Sound assign := by
  intro filters tag
  refine .bind (tag.compileStatement_ends _) fun s hs => ?_
  cases s with
  | assignment target value => exact Part.allChecked_cons.mpr ⟨trivial, Part.allChecked_map_expr hs⟩
  | expression | loop | cycle | when | «include» => exact rfl

theorem break_sound : TagRule.Sound breakTag := fun _ _ => Part.allChecked_nil

theorem continue_sound : TagRule.Sound continueTag := fun _ _ => Part.allChecked_nil

theorem cycle_sound : TagRule.Sound cycle := by
  intro filters tag
  simp only [cycle]
  split
  · exact rfl
  · refine .bind (tag.compileStatement_ends _) fun s hs => ?_
    cases s with
    | cycle group values => exact Part.allChecked_map_expr hs
    | expression | assignment | loop | when | «include» => exact rfl

theorem inclusion_sound (isolated : Bool) : TagRule.Sound (inclusion isolated) := by
  intro filters tag
  simp only [inclusion]
  split
  · exact rfl
  · refine .bind (tag.compileStatement_ends _) fun s hs => ?_
    cases s with
    | «include» template subject bindings =>
      exact Part.allChecked_cons.mpr ⟨trivial, Part.allChecked_map_expr hs⟩
    | expression | assignment | loop | cycle | when => exact rfl

theorem condition_ends (filters : Filters) (tag : TagSource) :
    Ends (·.Checked filters) Error.IsCompileTime (condition filters tag) := by
  simp only [condition]
  split
  · exact rfl
  · exact tag.source.compileExpr_ends _ _

theorem branches_ends (filters : Filters) {clauses : List (TagSource × List Node)}
    (h : AllChecked filters (clauseParts clauses)) :
    Ends (fun branches => AllChecked filters (branchParts branches)) Error.IsCompileTime
      (branches filters clauses) := by
  induction clauses with
  | nil => exact Part.allChecked_nil
  | cons clause clauses ih =>
    obtain ⟨tag, body⟩ := clause
    simp only [clauseParts, Part.allChecked_append] at h
    obtain ⟨hbody, hrest⟩ := h
    simp only [branches]
    split
    · cases clauses with
      | nil => simpa [Ends, branchParts, Guard.expressions] using hbody
      | cons next clauses => exact rfl
    · refine .bind (condition_ends filters tag) fun e he => .bind (ih hrest) fun rest hrest => ?_
      simp only [Ends, pure, Except.pure, branchParts, Part.allChecked_append]
      exact ⟨Part.allChecked_map_expr (by simpa [Guard.expressions] using he), hbody, hrest⟩

theorem conditional_sound (name : String) {first : Expr → Guard}
    (hfirst : ∀ e, (first e).expressions = [e]) : (conditional name first).Sound := by
  intro filters block hbody hclauses
  refine .bind (condition_ends filters block.tag) fun e he => ?_
  refine .bind (branches_ends filters hclauses) fun rest hrest => ?_
  simp only [Ends, pure, Except.pure, Action.parts, branchParts, Part.allChecked_append]
  exact ⟨Part.allChecked_map_expr (by simpa [hfirst] using he), hbody, hrest⟩

theorem whens_ends (filters : Filters) {clauses : List (TagSource × List Node)}
    (h : AllChecked filters (clauseParts clauses)) :
    Ends (fun r => AllChecked filters (whenParts r.1) ∧ AllChecked filters (partsOf r.2))
      Error.IsCompileTime (whens filters clauses) := by
  induction clauses with
  | nil => exact ⟨Part.allChecked_nil, Part.allChecked_nil⟩
  | cons clause clauses ih =>
    obtain ⟨tag, body⟩ := clause
    simp only [clauseParts, Part.allChecked_append] at h
    obtain ⟨hbody, hrest⟩ := h
    simp only [whens]
    split
    · cases clauses with
      | nil => exact ⟨Part.allChecked_nil, hbody⟩
      | cons next clauses => exact rfl
    · split
      · exact rfl
      · refine .bind (tag.compileStatement_ends _) fun s hs => ?_
        cases s with
        | when values =>
          refine .bind (ih hrest) fun r hr => ?_
          obtain ⟨hwhens, hotherwise⟩ := hr
          refine ⟨?_, hotherwise⟩
          simp only [whenParts, Part.allChecked_append]
          exact ⟨Part.allChecked_map_expr hs, hbody, hwhens⟩
        | expression | assignment | loop | cycle | «include» => exact rfl

theorem case_sound : caseBlock.Sound := by
  intro filters block hbody hclauses
  refine .bind (condition_ends filters block.tag) fun e he => ?_
  refine .bind (whens_ends filters hclauses) fun r hr => ?_
  obtain ⟨hwhens, hotherwise⟩ := hr
  simp only [Ends, pure, Except.pure, Action.parts, Part.allChecked_cons, Part.allChecked_append]
  exact ⟨he, hwhens, hotherwise⟩

theorem for_sound : forBlock.Sound := by
  intro filters block hbody hclauses
  simp only [forBlock]
  split
  · exact rfl
  · refine .bind (block.tag.compileStatement_ends _) fun s hs => ?_
    cases s with
    | loop item source modifiers =>
      have hparts {otherwise : List Node} (h : AllChecked filters (partsOf otherwise)) :
          AllChecked filters (Action.loop item source modifiers block.body otherwise).parts := by
        simp only [Action.parts, Part.allChecked_append]
        exact ⟨Part.allChecked_map_expr hs, hbody, h⟩
      dsimp only
      rcases hc : block.clauses with _ | ⟨⟨tag, otherwise⟩, _ | ⟨next, clauses⟩⟩
      · exact hparts Part.allChecked_nil
      · rw [hc] at hclauses
        simp only [clauseParts, Part.allChecked_append] at hclauses
        exact hparts hclauses.1
      · exact rfl
    | expression | assignment | cycle | when | «include» => exact rfl

theorem capture_sound : capture.Sound := by
  intro filters block hbody hclauses
  simp only [capture]
  split
  · exact rfl
  · exact rfl
  · exact Part.allChecked_cons.mpr ⟨trivial, hbody⟩

theorem raw_sound : raw.Sound := fun _ _ _ _ => Part.allChecked_nil

theorem comment_sound : comment.Sound := fun _ _ _ _ => Part.allChecked_nil

end Tags

end

namespace Grammar

/-- Only tags and blocks of the standard grammar, whatever the filters are. -/
structure OfStandardTags (g : Grammar) : Prop where
  tags : ∀ entry ∈ g.tags, ∃ name, (name, entry.2) ∈ standardTags
  blocks : ∀ entry ∈ g.blocks, entry.2 ∈ standardBlocks

namespace OfStandardTags

variable {g : Grammar}

theorem empty (filters : Filters) : OfStandardTags { filters } :=
  ⟨fun _ h => (List.not_mem_nil h).elim, fun _ h => (List.not_mem_nil h).elim⟩

theorem addTag (hg : g.OfStandardTags) {name : String} {rule : TagRule}
    (h : (name, rule) ∈ standardTags) (other : String) : (g.addTag other rule).OfStandardTags where
  tags entry he := by
    rcases Table.mem_of_mem_insert he with rfl | he
    · exact ⟨name, h⟩
    · exact hg.tags entry he
  blocks entry he := hg.blocks entry (List.mem_filter.mp he).1

theorem addBlock (hg : g.OfStandardTags) {rule : BlockRule} (h : rule ∈ standardBlocks) :
    (g.addBlock rule).OfStandardTags where
  tags entry he := hg.tags entry (List.mem_filter.mp he).1
  blocks entry he := by
    rcases Table.mem_of_mem_insert he with rfl | he
    · exact h
    · exact hg.blocks entry he

theorem addFilters (hg : g.OfStandardTags) (fs : List Filter) :
    (g.addFilters fs).OfStandardTags := by
  induction fs generalizing g with
  | nil => exact hg
  | cons f fs ih => exact ih ⟨hg.tags, hg.blocks⟩

theorem addTags (hg : g.OfStandardTags) {entries : List (String × TagRule)}
    (h : ∀ entry ∈ entries, entry ∈ standardTags) :
    (entries.foldl (fun g entry => g.addTag entry.1 entry.2) g).OfStandardTags := by
  induction entries generalizing g with
  | nil => exact hg
  | cons entry entries ih =>
    obtain ⟨hentry, hrest⟩ := List.forall_mem_cons.mp h
    exact ih (hg.addTag hentry entry.1) hrest

theorem addBlocks (hg : g.OfStandardTags) {rules : List BlockRule}
    (h : ∀ rule ∈ rules, rule ∈ standardBlocks) :
    (rules.foldl (fun g rule => g.addBlock rule) g).OfStandardTags := by
  induction rules generalizing g with
  | nil => exact hg
  | cons rule rules ih =>
    obtain ⟨hrule, hrest⟩ := List.forall_mem_cons.mp h
    exact ih (hg.addBlock hrule) hrest

theorem addStandardTags (hg : g.OfStandardTags) : g.addStandardTags.OfStandardTags :=
  (hg.addTags fun _ h => h).addBlocks fun _ h => h

theorem standard (fs : List Filter) :
    (Grammar.addFilters fs (Grammar.addStandardTags {})).OfStandardTags :=
  (OfStandardTags.empty []).addStandardTags.addFilters fs

theorem tag_sound (hg : g.OfStandardTags) {name : String} {rule : TagRule}
    (h : g.tag? name = some rule) : rule.Sound := by
  obtain ⟨standard, hrule⟩ := hg.tags _ (Table.mem_of_find? h)
  simp only [standardTags, List.mem_cons, Prod.mk.injEq, List.not_mem_nil, or_false] at hrule
  rcases hrule with ⟨-, rfl⟩ | ⟨-, rfl⟩ | ⟨-, rfl⟩ | ⟨-, rfl⟩ | ⟨-, rfl⟩ | ⟨-, rfl⟩
  · exact Tags.assign_sound
  · exact Tags.break_sound
  · exact Tags.continue_sound
  · exact Tags.cycle_sound
  · exact Tags.inclusion_sound false
  · exact Tags.inclusion_sound true

theorem block_sound (hg : g.OfStandardTags) {name : String} {rule : BlockRule}
    (h : g.block? name = some rule) : rule.Sound := by
  have hrule := hg.blocks _ (Table.mem_of_find? h)
  simp only [standardBlocks, List.mem_cons, List.not_mem_nil, or_false] at hrule
  rcases hrule with rfl | rfl | rfl | rfl | rfl | rfl | rfl
  · exact Tags.conditional_sound "if" fun _ => rfl
  · exact Tags.conditional_sound "unless" fun _ => rfl
  · exact Tags.case_sound
  · exact Tags.for_sound
  · exact Tags.capture_sound
  · exact Tags.raw_sound
  · exact Tags.comment_sound

end OfStandardTags

end Grammar

/-- A block that is open, as far as it is checked. -/
structure Frame.Checked (filters : Filters) (f : Frame) : Prop where
  rule : f.rule.Sound
  body : AllChecked filters (partsOf f.body)
  clauses : AllChecked filters (clauseParts f.clauses)

structure Progress.Checked (filters : Filters) (p : Progress) : Prop where
  root : AllChecked filters (partsOf p.root)
  frames : ∀ f ∈ p.frames, f.Checked filters

theorem Part.AllChecked.reverse {filters : Filters} {nodes : List Node}
    (h : AllChecked filters (partsOf nodes)) : AllChecked filters (partsOf nodes.reverse) := by
  intro p hp
  obtain ⟨node, hnode, hp⟩ := mem_partsOf.mp hp
  exact h p (mem_partsOf.mpr ⟨node, List.mem_reverse.mp hnode, hp⟩)

namespace Frame.Checked

variable {filters : Filters} {f : Frame}

theorem add (h : f.Checked filters) {node : Node} (hnode : AllChecked filters node.parts) :
    (f.add node).Checked filters := by
  obtain ⟨hrule, hbody, hclauses⟩ := h
  simp only [Frame.add]
  split
  · exact ⟨hrule, Part.allChecked_append.mpr ⟨hnode, hbody⟩, hclauses⟩
  · rename_i tag body clauses hc
    rw [hc] at hclauses
    simp only [clauseParts, Part.allChecked_append] at hclauses
    refine ⟨hrule, hbody, ?_⟩
    simp only [clauseParts, partsOf, Part.allChecked_append]
    exact ⟨⟨hnode, hclauses.1⟩, hclauses.2⟩

theorem startClause (h : f.Checked filters) (tag : TagSource) :
    (f.startClause tag).Checked filters :=
  ⟨h.rule, h.body, Part.allChecked_append.mpr ⟨Part.allChecked_nil, h.clauses⟩⟩

theorem block_clauses (h : f.Checked filters) :
    AllChecked filters (clauseParts f.block.clauses) := by
  intro p hp
  obtain ⟨clause, hclause, hp⟩ := mem_clauseParts.mp hp
  simp only [Frame.block, List.mem_reverse, List.mem_map] at hclause
  obtain ⟨⟨tag, body⟩, hmem, rfl⟩ := hclause
  refine Part.AllChecked.reverse (fun q hq => ?_) p hp
  exact h.clauses q (mem_clauseParts.mpr ⟨(tag, body), hmem, hq⟩)

end Frame.Checked

def Error.IsStructural (e : Error) : Prop := e.IsCompileTime ∧ e.Placed

theorem Ends.located {α : Type} {Q : α → Prop} {x : Except Error α} (l : Location)
    (h : Ends Q Error.IsCompileTime x) :
    Ends Q Error.IsStructural (x.mapError (·.locatedAt l)) := by
  cases x with
  | ok a => exact h
  | error e =>
    refine ⟨?_, Error.placed_locatedAt l e⟩
    simp only [Error.IsCompileTime, Error.cause_locatedAt]
    exact h

namespace Progress

variable {filters : Filters} {g : Grammar} {p : Progress}

theorem Checked.add (h : p.Checked filters) {node : Node} (hnode : AllChecked filters node.parts) :
    (p.add node).Checked filters := by
  obtain ⟨hroot, hframes⟩ := h
  simp only [Progress.add]
  split
  · exact ⟨Part.allChecked_append.mpr ⟨hnode, hroot⟩, hframes⟩
  · rename_i f frames hf
    rw [hf] at hframes
    obtain ⟨hfirst, hrest⟩ := List.forall_mem_cons.mp hframes
    exact ⟨hroot, List.forall_mem_cons.mpr ⟨hfirst.add hnode, hrest⟩⟩

theorem close_ends {root : List Node} {f : Frame} {outer : List Frame}
    (hroot : AllChecked filters (partsOf root)) (hf : f.Checked filters)
    (houter : ∀ f ∈ outer, f.Checked filters) :
    Ends (Checked filters) Error.IsStructural (close filters root f outer) := by
  have hrule := hf.rule filters f.block hf.body.reverse hf.block_clauses
  refine .bind (hrule.located f.tag.location) fun action haction => ?_
  exact Checked.add ⟨hroot, houter⟩ (Part.allChecked_cons.mpr ⟨trivial, haction⟩)

theorem addTag_ends (hg : g.OfStandardTags) (tag : TagSource) (h : p.Checked g.filters) :
    Ends (Checked g.filters) Error.IsStructural (p.addTag g tag) := by
  simp only [addTag]
  split
  · rename_i rule hrule
    refine ⟨h.root, List.forall_mem_cons.mpr ⟨?_, h.frames⟩⟩
    exact ⟨hg.block_sound hrule, Part.allChecked_nil, Part.allChecked_nil⟩
  · split
    · rename_i rule hrule
      have htag := (hg.tag_sound hrule g.filters tag).located tag.location
      refine .bind htag fun action haction => ?_
      exact h.add (Part.allChecked_cons.mpr ⟨trivial, haction⟩)
    · split
      · exact ⟨rfl, Error.placed_of_location _ _⟩
      · exact ⟨rfl, Error.placed_of_location _ _⟩

theorem step_ends (hg : g.OfStandardTags) (source : SourceText) (origin : Origin)
    (h : p.Checked g.filters) (piece : Piece) :
    Ends (Checked g.filters) Error.IsStructural (p.step g source origin piece) := by
  cases piece with
  | text s => exact h.add Part.allChecked_nil
  | output body offset span =>
    refine .bind (Q := fun e => e.Checked g.filters) ?_ fun e he => ?_
    · exact (source.compileExpr_ends offset body).and (source.compileExpr_placed offset body)
    · refine h.add (Part.allChecked_cons.mpr ⟨he, ?_⟩)
      exact Part.allChecked_cons.mpr ⟨trivial, Part.allChecked_nil⟩
  | tag name args offset span =>
    simp only [step]
    split
    · exact addTag_ends hg _ h
    · rename_i f outer hf
      have hframes := h.frames
      rw [hf] at hframes
      obtain ⟨hfirst, houter⟩ := List.forall_mem_cons.mp hframes
      split
      · exact close_ends h.root hfirst houter
      · split
        · exact ⟨h.root, List.forall_mem_cons.mpr ⟨hfirst.startClause _, houter⟩⟩
        · exact addTag_ends hg _ h

theorem steps_end (hg : g.OfStandardTags) (source : SourceText) (origin : Origin)
    (pieces : List Piece) (h : p.Checked g.filters) :
    Ends (Checked g.filters) Error.IsStructural
      (pieces.foldlM (Progress.step g source origin) p) := by
  induction pieces generalizing p with
  | nil => exact h
  | cons piece pieces ih =>
    rw [List.foldlM_cons]
    exact .bind (step_ends hg source origin h piece) fun q hq => ih hq

theorem finish_ends (h : p.Checked filters) :
    Ends (fun nodes => AllChecked filters (partsOf nodes)) Error.IsStructural p.finish := by
  simp only [finish]
  split
  · exact h.root.reverse
  · exact ⟨rfl, Error.placed_of_location _ _⟩

end Progress

/-- What compiles under the standard tags is checked, and what does not fails with the structure of
the template. -/
theorem Template.compile_ends {g : Grammar} (hg : g.OfStandardTags) (origin : Origin)
    (source : SourceText) :
    Ends (fun t => AllChecked g.filters (partsOf t.nodes)) Error.IsStructural
      (Template.compile g origin source) := by
  refine .bind (Q := fun _ => True) (.mapError (fun _ _ => trivial) fun e _ => ?_)
    fun pieces _ => ?_
  · exact ⟨rfl, Error.placed_of_location _ _⟩
  · refine .bind (Progress.steps_end hg source origin pieces ?_) fun p hp => ?_
    · exact ⟨Part.allChecked_nil, fun _ h => (List.not_mem_nil h).elim⟩
    · exact .bind (Progress.finish_ends hp) fun nodes hnodes => hnodes

end Stencil
