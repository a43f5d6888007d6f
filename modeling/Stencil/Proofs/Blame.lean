import Mathlib
import Stencil.Proofs.Compilation
import Stencil.Proofs.Positions

/-!
# Tags to blame

An error of the rule of a tag is at the tag or in its arguments. A block fails with one of its tags:
without that tag and what comes after it, the block compiles, and with the tag it fails there. The
actions that rules make have no places but those of the bodies that they take.
-/
namespace Stencil

namespace Error

/-- The error is in the text that has `size` bytes from `base` on, or right after it. -/
def InText (source : SourceText) (base size : Nat) (e : Error) : Prop :=
  ∃ n ≤ size, e.location = some (source.location (base + n))

/-- The error is at a tag or in its arguments. -/
def AtTag (tag : TagSource) (e : Error) : Prop :=
  e.location = some tag.location ∨ e.InText tag.source tag.argsOffset tag.args.utf8ByteSize

end Error

theorem TagSource.atTag_reject (tag : TagSource) (fault : SyntaxFault) :
    (tag.reject fault).AtTag tag := .inl rfl

section

variable {filters : Filters}

theorem SourceText.syntaxError_inText {α : Type} {source : SourceText} {base size : Nat}
    {Q : α → Prop} {r : Except SyntaxError α} (h : ReadWithin size Q r) :
    Ends Q (Error.InText source base size) (r.mapError (source.syntaxError base)) := by
  cases r with
  | error e => exact ⟨e.span.start, h, rfl⟩
  | ok a => exact h

theorem SourceText.checkFilters_inText (source : SourceText) (base : Nat) {size : Nat} {e : Expr}
    (h : e.Within size) :
    Fails (Error.InText source base size) (source.checkFilters base filters e) := by
  simp only [SourceText.checkFilters]
  split
  · rename_i call hcall
    exact ⟨call.span.start, h call (List.mem_of_find?_eq_some hcall), rfl⟩
  · exact trivial

theorem SourceText.compileExpr_inText (source : SourceText) (base : Nat) (text : String) :
    Fails (Error.InText source base text.utf8ByteSize) (source.compileExpr base filters text) :=
  .bind (source.syntaxError_inText (Expr.parse_within text)) fun _ he =>
    .bind (Q := fun _ => True) (source.checkFilters_inText base he) fun _ _ => trivial

theorem SourceText.checkAll_inText (source : SourceText) (base : Nat) {size : Nat} {es : List Expr}
    (h : ∀ e ∈ es, e.Within size) :
    Fails (Error.InText source base size) (es.forM (source.checkFilters base filters)) := by
  induction es with
  | nil => exact trivial
  | cons e es ih =>
    obtain ⟨he, hes⟩ := List.forall_mem_cons.mp h
    exact .bind (source.checkFilters_inText base he) fun _ _ => ih hes

theorem TagSource.compileExpr_atTag (tag : TagSource) :
    Fails (Error.AtTag tag) (tag.compileExpr filters) :=
  (tag.source.compileExpr_inText tag.argsOffset tag.args).mono (fun _ h => h) fun _ h => .inr h

theorem TagSource.compileStatement_atTag (tag : TagSource) (production : Production) :
    Fails (Error.AtTag tag) (tag.compileStatement filters production) := by
  have htext : Fails (Error.InText tag.source tag.argsOffset tag.args.utf8ByteSize)
      (tag.compileStatement filters production) :=
    .bind (tag.source.syntaxError_inText (Statement.parse_within production tag.args)) fun _ hs =>
      .bind (Q := fun _ => True) (tag.source.checkAll_inText _ hs) fun _ _ => trivial
  exact htext.mono (fun _ h => h) fun _ h => .inr h

end

namespace Part

/-- A place of the template with a name. What has no place is part of any template. -/
def SignedBy (name : Option String) : Part → Prop
  | .place l => l.template = name
  | _ => True

abbrev AllSigned (name : Option String) (parts : List Part) : Prop := ∀ p ∈ parts, p.SignedBy name

variable {name : Option String}

theorem allSigned_nil : AllSigned name [] := fun _ hp => (List.not_mem_nil hp).elim

theorem allSigned_exprs (es : List Expr) : AllSigned name (es.map .expr) := by
  intro p hp
  obtain ⟨e, -, rfl⟩ := List.mem_map.mp hp
  trivial

theorem AllSigned.append {ps qs : List Part} (hp : AllSigned name ps) (hq : AllSigned name qs) :
    AllSigned name (ps ++ qs) := List.forall_mem_append.mpr ⟨hp, hq⟩

end Part

open Stencil.Part (AllSigned allSigned_nil allSigned_exprs)

/-- The rule of a tag makes no place, and fails at the tag. -/
structure TagRule.Located (rule : TagRule) : Prop where
  signed {filters : Filters} {tag : TagSource} {action : Action} (name : Option String) :
    rule filters tag = .ok action → AllSigned name action.parts
  atTag (filters : Filters) (tag : TagSource) : Fails (Error.AtTag tag) (rule filters tag)

/-- The block compiles with the clauses before a tag, and with the tag it fails. -/
inductive BlockRule.Blames (rule : BlockRule) (filters : Filters) (block : BlockSource) :
    TagSource → Prop where
  | opening {e : Error} (h : rule.compile filters ⟨block.tag, block.body, []⟩ = .error e) :
    Blames rule filters block block.tag
  | clause {earlier later : List (TagSource × List Node)} {tag : TagSource} {body : List Node}
    {action : Action} {e : Error} (hclauses : block.clauses = earlier ++ (tag, body) :: later)
    (hbefore : rule.compile filters ⟨block.tag, block.body, earlier⟩ = .ok action)
    (h : rule.compile filters ⟨block.tag, block.body, earlier ++ [(tag, body)]⟩ = .error e) :
    Blames rule filters block tag

/-- The rule of a block has only places from its bodies, and fails at a tag that is to blame. -/
structure BlockRule.Located (rule : BlockRule) : Prop where
  signed {filters : Filters} {block : BlockSource} {action : Action} {name : Option String} :
    rule.compile filters block = .ok action → AllSigned name (partsOf block.body) →
      AllSigned name (clauseParts block.clauses) → AllSigned name action.parts
  blames {filters : Filters} {block : BlockSource} {e : Error} :
    rule.compile filters block = .error e → ∃ tag, rule.Blames filters block tag ∧ e.AtTag tag

/-- What is made of clauses fails with one of them. -/
def FailsAtClause {β : Type} (f : List (TagSource × List Node) → Except Error β)
    (clauses : List (TagSource × List Node)) (e : Error) : Prop :=
  ∃ earlier tag body later, clauses = earlier ++ (tag, body) :: later ∧ (∃ b, f earlier = .ok b) ∧
    f (earlier ++ [(tag, body)]) = .error e ∧ e.AtTag tag

namespace FailsAtClause

variable {β : Type} {f : List (TagSource × List Node) → Except Error β} {tag : TagSource}
  {body : List Node} {clauses : List (TagSource × List Node)} {e : Error} {b : β}

/-- A clause is read by itself, and then those that come after it are. -/
theorem cons {γ : Type} {x : Except Error γ} {k : γ → β → β} (hnil : f [] = .ok b)
    (hx : Fails (Error.AtTag tag) x)
    (hcons : ∀ later, f ((tag, body) :: later) = x >>= fun a => (f later).map (k a))
    (ih : f clauses = .error e → FailsAtClause f clauses e)
    (h : f ((tag, body) :: clauses) = .error e) : FailsAtClause f ((tag, body) :: clauses) e := by
  cases x with
  | error e' =>
    rw [hcons] at h
    cases h
    exact ⟨[], tag, body, clauses, rfl, ⟨b, hnil⟩, hcons [], hx⟩
  | ok a =>
    have hmap : ∀ later, f ((tag, body) :: later) = (f later).map (k a) := hcons
    rw [hmap] at h
    obtain ⟨earlier, tag', body', later, rfl, ⟨b', hb⟩, hfail, he⟩ := ih (map_eq_error.mp h)
    refine ⟨(tag, body) :: earlier, tag', body', later, rfl, ⟨k a b', ?_⟩, ?_, he⟩
    · rw [hmap, hb]
      rfl
    · rw [List.cons_append, hmap, hfail]
      rfl

/-- A rule that reads the tag of a block, and then its clauses, has a tag to blame. -/
theorem blames {γ : Type} {rule : BlockRule} {filters : Filters} {block : BlockSource}
    {x : Except Error γ} {k : γ → β → Action} (hx : Fails (Error.AtTag block.tag) x)
    (hrule : ∀ clauses, rule.compile filters ⟨block.tag, block.body, clauses⟩
      = x >>= fun a => (f clauses).map (k a))
    (hf : f block.clauses = .error e → FailsAtClause f block.clauses e)
    (h : rule.compile filters block = .error e) :
    ∃ tag, rule.Blames filters block tag ∧ e.AtTag tag := by
  have h : x >>= (fun a => (f block.clauses).map (k a)) = .error e := (hrule _).symm.trans h
  cases x with
  | error e' =>
    cases h
    exact ⟨block.tag, .opening (hrule []), hx⟩
  | ok a =>
    have hmap : ∀ clauses, rule.compile filters ⟨block.tag, block.body, clauses⟩
        = (f clauses).map (k a) := hrule
    obtain ⟨earlier, tag, body, later, hclauses, ⟨b', hb⟩, hfail, he⟩ := hf (map_eq_error.mp h)
    have hbefore : rule.compile filters ⟨block.tag, block.body, earlier⟩ = .ok (k a b') := by
      rw [hmap, hb]
      rfl
    have hlast : rule.compile filters ⟨block.tag, block.body, earlier ++ [(tag, body)]⟩
        = .error e := by
      rw [hmap, hfail]
      rfl
    exact ⟨tag, .clause hclauses hbefore hlast, he⟩

end FailsAtClause

namespace Tags

theorem assign_located : TagRule.Located assign where
  signed name h := by
    obtain ⟨s, -, h⟩ := bind_eq_ok.mp h
    cases s with
    | assignment target value =>
      cases h
      exact List.forall_mem_cons.mpr ⟨trivial, allSigned_exprs _⟩
    | expression | loop | cycle | when | «include» => cases h
  atTag filters tag := by
    refine .bind (tag.compileStatement_atTag _) fun s _ => ?_
    cases s with
    | assignment => trivial
    | expression | loop | cycle | when | «include» => exact tag.atTag_reject _

/-- A tag that takes no arguments. -/
theorem jump_located (signal : Signal) : TagRule.Located fun _ _ => .ok (.jump signal) where
  signed name h := by
    cases h
    exact allSigned_nil
  atTag _ _ := trivial

theorem cycle_located : TagRule.Located cycle where
  signed name h := by
    simp only [cycle] at h
    split at h
    · cases h
    · obtain ⟨s, -, h⟩ := bind_eq_ok.mp h
      cases s with
      | cycle group values =>
        cases h
        exact allSigned_exprs _
      | expression | assignment | loop | when | «include» => cases h
  atTag filters tag := by
    simp only [cycle]
    split
    · exact tag.atTag_reject _
    · refine .bind (tag.compileStatement_atTag _) fun s _ => ?_
      cases s with
      | cycle => trivial
      | expression | assignment | loop | when | «include» => exact tag.atTag_reject _

theorem inclusion_located (isolated : Bool) : TagRule.Located (inclusion isolated) where
  signed name h := by
    simp only [inclusion] at h
    split at h
    · cases h
    · obtain ⟨s, -, h⟩ := bind_eq_ok.mp h
      cases s with
      | «include» template subject bindings =>
        cases h
        exact List.forall_mem_cons.mpr ⟨trivial, allSigned_exprs _⟩
      | expression | assignment | loop | cycle | when => cases h
  atTag filters tag := by
    simp only [inclusion]
    split
    · exact tag.atTag_reject _
    · refine .bind (tag.compileStatement_atTag _) fun s _ => ?_
      cases s with
      | «include» => trivial
      | expression | assignment | loop | cycle | when => exact tag.atTag_reject _

variable {filters : Filters} {name : Option String}

theorem condition_atTag (filters : Filters) (tag : TagSource) :
    Fails (Error.AtTag tag) (condition filters tag) := by
  simp only [condition]
  split
  · exact tag.atTag_reject _
  · exact tag.compileExpr_atTag

theorem branches_signed {clauses : List (TagSource × List Node)}
    {bs : List (Guard × List Node)} (h : branches filters clauses = .ok bs)
    (hc : AllSigned name (clauseParts clauses)) : AllSigned name (branchParts bs) := by
  induction clauses generalizing bs with
  | nil =>
    cases h
    exact allSigned_nil
  | cons clause clauses ih =>
    obtain ⟨tag, body⟩ := clause
    obtain ⟨hbody, hrest⟩ := List.forall_mem_append.mp hc
    simp only [branches] at h
    split at h
    · cases clauses with
      | nil =>
        cases h
        exact .append allSigned_nil (.append hbody allSigned_nil)
      | cons next clauses => cases h
    · obtain ⟨guard, -, h⟩ := bind_eq_ok.mp h
      obtain ⟨rest, hrest', h⟩ := bind_eq_ok.mp h
      cases h
      exact .append (allSigned_exprs _) (.append hbody (ih hrest' hrest))

theorem branches_blame {clauses : List (TagSource × List Node)} {e : Error}
    (h : branches filters clauses = .error e) : FailsAtClause (branches filters) clauses e := by
  induction clauses with
  | nil => cases h
  | cons clause clauses ih =>
    obtain ⟨tag, body⟩ := clause
    by_cases helse : tag.name = "else"
    · cases clauses with
      | nil => simp [branches, helse] at h
      | cons next clauses =>
        simp only [branches, helse, if_true] at h
        cases h
        refine ⟨[(tag, body)], next.1, next.2, clauses, rfl, ⟨[(.always, body)], ?_⟩, ?_, .inl rfl⟩
        · simp [branches, helse]
        · simp [branches, helse]
    · refine .cons (k := fun guard rest => (.holds guard, body) :: rest) rfl
        (condition_atTag filters tag) (fun later => ?_) ih h
      simp only [branches, helse, if_false]
      exact congrArg (condition filters tag >>= ·) (funext fun _ => (map_eq_bind_pure _ _).symm)

theorem conditional_located (name : String) (first : Expr → Guard) :
    (conditional name first).Located where
  signed h hbody hclauses := by
    obtain ⟨guard, -, h⟩ := bind_eq_ok.mp h
    obtain ⟨rest, hrest, h⟩ := bind_eq_ok.mp h
    cases h
    exact .append (allSigned_exprs _) (.append hbody (branches_signed hrest hclauses))
  blames {filters block e} h := by
    refine FailsAtClause.blames (f := branches filters)
      (k := fun guard rest => .conditional ((first guard, block.body) :: rest))
      (condition_atTag filters block.tag) (fun clauses => ?_) branches_blame h
    exact congrArg (condition filters block.tag >>= ·) (funext fun _ => (map_eq_bind_pure _ _).symm)

theorem whens_signed {clauses : List (TagSource × List Node)}
    {r : List (List Expr × List Node) × List Node} (h : whens filters clauses = .ok r)
    (hc : AllSigned name (clauseParts clauses)) :
    AllSigned name (whenParts r.1 ++ partsOf r.2) := by
  induction clauses generalizing r with
  | nil =>
    cases h
    exact allSigned_nil
  | cons clause clauses ih =>
    obtain ⟨tag, body⟩ := clause
    obtain ⟨hbody, hrest⟩ := List.forall_mem_append.mp hc
    simp only [whens] at h
    split at h
    · cases clauses with
      | nil =>
        cases h
        exact .append allSigned_nil hbody
      | cons next clauses => cases h
    · split at h
      · cases h
      · obtain ⟨s, -, h⟩ := bind_eq_ok.mp h
        cases s with
        | when values =>
          obtain ⟨later, hlater, h⟩ := bind_eq_ok.mp h
          cases h
          obtain ⟨hwhens, hotherwise⟩ := List.forall_mem_append.mp (ih hlater hrest)
          exact .append (.append (allSigned_exprs _) (.append hbody hwhens)) hotherwise
        | expression | assignment | loop | cycle | «include» => cases h

/-- The values that a clause states. -/
def whenValues (filters : Filters) (clause : TagSource) : Except Error (List Expr) :=
  if clause.hasNoArgs then .error (clause.reject (.rejected "'when' requires a value"))
  else do
    match ← clause.compileStatement filters .when with
    | .when values => return values
    | _ => throw (clause.reject (.rejected "malformed 'when'"))

theorem whenValues_atTag (filters : Filters) (clause : TagSource) :
    Fails (Error.AtTag clause) (whenValues filters clause) := by
  simp only [whenValues]
  split
  · exact clause.atTag_reject _
  · refine .bind (clause.compileStatement_atTag _) fun s _ => ?_
    cases s with
    | when => trivial
    | expression | assignment | loop | cycle | «include» => exact clause.atTag_reject _

theorem whens_cons {clause : TagSource} {body : List Node} (helse : clause.name ≠ "else")
    (later : List (TagSource × List Node)) :
    whens filters ((clause, body) :: later) = whenValues filters clause >>= fun values =>
      (whens filters later).map fun r => ((values, body) :: r.1, r.2) := by
  simp only [whens, helse, if_false, whenValues]
  split
  · rfl
  · cases clause.compileStatement filters .when with
    | error e => rfl
    | ok s =>
      cases s with
      | when values => exact (map_eq_bind_pure _ _).symm
      | expression | assignment | loop | cycle | «include» => rfl

theorem whens_blame {clauses : List (TagSource × List Node)} {e : Error}
    (h : whens filters clauses = .error e) : FailsAtClause (whens filters) clauses e := by
  induction clauses with
  | nil => cases h
  | cons clause clauses ih =>
    obtain ⟨tag, body⟩ := clause
    by_cases helse : tag.name = "else"
    · cases clauses with
      | nil => simp [whens, helse] at h
      | cons next clauses =>
        simp only [whens, helse, if_true] at h
        cases h
        refine ⟨[(tag, body)], next.1, next.2, clauses, rfl, ⟨([], body), ?_⟩, ?_, .inl rfl⟩
        · simp [whens, helse]
        · simp [whens, helse]
    · exact .cons rfl (whenValues_atTag filters tag) (whens_cons helse) ih h

theorem case_located : caseBlock.Located where
  signed h hbody hclauses := by
    obtain ⟨subject, -, h⟩ := bind_eq_ok.mp h
    obtain ⟨rest, hrest, h⟩ := bind_eq_ok.mp h
    cases h
    exact List.forall_mem_cons.mpr ⟨trivial, whens_signed hrest hclauses⟩
  blames {filters block e} h := by
    refine FailsAtClause.blames (f := whens filters)
      (k := fun subject r => .choice subject r.1 r.2)
      (condition_atTag filters block.tag) (fun clauses => ?_) whens_blame h
    exact congrArg (condition filters block.tag >>= ·) (funext fun _ => (map_eq_bind_pure _ _).symm)

/-- The loop that a tag states. -/
def loopHead (filters : Filters) (tag : TagSource) :
    Except Error (String × Expr × LoopModifiers) :=
  if tag.hasNoArgs then
    .error (tag.reject (.rejected "'for' requires 'variable in collection'"))
  else do
    match ← tag.compileStatement filters .loop with
    | .loop item source modifiers => return (item, source, modifiers)
    | _ => throw (tag.reject (.rejected "malformed 'for'"))

/-- The nodes for no items, of a loop that is divided so. -/
def loopElse : List (TagSource × List Node) → Except Error (List Node)
  | [] => .ok []
  | [(_, otherwise)] => .ok otherwise
  | _ :: (clause, _) :: _ => .error (clause.reject (.rejected "'for' allows only one 'else'"))

theorem loopHead_atTag (filters : Filters) (tag : TagSource) :
    Fails (Error.AtTag tag) (loopHead filters tag) := by
  simp only [loopHead]
  split
  · exact tag.atTag_reject _
  · refine .bind (tag.compileStatement_atTag _) fun s _ => ?_
    cases s with
    | loop => trivial
    | expression | assignment | cycle | when | «include» => exact tag.atTag_reject _

theorem loopElse_blame {clauses : List (TagSource × List Node)} {e : Error}
    (h : loopElse clauses = .error e) : FailsAtClause loopElse clauses e := by
  rcases clauses with _ | ⟨first, _ | ⟨⟨clause, body⟩, later⟩⟩
  · cases h
  · cases h
  · cases h
    exact ⟨[first], clause, body, later, rfl, ⟨first.2, rfl⟩, rfl, .inl rfl⟩

theorem for_compile (filters : Filters) (tag : TagSource) (body : List Node)
    (clauses : List (TagSource × List Node)) :
    forBlock.compile filters ⟨tag, body, clauses⟩ = loopHead filters tag >>= fun head =>
      (loopElse clauses).map (.loop head.1 head.2.1 head.2.2 body) := by
  simp only [forBlock, loopHead]
  split
  · rfl
  · cases tag.compileStatement filters .loop with
    | error e => rfl
    | ok s =>
      cases s with
      | loop item source modifiers => rcases clauses with _ | ⟨_, _ | ⟨_, _⟩⟩ <;> rfl
      | expression | assignment | cycle | when | «include» => rfl

theorem for_located : forBlock.Located where
  signed {filters block action name} h hbody hclauses := by
    have h := (for_compile filters block.tag block.body block.clauses).symm.trans h
    obtain ⟨head, -, h⟩ := bind_eq_ok.mp h
    have hparts {otherwise : List Node} (ho : AllSigned name (partsOf otherwise)) :
        AllSigned name (Action.loop head.1 head.2.1 head.2.2 block.body otherwise).parts :=
      .append (allSigned_exprs _) (.append hbody ho)
    rcases hc : block.clauses with _ | ⟨⟨tag, otherwise⟩, _ | ⟨next, later⟩⟩
    · rw [hc] at h
      cases h
      exact hparts allSigned_nil
    · rw [hc] at h hclauses
      cases h
      exact hparts (List.forall_mem_append.mp hclauses).1
    · rw [hc] at h
      cases h
  blames {filters block e} h := FailsAtClause.blames (loopHead_atTag filters block.tag)
    (for_compile filters block.tag block.body) loopElse_blame h

/-- A capture is not divided. -/
def captureClauses : List (TagSource × List Node) → Except Error Unit
  | [] => .ok ()
  | (clause, _) :: _ => .error (clause.reject (.rejected "unexpected clause in 'capture'"))

theorem captureClauses_blame {clauses : List (TagSource × List Node)} {e : Error}
    (h : captureClauses clauses = .error e) : FailsAtClause captureClauses clauses e := by
  rcases clauses with _ | ⟨⟨clause, body⟩, later⟩
  · cases h
  · cases h
    exact ⟨[], clause, body, later, rfl, ⟨(), rfl⟩, rfl, .inl rfl⟩

theorem capture_located : capture.Located where
  signed h hbody _ := by
    simp only [capture] at h
    split at h
    · cases h
    · cases h
    · cases h
      exact List.forall_mem_cons.mpr ⟨trivial, hbody⟩
  blames {filters block e} h := by
    cases htarget : captureTarget? block.tag.args with
    | none =>
      simp only [capture, htarget] at h
      cases h
      have hopening : capture.compile filters ⟨block.tag, block.body, []⟩
          = .error (block.tag.reject (.rejected "'capture' requires a variable name")) := by
        simp only [capture, htarget]
      exact ⟨block.tag, .opening hopening, .inl rfl⟩
    | some target =>
      refine FailsAtClause.blames (f := captureClauses) (x := .ok target)
        (k := fun target _ => .capture target block.body) trivial (fun clauses => ?_)
        captureClauses_blame h
      simp only [capture, htarget]
      rcases clauses with _ | ⟨clause, later⟩ <;> rfl

/-- A block whose body is taken as it stands. -/
theorem verbatim_located {rule : BlockRule} {action : BlockSource → Action}
    (hrule : ∀ filters block, rule.compile filters block = .ok (action block))
    (hparts : ∀ block, (action block).parts = []) : rule.Located where
  signed h _ _ := by
    rw [hrule] at h
    cases h
    rw [hparts]
    exact allSigned_nil
  blames h := by
    rw [hrule] at h
    cases h

end Tags

namespace Grammar.OfStandardTags

variable {g : Grammar}

theorem tag_located (hg : g.OfStandardTags) {name : String} {rule : TagRule}
    (h : g.tag? name = some rule) : rule.Located := by
  obtain ⟨standard, hrule⟩ := hg.tags _ (Table.mem_of_find? h)
  simp only [standardTags, List.mem_cons, Prod.mk.injEq, List.not_mem_nil, or_false] at hrule
  rcases hrule with ⟨-, rfl⟩ | ⟨-, rfl⟩ | ⟨-, rfl⟩ | ⟨-, rfl⟩ | ⟨-, rfl⟩ | ⟨-, rfl⟩
  · exact Tags.assign_located
  · exact Tags.jump_located .leave
  · exact Tags.jump_located .next
  · exact Tags.cycle_located
  · exact Tags.inclusion_located false
  · exact Tags.inclusion_located true

theorem block_located (hg : g.OfStandardTags) {name : String} {rule : BlockRule}
    (h : g.block? name = some rule) : rule.Located := by
  have hrule := hg.blocks _ (Table.mem_of_find? h)
  simp only [standardBlocks, List.mem_cons, List.not_mem_nil, or_false] at hrule
  rcases hrule with rfl | rfl | rfl | rfl | rfl | rfl | rfl
  · exact Tags.conditional_located "if" .holds
  · exact Tags.conditional_located "unless" .fails
  · exact Tags.case_located
  · exact Tags.for_located
  · exact Tags.capture_located
  · exact Tags.verbatim_located (fun _ _ => rfl) fun _ => rfl
  · exact Tags.verbatim_located (fun _ _ => rfl) fun _ => rfl

end Grammar.OfStandardTags

end Stencil
